import OpenBambu.Foundation.Bytes
import Mathlib.Data.Nat.Digits.Lemmas

/-!
# Decimal texts of natural numbers

`decimal` writes a number in base ten without leading zeros and `ofDecimal` reads
a run of digits. Reading what was written gives the number back.
-/

namespace OpenBambu.Foundation

def isDigit (b : Byte) : Bool := 0x30 ≤ b && b ≤ 0x39

def digitVal (b : Byte) : Nat := b.toNat - 48

def digitByte (d : Nat) : Byte := UInt8.ofNat (48 + d)

def decimal (n : Nat) : Bytes :=
  if n = 0 then [0x30] else (Nat.digits 10 n).reverse.map digitByte

def ofDecimal (ds : Bytes) : Nat := ds.foldl (fun acc c => 10 * acc + digitVal c) 0

theorem digitVal_digitByte {d : Nat} (h : d < 10) : digitVal (digitByte d) = d := by
  rw [digitVal, digitByte, UInt8.toNat_ofNat']
  omega

theorem isDigit_digitByte {d : Nat} (h : d < 10) : isDigit (digitByte d) = true := by
  interval_cases d <;> decide

theorem ofDecimal_eq (ds : Bytes) : ofDecimal ds = Nat.ofDigits 10 (ds.map digitVal).reverse := by
  induction ds using List.reverseRecOn with
  | nil => rfl
  | append_singleton ds c ih =>
      rw [ofDecimal, List.foldl_append, ← ofDecimal, ih]
      simp [Nat.ofDigits_cons, Nat.add_comm]

theorem ofDecimal_decimal (n : Nat) : ofDecimal (decimal n) = n := by
  unfold decimal
  split_ifs with h
  · subst h
    rfl
  · have hmap : ((Nat.digits 10 n).reverse.map digitByte).map digitVal = (Nat.digits 10 n).reverse := by
      rw [List.map_map]
      refine (List.map_congr_left fun d hd => ?_).trans (List.map_id _)
      exact digitVal_digitByte (Nat.digits_lt_base (by decide) (List.mem_reverse.mp hd))
    rw [ofDecimal_eq, hmap, List.reverse_reverse, Nat.ofDigits_digits]

theorem decimal_digits (n : Nat) : ∀ c ∈ decimal n, isDigit c = true := by
  intro c hc
  unfold decimal at hc
  split_ifs at hc
  · obtain rfl := List.mem_singleton.mp hc
    decide
  · obtain ⟨d, hd, rfl⟩ := List.mem_map.mp hc
    exact isDigit_digitByte (Nat.digits_lt_base (by decide) (List.mem_reverse.mp hd))

theorem decimal_length_le {n k : Nat} (h : n < 10 ^ k) (hk : 0 < k) : (decimal n).length ≤ k := by
  unfold decimal
  split_ifs with h0
  · exact hk
  · rw [List.length_map, List.length_reverse]
    exact (Nat.digits_length_le_iff (by decide) n).mpr h

theorem decimal_ne_nil (n : Nat) : decimal n ≠ [] := by
  unfold decimal
  split_ifs with h
  · simp
  · simp [Nat.digits_eq_nil_iff_eq_zero, h]

/-! ## Scanners

A scanner splits a text into what it takes off the front and the rest. -/

/-- One byte, when it satisfies the test. -/
def optional (p : Byte → Bool) : Bytes → Bytes × Bytes
  | [] => ([], [])
  | c :: s => if p c then ([c], s) else ([], c :: s)

/-- The digits at the front, possibly none. -/
def digits (s : Bytes) : Bytes × Bytes := (s.takeWhile isDigit, s.dropWhile isDigit)

/-- One scanner behind the other. -/
def andThen (f g : Bytes → Bytes × Bytes) (s : Bytes) : Bytes × Bytes :=
  ((f s).1 ++ (g (f s).2).1, (g (f s).2).2)

/-- The second scanner only behind something the first has taken. -/
def ifTaken (f g : Bytes → Bytes × Bytes) (s : Bytes) : Bytes × Bytes :=
  if (f s).1 = [] then f s else andThen f g s

/-- A run of digits in front of something that is not a digit. -/
theorem takeWhile_digits {ds rest : Bytes} (hd : ∀ c ∈ ds, isDigit c = true)
    (hr : ∀ c, rest.head? = some c → isDigit c = false) :
    (ds ++ rest).takeWhile isDigit = ds ∧ (ds ++ rest).dropWhile isDigit = rest := by
  induction ds with
  | nil =>
      cases rest with
      | nil => exact ⟨rfl, rfl⟩
      | cons c rest =>
          have hc := hr c rfl
          simp [hc]
  | cons c ds ih =>
      have hc := hd c (by simp)
      obtain ⟨ht, hdrop⟩ := ih fun x hx => hd x (by simp [hx])
      simp [hc, ht, hdrop]

section Steps

variable {f g : Bytes → Bytes × Bytes} {a b s s' rest : Bytes}

theorem andThen_eq (hf : f s = (a, s')) (hg : g s' = (b, rest)) : andThen f g s = (a ++ b, rest) := by
  rw [andThen, hf, hg]

theorem ifTaken_eq (hf : f s = (a, s')) (ha : a ≠ []) (hg : g s' = (b, rest)) :
    ifTaken f g s = (a ++ b, rest) := by
  rw [ifTaken, hf, if_neg ha, andThen_eq hf hg]

theorem ifTaken_skip (hf : f s = ([], s)) : ifTaken f g s = ([], s) := by
  rw [ifTaken, hf, if_pos rfl]

end Steps

theorem digits_append {ds rest : Bytes} (hd : ∀ c ∈ ds, isDigit c = true)
    (hr : ∀ c, rest.head? = some c → isDigit c = false) : digits (ds ++ rest) = (ds, rest) := by
  obtain ⟨ht, hdrop⟩ := takeWhile_digits hd hr
  rw [digits, ht, hdrop]

/-- It splits every text, takes only bytes with the property, and depends on the rest
only through the first byte of it. -/
structure Scanner (P : Byte → Prop) (f : Bytes → Bytes × Bytes) : Prop where
  append : ∀ s, (f s).1 ++ (f s).2 = s
  taken : ∀ s, ∀ c ∈ (f s).1, P c
  resume : ∀ s tail, tail.head? = (f s).2.head? → f ((f s).1 ++ tail) = ((f s).1, tail)

theorem Scanner.mono {P Q : Byte → Prop} {f : Bytes → Bytes × Bytes} (h : Scanner P f)
    (hpq : ∀ c, P c → Q c) : Scanner Q f :=
  ⟨h.append, fun s c hc => hpq c (h.taken s c hc), h.resume⟩

theorem optional_none {p : Byte → Bool} {s : Bytes} (h : ∀ c, s.head? = some c → p c = false) :
    optional p s = ([], s) := by
  cases s with
  | nil => rfl
  | cons c s => rw [optional, if_neg (by simp [h c rfl])]

theorem optional_cons {p : Byte → Bool} {c : Byte} (h : p c = true) (s : Bytes) :
    optional p (c :: s) = ([c], s) := by
  rw [optional, if_pos h]

theorem scanner_optional (p : Byte → Bool) : Scanner (fun c => p c = true) (optional p) where
  append s := by
    cases s with
    | nil => rfl
    | cons c s => rw [optional]; split_ifs <;> rfl
  taken s := by
    cases s with
    | nil => simp [optional]
    | cons c s =>
        rw [optional]
        split_ifs with hc <;> simp [hc]
  resume s tail h := by
    cases s with
    | nil => exact optional_none fun c hc => absurd (hc.symm.trans h) (by simp [optional])
    | cons c s =>
        by_cases hp : p c = true
        · simp [optional, hp]
        · rw [optional, if_neg hp] at h ⊢
          refine optional_none fun d hd => ?_
          obtain rfl := Option.some.inj (hd.symm.trans h)
          simpa using hp

theorem scanner_digits : Scanner (fun c => isDigit c = true) digits where
  append _ := List.takeWhile_append_dropWhile
  taken _ := List.all_eq_true.mp List.all_takeWhile
  resume s tail h := by
    have hstop : ∀ c, tail.head? = some c → isDigit c = false := by
      intro c hc
      rw [h, digits] at hc
      have := List.head?_dropWhile_not isDigit s
      simpa [hc] using this
    obtain ⟨ht, hd⟩ := takeWhile_digits (List.all_eq_true.mp (List.all_takeWhile (l := s))) hstop
    simp only [digits, ht, hd]

section Compose

variable {P : Byte → Prop} {f g : Bytes → Bytes × Bytes}

theorem Scanner.first (hf : Scanner P f) (hg : Scanner P g) {s tail : Bytes}
    (h : tail.head? = (g (f s).2).2.head?) :
    f ((f s).1 ++ ((g (f s).2).1 ++ tail)) = ((f s).1, (g (f s).2).1 ++ tail) := by
  refine hf.resume s _ ?_
  calc ((g (f s).2).1 ++ tail).head?
      = ((g (f s).2).1 ++ (g (f s).2).2).head? := by rw [List.head?_append, List.head?_append, h]
    _ = (f s).2.head? := by rw [hg.append]

theorem Scanner.andThen (hf : Scanner P f) (hg : Scanner P g) : Scanner P (andThen f g) where
  append s := by rw [Foundation.andThen, List.append_assoc, hg.append, hf.append]
  taken s c hc := by
    rcases List.mem_append.mp hc with hc | hc
    · exact hf.taken s c hc
    · exact hg.taken _ c hc
  resume s tail h := by
    simp only [Foundation.andThen, List.append_assoc] at h ⊢
    rw [hf.first hg h]
    simp only [hg.resume _ _ h]

theorem ifTaken_of_nil {s : Bytes} (h : (f s).1 = []) : ifTaken f g s = f s := if_pos h

theorem ifTaken_of_ne_nil {s : Bytes} (h : (f s).1 ≠ []) : ifTaken f g s = andThen f g s := if_neg h

theorem Scanner.ifTaken (hf : Scanner P f) (hg : Scanner P g) : Scanner P (ifTaken f g) where
  append s := by
    rw [Foundation.ifTaken]
    split_ifs
    · exact hf.append s
    · exact (hf.andThen hg).append s
  taken s := by
    rw [Foundation.ifTaken]
    split_ifs
    · exact hf.taken s
    · exact (hf.andThen hg).taken s
  resume s tail h := by
    by_cases hn : (f s).1 = []
    · rw [ifTaken_of_nil hn] at h ⊢
      rw [ifTaken_of_nil (by rw [hf.resume s tail h, hn]), hf.resume s tail h]
    · rw [ifTaken_of_ne_nil hn] at h ⊢
      have htaken : (f ((Foundation.andThen f g s).1 ++ tail)).1 ≠ [] := by
        rw [Foundation.andThen, List.append_assoc, hf.first hg h]
        exact hn
      rw [ifTaken_of_ne_nil htaken, (hf.andThen hg).resume s tail h]

end Compose

end OpenBambu.Foundation
