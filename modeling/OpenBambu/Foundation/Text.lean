import OpenBambu.Foundation.Decimal
import Mathlib.Data.List.TakeWhile

/-!
# Text over bytes

The C and C++ library calls that the line parsers use, in the "C" locale: character classes,
trimming, searching for one character, and `std::atoi`.
-/

namespace OpenBambu.Foundation

/-- `std::isspace`. -/
def isspace (b : Byte) : Bool := b = 0x20 || (0x09 ≤ b && b ≤ 0x0d)

/-- `std::tolower`. -/
def toLower (b : Byte) : Byte := if 0x41 ≤ b && b ≤ 0x5a then b + 0x20 else b

def lc (s : Bytes) : Bytes := s.map toLower

def trim (s : Bytes) : Bytes := ((s.dropWhile isspace).reverse.dropWhile isspace).reverse

def startsWith (s pre : Bytes) : Bool := s.take pre.length == pre

/-- What stands before and behind the first `sep`. -/
def cut (sep : Byte) : Bytes → Option (Bytes × Bytes)
  | [] => none
  | c :: s => if c = sep then some ([], s) else (cut sep s).map fun p => (c :: p.1, p.2)

/-- A line without the carriage return in front of its line feed. -/
def stripCr (line : Bytes) : Bytes :=
  if line.getLast? = some Ascii.cr then line.dropLast else line

/-- What stands behind the last `sep`. -/
def behindLast (sep : Byte) (s : Bytes) : Option Bytes :=
  if s.contains sep then some (s.reverse.takeWhile (· ≠ sep)).reverse else none

/-- The pieces between occurrences of `sep`, as a loop over `find` and `substr` cuts them: an
empty rest is not a piece. -/
def pieces (sep : Byte) : Bytes → List Bytes
  | [] => []
  | c :: s =>
      if c = sep then [] :: pieces sep s
      else
        match pieces sep s with
        | [] => [[c]]
        | p :: ps => (c :: p) :: ps

/-- What stands before and behind the first occurrence of `needle`. -/
def findText (needle : Bytes) : Bytes → Option (Bytes × Bytes)
  | [] => if needle = [] then some ([], []) else none
  | c :: s =>
      if startsWith (c :: s) needle then some ([], (c :: s).drop needle.length)
      else (findText needle s).map fun p => (c :: p.1, p.2)

def hexNibble (n : Nat) : Byte := UInt8.ofNat (if n < 10 then 48 + n else 87 + n)

/-- `%08x`. -/
def hex8 (v : UInt32) : Bytes :=
  [28, 24, 20, 16, 12, 8, 4, 0].map fun shift => hexNibble (v.toNat / 2 ^ shift % 16)

theorem hexNibble_injective {n m : Nat} (hn : n < 16) (hm : m < 16) (h : hexNibble n = hexNibble m) :
    n = m := by
  have hall : ∀ a < 16, ∀ b < 16, hexNibble a = hexNibble b → a = b := by decide +kernel
  exact hall n hn m hm h

/-- A number is known from its last hexadecimal digit and the number in front of it. -/
theorem eq_of_nibble {a b : Nat} (k : Nat) (hfront : a / (k * 16) = b / (k * 16)) (hdigit : a / k % 16 = b / k % 16) :
    a / k = b / k := by
  rw [← Nat.div_add_mod (a / k) 16, ← Nat.div_add_mod (b / k) 16, Nat.div_div_eq_div_mul, Nat.div_div_eq_div_mul,
    hfront, hdigit]

theorem hex8_injective {v w : UInt32} (h : hex8 v = hex8 w) : v = w := by
  have hdigit : ∀ k, hexNibble (v.toNat / k % 16) = hexNibble (w.toNat / k % 16) →
      v.toNat / k % 16 = w.toNat / k % 16 := fun k =>
    hexNibble_injective (Nat.mod_lt _ (by decide)) (Nat.mod_lt _ (by decide))
  simp only [hex8, List.map_cons, List.map_nil, List.cons.injEq, and_true] at h
  obtain ⟨h7, h6, h5, h4, h3, h2, h1, h0⟩ := h
  have hzero : ∀ u : UInt32, u.toNat / (2 ^ 28 * 16) = 0 := fun u => Nat.div_eq_of_lt u.toNat_lt
  have hfront : v.toNat / (2 ^ 28 * 16) = w.toNat / (2 ^ 28 * 16) := by rw [hzero v, hzero w]
  have h7 := eq_of_nibble (2 ^ 28) hfront (hdigit _ h7)
  have h6 := eq_of_nibble (2 ^ 24) h7 (hdigit _ h6)
  have h5 := eq_of_nibble (2 ^ 20) h6 (hdigit _ h5)
  have h4 := eq_of_nibble (2 ^ 16) h5 (hdigit _ h4)
  have h3 := eq_of_nibble (2 ^ 12) h4 (hdigit _ h3)
  have h2 := eq_of_nibble (2 ^ 8) h3 (hdigit _ h2)
  have h1 := eq_of_nibble (2 ^ 4) h2 (hdigit _ h1)
  have h0 := eq_of_nibble (2 ^ 0) h1 (hdigit _ h0)
  rw [Nat.pow_zero, Nat.div_one, Nat.div_one] at h0
  exact UInt32.toNat_inj.mp h0

/-- `std::atoi`: `strtol` with its limits, cast to `int`. -/
def atoi (s : Bytes) : Int :=
  let s := s.dropWhile isspace
  let neg := s.head? = some Ascii.minus
  let s := if s.head? = some Ascii.minus ∨ s.head? = some Ascii.plus then s.tail else s
  let n : Int := ofDecimal (s.takeWhile isDigit)
  (max (-2 ^ 63) (min (2 ^ 63 - 1) (if neg then -n else n))).bmod (2 ^ 32)

/-- `std::stoi`, `none` when it throws. -/
def stoi (s : Bytes) : Option Int :=
  let s := s.dropWhile isspace
  let neg := s.head? = some Ascii.minus
  let s := if s.head? = some Ascii.minus ∨ s.head? = some Ascii.plus then s.tail else s
  let n : Int := ofDecimal (s.takeWhile isDigit)
  let n := if neg then -n else n
  if s.takeWhile isDigit ≠ [] ∧ -2 ^ 31 ≤ n ∧ n < 2 ^ 31 then some n else none

/-! ## Digits as they are scanned -/

theorem digit_not_space {c : Byte} (h : isDigit c = true) : isspace c = false ∧ c ≠ Ascii.minus ∧ c ≠ Ascii.plus := by
  have hall : ∀ c : Byte, isDigit c = true → isspace c = false ∧ c ≠ Ascii.minus ∧ c ≠ Ascii.plus :=
    forall_byte (by decide +kernel)
  exact hall c h

/-- Digits have no white space and no sign in front, and are read to their end. -/
theorem digits_scanned {ds : Bytes} (hd : ∀ c ∈ ds, isDigit c = true) :
    ds.dropWhile isspace = ds ∧ ds.head? ≠ some Ascii.minus ∧ ds.head? ≠ some Ascii.plus ∧
      ds.takeWhile isDigit = ds := by
  refine ⟨?_, ?_, ?_, List.takeWhile_eq_self_iff.mpr hd⟩
  · cases ds with
    | nil => rfl
    | cons c ds => exact List.dropWhile_cons_of_neg (by simp [(digit_not_space (hd c List.mem_cons_self)).1])
  · exact fun hc => (digit_not_space (hd _ (List.mem_of_mem_head? hc))).2.1 rfl
  · exact fun hc => (digit_not_space (hd _ (List.mem_of_mem_head? hc))).2.2 rfl

/-- An `int` goes through `strtol` and the cast unchanged. -/
theorem int_of_long {n : Int} (hlow : -2 ^ 31 ≤ n) (hhigh : n < 2 ^ 31) :
    (max (-2 ^ 63) (min (2 ^ 63 - 1) n)).bmod (2 ^ 32) = n := by
  rw [min_eq_right (by omega), max_eq_right (by omega)]
  exact Int.bmod_eq_of_le (by omega) (by omega)

theorem atoi_digits {ds : Bytes} (hd : ∀ c ∈ ds, isDigit c = true) (h : ofDecimal ds < 2 ^ 31) :
    atoi ds = ofDecimal ds := by
  obtain ⟨hspace, hminus, hplus, hrun⟩ := digits_scanned hd
  simp only [atoi, hspace, hminus, hplus, or_self, if_false, hrun]
  exact int_of_long (by omega) (by omega)

theorem startsWith_iff {s pre : Bytes} : startsWith s pre = true ↔ pre <+: s := by
  rw [startsWith, beq_iff_eq, List.prefix_iff_eq_take, eq_comm]

theorem startsWith_append (pre s : Bytes) : startsWith (pre ++ s) pre = true := by
  rw [startsWith, List.take_left, beq_self_eq_true]

/-- The first separator of a text is not within bytes that have none. -/
theorem front_of_sep {sep : Byte} {w t x u : Bytes} (hw : ∀ c ∈ w, c ≠ sep) (h : w ++ t = x ++ sep :: u) :
    ∃ y, x = w ++ y ∧ t = y ++ sep :: u := by
  rcases List.append_eq_append_iff.1 h with ⟨y, hx, ht⟩ | ⟨y, hx, hy⟩
  · exact ⟨y, hx, ht⟩
  · cases y with
    | nil => exact ⟨[], by rw [hx, List.append_nil, List.append_nil], hy.symm⟩
    | cons c y =>
        obtain ⟨rfl, -⟩ := List.cons.inj hy
        exact absurd rfl (hw sep (by rw [hx]; exact List.mem_append_right x List.mem_cons_self))

theorem findText_append {needle t before s : Bytes} (h : findText needle t = some (before, s)) :
    t = before ++ (needle ++ s) := by
  induction t generalizing before with
  | nil =>
      rw [findText] at h
      split_ifs at h with hn
      obtain ⟨rfl, rfl⟩ := Prod.mk.inj (Option.some.inj h)
      rw [hn]
      rfl
  | cons c t ih =>
      rw [findText] at h
      split_ifs at h with hs
      · obtain ⟨rfl, rfl⟩ := Prod.mk.inj (Option.some.inj h)
        obtain ⟨v, hv⟩ := startsWith_iff.mp hs
        rw [← hv, List.drop_left, List.nil_append]
      · obtain ⟨p, hp, he⟩ := Option.map_eq_some_iff.mp h
        obtain ⟨rfl, rfl⟩ := Prod.mk.inj he
        rw [List.cons_append, ← ih hp]

theorem findText_self (needle s : Bytes) : findText needle (needle ++ s) = some ([], s) := by
  cases hn : needle ++ s with
  | nil =>
      obtain ⟨rfl, rfl⟩ := List.append_eq_nil_iff.1 hn
      rfl
  | cons c t =>
      rw [findText, ← hn, if_pos (startsWith_append needle s), List.drop_left]

/-- The first occurrence stays the first, whatever stands behind it. -/
theorem findText_change {needle t before s : Bytes} (h : findText needle t = some (before, s)) (s' : Bytes) :
    findText needle (before ++ (needle ++ s')) = some (before, s') := by
  induction t generalizing before with
  | nil =>
      rw [findText] at h
      split_ifs at h
      obtain ⟨rfl, -⟩ := Prod.mk.inj (Option.some.inj h)
      exact findText_self needle s'
  | cons c t ih =>
      rw [findText] at h
      split_ifs at h with hs
      · obtain ⟨rfl, -⟩ := Prod.mk.inj (Option.some.inj h)
        exact findText_self needle s'
      · obtain ⟨p, hp, he⟩ := Option.map_eq_some_iff.mp h
        obtain ⟨rfl, rfl⟩ := Prod.mk.inj he
        have hno : ¬ startsWith (c :: (p.1 ++ (needle ++ s'))) needle = true := by
          rw [startsWith_iff] at hs ⊢
          intro hpre
          have hfront : c :: (p.1 ++ needle) <+: c :: (p.1 ++ (needle ++ s')) := by
            rw [← List.append_assoc]
            exact List.prefix_append (c :: (p.1 ++ needle)) s'
          have hin : needle <+: c :: (p.1 ++ needle) := by
            apply List.prefix_of_prefix_length_le hpre hfront
            rw [List.length_cons, List.length_append]
            omega
          apply hs
          rw [findText_append hp, ← List.append_assoc]
          exact hin.trans (List.prefix_append (c :: (p.1 ++ needle)) p.2)
        rw [List.cons_append, findText, if_neg hno, ih hp]
        rfl

theorem findText_behind {needle t before s : Bytes} (h : findText needle t = some (before, s))
    (u : Bytes) : findText needle (t ++ u) = some (before, s ++ u) := by
  induction t generalizing before with
  | nil =>
      rw [findText] at h
      split_ifs at h with hn
      obtain ⟨rfl, rfl⟩ := Prod.mk.inj (Option.some.inj h)
      rw [hn]
      cases u with
      | nil => rfl
      | cons c u => rfl
  | cons c t ih =>
      rw [findText] at h
      rw [List.cons_append, findText]
      split_ifs at h with hs
      · obtain ⟨rfl, rfl⟩ := Prod.mk.inj (Option.some.inj h)
        have hpre := startsWith_iff.mp hs
        have hstart : startsWith (c :: (t ++ u)) needle = true :=
          startsWith_iff.mpr (hpre.trans ⟨u, rfl⟩)
        rw [if_pos hstart, ← List.cons_append, List.drop_append_of_le_length hpre.length_le]
      · obtain ⟨p, hp, he⟩ := Option.map_eq_some_iff.mp h
        obtain ⟨rfl, rfl⟩ := Prod.mk.inj he
        -- the occurrence further behind makes the needle too short to reach into `u`
        have hno : ¬ startsWith (c :: (t ++ u)) needle = true := by
          intro hstart
          have hlen : needle.length ≤ (c :: t).length := by
            rw [findText_append hp]
            simp only [List.length_cons, List.length_append]
            omega
          have hpre : c :: t <+: c :: (t ++ u) := ⟨u, rfl⟩
          exact hs (startsWith_iff.mpr
            (List.prefix_of_prefix_length_le (startsWith_iff.mp hstart) hpre hlen))
        rw [if_neg hno, ih hp]
        rfl

theorem cut_of_mem {sep : Byte} {s : Bytes} (h : sep ∈ s) :
    ∃ before behind, cut sep s = some (before, behind) ∧ sep ∉ before := by
  induction s with
  | nil => cases h
  | cons c s ih =>
      rw [cut]
      by_cases hc : c = sep
      · exact ⟨[], s, if_pos hc, List.not_mem_nil⟩
      · obtain ⟨before, behind, hcut, hnot⟩ := ih (List.mem_of_ne_of_mem (Ne.symm hc) h)
        refine ⟨c :: before, behind, by rw [if_neg hc, hcut, Option.map_some], ?_⟩
        exact List.not_mem_cons_of_ne_of_not_mem (Ne.symm hc) hnot

theorem cut_eq_none {sep : Byte} {s : Bytes} (h : sep ∉ s) : cut sep s = none := by
  induction s with
  | nil => rfl
  | cons c s ih =>
      rw [cut, if_neg (List.ne_of_not_mem_cons h).symm, ih (List.not_mem_of_not_mem_cons h)]
      rfl

theorem cut_eq_some {sep : Byte} {s before behind : Bytes} (h : cut sep s = some (before, behind)) :
    s = before ++ sep :: behind ∧ sep ∉ before := by
  induction s generalizing before with
  | nil => cases h
  | cons c s ih =>
      rw [cut] at h
      split_ifs at h with hc
      · obtain ⟨rfl, rfl⟩ := Prod.mk.inj (Option.some.inj h)
        exact ⟨by rw [hc, List.nil_append], List.not_mem_nil⟩
      · obtain ⟨p, hp, he⟩ := Option.map_eq_some_iff.mp h
        obtain ⟨rfl, rfl⟩ := Prod.mk.inj he
        obtain ⟨hs, hnot⟩ := ih hp
        exact ⟨congrArg _ hs, List.not_mem_cons_of_ne_of_not_mem (Ne.symm hc) hnot⟩

theorem cut_of_not_mem {sep : Byte} {line : Bytes} (h : sep ∉ line) (rest : Bytes) :
    cut sep (line ++ sep :: rest) = some (line, rest) := by
  induction line with
  | nil => simp [cut]
  | cons c line ih =>
      rw [List.mem_cons, not_or] at h
      obtain ⟨hc, hline⟩ := h
      rw [List.cons_append, cut, if_neg (Ne.symm hc), ih hline]
      rfl

theorem pieces_of_not_mem {sep : Byte} {line : Bytes} (h : sep ∉ line) (rest : Bytes) :
    pieces sep (line ++ sep :: rest) = line :: pieces sep rest := by
  induction line with
  | nil => rw [List.nil_append, pieces, if_pos rfl]
  | cons c line ih =>
      rw [List.cons_append, pieces, if_neg (List.ne_of_not_mem_cons h).symm,
        ih (List.not_mem_of_not_mem_cons h)]

theorem pieces_eq_nil {sep : Byte} {s : Bytes} : pieces sep s = [] ↔ s = [] := by
  cases s with
  | nil => exact iff_of_true rfl rfl
  | cons c s =>
      refine iff_of_false ?_ (List.cons_ne_nil c s)
      rw [pieces]
      split_ifs with hc
      · simp
      · cases pieces sep s <;> simp

/-- A separator ends a piece whatever follows it. -/
theorem pieces_append_sep (sep : Byte) (s t : Bytes) :
    pieces sep (s ++ sep :: t) = pieces sep (s ++ [sep]) ++ pieces sep t := by
  induction s with
  | nil => rw [List.nil_append, List.nil_append, pieces, pieces, if_pos rfl, if_pos rfl, pieces]; rfl
  | cons c s ih =>
      rw [List.cons_append, List.cons_append, pieces, pieces, ih]
      split_ifs with hc
      · rfl
      · cases hline : pieces sep (s ++ [sep]) with
        | nil => exact absurd (pieces_eq_nil.mp hline) (by simp)
        | cons p ps => rfl

theorem pieces_self {sep : Byte} {line : Bytes} (h : sep ∉ line) (hne : line ≠ []) : pieces sep line = [line] := by
  induction line with
  | nil => exact absurd rfl hne
  | cons c line ih =>
      rw [pieces, if_neg (List.ne_of_not_mem_cons h).symm]
      by_cases hline : line = []
      · rw [hline, pieces]
      · rw [ih (List.not_mem_of_not_mem_cons h) hline]

theorem mem_intercalate {sep c : Byte} {ls : List Bytes} (h : c ∈ [sep].intercalate ls) :
    c = sep ∨ ∃ l ∈ ls, c ∈ l := by
  induction ls with
  | nil => exact absurd h List.not_mem_nil
  | cons l ls ih =>
      cases ls with
      | nil =>
          rw [List.intercalate_singleton] at h
          exact .inr ⟨l, List.mem_cons_self, h⟩
      | cons l' ls =>
          rw [List.intercalate_cons_cons, List.append_assoc] at h
          rcases List.mem_append.mp h with hl | hrest
          · exact .inr ⟨l, List.mem_cons_self, hl⟩
          · rcases List.mem_cons.mp hrest with rfl | hmore
            · exact .inl rfl
            · exact (ih hmore).imp_right fun ⟨x, hx, hc⟩ => ⟨x, List.mem_cons_of_mem _ hx, hc⟩

/-- Pieces that were joined come apart again. -/
theorem pieces_intercalate {sep : Byte} {ls : List Bytes} (h : ∀ l ∈ ls, sep ∉ l ∧ l ≠ []) :
    pieces sep ([sep].intercalate ls) = ls := by
  induction ls with
  | nil => rfl
  | cons l ls ih =>
      obtain ⟨hl, hne⟩ := h l List.mem_cons_self
      cases ls with
      | nil => rw [List.intercalate_singleton, pieces_self hl hne]
      | cons l' ls =>
          rw [List.intercalate_cons_cons, List.append_assoc, List.singleton_append, pieces_of_not_mem hl,
            ih fun x hx => h x (List.mem_cons_of_mem _ hx)]

/-- Behind a loop over tokens that keeps a value until a token brings another one, it is the last
that was brought. -/
theorem foldl_last {σ τ β : Type*} {take : σ → τ → σ} {get : σ → β} {read : τ → Option β}
    (h : ∀ u t, get (take u t) = (read t).getD (get u)) (ts : List τ) (u : σ) :
    get (ts.foldl take u) = (ts.filterMap read).getLast?.getD (get u) := by
  induction ts generalizing u with
  | nil => rfl
  | cons t ts ih =>
      rw [List.foldl_cons, ih, h, List.filterMap_cons]
      cases read t with
      | none => rfl
      | some b => rw [List.getLast?_cons]; rfl

/-! ## Trimming -/

theorem dropWhile_head {α : Type*} {p : α → Bool} {s : List α} (h : ∀ c ∈ s.head?, p c = false) :
    s.dropWhile p = s := by
  cases s with
  | nil => rfl
  | cons c s => exact List.dropWhile_cons_of_neg (by simpa using h c rfl)

theorem head_dropWhile {α : Type*} (p : α → Bool) (s : List α) : ∀ c ∈ (s.dropWhile p).head?, p c = false :=
  fun c hc => by simpa [Option.mem_def.mp hc] using List.head?_dropWhile_not p s

theorem trim_head (s : Bytes) : ∀ c ∈ (trim s).head?, isspace c = false := by
  intro c hc
  have hpre : trim s <+: s.dropWhile isspace := by
    have h := List.reverse_prefix.mpr (List.dropWhile_suffix isspace (l := (s.dropWhile isspace).reverse))
    rwa [List.reverse_reverse] at h
  obtain ⟨b, hb⟩ := hpre
  refine head_dropWhile isspace s c ?_
  rw [← hb, List.head?_append, Option.mem_def.mp hc, Option.some_or]
  rfl

theorem trim_getLast (s : Bytes) : ∀ c ∈ (trim s).getLast?, isspace c = false := by
  intro c hc
  rw [trim, List.getLast?_reverse] at hc
  exact head_dropWhile isspace _ c hc

/-- What `trim` leaves stands between white space. -/
theorem trim_decompose (s : Bytes) :
    ∃ a b, s = a ++ (trim s ++ b) ∧ ∀ c ∈ a ++ b, isspace c = true := by
  refine ⟨s.takeWhile isspace, ((s.dropWhile isspace).reverse.takeWhile isspace).reverse, ?_, fun c hc => ?_⟩
  · have hback := congrArg List.reverse
      (List.takeWhile_append_dropWhile (p := isspace) (l := (s.dropWhile isspace).reverse))
    rw [List.reverse_append, List.reverse_reverse] at hback
    rw [trim, hback, List.takeWhile_append_dropWhile]
  · rcases List.mem_append.mp hc with hc | hc
    · exact List.mem_takeWhile_imp hc
    · exact List.mem_takeWhile_imp (List.mem_reverse.mp hc)

theorem trim_between {a s b : Bytes} (hfront : ∀ c ∈ s.head?, isspace c = false)
    (hback : ∀ c ∈ s.getLast?, isspace c = false) (ha : ∀ c ∈ a, isspace c = true)
    (hb : ∀ c ∈ b, isspace c = true) : trim (a ++ (s ++ b)) = s := by
  rw [trim, List.dropWhile_append_of_pos ha]
  cases s with
  | nil => rw [List.nil_append, List.dropWhile_eq_nil_iff.mpr hb]; rfl
  | cons c s =>
      have hkeep : ((c :: s) ++ b).dropWhile isspace = (c :: s) ++ b := dropWhile_head hfront
      have hback' : ∀ x ∈ (c :: s).reverse.head?, isspace x = false := by
        rwa [List.head?_reverse]
      rw [hkeep, List.reverse_append, List.dropWhile_append_of_pos fun x hx => hb x (List.mem_reverse.mp hx),
        dropWhile_head hback', List.reverse_reverse]

theorem trim_self {s : Bytes} (hfront : ∀ c ∈ s.head?, isspace c = false)
    (hback : ∀ c ∈ s.getLast?, isspace c = false) : trim s = s := by
  have h := @trim_between [] s [] hfront hback (by simp) (by simp)
  rwa [List.nil_append, List.append_nil] at h

end OpenBambu.Foundation
