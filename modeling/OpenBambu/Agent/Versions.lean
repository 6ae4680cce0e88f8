import OpenBambu.Foundation.Text
import Mathlib.Order.PiLex

/-!
# Comparing firmware versions

`version_compare` cuts two version strings into numbers and compares these one by one. The strings
come from the frames of a printer, with any bytes in them.
-/

namespace OpenBambu.Agent

open OpenBambu.Foundation

/-! ## The code -/

/-- What keeps `version_compare` from a result. -/
inductive Fault where
  /-- An `int` would leave its range. -/
  | overflow
  /-- The turns that were granted are used up. -/
  | running
  deriving DecidableEq, Repr

/-- The inner loop of `parts`: the number at the front and what stands behind it. -/
def segment (n : Nat) : Bytes → Except Fault (Nat × Bytes)
  | [] => .ok (n, [])
  | c :: s =>
      if isDigit c then
        if n * 10 + digitVal c < 2 ^ 31 then segment (n * 10 + digitVal c) s else .error .overflow
      else .ok (n, c :: s)

/-- The outer loop of `parts`, for at most so many turns. -/
def parts : Nat → Bytes → Except Fault (List Nat)
  | 0, _ => .error .running
  | _ + 1, [] => .ok []
  | turns + 1, c :: s =>
      if c = Ascii.dot then parts turns s
      else do
        let (n, rest) ← segment 0 (c :: s)
        let out ← parts turns rest
        return n :: out

/-- The loop over the components of both, a missing one counting as 0. -/
def compareParts : Nat → List Nat → List Nat → Int
  | 0, _, _ => 0
  | n + 1, pa, pb =>
      if pa.headD 0 < pb.headD 0 then -1
      else if pa.headD 0 > pb.headD 0 then 1
      else compareParts n pa.tail pb.tail

def versionCompare (turns : Nat) (a b : Bytes) : Except Fault Int :=
  if a = b ∨ a = [] ∨ b = [] then .ok 0
  else do
    let pa ← parts turns a
    let pb ← parts turns b
    return compareParts (max pa.length pb.length) pa pb

/-- The call comes back with this result, without an overflow. -/
def Compares (a b : Bytes) (v : Int) : Prop := ∃ turns, versionCompare turns a b = .ok v

/-! ## The order of versions -/

/-- The components of a version, with a 0 for each one that is missing. -/
def components (ns : List Nat) : Lex (ℕ → ℕ) := toLex fun i => ns.getD i 0

/-- What a comparison of two ordered values returns. -/
noncomputable def order {α : Type*} [LinearOrder α] (x y : α) : Int :=
  if x < y then -1 else if y < x then 1 else 0

section Order

variable {α : Type*} [LinearOrder α] {x y : α}

theorem order_self (x : α) : order x x = 0 := by
  rw [order, if_neg (lt_irrefl x), if_neg (lt_irrefl x)]

theorem order_of_lt (h : x < y) : order x y = -1 := if_pos h

theorem order_of_gt (h : y < x) : order x y = 1 := by
  rw [order, if_neg h.asymm, if_pos h]

theorem order_congr {x' y' : α} (hlt : x < y ↔ x' < y') (hgt : y < x ↔ y' < x') : order x y = order x' y' := by
  unfold order
  rw [if_congr hlt rfl (if_congr hgt rfl rfl)]

theorem order_swap (x y : α) : order y x = -order x y := by
  rcases lt_trichotomy x y with h | rfl | h
  · rw [order_of_gt h, order_of_lt h, neg_neg]
  · rw [order_self, neg_zero]
  · rw [order_of_lt h, order_of_gt h]

theorem order_le_zero : order x y ≤ 0 ↔ x ≤ y := by
  rcases lt_trichotomy x y with h | rfl | h
  · simp [order_of_lt h, h.le]
  · simp [order_self]
  · simp [order_of_gt h, h]

end Order

theorem getD_tail (ns : List Nat) (i : Nat) : ns.tail.getD i 0 = ns.getD (i + 1) 0 := by
  cases ns <;> simp

theorem getD_zero (ns : List Nat) : ns.getD 0 0 = ns.headD 0 := by
  cases ns <;> rfl

theorem components_lt {pa pb : List Nat} : components pa < components pb ↔
    ∃ i, (∀ j < i, pa.getD j 0 = pb.getD j 0) ∧ pa.getD i 0 < pb.getD i 0 := Iff.rfl

theorem components_lt_of_head {pa pb : List Nat} (h : pa.headD 0 < pb.headD 0) :
    components pa < components pb := by
  rw [components_lt]
  exact ⟨0, fun j hj => absurd hj (Nat.not_lt_zero j), by rw [getD_zero, getD_zero]; exact h⟩

theorem components_lt_tail {pa pb : List Nat} (h : pa.headD 0 = pb.headD 0) :
    components pa < components pb ↔ components pa.tail < components pb.tail := by
  rw [components_lt, components_lt]
  constructor
  · rintro ⟨i, heq, hlt⟩
    cases i with
    | zero => rw [getD_zero, getD_zero, h] at hlt; exact absurd hlt (lt_irrefl _)
    | succ i =>
        refine ⟨i, fun j hj => ?_, by rwa [getD_tail, getD_tail]⟩
        rw [getD_tail, getD_tail]
        exact heq (j + 1) (Nat.succ_lt_succ hj)
  · rintro ⟨i, heq, hlt⟩
    refine ⟨i + 1, fun j hj => ?_, by rwa [getD_tail, getD_tail] at hlt⟩
    cases j with
    | zero => rw [getD_zero, getD_zero, h]
    | succ j =>
        have hj := heq j (Nat.lt_of_succ_lt_succ hj)
        rwa [getD_tail, getD_tail] at hj

/-- The loop compares by the first component that differs. -/
theorem compareParts_eq {n : Nat} {pa pb : List Nat} (ha : pa.length ≤ n) (hb : pb.length ≤ n) :
    compareParts n pa pb = order (components pa) (components pb) := by
  induction n generalizing pa pb with
  | zero =>
      obtain rfl := List.length_eq_zero_iff.mp (Nat.le_zero.mp ha)
      obtain rfl := List.length_eq_zero_iff.mp (Nat.le_zero.mp hb)
      exact (order_self _).symm
  | succ n ih =>
      have htail : compareParts n pa.tail pb.tail = order (components pa.tail) (components pb.tail) :=
        ih (by rw [List.length_tail]; omega) (by rw [List.length_tail]; omega)
      rw [compareParts]
      rcases lt_trichotomy (pa.headD 0) (pb.headD 0) with h | h | h
      · rw [if_pos h, order_of_lt (components_lt_of_head h)]
      · rw [if_neg h.not_lt, if_neg h.not_gt, htail]
        exact (order_congr (components_lt_tail h) (components_lt_tail h.symm)).symm
      · rw [if_neg h.not_gt, if_pos h, order_of_gt (components_lt_of_head h)]

/-! ## What `parts` reads -/

theorem bind_eq_ok {ε α β : Type} {x : Except ε α} {f : α → Except ε β} {b : β} :
    x >>= f = .ok b ↔ ∃ a, x = .ok a ∧ f a = .ok b := by
  cases x with
  | error e => exact ⟨nofun, fun h => nomatch h.choose_spec.1⟩
  | ok a => exact ⟨fun h => ⟨a, rfl, h⟩, fun ⟨_, ha, h⟩ => (Except.ok.inj ha) ▸ h⟩

/-- The numbers between the dots, where there are digits. -/
def numbers (s : Bytes) : List Nat := ((pieces Ascii.dot s).filter (· ≠ [])).map ofDecimal

/-- Digits and dots, of numbers that an `int` holds. -/
structure Plain (s : Bytes) : Prop where
  bytes : ∀ c ∈ s, isDigit c = true ∨ c = Ascii.dot
  fits : ∀ n ∈ numbers s, n < 2 ^ 31

/-- What the inner loop computes over a run of digits, from a number that is already there. -/
def digitsOnto (n : Nat) (ds : Bytes) : Nat := ds.foldl (fun acc c => 10 * acc + digitVal c) n

theorem le_digitsOnto (n : Nat) (ds : Bytes) : n ≤ digitsOnto n ds := by
  induction ds generalizing n with
  | nil => exact le_rfl
  | cons c ds ih =>
      calc n ≤ 10 * n + digitVal c := by omega
        _ ≤ digitsOnto (10 * n + digitVal c) ds := ih _

theorem segment_of_fits {n : Nat} {ds rest : Bytes} (hd : ∀ c ∈ ds, isDigit c = true)
    (hr : ∀ c ∈ rest.head?, isDigit c = false) (hfit : digitsOnto n ds < 2 ^ 31) :
    segment n (ds ++ rest) = .ok (digitsOnto n ds, rest) := by
  induction ds generalizing n with
  | nil =>
      cases rest with
      | nil => rfl
      | cons c rest =>
          rw [List.nil_append, segment, if_neg (by rw [hr c rfl]; exact Bool.false_ne_true)]
          rfl
  | cons c ds ih =>
      obtain ⟨hc, hd⟩ := List.forall_mem_cons.mp hd
      have hstep : n * 10 + digitVal c = 10 * n + digitVal c := by omega
      have hle : 10 * n + digitVal c < 2 ^ 31 := (le_digitsOnto _ ds).trans_lt hfit
      rw [List.cons_append, segment, if_pos hc, hstep, if_pos hle]
      exact ih hd hfit

theorem segment_ok {n m : Nat} {s rest : Bytes} (hn : n < 2 ^ 31) (h : segment n s = .ok (m, rest)) :
    ∃ ds, s = ds ++ rest ∧ (∀ c ∈ ds, isDigit c = true) ∧ (∀ c ∈ rest.head?, isDigit c = false) ∧
      m = digitsOnto n ds ∧ m < 2 ^ 31 := by
  induction s generalizing n with
  | nil =>
      obtain ⟨rfl, rfl⟩ := Prod.mk.inj (Except.ok.inj h)
      exact ⟨[], rfl, nofun, nofun, rfl, hn⟩
  | cons c s ih =>
      rw [segment] at h
      split_ifs at h with hc hfit
      · obtain ⟨ds, rfl, hd, hr, hm, hlt⟩ := ih hfit h
        refine ⟨c :: ds, rfl, List.forall_mem_cons.mpr ⟨hc, hd⟩, hr, ?_, hlt⟩
        rw [hm, Nat.mul_comm]
        rfl
      · obtain ⟨rfl, rfl⟩ := Prod.mk.inj (Except.ok.inj h)
        refine ⟨[], rfl, nofun, fun d hd => ?_, rfl, hn⟩
        obtain rfl := Option.some.inj hd
        exact Bool.not_eq_true _ |>.mp hc

theorem dot_not_mem {ds : Bytes} (hd : ∀ c ∈ ds, isDigit c = true) : Ascii.dot ∉ ds := by
  intro hmem
  have := hd _ hmem
  contradiction

theorem numbers_nil : numbers [] = [] := rfl

theorem numbers_dot (s : Bytes) : numbers (Ascii.dot :: s) = numbers s := by
  rw [numbers, pieces, if_pos rfl, List.filter_cons_of_neg (by simp)]
  rfl

theorem pieces_single {sep : Byte} {s : Bytes} (h : sep ∉ s) (hs : s ≠ []) : pieces sep s = [s] := by
  induction s with
  | nil => exact absurd rfl hs
  | cons c s ih =>
      rw [List.mem_cons, not_or] at h
      rw [pieces, if_neg (Ne.symm h.1)]
      cases s with
      | nil => rfl
      | cons d s => rw [ih h.2 (List.cons_ne_nil d s)]

/-- A run of digits in front of a dot or of the end is one number. -/
theorem numbers_run {ds rest : Bytes} (hd : ∀ c ∈ ds, isDigit c = true) (hne : ds ≠ [])
    (hr : ∀ c ∈ rest.head?, c = Ascii.dot) : numbers (ds ++ rest) = ofDecimal ds :: numbers rest := by
  have hdot := dot_not_mem hd
  cases rest with
  | nil =>
      rw [List.append_nil, numbers, pieces_single hdot hne, List.filter_cons_of_pos (by simpa using hne)]
      rfl
  | cons c rest =>
      obtain rfl := hr c rfl
      rw [numbers_dot, numbers, pieces_of_not_mem hdot, List.filter_cons_of_pos (by simpa using hne)]
      rfl

/-- Only digits and dots let the outer loop come to an end. -/
theorem parts_ok {turns : Nat} {s : Bytes} {ns : List Nat} (h : parts turns s = .ok ns) :
    Plain s ∧ ns = numbers s := by
  induction turns generalizing s ns with
  | zero => cases h
  | succ turns ih =>
      cases s with
      | nil =>
          obtain rfl := Except.ok.inj h
          exact ⟨⟨nofun, nofun⟩, rfl⟩
      | cons c s =>
          rw [parts] at h
          split_ifs at h with hc
          · obtain ⟨hs, hns⟩ := ih h
            subst hc
            refine ⟨⟨List.forall_mem_cons.mpr ⟨.inr rfl, hs.bytes⟩, ?_⟩, ?_⟩
            · rw [numbers_dot]; exact hs.fits
            · rw [numbers_dot]; exact hns
          · obtain ⟨⟨n, rest⟩, hseg, h⟩ := bind_eq_ok.mp h
            obtain ⟨out, hout, h⟩ := bind_eq_ok.mp h
            obtain rfl := Except.ok.inj h
            obtain ⟨ds, hs, hd, hr, rfl, hfit⟩ := segment_ok (by decide) hseg
            obtain ⟨hrest, rfl⟩ := ih hout
            have hne : ds ≠ [] := by
              rintro rfl
              rw [List.nil_append] at hs
              subst hs
              rcases hrest.bytes c List.mem_cons_self with hdigit | hdot
              · rw [hr c rfl] at hdigit
                cases hdigit
              · exact hc hdot
            have hstop : ∀ d ∈ rest.head?, d = Ascii.dot := by
              intro d hd
              refine (hrest.bytes d (List.mem_of_mem_head? hd)).resolve_left ?_
              rw [hr d hd]
              exact Bool.false_ne_true
            have hnumbers := numbers_run hd hne hstop
            rw [hs]
            refine ⟨⟨fun x hx => ?_, ?_⟩, hnumbers.symm⟩
            · rcases List.mem_append.mp hx with hx | hx
              · exact .inl (hd x hx)
              · exact hrest.bytes x hx
            · rw [hnumbers]
              exact List.forall_mem_cons.mpr ⟨hfit, hrest.fits⟩

theorem parts_of_plain {turns : Nat} {s : Bytes} (hs : Plain s) (hlen : s.length < turns) :
    parts turns s = .ok (numbers s) := by
  induction turns generalizing s with
  | zero => exact absurd hlen (Nat.not_lt_zero _)
  | succ turns ih =>
      cases s with
      | nil => rfl
      | cons c s =>
          rw [parts]
          split_ifs with hc
          · subst hc
            rw [numbers_dot]
            refine ih ⟨fun x hx => hs.bytes x (List.mem_cons_of_mem _ hx), ?_⟩ (Nat.lt_of_succ_lt_succ hlen)
            rw [← numbers_dot]
            exact hs.fits
          · have hdigit : isDigit c = true := (hs.bytes c List.mem_cons_self).resolve_right hc
            obtain ⟨ds, rest, hsplit, hd, hr, hne⟩ : ∃ ds rest, c :: s = ds ++ rest ∧
                (∀ x ∈ ds, isDigit x = true) ∧ (∀ x ∈ rest.head?, isDigit x = false) ∧ ds ≠ [] :=
              ⟨(c :: s).takeWhile isDigit, (c :: s).dropWhile isDigit, List.takeWhile_append_dropWhile.symm,
                fun x hx => List.mem_takeWhile_imp hx, head_dropWhile _ _,
                by rw [List.takeWhile_cons_of_pos hdigit]; exact List.cons_ne_nil _ _⟩
            have hmem : ∀ x ∈ rest, x ∈ c :: s := fun x hx => by
              rw [hsplit]; exact List.mem_append_right ds hx
            have hstop : ∀ x ∈ rest.head?, x = Ascii.dot := by
              intro x hx
              refine (hs.bytes x (hmem x (List.mem_of_mem_head? hx))).resolve_left ?_
              rw [hr x hx]
              exact Bool.false_ne_true
            have hfits := hs.fits
            rw [hsplit, numbers_run hd hne hstop, List.forall_mem_cons] at hfits
            have hshort : rest.length < turns := by
              have hlength := congrArg List.length hsplit
              have hpos := List.length_pos_of_ne_nil hne
              rw [List.length_append] at hlength
              omega
            have hrest := ih ⟨fun x hx => hs.bytes x (hmem x hx), hfits.2⟩ hshort
            rw [hsplit, numbers_run hd hne hstop, segment_of_fits hd hr hfits.1]
            exact congrArg (fun r => r >>= fun out => Except.ok (digitsOnto 0 ds :: out)) hrest

/-! ## The law of the comparison -/

/-- Either string decides the result at once, or both are plain. -/
def Comparable (a b : Bytes) : Prop := a = b ∨ a = [] ∨ b = [] ∨ (Plain a ∧ Plain b)

theorem compares_of_shortcut {a b : Bytes} {v : Int} (h : a = b ∨ a = [] ∨ b = []) :
    Compares a b v ↔ v = 0 := by
  constructor
  · rintro ⟨turns, hv⟩
    rw [versionCompare, if_pos h] at hv
    exact (Except.ok.inj hv).symm
  · rintro rfl
    exact ⟨0, if_pos h⟩

/-- Without the shortcut the call comes back exactly on plain strings, with their order. -/
theorem compares_of_distinct {a b : Bytes} {v : Int} (h : ¬(a = b ∨ a = [] ∨ b = [])) :
    Compares a b v ↔ Plain a ∧ Plain b ∧ v = order (components (numbers a)) (components (numbers b)) := by
  have hcompare := compareParts_eq (le_max_left (numbers a).length (numbers b).length)
    (le_max_right (numbers a).length (numbers b).length)
  constructor
  · rintro ⟨turns, hv⟩
    rw [versionCompare, if_neg h] at hv
    obtain ⟨pa, hpa, hv⟩ := bind_eq_ok.mp hv
    obtain ⟨pb, hpb, hv⟩ := bind_eq_ok.mp hv
    obtain ⟨ha, rfl⟩ := parts_ok hpa
    obtain ⟨hb, rfl⟩ := parts_ok hpb
    exact ⟨ha, hb, (Except.ok.inj hv).symm.trans hcompare⟩
  · rintro ⟨ha, hb, rfl⟩
    refine ⟨a.length + b.length + 1, ?_⟩
    rw [versionCompare, if_neg h, parts_of_plain ha (by omega), parts_of_plain hb (by omega), ← hcompare]
    rfl

theorem compares_plain {a b : Bytes} (ha : Plain a) (hb : Plain b) (hane : a ≠ []) (hbne : b ≠ []) (v : Int) :
    Compares a b v ↔ v = order (components (numbers a)) (components (numbers b)) := by
  by_cases h : a = b
  · subst h
    rw [compares_of_shortcut (.inl rfl), order_self]
  · rw [compares_of_distinct (by simp [h, hane, hbne])]
    exact ⟨fun hv => hv.2.2, fun hv => ⟨ha, hb, hv⟩⟩

/-- The string comes back at all: it is decided at once or both are plain. -/
theorem comparable_of_compares {a b : Bytes} {v : Int} (h : Compares a b v) : Comparable a b := by
  by_cases hshort : a = b ∨ a = [] ∨ b = []
  · exact hshort.imp_right (.imp_right .inl)
  · obtain ⟨ha, hb, -⟩ := (compares_of_distinct hshort).mp h
    exact .inr (.inr (.inr ⟨ha, hb⟩))

theorem compares_unique {a b : Bytes} {v w : Int} (h : Compares a b v) (h' : Compares a b w) : v = w := by
  by_cases hshort : a = b ∨ a = [] ∨ b = []
  · rw [compares_of_shortcut hshort] at h h'
    rw [h, h']
  · obtain ⟨-, -, rfl⟩ := (compares_of_distinct hshort).mp h
    obtain ⟨-, -, rfl⟩ := (compares_of_distinct hshort).mp h'
    rfl

theorem plain_of_comparable {a b : Bytes} (h : Comparable a b) (ha : a ≠ []) (hb : b ≠ []) :
    a = b ∨ (Plain a ∧ Plain b) :=
  h.imp_right fun h => (h.resolve_left ha).resolve_left hb

theorem comes_back {a b : Bytes} (h : Comparable a b) : ∃ v, Compares a b v := by
  by_cases hshort : a = b ∨ a = [] ∨ b = []
  · exact ⟨0, (compares_of_shortcut hshort).mpr rfl⟩
  · rw [not_or, not_or] at hshort
    obtain ⟨hne, ha, hb⟩ := hshort
    obtain ⟨hpa, hpb⟩ := (plain_of_comparable h ha hb).resolve_left hne
    exact ⟨_, (compares_plain hpa hpb ha hb _).mpr rfl⟩

/-- A version in dotted-decimal form. -/
structure DottedDecimal (s : Bytes) (segments : List Bytes) : Prop where
  text : s = [Ascii.dot].intercalate segments
  some_segment : segments ≠ []
  digits : ∀ ds ∈ segments, ds ≠ [] ∧ ∀ c ∈ ds, isDigit c = true

theorem numbers_intercalate {segments : List Bytes}
    (h : ∀ ds ∈ segments, ds ≠ [] ∧ ∀ c ∈ ds, isDigit c = true) :
    numbers ([Ascii.dot].intercalate segments) = segments.map ofDecimal := by
  induction segments with
  | nil => rfl
  | cons ds segments ih =>
      obtain ⟨⟨hne, hd⟩, hrest⟩ := List.forall_mem_cons.mp h
      cases segments with
      | nil =>
          rw [List.intercalate_singleton]
          have hrun : numbers (ds ++ []) = ofDecimal ds :: numbers [] := numbers_run hd hne nofun
          rwa [List.append_nil, numbers_nil] at hrun
      | cons es segments =>
          rw [List.intercalate_cons_cons, List.append_assoc, numbers_run hd hne (by rintro c ⟨⟩; rfl),
            List.singleton_append, numbers_dot, ih hrest]
          rfl

theorem DottedDecimal.ne_nil {s : Bytes} {segments : List Bytes} (h : DottedDecimal s segments) : s ≠ [] := by
  obtain ⟨rfl, hsome, hd⟩ := h
  cases segments with
  | nil => exact absurd rfl hsome
  | cons ds segments =>
      obtain ⟨⟨hne, -⟩, -⟩ := List.forall_mem_cons.mp hd
      cases segments with
      | nil => rwa [List.intercalate_singleton]
      | cons es segments => rw [List.intercalate_cons_cons]; simp

/-- What `version_compare` promises for two strings: it comes back without an overflow, it is
antisymmetric and transitive on strings that are not empty, and on dotted-decimal versions it is the
order of their components, a missing one counting as 0. -/
structure VersionLaw (a b : Bytes) : Prop where
  comes_back : ∃ v, Compares a b v
  antisymmetric : ∀ v, a ≠ [] → b ≠ [] → Compares a b v → Compares b a (-v)
  transitive : ∀ c v w, a ≠ [] → b ≠ [] → c ≠ [] → Compares a b v → Compares b c w → v ≤ 0 → w ≤ 0 →
    ∃ u ≤ 0, Compares a c u
  componentwise : ∀ as bs, DottedDecimal a as → DottedDecimal b bs →
    Compares a b (order (components (as.map ofDecimal)) (components (bs.map ofDecimal)))

theorem compares_swap {a b : Bytes} {v : Int} (ha : a ≠ []) (hb : b ≠ []) (h : Compares a b v) :
    Compares b a (-v) := by
  rcases plain_of_comparable (comparable_of_compares h) ha hb with rfl | ⟨hpa, hpb⟩
  · rw [compares_of_shortcut (.inl rfl)] at h ⊢
    rw [h, neg_zero]
  · rw [compares_plain hpa hpb ha hb] at h
    rw [compares_plain hpb hpa hb ha, h, order_swap (components (numbers b)), neg_neg]

theorem compares_trans {a b c : Bytes} {v w : Int} (ha : a ≠ []) (hb : b ≠ []) (hc : c ≠ [])
    (hab : Compares a b v) (hbc : Compares b c w) (hv : v ≤ 0) (hw : w ≤ 0) : ∃ u ≤ 0, Compares a c u := by
  rcases plain_of_comparable (comparable_of_compares hab) ha hb with rfl | ⟨hpa, hpb⟩
  · exact ⟨w, hw, hbc⟩
  rcases plain_of_comparable (comparable_of_compares hbc) hb hc with rfl | ⟨-, hpc⟩
  · exact ⟨v, hv, hab⟩
  rw [compares_plain hpa hpb ha hb] at hab
  rw [compares_plain hpb hpc hb hc] at hbc
  rw [hab, order_le_zero] at hv
  rw [hbc, order_le_zero] at hw
  exact ⟨_, order_le_zero.mpr (hv.trans hw), (compares_plain hpa hpc ha hc _).mpr rfl⟩

/-- The law holds of two strings exactly when one of them decides the result at once or both are
plain. -/
theorem versionLaw_iff (a b : Bytes) : VersionLaw a b ↔ Comparable a b := by
  constructor
  · rintro ⟨⟨v, hv⟩, -⟩
    exact comparable_of_compares hv
  · intro h
    refine ⟨comes_back h, fun v ha hb => compares_swap ha hb, fun c v w ha hb hc => compares_trans ha hb hc, ?_⟩
    intro as bs has hbs
    have hna : numbers a = as.map ofDecimal := by rw [has.text, numbers_intercalate has.digits]
    have hnb : numbers b = bs.map ofDecimal := by rw [hbs.text, numbers_intercalate hbs.digits]
    rw [← hna, ← hnb]
    rcases plain_of_comparable h has.ne_nil hbs.ne_nil with rfl | ⟨hpa, hpb⟩
    · rw [compares_of_shortcut (.inl rfl), order_self]
    · exact (compares_plain hpa hpb has.ne_nil hbs.ne_nil _).mpr rfl

/-- A letter behind the numbers keeps the loop from coming to an end. -/
theorem versionLaw_fails : ¬VersionLaw (ascii "01.08.01.00b") (ascii "01.08.01.00") := by
  rintro ⟨⟨v, hv⟩, -⟩
  rcases comparable_of_compares hv with h | h | h | ⟨ha, -⟩
  · exact absurd h (by decide)
  · exact absurd h (by decide)
  · exact absurd h (by decide)
  · rcases ha.bytes 0x62 (by decide) with hb | hb
    · exact absurd hb (by decide)
    · exact absurd hb (by decide)

end OpenBambu.Agent
