import OpenBambu.Tunnel.Requests

/-!
# The result code of a reply

`parse_wire_result` casts the `result` member from double to `int64_t` and on to `int`. Uploads,
downloads and deletes take 0 for success and 1 for `continue`. The casts drop the fraction and the
upper half, so other numbers are read as these two as well.
-/

namespace OpenBambu.Tunnel

open OpenBambu.Foundation OpenBambu.Json

/-- The reply is JSON and its top-level result is this number. -/
def ResultIs (wireJson : Bytes) (x : Double) : Prop :=
  ∃ o, parse wireJson = .ok (.object o) ∧ lookup o (ascii "result") = some (.number x)

/-- Success and `continue` are only reported when the reply says so. -/
structure ReadsHonestly (wireJson : Bytes) : Prop where
  success : parseWireResult wireJson = 0 → ResultIs wireJson 0
  goesOn : parseWireResult wireJson = 1 → ResultIs wireJson 1

/-- What is left of the number without its fraction. -/
def Truncates (x : Double) (n : Int) : Prop :=
  if 0 ≤ x then n ≤ x ∧ x < n + 1 else n - 1 < x ∧ x ≤ n

/-- Numbers other than 0 that are read as 0: too large for 64 bits, where the cast is undefined, or a
multiple of `2^32` without the fraction. -/
def AliasesSuccess (x : Double) : Prop :=
  x ≠ 0 ∧ (x ≤ -2 ^ 63 ∨ 2 ^ 63 ≤ x ∨ ∃ k, Truncates x (2 ^ 32 * k))

/-- Numbers that are read as `n` by dropping the fraction and multiples of `2^32`. -/
def CastsTo (x : Double) (n : Int) : Prop :=
  -2 ^ 63 < x ∧ x < 2 ^ 63 ∧ ∃ k, Truncates x (2 ^ 32 * k + n)

/-- Numbers other than 1 that are read as 1. -/
def AliasesContinue (x : Double) : Prop := x ≠ 1 ∧ CastsTo x 1

/-! ## The casts -/

theorem toInt_eq_iff {m n : Int} (hlo : -2 ^ 31 ≤ n) (hhi : n < 2 ^ 31) :
    toInt m = n ↔ ∃ k, m = 2 ^ 32 * k + n := by
  have hmod : toInt m = n ↔ (m - n) % 2 ^ 32 = 0 := by
    rw [toInt, Int.bmod_def]
    split_ifs <;> omega
  rw [hmod]
  constructor
  · intro h
    exact ⟨(m - n) / 2 ^ 32, by omega⟩
  · rintro ⟨k, hk⟩
    omega

theorem truncates_iff {x : Double} {n : Int} : Truncates x n ↔ x.num.tdiv x.den = n := by
  rw [Truncates, Binary64.tdiv_num_den]
  split_ifs with hx
  · rw [Int.floor_eq_iff]
  · rw [Int.ceil_eq_iff]

/-- Inside the range of 64 bits the number is only truncated. -/
theorem toInt64_truncates {x : Double} (hlo : -2 ^ 63 < x) (hhi : x < 2 ^ 63) :
    Truncates x (Binary64.toInt64 x) := by
  rw [truncates_iff, Binary64.toInt64]
  have ht : Truncates x (x.num.tdiv x.den) := truncates_iff.mpr rfl
  generalize x.num.tdiv x.den = t at ht
  have hrange : -2 ^ 63 ≤ t ∧ t < 2 ^ 63 := by
    rw [Truncates] at ht
    split_ifs at ht with hx
    · have hlt : (t : ℚ) < 2 ^ 63 := lt_of_le_of_lt ht.1 hhi
      have hge : (-1 : ℚ) < t := by linarith [ht.2]
      have hlt' : t < 2 ^ 63 := by exact_mod_cast hlt
      have hge' : -1 < t := by exact_mod_cast hge
      omega
    · have hlt : (t : ℚ) < 1 := by linarith [ht.1, not_le.mp hx]
      have hge : (-2 ^ 63 : ℚ) < t := lt_of_lt_of_le hlo ht.2
      have hlt' : t < 1 := by exact_mod_cast hlt
      have hge' : -2 ^ 63 < t := by exact_mod_cast hge
      omega
  rw [if_pos hrange]

/-- Outside of it the cast delivers the smallest value. -/
theorem toInt64_outside {x : Double} (h : x ≤ -2 ^ 63 ∨ 2 ^ 63 ≤ x) : Binary64.toInt64 x = -2 ^ 63 := by
  rw [Binary64.toInt64]
  have ht : Truncates x (x.num.tdiv x.den) := truncates_iff.mpr rfl
  generalize x.num.tdiv x.den = t at ht
  have hrange : t ≤ -2 ^ 63 ∨ 2 ^ 63 ≤ t := by
    rw [Truncates] at ht
    rcases h with h | h
    · rw [if_neg (by linarith)] at ht
      have hlt : (t : ℚ) < -2 ^ 63 + 1 := by linarith [ht.1]
      have hlt' : t < -2 ^ 63 + 1 := by exact_mod_cast hlt
      omega
    · rw [if_pos (by linarith)] at ht
      have hge : (2 ^ 63 - 1 : ℚ) < t := by linarith [ht.2]
      have hge' : 2 ^ 63 - 1 < t := by exact_mod_cast hge
      omega
  split_ifs <;> omega

theorem Truncates.unique {x : Double} {m n : Int} (hm : Truncates x m) (hn : Truncates x n) : m = n :=
  (truncates_iff.mp hm).symm.trans (truncates_iff.mp hn)

theorem toInt64_inside {x : Double} (hlo : -2 ^ 63 < x) (hhi : x < 2 ^ 63) {n : Int} :
    Binary64.toInt64 x = n ↔ Truncates x n := by
  have ht := toInt64_truncates hlo hhi
  exact ⟨fun h => h ▸ ht, ht.unique⟩

/-- What is read as a number other than 0. -/
theorem cast_eq_iff {x : Double} {n : Int} (hlo : -2 ^ 31 ≤ n) (hhi : n < 2 ^ 31) (hne : n ≠ 0) :
    toInt (Binary64.toInt64 x) = n ↔ CastsTo x n := by
  by_cases hout : x ≤ -2 ^ 63 ∨ 2 ^ 63 ≤ x
  · rw [toInt64_outside hout]
    refine iff_of_false (fun h => hne (h.symm.trans (by decide))) ?_
    rintro ⟨hlo, hhi, -⟩
    rcases hout with h | h <;> linarith
  · obtain ⟨hgt, hlt⟩ := not_or.mp hout
    have hgt := not_le.mp hgt
    have hlt := not_le.mp hlt
    simp only [toInt_eq_iff hlo hhi, toInt64_inside hgt hlt, CastsTo, hgt, hlt, true_and]

/-- What is read as 0. -/
theorem cast_eq_zero_iff {x : Double} :
    toInt (Binary64.toInt64 x) = 0 ↔ x ≤ -2 ^ 63 ∨ 2 ^ 63 ≤ x ∨ ∃ k, Truncates x (2 ^ 32 * k) := by
  by_cases hout : x ≤ -2 ^ 63 ∨ 2 ^ 63 ≤ x
  · rw [toInt64_outside hout]
    refine iff_of_true (by decide) ?_
    rcases hout with h | h
    · exact Or.inl h
    · exact Or.inr (Or.inl h)
  · obtain ⟨hgt, hlt⟩ := not_or.mp hout
    simp only [toInt_eq_iff (n := 0) (by decide) (by decide),
      toInt64_inside (not_le.mp hgt) (not_le.mp hlt), Int.add_zero, hgt, hlt, false_or]

/-! ## Replies -/

theorem resultIs_unique {wireJson : Bytes} {x y : Double} (hx : ResultIs wireJson x)
    (hy : ResultIs wireJson y) : x = y := by
  obtain ⟨o, hp, hl⟩ := hx
  obtain ⟨o', hp', hl'⟩ := hy
  obtain rfl := Value.object.inj (Except.ok.inj (hp.symm.trans hp'))
  exact Value.number.inj (Option.some.inj (hl.symm.trans hl'))

theorem find_result (v : Value) :
    v.find (ascii "result") = (lookup v.asObject (ascii "result")).getD .null :=
  find_word (by decide +kernel) v

/-- A numeric result goes through the two casts. -/
theorem parseWireResult_number {wireJson : Bytes} {x : Double} (h : ResultIs wireJson x) :
    parseWireResult wireJson = toInt (Binary64.toInt64 x) := by
  obtain ⟨o, hp, hl⟩ := h
  simp only [parseWireResult, wireMember, hp, find_result, Value.asObject, hl, Option.getD_some,
    Value.asInt]

/-- Anything else reads as -1. -/
theorem parseWireResult_other {wireJson : Bytes} (h : ∀ x, ¬ ResultIs wireJson x) :
    parseWireResult wireJson = -1 := by
  rw [parseWireResult, wireMember]
  cases hp : parse wireJson with
  | error e => rfl
  | ok v =>
      simp only [find_result]
      cases v with
      | object o =>
          simp only [Value.asObject]
          cases hl : lookup o (ascii "result") with
          | none => rfl
          | some w =>
              cases w with
              | number x => exact absurd ⟨o, hp, hl⟩ (h x)
              | _ => rfl
      | _ => rfl

/-- A reply is read honestly exactly if its result is not a number that stands for another one. -/
theorem readsHonestly_iff (wireJson : Bytes) :
    ReadsHonestly wireJson ↔ ∀ x, ResultIs wireJson x → ¬ AliasesSuccess x ∧ ¬ AliasesContinue x := by
  constructor
  · intro h x hx
    have hread := parseWireResult_number hx
    constructor
    · rintro ⟨hne, hcast⟩
      exact hne (resultIs_unique hx (h.success (hread.trans (cast_eq_zero_iff.mpr hcast))))
    · rintro ⟨hne, hcast⟩
      have hread' := hread.trans ((cast_eq_iff (by decide) (by decide) (by decide)).mpr hcast)
      exact hne (resultIs_unique hx (h.goesOn hread'))
  · intro h
    by_cases hnum : ∃ x, ResultIs wireJson x
    · obtain ⟨x, hx⟩ := hnum
      obtain ⟨hzero, hone⟩ := h x hx
      have hread := parseWireResult_number hx
      constructor
      · intro hcode
        have hcast := cast_eq_zero_iff.mp (hread.symm.trans hcode)
        obtain rfl : x = 0 := by_contra fun hne => hzero ⟨hne, hcast⟩
        exact hx
      · intro hcode
        have hcast := (cast_eq_iff (by decide) (by decide) (by decide)).mp (hread.symm.trans hcode)
        obtain rfl : x = 1 := by_contra fun hne => hone ⟨hne, hcast⟩
        exact hx
    · have hother := parseWireResult_other fun x hx => hnum ⟨x, hx⟩
      constructor
      · intro hcode
        exact absurd (hother.symm.trans hcode) (by decide)
      · intro hcode
        exact absurd (hother.symm.trans hcode) (by decide)

def largeResult : List (Bytes × Int) :=
  [(ascii "cmdtype", 5), (ascii "result", 4294967296), (ascii "sequence", 1)]

theorem largeResult_is : ResultIs (integersText largeResult) (4294967296 : Int) :=
  ⟨integerMembers largeResult, parse_integers (by decide +kernel) (by decide +kernel), rfl⟩

/-- A result of `2^32` is taken for success. -/
theorem readsHonestly_fails : ¬ ReadsHonestly (integersText largeResult) := by
  intro h
  have hcode : parseWireResult (integersText largeResult) = 0 := by
    rw [parseWireResult_number largeResult_is]
    decide +kernel
  have hzero := resultIs_unique largeResult_is (h.success hcode)
  exact absurd hzero (by decide)

end OpenBambu.Tunnel
