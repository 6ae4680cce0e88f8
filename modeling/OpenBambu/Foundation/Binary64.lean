import OpenBambu.Foundation.Decimal
import Mathlib.Data.Rat.Defs
import Mathlib.Algebra.Order.Ring.Rat
import Mathlib.Data.Nat.Log
import Mathlib.Tactic.Positivity
import Mathlib.Data.Rat.Floor

/-!
# Finite binary64 numbers as rationals

A finite `double` is taken as the rational it denotes; a negative zero is zero.
Rounding is to nearest, ties to even. `stod` is `std::stod` with glibc's `strtod`
on the texts of JSON numbers: it fails when nothing converts, when the value
overflows, and when it underflows inexactly, since `strtod` then sets `ERANGE`.
-/

namespace OpenBambu.Foundation

abbrev Double := ℚ

namespace Binary64

/-- The integer nearest to `n / d`, ties to even. -/
def roundHalfEven (n d : Nat) : Nat :=
  let q := n / d
  let r := n % d
  if 2 * r < d then q
  else if d < 2 * r then q + 1
  else if q % 2 = 0 then q else q + 1

/-- `⌊log₂ (n/d)⌋` of a positive fraction. -/
def floorLog2 (n d : Nat) : Int :=
  if d * 2 ^ n.log2 ≤ n * 2 ^ d.log2 then (n.log2 : Int) - d.log2 else (n.log2 : Int) - d.log2 - 1

/-- `m * 2^e`. -/
def scale (m : Nat) : Int → Double
  | .ofNat k => ((m * 2 ^ k : Nat) : ℚ)
  | .negSucc k => mkRat m (2 ^ (k + 1))

/-- `n / d` rounded to a multiple of `2^e`. -/
def nearest (n d : Nat) : Int → Double
  | .ofNat k => scale (roundHalfEven n (d * 2 ^ k)) (.ofNat k)
  | .negSucc k => scale (roundHalfEven (n * 2 ^ (k + 1)) d) (.negSucc k)

/-- The double that `strtod` returns for `n / d`, unless it reports `ERANGE`. -/
def strtodMagnitude (n d : Nat) : Option Double :=
  if n = 0 then some 0
  else
    let r := nearest n d (floorLog2 n d - 52)
    if scale 1 1024 ≤ r then none
    else if scale 1 (-1022) ≤ r then some r
    else
      let s := nearest n d (-1074)
      if s = mkRat n d then some s else none

/-- The double nearest to `n / d`, subnormal ones and zero included, unless it is beyond all of
them. -/
def roundMagnitude (n d : Nat) : Option Double :=
  if n = 0 then some 0
  else
    let r := nearest n d (floorLog2 n d - 52)
    if scale 1 1024 ≤ r then none
    else if scale 1 (-1022) ≤ r then some r
    else some (nearest n d (-1074))

/-- `static_cast<double>` of an unsigned integer. -/
def ofNat (n : Nat) : Double :=
  if n = 0 then 0 else nearest n 1 (floorLog2 n 1 - 52)

/-- `static_cast<std::int64_t>` of a double. Out of range the conversion is undefined;
this is the value `cvttsd2si` delivers. -/
def toInt64 (q : Double) : Int :=
  let t := q.num.tdiv q.den
  if -2 ^ 63 ≤ t ∧ t < 2 ^ 63 then t else -2 ^ 63

/-- The exponent part of a number text: `0` unless digits follow the letter. -/
def exponentOf : Bytes → Int
  | [] => 0
  | c :: t =>
      if c = Ascii.letter 'e' ∨ c = Ascii.letter 'E' then
        match t with
        | [] => 0
        | sgn :: ds =>
            if sgn = Ascii.minus then -(ofDecimal (ds.takeWhile isDigit) : Int)
            else if sgn = Ascii.plus then ofDecimal (ds.takeWhile isDigit)
            else ofDecimal (t.takeWhile isDigit)
      else 0

/-- The magnitude denoted by `digits * 10^x`. -/
def decimalMagnitude (digits : Nat) : Int → Option Double
  | .ofNat k => strtodMagnitude (digits * 10 ^ k) 1
  | .negSucc k => strtodMagnitude digits (10 ^ (k + 1))

/-- The double nearest to `digits * 10^x`. -/
def roundDecimal (digits : Nat) : Int → Option Double
  | .ofNat k => roundMagnitude (digits * 10 ^ k) 1
  | .negSucc k => roundMagnitude digits (10 ^ (k + 1))

def stod (s : Bytes) : Option Double :=
  let negative := s.head? = some Ascii.minus
  let s := if negative then s.tail else s
  let int := s.takeWhile isDigit
  let s := s.dropWhile isDigit
  let point := s.head? = some Ascii.dot
  let frac := if point then s.tail.takeWhile isDigit else []
  let s := if point then s.tail.dropWhile isDigit else s
  if int = [] ∧ frac = [] then none
  else
    (decimalMagnitude (ofDecimal (int ++ frac)) (exponentOf s - frac.length)).map fun m =>
      if negative then -m else m

/-- Where `strtod` reports no error, it returns the nearest double. -/
theorem roundMagnitude_of_strtod {n d : Nat} {r : Double} (h : strtodMagnitude n d = some r) :
    roundMagnitude n d = some r := by
  unfold strtodMagnitude at h
  unfold roundMagnitude
  split_ifs at h ⊢ with h0
  · exact h
  · simp only at h ⊢
    split_ifs at h ⊢ with hmax hmin hexact
    · exact h
    · exact h

theorem roundDecimal_of_magnitude {n : Nat} {x : Int} {r : Double}
    (h : decimalMagnitude n x = some r) : roundDecimal n x = some r := by
  cases x with
  | ofNat k => exact roundMagnitude_of_strtod h
  | negSucc k => exact roundMagnitude_of_strtod h

/-- The nearest double is below the normal range and is not the number itself. -/
def Underflows (n d : Nat) : Prop :=
  n ≠ 0 ∧ nearest n d (floorLog2 n d - 52) < scale 1 (-1022) ∧ nearest n d (-1074) ≠ mkRat n d

theorem strtodMagnitude_isSome (n d : Nat) :
    (strtodMagnitude n d).isSome = true ↔
      (roundMagnitude n d).isSome = true ∧ ¬ Underflows n d := by
  unfold strtodMagnitude roundMagnitude Underflows
  by_cases h0 : n = 0
  · simp [h0]
  · by_cases hmax : scale 1 1024 ≤ nearest n d (floorLog2 n d - 52)
    · simp [h0, hmax]
    · by_cases hmin : scale 1 (-1022) ≤ nearest n d (floorLog2 n d - 52)
      · simp [h0, hmax, hmin, not_lt.mpr hmin]
      · by_cases hexact : nearest n d (-1074) = mkRat n d
        · simp [h0, hmax, hmin, hexact]
        · simp [h0, hmax, hmin, hexact, not_le.mp hmin]

def DecimalUnderflows (digits : Nat) : Int → Prop
  | .ofNat k => Underflows (digits * 10 ^ k) 1
  | .negSucc k => Underflows digits (10 ^ (k + 1))

theorem decimalMagnitude_isSome (n : Nat) (x : Int) :
    (decimalMagnitude n x).isSome = true ↔
      (roundDecimal n x).isSome = true ∧ ¬ DecimalUnderflows n x := by
  cases x with
  | ofNat k => exact strtodMagnitude_isSome _ _
  | negSucc k => exact strtodMagnitude_isSome _ _

/-! ## Integers that a double holds exactly -/

/-- A natural number with at most 53 significant bits. -/
def Representable (n : Nat) : Prop := ∃ m k, m < 2 ^ 53 ∧ n = m * 2 ^ k

theorem representable_of_lt {n : Nat} (h : n < 2 ^ 53) : Representable n := ⟨n, 0, h, by simp⟩

theorem representable_of_le {n : Nat} (h : n ≤ 2 ^ 53) : Representable n := by
  rcases Nat.lt_or_eq_of_le h with h | rfl
  · exact representable_of_lt h
  · exact ⟨1, 53, by decide, by simp⟩

theorem roundHalfEven_exact {q d : Nat} (hd : 0 < d) : roundHalfEven (q * d) d = q := by
  simp [roundHalfEven, Nat.mul_div_cancel _ hd, hd]

theorem floorLog2_one {n : Nat} (h : n ≠ 0) : floorLog2 n 1 = n.log2 := by
  have h1 : Nat.log2 1 = 0 := by decide
  have hle : 1 * 2 ^ n.log2 ≤ n * 2 ^ 0 := by
    rw [Nat.one_mul, Nat.pow_zero, Nat.mul_one]
    exact Nat.log2_self_le h
  rw [floorLog2, h1, if_pos hle, Nat.cast_zero, Int.sub_zero]

theorem log2_mul_pow {m k : Nat} (h : m ≠ 0) : (m * 2 ^ k).log2 = m.log2 + k := by
  induction k with
  | zero => simp
  | succ k ih =>
      have hne : m * 2 ^ k ≠ 0 := by positivity
      rw [Nat.pow_succ, ← Nat.mul_assoc, Nat.mul_comm _ 2, Nat.log2_two_mul hne, ih]
      omega

theorem dvd_of_representable {n : Nat} (h : Representable n) {k : Nat} (hk : k + 52 ≤ n.log2) :
    2 ^ k ∣ n := by
  obtain ⟨m, j, hm, rfl⟩ := h
  by_cases h0 : m = 0
  · simp [h0]
  · have hlog : m.log2 < 53 := (Nat.log2_lt h0).mpr hm
    rw [log2_mul_pow h0] at hk
    exact Dvd.dvd.mul_left (Nat.pow_dvd_pow 2 (by omega)) m

/-- Rounding leaves a representable integer as it is. -/
theorem nearest_representable {n : Nat} (hn : n ≠ 0) (h : Representable n) :
    nearest n 1 (floorLog2 n 1 - 52) = n := by
  rw [floorLog2_one hn]
  cases he : (n.log2 : Int) - 52 with
  | ofNat k =>
      have hdvd : 2 ^ k ∣ n := dvd_of_representable h (by simp at he; omega)
      obtain ⟨q, rfl⟩ := hdvd
      have hr : roundHalfEven (2 ^ k * q) (1 * 2 ^ k) = q := by
        rw [Nat.one_mul, Nat.mul_comm]
        exact roundHalfEven_exact (by positivity)
      simp only [nearest, scale, hr]
      rw [Nat.mul_comm]
  | negSucc k =>
      have hr : roundHalfEven (n * 2 ^ (k + 1)) 1 = n * 2 ^ (k + 1) := by
        simpa using roundHalfEven_exact (q := n * 2 ^ (k + 1)) Nat.one_pos
      simp only [nearest, scale, hr]
      rw [Rat.mkRat_eq_div]
      push_cast
      exact mul_div_cancel_right₀ _ (by positivity)

theorem ofNat_representable {n : Nat} (h : Representable n) : ofNat n = n := by
  unfold ofNat
  split_ifs with h0
  · simp [h0]
  · exact nearest_representable h0 h

theorem scale_one_le (k : Nat) : scale 1 (.negSucc k) ≤ 1 := by
  rw [scale, Rat.mkRat_eq_div, div_le_one (by positivity)]
  exact_mod_cast Nat.one_le_two_pow

theorem lt_scale_one {n k m : Nat} (h : n < 2 ^ k) (hk : k ≤ m) :
    (n : ℚ) < scale 1 (.ofNat m) := by
  rw [scale, Nat.one_mul, Nat.cast_lt]
  exact h.trans_le (Nat.pow_le_pow_right (by decide) hk)

/-- An integer that a double holds and that does not overflow reads back exactly. -/
theorem strtodMagnitude_representable {n k : Nat} (h : Representable n) (hlt : n < 2 ^ k)
    (hk : k ≤ 1024) : strtodMagnitude n 1 = some (n : ℚ) := by
  unfold strtodMagnitude
  split_ifs with h0
  · simp [h0]
  · have hmax : ¬ scale 1 1024 ≤ (n : ℚ) := not_le_of_gt (lt_scale_one hlt hk)
    have hmin : scale 1 (-1022) ≤ (n : ℚ) :=
      (scale_one_le 1021).trans (by exact_mod_cast Nat.one_le_iff_ne_zero.mpr h0)
    simp only [nearest_representable h0 h, if_neg hmax, if_pos hmin]

theorem decimalMagnitude_zero (n : Nat) : decimalMagnitude n 0 = strtodMagnitude n 1 := by
  change strtodMagnitude (n * 10 ^ 0) 1 = _
  rw [Nat.pow_zero, Nat.mul_one]

theorem decimal_head_ne_minus (n : Nat) : (decimal n).head? ≠ some Ascii.minus := by
  intro h
  have hd := decimal_digits n _ (List.mem_of_mem_head? h)
  exact absurd hd (by decide)

/-- The decimal text of a representable integer, alone or behind a minus sign. -/
theorem stod_decimal {n k : Nat} (h : Representable n) (hlt : n < 2 ^ k) (hk : k ≤ 1024) :
    stod (decimal n) = some (n : ℚ) ∧ stod (Ascii.minus :: decimal n) = some (-(n : ℚ)) := by
  have hend : ∀ c, ([] : Bytes).head? = some c → isDigit c = false := by simp
  obtain ⟨ht, hd⟩ := takeWhile_digits (decimal_digits n) hend
  rw [List.append_nil] at ht hd
  have hne := decimal_ne_nil n
  have hm := decimal_head_ne_minus n
  have hz : exponentOf [] - (([] : Bytes).length : Int) = 0 := rfl
  constructor
  · simp only [stod, if_neg hm, ht, hd, hne, List.head?_nil, reduceCtorEq, if_false, false_and,
      List.append_nil, hz, ofDecimal_decimal, decimalMagnitude_zero,
      strtodMagnitude_representable h hlt hk, Option.map_some]
  · simp only [stod, List.head?_cons, List.tail_cons, if_true, ht, hd, hne, List.head?_nil,
      reduceCtorEq, if_false, false_and, List.append_nil, hz, ofDecimal_decimal,
      decimalMagnitude_zero, strtodMagnitude_representable h hlt hk, Option.map_some]

/-! ## Rounding a count -/

theorem representable_scale {q : Nat} (h : q ≤ 2 ^ 53) (k : Nat) : Representable (q * 2 ^ k) := by
  obtain ⟨m, j, hm, rfl⟩ := representable_of_le h
  exact ⟨m, j + k, hm, by rw [Nat.mul_assoc, ← Nat.pow_add]⟩

theorem roundHalfEven_le (n d : Nat) : roundHalfEven n d ≤ n / d + 1 := by
  unfold roundHalfEven
  simp only
  split_ifs <;> omega

/-- A count rounds to an integer that a double holds, and not past the next power of two. -/
theorem ofNat_rounds {n k : Nat} (h : n < 2 ^ k) :
    ∃ m : Nat, ofNat n = m ∧ Representable m ∧ m ≤ 2 ^ k := by
  by_cases h0 : n = 0
  · subst h0
    exact ⟨0, rfl, representable_of_lt (by decide), Nat.zero_le _⟩
  · have hlog : n.log2 < k := (Nat.log2_lt h0).mpr h
    cases he : (n.log2 : Int) - 52 with
    | negSucc j =>
        have hsmall : n < 2 ^ 53 := (Nat.log2_lt h0).mp (by omega)
        have hr := representable_of_lt hsmall
        exact ⟨n, ofNat_representable hr, hr, h.le⟩
    | ofNat j =>
        have hj : n.log2 = 52 + j := by
          simp only [Int.ofNat_eq_natCast] at he
          omega
        have hdiv : n / 2 ^ j < 2 ^ 53 := by
          rw [Nat.div_lt_iff_lt_mul (by positivity), ← Nat.pow_add]
          exact (Nat.log2_lt h0).mp (by omega)
        have hq : roundHalfEven n (1 * 2 ^ j) ≤ 2 ^ 53 := by
          have := roundHalfEven_le n (1 * 2 ^ j)
          rw [Nat.one_mul] at this ⊢
          omega
        refine ⟨roundHalfEven n (1 * 2 ^ j) * 2 ^ j, ?_, representable_scale hq j, ?_⟩
        · rw [ofNat, if_neg h0, floorLog2_one h0, he]
          rfl
        · calc roundHalfEven n (1 * 2 ^ j) * 2 ^ j ≤ 2 ^ 53 * 2 ^ j := Nat.mul_le_mul_right _ hq
            _ = 2 ^ (53 + j) := (Nat.pow_add ..).symm
            _ ≤ 2 ^ k := Nat.pow_le_pow_right (by decide) (by omega)

theorem ofNat_eq_iff {n : Nat} : ofNat n = n ↔ Representable n := by
  constructor
  · intro h
    obtain ⟨m, hm, hr, -⟩ := ofNat_rounds (n := n) Nat.lt_log2_self
    rw [h, Nat.cast_inj] at hm
    exact hm ▸ hr
  · exact ofNat_representable

/-- The doubles below `2^63` stop 1024 short of it. -/
theorem representable_gap {m : Nat} (h : Representable m) (hlt : m < 2 ^ 63) :
    m ≤ 2 ^ 63 - 1024 := by
  by_cases hsmall : m < 2 ^ 62
  · omega
  · have h0 : m ≠ 0 := by
      rintro rfl
      exact hsmall (by positivity)
    have hlog : 62 ≤ m.log2 := (Nat.le_log2 h0).mpr (by omega)
    obtain ⟨q, rfl⟩ := dvd_of_representable h (k := 10) (by omega)
    omega

/-! ## Truncation -/

/-- Truncation rounds towards zero. -/
theorem tdiv_num_den (q : ℚ) : q.num.tdiv q.den = if 0 ≤ q then ⌊q⌋ else ⌈q⌉ := by
  split_ifs with h
  · rw [Rat.floor_def', Int.tdiv_eq_ediv_of_nonneg (Rat.num_nonneg.mpr h)]
  · have hneg : 0 ≤ -q.num := by
      have := Rat.num_neg.mpr (not_le.mp h)
      omega
    rw [Rat.ceil_def', ← Int.tdiv_eq_ediv_of_nonneg hneg, Int.neg_tdiv, neg_neg]

theorem toInt64_eq_iff {q : ℚ} {n : Nat} (hn : 0 < n) (hlt : n < 2 ^ 63) :
    toInt64 q = n ↔ (n : ℚ) ≤ q ∧ q < n + 1 := by
  have hfloor : ⌊q⌋ = (n : Int) ↔ (n : ℚ) ≤ q ∧ q < n + 1 := by
    rw [Int.floor_eq_iff]
    norm_cast
  rw [← hfloor, toInt64, tdiv_num_den]
  by_cases hq : 0 ≤ q
  · simp only [if_pos hq]
    split_ifs <;> omega
  · have hceil : ⌈q⌉ ≤ 0 := Int.ceil_le.mpr (by exact_mod_cast (not_le.mp hq).le)
    have hneg : ⌊q⌋ < 0 := Int.floor_lt.mpr (by exact_mod_cast not_le.mp hq)
    simp only [if_neg hq]
    split_ifs <;> omega

theorem toInt64_eq_zero_iff {q : ℚ} : toInt64 q = 0 ↔ -1 < q ∧ q < 1 := by
  rw [toInt64, tdiv_num_den]
  by_cases hq : 0 ≤ q
  · have hfloor : ⌊q⌋ = 0 ↔ -1 < q ∧ q < 1 := by
      rw [Int.floor_eq_zero_iff, Set.mem_Ico]
      exact ⟨fun h => ⟨by linarith, h.2⟩, fun h => ⟨hq, h.2⟩⟩
    rw [← hfloor]
    simp only [if_pos hq]
    split_ifs <;> omega
  · have hceil : ⌈q⌉ = 0 ↔ -1 < q ∧ q < 1 := by
      rw [Int.ceil_eq_zero_iff, Set.mem_Ioc]
      exact ⟨fun h => ⟨h.1, by linarith [not_le.mp hq]⟩, fun h => ⟨h.1, (not_le.mp hq).le⟩⟩
    rw [← hceil]
    simp only [if_neg hq]
    split_ifs <;> omega

end Binary64

end OpenBambu.Foundation
