import OpenBambu.Json.Numeral

/-!
# Counts of 64 bits

From `2^63` on `dump` writes a count with seventeen significant digits and an exponent. The
decimal is not the double it stands for, but no other double is nearer, so every unsigned 64-bit
count reads back as the double it was rounded to.
-/

namespace OpenBambu.Json

open OpenBambu.Foundation

/-! ## Numbers with an exponent -/

/-- `d.ddde+xx`, the text of a large number. -/
def scientific (a : Byte) (frac exp : Bytes) : Bytes :=
  withPoint [a] frac ++ Ascii.letter 'e' :: Ascii.plus :: exp

/-- The fraction of such a text, with its point. -/
def pointText (frac : Bytes) : Bytes := if stripZeros frac = [] then [] else Ascii.dot :: stripZeros frac

theorem scientific_eq (a : Byte) (frac exp : Bytes) :
    scientific a frac exp = [a] ++ (pointText frac ++ ([Ascii.letter 'e'] ++ ([Ascii.plus] ++ exp))) := by
  unfold scientific withPoint pointText
  simp only
  split_ifs <;> simp

theorem scan_point {frac s : Bytes} (hf : ∀ c ∈ frac, isDigit c = true) :
    ifTaken (optional (· = Ascii.dot)) digits (pointText frac ++ Ascii.letter 'e' :: s) =
      (pointText frac, Ascii.letter 'e' :: s) := by
  have hletter : ∀ c, (Ascii.letter 'e' :: s).head? = some c → isDigit c = false ∧ c ≠ Ascii.dot := by
    intro c hc
    obtain rfl := Option.some.inj hc
    decide
  unfold pointText
  split_ifs with hnil
  · exact ifTaken_skip (optional_none fun c hc => decide_eq_false (hletter c hc).2)
  · have hstrip : ∀ c ∈ stripZeros frac, isDigit c = true := fun c hc =>
      hf c ((List.rdropWhile_prefix _ frac).subset hc)
    exact ifTaken_eq (optional_cons (by decide) _) (by simp)
      (digits_append hstrip fun c hc => (hletter c hc).1)

theorem pointText_head {frac s : Bytes} {c : Byte}
    (hc : (pointText frac ++ Ascii.letter 'e' :: s).head? = some c) : isDigit c = false := by
  unfold pointText at hc
  split_ifs at hc <;> obtain rfl := Option.some.inj hc <;> decide

/-- The scanner takes such a text as a whole. -/
theorem scan_scientific {a : Byte} {frac exp rest : Bytes} (ha : isDigit a = true)
    (hf : ∀ c ∈ frac, isDigit c = true) (hx : ∀ c ∈ exp, isDigit c = true) (hr : Delimited rest) :
    scanNumber (scientific a frac exp ++ rest) = (scientific a frac exp, rest) := by
  have hstop : ∀ c, rest.head? = some c → isDigit c = false := by
    intro c hc
    have hno := hr c hc
    simp only [numberByte, Bool.or_eq_false_iff] at hno
    exact hno.1.1.1
  have hsign : ∀ s, optional (· = Ascii.minus) (a :: s) = ([], a :: s) := by
    intro s
    refine optional_none fun c hc => decide_eq_false ?_
    obtain rfl : a = c := Option.some.inj hc
    exact digit_ne ha (by decide)
  have hpoint : ∀ c, (pointText frac ++ Ascii.letter 'e' :: (Ascii.plus :: (exp ++ rest))).head? = some c →
      isDigit c = false := fun c hc => pointText_head hc
  have hint := @digits_append [a] _ (by simpa using ha) hpoint
  have hexp : ifTaken (optional fun c => c = Ascii.letter 'e' || c = Ascii.letter 'E')
      (andThen (optional fun c => c = Ascii.plus || c = Ascii.minus) digits)
      (Ascii.letter 'e' :: (Ascii.plus :: (exp ++ rest))) =
        ([Ascii.letter 'e'] ++ ([Ascii.plus] ++ exp), rest) :=
    ifTaken_eq (optional_cons (by decide) _) (by simp)
      (andThen_eq (optional_cons (by decide) _) (digits_append hx hstop))
  have hscan := andThen_eq (hsign _) (andThen_eq hint (andThen_eq (scan_point hf) hexp))
  rw [scientific_eq]
  simpa [scanNumber] using hscan

/-- The number text as a numeral. -/
def scientificNumeral {a : Byte} {frac exp : Bytes} (ha : isDigit a = true)
    (hf : ∀ c ∈ frac, isDigit c = true) (hx : ∀ c ∈ exp, isDigit c = true) : Numeral where
  negative := false
  int := [a]
  frac := if stripZeros frac = [] then none else some (stripZeros frac)
  exp := some
    { letter := Ascii.letter 'e'
      sign := some Ascii.plus
      digits := exp
      letter_ok := Exponent.lower_ok
      sign_ok := by
        intro c hc
        exact Or.inl (Option.some.inj hc).symm
      digits_ok := hx }
  start := Or.inr (by simp)
  int_ok := by simpa using ha
  frac_ok := by
    intro ds hds
    split_ifs at hds
    obtain rfl := Option.some.inj hds
    exact fun c hc => hf c ((List.rdropWhile_prefix _ frac).subset hc)

theorem ofDecimal_zeros (ds : Bytes) (k : Nat) :
    ofDecimal (ds ++ List.replicate k 0x30) = ofDecimal ds * 10 ^ k := by
  induction k with
  | zero => simp
  | succ k ih =>
      rw [List.replicate_succ', ← List.append_assoc, ofDecimal, List.foldl_append, ← ofDecimal, ih]
      change 10 * (ofDecimal ds * 10 ^ k) + 0 = _
      rw [Nat.pow_succ]
      ring

theorem stripZeros_append (ds : Bytes) : ∃ k, ds = stripZeros ds ++ List.replicate k 0x30 := by
  induction ds using List.reverseRecOn with
  | nil => exact ⟨0, rfl⟩
  | append_singleton ds c ih =>
      by_cases hc : c = 0x30
      · obtain ⟨k, hk⟩ := ih
        refine ⟨k + 1, ?_⟩
        rw [stripZeros, List.rdropWhile_concat_pos _ _ _ (by simpa using hc), ← stripZeros,
          List.replicate_succ', ← List.append_assoc, ← hk, hc]
      · refine ⟨0, ?_⟩
        rw [stripZeros, List.rdropWhile_concat_neg _ _ _ (by simpa using hc)]
        simp

/-- The number the text stands for: its zeros at the end do not count. -/
theorem stod_scientific {a : Byte} {frac exp : Bytes} (ha : isDigit a = true)
    (hf : ∀ c ∈ frac, isDigit c = true) (hx : ∀ c ∈ exp, isDigit c = true)
    (hlen : frac.length ≤ ofDecimal exp) :
    Binary64.stod (scientific a frac exp) =
      Binary64.strtodMagnitude (ofDecimal (a :: frac) * 10 ^ (ofDecimal exp - frac.length)) 1 := by
  obtain ⟨k, hk⟩ := stripZeros_append frac
  have hlength : frac.length = (stripZeros frac).length + k := by
    conv_lhs => rw [hk]
    simp
  have htext : (scientificNumeral ha hf hx).text = scientific a frac exp := by
    rw [scientific_eq]
    unfold scientificNumeral Numeral.text Numeral.unsigned Numeral.fracText Numeral.expText pointText
    simp only [Bool.false_eq_true, if_false, Option.elim_some, Exponent.text]
    split_ifs <;> simp
  have hfrac : (scientificNumeral ha hf hx).frac.getD [] = stripZeros frac := by
    unfold scientificNumeral
    simp only
    split_ifs with hnil
    · exact hnil.symm
    · rfl
  have hdigits : (scientificNumeral ha hf hx).digits = a :: stripZeros frac := by
    rw [Numeral.digits, hfrac]
    rfl
  have hexp : (scientificNumeral ha hf hx).exponent =
      Int.ofNat (k + (ofDecimal exp - frac.length)) := by
    have hvalue : (scientificNumeral ha hf hx).exp.elim 0 Exponent.value = (ofDecimal exp : Int) := rfl
    rw [Numeral.exponent, hvalue, hfrac, Int.ofNat_eq_natCast]
    omega
  have hvalue : ofDecimal (a :: frac) = ofDecimal (a :: stripZeros frac) * 10 ^ k := by
    rw [← ofDecimal_zeros, List.cons_append, ← hk]
  rw [← htext, stod_text, Numeral.stod, hdigits, hexp, if_neg (by simp), Binary64.decimalMagnitude, hvalue,
    Nat.pow_add, ← Nat.mul_assoc]
  exact congrFun Option.map_id _

/-! ## The nearest double -/

theorem roundHalfEven_near (n : Nat) {d : Nat} (hd : 0 < d) :
    2 * n ≤ 2 * (Binary64.roundHalfEven n d * d) + d ∧ 2 * (Binary64.roundHalfEven n d * d) ≤ 2 * n + d := by
  have hdiv := Nat.div_add_mod n d
  have hmod := Nat.mod_lt n hd
  have hup : (n / d + 1) * d = d * (n / d) + d := by ring
  have hdown : n / d * d = d * (n / d) := Nat.mul_comm _ _
  unfold Binary64.roundHalfEven
  simp only
  split_ifs <;> omega

/-- Between `2^63` and `2^64` the doubles are 2048 apart. -/
theorem strtod_near {q v : Nat} (hlo : 2 ^ 63 ≤ v) (hhi : v < 2 ^ 64) (hv : q * 2048 < v + 1024)
    (hq : v < q * 2048 + 1024) : Binary64.strtodMagnitude v 1 = some ((q * 2048 : Nat) : ℚ) := by
  have hne : v ≠ 0 := by omega
  have hlog : v.log2 = 63 := by
    have h1 := (Nat.le_log2 hne).mpr hlo
    have h2 := (Nat.log2_lt hne).mpr hhi
    omega
  have hround : Binary64.roundHalfEven v (1 * 2 ^ 11) = q := by
    unfold Binary64.roundHalfEven
    simp only
    split_ifs <;> omega
  have hnearest : Binary64.nearest v 1 (Binary64.floorLog2 v 1 - 52) = ((q * 2048 : Nat) : ℚ) := by
    rw [Binary64.floorLog2_one hne, hlog]
    change Binary64.scale (Binary64.roundHalfEven v (1 * 2 ^ 11)) (.ofNat 11) = _
    rw [hround]
    rfl
  have hbig : q * 2048 < 2 ^ 65 := by omega
  have hover : ¬ Binary64.scale 1 1024 ≤ ((q * 2048 : Nat) : ℚ) :=
    not_le.mpr (Binary64.lt_scale_one hbig (by decide))
  have hunder : Binary64.scale 1 (-1022) ≤ ((q * 2048 : Nat) : ℚ) :=
    (Binary64.scale_one_le _).trans (by exact_mod_cast (show 1 ≤ q * 2048 by omega))
  rw [Binary64.strtodMagnitude, if_neg hne, hnearest]
  simp only [if_neg hover, if_pos hunder]

/-! ## Beyond the integers -/

theorem decimal_length {n k : Nat} (hlo : 10 ^ k ≤ n) (hhi : n < 10 ^ (k + 1)) :
    (decimal n).length = k + 1 := by
  have hne : n ≠ 0 := by
    have hpos : 0 < 10 ^ k := by positivity
    omega
  rw [decimal, if_neg hne, List.length_map, List.length_reverse, Nat.length_digits 10 n (by decide) hne,
    Nat.log_eq_of_pow_le_of_lt_pow hlo hhi]

/-- Seventeen digits and the exponent of the first. -/
def seventeenDigits (d x : Nat) : Bytes :=
  withPoint ((decimal d).take 1) ((decimal d).drop 1) ++ Ascii.letter 'e' :: Ascii.plus :: decimal x

theorem formatMagnitude_large {m k : Nat} (hlo : 10 ^ (k + 17) ≤ m) (hhi : m < 10 ^ (k + 18)) :
    formatMagnitude m 1 =
      if Binary64.roundHalfEven m (10 ^ (k + 1)) = 10 ^ 17 then seventeenDigits (10 ^ 16) (k + 18)
      else seventeenDigits (Binary64.roundHalfEven m (10 ^ (k + 1))) (k + 17) := by
  have hone : 1 ≤ m := le_trans Nat.one_le_two_pow (le_trans (Nat.pow_le_pow_left (by decide) _) hlo)
  have hlog : floorLog10 m 1 = ((k + 17 : Nat) : Int) := by
    rw [floorLog10, if_pos hone, Nat.div_one, Nat.log_eq_of_pow_le_of_lt_pow hlo hhi]
  have hscaled : scaledDecimal m 1 (16 - ((k + 17 : Nat) : Int)) = Binary64.roundHalfEven m (10 ^ (k + 1)) := by
    rw [show 16 - ((k + 17 : Nat) : Int) = Int.negSucc k by omega, scaledDecimal, Nat.one_mul]
  have htail : ∀ d x : Nat, 10 ≤ x → withPoint ((decimal d).take 1) ((decimal d).drop 1) ++
      Ascii.letter 'e' :: (if (x : Int) < 0 then Ascii.minus else Ascii.plus) ::
        (if (decimal (x : Int).natAbs).length < 2 then 0x30 :: decimal (x : Int).natAbs
        else decimal (x : Int).natAbs) = seventeenDigits d x := by
    intro d x hx
    have hlen : ¬ (decimal x).length < 2 := by
      rw [decimal, if_neg (by omega), List.length_map, List.length_reverse,
        Nat.length_digits 10 x (by decide) (by omega)]
      have hpos := Nat.log_pos (by decide : 1 < 10) hx
      omega
    rw [Int.natAbs_natCast, if_neg (by omega), if_neg hlen]
    rfl
  unfold formatMagnitude
  simp only [hlog, hscaled]
  by_cases hmax : Binary64.roundHalfEven m (10 ^ (k + 1)) = 10 ^ 17
  · simp only [if_pos hmax]
    rw [if_pos (by omega), ← htail (10 ^ 16) (k + 18) (by omega)]
    rfl
  · simp only [if_neg hmax]
    rw [if_pos (by omega), ← htail _ (k + 17) (by omega)]

theorem seventeenDigits_scientific {d : Nat} (hlo : 10 ^ 16 ≤ d) (hhi : d < 10 ^ 17) (x : Nat) :
    ∃ a frac, decimal d = a :: frac ∧ frac.length = 16 ∧
      seventeenDigits d x = scientific a frac (decimal x) := by
  have hlen := decimal_length (k := 16) hlo hhi
  obtain ⟨a, frac, hdec⟩ := List.exists_cons_of_ne_nil (decimal_ne_nil d)
  refine ⟨a, frac, hdec, ?_, ?_⟩
  · rw [hdec, List.length_cons] at hlen
    omega
  · rw [seventeenDigits, hdec]
    rfl

/-- The digits of a count of this size, and how far they are from it. -/
theorem formatMagnitude_digits {m : Nat} (hlo : 2 ^ 63 ≤ m) (hhi : m ≤ 2 ^ 64) :
    ∃ d x, 10 ^ 16 ≤ d ∧ d < 10 ^ 17 ∧ 16 ≤ x ∧ formatMagnitude m 1 = seventeenDigits d x ∧
      m ≤ d * 10 ^ (x - 16) + 500 ∧ d * 10 ^ (x - 16) ≤ m + 500 := by
  by_cases hm : m < 10 ^ 19
  · obtain ⟨hle, hge⟩ := roundHalfEven_near m (show 0 < 10 ^ (1 + 1) by decide)
    have htext := formatMagnitude_large (m := m) (k := 1) (by omega) (by omega)
    generalize Binary64.roundHalfEven m (10 ^ (1 + 1)) = r at hle hge htext
    split_ifs at htext with hmax
    · exact ⟨10 ^ 16, 1 + 18, by omega, by omega, by omega, htext, by omega, by omega⟩
    · exact ⟨r, 1 + 17, by omega, by omega, by omega, htext, by omega, by omega⟩
  · obtain ⟨hle, hge⟩ := roundHalfEven_near m (show 0 < 10 ^ (2 + 1) by decide)
    have htext := formatMagnitude_large (m := m) (k := 2) (by omega) (by omega)
    generalize Binary64.roundHalfEven m (10 ^ (2 + 1)) = r at hle hge htext
    split_ifs at htext with hmax
    · omega
    · exact ⟨r, 2 + 17, by omega, by omega, by omega, htext, by omega, by omega⟩

/-- A double of this size is the nearest to its seventeen digits. -/
theorem large_readsBack {m : Nat} (h : Binary64.Representable m) (hlo : 2 ^ 63 < m) (hhi : m < 2 ^ 64) :
    ReadsBack (m : ℚ) := by
  obtain ⟨q, rfl⟩ : ∃ q, m = 2 ^ 11 * q := by
    have hne : m ≠ 0 := by omega
    exact Binary64.dvd_of_representable h ((Nat.le_log2 hne).mpr hlo.le)
  obtain ⟨d, x, hd, hd', hx, htext, hle, hge⟩ := formatMagnitude_digits hlo.le hhi.le
  obtain ⟨a, frac, hdec, hlen, hsci⟩ := seventeenDigits_scientific hd hd' x
  have hdigits : ∀ c ∈ a :: frac, isDigit c = true := hdec ▸ decimal_digits d
  obtain ⟨ha, hf⟩ := List.forall_mem_cons.mp hdigits
  have hdump : dumpNumber ((2 ^ 11 * q : Nat) : ℚ) = scientific a frac (decimal x) := by
    have hgt : ¬ ((2 ^ 11 * q : Nat) : ℚ) ≤ 2 ^ 63 - 1024 := by
      rw [not_le]
      have : (2 ^ 63 : ℚ) < ((2 ^ 11 * q : Nat) : ℚ) := by exact_mod_cast hlo
      linarith
    rw [dumpNumber, if_neg (by tauto), if_neg (not_lt.mpr (Nat.cast_nonneg _)), Rat.num_natCast,
      Rat.den_natCast, Int.natAbs_natCast, htext, hsci]
  have hstod : Binary64.stod (scientific a frac (decimal x)) = some ((2 ^ 11 * q : Nat) : ℚ) := by
    rw [stod_scientific ha hf (decimal_digits x) (by rw [ofDecimal_decimal]; omega), ← hdec, ofDecimal_decimal,
      ofDecimal_decimal, hlen, Nat.mul_comm (2 ^ 11) q]
    exact strtod_near (by omega) (by omega) (by omega) (by omega)
  intro rest hr
  have hnum : parseNumber (scientific a frac (decimal x) ++ rest) = .ok (((2 ^ 11 * q : Nat) : ℚ), rest) := by
    rw [parseNumber, scan_scientific ha hf (decimal_digits x) hr]
    simp only [if_neg (show scientific a frac (decimal x) ≠ [] by rw [scientific_eq]; simp), hstod]
  rw [hdump, scientific_eq] at *
  exact reads_number (Or.inr ha) hnum

/-- `2^64`, to which the largest counts are rounded. -/
def topText : Bytes := scientific 0x31 (ascii "8446744073709552") (ascii "19")

theorem dumpNumber_top : dumpNumber (2 ^ 64) = topText := by decide +kernel

theorem stod_top : Binary64.stod topText = some (2 ^ 64) := by decide +kernel

theorem top_readsBack : ReadsBack (2 ^ 64) := by
  have hf : ∀ c ∈ ascii "8446744073709552", isDigit c = true := by decide +kernel
  have hx : ∀ c ∈ ascii "19", isDigit c = true := by decide +kernel
  intro rest hr
  have hnum : parseNumber (topText ++ rest) = .ok (2 ^ 64, rest) := by
    rw [parseNumber, topText, scan_scientific (by decide) hf hx hr, ← topText]
    simp only [if_neg (show topText ≠ [] by decide +kernel), stod_top]
  rw [dumpNumber_top]
  exact reads_number (c := 0x31) (Or.inr (by decide)) hnum

/-- Every 64-bit count reads back as the double it was rounded to. -/
theorem word_readsBack {n : Nat} (h : n < 2 ^ 64) : ReadsBack (Binary64.ofNat n) := by
  obtain ⟨m, hm, hr, hle⟩ := Binary64.ofNat_rounds h
  rw [hm]
  by_cases hsmall : m < 2 ^ 63
  · have hexact : Exact m := ⟨hr, Binary64.representable_gap hr hsmall⟩
    exact hexact.readsBack
  · rcases Nat.lt_or_eq_of_le (not_lt.mp hsmall) with hlo | rfl
    · rcases Nat.lt_or_eq_of_le hle with hhi | rfl
      · exact large_readsBack hr hlo hhi
      · exact_mod_cast top_readsBack
    · exact_mod_cast limit_readsBack

end OpenBambu.Json
