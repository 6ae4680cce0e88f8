import OpenBambu.Json.RoundTrip

/-!
# Number texts

A `Numeral` is a number text taken apart: sign, integer digits, fraction and exponent, any of
whose digit runs may be empty. These are the texts `parse_number` cuts out (`scanNumber_text`,
`scanNumber_numeral`). `Rfc` singles out the forms of the JSON grammar and `double` the number a
text denotes; `stod` is what `std::stod` makes of it.
-/

namespace OpenBambu.Json

open OpenBambu.Foundation

@[ext] structure Exponent where
  letter : Byte
  sign : Option Byte
  digits : Bytes
  letter_ok : letter = Ascii.letter 'e' ∨ letter = Ascii.letter 'E'
  sign_ok : ∀ c, sign = some c → c = Ascii.plus ∨ c = Ascii.minus
  digits_ok : ∀ c ∈ digits, isDigit c = true

namespace Exponent

def text (e : Exponent) : Bytes := e.letter :: (e.sign.toList ++ e.digits)

def value (e : Exponent) : Int :=
  if e.sign = some Ascii.minus then -(ofDecimal e.digits : Int) else ofDecimal e.digits

theorem lower_ok : Ascii.letter 'e' = Ascii.letter 'e' ∨ Ascii.letter 'e' = Ascii.letter 'E' := Or.inl rfl

end Exponent

@[ext] structure Numeral where
  negative : Bool
  int : Bytes
  frac : Option Bytes
  exp : Option Exponent
  start : negative = true ∨ int ≠ []
  int_ok : ∀ c ∈ int, isDigit c = true
  frac_ok : ∀ ds, frac = some ds → ∀ c ∈ ds, isDigit c = true

namespace Numeral

def fracText (n : Numeral) : Bytes := n.frac.elim [] (Ascii.dot :: ·)

def expText (n : Numeral) : Bytes := n.exp.elim [] Exponent.text

/-- The text behind the sign. -/
def unsigned (n : Numeral) : Bytes := n.int ++ (n.fracText ++ n.expText)

def text (n : Numeral) : Bytes := if n.negative then Ascii.minus :: n.unsigned else n.unsigned

/-- The digits of integer part and fraction. -/
def digits (n : Numeral) : Bytes := n.int ++ n.frac.getD []

/-- The power of ten the digits are multiplied with. -/
def exponent (n : Numeral) : Int := n.exp.elim 0 Exponent.value - (n.frac.getD []).length

/-- `number = [ minus ] int [ frac ] [ exp ]` of RFC 8259. -/
structure Rfc (n : Numeral) : Prop where
  int_nonempty : n.int ≠ []
  no_leading_zero : n.int.head? = some 0x30 → n.int = [0x30]
  frac_nonempty : n.frac ≠ some []
  exp_nonempty : ∀ e, n.exp = some e → e.digits ≠ []

instance (n : Numeral) : Decidable n.Rfc :=
  decidable_of_iff (n.int ≠ [] ∧ (n.int.head? = some 0x30 → n.int = [0x30]) ∧ n.frac ≠ some [] ∧
      n.exp.map Exponent.digits ≠ some [])
    ⟨fun ⟨h1, h2, h3, h4⟩ => ⟨h1, h2, h3, fun e he hd => h4 (by rw [he, Option.map_some, hd])⟩,
      fun ⟨h1, h2, h3, h4⟩ => ⟨h1, h2, h3, fun h => by
        obtain ⟨e, he, hd⟩ := Option.map_eq_some_iff.mp h
        exact h4 e he hd⟩⟩

def signed (n : Numeral) (d : Double) : Double := if n.negative then -d else d

/-- The double nearest to the number the text denotes, unless it is beyond all doubles. -/
def double (n : Numeral) : Option Double :=
  (Binary64.roundDecimal (ofDecimal n.digits) n.exponent).map n.signed

/-- What a text denotes under the grammar. -/
def denoted (n : Numeral) : Option Double := if n.Rfc then n.double else none

/-- What `std::stod` returns for the text. -/
def stod (n : Numeral) : Option Double :=
  if n.digits = [] then none
  else (Binary64.decimalMagnitude (ofDecimal n.digits) n.exponent).map n.signed

end Numeral

/-! ## Scanning -/

theorem Numeral.unsigned_head {n : Numeral} (h : n.int ≠ []) :
    ∃ c t, n.unsigned = c :: t ∧ isDigit c = true := by
  obtain ⟨c, t, ht⟩ := List.exists_cons_of_ne_nil h
  exact ⟨c, t ++ (n.fracText ++ n.expText), by rw [unsigned, ht]; rfl, n.int_ok c (by simp [ht])⟩

/-- A number text starts with a minus sign or a digit. -/
theorem Numeral.text_head (n : Numeral) :
    ∃ c t, n.text = c :: t ∧ (c = Ascii.minus ∨ isDigit c = true) := by
  unfold text
  split_ifs with hn
  · exact ⟨_, _, rfl, Or.inl rfl⟩
  · obtain ⟨c, t, ht, hc⟩ := unsigned_head (n.start.resolve_left hn)
    exact ⟨c, t, ht, Or.inr hc⟩

/-- The bytes that may follow a value: white space and what goes on or closes. -/
def delimiters : Bytes :=
  [Ascii.sp, Ascii.tab, Ascii.lf, Ascii.cr, Ascii.comma, Ascii.rbracket, Ascii.rbrace]

def Ends (rest : Bytes) : Prop := ∀ c, rest.head? = some c → c ∈ delimiters

theorem ends_nil : Ends [] := fun c hc => absurd hc (by simp)

theorem Ends.optional_none {rest : Bytes} (h : Ends rest) {p : Byte → Bool}
    (hp : ∀ c ∈ delimiters, p c = false) : optional p rest = ([], rest) :=
  Foundation.optional_none fun c hc => hp c (h c hc)

theorem Ends.no_digit {rest : Bytes} (h : Ends rest) :
    ∀ c, rest.head? = some c → isDigit c = false := by
  have hdelim : ∀ c ∈ delimiters, isDigit c = false := by decide +kernel
  exact fun c hc => hdelim c (h c hc)

def isExpLetter (c : Byte) : Bool := c = Ascii.letter 'e' || c = Ascii.letter 'E'

def isSign (c : Byte) : Bool := c = Ascii.plus || c = Ascii.minus

theorem optional_cases (p : Byte → Bool) (s : Bytes) :
    (optional p s).1 = [] ∨ ∃ c, p c = true ∧ (optional p s).1 = [c] := by
  cases s with
  | nil => exact Or.inl rfl
  | cons c s =>
      rw [Foundation.optional]
      split_ifs with hc
      · exact Or.inr ⟨c, hc, rfl⟩
      · exact Or.inl rfl

theorem Exponent.scan_tail (e : Exponent) {rest : Bytes} (hr : Ends rest) :
    andThen (optional isSign) Foundation.digits (e.sign.toList ++ e.digits ++ rest) =
      (e.sign.toList ++ e.digits, rest) := by
  have hdig := digits_append e.digits_ok hr.no_digit
  rw [List.append_assoc]
  refine andThen_eq ?_ hdig
  cases hs : e.sign with
  | some c =>
      refine optional_cons ?_ _
      rcases e.sign_ok c hs with rfl | rfl <;> decide
  | none =>
      refine Foundation.optional_none fun c hc => ?_
      rw [Option.toList_none, List.nil_append] at hc
      cases hd : e.digits with
      | nil =>
          have hdelim : ∀ c ∈ delimiters, isSign c = false := by decide +kernel
          rw [hd, List.nil_append] at hc
          exact hdelim c (hr c hc)
      | cons d ds =>
          rw [hd] at hc
          obtain rfl := Option.some.inj hc
          have hdd := e.digits_ok d (by simp [hd])
          simp only [isSign, Bool.or_eq_false_iff, decide_eq_false_iff_not]
          exact ⟨digit_ne hdd (by decide), digit_ne hdd (by decide)⟩

theorem Numeral.scan_exp (n : Numeral) {rest : Bytes} (hr : Ends rest) :
    ifTaken (optional isExpLetter) (andThen (optional isSign) Foundation.digits) (n.expText ++ rest) =
      (n.expText, rest) := by
  unfold expText
  cases n.exp with
  | none => exact ifTaken_skip (hr.optional_none (by decide +kernel))
  | some e =>
      have hl : isExpLetter e.letter = true := by
        rcases e.letter_ok with h | h <;> rw [h] <;> decide
      exact ifTaken_eq (optional_cons hl _) (List.cons_ne_nil _ _) (e.scan_tail hr)

/-- Behind the integer part and the fraction comes no digit. -/
theorem Numeral.expText_head (n : Numeral) {rest : Bytes} (hr : Ends rest) {c : Byte}
    (hc : (n.expText ++ rest).head? = some c) : isDigit c = false ∧ c ≠ Ascii.dot := by
  unfold expText at hc
  cases he : n.exp with
  | none =>
      have hdelim : ∀ c ∈ delimiters, isDigit c = false ∧ c ≠ Ascii.dot := by decide +kernel
      rw [he] at hc
      exact hdelim c (hr c hc)
  | some e =>
      rw [he] at hc
      obtain rfl : e.letter = c := Option.some.inj hc
      rcases e.letter_ok with h | h <;> rw [h] <;> decide

theorem Numeral.scan_frac (n : Numeral) {rest : Bytes} (hr : Ends rest) :
    ifTaken (optional (· = Ascii.dot)) Foundation.digits (n.fracText ++ (n.expText ++ rest)) =
      (n.fracText, n.expText ++ rest) := by
  unfold fracText
  cases hf : n.frac with
  | none =>
      refine ifTaken_skip (Foundation.optional_none fun c hc => ?_)
      exact decide_eq_false (n.expText_head hr hc).2
  | some ds =>
      exact ifTaken_eq (optional_cons (by decide) _) (List.cons_ne_nil _ _)
        (digits_append (n.frac_ok ds hf) fun c hc => (n.expText_head hr hc).1)

theorem Numeral.fracText_head (n : Numeral) {rest : Bytes} (hr : Ends rest) {c : Byte}
    (hc : (n.fracText ++ (n.expText ++ rest)).head? = some c) : isDigit c = false := by
  unfold fracText at hc
  cases hf : n.frac with
  | none =>
      rw [hf] at hc
      exact (n.expText_head hr hc).1
  | some ds =>
      rw [hf] at hc
      obtain rfl : Ascii.dot = c := Option.some.inj hc
      decide

/-- The scanner takes a number text as a whole. -/
theorem scanNumber_text (n : Numeral) {rest : Bytes} (hr : Ends rest) :
    scanNumber (n.text ++ rest) = (n.text, rest) := by
  have hbody : andThen Foundation.digits (andThen (ifTaken (optional (· = Ascii.dot)) Foundation.digits)
      (ifTaken (optional isExpLetter) (andThen (optional isSign) Foundation.digits)))
      (n.unsigned ++ rest) = (n.unsigned, rest) := by
    rw [Numeral.unsigned, List.append_assoc, List.append_assoc]
    exact andThen_eq (digits_append n.int_ok fun c hc => n.fracText_head hr hc)
      (andThen_eq (n.scan_frac hr) (n.scan_exp hr))
  have hsign : optional (· = Ascii.minus) (n.text ++ rest) =
      (if n.negative then [Ascii.minus] else [], n.unsigned ++ rest) := by
    unfold Numeral.text
    split_ifs with hn
    · exact optional_cons (by decide) _
    · obtain ⟨c, t, ht, hc⟩ := Numeral.unsigned_head (n.start.resolve_left hn)
      refine Foundation.optional_none fun d hd => ?_
      rw [ht] at hd
      obtain rfl : c = d := Option.some.inj hd
      exact decide_eq_false (digit_ne hc (by decide))
  calc scanNumber (n.text ++ rest)
      = ((if n.negative then [Ascii.minus] else []) ++ n.unsigned, rest) := andThen_eq hsign hbody
    _ = (n.text, rest) := by unfold Numeral.text; split_ifs <;> rfl

theorem digits_all (s : Bytes) : ∀ c ∈ (digits s).1, isDigit c = true :=
  List.all_eq_true.mp List.all_takeWhile

theorem scanned_exp (s : Bytes) :
    ∃ e : Option Exponent,
      (ifTaken (optional isExpLetter) (andThen (optional isSign) digits) s).1 = e.elim [] Exponent.text := by
  rcases optional_cases isExpLetter s with hnone | ⟨l, hl, hsome⟩
  · exact ⟨none, by rw [ifTaken_of_nil hnone, hnone]; rfl⟩
  · have hletter : l = Ascii.letter 'e' ∨ l = Ascii.letter 'E' := by simpa [isExpLetter] using hl
    obtain ⟨sgn, hsgn, hok⟩ : ∃ sgn : Option Byte,
        (optional isSign (optional isExpLetter s).2).1 = sgn.toList ∧
          ∀ c, sgn = some c → c = Ascii.plus ∨ c = Ascii.minus := by
      rcases optional_cases isSign (optional isExpLetter s).2 with h | ⟨c, hc, h⟩
      · exact ⟨none, h, by simp⟩
      · refine ⟨some c, h, fun d hd => ?_⟩
        obtain rfl := Option.some.inj hd
        simpa [isSign] using hc
    refine ⟨some ⟨l, sgn, _, hletter, hok,
      digits_all (optional isSign (optional isExpLetter s).2).2⟩, ?_⟩
    rw [ifTaken_of_ne_nil (by rw [hsome]; simp), andThen, hsome, andThen, hsgn]
    rfl

theorem scanned_frac (s : Bytes) :
    ∃ f : Option Bytes, (∀ ds, f = some ds → ∀ c ∈ ds, isDigit c = true) ∧
      (ifTaken (optional (· = Ascii.dot)) digits s).1 = f.elim [] (Ascii.dot :: ·) := by
  rcases optional_cases (· = Ascii.dot) s with hnone | ⟨c, hc, hsome⟩
  · exact ⟨none, by simp, by rw [ifTaken_of_nil hnone, hnone]; rfl⟩
  · obtain rfl : c = Ascii.dot := of_decide_eq_true hc
    refine ⟨some (digits (optional (· = Ascii.dot) s).2).1, fun ds hds => ?_, ?_⟩
    · obtain rfl := Option.some.inj hds
      exact digits_all _
    · rw [ifTaken_of_ne_nil (by rw [hsome]; simp), andThen, hsome]
      rfl

/-- What the scanner cuts out, behind a minus sign or in front of a digit, is a number text. -/
theorem scanNumber_numeral {c : Byte} {s : Bytes} (hc : c = Ascii.minus ∨ isDigit c = true) :
    ∃ n : Numeral, (scanNumber (c :: s)).1 = n.text := by
  obtain ⟨f, hf, hfrac⟩ := scanned_frac (digits (optional (· = Ascii.minus) (c :: s)).2).2
  obtain ⟨e, hexp⟩ := scanned_exp (ifTaken (optional (· = Ascii.dot)) digits
    (digits (optional (· = Ascii.minus) (c :: s)).2).2).2
  have hscan : (scanNumber (c :: s)).1 = (optional (· = Ascii.minus) (c :: s)).1 ++
      ((digits (optional (· = Ascii.minus) (c :: s)).2).1 ++
        (f.elim [] (Ascii.dot :: ·) ++ e.elim [] Exponent.text)) := by
    rw [← hfrac, ← hexp]
    rfl
  by_cases hm : c = Ascii.minus
  · refine ⟨⟨true, _, f, e, Or.inl rfl, digits_all s, hf⟩, ?_⟩
    rw [hscan, hm, optional_cons (by decide)]
    rfl
  · have hdigit := hc.resolve_left hm
    have hskip : optional (· = Ascii.minus) (c :: s) = ([], c :: s) :=
      Foundation.optional_none fun d hd => by
        obtain rfl := Option.some.inj hd
        exact decide_eq_false hm
    refine ⟨⟨false, _, f, e, Or.inr ?_, digits_all (c :: s), hf⟩, ?_⟩
    · rw [digits, List.takeWhile_cons, if_pos hdigit]
      simp
    · rw [hscan, hskip]
      rfl

/-! ## Conversion -/

theorem Numeral.takeWhile_unsigned (n : Numeral) :
    n.unsigned.takeWhile isDigit = n.int ∧ n.unsigned.dropWhile isDigit = n.fracText ++ n.expText := by
  refine takeWhile_digits n.int_ok fun c hc => n.fracText_head ends_nil (c := c) ?_
  rwa [List.append_nil]

theorem Numeral.takeWhile_expText (n : Numeral) {ds : Bytes} (hds : ∀ c ∈ ds, isDigit c = true) :
    (ds ++ n.expText).takeWhile isDigit = ds ∧ (ds ++ n.expText).dropWhile isDigit = n.expText := by
  refine takeWhile_digits hds fun c hc => (n.expText_head ends_nil (c := c) ?_).1
  rwa [List.append_nil]

theorem takeWhile_all {ds : Bytes} (h : ∀ c ∈ ds, isDigit c = true) : ds.takeWhile isDigit = ds :=
  List.takeWhile_eq_self_iff.mpr h

theorem Exponent.exponentOf_text (e : Exponent) : Binary64.exponentOf e.text = e.value := by
  have hdig := takeWhile_all e.digits_ok
  unfold text value
  rw [Binary64.exponentOf.eq_def]
  simp only [if_pos e.letter_ok]
  cases hs : e.sign with
  | some c =>
      rw [Option.toList_some, List.singleton_append]
      rcases e.sign_ok c hs with rfl | rfl
      · simp only [hdig, Option.some.injEq, if_neg (show Ascii.plus ≠ Ascii.minus by decide), if_true]
      · simp only [hdig, if_true]
  | none =>
      rw [Option.toList_none, List.nil_append]
      cases hd : e.digits with
      | nil => rfl
      | cons d ds =>
          have hdd := e.digits_ok d (by simp [hd])
          have hm : d ≠ Ascii.minus := digit_ne hdd (by decide)
          have hp : d ≠ Ascii.plus := digit_ne hdd (by decide)
          rw [hd] at hdig
          simp only [if_neg hm, if_neg hp, hdig, reduceCtorEq, if_false]

theorem Numeral.exponentOf_expText (n : Numeral) :
    Binary64.exponentOf n.expText = n.exp.elim 0 Exponent.value := by
  unfold expText
  cases n.exp with
  | none => rfl
  | some e => exact e.exponentOf_text

theorem Numeral.text_sign (n : Numeral) :
    (n.text.head? = some Ascii.minus ↔ n.negative = true) ∧
      (if n.negative = true then n.text.tail else n.text) = n.unsigned := by
  unfold text
  by_cases hn : n.negative = true
  · simp [hn]
  · obtain ⟨c, t, ht, hc⟩ := unsigned_head (n.start.resolve_left hn)
    have hne : c ≠ Ascii.minus := digit_ne hc (by decide)
    simp [hn, ht, hne]

/-- `std::stod` on a number text. -/
theorem stod_text (n : Numeral) : Binary64.stod n.text = n.stod := by
  obtain ⟨hneg, hunsigned⟩ := n.text_sign
  obtain ⟨htake, hdrop⟩ := n.takeWhile_unsigned
  simp only [Binary64.stod, hneg, hunsigned, htake, hdrop]
  unfold Numeral.stod Numeral.digits Numeral.exponent Numeral.signed Numeral.fracText
  cases hf : n.frac with
  | none =>
      have hdot : n.expText.head? ≠ some Ascii.dot := fun h =>
        (n.expText_head ends_nil (by rwa [List.append_nil])).2 rfl
      simp only [Option.elim_none, List.nil_append, hdot, if_false, Option.getD_none, List.append_nil,
        and_true, n.exponentOf_expText]
  | some ds =>
      obtain ⟨ht, hd⟩ := n.takeWhile_expText (n.frac_ok ds hf)
      simp only [Option.elim_some, List.cons_append, List.head?_cons, if_true, List.tail_cons, ht, hd,
        Option.getD_some, List.append_eq_nil_iff, n.exponentOf_expText]

/-- The text denotes a number other than zero, too small for a normal double and no double. -/
def Numeral.Underflows (n : Numeral) : Prop :=
  Binary64.DecimalUnderflows (ofDecimal n.digits) n.exponent

theorem Numeral.stod_isSome (n : Numeral) :
    n.stod.isSome = true ↔ n.digits ≠ [] ∧ n.double.isSome = true ∧ ¬ n.Underflows := by
  unfold stod double Underflows
  rw [Option.isSome_map, ← Binary64.decimalMagnitude_isSome]
  split_ifs with h
  · simp [h]
  · simp [h]

theorem Numeral.denoted_isSome (n : Numeral) :
    n.denoted.isSome = true ↔ n.Rfc ∧ n.double.isSome = true := by
  unfold denoted
  split_ifs with h
  · simp [h]
  · simp [h]

/-- In the grammar's form a text that converts denotes what it converts to. -/
theorem Numeral.denoted_of_stod {n : Numeral} (h : n.Rfc) {d : Double} (hd : n.stod = some d) :
    n.denoted = some d := by
  unfold stod at hd
  split_ifs at hd
  obtain ⟨m, hm, rfl⟩ := Option.map_eq_some_iff.mp hd
  rw [denoted, if_pos h, double, Binary64.roundDecimal_of_magnitude hm, Option.map_some]

theorem Numeral.stod_eq_denoted {n : Numeral} {x y : Double} (hx : n.stod = some x)
    (hy : n.denoted = some y) : n.stod = n.denoted := by
  have hrfc : n.Rfc := by
    by_contra h
    rw [denoted, if_neg h] at hy
    exact absurd hy (by simp)
  rw [hx, denoted_of_stod hrfc hx]

/-! ## The parts of a number text -/

theorem Exponent.text_injective {e f : Exponent} (h : e.text = f.text) : e = f := by
  obtain ⟨hl, ht⟩ := List.cons.inj h
  have hsplit : ∀ g : Exponent, (∀ c, g.sign = some c → isDigit c = false) := fun g c hc => by
    rcases g.sign_ok c hc with rfl | rfl <;> decide
  have hboth : e.sign = f.sign ∧ e.digits = f.digits := by
    cases he : e.sign with
    | none =>
        cases hf : f.sign with
        | none => exact ⟨rfl, by simpa [he, hf] using ht⟩
        | some c =>
            have hc : c ∈ e.digits := by
              rw [he, hf, Option.toList_none, List.nil_append] at ht
              rw [ht]
              exact List.mem_cons_self
            exact absurd ((e.digits_ok c hc).symm.trans (hsplit f c hf)) (by simp)
    | some c =>
        cases hf : f.sign with
        | none =>
            have hc : c ∈ f.digits := by
              rw [he, hf, Option.toList_none, List.nil_append] at ht
              rw [← ht]
              exact List.mem_cons_self
            exact absurd ((f.digits_ok c hc).symm.trans (hsplit e c he)) (by simp)
        | some d =>
            rw [he, hf] at ht
            obtain ⟨rfl, hd⟩ := List.cons.inj ht
            exact ⟨rfl, hd⟩
  exact Exponent.ext hl hboth.1 hboth.2

theorem Numeral.expText_injective {n m : Numeral} (h : n.expText = m.expText) : n.exp = m.exp := by
  unfold expText at h
  cases hn : n.exp with
  | none =>
      cases hm : m.exp with
      | none => rfl
      | some e =>
          rw [hn, hm] at h
          exact absurd h.symm (List.cons_ne_nil _ _)
  | some e =>
      cases hm : m.exp with
      | none =>
          rw [hn, hm] at h
          exact absurd h (List.cons_ne_nil _ _)
      | some f =>
          rw [hn, hm] at h
          rw [Exponent.text_injective h]

theorem Numeral.frac_injective {n m : Numeral}
    (h : n.fracText ++ n.expText = m.fracText ++ m.expText) : n.frac = m.frac ∧ n.exp = m.exp := by
  have hdot : ∀ k : Numeral, k.expText.head? ≠ some Ascii.dot := fun k hk =>
    (k.expText_head ends_nil (by rwa [List.append_nil])).2 rfl
  unfold fracText at h
  cases hn : n.frac with
  | none =>
      cases hm : m.frac with
      | none =>
          rw [hn, hm] at h
          exact ⟨rfl, expText_injective h⟩
      | some ds =>
          rw [hn, hm] at h
          exact absurd (congrArg List.head? h) (hdot n)
  | some ds =>
      cases hm : m.frac with
      | none =>
          rw [hn, hm] at h
          exact absurd (congrArg List.head? h).symm (hdot m)
      | some es =>
          rw [hn, hm] at h
          have hrest : ds ++ n.expText = es ++ m.expText := (List.cons.inj h).2
          obtain ⟨htn, hdn⟩ := n.takeWhile_expText (n.frac_ok ds hn)
          obtain ⟨htm, hdm⟩ := m.takeWhile_expText (m.frac_ok es hm)
          rw [← htn, ← htm]
          exact ⟨by rw [hrest], expText_injective (by rw [← hdn, ← hdm, hrest])⟩

/-- A number text has one reading. -/
theorem Numeral.text_injective {n m : Numeral} (h : n.text = m.text) : n = m := by
  obtain ⟨hneg, hn⟩ := n.text_sign
  obtain ⟨hneg', hm⟩ := m.text_sign
  have hsign : n.negative = m.negative := by
    rw [Bool.eq_iff_iff, ← hneg, ← hneg', h]
  have hunsigned : n.unsigned = m.unsigned := by rw [← hn, ← hm, hsign, h]
  obtain ⟨htn, hdn⟩ := n.takeWhile_unsigned
  obtain ⟨htm, hdm⟩ := m.takeWhile_unsigned
  have hint : n.int = m.int := by rw [← htn, ← htm, hunsigned]
  have hrest : n.fracText ++ n.expText = m.fracText ++ m.expText := by rw [← hdn, ← hdm, hunsigned]
  obtain ⟨hfrac, hexp⟩ := frac_injective hrest
  exact Numeral.ext hsign hint hfrac hexp

end OpenBambu.Json
