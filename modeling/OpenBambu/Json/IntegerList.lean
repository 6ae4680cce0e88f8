import OpenBambu.Json.Layout
import OpenBambu.Foundation.Text

/-!
# Lists of integers between commas

Integers as they are typed, leading zeros and white space allowed. An integer that a double holds is read as
itself; a list that is trimmed as a whole is a list of the same integers.
-/

namespace OpenBambu.Json

open OpenBambu.Foundation

/-! ## Integers -/

/-- Digits, behind a minus sign or not. -/
structure IntegerText where
  negative : Bool
  digits : Bytes
  nonempty : digits ≠ []
  digits_ok : ∀ c ∈ digits, isDigit c = true

namespace IntegerText

def text (t : IntegerText) : Bytes := if t.negative then Ascii.minus :: t.digits else t.digits

def value (t : IntegerText) : Int := if t.negative then -(ofDecimal t.digits : Int) else ofDecimal t.digits

/-- A double holds the integer exactly. -/
def Held (t : IntegerText) : Prop :=
  Binary64.Representable (ofDecimal t.digits) ∧ ∃ k ≤ 1024, ofDecimal t.digits < 2 ^ k

theorem no_fraction (ds : Bytes) (h : none = some ds) : ∀ c ∈ ds, isDigit c = true := nomatch h

def numeral (t : IntegerText) : Numeral where
  negative := t.negative
  int := t.digits
  frac := none
  exp := none
  start := Or.inr t.nonempty
  int_ok := t.digits_ok
  frac_ok := no_fraction

theorem numeral_text (t : IntegerText) : t.numeral.text = t.text := by
  have hunsigned : t.numeral.unsigned = t.digits := by
    simp [Numeral.unsigned, Numeral.fracText, Numeral.expText, numeral]
  rw [Numeral.text, hunsigned]
  rfl

theorem numeral_stod {t : IntegerText} (h : t.Held) : t.numeral.stod = some (t.value : Double) := by
  obtain ⟨hrep, k, hk, hlt⟩ := h
  have hdigits : t.numeral.digits = t.digits := by simp [Numeral.digits, numeral]
  have hexponent : t.numeral.exponent = 0 := by simp [Numeral.exponent, numeral]
  rw [Numeral.stod, hdigits, if_neg t.nonempty, hexponent, Binary64.decimalMagnitude_zero,
    Binary64.strtodMagnitude_representable hrep hlt hk, Option.map_some, Numeral.signed, value]
  show some (if t.negative = true then _ else _) = _
  split_ifs
  · rw [Int.cast_neg, Int.cast_natCast]
  · rw [Int.cast_natCast]

theorem readsAs {t : IntegerText} (h : t.Held) : ReadsAs t.text (.number t.value) := by
  rw [← t.numeral_text]
  refine (Spells.number t.numeral).readsAs ?_
  rw [Tree.value, numeral_stod h, Option.map_some]

/-- A minus sign or a digit. -/
theorem text_bytes (t : IntegerText) : ∀ c ∈ t.text, c = Ascii.minus ∨ isDigit c = true := by
  intro c hc
  rw [text] at hc
  split_ifs at hc
  · exact (List.mem_cons.mp hc).imp_right (t.digits_ok c)
  · exact Or.inr (t.digits_ok c hc)

theorem text_ne_nil (t : IntegerText) : t.text ≠ [] := by
  rw [text]
  split_ifs
  · exact List.cons_ne_nil _ _
  · exact t.nonempty

/-- No blank, comma or bracket is part of an integer. -/
theorem byte_apart {c : Byte} (h : c = Ascii.minus ∨ isDigit c = true) :
    isWs c = false ∧ c ≠ Ascii.comma ∧ c ≠ Ascii.lbracket := by
  rcases h with rfl | h
  · decide
  · have hall : ∀ c : Byte, isDigit c = true → isWs c = false ∧ c ≠ Ascii.comma ∧ c ≠ Ascii.lbracket :=
      forall_byte (by decide +kernel)
    exact hall c h

end IntegerText

/-- An integer between white space. -/
structure PaddedInteger where
  before : Bytes
  integer : IntegerText
  after : Bytes
  before_blank : Blank before
  after_blank : Blank after

namespace PaddedInteger

def bytes (t : PaddedInteger) : Bytes := t.before ++ (t.integer.text ++ t.after)

theorem bytes_ne_nil (t : PaddedInteger) : t.bytes ≠ [] := by
  simp [bytes, t.integer.text_ne_nil]

theorem comma_not_mem (t : PaddedInteger) : Ascii.comma ∉ t.bytes := by
  have hws : isWs Ascii.comma = false := by decide
  rw [bytes, List.mem_append, List.mem_append, not_or, not_or]
  refine ⟨fun h => ?_, fun h => ?_, fun h => ?_⟩
  · rw [t.before_blank _ h] at hws
    cases hws
  · exact (IntegerText.byte_apart (t.integer.text_bytes _ h)).2.1 rfl
  · rw [t.after_blank _ h] at hws
    cases hws

theorem parse_bytes (t : PaddedInteger) (h : t.integer.Held) : parse t.bytes = .ok (.number t.integer.value) :=
  (parse_blank t.before_blank t.after_blank _ _).mpr (IntegerText.readsAs h).parse_self

theorem blank_nil : Blank [] := by simp [Blank]

def noBefore (t : PaddedInteger) : PaddedInteger := { t with before := [], before_blank := blank_nil }

def noAfter (t : PaddedInteger) : PaddedInteger := { t with after := [], after_blank := blank_nil }

theorem bytes_before (t : PaddedInteger) : t.bytes = t.before ++ t.noBefore.bytes := rfl

theorem bytes_after (t : PaddedInteger) : t.bytes = t.noAfter.bytes ++ t.after := by
  simp [bytes, noAfter]

end PaddedInteger

/-! ## Lists -/

def commaList (ts : List PaddedInteger) : Bytes := [Ascii.comma].intercalate (ts.map PaddedInteger.bytes)

theorem pieces_commaList (ts : List PaddedInteger) :
    pieces Ascii.comma (commaList ts) = ts.map PaddedInteger.bytes := by
  refine pieces_intercalate fun b hb => ?_
  obtain ⟨t, -, rfl⟩ := List.mem_map.mp hb
  exact ⟨t.comma_not_mem, t.bytes_ne_nil⟩

theorem commaList_singleton (t : PaddedInteger) : commaList [t] = t.bytes := List.intercalate_singleton

theorem commaList_cons (t : PaddedInteger) {ts : List PaddedInteger} (h : ts ≠ []) :
    commaList (t :: ts) = t.bytes ++ Ascii.comma :: commaList ts := by
  obtain ⟨u, us, rfl⟩ := List.exists_cons_of_ne_nil h
  rw [commaList, List.map_cons, List.map_cons, List.intercalate_cons_cons, List.append_assoc]
  rfl

/-- The first integer is the front of the list. -/
theorem commaList_front (ts : List PaddedInteger) : ∃ back, ∀ t, commaList (t :: ts) = t.bytes ++ back := by
  cases ts with
  | nil => exact ⟨[], fun t => by rw [commaList_singleton, List.append_nil]⟩
  | cons u us => exact ⟨Ascii.comma :: commaList (u :: us), fun t => commaList_cons t (List.cons_ne_nil u us)⟩

/-- The last integer is the back of the list. -/
theorem commaList_back (ts : List PaddedInteger) : ∃ front, ∀ t, commaList (ts ++ [t]) = front ++ t.bytes := by
  induction ts with
  | nil => exact ⟨[], commaList_singleton⟩
  | cons u us ih =>
      obtain ⟨front, hfront⟩ := ih
      refine ⟨u.bytes ++ Ascii.comma :: front, fun t => ?_⟩
      rw [List.cons_append, commaList_cons u (by simp), hfront, List.append_assoc, List.cons_append]

theorem head_noBefore (t : PaddedInteger) (back : Bytes) :
    (t.noBefore.bytes ++ back).head? = t.integer.text.head? := by
  obtain ⟨c, u, hcu⟩ := List.exists_cons_of_ne_nil t.integer.text_ne_nil
  rw [PaddedInteger.bytes, PaddedInteger.noBefore, hcu]
  rfl

theorem last_noAfter (t : PaddedInteger) (front : Bytes) :
    (front ++ t.noAfter.bytes).getLast? = t.integer.text.getLast? := by
  rw [PaddedInteger.bytes, PaddedInteger.noAfter, List.append_nil, ← List.append_assoc, List.getLast?_append]
  cases hlast : t.integer.text.getLast? with
  | none => exact absurd (List.getLast?_eq_none_iff.mp hlast) t.integer.text_ne_nil
  | some c => rfl

/-- Trimmed, a list of integers is a list of the same integers, and starts with one. -/
theorem commaList_trim {ts : List PaddedInteger} (h : ts ≠ []) :
    ∃ us : List PaddedInteger, us.map PaddedInteger.integer = ts.map PaddedInteger.integer ∧
      ((commaList ts).dropWhile isWs).rdropWhile isWs = commaList us ∧
      ∃ c, (commaList us).head? = some c ∧ c ≠ Ascii.lbracket := by
  obtain ⟨t, rest, rfl⟩ := List.exists_cons_of_ne_nil h
  obtain ⟨back, hback⟩ := commaList_front rest
  have hbefore : commaList (t :: rest) = t.before ++ commaList (t.noBefore :: rest) := by
    rw [hback, hback, t.bytes_before, List.append_assoc]
  obtain ⟨init, last, hinit⟩ : ∃ init last, t.noBefore :: rest = init ++ [last] := by
    rcases List.eq_nil_or_concat (t.noBefore :: rest) with hnil | ⟨init, last, hsnoc⟩
    · exact absurd hnil (List.cons_ne_nil _ _)
    · exact ⟨init, last, by rw [hsnoc, List.concat_eq_append]⟩
  obtain ⟨front, hfront⟩ := commaList_back init
  have hafter : commaList (init ++ [last]) = commaList (init ++ [last.noAfter]) ++ last.after := by
    rw [hfront, hfront, last.bytes_after, List.append_assoc]
  obtain ⟨w, us, hus, hw⟩ : ∃ w us, init ++ [last.noAfter] = PaddedInteger.noBefore w :: us ∧
      w.integer = t.integer := by
    cases init with
    | nil =>
        obtain ⟨hlast, -⟩ := List.cons.inj hinit
        exact ⟨t.noAfter, [], by rw [← hlast]; rfl, rfl⟩
    | cons i init =>
        obtain ⟨hi, -⟩ := List.cons.inj hinit
        exact ⟨t, init ++ [last.noAfter], by rw [← hi]; rfl, rfl⟩
  have hhead : (commaList (init ++ [last.noAfter])).head? = t.integer.text.head? := by
    obtain ⟨back', hback'⟩ := commaList_front us
    rw [hus, hback', head_noBefore, hw]
  have hlast : (commaList (init ++ [last.noAfter])).getLast? = last.integer.text.getLast? := by
    rw [hfront, last_noAfter]
  obtain ⟨c, u, hcu⟩ := List.exists_cons_of_ne_nil t.integer.text_ne_nil
  have hc := IntegerText.byte_apart (t.integer.text_bytes c (by simp [hcu]))
  refine ⟨init ++ [last.noAfter], ?_, ?_, c, by rw [hhead, hcu, List.head?_cons], hc.2.2⟩
  · have hmap := congrArg (List.map PaddedInteger.integer) hinit
    rw [List.map_append, List.map_singleton] at hmap ⊢
    exact hmap.symm
  · rw [hbefore, hinit, hafter, trim_blank t.before_blank last.after_blank, dropWhile_head]
    · refine List.rdropWhile_eq_self_iff.mpr fun hne => ?_
      have hmem := List.getLast?_eq_some_getLast hne
      rw [hlast] at hmem
      simp [(IntegerText.byte_apart (last.integer.text_bytes _ (List.mem_of_getLast? hmem))).1]
    · intro b hb
      rw [hhead, hcu, List.head?_cons] at hb
      exact Option.some.inj hb ▸ hc.1

end OpenBambu.Json
