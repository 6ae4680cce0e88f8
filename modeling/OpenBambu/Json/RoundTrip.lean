import OpenBambu.Json.Grammar
import Mathlib.Tactic.IntervalCases

/-!
# Reading back what `dump` writes

A value built from null, booleans, strings of any bytes, numbers that read back, arrays and
objects is read back from its own text, whatever follows the text (`reads_dump`), so `parse`
inverts `dump` on such values. Integers that a double and `long long` both hold are such
numbers, and so is every count below `2^63` once it is rounded to a double.
-/

namespace OpenBambu.Json

open OpenBambu.Foundation

/-- Integers that `dump` writes as such and that the text of denotes exactly. -/
def Exact (n : Int) : Prop := Binary64.Representable n.natAbs ∧ n.natAbs ≤ 2 ^ 63 - 1024

theorem exact_of_small {n : Int} (h : n.natAbs < 2 ^ 53) : Exact n :=
  ⟨Binary64.representable_of_lt h, by omega⟩

/-! ## Strings -/

theorem hex4_control {n : Nat} (h : n < 32) :
    hex4 0x30 0x30 (hexDigit (n / 16)) (hexDigit (n % 16)) = some n ∧ utf8 n = [UInt8.ofNat n] := by
  interval_cases n <;> decide

theorem readsString_escapeByte (c : Byte) {s str rest : Bytes} (h : ReadsString s str rest) :
    ReadsString (escapeByte c ++ s) (c :: str) rest := by
  have hshort : ∀ e b : Byte, simpleEscape e = some b →
      ReadsString (Ascii.backslash :: e :: s) (b :: str) rest := fun e b he =>
    .escape (escapeAt_of_reads (.simple he)) (by simp) h
  unfold escapeByte
  split_ifs with h1 h2 h3 h4 h5 h6 h7 h8
  · subst h1
    exact hshort _ _ (by decide)
  · subst h2
    exact hshort _ _ (by decide)
  · exact h3 ▸ hshort _ _ (by decide)
  · exact h4 ▸ hshort _ _ (by decide)
  · exact h5 ▸ hshort _ _ (by decide)
  · exact h6 ▸ hshort _ _ (by decide)
  · exact h7 ▸ hshort _ _ (by decide)
  · have hlt : c.toNat < 32 := UInt8.lt_iff_toNat_lt.mp h8
    obtain ⟨hhex, hutf⟩ := hex4_control hlt
    have hesc := escapeAt_of_reads (.unit (x := s) hhex (by omega))
    rw [hutf, UInt8.ofNat_toNat] at hesc
    exact .escape hesc (by simp) h
  · exact .plain h1 h2 h

/-- `escape` and the parser's strings are inverse. -/
theorem readsString_escape (s rest : Bytes) :
    ReadsString (s.flatMap escapeByte ++ Ascii.quote :: rest) s rest := by
  induction s with
  | nil => exact .close
  | cons c s ih =>
      rw [List.flatMap_cons, List.append_assoc]
      exact readsString_escapeByte c ih

theorem escape_append (s rest : Bytes) :
    escape s ++ rest = Ascii.quote :: (s.flatMap escapeByte ++ Ascii.quote :: rest) := by
  simp [escape]

/-! ## Integers -/

/-- A byte that goes on with a number text. -/
def numberByte (c : Byte) : Bool :=
  isDigit c || c = Ascii.dot || c = Ascii.letter 'e' || c = Ascii.letter 'E'

/-- What may follow a number text: nothing, or a byte that ends it. -/
def Delimited (rest : Bytes) : Prop := ∀ c, rest.head? = some c → numberByte c = false

theorem delimited_cons {c : Byte} (h : numberByte c = false) (rest : Bytes) : Delimited (c :: rest) := by
  intro d hd
  obtain rfl := Option.some.inj hd
  exact h

/-- Behind the sign, digits that are followed by no part of a number are all of it. -/
theorem scan_digits {ds rest : Bytes} (hd : ∀ c ∈ ds, isDigit c = true) (hr : Delimited rest) :
    andThen digits
      (andThen (ifTaken (optional (· = Ascii.dot)) digits)
        (ifTaken (optional fun c => c = Ascii.letter 'e' || c = Ascii.letter 'E')
          (andThen (optional fun c => c = Ascii.plus || c = Ascii.minus) digits))) (ds ++ rest) =
      (ds, rest) := by
  have hstop : ∀ c, rest.head? = some c → isDigit c = false ∧ c ≠ Ascii.dot ∧
      c ≠ Ascii.letter 'e' ∧ c ≠ Ascii.letter 'E' := by
    intro c hc
    have := hr c hc
    simp only [numberByte, Bool.or_eq_false_iff, decide_eq_false_iff_not] at this
    exact ⟨this.1.1.1, this.1.1.2, this.1.2, this.2⟩
  obtain ⟨ht, hdrop⟩ := takeWhile_digits hd fun c hc => (hstop c hc).1
  have hdot : optional (fun c => decide (c = Ascii.dot)) rest = ([], rest) :=
    optional_none fun c hc => by simp [(hstop c hc).2.1]
  have hexp : optional (fun c => decide (c = Ascii.letter 'e') || decide (c = Ascii.letter 'E')) rest =
      ([], rest) :=
    optional_none fun c hc => by simp [(hstop c hc).2.2.1, (hstop c hc).2.2.2]
  simp only [andThen, digits, ht, hdrop, ifTaken, hdot, hexp, if_true, List.append_nil]

theorem scanNumber_signed (n : Int) {rest : Bytes} (hr : Delimited rest) :
    scanNumber (signed n ++ rest) = (signed n, rest) := by
  have hdec := scan_digits (decimal_digits n.natAbs) hr
  unfold scanNumber signed
  split_ifs
  · have hsgn : optional (fun c => decide (c = Ascii.minus))
        (Ascii.minus :: decimal n.natAbs ++ rest) = ([Ascii.minus], decimal n.natAbs ++ rest) :=
      optional_cons (by decide) _
    rw [andThen, hsgn, hdec, List.singleton_append]
  · have hsgn : optional (fun c => decide (c = Ascii.minus)) (decimal n.natAbs ++ rest) =
        ([], decimal n.natAbs ++ rest) := by
      refine optional_none fun c hc => ?_
      rw [List.head?_append_of_ne_nil _ (decimal_ne_nil _)] at hc
      have hd := decimal_digits _ c (List.mem_of_mem_head? hc)
      rw [decide_eq_false_iff_not]
      rintro rfl
      exact absurd hd (by decide)
    rw [andThen, hsgn, hdec, List.nil_append]

theorem stod_signed {n : Int} (h : Exact n) : Binary64.stod (signed n) = some (n : ℚ) := by
  have hlt : n.natAbs < 2 ^ 63 := by have := h.2; omega
  obtain ⟨hpos, hneg⟩ := Binary64.stod_decimal h.1 hlt (by decide)
  unfold signed
  split_ifs with hn
  · rw [hneg, Option.some.injEq, ← Int.cast_natCast, ← Int.cast_neg]
    congr 1
    omega
  · rw [hpos, Option.some.injEq, ← Int.cast_natCast]
    congr 1
    omega

theorem digit_ne {c d : Byte} (hc : isDigit c = true) (hd : isDigit d = false) : c ≠ d := by
  rintro rfl
  exact absurd (hc.symm.trans hd) (by simp)

/-- A number text starts with a minus sign or a digit, so it is no other kind of value. -/
theorem reads_number {c : Byte} {s rest : Bytes} {d : Double} (hc : c = Ascii.minus ∨ isDigit c = true)
    (h : parseNumber (c :: s) = .ok (d, rest)) : Reads .value (c :: s) (.number d) rest := by
  have hne : ∀ b ∈ [Ascii.quote, Ascii.lbrace, Ascii.lbracket, Ascii.letter 't', Ascii.letter 'f',
      Ascii.letter 'n', Ascii.sp, Ascii.tab, Ascii.lf, Ascii.cr], c ≠ b := by
    intro b hb
    rcases hc with rfl | hc
    · revert b
      decide +kernel
    · refine digit_ne hc ?_
      revert b
      decide +kernel
  simp only [List.mem_cons, List.not_mem_nil, or_false, forall_eq_or_imp, forall_eq] at hne
  obtain ⟨hq, hb, hk, ht, hf, hn, hws⟩ := hne
  have hscal : parseScalar c (c :: s) = .ok (.number d, rest) := by
    simp only [parseScalar, if_neg ht, if_neg hf, if_neg hn, if_pos hc, h]
  refine .scalar (t := s) ?_ hq hb hk hscal
  rw [skipWs, List.dropWhile_cons, if_neg (by simp [isWs, hws])]

/-- Reading an integer text. -/
theorem reads_signed {n : Int} (h : Exact n) {rest : Bytes} (hr : Delimited rest) :
    Reads .value (signed n ++ rest) (.number n) rest := by
  obtain ⟨c, t, hs, hc⟩ : ∃ c t, signed n = c :: t ∧ (c = Ascii.minus ∨ isDigit c = true) := by
    unfold signed
    split_ifs
    · exact ⟨_, _, rfl, Or.inl rfl⟩
    · obtain ⟨c, t, hdec⟩ := List.exists_cons_of_ne_nil (decimal_ne_nil n.natAbs)
      exact ⟨c, t, hdec, Or.inr (decimal_digits n.natAbs c (by rw [hdec]; exact List.mem_cons_self))⟩
  have hnum : parseNumber (signed n ++ rest) = .ok ((n : ℚ), rest) := by
    rw [parseNumber, scanNumber_signed n hr]
    simp only [if_neg (show signed n ≠ [] by simp [hs]), stod_signed h]
  rw [hs, List.cons_append] at hnum ⊢
  exact reads_number hc hnum

theorem toInt64_exact {n : Int} (h : Exact n) : Binary64.toInt64 (n : ℚ) = n := by
  have hle := h.2
  rw [Binary64.toInt64, Rat.num_intCast, Rat.den_intCast]
  simp only [Nat.cast_one, Int.tdiv_one]
  rw [if_pos (by omega)]

theorem dumpNumber_exact {n : Int} (h : Exact n) : dumpNumber (n : ℚ) = signed n := by
  have hle := h.2
  have hlo : (-(2 ^ 63 - 1024) : ℚ) ≤ (n : ℚ) := by
    exact_mod_cast (show (-(2 ^ 63 - 1024) : Int) ≤ n by omega)
  have hhi : (n : ℚ) ≤ 2 ^ 63 - 1024 := by
    exact_mod_cast (show n ≤ (2 ^ 63 - 1024 : Int) by omega)
  rw [dumpNumber, if_pos ⟨hlo, hhi, Rat.den_intCast n⟩, toInt64_exact h]

/-- A number that reads back from its text, whatever ends the text. -/
def ReadsBack (d : Double) : Prop :=
  ∀ rest, Delimited rest → Reads .value (dumpNumber d ++ rest) (.number d) rest

theorem Exact.readsBack {n : Int} (h : Exact n) : ReadsBack n := by
  intro rest hr
  rw [dumpNumber_exact h]
  exact reads_signed h hr

/-- `2^63` is beyond `dump`'s bound for integers. -/
def limitText : Bytes := ascii "9.2233720368547758e+18"

theorem dumpNumber_limit : dumpNumber (2 ^ 63) = limitText := by decide +kernel

theorem stod_limit : Binary64.stod limitText = some (2 ^ 63) := by decide +kernel

theorem limit_readsBack : ReadsBack (2 ^ 63) := by
  intro rest hr
  have hend : ∀ c, rest.head? = some c → isDigit c = false := by
    intro c hc
    have := hr c hc
    simp only [numberByte, Bool.or_eq_false_iff] at this
    exact this.1.1.1
  have hnone : ∀ c ∈ ([] : Bytes), isDigit c = true := by simp
  obtain ⟨ht, hd⟩ := takeWhile_digits hnone hend
  rw [List.nil_append] at ht hd
  have hscan : scanNumber (limitText ++ rest) = (limitText, rest) := by
    calc scanNumber (limitText ++ rest)
        = (limitText ++ rest.takeWhile isDigit, rest.dropWhile isDigit) := rfl
      _ = (limitText, rest) := by rw [ht, hd, List.append_nil]
  have hnum : parseNumber (limitText ++ rest) = .ok (2 ^ 63, rest) := by
    rw [parseNumber, hscan]
    simp only [if_neg (show limitText ≠ [] by decide), stod_limit]
  rw [dumpNumber_limit]
  exact reads_number (c := 0x39) (Or.inr (by decide)) hnum

/-- A count below `2^63` reads back as the double it was rounded to. -/
theorem count_readsBack {n : Nat} (h : n < 2 ^ 63) : ReadsBack (Binary64.ofNat n) := by
  obtain ⟨m, hm, hr, hle⟩ := Binary64.ofNat_rounds h
  rw [hm]
  rcases Nat.lt_or_eq_of_le hle with hlt | rfl
  · have hexact : Exact m := ⟨hr, Binary64.representable_gap hr hlt⟩
    exact hexact.readsBack
  · exact_mod_cast limit_readsBack

/-- The values that survive a round trip. -/
inductive Writable : Value → Prop
  | null : Writable .null
  | bool (b : Bool) : Writable (.bool b)
  | number {d : Double} (back : ReadsBack d) : Writable (.number d)
  | string (s : Bytes) : Writable (.string s)
  | array {a : List Value} (items : ∀ v ∈ a, Writable v) : Writable (.array a)
  | object {o : Object} (sorted : Sorted o) (members : ∀ p ∈ o, Writable p.2) : Writable (.object o)

/-! ## Arrays and objects -/

theorem dumpMoreItems_head (vs : List Value) (rest : Bytes) : Delimited (dumpMoreItems vs ++ rest) := by
  cases vs with
  | nil => exact delimited_cons (by decide) _
  | cons v vs => exact delimited_cons (by decide) _

theorem dumpMoreMembers_head (o : Object) (rest : Bytes) : Delimited (dumpMoreMembers o ++ rest) := by
  cases o with
  | nil => exact delimited_cons (by decide) _
  | cons p o => exact delimited_cons (by decide) _

/-- The elements of an array whose values read back. -/
theorem reads_items {v : Value} {vs : List Value}
    (h : ∀ w ∈ v :: vs, ∀ rest, Delimited rest → Reads .value (w.dump ++ rest) w rest)
    (acc : List Value) (rest : Bytes) :
    Reads (.items acc) (v.dump ++ dumpMoreItems vs ++ rest) (.array (acc ++ v :: vs)) rest := by
  induction vs generalizing v acc with
  | nil =>
      have hv := h v (by simp) _ (dumpMoreItems_head [] rest)
      rw [List.append_assoc]
      exact .lastItem hv rfl
  | cons w vs ih =>
      have hv := h v (by simp) _ (dumpMoreItems_head (w :: vs) rest)
      have hmore := ih (fun x hx => h x (List.mem_cons_of_mem _ hx)) (acc ++ [v])
      rw [show acc ++ [v] ++ w :: vs = acc ++ v :: w :: vs by simp] at hmore
      rw [List.append_assoc]
      exact .item hv rfl hmore

theorem emplace_last {acc : Object} {k : Bytes} (h : ∀ p ∈ acc, p.1 < k) (v : Value) :
    emplace acc k v = acc ++ [(k, v)] := by
  induction acc with
  | nil => rfl
  | cons p acc ih =>
      have hp := h p (by simp)
      have hne : k ≠ p.1 := by
        rintro rfl
        exact List.lt_irrefl _ hp
      rw [emplace, if_neg hne, if_neg (List.lt_asymm hp), ih fun q hq => h q (by simp [hq])]
      rfl

/-- The members of an object whose values read back, behind members with smaller keys. -/
theorem reads_members {p : Bytes × Value} {o : Object}
    (h : ∀ q ∈ p :: o, ∀ rest, Delimited rest → Reads .value (q.2.dump ++ rest) q.2 rest)
    {acc : Object} (hs : Sorted (acc ++ p :: o)) (rest : Bytes) :
    Reads (.members acc) (escape p.1 ++ Ascii.colon :: p.2.dump ++ dumpMoreMembers o ++ rest)
      (.object (acc ++ p :: o)) rest := by
  have hlt : ∀ q ∈ acc, q.1 < p.1 := fun q hq =>
    (List.pairwise_append.mp hs).2.2 q hq p List.mem_cons_self
  induction o generalizing p acc with
  | nil =>
      have hv := h p (by simp) _ (dumpMoreMembers_head [] rest)
      rw [← emplace_last hlt, List.append_assoc, List.append_assoc, escape_append]
      exact .lastMember rfl (readsString_escape _ _) rfl hv rfl
  | cons q o ih =>
      have hv := h p (by simp) _ (dumpMoreMembers_head (q :: o) rest)
      have hassoc : acc ++ [p] ++ q :: o = acc ++ p :: q :: o := by simp
      have hs' : Sorted (acc ++ [p] ++ q :: o) := hassoc ▸ hs
      have hmore := ih (fun x hx => h x (List.mem_cons_of_mem _ hx)) hs' fun x hx =>
        (List.pairwise_append.mp hs').2.2 x hx q List.mem_cons_self
      rw [hassoc, ← emplace_last hlt] at hmore
      rw [List.append_assoc, List.append_assoc, escape_append]
      exact .member rfl (readsString_escape _ _) rfl hv rfl hmore

/-- The three literals are read back. -/
theorem reads_literal {v : Value} {c : Byte} {t : Bytes} (hv : v.dump = c :: t)
    (hc : c = Ascii.letter 'n' ∨ c = Ascii.letter 't' ∨ c = Ascii.letter 'f') (rest : Bytes)
    (h : parseScalar c (v.dump ++ rest) = .ok (v, rest)) : Reads .value (v.dump ++ rest) v rest := by
  rw [hv, List.cons_append] at h ⊢
  rcases hc with rfl | rfl | rfl
  all_goals exact .scalar rfl (by decide) (by decide) (by decide) h

/-- A writable value is read back from its text, in front of anything that ends a number. -/
theorem reads_dump {v : Value} (h : Writable v) :
    ∀ rest, Delimited rest → Reads .value (v.dump ++ rest) v rest := by
  induction h with
  | null =>
      intro rest _
      refine reads_literal rfl (Or.inl rfl) rest ?_
      rw [parseScalar, if_neg (by decide), if_neg (by decide), if_pos rfl, Value.dump,
        literal_eq_some.mpr rfl]
  | bool b =>
      intro rest _
      cases b with
      | true =>
          refine reads_literal rfl (Or.inr (Or.inl rfl)) rest ?_
          rw [parseScalar, if_pos rfl, Value.dump, if_pos rfl, literal_eq_some.mpr rfl]
      | false =>
          refine reads_literal rfl (Or.inr (Or.inr rfl)) rest ?_
          rw [parseScalar, if_neg (by decide), if_pos rfl, Value.dump, if_neg (by decide),
            literal_eq_some.mpr rfl]
  | number back =>
      intro rest hr
      rw [Value.dump]
      exact back rest hr
  | string s =>
      intro rest _
      rw [Value.dump, escape_append]
      exact .string rfl (readsString_escape s rest)
  | @array a _ ih =>
      intro rest _
      cases a with
      | nil => exact .emptyArray rfl rfl
      | cons v vs =>
          have hin := reads_items (fun w hw => ih w hw) [] rest
          refine .array (t := v.dump ++ dumpMoreItems vs ++ rest) rfl ?_
            (hin.items_behind (skipWs_skipWs _))
          rw [List.append_assoc]
          exact (ih v List.mem_cons_self _ (dumpMoreItems_head vs rest)).value_head
  | @object o sorted _ ih =>
      intro rest _
      cases o with
      | nil => exact .emptyObject rfl rfl
      | cons p o =>
          have hsorted : Sorted ([] ++ p :: o) := sorted
          have hin := reads_members (fun q hq => ih q hq) hsorted rest
          obtain ⟨t, ht⟩ := hin.members_quote
          refine .object (t := escape p.1 ++ Ascii.colon :: p.2.dump ++ dumpMoreMembers o ++ rest)
            rfl ?_ (hin.members_behind (skipWs_skipWs _))
          rw [ht]
          exact fun h => absurd (Option.some.inj h) (by decide)

/-- `parse` inverts `dump`. -/
theorem parse_dump {v : Value} (h : Writable v) : parse v.dump = .ok v := by
  have hr := reads_dump h [] (fun c hc => absurd hc (by simp))
  rw [List.append_nil] at hr
  exact parse_ok_iff.mpr ⟨[], hr.value_behind (skipWs_skipWs _), rfl⟩

/-- What the plugin builds to send or to store: null, booleans, strings and keys of any bytes,
integers up to `2^53` in absolute value, arrays, and objects, whose keys a `std::map` sorts. -/
inductive Built : Value → Prop
  | null : Built .null
  | bool (b : Bool) : Built (.bool b)
  | integer {n : Int} (small : n.natAbs ≤ 2 ^ 53) : Built (.number n)
  | string (s : Bytes) : Built (.string s)
  | array {a : List Value} (items : ∀ v ∈ a, Built v) : Built (.array a)
  | object {o : Object} (sorted : Sorted o) (members : ∀ p ∈ o, Built p.2) : Built (.object o)

theorem exact_of_le {n : Int} (h : n.natAbs ≤ 2 ^ 53) : Exact n :=
  ⟨Binary64.representable_of_le h, by omega⟩

theorem Built.writable {v : Value} (h : Built v) : Writable v := by
  induction h with
  | null => exact .null
  | bool b => exact .bool b
  | integer small => exact .number (exact_of_le small).readsBack
  | string s => exact .string s
  | array _ ih => exact .array ih
  | object sorted _ ih => exact .object sorted ih

/-- A built value is read back from its text, so no two of them have the same text. -/
theorem dump_round_trip {v : Value} (h : Built v) :
    parse v.dump = .ok v ∧ ∀ w, Built w → w.dump = v.dump → w = v := by
  have hv := parse_dump h.writable
  refine ⟨hv, fun w hw heq => ?_⟩
  have hback := parse_dump hw.writable
  rw [heq, hv] at hback
  exact (Except.ok.inj hback).symm

/-- `{"a":[-9007199254740992,"\u0000\""]}`. -/
theorem dump_round_trip_nested :
    parse (Value.object [(ascii "a", .array [.number (-2 ^ 53 : Int), .string [0x00, 0x22]])]).dump =
      .ok (.object [(ascii "a", .array [.number (-2 ^ 53 : Int), .string [0x00, 0x22]])]) := by
  refine (dump_round_trip (.object (List.pairwise_singleton _ _) fun p hp => ?_)).1
  obtain rfl := List.mem_singleton.mp hp
  refine .array fun v hv => ?_
  rcases List.mem_cons.mp hv with rfl | hv
  · exact .integer (by decide)
  · obtain rfl := List.mem_singleton.mp hv
    exact .string _

/-! ## Objects of integers -/

def integerMembers (o : List (Bytes × Int)) : Object := o.map fun p => (p.1, .number p.2)

theorem lookup_integers (o : List (Bytes × Int)) (key : Bytes) :
    lookup (integerMembers o) key = (List.lookup key o).map fun n : Int => Value.number (n : ℚ) := by
  induction o with
  | nil => rfl
  | cons p o ih =>
      rw [lookup, integerMembers] at ih
      rw [lookup, integerMembers, List.map_cons, List.lookup_cons, List.lookup_cons, ih]
      split <;> rfl

/-- The members behind the first one, and the closing brace. -/
def moreIntegers : List (Bytes × Int) → Bytes
  | [] => [Ascii.rbrace]
  | (k, n) :: o => Ascii.comma :: escape k ++ Ascii.colon :: signed n ++ moreIntegers o

def integersText : List (Bytes × Int) → Bytes
  | [] => [Ascii.lbrace, Ascii.rbrace]
  | (k, n) :: o => Ascii.lbrace :: (escape k ++ Ascii.colon :: signed n ++ moreIntegers o)

theorem dumpMoreMembers_integers {o : List (Bytes × Int)} (h : ∀ p ∈ o, p.2.natAbs < 2 ^ 53) :
    dumpMoreMembers (integerMembers o) = moreIntegers o := by
  induction o with
  | nil => rw [integerMembers, List.map_nil, dumpMoreMembers, moreIntegers]
  | cons p o ih =>
      have hn := dumpNumber_exact (exact_of_small (h p List.mem_cons_self))
      have ho := ih fun q hq => h q (List.mem_cons_of_mem _ hq)
      rw [integerMembers] at ho
      rw [integerMembers, List.map_cons, dumpMoreMembers, Value.dump, hn, ho, moreIntegers]

/-- The text of an object of small integers reads as that object. -/
theorem parse_integers {o : List (Bytes × Int)} (hs : (o.map Prod.fst).Pairwise (· < ·))
    (h : ∀ p ∈ o, p.2.natAbs < 2 ^ 53) :
    parse (integersText o) = .ok (.object (integerMembers o)) := by
  have hw : Writable (.object (integerMembers o)) := by
    refine .object (List.pairwise_map.mpr (List.pairwise_map.mp hs)) fun q hq => ?_
    obtain ⟨p, hp, rfl⟩ := List.mem_map.mp hq
    exact .number (exact_of_small (h p hp)).readsBack
  have hdump : (Value.object (integerMembers o)).dump = integersText o := by
    cases o with
    | nil => rw [integerMembers, List.map_nil, Value.dump, dumpMembers, integersText]
    | cons p o =>
        have hn := dumpNumber_exact (exact_of_small (h p List.mem_cons_self))
        have ho := dumpMoreMembers_integers fun q hq => h q (List.mem_cons_of_mem _ hq)
        rw [integerMembers] at ho
        rw [integerMembers, List.map_cons, Value.dump, dumpMembers, Value.dump, hn, ho, integersText]
  rw [← hdump]
  exact parse_dump hw

end OpenBambu.Json
