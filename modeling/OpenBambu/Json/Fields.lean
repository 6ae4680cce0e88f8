import OpenBambu.Foundation.Text
import OpenBambu.Json.Rfc8259

/-!
# A field of a text and its value

A program may look for `"key":` in a text and put another string in place of the one that follows. In
a text that parses, and whose keys are written without escapes, such a place is a member with this key
(`Reads.set_field`), so that the text still parses, and to the same value but for that member.
-/

namespace OpenBambu.Json

open OpenBambu.Foundation

/-! ## Tokens -/

/-- A text is strings and the bytes between them. -/
inductive Token where
  | byte (b : Byte)
  | str (raw : Bytes)
  deriving DecidableEq, Repr

/-- With the part of an open string in front, and whether that ends in a backslash which takes the next
byte with it. -/
def tokensFrom : Option (Bytes × Bool) → Bytes → List Token
  | _, [] => []
  | none, c :: s =>
      if c = Ascii.quote then tokensFrom (some ([], false)) s else .byte c :: tokensFrom none s
  | some (raw, true), c :: s => tokensFrom (some (raw ++ [c], false)) s
  | some (raw, false), c :: s =>
      if c = Ascii.quote then .str raw :: tokensFrom none s
      else tokensFrom (some (raw ++ [c], c = Ascii.backslash)) s

def tokens (s : Bytes) : List Token := tokensFrom none s

def Token.isBlank : Token → Bool
  | .byte b => isWs b
  | .str _ => false

def colonNext (ts : List Token) : Bool := (ts.dropWhile Token.isBlank).head? = some (.byte Ascii.colon)

/-- The strings that a colon follows, as they are written. -/
def keysOf : List Token → List Bytes
  | [] => []
  | .byte _ :: ts => keysOf ts
  | .str raw :: ts => if colonNext ts then raw :: keysOf ts else keysOf ts

/-- No key is written with an escape. -/
def PlainKeys (s : Bytes) : Prop := ∀ raw ∈ keysOf (tokens s), Ascii.backslash ∉ raw

instance (s : Bytes) : Decidable (PlainKeys s) := inferInstanceAs (Decidable (∀ raw ∈ _, _))

/-- At the end of `x` no string is open. -/
def Outside (x : Bytes) : Prop := ∃ front, ∀ s, tokens (x ++ s) = front ++ tokens s

theorem tokens_byte {c : Byte} (hc : c ≠ Ascii.quote) (s : Bytes) :
    tokens (c :: s) = .byte c :: tokens s := by
  rw [tokens, tokensFrom, if_neg hc]
  rfl

/-- Inside a string, bytes that neither end it nor begin an escape. -/
theorem tokensFrom_plain {w : Bytes} (hw : ∀ c ∈ w, c ≠ Ascii.quote ∧ c ≠ Ascii.backslash)
    (raw s : Bytes) : tokensFrom (some (raw, false)) (w ++ s) = tokensFrom (some (raw ++ w, false)) s := by
  induction w generalizing raw with
  | nil => rw [List.nil_append, List.append_nil]
  | cons c w ih =>
      obtain ⟨hc, hw⟩ := List.forall_mem_cons.1 hw
      rw [List.cons_append, tokensFrom, if_neg hc.1, decide_eq_false hc.2, ih hw, List.append_assoc]
      rfl

theorem tokensFrom_escape (raw s : Bytes) (c : Byte) :
    tokensFrom (some (raw, false)) (Ascii.backslash :: c :: s) =
      tokensFrom (some (raw ++ [Ascii.backslash, c], false)) s := by
  rw [tokensFrom, if_neg (by decide), decide_eq_true rfl, tokensFrom, List.append_assoc]
  rfl

theorem hex4_plain {h0 h1 h2 h3 : Byte} {n : Nat} (h : hex4 h0 h1 h2 h3 = some n) :
    ∀ c ∈ [h0, h1, h2, h3], c ≠ Ascii.quote ∧ c ≠ Ascii.backslash := by
  have hplain : ∀ {c : Byte} {k : Nat}, hexVal c = some k → c ≠ Ascii.quote ∧ c ≠ Ascii.backslash := by
    intro c k hc
    constructor
    · rintro rfl
      rw [show hexVal Ascii.quote = none by decide] at hc
      cases hc
    · rintro rfl
      rw [show hexVal Ascii.backslash = none by decide] at hc
      cases hc
  simp only [hex4, Option.bind_eq_bind, Option.bind_eq_some_iff] at h
  obtain ⟨a, ha, b, hb, c, hc, d, hd, -⟩ := h
  simp only [List.forall_mem_cons]
  exact ⟨hplain ha, hplain hb, hplain hc, hplain hd, nofun⟩

theorem tokensFrom_chars {c str : Bytes} (h : Chars c str) (raw s : Bytes) :
    tokensFrom (some (raw, false)) (c ++ Ascii.quote :: s) = .str (raw ++ c) :: tokens s := by
  have hunit : ∀ {h0 h1 h2 h3 : Byte} {n : Nat} (raw t : Bytes), hex4 h0 h1 h2 h3 = some n →
      tokensFrom (some (raw, false)) (Ascii.backslash :: Ascii.letter 'u' :: h0 :: h1 :: h2 :: h3 :: t) =
        tokensFrom (some (raw ++ [Ascii.backslash, Ascii.letter 'u', h0, h1, h2, h3], false)) t := by
    intro h0 h1 h2 h3 n raw t hex
    rw [tokensFrom_escape]
    have hrun := tokensFrom_plain (hex4_plain hex) (raw ++ [Ascii.backslash, Ascii.letter 'u']) t
    rw [List.append_assoc] at hrun
    exact hrun
  induction h generalizing raw with
  | nil =>
      rw [List.nil_append, tokensFrom, if_pos rfl, List.append_nil]
      rfl
  | plain hq hb more ih =>
      rw [List.cons_append, tokensFrom, if_neg hq, decide_eq_false hb, ih, List.append_assoc]
      rfl
  | short letter more ih =>
      rw [List.cons_append, List.cons_append, tokensFrom_escape, ih, List.append_assoc]
      rfl
  | unit hex alone more ih =>
      simp only [List.cons_append]
      rw [hunit _ _ hex, ih, List.append_assoc]
      rfl
  | pair hex high hex' low more ih =>
      simp only [List.cons_append]
      rw [hunit _ _ hex, hunit _ _ hex', ih, List.append_assoc, List.append_assoc]
      rfl

theorem tokens_string {c str : Bytes} (h : Chars c str) (s : Bytes) :
    tokens (Ascii.quote :: (c ++ Ascii.quote :: s)) = .str c :: tokens s := by
  rw [tokens, tokensFrom, if_pos rfl, tokensFrom_chars h, List.nil_append]

theorem outside_nil : Outside [] := ⟨[], fun _ => rfl⟩

theorem Outside.append {x y : Bytes} (hx : Outside x) (hy : Outside y) : Outside (x ++ y) := by
  obtain ⟨front, hfront⟩ := hx
  obtain ⟨back, hback⟩ := hy
  refine ⟨front ++ back, ?_⟩
  intro s
  rw [List.append_assoc, hfront, hback, List.append_assoc]

theorem outside_plain {w : Bytes} (hw : ∀ c ∈ w, c ≠ Ascii.quote) : Outside w := by
  induction w with
  | nil => exact outside_nil
  | cons c w ih =>
      obtain ⟨hc, hw⟩ := List.forall_mem_cons.1 hw
      obtain ⟨front, hfront⟩ := ih hw
      refine ⟨.byte c :: front, ?_⟩
      intro s
      rw [List.cons_append, tokens_byte hc, hfront]
      rfl

theorem outside_byte {c : Byte} (hc : c ≠ Ascii.quote) : Outside [c] :=
  ⟨[.byte c], fun s => tokens_byte hc s⟩

theorem outside_string {c str : Bytes} (h : Chars c str) : Outside (Ascii.quote :: (c ++ [Ascii.quote])) := by
  refine ⟨[.str c], ?_⟩
  intro s
  rw [List.cons_append, List.append_assoc]
  exact tokens_string h s

/-- What is between braces and brackets is made of whole strings. -/
theorem Balanced.outside {c : Bytes} (h : Balanced c) : Outside c := by
  induction h with
  | nil => exact outside_nil
  | plain hb more ih => exact (outside_byte hb.1).append ih
  | @string c str d text more ih =>
      obtain ⟨raw, hraw, hchars⟩ := (text []).chars
      rw [List.append_nil] at hraw
      rw [hraw]
      exact (outside_string hchars).append ih
  | @braces c d inner more ih ih' =>
      have hopen : Outside [Ascii.lbrace] := outside_byte (by decide)
      have hclose : Outside [Ascii.rbrace] := outside_byte (by decide)
      have hall := ((hopen.append ih).append hclose).append ih'
      simpa using hall

theorem Closed.outside {mode : Mode} {c : Bytes} (h : Closed mode c) : Outside c := by
  cases mode with
  | value => exact Balanced.outside h
  | items a => exact Balanced.outside h
  | members o =>
      obtain ⟨d, rfl, hd⟩ := h
      exact hd.outside.append (outside_byte (by decide))

theorem outside_blank {w : Bytes} (hw : Blank w) : Outside w :=
  outside_plain fun c hc => (plain_of_isWs (hw c hc)).1

/-! ## Keys -/

theorem keysOf_behind (front ts : List Token) : ∀ raw ∈ keysOf ts, raw ∈ keysOf (front ++ ts) := by
  induction front with
  | nil => exact fun raw h => h
  | cons t front ih =>
      intro raw h
      cases t with
      | byte b => exact ih raw h
      | str c =>
          rw [List.cons_append, keysOf]
          split_ifs
          · exact List.mem_cons_of_mem c (ih raw h)
          · exact ih raw h

theorem PlainKeys.behind {x s : Bytes} (h : PlainKeys (x ++ s)) (hx : Outside x) : PlainKeys s := by
  obtain ⟨front, hfront⟩ := hx
  intro raw hraw
  apply h
  rw [hfront]
  exact keysOf_behind front (tokens s) raw hraw

theorem tokens_blank {w : Bytes} (hw : Blank w) (s : Bytes) :
    tokens (w ++ s) = w.map Token.byte ++ tokens s := by
  induction w with
  | nil => rfl
  | cons c w ih =>
      obtain ⟨hc, hw⟩ := List.forall_mem_cons.1 hw
      rw [List.cons_append, tokens_byte (plain_of_isWs hc).1, ih hw]
      rfl

/-- The key of a member, as it is written. -/
theorem PlainKeys.key {w c key z s : Bytes} (hw : Blank w) (hc : Chars c key) (hz : Blank z)
    (h : PlainKeys (w ++ Ascii.quote :: (c ++ Ascii.quote :: (z ++ Ascii.colon :: s)))) :
    Ascii.backslash ∉ c := by
  apply (h.behind (outside_blank hw)) c
  rw [tokens_string hc, keysOf, if_pos]
  · exact List.mem_cons_self
  · have hblank : ∀ t ∈ z.map Token.byte, t.isBlank = true := by
      intro t ht
      obtain ⟨b, hb, rfl⟩ := List.mem_map.1 ht
      exact hz b hb
    rw [colonNext, tokens_blank hz, List.dropWhile_append_of_pos hblank, tokens_byte (by decide)]
    rfl

/-- A string without escapes is written as it is. -/
theorem Chars.plain_eq {c str : Bytes} (h : Chars c str) (hc : Ascii.backslash ∉ c) :
    c = str ∧ ∀ b ∈ c, b ≠ Ascii.quote := by
  induction h with
  | nil => exact ⟨rfl, nofun⟩
  | plain hq hb more ih =>
      obtain ⟨rfl, hplain⟩ := ih fun hmem => hc (List.mem_cons_of_mem _ hmem)
      exact ⟨rfl, List.forall_mem_cons.2 ⟨hq, hplain⟩⟩
  | short letter more ih => exact absurd List.mem_cons_self hc
  | unit hex alone more ih => exact absurd List.mem_cons_self hc
  | pair hex high hex' low more ih => exact absurd List.mem_cons_self hc

/-! ## Values with some strings set -/

/-- Some members that hold one string hold another. -/
inductive StringsSet (sets : Bytes → Bytes → Bytes → Prop) : Value → Value → Prop
  | same (v : Value) : StringsSet sets v v
  | then {u v w : Value} (first : StringsSet sets u v) (next : StringsSet sets v w) : StringsSet sets u w
  | item {a b : List Value} {v w : Value} (one : StringsSet sets v w) :
      StringsSet sets (.array (a ++ v :: b)) (.array (a ++ w :: b))
  | member {a b : Object} {k : Bytes} {v w : Value} (one : StringsSet sets v w) :
      StringsSet sets (.object (a ++ (k, v) :: b)) (.object (a ++ (k, w) :: b))
  | here {a b : Object} {k m m' : Bytes} (set : sets k m m') :
      StringsSet sets (.object (a ++ (k, .string m) :: b)) (.object (a ++ (k, .string m') :: b))

section

variable {sets : Bytes → Bytes → Bytes → Prop}

/-- The member with this key before and behind. -/
def MemberSet (sets : Bytes → Bytes → Bytes → Prop) (p q : Bytes × Value) : Prop :=
  p.1 = q.1 ∧ (StringsSet sets p.2 q.2 ∨ ∃ m m', sets p.1 m m' ∧ p.2 = .string m ∧ q.2 = .string m')

theorem MemberSet.refl (p : Bytes × Value) : MemberSet sets p p := ⟨rfl, Or.inl (.same p.2)⟩

theorem stringsSet_object {o o' : Object} (h : List.Forall₂ (MemberSet sets) o o') (front : Object) :
    StringsSet sets (.object (front ++ o)) (.object (front ++ o')) := by
  induction h generalizing front with
  | nil => exact .same _
  | @cons p q o o' hpq _ ih =>
      obtain ⟨k, v⟩ := p
      obtain ⟨l, w⟩ := q
      obtain ⟨rfl, hset⟩ := hpq
      have hhead : StringsSet sets (.object (front ++ (k, v) :: o)) (.object (front ++ (k, w) :: o)) := by
        rcases hset with hset | ⟨m, m', hset, rfl, rfl⟩
        · exact .member hset
        · exact .here hset
      have htail := ih (front ++ [(k, w)])
      rw [List.append_assoc, List.append_assoc] at htail
      exact hhead.then htail

theorem stringsSet_array {a b : List Value} (h : List.Forall₂ (StringsSet sets) a b) (front : List Value) :
    StringsSet sets (.array (front ++ a)) (.array (front ++ b)) := by
  induction h generalizing front with
  | nil => exact .same _
  | @cons v w a b hvw _ ih =>
      have htail := ih (front ++ [w])
      rw [List.append_assoc, List.append_assoc] at htail
      exact (StringsSet.item hvw).then htail

theorem forall₂_emplace {o o' : Object} (h : List.Forall₂ (MemberSet sets) o o') {k : Bytes}
    {v w : Value} (hvw : MemberSet sets (k, v) (k, w)) :
    List.Forall₂ (MemberSet sets) (emplace o k v) (emplace o' k w) := by
  induction h with
  | nil => exact .cons hvw .nil
  | @cons p q o o' hpq hmore ih =>
      obtain ⟨l, u⟩ := p
      obtain ⟨l', u'⟩ := q
      obtain rfl : l = l' := hpq.1
      simp only [emplace]
      split_ifs
      · exact .cons hpq hmore
      · exact .cons hvw (.cons hpq hmore)
      · exact .cons hpq ih

/-- What a loop has read so far, with some strings set. -/
inductive ModeSet (sets : Bytes → Bytes → Bytes → Prop) : Mode → Mode → Prop
  | value : ModeSet sets .value .value
  | members {o o' : Object} (each : List.Forall₂ (MemberSet sets) o o') :
      ModeSet sets (.members o) (.members o')
  | items {a b : List Value} (each : List.Forall₂ (StringsSet sets) a b) :
      ModeSet sets (.items a) (.items b)

theorem forall₂_memberSet_refl (o : Object) : List.Forall₂ (MemberSet sets) o o :=
  List.forall₂_same.2 fun p _ => MemberSet.refl p

theorem forall₂_stringsSet_refl (a : List Value) : List.Forall₂ (StringsSet sets) a a :=
  List.forall₂_same.2 fun v _ => .same v

/-- The rest of a loop reads the same behind what was set. -/
theorem Reads.set_behind {mode mode' : Mode} {s rest : Bytes} {v : Value} (h : Reads mode s v rest)
    (hmode : ModeSet sets mode mode') : ∃ w, Reads mode' s w rest ∧ StringsSet sets v w := by
  induction h generalizing mode' with
  | string start text =>
      cases hmode
      exact ⟨_, .string start text, .same _⟩
  | emptyObject start stop =>
      cases hmode
      exact ⟨_, .emptyObject start stop, .same _⟩
  | object start nonempty inner _ =>
      cases hmode
      exact ⟨_, .object start nonempty inner, .same _⟩
  | emptyArray start stop =>
      cases hmode
      exact ⟨_, .emptyArray start stop, .same _⟩
  | array start nonempty inner _ =>
      cases hmode
      exact ⟨_, .array start nonempty inner, .same _⟩
  | scalar start hq hb hk text =>
      cases hmode
      exact ⟨_, .scalar start hq hb hk text, .same _⟩
  | member start text colon inner comma _ _ ih =>
      cases hmode with
      | members each =>
          obtain ⟨w, hw, hset⟩ := ih (.members (forall₂_emplace each (MemberSet.refl _)))
          exact ⟨w, .member start text colon inner comma hw, hset⟩
  | lastMember start text colon inner stop _ =>
      cases hmode with
      | members each =>
          refine ⟨_, .lastMember start text colon inner stop, ?_⟩
          exact stringsSet_object (forall₂_emplace each (MemberSet.refl _)) []
  | item inner comma _ _ ih =>
      cases hmode with
      | items each =>
          obtain ⟨w, hw, hset⟩ := ih (.items (List.rel_append each (forall₂_stringsSet_refl [_])))
          exact ⟨w, .item inner comma hw, hset⟩
  | lastItem inner stop _ =>
      cases hmode with
      | items each =>
          refine ⟨_, .lastItem inner stop, ?_⟩
          exact stringsSet_array (List.rel_append each (forall₂_stringsSet_refl [_])) []

end

/-! ## Where a field can be -/

/-- Bytes without a meaning of their own between the tokens. -/
def Word (w : Bytes) : Prop :=
  ∀ c ∈ w, isWs c = false ∧ c ≠ Ascii.quote ∧ c ≠ Ascii.backslash ∧ c ≠ Ascii.colon ∧ c ≠ Ascii.comma ∧
    c ≠ Ascii.rbrace ∧ c ≠ Ascii.rbracket

instance (w : Bytes) : Decidable (Word w) := inferInstanceAs (Decidable (∀ c ∈ w, _))

/-- `"key": "m"` in front of `r`. -/
def fieldText (key sp m r : Bytes) : Bytes :=
  Ascii.quote :: (key ++ Ascii.quote :: Ascii.colon :: (sp ++ Ascii.quote :: (m ++ Ascii.quote :: r)))

theorem Word.chars {w : Bytes} (h : Word w) : Chars w w := by
  induction w with
  | nil => exact .nil
  | cons c w ih =>
      obtain ⟨hc, hw⟩ := List.forall_mem_cons.1 h
      exact .plain hc.2.1 hc.2.2.1 (ih hw)

theorem length_fieldText (key sp m r : Bytes) : r.length + 4 ≤ (fieldText key sp m r).length := by
  simp only [fieldText, List.length_cons, List.length_append]
  omega

theorem blank_no_quote {w : Bytes} (hw : Blank w) : ∀ c ∈ w, c ≠ Ascii.quote :=
  fun c hc => (plain_of_isWs (hw c hc)).1

/-- A reading that ends behind a field has read a quote. -/
theorem quote_read {c rest x key sp m r : Bytes} (hc : ∀ b ∈ c, b ≠ Ascii.quote)
    (h : c ++ rest = x ++ fieldText key sp m r) : r.length < rest.length := by
  obtain ⟨y, -, hrest⟩ := front_of_sep hc h
  have hlen := congrArg List.length hrest
  have hfield := length_fieldText key sp m r
  rw [fieldText, List.length_cons] at hfield
  rw [List.length_append, List.length_cons] at hlen
  omega

/-- Inside a string every quote behind the first byte has a backslash in front. -/
def QuotesEscaped (c : Bytes) : Prop := ∀ a e b, c = a ++ e :: Ascii.quote :: b → e = Ascii.backslash

theorem Chars.head {c str : Bytes} (h : Chars c str) : c.head? ≠ some Ascii.quote := by
  cases h with
  | nil => exact nofun
  | plain hq hb more => exact fun he => hq (Option.some.inj he)
  | short letter more => exact fun he => absurd (Option.some.inj he) (by decide)
  | unit hex alone more => exact fun he => absurd (Option.some.inj he) (by decide)
  | pair hex high hex' low more => exact fun he => absurd (Option.some.inj he) (by decide)

theorem QuotesEscaped.behind {w s : Bytes} (hw : ∀ c ∈ w, c ≠ Ascii.quote) (hhead : s.head? ≠ some Ascii.quote)
    (h : QuotesEscaped s) : QuotesEscaped (w ++ s) := by
  induction w with
  | nil => exact h
  | cons d w ih =>
      obtain ⟨-, hw⟩ := List.forall_mem_cons.1 hw
      rintro (_ | ⟨d', a⟩) e b heq
      · have hnext : w ++ s = Ascii.quote :: b := (List.cons.inj heq).2
        cases w with
        | nil =>
            rw [List.nil_append] at hnext
            rw [hnext] at hhead
            exact absurd rfl hhead
        | cons c w => exact absurd (List.cons.inj hnext).1 (hw c List.mem_cons_self)
      · exact ih hw a e b (List.cons.inj heq).2

theorem Chars.quotesEscaped {c str : Bytes} (h : Chars c str) : QuotesEscaped c := by
  have hunit : ∀ {h0 h1 h2 h3 : Byte} {n : Nat}, hex4 h0 h1 h2 h3 = some n →
      ∀ c ∈ [Ascii.backslash, Ascii.letter 'u', h0, h1, h2, h3], c ≠ Ascii.quote := by
    intro h0 h1 h2 h3 n hex
    refine List.forall_mem_cons.2 ⟨by decide, List.forall_mem_cons.2 ⟨by decide, ?_⟩⟩
    exact fun c hc => (hex4_plain hex c hc).1
  induction h with
  | nil =>
      intro a e b heq
      exact absurd (congrArg List.length heq) (by simp)
  | @plain c s str hq hb more ih => exact QuotesEscaped.behind (w := [c]) (by simpa using hq) more.head ih
  | @short e' b' s str letter more ih =>
      rintro (_ | ⟨c, _ | ⟨d, a⟩⟩) e b heq
      · exact (List.cons.inj heq).1.symm
      · have hs := (List.cons.inj (List.cons.inj heq).2).2
        have hhead := more.head
        rw [hs] at hhead
        exact absurd rfl hhead
      · exact ih a e b (List.cons.inj (List.cons.inj heq).2).2
  | unit hex alone more ih => exact QuotesEscaped.behind (hunit hex) more.head ih
  | pair hex high hex' low more ih =>
      have hlow := QuotesEscaped.behind (hunit hex') more.head ih
      exact QuotesEscaped.behind (hunit hex) (by simp [Ascii.backslash, Ascii.quote]) hlow

/-- The second quote of a field is not inside a string. -/
theorem Chars.no_field {c str rest y key q : Bytes} (h : Chars c str) (hkey : Word key) (hne : key ≠ [])
    (heq : c ++ Ascii.quote :: rest = y ++ (key ++ Ascii.quote :: q)) : q.length ≤ rest.length := by
  obtain ⟨k, e, rfl⟩ : ∃ k e, key = k ++ [e] := ⟨key.dropLast, key.getLast hne,
    (List.dropLast_append_getLast hne).symm⟩
  have he : e ≠ Ascii.backslash := (hkey e (by simp)).2.2.1
  by_contra hlt
  have hsplit : c ++ Ascii.quote :: rest = (y ++ (k ++ [e, Ascii.quote])) ++ q := by
    rw [heq]
    simp
  have hno : ∀ z, c ≠ (y ++ (k ++ [e, Ascii.quote])) ++ z := by
    rintro z rfl
    exact he (h.quotesEscaped (y ++ k) e z (by simp))
  rcases List.append_eq_append_iff.1 hsplit with ⟨z, hc, hz⟩ | ⟨z, hc, -⟩
  · cases z with
    | nil => exact hno [] (by rw [hc, List.append_nil, List.append_nil])
    | cons d z =>
        have hlen := congrArg List.length hz
        rw [List.length_cons, List.length_append, List.length_cons] at hlen
        omega
  · exact hno z hc

/-- A string that ends behind a field does not begin in front of it. -/
theorem Chars.field_behind {c str rest y key sp m r : Bytes} (h : Chars c str) (hkey : Word key)
    (hne : key ≠ []) (heq : Ascii.quote :: (c ++ Ascii.quote :: rest) = y ++ fieldText key sp m r) :
    r.length < rest.length := by
  have hlen : r.length < (Ascii.colon :: (sp ++ Ascii.quote :: (m ++ Ascii.quote :: r))).length := by
    simp only [List.length_cons, List.length_append]
    omega
  cases y with
  | nil => exact hlen.trans_le (h.no_field (y := []) hkey hne (List.cons.inj heq).2)
  | cons q y =>
      have hbehind : c ++ Ascii.quote :: rest = (y ++ [Ascii.quote]) ++ (key ++ Ascii.quote :: Ascii.colon ::
          (sp ++ Ascii.quote :: (m ++ Ascii.quote :: r))) := by
        rw [(List.cons.inj heq).2, fieldText, List.append_assoc]
        rfl
      exact hlen.trans_le (h.no_field hkey hne hbehind)

/-! ### Between the values -/

theorem head_behind_quote {y r t : Bytes} {d : Byte} (h : skipWs (y ++ Ascii.quote :: r) = d :: t) :
    d = Ascii.quote ∨ d ∈ y := by
  induction y with
  | nil => exact Or.inl (List.cons.inj h).1.symm
  | cons c y ih =>
      rw [List.cons_append, skipWs, List.dropWhile_cons] at h
      split_ifs at h
      · exact (ih h).imp_right (List.mem_cons_of_mem c)
      · rw [(List.cons.inj h).1]
        exact Or.inr List.mem_cons_self

/-- What may stand behind a value and the white space there. -/
def closers : List Byte := [Ascii.comma, Ascii.rbrace, Ascii.rbracket]

/-- A value ends in front of a field or behind it. -/
theorem field_apart {c rest x key sp m r t : Bytes} {d : Byte} (hkey : Word key) (hsp : Blank sp)
    (hm : Word m) (hd : d ∈ closers) (hnext : skipWs rest = d :: t)
    (h : c ++ rest = x ++ fieldText key sp m r) :
    (∃ y, x = c ++ y ∧ rest = y ++ fieldText key sp m r) ∨ rest.length ≤ r.length := by
  have hcloser : ∀ b ∈ closers, b ≠ Ascii.quote ∧ b ≠ Ascii.colon ∧ isWs b = false := by decide +kernel
  obtain ⟨hquote, hcolon, hws⟩ := hcloser d hd
  have hword : ∀ {w : Bytes}, Word w → d ∉ w := by
    intro w hw hmem
    obtain ⟨-, -, -, -, hcomma, hbrace, hbracket⟩ := hw d hmem
    rcases List.mem_cons.1 hd with rfl | hd
    · exact hcomma rfl
    rcases List.mem_cons.1 hd with rfl | hd
    · exact hbrace rfl
    · exact hbracket (List.mem_singleton.1 hd)
  have hblank : d ∉ sp := by
    intro hmem
    have hb := hsp d hmem
    rw [hws] at hb
    cases hb
  have hfield : d ∉ Ascii.quote :: (key ++ Ascii.quote :: Ascii.colon :: (sp ++ Ascii.quote :: m)) := by
    simp only [List.mem_cons, List.mem_append, not_or]
    exact ⟨hquote, hword hkey, hquote, hcolon, hblank, hquote, hword hm⟩
  have hinside : ∀ y, rest = y ++ Ascii.quote :: r →
      y <:+ Ascii.quote :: (key ++ Ascii.quote :: Ascii.colon :: (sp ++ Ascii.quote :: m)) → False := by
    intro y hy hsuffix
    rw [hy] at hnext
    rcases head_behind_quote hnext with he | hmem
    · exact hquote he
    · exact hfield (hsuffix.subset hmem)
  have hsplit : c ++ rest = (x ++ Ascii.quote :: (key ++ Ascii.quote :: Ascii.colon ::
      (sp ++ Ascii.quote :: m))) ++ Ascii.quote :: r := by
    rw [h, fieldText]
    simp
  rcases List.append_eq_append_iff.1 hsplit with ⟨y, hx, hrest⟩ | ⟨y, -, hy⟩
  · rcases List.append_eq_append_iff.1 hx with ⟨z, hc, hz⟩ | ⟨z, hz, hy⟩
    · exact (hinside y hrest ⟨z, hz.symm⟩).elim
    · refine Or.inl ⟨z, hz, ?_⟩
      rw [hrest, hy, fieldText]
      simp
  · cases y with
    | nil => exact (hinside [] hy.symm (List.nil_suffix)).elim
    | cons b y =>
        right
        have hlen := congrArg List.length hy
        rw [List.length_cons, List.length_append, List.length_cons] at hlen
        omega

/-- A reading ends behind a field only if it has read one. -/
theorem field_read {rest t x key sp m r : Bytes} {d : Byte} (hd : d ≠ Ascii.quote)
    (hnext : skipWs rest = d :: t) (h : rest = x ++ fieldText key sp m r) :
    ∃ b y, rest = b ++ d :: t ∧ Blank b ∧ x = b ++ d :: y ∧ t = y ++ fieldText key sp m r := by
  obtain ⟨b, hb, hblank, -⟩ := skipWs_cons hnext
  have hquotes : ∀ c ∈ b ++ [d], c ≠ Ascii.quote := by
    intro c hc
    rcases List.mem_append.1 hc with hc | hc
    · exact blank_no_quote hblank c hc
    · rw [List.mem_singleton.1 hc]
      exact hd
  have hsplit : (b ++ [d]) ++ t = x ++ fieldText key sp m r := by
    rw [← h, hb, List.append_assoc]
    rfl
  obtain ⟨y, hx, ht⟩ := front_of_sep hquotes hsplit
  refine ⟨b, y, hb, hblank, ?_, ht⟩
  rw [hx, List.append_assoc]
  rfl

/-! ### Keys and what follows them -/

/-- White space, a key, and white space up to its colon. -/
structure KeyText (w c key z : Bytes) : Prop where
  before : Blank w
  chars : Chars c key
  between : Blank z

def memberText (w c z t : Bytes) : Bytes :=
  w ++ Ascii.quote :: (c ++ Ascii.quote :: (z ++ Ascii.colon :: t))

theorem member_text {s t name u r : Bytes} (start : skipWs s = Ascii.quote :: t)
    (text : ReadsString t name u) (colon : skipWs u = Ascii.colon :: r) :
    ∃ w c z, s = memberText w c z r ∧ KeyText w c name z := by
  obtain ⟨w, rfl, hw, -⟩ := skipWs_cons start
  obtain ⟨c, rfl, hc⟩ := text.chars
  obtain ⟨z, rfl, hz, -⟩ := skipWs_cons colon
  exact ⟨w, c, z, rfl, hw, hc, hz⟩

theorem memberText_append (w c z y t : Bytes) : memberText w c z (y ++ t) = memberText w c z y ++ t := by
  simp [memberText]

section

variable {w c name z : Bytes} (h : KeyText w c name z)

include h

theorem KeyText.member {o : Object} {t u r rest : Bytes} {v x : Value} (inner : Reads .value t v u)
    (comma : skipWs u = Ascii.comma :: r) (more : Reads (.members (emplace o name v)) r x rest) :
    Reads (.members o) (memberText w c z t) x rest :=
  .member (skipWs_blank h.before (by decide) _) (h.chars.reads _)
    (skipWs_blank h.between (by decide) _) inner comma more

theorem KeyText.lastMember {o : Object} {t u rest : Bytes} {v : Value} (inner : Reads .value t v u)
    (stop : skipWs u = Ascii.rbrace :: rest) :
    Reads (.members o) (memberText w c z t) (.object (emplace o name v)) rest :=
  .lastMember (skipWs_blank h.before (by decide) _) (h.chars.reads _)
    (skipWs_blank h.between (by decide) _) inner stop

theorem KeyText.outside {y : Bytes} (hy : Outside y) : Outside (memberText w c z y) := by
  have hcolon : Outside [Ascii.colon] := outside_byte (by decide)
  have hall := (((outside_blank h.before).append (outside_string h.chars)).append
    (outside_blank h.between)).append (hcolon.append hy)
  simpa [memberText] using hall

theorem KeyText.plain {t : Bytes} (hplain : PlainKeys (memberText w c z t)) :
    c = name ∧ ∀ b ∈ c, b ≠ Ascii.quote :=
  h.chars.plain_eq (hplain.key h.before h.chars h.between)

/-- A field at a member is the member, or lies behind its colon. -/
theorem KeyText.split {t x key sp m r : Bytes} (hc : ∀ b ∈ c, b ≠ Ascii.quote) (hkey : Word key)
    (hne : key ≠ []) (heq : memberText w c z t = x ++ fieldText key sp m r) :
    (x = w ∧ c = key ∧ z = [] ∧ t = sp ++ Ascii.quote :: (m ++ Ascii.quote :: r)) ∨
      ∃ y, x = memberText w c z y ∧ t = y ++ fieldText key sp m r := by
  obtain ⟨y, rfl, hy⟩ := front_of_sep (blank_no_quote h.before) heq
  cases y with
  | nil =>
      left
      obtain ⟨a, hka, hrest⟩ := front_of_sep hc (List.cons.inj hy).2
      cases a with
      | cons q a =>
          obtain rfl : Ascii.quote = q := (List.cons.inj hrest).1
          exact absurd rfl (hkey Ascii.quote (by rw [hka]; simp)).2.1
      | nil =>
          rw [List.append_nil] at hka
          have hcolon := (List.cons.inj hrest).2
          cases z with
          | nil => exact ⟨List.append_nil w, hka.symm, rfl, (List.cons.inj hcolon).2⟩
          | cons b z =>
              have hb := h.between b List.mem_cons_self
              rw [(List.cons.inj hcolon).1] at hb
              exact absurd hb (by decide)
  | cons q y =>
      right
      obtain ⟨rfl, hstring⟩ := List.cons.inj hy
      obtain ⟨a, rfl, hrest⟩ := front_of_sep hc hstring
      cases a with
      | nil =>
          obtain ⟨k, key, rfl⟩ := List.exists_cons_of_ne_nil hne
          have hk := hkey k List.mem_cons_self
          have hhead := (List.cons.inj hrest).2
          cases z with
          | nil => exact absurd (List.cons.inj hhead).1.symm hk.2.2.2.1
          | cons b z =>
              have hb := h.between b List.mem_cons_self
              rw [(List.cons.inj hhead).1, hk.1] at hb
              cases hb
      | cons q a =>
          obtain ⟨rfl, hbehind⟩ := List.cons.inj hrest
          have hquotes : ∀ b ∈ z ++ [Ascii.colon], b ≠ Ascii.quote := by
            intro b hb
            rcases List.mem_append.1 hb with hb | hb
            · exact blank_no_quote h.between b hb
            · rw [List.mem_singleton.1 hb]
              decide
          have hsplit : (z ++ [Ascii.colon]) ++ t = a ++ fieldText key sp m r := by
            rw [List.append_assoc]
            exact hbehind
          obtain ⟨y, rfl, ht⟩ := front_of_sep hquotes hsplit
          exact ⟨y, by simp [memberText], ht⟩

end

/-! ### Setting a field -/

theorem reads_object_of {w z s rest : Bytes} {v : Value} (hw : Blank w) (hz : Blank z)
    (h : Reads (.members []) s v rest) : Reads .value (w ++ Ascii.lbrace :: (z ++ s)) v rest := by
  obtain ⟨t, ht⟩ := h.members_quote
  refine .object (skipWs_blank hw (by decide) _) ?_ ?_
  · rw [skipWs_append hz, ht]
    exact fun he => absurd (Option.some.inj he) (by decide)
  · rw [skipWs_append hz]
    exact h.members_behind (skipWs_skipWs s)

theorem reads_array_of {w z s rest : Bytes} {v : Value} (hw : Blank w) (hz : Blank z)
    (h : Reads (.items []) s v rest) : Reads .value (w ++ Ascii.lbracket :: (z ++ s)) v rest := by
  refine .array (skipWs_blank hw (by decide) _) ?_ ?_
  · rw [skipWs_append hz]
    cases h with
    | item inner => exact inner.value_head
    | lastItem inner => exact inner.value_head
  · rw [skipWs_append hz]
    exact h.items_behind (skipWs_skipWs s)

section

variable {sets : Bytes → Bytes → Bytes → Prop} {key sp m r : Bytes}

/-- The text with the field set in it reads the same but for the field. -/
def SetsField (sets : Bytes → Bytes → Bytes → Prop) (key sp m r : Bytes) (mode : Mode) (x : Bytes)
    (v : Value) (rest : Bytes) : Prop :=
  Outside x ∧ ∀ m', Word m' → sets key m m' →
    ∃ w, Reads mode (x ++ fieldText key sp m' r) w rest ∧ StringsSet sets v w

theorem reads_word (hsp : Blank sp) (hm : Word m) :
    Reads .value (sp ++ Ascii.quote :: (m ++ Ascii.quote :: r)) (.string m) r :=
  .string (skipWs_blank hsp (by decide) _) (hm.chars.reads r)

/-- A value and what closes it, in front of a field. -/
structure ValueBefore (key sp m r : Bytes) (d : Byte) (y : Bytes) (v : Value) (t : Bytes)
    (c b y' : Bytes) : Prop where
  text : y = c ++ (b ++ d :: y')
  outside : Outside (c ++ (b ++ [d]))
  blank : Blank b
  closer : isWs d = false
  behind : t = y' ++ fieldText key sp m r
  reads : ∀ tail, Reads .value (c ++ (b ++ d :: tail)) v (b ++ d :: tail)

section

variable {y t c b y' : Bytes} {v : Value} {d : Byte} (h : ValueBefore key sp m r d y v t c b y')

include h

theorem ValueBefore.text_append (u : Bytes) : y ++ u = c ++ (b ++ d :: (y' ++ u)) := by
  rw [h.text]
  simp

theorem ValueBefore.outside_append (hy' : Outside y') : Outside y := by
  have hall := h.outside.append hy'
  rw [h.text]
  simpa using hall

theorem ValueBefore.plain (hplain : PlainKeys (y ++ fieldText key sp m r)) : PlainKeys t := by
  have hsplit : y ++ fieldText key sp m r = (c ++ (b ++ [d])) ++ t := by
    rw [h.text_append, h.behind]
    simp
  rw [hsplit] at hplain
  exact hplain.behind h.outside

theorem ValueBefore.next (u : Bytes) : skipWs (b ++ d :: u) = d :: u :=
  skipWs_blank h.blank h.closer u

end

theorem Reads.value_before (hkey : Word key) (hsp : Blank sp) (hm : Word m) {y u t : Bytes} {v : Value}
    {d : Byte} (h : Reads .value (y ++ fieldText key sp m r) v u) (hd : d ∈ closers)
    (hnext : skipWs u = d :: t) :
    (∃ c b y', ValueBefore key sp m r d y v t c b y') ∨ u.length ≤ r.length := by
  obtain ⟨c, hc, hclosed, hlocal⟩ := h.text
  rcases field_apart hkey hsp hm hd hnext hc.symm with ⟨y', hy, hu⟩ | hlen
  · left
    have hcloser : ∀ e ∈ closers, e ≠ Ascii.quote ∧ isWs e = false := by decide +kernel
    obtain ⟨hquote, hws⟩ := hcloser d hd
    obtain ⟨b, y₂, hb, hblank, rfl, ht⟩ := field_read hquote hnext hu
    have hout : Outside (c ++ (b ++ [d])) :=
      Outside.append hclosed.outside ((outside_blank hblank).append (outside_byte hquote))
    refine ⟨c, b, y₂, hy, hout, hblank, hws, ht, ?_⟩
    intro tail
    apply hlocal
    intro _ _
    rw [hb]
    cases b <;> rfl
  · exact Or.inr hlen

/-- Behind the opening bracket of an object or array. -/
theorem field_opened {w z u x : Bytes} {b : Byte} (hw : Blank w) (hz : Blank z) (hb : b ≠ Ascii.quote)
    (h : w ++ b :: (z ++ u) = x ++ fieldText key sp m r) (hplain : PlainKeys (w ++ b :: (z ++ u))) :
    ∃ y, x = w ++ b :: (z ++ y) ∧ u = y ++ fieldText key sp m r ∧ PlainKeys u ∧
      (Outside y → Outside (w ++ b :: (z ++ y))) := by
  have hout : Outside (w ++ b :: z) :=
    (outside_blank hw).append (Outside.append (x := [b]) (outside_byte hb) (outside_blank hz))
  have hquotes : ∀ c ∈ w ++ b :: z, c ≠ Ascii.quote := by
    intro c hc
    rcases List.mem_append.1 hc with hc | hc
    · exact blank_no_quote hw c hc
    rcases List.mem_cons.1 hc with rfl | hc
    · exact hb
    · exact blank_no_quote hz c hc
  have hsplit : ∀ v : Bytes, w ++ b :: (z ++ v) = (w ++ b :: z) ++ v := by
    intro v
    rw [List.append_assoc]
    rfl
  rw [hsplit] at h hplain
  obtain ⟨y, rfl, hu⟩ := front_of_sep hquotes h
  refine ⟨y, (hsplit y).symm, hu, hplain.behind hout, ?_⟩
  intro hy
  rw [hsplit]
  exact hout.append hy

/-- In a text with plain keys a field is a member. -/
theorem Reads.set_field (hkey : Word key) (hne : key ≠ []) (hsp : Blank sp) (hm : Word m) {mode : Mode}
    {s rest : Bytes} {v : Value} (h : Reads mode s v rest) {x : Bytes} (hs : s = x ++ fieldText key sp m r)
    (hrest : rest.length ≤ r.length) (hplain : PlainKeys s) : SetsField sets key sp m r mode x v rest := by
  induction h generalizing x with
  | @string s t str rest start text =>
      obtain ⟨w, rfl, hw, -⟩ := skipWs_cons start
      obtain ⟨c, rfl, hc⟩ := text.chars
      obtain ⟨y, -, hy⟩ := front_of_sep (blank_no_quote hw) hs
      exact absurd hrest (Nat.not_le.2 (hc.field_behind hkey hne hy))
  | @emptyObject s t rest start stop =>
      obtain ⟨w, rfl, hw, -⟩ := skipWs_cons start
      obtain ⟨z, rfl, hz, -⟩ := skipWs_cons stop
      obtain ⟨y, -, hu, -⟩ := field_opened hw hz (by decide) hs hplain
      exact absurd hrest (Nat.not_le.2 (quote_read (List.forall_mem_singleton.2 (by decide)) hu))
  | @object s t rest v start nonempty inner ih =>
      obtain ⟨w, rfl, hw, -⟩ := skipWs_cons start
      obtain ⟨z, ht, hz⟩ := ws_append_skipWs t
      rw [ht] at hs hplain
      obtain ⟨y, rfl, hu, hinner, hout⟩ := field_opened hw hz (by decide) hs hplain
      obtain ⟨hy, hset'⟩ := ih hu hrest hinner
      refine ⟨hout hy, ?_⟩
      intro m' hm' hset
      obtain ⟨v', hread, hv'⟩ := hset' m' hm' hset
      refine ⟨v', ?_, hv'⟩
      have hobject := reads_object_of hw hz hread
      simpa using hobject
  | @emptyArray s t rest start stop =>
      obtain ⟨w, rfl, hw, -⟩ := skipWs_cons start
      obtain ⟨z, rfl, hz, -⟩ := skipWs_cons stop
      obtain ⟨y, -, hu, -⟩ := field_opened hw hz (by decide) hs hplain
      exact absurd hrest (Nat.not_le.2 (quote_read (List.forall_mem_singleton.2 (by decide)) hu))
  | @array s t rest v start nonempty inner ih =>
      obtain ⟨w, rfl, hw, -⟩ := skipWs_cons start
      obtain ⟨z, ht, hz⟩ := ws_append_skipWs t
      rw [ht] at hs hplain
      obtain ⟨y, rfl, hu, hinner, hout⟩ := field_opened hw hz (by decide) hs hplain
      obtain ⟨hy, hset'⟩ := ih hu hrest hinner
      refine ⟨hout hy, ?_⟩
      intro m' hm' hset
      obtain ⟨v', hread, hv'⟩ := hset' m' hm' hset
      refine ⟨v', ?_, hv'⟩
      have harray := reads_array_of hw hz hread
      simpa using harray
  | @scalar s t rest c v start hq hb hk text =>
      obtain ⟨w, rfl, hw, -⟩ := skipWs_cons start
      obtain ⟨a, -, ha, hplain', -⟩ := parseScalar_ok text
      rw [ha, ← List.append_assoc] at hs
      refine absurd hrest (Nat.not_le.2 (quote_read ?_ hs))
      intro b hb
      rcases List.mem_append.1 hb with hb | hb
      · exact blank_no_quote hw b hb
      · exact (hplain' b hb).1
  | @member o s t name u r₁ r₂ r₃ rest v x' start text colon inner comma more ih ih' =>
      obtain ⟨w, c, z, rfl, hk⟩ := member_text start text colon
      obtain ⟨rfl, hc⟩ := hk.plain hplain
      have hinner : PlainKeys r₁ := by
        rw [← List.nil_append r₁, memberText_append] at hplain
        exact hplain.behind (hk.outside outside_nil)
      rcases hk.split hc hkey hne hs with ⟨rfl, rfl, rfl, rfl⟩ | ⟨y, rfl, rfl⟩
      · obtain ⟨rfl, rfl⟩ := inner.unique (reads_word hsp hm)
        refine ⟨outside_blank hk.before, ?_⟩
        intro m' hm' hset
        have hmember : MemberSet sets (c, .string m) (c, .string m') := ⟨rfl, Or.inr ⟨m, m', hset, rfl, rfl⟩⟩
        obtain ⟨x₁, hread, hx₁⟩ := more.set_behind
          (.members (forall₂_emplace (forall₂_memberSet_refl o) hmember))
        exact ⟨x₁, hk.member (reads_word hsp hm') comma hread, hx₁⟩
      · rcases inner.value_before hkey hsp hm (by decide +kernel) comma with ⟨c₁, b, y', hbefore⟩ | hlen
        · obtain ⟨hy', hset'⟩ := ih' hbefore.behind hrest (hbefore.plain hinner)
          refine ⟨hk.outside (hbefore.outside_append hy'), ?_⟩
          intro m' hm' hset
          obtain ⟨x₁, hread, hx₁⟩ := hset' m' hm' hset
          refine ⟨x₁, ?_, hx₁⟩
          rw [← memberText_append, hbefore.text_append]
          exact hk.member (hbefore.reads _) (hbefore.next _) hread
        · obtain ⟨hy, hset'⟩ := ih rfl hlen hinner
          refine ⟨hk.outside hy, ?_⟩
          intro m' hm' hset
          obtain ⟨v', hread, hv'⟩ := hset' m' hm' hset
          have hmember : MemberSet sets (c, v) (c, v') := ⟨rfl, Or.inl hv'⟩
          obtain ⟨x₁, hmore, hx₁⟩ := more.set_behind
            (.members (forall₂_emplace (forall₂_memberSet_refl o) hmember))
          refine ⟨x₁, ?_, hx₁⟩
          rw [← memberText_append]
          exact hk.member hread comma hmore
  | @lastMember o s t name u r₁ r₂ rest v start text colon inner stop ih =>
      obtain ⟨w, c, z, rfl, hk⟩ := member_text start text colon
      obtain ⟨rfl, hc⟩ := hk.plain hplain
      have hinner : PlainKeys r₁ := by
        rw [← List.nil_append r₁, memberText_append] at hplain
        exact hplain.behind (hk.outside outside_nil)
      rcases hk.split hc hkey hne hs with ⟨rfl, rfl, rfl, rfl⟩ | ⟨y, rfl, rfl⟩
      · obtain ⟨rfl, rfl⟩ := inner.unique (reads_word hsp hm)
        refine ⟨outside_blank hk.before, ?_⟩
        intro m' hm' hset
        have hmember : MemberSet sets (c, .string m) (c, .string m') := ⟨rfl, Or.inr ⟨m, m', hset, rfl, rfl⟩⟩
        refine ⟨_, hk.lastMember (reads_word hsp hm') stop, ?_⟩
        exact stringsSet_object (forall₂_emplace (forall₂_memberSet_refl o) hmember) []
      · rcases inner.value_before hkey hsp hm (by decide +kernel) stop with ⟨c₁, b, y', hbefore⟩ | hlen
        · have hlen := congrArg List.length hbefore.behind
          have hfield := length_fieldText key sp m r
          rw [List.length_append] at hlen
          omega
        · obtain ⟨hy, hset'⟩ := ih rfl hlen hinner
          refine ⟨hk.outside hy, ?_⟩
          intro m' hm' hset
          obtain ⟨v', hread, hv'⟩ := hset' m' hm' hset
          have hmember : MemberSet sets (c, v) (c, v') := ⟨rfl, Or.inl hv'⟩
          refine ⟨_, ?_, stringsSet_object (forall₂_emplace (forall₂_memberSet_refl o) hmember) []⟩
          rw [← memberText_append]
          exact hk.lastMember hread stop
  | @item a s r₁ r₂ rest v x' inner comma more ih ih' =>
      subst hs
      rcases inner.value_before hkey hsp hm (by decide +kernel) comma with ⟨c₁, b, y', hbefore⟩ | hlen
      · obtain ⟨hy', hset'⟩ := ih' hbefore.behind hrest (hbefore.plain hplain)
        refine ⟨hbefore.outside_append hy', ?_⟩
        intro m' hm' hset
        obtain ⟨x₁, hread, hx₁⟩ := hset' m' hm' hset
        refine ⟨x₁, ?_, hx₁⟩
        rw [hbefore.text_append]
        exact .item (hbefore.reads _) (hbefore.next _) hread
      · obtain ⟨hx, hset'⟩ := ih rfl hlen hplain
        refine ⟨hx, ?_⟩
        intro m' hm' hset
        obtain ⟨v', hread, hv'⟩ := hset' m' hm' hset
        obtain ⟨x₁, hmore, hx₁⟩ := more.set_behind
          (.items (List.rel_append (forall₂_stringsSet_refl a) (.cons hv' .nil)))
        exact ⟨x₁, .item hread comma hmore, hx₁⟩
  | @lastItem a s r₁ rest v inner stop ih =>
      subst hs
      rcases inner.value_before hkey hsp hm (by decide +kernel) stop with ⟨c₁, b, y', hbefore⟩ | hlen
      · have hlen := congrArg List.length hbefore.behind
        have hfield := length_fieldText key sp m r
        rw [List.length_append] at hlen
        omega
      · obtain ⟨hx, hset'⟩ := ih rfl hlen hplain
        refine ⟨hx, ?_⟩
        intro m' hm' hset
        obtain ⟨v', hread, hv'⟩ := hset' m' hm' hset
        refine ⟨_, .lastItem hread stop, ?_⟩
        exact stringsSet_array (List.rel_append (forall₂_stringsSet_refl a) (.cons hv' .nil)) []

/-- In a text that parses and has plain keys a field is a member, and the text with another string there
parses to the value with that member set. -/
theorem parse_set_field (hkey : Word key) (hne : key ≠ []) (hsp : Blank sp) (hm : Word m) {x : Bytes}
    {v : Value} (h : parse (x ++ fieldText key sp m r) = .ok v)
    (hplain : PlainKeys (x ++ fieldText key sp m r)) :
    Outside x ∧ ∀ m', Word m' → sets key m m' →
      ∃ w, parse (x ++ fieldText key sp m' r) = .ok w ∧ StringsSet sets v w := by
  obtain ⟨rest, hread, hend⟩ := parse_ok_iff.1 h
  have hblank : ∀ c ∈ rest, c ≠ Ascii.quote := blank_no_quote (List.dropWhile_eq_nil_iff.1 hend)
  have hread := hread.value_behind (skipWs_skipWs _).symm
  have hrest : rest.length ≤ r.length := by
    obtain ⟨c, hc, -⟩ := hread.text
    have hfield : Ascii.quote :: r <:+ x ++ fieldText key sp m r := by
      refine ⟨x ++ Ascii.quote :: (key ++ Ascii.quote :: Ascii.colon :: (sp ++ Ascii.quote :: m)), ?_⟩
      simp [fieldText]
    rcases List.suffix_or_suffix_of_suffix ⟨c, hc.symm⟩ hfield with hsuffix | hsuffix
    · rcases List.suffix_cons_iff.1 hsuffix with rfl | hsuffix
      · exact absurd rfl (hblank Ascii.quote List.mem_cons_self)
      · exact hsuffix.length_le
    · exact absurd rfl (hblank Ascii.quote (hsuffix.subset List.mem_cons_self))
  obtain ⟨hx, hset'⟩ := hread.set_field hkey hne hsp hm rfl hrest hplain
  refine ⟨hx, ?_⟩
  intro m' hm' hset
  obtain ⟨w, hread', hw⟩ := hset' m' hm' hset
  exact ⟨w, parse_ok_iff.2 ⟨rest, hread'.value_behind (skipWs_skipWs _), hend⟩, hw⟩

/-! ### The keys of the text with the field set -/

theorem colonNext_str (front back : List Token) (a b : Bytes) :
    colonNext (front ++ .str a :: back) = colonNext (front ++ .str b :: back) := by
  induction front with
  | nil => rfl
  | cons t front ih =>
      unfold colonNext at ih ⊢
      rw [List.cons_append, List.cons_append, List.dropWhile_cons, List.dropWhile_cons]
      split_ifs
      · exact ih
      · rfl

theorem keysOf_str (front back : List Token) (a b : Bytes) :
    ∀ raw ∈ keysOf (front ++ .str b :: back), raw ∈ keysOf (front ++ .str a :: back) ∨ raw = b := by
  induction front with
  | nil =>
      intro raw h
      simp only [List.nil_append, keysOf] at h ⊢
      split_ifs at h ⊢
      · rcases List.mem_cons.1 h with rfl | h
        · exact Or.inr rfl
        · exact Or.inl (List.mem_cons_of_mem a h)
      · exact Or.inl h
  | cons t front ih =>
      intro raw h
      cases t with
      | byte c => exact ih raw h
      | str c =>
          rw [List.cons_append, keysOf, colonNext_str front back b a] at h
          rw [List.cons_append, keysOf]
          split_ifs at h ⊢
          · rcases List.mem_cons.1 h with rfl | h
            · exact Or.inl List.mem_cons_self
            · exact (ih raw h).imp_left (List.mem_cons_of_mem c)
          · exact ih raw h

theorem tokens_field (hkey : Word key) (hsp : Blank sp) (hm : Word m) :
    tokens (fieldText key sp m r) =
      .str key :: .byte Ascii.colon :: (sp.map Token.byte ++ .str m :: tokens r) := by
  rw [fieldText, tokens_string hkey.chars, tokens_byte (by decide), tokens_blank hsp, tokens_string hm.chars]

theorem PlainKeys.set_field {x m' : Bytes} (h : PlainKeys (x ++ fieldText key sp m r)) (hx : Outside x)
    (hkey : Word key) (hsp : Blank sp) (hm : Word m) (hm' : Word m') :
    PlainKeys (x ++ fieldText key sp m' r) := by
  obtain ⟨front, hfront⟩ := hx
  have hall : ∀ m, Word m → tokens (x ++ fieldText key sp m r) =
      (front ++ .str key :: .byte Ascii.colon :: sp.map Token.byte) ++ .str m :: tokens r := by
    intro m hm
    rw [hfront, tokens_field hkey hsp hm]
    simp
  intro raw hraw
  rw [hall m' hm'] at hraw
  rcases keysOf_str _ _ m m' raw hraw with hraw | rfl
  · rw [← hall m hm] at hraw
    exact h raw hraw
  · exact fun hmem => (hm' Ascii.backslash hmem).2.2.1 rfl

end

end OpenBambu.Json
