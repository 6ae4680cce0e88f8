import OpenBambu.Json.Numeral

/-!
# The JSON grammar

`JsonText text tree` is the grammar of RFC 8259 with the tolerances of `json_lite`: a string may
hold control characters and bytes that are no UTF-8, a surrogate may stand alone, and keys may
repeat. A `Tree` keeps numbers as texts; a number may have any form the scanner cuts out, so that
`Tree.value` can be asked both for what the texts denote (`Numeral.denoted`) and for what
`std::stod` makes of them (`Numeral.stod`). A text has at most one tree (`JsonText.unique`).
-/

namespace OpenBambu.Json

open OpenBambu.Foundation

inductive Tree where
  | null
  | bool (b : Bool)
  | number (n : Numeral)
  | string (s : Bytes)
  | array (a : List Tree)
  | object (o : List (Bytes × Tree))

/-! ## What a tree denotes -/

mutual

def Tree.numerals : Tree → List Numeral
  | .number n => [n]
  | .array a => itemNumerals a
  | .object o => memberNumerals o
  | _ => []

def itemNumerals : List Tree → List Numeral
  | [] => []
  | t :: ts => t.numerals ++ itemNumerals ts

def memberNumerals : List (Bytes × Tree) → List Numeral
  | [] => []
  | (_, t) :: o => t.numerals ++ memberNumerals o

end

/-- The object with these members; of members with one key the first counts. -/
def ofMembers (ps : List (Bytes × Value)) : Object := ps.foldl (fun o p => emplace o p.1 p.2) []

mutual

/-- The value of a tree whose numbers all have one. -/
def Tree.value (f : Numeral → Option Double) : Tree → Option Value
  | .null => some .null
  | .bool b => some (.bool b)
  | .number n => (f n).map .number
  | .string s => some (.string s)
  | .array a => (itemValues f a).map .array
  | .object o => (memberValues f o).map fun ps => .object (ofMembers ps)

def itemValues (f : Numeral → Option Double) : List Tree → Option (List Value)
  | [] => some []
  | t :: ts => (t.value f).bind fun v => (itemValues f ts).map (v :: ·)

def memberValues (f : Numeral → Option Double) : List (Bytes × Tree) → Option (List (Bytes × Value))
  | [] => some []
  | (k, t) :: o => (t.value f).bind fun v => (memberValues f o).map ((k, v) :: ·)

end

mutual

theorem Tree.value_isSome (f : Numeral → Option Double) (t : Tree) :
    (t.value f).isSome = true ↔ ∀ n ∈ t.numerals, (f n).isSome = true := by
  cases t with
  | null | bool b | string s => simp [Tree.value, Tree.numerals]
  | number n => simp [Tree.value, Tree.numerals]
  | array a => rw [Tree.value, Tree.numerals, Option.isSome_map, itemValues_isSome f a]
  | object o => rw [Tree.value, Tree.numerals, Option.isSome_map, memberValues_isSome f o]

theorem itemValues_isSome (f : Numeral → Option Double) (ts : List Tree) :
    (itemValues f ts).isSome = true ↔ ∀ n ∈ itemNumerals ts, (f n).isSome = true := by
  cases ts with
  | nil => simp [itemValues, itemNumerals]
  | cons t ts =>
      rw [itemNumerals, List.forall_mem_append, ← Tree.value_isSome f t, ← itemValues_isSome f ts,
        itemValues]
      cases t.value f <;> simp

theorem memberValues_isSome (f : Numeral → Option Double) (o : List (Bytes × Tree)) :
    (memberValues f o).isSome = true ↔ ∀ n ∈ memberNumerals o, (f n).isSome = true := by
  match o with
  | [] => simp [memberValues, memberNumerals]
  | (k, t) :: o =>
      rw [memberNumerals, List.forall_mem_append, ← Tree.value_isSome f t, ← memberValues_isSome f o,
        memberValues]
      cases t.value f <;> simp

end

section Congruence

variable {f g : Numeral → Option Double}

mutual

theorem Tree.value_congr (t : Tree) (h : ∀ n ∈ t.numerals, f n = g n) : t.value f = t.value g := by
  cases t with
  | null | bool b | string s => simp [Tree.value]
  | number n => rw [Tree.value, Tree.value, h n (by simp [Tree.numerals])]
  | array a => rw [Tree.value, Tree.value, itemValues_congr a (by simpa [Tree.numerals] using h)]
  | object o => rw [Tree.value, Tree.value, memberValues_congr o (by simpa [Tree.numerals] using h)]

theorem itemValues_congr (ts : List Tree) (h : ∀ n ∈ itemNumerals ts, f n = g n) :
    itemValues f ts = itemValues g ts := by
  cases ts with
  | nil => rw [itemValues, itemValues]
  | cons t ts =>
      rw [itemNumerals, List.forall_mem_append] at h
      rw [itemValues, itemValues, Tree.value_congr t h.1, itemValues_congr ts h.2]

theorem memberValues_congr (o : List (Bytes × Tree)) (h : ∀ n ∈ memberNumerals o, f n = g n) :
    memberValues f o = memberValues g o := by
  match o with
  | [] => rw [memberValues, memberValues]
  | (k, t) :: o =>
      rw [memberNumerals, List.forall_mem_append] at h
      rw [memberValues, memberValues, Tree.value_congr t h.1, memberValues_congr o h.2]

end

end Congruence

theorem sorted_foldl_emplace {o : Object} (h : Sorted o) (ps : List (Bytes × Value)) :
    Sorted (ps.foldl (fun o p => emplace o p.1 p.2) o) := by
  induction ps generalizing o with
  | nil => exact h
  | cons p ps ih => exact ih (sorted_emplace h p.1 p.2)

theorem lookup_of_lt {o : Object} {k : Bytes} (h : ∀ p ∈ o, k < p.1) : lookup o k = none := by
  refine List.lookup_eq_none_iff.mpr fun p hp => ?_
  have hne : k ≠ p.1 := fun he => List.lt_irrefl _ (he ▸ h p hp)
  simpa using hne

theorem lookup_emplace {o : Object} (h : Sorted o) (k key : Bytes) (v : Value) :
    lookup (emplace o k v) key = (lookup o key).or (if key = k then some v else none) := by
  induction o with
  | nil => rw [emplace, lookup_cons, lookup_nil, Option.none_or]
  | cons p o ih =>
      obtain ⟨hp, ho⟩ := List.pairwise_cons.mp h
      rw [emplace]
      by_cases hkey : key = k
      · subst hkey
        rw [if_pos rfl]
        split_ifs with he hl
        · rw [lookup_cons, if_pos he, Option.some_or]
        · have hnone : lookup (p :: o) key = none := lookup_of_lt fun q hq => by
            rcases List.mem_cons.mp hq with rfl | hq
            · exact hl
            · exact List.lt_trans hl (hp q hq)
          rw [lookup_cons, if_pos rfl, hnone, Option.none_or]
        · rw [lookup_cons, lookup_cons, if_neg he, if_neg he, ih ho, if_pos rfl]
      · rw [if_neg hkey, Option.or_none]
        split_ifs with he hl
        · rfl
        · rw [lookup_cons, if_neg hkey]
        · rw [lookup_cons, lookup_cons, ih ho, if_neg hkey, Option.or_none]

theorem lookup_foldl_emplace {o : Object} (h : Sorted o) (ps : List (Bytes × Value)) (key : Bytes) :
    lookup (ps.foldl (fun o p => emplace o p.1 p.2) o) key = (lookup o key).or (lookup ps key) := by
  induction ps generalizing o with
  | nil => rw [List.foldl_nil, lookup_nil, Option.or_none]
  | cons p ps ih =>
      rw [List.foldl_cons, ih (sorted_emplace h p.1 p.2), lookup_emplace h, Option.or_assoc, lookup_cons]
      split_ifs <;> simp

/-- A key of an object has the value of its first member. -/
theorem lookup_ofMembers (ps : List (Bytes × Value)) (key : Bytes) :
    Sorted (ofMembers ps) ∧ lookup (ofMembers ps) key = lookup ps key := by
  refine ⟨sorted_foldl_emplace List.Pairwise.nil ps, ?_⟩
  rw [ofMembers, lookup_foldl_emplace List.Pairwise.nil, lookup_nil, Option.none_or]

/-! ## Strings -/

/-- The bytes of a code point that is a character are its UTF-8 encoding. -/
theorem utf8_encodeChar (c : Char) : utf8 c.toNat = String.utf8EncodeChar c := by
  have hmax : c.val.toNat < 0x110000 := by
    rcases c.valid with h | ⟨_, h⟩ <;> omega
  unfold utf8 String.utf8EncodeChar
  rw [Char.toNat]
  simp only [← Nat.lt_succ_iff]
  split_ifs with h1 h2 h3
  · rfl
  · rw [Nat.mod_eq_of_lt (a := c.val.toNat / 64) (by omega), Nat.add_comm, Nat.add_comm 0x80]
  · rw [Nat.mod_eq_of_lt (a := c.val.toNat / 4096) (by omega), Nat.add_comm, Nat.add_comm 0x80,
      Nat.add_comm 0x80]
  · rw [Nat.mod_eq_of_lt (a := c.val.toNat / 262144) (by omega), Nat.add_comm, Nat.add_comm 0x80,
      Nat.add_comm 0x80, Nat.add_comm 0x80]

def IsHigh (cp : Nat) : Prop := 0xD800 ≤ cp ∧ cp ≤ 0xDBFF

def IsLow (cp : Nat) : Prop := 0xDC00 ≤ cp ∧ cp ≤ 0xDFFF

/-- The text starts with the escape of a low surrogate. -/
def StartsLow (s : Bytes) : Prop :=
  ∃ l0 l1 l2 l3 t lo, s = Ascii.backslash :: Ascii.letter 'u' :: l0 :: l1 :: l2 :: l3 :: t ∧
    hex4 l0 l1 l2 l3 = some lo ∧ IsLow lo

/-- The text between the quotes of a string, and the bytes of the string. -/
inductive Chars : Bytes → Bytes → Prop
  | nil : Chars [] []
  | plain {c : Byte} {s str : Bytes} (hq : c ≠ Ascii.quote) (hb : c ≠ Ascii.backslash)
      (more : Chars s str) : Chars (c :: s) (c :: str)
  | short {e b : Byte} {s str : Bytes} (letter : simpleEscape e = some b) (more : Chars s str) :
      Chars (Ascii.backslash :: e :: s) (b :: str)
  | unit {h0 h1 h2 h3 : Byte} {s str : Bytes} {cp : Nat} (hex : hex4 h0 h1 h2 h3 = some cp)
      (alone : ¬ (IsHigh cp ∧ StartsLow s)) (more : Chars s str) :
      Chars (Ascii.backslash :: Ascii.letter 'u' :: h0 :: h1 :: h2 :: h3 :: s) (utf8 cp ++ str)
  | pair {h0 h1 h2 h3 l0 l1 l2 l3 : Byte} {s str : Bytes} {cp lo : Nat}
      (hex : hex4 h0 h1 h2 h3 = some cp) (high : IsHigh cp)
      (hex' : hex4 l0 l1 l2 l3 = some lo) (low : IsLow lo) (more : Chars s str) :
      Chars (Ascii.backslash :: Ascii.letter 'u' :: h0 :: h1 :: h2 :: h3 ::
          Ascii.backslash :: Ascii.letter 'u' :: l0 :: l1 :: l2 :: l3 :: s)
        (utf8 (0x10000 + (cp - 0xD800) * 0x400 + (lo - 0xDC00)) ++ str)

/-- In front of the closing quote, the parser sees no low surrogate where there is none. -/
theorem Chars.lowSurrogate {s str : Bytes} (h : Chars s str) (hlow : ¬ StartsLow s) (rest : Bytes) :
    lowSurrogate (s ++ Ascii.quote :: rest) = some none := by
  have hunit : ∀ {h0 h1 h2 h3 : Byte} {t : Bytes} {cp : Nat}, hex4 h0 h1 h2 h3 = some cp →
      s = Ascii.backslash :: Ascii.letter 'u' :: h0 :: h1 :: h2 :: h3 :: t →
      Json.lowSurrogate (s ++ Ascii.quote :: rest) = some none := by
    rintro h0 h1 h2 h3 t cp hex rfl
    have hcp : ¬ (0xDC00 ≤ cp ∧ cp ≤ 0xDFFF) := fun h => hlow ⟨_, _, _, _, _, _, rfl, hex, h⟩
    simp [Json.lowSurrogate, hex, hcp]
  cases h with
  | nil => exact lowSurrogate_other (by decide) _
  | plain hq hb more => exact lowSurrogate_other hb _
  | short letter more =>
      refine lowSurrogate_other_escape ?_ _
      rintro rfl
      rw [show simpleEscape (Ascii.letter 'u') = none by decide] at letter
      exact absurd letter (by simp)
  | unit hex alone more => exact hunit hex rfl
  | pair hex high hex' low more => exact hunit hex rfl

theorem Chars.reads {s str : Bytes} (h : Chars s str) (rest : Bytes) :
    ReadsString (s ++ Ascii.quote :: rest) str rest := by
  induction h with
  | nil => exact .close
  | plain hq hb _ ih => exact .plain hq hb ih
  | short letter _ ih => exact .escape (escapeAt_of_reads (.simple letter)) (by simp) ih
  | @unit h0 h1 h2 h3 s str cp hex alone more ih =>
      by_cases hcp : IsHigh cp
      · have hlow := more.lowSurrogate (fun hs => alone ⟨hcp, hs⟩) rest
        exact .escape (escapeAt_of_reads (.lone hex hcp hlow)) (by simp) ih
      · exact .escape (escapeAt_of_reads (.unit hex hcp)) (by simp) ih
  | pair hex high hex' low _ ih =>
      exact .escape (escapeAt_of_reads (.pair hex high hex' low)) (by simp) ih

theorem ReadsString.chars {s str rest : Bytes} (h : ReadsString s str rest) :
    ∃ c, s = c ++ Ascii.quote :: rest ∧ Chars c str := by
  induction h with
  | close => exact ⟨[], rfl, .nil⟩
  | plain hq hb _ ih =>
      obtain ⟨c, rfl, hc⟩ := ih
      exact ⟨_ :: c, rfl, .plain hq hb hc⟩
  | @escape s bs str rest n esc inside _ ih =>
      obtain ⟨c, hdrop, hc⟩ := ih
      cases readsEscape_of_escapeAt esc with
      | @simple e b x letter =>
          obtain rfl : x = c ++ Ascii.quote :: rest := hdrop
          exact ⟨_ :: _ :: c, rfl, .short letter hc⟩
      | @unit h0 h1 h2 h3 x cp hex other =>
          obtain rfl : x = c ++ Ascii.quote :: rest := hdrop
          exact ⟨_ :: _ :: _ :: _ :: _ :: _ :: c, rfl, .unit hex (fun h => other h.1) hc⟩
      | @lone h0 h1 h2 h3 x cp hex high low =>
          obtain rfl : x = c ++ Ascii.quote :: rest := hdrop
          refine ⟨_ :: _ :: _ :: _ :: _ :: _ :: c, rfl, .unit hex (fun h => ?_) hc⟩
          obtain ⟨l0, l1, l2, l3, t, lo, rfl, hex', hlo⟩ := h.2
          have hlo' : 0xDC00 ≤ lo ∧ lo ≤ 0xDFFF := hlo
          simp [lowSurrogate, hex', hlo'] at low
      | @pair h0 h1 h2 h3 l0 l1 l2 l3 x cp lo hex high hex' low =>
          obtain rfl : x = c ++ Ascii.quote :: rest := hdrop
          exact ⟨_ :: _ :: _ :: _ :: _ :: _ :: _ :: _ :: _ :: _ :: _ :: _ :: c, rfl,
            .pair hex high hex' low hc⟩

/-! ## Values -/

def Blank (w : Bytes) : Prop := ∀ b ∈ w, isWs b = true

/-- A value between white space. -/
structure Item where
  before : Bytes
  text : Bytes
  after : Bytes
  tree : Tree
  before_blank : Blank before
  after_blank : Blank after

def Item.bytes (e : Item) : Bytes := e.before ++ (e.text ++ e.after)

/-- A key, white space around it, and the value behind its colon. -/
structure Member where
  before : Bytes
  keyText : Bytes
  key : Bytes
  between : Bytes
  item : Item
  before_blank : Blank before
  between_blank : Blank between
  chars : Chars keyText key

def Member.bytes (m : Member) : Bytes :=
  m.before ++ Ascii.quote ::
    (m.keyText ++ Ascii.quote :: (m.between ++ Ascii.colon :: m.item.bytes))

def Member.tree (m : Member) : Bytes × Tree := (m.key, m.item.tree)

/-- What follows the first element: the others, each behind a comma, and the closing bracket. -/
def moreElements (closing : Byte) : List Bytes → Bytes
  | [] => [closing]
  | e :: es => Ascii.comma :: (e ++ moreElements closing es)

/-- The text of a value, without white space around it. -/
inductive Spells : Bytes → Tree → Prop
  | null : Spells (ascii "null") .null
  | trueLit : Spells (ascii "true") (.bool true)
  | falseLit : Spells (ascii "false") (.bool false)
  | number (n : Numeral) : Spells n.text (.number n)
  | string {c str : Bytes} (chars : Chars c str) :
      Spells (Ascii.quote :: (c ++ [Ascii.quote])) (.string str)
  | emptyArray {w : Bytes} (blank : Blank w) :
      Spells (Ascii.lbracket :: (w ++ [Ascii.rbracket])) (.array [])
  | array {e : Item} {es : List Item} (each : ∀ x ∈ e :: es, Spells x.text x.tree) :
      Spells (Ascii.lbracket :: (e.bytes ++ moreElements Ascii.rbracket (es.map Item.bytes)))
        (.array ((e :: es).map Item.tree))
  | emptyObject {w : Bytes} (blank : Blank w) :
      Spells (Ascii.lbrace :: (w ++ [Ascii.rbrace])) (.object [])
  | object {m : Member} {ms : List Member} (each : ∀ x ∈ m :: ms, Spells x.item.text x.item.tree) :
      Spells (Ascii.lbrace :: (m.bytes ++ moreElements Ascii.rbrace (ms.map Member.bytes)))
        (.object ((m :: ms).map Member.tree))

/-- `JSON-text = ws value ws`. -/
def JsonText (text : Bytes) (tree : Tree) : Prop :=
  ∃ w t w', Blank w ∧ Blank w' ∧ text = w ++ (t ++ w') ∧ Spells t tree

/-! ## Texts of the grammar are read -/

theorem itemValues_cons_iff {f : Numeral → Option Double} {t : Tree} {ts : List Tree}
    {vs : List Value} :
    itemValues f (t :: ts) = some vs ↔
      ∃ v us, t.value f = some v ∧ itemValues f ts = some us ∧ vs = v :: us := by
  rw [itemValues, Option.bind_eq_some_iff]
  constructor
  · rintro ⟨v, hv, h⟩
    obtain ⟨us, hus, rfl⟩ := Option.map_eq_some_iff.mp h
    exact ⟨v, us, hv, hus, rfl⟩
  · rintro ⟨v, us, hv, hus, rfl⟩
    exact ⟨v, hv, by rw [hus, Option.map_some]⟩

theorem memberValues_cons_iff {f : Numeral → Option Double} {k : Bytes} {t : Tree}
    {o : List (Bytes × Tree)} {ps : List (Bytes × Value)} :
    memberValues f ((k, t) :: o) = some ps ↔
      ∃ v qs, t.value f = some v ∧ memberValues f o = some qs ∧ ps = (k, v) :: qs := by
  rw [memberValues, Option.bind_eq_some_iff]
  constructor
  · rintro ⟨v, hv, h⟩
    obtain ⟨qs, hqs, rfl⟩ := Option.map_eq_some_iff.mp h
    exact ⟨v, qs, hv, hqs, rfl⟩
  · rintro ⟨v, qs, hv, hqs, rfl⟩
    exact ⟨v, hv, by rw [hqs, Option.map_some]⟩

theorem isWs_delimiter {b : Byte} (h : isWs b = true) : b ∈ delimiters := by
  simp only [isWs, Bool.or_eq_true, decide_eq_true_eq] at h
  rcases h with ((rfl | rfl) | rfl) | rfl <;> decide

theorem ends_blank {w : Bytes} (hw : Blank w) {s : Bytes} (hs : Ends s) : Ends (w ++ s) := by
  intro c hc
  cases w with
  | nil => exact hs c hc
  | cons b w =>
      obtain rfl : b = c := Option.some.inj hc
      exact isWs_delimiter (hw b List.mem_cons_self)

theorem ends_cons {c : Byte} (hc : c ∈ delimiters) (s : Bytes) : Ends (c :: s) := by
  intro d hd
  obtain rfl := Option.some.inj hd
  exact hc

theorem skipWs_blank {w : Bytes} (hw : Blank w) {c : Byte} (hc : isWs c = false) (s : Bytes) :
    skipWs (w ++ c :: s) = c :: s := by
  rw [skipWs_append hw, skipWs, List.dropWhile_cons, if_neg (by simp [hc])]

theorem moreElements_ends {closing : Byte} (hc : closing ∈ delimiters) (es : List Bytes) (rest : Bytes) :
    Ends (moreElements closing es ++ rest) := by
  cases es with
  | nil => exact ends_cons hc _
  | cons e es => exact ends_cons (by decide) _

/-- What is read from a text is read from it between white space. -/
theorem Item.reads {e : Item} {v : Value} {s : Bytes}
    (h : ∀ r, Ends r → Reads .value (e.text ++ r) v r) (hs : Ends s) :
    Reads .value (e.bytes ++ s) v (e.after ++ s) := by
  have hv := h _ (ends_blank e.after_blank hs)
  refine hv.value_behind ?_
  rw [Item.bytes, List.append_assoc, List.append_assoc, skipWs_append e.before_blank]

theorem reads_array_items {e : Item} {es : List Item}
    (h : ∀ x ∈ e :: es, ∀ v, x.tree.value Numeral.stod = some v →
      ∀ r, Ends r → Reads .value (x.text ++ r) v r)
    {vs : List Value} (hvs : itemValues Numeral.stod ((e :: es).map Item.tree) = some vs)
    (acc : List Value) (rest : Bytes) :
    Reads (.items acc) (e.bytes ++ moreElements Ascii.rbracket (es.map Item.bytes) ++ rest)
      (.array (acc ++ vs)) rest := by
  induction es generalizing e acc vs with
  | nil =>
      obtain ⟨v, us, hv, hus, rfl⟩ := itemValues_cons_iff.mp hvs
      obtain rfl : [] = us := Option.some.inj hus
      have hread := Item.reads (h e List.mem_cons_self v hv)
        (moreElements_ends (show Ascii.rbracket ∈ delimiters by decide) [] rest)
      rw [List.append_assoc]
      exact .lastItem hread (skipWs_blank e.after_blank (by decide) _)
  | cons x es ih =>
      obtain ⟨v, us, hv, hus, rfl⟩ := itemValues_cons_iff.mp hvs
      have hread := Item.reads (h e List.mem_cons_self v hv)
        (moreElements_ends (show Ascii.rbracket ∈ delimiters by decide) ((x :: es).map Item.bytes) rest)
      have hmore := ih (fun y hy => h y (List.mem_cons_of_mem _ hy)) hus (acc ++ [v])
      rw [show acc ++ [v] ++ us = acc ++ v :: us by simp] at hmore
      rw [List.append_assoc]
      exact .item hread (skipWs_blank e.after_blank (by decide) _) hmore

/-- The key, and what follows it up to the value, behind the white space. -/
theorem Member.skip (m : Member) (s : Bytes) :
    skipWs (m.bytes ++ s) = Ascii.quote :: (m.keyText ++ Ascii.quote :: (m.between ++
      Ascii.colon :: (m.item.bytes ++ s))) := by
  have hassoc : m.bytes ++ s = m.before ++ Ascii.quote :: (m.keyText ++ Ascii.quote ::
      (m.between ++ Ascii.colon :: (m.item.bytes ++ s))) := by simp [Member.bytes]
  rw [hassoc, skipWs_blank m.before_blank (by decide)]

theorem reads_object_members {m : Member} {ms : List Member}
    (h : ∀ x ∈ m :: ms, ∀ v, x.item.tree.value Numeral.stod = some v →
      ∀ r, Ends r → Reads .value (x.item.text ++ r) v r)
    {ps : List (Bytes × Value)}
    (hps : memberValues Numeral.stod ((m :: ms).map Member.tree) = some ps) (o : Object) (rest : Bytes) :
    Reads (.members o) (m.bytes ++ moreElements Ascii.rbrace (ms.map Member.bytes) ++ rest)
      (.object (ps.foldl (fun o p => emplace o p.1 p.2) o)) rest := by
  have hcolon : ∀ (m : Member) (s : Bytes),
      skipWs (m.between ++ Ascii.colon :: s) = Ascii.colon :: s := fun m s =>
    skipWs_blank m.between_blank (by decide) s
  induction ms generalizing m o ps with
  | nil =>
      obtain ⟨v, qs, hv, hqs, rfl⟩ := memberValues_cons_iff.mp hps
      obtain rfl : [] = qs := Option.some.inj hqs
      have hread := Item.reads (h m List.mem_cons_self v hv)
        (moreElements_ends (show Ascii.rbrace ∈ delimiters by decide) [] rest)
      rw [List.append_assoc]
      exact .lastMember (m.skip _) (m.chars.reads _) (hcolon m _) hread
        (skipWs_blank m.item.after_blank (by decide) _)
  | cons x ms ih =>
      obtain ⟨v, qs, hv, hqs, rfl⟩ := memberValues_cons_iff.mp hps
      have hread := Item.reads (h m List.mem_cons_self v hv)
        (moreElements_ends (show Ascii.rbrace ∈ delimiters by decide) ((x :: ms).map Member.bytes) rest)
      have hmore := ih (fun y hy => h y (List.mem_cons_of_mem _ hy)) hqs (emplace o m.key v)
      rw [List.append_assoc]
      exact .member (m.skip _) (m.chars.reads _) (hcolon m _) hread
        (skipWs_blank m.item.after_blank (by decide) _) hmore

theorem Ends.delimited {r : Bytes} (h : Ends r) : Delimited r := by
  have hdelim : ∀ c ∈ delimiters, numberByte c = false := by decide +kernel
  exact fun c hc => hdelim c (h c hc)

theorem skipWs_cons_of_not {c : Byte} (hc : isWs c = false) (s : Bytes) : skipWs (c :: s) = c :: s := by
  rw [skipWs, List.dropWhile_cons, if_neg (by simp [hc])]

/-- The text of a value starts with a byte that is no white space and closes nothing. -/
theorem Spells.head {t : Bytes} {tree : Tree} (h : Spells t tree) :
    ∃ c u, t = c :: u ∧ isWs c = false ∧ c ≠ Ascii.rbracket ∧ c ≠ Ascii.rbrace := by
  cases h with
  | null => exact ⟨_, _, rfl, by decide⟩
  | trueLit => exact ⟨_, _, rfl, by decide⟩
  | falseLit => exact ⟨_, _, rfl, by decide⟩
  | number n =>
      obtain ⟨c, u, ht, hc⟩ := n.text_head
      refine ⟨c, u, ht, ?_⟩
      rcases hc with rfl | hc
      · decide
      · refine ⟨?_, digit_ne hc (by decide), digit_ne hc (by decide)⟩
        by_contra hws
        simp only [isWs, Bool.not_eq_false, Bool.or_eq_true, decide_eq_true_eq] at hws
        rcases hws with ((rfl | rfl) | rfl) | rfl <;> exact absurd hc (by decide)
  | string => exact ⟨_, _, rfl, by decide⟩
  | emptyArray => exact ⟨_, _, rfl, by decide⟩
  | array => exact ⟨_, _, rfl, by decide⟩
  | emptyObject => exact ⟨_, _, rfl, by decide⟩
  | object => exact ⟨_, _, rfl, by decide⟩

theorem Item.skip {e : Item} (h : Spells e.text e.tree) (s : Bytes) :
    skipWs (e.bytes ++ s) = e.text ++ (e.after ++ s) := by
  obtain ⟨c, u, ht, hws, _⟩ := h.head
  rw [Item.bytes, ht, List.append_assoc, List.append_assoc, List.cons_append,
    skipWs_blank e.before_blank hws]

/-- A text of the grammar whose numbers all convert is read as its value. -/
theorem Spells.reads {t : Bytes} {tree : Tree} (h : Spells t tree) :
    ∀ v, tree.value Numeral.stod = some v → ∀ r, Ends r → Reads .value (t ++ r) v r := by
  induction h with
  | null =>
      intro v hv r hr
      obtain rfl := Option.some.inj hv
      have hread := reads_dump .null r hr.delimited
      rwa [Value.dump] at hread
  | trueLit =>
      intro v hv r hr
      obtain rfl := Option.some.inj hv
      have hread := reads_dump (.bool true) r hr.delimited
      rwa [Value.dump, if_pos rfl] at hread
  | falseLit =>
      intro v hv r hr
      obtain rfl := Option.some.inj hv
      have hread := reads_dump (.bool false) r hr.delimited
      rwa [Value.dump, if_neg (by simp)] at hread
  | number n =>
      intro v hv r hr
      obtain ⟨d, hd, rfl⟩ := Option.map_eq_some_iff.mp hv
      obtain ⟨c, t, ht, hc⟩ := n.text_head
      have hnum : parseNumber (n.text ++ r) = .ok (d, r) := by
        rw [parseNumber, scanNumber_text n hr]
        simp only [if_neg (show n.text ≠ [] by simp [ht]), stod_text, hd]
      rw [ht, List.cons_append] at hnum ⊢
      exact reads_number hc hnum
  | @string c str chars =>
      intro v hv r _
      obtain rfl := Option.some.inj hv
      have hassoc : Ascii.quote :: (c ++ [Ascii.quote]) ++ r = Ascii.quote :: (c ++ Ascii.quote :: r) := by
        simp
      rw [hassoc]
      exact .string rfl (chars.reads r)
  | @emptyArray w blank =>
      intro v hv r _
      obtain rfl := Option.some.inj hv
      have hassoc : Ascii.lbracket :: (w ++ [Ascii.rbracket]) ++ r =
          Ascii.lbracket :: (w ++ Ascii.rbracket :: r) := by simp
      rw [hassoc]
      exact .emptyArray rfl (skipWs_blank blank (by decide) r)
  | @array e es each ih =>
      intro v hv r _
      obtain ⟨vs, hvs, rfl⟩ := Option.map_eq_some_iff.mp hv
      have hitems := reads_array_items ih hvs [] r
      have he := each e List.mem_cons_self
      obtain ⟨c, u, ht, _, hne, _⟩ := he.head
      rw [List.append_assoc] at hitems
      rw [List.cons_append, List.append_assoc]
      refine .array (skipWs_cons_of_not (by decide) _) ?_ (hitems.items_behind (skipWs_skipWs _))
      rw [Item.skip he, ht]
      exact fun h => hne (Option.some.inj h)
  | @emptyObject w blank =>
      intro v hv r _
      obtain rfl := Option.some.inj hv
      have hassoc : Ascii.lbrace :: (w ++ [Ascii.rbrace]) ++ r =
          Ascii.lbrace :: (w ++ Ascii.rbrace :: r) := by simp
      rw [hassoc]
      exact .emptyObject rfl (skipWs_blank blank (by decide) r)
  | @object m ms each ih =>
      intro v hv r _
      obtain ⟨ps, hps, rfl⟩ := Option.map_eq_some_iff.mp hv
      have hmembers := reads_object_members ih hps [] r
      obtain ⟨t, ht⟩ := hmembers.members_quote
      rw [List.append_assoc] at hmembers ht
      rw [List.cons_append, List.append_assoc]
      refine .object (skipWs_cons_of_not (by decide) _) ?_ (hmembers.members_behind (skipWs_skipWs _))
      rw [ht]
      exact fun h => absurd (Option.some.inj h) (by decide)

/-! ## What is read is a text of the grammar -/

theorem blank_append {w w' : Bytes} (h : Blank w) (h' : Blank w') : Blank (w ++ w') := by
  intro b hb
  rcases List.mem_append.mp hb with hb | hb
  · exact h b hb
  · exact h' b hb

/-- The item behind more white space. -/
def Item.behind {w : Bytes} (hw : Blank w) (e : Item) : Item :=
  { e with before := w ++ e.before, before_blank := blank_append hw e.before_blank }

theorem Item.behind_bytes {w : Bytes} (hw : Blank w) (e : Item) : (e.behind hw).bytes = w ++ e.bytes := by
  rw [behind, bytes, bytes, List.append_assoc]

def Member.behind {w : Bytes} (hw : Blank w) (m : Member) : Member :=
  { m with before := w ++ m.before, before_blank := blank_append hw m.before_blank }

theorem Member.behind_bytes {w : Bytes} (hw : Blank w) (m : Member) :
    (m.behind hw).bytes = w ++ m.bytes := by
  rw [behind, bytes, bytes, List.append_assoc]

/-- What has been read in a mode is a value of the grammar, or the inside of a bracket of which
the first elements have been read before. -/
def Spelled : Mode → Bytes → Value → Bytes → Prop
  | .value, s, v, rest => ∃ w t tree, Blank w ∧ s = w ++ (t ++ rest) ∧ Spells t tree ∧
      tree.value Numeral.stod = some v
  | .items a, s, v, rest => ∃ (e : Item) (es : List Item) (vs : List Value),
      (∀ x ∈ e :: es, Spells x.text x.tree) ∧
      s = e.bytes ++ (moreElements Ascii.rbracket (es.map Item.bytes) ++ rest) ∧
      itemValues Numeral.stod ((e :: es).map Item.tree) = some vs ∧ v = .array (a ++ vs)
  | .members o, s, v, rest => ∃ (m : Member) (ms : List Member) (ps : List (Bytes × Value)),
      (∀ x ∈ m :: ms, Spells x.item.text x.item.tree) ∧
      s = m.bytes ++ (moreElements Ascii.rbrace (ms.map Member.bytes) ++ rest) ∧
      memberValues Numeral.stod ((m :: ms).map Member.tree) = some ps ∧
      v = .object (ps.foldl (fun o p => emplace o p.1 p.2) o)

theorem spelled_of_blank {s s' rest : Bytes} {v : Value} {w : Bytes} (hw : Blank w) (hs : s = w ++ s')
    (h : ∃ t tree, s' = t ++ rest ∧ Spells t tree ∧ tree.value Numeral.stod = some v) :
    Spelled .value s v rest := by
  obtain ⟨t, tree, rfl, ht, hv⟩ := h
  exact ⟨w, t, tree, hw, hs, ht, hv⟩

theorem spelled_scalar {c : Byte} {s rest : Bytes} {v : Value}
    (h : parseScalar c (c :: s) = .ok (v, rest)) :
    ∃ t tree, c :: s = t ++ rest ∧ Spells t tree ∧ tree.value Numeral.stod = some v := by
  unfold parseScalar at h
  split_ifs at h with ht hf hn hd
  · rcases literal_cases (ascii "true") (c :: s) with hr | ⟨r, hr, hs⟩
    · exact absurd h (by simp [hr])
    · rw [hr] at h
      obtain ⟨rfl, rfl⟩ := Prod.mk.inj (Except.ok.inj h)
      exact ⟨_, _, hs, .trueLit, rfl⟩
  · rcases literal_cases (ascii "false") (c :: s) with hr | ⟨r, hr, hs⟩
    · exact absurd h (by simp [hr])
    · rw [hr] at h
      obtain ⟨rfl, rfl⟩ := Prod.mk.inj (Except.ok.inj h)
      exact ⟨_, _, hs, .falseLit, rfl⟩
  · rcases literal_cases (ascii "null") (c :: s) with hr | ⟨r, hr, hs⟩
    · exact absurd h (by simp [hr])
    · rw [hr] at h
      obtain ⟨rfl, rfl⟩ := Prod.mk.inj (Except.ok.inj h)
      exact ⟨_, _, hs, .null, rfl⟩
  · obtain ⟨n, hn⟩ := scanNumber_numeral (s := s) hd
    have happ := scanner_number.append (c :: s)
    unfold parseNumber at h
    split_ifs at h with hnum
    split at h
    · exact absurd h (by simp)
    · rename_i d r hd'
      split at hd'
      · exact absurd hd' (by simp)
      · rename_i x hx
        obtain ⟨rfl, rfl⟩ := Prod.mk.inj (Except.ok.inj hd')
        obtain ⟨rfl, rfl⟩ := Prod.mk.inj (Except.ok.inj h)
        rw [hn] at happ hx
        rw [stod_text] at hx
        exact ⟨n.text, .number n, happ.symm, .number n, by rw [Tree.value, hx, Option.map_some]⟩

/-- Whatever the descent reads is a text of the grammar. -/
theorem Reads.spelled {mode : Mode} {s rest : Bytes} {v : Value} (h : Reads mode s v rest) :
    Spelled mode s v rest := by
  induction h with
  | string start text =>
      obtain ⟨w, rfl, hw, _⟩ := skipWs_cons start
      obtain ⟨c, rfl, hc⟩ := text.chars
      refine ⟨w, _, _, hw, ?_, .string hc, rfl⟩
      simp
  | emptyObject start stop =>
      obtain ⟨w, rfl, hw, _⟩ := skipWs_cons start
      obtain ⟨x, rfl, hx, _⟩ := skipWs_cons stop
      refine ⟨w, _, _, hw, ?_, .emptyObject hx, rfl⟩
      simp
  | @object s t rest v start nonempty _ ih =>
      obtain ⟨w, rfl, hw, _⟩ := skipWs_cons start
      obtain ⟨x, ht, (hx : Blank x)⟩ := ws_append_skipWs t
      obtain ⟨m, ms, ps, hm, hs, hps, rfl⟩ := ih
      have hin : ∀ y ∈ m.behind hx :: ms, Spells y.item.text y.item.tree :=
        List.forall_mem_cons.mpr ⟨hm m List.mem_cons_self, fun y hy => hm y (by simp [hy])⟩
      refine ⟨w, _, _, hw, ?_, .object hin, ?_⟩
      · rw [ht, hs, Member.behind_bytes]
        simp
      · exact (congrArg (Option.map _) hps : _)
  | emptyArray start stop =>
      obtain ⟨w, rfl, hw, _⟩ := skipWs_cons start
      obtain ⟨x, rfl, hx, _⟩ := skipWs_cons stop
      refine ⟨w, _, _, hw, ?_, .emptyArray hx, rfl⟩
      simp
  | @array s t rest v start nonempty _ ih =>
      obtain ⟨w, rfl, hw, _⟩ := skipWs_cons start
      obtain ⟨x, ht, (hx : Blank x)⟩ := ws_append_skipWs t
      obtain ⟨e, es, vs, he, hs, hvs, rfl⟩ := ih
      have hin : ∀ y ∈ e.behind hx :: es, Spells y.text y.tree :=
        List.forall_mem_cons.mpr ⟨he e List.mem_cons_self, fun y hy => he y (by simp [hy])⟩
      refine ⟨w, _, _, hw, ?_, .array hin, ?_⟩
      · rw [ht, hs, Item.behind_bytes]
        simp
      · exact (congrArg (Option.map _) hvs : _)
  | scalar start _ _ _ text =>
      obtain ⟨w, rfl, hw, _⟩ := skipWs_cons start
      exact spelled_of_blank hw rfl (spelled_scalar text)
  | member start text colon _ comma _ ih ih' =>
      obtain ⟨x, rfl, hx, _⟩ := skipWs_cons start
      obtain ⟨k, rfl, hk⟩ := text.chars
      obtain ⟨y, rfl, hy, _⟩ := skipWs_cons colon
      obtain ⟨w, t, tree, hw, rfl, ht, hv⟩ := ih
      obtain ⟨z, rfl, hz, _⟩ := skipWs_cons comma
      obtain ⟨m, ms, ps, hm, rfl, hps, rfl⟩ := ih'
      refine ⟨⟨x, k, _, y, ⟨w, t, z, tree, hw, hz⟩, hx, hy, hk⟩, m :: ms, (_, _) :: ps,
        List.forall_mem_cons.mpr ⟨ht, hm⟩, ?_, ?_, rfl⟩
      · simp [Member.bytes, Item.bytes, moreElements]
      · exact memberValues_cons_iff.mpr ⟨_, _, hv, hps, rfl⟩
  | lastMember start text colon _ stop ih =>
      obtain ⟨x, rfl, hx, _⟩ := skipWs_cons start
      obtain ⟨k, rfl, hk⟩ := text.chars
      obtain ⟨y, rfl, hy, _⟩ := skipWs_cons colon
      obtain ⟨w, t, tree, hw, rfl, ht, hv⟩ := ih
      obtain ⟨z, rfl, hz, _⟩ := skipWs_cons stop
      refine ⟨⟨x, k, _, y, ⟨w, t, z, tree, hw, hz⟩, hx, hy, hk⟩, [], [(_, _)],
        by simpa using ht, ?_, ?_, rfl⟩
      · simp [Member.bytes, Item.bytes, moreElements]
      · exact memberValues_cons_iff.mpr ⟨_, _, hv, rfl, rfl⟩
  | @item _ _ _ _ _ v _ _ comma _ ih ih' =>
      obtain ⟨w, t, tree, hw, rfl, ht, hv⟩ := ih
      obtain ⟨z, rfl, hz, _⟩ := skipWs_cons comma
      obtain ⟨e, es, vs, he, rfl, hvs, rfl⟩ := ih'
      refine ⟨⟨w, t, z, tree, hw, hz⟩, e :: es, v :: vs, List.forall_mem_cons.mpr ⟨ht, he⟩, ?_, ?_, ?_⟩
      · simp [Item.bytes, moreElements]
      · exact itemValues_cons_iff.mpr ⟨_, _, hv, hvs, rfl⟩
      · simp
  | lastItem _ stop ih =>
      obtain ⟨w, t, tree, hw, rfl, ht, hv⟩ := ih
      obtain ⟨z, rfl, hz, _⟩ := skipWs_cons stop
      refine ⟨⟨w, t, z, tree, hw, hz⟩, [], [_], by simpa using ht, ?_, ?_, rfl⟩
      · simp [Item.bytes, moreElements]
      · exact itemValues_cons_iff.mpr ⟨_, _, hv, rfl, rfl⟩

/-- `parse` accepts the texts of the grammar whose numbers `std::stod` converts, whatever form
they have, and returns their values. -/
theorem parse_iff_text {text : Bytes} {v : Value} :
    parse text = .ok v ↔ ∃ tree, JsonText text tree ∧ tree.value Numeral.stod = some v := by
  rw [parse_ok_iff]
  constructor
  · rintro ⟨rest, hread, hend⟩
    obtain ⟨x, htext, hx⟩ := ws_append_skipWs text
    obtain ⟨w, t, tree, hw, hs, ht, hv⟩ := hread.spelled
    refine ⟨tree, ⟨x ++ w, t, rest, blank_append hx hw, List.dropWhile_eq_nil_iff.mp hend, ?_, ht⟩, hv⟩
    rw [htext, hs, List.append_assoc]
  · rintro ⟨tree, ⟨w, t, w', hw, hw', rfl, ht⟩, hv⟩
    have hends : Ends w' := by
      have := ends_blank hw' ends_nil
      rwa [List.append_nil] at this
    refine ⟨w', (ht.reads v hv w' hends).value_behind ?_, List.dropWhile_eq_nil_iff.mpr hw'⟩
    rw [skipWs_skipWs, skipWs_append hw]

/-! ## A text has one tree -/

/-- The text is the only front of a text that spells a value, and spells only this one. -/
def Unambiguous (t : Bytes) (tree : Tree) : Prop :=
  ∀ t' tree' r r', Spells t' tree' → t ++ r = t' ++ r' → Ends r → Ends r' → tree = tree' ∧ r = r'

theorem Item.unique {e e' : Item} (hu : Unambiguous e.text e.tree) (he : Spells e.text e.tree)
    (he' : Spells e'.text e'.tree) {s s' : Bytes} (hs : Ends s) (hs' : Ends s')
    (heq : e.bytes ++ s = e'.bytes ++ s') : e.tree = e'.tree ∧ skipWs s = skipWs s' := by
  have htext : e.text ++ (e.after ++ s) = e'.text ++ (e'.after ++ s') := by
    rw [← Item.skip he, ← Item.skip he', heq]
  obtain ⟨htree, hafter⟩ := hu _ _ _ _ he' htext (ends_blank e.after_blank hs)
    (ends_blank e'.after_blank hs')
  refine ⟨htree, ?_⟩
  rw [← skipWs_append e.after_blank, hafter, skipWs_append e'.after_blank]

theorem Member.unique {m m' : Member} (hu : Unambiguous m.item.text m.item.tree)
    (hm : Spells m.item.text m.item.tree) (hm' : Spells m'.item.text m'.item.tree) {s s' : Bytes}
    (hs : Ends s) (hs' : Ends s') (heq : m.bytes ++ s = m'.bytes ++ s') :
    m.tree = m'.tree ∧ skipWs s = skipWs s' := by
  have hkey := (m.skip s).symm.trans ((congrArg skipWs heq).trans (m'.skip s'))
  have hread := m.chars.reads (m.between ++ Ascii.colon :: (m.item.bytes ++ s))
  rw [(List.cons.inj hkey).2] at hread
  obtain ⟨hk, hrest⟩ := hread.unique (m'.chars.reads _)
  have hcolon : ∀ (m : Member) (s : Bytes), skipWs (m.between ++ Ascii.colon :: s) =
      Ascii.colon :: s := fun m s => skipWs_blank m.between_blank (by decide) s
  have hitem := (hcolon m _).symm.trans ((congrArg skipWs hrest).trans (hcolon m' _))
  obtain ⟨htree, hskip⟩ := Item.unique hu hm hm' hs hs' (List.cons.inj hitem).2
  exact ⟨Prod.ext hk htree, hskip⟩

theorem skipWs_moreElements {closing : Byte} (hc : isWs closing = false) (es : List Bytes) (r : Bytes) :
    skipWs (moreElements closing es ++ r) = moreElements closing es ++ r := by
  cases es with
  | nil => exact skipWs_cons_of_not hc _
  | cons e es => exact skipWs_cons_of_not (by decide) _

/-- Two lists of elements with one text have one meaning, when each element has. -/
theorem elements_unique {α β : Type} {bytes : α → Bytes} {meaning : α → β} {good : α → Prop}
    {closing : Byte} (hc : closing ∈ delimiters) (hws : isWs closing = false)
    (hne : closing ≠ Ascii.comma) {x x' : α} {xs xs' : List α}
    (hone : ∀ y ∈ x :: xs, ∀ y' s s', good y' → Ends s → Ends s' → bytes y ++ s = bytes y' ++ s' →
      meaning y = meaning y' ∧ skipWs s = skipWs s')
    (hgood : ∀ y ∈ x' :: xs', good y) {r r' : Bytes}
    (heq : bytes x ++ (moreElements closing (xs.map bytes) ++ r) =
      bytes x' ++ (moreElements closing (xs'.map bytes) ++ r')) :
    (x :: xs).map meaning = (x' :: xs').map meaning ∧ r = r' := by
  induction xs generalizing x x' xs' with
  | nil =>
      obtain ⟨hmean, hrest⟩ := hone x List.mem_cons_self x' _ _ (hgood x' List.mem_cons_self)
        (moreElements_ends hc _ r) (moreElements_ends hc _ r') heq
      rw [skipWs_moreElements hws, skipWs_moreElements hws] at hrest
      cases xs' with
      | nil => exact ⟨by simp [hmean], (List.cons.inj hrest).2⟩
      | cons y' ys' => exact absurd (List.cons.inj hrest).1 hne
  | cons y ys ih =>
      obtain ⟨hmean, hrest⟩ := hone x List.mem_cons_self x' _ _ (hgood x' List.mem_cons_self)
        (moreElements_ends hc _ r) (moreElements_ends hc _ r') heq
      rw [skipWs_moreElements hws, skipWs_moreElements hws] at hrest
      cases xs' with
      | nil => exact absurd (List.cons.inj hrest).1.symm hne
      | cons y' ys' =>
          have htail := (List.cons.inj hrest).2
          rw [List.append_eq, List.append_eq, List.append_assoc, List.append_assoc] at htail
          obtain ⟨hmore, hr⟩ := ih (fun z hz => hone z (List.mem_cons_of_mem _ hz))
            (fun z hz => hgood z (List.mem_cons_of_mem _ hz)) htail
          exact ⟨congrArg₂ List.cons hmean hmore, hr⟩

/-- What the first byte of a value says about it. -/
inductive Kind where
  | null
  | trueLit
  | falseLit
  | number
  | string
  | array
  | object
  deriving DecidableEq

def Tree.kind : Tree → Kind
  | .null => .null
  | .bool b => if b then .trueLit else .falseLit
  | .number _ => .number
  | .string _ => .string
  | .array _ => .array
  | .object _ => .object

def kindOf (c : Byte) : Kind :=
  if c = Ascii.letter 'n' then .null
  else if c = Ascii.letter 't' then .trueLit
  else if c = Ascii.letter 'f' then .falseLit
  else if c = Ascii.quote then .string
  else if c = Ascii.lbracket then .array
  else if c = Ascii.lbrace then .object
  else .number

theorem Spells.kind {t : Bytes} {tree : Tree} (h : Spells t tree) :
    ∃ c u, t = c :: u ∧ kindOf c = tree.kind := by
  cases h with
  | null => exact ⟨_, _, rfl, by decide⟩
  | trueLit => exact ⟨_, _, rfl, by decide⟩
  | falseLit => exact ⟨_, _, rfl, by decide⟩
  | number n =>
      obtain ⟨c, u, ht, hc⟩ := n.text_head
      refine ⟨c, u, ht, ?_⟩
      rcases hc with rfl | hc
      · exact (by decide : kindOf Ascii.minus = .number)
      · have hne : ∀ d ∈ [Ascii.letter 'n', Ascii.letter 't', Ascii.letter 'f', Ascii.quote,
            Ascii.lbracket, Ascii.lbrace], c ≠ d := by
          intro d hd
          refine digit_ne hc ?_
          revert d
          decide +kernel
        simp only [List.mem_cons, List.not_mem_nil, or_false, forall_eq_or_imp, forall_eq] at hne
        obtain ⟨h1, h2, h3, h4, h5, h6⟩ := hne
        rw [kindOf, if_neg h1, if_neg h2, if_neg h3, if_neg h4, if_neg h5, if_neg h6]
        rfl
  | string => exact ⟨_, _, rfl, (by decide : kindOf Ascii.quote = .string)⟩
  | emptyArray => exact ⟨_, _, rfl, by decide⟩
  | array => exact ⟨_, _, rfl, (by decide : kindOf Ascii.lbracket = .array)⟩
  | emptyObject => exact ⟨_, _, rfl, by decide⟩
  | object => exact ⟨_, _, rfl, (by decide : kindOf Ascii.lbrace = .object)⟩

theorem kind_unique {t t' r r' : Bytes} {tree tree' : Tree} (h : Spells t tree) (h' : Spells t' tree')
    (heq : t ++ r = t' ++ r') : tree.kind = tree'.kind := by
  obtain ⟨c, u, rfl, hk⟩ := h.kind
  obtain ⟨c', u', rfl, hk'⟩ := h'.kind
  rw [← hk, ← hk', (List.cons.inj heq).1]

/-- Inside an array, no element starts where the closing bracket stands. -/
theorem not_closing_item {e : Item} (he : Spells e.text e.tree) {w r s : Bytes} (hw : Blank w)
    (h : w ++ Ascii.rbracket :: r = e.bytes ++ s) : False := by
  obtain ⟨c, u, ht, _, hne, _⟩ := he.head
  have hskip := Item.skip he s
  rw [← h, skipWs_blank hw (by decide), ht] at hskip
  exact hne (List.cons.inj hskip).1.symm

theorem not_closing_member {m : Member} {w r s : Bytes} (hw : Blank w)
    (h : w ++ Ascii.rbrace :: r = m.bytes ++ s) : False := by
  have hskip := m.skip s
  rw [← h, skipWs_blank hw (by decide)] at hskip
  exact absurd (List.cons.inj hskip).1 (by decide)

theorem blank_unique {w w' r r' : Bytes} {c : Byte} (hc : isWs c = false) (hw : Blank w)
    (hw' : Blank w') (h : w ++ c :: r = w' ++ c :: r') : r = r' := by
  have hskip := congrArg skipWs h
  rw [skipWs_blank hw hc, skipWs_blank hw' hc] at hskip
  exact (List.cons.inj hskip).2

theorem Spells.unambiguous {t : Bytes} {tree : Tree} (h : Spells t tree) : Unambiguous t tree := by
  induction h with
  | null =>
      intro t' tree' r r' h' heq hr hr'
      have hk := kind_unique .null h' heq
      cases h' with
      | null => exact ⟨rfl, List.append_cancel_left heq⟩
      | _ => exact absurd hk (by simp [Tree.kind])
  | trueLit =>
      intro t' tree' r r' h' heq hr hr'
      have hk := kind_unique .trueLit h' heq
      cases h' with
      | trueLit => exact ⟨rfl, List.append_cancel_left heq⟩
      | _ => exact absurd hk (by simp [Tree.kind])
  | falseLit =>
      intro t' tree' r r' h' heq hr hr'
      have hk := kind_unique .falseLit h' heq
      cases h' with
      | falseLit => exact ⟨rfl, List.append_cancel_left heq⟩
      | _ => exact absurd hk (by simp [Tree.kind])
  | number n =>
      intro t' tree' r r' h' heq hr hr'
      have hk := kind_unique (.number n) h' heq
      cases h' with
      | number m =>
          have hscan := scanNumber_text n hr
          rw [heq, scanNumber_text m hr'] at hscan
          obtain ⟨htext, hrest⟩ := Prod.mk.inj hscan
          exact ⟨by rw [Numeral.text_injective htext], hrest.symm⟩
      | _ => exact absurd hk (by simp [Tree.kind])
  | @string c str chars =>
      intro t' tree' r r' h' heq hr hr'
      have hk := kind_unique (.string chars) h' heq
      cases h' with
      | @string c' str' chars' =>
          have hin : c ++ Ascii.quote :: r = c' ++ Ascii.quote :: r' := by simpa using heq
          obtain ⟨hstr, hrest⟩ := (chars.reads r).unique (hin ▸ chars'.reads r')
          exact ⟨by rw [hstr], hrest⟩
      | _ => exact absurd hk (by simp [Tree.kind])
  | @emptyArray w blank =>
      intro t' tree' r r' h' heq hr hr'
      have hk := kind_unique (.emptyArray blank) h' heq
      cases h' with
      | @emptyArray w' blank' =>
          have hin : w ++ Ascii.rbracket :: r = w' ++ Ascii.rbracket :: r' := by simpa using heq
          exact ⟨rfl, blank_unique (by decide) blank blank' hin⟩
      | @array e' es' each' =>
          have hin : w ++ Ascii.rbracket :: r = e'.bytes ++
              (moreElements Ascii.rbracket (es'.map Item.bytes) ++ r') := by simpa using heq
          exact (not_closing_item (each' e' List.mem_cons_self) blank hin).elim
      | _ => exact absurd hk (by simp [Tree.kind])
  | @array e es each ih =>
      intro t' tree' r r' h' heq hr hr'
      have hk := kind_unique (.array each) h' heq
      cases h' with
      | @emptyArray w' blank' =>
          have hin : w' ++ Ascii.rbracket :: r' = e.bytes ++
              (moreElements Ascii.rbracket (es.map Item.bytes) ++ r) := by simpa using heq.symm
          exact (not_closing_item (each e List.mem_cons_self) blank' hin).elim
      | @array e' es' each' =>
          have hin : e.bytes ++ (moreElements Ascii.rbracket (es.map Item.bytes) ++ r) =
              e'.bytes ++ (moreElements Ascii.rbracket (es'.map Item.bytes) ++ r') := by
            simpa using heq
          have hone : ∀ x ∈ e :: es, ∀ (x' : Item) (s s' : Bytes), Spells x'.text x'.tree →
              Ends s → Ends s' → x.bytes ++ s = x'.bytes ++ s' → x.tree = x'.tree ∧ skipWs s = skipWs s' :=
            fun x hx x' s s' hx' hs hs' h => Item.unique (ih x hx) (each x hx) hx' hs hs' h
          obtain ⟨htrees, hrest⟩ := elements_unique (by decide) (by decide) (by decide) hone each' hin
          exact ⟨by rw [htrees], hrest⟩
      | _ => exact absurd hk (by simp [Tree.kind])
  | @emptyObject w blank =>
      intro t' tree' r r' h' heq hr hr'
      have hk := kind_unique (.emptyObject blank) h' heq
      cases h' with
      | @emptyObject w' blank' =>
          have hin : w ++ Ascii.rbrace :: r = w' ++ Ascii.rbrace :: r' := by simpa using heq
          exact ⟨rfl, blank_unique (by decide) blank blank' hin⟩
      | @object m' ms' each' =>
          have hin : w ++ Ascii.rbrace :: r = m'.bytes ++
              (moreElements Ascii.rbrace (ms'.map Member.bytes) ++ r') := by simpa using heq
          exact (not_closing_member blank hin).elim
      | _ => exact absurd hk (by simp [Tree.kind])
  | @object m ms each ih =>
      intro t' tree' r r' h' heq hr hr'
      have hk := kind_unique (.object each) h' heq
      cases h' with
      | @emptyObject w' blank' =>
          have hin : w' ++ Ascii.rbrace :: r' = m.bytes ++
              (moreElements Ascii.rbrace (ms.map Member.bytes) ++ r) := by simpa using heq.symm
          exact (not_closing_member blank' hin).elim
      | @object m' ms' each' =>
          have hin : m.bytes ++ (moreElements Ascii.rbrace (ms.map Member.bytes) ++ r) =
              m'.bytes ++ (moreElements Ascii.rbrace (ms'.map Member.bytes) ++ r') := by
            simpa using heq
          have hone : ∀ x ∈ m :: ms, ∀ (x' : Member) (s s' : Bytes), Spells x'.item.text x'.item.tree →
              Ends s → Ends s' → x.bytes ++ s = x'.bytes ++ s' → x.tree = x'.tree ∧ skipWs s = skipWs s' :=
            fun x hx x' s s' hx' hs hs' h => Member.unique (ih x hx) (each x hx) hx' hs hs' h
          obtain ⟨htrees, hrest⟩ := elements_unique (by decide) (by decide) (by decide) hone each' hin
          exact ⟨by rw [htrees], hrest⟩
      | _ => exact absurd hk (by simp [Tree.kind])

/-- The grammar is unambiguous. -/
theorem JsonText.unique {text : Bytes} {tree tree' : Tree} (h : JsonText text tree)
    (h' : JsonText text tree') : tree = tree' := by
  obtain ⟨w, t, z, hw, hz, rfl, ht⟩ := h
  obtain ⟨w', t', z', hw', hz', heq, ht'⟩ := h'
  have hends : ∀ z : Bytes, Blank z → Ends z := fun z hz => by
    have := ends_blank hz ends_nil
    rwa [List.append_nil] at this
  obtain ⟨c, u, rfl, hc, _⟩ := ht.head
  obtain ⟨c', u', rfl, hc', _⟩ := ht'.head
  have hskip := congrArg skipWs heq
  rw [List.cons_append, List.cons_append, skipWs_blank hw hc, skipWs_blank hw' hc'] at hskip
  exact (ht.unambiguous _ _ _ _ ht' hskip (hends z hz) (hends z' hz')).1

end OpenBambu.Json
