import OpenBambu.Json.Rfc8259

/-!
# Objects written member by member

A writer that knows its keys puts them into the text as they are, with white space of its own between
the parts and any JSON text as a value. What `parse` returns of such an object depends on neither the
order of the members nor the white space.
-/

namespace OpenBambu.Json

open OpenBambu.Foundation

/-! ## Texts that are read as a value -/

/-- The text is read as the value wherever a value ends. -/
def ReadsAs (t : Bytes) (v : Value) : Prop := ∀ rest, Ends rest → Reads .value (t ++ rest) v rest

theorem ReadsAs.parse {t : Bytes} {v : Value} (h : ReadsAs t v) {w w' : Bytes} (hw : Blank w)
    (hw' : Blank w') : parse (w ++ (t ++ w')) = .ok v := by
  have hends : Ends w' := by
    have hblank := ends_blank hw' ends_nil
    rwa [List.append_nil] at hblank
  refine parse_ok_iff.mpr ⟨w', (h w' hends).value_behind ?_, List.dropWhile_eq_nil_iff.mpr hw'⟩
  rw [skipWs_skipWs, skipWs_append hw]

theorem readsAs_escape (s : Bytes) : ReadsAs (escape s) (.string s) := by
  intro rest _
  rw [escape_append]
  exact .string rfl (readsString_escape s rest)

theorem readsAs_integer {n : Int} (h : Exact n) : ReadsAs (signed n) (.number n) := fun _ hrest =>
  reads_signed h hrest.delimited

theorem Spells.readsAs {t : Bytes} {tree : Tree} (h : Spells t tree) {v : Value}
    (hv : tree.value Numeral.stod = some v) : ReadsAs t v := fun rest hrest => h.reads v hv rest hrest

/-! ## White space around a text -/

theorem ReadsAs.parse_self {t : Bytes} {v : Value} (h : ReadsAs t v) : Json.parse t = .ok v := by
  have hnil : Blank [] := by simp [Blank]
  have hparse := h.parse hnil hnil
  rwa [List.nil_append, List.append_nil] at hparse

/-- A text that `parse` accepts is read with nothing but white space left. -/
theorem parse_reads {t : Bytes} {v : Value} (h : parse t = .ok v) {rest : Bytes} (hrest : Ends rest) :
    ∃ w, Blank w ∧ Reads .value (t ++ rest) v (w ++ rest) := by
  obtain ⟨tree, ⟨w, u, w', hw, hw', rfl, hspells⟩, hv⟩ := parse_iff_text.mp h
  refine ⟨w', hw', (hspells.reads v hv (w' ++ rest) (ends_blank hw' hrest)).value_behind ?_⟩
  rw [List.append_assoc, List.append_assoc, skipWs_append hw]

theorem moreElements_last (closing : Byte) (es : List Bytes) : (moreElements closing es).getLast? = some closing := by
  induction es with
  | nil => rfl
  | cons e es ih => rw [moreElements, List.getLast?_cons, List.getLast?_append, ih]; rfl

theorem Numeral.text_bytes (n : Numeral) : ∀ c ∈ n.text, isWs c = false := by
  have hdigit : ∀ ds : Bytes, (∀ c ∈ ds, isDigit c = true) → ∀ c ∈ ds, isWs c = false := by
    intro ds hds c hc
    have hall : ∀ c : Byte, isDigit c = true → isWs c = false := forall_byte (by decide +kernel)
    exact hall c (hds c hc)
  have hexp : ∀ e : Exponent, ∀ c ∈ e.text, isWs c = false := by
    intro e c hc
    rw [Exponent.text, List.mem_cons, List.mem_append, Option.mem_toList] at hc
    rcases hc with rfl | hc | hc
    · rcases e.letter_ok with h | h <;> rw [h] <;> decide
    · rcases e.sign_ok c hc with rfl | rfl <;> decide
    · exact hdigit e.digits e.digits_ok c hc
  have hunsigned : ∀ c ∈ n.unsigned, isWs c = false := by
    intro c hc
    rw [Numeral.unsigned, List.mem_append, List.mem_append] at hc
    rcases hc with hc | hc | hc
    · exact hdigit n.int n.int_ok c hc
    · cases hfrac : n.frac with
      | none => rw [Numeral.fracText, hfrac] at hc; cases hc
      | some ds =>
          rw [Numeral.fracText, hfrac] at hc
          rcases List.mem_cons.mp hc with rfl | hc
          · decide
          · exact hdigit ds (n.frac_ok ds hfrac) c hc
    · cases hcase : n.exp with
      | none => rw [Numeral.expText, hcase] at hc; cases hc
      | some e => rw [Numeral.expText, hcase] at hc; exact hexp e c hc
  intro c hc
  rw [Numeral.text] at hc
  split_ifs at hc
  · rcases List.mem_cons.mp hc with rfl | hc
    · decide
    · exact hunsigned c hc
  · exact hunsigned c hc

/-- The text of a value ends with a byte that is no white space. -/
theorem Spells.last {t : Bytes} {tree : Tree} (h : Spells t tree) : ∀ c ∈ t.getLast?, isWs c = false := by
  have hclose : ∀ {w u : Bytes} {b c : Byte}, u.getLast? = some b → isWs b = false →
      c ∈ (w ++ u).getLast? → isWs c = false := by
    intro w u b c hu hb hc
    rw [List.getLast?_append, hu, Option.some_or] at hc
    exact Option.some.inj hc ▸ hb
  intro c hc
  cases h with
  | null => revert c; decide +kernel
  | trueLit => revert c; decide +kernel
  | falseLit => revert c; decide +kernel
  | number n => exact n.text_bytes c (List.mem_of_mem_getLast? hc)
  | string => exact hclose (w := Ascii.quote :: _) List.getLast?_singleton (by decide) hc
  | emptyArray => exact hclose (w := Ascii.lbracket :: _) List.getLast?_singleton (by decide) hc
  | array => exact hclose (w := Ascii.lbracket :: _) (moreElements_last _ _) (by decide) hc
  | emptyObject => exact hclose (w := Ascii.lbrace :: _) List.getLast?_singleton (by decide) hc
  | object => exact hclose (w := Ascii.lbrace :: _) (moreElements_last _ _) (by decide) hc

/-- The value of an array only is an array. -/
theorem Tree.value_array {f : Numeral → Option Double} {tree : Tree} {vs : List Value}
    (h : tree.value f = some (.array vs)) : ∃ ts, tree = .array ts := by
  cases tree with
  | null | bool b | string s =>
      rw [Tree.value] at h
      cases h
  | number n =>
      rw [Tree.value] at h
      obtain ⟨d, -, heq⟩ := Option.map_eq_some_iff.mp h
      cases heq
  | array ts => exact ⟨ts, rfl⟩
  | object o =>
      rw [Tree.value] at h
      obtain ⟨ps, -, heq⟩ := Option.map_eq_some_iff.mp h
      cases heq

theorem Spells.array_head {t : Bytes} {ts : List Tree} (h : Spells t (.array ts)) :
    t.head? = some Ascii.lbracket := by
  cases h with
  | emptyArray => rfl
  | array => rfl

theorem rdropWhile_blank {w : Bytes} (hw : Blank w) (s : Bytes) : (s ++ w).rdropWhile isWs = s.rdropWhile isWs := by
  rw [List.rdropWhile, List.reverse_append, List.dropWhile_append_of_pos fun c hc => hw c (List.mem_reverse.mp hc),
    List.rdropWhile]

/-- Trimming leaves the text of the value. -/
theorem trim_text {w t w' : Bytes} {tree : Tree} (hw : Blank w) (hw' : Blank w') (h : Spells t tree) :
    ((w ++ (t ++ w')).dropWhile isWs).rdropWhile isWs = t := by
  obtain ⟨c, u, ht, hws, -⟩ := h.head
  have hfront : (w ++ (t ++ w')).dropWhile isWs = t ++ w' := by
    rw [List.dropWhile_append_of_pos hw, ht, List.cons_append, List.dropWhile_cons_of_neg (by simp [hws])]
  rw [hfront, rdropWhile_blank hw']
  exact List.rdropWhile_eq_self_iff.mpr fun hne => by simp [h.last _ (List.getLast?_eq_some_getLast hne)]

/-- `parse` does not see whether a text is trimmed. -/
theorem parse_trim (s : Bytes) (v : Value) :
    parse ((s.dropWhile isWs).rdropWhile isWs) = .ok v ↔ parse s = .ok v := by
  rw [parse_iff_text, parse_iff_text]
  constructor
  · rintro ⟨tree, ⟨w, t, w', hw, hw', heq, ht⟩, hv⟩
    have hs : s.takeWhile isWs ++ ((s.dropWhile isWs).rdropWhile isWs ++ (s.dropWhile isWs).rtakeWhile isWs) = s := by
      rw [List.rdropWhile_append_rtakeWhile, List.takeWhile_append_dropWhile]
    have hfront : Blank (s.takeWhile isWs) := fun b hb => List.mem_takeWhile_imp hb
    have hback : Blank ((s.dropWhile isWs).rtakeWhile isWs) := fun b hb => List.mem_rtakeWhile_imp hb
    rw [heq] at hs
    exact ⟨tree, ⟨_, t, _, blank_append hfront hw, blank_append hw' hback, by simpa using hs.symm, ht⟩, hv⟩
  · rintro ⟨tree, ⟨w, t, w', hw, hw', rfl, ht⟩, hv⟩
    exact ⟨tree, ⟨[], t, [], by simp [Blank], by simp [Blank], by rw [trim_text hw hw' ht]; simp, ht⟩, hv⟩

theorem trim_blank {a b : Bytes} (ha : Blank a) (hb : Blank b) (s : Bytes) :
    ((a ++ (s ++ b)).dropWhile isWs).rdropWhile isWs = (s.dropWhile isWs).rdropWhile isWs := by
  rw [List.dropWhile_append_of_pos ha, List.dropWhile_append]
  split_ifs with hempty
  · rw [List.isEmpty_iff.mp hempty, List.dropWhile_eq_nil_iff.mpr hb]
  · exact rdropWhile_blank hb _

/-- Nor does it see white space around a text. -/
theorem parse_blank {a b : Bytes} (ha : Blank a) (hb : Blank b) (s : Bytes) (v : Value) :
    parse (a ++ (s ++ b)) = .ok v ↔ parse s = .ok v := by
  rw [← parse_trim, trim_blank ha hb, parse_trim]

/-! ## Objects -/

/-- A key that is written as it is. -/
def PlainKey (key : Bytes) : Prop := ∀ b ∈ key, b ≠ Ascii.quote ∧ b ≠ Ascii.backslash

theorem readsString_plain {key : Bytes} (h : PlainKey key) (rest : Bytes) :
    ReadsString (key ++ Ascii.quote :: rest) key rest := by
  induction key with
  | nil => exact .close
  | cons c key ih =>
      obtain ⟨hq, hb⟩ := h c List.mem_cons_self
      exact .plain hq hb (ih fun b hmem => h b (List.mem_cons_of_mem _ hmem))

theorem plainKey_of_word {key : Bytes} (h : isWord key = true) : PlainKey key := fun b hb =>
  (wordByte_apart ((isWord_iff.mp h).2 b hb)).1

/-- The white space in front of a key, behind a colon and in front of the closing brace. -/
structure Layout where
  before : Bytes
  gap : Bytes
  closing : Bytes
  before_blank : Blank before
  gap_blank : Blank gap
  closing_blank : Blank closing

/-- A text without white space between its parts. -/
def compact : Layout where
  before := []
  gap := []
  closing := []
  before_blank := by simp [Blank]
  gap_blank := by simp [Blank]
  closing_blank := by simp [Blank]

/-- A key, the text of its value, and the value. -/
structure Entry where
  key : Bytes
  text : Bytes
  value : Value

structure Entry.Good (e : Entry) : Prop where
  key : PlainKey e.key
  text : ReadsAs e.text e.value

/-- A string as a member. -/
def Entry.ofString (key s : Bytes) : Entry := ⟨key, escape s, .string s⟩

/-- The text is one `parse` accepts, with white space around it or without. -/
structure Entry.Parses (e : Entry) : Prop where
  key : PlainKey e.key
  text : Json.parse e.text = .ok e.value

theorem Entry.Good.parses {e : Entry} (h : e.Good) : e.Parses := ⟨h.key, h.text.parse_self⟩

theorem good_ofString {key : Bytes} (h : PlainKey key) (s : Bytes) : (Entry.ofString key s).Good :=
  ⟨h, readsAs_escape s⟩

/-- What the writer puts into the text. -/
def Entry.written (e : Entry) : Bytes × Bytes := (e.key, e.text)

namespace Layout

/-- A key and the text of its value. -/
def member (l : Layout) (p : Bytes × Bytes) : Bytes :=
  l.before ++ Ascii.quote :: (p.1 ++ Ascii.quote :: Ascii.colon :: (l.gap ++ p.2))

/-- The members behind the first one, and the closing brace. -/
def more (l : Layout) : List (Bytes × Bytes) → Bytes
  | [] => l.closing ++ [Ascii.rbrace]
  | p :: ps => Ascii.comma :: (l.member p ++ l.more ps)

def object (l : Layout) : List (Bytes × Bytes) → Bytes
  | [] => Ascii.lbrace :: (l.closing ++ [Ascii.rbrace])
  | p :: ps => Ascii.lbrace :: (l.member p ++ l.more ps)

theorem more_append (l : Layout) (p : Bytes × Bytes) (ps : List (Bytes × Bytes)) (rest : Bytes) :
    l.more (p :: ps) ++ rest = Ascii.comma :: (l.member p ++ (l.more ps ++ rest)) := by
  rw [more, List.cons_append, List.append_assoc]

theorem object_append (l : Layout) (p : Bytes × Bytes) (ps : List (Bytes × Bytes)) (rest : Bytes) :
    l.object (p :: ps) ++ rest = Ascii.lbrace :: (l.member p ++ (l.more ps ++ rest)) := by
  rw [object, List.cons_append, List.append_assoc]

theorem skip_member (l : Layout) (p : Bytes × Bytes) (rest : Bytes) :
    skipWs (l.member p ++ rest) =
      Ascii.quote :: (p.1 ++ Ascii.quote :: Ascii.colon :: (l.gap ++ (p.2 ++ rest))) := by
  have hassoc : l.member p ++ rest = l.before ++
      Ascii.quote :: (p.1 ++ Ascii.quote :: Ascii.colon :: (l.gap ++ (p.2 ++ rest))) := by
    simp [member]
  rw [hassoc, skipWs_blank l.before_blank (by decide)]

theorem more_ends (l : Layout) (ps : List (Bytes × Bytes)) (rest : Bytes) : Ends (l.more ps ++ rest) := by
  cases ps with
  | nil =>
      rw [more, List.append_assoc]
      exact ends_blank l.closing_blank (ends_cons (by decide) _)
  | cons p ps => exact ends_cons (by decide) _

theorem reads_value (l : Layout) {e : Entry} (he : e.Parses) (ps : List (Bytes × Bytes)) (rest : Bytes) :
    ∃ w, Blank w ∧
      Reads .value (l.gap ++ (e.text ++ (l.more ps ++ rest))) e.value (w ++ (l.more ps ++ rest)) := by
  obtain ⟨w, hw, hread⟩ := parse_reads he.text (l.more_ends ps rest)
  exact ⟨w, hw, hread.value_behind (skipWs_append l.gap_blank _)⟩

/-- The members are added to the object read so far, each unless its key is there already. -/
theorem reads_members (l : Layout) {e : Entry} {es : List Entry} (h : ∀ x ∈ e :: es, x.Parses) (o : Object)
    (rest : Bytes) :
    Reads (.members o) (l.member e.written ++ (l.more (es.map Entry.written) ++ rest))
      (.object ((e :: es).foldl (fun o x => emplace o x.key x.value) o)) rest := by
  have hstring := fun (e : Entry) (he : e.Parses) (rest : Bytes) => readsString_plain he.key rest
  induction es generalizing e o with
  | nil =>
      have he := h e List.mem_cons_self
      obtain ⟨w, hw, hvalue⟩ := l.reads_value he [] rest
      refine .lastMember (l.skip_member e.written _) (hstring e he _) rfl hvalue ?_
      rw [more, List.append_assoc, ← List.append_assoc]
      exact skipWs_blank (blank_append hw l.closing_blank) (by decide) _
  | cons x es ih =>
      have he := h e List.mem_cons_self
      have hmore := ih (fun y hy => h y (List.mem_cons_of_mem _ hy)) (emplace o e.key e.value)
      obtain ⟨w, hw, hvalue⟩ := l.reads_value he ((x :: es).map Entry.written) rest
      refine .member (l.skip_member e.written _) (hstring e he _) rfl hvalue ?_ hmore
      rw [List.map_cons, more_append]
      exact skipWs_blank hw (by decide) _

/-- What is read of an object is its members; of members with one key the first counts. -/
theorem readsAs_parsed (l : Layout) {es : List Entry} (h : ∀ x ∈ es, x.Parses) :
    ReadsAs (l.object (es.map Entry.written))
      (.object (ofMembers (es.map fun e => (e.key, e.value)))) := by
  intro rest _
  cases es with
  | nil =>
      rw [List.map_nil, object, List.cons_append, List.append_assoc]
      exact .emptyObject rfl (skipWs_blank l.closing_blank (by decide) _)
  | cons e es =>
      have hmembers := l.reads_members h [] rest
      rw [ofMembers, List.foldl_map, List.map_cons, object_append]
      refine .object rfl ?_ (hmembers.members_behind (skipWs_skipWs _))
      rw [l.skip_member e.written, List.head?_cons]
      decide

theorem readsAs (l : Layout) {es : List Entry} (h : ∀ x ∈ es, x.Good) :
    ReadsAs (l.object (es.map Entry.written)) (.object (ofMembers (es.map fun e => (e.key, e.value)))) :=
  l.readsAs_parsed fun x hx => (h x hx).parses

/-- An object from its members as they are written and as they are read. -/
theorem readsAs_members (l : Layout) {ps : List (Bytes × Bytes)} {qs : List (Bytes × Value)}
    (hkeys : ∀ p ∈ ps, PlainKey p.1)
    (h : List.Forall₂ (fun p q => p.1 = q.1 ∧ Json.parse p.2 = .ok q.2) ps qs) :
    ReadsAs (l.object ps) (.object (ofMembers qs)) := by
  obtain ⟨es, rfl, rfl, hparses⟩ : ∃ es : List Entry, es.map Entry.written = ps ∧
      (es.map fun e => (e.key, e.value)) = qs ∧ ∀ e ∈ es, e.Parses := by
    induction h with
    | nil => exact ⟨[], rfl, rfl, nofun⟩
    | @cons p q ps qs hpq _ ih =>
        obtain ⟨hplain, hrest⟩ := List.forall_mem_cons.mp hkeys
        obtain ⟨es, rfl, rfl, hparses⟩ := ih hrest
        obtain ⟨hkey, hparse⟩ := hpq
        refine ⟨⟨p.1, p.2, q.2⟩ :: es, rfl, ?_, List.forall_mem_cons.mpr ⟨⟨hplain, hparse⟩, hparses⟩⟩
        rw [List.map_cons, hkey]
  exact l.readsAs_parsed hparses

/-- An object of one member. -/
theorem readsAs_one (l : Layout) {key t : Bytes} {v : Value} (hkey : PlainKey key) (h : ReadsAs t v) :
    ReadsAs (l.object [(key, t)]) (.object (ofMembers [(key, v)])) := by
  have hgood : ∀ e ∈ [(⟨key, t, v⟩ : Entry)], e.Good := List.forall_mem_singleton.mpr ⟨hkey, h⟩
  exact l.readsAs hgood

/-- An object is read when the texts of its values are. -/
theorem readsAs_object (l : Layout) {ps : List (Bytes × Bytes)}
    (h : ∀ p ∈ ps, PlainKey p.1 ∧ ∃ v, ReadsAs p.2 v) : ∃ v, ReadsAs (l.object ps) v := by
  obtain ⟨es, hes, hgood⟩ : ∃ es : List Entry, es.map Entry.written = ps ∧ ∀ e ∈ es, e.Good := by
    induction ps with
    | nil => exact ⟨[], rfl, nofun⟩
    | cons p ps ih =>
        obtain ⟨es, rfl, hgood⟩ := ih fun q hq => h q (List.mem_cons_of_mem _ hq)
        obtain ⟨hkey, v, hv⟩ := h p List.mem_cons_self
        exact ⟨⟨p.1, p.2, v⟩ :: es, rfl, List.forall_mem_cons.mpr ⟨⟨hkey, hv⟩, hgood⟩⟩
  exact ⟨_, hes ▸ l.readsAs hgood⟩

/-- An object of strings. -/
theorem readsAs_strings (l : Layout) {ps : List (Bytes × Bytes)} (h : ∀ p ∈ ps, PlainKey p.1) :
    ReadsAs (l.object (ps.map fun p => (p.1, escape p.2)))
      (.object (ofMembers (ps.map fun p => (p.1, .string p.2)))) := by
  have hgood : ∀ e ∈ ps.map (fun p => Entry.ofString p.1 p.2), e.Good := by
    intro e he
    obtain ⟨p, hp, rfl⟩ := List.mem_map.mp he
    exact good_ofString (h p hp) p.2
  have hread := l.readsAs hgood
  rwa [List.map_map, List.map_map] at hread

end Layout

theorem Writable.readsAs {v : Value} (h : Writable v) : ReadsAs v.dump v := fun rest hrest =>
  reads_dump h rest hrest.delimited

/-! ## Arrays -/

/-- The texts of the elements, with nothing but commas in between. -/
def arrayText : List Bytes → Bytes
  | [] => [Ascii.lbracket, Ascii.rbracket]
  | t :: ts => Ascii.lbracket :: (t ++ (ts.flatMap (Ascii.comma :: ·) ++ [Ascii.rbracket]))

theorem reads_elements {e : Bytes × Value} {es : List (Bytes × Value)} (h : ∀ x ∈ e :: es, parse x.1 = .ok x.2)
    (acc : List Value) (rest : Bytes) :
    Reads (.items acc) (e.1 ++ ((es.map Prod.fst).flatMap (Ascii.comma :: ·) ++ Ascii.rbracket :: rest))
      (.array (acc ++ e.2 :: es.map Prod.snd)) rest := by
  induction es generalizing e acc with
  | nil =>
      obtain ⟨w, hw, hread⟩ := parse_reads (h e List.mem_cons_self)
        (ends_cons (show Ascii.rbracket ∈ delimiters by decide) rest)
      exact .lastItem hread (skipWs_blank hw (by decide) _)
  | cons x es ih =>
      have hmore := ih (fun y hy => h y (List.mem_cons_of_mem _ hy)) (acc ++ [e.2])
      rw [List.append_assoc, List.singleton_append] at hmore
      rw [List.map_cons, List.flatMap_cons, List.append_assoc, List.cons_append]
      obtain ⟨w, hw, hread⟩ := parse_reads (h e List.mem_cons_self)
        (ends_cons (show Ascii.comma ∈ delimiters by decide) _)
      exact .item hread (skipWs_blank hw (by decide) _) hmore

/-- An array of texts that `parse` accepts. -/
theorem readsAs_parsedArray {es : List (Bytes × Value)} (h : ∀ e ∈ es, parse e.1 = .ok e.2) :
    ReadsAs (arrayText (es.map Prod.fst)) (.array (es.map Prod.snd)) := by
  intro rest _
  cases es with
  | nil => exact .emptyArray rfl rfl
  | cons e es =>
      have hitems := reads_elements h [] rest
      have hends : Ends ((es.map Prod.fst).flatMap (Ascii.comma :: ·) ++ Ascii.rbracket :: rest) := by
        cases es with
        | nil => exact ends_cons (by decide) _
        | cons x es => exact ends_cons (by decide) _
      obtain ⟨w, hw, hread⟩ := parse_reads (h e List.mem_cons_self) hends
      rw [List.map_cons, arrayText, List.cons_append, List.append_assoc, List.append_assoc]
      exact .array rfl hread.value_head (hitems.items_behind (skipWs_skipWs _))

theorem readsAs_array {es : List (Bytes × Value)} (h : ∀ e ∈ es, ReadsAs e.1 e.2) :
    ReadsAs (arrayText (es.map Prod.fst)) (.array (es.map Prod.snd)) :=
  readsAs_parsedArray fun e he => (h e he).parse_self

theorem readsAs_single {t : Bytes} {v : Value} (h : ReadsAs t v) : ReadsAs (arrayText [t]) (.array [v]) :=
  readsAs_array (List.forall_mem_singleton.mpr h : ∀ e ∈ [(t, v)], ReadsAs e.1 e.2)

/-! ## Whatever stands behind the members -/

/-- The members an object has read stay in it. -/
theorem Reads.members_keep {o : Object} (ho : Sorted o) {s rest : Bytes} {x : Value}
    (h : Reads (.members o) s x rest) :
    ∃ w, x = .object w ∧ ∀ k v, lookup o k = some v → lookup w k = some v := by
  obtain ⟨w, rfl, -, hsorted, hassign⟩ := h.members_assign
  refine ⟨w, rfl, fun k v hk => ?_⟩
  have hread := hassign k v
  rw [(assign_eq_self_iff ho k v).mpr hk] at hread
  have hsame : Value.object (assign w k v) = .object w := (hread.unique h).1
  exact (assign_eq_self_iff (hsorted ho) k v).mp (Value.object.inj hsame)

namespace Layout

variable (l : Layout)

/-- The text between the braces of an object with members, and the closing brace. -/
def inner : List (Bytes × Bytes) → Bytes
  | [] => []
  | p :: ps => l.member p ++ l.more ps

theorem inner_append (p : Bytes × Bytes) {ps : List (Bytes × Bytes)} (hps : ps ≠ []) (rest : Bytes) :
    l.inner (p :: ps) ++ rest = l.member p ++ Ascii.comma :: (l.inner ps ++ rest) := by
  obtain ⟨q, qs, rfl⟩ := List.exists_cons_of_ne_nil hps
  rw [inner, List.append_assoc, more_append, inner, List.append_assoc]

/-- What is read of an object is what is read of its members. -/
theorem reads_inner {ps : List (Bytes × Bytes)} (hps : ps ≠ []) {s rest : Bytes} {v : Value}
    (h : Reads .value (l.object ps ++ s) v rest) : Reads (.members []) (l.inner ps ++ s) v rest := by
  obtain ⟨p, ps, rfl⟩ := List.exists_cons_of_ne_nil hps
  rw [object_append] at h
  rw [inner, List.append_assoc]
  generalize l.more ps ++ s = s at h ⊢
  have hskip := l.skip_member p s
  have htail {t : Bytes} {c : Byte} (h : skipWs (Ascii.lbrace :: (l.member p ++ s)) = c :: t) :
      c = Ascii.lbrace ∧ t = l.member p ++ s := by
    obtain ⟨rfl, rfl⟩ := List.cons.inj h
    exact ⟨rfl, rfl⟩
  cases h with
  | object start _ inner =>
      obtain ⟨-, rfl⟩ := htail start
      exact inner.members_behind (skipWs_skipWs _).symm
  | emptyObject start stop =>
      obtain ⟨-, rfl⟩ := htail start
      rw [hskip] at stop
      exact absurd (List.cons.inj stop).1 (by decide)
  | string start => exact absurd (htail start).1 (by decide)
  | emptyArray start => exact absurd (htail start).1 (by decide)
  | array start => exact absurd (htail start).1 (by decide)
  | scalar start _ hne => exact absurd (htail start).1 hne

/-- A member with a plain key is read with the value its text begins with. -/
theorem reads_member {o : Object} {p : Bytes × Bytes} (hkey : PlainKey p.1) {s rest : Bytes} {x : Value}
    (h : Reads (.members o) (l.member p ++ s) x rest) :
    ∃ v r, Reads .value (l.gap ++ (p.2 ++ s)) v r ∧
      ((∃ t, skipWs r = Ascii.comma :: t ∧ Reads (.members (emplace o p.1 v)) t x rest) ∨
        (skipWs r = Ascii.rbrace :: rest ∧ x = .object (emplace o p.1 v))) := by
  have hskip := l.skip_member p s
  have hplain := readsString_plain hkey (Ascii.colon :: (l.gap ++ (p.2 ++ s)))
  cases h with
  | member start text colon inner comma more =>
      obtain ⟨-, rfl⟩ := List.cons.inj (hskip.symm.trans start)
      obtain ⟨rfl, rfl⟩ := text.unique hplain
      obtain ⟨-, rfl⟩ := List.cons.inj colon
      exact ⟨_, _, inner, Or.inl ⟨_, comma, more⟩⟩
  | lastMember start text colon inner stop =>
      obtain ⟨-, rfl⟩ := List.cons.inj (hskip.symm.trans start)
      obtain ⟨rfl, rfl⟩ := text.unique hplain
      obtain ⟨-, rfl⟩ := List.cons.inj colon
      exact ⟨_, _, inner, Or.inr ⟨stop, rfl⟩⟩

/-- The strings in front of other members, whose texts need not be JSON. -/
theorem reads_strings {ps qs : List (Bytes × Bytes)} (hplain : ∀ p ∈ ps, PlainKey p.1) (hqs : qs ≠ [])
    {o : Object} {s rest : Bytes} {x : Value}
    (h : Reads (.members o) (l.inner (ps.map (fun p => (p.1, escape p.2)) ++ qs) ++ s) x rest) :
    Reads (.members (ps.foldl (fun o p => emplace o p.1 (.string p.2)) o)) (l.inner qs ++ s) x rest := by
  induction ps generalizing o with
  | nil => exact h
  | cons p ps ih =>
      have hmore : ps.map (fun p => (p.1, escape p.2)) ++ qs ≠ [] := List.append_ne_nil_of_right_ne_nil _ hqs
      rw [List.map_cons, List.cons_append, l.inner_append _ hmore] at h
      obtain ⟨v, r, hvalue, hnext⟩ := l.reads_member (p := (p.1, escape p.2)) (hplain p List.mem_cons_self) h
      obtain ⟨rfl, rfl⟩ := hvalue.unique
        ((readsAs_escape p.2 _ (ends_cons (by decide) _)).value_behind (skipWs_append l.gap_blank _))
      rw [List.foldl_cons]
      rcases hnext with ⟨t, hcomma, hread⟩ | ⟨hstop, -⟩
      · obtain ⟨-, rfl⟩ := List.cons.inj hcomma
        exact ih (fun q hq => hplain q (List.mem_cons_of_mem _ hq)) hread
      · exact absurd (List.cons.inj hstop).1 (by decide)

/-- The first member of an object is read from its text, and found under its key. -/
theorem reads_first {p : Bytes × Bytes} (hkey : PlainKey p.1) {ps : List (Bytes × Bytes)} {s rest : Bytes}
    {x : Value} (h : Reads .value (l.object (p :: ps) ++ s) x rest) :
    ∃ w v r, x = .object w ∧ lookup w p.1 = some v ∧
      Reads .value (l.gap ++ (p.2 ++ (l.more ps ++ s))) v r := by
  have hinner := l.reads_inner (List.cons_ne_nil p ps) h
  rw [inner, List.append_assoc] at hinner
  obtain ⟨v, r, hvalue, ⟨t, -, hmore⟩ | ⟨-, rfl⟩⟩ := l.reads_member hkey hinner
  · obtain ⟨w, rfl, hkeep⟩ := hmore.members_keep (sorted_emplace List.Pairwise.nil p.1 v)
    exact ⟨w, v, r, rfl, hkeep p.1 v (by rw [emplace, lookup_cons, if_pos rfl]), hvalue⟩
  · exact ⟨_, v, r, rfl, by rw [emplace, lookup_cons, if_pos rfl], hvalue⟩

/-- The strings an object begins with are found under their keys, whatever stands behind them. -/
theorem reads_front {ps qs : List (Bytes × Bytes)} (hplain : ∀ p ∈ ps, PlainKey p.1) (hqs : qs ≠ [])
    {s rest : Bytes} {x : Value}
    (h : Reads .value (l.object (ps.map (fun p => (p.1, escape p.2)) ++ qs) ++ s) x rest) :
    ∃ w, x = .object w ∧
      ∀ k v, lookup (ps.map fun p => (p.1, .string p.2)) k = some v → lookup w k = some v := by
  have hread := l.reads_strings hplain hqs (l.reads_inner (List.append_ne_nil_of_right_ne_nil _ hqs) h)
  have hfold : ps.foldl (fun o p => emplace o p.1 (.string p.2)) [] =
      ofMembers (ps.map fun p => (p.1, .string p.2)) := by
    rw [ofMembers, List.foldl_map]
  rw [hfold] at hread
  obtain ⟨hsorted, -⟩ := lookup_ofMembers (ps.map fun p => (p.1, Value.string p.2)) []
  obtain ⟨w, rfl, hkeep⟩ := hread.members_keep hsorted
  refine ⟨w, rfl, fun k v hk => hkeep k v ?_⟩
  rwa [(lookup_ofMembers _ k).2]

end Layout

theorem lookup_of_mem {ps : List (Bytes × Value)} (h : (ps.map Prod.fst).Nodup) {p : Bytes × Value}
    (hp : p ∈ ps) : lookup ps p.1 = some p.2 := by
  induction ps with
  | nil => cases hp
  | cons q ps ih =>
      obtain ⟨hq, hrest⟩ := List.nodup_cons.mp h
      rw [lookup_cons]
      rcases List.mem_cons.mp hp with rfl | hp
      · rw [if_pos rfl]
      · rw [if_neg, ih hrest hp]
        intro heq
        exact hq (heq ▸ List.mem_map_of_mem hp)

/-- A member of such an object is found under its key. -/
theorem find_ofMembers {key : Bytes} (h : isWord key = true) (ps : List (Bytes × Value)) :
    (Value.object (ofMembers ps)).find key = (lookup ps key).getD .null := by
  rw [find_word h, Value.asObject, (lookup_ofMembers ps key).2]

/-! ## What is read is in order -/

/-- The members of every object stand in the order of their keys, each key once. -/
inductive Ordered : Value → Prop
  | null : Ordered .null
  | bool {b : Bool} : Ordered (.bool b)
  | number {d : Double} : Ordered (.number d)
  | string {s : Bytes} : Ordered (.string s)
  | array {a : List Value} (each : ∀ v ∈ a, Ordered v) : Ordered (.array a)
  | object {o : Object} (sorted : Sorted o) (each : ∀ p ∈ o, Ordered p.2) : Ordered (.object o)

theorem ordered_emplace {o : Object} (h : Ordered (.object o)) (k : Bytes) {v : Value} (hv : Ordered v) :
    Ordered (.object (emplace o k v)) := by
  cases h with
  | object sorted each =>
      refine .object (sorted_emplace sorted k v) ?_
      intro p hp
      rcases mem_emplace hp with rfl | hp
      · exact hv
      · exact each p hp

theorem ordered_assign {o : Object} (h : Ordered (.object o)) (k : Bytes) {v : Value} (hv : Ordered v) :
    Ordered (.object (assign o k v)) := by
  cases h with
  | object sorted each =>
      refine .object (sorted_assign sorted k v) ?_
      intro p hp
      rcases mem_assign hp with rfl | hp
      · exact hv
      · exact each p hp

theorem ordered_append {a : List Value} (h : Ordered (.array a)) {v : Value} (hv : Ordered v) :
    Ordered (.array (a ++ [v])) := by
  cases h with
  | array each =>
      refine .array ?_
      intro w hw
      rcases List.mem_append.mp hw with hw | hw
      · exact each w hw
      · exact List.mem_singleton.mp hw ▸ hv

/-- What a loop has read so far is in order. -/
def Mode.Ordered : Mode → Prop
  | .value => True
  | .members o => Json.Ordered (.object o)
  | .items a => Json.Ordered (.array a)

theorem ordered_scalar {c : Byte} {s rest : Bytes} {v : Value} (h : parseScalar c s = .ok (v, rest)) :
    Ordered v := by
  unfold parseScalar at h
  split_ifs at h
  · split at h
    · obtain ⟨rfl, -⟩ := Prod.mk.inj (Except.ok.inj h)
      exact .bool
    · cases h
  · split at h
    · obtain ⟨rfl, -⟩ := Prod.mk.inj (Except.ok.inj h)
      exact .bool
    · cases h
  · split at h
    · obtain ⟨rfl, -⟩ := Prod.mk.inj (Except.ok.inj h)
      exact .null
    · cases h
  · split at h
    · cases h
    · obtain ⟨rfl, -⟩ := Prod.mk.inj (Except.ok.inj h)
      exact .number

theorem Reads.ordered {mode : Mode} {s rest : Bytes} {v : Value} (h : Reads mode s v rest) :
    mode.Ordered → Ordered v := by
  induction h with
  | string => exact fun _ => .string
  | emptyObject => exact fun _ => .object List.Pairwise.nil (by simp)
  | object _ _ _ ih => exact fun _ => ih (.object List.Pairwise.nil (by simp))
  | emptyArray => exact fun _ => .array (by simp)
  | array _ _ _ ih => exact fun _ => ih (.array (by simp))
  | scalar _ _ _ _ text => exact fun _ => ordered_scalar text
  | member _ _ _ _ _ _ ih ih' => exact fun ho => ih' (ordered_emplace ho _ (ih trivial))
  | lastMember _ _ _ _ _ ih => exact fun ho => ordered_emplace ho _ (ih trivial)
  | item _ _ _ ih ih' => exact fun ha => ih' (ordered_append ha (ih trivial))
  | lastItem _ _ ih => exact fun ha => ordered_append ha (ih trivial)

theorem parse_ordered {text : Bytes} {v : Value} (h : parse text = .ok v) : Ordered v := by
  obtain ⟨rest, hread, -⟩ := parse_ok_iff.mp h
  exact hread.ordered trivial

theorem mem_of_lookup {o : Object} {k : Bytes} {v : Value} (h : lookup o k = some v) : (k, v) ∈ o := by
  induction o with
  | nil => cases h
  | cons q o ih =>
      rw [lookup_cons] at h
      split_ifs at h with hk
      · obtain rfl := Option.some.inj h
        exact hk ▸ List.mem_cons_self
      · exact List.mem_cons_of_mem _ (ih h)

/-- A member of a value in order is in order. -/
theorem Ordered.find {v : Value} (h : Ordered v) {key : Bytes} (hkey : isWord key = true) :
    Ordered (v.find key) := by
  rw [find_word hkey]
  cases hlook : lookup v.asObject key with
  | none => exact .null
  | some w =>
      cases h with
      | object _ each => exact each _ (mem_of_lookup hlook)
      | _ => cases hlook

theorem Sorted.nodup {o : Object} (h : Sorted o) : (o.map Prod.fst).Nodup := by
  refine List.Pairwise.map _ ?_ h
  intro a b hlt heq
  exact List.lt_irrefl b.1 (heq ▸ hlt)

/-- An ordered object has each key once. -/
theorem Ordered.keys_nodup {v : Value} (h : Ordered v) : (v.asObject.map Prod.fst).Nodup := by
  cases h with
  | object sorted _ => exact sorted.nodup
  | _ => exact List.nodup_nil

end OpenBambu.Json
