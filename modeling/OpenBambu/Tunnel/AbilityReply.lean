import OpenBambu.Tunnel.Envelope
import OpenBambu.Tunnel.WireResult

/-!
# The storages of an ability reply

`parse_ability_reply_to_ft_json` writes the storages of a reply as a JSON array of its own. It escapes
quotes and nothing else, and the parser takes every other byte of a string as it is but the backslash.
So a storage whose name has a backslash comes back as another one, or not at all.
-/

namespace OpenBambu.Tunnel

open OpenBambu.Foundation OpenBambu.Json

/-- A reply whose first nonempty storage array, under the recognised keys, is these strings. -/
def ListsStorages (wireJson : Bytes) (storages : List Bytes) : Prop :=
  ∃ root, parse wireJson = .ok root ∧ (root.find (ascii "reply")).isObject = true ∧
    pickStorages (root.find (ascii "reply")) = storages.map .string

/-- What the file transfer is given is an array of these strings. -/
def PassesOn (wireJson : Bytes) (storages : List Bytes) : Prop :=
  parse (parseAbilityReplyToFtJson wireJson) = .ok (.array (storages.map .string))

/-! ## One storage -/

/-- A storage between its quotes. -/
def quoteBody (s : Bytes) : Bytes :=
  s.flatMap fun c => if c = Ascii.quote then [Ascii.backslash, Ascii.quote] else [c]

theorem quoteStorage_append (s rest : Bytes) :
    quoteStorage s ++ rest = Ascii.quote :: (quoteBody s ++ Ascii.quote :: rest) := by
  simp [quoteStorage, quoteBody]

theorem quoteBody_cons {c : Byte} (h : c ≠ Ascii.quote) (s : Bytes) :
    quoteBody (c :: s) = c :: quoteBody s := by
  rw [quoteBody, List.flatMap_cons, if_neg h]
  rfl

theorem readsString_quoteBody {s : Bytes} (h : Ascii.backslash ∉ s) (rest : Bytes) :
    ReadsString (quoteBody s ++ Ascii.quote :: rest) s rest := by
  induction s with
  | nil => exact .close
  | cons c s ih =>
      have hc : c ≠ Ascii.backslash := fun heq => h (heq ▸ List.mem_cons_self)
      have hs : Ascii.backslash ∉ s := fun hmem => h (List.mem_cons_of_mem _ hmem)
      by_cases hq : c = Ascii.quote
      · subst hq
        exact @ReadsString.escape _ [Ascii.quote] _ _ 1 rfl (by simp) (ih hs)
      · rw [quoteBody_cons hq]
        exact .plain hq hc (ih hs)

/-- A byte of the text that is neither a quote nor a backslash is a byte of the storage. -/
theorem quoteBody_head {s more t : Bytes} {h : Byte}
    (heq : quoteBody s ++ Ascii.quote :: more = h :: t) (hq : h ≠ Ascii.quote) (hb : h ≠ Ascii.backslash) :
    ∃ s', s = h :: s' ∧ t = quoteBody s' ++ Ascii.quote :: more := by
  cases s with
  | nil => exact absurd (List.cons.inj heq).1.symm hq
  | cons c s =>
      by_cases hc : c = Ascii.quote
      · subst hc
        exact absurd (List.cons.inj heq).1.symm hb
      · rw [quoteBody_cons hc] at heq
        obtain ⟨rfl, rfl⟩ := List.cons.inj heq
        exact ⟨s, rfl, rfl⟩

theorem quoteBody_hex {s more t : Bytes} {h0 h1 h2 h3 : Byte} {cp : Nat}
    (heq : quoteBody s ++ Ascii.quote :: more = h0 :: h1 :: h2 :: h3 :: t)
    (hex : hex4 h0 h1 h2 h3 = some cp) :
    ∃ s', s = h0 :: h1 :: h2 :: h3 :: s' ∧ t = quoteBody s' ++ Ascii.quote :: more := by
  have hne := hex4_some hex
  simp only [List.forall_mem_cons] at hne
  obtain ⟨hne0, hne1, hne2, hne3, -⟩ := hne
  obtain ⟨s0, rfl, ht0⟩ := quoteBody_head heq hne0.1 hne0.2
  obtain ⟨s1, rfl, ht1⟩ := quoteBody_head ht0.symm hne1.1 hne1.2
  obtain ⟨s2, rfl, ht2⟩ := quoteBody_head ht1.symm hne2.1 hne2.2
  obtain ⟨s3, rfl, ht3⟩ := quoteBody_head ht2.symm hne3.1 hne3.2
  exact ⟨s3, rfl, ht3⟩

theorem utf8_length (cp : Nat) : (utf8 cp).length ≤ 4 := by
  unfold utf8
  split_ifs <;> simp

/-- What follows the text of a storage: the end of the array, or the next storage. -/
def Follows (more : Bytes) : Prop := more = [Ascii.rbracket] ∨ ∃ t, more = Ascii.comma :: Ascii.quote :: t

/-- An escape in a storage that has not been written as one takes at least a byte off it, and one that
takes the closing quote along ends with the comma behind it. -/
structure Shrinks (s str : Bytes) : Prop where
  le : str.length ≤ s.length
  lt : Ascii.backslash ∈ s → str.length < s.length

def RunsOver (s str : Bytes) : Prop :=
  s.getLast? = some Ascii.backslash ∧ str.getLast? = some Ascii.comma

/-- What an escape makes of the bytes behind a backslash: it takes the closing quote, or it leaves an
escaped quote bare, or it takes at least as many bytes of the storage as it denotes. -/
theorem readsEscape_quoteBody {s more bs : Bytes} {n : Nat}
    (h : ReadsEscape (quoteBody s ++ Ascii.quote :: more) bs n) :
    (s = [] ∧ bs = [Ascii.quote] ∧ n = 1) ∨ (∃ s', s = Ascii.quote :: s' ∧ bs = [Ascii.backslash] ∧ n = 1) ∨
      ∃ s', s' <:+ s ∧ bs.length + s'.length ≤ s.length ∧
        (quoteBody s ++ Ascii.quote :: more).drop n = quoteBody s' ++ Ascii.quote :: more := by
  have hu : Ascii.letter 'u' ≠ Ascii.quote ∧ Ascii.letter 'u' ≠ Ascii.backslash := by decide
  generalize htext : quoteBody s ++ Ascii.quote :: more = text at h
  cases h with
  | @simple e b x short =>
      cases s with
      | nil =>
          obtain ⟨rfl, rfl⟩ := List.cons.inj htext
          exact Or.inl ⟨rfl, by rw [← Option.some.inj short], rfl⟩
      | cons c s =>
          by_cases hc : c = Ascii.quote
          · subst hc
            obtain ⟨rfl, rfl⟩ := List.cons.inj htext
            exact Or.inr (Or.inl ⟨s, rfl, by rw [← Option.some.inj short], rfl⟩)
          · rw [quoteBody_cons hc] at htext
            obtain ⟨rfl, rfl⟩ := List.cons.inj htext
            exact Or.inr (Or.inr ⟨s, List.suffix_cons _ _, by simp [Nat.add_comm], rfl⟩)
  | @unit h0 h1 h2 h3 x cp hex other =>
      obtain ⟨s0, rfl, ht⟩ := quoteBody_head htext hu.1 hu.2
      obtain ⟨s', rfl, hx⟩ := quoteBody_hex ht.symm hex
      have := utf8_length cp
      exact Or.inr (Or.inr ⟨s', ⟨[Ascii.letter 'u', h0, h1, h2, h3], rfl⟩, by simp; omega, hx⟩)
  | @lone h0 h1 h2 h3 x cp hex high low =>
      obtain ⟨s0, rfl, ht⟩ := quoteBody_head htext hu.1 hu.2
      obtain ⟨s', rfl, hx⟩ := quoteBody_hex ht.symm hex
      have := utf8_length cp
      exact Or.inr (Or.inr ⟨s', ⟨[Ascii.letter 'u', h0, h1, h2, h3], rfl⟩, by simp; omega, hx⟩)
  | @pair h0 h1 h2 h3 l0 l1 l2 l3 x cp lo hex high hex' low =>
      obtain ⟨s0, rfl, ht⟩ := quoteBody_head htext hu.1 hu.2
      obtain ⟨s1, rfl, hx⟩ := quoteBody_hex ht.symm hex
      -- the backslash of the second half is one of the storage, as no quote follows it
      obtain ⟨s2, rfl, hx2⟩ : ∃ s2, s1 = Ascii.backslash :: s2 ∧
          Ascii.letter 'u' :: l0 :: l1 :: l2 :: l3 :: x = quoteBody s2 ++ Ascii.quote :: more := by
        cases s1 with
        | nil => exact absurd (List.cons.inj hx).1 (by decide)
        | cons c s2 =>
            by_cases hc : c = Ascii.quote
            · subst hc
              exact absurd (List.cons.inj (List.cons.inj hx).2).1 (by decide)
            · rw [quoteBody_cons hc] at hx
              obtain ⟨rfl, hx2⟩ := List.cons.inj hx
              exact ⟨s2, rfl, hx2⟩
      obtain ⟨s3, rfl, ht3⟩ := quoteBody_head hx2.symm hu.1 hu.2
      obtain ⟨s', rfl, hx4⟩ := quoteBody_hex ht3.symm hex'
      have := utf8_length (0x10000 + (cp - 0xD800) * 0x400 + (lo - 0xDC00))
      refine Or.inr (Or.inr ⟨s', ⟨[Ascii.letter 'u', h0, h1, h2, h3, Ascii.backslash, Ascii.letter 'u',
        l0, l1, l2, l3], rfl⟩, by simp; omega, hx4⟩)

theorem RunsOver.behind {s s' str bs : Bytes} (h : RunsOver s' str) (hs : s' <:+ s) :
    RunsOver s (bs ++ str) := by
  obtain ⟨t, rfl⟩ := hs
  exact ⟨by rw [List.getLast?_append, h.1, Option.some_or], by rw [List.getLast?_append, h.2, Option.some_or]⟩

theorem Shrinks.cons {s str : Bytes} (h : Shrinks s str) {c : Byte} (hc : c ≠ Ascii.backslash) :
    Shrinks (c :: s) (c :: str) where
  le := Nat.succ_le_succ h.le
  lt := by
    intro hmem
    exact Nat.succ_lt_succ (h.lt ((List.mem_cons.mp hmem).resolve_left (Ne.symm hc)))

theorem readsString_follows {more str rest : Bytes} (hmore : Follows more) (h : ReadsString more str rest) :
    str = [Ascii.comma] := by
  rcases hmore with rfl | ⟨t, rfl⟩
  · cases h with
    | plain _ _ inner => cases inner
  · have hread : ReadsString (Ascii.comma :: Ascii.quote :: t) [Ascii.comma] t :=
      .plain (by decide) (by decide) .close
    exact (h.unique hread).1

/-- However the text of a storage is read on, the string read is shorter or runs over its end, unless
the storage has no backslash. -/
theorem readsString_quoteBody_cases {s more str rest : Bytes} (hmore : Follows more)
    (h : ReadsString (quoteBody s ++ Ascii.quote :: more) str rest) : Shrinks s str ∨ RunsOver s str := by
  induction hn : s.length using Nat.strong_induction_on generalizing s str with
  | h n ih =>
      subst hn
      generalize htext : quoteBody s ++ Ascii.quote :: more = text at h
      cases h with
      | close =>
          cases s with
          | nil => exact Or.inl ⟨Nat.le_refl _, by simp⟩
          | cons c s =>
              by_cases hc : c = Ascii.quote
              · subst hc
                exact absurd (List.cons.inj htext).1 (by decide)
              · rw [quoteBody_cons hc] at htext
                exact absurd (List.cons.inj htext).1 hc
      | @plain c t str _ hq hb inner =>
          obtain ⟨s', rfl, rfl⟩ := quoteBody_head htext hq hb
          rcases ih s'.length (by simp) inner rfl with hshrinks | hruns
          · exact Or.inl (hshrinks.cons hb)
          · exact Or.inr (@RunsOver.behind _ _ _ [c] hruns (List.suffix_cons _ _))
      | @escape t bs str _ k esc inside inner =>
          cases s with
          | nil => exact absurd (List.cons.inj htext).1 (by decide)
          | cons c s =>
              by_cases hc : c = Ascii.quote
              · subst hc
                obtain ⟨-, rfl⟩ := List.cons.inj htext
                obtain ⟨rfl, rfl⟩ := Prod.mk.inj (Except.ok.inj esc)
                rcases ih s.length (by simp) inner rfl with hshrinks | hruns
                · exact Or.inl (hshrinks.cons (by decide))
                · exact Or.inr (@RunsOver.behind _ _ _ [Ascii.quote] hruns (List.suffix_cons _ _))
              · rw [quoteBody_cons hc, List.cons_append] at htext
                obtain ⟨rfl, rfl⟩ := List.cons.inj htext
                rcases readsEscape_quoteBody (readsEscape_of_escapeAt esc) with
                  ⟨rfl, rfl, rfl⟩ | ⟨s', rfl, rfl, rfl⟩ | ⟨s', hsuffix, hlen, hdrop⟩
                · obtain rfl := readsString_follows hmore inner
                  exact Or.inr ⟨rfl, rfl⟩
                · have hclosed : ReadsString (Ascii.quote :: (quoteBody s' ++ Ascii.quote :: more)) [] _ := .close
                  obtain ⟨rfl, -⟩ := inner.unique hclosed
                  exact Or.inl ⟨by simp, by simp⟩
                · rw [hdrop] at inner
                  have hshort := hsuffix.length_le
                  rcases ih s'.length (by rw [List.length_cons]; omega) inner rfl with hshrinks | hruns
                  · have hle := hshrinks.le
                    exact Or.inl ⟨by simp; omega, fun _ => by simp; omega⟩
                  · exact Or.inr (hruns.behind (hsuffix.trans (List.suffix_cons _ _)))

/-- A storage is read as it was exactly if it has no backslash. -/
theorem readsString_quoteBody_iff {s more : Bytes} (hmore : Follows more) :
    (∃ rest, ReadsString (quoteBody s ++ Ascii.quote :: more) s rest) ↔ Ascii.backslash ∉ s := by
  constructor
  · rintro ⟨rest, h⟩ hmem
    rcases readsString_quoteBody_cases hmore h with hshrinks | ⟨hslash, hcomma⟩
    · exact Nat.lt_irrefl _ (hshrinks.lt hmem)
    · exact absurd (Option.some.inj (hslash.symm.trans hcomma)) (by decide)
  · exact fun h => ⟨more, readsString_quoteBody h more⟩

/-! ## All storages -/

/-- The storages behind the first one, and the end of the array. -/
def moreStorages : List Bytes → Bytes
  | [] => [Ascii.rbracket]
  | s :: ss => Ascii.comma :: (quoteStorage s ++ moreStorages ss)

theorem intercalate_storages (s : Bytes) (ss : List Bytes) :
    List.intercalate [Ascii.comma] ((s :: ss).map quoteStorage) ++ [Ascii.rbracket] =
      quoteStorage s ++ moreStorages ss := by
  induction ss generalizing s with
  | nil => simp [moreStorages]
  | cons s' ss ih =>
      rw [moreStorages, ← ih s', List.map_cons, List.map_cons]
      simp [List.intercalate_cons_cons]

theorem follows_moreStorages (ss : List Bytes) : Follows (moreStorages ss) := by
  cases ss with
  | nil => exact Or.inl rfl
  | cons s ss => exact Or.inr ⟨quoteBody s ++ Ascii.quote :: moreStorages ss, by rw [moreStorages, quoteStorage_append]⟩

theorem reads_storages {s : Bytes} {ss : List Bytes} (h : ∀ x ∈ s :: ss, Ascii.backslash ∉ x)
    (acc : List Value) :
    Reads (.items acc) (quoteStorage s ++ moreStorages ss) (.array (acc ++ (s :: ss).map .string)) [] := by
  have hs := h s List.mem_cons_self
  induction ss generalizing s acc with
  | nil =>
      rw [quoteStorage_append]
      exact .lastItem (.string rfl (readsString_quoteBody hs _)) rfl
  | cons s' ss ih =>
      have hmore := ih (fun x hx => h x (List.mem_cons_of_mem _ hx)) (acc ++ [.string s])
        (h s' (List.mem_cons_of_mem _ List.mem_cons_self))
      rw [List.append_assoc] at hmore
      rw [quoteStorage_append]
      exact .item (.string rfl (readsString_quoteBody hs _)) rfl hmore

/-- An item that is read as its storage has no backslash, and the text behind it is what follows. -/
theorem reads_storage {s : Bytes} {ss : List Bytes} {r : Bytes}
    (h : Reads .value (quoteStorage s ++ moreStorages ss) (.string s) r) :
    Ascii.backslash ∉ s ∧ r = moreStorages ss := by
  rw [quoteStorage_append] at h
  generalize hv : Value.string s = v at h
  cases h with
  | @string _ t str _ start text =>
      cases hv
      obtain rfl := (List.cons.inj start).2
      have hs := (readsString_quoteBody_iff (follows_moreStorages ss)).mp ⟨r, text⟩
      exact ⟨hs, (text.unique (readsString_quoteBody hs _)).2⟩
  | emptyObject start => exact absurd (List.cons.inj start).1 (by decide)
  | object start => exact absurd (List.cons.inj start).1 (by decide)
  | emptyArray start => exact absurd (List.cons.inj start).1 (by decide)
  | array start => exact absurd (List.cons.inj start).1 (by decide)
  | scalar start hq => exact absurd (List.cons.inj start).1.symm hq

/-- The items are read as these storages only if none has a backslash. -/
theorem no_backslash_of_reads {s : Bytes} {ss : List Bytes} {acc : List Value} {rest : Bytes}
    (h : Reads (.items acc) (quoteStorage s ++ moreStorages ss) (.array (acc ++ (s :: ss).map .string)) rest) :
    ∀ x ∈ s :: ss, Ascii.backslash ∉ x := by
  induction ss generalizing s acc with
  | nil =>
      generalize hv : Value.array (acc ++ [s].map .string) = v at h
      cases h with
      | @item _ _ r r₁ _ v w inner comma more =>
          obtain ⟨b, hb, hw⟩ := more.items_prefix
          have hlen := congrArg List.length (Value.array.inj (hv.trans hw))
          simp only [List.length_append, List.length_map, List.length_cons, List.length_nil] at hlen
          exact absurd (List.length_eq_zero_iff.mp (by omega)) hb
      | lastItem inner stop =>
          obtain rfl := List.singleton_inj.mp (List.append_cancel_left (Value.array.inj hv))
          simpa using (reads_storage inner).1
  | cons s' ss ih =>
      generalize hv : Value.array (acc ++ (s :: s' :: ss).map .string) = v at h
      cases h with
      | @item _ _ r r₁ _ v w inner comma more =>
          obtain ⟨b, -, hw⟩ := more.items_prefix
          have heq := Value.array.inj (hv.trans hw)
          rw [List.append_assoc] at heq
          obtain ⟨rfl, -⟩ := List.cons.inj (List.append_cancel_left heq)
          obtain ⟨hs, rfl⟩ := reads_storage inner
          obtain ⟨-, rfl⟩ := List.cons.inj comma
          rw [← hv] at more
          refine List.forall_mem_cons.mpr ⟨hs, @ih _ (acc ++ [.string s]) ?_⟩
          rw [List.append_assoc]
          exact more
      | lastItem inner stop =>
          have hlen := congrArg List.length (Value.array.inj hv)
          simp only [List.length_append, List.length_map, List.length_cons, List.length_nil] at hlen
          omega

/-- The array is read as these storages exactly if none has a backslash. -/
theorem parse_storages_iff (s : Bytes) (ss : List Bytes) :
    parse (Ascii.lbracket :: (quoteStorage s ++ moreStorages ss)) = .ok (.array ((s :: ss).map .string)) ↔
      ∀ x ∈ s :: ss, Ascii.backslash ∉ x := by
  have hskip : skipWs (quoteStorage s ++ moreStorages ss) = quoteStorage s ++ moreStorages ss := by
    rw [quoteStorage_append]
    rfl
  have hhead : (quoteStorage s ++ moreStorages ss).head? ≠ some Ascii.rbracket := by
    rw [quoteStorage_append]
    exact fun h => absurd (Option.some.inj h) (by decide)
  constructor
  · intro h
    obtain ⟨rest, hr, -⟩ := parse_ok_iff.mp h
    have hr := hr.value_behind (skipWs_skipWs _).symm
    generalize hv : Value.array ((s :: ss).map .string) = v at hr
    cases hr with
    | string start => cases hv
    | emptyObject start => cases hv
    | object start => exact absurd (List.cons.inj start).1 (by decide)
    | emptyArray start => cases hv
    | array start nonempty inner =>
        obtain rfl := (List.cons.inj start).2
        rw [hskip, ← hv] at inner
        exact @no_backslash_of_reads _ _ [] _ inner
    | scalar start hq hb hk => exact absurd (List.cons.inj start).1.symm hk
  · intro h
    have hr := reads_storages h []
    exact parse_ok_iff.mpr ⟨[], .array rfl (by rw [hskip]; exact hhead) (by rw [hskip]; exact hr), rfl⟩

/-! ## Replies -/

/-- What the file transfer is given. -/
theorem parseAbilityReplyToFtJson_eq {wireJson : Bytes} {storages : List Bytes}
    (h : ListsStorages wireJson storages) :
    parseAbilityReplyToFtJson wireJson =
      if parseWireResult wireJson = 0 ∧ storages ≠ [] then
        Ascii.lbracket :: (List.intercalate [Ascii.comma] (storages.map quoteStorage) ++ [Ascii.rbracket])
      else [] := by
  obtain ⟨root, hp, hobject, hpick⟩ := h
  have hstrings : (storages.map Value.string).map (fun v => quoteStorage v.asString) =
      storages.map quoteStorage := by
    rw [List.map_map]
    rfl
  have hnil : storages.map Value.string = [] ↔ storages = [] := List.map_eq_nil_iff
  simp only [parseAbilityReplyToFtJson, parseWireResult, wireMember, hp, hobject, hpick, hstrings, hnil,
    Bool.not_true, Bool.false_eq_true, or_false, List.cons_append]
  split_ifs <;> first | rfl | tauto

/-- A reply passes its storages on exactly if it reports success and lists some, none with a
backslash. -/
theorem ability_reply_iff {wireJson : Bytes} {storages : List Bytes}
    (h : ListsStorages wireJson storages) :
    PassesOn wireJson storages ↔
      parseWireResult wireJson = 0 ∧ storages ≠ [] ∧ ∀ s ∈ storages, Ascii.backslash ∉ s := by
  have hempty : parse [] ≠ .ok (.array (storages.map .string)) :=
    fun hparse => nomatch hparse
  rw [PassesOn, parseAbilityReplyToFtJson_eq h]
  cases storages with
  | nil => simpa using hempty
  | cons s ss =>
      by_cases hresult : parseWireResult wireJson = 0
      · rw [if_pos ⟨hresult, List.cons_ne_nil _ _⟩, intercalate_storages, parse_storages_iff]
        simp [hresult]
      · rw [if_neg fun hboth => hresult hboth.1]
        simpa [hresult] using hempty

/-- A reply as the firmware sends it. -/
def replyObject (storage : Bytes) : Object :=
  [(ascii "reply", .object [(ascii "storage", .array [.string storage])]), (ascii "result", .number (0 : Int))]

theorem replyObject_built (storage : Bytes) : Built (.object (replyObject storage)) := by
  have hreply : Built (.object [(ascii "storage", .array [.string storage])]) :=
    .object (List.pairwise_singleton _ _) (by simpa using Built.array (by simp [Built.string]))
  refine .object ?_ (by simpa [replyObject] using ⟨hreply, Built.integer (n := 0) (by decide)⟩)
  refine (List.pairwise_map (f := Prod.fst) (R := (· < ·))).mp ?_
  exact (by decide : [ascii "reply", ascii "result"].Pairwise (· < ·))

theorem replyObject_lists (storage : Bytes) :
    ListsStorages (Value.object (replyObject storage)).dump [storage] ∧
      parseWireResult (Value.object (replyObject storage)).dump = 0 := by
  have hp := parse_dump (replyObject_built storage).writable
  have hreply : (Value.object (replyObject storage)).find (ascii "reply") =
      .object [(ascii "storage", .array [.string storage])] := by
    rw [find_word (by decide +kernel)]
    simp +decide [replyObject, Value.asObject, lookup_cons]
  have hstorage : (Value.object [(ascii "storage", .array [.string storage])]).find (ascii "storage") =
      .array [.string storage] := by
    rw [find_word (by decide +kernel)]
    simp +decide [Value.asObject, lookup_cons]
  refine ⟨⟨_, hp, by rw [hreply]; rfl, ?_⟩, ?_⟩
  · rw [hreply]
    simp [pickStorages, hstorage, Value.asArray]
  · exact wireMember_integer hp (by decide +kernel)
      (by simp +decide [replyObject, lookup_cons]) (by decide)

theorem ability_reply_emmc : PassesOn (Value.object (replyObject (ascii "em\"mc"))).dump [ascii "em\"mc"] :=
  (ability_reply_iff (replyObject_lists _).1).mpr ⟨(replyObject_lists _).2, by decide, by decide⟩

/-- A storage named `a\b`, which is read as `a` and a backspace. -/
theorem ability_reply_fails :
    ListsStorages (Value.object (replyObject (ascii "a\\b"))).dump [ascii "a\\b"] ∧
      parseWireResult (Value.object (replyObject (ascii "a\\b"))).dump = 0 ∧
      ¬ PassesOn (Value.object (replyObject (ascii "a\\b"))).dump [ascii "a\\b"] := by
  obtain ⟨hlists, hresult⟩ := replyObject_lists (ascii "a\\b")
  refine ⟨hlists, hresult, ?_⟩
  rw [PassesOn, parseAbilityReplyToFtJson_eq hlists, if_pos ⟨hresult, by decide⟩, intercalate_storages,
    parse_storages_iff]
  decide

end OpenBambu.Tunnel
