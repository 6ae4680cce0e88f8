import OpenBambu.Agent.Covers

/-!
# Fields of a report behind a patch

`json_peek_string_field` finds a field by its text, and `patch_string_zero_to` puts another string in its
place. The patch of one field leaves what is found of the others.
-/

namespace OpenBambu.Agent

open OpenBambu.Foundation

/-! ## Reading a field behind a change -/

/-- What stands behind the first occurrence of `needle`. -/
def behindText (needle t : Bytes) : Option Bytes := (findText needle t).map Prod.snd

theorem behindText_cons (needle : Bytes) (c : Byte) (s : Bytes) :
    behindText needle (c :: s) =
      if startsWith (c :: s) needle then some ((c :: s).drop needle.length)
      else behindText needle s := by
  rw [behindText, findText]
  split_ifs with h
  · rfl
  · rw [Option.map_map]
    rfl

/-- The value of a field, given what stands behind its name. -/
def fieldValue (s : Bytes) : Option Bytes :=
  match s.dropWhile (· = Ascii.sp) with
  | [] => none
  | c :: s => if c = Ascii.quote then stringEnd s else none

theorem jsonPeek_eq (payload key : Bytes) :
    jsonPeekStringField payload key = (behindText (needleOf key) payload).bind fieldValue := by
  rw [jsonPeekStringField, behindText]
  cases findText (needleOf key) payload with
  | none => rfl
  | some p => rfl

theorem stringEnd_quote (u : Bytes) : stringEnd (Ascii.quote :: u) = some [] := by
  cases u with
  | nil => rfl
  | cons c u => rw [stringEnd, if_pos rfl]

/-- A quote that no backslash stands in front of ends the string, whatever follows. -/
theorem stringEnd_stop (w u u' : Bytes) (hw : w.getLast? ≠ some Ascii.backslash) :
    stringEnd (w ++ Ascii.quote :: u) = stringEnd (w ++ Ascii.quote :: u') := by
  match w with
  | [] => rw [List.nil_append, List.nil_append, stringEnd_quote, stringEnd_quote]
  | [c] =>
      have hc : c ≠ Ascii.backslash := by
        rintro rfl
        exact hw rfl
      simp only [List.cons_append, List.nil_append, stringEnd, if_neg hc, stringEnd_quote]
  | c :: d :: w =>
      have hmore := stringEnd_stop (d :: w) u u' (by simpa using hw)
      simp only [List.cons_append] at hmore ⊢
      rw [stringEnd, stringEnd, hmore]
      split_ifs with hq hb
      · rfl
      · by_cases hnil : w = []
        · subst hnil
          rw [List.nil_append, List.nil_append, stringEnd_quote, stringEnd_quote]
        · have htail := stringEnd_stop w u u' (by
            rw [List.getLast?_cons_cons, List.getLast?_cons] at hw
            cases hl : w.getLast? with
            | none => exact absurd (List.getLast?_eq_none_iff.mp hl) hnil
            | some b => simpa [hl] using hw)
          rw [htail]
      · rfl

theorem fieldValue_stop {w : Bytes} (hsp : ∃ c ∈ w, c ≠ Ascii.sp)
    (hlast : w.getLast? ≠ some Ascii.backslash) (u u' : Bytes) :
    fieldValue (w ++ Ascii.quote :: u) = fieldValue (w ++ Ascii.quote :: u') := by
  have hdrop : ∀ v : Bytes, (w ++ v).dropWhile (· = Ascii.sp) = w.dropWhile (· = Ascii.sp) ++ v := by
    intro v
    rw [List.dropWhile_append, if_neg]
    rw [List.isEmpty_iff, List.dropWhile_eq_nil_iff]
    obtain ⟨c, hc, hne⟩ := hsp
    exact fun h => hne (of_decide_eq_true (h c hc))
  unfold fieldValue
  rw [hdrop, hdrop]
  cases hw : w.dropWhile (· = Ascii.sp) with
  | nil =>
      obtain ⟨c, hc, hne⟩ := hsp
      exact absurd (of_decide_eq_true (List.dropWhile_eq_nil_iff.mp hw c hc)) hne
  | cons d w' =>
      have hsuffix : d :: w' <:+ w := hw ▸ List.dropWhile_suffix _
      have hw' : w'.getLast? ≠ some Ascii.backslash := by
        obtain ⟨v, rfl⟩ := hsuffix
        intro h
        refine hlast ?_
        rw [List.getLast?_append, List.getLast?_cons, h]
        rfl
      simp only [List.cons_append]
      rw [stringEnd_stop w' u u' hw']

/-- The name of a field, which is none of the values that patches replace or put in. -/
structure FieldName (name : Bytes) : Prop where
  ne_nil : name ≠ []
  no_quote : ∀ c ∈ name, c ≠ Ascii.quote
  no_zero : name.head? ≠ some 0x30
  no_lan : name.head? ≠ some (Ascii.letter 'l')

theorem needleOf_eq (key : Bytes) :
    needleOf key = Ascii.quote :: key ++ [Ascii.quote, Ascii.colon] := rfl

/-- Its quotes are the first byte and the last but one. -/
theorem FieldName.needle_quote {name a b : Bytes} (hn : FieldName name)
    (h : needleOf name = a ++ Ascii.quote :: b) : a = [] ∨ b = [Ascii.colon] := by
  cases a with
  | nil => exact Or.inl rfl
  | cons q a =>
      right
      obtain ⟨y, -, hy⟩ := front_of_sep hn.no_quote (List.cons.inj h).2
      cases y with
      | nil => exact (List.cons.inj hy).2.symm
      | cons d y =>
          obtain ⟨-, hcolon⟩ := List.cons.inj hy
          cases y with
          | nil => exact absurd (List.cons.inj hcolon).1 (by decide)
          | cons e y => exact absurd (congrArg List.length hcolon) (by simp)

/-- The inside of quotes that neither holds a quote nor makes the name of the field around one. -/
structure Harmless (name m : Bytes) : Prop where
  no_quote : ∀ b ∈ m, b ≠ Ascii.quote
  no_colon : m.head? ≠ some Ascii.colon
  no_name : m.head? ≠ name.head?

theorem Harmless.colon_apart {name m r : Bytes} (h : Harmless name m) :
    (m ++ Ascii.quote :: r).head? ≠ some Ascii.colon := by
  cases m with
  | nil => exact fun hb => absurd (Option.some.inj hb) (by decide)
  | cons c m => exact h.no_colon

theorem Harmless.name_apart {name m r : Bytes} (h : Harmless name m) (hn : FieldName name) :
    (m ++ Ascii.quote :: r).head? ≠ name.head? := by
  cases m with
  | cons c m => exact h.no_name
  | nil =>
      obtain ⟨n, name, rfl⟩ := List.exists_cons_of_ne_nil hn.ne_nil
      intro hb
      exact hn.no_quote n List.mem_cons_self (Option.some.inj hb).symm

theorem behindText_skip {m : Bytes} (hm : ∀ b ∈ m, b ≠ Ascii.quote) (name t : Bytes) :
    behindText (needleOf name) (m ++ t) = behindText (needleOf name) t := by
  induction m with
  | nil => rfl
  | cons c m ih =>
      have hc : ¬ startsWith (c :: (m ++ t)) (needleOf name) = true := by
        rw [startsWith_iff]
        rintro ⟨v, hv⟩
        exact hm c List.mem_cons_self (List.cons.inj hv).1.symm
      rw [List.cons_append, behindText_cons, if_neg hc, ih fun b hb => hm b (List.mem_cons_of_mem _ hb)]

/-- Changing the inside of quotes behind another field leaves a field. -/
theorem name_change {name x m m' r : Bytes} (hn : FieldName name) (hm : Harmless name m)
    (hm' : Harmless name m')
    (hx : ∀ b w, x = b ++ (needleOf name ++ w) → ∃ c ∈ w, c ≠ Ascii.sp)
    (hlast : x.getLast? ≠ some Ascii.backslash) :
    (behindText (needleOf name) (x ++ Ascii.quote :: (m ++ Ascii.quote :: r))).bind fieldValue =
      (behindText (needleOf name) (x ++ Ascii.quote :: (m' ++ Ascii.quote :: r))).bind fieldValue := by
  induction x with
  | nil =>
      have hskip : ∀ m : Bytes, Harmless name m →
          behindText (needleOf name) (Ascii.quote :: (m ++ Ascii.quote :: r)) =
            behindText (needleOf name) (Ascii.quote :: r) := by
        intro m hm
        have hno : ¬ startsWith (Ascii.quote :: (m ++ Ascii.quote :: r)) (needleOf name) = true := by
          rw [startsWith_iff]
          rintro ⟨v, hv⟩
          obtain ⟨n, k, rfl⟩ := List.exists_cons_of_ne_nil hn.ne_nil
          exact hm.name_apart hn (congrArg List.head? (List.cons.inj hv).2).symm
        rw [behindText_cons, if_neg hno, behindText_skip hm.no_quote]
      rw [List.nil_append, List.nil_append, hskip m hm, hskip m' hm']
  | cons c x ih =>
      have hx' : ∀ b w, x = b ++ (needleOf name ++ w) → ∃ c ∈ w, c ≠ Ascii.sp := fun b w h =>
        hx (c :: b) w (by rw [h, List.cons_append])
      have hlast' : x.getLast? ≠ some Ascii.backslash := by
        intro h
        rw [List.getLast?_cons, h] at hlast
        exact hlast rfl
      rw [List.cons_append, List.cons_append, behindText_cons, behindText_cons]
      by_cases hin : needleOf name <+: c :: x
      · -- the field stands in front of the change: its value ends at the first changed quote
        obtain ⟨w, hw⟩ := hin
        have hboth : ∀ u, startsWith (c :: (x ++ u)) (needleOf name) = true ∧
            (c :: (x ++ u)).drop (needleOf name).length = w ++ u := by
          intro u
          rw [← List.cons_append, ← hw, List.append_assoc]
          exact ⟨startsWith_iff.mpr (List.prefix_append _ _), List.drop_left⟩
        have hwlast : w.getLast? ≠ some Ascii.backslash := by
          intro h
          rw [← hw, List.getLast?_append, h] at hlast
          exact hlast rfl
        rw [if_pos (hboth _).1, if_pos (hboth _).1, (hboth _).2, (hboth _).2, Option.bind_some,
          Option.bind_some]
        exact fieldValue_stop (hx [] w hw.symm) hwlast _ _
      · -- a field that starts here would take in the first changed quote and a colon behind it
        have hnone : ∀ m : Bytes, Harmless name m →
            ¬ startsWith (c :: (x ++ Ascii.quote :: (m ++ Ascii.quote :: r))) (needleOf name) = true := by
          intro m hm
          rw [startsWith_iff]
          rintro ⟨v, hv⟩
          rw [← List.cons_append] at hv
          rcases List.append_eq_append_iff.mp hv with ⟨w, hw, _⟩ | ⟨w, hw, hw'⟩
          · exact hin ⟨w, hw.symm⟩
          · cases w with
            | nil => exact hin ⟨[], by rw [hw, List.append_nil, List.append_nil]⟩
            | cons d w =>
                obtain ⟨rfl, hrest⟩ := List.cons.inj hw'
                rcases hn.needle_quote hw with h | rfl
                · exact absurd h (List.cons_ne_nil _ _)
                · exact hm.colon_apart (congrArg List.head? hrest)
        rw [if_neg (hnone m hm), if_neg (hnone m' hm')]
        exact ih hx' hlast'

/-- What stands behind the last quote. -/
theorem last_quote_unique {a b k n : Bytes} (hk : ∀ c ∈ k, c ≠ Ascii.quote)
    (hn : ∀ c ∈ n, c ≠ Ascii.quote) (h : a ++ Ascii.quote :: k = b ++ Ascii.quote :: n) : k = n := by
  rcases List.append_eq_append_iff.mp h with ⟨w, _, hw⟩ | ⟨w, _, hw⟩
  · cases w with
    | nil => exact (List.cons.inj hw).2
    | cons d w => exact absurd rfl (hk Ascii.quote (by rw [(List.cons.inj hw).2]; simp))
  · cases w with
    | nil => exact (List.cons.inj hw).2.symm
    | cons d w => exact absurd rfl (hn Ascii.quote (by rw [(List.cons.inj hw).2]; simp))

/-- Another field, whose own name holds no quote. -/
structure OtherField (name key : Bytes) : Prop where
  no_quote : ∀ c ∈ key, c ≠ Ascii.quote
  ne : key ≠ name

/-- A field does not end where the value of another one begins. -/
theorem OtherField.apart {name key before sp b w : Bytes} (hk : OtherField name key) (hn : FieldName name)
    (hsp : ∀ c ∈ sp, c = Ascii.sp)
    (h : before ++ (needleOf key ++ sp) = b ++ (needleOf name ++ w)) : ∃ c ∈ w, c ≠ Ascii.sp := by
  by_contra hall
  push Not at hall
  have hstrip : ∀ (a k v : Bytes), (∀ c ∈ v, c = Ascii.sp) →
      (a ++ (needleOf k ++ v)).reverse.dropWhile (· = Ascii.sp) = (a ++ needleOf k).reverse := by
    intro a k v hv
    have hsp : ∀ c ∈ v.reverse, decide (c = Ascii.sp) = true := fun c hc =>
      decide_eq_true (hv c (List.mem_reverse.mp hc))
    rw [← List.append_assoc, List.reverse_append, List.dropWhile_append_of_pos hsp, needleOf_eq]
    simp [Ascii.colon, Ascii.sp]
  have heq := congrArg (fun x => x.reverse.dropWhile (· = Ascii.sp)) h
  rw [hstrip _ _ _ hsp, hstrip _ _ _ hall, List.reverse_inj, needleOf_eq, needleOf_eq,
    ← List.append_assoc, ← List.append_assoc, List.append_cancel_right_eq] at heq
  exact hk.ne (last_quote_unique hk.no_quote hn.no_quote heq)

theorem harmless_zero {name : Bytes} (hn : FieldName name) :
    Harmless name [] ∧ Harmless name [0x30] := by
  obtain ⟨n, k, rfl⟩ := List.exists_cons_of_ne_nil hn.ne_nil
  refine ⟨⟨nofun, nofun, nofun⟩, ⟨?_, by decide, fun h => hn.no_zero h.symm⟩⟩
  intro b hb
  obtain rfl := List.mem_singleton.mp hb
  decide

theorem peek_replaced {name key before sp m m' r : Bytes} (hn : FieldName name) (hk : OtherField name key)
    (hsp : ∀ c ∈ sp, c = Ascii.sp) (hm : Harmless name m) (hm' : Harmless name m') :
    jsonPeekStringField (before ++ (needleOf key ++ sp) ++ Ascii.quote :: (m ++ Ascii.quote :: r)) name =
      jsonPeekStringField (before ++ (needleOf key ++ sp) ++ Ascii.quote :: (m' ++ Ascii.quote :: r)) name := by
  have hlast : (before ++ (needleOf key ++ sp)).getLast? ≠ some Ascii.backslash := by
    intro h
    have hmem : Ascii.backslash ∈ Ascii.colon :: sp := by
      rw [needleOf_eq, List.append_cons, List.append_assoc _ _ sp, ← List.append_assoc,
        List.getLast?_append, List.singleton_append] at h
      rw [List.getLast?_cons] at h
      cases hl : sp.getLast? with
      | none =>
          rw [hl] at h
          exact absurd (Option.some.inj h) (by decide)
      | some b =>
          rw [hl] at h
          obtain rfl : b = Ascii.backslash := Option.some.inj h
          exact List.mem_cons_of_mem _ (List.mem_of_getLast? hl)
    rcases List.mem_cons.mp hmem with h | h
    · exact absurd h (by decide)
    · exact absurd (hsp _ h) (by decide)
  rw [jsonPeek_eq, jsonPeek_eq]
  exact name_change hn hm hm' (fun b w h => hk.apart hn hsp h) hlast

/-- What a patch replaces. -/
theorem patchStringZeroTo_some {payload payload' key value : Bytes}
    (h : patchStringZeroTo payload key value = some payload') :
    ∃ before sp m r, (∀ c ∈ sp, c = Ascii.sp) ∧ (m = [] ∨ m = [0x30]) ∧
      findText (needleOf key) payload = some (before, sp ++ Ascii.quote :: (m ++ Ascii.quote :: r)) ∧
      payload = before ++ (needleOf key ++ sp) ++ Ascii.quote :: (m ++ Ascii.quote :: r) ∧
      payload' = before ++ (needleOf key ++ sp) ++ Ascii.quote :: (value ++ Ascii.quote :: r) := by
  unfold patchStringZeroTo at h
  split at h
  · exact absurd h (by simp)
  · rename_i before s hfind
    have hsp : ∀ c ∈ s.takeWhile (· = Ascii.sp), c = Ascii.sp := fun c hc =>
      of_decide_eq_true (List.all_eq_true.mp (List.all_takeWhile (l := s)) c hc)
    have hpayload : payload = before ++ (needleOf key ++ s.takeWhile (· = Ascii.sp)) ++
        s.dropWhile (· = Ascii.sp) := by
      rw [List.append_assoc, List.append_assoc, List.takeWhile_append_dropWhile]
      exact findText_append hfind
    have hsplit : findText (needleOf key) payload =
        some (before, s.takeWhile (· = Ascii.sp) ++ s.dropWhile (· = Ascii.sp)) := by
      rw [List.takeWhile_append_dropWhile]
      exact hfind
    simp only at h
    split at h
    · rename_i a b r hs
      split_ifs at h with ha hb
      · obtain rfl := Option.some.inj h
        rw [hs, not_not.mp ha, hb] at hsplit hpayload
        exact ⟨before, _, [], r, hsp, Or.inl rfl, hsplit, hpayload, by simp [ascii, Ascii.quote]⟩
      · split at h
        · rename_i c r'
          split_ifs at h with hzero
          obtain rfl := Option.some.inj h
          rw [hs, not_not.mp ha, hzero.1, hzero.2] at hsplit hpayload
          exact ⟨before, _, [0x30], r', hsp, Or.inr rfl, hsplit, hpayload, by simp [ascii, Ascii.quote]⟩
        · exact absurd h (by simp)
    · exact absurd h (by simp)

/-- Text without quotes and backslashes is a value as it stands. -/
theorem stringEnd_plain {w : Bytes} (hw : ∀ c ∈ w, c ≠ Ascii.quote ∧ c ≠ Ascii.backslash) (u : Bytes) :
    stringEnd (w ++ Ascii.quote :: u) = some w := by
  induction w with
  | nil => exact stringEnd_quote u
  | cons c w ih =>
      obtain ⟨hc, hw⟩ := List.forall_mem_cons.1 hw
      have hmore := ih hw
      cases w with
      | nil =>
          rw [List.cons_append, List.nil_append, stringEnd, if_neg hc.1, if_neg hc.2, stringEnd_quote]
          rfl
      | cons d w =>
          rw [List.cons_append] at hmore
          rw [List.cons_append, List.cons_append, stringEnd, if_neg hc.1, if_neg hc.2, hmore]
          rfl

theorem stringEnd_nil {c : Byte} {s : Bytes} (h : stringEnd (c :: s) = some []) : c = Ascii.quote := by
  by_contra hc
  cases s with
  | nil =>
      rw [stringEnd, if_neg hc] at h
      cases h
  | cons d s =>
      rw [stringEnd, if_neg hc] at h
      split_ifs at h
      · obtain ⟨t, -, ht⟩ := Option.map_eq_some_iff.1 h
        cases ht
      · obtain ⟨t, -, ht⟩ := Option.map_eq_some_iff.1 h
        cases ht

/-- The value behind a quote is nothing or `0` if the text says so. -/
theorem stringEnd_zero (s : Bytes) :
    stringEnd s = some [] ∨ stringEnd s = some [0x30] ↔
      (∃ u, s = Ascii.quote :: u) ∨ ∃ u, s = 0x30 :: Ascii.quote :: u := by
  constructor
  · intro h
    cases s with
    | nil => exact h.elim nofun nofun
    | cons c s =>
        rcases h with h | h
        · exact Or.inl ⟨s, by rw [stringEnd_nil h]⟩
        · have hc : c ≠ Ascii.quote := by
            rintro rfl
            rw [stringEnd_quote] at h
            cases h
          right
          cases s with
          | nil =>
              rw [stringEnd, if_neg hc] at h
              cases h
          | cons d s =>
              rw [stringEnd, if_neg hc] at h
              split_ifs at h
              · obtain ⟨t, -, ht⟩ := Option.map_eq_some_iff.1 h
                cases ht
              · obtain ⟨t, hend, ht⟩ := Option.map_eq_some_iff.1 h
                obtain ⟨rfl, rfl⟩ := List.cons.inj ht
                exact ⟨s, by rw [stringEnd_nil hend]⟩
  · rintro (⟨u, rfl⟩ | ⟨u, rfl⟩)
    · exact Or.inl (stringEnd_quote u)
    · exact Or.inr (stringEnd_plain (w := [0x30]) (List.forall_mem_singleton.2 (by decide)) u)

/-- A patch is made exactly where the field is found with nothing or `0`. -/
theorem patchStringZeroTo_isSome (payload key value : Bytes) :
    (patchStringZeroTo payload key value).isSome = true ↔
      jsonPeekStringField payload key = some [] ∨ jsonPeekStringField payload key = some [0x30] := by
  rw [patchStringZeroTo, jsonPeekStringField]
  cases findText (needleOf key) payload with
  | none => simp
  | some p =>
      obtain ⟨before, s⟩ := p
      simp only
      cases s.dropWhile (· = Ascii.sp) with
      | nil => simp
      | cons a d =>
          simp only
          by_cases ha : a = Ascii.quote
          · rw [if_pos ha, stringEnd_zero]
            cases d with
            | nil => simp
            | cons b d =>
                by_cases hb : b = Ascii.quote
                · simp [ha, hb]
                · cases d with
                  | nil => simp [ha, hb]
                  | cons c d =>
                      by_cases hzero : b = 0x30 ∧ c = Ascii.quote
                      · simp [ha, hzero, Ascii.quote]
                      · simp [ha, hb, hzero]
          · rw [if_neg ha]
            cases d with
            | nil => simp
            | cons b d => simp [ha]

/-- A patched field is found with the value put in. -/
theorem patched_peek {payload payload' key value : Bytes}
    (hv : ∀ c ∈ value, c ≠ Ascii.quote ∧ c ≠ Ascii.backslash)
    (h : patchStringZeroTo payload key value = some payload') :
    jsonPeekStringField payload' key = some value := by
  obtain ⟨before, sp, m, r, hsp, -, hfind, -, rfl⟩ := patchStringZeroTo_some h
  have hall : ∀ c ∈ sp, decide (c = Ascii.sp) = true := fun c hc => decide_eq_true (hsp c hc)
  rw [jsonPeek_eq, behindText, List.append_assoc, List.append_assoc, findText_change hfind, Option.map_some,
    Option.bind_some, fieldValue, List.dropWhile_append_of_pos hall]
  exact stringEnd_plain hv r

/-- A patch of another field leaves a field. -/
theorem peek_patched {payload payload' name key value : Bytes} (hn : FieldName name)
    (hk : OtherField name key) (hv : Harmless name value)
    (h : patchStringZeroTo payload key value = some payload') :
    jsonPeekStringField payload' name = jsonPeekStringField payload name := by
  obtain ⟨before, sp, m, r, hsp, hm, -, rfl, rfl⟩ := patchStringZeroTo_some h
  refine peek_replaced hn hk hsp hv ?_
  rcases hm with rfl | rfl
  · exact (harmless_zero hn).1
  · exact (harmless_zero hn).2

theorem synthetic_no_quote (name version : Bytes) : ∀ b ∈ syntheticSubtaskId name version, b ≠ Ascii.quote := by
  have hnibble : ∀ n < 16, hexNibble n ≠ Ascii.quote := by decide +kernel
  have hlan : ∀ c ∈ ascii "lan-", c ≠ Ascii.quote := by decide +kernel
  intro b hb
  rcases List.mem_append.mp hb with hb | hb
  · exact hlan b hb
  · obtain ⟨k, _, rfl⟩ := List.mem_map.mp hb
    exact hnibble _ (Nat.mod_lt _ (by decide))

theorem harmless_synthetic {field : Bytes} (hn : FieldName field) (name version : Bytes) :
    Harmless field (syntheticSubtaskId name version) := by
  have hhead : (syntheticSubtaskId name version).head? = some (Ascii.letter 'l') := rfl
  refine ⟨synthetic_no_quote name version, ?_, ?_⟩
  · rw [hhead]
    decide
  · rw [hhead]
    exact hn.no_lan.symm

theorem harmless_lan {name : Bytes} (hn : FieldName name) : Harmless name (ascii "lan") :=
  ⟨by decide +kernel, by decide, hn.no_lan.symm⟩

theorem peek_patchNext {p : Bytes × Bool} {name key value : Bytes} (hn : FieldName name)
    (hk : OtherField name key) (hv : Harmless name value) :
    jsonPeekStringField (patchNext p key value).1 name = jsonPeekStringField p.1 name := by
  unfold patchNext
  split
  · rename_i payload h
    exact peek_patched hn hk hv h
  · rfl

def idFields : List Bytes := [ascii "project_id", ascii "profile_id", ascii "task_id", ascii "subtask_id"]

/-- The name of the print and the fields of the ids. -/
theorem fieldName_of_mem : ∀ name ∈ ascii "subtask_name" :: idFields, FieldName name := by
  have hall : ∀ name ∈ ascii "subtask_name" :: idFields, name ≠ [] ∧ (∀ c ∈ name, c ≠ Ascii.quote) ∧
      name.head? ≠ some 0x30 ∧ name.head? ≠ some (Ascii.letter 'l') := by
    decide +kernel
  intro name hname
  obtain ⟨h1, h2, h3, h4⟩ := hall name hname
  exact ⟨h1, h2, h3, h4⟩

/-- Putting in synthetic ids leaves the name of the print. -/
theorem peek_rewritten (json version : Bytes) :
    jsonPeekStringField (tryRewritePrintIds json version).1 (ascii "subtask_name") =
      jsonPeekStringField json (ascii "subtask_name") := by
  have hn : FieldName (ascii "subtask_name") := fieldName_of_mem _ List.mem_cons_self
  have hother : ∀ key ∈ idFields, OtherField (ascii "subtask_name") key := by
    have hne : ascii "subtask_name" ∉ idFields := by decide +kernel
    intro key hk
    refine ⟨(fieldName_of_mem key (List.mem_cons_of_mem _ hk)).no_quote, ?_⟩
    rintro rfl
    exact hne hk
  unfold tryRewritePrintIds
  split
  · rfl
  · rename_i name _
    split_ifs
    · rfl
    · have hid := harmless_synthetic hn name version
      have hlan := harmless_lan hn
      simp only
      rw [peek_patchNext hn (hother _ (by simp [idFields])) hid,
        peek_patchNext hn (hother _ (by simp [idFields])) hid,
        peek_patchNext hn (hother _ (by simp [idFields])) hlan,
        peek_patchNext hn (hother _ (by simp [idFields])) hlan]

end OpenBambu.Agent
