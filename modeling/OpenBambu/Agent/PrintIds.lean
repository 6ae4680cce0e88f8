import OpenBambu.Agent.CoverFiles
import OpenBambu.Json.Fields
import OpenBambu.Json.RoundTrip
import Mathlib.Logic.Relation

/-!
# The payload with print ids put in

`try_rewrite_print_ids` edits the text of a report: it looks for the name of a field and puts a synthetic
id in place of `""` or `"0"`. In a report that parses and whose keys are written without escapes, such a
place is a member, so the text still parses and means the same but for these ids.
-/

namespace OpenBambu.Agent

open OpenBambu.Foundation OpenBambu.Json

/-- The id a field gets. -/
def idFor (payload version key : Bytes) : Option Bytes :=
  if key = ascii "project_id" ∨ key = ascii "profile_id" then some (ascii "lan")
  else if key = ascii "task_id" ∨ key = ascii "subtask_id" then
    some (syntheticSubtaskId (subtaskNameOf payload) version)
  else none

/-- The field holds nothing or `0`, and gets its id. -/
def IdPut (payload version : Bytes) (key m m' : Bytes) : Prop :=
  idFor payload version key = some m' ∧ (m = [] ∨ m = [0x30])

/-- A string that is no part of another one, behind a key and its colon, is replaced. -/
def FieldPut (sets : Bytes → Bytes → Bytes → Prop) (p p' : Bytes) : Prop :=
  ∃ x key sp m m' r, sets key m m' ∧ Outside x ∧ (∀ c ∈ sp, c = Ascii.sp) ∧
    p = x ++ fieldText key sp m r ∧ p' = x ++ fieldText key sp m' r

theorem field_text (before key sp m r : Bytes) :
    before ++ (needleOf key ++ sp) ++ Ascii.quote :: (m ++ Ascii.quote :: r) =
      before ++ fieldText key sp m r := by
  rw [needleOf_eq, fieldText]
  simp

/-- A text that differs from the payload, and its value from the payload's, in strings that were set. -/
structure Framed (sets : Bytes → Bytes → Bytes → Prop) (payload : Bytes) (v : Value) (p : Bytes) : Prop where
  parses : ∃ w, parse p = .ok w ∧ StringsSet sets v w
  plain : PlainKeys p
  edits : Relation.ReflTransGen (FieldPut sets) payload p

section

variable {sets : Bytes → Bytes → Bytes → Prop} {payload : Bytes} {v : Value} {p : Bytes × Bool}

theorem Framed.patchNext (h : Framed sets payload v p.1) {key value : Bytes} (hkey : Word key)
    (hne : key ≠ []) (hvalue : Word value) (hset : ∀ m, m = [] ∨ m = [0x30] → sets key m value) :
    Framed sets payload v (patchNext p key value).1 := by
  rw [Agent.patchNext]
  cases hp : patchStringZeroTo p.1 key value with
  | none => exact h
  | some p' =>
      obtain ⟨before, sp, m, r, hsp, hm, -, hbefore, rfl⟩ := patchStringZeroTo_some hp
      obtain ⟨w, hw, hvw⟩ := h.parses
      have hplain := h.plain
      have hblank : Blank sp := by
        intro c hc
        rw [hsp c hc]
        rfl
      have hword : Word m := by
        rcases hm with rfl | rfl <;> decide +kernel
      rw [hbefore, field_text] at hw hplain
      obtain ⟨hx, hput⟩ := parse_set_field hkey hne hblank hword hw hplain
      obtain ⟨w', hw', hww'⟩ := hput value hvalue (hset m hm)
      simp only [field_text]
      refine ⟨⟨w', hw', hvw.then hww'⟩, hplain.set_field hx hkey hblank hword hvalue, ?_⟩
      refine h.edits.tail ⟨before, key, sp, m, value, r, hset m hm, hx, hsp, ?_, rfl⟩
      rw [hbefore, field_text]

end

theorem word_synthetic (name version : Bytes) : Word (syntheticSubtaskId name version) := by
  have hlan : Word (ascii "lan-") := by decide +kernel
  have hnibble : ∀ n < 16, Word [hexNibble n] := by decide +kernel
  intro b hb
  rcases List.mem_append.1 hb with hb | hb
  · exact hlan b hb
  · obtain ⟨k, -, rfl⟩ := List.mem_map.1 hb
    exact hnibble _ (Nat.mod_lt _ (by decide)) _ List.mem_cons_self

/-! ## The four patches -/

/-- The fields and their ids, in the order of the patches. -/
def idPatches (name version : Bytes) : List (Bytes × Bytes) :=
  [(ascii "project_id", ascii "lan"), (ascii "profile_id", ascii "lan"),
    (ascii "task_id", syntheticSubtaskId name version), (ascii "subtask_id", syntheticSubtaskId name version)]

def patchAll (p : Bytes × Bool) (patches : List (Bytes × Bytes)) : Bytes × Bool :=
  patches.foldl (fun p a => patchNext p a.1 a.2) p

theorem tryRewritePrintIds_some {payload version name : Bytes}
    (hname : jsonPeekStringField payload (ascii "subtask_name") = some name)
    (hprint : ¬ (name = [] ∨ name = ascii "-1")) :
    tryRewritePrintIds payload version =
      ((patchAll (payload, false) (idPatches name version)).1,
        if (patchAll (payload, false) (idPatches name version)).2 then
          some (syntheticSubtaskId name version) else none) := by
  rw [tryRewritePrintIds, hname]
  simp only [if_neg hprint]
  rfl

/-- A field of an id, and an id. -/
structure IdPatch (a : Bytes × Bytes) : Prop where
  field : a.1 ∈ idFields
  word : Word a.2
  lan : a.2.head? = some (Ascii.letter 'l')

theorem idPatch_of_mem {name version : Bytes} : ∀ a ∈ idPatches name version, IdPatch a := by
  have hlan : Word (ascii "lan") := by decide +kernel
  have hid := word_synthetic name version
  simp only [idPatches, List.forall_mem_cons]
  refine ⟨⟨?_, hlan, rfl⟩, ⟨?_, hlan, rfl⟩, ⟨?_, hid, rfl⟩, ⟨?_, hid, rfl⟩, nofun⟩ <;>
    simp [idFields]

theorem idFields_word : ∀ key ∈ idFields, Word key ∧ key ≠ [] := by
  decide +kernel

theorem Framed.patchAll {sets : Bytes → Bytes → Bytes → Prop} {payload : Bytes} {v : Value}
    {p : Bytes × Bool} (h : Framed sets payload v p.1) {patches : List (Bytes × Bytes)}
    (hpatch : ∀ a ∈ patches, IdPatch a)
    (hset : ∀ a ∈ patches, ∀ m, m = [] ∨ m = [0x30] → sets a.1 m a.2) :
    Framed sets payload v (patchAll p patches).1 := by
  induction patches generalizing p with
  | nil => exact h
  | cons a patches ih =>
      obtain ⟨ha, hpatch⟩ := List.forall_mem_cons.1 hpatch
      obtain ⟨hput, hset⟩ := List.forall_mem_cons.1 hset
      obtain ⟨hword, hne⟩ := idFields_word a.1 ha.field
      exact ih (h.patchNext hword hne ha.word hput) hpatch hset

/-! ## A second time -/

/-- Nothing is put into the field. -/
def FieldFilled (payload key : Bytes) : Prop :=
  jsonPeekStringField payload key ≠ some [] ∧ jsonPeekStringField payload key ≠ some [0x30]

theorem patchNext_filled {p : Bytes × Bool} {key : Bytes} (h : FieldFilled p.1 key) (value : Bytes) :
    patchNext p key value = p := by
  have hnone : patchStringZeroTo p.1 key value = none := by
    rw [← Option.not_isSome_iff_eq_none, patchStringZeroTo_isSome]
    exact not_or.2 h
  rw [patchNext, hnone]

theorem filled_patchNext {a : Bytes × Bytes} (ha : IdPatch a) (p : Bytes × Bool) :
    FieldFilled (patchNext p a.1 a.2).1 a.1 := by
  cases hp : patchStringZeroTo p.1 a.1 a.2 with
  | none =>
      have hno := (patchStringZeroTo_isSome p.1 a.1 a.2).not.1 (by rw [hp]; exact Bool.false_ne_true)
      rw [patchNext, hp]
      exact not_or.1 hno
  | some p' =>
      have hplain : ∀ c ∈ a.2, c ≠ Ascii.quote ∧ c ≠ Ascii.backslash :=
        fun c hc => ⟨(ha.word c hc).2.1, (ha.word c hc).2.2.1⟩
      have hlan := ha.lan
      simp only [patchNext, hp, FieldFilled, patched_peek hplain hp]
      refine ⟨?_, ?_⟩
      · intro h
        rw [Option.some.inj h] at hlan
        cases hlan
      · intro h
        rw [Option.some.inj h] at hlan
        exact absurd (Option.some.inj hlan) (by decide)

theorem FieldFilled.patchNext {p : Bytes × Bool} {key : Bytes} (h : FieldFilled p.1 key) (hkey : key ∈ idFields)
    {a : Bytes × Bytes} (ha : IdPatch a) (hne : a.1 ≠ key) : FieldFilled (patchNext p a.1 a.2).1 key := by
  have hn : FieldName key := fieldName_of_mem key (List.mem_cons_of_mem _ hkey)
  have hother : OtherField key a.1 :=
    ⟨(fieldName_of_mem a.1 (List.mem_cons_of_mem _ ha.field)).no_quote, hne⟩
  have hharmless : Harmless key a.2 := by
    refine ⟨fun c hc => (ha.word c hc).2.1, ?_, ?_⟩
    · rw [ha.lan]
      decide
    · rw [ha.lan]
      exact hn.no_lan.symm
  rw [FieldFilled, peek_patchNext hn hother hharmless]
  exact h

theorem filled_patchAll {p : Bytes × Bool} {patches : List (Bytes × Bytes)}
    (hpatch : ∀ a ∈ patches, IdPatch a) {key : Bytes} (hkey : key ∈ idFields)
    (h : FieldFilled p.1 key ∨ key ∈ patches.map Prod.fst) : FieldFilled (patchAll p patches).1 key := by
  induction patches generalizing p with
  | nil => exact h.resolve_right (List.not_mem_nil)
  | cons a patches ih =>
      obtain ⟨ha, hpatch⟩ := List.forall_mem_cons.1 hpatch
      apply ih hpatch
      by_cases hne : a.1 = key
      · rw [← hne]
        exact Or.inl (filled_patchNext ha p)
      · rcases h with h | h
        · exact Or.inl (h.patchNext hkey ha hne)
        · exact Or.inr ((List.mem_cons.1 h).resolve_left (Ne.symm hne))

theorem patchAll_filled {p : Bytes × Bool} {patches : List (Bytes × Bytes)}
    (h : ∀ a ∈ patches, FieldFilled p.1 a.1) : patchAll p patches = p := by
  induction patches with
  | nil => rfl
  | cons a patches ih =>
      obtain ⟨ha, hpatches⟩ := List.forall_mem_cons.1 h
      rw [patchAll, List.foldl_cons, patchNext_filled ha]
      exact ih hpatches

/-- What has got its ids gets none. -/
theorem rewritten_twice (payload version : Bytes) :
    tryRewritePrintIds (tryRewritePrintIds payload version).1 version =
      ((tryRewritePrintIds payload version).1, none) := by
  have hpeek := peek_rewritten payload version
  cases hname : jsonPeekStringField payload (ascii "subtask_name") with
  | none =>
      have hsame : tryRewritePrintIds payload version = (payload, none) := by
        rw [tryRewritePrintIds, hname]
      rw [hsame, hsame]
  | some name =>
      by_cases hprint : name = [] ∨ name = ascii "-1"
      · have hsame : tryRewritePrintIds payload version = (payload, none) := by
          rw [tryRewritePrintIds, hname]
          simp only [if_pos hprint]
        rw [hsame, hsame]
      · rw [hname] at hpeek
        have hfilled : ∀ a ∈ idPatches name version,
            FieldFilled (patchAll (payload, false) (idPatches name version)).1 a.1 := by
          intro a ha
          exact filled_patchAll idPatch_of_mem (idPatch_of_mem a ha).field
            (Or.inr (List.mem_map_of_mem ha))
        have hagain := @patchAll_filled ((tryRewritePrintIds payload version).1, false)
          (idPatches name version) (by rw [tryRewritePrintIds_some hname hprint]; exact hfilled)
        rw [tryRewritePrintIds_some hpeek hprint, hagain]
        rfl

/-! ## The frame of the edit -/

theorem idFor_of_mem (payload version : Bytes) : ∀ a ∈ idPatches (subtaskNameOf payload) version,
    idFor payload version a.1 = some a.2 := by
  have htask : ¬ (ascii "task_id" = ascii "project_id" ∨ ascii "task_id" = ascii "profile_id") := by
    decide +kernel
  have hsubtask : ¬ (ascii "subtask_id" = ascii "project_id" ∨ ascii "subtask_id" = ascii "profile_id") := by
    decide +kernel
  simp only [idPatches, List.forall_mem_cons]
  refine ⟨?_, ?_, ?_, ?_, nofun⟩
  · exact if_pos (Or.inl rfl)
  · exact if_pos (Or.inr rfl)
  · rw [idFor, if_neg htask, if_pos (Or.inl rfl)]
  · rw [idFor, if_neg hsubtask, if_pos (Or.inr rfl)]

/-- A report that parses and whose keys are written without escapes still parses with its ids put in. The
values differ only in members of the four names that held nothing or `0` and now hold their id, the texts
only in the strings of such members, and putting in ids once more changes nothing. -/
theorem print_ids_frame {payload : Bytes} {o : Object} (hparse : parse payload = .ok (.object o))
    (hkeys : PlainKeys payload) (version : Bytes) :
    (∃ w, parse (tryRewritePrintIds payload version).1 = .ok w ∧
      StringsSet (IdPut payload version) (.object o) w) ∧
    Relation.ReflTransGen (FieldPut (IdPut payload version)) payload (tryRewritePrintIds payload version).1 ∧
    tryRewritePrintIds (tryRewritePrintIds payload version).1 version =
      ((tryRewritePrintIds payload version).1, none) := by
  have hself : Framed (IdPut payload version) payload (.object o) payload :=
    ⟨⟨.object o, hparse, .same _⟩, hkeys, .refl⟩
  have hframed : Framed (IdPut payload version) payload (.object o)
      (tryRewritePrintIds payload version).1 := by
    cases hname : jsonPeekStringField payload (ascii "subtask_name") with
    | none =>
        rw [tryRewritePrintIds, hname]
        exact hself
    | some name =>
        by_cases hprint : name = [] ∨ name = ascii "-1"
        · rw [tryRewritePrintIds, hname]
          simp only [if_pos hprint]
          exact hself
        · rw [tryRewritePrintIds_some hname hprint]
          have hsub : subtaskNameOf payload = name := by
            rw [subtaskNameOf, hname, Option.getD_some]
          apply Framed.patchAll (p := (payload, false)) hself idPatch_of_mem
          intro a ha m hm
          rw [← hsub] at ha
          exact ⟨idFor_of_mem payload version a ha, hm⟩
  exact ⟨hframed.parses, hframed.edits, rewritten_twice payload version⟩

/-- A report of a print without cloud ids. -/
def lanReport : Bytes := ascii "\x7b\"subtask_name\":\"a\",\"task_id\":\"0\"\x7d"

def lanMembers : Object := [(ascii "subtask_name", .string (ascii "a")), (ascii "task_id", .string (ascii "0"))]

theorem parse_lanReport : parse lanReport = .ok (.object lanMembers) := by
  have hsorted : Sorted lanMembers := by
    refine List.Pairwise.cons ?_ (List.pairwise_singleton _ _)
    rw [List.forall_mem_singleton]
    decide +kernel
  have hwritable : Writable (.object lanMembers) := by
    refine .object hsorted (List.forall_mem_cons.2 ⟨.string _, ?_⟩)
    exact List.forall_mem_singleton.2 (.string _)
  have hdump : (Value.object lanMembers).dump = lanReport := by
    decide +kernel
  rw [← hdump]
  exact parse_dump hwritable

theorem print_ids_frame_lanReport :
    (∃ w, parse (tryRewritePrintIds lanReport []).1 = .ok w ∧
      StringsSet (IdPut lanReport []) (.object lanMembers) w) ∧
    Relation.ReflTransGen (FieldPut (IdPut lanReport [])) lanReport (tryRewritePrintIds lanReport []).1 ∧
    tryRewritePrintIds (tryRewritePrintIds lanReport []).1 [] =
      ((tryRewritePrintIds lanReport []).1, none) :=
  print_ids_frame parse_lanReport (by decide +kernel) []

end OpenBambu.Agent
