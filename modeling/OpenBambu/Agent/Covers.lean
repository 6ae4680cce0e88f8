import OpenBambu.Foundation.BoundedMap
import OpenBambu.Foundation.Text

/-!
# Covers of running prints

The part of `Agent::notify_local_message` that names the cover of a running print, and
`Agent::lookup_synthetic_subtask`. A report without cloud ids gets a synthetic subtask id; the
subtask of every id is kept in a map of 16 entries.
-/

namespace OpenBambu.Agent

open OpenBambu.Foundation

/-! ## Fields of a report -/

/-- The text up to the closing quote. A backslash takes the next byte with it. -/
def stringEnd : Bytes → Option Bytes
  | [] => none
  | [c] => if c = Ascii.quote then some [] else none
  | c :: d :: s =>
      if c = Ascii.quote then some []
      else if c = Ascii.backslash then (stringEnd s).map fun t => c :: d :: t
      else (stringEnd (d :: s)).map fun t => c :: t

def needleOf (key : Bytes) : Bytes := ascii "\"" ++ key ++ ascii "\":"

def jsonPeekStringField (payload key : Bytes) : Option Bytes :=
  match findText (needleOf key) payload with
  | none => none
  | some (_, s) =>
      match s.dropWhile (· = Ascii.sp) with
      | [] => none
      | c :: s => if c = Ascii.quote then stringEnd s else none

/-- The payload with the value in place of `""` or `"0"`, if one of these was there. -/
def patchStringZeroTo (payload key value : Bytes) : Option Bytes :=
  match findText (needleOf key) payload with
  | none => none
  | some (before, s) =>
      let head := before ++ needleOf key ++ s.takeWhile (· = Ascii.sp)
      match s.dropWhile (· = Ascii.sp) with
      | a :: b :: s =>
          if a ≠ Ascii.quote then none
          else if b = Ascii.quote then some (head ++ ascii "\"" ++ value ++ ascii "\"" ++ s)
          else
            match s with
            | c :: s =>
                if b = 0x30 ∧ c = Ascii.quote then
                  some (head ++ ascii "\"" ++ value ++ ascii "\"" ++ s)
                else none
            | [] => none
      | _ => none

def fnv1a32 (s : Bytes) : UInt32 := s.foldl (fun h c => (h ^^^ c.toUInt32) * 16777619) 2166136261

/-- The name alone, or the name and the version behind a separator. -/
def keyed (subtaskName version : Bytes) : Bytes :=
  if version = [] then subtaskName else subtaskName ++ 0x01 :: version

def syntheticSubtaskId (subtaskName version : Bytes) : Bytes :=
  ascii "lan-" ++ hex8 (fnv1a32 (keyed subtaskName version))

/-- One patch of `try_rewrite_print_ids`, with whether any was made. -/
def patchNext (p : Bytes × Bool) (key value : Bytes) : Bytes × Bool :=
  match patchStringZeroTo p.1 key value with
  | some payload => (payload, true)
  | none => p

/-- The payload with synthetic ids for missing ones, and the id if any was put in. -/
def tryRewritePrintIds (payload version : Bytes) : Bytes × Option Bytes :=
  match jsonPeekStringField payload (ascii "subtask_name") with
  | none => (payload, none)
  | some name =>
      if name = [] ∨ name = ascii "-1" then (payload, none)
      else
        let id := syntheticSubtaskId name version
        let p := patchNext (payload, false) (ascii "project_id") (ascii "lan")
        let p := patchNext p (ascii "profile_id") (ascii "lan")
        let p := patchNext p (ascii "task_id") id
        let p := patchNext p (ascii "subtask_id") id
        (p.1, if p.2 then some id else none)

/-- The token of the running print: its task id, or else the time it started. -/
def printVersion (json : Bytes) : Bytes :=
  let version := (jsonPeekStringField json (ascii "task_id")).getD []
  if version = [] ∨ version = ascii "0" then
    (jsonPeekStringField json (ascii "gcode_start_time")).getD []
  else version

structure SyntheticSubtask where
  subtaskName : Bytes
  plateIdx : Nat
  version : Bytes
  deriving DecidableEq, Repr

/-- The cover id of a report and the subtask recorded for it. -/
def coverOf (json : Bytes) : Option (Bytes × SyntheticSubtask) :=
  let version := printVersion json
  let patched := tryRewritePrintIds json version
  let subtaskName := (jsonPeekStringField patched.1 (ascii "subtask_name")).getD []
  let realSubtaskId := (jsonPeekStringField patched.1 (ascii "subtask_id")).getD []
  if subtaskName = [] ∨ subtaskName = ascii "-1" then none
  else
    match patched.2 with
    | some synthId => some (synthId, ⟨subtaskName, 1, version⟩)
    | none =>
        if realSubtaskId = [] ∨ realSubtaskId = ascii "0" then none
        else some (realSubtaskId, ⟨subtaskName, 1, []⟩)

/-! ## The map -/

def kSyntheticSubtasks : Nat := 16

structure CoverState where
  syntheticSubtasks : OrderedMap Bytes SyntheticSubtask
  /-- The port of the cover server, once it runs. -/
  coverServer : Option Nat

/-- A report, and the port the cover server gets if it is started now and starts. -/
structure Report where
  json : Bytes
  serverStart : Option Nat

/-- The critical section of `notify_local_message`. -/
def notifyLocalMessage (s : CoverState) (r : Report) : CoverState :=
  match coverOf r.json with
  | none => s
  | some (coverId, subtask) =>
      { syntheticSubtasks := s.syntheticSubtasks.record kSyntheticSubtasks coverId subtask
        coverServer := s.coverServer.or r.serverStart }

structure SubtaskCoverInfo where
  subtaskName : Bytes
  plateIdx : Nat
  url : Bytes
  deriving DecidableEq, Repr

def coverFile (subtaskName : Bytes) (plateIdx : Nat) (version : Bytes) : Bytes :=
  ascii "cover-" ++ hex8 (fnv1a32 (keyed subtaskName version)) ++ ascii "-p" ++
    decimal (if 0 < plateIdx then plateIdx else 1) ++ ascii ".png"

/-- `Server::url_for`. -/
def urlFor (port : Nat) (subtaskName : Bytes) (plateIdx : Nat) (version : Bytes) : Bytes :=
  if port = 0 ∨ subtaskName = [] then []
  else ascii "http://127.0.0.1:" ++ decimal port ++ ascii "/cover/" ++ coverFile subtaskName plateIdx version

/-- What is told of a subtask: its name, its plate, and the address of the cover of this
version. -/
def coverInfo (coverServer : Option Nat) (e : SyntheticSubtask) : SubtaskCoverInfo where
  subtaskName := e.subtaskName
  plateIdx := e.plateIdx
  url := match coverServer with
    | some port => urlFor port e.subtaskName e.plateIdx e.version
    | none => []

def lookupSyntheticSubtask (s : CoverState) (subtaskId : Bytes) : Option SubtaskCoverInfo :=
  (s.syntheticSubtasks.find subtaskId).map (coverInfo s.coverServer)

def CoverState.start : CoverState := ⟨.empty, none⟩

def notifyAll (reports : List Report) : CoverState := reports.foldl notifyLocalMessage .start

/-! ## The history of the map -/

/-- The assignments to the map, newest first. -/
def coverHistory (reports : List Report) : List (Bytes × SyntheticSubtask) :=
  (reports.filterMap fun r => coverOf r.json).reverse

/-- At every time the subtask of an id is found as the latest report with the id has it, until
16 other ids were recorded. -/
def CoversFound (reports : List Report) : Prop :=
  ∀ past rest, reports = past ++ rest → ∀ id e, latest id (coverHistory past) = some e →
    othersSince id ((coverHistory past).map Prod.fst) < kSyntheticSubtasks →
      lookupSyntheticSubtask (notifyAll past) id = some (coverInfo (notifyAll past).coverServer e)

theorem coverHistory_append (past : List Report) (r : Report) :
    coverHistory (past ++ [r]) = (coverOf r.json).toList ++ coverHistory past := by
  simp only [coverHistory, List.filterMap_append, List.reverse_append]
  cases hc : coverOf r.json <;> simp [hc]

/-- The map is the bounded map of the recorded subtasks. -/
theorem notifyAll_map (reports : List Report) :
    (notifyAll reports).syntheticSubtasks = .held kSyntheticSubtasks (coverHistory reports) := by
  induction reports using List.reverseRecOn with
  | nil => rfl
  | append_singleton past r ih =>
      rw [notifyAll, List.foldl_append, ← notifyAll, List.foldl_cons, List.foldl_nil, coverHistory_append,
        notifyLocalMessage]
      cases coverOf r.json with
      | none => exact ih
      | some e =>
          show (notifyAll past).syntheticSubtasks.record kSyntheticSubtasks e.1 e.2 = _
          rw [ih]
          rfl

theorem notifyAll_size (reports : List Report) :
    (notifyAll reports).syntheticSubtasks.size ≤ kSyntheticSubtasks := by
  rw [notifyAll_map]
  exact OrderedMap.size_held _ _

theorem lookup_isSome (s : CoverState) (id : Bytes) :
    (lookupSyntheticSubtask s id).isSome = (s.syntheticSubtasks.find id).isSome := by
  rw [lookupSyntheticSubtask, Option.isSome_map]

/-- The histories of the past are the ends of the history. -/
theorem coverHistory_suffix {past rest : List Report} :
    coverHistory past <:+ coverHistory (past ++ rest) := by
  rw [coverHistory, coverHistory, List.filterMap_append, List.reverse_append]
  exact List.suffix_append _ _

theorem exists_past {reports : List Report} {h : List (Bytes × SyntheticSubtask)}
    (hs : h <:+ coverHistory reports) : ∃ past rest, reports = past ++ rest ∧ coverHistory past = h := by
  induction reports using List.reverseRecOn with
  | nil =>
      refine ⟨[], [], rfl, ?_⟩
      exact (List.suffix_nil.1 hs).symm
  | append_singleton reports r ih =>
      by_cases he : h = coverHistory (reports ++ [r])
      · exact ⟨reports ++ [r], [], by simp, he.symm⟩
      · have hs' : h <:+ coverHistory reports := by
          rw [coverHistory_append] at hs he
          cases hc : coverOf r.json with
          | none =>
              rw [hc] at hs
              exact hs
          | some e =>
              rw [hc] at hs he
              exact (List.suffix_cons_iff.1 hs).resolve_left he
        obtain ⟨past, rest, rfl, hp⟩ := ih hs'
        exact ⟨past, rest ++ [r], by simp, hp⟩

theorem coversFound_iff (reports : List Report) :
    CoversFound reports ↔ ∀ h, h <:+ coverHistory reports → OrderedMap.KeepsRecent kSyntheticSubtasks h := by
  constructor
  · intro hf h hs id e he ho
    obtain ⟨past, rest, hr, rfl⟩ := exists_past hs
    have hl := hf past rest hr id e he ho
    have hm : ((notifyAll past).syntheticSubtasks.find id).isSome = true := by
      rw [← lookup_isSome, hl]
      rfl
    obtain ⟨e', he'⟩ := Option.isSome_iff_exists.1 hm
    rw [notifyAll_map] at he'
    rw [he', ← OrderedMap.latest_of_find he', he]
  · intro hk past rest hr id e he ho
    have hs : coverHistory past <:+ coverHistory reports := hr ▸ coverHistory_suffix
    rw [lookupSyntheticSubtask, notifyAll_map, hk _ hs id e he ho]
    rfl

/-- The law of the covers: never more than 16 entries, and no cover lost before 16 others. -/
def CoverLaw (reports : List Report) : Prop :=
  (∀ past rest, reports = past ++ rest →
    (notifyAll past).syntheticSubtasks.size ≤ kSyntheticSubtasks) ∧ CoversFound reports

/-- The map keeps the covers of the last 16 ids exactly when the id that has to go is always the
first one in the order of the bytes. -/
theorem coverLaw_iff (reports : List Report) :
    CoverLaw reports ↔ OrderedMap.OldestFirst kSyntheticSubtasks (coverHistory reports) := by
  have hcap : 0 < kSyntheticSubtasks := by decide
  rw [← OrderedMap.keepsRecent_iff hcap, ← coversFound_iff, CoverLaw]
  constructor
  · intro h
    exact h.2
  · intro h
    refine ⟨?_, h⟩
    intro past rest _
    exact notifyAll_size past

/-- Reports of prints that the cloud numbered. -/
def cloudPrint (number : Nat) : Report where
  json := ascii "\x7b\"subtask_name\":\"cube\",\"subtask_id\":\"" ++ decimal number ++ ascii "\"\x7d"
  serverStart := none

/-- The sixteen prints 20, …, 35, and then the print 10. -/
def lateFirst : List Report := (List.range' 20 16).map cloudPrint ++ [cloudPrint 10]

theorem lateFirst_lookup : lookupSyntheticSubtask (notifyAll lateFirst) (ascii "10") = none := by
  decide +kernel

theorem lateFirst_latest : latest (ascii "10") (coverHistory lateFirst) = some ⟨ascii "cube", 1, []⟩ := by
  decide +kernel

/-- The subtask of the running print is the one that goes. -/
theorem coverLaw_fails : ¬ CoverLaw lateFirst := by
  intro h
  have hl := h.2 lateFirst [] (by simp) (ascii "10") _ lateFirst_latest (by decide +kernel)
  rw [lateFirst_lookup] at hl
  cases hl

end OpenBambu.Agent
