import OpenBambu.Foundation.OrderedMap
import OpenBambu.Foundation.Run
import OpenBambu.Foundation.Text
import OpenBambu.Json.Parser
import Mathlib.Logic.Function.Basic

/-!
# The cache of user presets

`sync_user_presets` fills the cache of the agent with the presets that `cloud_presets::list` found,
and `bambu_network_get_user_presets` drains it. Syncs and drains take turns at the mutex of the
agent, in any order.
-/

namespace OpenBambu.Agent

open OpenBambu.Foundation OpenBambu.Json

/-! ## The catalogue -/

/-- One number of a `sscanf` format, of at most `width` characters. -/
def scanInt (width : Nat) (s : Bytes) : Option (Int × Bytes) :=
  let s := s.dropWhile isspace
  let negative := (s.take width).head? = some Ascii.minus
  let sign := if negative ∨ (s.take width).head? = some Ascii.plus then 1 else 0
  let digits := ((s.take width).drop sign).takeWhile isDigit
  if digits = [] then none
  else some (if negative then -(ofDecimal digits : Int) else ofDecimal digits, s.drop (sign + digits.length))

def scanChar (c : Byte) (s : Bytes) : Option Bytes :=
  match s with
  | [] => none
  | d :: s => if d = c then some s else none

/-- Days since the epoch, of a month that counts from 0 and may be out of range. -/
def daysFromCivil (year month day : Int) : Int :=
  let m := month.emod 12
  let y := year + month.ediv 12 - (if m < 2 then 1 else 0)
  let doy := (153 * (if m < 2 then m + 10 else m - 2) + 2).ediv 5 + day - 1
  365 * y + y.ediv 4 - y.ediv 100 + y.ediv 400 + doy - 719468

def timegm (year month day hour minute second : Int) : Int :=
  daysFromCivil year month day * 86400 + hour * 3600 + minute * 60 + second

/-- `YYYY-MM-DD HH:MM:SS`, as seconds since the epoch. -/
def scanDateTime (s : Bytes) : Option Int := do
  let (year, s) ← scanInt 4 s
  let s ← scanChar Ascii.minus s
  let (month, s) ← scanInt 2 s
  let s ← scanChar Ascii.minus s
  let (day, s) ← scanInt 2 s
  let (hour, s) ← scanInt 2 (s.dropWhile isspace)
  let s ← scanChar Ascii.colon s
  let (minute, s) ← scanInt 2 s
  let s ← scanChar Ascii.colon s
  let (second, _) ← scanInt 2 s
  return timegm year (month - 1) day hour minute second

def parseIsoUtc (s : Bytes) : Int :=
  match scanDateTime s with
  | some t => if t = -1 then 0 else t
  | none => 0

example : parseIsoUtc (ascii "2026-04-21 17:11:27") = 1776791487 := by decide +kernel

structure Meta where
  type : Bytes
  settingId : Bytes
  name : Bytes
  version : Bytes
  baseId : Bytes
  filamentId : Bytes
  inherits : Bytes
  updateTime : Bytes
  updatedTimeUnix : Int
  deriving DecidableEq, Repr

def metaOf (type : Bytes) (item : Value) : Meta :=
  let text (key : String) := (item.find (ascii key)).asString
  { type
    settingId := text "setting_id"
    name := text "name"
    version := text "version"
    baseId := text "base_id"
    filamentId := text "filament_id"
    inherits := text "inherits"
    updateTime := text "update_time"
    updatedTimeUnix := parseIsoUtc (text "update_time") }

def types : List Bytes := [ascii "print", ascii "printer", ascii "filament"]

/-- A body without a JSON value counts as an empty object. -/
def parseBody (body : Bytes) : Value :=
  match parse body with
  | .error _ => .object []
  | .ok v => v

/-- Every private preset of the reply. -/
def privatePresets (body : Bytes) : List Meta :=
  types.flatMap fun type =>
    ((parseBody body).find (type ++ ascii ".private")).asArray.map (metaOf type)

/-- `cloud_presets::list`, from the body of a successful reply. -/
def listed (body : Bytes) : List Meta :=
  (privatePresets body).filter fun m => m.settingId ≠ [] ∧ m.name ≠ []

/-! ## The cache -/

abbrev Values := OrderedMap Bytes Bytes

def metaToCheckMap (m : Meta) : Values :=
  (((OrderedMap.empty.insert (ascii "type") m.type).insert (ascii "name") m.name).insert
    (ascii "setting_id") m.settingId).insert (ascii "updated_time") (signed m.updatedTimeUnix)

def putNonempty (values : Values) (key : String) (value : Bytes) : Values :=
  if value = [] then values else values.insert (ascii key) value

def metaToMinimalValuesMap (m : Meta) (userId : Bytes) : Values :=
  let values := metaToCheckMap m
  let values := putNonempty values "update_time" m.updateTime
  let values := putNonempty values "version" m.version
  let values := putNonempty values "base_id" m.baseId
  let values := putNonempty values "inherits" m.inherits
  let values := if m.type = ascii "filament" then putNonempty values "filament_id" m.filamentId else values
  putNonempty values "user_id" userId

/-- A value for a key that is missing or empty. -/
def inject (values : Values) (key : String) (value : Bytes) : Values :=
  if (values.find (ascii key)).getD [] = [] then values.insert (ascii key) value else values

def injectDefaults (m : Meta) (values : Values) : Values :=
  let values := inject values "type" m.type
  let values := inject values "setting_id" m.settingId
  let values := inject values "name" m.name
  let values := inject values "version" m.version
  let values := if m.inherits = [] then values else inject values "inherits" m.inherits
  if m.type = ascii "filament" ∧ m.filamentId ≠ [] then inject values "filament_id" m.filamentId
  else values

/-- The entry of a preset: what `get_full` brought, if it was wanted and brought something. -/
def entryOf (m : Meta) (userId : Bytes) (want : Bool) (getFull : Except Int Values) : Values :=
  match want, getFull with
  | true, .ok values =>
      if values.size = 0 then metaToMinimalValuesMap m userId else injectDefaults m values
  | _, _ => metaToMinimalValuesMap m userId

abbrev PresetCache := OrderedMap Bytes Values

/-- Where a thread is in `sync_user_presets`. -/
inductive Sync where
  | idle
  /-- `list` came back, the cache is not yet reset. -/
  | listed (metas : List Meta)
  | looping (userId : Bytes) (todo : List Meta)

inductive PresetEvent where
  /-- `list` comes back on this thread, with the body of a successful reply if there is one. -/
  | list (thread : Nat) (reply : Option Bytes)
  | reset (thread : Nat) (userId : Bytes)
  /-- One turn of the loop, which first asks `cancel_fn`. -/
  | turn (thread : Nat) (cancelled : Bool) (chkFn : Option (Values → Bool)) (getFull : Except Int Values)
  | getUserPresets

structure PresetState where
  cache : PresetCache
  syncs : Nat → Sync
  /-- The private presets of the last listing. -/
  catalogue : List Meta

def PresetState.start : PresetState := ⟨.empty, fun _ => .idle, []⟩

def PresetState.goto (s : PresetState) (thread : Nat) (sync : Sync) : PresetState :=
  { s with syncs := Function.update s.syncs thread sync }

/-- `preset_cache_reset`, and what `preset_cache_drain` leaves. -/
def PresetState.emptied (s : PresetState) : PresetState := { s with cache := .empty }

def PresetState.presetCachePut (s : PresetState) (m : Meta) (values : Values) : PresetState :=
  { s with cache := s.cache.insert m.name values }

/-- An event of a thread that is elsewhere changes nothing. -/
def PresetState.step (s : PresetState) : PresetEvent → PresetState
  | .list thread reply =>
      match s.syncs thread, reply with
      | .idle, some body =>
          { s.goto thread (.listed (listed body)) with catalogue := privatePresets body }
      | _, _ => s
  | .reset thread userId =>
      match s.syncs thread with
      | .listed metas => s.emptied.goto thread (.looping userId metas)
      | _ => s
  | .turn thread cancelled chkFn getFull =>
      match s.syncs thread with
      | .looping _ [] => s.goto thread .idle
      | .looping userId (m :: todo) =>
          if cancelled then s.goto thread .idle
          else
            let want := match chkFn with
              | some chkFn => chkFn (metaToCheckMap m)
              | none => true
            (s.presetCachePut m (entryOf m userId want getFull)).goto thread (.looping userId todo)
      | _ => s
  | .getUserPresets => s.emptied

/-! ## What a drain returns -/

/-- The map has one entry for every private preset, and no other. -/
def OneEntryEach (cache : PresetCache) (catalogue : List Meta) : Prop :=
  cache.keys.Perm (catalogue.map Meta.name)

/-- A call of `get_user_presets` returns nothing or the whole catalogue. -/
def DrainsWhole (s : PresetState) (e : PresetEvent) : Prop :=
  e = .getUserPresets → s.cache.size = 0 ∨ OneEntryEach s.cache s.catalogue

/-! ## Turns and calls -/

/-- The preset whose turn of the loop an event is, if its sync is not cancelled there. -/
def PresetState.turnOf (s : PresetState) : PresetEvent → List Meta
  | .turn thread false _ _ =>
      match s.syncs thread with
      | .looping _ (m :: _) => [m]
      | _ => []
  | _ => []

/-- A sync that goes from its listing to its loop, or a call of `get_user_presets`. -/
def PresetState.startsOver (s : PresetState) : PresetEvent → Bool
  | .reset thread _ =>
      match s.syncs thread with
      | .listed _ => true
      | _ => false
  | .getUserPresets => true
  | _ => false

/-- The presets that have had a turn since a sync or a call last started over, behind a run from `s`;
`had` are those at its start. -/
def turnsHad : PresetState → List Meta → List PresetEvent → List Meta
  | _, had, [] => had
  | s, had, e :: run => turnsHad (s.step e) (if s.startsOver e then [] else had ++ s.turnOf e) run

theorem turnsHad_append (s : PresetState) (had : List Meta) (past run : List PresetEvent) :
    turnsHad s had (past ++ run) = turnsHad (after PresetState.step s past) (turnsHad s had past) run := by
  induction past generalizing s had with
  | nil => rfl
  | cons e past ih => exact ih (s.step e) _

/-- Since the last start over no preset has had a turn, or just those of the last listing have, of which
no two have one name. -/
def CallInTime (past : List PresetEvent) : Prop :=
  turnsHad .start [] past = [] ∨
    ((after PresetState.step .start past).catalogue.map Meta.name).Nodup ∧
      ∀ name, name ∈ (turnsHad .start [] past).map Meta.name ↔
        name ∈ (after PresetState.step .start past).catalogue.map Meta.name

/-- Every call of `get_user_presets` in a run comes in time. -/
def CallsInTime (run : List PresetEvent) : Prop :=
  ∀ past rest, run = past ++ .getUserPresets :: rest → CallInTime past

/-- The keys of the cache are the names of the presets that have had a turn. -/
def Filled (s : PresetState) (had : List Meta) : Prop :=
  ∀ name, name ∈ s.cache.keys ↔ name ∈ had.map Meta.name

theorem filled_empty {s : PresetState} (h : s.cache = .empty) : Filled s [] := by
  intro name
  rw [h]
  rfl

theorem Filled.put {s : PresetState} {had : List Meta} (h : Filled s had) (m : Meta) (values : Values) :
    Filled (s.presetCachePut m values) (had ++ [m]) := by
  intro name
  rw [PresetState.presetCachePut, OrderedMap.mem_keys_insert, h name, List.map_append, List.mem_append]
  simp [or_comm]

theorem Filled.goto {s : PresetState} {had : List Meta} (h : Filled s had) (thread : Nat) (sync : Sync) :
    Filled (s.goto thread sync) had := h

/-- One event: a turn puts its preset and nothing else does, and starting over empties the cache. -/
theorem Filled.step {s : PresetState} {had : List Meta} (h : Filled s had) (e : PresetEvent) :
    Filled (s.step e) (if s.startsOver e then [] else had ++ s.turnOf e) := by
  cases e with
  | list thread reply =>
      have hsame : Filled (s.step (.list thread reply)) had := by
        simp only [PresetState.step]
        split
        · exact h
        · exact h
      simpa [PresetState.startsOver, PresetState.turnOf] using hsame
  | reset thread userId =>
      cases hs : s.syncs thread with
      | listed metas => simpa [PresetState.step, PresetState.startsOver, hs] using filled_empty rfl
      | _ => simpa [PresetState.step, PresetState.startsOver, PresetState.turnOf, hs] using h
  | turn thread cancelled chkFn getFull =>
      cases cancelled with
      | true =>
          have hsame : Filled (s.step (.turn thread true chkFn getFull)) had := by
            simp only [PresetState.step]
            split
            · exact h
            · exact h
            · exact h
          simpa [PresetState.startsOver, PresetState.turnOf] using hsame
      | false =>
          cases hs : s.syncs thread with
          | looping userId todo =>
              cases todo with
              | nil =>
                  simpa [PresetState.step, PresetState.startsOver, PresetState.turnOf, hs] using
                    h.goto thread .idle
              | cons m todo =>
                  simpa [PresetState.step, PresetState.startsOver, PresetState.turnOf, hs] using
                    (h.put m _).goto thread (.looping userId todo)
          | _ => simpa [PresetState.step, PresetState.startsOver, PresetState.turnOf, hs] using h
  | getUserPresets => simpa [PresetState.startsOver] using filled_empty rfl

theorem Filled.after {s : PresetState} {had : List Meta} (h : Filled s had) (run : List PresetEvent) :
    Filled (after PresetState.step s run) (turnsHad s had run) := by
  induction run generalizing s had with
  | nil => exact h
  | cons e run ih => exact ih (h.step e)

/-- A call drains nothing or the whole catalogue exactly when it comes in time. -/
theorem drainsWhole_iff (past : List PresetEvent) :
    DrainsWhole (after PresetState.step .start past) .getUserPresets ↔ CallInTime past := by
  have hfilled := (filled_empty (s := .start) rfl).after past
  unfold DrainsWhole CallInTime
  rw [imp_iff_right rfl]
  generalize after PresetState.step .start past = s at hfilled ⊢
  generalize turnsHad .start [] past = had at hfilled ⊢
  have hempty : s.cache.size = 0 ↔ had = [] := by
    rw [OrderedMap.size_eq_keys, List.length_eq_zero_iff, ← List.map_eq_nil_iff (f := Meta.name),
      List.eq_nil_iff_forall_not_mem, List.eq_nil_iff_forall_not_mem]
    exact forall_congr' fun name => not_congr (hfilled name)
  have hperm : OneEntryEach s.cache s.catalogue ↔ (s.catalogue.map Meta.name).Nodup ∧
      ∀ name, name ∈ had.map Meta.name ↔ name ∈ s.catalogue.map Meta.name := by
    constructor
    · intro hp
      refine ⟨hp.nodup s.cache.keys_nodup, ?_⟩
      intro name
      rw [← hfilled name, hp.mem_iff]
    · intro ⟨hnd, hmem⟩
      apply (List.perm_ext_iff_of_nodup s.cache.keys_nodup hnd).2
      intro name
      rw [hfilled name, hmem name]
  rw [hempty, hperm]

/-! ## A sync that nothing disturbs -/

/-- What `chk_fn` and `get_full` come to in one turn. -/
abbrev TurnAnswer := Option (Values → Bool) × Except Int Values

/-- A sync as far as the turns go that have their answers, and further turns at which `cancel_fn` says
yes. -/
def syncRun (thread : Nat) (body userId : Bytes) (answers cancelled : List TurnAnswer) : List PresetEvent :=
  .list thread (some body) :: .reset thread userId ::
    ((answers.map fun a => .turn thread false a.1 a.2) ++ cancelled.map fun a => .turn thread true a.1 a.2)

/-- Turns that are cancelled put nothing. -/
theorem turnsHad_cancelled (s : PresetState) (had : List Meta) (thread : Nat) (cancelled : List TurnAnswer) :
    turnsHad s had (cancelled.map fun a => .turn thread true a.1 a.2) = had ∧
      (after PresetState.step s (cancelled.map fun a => .turn thread true a.1 a.2)).catalogue =
        s.catalogue := by
  induction cancelled generalizing s with
  | nil => exact ⟨rfl, rfl⟩
  | cons a cancelled ih =>
      obtain ⟨hturns, hcat⟩ := ih (s.step (.turn thread true a.1 a.2))
      have hc : (s.step (.turn thread true a.1 a.2)).catalogue = s.catalogue := by
        simp only [PresetState.step]
        split
        · rfl
        · rfl
        · rfl
      constructor
      · rw [List.map_cons, turnsHad]
        simpa [PresetState.startsOver, PresetState.turnOf] using hturns
      · rw [List.map_cons, after_cons, hcat, hc]

theorem turnsHad_turns {thread : Nat} {userId : Bytes} {todo : List Meta} {answers : List TurnAnswer}
    (hlen : answers.length ≤ todo.length) {s : PresetState} (hs : s.syncs thread = .looping userId todo)
    (had : List Meta) :
    turnsHad s had (answers.map fun a => .turn thread false a.1 a.2) = had ++ todo.take answers.length ∧
      (after PresetState.step s (answers.map fun a => .turn thread false a.1 a.2)).catalogue =
        s.catalogue := by
  induction answers generalizing todo s had with
  | nil => simp [turnsHad]
  | cons a answers ih =>
      obtain ⟨m, todo, rfl⟩ := List.exists_cons_of_length_pos (l := todo) (Nat.lt_of_lt_of_le (by simp) hlen)
      obtain ⟨s', hstep, hs', hc⟩ : ∃ s', s.step (.turn thread false a.1 a.2) = s' ∧
          s'.syncs thread = .looping userId todo ∧ s'.catalogue = s.catalogue := by
        refine ⟨_, rfl, ?_, ?_⟩ <;> simp [PresetState.step, hs, PresetState.goto, PresetState.presetCachePut]
      obtain ⟨hturns, hcat⟩ := ih (by simpa using hlen) hs' (had ++ [m])
      have hover : s.startsOver (.turn thread false a.1 a.2) = false := rfl
      have hturn : s.turnOf (.turn thread false a.1 a.2) = [m] := by simp [PresetState.turnOf, hs]
      constructor
      · rw [List.map_cons, turnsHad, hover, hturn, hstep]
        simpa using hturns
      · rw [List.map_cons, after_cons, hstep, hcat, hc]

/-- Behind some turns of a sync, cancelled or not, a call comes in time only if there were none, or all of
them and every private preset has an id and a name of its own. -/
theorem syncRun_inTime_iff {past : List PresetEvent} {thread : Nat} (body userId : Bytes)
    {answers : List TurnAnswer} (cancelled : List TurnAnswer)
    (hs : (after PresetState.step .start past).syncs thread = .idle)
    (hlen : answers.length ≤ (listed body).length) :
    CallInTime (past ++ syncRun thread body userId answers cancelled) ↔
      answers = [] ∨ answers.length = (listed body).length ∧ listed body = privatePresets body ∧
        ((privatePresets body).map Meta.name).Nodup := by
  obtain ⟨s', hs', hstep, hc⟩ : ∃ s' : PresetState, s'.syncs thread = .looping userId (listed body) ∧
      ((after PresetState.step .start past).step (.list thread (some body))).step (.reset thread userId) = s' ∧
        s'.catalogue = privatePresets body := by
    refine ⟨_, ?_, rfl, ?_⟩ <;> simp [PresetState.step, hs, PresetState.goto, PresetState.emptied]
  have hover : ((after PresetState.step .start past).step (.list thread (some body))).startsOver
      (.reset thread userId) = true := by
    simp [PresetState.step, PresetState.startsOver, hs, PresetState.goto]
  obtain ⟨hturns, hcat⟩ := turnsHad_turns hlen hs' []
  have hhad : turnsHad .start [] (past ++ syncRun thread body userId answers cancelled) =
      (listed body).take answers.length := by
    rw [turnsHad_append, syncRun, turnsHad, turnsHad, hover, if_pos rfl, hstep, turnsHad_append,
      (turnsHad_cancelled _ _ thread cancelled).1, hturns, List.nil_append]
  have hcatalogue : (after PresetState.step .start
      (past ++ syncRun thread body userId answers cancelled)).catalogue = privatePresets body := by
    rw [after_append, syncRun, after_cons, after_cons, hstep, after_append,
      (turnsHad_cancelled _ [] thread cancelled).2, hcat, hc]
  have hnone : (listed body).take answers.length = [] ↔ answers = [] := by
    rw [← List.length_eq_zero_iff, List.length_take, Nat.min_eq_left hlen, List.length_eq_zero_iff]
  rw [CallInTime, hhad, hcatalogue, hnone]
  refine or_congr_right ?_
  constructor
  · intro ⟨hnd, hnames⟩
    -- the presets that had their turn are some of the private ones, with as many names
    have hsub : ((listed body).take answers.length).Sublist (privatePresets body) :=
      (List.take_sublist _ _).trans List.filter_sublist
    have hall : (listed body).take answers.length = privatePresets body := by
      refine hsub.eq_of_length_le ?_
      have hperm := (List.perm_ext_iff_of_nodup ((hsub.map Meta.name).nodup hnd) hnd).2 hnames
      simpa using hperm.length_eq.ge
    have hle : (privatePresets body).length ≤ (listed body).length := by
      rw [← congrArg List.length hall]
      exact List.length_take_le' _ _
    have hlisted : listed body = privatePresets body := List.filter_sublist.eq_of_length_le hle
    refine ⟨?_, hlisted, hnd⟩
    have := congrArg List.length hall
    rw [← hlisted, List.length_take] at this
    omega
  · intro ⟨hwhole, hlisted, hnd⟩
    refine ⟨hnd, ?_⟩
    rw [hwhole, List.take_length, hlisted]
    exact fun _ => Iff.rfl

/-- Every call of `get_user_presets` in a run returns nothing or the whole catalogue exactly when every
call comes in time; behind the run and a further sync, cancelled or not, that is before its first turn, or
behind its last with an id and a name of its own for every private preset. -/
theorem presets_whole_iff (run : List PresetEvent) :
    (AtEveryStep PresetState.step DrainsWhole .start run ↔ CallsInTime run) ∧
      ∀ thread body userId answers cancelled,
        (after PresetState.step .start run).syncs thread = .idle → answers.length ≤ (listed body).length →
          (CallInTime (run ++ syncRun thread body userId answers cancelled) ↔
            answers = [] ∨ answers.length = (listed body).length ∧ listed body = privatePresets body ∧
              ((privatePresets body).map Meta.name).Nodup) := by
  refine ⟨⟨fun h past rest hr => ?_, fun h past e rest hr he => ?_⟩,
    fun thread body userId answers cancelled hs hlen => syncRun_inTime_iff body userId cancelled hs hlen⟩
  · exact (drainsWhole_iff past).1 (h past .getUserPresets rest hr)
  · subst he
    exact (drainsWhole_iff past).2 (h past rest hr) rfl

/-- Two filament presets. -/
def twoPresets : Bytes :=
  ascii "\x7b\"filament\":\x7b\"private\":[\x7b\"setting_id\":\"1\",\"name\":\"a\"\x7d," ++
    ascii "\x7b\"setting_id\":\"2\",\"name\":\"b\"\x7d]\x7d\x7d"

/-- A sync that is cancelled behind the first of them, and then a drain. -/
def cancelledSync : List PresetEvent :=
  [.list 0 (some twoPresets), .reset 0 [], .turn 0 false none (.error (-1)),
    .turn 0 true none (.error (-1)), .getUserPresets]

theorem presets_whole_fails : ¬ AtEveryStep PresetState.step DrainsWhole .start cancelledSync := by
  intro h
  have hdrain := h (cancelledSync.take 4) .getUserPresets [] rfl rfl
  rcases hdrain with hsize | hperm
  · revert hsize
    decide +kernel
  · have hlen := hperm.length_eq
    revert hlen
    decide +kernel

end OpenBambu.Agent
