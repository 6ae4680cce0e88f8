import OpenBambu.Foundation.Bytes
import OpenBambu.Foundation.Run
import Mathlib.Logic.Function.Basic

/-!
# Connecting to a printer

`Agent::connect_printer` against the callbacks of the MQTT threads it starts. Every call makes a
session of its own. The critical sections of the agent, the callbacks and the main thread take
turns in any order.
-/

namespace OpenBambu.Agent

open OpenBambu.Foundation

/-! ## State -/

structure LanSession where
  devId : Bytes
  devIp : Bytes
  username : Bytes
  password : Bytes
  deriving DecidableEq, Repr

/-- How far a call of `connect_printer` is. -/
inductive Stage where
  /-- It has taken the session before it from the agent, and waits for the end of its thread. -/
  | taken (prev : Option Nat)
  /-- The network thread of its session runs. -/
  | started
  /-- Its session is the one of the agent. -/
  | stored
  /-- `start` failed. -/
  | dropped
  deriving DecidableEq, Repr

/-- A call with its session. -/
structure ConnectCall where
  session : LanSession
  stage : Stage
  /-- The session was taken from the agent again, or dropped. -/
  torn : Bool
  /-- The network thread has ended. -/
  stopped : Bool

structure LanState where
  calls : Nat → Option ConnectCall
  /-- The call whose session is `lan_session_`. -/
  lanSession : Option Nat
  /-- The calls whose `ConnectStatusOk` waits for the main thread. -/
  queued : List Nat

def LanState.start : LanState := ⟨fun _ => none, none, []⟩

def LanState.modify (s : LanState) (id : Nat) (f : ConnectCall → ConnectCall) : LanState :=
  { s with calls := Function.update s.calls id ((s.calls id).map f) }

def LanState.add (s : LanState) (id : Nat) (call : ConnectCall) : LanState :=
  { s with calls := Function.update s.calls id (some call) }

/-- The session moves out of the agent. -/
def LanState.takeSession (s : LanState) : LanState :=
  match s.lanSession with
  | none => s
  | some id => { s.modify id fun c => { c with torn := true } with lanSession := none }

def LanState.isStopped (s : LanState) (id : Nat) : Bool := (s.calls id).any fun c => c.stopped

/-- The network thread of the session runs. -/
def LanState.isAlive (s : LanState) (id : Nat) : Bool :=
  (s.calls id).any fun c => (c.stage = .started ∨ c.stage = .stored) ∧ ¬ c.stopped

/-! ## Steps -/

inductive LanEvent where
  /-- A call comes, and its first critical section takes the session before it. -/
  | connectPrinter (id : Nat) (session : LanSession)
  /-- The thread of the session before has ended; `LanSession::start` succeeds or fails. -/
  | start (id : Nat) (ok : Bool)
  /-- The last critical section. -/
  | store (id : Nat)
  | disconnectPrinter
  /-- The thread of a session that was taken ends. -/
  | stop (id : Nat)
  /-- The callback for a CONNACK, with or without `queue_on_main`. -/
  | onConnect (id : Nat) (rc : Int) (queue : Bool)
  | onDisconnect (id : Nat) (rc : Int) (queue : Bool)
  /-- A report of the printer. -/
  | onMessage (id : Nat)
  /-- The main thread comes to the next `on_local_connect`. -/
  | runMain

/-- `notify_local_connected` with the status `ConnectStatusOk` posts to the main thread. -/
def LanState.post (s : LanState) (id : Nat) (rc : Int) (queue : Bool) : LanState :=
  if s.isAlive id ∧ rc = 0 ∧ queue then { s with queued := s.queued ++ [id] } else s

/-- An event whose time has not come changes nothing. -/
def LanState.step (s : LanState) : LanEvent → LanState
  | .connectPrinter id session =>
      match s.calls id with
      | some _ => s
      | none => s.takeSession.add id ⟨session, .taken s.lanSession, false, false⟩
  | .start id ok =>
      match (s.calls id).map ConnectCall.stage with
      | some (.taken prev) =>
          if prev.all s.isStopped then
            s.modify id fun c =>
              if ok then { c with stage := .started }
              else { c with stage := .dropped, torn := true, stopped := true }
          else s
      | _ => s
  | .store id =>
      if (s.calls id).map ConnectCall.stage = some .started then
        { s.takeSession.modify id fun c => { c with stage := .stored } with lanSession := some id }
      else s
  | .disconnectPrinter => s.takeSession
  | .stop id => s.modify id fun c => { c with stopped := c.torn }
  | .onConnect id rc queue => s.post id rc queue
  | .onDisconnect id rc queue => s.post id rc queue
  | .onMessage _ => s
  | .runMain => { s with queued := s.queued.tail }

/-- The call whose `on_local_connect(ConnectStatusOk)` or whose report is delivered now. The
disconnect handler says `ConnectStatusOk` as well where the result is 0. -/
def LanState.delivers (s : LanState) : LanEvent → Option Nat
  | .onConnect id rc queue => if s.isAlive id ∧ rc = 0 ∧ ¬ queue then some id else none
  | .onDisconnect id rc queue => if s.isAlive id ∧ rc = 0 ∧ ¬ queue then some id else none
  | .onMessage id => if s.isAlive id then some id else none
  | .runMain => s.queued.head?
  | _ => none

/-- The call and session of `lan_session_`. -/
def LanState.current (s : LanState) : Option (Nat × LanSession) :=
  s.lanSession.bind fun id => (s.calls id).map fun c => (id, c.session)

/-- The session that `send_message_to_printer` finds. -/
def LanState.sendMessageToPrinter (s : LanState) (devId : Bytes) : Option Nat :=
  match s.current with
  | some (id, session) => if session.devId = devId then some id else none
  | none => none

/-- The host and the login that `notify_local_message` takes for a cover. -/
def LanState.coverHost (s : LanState) : Option (Bytes × Bytes × Bytes) :=
  s.current.map fun p => (p.2.devIp, p.2.username, p.2.password)

def runLan (events : List LanEvent) : LanState := after LanState.step .start events

/-- What is delivered for a session that is not torn down finds this session in the agent. -/
def DeliveriesFind (events : List LanEvent) : Prop :=
  ∀ past e rest, events = past ++ e :: rest → ∀ id c, (runLan past).delivers e = some id →
    (runLan events).calls id = some c → c.torn = false →
      (runLan past).sendMessageToPrinter c.session.devId = some id ∧
        (e = .onMessage id →
          (runLan past).coverHost = some (c.session.devIp, c.session.username, c.session.password))

/-- What is delivered for a session that is not torn down comes behind the last critical section of
its `connect_printer`. -/
def DeliveriesStored (events : List LanEvent) : Prop :=
  ∀ past e rest, events = past ++ e :: rest → ∀ id c, (runLan past).delivers e = some id →
    (runLan events).calls id = some c → c.torn = false →
      ((runLan past).calls id).map ConnectCall.stage = some .stored

/-! ## Invariants -/

def ConnectCall.IsCurrent (c : ConnectCall) : Prop := c.stage = .stored ∧ c.torn = false

/-- A call is torn only once it is stored or dropped. -/
def ConnectCall.Fresh (c : ConnectCall) : Prop := c.stage = .stored ∨ c.stage = .dropped ∨ c.torn = false

/-- The session of the agent is the one that is stored and not torn. -/
structure LanState.Stores (s : LanState) : Prop where
  current : ∀ id, s.lanSession = some id ↔ ∃ c, s.calls id = some c ∧ c.IsCurrent
  fresh : ∀ id c, s.calls id = some c → c.Fresh

/-- The calls of a state are still there, with their sessions, and what was torn is. -/
def LanState.Keeps (s s' : LanState) : Prop :=
  ∀ id c, s.calls id = some c → ∃ c', s'.calls id = some c' ∧ c'.session = c.session ∧
    (c.torn = true → c'.torn = true)

theorem keeps_refl (s : LanState) : s.Keeps s := fun _ c h => ⟨c, h, rfl, id⟩

theorem LanState.Keeps.trans {s s' s'' : LanState} (h : s.Keeps s') (h' : s'.Keeps s'') : s.Keeps s'' := by
  intro id c hc
  obtain ⟨c', hc', hs', ht'⟩ := h id c hc
  obtain ⟨c'', hc'', hs'', ht''⟩ := h' id c' hc'
  exact ⟨c'', hc'', hs''.trans hs', fun ht => ht'' (ht' ht)⟩

theorem calls_modify (s : LanState) (id : Nat) (f : ConnectCall → ConnectCall) (j : Nat) :
    (s.modify id f).calls j = if j = id then (s.calls id).map f else s.calls j := by
  exact Function.update_apply _ _ _ _

theorem calls_add (s : LanState) (id : Nat) (call : ConnectCall) (j : Nat) :
    (s.add id call).calls j = if j = id then some call else s.calls j := by
  exact Function.update_apply _ _ _ _

theorem keeps_modify (s : LanState) (id : Nat) {f : ConnectCall → ConnectCall}
    (hf : ∀ c, (f c).session = c.session ∧ (c.torn = true → (f c).torn = true)) : s.Keeps (s.modify id f) := by
  intro j c hc
  by_cases hj : j = id
  · subst hj
    exact ⟨f c, by rw [calls_modify, if_pos rfl, hc]; rfl, (hf c).1, (hf c).2⟩
  · exact ⟨c, by rw [calls_modify, if_neg hj, hc], rfl, fun h => h⟩

theorem keeps_takeSession (s : LanState) : s.Keeps s.takeSession := by
  unfold LanState.takeSession
  split
  · exact keeps_refl s
  · rename_i id _
    exact keeps_modify s id fun c => ⟨rfl, fun _ => rfl⟩

theorem keeps_step (s : LanState) (e : LanEvent) : s.Keeps (s.step e) := by
  cases e with
  | connectPrinter id session =>
      simp only [LanState.step]
      split
      · exact keeps_refl s
      · rename_i hnone
        intro j c hc
        have hj : j ≠ id := fun h => by rw [h, hnone] at hc; cases hc
        obtain ⟨c', hc', hs, ht⟩ := keeps_takeSession s j c hc
        exact ⟨c', by rw [calls_add, if_neg hj, hc'], hs, ht⟩
  | start id ok =>
      simp only [LanState.step]
      split
      · split_ifs
        · exact keeps_modify s id fun c => ⟨rfl, fun h => h⟩
        · exact keeps_modify s id fun c => ⟨rfl, fun _ => rfl⟩
        · exact keeps_refl s
      · exact keeps_refl s
  | store id =>
      simp only [LanState.step]
      split_ifs
      · exact (keeps_takeSession s).trans (keeps_modify s.takeSession id fun c => ⟨rfl, fun h => h⟩)
      · exact keeps_refl s
  | disconnectPrinter => exact keeps_takeSession s
  | stop id => exact keeps_modify s id fun c => ⟨rfl, fun h => h⟩
  | onConnect id rc queue =>
      simp only [LanState.step, LanState.post]
      split_ifs <;> exact keeps_refl s
  | onDisconnect id rc queue =>
      simp only [LanState.step, LanState.post]
      split_ifs <;> exact keeps_refl s
  | onMessage id => exact keeps_refl s
  | runMain => exact keeps_refl s

theorem keeps_after (s : LanState) (events : List LanEvent) : s.Keeps (after LanState.step s events) := by
  induction events generalizing s with
  | nil => exact keeps_refl s
  | cons e events ih => exact (keeps_step s e).trans (ih (s.step e))

theorem LanState.Stores.modify {s : LanState} (h : s.Stores) (id : Nat) {f : ConnectCall → ConnectCall}
    (hcur : ∀ c, s.calls id = some c → ((f c).IsCurrent ↔ c.IsCurrent))
    (hfresh : ∀ c, s.calls id = some c → (f c).Fresh) : (s.modify id f).Stores := by
  refine ⟨?_, ?_⟩
  · intro j
    rw [calls_modify]
    show s.lanSession = some j ↔ _
    rw [h.current j]
    split_ifs with hj
    · subst hj
      cases hc : s.calls j with
      | none => simp
      | some c => simp [hcur c hc]
    · rfl
  · intro j c hc
    rw [calls_modify] at hc
    split_ifs at hc with hj
    · obtain ⟨c', hc', rfl⟩ := Option.map_eq_some_iff.1 hc
      exact hfresh c' hc'
    · exact h.fresh j c hc

theorem takeSession_none (s : LanState) : s.takeSession.lanSession = none := by
  unfold LanState.takeSession
  split
  · assumption
  · rfl

theorem calls_takeSession {s : LanState} {id : Nat} (hid : s.lanSession ≠ some id) :
    s.takeSession.calls id = s.calls id := by
  unfold LanState.takeSession
  split
  · rfl
  · rename_i j hj
    show (s.modify j _).calls id = _
    rw [calls_modify, if_neg]
    intro he
    exact hid (by rw [hj, he])

theorem LanState.Stores.takeSession {s : LanState} (h : s.Stores) : s.takeSession.Stores := by
  unfold LanState.takeSession
  split
  · exact h
  · rename_i id hid
    refine ⟨?_, ?_⟩
    · intro j
      have hnone : ¬ ∃ c, (s.modify id fun c => { c with torn := true }).calls j = some c ∧ c.IsCurrent := by
        rintro ⟨c, hc, hcur⟩
        rw [calls_modify] at hc
        split_ifs at hc with hj
        · obtain ⟨c', hc', rfl⟩ := Option.map_eq_some_iff.1 hc
          cases hcur.2
        · have hlan := (h.current j).2 ⟨c, hc, hcur⟩
          rw [hid] at hlan
          exact hj (Option.some.inj hlan).symm
      simpa using hnone
    · intro j c hc
      have hc' : (s.modify id fun c => { c with torn := true }).calls j = some c := hc
      rw [calls_modify] at hc'
      split_ifs at hc' with hj
      · obtain ⟨c', hc'', rfl⟩ := Option.map_eq_some_iff.1 hc'
        obtain ⟨c₀, hc₀, hcur⟩ := (h.current id).1 hid
        rw [hc''] at hc₀
        exact Or.inl ((Option.some.inj hc₀) ▸ hcur.1)
      · exact h.fresh j c hc'

theorem LanState.Stores.connectPrinter {s : LanState} (h : s.Stores) (id : Nat) (session : LanSession) :
    (s.step (.connectPrinter id session)).Stores := by
  simp only [LanState.step]
  split
  · exact h
  · refine ⟨?_, ?_⟩
    · intro j
      show s.takeSession.lanSession = some j ↔ _
      rw [h.takeSession.current j, calls_add]
      split_ifs with hj
      · have hj' : s.takeSession.calls j = none := by
          rename_i hnone
          have hid : s.lanSession ≠ some j := by
            intro hl
            obtain ⟨c, hc, _⟩ := (h.current j).1 hl
            rw [hj, hnone] at hc
            cases hc
          rw [calls_takeSession hid, hj, hnone]
        simp [hj', ConnectCall.IsCurrent]
      · rfl
    · intro j c hc
      rw [calls_add] at hc
      split_ifs at hc with hj
      · obtain rfl := Option.some.inj hc
        exact Or.inr (Or.inr rfl)
      · exact h.takeSession.fresh j c hc

theorem LanState.Stores.start {s : LanState} (h : s.Stores) (id : Nat) (ok : Bool) :
    (s.step (.start id ok)).Stores := by
  simp only [LanState.step]
  split
  · rename_i prev hst
    have hstage : ∀ c, s.calls id = some c → c.stage = .taken prev := by
      intro c hc
      rw [hc] at hst
      exact Option.some.inj hst
    split_ifs
    · apply h.modify
      · intro c hc
        simp [ConnectCall.IsCurrent, hstage c hc]
      · intro c hc
        have hf := h.fresh id c hc
        simp only [ConnectCall.Fresh, hstage c hc, reduceCtorEq, false_or] at hf
        exact Or.inr (Or.inr hf)
    · apply h.modify
      · intro c hc
        simp [ConnectCall.IsCurrent, hstage c hc]
      · intro c _
        exact Or.inr (Or.inl rfl)
    · exact h
  · exact h

theorem LanState.Stores.store {s : LanState} (h : s.Stores) (id : Nat) : (s.step (.store id)).Stores := by
  simp only [LanState.step]
  split_ifs with hst
  · obtain ⟨c, hc, hstage⟩ := Option.map_eq_some_iff.1 hst
    have htaken := h.takeSession
    have hid : s.lanSession ≠ some id := by
      intro hl
      obtain ⟨c', hc', hcur⟩ := (h.current id).1 hl
      rw [hc] at hc'
      obtain rfl := Option.some.inj hc'
      rw [hcur.1] at hstage
      cases hstage
    have hct : s.takeSession.calls id = some c := by rw [calls_takeSession hid, hc]
    have htorn : c.torn = false := by
      have hf := h.fresh id c hc
      simpa [ConnectCall.Fresh, hstage] using hf
    refine ⟨?_, ?_⟩
    · intro j
      show some id = some j ↔ ∃ c', (s.takeSession.modify id _).calls j = some c' ∧ c'.IsCurrent
      rw [calls_modify]
      by_cases hj : j = id
      · subst hj
        rw [if_pos rfl, hct]
        simp [ConnectCall.IsCurrent, htorn]
      · rw [if_neg hj, ← htaken.current j, takeSession_none]
        simp [Ne.symm hj]
    · intro j c' hc'
      have hc'' : (s.takeSession.modify id fun c => { c with stage := .stored }).calls j = some c' := hc'
      rw [calls_modify] at hc''
      split_ifs at hc'' with hj
      · obtain ⟨c₀, _, rfl⟩ := Option.map_eq_some_iff.1 hc''
        exact Or.inl rfl
      · exact htaken.fresh j c' hc''
  · exact h

theorem LanState.Stores.post {s : LanState} (h : s.Stores) (id : Nat) (rc : Int) (queue : Bool) :
    (s.post id rc queue).Stores := by
  unfold LanState.post
  split_ifs
  · exact ⟨h.current, h.fresh⟩
  · exact h

theorem LanState.Stores.step {s : LanState} (h : s.Stores) (e : LanEvent) : (s.step e).Stores := by
  cases e with
  | connectPrinter id session => exact h.connectPrinter id session
  | start id ok => exact h.start id ok
  | store id => exact h.store id
  | disconnectPrinter => exact h.takeSession
  | stop id => exact h.modify id (fun c _ => Iff.rfl) fun c hc => h.fresh id c hc
  | onConnect id rc queue => exact h.post id rc queue
  | onDisconnect id rc queue => exact h.post id rc queue
  | onMessage id => exact h
  | runMain => exact ⟨h.current, h.fresh⟩

theorem stores_run (events : List LanEvent) : InEveryState LanState.step LanState.Stores .start events := by
  apply inEveryState_of_inv
  · intro s e h
    exact h.step e
  · refine ⟨?_, ?_⟩
    · intro id
      simp [LanState.start]
    · intro id c hc
      cases hc

/-! ## Deliveries -/

theorem runLan_stores {past rest events : List LanEvent} (hr : events = past ++ rest) :
    (runLan past).Stores := stores_run events past rest hr

/-- A call of the past whose session is not torn down in the end. -/
theorem call_of_past {past rest events : List LanEvent} (hr : events = past ++ rest) {id : Nat}
    {c c' : ConnectCall} (hc : (runLan events).calls id = some c) (ht : c.torn = false)
    (hc' : (runLan past).calls id = some c') : c'.torn = false ∧ c'.session = c.session := by
  have hkeeps : (runLan past).Keeps (runLan events) := by
    rw [hr, runLan, runLan, after_append]
    exact keeps_after _ rest
  obtain ⟨c'', hc'', hs, htorn⟩ := hkeeps id c' hc'
  obtain rfl := Option.some.inj (hc.symm.trans hc'')
  refine ⟨?_, hs.symm⟩
  by_contra hn
  rw [htorn (by simpa using hn)] at ht
  cases ht

theorem sendMessageToPrinter_eq_some {s : LanState} {devId : Bytes} {id : Nat}
    (h : s.sendMessageToPrinter devId = some id) : s.lanSession = some id := by
  unfold LanState.sendMessageToPrinter LanState.current at h
  cases hl : s.lanSession with
  | none => simp [hl] at h
  | some j =>
      cases hc : s.calls j with
      | none => simp [hl, hc] at h
      | some c =>
          simp only [hl, hc, Option.bind_some, Option.map_some] at h
          split_ifs at h
          exact h

/-- What is delivered for sessions that are not torn down finds them exactly when it comes after
they are stored. -/
theorem deliveriesFind_iff (events : List LanEvent) : DeliveriesFind events ↔ DeliveriesStored events := by
  constructor
  · intro h past e rest hr id c hd hc ht
    have hlan := sendMessageToPrinter_eq_some (h past e rest hr id c hd hc ht).1
    obtain ⟨c', hc', hcur⟩ := ((runLan_stores hr).current id).1 hlan
    rw [hc', Option.map_some, hcur.1]
  · intro h past e rest hr id c hd hc ht
    obtain ⟨c', hc', hstage⟩ := Option.map_eq_some_iff.1 (h past e rest hr id c hd hc ht)
    obtain ⟨htorn, hsession⟩ := call_of_past hr hc ht hc'
    have hlan := ((runLan_stores hr).current id).2 ⟨c', hc', hstage, htorn⟩
    have hcurrent : (runLan past).current = some (id, c.session) := by
      rw [LanState.current, hlan, Option.bind_some, hc', Option.map_some, hsession]
    refine ⟨?_, ?_⟩
    · rw [LanState.sendMessageToPrinter, hcurrent]
      exact if_pos rfl
    · intro _
      rw [LanState.coverHost, hcurrent]
      rfl

def fastPrinter : LanSession := ⟨ascii "01P", ascii "192.168.1.9", ascii "bblp", ascii "12345678"⟩

/-- The printer answers before the last critical section of `connect_printer`. -/
def fastConnack : List LanEvent :=
  [.connectPrinter 0 fastPrinter, .start 0 true, .onConnect 0 0 false, .store 0]

theorem deliveriesFind_fails : ¬ DeliveriesFind fastConnack := by
  intro h
  have hfind := h (fastConnack.take 2) (.onConnect 0 0 false) [.store 0] rfl 0
    ⟨fastPrinter, .stored, false, false⟩ rfl rfl rfl
  have hsend := hfind.1
  revert hsend
  decide

end OpenBambu.Agent
