import OpenBambu.Foundation.Bytes
import Mathlib.Data.Finset.Basic

/-!
# The session on the cloud broker

`CloudSession`: the credentials it is configured with, the MQTT client that `start` makes, and the
device ids whose topics it wants subscribed. The callbacks of the network thread take their turns
between the calls of the agent.
-/

namespace OpenBambu.Agent

open OpenBambu.Foundation

/-! ## State -/

/-- What `configure` stores. -/
structure CloudConfig where
  region : Bytes
  userId : Bytes
  accessToken : Bytes
  deriving DecidableEq, Repr

/-- How far the network thread is with the callbacks of a connection. -/
inductive Phase where
  | waiting
  /-- The broker accepted the connection. -/
  | accepted
  /-- `connected_` is set. -/
  | marked
  /-- The connect handler has run. -/
  | ready
  /-- `connected_` is cleared, `active_` is not yet. -/
  | closing
  deriving DecidableEq, Repr

/-- A client that was started, with what it has at the broker. -/
structure Client where
  config : CloudConfig
  phase : Phase
  /-- The connection is up. -/
  link : Bool
  /-- The device ids whose topics are subscribed on this connection. -/
  broker : Finset Bytes

structure CloudSession where
  config : CloudConfig := ⟨[], [], []⟩
  subscribed : Finset Bytes := ∅
  active : Finset Bytes := ∅
  client : Option Client := none
  connected : Bool := false
  started : Bool := false

/-- The client with its network thread, between `start` and `stop`. -/
def CloudSession.running (s : CloudSession) : Option Client := if s.started then s.client else none

def CloudSession.configure (s : CloudSession) (config : CloudConfig) : CloudSession :=
  { s with config }

/-- How the constructor of the client and its `connect` come out. -/
inductive Launch where
  | noClient
  | refused
  | launched
  deriving DecidableEq, Repr

def networkSuccess : Int := 0
def networkErrInvalidHandle : Int := -1
def networkErrConnectFailed : Int := -2

def CloudSession.start (s : CloudSession) (launch : Launch) : CloudSession × Int :=
  if s.started then (s, networkSuccess)
  else if s.config.userId = [] ∨ s.config.accessToken = [] then (s, networkErrInvalidHandle)
  else
    let client : Client := ⟨s.config, .waiting, false, ∅⟩
    match launch with
    | .noClient => (s, networkErrConnectFailed)
    | .refused => ({ s with client := some client }, networkErrConnectFailed)
    | .launched => ({ s with client := some client, started := true }, networkSuccess)

/-! ## Subscriptions -/

/-- `apply_subscriptions_locked_`. On a connection that is up a subscription goes through; else
`accepts` says what the client answers. -/
def CloudSession.applySubscriptions (s : CloudSession) (accepts : Bytes → Bool) : CloudSession :=
  match s.client with
  | none => s
  | some c =>
      let toSub := s.subscribed \ s.active
      if c.link then
        { s with active := s.active ∪ toSub, client := some { c with broker := c.broker ∪ toSub } }
      else { s with active := s.active ∪ toSub.filter fun d => accepts d = true }

/-- The device ids of a call that are not empty. -/
def deviceIds (ids : List Bytes) : Finset Bytes := (ids.filter (· ≠ [])).toFinset

def CloudSession.addSubscribe (s : CloudSession) (ids : List Bytes) (accepts : Bytes → Bool) :
    CloudSession :=
  let s := { s with subscribed := s.subscribed ∪ deviceIds ids }
  if s.connected then s.applySubscriptions accepts else s

def Client.unsubscribe (c : Client) (ids : Finset Bytes) : Client :=
  if c.link then { c with broker := c.broker \ ids } else c

def CloudSession.delSubscribe (s : CloudSession) (ids : List Bytes) : CloudSession :=
  { s with
    subscribed := s.subscribed \ ids.toFinset
    active := s.active \ ids.toFinset
    client := s.client.map fun c => c.unsubscribe (s.active ∩ ids.toFinset) }

/-! ## The network thread -/

inductive MqttEvent where
  /-- The broker accepts a connection, which starts without subscriptions. -/
  | connack
  /-- The connect handler sets `connected_`. -/
  | mark
  /-- The rest of the connect handler, under the mutex. -/
  | handle (accepts : Bytes → Bool)
  /-- The connection is lost. -/
  | drop
  /-- The disconnect handler clears `connected_`. -/
  | unmark
  /-- The rest of the disconnect handler, under the mutex. -/
  | cleanup

/-- An event whose time has not come changes nothing. -/
def CloudSession.mqtt (s : CloudSession) (e : MqttEvent) : CloudSession :=
  match s.running with
  | none => s
  | some c =>
      match e with
      | .connack =>
          if c.phase = .waiting then
            { s with client := some { c with phase := .accepted, link := true, broker := ∅ } }
          else s
      | .mark =>
          if c.phase = .accepted then
            { s with connected := true, client := some { c with phase := .marked } }
          else s
      | .handle accepts =>
          if c.phase = .marked then
            { s with active := ∅, client := some { c with phase := .ready } }.applySubscriptions accepts
          else s
      | .drop => { s with client := some { c with link := false, broker := ∅ } }
      | .unmark =>
          if c.phase = .ready ∧ c.link = false then
            { s with connected := false, client := some { c with phase := .closing } }
          else s
      | .cleanup =>
          if c.phase = .closing then
            { s with active := ∅, client := some { c with phase := .waiting } }
          else s

/-! ## What the broker has -/

/-- What a running client keeps in step with the sets of its session. -/
def Client.InStep (c : Client) (s : CloudSession) : Prop :=
  match c.phase with
  | .waiting => c.link = false ∧ s.connected = false ∧ s.active = ∅
  | .accepted => s.connected = false ∧ s.active = ∅ ∧ (c.link = true → c.broker = ∅)
  | .marked => s.connected = true ∧ (c.link = true → c.broker = s.active)
  | .ready => s.connected = true ∧ (c.link = true → c.broker = s.subscribed ∧ s.active = s.subscribed)
  | .closing => c.link = false ∧ s.connected = false

structure CloudSession.InStep (s : CloudSession) : Prop where
  has_client : s.started = true → ∃ c, s.client = some c
  active_subset : s.active ⊆ s.subscribed
  idle : s.running = none → s.connected = false ∧ s.active = ∅
  client : ∀ c, s.running = some c → c.InStep s

theorem running_eq_some {s : CloudSession} {c : Client} :
    s.running = some c ↔ s.started = true ∧ s.client = some c := by
  rw [CloudSession.running]
  split_ifs with h
  · simp [h]
  · simp [h]

/-- Only a running client is connected. -/
theorem CloudSession.InStep.running_of_connected {s : CloudSession} (h : s.InStep)
    (hc : s.connected = true) : ∃ c, s.running = some c := by
  cases hr : s.running with
  | none =>
      rw [(h.idle hr).1] at hc
      cases hc
  | some c => exact ⟨c, rfl⟩

/-- A session with a running client is in step if this client is. -/
theorem inStep_of_running {s : CloudSession} {c : Client} (hs : s.started = true)
    (hc : s.client = some c) (hsub : s.active ⊆ s.subscribed) (hin : c.InStep s) : s.InStep := by
  have hr : s.running = some c := running_eq_some.2 ⟨hs, hc⟩
  refine ⟨fun _ => ⟨c, hc⟩, hsub, ?_, ?_⟩
  · intro hn
    rw [hr] at hn
    cases hn
  · intro c' hr'
    obtain rfl := Option.some.inj (hr.symm.trans hr')
    exact hin

theorem CloudSession.InStep.fresh : CloudSession.InStep {} where
  has_client := fun h => by cases h
  active_subset := Finset.Subset.refl _
  idle := fun _ => ⟨rfl, rfl⟩
  client := fun c h => by cases h

theorem CloudSession.InStep.configure {s : CloudSession} (h : s.InStep) (config : CloudConfig) :
    (s.configure config).InStep where
  has_client := h.has_client
  active_subset := h.active_subset
  idle := h.idle
  client := h.client

theorem CloudSession.InStep.start {s : CloudSession} (h : s.InStep) (launch : Launch) :
    (s.start launch).1.InStep := by
  rw [CloudSession.start]
  split_ifs with hs hc
  · exact h
  · exact h
  · have hidle := h.idle (by rw [CloudSession.running, if_neg hs])
    cases launch with
    | noClient => exact h
    | refused =>
        refine ⟨fun hc => absurd hc hs, h.active_subset, fun _ => hidle, ?_⟩
        intro c hr
        exact absurd (running_eq_some.1 hr).1 hs
    | launched => exact inStep_of_running rfl rfl h.active_subset ⟨rfl, hidle.1, hidle.2⟩

/-! ## The calls and callbacks keep the step -/

theorem applySubscriptions_link {s : CloudSession} {c : Client} (hc : s.client = some c)
    (hl : c.link = true) (ha : s.active ⊆ c.broker) (hb : c.broker ⊆ s.subscribed)
    (accepts : Bytes → Bool) :
    s.applySubscriptions accepts =
      { s with active := s.subscribed, client := some { c with broker := s.subscribed } } := by
  have hactive : s.active ∪ (s.subscribed \ s.active) = s.subscribed :=
    Finset.union_sdiff_of_subset (ha.trans hb)
  have hbroker : c.broker ∪ (s.subscribed \ s.active) = s.subscribed := by
    apply Finset.Subset.antisymm
    · exact Finset.union_subset hb Finset.sdiff_subset
    · rw [← hactive]
      exact Finset.union_subset_union ha (by rw [hactive])
  simp only [CloudSession.applySubscriptions, hc, hl, if_true, hactive, hbroker]

theorem applySubscriptions_noLink {s : CloudSession} {c : Client} (hc : s.client = some c)
    (hl : c.link = false) (accepts : Bytes → Bool) :
    s.applySubscriptions accepts =
      { s with active := s.active ∪ (s.subscribed \ s.active).filter fun d => accepts d = true } := by
  simp [CloudSession.applySubscriptions, hc, hl]

theorem inStep_apply (s : CloudSession) {c : Client} (hr : s.running = some c)
    (hconn : s.connected = true) (hphase : c.phase = .marked ∨ c.phase = .ready)
    (hsub : s.active ⊆ s.subscribed)
    (hb : c.link = true → s.active ⊆ c.broker ∧ c.broker ⊆ s.subscribed) (accepts : Bytes → Bool) :
    (s.applySubscriptions accepts).InStep := by
  obtain ⟨hstart, hc⟩ := running_eq_some.1 hr
  cases hl : c.link with
  | true =>
      rw [applySubscriptions_link hc hl (hb hl).1 (hb hl).2]
      refine inStep_of_running hstart rfl (Finset.Subset.refl _) ?_
      rcases hphase with hp | hp
      · simp [Client.InStep, hp, hconn]
      · simp [Client.InStep, hp, hconn]
  | false =>
      rw [applySubscriptions_noLink hc hl]
      refine inStep_of_running (c := c) hstart hc ?_ ?_
      · exact Finset.union_subset hsub ((Finset.filter_subset _ _).trans Finset.sdiff_subset)
      · rcases hphase with hp | hp
        · simp [Client.InStep, hp, hconn, hl]
        · simp [Client.InStep, hp, hconn, hl]

theorem CloudSession.InStep.addSubscribe {s : CloudSession} (h : s.InStep) (ids : List Bytes)
    (accepts : Bytes → Bool) : (s.addSubscribe ids accepts).InStep := by
  have hsub : s.active ⊆ s.subscribed ∪ deviceIds ids :=
    h.active_subset.trans Finset.subset_union_left
  rw [CloudSession.addSubscribe]
  split_ifs with hconn
  · obtain ⟨c, hr⟩ := h.running_of_connected hconn
    have hin := h.client c hr
    have hphase : c.phase = .marked ∨ c.phase = .ready := by
      unfold Client.InStep at hin
      cases hp : c.phase <;> rw [hp] at hin <;> simp_all
    apply inStep_apply { s with subscribed := s.subscribed ∪ deviceIds ids } hr hconn hphase hsub
    intro hl
    have hbroker : c.broker = s.active := by
      rcases hphase with hp | hp
      · simp only [Client.InStep, hp] at hin
        exact hin.2 hl
      · simp only [Client.InStep, hp] at hin
        exact (hin.2 hl).1.trans (hin.2 hl).2.symm
    exact ⟨by rw [hbroker], hbroker ▸ hsub⟩
  · refine ⟨h.has_client, hsub, h.idle, ?_⟩
    intro c hr
    have hin := h.client c hr
    unfold Client.InStep at hin ⊢
    cases hp : c.phase <;> rw [hp] at hin <;> simp_all

theorem CloudSession.InStep.delSubscribe {s : CloudSession} (h : s.InStep) (ids : List Bytes) :
    (s.delSubscribe ids).InStep := by
  have hrun : (s.delSubscribe ids).running =
      s.running.map fun c => c.unsubscribe (s.active ∩ ids.toFinset) := by
    rw [CloudSession.running, CloudSession.running]
    split_ifs with h1 h2 h2
    · rfl
    · exact absurd h1 h2
    · exact absurd h2 h1
    · rfl
  refine ⟨?_, Finset.sdiff_subset_sdiff h.active_subset (Finset.Subset.refl _), ?_, ?_⟩
  · intro hs
    obtain ⟨c, hc⟩ := h.has_client hs
    exact ⟨_, Option.map_eq_some_iff.2 ⟨c, hc, rfl⟩⟩
  · intro hn
    rw [hrun, Option.map_eq_none_iff] at hn
    refine ⟨(h.idle hn).1, ?_⟩
    show s.active \ _ = ∅
    rw [(h.idle hn).2, Finset.empty_sdiff]
  · intro c' hr'
    rw [hrun] at hr'
    obtain ⟨c, hr, rfl⟩ := Option.map_eq_some_iff.1 hr'
    have hin := h.client c hr
    cases hl : c.link with
    | false =>
        rw [Client.unsubscribe, if_neg (by simp [hl])]
        unfold Client.InStep at hin ⊢
        cases hp : c.phase <;> rw [hp] at hin <;>
          simp_all [CloudSession.delSubscribe]
    | true =>
        rw [Client.unsubscribe, if_pos hl]
        unfold Client.InStep at hin ⊢
        cases hp : c.phase <;> rw [hp] at hin <;>
          simp_all [CloudSession.delSubscribe]

theorem CloudSession.InStep.mqtt {s : CloudSession} (h : s.InStep) (e : MqttEvent) :
    (s.mqtt e).InStep := by
  cases hr : s.running with
  | none => rwa [CloudSession.mqtt, hr]
  | some c =>
      obtain ⟨hstart, hc⟩ := running_eq_some.1 hr
      have hin := h.client c hr
      rw [CloudSession.mqtt, hr]
      cases e with
      | connack =>
          dsimp only
          split_ifs with hp
          · simp only [Client.InStep, hp] at hin
            exact inStep_of_running hstart rfl h.active_subset ⟨hin.2.1, hin.2.2, fun _ => rfl⟩
          · exact h
      | mark =>
          dsimp only
          split_ifs with hp
          · simp only [Client.InStep, hp] at hin
            refine inStep_of_running hstart rfl h.active_subset ⟨rfl, ?_⟩
            intro hl
            exact (hin.2.2 hl).trans hin.2.1.symm
          · exact h
      | handle accepts =>
          dsimp only
          split_ifs with hp
          · simp only [Client.InStep, hp] at hin
            apply inStep_apply { s with active := ∅, client := some { c with phase := .ready } }
              (running_eq_some.2 ⟨hstart, rfl⟩) hin.1 (Or.inr rfl) (Finset.empty_subset _)
            intro hl
            exact ⟨Finset.empty_subset _, (hin.2 hl) ▸ h.active_subset⟩
          · exact h
      | drop =>
          refine inStep_of_running hstart rfl h.active_subset ?_
          unfold Client.InStep at hin ⊢
          cases hp : c.phase <;> rw [hp] at hin <;> simp_all
      | unmark =>
          dsimp only
          split_ifs with hp
          · exact inStep_of_running hstart rfl h.active_subset ⟨hp.2, rfl⟩
          · exact h
      | cleanup =>
          dsimp only
          split_ifs with hp
          · simp only [Client.InStep, hp] at hin
            exact inStep_of_running hstart rfl (Finset.empty_subset _) ⟨hin.1, hin.2, rfl⟩
          · exact h

/-- The device ids subscribed on the broker, once the connection is up and the connect handler has
run. -/
def CloudSession.established (s : CloudSession) : Option (Finset Bytes) :=
  match s.running with
  | none => none
  | some c => if c.phase = .ready ∧ c.link = true then some c.broker else none

/-- An established connection has just the subscriptions that the session wants. -/
theorem CloudSession.InStep.established {s : CloudSession} (h : s.InStep) {ids : Finset Bytes}
    (he : s.established = some ids) : ids = s.subscribed := by
  unfold CloudSession.established at he
  cases hr : s.running with
  | none =>
      rw [hr] at he
      cases he
  | some c =>
      rw [hr] at he
      dsimp only at he
      split_ifs at he with hp
      have hin := h.client c hr
      simp only [Client.InStep, hp.1] at hin
      exact (Option.some.inj he).symm.trans (hin.2 hp.2).1

end OpenBambu.Agent
