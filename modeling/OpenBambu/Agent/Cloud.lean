import OpenBambu.Agent.Account
import OpenBambu.Agent.CloudSession

/-!
# Cloud connection of the agent

`connect_cloud`, `disconnect_cloud`, `cloud_refresh` and the subscriptions, over the stored session
of the user and the `CloudSession` of the agent. The agent makes that object at a connect and
discards it at a disconnect.
-/

namespace OpenBambu.Agent

open OpenBambu.Foundation OpenBambu.Json

/-! ## State and calls -/

structure CloudState where
  authStore : AuthStore
  cloudSession : Option CloudSession

/-- The stored user id and access token. -/
def CloudState.credentials (s : CloudState) : Bytes × Bytes :=
  match s.authStore with
  | some session => (session.userId, session.accessToken)
  | none => ([], [])

/-- The client of the running session. -/
def CloudState.client (s : CloudState) : Option Client := s.cloudSession.bind CloudSession.running

/-- The user id and the access token that the running client was started with. -/
def CloudState.startedWith (s : CloudState) : Option (Bytes × Bytes) :=
  s.client.map fun c => (c.config.userId, c.config.accessToken)

def CloudState.cloudConnected (s : CloudState) : Bool :=
  match s.cloudSession with
  | some session => session.connected
  | none => false

/-- What `connect_cloud` finds: the country code, and how the launch of a client comes out. -/
structure Connect where
  countryCode : Bytes
  launch : Launch

def connectCloud (s : CloudState) (a : Connect) : CloudState × Int :=
  let session := s.cloudSession.getD {}
  match s.authStore with
  | none => ({ s with cloudSession := some session }, networkErrInvalidHandle)
  | some user =>
      if ¬ user.loggedIn then ({ s with cloudSession := some session }, networkErrInvalidHandle)
      else
        let config : CloudConfig := ⟨cloudRegion a.countryCode, user.userId, user.accessToken⟩
        let started := (session.configure config).start a.launch
        ({ s with cloudSession := some started.1 }, started.2)

/-- The session is taken from the agent and stopped; nothing of it is left. -/
def disconnectCloud (s : CloudState) : CloudState := { s with cloudSession := none }

def cloudRefresh (s : CloudState) (a : Connect) : CloudState × Int :=
  if s.cloudConnected then (s, networkSuccess) else connectCloud (disconnectCloud s) a

def cloudAddSubscribe (s : CloudState) (ids : List Bytes) (accepts : Bytes → Bool) : CloudState × Int :=
  match s.cloudSession with
  | none => (s, networkErrInvalidHandle)
  | some session => ({ s with cloudSession := some (session.addSubscribe ids accepts) }, networkSuccess)

def cloudDelSubscribe (s : CloudState) (ids : List Bytes) : CloudState :=
  { s with cloudSession := s.cloudSession.map fun session => session.delSubscribe ids }

/-- `bambu_network_change_user`. -/
def changeUser (store : AuthStore) (call : LoginCall) : AuthStore :=
  if call.json = [] ∨ call.json = ascii "\x7b\x7d" then clearSession store
  else
    match applyLoginInfo store call with
    | .ok s => some s
    | .error _ => store

inductive CloudEvent where
  | changeUser (call : LoginCall)
  | userLogout
  | connectCloud (a : Connect)
  | disconnectCloud
  | cloudRefresh (a : Connect)
  /-- `get_user_print_info` does this for every device of the reply; `accepts` says what the client
  answers where its connection is lost. -/
  | addSubscribe (ids : List Bytes) (accepts : Bytes → Bool)
  | delSubscribe (ids : List Bytes)
  | mqtt (e : MqttEvent)

def CloudState.step (s : CloudState) : CloudEvent → CloudState
  | .changeUser call => { s with authStore := changeUser s.authStore call }
  | .userLogout => { s with authStore := clearSession s.authStore }
  | .connectCloud a => (connectCloud s a).1
  | .disconnectCloud => disconnectCloud s
  | .cloudRefresh a => (cloudRefresh s a).1
  | .addSubscribe ids accepts => (cloudAddSubscribe s ids accepts).1
  | .delSubscribe ids => cloudDelSubscribe s ids
  | .mqtt e => { s with cloudSession := s.cloudSession.map fun session => session.mqtt e }

/-- Before the first connect. -/
def CloudState.start (store : AuthStore) : CloudState := ⟨store, none⟩

/-! ## The session stays in step -/

def CloudState.InStep (s : CloudState) : Prop := ∀ session, s.cloudSession = some session → session.InStep

theorem getD_inStep {s : CloudState} (h : s.InStep) : (s.cloudSession.getD {}).InStep := by
  cases hs : s.cloudSession with
  | none => exact CloudSession.InStep.fresh
  | some session => exact h session hs

theorem InStep.some {s : CloudState} {session : CloudSession} (h : session.InStep) :
    ({ s with cloudSession := some session } : CloudState).InStep := by
  intro session' hs
  exact (Option.some.inj hs) ▸ h

theorem connectCloud_inStep {s : CloudState} (h : s.InStep) (a : Connect) : (connectCloud s a).1.InStep := by
  unfold connectCloud
  split
  · exact InStep.some (getD_inStep h)
  · split_ifs
    · exact InStep.some (((getD_inStep h).configure _).start _)
    · exact InStep.some (getD_inStep h)

theorem disconnectCloud_inStep (s : CloudState) : (disconnectCloud s).InStep := by
  intro session hs
  cases hs

theorem CloudState.InStep.map {s : CloudState} (h : s.InStep) {f : CloudSession → CloudSession}
    (hf : ∀ session, session.InStep → (f session).InStep) :
    ({ s with cloudSession := s.cloudSession.map f } : CloudState).InStep := by
  intro session hs
  obtain ⟨old, ho, rfl⟩ := Option.map_eq_some_iff.1 hs
  exact hf old (h old ho)

theorem CloudState.InStep.step {s : CloudState} (h : s.InStep) (e : CloudEvent) : (s.step e).InStep := by
  cases e with
  | changeUser call => exact h
  | userLogout => exact h
  | connectCloud a => exact connectCloud_inStep h a
  | disconnectCloud => exact disconnectCloud_inStep s
  | cloudRefresh a =>
      show (cloudRefresh s a).1.InStep
      unfold cloudRefresh
      split_ifs
      · exact h
      · exact connectCloud_inStep (disconnectCloud_inStep s) a
  | addSubscribe ids accepts =>
      show (cloudAddSubscribe s ids accepts).1.InStep
      unfold cloudAddSubscribe
      split
      · exact h
      · rename_i session hs
        exact InStep.some ((h session hs).addSubscribe ids accepts)
  | delSubscribe ids => exact h.map fun session hs => hs.delSubscribe ids
  | mqtt e => exact h.map fun session hs => hs.mqtt e

theorem inStep_run (store : AuthStore) (run : List CloudEvent) :
    InEveryState CloudState.step CloudState.InStep (.start store) run :=
  inEveryState_of_inv (fun s e h => h.step e) (by intro session hs; cases hs) run

/-! ## Credentials -/

/-- What a call of `connect_cloud` or `cloud_refresh` returns. -/
def CloudEvent.connectResult (s : CloudState) : CloudEvent → Option Int
  | .connectCloud a => some (Agent.connectCloud s a).2
  | .cloudRefresh a => some (Agent.cloudRefresh s a).2
  | _ => none

/-- The call clears the stored session. -/
def CloudEvent.Clears : CloudEvent → Prop
  | .changeUser call => call.json = [] ∨ call.json = ascii "\x7b\x7d"
  | .userLogout => True
  | _ => False

/-- A connect that succeeds leaves a client of the stored user, and a logout leaves no client. -/
def ClientOfUser (s : CloudState) (e : CloudEvent) : Prop :=
  (e.connectResult s = some networkSuccess → (s.step e).startedWith = some (s.step e).credentials) ∧
    (e.Clears → (s.step e).startedWith = none)

def CloudState.LoggedIn (s : CloudState) : Prop := ∃ user, s.authStore = some user ∧ user.loggedIn

/-- A connect that goes on with a running client finds the credentials stored that the client was
started with, and no client runs at a logout. -/
def CredentialsKept (s : CloudState) (e : CloudEvent) : Prop :=
  match e with
  | .connectCloud _ => ∀ c, s.startedWith = some c → s.LoggedIn → c = s.credentials
  | .cloudRefresh _ => ∀ c, s.startedWith = some c → s.cloudConnected = true → c = s.credentials
  | e => e.Clears → s.startedWith = none

/-- A running client is used again, with the credentials it has. -/
theorem connectCloud_running {s : CloudState} {c : Bytes × Bytes} (hc : s.startedWith = some c)
    (hl : s.LoggedIn) (a : Connect) :
    (connectCloud s a).2 = networkSuccess ∧ (connectCloud s a).1.startedWith = some c := by
  obtain ⟨user, hu, hl⟩ := hl
  cases hs : s.cloudSession with
  | none => simp [CloudState.startedWith, CloudState.client, hs] at hc
  | some session =>
      have hrun : session.started = true := by
        by_contra hn
        simp [CloudState.startedWith, CloudState.client, CloudSession.running, hs, hn] at hc
      simp only [CloudState.startedWith, CloudState.client, hs, Option.bind_some, CloudSession.running,
        hrun, if_true] at hc
      simp only [connectCloud, hu, hl, not_true_eq_false, if_false, hs, Option.getD_some,
        CloudSession.start, CloudSession.configure, hrun, if_true, CloudState.startedWith,
        CloudState.client, Option.bind_some, CloudSession.running, true_and]
      exact hc

/-- A client that is launched gets the stored credentials. -/
theorem connectCloud_launched {s : CloudState} (h : s.InStep) (hc : s.startedWith = none) {a : Connect}
    (hr : (connectCloud s a).2 = networkSuccess) :
    (connectCloud s a).1.startedWith = some s.credentials := by
  have hstopped : (s.cloudSession.getD {}).started = false := by
    cases hs : s.cloudSession with
    | none => rfl
    | some session =>
        by_contra hn
        obtain ⟨c, hcl⟩ := (h session hs).has_client (by simpa [hs] using hn)
        have hst : session.started = true := by simpa [hs] using hn
        simp [CloudState.startedWith, CloudState.client, CloudSession.running, hs, hst, hcl] at hc
  unfold connectCloud at hr ⊢
  cases hu : s.authStore with
  | none =>
      rw [hu] at hr
      cases hr
  | some user =>
      rw [hu] at hr
      by_cases hl : user.loggedIn
      · simp only [hl, not_true_eq_false, if_false, CloudSession.start, CloudSession.configure,
          hstopped, Bool.false_eq_true] at hr ⊢
        rw [if_neg (by rintro (he | he) <;> simp_all [Session.loggedIn])] at hr ⊢
        cases ha : a.launch <;> rw [ha] at hr
        · cases hr
        · cases hr
        · simp [CloudState.startedWith, CloudState.client, CloudSession.running, CloudState.credentials, hu]
      · simp only [hl, not_false_eq_true, if_true] at hr
        cases hr

theorem connectCloud_store (s : CloudState) (a : Connect) :
    (connectCloud s a).1.credentials = s.credentials := by
  unfold connectCloud
  split
  · rename_i hu
    simp [CloudState.credentials, hu]
  · rename_i user hu
    split_ifs <;> simp [CloudState.credentials, hu]

theorem connectCloud_loggedIn {s : CloudState} {a : Connect}
    (hr : (connectCloud s a).2 = networkSuccess) : s.LoggedIn := by
  unfold connectCloud at hr
  cases hu : s.authStore with
  | none =>
      rw [hu] at hr
      cases hr
  | some user =>
      rw [hu] at hr
      by_cases hl : user.loggedIn
      · exact ⟨user, hu, hl⟩
      · simp only [hl, not_false_eq_true, if_true] at hr
        cases hr

theorem clientOfUser_connect {s : CloudState} (h : s.InStep) (a : Connect) :
    ClientOfUser s (.connectCloud a) ↔ CredentialsKept s (.connectCloud a) := by
  constructor
  · intro hlaw c hc hl
    obtain ⟨hr, hw⟩ := connectCloud_running hc hl a
    have hcred := hlaw.1 (congrArg some hr)
    rw [show (s.step (.connectCloud a)).startedWith = some c from hw,
      show (s.step (.connectCloud a)).credentials = s.credentials from connectCloud_store s a] at hcred
    exact Option.some.inj hcred
  · intro hkept
    refine ⟨?_, fun hn => hn.elim⟩
    intro hr
    have hr' : (connectCloud s a).2 = networkSuccess := Option.some.inj hr
    show (connectCloud s a).1.startedWith = some (connectCloud s a).1.credentials
    rw [connectCloud_store]
    cases hc : s.startedWith with
    | none => exact connectCloud_launched h hc hr'
    | some c =>
        have hl := connectCloud_loggedIn hr'
        rw [(connectCloud_running hc hl a).2, hkept c hc hl]

theorem startedWith_of_connected {s : CloudState} (h : s.InStep) (hc : s.cloudConnected = true) :
    ∃ c, s.startedWith = some c := by
  cases hs : s.cloudSession with
  | none => simp [CloudState.cloudConnected, hs] at hc
  | some session =>
      simp only [CloudState.cloudConnected, hs] at hc
      obtain ⟨c, hr⟩ := (h session hs).running_of_connected hc
      exact ⟨_, by rw [CloudState.startedWith, CloudState.client, hs, Option.bind_some, hr]; rfl⟩

theorem clientOfUser_refresh {s : CloudState} (h : s.InStep) (a : Connect) :
    ClientOfUser s (.cloudRefresh a) ↔ CredentialsKept s (.cloudRefresh a) := by
  by_cases hconn : s.cloudConnected = true
  · obtain ⟨c, hc⟩ := startedWith_of_connected h hconn
    have hstep : cloudRefresh s a = (s, networkSuccess) := by rw [cloudRefresh, if_pos hconn]
    constructor
    · intro hlaw c' hc' _
      have hcred := hlaw.1 (congrArg some (congrArg Prod.snd hstep))
      rw [show s.step (.cloudRefresh a) = s from congrArg Prod.fst hstep, hc'] at hcred
      exact Option.some.inj hcred
    · intro hkept
      refine ⟨?_, fun hn => hn.elim⟩
      intro _
      rw [show s.step (.cloudRefresh a) = s from congrArg Prod.fst hstep, hc, hkept c hc hconn]
  · have hstep : cloudRefresh s a = connectCloud (disconnectCloud s) a := by
      rw [cloudRefresh, if_neg hconn]
    constructor
    · intro _ c _ hc
      exact absurd hc hconn
    · intro _
      refine ⟨?_, fun hn => hn.elim⟩
      intro hr
      have hr' : (connectCloud (disconnectCloud s) a).2 = networkSuccess := by
        rw [← hstep]
        exact Option.some.inj hr
      show (cloudRefresh s a).1.startedWith = some (cloudRefresh s a).1.credentials
      rw [hstep, connectCloud_store]
      exact connectCloud_launched (disconnectCloud_inStep s) rfl hr'

/-- One call. -/
theorem clientOfUser_iff {s : CloudState} (h : s.InStep) (e : CloudEvent) :
    ClientOfUser s e ↔ CredentialsKept s e := by
  have hother : e.connectResult s = none → (s.step e).startedWith = s.startedWith ∨ ¬ e.Clears →
      (ClientOfUser s e ↔ (e.Clears → s.startedWith = none)) := by
    intro hr hs
    rw [ClientOfUser, hr]
    rcases hs with hs | hn
    · simp [hs]
    · simp [hn]
  cases e with
  | connectCloud a => exact clientOfUser_connect h a
  | cloudRefresh a => exact clientOfUser_refresh h a
  | changeUser call => exact hother rfl (Or.inl rfl)
  | userLogout => exact hother rfl (Or.inl rfl)
  | disconnectCloud => exact hother rfl (Or.inr id)
  | addSubscribe ids accepts => exact hother rfl (Or.inr id)
  | delSubscribe ids => exact hother rfl (Or.inr id)
  | mqtt e => exact hother rfl (Or.inr id)

/-- The cloud client is that of the stored user after every connect, and gone after every logout,
exactly when the credentials never change under a running client that is used again. -/
theorem cloud_credentials_iff (store : AuthStore) (run : List CloudEvent) :
    AtEveryStep CloudState.step ClientOfUser (.start store) run ↔
      AtEveryStep CloudState.step CredentialsKept (.start store) run := by
  constructor
  · intro h past e rest hr
    exact (clientOfUser_iff (inStep_run store run past (e :: rest) hr) e).1 (h past e rest hr)
  · intro h past e rest hr
    exact (clientOfUser_iff (inStep_run store run past (e :: rest) hr) e).2 (h past e rest hr)

/-- A logged-in user, who logs out and lets another one in. -/
def firstUser : Session := { accessToken := ascii "t1", userId := ascii "1" }

def otherUser : LoginCall where
  json := ascii "\x7b\"data\":\x7b\"token\":\"t2\",\"user\":\x7b\"uid\":\"2\"\x7d\x7d\x7d"
  countryCode := []
  now := 0
  profile := ⟨[], 0, []⟩

def userSwitch : List CloudEvent :=
  [.connectCloud ⟨[], .launched⟩, .changeUser otherUser, .connectCloud ⟨[], .launched⟩]

theorem cloud_credentials_fails :
    ¬ AtEveryStep CloudState.step ClientOfUser (.start (some firstUser)) userSwitch := by
  intro h
  have hlast := h (userSwitch.take 2) (.connectCloud ⟨[], .launched⟩) [] rfl
  have hcred := hlast.1 (by decide +kernel)
  revert hcred
  decide +kernel

/-! ## Subscriptions -/

def CloudState.subscribed (s : CloudState) : Finset Bytes :=
  match s.cloudSession with
  | some session => session.subscribed
  | none => ∅

/-- The device ids subscribed on the broker, once the current connection is up and the connect
handler has run. -/
def CloudState.established (s : CloudState) : Option (Finset Bytes) :=
  s.cloudSession.bind CloudSession.established

/-- The cloud state with the device ids that were added and not deleted since, and with those of
them that were added since the agent made its session. -/
structure Watched where
  cloud : CloudState
  wanted : Finset Bytes
  here : Finset Bytes

def Watched.step (w : Watched) (e : CloudEvent) : Watched where
  cloud := w.cloud.step e
  wanted :=
    match e with
    | .addSubscribe ids _ => w.wanted ∪ deviceIds ids
    | .delSubscribe ids => w.wanted \ ids.toFinset
    | _ => w.wanted
  here :=
    match e with
    | .addSubscribe ids _ => if w.cloud.cloudSession.isSome then w.here ∪ deviceIds ids else w.here
    | .delSubscribe ids => w.here \ ids.toFinset
    | .disconnectCloud => ∅
    | .cloudRefresh _ => if w.cloud.cloudConnected then w.here else ∅
    | _ => w.here

def Watched.start (store : AuthStore) : Watched := ⟨.start store, ∅, ∅⟩

/-- Every device id that was added and not deleted since is subscribed on the broker. -/
def SubscriptionsKept (w : Watched) : Prop :=
  ∀ ids, w.cloud.established = some ids → w.wanted ⊆ ids

/-- Once a connection is established, every device id that was added and not deleted since was
added since the agent made the session. -/
def AddedHere (w : Watched) : Prop := ∀ ids, w.cloud.established = some ids → w.wanted ⊆ w.here

theorem subscribed_applySubscriptions (s : CloudSession) (accepts : Bytes → Bool) :
    (s.applySubscriptions accepts).subscribed = s.subscribed := by
  unfold CloudSession.applySubscriptions
  split
  · rfl
  · dsimp only
    split_ifs <;> rfl

theorem subscribed_addSubscribe (s : CloudSession) (ids : List Bytes) (accepts : Bytes → Bool) :
    (s.addSubscribe ids accepts).subscribed = s.subscribed ∪ deviceIds ids := by
  rw [CloudSession.addSubscribe]
  split_ifs
  · rw [subscribed_applySubscriptions]
  · rfl

theorem subscribed_mqtt (s : CloudSession) (e : MqttEvent) : (s.mqtt e).subscribed = s.subscribed := by
  unfold CloudSession.mqtt
  split
  · rfl
  · cases e <;> dsimp only <;> split_ifs <;> first | rfl | rw [subscribed_applySubscriptions]

theorem subscribed_start (s : CloudSession) (launch : Launch) :
    (s.start launch).1.subscribed = s.subscribed := by
  rw [CloudSession.start]
  split_ifs
  · rfl
  · rfl
  · cases launch <;> rfl

theorem subscribed_connectCloud (s : CloudState) (a : Connect) :
    (connectCloud s a).1.subscribed = s.subscribed := by
  have hgetD : (s.cloudSession.getD {}).subscribed = s.subscribed := by
    unfold CloudState.subscribed
    cases s.cloudSession <;> rfl
  unfold connectCloud
  split
  · exact hgetD
  · split_ifs
    · show ((CloudSession.configure _ _).start _).1.subscribed = _
      rw [subscribed_start]
      exact hgetD
    · exact hgetD

/-- The session wants what was added to it and not deleted. -/
def InSession (w : Watched) : Prop := w.here = w.cloud.subscribed

theorem InSession.step {w : Watched} (h : InSession w) (e : CloudEvent) : InSession (w.step e) := by
  cases e with
  | changeUser call => exact h
  | userLogout => exact h
  | connectCloud a => exact h.trans (subscribed_connectCloud w.cloud a).symm
  | disconnectCloud => rfl
  | cloudRefresh a =>
      show (if w.cloud.cloudConnected then w.here else ∅) = (cloudRefresh w.cloud a).1.subscribed
      unfold cloudRefresh
      split_ifs
      · exact h
      · rw [subscribed_connectCloud]
        rfl
  | addSubscribe ids accepts =>
      show (if w.cloud.cloudSession.isSome then w.here ∪ deviceIds ids else w.here) =
        (cloudAddSubscribe w.cloud ids accepts).1.subscribed
      unfold InSession CloudState.subscribed at h
      unfold cloudAddSubscribe CloudState.subscribed
      cases hs : w.cloud.cloudSession with
      | none => simpa [hs] using h
      | some session =>
          rw [hs] at h
          simp [subscribed_addSubscribe, h]
  | delSubscribe ids =>
      show w.here \ ids.toFinset = (cloudDelSubscribe w.cloud ids).subscribed
      unfold InSession CloudState.subscribed at h
      unfold cloudDelSubscribe CloudState.subscribed
      cases hs : w.cloud.cloudSession with
      | none => simp [h, hs]
      | some session =>
          rw [hs] at h
          simp [h, CloudSession.delSubscribe]
  | mqtt e =>
      show w.here = CloudState.subscribed
        { w.cloud with cloudSession := w.cloud.cloudSession.map fun session => session.mqtt e }
      unfold InSession CloudState.subscribed at h
      unfold CloudState.subscribed
      cases hs : w.cloud.cloudSession with
      | none => simpa [hs] using h
      | some session =>
          rw [hs] at h
          simp [h, subscribed_mqtt]

theorem established_eq {s : CloudState} (h : s.InStep) {ids : Finset Bytes}
    (he : s.established = some ids) : ids = s.subscribed := by
  obtain ⟨session, hs, he⟩ := Option.bind_eq_some_iff.1 he
  rw [(h session hs).established he, CloudState.subscribed, hs]

theorem watched_inv (store : AuthStore) (run : List CloudEvent) :
    InEveryState Watched.step (fun w => w.cloud.InStep ∧ InSession w) (.start store) run := by
  apply inEveryState_of_inv
  · intro w e ⟨hin, hs⟩
    exact ⟨hin.step e, hs.step e⟩
  · refine ⟨?_, rfl⟩
    intro session hs
    cases hs

/-- The broker has every subscription that is wanted exactly when it was asked for since the agent
made its session. -/
theorem cloud_subscriptions_iff (store : AuthStore) (run : List CloudEvent) :
    InEveryState Watched.step SubscriptionsKept (.start store) run ↔
      InEveryState Watched.step AddedHere (.start store) run := by
  have hsame : ∀ past rest, run = past ++ rest →
      ∀ ids, (after Watched.step (.start store) past).cloud.established = some ids →
        ids = (after Watched.step (.start store) past).here := by
    intro past rest hr ids he
    obtain ⟨hin, hs⟩ := watched_inv store run past rest hr
    exact (established_eq hin he).trans hs.symm
  constructor
  · intro h past rest hr ids he
    rw [← hsame past rest hr ids he]
    exact h past rest hr ids he
  · intro h past rest hr ids he
    rw [hsame past rest hr ids he]
    exact h past rest hr ids he

/-- A device is added before the first connect. -/
def earlyAdd : List CloudEvent :=
  [.addSubscribe [ascii "d"] fun _ => true, .connectCloud ⟨[], .launched⟩, .mqtt .connack, .mqtt .mark,
    .mqtt (.handle fun _ => true)]

theorem cloud_subscriptions_fails :
    ¬ InEveryState Watched.step SubscriptionsKept (.start (some firstUser)) earlyAdd := by
  intro h
  have hlast := h earlyAdd [] rfl ∅ (by decide +kernel)
  revert hlast
  decide +kernel

end OpenBambu.Agent
