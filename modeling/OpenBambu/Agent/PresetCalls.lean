import OpenBambu.Agent.PresetUpload

/-!
# Creating and updating a preset

`cloud_presets::create` and `update` take the map of a preset, send it, and write the error code and
the time of the reply back into the same map, which the caller hands to the next call.
-/

namespace OpenBambu.Agent

open OpenBambu.Foundation OpenBambu.Json

/-! ## One call -/

structure HttpReply where
  statusCode : Int
  body : Bytes
  /-- Empty unless the transport failed. -/
  error : Bytes
  deriving DecidableEq, Repr

/-- The call counts as failed, whatever the body says. -/
def HttpReply.failed (reply : HttpReply) : Bool :=
  reply.error ≠ [] || reply.statusCode < 200 || 300 ≤ reply.statusCode

def propagateErrorCode (root : Value) (values : Values) : Values :=
  match root.find (ascii "code") with
  | .number d =>
      if Binary64.toInt64 d ≠ 0 then values.insert (ascii "code") (signed (Binary64.toInt64 d)) else values
  | .string s => if s ≠ [] then values.insert (ascii "code") s else values
  | _ => values

/-- The time of the reply, if it is behind the epoch. -/
def refreshTime (root : Value) (values : Values) : Values :=
  let ts := parseIsoUtc (updateTimeOf root)
  if 0 < ts then values.insert (ascii "updated_time") (signed ts) else values

/-- The agent of a call, and whether its headers carry an authorization. -/
inductive Login where
  | noAgent
  | loggedOut
  | loggedIn
  deriving DecidableEq, Repr

structure CallOutcome (ρ : Type) where
  returned : ρ
  values : Values
  httpCode : Nat
  /-- The body of the request, if one was made. -/
  sent : Option Bytes

/-- `static_cast<unsigned int>` of the status. -/
def httpCodeOf (reply : HttpReply) : Nat := (reply.statusCode % 2 ^ 32).toNat

def create (login : Login) (name : Bytes) (values : Values) (reply : HttpReply) : CallOutcome Bytes :=
  if login = .noAgent then ⟨[], values, 0, none⟩
  else if login = .loggedOut then ⟨[], values, 0, none⟩
  else
    let body := buildUploadBody name values true
    let root := parseBody reply.body
    let values := propagateErrorCode root values
    if reply.failed then ⟨[], values, httpCodeOf reply, some body⟩
    else
      ⟨(root.find (ascii "setting_id")).asString, refreshTime root values, httpCodeOf reply, some body⟩

def errPutSettingFailed : Int := -8

def update (login : Login) (settingId name : Bytes) (values : Values) (reply : HttpReply) : CallOutcome Int :=
  if login = .noAgent ∨ settingId = [] then ⟨errPutSettingFailed, values, 0, none⟩
  else if login = .loggedOut then ⟨errPutSettingFailed, values, 0, none⟩
  else
    let body := buildUploadBody name values false
    let root := parseBody reply.body
    let values := propagateErrorCode root values
    if reply.failed then ⟨errPutSettingFailed, values, httpCodeOf reply, some body⟩
    else ⟨0, refreshTime root values, httpCodeOf reply, some body⟩

/-! ## A run of calls -/

/-- A call with the map the last one left, and what the server answers if it is asked. -/
inductive PresetCall where
  | create (login : Login) (name : Bytes) (reply : HttpReply)
  | update (login : Login) (settingId name : Bytes) (reply : HttpReply)

namespace PresetCall

def step (values : Values) : PresetCall → Values
  | .create login name reply => (Agent.create login name values reply).values
  | .update login settingId name reply => (Agent.update login settingId name values reply).values

/-- The reply of the server, if the call asks it. -/
def reply : PresetCall → Option HttpReply
  | .create login _ reply => if login = .loggedIn then some reply else none
  | .update login settingId _ reply => if login = .loggedIn ∧ settingId ≠ [] then some reply else none

/-- What every call does to the map. -/
theorem step_eq (values : Values) (call : PresetCall) :
    call.step values = match call.reply with
      | none => values
      | some reply =>
          if reply.failed then propagateErrorCode (parseBody reply.body) values
          else refreshTime (parseBody reply.body) (propagateErrorCode (parseBody reply.body) values) := by
  cases call with
  | create login name reply =>
      cases login <;> simp only [step, PresetCall.reply, Agent.create, reduceCtorEq, if_true, if_false]
      split_ifs <;> rfl
  | update login settingId name reply =>
      by_cases hid : settingId = []
      · simp [step, PresetCall.reply, Agent.update, hid]
      · cases login <;>
          simp only [step, PresetCall.reply, Agent.update, reduceCtorEq, hid, if_true, if_false, or_false,
            ne_eq, not_false_eq_true, and_true]
        split_ifs <;> rfl

end PresetCall

/-! ## What a call writes -/

/-- What stands under `code` behind a reply, if it writes there. -/
def errorCodeText (root : Value) : Option Bytes :=
  match root.find (ascii "code") with
  | .number d => if Binary64.toInt64 d ≠ 0 then some (signed (Binary64.toInt64 d)) else none
  | .string s => if s ≠ [] then some s else none
  | _ => none

theorem find_propagate (root : Value) (values : Values) (key : Bytes) :
    (propagateErrorCode root values).find key =
      if key = ascii "code" then (errorCodeText root).or (values.find key) else values.find key := by
  unfold propagateErrorCode errorCodeText
  cases root.find (ascii "code") with
  | number d => by_cases h : Binary64.toInt64 d = 0 <;> simp [h, OrderedMap.find_insert]
  | string s => by_cases h : s = [] <;> simp [h, OrderedMap.find_insert]
  | _ => simp

theorem find_refresh (root : Value) (values : Values) (key : Bytes) :
    (refreshTime root values).find key =
      if key = ascii "updated_time" ∧ 0 < parseIsoUtc (updateTimeOf root) then
        some (signed (parseIsoUtc (updateTimeOf root)))
      else values.find key := by
  unfold refreshTime
  by_cases h : 0 < parseIsoUtc (updateTimeOf root) <;> simp [h, OrderedMap.find_insert]

namespace PresetCall

theorem step_none {values : Values} {call : PresetCall} (h : call.reply = none) : call.step values = values := by
  rw [step_eq, h]

theorem find_step {values : Values} {call : PresetCall} {reply : HttpReply} (h : call.reply = some reply)
    {key : Bytes} (htime : key ≠ ascii "updated_time") :
    (call.step values).find key = (propagateErrorCode (parseBody reply.body) values).find key := by
  rw [step_eq, h]
  simp only
  split_ifs
  · rfl
  · rw [find_refresh, if_neg fun hk => htime hk.1]

theorem find_code {values : Values} {call : PresetCall} {reply : HttpReply} (h : call.reply = some reply) :
    (call.step values).find (ascii "code") =
      (errorCodeText (parseBody reply.body)).or (values.find (ascii "code")) := by
  rw [find_step h (by decide), find_propagate, if_pos rfl]

theorem find_other (values : Values) (call : PresetCall) {key : Bytes} (hcode : key ≠ ascii "code")
    (htime : key ≠ ascii "updated_time") : (call.step values).find key = values.find key := by
  cases h : call.reply with
  | none => rw [step_none h]
  | some reply => rw [find_step h htime, find_propagate, if_neg hcode]

/-- The time changes only behind a reply that is not a failure and has one. -/
theorem find_time_ne {values : Values} {call : PresetCall}
    (h : (call.step values).find (ascii "updated_time") ≠ values.find (ascii "updated_time")) :
    ∃ reply, call.reply = some reply ∧ reply.failed = false ∧
      (scanDateTime (updateTimeOf (parseBody reply.body))).isSome = true := by
  have hcode : ascii "updated_time" ≠ ascii "code" := by decide
  cases hreply : call.reply with
  | none => exact absurd (congrArg (OrderedMap.find · _) (step_none hreply)) h
  | some reply =>
      rw [step_eq, hreply] at h
      simp only at h
      split_ifs at h with hfailed
      · exact absurd (by rw [find_propagate, if_neg hcode]) h
      · refine ⟨reply, rfl, by simpa using hfailed, ?_⟩
        rw [find_refresh, find_propagate, if_neg hcode] at h
        split_ifs at h with hpos
        · by_contra hnone
          rw [Option.not_isSome_iff_eq_none] at hnone
          exact absurd hpos.2 (by simp [parseIsoUtc, hnone])
        · exact absurd rfl h

end PresetCall

/-! ## The error slot over a run -/

/-- The reply has an error code other than zero. -/
def CarriesCode (root : Value) : Prop :=
  match root.find (ascii "code") with
  | .number d => d ≠ 0
  | .string s => s ≠ [] ∧ s ≠ ascii "0"
  | _ => False

def PresetCall.Carries (call : PresetCall) : Prop :=
  ∃ reply, call.reply = some reply ∧ CarriesCode (parseBody reply.body)

/-- The call touches the code and the time only, the code is there exactly when this call's reply
carries one, and the time changes only if the call succeeds and the reply has a time. -/
structure Settled (values : Values) (call : PresetCall) : Prop where
  frame : ∀ key, key ≠ ascii "code" → key ≠ ascii "updated_time" →
    (call.step values).find key = values.find key
  code : ((call.step values).find (ascii "code")).isSome = true ↔ call.Carries
  time : (call.step values).find (ascii "updated_time") ≠ values.find (ascii "updated_time") →
    ∃ reply, call.reply = some reply ∧ reply.failed = false ∧
      (scanDateTime (updateTimeOf (parseBody reply.body))).isSome = true

/-- A call whose reply carries no code finds none in the map, no reply has a zero as a text, and one
with a fraction that has no integer part finds a code in the map. -/
structure Fresh (values : Values) (call : PresetCall) : Prop where
  stale : ¬ call.Carries → values.find (ascii "code") = none
  zero : ∀ reply, call.reply = some reply →
    (parseBody reply.body).find (ascii "code") ≠ .string (ascii "0")
  fraction : ∀ reply, call.reply = some reply → ∀ d, (parseBody reply.body).find (ascii "code") = .number d →
    d ≠ 0 → Binary64.toInt64 d = 0 → (values.find (ascii "code")).isSome = true

theorem carries_iff {call : PresetCall} {reply : HttpReply} (h : call.reply = some reply) :
    call.Carries ↔ CarriesCode (parseBody reply.body) := by
  simp [PresetCall.Carries, h]

theorem fresh_iff {values : Values} {call : PresetCall} {reply : HttpReply} (h : call.reply = some reply) :
    Fresh values call ↔
      (¬ CarriesCode (parseBody reply.body) → values.find (ascii "code") = none) ∧
      (parseBody reply.body).find (ascii "code") ≠ .string (ascii "0") ∧
      ∀ d, (parseBody reply.body).find (ascii "code") = .number d → d ≠ 0 → Binary64.toInt64 d = 0 →
        (values.find (ascii "code")).isSome = true := by
  have hsame : ∀ r, call.reply = some r → r = reply := fun r hr => Option.some.inj (hr.symm.trans h)
  constructor
  · intro hf
    refine ⟨fun hno => hf.stale ((carries_iff h).not.2 hno), hf.zero reply h, hf.fraction reply h⟩
  · intro ⟨hstale, hzero, hfraction⟩
    refine ⟨fun hno => hstale ((carries_iff h).not.1 hno), ?_, ?_⟩
    · intro r hr
      exact hsame r hr ▸ hzero
    · intro r hr
      exact hsame r hr ▸ hfraction

/-- What stands under `code` behind a reply, against what the reply carries. -/
theorem code_present_iff (root : Value) (old : Option Bytes) :
    (((errorCodeText root).or old).isSome = true ↔ CarriesCode root) ↔
      (¬ CarriesCode root → old = none) ∧ root.find (ascii "code") ≠ .string (ascii "0") ∧
      ∀ d, root.find (ascii "code") = .number d → d ≠ 0 → Binary64.toInt64 d = 0 → old.isSome = true := by
  unfold errorCodeText CarriesCode
  cases root.find (ascii "code") with
  | number d =>
      have hzero : Binary64.toInt64 0 = 0 := by decide
      by_cases hint : Binary64.toInt64 d = 0
      · by_cases hd : d = 0
        · cases old <;> simp [hd, hzero]
        · cases old <;> simp [hint, hd]
      · have hd : d ≠ 0 := fun h => hint (h ▸ hzero)
        simp [hint, hd]
  | string s =>
      by_cases hs : s = []
      · subst hs
        have hne : ([] : Bytes) ≠ ascii "0" := by decide
        cases old <;> simp [hne]
      · by_cases hzero : s = ascii "0"
        · have hne : ascii "0" ≠ [] := by decide
          simp [hzero, hne]
        · simp [hs, hzero]
  | _ => cases old <;> simp

theorem code_iff (values : Values) (call : PresetCall) :
    (((call.step values).find (ascii "code")).isSome = true ↔ call.Carries) ↔ Fresh values call := by
  cases h : call.reply with
  | none =>
      have hno : ¬ call.Carries := by simp [PresetCall.Carries, h]
      rw [PresetCall.step_none h, iff_false_right hno, Option.not_isSome_iff_eq_none]
      constructor
      · intro hnone
        exact ⟨fun _ => hnone, by simp [h], by simp [h]⟩
      · intro hf
        exact hf.stale hno
  | some reply =>
      rw [PresetCall.find_code h, carries_iff h, fresh_iff h]
      exact code_present_iff _ _

theorem settled_iff (values : Values) (call : PresetCall) : Settled values call ↔ Fresh values call := by
  rw [← code_iff]
  constructor
  · exact fun h => h.code
  · intro h
    exact ⟨fun key => PresetCall.find_other values call, h, PresetCall.find_time_ne⟩

/-- Every call of a run leaves the map as its reply says exactly when every call finds the error slot
as it needs it. -/
theorem calls_settled_iff (values : Values) (calls : List PresetCall) :
    AtEveryStep PresetCall.step Settled values calls ↔ AtEveryStep PresetCall.step Fresh values calls := by
  constructor
  · intro h past call rest hr
    exact (settled_iff _ call).1 (h past call rest hr)
  · intro h past call rest hr
    exact (settled_iff _ call).2 (h past call rest hr)

/-- A refusal because of the limit, and the reply to the call behind it. -/
def limitReply : HttpReply := ⟨403, (Value.object [(ascii "code", .number ((14 : Int) : ℚ))]).dump, []⟩

def createdReply : HttpReply := ⟨200, (Value.object [(ascii "setting_id", .string (ascii "P1"))]).dump, []⟩

def limitThenCreated : List PresetCall :=
  [.create .loggedIn (ascii "A") limitReply, .create .loggedIn (ascii "A") createdReply]

theorem parseBody_limitReply :
    parseBody limitReply.body = .object [(ascii "code", .number ((14 : Int) : ℚ))] := by
  have hnumber : Writable (.number ((14 : Int) : ℚ)) := (Built.integer (by decide)).writable
  have hwritable : Writable (.object [(ascii "code", .number ((14 : Int) : ℚ))]) :=
    .object (List.pairwise_singleton _ _) (List.forall_mem_singleton.2 hnumber)
  rw [parseBody, limitReply, parse_dump hwritable]

theorem parseBody_createdReply :
    parseBody createdReply.body = .object [(ascii "setting_id", .string (ascii "P1"))] := by
  have hwritable : Writable (.object [(ascii "setting_id", .string (ascii "P1"))]) :=
    .object (List.pairwise_singleton _ _) (List.forall_mem_singleton.2 (.string _))
  rw [parseBody, createdReply, parse_dump hwritable]

theorem calls_not_settled : ¬ AtEveryStep PresetCall.step Settled .empty limitThenCreated := by
  intro h
  have hsettled := h [.create .loggedIn (ascii "A") limitReply] (.create .loggedIn (ascii "A") createdReply) []
    rfl
  have hpresent := hsettled.code
  rw [after_cons, after_nil, PresetCall.find_code rfl, PresetCall.find_code rfl, carries_iff rfl,
    parseBody_limitReply, parseBody_createdReply] at hpresent
  exact hpresent.1 (by decide +kernel)

end OpenBambu.Agent
