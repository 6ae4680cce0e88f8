import OpenBambu.Rtsp.Client

/-!
# The conversation of a handshake

Seen from the connection a handshake is a machine: a request is due, the reply to it leads to the next one, to
the same once more, or nowhere. `start` succeeds where the conversation comes to its end, and on the way it has
never exchanged anything else.
-/

namespace OpenBambu.Rtsp

open OpenBambu.Foundation OpenBambu.Foundation.Dialogue

/-! ## The machine -/

/-- The request that is due, or none. -/
inductive Phase where
  | options
  | describe
  | setup
  | play
  | playing
  deriving DecidableEq, Repr

/-- The address for SETUP is `control`. -/
structure Conversation where
  phase : Phase
  retried : Bool
  control : Bytes
  client : ClientState

def Conversation.start : Conversation := ⟨.options, false, [], ClientState.start⟩

structure RequestLine where
  method : Bytes
  uri : Bytes
  extraHeaders : Bytes

/-- The nonce count that a request uses up. -/
def AuthState.spent (auth : AuthState) : AuthState :=
  if auth.wantsCnonce = true then { auth with digestNc := auth.digestNc + 1 } else auth

/-- Behind a request. -/
def ClientState.asked (st : ClientState) : ClientState := { st with cseq := st.cseq + 1, auth := st.auth.spent }

section Machine

variable (md5Hex : Bytes → Bytes) (who : Credentials) (urlFull : Bytes) (c : Conversation)

def Conversation.line : RequestLine :=
  match c.phase with
  | .options => ⟨ascii "OPTIONS", urlFull, []⟩
  | .describe => ⟨ascii "DESCRIBE", urlFull, acceptHeader⟩
  | .setup => ⟨ascii "SETUP", c.control, transportHeader⟩
  | .play | .playing => ⟨ascii "PLAY", urlFull, rangeHeader⟩

def requestText (l : RequestLine) (st : ClientState) (cnonce : Bytes) : Bytes :=
  requestHead l.method l.uri st ++ (computeAuthorization md5Hex cnonce who l.method l.uri st.auth).1 ++
    l.extraHeaders ++ crlf

/-- The request that is due, with some nonce of the client. -/
def Conversation.request (cnonce : Bytes) : Bytes := requestText md5Hex who (c.line urlFull) c.client cnonce

/-- The request has room in the buffer. -/
def Conversation.Fits : Prop :=
  (requestHead (c.line urlFull).method (c.line urlFull).uri c.client).length < 4096

/-- Where a reply other than 401 leads. -/
def granted (phase : Phase) (control : Bytes) (resp : Response) (st : ClientState) : Option Conversation :=
  if resp.status ≠ 200 then none
  else
    match phase with
    | .options => some ⟨.describe, false, control, st⟩
    | .describe =>
        match parseSdp resp.body with
        | .error _ => none
        | .ok (track, ctl) => some ⟨.setup, false, resolveControl urlFull ctl, { st with track }⟩
    | .setup =>
        let session := resp.header (ascii "session")
        if session = [] then none
        else some ⟨.play, false, control, { st with sessionId := sessionIdOf session }⟩
    | .play => some ⟨.playing, false, control, st⟩
    | .playing => none

/-- Where a 401 leads, with the state behind it. -/
def Conversation.challenged (resp : Response) (st : ClientState) : Option Conversation :=
  if c.retried then none
  else
    match adoptChallenge resp st.auth with
    | .ok (true, auth) => some { c with retried := true, client := { st with auth } }
    | _ => none

def Conversation.hear (resp : Response) (st : ClientState) : Option Conversation :=
  if resp.status = 401 then c.challenged resp st else granted urlFull c.phase c.control resp st

/-! ## What is exchanged -/

/-- A request is written, or is not. -/
def wrote (req : Bytes) (ok : Bool) : Exchange RtspAnswer := ⟨.write req, ok⟩

/-- The answer to a wait for a reply. -/
abbrev Awaited (st : ClientState) : Type := RtspAnswer (.await st.track.rtpPt st.pending st.demux)

def got (st : ClientState) (ans : Awaited st) : Exchange RtspAnswer := ⟨_, ans⟩

/-- The conversation behind what was read in place of a reply. -/
def Conversation.behind (ans : Awaited c.client.asked) : Option Conversation :=
  match ans.1 with
  | .error _ => none
  | .ok (resp, pending, demux) => c.hear urlFull resp { c.client.asked with pending, demux }

/-- The conversation goes from `c` to another. -/
inductive Talk : List (Exchange RtspAnswer) → Conversation → Prop
  | nil : Talk [] c
  | turn {t : List (Exchange RtspAnswer)} {c₁ c₂ : Conversation} (talk : Talk t c₁) (fits : c₁.Fits urlFull)
      (cnonce : Bytes) (ans : Awaited c₁.client.asked) (leads : c₁.behind urlFull ans = some c₂) :
      Talk (t ++ [wrote (c₁.request md5Hex who urlFull cnonce) true, got c₁.client.asked ans]) c₂

/-- Exchanges behind which the conversation does not go on. -/
inductive Stuck : List (Exchange RtspAnswer) → Prop
  | tooLong (long : ¬ c.Fits urlFull) : Stuck []
  | unwritten (fits : c.Fits urlFull) (cnonce : Bytes) :
      Stuck [wrote (c.request md5Hex who urlFull cnonce) false]
  | unheard (fits : c.Fits urlFull) (cnonce : Bytes) (ans : Awaited c.client.asked)
      (ends : c.behind urlFull ans = none) :
      Stuck [wrote (c.request md5Hex who urlFull cnonce) true, got c.client.asked ans]

/-- From `c` on the conversation comes to where it does not go on. -/
def Breaks (t : List (Exchange RtspAnswer)) : Prop :=
  ∃ c₁ front rest, t = front ++ rest ∧ Talk md5Hex who urlFull c front c₁ ∧ c₁.phase ≠ .playing ∧
    Stuck md5Hex who urlFull c₁ rest

end Machine

/-- The calls that go over the connection. -/
def onWire : RtspCall → Bool
  | .write _ => true
  | .await .. => true
  | _ => false

instance (call : RtspCall) : Nonempty (RtspAnswer call) := by
  cases call with
  | await rtpPt pending d => exact ⟨⟨_, .silent, [], rfl⟩⟩
  | dialTls => exact ⟨(true : Bool)⟩
  | dial => exact ⟨(true : Bool)⟩
  | randomDevice => exact ⟨(0 : UInt64)⟩
  | write => exact ⟨(true : Bool)⟩
  | shutdownBoth => exact ⟨()⟩
  | close => exact ⟨()⟩

/-! ## The client and the machine -/

section Simulation

variable {md5Hex : Bytes → Bytes} {who : Credentials} {urlFull : Bytes}

theorem computeAuthorization_spent (cnonce : Bytes) (method uri : Bytes) (auth : AuthState) :
    (computeAuthorization md5Hex cnonce who method uri auth).2 = auth.spent := by
  unfold computeAuthorization AuthState.spent AuthState.wantsCnonce
  cases auth.authScheme with
  | none => rfl
  | basic => rfl
  | digest => simp

theorem authorization_meets (auth : AuthState) (method uri : Bytes) :
    Meets onWire (authorization md5Hex who auth method uri)
      (fun p t => t = [] ∧ ∃ cnonce, p = computeAuthorization md5Hex cnonce who method uri auth)
      fun _ _ => False := by
  unfold authorization
  split_ifs
  · exact meets_unseen rfl fun r => meets_pure ⟨rfl, _, rfl⟩
  · exact meets_pure ⟨rfl, _, rfl⟩

theorem sendRequest_meets (c : Conversation) :
    Meets onWire (sendRequest md5Hex who (c.line urlFull).method (c.line urlFull).uri
        (c.line urlFull).extraHeaders c.client)
      (fun st t => c.Fits urlFull ∧ st = c.client.asked ∧
        ∃ cnonce, t = [wrote (c.request md5Hex who urlFull cnonce) true])
      fun _ t => Stuck md5Hex who urlFull c t := by
  unfold sendRequest
  dsimp only
  split_ifs with hlong
  · exact meets_throw (.tooLong (not_lt.mpr hlong))
  · have hfits : c.Fits urlFull := not_le.mp hlong
    refine meets_bind ((authorization_meets _ _ _).mono (fun _ _ h => h) fun _ _ h => h.elim) ?_
    rintro p t ⟨rfl, cnonce, rfl⟩
    refine meets_ask (c := RtspCall.write _) rfl fun (written : Bool) => ?_
    cases written with
    | true => exact meets_pure ⟨hfits, by rw [computeAuthorization_spent]; rfl, cnonce, rfl⟩
    | false => exact meets_throw (.unwritten hfits cnonce)

theorem awaitReply_meets (st : ClientState) :
    Meets onWire (awaitReply st)
      (fun p t => ∃ ans : Awaited st, t = [got st ans] ∧ ∃ pending demux,
        ans.1 = .ok (p.1, pending, demux) ∧ p.2 = { st with pending, demux })
      fun e t => ∃ ans : Awaited st, t = [got st ans] ∧ ans.1 = .error e := by
  refine meets_ask rfl fun ans => ?_
  split
  · next e he => exact meets_throw ⟨ans, rfl, he⟩
  · next resp pending demux hok => exact meets_pure ⟨ans, rfl, pending, demux, hok, rfl⟩

/-- A request of the conversation and the reply to it. -/
def Replied (md5Hex : Bytes → Bytes) (who : Credentials) (urlFull : Bytes) (c : Conversation)
    (p : Response × ClientState) (t : List (Exchange RtspAnswer)) : Prop :=
  c.Fits urlFull ∧ ∃ cnonce ans,
    t = [wrote (c.request md5Hex who urlFull cnonce) true, got c.client.asked ans] ∧
      c.behind urlFull ans = c.hear urlFull p.1 p.2

theorem exchange_meets {α : Type} (c : Conversation) {f : Response × ClientState → RtspStep α}
    {good : α → List (Exchange RtspAnswer) → Prop} {bad : ReadEnd → List (Exchange RtspAnswer) → Prop}
    (hf : ∀ p t, Replied md5Hex who urlFull c p t →
      Meets onWire (f p) (fun a s => good a (t ++ s)) fun e s => bad e (t ++ s))
    (hbad : ∀ e t, Stuck md5Hex who urlFull c t → bad e t) :
    Meets onWire (sendRequest md5Hex who (c.line urlFull).method (c.line urlFull).uri
      (c.line urlFull).extraHeaders c.client >>= fun st => awaitReply st >>= f) good bad := by
  refine meets_bind ((sendRequest_meets c).mono (fun _ _ h => h) hbad) ?_
  rintro st t ⟨hfits, rfl, cnonce, rfl⟩
  refine meets_bind ((awaitReply_meets _).mono (fun _ _ h => h) ?_) ?_
  · rintro e t ⟨ans, rfl, he⟩
    exact hbad e _ (.unheard hfits cnonce ans (by rw [Conversation.behind, he]))
  · rintro p t ⟨ans, rfl, pending, demux, hok, hp⟩
    exact hf p _ ⟨hfits, cnonce, ans, rfl, by rw [Conversation.behind, hok, hp]⟩

/-- A request that may have been made twice, and the reply to the last one. -/
def Answered (md5Hex : Bytes → Bytes) (who : Credentials) (urlFull : Bytes) (c : Conversation)
    (p : Response × ClientState) (t : List (Exchange RtspAnswer)) : Prop :=
  ∃ c₁ front cnonce ans,
    t = front ++ [wrote (c₁.request md5Hex who urlFull cnonce) true, got c₁.client.asked ans] ∧
      Talk md5Hex who urlFull c front c₁ ∧ c₁.phase = c.phase ∧ c₁.Fits urlFull ∧
      c₁.behind urlFull ans = granted urlFull c.phase c.control p.1 p.2

theorem Answered.talk {c c₂ : Conversation} {p : Response × ClientState} {t : List (Exchange RtspAnswer)}
    (h : Answered md5Hex who urlFull c p t) (hgranted : granted urlFull c.phase c.control p.1 p.2 = some c₂) :
    Talk md5Hex who urlFull c t c₂ := by
  obtain ⟨c₁, front, cnonce, ans, rfl, htalk, -, hfits, hbehind⟩ := h
  exact htalk.turn hfits cnonce ans (hbehind.trans hgranted)

theorem Answered.breaks {c : Conversation} {p : Response × ClientState} {t : List (Exchange RtspAnswer)}
    (h : Answered md5Hex who urlFull c p t) (hdue : c.phase ≠ .playing)
    (hgranted : granted urlFull c.phase c.control p.1 p.2 = none) : Breaks md5Hex who urlFull c t := by
  obtain ⟨c₁, front, cnonce, ans, rfl, htalk, hphase, hfits, hbehind⟩ := h
  exact ⟨c₁, front, _, rfl, htalk, hphase ▸ hdue, .unheard hfits cnonce ans (hbehind.trans hgranted)⟩

theorem Stuck.breaks {c : Conversation} {t : List (Exchange RtspAnswer)} (h : Stuck md5Hex who urlFull c t)
    (hdue : c.phase ≠ .playing) : Breaks md5Hex who urlFull c t := ⟨c, [], t, rfl, .nil, hdue, h⟩

/-- The request is made once more, and its reply counts. -/
theorem second_meets {c c₁ : Conversation} {front : List (Exchange RtspAnswer)}
    (htalk : Talk md5Hex who urlFull c front c₁) (hretried : c₁.retried = true) (hphase : c₁.phase = c.phase)
    (hcontrol : c₁.control = c.control) (hdue : c.phase ≠ .playing) :
    Meets onWire (do
        let st ← sendRequest md5Hex who (c.line urlFull).method (c.line urlFull).uri
          (c.line urlFull).extraHeaders c₁.client
        let (resp, st) ← awaitReply st
        if resp.status = 401 then throw (.failed rejected) else pure (resp, st))
      (fun p t => Answered md5Hex who urlFull c p (front ++ t))
      fun _ t => Breaks md5Hex who urlFull c (front ++ t) := by
  have hline : c.line urlFull = c₁.line urlFull := by rw [Conversation.line, Conversation.line, hphase, hcontrol]
  rw [hline]
  refine exchange_meets c₁ ?_ fun _ rest h => ⟨c₁, front, rest, rfl, htalk, hphase ▸ hdue, h⟩
  rintro ⟨resp, st⟩ t ⟨hfits, cnonce, ans, rfl, hbehind⟩
  dsimp only at hbehind ⊢
  split_ifs with h401
  · rw [Conversation.hear, if_pos h401, Conversation.challenged, if_pos hretried] at hbehind
    exact meets_throw ⟨c₁, front, _, rfl, htalk, hphase ▸ hdue, .unheard hfits cnonce ans hbehind⟩
  · rw [Conversation.hear, if_neg h401, hphase, hcontrol] at hbehind
    exact meets_pure ⟨c₁, front, cnonce, ans, rfl, htalk, hphase, hfits, hbehind⟩

/-- Without a 401 the first reply counts; behind one that can be used the second does. -/
theorem requestWithAuth_meets {c : Conversation} (hfirst : c.retried = false) (hdue : c.phase ≠ .playing) :
    Meets onWire (requestWithAuth md5Hex who (c.line urlFull).method (c.line urlFull).uri
        (c.line urlFull).extraHeaders c.client)
      (Answered md5Hex who urlFull c) fun _ => Breaks md5Hex who urlFull c := by
  unfold requestWithAuth
  refine exchange_meets c ?_ fun _ t h => h.breaks hdue
  rintro ⟨resp, st⟩ t ⟨hfits, cnonce, ans, rfl, hbehind⟩
  dsimp only at hbehind
  show Meets onWire (if resp.status ≠ 401 then _ else _) _ _
  by_cases h401 : resp.status = 401
  · -- The challenge is taken up, or the reply leads nowhere.
    rw [if_neg (not_not.mpr h401)]
    rw [Conversation.hear, if_pos h401, Conversation.challenged, hfirst, if_neg Bool.false_ne_true] at hbehind
    have hstuck (hnone : c.behind urlFull ans = none) : Breaks md5Hex who urlFull c
        [wrote (c.request md5Hex who urlFull cnonce) true, got c.client.asked ans] :=
      (Stuck.unheard hfits cnonce ans hnone).breaks hdue
    split
    · next h hadopt => exact meets_throw (hstuck (by rw [hbehind, hadopt]))
    · next auth hadopt => exact meets_throw (hstuck (by rw [hbehind, hadopt]))
    · next auth hadopt =>
        rw [hadopt] at hbehind
        have htalk : Talk md5Hex who urlFull c
            [wrote (c.request md5Hex who urlFull cnonce) true, got c.client.asked ans]
            { c with retried := true, client := { st with auth } } := Talk.nil.turn hfits cnonce ans hbehind
        have hsecond := second_meets htalk rfl rfl rfl hdue
        dsimp only at hsecond
        exact hsecond
  · rw [if_pos h401]
    rw [Conversation.hear, if_neg h401] at hbehind
    exact meets_pure ⟨c, [], cnonce, ans, rfl, .nil, rfl, hfits, hbehind⟩

/-- A step of the handshake: the conversation goes on to another with the state it returns, or breaks. -/
def StepMeets (md5Hex : Bytes → Bytes) (who : Credentials) (urlFull : Bytes) (c : Conversation)
    (x : RtspStep ClientState) (next : ClientState → Conversation) : Prop :=
  Meets onWire x (fun st t => Talk md5Hex who urlFull c t (next st)) fun _ => Breaks md5Hex who urlFull c

theorem doOptions_meets (st : ClientState) :
    StepMeets md5Hex who urlFull ⟨.options, false, [], st⟩ (doOptions md5Hex who urlFull st)
      fun st' => ⟨.describe, false, [], st'⟩ := by
  unfold StepMeets doOptions
  refine meets_bind (requestWithAuth_meets (c := ⟨.options, false, [], st⟩) rfl nofun) ?_
  rintro ⟨resp, st'⟩ t hanswered
  show Meets onWire (if resp.status ≠ 200 then _ else _) _ _
  split_ifs with h200
  · exact meets_throw ((List.append_nil t).symm ▸ hanswered.breaks nofun (if_pos h200))
  · exact meets_pure ((List.append_nil t).symm ▸ hanswered.talk (if_neg h200))

theorem doPlay_meets (control : Bytes) (st : ClientState) :
    StepMeets md5Hex who urlFull ⟨.play, false, control, st⟩ (doPlay md5Hex who urlFull st)
      fun st' => ⟨.playing, false, control, st'⟩ := by
  unfold StepMeets doPlay
  refine meets_bind (requestWithAuth_meets (c := ⟨.play, false, control, st⟩) rfl nofun) ?_
  rintro ⟨resp, st'⟩ t hanswered
  show Meets onWire (if resp.status ≠ 200 then _ else _) _ _
  split_ifs with h200
  · exact meets_throw ((List.append_nil t).symm ▸ hanswered.breaks nofun (if_pos h200))
  · exact meets_pure ((List.append_nil t).symm ▸ hanswered.talk (if_neg h200))

theorem doSetup_meets (control : Bytes) (st : ClientState) :
    StepMeets md5Hex who urlFull ⟨.setup, false, control, st⟩ (doSetup md5Hex who control st)
      fun st' => ⟨.play, false, control, st'⟩ := by
  unfold StepMeets doSetup
  refine meets_bind (requestWithAuth_meets (c := ⟨.setup, false, control, st⟩) rfl nofun) ?_
  rintro ⟨resp, st'⟩ t hanswered
  show Meets onWire (if resp.status ≠ 200 then _ else _) _ _
  split_ifs with h200
  · exact meets_throw ((List.append_nil t).symm ▸ hanswered.breaks nofun (if_pos h200))
  · dsimp only
    split_ifs with hsession
    · refine meets_throw ((List.append_nil t).symm ▸ hanswered.breaks nofun ?_)
      rw [granted, if_neg h200]
      exact if_pos hsession
    · refine meets_pure ((List.append_nil t).symm ▸ hanswered.talk ?_)
      rw [granted, if_neg h200]
      exact if_neg hsession

theorem doDescribe_meets (st : ClientState) :
    Meets onWire (doDescribe md5Hex who urlFull st)
      (fun p t => ∃ resp, Answered md5Hex who urlFull ⟨.describe, false, [], st⟩ (resp, p.2) t ∧
        resp.status = 200 ∧ resp.body = p.1)
      fun _ => Breaks md5Hex who urlFull ⟨.describe, false, [], st⟩ := by
  unfold doDescribe
  refine meets_bind (requestWithAuth_meets (c := ⟨.describe, false, [], st⟩) rfl nofun) ?_
  rintro ⟨resp, st'⟩ t hanswered
  show Meets onWire (if resp.status ≠ 200 then _ else _) _ _
  split_ifs with h200
  · exact meets_throw ((List.append_nil t).symm ▸ hanswered.breaks nofun (if_pos h200))
  · exact meets_pure ⟨resp, (List.append_nil t).symm ▸ hanswered, not_not.mp h200, rfl⟩

theorem Talk.trans {c c₁ c₂ : Conversation} {t t' : List (Exchange RtspAnswer)}
    (h : Talk md5Hex who urlFull c t c₁) (h' : Talk md5Hex who urlFull c₁ t' c₂) :
    Talk md5Hex who urlFull c (t ++ t') c₂ := by
  induction h' with
  | nil => exact (List.append_nil t).symm ▸ h
  | turn _ fits cnonce ans leads ih => exact List.append_assoc t _ _ ▸ ih.turn fits cnonce ans leads

theorem Breaks.behind {c c₁ : Conversation} {t t' : List (Exchange RtspAnswer)}
    (h' : Breaks md5Hex who urlFull c₁ t') (h : Talk md5Hex who urlFull c t c₁) :
    Breaks md5Hex who urlFull c (t ++ t') := by
  obtain ⟨c₂, front, rest, rfl, htalk, hdue, hstuck⟩ := h'
  exact ⟨c₂, t ++ front, rest, (List.append_assoc _ _ _).symm, h.trans htalk, hdue, hstuck⟩

/-- A step behind a part of the conversation. -/
theorem StepMeets.behind {c c₁ : Conversation} {x : RtspStep ClientState} {next : ClientState → Conversation}
    {t : List (Exchange RtspAnswer)} (h : StepMeets md5Hex who urlFull c₁ x next)
    (htalk : Talk md5Hex who urlFull c t c₁) :
    Meets onWire x (fun st t' => Talk md5Hex who urlFull c (t ++ t') (next st))
      fun _ t' => Breaks md5Hex who urlFull c (t ++ t') :=
  h.mono (fun _ _ h' => htalk.trans h') fun _ _ h' => h'.behind htalk

/-- The conversation has come to its end, with this state of the client. -/
def Concludes (md5Hex : Bytes → Bytes) (who : Credentials) (urlFull : Bytes) (st : ClientState)
    (t : List (Exchange RtspAnswer)) : Prop :=
  ∃ c, Talk md5Hex who urlFull .start t c ∧ c.phase = .playing ∧ c.client = st

theorem handshake_meets : Meets onWire (handshake md5Hex who urlFull) (Concludes md5Hex who urlFull)
    fun _ => Breaks md5Hex who urlFull .start := by
  unfold handshake
  refine meets_bind (doOptions_meets .start) fun st t₁ h₁ => ?_
  refine meets_bind ((doDescribe_meets st).mono (fun _ _ h => h) fun _ _ h => h.behind h₁) ?_
  rintro ⟨sdp, st⟩ t₂ ⟨resp, hanswered, h200, rfl⟩
  have hgranted : granted urlFull .describe [] resp st =
      match parseSdp resp.body with
      | .error _ => none
      | .ok (track, ctl) => some ⟨.setup, false, resolveControl urlFull ctl, { st with track }⟩ :=
    if_neg (not_not.mpr h200)
  dsimp only
  split
  · next text hsdp =>
      rw [hsdp] at hgranted
      refine meets_throw ?_
      rw [List.append_nil]
      exact (hanswered.breaks nofun hgranted).behind h₁
  · next track control hsdp =>
      rw [hsdp] at hgranted
      simp only [← List.append_assoc]
      refine meets_bind ((doSetup_meets _ _).behind (h₁.trans (hanswered.talk hgranted))) fun st t₃ h₃ => ?_
      simp only [← List.append_assoc]
      exact ((doPlay_meets _ st).behind h₃).mono (fun st t h => ⟨_, h, rfl, rfl⟩) fun _ _ h => h

/-! ## A conversation has one end -/

theorem Talk.of_nil {c c₁ : Conversation} (h : Talk md5Hex who urlFull c [] c₁) : c₁ = c := by
  generalize ht : ([] : List (Exchange RtspAnswer)) = t at h
  cases h with
  | nil => rfl
  | turn => exact absurd ht.symm (List.append_ne_nil_of_right_ne_nil _ (List.cons_ne_nil _ _))

/-- The last two exchanges are a request and its reply. -/
theorem Talk.last {c c₂ : Conversation} {front : List (Exchange RtspAnswer)} {x y : Exchange RtspAnswer}
    (h : Talk md5Hex who urlFull c (front ++ [x, y]) c₂) :
    ∃ c₁ cnonce ans, Talk md5Hex who urlFull c front c₁ ∧
      x = wrote (c₁.request md5Hex who urlFull cnonce) true ∧ y = got c₁.client.asked ans ∧
      c₁.behind urlFull ans = some c₂ := by
  generalize ht : front ++ [x, y] = t at h
  cases h with
  | nil => exact absurd ht (List.append_ne_nil_of_right_ne_nil _ (List.cons_ne_nil _ _))
  | turn talk _ cnonce ans leads =>
      obtain ⟨rfl, hlast⟩ := List.append_inj' ht rfl
      obtain ⟨rfl, hy⟩ := List.cons.inj hlast
      exact ⟨_, cnonce, ans, talk, rfl, (List.cons.inj hy).1, leads⟩

theorem got_injective {st : ClientState} {ans ans' : Awaited st} (h : got st ans = got st ans') : ans = ans' :=
  eq_of_heq (Sigma.mk.inj h).2

theorem Talk.unique {c c₁ c₂ : Conversation} {t : List (Exchange RtspAnswer)}
    (h : Talk md5Hex who urlFull c t c₁) (h' : Talk md5Hex who urlFull c t c₂) : c₁ = c₂ := by
  induction h generalizing c₂ with
  | nil => exact h'.of_nil.symm
  | turn _ _ _ ans leads ih =>
      obtain ⟨c₃, cnonce', ans', talk', -, hgot, leads'⟩ := h'.last
      obtain rfl := ih talk'
      obtain rfl := got_injective hgot
      exact Option.some.inj (leads.symm.trans leads')

/-- The conversation cannot have come to its end and have broken off. -/
theorem Breaks.not_concludes {st : ClientState} {t : List (Exchange RtspAnswer)}
    (h : Breaks md5Hex who urlFull .start t) : ¬ Concludes md5Hex who urlFull st t := by
  rintro ⟨c, htalk, hplaying, -⟩
  obtain ⟨c₁, front, rest, rfl, hfront, hdue, hstuck⟩ := h
  cases hstuck with
  | tooLong =>
      rw [List.append_nil] at htalk
      exact hdue (hfront.unique htalk ▸ hplaying)
  | unwritten =>
      -- The last exchange of a conversation is a reply.
      generalize ht : front ++ _ = t at htalk
      cases htalk with
      | nil => exact absurd ht (List.append_ne_nil_of_right_ne_nil _ (List.cons_ne_nil _ _))
      | turn =>
          have hlast := congrArg List.getLast? ht
          rw [List.getLast?_append, List.getLast?_append] at hlast
          exact nomatch (Sigma.mk.inj (Option.some.inj hlast)).1
  | unheard _ _ ans ends =>
      obtain ⟨c₂, -, ans', htalk', -, hgot, leads⟩ := htalk.last
      obtain rfl := hfront.unique htalk'
      obtain rfl := got_injective hgot
      exact absurd (ends.symm.trans leads) nofun

/-! ## The start of the client -/

theorem start_meets (md5Hex : Bytes → Bytes) (url : Url) :
    Meets onWire (start md5Hex url) (Concludes md5Hex url.credentials (baseUrl url))
      fun _ t => t = [] ∨ Breaks md5Hex url.credentials (baseUrl url) .start t := by
  unfold start
  split_ifs with htls
  · refine meets_unseen (c := RtspCall.dialTls _ _ _) rfl fun (dialed : Bool) => ?_
    cases dialed with
    | false => exact meets_throw (Or.inl rfl)
    | true =>
        refine meets_tryCatch handshake_meets fun e t h => ?_
        cases e with
        | halt e => exact meets_throw (Or.inr ((List.append_nil t).symm ▸ h))
        | closed => exact meets_unseen rfl fun _ => meets_throw (Or.inr ((List.append_nil t).symm ▸ h))
        | failed text => exact meets_unseen rfl fun _ => meets_throw (Or.inr ((List.append_nil t).symm ▸ h))
  · refine meets_unseen (c := RtspCall.dial _ _) rfl fun (dialed : Bool) => ?_
    cases dialed with
    | false => exact meets_throw (Or.inl rfl)
    | true => exact meets_unseen rfl fun _ => meets_throw (Or.inl rfl)

end Simulation

def requestsWritten (t : List (Exchange RtspAnswer)) : List Bytes :=
  t.filterMap fun x =>
    match x.1 with
    | .write req => some req
    | _ => none

/-- A request is due, on its way, or heard of. -/
inductive TurnDone (md5Hex : Bytes → Bytes) (who : Credentials) (urlFull : Bytes) (c : Conversation) :
    List (Exchange RtspAnswer) → Prop
  | due : TurnDone md5Hex who urlFull c []
  | written (fits : c.Fits urlFull) (cnonce : Bytes) (ok : Bool) :
      TurnDone md5Hex who urlFull c [wrote (c.request md5Hex who urlFull cnonce) ok]
  | heard (fits : c.Fits urlFull) (cnonce : Bytes) (ans : Awaited c.client.asked) :
      TurnDone md5Hex who urlFull c [wrote (c.request md5Hex who urlFull cnonce) true, got c.client.asked ans]

section Moments

variable {md5Hex : Bytes → Bytes} {who : Credentials} {urlFull : Bytes} {c : Conversation}

/-- Some turns of the conversation, and the one it is in. -/
def InTurn (md5Hex : Bytes → Bytes) (who : Credentials) (urlFull : Bytes) (c : Conversation)
    (t : List (Exchange RtspAnswer)) : Prop :=
  ∃ c₁ front rest, t = front ++ rest ∧ Talk md5Hex who urlFull c front c₁ ∧ TurnDone md5Hex who urlFull c₁ rest

theorem TurnDone.earlier {t t' : List (Exchange RtspAnswer)} (h : TurnDone md5Hex who urlFull c t) (ht : t' <+: t) :
    TurnDone md5Hex who urlFull c t' := by
  cases h with
  | due =>
      obtain rfl := List.prefix_nil.mp ht
      exact .due
  | written fits cnonce ok =>
      rcases List.prefix_cons_iff.mp ht with rfl | ⟨rest, rfl, hrest⟩
      · exact .due
      · obtain rfl := List.prefix_nil.mp hrest
        exact .written fits cnonce ok
  | heard fits cnonce ans =>
      rcases List.prefix_cons_iff.mp ht with rfl | ⟨rest, rfl, hrest⟩
      · exact .due
      · rcases List.prefix_cons_iff.mp hrest with rfl | ⟨_, rfl, hnil⟩
        · exact .written fits cnonce true
        · obtain rfl := List.prefix_nil.mp hnil
          exact .heard fits cnonce ans

theorem Stuck.turn {t : List (Exchange RtspAnswer)} (h : Stuck md5Hex who urlFull c t) :
    TurnDone md5Hex who urlFull c t := by
  cases h with
  | tooLong => exact .due
  | unwritten fits cnonce => exact .written fits cnonce false
  | unheard fits cnonce ans => exact .heard fits cnonce ans

theorem prefix_append_cases {α : Type} {t front rest : List α} (h : t <+: front ++ rest) :
    t <+: front ∨ ∃ rest', t = front ++ rest' ∧ rest' <+: rest := by
  rcases List.prefix_or_prefix_of_prefix h (List.prefix_append front rest) with hin | ⟨rest', rfl⟩
  · exact Or.inl hin
  · exact Or.inr ⟨rest', rfl, (List.prefix_append_right_inj front).mp h⟩

theorem Talk.earlier {c₁ : Conversation} {t t' : List (Exchange RtspAnswer)}
    (h : Talk md5Hex who urlFull c t c₁) (ht : t' <+: t) : InTurn md5Hex who urlFull c t' := by
  induction h with
  | nil =>
      obtain rfl := List.prefix_nil.mp ht
      exact ⟨c, [], [], rfl, .nil, .due⟩
  | turn talk fits cnonce ans _ ih =>
      rcases prefix_append_cases ht with hin | ⟨rest, rfl, hrest⟩
      · exact ih hin
      · exact ⟨_, _, rest, rfl, talk, (TurnDone.heard fits cnonce ans).earlier hrest⟩

theorem Breaks.earlier {t t' : List (Exchange RtspAnswer)} (h : Breaks md5Hex who urlFull c t) (ht : t' <+: t) :
    InTurn md5Hex who urlFull c t' := by
  obtain ⟨c₁, front, rest, rfl, htalk, -, hstuck⟩ := h
  rcases prefix_append_cases ht with hin | ⟨rest', rfl, hrest⟩
  · exact htalk.earlier hin
  · exact ⟨c₁, front, rest', rfl, htalk, hstuck.turn.earlier hrest⟩

end Moments

/-! ## A camera -/

def RtspCall.isAwait : RtspCall → Bool
  | .await .. => true
  | _ => false

def line (s : String) : Bytes := ascii s ++ crlf

def describedReply : Bytes :=
  line "RTSP/1.0 200 OK" ++ line "Content-Length: 46" ++ crlf ++ line "m=video 0 RTP/AVP 96" ++
    line "a=rtpmap:96 H264/90000"

/-- The replies of a camera that challenges nothing. -/
def openReplies : List Bytes :=
  [line "RTSP/1.0 200 OK" ++ crlf, describedReply,
    line "RTSP/1.0 200 OK" ++ line "Session: 7F;timeout=60" ++ crlf, line "RTSP/1.0 200 OK" ++ crlf]

def challengeReply : Bytes :=
  line "RTSP/1.0 401 Unauthorized" ++
    line "WWW-Authenticate: Digest realm=\"LIVE\", nonce=\"6b1\", qop=\"auth\"" ++ crlf

/-- The replies of a camera that challenges DESCRIBE. -/
def cameraReplies : List Bytes := openReplies.take 1 ++ challengeReply :: openReplies.drop 1

/-- Surroundings with a camera of these replies, where nothing fails. -/
def camera (replies : List Bytes) (past : List (Exchange RtspAnswer)) : (call : RtspCall) → RtspAnswer call
  | .dialTls .. => (true : Bool)
  | .dial .. => (true : Bool)
  | .randomDevice => (0 : UInt64)
  | .write _ => (true : Bool)
  | .await rtpPt pending d =>
      let reply := replies.getD (past.countP fun x => x.1.isAwait) []
      ⟨awaitResponse rtpPt .silent (pending ++ reply) d, .silent, reply, rfl⟩
  | .shutdownBoth => ()
  | .close => ()

def cameraUrl : Url where
  host := ascii "192.168.1.7"
  port := 322
  user := ascii "bblp"
  passwd := ascii "12345678"
  path := ascii "/streaming/live/1"
  device := ascii "01P00A000000000"
  tls := true

/-- MD5 of the texts that this client hashes. -/
def cameraHashes : List (Bytes × Bytes) :=
  [(ascii "bblp:LIVE:12345678", ascii "23a9e6e48cbbe6c8264263b3e34b601a"),
    (ascii "DESCRIBE:rtsps://192.168.1.7:322/streaming/live/1", ascii "d957c7e974f9efa68008af7b5ccb6d43"),
    (ascii "23a9e6e48cbbe6c8264263b3e34b601a:6b1:00000001:0000000000000000:auth:d957c7e974f9efa68008af7b5ccb6d43",
      ascii "8f77bac2b8263ef0996ce80b9ebdda92"),
    (ascii "SETUP:rtsps://192.168.1.7:322/streaming/live/1", ascii "e2deb941dd7cc1d63ab9079a68e851d0"),
    (ascii "23a9e6e48cbbe6c8264263b3e34b601a:6b1:00000002:0000000000000000:auth:e2deb941dd7cc1d63ab9079a68e851d0",
      ascii "9950eae7cd7b136efb0d45c3407dd1d0"),
    (ascii "PLAY:rtsps://192.168.1.7:322/streaming/live/1", ascii "3049496b6910c4d45c79a2a5bbdf30b9"),
    (ascii "23a9e6e48cbbe6c8264263b3e34b601a:6b1:00000003:0000000000000000:auth:3049496b6910c4d45c79a2a5bbdf30b9",
      ascii "e4d26a10572c70484a78270804c8cab8"),
    (ascii "TEARDOWN:rtsps://192.168.1.7:322/streaming/live/1", ascii "29ac438e3705a5fc7ddf86169739b1da"),
    (ascii "23a9e6e48cbbe6c8264263b3e34b601a:6b1:00000004:0000000000000000:auth:29ac438e3705a5fc7ddf86169739b1da",
      ascii "a42972f5edbcb49615c24b9c00d34ce8")]

def md5OfCamera (s : Bytes) : Bytes := (cameraHashes.lookup s).getD []

def cameraStart : List (Exchange RtspAnswer) × Except ReadEnd ClientState :=
  run (camera cameraReplies) [] (start md5OfCamera cameraUrl).run

/-- The client with the camera until `stop`. -/
def cameraLife : List (Exchange RtspAnswer) := (run (camera cameraReplies) [] (life md5OfCamera cameraUrl 0).run).1

theorem cameraLife_exchanges : Exchanges (life md5OfCamera cameraUrl 0).run cameraLife :=
  (runs_run (camera cameraReplies) [] _).exchanges

/-- At every moment what has gone over the connection is the conversation up to some turn of it, and `start`
succeeds exactly where the conversation has come to its end. -/
theorem start_converses (md5Hex : Bytes → Bytes) (url : Url) :
    (∀ t, Exchanges (start md5Hex url).run t →
      InTurn md5Hex url.credentials (baseUrl url) .start (watched onWire t)) ∧
    ∀ t r, (start md5Hex url).Runs t r →
      ∀ st, r = .ok st ↔ Concludes md5Hex url.credentials (baseUrl url) st (watched onWire t) := by
  have hmeets := start_meets md5Hex url
  refine ⟨fun t ht => ?_, fun t r ht st => ⟨?_, fun h => ?_⟩⟩
  · obtain ⟨rest, ⟨st, c, htalk, -⟩ | ⟨-, hnil | hbreaks⟩⟩ := hmeets.exchanges ht
    · exact htalk.earlier (List.prefix_append _ _)
    · rw [(List.append_eq_nil_iff.mp hnil).1]
      exact ⟨.start, [], [], rfl, .nil, .due⟩
    · exact hbreaks.earlier (List.prefix_append _ _)
  · rintro rfl
    exact hmeets.returns t st ht
  · cases r with
    | ok st' =>
        obtain ⟨c, htalk, -, rfl⟩ := hmeets.returns t st' ht
        obtain ⟨c', htalk', -, rfl⟩ := h
        rw [htalk.unique htalk']
    | error e =>
        rcases hmeets.fails t e ht with hnil | hbreaks
        · obtain ⟨c, htalk, hplaying, -⟩ := h
          rw [hnil] at htalk
          rw [htalk.of_nil] at hplaying
          cases hplaying
        · exact absurd h hbreaks.not_concludes

/-- The camera is started with five requests, the second of which is made twice. -/
theorem start_converses_camera : (requestsWritten cameraStart.1).length = 5 ∧
    InTurn md5OfCamera cameraUrl.credentials (baseUrl cameraUrl) .start (watched onWire cameraStart.1) ∧
    ∃ st, Concludes md5OfCamera cameraUrl.credentials (baseUrl cameraUrl) st (watched onWire cameraStart.1) := by
  have hruns := runs_run (camera cameraReplies) [] (start md5OfCamera cameraUrl).run
  obtain ⟨hmoments, hresults⟩ := start_converses md5OfCamera cameraUrl
  obtain ⟨hlength, hok⟩ : (requestsWritten cameraStart.1).length = 5 ∧ cameraStart.2.isOk = true := by decide +kernel
  refine ⟨hlength, hmoments _ hruns.exchanges, ?_⟩
  cases hresult : cameraStart.2 with
  | error e =>
      rw [hresult] at hok
      cases hok
  | ok st => exact ⟨st, (hresults _ _ hruns st).mp hresult⟩

end OpenBambu.Rtsp
