import OpenBambu.Source.Worker

/-!
# A tunnel that is opened again

A handle that was closed and opened again is compared with a new one for the same URL: under the same
calls, arriving bytes and turns of the workers both should answer and write the same. Over RTSP they
do. Over TLS they never do, for `closing` is set for good.
-/

namespace OpenBambu.Source

open OpenBambu.Foundation OpenBambu.Tunnel

/-- What a call answers; the other events answer nothing, as does a call that waits. -/
def World.answer (w : World) : Event → Option Answer
  | .call c =>
      if w.closer.admits c then
        match w.tunnel.call c with
        | .error _ => none
        | .ok (a, _) => some a
      else none
  | _ => none

/-- The event behind `k` other connections. -/
def Event.behind (k : Nat) : Event → Event
  | .arrive conn r => .arrive (k + conn) r
  | e => e

/-- What was written on the connections behind the first `k`. -/
def World.written (k : Nat) (w : World) : List Bytes := (w.tunnel.conns.drop k).map Conn.sent

/-- The handle answers and writes what a new one for the URL does, whatever comes behind the open. -/
def LikeNew (url : TunnelUrl) (w : World) (net : Network) (now : Nat) : Prop :=
  let k := w.tunnel.conns.length
  let reopened := w.step (.call (.open net now))
  let fresh := (World.start url).step (.call (.open net now))
  ∀ more : List Event,
    outputs World.step World.answer reopened (more.map (·.behind k)) =
        outputs World.step World.answer fresh more ∧
      (after World.step reopened (more.map (·.behind k))).written k =
        (after World.step fresh more).written 0

/-- A `Bambu_Close` comes to its end in the step. -/
def Closes (w : World) : Event → Prop
  | .close destroy => destroy = false ∧ w.closer = .idle ∧ w.tunnel.ctrlMode = false
  | .joined => w.closer = .joining false ∧ Joinable w.tunnel
  | _ => False

def Event.opens : Event → Bool
  | .call (.open _ _) => true
  | _ => false

/-- The handle was closed in the run and not opened since. -/
def Closed (s : World) (run : List Event) : Prop :=
  ∃ before e between, run = before ++ e :: between ∧ Closes (after World.step s before) e ∧
    ∀ x ∈ between, x.opens = false

/-- An open comes through. -/
def Opens (w : World) (net : Network) (now : Nat) : Prop :=
  w.closer = .idle ∧ (bambuOpen w.tunnel net now).1 = success

/-! ## Over RTSP -/

/-- Nothing of TLS and of CTRL mode is in use. -/
structure NoTls (t : Tunnel) : Prop where
  scheme : t.url.scheme ≠ .localTls
  conns : t.conns = []
  ssl : t.ssl = none
  authed : t.mjpgAuthed = false
  mode : t.ctrlMode = false
  session : t.tlSession = none
  ctrlIn : t.ctrlIn = []
  ctrlOut : t.ctrlOut = []
  stop : t.ctrlStop = false
  worker : t.ctrlWorker = none

theorem NoTls.isRtsp {t : Tunnel} (h : NoTls t) : t.url.scheme = .rtsps ∨ t.url.scheme = .rtsp := by
  cases hs : t.url.scheme with
  | localTls => exact absurd hs h.scheme
  | rtsps => exact Or.inl rfl
  | rtsp => exact Or.inr rfl

/-- Such a tunnel differs from another one in what belongs to the stream, and in `closing`. -/
theorem NoTls.eq {t t' : Tunnel} (h : NoTls t) (h' : NoTls t') (hurl : t.url = t'.url)
    (hpass : t.rtspPass = t'.rtspPass) (htype : t.subType = t'.subType) (hwidth : t.width = t'.width)
    (hheight : t.height = t'.height) (hrate : t.frameRate = t'.frameRate) (ht0 : t.t0 = t'.t0) :
    t = { t' with closing := t.closing } := by
  obtain ⟨url, conns, ssl, pass, subType, width, height, rate, t0, closing, authed, mode, session,
    ctrlIn, ctrlOut, stop, worker⟩ := t
  obtain ⟨-, rfl, rfl, rfl, rfl, rfl, rfl, rfl, rfl, rfl⟩ := h
  obtain ⟨url', conns', ssl', pass', subType', width', height', rate', t0', closing', authed', mode',
    session', ctrlIn', ctrlOut', stop', worker'⟩ := t'
  obtain ⟨-, rfl, rfl, rfl, rfl, rfl, rfl, rfl, rfl, rfl⟩ := h'
  simp only at hurl hpass htype hwidth hheight hrate ht0
  subst hurl hpass htype hwidth hheight hrate ht0
  rfl

theorem NoTls.streamed {t : Tunnel} (h : NoTls t) (pass : Option Pass) : NoTls { t with rtspPass := pass } :=
  ⟨h.scheme, h.conns, h.ssl, h.authed, h.mode, h.session, h.ctrlIn, h.ctrlOut, h.stop, h.worker⟩

theorem NoTls.open {t : Tunnel} (h : NoTls t) (net : Network) (now : Nat) :
    bambuOpen t net now = openRtsp t net now ∧ NoTls (openRtsp t net now).2 := by
  refine ⟨if_pos h.isRtsp, ?_⟩
  rw [openRtsp]
  cases net.startRtsp t.url with
  | none => exact h
  | some pass =>
      exact ⟨h.scheme, h.conns, h.ssl, h.authed, h.mode, h.session, h.ctrlIn, h.ctrlOut, h.stop,
        h.worker⟩

theorem NoTls.startStream {t : Tunnel} (h : NoTls t) :
    bambuStartStream t = (if t.rtspPass.isNone then -1 else success, t) := by
  rw [bambuStartStream]
  rcases h.isRtsp with hs | hs <;> rw [hs] <;> cases t.rtspPass <;> rfl

theorem NoTls.streamCount {t : Tunnel} (h : NoTls t) :
    bambuGetStreamCount t = if t.rtspPass.isNone then 0 else 1 := by
  rw [bambuGetStreamCount]
  rcases h.isRtsp with hs | hs <;> rw [hs]

theorem NoTls.startStreamEx {t : Tunnel} (h : NoTls t) (type : Int) (seed : UInt32) :
    bambuStartStreamEx t type seed =
      .ok (if type = kCtrlType then -1 else if t.rtspPass.isNone then -1 else success, t) := by
  rw [bambuStartStreamEx]
  split_ifs with htype
  · rw [startNativeCtrlHandshake, h.ssl]
  · rw [h.startStream]
    rename_i hpass
    rw [if_pos hpass]
  · rw [h.startStream]
    rename_i hpass
    rw [if_neg hpass]

theorem NoTls.sendMessage {t : Tunnel} (h : NoTls t) (ctrl : Int) (data : Bytes) :
    bambuSendMessage t ctrl data =
      (if data = [] then -1 else if ctrl ≠ kCtrlType then success else -1, t) := by
  rw [bambuSendMessage, h.mode]
  split_ifs <;> first | rfl | contradiction

theorem NoTls.readSample {t : Tunnel} (h : NoTls t) (now : Nat) :
    bambuReadSample t now = .ok (readRtsp t) := by
  rw [bambuReadSample, h.mode, if_neg Bool.false_ne_true, if_pos h.isRtsp]

theorem NoTls.closing {t : Tunnel} (h : NoTls t) (b : Bool) : NoTls { t with closing := b } :=
  ⟨h.scheme, h.conns, h.ssl, h.authed, h.mode, h.session, h.ctrlIn, h.ctrlOut, h.stop, h.worker⟩

theorem readRtsp_closing (t : Tunnel) (b : Bool) :
    readRtsp { t with closing := b } = ((readRtsp t).1, { (readRtsp t).2 with closing := b }) := by
  rw [readRtsp, readRtsp]
  obtain ⟨url, conns, ssl, pass, subType, width, height, rate, t0, closing, authed, mode, session,
    ctrlIn, ctrlOut, stop, worker⟩ := t
  cases pass with
  | none => rfl
  | some pass =>
      dsimp only
      cases (Rtsp.tryPull pass.state.ready).2 <;> rfl

/-- On such a tunnel every call returns, and `closing` does not matter to it. -/
theorem NoTls.call {t : Tunnel} (h : NoTls t) (c : Call) :
    ∃ a t', NoTls t' ∧ ∀ b, Tunnel.call { t with closing := b } c = .ok (a, { t' with closing := b }) := by
  cases c with
  | «open» net now =>
      refine ⟨.code (openRtsp t net now).1, (openRtsp t net now).2, (h.open net now).2, ?_⟩
      intro b
      rw [Tunnel.call, ((h.closing b).open net now).1, openRtsp, openRtsp]
      cases net.startRtsp t.url <;> rfl
  | startStream =>
      refine ⟨.code (if t.rtspPass.isNone then -1 else success), t, h, ?_⟩
      intro b
      rw [Tunnel.call, (h.closing b).startStream]
  | startStreamEx type seed =>
      refine ⟨.code (if type = kCtrlType then -1 else if t.rtspPass.isNone then -1 else success), t, h, ?_⟩
      intro b
      rw [Tunnel.call, (h.closing b).startStreamEx]
      rfl
  | getStreamCount =>
      refine ⟨.code (if t.rtspPass.isNone then 0 else 1), t, h, ?_⟩
      intro b
      rw [Tunnel.call, (h.closing b).streamCount]
  | getStreamInfo index => exact ⟨.info (bambuGetStreamInfo t index), t, h, fun b => rfl⟩
  | readSample now =>
      refine ⟨(readRtsp t).1, (readRtsp t).2, ?_, ?_⟩
      · rw [readRtsp]
        split
        · exact h
        · dsimp only
          split <;> exact h.streamed _
      · intro b
        rw [Tunnel.call, (h.closing b).readSample]
        exact congrArg Except.ok (readRtsp_closing t b)
  | sendMessage ctrl data =>
      refine ⟨.code (if data = [] then -1 else if ctrl ≠ kCtrlType then success else -1), t, h, ?_⟩
      intro b
      rw [Tunnel.call, (h.closing b).sendMessage]

theorem NoTls.call_keeps {t t' : Tunnel} (h : NoTls t) {c : Call} {a : Answer}
    (hok : t.call c = .ok (a, t')) : NoTls t' := by
  obtain ⟨a', t'', hkeep, hcall⟩ := h.call c
  have hsame := (hcall t.closing).symm.trans hok
  obtain ⟨-, rfl⟩ := Prod.mk.inj (Except.ok.inj hsame)
  exact hkeep.closing _

theorem NoTls.close {t : Tunnel} (h : NoTls t) :
    bambuClose t = { t with closing := true, rtspPass := none } ∧ NoTls (bambuClose t) := by
  have heq : bambuClose t = { t with closing := true, rtspPass := none } := by
    obtain ⟨url, conns, ssl, pass, subType, width, height, rate, t0, closing, authed, mode, session,
      ctrlIn, ctrlOut, stop, worker⟩ := t
    obtain ⟨-, rfl, rfl, rfl, rfl, rfl, rfl, rfl, rfl, rfl⟩ := h
    rfl
  refine ⟨heq, ?_⟩
  rw [heq]
  exact (h.streamed none).closing true

theorem NoTls.arrive {t : Tunnel} (h : NoTls t) (conn : Nat) (r : SslRead) : t.arrive conn r = t := by
  rw [Tunnel.arrive, h.conns, List.modify_nil, ← h.conns]

theorem NoTls.step {w : World} (h : NoTls w.tunnel) (e : Event) : NoTls (w.step e).tunnel := by
  cases e with
  | call c =>
      rw [World.step]
      split_ifs
      · split
        · exact h
        · rename_i a t hok
          exact h.call_keeps hok
      · exact h
  | close destroy =>
      rw [World.step, h.mode]
      split_ifs
      · contradiction
      · exact h.close.2
      · exact h
  | joined =>
      rw [World.step]
      split
      · split_ifs
        · exact h.close.2
        · exact h
      · exact h
  | turn =>
      rw [World.step, h.worker]
      exact h
  | arrive conn r =>
      rw [World.step]
      show NoTls (w.tunnel.arrive conn r)
      rw [h.arrive]
      exact h
  | produce ns => exact h.streamed _

/-- Two handles that differ in `closing` alone. -/
structure Alike (w₁ w₂ : World) : Prop where
  noTls : NoTls w₂.tunnel
  tunnel : ∃ b, w₁.tunnel = { w₂.tunnel with closing := b }
  closer : w₁.closer = w₂.closer

/-- They answer the same and stay alike. -/
theorem Alike.step {w₁ w₂ : World} (h : Alike w₁ w₂) (e : Event) :
    w₁.answer e = w₂.answer e ∧ Alike (w₁.step e) (w₂.step e) := by
  obtain ⟨hno, ⟨b, ht⟩, hcloser⟩ := h
  have hno₁ : NoTls w₁.tunnel := ht ▸ hno.closing b
  have hnext := hno.step e
  cases e with
  | call c =>
      obtain ⟨a, t', hkeep, hcall⟩ := hno.call c
      have h₁ : w₁.tunnel.call c = .ok (a, { t' with closing := b }) := by rw [ht, hcall]
      have h₂ : w₂.tunnel.call c = .ok (a, { t' with closing := w₂.tunnel.closing }) :=
        hcall w₂.tunnel.closing
      refine ⟨?_, hnext, ?_, ?_⟩
      · rw [World.answer, World.answer, hcloser, h₁, h₂]
      · rw [World.step, World.step, hcloser, h₁, h₂]
        split_ifs
        · exact ⟨b, rfl⟩
        · exact ⟨b, ht⟩
      · rw [World.step, World.step, hcloser, h₁, h₂]
        split_ifs
        · rfl
        · exact hcloser
  | close destroy =>
      have hclose : bambuClose w₁.tunnel = bambuClose w₂.tunnel := by
        rw [hno₁.close.1, hno.close.1, ht]
      by_cases hidle : w₂.closer = .idle
      · have h₁ : w₁.step (.close destroy) = w₁.closed destroy := by
          rw [World.step, hcloser, if_pos hidle, hno₁.mode, if_neg Bool.false_ne_true]
        have h₂ : w₂.step (.close destroy) = w₂.closed destroy := by
          rw [World.step, if_pos hidle, hno.mode, if_neg Bool.false_ne_true]
        rw [h₁]
        rw [h₂] at hnext ⊢
        exact ⟨rfl, hnext, ⟨_, hclose⟩, rfl⟩
      · have h₁ : w₁.step (.close destroy) = w₁ := by rw [World.step, hcloser, if_neg hidle]
        have h₂ : w₂.step (.close destroy) = w₂ := by rw [World.step, if_neg hidle]
        rw [h₁, h₂]
        exact ⟨rfl, hno, ⟨b, ht⟩, hcloser⟩
  | joined =>
      have hclose : bambuClose w₁.tunnel = bambuClose w₂.tunnel := by
        rw [hno₁.close.1, hno.close.1, ht]
      have hj₁ : Joinable w₁.tunnel := Or.inl hno₁.worker
      have hj₂ : Joinable w₂.tunnel := Or.inl hno.worker
      refine ⟨rfl, hnext, ?_, ?_⟩
      · rw [World.step, World.step, hcloser]
        split
        · rw [if_pos hj₁, if_pos hj₂]
          exact ⟨_, hclose⟩
        · exact ⟨b, ht⟩
      · rw [World.step, World.step, hcloser]
        split
        · rw [if_pos hj₁, if_pos hj₂]
          rfl
        · exact hcloser
  | turn =>
      refine ⟨rfl, hnext, ?_, ?_⟩
      · rw [World.step, World.step, hno₁.worker, hno.worker]
        exact ⟨b, ht⟩
      · rw [World.step, World.step, hno₁.worker, hno.worker]
        exact hcloser
  | arrive conn r =>
      refine ⟨rfl, hnext, ⟨b, ?_⟩, hcloser⟩
      show w₁.tunnel.arrive conn r = { w₂.tunnel.arrive conn r with closing := b }
      rw [hno₁.arrive, hno.arrive, ht]
  | produce ns =>
      refine ⟨rfl, hnext, ⟨b, ?_⟩, hcloser⟩
      show w₁.tunnel.produce ns = { w₂.tunnel.produce ns with closing := b }
      rw [ht]
      rfl

theorem World.step_url (w : World) (e : Event) : (w.step e).tunnel.url = w.tunnel.url := by
  have hclosed : ∀ destroy, (w.closed destroy).tunnel.url = w.tunnel.url := by
    intro destroy
    show (stopped w.tunnel).url = w.tunnel.url
    rw [stopped]
    split_ifs <;> rfl
  cases e with
  | call c =>
      rw [World.step]
      split_ifs
      · split
        · rfl
        · rename_i a t hok
          exact (Tunnel.call_kept hok).url
      · rfl
  | close destroy =>
      rw [World.step]
      split_ifs
      · rfl
      · exact hclosed destroy
      · rfl
  | joined =>
      rw [World.step]
      split
      · split_ifs
        · exact hclosed _
        · rfl
      · rfl
  | turn =>
      rw [World.step]
      split
      · rfl
      · rename_i pc hpc
        exact (workerTurn_spec hpc).1.url
  | arrive conn r => rfl
  | produce ns => rfl

theorem after_url (url : TunnelUrl) (run : List Event) :
    (after World.step (World.start url) run).tunnel.url = url := by
  have hstep : ∀ (w : World) e, w.tunnel.url = url → (w.step e).tunnel.url = url :=
    fun w e hw => (w.step_url e).trans hw
  exact after_of_inv hstep rfl run

theorem Event.behind_zero (e : Event) : e.behind 0 = e := by
  cases e with
  | arrive conn r => exact congrArg (Event.arrive · r) (Nat.zero_add conn)
  | call c => rfl
  | close destroy => rfl
  | joined => rfl
  | turn => rfl
  | produce ns => rfl

/-- An open that is admitted. -/
theorem World.step_open {w : World} (hidle : w.closer = .idle) (net : Network) (now : Nat) :
    (w.step (.call (.open net now))).tunnel = (bambuOpen w.tunnel net now).2 ∧
      (w.step (.call (.open net now))).closer = .idle := by
  rw [World.step, hidle]
  exact ⟨rfl, rfl⟩

theorem noTls_after {url : TunnelUrl} (hurl : url.scheme ≠ .localTls) (run : List Event) :
    NoTls (after World.step (World.start url) run).tunnel := by
  have hstep : ∀ (w : World) e, NoTls w.tunnel → NoTls (w.step e).tunnel := fun w e hw => hw.step e
  exact after_of_inv hstep ⟨hurl, rfl, rfl, rfl, rfl, rfl, rfl, rfl, rfl, rfl⟩ run

/-- Over RTSP a handle that was opened is like a new one, closed before or not. -/
theorem likeNew_rtsp {url : TunnelUrl} (hurl : url.scheme ≠ .localTls) {w : World} (hno : NoTls w.tunnel)
    (hsame : w.tunnel.url = url) {net : Network} {now : Nat} (ho : Opens w net now) :
    LikeNew url w net now := by
  have hstart : NoTls (World.start url).tunnel := noTls_after hurl []
  obtain ⟨hidle, hopen⟩ := ho
  obtain ⟨ht₁, hc₁⟩ := World.step_open hidle net now
  obtain ⟨ht₂, hc₂⟩ := World.step_open (w := World.start url) rfl net now
  have halike : Alike (w.step (.call (.open net now)))
      ((World.start url).step (.call (.open net now))) := by
    refine ⟨hstart.step _, ⟨(w.step (.call (.open net now))).tunnel.closing, ?_⟩, hc₁.trans hc₂.symm⟩
    rw [(hno.open net now).1, openRtsp, hsame] at hopen
    cases hpass : net.startRtsp url with
    | none =>
        rw [hpass] at hopen
        cases hopen
    | some pass =>
        have hstream : ∀ {t : Tunnel}, NoTls t → t.url = url →
            (bambuOpen t net now).2 =
              { t with
                rtspPass := some pass
                subType := .avc1
                width := 1280
                height := 720
                frameRate := 30
                t0 := now } := by
          intro t ht hturl
          rw [(ht.open net now).1, openRtsp, hturl, hpass]
        have h₁ := (ht₁.trans (hstream hno hsame))
        have h₂ := (ht₂.trans (hstream hstart rfl))
        refine (hno.step _).eq (hstart.step _) ?_ ?_ ?_ ?_ ?_ ?_ ?_
        · rw [h₁, h₂]
          exact hsame
        all_goals rw [h₁, h₂]
  intro more
  have hk : w.tunnel.conns.length = 0 := congrArg List.length hno.conns
  have hevents : more.map (·.behind 0) = more :=
    (List.map_congr_left fun e _ => e.behind_zero).trans more.map_id
  have hbisim : ∀ (w₁ w₂ : World) e, Alike w₁ w₂ →
      w₁.answer e = w₂.answer e ∧ Alike (w₁.step e) (w₂.step e) := fun _ _ e h => h.step e
  obtain ⟨hout, hend⟩ := outputs_eq_of_bisim hbisim halike more
  rw [hk, hevents]
  refine ⟨hout, ?_⟩
  obtain ⟨b, ht⟩ := hend.tunnel
  rw [World.written, World.written, ht]

/-! ## Over TLS -/

/-- A closed tunnel that was not opened since. -/
structure Down (t : Tunnel) : Prop where
  closing : t.closing = true
  mode : t.ctrlMode = false
  ssl : t.ssl = none
  pass : t.rtspPass = none
  worker : t.ctrlWorker = none

theorem down_close {t : Tunnel} (hworker : t.ctrlMode = false → t.ctrlWorker = none) :
    Down (bambuClose t) := by
  refine ⟨rfl, ?_, rfl, rfl, ?_⟩
  · show (stopped t).ctrlMode = false
    rw [stopped]
    split_ifs with hmode
    · rfl
    · exact Bool.eq_false_iff.2 hmode
  · show (stopped t).ctrlWorker = none
    rw [stopped]
    split_ifs with hmode
    · rfl
    · exact hworker (Bool.eq_false_iff.2 hmode)

theorem Down.startStream {t : Tunnel} (h : Down t) : (bambuStartStream t).2 = t := by
  rw [bambuStartStream, h.ssl, h.pass]
  split <;> rfl

/-- The calls on it do nothing. -/
theorem Down.call {t t' : Tunnel} (h : Down t) {c : Call} (hc : (Event.call c).opens = false) {a : Answer}
    (hok : t.call c = .ok (a, t')) : t' = t := by
  cases c with
  | «open» net now => cases hc
  | startStream =>
      cases hok
      exact h.startStream
  | startStreamEx type seed =>
      rw [Tunnel.call, bambuStartStreamEx] at hok
      by_cases htype : type = kCtrlType
      · rw [if_pos htype, startNativeCtrlHandshake, h.ssl] at hok
        cases hok
        rfl
      · rw [if_neg htype] at hok
        cases hok
        exact h.startStream
  | getStreamCount =>
      cases hok
      rfl
  | getStreamInfo index =>
      cases hok
      rfl
  | readSample now =>
      rw [Tunnel.call, bambuReadSample, h.mode, if_neg Bool.false_ne_true, readRtsp, h.pass, h.ssl] at hok
      split_ifs at hok <;> cases hok <;> rfl
  | sendMessage ctrl data =>
      cases hok
      rw [bambuSendMessage, h.mode]
      split_ifs <;> first | rfl | contradiction

theorem Down.step {w : World} (h : Down w.tunnel) {e : Event} (he : e.opens = false) :
    Down (w.step e).tunnel := by
  have hclose : Down (bambuClose w.tunnel) := down_close fun _ => h.worker
  cases e with
  | call c =>
      rw [World.step]
      split_ifs
      · split
        · exact h
        · rename_i a t hok
          rw [h.call he hok]
          exact h
      · exact h
  | close destroy =>
      rw [World.step, h.mode]
      split_ifs
      · contradiction
      · exact hclose
      · exact h
  | joined =>
      rw [World.step]
      split
      · split_ifs
        · exact hclose
        · exact h
      · exact h
  | turn =>
      rw [World.step, h.worker]
      exact h
  | arrive conn r => exact ⟨h.closing, h.mode, h.ssl, h.pass, h.worker⟩
  | produce ns =>
      refine ⟨h.closing, h.mode, h.ssl, ?_, h.worker⟩
      show w.tunnel.rtspPass.map _ = none
      rw [h.pass]
      rfl

theorem down_of_closes {w : World} (hb : Booked w) {e : Event} (h : Closes w e) :
    Down (w.step e).tunnel := by
  have hclose : Down (bambuClose w.tunnel) := by
    apply down_close
    intro hmode
    have hworker := hb.mode
    rw [hmode] at hworker
    exact Option.isNone_iff_eq_none.1 (Option.isSome_eq_false_iff.1 hworker.symm)
  cases e with
  | close destroy =>
      obtain ⟨-, hidle, hmode⟩ := h
      rw [World.step, if_pos hidle, hmode]
      exact hclose
  | joined =>
      obtain ⟨hjoining, hj⟩ := h
      rw [World.step, hjoining]
      dsimp only
      rw [if_pos hj]
      exact hclose
  | call c => cases h
  | turn => cases h
  | arrive conn r => cases h
  | produce ns => cases h

theorem down_of_closed {url : TunnelUrl} {run : List Event} (h : Closed (World.start url) run) :
    Down (after World.step (World.start url) run).tunnel := by
  obtain ⟨before, e, between, rfl, hcloses, hbetween⟩ := h
  have hstep : ∀ (w : World) e, Booked w → Booked (w.step e) := fun w e hw => hw.step e
  have hbooked := after_of_inv hstep (booked_start url) before
  rw [after_append, after_cons]
  have hdown := down_of_closes hbooked hcloses
  generalize (after World.step (World.start url) before).step e = w at hdown
  clear hcloses hbooked
  induction between generalizing w with
  | nil => exact hdown
  | cons x between ih =>
      refine ih ?_ (w.step x) (hdown.step (hbetween x List.mem_cons_self))
      intro y hy
      exact hbetween y (List.mem_cons_of_mem _ hy)

/-- One JPEG frame with its header. -/
def jpegChunk : Chunk where
  bytes := writeU32Le 4 ++ List.replicate 12 0 ++ [0xFF, 0xD8, 0xFF, 0xD9]
  nonempty := by decide
  fits := by decide

theorem readMjpeg_closing {t : Tunnel} (hclosing : t.closing = true) (c : Conn) (now : Nat) :
    readMjpeg t c now = .ok (.code (-1), c) := by
  rw [readMjpeg, sslReadAll, hclosing]
  rfl

theorem readMjpeg_jpeg {t : Tunnel} (hclosing : t.closing = false) (writes : List (Option Nat))
    (sent : Bytes) (now : Nat) :
    readMjpeg t ⟨[.bytes jpegChunk], writes, sent⟩ now =
      .ok (.sample ⟨0, 0, [0xFF, 0xD8, 0xFF, 0xD9], (now - t.t0) / 100⟩, ⟨[], writes, sent⟩) := by
  obtain ⟨url, conns, ssl, pass, subType, width, height, rate, t0, closing, authed, mode, session,
    ctrlIn, ctrlOut, stop, worker⟩ := t
  cases hclosing
  rfl

/-- Whether an open comes through is up to the URL and the network. -/
theorem bambuOpen_code {t t' : Tunnel} (hurl : t.url = t'.url) (net : Network) (now : Nat) :
    (bambuOpen t net now).1 = (bambuOpen t' net now).1 := by
  rw [bambuOpen, bambuOpen, openRtsp, openRtsp, hurl]
  by_cases hrtsp : t'.url.scheme = .rtsps ∨ t'.url.scheme = .rtsp
  · rw [if_pos hrtsp, if_pos hrtsp]
    cases net.startRtsp t'.url <;> rfl
  · rw [if_neg hrtsp, if_neg hrtsp]
    dsimp only
    generalize net.dialTls t'.url.host t'.url.port _ = dialled
    cases dialled <;> rfl

theorem bambuOpen_tls {t : Tunnel} (hurl : t.url.scheme = .localTls) {net : Network} {now : Nat}
    (hopen : (bambuOpen t net now).1 = success) :
    ∃ writes, (bambuOpen t net now).2 =
      { t with
        conns := t.conns ++ [⟨[], writes, []⟩]
        ssl := some t.conns.length
        t0 := now } := by
  rw [bambuOpen, hurl, if_neg (by decide)] at hopen ⊢
  dsimp only at hopen ⊢
  generalize net.dialTls t.url.host t.url.port _ = dialled at hopen ⊢
  cases dialled with
  | none => cases hopen
  | some writes => exact ⟨writes, rfl⟩

theorem World.answer_read {w : World} (hidle : w.closer = .idle) (hmode : w.tunnel.ctrlMode = false)
    (hurl : w.tunnel.url.scheme = .localTls) {conn : Nat} (hssl : w.tunnel.ssl = some conn) {c : Conn}
    (hc : w.tunnel.conns[conn]? = some c) (now : Nat) :
    w.answer (.call (.readSample now)) = (readMjpeg w.tunnel c now).toOption.map Prod.fst := by
  have hrtsp : ¬(w.tunnel.url.scheme = .rtsps ∨ w.tunnel.url.scheme = .rtsp) := by
    rw [hurl]
    decide
  have hadmits : w.closer.admits (.readSample now) = true := by
    rw [hidle]
    rfl
  rw [World.answer, if_pos hadmits, Tunnel.call, bambuReadSample, hmode, if_neg Bool.false_ne_true,
    if_neg hrtsp]
  simp only [hssl, hc]
  cases readMjpeg w.tunnel c now <;> rfl

/-- What a read answers behind an open and one arrived chunk. -/
theorem World.read_opened {w : World} (hidle : w.closer = .idle) (hmode : w.tunnel.ctrlMode = false)
    (hurl : w.tunnel.url.scheme = .localTls) {net : Network} {now : Nat}
    (hopen : (bambuOpen w.tunnel net now).1 = success) (c : Chunk) :
    ∃ t writes, t.closing = w.tunnel.closing ∧
      outputs World.step World.answer (w.step (.call (.open net now)))
          [.arrive w.tunnel.conns.length (.bytes c), .call (.readSample 0)] =
        [none, (readMjpeg t ⟨[.bytes c], writes, []⟩ 0).toOption.map Prod.fst] := by
  obtain ⟨writes, ht⟩ := bambuOpen_tls hurl hopen
  obtain ⟨hopened, hadmits⟩ := World.step_open hidle net now
  have harrived : ((w.step (.call (.open net now))).step
      (.arrive w.tunnel.conns.length (.bytes c))).tunnel =
        (bambuOpen w.tunnel net now).2.arrive w.tunnel.conns.length (.bytes c) :=
    congrArg (Tunnel.arrive · _ _) hopened
  have hidle' : ((w.step (.call (.open net now))).step
      (.arrive w.tunnel.conns.length (.bytes c))).closer = .idle := hadmits
  rw [ht] at harrived
  have hconn : ((w.step (.call (.open net now))).step
      (.arrive w.tunnel.conns.length (.bytes c))).tunnel.conns[w.tunnel.conns.length]? =
        some ⟨[.bytes c], writes, []⟩ := by
    rw [harrived, Tunnel.arrive]
    dsimp only
    rw [List.getElem?_modify_eq, List.getElem?_concat_length]
    rfl
  refine ⟨_, writes, ?_, congrArg (fun o => [none, o]) (World.answer_read hidle' ?_ ?_ ?_ hconn 0)⟩
  all_goals rw [harrived]
  · rfl
  · exact hmode
  · exact hurl
  · rfl

/-- Over TLS a read on a new handle gives a sample where the reopened one fails. -/
theorem not_likeNew_tls {url : TunnelUrl} (hurl : url.scheme = .localTls) {w : World} (hd : Down w.tunnel)
    (hsame : w.tunnel.url = url) {net : Network} {now : Nat} (ho : Opens w net now) :
    ¬LikeNew url w net now := by
  obtain ⟨hidle, hopen⟩ := ho
  have hfresh : (bambuOpen (World.start url).tunnel net now).1 = success := by
    rw [← bambuOpen_code hsame]
    exact hopen
  obtain ⟨t₁, writes₁, hclosing₁, hout₁⟩ := World.read_opened hidle hd.mode (hsame ▸ hurl) hopen jpegChunk
  obtain ⟨t₂, writes₂, hclosing₂, hout₂⟩ :=
    World.read_opened (w := World.start url) rfl rfl hurl hfresh jpegChunk
  intro hlike
  have hanswers := (hlike [.arrive 0 (.bytes jpegChunk), .call (.readSample 0)]).1
  rw [readMjpeg_closing (hclosing₁.trans hd.closing)] at hout₁
  rw [readMjpeg_jpeg hclosing₂] at hout₂
  cases hout₁.symm.trans (hanswers.trans hout₂)

/-- A handle that is opened after it was closed is like a new one exactly where its URL is not one of
the TLS tunnel. -/
theorem reopen_iff {url : TunnelUrl} {run : List Event} (hc : Closed (World.start url) run)
    {net : Network} {now : Nat} (ho : Opens (after World.step (World.start url) run) net now) :
    LikeNew url (after World.step (World.start url) run) net now ↔ url.scheme ≠ .localTls := by
  constructor
  · intro hlike hurl
    exact not_likeNew_tls hurl (down_of_closed hc) (after_url url run) ho hlike
  · intro hurl
    exact likeNew_rtsp hurl (noTls_after hurl run) (after_url url run) ho

/-- A camera that can be reached either way. -/
def anyCamera : Network where
  dialTls := fun _ _ _ => some []
  startRtsp := fun _ => some ⟨⟨[], [], 90000, 96⟩, .eos, .start []⟩

/-- Opened and closed again. -/
def openClose : List Event := [.call (.open anyCamera 0), .close false]

theorem openClose_closed (scheme : Scheme) : Closed (World.start { scheme := scheme }) openClose := by
  refine ⟨[.call (.open anyCamera 0)], .close false, [], rfl, ⟨rfl, ?_, ?_⟩, nofun⟩
  all_goals cases scheme <;> rfl

theorem openClose_opens (scheme : Scheme) :
    Opens (after World.step (World.start { scheme := scheme }) openClose) anyCamera 0 := by
  constructor
  all_goals cases scheme <;> rfl

theorem reopen_iff_rtsps :
    LikeNew { scheme := .rtsps } (after World.step (World.start { scheme := .rtsps }) openClose)
      anyCamera 0 :=
  (reopen_iff (openClose_closed .rtsps) (openClose_opens .rtsps)).2 nofun

theorem reopen_fails :
    ¬ ∀ (url : TunnelUrl) (run : List Event) (net : Network) (now : Nat),
      Closed (World.start url) run → Opens (after World.step (World.start url) run) net now →
        LikeNew url (after World.step (World.start url) run) net now := by
  intro h
  have hlike := h { scheme := .localTls } openClose anyCamera 0 (openClose_closed _) (openClose_opens _)
  exact not_likeNew_tls rfl (down_of_closed (openClose_closed _)) (after_url _ _) (openClose_opens _) hlike

end OpenBambu.Source
