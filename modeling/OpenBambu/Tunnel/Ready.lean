import OpenBambu.Tunnel.Handshake

/-!
# What a session has seen when it is ready

Over whole runs of `handshake_step`: which frames must have come in, and when, before the
phase is `Ready`. The invariant follows the phases and remembers the session in which the
setup went out.
-/

namespace OpenBambu.Tunnel

open OpenBambu.Foundation OpenBambu.Json

/-- `s₁` is the session of a run just after the setup went out, which was after the reads `r₁`. -/
structure SetupSentAfter (cfg : Config) (s₀ : Session) (r₁ : List Read) (s₁ : Session) : Prop where
  reached : ∃ m, handshakeRun cfg s₀ m = .ok s₁
  phase : s₁.phase = .setupSent
  setup : ∃ before seq clientId, s₁.sent = before ++
    (buildFrameHeader (UInt32.ofNat (buildSetupJson clientId cfg.clientVer).length) kMagicCtrlClient seq ++
      buildSetupJson clientId cfg.clientVer)
  reads : s₀.reads = r₁ ++ s₁.reads
  login : ∃ f rest, takeFrame (received r₁).flatten = some (f, rest) ∧ f.magic = kMagicLoginServer
  behind : s₁.recvBuf = (exactCodec.drain (received r₁).flatten).2

/-- What comes in after the setup went out lies behind the frames of the login. -/
theorem SetupSentAfter.frames_mem {cfg : Config} {s₀ s₁ : Session} {r₁ : List Read}
    (h : SetupSentAfter cfg s₀ r₁ s₁) {r₂ : List Read} {f : Frame}
    (hf : f ∈ framesAfter s₁.recvBuf r₂) : f ∈ framesAfter [] (r₁ ++ r₂) := by
  rw [framesAfter, List.nil_append, flatten_received_append, Framing.drain_append, ← h.behind]
  exact List.mem_append_right _ hf

/-- What is known of a session that a run from `s₀` has come to by the reads `r`. -/
inductive Progress (cfg : Config) (s₀ : Session) (r : List Read) (s : Session) : Prop
  | notStarted (phase : s.phase = .notStarted) (reads : r = []) (buf : s.recvBuf = [])
  | loginSent (phase : s.phase = .loginSent) (buf : s.recvBuf = (received r).flatten)
  | setupSent {s₁ : Session} {r₁ : List Read} (phase : s.phase = .setupSent)
      (sent : SetupSentAfter cfg s₀ r₁ s₁) (left : LeftOver (received r).flatten s.recvBuf)
      (await : awaitAck s₁.recvBuf s₁.reads = awaitAck s.recvBuf s.reads)
  | ready {s₁ : Session} {r₁ : List Read} (phase : s.phase = .ready)
      (sent : SetupSentAfter cfg s₀ r₁ s₁)
      (await : awaitAck s₁.recvBuf s₁.reads = some (s.recvBuf, s.reads))
  | failed (phase : s.phase = .failed)

/-- One call keeps what is known, as long as no header it reads wraps. -/
theorem Progress.step {cfg : Config} {s₀ s s' : Session} {r r' : List Read} {n : Nat}
    {code : StepCode} (h : Progress cfg s₀ r s) (hreads : s₀.reads = r ++ s.reads)
    (hrun : handshakeRun cfg s₀ n = .ok s) (hstep : handshakeStep cfg s = .ok (code, s'))
    (hreads' : s.reads = r' ++ s'.reads) (hw : NoWrappedHeader (received (r ++ r')).flatten) :
    Progress cfg s₀ (r ++ r') s' := by
  have hrun' : handshakeRun cfg s₀ (n + 1) = .ok s' := by
    rw [handshakeRun, hrun]
    simp only [hstep, Except.map]
  cases h with
  | notStarted hphase hr hbuf =>
      obtain ⟨hbuf', hsame, _, _⟩ := sendFrame_frame s kMagicLoginClient
        (buildLoginPayload cfg.username cfg.accessCode)
      unfold handshakeStep at hstep
      simp only [hphase] at hstep
      split at hstep
      · obtain ⟨_, rfl⟩ := Prod.mk.inj (Except.ok.inj hstep)
        exact .failed rfl
      · rename_i hsend
        rw [hsend] at hbuf' hsame
        obtain ⟨_, rfl⟩ := Prod.mk.inj (Except.ok.inj hstep)
        have hnil : r' = [] := List.append_cancel_right (hreads'.symm.trans hsame.symm)
        refine .loginSent rfl ?_
        rw [hr, hnil]
        exact hbuf'.trans hbuf
  | loginSent hphase hbuf =>
      obtain ⟨r₀, buf, hone, hbuf', hcases⟩ := loginStep_cases hphase hstep
      obtain rfl : r' = [r₀] := List.append_cancel_right (hreads'.symm.trans hone)
      rw [hbuf, ← flatten_received_append] at hbuf'
      rcases hcases with hfail | ⟨hphase', hb⟩ | ⟨bodies, rest, _, _, _, hack, ht, hphase', hb, hsent⟩
      · exact .failed hfail
      · exact .loginSent hphase' (hb.trans hbuf')
      · rw [hbuf'] at hack ht
        have hrest := congrArg Prod.snd (Except.ok.inj (ht.symm.trans (takeBodies_exact hw)))
        simp only at hrest
        refine .setupSent hphase' ⟨⟨n + 1, hrun'⟩, hphase', ⟨_, _, _, hsent⟩, ?_,
          (haveLoginAck_iff hw).mp hack, ?_⟩ ?_ rfl
        · rw [hreads, hreads', List.append_assoc]
        · exact hb.trans hrest
        · rw [hb, hrest]
          exact (LeftOver.refl _).rest
  | setupSent hphase hsent hleft hawait =>
      unfold handshakeStep at hstep
      simp only [hphase] at hstep
      obtain ⟨r₀, hr₀, hspec⟩ := setupLoop_spec hphase hstep
      obtain rfl : r' = r₀ := List.append_cancel_right (hreads'.symm.trans hr₀)
      rw [flatten_received_append] at hw
      obtain ⟨hleft', hawaited⟩ := hspec _ hleft hw
      rw [← flatten_received_append] at hleft'
      unfold Awaited at hawaited
      split at hawaited
      · rename_i hp
        exact .ready hp hsent (hawait.trans hawaited)
      · rename_i hp
        exact .setupSent hp hsent hleft' (hawait.trans hawaited)
      · rename_i hp
        exact .failed hp
      · exact hawaited.elim
  | ready hphase hsent hawait =>
      unfold handshakeStep at hstep
      simp only [hphase] at hstep
      obtain ⟨_, rfl⟩ := Prod.mk.inj (Except.ok.inj hstep)
      exact .ready hphase hsent hawait
  | failed hphase =>
      unfold handshakeStep at hstep
      simp only [hphase] at hstep
      obtain ⟨_, rfl⟩ := Prod.mk.inj (Except.ok.inj hstep)
      exact .failed hphase

theorem handshakeRun_progress {cfg : Config} {s₀ s : Session} {n : Nat}
    (hphase : s₀.phase = .notStarted) (hbuf : s₀.recvBuf = [])
    (hrun : handshakeRun cfg s₀ n = .ok s) :
    ∃ r, s₀.reads = r ++ s.reads ∧
      (NoWrappedHeader (received r).flatten → Progress cfg s₀ r s) := by
  induction n generalizing s with
  | zero =>
      obtain rfl := Except.ok.inj hrun
      exact ⟨[], rfl, fun _ => .notStarted hphase rfl hbuf⟩
  | succ n ih =>
      rw [handshakeRun] at hrun
      cases hn : handshakeRun cfg s₀ n with
      | error e => rw [hn] at hrun; exact absurd hrun (by simp)
      | ok sn =>
          rw [hn] at hrun
          simp only at hrun
          cases hstep : handshakeStep cfg sn with
          | error e => rw [hstep] at hrun; exact absurd hrun (by simp [Except.map])
          | ok p =>
              obtain ⟨code, s'⟩ := p
              rw [hstep] at hrun
              obtain rfl := Except.ok.inj hrun
              obtain ⟨r, hreads, hprogress⟩ := ih hn
              obtain ⟨r', hreads'⟩ := handshakeStep_reads hstep
              refine ⟨r ++ r', by rw [hreads, hreads', List.append_assoc], fun hw => ?_⟩
              have hleft : NoWrappedHeader (received r).flatten := by
                rw [flatten_received_append] at hw
                exact hw.left
              exact (hprogress hleft).step hreads hn hstep hreads' hw

/-- A run comes to `Ready` only on a login ack and then, behind the setup, a successful
reply, provided that no header it reads wraps and no reply to the setup is misread. -/
theorem handshake_ready_sound {cfg : Config} {s₀ s : Session} {n : Nat} {r : List Read}
    (hphase : s₀.phase = .notStarted) (hbuf : s₀.recvBuf = [])
    (hrun : handshakeRun cfg s₀ n = .ok s) (hready : s.phase = .ready)
    (hr : s₀.reads = r ++ s.reads) (hw : NoWrappedHeader (received r).flatten)
    (hread : ∀ r₁ s₁ r₂, SetupSentAfter cfg s₀ r₁ s₁ → s₁.reads = r₂ ++ s.reads →
      ∀ f ∈ framesAfter s₁.recvBuf r₂, ¬ Misread f.payload) :
    ∃ r₁ s₁ r₂, SetupSentAfter cfg s₀ r₁ s₁ ∧ s₁.reads = r₂ ++ s.reads ∧
      ∃ f ∈ framesAfter s₁.recvBuf r₂, Successful f.payload := by
  obtain ⟨r', hr', hprogress⟩ := handshakeRun_progress hphase hbuf hrun
  obtain rfl : r = r' := List.append_cancel_right (hr.symm.trans hr')
  cases hprogress hw with
  | @ready s₁ r₁ _ hsent hawait =>
      obtain ⟨r₂, hr₂, f, hf, hack⟩ := awaitAck_sound hawait
      rcases (isSetupAck_iff f.payload).mp hack with hs | hm
      · exact ⟨r₁, s₁, r₂, hsent, hr₂, f, hf, hs⟩
      · exact absurd hm (hread r₁ s₁ r₂ hsent hr₂ f hf)
  | notStarted hp => exact absurd (hp.symm.trans hready) (by decide)
  | loginSent hp => exact absurd (hp.symm.trans hready) (by decide)
  | setupSent hp => exact absurd (hp.symm.trans hready) (by decide)
  | failed hp => exact absurd (hp.symm.trans hready) (by decide)

def loginAck : Frame where
  magic := kMagicLoginServer
  seq := 0
  payload := []
  fits := by decide

/-- A session before its handshake. -/
def fresh (reads : List Read) : Session where
  seq := 0
  phase := .notStarted
  recvBuf := []
  reads := reads
  writes := []
  sent := []

def demoConfig : Config where
  username := ascii "bblp"
  accessCode := ascii "12345678"
  clientId := []
  clientVer := ascii "2.1"

/-- `{"mtype":12291,"result":0}` -/
def setupReply : Frame where
  magic := kMagicCtrlServer
  seq := 1
  payload := ascii "\x7b\"mtype\":12291,\"result\":0\x7d"
  fits := by decide

/-- `{"mtype":12291}` -/
def resultlessReply : Frame where
  magic := kMagicCtrlServer
  seq := 1
  payload := ascii "\x7b\"mtype\":12291\x7d"
  fits := by decide

theorem loginAck_short : loginAck.encode.length ≤ 65536 := by decide

theorem setupReply_short : setupReply.encode.length ≤ 65536 := by decide

/-- The login ack in one read and the reply in another. -/
def answeredBy (reply : Frame) (h : reply.encode.length ≤ 65536) : List Read :=
  [.bytes ⟨loginAck.encode, exactCodec.encode_ne_nil _, loginAck_short⟩,
    .bytes ⟨reply.encode, exactCodec.encode_ne_nil _, h⟩]

theorem setupReply_parses :
    parse setupReply.payload =
      .ok (.object (integerMembers [(ascii "mtype", 12291), (ascii "result", 0)])) :=
  parse_integers (o := [(ascii "mtype", 12291), (ascii "result", 0)]) (by decide) (by decide)

theorem resultlessReply_parses :
    parse resultlessReply.payload = .ok (.object (integerMembers [(ascii "mtype", 12291)])) :=
  parse_integers (o := [(ascii "mtype", 12291)]) (by decide) (by decide)

theorem framesAfter_answeredBy {reply : Frame} (h : reply.encode.length ≤ 65536) :
    framesAfter [] (answeredBy reply h) = [loginAck, reply] := by
  have hall := exactCodec.drain_encodeAll [loginAck, reply]
  exact congrArg Prod.fst hall

/-- A reply that counts as the ack brings the session to `Ready`. -/
theorem answeredBy_reaches (reply : Frame) (h : reply.encode.length ≤ 65536)
    (hack : isSetupAck reply.payload = true) :
    ∃ n s, handshakeRun demoConfig (fresh (answeredBy reply h)) n = .ok s ∧ s.phase = .ready ∧
      s.reads = [] := by
  have hsmall : reply.Small := by
    rw [Frame.length_encode] at h
    rw [Frame.Small]
    omega
  have hawait : awaitAck [] [.bytes ⟨reply.encode, exactCodec.encode_ne_nil _, h⟩] = some ([], []) := by
    have hd := drain_encode reply
    rw [awaitAck_bytes exactCodec.settled_nil, List.nil_append,
      awaitAck_found (by rw [hd]; simpa using hack), hd]
  have hnew : (fresh (answeredBy reply h)).phase = .notStarted ∧
      (fresh (answeredBy reply h)).recvBuf = [] := ⟨rfl, rfl⟩
  have hlogin : (received []).flatten ++ loginAck.encode = loginAck.encode := rfl
  have hstream : reply.encode ++ [] ++ [] = exactCodec.encodeAll [reply] := List.append_nil _
  obtain ⟨N, s, hrun, hready, _, hreads⟩ := handshakeRun_reaches demoConfig hnew.1 hnew.2
    (by simp [fresh]) (l := []) rfl (by simp [Open]) hlogin rfl (by decide)
    (noWrappedHeader_encodeAll hstream (by simpa using hsmall)) hawait
  exact ⟨N, s, hrun N (Nat.le_refl _), hready, hreads⟩

theorem setupReply_successful : Successful setupReply.payload :=
  ⟨_, setupReply_parses, rfl, rfl⟩

theorem not_misread_nil : ¬ Misread [] := by
  rintro ⟨_, o, d, hp, _⟩
  exact absurd (show parse [] = .error "unexpected EOF" from rfl) (by rw [hp]; simp)

theorem handshake_ready_sound_setupReply :
    ∃ (s : Session) (r₁ : List Read) (s₁ : Session) (r₂ : List Read),
      SetupSentAfter demoConfig (fresh (answeredBy setupReply (by decide))) r₁ s₁ ∧
      s₁.reads = r₂ ++ s.reads ∧ ∃ f ∈ framesAfter s₁.recvBuf r₂, Successful f.payload := by
  obtain ⟨n, s, hrun, hready, hreads⟩ := answeredBy_reaches setupReply (by decide)
    ((isSetupAck_iff _).mpr (Or.inl setupReply_successful))
  have hstream : (received (answeredBy setupReply (by decide))).flatten ++ [] =
      exactCodec.encodeAll [loginAck, setupReply] := rfl
  refine ⟨s, handshake_ready_sound (n := n) (r := answeredBy setupReply (by decide)) rfl rfl hrun
    hready (by rw [hreads, List.append_nil]; rfl)
    (noWrappedHeader_encodeAll hstream (by decide)) ?_⟩
  intro r₁ s₁ r₂ hsent hr₂ f hf
  have hall := hsent.frames_mem hf
  have hwhole : r₁ ++ r₂ = answeredBy setupReply (by decide) := by
    have := hsent.reads
    rw [hr₂, hreads, List.append_nil] at this
    exact this.symm
  rw [hwhole, framesAfter_answeredBy, List.mem_cons, List.mem_singleton] at hall
  rcases hall with rfl | rfl
  · exact not_misread_nil
  · exact fun hm => hm.1 setupReply_successful

/-- A reply without a result makes the session ready. -/
theorem handshake_ready_without_result :
    ∃ n s, handshakeRun demoConfig (fresh (answeredBy resultlessReply (by decide))) n = .ok s ∧
      s.phase = .ready ∧
      ¬ ∃ r₁ s₁ r₂, SetupSentAfter demoConfig (fresh (answeredBy resultlessReply (by decide))) r₁ s₁ ∧
        s₁.reads = r₂ ++ s.reads ∧ ∃ f ∈ framesAfter s₁.recvBuf r₂, Successful f.payload := by
  have hlookup : lookup (integerMembers [(ascii "mtype", 12291)]) (ascii "result") = none := rfl
  have hack : isSetupAck resultlessReply.payload = true := by
    refine (isSetupAck_members _).mpr ⟨_, 12291, resultlessReply_parses, rfl, ?_, ?_, ?_⟩
    · norm_num [kMtypeCtrlSetup]
    · norm_num [kMtypeCtrlSetup]
    · intro x hx
      exact absurd (hlookup.symm.trans hx) (by simp)
  obtain ⟨n, s, hrun, hready, hreads⟩ := answeredBy_reaches resultlessReply (by decide) hack
  refine ⟨n, s, hrun, hready, ?_⟩
  rintro ⟨r₁, s₁, r₂, hsent, hr₂, f, hf, o, hp, hm, hres⟩
  have hall := hsent.frames_mem hf
  have hwhole : r₁ ++ r₂ = answeredBy resultlessReply (by decide) := by
    have := hsent.reads
    rw [hr₂, hreads, List.append_nil] at this
    exact this.symm
  rw [hwhole, framesAfter_answeredBy, List.mem_cons, List.mem_singleton] at hall
  rcases hall with rfl | rfl
  · exact absurd (show parse [] = .error "unexpected EOF" from rfl) (by
      rw [show parse [] = _ from hp]; simp)
  · obtain rfl := Value.object.inj (Except.ok.inj (resultlessReply_parses.symm.trans hp))
    exact absurd (hlookup.symm.trans hres) (by simp)

end OpenBambu.Tunnel
