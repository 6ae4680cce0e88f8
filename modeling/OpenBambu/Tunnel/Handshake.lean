import OpenBambu.Tunnel.Control
import OpenBambu.Tunnel.Requests

/-!
# The handshake of a session

`handshake_step` sends the login, waits for the login ack, sends the setup and looks
for a reply to it among the frames that come in. A run repeats the call. The frames
are compared with those of the exact format over everything that was read.
-/

namespace OpenBambu.Tunnel

open OpenBambu.Foundation OpenBambu.Json

structure Config where
  username : Bytes
  accessCode : Bytes
  clientId : Bytes
  clientVer : Bytes

/-- Cut or filled up with zero bytes. -/
def asciiField (s : Bytes) (width : Nat) : Bytes := s.take width ++ List.replicate (width - s.length) 0

def buildLoginPayload (username accessCode : Bytes) : Bytes :=
  asciiField username 8 ++ asciiField accessCode 8

def buildSetupJson (clientId clientVer : Bytes) : Bytes :=
  let req := fields
    [("t_av", .number 1), ("mtype", .number (kMtypeCtrlJson : ℚ)), ("peer_t", .number 3),
      ("pid", .string clientId), ("ver", .string clientVer)]
  (Value.object
    (fields [("sequence", .number 0), ("mtype", .number (kMtypeCtrlSetup : ℚ)), ("req", .object req)])).dump

/-- `"%08x"`. -/
def hex8 (v : UInt32) : Bytes := (List.range 8).map fun i => hexDigit (v.toNat / 16 ^ (7 - i) % 16)

/-- The test at the front of the buffer, with the frame length formed in 32 bits. -/
def haveLoginAck (recvBuf : Bytes) : Bool :=
  match parseFrameHeader recvBuf with
  | none => false
  | some hdr => hdr.magic = kMagicLoginServer && frameLen hdr ≤ recvBuf.length

/-- Whether a body counts as the successful reply to the setup. -/
def isSetupAck (body : Bytes) : Bool :=
  body ≠ [] &&
    match parse body with
    | .error _ => false
    | .ok v =>
        (v.find (ascii "mtype")).asInt 0 = kMtypeCtrlSetup && (v.find (ascii "result")).asInt 0 = 0

/-- The codes 0, 1 and -1 of `handshake_step`. -/
inductive StepCode where
  | done
  | more
  | failed
  deriving DecidableEq, Repr

/-- The attempts of one call in phase `SetupSent`. -/
def setupLoop : Nat → Session → Except Halt (StepCode × Session)
  | 0, s => .ok (.more, s)
  | attempts + 1, s =>
      match takeBodies s.recvBuf with
      | .error h => .error h
      | .ok (bodies, rest) =>
          if bodies.any isSetupAck then .ok (.done, { s with recvBuf := rest, phase := .ready })
          else
            match tryReadFrames { s with recvBuf := rest } with
            | .error h => .error h
            | .ok (.failed, s) => .ok (.failed, { s with phase := .failed })
            | .ok (.again, s) => .ok (.more, s)
            | .ok (.got, s) => setupLoop attempts s

def sendSetup (cfg : Config) (clientId : Bytes) (s : Session) : StepCode × Session :=
  match sendFrame s kMagicCtrlClient (buildSetupJson clientId cfg.clientVer) with
  | (false, s) => (.failed, { s with phase := .failed })
  | (true, s) => (.more, { s with phase := .setupSent })

def handshakeStep (cfg : Config) (s : Session) : Except Halt (StepCode × Session) :=
  let clientId := if cfg.clientId = [] then hex8 s.seq else cfg.clientId
  match s.phase with
  | .ready => .ok (.done, s)
  | .failed => .ok (.failed, s)
  | .notStarted =>
      match sendFrame s kMagicLoginClient (buildLoginPayload cfg.username cfg.accessCode) with
      | (false, s) => .ok (.failed, { s with phase := .failed })
      | (true, s) => .ok (.more, { s with phase := .loginSent })
  | .loginSent =>
      match tryReadFrames s with
      | .error h => .error h
      | .ok (.failed, s) => .ok (.failed, { s with phase := .failed })
      | .ok (.again, s) => .ok (.more, s)
      | .ok (.got, s) =>
          if haveLoginAck s.recvBuf then
            match takeBodies s.recvBuf with
            | .error h => .error h
            | .ok (_, rest) => .ok (sendSetup cfg clientId { s with recvBuf := rest })
          else .ok (.more, s)
  | .setupSent => setupLoop 32 s

/-- The session after `n` calls. -/
def handshakeRun (cfg : Config) (s₀ : Session) : Nat → Except Halt Session
  | 0 => .ok s₀
  | n + 1 =>
      match handshakeRun cfg s₀ n with
      | .error h => .error h
      | .ok s => (handshakeStep cfg s).map Prod.snd

/-! ## What counts as the setup ack -/

/-- A reply with the setup `mtype` whose result is the number zero. -/
def Successful (body : Bytes) : Prop :=
  ∃ o, parse body = .ok (.object o) ∧ lookup o (ascii "mtype") = some (.number (kMtypeCtrlSetup : ℚ)) ∧
    lookup o (ascii "result") = some (.number 0)

/-- A reply that is none, but whose `mtype` and `result` read as if: the `mtype` is a number
that truncates to the right one, and the result is missing, no number, or truncates to zero. -/
def Misread (body : Bytes) : Prop :=
  ¬ Successful body ∧
    ∃ o d, parse body = .ok (.object o) ∧ lookup o (ascii "mtype") = some (.number d) ∧
      (kMtypeCtrlSetup : ℚ) ≤ d ∧ d < kMtypeCtrlSetup + 1 ∧
      ∀ x, lookup o (ascii "result") = some (.number x) → -1 < x ∧ x < 1

theorem asInt_eq_iff {v : Option Value} {n : Nat} (hn : 0 < n) (hlt : n < 2 ^ 63) :
    (v.getD .null).asInt 0 = n ↔ ∃ d, v = some (.number d) ∧ (n : ℚ) ≤ d ∧ d < n + 1 := by
  have hz : (0 : Int) ≠ n := by omega
  rcases v with _ | v
  · simp [Value.asInt, hz]
  · cases v with
    | number d => simp [Value.asInt, Binary64.toInt64_eq_iff hn hlt]
    | _ => simp [Value.asInt, hz]

theorem asInt_eq_zero_iff {v : Option Value} :
    (v.getD .null).asInt 0 = 0 ↔ ∀ x, v = some (.number x) → -1 < x ∧ x < 1 := by
  rcases v with _ | v
  · simp [Value.asInt]
  · cases v with
    | number d => simp [Value.asInt, Binary64.toInt64_eq_zero_iff]
    | _ => simp [Value.asInt]

/-- The test of the source, in terms of the two members. -/
theorem isSetupAck_members (body : Bytes) :
    isSetupAck body = true ↔
      ∃ o d, parse body = .ok (.object o) ∧ lookup o (ascii "mtype") = some (.number d) ∧
        (kMtypeCtrlSetup : ℚ) ≤ d ∧ d < kMtypeCtrlSetup + 1 ∧
        ∀ x, lookup o (ascii "result") = some (.number x) → -1 < x ∧ x < 1 := by
  have hm : ∀ v : Value, v.find (ascii "mtype") = (lookup v.asObject (ascii "mtype")).getD .null :=
    find_word (by decide +kernel)
  have hr : ∀ v : Value, v.find (ascii "result") = (lookup v.asObject (ascii "result")).getD .null :=
    find_word (by decide +kernel)
  have hempty : parse [] = .error "unexpected EOF" := rfl
  unfold isSetupAck
  cases hp : parse body with
  | error e => simp
  | ok v =>
      have hne : body ≠ [] := by
        rintro rfl
        exact absurd (hempty.symm.trans hp) (by simp)
      simp only [hne, ne_eq, not_false_eq_true, decide_true, Bool.true_and, Bool.and_eq_true,
        decide_eq_true_eq, hm, hr, Except.ok.injEq,
        asInt_eq_iff (n := kMtypeCtrlSetup) (by decide) (by decide), asInt_eq_zero_iff]
      constructor
      · rintro ⟨⟨d, hd, hlo, hhi⟩, hres⟩
        cases v with
        | object o => exact ⟨o, d, rfl, hd, hlo, hhi, hres⟩
        | _ => exact absurd hd (by simp [Value.asObject, lookup])
      · rintro ⟨o, d, rfl, hd, hlo, hhi, hres⟩
        exact ⟨⟨d, hd, hlo, hhi⟩, hres⟩

/-- It accepts the successful replies and those it misreads. -/
theorem isSetupAck_iff (body : Bytes) : isSetupAck body = true ↔ Successful body ∨ Misread body := by
  rw [isSetupAck_members]
  constructor
  · intro h
    by_cases hs : Successful body
    · exact Or.inl hs
    · exact Or.inr ⟨hs, h⟩
  · rintro (⟨o, hp, hm, hr⟩ | ⟨_, h⟩)
    · refine ⟨o, _, hp, hm, le_refl _, by simp, fun x hx => ?_⟩
      obtain rfl := Value.number.inj (Option.some.inj (hr.symm.trans hx))
      exact ⟨by norm_num, by norm_num⟩
    · exact h

/-! ## What one call can do -/

/-- What is in the buffer is the end of what arrived, cut between exact frames. -/
def LeftOver (arrived buf : Bytes) : Prop :=
  ∀ more, NoWrappedHeader (arrived ++ more) → NoWrappedHeader (buf ++ more)

theorem LeftOver.append {arrived buf : Bytes} (h : LeftOver arrived buf) (ys : Bytes) :
    LeftOver (arrived ++ ys) (buf ++ ys) := by
  intro more hw
  rw [List.append_assoc] at hw ⊢
  exact h _ hw

theorem LeftOver.rest {arrived buf : Bytes} (h : LeftOver arrived buf) :
    LeftOver arrived (exactCodec.drain buf).2 :=
  fun more hw => (h more hw).rest

theorem haveLoginAck_iff {buf : Bytes} (h : NoWrappedHeader buf) :
    haveLoginAck buf = true ↔
      ∃ f rest, takeFrame buf = some (f, rest) ∧ f.magic = kMagicLoginServer := by
  unfold haveLoginAck
  split
  · rename_i hp
    simp [takeFrame, hp]
  · rename_i hdr hp
    have hw := h 0 hdr .zero (by simpa using hp)
    simp only [takeFrame, hp, frameLen_exact hw, Bool.and_eq_true, decide_eq_true_eq]
    constructor
    · rintro ⟨hm, hc⟩
      rw [if_pos hc]
      exact ⟨_, _, rfl, hm⟩
    · rintro ⟨f, rest, hf, hm⟩
      split_ifs at hf with hc
      obtain ⟨rfl, _⟩ := Prod.mk.inj (Option.some.inj hf)
      exact ⟨hm, hc⟩

/-- The code `try_read_frames` returns for a read. -/
def Read.code : Read → ReadCode
  | .bytes _ => .got
  | .wantRead => .again
  | .closed => .failed

/-- A read that returns takes one entry of the script and appends what it delivers. -/
theorem tryReadFrames_ok {s s' : Session} {code : ReadCode} (h : tryReadFrames s = .ok (code, s')) :
    ∃ r, s.reads = r :: s'.reads ∧ code = r.code ∧
      s' = { s with recvBuf := s.recvBuf ++ (received [r]).flatten, reads := s'.reads } := by
  unfold tryReadFrames at h
  split at h
  · exact absurd h (by simp)
  all_goals
    rename_i rs hr
    obtain ⟨rfl, rfl⟩ := Prod.mk.inj (Except.ok.inj h)
    exact ⟨_, hr, rfl, by simp [received]⟩

/-- The frames completed by reads behind a buffer. -/
def framesAfter (buf : Bytes) (reads : List Read) : List Frame :=
  (exactCodec.drain (buf ++ (received reads).flatten)).1

/-- What waiting for the setup ack comes to: when a read has completed a frame that counts
as the ack, all its frames are gone, and these are the bytes and the reads that remain. -/
def awaitAck (buf : Bytes) (reads : List Read) : Option (Bytes × List Read) :=
  if (exactCodec.drain buf).1.any fun f => isSetupAck f.payload then
    some ((exactCodec.drain buf).2, reads)
  else
    match reads with
    | [] => none
    | .bytes c :: rs => awaitAck ((exactCodec.drain buf).2 ++ c.bytes) rs
    | .wantRead :: rs => awaitAck (exactCodec.drain buf).2 rs
    | .closed :: _ => none

theorem awaitAck_found {buf : Bytes}
    (h : (exactCodec.drain buf).1.any (fun f => isSetupAck f.payload) = true) (reads : List Read) :
    awaitAck buf reads = some ((exactCodec.drain buf).2, reads) := by
  unfold awaitAck
  exact if_pos h

theorem awaitAck_wait {buf : Bytes}
    (h : (exactCodec.drain buf).1.any (fun f => isSetupAck f.payload) = false) (reads : List Read) :
    awaitAck buf reads =
      match reads with
      | [] => none
      | .bytes c :: rs => awaitAck ((exactCodec.drain buf).2 ++ c.bytes) rs
      | .wantRead :: rs => awaitAck (exactCodec.drain buf).2 rs
      | .closed :: _ => none := by
  rw [awaitAck.eq_def, if_neg (by simp [h])]

theorem awaitAck_bytes {buf : Bytes} (h : exactCodec.Settled buf) (c : Chunk) (rs : List Read) :
    awaitAck buf (.bytes c :: rs) = awaitAck (buf ++ c.bytes) rs := by
  have hd := Framing.drain_of_settled h
  rw [awaitAck_wait (by rw [hd]; rfl), hd]

/-- How a session that waits for the ack, and what came of it, are related: the wait is over, goes
on, or has no end. -/
def Awaited (s s' : Session) : Prop :=
  match s'.phase with
  | .ready => awaitAck s.recvBuf s.reads = some (s'.recvBuf, s'.reads)
  | .setupSent => awaitAck s.recvBuf s.reads = awaitAck s'.recvBuf s'.reads
  | .failed => awaitAck s.recvBuf s.reads = none
  | _ => False

theorem any_isSetupAck (fs : List Frame) :
    (fs.map Frame.payload).any isSetupAck = fs.any fun f => isSetupAck f.payload := by
  rw [List.any_map]
  rfl

/-- On exact frames, what is taken is what the framing drains. -/
theorem LeftOver.taken {arrived ys buf rest : Bytes} {bodies : List Bytes} (hl : LeftOver arrived buf)
    (hw : NoWrappedHeader (arrived ++ ys)) (ht : takeBodies buf = .ok (bodies, rest)) :
    bodies = (exactCodec.drain buf).1.map Frame.payload ∧ rest = (exactCodec.drain buf).2 := by
  have hbuf := hl [] (by simpa using hw.left)
  rw [List.append_nil] at hbuf
  exact Prod.mk.inj (Except.ok.inj (ht.symm.trans (takeBodies_exact hbuf)))

/-- What one read does to the wait, for whatever comes behind it. -/
theorem setupRead_spec {s s' : Session} {r : Read} {bodies : List Bytes} {rest arrived ys : Bytes}
    (ht : takeBodies s.recvBuf = .ok (bodies, rest)) (hany : ¬ bodies.any isSetupAck = true)
    (hreads : s.reads = r :: s'.reads) (hbuf : s'.recvBuf = rest ++ (received [r]).flatten)
    (hl : LeftOver arrived s.recvBuf) (hw : NoWrappedHeader (arrived ++ ys)) :
    LeftOver (arrived ++ (received [r]).flatten) s'.recvBuf ∧
      awaitAck s.recvBuf s.reads =
        if r.code = .failed then none else awaitAck s'.recvBuf s'.reads := by
  obtain ⟨rfl, rfl⟩ := hl.taken hw ht
  rw [any_isSetupAck, Bool.not_eq_true] at hany
  rw [awaitAck_wait hany, hreads, hbuf]
  refine ⟨hl.rest.append _, ?_⟩
  cases r <;> simp [Read.code]

/-- The attempts of one call, on exact frames. -/
theorem setupLoop_spec {k : Nat} {s s' : Session} {code : StepCode} (hphase : s.phase = .setupSent)
    (h : setupLoop k s = .ok (code, s')) :
    ∃ r, s.reads = r ++ s'.reads ∧ ∀ arrived, LeftOver arrived s.recvBuf →
      NoWrappedHeader (arrived ++ (received r).flatten) →
        LeftOver (arrived ++ (received r).flatten) s'.recvBuf ∧ Awaited s s' := by
  induction k generalizing s with
  | zero =>
      obtain ⟨_, rfl⟩ := Prod.mk.inj (Except.ok.inj h)
      refine ⟨[], rfl, fun arrived hl _ => ⟨by simpa using hl, ?_⟩⟩
      rw [Awaited, hphase]
  | succ k ih =>
      rw [setupLoop] at h
      cases ht : takeBodies s.recvBuf with
      | error e => rw [ht] at h; exact absurd h (by simp)
      | ok taken =>
          obtain ⟨bodies, rest⟩ := taken
          rw [ht] at h
          simp only at h
          split_ifs at h with hany
          · obtain ⟨_, rfl⟩ := Prod.mk.inj (Except.ok.inj h)
            refine ⟨[], rfl, fun arrived hl hw => ?_⟩
            obtain ⟨rfl, rfl⟩ := hl.taken hw ht
            rw [any_isSetupAck] at hany
            exact ⟨by simpa using hl.rest, awaitAck_found hany _⟩
          · cases hr : tryReadFrames { s with recvBuf := rest } with
            | error e => rw [hr] at h; exact absurd h (by simp)
            | ok got =>
                obtain ⟨rcode, s₂⟩ := got
                obtain ⟨r, hreads, hcode, hs₂⟩ := tryReadFrames_ok hr
                simp only at hreads hs₂
                rw [hr] at h
                have hone : ∀ {arrived ys}, LeftOver arrived s.recvBuf → NoWrappedHeader (arrived ++ ys) →
                    LeftOver (arrived ++ (received [r]).flatten) s₂.recvBuf ∧
                      awaitAck s.recvBuf s.reads =
                        if r.code = .failed then none else awaitAck s₂.recvBuf s₂.reads :=
                  setupRead_spec ht hany hreads (by rw [hs₂])
                subst hcode
                cases hc : r.code with
                | got =>
                    rw [hc] at h
                    obtain ⟨r', hr', hrest⟩ := ih (by rw [hs₂]; exact hphase) h
                    refine ⟨r :: r', by rw [hreads, hr', List.cons_append], fun arrived hl hw => ?_⟩
                    have hsplit : (received (r :: r')).flatten =
                        (received [r]).flatten ++ (received r').flatten := by
                      rw [← List.flatten_append, ← received_append, List.singleton_append]
                    rw [hsplit, ← List.append_assoc] at hw ⊢
                    obtain ⟨hleft, hawait⟩ := hone hl hw.left
                    obtain ⟨hleft', hawaited⟩ := hrest _ hleft hw
                    rw [hc, if_neg (by decide)] at hawait
                    refine ⟨hleft', ?_⟩
                    rwa [Awaited, hawait]
                | again =>
                    rw [hc] at h
                    obtain ⟨_, rfl⟩ := Prod.mk.inj (Except.ok.inj h)
                    refine ⟨[r], hreads, fun arrived hl hw => ?_⟩
                    obtain ⟨hleft, hawait⟩ := hone hl hw
                    have hp : s₂.phase = .setupSent := by rw [hs₂]; exact hphase
                    rw [hc, if_neg (by decide)] at hawait
                    refine ⟨hleft, ?_⟩
                    rw [Awaited, hp]
                    exact hawait
                | failed =>
                    rw [hc] at h
                    obtain ⟨_, rfl⟩ := Prod.mk.inj (Except.ok.inj h)
                    refine ⟨[r], hreads, fun arrived hl hw => ?_⟩
                    obtain ⟨hleft, hawait⟩ := hone hl hw
                    rw [hc, if_pos rfl] at hawait
                    exact ⟨hleft, hawait⟩

/-- The wait ends with a frame that counts as the ack among those read meanwhile. -/
theorem awaitAck_sound {buf rest : Bytes} {reads left : List Read}
    (h : awaitAck buf reads = some (rest, left)) :
    ∃ r, reads = r ++ left ∧ ∃ f ∈ framesAfter buf r, isSetupAck f.payload = true := by
  induction reads generalizing buf with
  | nil =>
      by_cases hany : (exactCodec.drain buf).1.any fun f => isSetupAck f.payload
      · rw [awaitAck_found hany] at h
        obtain ⟨_, rfl⟩ := Prod.mk.inj (Option.some.inj h)
        exact ⟨[], rfl, by simpa [framesAfter] using hany⟩
      · rw [awaitAck_wait (by simpa using hany)] at h
        exact absurd h (by simp)
  | cons r rs ih =>
      by_cases hany : (exactCodec.drain buf).1.any fun f => isSetupAck f.payload
      · rw [awaitAck_found hany] at h
        obtain ⟨_, rfl⟩ := Prod.mk.inj (Option.some.inj h)
        exact ⟨[], rfl, by simpa [framesAfter] using hany⟩
      · rw [awaitAck_wait (by simpa using hany)] at h
        cases r with
        | closed => exact absurd h (by simp)
        | wantRead =>
            obtain ⟨r', rfl, f, hf, hack⟩ := ih h
            refine ⟨.wantRead :: r', rfl, f, ?_, hack⟩
            rw [framesAfter, received_wantRead, Framing.drain_append]
            exact List.mem_append_right _ hf
        | bytes c =>
            obtain ⟨r', rfl, f, hf, hack⟩ := ih h
            refine ⟨.bytes c :: r', rfl, f, ?_, hack⟩
            rw [framesAfter, List.append_assoc] at hf
            rw [framesAfter, received_bytes, List.flatten_cons, Framing.drain_append]
            exact List.mem_append_right _ hf

/-! ## One call -/

theorem sendSetup_spec (cfg : Config) (clientId : Bytes) (s : Session) :
    (sendSetup cfg clientId s).2.reads = s.reads ∧
      ((sendSetup cfg clientId s).2.phase = .failed ∨
        (sendSetup cfg clientId s).2.phase = .setupSent ∧
          (sendSetup cfg clientId s).2.recvBuf = s.recvBuf ∧
          (sendSetup cfg clientId s).2.sent = s.sent ++
            (buildFrameHeader (UInt32.ofNat (buildSetupJson clientId cfg.clientVer).length)
              kMagicCtrlClient s.seq ++ buildSetupJson clientId cfg.clientVer)) := by
  obtain ⟨hbuf, hreads, _, hsent⟩ :=
    sendFrame_frame s kMagicCtrlClient (buildSetupJson clientId cfg.clientVer)
  unfold sendSetup
  split
  · rename_i h
    rw [h] at hreads
    exact ⟨hreads, Or.inl rfl⟩
  · rename_i h
    rw [h] at hreads hbuf hsent
    exact ⟨hreads, Or.inr ⟨rfl, hbuf, hsent rfl⟩⟩

/-- What one call in phase `LoginSent` does. -/
theorem loginStep_cases {cfg : Config} {s s' : Session} {code : StepCode}
    (hphase : s.phase = .loginSent) (h : handshakeStep cfg s = .ok (code, s')) :
    ∃ r buf, s.reads = r :: s'.reads ∧ buf = s.recvBuf ++ (received [r]).flatten ∧
      (s'.phase = .failed ∨ s'.phase = .loginSent ∧ s'.recvBuf = buf ∨
        ∃ bodies rest clientId before seq, haveLoginAck buf = true ∧
          takeBodies buf = .ok (bodies, rest) ∧ s'.phase = .setupSent ∧ s'.recvBuf = rest ∧
          s'.sent = before ++
            (buildFrameHeader (UInt32.ofNat (buildSetupJson clientId cfg.clientVer).length)
              kMagicCtrlClient seq ++ buildSetupJson clientId cfg.clientVer)) := by
  unfold handshakeStep at h
  simp only [hphase] at h
  generalize (if cfg.clientId = [] then hex8 s.seq else cfg.clientId) = clientId at h
  cases hr : tryReadFrames s with
  | error e => rw [hr] at h; exact absurd h (by simp)
  | ok got =>
      obtain ⟨rcode, s₂⟩ := got
      obtain ⟨r, hreads, hcode, hs₂⟩ := tryReadFrames_ok hr
      refine ⟨r, s₂.recvBuf, ?_⟩
      rw [hr] at h
      have hp : s₂.phase = .loginSent := by rw [hs₂]; exact hphase
      have hb : s₂.recvBuf = s.recvBuf ++ (received [r]).flatten := by rw [hs₂]
      cases rcode with
      | failed =>
          obtain ⟨_, rfl⟩ := Prod.mk.inj (Except.ok.inj h)
          exact ⟨hreads, hb, Or.inl rfl⟩
      | again =>
          obtain ⟨_, rfl⟩ := Prod.mk.inj (Except.ok.inj h)
          exact ⟨hreads, hb, Or.inr (Or.inl ⟨hp, rfl⟩)⟩
      | got =>
          simp only at h
          split_ifs at h with hack
          · cases ht : takeBodies s₂.recvBuf with
            | error e => rw [ht] at h; exact absurd h (by simp)
            | ok taken =>
                obtain ⟨bodies, rest⟩ := taken
                rw [ht] at h
                simp only [Except.ok.injEq] at h
                obtain ⟨hreads', hsetup⟩ := sendSetup_spec cfg clientId { s₂ with recvBuf := rest }
                rw [h] at hreads' hsetup
                refine ⟨hreads.trans (congrArg (r :: ·) hreads'.symm), hb, ?_⟩
                rcases hsetup with hfail | ⟨hphase', hbuf', hsent'⟩
                · exact Or.inl hfail
                · exact Or.inr (Or.inr ⟨bodies, rest, _, _, _, hack, rfl, hphase', hbuf', hsent'⟩)
          · obtain ⟨_, rfl⟩ := Prod.mk.inj (Except.ok.inj h)
            exact ⟨hreads, hb, Or.inr (Or.inl ⟨hp, rfl⟩)⟩

/-- A call takes reads off the script and puts none back. -/
theorem handshakeStep_reads {cfg : Config} {s s' : Session} {code : StepCode}
    (h : handshakeStep cfg s = .ok (code, s')) : ∃ r, s.reads = r ++ s'.reads := by
  cases hp : s.phase with
  | notStarted =>
      have hframe := (sendFrame_frame s kMagicLoginClient
        (buildLoginPayload cfg.username cfg.accessCode)).2.1
      unfold handshakeStep at h
      simp only [hp] at h
      split at h
      all_goals
        rename_i hsend
        rw [hsend] at hframe
        obtain ⟨_, rfl⟩ := Prod.mk.inj (Except.ok.inj h)
        exact ⟨[], hframe.symm⟩
  | loginSent =>
      obtain ⟨r, _, hreads, _⟩ := loginStep_cases hp h
      exact ⟨[r], hreads⟩
  | setupSent =>
      unfold handshakeStep at h
      simp only [hp] at h
      obtain ⟨r, hreads, _⟩ := setupLoop_spec hp h
      exact ⟨r, hreads⟩
  | ready =>
      unfold handshakeStep at h
      simp only [hp] at h
      obtain ⟨_, rfl⟩ := Prod.mk.inj (Except.ok.inj h)
      exact ⟨[], rfl⟩
  | failed =>
      unfold handshakeStep at h
      simp only [hp] at h
      obtain ⟨_, rfl⟩ := Prod.mk.inj (Except.ok.inj h)
      exact ⟨[], rfl⟩

theorem LeftOver.refl (arrived : Bytes) : LeftOver arrived arrived := fun _ h => h

theorem flatten_received_append (r₁ r₂ : List Read) :
    (received (r₁ ++ r₂)).flatten = (received r₁).flatten ++ (received r₂).flatten := by
  rw [received_append, List.flatten_append]

/-! ## Calling it again and again -/

theorem handshakeRun_add {cfg : Config} {s₀ s : Session} {m : Nat}
    (h : handshakeRun cfg s₀ m = .ok s) (n : Nat) :
    handshakeRun cfg s₀ (m + n) = handshakeRun cfg s n := by
  induction n with
  | zero => exact h
  | succ n ih => rw [← Nat.add_assoc, handshakeRun, ih, handshakeRun]

theorem handshakeRun_one {cfg : Config} {s s' : Session} {code : StepCode}
    (h : handshakeStep cfg s = .ok (code, s')) : handshakeRun cfg s 1 = .ok s' := by
  rw [handshakeRun, handshakeRun]
  simp only [h, Except.map]

/-- A ready session stays as it is. -/
theorem handshakeRun_ready {cfg : Config} {s : Session} (h : s.phase = .ready) (n : Nat) :
    handshakeRun cfg s n = .ok s := by
  induction n with
  | zero => rfl
  | succ n ih =>
      rw [handshakeRun, ih]
      unfold handshakeStep
      simp only [h, Except.map]

theorem handshakeStep_notStarted (cfg : Config) {s : Session} (hphase : s.phase = .notStarted)
    (hwrites : ∀ w ∈ s.writes, w = none) :
    ∃ s', handshakeStep cfg s = .ok (.more, s') ∧ s'.phase = .loginSent ∧
      s'.recvBuf = s.recvBuf ∧ s'.reads = s.reads ∧ ∀ w ∈ s'.writes, w = none := by
  obtain ⟨ws, hws, hsend⟩ := sendFrame_ok hwrites kMagicLoginClient
    (buildLoginPayload cfg.username cfg.accessCode)
  unfold handshakeStep
  simp only [hphase, hsend]
  exact ⟨_, rfl, rfl, rfl, rfl, hws⟩

/-- A call that reads less than the login ack waits for more. -/
theorem handshakeStep_login_wait (cfg : Config) {s : Session} {r : Read} {rs : List Read}
    (hphase : s.phase = .loginSent) (hreads : s.reads = r :: rs) (hopen : r ≠ .closed)
    (hack : haveLoginAck (s.recvBuf ++ (received [r]).flatten) = false) :
    handshakeStep cfg s =
      .ok (.more, { s with recvBuf := s.recvBuf ++ (received [r]).flatten, reads := rs }) := by
  unfold handshakeStep tryReadFrames
  simp only [hphase, hreads]
  cases r with
  | closed => exact absurd rfl hopen
  | wantRead => simp
  | bytes c =>
      have hc : (received [.bytes c]).flatten = c.bytes := List.append_nil _
      rw [hc] at hack ⊢
      simp only [hack, Bool.false_eq_true, if_false]

/-- The call that has the login ack sends the setup. -/
theorem handshakeStep_login_done (cfg : Config) {s : Session} {c : Chunk} {rs : List Read}
    {login : Frame} (hphase : s.phase = .loginSent) (hreads : s.reads = .bytes c :: rs)
    (hwrites : ∀ w ∈ s.writes, w = none) (hbuf : s.recvBuf ++ c.bytes = login.encode)
    (hmagic : login.magic = kMagicLoginServer) (hsmall : login.Small) :
    ∃ s', handshakeStep cfg s = .ok (.more, s') ∧ s'.phase = .setupSent ∧ s'.recvBuf = [] ∧
      s'.reads = rs := by
  have hall : login.encode ++ [] = exactCodec.encodeAll [login] := by simp; rfl
  have hw : NoWrappedHeader login.encode := noWrappedHeader_encodeAll hall (by simpa using hsmall)
  have hack : haveLoginAck login.encode = true := by
    have ht := takeFrame_encode login []
    rw [List.append_nil] at ht
    exact (haveLoginAck_iff hw).mpr ⟨login, [], ht, hmagic⟩
  have htake : takeBodies login.encode = .ok ([login.payload], []) := by
    rw [takeBodies_exact hw, ← List.append_nil login.encode, hall, exactCodec.drain_encodeAll]
    rfl
  unfold handshakeStep tryReadFrames
  simp only [hphase, hreads, hbuf, hack, if_true, htake]
  generalize (if cfg.clientId = [] then hex8 s.seq else cfg.clientId) = clientId
  obtain ⟨ws, _, hsend⟩ := sendFrame_ok (s := { s with recvBuf := [], reads := rs }) hwrites
    kMagicCtrlClient (buildSetupJson clientId cfg.clientVer)
  simp only [hphase] at hsend
  simp only [sendSetup, hsend]
  exact ⟨_, rfl, rfl, rfl, rfl⟩

theorem haveLoginAck_prefix {buf ys : Bytes} {login : Frame} (h : buf ++ ys = login.encode)
    (hy : ys ≠ []) (hsmall : login.Small) : haveLoginAck buf = false := by
  have hall : buf ++ ys = exactCodec.encodeAll [login] := by rw [h]; simp; rfl
  have hw : NoWrappedHeader buf := noWrappedHeader_encodeAll hall (by simpa using hsmall)
  have hs : exactCodec.Settled buf := exactCodec.settled_of_cut h hy
  rw [Bool.eq_false_iff, ne_eq, haveLoginAck_iff hw]
  rintro ⟨f, rest, hf, _⟩
  exact absurd (hs.symm.trans hf) (by simp)

/-- A login ack that comes in pieces brings the session to `SetupSent` with its last piece. -/
theorem handshakeRun_login (cfg : Config) {s : Session} {c : Chunk} {l rs : List Read}
    {login : Frame} (hphase : s.phase = .loginSent) (hreads : s.reads = l ++ .bytes c :: rs)
    (hopen : Open l) (hwrites : ∀ w ∈ s.writes, w = none)
    (hlogin : s.recvBuf ++ (received l).flatten ++ c.bytes = login.encode)
    (hmagic : login.magic = kMagicLoginServer) (hsmall : login.Small) :
    ∃ n s', handshakeRun cfg s n = .ok s' ∧ s'.phase = .setupSent ∧ s'.recvBuf = [] ∧
      s'.reads = rs := by
  induction l generalizing s with
  | nil =>
      obtain ⟨s', hstep, hs'⟩ := handshakeStep_login_done cfg hphase hreads hwrites
        (by simpa using hlogin) hmagic hsmall
      exact ⟨1, s', handshakeRun_one hstep, hs'⟩
  | cons r l ih =>
      have hsplit : (received (r :: l)).flatten = (received [r]).flatten ++ (received l).flatten := by
        rw [← flatten_received_append, List.singleton_append]
      rw [hsplit, ← List.append_assoc] at hlogin
      have hcut : s.recvBuf ++ (received [r]).flatten ++ ((received l).flatten ++ c.bytes) =
          login.encode := by
        rw [← hlogin, List.append_assoc _ (received l).flatten]
      have hack := haveLoginAck_prefix hcut (by simp [c.nonempty]) hsmall
      have hstep := handshakeStep_login_wait cfg hphase hreads
        (hopen r List.mem_cons_self) hack
      obtain ⟨n, s', hrun, hs'⟩ := ih (s := { s with
          recvBuf := s.recvBuf ++ (received [r]).flatten, reads := l ++ .bytes c :: rs }) hphase rfl
        (fun x hx => hopen x (List.mem_cons_of_mem _ hx)) hwrites hlogin
      refine ⟨1 + n, s', ?_, hs'⟩
      rw [handshakeRun_add (handshakeRun_one hstep)]
      exact hrun

/-- While the wait has an end, one call reaches it or takes some reads. -/
theorem setupLoop_total {k : Nat} {s : Session} (hphase : s.phase = .setupSent)
    (hw : NoWrappedHeader (s.recvBuf ++ (received s.reads).flatten))
    (hawait : (awaitAck s.recvBuf s.reads).isSome) :
    ∃ code s', setupLoop k s = .ok (code, s') ∧
      (k = 0 ∨ s'.phase = .ready ∨ s'.reads.length < s.reads.length) := by
  induction k generalizing s with
  | zero => exact ⟨_, _, rfl, Or.inl rfl⟩
  | succ k ih =>
      rw [setupLoop, takeBodies_exact hw.left]
      simp only [any_isSetupAck]
      by_cases hany : (exactCodec.drain s.recvBuf).1.any fun f => isSetupAck f.payload
      · rw [if_pos hany]
        exact ⟨_, _, rfl, Or.inr (Or.inl rfl)⟩
      · rw [if_neg hany]
        rw [awaitAck_wait (by simpa using hany)] at hawait
        obtain ⟨seq, phase, buf, reads, writes, sent⟩ := s
        cases reads with
        | nil => exact absurd hawait (by simp)
        | cons r rs =>
            cases r with
            | closed => exact absurd hawait (by simp)
            | wantRead => exact ⟨_, _, rfl, Or.inr (Or.inr (by simp))⟩
            | bytes c =>
                have hw' : NoWrappedHeader
                    ((exactCodec.drain buf).2 ++ c.bytes ++ (received rs).flatten) := by
                  rw [List.append_assoc]
                  exact hw.rest
                have hphase' : (⟨seq, phase, (exactCodec.drain buf).2 ++ c.bytes, rs, writes, sent⟩ :
                    Session).phase = .setupSent := hphase
                obtain ⟨code, s', hloop, hcases⟩ := ih hphase' hw' hawait
                refine ⟨code, s', hloop, ?_⟩
                obtain ⟨r', hr', _⟩ := setupLoop_spec hphase' hloop
                have hlen := congrArg List.length hr'
                simp only [List.length_append] at hlen
                exact Or.inr (Or.inr (by simp only [List.length_cons]; omega))

/-- Waiting for the ack ends as `awaitAck` says. -/
theorem handshakeRun_setup (cfg : Config) {s : Session} {buf : Bytes} {left : List Read}
    (hphase : s.phase = .setupSent)
    (hw : NoWrappedHeader (s.recvBuf ++ (received s.reads).flatten))
    (hawait : awaitAck s.recvBuf s.reads = some (buf, left)) :
    ∃ n s', handshakeRun cfg s n = .ok s' ∧ s'.phase = .ready ∧ s'.recvBuf = buf ∧
      s'.reads = left := by
  obtain ⟨code, s', hloop, hcases⟩ :=
    setupLoop_total (k := 32) hphase hw (by rw [hawait]; rfl)
  have hstep : handshakeStep cfg s = .ok (code, s') := by
    unfold handshakeStep
    simp only [hphase]
    exact hloop
  obtain ⟨r, hr, hspec⟩ := setupLoop_spec hphase hloop
  rw [hr, flatten_received_append, ← List.append_assoc] at hw
  obtain ⟨hleft, hawaited⟩ := hspec _ (LeftOver.refl _) hw.left
  unfold Awaited at hawaited
  rw [hawait] at hawaited
  split at hawaited
  · rename_i hp
    obtain ⟨hb, hl⟩ := Prod.mk.inj (Option.some.inj hawaited)
    exact ⟨1, s', handshakeRun_one hstep, hp, hb.symm, hl.symm⟩
  · rename_i hp
    have hshorter : s'.reads.length < s.reads.length := by
      rcases hcases with h | h | h
      · exact absurd h (by simp)
      · exact absurd (h.symm.trans hp) (by simp)
      · exact h
    obtain ⟨n, s'', hrun, hs''⟩ := handshakeRun_setup cfg hp (hleft _ hw) hawaited.symm
    refine ⟨1 + n, s'', ?_, hs''⟩
    rw [handshakeRun_add (handshakeRun_one hstep), hrun]
  · exact absurd hawaited (by simp)
  · exact hawaited.elim
termination_by s.reads.length

/-- A login ack and then reads among which the wait ends bring a new session to `Ready`. -/
theorem handshakeRun_reaches (cfg : Config) {s₀ : Session} {c : Chunk} {l rs left : List Read}
    {login : Frame} {buf : Bytes} (hphase : s₀.phase = .notStarted) (hbuf : s₀.recvBuf = [])
    (hwrites : ∀ w ∈ s₀.writes, w = none) (hreads : s₀.reads = l ++ .bytes c :: rs) (hopen : Open l)
    (hlogin : (received l).flatten ++ c.bytes = login.encode)
    (hmagic : login.magic = kMagicLoginServer) (hsmall : login.Small)
    (hw : NoWrappedHeader (received rs).flatten) (hawait : awaitAck [] rs = some (buf, left)) :
    ∃ N s, (∀ n, N ≤ n → handshakeRun cfg s₀ n = .ok s) ∧ s.phase = .ready ∧ s.recvBuf = buf ∧
      s.reads = left := by
  obtain ⟨s₁, hstep, hp₁, hb₁, hr₁, hws₁⟩ := handshakeStep_notStarted cfg hphase hwrites
  obtain ⟨n₂, s₂, hrun₂, hp₂, hb₂, hr₂⟩ := handshakeRun_login cfg hp₁ (hr₁.trans hreads) hopen
    hws₁ (by rw [hb₁, hbuf]; exact hlogin) hmagic hsmall
  obtain ⟨n₃, s₃, hrun₃, hp₃, hs₃⟩ := handshakeRun_setup cfg hp₂
    (by rw [hb₂, hr₂]; exact hw) (by rw [hb₂, hr₂]; exact hawait)
  refine ⟨1 + n₂ + n₃, s₃, fun n hn => ?_, hp₃, hs₃⟩
  obtain ⟨k, rfl⟩ := Nat.exists_eq_add_of_le hn
  have hrun : handshakeRun cfg s₀ (1 + n₂ + n₃) = .ok s₃ := by
    rw [Nat.add_assoc, handshakeRun_add (handshakeRun_one hstep), handshakeRun_add hrun₂, hrun₃]
  rw [handshakeRun_add hrun, handshakeRun_ready hp₃]

end OpenBambu.Tunnel
