import OpenBambu.Foundation.Run
import OpenBambu.Source.Tunnel
import OpenBambu.Tunnel.Ready
import OpenBambu.Upload.Receive

/-!
# The CTRL worker

`native_ctrl_send_worker` sends one request at a time and pushes what comes back until a reply does
not say `continue`. A run lets calls, turns of the worker and arriving bytes come in any order. The
worker is right exactly if every receive phase ends on the final reply to its own request, or on a
connection error, and no reply to a request that was sent is lost on the way.
-/

namespace OpenBambu.Source

open OpenBambu.Foundation OpenBambu.Json OpenBambu.Tunnel
open OpenBambu.Upload (wireParts)

def kResContinue : Int := 1

/-- The text in front of the first empty line. -/
def wireJson (wire : Bytes) : Bytes :=
  match findText [Ascii.lf, Ascii.lf] wire with
  | some (json, _) => json
  | none => wire

/-- What `parse_ctrl_request` finds. The source casts the numbers to `int` for a log line. -/
structure CtrlHead where
  cmdtype : Double
  sequence : Double
  req : Value

def parseCtrlRequest (wire : Bytes) : Option CtrlHead :=
  match parse (wireJson wire) with
  | .error _ => none
  | .ok v =>
      match v.find (ascii "cmdtype"), v.find (ascii "sequence") with
      | .number ct, .number sq => some ⟨ct, sq, v.find (ascii "req")⟩
      | _, _ => none

def parseWireResult (wire : Bytes) : Int :=
  match parse (wireJson wire) with
  | .error _ => -1
  | .ok v => toInt ((v.find (ascii "result")).asInt (-1))

/-! ## Turns of the worker -/

/-- How a receive phase ended: on a reply, on `recv_payload` returning 1, or on an error. -/
inductive PhaseEnd where
  | reply (body : Bytes)
  | again
  | failed
  deriving DecidableEq

/-- What happened, for the record. -/
inductive Report where
  | forwarded (req : Bytes)
  | sendFailed (req : Bytes)
  /-- A complete body behind the first one, which `recv_payload` throws away. -/
  | lost (body : Bytes)
  | pushed (req body : Bytes)
  | ended (req : Bytes) (why : PhaseEnd)
  /-- Studio has read the reply. -/
  | handed (body : Bytes)
  deriving DecidableEq

/-- A body off the buffer: it is pushed, and the phase goes on if it says so. -/
def takeReply (t : Tunnel) (req : Bytes) (conn : Nat) (body : Bytes) : Tunnel × List Report :=
  let t := { t with ctrlOut := t.ctrlOut ++ [body] }
  if parseWireResult body = kResContinue then
    ({ t with ctrlWorker := some (.taking req conn) }, [.pushed req body])
  else
    ({ t with ctrlWorker := some .waiting }, [.pushed req body, .ended req (.reply body)])

/-- One turn of the worker. A read returns when something has arrived. -/
def workerTurn (t : Tunnel) : Worker → Tunnel × List Report
  | .waiting =>
      if t.ctrlStop then ({ t with ctrlWorker := some .exited }, [])
      else
        match t.ctrlIn with
        | [] => (t, [])
        | req :: rest => ({ t with ctrlIn := rest, ctrlWorker := some (.holding req) }, [])
  | .holding req =>
      match t.ssl.bind fun conn => (t.session conn).map fun s => (conn, s) with
      | none => ({ t with ctrlWorker := some .waiting }, [])
      | some (conn, s) =>
          match sendAbiJson s req with
          | (false, s) => ({ t.put conn s with ctrlWorker := some .waiting }, [.sendFailed req])
          | (true, s) => ({ t.put conn s with ctrlWorker := some (.taking req conn) }, [.forwarded req])
  | .taking req conn =>
      match t.session conn with
      | none => (t, [])
      | some s =>
          match takeBodies s.recvBuf with
          | .error h => ({ t with ctrlWorker := some (.halted req h) }, [])
          | .ok ([], rest) =>
              ({ t.put conn { s with recvBuf := rest } with ctrlWorker := some (.reading req conn) }, [])
          | .ok (body :: more, rest) =>
              let (t, reports) := takeReply (t.put conn { s with recvBuf := rest }) req conn body
              (t, more.map .lost ++ reports)
  | .reading req conn =>
      match t.session conn with
      | none => (t, [])
      | some s =>
          match tryReadFrames s with
          | .error _ => (t, [])
          | .ok (.failed, s) => ({ t.put conn s with ctrlWorker := some .waiting }, [.ended req .failed])
          | .ok (.again, s) => ({ t.put conn s with ctrlWorker := some .waiting }, [.ended req .again])
          | .ok (.got, s) => ({ t.put conn s with ctrlWorker := some (.taking req conn) }, [])
  | .halted _ _ => (t, [])
  | .exited => (t, [])

/-! ## Runs -/

/-- The thread that is in `Bambu_Close` or `Bambu_Destroy`. -/
inductive Closer where
  | idle
  /-- It waits for the worker to exit. -/
  | joining (destroy : Bool)
  /-- The handle is deleted. -/
  | gone
  deriving DecidableEq

structure World where
  tunnel : Tunnel
  closer : Closer
  log : List Report

def World.start (url : TunnelUrl) : World := ⟨{ url := url }, .idle, []⟩

inductive Event where
  | call (c : Call)
  | close (destroy : Bool)
  /-- The join returns. -/
  | joined
  /-- The CTRL worker. -/
  | turn
  /-- The printer or the network on a connection. -/
  | arrive (conn : Nat) (r : SslRead)
  /-- The worker of the passthrough, at a clock reading in nanoseconds. -/
  | produce (ns : Nat)

/-- A sample in CTRL mode is a reply. -/
def handedOver (t : Tunnel) : Answer → List Report
  | .sample s => if t.ctrlMode then [.handed s.buffer] else []
  | _ => []

/-- Behind the join, or where there is no worker to wait for. -/
def World.closed (w : World) (destroy : Bool) : World :=
  { w with tunnel := bambuClose w.tunnel, closer := if destroy then .gone else .idle }

def Tunnel.arrive (t : Tunnel) (conn : Nat) (r : SslRead) : Tunnel :=
  { t with conns := t.conns.modify conn fun c => { c with reads := c.reads ++ [r] } }

def Tunnel.produce (t : Tunnel) (ns : Nat) : Tunnel :=
  { t with
    rtspPass := t.rtspPass.map fun p =>
      { p with state := (Rtsp.turn p.track p.ending p.state (.work ns)).1 } }

/-- The calls with a lock against the other threads, `ctrl_mu`. -/
def Call.locked : Call → Bool
  | .readSample _ => true
  | .sendMessage _ _ => true
  | _ => false

/-- Beside a thread that closes, a call without a lock is a data race. -/
def Closer.admits : Closer → Call → Bool
  | .idle, _ => true
  | .joining _, c => c.locked
  | .gone, _ => false

/-- One thread closes at a time, and no call comes behind `Bambu_Destroy`. -/
def World.step (w : World) : Event → World
  | .call c =>
      if w.closer.admits c then
        match w.tunnel.call c with
        | .error _ => w
        | .ok (a, t) => { w with tunnel := t, log := w.log ++ handedOver w.tunnel a }
      else w
  | .close destroy =>
      if w.closer = .idle then
        if w.tunnel.ctrlMode then
          { w with tunnel := requestStop w.tunnel, closer := .joining destroy }
        else w.closed destroy
      else w
  | .joined =>
      match w.closer with
      | .joining destroy => if Joinable w.tunnel then w.closed destroy else w
      | _ => w
  | .turn =>
      match w.tunnel.ctrlWorker with
      | none => w
      | some pc =>
          let r := workerTurn w.tunnel pc
          { w with tunnel := r.1, log := w.log ++ r.2 }
  | .arrive conn r => { w with tunnel := w.tunnel.arrive conn r }
  | .produce ns => { w with tunnel := w.tunnel.produce ns }

/-! ## What is read off the record -/

def sentOf (log : List Report) : List Bytes :=
  log.filterMap fun r =>
    match r with
    | .forwarded req => some req
    | _ => none

def endedOf (log : List Report) : List Bytes :=
  log.filterMap fun r =>
    match r with
    | .ended req _ => some req
    | _ => none

def pushedOf (log : List Report) : List Bytes :=
  log.filterMap fun r =>
    match r with
    | .pushed _ body => some body
    | _ => none

def handedOf (log : List Report) : List Bytes :=
  log.filterMap fun r =>
    match r with
    | .handed body => some body
    | _ => none

/-- The `sequence` of a body. -/
def sequenceOf (body : Bytes) : Option Double :=
  match parse (wireParts body).1 with
  | .error _ => none
  | .ok v =>
      match v.find (ascii "sequence") with
      | .number n => some n
      | _ => none

/-- The body carries the sequence of the request. -/
def answers (req body : Bytes) : Bool :=
  match parseCtrlRequest req with
  | none => false
  | some head => sequenceOf body = some head.sequence

/-- It does not say `continue` either. -/
def isFinal (req body : Bytes) : Bool :=
  answers req body && Tunnel.parseWireResult (wireParts body).1 ≠ kResContinue

def ProperEnd (req : Bytes) : PhaseEnd → Prop
  | .reply body => isFinal req body = true
  | .again => False
  | .failed => True

/-- No body is lost that answers a request which was sent before it. -/
def NoneLost (sent : List Bytes) : List Report → Prop
  | [] => True
  | .forwarded req :: log => NoneLost (sent ++ [req]) log
  | .lost body :: log => (∀ req ∈ sent, answers req body = false) ∧ NoneLost sent log
  | _ :: log => NoneLost sent log

/-- The receive phase of a request ends on its final reply or on a connection error. So no request
is open while the worker waits for the next one, and Studio is given all replies in order. -/
structure AllReplied (w : World) : Prop where
  ends : ∀ req why, .ended req why ∈ w.log → ProperEnd req why
  noneLost : NoneLost [] w.log
  settled : w.tunnel.ctrlWorker = some .waiting → sentOf w.log = endedOf w.log
  pushed : ∀ req body, .ended req (.reply body) ∈ w.log → .pushed req body ∈ w.log
  handed : handedOf w.log ++ w.tunnel.ctrlOut = pushedOf w.log

/-- What may come while a request waits for its reply: no read returns without bytes, and of the
bodies that come off the buffer at once only the first one answers anything; it says `continue` or is
the final reply to this very request. -/
def RepliesInTurn (w : World) : Event → Prop
  | .turn =>
      (∀ req conn s, w.tunnel.ctrlWorker = some (.reading req conn) →
        w.tunnel.session conn = some s → s.reads.head? ≠ some .wantRead) ∧
      (∀ req conn s body more rest, w.tunnel.ctrlWorker = some (.taking req conn) →
        w.tunnel.session conn = some s → takeBodies s.recvBuf = .ok (body :: more, rest) →
        (parseWireResult body = kResContinue ∨ isFinal req body = true) ∧
          ∀ req ∈ sentOf w.log, ∀ body ∈ more, answers req body = false)
  | _ => True

/-! ## What a turn does -/

/-- The request whose replies are awaited. -/
def pending : Option Worker → List Bytes
  | some (.taking req _) => [req]
  | some (.reading req _) => [req]
  | some (.halted req _) => [req]
  | _ => []

/-- No read returns without bytes, and no body comes off the buffer. -/
structure Quiet (t : Tunnel) (pc : Worker) : Prop where
  reading : ∀ {req conn s}, pc = .reading req conn → t.session conn = some s →
    s.reads.head? ≠ some .wantRead
  taking : ∀ {req conn s body more rest}, pc = .taking req conn → t.session conn = some s →
    takeBodies s.recvBuf ≠ .ok (body :: more, rest)

/-- What a turn of the worker comes to. -/
inductive Turned (t : Tunnel) (pc : Worker) (t' : Tunnel) : List Report → Prop where
  | quiet (hq : Quiet t pc) (hp : pending t'.ctrlWorker = pending (some pc))
      (hout : t'.ctrlOut = t.ctrlOut) : Turned t pc t' []
  | unsent {req : Bytes} (hpc : pc = .holding req) (hp : pending t'.ctrlWorker = [])
      (hout : t'.ctrlOut = t.ctrlOut) : Turned t pc t' [.sendFailed req]
  | sent {req : Bytes} (hpc : pc = .holding req) (hp : pending t'.ctrlWorker = [req])
      (hout : t'.ctrlOut = t.ctrlOut) : Turned t pc t' [.forwarded req]
  | goesOn {req body rest : Bytes} {conn : Nat} {s : Session} {more : List Bytes}
      (hpc : pc = .taking req conn) (hs : t.session conn = some s)
      (htake : takeBodies s.recvBuf = .ok (body :: more, rest))
      (hgo : parseWireResult body = kResContinue) (hp : pending t'.ctrlWorker = [req])
      (hout : t'.ctrlOut = t.ctrlOut ++ [body]) :
      Turned t pc t' (more.map .lost ++ [.pushed req body])
  | replied {req body rest : Bytes} {conn : Nat} {s : Session} {more : List Bytes}
      (hpc : pc = .taking req conn) (hs : t.session conn = some s)
      (htake : takeBodies s.recvBuf = .ok (body :: more, rest))
      (hend : parseWireResult body ≠ kResContinue) (hp : pending t'.ctrlWorker = [])
      (hout : t'.ctrlOut = t.ctrlOut ++ [body]) :
      Turned t pc t' (more.map .lost ++ [.pushed req body, .ended req (.reply body)])
  | again {req : Bytes} {conn : Nat} {s : Session} (hpc : pc = .reading req conn)
      (hs : t.session conn = some s) (hread : s.reads.head? = some .wantRead)
      (hp : pending t'.ctrlWorker = []) (hout : t'.ctrlOut = t.ctrlOut) :
      Turned t pc t' [.ended req .again]
  | failed {req : Bytes} {conn : Nat} {s : Session} (hpc : pc = .reading req conn)
      (hs : t.session conn = some s) (hread : s.reads.head? ≠ some .wantRead)
      (hp : pending t'.ctrlWorker = []) (hout : t'.ctrlOut = t.ctrlOut) :
      Turned t pc t' [.ended req .failed]

/-- What no turn of the worker touches; the thread stays. -/
structure TurnFrame (t t' : Tunnel) : Prop where
  url : t'.url = t.url
  mode : t'.ctrlMode = t.ctrlMode
  stop : t'.ctrlStop = t.ctrlStop
  thread : t'.ctrlWorker.isSome = true

theorem workerTurn_spec {t : Tunnel} {pc : Worker} (hpc : t.ctrlWorker = some pc) :
    TurnFrame t (workerTurn t pc).1 ∧ Turned t pc (workerTurn t pc).1 (workerTurn t pc).2 := by
  have hsome : t.ctrlWorker.isSome = true := by rw [hpc]; rfl
  have hsame : pending t.ctrlWorker = pending (some pc) := congrArg pending hpc
  cases pc with
  | waiting =>
      have hq : Quiet t .waiting := ⟨nofun, nofun⟩
      rw [workerTurn]
      split_ifs with hstop
      · exact ⟨⟨rfl, rfl, rfl, rfl⟩, .quiet hq rfl rfl⟩
      · cases t.ctrlIn with
        | nil => exact ⟨⟨rfl, rfl, rfl, hsome⟩, .quiet hq hsame rfl⟩
        | cons req rest => exact ⟨⟨rfl, rfl, rfl, rfl⟩, .quiet hq rfl rfl⟩
  | holding req =>
      rw [workerTurn]
      cases t.ssl.bind fun conn => (t.session conn).map fun s => (conn, s) with
      | none => exact ⟨⟨rfl, rfl, rfl, rfl⟩, .quiet ⟨nofun, nofun⟩ rfl rfl⟩
      | some p =>
          obtain ⟨conn, s⟩ := p
          dsimp only
          split
          · exact ⟨⟨rfl, rfl, rfl, rfl⟩, .unsent rfl rfl rfl⟩
          · exact ⟨⟨rfl, rfl, rfl, rfl⟩, .sent rfl rfl rfl⟩
  | taking req conn =>
      rw [workerTurn]
      cases hs : t.session conn with
      | none =>
          refine ⟨⟨rfl, rfl, rfl, hsome⟩, .quiet ⟨nofun, ?_⟩ hsame rfl⟩
          intro req conn s body more rest he hs'
          cases he
          rw [hs] at hs'
          cases hs'
      | some s =>
          -- all that is known of the buffer, for the turns that take nothing off it
          have hq : (∀ body more rest, takeBodies s.recvBuf ≠ .ok (body :: more, rest)) →
              Quiet t (.taking req conn) := by
            intro hnone
            refine ⟨nofun, ?_⟩
            intro req conn s' body more rest he hs'
            cases he
            cases hs.symm.trans hs'
            exact hnone body more rest
          dsimp only
          cases htake : takeBodies s.recvBuf with
          | error h => exact ⟨⟨rfl, rfl, rfl, rfl⟩, .quiet (hq (by rw [htake]; nofun)) rfl rfl⟩
          | ok r =>
              obtain ⟨bodies, rest⟩ := r
              cases bodies with
              | nil => exact ⟨⟨rfl, rfl, rfl, rfl⟩, .quiet (hq (by rw [htake]; nofun)) rfl rfl⟩
              | cons body more =>
                  dsimp only
                  rw [takeReply]
                  dsimp only
                  split_ifs with hgo
                  · exact ⟨⟨rfl, rfl, rfl, rfl⟩, .goesOn rfl hs htake hgo rfl rfl⟩
                  · exact ⟨⟨rfl, rfl, rfl, rfl⟩, .replied rfl hs htake hgo rfl rfl⟩
  | reading req conn =>
      rw [workerTurn]
      cases hs : t.session conn with
      | none =>
          refine ⟨⟨rfl, rfl, rfl, hsome⟩, .quiet ⟨?_, nofun⟩ hsame rfl⟩
          intro req conn s he hs'
          cases he
          rw [hs] at hs'
          cases hs'
      | some s =>
          have hq : s.reads.head? ≠ some .wantRead → Quiet t (.reading req conn) := by
            intro hread
            refine ⟨?_, nofun⟩
            intro req conn s' he hs'
            cases he
            cases hs.symm.trans hs'
            exact hread
          dsimp only
          rw [tryReadFrames]
          cases hr : s.reads with
          | nil => exact ⟨⟨rfl, rfl, rfl, hsome⟩, .quiet (hq (by rw [hr]; nofun)) hsame rfl⟩
          | cons r rs =>
              cases r with
              | bytes c => exact ⟨⟨rfl, rfl, rfl, rfl⟩, .quiet (hq (by rw [hr]; nofun)) rfl rfl⟩
              | wantRead => exact ⟨⟨rfl, rfl, rfl, rfl⟩, .again rfl hs (by rw [hr]; rfl) rfl rfl⟩
              | closed => exact ⟨⟨rfl, rfl, rfl, rfl⟩, .failed rfl hs (by rw [hr]; nofun) rfl rfl⟩
  | halted req h => exact ⟨⟨rfl, rfl, rfl, hsome⟩, .quiet ⟨nofun, nofun⟩ hsame rfl⟩
  | exited => exact ⟨⟨rfl, rfl, rfl, hsome⟩, .quiet ⟨nofun, nofun⟩ hsame rfl⟩

/-! ## What a call does -/

/-- A call leaves the worker alone, or starts it where CTRL mode begins; replies leave `ctrl_out` for
Studio only. -/
structure Kept (t : Tunnel) (a : Answer) (t' : Tunnel) : Prop where
  url : t'.url = t.url
  worker : (t'.ctrlMode = t.ctrlMode ∧ t'.ctrlWorker = t.ctrlWorker) ∨
    (t.ctrlMode = false ∧ t'.ctrlMode = true ∧ t'.ctrlWorker = some .waiting)
  out : handedOf (handedOver t a) ++ t'.ctrlOut = t.ctrlOut

theorem Kept.code {t t' : Tunnel} (rc : Int) (hurl : t'.url = t.url)
    (hmode : t'.ctrlMode = t.ctrlMode) (hworker : t'.ctrlWorker = t.ctrlWorker)
    (hout : t'.ctrlOut = t.ctrlOut) : Kept t (.code rc) t' :=
  ⟨hurl, Or.inl ⟨hmode, hworker⟩, hout⟩

theorem kept_open (t : Tunnel) (net : Network) (now : Nat) :
    Kept t (.code (bambuOpen t net now).1) (bambuOpen t net now).2 := by
  rw [bambuOpen]
  by_cases hscheme : t.url.scheme = .rtsps ∨ t.url.scheme = .rtsp
  · rw [if_pos hscheme, openRtsp]
    cases net.startRtsp t.url <;> exact .code _ rfl rfl rfl rfl
  · rw [if_neg hscheme]
    dsimp only
    generalize (if t.url.device = [] then none else some t.url.device) = serial
    cases net.dialTls t.url.host t.url.port serial <;> exact .code _ rfl rfl rfl rfl

theorem kept_startStream (t : Tunnel) : Kept t (.code (bambuStartStream t).1) (bambuStartStream t).2 := by
  rw [bambuStartStream]
  split
  · split
    · exact .code _ rfl rfl rfl rfl
    · split_ifs
      · exact .code _ rfl rfl rfl rfl
      · rw [sendAuth]
        split
        · exact .code _ rfl rfl rfl rfl
        · split <;> exact .code _ rfl rfl rfl rfl
  · split_ifs <;> exact .code _ rfl rfl rfl rfl

theorem kept_handshake {t t' : Tunnel} {seed : UInt32} {rc : Int}
    (h : startNativeCtrlHandshake t seed = .ok (rc, t')) : Kept t (.code rc) t' := by
  rw [startNativeCtrlHandshake] at h
  split at h
  · cases h
    exact .code _ rfl rfl rfl rfl
  · rename_i conn _
    -- the session that was there, or the new one
    have hnew : ∀ t₁, t₁ = (if t.tlSession.isNone then
        { t with tlSession := some ⟨seed, .notStarted, []⟩ } else t) →
        t₁.url = t.url ∧ t₁.ctrlMode = t.ctrlMode ∧ t₁.ctrlWorker = t.ctrlWorker ∧
          t₁.ctrlOut = t.ctrlOut := by
      intro t₁ ht₁
      rw [ht₁]
      split_ifs <;> exact ⟨rfl, rfl, rfl, rfl⟩
    dsimp only at h
    generalize (if t.tlSession.isNone then
      { t with tlSession := some ⟨seed, .notStarted, []⟩ } else t) = t₁ at h hnew
    obtain ⟨hurl, hmode, hworker, hout⟩ := hnew t₁ rfl
    split at h
    · cases h
      exact .code _ hurl hmode hworker hout
    · split at h
      · cases h
      · cases h
        exact .code _ hurl hmode hworker hout
      · cases h
        exact .code _ hurl hmode hworker hout
      · split_ifs at h with hctrl
        · cases h
          exact .code _ hurl hmode hworker hout
        · cases h
          refine ⟨hurl, Or.inr ⟨?_, rfl, rfl⟩, hout⟩
          rw [← hmode]
          exact Bool.eq_false_iff.2 hctrl

theorem readRtsp_frame (t : Tunnel) :
    (readRtsp t).2.url = t.url ∧ (readRtsp t).2.ctrlMode = t.ctrlMode ∧ (readRtsp t).2.ctrlWorker = t.ctrlWorker ∧
      (readRtsp t).2.ctrlOut = t.ctrlOut := by
  rw [readRtsp]
  split
  · exact ⟨rfl, rfl, rfl, rfl⟩
  · dsimp only
    split <;> exact ⟨rfl, rfl, rfl, rfl⟩

theorem kept_readSample {t t' : Tunnel} {now : Nat} {a : Answer}
    (h : bambuReadSample t now = .ok (a, t')) : Kept t a t' := by
  rw [bambuReadSample] at h
  by_cases hctrl : t.ctrlMode = true
  · rw [if_pos hctrl] at h
    split at h <;> cases h
    · exact .code _ rfl rfl rfl rfl
    · rename_i reply out hout
      refine ⟨rfl, Or.inl ⟨rfl, rfl⟩, ?_⟩
      rw [handedOver, if_pos hctrl, hout]
      rfl
  · -- out of CTRL mode a sample is no reply
    have hnone : handedOf (handedOver t a) = [] := by
      cases a <;> simp [handedOver, hctrl, handedOf]
    rw [if_neg hctrl] at h
    split_ifs at h with hscheme
    · obtain ⟨hurl, hmode, hworker, hout⟩ := readRtsp_frame t
      rw [Except.ok.inj h] at hurl hmode hworker hout
      refine ⟨hurl, Or.inl ⟨hmode, hworker⟩, ?_⟩
      rw [hnone]
      exact hout
    · split at h
      · cases h
        exact .code _ rfl rfl rfl rfl
      · rename_i conn _
        split at h
        · cases h
          exact .code _ rfl rfl rfl rfl
        · rename_i c _
          cases hread : readMjpeg t c now with
          | error e =>
              rw [hread] at h
              cases h
          | ok r =>
              rw [hread] at h
              cases h
              refine ⟨rfl, Or.inl ⟨rfl, rfl⟩, ?_⟩
              rw [hnone]
              rfl

theorem Tunnel.call_kept {t t' : Tunnel} {c : Call} {a : Answer} (h : t.call c = .ok (a, t')) :
    Kept t a t' := by
  cases c with
  | «open» net now =>
      cases h
      exact kept_open t net now
  | startStream =>
      cases h
      exact kept_startStream t
  | startStreamEx type seed =>
      rw [Tunnel.call, bambuStartStreamEx] at h
      split_ifs at h with htype
      · cases hh : startNativeCtrlHandshake t seed with
        | error e =>
            rw [hh] at h
            cases h
        | ok r =>
            rw [hh] at h
            cases h
            exact kept_handshake hh
      · cases h
        exact kept_startStream t
  | getStreamCount =>
      cases h
      exact .code _ rfl rfl rfl rfl
  | getStreamInfo index =>
      cases h
      exact ⟨rfl, Or.inl ⟨rfl, rfl⟩, rfl⟩
  | readSample now => exact kept_readSample h
  | sendMessage ctrl data =>
      cases h
      rw [bambuSendMessage]
      split_ifs <;> exact .code _ rfl rfl rfl rfl

/-! ## The record grows -/

@[simp] theorem sentOf_append (a b : List Report) : sentOf (a ++ b) = sentOf a ++ sentOf b :=
  List.filterMap_append

@[simp] theorem endedOf_append (a b : List Report) : endedOf (a ++ b) = endedOf a ++ endedOf b :=
  List.filterMap_append

@[simp] theorem pushedOf_append (a b : List Report) : pushedOf (a ++ b) = pushedOf a ++ pushedOf b :=
  List.filterMap_append

@[simp] theorem handedOf_append (a b : List Report) : handedOf (a ++ b) = handedOf a ++ handedOf b :=
  List.filterMap_append

@[simp] theorem sentOf_lost (bodies : List Bytes) : sentOf (bodies.map .lost) = [] := by
  simp [sentOf, List.filterMap_map]

theorem noneLost_append {sent : List Bytes} {a b : List Report} :
    NoneLost sent (a ++ b) ↔ NoneLost sent a ∧ NoneLost (sent ++ sentOf a) b := by
  induction a generalizing sent with
  | nil => simp [NoneLost, sentOf]
  | cons r a ih =>
      cases r with
      | forwarded req =>
          have hsent : sent ++ sentOf (.forwarded req :: a) = sent ++ [req] ++ sentOf a := by
            rw [List.append_assoc]
            rfl
          rw [hsent]
          exact ih
      | lost body =>
          refine Iff.trans ?_ and_assoc.symm
          exact and_congr_right fun _ => ih
      | sendFailed req => exact ih
      | pushed req body => exact ih
      | ended req why => exact ih
      | handed body => exact ih

theorem noneLost_lost {sent bodies : List Bytes} :
    NoneLost sent (bodies.map .lost) ↔ ∀ req ∈ sent, ∀ body ∈ bodies, answers req body = false := by
  induction bodies with
  | nil => simp [NoneLost]
  | cons body bodies ih =>
      rw [List.map_cons, NoneLost, ih]
      constructor
      · intro h req hreq b hb
        rcases List.mem_cons.1 hb with rfl | hb
        · exact h.1 req hreq
        · exact h.2 req hreq b hb
      · intro h
        refine ⟨?_, ?_⟩
        · intro req hreq
          exact h req hreq body List.mem_cons_self
        · intro req hreq b hb
          exact h req hreq b (List.mem_cons_of_mem _ hb)

/-- The phases on record ended properly, and nothing was lost. -/
structure Clean (sent : List Bytes) (log : List Report) : Prop where
  ends : ∀ req why, .ended req why ∈ log → ProperEnd req why
  noneLost : NoneLost sent log

theorem clean_append {sent : List Bytes} {a b : List Report} :
    Clean sent (a ++ b) ↔ Clean sent a ∧ Clean (sent ++ sentOf a) b := by
  constructor
  · intro h
    obtain ⟨ha, hb⟩ := noneLost_append.1 h.noneLost
    refine ⟨⟨?_, ha⟩, ⟨?_, hb⟩⟩
    · intro req why hm
      exact h.ends req why (List.mem_append_left _ hm)
    · intro req why hm
      exact h.ends req why (List.mem_append_right _ hm)
  · intro h
    refine ⟨?_, noneLost_append.2 ⟨h.1.noneLost, h.2.noneLost⟩⟩
    intro req why hm
    rcases List.mem_append.1 hm with hm | hm
    · exact h.1.ends req why hm
    · exact h.2.ends req why hm

/-- Nothing ends and nothing is lost in these reports. -/
theorem clean_of_none {sent : List Bytes} {log : List Report}
    (h : ∀ r ∈ log, (∀ req why, r ≠ .ended req why) ∧ ∀ body, r ≠ .lost body) : Clean sent log := by
  refine ⟨?_, ?_⟩
  · intro req why hm
    exact absurd rfl ((h _ hm).1 req why)
  · induction log generalizing sent with
    | nil => trivial
    | cons r log ih =>
        have hlog : ∀ sent, NoneLost sent log := fun sent =>
          ih fun r hr => h r (List.mem_cons_of_mem _ hr)
        have hr := h r List.mem_cons_self
        cases r with
        | lost body => exact absurd rfl (hr.2 body)
        | forwarded req => exact hlog _
        | sendFailed req => exact hlog _
        | pushed req body => exact hlog _
        | ended req why => exact hlog _
        | handed body => exact hlog _

/-! ## Every phase is on record -/

/-- What the record says of the worker, whatever the printer sends. -/
structure Booked (w : World) : Prop where
  mode : w.tunnel.ctrlMode = w.tunnel.ctrlWorker.isSome
  phases : sentOf w.log = endedOf w.log ++ pending w.tunnel.ctrlWorker
  pushed : ∀ req body, .ended req (.reply body) ∈ w.log → .pushed req body ∈ w.log
  handed : handedOf w.log ++ w.tunnel.ctrlOut = pushedOf w.log

theorem booked_start (url : TunnelUrl) : Booked (World.start url) := by
  refine ⟨rfl, rfl, ?_, rfl⟩
  intro req body h
  cases h

theorem allReplied_iff {w : World} (h : Booked w) : AllReplied w ↔ Clean [] w.log := by
  constructor
  · intro ha
    exact ⟨ha.ends, ha.noneLost⟩
  · intro hc
    refine ⟨hc.ends, hc.noneLost, ?_, h.pushed, h.handed⟩
    intro hw
    have hp := h.phases
    rw [hw] at hp
    simpa [pending] using hp

/-- What a turn does to the record. -/
theorem Booked.turned {w : World} (h : Booked w) {pc : Worker} (hpc : w.tunnel.ctrlWorker = some pc)
    {t' : Tunnel} {reports : List Report} (ht : Turned w.tunnel pc t' reports) :
    sentOf (w.log ++ reports) = endedOf (w.log ++ reports) ++ pending t'.ctrlWorker ∧
      (∀ req body, .ended req (.reply body) ∈ w.log ++ reports → .pushed req body ∈ w.log ++ reports) ∧
      handedOf (w.log ++ reports) ++ t'.ctrlOut = pushedOf (w.log ++ reports) := by
  have hphases := h.phases
  have hhanded := h.handed
  rw [hpc] at hphases
  -- a reply that ends a phase is in the reports before the end
  have hold : ∀ req body, .ended req (.reply body) ∈ w.log → .pushed req body ∈ w.log ++ reports :=
    fun req body hm => List.mem_append_left _ (h.pushed req body hm)
  have hpush : (∀ req body, .ended req (.reply body) ∈ reports → .pushed req body ∈ reports) →
      ∀ req body, .ended req (.reply body) ∈ w.log ++ reports → .pushed req body ∈ w.log ++ reports := by
    intro hnew req body hm
    rcases List.mem_append.1 hm with hm | hm
    · exact hold req body hm
    · exact List.mem_append_right _ (hnew req body hm)
  simp only [sentOf_append, endedOf_append, pushedOf_append, handedOf_append]
  cases ht with
  | quiet hq hp hout =>
      refine ⟨?_, hpush (by simp), ?_⟩
      · rw [hphases, hp]
        simp [sentOf, endedOf]
      · simpa [handedOf, pushedOf, hout] using hhanded
  | unsent hreq hp hout =>
      subst hreq
      refine ⟨?_, hpush (by simp), ?_⟩
      · rw [hphases, hp]
        simp [sentOf, endedOf, pending]
      · simpa [handedOf, pushedOf, hout] using hhanded
  | sent hreq hp hout =>
      subst hreq
      refine ⟨?_, hpush (by simp), ?_⟩
      · rw [hphases, hp]
        simp [sentOf, endedOf, pending]
      · simpa [handedOf, pushedOf, hout] using hhanded
  | goesOn hreq hs htake hgo hp hout =>
      subst hreq
      refine ⟨?_, hpush (by simp), ?_⟩
      · rw [hphases, hp]
        simp [sentOf, endedOf, pending]
      · rw [hout, ← hhanded]
        simp [handedOf, pushedOf]
  | replied hreq hs htake hend hp hout =>
      subst hreq
      refine ⟨?_, hpush ?_, ?_⟩
      · rw [hphases, hp]
        simp [sentOf, endedOf, pending]
      · intro req body hm
        simpa using hm
      · rw [hout, ← hhanded]
        simp [handedOf, pushedOf]
  | again hreq hs hread hp hout =>
      subst hreq
      refine ⟨?_, hpush (by simp), ?_⟩
      · rw [hphases, hp]
        simp [sentOf, endedOf, pending]
      · simpa [handedOf, pushedOf, hout] using hhanded
  | failed hreq hs hread hp hout =>
      subst hreq
      refine ⟨?_, hpush (by simp), ?_⟩
      · rw [hphases, hp]
        simp [sentOf, endedOf, pending]
      · simpa [handedOf, pushedOf, hout] using hhanded

theorem handedOver_only {t : Tunnel} {a : Answer} {r : Report} (h : r ∈ handedOver t a) :
    ∃ body, r = .handed body := by
  unfold handedOver at h
  split at h
  · split_ifs at h
    · exact ⟨_, List.mem_singleton.1 h⟩
    · cases h
  · cases h

theorem Booked.call {w : World} (h : Booked w) {a : Answer} {t' : Tunnel} (hk : Kept w.tunnel a t') :
    Booked { w with tunnel := t', log := w.log ++ handedOver w.tunnel a } := by
  have honly : ∀ r ∈ handedOver w.tunnel a, ∃ body, r = .handed body := fun r hr => handedOver_only hr
  have hnone : sentOf (handedOver w.tunnel a) = [] ∧ endedOf (handedOver w.tunnel a) = [] ∧
      pushedOf (handedOver w.tunnel a) = [] := by
    refine ⟨?_, ?_, ?_⟩
    all_goals
      apply List.filterMap_eq_nil_iff.2
      intro r hr
      obtain ⟨body, rfl⟩ := honly r hr
      rfl
  obtain ⟨hsent, hended, hpushed⟩ := hnone
  have hpending : pending t'.ctrlWorker = pending w.tunnel.ctrlWorker := by
    rcases hk.worker with ⟨-, hworker⟩ | ⟨hoff, -, hworker⟩
    · rw [hworker]
    · -- there was no worker before
      have hmode := h.mode
      rw [hoff] at hmode
      rw [hworker, Option.isNone_iff_eq_none.1 (Option.isSome_eq_false_iff.1 hmode.symm)]
      rfl
  refine ⟨?_, ?_, ?_, ?_⟩
  · show t'.ctrlMode = t'.ctrlWorker.isSome
    rcases hk.worker with ⟨hmode, hworker⟩ | ⟨-, hon, hworker⟩
    · rw [hmode, hworker]
      exact h.mode
    · rw [hon, hworker]
      rfl
  · show sentOf (_ ++ _) = endedOf (_ ++ _) ++ pending t'.ctrlWorker
    rw [sentOf_append, endedOf_append, hsent, hended, hpending, List.append_nil, List.append_nil]
    exact h.phases
  · intro req body hm
    rcases List.mem_append.1 hm with hm | hm
    · exact List.mem_append_left _ (h.pushed req body hm)
    · obtain ⟨b, hb⟩ := honly _ hm
      cases hb
  · show handedOf (_ ++ _) ++ t'.ctrlOut = pushedOf (_ ++ _)
    rw [handedOf_append, pushedOf_append, hpushed, List.append_nil, List.append_assoc, hk.out]
    exact h.handed

/-- A step that leaves the worker, its queue of replies and the record alone. -/
theorem Booked.same {w : World} (h : Booked w) {t' : Tunnel} (closer : Closer)
    (hmode : t'.ctrlMode = w.tunnel.ctrlMode) (hworker : t'.ctrlWorker = w.tunnel.ctrlWorker)
    (hout : t'.ctrlOut = w.tunnel.ctrlOut) : Booked { w with tunnel := t', closer := closer } := by
  refine ⟨?_, ?_, h.pushed, ?_⟩
  · show t'.ctrlMode = t'.ctrlWorker.isSome
    rw [hmode, hworker]
    exact h.mode
  · show sentOf w.log = endedOf w.log ++ pending t'.ctrlWorker
    rw [hworker]
    exact h.phases
  · show handedOf w.log ++ t'.ctrlOut = pushedOf w.log
    rw [hout]
    exact h.handed

/-- Closing comes behind the join, so there is no phase under way. -/
theorem Booked.closed {w : World} (h : Booked w) (hj : Joinable w.tunnel) (destroy : Bool) :
    Booked (w.closed destroy) := by
  have hnone : (stopped w.tunnel).ctrlMode = (stopped w.tunnel).ctrlWorker.isSome ∧
      pending (stopped w.tunnel).ctrlWorker = pending w.tunnel.ctrlWorker ∧
      (stopped w.tunnel).ctrlOut = w.tunnel.ctrlOut := by
    unfold stopped
    split_ifs
    · rcases hj with hw | hw <;> exact ⟨rfl, (congrArg pending hw).symm, rfl⟩
    · exact ⟨h.mode, rfl, rfl⟩
  obtain ⟨hmode, hpending, hout⟩ := hnone
  refine ⟨hmode, ?_, h.pushed, ?_⟩
  · show sentOf w.log = endedOf w.log ++ pending (stopped w.tunnel).ctrlWorker
    rw [hpending]
    exact h.phases
  · show handedOf w.log ++ (stopped w.tunnel).ctrlOut = pushedOf w.log
    rw [hout]
    exact h.handed

theorem Booked.step {w : World} (h : Booked w) (e : Event) : Booked (w.step e) := by
  cases e with
  | call c =>
      rw [World.step]
      split_ifs
      · split
        · exact h
        · rename_i a t hc
          exact h.call (Tunnel.call_kept hc)
      · exact h
  | close destroy =>
      rw [World.step]
      split_ifs with hidle hctrl
      · exact h.same _ rfl rfl rfl
      · apply h.closed
        left
        have hmode := h.mode
        rw [Bool.eq_false_iff.2 hctrl] at hmode
        exact Option.isNone_iff_eq_none.1 (Option.isSome_eq_false_iff.1 hmode.symm)
      · exact h
  | joined =>
      rw [World.step]
      split
      · split_ifs with hj
        · exact h.closed hj _
        · exact h
      · exact h
  | turn =>
      rw [World.step]
      split
      · exact h
      · rename_i pc hpc
        obtain ⟨hframe, ht⟩ := workerTurn_spec hpc
        obtain ⟨hphases, hpushed, hhanded⟩ := h.turned hpc ht
        refine ⟨?_, hphases, hpushed, hhanded⟩
        show (workerTurn w.tunnel pc).1.ctrlMode = _
        rw [hframe.mode, hframe.thread, h.mode, hpc]
        rfl
  | arrive conn r => exact h.same _ rfl rfl rfl
  | produce ns => exact h.same _ rfl rfl rfl

/-! ## When replies are in turn -/

theorem inTurn_taking {w : World} {req body rest : Bytes} {conn : Nat} {s : Session}
    {more : List Bytes} (hpc : w.tunnel.ctrlWorker = some (.taking req conn))
    (hs : w.tunnel.session conn = some s) (htake : takeBodies s.recvBuf = .ok (body :: more, rest)) :
    RepliesInTurn w .turn ↔
      (parseWireResult body = kResContinue ∨ isFinal req body = true) ∧
        ∀ req ∈ sentOf w.log, ∀ body ∈ more, answers req body = false := by
  constructor
  · intro h
    exact h.2 req conn s body more rest hpc hs htake
  · intro h
    refine ⟨?_, ?_⟩
    · intro req' conn' s' hpc'
      rw [hpc] at hpc'
      cases hpc'
    · intro req' conn' s' body' more' rest' hpc' hs' htake'
      cases hpc.symm.trans hpc'
      cases hs.symm.trans hs'
      cases htake.symm.trans htake'
      exact h

theorem inTurn_reading {w : World} {req : Bytes} {conn : Nat} {s : Session}
    (hpc : w.tunnel.ctrlWorker = some (.reading req conn)) (hs : w.tunnel.session conn = some s) :
    RepliesInTurn w .turn ↔ s.reads.head? ≠ some .wantRead := by
  constructor
  · intro h
    exact h.1 req conn s hpc hs
  · intro h
    refine ⟨?_, ?_⟩
    · intro req' conn' s' hpc' hs'
      cases hpc.symm.trans hpc'
      cases hs.symm.trans hs'
      exact h
    · intro req' conn' s' body more rest hpc'
      rw [hpc] at hpc'
      cases hpc'

/-- Where the worker is not receiving, there is nothing to be in turn. -/
theorem inTurn_quiet {w : World} {pc : Worker} (hpc : w.tunnel.ctrlWorker = some pc)
    (hq : Quiet w.tunnel pc) : RepliesInTurn w .turn := by
  refine ⟨?_, ?_⟩
  · intro req conn s hpc' hs
    exact hq.reading (Option.some.inj (hpc.symm.trans hpc')) hs
  · intro req conn s body more rest hpc' hs htake
    exact absurd htake (hq.taking (Option.some.inj (hpc.symm.trans hpc')) hs)

theorem clean_lost_append {sent more : List Bytes} {reports : List Report} :
    Clean sent (more.map .lost ++ reports) ↔
      (∀ req ∈ sent, ∀ body ∈ more, answers req body = false) ∧ Clean sent reports := by
  have hends : ∀ req why, .ended req why ∈ more.map Report.lost → ProperEnd req why := by
    intro req why hm
    simp at hm
  rw [clean_append, sentOf_lost, List.append_nil, ← noneLost_lost]
  exact and_congr_left fun _ => ⟨fun h => h.noneLost, fun h => ⟨hends, h⟩⟩

/-- A turn keeps the record clean exactly if what comes in it is in turn. -/
theorem clean_turn {w : World} {pc : Worker} (hpc : w.tunnel.ctrlWorker = some pc) {t' : Tunnel}
    {reports : List Report} (ht : Turned w.tunnel pc t' reports) :
    Clean (sentOf w.log) reports ↔ RepliesInTurn w .turn := by
  cases ht with
  | quiet hq hp hout => exact iff_of_true (clean_of_none (by simp)) (inTurn_quiet hpc hq)
  | unsent hreq hp hout =>
      subst hreq
      exact iff_of_true (clean_of_none (by simp)) (inTurn_quiet hpc ⟨nofun, nofun⟩)
  | sent hreq hp hout =>
      subst hreq
      exact iff_of_true (clean_of_none (by simp)) (inTurn_quiet hpc ⟨nofun, nofun⟩)
  | goesOn hreq hs htake hgo hp hout =>
      subst hreq
      rw [inTurn_taking hpc hs htake, clean_lost_append, and_iff_right (Or.inl hgo)]
      exact and_iff_left (clean_of_none (by simp))
  | @replied req body rest conn s more hreq hs htake hend hp hout =>
      subst hreq
      rw [inTurn_taking hpc hs htake, clean_lost_append, and_comm]
      refine and_congr_left fun _ => ?_
      rw [or_iff_right hend]
      constructor
      · intro h
        exact h.ends req (.reply body) (by simp)
      · intro h
        refine ⟨?_, trivial⟩
        intro req' why hm
        simp only [List.mem_cons, reduceCtorEq, Report.ended.injEq, List.not_mem_nil, or_false,
          false_or] at hm
        obtain ⟨rfl, rfl⟩ := hm
        exact h
  | @again req conn s hreq hs hread hp hout =>
      subst hreq
      rw [inTurn_reading hpc hs]
      refine iff_of_false ?_ (absurd hread)
      intro h
      exact h.ends req .again (List.mem_singleton_self _)
  | @failed req conn s hreq hs hread hp hout =>
      subst hreq
      rw [inTurn_reading hpc hs]
      refine iff_of_true ⟨?_, trivial⟩ hread
      intro req' why hm
      cases List.mem_singleton.1 hm
      trivial

/-- One step keeps the law exactly if it is in turn. -/
theorem Booked.step_iff {w : World} (h : Booked w) (ha : AllReplied w) (e : Event) :
    AllReplied (w.step e) ↔ RepliesInTurn w e := by
  rw [allReplied_iff (h.step e)]
  have hclean := (allReplied_iff h).1 ha
  cases e with
  | call c =>
      refine iff_of_true ?_ trivial
      rw [World.step]
      split_ifs
      · split
        · exact hclean
        · refine clean_append.2 ⟨hclean, clean_of_none ?_⟩
          intro r hr
          obtain ⟨body, rfl⟩ := handedOver_only hr
          exact ⟨nofun, nofun⟩
      · exact hclean
  | close destroy =>
      refine iff_of_true ?_ trivial
      rw [World.step]
      split_ifs <;> exact hclean
  | joined =>
      refine iff_of_true ?_ trivial
      rw [World.step]
      split
      · split_ifs <;> exact hclean
      · exact hclean
  | turn =>
      rw [World.step]
      split
      · rename_i hnone
        refine iff_of_true hclean ⟨?_, ?_⟩
        · intro req conn s hpc
          rw [hnone] at hpc
          cases hpc
        · intro req conn s body more rest hpc
          rw [hnone] at hpc
          cases hpc
      · rename_i pc hpc
        rw [clean_append, and_iff_right hclean]
        exact clean_turn hpc (workerTurn_spec hpc).2
  | arrive conn r => exact iff_of_true hclean trivial
  | produce ns => exact iff_of_true hclean trivial

theorem allReplied_start (url : TunnelUrl) : AllReplied (World.start url) :=
  (allReplied_iff (booked_start url)).2 ⟨nofun, trivial⟩

/-- Whatever the order of calls, turns and arriving bytes, every receive phase ends as it should and
every reply reaches Studio exactly if what comes is in turn at every step. -/
theorem all_replied_iff (url : TunnelUrl) (run : List Event) :
    InEveryState World.step AllReplied (World.start url) run ↔
      AtEveryStep World.step RepliesInTurn (World.start url) run :=
  inEveryState_iff (fun _ e h => h.step e) (fun _ e h ha => h.step_iff ha e) (booked_start url)
    (allReplied_start url) run

/-- Any dial comes through, and the writes too. -/
def anyPrinter : Network where
  dialTls := fun _ _ _ => some []
  startRtsp := fun _ => none

/-- The handshake with a printer that answers at once. -/
def ctrlReady : List Event :=
  [.call (.open anyPrinter 0), .call (.startStreamEx kCtrlType 1),
    .arrive 0 (.bytes ⟨loginAck.encode, exactCodec.encode_ne_nil _, loginAck_short⟩),
    .call (.startStreamEx kCtrlType 1),
    .arrive 0 (.bytes ⟨setupReply.encode, exactCodec.encode_ne_nil _, setupReply_short⟩),
    .call (.startStreamEx kCtrlType 1)]

/-- Two requests, with the sequences 7 and 8. -/
def request7 : Bytes := ascii "\x7b\"cmdtype\":1,\"sequence\":7\x7d"

def request8 : Bytes := ascii "\x7b\"cmdtype\":1,\"sequence\":8\x7d"

/-- A frame that the printer sends on its own. -/
def notification : Frame where
  magic := kMagicCtrlServer
  seq := 2
  payload := ascii "\x7b\"cmdtype\":9\x7d"
  fits := by decide

def reply7 : Frame where
  magic := kMagicCtrlServer
  seq := 3
  payload := ascii "\x7b\"cmdtype\":1,\"result\":0,\"sequence\":7\x7d"
  fits := by decide

/-- The worker sends a request, finds no frame in the buffer and reads one. -/
def exchange (req : Bytes) (c : Chunk) : List Event :=
  [.call (.sendMessage kCtrlType req), .turn, .turn, .turn, .arrive 0 (.bytes c), .turn, .turn]

/-- The notification comes in front of the reply. -/
def lagging : List Event :=
  ctrlReady ++ exchange request7 ⟨notification.encode, by decide, by decide⟩ ++
    exchange request8 ⟨reply7.encode, by decide, by decide⟩

theorem lagging_log :
    (after World.step (World.start {}) lagging).log =
      [.forwarded request7, .pushed request7 notification.payload,
        .ended request7 (.reply notification.payload), .forwarded request8,
        .pushed request8 reply7.payload, .ended request8 (.reply reply7.payload)] := by
  decide +kernel

/-- From there on every reply comes one request late. -/
theorem all_replied_fails : ¬ InEveryState World.step AllReplied (World.start {}) lagging := by
  intro h
  have hends := (h lagging [] (by simp)).ends request8 (.reply reply7.payload)
    (by rw [lagging_log]; simp)
  have hfinal : isFinal request8 reply7.payload = false := by decide +kernel
  rw [ProperEnd, hfinal] at hends
  cases hends

end OpenBambu.Source
