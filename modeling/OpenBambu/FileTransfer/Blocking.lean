import OpenBambu.Foundation.Run
import OpenBambu.FileTransfer.Jobs
import OpenBambu.Tunnel.Ready
import OpenBambu.Upload.Download

/-!
# Jobs that wait for the printer

The job threads of `abi_ft.cpp` at their reads. A job holds `lan_mu` from its connect to its last
frame. While it connects the socket has a time-out; behind that it has none, so that a read returns
when something has arrived. `run_download` looks at the cancel flag in front of every frame, the
ability job never does, and `ft_tunnel_shutdown` takes `lan_mu` before it disconnects. `io_mu` is
taken under `lan_mu` only, so no thread waits for it.
-/

namespace OpenBambu.FileTransfer.Blocking

open OpenBambu.Foundation OpenBambu.Tunnel
open OpenBambu.Upload (Connection DownloadRequest AbilityOutcome sendDownload sendAbility abilityAnswer resultOf)

/-! ## Threads -/

/-- What `connect_params` takes from a LAN URL, beside where it points. -/
structure LanUrl where
  user : Bytes := ascii "bblp"
  password : Bytes := []
  cliId : Bytes := []
  cliVer : Bytes := []
  netVer : Bytes := []

/-- `uuid` is what `random_uuid` returns, `version` is `OBN_VERSION_STRING`. -/
def sessionCfg (lan : LanUrl) (uuid version : Bytes) : Config where
  username := lan.user
  accessCode := lan.password
  clientId := if lan.cliId = [] then uuid else lan.cliId
  clientVer :=
    if lan.cliVer ≠ [] then lan.cliVer else if lan.netVer ≠ [] then lan.netVer else version

/-- The parameters of a job. -/
structure Job where
  cmdType : Int
  downloadPath : Bytes := []
  targetPath : Bytes := []

inductive Caller where
  | ability
  | download (req : DownloadRequest)
  | upload
  /-- A job whose `cmd_type` is unknown. -/
  | unknown
  /-- `ft_tunnel_start_connect` and `ft_tunnel_sync_connect`. -/
  | connect
  | shutdown

/-- The switch of `spawn_job`. -/
def Job.caller (j : Job) : Caller :=
  if j.cmdType = kCmdTypeMediaAbility then .ability
  else if j.cmdType = kCmdTypeUpload then .upload
  else if j.cmdType = kCmdTypeDownload then .download ⟨j.downloadPath, j.targetPath⟩
  else .unknown

/-- The jobs that receive without a time-out. -/
def Caller.listens : Caller → Bool
  | .ability => true
  | .download _ => true
  | _ => false

deriving instance DecidableEq for Config

inductive Phase where
  /-- At `lan_mu`. -/
  | waiting
  /-- In `dial_tls`. -/
  | dialing
  /-- In the loop around `handshake_step`, with that many attempts left. -/
  | handshaking (cfg : Config) (left : Nat)
  | sending
  /-- In front of the next frame of a download. -/
  | polling
  /-- In `recv_payload`, at its buffer. -/
  | taking
  /-- In `SSL_read`. -/
  | reading
  | uploading
  /-- A loop that does not come back. -/
  | halted (h : Halt)
  | done
  deriving DecidableEq

/-- What `deliver_result` is given. -/
structure JobResult where
  ec : Int
  respEc : Int
  json : Bytes
  bin : Bytes
  deriving DecidableEq

structure Thread where
  caller : Caller
  cancelled : Bool
  /-- `ft_tunnel_shutdown` was called since the thread started. -/
  shut : Bool := false
  phase : Phase := .waiting
  out : Upload.DownloadOutcome := {}
  result : Option JobResult := none

structure World where
  lan : LanUrl
  version : Bytes
  conn : Connection
  abilityProbed : Bool
  abilityCache : Bytes
  lanMu : Option Nat
  threads : List Thread

def World.start (lan : LanUrl) (version : Bytes) : World :=
  ⟨lan, version, ⟨none, 1⟩, false, [], none, []⟩

/-! ## Turns -/

/-- A connection that `dial_tls` made: how its writes will end, and what `rand` and `random_uuid`
return. -/
structure Dial where
  writes : List (Option Nat)
  seed : UInt32
  uuid : Bytes

/-- What comes from outside in a turn: how a dial ends, and what a piece of an upload does with the
session and whether it is the last one. -/
structure Outside where
  dial : Option Dial := none
  upload : Session → Session × Option JobResult := fun s => (s, none)

def failedResult : JobResult := ⟨ FT_EIO, 0, [], []⟩

/-- What is delivered of a download. -/
def downloadResult (out : Upload.DownloadOutcome) : JobResult :=
  if out.ok then ⟨0, out.wireResult, out.jsonBody, out.data⟩
  else if out.error = some .cancelled then ⟨FT_ECANCELLED, 0, [], []⟩
  else ⟨ FT_EIO, if 0 ≤ out.wireResult then out.wireResult else 0, [], []⟩

def World.put (w : World) (id : Nat) (th : Thread) : World := { w with threads := w.threads.set id th }

def World.session (w : World) (s : Session) : World := { w with conn := { w.conn with session := some s } }

/-- The thread goes on with `lan_mu` held. -/
def World.goto (w : World) (id : Nat) (th : Thread) (phase : Phase) : World :=
  { w.put id { th with phase := phase } with lanMu := some id }

/-- The thread gives `lan_mu` back and delivers its result. -/
def World.leave (w : World) (id : Nat) (th : Thread) (result : Option JobResult) : World :=
  { w.put id { th with phase := .done, result := result } with lanMu := none }

/-- `Connection::disconnect`. -/
def World.disconnect (w : World) : World := { w with conn := { w.conn with session := none } }

/-- Behind a `connect_lan_tunnel` that has a connection. -/
def World.connected (w : World) (id : Nat) (th : Thread) : World :=
  match th.caller with
  | .ability => w.goto id th .sending
  | .download _ => w.goto id th .sending
  | .upload => w.goto id th .uploading
  | _ => w.leave id th none

/-- Behind one that has none. -/
def World.connectFailed (w : World) (id : Nat) (th : Thread) : World :=
  match th.caller with
  | .connect => w.disconnect.leave id th none
  | _ => w.disconnect.leave id th (some failedResult)

def World.connectLanTunnel (w : World) (id : Nat) (th : Thread) : World :=
  if w.conn.session.isSome then w.connected id th else w.goto id th .dialing

/-- With `lan_mu` taken. -/
def World.enter (w : World) (id : Nat) (th : Thread) : World :=
  match th.caller with
  | .shutdown => w.disconnect.leave id th none
  | .ability =>
      if w.abilityProbed then w.leave id th (some ⟨0, 0, w.abilityCache, []⟩)
      else w.connectLanTunnel id th
  | _ => w.connectLanTunnel id th

/-- `handshake_step` with a time-out of 3000 ms, which reads as `WANT_READ`. -/
def timedStep (cfg : Config) (s : Session) : Except Halt (StepCode × Session) :=
  (handshakeStep cfg { s with reads := s.reads ++ [.wantRead] }).map fun r =>
    (r.1, { r.2 with reads := r.2.reads.dropLast })

def World.handshake (w : World) (id : Nat) (th : Thread) (s : Session) (cfg : Config) (left : Nat) :
    World :=
  match timedStep cfg s with
  | .error h => w.goto id th (.halted h)
  | .ok (.failed, s) => (w.session s).connectFailed id th
  | .ok (.more, s) => (w.session s).goto id th (.handshaking cfg left)
  | .ok (.done, s) => (w.session s).connected id th

/-- The request of a job goes out. -/
def World.send (w : World) (id : Nat) (th : Thread) (s : Session) : World :=
  let seq := w.conn.wireSeq
  let w := { w with conn := { w.conn with wireSeq := seq + 1 } }
  match th.caller with
  | .ability =>
      match sendAbility seq s with
      | .error (_, s) => (w.session s).leave id th (some failedResult)
      | .ok s => (w.session s).goto id th .taking
  | .download req =>
      match sendDownload seq req s with
      | .error h => w.goto id th (.halted h)
      | .ok (.error (out, s)) => (w.session s).leave id th (some (downloadResult out))
      | .ok (.ok s) => (w.session s).goto id th .polling
  | _ => w.leave id th none

/-- A body off the buffer. -/
def World.receive (w : World) (id : Nat) (th : Thread) (body : Bytes) : World :=
  match th.caller with
  | .download _ =>
      let out := th.out.absorb body
      if resultOf body = 1 then w.goto id { th with out := out } .polling
      else w.leave id { th with out := out } (some (downloadResult (out.finish body)))
  | _ =>
      let out := abilityAnswer body
      if out.ok then
        World.leave { w with abilityProbed := true, abilityCache := out.jsonBody } id th
          (some ⟨0, 0, out.jsonBody, []⟩)
      else w.leave id th (some failedResult)

/-- `recv_payload` has come back with an error. -/
def World.ioFailed (w : World) (id : Nat) (th : Thread) : World :=
  match th.caller with
  | .download _ => w.leave id th (some (downloadResult { th.out with error := some .io }))
  | _ => w.leave id th (some failedResult)

/-- One turn of a thread. -/
def World.turn (w : World) (id : Nat) (th : Thread) (o : Outside) : World :=
  match th.phase, w.conn.session with
  | .waiting, _ => if w.lanMu = none then w.enter id th else w
  | .dialing, _ =>
      match o.dial with
      | none => w.connectFailed id th
      | some d =>
          (w.session ⟨d.seed, .notStarted, [], [], d.writes, []⟩).goto id th
            (.handshaking (sessionCfg w.lan d.uuid w.version) 64)
  | .handshaking _ 0, _ => w.connectFailed id th
  | .handshaking cfg (left + 1), some s => w.handshake id th s cfg left
  | .sending, some s => w.send id th s
  | .polling, _ =>
      if th.cancelled then
        w.leave id th (some (downloadResult { th.out with error := some .cancelled }))
      else w.goto id th .taking
  | .taking, some s =>
      match takeBodies s.recvBuf with
      | .error h => w.goto id th (.halted h)
      | .ok ([], rest) => (w.session { s with recvBuf := rest }).goto id th .reading
      | .ok (body :: _, rest) => (w.session { s with recvBuf := rest }).receive id th body
  | .reading, some s =>
      match tryReadFrames s with
      | .error _ => w
      | .ok (.failed, s) => (w.session s).ioFailed id th
      | .ok (_, s) => (w.session s).goto id th .taking
  | .uploading, some s =>
      match o.upload s with
      | (s, none) => (w.session s).goto id th .uploading
      | (s, some r) => (w.session s).leave id th (some r)
  | _, _ => w

/-! ## Runs -/

inductive Event where
  /-- `ft_tunnel_start_job`, for a job that was cancelled before or not. -/
  | start (j : Job) (cancelled : Bool)
  | connect
  /-- `ft_tunnel_shutdown` is called. -/
  | shutdown
  /-- `ft_job_cancel` for the job of the thread. -/
  | cancel (id : Nat)
  | turn (id : Nat) (o : Outside)
  /-- The printer or the network on the connection. -/
  | arrive (r : Read)

def World.spawn (w : World) (th : Thread) : World := { w with threads := w.threads ++ [th] }

def World.step (w : World) : Event → World
  | .start j cancelled =>
      match j.caller with
      | .unknown =>
          w.spawn
            { caller := .unknown, cancelled := cancelled, phase := .done, result := some failedResult }
      | caller => w.spawn { caller := caller, cancelled := cancelled }
  | .connect => w.spawn { caller := .connect, cancelled := false }
  | .shutdown =>
      World.spawn { w with threads := w.threads.map fun th => { th with shut := true } }
        { caller := .shutdown, cancelled := false }
  | .cancel id => { w with threads := w.threads.modify id fun th => { th with cancelled := true } }
  | .turn id o =>
      match w.threads[id]? with
      | none => w
      | some th => w.turn id th o
  | .arrive r =>
      match w.conn.session with
      | none => w
      | some s => w.session { s with reads := s.reads ++ [r] }

/-- The thread is in a read, and nothing has arrived. -/
def WaitsForPrinter (w : World) (id : Nat) : Prop :=
  ∃ th s, w.threads[id]? = some th ∧ th.phase = .reading ∧ w.conn.session = some s ∧ s.reads = []

def WaitsForLock (w : World) (id : Nat) : Prop :=
  ∃ th holder, w.threads[id]? = some th ∧ th.phase = .waiting ∧ w.lanMu = some holder ∧
    WaitsForPrinter w holder

/-- An unfinished job was cancelled or the tunnel shut down under it, or a shutdown has not come
through yet. -/
def Asked (w : World) : Prop :=
  ∃ (id : Nat) (th : Thread), w.threads[id]? = some th ∧ th.phase ≠ .done ∧
    (th.caller.listens = true ∧ (th.cancelled = true ∨ th.shut = true) ∨ th.caller = .shutdown)

/-- It stays so: every thread waits for the printer, or for the mutex of one that does. -/
def Stuck (w : World) : Prop :=
  Asked w ∧ ∀ (id : Nat) (th : Thread), w.threads[id]? = some th → th.phase ≠ .done →
    WaitsForPrinter w id ∨ WaitsForLock w id

/-- Some thread waits for a printer that has sent nothing. -/
def Waits (w : World) : Prop := ∃ id, WaitsForPrinter w id

/-- In its turn the thread goes into a read for which nothing has arrived. -/
def EntersRead (w : World) (th : Thread) : Prop :=
  th.phase = .taking ∧ ∃ s rest, w.conn.session = some s ∧ takeBodies s.recvBuf = .ok ([], rest) ∧
    s.reads = []

/-- Nothing is cancelled or shut down while a thread waits for the printer, and no thread goes to
wait for it while a job is cancelled or a shutdown called. -/
def Attended (w : World) : Event → Prop
  | .start j cancelled => j.caller.listens = true → cancelled = true → ¬ Waits w
  | .shutdown => ¬ Waits w
  | .cancel id => ∀ th, w.threads[id]? = some th → th.caller.listens = true → th.phase ≠ .done →
      ¬ Waits w
  | .turn id _ => ∀ th, w.threads[id]? = some th → EntersRead w th → ¬ Asked w
  | _ => True

/-! ## What a turn does -/

def Phase.inside : Phase → Bool
  | .waiting => false
  | .done => false
  | _ => true

/-- What a turn leaves of a thread. -/
structure KeptThread (th th' : Thread) : Prop where
  caller : th'.caller = th.caller
  cancelled : th'.cancelled = th.cancelled
  shut : th'.shut = th.shut

theorem KeptThread.refl (th : Thread) : KeptThread th th := ⟨rfl, rfl, rfl⟩

/-- The thread has the mutex, or waits for it and nobody has it. -/
def MayGo (w : World) (th : Thread) : Prop :=
  th.phase.inside = true ∨ th.phase = .waiting ∧ w.lanMu = none

/-- The read is that of a `recv_payload` whose buffer holds no frame. -/
def ReadsOn (w : World) (th : Thread) (w' : World) : Prop :=
  th.phase = .taking ∧ ∃ s rest, w.conn.session = some s ∧ takeBodies s.recvBuf = .ok ([], rest) ∧
    w'.conn.session = some { s with recvBuf := rest }

/-- A turn does nothing, or it ends the thread, or it leaves it with the mutex. -/
inductive Turned (w : World) (id : Nat) (th : Thread) : World → Prop
  | stays : Turned w id th w
  | leaves {w' : World} {th' : Thread} (hgo : MayGo w th) (hkept : KeptThread th th')
      (hthreads : w'.threads = w.threads.set id th') (hdone : th'.phase = .done)
      (hmu : w'.lanMu = none) : Turned w id th w'
  | holds {w' : World} {th' : Thread} (hgo : MayGo w th) (hkept : KeptThread th th')
      (hthreads : w'.threads = w.threads.set id th') (hinside : th'.phase.inside = true)
      (hmu : w'.lanMu = some id) (hread : th'.phase = .reading → ReadsOn w th w') : Turned w id th w'

section Turns

variable {w w₀ : World} {id : Nat} {th th₀ : Thread}

theorem leave_turned (hgo : MayGo w th) (hkept : KeptThread th th₀) (hthreads : w₀.threads = w.threads)
    (result : Option JobResult) : Turned w id th (w₀.leave id th₀ result) := by
  have hdone : KeptThread th { th₀ with phase := .done, result := result } :=
    ⟨hkept.caller, hkept.cancelled, hkept.shut⟩
  exact .leaves hgo hdone (congrArg (List.set · id _) hthreads) rfl rfl

theorem goto_turned (hgo : MayGo w th) (hkept : KeptThread th th₀) (hthreads : w₀.threads = w.threads)
    {phase : Phase} (hinside : phase.inside = true)
    (hread : phase = .reading → ReadsOn w th (w₀.goto id th₀ phase)) :
    Turned w id th (w₀.goto id th₀ phase) := by
  have hphase : KeptThread th { th₀ with phase := phase } := ⟨hkept.caller, hkept.cancelled, hkept.shut⟩
  exact .holds hgo hphase (congrArg (List.set · id _) hthreads) hinside rfl hread

theorem connected_turned (hgo : MayGo w th) (hthreads : w₀.threads = w.threads) :
    Turned w id th (w₀.connected id th) := by
  rw [World.connected]
  split
  · exact goto_turned hgo (.refl th) (by exact hthreads) rfl nofun
  · exact goto_turned hgo (.refl th) (by exact hthreads) rfl nofun
  · exact goto_turned hgo (.refl th) (by exact hthreads) rfl nofun
  · exact leave_turned hgo (.refl th) (by exact hthreads) none

theorem connectFailed_turned (hgo : MayGo w th) (hthreads : w₀.threads = w.threads) :
    Turned w id th (w₀.connectFailed id th) := by
  rw [World.connectFailed]
  split
  · exact leave_turned hgo (.refl th) (by exact hthreads) none
  · exact leave_turned hgo (.refl th) (by exact hthreads) _

theorem connectLanTunnel_turned (hgo : MayGo w th) : Turned w id th (w.connectLanTunnel id th) := by
  rw [World.connectLanTunnel]
  split_ifs
  · exact connected_turned hgo (by rfl)
  · exact goto_turned hgo (.refl th) (by rfl) rfl nofun

theorem enter_turned (hgo : MayGo w th) : Turned w id th (w.enter id th) := by
  rw [World.enter]
  split
  · exact leave_turned hgo (.refl th) (by rfl) none
  · split_ifs
    · exact leave_turned hgo (.refl th) (by rfl) _
    · exact connectLanTunnel_turned hgo
  · exact connectLanTunnel_turned hgo

theorem handshake_turned (hgo : MayGo w th) (s : Session) (cfg : Config) (left : Nat) :
    Turned w id th (w.handshake id th s cfg left) := by
  rw [World.handshake]
  split
  · exact goto_turned hgo (.refl th) (by rfl) rfl nofun
  · exact connectFailed_turned hgo (by rfl)
  · exact goto_turned hgo (.refl th) (by rfl) rfl nofun
  · exact connected_turned hgo (by rfl)

theorem send_turned (hgo : MayGo w th) (s : Session) : Turned w id th (w.send id th s) := by
  rw [World.send]
  dsimp only
  split
  · split
    · exact leave_turned hgo (.refl th) (by rfl) _
    · exact goto_turned hgo (.refl th) (by rfl) rfl nofun
  · split
    · exact goto_turned hgo (.refl th) (by rfl) rfl nofun
    · exact leave_turned hgo (.refl th) (by rfl) _
    · exact goto_turned hgo (.refl th) (by rfl) rfl nofun
  · exact leave_turned hgo (.refl th) (by rfl) none

theorem receive_turned (hgo : MayGo w th) (hthreads : w₀.threads = w.threads) (body : Bytes) :
    Turned w id th (w₀.receive id th body) := by
  rw [World.receive]
  split
  · dsimp only
    split_ifs
    · exact goto_turned hgo (by exact ⟨rfl, rfl, rfl⟩) (by exact hthreads) rfl nofun
    · exact leave_turned hgo (by exact ⟨rfl, rfl, rfl⟩) (by exact hthreads) _
  · dsimp only
    split_ifs
    · exact leave_turned hgo (.refl th) (by exact hthreads) _
    · exact leave_turned hgo (.refl th) (by exact hthreads) _

theorem ioFailed_turned (hgo : MayGo w th) (hthreads : w₀.threads = w.threads) :
    Turned w id th (w₀.ioFailed id th) := by
  rw [World.ioFailed]
  split
  · exact leave_turned hgo (.refl th) (by exact hthreads) _
  · exact leave_turned hgo (.refl th) (by exact hthreads) _

theorem turn_turned (w : World) (id : Nat) (th : Thread) (o : Outside) :
    Turned w id th (w.turn id th o) := by
  rw [World.turn]
  have hinside : th.phase.inside = true → MayGo w th := Or.inl
  cases hphase : th.phase with
  | waiting =>
      dsimp only
      split_ifs with hmu
      · exact enter_turned (Or.inr ⟨hphase, hmu⟩)
      · exact .stays
  | dialing =>
      rw [hphase] at hinside
      dsimp only
      split
      · exact connectFailed_turned (hinside rfl) (by rfl)
      · exact goto_turned (hinside rfl) (.refl th) (by rfl) rfl nofun
  | handshaking cfg left =>
      rw [hphase] at hinside
      cases left with
      | zero => exact connectFailed_turned (hinside rfl) (by rfl)
      | succ left =>
          cases hs : w.conn.session with
          | none => exact .stays
          | some s => exact handshake_turned (hinside rfl) s cfg left
  | sending =>
      rw [hphase] at hinside
      cases hs : w.conn.session with
      | none => exact .stays
      | some s => exact send_turned (hinside rfl) s
  | polling =>
      rw [hphase] at hinside
      dsimp only
      split_ifs
      · exact leave_turned (hinside rfl) (.refl th) (by rfl) _
      · exact goto_turned (hinside rfl) (.refl th) (by rfl) rfl nofun
  | taking =>
      rw [hphase] at hinside
      cases hs : w.conn.session with
      | none => exact .stays
      | some s =>
          dsimp only
          cases htake : takeBodies s.recvBuf with
          | error h => exact goto_turned (hinside rfl) (.refl th) (by rfl) rfl nofun
          | ok r =>
              obtain ⟨bodies, rest⟩ := r
              cases bodies with
              | nil =>
                  apply goto_turned (hinside rfl) (.refl th) (by rfl) rfl
                  intro _
                  exact ⟨hphase, s, rest, hs, htake, rfl⟩
              | cons body more => exact receive_turned (hinside rfl) (by rfl) body
  | reading =>
      rw [hphase] at hinside
      cases hs : w.conn.session with
      | none => exact .stays
      | some s =>
          dsimp only
          split
          · exact .stays
          · exact ioFailed_turned (hinside rfl) (by rfl)
          · exact goto_turned (hinside rfl) (.refl th) (by rfl) rfl nofun
  | uploading =>
      rw [hphase] at hinside
      cases hs : w.conn.session with
      | none => exact .stays
      | some s =>
          dsimp only
          split
          · exact goto_turned (hinside rfl) (.refl th) (by rfl) rfl nofun
          · exact leave_turned (hinside rfl) (.refl th) (by rfl) _
  | halted h => exact .stays
  | done => exact .stays

end Turns

/-! ## Who holds the mutex -/

/-- The thread that is inside holds the mutex. -/
structure Held (w : World) : Prop where
  inside : ∀ (id : Nat) (th : Thread), w.threads[id]? = some th →
    (th.phase.inside = true ↔ w.lanMu = some id)
  holder : ∀ id, w.lanMu = some id → id < w.threads.length

theorem WaitsForPrinter.holds {w : World} (h : Held w) {id : Nat} (hw : WaitsForPrinter w id) :
    w.lanMu = some id := by
  obtain ⟨th, s, hth, hphase, -⟩ := hw
  apply (h.inside id th hth).1
  rw [hphase]
  rfl

/-- All others wait for the thread that waits for the printer. -/
theorem stuck_iff {w : World} (h : Held w) : Stuck w ↔ Asked w ∧ Waits w := by
  constructor
  · intro hstuck
    obtain ⟨⟨id, th, hth, hphase, hasked⟩, hall⟩ := hstuck
    refine ⟨⟨id, th, hth, hphase, hasked⟩, ?_⟩
    rcases hall id th hth hphase with hw | hw
    · exact ⟨id, hw⟩
    · obtain ⟨_, holder, -, -, -, hw⟩ := hw
      exact ⟨holder, hw⟩
  · intro hboth
    obtain ⟨hasked, holder, hw⟩ := hboth
    refine ⟨hasked, ?_⟩
    intro id th hth hphase
    cases hin : th.phase.inside with
    | true =>
        have hmu := (h.inside id th hth).1 hin
        obtain rfl := Option.some.inj (hmu.symm.trans (hw.holds h))
        exact Or.inl hw
    | false =>
        refine Or.inr ⟨th, holder, hth, ?_, hw.holds h, hw⟩
        cases hp : th.phase with
        | waiting => rfl
        | done => exact absurd hp hphase
        | _ =>
            rw [hp] at hin
            cases hin

theorem Held.turned {w w' : World} (h : Held w) {id : Nat} {th : Thread}
    (hth : w.threads[id]? = some th) (ht : Turned w id th w') : Held w' := by
  have hlt : id < w.threads.length := (List.getElem?_eq_some_iff.1 hth).1
  -- No thread but this one can be inside.
  have hother : MayGo w th → ∀ (j : Nat) (tj : Thread), j ≠ id → w.threads[j]? = some tj →
      tj.phase.inside = false := by
    intro hgo j tj hj htj
    rw [Bool.eq_false_iff]
    intro hin
    have hmu := (h.inside j tj htj).1 hin
    rcases hgo with hgo | hgo
    · exact hj (Option.some.inj (hmu.symm.trans ((h.inside id th hth).1 hgo)))
    · cases hmu.symm.trans hgo.2
  cases ht with
  | stays => exact h
  | leaves hgo hkept hthreads hdone hmu =>
      refine ⟨?_, ?_⟩
      · intro j tj htj
        rw [hmu]
        refine iff_of_false ?_ nofun
        rw [hthreads] at htj
        by_cases hj : j = id
        · subst hj
          rw [List.getElem?_set_self hlt] at htj
          cases htj
          rw [hdone]
          exact Bool.false_ne_true
        · rw [List.getElem?_set_ne (Ne.symm hj)] at htj
          rw [hother hgo j tj hj htj]
          exact Bool.false_ne_true
      · intro j hj
        cases hmu.symm.trans hj
  | holds hgo hkept hthreads hinside hmu hread =>
      refine ⟨?_, ?_⟩
      · intro j tj htj
        rw [hmu]
        rw [hthreads] at htj
        by_cases hj : j = id
        · subst hj
          rw [List.getElem?_set_self hlt] at htj
          cases htj
          exact iff_of_true hinside rfl
        · rw [List.getElem?_set_ne (Ne.symm hj)] at htj
          rw [hother hgo j tj hj htj]
          refine iff_of_false Bool.false_ne_true ?_
          intro heq
          exact hj (Option.some.inj heq).symm
      · intro j hj
        obtain rfl := Option.some.inj (hmu.symm.trans hj)
        rw [hthreads, List.length_set]
        exact hlt

theorem Held.spawn {w : World} (h : Held w) {th : Thread} (hth : th.phase.inside = false) :
    Held (w.spawn th) := by
  refine ⟨?_, ?_⟩
  · intro j tj htj
    by_cases hj : j < w.threads.length
    · rw [World.spawn] at htj
      dsimp only at htj
      rw [List.getElem?_append_left hj] at htj
      exact h.inside j tj htj
    · have hmem : tj = th := by
        rw [World.spawn] at htj
        dsimp only at htj
        rw [List.getElem?_append_right (Nat.le_of_not_lt hj)] at htj
        exact List.mem_singleton.1 (List.mem_of_getElem? htj)
      subst hmem
      rw [hth]
      refine iff_of_false Bool.false_ne_true ?_
      intro hmu
      exact hj (h.holder j hmu)
  · intro j hj
    have hlt := h.holder j hj
    show j < (w.threads ++ [th]).length
    rw [List.length_append]
    omega

/-- The flags of threads do not matter to the mutex. -/
theorem Held.flags {w w' : World} (h : Held w) (hmu : w'.lanMu = w.lanMu)
    (hphase : w'.threads.map Thread.phase = w.threads.map Thread.phase) : Held w' := by
  refine ⟨?_, ?_⟩
  · intro id th hth
    have hget : (w.threads.map Thread.phase)[id]? = some th.phase := by
      rw [← hphase, List.getElem?_map, hth]
      rfl
    rw [List.getElem?_map] at hget
    obtain ⟨th₀, hth₀, heq⟩ := Option.map_eq_some_iff.1 hget
    rw [hmu, ← heq]
    exact h.inside id th₀ hth₀
  · intro id hid
    have hlen := congrArg List.length hphase
    rw [List.length_map, List.length_map] at hlen
    rw [hlen]
    exact h.holder id (hmu ▸ hid)

/-- What a flag of a thread leaves alone. -/
theorem map_modify_phase (threads : List Thread) (id : Nat) :
    (threads.modify id fun th => { th with cancelled := true }).map Thread.phase =
      threads.map Thread.phase := by
  apply List.ext_getElem?
  intro j
  rw [List.getElem?_map, List.getElem?_map]
  by_cases hj : id = j
  · subst hj
    rw [List.getElem?_modify_eq]
    cases threads[id]? <;> rfl
  · rw [List.getElem?_modify_ne _ _ hj]

theorem map_shut_phase (threads : List Thread) :
    (threads.map fun th => { th with shut := true }).map Thread.phase = threads.map Thread.phase := by
  rw [List.map_map]
  rfl

theorem Held.step {w : World} (h : Held w) (e : Event) : Held (w.step e) := by
  cases e with
  | start j cancelled =>
      rw [World.step]
      split
      · exact h.spawn rfl
      · exact h.spawn rfl
  | connect => exact h.spawn rfl
  | shutdown =>
      apply Held.spawn _ rfl
      exact h.flags rfl (map_shut_phase w.threads)
  | cancel id => exact h.flags rfl (map_modify_phase w.threads id)
  | turn id o =>
      rw [World.step]
      cases hth : w.threads[id]? with
      | none => exact h
      | some th => exact h.turned hth (turn_turned w id th o)
  | arrive r =>
      rw [World.step]
      split
      · exact h
      · exact ⟨h.inside, h.holder⟩

/-! ## What is asked for, and who waits -/

/-- A turn cancels nothing. -/
theorem Turned.asked {w w' : World} {id : Nat} {th : Thread} (hth : w.threads[id]? = some th)
    (ht : Turned w id th w') (h : Asked w') : Asked w := by
  have hlt : id < w.threads.length := (List.getElem?_eq_some_iff.1 hth).1
  obtain ⟨j, tj, htj, hphase, hasked⟩ := h
  cases ht with
  | stays => exact ⟨j, tj, htj, hphase, hasked⟩
  | leaves hgo hkept hthreads hdone hmu =>
      rw [hthreads] at htj
      by_cases hj : j = id
      · subst hj
        rw [List.getElem?_set_self hlt] at htj
        cases htj
        exact absurd hdone hphase
      · rw [List.getElem?_set_ne (Ne.symm hj)] at htj
        exact ⟨j, tj, htj, hphase, hasked⟩
  | holds hgo hkept hthreads hinside hmu hread =>
      rw [hthreads] at htj
      by_cases hj : j = id
      · subst hj
        rw [List.getElem?_set_self hlt] at htj
        cases htj
        rw [hkept.caller, hkept.cancelled, hkept.shut] at hasked
        refine ⟨j, th, hth, ?_, hasked⟩
        intro hdone
        rcases hgo with hgo | hgo
        · rw [hdone] at hgo
          cases hgo
        · cases hdone.symm.trans hgo.1
      · rw [List.getElem?_set_ne (Ne.symm hj)] at htj
        exact ⟨j, tj, htj, hphase, hasked⟩

/-- A thread that waits for the printer behind a turn did so before, or the turn brought it there. -/
theorem Turned.waits {w w' : World} (h : Held w) {id : Nat} {th : Thread}
    (hth : w.threads[id]? = some th) (ht : Turned w id th w') (hw : Waits w') :
    Waits w ∨ EntersRead w th := by
  have hlt : id < w.threads.length := (List.getElem?_eq_some_iff.1 hth).1
  obtain ⟨j, hj⟩ := hw
  have hmu' := hj.holds (h.turned hth ht)
  cases ht with
  | stays => exact Or.inl ⟨j, hj⟩
  | leaves hgo hkept hthreads hdone hmu => cases hmu.symm.trans hmu'
  | holds hgo hkept hthreads hinside hmu hread =>
      obtain rfl := Option.some.inj (hmu.symm.trans hmu')
      obtain ⟨tj, s', htj, hphase, hs', hreads⟩ := hj
      rw [hthreads, List.getElem?_set_self hlt] at htj
      cases htj
      obtain ⟨htaking, s, rest, hs, htake, hconn⟩ := hread hphase
      cases hconn.symm.trans hs'
      exact Or.inr ⟨htaking, s, rest, hs, htake, hreads⟩

/-- A thread that goes into a read for which nothing has arrived waits there. -/
theorem EntersRead.waits {w : World} {id : Nat} {th : Thread} (hth : w.threads[id]? = some th)
    (h : EntersRead w th) (o : Outside) :
    Waits (w.turn id th o) ∧ (Asked w → Asked (w.turn id th o)) := by
  have hlt : id < w.threads.length := (List.getElem?_eq_some_iff.1 hth).1
  obtain ⟨hphase, s, rest, hs, htake, hreads⟩ := h
  have hturn : w.turn id th o = (w.session { s with recvBuf := rest }).goto id th .reading := by
    rw [World.turn, hphase, hs]
    dsimp only
    rw [htake]
  rw [hturn]
  constructor
  · exact ⟨id, { th with phase := .reading }, _, List.getElem?_set_self hlt, rfl, rfl, hreads⟩
  · intro hasked
    obtain ⟨j, tj, htj, hdone, hasked⟩ := hasked
    by_cases hj : j = id
    · subst hj
      cases hth.symm.trans htj
      exact ⟨j, { th with phase := .reading }, List.getElem?_set_self hlt, nofun, hasked⟩
    · refine ⟨j, tj, ?_, hdone, hasked⟩
      exact (List.getElem?_set_ne (Ne.symm hj)).trans htj

/-- Threads that are not inside do not matter to who waits for the printer. -/
theorem waits_spawn {w : World} {th : Thread} (hth : th.phase.inside = false) :
    Waits (w.spawn th) ↔ Waits w := by
  constructor
  · intro h
    obtain ⟨j, tj, s, htj, hphase, hs, hreads⟩ := h
    rw [World.spawn] at htj hs
    dsimp only at htj hs
    by_cases hj : j < w.threads.length
    · rw [List.getElem?_append_left hj] at htj
      exact ⟨j, tj, s, htj, hphase, hs, hreads⟩
    · rw [List.getElem?_append_right (Nat.le_of_not_lt hj)] at htj
      obtain rfl := List.mem_singleton.1 (List.mem_of_getElem? htj)
      rw [hphase] at hth
      cases hth
  · intro h
    obtain ⟨j, tj, s, htj, hphase, hs, hreads⟩ := h
    have hlt : j < w.threads.length := (List.getElem?_eq_some_iff.1 htj).1
    refine ⟨j, tj, s, ?_, hphase, hs, hreads⟩
    exact (List.getElem?_append_left hlt).trans htj

theorem waits_flags {w w' : World} (hconn : w'.conn = w.conn)
    (hphase : w'.threads.map Thread.phase = w.threads.map Thread.phase) (h : Waits w) : Waits w' := by
  obtain ⟨j, tj, s, htj, hread, hs, hreads⟩ := h
  have hget : (w'.threads.map Thread.phase)[j]? = some tj.phase := by
    rw [hphase, List.getElem?_map, htj]
    rfl
  rw [List.getElem?_map] at hget
  obtain ⟨th, hth, heq⟩ := Option.map_eq_some_iff.1 hget
  exact ⟨j, th, s, hth, heq.trans hread, hconn ▸ hs, hreads⟩

/-- A new thread asks for something if it shuts down, or is a job that was cancelled. -/
theorem asked_spawn {w : World} {th : Thread} (hshut : th.shut = false) :
    Asked (w.spawn th) ↔ Asked w ∨ th.phase ≠ .done ∧
      (th.caller.listens = true ∧ th.cancelled = true ∨ th.caller = .shutdown) := by
  constructor
  · intro h
    obtain ⟨j, tj, htj, hphase, hasked⟩ := h
    rw [World.spawn] at htj
    dsimp only at htj
    by_cases hj : j < w.threads.length
    · rw [List.getElem?_append_left hj] at htj
      exact Or.inl ⟨j, tj, htj, hphase, hasked⟩
    · rw [List.getElem?_append_right (Nat.le_of_not_lt hj)] at htj
      obtain rfl := List.mem_singleton.1 (List.mem_of_getElem? htj)
      rw [hshut] at hasked
      simp only [Bool.false_eq_true, or_false] at hasked
      exact Or.inr ⟨hphase, hasked⟩
  · intro h
    rcases h with h | h
    · obtain ⟨j, tj, htj, hphase, hasked⟩ := h
      have hlt : j < w.threads.length := (List.getElem?_eq_some_iff.1 htj).1
      exact ⟨j, tj, (List.getElem?_append_left hlt).trans htj, hphase, hasked⟩
    · refine ⟨w.threads.length, th, List.getElem?_concat_length, h.1, ?_⟩
      rcases h.2 with hjob | hshutdown
      · exact Or.inl ⟨hjob.1, Or.inl hjob.2⟩
      · exact Or.inr hshutdown

/-- A cancelled job has asked, if it listens and is not done. -/
theorem asked_cancel {w : World} {id : Nat} :
    Asked (w.step (.cancel id)) ↔ Asked w ∨ ∃ th, w.threads[id]? = some th ∧
      th.caller.listens = true ∧ th.phase ≠ .done := by
  constructor
  · intro h
    obtain ⟨j, tj, htj, hphase, hasked⟩ := h
    rw [World.step] at htj
    dsimp only at htj
    by_cases hj : id = j
    · subst hj
      rw [List.getElem?_modify_eq] at htj
      obtain ⟨th, hth, rfl⟩ := Option.map_eq_some_iff.1 htj
      rcases hasked with hjob | hshutdown
      · exact Or.inr ⟨th, hth, hjob.1, hphase⟩
      · exact Or.inl ⟨id, th, hth, hphase, Or.inr hshutdown⟩
    · rw [List.getElem?_modify_ne _ _ hj] at htj
      exact Or.inl ⟨j, tj, htj, hphase, hasked⟩
  · intro h
    rcases h with h | h
    · obtain ⟨j, tj, htj, hphase, hasked⟩ := h
      by_cases hj : id = j
      · subst hj
        refine ⟨id, { tj with cancelled := true }, ?_, hphase, ?_⟩
        · show (w.threads.modify id _)[id]? = _
          rw [List.getElem?_modify_eq, htj]
          rfl
        · rcases hasked with hjob | hshutdown
          · exact Or.inl ⟨hjob.1, Or.inl rfl⟩
          · exact Or.inr hshutdown
      · refine ⟨j, tj, ?_, hphase, hasked⟩
        show (w.threads.modify id _)[j]? = _
        rw [List.getElem?_modify_ne _ _ hj, htj]
    · obtain ⟨th, hth, hlistens, hphase⟩ := h
      refine ⟨id, { th with cancelled := true }, ?_, hphase, Or.inl ⟨hlistens, Or.inl rfl⟩⟩
      show (w.threads.modify id _)[id]? = _
      rw [List.getElem?_modify_eq, hth]
      rfl

/-! ## Along a run -/

/-- A step gets no thread stuck exactly if it is attended. -/
theorem step_iff {w : World} (h : Held w) (hfree : ¬ Stuck w) (e : Event) :
    ¬ Stuck (w.step e) ↔ Attended w e := by
  rw [stuck_iff h] at hfree
  rw [stuck_iff (h.step e)]
  cases e with
  | start j cancelled =>
      have hspawn : ∀ th : Thread, th.phase.inside = false → th.shut = false →
          th.caller ≠ .shutdown →
          (¬ (Asked (w.spawn th) ∧ Waits (w.spawn th)) ↔
            (th.phase ≠ .done → th.caller.listens = true → th.cancelled = true → ¬ Waits w)) := by
        intro th hphase hshut hcaller
        rw [asked_spawn hshut, waits_spawn hphase]
        tauto
      rw [World.step, Attended]
      split
      · rename_i hcaller
        rw [hspawn _ rfl rfl (by nofun), hcaller]
        refine iff_of_true (fun hdone => absurd rfl hdone) ?_
        intro hlistens
        cases hlistens
      · rename_i hunknown
        rw [hspawn _ rfl rfl (by rw [Job.caller]; split_ifs <;> nofun)]
        exact ⟨fun hs => hs nofun, fun hs _ => hs⟩
  | connect =>
      refine iff_of_true ?_ trivial
      intro hboth
      rcases (asked_spawn rfl).1 hboth.1 with hasked | hnew
      · exact hfree ⟨hasked, (waits_spawn rfl).1 hboth.2⟩
      · rcases hnew.2 with hjob | hshutdown
        · cases hjob.1
        · cases hshutdown
  | shutdown =>
      have hw : Waits (w.step .shutdown) ↔ Waits w := by
        rw [World.step, waits_spawn rfl]
        exact ⟨waits_flags rfl (map_shut_phase w.threads).symm,
          waits_flags rfl (map_shut_phase w.threads)⟩
      have hasked : Asked (w.step .shutdown) := (asked_spawn rfl).2 (Or.inr ⟨nofun, Or.inr rfl⟩)
      rw [hw, and_iff_right hasked]
      exact Iff.rfl
  | cancel id =>
      have hw : Waits (w.step (.cancel id)) ↔ Waits w :=
        ⟨waits_flags rfl (map_modify_phase w.threads id).symm,
          waits_flags rfl (map_modify_phase w.threads id)⟩
      rw [hw, asked_cancel]
      constructor
      · intro hno th hth hlistens hphase hwaits
        exact hno ⟨Or.inr ⟨th, hth, hlistens, hphase⟩, hwaits⟩
      · intro hattended hboth
        rcases hboth.1 with hasked | hnew
        · exact hfree ⟨hasked, hboth.2⟩
        · obtain ⟨th, hth, hlistens, hphase⟩ := hnew
          exact hattended th hth hlistens hphase hboth.2
  | turn id o =>
      cases hth : w.threads[id]? with
      | none =>
          have hstep : w.step (.turn id o) = w := by rw [World.step, hth]
          rw [hstep]
          refine iff_of_true hfree ?_
          intro th' hth'
          cases hth.symm.trans hth'
      | some th =>
          have hstep : w.step (.turn id o) = w.turn id th o := by rw [World.step, hth]
          rw [hstep]
          have ht := turn_turned w id th o
          constructor
          · intro hno th' hth' henters hasked
            cases hth.symm.trans hth'
            obtain ⟨hwaits, hstays⟩ := henters.waits hth o
            exact hno ⟨hstays hasked, hwaits⟩
          · intro hattended hboth
            have hasked := ht.asked hth hboth.1
            rcases ht.waits h hth hboth.2 with hwaits | henters
            · exact hfree ⟨hasked, hwaits⟩
            · exact hattended th hth henters hasked
  | arrive r =>
      refine iff_of_true ?_ trivial
      rw [World.step]
      cases hs : w.conn.session with
      | none => exact hfree
      | some s =>
          intro hboth
          obtain ⟨_, _, s', _, _, hs', hreads⟩ := hboth.2
          cases hs'
          exact absurd hreads (List.append_ne_nil_of_right_ne_nil _ (List.cons_ne_nil _ _))

theorem held_start (lan : LanUrl) (version : Bytes) : Held (World.start lan version) := by
  refine ⟨?_, nofun⟩
  intro id th hth
  rw [World.start, List.getElem?_nil] at hth
  cases hth

theorem not_stuck_start (lan : LanUrl) (version : Bytes) : ¬ Stuck (World.start lan version) := by
  intro h
  obtain ⟨⟨_, _, hth, -⟩, -⟩ := h
  rw [World.start, List.getElem?_nil] at hth
  cases hth

/-- Along a run no state is one where a job that was cancelled, or whose tunnel was shut down, and
all other threads wait for the printer, exactly if every step is attended. -/
theorem never_stuck_iff (lan : LanUrl) (version : Bytes) (run : List Event) :
    InEveryState World.step (fun w => ¬ Stuck w) (World.start lan version) run ↔
      AtEveryStep World.step Attended (World.start lan version) run := by
  have hinv : ∀ (w : World) e, Held w → Held (w.step e) := fun w e h => h.step e
  have hstep : ∀ (w : World) e, Held w → ¬ Stuck w → (¬ Stuck (w.step e) ↔ Attended w e) :=
    fun w e h hfree => step_iff h hfree e
  exact inEveryState_iff hinv hstep (held_start lan version) (not_stuck_start lan version) run

/-- A download whose connect is answered at once, up to its first read. -/
def downloadWaits : List Event :=
  [.start { cmdType := kCmdTypeDownload, downloadPath := ascii "mem:/26" } false, .turn 0 {},
    .turn 0 { dial := some ⟨[], 1, ascii "uuid"⟩ }, .turn 0 {},
    .arrive (.bytes ⟨loginAck.encode, exactCodec.encode_ne_nil _, loginAck_short⟩), .turn 0 {},
    .arrive (.bytes ⟨setupReply.encode, exactCodec.encode_ne_nil _, setupReply_short⟩), .turn 0 {},
    .turn 0 {}, .turn 0 {}, .turn 0 {}]

/-- It is cancelled there. -/
def cancelledWaiting : List Event := downloadWaits ++ [.cancel 0]

theorem cancelledWaiting_stuck : Stuck (after World.step (World.start {} (ascii "1")) cancelledWaiting) := by
  have hstep : ∀ (w : World) e, Held w → Held (w.step e) := fun w e h => h.step e
  have hheld := after_of_inv hstep (held_start {} (ascii "1")) downloadWaits
  have hread : ((after World.step (World.start {} (ascii "1")) downloadWaits).threads[0]?).map
      (fun th => (th.phase, th.caller.listens)) = some (.reading, true) := by
    decide +kernel
  have hreads : (after World.step (World.start {} (ascii "1")) downloadWaits).conn.session.map
      (fun s => s.reads.length) = some 0 := by
    decide +kernel
  rw [cancelledWaiting, after_append, after_cons, after_nil]
  generalize after World.step (World.start {} (ascii "1")) downloadWaits = w at hheld hread hreads
  obtain ⟨th, hth, heq⟩ := Option.map_eq_some_iff.1 hread
  obtain ⟨hphase, hlistens⟩ := Prod.mk.inj heq
  obtain ⟨s, hs, hlen⟩ := Option.map_eq_some_iff.1 hreads
  rw [stuck_iff (hheld.step _)]
  constructor
  · apply asked_cancel.2
    refine Or.inr ⟨th, hth, hlistens, ?_⟩
    rw [hphase]
    nofun
  · have hwaits : Waits w := ⟨0, th, s, hth, hphase, hs, List.length_eq_zero_iff.1 hlen⟩
    exact waits_flags (by rfl) (map_modify_phase w.threads 0) hwaits

theorem never_stuck_fails :
    ¬ InEveryState World.step (fun w => ¬ Stuck w) (World.start {} (ascii "1")) cancelledWaiting := by
  intro h
  exact h cancelledWaiting [] (List.append_nil _).symm cancelledWaiting_stuck

end OpenBambu.FileTransfer.Blocking
