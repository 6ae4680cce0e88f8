import OpenBambu.Foundation.Bytes
import OpenBambu.Foundation.Mutex
import OpenBambu.Foundation.Run

/-!
# Jobs on a file-transfer tunnel

The job threads of `abi_ft.cpp`, `ft_tunnel_start_connect`, `ft_tunnel_sync_connect` and
`ft_tunnel_shutdown` around the `lan_mu` of one tunnel. A callback of Studio may call
`ft_tunnel_shutdown`, which takes `lan_mu` again.
-/

namespace OpenBambu.FileTransfer

open OpenBambu.Foundation OpenBambu.Foundation.Mutex

/-! ## The tunnel and the answers of the printer -/

def FT_EIO : Int := -3
def FT_ECANCELLED : Int := -5

def kCmdTypeDownload : Int := 4
def kCmdTypeUpload : Int := 5
def kCmdTypeMediaAbility : Int := 7

/-- What `lan_mu` protects. -/
structure Tunnel where
  connected : Bool := false
  abilityProbed : Bool := false
  abilityCache : Bytes := []

structure UploadOutcome where
  ok : Bool := false
  error : Bytes := []
  wireResult : Int := -1

structure DownloadOutcome where
  ok : Bool := false
  error : Bytes := []
  wireResult : Int := -1
  jsonBody : Bytes := []
  data : Bytes := []

/-- What the connection answers, should it be asked. -/
structure Answers where
  /-- The error of `Connection::connect`, if it fails. -/
  connectError : Option Bytes := none
  /-- The body of a media ability that was found. -/
  ability : Option Bytes := none
  upload : UploadOutcome := {}
  download : DownloadOutcome := {}
  /-- The connection is still up afterwards. -/
  connectedAfter : Bool := true

inductive Callback where
  | result (ec respEc : Int) (json bin : Bytes)
  | connect (ok err : Int) (msg : Bytes)
  | status (old new err : Int) (msg : Bytes)
  deriving DecidableEq, Repr

abbrev FtOp := Op Tunnel Callback

/-- The error text, or an empty one if the connection is up. -/
def connectLanTunnel (t : Tunnel) (a : Answers) : Tunnel × Bytes :=
  if t.connected then (t, [])
  else
    match a.connectError with
    | some err => (t, if err = [] then ascii "connect failed" else err)
    | none => ({ t with connected := true }, [])

/-- The call of the result callback, if one is set. -/
def deliverResult (resultCb : Bool) (ec respEc : Int) (json bin : Bytes) : List FtOp :=
  if resultCb then [.call (.result ec respEc json bin)] else []

/-! ## What comes behind the mutex -/

def runAbilityJob (resultCb : Bool) (a : Answers) (t : Tunnel) : Tunnel × List FtOp :=
  if t.abilityProbed then (t, .release :: deliverResult resultCb 0 0 t.abilityCache [])
  else
    let connected := connectLanTunnel t a
    if connected.2 ≠ [] then (connected.1, .release :: deliverResult resultCb FT_EIO 0 [] [])
    else
      match a.ability with
      | none =>
          ({ connected.1 with connected := a.connectedAfter },
            .release :: deliverResult resultCb FT_EIO 0 [] [])
      | some json =>
          ({ connected := a.connectedAfter, abilityProbed := true, abilityCache := json },
            .release ::
              if json ≠ [] then deliverResult resultCb 0 0 json []
              else deliverResult resultCb FT_EIO 0 [] [])

/-- A transfer, and what is delivered of its outcome. -/
def runTransferJob (resultCb : Bool) (a : Answers) (t : Tunnel) (ok : Bool) (error : Bytes)
    (wireResult : Int) (json data : Bytes) : Tunnel × List FtOp :=
  let connected := connectLanTunnel t a
  if connected.2 ≠ [] then (connected.1, deliverResult resultCb FT_EIO 0 [] [] ++ [.release])
  else
    ({ connected.1 with connected := a.connectedAfter },
      .release ::
        if ok then deliverResult resultCb 0 wireResult json data
        else if error = ascii "cancelled" then deliverResult resultCb FT_ECANCELLED 0 [] []
        else deliverResult resultCb FT_EIO (if 0 ≤ wireResult then wireResult else 0) [] [])

def runUploadJob (resultCb : Bool) (a : Answers) (t : Tunnel) : Tunnel × List FtOp :=
  runTransferJob resultCb a t a.upload.ok a.upload.error a.upload.wireResult [] []

def runDownloadJob (resultCb : Bool) (a : Answers) (t : Tunnel) : Tunnel × List FtOp :=
  runTransferJob resultCb a t a.download.ok a.download.error a.download.wireResult a.download.jsonBody
    a.download.data

/-- The callbacks of `ft_tunnel_start_connect`, as far as they are set. -/
def connectCallbacks (cb statusCb : Bool) (ok new err : Int) (msg : Bytes) : List FtOp :=
  (if cb then [.call (.connect ok err msg)] else []) ++
    if statusCb then [.call (.status 0 new err msg)] else []

def startConnect (cb statusCb : Bool) (a : Answers) (t : Tunnel) : Tunnel × List FtOp :=
  let connected := connectLanTunnel t a
  (connected.1,
    (if connected.2 ≠ [] then connectCallbacks cb statusCb 1 (-1) FT_EIO connected.2
      else connectCallbacks cb statusCb 0 1 0 (ascii "ok")) ++ [.release])

def syncConnect (a : Answers) (t : Tunnel) : Tunnel × List FtOp := ((connectLanTunnel t a).1, [.release])

/-- `conn->disconnect()`. -/
def disconnect (t : Tunnel) : Tunnel := { t with connected := false }

/-- `ft_tunnel_shutdown`. -/
def shutdownOps : List FtOp := [.acquire, .work disconnect, .release]

/-! ## Threads -/

/-- What runs on a thread: a started job, or a call of Studio. -/
inductive Runner where
  | job (cmdType : Int) (resultCb : Bool)
  | startConnect (cb statusCb : Bool)
  | syncConnect
  | shutdown
  deriving DecidableEq, Repr

abbrev FtThread := Thread Tunnel Answers Callback Runner
abbrev FtMachine := Machine Tunnel Answers Callback Runner

/-- The switch of `spawn_job`, and the calls on a LAN tunnel. -/
def Runner.thread (r : Runner) : FtThread where
  tag := r
  code :=
    match r with
    | .job cmdType resultCb =>
        if cmdType = kCmdTypeMediaAbility then .entering (runAbilityJob resultCb)
        else if cmdType = kCmdTypeUpload then .entering (runUploadJob resultCb)
        else if cmdType = kCmdTypeDownload then .entering (runDownloadJob resultCb)
        else .running (deliverResult resultCb FT_EIO 0 [] [])
    | .startConnect cb statusCb => .entering (FileTransfer.startConnect cb statusCb)
    | .syncConnect => .entering FileTransfer.syncConnect
    | .shutdown => .running shutdownOps

inductive FtEvent where
  | spawn (r : Runner)
  /-- A thread goes on. If it comes to a callback, this calls `ft_tunnel_shutdown` or not. -/
  | go (id : Nat) (a : Answers) (shutdown : Bool)

def FtEvent.turn : FtEvent → Turn Tunnel Answers Callback Runner
  | .spawn r => .spawn r.thread
  | .go id a shutdown => .go id a (if shutdown then shutdownOps else [])

def ftStep (m : FtMachine) (e : FtEvent) : FtMachine := m.step e.turn

/-- A new tunnel. -/
def ftStart : FtMachine := ⟨{}, none, [], []⟩

inductive CallbackKind where
  | result
  | connect
  | status
  deriving DecidableEq, Repr

def Callback.kind : Callback → CallbackKind
  | .result .. => .result
  | .connect .. => .connect
  | .status .. => .status

def ofKind (k : CallbackKind) (c : Callback) : Bool := c.kind = k

/-- The callbacks of a kind that a runner owes: one of those that are set. -/
def Runner.owes (k : CallbackKind) (r : Runner) : Nat :=
  match r, k with
  | .job _ resultCb, .result => resultCb.toNat
  | .startConnect cb _, .connect => cb.toNat
  | .startConnect _ statusCb, .status => statusCb.toNat
  | _, _ => 0

/-- Turns of threads that can go on, and no new threads. -/
def FtGoesOn (m : FtMachine) : List FtEvent → Prop
  | [] => True
  | e :: more => (∃ id a shutdown, e = .go id a shutdown ∧ m.Enabled id) ∧ FtGoesOn (ftStep m e) more

/-- The turns the threads can still take. -/
def turnsLeft (m : FtMachine) : Nat := m.weight 3 9

/-- The threads of a tunnel and their callbacks: none is called under `lan_mu`, no thread waits for
a mutex it holds itself, none is called twice, only so many turns are left, and where no thread can
go on every callback that is set was called. -/
structure WellBehaved (m : FtMachine) : Prop where
  unlocked : ∀ c ∈ m.calls, c.locked = false
  no_self_wait : ∀ id (th : FtThread) ops, m.threads[id]? = some th →
    th.code = .running (.acquire :: ops) → m.holder ≠ some id
  at_most_once : ∀ (id : Nat) (th : FtThread) k, m.threads[id]? = some th →
    m.made (ofKind k) id ≤ th.tag.owes k
  finite : ∀ more, FtGoesOn m more → more.length ≤ turnsLeft m
  exactly_once : (∀ id, ¬ m.Enabled id) → ∀ (id : Nat) (th : FtThread) k,
    m.threads[id]? = some th → m.made (ofKind k) id = th.tag.owes k

/-- A runner does not come to a callback with the mutex held: an upload or download with a result
callback does not fail to connect, and `ft_tunnel_start_connect` has no callbacks. -/
def Runner.Quiet (r : Runner) (a : Answers) (t : Tunnel) : Prop :=
  match r with
  | .job cmdType resultCb =>
      (cmdType = kCmdTypeUpload ∨ cmdType = kCmdTypeDownload) → resultCb = true →
        t.connected = true ∨ a.connectError = none
  | .startConnect cb statusCb => cb = false ∧ statusCb = false
  | _ => True

/-- Every thread that takes the mutex to enter is quiet. -/
def EntersQuietly (m : FtMachine) (e : FtEvent) : Prop :=
  ∀ id a shutdown, e = .go id a shutdown → ∀ (th : FtThread) body, m.threads[id]? = some th →
    th.code = .entering body → m.holder = none → th.tag.Quiet a m.shared

/-! ## What the runners do behind the mutex -/

theorem count_deliverResult (k : CallbackKind) (cmdType : Int) (resultCb : Bool) (ec respEc : Int)
    (json bin : Bytes) : (deliverResult resultCb ec respEc json bin).countP (isCall (ofKind k)) =
      (Runner.job cmdType resultCb).owes k := by
  cases resultCb <;> cases k <;> rfl

theorem weight_deliverResult (resultCb : Bool) (ec respEc : Int) (json bin : Bytes) :
    opsWeight 3 (deliverResult resultCb ec respEc json bin) ≤ 4 := by
  cases resultCb
  · exact Nat.zero_le 4
  · exact Nat.le_refl 4

theorem fits_deliverResult (resultCb : Bool) (ec respEc : Int) (json bin : Bytes) :
    Fits false (deliverResult resultCb ec respEc json bin) := by
  cases resultCb
  · exact rfl
  · exact ⟨rfl, rfl⟩

/-- Without an error the tunnel was connected, or is now. -/
theorem connectLanTunnel_error {t : Tunnel} {a : Answers} (h : (connectLanTunnel t a).2 ≠ []) :
    t.connected = false ∧ a.connectError ≠ none := by
  unfold connectLanTunnel at h
  split_ifs at h with hc
  · exact absurd rfl h
  · refine ⟨by simpa using hc, ?_⟩
    intro hn
    rw [hn] at h
    exact h rfl

/-- A job gives the mutex back and then delivers. -/
def DeliversBehind (resultCb : Bool) (ops : List FtOp) : Prop :=
  ∃ ec respEc json bin, ops = .release :: deliverResult resultCb ec respEc json bin

theorem runAbilityJob_behind (resultCb : Bool) (a : Answers) (t : Tunnel) :
    DeliversBehind resultCb (runAbilityJob resultCb a t).2 := by
  unfold runAbilityJob
  split_ifs
  · exact ⟨_, _, _, _, rfl⟩
  · dsimp only
    split_ifs
    · exact ⟨_, _, _, _, rfl⟩
    · cases a.ability with
      | none => exact ⟨_, _, _, _, rfl⟩
      | some json =>
          dsimp only
          split_ifs
          · exact ⟨_, _, _, _, rfl⟩
          · exact ⟨_, _, _, _, rfl⟩

/-- A transfer does so too, unless it fails to connect. -/
theorem runTransferJob_cases (resultCb : Bool) (a : Answers) (t : Tunnel) (ok : Bool) (error : Bytes)
    (wireResult : Int) (json data : Bytes) :
    ((connectLanTunnel t a).2 ≠ [] ∧ (runTransferJob resultCb a t ok error wireResult json data).2 =
        deliverResult resultCb FT_EIO 0 [] [] ++ [.release]) ∨
      DeliversBehind resultCb (runTransferJob resultCb a t ok error wireResult json data).2 := by
  unfold runTransferJob
  dsimp only
  split_ifs with h
  · exact Or.inl ⟨h, rfl⟩
  · exact Or.inr ⟨_, _, _, _, rfl⟩
  · exact Or.inr ⟨_, _, _, _, rfl⟩
  · exact Or.inr ⟨_, _, _, _, rfl⟩
  · exact Or.inr ⟨_, _, _, _, rfl⟩

theorem DeliversBehind.fits {resultCb : Bool} {ops : List FtOp} (h : DeliversBehind resultCb ops) :
    Fits true ops := by
  obtain ⟨ec, respEc, json, bin, rfl⟩ := h
  exact ⟨rfl, fits_deliverResult resultCb ec respEc json bin⟩

/-- What is known of the operations behind the mutex, of every runner. -/
structure Behaves (r : Runner) (body : Answers → Tunnel → Tunnel × List FtOp) : Prop where
  count : ∀ k a t, (body a t).2.countP (isCall (ofKind k)) = r.owes k
  weight : ∀ a t, opsWeight 3 (body a t).2 ≤ 9
  fits : ∀ a t, r.Quiet a t → Fits true (body a t).2

theorem DeliversBehind.behaves {resultCb : Bool} {cmdType : Int}
    {body : Answers → Tunnel → Tunnel × List FtOp}
    (h : ∀ a t, DeliversBehind resultCb (body a t).2) : Behaves (.job cmdType resultCb) body where
  count := by
    intro k a t
    obtain ⟨ec, respEc, json, bin, he⟩ := h a t
    rw [he, List.countP_cons, count_deliverResult k cmdType]
    rfl
  weight := by
    intro a t
    obtain ⟨ec, respEc, json, bin, he⟩ := h a t
    have hw := weight_deliverResult resultCb ec respEc json bin
    rw [he]
    simp only [opsWeight, List.map_cons, List.sum_cons, opWeight] at hw ⊢
    omega
  fits := fun a t _ => (h a t).fits

/-- Where a transfer fails to connect, it delivers with the mutex held. -/
theorem transfer_behaves {resultCb : Bool} {cmdType : Int}
    (hcmd : cmdType = kCmdTypeUpload ∨ cmdType = kCmdTypeDownload)
    {body : Answers → Tunnel → Tunnel × List FtOp}
    (h : ∀ a t, ((connectLanTunnel t a).2 ≠ [] ∧
        (body a t).2 = deliverResult resultCb FT_EIO 0 [] [] ++ [.release]) ∨
      DeliversBehind resultCb (body a t).2) : Behaves (.job cmdType resultCb) body := by
  refine ⟨?_, ?_, ?_⟩
  · intro k a t
    rcases h a t with ⟨_, he⟩ | hb
    · rw [he, List.countP_append, count_deliverResult k cmdType]
      rfl
    · obtain ⟨ec, respEc, json, bin, he⟩ := hb
      rw [he, List.countP_cons, count_deliverResult k cmdType]
      rfl
  · intro a t
    rcases h a t with ⟨_, he⟩ | hb
    · have hw := weight_deliverResult resultCb FT_EIO 0 [] []
      rw [he]
      simp only [opsWeight, List.map_append, List.sum_append, List.map_cons, List.sum_cons,
        List.map_nil, List.sum_nil, opWeight] at hw ⊢
      omega
    · obtain ⟨ec, respEc, json, bin, he⟩ := hb
      have hw := weight_deliverResult resultCb ec respEc json bin
      rw [he]
      simp only [opsWeight, List.map_cons, List.sum_cons, opWeight] at hw ⊢
      omega
  · intro a t hq
    rcases h a t with ⟨herr, he⟩ | hb
    · obtain ⟨hdown, hfail⟩ := connectLanTunnel_error herr
      cases resultCb with
      | false =>
          rw [he]
          exact ⟨rfl, rfl⟩
      | true =>
          rcases hq hcmd rfl with hup | hok
          · rw [hup] at hdown
            cases hdown
          · exact absurd hok hfail
    · exact hb.fits

theorem startConnect_behaves (cb statusCb : Bool) :
    Behaves (.startConnect cb statusCb) (startConnect cb statusCb) := by
  refine ⟨?_, ?_, ?_⟩
  · intro k a t
    unfold startConnect
    dsimp only
    split_ifs <;> cases cb <;> cases statusCb <;> cases k <;> rfl
  · intro a t
    unfold startConnect
    dsimp only
    split_ifs <;> cases cb <;> cases statusCb <;> exact Nat.le_of_ble_eq_true rfl
  · intro a t hq
    obtain ⟨rfl, rfl⟩ := hq
    unfold startConnect
    dsimp only
    split_ifs <;> exact ⟨rfl, rfl⟩

theorem syncConnect_behaves : Behaves .syncConnect syncConnect where
  count := by
    intro k a t
    cases k <;> rfl
  weight := fun _ _ => Nat.le_of_ble_eq_true rfl
  fits := fun _ _ _ => ⟨rfl, rfl⟩

/-- The body of every runner behaves. -/
theorem thread_behaves {r : Runner} {body : Answers → Tunnel → Tunnel × List FtOp}
    (h : r.thread.code = .entering body) : Behaves r body := by
  cases r with
  | job cmdType resultCb =>
      simp only [Runner.thread] at h
      split_ifs at h with h1 h2 h3
      · cases h
        exact DeliversBehind.behaves (runAbilityJob_behind resultCb)
      · cases h
        exact transfer_behaves (Or.inl h2) fun a t => runTransferJob_cases resultCb a t _ _ _ _ _
      · cases h
        exact transfer_behaves (Or.inr h3) fun a t => runTransferJob_cases resultCb a t _ _ _ _ _
  | startConnect cb statusCb =>
      cases h
      exact startConnect_behaves cb statusCb
  | syncConnect =>
      cases h
      exact syncConnect_behaves
  | shutdown => cases h

/-! ## Runs -/

theorem fits_shutdownOps : Fits false shutdownOps := ⟨rfl, rfl, rfl, rfl⟩

theorem fits_inner (shutdown : Bool) : Fits false (if shutdown then shutdownOps else []) := by
  cases shutdown
  · exact rfl
  · exact fits_shutdownOps

theorem fits_thread (r : Runner) : r.thread.code.Fits false := by
  cases r with
  | job cmdType resultCb =>
      simp only [Runner.thread]
      split_ifs
      · exact rfl
      · exact rfl
      · exact rfl
      · exact fits_deliverResult resultCb FT_EIO 0 [] []
  | startConnect cb statusCb => exact rfl
  | syncConnect => exact rfl
  | shutdown => exact fits_shutdownOps

theorem toMake_thread (k : CallbackKind) (r : Runner) :
    r.thread.toMake (ofKind k) (Runner.owes k) = r.owes k := by
  cases r with
  | job cmdType resultCb =>
      unfold Thread.toMake Runner.thread
      dsimp only
      split_ifs
      · rfl
      · rfl
      · rfl
      · exact count_deliverResult k cmdType resultCb FT_EIO 0 [] []
  | startConnect cb statusCb => rfl
  | syncConnect => rfl
  | shutdown => cases k <;> rfl

/-- The order, the counts and the bodies. -/
structure Kept (m : FtMachine) : Prop where
  ordered : m.Ordered
  counted : ∀ k, m.Counted (ofKind k) (Runner.owes k)
  entering : m.Entering Behaves

theorem kept_start : Kept ftStart := by
  refine ⟨⟨?_, ?_, ?_⟩, fun k => ⟨?_, ?_⟩, ?_⟩
  · intro id th h
    cases h
  · intro id h
    cases h
  · intro c h
    cases h
  · intro id th h
    cases h
  · intro id _
    rfl
  · intro id th body h
    cases h

theorem entering_step {m : FtMachine} (h : m.Entering Behaves) (e : FtEvent) :
    (ftStep m e).Entering Behaves := by
  apply h.step
  intro th body ht hcode
  cases e with
  | spawn r =>
      obtain rfl : r.thread = th := Turn.spawn.inj ht
      exact thread_behaves hcode
  | go id a shutdown => cases ht

theorem Kept.step {m : FtMachine} (h : Kept m) {e : FtEvent} (he : EntersQuietly m e) :
    Kept (ftStep m e) := by
  refine ⟨?_, ?_, entering_step h.entering e⟩
  · apply h.ordered.step
    cases e with
    | spawn r => exact fits_thread r
    | go id a shutdown =>
        refine ⟨fits_inner shutdown, ?_⟩
        intro th body hth hcode hfree
        exact (h.entering id th body hth hcode).fits a m.shared
          (he id a shutdown rfl th body hth hcode hfree)
  · intro k
    apply (h.counted k).step
    cases e with
    | spawn r => exact toMake_thread k r
    | go id a shutdown =>
        refine ⟨by cases shutdown <;> rfl, ?_⟩
        intro th body hth hcode
        exact (h.entering id th body hth hcode).count k a m.shared

/-- Every turn of a thread is bounded. -/
theorem goesOn {m : FtMachine} (h : m.Entering Behaves) {more : List FtEvent} (hg : FtGoesOn m more) :
    m.GoesOn 3 9 (more.map FtEvent.turn) := by
  induction more generalizing m with
  | nil => trivial
  | cons e more ih =>
      obtain ⟨⟨id, a, shutdown, rfl, hen⟩, hrest⟩ := hg
      refine ⟨⟨id, a, _, rfl, hen⟩, ⟨?_, ?_⟩, ih (entering_step h _) hrest⟩
      · cases shutdown
        · exact Nat.zero_le 3
        · exact Nat.le_refl 3
      · intro th body hth hcode
        exact (h id th body hth hcode).weight a m.shared

theorem Kept.wellBehaved {m : FtMachine} (h : Kept m) : WellBehaved m where
  unlocked := h.ordered.unlocked
  no_self_wait := fun _ _ _ hth hcode => h.ordered.no_self_wait hth hcode
  at_most_once := fun _ _ k hth => (h.counted k).made_le hth
  finite := by
    intro more hg
    have hle := (goesOn h.entering hg).length_le
    rwa [List.length_map] at hle
  exactly_once := by
    intro hq id th k hth
    exact (h.counted k).made_eq hth (h.ordered.done hq id th hth)

/-- Where no upload or download fails to connect and no connect callback is set, all threads and
callbacks behave. -/
theorem jobs_wellBehaved {run : List FtEvent} (h : AtEveryStep ftStep EntersQuietly ftStart run) :
    InEveryState ftStep WellBehaved ftStart run := by
  have hkept : InEveryState ftStep Kept ftStart run := by
    refine inEveryState_of_step ?_ kept_start h
    intro m e hm he
    exact hm.step he
  refine hkept.mono ?_
  intro m hm
  exact hm.wellBehaved

/-- An upload that connects, and a callback that shuts the tunnel down. -/
def quietUpload : List FtEvent :=
  [.spawn (.job kCmdTypeUpload true), .go 0 {} false, .go 0 {} false, .go 0 {} true, .go 0 {} false]

theorem quietUpload_wellBehaved : InEveryState ftStep WellBehaved ftStart quietUpload := by
  apply jobs_wellBehaved
  simp only [quietUpload, atEveryStep_cons]
  refine ⟨?_, ?_, ?_, ?_, ?_, atEveryStep_nil⟩
  · intro id a shutdown he
    cases he
  · intro id a shutdown he th body hth hcode hfree
    cases he
    obtain rfl := Option.some.inj hth
    exact fun _ _ => Or.inr rfl
  -- behind the first turn the thread has entered
  · intro id a shutdown he th body hth hcode hfree
    cases he
    obtain rfl := Option.some.inj hth
    cases hcode
  · intro id a shutdown he th body hth hcode hfree
    cases he
    obtain rfl := Option.some.inj hth
    cases hcode
  · intro id a shutdown he th body hth hcode hfree
    cases he
    obtain rfl := Option.some.inj hth
    cases hcode

/-- An upload that fails to connect, with a callback that shuts the tunnel down. -/
def failedUpload : List FtEvent :=
  [.spawn (.job kCmdTypeUpload true), .go 0 { connectError := some [] } false, .go 0 {} true]

theorem failedUpload_locked :
    (after ftStep ftStart failedUpload).calls = [⟨0, .result FT_EIO 0 [] [], true⟩] := by
  decide +kernel

theorem jobs_wellBehaved_fails : ¬ InEveryState ftStep WellBehaved ftStart failedUpload := by
  intro h
  have hlocked := (h failedUpload [] (by simp)).unlocked ⟨0, .result FT_EIO 0 [] [], true⟩
    (by rw [failedUpload_locked]; exact List.mem_singleton_self _)
  cases hlocked

end OpenBambu.FileTransfer
