import OpenBambu.Foundation.Bytes
import OpenBambu.Foundation.Run
import Mathlib.Data.List.Nodup
import Mathlib.Logic.Function.Basic

/-!
# Snapshots of device certificates

`install_device_cert` checks, looks for the file, checks the session, and claims the device for a
worker, each under the mutex of the agent for itself. Its calls, their workers, `connect_printer`,
`disconnect_printer` and the clock take turns in any order.
-/

namespace OpenBambu.Agent.CertSnapshots

open OpenBambu.Foundation

/-! ## State -/

/-- How far a call of `install_device_cert` is. -/
inductive Stage where
  /-- The first check let it through. -/
  | checked
  /-- The certificate is on disk. -/
  | found
  /-- It is not. -/
  | missing
  /-- The second check found no session to the device. -/
  | clear
  /-- The device is in `cert_snapshot_inflight_`, the thread is not yet started. -/
  | claimed
  deriving DecidableEq, Repr

structure Call where
  stage : Stage
  devId : Bytes
  ip : Bytes
  cfgDir : Bytes
  /-- Since it was checked, something that the check looks at was written for the device. -/
  disturbed : Bool
  deriving DecidableEq, Repr

/-- A thread in `capture_peer_cert_pem`. -/
structure Worker where
  devId : Bytes
  ip : Bytes
  cfgDir : Bytes
  deriving DecidableEq, Repr

inductive ConnectStage where
  /-- The session before it has left the agent; `switching` is whether it was another printer's. -/
  | taken (switching : Bool)
  | switched
  /-- The certificate has been looked for, and taken if need be. -/
  | probed
  | started
  deriving DecidableEq, Repr

structure Connect where
  stage : ConnectStage
  devId : Bytes
  ip : Bytes
  deriving DecidableEq, Repr

structure State where
  certified : Bytes → Bool
  inflight : Bytes → Bool
  cooldown : Bytes → Option Nat
  /-- The steady clock, in seconds. -/
  now : Nat
  /-- The printer of `lan_session_` and its address. -/
  lanSession : Option (Bytes × Bytes)
  configDir : Bytes
  calls : Nat → Option Call
  connects : Nat → Option Connect
  workers : List Worker

def State.start (configDir : Bytes) : State where
  certified := fun _ => false
  inflight := fun _ => false
  cooldown := fun _ => none
  now := 0
  lanSession := none
  configDir := configDir
  calls := fun _ => none
  connects := fun _ => none
  workers := []

namespace State

def cooling (s : State) (devId : Bytes) : Bool := (s.cooldown devId).any fun due => s.now < due

/-- The session of the agent is one to the device. -/
def sessionTo (s : State) (devId : Bytes) : Bool := s.lanSession.any fun session => session.1 = devId

def sessionIp (s : State) (devId : Bytes) : Bytes :=
  match s.lanSession with
  | some (dev, ip) => if dev = devId then ip else []
  | none => []

def setCall (s : State) (thread : Nat) (call : Option Call) : State :=
  { s with calls := Function.update s.calls thread call }

def setConnect (s : State) (thread : Nat) (connect : Option Connect) : State :=
  { s with connects := Function.update s.connects thread connect }

/-- The calls that are concerned have been disturbed. -/
def disturb (s : State) (concerns : Call → Bool) : State :=
  { s with calls := fun thread => (s.calls thread).map fun c => { c with disturbed := c.disturbed || concerns c } }

def certify (s : State) (devId : Bytes) : State :=
  { s.disturb (fun c => c.devId = devId) with certified := Function.update s.certified devId true }

def takeSlot (s : State) (devId : Bytes) : State :=
  { s.disturb (fun c => c.devId = devId) with inflight := Function.update s.inflight devId true }

def coolDown (s : State) (devId : Bytes) : State :=
  { s.disturb (fun c => c.devId = devId) with
    cooldown := Function.update s.cooldown devId (some (s.now + 60)) }

def forgetCooldown (s : State) (devId : Bytes) : State :=
  { s with cooldown := Function.update s.cooldown devId none }

/-- The session is the one of the agent now; a call looks for it in its second check. -/
def publish (s : State) (devId ip : Bytes) : State :=
  { s.disturb (fun c => c.devId = devId && c.stage = .clear) with lanSession := some (devId, ip) }

end State

/-! ## Steps -/

inductive Event where
  | installDeviceCert (thread : Nat) (devId : Bytes) (lanOnly : Bool)
  /-- `is_regular_file` of the certificate. -/
  | lookForFile (thread : Nat) (isFile : Bool)
  | enterFound (thread : Nat)
  | lookForSession (thread : Nat)
  | claim (thread : Nat)
  | launch (thread : Nat)
  /-- The capture of a worker has come back, and its last section runs. -/
  | workerEnds (w : Worker) (ok : Bool)
  /-- The first section of `connect_printer`. -/
  | connectPrinter (thread : Nat) (devId ip : Bytes)
  | clearCertified (thread : Nat)
  /-- The certificate is there or not, or `connect_printer` takes it itself. -/
  | probeCert (thread : Nat) (captured : Bool)
  | startSession (thread : Nat) (ok : Bool)
  | publish (thread : Nat)
  | disconnectPrinter
  | setConfigDir (dir : Bytes)
  | tick (seconds : Nat)

namespace State

def installDeviceCert (s : State) (thread : Nat) (devId : Bytes) (lanOnly : Bool) : State :=
  if lanOnly = false then s
  else if s.certified devId then s
  else if s.inflight devId then s
  else if s.cooling devId then s
  else if s.sessionIp devId = [] then s
  else if s.configDir = [] then s
  else s.setCall thread (some ⟨.checked, devId, s.sessionIp devId, s.configDir, false⟩)

/-- What a call does next. -/
def goOn (s : State) (thread : Nat) (c : Call) : Event → State
  | .lookForFile _ isFile =>
      if c.stage = .checked then
        s.setCall thread (some { c with stage := if isFile then .found else .missing })
      else s
  | .enterFound _ => if c.stage = .found then (s.certify c.devId).setCall thread none else s
  | .lookForSession _ =>
      if c.stage = .missing then
        s.setCall thread (if s.sessionTo c.devId then none else some { c with stage := .clear })
      else s
  | .claim _ =>
      if c.stage = .clear then (s.takeSlot c.devId).setCall thread (some { c with stage := .claimed }) else s
  | .launch _ =>
      if c.stage = .claimed then
        { s.setCall thread none with workers := s.workers ++ [⟨c.devId, c.ip, c.cfgDir⟩] }
      else s
  | _ => s

/-- The turn of a thread that is in `install_device_cert`. -/
def callTurn (s : State) (thread : Nat) (e : Event) : State :=
  match s.calls thread with
  | some c => s.goOn thread c e
  | none => s

/-- The slot of a worker that is gone is free. -/
def leaveSlot (s : State) (w : Worker) : State :=
  { s with workers := s.workers.erase w, inflight := Function.update s.inflight w.devId false }

def endWorker (s : State) (w : Worker) (ok : Bool) : State :=
  let s := s.leaveSlot w
  if ok then (s.certify w.devId).forgetCooldown w.devId else s.coolDown w.devId

/-- What a call of `connect_printer` does next. -/
def connectOn (s : State) (thread : Nat) (k : Connect) : Event → State
  | .clearCertified _ =>
      match k.stage with
      | .taken switching =>
          { s.setConnect thread (some { k with stage := .switched }) with
            certified := if switching then fun _ => false else s.certified }
      | _ => s
  | .probeCert _ captured =>
      if k.stage = .switched then
        (if captured then s.certify k.devId else s).setConnect thread (some { k with stage := .probed })
      else s
  | .startSession _ ok =>
      if k.stage = .probed then s.setConnect thread (if ok then some { k with stage := .started } else none)
      else s
  | .publish _ => if k.stage = .started then (s.publish k.devId k.ip).setConnect thread none else s
  | _ => s

/-- The turn of a thread that is in `connect_printer`. -/
def connectTurn (s : State) (thread : Nat) (e : Event) : State :=
  match s.connects thread with
  | some k => s.connectOn thread k e
  | none => s

/-- An event whose time has not come changes nothing. -/
def step (s : State) (e : Event) : State :=
  match e with
  | .installDeviceCert thread devId lanOnly =>
      if (s.calls thread).isSome then s else s.installDeviceCert thread devId lanOnly
  | .lookForFile thread _ | .enterFound thread | .lookForSession thread | .claim thread | .launch thread =>
      s.callTurn thread e
  | .workerEnds w ok => if w ∈ s.workers then s.endWorker w ok else s
  | .connectPrinter thread devId ip =>
      if (s.connects thread).isSome then s
      else
        { s.setConnect thread (some ⟨.taken (s.lanSession.any fun session => session.1 ≠ devId), devId, ip⟩) with
          lanSession := none }
  | .clearCertified thread | .probeCert thread _ | .startSession thread _ | .publish thread =>
      s.connectTurn thread e
  | .disconnectPrinter => { s with lanSession := none }
  | .setConfigDir dir => { s with configDir := dir }
  | .tick seconds => { s with now := s.now + seconds }

end State

/-! ## What the checks are for -/

/-- The call that an event lets claim its device. -/
def State.claimant (s : State) : Event → Option Call
  | .claim thread => (s.calls thread).filter fun c => c.stage = .clear
  | _ => none

/-- No device has two workers. -/
def OneWorkerEach (s : State) : Prop := ∀ devId, (s.workers.map Worker.devId).count devId ≤ 1

/-- The device that is claimed is neither certified nor in cooldown, and no session to it is current. -/
def ClaimsFree (s : State) (e : Event) : Prop :=
  ∀ c ∈ s.claimant e, s.certified c.devId = false ∧ s.cooling c.devId = false ∧ s.sessionTo c.devId = false

/-- Nothing the call has checked was written since for its device. -/
def ClaimsUndisturbed (s : State) (e : Event) : Prop := ∀ c ∈ s.claimant e, c.disturbed = false

/-! ## What a call relies on -/

/-- A call that was not disturbed finds what it has checked as it was, and nobody else has the device
that a call has claimed. -/
structure CallSafe (s : State) (c : Call) : Prop where
  checked : c.stage ≠ .claimed → c.disturbed = false →
    s.inflight c.devId = false ∧ s.certified c.devId = false ∧ s.cooling c.devId = false
  clear : c.stage = .clear → c.disturbed = false → s.sessionTo c.devId = false
  slot : c.stage = .claimed → s.inflight c.devId = true ∧ c.devId ∉ s.workers.map Worker.devId

structure Inv (s : State) : Prop where
  calls : ∀ thread c, s.calls thread = some c → CallSafe s c
  alone : ∀ t u c d, s.calls t = some c → s.calls u = some d → c.stage = .claimed → d.stage = .claimed →
    c.devId = d.devId → t = u
  nodup : (s.workers.map Worker.devId).Nodup
  working : ∀ devId ∈ s.workers.map Worker.devId, s.inflight devId = true

theorem Inv.start (dir : Bytes) : Inv (.start dir) := by
  constructor
  · nofun
  · nofun
  · exact List.nodup_nil
  · nofun

theorem Inv.oneWorkerEach {s : State} (h : Inv s) : OneWorkerEach s := fun devId =>
  List.nodup_iff_count_le_one.1 h.nodup devId

theorem Inv.claimsFree {s : State} (h : Inv s) {e : Event} (he : ClaimsUndisturbed s e) : ClaimsFree s e := by
  intro c hc
  have hd := he c hc
  cases e with
  | claim thread =>
      obtain ⟨hcall, hstage⟩ := Option.mem_filter_iff.1 hc
      have hsafe := h.calls thread c hcall
      have hclear : c.stage = .clear := by simpa using hstage
      obtain ⟨-, hcert, hcool⟩ := hsafe.checked (by rw [hclear]; decide) hd
      exact ⟨hcert, hcool, hsafe.clear hclear hd⟩
  | _ => cases hc

/-! ## What the steps keep -/

theorem setCall_calls (s : State) (thread t : Nat) (call : Option Call) :
    (s.setCall thread call).calls t = if t = thread then call else s.calls t :=
  Function.update_apply ..

theorem certify_certified (s : State) (devId d : Bytes) :
    (s.certify devId).certified d = if d = devId then true else s.certified d :=
  Function.update_apply ..

theorem coolDown_cooldown (s : State) (devId d : Bytes) :
    (s.coolDown devId).cooldown d = if d = devId then some (s.now + 60) else s.cooldown d :=
  Function.update_apply ..

theorem forgetCooldown_cooldown (s : State) (devId d : Bytes) :
    (s.forgetCooldown devId).cooldown d = if d = devId then none else s.cooldown d :=
  Function.update_apply ..

theorem takeSlot_inflight (s : State) (devId d : Bytes) :
    (s.takeSlot devId).inflight d = if d = devId then true else s.inflight d :=
  Function.update_apply ..

theorem leaveSlot_inflight (s : State) (w : Worker) (d : Bytes) :
    (s.leaveSlot w).inflight d = if d = w.devId then false else s.inflight d :=
  Function.update_apply ..

/-- The agent holds no more against a device than before. -/
structure Freer (s s' : State) : Prop where
  inflight : s'.inflight = s.inflight
  workers : s'.workers = s.workers
  certified : ∀ devId, s.certified devId = false → s'.certified devId = false
  cooling : ∀ devId, s.cooling devId = false → s'.cooling devId = false
  session : ∀ devId, s.sessionTo devId = false → s'.sessionTo devId = false

theorem CallSafe.freer {s s' : State} {c : Call} (h : CallSafe s c) (hf : Freer s s') : CallSafe s' c := by
  constructor
  · intro hstage hd
    obtain ⟨hslot, hcert, hcool⟩ := h.checked hstage hd
    exact ⟨by rw [hf.inflight, hslot], hf.certified _ hcert, hf.cooling _ hcool⟩
  · intro hstage hd
    exact hf.session _ (h.clear hstage hd)
  · intro hstage
    rw [hf.inflight, hf.workers]
    exact h.slot hstage

theorem Inv.freer {s s' : State} (h : Inv s) (hf : Freer s s') (hcalls : s'.calls = s.calls) : Inv s' := by
  constructor
  · intro thread c hc
    rw [hcalls] at hc
    exact (h.calls thread c hc).freer hf
  · rw [hcalls]
    exact h.alone
  · rw [hf.workers]
    exact h.nodup
  · rw [hf.workers, hf.inflight]
    exact h.working

/-- A call goes on; one that has claimed its device is the only one that has. -/
theorem Inv.setCall {s : State} (h : Inv s) (thread : Nat) {call : Option Call}
    (hsafe : ∀ c ∈ call, CallSafe s c)
    (honly : ∀ c ∈ call, c.stage = .claimed → ∀ t d, s.calls t = some d → d.stage = .claimed →
      d.devId ≠ c.devId) : Inv (s.setCall thread call) := by
  constructor
  · intro t c hc
    have hold : CallSafe s c := by
      rw [setCall_calls] at hc
      split_ifs at hc
      · exact hsafe c hc
      · exact h.calls t c hc
    exact ⟨hold.checked, hold.clear, hold.slot⟩
  · intro t u c d hc hd hcs hds hdev
    rw [setCall_calls] at hc hd
    split_ifs at hc hd with ht hu hu
    · rw [ht, hu]
    · exact absurd hdev.symm (honly c hc hcs u d hd hds)
    · exact absurd hdev (honly d hd hds t c hc hcs)
    · exact h.alone t u c d hc hd hcs hds hdev
  · exact h.nodup
  · exact h.working

/-- A call that goes on without a claim relies on what it has checked. -/
theorem Inv.goOn {s : State} (h : Inv s) (thread : Nat) {c : Call} (hsafe : CallSafe s c)
    (hstage : c.stage ≠ .claimed) : Inv (s.setCall thread (some c)) := by
  refine h.setCall thread ?_ ?_
  · rintro d ⟨⟩
    exact hsafe
  · rintro d ⟨⟩ hclaimed
    exact absurd hclaimed hstage

theorem Inv.return {s : State} (h : Inv s) (thread : Nat) : Inv (s.setCall thread none) :=
  h.setCall thread nofun nofun

/-- Something is written that only the calls concerned have checked. -/
theorem Inv.disturb {s s' : State} (h : Inv s) {concerns : Call → Bool}
    (hcalls : s'.calls = (s.disturb concerns).calls)
    (hinflight : ∀ devId, s.inflight devId = true → s'.inflight devId = true)
    (hworkers : s'.workers = s.workers)
    (hsafe : ∀ d, CallSafe s d → concerns d = false → CallSafe s' d) : Inv s' := by
  have hfrom : ∀ t c, s'.calls t = some c →
      ∃ d, s.calls t = some d ∧ c = { d with disturbed := d.disturbed || concerns d } := by
    intro t c hc
    rw [hcalls] at hc
    obtain ⟨d, hd, rfl⟩ := Option.map_eq_some_iff.1 hc
    exact ⟨d, hd, rfl⟩
  constructor
  · intro t c hc
    obtain ⟨d, hd, rfl⟩ := hfrom t c hc
    have hold := h.calls t d hd
    cases hp : concerns d with
    | false =>
        rw [Bool.or_false]
        exact hsafe d hold hp
    | true =>
        refine ⟨fun _ hfalse => ?_, fun _ hfalse => ?_, fun hstage => ?_⟩
        · rw [Bool.or_true] at hfalse
          cases hfalse
        · rw [Bool.or_true] at hfalse
          cases hfalse
        · rw [hworkers]
          exact ⟨hinflight _ (hold.slot hstage).1, (hold.slot hstage).2⟩
  · intro t u c d hc hd hcs hds hdev
    obtain ⟨c, hold, rfl⟩ := hfrom t c hc
    obtain ⟨d, hold', rfl⟩ := hfrom u d hd
    exact h.alone t u c d hold hold' hcs hds hdev
  · rw [hworkers]
    exact h.nodup
  · rw [hworkers]
    exact fun devId hmem => hinflight devId (h.working devId hmem)

theorem Inv.certify {s : State} (h : Inv s) (devId : Bytes) : Inv (s.certify devId) := by
  refine h.disturb rfl (fun _ => id) rfl ?_
  intro d hold hne
  refine ⟨fun hstage hd => ?_, hold.clear, hold.slot⟩
  obtain ⟨hslot, hcert, hcool⟩ := hold.checked hstage hd
  have hother : d.devId ≠ devId := by simpa using hne
  exact ⟨hslot, by rw [certify_certified, if_neg hother, hcert], hcool⟩

theorem Inv.coolDown {s : State} (h : Inv s) (devId : Bytes) : Inv (s.coolDown devId) := by
  refine h.disturb rfl (fun _ => id) rfl ?_
  intro d hold hne
  refine ⟨fun hstage hd => ?_, hold.clear, hold.slot⟩
  obtain ⟨hslot, hcert, hcool⟩ := hold.checked hstage hd
  have hother : d.devId ≠ devId := by simpa using hne
  have hsame : (s.coolDown devId).cooling d.devId = s.cooling d.devId := by
    rw [State.cooling, coolDown_cooldown, if_neg hother]
    rfl
  exact ⟨hslot, hcert, hsame.trans hcool⟩

theorem Inv.publish {s : State} (h : Inv s) (devId ip : Bytes) : Inv (s.publish devId ip) := by
  refine h.disturb rfl (fun _ => id) rfl ?_
  intro d hold hne
  refine ⟨hold.checked, fun hstage _ => ?_, hold.slot⟩
  have hother : d.devId ≠ devId := by simpa [hstage] using hne
  simpa [State.sessionTo, State.publish] using hother.symm

theorem Inv.leaveSlot {s : State} (h : Inv s) {w : Worker} (hw : w ∈ s.workers) : Inv (s.leaveSlot w) := by
  have hsub : ((s.workers.erase w).map Worker.devId).Sublist (s.workers.map Worker.devId) :=
    List.erase_sublist.map _
  have hgone : w.devId ∉ (s.workers.erase w).map Worker.devId := by
    intro hmem
    obtain ⟨v, hv, heq⟩ := List.mem_map.1 hmem
    obtain ⟨hne, hv⟩ := (List.Nodup.mem_erase_iff h.nodup.of_map).1 hv
    exact hne (List.inj_on_of_nodup_map h.nodup hv hw heq)
  constructor
  · intro t c hc
    have hold := h.calls t c hc
    refine ⟨fun hstage hd => ?_, hold.clear, fun hstage => ?_⟩
    · obtain ⟨hslot, hcert, hcool⟩ := hold.checked hstage hd
      refine ⟨?_, hcert, hcool⟩
      rw [leaveSlot_inflight]
      split_ifs
      · rfl
      · exact hslot
    · obtain ⟨hslot, hout⟩ := hold.slot hstage
      have hne : c.devId ≠ w.devId := by
        intro heq
        exact hout (heq ▸ List.mem_map_of_mem hw)
      refine ⟨?_, fun hmem => hout (hsub.subset hmem)⟩
      rw [leaveSlot_inflight, if_neg hne, hslot]
  · exact h.alone
  · exact h.nodup.sublist hsub
  · intro devId hmem
    have hne : devId ≠ w.devId := fun heq => hgone (heq ▸ hmem)
    rw [leaveSlot_inflight, if_neg hne]
    exact h.working devId (hsub.subset hmem)

theorem Inv.takeSlot {s : State} (h : Inv s) (devId : Bytes) : Inv (s.takeSlot devId) := by
  have hkept : ∀ d, s.inflight d = true → (s.takeSlot devId).inflight d = true := by
    intro d hd
    rw [takeSlot_inflight, hd]
    split_ifs <;> rfl
  refine h.disturb rfl hkept rfl ?_
  intro d hold hne
  have hother : d.devId ≠ devId := by simpa using hne
  refine ⟨fun hstage hd => ?_, hold.clear, fun hstage => ⟨hkept _ (hold.slot hstage).1, (hold.slot hstage).2⟩⟩
  obtain ⟨hslot, hcert, hcool⟩ := hold.checked hstage hd
  exact ⟨by rw [takeSlot_inflight, if_neg hother, hslot], hcert, hcool⟩

theorem Inv.forgetCooldown {s : State} (h : Inv s) (devId : Bytes) : Inv (s.forgetCooldown devId) := by
  refine h.freer ⟨rfl, rfl, fun _ => id, ?_, fun _ => id⟩ rfl
  intro d hcool
  rw [State.cooling, forgetCooldown_cooldown]
  split_ifs
  · rfl
  · exact hcool

theorem Inv.endWorker {s : State} (h : Inv s) {w : Worker} (hw : w ∈ s.workers) (ok : Bool) :
    Inv (s.endWorker w ok) := by
  have hleft := h.leaveSlot hw
  rw [State.endWorker]
  cases ok with
  | true => exact (hleft.certify w.devId).forgetCooldown w.devId
  | false => exact hleft.coolDown w.devId

/-- A call that was not disturbed takes a slot that nobody has. -/
theorem Inv.claim {s : State} (h : Inv s) {thread : Nat} {c : Call} (hc : s.calls thread = some c)
    (hstage : c.stage = .clear) (hd : c.disturbed = false) :
    Inv ((s.takeSlot c.devId).setCall thread (some { c with stage := .claimed })) := by
  have hfree : s.inflight c.devId = false := ((h.calls thread c hc).checked (by rw [hstage]; decide) hd).1
  have hout : c.devId ∉ s.workers.map Worker.devId := by
    intro hmem
    rw [h.working _ hmem] at hfree
    cases hfree
  have htaken : (s.takeSlot c.devId).inflight c.devId = true := by rw [takeSlot_inflight, if_pos rfl]
  refine (h.takeSlot c.devId).setCall thread ?_ ?_
  · rintro d ⟨⟩
    exact ⟨fun hne => absurd rfl hne, nofun, fun _ => ⟨htaken, hout⟩⟩
  · rintro d ⟨⟩ - t e he hclaimed heq
    obtain ⟨old, hold, rfl⟩ := Option.map_eq_some_iff.1 he
    have hslot := ((h.calls t old hold).slot hclaimed).1
    rw [show old.devId = c.devId from heq, hfree] at hslot
    cases hslot

/-- The device of a claimed call gets its worker. -/
theorem Inv.launch {s : State} (h : Inv s) {thread : Nat} {c : Call} (hc : s.calls thread = some c)
    (hstage : c.stage = .claimed) (w : Worker) (hw : w.devId = c.devId) :
    Inv { s.setCall thread none with workers := s.workers ++ [w] } := by
  obtain ⟨hslot, hout⟩ := (h.calls thread c hc).slot hstage
  have hreturn := h.return thread
  have hold : ∀ t d, (s.setCall thread none).calls t = some d → t ≠ thread ∧ s.calls t = some d := by
    intro t d hd
    rw [setCall_calls] at hd
    split_ifs at hd with ht
    exact ⟨ht, hd⟩
  constructor
  · intro t d hd
    obtain ⟨ht, hcall⟩ := hold t d hd
    have hsafe := h.calls t d hcall
    refine ⟨hsafe.checked, hsafe.clear, fun hclaimed => ⟨(hsafe.slot hclaimed).1, ?_⟩⟩
    rw [List.map_append, List.mem_append, not_or]
    refine ⟨(hsafe.slot hclaimed).2, ?_⟩
    intro hmem
    have hdev : d.devId = c.devId := (List.mem_singleton.1 hmem).trans hw
    exact ht (h.alone t thread d c hcall hc hclaimed hstage hdev)
  · exact hreturn.alone
  · rw [List.map_append, List.nodup_append]
    refine ⟨h.nodup, List.nodup_singleton _, ?_⟩
    rintro a ha b hb rfl
    have hdev : a = c.devId := (List.mem_singleton.1 hb).trans hw
    exact hout (hdev ▸ ha)
  · intro devId hmem
    rw [List.map_append, List.mem_append] at hmem
    rcases hmem with hmem | hmem
    · exact h.working devId hmem
    · have hdev : devId = c.devId := (List.mem_singleton.1 hmem).trans hw
      exact hdev ▸ hslot

/-! ## Runs -/

theorem CallSafe.moved {s : State} {c : Call} (h : CallSafe s c) (hstage : c.stage ≠ .claimed) {stage : Stage}
    (hclear : stage = .clear → s.sessionTo c.devId = false) (hclaimed : stage ≠ .claimed) :
    CallSafe s { c with stage := stage } :=
  ⟨fun _ hd => h.checked hstage hd, fun hs _ => hclear hs, fun hs => absurd hs hclaimed⟩

theorem Inv.installDeviceCert {s : State} (h : Inv s) (thread : Nat) (devId : Bytes) (lanOnly : Bool) :
    Inv (s.installDeviceCert thread devId lanOnly) := by
  rw [State.installDeviceCert]
  split_ifs with hlan hcert hslot hcool hip hdir
  · exact h
  · exact h
  · exact h
  · exact h
  · exact h
  · exact h
  · refine h.goOn thread ⟨fun _ _ => ?_, nofun, nofun⟩ nofun
    exact ⟨by simpa using hslot, by simpa using hcert, by simpa using hcool⟩

/-- The turns of a call, one for each of its events. -/
theorem Inv.callGoesOn {s : State} (h : Inv s) {thread : Nat} {c : Call} (hc : s.calls thread = some c)
    {e : Event} (he : ∀ t, e = .claim t → c.stage = .clear → c.disturbed = false) :
    Inv (s.goOn thread c e) := by
  have hsafe := h.calls thread c hc
  cases e with
  | lookForFile t isFile =>
      rw [State.goOn]
      split_ifs with hstage hfile
      · exact h.goOn thread (hsafe.moved (by rw [hstage]; decide) nofun nofun) nofun
      · exact h.goOn thread (hsafe.moved (by rw [hstage]; decide) nofun nofun) nofun
      · exact h
  | enterFound t =>
      rw [State.goOn]
      split_ifs
      · exact (h.certify c.devId).return thread
      · exact h
  | lookForSession t =>
      rw [State.goOn]
      split_ifs with hstage hsession
      · exact h.return thread
      · refine h.goOn thread (hsafe.moved (by rw [hstage]; decide) ?_ nofun) nofun
        exact fun _ => by simpa using hsession
      · exact h
  | claim t =>
      rw [State.goOn]
      split_ifs with hstage
      · exact h.claim hc hstage (he t rfl hstage)
      · exact h
  | launch t =>
      rw [State.goOn]
      split_ifs with hstage
      · exact h.launch hc hstage _ rfl
      · exact h
  | _ => exact h

theorem Inv.setConnect {s : State} (h : Inv s) (thread : Nat) (k : Option Connect) :
    Inv (s.setConnect thread k) :=
  h.freer ⟨rfl, rfl, fun _ => id, fun _ => id, fun _ => id⟩ rfl

theorem Inv.connectGoesOn {s : State} (h : Inv s) (thread : Nat) (k : Connect) (e : Event) :
    Inv (s.connectOn thread k e) := by
  cases e with
  | clearCertified t =>
      rw [State.connectOn]
      split
      · refine h.freer ⟨rfl, rfl, ?_, fun _ => id, fun _ => id⟩ rfl
        intro devId hcert
        split_ifs
        · rfl
        · exact hcert
      · exact h
  | probeCert t captured =>
      rw [State.connectOn]
      split_ifs
      · exact (h.certify k.devId).setConnect thread _
      · exact h.setConnect thread _
      · exact h
  | startSession t ok =>
      rw [State.connectOn]
      split_ifs
      · exact h.setConnect thread _
      · exact h.setConnect thread _
      · exact h
  | publish t =>
      rw [State.connectOn]
      split_ifs
      · exact (h.publish k.devId k.ip).setConnect thread _
      · exact h
  | _ => exact h

/-- Without its session the agent holds no more against any device. -/
theorem Inv.withoutSession {s : State} (h : Inv s) : Inv { s with lanSession := none } :=
  h.freer ⟨rfl, rfl, fun _ => id, fun _ => id, fun _ _ => rfl⟩ rfl

theorem Inv.tick {s : State} (h : Inv s) (seconds : Nat) : Inv { s with now := s.now + seconds } := by
  refine h.freer ⟨rfl, rfl, fun _ => id, ?_, fun _ => id⟩ rfl
  intro devId hcool
  rw [State.cooling] at hcool ⊢
  cases hdue : s.cooldown devId with
  | none => rfl
  | some due =>
      simp only [hdue, Option.any_some, decide_eq_false_iff_not] at hcool ⊢
      omega

theorem Inv.callTurn {s : State} (h : Inv s) (thread : Nat) {e : Event}
    (he : ∀ t c, e = .claim t → s.calls thread = some c → c.stage = .clear → c.disturbed = false) :
    Inv (s.callTurn thread e) := by
  unfold State.callTurn
  split
  · rename_i c hc
    exact h.callGoesOn hc fun t hclaim => he t c hclaim hc
  · exact h

theorem Inv.connectTurn {s : State} (h : Inv s) (thread : Nat) (e : Event) : Inv (s.connectTurn thread e) := by
  unfold State.connectTurn
  split
  · exact h.connectGoesOn thread _ e
  · exact h

theorem Inv.step {s : State} (h : Inv s) {e : Event} (he : ClaimsUndisturbed s e) : Inv (s.step e) := by
  cases e with
  | installDeviceCert thread devId lanOnly =>
      rw [State.step]
      split_ifs
      · exact h
      · exact h.installDeviceCert thread devId lanOnly
  | lookForFile thread isFile => exact h.callTurn thread nofun
  | enterFound thread => exact h.callTurn thread nofun
  | lookForSession thread => exact h.callTurn thread nofun
  | claim thread =>
      refine h.callTurn thread fun _ c _ hc hstage => he c ?_
      exact Option.mem_filter_iff.2 ⟨hc, by simpa using hstage⟩
  | launch thread => exact h.callTurn thread nofun
  | workerEnds w ok =>
      rw [State.step]
      split_ifs with hw
      · exact h.endWorker hw ok
      · exact h
  | connectPrinter thread devId ip =>
      rw [State.step]
      split_ifs
      · exact h
      · exact (h.setConnect thread _).withoutSession
  | clearCertified thread => exact h.connectTurn thread _
  | probeCert thread captured => exact h.connectTurn thread _
  | startSession thread ok => exact h.connectTurn thread _
  | publish thread => exact h.connectTurn thread _
  | disconnectPrinter => exact h.withoutSession
  | setConfigDir dir => exact h.freer ⟨rfl, rfl, fun _ => id, fun _ => id, fun _ => id⟩ rfl
  | tick seconds => exact h.tick seconds

/-- Where every claim is made by a call that was not disturbed, no device ever has two workers, and
none is claimed that is certified, in cooldown or has a session. -/
theorem snapshots_apart {dir : Bytes} {run : List Event}
    (h : AtEveryStep State.step ClaimsUndisturbed (.start dir) run) :
    InEveryState State.step OneWorkerEach (.start dir) run ∧ AtEveryStep State.step ClaimsFree (.start dir) run := by
  have hinv : InEveryState State.step Inv (.start dir) run :=
    inEveryState_of_step (fun _ _ hs he => hs.step he) (Inv.start dir) h
  constructor
  · exact hinv.mono fun _ hs => hs.oneWorkerEach
  · intro past e rest hr
    exact (hinv past (e :: rest) hr).claimsFree (h past e rest hr)

/-! ## Schedules -/

instance (s : State) (e : Event) : Decidable (ClaimsUndisturbed s e) :=
  inferInstanceAs (Decidable (∀ c ∈ s.claimant e, c.disturbed = false))

def printer : Bytes := ascii "P"

/-- A session comes up, and two threads get through the first check before it ends. -/
def disconnected : List Event :=
  [.connectPrinter 0 printer (ascii "10.0.0.1"), .clearCertified 0, .probeCert 0 false, .startSession 0 true,
    .publish 0, .installDeviceCert 1 printer true, .installDeviceCert 2 printer true, .disconnectPrinter]

/-- One of the two looks for the certificate and claims the device. -/
def oneClaims : List Event :=
  disconnected ++ [.lookForFile 1 false, .lookForSession 1, .claim 1, .launch 1,
    .workerEnds ⟨printer, ascii "10.0.0.1", ascii "/c"⟩ false]

theorem snapshots_apart_of_one :
    InEveryState State.step OneWorkerEach (.start (ascii "/c")) oneClaims ∧
      AtEveryStep State.step ClaimsFree (.start (ascii "/c")) oneClaims := by
  refine snapshots_apart ?_
  repeat' first
    | exact atEveryStep_nil
    | refine atEveryStep_cons.2 ⟨by decide +kernel, ?_⟩

/-- The other does so at the same time. -/
def bothClaim : List Event :=
  disconnected ++ [.lookForFile 1 false, .lookForFile 2 false, .lookForSession 1, .lookForSession 2,
    .claim 1, .claim 2, .launch 1, .launch 2]

theorem snapshots_collide :
    ¬ (InEveryState State.step OneWorkerEach (.start (ascii "/c")) bothClaim ∧
      AtEveryStep State.step ClaimsFree (.start (ascii "/c")) bothClaim) := by
  intro ⟨h, _⟩
  have htwo := h bothClaim [] (List.append_nil _).symm printer
  revert htwo
  decide +kernel

end OpenBambu.Agent.CertSnapshots
