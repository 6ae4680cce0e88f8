import OpenBambu.FileTransfer.Blocking
import OpenBambu.Foundation.Counted

/-!
# The handles of tunnels and jobs

Tunnels and jobs of `abi_ft.cpp` are counted. A job thread has references of its own to its tunnel and its
job; a call has none, and uses its objects for as long as it runs, callbacks of Studio in between. So
Studio has to keep a reference through each call, and needs none for a job that is under way.
-/

namespace OpenBambu.FileTransfer

open OpenBambu.Foundation

/-! ## What the calls touch -/

inductive Kind where
  | tunnel (isLan : Bool)
  | job (cmdType : Int)
  deriving DecidableEq, Repr

/-- What decides which objects a call or a job thread touches. -/
structure Path where
  /-- A result or connect callback is set. -/
  callback : Bool
  /-- A status callback is set. -/
  status : Bool
  /-- `connect_lan_tunnel` has no error. -/
  connects : Bool
  /-- How often `cancelled` and `progress` look at the job while data is moved, and whether there is a message
  callback then. -/
  looks : List Bool
  deriving DecidableEq, Repr

def calledBack (set : Bool) : List Access := if set then [.callback] else []

/-- `deliver_result`: the fields under `mu`, `cv`, `result_cb`, and for the callback the fields again. -/
def deliverAccesses (j : Nat) (p : Path) : List Access :=
  [.touch j, .touch j, .touch j] ++ if p.callback then [.touch j, .callback] else []

/-- `run_ability_job`: all of it under `lan_mu`, and the result behind it. -/
def abilityAccesses (t j : Nat) (p : Path) : List Access :=
  [.touch t, .touch t, .touch t] ++ deliverAccesses j p

/-- `run_upload_job` and `run_download_job`: a failed connect is delivered under `lan_mu`. -/
def transferAccesses (t j : Nat) (p : Path) : List Access :=
  [.touch j, .touch t, .touch t] ++
    if p.connects then
      p.looks.flatMap (fun msg => .touch j :: calledBack msg) ++ .touch t :: deliverAccesses j p
    else deliverAccesses j p ++ [.touch t]

/-- The job thread up to its last lines. -/
def runAccesses (t j : Nat) (cmdType : Int) (p : Path) : List Access :=
  .touch j ::
    if cmdType = kCmdTypeMediaAbility then abilityAccesses t j p
    else if cmdType = kCmdTypeUpload then transferAccesses t j p
    else if cmdType = kCmdTypeDownload then transferAccesses t j p
    else .touch j :: deliverAccesses j p

/-- The thread of `spawn_job`. -/
def jobThread (t j : Nat) (cmdType : Int) (p : Path) : List Access :=
  runAccesses t j cmdType p ++ [.release j, .release t]

/-- `spawn_job`. -/
def spawnJob (t j : Nat) (cmdType : Int) (p : Path) : List Statement :=
  [.access (.retain t), .access (.retain j), .spawn (jobThread t j cmdType p)]

/-- The calls that use an object. A null handle is answered with `FT_EINVAL`. -/
inductive FtCall where
  | tunnelSetStatusCb (t : Option Nat)
  | tunnelStartConnect (t : Option Nat)
  | tunnelSyncConnect (t : Option Nat)
  | tunnelShutdown (t : Option Nat)
  | tunnelStartJob (t j : Option Nat)
  | jobSetResultCb (j : Option Nat)
  | jobSetMsgCb (j : Option Nat)
  | jobGetResult (j : Option Nat)
  | jobCancel (j : Option Nat)
  deriving DecidableEq, Repr

def isLan (s : Shared Kind) (t : Nat) : Bool :=
  match (s.heap.objects[t]?).map Counted.data with
  | some (.tunnel lan) => lan
  | _ => false

def cmdTypeOf (s : Shared Kind) (j : Nat) : Int :=
  match (s.heap.objects[j]?).map Counted.data with
  | some (.job cmdType) => cmdType
  | _ => 0

/-- `ft_tunnel_start_connect` behind its null check. -/
def startConnectAccesses (t : Nat) (lan : Bool) (p : Path) : List Access :=
  [.touch t, .touch t] ++
    if lan then [.touch t, .touch t] ++ calledBack p.callback ++ .touch t :: calledBack p.status ++ [.touch t]
    else calledBack p.callback ++ .touch t :: calledBack p.status

def syncConnectAccesses (t : Nat) (lan : Bool) : List Access :=
  .touch t :: if lan then [.touch t, .touch t, .touch t] else []

/-- `ft_tunnel_start_job` for a tunnel that is not on the LAN: the callback comes first, then the fields. -/
def stubJobAccesses (j : Nat) (p : Path) : List Access :=
  .touch j :: calledBack p.callback ++ [.touch j, .touch j, .touch j, .touch j]

def touches (n h : Nat) : Routine := ⟨[h], (List.replicate n (Access.touch h)).map .access⟩

/-- What a call does, with the objects of the handles that it is given. -/
def FtCall.routine (s : Shared Kind) (p : Path) : FtCall → Option Routine
  | .tunnelSetStatusCb t => t.map (touches 2)
  | .tunnelStartConnect t => t.map fun t => ⟨[t], (startConnectAccesses t (isLan s t) p).map .access⟩
  | .tunnelSyncConnect t => t.map fun t => ⟨[t], (syncConnectAccesses t (isLan s t)).map .access⟩
  | .tunnelShutdown t => t.map (touches 4)
  | .tunnelStartJob (some t) (some j) =>
      some ⟨[t, j], .access (.touch t) ::
        if isLan s t then spawnJob t j (cmdTypeOf s j) p else (stubJobAccesses j p).map .access⟩
  | .tunnelStartJob _ _ => none
  | .jobSetResultCb j => j.map (touches 2)
  | .jobSetMsgCb j => j.map (touches 2)
  | .jobGetResult j => j.map (touches 3)
  | .jobCancel j => j.map (touches 1)

/-! ## Runs -/

inductive HandleEvent where
  | tunnelCreate (lan : Bool)
  | jobCreate (cmdType : Int)
  | retain (h : Option Nat)
  | release (h : Option Nat)
  | call (c : FtCall) (p : Path)
  /-- A call or a job thread goes on. -/
  | turn (i : Nat)

/-- The event of the objects and routines that an event of the library is, if it is one. -/
def HandleEvent.shared (s : Shared Kind) : HandleEvent → Option (SharedEvent Kind)
  | .tunnelCreate lan => some (.create (.tunnel lan))
  | .jobCreate cmdType => some (.create (.job cmdType))
  | .retain h => h.map .retain
  | .release h => h.map .release
  | .call c p => (c.routine s p).map .start
  | .turn i => some (.turn i)

def handleStep (s : Shared Kind) (e : HandleEvent) : Shared Kind :=
  match e.shared s with
  | none => s
  | some e => s.step e

/-- What Studio owes: it passes handles that it has references to, and gives none up that is the last one of
its own while a call that was given the handle has not returned. No count overflows. -/
def HandleLegal (s : Shared Kind) : HandleEvent → Prop
  | .tunnelCreate _ | .jobCreate _ => True
  | .retain h => ∀ g ∈ h, 0 < s.mine g ∧ s.references g + 1 < 2 ^ 31
  | .release h => ∀ g ∈ h, 0 < s.mine g ∧ (s.mine g = 1 → ∀ r ∈ s.routines, r.todo ≠ [] → g ∉ r.pins)
  | .call c p => ∀ r ∈ c.routine s p, ∀ h ∈ r.pins, 0 < s.mine h
  | .turn i => ∀ h ∈ (s.routines[i]?).bind Routine.retains, s.references h + 1 < 2 ^ 31

instance (s : Shared Kind) : DecidablePred (HandleLegal s)
  | .tunnelCreate _ | .jobCreate _ => inferInstanceAs (Decidable True)
  | .retain h => inferInstanceAs (Decidable (∀ g ∈ h, 0 < s.mine g ∧ s.references g + 1 < 2 ^ 31))
  | .release h => inferInstanceAs (Decidable (∀ g ∈ h, 0 < s.mine g ∧
      (s.mine g = 1 → ∀ r ∈ s.routines, r.todo ≠ [] → g ∉ r.pins)))
  | .call c p => inferInstanceAs (Decidable (∀ r ∈ c.routine s p, ∀ h ∈ r.pins, 0 < s.mine h))
  | .turn i => inferInstanceAs (Decidable (∀ h ∈ (s.routines[i]?).bind Routine.retains, s.references h + 1 < 2 ^ 31))

/-! ## Every call is careful -/

/-- The accesses are to these objects and neither take nor give a reference. -/
structure Only (hs : List Nat) (body : List Access) : Prop where
  quiet : Quiet body
  uses : ∀ a ∈ body, ∀ h ∈ a.uses, h ∈ hs

theorem Only.nil {hs : List Nat} : Only hs [] := ⟨by simp [Quiet], by simp⟩

theorem Only.touch {hs : List Nat} {body : List Access} {h : Nat} (hh : h ∈ hs) (hb : Only hs body) :
    Only hs (.touch h :: body) where
  quiet := by
    intro a ha g
    rcases List.mem_cons.mp ha with rfl | ha
    · rfl
    · exact hb.quiet a ha g
  uses := by
    intro a ha g hg
    rcases List.mem_cons.mp ha with rfl | ha
    · rw [List.mem_singleton.mp hg]
      exact hh
    · exact hb.uses a ha g hg

theorem Only.append {hs : List Nat} {xs ys : List Access} (hx : Only hs xs) (hy : Only hs ys) : Only hs (xs ++ ys) where
  quiet := by
    intro a ha
    rcases List.mem_append.mp ha with ha | ha
    · exact hx.quiet a ha
    · exact hy.quiet a ha
  uses := by
    intro a ha
    rcases List.mem_append.mp ha with ha | ha
    · exact hx.uses a ha
    · exact hy.uses a ha

theorem only_calledBack {hs : List Nat} (set : Bool) : Only hs (calledBack set) := by
  cases set with
  | false => exact Only.nil
  | true => exact ⟨by simp [Quiet, calledBack, Access.gives], by simp [calledBack, Access.uses]⟩

theorem only_deliver {hs : List Nat} {j : Nat} (hj : j ∈ hs) (p : Path) : Only hs (deliverAccesses j p) := by
  have hback : Only hs (if p.callback then [.touch j, .callback] else []) := by
    split_ifs
    · exact Only.touch hj (only_calledBack true)
    · exact Only.nil
  exact (Only.touch hj (Only.touch hj (Only.touch hj Only.nil))).append hback

theorem only_transfer {hs : List Nat} {t j : Nat} (ht : t ∈ hs) (hj : j ∈ hs) (p : Path) :
    Only hs (transferAccesses t j p) := by
  have hlooks : Only hs (p.looks.flatMap fun msg => .touch j :: calledBack msg) := by
    induction p.looks with
    | nil => exact Only.nil
    | cons msg looks ih => exact (Only.touch hj (only_calledBack msg)).append ih
  refine (Only.touch hj (Only.touch ht (Only.touch ht Only.nil))).append ?_
  split_ifs
  · exact hlooks.append (Only.touch ht (only_deliver hj p))
  · exact (only_deliver hj p).append (Only.touch ht Only.nil)

theorem only_run {hs : List Nat} {t j : Nat} (ht : t ∈ hs) (hj : j ∈ hs) (cmdType : Int) (p : Path) :
    Only hs (runAccesses t j cmdType p) := by
  refine Only.touch hj ?_
  split_ifs
  · exact (Only.touch ht (Only.touch ht (Only.touch ht Only.nil))).append (only_deliver hj p)
  · exact only_transfer ht hj p
  · exact only_transfer ht hj p
  · exact Only.touch hj (only_deliver hj p)

theorem only_startConnect {hs : List Nat} {t : Nat} (ht : t ∈ hs) (lan : Bool) (p : Path) :
    Only hs (startConnectAccesses t lan p) := by
  refine (Only.touch ht (Only.touch ht Only.nil)).append ?_
  have hback := @only_calledBack hs p.callback
  have hstatus := @only_calledBack hs p.status
  split_ifs
  · exact (((Only.touch ht (Only.touch ht Only.nil)).append hback).append (Only.touch ht hstatus)).append
      (Only.touch ht Only.nil)
  · exact hback.append (Only.touch ht hstatus)

theorem only_replicate {hs : List Nat} {h : Nat} (hh : h ∈ hs) (n : Nat) : Only hs (List.replicate n (.touch h)) := by
  induction n with
  | zero => exact Only.nil
  | succ n ih => exact Only.touch hh ih

/-- A call that only looks at the objects it is given. -/
theorem Only.careful {hs : List Nat} {body : List Access} (hb : Only hs body) :
    Routine.Careful ⟨hs, body.map .access⟩ ∧ ∀ h, owed h (body.map .access) = 0 := by
  refine ⟨⟨?_, fun inner hinner => ?_⟩, hb.quiet.owes_none⟩
  · have hcovered := @Quiet.covered body hb.quiet hs [] (fun a ha h hh => Or.inl (hb.uses a ha h hh)) trivial
    rwa [List.append_nil] at hcovered
  · obtain ⟨a, _, ha⟩ := List.mem_map.mp hinner
    cases ha

/-- A job thread stands behind its two references to the end. -/
theorem jobThread_covered (t j : Nat) (cmdType : Int) (p : Path) :
    Covered [] (spawned (jobThread t j cmdType p)).todo := by
  have hrun : Only [t, j] (runAccesses t j cmdType p) := only_run (by simp) (by simp) cmdType p
  have htail : Covered [] [Statement.access (.release j), .access (.release t)] := by
    refine ⟨fun h => ?_, fun h hh => ?_, fun h => ?_, fun h hh => ?_, trivial⟩
    · simp only [owed, List.map_cons, List.map_nil, List.sum_cons, List.sum_nil, Statement.gives, Access.gives]
      split_ifs <;> decide
    · obtain rfl := List.mem_singleton.mp hh
      right
      simp only [owed, List.map_cons, List.map_nil, List.sum_cons, List.sum_nil, Statement.gives, Access.gives, if_true]
      split_ifs <;> decide
    · simp only [owed, List.map_cons, List.map_nil, List.sum_cons, List.sum_nil, Statement.gives, Access.gives]
      split_ifs <;> decide
    · obtain rfl := List.mem_singleton.mp hh
      right
      simp [owed, Statement.gives, Access.gives]
  rw [jobThread, spawned, List.map_append]
  refine hrun.quiet.covered (fun a ha h hh => Or.inr ?_) htail
  have hmem := hrun.uses a ha h hh
  simp only [owed, List.map_cons, List.map_nil, List.sum_cons, List.sum_nil, Statement.gives, Access.gives]
  simp only [List.mem_cons, List.not_mem_nil, or_false] at hmem
  rcases hmem with rfl | rfl
  · rw [if_pos rfl]
    split_ifs <;> decide
  · rw [if_pos rfl]
    split_ifs <;> decide

theorem spawnJob_gives (t j : Nat) (cmdType : Int) (p : Path) (h : Nat) :
    (Statement.spawn (jobThread t j cmdType p)).gives h = (if j = h then 1 else 0) + if t = h then 1 else 0 := by
  have hrun : Only [t, j] (runAccesses t j cmdType p) := only_run (by simp) (by simp) cmdType p
  rw [← owed_spawned, jobThread, spawned, List.map_append, owed_append, hrun.quiet.owes_none]
  simp [owed, Statement.gives, Access.gives]

theorem spawnJob_careful (t j : Nat) (cmdType : Int) (p : Path) :
    Routine.Careful ⟨[t, j], .access (.touch t) :: spawnJob t j cmdType p⟩ ∧
      ∀ h, owed h (.access (.touch t) :: spawnJob t j cmdType p) = 0 := by
  have hspawn : ∀ h, owed h [Statement.spawn (jobThread t j cmdType p)] =
      (if j = h then 1 else 0) + if t = h then 1 else 0 := by
    intro h
    rw [owed_cons, spawnJob_gives]
    exact Int.add_zero _
  have hjob : ∀ h, owed h [.access (.retain j), .spawn (jobThread t j cmdType p)] = if t = h then 1 else 0 := by
    intro h
    rw [owed_cons, hspawn, Statement.gives, Access.gives]
    split_ifs <;> decide
  have hboth : ∀ h, owed h (spawnJob t j cmdType p) = 0 := by
    intro h
    rw [spawnJob, owed_cons, hjob, Statement.gives, Access.gives]
    split_ifs <;> decide
  have hall : ∀ h, owed h (.access (.touch t) :: spawnJob t j cmdType p) = 0 := by
    intro h
    rw [owed_cons, hboth]
    rfl
  refine ⟨⟨⟨fun h => (hall h).ge, ?_, fun h => (hboth h).ge, ?_, ?_, ?_, ?_, ?_, trivial⟩, ?_⟩, hall⟩
  · intro h hh
    obtain rfl := List.mem_singleton.mp hh
    exact Or.inl List.mem_cons_self
  · intro h hh
    obtain rfl := List.mem_singleton.mp hh
    exact Or.inl List.mem_cons_self
  · intro h
    rw [hjob]
    split_ifs <;> decide
  · intro h hh
    obtain rfl := List.mem_singleton.mp hh
    exact Or.inl (by simp)
  · intro h
    rw [hspawn]
    split_ifs <;> decide
  · intro h hh
    cases hh
  · intro body hbody
    simp only [spawnJob, List.mem_cons, List.not_mem_nil, or_false, reduceCtorEq, false_or] at hbody
    rw [Statement.spawn.inj hbody]
    exact jobThread_covered t j cmdType p

theorem routine_careful {s : Shared Kind} {p : Path} {c : FtCall} {r : Routine} (h : c.routine s p = some r) :
    r.Careful ∧ ∀ h, owed h r.todo = 0 := by
  have hsome : ∀ {t : Option Nat} {f : Nat → Routine}, t.map f = some r →
      (∀ t, (f t).Careful ∧ ∀ h, owed h (f t).todo = 0) → r.Careful ∧ ∀ h, owed h r.todo = 0 := by
    intro t f hr hf
    obtain ⟨g, _, rfl⟩ := Option.map_eq_some_iff.mp hr
    exact hf g
  have htouches : ∀ n t, (touches n t).Careful ∧ ∀ h, owed h (touches n t).todo = 0 :=
    fun n t => (only_replicate (List.mem_singleton_self t) n).careful
  cases c with
  | tunnelSetStatusCb t => exact hsome h (htouches 2)
  | tunnelStartConnect t => exact hsome h fun t => (only_startConnect (List.mem_singleton_self t) _ p).careful
  | tunnelSyncConnect t =>
      refine hsome h fun t => ?_
      have ht := List.mem_singleton_self t
      have honly : Only [t] (syncConnectAccesses t (isLan s t)) := by
        refine Only.touch ht ?_
        split_ifs
        · exact only_replicate ht 3
        · exact Only.nil
      exact honly.careful
  | tunnelShutdown t => exact hsome h (htouches 4)
  | tunnelStartJob t j =>
      cases t with
      | none => cases h
      | some t =>
          cases j with
          | none => cases h
          | some j =>
              obtain rfl := Option.some.inj h
              by_cases hlan : isLan s t = true
              · rw [if_pos hlan]
                exact spawnJob_careful t j _ p
              · rw [if_neg hlan]
                have hj : j ∈ [t, j] := by simp
                have hstub : Only [t, j] (.touch t :: stubJobAccesses j p) :=
                  Only.touch List.mem_cons_self
                    (Only.touch hj ((only_calledBack p.callback).append (only_replicate hj 4)))
                exact hstub.careful
  | jobSetResultCb j => exact hsome h (htouches 2)
  | jobSetMsgCb j => exact hsome h (htouches 2)
  | jobGetResult j => exact hsome h (htouches 3)
  | jobCancel j => exact hsome h (htouches 1)

/-! ## No handle dangles -/

theorem handleStep_ordered (s : Shared Kind) (e : HandleEvent) (hs : s.Ordered) (hlegal : HandleLegal s e) :
    (handleStep s e).Ordered := by
  unfold handleStep
  cases hshared : e.shared s with
  | none => exact hs
  | some se =>
      refine Shared.ordered_step s se hs ?_
      cases e with
      | tunnelCreate lan =>
          obtain rfl := Option.some.inj hshared
          trivial
      | jobCreate cmdType =>
          obtain rfl := Option.some.inj hshared
          trivial
      | retain h =>
          obtain ⟨g, hg, rfl⟩ := Option.map_eq_some_iff.mp hshared
          exact hlegal g hg
      | release h =>
          obtain ⟨g, hg, rfl⟩ := Option.map_eq_some_iff.mp hshared
          exact hlegal g hg
      | call c p =>
          obtain ⟨r, hr, rfl⟩ := Option.map_eq_some_iff.mp hshared
          obtain ⟨hcareful, hnone⟩ := routine_careful hr
          exact ⟨hcareful, hnone, hlegal r hr⟩
      | turn i =>
          obtain rfl := Option.some.inj hshared
          exact hlegal

/-- Nothing touches an object that is deleted, and an object is deleted once: when neither Studio nor a job thread has
a reference to it. -/
structure NoneDangles (s : Shared Kind) : Prop where
  sound : s.heap.fault = false
  deleted : ∀ h, h ∈ s.heap.deleted ↔ h < s.heap.objects.length ∧ s.references h = 0
  once : s.heap.deleted.Nodup

theorem none_dangles {s : Shared Kind} (hs : s.Ordered) : NoneDangles s where
  sound := hs.balanced.sound
  deleted := by
    intro h
    rw [hs.balanced.deleted]
    constructor
    · rintro ⟨o, ho, hfreed⟩
      have htells := hs.balanced.counted h o ho
      unfold Counted.Tells at htells
      rw [if_pos hfreed] at htells
      exact ⟨(List.getElem?_eq_some_iff.mp ho).1, htells⟩
    · rintro ⟨hlt, hrefs⟩
      have ho := List.getElem?_eq_getElem hlt
      have htells := hs.balanced.counted h _ ho
      unfold Counted.Tells at htells
      refine ⟨_, ho, ?_⟩
      by_contra hfreed
      rw [if_neg hfreed, hrefs] at htells
      exact absurd htells.1 (by decide)
  once := hs.balanced.once

/-- A job on a LAN tunnel whose handles Studio gives up while its thread runs. -/
def jobBehindHandles : List HandleEvent :=
  [.tunnelCreate true, .jobCreate kCmdTypeMediaAbility,
    .call (.tunnelStartJob (some 0) (some 1)) ⟨true, false, true, []⟩,
    .turn 0, .turn 0, .turn 0, .turn 0, .turn 1, .release (some 0), .release (some 1), .turn 1]

/-- A job on a tunnel that is not on the LAN, in its result callback. -/
def stubCallback : List HandleEvent :=
  [.tunnelCreate false, .jobCreate kCmdTypeUpload, .call (.tunnelStartJob (some 0) (some 1)) ⟨true, false, true, []⟩,
    .turn 0, .turn 0, .turn 0]

/-- Whatever Studio calls, from any of its threads and in its callbacks, and however the job threads run beside it:
while it keeps to the contract, no handle dangles. -/
theorem handles_counted {events : List HandleEvent} (hlegal : AtEveryStep handleStep HandleLegal Shared.start events) :
    InEveryState handleStep NoneDangles Shared.start events :=
  (inEveryState_of_step handleStep_ordered Shared.ordered_start hlegal).mono fun _ hs => none_dangles hs

theorem handles_counted_job : InEveryState handleStep NoneDangles Shared.start jobBehindHandles := by
  refine handles_counted ?_
  simp only [jobBehindHandles, atEveryStep_cons, atEveryStep_nil, and_true]
  decide

/-- When Studio has given up its last reference to the handle of a call that has not returned, and no job thread
has one, the next use in the call is one of a deleted object. -/
theorem released_in_call_faults {events : List HandleEvent}
    (hlegal : AtEveryStep handleStep HandleLegal Shared.start events) {h i : Nat} {r : Routine} {a : Access}
    {rest : List Statement} (hmine : 0 < (after handleStep Shared.start events).mine h)
    (hlast : (after handleStep Shared.start events).references h = 1)
    (hi : (after handleStep Shared.start events).routines[i]? = some r) (htodo : r.todo = .access a :: rest)
    (huses : h ∈ a.uses) :
    (after handleStep Shared.start (events ++ [.release (some h), .turn i])).heap.fault = true := by
  have hs := inEveryState_of_step handleStep_ordered Shared.ordered_start hlegal events [] (List.append_nil _).symm
  rw [after_append]
  exact hs.faults hmine hlast hi htodo huses

/-- The callback of the stub path gives the job up, which the call goes on to use. -/
theorem released_in_call_faults_stub :
    (after handleStep Shared.start (stubCallback ++ [.release (some 1), .turn 0])).heap.fault = true := by
  refine released_in_call_faults (r := ⟨[0, 1], (List.replicate 4 (Access.touch 1)).map .access⟩) (a := .touch 1) ?_
    (by decide) (by decide) rfl rfl (by decide)
  simp only [stubCallback, atEveryStep_cons, atEveryStep_nil, and_true]
  decide

end OpenBambu.FileTransfer
