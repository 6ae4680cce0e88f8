import OpenBambu.Agent.CloudSession
import OpenBambu.Foundation.Run
import Mathlib.Data.Finset.Insert

/-!
# Subscriptions of a started session, thread by thread

`add_subscribe`, `del_subscribe`, `apply_subscriptions_locked_` and the handlers of `cloud_session.cpp`,
by any number of threads and the network thread. A thread waits for `mu_`, works on the two sets, reads
`connected_`, which the network thread sets without the mutex, and lets go of the mutex while it tells
of failed attempts. A call out of a callback is one of a thread of its own.
-/

namespace OpenBambu.Agent.Subscriptions

open OpenBambu.Foundation

/-- Where a thread is. -/
inductive Pc where
  | idle
  | wantAdd (ids : List Bytes)
  | wantDel (ids : List Bytes)
  /-- The ids are in `subscribed_`, the flag is read next. -/
  | added
  /-- At the beginning of `apply_subscriptions_locked_`. -/
  | collecting
  /-- The ids still to be subscribed, and those that failed; the number is that of the connection at
  the beginning. -/
  | applying (connection : Nat) (todo failed : List Bytes)
  /-- The mutex is released for the callbacks. -/
  | notifying (failed : List Bytes)
  /-- With the mutex, at the end. -/
  | finishing
  /-- In the connect handler, `connected_` is set. -/
  | wantApply
  /-- In the disconnect handler, `connected_` is cleared. -/
  | wantClear
  deriving DecidableEq, Repr

/-- The thread has the mutex. -/
def Pc.holds : Pc → Bool
  | .added => true
  | .collecting => true
  | .applying _ _ _ => true
  | .finishing => true
  | _ => false

/-- The thread is to apply subscriptions, or to find out whether it is. -/
def Pc.applies : Pc → Bool
  | .added => true
  | .collecting => true
  | .applying _ _ _ => true
  | _ => false

/-- The failed attempts of which nobody has been told. -/
def Pc.pending : Pc → List Bytes
  | .applying _ _ failed => failed
  | .notifying failed => failed
  | _ => []

/-- The state of the session and its threads; `none` is the network thread. The last five fields keep
what has happened: the connections so far, whether subscriptions were applied on the present one, the
ids whose last attempt on it failed, and each thread's failed attempts and callbacks. -/
structure State (ι : Type) where
  subscribed : Finset Bytes
  active : Finset Bytes
  connected : Bool
  holder : Option (Option ι)
  pc : Option ι → Pc
  connections : Nat
  applied : Bool
  refused : Finset Bytes
  failures : Option ι → List Bytes
  told : Option ι → List Bytes

inductive Turn (ι : Type) where
  | callAdd (i : ι) (ids : List Bytes)
  | callDel (i : ι) (ids : List Bytes)
  /-- The broker answers. -/
  | connect (accepted : Bool)
  | disconnect
  | lock (t : Option ι)
  | readFlag (t : Option ι)
  /-- The ids that are not active, in some order. -/
  | collect (t : Option ι) (todo : List Bytes)
  | attempt (t : Option ι) (ok : Bool)
  | endLoop (t : Option ι)
  | notify (t : Option ι)
  | unlock (t : Option ι)

section

variable {ι : Type} [DecidableEq ι]

def State.goto (s : State ι) (t : Option ι) (p : Pc) : State ι := { s with pc := Function.update s.pc t p }

/-- The mutex is free and the thread takes it. -/
def State.enter (s : State ι) (t : Option ι) : Pc → State ι
  | .wantAdd ids =>
      { s.goto t .added with subscribed := s.subscribed ∪ deviceIds ids, holder := some t }
  | .wantDel ids =>
      { s.goto t .finishing with
        subscribed := s.subscribed \ ids.toFinset, active := s.active \ ids.toFinset, holder := some t }
  | .wantApply => { s.goto t .collecting with active := ∅, holder := some t }
  | .wantClear => { s.goto t .finishing with active := ∅, holder := some t }
  | .notifying [] => { s.goto t .finishing with holder := some t }
  | _ => s

/-- One turn of the loop over the ids. -/
def State.attempt (s : State ι) (t : Option ι) (ok : Bool) : Pc → State ι
  | .applying n (d :: todo) failed =>
      if ok then
        { s.goto t (.applying n todo failed) with active := insert d s.active, refused := s.refused.erase d }
      else
        { s.goto t (.applying n todo (failed ++ [d])) with
          refused := insert d s.refused, failures := Function.update s.failures t (s.failures t ++ [d]) }
  | _ => s

def State.endLoop (s : State ι) (t : Option ι) : Pc → State ι
  | .applying n [] failed =>
      if failed = [] then { s.goto t .finishing with applied := s.applied || n = s.connections }
      else { s.goto t (.notifying failed) with applied := s.applied || n = s.connections, holder := none }
  | _ => s

/-- One call of the callback, where one is set. -/
def State.notify (callback : Bool) (s : State ι) (t : Option ι) : Pc → State ι
  | .notifying (d :: failed) =>
      { s.goto t (.notifying failed) with
        told := if callback then Function.update s.told t (s.told t ++ [d]) else s.told }
  | _ => s

/-- A turn whose time has not come changes nothing. -/
def step (callback : Bool) (s : State ι) : Turn ι → State ι
  | .callAdd i ids => if s.pc (some i) = .idle then s.goto (some i) (.wantAdd ids) else s
  | .callDel i ids => if s.pc (some i) = .idle then s.goto (some i) (.wantDel ids) else s
  | .connect accepted =>
      if s.pc none = .idle then
        if accepted then
          { s.goto none .wantApply with
            connected := true, connections := s.connections + 1, applied := false, refused := ∅ }
        else { s with connected := false }
      else s
  | .disconnect => if s.pc none = .idle then { s.goto none .wantClear with connected := false } else s
  | .lock t => if s.holder = none then s.enter t (s.pc t) else s
  | .readFlag t =>
      if s.pc t = .added then s.goto t (if s.connected then .collecting else .finishing) else s
  | .collect t todo =>
      if s.pc t = .collecting ∧ todo.Nodup ∧ todo.toFinset = s.subscribed \ s.active then
        s.goto t (.applying s.connections todo [])
      else s
  | .attempt t ok => s.attempt t ok (s.pc t)
  | .endLoop t => s.endLoop t (s.pc t)
  | .notify t => s.notify callback t (s.pc t)
  | .unlock t => if s.pc t = .finishing then { s.goto t .idle with holder := none } else s

end

section

variable {ι : Type}

/-- A session that was started, with the ids that were subscribed before. -/
def started (subscribed : Finset Bytes) : State ι where
  subscribed := subscribed
  active := ∅
  connected := false
  holder := none
  pc := fun _ => .idle
  connections := 0
  applied := false
  refused := ∅
  failures := fun _ => []
  told := fun _ => []

/-! ## What a turn keeps -/

/-- What is neither active nor still to be subscribed has failed, on this connection if it is still the
one of the beginning. -/
structure Looping (s : State ι) (connection : Nat) (todo failed : List Bytes) : Prop where
  connection_le : connection ≤ s.connections
  nodup : (todo ++ failed).Nodup
  wanted : ∀ d ∈ todo, d ∈ s.subscribed ∧ d ∉ s.active
  cover : ∀ d ∈ s.subscribed, d ∈ s.active ∨ d ∈ todo ∨ d ∈ failed
  refused : connection = s.connections → ∀ d ∈ failed, d ∈ s.refused
  stale : connection ≠ s.connections → s.applied = false

def InLoop (s : State ι) : Pc → Prop
  | .applying n todo failed => Looping s n todo failed
  | _ => True

/-- How far the network thread is, against the flag. -/
def InHandler (s : State ι) : Pc → Prop
  | .idle => True
  | .wantApply => s.connected = true
  | .collecting => s.connected = true
  | .applying n _ _ => s.connected = true ∧ n = s.connections
  | .notifying _ => s.connected = true → s.applied = true
  | .finishing => s.connected = true → s.applied = true
  | .wantClear => s.connected = false
  | _ => False

/-- Each failed attempt was told of, or is going to be. -/
def Told (callback : Bool) (s : State ι) (t : Option ι) (p : Pc) : Prop :=
  if callback then s.failures t = s.told t ++ p.pending else s.told t = []

structure Inv (callback : Bool) (s : State ι) : Prop where
  lock : ∀ t, (s.pc t).holds = true ↔ s.holder = some t
  subset : ∀ d ∈ s.active, d ∈ s.subscribed
  apart : ∀ d ∈ s.active, d ∉ s.refused
  loop : ∀ t, InLoop s (s.pc t)
  settled : s.connected = true → s.applied = true → (∀ t, (s.pc t).applies = false) →
    ∀ d ∈ s.subscribed, d ∈ s.active ∨ d ∈ s.refused
  handler : InHandler s (s.pc none)
  callers : ∀ i, s.pc (some i) ≠ .wantApply ∧ s.pc (some i) ≠ .wantClear
  told : ∀ t, Told callback s t (s.pc t)

theorem InLoop.free {s : State ι} {p : Pc} (h : p.holds = false) : InLoop s p := by
  cases p with
  | applying n todo failed => cases h
  | _ => trivial

theorem InLoop.same {s s' : State ι} {p : Pc} (h : InLoop s p) (hsub : s'.subscribed = s.subscribed)
    (hact : s'.active = s.active) (href : s'.refused = s.refused) (hconn : s'.connections = s.connections)
    (happ : s'.applied = s.applied) : InLoop s' p := by
  cases p with
  | applying n todo failed =>
      obtain ⟨hle, hnd, hw, hc, hr, hs⟩ := h
      refine ⟨?_, hnd, ?_, ?_, ?_, ?_⟩
      · rwa [hconn]
      · rwa [hsub, hact]
      · rwa [hsub, hact]
      · rwa [hconn, href]
      · rwa [hconn, happ]
  | _ => trivial

/-- A loop that another connection has overtaken. -/
theorem InLoop.reconnected {s s' : State ι} {p : Pc} (h : InLoop s p) (hsub : s'.subscribed = s.subscribed)
    (hact : s'.active = s.active) (hconn : s'.connections = s.connections + 1)
    (happ : s'.applied = false) : InLoop s' p := by
  cases p with
  | applying n todo failed =>
      obtain ⟨hle, hnd, hw, hc, hr, hs⟩ := h
      refine ⟨?_, hnd, ?_, ?_, ?_, fun _ => happ⟩
      · rw [hconn]
        exact Nat.le_succ_of_le hle
      · rwa [hsub, hact]
      · rwa [hsub, hact]
      · intro hn
        rw [hconn] at hn
        omega
  | _ => trivial

theorem InHandler.mono {s s' : State ι} {p : Pc} (h : InHandler s p) (hflag : s'.connected = s.connected)
    (hconn : s'.connections = s.connections) (happ : s.applied = true → s'.applied = true) :
    InHandler s' p := by
  cases p with
  | idle => trivial
  | wantApply => exact hflag.trans h
  | collecting => exact hflag.trans h
  | applying n todo failed => exact ⟨hflag.trans h.1, h.2.trans hconn.symm⟩
  | notifying failed =>
      intro hc
      exact happ (h (hflag.symm.trans hc))
  | finishing =>
      intro hc
      exact happ (h (hflag.symm.trans hc))
  | wantClear => exact hflag.trans h
  | wantAdd ids => exact h
  | wantDel ids => exact h
  | added => exact h

variable {callback : Bool} {s s' : State ι} {t : Option ι} {p : Pc}

/-- The other threads of a mutex's holder do not have it. -/
theorem Inv.alone (h : Inv callback s) (ht : (s.pc t).holds = true) {u : Option ι} (hu : u ≠ t) :
    (s.pc u).holds = false := by
  rw [← Bool.not_eq_true, h.lock u, (h.lock t).1 ht]
  intro he
  exact hu (Option.some.inj he).symm

theorem Inv.free (h : Inv callback s) (hn : s.holder = none) (u : Option ι) : (s.pc u).holds = false := by
  rw [← Bool.not_eq_true, h.lock u, hn]
  nofun

theorem Pc.applies_free {p : Pc} (h : p.holds = false) : p.applies = false := by
  cases p with
  | added => cases h
  | collecting => cases h
  | applying n todo failed => cases h
  | _ => rfl

/-- At the end of a loop of the present connection what is not active has failed. -/
theorem Looping.over {n : Nat} {failed : List Bytes} (hl : Looping s n [] failed)
    (happlied : (s.applied || decide (n = s.connections)) = true) :
    ∀ d ∈ s.subscribed, d ∈ s.active ∨ d ∈ s.refused := by
  intro d hd
  have hn : n = s.connections := by
    by_contra hne
    rw [hl.stale hne, decide_eq_false hne] at happlied
    cases happlied
  rcases hl.cover d hd with ha | ht | hf
  · exact Or.inl ha
  · cases ht
  · exact Or.inr (hl.refused hn d hf)

variable [DecidableEq ι]

/-- Only one thread got further. -/
structure Moved (s s' : State ι) (t : Option ι) (p : Pc) : Prop where
  pc : s'.pc = Function.update s.pc t p
  holder : ∀ u, u ≠ t → (s'.holder = some u ↔ s.holder = some u)
  failures : ∀ u, u ≠ t → s'.failures u = s.failures u
  told : ∀ u, u ≠ t → s'.told u = s.told u

theorem Moved.self (hm : Moved s s' t p) : s'.pc t = p := by
  rw [hm.pc, Function.update_self]

theorem Moved.other (hm : Moved s s' t p) {u : Option ι} (hu : u ≠ t) : s'.pc u = s.pc u := by
  rw [hm.pc, Function.update_of_ne hu]

theorem Inv.moved (h : Inv callback s) (hm : Moved s s' t p)
    (hlock : p.holds = true ↔ s'.holder = some t) (hsubset : ∀ d ∈ s'.active, d ∈ s'.subscribed)
    (hapart : ∀ d ∈ s'.active, d ∉ s'.refused) (hloop : InLoop s' p)
    (hothers : ∀ u, u ≠ t → InLoop s' (s.pc u))
    (hsettled : s'.connected = true → s'.applied = true → p.applies = false →
      (∀ u, u ≠ t → (s.pc u).applies = false) → ∀ d ∈ s'.subscribed, d ∈ s'.active ∨ d ∈ s'.refused)
    (hhandler : t = none → InHandler s' p) (hbehind : t ≠ none → InHandler s' (s.pc none))
    (hcaller : t ≠ none → p ≠ .wantApply ∧ p ≠ .wantClear) (htold : Told callback s' t p) :
    Inv callback s' := by
  constructor
  · intro u
    by_cases hu : u = t
    · rw [hu, hm.self]
      exact hlock
    · rw [hm.other hu, hm.holder u hu]
      exact h.lock u
  · exact hsubset
  · exact hapart
  · intro u
    by_cases hu : u = t
    · rw [hu, hm.self]
      exact hloop
    · rw [hm.other hu]
      exact hothers u hu
  · intro hc ha hall
    apply hsettled hc ha
    · rw [← hm.self]
      exact hall t
    · intro u hu
      rw [← hm.other hu]
      exact hall u
  · by_cases ht : t = none
    · rw [← ht, hm.self]
      exact hhandler ht
    · rw [hm.other (Ne.symm ht)]
      exact hbehind ht
  · intro i
    by_cases hi : some i = t
    · rw [hi, hm.self]
      exact hcaller (hi ▸ Option.some_ne_none i)
    · rw [hm.other hi]
      exact h.callers i
  · intro u
    by_cases hu : u = t
    · rw [hu, hm.self]
      exact htold
    · rw [hm.other hu, Told, hm.failures u hu, hm.told u hu]
      exact h.told u

/-! ### Turns that only go on -/

theorem Inv.goto (h : Inv callback s) (hholds : p.holds = (s.pc t).holds) (hloop : InLoop s p)
    (happlies : s.connected = true → s.applied = true → p.applies = (s.pc t).applies)
    (hhandler : t = none → InHandler s p) (hcaller : t ≠ none → p ≠ .wantApply ∧ p ≠ .wantClear)
    (hpending : p.pending = (s.pc t).pending) : Inv callback (s.goto t p) := by
  have hm : Moved s (s.goto t p) t p := ⟨rfl, fun _ _ => Iff.rfl, fun _ _ => rfl, fun _ _ => rfl⟩
  apply h.moved hm
  · rw [hholds]
    exact h.lock t
  · exact h.subset
  · exact h.apart
  · exact hloop.same rfl rfl rfl rfl rfl
  · intro u _
    exact (h.loop u).same rfl rfl rfl rfl rfl
  · intro hc ha hp hrest
    apply h.settled hc ha
    intro u
    by_cases hu : u = t
    · rw [hu, ← happlies hc ha, hp]
    · exact hrest u hu
  · intro ht
    exact (hhandler ht).mono rfl rfl id
  · intro _
    exact h.handler.mono rfl rfl id
  · exact hcaller
  · have htold := h.told t
    rw [Told, ← hpending] at htold
    exact htold

/-- An idle caller comes with ids, and waits for the mutex. -/
theorem Inv.call (h : Inv callback s) {i : ι} (hidle : s.pc (some i) = .idle) {p : Pc} (hholds : p.holds = false)
    (happlies : p.applies = false) (hpending : p.pending = []) (hcaller : p ≠ .wantApply ∧ p ≠ .wantClear) :
    Inv callback (s.goto (some i) p) := by
  apply h.goto
  · rw [hidle, hholds]
    rfl
  · exact InLoop.free hholds
  · intro _ _
    rw [hidle, happlies]
    rfl
  · exact nofun
  · exact fun _ => hcaller
  · rw [hidle, hpending]
    rfl

theorem Inv.callAdd (h : Inv callback s) (i : ι) (ids : List Bytes) :
    Inv callback (step callback s (.callAdd i ids)) := by
  rw [step]
  split_ifs with hp
  · exact h.call hp rfl rfl rfl ⟨nofun, nofun⟩
  · exact h

theorem Inv.callDel (h : Inv callback s) (i : ι) (ids : List Bytes) :
    Inv callback (step callback s (.callDel i ids)) := by
  rw [step]
  split_ifs with hp
  · exact h.call hp rfl rfl rfl ⟨nofun, nofun⟩
  · exact h

theorem Inv.readFlag (h : Inv callback s) (t : Option ι) : Inv callback (step callback s (.readFlag t)) := by
  rw [step]
  split_ifs with hp hconn
  · apply h.goto
    · rw [hp]
      rfl
    · trivial
    · intro _ _
      rw [hp]
      rfl
    · intro _
      exact hconn
    · exact fun _ => ⟨nofun, nofun⟩
    · rw [hp]
      rfl
  · apply h.goto
    · rw [hp]
      rfl
    · trivial
    · intro hc
      exact absurd hc hconn
    · intro _ hc
      exact absurd hc hconn
    · exact fun _ => ⟨nofun, nofun⟩
    · rw [hp]
      rfl
  · exact h

/-- At the beginning of the loop nothing has failed. -/
theorem Inv.collect (h : Inv callback s) (t : Option ι) (todo : List Bytes) :
    Inv callback (step callback s (.collect t todo)) := by
  rw [step]
  split_ifs with hc
  · obtain ⟨hp, hnd, htodo⟩ := hc
    have hmem : ∀ d, d ∈ todo ↔ d ∈ s.subscribed ∧ d ∉ s.active := by
      intro d
      rw [← List.mem_toFinset, htodo, Finset.mem_sdiff]
    apply h.goto
    · rw [hp]
      rfl
    · constructor
      · exact le_rfl
      · rwa [List.append_nil]
      · intro d hd
        exact (hmem d).1 hd
      · intro d hd
        by_cases ha : d ∈ s.active
        · exact Or.inl ha
        · exact Or.inr (Or.inl ((hmem d).2 ⟨hd, ha⟩))
      · exact fun _ => nofun
      · intro hne
        exact absurd rfl hne
    · intro _ _
      rw [hp]
      rfl
    · intro ht
      have hh := h.handler
      rw [← ht, hp] at hh
      exact ⟨hh, rfl⟩
    · exact fun _ => ⟨nofun, nofun⟩
    · rw [hp]
      rfl
  · exact h

/-! ### Turns with the mutex -/

theorem Inv.attempt_ok (h : Inv callback s) {n : Nat} {d : Bytes} {todo failed : List Bytes}
    (hp : s.pc t = .applying n (d :: todo) failed) :
    Inv callback (s.attempt t true (.applying n (d :: todo) failed)) := by
  have hholds : (s.pc t).holds = true := by
    rw [hp]
    rfl
  have hl : Looping s n (d :: todo) failed := by
    have hl := h.loop t
    rwa [hp] at hl
  have hnd : d ∉ todo ++ failed ∧ (todo ++ failed).Nodup := List.nodup_cons.1 hl.nodup
  have hm : Moved s (s.attempt t true (.applying n (d :: todo) failed)) t (.applying n todo failed) :=
    ⟨rfl, fun _ _ => Iff.rfl, fun _ _ => rfl, fun _ _ => rfl⟩
  apply h.moved hm
  · exact iff_of_true rfl ((h.lock t).1 hholds)
  · intro e he
    rcases Finset.mem_insert.1 he with rfl | he
    · exact (hl.wanted e List.mem_cons_self).1
    · exact h.subset e he
  · intro e he hr
    obtain ⟨hne, hr⟩ := Finset.mem_erase.1 hr
    exact h.apart e (Finset.mem_of_mem_insert_of_ne he hne) hr
  · constructor
    · exact hl.connection_le
    · exact hnd.2
    · intro e he
      obtain ⟨hsub, hact⟩ := hl.wanted e (List.mem_cons_of_mem d he)
      refine ⟨hsub, ?_⟩
      intro hin
      rcases Finset.mem_insert.1 hin with rfl | hin
      · exact hnd.1 (List.mem_append_left failed he)
      · exact hact hin
    · intro e he
      rcases hl.cover e he with ha | ht | hf
      · exact Or.inl (Finset.mem_insert_of_mem ha)
      · rcases List.mem_cons.1 ht with rfl | ht
        · exact Or.inl (Finset.mem_insert_self e s.active)
        · exact Or.inr (Or.inl ht)
      · exact Or.inr (Or.inr hf)
    · intro hn e he
      refine Finset.mem_erase.2 ⟨?_, hl.refused hn e he⟩
      rintro rfl
      exact hnd.1 (List.mem_append_right todo he)
    · exact hl.stale
  · intro u hu
    exact InLoop.free (h.alone hholds hu)
  · intro _ _ hf
    cases hf
  · intro ht
    have hh := h.handler
    rw [← ht, hp] at hh
    exact hh
  · intro _
    exact h.handler.mono rfl rfl id
  · exact fun _ => ⟨nofun, nofun⟩
  · have htold := h.told t
    rw [hp] at htold
    exact htold

theorem Inv.attempt_failed (h : Inv callback s) {n : Nat} {d : Bytes} {todo failed : List Bytes}
    (hp : s.pc t = .applying n (d :: todo) failed) :
    Inv callback (s.attempt t false (.applying n (d :: todo) failed)) := by
  have hholds : (s.pc t).holds = true := by
    rw [hp]
    rfl
  have hl : Looping s n (d :: todo) failed := by
    have hl := h.loop t
    rwa [hp] at hl
  have hm : Moved s (s.attempt t false (.applying n (d :: todo) failed)) t
      (.applying n todo (failed ++ [d])) :=
    ⟨rfl, fun _ _ => Iff.rfl, fun _ hu => Function.update_of_ne hu _ _, fun _ _ => rfl⟩
  apply h.moved hm
  · exact iff_of_true rfl ((h.lock t).1 hholds)
  · exact h.subset
  · intro e he hr
    rcases Finset.mem_insert.1 hr with rfl | hr
    · exact (hl.wanted e List.mem_cons_self).2 he
    · exact h.apart e he hr
  · constructor
    · exact hl.connection_le
    · have hperm : (d :: todo ++ failed).Perm (todo ++ (failed ++ [d])) := by
        rw [← List.append_assoc]
        exact (List.perm_append_singleton d (todo ++ failed)).symm
      exact hperm.nodup hl.nodup
    · intro e he
      exact hl.wanted e (List.mem_cons_of_mem d he)
    · intro e he
      rcases hl.cover e he with ha | ht | hf
      · exact Or.inl ha
      · rcases List.mem_cons.1 ht with rfl | ht
        · exact Or.inr (Or.inr (List.mem_append_right failed List.mem_cons_self))
        · exact Or.inr (Or.inl ht)
      · exact Or.inr (Or.inr (List.mem_append_left [d] hf))
    · intro hn e he
      rcases List.mem_append.1 he with hf | hd
      · exact Finset.mem_insert_of_mem (hl.refused hn e hf)
      · rw [List.mem_singleton.1 hd]
        exact Finset.mem_insert_self d s.refused
    · exact hl.stale
  · intro u hu
    exact InLoop.free (h.alone hholds hu)
  · intro _ _ hf
    cases hf
  · intro ht
    have hh := h.handler
    rw [← ht, hp] at hh
    exact hh
  · intro _
    exact h.handler.mono rfl rfl id
  · exact fun _ => ⟨nofun, nofun⟩
  · have htold := h.told t
    rw [hp, Told, Pc.pending] at htold
    rw [Told]
    split_ifs at htold ⊢
    · rw [Pc.pending, ← List.append_assoc]
      change Function.update s.failures t (s.failures t ++ [d]) t = s.told t ++ failed ++ [d]
      rw [Function.update_self, htold]
    · exact htold

theorem Inv.endLoop (h : Inv callback s) (t : Option ι) : Inv callback (step callback s (.endLoop t)) := by
  rw [step]
  cases hp : s.pc t with
  | applying n todo failed =>
      cases todo with
      | cons d todo => exact h
      | nil =>
          have hholds : (s.pc t).holds = true := by
            rw [hp]
            rfl
          have hl : Looping s n [] failed := by
            have hl := h.loop t
            rwa [hp] at hl
          have hh : t = none → s.connected = true ∧ n = s.connections := by
            intro ht
            have hh := h.handler
            rwa [← ht, hp] at hh
          have happlied : t = none → (s.applied || decide (n = s.connections)) = true := by
            intro ht
            rw [decide_eq_true (hh ht).2, Bool.or_true]
          have htold := h.told t
          rw [hp] at htold
          rw [State.endLoop]
          split_ifs with hfailed
          · apply Inv.moved (t := t) (p := .finishing) h
            · exact ⟨rfl, fun _ _ => Iff.rfl, fun _ _ => rfl, fun _ _ => rfl⟩
            · exact iff_of_true rfl ((h.lock t).1 hholds)
            · exact h.subset
            · exact h.apart
            · trivial
            · intro u hu
              exact InLoop.free (h.alone hholds hu)
            · intro _ ha _ _
              exact hl.over ha
            · intro ht _
              exact happlied ht
            · intro _
              exact h.handler.mono rfl rfl (Bool.or_eq_true_iff.2 ∘ Or.inl)
            · exact fun _ => ⟨nofun, nofun⟩
            · rw [hfailed] at htold
              exact htold
          · apply Inv.moved (t := t) (p := .notifying failed) h
            · refine ⟨rfl, ?_, fun _ _ => rfl, fun _ _ => rfl⟩
              intro u hu
              rw [(h.lock t).1 hholds]
              exact iff_of_false nofun (hu ∘ Eq.symm ∘ Option.some.inj)
            · exact iff_of_false nofun nofun
            · exact h.subset
            · exact h.apart
            · trivial
            · intro u hu
              exact InLoop.free (h.alone hholds hu)
            · intro _ ha _ _
              exact hl.over ha
            · intro ht _
              exact happlied ht
            · intro _
              exact h.handler.mono rfl rfl (Bool.or_eq_true_iff.2 ∘ Or.inl)
            · exact fun _ => ⟨nofun, nofun⟩
            · exact htold
  | _ => exact h

theorem Inv.attempt (h : Inv callback s) (t : Option ι) (ok : Bool) :
    Inv callback (step callback s (.attempt t ok)) := by
  rw [step]
  cases hp : s.pc t with
  | applying n todo failed =>
      cases todo with
      | nil => exact h
      | cons d todo =>
          cases ok with
          | true => exact h.attempt_ok hp
          | false => exact h.attempt_failed hp
  | _ => exact h

theorem Inv.notify (h : Inv callback s) (t : Option ι) : Inv callback (step callback s (.notify t)) := by
  rw [step]
  cases hp : s.pc t with
  | notifying failed =>
      cases failed with
      | nil => exact h
      | cons d failed =>
          apply Inv.moved (t := t) (p := .notifying failed) h
          · refine ⟨rfl, fun _ _ => Iff.rfl, fun _ _ => rfl, ?_⟩
            intro u hu
            rw [State.notify]
            split_ifs
            · exact Function.update_of_ne hu _ _
            · rfl
          · have hlock := h.lock t
            rw [hp] at hlock
            exact hlock
          · exact h.subset
          · exact h.apart
          · trivial
          · intro u _
            exact (h.loop u).same rfl rfl rfl rfl rfl
          · intro hc ha _ hrest
            apply h.settled hc ha
            intro u
            by_cases hu : u = t
            · rw [hu, hp]
              rfl
            · exact hrest u hu
          · intro ht
            have hh := h.handler
            rw [← ht, hp] at hh
            exact hh
          · intro _
            exact h.handler.mono rfl rfl id
          · exact fun _ => ⟨nofun, nofun⟩
          · have htold := h.told t
            rw [hp, Told, Pc.pending] at htold
            rw [State.notify, Told]
            cases callback with
            | false => exact htold
            | true =>
                change s.failures t = Function.update s.told t (s.told t ++ [d]) t ++ failed
                rw [Function.update_self, List.append_assoc]
                exact htold
  | _ => exact h

theorem Inv.unlock (h : Inv callback s) (t : Option ι) : Inv callback (step callback s (.unlock t)) := by
  rw [step]
  split_ifs with hp
  · have hholds : (s.pc t).holds = true := by
      rw [hp]
      rfl
    apply Inv.moved (t := t) (p := .idle) h
    · refine ⟨rfl, ?_, fun _ _ => rfl, fun _ _ => rfl⟩
      intro u hu
      rw [(h.lock t).1 hholds]
      exact iff_of_false nofun (hu ∘ Eq.symm ∘ Option.some.inj)
    · exact iff_of_false nofun nofun
    · exact h.subset
    · exact h.apart
    · trivial
    · intro u _
      exact (h.loop u).same rfl rfl rfl rfl rfl
    · intro hc ha _ hrest
      apply h.settled hc ha
      intro u
      by_cases hu : u = t
      · rw [hu, hp]
        rfl
      · exact hrest u hu
    · exact fun _ => trivial
    · intro _
      exact h.handler.mono rfl rfl id
    · exact fun _ => ⟨nofun, nofun⟩
    · have htold := h.told t
      rw [hp] at htold
      exact htold
  · exact h

/-! ### Turns of the network thread -/

theorem Inv.disconnect (h : Inv callback s) : Inv callback (step callback s .disconnect) := by
  rw [step]
  split_ifs with hp
  · have htold := h.told none
    rw [hp] at htold
    apply Inv.moved (t := none) (p := .wantClear) h
    · exact ⟨rfl, fun _ _ => Iff.rfl, fun _ _ => rfl, fun _ _ => rfl⟩
    · have hlock := h.lock none
      rw [hp] at hlock
      exact hlock
    · exact h.subset
    · exact h.apart
    · trivial
    · intro u _
      exact (h.loop u).same rfl rfl rfl rfl rfl
    · intro hc
      cases hc
    · exact fun _ => rfl
    · intro hne
      exact absurd rfl hne
    · intro hne
      exact absurd rfl hne
    · exact htold
  · exact h

theorem Inv.connect (h : Inv callback s) (accepted : Bool) :
    Inv callback (step callback s (.connect accepted)) := by
  rw [step]
  split_ifs with hp haccepted
  · have htold := h.told none
    rw [hp] at htold
    apply Inv.moved (t := none) (p := .wantApply) h
    · exact ⟨rfl, fun _ _ => Iff.rfl, fun _ _ => rfl, fun _ _ => rfl⟩
    · have hlock := h.lock none
      rw [hp] at hlock
      exact hlock
    · exact h.subset
    · exact fun _ _ => Finset.notMem_empty _
    · trivial
    · intro u _
      exact (h.loop u).reconnected rfl rfl rfl rfl
    · intro _ ha
      cases ha
    · exact fun _ => rfl
    · intro hne
      exact absurd rfl hne
    · intro hne
      exact absurd rfl hne
    · exact htold
  · have htold := h.told none
    rw [hp] at htold
    constructor
    · exact h.lock
    · exact h.subset
    · exact h.apart
    · intro u
      exact (h.loop u).same rfl rfl rfl rfl rfl
    · intro hc
      cases hc
    · rw [hp]
      trivial
    · exact h.callers
    · exact h.told
  · exact h

/-! ### Taking the mutex -/

/-- A thread takes the mutex, and the connection is the same. -/
structure Taken (s s' : State ι) (t : Option ι) (p : Pc) : Prop where
  pc : s'.pc = Function.update s.pc t p
  holder : s'.holder = some t
  holds : p.holds = true
  pending : p.pending = (s.pc t).pending
  failures : s'.failures = s.failures
  told : s'.told = s.told
  connected : s'.connected = s.connected
  connections : s'.connections = s.connections
  applied : s'.applied = s.applied

theorem Inv.taken (h : Inv callback s) (hn : s.holder = none) (ht : Taken s s' t p) (hloop : InLoop s' p)
    (hsubset : ∀ d ∈ s'.active, d ∈ s'.subscribed) (hapart : ∀ d ∈ s'.active, d ∉ s'.refused)
    (hsettled : s.connected = true → s.applied = true → p.applies = false →
      (∀ d ∈ s.subscribed, d ∈ s.active ∨ d ∈ s.refused) →
      ∀ d ∈ s'.subscribed, d ∈ s'.active ∨ d ∈ s'.refused)
    (hhandler : t = none → InHandler s' p) : Inv callback s' := by
  apply Inv.moved (t := t) (p := p) h
  · refine ⟨ht.pc, ?_, ?_, ?_⟩
    · intro u hu
      rw [hn, ht.holder]
      exact iff_of_false (hu ∘ Eq.symm ∘ Option.some.inj) nofun
    · intro u _
      rw [ht.failures]
    · intro u _
      rw [ht.told]
  · exact iff_of_true ht.holds ht.holder
  · exact hsubset
  · exact hapart
  · exact hloop
  · intro u _
    exact InLoop.free (h.free hn u)
  · intro hc ha hp _
    rw [ht.connected] at hc
    rw [ht.applied] at ha
    apply hsettled hc ha hp
    apply h.settled hc ha
    intro u
    exact Pc.applies_free (h.free hn u)
  · exact hhandler
  · intro _
    exact h.handler.mono ht.connected ht.connections ht.applied.trans
  · intro _
    have hholds := ht.holds
    refine ⟨?_, ?_⟩ <;>
      · rintro rfl
        cases hholds
  · have htold := h.told t
    rw [Told, ← ht.pending] at htold
    rw [Told, ht.failures, ht.told]
    exact htold

theorem Inv.lockTurn (h : Inv callback s) (t : Option ι) : Inv callback (step callback s (.lock t)) := by
  rw [step]
  split_ifs with hn
  · have hh : t = none → InHandler s (s.pc t) := by
      rintro rfl
      exact h.handler
    cases hp : s.pc t with
    | wantAdd ids =>
        apply Inv.taken (t := t) (p := .added) h hn
        · exact ⟨rfl, rfl, rfl, by rw [hp]; rfl, rfl, rfl, rfl, rfl, rfl⟩
        · trivial
        · intro d hd
          exact Finset.mem_union_left _ (h.subset d hd)
        · exact h.apart
        · intro _ _ hf
          cases hf
        · intro ht
          have hh := hh ht
          rw [hp] at hh
          exact hh
    | wantDel ids =>
        apply Inv.taken (t := t) (p := .finishing) h hn
        · exact ⟨rfl, rfl, rfl, by rw [hp]; rfl, rfl, rfl, rfl, rfl, rfl⟩
        · trivial
        · intro d hd
          obtain ⟨ha, hids⟩ := Finset.mem_sdiff.1 hd
          exact Finset.mem_sdiff.2 ⟨h.subset d ha, hids⟩
        · intro d hd
          exact h.apart d (Finset.mem_sdiff.1 hd).1
        · intro _ _ _ hcover d hd
          obtain ⟨hsub, hids⟩ := Finset.mem_sdiff.1 hd
          exact (hcover d hsub).imp_left fun ha => Finset.mem_sdiff.2 ⟨ha, hids⟩
        · intro ht
          have hh := hh ht
          rw [hp] at hh
          exact hh.elim
    | wantApply =>
        apply Inv.taken (t := t) (p := .collecting) h hn
        · exact ⟨rfl, rfl, rfl, by rw [hp]; rfl, rfl, rfl, rfl, rfl, rfl⟩
        · trivial
        · exact fun d hd => absurd hd (Finset.notMem_empty d)
        · exact fun d hd => absurd hd (Finset.notMem_empty d)
        · intro _ _ hf
          cases hf
        · intro ht
          have hh := hh ht
          rw [hp] at hh
          exact hh
    | wantClear =>
        -- Only the network thread gets here, and the flag is down.
        have hdown : s.connected = false := by
          cases t with
          | none =>
              have hh := hh rfl
              rw [hp] at hh
              exact hh
          | some i => exact absurd hp (h.callers i).2
        apply Inv.taken (t := t) (p := .finishing) h hn
        · exact ⟨rfl, rfl, rfl, by rw [hp]; rfl, rfl, rfl, rfl, rfl, rfl⟩
        · trivial
        · exact fun d hd => absurd hd (Finset.notMem_empty d)
        · exact fun d hd => absurd hd (Finset.notMem_empty d)
        · intro hc
          rw [hdown] at hc
          cases hc
        · intro _ hc
          exact absurd (hdown.symm.trans hc) Bool.false_ne_true
    | notifying failed =>
        cases failed with
        | cons d failed => exact h
        | nil =>
            apply Inv.taken (t := t) (p := .finishing) h hn
            · exact ⟨rfl, rfl, rfl, by rw [hp]; rfl, rfl, rfl, rfl, rfl, rfl⟩
            · trivial
            · exact h.subset
            · exact h.apart
            · exact fun _ _ _ hcover => hcover
            · intro ht
              have hh := hh ht
              rw [hp] at hh
              exact hh
    | _ => exact h
  · exact h

theorem Inv.step (h : Inv callback s) (turn : Turn ι) : Inv callback (step callback s turn) := by
  cases turn with
  | callAdd i ids => exact h.callAdd i ids
  | callDel i ids => exact h.callDel i ids
  | connect accepted => exact h.connect accepted
  | disconnect => exact h.disconnect
  | lock t => exact h.lockTurn t
  | readFlag t => exact h.readFlag t
  | collect t todo => exact h.collect t todo
  | attempt t ok => exact h.attempt t ok
  | endLoop t => exact h.endLoop t
  | notify t => exact h.notify t
  | unlock t => exact h.unlock t

omit [DecidableEq ι] in
theorem inv_started (callback : Bool) (subscribed : Finset Bytes) :
    Inv callback (started subscribed : State ι) := by
  constructor
  · exact fun _ => iff_of_false nofun nofun
  · exact fun d hd => absurd hd (Finset.notMem_empty d)
  · exact fun d hd => absurd hd (Finset.notMem_empty d)
  · exact fun _ => trivial
  · exact nofun
  · trivial
  · exact fun _ => ⟨nofun, nofun⟩
  · intro t
    cases callback <;> rfl

/-! ## Whole runs -/

theorem Inv.settled_finishing (h : Inv callback s) (hp : s.pc t = .finishing) (hc : s.connected = true)
    (happlied : t = none ∨ s.applied = true) : s.active = s.subscribed \ s.refused := by
  have ha : s.applied = true := by
    rcases happlied with rfl | ha
    · have hh := h.handler
      rw [hp] at hh
      exact hh hc
    · exact ha
  have hholds : (s.pc t).holds = true := by
    rw [hp]
    rfl
  have hquiet : ∀ u, (s.pc u).applies = false := by
    intro u
    by_cases hu : u = t
    · rw [hu, hp]
      rfl
    · exact Pc.applies_free (h.alone hholds hu)
  ext d
  rw [Finset.mem_sdiff]
  constructor
  · intro hd
    exact ⟨h.subset d hd, h.apart d hd⟩
  · rintro ⟨hsub, hrefused⟩
    exact (h.settled hc ha hquiet d hsub).resolve_right hrefused

/-- The state behind some turns of a session that was started. -/
def reached (callback : Bool) (subscribed : Finset Bytes) (turns : List (Turn ι)) : State ι :=
  after (step callback) (started subscribed) turns

theorem inv_reached (callback : Bool) (subscribed : Finset Bytes) (turns : List (Turn ι)) :
    Inv callback (reached callback subscribed turns) :=
  after_of_inv (I := Inv callback) (fun _ turn hs => hs.step turn) (inv_started callback subscribed) turns

/-- Nothing is active that is not subscribed. A connect handler at its end, and an `add_subscribe` at its
end once subscriptions were applied on the connection, leave active all but what failed on it. Each
thread has told of its failed attempts, one by one, when its call is over. -/
theorem subscriptions_settle (callback : Bool) (subscribed : Finset Bytes) (turns : List (Turn ι)) :
    (reached callback subscribed turns).active ⊆ (reached callback subscribed turns).subscribed ∧
      (∀ t, (reached callback subscribed turns).pc t = .finishing →
        (reached callback subscribed turns).connected = true →
        t = none ∨ (reached callback subscribed turns).applied = true →
        (reached callback subscribed turns).active =
          (reached callback subscribed turns).subscribed \ (reached callback subscribed turns).refused) ∧
      ∀ t, (reached callback subscribed turns).pc t = .idle →
        (reached callback subscribed turns).told t =
          if callback then (reached callback subscribed turns).failures t else [] := by
  have h := inv_reached callback subscribed turns
  refine ⟨h.subset, fun t hp hc happlied => h.settled_finishing hp hc happlied, ?_⟩
  intro t hp
  have htold := h.told t
  rw [hp, Told] at htold
  split_ifs at htold ⊢
  · exact (htold.trans (List.append_nil _)).symm
  · exact htold

/-- A connect handler over one id that the broker takes, and one that it does not. -/
def connectTurns : List (Turn Unit) :=
  [.connect true, .lock none, .collect none [[Ascii.letter 'x'], [Ascii.letter 'y']], .attempt none true,
    .attempt none false, .endLoop none, .notify none, .lock none]

theorem subscriptions_settle_connect :
    (reached true {[Ascii.letter 'x'], [Ascii.letter 'y']} connectTurns).active =
      (reached true {[Ascii.letter 'x'], [Ascii.letter 'y']} connectTurns).subscribed \
        (reached true {[Ascii.letter 'x'], [Ascii.letter 'y']} connectTurns).refused :=
  (subscriptions_settle true {[Ascii.letter 'x'], [Ascii.letter 'y']} connectTurns).2.1 none (by decide)
    (by decide) (Or.inl rfl)

end

/-- The flag goes up between an `add_subscribe`'s look at it and its end. -/
def hurriedAdd : List (Turn Unit) :=
  [.callAdd () [[Ascii.letter 'x']], .lock (some ()), .readFlag (some ()), .connect true]

/-- The call ends while connected, and its id is neither active nor failed, nor one of a call that waits. -/
theorem subscriptions_settle_fails :
    (reached true ∅ hurriedAdd).pc (some ()) = .finishing ∧
      (reached true ∅ hurriedAdd).connected = true ∧
      [Ascii.letter 'x'] ∈ (reached true ∅ hurriedAdd).subscribed ∧
      [Ascii.letter 'x'] ∉ (reached true ∅ hurriedAdd).active ∧
      [Ascii.letter 'x'] ∉ (reached true ∅ hurriedAdd).refused ∧
      (reached true ∅ hurriedAdd).pc none = .wantApply := by
  decide

end OpenBambu.Agent.Subscriptions
