import Mathlib
import OpenBambu.Foundation.Run

/-!
# Counted references

Objects that are deleted when their count falls to zero, shared between a client and routines that run side
by side, one access at a time. The client keeps a reference through every call it makes, and a routine
of its own gives back each reference that it took over as the last thing it does with the object: then
nobody touches a deleted object, and an object is deleted when the last reference is given up, once.
-/

namespace OpenBambu.Foundation

variable {δ : Type*}

/-! ## Objects -/

structure Counted (δ : Type*) where
  data : δ
  refcount : Int32
  freed : Bool

/-- The objects by their handles. `fault` is set by an access to an object that is deleted or was never
made. -/
structure Heap (δ : Type*) where
  objects : List (Counted δ)
  fault : Bool
  deleted : List Nat

namespace Heap

variable (m : Heap δ)

def create (d : δ) : Heap δ := { m with objects := m.objects ++ [⟨d, 1, false⟩] }

def touch (h : Nat) : Heap δ :=
  match m.objects[h]? with
  | none => { m with fault := true }
  | some o => if o.freed then { m with fault := true } else m

def retain (h : Nat) : Heap δ :=
  match m.objects[h]? with
  | none => { m with fault := true }
  | some o =>
      if o.freed then { m with fault := true }
      else { m with objects := m.objects.set h { o with refcount := o.refcount + 1 } }

def release (h : Nat) : Heap δ :=
  match m.objects[h]? with
  | none => { m with fault := true }
  | some o =>
      if o.freed then { m with fault := true }
      else if o.refcount = 1 then
        ⟨m.objects.set h { o with refcount := o.refcount - 1, freed := true }, m.fault, m.deleted ++ [h]⟩
      else { m with objects := m.objects.set h { o with refcount := o.refcount - 1 } }

end Heap

/-- What an object and its count say about the references to it. -/
def Counted.Tells (o : Counted δ) (refs : Int) : Prop :=
  if o.freed then refs = 0 else 0 < refs ∧ o.refcount = Int32.ofInt refs

/-- The counts are the numbers of references, and just the objects without one are deleted. -/
structure Balanced (m : Heap δ) (refs : Nat → Int) : Prop where
  sound : m.fault = false
  counted : ∀ (h : Nat) (o : Counted δ), m.objects[h]? = some o → o.Tells (refs h)
  unmade : ∀ h, m.objects.length ≤ h → refs h = 0
  small : ∀ h, refs h < 2 ^ 31
  once : m.deleted.Nodup
  deleted : ∀ h, h ∈ m.deleted ↔ ∃ o : Counted δ, m.objects[h]? = some o ∧ o.freed = true

namespace Balanced

variable {m : Heap δ} {refs : Nat → Int}

/-- Who has a reference has a living object. -/
theorem alive (hb : Balanced m refs) {h : Nat} (hpos : 0 < refs h) :
    ∃ o : Counted δ, m.objects[h]? = some o ∧ o.freed = false ∧ o.refcount = Int32.ofInt (refs h) := by
  have hlt : h < m.objects.length := by
    by_contra hge
    have := hb.unmade h (Nat.le_of_not_lt hge)
    omega
  have htells := hb.counted h _ (List.getElem?_eq_getElem hlt)
  refine ⟨_, List.getElem?_eq_getElem hlt, ?_⟩
  unfold Counted.Tells at htells
  split_ifs at htells with hfreed
  · omega
  · exact ⟨by simpa using hfreed, htells.2⟩

theorem touch_eq (hb : Balanced m refs) {h : Nat} (hpos : 0 < refs h) : m.touch h = m := by
  obtain ⟨o, ho, hfreed, _⟩ := hb.alive hpos
  unfold Heap.touch
  rw [ho]
  simp only [hfreed, Bool.false_eq_true, if_false]

/-- One object changes with the references to it. -/
theorem set (hb : Balanced m refs) {h : Nat} {o o' : Counted δ} (ho : m.objects[h]? = some o) {n : Int}
    (htells : o'.Tells n) (hn : n < 2 ^ 31) {deleted : List Nat} (hnodup : deleted.Nodup)
    (hdeleted : ∀ k, k ∈ deleted ↔ if k = h then o'.freed = true else k ∈ m.deleted) :
    Balanced ⟨m.objects.set h o', m.fault, deleted⟩ (Function.update refs h n) := by
  have hlt := (List.getElem?_eq_some_iff.mp ho).1
  refine ⟨hb.sound, fun k u hk => ?_, fun k hk => ?_, fun k => ?_, hnodup, fun k => ?_⟩
  · dsimp only at hk
    by_cases hkh : k = h
    · subst hkh
      rw [List.getElem?_set_self hlt] at hk
      rw [Function.update_self, ← Option.some.inj hk]
      exact htells
    · rw [List.getElem?_set_ne (Ne.symm hkh)] at hk
      rw [Function.update_of_ne hkh]
      exact hb.counted k u hk
  · dsimp only at hk
    rw [List.length_set] at hk
    rw [Function.update_of_ne (by omega)]
    exact hb.unmade k hk
  · by_cases hkh : k = h
    · rw [hkh, Function.update_self]
      exact hn
    · rw [Function.update_of_ne hkh]
      exact hb.small k
  · dsimp only
    rw [hdeleted k]
    by_cases hkh : k = h
    · subst hkh
      rw [if_pos rfl, List.getElem?_set_self hlt]
      simp only [Option.some.injEq, exists_eq_left']
    · rw [if_neg hkh, List.getElem?_set_ne (Ne.symm hkh)]
      exact hb.deleted k

theorem not_deleted (hb : Balanced m refs) {h : Nat} (hpos : 0 < refs h) : h ∉ m.deleted := by
  obtain ⟨o, ho, hfreed, _⟩ := hb.alive hpos
  intro hin
  obtain ⟨u, hu, hufreed⟩ := (hb.deleted h).mp hin
  rw [Option.some.inj (ho.symm.trans hu), hufreed] at hfreed
  cases hfreed

theorem retain (hb : Balanced m refs) {h : Nat} (hpos : 0 < refs h) (hroom : refs h + 1 < 2 ^ 31) :
    Balanced (m.retain h) (Function.update refs h (refs h + 1)) := by
  obtain ⟨o, ho, hfreed, hcount⟩ := hb.alive hpos
  have hretain : m.retain h = ⟨m.objects.set h { o with refcount := o.refcount + 1 }, m.fault, m.deleted⟩ := by
    unfold Heap.retain
    rw [ho]
    simp only [hfreed, Bool.false_eq_true, if_false]
  rw [hretain]
  refine hb.set ho ?_ hroom hb.once fun k => ?_
  · unfold Counted.Tells
    simp only [hfreed, Bool.false_eq_true, if_false]
    exact ⟨by omega, by rw [hcount, Int32.ofInt_add]; rfl⟩
  · split_ifs with hk
    · rw [hk, hfreed]
      simpa using hb.not_deleted hpos
    · rfl

/-- A count says one exactly for one reference. -/
theorem count_one {n : Int} (hpos : 0 < n) (hn : n < 2 ^ 31) : Int32.ofInt n = 1 ↔ n = 1 := by
  constructor
  · intro h
    have htoInt := congrArg Int32.toInt h
    rw [Int32.toInt_ofInt_of_le (by omega) hn] at htoInt
    exact htoInt
  · rintro rfl
    rfl

theorem release (hb : Balanced m refs) {h : Nat} (hpos : 0 < refs h) :
    Balanced (m.release h) (Function.update refs h (refs h - 1)) := by
  obtain ⟨o, ho, hfreed, hcount⟩ := hb.alive hpos
  have hsmall := hb.small h
  have hone := count_one hpos hsmall
  rw [← hcount] at hone
  unfold Heap.release
  rw [ho]
  simp only [hfreed, Bool.false_eq_true, if_false]
  split_ifs with hlast
  · have hrefs := hone.mp hlast
    refine hb.set ho ?_ (by omega) ?_ fun k => ?_
    · unfold Counted.Tells
      simp only [if_true]
      omega
    · refine List.nodup_append.mpr ⟨hb.once, List.nodup_singleton h, ?_⟩
      intro k hk j hj
      rw [List.mem_singleton.mp hj]
      rintro rfl
      exact hb.not_deleted hpos hk
    · rw [List.mem_append, List.mem_singleton]
      split_ifs with hk
      · simp [hk]
      · simp [hk]
  · have hmore : refs h ≠ 1 := fun he => hlast (hone.mpr he)
    refine hb.set ho ?_ (by omega) hb.once fun k => ?_
    · unfold Counted.Tells
      simp only [hfreed, Bool.false_eq_true, if_false]
      exact ⟨by omega, by rw [hcount, Int32.ofInt_sub]; rfl⟩
    · split_ifs with hk
      · rw [hk]
        simpa using hb.not_deleted hpos
      · rfl

/-- The maker of an object has the first reference. -/
theorem create (hb : Balanced m refs) (d : δ) : Balanced (m.create d) (Function.update refs m.objects.length 1) := by
  refine ⟨hb.sound, fun k u hk => ?_, fun k hk => ?_, fun k => ?_, hb.once, fun k => ?_⟩
  · change (m.objects ++ [_])[k]? = some u at hk
    rcases Nat.lt_trichotomy k m.objects.length with hlt | rfl | hgt
    · rw [List.getElem?_append_left hlt] at hk
      rw [Function.update_of_ne (by omega)]
      exact hb.counted k u hk
    · rw [List.getElem?_concat_length] at hk
      rw [Function.update_self, ← Option.some.inj hk]
      exact ⟨by decide, rfl⟩
    · rw [List.getElem?_eq_none (by simp; omega)] at hk
      cases hk
  · change (m.objects ++ [_]).length ≤ k at hk
    rw [List.length_append, List.length_singleton] at hk
    rw [Function.update_of_ne (by omega)]
    exact hb.unmade k (by omega)
  · by_cases hk : k = m.objects.length
    · rw [hk, Function.update_self]
      decide
    · rw [Function.update_of_ne hk]
      exact hb.small k
  · change k ∈ m.deleted ↔ ∃ o, (m.objects ++ [_])[k]? = some o ∧ _
    rw [hb.deleted k]
    rcases Nat.lt_trichotomy k m.objects.length with hlt | rfl | hgt
    · rw [List.getElem?_append_left hlt]
    · rw [List.getElem?_concat_length, List.getElem?_eq_none (Nat.le_refl _)]
      simp
    · rw [List.getElem?_eq_none (by omega), List.getElem?_eq_none (by simp; omega)]

end Balanced

/-! ## Routines -/

/-- What a routine does with an object, or the point where it calls the client back. -/
inductive Access where
  | touch (h : Nat)
  | retain (h : Nat)
  | release (h : Nat)
  | callback
  deriving DecidableEq, Repr

inductive Statement where
  | access (a : Access)
  /-- Starts a routine of its own. -/
  | spawn (body : List Access)
  deriving DecidableEq, Repr

/-- A routine with what it has yet to do. The client keeps its references to the pinned objects until the
routine ends. -/
structure Routine where
  pins : List Nat
  todo : List Statement
  deriving DecidableEq, Repr

/-- The objects, the references of the client, and the routines. -/
structure Shared (δ : Type*) where
  heap : Heap δ
  mine : Nat → Nat
  routines : List Routine

inductive SharedEvent (δ : Type*) where
  | create (d : δ)
  | retain (h : Nat)
  | release (h : Nat)
  | start (r : Routine)
  /-- The routine does what is next. -/
  | turn (i : Nat)

def Heap.access (m : Heap δ) : Access → Heap δ
  | .touch h => m.touch h
  | .retain h => m.retain h
  | .release h => m.release h
  | .callback => m

def spawned (body : List Access) : Routine := ⟨[], body.map .access⟩

namespace Shared

def start : Shared δ := ⟨⟨[], false, []⟩, fun _ => 0, []⟩

/-- A statement of a routine, which is already taken off what it has to do. -/
def exec (s : Shared δ) : Statement → Shared δ
  | .access a => { s with heap := s.heap.access a }
  | .spawn body => { s with routines := s.routines ++ [spawned body] }

def step (s : Shared δ) : SharedEvent δ → Shared δ
  | .create d =>
      { s with heap := s.heap.create d, mine := Function.update s.mine s.heap.objects.length 1 }
  | .retain h => { s with heap := s.heap.retain h, mine := Function.update s.mine h (s.mine h + 1) }
  | .release h => { s with heap := s.heap.release h, mine := Function.update s.mine h (s.mine h - 1) }
  | .start r => { s with routines := s.routines ++ [r] }
  | .turn i =>
      match s.routines[i]? with
      | none => s
      | some r =>
          match r.todo with
          | [] => s
          | st :: rest => exec { s with routines := s.routines.set i { r with todo := rest } } st

end Shared

/-! ## The references of the routines -/

/-- The references to `h` that an access gives back, less those it takes. -/
def Access.gives (h : Nat) : Access → Int
  | .retain g => if g = h then -1 else 0
  | .release g => if g = h then 1 else 0
  | .touch _ | .callback => 0

def Statement.gives (h : Nat) : Statement → Int
  | .access a => a.gives h
  | .spawn body => (body.map (Access.gives h)).sum

/-- The references to `h` behind which a routine stands: those that it will give back and has taken. -/
def owed (h : Nat) (todo : List Statement) : Int := (todo.map (Statement.gives h)).sum

def Access.uses : Access → List Nat
  | .touch h | .retain h | .release h => [h]
  | .callback => []

def Statement.uses : Statement → List Nat
  | .access a => a.uses
  | .spawn _ => []

/-- Whenever the routine uses an object, it is pinned or the routine stands behind a reference. -/
def Covered (pins : List Nat) : List Statement → Prop
  | [] => True
  | st :: rest => (∀ h, 0 ≤ owed h (st :: rest)) ∧ (∀ h ∈ st.uses, h ∈ pins ∨ 0 < owed h (st :: rest)) ∧
      Covered pins rest

/-- So do the routines that it starts. -/
def Routine.Careful (r : Routine) : Prop :=
  Covered r.pins r.todo ∧ ∀ body, .spawn body ∈ r.todo → Covered [] (spawned body).todo

/-- All references to an object. -/
def Shared.references (s : Shared δ) (h : Nat) : Int :=
  s.mine h + (s.routines.map fun r => owed h r.todo).sum

/-- The object that the routine is about to take a reference to. -/
def Routine.retains (r : Routine) : Option Nat :=
  match r.todo with
  | .access (.retain h) :: _ => some h
  | _ => none

/-- What the client owes: it uses only objects that it has a reference to, keeps that through its calls, and makes
calls that are careful and give back what they take. Counts do not overflow. -/
def Shared.Legal (s : Shared δ) : SharedEvent δ → Prop
  | .create _ => True
  | .retain h => 0 < s.mine h ∧ s.references h + 1 < 2 ^ 31
  | .release h => 0 < s.mine h ∧ (s.mine h = 1 → ∀ r ∈ s.routines, r.todo ≠ [] → h ∉ r.pins)
  | .start r => r.Careful ∧ (∀ h, owed h r.todo = 0) ∧ ∀ h ∈ r.pins, 0 < s.mine h
  | .turn i => ∀ h ∈ (s.routines[i]?).bind Routine.retains, s.references h + 1 < 2 ^ 31

/-- What every legal step keeps. -/
structure Shared.Ordered (s : Shared δ) : Prop where
  balanced : Balanced s.heap s.references
  careful : ∀ r ∈ s.routines, r.Careful
  pinned : ∀ r ∈ s.routines, r.todo ≠ [] → ∀ h ∈ r.pins, 0 < s.mine h

theorem Covered.owed_nonneg {pins : List Nat} {todo : List Statement} (h : Covered pins todo) (g : Nat) :
    0 ≤ owed g todo := by
  cases todo with
  | nil => exact Int.le_refl 0
  | cons st rest => exact h.1 g

theorem owed_cons (h : Nat) (st : Statement) (rest : List Statement) :
    owed h (st :: rest) = st.gives h + owed h rest := by
  rw [owed, List.map_cons, List.sum_cons, owed]

theorem owed_spawned (h : Nat) (body : List Access) : owed h (spawned body).todo = (Statement.spawn body).gives h := by
  rw [owed, spawned, List.map_map]
  rfl

/-! ## Nobody touches a deleted object -/

theorem Balanced.access {m : Heap δ} {refs : Nat → Int} (hb : Balanced m refs) {a : Access}
    (huses : ∀ h ∈ a.uses, 0 < refs h) (hroom : ∀ h, a = .retain h → refs h + 1 < 2 ^ 31) :
    Balanced (m.access a) fun h => refs h - a.gives h := by
  cases a with
  | touch h =>
      have hsame : (fun g => refs g - (Access.touch h).gives g) = refs := funext fun g => Int.sub_zero _
      rw [hsame, Heap.access, hb.touch_eq (huses h (List.mem_singleton_self h))]
      exact hb
  | callback =>
      have hsame : (fun g => refs g - Access.callback.gives g) = refs := funext fun g => Int.sub_zero _
      rw [hsame]
      exact hb
  | retain h =>
      have hmore : (fun g => refs g - (Access.retain h).gives g) = Function.update refs h (refs h + 1) := by
        funext g
        by_cases hg : g = h
        · subst hg
          rw [Function.update_self, Access.gives, if_pos rfl]
          omega
        · rw [Function.update_of_ne hg, Access.gives, if_neg (Ne.symm hg), Int.sub_zero]
      rw [hmore]
      exact hb.retain (huses h (List.mem_singleton_self h)) (hroom h rfl)
  | release h =>
      have hless : (fun g => refs g - (Access.release h).gives g) = Function.update refs h (refs h - 1) := by
        funext g
        by_cases hg : g = h
        · subst hg
          rw [Function.update_self, Access.gives, if_pos rfl]
        · rw [Function.update_of_ne hg, Access.gives, if_neg (Ne.symm hg), Int.sub_zero]
      rw [hless]
      exact hb.release (huses h (List.mem_singleton_self h))

namespace Shared

variable {s : Shared δ}

theorem Ordered.owed_nonneg (hs : s.Ordered) (h : Nat) : ∀ x ∈ s.routines.map (fun r => owed h r.todo), 0 ≤ x := by
  intro x hx
  obtain ⟨r, hr, rfl⟩ := List.mem_map.mp hx
  exact (hs.careful r hr).1.owed_nonneg h

/-- A reference of the client is a reference. -/
theorem Ordered.pos_of_mine (hs : s.Ordered) {h : Nat} (hmine : 0 < s.mine h) : 0 < s.references h := by
  have hrest := List.sum_nonneg (hs.owed_nonneg h)
  unfold references
  omega

/-- So is one of a routine. -/
theorem Ordered.pos_of_owed (hs : s.Ordered) {r : Routine} (hr : r ∈ s.routines) {h : Nat} (hpos : 0 < owed h r.todo) :
    0 < s.references h := by
  have hle := List.single_le_sum (hs.owed_nonneg h) _ (List.mem_map_of_mem hr)
  unfold references
  omega

theorem references_set {i : Nat} {r r' : Routine} (hi : s.routines[i]? = some r) (h : Nat) :
    ((s.routines.set i r').map fun r => owed h r.todo).sum =
      (s.routines.map fun r => owed h r.todo).sum - owed h r.todo + owed h r'.todo := by
  obtain ⟨hlt, hget⟩ := List.getElem?_eq_some_iff.mp hi
  rw [List.map_set, List.sum_set', dif_pos (by rw [List.length_map]; exact hlt), List.getElem_map, hget]
  omega

theorem ordered_start : (start : Shared δ).Ordered where
  balanced :=
    { sound := rfl
      counted := fun h o ho => by cases ho
      unmade := fun h _ => rfl
      small := fun h => (by decide : (0 : Int) < 2 ^ 31)
      once := List.nodup_nil
      deleted := fun h => by simp [start] }
  careful := by simp [start]
  pinned := by simp [start]

/-- The references behind a step of a routine. -/
theorem references_turn {i : Nat} {r : Routine} {st : Statement} {rest : List Statement}
    (hi : s.routines[i]? = some r) (htodo : r.todo = st :: rest) (h : Nat) :
    ({ s with routines := s.routines.set i { r with todo := rest } } : Shared δ).references h =
      s.references h - st.gives h := by
  unfold references
  dsimp only
  rw [references_set hi, htodo, owed_cons]
  dsimp only
  omega

theorem Ordered.turn (hs : s.Ordered) {i : Nat} {r : Routine} {st : Statement} {rest : List Statement}
    (hi : s.routines[i]? = some r) (htodo : r.todo = st :: rest)
    (hroom : ∀ h, st = .access (.retain h) → s.references h + 1 < 2 ^ 31) :
    (exec { s with routines := s.routines.set i { r with todo := rest } } st).Ordered := by
  have hr : r ∈ s.routines := List.mem_of_getElem? hi
  obtain ⟨hcovered, hbodies⟩ := hs.careful r hr
  rw [htodo] at hcovered hbodies
  have hrest : Routine.Careful { r with todo := rest } :=
    ⟨hcovered.2.2, fun body hbody => hbodies body (List.mem_cons_of_mem _ hbody)⟩
  have hset : ∀ u ∈ s.routines.set i { r with todo := rest }, u ∈ s.routines ∨ u = { r with todo := rest } :=
    fun u hu => List.mem_or_eq_of_mem_set hu
  have hcareful : ∀ u ∈ s.routines.set i { r with todo := rest }, u.Careful := by
    intro u hu
    rcases hset u hu with hu | rfl
    · exact hs.careful u hu
    · exact hrest
  have hpinned : ∀ u ∈ s.routines.set i { r with todo := rest }, u.todo ≠ [] → ∀ h ∈ u.pins, 0 < s.mine h := by
    intro u hu hne
    rcases hset u hu with hu | rfl
    · exact hs.pinned u hu hne
    · exact hs.pinned r hr (by rw [htodo]; exact List.cons_ne_nil _ _)
  cases st with
  | access a =>
      refine ⟨?_, hcareful, hpinned⟩
      have huses : ∀ h ∈ a.uses, 0 < s.references h := by
        intro h hh
        rcases hcovered.2.1 h hh with hpin | howed
        · exact hs.pos_of_mine (hs.pinned r hr (by rw [htodo]; exact List.cons_ne_nil _ _) h hpin)
        · exact hs.pos_of_owed hr (by rw [htodo]; exact howed)
      have hrefs : (exec { s with routines := s.routines.set i { r with todo := rest } } (.access a)).references =
          fun h => s.references h - a.gives h := funext fun h => references_turn hi htodo h
      rw [hrefs]
      exact hs.balanced.access huses fun h ha => hroom h (by rw [ha])
  | spawn body =>
      have hrefs : (exec { s with routines := s.routines.set i { r with todo := rest } } (.spawn body)).references =
          s.references := by
        funext h
        have hturn := references_turn hi htodo h
        unfold references at hturn ⊢
        dsimp only [exec] at hturn ⊢
        rw [List.map_append, List.sum_append, List.map_singleton, List.sum_singleton, owed_spawned]
        omega
      refine ⟨?_, ?_, ?_⟩
      · rw [hrefs]
        exact hs.balanced
      · intro u hu
        rcases List.mem_append.mp hu with hu | hu
        · exact hcareful u hu
        · rw [List.mem_singleton.mp hu]
          refine ⟨hbodies body List.mem_cons_self, fun inner hinner => ?_⟩
          obtain ⟨a, _, ha⟩ := List.mem_map.mp hinner
          cases ha
      · intro u hu hne
        rcases List.mem_append.mp hu with hu | hu
        · exact hpinned u hu hne
        · rw [List.mem_singleton.mp hu]
          intro h hh
          cases hh

/-- A legal step keeps the counts right. -/
theorem ordered_step (s : Shared δ) (e : SharedEvent δ) (hs : s.Ordered) (hlegal : s.Legal e) : (s.step e).Ordered := by
  cases e with
  | create d =>
      have hnone : s.mine s.heap.objects.length = 0 := by
        by_contra hne
        have hpos := hs.pos_of_mine (Nat.pos_of_ne_zero hne)
        rw [hs.balanced.unmade _ (Nat.le_refl _)] at hpos
        exact absurd hpos (Int.lt_irrefl 0)
      have hrefs : (s.step (.create d)).references =
          Function.update s.references s.heap.objects.length 1 := by
        funext h
        have hun := hs.balanced.unmade _ (Nat.le_refl s.heap.objects.length)
        unfold references at hun ⊢
        dsimp only [step]
        by_cases hh : h = s.heap.objects.length
        · rw [hh, Function.update_self, Function.update_self]
          omega
        · rw [Function.update_of_ne hh, Function.update_of_ne hh]
      refine ⟨?_, hs.careful, fun r hr hne h hh => ?_⟩
      · rw [hrefs]
        exact hs.balanced.create d
      · have hmine := hs.pinned r hr hne h hh
        change 0 < Function.update s.mine s.heap.objects.length 1 h
        rw [Function.update_of_ne (by rintro rfl; omega)]
        exact hmine
  | retain h =>
      obtain ⟨hmine, hroom⟩ := hlegal
      have hrefs : (s.step (.retain h)).references = Function.update s.references h (s.references h + 1) := by
        funext g
        unfold references
        dsimp only [step]
        by_cases hg : g = h
        · rw [hg, Function.update_self, Function.update_self]
          omega
        · rw [Function.update_of_ne hg, Function.update_of_ne hg]
      refine ⟨?_, hs.careful, fun r hr hne g hg => ?_⟩
      · rw [hrefs]
        exact hs.balanced.retain (hs.pos_of_mine hmine) hroom
      · have hpin := hs.pinned r hr hne g hg
        change 0 < Function.update s.mine h (s.mine h + 1) g
        by_cases hgh : g = h
        · rw [hgh, Function.update_self]
          omega
        · rwa [Function.update_of_ne hgh]
  | release h =>
      obtain ⟨hmine, hlast⟩ := hlegal
      have hrefs : (s.step (.release h)).references = Function.update s.references h (s.references h - 1) := by
        funext g
        unfold references
        dsimp only [step]
        by_cases hg : g = h
        · rw [hg, Function.update_self, Function.update_self]
          omega
        · rw [Function.update_of_ne hg, Function.update_of_ne hg]
      refine ⟨?_, hs.careful, fun r hr hne g hg => ?_⟩
      · rw [hrefs]
        exact hs.balanced.release (hs.pos_of_mine hmine)
      · have hpin := hs.pinned r hr hne g hg
        change 0 < Function.update s.mine h (s.mine h - 1) g
        by_cases hgh : g = h
        · subst hgh
          have hmore : s.mine g ≠ 1 := fun he => hlast he r hr hne hg
          rw [Function.update_self]
          omega
        · rwa [Function.update_of_ne hgh]
  | start r =>
      obtain ⟨hcareful, hnone, hpins⟩ := hlegal
      have hrefs : (s.step (.start r)).references = s.references := by
        funext h
        unfold references
        dsimp only [step]
        rw [List.map_append, List.sum_append, List.map_singleton, List.sum_singleton, hnone, Int.add_zero]
      refine ⟨?_, fun u hu => ?_, fun u hu hne => ?_⟩
      · rw [hrefs]
        exact hs.balanced
      · rcases List.mem_append.mp hu with hu | hu
        · exact hs.careful u hu
        · rw [List.mem_singleton.mp hu]
          exact hcareful
      · rcases List.mem_append.mp hu with hu | hu
        · exact hs.pinned u hu hne
        · rw [List.mem_singleton.mp hu]
          exact hpins
  | turn i =>
      cases hi : s.routines[i]? with
      | none => rwa [show s.step (.turn i) = s by simp only [step, hi]]
      | some r =>
          cases htodo : r.todo with
          | nil => rwa [show s.step (.turn i) = s by simp only [step, hi, htodo]]
          | cons st rest =>
              rw [show s.step (.turn i) = exec { s with routines := s.routines.set i { r with todo := rest } } st by
                simp only [step, hi, htodo]]
              refine hs.turn hi htodo fun h hst => hlegal h ?_
              rw [hi, Option.bind_some, Option.mem_def, Routine.retains, htodo, hst]

/-- A release of the last reference under a routine that goes on to use the object is caught by its next
access. -/
theorem Ordered.faults (hs : s.Ordered) {h i : Nat} (hmine : 0 < s.mine h) (hlast : s.references h = 1) {r : Routine}
    (hi : s.routines[i]? = some r) {a : Access} {rest : List Statement} (htodo : r.todo = .access a :: rest)
    (huses : h ∈ a.uses) : ((s.step (.release h)).step (.turn i)).heap.fault = true := by
  have hreleased := hs.balanced.release (hs.pos_of_mine hmine)
  have hlt : h < (s.heap.release h).objects.length := by
    obtain ⟨o, ho, _⟩ := hs.balanced.alive (hs.pos_of_mine hmine)
    have hlen : (s.heap.release h).objects.length = s.heap.objects.length := by
      unfold Heap.release
      rw [ho]
      dsimp only
      split_ifs
      · rfl
      · exact List.length_set ..
      · exact List.length_set ..
    rw [hlen]
    exact (List.getElem?_eq_some_iff.mp ho).1
  have hobject := List.getElem?_eq_getElem hlt
  generalize (s.heap.release h).objects[h] = o at hobject
  have hfreed : o.freed = true := by
    have htells := hreleased.counted h o hobject
    rw [Function.update_self, hlast] at htells
    unfold Counted.Tells at htells
    by_contra hne
    rw [if_neg hne] at htells
    exact absurd htells.1 (by decide)
  have hturn : ((s.step (.release h)).step (.turn i)).heap = (s.heap.release h).access a := by
    simp only [step, hi, htodo, exec]
  rw [hturn]
  cases a with
  | callback => cases huses
  | touch g | retain g | release g =>
      obtain rfl := List.mem_singleton.mp huses
      simp only [Heap.access, Heap.touch, Heap.retain, Heap.release] at hobject ⊢
      simp only [hobject, hfreed, if_true]

end Shared

/-! ## Careful routines -/

/-- Accesses that neither take nor give a reference. -/
def Quiet (body : List Access) : Prop := ∀ a ∈ body, ∀ h, a.gives h = 0

theorem owed_append (h : Nat) (xs ys : List Statement) : owed h (xs ++ ys) = owed h xs + owed h ys := by
  rw [owed, List.map_append, List.sum_append, owed, owed]

theorem Quiet.owes_none {body : List Access} (hq : Quiet body) (h : Nat) : owed h (body.map .access) = 0 := by
  induction body with
  | nil => rfl
  | cons a body ih =>
      rw [List.map_cons, owed_cons, ih fun b hb => hq b (List.mem_cons_of_mem a hb), Statement.gives,
        hq a List.mem_cons_self]
      rfl

/-- What is done in front of statements that are covered, with objects that are pinned or that the statements stand
behind. -/
theorem Quiet.covered {body : List Access} (hq : Quiet body) {pins : List Nat} {tail : List Statement}
    (huses : ∀ a ∈ body, ∀ h ∈ a.uses, h ∈ pins ∨ 0 < owed h tail) (htail : Covered pins tail) :
    Covered pins (body.map .access ++ tail) := by
  induction body with
  | nil => exact htail
  | cons a body ih =>
      have hbody : Quiet body := fun b hb => hq b (List.mem_cons_of_mem a hb)
      have howed : ∀ h, owed h (.access a :: (body.map .access ++ tail)) = owed h tail := by
        intro h
        rw [owed_cons, owed_append, hbody.owes_none, Statement.gives, hq a List.mem_cons_self]
        omega
      rw [List.map_cons, List.cons_append]
      refine ⟨fun h => ?_, fun h hh => ?_, ih hbody fun b hb => huses b (List.mem_cons_of_mem a hb)⟩
      · rw [howed]
        exact htail.owed_nonneg h
      · rw [howed]
        exact huses a List.mem_cons_self h hh

end OpenBambu.Foundation
