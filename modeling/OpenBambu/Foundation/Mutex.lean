import Mathlib.Data.List.Basic
import Mathlib.Algebra.GroupWithZero.Nat

/-!
# Threads around one mutex

Threads take turns. Each waits for the mutex, does its work on the state that the mutex protects,
gives the mutex back and calls foreign code, which may take the mutex again. `Fits` is the order
of these operations that never takes the mutex twice and never calls with the mutex held. In a
machine whose threads all fit, a state in which no thread can go on is one in which all are done,
and `weight` bounds the turns to that state.
-/

namespace OpenBambu.Foundation.Mutex

variable {σ α κ τ : Type*}

inductive Op (σ κ : Type*) where
  | acquire
  | release
  /-- A change of the protected state. -/
  | work (f : σ → σ)
  /-- A call of foreign code. -/
  | call (callee : κ)

inductive Code (σ α κ : Type*) where
  /-- What comes behind the mutex depends on the protected state and on answers from outside. -/
  | entering (body : α → σ → σ × List (Op σ κ))
  | running (ops : List (Op σ κ))

structure Thread (σ α κ τ : Type*) where
  tag : τ
  code : Code σ α κ

/-- A call, by the number of its thread, and whether this thread held the mutex. -/
structure Call (κ : Type*) where
  thread : Nat
  callee : κ
  locked : Bool
  deriving DecidableEq, Repr

structure Machine (σ α κ τ : Type*) where
  shared : σ
  holder : Option Nat
  threads : List (Thread σ α κ τ)
  calls : List (Call κ)

inductive Turn (σ α κ τ : Type*) where
  | spawn (thread : Thread σ α κ τ)
  /-- A thread goes on by one operation; `inner` is what foreign code does if it is called. -/
  | go (id : Nat) (answer : α) (inner : List (Op σ κ))

/-- The thread goes on with this code. -/
def Machine.goOn (m : Machine σ α κ τ) (id : Nat) (th : Thread σ α κ τ) (code : Code σ α κ) :
    Machine σ α κ τ :=
  { m with threads := m.threads.set id { th with code } }

/-- The first operation of a running thread. A thread that has to wait does nothing. -/
def Machine.perform (m : Machine σ α κ τ) (id : Nat) (th : Thread σ α κ τ) (inner : List (Op σ κ))
    (ops : List (Op σ κ)) : Op σ κ → Machine σ α κ τ
  | .acquire => if m.holder = none then { m.goOn id th (.running ops) with holder := some id } else m
  | .release => { m.goOn id th (.running ops) with holder := none }
  | .work f => { m.goOn id th (.running ops) with shared := f m.shared }
  | .call callee =>
      { m.goOn id th (.running (inner ++ ops)) with
        calls := m.calls ++ [⟨id, callee, m.holder = some id⟩] }

def Machine.go (m : Machine σ α κ τ) (id : Nat) (th : Thread σ α κ τ) (answer : α)
    (inner : List (Op σ κ)) : Machine σ α κ τ :=
  match th.code with
  | .entering body =>
      if m.holder = none then
        { m.goOn id th (.running (body answer m.shared).2) with
          shared := (body answer m.shared).1, holder := some id }
      else m
  | .running [] => m
  | .running (op :: ops) => m.perform id th inner ops op

def Machine.step (m : Machine σ α κ τ) : Turn σ α κ τ → Machine σ α κ τ
  | .spawn th => { m with threads := m.threads ++ [th] }
  | .go id answer inner =>
      match m.threads[id]? with
      | none => m
      | some th => m.go id th answer inner

/-! ## What a turn does -/

/-- The thread is not done, and does not wait for the mutex while it is taken. -/
def Machine.Enabled (m : Machine σ α κ τ) (id : Nat) : Prop :=
  ∃ th : Thread σ α κ τ, m.threads[id]? = some th ∧
    match th.code with
    | .entering _ => m.holder = none
    | .running [] => False
    | .running (.acquire :: _) => m.holder = none
    | .running (_ :: _) => True

/-- What a turn of a thread that can go on comes to. -/
inductive Machine.Moves (m : Machine σ α κ τ) (id : Nat) (th : Thread σ α κ τ) (answer : α)
    (inner : List (Op σ κ)) : Machine σ α κ τ → Prop where
  | enter {body : α → σ → σ × List (Op σ κ)} (hcode : th.code = .entering body)
      (hfree : m.holder = none) :
      m.Moves id th answer inner
        { m.goOn id th (.running (body answer m.shared).2) with
          shared := (body answer m.shared).1, holder := some id }
  | acquire {ops : List (Op σ κ)} (hcode : th.code = .running (.acquire :: ops))
      (hfree : m.holder = none) :
      m.Moves id th answer inner { m.goOn id th (.running ops) with holder := some id }
  | release {ops : List (Op σ κ)} (hcode : th.code = .running (.release :: ops)) :
      m.Moves id th answer inner { m.goOn id th (.running ops) with holder := none }
  | work {f : σ → σ} {ops : List (Op σ κ)} (hcode : th.code = .running (.work f :: ops)) :
      m.Moves id th answer inner { m.goOn id th (.running ops) with shared := f m.shared }
  | call {callee : κ} {ops : List (Op σ κ)} (hcode : th.code = .running (.call callee :: ops)) :
      m.Moves id th answer inner
        { m.goOn id th (.running (inner ++ ops)) with
          calls := m.calls ++ [⟨id, callee, m.holder = some id⟩] }

/-- A turn of a thread that cannot go on changes nothing. -/
theorem Machine.step_go (m : Machine σ α κ τ) (id : Nat) (answer : α) (inner : List (Op σ κ)) :
    (¬ m.Enabled id ∧ m.step (.go id answer inner) = m) ∨
      ∃ th, m.threads[id]? = some th ∧ m.Moves id th answer inner (m.step (.go id answer inner)) := by
  rw [Machine.step]
  cases hth : m.threads[id]? with
  | none =>
      left
      refine ⟨?_, rfl⟩
      intro he
      obtain ⟨th, hth', -⟩ := he
      rw [hth] at hth'
      cases hth'
  | some th =>
      -- whether the thread can go on is read off its code
      have hen : m.Enabled id → match th.code with
          | .entering _ => m.holder = none
          | .running [] => False
          | .running (.acquire :: _) => m.holder = none
          | .running (_ :: _) => True := by
        intro he
        obtain ⟨th', hth', he⟩ := he
        obtain rfl := Option.some.inj (hth.symm.trans hth')
        exact he
      dsimp only
      rw [Machine.go]
      cases hcode : th.code with
      | entering body =>
          rw [hcode] at hen
          dsimp only
          split_ifs with hfree
          · exact Or.inr ⟨th, rfl, .enter hcode hfree⟩
          · exact Or.inl ⟨fun he => hfree (hen he), rfl⟩
      | running ops =>
          rw [hcode] at hen
          cases ops with
          | nil => exact Or.inl ⟨hen, rfl⟩
          | cons op ops =>
              cases op with
              | acquire =>
                  dsimp only
                  rw [Machine.perform]
                  split_ifs with hfree
                  · exact Or.inr ⟨th, rfl, .acquire hcode hfree⟩
                  · exact Or.inl ⟨fun he => hfree (hen he), rfl⟩
              | release => exact Or.inr ⟨th, rfl, .release hcode⟩
              | work f => exact Or.inr ⟨th, rfl, .work hcode⟩
              | call callee => exact Or.inr ⟨th, rfl, .call hcode⟩

/-- Behind a turn, the thread has the code that it goes on with and the others have theirs. -/
theorem Machine.threads_goOn {m m' : Machine σ α κ τ} {id : Nat} {th : Thread σ α κ τ}
    {code : Code σ α κ} (hthreads : m'.threads = m.threads.set id { th with code }) {j : Nat}
    {th' : Thread σ α κ τ} (hj : m'.threads[j]? = some th') :
    (j = id ∧ th' = { th with code }) ∨ (j ≠ id ∧ m.threads[j]? = some th') := by
  rw [hthreads, List.getElem?_set] at hj
  split_ifs at hj with hji
  · exact Or.inl ⟨hji.symm, (Option.some.inj hj).symm⟩
  · exact Or.inr ⟨Ne.symm hji, hj⟩

/-- A new thread comes behind the others. -/
theorem Machine.threads_spawn {m : Machine σ α κ τ} {th th' : Thread σ α κ τ} {id : Nat}
    (h : (m.step (.spawn th)).threads[id]? = some th') :
    m.threads[id]? = some th' ∨ (m.threads.length ≤ id ∧ th' = th) := by
  have hget : (m.threads ++ [th])[id]? = some th' := h
  by_cases hid : id < m.threads.length
  · rw [List.getElem?_append_left hid] at hget
    exact Or.inl hget
  · rw [List.getElem?_append_right (by omega)] at hget
    exact Or.inr ⟨by omega, List.mem_singleton.1 (List.mem_of_getElem? hget)⟩

/-! ## The order of the operations -/

/-- The mutex is taken by a thread that does not hold it and given back by one that does; work is
done with it and calls are made without it. -/
def Fits : Bool → List (Op σ κ) → Prop
  | held, [] => held = false
  | held, .acquire :: ops => held = false ∧ Fits true ops
  | held, .release :: ops => held = true ∧ Fits false ops
  | held, .work _ :: ops => held = true ∧ Fits true ops
  | held, .call _ :: ops => held = false ∧ Fits false ops

theorem fits_append {held : Bool} {xs ys : List (Op σ κ)} (hx : Fits held xs) (hy : Fits false ys) :
    Fits held (xs ++ ys) := by
  induction xs generalizing held with
  | nil =>
      obtain rfl : held = false := hx
      exact hy
  | cons op xs ih => cases op <;> exact ⟨hx.1, ih hx.2⟩

def Code.Fits (held : Bool) : Code σ α κ → Prop
  | .entering _ => held = false
  | .running ops => Mutex.Fits held ops

/-- Every thread fits, and no call was made with the mutex held. -/
structure Machine.Ordered (m : Machine σ α κ τ) : Prop where
  fits : ∀ id (th : Thread σ α κ τ), m.threads[id]? = some th → th.code.Fits (m.holder = some id)
  holder : ∀ id, m.holder = some id → id < m.threads.length
  unlocked : ∀ c ∈ m.calls, c.locked = false

/-- What comes in with a turn fits. -/
def OrderedTurn (m : Machine σ α κ τ) : Turn σ α κ τ → Prop
  | .spawn th => th.code.Fits false
  | .go id answer inner =>
      Mutex.Fits false inner ∧
        ∀ (th : Thread σ α κ τ) body, m.threads[id]? = some th → th.code = .entering body →
          m.holder = none → Mutex.Fits true (body answer m.shared).2

theorem Machine.Ordered.goOn {m m' : Machine σ α κ τ} (h : m.Ordered) {id : Nat}
    {th : Thread σ α κ τ} (hth : m.threads[id]? = some th) {code : Code σ α κ}
    (hthreads : m'.threads = m.threads.set id { th with code })
    (hcode : code.Fits (m'.holder = some id))
    (hothers : ∀ j, j ≠ id → (m'.holder = some j ↔ m.holder = some j))
    (hcalls : ∀ c ∈ m'.calls, c.locked = false) : m'.Ordered := by
  refine ⟨?_, ?_, hcalls⟩
  · intro j th' hj
    rcases Machine.threads_goOn hthreads hj with ⟨rfl, rfl⟩ | ⟨hji, hj⟩
    · exact hcode
    · have hf := h.fits j th' hj
      rwa [decide_eq_decide.2 (hothers j hji)]
  · intro j hj
    rw [hthreads, List.length_set]
    by_cases hji : j = id
    · exact hji ▸ (List.getElem?_eq_some_iff.1 hth).1
    · exact h.holder j ((hothers j hji).1 hj)

/-- A turn of a thread keeps the order. -/
theorem Machine.Ordered.moves {m m' : Machine σ α κ τ} (h : m.Ordered) {id : Nat}
    {th : Thread σ α κ τ} (hth : m.threads[id]? = some th) {answer : α} {inner : List (Op σ κ)}
    (hm : m.Moves id th answer inner m') (ht : OrderedTurn m (.go id answer inner)) : m'.Ordered := by
  have hfits := h.fits id th hth
  cases hm with
  | enter hcode hfree =>
      refine h.goOn hth rfl ?_ ?_ h.unlocked
      · show Mutex.Fits (decide (some id = some id)) _
        simpa using ht.2 th _ hth hcode hfree
      · intro j hj
        show some id = some j ↔ _
        simp [hfree, Ne.symm hj]
  | acquire hcode hfree =>
      rw [hcode] at hfits
      refine h.goOn hth rfl ?_ ?_ h.unlocked
      · show Mutex.Fits (decide (some id = some id)) _
        simpa using hfits.2
      · intro j hj
        show some id = some j ↔ _
        simp [hfree, Ne.symm hj]
  | release hcode =>
      rw [hcode] at hfits
      have hheld : m.holder = some id := by simpa using hfits.1
      refine h.goOn hth rfl ?_ ?_ h.unlocked
      · show Mutex.Fits (decide ((none : Option Nat) = some id)) _
        simpa using hfits.2
      · intro j hj
        show none = some j ↔ _
        simp [hheld, Ne.symm hj]
  | work hcode =>
      rw [hcode] at hfits
      have hheld : m.holder = some id := by simpa using hfits.1
      refine h.goOn hth rfl ?_ (fun j _ => Iff.rfl) h.unlocked
      show Mutex.Fits (decide (m.holder = some id)) _
      simpa [hheld] using hfits.2
  | call hcode =>
      rw [hcode] at hfits
      have hfree : ¬ m.holder = some id := by simpa using hfits.1
      refine h.goOn hth rfl ?_ (fun j _ => Iff.rfl) ?_
      · show Mutex.Fits (decide (m.holder = some id)) (inner ++ _)
        rw [decide_eq_false hfree]
        exact fits_append ht.1 hfits.2
      · intro c hc
        rcases List.mem_append.1 hc with hc | hc
        · exact h.unlocked c hc
        · rw [List.mem_singleton.1 hc]
          simpa using hfree

/-- One turn keeps the order. -/
theorem Machine.Ordered.step {m : Machine σ α κ τ} (h : m.Ordered) {t : Turn σ α κ τ}
    (ht : OrderedTurn m t) : (m.step t).Ordered := by
  cases t with
  | spawn th =>
      refine ⟨?_, ?_, h.unlocked⟩
      · intro id th' hth'
        show th'.code.Fits (m.holder = some id)
        rcases Machine.threads_spawn hth' with hold | ⟨hid, rfl⟩
        · exact h.fits id th' hold
        · have hnot : m.holder ≠ some id := by
            intro hc
            have hlt := h.holder id hc
            omega
          rw [decide_eq_false hnot]
          exact ht
      · intro id hid
        have hlt := h.holder id hid
        show id < (m.threads ++ [th]).length
        rw [List.length_append]
        omega
  | go id answer inner =>
      rcases m.step_go id answer inner with ⟨_, hs⟩ | ⟨th, hth, hm⟩
      · rw [hs]
        exact h
      · exact h.moves hth hm ht

/-! ## Which threads can go on -/

def Machine.Done (m : Machine σ α κ τ) : Prop :=
  ∀ (id : Nat) (th : Thread σ α κ τ), m.threads[id]? = some th → th.code = .running []

/-- In order, a thread never waits for the mutex that it holds itself. -/
theorem Machine.Ordered.no_self_wait {m : Machine σ α κ τ} (h : m.Ordered) {id : Nat}
    {th : Thread σ α κ τ} (hth : m.threads[id]? = some th) {ops : List (Op σ κ)}
    (hcode : th.code = .running (.acquire :: ops)) : m.holder ≠ some id := by
  have hf := h.fits id th hth
  rw [hcode] at hf
  simpa using hf.1

/-- The holder of the mutex can go on. -/
theorem Machine.Ordered.holder_enabled {m : Machine σ α κ τ} (h : m.Ordered) {id : Nat}
    (hid : m.holder = some id) : m.Enabled id := by
  obtain ⟨th, hth⟩ : ∃ th, m.threads[id]? = some th :=
    ⟨_, List.getElem?_eq_getElem (h.holder id hid)⟩
  have hf := h.fits id th hth
  refine ⟨th, hth, ?_⟩
  rw [decide_eq_true hid] at hf
  cases hcode : th.code with
  | entering body =>
      rw [hcode] at hf
      cases hf
  | running ops =>
      rw [hcode] at hf
      cases ops with
      | nil => cases hf
      | cons op ops =>
          cases op with
          | acquire => cases hf.1
          | release => trivial
          | work f => trivial
          | call c => trivial

/-- Where no thread can go on, all are done. -/
theorem Machine.Ordered.done {m : Machine σ α κ τ} (h : m.Ordered) (hq : ∀ id, ¬ m.Enabled id) :
    m.Done := by
  have hfree : m.holder = none := by
    cases hh : m.holder with
    | none => rfl
    | some id => exact absurd (h.holder_enabled hh) (hq id)
  intro id th hth
  by_contra hne
  apply hq id
  refine ⟨th, hth, ?_⟩
  cases hcode : th.code with
  | entering body => exact hfree
  | running ops =>
      cases ops with
      | nil => exact absurd hcode hne
      | cons op ops => cases op <;> first | exact hfree | trivial

/-! ## How long threads can go on -/

/-- `slack` is room for what foreign code does in a call. -/
def opWeight (slack : Nat) : Op σ κ → Nat
  | .call _ => slack + 1
  | _ => 1

def opsWeight (slack : Nat) (ops : List (Op σ κ)) : Nat := (ops.map (opWeight slack)).sum

/-- `reserve` is room for what comes behind the mutex. -/
def Thread.weight (slack reserve : Nat) (th : Thread σ α κ τ) : Nat :=
  match th.code with
  | .entering _ => reserve + 1
  | .running ops => opsWeight slack ops

def Machine.weight (slack reserve : Nat) (m : Machine σ α κ τ) : Nat :=
  (m.threads.map (Thread.weight slack reserve)).sum

/-- What comes in with a turn is not longer than the room for it. -/
def BoundedTurn (slack reserve : Nat) (m : Machine σ α κ τ) : Turn σ α κ τ → Prop
  | .spawn _ => False
  | .go id answer inner =>
      opsWeight slack inner ≤ slack ∧
        ∀ (th : Thread σ α κ τ) body, m.threads[id]? = some th → th.code = .entering body →
          opsWeight slack (body answer m.shared).2 ≤ reserve

theorem sum_map_set {β : Type*} (f : β → Nat) {l : List β} {i : Nat} {x : β} (y : β)
    (h : l[i]? = some x) : ((l.set i y).map f).sum + f x = (l.map f).sum + f y := by
  induction l generalizing i with
  | nil => simp at h
  | cons a l ih =>
      cases i with
      | zero =>
          obtain rfl := Option.some.inj (List.getElem?_cons_zero.symm.trans h)
          simp only [List.set_cons_zero, List.map_cons, List.sum_cons]
          omega
      | succ i =>
          rw [List.getElem?_cons_succ] at h
          simp only [List.set_cons_succ, List.map_cons, List.sum_cons]
          have := ih h
          omega

theorem Machine.weight_goOn {slack reserve : Nat} {m m' : Machine σ α κ τ} {id : Nat}
    {th : Thread σ α κ τ} (hth : m.threads[id]? = some th) {code : Code σ α κ}
    (hthreads : m'.threads = m.threads.set id { th with code })
    (hlt : Thread.weight slack reserve { th with code } < th.weight slack reserve) :
    m'.weight slack reserve < m.weight slack reserve := by
  have hsum := sum_map_set (Thread.weight slack reserve) { th with code } hth
  rw [Machine.weight, Machine.weight, hthreads]
  omega

theorem Thread.weight_running {slack reserve : Nat} {th : Thread σ α κ τ} {ops : List (Op σ κ)}
    (h : th.code = .running ops) : th.weight slack reserve = opsWeight slack ops := by
  rw [Thread.weight, h]

theorem Thread.weight_cons {slack reserve : Nat} {th : Thread σ α κ τ} {op : Op σ κ}
    {ops : List (Op σ κ)} (h : th.code = .running (op :: ops)) :
    th.weight slack reserve = opWeight slack op + opsWeight slack ops := by
  rw [Thread.weight_running h, opsWeight, List.map_cons, List.sum_cons, opsWeight]

theorem Thread.weight_tail {slack reserve : Nat} {th : Thread σ α κ τ} {op : Op σ κ}
    {ops : List (Op σ κ)} (h : th.code = .running (op :: ops)) :
    ({ th with code := .running ops } : Thread σ α κ τ).weight slack reserve <
      th.weight slack reserve := by
  have hpos : 0 < opWeight slack op := by cases op <;> simp [opWeight]
  rw [Thread.weight_running rfl, Thread.weight_cons h]
  omega

/-- What a thread goes on with is lighter than what it had. -/
theorem Machine.weight_moves {slack reserve : Nat} {m m' : Machine σ α κ τ} {id : Nat}
    {th : Thread σ α κ τ} (hth : m.threads[id]? = some th) {answer : α} {inner : List (Op σ κ)}
    (hm : m.Moves id th answer inner m') (hb : BoundedTurn slack reserve m (.go id answer inner)) :
    m'.weight slack reserve < m.weight slack reserve := by
  cases hm with
  | enter hcode hfree =>
      have hbody := hb.2 th _ hth hcode
      refine Machine.weight_goOn hth rfl ?_
      rw [Thread.weight_running rfl, Thread.weight, hcode]
      dsimp only
      omega
  | acquire hcode hfree => exact Machine.weight_goOn hth rfl (Thread.weight_tail hcode)
  | release hcode => exact Machine.weight_goOn hth rfl (Thread.weight_tail hcode)
  | work hcode => exact Machine.weight_goOn hth rfl (Thread.weight_tail hcode)
  | call hcode =>
      have hinner := hb.1
      refine Machine.weight_goOn hth rfl ?_
      rw [Thread.weight_running rfl, Thread.weight_cons hcode, opsWeight, List.map_append,
        List.sum_append, ← opsWeight, ← opsWeight, opWeight]
      omega

/-- Every turn of a thread that can go on uses up weight. -/
theorem Machine.weight_step {slack reserve : Nat} {m : Machine σ α κ τ} {id : Nat} {answer : α}
    {inner : List (Op σ κ)} (he : m.Enabled id)
    (hb : BoundedTurn slack reserve m (.go id answer inner)) :
    (m.step (.go id answer inner)).weight slack reserve < m.weight slack reserve := by
  rcases m.step_go id answer inner with ⟨hn, _⟩ | ⟨th, hth, hm⟩
  · exact absurd he hn
  · exact Machine.weight_moves hth hm hb

/-- Turns of threads that can go on. -/
def Machine.GoesOn (slack reserve : Nat) (m : Machine σ α κ τ) : List (Turn σ α κ τ) → Prop
  | [] => True
  | t :: ts =>
      (∃ id answer inner, t = .go id answer inner ∧ m.Enabled id) ∧ BoundedTurn slack reserve m t ∧
        (m.step t).GoesOn slack reserve ts

/-- There are no more of them than the weight. -/
theorem Machine.GoesOn.length_le {slack reserve : Nat} {m : Machine σ α κ τ}
    {ts : List (Turn σ α κ τ)} (h : m.GoesOn slack reserve ts) : ts.length ≤ m.weight slack reserve := by
  induction ts generalizing m with
  | nil => exact Nat.zero_le _
  | cons t ts ih =>
      obtain ⟨⟨id, answer, inner, rfl, he⟩, hb, hrest⟩ := h
      have hlt := Machine.weight_step he hb
      have hle := ih hrest
      rw [List.length_cons]
      omega

/-! ## How often a thread calls -/

section Count

variable (p : κ → Bool) (due : τ → Nat)

def isCall : Op σ κ → Bool
  | .call callee => p callee
  | _ => false

/-- The calls of a kind that a thread has made. -/
def Machine.made (m : Machine σ α κ τ) (id : Nat) : Nat :=
  m.calls.countP fun c => c.thread = id ∧ p c.callee = true

/-- The calls of the kind that a thread is still to make. -/
def Thread.toMake (th : Thread σ α κ τ) : Nat :=
  match th.code with
  | .entering _ => due th.tag
  | .running ops => ops.countP (isCall p)

/-- Made and to make are what is due. -/
structure Machine.Counted (m : Machine σ α κ τ) : Prop where
  thread : ∀ (id : Nat) (th : Thread σ α κ τ), m.threads[id]? = some th →
    m.made p id + th.toMake p due = due th.tag
  none : ∀ id, m.threads.length ≤ id → m.made p id = 0

/-- What comes in with a turn makes the calls that are due. -/
def CountedTurn (m : Machine σ α κ τ) : Turn σ α κ τ → Prop
  | .spawn th => th.toMake p due = due th.tag
  | .go id answer inner =>
      inner.countP (isCall p) = 0 ∧
        ∀ (th : Thread σ α κ τ) body, m.threads[id]? = some th → th.code = .entering body →
          (body answer m.shared).2.countP (isCall p) = due th.tag

end Count

variable {p : κ → Bool} {due : τ → Nat}

theorem Machine.Counted.goOn {m m' : Machine σ α κ τ} (h : m.Counted p due) {id : Nat}
    {th : Thread σ α κ τ} (hth : m.threads[id]? = some th) {code : Code σ α κ}
    (hthreads : m'.threads = m.threads.set id { th with code })
    (hmade : m'.made p id + Thread.toMake p due { th with code } = m.made p id + th.toMake p due)
    (hothers : ∀ j, j ≠ id → m'.made p j = m.made p j) : m'.Counted p due := by
  have hlt : id < m.threads.length := (List.getElem?_eq_some_iff.1 hth).1
  refine ⟨?_, ?_⟩
  · intro j th' hj
    rcases Machine.threads_goOn hthreads hj with ⟨rfl, rfl⟩ | ⟨hji, hj⟩
    · rw [hmade]
      exact h.thread j th hth
    · rw [hothers j hji]
      exact h.thread j th' hj
  · intro j hj
    rw [hthreads, List.length_set] at hj
    rw [hothers j (by omega)]
    exact h.none j hj

theorem Thread.toMake_running {th : Thread σ α κ τ} {ops : List (Op σ κ)} (h : th.code = .running ops) :
    th.toMake p due = ops.countP (isCall p) := by
  rw [Thread.toMake, h]

theorem Thread.toMake_cons {th : Thread σ α κ τ} {op : Op σ κ} {ops : List (Op σ κ)}
    (h : th.code = .running (op :: ops)) :
    th.toMake p due = ops.countP (isCall p) + if isCall p op = true then 1 else 0 := by
  rw [Thread.toMake_running h, List.countP_cons]

/-- A call is one more of those its thread has made. -/
theorem made_call (calls : List (Call κ)) (id : Nat) (callee : κ) (locked : Bool) (j : Nat) :
    (calls ++ [Call.mk id callee locked]).countP (fun c => c.thread = j ∧ p c.callee = true) =
      calls.countP (fun c => c.thread = j ∧ p c.callee = true) +
        if id = j ∧ p callee = true then 1 else 0 := by
  simp only [List.countP_append, List.countP_cons, List.countP_nil, decide_eq_true_eq, Nat.zero_add]

/-- A turn of a thread keeps the counts. -/
theorem Machine.Counted.moves {m m' : Machine σ α κ τ} (h : m.Counted p due) {id : Nat}
    {th : Thread σ α κ τ} (hth : m.threads[id]? = some th) {answer : α} {inner : List (Op σ κ)}
    (hm : m.Moves id th answer inner m') (ht : CountedTurn p due m (.go id answer inner)) :
    m'.Counted p due := by
  cases hm with
  | enter hcode hfree =>
      refine h.goOn hth rfl ?_ fun j _ => rfl
      rw [Thread.toMake_running rfl, ht.2 th _ hth hcode, Thread.toMake, hcode]
      rfl
  | acquire hcode hfree =>
      refine h.goOn hth rfl ?_ fun j _ => rfl
      rw [Thread.toMake_running rfl, Thread.toMake_cons hcode]
      rfl
  | release hcode =>
      refine h.goOn hth rfl ?_ fun j _ => rfl
      rw [Thread.toMake_running rfl, Thread.toMake_cons hcode]
      rfl
  | work hcode =>
      refine h.goOn hth rfl ?_ fun j _ => rfl
      rw [Thread.toMake_running rfl, Thread.toMake_cons hcode]
      rfl
  | @call callee ops hcode =>
      refine h.goOn hth rfl ?_ ?_
      · have hkind : isCall (σ := σ) p (.call callee) = p callee := rfl
        rw [Machine.made, made_call, Thread.toMake_running rfl, Thread.toMake_cons hcode,
          List.countP_append, ht.1, hkind, Machine.made]
        simp only [true_and]
        omega
      · intro j hj
        rw [Machine.made, made_call, if_neg (fun hc => hj hc.1.symm), Nat.add_zero, Machine.made]

/-- One turn keeps the counts. -/
theorem Machine.Counted.step {m : Machine σ α κ τ} (h : m.Counted p due) {t : Turn σ α κ τ}
    (ht : CountedTurn p due m t) : (m.step t).Counted p due := by
  cases t with
  | spawn th =>
      refine ⟨?_, ?_⟩
      · intro id th' hth'
        show m.made p id + _ = _
        rcases Machine.threads_spawn hth' with hold | ⟨hid, rfl⟩
        · exact h.thread id th' hold
        · rw [h.none id hid, Nat.zero_add]
          exact ht
      · intro id hid
        have hlen : (m.threads ++ [th]).length ≤ id := hid
        rw [List.length_append] at hlen
        exact h.none id (by omega)
  | go id answer inner =>
      rcases m.step_go id answer inner with ⟨_, hs⟩ | ⟨th, hth, hm⟩
      · rw [hs]
        exact h
      · exact h.moves hth hm ht

/-- No thread calls more often than is due. -/
theorem Machine.Counted.made_le {m : Machine σ α κ τ} (h : m.Counted p due) {id : Nat}
    {th : Thread σ α κ τ} (hth : m.threads[id]? = some th) : m.made p id ≤ due th.tag := by
  have := h.thread id th hth
  omega

/-- A thread that is done has called as often as is due. -/
theorem Machine.Counted.made_eq {m : Machine σ α κ τ} (h : m.Counted p due) {id : Nat}
    {th : Thread σ α κ τ} (hth : m.threads[id]? = some th) (hdone : th.code = .running []) :
    m.made p id = due th.tag := by
  have hc := h.thread id th hth
  rw [Thread.toMake_running hdone, List.countP_nil, Nat.add_zero] at hc
  exact hc

/-! ## Threads that wait to enter -/

/-- What is known of the bodies of the threads that have not entered. -/
def Machine.Entering (P : τ → (α → σ → σ × List (Op σ κ)) → Prop) (m : Machine σ α κ τ) : Prop :=
  ∀ (id : Nat) (th : Thread σ α κ τ) body, m.threads[id]? = some th → th.code = .entering body →
    P th.tag body

theorem Machine.Entering.goOn {P : τ → (α → σ → σ × List (Op σ κ)) → Prop} {m m' : Machine σ α κ τ}
    (h : m.Entering P) {id : Nat} {th : Thread σ α κ τ} {ops : List (Op σ κ)}
    (hthreads : m'.threads = m.threads.set id { th with code := .running ops }) : m'.Entering P := by
  intro j th' body hj hbody
  rcases Machine.threads_goOn hthreads hj with ⟨_, rfl⟩ | ⟨_, hj⟩
  · cases hbody
  · exact h j th' body hj hbody

theorem Machine.Entering.moves {P : τ → (α → σ → σ × List (Op σ κ)) → Prop} {m m' : Machine σ α κ τ}
    (h : m.Entering P) {id : Nat} {th : Thread σ α κ τ} {answer : α} {inner : List (Op σ κ)}
    (hm : m.Moves id th answer inner m') : m'.Entering P := by
  cases hm with
  | enter hcode hfree => exact h.goOn rfl
  | acquire hcode hfree => exact h.goOn rfl
  | release hcode => exact h.goOn rfl
  | work hcode => exact h.goOn rfl
  | call hcode => exact h.goOn rfl

theorem Machine.Entering.step {P : τ → (α → σ → σ × List (Op σ κ)) → Prop} {m : Machine σ α κ τ}
    (h : m.Entering P) {t : Turn σ α κ τ}
    (ht : ∀ th body, t = .spawn th → th.code = .entering body → P th.tag body) :
    (m.step t).Entering P := by
  cases t with
  | spawn th =>
      intro id th' body hth' hbody
      rcases Machine.threads_spawn hth' with hold | ⟨_, rfl⟩
      · exact h id th' body hold hbody
      · exact ht th' body rfl hbody
  | go id answer inner =>
      rcases m.step_go id answer inner with ⟨_, hs⟩ | ⟨th, hth, hm⟩
      · rw [hs]
        exact h
      · exact h.moves hm

end OpenBambu.Foundation.Mutex
