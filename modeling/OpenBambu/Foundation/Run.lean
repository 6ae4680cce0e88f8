import Mathlib.Data.List.Basic

/-!
# Runs of a step function

A system takes events one after the other. What holds of every state of a run follows from what
one step keeps, and a step may have a condition on the state it finds.
-/

namespace OpenBambu.Foundation

variable {σ ε : Type*} (step : σ → ε → σ)

/-- The state behind the events. -/
def after (s : σ) (events : List ε) : σ := events.foldl step s

/-- `P` holds of the first state and behind every event. -/
def InEveryState (P : σ → Prop) (s : σ) (events : List ε) : Prop :=
  ∀ past rest, events = past ++ rest → P (after step s past)

/-- Every event meets the condition in the state it finds. -/
def AtEveryStep (ok : σ → ε → Prop) (s : σ) (events : List ε) : Prop :=
  ∀ past e rest, events = past ++ e :: rest → ok (after step s past) e

@[simp] theorem after_nil (s : σ) : after step s [] = s := rfl

@[simp] theorem after_cons (s : σ) (e : ε) (events : List ε) :
    after step s (e :: events) = after step (step s e) events := rfl

@[simp] theorem after_append (s : σ) (xs ys : List ε) :
    after step s (xs ++ ys) = after step (after step s xs) ys := List.foldl_append

variable {step}

theorem inEveryState_nil {P : σ → Prop} {s : σ} : InEveryState step P s [] ↔ P s := by
  constructor
  · intro h
    exact h [] [] rfl
  · intro h past rest hr
    rw [(List.append_eq_nil_iff.1 hr.symm).1]
    exact h

theorem inEveryState_cons {P : σ → Prop} {s : σ} {e : ε} {events : List ε} :
    InEveryState step P s (e :: events) ↔ P s ∧ InEveryState step P (step s e) events := by
  constructor
  · intro h
    refine ⟨h [] (e :: events) rfl, ?_⟩
    intro past rest hr
    exact h (e :: past) rest (by rw [hr, List.cons_append])
  · intro h past rest hr
    cases past with
    | nil => exact h.1
    | cons x past =>
        obtain ⟨rfl, htail⟩ := List.cons.inj hr
        exact h.2 past rest htail

theorem atEveryStep_nil {ok : σ → ε → Prop} {s : σ} : AtEveryStep step ok s [] := by
  intro past e rest hr
  cases past <;> cases hr

theorem atEveryStep_cons {ok : σ → ε → Prop} {s : σ} {e : ε} {events : List ε} :
    AtEveryStep step ok s (e :: events) ↔ ok s e ∧ AtEveryStep step ok (step s e) events := by
  constructor
  · intro h
    refine ⟨h [] e events rfl, ?_⟩
    intro past x rest hr
    exact h (e :: past) x rest (by rw [hr, List.cons_append])
  · intro h past x rest hr
    cases past with
    | nil =>
        obtain ⟨rfl, rfl⟩ := List.cons.inj hr
        exact h.1
    | cons y past =>
        obtain ⟨rfl, htail⟩ := List.cons.inj hr
        exact h.2 past x rest htail

theorem atEveryStep_append {ok : σ → ε → Prop} {s : σ} {xs ys : List ε} :
    AtEveryStep step ok s (xs ++ ys) ↔ AtEveryStep step ok s xs ∧ AtEveryStep step ok (after step s xs) ys := by
  induction xs generalizing s with
  | nil => exact (and_iff_right atEveryStep_nil).symm
  | cons x xs ih => rw [List.cons_append, atEveryStep_cons, atEveryStep_cons, ih, and_assoc, after_cons]

/-- Events that meet the condition in any state. -/
theorem atEveryStep_of_forall {ok : σ → ε → Prop} {events : List ε} (h : ∀ e ∈ events, ∀ s, ok s e) (s : σ) :
    AtEveryStep step ok s events := by
  intro past e rest hr
  exact h e (by rw [hr]; exact List.mem_append_right past List.mem_cons_self) _

/-- What every step keeps that meets its condition holds of every state of a run whose steps
meet it. -/
theorem inEveryState_of_step {I : σ → Prop} {ok : σ → ε → Prop}
    (hstep : ∀ s e, I s → ok s e → I (step s e)) {s : σ} (hs : I s) {events : List ε}
    (hok : AtEveryStep step ok s events) : InEveryState step I s events := by
  induction events generalizing s with
  | nil => exact inEveryState_nil.2 hs
  | cons e events ih =>
      obtain ⟨he, hok⟩ := atEveryStep_cons.1 hok
      exact inEveryState_cons.2 ⟨hs, ih (hstep s e hs he) hok⟩

/-- An invariant without a condition on the steps. -/
theorem inEveryState_of_inv {I : σ → Prop} (hstep : ∀ s e, I s → I (step s e)) {s : σ} (hs : I s)
    (events : List ε) : InEveryState step I s events :=
  @inEveryState_of_step _ _ step I (fun _ _ => True) (fun s e h _ => hstep s e h) s hs events
    fun _ _ _ _ => trivial

theorem after_of_inv {I : σ → Prop} (hstep : ∀ s e, I s → I (step s e)) {s : σ} (hs : I s)
    (events : List ε) : I (after step s events) :=
  inEveryState_of_inv hstep hs events events [] (List.append_nil events).symm

theorem InEveryState.first {P : σ → Prop} {s : σ} {events : List ε}
    (h : InEveryState step P s events) : P s :=
  h [] events rfl

/-- Where a step keeps `P` exactly if it meets its condition, so does a run. -/
theorem inEveryState_iff {I P : σ → Prop} {ok : σ → ε → Prop}
    (hinv : ∀ s e, I s → I (step s e)) (hstep : ∀ s e, I s → P s → (P (step s e) ↔ ok s e)) {s : σ}
    (hs : I s) (hp : P s) (events : List ε) :
    InEveryState step P s events ↔ AtEveryStep step ok s events := by
  induction events generalizing s with
  | nil => exact iff_of_true (inEveryState_nil.2 hp) atEveryStep_nil
  | cons e events ih =>
      rw [inEveryState_cons, atEveryStep_cons, and_iff_right hp]
      constructor
      · intro h
        refine ⟨(hstep s e hs hp).1 h.first, ?_⟩
        exact (ih (hinv s e hs) h.first).1 h
      · intro h
        apply (ih (hinv s e hs) ((hstep s e hs hp).2 h.1)).2
        exact h.2

theorem InEveryState.mono {P Q : σ → Prop} (hpq : ∀ s, P s → Q s) {s : σ} {events : List ε}
    (h : InEveryState step P s events) : InEveryState step Q s events := by
  intro past rest hr
  exact hpq _ (h past rest hr)

/-- What the steps of a run put out. -/
def outputs {ω : Type*} (step : σ → ε → σ) (out : σ → ε → ω) : σ → List ε → List ω
  | _, [] => []
  | s, e :: events => out s e :: outputs step out (step s e) events

/-- Two systems whose steps keep a relation and put out the same cannot be told apart. -/
theorem outputs_eq_of_bisim {ω : Type*} {out : σ → ε → ω} {R : σ → σ → Prop}
    (hstep : ∀ s t e, R s t → out s e = out t e ∧ R (step s e) (step t e)) {s t : σ} (h : R s t)
    (events : List ε) :
    outputs step out s events = outputs step out t events ∧
      R (after step s events) (after step t events) := by
  induction events generalizing s t with
  | nil => exact ⟨rfl, h⟩
  | cons e events ih =>
      obtain ⟨hout, hnext⟩ := hstep s t e h
      obtain ⟨hrest, hbehind⟩ := ih hnext
      refine ⟨?_, hbehind⟩
      rw [outputs, outputs, hout, hrest]

end OpenBambu.Foundation
