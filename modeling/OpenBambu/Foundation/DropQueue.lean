import Mathlib.Data.List.Infix
import Mathlib.Tactic.SplitIfs

/-!
# Bounded queues that drop their oldest entry

A producer that finds `cap` entries or more waiting discards from the front until there is
room. The entries that leave such a queue are listed in the order in which they leave, with
the length the producer saw for the discarded ones. `Accounts` ties this list to what was
offered.
-/

namespace OpenBambu.Foundation.DropQueue

variable {α : Type*}

/-- How an entry leaves the queue. -/
inductive Exit (α : Type*) where
  | taken (x : α)
  | dropped (x : α) (queued : Nat)
  deriving DecidableEq, Repr

namespace Exit

def entry : Exit α → α
  | taken x => x
  | dropped x _ => x

def takenEntry : Exit α → Option α
  | taken x => some x
  | dropped _ _ => none

end Exit

/-- The entries the consumer got, in order. -/
def takenOf (exits : List (Exit α)) : List α := exits.filterMap Exit.takenEntry

/-- Pops the front while `cap` entries or more are queued. -/
def makeRoom (cap : Nat) : List α → List α × List (Exit α)
  | [] => ([], [])
  | x :: q =>
      if cap ≤ q.length + 1 then
        ((makeRoom cap q).1, .dropped x (q.length + 1) :: (makeRoom cap q).2)
      else (x :: q, [])

@[simp] theorem takenOf_nil : takenOf ([] : List (Exit α)) = [] := rfl

@[simp] theorem takenOf_append (e₁ e₂ : List (Exit α)) :
    takenOf (e₁ ++ e₂) = takenOf e₁ ++ takenOf e₂ := List.filterMap_append

@[simp] theorem takenOf_taken (x : α) : takenOf [Exit.taken x] = [x] := rfl

theorem takenOf_sublist_entries (exits : List (Exit α)) :
    List.Sublist (takenOf exits) (exits.map Exit.entry) := by
  induction exits with
  | nil => exact List.Sublist.refl _
  | cons e exits ih =>
      cases e with
      | taken x => exact ih.cons_cons x
      | dropped x n => exact ih.cons x

theorem makeRoom_entries (cap : Nat) (q : List α) :
    (makeRoom cap q).2.map Exit.entry ++ (makeRoom cap q).1 = q := by
  induction q with
  | nil => rfl
  | cons x q ih =>
      rw [makeRoom]
      split_ifs
      · rw [List.map_cons, List.cons_append, ih]
        rfl
      · rfl

theorem makeRoom_dropped {cap : Nat} {q : List α} {e : Exit α} (h : e ∈ (makeRoom cap q).2) :
    ∃ x n, e = .dropped x n ∧ cap ≤ n ∧ x ∈ q := by
  induction q with
  | nil => simp [makeRoom] at h
  | cons x q ih =>
      rw [makeRoom] at h
      split_ifs at h with hc
      · rcases List.mem_cons.1 h with he | he
        · exact ⟨x, q.length + 1, he, hc, List.mem_cons_self⟩
        · obtain ⟨y, n, hy, hn, hq⟩ := ih he
          exact ⟨y, n, hy, hn, List.mem_cons_of_mem _ hq⟩
      · simp at h

/-- What left the queue and what is left of it are the offered entries in order, and entries
were discarded only while `cap` or more were queued. -/
structure Accounts (cap : Nat) (offered : List α) (exits : List (Exit α)) (queue : List α) : Prop where
  fifo : exits.map Exit.entry ++ queue = offered
  full : ∀ x n, Exit.dropped x n ∈ exits → cap ≤ n

namespace Accounts

variable {cap : Nat} {offered : List α} {exits : List (Exit α)} {queue : List α}

/-- An entry put behind the others without making room. -/
theorem append (h : Accounts cap offered exits queue) (x : α) :
    Accounts cap (offered ++ [x]) exits (queue ++ [x]) :=
  ⟨by rw [← List.append_assoc, h.fifo], h.full⟩

theorem makeRoom (h : Accounts cap offered exits queue) :
    Accounts cap offered (exits ++ (DropQueue.makeRoom cap queue).2) (DropQueue.makeRoom cap queue).1 := by
  constructor
  · rw [List.map_append, List.append_assoc, makeRoom_entries, h.fifo]
  · intro x n hx
    rcases List.mem_append.1 hx with hx | hx
    · exact h.full x n hx
    · obtain ⟨y, m, he, hm, -⟩ := makeRoom_dropped hx
      cases he
      exact hm

theorem take {x : α} (h : Accounts cap offered exits (x :: queue)) :
    Accounts cap offered (exits ++ [.taken x]) queue := by
  constructor
  · rw [List.map_append, List.append_assoc, ← h.fifo]
    rfl
  · intro y n hy
    apply h.full y n
    simpa using hy

theorem takenOf_sublist (h : Accounts cap offered exits queue) :
    List.Sublist (takenOf exits) offered := by
  rw [← h.fifo]
  exact (takenOf_sublist_entries exits).trans (List.sublist_append_left _ _)

end Accounts

end OpenBambu.Foundation.DropQueue
