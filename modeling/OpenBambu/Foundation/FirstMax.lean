import Mathlib.Data.List.Induction
import Mathlib.Order.Lattice

/-!
# The first maximum of a list

A loop that keeps the best element so far and replaces it only by a better one ends with the first
element of the largest key. The place in the list stands for the pointer such a loop keeps.
-/

namespace OpenBambu.Foundation

variable {α κ : Type*} [LinearOrder κ] (p : α → Bool) (key : α → κ)

/-- One turn: only elements with `p` count, and the older one stays when the keys are equal. -/
def keepMax (best : Option (α × Nat)) (x : α × Nat) : Option (α × Nat) :=
  if p x.1 then
    match best with
    | none => some x
    | some b => if key b.1 < key x.1 then some x else some b
  else best

def firstMax (l : List α) : Option (α × Nat) := l.zipIdx.foldl (keepMax p key) none

/-- The element at its place has the largest key of all that count, and of those the first place. -/
structure IsFirstMax (l : List α) (r : α × Nat) : Prop where
  place : l[r.2]? = some r.1
  counts : p r.1 = true
  largest : ∀ y ∈ l, p y = true → key y ≤ key r.1
  first : ∀ j < r.2, ∀ y, l[j]? = some y → p y = true → key y < key r.1

theorem firstMax_append (l : List α) (x : α) :
    firstMax p key (l ++ [x]) = keepMax p key (firstMax p key l) (x, l.length) := by
  simp [firstMax, List.zipIdx_append]

section

variable {p key} {l : List α} {x : α} {r : α × Nat}

theorem IsFirstMax.lt_length (h : IsFirstMax p key l r) : r.2 < l.length :=
  (List.getElem?_eq_some_iff.mp h.place).1

/-- The old maximum stays the first one unless the new element is better. -/
theorem IsFirstMax.stays (h : IsFirstMax p key l r) (hx : p x = true → key x ≤ key r.1) :
    IsFirstMax p key (l ++ [x]) r where
  place := by rw [List.getElem?_append_left h.lt_length, h.place]
  counts := h.counts
  largest y hy hp := by
    rcases List.mem_append.mp hy with hy | hy
    · exact h.largest y hy hp
    · obtain rfl := List.mem_singleton.mp hy
      exact hx hp
  first j hj y hy hp := by
    rw [List.getElem?_append_left (hj.trans h.lt_length)] at hy
    exact h.first j hj y hy hp

/-- A new element that is better than all before it is the first maximum. -/
theorem isFirstMax_last (hx : p x = true) (hl : ∀ y ∈ l, p y = true → key y < key x) :
    IsFirstMax p key (l ++ [x]) (x, l.length) where
  place := List.getElem?_concat_length
  counts := hx
  largest y hy hp := by
    rcases List.mem_append.mp hy with hy | hy
    · exact (hl y hy hp).le
    · obtain rfl := List.mem_singleton.mp hy
      exact le_rfl
  first j hj y hy hp := by
    rw [List.getElem?_append_left hj] at hy
    exact hl y (List.mem_of_getElem? hy) hp

/-- What the loop has found of the list so far. -/
theorem firstMax_spec (p : α → Bool) (key : α → κ) (l : List α) :
    (firstMax p key l = none ∧ ∀ y ∈ l, p y = false) ∨
      ∃ r, firstMax p key l = some r ∧ IsFirstMax p key l r := by
  induction l using List.reverseRecOn with
  | nil => exact .inl ⟨rfl, by simp⟩
  | append_singleton l x ih =>
      rw [firstMax_append]
      by_cases hx : p x = true
      · right
        rcases ih with ⟨hnone, hall⟩ | ⟨r, hsome, hmax⟩
        · refine ⟨(x, l.length), by simp [keepMax, hnone, hx], isFirstMax_last hx fun y hy hp => ?_⟩
          rw [hall y hy] at hp
          exact absurd hp Bool.false_ne_true
        · by_cases hlt : key r.1 < key x
          · refine ⟨(x, l.length), by simp [keepMax, hsome, hx, hlt], isFirstMax_last hx fun y hy hp => ?_⟩
            exact (hmax.largest y hy hp).trans_lt hlt
          · exact ⟨r, by simp [keepMax, hsome, hx, hlt], hmax.stays fun _ => not_lt.mp hlt⟩
      · rcases ih with ⟨hnone, hall⟩ | ⟨r, hsome, hmax⟩
        · refine .inl ⟨by simp [keepMax, hnone, hx], fun y hy => ?_⟩
          rcases List.mem_append.mp hy with hy | hy
          · exact hall y hy
          · obtain rfl := List.mem_singleton.mp hy
            exact Bool.not_eq_true _ ▸ hx
        · exact .inr ⟨r, by simp [keepMax, hsome, hx], hmax.stays fun hp => absurd hp hx⟩

theorem firstMax_eq_none_iff : firstMax p key l = none ↔ ∀ y ∈ l, p y = false := by
  rcases firstMax_spec p key l with ⟨hnone, hall⟩ | ⟨r, hsome, hmax⟩
  · exact ⟨fun _ => hall, fun _ => hnone⟩
  · refine ⟨fun h => by simp [hsome] at h, fun h => ?_⟩
    have hr := h r.1 (List.mem_of_getElem? hmax.place)
    rw [hmax.counts] at hr
    exact absurd hr (by decide)

theorem isFirstMax_of_eq (h : firstMax p key l = some r) : IsFirstMax p key l r := by
  rcases firstMax_spec p key l with ⟨hnone, -⟩ | ⟨r', hsome, hmax⟩
  · rw [hnone] at h
    cases h
  · rw [hsome] at h
    obtain rfl := Option.some.inj h
    exact hmax

/-- The key that is found does not depend on the order of the list. -/
theorem firstMax_perm {l' : List α} (h : l.Perm l') :
    (firstMax p key l).map (fun r => key r.1) = (firstMax p key l').map fun r => key r.1 := by
  cases hl : firstMax p key l with
  | none =>
      have hall := firstMax_eq_none_iff.mp hl
      have hl' : firstMax p key l' = none := firstMax_eq_none_iff.mpr fun y hy => hall y (h.mem_iff.mpr hy)
      rw [hl']
  | some r =>
      have hr := isFirstMax_of_eq hl
      have hmem := List.mem_of_getElem? hr.place
      cases hl' : firstMax p key l' with
      | none =>
          have hall := firstMax_eq_none_iff.mp hl' r.1 (h.mem_iff.mp hmem)
          rw [hr.counts] at hall
          exact absurd hall (by decide)
      | some r' =>
          have hr' := isFirstMax_of_eq hl'
          have hle := hr'.largest r.1 (h.mem_iff.mp hmem) hr.counts
          have hge := hr.largest r'.1 (h.mem_iff.mpr (List.mem_of_getElem? hr'.place)) hr'.counts
          exact congrArg some (le_antisymm hle hge)

end

end OpenBambu.Foundation
