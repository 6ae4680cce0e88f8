import OpenBambu.Foundation.Text

/-!
# The last value that counts

Items of which some have a value, and a setting that takes the value of the last one that does.
-/

namespace OpenBambu.Foundation

variable {σ τ β : Type*}

/-- The value of the last item with one, or the default where there is none. -/
def LastOf (P : τ → β → Prop) (ts : List τ) (d x : β) : Prop :=
  (∃ before t behind, ts = before ++ t :: behind ∧ P t x ∧ ∀ u ∈ behind, ∀ y, ¬ P u y) ∨
    (x = d ∧ ∀ t ∈ ts, ∀ y, ¬ P t y)

section Laws

variable {P : τ → β → Prop} {ts : List τ} {t : τ} {d x : β}

theorem lastOf_nil : LastOf P [] d x ↔ x = d := by
  constructor
  · rintro (⟨before, t, behind, hsplit, -, -⟩ | ⟨hx, -⟩)
    · exact absurd hsplit (by simp)
    · exact hx
  · intro hx
    exact Or.inr ⟨hx, by simp⟩

theorem lastOf_snoc : LastOf P (ts ++ [t]) d x ↔ P t x ∨ (∀ y, ¬ P t y) ∧ LastOf P ts d x := by
  constructor
  · rintro (⟨before, u, behind, hsplit, hu, hnone⟩ | ⟨hx, hnone⟩)
    · rcases List.eq_nil_or_concat behind with rfl | ⟨behind, w, rfl⟩
      · obtain ⟨-, rfl⟩ := List.append_inj' hsplit rfl |>.imp_right List.singleton_inj.mp
        exact Or.inl hu
      · rw [List.concat_eq_append, ← List.cons_append, ← List.append_assoc] at hsplit
        obtain ⟨rfl, hw⟩ := List.append_inj' hsplit rfl
        obtain rfl := List.singleton_inj.mp hw
        refine Or.inr ⟨hnone t (by simp), Or.inl ⟨before, u, behind, rfl, hu, ?_⟩⟩
        exact fun v hv => hnone v (by simp [hv])
    · exact Or.inr ⟨hnone t (by simp), Or.inr ⟨hx, fun u hu => hnone u (by simp [hu])⟩⟩
  · rintro (ht | ⟨ht, ⟨before, u, behind, rfl, hu, hnone⟩ | ⟨hx, hnone⟩⟩)
    · exact Or.inl ⟨ts, t, [], rfl, ht, by simp⟩
    · refine Or.inl ⟨before, u, behind ++ [t], by simp, hu, fun v hv => ?_⟩
      rcases List.mem_append.mp hv with hv | hv
      · exact hnone v hv
      · obtain rfl := List.mem_singleton.mp hv
        exact ht
    · refine Or.inr ⟨hx, fun v hv => ?_⟩
      rcases List.mem_append.mp hv with hv | hv
      · exact hnone v hv
      · obtain rfl := List.mem_singleton.mp hv
        exact ht

/-- Where the value of an item is read by a function, the last one can be computed. -/
theorem lastOf_iff {read : τ → Option β} (h : ∀ t x, P t x ↔ read t = some x) :
    LastOf P ts d x ↔ x = (ts.filterMap read).getLast?.getD d := by
  induction ts using List.reverseRecOn with
  | nil => exact lastOf_nil
  | append_singleton ts t ih =>
      rw [lastOf_snoc, ih, List.filterMap_append, h]
      simp only [h]
      cases hread : read t with
      | none => simp [hread]
      | some y => simp [hread, eq_comm]

theorem LastOf.unique (hfun : ∀ t x y, P t x → P t y → x = y) {y : β} (hx : LastOf P ts d x)
    (hy : LastOf P ts d y) : x = y := by
  induction ts using List.reverseRecOn with
  | nil => exact (lastOf_nil.mp hx).trans (lastOf_nil.mp hy).symm
  | append_singleton ts t ih =>
      rcases lastOf_snoc.mp hx with hx | ⟨hnone, hx⟩
      · rcases lastOf_snoc.mp hy with hy | ⟨hnone, -⟩
        · exact hfun t x y hx hy
        · exact absurd hx (hnone x)
      · rcases lastOf_snoc.mp hy with hy | ⟨-, hy⟩
        · exact absurd hy (hnone y)
        · exact ih hx hy

/-- Taking more items for ones with a value gives the same in the end where the last of them is right, or does
no harm. -/
theorem lastOf_agree {Q : τ → β → Prop} (hsub : ∀ t x, P t x → Q t x) (hfun : ∀ t x y, Q t x → Q t y → x = y)
    {y : β} (hy : LastOf Q ts d y) :
    LastOf P ts d y ↔ ∀ before t behind x, ts = before ++ t :: behind → Q t x → (∀ u ∈ behind, ∀ z, ¬ Q u z) →
      (∀ z, ¬ P t z) → LastOf P ts d x := by
  constructor
  · intro h before t behind x hsplit ht hbehind _
    obtain rfl := hy.unique hfun (Or.inl ⟨before, t, behind, hsplit, ht, hbehind⟩)
    exact h
  · intro h
    rcases hy with ⟨before, t, behind, hsplit, ht, hbehind⟩ | ⟨rfl, hnone⟩
    · by_cases hP : ∃ z, P t z
      · obtain ⟨z, hz⟩ := hP
        obtain rfl := hfun t y z ht (hsub t z hz)
        exact Or.inl ⟨before, t, behind, hsplit, hz, fun u hu x hx => hbehind u hu x (hsub u x hx)⟩
      · exact h before t behind y hsplit ht hbehind fun z hz => hP ⟨z, hz⟩
    · exact Or.inr ⟨rfl, fun t ht x hx => hnone t ht x (hsub t x hx)⟩

end Laws

/-- The state behind a loop that takes over the value of each item with one. -/
theorem lastOf_foldl {P : τ → β → Prop} {read : τ → Option β} {take : σ → τ → σ} {get : σ → β}
    (hread : ∀ t x, P t x ↔ read t = some x) (htake : ∀ u t, get (take u t) = (read t).getD (get u))
    (ts : List τ) (u : σ) : LastOf P ts (get u) (get (ts.foldl take u)) :=
  (lastOf_iff hread).mpr (foldl_last htake ts u)

end OpenBambu.Foundation
