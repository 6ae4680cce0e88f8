import Mathlib.Data.List.Basic

/-!
# Self-delimiting frames over a stream that arrives in pieces

A `Framing` splits one frame off the front of a buffer. Its two laws are what an
incremental reader needs: a frame takes at least one symbol, and a frame that is
complete stays the same frame when more symbols arrive behind it. `drain` splits
off every complete frame, `feed` does so after each arriving piece. How the
stream was cut does not show in the frames, only in which piece completes which
frame. A `Codec` adds an encoder, whose streams drain to exactly what was encoded.
-/

namespace OpenBambu.Foundation

variable {α β : Type*}

structure Framing (α β : Type*) where
  next : List α → Option (β × List α)
  shorter : ∀ {xs b rest}, next xs = some (b, rest) → rest.length < xs.length
  extend : ∀ {xs b rest}, next xs = some (b, rest) → ∀ ys, next (xs ++ ys) = some (b, rest ++ ys)

namespace Framing

variable (F : Framing α β)

/-- Every complete frame at the front, and what is left behind them. -/
def drain (xs : List α) : List β × List α :=
  match _h : F.next xs with
  | none => ([], xs)
  | some (b, rest) => (b :: (drain rest).1, (drain rest).2)
termination_by xs.length
decreasing_by all_goals exact F.shorter _h

/-- No complete frame at the front. -/
def Settled (xs : List α) : Prop := F.next xs = none

variable {F}

theorem drain_of_settled {xs : List α} (h : F.Settled xs) : F.drain xs = ([], xs) := by
  rw [drain]
  split
  · rfl
  · rename_i b rest hn
    exact absurd (h.symm.trans hn) (by simp)

theorem drain_of_next {xs rest : List α} {b : β} (h : F.next xs = some (b, rest)) :
    F.drain xs = (b :: (F.drain rest).1, (F.drain rest).2) := by
  rw [drain]
  split
  · rename_i hn
    exact absurd (hn.symm.trans h) (by simp)
  · rename_i b' rest' hn
    obtain ⟨rfl, rfl⟩ := Prod.mk.inj (Option.some.inj (hn.symm.trans h))
    rfl

/-- Draining leaves a buffer with no complete frame. -/
theorem drain_settles (xs : List α) : F.Settled (F.drain xs).2 := by
  cases h : F.next xs with
  | none => rw [drain_of_settled h]; exact h
  | some p =>
      obtain ⟨b, rest⟩ := p
      rw [drain_of_next h]
      exact drain_settles rest
termination_by xs.length
decreasing_by exact F.shorter h

theorem drain_eq_of_nil {xs : List α} (h : (F.drain xs).1 = []) : F.drain xs = ([], xs) := by
  cases hn : F.next xs with
  | none => exact drain_of_settled hn
  | some p =>
      obtain ⟨b, rest⟩ := p
      rw [drain_of_next hn] at h
      exact absurd h (by simp)

/-- Symbols arriving behind a buffer are drained from what the buffer left over. -/
theorem drain_append (xs ys : List α) :
    F.drain (xs ++ ys) =
      ((F.drain xs).1 ++ (F.drain ((F.drain xs).2 ++ ys)).1, (F.drain ((F.drain xs).2 ++ ys)).2) := by
  cases h : F.next xs with
  | none => simp [drain_of_settled (F := F) h]
  | some p =>
      obtain ⟨b, rest⟩ := p
      rw [drain_of_next (F.extend h ys), drain_append rest ys, drain_of_next h]
      rfl
termination_by xs.length
decreasing_by exact F.shorter h

variable (F)

/-- Append the pieces one by one, draining after each: the frames each piece
completed, in order, and the residue at the end. -/
def feed : List α → List (List α) → List (List β) × List α
  | buf, [] => ([], buf)
  | buf, c :: cs =>
      let r := F.drain (buf ++ c)
      let t := feed r.2 cs
      (r.1 :: t.1, t.2)

variable {F}

@[simp] theorem feed_nil (buf : List α) : F.feed buf [] = ([], buf) := rfl

theorem feed_cons (buf c : List α) (cs : List (List α)) :
    F.feed buf (c :: cs) =
      ((F.drain (buf ++ c)).1 :: (F.feed (F.drain (buf ++ c)).2 cs).1,
        (F.feed (F.drain (buf ++ c)).2 cs).2) := rfl

/-- The frames do not depend on how the stream was cut. -/
theorem feed_flatten {buf : List α} (h : F.Settled buf) (cs : List (List α)) :
    ((F.feed buf cs).1.flatten, (F.feed buf cs).2) = F.drain (buf ++ cs.flatten) := by
  induction cs generalizing buf with
  | nil => simp [drain_of_settled h]
  | cons c cs ih =>
      have ht := ih (drain_settles (F := F) (buf ++ c))
      rw [feed_cons, List.flatten_cons, List.flatten_cons, ← List.append_assoc,
        drain_append (buf ++ c), ← ht]

end Framing

/-- A framing with an encoder whose frames it splits off again. -/
structure Codec (α β : Type*) extends Framing α β where
  encode : β → List α
  next_encode : ∀ b ys, next (encode b ++ ys) = some (b, ys)

namespace Codec

variable {C : Codec α β}

variable (C) in
def encodeAll (bs : List β) : List α := bs.flatMap C.encode

@[simp] theorem encodeAll_nil : C.encodeAll [] = [] := rfl

@[simp] theorem encodeAll_cons (b : β) (bs : List β) :
    C.encodeAll (b :: bs) = C.encode b ++ C.encodeAll bs := rfl

@[simp] theorem encodeAll_append (bs cs : List β) :
    C.encodeAll (bs ++ cs) = C.encodeAll bs ++ C.encodeAll cs := List.flatMap_append

theorem settled_nil : C.Settled [] := by
  cases h : C.next [] with
  | none => exact h
  | some p => exact absurd (C.shorter h) (by simp)

theorem encode_ne_nil (b : β) : C.encode b ≠ [] := by
  intro h
  have hn := C.next_encode b []
  rw [h, List.append_nil, settled_nil] at hn
  exact absurd hn (by simp)

theorem drain_encodeAll_append (bs : List β) (ys : List α) :
    C.drain (C.encodeAll bs ++ ys) = (bs ++ (C.drain ys).1, (C.drain ys).2) := by
  induction bs with
  | nil => rfl
  | cons b bs ih =>
      rw [encodeAll_cons, List.append_assoc, Framing.drain_of_next (C.next_encode b _), ih]
      rfl

/-- Encoding then draining gives the frames back, with nothing left over. -/
theorem drain_encodeAll (bs : List β) : C.drain (C.encodeAll bs) = (bs, []) := by
  simpa [Framing.drain_of_settled settled_nil] using drain_encodeAll_append (C := C) bs []

/-- A proper prefix of a frame is not a frame. -/
theorem settled_of_cut {b : β} {xs ys : List α} (h : xs ++ ys = C.encode b) (hy : ys ≠ []) :
    C.Settled xs := by
  cases hn : C.next xs with
  | none => exact hn
  | some p =>
      obtain ⟨b', rest⟩ := p
      have hx := C.extend hn ys
      have he := C.next_encode b []
      rw [List.append_nil, ← h, hx] at he
      have hnil : rest ++ ys = [] := (Prod.mk.inj (Option.some.inj he)).2
      exact absurd (List.append_eq_nil_iff.mp hnil).2 hy

/-- Any cut of an encoded stream lies inside or in front of one frame. -/
theorem cut_encodeAll {bs : List β} {xs ys : List α} (h : xs ++ ys = C.encodeAll bs) :
    ∃ later, bs = (C.drain xs).1 ++ later ∧ xs = C.encodeAll (C.drain xs).1 ++ (C.drain xs).2 ∧
      (C.drain xs).2 ++ ys = C.encodeAll later := by
  induction bs generalizing xs with
  | nil =>
      obtain ⟨rfl, rfl⟩ := List.append_eq_nil_iff.mp h
      rw [Framing.drain_of_settled C.settled_nil]
      exact ⟨[], rfl, rfl, rfl⟩
  | cons b bs ih =>
      rw [encodeAll_cons] at h
      rcases List.append_eq_append_iff.mp h with ⟨m, hm, hy⟩ | ⟨m, hx, hm⟩
      · by_cases hnil : m = []
        · subst m
          rw [List.append_nil] at hm
          have hd : C.drain xs = ([b], []) := by
            rw [← hm]
            simpa using drain_encodeAll (C := C) [b]
          rw [hd]
          exact ⟨bs, rfl, by simp [hm], by simpa using hy⟩
        · rw [Framing.drain_of_settled (settled_of_cut hm.symm hnil)]
          refine ⟨b :: bs, rfl, rfl, ?_⟩
          rw [encodeAll_cons, hm, hy, List.append_assoc]
      · obtain ⟨later, hb, hx', hl⟩ := ih hm.symm
        rw [hx, Framing.drain_of_next (C.next_encode b m)]
        refine ⟨later, congrArg (b :: ·) hb, ?_, hl⟩
        rw [encodeAll_cons, List.append_assoc, ← hx']

variable (C) in
/-- Stream positions just behind each frame, when the first frame starts at `base`. -/
def ends : Nat → List β → List Nat
  | _, [] => []
  | base, b :: bs => (base + (C.encode b).length) :: ends (base + (C.encode b).length) bs

variable (C) in
/-- How many frames have their last symbol at a stream position in `[lo, hi)`. -/
def completed (bs : List β) (lo hi : Nat) : Nat :=
  (C.ends 0 bs).countP fun e => lo < e ∧ e ≤ hi

theorem length_ends (base : Nat) (bs : List β) : (C.ends base bs).length = bs.length := by
  induction bs generalizing base with
  | nil => rfl
  | cons b bs ih => simp [ends, ih]

theorem ends_append (base : Nat) (bs cs : List β) :
    C.ends base (bs ++ cs) = C.ends base bs ++ C.ends (base + (C.encodeAll bs).length) cs := by
  induction bs generalizing base with
  | nil => simp [ends]
  | cons b bs ih => simp [ends, ih, Nat.add_assoc]

theorem encode_length_pos (b : β) : 0 < (C.encode b).length :=
  List.length_pos_of_ne_nil (encode_ne_nil b)

theorem lt_of_mem_ends {base e : Nat} {bs : List β} (h : e ∈ C.ends base bs) : base < e := by
  induction bs generalizing base with
  | nil => simp [ends] at h
  | cons b bs ih =>
      have hp := C.encode_length_pos b
      rcases List.mem_cons.mp h with rfl | h
      · omega
      · have := ih h
        omega

theorem le_of_mem_ends {base e : Nat} {bs : List β} (h : e ∈ C.ends base bs) :
    e ≤ base + (C.encodeAll bs).length := by
  induction bs generalizing base with
  | nil => simp [ends] at h
  | cons b bs ih =>
      rw [encodeAll_cons, List.length_append]
      rcases List.mem_cons.mp h with rfl | h
      · omega
      · have := ih h
        omega

/-- The frames drained from a cut of the stream are those that end inside the cut. -/
theorem drain_length {bs : List β} {xs ys : List α} (h : xs ++ ys = C.encodeAll bs) :
    (C.drain xs).1.length = (C.ends 0 bs).countP (· ≤ xs.length) := by
  obtain ⟨later, hb, hx, hl⟩ := cut_encodeAll h
  have hs := Framing.drain_settles (F := C.toFraming) xs
  generalize C.drain xs = d at *
  obtain ⟨done, r⟩ := d
  simp only at hb hx hl hs ⊢
  have hdone : (C.ends 0 done).countP (· ≤ xs.length) = done.length := by
    rw [List.countP_eq_length.mpr, length_ends]
    intro e he
    have := le_of_mem_ends he
    rw [hx, List.length_append]
    simp only [decide_eq_true_eq]
    omega
  have hlater : (C.ends (C.encodeAll done).length later).countP (· ≤ xs.length) = 0 := by
    rw [List.countP_eq_zero]
    intro e he
    cases later with
    | nil => simp [ends] at he
    | cons b more =>
        have hr : r.length < (C.encode b).length := by
          by_contra hge
          rw [encodeAll_cons] at hl
          obtain ⟨m, rfl⟩ : ∃ m, r = C.encode b ++ m := by
            rcases List.append_eq_append_iff.mp hl with ⟨m, hm, _⟩ | ⟨m, hm, _⟩
            · have : m.length = 0 := by
                have := congrArg List.length hm
                rw [List.length_append] at this
                omega
              rw [List.length_eq_zero_iff.mp this, List.append_nil] at hm
              exact ⟨[], by simp [hm]⟩
            · exact ⟨m, hm⟩
          exact absurd (hs.symm.trans (C.next_encode b m)) (by simp)
        have hlt : (C.encodeAll done).length + (C.encode b).length ≤ e := by
          rcases List.mem_cons.mp he with rfl | he
          · exact Nat.le_refl _
          · exact Nat.le_of_lt (lt_of_mem_ends he)
        rw [hx, List.length_append]
        simp only [decide_eq_true_eq]
        omega
  rw [hb, ends_append, List.countP_append, hdone, Nat.zero_add, hlater, Nat.add_zero]

theorem countP_window (l : List Nat) {lo hi : Nat} (h : lo ≤ hi) :
    l.countP (· ≤ hi) = l.countP (· ≤ lo) + l.countP fun e => lo < e ∧ e ≤ hi := by
  induction l with
  | nil => rfl
  | cons e l ih =>
      simp only [List.countP_cons, ih, decide_eq_true_eq]
      split_ifs <;> omega

/-- One arriving piece completes exactly the frames that end inside it. -/
theorem feed_piece {bs : List β} {pre post : List (List α)} {c ys : List α}
    (h : (pre ++ c :: post).flatten ++ ys = C.encodeAll bs) :
    (C.drain ((C.feed [] pre).2 ++ c)).1.length =
      C.completed bs pre.flatten.length (pre ++ [c]).flatten.length := by
  have hpre := Framing.feed_flatten (F := C.toFraming) C.settled_nil pre
  rw [List.nil_append] at hpre
  have happ := Framing.drain_append (F := C.toFraming) pre.flatten c
  rw [← hpre] at happ
  simp only at happ
  have hbefore : pre.flatten ++ (c ++ post.flatten ++ ys) = C.encodeAll bs := by
    rw [← h]
    simp
  have hbehind : pre.flatten ++ c ++ (post.flatten ++ ys) = C.encodeAll bs := by
    rw [← h]
    simp
  have hl := drain_length hbefore
  have hr := drain_length hbehind
  rw [happ, List.length_append, countP_window _ (by simp : pre.flatten.length ≤ _)] at hr
  rw [← hpre] at hl
  simp only at hl
  have he : (pre ++ [c]).flatten = pre.flatten ++ c := by simp
  rw [completed, he]
  omega

variable (C) in
/-- No piece completes two frames. -/
def AtMostOneEach (bs : List β) (cs : List (List α)) : Prop :=
  ∀ pre c post, cs = pre ++ c :: post →
    C.completed bs pre.flatten.length (pre ++ [c]).flatten.length ≤ 1

theorem mem_feed {l : List β} {cs : List (List α)} {buf : List α} :
    l ∈ (C.feed buf cs).1 ↔
      ∃ pre c post, cs = pre ++ c :: post ∧ l = (C.drain ((C.feed buf pre).2 ++ c)).1 := by
  induction cs generalizing buf with
  | nil => simp
  | cons d cs ih =>
      rw [Framing.feed_cons, List.mem_cons, ih]
      constructor
      · rintro (rfl | ⟨pre, c, post, rfl, rfl⟩)
        · exact ⟨[], d, cs, rfl, rfl⟩
        · exact ⟨d :: pre, c, post, rfl, rfl⟩
      · rintro ⟨pre, c, post, he, rfl⟩
        cases pre with
        | nil =>
            obtain ⟨rfl, rfl⟩ := List.cons.inj he
            exact Or.inl rfl
        | cons p pre =>
            obtain ⟨rfl, rfl⟩ := List.cons.inj he
            exact Or.inr ⟨pre, c, post, rfl, rfl⟩

theorem feed_at_most_one {bs : List β} {cs : List (List α)} {ys : List α}
    (h : cs.flatten ++ ys = C.encodeAll bs) :
    (∀ l ∈ (C.feed [] cs).1, l.length ≤ 1) ↔ C.AtMostOneEach bs cs := by
  constructor
  · intro hl pre c post he
    subst he
    rw [← feed_piece h]
    exact hl _ (mem_feed.mpr ⟨pre, c, post, rfl, rfl⟩)
  · intro hc l hl
    obtain ⟨pre, c, post, rfl, rfl⟩ := mem_feed.mp hl
    rw [feed_piece h]
    exact hc pre c post rfl

end Codec

theorem length_filterMap_head_le (L : List (List β)) :
    (L.filterMap List.head?).length ≤ L.flatten.length := by
  induction L with
  | nil => simp
  | cons l L ih =>
      cases l with
      | nil => simpa [List.filterMap_cons] using ih
      | cons b l =>
          simp only [List.filterMap_cons, List.head?_cons, List.length_cons, List.flatten_cons,
            List.cons_append, List.length_append]
          omega

/-- Keeping only the first of every group keeps everything exactly when no group
has a second. -/
theorem map_head_eq_flatten {γ : Type*} (g : β → γ) (L : List (List β)) :
    (L.filterMap List.head?).map g = L.flatten.map g ↔ ∀ l ∈ L, l.length ≤ 1 := by
  induction L with
  | nil => simp
  | cons l L ih =>
      cases l with
      | nil => simpa [List.filterMap_cons] using ih
      | cons b l =>
          simp only [List.filterMap_cons, List.head?_cons, List.flatten_cons, List.cons_append,
            List.map_cons, List.cons.injEq, true_and, List.mem_cons, forall_eq_or_imp,
            List.length_cons]
          constructor
          · intro h
            have hlen := congrArg List.length h
            rw [List.length_map, List.length_map, List.length_append] at hlen
            have hle := length_filterMap_head_le L
            have hl : l = [] := List.length_eq_zero_iff.mp (by omega)
            subst l
            exact ⟨by simp, ih.mp h⟩
          · rintro ⟨hl, hL⟩
            have hnil : l = [] := List.length_eq_zero_iff.mp (by omega)
            rw [hnil, List.nil_append]
            exact ih.mpr hL

end OpenBambu.Foundation
