import OpenBambu.Foundation.Bytes

/-!
# Names and files

A name leads to a file, which holds the bytes. Who opened a file goes on writing to it under whatever
name it has by then, and a file that takes over a name keeps its bytes.
-/

namespace OpenBambu.Foundation

/-- The names of a volume and the bytes of its files. No file has two names. -/
structure Volume (π : Type*) where
  entry : π → Option Nat
  bytes : Nat → Bytes
  /-- The first file that no name ever led to. -/
  next : Nat
  below : ∀ p i, entry p = some i → i < next
  alone : ∀ p q i, entry p = some i → entry q = some i → p = q

namespace Volume

theorem no_name_below {π : Type*} (p : π) (i : Nat) (h : (none : Option Nat) = some i) : i < 0 := by cases h

theorem no_name_alone {π : Type*} (p q : π) (i : Nat) (h : (none : Option Nat) = some i)
    (_ : (none : Option Nat) = some i) : p = q := by cases h

/-- A volume without names. -/
def blank (π : Type*) : Volume π where
  entry _ := none
  bytes _ := []
  next := 0
  below := no_name_below
  alone := no_name_alone

variable {π : Type*} [DecidableEq π] (d : Volume π)

/-- The file behind a name with its bytes. -/
def file (p : π) : Option (Nat × Bytes) := (d.entry p).map fun i => (i, d.bytes i)

/-- What a reader of the name finds. -/
def read (p : π) : Option Bytes := (d.file p).map Prod.snd

/-- The file that opening a name for writing leads to. -/
def openedFile (p : π) : Nat := (d.entry p).getD d.next

def openedNext (p : π) : Nat := max d.next (d.openedFile p + 1)

theorem opened_below (p : π) (q : π) (i : Nat)
    (h : Function.update d.entry p (some (d.openedFile p)) q = some i) : i < d.openedNext p := by
  unfold openedNext
  by_cases hq : q = p
  · subst hq
    rw [Function.update_self] at h
    have := Option.some.inj h
    omega
  · rw [Function.update_of_ne hq] at h
    have := d.below q i h
    omega

/-- The file that is opened has no other name. -/
theorem entry_ne_openedFile {p q : π} (h : q ≠ p) : d.entry q ≠ some (d.openedFile p) := by
  intro hq
  unfold openedFile at hq
  cases hp : d.entry p with
  | some i =>
      rw [hp, Option.getD_some] at hq
      exact h (d.alone q p i hq hp)
  | none =>
      rw [hp, Option.getD_none] at hq
      exact absurd (d.below q d.next hq) (Nat.lt_irrefl _)

theorem opened_alone (p : π) (q r : π) (i : Nat)
    (hq : Function.update d.entry p (some (d.openedFile p)) q = some i)
    (hr : Function.update d.entry p (some (d.openedFile p)) r = some i) : q = r := by
  by_cases hqp : q = p
  · by_cases hrp : r = p
    · rw [hqp, hrp]
    · rw [hqp, Function.update_self] at hq
      rw [Function.update_of_ne hrp, ← hq] at hr
      exact absurd hr (d.entry_ne_openedFile hrp)
  · rw [Function.update_of_ne hqp] at hq
    by_cases hrp : r = p
    · rw [hrp, Function.update_self] at hr
      rw [← hr] at hq
      exact absurd hq (d.entry_ne_openedFile hqp)
    · rw [Function.update_of_ne hrp] at hr
      exact d.alone q r i hq hr

/-- Opens for writing: the file behind the name loses its bytes, or there is a new one. -/
def openTrunc (p : π) : Volume π where
  entry := Function.update d.entry p (some (d.openedFile p))
  bytes := Function.update d.bytes (d.openedFile p) []
  next := d.openedNext p
  below := d.opened_below p
  alone := d.opened_alone p

/-- A file's bytes behind a write at an offset. What the offset leaves open is filled with zeros. -/
def overwritten (old : Bytes) (off : Nat) (new : Bytes) : Bytes :=
  if new = [] then old
  else (old ++ List.replicate (off - old.length) 0).take off ++ new ++ old.drop (off + new.length)

def write (i off : Nat) (new : Bytes) : Volume π :=
  { d with bytes := Function.update d.bytes i (overwritten (d.bytes i) off new) }

/-- The names behind a rename. -/
def movedEntry (p q : π) (r : π) : Option Nat :=
  if r = q then d.entry p else if r = p then none else d.entry r

theorem moved_from {p q r : π} {i : Nat} (h : d.movedEntry p q r = some i) :
    (r = q ∧ d.entry p = some i) ∨ (r ≠ q ∧ r ≠ p ∧ d.entry r = some i) := by
  unfold movedEntry at h
  split_ifs at h with hq hp
  · exact Or.inl ⟨hq, h⟩
  · exact Or.inr ⟨hq, hp, h⟩

theorem moved_below (p q : π) (r : π) (i : Nat) (h : d.movedEntry p q r = some i) : i < d.next := by
  rcases d.moved_from h with ⟨_, h⟩ | ⟨_, _, h⟩
  · exact d.below p i h
  · exact d.below r i h

theorem moved_alone (p q : π) (r s : π) (i : Nat) (hr : d.movedEntry p q r = some i)
    (hs : d.movedEntry p q s = some i) : r = s := by
  rcases d.moved_from hr with ⟨hrq, hr⟩ | ⟨_, hrp, hr⟩
  · rcases d.moved_from hs with ⟨hsq, _⟩ | ⟨_, hsp, hs⟩
    · rw [hrq, hsq]
    · exact absurd (d.alone s p i hs hr) hsp
  · rcases d.moved_from hs with ⟨_, hs⟩ | ⟨_, _, hs⟩
    · exact absurd (d.alone r p i hr hs) hrp
    · exact d.alone r s i hr hs

def move (p q : π) : Volume π where
  entry := d.movedEntry p q
  bytes := d.bytes
  next := d.next
  below := d.moved_below p q
  alone := d.moved_alone p q

/-- The file behind one name takes over another. -/
def rename (p q : π) : Option (Volume π) := if (d.entry p).isSome then some (d.move p q) else none

def unlinkedEntry (p : π) : π → Option Nat := Function.update d.entry p none

theorem unlinked_from {p q : π} {i : Nat} (h : d.unlinkedEntry p q = some i) : q ≠ p ∧ d.entry q = some i := by
  unfold unlinkedEntry at h
  by_cases hq : q = p
  · rw [hq, Function.update_self] at h
    cases h
  · rw [Function.update_of_ne hq] at h
    exact ⟨hq, h⟩

theorem unlinked_below (p : π) (q : π) (i : Nat) (h : d.unlinkedEntry p q = some i) : i < d.next :=
  d.below q i (d.unlinked_from h).2

theorem unlinked_alone (p : π) (q r : π) (i : Nat) (hq : d.unlinkedEntry p q = some i)
    (hr : d.unlinkedEntry p r = some i) : q = r :=
  d.alone q r i (d.unlinked_from hq).2 (d.unlinked_from hr).2

def unlink (p : π) : Volume π where
  entry := d.unlinkedEntry p
  bytes := d.bytes
  next := d.next
  below := d.unlinked_below p
  alone := d.unlinked_alone p

/-! ## What the operations leave and what they change -/

variable {d}

theorem file_eq_some {p : π} {i : Nat} {b : Bytes} : d.file p = some (i, b) ↔ d.entry p = some i ∧ d.bytes i = b := by
  unfold file
  rw [Option.map_eq_some_iff]
  constructor
  · rintro ⟨j, hj, he⟩
    obtain ⟨rfl, rfl⟩ := Prod.mk.inj he
    exact ⟨hj, rfl⟩
  · intro h
    exact ⟨i, h.1, by rw [h.2]⟩

theorem file_openTrunc_self (p : π) : (d.openTrunc p).file p = some (d.openedFile p, []) :=
  file_eq_some.mpr ⟨Function.update_self .., Function.update_self ..⟩

theorem file_openTrunc_of_ne {p q : π} (h : q ≠ p) : (d.openTrunc p).file q = d.file q := by
  have hentry : (d.openTrunc p).entry q = d.entry q := Function.update_of_ne h _ _
  unfold file
  rw [hentry]
  refine Option.map_congr fun i hi => ?_
  have hne : i ≠ d.openedFile p := by
    intro he
    exact d.entry_ne_openedFile h (he ▸ hi)
  exact congrArg (Prod.mk i) (Function.update_of_ne hne _ _)

theorem file_write_self {p : π} {i : Nat} {b : Bytes} (h : d.file p = some (i, b)) (off : Nat) (new : Bytes) :
    (d.write i off new).file p = some (i, overwritten b off new) := by
  obtain ⟨hentry, rfl⟩ := file_eq_some.mp h
  exact file_eq_some.mpr ⟨hentry, Function.update_self ..⟩

theorem file_write_of_ne {p q : π} {i off : Nat} {b : Bytes} (h : d.file p = some (i, b)) (hne : q ≠ p)
    (new : Bytes) : (d.write i off new).file q = d.file q := by
  unfold file
  refine Option.map_congr fun j hj => ?_
  have hji : j ≠ i := by
    rintro rfl
    exact hne (d.alone q p j hj (file_eq_some.mp h).1)
  exact congrArg (Prod.mk j) (Function.update_of_ne hji _ _)

theorem file_move_target {p q : π} : (d.move p q).file q = d.file p := by
  have hentry : (d.move p q).entry q = d.entry p := if_pos rfl
  unfold file
  rw [hentry]
  rfl

theorem file_move_of_ne {p q r : π} (hp : r ≠ p) (hq : r ≠ q) : (d.move p q).file r = d.file r := by
  have hentry : (d.move p q).entry r = d.entry r := by
    change d.movedEntry p q r = d.entry r
    rw [movedEntry, if_neg hq, if_neg hp]
  unfold file
  rw [hentry]
  rfl

theorem file_unlink_of_ne {p q : π} (h : q ≠ p) : (d.unlink p).file q = d.file q := by
  have hentry : (d.unlink p).entry q = d.entry q := Function.update_of_ne h _ _
  unfold file
  rw [hentry]
  rfl

/-- Bytes written behind those that are there. -/
theorem overwritten_end (old new : Bytes) : overwritten old old.length new = old ++ new := by
  unfold overwritten
  split_ifs with h
  · rw [h, List.append_nil]
  · rw [Nat.sub_self, List.replicate_zero, List.append_nil, List.take_length, List.drop_eq_nil_of_le (by omega),
      List.append_nil]

/-- Writing the next piece of a text behind the pieces before it. -/
theorem overwritten_take {data : Bytes} {off : Nat} (h : off ≤ data.length) (n : Nat) :
    overwritten (data.take off) off ((data.drop off).take n) = data.take (off + n) := by
  have hlen : (data.take off).length = off := by rw [List.length_take, Nat.min_eq_left h]
  have hend := overwritten_end (data.take off) ((data.drop off).take n)
  rw [hlen] at hend
  rw [hend, List.take_add]

end Volume

end OpenBambu.Foundation
