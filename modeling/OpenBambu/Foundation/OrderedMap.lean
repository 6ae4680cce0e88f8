import Mathlib.Data.List.Nodup
import Mathlib.Tactic.SplitIfs

/-!
# Maps ordered by their keys

A `std::map`: the entries in increasing order of the keys, each key once. Assignment through
`operator[]`, lookup, and removal of the first entry.
-/

namespace OpenBambu.Foundation

structure OrderedMap (κ υ : Type*) [Ord κ] where
  entries : List (κ × υ)
  sorted : entries.Pairwise fun a b => compare a.1 b.1 = .lt

namespace OrderedMap

variable {κ υ : Type*} [Ord κ]

def insertEntry (k : κ) (v : υ) : List (κ × υ) → List (κ × υ)
  | [] => [(k, v)]
  | e :: rest =>
      match compare k e.1 with
      | .lt => (k, v) :: e :: rest
      | .eq => (k, v) :: rest
      | .gt => e :: insertEntry k v rest

def findEntry (k : κ) : List (κ × υ) → Option υ
  | [] => none
  | e :: rest => if compare k e.1 = .eq then some e.2 else findEntry k rest

def empty : OrderedMap κ υ := ⟨[], List.Pairwise.nil⟩

def find (m : OrderedMap κ υ) (k : κ) : Option υ := findEntry k m.entries

def keys (m : OrderedMap κ υ) : List κ := m.entries.map Prod.fst

def size (m : OrderedMap κ υ) : Nat := m.entries.length

/-- `m.erase(m.begin())`. -/
def eraseFirst (m : OrderedMap κ υ) : OrderedMap κ υ := ⟨m.entries.tail, m.sorted.tail⟩

def erase (m : OrderedMap κ υ) (k : κ) : OrderedMap κ υ :=
  ⟨m.entries.filter fun e => compare k e.1 ≠ .eq, m.sorted.filter _⟩

theorem insertEntry_key (k : κ) (v : υ) (l : List (κ × υ)) {e : κ × υ} (h : e ∈ insertEntry k v l) :
    e = (k, v) ∨ e ∈ l := by
  induction l with
  | nil => exact Or.inl (by simpa [insertEntry] using h)
  | cons d rest ih =>
      rw [insertEntry] at h
      cases hc : compare k d.1 <;> rw [hc] at h
      · rcases List.mem_cons.1 h with he | he
        · exact Or.inl he
        · exact Or.inr he
      · rcases List.mem_cons.1 h with he | he
        · exact Or.inl he
        · exact Or.inr (List.mem_cons_of_mem _ he)
      · rcases List.mem_cons.1 h with he | he
        · exact Or.inr (he ▸ List.mem_cons_self)
        · rcases ih he with hk | hr
          · exact Or.inl hk
          · exact Or.inr (List.mem_cons_of_mem _ hr)

@[simp] theorem find_empty (k : κ) : (empty : OrderedMap κ υ).find k = none := rfl

theorem size_eq_keys (m : OrderedMap κ υ) : m.size = m.keys.length := by
  rw [size, keys, List.length_map]

theorem size_eraseFirst (m : OrderedMap κ υ) : m.eraseFirst.size = m.size - 1 := by
  rw [size, eraseFirst, List.length_tail]
  rfl

theorem keys_eraseFirst (m : OrderedMap κ υ) : m.eraseFirst.keys = m.keys.tail := by
  rw [keys, eraseFirst, List.map_tail]
  rfl

/-- The first key is below the others. -/
theorem first_lt (m : OrderedMap κ υ) {k : κ} {rest : List κ} (h : m.keys = k :: rest) :
    ∀ x ∈ rest, compare k x = .lt := by
  have hp : m.keys.Pairwise fun a b => compare a b = .lt := by
    rw [keys, List.pairwise_map]
    exact m.sorted
  rw [h] at hp
  exact (List.pairwise_cons.1 hp).1

section Lawful

variable [Std.LawfulEqOrd κ]

theorem findEntry_isSome (k : κ) (l : List (κ × υ)) :
    (findEntry k l).isSome = true ↔ k ∈ l.map Prod.fst := by
  induction l with
  | nil => simp [findEntry]
  | cons d rest ih =>
      rw [findEntry, List.map_cons, List.mem_cons]
      split_ifs with hc
      · simp [Std.LawfulEqOrd.compare_eq_iff_eq.1 hc]
      · have hd : k ≠ d.1 := fun h => hc (Std.LawfulEqOrd.compare_eq_iff_eq.2 h)
        simp [ih, hd]

theorem find_isSome (m : OrderedMap κ υ) (k : κ) : (m.find k).isSome = true ↔ k ∈ m.keys :=
  findEntry_isSome k m.entries

theorem find_eq_none (m : OrderedMap κ υ) (k : κ) : m.find k = none ↔ k ∉ m.keys := by
  rw [← find_isSome, Option.not_isSome_iff_eq_none]

theorem keys_nodup (m : OrderedMap κ υ) : m.keys.Nodup := by
  have h : m.keys.Pairwise fun a b => compare a b = .lt := by
    rw [keys, List.pairwise_map]
    exact m.sorted
  apply h.imp
  intro a b hab he
  rw [Std.LawfulEqOrd.compare_eq_iff_eq.2 he] at hab
  cases hab

theorem find_eraseFirst [DecidableEq κ] (m : OrderedMap κ υ) {k k' : κ} {rest : List κ}
    (h : m.keys = k :: rest) : m.eraseFirst.find k' = if k' = k then none else m.find k' := by
  by_cases hk : k' = k
  · rw [if_pos hk, find_eq_none, keys_eraseFirst, h, List.tail_cons, hk]
    have hn := m.keys_nodup
    rw [h] at hn
    exact (List.nodup_cons.1 hn).1
  · rw [if_neg hk]
    unfold keys at h
    show findEntry k' m.entries.tail = findEntry k' m.entries
    cases he : m.entries with
    | nil => rfl
    | cons e entries =>
        rw [he, List.map_cons] at h
        have h1 : e.1 = k := (List.cons.inj h).1
        rw [findEntry, if_neg (by rw [h1, Std.LawfulEqOrd.compare_eq_iff_eq]; exact hk)]
        rfl

theorem find_erase [DecidableEq κ] (m : OrderedMap κ υ) (k k' : κ) :
    (m.erase k).find k' = if k' = k then none else m.find k' := by
  show findEntry k' (m.entries.filter _) = if k' = k then none else findEntry k' m.entries
  induction m.entries with
  | nil => simp [findEntry]
  | cons d rest ih =>
      by_cases hd : k = d.1
      · rw [List.filter_cons_of_neg (by simp [← hd]), ih, findEntry, ← hd]
        split_ifs with hk hc
        · rfl
        · exact absurd (Std.LawfulEqOrd.compare_eq_iff_eq.1 hc) hk
        · rfl
      · rw [List.filter_cons_of_pos (by simpa using hd), findEntry, findEntry, ih]
        split_ifs with hc hk
        · exact absurd (hk ▸ Std.LawfulEqOrd.compare_eq_iff_eq.1 hc) hd
        · rfl
        · rfl
        · rfl

theorem findEntry_insertEntry [DecidableEq κ] (k k' : κ) (v : υ) (l : List (κ × υ)) :
    findEntry k' (insertEntry k v l) = if k' = k then some v else findEntry k' l := by
  induction l with
  | nil => simp [insertEntry, findEntry]
  | cons d rest ih =>
      rw [insertEntry]
      cases hc : compare k d.1
      · by_cases hk : k' = k
        · simp [findEntry, hk]
        · simp [findEntry, hk]
      · have hd : k = d.1 := Std.LawfulEqOrd.compare_eq_iff_eq.1 hc
        by_cases hk : k' = k
        · simp [findEntry, hk]
        · simp [findEntry, hk, ← hd]
      · have hd : k ≠ d.1 := fun h => by rw [Std.LawfulEqOrd.compare_eq_iff_eq.2 h] at hc; cases hc
        simp only [findEntry, ih, Std.LawfulEqOrd.compare_eq_iff_eq]
        by_cases hk : k' = k
        · rw [if_neg (by rw [hk]; exact hd), if_pos hk, if_pos hk]
        · rw [if_neg hk, if_neg hk]

end Lawful

variable [Std.TransOrd κ]

theorem insertEntry_sorted (k : κ) (v : υ) {l : List (κ × υ)}
    (h : l.Pairwise fun a b => compare a.1 b.1 = .lt) :
    (insertEntry k v l).Pairwise fun a b => compare a.1 b.1 = .lt := by
  induction l with
  | nil => exact List.pairwise_singleton _ _
  | cons d rest ih =>
      obtain ⟨hd, hrest⟩ := List.pairwise_cons.1 h
      rw [insertEntry]
      cases hc : compare k d.1
      · refine List.pairwise_cons.2 ⟨?_, h⟩
        intro e he
        rcases List.mem_cons.1 he with rfl | he
        · exact hc
        · exact Std.TransCmp.lt_trans hc (hd e he)
      · refine List.pairwise_cons.2 ⟨?_, hrest⟩
        intro e he
        exact Std.TransCmp.lt_of_eq_of_lt hc (hd e he)
      · refine List.pairwise_cons.2 ⟨?_, ih hrest⟩
        intro e he
        rcases insertEntry_key k v rest he with rfl | he
        · exact Std.OrientedCmp.gt_iff_lt.1 hc
        · exact hd e he

/-- `m[k] = v`. -/
def insert (m : OrderedMap κ υ) (k : κ) (v : υ) : OrderedMap κ υ :=
  ⟨insertEntry k v m.entries, insertEntry_sorted k v m.sorted⟩

variable [Std.LawfulEqOrd κ] [DecidableEq κ]

theorem find_insert (m : OrderedMap κ υ) (k k' : κ) (v : υ) :
    (m.insert k v).find k' = if k' = k then some v else m.find k' :=
  findEntry_insertEntry k k' v m.entries

theorem mem_keys_insert (m : OrderedMap κ υ) (k k' : κ) (v : υ) :
    k' ∈ (m.insert k v).keys ↔ k' = k ∨ k' ∈ m.keys := by
  rw [← find_isSome, find_insert, ← find_isSome]
  split_ifs with h <;> simp [h]

theorem length_insertEntry (k : κ) (v : υ) {l : List (κ × υ)}
    (h : l.Pairwise fun a b => compare a.1 b.1 = .lt) :
    (insertEntry k v l).length = if k ∈ l.map Prod.fst then l.length else l.length + 1 := by
  induction l with
  | nil => rfl
  | cons d rest ih =>
      obtain ⟨hd, hrest⟩ := List.pairwise_cons.1 h
      rw [insertEntry, List.map_cons]
      cases hc : compare k d.1
      · have hk : k ∉ d.1 :: rest.map Prod.fst := by
          intro hm
          rcases List.mem_cons.1 hm with he | he
          · rw [Std.LawfulEqOrd.compare_eq_iff_eq.2 he] at hc
            cases hc
          · obtain ⟨e, he', rfl⟩ := List.mem_map.1 he
            have hlt := Std.TransCmp.lt_trans hc (hd e he')
            rw [Std.LawfulEqOrd.compare_eq_iff_eq.2 rfl] at hlt
            cases hlt
        rw [if_neg hk]
        rfl
      · rw [if_pos (by rw [Std.LawfulEqOrd.compare_eq_iff_eq.1 hc]; exact List.mem_cons_self)]
        rfl
      · have hne : k ≠ d.1 := fun he => by
          rw [Std.LawfulEqOrd.compare_eq_iff_eq.2 he] at hc
          cases hc
        simp only [List.length_cons, ih hrest, List.mem_cons, hne, false_or]
        split_ifs <;> rfl

theorem size_insert (m : OrderedMap κ υ) (k : κ) (v : υ) :
    (m.insert k v).size = if k ∈ m.keys then m.size else m.size + 1 :=
  length_insertEntry k v m.sorted

end OrderedMap

end OpenBambu.Foundation
