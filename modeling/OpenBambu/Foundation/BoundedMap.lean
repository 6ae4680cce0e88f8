import OpenBambu.Foundation.OrderedMap
import Mathlib.Data.List.Dedup
import Mathlib.Data.List.Infix
import Mathlib.Data.List.Perm.Subperm
import Mathlib.Data.List.TakeWhile

/-!
# Ordered maps of bounded size

A map that is cut back to a capacity by removing its first key, whatever that key is. The
history of the assignments is listed newest first. `recency` orders the keys by their last
assignment, and `keepsRecent_iff` says when the map keeps the keys assigned last.
-/

namespace OpenBambu.Foundation

/-! ## Keys in the order of their last use -/

section Recency

variable {κ : Type*}

theorem mem_dropLast_iff {l : List κ} (hl : l.Nodup) {o : κ} (ho : o ∈ l.getLast?) (x : κ) :
    x ∈ l.dropLast ↔ x ∈ l ∧ x ≠ o := by
  obtain ⟨before, rfl⟩ := List.getLast?_eq_some_iff.1 ho
  rw [List.dropLast_concat, List.mem_append, List.mem_singleton]
  have hn := List.nodup_append.1 hl
  constructor
  · intro hx
    exact ⟨Or.inl hx, hn.2.2 x hx o (by simp)⟩
  · rintro ⟨hx | hx, hne⟩
    · exact hx
    · exact absurd hx hne

variable [DecidableEq κ]

/-- The keys of a history, newest first, each once. -/
def recency : List κ → List κ
  | [] => []
  | k :: older => k :: (recency older).erase k

/-- How many other keys were used since the last use of `k`. -/
def othersSince (k : κ) (ids : List κ) : Nat := (ids.takeWhile (· ≠ k)).dedup.length

theorem recency_nodup (ids : List κ) : (recency ids).Nodup := by
  induction ids with
  | nil => exact List.nodup_nil
  | cons k older ih =>
      rw [recency, List.nodup_cons]
      exact ⟨fun h => (ih.mem_erase_iff.1 h).1 rfl, ih.erase k⟩

theorem mem_recency (k : κ) (ids : List κ) : k ∈ recency ids ↔ k ∈ ids := by
  induction ids with
  | nil => rfl
  | cons j older ih =>
      rw [recency, List.mem_cons, List.mem_cons, (recency_nodup older).mem_erase_iff, ih]
      tauto

theorem takeWhile_filter {k j : κ} (h : j ≠ k) (l : List κ) :
    (l.filter (· ≠ j)).takeWhile (· ≠ k) = (l.takeWhile (· ≠ k)).filter (· ≠ j) := by
  induction l with
  | nil => rfl
  | cons x l ih =>
      by_cases hk : x = k
      · have hj : x ≠ j := fun hc => h (hc.symm.trans hk)
        simp [hk, h.symm]
      · by_cases hj : x = j
        · simpa [hj, h] using ih
        · simpa [hk, hj] using ih

/-- The same keys come before `k` in both lists. -/
theorem mem_takeWhile_recency (k x : κ) (ids : List κ) :
    x ∈ (recency ids).takeWhile (· ≠ k) ↔ x ∈ ids.takeWhile (· ≠ k) := by
  induction ids with
  | nil => rfl
  | cons j older ih =>
      by_cases hj : j = k
      · simp [recency, hj]
      · have he : (recency older).erase j = (recency older).filter (· ≠ j) := by
          rw [(recency_nodup older).erase_eq_filter]
          apply List.filter_congr
          intro y _
          simp [bne, BEq.beq]
        rw [recency, List.takeWhile_cons_of_pos (by simpa using hj),
          List.takeWhile_cons_of_pos (by simpa using hj), he, takeWhile_filter hj, List.mem_cons,
          List.mem_cons, List.mem_filter, ih]
        by_cases hx : x = j <;> simp [hx]

theorem mem_take_iff {l : List κ} (hl : l.Nodup) {k : κ} (hk : k ∈ l) (n : Nat) :
    k ∈ l.take n ↔ (l.takeWhile (· ≠ k)).length < n := by
  induction l generalizing n with
  | nil => simp at hk
  | cons x l ih =>
      cases n with
      | zero => simp
      | succ n =>
          rw [List.take_succ_cons, List.mem_cons]
          by_cases hx : x = k
          · simp [hx]
          · have hm : k ∈ l := (List.mem_cons.1 hk).resolve_left fun hc => hx hc.symm
            rw [List.takeWhile_cons_of_pos (by simpa using hx), List.length_cons,
              ih (List.nodup_cons.1 hl).2 hm]
            constructor
            · rintro (hc | hc)
              · exact absurd hc.symm hx
              · omega
            · intro hc
              exact Or.inr (by omega)

/-- The first keys of `recency` are those since whose last use few others were used. -/
theorem mem_take_recency {k : κ} {ids : List κ} (hk : k ∈ ids) (n : Nat) :
    k ∈ (recency ids).take n ↔ othersSince k ids < n := by
  have hp : ((recency ids).takeWhile (· ≠ k)).Perm (ids.takeWhile (· ≠ k)).dedup := by
    rw [List.perm_ext_iff_of_nodup ((recency_nodup ids).sublist (List.takeWhile_sublist _))
      (List.nodup_dedup _)]
    intro x
    rw [mem_takeWhile_recency, List.mem_dedup]
  rw [mem_take_iff (recency_nodup ids) ((mem_recency k ids).2 hk), othersSince, hp.length_eq]

/-- How the window of the last `cap` keys moves. -/
theorem take_recency_cons {cap : Nat} (hcap : 0 < cap) (k : κ) (ids : List κ) :
    (recency (k :: ids)).take cap =
      if k ∈ (recency ids).take cap then k :: ((recency ids).take cap).erase k
      else k :: ((recency ids).take cap).take (cap - 1) := by
  obtain ⟨n, rfl⟩ : ∃ n, cap = n + 1 := ⟨cap - 1, by omega⟩
  rw [recency, List.take_succ_cons, Nat.add_sub_cancel]
  generalize recency ids = l
  have hsplit := List.take_append_drop (n + 1) l
  by_cases hk : k ∈ l.take (n + 1)
  · rw [if_pos hk]
    congr 1
    have hlen : ((l.take (n + 1)).erase k).length = (l.take (n + 1)).length - 1 :=
      List.length_erase_of_mem hk
    conv_lhs => rw [← hsplit, List.erase_append_left _ hk]
    by_cases hn : n + 1 ≤ l.length
    · rw [List.take_append_of_le_length (by rw [hlen, List.length_take]; omega), List.take_of_length_le]
      rw [hlen, List.length_take]
      omega
    · rw [List.drop_eq_nil_of_le (by omega), List.append_nil, List.take_of_length_le]
      rw [hlen, List.length_take]
      omega
  · rw [if_neg hk]
    congr 1
    conv_lhs => rw [← hsplit, List.erase_append_right _ hk]
    by_cases hn : n + 1 ≤ l.length
    · rw [List.take_append_of_le_length (by rw [List.length_take]; omega)]
    · rw [List.drop_eq_nil_of_le (by omega), List.erase_nil, List.append_nil]

variable {υ : Type*}

/-- What was assigned to a key last. -/
def latest (k : κ) (h : List (κ × υ)) : Option υ := (h.find? fun e => e.1 = k).map Prod.snd

theorem latest_cons (k j : κ) (v : υ) (older : List (κ × υ)) :
    latest k ((j, v) :: older) = if k = j then some v else latest k older := by
  unfold latest
  by_cases hk : k = j
  · simp [hk]
  · rw [List.find?_cons_of_neg (by simpa using fun hc => hk hc.symm), if_neg hk]

theorem latest_isSome (k : κ) (h : List (κ × υ)) :
    (latest k h).isSome = true ↔ k ∈ h.map Prod.fst := by
  induction h with
  | nil => simp [latest]
  | cons e older ih =>
      rw [latest_cons k e.1 e.2 older, List.map_cons, List.mem_cons]
      split_ifs with hk
      · simp [hk]
      · simp [ih, hk]

end Recency

/-! ## The bounded map -/

namespace OrderedMap

variable {κ υ : Type*} [Ord κ]

/-- Removes first keys while the map is too large. -/
def trim (cap : Nat) : Nat → OrderedMap κ υ → OrderedMap κ υ
  | 0, m => m
  | fuel + 1, m => if cap < m.size then trim cap fuel m.eraseFirst else m

theorem trim_of_le {cap : Nat} {m : OrderedMap κ υ} (h : m.size ≤ cap) (fuel : Nat) :
    trim cap fuel m = m := by
  cases fuel with
  | zero => rfl
  | succ fuel => rw [trim, if_neg (by omega)]

theorem size_trim (cap : Nat) {fuel : Nat} {m : OrderedMap κ υ} (h : m.size ≤ fuel) :
    (trim cap fuel m).size ≤ cap := by
  induction fuel generalizing m with
  | zero =>
      rw [trim]
      omega
  | succ fuel ih =>
      rw [trim]
      split_ifs with hc
      · apply ih
        rw [size_eraseFirst]
        omega
      · omega

theorem exists_first {m : OrderedMap κ υ} (h : 0 < m.size) : ∃ o rest, m.keys = o :: rest := by
  rw [size_eq_keys] at h
  cases hk : m.keys with
  | nil =>
      rw [hk] at h
      cases h
  | cons o rest => exact ⟨o, rest, rfl⟩

section Order

variable [DecidableEq κ]

/-- Whenever a key is assigned that is not among the last `cap` keys, the oldest of these is
in order before the others and the new key. -/
def OldestFirst (cap : Nat) (h : List (κ × υ)) : Prop :=
  ∀ k v older, (k, v) :: older <:+ h → k ∉ (recency (older.map Prod.fst)).take cap →
    ((recency (older.map Prod.fst)).take cap).length = cap →
    ∀ o ∈ ((recency (older.map Prod.fst)).take cap).getLast?,
      ∀ x ∈ k :: (recency (older.map Prod.fst)).take cap, compare x o ≠ .lt

theorem OldestFirst.suffix {cap : Nat} {h h' : List (κ × υ)} (ho : OldestFirst cap h) (hs : h' <:+ h) :
    OldestFirst cap h' := fun k v older hc => ho k v older (hc.trans hs)

theorem find_of_trim [Std.LawfulEqOrd κ] {cap fuel : Nat} {m : OrderedMap κ υ} {k : κ} {v : υ}
    (h : (trim cap fuel m).find k = some v) : m.find k = some v := by
  induction fuel generalizing m with
  | zero => exact h
  | succ fuel ih =>
      rw [trim] at h
      split_ifs at h with hc
      · obtain ⟨o, rest, ho⟩ := exists_first (m := m) (by omega)
        have he := ih h
        rw [find_eraseFirst m ho] at he
        split_ifs at he
        exact he
      · exact h

end Order

variable [Std.TransOrd κ]

/-- An assignment, with the map cut back to `cap` entries. -/
def record (cap : Nat) (m : OrderedMap κ υ) (k : κ) (v : υ) : OrderedMap κ υ :=
  trim cap (m.insert k v).size (m.insert k v)

theorem size_record (cap : Nat) (m : OrderedMap κ υ) (k : κ) (v : υ) : (record cap m k v).size ≤ cap :=
  size_trim cap (Nat.le_refl _)

/-- The map behind a history of assignments. -/
def held (cap : Nat) : List (κ × υ) → OrderedMap κ υ
  | [] => empty
  | (k, v) :: older => record cap (held cap older) k v

theorem size_held (cap : Nat) (h : List (κ × υ)) : (held cap h).size ≤ cap := by
  cases h with
  | nil => exact Nat.zero_le _
  | cons e older => exact size_record cap _ e.1 e.2

theorem size_insert_record {cap : Nat} {m : OrderedMap κ υ} {k : κ} {v : υ}
    (h : (m.insert k v).size ≤ cap) : record cap m k v = m.insert k v := trim_of_le h _

/-- One key too many: the first one goes. -/
theorem record_full {cap : Nat} {m : OrderedMap κ υ} {k : κ} {v : υ}
    (h : (m.insert k v).size = cap + 1) : record cap m k v = (m.insert k v).eraseFirst := by
  rw [record, h, trim, if_pos (by omega), trim_of_le]
  rw [size_eraseFirst, h]
  omega

variable [DecidableEq κ]

/-- A key is found, with what was assigned to it last, until `cap` other keys were assigned. -/
def KeepsRecent (cap : Nat) (h : List (κ × υ)) : Prop :=
  ∀ k v, latest k h = some v → othersSince k (h.map Prod.fst) < cap → (held cap h).find k = some v

/-- The map holds the last `cap` keys, each with what was assigned to it last. -/
def HoldsRecent (cap : Nat) (h : List (κ × υ)) : Prop :=
  ∀ k, (held cap h).find k =
    if k ∈ (recency (h.map Prod.fst)).take cap then latest k h else none

theorem HoldsRecent.keepsRecent {cap : Nat} {h : List (κ × υ)} (hr : HoldsRecent cap h) :
    KeepsRecent cap h := by
  intro k v hv ho
  have hk : k ∈ h.map Prod.fst := by
    rw [← latest_isSome, hv]
    rfl
  rw [hr k, if_pos ((mem_take_recency hk cap).2 ho), hv]

variable [Std.LawfulEqOrd κ]

/-- What is found of a key was assigned to it last. -/
theorem latest_of_find {cap : Nat} {h : List (κ × υ)} {k : κ} {v : υ}
    (hf : (held cap h).find k = some v) : latest k h = some v := by
  induction h with
  | nil => cases hf
  | cons e older ih =>
      have hi := find_of_trim hf
      rw [find_insert] at hi
      rw [latest_cons k e.1 e.2 older]
      split_ifs at hi ⊢ with hk
      · exact hi
      · exact ih hi

theorem HoldsRecent.mem_keys {cap : Nat} {h : List (κ × υ)} (hr : HoldsRecent cap h) (k : κ) :
    k ∈ (held cap h).keys ↔ k ∈ (recency (h.map Prod.fst)).take cap := by
  rw [← find_isSome, hr k]
  split_ifs with hk
  · simp only [hk, iff_true]
    rw [latest_isSome, ← mem_recency]
    exact List.mem_of_mem_take hk
  · simp [hk]

theorem HoldsRecent.size_eq {cap : Nat} {h : List (κ × υ)} (hr : HoldsRecent cap h) :
    (held cap h).size = ((recency (h.map Prod.fst)).take cap).length := by
  rw [size_eq_keys]
  apply List.Perm.length_eq
  rw [List.perm_ext_iff_of_nodup (held cap h).keys_nodup
    ((recency_nodup _).sublist (List.take_sublist _ _))]
  exact hr.mem_keys

/-- The first key behind an insert of a key that is not in a full window is the oldest of the
window, if no key is below that one. -/
theorem HoldsRecent.first_oldest {cap : Nat} {older : List (κ × υ)} (hr : HoldsRecent cap older)
    {k : κ} {v : υ} {o : κ} (ho : o ∈ (recency (older.map Prod.fst)).take cap)
    (hmin : ∀ x ∈ k :: (recency (older.map Prod.fst)).take cap, ¬ compare x o = .lt) {f : κ}
    {rest : List κ} (hf : ((held cap older).insert k v).keys = f :: rest) : f = o := by
  have hfm : f ∈ ((held cap older).insert k v).keys := by
    rw [hf]
    exact List.mem_cons_self
  have hom : o ∈ ((held cap older).insert k v).keys := by
    rw [mem_keys_insert]
    exact Or.inr ((hr.mem_keys o).2 ho)
  rw [hf, List.mem_cons] at hom
  rcases hom with hom | hom
  · exact hom.symm
  · have hlt := first_lt _ hf o hom
    have hfw : f ∈ k :: (recency (older.map Prod.fst)).take cap := by
      rw [mem_keys_insert, hr.mem_keys] at hfm
      exact List.mem_cons.2 hfm
    exact absurd hlt (hmin f hfw)

theorem holdsRecent_cons {cap : Nat} (hcap : 0 < cap) {k : κ} {v : υ} {older : List (κ × υ)}
    (hr : HoldsRecent cap older) (ho : OldestFirst cap ((k, v) :: older)) :
    HoldsRecent cap ((k, v) :: older) := by
  intro x
  have hwin := take_recency_cons hcap k (older.map Prod.fst)
  have hnd : ((recency (older.map Prod.fst)).take cap).Nodup :=
    (recency_nodup _).sublist (List.take_sublist _ _)
  have hlen : ((recency (older.map Prod.fst)).take cap).length ≤ cap := by
    rw [List.length_take]
    omega
  have hsize := hr.size_eq
  rw [List.map_cons, hwin, latest_cons, held]
  have hfind : ((held cap older).insert k v).find x =
      if x = k then some v else
        if x ∈ (recency (older.map Prod.fst)).take cap then latest x older else none := by
    rw [find_insert, hr x]
  by_cases hk : k ∈ (recency (older.map Prod.fst)).take cap
  · -- The key is in the map already.
    have hs : ((held cap older).insert k v).size ≤ cap := by
      rw [size_insert, if_pos ((hr.mem_keys k).2 hk), hsize]
      exact hlen
    rw [if_pos hk, size_insert_record hs, hfind]
    by_cases hx : x = k
    · simp [hx]
    · simp [hx, hnd.mem_erase_iff]
  · have hs : ((held cap older).insert k v).size =
        ((recency (older.map Prod.fst)).take cap).length + 1 := by
      rw [size_insert, if_neg (fun hc => hk ((hr.mem_keys k).1 hc)), hsize]
    rw [if_neg hk]
    by_cases hfull : ((recency (older.map Prod.fst)).take cap).length = cap
    · -- The map is full: the first key is the oldest of the window.
      obtain ⟨o, hlast⟩ : ∃ o, o ∈ ((recency (older.map Prod.fst)).take cap).getLast? := by
        cases hl : ((recency (older.map Prod.fst)).take cap).getLast? with
        | none =>
            rw [List.getLast?_eq_none_iff.1 hl] at hfull
            rw [List.length_nil] at hfull
            omega
        | some o => exact ⟨o, rfl⟩
      have hmem : o ∈ (recency (older.map Prod.fst)).take cap := List.mem_of_getLast? hlast
      have hmin := ho k v older List.suffix_rfl hk hfull o hlast
      obtain ⟨f, rest, hf⟩ := exists_first (m := (held cap older).insert k v) (by omega)
      obtain rfl : f = o := hr.first_oldest hmem hmin hf
      have hdrop : ((recency (older.map Prod.fst)).take cap).take (cap - 1) =
          ((recency (older.map Prod.fst)).take cap).dropLast := by
        rw [List.dropLast_eq_take, hfull]
      rw [record_full (by omega), find_eraseFirst _ hf, hfind, hdrop]
      have hne : k ≠ f := fun hc => hk (hc ▸ hmem)
      by_cases hx : x = k
      · simp [hx, hne]
      · simp only [List.mem_cons, hx, false_or, if_false, mem_dropLast_iff hnd hlast]
        by_cases hxf : x = f
        · simp [hxf]
        · simp [hxf]
    · have htake : ((recency (older.map Prod.fst)).take cap).take (cap - 1) =
          (recency (older.map Prod.fst)).take cap := List.take_of_length_le (by omega)
      rw [size_insert_record (by omega), hfind, htake]
      by_cases hx : x = k
      · simp [hx]
      · simp [hx]

theorem holdsRecent {cap : Nat} (hcap : 0 < cap) {h : List (κ × υ)} (ho : OldestFirst cap h) :
    HoldsRecent cap h := by
  induction h with
  | nil =>
      intro k
      simp [held, recency]
  | cons e older ih =>
      exact holdsRecent_cons hcap (ih (ho.suffix (List.suffix_cons e older))) ho

/-- A full map that keeps the last `cap` keys has just these. -/
theorem keys_of_keepsRecent {cap : Nat} {h : List (κ × υ)} (hk : KeepsRecent cap h)
    (hfull : ((recency (h.map Prod.fst)).take cap).length = cap) (x : κ) :
    x ∈ (held cap h).keys ↔ x ∈ (recency (h.map Prod.fst)).take cap := by
  have hnd : ((recency (h.map Prod.fst)).take cap).Nodup :=
    (recency_nodup _).sublist (List.take_sublist _ _)
  have hsub : ((recency (h.map Prod.fst)).take cap) ⊆ (held cap h).keys := by
    intro y hy
    have hm : y ∈ h.map Prod.fst := (mem_recency y _).1 (List.mem_of_mem_take hy)
    obtain ⟨v, hv⟩ := Option.isSome_iff_exists.1 ((latest_isSome y h).2 hm)
    rw [← find_isSome, hk y v hv ((mem_take_recency hm cap).1 hy)]
    rfl
  have hperm := (List.subperm_of_subset hnd hsub).perm_of_length_le
    (by rw [← size_eq_keys, hfull]; exact size_held cap h)
  exact hperm.symm.mem_iff

/-- The bounded map keeps the last `cap` keys through a history exactly when it removes the
oldest of them every time. -/
theorem keepsRecent_iff {cap : Nat} (hcap : 0 < cap) (h : List (κ × υ)) :
    (∀ h', h' <:+ h → KeepsRecent cap h') ↔ OldestFirst cap h := by
  constructor
  · intro hkeep k v older hs hk hfull o ho x hx
    have hnd : ((recency (older.map Prod.fst)).take cap).Nodup :=
      (recency_nodup _).sublist (List.take_sublist _ _)
    have hkeys := keys_of_keepsRecent (hkeep older ((List.suffix_cons _ _).trans hs)) hfull
    have hwin := take_recency_cons hcap k (older.map Prod.fst)
    rw [if_neg hk] at hwin
    have hdrop : ((recency (older.map Prod.fst)).take cap).take (cap - 1) =
        ((recency (older.map Prod.fst)).take cap).dropLast := by
      rw [List.dropLast_eq_take, hfull]
    have hsize : ((held cap older).insert k v).size = cap + 1 := by
      rw [size_insert, if_neg (fun hc => hk ((hkeys k).1 hc)), size_eq_keys]
      have hp : (held cap older).keys.Perm ((recency (older.map Prod.fst)).take cap) := by
        rw [List.perm_ext_iff_of_nodup (held cap older).keys_nodup hnd]
        exact hkeys
      rw [hp.length_eq, hfull]
    obtain ⟨f, rest, hf⟩ := exists_first (m := (held cap older).insert k v) (by omega)
    -- The first key is gone, and the new key and the younger ones are not.
    have hgone : (held cap ((k, v) :: older)).find f = none := by
      rw [held, record_full hsize, find_eraseFirst _ hf, if_pos rfl]
    have hstay : ∀ y ∈ k :: ((recency (older.map Prod.fst)).take cap).dropLast, y ≠ f := by
      rintro y hy rfl
      have hyw : y ∈ (recency (((k, v) :: older).map Prod.fst)).take cap := by
        rw [List.map_cons, hwin, hdrop]
        exact hy
      have hm : y ∈ ((k, v) :: older).map Prod.fst :=
        (mem_recency y _).1 (List.mem_of_mem_take hyw)
      obtain ⟨w, hw⟩ := Option.isSome_iff_exists.1 ((latest_isSome y _).2 hm)
      rw [hkeep _ hs y w hw ((mem_take_recency hm cap).1 hyw)] at hgone
      cases hgone
    have hfm : f = k ∨ f ∈ (recency (older.map Prod.fst)).take cap := by
      rw [← hkeys f, ← mem_keys_insert (held cap older) k f v, hf]
      exact List.mem_cons_self
    have hfo : f = o := by
      rcases hfm with hfk | hfw
      · exact absurd hfk.symm (hstay k List.mem_cons_self)
      · by_contra hne
        exact hstay f (List.mem_cons_of_mem _ ((mem_dropLast_iff hnd ho f).2 ⟨hfw, hne⟩)) rfl
    subst hfo
    have hxm : x ∈ ((held cap older).insert k v).keys := by
      rw [mem_keys_insert, hkeys x]
      exact List.mem_cons.1 hx
    rw [hf, List.mem_cons] at hxm
    intro hlt
    rcases hxm with hxf | hxr
    · rw [hxf, Std.LawfulEqOrd.compare_eq_iff_eq.2 rfl] at hlt
      cases hlt
    · have hgt := first_lt _ hf x hxr
      rw [Std.OrientedCmp.gt_iff_lt.2 hlt] at hgt
      cases hgt
  · intro ho h' hs
    exact (holdsRecent hcap (ho.suffix hs)).keepsRecent

end OrderedMap

end OpenBambu.Foundation
