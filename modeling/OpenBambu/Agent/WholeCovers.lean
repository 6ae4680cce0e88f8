import OpenBambu.Agent.CoverWorkers

/-!
# Covers are whole

`write_atomic` writes a file beside the cover and renames it, so that nobody finds half a cover. The file
beside it has a name made from the cover's, and two workers of one cover file would share it. What keeps
them apart is the set in flight, which has other keys than the files have names: `covers_whole_iff` says
for which prints that is enough.
-/

namespace OpenBambu.Agent

open OpenBambu.Foundation

/-! ## Names -/

theorem CoverRequest.Accepted.target {r : CoverRequest} (h : r.Accepted) (dir : Bytes) :
    r.target dir = joinPath dir (coverFile r.subtaskName (plateOf r.plateIdx) r.version) := if_neg h.2

theorem joinPath_getLast (dir name : Bytes) (h : name ≠ []) : (joinPath dir name).getLast? = name.getLast? := by
  unfold joinPath
  split_ifs
  · exact List.getLast?_append_of_ne_nil dir h
  · rw [List.getLast?_append_of_ne_nil dir (List.cons_ne_nil _ _)]
    exact List.getLast?_cons_of_ne_nil h

theorem target_getLast {r : CoverRequest} (h : r.Accepted) (dir : Bytes) :
    (r.target dir).getLast? = some (Ascii.letter 'g') := by
  have hend : (coverFile r.subtaskName (plateOf r.plateIdx) r.version).getLast? = some (Ascii.letter 'g') := by
    rw [coverFile, List.getLast?_append_of_ne_nil _ (by decide)]
    rfl
  rw [h.target, joinPath_getLast dir _ (by intro hnil; rw [hnil] at hend; cases hend), hend]

theorem tmpOf_getLast (p : Bytes) : (tmpOf p).getLast? = some (Ascii.letter 'p') := by
  rw [tmpOf, List.getLast?_append_of_ne_nil p (by decide)]
  rfl

theorem tmpOf_injective {p q : Bytes} (h : tmpOf p = tmpOf q) : p = q := List.append_cancel_right h

/-- The file beside one cover is not another cover. -/
theorem target_ne_tmp {r : CoverRequest} (h : r.Accepted) (dir p : Bytes) : r.target dir ≠ tmpOf p := by
  intro he
  have hlast := target_getLast h dir
  rw [he, tmpOf_getLast] at hlast
  exact absurd (Option.some.inj hlast) (by decide)

/-! ## What a task has on the disk -/

/-- What a task has: its thumbnail, and the file beside the cover as far as it is written. -/
structure Task.Owns (dir : Bytes) (disk : Volume Bytes) (t : Task) : Prop where
  bare : t.stage.bare = true → t.thumb = none
  stored : t.stage.stores = true → ∃ thumb, t.thumb = some thumb
  written : ∀ file offset, t.stage = .writing file offset →
    offset ≤ t.data.length ∧ disk.file (t.request.tmp dir) = some (file, t.data.take offset)

/-- A file that is to be renamed holds the whole thumbnail. -/
def Task.Full (dir : Bytes) (disk : Volume Bytes) (t : Task) : Prop :=
  t.stage = .moving → ∃ file, disk.file (t.request.tmp dir) = some (file, t.data)

/-- Only the file beside its own cover matters to a task, and that only while it is in flight. -/
theorem Task.Owns.frame {dir : Bytes} {disk disk' : Volume Bytes} {t : Task} (h : t.Owns dir disk)
    (hfile : t.stage.claimed = true → disk'.file (t.request.tmp dir) = disk.file (t.request.tmp dir)) :
    t.Owns dir disk' where
  bare := h.bare
  stored := h.stored
  written := by
    intro file offset hstage
    obtain ⟨hle, hown⟩ := h.written file offset hstage
    exact ⟨hle, (hfile (by rw [hstage]; rfl)).trans hown⟩

theorem Task.Full.frame {dir : Bytes} {disk disk' : Volume Bytes} {t : Task} (h : t.Full dir disk)
    (hfile : t.stage.claimed = true → disk'.file (t.request.tmp dir) = disk.file (t.request.tmp dir)) :
    t.Full dir disk' := by
  intro hstage
  obtain ⟨file, hown⟩ := h hstage
  exact ⟨file, (hfile (by rw [hstage]; rfl)).trans hown⟩

/-- All of the thumbnail is in the file, if the task is writing. -/
def Task.Flushed (t : Task) : Prop := ∀ file offset, t.stage = .writing file offset → offset = t.data.length

/-- A statement changes no file but the one beside the task's cover, and the cover when that file is
renamed. -/
theorem Acted.file {dir : Bytes} {disk : Volume Bytes} {inflight : Finset Bytes} {t : Task} {a : Action}
    {next : Volume Bytes × Finset Bytes × Task} (h : Acted dir disk inflight t a next) (hown : t.Owns dir disk)
    (p : Bytes) :
    next.1.file p = disk.file p ∨ (t.stage.claimed = true ∧ (p = t.request.tmp dir ∨
      (t.stage = .moving ∧ p = t.request.target dir ∧ next.1.file p = disk.file (t.request.tmp dir)))) := by
  by_cases hp : p = t.request.tmp dir
  · by_cases hclaimed : t.stage.claimed = true
    · exact Or.inr ⟨hclaimed, Or.inl hp⟩
    · left
      cases h with
      | opened before => exact absurd (by rw [before]; rfl) hclaimed
      | wrote file offset before count => exact absurd (by rw [before]; rfl) hclaimed
      | renamed before _ => exact absurd (by rw [before]; rfl) hclaimed
      | removed before => exact absurd (by rw [before]; rfl) hclaimed
      | _ => rfl
  · cases h with
    | opened before => exact Or.inl (Volume.file_openTrunc_of_ne hp)
    | wrote file offset before count =>
        exact Or.inl (Volume.file_write_of_ne (hown.written file offset before).2 hp _)
    | renamed before _ =>
        by_cases ht : p = t.request.target dir
        · refine Or.inr ⟨by rw [before]; rfl, Or.inr ⟨before, ht, ?_⟩⟩
          rw [ht]
          exact Volume.file_move_target
        · exact Or.inl (Volume.file_move_of_ne hp ht)
    | removed before => exact Or.inl (Volume.file_unlink_of_ne hp)
    | _ => exact Or.inl rfl

/-- A task's own statement keeps what it has on the disk. -/
theorem Acted.owns {dir : Bytes} {disk : Volume Bytes} {inflight : Finset Bytes} {t : Task} {a : Action}
    {next : Volume Bytes × Finset Bytes × Task} (h : Acted dir disk inflight t a next) (hown : t.Owns dir disk) :
    next.2.2.Owns dir next.1 := by
  cases h with
  | idle => exact hown
  | turned stage held idle bare =>
      refine ⟨fun h => hown.bare (bare h), fun h => absurd (idle.symm.trans h) (by decide), ?_⟩
      rintro file offset rfl
      cases idle
  | claimed before free => exact ⟨fun _ => hown.bare (by rw [before]; rfl), nofun, nofun⟩
  | fetched before thumb => exact ⟨nofun, fun _ => ⟨thumb, rfl⟩, nofun⟩
  | opened before =>
      refine ⟨nofun, fun _ => hown.stored (by rw [before]; rfl), ?_⟩
      rintro file offset ⟨rfl, rfl⟩
      exact ⟨Nat.zero_le _, Volume.file_openTrunc_self _⟩
  | wrote file offset before count =>
      obtain ⟨hle, hfile⟩ := hown.written file offset before
      refine ⟨nofun, fun _ => hown.stored (by rw [before]; rfl), ?_⟩
      intro file' offset' hstage
      obtain ⟨rfl, rfl⟩ := CoverStage.writing.inj hstage
      refine ⟨?_, ?_⟩
      · change offset + ((t.data.drop offset).take count).length ≤ t.data.length
        rw [List.length_take, List.length_drop]
        omega
      · have hpiece : (t.data.drop offset).take ((t.data.drop offset).take count).length =
            (t.data.drop offset).take count := by
          rw [List.length_take, ← List.take_take, List.take_length]
        have hwritten := Volume.file_write_self hfile offset ((t.data.drop offset).take count)
        rw [← hpiece, Volume.overwritten_take hle, hpiece] at hwritten
        exact hwritten
  | closed file offset before close => exact ⟨nofun, fun _ => hown.stored (by rw [before]; rfl), nofun⟩
  | renamed before _ => exact ⟨nofun, nofun, nofun⟩
  | removed before => exact ⟨nofun, nofun, nofun⟩
  | released before => exact ⟨nofun, nofun, nofun⟩

/-- The file of a task that closes it is full if all of the thumbnail was written. -/
theorem Acted.full {dir : Bytes} {disk : Volume Bytes} {inflight : Finset Bytes} {t : Task} {a : Action}
    {next : Volume Bytes × Finset Bytes × Task} (h : Acted dir disk inflight t a next) (hown : t.Owns dir disk)
    (hfull : t.Full dir disk) (hflush : a = .close → t.Flushed) : next.2.2.Full dir next.1 := by
  cases h with
  | idle => exact hfull
  | turned stage held idle bare =>
      rintro rfl
      cases idle
  | closed file offset before close =>
      obtain ⟨_, hfile⟩ := hown.written file offset before
      rw [hflush close file offset before, List.take_length] at hfile
      exact fun _ => ⟨file, hfile⟩
  | _ => exact nofun

/-- A task keeps the thumbnail it got. -/
theorem Acted.thumb {dir : Bytes} {disk : Volume Bytes} {inflight : Finset Bytes} {t : Task} {a : Action}
    {next : Volume Bytes × Finset Bytes × Task} (h : Acted dir disk inflight t a next) (hown : t.Owns dir disk)
    {thumb : Thumbnail} (hthumb : t.thumb = some thumb) : next.2.2.thumb = some thumb := by
  cases h with
  | fetched before _ =>
      rw [hown.bare (by rw [before]; rfl)] at hthumb
      cases hthumb
  | _ => exact hthumb

/-! ## All tasks -/

section Prints

variable (dir : Bytes) (asked : CoverRequest → Prop)

/-- Calls that share a file share the key in flight. -/
def KeysCoverFiles : Prop := ∀ r r', asked r → asked r' → r.Accepted → r'.Accepted →
  r.target dir = r'.target dir → r.key = r'.key

/-- The calls are among those asked for. -/
def CallsAsked (_ : CoverCache) : CoverEvent → Prop
  | .call r => asked r
  | .act _ _ => True

/-- The calls are among those asked for, and no stream loses what it took for written. -/
def Sound (s : CoverCache) : CoverEvent → Prop
  | .call r => asked r
  | .act k .close => ∀ t, s.tasks[k]? = some t → t.Flushed
  | .act _ _ => True

/-- A thumbnail of the printer that a task has for this file. -/
def Arrived (s : CoverCache) (p : Bytes) (thumb : Thumbnail) : Prop :=
  ∃ (k : Nat) (t : Task), s.tasks[k]? = some t ∧ t.request.target dir = p ∧ t.thumb = some thumb

/-- A path that `write_atomic` does not keep for itself. -/
def Public (p : Bytes) : Prop := ∀ r, asked r → r.Accepted → p ≠ r.tmp dir

/-- A reader finds what was there before, or all of a thumbnail that arrived for this very file. -/
def WholeCovers (start : Volume Bytes) (s : CoverCache) : Prop :=
  ∀ p, Public dir asked p →
    s.disk.read p = start.read p ∨ ∃ thumb, Arrived dir s p thumb ∧ s.disk.read p = some thumb.data

/-- What every step keeps, whatever the streams lose. -/
structure Held (s : CoverCache) : Prop where
  exclusive : Exclusive s
  calls : ∀ (k : Nat) (t : Task), s.tasks[k]? = some t → asked t.request ∧ t.request.Accepted
  owned : ∀ (k : Nat) (t : Task), s.tasks[k]? = some t → t.Owns dir s.disk

/-- What every step keeps where they lose nothing. -/
structure Kept (start : Volume Bytes) (s : CoverCache) : Prop extends Held dir asked s where
  full : ∀ (k : Nat) (t : Task), s.tasks[k]? = some t → t.Full dir s.disk
  whole : WholeCovers dir asked start s

variable {dir asked}

theorem Sound.calls {s : CoverCache} {e : CoverEvent} (h : Sound asked s e) : CallsAsked asked s e := by
  cases e with
  | call r => exact h
  | act k a => trivial

theorem target_public {r : CoverRequest} (h : r.Accepted) : Public dir asked (r.target dir) :=
  fun r' _ _ => target_ne_tmp h dir (r'.target dir)

/-- The files beside the covers of two tasks in flight are two. -/
theorem tmp_apart (hkeys : KeysCoverFiles dir asked) {s : CoverCache} (h : Held dir asked s) {j k : Nat}
    {t u : Task} (hj : s.tasks[j]? = some t) (hk : s.tasks[k]? = some u) (hne : j ≠ k)
    (ht : t.stage.claimed = true) (hu : u.stage.claimed = true) :
    t.request.tmp dir ≠ u.request.tmp dir := by
  intro he
  obtain ⟨haskt, hacct⟩ := h.calls j t hj
  obtain ⟨hasku, haccu⟩ := h.calls k u hk
  have hkey := hkeys t.request u.request haskt hasku hacct haccu (tmpOf_injective he)
  exact hne (h.exclusive.apart j k t u hj hk ht hu hkey)

/-- What has arrived stays. -/
theorem Arrived.acted {s : CoverCache} {k : Nat} {a : Action} {t : Task} (hk : s.tasks[k]? = some t)
    {next : Volume Bytes × Finset Bytes × Task} (hacted : Acted dir s.disk s.inflight t a next)
    (hown : t.Owns dir s.disk) {p : Bytes} {thumb : Thumbnail} (h : Arrived dir s p thumb) :
    Arrived dir ⟨next.1, next.2.1, s.tasks.set k next.2.2⟩ p thumb := by
  obtain ⟨j, u, hj, htarget, hthumb⟩ := h
  by_cases hjk : j = k
  · subst hjk
    obtain rfl := Option.some.inj (hk.symm.trans hj)
    exact ⟨j, next.2.2, (getElem?_acted hk _ _ j).mpr (Or.inl ⟨rfl, rfl⟩), by rw [hacted.request, htarget],
      hacted.thumb hown hthumb⟩
  · exact ⟨j, u, (getElem?_acted hk _ u j).mpr (Or.inr ⟨hjk, hj⟩), htarget, hthumb⟩

theorem tasks_called {s : CoverCache} {r : CoverRequest} {k : Nat} {t : Task}
    (hk : (s.tasks ++ [⟨r, .looking, none⟩])[k]? = some t) : s.tasks[k]? = some t ∨ t = ⟨r, .looking, none⟩ := by
  rcases Nat.lt_or_ge k s.tasks.length with hlt | hge
  · rw [List.getElem?_append_left hlt] at hk
    exact Or.inl hk
  · rw [List.getElem?_append_right hge, List.getElem?_singleton] at hk
    split_ifs at hk
    exact Or.inr (Option.some.inj hk).symm

theorem held_called {s : CoverCache} (h : Held dir asked s) {r : CoverRequest} (hr : asked r) (hacc : r.Accepted) :
    Held dir asked { s with tasks := s.tasks ++ [⟨r, .looking, none⟩] } := by
  refine ⟨exclusive_call h.exclusive r, fun k t hk => ?_, fun k t hk => ?_⟩
  · rcases tasks_called hk with hk | rfl
    · exact h.calls k t hk
    · exact ⟨hr, hacc⟩
  · rcases tasks_called hk with hk | rfl
    · exact h.owned k t hk
    · exact ⟨fun _ => rfl, nofun, nofun⟩

theorem kept_called {start : Volume Bytes} {s : CoverCache} (h : Kept dir asked start s) {r : CoverRequest}
    (hr : asked r) (hacc : r.Accepted) :
    Kept dir asked start { s with tasks := s.tasks ++ [⟨r, .looking, none⟩] } := by
  refine ⟨held_called h.toHeld hr hacc, fun k t hk => ?_, fun p hp => ?_⟩
  · rcases tasks_called hk with hk | rfl
    · exact h.full k t hk
    · exact nofun
  · rcases h.whole p hp with hsame | ⟨thumb, ⟨k, t, hk, harrived⟩, hread⟩
    · exact Or.inl hsame
    · refine Or.inr ⟨thumb, ⟨k, t, ?_, harrived⟩, hread⟩
      change (s.tasks ++ _)[k]? = some t
      rwa [List.getElem?_append_left (List.getElem?_eq_some_iff.mp hk).1]

/-- A statement of one task leaves the file beside the cover of another as it is. -/
theorem tmp_acted (hkeys : KeysCoverFiles dir asked) {s : CoverCache} (h : Held dir asked s) {j k : Nat} {a : Action}
    {t u : Task} (hj : s.tasks[j]? = some u) (hk : s.tasks[k]? = some t) (hne : j ≠ k)
    {next : Volume Bytes × Finset Bytes × Task} (hacted : Acted dir s.disk s.inflight t a next)
    (hu : u.stage.claimed = true) : next.1.file (u.request.tmp dir) = s.disk.file (u.request.tmp dir) := by
  rcases hacted.file (h.owned k t hk) (u.request.tmp dir) with hsame | ⟨ht, he | ⟨_, he, _⟩⟩
  · exact hsame
  · exact absurd he (tmp_apart hkeys h hj hk hne hu ht)
  · exact absurd he.symm (target_ne_tmp (h.calls k t hk).2 dir _)

theorem held_acted (hkeys : KeysCoverFiles dir asked) {s : CoverCache} (h : Held dir asked s) {k : Nat} {a : Action}
    {t : Task} (hk : s.tasks[k]? = some t) {next : Volume Bytes × Finset Bytes × Task}
    (hacted : Acted dir s.disk s.inflight t a next)
    (hexclusive : Exclusive ⟨next.1, next.2.1, s.tasks.set k next.2.2⟩) :
    Held dir asked ⟨next.1, next.2.1, s.tasks.set k next.2.2⟩ := by
  have hset := getElem?_acted hk next.2.2
  refine ⟨hexclusive, fun j u hj => ?_, fun j u hj => ?_⟩
  · rcases (hset u j).mp hj with ⟨_, rfl⟩ | ⟨_, hj⟩
    · rw [hacted.request]
      exact h.calls k t hk
    · exact h.calls j u hj
  · rcases (hset u j).mp hj with ⟨_, rfl⟩ | ⟨hne, hj⟩
    · exact hacted.owns (h.owned k t hk)
    · exact (h.owned j u hj).frame fun hu => tmp_acted hkeys h hj hk hne hacted hu

theorem kept_acted (hkeys : KeysCoverFiles dir asked) {start : Volume Bytes} {s : CoverCache}
    (h : Kept dir asked start s) {k : Nat} {a : Action} {t : Task} (hk : s.tasks[k]? = some t)
    {next : Volume Bytes × Finset Bytes × Task} (hacted : Acted dir s.disk s.inflight t a next)
    (hflush : a = .close → t.Flushed) (hexclusive : Exclusive ⟨next.1, next.2.1, s.tasks.set k next.2.2⟩) :
    Kept dir asked start ⟨next.1, next.2.1, s.tasks.set k next.2.2⟩ := by
  have hown := h.owned k t hk
  refine ⟨held_acted hkeys h.toHeld hk hacted hexclusive, fun j u hj => ?_, fun p hp => ?_⟩
  · rcases (getElem?_acted hk next.2.2 u j).mp hj with ⟨_, rfl⟩ | ⟨hne, hj⟩
    · exact hacted.full hown (h.full k t hk) hflush
    · exact (h.full j u hj).frame fun hu => tmp_acted hkeys h.toHeld hj hk hne hacted hu
  · have harrived : ∀ thumb, Arrived dir s p thumb →
        Arrived dir ⟨next.1, next.2.1, s.tasks.set k next.2.2⟩ p thumb := fun _ h => h.acted hk hacted hown
    rcases hacted.file hown p with hsame | ⟨_, he | ⟨hstage, he, hmoved⟩⟩
    · have hread : next.1.read p = s.disk.read p := by rw [Volume.read, hsame, Volume.read]
      rcases h.whole p hp with hw | ⟨thumb, harr, hw⟩
      · exact Or.inl (hread.trans hw)
      · exact Or.inr ⟨thumb, harrived thumb harr, hread.trans hw⟩
    · obtain ⟨hask, hacc⟩ := h.calls k t hk
      exact absurd he (hp t.request hask hacc)
    · obtain ⟨thumb, hthumb⟩ := hown.stored (by rw [hstage]; rfl)
      obtain ⟨file, hfile⟩ := h.full k t hk hstage
      refine Or.inr ⟨thumb, harrived thumb ⟨k, t, hk, he.symm, hthumb⟩, ?_⟩
      change (next.1.file p).map Prod.snd = some thumb.data
      rw [hmoved, hfile, Task.data, hthumb]
      rfl

theorem held_step (hkeys : KeysCoverFiles dir asked) (s : CoverCache) (e : CoverEvent) (h : Held dir asked s)
    (hcalls : CallsAsked asked s e) : Held dir asked (s.step dir e) := by
  have hexclusive := exclusive_step dir s e h.exclusive
  have hstep := step_stepped dir s e
  generalize s.step dir e = s' at hstep hexclusive ⊢
  cases hstep with
  | same => exact h
  | called r call accepted =>
      subst call
      exact held_called h hcalls accepted
  | acted k a act t hk next hacted => exact held_acted hkeys h hk hacted hexclusive

theorem kept_step (hkeys : KeysCoverFiles dir asked) (start : Volume Bytes) (s : CoverCache) (e : CoverEvent)
    (h : Kept dir asked start s) (hsound : Sound asked s e) : Kept dir asked start (s.step dir e) := by
  have hexclusive := exclusive_step dir s e h.exclusive
  have hstep := step_stepped dir s e
  generalize s.step dir e = s' at hstep hexclusive ⊢
  cases hstep with
  | same => exact h
  | called r call accepted =>
      subst call
      exact kept_called h hsound accepted
  | acted k a act t hk next hacted =>
      subst act
      refine kept_acted hkeys h hk hacted ?_ hexclusive
      rintro rfl
      exact hsound t hk

theorem held_fresh (start : Volume Bytes) : Held dir asked (fresh start) where
  exclusive := exclusive_fresh start
  calls := by
    intro k t hk
    cases hk
  owned := by
    intro k t hk
    cases hk

theorem kept_fresh (start : Volume Bytes) : Kept dir asked start (fresh start) where
  toHeld := held_fresh start
  full := by
    intro k t hk
    cases hk
  whole := fun p _ => Or.inl rfl

theorem kept_run (hkeys : KeysCoverFiles dir asked) (start : Volume Bytes) {events : List CoverEvent}
    (hsound : AtEveryStep (CoverCache.step dir) (Sound asked) (fresh start) events) :
    InEveryState (CoverCache.step dir) (Kept dir asked start) (fresh start) events :=
  inEveryState_of_step (kept_step hkeys start) (kept_fresh start) hsound

end Prints

/-! ## Two workers of one file -/

def jpeg : Thumbnail := ⟨[0xff, 0xd8], rfl⟩

/-- A call for a cover that is missing, up to its thumbnail. -/
def fetching (k : Nat) (r : CoverRequest) : List CoverEvent :=
  [.call r, .act k (.look false), .act k .claim, .act k (.start true), .act k (.fetch (some jpeg))]

/-- A worker has written the file beside a cover. -/
def writing (r : CoverRequest) : List CoverEvent :=
  fetching 0 r ++ [.act 0 (.openTmp true), .act 0 (.write jpeg.data.length)]

/-- Before the worker renames its file, another opens the same one. -/
def collision (r r' : CoverRequest) : List CoverEvent :=
  writing r ++ .act 0 .close :: (fetching 1 r' ++ [.act 1 (.openTmp true), .act 0 (.rename true)])

theorem target_ne_nil {r : CoverRequest} (h : r.Accepted) (dir : Bytes) : r.target dir ≠ [] := by
  intro hnil
  have hlast := target_getLast h dir
  rw [hnil] at hlast
  cases hlast

theorem after_fetching {dir : Bytes} {s : CoverCache} {r : CoverRequest} (h : r.Accepted)
    (hmissing : s.disk.read (r.target dir) = none) (hfree : r.key ∉ s.inflight) :
    after (CoverCache.step dir) s (fetching s.tasks.length r) =
      ⟨s.disk, insert r.key s.inflight, s.tasks ++ [⟨r, .opening, some jpeg⟩]⟩ := by
  have hgo : ∀ (inflight inflight' : Finset Bytes) (t t' : Task) (a : Action),
      act dir s.disk inflight t a = (s.disk, inflight', t') →
      CoverCache.step dir ⟨s.disk, inflight, s.tasks ++ [t]⟩ (.act s.tasks.length a) =
        ⟨s.disk, inflight', s.tasks ++ [t']⟩ := by
    intro inflight inflight' t t' a hact
    rw [step_act (t := t) List.getElem?_concat_length a, hact, List.set_append_right _ _ (Nat.le_refl _), Nat.sub_self,
      List.set_cons_zero]
  have hcall : s.step dir (.call r) = ⟨s.disk, s.inflight, s.tasks ++ [⟨r, .looking, none⟩]⟩ := by
    change ensure dir s r = _
    rw [ensure, if_neg (not_or.mpr h), if_neg (target_ne_nil h dir)]
  have hlook : act dir s.disk s.inflight ⟨r, .looking, none⟩ (.look false) =
      (s.disk, s.inflight, ⟨r, .claiming, none⟩) := by
    simp only [act, hmissing, Option.isSome_none, Bool.false_eq_true, false_and, if_false]
  have hclaim : act dir s.disk s.inflight ⟨r, .claiming, none⟩ .claim =
      (s.disk, insert r.key s.inflight, ⟨r, .starting, none⟩) := if_neg hfree
  rw [fetching, after_cons, hcall, after_cons, hgo _ _ _ _ _ hlook, after_cons, hgo _ _ _ _ _ hclaim, after_cons,
    hgo _ _ _ ⟨r, .fetching, none⟩ _ rfl, after_cons, hgo _ _ _ ⟨r, .opening, some jpeg⟩ _ rfl, after_nil]

section Collision

variable {dir : Bytes} {r r' : CoverRequest} (hr : r.Accepted) (hr' : r'.Accepted)

/-- The disk with the file beside the cover of `r`. -/
def writtenBeside (dir : Bytes) (r : CoverRequest) : Volume Bytes :=
  ((Volume.blank Bytes).openTrunc (r.tmp dir)).write 0 0 jpeg.data

include hr

theorem after_writing : after (CoverCache.step dir) (fresh (Volume.blank Bytes)) (writing r) =
    ⟨writtenBeside dir r, {r.key}, [⟨r, .writing 0 jpeg.data.length, some jpeg⟩]⟩ := by
  have hfirst := @after_fetching dir (fresh (Volume.blank Bytes)) r hr rfl (Finset.notMem_empty _)
  rw [writing, after_append, show (0 : Nat) = (fresh (Volume.blank Bytes)).tasks.length from rfl, hfirst]
  rfl

include hr'

theorem after_collision (ht : r.target dir = r'.target dir) (hkey : r.key ≠ r'.key) :
    (after (CoverCache.step dir) (fresh (Volume.blank Bytes)) (collision r r')).disk.read (r.target dir) =
      some [] := by
  have htmp : r'.tmp dir = r.tmp dir := by rw [CoverRequest.tmp, CoverRequest.tmp, ht]
  have hopened : ((Volume.blank Bytes).openTrunc (r.tmp dir)).file (r.tmp dir) = some (0, []) :=
    Volume.file_openTrunc_self _
  have hmissing : (writtenBeside dir r).read (r'.target dir) = none := by
    have hne : r'.target dir ≠ r.tmp dir := target_ne_tmp hr' dir _
    rw [Volume.read, writtenBeside, Volume.file_write_of_ne hopened hne, Volume.file_openTrunc_of_ne hne]
    rfl
  have hsecond : after (CoverCache.step dir) ⟨writtenBeside dir r, {r.key}, [⟨r, .moving, some jpeg⟩]⟩ (fetching 1 r') =
      ⟨writtenBeside dir r, insert r'.key {r.key}, [⟨r, .moving, some jpeg⟩, ⟨r', .opening, some jpeg⟩]⟩ :=
    after_fetching hr' hmissing (by rw [Finset.mem_singleton]; exact Ne.symm hkey)
  have hthere : (((writtenBeside dir r).openTrunc (r.tmp dir)).entry (r.tmp dir)).isSome = true := by
    rw [(Volume.file_eq_some.mp (Volume.file_openTrunc_self _)).1]
    rfl
  have hclose : CoverCache.step dir ⟨writtenBeside dir r, {r.key}, [⟨r, .writing 0 jpeg.data.length, some jpeg⟩]⟩
      (.act 0 .close) = ⟨writtenBeside dir r, {r.key}, [⟨r, .moving, some jpeg⟩]⟩ := rfl
  have hopen : CoverCache.step dir ⟨writtenBeside dir r, insert r'.key {r.key},
      [⟨r, .moving, some jpeg⟩, ⟨r', .opening, some jpeg⟩]⟩ (.act 1 (.openTmp true)) =
      ⟨(writtenBeside dir r).openTrunc (r'.tmp dir), insert r'.key {r.key},
        [⟨r, .moving, some jpeg⟩, ⟨r', .writing ((writtenBeside dir r).openedFile (r'.tmp dir)) 0, some jpeg⟩]⟩ := rfl
  have hrename : act dir ((writtenBeside dir r).openTrunc (r.tmp dir)) (insert r'.key {r.key}) ⟨r, .moving, some jpeg⟩
      (.rename true) = (((writtenBeside dir r).openTrunc (r.tmp dir)).move (r.tmp dir) (r.target dir),
        insert r'.key {r.key}, ⟨r, .releasing, some jpeg⟩) := by
    simp only [act, if_true, Volume.rename, hthere]
  rw [collision, after_append, after_writing hr, after_cons, hclose, after_append]
  rw [hsecond, after_cons, hopen, htmp, after_cons, after_nil, step_act (t := ⟨r, .moving, some jpeg⟩) rfl, hrename]
  change ((((writtenBeside dir r).openTrunc (r.tmp dir)).move (r.tmp dir) (r.target dir)).file _).map Prod.snd = _
  rw [Volume.file_move_target, Volume.file_openTrunc_self]
  rfl

omit hr hr' in
theorem sound_fetching {asked : CoverRequest → Prop} (hask : asked r) {k : Nat} :
    ∀ e ∈ fetching k r, ∀ s, Sound asked s e := by
  intro e he s
  simp only [fetching, List.mem_cons, List.not_mem_nil, or_false] at he
  rcases he with rfl | rfl | rfl | rfl | rfl
  · exact hask
  all_goals trivial

omit hr' in
/-- The stream of the worker that writes all of its thumbnail loses nothing. -/
theorem sound_writing {asked : CoverRequest → Prop} (hask : asked r) {rest : List CoverEvent}
    (hrest : ∀ e ∈ rest, ∀ s, Sound asked s e) :
    AtEveryStep (CoverCache.step dir) (Sound asked) (fresh (Volume.blank Bytes))
      (writing r ++ .act 0 .close :: rest) := by
  rw [atEveryStep_append, after_writing hr, atEveryStep_cons]
  refine ⟨atEveryStep_of_forall ?_ _, ?_, atEveryStep_of_forall hrest _⟩
  · intro e he s
    rcases List.mem_append.mp he with he | he
    · exact sound_fetching hask e he s
    · simp only [List.mem_cons, List.not_mem_nil, or_false] at he
      rcases he with rfl | rfl <;> trivial
  · intro t ht file offset hstage
    obtain rfl := Option.some.inj ht
    exact (CoverStage.writing.inj hstage).2.symm

omit hr' in
theorem sound_collision {asked : CoverRequest → Prop} (hask : asked r) (hask' : asked r') :
    AtEveryStep (CoverCache.step dir) (Sound asked) (fresh (Volume.blank Bytes)) (collision r r') := by
  refine sound_writing hr hask fun e he s => ?_
  rcases List.mem_append.mp he with he | he
  · exact sound_fetching hask' e he s
  · simp only [List.mem_cons, List.not_mem_nil, or_false] at he
    rcases he with rfl | rfl <;> trivial

end Collision

/-- The covers of a set of prints are whole in every run exactly if prints with one cover file have one key
in flight. -/
theorem covers_whole_iff (dir : Bytes) (asked : CoverRequest → Prop) :
    (∀ start events, AtEveryStep (CoverCache.step dir) (Sound asked) (fresh start) events →
      InEveryState (CoverCache.step dir) (WholeCovers dir asked start) (fresh start) events) ↔
      KeysCoverFiles dir asked := by
  constructor
  · intro hwhole r r' hask hask' hr hr' htarget
    by_contra hkey
    have hend := hwhole (Volume.blank Bytes) (collision r r') (sound_collision hr hask hask') (collision r r') []
      (List.append_nil _).symm (r.target dir) (target_public hr)
    rw [after_collision hr hr' htarget hkey] at hend
    rcases hend with hend | ⟨thumb, _, hend⟩
    · cases hend
    · have himage := thumb.image
      rw [← Option.some.inj hend] at himage
      cases himage
  · intro hkeys start events hsound
    exact (kept_run hkeys start hsound).mono fun s h => h.whole

end OpenBambu.Agent
