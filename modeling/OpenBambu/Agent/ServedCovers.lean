import OpenBambu.Agent.WholeCovers

/-!
# Covers that are read while they are fetched

The cover server looks for a file again and again until it is there, and reads it while workers may be
about to replace it. It reads one file from end to end, since a file that has the name of a cover is never
written again; and what it sends is whole.
-/

namespace OpenBambu.Agent

open OpenBambu.Foundation

/-! ## A cover that is fetched and asked for -/

/-- The call for the cover of a LAN print. -/
def cubeRequest : CoverRequest where
  host := ascii "192.168.1.7"
  devId := ascii "00M09C"
  user := []
  password := ascii "12345678"
  subtaskName := ascii "cube"
  plateIdx := 1
  version := ascii "8442"

def IsCube (r : CoverRequest) : Prop := r = cubeRequest

theorem cubeRequest_accepted : cubeRequest.Accepted := ⟨by decide, by decide⟩

def coversDir : Bytes := ascii "/tmp/obn-covers"

/-- The cover is written and renamed. -/
def publishing : List CoverEvent := writing cubeRequest ++ [.act 0 .close, .act 0 (.rename true)]

theorem cubeRequest_keys : KeysCoverFiles coversDir IsCube := by
  rintro r r' rfl rfl _ _ _
  rfl

theorem sound_publishing {rest : List CoverEvent} (hrest : ∀ e ∈ rest, ∀ s, Sound IsCube s e) :
    AtEveryStep (CoverCache.step coversDir) (Sound IsCube) (fresh (Volume.blank Bytes))
      (publishing ++ rest) := by
  rw [publishing, List.append_assoc]
  have hask : IsCube cubeRequest := rfl
  refine sound_writing cubeRequest_accepted hask fun e he s => ?_
  rcases List.mem_cons.mp he with rfl | he
  · trivial
  · exact hrest e he s

section Prints

variable {dir : Bytes} {asked : CoverRequest → Prop}

/-! ## A file under its name -/

/-- No worker can open the file: it exists, and it is not beside a cover. -/
structure SettledFile (dir : Bytes) (asked : CoverRequest → Prop) (disk : Volume Bytes) (file : Nat) : Prop where
  old : file < disk.next
  beside : ∀ r, asked r → r.Accepted → disk.entry (r.tmp dir) ≠ some file

theorem SettledFile.acted {disk : Volume Bytes} {inflight : Finset Bytes} {t : Task} {a : Action}
    {next : Volume Bytes × Finset Bytes × Task} (h : Acted dir disk inflight t a next) (hown : t.Owns dir disk)
    (hask : asked t.request) (hacc : t.request.Accepted) {file : Nat} (hs : SettledFile dir asked disk file) :
    SettledFile dir asked next.1 file ∧ next.1.bytes file = disk.bytes file := by
  have hmine : disk.entry (t.request.tmp dir) ≠ some file := hs.beside t.request hask hacc
  cases h with
  | opened before =>
      have hne : file ≠ disk.openedFile (t.request.tmp dir) := by
        rintro rfl
        unfold Volume.openedFile at hmine hs
        cases hentry : disk.entry (t.request.tmp dir) with
        | some i => exact hmine (by rw [hentry, Option.getD_some])
        | none =>
            rw [hentry, Option.getD_none] at hs
            exact absurd hs.old (Nat.lt_irrefl _)
      refine ⟨⟨lt_of_lt_of_le hs.old (Nat.le_max_left _ _), fun r hr hracc => ?_⟩, Function.update_of_ne hne _ _⟩
      change Function.update disk.entry (t.request.tmp dir) _ (r.tmp dir) ≠ some file
      by_cases hsame : r.tmp dir = t.request.tmp dir
      · rw [hsame, Function.update_self]
        exact fun he => hne (Option.some.inj he).symm
      · rw [Function.update_of_ne hsame]
        exact hs.beside r hr hracc
  | wrote file' offset before count =>
      have hne : file ≠ file' := by
        rintro rfl
        exact hmine (Volume.file_eq_some.mp (hown.written file offset before).2).1
      exact ⟨⟨hs.old, hs.beside⟩, Function.update_of_ne hne _ _⟩
  | renamed before _ =>
      refine ⟨⟨hs.old, fun r hr hracc he => ?_⟩, rfl⟩
      rcases disk.moved_from he with ⟨heq, _⟩ | ⟨_, _, he⟩
      · exact target_ne_tmp hacc dir _ heq.symm
      · exact hs.beside r hr hracc he
  | removed before =>
      refine ⟨⟨hs.old, fun r hr hracc he => ?_⟩, rfl⟩
      exact hs.beside r hr hracc (disk.unlinked_from he).2
  | _ => exact ⟨hs, rfl⟩

theorem settled_step {s : CoverCache} {e : CoverEvent} (h : Held dir asked s) {file : Nat}
    (hs : SettledFile dir asked s.disk file) :
    SettledFile dir asked (s.step dir e).disk file ∧ (s.step dir e).disk.bytes file = s.disk.bytes file := by
  have hstep := step_stepped dir s e
  generalize s.step dir e = s' at hstep ⊢
  cases hstep with
  | same => exact ⟨hs, rfl⟩
  | called r _ _ => exact ⟨hs, rfl⟩
  | acted k a _ t hk next hacted =>
      obtain ⟨hask, hacc⟩ := h.calls k t hk
      exact hs.acted hacted (h.owned k t hk) hask hacc

/-- A public name does not lead to a file beside a cover. -/
theorem Public.settled {p : Bytes} (hp : Public dir asked p) {disk : Volume Bytes} {file : Nat}
    (h : disk.entry p = some file) : SettledFile dir asked disk file where
  old := disk.below p file h
  beside := fun r hr hacc he => hp r hr hacc (disk.alone p (r.tmp dir) file h he)

/-- A file that has a public name is never written again, whatever name it has later and whatever the
streams of the workers lose. -/
theorem published_bytes_stay (hkeys : KeysCoverFiles dir asked) (start : Volume Bytes) {past rest : List CoverEvent}
    (hcalls : AtEveryStep (CoverCache.step dir) (CallsAsked asked) (fresh start) (past ++ rest)) {p : Bytes}
    (hp : Public dir asked p) {file : Nat}
    (hentry : (after (CoverCache.step dir) (fresh start) past).disk.entry p = some file) :
    (after (CoverCache.step dir) (fresh start) (past ++ rest)).disk.bytes file =
      (after (CoverCache.step dir) (fresh start) past).disk.bytes file := by
  obtain ⟨hpast, hrest⟩ := atEveryStep_append.mp hcalls
  have hheld := inEveryState_of_step (held_step hkeys) (held_fresh start) hpast past [] (List.append_nil _).symm
  rw [after_append]
  generalize after (CoverCache.step dir) (fresh start) past = s at hentry hheld hrest ⊢
  have hrun : InEveryState (CoverCache.step dir)
      (fun s' => Held dir asked s' ∧ SettledFile dir asked s'.disk file ∧ s'.disk.bytes file = s.disk.bytes file)
      s rest := by
    refine inEveryState_of_step ?_ ⟨hheld, hp.settled hentry, rfl⟩ hrest
    rintro s' e ⟨hheld, hs, hbytes⟩ hok
    obtain ⟨hnext, hsame⟩ := settled_step hheld hs (e := e)
    exact ⟨held_step hkeys s' e hheld hok, hnext, hsame.trans hbytes⟩
  exact (hrun rest [] (List.append_nil _).symm).2.2

theorem published_bytes_stay_cube :
    (after (CoverCache.step coversDir) (fresh (Volume.blank Bytes)) (publishing ++ [.act 0 .release])).disk.bytes 0 =
      jpeg.data := by
  have hentry : (after (CoverCache.step coversDir) (fresh (Volume.blank Bytes)) publishing).disk.entry
      (cubeRequest.target coversDir) = some 0 := by decide +kernel
  have hbytes : (after (CoverCache.step coversDir) (fresh (Volume.blank Bytes)) publishing).disk.bytes 0 =
      jpeg.data := by decide +kernel
  have hquiet : ∀ e ∈ [CoverEvent.act 0 .release], ∀ s, Sound IsCube s e := by
    intro e he s
    rw [List.mem_singleton.mp he]
    trivial
  have hcalls : AtEveryStep (CoverCache.step coversDir) (CallsAsked IsCube) (fresh (Volume.blank Bytes))
      (publishing ++ [.act 0 .release]) := fun past e rest hr => (sound_publishing hquiet past e rest hr).calls
  rw [← hbytes]
  exact published_bytes_stay cubeRequest_keys (Volume.blank Bytes) hcalls (target_public cubeRequest_accepted) hentry

/-! ## The server among the workers -/

/-- A public file that exists stays there. -/
theorem present_step {start : Volume Bytes} {s : CoverCache} {e : CoverEvent} (h : Kept dir asked start s) {p : Bytes}
    (hp : Public dir asked p) (hthere : (s.disk.read p).isSome = true) : ((s.step dir e).disk.read p).isSome = true := by
  have hstep := step_stepped dir s e
  generalize s.step dir e = s' at hstep ⊢
  cases hstep with
  | same => exact hthere
  | called r _ _ => exact hthere
  | acted k a _ t hk next hacted =>
      obtain ⟨hask, hacc⟩ := h.calls k t hk
      change ((next.1.file p).map Prod.snd).isSome = true
      rcases hacted.file (h.owned k t hk) p with hsame | ⟨_, he | ⟨hstage, _, hmoved⟩⟩
      · rw [hsame]
        exact hthere
      · exact absurd he (hp t.request hask hacc)
      · obtain ⟨file, hfile⟩ := h.full k t hk hstage
        rw [hmoved, hfile]
        rfl

/-- The disk as the server finds it, where its accesses fall behind so many events of the run. -/
def accessed (dir : Bytes) (start : Volume Bytes) (events : List CoverEvent) (moment : Nat → Nat) : Disk :=
  fun t p => (after (CoverCache.step dir) (fresh start) (events.take (moment t))).disk.read p

theorem present_later (hkeys : KeysCoverFiles dir asked) (start : Volume Bytes) {events : List CoverEvent}
    (hsound : AtEveryStep (CoverCache.step dir) (Sound asked) (fresh start) events) {p : Bytes}
    (hp : Public dir asked p) {moment : Nat → Nat} (hmono : Monotone moment) {t : Nat}
    (hthere : (accessed dir start events moment t p).isSome = true) :
    (accessed dir start events moment (t + 1) p).isSome = true := by
  unfold accessed at hthere ⊢
  have hsplit : events.take (moment (t + 1)) =
      events.take (moment t) ++ (events.drop (moment t)).take (moment (t + 1) - moment t) := by
    rw [← List.take_add, Nat.add_sub_cancel' (hmono (Nat.le_succ t))]
  have hsound' : AtEveryStep (CoverCache.step dir) (Sound asked) (fresh start) (events.take (moment (t + 1))) := by
    rw [← List.take_append_drop (moment (t + 1)) events] at hsound
    exact (atEveryStep_append.mp hsound).1
  rw [hsplit] at hsound' ⊢
  obtain ⟨hpast, hrest⟩ := atEveryStep_append.mp hsound'
  have hkept := kept_run hkeys start hpast _ [] (List.append_nil _).symm
  rw [after_append]
  have hrun : InEveryState (CoverCache.step dir) (fun s => Kept dir asked start s ∧ (s.disk.read p).isSome = true)
      (after (CoverCache.step dir) (fresh start) (events.take (moment t)))
      ((events.drop (moment t)).take (moment (t + 1) - moment t)) := by
    refine inEveryState_of_step ?_ ⟨hkept, hthere⟩ hrest
    rintro s e ⟨hkept, hthere⟩ hok
    exact ⟨kept_step hkeys start s e hkept hok, present_step hkept hp hthere⟩
  exact (hrun _ [] (List.append_nil _).symm).2

/-- The name of a file that the server takes ends otherwise than that of a file beside a cover. -/
theorem safe_public {base : Bytes} (h : safeBasename base = true) (dir : Bytes) (asked : CoverRequest → Prop) :
    Public dir asked (joinPath dir base) := by
  intro r _ _ he
  obtain ⟨hne, _, _, _, _, _, front, hend⟩ := safeBasename_iff.mp h
  have hlast : (joinPath dir base).getLast? = some (Ascii.letter 'g') := by
    rw [joinPath_getLast dir base hne, ← hend, List.getLast?_append_of_ne_nil front (by decide)]
    rfl
  rw [he, CoverRequest.tmp, tmpOf_getLast] at hlast
  exact absurd (Option.some.inj hlast) (by decide)

/-- Whenever the accesses of the server fall among the statements of the workers, what it sends of a file, to a
GET or to a HEAD, is of all that was there before, or of all of a thumbnail that has arrived for it. -/
theorem served_covers_whole (hkeys : KeysCoverFiles dir asked) (start : Volume Bytes) {events : List CoverEvent}
    (hsound : AtEveryStep (CoverCache.step dir) (Sound asked) (fresh start) events) {moment : Nat → Nat}
    (hmono : Monotone moment) {d : CoverDirs} (hd : d.Plain) (hdir : d.tempDir = dir) {chunks : List Bytes}
    {path : Bytes} (h : (handleOne d (accessed dir start events moment) chunks).file = some path) :
    ∃ method base body, parseRequest (readHead [] chunks) = .ok (method, base) ∧
      (method = ascii "GET" ∨ method = ascii "HEAD") ∧
        SentWhole method body (handleOne d (accessed dir start events moment) chunks).sent ∧
          (start.read path = some body ∨ ∃ n thumb,
            Arrived dir (after (CoverCache.step dir) (fresh start) (events.take n)) path thumb ∧
              body = thumb.data) := by
  cases hparse : parseRequest (readHead [] chunks) with
  | error s =>
      rw [handleOne, hparse] at h
      cases h
  | ok request =>
      obtain ⟨method, base⟩ := request
      have hanswer : handleOne d (accessed dir start events moment) chunks =
          serveFile (accessed dir start events moment) method (joinPath dir base) := by
        rw [handleOne, hparse, ← hdir, ← hd.full]
      rw [hanswer] at h ⊢
      obtain ⟨rfl, t, hthere, hsent⟩ := serveFile_served h
      have hp := safe_public (parseRequest_base hparse).1 dir asked
      refine ⟨method, base, _, rfl, parseRequest_method hparse, hsent, ?_⟩
      obtain ⟨found, hfound⟩ :=
        Option.isSome_iff_exists.mp (present_later hkeys start hsound hp hmono hthere)
      rw [hfound, Option.getD_some]
      have hwhole := kept_run hkeys start hsound (events.take (moment (t + 1))) (events.drop (moment (t + 1)))
        (List.take_append_drop _ _).symm
      rcases hwhole.whole _ hp with hold | ⟨thumb, harrived, hnew⟩
      · left
        rw [← hold]
        exact hfound
      · right
        exact ⟨moment (t + 1), thumb, harrived, Option.some.inj (hfound.symm.trans hnew)⟩

/-- The request for the cover of the cube. -/
def cubeGet : List Bytes :=
  [ascii "GET /cover/" ++ coverFile cubeRequest.subtaskName 1 cubeRequest.version ++ ascii " HTTP/1.1\r\n\r\n"]

theorem served_covers_whole_cube :
    ∃ (body : Bytes) (n : Nat) (thumb : Thumbnail),
      Arrived coversDir (after (CoverCache.step coversDir) (fresh (Volume.blank Bytes)) (publishing.take n))
        (cubeRequest.target coversDir) thumb ∧ body = thumb.data := by
  have hserved : (handleOne ⟨coversDir, none⟩
      (accessed coversDir (Volume.blank Bytes) publishing fun _ => publishing.length) cubeGet).file =
        some (cubeRequest.target coversDir) := by decide +kernel
  have hsound := @sound_publishing [] (by simp)
  rw [List.append_nil] at hsound
  have hmono : Monotone fun _ : Nat => publishing.length := fun _ _ _ => le_rfl
  have hplain : CoverDirs.Plain ⟨coversDir, none⟩ := Or.inl rfl
  obtain ⟨_, _, body, _, _, _, hold | harrived⟩ :=
    served_covers_whole cubeRequest_keys (Volume.blank Bytes) hsound hmono hplain rfl hserved
  · cases hold
  · exact ⟨body, harrived⟩

end Prints

end OpenBambu.Agent
