import OpenBambu.Agent.PatchedFields

/-!
# The file and the address of a cover

A report that names a cover leads to a file, which `cover_cache::ensure` fills, and to an address,
which `lookup_synthetic_subtask` gives. Both come from the name of the print and a version that
takes part on one branch only. Two reports with different cover ids ought to have different
files, two reports of one print the same: `coverPairLaw_iff` says for which reports they do.
-/

namespace OpenBambu.Agent

open OpenBambu.Foundation

/-! ## The cover of a report -/

def subtaskNameOf (json : Bytes) : Bytes := (jsonPeekStringField json (ascii "subtask_name")).getD []

def subtaskIdOf (json : Bytes) : Bytes := (jsonPeekStringField json (ascii "subtask_id")).getD []

/-- One of the ids is missing, so that synthetic ones are put in. -/
def rewritesIds (json : Bytes) : Bool := (tryRewritePrintIds json (printVersion json)).2.isSome

/-- The synthetic id of a report. -/
def syntheticIdOf (json : Bytes) : Bytes :=
  syntheticSubtaskId (subtaskNameOf json) (printVersion json)

theorem rewritten_id {json id : Bytes} (h : (tryRewritePrintIds json (printVersion json)).2 = some id) :
    id = syntheticIdOf json := by
  unfold tryRewritePrintIds at h
  split at h
  · exact absurd h (by simp)
  · rename_i name hname
    split_ifs at h
    simp only at h
    split_ifs at h
    obtain rfl := Option.some.inj h
    rw [syntheticIdOf, subtaskNameOf, hname, Option.getD_some]

theorem unwritten_payload {json : Bytes} (h : (tryRewritePrintIds json (printVersion json)).2 = none) :
    (tryRewritePrintIds json (printVersion json)).1 = json := by
  have hnext : ∀ (p : Bytes × Bool) (key value : Bytes), (patchNext p key value).2 = false →
      p.2 = false ∧ (patchNext p key value).1 = p.1 := by
    intro p key value hp
    unfold patchNext at hp ⊢
    split at hp
    · exact absurd hp (by simp)
    · exact ⟨hp, rfl⟩
  unfold tryRewritePrintIds at h ⊢
  split
  · rfl
  · rename_i name hname
    simp only [hname] at h
    split_ifs at h ⊢ with hbad
    · rfl
    · rename_i hfalse
      simp only [Bool.not_eq_true] at hfalse
      obtain ⟨h4, e4⟩ := hnext _ _ _ hfalse
      obtain ⟨h3, e3⟩ := hnext _ _ _ h4
      obtain ⟨h2, e2⟩ := hnext _ _ _ h3
      obtain ⟨_, e1⟩ := hnext _ _ _ h2
      simp only
      rw [e4, e3, e2, e1]

/-- The cover of a report, from its own fields. -/
theorem coverOf_eq {json : Bytes} {a : Bytes × SyntheticSubtask} (h : coverOf json = some a) :
    a = if rewritesIds json then
        (syntheticIdOf json, ⟨subtaskNameOf json, 1, printVersion json⟩)
      else (subtaskIdOf json, ⟨subtaskNameOf json, 1, []⟩) := by
  unfold coverOf at h
  simp only [peek_rewritten] at h
  rw [← subtaskNameOf] at h
  unfold rewritesIds
  cases hid : (tryRewritePrintIds json (printVersion json)).2 with
  | some id =>
      rw [hid] at h
      simp only at h
      split_ifs at h
      obtain rfl := Option.some.inj h
      rw [rewritten_id hid, Option.isSome_some, if_pos rfl]
  | none =>
      rw [hid, unwritten_payload hid, ← subtaskIdOf] at h
      simp only at h
      split_ifs at h
      obtain rfl := Option.some.inj h
      rw [Option.isSome_none, if_neg (by simp)]

theorem coverOf_name {json : Bytes} {a : Bytes × SyntheticSubtask} (h : coverOf json = some a) :
    subtaskNameOf json ≠ [] := by
  unfold coverOf at h
  simp only [peek_rewritten] at h
  rw [← subtaskNameOf] at h
  intro hnil
  rw [if_pos (Or.inl hnil)] at h
  exact absurd h (by simp)

/-! ## Two reports -/

/-- `fs::path(dir) / name` for a relative name. -/
def joinPath (dir name : Bytes) : Bytes :=
  if dir = [] ∨ dir.getLast? = some Ascii.slash then dir ++ name else dir ++ Ascii.slash :: name

theorem joinPath_injective {dir n m : Bytes} (h : joinPath dir n = joinPath dir m) : n = m := by
  unfold joinPath at h
  split_ifs at h
  · exact List.append_cancel_left h
  · exact (List.cons.inj (List.append_cancel_left h)).2

/-- `cover_cache::path_for` with its directory. -/
def pathFor (dir subtaskName : Bytes) (plateIdx : Nat) (version : Bytes) : Bytes :=
  if subtaskName = [] then [] else joinPath dir (coverFile subtaskName plateIdx version)

/-- The file that `ensure` fills. -/
def ensurePath (dir : Bytes) (e : SyntheticSubtask) : Bytes :=
  pathFor dir e.subtaskName e.plateIdx e.version

/-- The address that is given for an id behind a report. -/
def coverUrl (s : CoverState) (json id : Bytes) : Option Bytes :=
  (lookupSyntheticSubtask (notifyLocalMessage s ⟨json, none⟩) id).map SubtaskCoverInfo.url

/-- The cloud's number of the print, if it has one. -/
def cloudIdOf (json : Bytes) : Bytes := if subtaskIdOf json = ascii "0" then [] else subtaskIdOf json

/-- The reports agree on the name of the print and on its token: the task id or start time, and
the cloud's number. -/
structure SamePrint (f g : Bytes) : Prop where
  name : subtaskNameOf f = subtaskNameOf g
  token : printVersion f = printVersion g
  cloud : cloudIdOf f = cloudIdOf g

/-- Files and addresses are new for a new id, and stay for one print. -/
structure CoverPairLaw (f g : Bytes) : Prop where
  fresh : ∀ a b, coverOf f = some a → coverOf g = some b → a.1 ≠ b.1 →
    (∀ dir, ensurePath dir a.2 ≠ ensurePath dir b.2) ∧
      ∀ s t port u w, 0 < port → s.coverServer = some port → t.coverServer = some port →
        coverUrl s f a.1 = some u → coverUrl t g b.1 = some w → u ≠ w
  stable : ∀ a b, coverOf f = some a → coverOf g = some b → SamePrint f g →
    a.1 = b.1 ∧ (∀ dir, ensurePath dir a.2 = ensurePath dir b.2) ∧
      ∀ s t port u w, 0 < port → s.coverServer = some port → t.coverServer = some port →
        coverUrl s f a.1 = some u → coverUrl t g b.1 = some w → u = w

/-- The id under which a report publishes its cover. -/
def publishedId (json : Bytes) : Bytes :=
  if rewritesIds json then syntheticIdOf json else subtaskIdOf json

/-- The name and version that file and address are made of. -/
def coverKey (json : Bytes) : Bytes :=
  keyed (subtaskNameOf json) (if rewritesIds json then printVersion json else [])

/-- What the keys leave out makes no difference: a key that is the bare name of a cloud print
stands for one number, and reports of one print are both rewritten or both not (or there is no
token and the cloud's number happens to be the synthetic id). -/
structure KeysTell (f g : Bytes) : Prop where
  numbers : rewritesIds f = false ∨ rewritesIds g = false → coverKey f = coverKey g →
    publishedId f = publishedId g
  branch : SamePrint f g → rewritesIds f ≠ rewritesIds g →
    publishedId f = publishedId g ∧ printVersion f = []

theorem coverOf_key {json : Bytes} {a : Bytes × SyntheticSubtask} (h : coverOf json = some a) :
    a.1 = publishedId json ∧ a.2.subtaskName ≠ [] ∧ a.2.plateIdx = 1 ∧
      keyed a.2.subtaskName a.2.version = coverKey json := by
  have hname := coverOf_name h
  rw [coverOf_eq h, publishedId, coverKey]
  split_ifs
  · exact ⟨rfl, hname, rfl, rfl⟩
  · exact ⟨rfl, hname, rfl, rfl⟩

/-- Behind a report with a cover its id, if found, has the address of the report's cover. -/
theorem coverUrl_eq {s : CoverState} {json u : Bytes} {a : Bytes × SyntheticSubtask} {port : Nat}
    (ha : coverOf json = some a) (hs : s.coverServer = some port) (hu : coverUrl s json a.1 = some u) :
    u = urlFor port a.2.subtaskName a.2.plateIdx a.2.version := by
  obtain ⟨i, hi, rfl⟩ := Option.map_eq_some_iff.mp hu
  obtain ⟨e, he, rfl⟩ := Option.map_eq_some_iff.mp hi
  unfold notifyLocalMessage at he ⊢
  rw [ha] at he ⊢
  simp only at he ⊢
  have hfind := OrderedMap.find_of_trim he
  rw [OrderedMap.find_insert, if_pos rfl] at hfind
  obtain rfl := Option.some.inj hfind
  simp only [coverInfo, hs, Option.some_or]

theorem coverFile_hash (n v : Bytes) :
    coverFile n 1 v = ascii "cover-" ++ (hex8 (fnv1a32 (keyed n v)) ++ ascii "-p1.png") := by
  simp only [coverFile, List.append_assoc]
  congr 2

theorem coverFile_eq_iff {n v n' v' : Bytes} :
    coverFile n 1 v = coverFile n' 1 v' ↔ fnv1a32 (keyed n v) = fnv1a32 (keyed n' v') := by
  rw [coverFile_hash, coverFile_hash]
  constructor
  · intro h
    exact hex8_injective (List.append_cancel_right (List.append_cancel_left h))
  · intro h
    rw [h]

section Pair

variable {f g : Bytes} {a b : Bytes × SyntheticSubtask} (ha : coverOf f = some a)
  (hb : coverOf g = some b)

include ha hb

theorem ensurePath_eq_iff (dir : Bytes) :
    ensurePath dir a.2 = ensurePath dir b.2 ↔ fnv1a32 (coverKey f) = fnv1a32 (coverKey g) := by
  obtain ⟨_, hna, hpa, hka⟩ := coverOf_key ha
  obtain ⟨_, hnb, hpb, hkb⟩ := coverOf_key hb
  rw [ensurePath, ensurePath, pathFor, pathFor, if_neg hna, if_neg hnb, hpa, hpb, ← hka, ← hkb,
    ← coverFile_eq_iff]
  exact ⟨joinPath_injective, fun h => by rw [h]⟩

theorem coverUrl_eq_iff {s t : CoverState} {port : Nat} {u w : Bytes} (hport : 0 < port)
    (hs : s.coverServer = some port) (ht : t.coverServer = some port) (hu : coverUrl s f a.1 = some u)
    (hw : coverUrl t g b.1 = some w) :
    u = w ↔ fnv1a32 (coverKey f) = fnv1a32 (coverKey g) := by
  obtain ⟨_, hna, hpa, hka⟩ := coverOf_key ha
  obtain ⟨_, hnb, hpb, hkb⟩ := coverOf_key hb
  have hzero : port ≠ 0 := by omega
  rw [coverUrl_eq ha hs hu, coverUrl_eq hb ht hw, urlFor, urlFor, hpa, hpb, ← hka, ← hkb,
    ← coverFile_eq_iff, if_neg (by simp [hzero, hna]), if_neg (by simp [hzero, hnb])]
  exact ⟨List.append_cancel_left, fun h => by rw [h]⟩

end Pair

/-- Two reports that both get synthetic ids have one key only with one id. -/
theorem publishedId_of_key {f g : Bytes} (hf : rewritesIds f = true) (hg : rewritesIds g = true)
    (h : coverKey f = coverKey g) : publishedId f = publishedId g := by
  rw [coverKey, coverKey, if_pos hf, if_pos hg] at h
  rw [publishedId, publishedId, if_pos hf, if_pos hg, syntheticIdOf, syntheticIdOf, syntheticSubtaskId,
    syntheticSubtaskId, h]

theorem keyed_eq_self_iff {n v : Bytes} : keyed n v = n ↔ v = [] := by
  unfold keyed
  split_ifs with hv
  · simp [hv]
  · simp [hv]

/-- The keys of reports of one print differ if one is rewritten, the other not, and there is a
token. -/
theorem SamePrint.key_iff {f g : Bytes} (h : SamePrint f g) :
    coverKey f = coverKey g ↔ rewritesIds f = rewritesIds g ∨ printVersion f = [] := by
  rw [coverKey, coverKey, h.name, h.token]
  have hbare : ∀ n : Bytes, keyed n [] = n := fun n => keyed_eq_self_iff.mpr rfl
  cases rewritesIds f with
  | true =>
      cases rewritesIds g with
      | true => simp
      | false => simp [hbare, keyed_eq_self_iff]
  | false =>
      cases rewritesIds g with
      | true => simp [hbare, eq_comm (b := keyed _ _), keyed_eq_self_iff]
      | false => simp

/-- Where FNV-1a does not make one hash of the two keys, files and addresses keep the law on
exactly the pairs of reports whose keys tell them apart. -/
theorem coverPairLaw_iff {f g : Bytes} (hf : (coverOf f).isSome = true) (hg : (coverOf g).isSome = true)
    (hcollide : fnv1a32 (coverKey f) = fnv1a32 (coverKey g) → coverKey f = coverKey g) :
    CoverPairLaw f g ↔ KeysTell f g := by
  obtain ⟨a, ha⟩ := Option.isSome_iff_exists.mp hf
  obtain ⟨b, hb⟩ := Option.isSome_iff_exists.mp hg
  have hida := (coverOf_key ha).1
  have hidb := (coverOf_key hb).1
  constructor
  · intro hlaw
    refine ⟨fun _ hkey => ?_, fun hsame hbranch => ?_⟩
    · by_contra hne
      rw [← hida, ← hidb] at hne
      have hpath := (hlaw.fresh a b ha hb hne).1 []
      exact hpath ((ensurePath_eq_iff ha hb []).mpr (by rw [hkey]))
    · obtain ⟨hid, hpath, _⟩ := hlaw.stable a b ha hb hsame
      have hkey := hcollide ((ensurePath_eq_iff ha hb []).mp (hpath []))
      rw [hida, hidb] at hid
      exact ⟨hid, (hsame.key_iff.mp hkey).resolve_left hbranch⟩
  · intro htell
    have hkeys : coverKey f = coverKey g → publishedId f = publishedId g := by
      intro hkey
      by_cases hboth : rewritesIds f = false ∨ rewritesIds g = false
      · exact htell.numbers hboth hkey
      · rw [not_or, Bool.not_eq_false, Bool.not_eq_false] at hboth
        exact publishedId_of_key hboth.1 hboth.2 hkey
    refine ⟨fun a' b' ha' hb' hne => ?_, fun a' b' ha' hb' hsame => ?_⟩
    · rw [(coverOf_key ha').1, (coverOf_key hb').1] at hne
      have hhash : fnv1a32 (coverKey f) ≠ fnv1a32 (coverKey g) := fun h => hne (hkeys (hcollide h))
      refine ⟨fun dir h => hhash ((ensurePath_eq_iff ha' hb' dir).mp h), ?_⟩
      intro s t port u w hport hs ht hu hw h
      exact hhash ((coverUrl_eq_iff ha' hb' hport hs ht hu hw).mp h)
    · have hkey : coverKey f = coverKey g := by
        rw [hsame.key_iff]
        by_cases hbranch : rewritesIds f = rewritesIds g
        · exact Or.inl hbranch
        · exact Or.inr (htell.branch hsame hbranch).2
      refine ⟨?_, fun dir => (ensurePath_eq_iff ha' hb' dir).mpr (by rw [hkey]), ?_⟩
      · rw [(coverOf_key ha').1, (coverOf_key hb').1]
        exact hkeys hkey
      · intro s t port u w hport hs ht hu hw
        exact (coverUrl_eq_iff ha' hb' hport hs ht hu hw).mpr (by rw [hkey])

/-- A report of a LAN print with this task id. -/
def lanPrint (number : Nat) : Bytes :=
  ascii "\x7b\"subtask_name\":\"cube\",\"subtask_id\":\"0\",\"task_id\":\"" ++ decimal number ++ ascii "\"\x7d"

theorem coverPairLaw_reprint : CoverPairLaw (lanPrint 8442) (lanPrint 8443) := by
  have hf : rewritesIds (lanPrint 8442) = true := by decide +kernel
  have hg : rewritesIds (lanPrint 8443) = true := by decide +kernel
  have hhash : fnv1a32 (coverKey (lanPrint 8442)) ≠ fnv1a32 (coverKey (lanPrint 8443)) := by
    decide +kernel
  refine (coverPairLaw_iff (by decide +kernel) (by decide +kernel) fun h => absurd h hhash).mpr ⟨?_, ?_⟩
  · rw [hf, hg]
    simp
  · rw [hf, hg]
    simp

/-- A reprint of a cloud print: another number, the same file. -/
theorem coverPairLaw_fails : ¬ CoverPairLaw (cloudPrint 20).json (cloudPrint 21).json := by
  intro hlaw
  have hf : coverOf (cloudPrint 20).json = some (ascii "20", ⟨ascii "cube", 1, []⟩) := by decide +kernel
  have hg : coverOf (cloudPrint 21).json = some (ascii "21", ⟨ascii "cube", 1, []⟩) := by decide +kernel
  exact (hlaw.fresh _ _ hf hg (by decide)).1 [] rfl

end OpenBambu.Agent
