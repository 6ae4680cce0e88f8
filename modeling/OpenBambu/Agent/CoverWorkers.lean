import OpenBambu.Agent.CoverServer
import OpenBambu.Json.Value
import OpenBambu.Foundation.Run
import OpenBambu.Foundation.Volume

/-!
# The workers that fetch covers

Every report that names a print calls `cover_cache::ensure`, which starts a thread if the cover is missing
and nobody fetches it. The threads share the directory and the set of covers in flight, and their
statements come in any order. A task here is one call of `ensure` with the thread it may start.
-/

namespace OpenBambu.Agent

open OpenBambu.Foundation

/-! ## A call -/

/-- The arguments of `ensure`. -/
structure CoverRequest where
  host : Bytes
  devId : Bytes
  user : Bytes
  password : Bytes
  subtaskName : Bytes
  plateIdx : Int32
  version : Bytes
  deriving DecidableEq, Repr

def inflightKey (name : Bytes) (plate : Int32) (version : Bytes) : Bytes :=
  Json.signed plate.toInt ++ 0x01 :: name ++ 0x01 :: version

def wireChunkIsImage (chunk : Bytes) : Bool :=
  startsWith chunk [0x89, 0x50, 0x4e, 0x47, 0x0d, 0x0a, 0x1a, 0x0a] || startsWith chunk [0xff, 0xd8]

/-- The data of a `ModelThumbnailOutcome` that is `ok`. -/
structure Thumbnail where
  data : Bytes
  image : wireChunkIsImage data = true
  deriving DecidableEq

/-- What a task does next. -/
inductive CoverStage where
  | looking
  | measuring
  | claiming
  | starting
  | fetching
  | opening
  | writing (file offset : Nat)
  | moving
  | removing
  | releasing
  | finished
  /-- The thread could not be started. -/
  | stranded
  deriving DecidableEq, Repr

structure Task where
  request : CoverRequest
  stage : CoverStage
  /-- The worker's `thumb`. -/
  thumb : Option Thumbnail
  deriving DecidableEq

/-- `path_for` of a request. -/
def CoverRequest.target (dir : Bytes) (r : CoverRequest) : Bytes :=
  pathFor dir r.subtaskName (plateOf r.plateIdx) r.version

/-- The path that `write_atomic` writes to first. -/
def tmpOf (finalPath : Bytes) : Bytes := finalPath ++ ascii ".tmp"

def CoverRequest.tmp (dir : Bytes) (r : CoverRequest) : Bytes := tmpOf (r.target dir)

def CoverRequest.key (r : CoverRequest) : Bytes := inflightKey r.subtaskName r.plateIdx r.version

def Task.data (t : Task) : Bytes := (t.thumb.map Thumbnail.data).getD []

/-- One statement of a task with what the world answers it: whether the file system lets it be done,
the thumbnail, the number of bytes that reach the file. -/
inductive Action where
  | look (denied : Bool)
  | measure (denied : Bool)
  | claim
  | start (granted : Bool)
  | fetch (thumb : Option Thumbnail)
  | openTmp (granted : Bool)
  | write (count : Nat)
  /-- The stream is bad behind the write. -/
  | writeFails
  /-- The stream is good, and the block ends. What is still in its buffer is lost without a word. -/
  | close
  | rename (granted : Bool)
  | remove (granted : Bool)
  | release
  deriving DecidableEq

/-! ## The tasks together -/

/-- The directory, `g_inflight`, and the tasks in the order of their calls. -/
structure CoverCache where
  disk : Volume Bytes
  inflight : Finset Bytes
  tasks : List Task

/-- A statement of a task. One that is not next in the task does nothing. -/
def act (dir : Bytes) (disk : Volume Bytes) (inflight : Finset Bytes) (t : Task) (a : Action) :
    Volume Bytes × Finset Bytes × Task :=
  match t.stage, a with
  | .looking, .look denied =>
      if (disk.read (t.request.target dir)).isSome ∧ !denied then (disk, inflight, { t with stage := .measuring })
      else (disk, inflight, { t with stage := .claiming })
  | .measuring, .measure denied =>
      if !denied ∧ 0 < ((disk.read (t.request.target dir)).getD []).length then
        (disk, inflight, { t with stage := .finished })
      else (disk, inflight, { t with stage := .claiming })
  | .claiming, .claim =>
      if t.request.key ∈ inflight then (disk, inflight, { t with stage := .finished })
      else (disk, insert t.request.key inflight, { t with stage := .starting })
  | .starting, .start granted =>
      if granted then (disk, inflight, { t with stage := .fetching })
      else (disk, inflight, { t with stage := .stranded })
  | .fetching, .fetch none => (disk, inflight, { t with stage := .releasing })
  | .fetching, .fetch (some thumb) => (disk, inflight, { t with stage := .opening, thumb := some thumb })
  | .opening, .openTmp granted =>
      if granted then
        (disk.openTrunc (t.request.tmp dir), inflight,
          { t with stage := .writing (disk.openedFile (t.request.tmp dir)) 0 })
      else (disk, inflight, { t with stage := .releasing })
  | .writing file offset, .write count =>
      let piece := (t.data.drop offset).take count
      (disk.write file offset piece, inflight, { t with stage := .writing file (offset + piece.length) })
  | .writing _ _, .writeFails => (disk, inflight, { t with stage := .releasing })
  | .writing _ _, .close => (disk, inflight, { t with stage := .moving })
  | .moving, .rename granted =>
      match if granted then disk.rename (t.request.tmp dir) (t.request.target dir) else none with
      | some disk => (disk, inflight, { t with stage := .releasing })
      | none => (disk, inflight, { t with stage := .removing })
  | .removing, .remove granted =>
      (if granted then disk.unlink (t.request.tmp dir) else disk, inflight, { t with stage := .releasing })
  | .releasing, .release => (disk, inflight.erase t.request.key, { t with stage := .finished })
  | _, _ => (disk, inflight, t)

inductive CoverEvent where
  | call (r : CoverRequest)
  | act (k : Nat) (a : Action)

/-- `ensure` up to the look at the file. -/
def ensure (dir : Bytes) (s : CoverCache) (r : CoverRequest) : CoverCache :=
  if r.host = [] ∨ r.subtaskName = [] then s
  else if r.target dir = [] then s
  else { s with tasks := s.tasks ++ [⟨r, .looking, none⟩] }

def CoverCache.step (dir : Bytes) (s : CoverCache) : CoverEvent → CoverCache
  | .call r => ensure dir s r
  | .act k a =>
      match s.tasks[k]? with
      | none => s
      | some t =>
          let (disk, inflight, t) := act dir s.disk s.inflight t a
          ⟨disk, inflight, s.tasks.set k t⟩

/-! ## What a statement can do -/

/-- The task has put its cover in flight and not taken it out. -/
def CoverStage.claimed : CoverStage → Bool
  | .looking | .measuring | .claiming | .finished => false
  | _ => true

/-- The task has yet to ask the printer. -/
def CoverStage.bare : CoverStage → Bool
  | .looking | .measuring | .claiming | .starting | .fetching => true
  | _ => false

/-- The task has its thumbnail and is on the way to the file. -/
def CoverStage.stores : CoverStage → Bool
  | .opening | .writing .. | .moving => true
  | _ => false

/-- The ways a statement of a task can change disk, set and task. -/
inductive Acted (dir : Bytes) (disk : Volume Bytes) (inflight : Finset Bytes) (t : Task) (a : Action) :
    Volume Bytes × Finset Bytes × Task → Prop where
  | idle : Acted dir disk inflight t a (disk, inflight, t)
  | turned (stage : CoverStage) (held : stage.claimed = t.stage.claimed) (idle : stage.stores = false)
      (bare : stage.bare = true → t.stage.bare = true) :
      Acted dir disk inflight t a (disk, inflight, { t with stage := stage })
  | claimed (before : t.stage = .claiming) (free : t.request.key ∉ inflight) :
      Acted dir disk inflight t a (disk, insert t.request.key inflight, { t with stage := .starting })
  | fetched (before : t.stage = .fetching) (thumb : Thumbnail) :
      Acted dir disk inflight t a (disk, inflight, { t with stage := .opening, thumb := some thumb })
  | opened (before : t.stage = .opening) :
      Acted dir disk inflight t a (disk.openTrunc (t.request.tmp dir), inflight,
        { t with stage := .writing (disk.openedFile (t.request.tmp dir)) 0 })
  | wrote (file offset : Nat) (before : t.stage = .writing file offset) (count : Nat) :
      Acted dir disk inflight t a (disk.write file offset ((t.data.drop offset).take count), inflight,
        { t with stage := .writing file (offset + ((t.data.drop offset).take count).length) })
  | closed (file offset : Nat) (before : t.stage = .writing file offset) (close : a = .close) :
      Acted dir disk inflight t a (disk, inflight, { t with stage := .moving })
  | renamed (before : t.stage = .moving) (there : (disk.entry (t.request.tmp dir)).isSome = true) :
      Acted dir disk inflight t a (disk.move (t.request.tmp dir) (t.request.target dir), inflight,
        { t with stage := .releasing })
  | removed (before : t.stage = .removing) :
      Acted dir disk inflight t a (disk.unlink (t.request.tmp dir), inflight, { t with stage := .releasing })
  | released (before : t.stage = .releasing) :
      Acted dir disk inflight t a (disk, inflight.erase t.request.key, { t with stage := .finished })

theorem act_acted (dir : Bytes) (disk : Volume Bytes) (inflight : Finset Bytes) (t : Task) (a : Action) :
    Acted dir disk inflight t a (act dir disk inflight t a) := by
  have hturn : ∀ {stage : CoverStage}, stage.claimed = t.stage.claimed → stage.stores = false →
      (stage.bare = true → t.stage.bare = true) →
      Acted dir disk inflight t a (disk, inflight, { t with stage := stage }) := fun h h' h'' => .turned _ h h' h''
  unfold act
  split <;> rename_i hstage <;> try rw [hstage] at hturn
  case h_1 => split_ifs <;> exact hturn rfl rfl (by decide)
  case h_2 => split_ifs <;> exact hturn rfl rfl (by decide)
  case h_3 =>
    split_ifs with hin
    · exact hturn rfl rfl (by decide)
    · exact .claimed hstage hin
  case h_4 => split_ifs <;> exact hturn rfl rfl (by decide)
  case h_5 => exact hturn rfl rfl (by decide)
  case h_6 thumb => exact .fetched hstage thumb
  case h_7 =>
    split_ifs
    · exact .opened hstage
    · exact hturn rfl rfl (by decide)
  case h_8 file offset count => exact .wrote file offset hstage count
  case h_9 => exact hturn rfl rfl (by simp [CoverStage.bare])
  case h_10 file offset => exact .closed file offset hstage rfl
  case h_11 granted =>
    cases granted with
    | false => exact hturn rfl rfl (by decide)
    | true =>
        rw [if_pos rfl, Volume.rename]
        by_cases hthere : (disk.entry (t.request.tmp dir)).isSome = true
        · rw [if_pos hthere]
          exact .renamed hstage hthere
        · rw [if_neg hthere]
          exact hturn rfl rfl (by decide)
  case h_12 granted =>
    cases granted with
    | false => exact hturn rfl rfl (by decide)
    | true => exact .removed hstage
  case h_13 => exact .released hstage
  case h_14 => exact .idle

theorem Acted.request {dir : Bytes} {disk : Volume Bytes} {inflight : Finset Bytes} {t : Task} {a : Action}
    {next : Volume Bytes × Finset Bytes × Task} (h : Acted dir disk inflight t a next) :
    next.2.2.request = t.request := by
  cases h <;> rfl

/-- A statement leaves the set as it is, or claims the task's own cover, which was free, or gives
it up. -/
theorem Acted.claims {dir : Bytes} {disk disk' : Volume Bytes} {inflight inflight' : Finset Bytes} {t t' : Task}
    {a : Action} (h : Acted dir disk inflight t a (disk', inflight', t')) :
    (inflight' = inflight ∧ t'.stage.claimed = t.stage.claimed) ∨
    (inflight' = insert t.request.key inflight ∧ t.request.key ∉ inflight ∧ t.stage.claimed = false ∧
      t'.stage.claimed = true) ∨
    (inflight' = inflight.erase t.request.key ∧ t.stage.claimed = true ∧ t'.stage.claimed = false) := by
  cases h with
  | idle => exact Or.inl ⟨rfl, rfl⟩
  | turned stage held _ _ => exact Or.inl ⟨rfl, held⟩
  | claimed before free => exact Or.inr (Or.inl ⟨rfl, free, by rw [before]; rfl, rfl⟩)
  | fetched before thumb => exact Or.inl ⟨rfl, by rw [before]; rfl⟩
  | opened before => exact Or.inl ⟨rfl, by rw [before]; rfl⟩
  | wrote file offset before count => exact Or.inl ⟨rfl, by rw [before]; rfl⟩
  | closed file offset before _ => exact Or.inl ⟨rfl, by rw [before]; rfl⟩
  | renamed before _ => exact Or.inl ⟨rfl, by rw [before]; rfl⟩
  | removed before => exact Or.inl ⟨rfl, by rw [before]; rfl⟩
  | released before => exact Or.inr (Or.inr ⟨rfl, by rw [before]; rfl, rfl⟩)

/-- A call that `ensure` does not turn down at once. -/
def CoverRequest.Accepted (r : CoverRequest) : Prop := r.host ≠ [] ∧ r.subtaskName ≠ []

/-- A run without tasks. -/
def fresh (disk : Volume Bytes) : CoverCache := ⟨disk, ∅, []⟩

/-- The ways an event can change the whole. -/
inductive Stepped (dir : Bytes) (s : CoverCache) (e : CoverEvent) : CoverCache → Prop where
  | same : Stepped dir s e s
  | called (r : CoverRequest) (call : e = .call r) (accepted : r.Accepted) :
      Stepped dir s e { s with tasks := s.tasks ++ [⟨r, .looking, none⟩] }
  | acted (k : Nat) (a : Action) (act : e = .act k a) (t : Task) (at_k : s.tasks[k]? = some t)
      (next : Volume Bytes × Finset Bytes × Task) (acted : Acted dir s.disk s.inflight t a next) :
      Stepped dir s e ⟨next.1, next.2.1, s.tasks.set k next.2.2⟩

theorem step_act {dir : Bytes} {s : CoverCache} {k : Nat} {t : Task} (h : s.tasks[k]? = some t) (a : Action) :
    s.step dir (.act k a) =
      ⟨(act dir s.disk s.inflight t a).1, (act dir s.disk s.inflight t a).2.1,
        s.tasks.set k (act dir s.disk s.inflight t a).2.2⟩ := by
  simp only [CoverCache.step, h]

theorem step_stepped (dir : Bytes) (s : CoverCache) (e : CoverEvent) : Stepped dir s e (s.step dir e) := by
  cases e with
  | call r =>
      change Stepped dir s (.call r) (ensure dir s r)
      unfold ensure
      split_ifs with hempty
      · exact .same
      · exact .same
      · exact .called r rfl (not_or.mp hempty)
  | act k a =>
      cases hk : s.tasks[k]? with
      | none =>
          rw [show s.step dir (.act k a) = s by simp only [CoverCache.step, hk]]
          exact .same
      | some t =>
          rw [step_act hk a]
          exact .acted k a rfl t hk _ (act_acted dir s.disk s.inflight t a)

/-! ## One worker for a cover -/

/-- The tasks of one cover in flight are one task, and the set holds just the covers of such
tasks. -/
structure Exclusive (s : CoverCache) : Prop where
  apart : ∀ (j k : Nat) (t u : Task), s.tasks[j]? = some t → s.tasks[k]? = some u → t.stage.claimed = true →
    u.stage.claimed = true → t.request.key = u.request.key → j = k
  held : ∀ key, key ∈ s.inflight ↔
    ∃ (k : Nat) (t : Task), s.tasks[k]? = some t ∧ t.stage.claimed = true ∧ t.request.key = key

theorem exclusive_fresh (disk : Volume Bytes) : Exclusive (fresh disk) where
  apart := by
    intro j k t u hj
    cases hj
  held := by
    intro key
    constructor
    · intro hin
      cases hin
    · rintro ⟨k, t, hk, _⟩
      cases hk

/-- The tasks behind a statement of the task at `k`. -/
theorem getElem?_acted {s : CoverCache} {k : Nat} {t : Task} (hk : s.tasks[k]? = some t) (t' u : Task) (j : Nat) :
    (s.tasks.set k t')[j]? = some u ↔ (j = k ∧ u = t') ∨ (j ≠ k ∧ s.tasks[j]? = some u) := by
  have hlt : k < s.tasks.length := (List.getElem?_eq_some_iff.mp hk).1
  by_cases hj : j = k
  · subst hj
    rw [List.getElem?_set_self hlt]
    constructor
    · intro h
      exact Or.inl ⟨rfl, (Option.some.inj h).symm⟩
    · rintro (⟨_, rfl⟩ | ⟨hne, _⟩)
      · rfl
      · exact absurd rfl hne
  · rw [List.getElem?_set_ne (Ne.symm hj)]
    constructor
    · intro h
      exact Or.inr ⟨hj, h⟩
    · rintro (⟨he, _⟩ | ⟨_, h⟩)
      · exact absurd he hj
      · exact h

/-- A statement of a task that leaves the set and the claim as they are. -/
theorem Exclusive.kept {s : CoverCache} (h : Exclusive s) {k : Nat} {t t' : Task} (hk : s.tasks[k]? = some t)
    (hreq : t'.request = t.request) (hclaimed : t'.stage.claimed = t.stage.claimed) (disk : Volume Bytes) :
    Exclusive ⟨disk, s.inflight, s.tasks.set k t'⟩ := by
  have hback : ∀ (j : Nat) (u : Task), (s.tasks.set k t')[j]? = some u → ∃ v, s.tasks[j]? = some v ∧
      u.request = v.request ∧ u.stage.claimed = v.stage.claimed := by
    intro j u hj
    rcases (getElem?_acted hk t' u j).mp hj with ⟨rfl, rfl⟩ | ⟨_, hj⟩
    · exact ⟨t, hk, hreq, hclaimed⟩
    · exact ⟨u, hj, rfl, rfl⟩
  refine ⟨fun i j u v hi hj hu hv hkey => ?_, fun key => ?_⟩
  · obtain ⟨u', hi, hru, hcu⟩ := hback i u hi
    obtain ⟨v', hj, hrv, hcv⟩ := hback j v hj
    rw [hru, hrv] at hkey
    exact h.apart i j u' v' hi hj (hcu ▸ hu) (hcv ▸ hv) hkey
  · rw [h.held key]
    constructor
    · rintro ⟨j, u, hj, hu, rfl⟩
      by_cases hjk : j = k
      · subst hjk
        obtain rfl := Option.some.inj (hk.symm.trans hj)
        refine ⟨j, t', (getElem?_acted hk t' t' j).mpr (Or.inl ⟨rfl, rfl⟩), hclaimed ▸ hu, ?_⟩
        rw [hreq]
      · exact ⟨j, u, (getElem?_acted hk t' u j).mpr (Or.inr ⟨hjk, hj⟩), hu, rfl⟩
    · rintro ⟨j, u, hj, hu, rfl⟩
      obtain ⟨v, hj, hr, hc⟩ := hback j u hj
      exact ⟨j, v, hj, hc ▸ hu, by rw [hr]⟩

/-- A task puts its cover in flight. -/
theorem Exclusive.claim {s : CoverCache} (h : Exclusive s) {k : Nat} {t t' : Task} (hk : s.tasks[k]? = some t)
    (hreq : t'.request = t.request) (hclaimed : t'.stage.claimed = true) (hfree : t.request.key ∉ s.inflight)
    (hbefore : t.stage.claimed = false) (disk : Volume Bytes) :
    Exclusive ⟨disk, insert t.request.key s.inflight, s.tasks.set k t'⟩ := by
  have hother : ∀ (j : Nat) (u : Task), s.tasks[j]? = some u → u.stage.claimed = true → u.request.key ≠ t.request.key :=
    fun j u hj hu he => hfree ((h.held _).mpr ⟨j, u, hj, hu, he⟩)
  refine ⟨fun i j u v hi hj hu hv hkey => ?_, fun key => ?_⟩
  · rcases (getElem?_acted hk t' u i).mp hi with ⟨rfl, rfl⟩ | ⟨_, hi'⟩
    · rcases (getElem?_acted hk u v j).mp hj with ⟨rfl, rfl⟩ | ⟨_, hj'⟩
      · rfl
      · exact absurd (by rw [← hkey, hreq]) (hother j v hj' hv)
    · rcases (getElem?_acted hk t' v j).mp hj with ⟨rfl, rfl⟩ | ⟨_, hj'⟩
      · exact absurd (by rw [hkey, hreq]) (hother i u hi' hu)
      · exact h.apart i j u v hi' hj' hu hv hkey
  · rw [Finset.mem_insert, h.held key]
    constructor
    · rintro (rfl | ⟨j, u, hj, hu, rfl⟩)
      · exact ⟨k, t', (getElem?_acted hk t' t' k).mpr (Or.inl ⟨rfl, rfl⟩), hclaimed, by rw [hreq]⟩
      · have hjk : j ≠ k := by
          rintro rfl
          rw [Option.some.inj (hk.symm.trans hj), hu] at hbefore
          cases hbefore
        exact ⟨j, u, (getElem?_acted hk t' u j).mpr (Or.inr ⟨hjk, hj⟩), hu, rfl⟩
    · rintro ⟨j, u, hj, hu, rfl⟩
      rcases (getElem?_acted hk t' u j).mp hj with ⟨rfl, rfl⟩ | ⟨_, hj⟩
      · exact Or.inl (by rw [hreq])
      · exact Or.inr ⟨j, u, hj, hu, rfl⟩

/-- A task gives its cover up. -/
theorem Exclusive.release {s : CoverCache} (h : Exclusive s) {k : Nat} {t t' : Task} (hk : s.tasks[k]? = some t)
    (hclaimed : t'.stage.claimed = false) (hbefore : t.stage.claimed = true) (disk : Volume Bytes) :
    Exclusive ⟨disk, s.inflight.erase t.request.key, s.tasks.set k t'⟩ := by
  have hback : ∀ (j : Nat) (u : Task), (s.tasks.set k t')[j]? = some u → u.stage.claimed = true →
      j ≠ k ∧ s.tasks[j]? = some u := by
    intro j u hj hu
    rcases (getElem?_acted hk t' u j).mp hj with ⟨_, rfl⟩ | hj
    · rw [hu] at hclaimed
      cases hclaimed
    · exact hj
  refine ⟨fun i j u v hi hj hu hv hkey => ?_, fun key => ?_⟩
  · exact h.apart i j u v (hback i u hi hu).2 (hback j v hj hv).2 hu hv hkey
  · rw [Finset.mem_erase, h.held key]
    constructor
    · rintro ⟨hne, j, u, hj, hu, rfl⟩
      have hjk : j ≠ k := by
        rintro rfl
        rw [Option.some.inj (hk.symm.trans hj)] at hne
        exact hne rfl
      exact ⟨j, u, (getElem?_acted hk t' u j).mpr (Or.inr ⟨hjk, hj⟩), hu, rfl⟩
    · rintro ⟨j, u, hj, hu, rfl⟩
      obtain ⟨hjk, hj⟩ := hback j u hj hu
      exact ⟨fun he => hjk (h.apart j k u t hj hk hu hbefore he), j, u, hj, hu, rfl⟩

theorem exclusive_call {s : CoverCache} (h : Exclusive s) (r : CoverRequest) :
    Exclusive { s with tasks := s.tasks ++ [⟨r, .looking, none⟩] } := by
  have hback : ∀ (j : Nat) (u : Task), u.stage.claimed = true →
      ((s.tasks ++ [⟨r, .looking, none⟩])[j]? = some u ↔ s.tasks[j]? = some u) := by
    intro j u hu
    constructor
    · intro hj
      rcases Nat.lt_or_ge j s.tasks.length with hlt | hge
      · rwa [List.getElem?_append_left hlt] at hj
      · rw [List.getElem?_append_right hge, List.getElem?_singleton] at hj
        split_ifs at hj
        obtain rfl := Option.some.inj hj
        cases hu
    · intro hj
      rwa [List.getElem?_append_left (List.getElem?_eq_some_iff.mp hj).1]
  refine ⟨fun i j u v hi hj hu hv => ?_, fun key => ?_⟩
  · exact h.apart i j u v ((hback i u hu).mp hi) ((hback j v hv).mp hj) hu hv
  · rw [h.held key]
    constructor
    · rintro ⟨j, u, hj, hu, hkey⟩
      exact ⟨j, u, (hback j u hu).mpr hj, hu, hkey⟩
    · rintro ⟨j, u, hj, hu, hkey⟩
      exact ⟨j, u, (hback j u hu).mp hj, hu, hkey⟩

theorem exclusive_step (dir : Bytes) (s : CoverCache) (e : CoverEvent) (h : Exclusive s) :
    Exclusive (s.step dir e) := by
  have hstep := step_stepped dir s e
  generalize s.step dir e = s' at hstep ⊢
  cases hstep with
  | same => exact h
  | called r _ _ => exact exclusive_call h r
  | acted k a _ t hk next hacted =>
      obtain ⟨disk, inflight, t'⟩ := next
      have hreq : t'.request = t.request := hacted.request
      rcases hacted.claims with ⟨rfl, hclaimed⟩ | ⟨rfl, hfree, hbefore, hclaimed⟩ | ⟨rfl, hbefore, hclaimed⟩
      · exact h.kept hk hreq hclaimed disk
      · exact h.claim hk hreq hclaimed hfree hbefore disk
      · exact h.release hk hclaimed hbefore disk

/-- A task whose thread did not start stays as it is. -/
theorem stranded_step {dir : Bytes} {s : CoverCache} {k : Nat} {t : Task} (hk : s.tasks[k]? = some t)
    (hstranded : t.stage = .stranded) (e : CoverEvent) : (s.step dir e).tasks[k]? = some t := by
  have hlt := (List.getElem?_eq_some_iff.mp hk).1
  cases e with
  | call r =>
      change (ensure dir s r).tasks[k]? = some t
      unfold ensure
      split_ifs
      · exact hk
      · exact hk
      · change (s.tasks ++ _)[k]? = some t
        rwa [List.getElem?_append_left hlt]
  | act j a =>
      cases hj : s.tasks[j]? with
      | none => rwa [show s.step dir (.act j a) = s by simp only [CoverCache.step, hj]]
      | some u =>
          rw [step_act hj a]
          refine (getElem?_acted hj _ t k).mpr ?_
          by_cases hkj : k = j
          · subst hkj
            obtain rfl := Option.some.inj (hk.symm.trans hj)
            exact Or.inl ⟨rfl, by simp only [act, hstranded]⟩
          · exact Or.inr ⟨hkj, hk⟩

/-- However the statements of the tasks fall between each other, a cover has one worker at a time, and it
is free again when the worker is done. Only where the thread did not start is it in flight for good. -/
theorem one_worker_per_cover (dir : Bytes) (disk : Volume Bytes) (events : List CoverEvent) :
    InEveryState (CoverCache.step dir) Exclusive (fresh disk) events ∧
      ∀ (past rest : List CoverEvent) (k : Nat) (t : Task), events = past ++ rest →
        (after (CoverCache.step dir) (fresh disk) past).tasks[k]? = some t → t.stage = .stranded →
        t.request.key ∈ (after (CoverCache.step dir) (fresh disk) events).inflight := by
  have hrun := inEveryState_of_inv (exclusive_step dir) (exclusive_fresh disk) events
  refine ⟨hrun, ?_⟩
  rintro past rest k t rfl hk hstranded
  have hstays : (after (CoverCache.step dir) (fresh disk) (past ++ rest)).tasks[k]? = some t := by
    rw [after_append]
    exact after_of_inv (I := fun s : CoverCache => s.tasks[k]? = some t)
      (fun s e h => stranded_step h hstranded e) hk rest
  have hend := hrun (past ++ rest) [] (List.append_nil _).symm
  exact (hend.held _).mpr ⟨k, t, hstays, by rw [hstranded]; rfl, rfl⟩

end OpenBambu.Agent
