import OpenBambu.Upload.Receive

/-!
# Which replies a download and an ability query listen to

`run_download` and `query_media_ability` take every body they receive for a reply to their
own request. What they return is compared with what the same loop returns on those bodies
alone that carry the `cmdtype` and the `sequence` of the request.
-/

namespace OpenBambu.Upload

open OpenBambu.Foundation OpenBambu.Json OpenBambu.Tunnel

structure DownloadRequest where
  path : Bytes
  targetPath : Bytes

structure DownloadOutcome where
  ok : Bool := false
  data : Bytes := []
  wireResult : Int := 0
  error : Option Error := none
  jsonBody : Bytes := []
  deriving DecidableEq, Repr

def replyHasMemDlParam (wireJson : Bytes) : Bool :=
  match parse wireJson with
  | .error _ => false
  | .ok root =>
      let reply := root.find (ascii "reply")
      let size := reply.find (ascii "mem_dl_param_size")
      reply.isObject && size.isNumber && 0 < size.asNumber 0

/-- The bytes a body adds to the data. -/
def contribution (payload : Bytes) : Bytes :=
  let (wireJson, chunk) := wireParts payload
  if replyHasMemDlParam wireJson then [] else chunk

def resultOf (payload : Bytes) : Int := parseWireResult (wireParts payload).1

/-- One body, whatever it answers. -/
def DownloadOutcome.absorb (out : DownloadOutcome) (payload : Bytes) : DownloadOutcome :=
  { out with wireResult := resultOf payload, data := out.data ++ contribution payload }

/-- The body whose result ends the download. -/
def DownloadOutcome.finish (out : DownloadOutcome) (payload : Bytes) : DownloadOutcome :=
  let wireJson := (wireParts payload).1
  if resultOf payload = 0 then
    let body := parseWireReplyJson wireJson
    { out with ok := true, jsonBody := if body = [] then wireJson else body }
  else { out with error := some (.downloadResult (resultOf payload)) }

/-- The receive loop of `run_download`. `frames` counts the bodies. -/
def downloadLoop (cancelled : Nat → Bool) :
    Nat → Nat → Session → DownloadOutcome → Except Halt ((DownloadOutcome × Nat) × Session)
  | 0, _, _, _ => .error .hang
  | turns + 1, frames, s, out =>
      if cancelled frames then .ok (({ out with error := some .cancelled }, frames), s)
      else
        match nextBody s with
        | .error h => .error h
        | .ok (none, s) => .ok (({ out with error := some .io }, frames), s)
        | .ok (some payload, s) =>
            let out := out.absorb payload
            if resultOf payload = 1 then downloadLoop cancelled turns (frames + 1) s out
            else .ok ((out.finish payload, frames + 1), s)

/-- A body behind the first one is not complete without a further read. -/
def maxTurns (s : Session) : Nat := s.reads.length + 2

/-- The session that has sent the request, or the outcome where it comes to none. -/
def sendDownload (seq : UInt32) (req : DownloadRequest) (s : Session) :
    Except Halt (Except (DownloadOutcome × Session) Session) :=
  if req.path = [] then .ok (.error ({ error := some .missingPath }, s))
  else
    (drainStaleWireJson s).map fun s =>
      match sendAbiJson s (buildFileDownloadAbi seq req.path 0 req.targetPath) with
      | (false, s) => .error ({ error := some .io }, s)
      | (true, s) => .ok s

/-- The outcome with the number of bodies it took. -/
def runDownload (seq : UInt32) (req : DownloadRequest) (cancelled : Nat → Bool) (s : Session) :
    Except Halt ((DownloadOutcome × Nat) × Session) :=
  match sendDownload seq req s with
  | .error h => .error h
  | .ok (.error (out, s)) => .ok ((out, 0), s)
  | .ok (.ok s) => downloadLoop cancelled (maxTurns s) 0 s {}

structure AbilityOutcome where
  ok : Bool := false
  error : Option Error := none
  jsonBody : Bytes := []
  deriving DecidableEq, Repr

/-- The answer read out of a body. -/
def abilityAnswer (payload : Bytes) : AbilityOutcome :=
  let body := parseAbilityReplyToFtJson (wireParts payload).1
  if body = [] then { error := some .badAbilityReply } else { ok := true, jsonBody := body }

def sendAbility (seq : UInt32) (s : Session) : Except (AbilityOutcome × Session) Session :=
  match sendAbiJson s (buildMediaAbilityAbi seq) with
  | (false, s) => .error ({ error := some .io }, s)
  | (true, s) => .ok s

def runAbility (seq : UInt32) (s : Session) : Except Halt ((AbilityOutcome × Nat) × Session) :=
  match sendAbility seq s with
  | .error (out, s) => .ok ((out, 0), s)
  | .ok s =>
      match nextBody s with
      | .error h => .error h
      | .ok (none, s) => .ok (({ error := some .io }, 0), s)
      | .ok (some payload, s) => .ok ((abilityAnswer payload, 1), s)

/-- A connection; it has a session while it is connected. -/
structure Connection where
  session : Option Session
  wireSeq : UInt32

/-- Run an operation with the next sequence number. -/
def Connection.withSeq {α : Type} (c : Connection) (notConnected : α)
    (run : UInt32 → Session → Except Halt (α × Session)) : Except Halt (α × Connection) :=
  match c.session with
  | none => .ok (notConnected, c)
  | some s => (run c.wireSeq s).map fun r => (r.1, { session := some r.2, wireSeq := c.wireSeq + 1 })

def Connection.download (c : Connection) (req : DownloadRequest) (cancelled : Nat → Bool) :
    Except Halt ((DownloadOutcome × Nat) × Connection) :=
  c.withSeq ({ error := some .notConnected }, 0) fun seq => runDownload seq req cancelled

def Connection.queryMediaAbility (c : Connection) : Except Halt ((AbilityOutcome × Nat) × Connection) :=
  c.withSeq ({ error := some .notConnected }, 0) runAbility

/-! ## The loops over a list of bodies -/

/-- The download loop on bodies that are given beforehand. -/
def downloadOver (fate : Fate) : List Bytes → Nat → DownloadOutcome → Except Halt (DownloadOutcome × Nat)
  | [], frames, out =>
      match fate with
      | .cancelled => .ok ({ out with error := some .cancelled }, frames)
      | .failed => .ok ({ out with error := some .io }, frames)
      | .halted h => .error h
  | payload :: rest, frames, out =>
      let out := out.absorb payload
      if resultOf payload = 1 then downloadOver fate rest (frames + 1) out
      else .ok (out.finish payload, frames + 1)

def abilityOver (fate : Fate) : List Bytes → Except Halt (AbilityOutcome × Nat)
  | [] =>
      match fate with
      | .halted h => .error h
      | _ => .ok ({ error := some .io }, 0)
  | payload :: _ => .ok (abilityAnswer payload, 1)

/-- The loop depends on the session only through the bodies it delivers. -/
theorem downloadLoop_over (cancelled : Nat → Bool) (turns frames : Nat) (s : Session)
    (out : DownloadOutcome) :
    (downloadLoop cancelled turns frames s out).map Prod.fst =
      downloadOver (deliveries cancelled turns frames s).2 (deliveries cancelled turns frames s).1
        frames out := by
  induction turns generalizing frames s out with
  | zero => rfl
  | succ turns ih =>
      rw [downloadLoop, deliveries]
      split_ifs with hc
      · rfl
      · cases hn : nextBody s with
        | error h => rfl
        | ok p =>
            obtain ⟨body, s'⟩ := p
            cases body with
            | none => rfl
            | some body =>
                simp only [downloadOver]
                split_ifs
                · exact ih _ _ _
                · rfl

/-! ## Runs of bodies that all go on -/

/-- All the bodies go on. -/
theorem downloadOver_going (fate : Fate) {going : List Bytes} (rest : List Bytes)
    (h : ∀ p ∈ going, resultOf p = 1) (frames : Nat) (out : DownloadOutcome) :
    downloadOver fate (going ++ rest) frames out =
      downloadOver fate rest (frames + going.length)
        { out with
          wireResult := if going = [] then out.wireResult else 1
          data := out.data ++ going.flatMap contribution } := by
  induction going generalizing frames out with
  | nil => simp
  | cons p going ih =>
      have hp := h p List.mem_cons_self
      rw [List.cons_append, downloadOver, if_pos hp, ih fun q hq => h q (List.mem_cons_of_mem _ hq)]
      simp only [DownloadOutcome.absorb, hp, List.length_cons, List.flatMap_cons, List.append_assoc,
        if_neg (List.cons_ne_nil p going), ite_self]
      congr 1
      omega

/-- A body that ends the loop counts; one that ends without a body has failed or was stopped. -/
theorem downloadOver_count {fate : Fate} {bodies : List Bytes} {frames frames' : Nat}
    {out out' : DownloadOutcome} (h : downloadOver fate bodies frames out = .ok (out', frames')) :
    frames ≤ frames' ∧
      (frames' = frames → out'.error = some .cancelled ∨ out'.error = some .io) := by
  induction bodies generalizing frames out with
  | nil =>
      cases fate with
      | cancelled =>
          obtain ⟨rfl, rfl⟩ := Prod.mk.inj (Except.ok.inj h)
          exact ⟨Nat.le_refl _, fun _ => Or.inl rfl⟩
      | failed =>
          obtain ⟨rfl, rfl⟩ := Prod.mk.inj (Except.ok.inj h)
          exact ⟨Nat.le_refl _, fun _ => Or.inr rfl⟩
      | halted e => exact absurd h (by simp [downloadOver])
  | cons p rest ih =>
      simp only [downloadOver] at h
      split_ifs at h
      · obtain ⟨hle, _⟩ := ih h
        exact ⟨by omega, fun heq => by omega⟩
      · obtain ⟨_, rfl⟩ := Prod.mk.inj (Except.ok.inj h)
        exact ⟨by omega, fun heq => by omega⟩

theorem finish_error (out : DownloadOutcome) (p : Bytes) (h : out.error = none) :
    (out.finish p).error ≠ some .cancelled ∧ (out.finish p).error ≠ some .io := by
  unfold DownloadOutcome.finish
  split_ifs <;> simp [h]

/-- Leaving out some of the parts leaves the whole as it is exactly when they are empty. -/
theorem flatMap_filter_iff {α β : Type} (own : α → Bool) (g : α → List β) (l : List α) :
    l.flatMap g = (l.filter own).flatMap g ↔ ∀ a ∈ l, own a = false → g a = [] := by
  have hle : ∀ l : List α, ((l.filter own).flatMap g).length ≤ (l.flatMap g).length := by
    intro l
    induction l with
    | nil => simp
    | cons a l ih =>
        rw [List.filter_cons]
        split_ifs <;> simp only [List.flatMap_cons, List.length_append] <;> omega
  induction l with
  | nil => simp
  | cons a l ih =>
      rw [List.filter_cons, List.forall_mem_cons]
      split_ifs with ha
      · rw [List.flatMap_cons, List.flatMap_cons]
        refine (List.append_right_inj _).trans (ih.trans ?_)
        simp [ha]
      · constructor
        · intro h
          have hlen := congrArg List.length h
          rw [List.flatMap_cons, List.length_append] at hlen
          have hnil : g a = [] := List.length_eq_zero_iff.mp (by have := hle l; omega)
          rw [List.flatMap_cons, hnil, List.nil_append] at h
          exact ⟨fun _ => hnil, ih.mp h⟩
        · rintro ⟨hnil, hrest⟩
          rw [List.flatMap_cons, hnil (by simpa using ha), List.nil_append]
          exact ih.mpr hrest

/-! ## Own and foreign bodies -/

/-- A call returned what it returns on the own bodies alone, and took as many of these. -/
def AsIfAlone {α : Type} (own : Bytes → Bool) (bodies : List Bytes)
    (run alone : Except Halt (α × Nat)) : Prop :=
  run.map (fun r => (r.1, (bodies.take r.2).countP own)) = alone

/-- An own body ends the operation. -/
def Ends (own : Bytes → Bool) (p : Bytes) : Bool := own p && resultOf p ≠ 1

/-- The bodies in front of the first own one that ends the operation. -/
def awaited (own : Bytes → Bool) (bodies : List Bytes) : List Bytes :=
  bodies.takeWhile fun p => !Ends own p

/-- The operation returns even if no body ends it. -/
def Fate.Returns : Fate → Prop
  | .halted _ => False
  | _ => True

/-- Every foreign body in front of the end is a bare sign to go on. One leaves a trace in
`wire_result` where the operation fails or is stopped without an own body. -/
structure Undisturbed (own : Bytes → Bool) (fate : Fate) (bodies : List Bytes) : Prop where
  goesOn : ∀ p ∈ awaited own bodies, own p = false → resultOf p = 1
  noData : (bodies.any (Ends own) = true ∨ fate.Returns) →
    ∀ p ∈ awaited own bodies, own p = false → contribution p = []
  noTrace : bodies.any (Ends own) = false → fate.Returns →
    (∃ p ∈ bodies, own p = true) ∨ ∀ p ∈ bodies, own p = true

theorem resultOf_awaited {own : Bytes → Bool} {bodies : List Bytes} {p : Bytes}
    (h : p ∈ awaited own bodies) (ho : own p = true) : resultOf p = 1 := by
  have hp := List.mem_takeWhile_imp h
  simpa [Ends, ho] using hp

/-- A foreign body that ends the loop shows: fewer own bodies are taken, or the loop would
have failed without it. -/
theorem not_asIfAlone_of_foreign_end {own : Bytes → Bool} {fate : Fate} {going : List Bytes}
    (rest : List Bytes) {p : Bytes} (hgoing : ∀ q ∈ going, resultOf q = 1) (hforeign : own p = false)
    (hend : resultOf p ≠ 1) :
    ¬ AsIfAlone own (going ++ p :: rest) (downloadOver fate (going ++ p :: rest) 0 {})
        (downloadOver fate ((going ++ p :: rest).filter own) 0 {}) := by
  intro h
  have hnot : ¬ own p = true := by simp [hforeign]
  rw [AsIfAlone, downloadOver_going _ _ hgoing, List.filter_append, List.filter_cons, if_neg hnot,
    downloadOver_going _ _ fun q hq => hgoing q (List.mem_of_mem_filter hq)] at h
  simp only [downloadOver, if_neg hend, Except.map, Nat.zero_add] at h
  obtain ⟨_, hsame⟩ := downloadOver_count h.symm
  have htake : (going ++ p :: rest).take (going.length + 1) = going ++ [p] := by
    rw [List.take_append, List.take_of_length_le (by omega), Nat.add_sub_cancel_left,
      List.take_succ_cons, List.take_zero]
  rw [htake, List.countP_append, List.countP_singleton, hforeign, List.countP_eq_length_filter] at hsame
  have herr := finish_error ((DownloadOutcome.absorb
    { wireResult := if going = [] then 0 else 1, data := [] ++ going.flatMap contribution } p)) p rfl
  rcases hsame rfl with he | he
  · exact herr.1 he
  · exact herr.2 he

/-- The bodies up to the end, and the own one that ends the operation, if there is one. -/
theorem split_awaited (own : Bytes → Bool) (bodies : List Bytes) :
    (awaited own bodies = bodies ∧ bodies.any (Ends own) = false) ∨
      ∃ p rest, bodies = awaited own bodies ++ p :: rest ∧ Ends own p = true ∧
        bodies.any (Ends own) = true := by
  have hsplit : awaited own bodies ++ bodies.dropWhile (fun p => !Ends own p) = bodies :=
    List.takeWhile_append_dropWhile
  cases hd : bodies.dropWhile fun p => !Ends own p with
  | nil =>
      rw [hd, List.append_nil] at hsplit
      refine Or.inl ⟨hsplit, ?_⟩
      rw [List.any_eq_false]
      intro p hp
      rw [← hsplit] at hp
      simpa using List.mem_takeWhile_imp hp
  | cons p rest =>
      have hp := List.head_dropWhile_not (fun p => !Ends own p) (l := bodies) (by rw [hd]; simp)
      simp only [hd, List.head_cons, Bool.not_eq_false'] at hp
      rw [hd] at hsplit
      refine Or.inr ⟨p, rest, hsplit.symm, hp, List.any_eq_true.mpr ⟨p, ?_, hp⟩⟩
      rw [← hsplit]
      simp

/-- The body that ends a download hides what `wire_result` was, not the data. -/
theorem finish_absorb_iff (w w' : Int) (d d' : Bytes) (p : Bytes) :
    (DownloadOutcome.absorb { wireResult := w, data := d } p).finish p =
        (DownloadOutcome.absorb { wireResult := w', data := d' } p).finish p ↔ d = d' := by
  unfold DownloadOutcome.finish DownloadOutcome.absorb
  split_ifs <;> simp

theorem trace_iff {own : Bytes → Bool} {bodies : List Bytes} :
    ((if bodies = [] then (0 : Int) else 1) = if bodies.filter own = [] then 0 else 1) ↔
      (∃ p ∈ bodies, own p = true) ∨ ∀ p ∈ bodies, own p = true := by
  cases bodies with
  | nil => simp
  | cons p rest =>
      rw [if_neg (List.cons_ne_nil p rest)]
      split_ifs with hf
      · have hnone := List.filter_eq_nil_iff.mp hf
        refine iff_of_false (by decide) ?_
        rintro (⟨q, hq, ho⟩ | hall)
        · exact hnone q hq ho
        · exact hnone p List.mem_cons_self (hall p List.mem_cons_self)
      · obtain ⟨q, hq⟩ := List.exists_mem_of_ne_nil _ hf
        exact iff_of_true rfl (Or.inl ⟨q, List.mem_of_mem_filter hq, List.of_mem_filter hq⟩)

/-- If the foreign bodies in front of the end go on, what is left to show are their bytes and,
where no own body ends the operation, the trace in `wire_result`. -/
theorem asIfAlone_going_iff {own : Bytes → Bool} {fate : Fate} {bodies : List Bytes}
    (hgoing : ∀ p ∈ awaited own bodies, resultOf p = 1) :
    AsIfAlone own bodies (downloadOver fate bodies 0 {}) (downloadOver fate (bodies.filter own) 0 {}) ↔
      ((bodies.any (Ends own) = true ∨ fate.Returns) →
          ∀ p ∈ awaited own bodies, own p = false → contribution p = []) ∧
        (bodies.any (Ends own) = false → fate.Returns →
          (∃ p ∈ bodies, own p = true) ∨ ∀ p ∈ bodies, own p = true) := by
  have hown : ∀ p ∈ (awaited own bodies).filter own, resultOf p = 1 := fun p hp =>
    hgoing p (List.mem_of_mem_filter hp)
  rw [← flatMap_filter_iff own contribution (awaited own bodies)]
  rcases split_awaited own bodies with ⟨hall, hnone⟩ | ⟨p, rest, hsplit, hends, hany⟩
  · rw [hall] at hgoing hown ⊢
    have hrun := downloadOver_going fate [] hgoing 0 {}
    have halone := downloadOver_going fate [] hown 0 {}
    rw [List.append_nil] at hrun halone
    rw [AsIfAlone, hrun, halone, hnone, ← trace_iff]
    cases fate with
    | halted h => simp [downloadOver, Except.map, Fate.Returns]
    | cancelled =>
        simp only [downloadOver, Except.map, Fate.Returns, Nat.zero_add, List.take_length,
          List.countP_eq_length_filter]
        simp [and_comm]
    | failed =>
        simp only [downloadOver, Except.map, Fate.Returns, Nat.zero_add, List.take_length,
          List.countP_eq_length_filter]
        simp [and_comm]
  · rw [hany]
    generalize awaited own bodies = going at *
    subst hsplit
    have hp : own p = true ∧ resultOf p ≠ 1 := by simpa [Ends] using hends
    have htake : (going ++ p :: rest).take (going.length + 1) = going ++ [p] := by
      rw [List.take_append, List.take_of_length_le (by omega), Nat.add_sub_cancel_left,
        List.take_succ_cons, List.take_zero]
    have hcount : (going ++ [p]).countP own = (going.filter own).length + 1 := by
      rw [List.countP_append, List.countP_singleton, if_pos hp.1, List.countP_eq_length_filter]
    rw [AsIfAlone, downloadOver_going _ _ hgoing, List.filter_append, List.filter_cons, if_pos hp.1,
      downloadOver_going _ _ hown]
    simp only [downloadOver, if_neg hp.2, Except.map, Nat.zero_add, htake, hcount, Except.ok.injEq,
      Prod.mk.injEq, finish_absorb_iff]
    simp

/-- With a list of bodies given, a download is as if alone exactly when it is undisturbed. -/
theorem downloadOver_alone_iff (own : Bytes → Bool) (fate : Fate) (bodies : List Bytes) :
    AsIfAlone own bodies (downloadOver fate bodies 0 {}) (downloadOver fate (bodies.filter own) 0 {}) ↔
      Undisturbed own fate bodies := by
  by_cases hgoing : ∀ p ∈ awaited own bodies, resultOf p = 1
  · rw [asIfAlone_going_iff hgoing]
    exact ⟨fun ⟨hd, ht⟩ => ⟨fun p hp _ => hgoing p hp, hd, ht⟩, fun h => ⟨h.noData, h.noTrace⟩⟩
  · -- the first body that does not go on is a foreign one
    have hfirst : ∃ going p rest, bodies = going ++ p :: rest ∧ p ∈ awaited own bodies ∧
        (∀ q ∈ going, resultOf q = 1) ∧ resultOf p ≠ 1 := by
      cases hf : (awaited own bodies).find? fun p => resultOf p ≠ 1 with
      | none => exact absurd (by simpa using List.find?_eq_none.mp hf) hgoing
      | some p =>
          obtain ⟨hp, going, rest, hsplit, hq⟩ := List.find?_eq_some_iff_append.mp hf
          obtain ⟨tail, htail⟩ := List.takeWhile_prefix (fun p => !Ends own p) (l := bodies)
          have hbodies : awaited own bodies ++ tail = bodies := htail
          rw [hsplit, List.append_assoc] at hbodies
          exact ⟨going, p, rest ++ tail, hbodies.symm, by rw [hsplit]; simp, by simpa using hq,
            by simpa using hp⟩
    obtain ⟨going, p, rest, hsplit, hmem, hq, hp⟩ := hfirst
    have hforeign : own p = false := Bool.eq_false_iff.mpr fun ho => hp (resultOf_awaited hmem ho)
    refine iff_of_false ?_ fun h => hp (h.goesOn p hmem hforeign)
    rw [hsplit]
    exact not_asIfAlone_of_foreign_end _ hq hforeign hp

theorem abilityOver_alone_iff (own : Bytes → Bool) (fate : Fate) (bodies : List Bytes) :
    AsIfAlone own bodies (abilityOver fate bodies) (abilityOver fate (bodies.filter own)) ↔
      ∀ p ∈ bodies.head?, own p = true := by
  cases bodies with
  | nil =>
      refine iff_of_true ?_ (by simp)
      cases fate <;> rfl
  | cons p rest =>
      have hanswer : (abilityAnswer p).error ≠ some .io := by
        unfold abilityAnswer
        simp only
        split_ifs <;> simp
      rw [List.filter_cons]
      split_ifs with hp
      · simp [AsIfAlone, abilityOver, Except.map, hp]
      · refine iff_of_false (fun h => ?_) (by simpa using hp)
        simp only [AsIfAlone, abilityOver, Except.map, List.take_succ_cons, List.take_zero,
          List.countP_singleton, if_neg hp] at h
        -- without the foreign body there is an own one to take, or the query fails
        cases hf : rest.filter own with
        | nil =>
            rw [hf] at h
            cases fate with
            | halted e => exact absurd h (by simp)
            | cancelled => exact hanswer (congrArg (·.1.error) (Except.ok.inj h))
            | failed => exact hanswer (congrArg (·.1.error) (Except.ok.inj h))
        | cons q more =>
            rw [hf] at h
            exact absurd (congrArg (·.2) (Except.ok.inj h)) (by simp)

/-! ## The operations of a connection -/

/-- A body that answers a request. -/
def ownBody (cmdtype : Nat) (sequence : UInt32) (payload : Bytes) : Bool :=
  answers cmdtype sequence (wireParts payload).1

/-- The session that has sent the request of a download. -/
def Connection.downloadSent (c : Connection) (req : DownloadRequest) (s : Session) : Prop :=
  ∃ s₀, c.session = some s₀ ∧ sendDownload c.wireSeq req s₀ = .ok (.ok s)

def Connection.abilitySent (c : Connection) (s : Session) : Prop :=
  ∃ s₀, c.session = some s₀ ∧ sendAbility c.wireSeq s₀ = .ok s

/-- What `download` returns depends on the replies to its request alone. -/
def Connection.DownloadOwn (c : Connection) (req : DownloadRequest) (cancelled : Nat → Bool) : Prop :=
  ∀ s, c.downloadSent req s →
    let own := ownBody kCmdFileDownload c.wireSeq
    let d := deliveries cancelled (maxTurns s) 0 s
    AsIfAlone own d.1 ((c.download req cancelled).map Prod.fst) (downloadOver d.2 (d.1.filter own) 0 {})

/-- What `query_media_ability` returns depends on the replies to its request alone. -/
def Connection.AbilityOwn (c : Connection) : Prop :=
  ∀ s, c.abilitySent s →
    let own := ownBody kCmdMediaAbility c.wireSeq
    let d := deliveries (fun _ => false) (maxTurns s) 0 s
    AsIfAlone own d.1 (c.queryMediaAbility.map Prod.fst) (abilityOver d.2 (d.1.filter own))

theorem download_over {c : Connection} {req : DownloadRequest} {s : Session}
    (h : c.downloadSent req s) (cancelled : Nat → Bool) :
    (c.download req cancelled).map Prod.fst =
      downloadOver (deliveries cancelled (maxTurns s) 0 s).2 (deliveries cancelled (maxTurns s) 0 s).1
        0 {} := by
  obtain ⟨s₀, hc, hsend⟩ := h
  rw [← downloadLoop_over]
  simp only [Connection.download, Connection.withSeq, hc, runDownload, hsend]
  cases downloadLoop cancelled (maxTurns s) 0 s {} <;> rfl

theorem ability_over {c : Connection} {s : Session} (h : c.abilitySent s) :
    c.queryMediaAbility.map Prod.fst =
      abilityOver (deliveries (fun _ => false) (maxTurns s) 0 s).2
        (deliveries (fun _ => false) (maxTurns s) 0 s).1 := by
  obtain ⟨s₀, hc, hsend⟩ := h
  simp only [Connection.queryMediaAbility, Connection.withSeq, hc, runAbility, hsend, maxTurns,
    deliveries, Bool.false_eq_true, if_false]
  cases nextBody s with
  | error h => rfl
  | ok p =>
      obtain ⟨body, s'⟩ := p
      cases body <;> rfl

/-- A download depends on the replies to its own request alone exactly when the others are bare
signs to go on, and an ability query exactly when the first body is its own. -/
theorem own_replies_only_iff (c : Connection) (req : DownloadRequest) (cancelled : Nat → Bool) :
    (c.DownloadOwn req cancelled ↔ ∀ s, c.downloadSent req s →
      let d := deliveries cancelled (maxTurns s) 0 s
      Undisturbed (ownBody kCmdFileDownload c.wireSeq) d.2 d.1) ∧
    (c.AbilityOwn ↔ ∀ s, c.abilitySent s →
      let d := deliveries (fun _ => false) (maxTurns s) 0 s
      ∀ p ∈ d.1.head?, ownBody kCmdMediaAbility c.wireSeq p = true) := by
  constructor
  · refine forall₂_congr fun s hs => ?_
    simp only [download_over hs]
    exact downloadOver_alone_iff _ _ _
  · refine forall₂_congr fun s hs => ?_
    simp only [ability_over hs]
    exact abilityOver_alone_iff _ _ _

/-- `{"cmdtype":7,"result":0,"sequence":1}`, a late answer to the request with sequence 1. -/
def lateReply : Frame where
  magic := kMagicCtrlServer
  seq := 7
  payload := ascii "\x7b\"cmdtype\":7,\"result\":0,\"sequence\":1\x7d"
  fits := by decide

/-- A session that will read it and then nothing. -/
def lateSession (seq : UInt32) (writes : List (Option Nat)) (sent : Bytes) : Session where
  seq := seq
  phase := .ready
  recvBuf := []
  reads := [.bytes ⟨lateReply.encode, by decide, by decide⟩]
  writes := writes
  sent := sent

def lateConnection : Connection where
  session := some (lateSession 3 [] [])
  wireSeq := 2

theorem deliveries_late (seq : UInt32) (ws : List (Option Nat)) (sent : Bytes) :
    deliveries (fun _ => false) 3 0 (lateSession seq ws sent) = ([lateReply.payload], .halted .blocked) :=
  rfl

theorem lateSession_sends (abi : Bytes) :
    ∃ ws sent, sendAbiJson (lateSession 3 [] []) abi = (true, lateSession 4 ws sent) := by
  obtain ⟨ws, _, hsend⟩ := sendFrame_ok (s := lateSession 3 [] []) (by simp [lateSession])
    kMagicCtrlClient (wrapCtrlAbi abi)
  exact ⟨ws, _, hsend⟩

theorem lateReply_members :
    parseWireCmdtype lateReply.payload = 7 ∧ parseWireResult lateReply.payload = 0 ∧
      parseWireSequence lateReply.payload = 1 := by
  have hp := parse_integers
    (o := [(ascii "cmdtype", 7), (ascii "result", 0), (ascii "sequence", 1)]) (by decide) (by decide)
  exact ⟨wireMember_integers hp (by decide +kernel) rfl (by decide),
    wireMember_integers hp (by decide +kernel) rfl (by decide),
    wireMember_integers hp (by decide +kernel) rfl (by decide)⟩

theorem lateReply_foreign :
    ownBody kCmdFileDownload 2 lateReply.payload = false ∧
      ownBody kCmdMediaAbility 2 lateReply.payload = false ∧ resultOf lateReply.payload = 0 := by
  obtain ⟨hc, hr, hs⟩ := lateReply_members
  have hparts : wireParts lateReply.payload = (lateReply.payload, []) := by decide
  simp only [ownBody, answers, resultOf, hparts, hc, hr, hs]
  decide

/-- The late answer ends the download as a success without data, and the ability query in
its place. -/
theorem own_replies_only_late :
    ¬ lateConnection.DownloadOwn ⟨ascii "mem:/1", []⟩ (fun _ => false) ∧
      ¬ lateConnection.AbilityOwn := by
  obtain ⟨hdown, hability, hresult⟩ := lateReply_foreign
  constructor
  · obtain ⟨ws, sent, hsend⟩ := lateSession_sends (buildFileDownloadAbi 2 (ascii "mem:/1") 0 [])
    have hs : lateConnection.downloadSent ⟨ascii "mem:/1", []⟩ (lateSession 4 ws sent) := by
      refine ⟨_, rfl, ?_⟩
      have hdrain : drainStaleWireJson (lateSession 3 [] []) = .ok (lateSession 3 [] []) := rfl
      rw [sendDownload, if_neg (by decide), hdrain]
      change Except.ok _ = _
      simp only [lateConnection, hsend]
    intro h
    have hall := h _ hs
    rw [download_over hs, show maxTurns (lateSession 4 ws sent) = 3 from rfl, deliveries_late] at hall
    have hnone : ∀ q ∈ ([] : List Bytes), resultOf q = 1 := by simp
    exact not_asIfAlone_of_foreign_end [] hnone hdown (by rw [hresult]; decide) hall
  · obtain ⟨ws, sent, hsend⟩ := lateSession_sends (buildMediaAbilityAbi 2)
    have hs : lateConnection.abilitySent (lateSession 4 ws sent) :=
      ⟨_, rfl, by simp only [sendAbility, lateConnection, hsend]⟩
    intro h
    have hall := h _ hs
    rw [ability_over hs, show maxTurns (lateSession 4 ws sent) = 3 from rfl, deliveries_late] at hall
    have hfirst := (abilityOver_alone_iff _ _ _).mp hall lateReply.payload rfl
    exact absurd (hability.symm.trans hfirst) (by decide)

end OpenBambu.Upload
