import OpenBambu.Upload.Chunked

/-!
# Which reply is taken, and what it costs

`recv_wire_json` goes through everything that is pending, then through what `recv_payload` delivers,
until a reply is its own. The pending messages stand in a vector, and `recv_payload` returns the first
of the frames a read completes: what comes with the reply, behind it, is gone afterwards, and so is a
reply that comes behind another one. `keepsOrder_iff` says when nothing of the kind happens.
-/

namespace OpenBambu.Upload

open OpenBambu.Foundation OpenBambu.Json OpenBambu.Tunnel

/-- The pieces that come before the connection ends. -/
def arriving : List Read → List Bytes
  | [] => []
  | .bytes c :: reads => c.bytes :: arriving reads
  | .wantRead :: reads => arriving reads
  | .closed :: _ => []

/-- The frames in the receive buffer. -/
def buffered (s : Session) : List Frame := (exactCodec.drain s.recvBuf).1

/-- The frames each read completes. -/
def completed (s : Session) : List (List Frame) :=
  (exactCodec.feed (exactCodec.drain s.recvBuf).2 (arriving s.reads)).1

/-- The replies of a session in the order of their arrival. -/
def replies (s : Session) : List Frame := buffered s ++ (completed s).flatten

/-- The bytes they come in. -/
def stream (s : Session) : Bytes := s.recvBuf ++ (arriving s.reads).flatten

section Order

variable (cmdtype : Nat) (sequence : UInt32)

def matchesRequest (f : Frame) : Bool := accepts cmdtype sequence (wireText f.payload)

/-- `f` is the first reply to the request, `pre` came before it and `post` comes behind. -/
structure FirstReply (s : Session) (pre : List Frame) (f : Frame) (post : List Frame) : Prop where
  order : replies s = pre ++ f :: post
  skipped : ∀ g ∈ pre, matchesRequest cmdtype sequence g = false
  own : matchesRequest cmdtype sequence f = true

/-- The first reply to the request is taken, and the ones behind it are still there. -/
def KeepsOrder (s : Session) : Prop :=
  ∀ pre f post, FirstReply cmdtype sequence s pre f post →
    ∃ s', recvWireJson cmdtype sequence s = .ok (some (wireText f.payload), s') ∧ replies s' = post

end Order

/-- A read completes `f` and no other frame, and fewer than `skips` reads before it completed any. -/
def Alone (skips : Nat) (live : List (List Frame)) (pre : List Frame) (f : Frame) : Prop :=
  ∃ before after, live = before ++ [f] :: after ∧ pre = before.flatten ∧
    (before.filter (· ≠ [])).length < skips

/-- `f` is the last frame of the receive buffer, or it comes alone. -/
def InOrder (s : Session) (pre : List Frame) (f : Frame) : Prop :=
  buffered s = pre ++ [f] ∨ ∃ later, pre = buffered s ++ later ∧ Alone 32 (completed s) later f

theorem accepts_nil (cmdtype : Nat) (sequence : UInt32) : accepts cmdtype sequence [] = false := by
  have hparse : parse [] = .error "unexpected EOF" := rfl
  have hcmd : parseWireCmdtype [] = -1 := by rw [parseWireCmdtype, wireMember, hparse]
  have hne : ¬ (-1 : Int) = cmdtype := by omega
  rw [accepts, hcmd, decide_eq_false hne, Bool.false_and]

/-- Where an element of two lists in a row stands. -/
theorem append_cons_cases {a b c d : List Frame} {x : Frame} (h : a ++ b = c ++ x :: d) :
    (∃ later, c = a ++ later ∧ b = later ++ x :: d) ∨ ∃ mid, a = c ++ x :: mid ∧ d = mid ++ b := by
  rcases List.append_eq_append_iff.mp h with ⟨later, rfl, hb⟩ | ⟨mid, ha, hd⟩
  · exact Or.inl ⟨later, rfl, hb⟩
  · cases mid with
    | nil => exact Or.inl ⟨[], by simpa using ha.symm, by simpa using hd.symm⟩
    | cons y mid =>
        obtain ⟨rfl, htail⟩ := List.cons.inj hd
        exact Or.inr ⟨mid, ha, htail⟩

/-! ## Alone among the reads -/

theorem not_alone_zero (live : List (List Frame)) (pre : List Frame) (f : Frame) : ¬ Alone 0 live pre f := by
  rintro ⟨before, after, -, -, hlen⟩
  exact absurd hlen (Nat.not_lt_zero _)

theorem alone_nil {skips : Nat} {live : List (List Frame)} {pre : List Frame} {f : Frame} :
    Alone skips ([] :: live) pre f ↔ Alone skips live pre f := by
  constructor
  · rintro ⟨before, after, hlive, rfl, hlen⟩
    cases before with
    | nil => exact absurd (List.cons.inj hlive).1 (by simp)
    | cons g before =>
        obtain ⟨rfl, rfl⟩ := List.cons.inj hlive
        exact ⟨before, after, rfl, rfl, by simpa using hlen⟩
  · rintro ⟨before, after, rfl, rfl, hlen⟩
    exact ⟨[] :: before, after, rfl, rfl, by simpa using hlen⟩

theorem alone_head {skips : Nat} {live : List (List Frame)} {f : Frame} {more : List Frame} :
    Alone (skips + 1) ((f :: more) :: live) [] f ↔ more = [] := by
  constructor
  · rintro ⟨before, after, hlive, hpre, -⟩
    cases before with
    | nil => exact (List.cons.inj (List.cons.inj hlive).1).2
    | cons g before =>
        obtain ⟨rfl, -⟩ := List.cons.inj hlive
        exact absurd hpre (by simp)
  · rintro rfl
    exact ⟨[], live, rfl, rfl, by simp⟩

theorem alone_behind {skips : Nat} {live : List (List Frame)} {g : Frame} {more pre : List Frame}
    {f : Frame} : Alone (skips + 1) ((g :: more) :: live) (g :: more ++ pre) f ↔ Alone skips live pre f := by
  constructor
  · rintro ⟨before, after, hlive, hpre, hlen⟩
    cases before with
    | nil => exact absurd hpre (by simp)
    | cons h before =>
        obtain ⟨rfl, rfl⟩ := List.cons.inj hlive
        refine ⟨before, after, rfl, List.append_cancel_left hpre, ?_⟩
        rw [List.filter_cons_of_pos (by simp), List.length_cons] at hlen
        omega
  · rintro ⟨before, after, rfl, rfl, hlen⟩
    refine ⟨(g :: more) :: before, after, rfl, rfl, ?_⟩
    rw [List.filter_cons_of_pos (by simp), List.length_cons]
    omega

/-- With `f` among the frames behind the first one of a read it does not come alone. -/
theorem not_alone_inside {skips : Nat} {live : List (List Frame)} {g f : Frame} {mid more pre : List Frame}
    (hpre : pre = g :: mid) : ¬ Alone skips ((g :: mid ++ f :: more) :: live) pre f := by
  rintro ⟨before, after, hlive, hflat, -⟩
  cases before with
  | nil => exact absurd (hpre.symm.trans hflat) (by simp)
  | cons h before =>
      obtain ⟨rfl, -⟩ := List.cons.inj hlive
      have hlen := congrArg List.length (hpre.symm.trans hflat)
      simp only [List.length_cons, List.flatten_cons, List.length_append] at hlen
      omega

/-! ## The next read that completes a frame -/

/-- No frame is waiting in the buffer, and no header wraps in what comes. -/
structure Waiting (s : Session) : Prop where
  settled : exactCodec.Settled s.recvBuf
  sound : NoWrappedHeader (stream s)

theorem Waiting.buffered {s : Session} (h : Waiting s) : Upload.buffered s = [] := by
  rw [Upload.buffered, Framing.drain_of_settled h.settled]

theorem Waiting.completed {s : Session} (h : Waiting s) :
    Upload.completed s = (exactCodec.feed s.recvBuf (arriving s.reads)).1 := by
  rw [Upload.completed, Framing.drain_of_settled h.settled]

theorem Waiting.replies {s : Session} (h : Waiting s) :
    Upload.replies s = (exactCodec.feed s.recvBuf (arriving s.reads)).1.flatten := by
  rw [Upload.replies, h.buffered, h.completed, List.nil_append]

/-- The session behind a read of a piece, with its frames taken off. -/
def behindPiece (s : Session) (c : Chunk) (reads : List Read) : Session :=
  { s with recvBuf := (exactCodec.drain (s.recvBuf ++ c.bytes)).2, reads := reads }

theorem Waiting.piece {s : Session} {c : Chunk} {reads : List Read} (h : Waiting s)
    (hr : s.reads = .bytes c :: reads) : Waiting (behindPiece s c reads) where
  settled := Framing.drain_settles _
  sound := by
    have hsound := h.sound
    rw [stream, hr, arriving, List.flatten_cons, ← List.append_assoc] at hsound
    exact hsound.rest

theorem Waiting.skip {s : Session} {reads : List Read} (h : Waiting s)
    (hr : s.reads = .wantRead :: reads) : Waiting { s with reads := reads } where
  settled := h.settled
  sound := by
    have hsound := h.sound
    rw [stream, hr, arriving] at hsound
    exact hsound

theorem Waiting.completed_piece {s : Session} {c : Chunk} {reads : List Read} (h : Waiting s)
    (hr : s.reads = .bytes c :: reads) :
    Upload.completed s =
      (exactCodec.drain (s.recvBuf ++ c.bytes)).1 :: Upload.completed (behindPiece s c reads) := by
  rw [h.completed, (h.piece hr).completed, hr, arriving, Framing.feed_cons]
  rfl

theorem Waiting.replies_piece {s : Session} {c : Chunk} {reads : List Read} (h : Waiting s)
    (hr : s.reads = .bytes c :: reads) :
    Upload.replies s =
      (exactCodec.drain (s.recvBuf ++ c.bytes)).1 ++ Upload.replies (behindPiece s c reads) := by
  rw [Upload.replies, Upload.replies, h.buffered, (h.piece hr).buffered, h.completed_piece hr,
    List.flatten_cons]
  rfl

theorem completed_skip {s : Session} {reads : List Read} (hr : s.reads = .wantRead :: reads) :
    completed { s with reads := reads } = completed s := by
  rw [completed, completed, hr, arriving]

theorem replies_skip {s : Session} {reads : List Read} (hr : s.reads = .wantRead :: reads) :
    replies { s with reads := reads } = replies s := by
  rw [replies, replies, completed_skip hr]
  rfl

/-- The first group of frames the reads complete, and the buffer and the reads behind it. -/
def nextGroup : Bytes → List Read → Except Halt (Option (List Frame) × Bytes × List Read)
  | _, [] => .error .blocked
  | buf, .closed :: reads => .ok (none, buf, reads)
  | buf, .wantRead :: reads => nextGroup buf reads
  | buf, .bytes c :: reads =>
      let d := exactCodec.drain (buf ++ c.bytes)
      if d.1 = [] then nextGroup d.2 reads else .ok (some d.1, d.2, reads)

/-- What a receive makes of a group: its first body. -/
def delivered (s : Session) (r : Option (List Frame) × Bytes × List Read) : Option Bytes × Session :=
  (r.1.bind fun group => group.head?.map Frame.payload, { s with recvBuf := r.2.1, reads := r.2.2 })

theorem Waiting.takeBodies {s : Session} (h : Waiting s) : takeBodies s.recvBuf = .ok ([], s.recvBuf) := by
  rw [takeBodies_exact h.sound.left, Framing.drain_of_settled h.settled]
  rfl

/-- A receive returns the first frame of the next group. -/
theorem recvBody_nextGroup {s : Session} (h : Waiting s) {fuel : Nat} (hf : s.reads.length < fuel) :
    recvBody fuel s = (nextGroup s.recvBuf s.reads).map (delivered s) := by
  obtain ⟨m, rfl⟩ : ∃ m, fuel = m + 1 := ⟨fuel - 1, by omega⟩
  obtain ⟨seq, phase, buf, reads, writes, sent⟩ := s
  induction reads generalizing buf m with
  | nil =>
      rw [recvBody, recvPayload_wait h.takeBodies]
      rfl
  | cons r rs ih =>
      simp only [List.length_cons] at hf
      cases r with
      | closed =>
          rw [recvBody, recvPayload_wait h.takeBodies]
          rfl
      | wantRead =>
          obtain ⟨k, rfl⟩ : ∃ k, m = k + 1 := ⟨m - 1, by omega⟩
          rw [recvBody, recvPayload_wait h.takeBodies]
          exact ih k buf (h.skip rfl) (by simp only; omega)
      | bytes c =>
          have hsound := h.sound
          rw [stream, arriving, List.flatten_cons, ← List.append_assoc] at hsound
          have hread : recvBody (m + 1) ⟨seq, phase, buf, .bytes c :: rs, writes, sent⟩ =
              recvBody (m + 1) ⟨seq, phase, buf ++ c.bytes, rs, writes, sent⟩ := by
            rw [recvBody, recvPayload_wait h.takeBodies, recvBody]
          rw [hread]
          simp only [nextGroup]
          cases hd : (exactCodec.drain (buf ++ c.bytes)).1 with
          | nil =>
              have hsame := Framing.drain_eq_of_nil hd
              have hsettled := Framing.drain_settles (F := exactCodec.toFraming) (buf ++ c.bytes)
              rw [if_pos rfl]
              rw [hsame] at hsettled ⊢
              exact ih m (buf ++ c.bytes) ⟨hsettled, hsound⟩ (by simp only; omega)
          | cons f more =>
              have htake := takeBodies_exact hsound.left
              rw [hd] at htake
              rw [if_neg (by simp), recvBody, Tunnel.recvPayload, recvLoop_frame htake]
              rfl

theorem recvJsonPayload_nextGroup {s : Session} (h : Waiting s) :
    recvJsonPayload s = (nextGroup s.recvBuf s.reads).map fun r =>
      ((delivered s r).1.map wireText, (delivered s r).2) := by
  have hparts : (fun payload => (wireParts payload).1) = wireText := by
    funext payload
    rw [wireParts, wireText]
    cases splitJsonPrefix payload with
    | none => rfl
    | some p => rfl
  rw [recvJsonPayload, nextBody, recvBody_nextGroup h (by omega), hparts]
  cases nextGroup s.recvBuf s.reads with
  | error e => rfl
  | ok r => rfl

section Loop

variable {cmdtype : Nat} {sequence : UInt32}

/-- A read that brings nothing leaves the loop where it was. -/
theorem recvWireLoop_wantRead {s : Session} {reads : List Read} (h : Waiting s)
    (hr : s.reads = .wantRead :: reads) (skips : Nat) :
    recvWireLoop cmdtype sequence (skips + 1) s =
      recvWireLoop cmdtype sequence (skips + 1) { s with reads := reads } := by
  rw [recvWireLoop, recvWireLoop, recvJsonPayload_nextGroup h, recvJsonPayload_nextGroup (h.skip hr), hr]
  rfl

/-- So does one that completes no frame. -/
theorem recvWireLoop_part {s : Session} {c : Chunk} {reads : List Read} (h : Waiting s)
    (hr : s.reads = .bytes c :: reads) (hd : (exactCodec.drain (s.recvBuf ++ c.bytes)).1 = [])
    (skips : Nat) :
    recvWireLoop cmdtype sequence (skips + 1) s =
      recvWireLoop cmdtype sequence (skips + 1) (behindPiece s c reads) := by
  have hnext : nextGroup s.recvBuf s.reads =
      nextGroup (exactCodec.drain (s.recvBuf ++ c.bytes)).2 reads := by
    rw [hr, nextGroup]
    exact if_pos hd
  rw [recvWireLoop, recvWireLoop, recvJsonPayload_nextGroup h, recvJsonPayload_nextGroup (h.piece hr), hnext]
  rfl

/-- One that completes frames brings the first of them. -/
theorem recvWireLoop_group {s : Session} {c : Chunk} {reads : List Read} {g : Frame} {more : List Frame}
    (h : Waiting s) (hr : s.reads = .bytes c :: reads)
    (hd : (exactCodec.drain (s.recvBuf ++ c.bytes)).1 = g :: more) (skips : Nat) :
    recvWireLoop cmdtype sequence (skips + 1) s =
      if matchesRequest cmdtype sequence g then
        .ok (some (wireText g.payload), behindPiece s c reads)
      else recvWireLoop cmdtype sequence skips (behindPiece s c reads) := by
  have hnext : nextGroup s.recvBuf s.reads =
      .ok (some (g :: more), (exactCodec.drain (s.recvBuf ++ c.bytes)).2, reads) := by
    rw [hr, nextGroup]
    simp only [hd]
    rfl
  rw [recvWireLoop, recvJsonPayload_nextGroup h, hnext]
  rfl

theorem recvWireLoop_zero (s : Session) (json : Bytes) {P : Session → Prop} :
    ¬ ∃ s', recvWireLoop cmdtype sequence 0 s = .ok (some json, s') ∧ P s' := by
  rintro ⟨s', hrun, -⟩
  exact absurd hrun (by simp [recvWireLoop])

/-- A loop that takes a reply has come to a read. -/
theorem recvWireLoop_ended {s : Session} (h : Waiting s) {skips : Nat} {json : Bytes} {s' : Session}
    (hrun : recvWireLoop cmdtype sequence skips s = .ok (some json, s')) :
    ∃ k r reads, skips = k + 1 ∧ s.reads = r :: reads ∧ r ≠ .closed := by
  cases skips with
  | zero => exact absurd hrun (by simp [recvWireLoop])
  | succ k =>
      rw [recvWireLoop, recvJsonPayload_nextGroup h] at hrun
      cases hr : s.reads with
      | nil =>
          rw [hr] at hrun
          exact absurd hrun (by simp [nextGroup, Except.map])
      | cons r reads =>
          refine ⟨k, r, reads, rfl, rfl, ?_⟩
          rintro rfl
          rw [hr] at hrun
          exact absurd hrun (by simp [nextGroup, Except.map, delivered])

/-- A reply that is taken is gone. -/
theorem recvWireLoop_shorter {skips : Nat} {s s' : Session} {json : Bytes} (h : Waiting s)
    (hrun : recvWireLoop cmdtype sequence skips s = .ok (some json, s')) :
    (replies s').length < (replies s).length := by
  generalize hr : s.reads = reads
  induction reads generalizing skips s with
  | nil =>
      obtain ⟨k, r, reads, -, hr', -⟩ := recvWireLoop_ended h hrun
      exact absurd (hr.symm.trans hr') (by simp)
  | cons r reads ih =>
      obtain ⟨k, r', reads', rfl, hr', hopen⟩ := recvWireLoop_ended h hrun
      obtain ⟨rfl, rfl⟩ := List.cons.inj (hr.symm.trans hr')
      cases r with
      | closed => exact absurd rfl hopen
      | wantRead =>
          rw [recvWireLoop_wantRead h hr] at hrun
          rw [← replies_skip hr]
          exact ih (h.skip hr) hrun rfl
      | bytes c =>
          rw [h.replies_piece hr, List.length_append]
          cases hd : (exactCodec.drain (s.recvBuf ++ c.bytes)).1 with
          | nil =>
              rw [recvWireLoop_part h hr hd] at hrun
              have hlt := ih (h.piece hr) hrun rfl
              omega
          | cons g more =>
              rw [recvWireLoop_group h hr hd] at hrun
              rw [List.length_cons]
              split_ifs at hrun
              · obtain ⟨-, rfl⟩ := Prod.mk.inj (Except.ok.inj hrun)
                omega
              · have hlt := ih (h.piece hr) hrun rfl
                omega

/-- The loop takes the first reply to the request and keeps the ones behind it exactly if that reply
comes alone, and in time. -/
theorem recvWireLoop_iff {skips : Nat} {s : Session} {pre : List Frame} {f : Frame} {post : List Frame}
    (h : Waiting s) (hfirst : FirstReply cmdtype sequence s pre f post) :
    (∃ s', recvWireLoop cmdtype sequence skips s = .ok (some (wireText f.payload), s') ∧
      replies s' = post) ↔ Alone skips (completed s) pre f := by
  generalize hr : s.reads = reads
  induction reads generalizing skips s pre with
  | nil =>
      have horder := hfirst.order
      rw [h.replies, hr] at horder
      exact absurd horder (by simp [arriving])
  | cons r reads ih =>
      obtain _ | skips := skips
      · exact iff_of_false (recvWireLoop_zero _ _) (not_alone_zero _ _ _)
      cases r with
      | closed =>
          have horder := hfirst.order
          rw [h.replies, hr] at horder
          exact absurd horder (by simp [arriving])
      | wantRead =>
          rw [recvWireLoop_wantRead h hr, ← completed_skip hr]
          exact ih (h.skip hr) ⟨(replies_skip hr).trans hfirst.order, hfirst.skipped, hfirst.own⟩ rfl
      | bytes c =>
          have horder := hfirst.order
          rw [h.replies_piece hr] at horder
          rw [h.completed_piece hr]
          cases hd : (exactCodec.drain (s.recvBuf ++ c.bytes)).1 with
          | nil =>
              rw [hd, List.nil_append] at horder
              rw [recvWireLoop_part h hr hd, alone_nil]
              exact ih (h.piece hr) ⟨horder, hfirst.skipped, hfirst.own⟩ rfl
          | cons g more =>
              rw [hd] at horder
              rw [recvWireLoop_group h hr hd]
              cases pre with
              | nil =>
                  obtain ⟨rfl, hpost⟩ := List.cons.inj horder
                  rw [if_pos hfirst.own, alone_head]
                  constructor
                  · rintro ⟨s', hrun, hleft⟩
                    obtain ⟨-, rfl⟩ := Prod.mk.inj (Except.ok.inj hrun)
                    rw [hleft] at hpost
                    exact List.append_left_eq_self.mp hpost
                  · rintro rfl
                    exact ⟨_, rfl, hpost⟩
              | cons p pre =>
                  obtain ⟨rfl, hrest⟩ := List.cons.inj horder
                  have hskip := hfirst.skipped g List.mem_cons_self
                  have hskipped : ∀ x ∈ pre, matchesRequest cmdtype sequence x = false := fun x hx =>
                    hfirst.skipped x (List.mem_cons_of_mem _ hx)
                  rw [if_neg (by simp [hskip])]
                  rcases append_cons_cases hrest with ⟨later, rfl, hlater⟩ | ⟨mid, rfl, hmid⟩
                  · -- the frames of this read all come before the reply
                    rw [← List.cons_append, alone_behind]
                    exact ih (h.piece hr)
                      ⟨hlater, fun x hx => hskipped x (List.mem_append_right _ hx), hfirst.own⟩ rfl
                  · -- the reply stands behind the first frame of this read and goes with it
                    refine iff_of_false ?_ (not_alone_inside rfl)
                    rintro ⟨s', hrun, hleft⟩
                    have hlt := recvWireLoop_shorter (h.piece hr) hrun
                    have hlen := congrArg List.length (hleft.trans hmid)
                    rw [List.length_append] at hlen
                    omega

/-! ## What is pending -/

/-- The first pending message that is accepted is that of the first frame that matches. -/
theorem find_pending (fs : List Frame) :
    (fs.filterMap fun f => pendingMessage f.payload).find? (accepts cmdtype sequence) =
      (fs.find? (matchesRequest cmdtype sequence)).map fun f => wireText f.payload := by
  induction fs with
  | nil => rfl
  | cons f fs ih =>
      rw [List.filterMap_cons, List.find?_cons, pendingMessage_eq]
      by_cases hp : f.payload = []
      · have hno : matchesRequest cmdtype sequence f = false := by
          rw [matchesRequest, hp]
          exact accepts_nil cmdtype sequence
        rw [if_pos hp, hno]
        exact ih
      · rw [if_neg hp, List.find?_cons, matchesRequest]
        cases accepts cmdtype sequence (wireText f.payload) with
        | true => rfl
        | false => exact ih

/-- The session behind the pending messages. -/
def behindPending (s : Session) : Session := { s with recvBuf := (exactCodec.drain s.recvBuf).2 }

theorem waiting_behindPending {s : Session} (h : NoWrappedHeader (stream s)) :
    Waiting (behindPending s) where
  settled := Framing.drain_settles _
  sound := NoWrappedHeader.rest h

theorem completed_behindPending {s : Session} (h : NoWrappedHeader (stream s)) :
    completed (behindPending s) = completed s := by
  rw [(waiting_behindPending h).completed]
  rfl

theorem replies_behindPending {s : Session} (h : NoWrappedHeader (stream s)) :
    replies (behindPending s) = (completed s).flatten := by
  rw [replies, (waiting_behindPending h).buffered, completed_behindPending h, List.nil_append]

theorem recvWireJson_eq {s : Session} (h : NoWrappedHeader (stream s)) :
    recvWireJson cmdtype sequence s =
      match (buffered s).find? (matchesRequest cmdtype sequence) with
      | some f => .ok (some (wireText f.payload), behindPending s)
      | none => recvWireLoop cmdtype sequence 32 (behindPending s) := by
  rw [recvWireJson, takePendingWireJson_exact h.left]
  simp only [find_pending, buffered]
  cases (exactCodec.drain s.recvBuf).1.find? (matchesRequest cmdtype sequence) with
  | none => rfl
  | some f => rfl

/-- One reply: it is taken and the ones behind it are kept exactly if it comes in order. -/
theorem recvWireJson_first {s : Session} {pre : List Frame} {f : Frame} {post : List Frame}
    (h : NoWrappedHeader (stream s)) (hfirst : FirstReply cmdtype sequence s pre f post) :
    (∃ s', recvWireJson cmdtype sequence s = .ok (some (wireText f.payload), s') ∧ replies s' = post) ↔
      InOrder s pre f := by
  have hskip : ∀ {fs : List Frame}, (∀ g ∈ fs, matchesRequest cmdtype sequence g = false) →
      fs.find? (matchesRequest cmdtype sequence) = none := by
    intro fs hfs
    rw [List.find?_eq_none]
    intro g hg
    simp [hfs g hg]
  rw [recvWireJson_eq h, InOrder]
  rcases append_cons_cases hfirst.order with ⟨later, rfl, hlater⟩ | ⟨mid, hmid, rfl⟩
  · -- the reply is still to come
    have hnone := hskip fun g hg => hfirst.skipped g (List.mem_append_left later hg)
    have hnot : ¬ buffered s = buffered s ++ later ++ [f] := by
      intro heq
      have hlen := congrArg List.length heq
      simp only [List.length_append, List.length_singleton] at hlen
      omega
    have hlive : FirstReply cmdtype sequence (behindPending s) later f post :=
      ⟨(replies_behindPending h).trans hlater,
        fun g hg => hfirst.skipped g (List.mem_append_right _ hg), hfirst.own⟩
    simp only [hnone]
    rw [recvWireLoop_iff (waiting_behindPending h) hlive, completed_behindPending h, or_iff_right hnot]
    constructor
    · intro halone
      exact ⟨later, rfl, halone⟩
    · rintro ⟨later', heq, halone⟩
      obtain rfl := List.append_cancel_left heq
      exact halone
  · -- the reply is pending
    have hfind : (buffered s).find? (matchesRequest cmdtype sequence) = some f := by
      rw [hmid, List.find?_append, hskip hfirst.skipped, List.find?_cons, hfirst.own]
      rfl
    have hnot : ¬ ∃ later, pre = buffered s ++ later ∧ Alone 32 (completed s) later f := by
      rintro ⟨later, heq, -⟩
      have hlen := congrArg List.length heq
      rw [hmid] at hlen
      simp only [List.length_append, List.length_cons] at hlen
      omega
    simp only [hfind]
    rw [or_iff_left hnot]
    constructor
    · rintro ⟨s', hrun, hleft⟩
      obtain ⟨-, rfl⟩ := Prod.mk.inj (Except.ok.inj hrun)
      rw [replies_behindPending h] at hleft
      rw [hmid, List.append_left_eq_self.mp hleft.symm]
    · intro heq
      have hnil : mid = [] := by
        rw [hmid] at heq
        exact (List.cons.inj (List.append_cancel_left heq)).2
      exact ⟨_, rfl, by rw [replies_behindPending h, hnil, List.nil_append]⟩

end Loop

/-- Both replies to an upload wait in the buffer: `continue` and the final one. -/
def bothPending : Session where
  seq := 0
  phase := .ready
  recvBuf := exactCodec.encodeAll [resumeReply, doneReply]
  reads := []
  writes := []
  sent := []

theorem bothPending_sound : NoWrappedHeader (stream bothPending) := by
  have hstream : stream bothPending ++ [] = exactCodec.encodeAll [resumeReply, doneReply] := by
    rw [stream, List.append_nil, bothPending, arriving, List.flatten_nil, List.append_nil]
  exact noWrappedHeader_encodeAll hstream (by decide)

theorem bothPending_buffered : buffered bothPending = [resumeReply, doneReply] := by
  rw [buffered, bothPending, Codec.drain_encodeAll]

theorem bothPending_completed : completed bothPending = [] := by
  rw [completed, bothPending, arriving, Framing.feed_nil]

theorem bothPending_first :
    FirstReply kCmdFileUpload 1 bothPending [] resumeReply [doneReply] where
  order := by rw [replies, bothPending_buffered, bothPending_completed]; rfl
  skipped := by simp
  own := resumeReply_accepted.1

/-- `recv_wire_json` takes the first reply to the request and keeps the ones behind it exactly if that
reply is the last one pending, or comes alone after fewer than 32 reads with others. -/
theorem keepsOrder_iff (cmdtype : Nat) (sequence : UInt32) {s : Session}
    (h : NoWrappedHeader (stream s)) :
    KeepsOrder cmdtype sequence s ↔
      ∀ pre f post, FirstReply cmdtype sequence s pre f post → InOrder s pre f := by
  constructor
  · intro hkeeps pre f post hfirst
    exact (recvWireJson_first h hfirst).mp (hkeeps pre f post hfirst)
  · intro horder pre f post hfirst
    exact (recvWireJson_first h hfirst).mpr (horder pre f post hfirst)

theorem keepsOrder_bothPending :
    KeepsOrder kCmdFileUpload 1 bothPending ↔
      ∀ pre f post, FirstReply kCmdFileUpload 1 bothPending pre f post → InOrder bothPending pre f :=
  keepsOrder_iff kCmdFileUpload 1 bothPending_sound

/-- The first reply is taken, and the final one with it. -/
theorem keepsOrder_fails : ¬ KeepsOrder kCmdFileUpload 1 bothPending := by
  intro h
  have horder := (recvWireJson_first bothPending_sound bothPending_first).mp (h _ _ _ bothPending_first)
  rw [InOrder, bothPending_buffered, bothPending_completed] at horder
  rcases horder with heq | ⟨later, -, before, after, hlive, -⟩
  · exact absurd (congrArg List.length heq) (by decide)
  · exact absurd hlive (by simp)

end OpenBambu.Upload
