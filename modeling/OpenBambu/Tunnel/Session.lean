import OpenBambu.Tunnel.Envelope

/-!
# A tunnel session and the connection under it

The members of `Session` together with the TLS connection its calls are given: the
reads that will come back, in order, and the bytes written so far. One `SSL_read`
delivers a nonempty piece of at most 65536 bytes, or nothing yet, or ends the
connection; when the script of reads is used up the read blocks. A write that fails
has sent a part of its bytes.

`recv_payload` takes every complete frame off the buffer and returns the first one.
What its successive calls deliver is compared with the frames the peer sent.
-/

namespace OpenBambu.Tunnel

open OpenBambu.Foundation OpenBambu.Json

/-- The bytes one `SSL_read` puts into `chunk[65536]`. -/
structure Chunk where
  bytes : Bytes
  nonempty : bytes ≠ []
  fits : bytes.length ≤ 65536

/-- One return of `read_some`. -/
inductive Read where
  | bytes (c : Chunk)
  | wantRead
  | closed

/-- Everything the reads of a script deliver. -/
def received (reads : List Read) : List Bytes :=
  reads.filterMap fun r =>
    match r with
    | .bytes c => some c.bytes
    | _ => none

/-- Whether the connection stays up for all of a script. -/
def Open (reads : List Read) : Prop := ∀ r ∈ reads, r ≠ Read.closed

inductive HandshakePhase where
  | notStarted
  | loginSent
  | setupSent
  | ready
  | failed
  deriving DecidableEq, Repr

structure Session where
  seq : UInt32
  phase : HandshakePhase
  recvBuf : Bytes
  /-- What the coming reads return. -/
  reads : List Read
  /-- How the coming writes end: all written, or that many bytes and then an error. -/
  writes : List (Option Nat)
  /-- What has been written. -/
  sent : Bytes

/-- `ssl_write_all`. A write beyond the script succeeds. -/
def sslWriteAll (s : Session) (buf : Bytes) : Bool × Session :=
  match s.writes with
  | [] => (true, { s with sent := s.sent ++ buf })
  | none :: ws => (true, { s with sent := s.sent ++ buf, writes := ws })
  | some n :: ws => (false, { s with sent := s.sent ++ buf.take n, writes := ws })

/-- The header carries the payload length modulo `2^32`. -/
def sendFrame (s : Session) (magic : UInt32) (payload : Bytes) : Bool × Session :=
  let hdr := buildFrameHeader (UInt32.ofNat payload.length) magic s.seq
  match sslWriteAll { s with seq := s.seq + 1 } hdr with
  | (false, s) => (false, s)
  | (true, s) => if payload = [] then (true, s) else sslWriteAll s payload

def sendAbiJson (s : Session) (abiBody : Bytes) : Bool × Session :=
  sendFrame s kMagicCtrlClient (wrapCtrlAbi abiBody)

/-- The codes 0, 1 and -1 of `try_read_frames`. -/
inductive ReadCode where
  | got
  | again
  | failed
  deriving DecidableEq, Repr

def tryReadFrames (s : Session) : Except Halt (ReadCode × Session) :=
  match s.reads with
  | [] => .error .blocked
  | .bytes c :: rs => .ok (.got, { s with recvBuf := s.recvBuf ++ c.bytes, reads := rs })
  | .wantRead :: rs => .ok (.again, { s with reads := rs })
  | .closed :: rs => .ok (.failed, { s with reads := rs })

/-- What `recv_payload` returns: a body, try again, or an error. -/
inductive Recv where
  | payload (body : Bytes)
  | again
  | failed

/-- The loop of `recv_payload`. Every turn takes one read. -/
def recvLoop : Nat → Session → Except Halt (Recv × Session)
  | 0, _ => .error .hang
  | fuel + 1, s =>
      match takeBodies s.recvBuf with
      | .error h => .error h
      | .ok (body :: _, rest) => .ok (.payload body, { s with recvBuf := rest })
      | .ok ([], rest) =>
          match tryReadFrames { s with recvBuf := rest } with
          | .error h => .error h
          | .ok (.failed, s) => .ok (.failed, s)
          | .ok (.again, s) => .ok (.again, s)
          | .ok (.got, s) => recvLoop fuel s

def recvPayload (s : Session) : Except Halt (Recv × Session) := recvLoop (s.reads.length + 1) s

/-- The bodies that `n` calls of `recv_payload` return, called until one fails or blocks. -/
def recvAll : Nat → Session → List Bytes
  | 0, _ => []
  | n + 1, s =>
      match recvPayload s with
      | .ok (.payload body, s) => body :: recvAll n s
      | .ok (.again, s) => recvAll n s
      | _ => []

/-! ## Writes -/

theorem sslWriteAll_ok {s : Session} (h : ∀ w ∈ s.writes, w = none) (buf : Bytes) :
    sslWriteAll s buf = (true, { s with sent := s.sent ++ buf, writes := s.writes.tail }) := by
  unfold sslWriteAll
  split
  · rename_i hw
    simp [hw]
  · rename_i hw
    simp [hw]
  · rename_i hw
    exact absurd (h _ (by rw [hw]; exact List.mem_cons_self)) (by simp)

/-- A send on a connection that takes every write puts out one frame. -/
theorem sendFrame_ok {s : Session} (h : ∀ w ∈ s.writes, w = none) (magic : UInt32)
    (payload : Bytes) :
    ∃ ws, (∀ w ∈ ws, w = none) ∧
      sendFrame s magic payload =
        (true,
          { s with
            seq := s.seq + 1
            writes := ws
            sent := s.sent ++ (buildFrameHeader (UInt32.ofNat payload.length) magic s.seq ++ payload) }) := by
  have htail : ∀ w ∈ s.writes.tail, w = none := fun w hw => h w (List.mem_of_mem_tail hw)
  have hhdr := sslWriteAll_ok (s := { s with seq := s.seq + 1 }) h
    (buildFrameHeader (UInt32.ofNat payload.length) magic s.seq)
  simp only [sendFrame, hhdr]
  split_ifs with hp
  · subst hp
    exact ⟨s.writes.tail, htail, by simp⟩
  · rw [sslWriteAll_ok htail]
    exact ⟨s.writes.tail.tail, fun w hw => htail w (List.mem_of_mem_tail hw), by simp⟩

theorem sslWriteAll_frame (s : Session) (buf : Bytes) :
    (sslWriteAll s buf).2.recvBuf = s.recvBuf ∧ (sslWriteAll s buf).2.reads = s.reads ∧
      (sslWriteAll s buf).2.phase = s.phase ∧
      ((sslWriteAll s buf).1 = true → (sslWriteAll s buf).2.sent = s.sent ++ buf) := by
  unfold sslWriteAll
  split <;> simp

/-- A send changes only the sequence number and what is written; one that succeeds has
written a frame. -/
theorem sendFrame_frame (s : Session) (magic : UInt32) (payload : Bytes) :
    (sendFrame s magic payload).2.recvBuf = s.recvBuf ∧
      (sendFrame s magic payload).2.reads = s.reads ∧
      (sendFrame s magic payload).2.phase = s.phase ∧
      ((sendFrame s magic payload).1 = true →
        (sendFrame s magic payload).2.sent =
          s.sent ++ (buildFrameHeader (UInt32.ofNat payload.length) magic s.seq ++ payload)) := by
  obtain ⟨hbuf, hreads, hphase, hsent⟩ := sslWriteAll_frame { s with seq := s.seq + 1 }
    (buildFrameHeader (UInt32.ofNat payload.length) magic s.seq)
  unfold sendFrame
  simp only
  split
  · rename_i s' h
    rw [h] at hbuf hreads hphase
    exact ⟨hbuf, hreads, hphase, by simp⟩
  · rename_i s' h
    rw [h] at hbuf hreads hphase hsent
    simp only at hbuf hreads hphase hsent
    split_ifs with hp
    · subst hp
      refine ⟨hbuf, hreads, hphase, fun _ => ?_⟩
      rw [List.append_nil]
      exact hsent trivial
    · obtain ⟨hbuf', hreads', hphase', hsent'⟩ := sslWriteAll_frame s' payload
      refine ⟨hbuf'.trans hbuf, hreads'.trans hreads, hphase'.trans hphase, fun hok => ?_⟩
      rw [hsent' hok, hsent trivial, List.append_assoc]

/-! ## Receiving -/

theorem recvLoop_frame {s : Session} {body rest : Bytes} {bodies : List Bytes}
    (h : takeBodies s.recvBuf = .ok (body :: bodies, rest)) (fuel : Nat) :
    recvLoop (fuel + 1) s = .ok (.payload body, { s with recvBuf := rest }) := by
  rw [recvLoop, h]

theorem recvLoop_wait {s : Session} {rest : Bytes} (h : takeBodies s.recvBuf = .ok ([], rest))
    (fuel : Nat) :
    recvLoop (fuel + 1) s =
      match tryReadFrames { s with recvBuf := rest } with
      | .error h => .error h
      | .ok (.failed, s) => .ok (.failed, s)
      | .ok (.again, s) => .ok (.again, s)
      | .ok (.got, s) => recvLoop fuel s := by
  rw [recvLoop, h]

theorem received_append (r₁ r₂ : List Read) : received (r₁ ++ r₂) = received r₁ ++ received r₂ :=
  List.filterMap_append

@[simp] theorem received_nil : received [] = [] := rfl

@[simp] theorem received_bytes (c : Chunk) (rs : List Read) :
    received (.bytes c :: rs) = c.bytes :: received rs := rfl

@[simp] theorem received_wantRead (rs : List Read) : received (.wantRead :: rs) = received rs := rfl

/-- The buffer and what will still be read are the frames `fs` and nothing else. -/
structure Incoming (s : Session) (fs : List Frame) : Prop where
  stays : Open s.reads
  small : ∀ f ∈ fs, f.Small
  stream : s.recvBuf ++ (received s.reads).flatten = exactCodec.encodeAll fs

theorem Incoming.take {s : Session} {fs : List Frame} (h : Incoming s fs) :
    takeBodies s.recvBuf =
        .ok ((exactCodec.drain s.recvBuf).1.map Frame.payload, (exactCodec.drain s.recvBuf).2) ∧
      ∃ later, fs = (exactCodec.drain s.recvBuf).1 ++ later ∧
        Incoming { s with recvBuf := (exactCodec.drain s.recvBuf).2 } later := by
  obtain ⟨later, hfs, _, hrest⟩ := exactCodec.cut_encodeAll h.stream
  refine ⟨?_, later, hfs, h.stays, fun f hf => h.small f (hfs ▸ List.mem_append_right _ hf), hrest⟩
  rw [takeBodies_steps h.stream h.small, List.filterMap_eq_map']

/-- A call on a buffer that holds a frame takes all its frames and returns the first. -/
theorem recvPayload_frame {s : Session} {fs : List Frame} (h : Incoming s fs) {f : Frame}
    {more : List Frame} (hd : (exactCodec.drain s.recvBuf).1 = f :: more) :
    recvPayload s =
      .ok (.payload f.payload, { s with recvBuf := (exactCodec.drain s.recvBuf).2 }) := by
  have ht := h.take.1
  rw [hd, List.map_cons] at ht
  exact recvLoop_frame ht _

/-- A call on a buffer without a frame goes on to the next read. -/
theorem recvPayload_wait {s : Session} (h : takeBodies s.recvBuf = .ok ([], s.recvBuf)) :
    recvPayload s =
      match s.reads with
      | [] => .error .blocked
      | .bytes c :: rs => recvPayload { s with recvBuf := s.recvBuf ++ c.bytes, reads := rs }
      | .wantRead :: rs => .ok (.again, { s with reads := rs })
      | .closed :: rs => .ok (.failed, { s with reads := rs }) := by
  rw [recvPayload, recvLoop_wait h]
  obtain ⟨seq, phase, buf, reads, writes, sent⟩ := s
  cases reads with
  | nil => rfl
  | cons r rs => cases r <;> rfl

theorem Incoming.takeBodies {s : Session} {fs : List Frame} (h : Incoming s fs)
    (hs : exactCodec.Settled s.recvBuf) : takeBodies s.recvBuf = .ok ([], s.recvBuf) := by
  have ht := h.take.1
  rwa [Framing.drain_of_settled hs] at ht

/-- The first frame each piece completes. -/
def heads (groups : List (List Frame)) : List Bytes := (groups.filterMap List.head?).map Frame.payload

theorem recvAll_settled {s : Session} {fs : List Frame} (h : Incoming s fs)
    (hs : exactCodec.Settled s.recvBuf) {n : Nat} (hn : s.reads.length + 1 ≤ n) :
    recvAll n s = heads (exactCodec.feed s.recvBuf (received s.reads)).1 := by
  obtain ⟨seq, phase, buf, reads, writes, sent⟩ := s
  induction reads generalizing buf fs n with
  | nil =>
      obtain ⟨m, rfl⟩ : ∃ m, n = m + 1 := ⟨n - 1, by omega⟩
      rw [recvAll, recvPayload_wait (h.takeBodies hs)]
      rfl
  | cons r rs ih =>
      obtain ⟨m, rfl⟩ : ∃ m, n = m + 1 := ⟨n - 1, by omega⟩
      simp only [List.length_cons] at hn
      have hopen : Open rs := fun x hx => h.stays x (List.mem_cons_of_mem _ hx)
      rw [recvAll, recvPayload_wait (h.takeBodies hs)]
      cases r with
      | closed => exact absurd rfl (h.stays _ List.mem_cons_self)
      | wantRead => exact ih buf ⟨hopen, h.small, h.stream⟩ hs (by simp only; omega)
      | bytes c =>
          have hin : Incoming ⟨seq, phase, buf ++ c.bytes, rs, writes, sent⟩ fs :=
            ⟨hopen, h.small, by simpa using h.stream⟩
          obtain ⟨later, _, hlater⟩ := hin.take.2
          have hsettled := Framing.drain_settles (F := exactCodec.toFraming) (buf ++ c.bytes)
          change recvAll (m + 1) ⟨seq, phase, buf ++ c.bytes, rs, writes, sent⟩ = _
          simp only [received_bytes, Framing.feed_cons, heads, List.filterMap_cons]
          cases hd : (exactCodec.drain (buf ++ c.bytes)).1 with
          | nil =>
              have hrest := congrArg Prod.snd (Framing.drain_eq_of_nil hd)
              rw [hrest] at hsettled ⊢
              exact ih _ hin hsettled (by simp only; omega)
          | cons f more =>
              rw [recvAll, recvPayload_frame hin hd, List.head?_cons, List.map_cons]
              exact congrArg _ (ih _ hlater hsettled (by simp only; omega))

/-- Successive calls deliver the first frame that each piece completes, the leftover
buffer counting as the first piece. -/
theorem recvAll_eq_heads {s : Session} {fs : List Frame} (h : Incoming s fs) {n : Nat}
    (hn : s.reads.length + 2 ≤ n) :
    recvAll n s = heads (exactCodec.feed [] (s.recvBuf :: received s.reads)).1 := by
  obtain ⟨m, rfl⟩ : ∃ m, n = m + 1 := ⟨n - 1, by omega⟩
  obtain ⟨later, _, hlater⟩ := h.take.2
  have hsettled := Framing.drain_settles (F := exactCodec.toFraming) s.recvBuf
  simp only [Framing.feed_cons, List.nil_append, heads, List.filterMap_cons]
  cases hd : (exactCodec.drain s.recvBuf).1 with
  | nil =>
      have hrest := congrArg Prod.snd (Framing.drain_eq_of_nil hd)
      rw [hrest] at hsettled ⊢
      exact recvAll_settled h hsettled (by omega)
  | cons f more =>
      rw [recvAll, recvPayload_frame h hd, List.head?_cons, List.map_cons]
      exact congrArg _ (recvAll_settled hlater hsettled (by simp only; omega))

/-- The pieces complete all the frames, and those the calls deliver are at most as many. -/
theorem recvAll_length_le {s : Session} {fs : List Frame} (h : Incoming s fs) {n : Nat}
    (hn : s.reads.length + 2 ≤ n) : (recvAll n s).length ≤ fs.length := by
  have hflat : (s.recvBuf :: received s.reads).flatten = exactCodec.encodeAll fs := h.stream
  have hfeed := Framing.feed_flatten (F := exactCodec.toFraming) exactCodec.settled_nil
    (s.recvBuf :: received s.reads)
  rw [List.nil_append, hflat, exactCodec.drain_encodeAll, Prod.mk.injEq] at hfeed
  rw [recvAll_eq_heads h hn, heads, List.length_map, ← hfeed.1]
  exact length_filterMap_head_le _

theorem recvAll_all_iff {s : Session} {fs : List Frame} (h : Incoming s fs) {n : Nat}
    (hn : s.reads.length + 2 ≤ n) :
    recvAll n s = fs.map Frame.payload ↔
      exactCodec.AtMostOneEach fs (s.recvBuf :: received s.reads) := by
  have hflat : (s.recvBuf :: received s.reads).flatten = exactCodec.encodeAll fs := h.stream
  have hfeed := Framing.feed_flatten (F := exactCodec.toFraming) exactCodec.settled_nil
    (s.recvBuf :: received s.reads)
  rw [List.nil_append, hflat, exactCodec.drain_encodeAll, Prod.mk.injEq] at hfeed
  rw [← exactCodec.feed_at_most_one (by rw [List.append_nil, hflat]),
    ← map_head_eq_flatten Frame.payload, hfeed.1, recvAll_eq_heads h hn]
  rfl

/-- Successive calls return every body once and in order exactly when no piece
completes two frames. -/
theorem recv_payload_complete_iff {s : Session} {fs : List Frame} (h : Incoming s fs) :
    (∀ n, s.reads.length + 2 ≤ n → recvAll n s = fs.map Frame.payload) ↔
      exactCodec.AtMostOneEach fs (s.recvBuf :: received s.reads) := by
  constructor
  · intro hall
    exact (recvAll_all_iff h (Nat.le_refl _)).mp (hall _ (Nat.le_refl _))
  · intro hone n hn
    exact (recvAll_all_iff h hn).mpr hone

/-- A ready session that gets both replies in one read. -/
def coalesced : Session where
  seq := 0
  phase := .ready
  recvBuf := []
  reads := [.bytes ⟨twoReplies.flatMap Frame.encode, by decide, by decide⟩]
  writes := []
  sent := []

theorem coalesced_incoming : Incoming coalesced twoReplies where
  stays := by simp [Open, coalesced]
  small := by decide
  stream := rfl

theorem recv_payload_complete_coalesced :
    (∀ n, coalesced.reads.length + 2 ≤ n → recvAll n coalesced = twoReplies.map Frame.payload) ↔
      exactCodec.AtMostOneEach twoReplies (coalesced.recvBuf :: received coalesced.reads) :=
  recv_payload_complete_iff coalesced_incoming

theorem recv_payload_drops_coalesced :
    Incoming coalesced twoReplies ∧
      ¬ ∀ n, coalesced.reads.length + 2 ≤ n → recvAll n coalesced = twoReplies.map Frame.payload := by
  refine ⟨coalesced_incoming, fun h => ?_⟩
  have h3 := h 3 (by decide)
  exact absurd h3 (by decide)

end OpenBambu.Tunnel
