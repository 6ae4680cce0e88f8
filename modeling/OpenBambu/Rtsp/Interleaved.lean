import OpenBambu.Rtsp.Sdp
import Mathlib.Tactic.SplitIfs

/-!
# The two readers of the interleaved stream

`await_response` and `pull_one_message` of `stubs/rtsp_client.cpp` over one byte stream. The
first waits for a reply and buffers the frames in front of it; the second takes one message
and drops the replies to keepalives. Both find a frame by its `$`, so which of the two meets
a frame depends only on when the server sends it.
-/

namespace OpenBambu.Rtsp

open OpenBambu.Foundation

/-- How the connection goes on behind the bytes that arrive. -/
inductive WireEnd where
  /-- The peer closes the TLS session. -/
  | shutdown
  /-- The connection breaks. -/
  | broken
  /-- Nothing more arrives. -/
  | silent
  deriving DecidableEq, Repr

/-- The ways a read ends without a result: return code 1, return code -1 with the error text
that was set, or no return. -/
inductive ReadEnd where
  | closed
  | failed (text : Bytes)
  | halt (h : Halt)
  deriving DecidableEq, Repr

def WireEnd.readEnd : WireEnd → ReadEnd
  | .shutdown => .closed
  | .broken => .failed []
  | .silent => .halt .blocked

def kMaxResponseBody : Nat := 65536

def kMaxRtpPacket : Nat := 65536

def kMaxLine : Nat := 8192

/-! ## Reading from the session -/

def sslReadFull (e : WireEnd) (len : Nat) (s : Bytes) : Except ReadEnd (Bytes × Bytes) :=
  if len ≤ s.length then .ok (s.take len, s.drop len) else .error e.readEnd

/-- A read that is made only where something is to be read. -/
def readSome (e : WireEnd) (n : Nat) (s : Bytes) : Except ReadEnd (Bytes × Bytes) :=
  if 0 < n then sslReadFull e n s else .ok ([], s)

/-- Bytes up to CR LF behind those already in `out`. `overflow` is what happens at the limit. -/
def lineLoop (e : WireEnd) (overflow : Bytes → Bytes → Except ReadEnd (Bytes × Bytes)) (out : Bytes) :
    Bytes → Except ReadEnd (Bytes × Bytes)
  | [] => if out.length < kMaxLine then .error e.readEnd else overflow out []
  | c :: s =>
      if out.length < kMaxLine then
        if out.getLast? = some Ascii.cr ∧ c = Ascii.lf then .ok (out.dropLast, s)
        else lineLoop e overflow (out ++ [c]) s
      else overflow out (c :: s)

def sslReadLine (e : WireEnd) (s : Bytes) : Except ReadEnd (Bytes × Bytes) :=
  lineLoop e (fun _ _ => .error (.failed (ascii "ssl_read_line: line exceeded max_len"))) [] s

/-- The status line behind a byte that was read ahead. At the limit the loop just ends. -/
def statusLine (e : WireEnd) (ahead : Byte) (s : Bytes) : Except ReadEnd (Bytes × Bytes) :=
  lineLoop e (fun out s => .ok (out, s)) [ahead] s

/-! ## Replies -/

structure Response where
  status : Int
  reason : Bytes
  headers : List (Bytes × Bytes)
  body : Bytes
  deriving DecidableEq, Repr

/-- `std::size_t` of a header value. -/
def sizeValue (v : Bytes) : Nat := (UInt64.ofInt (atoi v)).toNat

/-- A header line, as both readers split it. -/
def headerOf (line : Bytes) : Option (Bytes × Bytes) :=
  (cut Ascii.colon line).map fun p => (lc (trim p.1), trim p.2)

/-- The length a header asks for, or the one asked for so far. -/
def lengthAfter (n : Nat) (header : Option (Bytes × Bytes)) : Nat :=
  match header with
  | some (k, v) => if k = ascii "content-length" then sizeValue v else n
  | none => n

/-- The header lines up to the empty one: the headers and the content length. -/
def headerLoop (e : WireEnd) : Nat → List (Bytes × Bytes) → Nat → Bytes →
    Except ReadEnd (List (Bytes × Bytes) × Nat × Bytes)
  | 0, _, _, _ => .error (.halt .hang)
  | fuel + 1, hs, n, s =>
      match sslReadLine e s with
      | .error x => .error x
      | .ok ([], s) => .ok (hs, n, s)
      | .ok (line, s) => headerLoop e fuel (hs ++ (headerOf line).toList) (lengthAfter n (headerOf line)) s

/-- The body, within the cap. -/
def readBody (e : WireEnd) (tooLong : Bytes) (n : Nat) (s : Bytes) : Except ReadEnd (Bytes × Bytes) :=
  if kMaxResponseBody < n then .error (.failed tooLong) else readSome e n s

def readResponse (e : WireEnd) (ahead : Byte) (s : Bytes) : Except ReadEnd (Response × Bytes) := do
  let (line, s) ← statusLine e ahead s
  if line.length < 12 ∨ line.take 7 ≠ ascii "RTSP/1." then
    .error (.failed (ascii "rtsp: malformed status line: " ++ line))
  else
    match cut Ascii.sp (line.drop 9) with
    | none => .error (.failed (ascii "rtsp: status line missing reason"))
    | some (code, reason) =>
        let (headers, n, s) ← headerLoop e (s.length + 1) [] 0 s
        let (body, s) ← readBody e (ascii "rtsp: response body exceeds cap") n s
        return (⟨atoi code, trim reason, headers, body⟩, s)

/-! ## The readers -/

def implausible : ReadEnd := .failed (ascii "rtsp: implausible interleaved frame length")

def decodeFrame (rtpPt : Int) (rtp : Bytes) (d : Demux) : Except ReadEnd Demux :=
  match decodeRtpH264 rtpPt rtp d with
  | .ok d => .ok d
  | .error h => .error (.halt h)

/-- A frame behind its `$` in `await_response`. -/
def awaitFrame (rtpPt : Int) (e : WireEnd) (s : Bytes) (d : Demux) : Except ReadEnd (Bytes × Demux) := do
  let (hdr, s) ← sslReadFull e 3 s
  let channel := hdr.getD 0 0
  let plen := (be16 (hdr.getD 1 0) (hdr.getD 2 0)).toNat
  if kMaxRtpPacket < plen then .error implausible
  else
    let (rtp, s) ← readSome e plen s
    if channel = 0 then return (s, ← decodeFrame rtpPt rtp d) else return (s, d)

/-- A frame behind its `$` in `pull_one_message`. -/
def pullFrame (rtpPt : Int) (e : WireEnd) (s : Bytes) (d : Demux) : Except ReadEnd (Bytes × Demux) := do
  let (hdr, s) ← sslReadFull e 3 s
  let channel := hdr.getD 0 0
  let plen := (be16 (hdr.getD 1 0) (hdr.getD 2 0)).toNat
  if plen = 0 ∨ kMaxRtpPacket < plen then .error implausible
  else
    let (rtp, s) ← sslReadFull e plen s
    if channel ≠ 0 then return (s, d)
    else return (s, ← decodeFrame rtpPt rtp d)

def dollar : Byte := 0x24

/-- One turn of the loop in `await_response`: a frame was buffered, or the reply is there. -/
def awaitTurn (rtpPt : Int) (e : WireEnd) (s : Bytes) (d : Demux) :
    Except ReadEnd (Option Response × Bytes × Demux) := do
  let (ahead, s) ← sslReadFull e 1 s
  if ahead.getD 0 0 = dollar then
    let (s, d) ← awaitFrame rtpPt e s d
    return (none, s, d)
  else
    let (r, s) ← readResponse e (ahead.getD 0 0) s
    return (some r, s, d)

def awaitLoop (rtpPt : Int) (e : WireEnd) : Nat → Bytes → Demux →
    Except ReadEnd (Response × Bytes × Demux)
  | 0, _, _ => .error (.halt .hang)
  | fuel + 1, s, d =>
      match awaitTurn rtpPt e s d with
      | .error x => .error x
      | .ok (some r, s, d) => .ok (r, s, d)
      | .ok (none, s, d) => awaitLoop rtpPt e fuel s d

/-- Every turn takes at least one byte. -/
def awaitResponse (rtpPt : Int) (e : WireEnd) (s : Bytes) (d : Demux) :
    Except ReadEnd (Response × Bytes × Demux) := awaitLoop rtpPt e (s.length + 1) s d

/-- The reply to a keepalive: the rest of the status line is not looked at. -/
def drainResponse (e : WireEnd) (s : Bytes) : Except ReadEnd Bytes := do
  let (_, s) ← sslReadLine e s
  let (_, n, s) ← headerLoop e (s.length + 1) [] 0 s
  let (_, s) ← readBody e (ascii "rtsp: stray response body exceeds cap") n s
  return s

def unexpectedByte (b : Byte) : ReadEnd :=
  .failed (ascii "rtsp: unexpected wire byte 0x" ++ [hexNibble (b.toNat / 16), hexNibble (b.toNat % 16)] ++
    ascii " (expected '$' or 'R')")

def pullOneMessage (rtpPt : Int) (e : WireEnd) (s : Bytes) (d : Demux) : Except ReadEnd (Bytes × Demux) := do
  let (ahead, s) ← sslReadFull e 1 s
  if ahead.getD 0 0 = dollar then pullFrame rtpPt e s d
  else if ahead.getD 0 0 = Ascii.letter 'R' then return (← drainResponse e s, d)
  else .error (unexpectedByte (ahead.getD 0 0))

/-- Calls of `pull_one_message` in a row. -/
def pullMessages (rtpPt : Int) (e : WireEnd) : Nat → Bytes → Demux → Except ReadEnd (Bytes × Demux)
  | 0, s, d => .ok (s, d)
  | k + 1, s, d =>
      match pullOneMessage rtpPt e s d with
      | .error x => .error x
      | .ok (s, d) => pullMessages rtpPt e k s d

/-! ## Frames -/

structure InterleavedFrame where
  channel : Byte
  payload : Bytes
  short : payload.length < 65536

def InterleavedFrame.wire (f : InterleavedFrame) : Bytes :=
  dollar :: f.channel :: UInt8.ofNat (f.payload.length / 256) :: UInt8.ofNat (f.payload.length % 256) ::
    f.payload

/-- What a frame does to the queue: only channel 0 carries video. -/
def InterleavedFrame.decode (rtpPt : Int) (f : InterleavedFrame) (d : Demux) : Demux :=
  if f.channel = 0 then
    ⟨d.naluQueue ++ (produce rtpPt f.payload d.fu).1, (produce rtpPt f.payload d.fu).2⟩
  else d

def wireFrames (fs : List InterleavedFrame) : Bytes := fs.flatMap InterleavedFrame.wire

def decodeFrames (rtpPt : Int) (fs : List InterleavedFrame) (d : Demux) : Demux :=
  fs.foldl (fun d f => f.decode rtpPt d) d

/-- The first turns of the loop in `await_response`. -/
def awaitTurns (rtpPt : Int) (e : WireEnd) : Nat → Bytes → Demux → Except ReadEnd (Bytes × Demux)
  | 0, s, d => .ok (s, d)
  | k + 1, s, d =>
      match awaitTurn rtpPt e s d with
      | .error x => .error x
      | .ok (some _, s, d) => .ok (s, d)
      | .ok (none, s, d) => awaitTurns rtpPt e k s d

/-- The two readers make the same of the frames: the same queue, the same bytes left, and an
error from both or from neither. -/
def FramesAgree (rtpPt : Int) (e : WireEnd) (fs : List InterleavedFrame) (s : Bytes) (d : Demux) : Prop :=
  awaitTurns rtpPt e fs.length (wireFrames fs ++ s) d = pullMessages rtpPt e fs.length (wireFrames fs ++ s) d

theorem sslReadFull_append (e : WireEnd) {len : Nat} {a : Bytes} (s : Bytes) (h : a.length = len) :
    sslReadFull e len (a ++ s) = .ok (a, s) := by
  rw [sslReadFull, if_pos (by rw [List.length_append]; omega)]
  simp [← h]

theorem be16_length {n : Nat} (h : n < 65536) :
    (be16 (UInt8.ofNat (n / 256)) (UInt8.ofNat (n % 256))).toNat = n := by
  have hd : n / 256 < 256 := by omega
  have hm : n % 256 < 256 := by omega
  unfold be16
  rw [UInt16.toNat_or, UInt16.toNat_shiftLeft, UInt8.toNat_toUInt16, UInt8.toNat_toUInt16,
    UInt8.toNat_ofNat_of_lt' hd, UInt8.toNat_ofNat_of_lt' hm]
  show (n / 256) <<< (8 % 16) % 2 ^ 16 ||| n % 256 = n
  rw [show 8 % 16 = 8 from rfl, Nat.shiftLeft_eq, Nat.mod_eq_of_lt (by omega)]
  have hor := Nat.two_pow_add_eq_or_of_lt (i := 8) hm (n / 256)
  rw [show (2 : Nat) ^ 8 = 256 from rfl] at hor ⊢
  rw [Nat.mul_comm, ← hor]
  omega

theorem decodeFrame_ok (rtpPt : Int) (f : InterleavedFrame) (d : Demux) (h : f.channel = 0) :
    decodeFrame rtpPt f.payload d = .ok (f.decode rtpPt d) := by
  rw [decodeFrame, decodeRtpH264_ok, InterleavedFrame.decode, if_pos h]

theorem readSome_append (e : WireEnd) {n : Nat} {a : Bytes} (s : Bytes) (h : a.length = n) :
    readSome e n (a ++ s) = .ok (a, s) := by
  unfold readSome
  split_ifs with hp
  · exact sslReadFull_append e s h
  · rw [List.eq_nil_of_length_eq_zero (by omega : a.length = 0)]
    rfl

/-- The header of a frame behind its `$`. -/
theorem sslReadFull_header (e : WireEnd) (f : InterleavedFrame) (s : Bytes) :
    sslReadFull e 3 (f.wire.tail ++ s) =
      .ok ([f.channel, UInt8.ofNat (f.payload.length / 256), UInt8.ofNat (f.payload.length % 256)],
        f.payload ++ s) := by
  show sslReadFull e 3 ([f.channel, UInt8.ofNat (f.payload.length / 256),
    UInt8.ofNat (f.payload.length % 256)] ++ (f.payload ++ s)) = _
  exact sslReadFull_append e (f.payload ++ s) rfl

/-- The byte that tells a frame from a reply. -/
theorem sslReadFull_dollar (e : WireEnd) (f : InterleavedFrame) (s : Bytes) :
    sslReadFull e 1 (f.wire ++ s) = .ok ([dollar], f.wire.tail ++ s) := by
  show sslReadFull e 1 ([dollar] ++ (f.wire.tail ++ s)) = _
  exact sslReadFull_append e (f.wire.tail ++ s) rfl

theorem awaitFrame_wire (rtpPt : Int) (e : WireEnd) (f : InterleavedFrame) (s : Bytes) (d : Demux) :
    awaitFrame rtpPt e (f.wire.tail ++ s) d = .ok (s, f.decode rtpPt d) := by
  have hlen := be16_length f.short
  have hcap : ¬ kMaxRtpPacket < f.payload.length := by
    have := f.short
    unfold kMaxRtpPacket
    omega
  unfold awaitFrame
  rw [sslReadFull_header]
  simp only [bind, Except.bind, List.getD_cons_zero, List.getD_cons_succ, hlen, if_neg hcap,
    readSome_append e s rfl]
  by_cases hc : f.channel = 0
  · simp only [hc, if_true, decodeFrame_ok rtpPt f d hc]
    rfl
  · simp only [hc, if_false, InterleavedFrame.decode]
    rfl

theorem pullFrame_wire (rtpPt : Int) (e : WireEnd) (f : InterleavedFrame) (s : Bytes) (d : Demux) :
    pullFrame rtpPt e (f.wire.tail ++ s) d =
      if f.payload = [] then .error implausible else .ok (s, f.decode rtpPt d) := by
  have hlen := be16_length f.short
  have hshort := f.short
  unfold pullFrame
  rw [sslReadFull_header]
  simp only [bind, Except.bind, List.getD_cons_zero, List.getD_cons_succ, hlen]
  by_cases hp : f.payload = []
  · rw [if_pos hp, if_pos (Or.inl (by rw [hp]; rfl))]
  · have hpos : f.payload.length ≠ 0 := fun h => hp (List.eq_nil_of_length_eq_zero h)
    have hcap : ¬ (f.payload.length = 0 ∨ kMaxRtpPacket < f.payload.length) := by
      unfold kMaxRtpPacket
      omega
    rw [if_neg hp, if_neg hcap, sslReadFull_append e s rfl]
    by_cases hc : f.channel = 0
    · simp only [hc, ne_eq, not_true, if_false, decodeFrame_ok rtpPt f d hc]
      rfl
    · simp only [hc, ne_eq, not_false_eq_true, if_true, InterleavedFrame.decode, if_false]
      rfl

theorem awaitTurn_frame (rtpPt : Int) (e : WireEnd) (f : InterleavedFrame) (s : Bytes) (d : Demux) :
    awaitTurn rtpPt e (f.wire ++ s) d = .ok (none, s, f.decode rtpPt d) := by
  unfold awaitTurn
  rw [sslReadFull_dollar]
  simp only [bind, Except.bind, List.getD_cons_zero, if_true, awaitFrame_wire]
  rfl

theorem pullOneMessage_frame (rtpPt : Int) (e : WireEnd) (f : InterleavedFrame) (s : Bytes) (d : Demux) :
    pullOneMessage rtpPt e (f.wire ++ s) d =
      if f.payload = [] then .error implausible else .ok (s, f.decode rtpPt d) := by
  unfold pullOneMessage
  rw [sslReadFull_dollar]
  simp only [bind, Except.bind, List.getD_cons_zero, if_true, pullFrame_wire]

/-- `await_response` takes frames of any length. -/
theorem awaitTurns_frames (rtpPt : Int) (e : WireEnd) (fs : List InterleavedFrame) (s : Bytes) (d : Demux) :
    awaitTurns rtpPt e fs.length (wireFrames fs ++ s) d = .ok (s, decodeFrames rtpPt fs d) := by
  induction fs generalizing d with
  | nil => rfl
  | cons f fs ih =>
      rw [wireFrames, List.flatMap_cons, List.append_assoc, List.length_cons, awaitTurns, awaitTurn_frame]
      exact ih (f.decode rtpPt d)

/-- `pull_one_message` takes frames with a payload. -/
theorem pullMessages_frames (rtpPt : Int) (e : WireEnd) {fs : List InterleavedFrame}
    (h : ∀ f ∈ fs, f.payload ≠ []) (s : Bytes) (d : Demux) :
    pullMessages rtpPt e fs.length (wireFrames fs ++ s) d = .ok (s, decodeFrames rtpPt fs d) := by
  induction fs generalizing d with
  | nil => rfl
  | cons f fs ih =>
      rw [wireFrames, List.flatMap_cons, List.append_assoc, List.length_cons, pullMessages,
        pullOneMessage_frame, if_neg (h f List.mem_cons_self)]
      exact ih (fun g hg => h g (List.mem_cons_of_mem _ hg)) (f.decode rtpPt d)

theorem pullMessages_empty (rtpPt : Int) (e : WireEnd) {fs : List InterleavedFrame}
    (h : ∃ f ∈ fs, f.payload = []) (s : Bytes) (d : Demux) :
    pullMessages rtpPt e fs.length (wireFrames fs ++ s) d = .error implausible := by
  induction fs generalizing d with
  | nil => simp at h
  | cons f fs ih =>
      rw [wireFrames, List.flatMap_cons, List.append_assoc, List.length_cons, pullMessages,
        pullOneMessage_frame]
      by_cases hf : f.payload = []
      · rw [if_pos hf]
      · rw [if_neg hf]
        apply ih
        obtain ⟨g, hg, hp⟩ := h
        rcases List.mem_cons.1 hg with he | he
        · rw [he] at hp
          exact absurd hp hf
        · exact ⟨g, he, hp⟩

/-! ## Replies on the wire -/

def crlf : Bytes := [Ascii.cr, Ascii.lf]

/-- A line both readers take whole: no CR LF inside, and within the limit. -/
structure IsLine (l : Bytes) : Prop where
  plain : ¬ crlf <:+: l
  short : l.length + 2 ≤ kMaxLine

def contentLength (headers : List Bytes) : Nat :=
  headers.foldl (fun n h => lengthAfter n (headerOf h)) 0

/-- A reply: status line, header lines, and the body they announce. -/
structure RtspReply where
  status : Bytes
  headers : List Bytes
  body : Bytes
  version : status.take 7 = ascii "RTSP/1."
  long : 12 ≤ status.length
  code : (cut Ascii.sp (status.drop 9)).isSome = true
  statusLine : IsLine status
  headerLines : ∀ h ∈ headers, h ≠ [] ∧ IsLine h
  announced : body.length = contentLength headers
  capped : body.length ≤ kMaxResponseBody

def wireHeaders (headers : List Bytes) : Bytes := headers.flatMap (· ++ crlf)

def RtspReply.wire (r : RtspReply) : Bytes :=
  r.status ++ crlf ++ wireHeaders r.headers ++ crlf ++ r.body

theorem lineLoop_line (e : WireEnd) (overflow : Bytes → Bytes → Except ReadEnd (Bytes × Bytes))
    {out l : Bytes} (h : IsLine (out ++ l)) (s : Bytes) :
    lineLoop e overflow out (l ++ (crlf ++ s)) = .ok (out ++ l, s) := by
  induction l generalizing out with
  | nil =>
      have hs := h.short
      rw [List.append_nil] at hs ⊢
      show lineLoop e overflow out (Ascii.cr :: Ascii.lf :: s) = _
      rw [lineLoop, if_pos (by omega), if_neg (fun hc => absurd hc.2 (by decide)), lineLoop,
        if_pos (by rw [List.length_append, List.length_singleton]; omega),
        if_pos ⟨List.getLast?_concat, rfl⟩, List.dropLast_concat]
  | cons c l ih =>
      have hs := h.short
      rw [List.length_append, List.length_cons] at hs
      have hc : ¬ (out.getLast? = some Ascii.cr ∧ c = Ascii.lf) := by
        rintro ⟨ho, rfl⟩
        obtain ⟨before, hb⟩ := List.getLast?_eq_some_iff.1 ho
        apply h.plain
        exact ⟨before, l, by rw [hb]; simp [crlf]⟩
      rw [List.cons_append, lineLoop, if_pos (by omega), if_neg hc]
      have hi : IsLine ((out ++ [c]) ++ l) := by
        rw [List.append_assoc]
        exact h
      rw [ih hi, List.append_assoc]
      rfl

theorem sslReadLine_line (e : WireEnd) {l : Bytes} (h : IsLine l) (s : Bytes) :
    sslReadLine e (l ++ (crlf ++ s)) = .ok (l, s) := by
  rw [sslReadLine, lineLoop_line e _ (by simpa using h) s, List.nil_append]

theorem isLine_nil : IsLine [] := ⟨by decide, by decide⟩

theorem IsLine.tail {c : Byte} {l : Bytes} (h : IsLine (c :: l)) : IsLine l := by
  refine ⟨fun hi => h.plain (hi.trans (List.suffix_cons c l).isInfix), ?_⟩
  have := h.short
  rw [List.length_cons] at this
  omega

/-- Both readers go through the header lines in the same way. -/
theorem headerLoop_lines (e : WireEnd) {headers : List Bytes} (h : ∀ l ∈ headers, l ≠ [] ∧ IsLine l)
    {fuel : Nat} (hf : headers.length < fuel) (hs : List (Bytes × Bytes)) (n : Nat) (s : Bytes) :
    headerLoop e fuel hs n (wireHeaders headers ++ (crlf ++ s)) =
      .ok (hs ++ headers.flatMap (fun l => (headerOf l).toList),
        headers.foldl (fun n l => lengthAfter n (headerOf l)) n, s) := by
  induction headers generalizing fuel hs n with
  | nil =>
      obtain ⟨fuel, rfl⟩ : ∃ k, fuel = k + 1 := ⟨fuel - 1, by simp at hf; omega⟩
      have hnil := sslReadLine_line e isLine_nil s
      rw [List.nil_append] at hnil
      rw [wireHeaders, List.flatMap_nil, List.nil_append, headerLoop, hnil]
      simp
  | cons l headers ih =>
      obtain ⟨fuel, rfl⟩ : ∃ k, fuel = k + 1 := ⟨fuel - 1, by simp at hf; omega⟩
      obtain ⟨hne, hl⟩ := h l List.mem_cons_self
      obtain ⟨c, rest, rfl⟩ := List.exists_cons_of_ne_nil hne
      have hline := sslReadLine_line e hl (wireHeaders headers ++ (crlf ++ s))
      rw [wireHeaders, List.flatMap_cons, List.append_assoc, List.append_assoc, headerLoop]
      rw [wireHeaders] at hline
      rw [hline]
      simp only
      have hstep := ih (fun l hl => h l (List.mem_cons_of_mem _ hl))
        (by rw [List.length_cons] at hf; omega : headers.length < fuel)
        (hs ++ (headerOf (c :: rest)).toList) (lengthAfter n (headerOf (c :: rest)))
      rw [wireHeaders] at hstep
      rw [hstep, List.append_assoc, List.flatMap_cons, List.foldl_cons]

theorem headers_fuel (headers : List Bytes) (s : Bytes) :
    headers.length < (wireHeaders headers ++ (crlf ++ s)).length + 1 := by
  have h : headers.length ≤ (wireHeaders headers).length := by
    induction headers with
    | nil => exact Nat.zero_le _
    | cons l headers ih =>
        rw [wireHeaders, List.flatMap_cons, List.length_append, List.length_append, List.length_cons,
          ← wireHeaders]
        simp only [crlf, List.length_cons, List.length_nil]
        omega
  rw [List.length_append]
  omega

theorem readBody_reply (e : WireEnd) (r : RtspReply) (tooLong s : Bytes) :
    readBody e tooLong (contentLength r.headers) (r.body ++ s) = .ok (r.body, s) := by
  have hcap := r.capped
  rw [r.announced] at hcap
  rw [readBody, if_neg (by omega)]
  exact readSome_append e s r.announced

/-- The reply begins with the byte that both readers take for the start of a reply. -/
theorem RtspReply.status_eq (r : RtspReply) : ∃ rest, r.status = Ascii.letter 'R' :: rest := by
  have h := r.version
  cases hs : r.status with
  | nil =>
      rw [hs] at h
      exact absurd h (by decide)
  | cons c rest =>
      rw [hs, List.take_succ_cons] at h
      have hc : c = Ascii.letter 'R' := (List.cons.inj h).1
      rw [hc]
      exact ⟨rest, rfl⟩

theorem RtspReply.wire_eq (r : RtspReply) {rest : Bytes} (h : r.status = Ascii.letter 'R' :: rest)
    (s : Bytes) : r.wire ++ s = [Ascii.letter 'R'] ++
      (rest ++ (crlf ++ (wireHeaders r.headers ++ (crlf ++ (r.body ++ s))))) := by
  simp [RtspReply.wire, h]

/-- What `await_response` makes of the reply. -/
def RtspReply.response (r : RtspReply) (code reason : Bytes) : Response where
  status := atoi code
  reason := trim reason
  headers := r.headers.flatMap fun l => (headerOf l).toList
  body := r.body

theorem readResponse_reply (e : WireEnd) (r : RtspReply) {rest : Bytes}
    (h : r.status = Ascii.letter 'R' :: rest) (s : Bytes) :
    ∃ resp, readResponse e (Ascii.letter 'R')
      (rest ++ (crlf ++ (wireHeaders r.headers ++ (crlf ++ (r.body ++ s))))) = .ok (resp, s) := by
  obtain ⟨⟨code, reason⟩, hcode⟩ := Option.isSome_iff_exists.1 r.code
  refine ⟨r.response code reason, ?_⟩
  have hline : statusLine e (Ascii.letter 'R')
      (rest ++ (crlf ++ (wireHeaders r.headers ++ (crlf ++ (r.body ++ s))))) =
        .ok (r.status, wireHeaders r.headers ++ (crlf ++ (r.body ++ s))) := by
    have hl : IsLine ([Ascii.letter 'R'] ++ rest) := by
      have := r.statusLine
      rwa [h] at this
    rw [statusLine, lineLoop_line e _ hl, h]
    rfl
  have hwf : ¬ (r.status.length < 12 ∨ r.status.take 7 ≠ ascii "RTSP/1.") := by
    have := r.long
    simp only [r.version, ne_eq, not_true, or_false]
    omega
  have hheaders := headerLoop_lines e r.headerLines (headers_fuel r.headers (r.body ++ s)) [] 0
    (r.body ++ s)
  have hbody := readBody_reply e r (ascii "rtsp: response body exceeds cap") s
  rw [contentLength] at hbody
  unfold readResponse
  simp only [hline, bind, Except.bind, if_neg hwf, hcode, hheaders, hbody]
  rfl

theorem drainResponse_reply (e : WireEnd) (r : RtspReply) {rest : Bytes}
    (h : r.status = Ascii.letter 'R' :: rest) (s : Bytes) :
    drainResponse e (rest ++ (crlf ++ (wireHeaders r.headers ++ (crlf ++ (r.body ++ s))))) = .ok s := by
  have hl : IsLine rest := by
    have := r.statusLine
    rw [h] at this
    exact this.tail
  have hheaders := headerLoop_lines e r.headerLines (headers_fuel r.headers (r.body ++ s)) [] 0
    (r.body ++ s)
  have hbody := readBody_reply e r (ascii "rtsp: stray response body exceeds cap") s
  rw [contentLength] at hbody
  unfold drainResponse
  simp only [sslReadLine_line e hl, bind, Except.bind, hheaders, hbody]
  rfl

/-! ## The readers side by side -/

theorem sslReadFull_reply (e : WireEnd) (r : RtspReply) {rest : Bytes}
    (h : r.status = Ascii.letter 'R' :: rest) (s : Bytes) :
    sslReadFull e 1 (r.wire ++ s) = .ok ([Ascii.letter 'R'],
      rest ++ (crlf ++ (wireHeaders r.headers ++ (crlf ++ (r.body ++ s))))) := by
  rw [r.wire_eq h]
  exact sslReadFull_append e _ rfl

theorem awaitTurn_reply (rtpPt : Int) (e : WireEnd) (r : RtspReply) (s : Bytes) (d : Demux) :
    ∃ resp, awaitTurn rtpPt e (r.wire ++ s) d = .ok (some resp, s, d) := by
  obtain ⟨rest, h⟩ := r.status_eq
  obtain ⟨resp, hr⟩ := readResponse_reply e r h s
  refine ⟨resp, ?_⟩
  have hne : ¬ Ascii.letter 'R' = dollar := by decide
  unfold awaitTurn
  rw [sslReadFull_reply e r h]
  simp only [bind, Except.bind, List.getD_cons_zero, if_neg hne, hr]
  rfl

theorem pullOneMessage_reply (rtpPt : Int) (e : WireEnd) (r : RtspReply) (s : Bytes) (d : Demux) :
    pullOneMessage rtpPt e (r.wire ++ s) d = .ok (s, d) := by
  obtain ⟨rest, h⟩ := r.status_eq
  have hne : ¬ Ascii.letter 'R' = dollar := by decide
  unfold pullOneMessage
  rw [sslReadFull_reply e r h]
  simp only [bind, Except.bind, List.getD_cons_zero, if_neg hne, if_true, drainResponse_reply e r h]
  rfl

theorem awaitLoop_frames (rtpPt : Int) (e : WireEnd) (fs : List InterleavedFrame) (fuel : Nat)
    (s : Bytes) (d : Demux) :
    awaitLoop rtpPt e (fs.length + fuel) (wireFrames fs ++ s) d =
      awaitLoop rtpPt e fuel s (decodeFrames rtpPt fs d) := by
  induction fs generalizing d with
  | nil =>
      rw [List.length_nil, Nat.zero_add]
      rfl
  | cons f fs ih =>
      rw [wireFrames, List.flatMap_cons, List.append_assoc, List.length_cons, Nat.succ_add, awaitLoop,
        awaitTurn_frame]
      exact ih (f.decode rtpPt d)

theorem wireFrames_length (fs : List InterleavedFrame) : fs.length ≤ (wireFrames fs).length := by
  induction fs with
  | nil => exact Nat.zero_le _
  | cons f fs ih =>
      rw [wireFrames, List.flatMap_cons, List.length_append, List.length_cons, ← wireFrames]
      simp only [InterleavedFrame.wire, List.length_cons]
      omega

/-- `await_response` returns the reply, with the frames in front of it in the queue. -/
theorem awaitResponse_reply (rtpPt : Int) (e : WireEnd) (fs : List InterleavedFrame) (r : RtspReply)
    (s : Bytes) (d : Demux) :
    ∃ resp, awaitResponse rtpPt e (wireFrames fs ++ (r.wire ++ s)) d =
      .ok (resp, s, decodeFrames rtpPt fs d) := by
  obtain ⟨resp, hr⟩ := awaitTurn_reply rtpPt e r s (decodeFrames rtpPt fs d)
  have hl := wireFrames_length fs
  obtain ⟨fuel, hf⟩ : ∃ fuel, (wireFrames fs ++ (r.wire ++ s)).length + 1 = fs.length + (fuel + 1) :=
    ⟨(wireFrames fs ++ (r.wire ++ s)).length - fs.length, by rw [List.length_append]; omega⟩
  refine ⟨resp, ?_⟩
  rw [awaitResponse, hf, awaitLoop_frames, awaitLoop, hr]

theorem pullMessages_append (rtpPt : Int) (e : WireEnd) (j k : Nat) {s : Bytes} {d : Demux}
    {s' : Bytes} {d' : Demux} (h : pullMessages rtpPt e j s d = .ok (s', d')) :
    pullMessages rtpPt e (j + k) s d = pullMessages rtpPt e k s' d' := by
  induction j generalizing s d with
  | zero =>
      cases h
      rw [Nat.zero_add]
  | succ j ih =>
      rw [pullMessages] at h
      rw [Nat.succ_add, pullMessages]
      cases hp : pullOneMessage rtpPt e s d with
      | error x =>
          rw [hp] at h
          cases h
      | ok p =>
          rw [hp] at h
          exact ih h

theorem pullMessages_error (rtpPt : Int) (e : WireEnd) (j k : Nat) {s : Bytes} {d : Demux} {x : ReadEnd}
    (h : pullMessages rtpPt e j s d = .error x) : pullMessages rtpPt e (j + k) s d = .error x := by
  induction j generalizing s d with
  | zero => cases h
  | succ j ih =>
      rw [pullMessages] at h
      rw [Nat.succ_add, pullMessages]
      cases hp : pullOneMessage rtpPt e s d with
      | error y =>
          rw [hp] at h
          exact h
      | ok p =>
          rw [hp] at h
          exact ih h

/-- The two readers agree on the frames of a stream, whatever stands behind these, exactly
when no frame is empty: `await_response` takes an empty frame and `pull_one_message` calls it
implausible. On the same condition they agree on the frames and a reply behind them. -/
theorem readers_agree_iff (rtpPt : Int) (e : WireEnd) (fs : List InterleavedFrame) (s : Bytes) (d : Demux) :
    (FramesAgree rtpPt e fs s d ↔ ∀ f ∈ fs, f.payload ≠ []) ∧
      ∀ r : RtspReply,
        (∃ resp d', awaitResponse rtpPt e (wireFrames fs ++ (r.wire ++ s)) d = .ok (resp, s, d') ∧
          pullMessages rtpPt e (fs.length + 1) (wireFrames fs ++ (r.wire ++ s)) d = .ok (s, d')) ↔
        ∀ f ∈ fs, f.payload ≠ [] := by
  constructor
  · unfold FramesAgree
    rw [awaitTurns_frames]
    constructor
    · intro h
      by_contra hc
      rw [pullMessages_empty rtpPt e (by simpa using hc)] at h
      cases h
    · intro h
      rw [pullMessages_frames rtpPt e h]
  · intro r
    constructor
    · intro ⟨resp, d', _, hp⟩
      by_contra hc
      have herr := pullMessages_empty rtpPt e (by simpa using hc : ∃ f ∈ fs, f.payload = [])
        (r.wire ++ s) d
      rw [pullMessages_error rtpPt e _ 1 herr] at hp
      cases hp
    · intro h
      obtain ⟨resp, hr⟩ := awaitResponse_reply rtpPt e fs r s d
      refine ⟨resp, decodeFrames rtpPt fs d, hr, ?_⟩
      rw [pullMessages_append rtpPt e _ 1 (pullMessages_frames rtpPt e h (r.wire ++ s) d), pullMessages,
        pullOneMessage_reply]
      rfl

theorem zero_lt_maxPayload : ([] : Bytes).length < 65536 := by decide

/-- An empty RTCP frame: one reader drops it, the other gives up the stream. -/
theorem readers_disagree :
    ¬ FramesAgree 96 .silent [⟨1, [], zero_lt_maxPayload⟩] [] ⟨[], ⟨[], 0, false⟩⟩ := by
  unfold FramesAgree
  rw [awaitTurns_frames, pullMessages_empty 96 .silent ⟨_, List.mem_cons_self, rfl⟩]
  intro h
  cases h

end OpenBambu.Rtsp
