import OpenBambu.Upload.Receive

/-!
# The chunked upload

`run_chunked_upload` asks the printer where to go on, hashes the part of the file the printer
has, sends the rest in chunks and waits for a final result. The file is what its stream
returns; it does not change while it is read.
-/

namespace OpenBambu.Upload

open OpenBambu.Foundation OpenBambu.Json OpenBambu.Tunnel

structure UploadRequest where
  localPath : Bytes
  destStorage : Bytes
  destName : Bytes

structure UploadOutcome where
  ok : Bool := false
  bytes : UInt64 := 0
  md5Lower : Bytes := []
  wireResult : Int := 0
  error : Option Error := none
  deriving DecidableEq, Repr

/-- A file of a size that a stream offset can hold. -/
structure File where
  content : Bytes
  fits : content.length < 2 ^ 63

def File.size (f : File) : Nat := f.content.length

/-- `in.read` at a position: fewer bytes than wanted at the end of the file. -/
def File.read (f : File) (pos want : Nat) : Bytes := (f.content.drop pos).take want

/-- OpenSSL's MD5, on the concatenation of the updates. -/
structure Md5 where
  digest : Bytes → Bytes
  size : ∀ b, (digest b).length = 16

def hexLower (digest : Bytes) : Bytes :=
  digest.flatMap fun b => [hexDigit (b.toNat / 16), hexDigit (b.toNat % 16)]

/-- A context is the updates it was given. -/
def md5FinalizeLower (md5 : Md5) (ctx : Bytes) : Bytes := hexLower (md5.digest ctx)

/-- The chunk in memory is the stream, so it is never too short. -/
def sendAbiJsonWithBinary (s : Session) (abiJson bin : Bytes) : Bool × Session :=
  if bin = [] then sendAbiJson s abiJson
  else sendFrame s kMagicCtrlClient (wrapCtrlAbi abiJson ++ Ascii.lf :: Ascii.lf :: bin)

/-- The loop over the part before the offset: the context, or `none` on a read error. -/
def hashPrefix (f : File) (bufferSize offset : Nat) : Nat → Nat → Bytes → Except Halt (Option Bytes)
  | 0, _, _ => .error .hang
  | fuel + 1, hashed, ctx =>
      if offset ≤ hashed then .ok (some ctx)
      else
        let got := f.read hashed (min (offset - hashed) bufferSize)
        if got = [] then .ok none
        else hashPrefix f bufferSize offset fuel (hashed + got.length) (ctx ++ got)

/-- The variables of the chunk loop, and the position of the stream. -/
structure Progress where
  pos : Nat
  /-- Below `2^64`: a chunk starts below the size of the file. -/
  offset : Nat
  fragId : UInt32
  ctx : Bytes
  digestLower : Bytes

section Loop

variable (md5 : Md5) (f : File) (seq : UInt32) (bufferSize : Nat)

namespace Progress

variable (p : Progress)

/-- What a turn reads. -/
def got : Bytes := f.read p.pos (min (f.size - p.offset) bufferSize)

/-- The cast to 32 bits comes behind the read. -/
def readSize : UInt32 := UInt32.ofNat (p.got f bufferSize).length

/-- The part of the buffer that is hashed and sent. -/
def chunk : Bytes := (p.got f bufferSize).take (p.readSize f bufferSize).toNat

def lastChunk : Bool := f.size ≤ p.offset + (p.readSize f bufferSize).toNat

def fileMd5 : Bytes :=
  if p.lastChunk f bufferSize then md5FinalizeLower md5 (p.ctx ++ p.chunk f bufferSize) else []

def chunkAbi : Bytes :=
  buildFileUploadChunkAbi seq p.fragId (UInt64.ofNat p.offset) (p.readSize f bufferSize)
    (p.fileMd5 md5 f bufferSize)

/-- The variables behind a chunk that was sent. -/
def next : Progress where
  pos := p.pos + (p.got f bufferSize).length
  offset := p.offset + (p.readSize f bufferSize).toNat
  fragId := p.fragId + 1
  ctx := p.ctx ++ p.chunk f bufferSize
  digestLower := if p.lastChunk f bufferSize then p.fileMd5 md5 f bufferSize else p.digestLower

end Progress

/-- What a turn of the chunk loop comes to: the end of the loop, or a chunk that was sent. -/
inductive ChunkTurn where
  | ends (result : Except Error Bytes) (s : Session)
  | sent (p : Progress) (s : Session)

variable (cancelled : Nat → Bool)

def chunkTurn (turn : Nat) (p : Progress) (s : Session) : ChunkTurn :=
  if f.size ≤ p.offset then .ends (.ok p.digestLower) s
  else if cancelled turn then .ends (.error .cancelled) s
  else if p.got f bufferSize = [] then .ends (.error .read) s
  else if p.lastChunk f bufferSize ∧ p.fileMd5 md5 f bufferSize = [] then .ends (.error .md5Finalize) s
  else
    match sendAbiJsonWithBinary s (p.chunkAbi md5 f seq bufferSize) (p.chunk f bufferSize) with
    | (false, s) => .ends (.error .io) s
    | (true, s) => .sent (p.next md5 f bufferSize) s

/-- The chunk loop: the digest it has come to, or why it stopped. -/
def chunkLoop : Nat → Nat → Progress → Session → Except Halt (Except Error Bytes × Session)
  | 0, _, _, _ => .error .hang
  | fuel + 1, turn, p, s =>
      match chunkTurn md5 f seq bufferSize cancelled turn p s with
      | .ends result s => .ok (result, s)
      | .sent p s => chunkLoop fuel (turn + 1) p s

/-- `offset` behind each chunk that the loop sends, of which it makes a percentage. -/
def chunkEnds : Nat → Nat → Progress → Session → List Nat
  | 0, _, _, _ => []
  | fuel + 1, turn, p, s =>
      match chunkTurn md5 f seq bufferSize cancelled turn p s with
      | .ends _ _ => []
      | .sent p s => p.offset :: chunkEnds fuel (turn + 1) p s

end Loop

/-- The attempts to receive the final result; `none` when the connection fails. -/
def finalLoop (seq : UInt32) : Nat → Int → Session → Except Halt (Option Int × Session)
  | 0, resultCode, s => .ok (some resultCode, s)
  | attempts + 1, _, s =>
      match recvWireJson kCmdFileUpload seq s with
      | .error h => .error h
      | .ok (none, s) => .ok (none, s)
      | .ok (some wireJson, s) =>
          let resultCode := parseWireResult wireJson
          if resultCode = 1 then finalLoop seq attempts resultCode s else .ok (some resultCode, s)

/-- The exchange that opens the upload: the chunk size in KB and the offset of the reply, or
the outcome where it comes to none. -/
def initUpload (seq : UInt32) (req : UploadRequest) (f : File) (s : Session) :
    Except Halt (Except UploadOutcome (UInt32 × UInt64) × Session) :=
  match drainStaleWireJson s with
  | .error h => .error h
  | .ok s =>
      match sendAbiJson s (buildFileUploadInitAbi seq req.destStorage req.destName (UInt64.ofNat f.size)) with
      | (false, s) => .ok (.error { error := some .io }, s)
      | (true, s) =>
          match recvWireJson kCmdFileUpload seq s with
          | .error h => .error h
          | .ok (none, s) => .ok (.error { error := some .io }, s)
          | .ok (some wireJson, s) =>
              match parseUploadInitReply wireJson with
              | (initResult, none) =>
                  .ok (.error { wireResult := initResult, error := some .badInitReply }, s)
              | (_, some start) => .ok (.ok start, s)

/-- The final result and the outcome. -/
def finishUpload (seq : UInt32) (f : File) (digestLower : Bytes) (s : Session) :
    Except Halt (UploadOutcome × Session) :=
  match finalLoop seq 32 (-1) s with
  | .error h => .error h
  | .ok (none, s) => .ok ({ error := some .io }, s)
  | .ok (some resultCode, s) =>
      let out : UploadOutcome :=
        { bytes := UInt64.ofNat f.size, md5Lower := digestLower, wireResult := resultCode }
      if resultCode = 0 ∨ resultCode = 19 then .ok ({ out with ok := true }, s)
      else .ok ({ out with error := some (.uploadResult resultCode) }, s)

/-- Everything behind the reply to the init request. Each turn of the loops takes at least
one byte of the file. -/
def transfer (md5 : Md5) (seq : UInt32) (f : File) (cancelled : Nat → Bool) (chunkSizeKb : UInt32)
    (offset : UInt64) (s : Session) : Except Halt (UploadOutcome × Session) :=
  let bufferSize := chunkSizeKb.toNat * 1024
  match hashPrefix f bufferSize offset.toNat (f.size + 1) 0 [] with
  | .error h => .error h
  | .ok none => .ok ({ error := some .readPrefix }, s)
  | .ok (some ctx) =>
      let start : Progress :=
        { pos := offset.toNat, offset := offset.toNat, fragId := 0, ctx := ctx, digestLower := [] }
      match chunkLoop md5 f seq bufferSize cancelled (f.size + 1) 0 start s with
      | .error h => .error h
      | .ok (.error e, s) => .ok ({ error := some e }, s)
      | .ok (.ok digestLower, s) => finishUpload seq f digestLower s

/-- `opened` is the file at the local path, if it can be opened. -/
def runChunkedUpload (md5 : Md5) (seq : UInt32) (req : UploadRequest) (opened : Option File)
    (cancelled : Nat → Bool) (s : Session) : Except Halt (UploadOutcome × Session) :=
  if req.destStorage = [] ∨ req.destName = [] ∨ req.localPath = [] then
    .ok ({ error := some .missingFields }, s)
  else
    match opened with
    | none => .ok ({ error := some .cannotOpen }, s)
    | some f =>
        match initUpload seq req f s with
        | .error h => .error h
        | .ok (.error out, s) => .ok (out, s)
        | .ok (.ok (chunkSizeKb, offset), s) => transfer md5 seq f cancelled chunkSizeKb offset s

/-! ## What the loops come to -/

@[simp] theorem length_hexLower (digest : Bytes) : (hexLower digest).length = 2 * digest.length := by
  simp [hexLower, List.length_flatMap, Nat.mul_comm]

theorem md5FinalizeLower_ne_nil (md5 : Md5) (ctx : Bytes) : md5FinalizeLower md5 ctx ≠ [] := by
  intro h
  have hlen := congrArg List.length h
  rw [md5FinalizeLower, length_hexLower, md5.size] at hlen
  exact absurd hlen (by decide)

theorem File.length_read (f : File) (pos want : Nat) :
    (f.read pos want).length = min want (f.size - pos) := by
  rw [File.read, List.length_take, List.length_drop, File.size]

theorem File.take_read (f : File) (pos want : Nat) :
    f.content.take pos ++ f.read pos want = f.content.take (pos + (f.read pos want).length) := by
  have hlen : (f.content.drop pos).take (f.read pos want).length = f.read pos want := by
    rw [File.read, List.length_take]
    exact (List.take_eq_take_min).symm
  rw [List.take_add, hlen]

/-- The prefix is hashed when the file has it, and a read error otherwise. -/
theorem hashPrefix_spec (f : File) {bufferSize : Nat} (hb : 0 < bufferSize) (offset fuel : Nat)
    {hashed : Nat} (hle : hashed ≤ f.size) (hoff : hashed ≤ offset) (hfuel : f.size < hashed + fuel) :
    hashPrefix f bufferSize offset fuel hashed (f.content.take hashed) =
      .ok (if offset ≤ f.size then some (f.content.take offset) else none) := by
  induction fuel generalizing hashed with
  | zero => omega
  | succ fuel ih =>
      rw [hashPrefix]
      by_cases hdone : offset ≤ hashed
      · obtain rfl : hashed = offset := by omega
        rw [if_pos hdone, if_pos hle]
      · have hlen := f.length_read hashed (min (offset - hashed) bufferSize)
        rw [if_neg hdone]
        simp only
        split_ifs with hgot hin
        · rw [hgot, List.length_nil] at hlen
          omega
        · rfl
        all_goals
          have hpos := List.length_pos_iff.mpr hgot
          rw [f.take_read, ih (by omega) (by omega) (by omega)]
        · rw [if_pos ‹_›]
        · rw [if_neg ‹_›]

theorem finalLoop_sent {seq : UInt32} {attempts : Nat} {code : Int} {s s' : Session} {r : Option Int}
    (h : finalLoop seq attempts code s = .ok (r, s')) : s'.sent = s.sent := by
  induction attempts generalizing code s with
  | zero =>
      obtain ⟨-, rfl⟩ := Prod.mk.inj (Except.ok.inj h)
      rfl
  | succ attempts ih =>
      rw [finalLoop] at h
      split at h
      · exact absurd h (by simp)
      all_goals rename_i hrecv
      · obtain ⟨-, rfl⟩ := Prod.mk.inj (Except.ok.inj h)
        exact recvWireJson_sent hrecv
      · simp only at h
        split_ifs at h
        · exact (ih h).trans (recvWireJson_sent hrecv)
        · obtain ⟨-, rfl⟩ := Prod.mk.inj (Except.ok.inj h)
          exact recvWireJson_sent hrecv

/-! ## The chunk loop -/

section Loop

variable {md5 : Md5} {f : File} {seq : UInt32} {bufferSize : Nat} {cancelled : Nat → Bool}

variable (f bufferSize) in
theorem length_got (p : Progress) :
    (p.got f bufferSize).length = min (min (f.size - p.offset) bufferSize) (f.size - p.pos) :=
  f.length_read _ _

variable (f bufferSize) in
theorem readSize_toNat (p : Progress) :
    (p.readSize f bufferSize).toNat = (p.got f bufferSize).length % 2 ^ 32 := by
  rw [Progress.readSize, UInt32.toNat_ofNat']

/-- A turn that sends a chunk has found some of the file to send. -/
theorem chunkTurn_sent {turn : Nat} {p p' : Progress} {s s' : Session}
    (h : chunkTurn md5 f seq bufferSize cancelled turn p s = .sent p' s') :
    p.offset < f.size ∧ p.got f bufferSize ≠ [] ∧ p' = p.next md5 f bufferSize ∧
      sendAbiJsonWithBinary s (p.chunkAbi md5 f seq bufferSize) (p.chunk f bufferSize) = (true, s') := by
  rw [chunkTurn] at h
  split_ifs at h with hdone hstop hgot hmd5
  cases hsend : sendAbiJsonWithBinary s (p.chunkAbi md5 f seq bufferSize) (p.chunk f bufferSize) with
  | mk sent s₁ =>
      rw [hsend] at h
      cases sent with
      | false => cases h
      | true =>
          cases h
          exact ⟨Nat.lt_of_not_le hdone, hgot, rfl, rfl⟩

/-- A turn that comes to a digest is behind the end of the file. -/
theorem chunkTurn_digest {turn : Nat} {p : Progress} {s s' : Session} {digest : Bytes}
    (h : chunkTurn md5 f seq bufferSize cancelled turn p s = .ends (.ok digest) s') :
    f.size ≤ p.offset ∧ digest = p.digestLower ∧ s' = s := by
  rw [chunkTurn] at h
  split_ifs at h with hdone hstop hgot hmd5
  · cases h
    exact ⟨hdone, rfl, rfl⟩
  · cases h
  · cases h
  · cases h
  · cases hsend : sendAbiJsonWithBinary s (p.chunkAbi md5 f seq bufferSize) (p.chunk f bufferSize) with
    | mk sent s₁ =>
        rw [hsend] at h
        cases sent with
        | false => cases h
        | true => cases h

/-- A loop that comes to a digest is behind the end of the file, or has sent a chunk and goes
on. -/
theorem chunkLoop_turn {fuel turn : Nat} {p : Progress} {s s' : Session} {digest : Bytes}
    (h : chunkLoop md5 f seq bufferSize cancelled (fuel + 1) turn p s = .ok (.ok digest, s')) :
    (f.size ≤ p.offset ∧ digest = p.digestLower ∧ s' = s) ∨
      (p.offset < f.size ∧ p.got f bufferSize ≠ [] ∧ ∃ s₁,
        sendAbiJsonWithBinary s (p.chunkAbi md5 f seq bufferSize) (p.chunk f bufferSize) = (true, s₁) ∧
        chunkLoop md5 f seq bufferSize cancelled fuel (turn + 1) (p.next md5 f bufferSize) s₁ =
          .ok (.ok digest, s')) := by
  rw [chunkLoop] at h
  cases hturn : chunkTurn md5 f seq bufferSize cancelled turn p s with
  | ends result s₁ =>
      rw [hturn] at h
      obtain ⟨rfl, rfl⟩ := Prod.mk.inj (Except.ok.inj h)
      exact Or.inl (chunkTurn_digest hturn)
  | sent p₁ s₁ =>
      rw [hturn] at h
      obtain ⟨hin, hgot, rfl, hsend⟩ := chunkTurn_sent hturn
      exact Or.inr ⟨hin, hgot, s₁, hsend, h⟩

/-- The chunks end one behind the other, inside the file. -/
theorem chunkEnds_rise (fuel turn : Nat) (p : Progress) (s : Session) :
    (p.offset :: chunkEnds md5 f seq bufferSize cancelled fuel turn p s).IsChain (· ≤ ·) ∧
      ∀ x ∈ chunkEnds md5 f seq bufferSize cancelled fuel turn p s, x ≤ f.size := by
  induction fuel generalizing turn p s with
  | zero => simp [chunkEnds]
  | succ fuel ih =>
      rw [chunkEnds]
      cases hturn : chunkTurn md5 f seq bufferSize cancelled turn p s with
      | ends result s₁ => simp
      | sent p₁ s₁ =>
          obtain ⟨hin, -, rfl, -⟩ := chunkTurn_sent hturn
          obtain ⟨hchain, hle⟩ := ih (turn + 1) (p.next md5 f bufferSize) s₁
          have hgot := length_got f bufferSize p
          have hread := readSize_toNat f bufferSize p
          have hmod := Nat.mod_le (p.got f bufferSize).length (2 ^ 32)
          have hnext : (p.next md5 f bufferSize).offset =
              p.offset + (p.readSize f bufferSize).toNat := rfl
          refine ⟨List.isChain_cons_cons.mpr ⟨by omega, hchain⟩, fun x hx => ?_⟩
          rcases List.mem_cons.mp hx with rfl | hx
          · omega
          · exact hle x hx

/-- Once the stream is ahead of the offset the loop never comes to its end. -/
theorem chunkLoop_ahead {fuel turn : Nat} {p : Progress} {s s' : Session} {digest : Bytes}
    (hahead : p.offset < p.pos) (hpos : p.pos ≤ f.size) :
    chunkLoop md5 f seq bufferSize cancelled fuel turn p s ≠ .ok (.ok digest, s') := by
  induction fuel generalizing turn p s with
  | zero => simp [chunkLoop]
  | succ fuel ih =>
      intro h
      rcases chunkLoop_turn h with ⟨hdone, -⟩ | ⟨-, hgot, s₁, -, hrest⟩
      · omega
      · have hlen := length_got f bufferSize p
        have hmod := Nat.mod_le (p.got f bufferSize).length (2 ^ 32)
        refine ih ?_ ?_ hrest
        · rw [Progress.next, readSize_toNat]
          simp only
          omega
        · rw [Progress.next]
          simp only
          omega

variable (f) in
/-- The variables in front of chunk `k`, when the chunks so far took all they read. -/
def resumed (k offset : Nat) : Progress where
  pos := offset
  offset := offset
  fragId := UInt32.ofNat k
  ctx := f.content.take offset
  digestLower := []

variable (md5 f seq bufferSize) in
/-- The body of chunk `k`. -/
def chunkBody (k offset : Nat) : Bytes :=
  wrapCtrlAbi ((resumed f k offset).chunkAbi md5 f seq bufferSize) ++
    Ascii.lf :: Ascii.lf :: (resumed f k offset).chunk f bufferSize

variable (f bufferSize) in
/-- The number of bytes of the chunk at an offset. -/
def chunkSize (offset : Nat) : Nat := min bufferSize (f.size - offset)

variable (md5 f seq bufferSize) in
/-- What is written for the chunks from `k` on. -/
inductive SentFrom : Nat → Nat → Bytes → Prop
  | done (k : Nat) : SentFrom k f.size []
  | chunk {k offset : Nat} {wire : Bytes} (frameSeq : UInt32) (inside : offset < f.size)
      (short : chunkSize f bufferSize offset < 2 ^ 32)
      (rest : SentFrom (k + 1) (offset + chunkSize f bufferSize offset) wire) :
      SentFrom k offset
        (buildFrameHeader (UInt32.ofNat (chunkBody md5 f seq bufferSize k offset).length)
          kMagicCtrlClient frameSeq ++ chunkBody md5 f seq bufferSize k offset ++ wire)

section Resumed

variable (k : Nat) {offset : Nat}

variable (f bufferSize offset) in
theorem length_got_resumed :
    ((resumed f k offset).got f bufferSize).length = chunkSize f bufferSize offset := by
  rw [length_got, chunkSize]
  simp only [resumed]
  omega

variable (hshort : chunkSize f bufferSize offset < 2 ^ 32)

include hshort

theorem readSize_resumed :
    ((resumed f k offset).readSize f bufferSize).toNat = chunkSize f bufferSize offset := by
  rw [readSize_toNat, length_got_resumed, Nat.mod_eq_of_lt hshort]

theorem chunk_resumed :
    (resumed f k offset).chunk f bufferSize = f.read offset (chunkSize f bufferSize offset) := by
  have hlen := length_got_resumed f bufferSize k offset
  rw [Progress.chunk, readSize_resumed k hshort, List.take_of_length_le hlen.le, Progress.got,
    chunkSize]
  simp only [resumed, File.read]
  rw [List.take_eq_take_iff, List.length_drop, File.size]
  omega

theorem ctx_resumed :
    f.content.take offset ++ (resumed f k offset).chunk f bufferSize =
      f.content.take (offset + chunkSize f bufferSize offset) := by
  rw [chunk_resumed k hshort, f.take_read, f.length_read, chunkSize]
  congr 2
  omega

theorem lastChunk_resumed : (resumed f k offset).lastChunk f bufferSize = true ↔
    f.size ≤ offset + chunkSize f bufferSize offset := by
  rw [Progress.lastChunk, readSize_resumed k hshort, decide_eq_true_eq]
  rfl

variable (md5) in
theorem fileMd5_resumed : (resumed f k offset).fileMd5 md5 f bufferSize =
    if f.size ≤ offset + chunkSize f bufferSize offset then md5FinalizeLower md5 f.content else [] := by
  have hctx : (resumed f k offset).ctx = f.content.take offset := rfl
  simp only [Progress.fileMd5, lastChunk_resumed k hshort, hctx, ctx_resumed k hshort]
  split_ifs with hlast
  · rw [List.take_of_length_le hlast]
  · rfl

variable (md5) in
theorem next_resumed (carried : Bytes) :
    ({ resumed f k offset with digestLower := carried } : Progress).next md5 f bufferSize =
      { resumed f (k + 1) (offset + chunkSize f bufferSize offset) with
        digestLower :=
          if f.size ≤ offset + chunkSize f bufferSize offset then md5FinalizeLower md5 f.content
          else carried } := by
  have hctx := ctx_resumed k hshort
  have hlast := lastChunk_resumed k hshort
  have hmd5 := fileMd5_resumed md5 k hshort
  have hsize := readSize_resumed k hshort
  have hlen := length_got_resumed f bufferSize k offset
  change Progress.mk (offset + ((resumed f k offset).got f bufferSize).length)
    (offset + ((resumed f k offset).readSize f bufferSize).toNat) (UInt32.ofNat k + 1)
    (f.content.take offset ++ (resumed f k offset).chunk f bufferSize)
    (if (resumed f k offset).lastChunk f bufferSize = true
      then (resumed f k offset).fileMd5 md5 f bufferSize else carried) = _
  have hnext : UInt32.ofNat k + 1 = UInt32.ofNat (k + 1) := (UInt32.ofNat_add k 1).symm
  rw [hlen, hsize, hctx, hnext]
  simp only [hlast, hmd5]
  rw [resumed]
  split_ifs <;> rfl

end Resumed

/-- A send that succeeds has written the frame of the chunk. -/
theorem sendAbiJsonWithBinary_sent {s s' : Session} {abiJson bin : Bytes} (hbin : bin ≠ [])
    (h : sendAbiJsonWithBinary s abiJson bin = (true, s')) :
    s'.sent = s.sent ++
      (buildFrameHeader (UInt32.ofNat (wrapCtrlAbi abiJson ++ Ascii.lf :: Ascii.lf :: bin).length)
        kMagicCtrlClient s.seq ++ (wrapCtrlAbi abiJson ++ Ascii.lf :: Ascii.lf :: bin)) := by
  obtain ⟨-, -, -, hsent⟩ := sendFrame_frame s kMagicCtrlClient
    (wrapCtrlAbi abiJson ++ Ascii.lf :: Ascii.lf :: bin)
  rw [sendAbiJsonWithBinary, if_neg hbin] at h
  rw [h] at hsent
  exact hsent rfl

/-- A loop that comes to a digest has sent the rest of the file, and the digest is that of the
whole file unless there was nothing left to send. -/
theorem chunkLoop_sends (hb : 0 < bufferSize) {fuel turn offset : Nat} (k : Nat) (carried : Bytes)
    {digest : Bytes} {s s' : Session} (hle : offset ≤ f.size)
    (h : chunkLoop md5 f seq bufferSize cancelled fuel turn
      { resumed f k offset with digestLower := carried } s = .ok (.ok digest, s')) :
    digest = (if offset < f.size then md5FinalizeLower md5 f.content else carried) ∧
      ∃ wire, s'.sent = s.sent ++ wire ∧ SentFrom md5 f seq bufferSize k offset wire := by
  induction fuel generalizing turn k offset carried s with
  | zero => exact absurd h (by simp [chunkLoop])
  | succ fuel ih =>
      rcases chunkLoop_turn h with ⟨hdone, hdigest, rfl⟩ | ⟨hin, -, s₁, hsend, hrest⟩
      · obtain rfl : offset = f.size := Nat.le_antisymm hle hdone
        rw [if_neg (Nat.lt_irrefl _)]
        exact ⟨hdigest, [], by simp, .done k⟩
      · replace hin : offset < f.size := hin
        by_cases hshort : chunkSize f bufferSize offset < 2 ^ 32
        · rw [next_resumed md5 k hshort] at hrest
          have hsize : offset + chunkSize f bufferSize offset ≤ f.size := by
            rw [chunkSize]
            omega
          obtain ⟨hdigest, wire, hsent, hwire⟩ := ih _ _ hsize hrest
          have hne : (resumed f k offset).chunk f bufferSize ≠ [] := by
            rw [chunk_resumed k hshort, ← List.length_pos_iff, f.length_read, chunkSize]
            omega
          refine ⟨?_, _, ?_, .chunk s.seq hin hshort hwire⟩
          · rw [hdigest, if_pos hin]
            split_ifs
            · rfl
            · rfl
            · omega
          · rw [hsent, sendAbiJsonWithBinary_sent hne hsend, List.append_assoc]
            rfl
        · have hlen := length_got_resumed f bufferSize k offset
          have hmod := readSize_toNat f bufferSize (resumed f k offset)
          rw [hlen] at hmod
          refine absurd hrest (chunkLoop_ahead ?_ ?_)
          · change offset + ((resumed f k offset).readSize f bufferSize).toNat <
              offset + ((resumed f k offset).got f bufferSize).length
            omega
          · change offset + ((resumed f k offset).got f bufferSize).length ≤ f.size
            rw [hlen, chunkSize]
            omega

end Loop

/-- An upload that ends well has sent the rest of the file. -/
theorem transfer_sends {md5 : Md5} {seq : UInt32} {f : File} {cancelled : Nat → Bool}
    {chunkSizeKb : UInt32} {offset : UInt64} {s s' : Session} {out : UploadOutcome}
    (hkb : chunkSizeKb ≠ 0)
    (h : transfer md5 seq f cancelled chunkSizeKb offset s = .ok (out, s')) (hok : out.ok = true) :
    out.md5Lower = (if offset.toNat < f.size then md5FinalizeLower md5 f.content else []) ∧
      ∃ wire, s'.sent = s.sent ++ wire ∧
        SentFrom md5 f seq (chunkSizeKb.toNat * 1024) 0 offset.toNat wire := by
  have hb : 0 < chunkSizeKb.toNat * 1024 := by
    have hne : chunkSizeKb.toNat ≠ 0 := fun h0 => hkb (UInt32.toNat_inj.mp h0)
    omega
  have hprefixed := hashPrefix_spec f hb offset.toNat (f.size + 1) (Nat.zero_le _)
    (Nat.zero_le _) (by omega)
  rw [List.take_zero] at hprefixed
  simp only [transfer, hprefixed] at h
  split_ifs at h with hle
  · simp only at h
    split at h
    · exact absurd h (by simp)
    · obtain ⟨rfl, -⟩ := Prod.mk.inj (Except.ok.inj h)
      exact absurd hok (by simp)
    · rename_i digest s₁ hloop
      obtain ⟨hdigest, wire, hsent, hwire⟩ := chunkLoop_sends hb 0 [] hle hloop
      unfold finishUpload at h
      split at h
      · exact absurd h (by simp)
      · obtain ⟨rfl, -⟩ := Prod.mk.inj (Except.ok.inj h)
        exact absurd hok (by simp)
      · rename_i hfinal
        simp only at h
        split_ifs at h
        · obtain ⟨rfl, rfl⟩ := Prod.mk.inj (Except.ok.inj h)
          exact ⟨hdigest, wire, by rw [finalLoop_sent hfinal, hsent], hwire⟩
        · obtain ⟨rfl, -⟩ := Prod.mk.inj (Except.ok.inj h)
          exact absurd hok (by simp)
  · obtain ⟨rfl, -⟩ := Prod.mk.inj (Except.ok.inj h)
    exact absurd hok (by simp)

/-- An accepted reply has a chunk size. -/
theorem initUpload_chunkSize {seq : UInt32} {req : UploadRequest} {f : File} {s s' : Session}
    {chunkSizeKb : UInt32} {offset : UInt64}
    (h : initUpload seq req f s = .ok (.ok (chunkSizeKb, offset), s')) : chunkSizeKb ≠ 0 := by
  unfold initUpload at h
  split at h
  · exact absurd h (by simp)
  · split at h
    · exact absurd (Prod.mk.inj (Except.ok.inj h)).1 (by simp)
    · split at h
      · exact absurd h (by simp)
      · exact absurd (Prod.mk.inj (Except.ok.inj h)).1 (by simp)
      · split at h
        · exact absurd (Prod.mk.inj (Except.ok.inj h)).1 (by simp)
        · rename_i hreply
          obtain rfl := Except.ok.inj (Prod.mk.inj (Except.ok.inj h)).1
          unfold parseUploadInitReply at hreply
          simp only at hreply
          split_ifs at hreply with hrc
          · exact absurd (Prod.mk.inj hreply).2 (by simp)
          · split at hreply
            · exact absurd (Prod.mk.inj hreply).2 (by simp)
            · split_ifs at hreply with hobj hkb
              · exact absurd (Prod.mk.inj hreply).2 (by simp)
              · obtain ⟨rfl, -⟩ := Prod.mk.inj (Option.some.inj (Prod.mk.inj hreply).2)
                exact hkb
              · exact absurd (Prod.mk.inj hreply).2 (by simp)

end OpenBambu.Upload
