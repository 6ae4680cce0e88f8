import OpenBambu.Upload.Transfer
import OpenBambu.Tunnel.Control

/-!
# What the chunks of an upload deliver

The frames of an upload are read back from the wire as chunk messages. `Delivers` says what
they and the outcome should be: consecutive fragments that cover the rest of the file, the
last with the digest of all of it. `Sendable` says for which files, offsets and chunk sizes
they are.
-/

namespace OpenBambu.Upload

open OpenBambu.Foundation OpenBambu.Json OpenBambu.Tunnel

/-- A chunk as its receiver reads it. -/
structure ChunkMessage where
  fragId : Double
  offset : Double
  size : Double
  fileMd5 : Option Bytes
  blob : Bytes

/-- The members of a chunk's request. -/
def readChunkRequest (req : Value) (blob : Bytes) : Option ChunkMessage :=
  match req.find (ascii "frag_id"), req.find (ascii "offset"), req.find (ascii "size") with
  | .number fragId, .number offset, .number size =>
      let fileMd5 :=
        match req.find (ascii "file_md5") with
        | .string digest => some digest
        | _ => none
      some { fragId := fragId, offset := offset, size := size, fileMd5 := fileMd5, blob := blob }
  | _, _, _ => none

/-- A frame body as a chunk message. -/
def readChunkMessage (body : Bytes) : Option ChunkMessage :=
  match splitJsonPrefix body with
  | none => none
  | some (json, blob) =>
      match parse json with
      | .error _ => none
      | .ok root => readChunkRequest (root.find (ascii "req")) blob

/-- The messages are those of chunk `k` and the later ones: contiguous ranges up to the end of
the file, each with its own bytes, and the digest of the file in the last one. -/
def Continues (md5 : Md5) (f : File) (limit : Nat) : Nat → Nat → List ChunkMessage → Prop
  | _, offset, [] => offset = f.size
  | k, offset, m :: ms =>
      m.fragId = k ∧ m.offset = offset ∧ m.size = m.blob.length ∧ m.blob.length ≤ limit ∧
        m.blob = f.read offset m.blob.length ∧
        m.fileMd5 = (if ms = [] then some (hexLower (md5.digest f.content)) else none) ∧
        Continues md5 f limit (k + 1) (offset + m.blob.length) ms

/-- The bytes are whole frames that read as these messages. -/
def ReadAs (wire : Bytes) (ms : List ChunkMessage) : Prop :=
  ∃ fs, exactCodec.drain wire = (fs, []) ∧
    fs.map (fun f => readChunkMessage f.payload) = ms.map some

/-- What was sent behind the init request, and the outcome, are right. -/
structure Delivers (md5 : Md5) (f : File) (limit offset : Nat) (out : UploadOutcome)
    (wire : Bytes) : Prop where
  md5Lower : out.md5Lower = hexLower (md5.digest f.content)
  chunks : ∃ ms, ms ≠ [] ∧ ReadAs wire ms ∧ Continues md5 f limit 0 offset ms

/-- The number of a chunk, its offset and the length of its body fit where they are written. -/
structure ChunkFits (md5 : Md5) (f : File) (seq : UInt32) (bufferSize k offset : Nat) : Prop where
  body : (chunkBody md5 f seq bufferSize k offset).length < 2 ^ 32
  fragId : k < 2 ^ 32
  offset : Binary64.Representable offset

/-- There is something left to send, and every chunk of it fits. -/
structure Sendable (md5 : Md5) (f : File) (seq : UInt32) (bufferSize offset : Nat) : Prop where
  left : offset < f.size
  chunks : ∀ k, offset + k * bufferSize < f.size →
    ChunkFits md5 f seq bufferSize k (offset + k * bufferSize)

/-! ## The text of a chunk -/

/-- The members of a chunk's request, in the order of the map. -/
def chunkMembers (fragId : UInt32) (offset : UInt64) (size : UInt32) (digest : Bytes) : Object :=
  (if digest = [] then [] else [(ascii "file_md5", .string digest)]) ++
    [(ascii "frag_id", count fragId.toNat), (ascii "offset", count offset.toNat),
      (ascii "size", count size.toNat)]

theorem chunkRequest_members (fragId : UInt32) (offset : UInt64) (size : UInt32) (digest : Bytes) :
    chunkRequest fragId offset size digest = chunkMembers fragId offset size digest := by
  unfold chunkRequest chunkMembers unlessEmpty
  split_ifs <;> simp +decide [fields, assign]

/-- The message around it. -/
def chunkObject (seq fragId : UInt32) (offset : UInt64) (size : UInt32) (digest : Bytes) : Object :=
  [(ascii "cmdtype", count kCmdFileUpload), (ascii "req", .object (chunkMembers fragId offset size digest)),
    (ascii "sequence", count seq.toNat)]

theorem chunkAbi_dump (seq fragId : UInt32) (offset : UInt64) (size : UInt32) (digest : Bytes) :
    buildFileUploadChunkAbi seq fragId offset size digest =
      (Value.object (chunkObject seq fragId offset size digest)).dump := by
  rw [buildFileUploadChunkAbi, chunkRequest_members, requestAbi, chunkObject]
  simp +decide [fields, assign]

theorem count_writable {n : Nat} (h : n < 2 ^ 63) : Writable (count n) := .number (count_readsBack h)

theorem chunkObject_writable (seq fragId : UInt32) {offset : UInt64} (h : offset.toNat < 2 ^ 63)
    (size : UInt32) (digest : Bytes) :
    Writable (.object (chunkObject seq fragId offset size digest)) := by
  have h32 : ∀ n : UInt32, n.toNat < 2 ^ 63 := fun n => n.toNat_lt.trans (by decide)
  have hreq : Writable (.object (chunkMembers fragId offset size digest)) := by
    have hkeys : Sorted (chunkMembers fragId offset size digest) := by
      refine (List.pairwise_map (f := Prod.fst) (R := (· < ·))).mp ?_
      unfold chunkMembers
      split_ifs
      · exact (by decide : [ascii "frag_id", ascii "offset", ascii "size"].Pairwise (· < ·))
      · exact (by decide :
          [ascii "file_md5", ascii "frag_id", ascii "offset", ascii "size"].Pairwise (· < ·))
    refine .object hkeys fun p hp => ?_
    rcases List.mem_append.mp hp with hp | hp
    · split_ifs at hp
      · exact absurd hp (by simp)
      · rw [List.mem_singleton.mp hp]
        exact .string digest
    · simp only [List.mem_cons, List.not_mem_nil, or_false] at hp
      rcases hp with rfl | rfl | rfl
      · exact count_writable (h32 fragId)
      · exact count_writable h
      · exact count_writable (h32 size)
  refine .object ?_ fun p hp => ?_
  · refine (List.pairwise_map (f := Prod.fst) (R := (· < ·))).mp ?_
    exact (by decide : [ascii "cmdtype", ascii "req", ascii "sequence"].Pairwise (· < ·))
  · simp only [chunkObject, List.mem_cons, List.not_mem_nil, or_false] at hp
    rcases hp with rfl | rfl | rfl
    · exact count_writable (by decide)
    · exact hreq
    · exact count_writable (h32 seq)

/-! ## Reading a chunk -/

/-- A dumped message that has members but no leading `mtype` is an object again on the wire. -/
theorem wrapCtrlAbi_dump {o : Object} (h : Writable (.object o)) (hne : o ≠ [])
    (hp : ¬ mtypePrefix <+: (Value.object o).dump) :
    ∃ c, Balanced c ∧ wrapCtrlAbi (Value.object o).dump = Ascii.lbrace :: (c ++ [Ascii.rbrace]) ∧
      parse (Ascii.lbrace :: (c ++ [Ascii.rbrace])) =
        .ok (.object (assign o mtypeKey mtypeValue)) := by
  obtain ⟨w, c, z, htext, hw, hz, hobj⟩ := parse_object (parse_dump h)
  obtain ⟨t, ht⟩ : ∃ t, (Value.object o).dump = Ascii.lbrace :: t := ⟨_, by rw [Value.dump]⟩
  cases w with
  | cons b w =>
      rw [ht] at htext
      obtain rfl := (List.cons.inj htext).1
      exact absurd (hw _ List.mem_cons_self) (by decide)
  | nil =>
      rw [List.nil_append] at htext
      have hstart : ¬ mtypePrefix <+: Ascii.lbrace :: c := by
        rwa [htext, ← List.cons_append, prefix_before (by decide)] at hp
      refine ⟨mtypeMember ++ c, balanced_wrapped hobj.balanced, ?_, ?_⟩
      · rw [htext, wrapCtrlAbi_object, if_neg hstart, List.rdropWhile_eq_nil_iff.mpr hz]
      · rw [List.append_assoc]
        exact (parse_wrapped hobj).mpr hne

/-- What the receiver makes of a chunk. -/
def chunkMessage (fragId : UInt32) (offset : UInt64) (size : UInt32) (digest blob : Bytes) :
    ChunkMessage where
  fragId := fragId.toNat
  offset := Binary64.ofNat offset.toNat
  size := size.toNat
  fileMd5 := if digest = [] then none else some digest
  blob := blob

theorem count_small (n : UInt32) : count n.toNat = .number (n.toNat : ℚ) := by
  have hlt : n.toNat < 2 ^ 53 := n.toNat_lt.trans (by decide)
  rw [count, Binary64.ofNat_representable (Binary64.representable_of_lt hlt)]

section Read

variable (seq fragId : UInt32) {offset : UInt64} (hoff : offset.toNat < 2 ^ 63) (size : UInt32)
  (digest : Bytes)

theorem find_req : (Value.object (assign (chunkObject seq fragId offset size digest) mtypeKey
    mtypeValue)).find (ascii "req") = .object (chunkMembers fragId offset size digest) := by
  rw [find_word (by decide +kernel)]
  simp +decide [chunkObject, assign, lookup_cons, Value.asObject]

theorem readChunkRequest_members (blob : Bytes) :
    readChunkRequest (.object (chunkMembers fragId offset size digest)) blob =
      some (chunkMessage fragId offset size digest blob) := by
  have hfind : ∀ key, isWord key = true → (Value.object (chunkMembers fragId offset size digest)).find key =
      (lookup (chunkMembers fragId offset size digest) key).getD .null := fun key hkey => find_word hkey _
  rw [readChunkRequest, hfind _ (by decide +kernel), hfind _ (by decide +kernel), hfind _ (by decide +kernel),
    hfind _ (by decide +kernel)]
  unfold chunkMembers chunkMessage
  rw [count_small, count_small]
  split_ifs
  · simp +decide [lookup_cons, lookup_nil, count]
  · simp +decide [lookup_cons, count]

include hoff

/-- The JSON part of a chunk's body: it ends where the brace scan says, and reads as the
request's message. -/
theorem chunk_text : ∃ c, Balanced c ∧
    wrapCtrlAbi (buildFileUploadChunkAbi seq fragId offset size digest) =
      Ascii.lbrace :: (c ++ [Ascii.rbrace]) ∧
    ∀ blob, (match parse (Ascii.lbrace :: (c ++ [Ascii.rbrace])) with
      | .error _ => none
      | .ok root => readChunkRequest (root.find (ascii "req")) blob) =
        some (chunkMessage fragId offset size digest blob) := by
  have hstart : ¬ mtypePrefix <+: (Value.object (chunkObject seq fragId offset size digest)).dump := by
    rintro ⟨t, ht⟩
    rw [chunkObject, Value.dump, dumpMembers] at ht
    have hthird : some (Ascii.letter 'm') = some (Ascii.letter 'c') := congrArg (fun l => l[2]?) ht
    exact absurd (Option.some.inj hthird) (by decide)
  obtain ⟨c, hc, hwrap, hparse⟩ :=
    wrapCtrlAbi_dump (chunkObject_writable seq fragId hoff size digest) (by simp [chunkObject]) hstart
  refine ⟨c, hc, by rw [chunkAbi_dump, hwrap], fun blob => ?_⟩
  rw [hparse]
  simp only
  rw [find_req, readChunkRequest_members]

theorem readChunkMessage_chunk (blob : Bytes) :
    readChunkMessage (wrapCtrlAbi (buildFileUploadChunkAbi seq fragId offset size digest) ++
      Ascii.lf :: Ascii.lf :: blob) = some (chunkMessage fragId offset size digest blob) := by
  obtain ⟨c, hc, hwrap, hread⟩ := chunk_text seq fragId hoff size digest
  rw [hwrap, List.cons_append, List.append_assoc, List.singleton_append, readChunkMessage,
    splitJsonPrefix_object hc]
  simp only
  rw [hread, skipSeparator, if_pos ⟨blob, rfl⟩]
  rfl

/-- A body that is cut short reads as no message, or as one whose blob is not of its size. -/
theorem readChunkMessage_cut (blob : Bytes) {n : Nat}
    (hn : n + 2 < (wrapCtrlAbi (buildFileUploadChunkAbi seq fragId offset size digest) ++
      Ascii.lf :: Ascii.lf :: blob).length)
    {m : ChunkMessage}
    (h : readChunkMessage ((wrapCtrlAbi (buildFileUploadChunkAbi seq fragId offset size digest) ++
      Ascii.lf :: Ascii.lf :: blob).take n) = some m) :
    m.size = size.toNat ∧ m.blob.length < blob.length := by
  obtain ⟨c, hc, hwrap, hread⟩ := chunk_text seq fragId hoff size digest
  rw [hwrap] at hn h
  have hlen : (Ascii.lbrace :: (c ++ [Ascii.rbrace])).length = c.length + 2 := by simp
  rw [List.length_append, hlen, List.length_cons, List.length_cons] at hn
  rw [List.take_append, hlen] at h
  by_cases hcut : n < c.length + 2
  · rw [show n - (c.length + 2) = 0 by omega, List.take_zero, List.append_nil, readChunkMessage,
      splitJsonPrefix_cut hc hcut] at h
    exact absurd h (by simp)
  · rw [List.take_of_length_le (by omega), List.cons_append, List.append_assoc,
      List.singleton_append, readChunkMessage, splitJsonPrefix_object hc] at h
    simp only at h
    rw [hread] at h
    obtain rfl := Option.some.inj h
    refine ⟨rfl, (skipSeparator_suffix _).length_le.trans_lt ?_⟩
    rw [List.length_take]
    omega

end Read

/-! ## Reading what was sent -/

/-- The first frame read off a sent one: its payload is cut where the header's length wraps. -/
theorem drain_sent (magic frameSeq : UInt32) (body wire : Bytes) :
    ∃ fr, exactCodec.next (buildFrameHeader (UInt32.ofNat body.length) magic frameSeq ++ body ++ wire) =
        some (fr, (body ++ wire).drop (body.length % 2 ^ 32)) ∧
      fr.payload = body.take (body.length % 2 ^ 32) := by
  have hlen : (UInt32.ofNat body.length).toNat = body.length % 2 ^ 32 := UInt32.toNat_ofNat'
  have hmod := Nat.mod_le body.length (2 ^ 32)
  obtain ⟨fr, hfr, hpayload⟩ := takeFrame_of_header
    (parseFrameHeader_build (UInt32.ofNat body.length) magic frameSeq (body ++ wire))
    (by simp only [List.length_append, length_buildFrameHeader, hlen]; omega)
  have hdrop : ∀ hdr : Bytes, hdr.length = 16 → (hdr ++ (body ++ wire)).drop 16 = body ++ wire :=
    fun hdr h => List.drop_left' h
  rw [hdrop _ (length_buildFrameHeader ..), hlen, List.take_append_of_le_length hmod] at hpayload
  rw [hlen, ← List.drop_drop, hdrop _ (length_buildFrameHeader ..)] at hfr
  exact ⟨fr, by rw [List.append_assoc]; exact hfr, hpayload⟩

theorem readAs_nil_iff {ms : List ChunkMessage} : ReadAs [] ms ↔ ms = [] := by
  have hd : exactCodec.drain [] = ([], []) := Framing.drain_of_settled exactCodec.settled_nil
  constructor
  · rintro ⟨fs, hfs, hms⟩
    obtain rfl : [] = fs := (Prod.mk.inj (hd.symm.trans hfs)).1
    exact List.map_eq_nil_iff.mp hms.symm
  · rintro rfl
    exact ⟨[], hd, rfl⟩

theorem readAs_sent {magic frameSeq : UInt32} {body wire : Bytes} {ms : List ChunkMessage}
    (h : ReadAs (buildFrameHeader (UInt32.ofNat body.length) magic frameSeq ++ body ++ wire) ms) :
    ∃ m ms', ms = m :: ms' ∧ readChunkMessage (body.take (body.length % 2 ^ 32)) = some m ∧
      ReadAs ((body ++ wire).drop (body.length % 2 ^ 32)) ms' := by
  obtain ⟨fs, hfs, hms⟩ := h
  obtain ⟨fr, hnext, hpayload⟩ := drain_sent magic frameSeq body wire
  rw [Framing.drain_of_next hnext, Prod.mk.injEq] at hfs
  obtain ⟨rfl, hrest⟩ := hfs
  cases ms with
  | nil => exact absurd hms (by simp)
  | cons m ms' =>
      rw [List.map_cons, List.map_cons, hpayload] at hms
      obtain ⟨hm, hms'⟩ := List.cons.inj hms
      exact ⟨m, ms', rfl, hm, _, Prod.ext rfl hrest, hms'⟩

theorem readAs_sent_short {magic frameSeq : UInt32} {body wire : Bytes}
    (hshort : body.length < 2 ^ 32) {m : ChunkMessage} {ms : List ChunkMessage}
    (hm : readChunkMessage body = some m) (h : ReadAs wire ms) :
    ReadAs (buildFrameHeader (UInt32.ofNat body.length) magic frameSeq ++ body ++ wire) (m :: ms) := by
  obtain ⟨fs, hfs, hms⟩ := h
  obtain ⟨fr, hnext, hpayload⟩ := drain_sent magic frameSeq body wire
  rw [Nat.mod_eq_of_lt hshort, List.take_length] at hpayload
  rw [Nat.mod_eq_of_lt hshort, List.drop_left] at hnext
  refine ⟨fr :: fs, ?_, ?_⟩
  · rw [Framing.drain_of_next hnext, hfs]
  · rw [List.map_cons, List.map_cons, hpayload, hm, hms]

section Chunks

variable {md5 : Md5} {f : File} {seq : UInt32} {bufferSize : Nat}

theorem offset_toNat {offset : Nat} (h : offset < f.size) : (UInt64.ofNat offset).toNat = offset := by
  have := f.fits
  exact UInt64.toNat_ofNat_of_lt' (h.trans (this.trans (by decide)))

/-- The message that chunk `k` was built from. -/
def sentMessage (md5 : Md5) (f : File) (bufferSize k offset : Nat) : ChunkMessage :=
  chunkMessage (UInt32.ofNat k) (UInt64.ofNat offset) (UInt32.ofNat (chunkSize f bufferSize offset))
    (if f.size ≤ offset + chunkSize f bufferSize offset then md5FinalizeLower md5 f.content else [])
    (f.read offset (chunkSize f bufferSize offset))

theorem chunkBody_eq (k : Nat) {offset : Nat} (hshort : chunkSize f bufferSize offset < 2 ^ 32) :
    chunkBody md5 f seq bufferSize k offset =
      wrapCtrlAbi (buildFileUploadChunkAbi seq (UInt32.ofNat k) (UInt64.ofNat offset)
        (UInt32.ofNat (chunkSize f bufferSize offset))
        (if f.size ≤ offset + chunkSize f bufferSize offset then md5FinalizeLower md5 f.content
          else [])) ++
        Ascii.lf :: Ascii.lf :: f.read offset (chunkSize f bufferSize offset) := by
  rw [chunkBody, Progress.chunkAbi, fileMd5_resumed md5 k hshort, chunk_resumed k hshort,
    Progress.readSize, length_got_resumed]
  rfl

theorem length_blob (offset : Nat) :
    (f.read offset (chunkSize f bufferSize offset)).length = chunkSize f bufferSize offset := by
  rw [f.length_read, chunkSize]
  omega

/-- What is read off a sent chunk is what was sent, or its blob is not of its size. -/
theorem head_message (k : Nat) {offset : Nat} (hin : offset < f.size)
    (hshort : chunkSize f bufferSize offset < 2 ^ 32) {m : ChunkMessage}
    (h : readChunkMessage ((chunkBody md5 f seq bufferSize k offset).take
      ((chunkBody md5 f seq bufferSize k offset).length % 2 ^ 32)) = some m)
    (hsize : m.size = m.blob.length) :
    (chunkBody md5 f seq bufferSize k offset).length < 2 ^ 32 ∧
      m = sentMessage md5 f bufferSize k offset := by
  have hoff : (UInt64.ofNat offset).toNat < 2 ^ 63 := by
    rw [offset_toNat hin]
    exact hin.trans f.fits
  by_cases hbody : (chunkBody md5 f seq bufferSize k offset).length < 2 ^ 32
  · refine ⟨hbody, ?_⟩
    rw [Nat.mod_eq_of_lt hbody, List.take_length, chunkBody_eq k hshort,
      readChunkMessage_chunk _ _ hoff] at h
    exact (Option.some.inj h).symm
  · have hn : (chunkBody md5 f seq bufferSize k offset).length % 2 ^ 32 + 2 <
        (chunkBody md5 f seq bufferSize k offset).length := by omega
    generalize (chunkBody md5 f seq bufferSize k offset).length % 2 ^ 32 = n at h hn
    rw [chunkBody_eq k hshort] at h hn
    obtain ⟨hm, hblob⟩ := readChunkMessage_cut _ _ hoff _ _ _ hn h
    rw [UInt32.toNat_ofNat_of_lt' hshort, hsize, Nat.cast_inj] at hm
    rw [length_blob] at hblob
    omega

theorem head_reads (k : Nat) {offset : Nat} (hin : offset < f.size)
    (hshort : chunkSize f bufferSize offset < 2 ^ 32) :
    readChunkMessage (chunkBody md5 f seq bufferSize k offset) =
      some (sentMessage md5 f bufferSize k offset) := by
  have hoff : (UInt64.ofNat offset).toNat < 2 ^ 63 := by
    rw [offset_toNat hin]
    exact hin.trans f.fits
  rw [chunkBody_eq k hshort, readChunkMessage_chunk _ _ hoff]
  rfl

theorem sentMessage_size (k : Nat) {offset : Nat} (hshort : chunkSize f bufferSize offset < 2 ^ 32) :
    (sentMessage md5 f bufferSize k offset).size =
      (sentMessage md5 f bufferSize k offset).blob.length := by
  change ((UInt32.ofNat (chunkSize f bufferSize offset)).toNat : ℚ) =
    ((f.read offset (chunkSize f bufferSize offset)).length : ℚ)
  rw [UInt32.toNat_ofNat_of_lt' hshort, length_blob]

theorem sentMessage_fragId (k offset : Nat) :
    (sentMessage md5 f bufferSize k offset).fragId = k ↔ k < 2 ^ 32 := by
  change ((UInt32.ofNat k).toNat : ℚ) = k ↔ _
  rw [Nat.cast_inj, UInt32.toNat_ofNat']
  omega

theorem sentMessage_offset (k : Nat) {offset : Nat} (hin : offset < f.size) :
    (sentMessage md5 f bufferSize k offset).offset = offset ↔ Binary64.Representable offset := by
  change Binary64.ofNat (UInt64.ofNat offset).toNat = offset ↔ _
  rw [offset_toNat hin, Binary64.ofNat_eq_iff]

theorem sentMessage_fileMd5 (k offset : Nat) :
    (sentMessage md5 f bufferSize k offset).fileMd5 =
      if f.size ≤ offset + chunkSize f bufferSize offset then some (hexLower (md5.digest f.content))
      else none := by
  have hne := md5FinalizeLower_ne_nil md5 f.content
  unfold sentMessage chunkMessage
  by_cases hlast : f.size ≤ offset + chunkSize f bufferSize offset
  · simp only [if_pos hlast, if_neg hne]
    rfl
  · simp only [if_neg hlast, if_true]

theorem sentFrom_end {k offset : Nat} {wire : Bytes} (h : SentFrom md5 f seq bufferSize k offset wire)
    (hend : f.size ≤ offset) : wire = [] := by
  cases h with
  | done => rfl
  | chunk _ inside => omega

/-- The chunks behind the first one are the first one's successors. -/
theorem forall_chunks {offset : Nat} (hin : offset < f.size) {k : Nat} {P : Nat → Nat → Prop} :
    (∀ j, offset + j * bufferSize < f.size → P (k + j) (offset + j * bufferSize)) ↔
      P k offset ∧ ∀ j, offset + chunkSize f bufferSize offset + j * bufferSize < f.size →
        P (k + 1 + j) (offset + chunkSize f bufferSize offset + j * bufferSize) := by
  have hsucc : ∀ j, offset + bufferSize + j * bufferSize = offset + (j + 1) * bufferSize := by
    intro j
    rw [Nat.succ_mul]
    omega
  have hsize : chunkSize f bufferSize offset = bufferSize ∨
      chunkSize f bufferSize offset = f.size - offset := by
    rw [chunkSize]
    omega
  constructor
  · intro h
    refine ⟨by simpa using h 0 (by simpa using hin), fun j hj => ?_⟩
    rcases hsize with hs | hs
    · rw [hs, hsucc] at hj ⊢
      rw [Nat.add_right_comm k 1 j]
      exact h (j + 1) hj
    · rw [hs] at hj
      omega
  · rintro ⟨h0, hrest⟩ j hj
    cases j with
    | zero => simpa using h0
    | succ j =>
        have hle : offset + bufferSize ≤ offset + (j + 1) * bufferSize := by
          rw [← hsucc]
          omega
        have hs : chunkSize f bufferSize offset = bufferSize := by
          rw [chunkSize]
          omega
        have h := hrest j
        rw [hs, hsucc, Nat.add_right_comm k 1 j] at h
        exact h hj

/-- What was sent from chunk `k` on reads as it should exactly when all these chunks fit. -/
theorem sentFrom_continues_iff {k offset : Nat} {wire : Bytes}
    (h : SentFrom md5 f seq bufferSize k offset wire) :
    (∃ ms, ReadAs wire ms ∧ Continues md5 f bufferSize k offset ms) ↔
      ∀ j, offset + j * bufferSize < f.size →
        ChunkFits md5 f seq bufferSize (k + j) (offset + j * bufferSize) := by
  induction h with
  | done k =>
      constructor
      · intro _ j hj
        omega
      · exact fun _ => ⟨[], readAs_nil_iff.mpr rfl, rfl⟩
  | @chunk k offset wire frameSeq inside short rest ih =>
      rw [forall_chunks inside, ← ih]
      constructor
      · rintro ⟨ms, hread, hcont⟩
        obtain ⟨m, ms', rfl, hm, hread'⟩ := readAs_sent hread
        obtain ⟨hfrag, hoff, hsize, -, -, -, hrest⟩ := hcont
        obtain ⟨hbody, rfl⟩ := head_message k inside short hm hsize
        rw [Nat.mod_eq_of_lt hbody, List.drop_left] at hread'
        refine ⟨⟨hbody, (sentMessage_fragId k offset).mp hfrag, (sentMessage_offset k inside).mp hoff⟩,
          ms', hread', ?_⟩
        rwa [show (sentMessage md5 f bufferSize k offset).blob.length = chunkSize f bufferSize offset
          from length_blob offset] at hrest
      · rintro ⟨hfits, ms, hread, hcont⟩
        refine ⟨sentMessage md5 f bufferSize k offset :: ms,
          readAs_sent_short hfits.body (head_reads k inside short) hread, ?_⟩
        have hblob : (sentMessage md5 f bufferSize k offset).blob.length =
            chunkSize f bufferSize offset := length_blob offset
        have hlast : ms = [] ↔ f.size ≤ offset + chunkSize f bufferSize offset := by
          constructor
          · rintro rfl
            exact Nat.le_of_eq hcont.symm
          · intro hend
            rw [sentFrom_end rest hend] at hread
            exact readAs_nil_iff.mp hread
        refine ⟨(sentMessage_fragId k offset).mpr hfits.fragId,
          (sentMessage_offset k inside).mpr hfits.offset, sentMessage_size k short, ?_, ?_, ?_, ?_⟩
        · rw [hblob, chunkSize]
          omega
        · rw [hblob]
          rfl
        · rw [sentMessage_fileMd5]
          simp only [hlast]
        · rwa [hblob]

end Chunks

/-- An upload that ends well has delivered the file exactly when there was something left to
send and every chunk of it fits its fields. -/
theorem chunked_upload_delivers_iff {md5 : Md5} {seq : UInt32} {req : UploadRequest} {f : File}
    {cancelled : Nat → Bool} {s s₁ s' : Session} {chunkSizeKb : UInt32} {offset : UInt64}
    {out : UploadOutcome} (hinit : initUpload seq req f s = .ok (.ok (chunkSizeKb, offset), s₁))
    (hrun : runChunkedUpload md5 seq req (some f) cancelled s = .ok (out, s')) (hok : out.ok = true) :
    ∃ wire, s'.sent = s₁.sent ++ wire ∧
      (Delivers md5 f (chunkSizeKb.toNat * 1024) offset.toNat out wire ↔
        Sendable md5 f seq (chunkSizeKb.toNat * 1024) offset.toNat) := by
  have htransfer : transfer md5 seq f cancelled chunkSizeKb offset s₁ = .ok (out, s') := by
    unfold runChunkedUpload at hrun
    split_ifs at hrun with hfields
    · obtain ⟨rfl, -⟩ := Prod.mk.inj (Except.ok.inj hrun)
      exact absurd hok (by simp)
    · simpa only [hinit] using hrun
  obtain ⟨hmd5, wire, hsent, hwire⟩ := transfer_sends (initUpload_chunkSize hinit) htransfer hok
  have hcont := sentFrom_continues_iff hwire
  simp only [Nat.zero_add] at hcont
  refine ⟨wire, hsent, ?_⟩
  by_cases hleft : offset.toNat < f.size
  · rw [if_pos hleft] at hmd5
    constructor
    · rintro ⟨-, ms, -, hread, hc⟩
      exact ⟨hleft, hcont.mp ⟨ms, hread, hc⟩⟩
    · rintro ⟨-, hfits⟩
      obtain ⟨ms, hread, hc⟩ := hcont.mpr hfits
      refine ⟨hmd5, ms, ?_, hread, hc⟩
      rintro rfl
      exact absurd hc (Nat.ne_of_lt hleft)
  · rw [if_neg hleft] at hmd5
    constructor
    · intro h
      exact absurd (h.md5Lower.symm.trans hmd5) (md5FinalizeLower_ne_nil md5 f.content)
    · exact fun h => absurd h.left hleft

/-! ## A resumed upload -/

/-- The printer has the first byte of the file. -/
def resumeReply : Frame where
  magic := kMagicCtrlServer
  seq := 1
  payload := ascii
    "\x7b\"cmdtype\":5,\"reply\":\x7b\"chunk_size\":1,\"offset\":1\x7d,\"result\":1,\"sequence\":1\x7d"
  fits := by decide

def doneReply : Frame where
  magic := kMagicCtrlServer
  seq := 2
  payload := ascii "\x7b\"cmdtype\":5,\"result\":0,\"sequence\":1\x7d"
  fits := by decide

def repliesSession (reads : List Read) (seq : UInt32) (writes : List (Option Nat)) (sent : Bytes) :
    Session where
  seq := seq
  phase := .ready
  recvBuf := []
  reads := reads
  writes := writes
  sent := sent

def doneRead : Read := .bytes ⟨doneReply.encode, by decide, by decide⟩

def resumeRead : Read := .bytes ⟨resumeReply.encode, by decide, by decide⟩

def resumeObject : Object :=
  [(ascii "cmdtype", .number 5),
    (ascii "reply", .object (integerMembers [(ascii "chunk_size", 1), (ascii "offset", 1)])),
    (ascii "result", .number 1), (ascii "sequence", .number 1)]

theorem parse_resumeReply : parse resumeReply.payload = .ok (.object resumeObject) := by
  have hdump : (Value.object resumeObject).dump = resumeReply.payload := by decide +kernel
  have hsmall : ∀ n : Int, n.natAbs < 2 ^ 53 → Writable (.number n) := fun n h =>
    .number (exact_of_small h).readsBack
  rw [← hdump]
  refine parse_dump (.object ?_ ?_)
  · refine (List.pairwise_map (f := Prod.fst) (R := (· < ·))).mp ?_
    exact (by decide +kernel :
      [ascii "cmdtype", ascii "reply", ascii "result", ascii "sequence"].Pairwise (· < ·))
  · simp only [resumeObject, List.mem_cons, List.not_mem_nil, or_false, forall_eq_or_imp, forall_eq]
    refine ⟨hsmall 5 (by decide), .object ?_ ?_, hsmall 1 (by decide), hsmall 1 (by decide)⟩
    · refine (List.pairwise_map (f := Prod.fst) (R := (· < ·))).mp ?_
      exact (by decide +kernel : [ascii "chunk_size", ascii "offset"].Pairwise (· < ·))
    · simp only [integerMembers, List.map_cons, List.map_nil, List.mem_cons, List.not_mem_nil, or_false,
        forall_eq_or_imp, forall_eq]
      exact ⟨hsmall 1 (by decide), hsmall 1 (by decide)⟩

theorem parse_doneReply : parse doneReply.payload =
    .ok (.object (integerMembers [(ascii "cmdtype", 5), (ascii "result", 0), (ascii "sequence", 1)])) := by
  have htext : integersText [(ascii "cmdtype", 5), (ascii "result", 0), (ascii "sequence", 1)] =
      doneReply.payload := by decide +kernel
  rw [← htext]
  exact parse_integers (by decide +kernel) (by decide)

theorem doneReply_accepted : accepts kCmdFileUpload 1 doneReply.payload = true ∧
    parseWireResult doneReply.payload = 0 := by
  have hc : parseWireCmdtype doneReply.payload = 5 :=
    wireMember_integers parse_doneReply (by decide +kernel) rfl (by decide)
  have hs : parseWireSequence doneReply.payload = 1 :=
    wireMember_integers parse_doneReply (by decide +kernel) rfl (by decide)
  refine ⟨?_, wireMember_integers parse_doneReply (by decide +kernel) rfl (by decide)⟩
  rw [accepts, hc, hs]
  decide

theorem resumeReply_accepted : accepts kCmdFileUpload 1 resumeReply.payload = true ∧
    parseUploadInitReply resumeReply.payload = (1, some (1, 1)) := by
  have hmember : ∀ key : String, ∀ n : Int, isWord (ascii key) = true →
      lookup resumeObject (ascii key) = some (.number n) → n.natAbs < 2 ^ 31 →
      wireMember key resumeReply.payload = n := fun key n hkey hn hlt =>
    wireMember_integer parse_resumeReply hkey hn hlt
  have hc : parseWireCmdtype resumeReply.payload = 5 :=
    hmember _ 5 (by decide +kernel) (by simp [resumeObject, lookup_cons]) (by decide)
  have hr : parseWireResult resumeReply.payload = 1 :=
    hmember _ 1 (by decide +kernel) (by simp +decide [resumeObject, lookup_cons]) (by decide)
  have hs : parseWireSequence resumeReply.payload = 1 :=
    hmember _ 1 (by decide +kernel) (by simp +decide [resumeObject, lookup_cons]) (by decide)
  have hreply : (Value.object resumeObject).find (ascii "reply") =
      .object (integerMembers [(ascii "chunk_size", 1), (ascii "offset", 1)]) := by
    rw [find_word (by decide +kernel)]
    simp +decide [resumeObject, lookup_cons, Value.asObject]
  constructor
  · rw [accepts, hc, hs]
    decide
  · simp only [parseUploadInitReply, hr, parse_resumeReply, hreply, Value.isObject]
    rw [find_word (by decide +kernel), find_word (by decide +kernel)]
    decide +kernel

theorem recv_reply (fr : Frame) (reads rest : List Read)
    (hnext : ∀ seq ws sent, nextBody (repliesSession reads seq ws sent) =
      .ok (some fr.payload, repliesSession rest seq ws sent))
    (hparts : wireParts fr.payload = (fr.payload, []))
    (haccept : accepts kCmdFileUpload 1 fr.payload = true) (seq : UInt32) (ws : List (Option Nat))
    (sent : Bytes) :
    recvWireJson kCmdFileUpload 1 (repliesSession reads seq ws sent) =
      .ok (some fr.payload, repliesSession rest seq ws sent) := by
  have hpending : takePendingWireJson (repliesSession reads seq ws sent).recvBuf = .ok ([], []) := rfl
  have hrecv : recvJsonPayload (repliesSession reads seq ws sent) =
      .ok (some fr.payload, repliesSession rest seq ws sent) := by
    rw [recvJsonPayload, hnext, Except.map]
    simp only [Option.map_some, hparts]
  rw [recvWireJson, hpending]
  simp only [List.find?_nil]
  change recvWireLoop kCmdFileUpload 1 32 (repliesSession reads seq ws sent) = _
  rw [recvWireLoop, hrecv]
  simp only [if_pos haccept]

def bothReplies : Session := repliesSession [resumeRead, doneRead] 0 [] []

theorem repliesSession_sends (reads : List Read) (seq : UInt32) (magic : UInt32) (body : Bytes)
    (ws : List (Option Nat)) (hws : ∀ w ∈ ws, w = none) (sent : Bytes) :
    ∃ ws' sent', (∀ w ∈ ws', w = none) ∧ sendFrame (repliesSession reads seq ws sent) magic body =
      (true, repliesSession reads (seq + 1) ws' sent') := by
  obtain ⟨ws', hws', hsend⟩ := sendFrame_ok (s := repliesSession reads seq ws sent) hws magic body
  exact ⟨ws', _, hws', hsend⟩

/-- The accepted reply asks for chunks of 1 KB from offset 1. -/
theorem bothReplies_init (req : UploadRequest) (f : File) : ∃ ws sent, (∀ w ∈ ws, w = none) ∧
    initUpload 1 req f bothReplies = .ok (.ok (1, 1), repliesSession [doneRead] 1 ws sent) := by
  have hdrain : drainStaleWireJson bothReplies = .ok bothReplies := rfl
  obtain ⟨ws, sent, hws, hsend⟩ := repliesSession_sends [resumeRead, doneRead] 0 kMagicCtrlClient
    (wrapCtrlAbi (buildFileUploadInitAbi 1 req.destStorage req.destName (UInt64.ofNat f.size)))
    [] (by simp) []
  have hrecv := recv_reply resumeReply [resumeRead, doneRead] [doneRead]
    (fun _ _ _ => rfl) (by decide) resumeReply_accepted.1 (0 + 1) ws sent
  refine ⟨ws, sent, hws, ?_⟩
  simp only [initUpload, hdrain, sendAbiJson]
  rw [bothReplies, hsend]
  simp only [hrecv, resumeReply_accepted.2]
  rfl

theorem doneRead_finishes (f : File) (digest : Bytes) (seq : UInt32) (ws : List (Option Nat))
    (sent : Bytes) :
    finishUpload 1 f digest (repliesSession [doneRead] seq ws sent) =
      .ok ({ ok := true, bytes := UInt64.ofNat f.size, md5Lower := digest, wireResult := 0 },
        repliesSession [] seq ws sent) := by
  have hrecv := recv_reply doneReply [doneRead] []
    (fun _ _ _ => rfl) (by decide) doneReply_accepted.1 seq ws sent
  rw [finishUpload, finalLoop, hrecv]
  simp only [doneReply_accepted.2, if_neg (show ¬ (0 : Int) = 1 by decide), true_or, if_true]

/-- MD5 where it is used here. -/
def md5Table : Md5 where
  digest b :=
    if b = [0x61] then
      [0x0c, 0xc1, 0x75, 0xb9, 0xc0, 0xf1, 0xb6, 0xa8, 0x31, 0xc3, 0x99, 0xe2, 0x69, 0x77, 0x26, 0x61]
    else
      [0x18, 0x7e, 0xf4, 0x43, 0x61, 0x22, 0xd1, 0xcc, 0x2f, 0x40, 0xdc, 0x2b, 0x92, 0xf0, 0xeb, 0xa0]
  size b := by split_ifs <;> rfl

def model : UploadRequest where
  localPath := ascii "/tmp/a.3mf"
  destStorage := ascii "emmc"
  destName := ascii "a.3mf"

def oneByte : File where
  content := [0x61]
  fits := by decide

def twoBytes : File where
  content := [0x61, 0x62]
  fits := by decide

theorem runChunkedUpload_init {md5 : Md5} {f : File} {s₁ : Session}
    (h : initUpload 1 model f bothReplies = .ok (.ok (1, 1), s₁)) (cancelled : Nat → Bool) :
    runChunkedUpload md5 1 model (some f) cancelled bothReplies =
      transfer md5 1 f cancelled 1 1 s₁ := by
  have hfields : ¬ (model.destStorage = [] ∨ model.destName = [] ∨ model.localPath = []) := by decide
  simp only [runChunkedUpload, if_neg hfields, h]

theorem transfer_of_loop {md5 : Md5} {seq : UInt32} {f : File} {cancelled : Nat → Bool}
    {chunkSizeKb : UInt32} {offset : UInt64} {s s₁ : Session} {ctx digest : Bytes}
    (hprefixed : hashPrefix f (chunkSizeKb.toNat * 1024) offset.toNat (f.size + 1) 0 [] = .ok (some ctx))
    (hloop : chunkLoop md5 f seq (chunkSizeKb.toNat * 1024) cancelled (f.size + 1) 0
      { pos := offset.toNat, offset := offset.toNat, fragId := 0, ctx := ctx, digestLower := [] } s =
        .ok (.ok digest, s₁)) :
    transfer md5 seq f cancelled chunkSizeKb offset s = finishUpload seq f digest s₁ := by
  simp only [transfer, hprefixed, hloop]

theorem hashPrefix_first (f : File) (h : 1 ≤ f.size) :
    hashPrefix f ((1 : UInt32).toNat * 1024) (1 : UInt64).toNat (f.size + 1) 0 [] =
      .ok (some (f.content.take 1)) := by
  have hp := hashPrefix_spec f (show 0 < 1024 by decide) 1 (f.size + 1)
    (Nat.zero_le _) (by omega) (by omega)
  rw [if_pos h] at hp
  exact hp

/-- The reply leaves nothing of a file of one byte to send. -/
theorem run_oneByte : ∃ ws sent,
    initUpload 1 model oneByte bothReplies = .ok (.ok (1, 1), repliesSession [doneRead] 1 ws sent) ∧
      runChunkedUpload md5Table 1 model (some oneByte) (fun _ => false) bothReplies =
        .ok ({ ok := true, bytes := 1, md5Lower := [], wireResult := 0 },
          repliesSession [] 1 ws sent) := by
  obtain ⟨ws, sent, -, hinit⟩ := bothReplies_init model oneByte
  refine ⟨ws, sent, hinit, ?_⟩
  rw [runChunkedUpload_init hinit, transfer_of_loop (hashPrefix_first oneByte (by decide))
    (by rw [chunkLoop, chunkTurn, if_pos (by decide)])]
  exact doneRead_finishes oneByte [] 1 ws sent

/-- Of a file of two bytes it leaves one chunk. -/
theorem run_twoBytes : ∃ s₁ digest s', initUpload 1 model twoBytes bothReplies = .ok (.ok (1, 1), s₁) ∧
    runChunkedUpload md5Table 1 model (some twoBytes) (fun _ => false) bothReplies =
      .ok ({ ok := true, bytes := 2, md5Lower := digest, wireResult := 0 }, s') := by
  obtain ⟨ws, sent, hws, hinit⟩ := bothReplies_init model twoBytes
  have hsize : chunkSize twoBytes 1024 1 < 2 ^ 32 := by decide
  have hne : md5FinalizeLower md5Table twoBytes.content ≠ [] := md5FinalizeLower_ne_nil _ _
  have hgot : (resumed twoBytes 0 1).got twoBytes 1024 ≠ [] := by decide
  have hchunk : (resumed twoBytes 0 1).chunk twoBytes 1024 ≠ [] := by decide
  have hmd5 := fileMd5_resumed md5Table 0 hsize
  rw [if_pos (by decide)] at hmd5
  obtain ⟨ws', sent', -, hsend⟩ := repliesSession_sends [doneRead] 1 kMagicCtrlClient
    (wrapCtrlAbi ((resumed twoBytes 0 1).chunkAbi md5Table twoBytes 1 1024) ++
      Ascii.lf :: Ascii.lf :: (resumed twoBytes 0 1).chunk twoBytes 1024) ws hws sent
  refine ⟨_, md5FinalizeLower md5Table twoBytes.content, repliesSession [] (1 + 1) ws' sent', hinit, ?_⟩
  have hloop : chunkLoop md5Table twoBytes 1 1024 (fun _ => false) 3 0 (resumed twoBytes 0 1)
      (repliesSession [doneRead] 1 ws sent) =
      .ok (.ok (md5FinalizeLower md5Table twoBytes.content),
        repliesSession [doneRead] (1 + 1) ws' sent') := by
    rw [chunkLoop, chunkTurn, if_neg (by decide), if_neg (by simp), if_neg hgot, hmd5,
      if_neg (fun h => hne h.2), sendAbiJsonWithBinary, if_neg hchunk, hsend]
    simp only
    have hnext := next_resumed md5Table 0 hsize []
    rw [if_pos (by decide)] at hnext
    change chunkLoop md5Table twoBytes 1 1024 (fun _ => false) 2 1
      (({ resumed twoBytes 0 1 with digestLower := [] } : Progress).next md5Table twoBytes 1024) _ = _
    rw [hnext, chunkLoop, chunkTurn, if_pos (by decide)]
  rw [runChunkedUpload_init hinit, transfer_of_loop (hashPrefix_first twoBytes (by decide)) hloop]
  exact doneRead_finishes twoBytes _ _ ws' sent'

/-- The condition is met by a file that needs one more chunk. -/
theorem chunked_upload_delivers_twoBytes : ∃ s₁ s' out,
    initUpload 1 model twoBytes bothReplies = .ok (.ok (1, 1), s₁) ∧
      runChunkedUpload md5Table 1 model (some twoBytes) (fun _ => false) bothReplies = .ok (out, s') ∧
      ∃ wire, s'.sent = s₁.sent ++ wire ∧
        (Delivers md5Table twoBytes ((1 : UInt32).toNat * 1024) (1 : UInt64).toNat out wire ↔
          Sendable md5Table twoBytes 1 ((1 : UInt32).toNat * 1024) (1 : UInt64).toNat) := by
  obtain ⟨s₁, digest, s', hinit, hrun⟩ := run_twoBytes
  exact ⟨s₁, s', _, hinit, hrun, chunked_upload_delivers_iff hinit hrun rfl⟩

/-- The printer has the whole file: the upload ends well without a chunk and without a digest. -/
theorem chunked_upload_without_chunk : ∃ s₁ s' out,
    initUpload 1 model oneByte bothReplies = .ok (.ok (1, 1), s₁) ∧
      runChunkedUpload md5Table 1 model (some oneByte) (fun _ => false) bothReplies = .ok (out, s') ∧
      out.ok = true ∧ out.md5Lower = [] ∧ s'.sent = s₁.sent ∧
      ∀ wire, ¬ Delivers md5Table oneByte ((1 : UInt32).toNat * 1024) (1 : UInt64).toNat out wire := by
  obtain ⟨ws, sent, hinit, hrun⟩ := run_oneByte
  refine ⟨_, _, _, hinit, hrun, rfl, rfl, rfl, fun wire h => ?_⟩
  exact absurd h.md5Lower.symm (md5FinalizeLower_ne_nil _ _)

end OpenBambu.Upload
