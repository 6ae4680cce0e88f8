import OpenBambu.Json.Written
import OpenBambu.Tunnel.Control

/-!
# Payloads with a blob

`wrap_ctrl_abi_with_binary` puts a blob behind a message, and `send_abi_json_with_binary_stream` sends
the same bytes with the blob read from a stream. A receiver that cuts such a payload with
`split_json_prefix` gets the two parts back, whatever the strings of the message and the first bytes
of the blob are.
-/

namespace OpenBambu.Tunnel

open OpenBambu.Foundation OpenBambu.Json

/-- The source also takes a null pointer for no blob. -/
def wrapCtrlAbiWithBinary (abiJson bin : Bytes) : Bytes :=
  let wire := wrapCtrlAbi abiJson
  if bin = [] then wire else wire ++ [Ascii.lf, Ascii.lf] ++ bin

/-- The buffer `send_abi_json_with_binary_stream` fills; `none` when the stream is too short. -/
def streamBody (abiJson binIn : Bytes) (binLen : Nat) : Option Bytes :=
  let body := wrapCtrlAbi abiJson
  if 0 < binLen then
    let read := binIn.take binLen
    if read.length = binLen then some (body ++ [Ascii.lf, Ascii.lf] ++ read) else none
  else some body

/-- Up to `passes` reads; `stop` says after which one the loop is left. -/
def pollReads (stop : ReadCode → Bool) : Nat → Session → Except Halt Session
  | 0, s => .ok s
  | passes + 1, s =>
      match tryReadFrames s with
      | .error h => .error h
      | .ok (code, s) => if stop code then .ok s else pollReads stop passes s

/-- The optional reads behind a send, and the callback that may refuse a message. -/
def pollAfterSend (onWire : Option (Bytes → Bool)) (s : Session) : Except Halt (Int × Session) :=
  match onWire with
  | some onWire =>
      match pollReads (· = .failed) 8 s with
      | .error h => .error h
      | .ok s =>
          match takePendingWireJson s.recvBuf with
          | .error h => .error h
          | .ok (pending, rest) =>
              .ok (if pending.all onWire then 0 else -2, { s with recvBuf := rest })
  | none =>
      match pollReads (fun code => code = .got || code = .failed) 8 s with
      | .error h => .error h
      | .ok s => .ok (0, s)

/-- `Session::send_abi_json_with_binary_stream`. -/
def sendAbiJsonWithBinaryStream (s : Session) (abiJson binIn : Bytes) (binLen : Nat)
    (onWire : Option (Bytes → Bool)) (pollRxAfterSend : Bool) : Except Halt (Int × Session) :=
  match streamBody abiJson binIn binLen with
  | none => .ok (-1, s)
  | some body =>
      let hdr := buildFrameHeader (UInt32.ofNat body.length) kMagicCtrlClient s.seq
      match sslWriteAll { s with seq := s.seq + 1 } hdr with
      | (false, s) => .ok (-1, s)
      | (true, s) =>
          match (if body = [] then (true, s) else sslWriteAll s body) with
          | (false, s) => .ok (-1, s)
          | (true, s) => if pollRxAfterSend then pollAfterSend onWire s else .ok (0, s)

/-! ## Cutting a payload -/

/-- A wrapped object is an object again, with balanced text between its braces. -/
theorem wrapCtrlAbi_dump_object (o : Object) :
    ∃ c, wrapCtrlAbi (Value.object o).dump = Ascii.lbrace :: (c ++ [Ascii.rbrace]) ∧ Balanced c := by
  obtain ⟨c, hdump, hbalanced⟩ := dump_object o
  have hwrap := wrapCtrlAbi_object c []
  rw [hdump, hwrap]
  split_ifs with hmtype
  · exact ⟨c, rfl, hbalanced⟩
  · exact ⟨mtypeMember ++ c, rfl, balanced_wrapped hbalanced⟩

theorem skipSeparator_blob (bin : Bytes) : skipSeparator ([Ascii.lf, Ascii.lf] ++ bin) = bin := by
  rw [skipSeparator, if_pos (List.prefix_append _ _)]
  rfl

/-- The body of a stream that holds the blob. -/
theorem streamBody_blob (abiJson bin more : Bytes) :
    streamBody abiJson (bin ++ more) bin.length = some (wrapCtrlAbiWithBinary abiJson bin) := by
  unfold streamBody wrapCtrlAbiWithBinary
  by_cases hbin : bin = []
  · rw [if_pos hbin, hbin, if_neg (by simp)]
  · rw [if_neg hbin, if_pos (List.length_pos_iff.mpr hbin), List.take_left' rfl]
    exact if_pos rfl

/-- The call of the stream is the frame of the wrapped message, and the reads behind it. -/
theorem sendAbiJsonWithBinaryStream_frame (s : Session) (abiJson bin more : Bytes)
    (onWire : Option (Bytes → Bool)) (poll : Bool) :
    sendAbiJsonWithBinaryStream s abiJson (bin ++ more) bin.length onWire poll =
      match sendFrame s kMagicCtrlClient (wrapCtrlAbiWithBinary abiJson bin) with
      | (false, s) => .ok (-1, s)
      | (true, s) => if poll then pollAfterSend onWire s else .ok (0, s) := by
  rw [sendAbiJsonWithBinaryStream, streamBody_blob, sendFrame]
  simp only
  generalize sslWriteAll _ _ = written
  obtain ⟨ok, s⟩ := written
  cases ok <;> rfl

/-- A payload with a blob comes apart into the wrapped message and the blob, and what the stream call
frames is that payload. -/
theorem payload_splits (o : Object) (bin : Bytes) (hbin : bin ≠ []) :
    splitJsonPrefix (wrapCtrlAbiWithBinary (Value.object o).dump bin) =
        some (wrapCtrlAbi (Value.object o).dump, bin) ∧
      ∀ more, streamBody (Value.object o).dump (bin ++ more) bin.length =
          some (wrapCtrlAbiWithBinary (Value.object o).dump bin) ∧
        ∀ s onWire poll,
          sendAbiJsonWithBinaryStream s (Value.object o).dump (bin ++ more) bin.length onWire poll =
            match sendFrame s kMagicCtrlClient (wrapCtrlAbiWithBinary (Value.object o).dump bin) with
            | (false, s) => .ok (-1, s)
            | (true, s) => if poll then pollAfterSend onWire s else .ok (0, s) := by
  refine ⟨?_, fun more => ⟨streamBody_blob _ bin more, fun s onWire poll => ?_⟩⟩
  · obtain ⟨c, hwrap, hbalanced⟩ := wrapCtrlAbi_dump_object o
    have hpayload : wrapCtrlAbiWithBinary (Value.object o).dump bin =
        Ascii.lbrace :: (c ++ Ascii.rbrace :: ([Ascii.lf, Ascii.lf] ++ bin)) := by
      rw [wrapCtrlAbiWithBinary, if_neg hbin, hwrap]
      simp
    rw [hpayload, splitJsonPrefix_object hbalanced, skipSeparator_blob, hwrap]
  · exact sendAbiJsonWithBinaryStream_frame s _ bin more onWire poll

/-- A key of braces and quotes, and a blob that starts like the separator and an object. -/
theorem payload_splits_tricky :
    splitJsonPrefix (wrapCtrlAbiWithBinary
        (Value.object [(ascii "\x7d\"\\", .string (ascii "\x7b\n"))]).dump (ascii "\n\n\x7b\"\x7d")) =
      some (wrapCtrlAbi (Value.object [(ascii "\x7d\"\\", .string (ascii "\x7b\n"))]).dump,
        ascii "\n\n\x7b\"\x7d") :=
  (payload_splits [(ascii "\x7d\"\\", .string (ascii "\x7b\n"))] (ascii "\n\n\x7b\"\x7d") (by decide)).1

end OpenBambu.Tunnel
