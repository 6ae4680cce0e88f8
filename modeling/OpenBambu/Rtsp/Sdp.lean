import OpenBambu.Foundation.Text
import OpenBambu.Rtsp.Rtp

/-!
# The session description

`parse_sdp` of `stubs/rtsp_client.cpp` with its base64 decoder. The description names the
video track; its `sprop-parameter-sets` are optional. Whatever the description, the parameter
sets of an accepted track are empty or of the right NAL type.
-/

namespace OpenBambu.Rtsp

open OpenBambu.Foundation

structure H264Track where
  sps : Bytes
  pps : Bytes
  clockRate : UInt32
  rtpPt : Int
  deriving DecidableEq, Repr

/-! ## Base64 -/

def base64Value (c : Byte) : Option UInt32 :=
  if 0x41 ≤ c && c ≤ 0x5a then some (c - 0x41).toUInt32
  else if 0x61 ≤ c && c ≤ 0x7a then some ((c - 0x61).toUInt32 + 26)
  else if 0x30 ≤ c && c ≤ 0x39 then some ((c - 0x30).toUInt32 + 52)
  else if c = 0x2b then some 62
  else if c = 0x2f then some 63
  else none

/-- The loop over the characters, with the bits not yet written out. -/
def base64Loop (buf : UInt32) (bits : UInt32) (out : Bytes) : Bytes → Option Bytes
  | [] => some out
  | c :: rest =>
      if c = 0x3d then some out
      else if c = Ascii.cr ∨ c = Ascii.lf ∨ c = Ascii.sp then base64Loop buf bits out rest
      else
        match base64Value c with
        | none => none
        | some v =>
            let buf := (buf <<< 6) ||| v
            if 8 ≤ bits + 6 then
              base64Loop buf (bits + 6 - 8) (out ++ [(buf >>> (bits + 6 - 8)).toUInt8]) rest
            else base64Loop buf (bits + 6) out rest

def base64Decode (s : Bytes) : Option Bytes := base64Loop 0 0 [] s

/-! ## Lines of the description -/

/-- What the loop over the lines keeps. -/
structure SdpState where
  track : H264Track
  control : Bytes
  videoPt : Int
  inVideo : Bool
  seenRtpmap : Bool
  deriving DecidableEq, Repr

/-- One NAL unit of `sprop-parameter-sets`: the first of each type is kept. -/
def keepParameterSet (track : H264Track) (b64 : Bytes) : H264Track :=
  match base64Decode b64 with
  | some (nal0 :: nal) =>
      if nalType nal0 = 7 ∧ track.sps = [] then { track with sps := nal0 :: nal }
      else if nalType nal0 = 8 ∧ track.pps = [] then { track with pps := nal0 :: nal }
      else track
  | _ => track

/-- One `key=value` of an `a=fmtp:` line. -/
def fmtpParam (track : H264Track) (kv : Bytes) : H264Track :=
  match cut 0x3d kv with
  | none => track
  | some (k, v) =>
      if lc (trim k) = ascii "sprop-parameter-sets" then
        (pieces Ascii.comma (trim v)).foldl keepParameterSet track
      else track

def fmtpLine (s : SdpState) (rest : Bytes) : SdpState :=
  match cut Ascii.sp rest with
  | none => s
  | some (pt, params) =>
      if atoi pt ≠ s.videoPt then s
      else { s with track := (pieces 0x3b params).foldl fmtpParam s.track }

/-- `a=rtpmap:<pt> <encoding>/<clock>`; any codec but H.264 is an error. -/
def rtpmapLine (s : SdpState) (rest : Bytes) : Except Bytes SdpState :=
  match cut Ascii.sp rest with
  | none => .ok s
  | some (pt, enc) =>
      if atoi pt ≠ s.videoPt then .ok s
      else
        match cut Ascii.slash enc with
        | none => .ok s
        | some (codec, clock) =>
            if lc codec ≠ ascii "h264" then .error (ascii "rtsp: unsupported codec " ++ lc codec)
            else
              let rate := UInt32.ofInt (atoi clock)
              .ok { s with
                seenRtpmap := true
                track := { s.track with clockRate := if rate = 0 then 90000 else rate } }

def attributeLine (s : SdpState) (val : Bytes) : Except Bytes SdpState :=
  if startsWith val (ascii "control:") then
    .ok (if s.control = [] then { s with control := trim (val.drop 8) } else s)
  else if startsWith val (ascii "rtpmap:") then rtpmapLine s (val.drop 7)
  else if startsWith val (ascii "fmtp:") then .ok (fmtpLine s (val.drop 5))
  else .ok s

/-- `m=<media> <port> <proto> <fmt-list>`: the payload type listed last. -/
def mediaLine (s : SdpState) (val : Bytes) : SdpState :=
  if startsWith val (ascii "video ") then
    let pt := match behindLast Ascii.sp val with
      | some last => atoi last
      | none => s.videoPt
    { s with inVideo := true, videoPt := pt, track := { s.track with rtpPt := pt } }
  else { s with inVideo := false }

def sdpLine (s : SdpState) (line : Bytes) : Except Bytes SdpState :=
  match stripCr line with
  | tag :: eq :: val =>
      if eq ≠ 0x3d then .ok s
      else if tag = Ascii.letter 'm' then .ok (mediaLine s val)
      else if s.inVideo && tag = Ascii.letter 'a' then attributeLine s val
      else .ok s
  | _ => .ok s

def sdpStart : SdpState where
  track := ⟨[], [], 90000, -1⟩
  control := []
  videoPt := -1
  inVideo := false
  seenRtpmap := false

/-- The track and its control attribute, or the text of the error. -/
def parseSdp (sdp : Bytes) : Except Bytes (H264Track × Bytes) :=
  match (pieces Ascii.lf sdp).foldlM sdpLine sdpStart with
  | .error e => .error e
  | .ok s =>
      if s.seenRtpmap then .ok (s.track, s.control)
      else .error (ascii "rtsp: SDP had no usable H.264 video track")

/-! ## The parameter sets of an accepted track -/

/-- Each parameter set is missing or of its NAL type. -/
structure H264Track.Typed (track : H264Track) : Prop where
  sps : ∀ b ∈ track.sps.head?, nalType b = 7
  pps : ∀ b ∈ track.pps.head?, nalType b = 8

theorem keepParameterSet_typed {track : H264Track} (h : track.Typed) (b64 : Bytes) :
    (keepParameterSet track b64).Typed := by
  unfold keepParameterSet
  split
  · split_ifs with h7 h8
    · exact ⟨fun b hb => by cases hb; exact h7.1, h.pps⟩
    · exact ⟨h.sps, fun b hb => by cases hb; exact h8.1⟩
    · exact h
  · exact h

theorem foldl_typed {β : Type} {f : H264Track → β → H264Track}
    (hf : ∀ t b, H264Track.Typed t → (f t b).Typed) {track : H264Track} (h : track.Typed)
    (l : List β) : (l.foldl f track).Typed :=
  List.foldlRecOn l f h fun t ht b _ => hf t b ht

theorem fmtpParam_typed {track : H264Track} (h : track.Typed) (kv : Bytes) :
    (fmtpParam track kv).Typed := by
  unfold fmtpParam
  split
  · exact h
  · split_ifs
    · exact foldl_typed (fun t b ht => keepParameterSet_typed ht b) h _
    · exact h

theorem fmtpLine_typed {s : SdpState} (h : s.track.Typed) (rest : Bytes) :
    (fmtpLine s rest).track.Typed := by
  unfold fmtpLine
  split
  · exact h
  · split_ifs
    · exact h
    · exact foldl_typed (fun t b ht => fmtpParam_typed ht b) h _

theorem rtpmapLine_typed {s s' : SdpState} {rest : Bytes} (h : s.track.Typed)
    (hs : rtpmapLine s rest = .ok s') : s'.track.Typed := by
  unfold rtpmapLine at hs
  split at hs
  · cases hs
    exact h
  · split_ifs at hs
    · cases hs
      exact h
    · split at hs
      · cases hs
        exact h
      · split_ifs at hs
        cases hs
        exact ⟨h.sps, h.pps⟩

theorem attributeLine_typed {s s' : SdpState} {val : Bytes} (h : s.track.Typed)
    (hs : attributeLine s val = .ok s') : s'.track.Typed := by
  unfold attributeLine at hs
  split_ifs at hs
  · cases hs
    exact h
  · cases hs
    exact h
  · exact rtpmapLine_typed h hs
  · cases hs
    exact fmtpLine_typed h _
  · cases hs
    exact h

theorem sdpLine_typed {s s' : SdpState} {line : Bytes} (h : s.track.Typed)
    (hs : sdpLine s line = .ok s') : s'.track.Typed := by
  unfold sdpLine at hs
  split at hs
  · split_ifs at hs
    · cases hs
      exact h
    · cases hs
      unfold mediaLine
      split_ifs
      · exact ⟨h.sps, h.pps⟩
      · exact h
    · exact attributeLine_typed h hs
    · cases hs
      exact h
  · cases hs
    exact h

theorem sdpLines_typed {lines : List Bytes} {s s' : SdpState} (h : s.track.Typed)
    (hs : lines.foldlM sdpLine s = .ok s') : s'.track.Typed := by
  induction lines generalizing s with
  | nil =>
      cases hs
      exact h
  | cons line lines ih =>
      rw [List.foldlM_cons] at hs
      cases hline : sdpLine s line with
      | error e =>
          rw [hline] at hs
          cases hs
      | ok mid =>
          rw [hline] at hs
          exact ih (sdpLine_typed h hline) hs

/-- Whatever the description, an accepted track has an SPS in `sps` and a PPS in `pps`, or
nothing. -/
theorem parseSdp_typed {sdp : Bytes} {track : H264Track} {control : Bytes}
    (h : parseSdp sdp = .ok (track, control)) : track.Typed := by
  unfold parseSdp at h
  split at h
  · cases h
  · rename_i s hs
    split_ifs at h
    cases h
    have hstart : sdpStart.track.Typed := ⟨by simp [sdpStart], by simp [sdpStart]⟩
    exact sdpLines_typed hstart hs

end OpenBambu.Rtsp
