import OpenBambu.Rtsp.Sdp

/-!
# The media sections of a session description

`parse_sdp` goes through the lines once and keeps what it finds in any video section: the payload type
of the last one, the clock rate of the last matching `rtpmap`, and the first control attribute and
parameter sets. Here the lines are put into sections, so that what comes from where can be told.
-/

namespace OpenBambu.Rtsp

open OpenBambu.Foundation

/-! ## Attributes -/

inductive Attribute where
  | control (text : Bytes)
  | rtpmap (pt : Int) (codec clock : Bytes)
  | fmtp (pt : Int) (params : Bytes)
  | other

def rtpmapOf (rest : Bytes) : Attribute :=
  match cut Ascii.sp rest with
  | none => .other
  | some (pt, enc) =>
      match cut Ascii.slash enc with
      | none => .other
      | some (codec, clock) => .rtpmap (atoi pt) codec clock

def fmtpOf (rest : Bytes) : Attribute :=
  match cut Ascii.sp rest with
  | none => .other
  | some (pt, params) => .fmtp (atoi pt) params

def attributeOf (val : Bytes) : Attribute :=
  if startsWith val (ascii "control:") then .control (trim (val.drop 8))
  else if startsWith val (ascii "rtpmap:") then rtpmapOf (val.drop 7)
  else if startsWith val (ascii "fmtp:") then fmtpOf (val.drop 5)
  else .other

def clockRateOf (clock : Bytes) : UInt32 :=
  if UInt32.ofInt (atoi clock) = 0 then 90000 else UInt32.ofInt (atoi clock)

/-- The base64 texts of one `key=value` of a `fmtp` line. -/
def spropTexts (kv : Bytes) : List Bytes :=
  match cut 0x3d kv with
  | none => []
  | some (k, v) => if lc (trim k) = ascii "sprop-parameter-sets" then pieces Ascii.comma (trim v) else []

def decodedNal (b64 : Bytes) : Option Bytes := (base64Decode b64).filter (· ≠ [])

/-- The NAL units of a `fmtp` line. -/
def nalsOf (params : Bytes) : List Bytes := ((pieces 0x3b params).flatMap spropTexts).filterMap decodedNal

/-! ## What attributes say

Each attribute stands with the payload type it is compared with. -/

def rateAt (a : Int × Bytes) : Option UInt32 :=
  match attributeOf a.2 with
  | .rtpmap pt codec clock => if pt = a.1 ∧ lc codec = ascii "h264" then some (clockRateOf clock) else none
  | _ => none

def controlAt (a : Int × Bytes) : Option Bytes :=
  match attributeOf a.2 with
  | .control text => if text = [] then none else some text
  | _ => none

def nalsAt (a : Int × Bytes) : List Bytes :=
  match attributeOf a.2 with
  | .fmtp pt params => if pt = a.1 then nalsOf params else []
  | _ => []

/-- The clock rate of the last matching `rtpmap`. -/
def clockOf (l : List (Int × Bytes)) : UInt32 := (l.filterMap rateAt).getLast?.getD 90000

/-- The first control attribute that is not empty. -/
def controlOf (l : List (Int × Bytes)) : Bytes := (l.filterMap controlAt).head?.getD []

def ofType (type : Nat) (nal : Bytes) : Bool := nal.head?.any fun nal0 => nalType nal0 = type

/-- The first parameter set of a type. -/
def setOf (type : Nat) (l : List (Int × Bytes)) : Bytes := ((l.flatMap nalsAt).find? (ofType type)).getD []

/-! ## Sections -/

/-- The tag and the value of a line. -/
def tagged (line : Bytes) : Option (Byte × Bytes) :=
  match stripCr line with
  | tag :: eq :: val => if eq = 0x3d then some (tag, val) else none
  | _ => none

/-- The value of an `m=` line, and those of the `a=` lines up to the next one. -/
structure Section where
  media : Bytes
  attributes : List Bytes
  deriving DecidableEq, Repr

/-- The attributes in front of the first section, and the sections. -/
def sectionsFrom : List Bytes → List Bytes × List Section
  | [] => ([], [])
  | line :: lines =>
      match tagged line with
      | none => sectionsFrom lines
      | some (tag, val) =>
          if tag = Ascii.letter 'm' then ([], ⟨val, (sectionsFrom lines).1⟩ :: (sectionsFrom lines).2)
          else if tag = Ascii.letter 'a' then (val :: (sectionsFrom lines).1, (sectionsFrom lines).2)
          else sectionsFrom lines

def Section.video (sec : Section) : Bool := startsWith sec.media (ascii "video ")

/-- The format listed last. -/
def lastFormat (media : Bytes) : Int := ((behindLast Ascii.sp media).map atoi).getD (-1)

/-- The formats of `<media> <port> <proto> <fmt> ...`. -/
def Section.formats (sec : Section) : List Int := ((pieces Ascii.sp sec.media).drop 3).map atoi

def Section.readFor (sec : Section) (pt : Int) : List (Int × Bytes) := sec.attributes.map fun val => (pt, val)

def videoSections (sdp : Bytes) : List Section := (sectionsFrom (pieces Ascii.lf sdp)).2.filter Section.video

/-- What the loop reads: the attributes of all video sections, each for the last format of its own. -/
def allRead (secs : List Section) : List (Int × Bytes) :=
  secs.flatMap fun sec => sec.readFor (lastFormat sec.media)

/-! ## The loop over the lines -/

/-- What attributes do to what is kept. -/
structure ReadsTo (s s' : SdpState) (l : List (Int × Bytes)) : Prop where
  seen : s'.seenRtpmap = (s.seenRtpmap || !(l.filterMap rateAt).isEmpty)
  clock : s'.track.clockRate = (l.filterMap rateAt).getLast?.getD s.track.clockRate
  control : s'.control = if s.control = [] then controlOf l else s.control
  sps : s'.track.sps = if s.track.sps = [] then setOf 7 l else s.track.sps
  pps : s'.track.pps = if s.track.pps = [] then setOf 8 l else s.track.pps

theorem ofType_ne_nil {type : Nat} {nal : Bytes} (h : ofType type nal = true) : nal ≠ [] := by
  rintro rfl
  cases h

theorem setOf_append (type : Nat) (l₁ l₂ : List (Int × Bytes)) :
    setOf type (l₁ ++ l₂) = if setOf type l₁ = [] then setOf type l₂ else setOf type l₁ := by
  unfold setOf
  rw [List.flatMap_append, List.find?_append]
  cases hfind : (l₁.flatMap nalsAt).find? (ofType type) with
  | none => rfl
  | some nal =>
      have hne := ofType_ne_nil (List.find?_some hfind)
      simp [hne]

theorem controlAt_ne_nil {a : Int × Bytes} {text : Bytes} (h : controlAt a = some text) : text ≠ [] := by
  unfold controlAt at h
  split at h
  · split_ifs at h with hne
    obtain rfl := Option.some.inj h
    exact hne
  · cases h

theorem controlOf_append (l₁ l₂ : List (Int × Bytes)) :
    controlOf (l₁ ++ l₂) = if controlOf l₁ = [] then controlOf l₂ else controlOf l₁ := by
  unfold controlOf
  rw [List.filterMap_append, List.head?_append]
  cases hhead : (l₁.filterMap controlAt).head? with
  | none => rfl
  | some text =>
      obtain ⟨a, -, ha⟩ := List.mem_filterMap.mp (List.mem_of_mem_head? hhead)
      have hne := controlAt_ne_nil ha
      simp [hne]

theorem ReadsTo.trans {s t u : SdpState} {l₁ l₂ : List (Int × Bytes)} (h₁ : ReadsTo s t l₁)
    (h₂ : ReadsTo t u l₂) : ReadsTo s u (l₁ ++ l₂) where
  seen := by
    rw [h₂.seen, h₁.seen, List.filterMap_append]
    cases l₁.filterMap rateAt with
    | nil => simp
    | cons rate rates => simp
  clock := by
    rw [h₂.clock, h₁.clock, List.filterMap_append, List.getLast?_append]
    cases (l₂.filterMap rateAt).getLast? <;> rfl
  control := by
    rw [h₂.control, h₁.control, controlOf_append]
    split_ifs <;> simp_all
  sps := by
    rw [h₂.sps, h₁.sps, setOf_append]
    split_ifs <;> simp_all
  pps := by
    rw [h₂.pps, h₁.pps, setOf_append]
    split_ifs <;> simp_all

/-- What a decoded text brings, where it is kept. -/
theorem keepParameterSet_spec (track : H264Track) (b64 : Bytes) :
    (keepParameterSet track b64).sps =
        (if track.sps = [] then (([b64].filterMap decodedNal).find? (ofType 7)).getD [] else track.sps) ∧
      (keepParameterSet track b64).pps =
        (if track.pps = [] then (([b64].filterMap decodedNal).find? (ofType 8)).getD [] else track.pps) ∧
      (keepParameterSet track b64).clockRate = track.clockRate ∧
      (keepParameterSet track b64).rtpPt = track.rtpPt := by
  have hnone : [b64].filterMap decodedNal = [] → keepParameterSet track b64 = track →
      (keepParameterSet track b64).sps =
          (if track.sps = [] then (([b64].filterMap decodedNal).find? (ofType 7)).getD [] else track.sps) ∧
        (keepParameterSet track b64).pps =
          (if track.pps = [] then (([b64].filterMap decodedNal).find? (ofType 8)).getD [] else track.pps) ∧
        (keepParameterSet track b64).clockRate = track.clockRate ∧
        (keepParameterSet track b64).rtpPt = track.rtpPt := by
    intro hno hsame
    rw [hno, hsame]
    refine ⟨?_, ?_, rfl, rfl⟩
    · split_ifs with h
      · exact h
      · rfl
    · split_ifs with h
      · exact h
      · rfl
  cases hdec : base64Decode b64 with
  | none => exact hnone (by simp [decodedNal, hdec]) (by rw [keepParameterSet, hdec])
  | some nal =>
      cases nal with
      | nil => exact hnone (by simp [decodedNal, hdec]) (by rw [keepParameterSet, hdec])
      | cons nal0 nal =>
          have hdecoded : decodedNal b64 = some (nal0 :: nal) := by
            rw [decodedNal, hdec]
            rfl
          rw [List.filterMap_cons_some hdecoded, List.filterMap_nil]
          simp only [keepParameterSet, hdec, List.find?_singleton, ofType, List.head?_cons, Option.any_some,
            decide_eq_true_eq]
          by_cases h7 : nalType nal0 = 7
          · have h8 : nalType nal0 ≠ 8 := by omega
            by_cases hs : track.sps = [] <;> by_cases hp : track.pps = [] <;> simp [h7, hs, hp]
          · by_cases hs : track.sps = [] <;> by_cases hp : track.pps = [] <;>
              by_cases h8 : nalType nal0 = 8 <;> simp [h7, h8, hs, hp]

/-- Texts of base64 one after the other, from several lines. -/
theorem keepParameterSets_spec (texts : List Bytes) (track : H264Track) :
    (texts.foldl keepParameterSet track).sps =
        (if track.sps = [] then ((texts.filterMap decodedNal).find? (ofType 7)).getD [] else track.sps) ∧
      (texts.foldl keepParameterSet track).pps =
        (if track.pps = [] then ((texts.filterMap decodedNal).find? (ofType 8)).getD [] else track.pps) ∧
      (texts.foldl keepParameterSet track).clockRate = track.clockRate ∧
      (texts.foldl keepParameterSet track).rtpPt = track.rtpPt := by
  have hfirst : ∀ (type : Nat) (text : Bytes) (texts : List Bytes) (prior : Bytes),
      (if (if prior = [] then (([text].filterMap decodedNal).find? (ofType type)).getD [] else prior) = [] then
          ((texts.filterMap decodedNal).find? (ofType type)).getD []
        else if prior = [] then (([text].filterMap decodedNal).find? (ofType type)).getD [] else prior) =
        if prior = [] then (((text :: texts).filterMap decodedNal).find? (ofType type)).getD [] else prior := by
    intro type text texts prior
    by_cases hprior : prior = []
    · have hsplit : text :: texts = [text] ++ texts := rfl
      rw [if_pos hprior, if_pos hprior, hsplit, List.filterMap_append, List.find?_append]
      cases hfind : ([text].filterMap decodedNal).find? (ofType type) with
      | none => rfl
      | some nal => simp [ofType_ne_nil (List.find?_some hfind)]
    · simp [hprior]
  induction texts generalizing track with
  | nil =>
      refine ⟨?_, ?_, rfl, rfl⟩
      · simp only [List.foldl_nil, List.filterMap_nil, List.find?_nil, Option.getD_none]
        split_ifs with h
        · exact h
        · rfl
      · simp only [List.foldl_nil, List.filterMap_nil, List.find?_nil, Option.getD_none]
        split_ifs with h
        · exact h
        · rfl
  | cons text texts ih =>
      obtain ⟨hsps, hpps, hclock, hpt⟩ := ih (keepParameterSet track text)
      obtain ⟨hsps₁, hpps₁, hclock₁, hpt₁⟩ := keepParameterSet_spec track text
      rw [List.foldl_cons, hsps, hpps, hclock, hpt, hsps₁, hpps₁, hclock₁, hpt₁]
      exact ⟨hfirst 7 text texts track.sps, hfirst 8 text texts track.pps, rfl, rfl⟩

theorem fmtpParam_eq (track : H264Track) (kv : Bytes) :
    fmtpParam track kv = (spropTexts kv).foldl keepParameterSet track := by
  unfold fmtpParam spropTexts
  cases cut 0x3d kv with
  | none => rfl
  | some p =>
      obtain ⟨k, v⟩ := p
      simp only
      split_ifs <;> rfl

/-- The loop over the parameters of a matching `fmtp` line. -/
theorem fmtpParams_eq (params : Bytes) (track : H264Track) :
    (pieces 0x3b params).foldl fmtpParam track =
      ((pieces 0x3b params).flatMap spropTexts).foldl keepParameterSet track := by
  rw [List.foldl_flatMap]
  exact congrArg (fun f => (pieces 0x3b params).foldl f track)
    (funext fun t => funext fun kv => fmtpParam_eq t kv)

/-- The line of an attribute. -/
theorem attributeLine_eq (s : SdpState) (val : Bytes) :
    attributeLine s val =
      match attributeOf val with
      | .control text => .ok (if s.control = [] then { s with control := text } else s)
      | .rtpmap pt codec clock =>
          if pt ≠ s.videoPt then .ok s
          else if lc codec ≠ ascii "h264" then .error (ascii "rtsp: unsupported codec " ++ lc codec)
          else .ok { s with seenRtpmap := true, track := { s.track with clockRate := clockRateOf clock } }
      | .fmtp pt params =>
          .ok (if pt ≠ s.videoPt then s
            else { s with track := ((pieces 0x3b params).flatMap spropTexts).foldl keepParameterSet s.track })
      | .other => .ok s := by
  unfold attributeLine attributeOf
  by_cases hcontrol : startsWith val (ascii "control:") = true
  · simp only [if_pos hcontrol]
  simp only [if_neg hcontrol]
  by_cases hrtpmap : startsWith val (ascii "rtpmap:") = true
  · simp only [if_pos hrtpmap]
    unfold rtpmapLine rtpmapOf
    cases cut Ascii.sp (val.drop 7) with
    | none => rfl
    | some p =>
        obtain ⟨pt, enc⟩ := p
        simp only
        cases cut Ascii.slash enc with
        | none => split_ifs <;> rfl
        | some q => rfl
  simp only [if_neg hrtpmap]
  by_cases hfmtp : startsWith val (ascii "fmtp:") = true
  · simp only [if_pos hfmtp]
    unfold fmtpLine fmtpOf
    cases cut Ascii.sp (val.drop 5) with
    | none => rfl
    | some p =>
        simp only [fmtpParams_eq]
  · simp only [if_neg hfmtp]

theorem ReadsTo.one {s t : SdpState} {a : Int × Bytes}
    (hseen : t.seenRtpmap = (s.seenRtpmap || (rateAt a).isSome))
    (hclock : t.track.clockRate = (rateAt a).getD s.track.clockRate)
    (hcontrol : t.control = if s.control = [] then (controlAt a).getD [] else s.control)
    (hsps : t.track.sps = if s.track.sps = [] then ((nalsAt a).find? (ofType 7)).getD [] else s.track.sps)
    (hpps : t.track.pps = if s.track.pps = [] then ((nalsAt a).find? (ofType 8)).getD [] else s.track.pps) :
    ReadsTo s t [a] where
  seen := by
    rw [hseen]
    cases h : rateAt a <;> simp [h]
  clock := by
    rw [hclock]
    cases h : rateAt a <;> simp [h]
  control := by
    rw [hcontrol, controlOf]
    cases h : controlAt a <;> simp [h]
  sps := by rw [hsps, setOf, List.flatMap_singleton]
  pps := by rw [hpps, setOf, List.flatMap_singleton]

/-- What stays is empty and not set, or what it was. -/
theorem kept_prior (prior : Bytes) : prior = if prior = [] then [] else prior := by
  split_ifs with h
  · exact h
  · rfl

theorem ReadsTo.nothing (s : SdpState) {a : Int × Bytes} (hrate : rateAt a = none) (htext : controlAt a = none)
    (hnals : nalsAt a = []) : ReadsTo s s [a] := by
  refine .one ?_ ?_ ?_ ?_ ?_
  · rw [hrate, Option.isSome_none, Bool.or_false]
  · rw [hrate]; rfl
  · rw [htext]; exact kept_prior _
  · rw [hnals]; exact kept_prior _
  · rw [hnals]; exact kept_prior _

/-- A line that names a control only. -/
theorem ReadsTo.text (s : SdpState) {a : Int × Bytes} {text : Bytes} (hrate : rateAt a = none)
    (htext : (controlAt a).getD [] = text) (hnals : nalsAt a = []) :
    ReadsTo s (if s.control = [] then { s with control := text } else s) [a] := by
  refine .one ?_ ?_ ?_ ?_ ?_
  · rw [hrate, Option.isSome_none, Bool.or_false]
    split_ifs <;> rfl
  · rw [hrate]
    split_ifs <;> rfl
  · rw [htext]
    split_ifs <;> rfl
  · rw [hnals]
    split_ifs <;> first | rfl | assumption
  · rw [hnals]
    split_ifs <;> first | rfl | assumption

/-- A line that names a clock only. -/
theorem ReadsTo.rate (s : SdpState) {a : Int × Bytes} {rate : UInt32} (hrate : rateAt a = some rate)
    (htext : controlAt a = none) (hnals : nalsAt a = []) :
    ReadsTo s { s with seenRtpmap := true, track := { s.track with clockRate := rate } } [a] := by
  refine .one ?_ ?_ ?_ ?_ ?_
  · rw [hrate, Option.isSome_some, Bool.or_true]
  · rw [hrate]; rfl
  · rw [htext]; exact kept_prior _
  · rw [hnals]; exact kept_prior _
  · rw [hnals]; exact kept_prior _

/-- A line that carries parameter sets only. -/
theorem ReadsTo.sets (s : SdpState) {a : Int × Bytes} {texts : List Bytes} (hrate : rateAt a = none)
    (htext : controlAt a = none) (hnals : nalsAt a = texts.filterMap decodedNal) :
    ReadsTo s { s with track := texts.foldl keepParameterSet s.track } [a] := by
  obtain ⟨hsps, hpps, hclock, -⟩ := keepParameterSets_spec texts s.track
  refine .one ?_ ?_ ?_ ?_ ?_
  · rw [hrate, Option.isSome_none, Bool.or_false]
  · rw [hrate]; exact hclock
  · rw [htext]; exact kept_prior _
  · rw [hnals]; exact hsps
  · rw [hnals]; exact hpps

/-- What the line of an attribute does. -/
theorem attributeLine_reads {s t : SdpState} {val : Bytes} (h : attributeLine s val = .ok t) :
    ReadsTo s t [(s.videoPt, val)] ∧ t.inVideo = s.inVideo ∧ t.videoPt = s.videoPt ∧
      t.track.rtpPt = s.track.rtpPt := by
  rw [attributeLine_eq] at h
  cases hattr : attributeOf val with
  | control text =>
      rw [hattr] at h
      obtain rfl := Except.ok.inj h
      have hrate : rateAt (s.videoPt, val) = none := by rw [rateAt, hattr]
      have hnals : nalsAt (s.videoPt, val) = [] := by rw [nalsAt, hattr]
      have htext : (controlAt (s.videoPt, val)).getD [] = text := by
        rw [controlAt, hattr]
        by_cases hne : text = [] <;> simp [hne]
      refine ⟨.text s hrate htext hnals, ?_⟩
      split_ifs <;> exact ⟨rfl, rfl, rfl⟩
  | rtpmap pt codec clock =>
      rw [hattr] at h
      have htext : controlAt (s.videoPt, val) = none := by rw [controlAt, hattr]
      have hnals : nalsAt (s.videoPt, val) = [] := by rw [nalsAt, hattr]
      simp only at h
      split_ifs at h with hpt hcodec
      · obtain rfl := Except.ok.inj h
        have hrate : rateAt (s.videoPt, val) = none := by
          rw [rateAt, hattr]
          exact if_neg fun hmatch => hpt hmatch.1
        exact ⟨.nothing s hrate htext hnals, rfl, rfl, rfl⟩
      · obtain rfl := Except.ok.inj h
        have hrate : rateAt (s.videoPt, val) = some (clockRateOf clock) := by
          rw [rateAt, hattr]
          exact if_pos ⟨not_not.mp hpt, not_not.mp hcodec⟩
        exact ⟨.rate s hrate htext hnals, rfl, rfl, rfl⟩
  | fmtp pt params =>
      rw [hattr] at h
      obtain rfl := Except.ok.inj h
      have hrate : rateAt (s.videoPt, val) = none := by rw [rateAt, hattr]
      have htext : controlAt (s.videoPt, val) = none := by rw [controlAt, hattr]
      by_cases hpt : pt ≠ s.videoPt
      · have hnals : nalsAt (s.videoPt, val) = [] := by
          rw [nalsAt, hattr]
          exact if_neg hpt
        rw [if_pos hpt]
        exact ⟨.nothing s hrate htext hnals, rfl, rfl, rfl⟩
      · have hnals : nalsAt (s.videoPt, val) = nalsOf params := by
          rw [nalsAt, hattr]
          exact if_pos (not_not.mp hpt)
        obtain ⟨-, -, -, hrtp⟩ :=
          keepParameterSets_spec ((pieces 0x3b params).flatMap spropTexts) s.track
        rw [if_neg hpt]
        exact ⟨.sets s hrate htext hnals, rfl, rfl, hrtp⟩
  | other =>
      rw [hattr] at h
      obtain rfl := Except.ok.inj h
      have hrate : rateAt (s.videoPt, val) = none := by rw [rateAt, hattr]
      have htext : controlAt (s.videoPt, val) = none := by rw [controlAt, hattr]
      have hnals : nalsAt (s.videoPt, val) = [] := by rw [nalsAt, hattr]
      exact ⟨.nothing s hrate htext hnals, rfl, rfl, rfl⟩

theorem sdpLine_eq (s : SdpState) (line : Bytes) :
    sdpLine s line =
      match tagged line with
      | none => .ok s
      | some (tag, val) =>
          if tag = Ascii.letter 'm' then .ok (mediaLine s val)
          else if s.inVideo && tag = Ascii.letter 'a' then attributeLine s val
          else .ok s := by
  unfold sdpLine tagged
  cases stripCr line with
  | nil => rfl
  | cons tag rest =>
      cases rest with
      | nil => rfl
      | cons eq val =>
          simp only
          by_cases heq : eq = 0x3d
          · rw [if_neg (not_not.mpr heq), if_pos heq]
          · rw [if_pos heq, if_neg heq]

theorem mediaLine_video {media : Bytes} (h : startsWith media (ascii "video ") = true) (s : SdpState) :
    mediaLine s media = { s with
      inVideo := true, videoPt := lastFormat media, track := { s.track with rtpPt := lastFormat media } } := by
  have hmem : media.contains Ascii.sp = true := by
    obtain ⟨t, rfl⟩ := startsWith_iff.mp h
    rw [List.contains_iff_mem]
    exact List.mem_append_left _ (by decide)
  simp only [mediaLine, lastFormat, behindLast, h, hmem, if_true, Option.map_some, Option.getD_some]

theorem ReadsTo.media (s : SdpState) (val : Bytes) : ReadsTo s (mediaLine s val) [] := by
  have hkept : (mediaLine s val).seenRtpmap = s.seenRtpmap ∧
      (mediaLine s val).track.clockRate = s.track.clockRate ∧ (mediaLine s val).control = s.control ∧
      (mediaLine s val).track.sps = s.track.sps ∧ (mediaLine s val).track.pps = s.track.pps := by
    unfold mediaLine
    split_ifs <;> exact ⟨rfl, rfl, rfl, rfl, rfl⟩
  obtain ⟨hseen, hclock, hcontrol, hsps, hpps⟩ := hkept
  refine ⟨?_, hclock, ?_, ?_, ?_⟩
  · rw [hseen]
    simp
  · rw [hcontrol]
    exact kept_prior _
  · rw [hsps]
    exact kept_prior _
  · rw [hpps]
    exact kept_prior _

/-- The attributes in front of the first section are read if a video section is open. -/
def leading (s : SdpState) (attributes : List Bytes) : List (Int × Bytes) :=
  if s.inVideo then attributes.map fun val => (s.videoPt, val) else []

/-- The line of a section, and what the lines behind it do. -/
theorem media_reads {s t : SdpState} {val : Bytes} {attributes : List Bytes} {secs : List Section}
    (hreads : ReadsTo (mediaLine s val) t
      (leading (mediaLine s val) attributes ++ allRead (secs.filter Section.video)))
    (hpt : t.track.rtpPt = (((secs.filter Section.video).getLast?).map fun sec => lastFormat sec.media).getD
      (mediaLine s val).track.rtpPt) :
    ReadsTo s t (leading s [] ++ allRead ((⟨val, attributes⟩ :: secs : List Section).filter Section.video)) ∧
      t.track.rtpPt = ((((⟨val, attributes⟩ :: secs : List Section).filter Section.video).getLast?).map
        fun sec => lastFormat sec.media).getD s.track.rtpPt := by
  have hnil : leading s [] = [] := by
    unfold leading
    split_ifs <;> rfl
  have hall := (ReadsTo.media s val).trans hreads
  rw [hnil, List.nil_append]
  rw [List.nil_append] at hall
  by_cases hv : startsWith val (ascii "video ") = true
  · have hlead : leading (mediaLine s val) attributes =
        Section.readFor ⟨val, attributes⟩ (lastFormat val) := by
      rw [mediaLine_video hv]
      exact if_pos rfl
    have hrtp : (mediaLine s val).track.rtpPt = lastFormat val := by
      rw [mediaLine_video hv]
    have hvideo : Section.video ⟨val, attributes⟩ = true := hv
    rw [List.filter_cons_of_pos hvideo]
    rw [hlead] at hall
    rw [hrtp] at hpt
    refine ⟨hall, ?_⟩
    rw [hpt, List.getLast?_cons]
    cases (secs.filter Section.video).getLast? <;> rfl
  · have hlead : leading (mediaLine s val) attributes = [] := by
      rw [leading, mediaLine, if_neg hv]
      rfl
    have hrtp : (mediaLine s val).track.rtpPt = s.track.rtpPt := by
      rw [mediaLine, if_neg hv]
    have hvideo : ¬ Section.video ⟨val, attributes⟩ = true := hv
    rw [List.filter_cons_of_neg hvideo]
    rw [hlead, List.nil_append] at hall
    rw [hrtp] at hpt
    exact ⟨hall, hpt⟩

/-- The loop over the lines. -/
theorem sdpLines_reads {lines : List Bytes} {s t : SdpState} (h : lines.foldlM sdpLine s = .ok t) :
    ReadsTo s t (leading s (sectionsFrom lines).1 ++ allRead ((sectionsFrom lines).2.filter Section.video)) ∧
      t.track.rtpPt = ((((sectionsFrom lines).2.filter Section.video).getLast?).map
        fun sec => lastFormat sec.media).getD s.track.rtpPt := by
  induction lines generalizing s with
  | nil =>
      obtain rfl := Except.ok.inj h
      have hnil : leading s (sectionsFrom []).1 = [] := by
        unfold leading
        split_ifs <;> rfl
      rw [hnil]
      exact ⟨⟨by simp [allRead, sectionsFrom], rfl, kept_prior _, kept_prior _, kept_prior _⟩, rfl⟩
  | cons line lines ih =>
      rw [List.foldlM_cons] at h
      cases hline : sdpLine s line with
      | error e =>
          rw [hline] at h
          cases h
      | ok mid =>
          rw [hline] at h
          obtain ⟨hreads, hpt⟩ := ih h
          rw [sdpLine_eq] at hline
          cases htag : tagged line with
          | none =>
              rw [htag] at hline
              obtain rfl := Except.ok.inj hline
              rw [sectionsFrom, htag]
              exact ⟨hreads, hpt⟩
          | some p =>
              obtain ⟨tag, val⟩ := p
              rw [htag] at hline
              rw [sectionsFrom, htag]
              simp only at hline ⊢
              by_cases hm : tag = Ascii.letter 'm'
              · rw [if_pos hm] at hline ⊢
                obtain rfl := Except.ok.inj hline
                exact media_reads hreads hpt
              · rw [if_neg hm] at hline ⊢
                by_cases ha : tag = Ascii.letter 'a'
                · rw [if_pos ha]
                  by_cases hv : s.inVideo = true
                  · rw [if_pos (by simp [hv, ha])] at hline
                    obtain ⟨hone, hin, hvideo, hrtp⟩ := attributeLine_reads hline
                    have hlead : leading s (val :: (sectionsFrom lines).1) =
                        [(s.videoPt, val)] ++ leading mid (sectionsFrom lines).1 := by
                      rw [leading, leading, hin, hvideo, if_pos hv, if_pos hv]
                      rfl
                    rw [hrtp] at hpt
                    refine ⟨?_, hpt⟩
                    rw [hlead, List.append_assoc]
                    exact hone.trans hreads
                  · rw [if_neg (by simp [hv])] at hline
                    obtain rfl := Except.ok.inj hline
                    have hlead : leading s (val :: (sectionsFrom lines).1) = leading s (sectionsFrom lines).1 := by
                      rw [leading, leading, if_neg hv, if_neg hv]
                    rw [hlead]
                    exact ⟨hreads, hpt⟩
                · rw [if_neg ha]
                  rw [if_neg (by simp [ha])] at hline
                  obtain rfl := Except.ok.inj hline
                  exact ⟨hreads, hpt⟩

/-- What a description that is accepted says, read over all its video sections. -/
theorem parseSdp_reads {sdp : Bytes} {track : H264Track} {control : Bytes}
    (h : parseSdp sdp = .ok (track, control)) :
    track = ⟨setOf 7 (allRead (videoSections sdp)), setOf 8 (allRead (videoSections sdp)),
        clockOf (allRead (videoSections sdp)),
        (((videoSections sdp).getLast?).map fun sec => lastFormat sec.media).getD (-1)⟩ ∧
      control = controlOf (allRead (videoSections sdp)) := by
  unfold parseSdp at h
  cases hlines : (pieces Ascii.lf sdp).foldlM sdpLine sdpStart with
  | error e =>
      rw [hlines] at h
      cases h
  | ok s =>
      rw [hlines] at h
      simp only at h
      split_ifs at h
      obtain ⟨rfl, rfl⟩ := Prod.mk.inj (Except.ok.inj h)
      obtain ⟨hreads, hpt⟩ := sdpLines_reads hlines
      have hlead : leading sdpStart (sectionsFrom (pieces Ascii.lf sdp)).1 = [] := rfl
      rw [hlead, List.nil_append] at hreads
      refine ⟨?_, hreads.control⟩
      have hsps := hreads.sps
      have hpps := hreads.pps
      have hclock := hreads.clock
      rw [videoSections]
      generalize s.track = track at *
      cases track
      simp only [sdpStart, if_true] at hsps hpps hclock hpt
      rw [hsps, hpps, hclock, hpt]
      rfl

/-! ## The first H.264 section -/

/-- A format that some `rtpmap` of the section maps to H.264. -/
def Section.isH264 (sec : Section) (pt : Int) : Bool := (sec.readFor pt).any fun a => (rateAt a).isSome

/-- The first video section with such a format, and the first of them. -/
def firstH264 (sdp : Bytes) : Option (Section × Int) :=
  (videoSections sdp).findSome? fun sec => (sec.formats.find? sec.isH264).map fun pt => (sec, pt)

/-- Everything in a track comes from one section and one of its formats. -/
structure From (sec : Section) (pt : Int) (track : H264Track) (control : Bytes) : Prop where
  rtpPt : track.rtpPt = pt
  clockRate : track.clockRate = clockOf (sec.readFor pt)
  control : control = controlOf (sec.readFor pt)
  sps : track.sps = setOf 7 (sec.readFor pt)
  pps : track.pps = setOf 8 (sec.readFor pt)

/-- No other section, and no other format, has a say: the last video section lists the format last, and
read with all video sections, each for its last format, the attributes say what they say read with this
section alone, for this format. -/
structure Undisturbed (secs : List Section) (sec : Section) (pt : Int) : Prop where
  format : (secs.getLast?.map fun sec => lastFormat sec.media) = some pt
  clock : clockOf (allRead secs) = clockOf (sec.readFor pt)
  control : controlOf (allRead secs) = controlOf (sec.readFor pt)
  sps : setOf 7 (allRead secs) = setOf 7 (sec.readFor pt)
  pps : setOf 8 (allRead secs) = setOf 8 (sec.readFor pt)

theorem undisturbed_single {sec : Section} {pt : Int} (h : lastFormat sec.media = pt) :
    Undisturbed [sec] sec pt := by
  have hall : allRead [sec] = sec.readFor pt := by
    rw [allRead, List.flatMap_singleton, h]
  exact ⟨congrArg some h, by rw [hall], by rw [hall], by rw [hall], by rw [hall]⟩

/-- The track of an accepted description is that of its first H.264 section exactly if nothing else has
a say in it, as where it has one video section whose last format is its first H.264 one. -/
theorem parse_sdp_first_iff {sdp : Bytes} {track : H264Track} {control : Bytes}
    (h : parseSdp sdp = .ok (track, control)) :
    ((∃ sec pt, firstH264 sdp = some (sec, pt) ∧ From sec pt track control) ↔
        ∃ sec pt, firstH264 sdp = some (sec, pt) ∧ Undisturbed (videoSections sdp) sec pt) ∧
      ∀ sec pt, videoSections sdp = [sec] → sec.formats.find? sec.isH264 = some pt →
        lastFormat sec.media = pt → From sec pt track control := by
  obtain ⟨htrack, hcontrol⟩ := parseSdp_reads h
  have hiff : ∀ sec pt, firstH264 sdp = some (sec, pt) →
      (From sec pt track control ↔ Undisturbed (videoSections sdp) sec pt) := by
    intro sec pt hfirst
    have hlast : ∃ last, (videoSections sdp).getLast? = some last := by
      obtain ⟨a, ha, -⟩ := List.exists_of_findSome?_eq_some hfirst
      exact ⟨_, List.getLast?_eq_some_getLast (List.ne_nil_of_mem ha)⟩
    obtain ⟨last, hlast⟩ := hlast
    rw [htrack, hcontrol]
    constructor
    · intro hfrom
      refine ⟨?_, hfrom.clockRate, hfrom.control, hfrom.sps, hfrom.pps⟩
      have hpt := hfrom.rtpPt
      rw [hlast] at hpt ⊢
      exact congrArg some hpt
    · intro hun
      refine ⟨?_, hun.clock, hun.control, hun.sps, hun.pps⟩
      have hpt := hun.format
      rw [hlast] at hpt ⊢
      exact Option.some.inj hpt
  refine ⟨?_, fun sec pt hone hfind hpt => ?_⟩
  · constructor
    · rintro ⟨sec, pt, hfirst, hfrom⟩
      exact ⟨sec, pt, hfirst, (hiff sec pt hfirst).mp hfrom⟩
    · rintro ⟨sec, pt, hfirst, hun⟩
      exact ⟨sec, pt, hfirst, (hiff sec pt hfirst).mpr hun⟩
  · have hfirst : firstH264 sdp = some (sec, pt) := by
      rw [firstH264, hone, List.findSome?_singleton, hfind]
      rfl
    refine (hiff sec pt hfirst).mpr ?_
    rw [hone]
    exact undisturbed_single hpt

/-- One video section with one format, and an audio section behind it. -/
def sdpOneFormat : Bytes :=
  ascii "v=0\nm=video 0 RTP/AVP 96\na=rtpmap:96 H264/90000\na=control:track1\nm=audio 0 RTP/AVP 97\na=control:a\n"

def oneFormat : Section := ⟨ascii "video 0 RTP/AVP 96", [ascii "rtpmap:96 H264/90000", ascii "control:track1"]⟩

theorem parse_sdp_first_oneFormat :
    parseSdp sdpOneFormat = .ok (⟨[], [], 90000, 96⟩, ascii "track1") ∧
      From oneFormat 96 ⟨[], [], 90000, 96⟩ (ascii "track1") := by
  have h : parseSdp sdpOneFormat = .ok (⟨[], [], 90000, 96⟩, ascii "track1") := by decide +kernel
  exact ⟨h, (parse_sdp_first_iff h).2 oneFormat 96 (by decide +kernel) (by decide +kernel) (by decide +kernel)⟩

/-- Two H.264 formats on one line. -/
def sdpTwoFormats : Bytes :=
  ascii "v=0\nm=video 0 RTP/AVP 96 97\na=rtpmap:96 H264/90000\na=rtpmap:97 H264/90000\na=control:track1\n"

def twoFormats : Section :=
  ⟨ascii "video 0 RTP/AVP 96 97", [ascii "rtpmap:96 H264/90000", ascii "rtpmap:97 H264/90000",
    ascii "control:track1"]⟩

/-- The second is taken. -/
theorem parse_sdp_first_fails :
    parseSdp sdpTwoFormats = .ok (⟨[], [], 90000, 97⟩, ascii "track1") ∧
      firstH264 sdpTwoFormats = some (twoFormats, 96) ∧
      ¬ ∃ sec pt, firstH264 sdpTwoFormats = some (sec, pt) ∧
        From sec pt ⟨[], [], 90000, 97⟩ (ascii "track1") := by
  have hfirst : firstH264 sdpTwoFormats = some (twoFormats, 96) := by decide +kernel
  refine ⟨by decide +kernel, hfirst, ?_⟩
  rintro ⟨sec, pt, hsec, hfrom⟩
  obtain ⟨rfl, rfl⟩ := Prod.mk.inj (Option.some.inj (hfirst.symm.trans hsec))
  exact absurd hfrom.rtpPt (by decide)

end OpenBambu.Rtsp
