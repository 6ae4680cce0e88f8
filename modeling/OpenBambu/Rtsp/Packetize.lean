import OpenBambu.Rtsp.Rtp

/-!
# Packetizing H.264 for RTP

What a sender may put on the wire for a list of NAL units: any mixture of single-unit
packets, STAP-A packets and runs of FU-A fragments, with CSRC lists, header extensions and
padding as it likes. `decode_rtp_h264` does not look at the padding bit, so padding stays in
the payload.
-/

namespace OpenBambu.Rtsp

open OpenBambu.Foundation

def writeBe16 (v : UInt16) : Bytes := [(v >>> 8).toUInt8, v.toUInt8]

def writeBe32 (v : UInt32) : Bytes :=
  [(v >>> 24).toUInt8, (v >>> 16).toUInt8, (v >>> 8).toUInt8, v.toUInt8]

structure Extension where
  profile : UInt16
  words : List UInt32
  fits : words.length < 2 ^ 16

/-- The last byte of a padding counts it. -/
structure Padding where
  fill : Bytes
  fits : fill.length < 255

structure Header where
  csrc : List UInt32
  extension : Option Extension
  marker : Bool
  seq : UInt16
  ts : UInt32
  ssrc : UInt32
  padding : Option Padding
  csrcFits : csrc.length < 16

def Extension.bytes (x : Extension) : Bytes :=
  writeBe16 x.profile ++ writeBe16 (UInt16.ofNat x.words.length) ++ x.words.flatMap writeBe32

def Padding.bytes (p : Padding) : Bytes := p.fill ++ [UInt8.ofNat (p.fill.length + 1)]

def Header.extensionBytes (h : Header) : Bytes := (h.extension.map Extension.bytes).getD []

/-- What stands behind the payload. -/
def Header.trailer (h : Header) : Bytes := (h.padding.map Padding.bytes).getD []

def Header.byte0 (h : Header) : Byte :=
  0x80 ||| (if h.padding.isSome then 0x20 else 0) ||| (if h.extension.isSome then 0x10 else 0) |||
    UInt8.ofNat h.csrc.length

def Header.byte1 (h : Header) (pt : Fin 128) : Byte :=
  (if h.marker then 0x80 else 0) ||| UInt8.ofNat pt

/-- A packet with a payload. -/
def Header.packet (h : Header) (pt : Fin 128) (payload : Bytes) : Bytes :=
  h.byte0 :: h.byte1 pt :: (writeBe16 h.seq ++ writeBe32 h.ts ++ writeBe32 h.ssrc ++
    h.csrc.flatMap writeBe32 ++ h.extensionBytes ++ (payload ++ h.trailer))

/-- A NAL unit of type 1 to 23. -/
structure NalUnit where
  header : Byte
  body : Bytes
  type : 1 ≤ nalType header ∧ nalType header ≤ 23

def NalUnit.data (nal : NalUnit) : Bytes := nal.header :: nal.body

def fuIndicator (header : Byte) : Byte := (header &&& 0xe0) ||| 28

def fuHeader (start final : Bool) (header : Byte) : Byte :=
  (if start then 0x80 else 0) ||| (if final then 0x40 else 0) ||| (header &&& 0x1f)

/-- One step of a sender: a unit of its own, some units together, or one unit in fragments. -/
inductive Step where
  | single (h : Header) (nal : NalUnit)
  | stapA (h : Header) (indicator : Byte) (nals : List NalUnit) (type : nalType indicator = 24)
      (nonempty : nals ≠ []) (fits : ∀ nal ∈ nals, nal.data.length < 2 ^ 16)
  | fuA (nal : NalUnit) (first last : Header × Bytes) (mid : List (Header × Bytes))
      (whole : nal.body = first.2 ++ mid.flatMap Prod.snd ++ last.2)
      (sameTs : ∀ frag ∈ mid ++ [last], frag.1.ts = first.1.ts)

/-- The units of a STAP-A payload, each behind its size. -/
def sized (nals : List NalUnit) : Bytes :=
  nals.flatMap fun nal => writeBe16 (UInt16.ofNat nal.data.length) ++ nal.data

/-- A fragment on the wire. -/
def fragmentPacket (pt : Fin 128) (nal : NalUnit) (start final : Bool) (frag : Header × Bytes) : Bytes :=
  frag.1.packet pt (fuIndicator nal.header :: fuHeader start final nal.header :: frag.2)

def Step.packets (pt : Fin 128) : Step → List Bytes
  | .single h nal => [h.packet pt nal.data]
  | .stapA h indicator nals _ _ _ => [h.packet pt (indicator :: sized nals)]
  | .fuA nal first last mid _ _ =>
      fragmentPacket pt nal true false first ::
        (mid.map (fragmentPacket pt nal false false) ++ [fragmentPacket pt nal false true last])

/-- The units of a step with the timestamp of their packets. -/
def Step.units : Step → List (Bytes × UInt32)
  | .single h nal => [(nal.data, h.ts)]
  | .stapA h _ nals _ _ _ => nals.map fun nal => (nal.data, h.ts)
  | .fuA nal first _ _ _ _ => [(nal.data, first.1.ts)]

/-! ## The header is skipped -/

theorem be16_write (v : UInt16) : be16 (v >>> 8).toUInt8 v.toUInt8 = v := by
  apply UInt16.eq_of_toBitVec_eq
  apply BitVec.eq_of_getLsbD_eq
  intro i hi
  simp [-UInt16.toUInt16_toUInt8, be16]
  grind

theorem be32_write (v : UInt32) :
    be32 (v >>> 24).toUInt8 (v >>> 16).toUInt8 (v >>> 8).toUInt8 v.toUInt8 = v := by
  apply UInt32.eq_of_toBitVec_eq
  apply BitVec.eq_of_getLsbD_eq
  intro i hi
  simp [-UInt32.toUInt32_toUInt8, be32]
  grind

theorem length_flatMap_writeBe32 (l : List UInt32) : (l.flatMap writeBe32).length = 4 * l.length := by
  induction l with
  | nil => rfl
  | cons v l ih =>
      rw [List.flatMap_cons, List.length_append, ih, List.length_cons]
      change 4 + _ = _
      omega

theorem byte0_bits (p x : Bool) (n : Fin 16) :
    ((0x80 ||| (if p then 0x20 else 0) ||| (if x then 0x10 else 0) ||| UInt8.ofNat n : Byte) >>> 6 = 2) ∧
      ((0x80 ||| (if p then 0x20 else 0) ||| (if x then 0x10 else 0) ||| UInt8.ofNat n : Byte) &&& 0x0f).toNat
        = n ∧
      ((0x80 ||| (if p then 0x20 else 0) ||| (if x then 0x10 else 0) ||| UInt8.ofNat n : Byte) &&& 0x10 ≠ 0 ↔
        x = true) := by
  revert p x n
  decide +kernel

theorem byte1_bits (m : Bool) (pt : Fin 128) :
    (((if m then 0x80 else 0) ||| UInt8.ofNat pt : Byte) &&& 0x7f).toNat = pt ∧
      (((if m then 0x80 else 0) ||| UInt8.ofNat pt : Byte) &&& 0x80 ≠ 0 ↔ m = true) := by
  revert m pt
  decide +kernel

/-- The fixed header and the CSRC list. -/
def Header.front (h : Header) (pt : Fin 128) : Bytes :=
  h.byte0 :: h.byte1 pt :: (writeBe16 h.seq ++ writeBe32 h.ts ++ writeBe32 h.ssrc ++
    h.csrc.flatMap writeBe32)

theorem Header.packet_eq (h : Header) (pt : Fin 128) (payload : Bytes) :
    h.packet pt payload = h.front pt ++ (h.extensionBytes ++ (payload ++ h.trailer)) := by
  simp only [Header.packet, Header.front, List.cons_append, List.append_assoc]

theorem Header.length_front (h : Header) (pt : Fin 128) :
    (h.front pt).length = 12 + 4 * h.csrc.length := by
  simp only [Header.front, List.length_cons, List.length_append, length_flatMap_writeBe32]
  change 2 + 4 + 4 + _ + 1 + 1 = _
  omega

theorem Header.byte0_spec (h : Header) :
    h.byte0 >>> 6 = 2 ∧ (h.byte0 &&& 0x0f).toNat = h.csrc.length ∧
      (h.byte0 &&& 0x10 ≠ 0 ↔ h.extension.isSome = true) :=
  byte0_bits h.padding.isSome h.extension.isSome ⟨h.csrc.length, h.csrcFits⟩

theorem Header.offsetOf_packet (h : Header) (pt : Fin 128) (payload : Bytes) :
    offsetOf (h.packet pt payload) = some (12 + 4 * h.csrc.length + h.extensionBytes.length) := by
  obtain ⟨_, hcc, hx⟩ := h.byte0_spec
  have hb0 : (h.packet pt payload).getD 0 0 = h.byte0 := rfl
  have hlen := h.length_front pt
  have hdrop : (h.packet pt payload).drop (12 + 4 * h.csrc.length) =
      h.extensionBytes ++ (payload ++ h.trailer) := by
    rw [h.packet_eq]
    exact List.drop_left' hlen
  rw [offsetOf, hb0, payloadOffset]
  simp only [hcc]
  cases he : h.extension with
  | none =>
      rw [if_neg (by rw [hx, he]; decide), Header.extensionBytes, he]
      rfl
  | some x =>
      have hbytes : h.extensionBytes = x.bytes := by rw [Header.extensionBytes, he]; rfl
      have hfour : (h.packet pt payload).drop (12 + 4 * h.csrc.length) =
          (x.profile >>> 8).toUInt8 :: x.profile.toUInt8 ::
            (UInt16.ofNat x.words.length >>> 8).toUInt8 :: (UInt16.ofNat x.words.length).toUInt8 ::
              (x.words.flatMap writeBe32 ++ (payload ++ h.trailer)) := by
        rw [hdrop, hbytes]
        rfl
      have htwo := congrArg (List.drop 2) hfour
      have hthree := congrArg (List.drop 3) hfour
      rw [List.drop_drop] at htwo hthree
      have hshort : ¬ (h.packet pt payload).length < 12 + 4 * h.csrc.length + 4 := by
        have := congrArg List.length hfour
        simp only [List.length_drop, List.length_cons] at this
        omega
      have hwords : (be16 (UInt16.ofNat x.words.length >>> 8).toUInt8
          (UInt16.ofNat x.words.length).toUInt8).toNat = x.words.length := by
        rw [be16_write]
        exact UInt16.toNat_ofNat_of_lt' x.fits
      have hxlen : x.bytes.length = 4 + 4 * x.words.length := by
        simp only [Extension.bytes, List.length_append, length_flatMap_writeBe32]
        rfl
      rw [if_pos (by rw [hx, he]; rfl), if_neg hshort, byteAt_drop htwo, byteAt_drop hthree]
      simp only [bind, Except.bind, pure, Except.pure, hwords, hbytes, hxlen]
      congr 1
      omega

/-- The payload of a packet ends with its padding. -/
theorem Header.payloadOf_packet (h : Header) (pt : Fin 128) {payload : Bytes} (hp : payload ≠ []) :
    payloadOf pt (h.packet pt payload) = some ⟨h.marker, h.ts, payload ++ h.trailer⟩ := by
  obtain ⟨hv, _, _⟩ := h.byte0_spec
  obtain ⟨hpt, hm⟩ := byte1_bits h.marker pt
  have hb1 : (h.packet pt payload).getD 1 0 = h.byte1 pt := rfl
  have hb0 : (h.packet pt payload).getD 0 0 = h.byte0 := rfl
  have hts : be32 ((h.packet pt payload).getD 4 0) ((h.packet pt payload).getD 5 0)
      ((h.packet pt payload).getD 6 0) ((h.packet pt payload).getD 7 0) = h.ts := be32_write h.ts
  have hlen : (h.packet pt payload).length =
      12 + 4 * h.csrc.length + h.extensionBytes.length + (payload ++ h.trailer).length := by
    rw [h.packet_eq, List.length_append, List.length_append, h.length_front]
    omega
  have hpos : 0 < (payload ++ h.trailer).length := List.length_pos_of_ne_nil (by simp [hp])
  have hmarker : decide (h.byte1 pt &&& 0x80 ≠ 0) = h.marker := by
    rw [Bool.eq_iff_iff, decide_eq_true_iff]
    exact hm
  have hdrop : (h.packet pt payload).drop (12 + 4 * h.csrc.length + h.extensionBytes.length) =
      payload ++ h.trailer := by
    rw [h.packet_eq, ← List.append_assoc]
    exact List.drop_left' (by rw [List.length_append, h.length_front])
  have hbad : ¬ ((h.packet pt payload).length < 12 ∨ h.byte0 >>> 6 ≠ 2 ∨
      ((h.byte1 pt &&& 0x7f).toNat : Int) ≠ (pt : Int)) := by
    rintro (h' | h' | h')
    · omega
    · exact h' hv
    · exact h' (by exact_mod_cast hpt)
  rw [payloadOf, hb0, hb1, if_neg (by exact_mod_cast hbad), h.offsetOf_packet, Option.bind_some,
    if_neg (by omega), hts, hdrop, hmarker]

/-! ## What the receiver makes of a step -/

theorem nalType_fuIndicator (header : Byte) : nalType (fuIndicator header) = 28 := by
  have h : ∀ n : Fin 256, nalType (fuIndicator (UInt8.ofFin n)) = 28 := by decide +kernel
  exact h header.toFin

theorem fuHeader_bits (start final : Bool) (header : Byte) :
    (fuHeader start final header &&& 0x80 ≠ 0 ↔ start = true) ∧
      (fuHeader start final header &&& 0x40 ≠ 0 ↔ final = true) ∧
      rebuiltHeader (fuIndicator header) (fuHeader start final header) = header := by
  have h : ∀ (s e : Bool) (n : Fin 256),
      (fuHeader s e (UInt8.ofFin n) &&& 0x80 ≠ 0 ↔ s = true) ∧
        (fuHeader s e (UInt8.ofFin n) &&& 0x40 ≠ 0 ↔ e = true) ∧
        rebuiltHeader (fuIndicator (UInt8.ofFin n)) (fuHeader s e (UInt8.ofFin n)) = UInt8.ofFin n := by
    decide +kernel
  exact h start final header.toFin

theorem produce_packet (h : Header) (pt : Fin 128) {payload : Bytes} (hp : payload ≠ []) (fu : FuState) :
    produce pt (h.packet pt payload) fu = producePayload ⟨h.marker, h.ts, payload ++ h.trailer⟩ fu := by
  rw [produce, h.payloadOf_packet pt hp]

theorem produce_single (h : Header) (pt : Fin 128) (nal : NalUnit) (fu : FuState) :
    produce pt (h.packet pt nal.data) fu = ([⟨nal.data ++ h.trailer, h.ts, h.marker⟩], fu) := by
  have hne : nal.data ≠ [] := List.cons_ne_nil _ _
  rw [produce_packet h pt hne, producePayload, NalUnit.data]
  simp only [List.cons_append, if_pos nal.type]

/-- The units of a STAP-A come out, and then what its padding reads as. -/
theorem stapNalus_sized (ts : UInt32) (m : Bool) {nals : List NalUnit}
    (hfits : ∀ nal ∈ nals, nal.data.length < 2 ^ 16) (rest : Bytes) :
    (stapNalus ts m (sized nals ++ rest)).map (fun n => (n.data, n.rtpTs90khz)) =
      nals.map (fun nal => (nal.data, ts)) ++
        (stapNalus ts m rest).map fun n => (n.data, n.rtpTs90khz) := by
  induction nals with
  | nil => rfl
  | cons nal nals ih =>
      have hfit := hfits nal List.mem_cons_self
      have hsize : (be16 (UInt16.ofNat nal.data.length >>> 8).toUInt8
          (UInt16.ofNat nal.data.length).toUInt8).toNat = nal.data.length := by
        rw [be16_write]
        exact UInt16.toNat_ofNat_of_lt' hfit
      have hsplit : sized (nal :: nals) ++ rest =
          (UInt16.ofNat nal.data.length >>> 8).toUInt8 :: (UInt16.ofNat nal.data.length).toUInt8 ::
            (nal.data ++ (sized nals ++ rest)) := by
        rw [sized, List.flatMap_cons, List.append_assoc, List.append_assoc]
        rfl
      have hpos : nal.data.length ≠ 0 := by simp [NalUnit.data]
      rw [hsplit, stapNalus, hsize, if_neg (by rw [List.length_append]; omega)]
      simp only [List.take_left, List.drop_left, List.map_cons, List.cons_append,
        ih fun n hn => hfits n (List.mem_cons_of_mem _ hn)]

theorem produce_stapA (h : Header) (pt : Fin 128) {indicator : Byte} (nals : List NalUnit)
    (type : nalType indicator = 24) (fu : FuState) :
    produce pt (h.packet pt (indicator :: sized nals)) fu =
      (stapNalus h.ts h.marker (sized nals ++ h.trailer), fu) := by
  rw [produce_packet h pt (List.cons_ne_nil _ _), producePayload]
  simp only [List.cons_append, type]
  rfl

/-- A fragment extends the unit in progress, its first one starts a new one. -/
theorem produce_fragmentPacket (pt : Fin 128) (nal : NalUnit) (start final : Bool)
    (frag : Header × Bytes) {fu : FuState} (hfu : start = true ∨ fu.buf ≠ []) :
    ∃ fu', fu'.buf = (if start then [nal.header] else fu.buf) ++ (frag.2 ++ frag.1.trailer) ∧
      fu'.ts = (if start then frag.1.ts else fu.ts) ∧
      produce pt (fragmentPacket pt nal start final frag) fu =
        if final then ([⟨fu'.buf, fu'.ts, fu'.auEnd⟩], ⟨[], fu'.ts, false⟩) else ([], fu') := by
  obtain ⟨hs, hf, hhdr⟩ := fuHeader_bits start final nal.header
  have h28 := nalType_fuIndicator nal.header
  have hprod : produce pt (fragmentPacket pt nal start final frag) fu =
      fuProduce fu frag.1.ts frag.1.marker
        (fuIndicator nal.header :: fuHeader start final nal.header :: (frag.2 ++ frag.1.trailer)) := by
    rw [fragmentPacket, produce_packet frag.1 pt (List.cons_ne_nil _ _), producePayload]
    simp only [List.cons_append, h28]
    rw [if_neg (by decide), if_neg (by decide), if_pos trivial]
  rw [hprod, fuProduce, hhdr]
  simp only [hs, hf]
  cases start with
  | true =>
      refine ⟨⟨nal.header :: (frag.2 ++ frag.1.trailer), frag.1.ts, frag.1.marker⟩, rfl, rfl, ?_⟩
      cases final <;> rfl
  | false =>
      have hne : fu.buf ≠ [] := hfu.resolve_left (by decide)
      refine ⟨⟨fu.buf ++ (frag.2 ++ frag.1.trailer), fu.ts, fu.auEnd || frag.1.marker⟩, rfl, rfl, ?_⟩
      rw [if_neg (by decide), if_neg hne]

theorem produceAll_append (rtpPt : Int) (xs ys : List Bytes) (fu : FuState) :
    produceAll rtpPt (xs ++ ys) fu =
      ((produceAll rtpPt xs fu).1 ++ (produceAll rtpPt ys (produceAll rtpPt xs fu).2).1,
        (produceAll rtpPt ys (produceAll rtpPt xs fu).2).2) := by
  induction xs generalizing fu with
  | nil => rfl
  | cons x xs ih =>
      simp only [List.cons_append, produceAll, ih, List.append_assoc]

/-- What fragments carry, their padding included. -/
def carriedBy (frags : List (Header × Bytes)) : Bytes := frags.flatMap fun f => f.2 ++ f.1.trailer

/-- The fragments behind the first one. -/
theorem produceAll_fragments (pt : Fin 128) (nal : NalUnit) (mid : List (Header × Bytes))
    (last : Header × Bytes) {fu : FuState} (hfu : fu.buf ≠ []) :
    ∃ au fu', produceAll pt (mid.map (fragmentPacket pt nal false false) ++
        [fragmentPacket pt nal false true last]) fu =
      ([⟨fu.buf ++ carriedBy (mid ++ [last]), fu.ts, au⟩], fu') := by
  induction mid generalizing fu with
  | nil =>
      obtain ⟨fu', hbuf, hts, hp⟩ := produce_fragmentPacket pt nal false true last (Or.inr hfu)
      refine ⟨fu'.auEnd, ⟨[], fu'.ts, false⟩, ?_⟩
      simp only [List.map_nil, List.nil_append, produceAll, hp, hbuf, hts, carriedBy, List.flatMap_cons,
        List.flatMap_nil, List.append_nil]
      rfl
  | cons frag mid ih =>
      obtain ⟨fu', hbuf, hts, hp⟩ := produce_fragmentPacket pt nal false false frag (Or.inr hfu)
      simp only [Bool.false_eq_true, if_false] at hbuf hts hp
      have hbusy : fu'.buf ≠ [] := by
        rw [hbuf]
        simp [hfu]
      obtain ⟨au, fu'', h⟩ := ih hbusy
      refine ⟨au, fu'', ?_⟩
      rw [List.map_cons, List.cons_append, produceAll, hp]
      simp only [h, hbuf, hts, List.nil_append, carriedBy, List.cons_append, List.flatMap_cons,
        List.append_assoc]

theorem produceAll_fuA (pt : Fin 128) (nal : NalUnit) (first last : Header × Bytes)
    (mid : List (Header × Bytes)) (fu : FuState) :
    ∃ au fu', produceAll pt (fragmentPacket pt nal true false first ::
        (mid.map (fragmentPacket pt nal false false) ++ [fragmentPacket pt nal false true last])) fu =
      ([⟨nal.header :: carriedBy (first :: (mid ++ [last])), first.1.ts, au⟩], fu') := by
  have hstart : true = true ∨ fu.buf ≠ [] := Or.inl rfl
  obtain ⟨fu₁, hbuf, hts, hp⟩ := produce_fragmentPacket pt nal true false first hstart
  simp only [if_true, Bool.false_eq_true, if_false] at hbuf hts hp
  have hbusy : fu₁.buf ≠ [] := by
    rw [hbuf]
    simp
  obtain ⟨au, fu', h⟩ := produceAll_fragments pt nal mid last hbusy
  refine ⟨au, fu', ?_⟩
  rw [produceAll, hp]
  simp only [h, hbuf, hts, List.nil_append, carriedBy, List.flatMap_cons, List.cons_append]

/-! ## Whole streams -/

/-- The units that come out for a step. -/
def Step.received : Step → List (Bytes × UInt32)
  | .single h nal => [(nal.data ++ h.trailer, h.ts)]
  | .stapA h _ nals _ _ _ =>
      nals.map (fun nal => (nal.data, h.ts)) ++
        (stapNalus h.ts h.marker h.trailer).map fun n => (n.data, n.rtpTs90khz)
  | .fuA nal first last mid _ _ => [(nal.header :: carriedBy (first :: (mid ++ [last])), first.1.ts)]

theorem produceAll_step (pt : Fin 128) (step : Step) (fu : FuState) :
    ∃ out fu', produceAll pt (step.packets pt) fu = (out, fu') ∧
      out.map (fun n => (n.data, n.rtpTs90khz)) = step.received := by
  cases step with
  | single h nal =>
      refine ⟨[⟨nal.data ++ h.trailer, h.ts, h.marker⟩], fu, ?_, rfl⟩
      simp only [Step.packets, produceAll, produce_single, List.append_nil]
  | stapA h indicator nals type nonempty fits =>
      refine ⟨stapNalus h.ts h.marker (sized nals ++ h.trailer), fu, ?_, stapNalus_sized _ _ fits _⟩
      simp only [Step.packets, produceAll, produce_stapA h pt nals type, List.append_nil]
  | fuA nal first last mid whole sameTs =>
      obtain ⟨au, fu', h⟩ := produceAll_fuA pt nal first last mid fu
      exact ⟨_, fu', h, rfl⟩

theorem produceAll_stream (pt : Fin 128) (stream : List Step) (fu : FuState) :
    (produceAll pt (stream.flatMap (Step.packets pt)) fu).1.map (fun n => (n.data, n.rtpTs90khz)) =
      stream.flatMap Step.received := by
  induction stream generalizing fu with
  | nil => rfl
  | cons step stream ih =>
      obtain ⟨out, fu', hp, hout⟩ := produceAll_step pt step fu
      rw [List.flatMap_cons, produceAll_append, hp, List.map_append, hout, ih, List.flatMap_cons]

/-- The padding of a step does not get into the units: there is none, or it stands behind the
units of a STAP-A and does not read as a unit that fits. -/
def Step.PaddingHarmless : Step → Prop
  | .single h _ => h.padding = none
  | .stapA h _ _ _ _ _ => ∀ hi lo rest, h.trailer = hi :: lo :: rest →
      (be16 hi lo).toNat = 0 ∨ rest.length < (be16 hi lo).toNat
  | .fuA _ first last mid _ _ => ∀ frag ∈ first :: (mid ++ [last]), frag.1.padding = none

theorem Header.trailer_nil (h : Header) : h.trailer = [] ↔ h.padding = none := by
  unfold Header.trailer
  cases h.padding with
  | none => simp
  | some p => simp [Padding.bytes]

theorem stapNalus_nil_iff (ts : UInt32) (m : Bool) (s : Bytes) :
    stapNalus ts m s = [] ↔ ∀ hi lo rest, s = hi :: lo :: rest →
      (be16 hi lo).toNat = 0 ∨ rest.length < (be16 hi lo).toNat := by
  match s with
  | [] => rw [stapNalus.eq_def]; simp
  | [x] => rw [stapNalus.eq_def]; simp
  | hi :: lo :: rest =>
      rw [stapNalus]
      split_ifs with hstop
      · refine iff_of_true rfl fun hi' lo' rest' h => ?_
        simp only [List.cons.injEq] at h
        obtain ⟨rfl, rfl, rfl⟩ := h
        exact hstop
      · exact iff_of_false not_false fun h => hstop (h hi lo rest rfl)

theorem length_carriedBy (frags : List (Header × Bytes)) :
    (frags.flatMap Prod.snd).length ≤ (carriedBy frags).length ∧
      ((carriedBy frags).length = (frags.flatMap Prod.snd).length →
        ∀ frag ∈ frags, frag.1.trailer = []) := by
  induction frags with
  | nil => simp [carriedBy]
  | cons frag frags ih =>
      simp only [carriedBy, List.flatMap_cons, List.length_append, List.forall_mem_cons] at ih ⊢
      refine ⟨by omega, fun h => ⟨List.length_eq_zero_iff.mp (by omega), ih.2 (by omega)⟩⟩

theorem carriedBy_iff (frags : List (Header × Bytes)) :
    carriedBy frags = frags.flatMap Prod.snd ↔ ∀ frag ∈ frags, frag.1.padding = none := by
  simp only [← Header.trailer_nil]
  constructor
  · exact fun h => (length_carriedBy frags).2 (congrArg List.length h)
  · intro h
    rw [carriedBy]
    refine congrArg List.flatten (List.map_congr_left fun frag hf => ?_)
    rw [h frag hf, List.append_nil]

theorem Step.received_iff (step : Step) : step.received = step.units ↔ step.PaddingHarmless := by
  cases step with
  | single h nal => simp [Step.received, Step.units, Step.PaddingHarmless, Header.trailer_nil]
  | stapA h indicator nals type nonempty fits =>
      rw [Step.received, Step.units, Step.PaddingHarmless, ← stapNalus_nil_iff h.ts h.marker]
      simp
  | fuA nal first last mid whole sameTs =>
      rw [Step.PaddingHarmless, ← carriedBy_iff]
      simp [Step.received, Step.units, NalUnit.data, whole]

/-- No unit of a step is missing. -/
theorem Step.length_units_le (step : Step) : step.units.length ≤ step.received.length := by
  cases step <;> simp [Step.received, Step.units]

/-- Lists of parts, each at least as long as the one expected, agree only part by part. -/
theorem flatMap_eq_iff {α β : Type} {f g : α → List β} {l : List α}
    (h : ∀ a ∈ l, (g a).length ≤ (f a).length) :
    l.flatMap f = l.flatMap g ↔ ∀ a ∈ l, f a = g a := by
  induction l with
  | nil => simp
  | cons a l ih =>
      obtain ⟨ha, hl⟩ := List.forall_mem_cons.mp h
      rw [List.forall_mem_cons, ← ih hl, List.flatMap_cons, List.flatMap_cons]
      constructor
      · intro heq
        have hle : (l.flatMap g).length ≤ (l.flatMap f).length := by
          clear ih heq h
          induction l with
          | nil => simp
          | cons b l ih =>
              obtain ⟨hb, hl⟩ := List.forall_mem_cons.mp hl
              have := ih hl
              simp only [List.flatMap_cons, List.length_append]
              omega
        have hlen := congrArg List.length heq
        rw [List.length_append, List.length_append] at hlen
        exact List.append_inj heq (by omega)
      · rintro ⟨ha, hl⟩
        rw [ha, hl]

/-- Whatever was received before, the packets of a sender give back its units, in order and with
their timestamps, exactly when no padding gets into them. -/
theorem decode_rtp_h264_round_trip_iff (pt : Fin 128) (d : Demux) (stream : List Step) :
    (∃ out fu, decodeAll pt (stream.flatMap (Step.packets pt)) d = .ok ⟨d.naluQueue ++ out, fu⟩ ∧
        out.map (fun n => (n.data, n.rtpTs90khz)) = stream.flatMap Step.units) ↔
      ∀ step ∈ stream, step.PaddingHarmless := by
  have hreceived := produceAll_stream pt stream d.fu
  have hrun := decodeAll_ok pt (stream.flatMap (Step.packets pt)) d
  have hiff : stream.flatMap Step.received = stream.flatMap Step.units ↔
      ∀ step ∈ stream, step.PaddingHarmless := by
    rw [flatMap_eq_iff fun step _ => step.length_units_le]
    exact forall₂_congr fun step _ => step.received_iff
  rw [← hiff, ← hreceived]
  constructor
  · rintro ⟨out, fu, hout, hunits⟩
    have hq := congrArg Demux.naluQueue (Except.ok.inj (hrun.symm.trans hout))
    rw [List.append_cancel_left hq]
    exact hunits
  · intro h
    exact ⟨_, _, hrun, h⟩

/-- A sender that pads a single unit with one byte. -/
def paddedSingle : Step :=
  .single
    { csrc := []
      extension := none
      marker := true
      seq := 1
      ts := 90000
      ssrc := 7
      padding := some ⟨[], by decide⟩
      csrcFits := by decide }
    { header := 0x65
      body := [0x88, 0x84]
      type := by decide }

/-- The padding byte becomes a part of the unit. -/
theorem decode_rtp_h264_keeps_padding :
    ¬ ∃ out fu, decodeAll (96 : Fin 128) ([paddedSingle].flatMap (Step.packets 96)) ⟨[], ⟨[], 0, false⟩⟩ =
        .ok ⟨[] ++ out, fu⟩ ∧
      out.map (fun n => (n.data, n.rtpTs90khz)) = [paddedSingle].flatMap Step.units := by
  rintro ⟨out, fu, hout, hunits⟩
  have hrun := decodeAll_ok ((96 : Fin 128) : Int) ([paddedSingle].flatMap (Step.packets 96))
    ⟨[], ⟨[], 0, false⟩⟩
  have hq := congrArg Demux.naluQueue (Except.ok.inj (hrun.symm.trans hout))
  rw [← List.append_cancel_left hq, produceAll_stream] at hunits
  exact absurd hunits (by decide)

end OpenBambu.Rtsp
