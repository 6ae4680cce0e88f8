import OpenBambu.Foundation.Bytes
import Mathlib.Data.List.Infix
import Mathlib.Tactic.SplitIfs

/-!
# RTP packets of an H.264 track

`decode_rtp_h264` of `stubs/rtsp_client.cpp`. It reads the fixed header, skips the CSRC
list and the header extension, and queues what the payload carries: a single NAL unit, the
units of a STAP-A, or a unit that a sequence of FU-A fragments completes. Every read of the
packet is checked against its length. `produce` says what one packet adds and does to the
fragment in progress, without the checks.
-/

namespace OpenBambu.Rtsp

open OpenBambu.Foundation

structure Nalu where
  data : Bytes
  rtpTs90khz : UInt32
  auEnd : Bool
  deriving DecidableEq, Repr

/-- `fu_buf`, `fu_ts` and `fu_au_end`. -/
structure FuState where
  buf : Bytes
  ts : UInt32
  auEnd : Bool
  deriving DecidableEq, Repr

structure Demux where
  naluQueue : List Nalu
  fu : FuState
  deriving DecidableEq, Repr

def be16 (hi lo : Byte) : UInt16 := (hi.toUInt16 <<< 8) ||| lo.toUInt16

def be32 (b0 b1 b2 b3 : Byte) : UInt32 :=
  (b0.toUInt32 <<< 24) ||| (b1.toUInt32 <<< 16) ||| (b2.toUInt32 <<< 8) ||| b3.toUInt32

/-- The offset behind the CSRC list and the extension, or `none` where the extension header
is cut off. -/
def payloadOffset (rtp : Bytes) (b0 : Byte) : Except Halt (Option Nat) :=
  let off := 12 + 4 * (b0 &&& 0x0f).toNat
  if b0 &&& 0x10 ≠ 0 then
    if rtp.length < off + 4 then .ok none
    else do
      let hi ← byteAt rtp (off + 2)
      let lo ← byteAt rtp (off + 3)
      return some (off + 4 + (be16 hi lo).toNat * 4)
  else .ok (some off)

/-- The loop over the units of a STAP-A; each turn moves on by at least two bytes. -/
def stapLoop (p : Bytes) (ts : UInt32) (m : Bool) : Nat → Nat → List Nalu → Except Halt (List Nalu)
  | 0, _, _ => .error .hang
  | fuel + 1, i, queue =>
      if i + 2 ≤ p.length then do
        let hi ← byteAt p i
        let lo ← byteAt p (i + 1)
        let subSize := (be16 hi lo).toNat
        if subSize = 0 ∨ i + 2 + subSize > p.length then return queue
        else do
          let data ← slice p (i + 2) subSize
          stapLoop p ts m fuel (i + 2 + subSize)
            (queue ++ [⟨data, ts, m && i + 2 + subSize = p.length⟩])
      else .ok queue

def nalType (b : Byte) : Nat := (b &&& 0x1f).toNat

/-- The header byte of a fragmented unit. -/
def rebuiltHeader (fuInd fuHdr : Byte) : Byte := (fuInd &&& 0xe0) ||| (fuHdr &&& 0x1f)

/-- A fragment with its two header bytes; one without a start is dropped unless a unit is in
progress. -/
def decodeFuA (p : Bytes) (ts : UInt32) (m : Bool) (d : Demux) : Except Halt Demux :=
  if p.length < 2 then .ok d
  else do
    let fuInd ← byteAt p 0
    let fuHdr ← byteAt p 1
    let body ← slice p 2 (p.length - 2)
    let fu :=
      if fuHdr &&& 0x80 ≠ 0 then some ⟨rebuiltHeader fuInd fuHdr :: body, ts, m⟩
      else if d.fu.buf ≠ [] then some ⟨d.fu.buf ++ body, d.fu.ts, d.fu.auEnd || m⟩
      else none
    match fu with
    | none => return d
    | some fu =>
        if fuHdr &&& 0x40 ≠ 0 then
          return ⟨d.naluQueue ++ [⟨fu.buf, fu.ts, fu.auEnd⟩], ⟨[], fu.ts, false⟩⟩
        else return { d with fu := fu }

def decodeRtpH264 (rtpPt : Int) (rtp : Bytes) (d : Demux) : Except Halt Demux :=
  if rtp.length < 12 then .ok d
  else do
    let b0 ← byteAt rtp 0
    let b1 ← byteAt rtp 1
    if b0 >>> 6 ≠ 2 then return d
    else if ((b1 &&& 0x7f).toNat : Int) ≠ rtpPt then return d
    else do
      let t0 ← byteAt rtp 4
      let t1 ← byteAt rtp 5
      let t2 ← byteAt rtp 6
      let t3 ← byteAt rtp 7
      let m : Bool := b1 &&& 0x80 ≠ 0
      let ts := be32 t0 t1 t2 t3
      match ← payloadOffset rtp b0 with
      | none => return d
      | some off =>
          if rtp.length ≤ off then return d
          else do
            let p := rtp.drop off
            let nal0 ← byteAt p 0
            if 1 ≤ nalType nal0 ∧ nalType nal0 ≤ 23 then
              return { d with naluQueue := d.naluQueue ++ [⟨p, ts, m⟩] }
            else if nalType nal0 = 24 then
              return { d with naluQueue := ← stapLoop p ts m (p.length + 1) 1 d.naluQueue }
            else if nalType nal0 = 28 then decodeFuA p ts m d
            else return d

/-- The packets one by one. -/
def decodeAll (rtpPt : Int) : List Bytes → Demux → Except Halt Demux
  | [], d => .ok d
  | rtp :: rest, d =>
      match decodeRtpH264 rtpPt rtp d with
      | .error h => .error h
      | .ok d => decodeAll rtpPt rest d

/-! ## What a packet does -/

/-- Marker, timestamp and payload of a packet. -/
structure Payload where
  marker : Bool
  ts : UInt32
  bytes : Bytes

/-- The offset of the payload of a well-formed packet. -/
def offsetOf (rtp : Bytes) : Option Nat :=
  match payloadOffset rtp (rtp.getD 0 0) with
  | .ok off => off
  | .error _ => none

/-- The payload of a packet of the payload type, if it has one. -/
def payloadOf (rtpPt : Int) (rtp : Bytes) : Option Payload :=
  if rtp.length < 12 ∨ rtp.getD 0 0 >>> 6 ≠ 2 ∨ ((rtp.getD 1 0 &&& 0x7f).toNat : Int) ≠ rtpPt then none
  else
    (offsetOf rtp).bind fun off =>
      if rtp.length ≤ off then none
      else
        some
          { marker := rtp.getD 1 0 &&& 0x80 ≠ 0
            ts := be32 (rtp.getD 4 0) (rtp.getD 5 0) (rtp.getD 6 0) (rtp.getD 7 0)
            bytes := rtp.drop off }

/-- The units of a STAP-A behind its header byte. -/
def stapNalus (ts : UInt32) (m : Bool) (s : Bytes) : List Nalu :=
  match s with
  | hi :: lo :: rest =>
      if (be16 hi lo).toNat = 0 ∨ rest.length < (be16 hi lo).toNat then []
      else
        ⟨rest.take (be16 hi lo).toNat, ts, m && rest.length = (be16 hi lo).toNat⟩ ::
          stapNalus ts m (rest.drop (be16 hi lo).toNat)
  | _ => []
termination_by s.length
decreasing_by simp only [List.length_drop, List.length_cons]; omega

/-- What a fragment makes of the unit in progress. -/
def fuProduce (fu : FuState) (ts : UInt32) (m : Bool) : Bytes → List Nalu × FuState
  | fuInd :: fuHdr :: body =>
      if fuHdr &&& 0x80 ≠ 0 then
        if fuHdr &&& 0x40 ≠ 0 then ([⟨rebuiltHeader fuInd fuHdr :: body, ts, m⟩], ⟨[], ts, false⟩)
        else ([], ⟨rebuiltHeader fuInd fuHdr :: body, ts, m⟩)
      else if fu.buf = [] then ([], fu)
      else if fuHdr &&& 0x40 ≠ 0 then
        ([⟨fu.buf ++ body, fu.ts, fu.auEnd || m⟩], ⟨[], fu.ts, false⟩)
      else ([], ⟨fu.buf ++ body, fu.ts, fu.auEnd || m⟩)
  | _ => ([], fu)

/-- What a payload adds to the queue, and the unit in progress behind it. -/
def producePayload (p : Payload) (fu : FuState) : List Nalu × FuState :=
  match p.bytes with
  | [] => ([], fu)
  | nal0 :: rest =>
      if 1 ≤ nalType nal0 ∧ nalType nal0 ≤ 23 then ([⟨p.bytes, p.ts, p.marker⟩], fu)
      else if nalType nal0 = 24 then (stapNalus p.ts p.marker rest, fu)
      else if nalType nal0 = 28 then fuProduce fu p.ts p.marker p.bytes
      else ([], fu)

def produce (rtpPt : Int) (rtp : Bytes) (fu : FuState) : List Nalu × FuState :=
  match payloadOf rtpPt rtp with
  | none => ([], fu)
  | some p => producePayload p fu

def produceAll (rtpPt : Int) : List Bytes → FuState → List Nalu × FuState
  | [], fu => ([], fu)
  | rtp :: rest, fu =>
      let one := produce rtpPt rtp fu
      (one.1 ++ (produceAll rtpPt rest one.2).1, (produceAll rtpPt rest one.2).2)

/-! ## No read leaves the packet -/

theorem byteAt_getD {buf : Bytes} {i : Nat} (h : i < buf.length) : byteAt buf i = .ok (buf.getD i 0) := by
  rw [byteAt_ok h, List.getD_eq_getElem?_getD, List.getElem?_eq_getElem h, Option.getD_some]

theorem payloadOffset_ok (rtp : Bytes) : payloadOffset rtp (rtp.getD 0 0) = .ok (offsetOf rtp) := by
  have h : ∃ off, payloadOffset rtp (rtp.getD 0 0) = .ok off := by
    unfold payloadOffset
    simp only
    split_ifs with hx hl
    · exact ⟨_, rfl⟩
    · rw [byteAt_getD (by omega), byteAt_getD (by omega)]
      exact ⟨_, rfl⟩
    · exact ⟨_, rfl⟩
  obtain ⟨off, hoff⟩ := h
  rw [offsetOf, hoff]

theorem stapLoop_ok (p : Bytes) (ts : UInt32) (m : Bool) (fuel i : Nat) (queue : List Nalu)
    (hfuel : p.length < fuel + i) (hi : i ≤ p.length) :
    stapLoop p ts m fuel i queue = .ok (queue ++ stapNalus ts m (p.drop i)) := by
  induction fuel generalizing i queue with
  | zero => omega
  | succ fuel ih =>
      rw [stapLoop]
      split_ifs with h2
      · obtain ⟨hi0, lo, rest, hd⟩ : ∃ hi lo rest, p.drop i = hi :: lo :: rest := by
          match hp : p.drop i with
          | hi :: lo :: rest => exact ⟨hi, lo, rest, rfl⟩
          | [x] => have := congrArg List.length hp; simp at this; omega
          | [] => have := congrArg List.length hp; simp at this; omega
        have hd1 : p.drop (i + 1) = lo :: rest := by rw [← List.drop_drop, hd]; rfl
        have hd2 : p.drop (i + 2) = rest := by rw [← List.drop_drop, hd]; rfl
        have hlen : rest.length = p.length - (i + 2) := by rw [← hd2, List.length_drop]
        simp only [byteAt_drop hd, byteAt_drop hd1, bind, Except.bind]
        rw [hd, stapNalus]
        generalize (be16 hi0 lo).toNat = k
        split_ifs with hstop hstop' hstop'
        · simp [pure, Except.pure]
        · omega
        · omega
        · have hd3 : p.drop (i + 2 + k) = rest.drop k := by rw [← List.drop_drop, hd2]
          have hm : (m && decide (i + 2 + k = p.length)) = (m && decide (rest.length = k)) := by
            congr 1
            rw [decide_eq_decide]
            omega
          rw [slice_ok (by omega)]
          simp only
          rw [ih _ _ (by omega) (by omega), hd3, hd2, hm, List.append_assoc, List.singleton_append]
      · have hshort : (p.drop i).length < 2 := by rw [List.length_drop]; omega
        have hnil : stapNalus ts m (p.drop i) = [] := by
          match hp : p.drop i with
          | [] => rw [stapNalus.eq_def]
          | [x] => rw [stapNalus.eq_def]
          | hi :: lo :: rest =>
              rw [hp, List.length_cons, List.length_cons] at hshort
              omega
        rw [hnil, List.append_nil]

theorem decodeFuA_ok (p : Bytes) (ts : UInt32) (m : Bool) (d : Demux) :
    decodeFuA p ts m d =
      .ok ⟨d.naluQueue ++ (fuProduce d.fu ts m p).1, (fuProduce d.fu ts m p).2⟩ := by
  unfold decodeFuA
  match p with
  | [] => simp [fuProduce]
  | [x] => simp [fuProduce]
  | fuInd :: fuHdr :: body =>
      have hbody : slice (fuInd :: fuHdr :: body) 2 ((fuInd :: fuHdr :: body).length - 2) = .ok body := by
        rw [slice_ok (by simp only [List.length_cons]; omega)]
        simp
      have h0 : byteAt (fuInd :: fuHdr :: body) 0 = .ok fuInd := rfl
      have h1 : byteAt (fuInd :: fuHdr :: body) 1 = .ok fuHdr := rfl
      rw [if_neg (by simp), h0, h1, hbody]
      simp only [bind, Except.bind, fuProduce]
      split_ifs <;> simp_all [pure, Except.pure]

/-- No packet and no state makes the call read outside the packet or go on for ever. -/
theorem decodeRtpH264_ok (rtpPt : Int) (rtp : Bytes) (d : Demux) :
    decodeRtpH264 rtpPt rtp d =
      .ok ⟨d.naluQueue ++ (produce rtpPt rtp d.fu).1, (produce rtpPt rtp d.fu).2⟩ := by
  have hsame : (Except.ok d : Except Halt Demux) = .ok ⟨d.naluQueue ++ [], d.fu⟩ := by
    rw [List.append_nil]
  unfold decodeRtpH264 produce payloadOf
  by_cases h12 : rtp.length < 12
  · rw [if_pos h12, if_pos (Or.inl h12)]
    exact hsame
  rw [if_neg h12, byteAt_getD (by omega), byteAt_getD (by omega)]
  simp only [bind, Except.bind]
  by_cases hv : rtp.getD 0 0 >>> 6 ≠ 2
  · rw [if_pos hv, if_pos (Or.inr (Or.inl hv))]
    exact hsame
  by_cases hpt : ((rtp.getD 1 0 &&& 0x7f).toNat : Int) ≠ rtpPt
  · rw [if_neg hv, if_pos hpt, if_pos (Or.inr (Or.inr hpt))]
    exact hsame
  rw [if_neg hv, if_neg hpt, if_neg (by tauto), byteAt_getD (by omega), byteAt_getD (by omega),
    byteAt_getD (by omega), byteAt_getD (by omega), payloadOffset_ok]
  simp only
  cases offsetOf rtp with
  | none => exact hsame
  | some off =>
      simp only [Option.bind_some]
      split_ifs with hoff
      · exact hsame
      · obtain ⟨nal0, rest, hp⟩ : ∃ nal0 rest, rtp.drop off = nal0 :: rest := by
          cases hp : rtp.drop off with
          | nil =>
              rw [List.drop_eq_nil_iff] at hp
              omega
          | cons nal0 rest => exact ⟨nal0, rest, rfl⟩
        have h0 : byteAt (nal0 :: rest) 0 = .ok nal0 := rfl
        simp only [hp, h0, producePayload]
        split_ifs
        · rfl
        · rw [stapLoop_ok _ _ _ _ _ _ (by omega) (by rw [List.length_cons]; omega)]
          rfl
        · rw [decodeFuA_ok]
        · exact hsame

theorem decodeAll_ok (rtpPt : Int) (pkts : List Bytes) (d : Demux) :
    decodeAll rtpPt pkts d =
      .ok ⟨d.naluQueue ++ (produceAll rtpPt pkts d.fu).1, (produceAll rtpPt pkts d.fu).2⟩ := by
  induction pkts generalizing d with
  | nil => rw [decodeAll, produceAll, List.append_nil]
  | cons rtp rest ih =>
      rw [decodeAll, decodeRtpH264_ok]
      simp only
      rw [ih]
      simp only [produceAll, List.append_assoc]

/-! ## Where the bytes come from -/

/-- A packet of the payload type. -/
def OfType (rtpPt : Int) (rtp : Bytes) : Prop := ((rtp.getD 1 0 &&& 0x7f).toNat : Int) = rtpPt

/-- Bytes that stand in a packet of the payload type. -/
def Carried (rtpPt : Int) (rtp bs : Bytes) : Prop := OfType rtpPt rtp ∧ bs <:+: rtp

/-- A header byte made from two bytes that stand in a packet of the payload type. -/
def Rebuilt (rtpPt : Int) (rtp : Bytes) (b : Byte) : Prop :=
  ∃ fuInd fuHdr, Carried rtpPt rtp [fuInd, fuHdr] ∧ b = rebuiltHeader fuInd fuHdr

/-- The pieces of a list of fragments, each with the packet it stands in. -/
structure Pieces (rtpPt : Int) (pkts : List Bytes) (srcs : List (Bytes × Bytes)) : Prop where
  inOrder : (srcs.map Prod.fst).Sublist pkts
  carried : ∀ s ∈ srcs, Carried rtpPt s.1 s.2

/-- How packets make up a unit: one carries it, or it is a rebuilt header with pieces of packets in
order, or such pieces continue what was in progress before. -/
inductive Source (rtpPt : Int) (prior : Bytes) (pkts : List Bytes) : Bytes → Prop
  | whole {rtp data : Bytes} (mem : rtp ∈ pkts) (carried : Carried rtpPt rtp data) :
      Source rtpPt prior pkts data
  | fragments {b : Byte} {first : Bytes × Bytes} {more : List (Bytes × Bytes)}
      (pieces : Pieces rtpPt pkts (first :: more)) (rebuilt : Rebuilt rtpPt first.1 b) :
      Source rtpPt prior pkts (b :: ((first :: more).map Prod.snd).flatten)
  | resumed {srcs : List (Bytes × Bytes)} (pieces : Pieces rtpPt pkts srcs) (inProgress : prior ≠ []) :
      Source rtpPt prior pkts (prior ++ (srcs.map Prod.snd).flatten)

theorem payloadOf_some {rtpPt : Int} {rtp : Bytes} {p : Payload} (h : payloadOf rtpPt rtp = some p) :
    OfType rtpPt rtp ∧ p.bytes <:+ rtp := by
  unfold payloadOf at h
  split_ifs at h with hbad
  cases hoff : offsetOf rtp with
  | none => rw [hoff] at h; exact absurd h (by simp)
  | some off =>
      rw [hoff] at h
      simp only [Option.bind_some] at h
      split_ifs at h
      obtain rfl := Option.some.inj h
      refine ⟨?_, List.drop_suffix _ _⟩
      by_contra hpt
      exact hbad (Or.inr (Or.inr hpt))

theorem stapNalus_infix {ts : UInt32} {m : Bool} {s : Bytes} {nalu : Nalu}
    (h : nalu ∈ stapNalus ts m s) : nalu.data ≠ [] ∧ nalu.data <:+: s := by
  match s with
  | [] => rw [stapNalus.eq_def] at h; exact absurd h (by simp)
  | [x] => rw [stapNalus.eq_def] at h; exact absurd h (by simp)
  | hi :: lo :: rest =>
      rw [stapNalus] at h
      split_ifs at h with hstop
      · exact absurd h (by simp)
      · have hrest : rest <:+ hi :: lo :: rest := ⟨[hi, lo], rfl⟩
        rcases List.mem_cons.mp h with rfl | h
        · refine ⟨fun hnil => ?_, (List.take_prefix _ _).isInfix.trans hrest.isInfix⟩
          have hlen := congrArg List.length hnil
          simp only [List.length_take, List.length_nil] at hlen
          omega
        · obtain ⟨hne, hinf⟩ := stapNalus_infix h
          exact ⟨hne, hinf.trans ((List.drop_suffix _ _).trans hrest).isInfix⟩
termination_by s.length
decreasing_by simp only [List.length_drop, List.length_cons]; omega

/-- What a fragment does, by its header. -/
theorem fuProduce_cases (fu : FuState) (ts : UInt32) (m : Bool) (fuInd fuHdr : Byte) (body : Bytes) :
    (∃ fu', (fu' = ⟨rebuiltHeader fuInd fuHdr :: body, ts, m⟩ ∨
          (fu.buf ≠ [] ∧ fu' = ⟨fu.buf ++ body, fu.ts, fu.auEnd || m⟩)) ∧
        (fuProduce fu ts m (fuInd :: fuHdr :: body) = ([⟨fu'.buf, fu'.ts, fu'.auEnd⟩], ⟨[], fu'.ts, false⟩) ∨
          fuProduce fu ts m (fuInd :: fuHdr :: body) = ([], fu'))) ∨
      (fu.buf = [] ∧ fuProduce fu ts m (fuInd :: fuHdr :: body) = ([], fu)) := by
  rw [fuProduce]
  split_ifs with hs he hb he
  · exact Or.inl ⟨_, Or.inl rfl, Or.inl rfl⟩
  · exact Or.inl ⟨_, Or.inl rfl, Or.inr rfl⟩
  · exact Or.inr ⟨hb, rfl⟩
  · exact Or.inl ⟨_, Or.inr ⟨hb, rfl⟩, Or.inl rfl⟩
  · exact Or.inl ⟨_, Or.inr ⟨hb, rfl⟩, Or.inr rfl⟩

/-- A unit that one packet completes or starts. -/
inductive Extends (rtpPt : Int) (rtp prior : Bytes) : Bytes → Prop
  | started {b : Byte} {body : Bytes} (rebuilt : Rebuilt rtpPt rtp b) (carried : Carried rtpPt rtp body) :
      Extends rtpPt rtp prior (b :: body)
  | continued {body : Bytes} (inProgress : prior ≠ []) (carried : Carried rtpPt rtp body) :
      Extends rtpPt rtp prior (prior ++ body)

theorem Extends.ne_nil {rtpPt : Int} {rtp prior data : Bytes} (h : Extends rtpPt rtp prior data) :
    data ≠ [] := by
  cases h with
  | started => exact List.cons_ne_nil _ _
  | continued inProgress => exact fun h => inProgress (List.append_eq_nil_iff.mp h).1

/-- What one packet adds, and what it leaves in progress. -/
theorem produce_cases (rtpPt : Int) (rtp : Bytes) (fu : FuState) :
    (∀ nalu ∈ (produce rtpPt rtp fu).1, nalu.data ≠ [] ∧
      (Carried rtpPt rtp nalu.data ∨ Extends rtpPt rtp fu.buf nalu.data)) ∧
      ((produce rtpPt rtp fu).2 = fu ∨ (produce rtpPt rtp fu).2.buf = [] ∨
        Extends rtpPt rtp fu.buf (produce rtpPt rtp fu).2.buf) := by
  unfold produce
  cases hp : payloadOf rtpPt rtp with
  | none => simp
  | some p =>
      obtain ⟨htype, hsuf⟩ := payloadOf_some hp
      have hcarried : ∀ {bs : Bytes}, bs <:+: p.bytes → Carried rtpPt rtp bs := fun h =>
        ⟨htype, h.trans hsuf.isInfix⟩
      obtain ⟨marker, ts, bytes⟩ := p
      simp only at hcarried
      unfold producePayload
      match bytes with
      | [] => simp
      | nal0 :: rest =>
          simp only
          split_ifs with h1 h24 h28
          · refine ⟨fun nalu hn => ?_, Or.inl rfl⟩
            obtain rfl := List.mem_singleton.mp hn
            exact ⟨List.cons_ne_nil _ _, Or.inl (hcarried List.infix_rfl)⟩
          · refine ⟨fun nalu hn => ?_, Or.inl rfl⟩
            obtain ⟨hne, hinf⟩ := stapNalus_infix hn
            exact ⟨hne, Or.inl (hcarried (hinf.trans (List.suffix_cons _ _).isInfix))⟩
          · match rest with
            | [] => simp [fuProduce]
            | fuHdr :: body =>
                have hbody : Carried rtpPt rtp body := hcarried ⟨[nal0, fuHdr], [], by simp⟩
                have hhdr : Rebuilt rtpPt rtp (rebuiltHeader nal0 fuHdr) :=
                  ⟨nal0, fuHdr, hcarried ⟨[], body, rfl⟩, rfl⟩
                rcases fuProduce_cases fu ts marker nal0 fuHdr body with
                  ⟨fu', hfu', hout⟩ | ⟨_, hout⟩
                · have hext : Extends rtpPt rtp fu.buf fu'.buf := by
                    rcases hfu' with rfl | ⟨hb, rfl⟩
                    · exact .started hhdr hbody
                    · exact .continued hb hbody
                  rcases hout with hout | hout <;> rw [hout]
                  · refine ⟨fun nalu hn => ?_, Or.inr (Or.inl rfl)⟩
                    obtain rfl := List.mem_singleton.mp hn
                    exact ⟨hext.ne_nil, Or.inr hext⟩
                  · exact ⟨by simp, Or.inr (Or.inr hext)⟩
                · rw [hout]
                  exact ⟨by simp, Or.inl rfl⟩
          · simp

theorem Pieces.later {rtpPt : Int} {pkts : List Bytes} {srcs : List (Bytes × Bytes)}
    (h : Pieces rtpPt pkts srcs) (rtp : Bytes) : Pieces rtpPt (rtp :: pkts) srcs :=
  ⟨h.inOrder.cons rtp, h.carried⟩

theorem Pieces.cons {rtpPt : Int} {pkts : List Bytes} {srcs : List (Bytes × Bytes)}
    (h : Pieces rtpPt pkts srcs) {rtp piece : Bytes} (hp : Carried rtpPt rtp piece) :
    Pieces rtpPt (rtp :: pkts) ((rtp, piece) :: srcs) :=
  ⟨h.inOrder.cons_cons rtp, List.forall_mem_cons.mpr ⟨hp, h.carried⟩⟩

/-- A unit in progress that a packet extends and later packets complete. -/
theorem Extends.source {rtpPt : Int} {rtp prior buf : Bytes} {pkts : List Bytes}
    {srcs : List (Bytes × Bytes)} (h : Extends rtpPt rtp prior buf) (hs : Pieces rtpPt pkts srcs) :
    Source rtpPt prior (rtp :: pkts) (buf ++ (srcs.map Prod.snd).flatten) := by
  cases h with
  | started rebuilt carried => exact .fragments (hs.cons carried) rebuilt
  | continued inProgress carried =>
      rw [List.append_assoc]
      exact .resumed (hs.cons carried) inProgress

theorem produceAll_source {rtpPt : Int} {pkts : List Bytes} {fu : FuState} {nalu : Nalu}
    (h : nalu ∈ (produceAll rtpPt pkts fu).1) :
    nalu.data ≠ [] ∧ Source rtpPt fu.buf pkts nalu.data := by
  have hnone : ∀ pkts : List Bytes, Pieces rtpPt pkts [] := fun pkts => ⟨List.nil_sublist _, by simp⟩
  induction pkts generalizing fu with
  | nil => exact absurd h (by simp [produceAll])
  | cons rtp rest ih =>
      obtain ⟨hone, hnext⟩ := produce_cases rtpPt rtp fu
      rcases List.mem_append.mp h with h | h
      · obtain ⟨hne, hsrc⟩ := hone nalu h
        refine ⟨hne, ?_⟩
        rcases hsrc with hc | he
        · exact .whole List.mem_cons_self hc
        · simpa using he.source (hnone rest)
      · obtain ⟨hne, hsrc⟩ := ih h
        refine ⟨hne, ?_⟩
        generalize nalu.data = data at hsrc
        cases hsrc with
        | whole mem carried => exact .whole (List.mem_cons_of_mem _ mem) carried
        | fragments pieces rebuilt => exact .fragments (pieces.later rtp) rebuilt
        | resumed pieces inProgress =>
            rcases hnext with hsame | hnil | hext
            · rw [hsame] at inProgress ⊢
              exact .resumed (pieces.later rtp) inProgress
            · exact absurd hnil inProgress
            · exact hext.source pieces

/-! ## What later packets make of it -/

/-- A FU-A packet that has its FU header. No other packet touches the unit in progress. -/
def Fragment (rtpPt : Int) (rtp : Bytes) : Prop :=
  ∃ marker ts fuInd fuHdr body, payloadOf rtpPt rtp = some ⟨marker, ts, fuInd :: fuHdr :: body⟩ ∧
    nalType fuInd = 28

theorem produce_not_fragment {rtpPt : Int} {rtp : Bytes} (h : ¬ Fragment rtpPt rtp) :
    ∃ own, ∀ fu, produce rtpPt rtp fu = (own, fu) := by
  unfold produce
  cases hp : payloadOf rtpPt rtp with
  | none => exact ⟨[], fun _ => rfl⟩
  | some p =>
      obtain ⟨marker, ts, bytes⟩ := p
      unfold producePayload
      match bytes with
      | [] => exact ⟨[], fun _ => rfl⟩
      | nal0 :: rest =>
          simp only
          split_ifs with h1 h24 h28
          · exact ⟨_, fun _ => rfl⟩
          · exact ⟨_, fun _ => rfl⟩
          · match rest with
            | [] => exact ⟨[], fun _ => rfl⟩
            | fuHdr :: body => exact absurd ⟨marker, ts, nal0, fuHdr, body, hp, h28⟩ h
          · exact ⟨[], fun _ => rfl⟩

/-- A fragment brings two states together, or leaves both in progress, or ends both units. -/
theorem produce_fragment {rtpPt : Int} {rtp : Bytes} (h : Fragment rtpPt rtp) (fu₁ fu₂ : FuState) :
    produce rtpPt rtp fu₁ = produce rtpPt rtp fu₂ ∨
      ((produce rtpPt rtp fu₁).1 = [] ∧ (produce rtpPt rtp fu₂).1 = []) ∨
      ((produce rtpPt rtp fu₁).1.length ≤ 1 ∧ (produce rtpPt rtp fu₂).1.length ≤ 1 ∧
        (produce rtpPt rtp fu₁).2.buf = [] ∧ (produce rtpPt rtp fu₂).2.buf = []) := by
  obtain ⟨marker, ts, fuInd, fuHdr, body, hp, h28⟩ := h
  have hfu : ∀ fu, produce rtpPt rtp fu = fuProduce fu ts marker (fuInd :: fuHdr :: body) := by
    intro fu
    unfold produce producePayload
    simp [hp, h28]
  rw [hfu, hfu, fuProduce, fuProduce]
  by_cases hs : fuHdr &&& 0x80 ≠ 0
  · rw [if_pos hs, if_pos hs]
    exact Or.inl rfl
  rw [if_neg hs, if_neg hs]
  by_cases he : fuHdr &&& 0x40 ≠ 0
  · refine Or.inr (Or.inr ?_)
    simp only [if_pos he]
    split_ifs <;> simp_all
  · refine Or.inr (Or.inl ?_)
    simp only [if_neg he]
    split_ifs <;> simp

/-- Without a unit in progress the rest of the state does not show. -/
theorem produce_idle (rtpPt : Int) (rtp : Bytes) {fu₁ fu₂ : FuState} (h₁ : fu₁.buf = [])
    (h₂ : fu₂.buf = []) :
    (produce rtpPt rtp fu₁).1 = (produce rtpPt rtp fu₂).1 ∧
      ((produce rtpPt rtp fu₁).2 = (produce rtpPt rtp fu₂).2 ∨
        ((produce rtpPt rtp fu₁).2.buf = [] ∧ (produce rtpPt rtp fu₂).2.buf = [])) := by
  by_cases hf : Fragment rtpPt rtp
  · obtain ⟨marker, ts, fuInd, fuHdr, body, hp, h28⟩ := hf
    have hfu : ∀ fu, produce rtpPt rtp fu = fuProduce fu ts marker (fuInd :: fuHdr :: body) := by
      intro fu
      unfold produce producePayload
      simp [hp, h28]
    rw [hfu, hfu, fuProduce, fuProduce, if_pos h₁, if_pos h₂]
    split_ifs <;> simp [h₁, h₂]
  · obtain ⟨own, hown⟩ := produce_not_fragment hf
    rw [hown, hown]
    exact ⟨rfl, Or.inr ⟨h₁, h₂⟩⟩

theorem produceAll_idle {rtpPt : Int} {pkts : List Bytes} {fu₁ fu₂ : FuState} (h₁ : fu₁.buf = [])
    (h₂ : fu₂.buf = []) : (produceAll rtpPt pkts fu₁).1 = (produceAll rtpPt pkts fu₂).1 := by
  induction pkts generalizing fu₁ fu₂ with
  | nil => rfl
  | cons rtp rest ih =>
      obtain ⟨hout, hnext⟩ := produce_idle rtpPt rtp h₁ h₂
      simp only [produceAll, hout]
      rcases hnext with hsame | ⟨h₁', h₂'⟩
      · rw [hsame]
      · rw [ih h₁' h₂']

/-- From any two states, packets produce the same but for at most one unit each. -/
theorem produceAll_resync (rtpPt : Int) (pkts : List Bytes) (fu₁ fu₂ : FuState) :
    ∃ a x y b, (produceAll rtpPt pkts fu₁).1 = a ++ x ++ b ∧
      (produceAll rtpPt pkts fu₂).1 = a ++ y ++ b ∧ x.length ≤ 1 ∧ y.length ≤ 1 := by
  induction pkts generalizing fu₁ fu₂ with
  | nil => exact ⟨[], [], [], [], rfl, rfl, Nat.zero_le _, Nat.zero_le _⟩
  | cons rtp rest ih =>
      by_cases hf : Fragment rtpPt rtp
      · rcases produce_fragment hf fu₁ fu₂ with hsame | ⟨h₁, h₂⟩ | ⟨h₁, h₂, hb₁, hb₂⟩
        · refine ⟨(produceAll rtpPt (rtp :: rest) fu₂).1, [], [], [], ?_, by simp, by simp, by simp⟩
          simp only [produceAll, hsame, List.append_nil]
        · obtain ⟨a, x, y, b, hx, hy, hlx, hly⟩ :=
            ih (produce rtpPt rtp fu₁).2 (produce rtpPt rtp fu₂).2
          refine ⟨a, x, y, b, ?_, ?_, hlx, hly⟩
          · rw [produceAll, h₁, hx, List.nil_append]
          · rw [produceAll, h₂, hy, List.nil_append]
        · refine ⟨[], _, _, (produceAll rtpPt rest (produce rtpPt rtp fu₂).2).1, ?_, rfl, h₁, h₂⟩
          rw [produceAll, produceAll_idle hb₁ hb₂, List.nil_append]
      · obtain ⟨own, hown⟩ := produce_not_fragment hf
        obtain ⟨a, x, y, b, hx, hy, hlx, hly⟩ := ih fu₁ fu₂
        refine ⟨own ++ a, x, y, b, ?_, ?_, hlx, hly⟩
        · rw [produceAll, hown, hx]
          simp only [List.append_assoc]
        · rw [produceAll, hown, hy]
          simp only [List.append_assoc]

/-- For every packet and state the call returns, having read inside the packet only; what it
queues is never empty and comes from packets of the payload type; a packet that is no
complete fragment leaves what later packets produce as it was; and whatever came before, it
shows later in one unit at most. -/
theorem decode_rtp_h264_contained (rtpPt : Int) :
    (∀ d pkts, ∃ out fu, decodeAll rtpPt pkts d = .ok ⟨d.naluQueue ++ out, fu⟩ ∧
      ∀ nalu ∈ out, nalu.data ≠ [] ∧ Source rtpPt d.fu.buf pkts nalu.data) ∧
    (∀ rtp, ¬ Fragment rtpPt rtp → ∃ own, ∀ d after, ∃ later fu,
      decodeAll rtpPt after d = .ok ⟨d.naluQueue ++ later, fu⟩ ∧
        decodeAll rtpPt (rtp :: after) d = .ok ⟨d.naluQueue ++ (own ++ later), fu⟩) ∧
    (∀ d₁ d₂ after, ∃ a x y b fu₁ fu₂,
      decodeAll rtpPt after d₁ = .ok ⟨d₁.naluQueue ++ (a ++ x ++ b), fu₁⟩ ∧
        decodeAll rtpPt after d₂ = .ok ⟨d₂.naluQueue ++ (a ++ y ++ b), fu₂⟩ ∧
        x.length ≤ 1 ∧ y.length ≤ 1) := by
  refine ⟨fun d pkts => ?_, fun rtp hf => ?_, fun d₁ d₂ after => ?_⟩
  · exact ⟨_, _, decodeAll_ok rtpPt pkts d, fun nalu hn => produceAll_source hn⟩
  · obtain ⟨own, hown⟩ := produce_not_fragment hf
    refine ⟨own, fun d after => ⟨_, _, decodeAll_ok rtpPt after d, ?_⟩⟩
    rw [decodeAll_ok, produceAll, hown]
  · obtain ⟨a, x, y, b, hx, hy, hlx, hly⟩ := produceAll_resync rtpPt after d₁.fu d₂.fu
    exact ⟨a, x, y, b, _, _, by rw [decodeAll_ok, hx], by rw [decodeAll_ok, hy], hlx, hly⟩

end OpenBambu.Rtsp
