import OpenBambu.Foundation.Bytes
import OpenBambu.Foundation.Framing

/-!
# Frames of the TLS :6000 tunnel

The 16-byte frame header and `consume_frames` of `src/tunnel_local.cpp`. The
source forms `16 + hdr.payload_len` in 32 bits, so a header may declare a payload
whose frame length wraps. The loop is kept with that arithmetic, with the range of
every `memcpy`, and with a fuel that stands for the number of turns it is given.
`exactFraming` is the same format with the length taken as an integer.
-/

namespace OpenBambu.Tunnel

open OpenBambu.Foundation

def kMagicLoginClient : UInt32 := 0x0101013F
def kMagicLoginServer : UInt32 := 0x0001013F
def kMagicCtrlClient : UInt32 := 0x0102013F
def kMagicCtrlServer : UInt32 := 0x0002013F

structure FrameHeader where
  payloadLen : UInt32
  magic : UInt32
  seq : UInt32
  deriving DecidableEq, Repr

def writeU32Le (v : UInt32) : Bytes :=
  [v.toUInt8, (v >>> 8).toUInt8, (v >>> 16).toUInt8, (v >>> 24).toUInt8]

def readU32Le : Bytes → UInt32
  | b0 :: b1 :: b2 :: b3 :: _ =>
      b0.toUInt32 ||| (b1.toUInt32 <<< 8) ||| (b2.toUInt32 <<< 16) ||| (b3.toUInt32 <<< 24)
  | _ => 0

/-- The last four bytes stay zero. -/
def buildFrameHeader (payloadLen magic seq : UInt32) : Bytes :=
  writeU32Le payloadLen ++ writeU32Le magic ++ writeU32Le seq ++ [0, 0, 0, 0]

def parseFrameHeader (data : Bytes) : Option FrameHeader :=
  if data.length < 16 then none
  else some
    { payloadLen := readU32Le data
      magic := readU32Le (data.drop 4)
      seq := readU32Le (data.drop 8) }

theorem readU32Le_write (v : UInt32) (rest : Bytes) : readU32Le (writeU32Le v ++ rest) = v := by
  apply UInt32.eq_of_toBitVec_eq
  apply BitVec.eq_of_getLsbD_eq
  intro i hi
  simp [-UInt32.toUInt32_toUInt8, readU32Le, writeU32Le]
  grind

@[simp] theorem length_buildFrameHeader (len magic seq : UInt32) :
    (buildFrameHeader len magic seq).length = 16 := rfl

theorem parseFrameHeader_build (len magic seq : UInt32) (rest : Bytes) :
    parseFrameHeader (buildFrameHeader len magic seq ++ rest) = some ⟨len, magic, seq⟩ := by
  have h16 : ¬ (buildFrameHeader len magic seq ++ rest).length < 16 := by simp
  have h0 : readU32Le (buildFrameHeader len magic seq ++ rest) = len := by
    simp only [buildFrameHeader, List.append_assoc, readU32Le_write]
  have h4 : (buildFrameHeader len magic seq ++ rest).drop 4 =
      writeU32Le magic ++ (writeU32Le seq ++ ([0, 0, 0, 0] ++ rest)) := rfl
  have h8 : (buildFrameHeader len magic seq ++ rest).drop 8 =
      writeU32Le seq ++ ([0, 0, 0, 0] ++ rest) := rfl
  rw [parseFrameHeader, if_neg h16, h0, h4, h8, readU32Le_write, readU32Le_write]

theorem length_of_parseFrameHeader {data : Bytes} {hdr : FrameHeader}
    (h : parseFrameHeader data = some hdr) : 16 ≤ data.length := by
  by_contra hlt
  rw [parseFrameHeader, if_pos (by omega)] at h
  exact absurd h (by simp)

/-- A header reads the same whatever follows it. -/
theorem parseFrameHeader_append {data : Bytes} {hdr : FrameHeader}
    (h : parseFrameHeader data = some hdr) (rest : Bytes) :
    parseFrameHeader (data ++ rest) = some hdr := by
  have h16 := length_of_parseFrameHeader h
  have hread : ∀ xs : Bytes, 4 ≤ xs.length → readU32Le (xs ++ rest) = readU32Le xs := by
    intro xs hx
    match xs, hx with
    | b0 :: b1 :: b2 :: b3 :: more, _ => rfl
  rw [parseFrameHeader, if_neg (by omega)] at h
  rw [parseFrameHeader, if_neg (by rw [List.length_append]; omega), ← Option.some.inj h,
    List.drop_append_of_le_length (by omega), List.drop_append_of_le_length (by omega),
    hread _ (by omega), hread _ (by rw [List.length_drop]; omega),
    hread _ (by rw [List.length_drop]; omega)]

/-- `16 + hdr.payload_len`, an `unsigned int` expression. -/
def frameLen (hdr : FrameHeader) : Nat := (16 + hdr.payloadLen).toNat

/-- The declared frame does not fit the 32-bit sum. -/
def Wraps (hdr : FrameHeader) : Prop := 2 ^ 32 ≤ 16 + hdr.payloadLen.toNat

instance (hdr : FrameHeader) : Decidable (Wraps hdr) := inferInstanceAs (Decidable (_ ≤ _))

theorem frameLen_exact {hdr : FrameHeader} (h : ¬ Wraps hdr) :
    frameLen hdr = 16 + hdr.payloadLen.toNat := by
  have h' : 16 + hdr.payloadLen.toNat < 2 ^ 32 := Nat.lt_of_not_le h
  rw [frameLen, UInt32.toNat_add]
  exact Nat.mod_eq_of_lt h'

/-- A wrapped frame looks shorter than its own header. -/
theorem frameLen_wrapped {hdr : FrameHeader} (h : Wraps hdr) : frameLen hdr < 16 := by
  have hlt := hdr.payloadLen.toNat_lt
  have h' : 2 ^ 32 ≤ 16 + hdr.payloadLen.toNat := h
  rw [frameLen, UInt32.toNat_add]
  change (16 + hdr.payloadLen.toNat) % 2 ^ 32 < 16
  omega

/-- One `memcpy` of the loop: the payload bytes `[off, off+len)` of the buffer. -/
structure Copy where
  off : Nat
  len : Nat
  deriving DecidableEq, Repr

def Copy.read (data : Bytes) (c : Copy) : Bytes := (data.drop c.off).take c.len

/-- The loop of `consume_frames` from position `i`, for as many turns as the fuel allows. -/
def consumeLoop (data : Bytes) : Nat → Nat → List Copy → Except Halt (Nat × List Copy)
  | 0, _, _ => .error .hang
  | fuel + 1, i, copies =>
      if i + 16 ≤ data.length then
        match parseFrameHeader (data.drop i) with
        | none => .ok (i, copies)
        | some hdr =>
            if i + frameLen hdr > data.length then .ok (i, copies)
            else if i + 16 + hdr.payloadLen.toNat ≤ data.length then
              consumeLoop data fuel (i + frameLen hdr)
                (copies ++ [⟨i + 16, hdr.payloadLen.toNat⟩])
            else .error .overread
      else .ok (i, copies)

/-- The consumed count and the bodies. A turn that moves on moves by at least one
byte, so running out of this fuel means standing still. -/
def consumeFrames (data : Bytes) : Except Halt (Nat × List Bytes) :=
  (consumeLoop data (data.length + 1) 0 []).map fun r => (r.1, r.2.map (Copy.read data))

/-- `consume_frames`, and the consumed prefix erased from the buffer. -/
def takeBodies (buf : Bytes) : Except Halt (List Bytes × Bytes) :=
  (consumeFrames buf).map fun r => (r.2, buf.drop r.1)

/-! ## The loop, turn by turn -/

theorem parse_drop_none {data : Bytes} {i : Nat} :
    parseFrameHeader (data.drop i) = none ↔ data.length < i + 16 := by
  rw [parseFrameHeader, List.length_drop]
  split_ifs <;> simp <;> omega

theorem consumeLoop_stop {data : Bytes} {i : Nat} (h : parseFrameHeader (data.drop i) = none)
    (fuel : Nat) (copies : List Copy) :
    consumeLoop data (fuel + 1) i copies = .ok (i, copies) := by
  have hi := parse_drop_none.mp h
  rw [consumeLoop, if_neg (by omega)]

theorem consumeLoop_header {data : Bytes} {i : Nat} {hdr : FrameHeader}
    (h : parseFrameHeader (data.drop i) = some hdr) (fuel : Nat) (copies : List Copy) :
    consumeLoop data (fuel + 1) i copies =
      if i + frameLen hdr > data.length then .ok (i, copies)
      else if i + 16 + hdr.payloadLen.toNat ≤ data.length then
        consumeLoop data fuel (i + frameLen hdr) (copies ++ [⟨i + 16, hdr.payloadLen.toNat⟩])
      else .error .overread := by
  have hi : i + 16 ≤ data.length := by
    have := length_of_parseFrameHeader h
    rw [List.length_drop] at this
    omega
  rw [consumeLoop, if_pos hi, h]

theorem consumeLoop_acc (data : Bytes) (fuel i : Nat) (copies : List Copy) :
    consumeLoop data fuel i copies =
      (consumeLoop data fuel i []).map fun r => (r.1, copies ++ r.2) := by
  induction fuel generalizing i copies with
  | zero => rfl
  | succ fuel ih =>
      cases h : parseFrameHeader (data.drop i) with
      | none => simp [consumeLoop_stop h, Except.map]
      | some hdr =>
          rw [consumeLoop_header h, consumeLoop_header h]
          split_ifs
          · simp [Except.map]
          · rw [ih _ (copies ++ _), ih _ ([] ++ _)]
            cases consumeLoop data fuel (i + frameLen hdr) [] <;> simp [Except.map]
          · rfl

/-! ## Exact frame positions -/

/-- The positions at which frames start when every length is taken as an integer. -/
inductive FrameStart (data : Bytes) : Nat → Prop
  | zero : FrameStart data 0
  | next {i : Nat} {hdr : FrameHeader} (start : FrameStart data i)
      (header : parseFrameHeader (data.drop i) = some hdr)
      (complete : i + 16 + hdr.payloadLen.toNat ≤ data.length) :
      FrameStart data (i + 16 + hdr.payloadLen.toNat)

/-- No header the walk over exact frames comes to declares `2^32 - 16` bytes or more. -/
def NoWrappedHeader (data : Bytes) : Prop :=
  ∀ i hdr, FrameStart data i → parseFrameHeader (data.drop i) = some hdr → ¬ Wraps hdr

/-- The copies take the payloads of the exact frames that fill `[i, stop)`. -/
def Tiles (data : Bytes) : Nat → List Copy → Nat → Prop
  | i, [], stop => stop = i
  | i, c :: cs, stop =>
      c.off = i + 16 ∧
        (∃ hdr, parseFrameHeader (data.drop i) = some hdr ∧ c.len = hdr.payloadLen.toNat) ∧
        Tiles data (c.off + c.len) cs stop

theorem Tiles.le {data : Bytes} {i stop : Nat} {cs : List Copy} (h : Tiles data i cs stop) :
    i ≤ stop := by
  induction cs generalizing i with
  | nil => exact Nat.le_of_eq h.symm
  | cons c cs ih =>
      have hoff := h.1
      have := ih h.2.2
      omega

theorem Tiles.bounds {data : Bytes} {i stop : Nat} {cs : List Copy} (h : Tiles data i cs stop) :
    ∀ c ∈ cs, i + 16 ≤ c.off ∧ c.off + c.len ≤ stop := by
  induction cs generalizing i with
  | nil => simp
  | cons d cs ih =>
      intro c hc
      have hoff := h.1
      rcases List.mem_cons.mp hc with rfl | hc
      · exact ⟨by omega, h.2.2.le⟩
      · have := ih h.2.2 c hc
        omega

theorem Tiles.pairwise {data : Bytes} {i stop : Nat} {cs : List Copy} (h : Tiles data i cs stop) :
    cs.Pairwise fun a b => a.off + a.len ≤ b.off := by
  induction cs generalizing i with
  | nil => exact List.Pairwise.nil
  | cons c cs ih =>
      refine List.pairwise_cons.mpr ⟨fun d hd => ?_, ih h.2.2⟩
      have := h.2.2.bounds d hd
      omega

/-- While no header wraps, the loop stops, having copied exactly the complete frames. -/
theorem consumeLoop_exact {data : Bytes} (hw : NoWrappedHeader data) :
    ∀ (fuel i : Nat) (copies : List Copy), FrameStart data i → data.length < fuel + i →
      i ≤ data.length →
      ∃ stop cs, consumeLoop data fuel i copies = .ok (stop, copies ++ cs) ∧
        Tiles data i cs stop ∧ stop ≤ data.length ∧ FrameStart data stop ∧
        ∀ hdr, parseFrameHeader (data.drop stop) = some hdr →
          data.length < stop + 16 + hdr.payloadLen.toNat := by
  intro fuel
  induction fuel with
  | zero => intro i copies _ hf hi; omega
  | succ fuel ih =>
      intro i copies hs hf hi
      cases hp : parseFrameHeader (data.drop i) with
      | none =>
          refine ⟨i, [], by simp [consumeLoop_stop hp], rfl, hi, hs, fun hdr h => ?_⟩
          exact absurd (hp.symm.trans h) (by simp)
      | some hdr =>
          have hlen := frameLen_exact (hw i hdr hs hp)
          rw [consumeLoop_header hp, hlen]
          by_cases hc : i + 16 + hdr.payloadLen.toNat ≤ data.length
          · rw [if_neg (by omega), if_pos hc, ← Nat.add_assoc]
            obtain ⟨stop, cs, he, ht, hr⟩ := ih _ (copies ++ [⟨i + 16, hdr.payloadLen.toNat⟩])
              (hs.next hp hc) (by omega) hc
            refine ⟨stop, ⟨i + 16, hdr.payloadLen.toNat⟩ :: cs, by simp [he], ?_, hr⟩
            exact ⟨rfl, ⟨hdr, hp, rfl⟩, ht⟩
          · rw [if_pos (by omega)]
            refine ⟨i, [], by simp, rfl, hi, hs, fun hdr' h => ?_⟩
            obtain rfl := Option.some.inj (hp.symm.trans h)
            omega

/-- A run from `j` either stops there or copies the payload behind the header at `j`. -/
theorem consumeLoop_first {data : Bytes} {fuel j stop : Nat} {cs : List Copy}
    (h : consumeLoop data fuel j [] = .ok (stop, cs)) :
    (cs = [] ∧ stop = j) ∨ ∃ c rest, cs = c :: rest ∧ c.off = j + 16 := by
  cases fuel with
  | zero => exact absurd h (by simp [consumeLoop])
  | succ fuel =>
      cases hp : parseFrameHeader (data.drop j) with
      | none =>
          rw [consumeLoop_stop hp] at h
          obtain ⟨rfl, rfl⟩ := Prod.mk.inj (Except.ok.inj h)
          exact Or.inl ⟨rfl, rfl⟩
      | some hdr =>
          rw [consumeLoop_header hp] at h
          split_ifs at h
          · obtain ⟨rfl, rfl⟩ := Prod.mk.inj (Except.ok.inj h)
            exact Or.inl ⟨rfl, rfl⟩
          · rw [consumeLoop_acc] at h
            cases hr : consumeLoop data fuel (j + frameLen hdr) [] with
            | error e => rw [hr] at h; exact absurd h (by simp [Except.map])
            | ok r =>
                rw [hr] at h
                simp only [Except.map, Except.ok.injEq, Prod.mk.injEq] at h
                obtain ⟨rfl, rfl⟩ := h
                exact Or.inr ⟨_, r.2, rfl, rfl⟩

/-- One turn of a run that copies exact frames: the header does not wrap, and the
run goes on behind the frame unless the frame is incomplete. -/
theorem consumeLoop_turn {data : Bytes} {fuel i stop : Nat} {copies cs : List Copy}
    (h : consumeLoop data fuel i copies = .ok (stop, copies ++ cs)) (ht : Tiles data i cs stop)
    {hdr : FrameHeader} (hp : parseFrameHeader (data.drop i) = some hdr) :
    ¬ Wraps hdr ∧ (i + 16 + hdr.payloadLen.toNat ≤ data.length →
      ∃ fuel' copies' cs',
        consumeLoop data fuel' (i + 16 + hdr.payloadLen.toNat) copies' = .ok (stop, copies' ++ cs') ∧
          Tiles data (i + 16 + hdr.payloadLen.toNat) cs' stop) := by
  have hi := length_of_parseFrameHeader hp
  rw [List.length_drop] at hi
  cases fuel with
  | zero => exact absurd h (by simp [consumeLoop])
  | succ fuel =>
      rw [consumeLoop_header hp] at h
      by_cases hstop : i + frameLen hdr > data.length
      · have hw : ¬ Wraps hdr := fun hw => by
          have := frameLen_wrapped hw
          omega
        have := frameLen_exact hw
        exact ⟨hw, fun hc => by omega⟩
      rw [if_neg hstop] at h
      by_cases hc : i + 16 + hdr.payloadLen.toNat ≤ data.length
      · rw [if_pos hc, consumeLoop_acc] at h
        cases hr : consumeLoop data fuel (i + frameLen hdr) [] with
        | error e => rw [hr] at h; exact absurd h (by simp [Except.map])
        | ok r =>
            obtain ⟨stop', cs'⟩ := r
            rw [hr] at h
            simp only [Except.map, Except.ok.injEq, Prod.mk.injEq, List.append_assoc,
              List.append_cancel_left_eq] at h
            obtain ⟨rfl, rfl⟩ := h
            have htail : Tiles data (i + 16 + hdr.payloadLen.toNat) cs' stop' := ht.2.2
            -- the next turn must start where the next exact frame does
            have hexact : frameLen hdr = 16 + hdr.payloadLen.toNat := by
              rcases consumeLoop_first hr with ⟨rfl, rfl⟩ | ⟨c, rest, rfl, hoff⟩
              · have := htail
                rw [Tiles] at this
                omega
              · have := htail.1
                omega
            have hw : ¬ Wraps hdr := fun hw => by
              have := frameLen_wrapped hw
              omega
            refine ⟨hw, fun _ => ⟨fuel, [], cs', ?_, htail⟩⟩
            rw [Nat.add_assoc, ← hexact]
            exact hr
      · rw [if_neg hc] at h
        exact absurd h (by simp)

theorem consumeLoop_visits {data : Bytes} {fuel stop : Nat} {cs : List Copy}
    (h : consumeLoop data fuel 0 [] = .ok (stop, cs)) (ht : Tiles data 0 cs stop) {i : Nat}
    (hs : FrameStart data i) :
    ∃ fuel' copies' cs', consumeLoop data fuel' i copies' = .ok (stop, copies' ++ cs') ∧
      Tiles data i cs' stop := by
  induction hs with
  | zero => exact ⟨fuel, [], cs, h, ht⟩
  | next start header complete ih =>
      obtain ⟨fuel', copies', cs', h', ht'⟩ := ih
      exact (consumeLoop_turn h' ht' header).2 complete

/-- What `consume_frames` has to guarantee about the copies it made and the count it returns. -/
structure ExactRun (data : Bytes) (consumed : Nat) (copies : List Copy) : Prop where
  inside : ∀ c ∈ copies, c.off + c.len ≤ data.length
  ordered : copies.Pairwise fun a b => a.off + a.len ≤ b.off
  consumed_le : consumed ≤ data.length
  exact : Tiles data 0 copies consumed

/-- `consume_frames` terminates with copies inside the buffer, disjoint, in order and
of exact frames if and only if the walk over exact frames meets no wrapped header. -/
theorem consume_frames_safe_iff (data : Bytes) :
    (∃ fuel consumed copies, consumeLoop data fuel 0 [] = .ok (consumed, copies) ∧
      ExactRun data consumed copies) ↔ NoWrappedHeader data := by
  constructor
  · rintro ⟨fuel, consumed, copies, h, hrun⟩ i hdr hs hp
    obtain ⟨fuel', copies', cs', h', ht'⟩ := consumeLoop_visits h hrun.exact hs
    exact (consumeLoop_turn h' ht' hp).1
  · intro hw
    obtain ⟨stop, cs, h, ht, hle, _⟩ :=
      consumeLoop_exact hw (data.length + 1) 0 [] .zero (by omega) (by omega)
    refine ⟨_, stop, cs, h, ?_, ht.pairwise, hle, ht⟩
    intro c hc
    have := ht.bounds c hc
    omega

/-- A header alone, whose 32-bit frame length is zero. -/
def wrappingHeader : Bytes := [0xf0, 0xff, 0xff, 0xff, 0, 0, 0, 0, 0, 0, 0, 0, 0, 0, 0, 0]

theorem consume_frames_overread :
    ¬ ∃ fuel consumed copies, consumeLoop wrappingHeader fuel 0 [] = .ok (consumed, copies) ∧
      ExactRun wrappingHeader consumed copies := by
  rintro ⟨fuel, consumed, copies, h, _⟩
  cases fuel with
  | zero => exact absurd h (by simp [consumeLoop])
  | succ fuel =>
      have hp : parseFrameHeader (wrappingHeader.drop 0) = some ⟨0xfffffff0, 0, 0⟩ := by decide
      rw [consumeLoop_header hp] at h
      exact absurd h (by simp [frameLen, wrappingHeader])

theorem consumeLoop_still {data : Bytes} {i : Nat} {hdr : FrameHeader}
    (hp : parseFrameHeader (data.drop i) = some hdr) (hz : frameLen hdr = 0)
    (hc : i + 16 + hdr.payloadLen.toNat ≤ data.length) (fuel : Nat) (copies : List Copy) :
    consumeLoop data fuel i copies = .error .hang := by
  induction fuel generalizing copies with
  | zero => rfl
  | succ fuel ih =>
      rw [consumeLoop_header hp, if_neg (by omega), if_pos hc, hz, Nat.add_zero]
      exact ih _

theorem consumeLoop_le {data : Bytes} {fuel i stop : Nat} {copies cs : List Copy}
    (h : consumeLoop data fuel i copies = .ok (stop, cs)) : i ≤ stop := by
  induction fuel generalizing i copies with
  | zero => cases h
  | succ fuel ih =>
      cases hp : parseFrameHeader (data.drop i) with
      | none =>
          rw [consumeLoop_stop hp] at h
          cases h
          exact Nat.le_refl _
      | some hdr =>
          rw [consumeLoop_header hp] at h
          split_ifs at h with hstop hc
          · cases h
            exact Nat.le_refl _
          · exact Nat.le_trans (Nat.le_add_right _ _) (ih h)

/-- A loop that copies moves on, for one that stands still never ends. -/
theorem consumeLoop_lt {data : Bytes} {fuel i stop : Nat} {cs : List Copy}
    (h : consumeLoop data fuel i [] = .ok (stop, cs)) (hne : cs ≠ []) :
    i < stop ∧ i + 16 ≤ data.length := by
  cases fuel with
  | zero => cases h
  | succ fuel =>
      cases hp : parseFrameHeader (data.drop i) with
      | none =>
          rw [consumeLoop_stop hp] at h
          cases h
          exact absurd rfl hne
      | some hdr =>
          rw [consumeLoop_header hp] at h
          split_ifs at h with hstop hc
          · cases h
            exact absurd rfl hne
          · have hle := consumeLoop_le h
            have hpos : frameLen hdr ≠ 0 := by
              intro hz
              rw [hz, Nat.add_zero, consumeLoop_still hp hz hc] at h
              cases h
            omega

/-- Taking a body shortens the buffer. -/
theorem takeBodies_shorter {buf body rest : Bytes} {more : List Bytes}
    (h : takeBodies buf = .ok (body :: more, rest)) : rest.length < buf.length := by
  rw [takeBodies, consumeFrames] at h
  cases hl : consumeLoop buf (buf.length + 1) 0 [] with
  | error e =>
      rw [hl] at h
      cases h
  | ok r =>
      obtain ⟨stop, cs⟩ := r
      rw [hl] at h
      obtain ⟨hbodies, hrest⟩ := Prod.mk.inj (Except.ok.inj h)
      have hne : cs ≠ [] := by
        intro hnil
        rw [hnil] at hbodies
        cases hbodies
      obtain ⟨hpos, hlen⟩ := consumeLoop_lt hl hne
      rw [← hrest, List.length_drop]
      dsimp only
      omega

/-! ## The exact format -/

/-- A frame whose payload length fits the header field. -/
structure Frame where
  magic : UInt32
  seq : UInt32
  payload : Bytes
  fits : payload.length < 2 ^ 32

/-- `build_frame_header` followed by the payload. -/
def Frame.encode (f : Frame) : Bytes :=
  buildFrameHeader (UInt32.ofNat f.payload.length) f.magic f.seq ++ f.payload

/-- The frame at the front, its length taken as an integer. -/
def takeFrame (buf : Bytes) : Option (Frame × Bytes) :=
  match parseFrameHeader buf with
  | none => none
  | some hdr =>
      if 16 + hdr.payloadLen.toNat ≤ buf.length then
        some
          ({ magic := hdr.magic
             seq := hdr.seq
             payload := (buf.drop 16).take hdr.payloadLen.toNat
             fits := Nat.lt_of_le_of_lt (List.length_take_le _ _) hdr.payloadLen.toNat_lt },
            buf.drop (16 + hdr.payloadLen.toNat))
      else none

theorem takeFrame_shorter {buf rest : Bytes} {f : Frame} (h : takeFrame buf = some (f, rest)) :
    rest.length < buf.length := by
  unfold takeFrame at h
  split at h
  · exact absurd h (by simp)
  · split_ifs at h with hc
    · obtain ⟨_, rfl⟩ := Prod.mk.inj (Option.some.inj h)
      rw [List.length_drop]
      omega

theorem takeFrame_extend {buf rest : Bytes} {f : Frame} (h : takeFrame buf = some (f, rest))
    (more : Bytes) : takeFrame (buf ++ more) = some (f, rest ++ more) := by
  unfold takeFrame at h
  split at h
  · exact absurd h (by simp)
  · rename_i hdr hp
    split_ifs at h with hc
    · obtain ⟨rfl, rfl⟩ := Prod.mk.inj (Option.some.inj h)
      simp only [takeFrame, parseFrameHeader_append hp]
      rw [if_pos (by rw [List.length_append]; omega)]
      have h16 := length_of_parseFrameHeader hp
      simp only [List.drop_append_of_le_length h16, List.drop_append_of_le_length hc,
        List.take_append_of_le_length
          (show hdr.payloadLen.toNat ≤ (buf.drop 16).length by rw [List.length_drop]; omega)]

theorem Frame.payloadLen_toNat (f : Frame) :
    (UInt32.ofNat f.payload.length).toNat = f.payload.length :=
  UInt32.toNat_ofNat_of_lt' f.fits

theorem takeFrame_encode (f : Frame) (rest : Bytes) :
    takeFrame (f.encode ++ rest) = some (f, rest) := by
  have hp : parseFrameHeader (f.encode ++ rest) = some ⟨UInt32.ofNat f.payload.length, f.magic, f.seq⟩ := by
    rw [Frame.encode, List.append_assoc, parseFrameHeader_build]
  have hl : 16 + f.payload.length ≤ (f.encode ++ rest).length := by
    simp only [Frame.encode, List.length_append, length_buildFrameHeader]
    omega
  have h16 : (f.encode ++ rest).drop 16 = f.payload ++ rest := rfl
  have hr : (f.encode ++ rest).drop (16 + f.payload.length) = rest := by
    rw [← List.drop_drop, h16, List.drop_left]
  simp only [takeFrame, hp, f.payloadLen_toNat, if_pos hl, h16, hr, List.take_left]

/-- The exact format as a codec: what its streams drain to is what was encoded. -/
def exactCodec : Codec Byte Frame where
  next := takeFrame
  shorter := takeFrame_shorter
  extend := takeFrame_extend
  encode := Frame.encode
  next_encode := takeFrame_encode

theorem drain_encode (f : Frame) : exactCodec.drain f.encode = ([f], []) := by
  have h := exactCodec.drain_encodeAll [f]
  rwa [Codec.encodeAll_cons, Codec.encodeAll_nil, List.append_nil] at h

theorem Frame.length_encode (f : Frame) : f.encode.length = 16 + f.payload.length := by
  simp only [Frame.encode, List.length_append, length_buildFrameHeader]

theorem takeFrame_of_header {buf : Bytes} {hdr : FrameHeader} (hp : parseFrameHeader buf = some hdr)
    (hc : 16 + hdr.payloadLen.toNat ≤ buf.length) :
    ∃ f, takeFrame buf = some (f, buf.drop (16 + hdr.payloadLen.toNat)) ∧
      f.payload = (buf.drop 16).take hdr.payloadLen.toNat := by
  refine ⟨⟨hdr.magic, hdr.seq, _, Nat.lt_of_le_of_lt (List.length_take_le _ _) hdr.payloadLen.toNat_lt⟩,
    ?_, rfl⟩
  simp only [takeFrame, hp, if_pos hc]

/-- Copies that tile a range read the payloads of the frames drained from it. -/
theorem drain_of_tiles {data : Bytes} {i stop : Nat} {cs : List Copy} (h : Tiles data i cs stop)
    (hle : stop ≤ data.length) :
    ∃ fs, exactCodec.drain (data.drop i) =
        (fs ++ (exactCodec.drain (data.drop stop)).1, (exactCodec.drain (data.drop stop)).2) ∧
      fs.map Frame.payload = cs.map (Copy.read data) := by
  induction cs generalizing i with
  | nil =>
      rw [Tiles] at h
      subst h
      exact ⟨[], rfl, rfl⟩
  | cons c cs ih =>
      obtain ⟨hoff, ⟨hdr, hp, hlen⟩, ht⟩ := h
      have hstop := ht.le
      have hc : 16 + hdr.payloadLen.toNat ≤ (data.drop i).length := by
        rw [List.length_drop]
        omega
      obtain ⟨f, hf, hpay⟩ := takeFrame_of_header hp hc
      obtain ⟨fs, hd, hm⟩ := ih ht
      refine ⟨f :: fs, ?_, ?_⟩
      · have hnext : data.drop (c.off + c.len) = (data.drop i).drop (16 + hdr.payloadLen.toNat) := by
          rw [List.drop_drop, hoff, hlen, Nat.add_assoc]
        rw [Framing.drain_of_next (F := exactCodec.toFraming) hf, ← hnext, hd]
        rfl
      · rw [List.map_cons, List.map_cons, hm, hpay, List.drop_drop, Copy.read, hoff, hlen]

/-- While no header wraps, `consume_frames` is the exact format: it takes every
complete frame and leaves the rest. -/
theorem consumeFrames_exact {data : Bytes} (hw : NoWrappedHeader data) :
    ∃ n, consumeFrames data = .ok (n, (exactCodec.drain data).1.map Frame.payload) ∧
      n ≤ data.length ∧ data.drop n = (exactCodec.drain data).2 := by
  obtain ⟨stop, cs, h, ht, hle, _, hend⟩ :=
    consumeLoop_exact hw (data.length + 1) 0 [] .zero (by omega) (by omega)
  obtain ⟨fs, hd, hm⟩ := drain_of_tiles ht hle
  have hsettled : exactCodec.Settled (data.drop stop) := by
    change takeFrame (data.drop stop) = none
    unfold takeFrame
    split
    · rfl
    · rename_i hdr hp
      have := hend hdr hp
      rw [if_neg (by rw [List.length_drop]; omega)]
  rw [List.drop_zero, Framing.drain_of_settled hsettled, List.append_nil] at hd
  refine ⟨stop, ?_, hle, by rw [hd]⟩
  rw [consumeFrames, h, hd]
  simp [Except.map, hm]

/-- The bound below which `16 + payload_len` does not wrap. -/
def Frame.Small (f : Frame) : Prop := 16 + f.payload.length < 2 ^ 32

instance (f : Frame) : Decidable f.Small := inferInstanceAs (Decidable (_ < _))

theorem parse_encodeAll_cons (f : Frame) (fs : List Frame) :
    parseFrameHeader (exactCodec.encodeAll (f :: fs)) =
      some ⟨UInt32.ofNat f.payload.length, f.magic, f.seq⟩ := by
  rw [Codec.encodeAll_cons]
  change parseFrameHeader (f.encode ++ _) = _
  rw [Frame.encode, List.append_assoc, parseFrameHeader_build]

/-- A header read inside a cut stream is that of the frame which starts there. -/
theorem header_of_later {later : List Frame} {rest ys : Bytes} {hdr : FrameHeader}
    (h : rest ++ ys = exactCodec.encodeAll later) (hp : parseFrameHeader rest = some hdr) :
    ∃ f more, later = f :: more ∧ hdr = ⟨UInt32.ofNat f.payload.length, f.magic, f.seq⟩ := by
  have hp := parseFrameHeader_append hp ys
  rw [h] at hp
  cases later with
  | nil => exact absurd (length_of_parseFrameHeader hp) (by simp)
  | cons f more => exact ⟨f, more, rfl, Option.some.inj (hp.symm.trans (parse_encodeAll_cons f more))⟩

/-- In an encoded stream the exact frame positions are those between its frames. -/
theorem frameStart_encodeAll {fs : List Frame} {data ys : Bytes}
    (h : data ++ ys = exactCodec.encodeAll fs) {i : Nat} (hs : FrameStart data i) :
    ∃ done later, fs = done ++ later ∧ i = (exactCodec.encodeAll done).length ∧
      data.drop i ++ ys = exactCodec.encodeAll later := by
  induction hs with
  | zero => exact ⟨[], fs, rfl, rfl, h⟩
  | @next i hdr start header complete ih =>
      obtain ⟨done, later, rfl, hi, hrest⟩ := ih
      obtain ⟨f, more, rfl, rfl⟩ := header_of_later hrest header
      have hlen : i + 16 + f.payload.length = (exactCodec.encodeAll (done ++ [f])).length := by
        rw [Codec.encodeAll_append, List.length_append, ← hi, Codec.encodeAll_cons,
          Codec.encodeAll_nil, List.append_nil, Nat.add_assoc]
        exact congrArg (i + ·) f.length_encode.symm
      simp only [f.payloadLen_toNat] at complete ⊢
      refine ⟨done ++ [f], more, by rw [List.append_assoc, List.singleton_append], hlen, ?_⟩
      have hd := congrArg (List.drop (16 + f.payload.length)) hrest
      rw [List.drop_append_of_le_length (by rw [List.length_drop]; omega), List.drop_drop,
        Codec.encodeAll_cons, ← f.length_encode] at hd
      rw [Nat.add_assoc, ← f.length_encode]
      exact hd.trans List.drop_left

/-- A stream of small frames, cut anywhere, shows no wrapped header. -/
theorem noWrappedHeader_encodeAll {fs : List Frame} {data ys : Bytes}
    (h : data ++ ys = exactCodec.encodeAll fs) (hsmall : ∀ f ∈ fs, f.Small) :
    NoWrappedHeader data := by
  intro i hdr hs hp
  obtain ⟨done, later, rfl, _, hrest⟩ := frameStart_encodeAll h hs
  obtain ⟨f, more, rfl, rfl⟩ := header_of_later hrest hp
  rw [Wraps, f.payloadLen_toNat]
  exact Nat.not_le_of_lt (hsmall f (by simp))

/-- What one step over a receive buffer owes: the complete frames, each turned into at
most one item, and the rest. -/
def StepsBy {M : Type} (step : Bytes → Except Halt (List M × Bytes)) (g : Frame → Option M) : Prop :=
  ∀ {fs : List Frame} {data ys : Bytes}, data ++ ys = exactCodec.encodeAll fs →
    (∀ f ∈ fs, f.Small) →
    step data = .ok ((exactCodec.drain data).1.filterMap g, (exactCodec.drain data).2)

theorem takeBodies_steps : StepsBy takeBodies fun f => some f.payload := by
  intro fs data ys h hsmall
  obtain ⟨n, hn, _, hdrop⟩ := consumeFrames_exact (noWrappedHeader_encodeAll h hsmall)
  rw [takeBodies, hn, ← hdrop, List.filterMap_eq_map']
  rfl

/-- Append the chunks one by one to a buffer and take its items after each. -/
def onChunks {M : Type} (step : Bytes → Except Halt (List M × Bytes)) :
    Bytes → List Bytes → Except Halt (List M × Bytes)
  | buf, [] => .ok ([], buf)
  | buf, c :: cs =>
      match step (buf ++ c) with
      | .error h => .error h
      | .ok (items, rest) => (onChunks step rest cs).map fun r => (items ++ r.1, r.2)

theorem onChunks_encoded {M : Type} {step : Bytes → Except Halt (List M × Bytes)}
    {g : Frame → Option M} (hstep : StepsBy step g) {fs : List Frame} {buf ys : Bytes}
    {cs : List Bytes} (h : buf ++ cs.flatten ++ ys = exactCodec.encodeAll fs)
    (hsmall : ∀ f ∈ fs, f.Small) :
    onChunks step buf cs =
      .ok ((exactCodec.feed buf cs).1.flatten.filterMap g, (exactCodec.feed buf cs).2) := by
  induction cs generalizing buf fs with
  | nil => rfl
  | cons c cs ih =>
      have hc : (buf ++ c) ++ (cs.flatten ++ ys) = exactCodec.encodeAll fs := by
        rw [← h, List.flatten_cons]
        simp only [List.append_assoc]
      obtain ⟨later, hfs, _, hrest⟩ := exactCodec.cut_encodeAll hc
      have hlater : ∀ f ∈ later, f.Small := fun f hf => hsmall f (hfs ▸ List.mem_append_right _ hf)
      have hlast : (exactCodec.drain (buf ++ c)).2 ++ cs.flatten ++ ys = exactCodec.encodeAll later := by
        rw [← hrest, List.append_assoc]
      have ht := ih hlast hlater
      rw [onChunks, hstep hc hsmall]
      simp only [ht, Except.map, Framing.feed_cons, List.flatten_cons, List.filterMap_append]

/-! ## Wrapped headers in what is left of a stream -/

theorem FrameStart.extend {data : Bytes} {i : Nat} (h : FrameStart data i) (ys : Bytes) :
    FrameStart (data ++ ys) i := by
  induction h with
  | zero => exact .zero
  | @next i hdr _ header complete ih =>
      refine .next ih ?_ (by rw [List.length_append]; omega)
      rw [List.drop_append_of_le_length (by omega)]
      exact parseFrameHeader_append header ys

theorem NoWrappedHeader.left {data ys : Bytes} (h : NoWrappedHeader (data ++ ys)) :
    NoWrappedHeader data := by
  intro i hdr hs hp
  refine h i hdr (hs.extend ys) ?_
  have hi := length_of_parseFrameHeader hp
  rw [List.length_drop] at hi
  rw [List.drop_append_of_le_length (by omega)]
  exact parseFrameHeader_append hp ys

theorem NoWrappedHeader.next {buf rest : Bytes} {f : Frame} (h : NoWrappedHeader buf)
    (hf : takeFrame buf = some (f, rest)) : NoWrappedHeader rest := by
  unfold takeFrame at hf
  split at hf
  · exact absurd hf (by simp)
  · rename_i hdr hp
    split_ifs at hf with hc
    obtain ⟨_, rfl⟩ := Prod.mk.inj (Option.some.inj hf)
    have hfirst : FrameStart buf (16 + hdr.payloadLen.toNat) := by
      have hnext : FrameStart buf (0 + 16 + hdr.payloadLen.toNat) :=
        .next .zero (by simpa using hp) (by omega)
      rwa [Nat.zero_add] at hnext
    have hshift : ∀ {i}, FrameStart (buf.drop (16 + hdr.payloadLen.toNat)) i →
        FrameStart buf (16 + hdr.payloadLen.toNat + i) := by
      intro i hi
      induction hi with
      | zero => exact hfirst
      | @next i hdr' _ header complete ih =>
          rw [List.drop_drop] at header
          rw [List.length_drop] at complete
          have := ih.next header (by omega)
          simpa only [Nat.add_assoc] using this
    intro i hdr' hi hp'
    rw [List.drop_drop] at hp'
    exact h _ hdr' (hshift hi) hp'

/-- Taking off the complete frames leaves a stream without wrapped headers. -/
theorem NoWrappedHeader.rest {buf ys : Bytes} (h : NoWrappedHeader (buf ++ ys)) :
    NoWrappedHeader ((exactCodec.drain buf).2 ++ ys) := by
  cases hn : exactCodec.next buf with
  | none => rwa [Framing.drain_of_settled hn]
  | some p =>
      obtain ⟨f, rest⟩ := p
      rw [Framing.drain_of_next hn]
      exact (h.next (takeFrame_extend hn ys)).rest
termination_by buf.length
decreasing_by exact takeFrame_shorter hn

theorem takeBodies_exact {buf : Bytes} (h : NoWrappedHeader buf) :
    takeBodies buf =
      .ok ((exactCodec.drain buf).1.map Frame.payload, (exactCodec.drain buf).2) := by
  obtain ⟨n, hn, _, hdrop⟩ := consumeFrames_exact h
  rw [takeBodies, hn, ← hdrop]
  rfl

end OpenBambu.Tunnel
