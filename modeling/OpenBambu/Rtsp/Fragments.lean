import OpenBambu.Rtsp.Packetize

/-!
# Which fragments make a unit

The FU-A branch of `decode_rtp_h264` puts a fragment behind whatever it has collected since the last
start. It reads neither the sequence number nor the timestamp of a fragment that is no start, so after
a loss it joins fragments of different units. Here the fragments that make a unit are kept beside
its bytes.
-/

namespace OpenBambu.Rtsp

open OpenBambu.Foundation

/-- A fragment, with what its packet says of its place in the stream. -/
structure Frag where
  seq : UInt16
  ts : UInt32
  fuInd : Byte
  fuHdr : Byte
  body : Bytes
  deriving DecidableEq

def Frag.isStart (f : Frag) : Bool := f.fuHdr &&& 0x80 ≠ 0

def Frag.isEnd (f : Frag) : Bool := f.fuHdr &&& 0x40 ≠ 0

def seqOf (rtp : Bytes) : UInt16 := be16 (rtp.getD 2 0) (rtp.getD 3 0)

/-- The fragment a packet of the payload type carries. -/
def fragOf (rtpPt : Int) (rtp : Bytes) : Option Frag :=
  (payloadOf rtpPt rtp).bind fun p =>
    match p.bytes with
    | fuInd :: fuHdr :: body => if nalType fuInd = 28 then some ⟨seqOf rtp, p.ts, fuInd, fuHdr, body⟩ else none
    | _ => none

/-- The fragments of the unit in progress with the next one. -/
def joinedWith (run : List Frag) (f : Frag) : List Frag :=
  if f.isStart then [f] else if run.isEmpty then [] else run ++ [f]

/-- The fragments in progress behind the next one. -/
def leftBy (run : List Frag) (f : Frag) : List Frag := if f.isEnd then [] else joinedWith run f

def inProgress (frags : List Frag) : List Frag := frags.foldl leftBy []

/-- The bytes collected of some fragments. -/
def bytesOf : List Frag → Bytes
  | [] => []
  | f :: fs => rebuiltHeader f.fuInd f.fuHdr :: (f :: fs).flatMap Frag.body

/-- The unit a fragment completes. -/
def completed (run : List Frag) (f : Frag) : List Bytes :=
  if f.isEnd && !(joinedWith run f).isEmpty then [bytesOf (joinedWith run f)] else []

/-! ## The decoder -/

theorem bytesOf_eq_nil {run : List Frag} : bytesOf run = [] ↔ run = [] := by
  cases run with
  | nil => simp [bytesOf]
  | cons f fs => simp [bytesOf]

theorem bytesOf_append {run : List Frag} (h : run ≠ []) (f : Frag) :
    bytesOf (run ++ [f]) = bytesOf run ++ f.body := by
  obtain ⟨g, gs, rfl⟩ := List.exists_cons_of_ne_nil h
  simp [bytesOf]

theorem fragOf_some {rtpPt : Int} {rtp : Bytes} {f : Frag} (h : fragOf rtpPt rtp = some f) :
    ∃ marker, payloadOf rtpPt rtp = some ⟨marker, f.ts, f.fuInd :: f.fuHdr :: f.body⟩ ∧
      nalType f.fuInd = 28 ∧ f.seq = seqOf rtp := by
  obtain ⟨⟨marker, ts, bytes⟩, hp, hf⟩ := Option.bind_eq_some_iff.mp h
  cases bytes with
  | nil => cases hf
  | cons fuInd bytes =>
      cases bytes with
      | nil => cases hf
      | cons fuHdr body =>
          simp only at hf
          split_ifs at hf with h28
          obtain rfl := Option.some.inj hf
          exact ⟨marker, hp, h28, rfl⟩

theorem fragOf_none {rtpPt : Int} {rtp : Bytes} (h : fragOf rtpPt rtp = none) : ¬ Fragment rtpPt rtp := by
  rintro ⟨marker, ts, fuInd, fuHdr, body, hp, h28⟩
  simp [fragOf, hp, h28] at h

/-- A fragment goes behind what is in progress, or in its place. -/
theorem produce_frag {rtpPt : Int} {rtp : Bytes} {f : Frag} (h : fragOf rtpPt rtp = some f) {fu : FuState}
    {run : List Frag} (hrun : fu.buf = bytesOf run) :
    (produce rtpPt rtp fu).1.map Nalu.data = completed run f ∧
      (produce rtpPt rtp fu).2.buf = bytesOf (leftBy run f) := by
  obtain ⟨marker, hp, h28, -⟩ := fragOf_some h
  have hproduce : produce rtpPt rtp fu = fuProduce fu f.ts marker (f.fuInd :: f.fuHdr :: f.body) := by
    unfold produce producePayload
    simp [hp, h28]
  have hnil : fu.buf = [] ↔ run = [] := by rw [hrun, bytesOf_eq_nil]
  rw [hproduce, fuProduce]
  unfold completed leftBy joinedWith
  by_cases hs : f.fuHdr &&& 0x80 ≠ 0
  · have hstart : f.isStart = true := by simpa [Frag.isStart] using hs
    by_cases he : f.fuHdr &&& 0x40 ≠ 0
    · have hend : f.isEnd = true := by simpa [Frag.isEnd] using he
      simp [hs, he, hstart, hend, bytesOf]
    · have hend : f.isEnd = false := by simpa [Frag.isEnd] using he
      simp [hs, he, hstart, hend, bytesOf]
  · have hstart : f.isStart = false := by simpa [Frag.isStart] using hs
    by_cases hr : run = []
    · by_cases he : f.isEnd = true <;> simp [hs, hstart, hnil, hr, he, bytesOf]
    · have happend := bytesOf_append hr f
      have hbusy : fu.buf ≠ [] := mt hnil.mp hr
      have hjoined : (run ++ [f]).isEmpty = false := by simp
      have hopen : run.isEmpty = false := by simpa using hr
      simp only [if_neg hs, if_neg hbusy, hstart, hopen, Bool.false_eq_true, if_false, hjoined, Bool.not_false,
        Bool.and_true]
      by_cases he : f.fuHdr &&& 0x40 ≠ 0
      · have hend : f.isEnd = true := by simpa [Frag.isEnd] using he
        rw [if_pos he, if_pos hend, if_pos hend, happend, hrun]
        exact ⟨rfl, rfl⟩
      · have hend : ¬ f.isEnd = true := by simpa [Frag.isEnd] using he
        rw [if_neg he, if_neg hend, if_neg hend, happend, hrun]
        exact ⟨rfl, rfl⟩

/-- What is in progress are the bytes of the fragments in progress. -/
theorem produceAll_inProgress (rtpPt : Int) (pkts : List Bytes) {fu : FuState} {run : List Frag}
    (hrun : fu.buf = bytesOf run) :
    (produceAll rtpPt pkts fu).2.buf = bytesOf ((pkts.filterMap (fragOf rtpPt)).foldl leftBy run) := by
  induction pkts generalizing fu run with
  | nil => exact hrun
  | cons rtp pkts ih =>
      rw [produceAll]
      cases hf : fragOf rtpPt rtp with
      | none =>
          obtain ⟨own, hown⟩ := produce_not_fragment (fragOf_none hf)
          rw [hown, List.filterMap_cons_none hf]
          exact ih hrun
      | some f =>
          rw [List.filterMap_cons_some hf]
          exact ih (produce_frag hf hrun).2

/-! ## Whole units -/

/-- The next fragment of the same unit. -/
def Next (a b : Frag) : Prop := b.seq = a.seq + 1 ∧ b.ts = a.ts

/-- Fragments from a start to the next end, with neither in between. -/
structure Window (run : List Frag) : Prop where
  nonempty : run ≠ []
  starts : ∀ f ∈ run.head?, f.isStart = true
  ends : ∀ f ∈ run.getLast?, f.isEnd = true
  inner : run.Pairwise fun a b => a.isEnd = false ∧ b.isStart = false

/-- All fragments of one unit, in order. -/
structure OneUnit (run : List Frag) : Prop extends Window run where
  chain : run.IsChain Next

/-- Every unit that is emitted consists of all fragments of one unit. -/
def WholeUnits (frags : List Frag) : Prop :=
  ∀ pre f post, frags = pre ++ f :: post → f.isEnd = true → joinedWith (inProgress pre) f ≠ [] →
    OneUnit (joinedWith (inProgress pre) f)

/-- From a start to the next end no fragment is missing or out of place. -/
def Gapless (frags : List Frag) : Prop :=
  ∀ pre run post, frags = pre ++ run ++ post → Window run → run.IsChain Next

/-- What is in progress came last, from a start on and without an end. -/
structure Open (frags run : List Frag) : Prop where
  suffix : run <:+ frags
  starts : ∀ f ∈ run.head?, f.isStart = true
  inner : run.Pairwise fun a b => a.isEnd = false ∧ b.isStart = false
  unended : ∀ f ∈ run, f.isEnd = false

/-- The fragments joined with the next one, where it is an end, are a window. -/
theorem Open.joined {frags run : List Frag} (h : Open frags run) (f : Frag) :
    joinedWith run f <:+ frags ++ [f] ∧ (∀ g ∈ (joinedWith run f).head?, g.isStart = true) ∧
      (joinedWith run f).Pairwise fun a b => a.isEnd = false ∧ b.isStart = false := by
  unfold joinedWith
  split_ifs with hs hr
  · exact ⟨List.suffix_append _ _, by simpa using hs, List.pairwise_singleton _ _⟩
  · exact ⟨List.nil_suffix, by simp, List.Pairwise.nil⟩
  · have hne : run ≠ [] := by simpa using hr
    obtain ⟨t, ht⟩ := h.suffix
    refine ⟨⟨t, by rw [← ht, List.append_assoc]⟩, ?_, ?_⟩
    · rw [List.head?_append_of_ne_nil _ hne]
      exact h.starts
    · refine List.pairwise_append.mpr ⟨h.inner, List.pairwise_singleton _ _, fun a ha b hb => ?_⟩
      obtain rfl := List.mem_singleton.mp hb
      exact ⟨h.unended a ha, by simpa using hs⟩

theorem inProgress_append (frags : List Frag) (f : Frag) :
    inProgress (frags ++ [f]) = leftBy (inProgress frags) f := by
  rw [inProgress, List.foldl_append]
  rfl

theorem inProgress_open (frags : List Frag) : Open frags (inProgress frags) := by
  induction frags using List.reverseRecOn with
  | nil => exact ⟨List.nil_suffix, by simp [inProgress], List.Pairwise.nil, by simp [inProgress]⟩
  | append_singleton frags f ih =>
      obtain ⟨hsuffix, hstarts, hinner⟩ := ih.joined f
      rw [inProgress_append, leftBy]
      split_ifs with he
      · exact ⟨List.nil_suffix, by simp, List.Pairwise.nil, by simp⟩
      · refine ⟨hsuffix, hstarts, hinner, fun g hg => ?_⟩
        unfold joinedWith at hg
        split_ifs at hg
        · obtain rfl := List.mem_singleton.mp hg
          simpa using he
        · cases hg
        · rcases List.mem_append.mp hg with hg | hg
          · exact ih.unended g hg
          · obtain rfl := List.mem_singleton.mp hg
            simpa using he

theorem getLast?_joinedWith {run : List Frag} {f : Frag} (h : joinedWith run f ≠ []) :
    (joinedWith run f).getLast? = some f := by
  unfold joinedWith at h ⊢
  split_ifs at h ⊢ with hs hr
  · rfl
  · exact absurd rfl h
  · rw [List.getLast?_concat]

/-- A start replaces what is in progress, and the fragments behind it are put to it. -/
theorem inProgress_window (pre : List Frag) {s : Frag} {mid : List Frag} (hs : s.isStart = true)
    (he : ∀ f ∈ s :: mid, f.isEnd = false) (hm : ∀ f ∈ mid, f.isStart = false) :
    inProgress (pre ++ s :: mid) = s :: mid := by
  induction mid using List.reverseRecOn with
  | nil =>
      rw [inProgress_append, leftBy, if_neg (by simp [he]), joinedWith, if_pos hs]
  | append_singleton mid f ih =>
      have hmid := ih (fun g hg => he g (by simp at hg ⊢; tauto)) fun g hg => hm g (by simp [hg])
      rw [← List.cons_append, ← List.append_assoc, inProgress_append, hmid, leftBy,
        if_neg (by simp [he]), joinedWith, if_neg (by simp [hm])]
      rfl

/-- What is emitted are whole units exactly if no window has a gap. -/
theorem wholeUnits_iff (frags : List Frag) : WholeUnits frags ↔ Gapless frags := by
  constructor
  · intro h pre run post heq hw
    obtain ⟨init, f, rfl⟩ : ∃ init f, run = init ++ [f] :=
      ⟨_, _, (List.dropLast_append_getLast hw.nonempty).symm⟩
    have he : f.isEnd = true := hw.ends f (by simp)
    have hrun : joinedWith (inProgress (pre ++ init)) f = init ++ [f] := by
      cases init with
      | nil => rw [joinedWith, if_pos (hw.starts f (by simp))]; rfl
      | cons s mid =>
          obtain ⟨hinner, -, hlast⟩ := List.pairwise_append.mp hw.inner
          obtain ⟨hfirst, -⟩ := List.pairwise_cons.mp hinner
          have hopen := inProgress_window pre (hw.starts s (by simp))
            (fun g hg => (hlast g hg f (by simp)).1) fun g hg => (hfirst g hg).2
          have hf : f.isStart = false := (hlast s (by simp) f (by simp)).2
          rw [hopen, joinedWith, if_neg (by simp [hf]), if_neg (by simp)]
    have hunit := h (pre ++ init) f post (by rw [heq]; simp) he (by rw [hrun]; simp)
    rw [hrun] at hunit
    exact hunit.chain
  · intro h pre f post heq he hne
    obtain ⟨⟨t, ht⟩, hstarts, hinner⟩ := (inProgress_open pre).joined f
    have hwindow : Window (joinedWith (inProgress pre) f) := by
      refine ⟨hne, hstarts, fun g hg => ?_, hinner⟩
      rw [getLast?_joinedWith hne] at hg
      obtain rfl := Option.some.inj hg
      exact he
    refine ⟨hwindow, h t _ post ?_ hwindow⟩
    rw [ht, heq]
    simp

/-- A window at the end of the fragments is the only one there. -/
theorem Window.suffix_unique {frags run run' : List Frag} (h : Window run) (h' : Window run')
    (hs : run <:+ frags) (hs' : run' <:+ frags) : run = run' := by
  wlog hle : run <:+ run' generalizing run run'
  · exact (this h' h hs' hs ((List.suffix_or_suffix_of_suffix hs hs').resolve_left hle)).symm
  obtain ⟨t, rfl⟩ := hle
  obtain ⟨g, gs, rfl⟩ := List.exists_cons_of_ne_nil h.nonempty
  cases t with
  | nil => rfl
  | cons a t =>
      have hstart := h.starts g rfl
      obtain ⟨-, -, hbehind⟩ := List.pairwise_append.mp h'.inner
      have hno := (hbehind a List.mem_cons_self g List.mem_cons_self).2
      rw [hstart] at hno
      cases hno

/-- Neither is there another one at their front. -/
theorem Window.prefix_unique {frags run run' : List Frag} (h : Window run) (h' : Window run')
    (hp : run <+: frags) (hp' : run' <+: frags) : run = run' := by
  wlog hle : run <+: run' generalizing run run'
  · exact (this h' h hp' hp ((List.prefix_or_prefix_of_prefix hp hp').resolve_left hle)).symm
  obtain ⟨t, rfl⟩ := hle
  obtain ⟨init, g, rfl⟩ : ∃ init g, run = init ++ [g] :=
    ⟨_, _, (List.dropLast_append_getLast h.nonempty).symm⟩
  cases t with
  | nil => rw [List.append_nil]
  | cons a t =>
      have hend := h.ends g (by simp)
      obtain ⟨-, -, hbefore⟩ := List.pairwise_append.mp h'.inner
      have hno := (hbefore g (by simp) a List.mem_cons_self).1
      rw [hend] at hno
      cases hno

/-! ## Units of a sender -/

/-- The fragment in a packet of a sender. -/
def fragment (nal : NalUnit) (start final : Bool) (frag : Header × Bytes) : Frag :=
  ⟨frag.1.seq, frag.1.ts, fuIndicator nal.header, fuHeader start final nal.header, frag.2 ++ frag.1.trailer⟩

def fragmentsOf (nal : NalUnit) (first : Header × Bytes) (mid : List (Header × Bytes))
    (last : Header × Bytes) : List Frag :=
  fragment nal true false first :: (mid.map (fragment nal false false) ++ [fragment nal false true last])

@[simp] theorem isStart_fragment (nal : NalUnit) (start final : Bool) (frag : Header × Bytes) :
    (fragment nal start final frag).isStart = start := by
  have h := (fuHeader_bits start final nal.header).1
  exact (decide_eq_decide.mpr h).trans (Bool.decide_coe start)

@[simp] theorem isEnd_fragment (nal : NalUnit) (start final : Bool) (frag : Header × Bytes) :
    (fragment nal start final frag).isEnd = final := by
  have h := (fuHeader_bits start final nal.header).2.1
  exact (decide_eq_decide.mpr h).trans (Bool.decide_coe final)

theorem fragmentsOf_window (nal : NalUnit) (first : Header × Bytes) (mid : List (Header × Bytes))
    (last : Header × Bytes) : Window (fragmentsOf nal first mid last) := by
  refine ⟨List.cons_ne_nil _ _, by simp [fragmentsOf], fun f hf => ?_, ?_⟩
  · rw [fragmentsOf, ← List.cons_append, List.getLast?_concat] at hf
    obtain rfl := Option.some.inj hf
    simp
  · have hmid : (mid.map (fragment nal false false)).Pairwise fun a b => a.isEnd = false ∧ b.isStart = false := by
      rw [List.pairwise_map]
      exact List.pairwise_of_forall fun a b => ⟨by simp, by simp⟩
    rw [fragmentsOf, List.pairwise_cons, List.pairwise_append]
    refine ⟨fun g hg => ?_, hmid, List.pairwise_singleton _ _, fun a ha b hb => ?_⟩
    · rcases List.mem_append.mp hg with hg | hg
      · obtain ⟨frag, -, rfl⟩ := List.mem_map.mp hg
        simp
      · obtain rfl := List.mem_singleton.mp hg
        simp
    · obtain ⟨frag, -, rfl⟩ := List.mem_map.mp ha
      obtain rfl := List.mem_singleton.mp hb
      simp

/-- The fragments of a unit hold the unit. -/
theorem bytesOf_fragmentsOf (nal : NalUnit) (first : Header × Bytes) (mid : List (Header × Bytes))
    (last : Header × Bytes) :
    bytesOf (fragmentsOf nal first mid last) = nal.header :: carriedBy (first :: (mid ++ [last])) := by
  have hheader := (fuHeader_bits true false nal.header).2.2
  have hmid : ∀ l : List (Header × Bytes),
      (l.map (fragment nal false false)).flatMap Frag.body = carriedBy l := fun l => by
    rw [List.flatMap_map]
    rfl
  rw [fragmentsOf, bytesOf]
  simp only [fragment] at hheader ⊢
  rw [hheader]
  simp only [List.flatMap_cons, List.flatMap_append, carriedBy, List.flatMap_nil, List.append_nil]
  exact congrArg _ (congrArg _ (congrArg (· ++ _) (hmid mid)))

theorem fragOf_packet (pt : Fin 128) (h : Header) {payload : Bytes} (hne : payload ≠ [])
    (htype : nalType (payload.head hne) ≠ 28) : fragOf pt (h.packet pt payload) = none := by
  obtain ⟨b, bs, rfl⟩ := List.exists_cons_of_ne_nil hne
  rw [fragOf, h.payloadOf_packet pt hne, Option.bind_some]
  simp only [List.cons_append]
  cases bs ++ h.trailer with
  | nil => rfl
  | cons c cs => exact if_neg htype

theorem fragOf_fragmentPacket (pt : Fin 128) (nal : NalUnit) (start final : Bool) (frag : Header × Bytes) :
    fragOf pt (fragmentPacket pt nal start final frag) = some (fragment nal start final frag) := by
  have hseq : seqOf (fragmentPacket pt nal start final frag) = frag.1.seq := be16_write _
  rw [fragOf, fragmentPacket, frag.1.payloadOf_packet pt (List.cons_ne_nil _ _), Option.bind_some]
  simp only [List.cons_append]
  rw [if_pos (nalType_fuIndicator nal.header), ← fragmentPacket, hseq]
  rfl

/-- The packets of a step carry no fragment, or those of one unit. -/
theorem fragOf_step (pt : Fin 128) (step : Step) :
    (step.packets pt).map (fragOf pt) = [none] ∨
      ∃ nal first mid last ts, step.received = [(nal.header :: carriedBy (first :: (mid ++ [last])), ts)] ∧
        (step.packets pt).map (fragOf pt) = (fragmentsOf nal first mid last).map some := by
  cases step with
  | single h nal =>
      have htype : nalType nal.header ≠ 28 := by
        have := nal.type
        omega
      exact Or.inl (congrArg (fun o => [o]) (fragOf_packet pt h (List.cons_ne_nil nal.header nal.body) htype))
  | stapA h indicator nals type nonempty fits =>
      have htype : nalType indicator ≠ 28 := by omega
      exact Or.inl (congrArg (fun o => [o]) (fragOf_packet pt h (List.cons_ne_nil indicator (sized nals)) htype))
  | fuA nal first last mid whole sameTs =>
      refine Or.inr ⟨nal, first, mid, last, first.1.ts, rfl, ?_⟩
      simp only [Step.packets, fragmentsOf, List.map_cons, List.map_append, List.map_map, fragOf_fragmentPacket,
        List.map_nil]
      refine congrArg _ (congrArg (· ++ _) (List.map_congr_left fun frag _ => ?_))
      exact fragOf_fragmentPacket pt nal false false frag

/-- A window among the packets of a sender holds the fragments of one of its units. -/
theorem window_of_stream (pt : Fin 128) {stream : List Step} {run : List Frag} (hw : Window run)
    {before behind : List (Option Frag)}
    (h : (stream.flatMap (Step.packets pt)).map (fragOf pt) = before ++ run.map some ++ behind) :
    ∃ step ∈ stream, ∃ ts, step.received = [(bytesOf run, ts)] := by
  induction stream generalizing before with
  | nil =>
      have hnil := congrArg List.length h
      have hpos := List.length_pos_of_ne_nil hw.nonempty
      simp at hnil
      omega
  | cons step stream ih =>
      rw [List.flatMap_cons, List.map_append, List.append_assoc] at h
      have hlater : ∀ before : List (Option Frag),
          (stream.flatMap (Step.packets pt)).map (fragOf pt) = before ++ run.map some ++ behind →
            ∃ step' ∈ step :: stream, ∃ ts, step'.received = [(bytesOf run, ts)] := by
        intro before' h'
        obtain ⟨step', hmem, hstep'⟩ := ih h'
        exact ⟨step', List.mem_cons_of_mem _ hmem, hstep'⟩
      rcases List.append_eq_append_iff.mp h with ⟨rest, -, hrest⟩ | ⟨own, hown, hrest⟩
      · exact hlater rest (by rw [hrest, List.append_assoc])
      by_cases hnone : own = []
      · exact hlater [] (by rw [hnone] at hrest; simpa using hrest.symm)
      -- the run begins within the packets of this step, with a start
      obtain ⟨f, fs, rfl⟩ := List.exists_cons_of_ne_nil hw.nonempty
      obtain ⟨o, os, rfl⟩ := List.exists_cons_of_ne_nil hnone
      obtain rfl : some f = o := by simpa using congrArg List.head? hrest
      have hstart := hw.starts f rfl
      rcases fragOf_step pt step with hstep | ⟨nal, first, mid, last, ts, hreceived, hstep⟩
      · have hmem : some f ∈ [none] := by rw [← hstep, hown]; simp
        simp at hmem
      · have hunit := fragmentsOf_window nal first mid last
        rw [hstep] at hown
        obtain ⟨w₁, w₂, hw₁₂, hw₁, hw₂⟩ := List.map_eq_append_iff.mp hown
        cases w₁ with
        | cons a w₁ =>
            obtain ⟨w₃, w₄, rfl, hf, -⟩ := List.map_eq_cons_iff.mp hw₂
            obtain rfl := Option.some.inj hf
            rw [hw₁₂] at hunit
            obtain ⟨-, -, hbehind⟩ := List.pairwise_append.mp hunit.inner
            have hno := (hbehind a List.mem_cons_self w₃ List.mem_cons_self).2
            rw [hstart] at hno
            cases hno
        | nil =>
            rw [List.nil_append] at hw₁₂
            rw [← hw₂, ← hw₁₂] at hrest
            have hframes := congrArg (List.filterMap id) hrest
            simp only [List.filterMap_append, List.filterMap_map, Function.id_comp, List.filterMap_some] at hframes
            have hsame := hw.prefix_unique hunit ⟨_, rfl⟩ ⟨_, hframes.symm⟩
            refine ⟨step, List.mem_cons_self, ts, ?_⟩
            rw [hsame, bytesOf_fragmentsOf, hreceived]

/-- Packets numbered one by one, as long as no number comes again. -/
structure Numbered (sent : List Bytes) : Prop where
  oneByOne : ∃ s₀ : UInt16, ∀ i (h : i < sent.length), seqOf sent[i] = s₀ + UInt16.ofNat i
  fresh : sent.length < 2 ^ 16

theorem Numbered.next {sent : List Bytes} (h : Numbered sent) {i j : Nat} (hi : i < sent.length)
    (hj : j < sent.length) (hseq : seqOf sent[j] = seqOf sent[i] + 1) : j = i + 1 := by
  obtain ⟨⟨s₀, hnum⟩, hfresh⟩ := h
  rw [hnum i hi, hnum j hj] at hseq
  have hnat := congrArg UInt16.toNat hseq
  simp only [UInt16.toNat_add, UInt16.toNat_ofNat', UInt16.toNat_one] at hnat
  omega

/-- Consecutive fragments of a sender's packets stand together there. -/
theorem Numbered.together {sent : List Bytes} (h : Numbered sent) {rtpPt : Int} {run : List Frag}
    (hne : run ≠ []) (hchain : run.IsChain Next) (hsent : ∀ f ∈ run, ∃ rtp ∈ sent, fragOf rtpPt rtp = some f) :
    ∃ before behind, sent.map (fragOf rtpPt) = before ++ run.map some ++ behind := by
  induction run with
  | nil => exact absurd rfl hne
  | cons f run ih =>
      obtain ⟨rtp, hmem, hf⟩ := hsent f List.mem_cons_self
      obtain ⟨i, hi, rfl⟩ := List.mem_iff_getElem.mp hmem
      cases run with
      | nil =>
          refine ⟨(sent.map (fragOf rtpPt)).take i, (sent.map (fragOf rtpPt)).drop (i + 1), ?_⟩
          rw [List.map_singleton, ← hf, List.append_assoc, List.singleton_append]
          have hi' : i < (sent.map (fragOf rtpPt)).length := by rwa [List.length_map]
          rw [← List.getElem_map (h := hi'), ← List.drop_eq_getElem_cons, List.take_append_drop]
      | cons g run =>
          obtain ⟨hnext, hchain'⟩ := List.isChain_cons_cons.mp hchain
          obtain ⟨before, behind, heq⟩ := ih (List.cons_ne_nil _ _) hchain'
            fun f' hf' => hsent f' (List.mem_cons_of_mem _ hf')
          have hj : before.length < sent.length := by
            have := congrArg List.length heq
            simp at this
            omega
          have hg : fragOf rtpPt sent[before.length] = some g := by
            have hat : (sent.map (fragOf rtpPt))[before.length]? = some (some g) := by
              rw [heq]
              simp
            simpa [List.getElem?_eq_getElem hj] using hat
          obtain ⟨-, -, -, hfseq⟩ := fragOf_some hf
          obtain ⟨-, -, -, hgseq⟩ := fragOf_some hg
          have hindex := h.next hi hj (by rw [← hfseq, ← hgseq]; exact hnext.1)
          obtain ⟨front, o, rfl⟩ : ∃ front o, before = front ++ [o] :=
            ⟨_, _, (List.dropLast_append_getLast (List.ne_nil_of_length_eq_add_one hindex)).symm⟩
          have hfront : front.length = i := by simpa using hindex
          have ho : o = some f := by
            have hat : (sent.map (fragOf rtpPt))[i]? = some o := by
              rw [heq, ← hfront]
              simp
            rw [List.getElem?_map, List.getElem?_eq_getElem hi, Option.map_some, hf] at hat
            exact (Option.some.inj hat).symm
          exact ⟨front, behind, by rw [heq, ho]; simp⟩

/-! ## The decoder emits whole units -/

/-- Every unit a fragment completes, in a stream from its beginning, consists of all fragments of one
unit, the last that came. -/
def EmitsWholeUnits (rtpPt : Int) (pkts : List Bytes) : Prop :=
  ∀ pre rtp post d queue out fu, pkts = pre ++ rtp :: post → Fragment rtpPt rtp →
    decodeAll rtpPt pre ⟨[], ⟨[], 0, false⟩⟩ = .ok d →
    decodeRtpH264 rtpPt rtp ⟨queue, d.fu⟩ = .ok ⟨queue ++ out, fu⟩ →
    ∀ nalu ∈ out, ∃ run, run <:+ (pre ++ [rtp]).filterMap (fragOf rtpPt) ∧ OneUnit run ∧
      nalu.data = bytesOf run

/-- What the decoder emits for a fragment is what the fragments in progress and it make up. -/
theorem decode_frag {rtpPt : Int} {pre : List Bytes} {rtp : Bytes} {f : Frag} {d : Demux}
    {queue out : List Nalu} {fu : FuState} (hf : fragOf rtpPt rtp = some f)
    (hd : decodeAll rtpPt pre ⟨[], ⟨[], 0, false⟩⟩ = .ok d)
    (hout : decodeRtpH264 rtpPt rtp ⟨queue, d.fu⟩ = .ok ⟨queue ++ out, fu⟩) :
    out.map Nalu.data = completed (inProgress (pre.filterMap (fragOf rtpPt))) f := by
  rw [decodeAll_ok] at hd
  obtain rfl := Except.ok.inj hd
  rw [decodeRtpH264_ok] at hout
  have hqueue := List.append_cancel_left (congrArg Demux.naluQueue (Except.ok.inj hout))
  have hprogress := @produceAll_inProgress rtpPt pre ⟨[], 0, false⟩ [] rfl
  rw [← hqueue]
  exact (produce_frag hf hprogress).1

theorem emitsWholeUnits_iff (rtpPt : Int) (pkts : List Bytes) :
    EmitsWholeUnits rtpPt pkts ↔ WholeUnits (pkts.filterMap (fragOf rtpPt)) := by
  constructor
  · intro h pre f post heq he hne
    obtain ⟨front, back, rfl, hfront, hback⟩ := List.filterMap_eq_append_iff.mp heq
    obtain ⟨others, rtp, behind, rfl, hothers, hf, -⟩ := List.filterMap_eq_cons_iff.mp hback
    have hpre : (front ++ others).filterMap (fragOf rtpPt) = pre := by
      rw [List.filterMap_append, hfront, List.filterMap_eq_nil_iff.mpr hothers, List.append_nil]
    obtain ⟨marker, hp, h28, -⟩ := fragOf_some hf
    have hd := decodeAll_ok rtpPt (front ++ others) ⟨[], ⟨[], 0, false⟩⟩
    have hout := decodeRtpH264_ok rtpPt rtp
      ⟨[], (produceAll rtpPt (front ++ others) ⟨[], 0, false⟩).2⟩
    have hdata := decode_frag hf hd hout
    rw [hpre, completed, if_pos (by simp [he, hne])] at hdata
    obtain ⟨nalu, hnalu⟩ : ∃ nalu, (produce rtpPt rtp
        (produceAll rtpPt (front ++ others) ⟨[], 0, false⟩).2).1 = [nalu] :=
      List.length_eq_one_iff.mp (by simpa using congrArg List.length hdata)
    obtain ⟨run, hsuffix, hrun, -⟩ := h (front ++ others) rtp behind _ [] _ _ (by simp)
      ⟨marker, f.ts, f.fuInd, f.fuHdr, f.body, hp, h28⟩ hd hout nalu (by rw [hnalu]; simp)
    rw [List.filterMap_append, hpre, List.filterMap_cons_some hf, List.filterMap_nil] at hsuffix
    obtain ⟨hjoined, hstarts, hinner⟩ := (inProgress_open pre).joined f
    have hwindow : Window (joinedWith (inProgress pre) f) :=
      ⟨hne, hstarts, fun g hg => by
        rw [getLast?_joinedWith hne] at hg
        obtain rfl := Option.some.inj hg
        exact he, hinner⟩
    rwa [hwindow.suffix_unique hrun.toWindow hjoined hsuffix]
  · intro h pre rtp post d queue out fu heq hfrag hd hout nalu hmem
    obtain ⟨f, hf⟩ : ∃ f, fragOf rtpPt rtp = some f := by
      cases hf : fragOf rtpPt rtp with
      | none => exact absurd hfrag (fragOf_none hf)
      | some f => exact ⟨f, rfl⟩
    have hdata := decode_frag hf hd hout
    have hin : nalu.data ∈ completed (inProgress (pre.filterMap (fragOf rtpPt))) f := by
      rw [← hdata]
      exact List.mem_map_of_mem hmem
    unfold completed at hin
    split_ifs at hin with hdone
    · simp only [Bool.and_eq_true, Bool.not_eq_true', List.isEmpty_eq_false_iff] at hdone
      have hframes : pkts.filterMap (fragOf rtpPt) =
          pre.filterMap (fragOf rtpPt) ++ f :: post.filterMap (fragOf rtpPt) := by
        rw [heq, List.filterMap_append, List.filterMap_cons_some hf]
      refine ⟨_, ?_, h _ f _ hframes hdone.1 hdone.2, List.mem_singleton.mp hin⟩
      rw [List.filterMap_append, List.filterMap_cons_some hf, List.filterMap_nil]
      exact ((inProgress_open _).joined f).1
    · cases hin

/-- Every unit that reassembly emits consists of all fragments of one unit exactly if the packets
received show no gap and no other timestamp from a start to the next end. Where they come from a
sender, such fragments hold one of its units. -/
theorem fragments_whole_iff (rtpPt : Int) (pkts : List Bytes) :
    (EmitsWholeUnits rtpPt pkts ↔ Gapless (pkts.filterMap (fragOf rtpPt))) ∧
      ∀ (pt : Fin 128) (stream : List Step) (run : List Frag), Numbered (stream.flatMap (Step.packets pt)) →
        (∀ f ∈ run, ∃ rtp ∈ stream.flatMap (Step.packets pt), fragOf pt rtp = some f) → OneUnit run →
        ∃ step ∈ stream, ∃ ts, step.received = [(bytesOf run, ts)] := by
  refine ⟨(emitsWholeUnits_iff rtpPt pkts).trans (wholeUnits_iff _), ?_⟩
  intro pt stream run hnumbered hsent hunit
  obtain ⟨before, behind, heq⟩ := hnumbered.together hunit.nonempty hunit.chain hsent
  exact window_of_stream pt hunit.toWindow heq

/-- The first fragment of a unit. -/
def startPacket : Bytes :=
  [0x80, 0x60, 0x00, 0x01, 0x00, 0x00, 0x23, 0x28, 0x00, 0x00, 0x00, 0x07, 0x7c, 0x85, 0x88]

/-- The last fragment of a later one. -/
def endPacket : Bytes :=
  [0x80, 0xe0, 0x00, 0x05, 0x00, 0x00, 0x31, 0x38, 0x00, 0x00, 0x00, 0x07, 0x7c, 0x45, 0x84]

/-- What was lost in between does not keep them from making a unit. -/
theorem fragments_whole_fails :
    decodeAll 96 [startPacket, endPacket] ⟨[], ⟨[], 0, false⟩⟩ =
        .ok ⟨[⟨[0x65, 0x88, 0x84], 9000, true⟩], ⟨[], 9000, false⟩⟩ ∧
      ¬ EmitsWholeUnits 96 [startPacket, endPacket] := by
  refine ⟨by decide +kernel, fun h => ?_⟩
  rw [emitsWholeUnits_iff, wholeUnits_iff] at h
  have hframes : [startPacket, endPacket].filterMap (fragOf 96) =
      [⟨1, 9000, 0x7c, 0x85, [0x88]⟩, ⟨5, 12600, 0x7c, 0x45, [0x84]⟩] := by decide +kernel
  rw [hframes] at h
  have hwindow : Window [⟨1, 9000, 0x7c, 0x85, [0x88]⟩, ⟨5, 12600, 0x7c, 0x45, [0x84]⟩] := by
    refine ⟨by simp, ?_, ?_, ?_⟩ <;> simp [Frag.isStart, Frag.isEnd] <;> decide
  obtain ⟨hnext, -⟩ := List.isChain_cons_cons.mp (h [] _ [] (by simp) hwindow)
  exact absurd hnext.1 (by decide)

end OpenBambu.Rtsp
