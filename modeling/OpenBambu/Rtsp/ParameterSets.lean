import OpenBambu.Rtsp.Passthrough

/-!
# Parameter sets in front of every IDR

A decoder keeps the last SPS and the last PPS it has seen and decodes an IDR with them. For
the source of the stream the session description counts as seen first. The passthrough writes
the sets of the session description in front of every IDR and drops those in the stream, so
a decoder that starts at a sample agrees with the source as long as these are the same.
-/

namespace OpenBambu.Rtsp

open OpenBambu.Foundation
open DropQueue (Exit)

/-- The parameter sets a decoder holds. -/
structure Held where
  sps : Option Bytes
  pps : Option Bytes
  deriving DecidableEq, Repr

/-- An IDR and the parameter sets it is decoded with. -/
structure Activation where
  idr : Bytes
  held : Held
  deriving DecidableEq, Repr

/-- An IDR decoded with an SPS and a PPS. -/
def decoded (idr sps pps : Bytes) : Activation := ⟨idr, ⟨some sps, some pps⟩⟩

def Held.none : Held := ⟨Option.none, Option.none⟩

/-- A decoder over NAL units: the IDRs it meets, with the sets it holds at each. -/
def activations : Held → List Bytes → List Activation
  | _, [] => []
  | h, [] :: nals => activations h nals
  | h, (nal0 :: nal) :: nals =>
      if nalIsSps nal0 then activations { h with sps := some (nal0 :: nal) } nals
      else if nalIsPps nal0 then activations { h with pps := some (nal0 :: nal) } nals
      else if nalIsIdr nal0 then ⟨nal0 :: nal, h⟩ :: activations h nals
      else activations h nals

/-- The parameter sets of the session description. -/
def H264Track.held (tr : H264Track) : Held :=
  ⟨if tr.sps = [] then none else some tr.sps, if tr.pps = [] then none else some tr.pps⟩

/-- The IDRs of the source, each with the parameter sets supplied last before it. -/
def supplied (tr : H264Track) (nalus : List Nalu) : List Activation :=
  activations tr.held (nalus.map Nalu.data)

/-- The access units that are complete when the stream ends. -/
def completeUnits (nalus : List Nalu) : List (List Nalu) :=
  if TailClosed nalus then accessUnits nalus else (accessUnits nalus).dropLast

/-- The NAL units of each sample. -/
def emittedNals (tr : H264Track) (nalus : List Nalu) : List (List Bytes) :=
  (completeUnits nalus).map fun g => g.flatMap (written tr)

/-- The IDRs of the samples, as a decoder sees them that knows nothing before the sample. -/
def emitted (tr : H264Track) (nalus : List Nalu) : List Activation :=
  (emittedNals tr nalus).flatMap (activations .none)

/-- Where the source has supplied both sets, every IDR in a sample comes with them. -/
def DecodesFromSync (tr : H264Track) (nalus : List Nalu) : Prop :=
  ∀ (i : Nat) (d x y : Bytes), (supplied tr nalus)[i]? = some (decoded d x y) →
    ∀ e ∈ (emitted tr nalus)[i]?, e = decoded d x y

/-- At every IDR of a complete access unit at which the source has supplied both sets, those
supplied last are those of the session description. -/
def SdpCurrent (tr : H264Track) (nalus : List Nalu) : Prop :=
  ∀ (i : Nat) (d x y : Bytes), i < ((completeUnits nalus).flatten.filter isIdr).length →
    (supplied tr nalus)[i]? = some (decoded d x y) → tr.sps = x ∧ tr.pps = y

/-! ## The samples of a run -/

theorem completeUnits_eq {tr : H264Track} {a : Assembler} {cs : List (List Nalu)} {g nalus : List Nalu}
    (hs : Splits cs g (nalus.filter kept)) (hh : Holds tr a g) : completeUnits nalus = cs := by
  unfold completeUnits
  by_cases ht : TailClosed nalus
  · have hg := (tailClosed_iff hs hh).1 ht
    subst hg
    rw [if_pos ht, accessUnits, hs.splitBy_eq_closed]
  · have hg : g ≠ [] := fun hc => ht ((tailClosed_iff hs hh).2 hc)
    rw [if_neg ht, accessUnits, hs.splitBy_eq hg hh.chain, List.dropLast_concat]

/-- Whatever the order of the turns, the samples of a run that has come to the end of the
stream are the complete access units in Annex-B form. -/
theorem offered_bytes (tr : H264Track) (ending : Ending) (nalus : List Nalu) (es : List Turn)
    (hend : (turns tr ending es (.start nalus)).1.ended = true) :
    (offered (turns tr ending es (.start nalus)).1 (turns tr ending es (.start nalus)).2).map Sample.bytes =
      (emittedNals tr nalus).map annexb ++ [[]] := by
  have hf := turns_follows es (follows_start tr ending nalus)
  rw [List.nil_append] at hf
  obtain ⟨read, cs, g, hin, hs, hh, hu⟩ := hf.grouped
  rw [if_pos hend] at hu
  obtain ⟨hnil, units, ho, hcs⟩ := hu
  rw [hnil, List.append_nil] at hin
  rw [← hin] at hs
  have hb : units.map Sample.bytes = (units.map Sample.unit).map AccessUnit.bytes := by
    rw [List.map_map]
    rfl
  rw [ho, List.map_append, hb, hcs, emittedNals, completeUnits_eq hs hh, List.map_map, List.map_map]
  cases ending <;> rfl

/-! ## What a decoder makes of a sample -/

theorem nalIs_of_isIdr {n : Nalu} (h : isIdr n = true) :
    ∃ nal0 nal, n.data = nal0 :: nal ∧ nalIsSps nal0 = false ∧ nalIsPps nal0 = false ∧
      nalIsIdr nal0 = true := by
  cases hd : n.data with
  | nil => simp [isIdr, hd] at h
  | cons nal0 nal =>
      have h5 : nalType nal0 = 5 := by simpa [isIdr, hd, nalIsIdr] using h
      refine ⟨nal0, nal, rfl, ?_, ?_, ?_⟩ <;> simp [nalIsSps, nalIsPps, nalIsIdr, h5]

theorem kept_of_isIdr {n : Nalu} (h : isIdr n = true) : kept n = true := by
  obtain ⟨nal0, nal, hd, h7, h8, -⟩ := nalIs_of_isIdr h
  rw [kept_iff]
  exact ⟨nal0, nal, hd, by simp [h7, h8]⟩

theorem activations_idr {n : Nalu} (h : isIdr n = true) (held : Held) (nals : List Bytes) :
    activations held (n.data :: nals) = ⟨n.data, held⟩ :: activations held nals := by
  obtain ⟨nal0, nal, hd, h7, h8, h5⟩ := nalIs_of_isIdr h
  rw [hd, activations]
  simp [h7, h8, h5]

theorem activations_plain {n : Nalu} (hk : kept n = true) (h : isIdr n = false) (held : Held)
    (nals : List Bytes) : activations held (n.data :: nals) = activations held nals := by
  obtain ⟨nal0, nal, hd, hps⟩ := (kept_iff n).1 hk
  have h5 : nalIsIdr nal0 = false := by rw [← isIdr_of_data hd, h]
  rw [Bool.or_eq_false_iff] at hps
  rw [hd, activations]
  simp [hps.1, hps.2, h5]

/-- What a decoder holds behind the sets written in front of an IDR. -/
theorem activations_sets {tr : H264Track} (ht : tr.Typed) {held : Held}
    (hs : tr.sps = [] → held.sps = none) (hp : tr.pps = [] → held.pps = none) (nals : List Bytes) :
    activations held ([tr.sps, tr.pps].filter (· ≠ []) ++ nals) = activations tr.held nals := by
  obtain ⟨s, p⟩ := held
  have h7 : ∀ b nal, tr.sps = b :: nal → nalIsSps b = true := by
    intro b nal h
    have := ht.sps b (by rw [h]; rfl)
    simp [nalIsSps, this]
  have h8 : ∀ b nal, tr.pps = b :: nal → nalIsSps b = false ∧ nalIsPps b = true := by
    intro b nal h
    have := ht.pps b (by rw [h]; rfl)
    simp [nalIsSps, nalIsPps, this]
  cases hsps : tr.sps with
  | nil =>
      cases hpps : tr.pps with
      | nil =>
          have h1 : s = none := hs hsps
          have h2 : p = none := hp hpps
          simp [H264Track.held, hsps, hpps, h1, h2]
      | cons b nal =>
          have h1 : s = none := hs hsps
          simp [activations, H264Track.held, hsps, hpps, h1, h8 b nal hpps]
  | cons c nal =>
      cases hpps : tr.pps with
      | nil =>
          have h2 : p = none := hp hpps
          simp [activations, H264Track.held, hsps, hpps, h2, h7 c nal hsps]
      | cons b nal' =>
          simp [activations, H264Track.held, hsps, hpps, h7 c nal hsps, h8 b nal' hpps]

theorem activations_written {tr : H264Track} (ht : tr.Typed) {g : List Nalu}
    (hk : ∀ n ∈ g, kept n = true) (held : Held) (hs : tr.sps = [] → held.sps = none)
    (hp : tr.pps = [] → held.pps = none) :
    activations held (g.flatMap (written tr)) = (g.filter isIdr).map fun n => ⟨n.data, tr.held⟩ := by
  induction g generalizing held with
  | nil => rfl
  | cons n g ih =>
      have hkg : ∀ m ∈ g, kept m = true := fun m hm => hk m (List.mem_cons_of_mem _ hm)
      rw [List.flatMap_cons]
      by_cases hi : isIdr n = true
      · have hw : written tr n = [tr.sps, tr.pps].filter (· ≠ []) ++ [n.data] := by
          rw [written, if_pos hi]
        rw [hw, List.append_assoc, activations_sets ht hs hp, List.singleton_append,
          activations_idr hi, ih hkg tr.held (by simp [H264Track.held]) (by simp [H264Track.held]),
          List.filter_cons_of_pos hi, List.map_cons]
      · have hw : written tr n = [n.data] := by rw [written, if_neg hi]
        rw [hw, List.singleton_append, activations_plain (hk n List.mem_cons_self) (by simpa using hi),
          ih hkg held hs hp, List.filter_cons_of_neg hi]

theorem completeUnits_flatten (nalus : List Nalu) :
    (completeUnits nalus).flatten <+: nalus.filter kept := by
  unfold completeUnits
  split_ifs
  · rw [accessUnits, List.flatten_splitBy]
  · have h := List.flatten_splitBy sameUnit (nalus.filter kept)
    cases hu : accessUnits nalus using List.reverseRecOn with
    | nil => simp
    | append_singleton cs g _ =>
        rw [List.dropLast_concat]
        rw [accessUnits] at hu
        rw [hu, List.flatten_append] at h
        rw [← h]
        exact List.prefix_append _ _

/-- In every sample the IDRs come with the sets of the session description. -/
theorem emitted_eq {tr : H264Track} (ht : tr.Typed) (nalus : List Nalu) :
    emitted tr nalus =
      ((completeUnits nalus).flatten.filter isIdr).map fun n => ⟨n.data, tr.held⟩ := by
  have hk : ∀ g ∈ completeUnits nalus, ∀ n ∈ g, kept n = true := by
    intro g hg n hn
    have hm : n ∈ nalus.filter kept :=
      (completeUnits_flatten nalus).subset (List.mem_flatten_of_mem hg hn)
    exact (List.mem_filter.1 hm).2
  unfold emitted emittedNals
  generalize completeUnits nalus = cs at hk
  induction cs with
  | nil => rfl
  | cons g cs ih =>
      have hg := activations_written ht (hk g List.mem_cons_self) .none (fun _ => rfl)
        (fun _ => rfl)
      rw [List.map_cons, List.flatMap_cons, hg, ih fun g' hg' => hk g' (List.mem_cons_of_mem _ hg'),
        List.flatten_cons, List.filter_append, List.map_append]

theorem activations_idrs (held : Held) (nalus : List Nalu) :
    (activations held (nalus.map Nalu.data)).map Activation.idr =
      (nalus.filter isIdr).map Nalu.data := by
  induction nalus generalizing held with
  | nil => rfl
  | cons n nalus ih =>
      rw [List.map_cons]
      by_cases hi : isIdr n = true
      · rw [activations_idr hi, List.filter_cons_of_pos hi, List.map_cons, List.map_cons, ih]
      · rw [List.filter_cons_of_neg hi]
        cases hd : n.data with
        | nil => exact ih held
        | cons nal0 nal =>
            have h5 : nalIsIdr nal0 = false := by rw [← isIdr_of_data hd]; simpa using hi
            rw [activations]
            split_ifs
            · exact ih _
            · exact ih _
            · exact absurd ‹_› (by simp [h5])
            · exact ih _

/-- The parameter sets a decoder holds are not empty. -/
theorem activations_nonempty (held : Held) (hs : held.sps ≠ some []) (hp : held.pps ≠ some [])
    {nals : List Bytes} {d x y : Bytes} (h : decoded d x y ∈ activations held nals) :
    x ≠ [] ∧ y ≠ [] := by
  induction nals generalizing held with
  | nil => simp [activations] at h
  | cons nal nals ih =>
      cases nal with
      | nil => exact ih held hs hp h
      | cons nal0 nal =>
          rw [activations] at h
          split_ifs at h
          · exact ih { held with sps := some (nal0 :: nal) } (by simp) hp h
          · exact ih { held with pps := some (nal0 :: nal) } hs (by simp) h
          · rcases List.mem_cons.1 h with he | he
            · cases he
              exact ⟨fun hc => hs (by rw [hc]), fun hc => hp (by rw [hc])⟩
            · exact ih held hs hp he
          · exact ih held hs hp h

theorem held_eq_decoded {tr : H264Track} {x y : Bytes} (hx : x ≠ []) (hy : y ≠ []) :
    tr.held = ⟨some x, some y⟩ ↔ tr.sps = x ∧ tr.pps = y := by
  unfold H264Track.held
  by_cases hs : tr.sps = []
  · rw [if_pos hs]
    constructor
    · intro h
      cases congrArg Held.sps h
    · rintro ⟨h, -⟩
      rw [hs] at h
      exact absurd h.symm hx
  · by_cases hp : tr.pps = []
    · rw [if_pos hp]
      constructor
      · intro h
        cases congrArg Held.pps h
      · rintro ⟨-, h⟩
        rw [hp] at h
        exact absurd h.symm hy
    · rw [if_neg hs, if_neg hp]
      simp

/-- The IDRs of the samples are the first ones of the source. -/
theorem emitted_idr {tr : H264Track} (ht : tr.Typed) {nalus : List Nalu} {i : Nat} {e a : Activation}
    (he : (emitted tr nalus)[i]? = some e) (ha : (supplied tr nalus)[i]? = some a) :
    e = ⟨a.idr, tr.held⟩ := by
  have hpre : (completeUnits nalus).flatten.filter isIdr <+: nalus.filter isIdr := by
    have h := (completeUnits_flatten nalus).filter isIdr
    have hk : (nalus.filter kept).filter isIdr = nalus.filter isIdr := by
      rw [List.filter_filter]
      apply List.filter_congr
      intro n _
      by_cases hi : isIdr n = true
      · simp [hi, kept_of_isIdr hi]
      · simp [hi]
    rwa [hk] at h
  rw [emitted_eq ht, List.getElem?_map, Option.map_eq_some_iff] at he
  obtain ⟨n, hn, rfl⟩ := he
  have hidr : (nalus.filter isIdr)[i]? = some n := by
    obtain ⟨rest, hrest⟩ := hpre
    rw [← hrest]
    exact List.getElem?_append_left (List.getElem?_eq_some_iff.1 hn).1 |>.trans hn
  have hmap := activations_idrs tr.held nalus
  have h1 := congrArg (fun l => l[i]?) hmap
  simp only [List.getElem?_map, hidr, Option.map_some] at h1
  rw [supplied] at ha
  rw [ha, Option.map_some, Option.some.injEq] at h1
  rw [h1]

/-- For every accepted session description and every stream, a decoder that starts at any
sample decodes every IDR with the parameter sets the source supplied last, exactly when these
are the sets of the session description. -/
theorem decodesFromSync_iff {sdp : Bytes} {tr : H264Track} {control : Bytes}
    (h : parseSdp sdp = .ok (tr, control)) (nalus : List Nalu) :
    (∀ ending es, (turns tr ending es (.start nalus)).1.ended = true →
      (offered (turns tr ending es (.start nalus)).1
        (turns tr ending es (.start nalus)).2).map Sample.bytes =
          (emittedNals tr nalus).map annexb ++ [[]]) ∧
      (DecodesFromSync tr nalus ↔ SdpCurrent tr nalus) := by
  have ht := parseSdp_typed h
  have hne : ∀ {i : Nat} {d x y : Bytes}, (supplied tr nalus)[i]? = some (decoded d x y) → x ≠ [] ∧ y ≠ [] := by
    intro i d x y hi
    have hs : tr.held.sps ≠ some [] := by
      unfold H264Track.held
      split_ifs <;> simp_all
    have hp : tr.held.pps ≠ some [] := by
      unfold H264Track.held
      split_ifs <;> simp_all
    exact activations_nonempty tr.held hs hp (List.mem_of_getElem? hi)
  refine ⟨fun ending es hend => offered_bytes tr ending nalus es hend, ?_⟩
  constructor
  · intro hd i d x y hi hs
    obtain ⟨e, he⟩ : ∃ e, (emitted tr nalus)[i]? = some e := by
      rw [emitted_eq ht]
      exact ⟨_, List.getElem?_eq_getElem (by rw [List.length_map]; exact hi)⟩
    have h1 := hd i d x y hs e he
    have h2 := emitted_idr ht he hs
    rw [h1, decoded] at h2
    obtain ⟨hx, hy⟩ := hne hs
    exact (held_eq_decoded hx hy).1 (congrArg Activation.held h2).symm
  · intro hc i d x y hs e he
    have hi : i < ((completeUnits nalus).flatten.filter isIdr).length := by
      rw [emitted_eq ht] at he
      obtain ⟨hl, -⟩ := List.getElem?_eq_some_iff.1 he
      rwa [List.length_map] at hl
    obtain ⟨hx, hy⟩ := hne hs
    rw [emitted_idr ht he hs, (held_eq_decoded hx hy).2 (hc i d x y hi hs)]
    rfl

/-! ## Two session descriptions -/

/-- A description with both parameter sets. -/
def sdpWithSets : Bytes :=
  ascii "m=video 0 RTP/AVP 96\r\na=rtpmap:96 H264/90000\r\n" ++
    ascii "a=fmtp:96 packetization-mode=1;sprop-parameter-sets=Z0IAHw==,aM48gA==\r\n"

/-- One that leaves them to the stream. -/
def sdpWithoutSets : Bytes := ascii "m=video 0 RTP/AVP 96\r\na=rtpmap:96 H264/90000\r\n"

def idrAlone : List Nalu := [⟨[0x65], 9000, true⟩]

/-- The same IDR behind parameter sets in the stream. -/
def idrBehindSets : List Nalu := ⟨[0x67, 0x42], 9000, false⟩ :: ⟨[0x68, 0xce], 9000, false⟩ :: idrAlone

theorem decodesFromSync_withSets :
    parseSdp sdpWithSets = .ok (⟨[0x67, 0x42, 0x00, 0x1f], [0x68, 0xce, 0x3c, 0x80], 90000, 96⟩, []) ∧
      DecodesFromSync ⟨[0x67, 0x42, 0x00, 0x1f], [0x68, 0xce, 0x3c, 0x80], 90000, 96⟩ idrAlone := by
  have h : parseSdp sdpWithSets =
      .ok (⟨[0x67, 0x42, 0x00, 0x1f], [0x68, 0xce, 0x3c, 0x80], 90000, 96⟩, []) := by decide +kernel
  refine ⟨h, (decodesFromSync_iff h idrAlone).2.2 ?_⟩
  intro i d x y hi hs
  have h0 : i = 0 := by
    have hl : ((completeUnits idrAlone).flatten.filter isIdr).length = 1 := by decide +kernel
    omega
  subst h0
  have hsup : (supplied ⟨[0x67, 0x42, 0x00, 0x1f], [0x68, 0xce, 0x3c, 0x80], 90000, 96⟩ idrAlone)[0]? =
      some (decoded [0x65] [0x67, 0x42, 0x00, 0x1f] [0x68, 0xce, 0x3c, 0x80]) := by decide +kernel
  rw [hsup] at hs
  cases hs
  exact ⟨rfl, rfl⟩

/-- Parameter sets that come only in the stream are dropped, and the IDR behind them is
written without any. -/
theorem decodesFromSync_withoutSets :
    parseSdp sdpWithoutSets = .ok (⟨[], [], 90000, 96⟩, []) ∧
      ¬ DecodesFromSync ⟨[], [], 90000, 96⟩ idrBehindSets := by
  refine ⟨by decide +kernel, ?_⟩
  intro h
  have he := h 0 [0x65] [0x67, 0x42] [0x68, 0xce] (by decide +kernel) ⟨[0x65], ⟨none, none⟩⟩
    (by decide +kernel)
  cases congrArg Activation.held he

end OpenBambu.Rtsp
