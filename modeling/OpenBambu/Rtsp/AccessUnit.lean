import OpenBambu.Rtsp.ParameterSets

/-!
# The parameter sets inside an access unit

A decoder expects the parameter sets of an access unit once and in front of its first slice. The
worker writes them in front of every IDR slice, so a picture of several IDR slices gets them in
between.
-/

namespace OpenBambu.Rtsp

open OpenBambu.Foundation
open DropQueue (Exit)

def isSps (nal : Bytes) : Bool := nal.head?.any nalIsSps

def isPps (nal : Bytes) : Bool := nal.head?.any nalIsPps

def isParameterSet (nal : Bytes) : Bool := isSps nal || isPps nal

/-- The types 1 to 5. -/
def isSlice (nal : Bytes) : Bool := nal.head?.any fun b => 1 ≤ nalType b && nalType b ≤ 5

/-- The NAL units `nals` are those of the group with one SPS and one PPS at most, neither behind a
slice. -/
structure WellPlaced (nals : List Bytes) (g : List Nalu) : Prop where
  oneSps : (nals.filter isSps).length ≤ 1
  onePps : (nals.filter isPps).length ≤ 1
  inFront : nals.Pairwise fun x y => isSlice x = true → isParameterSet y = false
  others : nals.filter (fun nal => !isParameterSet nal) = g.map Nalu.data

/-- No slice in front of an IDR slice. -/
def IdrFirst (g : List Nalu) : Prop := g.Pairwise fun m n => isSlice m.data = true → isIdr n = false

/-! ## One access unit -/

theorem kept_not_parameterSet {n : Nalu} (h : kept n = true) : isParameterSet n.data = false := by
  obtain ⟨nal0, rest, hd, hps⟩ := (kept_iff n).mp h
  simpa [isParameterSet, isSps, isPps, hd] using hps

theorem isSlice_of_isIdr {n : Nalu} (h : isIdr n = true) : isSlice n.data = true := by
  obtain ⟨nal0, nal, hd, -, -, h5⟩ := nalIs_of_isIdr h
  have htype : nalType nal0 = 5 := by simpa [nalIsIdr] using h5
  simp [isSlice, hd, htype]

/-- The sets written in front of an IDR. -/
def parameterSets (tr : H264Track) : List Bytes := [tr.sps, tr.pps].filter (· ≠ [])

theorem parameterSets_eq_nil {tr : H264Track} : parameterSets tr = [] ↔ tr.sps = [] ∧ tr.pps = [] := by
  by_cases hs : tr.sps = [] <;> by_cases hp : tr.pps = [] <;> simp [parameterSets, hs, hp]

theorem written_idr (tr : H264Track) {n : Nalu} (h : isIdr n = true) :
    written tr n = parameterSets tr ++ [n.data] := by
  rw [written, if_pos h, parameterSets]

theorem written_plain (tr : H264Track) {n : Nalu} (h : isIdr n = false) : written tr n = [n.data] := by
  rw [written, if_neg (by simp [h])]

theorem isSps_of_typed {tr : H264Track} (ht : tr.Typed) (hne : tr.sps ≠ []) :
    isSps tr.sps = true ∧ isPps tr.sps = false ∧ isSlice tr.sps = false := by
  obtain ⟨b, rest, hb⟩ := List.exists_cons_of_ne_nil hne
  have htype : nalType b = 7 := ht.sps b (by simp [hb])
  simp [isSps, isPps, isSlice, hb, nalIsSps, nalIsPps, htype]

theorem isPps_of_typed {tr : H264Track} (ht : tr.Typed) (hne : tr.pps ≠ []) :
    isPps tr.pps = true ∧ isSps tr.pps = false ∧ isSlice tr.pps = false := by
  obtain ⟨b, rest, hb⟩ := List.exists_cons_of_ne_nil hne
  have htype : nalType b = 8 := ht.pps b (by simp [hb])
  simp [isSps, isPps, isSlice, hb, nalIsSps, nalIsPps, htype]

theorem parameterSets_typed {tr : H264Track} (ht : tr.Typed) :
    ∀ nal ∈ parameterSets tr, isParameterSet nal = true ∧ isSlice nal = false := by
  intro nal hmem
  obtain ⟨hmem, hne⟩ := List.mem_filter.mp hmem
  have hne : nal ≠ [] := by simpa using hne
  rcases List.mem_pair.mp hmem with rfl | rfl
  · obtain ⟨hsps, -, hslice⟩ := isSps_of_typed ht hne
    exact ⟨by simp [isParameterSet, hsps], hslice⟩
  · obtain ⟨hpps, -, hslice⟩ := isPps_of_typed ht hne
    exact ⟨by simp [isParameterSet, hpps], hslice⟩

theorem parameterSets_once {tr : H264Track} (ht : tr.Typed) :
    ((parameterSets tr).filter isSps).length ≤ 1 ∧ ((parameterSets tr).filter isPps).length ≤ 1 := by
  by_cases hs : tr.sps = [] <;> by_cases hp : tr.pps = []
  · simp [parameterSets, hs, hp]
  · simp [parameterSets, hs, hp, isPps_of_typed ht hp]
  · simp [parameterSets, hs, hp, isSps_of_typed ht hs]
  · simp [parameterSets, hs, hp, isSps_of_typed ht hs, isPps_of_typed ht hp]

/-- A group whose NAL units are written as they are. -/
theorem written_plains {tr : H264Track} {g : List Nalu} (h : ∀ n ∈ g, written tr n = [n.data]) :
    g.flatMap (written tr) = g.map Nalu.data := by
  rw [List.flatMap_congr h, ← List.map_eq_flatMap]

/-- The sets, or none, in front of the first slice of a group. -/
theorem wellPlaced_sets {tr : H264Track} (ht : tr.Typed) {sets : List Bytes}
    (hsets : sets.Sublist (parameterSets tr)) {pre post : List Nalu} (hk : ∀ n ∈ pre ++ post, kept n = true)
    (hpre : ∀ n ∈ pre, isSlice n.data = false) :
    WellPlaced (pre.map Nalu.data ++ (sets ++ post.map Nalu.data)) (pre ++ post) := by
  have hdata : ∀ l : List Nalu, (∀ n ∈ l, n ∈ pre ++ post) → ∀ x ∈ l.map Nalu.data,
      isSps x = false ∧ isPps x = false := by
    intro l hl x hx
    obtain ⟨n, hn, rfl⟩ := List.mem_map.mp hx
    simpa [isParameterSet] using kept_not_parameterSet (hk n (hl n hn))
  have hpredata := hdata pre fun n hn => List.mem_append_left _ hn
  have hpostdata := hdata post fun n hn => List.mem_append_right _ hn
  have htyped : ∀ x ∈ sets, isParameterSet x = true ∧ isSlice x = false := fun x hx =>
    parameterSets_typed ht x (hsets.subset hx)
  obtain ⟨hsps, hpps⟩ := parameterSets_once ht
  have hfilter : ∀ p : Bytes → Bool, (∀ x ∈ pre.map Nalu.data, p x = false) →
      (∀ x ∈ post.map Nalu.data, p x = false) →
      (pre.map Nalu.data ++ (sets ++ post.map Nalu.data)).filter p = sets.filter p := by
    intro p h1 h2
    have hnil1 : (pre.map Nalu.data).filter p = [] := List.filter_eq_nil_iff.mpr (by simpa using h1)
    have hnil2 : (post.map Nalu.data).filter p = [] := List.filter_eq_nil_iff.mpr (by simpa using h2)
    rw [List.filter_append, List.filter_append, hnil1, hnil2, List.nil_append, List.append_nil]
  constructor
  · rw [hfilter isSps (fun x hx => (hpredata x hx).1) (fun x hx => (hpostdata x hx).1)]
    exact (hsets.filter isSps).length_le.trans hsps
  · rw [hfilter isPps (fun x hx => (hpredata x hx).2) (fun x hx => (hpostdata x hx).2)]
    exact (hsets.filter isPps).length_le.trans hpps
  · have hnone : ∀ l : List Bytes, (∀ x ∈ l, isSps x = false ∧ isPps x = false) → ∀ x ∈ l,
        isParameterSet x = false := fun l hl x hx => by simp [isParameterSet, hl x hx]
    have hpost : ∀ y ∈ post.map Nalu.data, isParameterSet y = false := hnone _ hpostdata
    refine List.pairwise_append.mpr ⟨?_, List.pairwise_append.mpr ⟨?_, ?_, ?_⟩, ?_⟩
    · exact List.pairwise_of_forall_mem_list fun x _ y hy _ => hnone _ hpredata y hy
    · exact List.pairwise_of_forall_mem_list fun x hx y _ hslice => absurd hslice (by simp [htyped x hx])
    · exact List.pairwise_of_forall_mem_list fun x _ y hy _ => hpost y hy
    · exact fun x _ y hy _ => hpost y hy
    · intro x hx y _ hslice
      obtain ⟨n, hn, rfl⟩ := List.mem_map.mp hx
      exact absurd hslice (by simp [hpre n hn])
  · have hstay : ∀ l : List Bytes, (∀ x ∈ l, isSps x = false ∧ isPps x = false) →
        l.filter (fun nal => !isParameterSet nal) = l := fun l hl =>
      List.filter_eq_self.mpr fun x hx => by simp [isParameterSet, hl x hx]
    have hgone : sets.filter (fun nal => !isParameterSet nal) = [] :=
      List.filter_eq_nil_iff.mpr fun x hx => by simp [htyped x hx]
    rw [List.filter_append, List.filter_append, hstay _ hpredata, hstay _ hpostdata, hgone, List.nil_append,
      List.map_append]

/-- Up to its first IDR slice a group is written as it is, and behind it too when it is the only one. -/
theorem idrFirst_split {g : List Nalu} (h : IdrFirst g) :
    (∀ n ∈ g, isIdr n = false) ∨ ∃ pre n post, g = pre ++ n :: post ∧ isIdr n = true ∧
      (∀ m ∈ pre, isIdr m = false ∧ isSlice m.data = false) ∧ ∀ m ∈ post, isIdr m = false := by
  induction g with
  | nil => exact Or.inl (by simp)
  | cons n g ih =>
      obtain ⟨hn, hg⟩ := List.pairwise_cons.mp h
      by_cases hidr : isIdr n = true
      · exact Or.inr ⟨[], n, g, rfl, hidr, by simp, fun m hm => hn m hm (isSlice_of_isIdr hidr)⟩
      · have hidr : isIdr n = false := by simpa using hidr
        rcases ih hg with hnone | ⟨pre, m, post, rfl, hm, hpre, hpost⟩
        · exact Or.inl (List.forall_mem_cons.mpr ⟨hidr, hnone⟩)
        · have hslice : isSlice n.data = false := by
            by_contra hc
            have hno := hn m (by simp) (by simpa using hc)
            rw [hm] at hno
            cases hno
          exact Or.inr ⟨n :: pre, m, post, rfl, hm, List.forall_mem_cons.mpr ⟨⟨hidr, hslice⟩, hpre⟩, hpost⟩

/-- The sets are in place exactly if there are none, or no slice comes in front of an IDR slice. -/
theorem wellPlaced_iff {tr : H264Track} (ht : tr.Typed) {g : List Nalu} (hk : ∀ n ∈ g, kept n = true) :
    WellPlaced (g.flatMap (written tr)) g ↔ parameterSets tr = [] ∨ IdrFirst g := by
  have hplain : (∀ n ∈ g, written tr n = [n.data]) → WellPlaced (g.flatMap (written tr)) g := by
    intro h
    rw [written_plains h]
    exact @wellPlaced_sets _ ht _ (List.nil_sublist _) [] g hk (by simp)
  constructor
  · intro h
    by_cases hsets : parameterSets tr = []
    · exact Or.inl hsets
    · refine Or.inr (List.pairwise_iff_forall_sublist.mpr fun {m n} hsub hslice => ?_)
      by_contra hidr
      have hidr : isIdr n = true := by simpa using hidr
      obtain ⟨x, rest, hx⟩ := List.exists_cons_of_ne_nil hsets
      have hm : [m.data].Sublist (written tr m) := by
        unfold written
        split_ifs
        · exact List.sublist_append_right _ _
        · exact List.Sublist.refl _
      have hn : [x].Sublist (written tr n) := by
        rw [written_idr tr hidr, hx]
        simp
      have hboth : [m.data, x].Sublist (g.flatMap (written tr)) := by
        have hwritten := hsub.flatMap (written tr)
        rw [List.flatMap_cons, List.flatMap_cons, List.flatMap_nil, List.append_nil] at hwritten
        exact (hm.append hn).trans hwritten
      have hnot := List.pairwise_iff_forall_sublist.mp h.inFront hboth hslice
      rw [(parameterSets_typed ht x (by simp [hx])).1] at hnot
      cases hnot
  · rintro (hsets | hfirst)
    · refine hplain fun n _ => ?_
      by_cases hidr : isIdr n = true
      · rw [written_idr tr hidr, hsets, List.nil_append]
      · exact written_plain tr (by simpa using hidr)
    · rcases idrFirst_split hfirst with hnone | ⟨pre, n, post, rfl, hidr, hpre, hpost⟩
      · exact hplain fun n hn => written_plain tr (hnone n hn)
      · rw [List.flatMap_append, List.flatMap_cons, written_idr tr hidr,
          written_plains fun m hm => written_plain tr (hpre m hm).1,
          written_plains fun m hm => written_plain tr (hpost m hm)]
        have hplaced := wellPlaced_sets ht (List.Sublist.refl _) hk fun m hm => (hpre m hm).2
        rw [List.map_cons] at hplaced
        rwa [List.append_assoc, List.singleton_append]

/-! ## Every sample of a run -/

theorem completeUnits_extend {read : List Nalu} {cs : List (List Nalu)} {g : List Nalu}
    (h : Splits cs g (read.filter kept)) (input : List Nalu) : cs <+: completeUnits (read ++ input) := by
  have hunits : accessUnits (read ++ input) = cs ++ (g ++ input.filter kept).splitBy sameUnit := by
    rw [accessUnits, List.filter_append, h.extend]
  unfold completeUnits
  split_ifs with hclosed
  · rw [hunits]
    exact List.prefix_append _ _
  · have hne : (g ++ input.filter kept).splitBy sameUnit ≠ [] := by
      intro hnil
      obtain ⟨rfl, hinput⟩ := List.append_eq_nil_iff.mp (List.splitBy_eq_nil.mp hnil)
      have hs : Splits cs [] ((read ++ input).filter kept) := by
        rw [List.filter_append, hinput, List.append_nil]
        exact h
      exact hclosed ((tailClosed_iff hs (holds_start sdpStart.track)).mpr rfl)
    rw [hunits, List.dropLast_append_of_ne_nil hne]
    exact List.prefix_append _ _

/-- Whatever the order of the turns and however far they have come, the samples queued so far are the
first complete access units, in Annex-B form, with the marker behind all of them. -/
theorem offered_prefix (tr : H264Track) (ending : Ending) (nalus : List Nalu) (es : List Turn) :
    (offered (turns tr ending es (.start nalus)).1 (turns tr ending es (.start nalus)).2).map Sample.bytes <+:
      (emittedNals tr nalus).map annexb ++ [[]] := by
  by_cases hend : (turns tr ending es (.start nalus)).1.ended = true
  · rw [offered_bytes tr ending nalus es hend]
  · have hf := turns_follows es (follows_start tr ending nalus)
    rw [List.nil_append] at hf
    obtain ⟨read, cs, g, hin, hs, hh, hu⟩ := hf.grouped
    rw [if_neg hend] at hu
    have hbytes : ∀ l : List Sample, l.map Sample.bytes = (l.map Sample.unit).map AccessUnit.bytes := by
      intro l
      rw [List.map_map]
      rfl
    have hunits : (emittedNals tr nalus).map annexb =
        ((completeUnits nalus).map (encode tr)).map AccessUnit.bytes := by
      rw [emittedNals, List.map_map, List.map_map]
      rfl
    have hcs : cs <+: completeUnits nalus := by
      rw [hin]
      exact completeUnits_extend hs _
    rw [hbytes, hunits]
    refine List.IsPrefix.trans ?_ (List.prefix_append _ _)
    refine List.IsPrefix.trans ?_ ((hcs.map (encode tr)).map AccessUnit.bytes)
    rw [← hu, List.map_append]
    exact List.prefix_append _ _

/-- For every accepted session description and every stream: what is queued are the complete access
units, and the parameter sets have their place in each of them exactly if the description has none
or no access unit has a slice in front of an IDR slice. -/
theorem parameterSets_placed_iff {sdp : Bytes} {tr : H264Track} {control : Bytes}
    (h : parseSdp sdp = .ok (tr, control)) (nalus : List Nalu) :
    (∀ ending es, (offered (turns tr ending es (.start nalus)).1
      (turns tr ending es (.start nalus)).2).map Sample.bytes <+: (emittedNals tr nalus).map annexb ++ [[]]) ∧
      ((∀ g ∈ completeUnits nalus, WellPlaced (g.flatMap (written tr)) g) ↔
        (tr.sps = [] ∧ tr.pps = []) ∨ ∀ g ∈ completeUnits nalus, IdrFirst g) := by
  have ht := parseSdp_typed h
  have hk : ∀ g ∈ completeUnits nalus, ∀ n ∈ g, kept n = true := by
    intro g hg n hn
    exact (List.mem_filter.mp ((completeUnits_flatten nalus).subset (List.mem_flatten_of_mem hg hn))).2
  refine ⟨fun ending es => offered_prefix tr ending nalus es, ?_⟩
  rw [← parameterSets_eq_nil]
  constructor
  · intro hplaced
    by_cases hsets : parameterSets tr = []
    · exact Or.inl hsets
    · exact Or.inr fun g hg => ((wellPlaced_iff ht (hk g hg)).mp (hplaced g hg)).resolve_left hsets
  · intro hcond g hg
    exact (wellPlaced_iff ht (hk g hg)).mpr (hcond.imp_right fun hfirst => hfirst g hg)

/-- A picture of one IDR slice behind an access unit delimiter. -/
def oneSlice : List Nalu := [⟨[0x09, 0x10], 9000, false⟩, ⟨[0x65, 0x88], 9000, true⟩]

/-- A picture of two IDR slices. -/
def twoSlices : List Nalu := [⟨[0x65, 0x88], 9000, false⟩, ⟨[0x65, 0x28], 9000, true⟩]

theorem withSets_parses : parseSdp sdpWithSets =
    .ok (⟨[0x67, 0x42, 0x00, 0x1f], [0x68, 0xce, 0x3c, 0x80], 90000, 96⟩, []) := by decide +kernel

theorem parameterSets_placed_oneSlice :
    completeUnits oneSlice = [oneSlice] ∧
      WellPlaced (oneSlice.flatMap (written ⟨[0x67, 0x42, 0x00, 0x1f], [0x68, 0xce, 0x3c, 0x80], 90000, 96⟩))
        oneSlice := by
  have hunits : completeUnits oneSlice = [oneSlice] := by decide +kernel
  refine ⟨hunits, (parameterSets_placed_iff withSets_parses oneSlice).2.mpr (Or.inr ?_) oneSlice ?_⟩
  · rw [hunits]
    simp [IdrFirst, oneSlice, isSlice, isIdr, nalType]
  · rw [hunits]
    exact List.mem_singleton_self _

/-- The second slice gets the parameter sets in front of it as well. -/
theorem parameterSets_placed_fails :
    parseSdp sdpWithSets = .ok (⟨[0x67, 0x42, 0x00, 0x1f], [0x68, 0xce, 0x3c, 0x80], 90000, 96⟩, []) ∧
      ∃ g ∈ completeUnits twoSlices,
        ¬ WellPlaced (g.flatMap (written ⟨[0x67, 0x42, 0x00, 0x1f], [0x68, 0xce, 0x3c, 0x80], 90000, 96⟩)) g := by
  refine ⟨withSets_parses, twoSlices, by decide +kernel, fun h => ?_⟩
  exact absurd h.oneSps (by decide +kernel)

end OpenBambu.Rtsp
