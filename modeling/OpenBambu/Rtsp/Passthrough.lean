import OpenBambu.Foundation.DropQueue
import OpenBambu.Rtsp.Sdp
import Mathlib.Data.List.SplitBy

/-!
# The passthrough worker

The worker of `stubs/rtsp_passthrough.cpp` assembles access units from the NAL units it reads,
in front of every IDR it puts the parameter sets of the session description, and queues the
units for `try_pull`. The consumer runs between any two critical sections of the worker, so
the system is a step function over the turns of the two. `accessUnits` is what the grouping
is for.
-/

namespace OpenBambu.Rtsp

open OpenBambu.Foundation
open DropQueue (Exit takenOf Accounts)

def kFlagSync : UInt32 := 1

def kMaxReadyQueue : Nat := 8

def kFlagEos : UInt32 := 0x100

def kFlagErr : UInt32 := 0x200

structure Sample where
  bytes : Bytes
  dt100ns : UInt64
  flags : UInt32
  deriving DecidableEq, Repr

def startCode : Bytes := [0, 0, 0, 1]

def appendAnnexb (out nal : Bytes) : Bytes := out ++ startCode ++ nal

def nalIsSps (nal0 : Byte) : Bool := nalType nal0 = 7

def nalIsPps (nal0 : Byte) : Bool := nalType nal0 = 8

def nalIsIdr (nal0 : Byte) : Bool := nalType nal0 = 5

/-! ## The assembler -/

/-- The locals of the worker. -/
structure Assembler where
  au : Bytes
  auTs : UInt32
  auOpen : Bool
  auHasIdr : Bool
  deriving DecidableEq, Repr

def Assembler.start : Assembler := ⟨[], 0, false, false⟩

/-- A sample before its time stamp. -/
structure AccessUnit where
  bytes : Bytes
  flags : UInt32
  deriving DecidableEq, Repr

/-- The locals behind `flush_au`, and what it queues. -/
def flushAu (a : Assembler) : Assembler × List AccessUnit :=
  let cleared := { a with au := [], auOpen := false, auHasIdr := false }
  if !a.auOpen || a.au.isEmpty then (cleared, [])
  else (cleared, [⟨a.au, if a.auHasIdr then kFlagSync else 0⟩])

/-- The unit is flushed when the timestamp changes. -/
def boundary (a : Assembler) (n : Nalu) : Assembler × List AccessUnit :=
  if a.auOpen && n.rtpTs90khz ≠ a.auTs then flushAu a else (a, [])

def openAu (a : Assembler) (n : Nalu) : Assembler :=
  if a.auOpen then a else { a with auOpen := true, auTs := n.rtpTs90khz }

/-- An IDR gets the cached parameter sets in front. -/
def appendNalu (tr : H264Track) (a : Assembler) (nal0 : Byte) (data : Bytes) : Assembler :=
  let a :=
    if nalIsIdr nal0 then
      let au := if tr.sps ≠ [] then appendAnnexb a.au tr.sps else a.au
      let au := if tr.pps ≠ [] then appendAnnexb au tr.pps else au
      { a with au := au, auHasIdr := true }
    else a
  { a with au := appendAnnexb a.au data }

/-- One NAL unit in the loop of the worker. -/
def feed (tr : H264Track) (a : Assembler) (n : Nalu) : Assembler × List AccessUnit :=
  match n.data with
  | [] => (a, [])
  | nal0 :: _ =>
      if nalIsSps nal0 || nalIsPps nal0 then (a, [])
      else
        let first := boundary a n
        let a := appendNalu tr (openAu first.1 n) nal0 n.data
        if n.auEnd then ((flushAu a).1, first.2 ++ (flushAu a).2) else (a, first.2)

/-! ## Worker and consumer -/

/-- How `read_nalu` ends the stream: 1, or -1 while no stop is under way. -/
inductive Ending where
  | eos
  | err
  deriving DecidableEq, Repr

def marker : Ending → Sample
  | .eos => ⟨[], 0, kFlagEos⟩
  | .err => ⟨[], 0, kFlagErr⟩

inductive PullResult where
  | ok (bytes : Bytes) (dt100ns : UInt64) (flags : UInt32)
  | wouldBlock
  | streamEnd
  | error
  deriving DecidableEq, Repr

/-- What `try_pull` makes of the sample it popped. -/
def pullResult (s : Sample) : PullResult :=
  if s.flags &&& kFlagEos ≠ 0 then .streamEnd
  else if s.flags &&& kFlagErr ≠ 0 then .error
  else .ok s.bytes s.dt100ns s.flags

def tryPull : List Sample → List Sample × PullResult
  | [] => ([], .wouldBlock)
  | s :: ready => (ready, pullResult s)

/-- The NAL units still to be read, the units flushed but not queued yet, whether the worker
has left its loop, and the queue. -/
structure Passthrough where
  input : List Nalu
  asm : Assembler
  outbox : List AccessUnit
  ended : Bool
  ready : List Sample
  deriving DecidableEq, Repr

def Passthrough.start (nalus : List Nalu) : Passthrough := ⟨nalus, .start, [], false, []⟩

/-- A turn of the worker at a clock reading in nanoseconds since `start`, or a `try_pull`. -/
inductive Turn where
  | work (ns : Nat)
  | pull
  deriving DecidableEq, Repr

def stamp (u : AccessUnit) (ns : Nat) : Sample := ⟨u.bytes, UInt64.ofNat (ns / 100), u.flags⟩

/-- One turn, with the samples that left the queue in it. -/
def turn (tr : H264Track) (ending : Ending) (s : Passthrough) : Turn → Passthrough × List (Exit Sample)
  | .pull =>
      match s.ready with
      | [] => (s, [])
      | x :: _ => ({ s with ready := (tryPull s.ready).1 }, [.taken x])
  | .work ns =>
      match s.outbox, s.input with
      | u :: outbox, _ =>
          let room := DropQueue.makeRoom kMaxReadyQueue s.ready
          ({ s with outbox := outbox, ready := room.1 ++ [stamp u ns] }, room.2)
      | [], n :: input =>
          ({ s with input := input, asm := (feed tr s.asm n).1, outbox := (feed tr s.asm n).2 }, [])
      | [], [] =>
          -- The marker goes in without making room.
          if s.ended then (s, []) else ({ s with ended := true, ready := s.ready ++ [marker ending] }, [])

/-- The state after the turns, and what left the queue during them. -/
def turns (tr : H264Track) (ending : Ending) : List Turn → Passthrough → Passthrough × List (Exit Sample)
  | [], s => (s, [])
  | e :: es, s =>
      let one := turn tr ending s e
      ((turns tr ending es one.1).1, one.2 ++ (turns tr ending es one.1).2)

/-! ## Access units -/

/-- A NAL unit that has bytes and is no parameter set. -/
def kept (n : Nalu) : Bool :=
  match n.data with
  | [] => false
  | nal0 :: _ => !(nalIsSps nal0 || nalIsPps nal0)

/-- Two NAL units in a row belong together unless the timestamp changes or the first one ends
its unit. -/
def sameUnit (a b : Nalu) : Bool := a.rtpTs90khz = b.rtpTs90khz && !a.auEnd

def accessUnits (nalus : List Nalu) : List (List Nalu) := (nalus.filter kept).splitBy sameUnit

def isIdr (n : Nalu) : Bool := n.data.head?.any nalIsIdr

/-- The NAL units written for one that was read. -/
def written (tr : H264Track) (n : Nalu) : List Bytes :=
  if isIdr n then [tr.sps, tr.pps].filter (· ≠ []) ++ [n.data] else [n.data]

def annexb (nals : List Bytes) : Bytes := nals.flatMap (startCode ++ ·)

/-- The sample an access unit has to become. -/
def encode (tr : H264Track) (g : List Nalu) : AccessUnit :=
  ⟨annexb (g.flatMap (written tr)), if g.any isIdr then kFlagSync else 0⟩

/-! ## The assembler groups the NAL units -/

@[simp] theorem annexb_nil : annexb [] = [] := rfl

@[simp] theorem annexb_append (a b : List Bytes) : annexb (a ++ b) = annexb a ++ annexb b :=
  List.flatMap_append

theorem annexb_cons (nal : Bytes) (nals : List Bytes) :
    annexb (nal :: nals) = startCode ++ nal ++ annexb nals := rfl

theorem appendAnnexb_eq (out nal : Bytes) : appendAnnexb out nal = out ++ annexb [nal] := by
  rw [appendAnnexb, annexb_cons, annexb_nil, List.append_nil, List.append_assoc]

theorem annexb_ne_nil {nals : List Bytes} (h : nals ≠ []) : annexb nals ≠ [] := by
  obtain ⟨nal, rest, rfl⟩ := List.exists_cons_of_ne_nil h
  rw [annexb_cons]
  simp [startCode]

theorem written_ne_nil (tr : H264Track) (n : Nalu) : written tr n ≠ [] := by
  unfold written
  split_ifs <;> simp

/-- The locals of the worker while the units of `g` are gathered. -/
structure Holds (tr : H264Track) (a : Assembler) (g : List Nalu) : Prop where
  au : a.au = annexb (g.flatMap (written tr))
  opened : a.auOpen = !g.isEmpty
  idr : a.auHasIdr = g.any isIdr
  ts : ∀ m ∈ g.getLast?, m.rtpTs90khz = a.auTs ∧ m.auEnd = false
  chain : g.IsChain fun x y => sameUnit x y

theorem holds_start (tr : H264Track) : Holds tr .start [] :=
  ⟨rfl, rfl, rfl, by simp, List.IsChain.nil⟩

/-- A flush hands over the units gathered so far and starts afresh. -/
theorem flushAu_full {tr : H264Track} {a : Assembler} {g : List Nalu}
    (hau : a.au = annexb (g.flatMap (written tr))) (ho : a.auOpen = true)
    (hi : a.auHasIdr = g.any isIdr) (hg : g ≠ []) :
    Holds tr (flushAu a).1 [] ∧ (flushAu a).2 = [encode tr g] := by
  have hne : a.au ≠ [] := by
    rw [hau]
    apply annexb_ne_nil
    obtain ⟨n, rest, rfl⟩ := List.exists_cons_of_ne_nil hg
    rw [List.flatMap_cons]
    simp [written_ne_nil]
  have he : a.au.isEmpty = false := by simpa using hne
  unfold flushAu
  rw [ho, he]
  refine ⟨⟨rfl, rfl, rfl, by simp, List.IsChain.nil⟩, ?_⟩
  simp [encode, hau, hi]

theorem isIdr_of_data {n : Nalu} {nal0 : Byte} {rest : Bytes} (h : n.data = nal0 :: rest) :
    isIdr n = nalIsIdr nal0 := by
  rw [isIdr, h]
  rfl

theorem appendNalu_au (tr : H264Track) (a : Assembler) {n : Nalu} {nal0 : Byte} {rest : Bytes}
    (h : n.data = nal0 :: rest) :
    (appendNalu tr a nal0 n.data).au = a.au ++ annexb (written tr n) := by
  unfold appendNalu written
  rw [isIdr_of_data h]
  by_cases hi : nalIsIdr nal0
  · by_cases hs : tr.sps = [] <;> by_cases hp : tr.pps = [] <;>
      simp [hi, hs, hp, appendAnnexb_eq, annexb_cons]
  · simp [hi, appendAnnexb_eq]

theorem appendNalu_rest (tr : H264Track) (a : Assembler) {n : Nalu} {nal0 : Byte} {rest : Bytes}
    (h : n.data = nal0 :: rest) :
    (appendNalu tr a nal0 n.data).auTs = a.auTs ∧ (appendNalu tr a nal0 n.data).auOpen = a.auOpen ∧
      (appendNalu tr a nal0 n.data).auHasIdr = (a.auHasIdr || isIdr n) := by
  unfold appendNalu
  rw [isIdr_of_data h]
  by_cases hi : nalIsIdr nal0 <;> simp [hi]

theorem kept_iff (n : Nalu) :
    kept n = true ↔ ∃ nal0 rest, n.data = nal0 :: rest ∧ (nalIsSps nal0 || nalIsPps nal0) = false := by
  unfold kept
  cases hd : n.data with
  | nil => simp
  | cons nal0 rest => simp

/-- A NAL unit that is not kept changes nothing. -/
theorem feed_skip (tr : H264Track) (a : Assembler) {n : Nalu} (h : kept n = false) :
    feed tr a n = (a, []) := by
  unfold kept at h
  unfold feed
  cases hd : n.data with
  | nil => rfl
  | cons nal0 rest =>
      rw [hd] at h
      simp only [Bool.not_eq_false'] at h
      simp [h]

/-- Groups `cs` that are complete, and the group `g` under way, of the NAL units `l`. -/
structure Splits (cs : List (List Nalu)) (g l : List Nalu) : Prop where
  flat : l = cs.flatten ++ g
  closed : cs.flatten.splitBy sameUnit = cs
  cut : ∀ x ∈ cs.flatten.getLast?, x.auEnd = true ∨ ∃ y ∈ g.head?, sameUnit x y = false

theorem sameUnit_of_auEnd {x : Nalu} (h : x.auEnd = true) (y : Nalu) : sameUnit x y = false := by
  simp [sameUnit, h]

namespace Splits

variable {cs : List (List Nalu)} {g l : List Nalu}

theorem nil : Splits [] [] [] := ⟨rfl, rfl, by simp⟩

/-- The group under way is the last group. -/
theorem splitBy_eq (h : Splits cs g l) (hg : g ≠ []) (hc : g.IsChain fun x y => sameUnit x y) :
    l.splitBy sameUnit = cs ++ [g] := by
  rw [h.flat, List.splitBy_append, h.closed, List.splitBy_of_isChain hg hc]
  intro x hx y hy
  rcases h.cut x hx with he | ⟨z, hz, hs⟩
  · exact sameUnit_of_auEnd he y
  · rw [Option.mem_unique hy hz]
    exact hs

theorem splitBy_eq_closed (h : Splits cs [] l) : l.splitBy sameUnit = cs := by
  rw [h.flat, List.append_nil, h.closed]

/-- The next NAL unit joins the group under way. -/
theorem join (h : Splits cs g l) (n : Nalu) (hg : g ≠ []) : Splits cs (g ++ [n]) (l ++ [n]) := by
  refine ⟨by rw [h.flat, List.append_assoc], h.closed, ?_⟩
  intro x hx
  rcases h.cut x hx with he | ⟨y, hy, hs⟩
  · exact Or.inl he
  · obtain ⟨z, rest, rfl⟩ := List.exists_cons_of_ne_nil hg
    exact Or.inr ⟨y, hy, hs⟩

/-- The group under way is complete and the next NAL unit starts another one. -/
theorem restart (h : Splits cs g l) (n : Nalu) (hg : g ≠ []) (hc : g.IsChain fun x y => sameUnit x y)
    (hs : ∀ x ∈ g.getLast?, sameUnit x n = false) : Splits (cs ++ [g]) [n] (l ++ [n]) := by
  have hflat : (cs ++ [g]).flatten = l := by
    rw [h.flat, List.flatten_append, List.flatten_singleton]
  refine ⟨by rw [hflat], by rw [hflat, h.splitBy_eq hg hc], ?_⟩
  intro x hx
  rw [hflat, h.flat, List.getLast?_append_of_ne_nil _ hg] at hx
  exact Or.inr ⟨n, rfl, hs x hx⟩

theorem first (h : Splits cs [] l) (n : Nalu) : Splits cs [n] (l ++ [n]) := by
  refine ⟨by rw [h.flat, List.append_nil], h.closed, ?_⟩
  intro x hx
  rcases h.cut x hx with he | ⟨y, hy, -⟩
  · exact Or.inl he
  · simp at hy

/-- The group under way is complete because its last NAL unit ends it. -/
theorem close (h : Splits cs g l) (hg : g ≠ []) (hc : g.IsChain fun x y => sameUnit x y)
    (he : ∀ x ∈ g.getLast?, x.auEnd = true) : Splits (cs ++ [g]) [] l := by
  have hflat : (cs ++ [g]).flatten = l := by
    rw [h.flat, List.flatten_append, List.flatten_singleton]
  refine ⟨by rw [hflat, List.append_nil], by rw [hflat, h.splitBy_eq hg hc], ?_⟩
  intro x hx
  rw [hflat, h.flat, List.getLast?_append_of_ne_nil _ hg] at hx
  exact Or.inl (he x hx)

end Splits

/-- The locals once `n` has been put behind the units of `g`. -/
structure Appended (tr : H264Track) (a : Assembler) (g : List Nalu) (n : Nalu) : Prop where
  au : a.au = annexb ((g ++ [n]).flatMap (written tr))
  opened : a.auOpen = true
  idr : a.auHasIdr = (g ++ [n]).any isIdr
  ts : a.auTs = n.rtpTs90khz
  chain : (g ++ [n]).IsChain fun x y => sameUnit x y

theorem appendNalu_appended {tr : H264Track} {a : Assembler} {g : List Nalu} {n : Nalu} {nal0 : Byte}
    {rest : Bytes} (h : Holds tr a g) (hd : n.data = nal0 :: rest)
    (hts : g ≠ [] → n.rtpTs90khz = a.auTs) :
    Appended tr (appendNalu tr (openAu a n) nal0 n.data) g n := by
  obtain ⟨hr1, hr2, hr3⟩ := appendNalu_rest tr (openAu a n) hd
  have hau : (openAu a n).au = a.au := by
    unfold openAu
    split_ifs <;> rfl
  have hidr : (openAu a n).auHasIdr = a.auHasIdr := by
    unfold openAu
    split_ifs <;> rfl
  have hopen : (openAu a n).auOpen = true ∧ (openAu a n).auTs = n.rtpTs90khz := by
    unfold openAu
    by_cases hg : g = []
    · have ho : a.auOpen = false := by rw [h.opened, hg]; rfl
      simp [ho]
    · have ho : a.auOpen = true := by rw [h.opened]; simpa using hg
      rw [if_pos ho]
      exact ⟨ho, (hts hg).symm⟩
  constructor
  · rw [appendNalu_au tr _ hd, hau, h.au, List.flatMap_append, annexb_append]
    simp
  · rw [hr2, hopen.1]
  · rw [hr3, hidr, h.idr, List.any_append]
    simp
  · rw [hr1, hopen.2]
  · rw [List.isChain_append]
    refine ⟨h.chain, List.isChain_singleton _, ?_⟩
    intro x hx y hy
    obtain ⟨h1, h2⟩ := h.ts x hx
    have hg : g ≠ [] := by
      rintro rfl
      simp at hx
    cases hy
    simp [sameUnit, h1, h2, hts hg]

/-- Behind the append the unit is closed where the NAL unit ends it, and stays open otherwise. -/
theorem append_spec {tr : H264Track} {a : Assembler} {cs : List (List Nalu)} {g l : List Nalu}
    {n : Nalu} (h : Appended tr a g n) (hs : Splits cs (g ++ [n]) l) :
    ∃ cs' g', Splits cs' g' l ∧
      Holds tr (if n.auEnd then (flushAu a).1 else a) g' ∧
      cs'.map (encode tr) = cs.map (encode tr) ++ (if n.auEnd then (flushAu a).2 else []) := by
  have hne : g ++ [n] ≠ [] := by simp
  by_cases he : n.auEnd = true
  · obtain ⟨hh, hu⟩ := flushAu_full h.au h.opened h.idr hne
    rw [if_pos he, if_pos he, hu]
    refine ⟨cs ++ [g ++ [n]], [], hs.close hne h.chain ?_, hh, by simp⟩
    intro x hx
    rw [List.getLast?_concat] at hx
    cases hx
    exact he
  · rw [if_neg he, if_neg he]
    refine ⟨cs, g ++ [n], hs, ⟨h.au, ?_, h.idr, ?_, h.chain⟩, by simp⟩
    · rw [h.opened]
      simp
    · intro m hm
      rw [List.getLast?_concat] at hm
      cases hm
      exact ⟨h.ts.symm, by simpa using he⟩

/-- One NAL unit: the groups completed by it are flushed, and the locals hold the rest. -/
theorem feed_spec {tr : H264Track} {a : Assembler} {cs : List (List Nalu)} {g l : List Nalu} (n : Nalu)
    (h : Holds tr a g) (hs : Splits cs g l) :
    ∃ cs' g', Splits cs' g' (l ++ [n].filter kept) ∧ Holds tr (feed tr a n).1 g' ∧
      cs'.map (encode tr) = cs.map (encode tr) ++ (feed tr a n).2 := by
  by_cases hk : kept n = true
  · obtain ⟨nal0, rest, hd, hps⟩ := (kept_iff n).1 hk
    have hf : [n].filter kept = [n] := by simp [hk]
    have hfeed : feed tr a n =
        ((if n.auEnd then (flushAu (appendNalu tr (openAu (boundary a n).1 n) nal0 n.data)).1
            else appendNalu tr (openAu (boundary a n).1 n) nal0 n.data),
          (boundary a n).2 ++
            if n.auEnd then (flushAu (appendNalu tr (openAu (boundary a n).1 n) nal0 n.data)).2 else []) := by
      unfold feed
      rw [hd]
      simp only [hps, Bool.false_eq_true, if_false]
      split_ifs <;> simp
    rw [hf, hfeed]
    by_cases hg : g = []
    · -- Nothing is open: no boundary, and the NAL unit starts a group.
      subst hg
      have ho : a.auOpen = false := h.opened
      have hb : boundary a n = (a, []) := by simp [boundary, ho]
      rw [hb]
      exact append_spec (appendNalu_appended h hd (by simp)) (hs.first n)
    · have ho : a.auOpen = true := by rw [h.opened]; simpa using hg
      by_cases hts : n.rtpTs90khz = a.auTs
      · have hb : boundary a n = (a, []) := by simp [boundary, hts]
        rw [hb]
        exact append_spec (appendNalu_appended h hd (fun _ => hts)) (hs.join n hg)
      · -- The timestamp changes: the open group is flushed first.
        have hb : boundary a n = flushAu a := by simp [boundary, ho, hts]
        obtain ⟨hh, hu⟩ := flushAu_full h.au ho h.idr hg
        have hcut : ∀ x ∈ g.getLast?, sameUnit x n = false := by
          intro x hx
          obtain ⟨h1, -⟩ := h.ts x hx
          simp only [sameUnit, h1, Bool.and_eq_false_imp, decide_eq_true_eq]
          intro hc
          exact absurd hc.symm hts
        rw [hb, hu]
        obtain ⟨cs', g', hs', hh', hu'⟩ :=
          append_spec (appendNalu_appended hh hd (by simp)) (hs.restart n hg h.chain hcut)
        refine ⟨cs', g', hs', hh', ?_⟩
        rw [hu']
        simp
  · have hk' : kept n = false := by simpa using hk
    rw [feed_skip tr a hk']
    exact ⟨cs, g, by simpa [hk'] using hs, h, by simp⟩

theorem feed_outbox_length (tr : H264Track) (a : Assembler) (n : Nalu) :
    (feed tr a n).2.length ≤ 2 := by
  have hflush : ∀ b : Assembler, (flushAu b).2.length ≤ 1 := by
    intro b
    unfold flushAu
    split_ifs <;> simp
  have hb : (boundary a n).2.length ≤ 1 := by
    unfold boundary
    split_ifs
    · exact hflush a
    · simp
  unfold feed
  cases n.data with
  | nil => simp
  | cons nal0 rest =>
      simp only
      split_ifs
      · simp
      · have hl := hflush (appendNalu tr (openAu (boundary a n).1 n) nal0 (nal0 :: rest))
        rw [List.length_append]
        omega
      · show (boundary a n).2.length ≤ 2
        omega

/-! ## Runs -/

def Sample.unit (s : Sample) : AccessUnit := ⟨s.bytes, s.flags⟩

/-- The samples queued so far: those that left the queue, and those still in it. -/
def offered (s : Passthrough) (exits : List (Exit Sample)) : List Sample :=
  exits.map Exit.entry ++ s.ready

/-- What every turn keeps. `cs` are the groups flushed so far, `g` the one in the accumulator. -/
structure Follows (tr : H264Track) (ending : Ending) (nalus : List Nalu) (s : Passthrough)
    (exits : List (Exit Sample)) : Prop where
  grouped : ∃ read cs g, nalus = read ++ s.input ∧ Splits cs g (read.filter kept) ∧ Holds tr s.asm g ∧
    if s.ended then
      s.input = [] ∧ ∃ units, offered s exits = units ++ [marker ending] ∧
        units.map Sample.unit = cs.map (encode tr)
    else (offered s exits).map Sample.unit ++ s.outbox = cs.map (encode tr)
  full : ∀ x n, Exit.dropped x n ∈ exits → kMaxReadyQueue ≤ n
  drained : s.ended = true → s.outbox = []
  unmarked : ∀ x n, Exit.dropped x n ∈ exits → x ≠ marker ending

theorem encode_flags (tr : H264Track) (g : List Nalu) :
    (encode tr g).flags = 1 ∨ (encode tr g).flags = 0 := by
  unfold encode kFlagSync
  split_ifs <;> simp

theorem marker_unit_ne (ending : Ending) (tr : H264Track) (g : List Nalu) :
    (marker ending).unit ≠ encode tr g := by
  intro h
  have hf : (marker ending).flags = (encode tr g).flags := congrArg AccessUnit.flags h
  rcases encode_flags tr g with he | he <;> rw [he] at hf <;> cases ending <;> revert hf <;> decide

theorem follows_start (tr : H264Track) (ending : Ending) (nalus : List Nalu) :
    Follows tr ending nalus (.start nalus) [] :=
  ⟨⟨[], [], [], rfl, Splits.nil, holds_start tr, rfl⟩, by simp, by simp [Passthrough.start], by simp⟩

theorem Follows.accounts {tr : H264Track} {ending : Ending} {nalus : List Nalu} {s : Passthrough}
    {exits : List (Exit Sample)} (h : Follows tr ending nalus s exits) :
    Accounts kMaxReadyQueue (offered s exits) exits s.ready := ⟨rfl, h.full⟩

theorem offered_ready_mem {s : Passthrough} {exits : List (Exit Sample)} {x : Sample} (h : x ∈ s.ready) :
    x ∈ offered s exits := List.mem_append_right _ h

/-- While the worker runs, everything in the queue is an access unit. -/
theorem Follows.ready_unit {tr : H264Track} {ending : Ending} {nalus : List Nalu} {s : Passthrough}
    {exits : List (Exit Sample)} (h : Follows tr ending nalus s exits) (hs : s.ended = false)
    {x : Sample} (hx : x ∈ s.ready) : ∃ g, x.unit = encode tr g := by
  obtain ⟨read, cs, g, -, -, -, hu⟩ := h.grouped
  rw [hs] at hu
  have hm : x.unit ∈ cs.map (encode tr) := by
    rw [← hu]
    apply List.mem_append_left
    exact List.mem_map_of_mem (offered_ready_mem hx)
  obtain ⟨g', -, hg'⟩ := List.mem_map.1 hm
  exact ⟨g', hg'.symm⟩

theorem pull_follows {tr : H264Track} {ending : Ending} {nalus : List Nalu} {s : Passthrough}
    {exits : List (Exit Sample)} (h : Follows tr ending nalus s exits) {x : Sample}
    {ready : List Sample} (hr : s.ready = x :: ready) :
    Follows tr ending nalus { s with ready := ready } (exits ++ [.taken x]) := by
  obtain ⟨read, cs, g, hin, hs, hh, hu⟩ := h.grouped
  have hacc : Accounts kMaxReadyQueue (offered s exits) (exits ++ [.taken x]) ready := by
    apply Accounts.take
    rw [← hr]
    exact h.accounts
  refine ⟨⟨read, cs, g, hin, hs, hh, ?_⟩, hacc.full, h.drained, ?_⟩
  · rw [offered, hacc.fifo]
    exact hu
  · intro y n hy
    exact h.unmarked y n (by simpa using hy)

/-- An access unit is put into the queue, and what it displaces is an access unit. -/
theorem queue_follows {tr : H264Track} {ending : Ending} {nalus : List Nalu} {s : Passthrough}
    {exits : List (Exit Sample)} (h : Follows tr ending nalus s exits) {u : AccessUnit}
    {outbox : List AccessUnit} (ho : s.outbox = u :: outbox) (ns : Nat) :
    Follows tr ending nalus
      { s with
        outbox := outbox
        ready := (DropQueue.makeRoom kMaxReadyQueue s.ready).1 ++ [stamp u ns] }
      (exits ++ (DropQueue.makeRoom kMaxReadyQueue s.ready).2) := by
  obtain ⟨read, cs, g, hin, hs, hh, hu⟩ := h.grouped
  have hend : s.ended = false := by
    by_contra hc
    have hnil := h.drained (by simpa using hc)
    rw [ho] at hnil
    cases hnil
  have hacc := h.accounts.makeRoom.append (stamp u ns)
  refine ⟨⟨read, cs, g, hin, hs, hh, ?_⟩, hacc.full, by simp [hend], ?_⟩
  · rw [offered, hacc.fifo]
    simp only [hend] at hu ⊢
    rw [ho] at hu
    rw [← hu, List.map_append, List.append_assoc]
    rfl
  · intro y n hy
    rcases List.mem_append.1 hy with hy | hy
    · exact h.unmarked y n hy
    · obtain ⟨z, m, he, -, hz⟩ := DropQueue.makeRoom_dropped hy
      cases he
      obtain ⟨g', hg'⟩ := h.ready_unit hend hz
      intro hm
      rw [hm] at hg'
      exact marker_unit_ne ending tr g' hg'

theorem read_follows {tr : H264Track} {ending : Ending} {nalus : List Nalu} {s : Passthrough}
    {exits : List (Exit Sample)} (h : Follows tr ending nalus s exits) (ho : s.outbox = []) {n : Nalu}
    {input : List Nalu} (hi : s.input = n :: input) :
    Follows tr ending nalus
      { s with input := input, asm := (feed tr s.asm n).1, outbox := (feed tr s.asm n).2 } exits := by
  obtain ⟨read, cs, g, hin, hs, hh, hu⟩ := h.grouped
  have hend : s.ended = false := by
    by_contra hc
    rw [if_pos (by simpa using hc)] at hu
    rw [hi] at hu
    cases hu.1
  obtain ⟨cs', g', hs', hh', hu'⟩ := feed_spec n hh hs
  refine ⟨⟨read ++ [n], cs', g', by rw [hin, hi, List.append_assoc]; rfl, ?_, hh', ?_⟩, h.full,
    by simp [hend], h.unmarked⟩
  · rw [List.filter_append]
    exact hs'
  · simp only [hend, offered] at hu ⊢
    rw [ho, List.append_nil] at hu
    rw [hu', ← hu]
    rfl

/-- The marker is put behind all access units. -/
theorem end_follows {tr : H264Track} {ending : Ending} {nalus : List Nalu} {s : Passthrough}
    {exits : List (Exit Sample)} (h : Follows tr ending nalus s exits) (ho : s.outbox = [])
    (hi : s.input = []) (hend : ¬ s.ended = true) :
    Follows tr ending nalus { s with ended := true, ready := s.ready ++ [marker ending] } exits := by
  obtain ⟨read, cs, g, hin, hs, hh, hu⟩ := h.grouped
  rw [if_neg hend, ho, List.append_nil] at hu
  refine ⟨⟨read, cs, g, hin, hs, hh, ?_⟩, h.full, fun _ => ho, h.unmarked⟩
  rw [if_pos rfl]
  exact ⟨hi, offered s exits, (h.accounts.append (marker ending)).fifo, hu⟩

theorem turn_follows {tr : H264Track} {ending : Ending} {nalus : List Nalu} {s : Passthrough}
    {exits : List (Exit Sample)} (h : Follows tr ending nalus s exits) (e : Turn) :
    Follows tr ending nalus (turn tr ending s e).1 (exits ++ (turn tr ending s e).2) := by
  cases e with
  | pull =>
      cases hr : s.ready with
      | nil =>
          have ht : turn tr ending s .pull = (s, []) := by simp [turn, hr]
          rw [ht, List.append_nil]
          exact h
      | cons x ready =>
          have ht : turn tr ending s .pull = ({ s with ready := ready }, [.taken x]) := by
            simp [turn, hr, tryPull]
          rw [ht]
          exact pull_follows h hr
  | work ns =>
      cases ho : s.outbox with
      | cons u outbox =>
          have ht : turn tr ending s (.work ns) =
              ({ s with
                  outbox := outbox
                  ready := (DropQueue.makeRoom kMaxReadyQueue s.ready).1 ++ [stamp u ns] },
                (DropQueue.makeRoom kMaxReadyQueue s.ready).2) := by
            simp [turn, ho]
          rw [ht]
          exact queue_follows h ho ns
      | nil =>
          cases hi : s.input with
          | cons n input =>
              have ht : turn tr ending s (.work ns) =
                  ({ s with input := input, asm := (feed tr s.asm n).1, outbox := (feed tr s.asm n).2 },
                    []) := by
                simp [turn, ho, hi]
              rw [ht, List.append_nil]
              exact read_follows h ho hi
          | nil =>
              by_cases hend : s.ended = true
              · have ht : turn tr ending s (.work ns) = (s, []) := by simp [turn, ho, hi, hend]
                rw [ht, List.append_nil]
                exact h
              · have ht : turn tr ending s (.work ns) =
                    ({ s with ended := true, ready := s.ready ++ [marker ending] }, []) := by
                  simp [turn, ho, hi, hend]
                rw [ht, List.append_nil]
                exact end_follows h ho hi hend

theorem turns_follows {tr : H264Track} {ending : Ending} {nalus : List Nalu} (es : List Turn)
    {s : Passthrough} {exits : List (Exit Sample)} (h : Follows tr ending nalus s exits) :
    Follows tr ending nalus (turns tr ending es s).1 (exits ++ (turns tr ending es s).2) := by
  induction es generalizing s exits with
  | nil =>
      rw [turns, List.append_nil]
      exact h
  | cons e es ih =>
      rw [turns, ← List.append_assoc]
      exact ih (turn_follows h e)

/-! ## What the consumer sees -/

def endResult : Ending → PullResult
  | .eos => .streamEnd
  | .err => .error

def okUnit : PullResult → Option AccessUnit
  | .ok bytes _ flags => some ⟨bytes, flags⟩
  | _ => none

/-- What the calls of `try_pull` that found a sample returned, in order. -/
def delivered (exits : List (Exit Sample)) : List PullResult := (takenOf exits).map pullResult

/-- The consumer gets the access units in order and then the end of the stream. Whatever it
misses left the queue from the front while eight samples or more were waiting. -/
structure Delivers (tr : H264Track) (ending : Ending) (nalus : List Nalu) (s : Passthrough)
    (exits : List (Exit Sample)) : Prop where
  inOrder : List.Sublist ((delivered exits).filterMap okUnit) ((accessUnits nalus).map (encode tr))
  fifo : (offered s exits).map Sample.unit <+:
    (accessUnits nalus).map (encode tr) ++ [(marker ending).unit]
  full : ∀ x n, Exit.dropped x n ∈ exits → kMaxReadyQueue ≤ n
  complete : s.ended = true → (offered s exits).map Sample.unit =
    (accessUnits nalus).map (encode tr) ++ [(marker ending).unit]
  once : ∃ units, (∀ r ∈ units, (okUnit r).isSome = true) ∧
    delivered exits = units ++ if s.ended && s.ready.isEmpty then [endResult ending] else []

theorem pullResult_unit {tr : H264Track} {x : Sample} {g : List Nalu} (h : x.unit = encode tr g) :
    okUnit (pullResult x) = some x.unit := by
  have hf : x.flags = 1 ∨ x.flags = 0 := by
    have he := encode_flags tr g
    rwa [← h] at he
  have h1 : x.flags &&& kFlagEos = 0 := by rcases hf with h | h <;> rw [h] <;> decide
  have h2 : x.flags &&& kFlagErr = 0 := by rcases hf with h | h <;> rw [h] <;> decide
  unfold pullResult
  rw [if_neg (by simpa using h1), if_neg (by simpa using h2)]
  rfl

theorem pullResult_marker (ending : Ending) : pullResult (marker ending) = endResult ending := by
  cases ending <;> rfl

theorem takenOf_subset {exits : List (Exit Sample)} {x : Sample} (h : x ∈ takenOf exits) :
    x ∈ exits.map Exit.entry := by
  obtain ⟨e, he, hx⟩ := List.mem_filterMap.1 h
  cases e with
  | taken y =>
      cases hx
      exact List.mem_map_of_mem he
  | dropped y n => cases hx

/-- Samples that are access units come out as such. -/
theorem delivered_units {tr : H264Track} (exits : List (Exit Sample))
    (h : ∀ x ∈ exits.map Exit.entry, ∃ g, x.unit = encode tr g) :
    (∀ r ∈ delivered exits, (okUnit r).isSome = true) ∧
      (delivered exits).filterMap okUnit = (takenOf exits).map Sample.unit := by
  have hok : ∀ x ∈ takenOf exits, okUnit (pullResult x) = some x.unit := by
    intro x hx
    obtain ⟨g, hg⟩ := h x (takenOf_subset hx)
    exact pullResult_unit hg
  constructor
  · intro r hr
    obtain ⟨x, hx, rfl⟩ := List.mem_map.1 hr
    rw [hok x hx]
    rfl
  · rw [delivered, List.filterMap_map, ← List.filterMap_eq_map]
    exact List.filterMap_congr hok

/-- Later NAL units leave the completed groups as they are. -/
theorem Splits.extend {cs : List (List Nalu)} {g l : List Nalu} (h : Splits cs g l) (m : List Nalu) :
    (l ++ m).splitBy sameUnit = cs ++ (g ++ m).splitBy sameUnit := by
  rw [h.flat, List.append_assoc, List.splitBy_append, h.closed]
  intro x hx y hy
  rcases h.cut x hx with he | ⟨z, hz, hs⟩
  · exact sameUnit_of_auEnd he y
  · obtain ⟨w, rest, rfl⟩ : ∃ w rest, g = w :: rest := by
      cases g with
      | nil => simp at hz
      | cons w rest => exact ⟨w, rest, rfl⟩
    cases hz
    cases hy
    exact hs

theorem accessUnits_extend {read : List Nalu} {cs : List (List Nalu)} {g : List Nalu}
    (h : Splits cs g (read.filter kept)) (input : List Nalu) :
    ∃ rest, accessUnits (read ++ input) = cs ++ rest := by
  refine ⟨(g ++ input.filter kept).splitBy sameUnit, ?_⟩
  rw [accessUnits, List.filter_append, h.extend]

/-- The last NAL unit that is no parameter set ends its access unit. -/
def TailClosed (nalus : List Nalu) : Prop := ∀ n ∈ (nalus.filter kept).getLast?, n.auEnd = true

instance (nalus : List Nalu) : Decidable (TailClosed nalus) := by
  unfold TailClosed
  infer_instance

/-- Nothing is left in the accumulator exactly when the last NAL unit ended its access unit. -/
theorem tailClosed_iff {tr : H264Track} {a : Assembler} {cs : List (List Nalu)} {g nalus : List Nalu}
    (hs : Splits cs g (nalus.filter kept)) (hh : Holds tr a g) : TailClosed nalus ↔ g = [] := by
  constructor
  · intro ht
    by_contra hg
    obtain ⟨n, hn⟩ : ∃ n, n ∈ g.getLast? := by
      cases hl : g.getLast? with
      | none => exact absurd (List.getLast?_eq_none_iff.1 hl) hg
      | some n => exact ⟨n, rfl⟩
    have h1 : n.auEnd = true := by
      apply ht n
      rw [hs.flat, List.getLast?_append_of_ne_nil _ hg]
      exact hn
    rw [(hh.ts n hn).2] at h1
    cases h1
  · rintro rfl n hn
    rw [hs.flat, List.append_nil] at hn
    rcases hs.cut n hn with he | ⟨y, hy, -⟩
    · exact he
    · simp at hy

/-- While the worker runs, every sample offered is a completed access unit. -/
theorem delivers_running {tr : H264Track} {ending : Ending} {nalus : List Nalu} {s : Passthrough}
    {exits : List (Exit Sample)} (h : Follows tr ending nalus s exits) (hend : s.ended = false) :
    Delivers tr ending nalus s exits := by
  obtain ⟨read, cs, g, hin, hs, hh, hu⟩ := h.grouped
  simp only [hend, Bool.false_eq_true, if_false] at hu
  obtain ⟨rest, hrest⟩ := accessUnits_extend hs s.input
  rw [← hin] at hrest
  have hpre : (offered s exits).map Sample.unit <+: (accessUnits nalus).map (encode tr) := by
    rw [hrest, List.map_append, ← hu, List.append_assoc]
    exact List.prefix_append _ _
  have hunits : ∀ x ∈ exits.map Exit.entry, ∃ g, x.unit = encode tr g := by
    intro x hx
    have hm : x.unit ∈ (accessUnits nalus).map (encode tr) := by
      apply hpre.subset
      exact List.mem_map_of_mem (List.mem_append_left _ hx)
    obtain ⟨g', -, hg'⟩ := List.mem_map.1 hm
    exact ⟨g', hg'.symm⟩
  obtain ⟨hok, hun⟩ := delivered_units exits hunits
  constructor
  · rw [hun]
    exact (h.accounts.takenOf_sublist.map Sample.unit).trans hpre.sublist
  · exact hpre.trans (List.prefix_append _ _)
  · exact h.full
  · intro hc
    rw [hend] at hc
    cases hc
  · exact ⟨delivered exits, hok, by simp [hend]⟩

/-- Behind the marker nothing is offered any more. What left the queue is a part of the access
units, or all of them and the marker. -/
theorem exits_ended {ending : Ending} {s : Passthrough} {exits : List (Exit Sample)}
    {units : List Sample} (h : offered s exits = units ++ [marker ending]) :
    (s.ready = [] ∧ exits.map Exit.entry = units ++ [marker ending]) ∨
      (s.ready ≠ [] ∧ exits.map Exit.entry <+: units) := by
  by_cases hr : s.ready = []
  · left
    refine ⟨hr, ?_⟩
    rw [← h, offered, hr, List.append_nil]
  · right
    refine ⟨hr, ?_⟩
    obtain ⟨ready, x, hx⟩ := List.eq_nil_or_concat s.ready |>.resolve_left hr
    rw [offered, hx, List.concat_eq_append, ← List.append_assoc] at h
    have hl := List.append_inj_left' h rfl
    rw [← hl]
    exact List.prefix_append _ _

/-- The marker is the last thing to leave the queue, and the consumer reads it. -/
theorem taken_marker {ending : Ending} {exits : List (Exit Sample)} {units : List Sample}
    (h : exits.map Exit.entry = units ++ [marker ending])
    (hd : ∀ x n, Exit.dropped x n ∈ exits → x ≠ marker ending) :
    ∃ before, exits = before ++ [.taken (marker ending)] ∧ before.map Exit.entry = units := by
  have hne : exits ≠ [] := by
    rintro rfl
    simp at h
  obtain ⟨before, e, rfl⟩ := List.eq_nil_or_concat exits |>.resolve_left hne
  rw [List.concat_eq_append, List.map_append] at h
  obtain ⟨hb, he⟩ := List.append_inj' h rfl
  have hem : e.entry = marker ending := by simpa using he
  refine ⟨before, ?_, hb⟩
  cases e with
  | taken x =>
      have hx : x = marker ending := hem
      rw [hx, List.concat_eq_append]
  | dropped x n => exact absurd hem (hd x n (by simp))

theorem delivers_ended {tr : H264Track} {ending : Ending} {nalus : List Nalu} {s : Passthrough}
    {exits : List (Exit Sample)} (h : Follows tr ending nalus s exits) (hend : s.ended = true)
    {units : List Sample} (ho : offered s exits = units ++ [marker ending])
    (hu : units.map Sample.unit = (accessUnits nalus).map (encode tr)) :
    Delivers tr ending nalus s exits := by
  have hall : ∀ x ∈ units, ∃ g, x.unit = encode tr g := by
    intro x hx
    have hm : x.unit ∈ (accessUnits nalus).map (encode tr) := by
      rw [← hu]
      exact List.mem_map_of_mem hx
    obtain ⟨g', -, hg'⟩ := List.mem_map.1 hm
    exact ⟨g', hg'.symm⟩
  have hcomplete : (offered s exits).map Sample.unit =
      (accessUnits nalus).map (encode tr) ++ [(marker ending).unit] := by
    rw [ho, List.map_append, hu]
    rfl
  have hfifo : (offered s exits).map Sample.unit <+:
      (accessUnits nalus).map (encode tr) ++ [(marker ending).unit] := by
    rw [hcomplete]
  rcases exits_ended ho with ⟨hr, hexits⟩ | ⟨hr, hpre⟩
  · -- The consumer has read everything that was left, the marker last.
    obtain ⟨before, rfl, hb⟩ := taken_marker hexits h.unmarked
    obtain ⟨hok, hun⟩ := delivered_units before (by rw [hb]; exact hall)
    have hd : delivered (before ++ [.taken (marker ending)]) = delivered before ++ [endResult ending] := by
      rw [delivered, DropQueue.takenOf_append, List.map_append, DropQueue.takenOf_taken, List.map_singleton,
        pullResult_marker]
      rfl
    have hnone : okUnit (endResult ending) = none := by cases ending <;> rfl
    refine ⟨?_, hfifo, h.full, fun _ => hcomplete, delivered before, hok, ?_⟩
    · rw [hd, List.filterMap_append, hun, List.filterMap_cons_none hnone, List.filterMap_nil,
        List.append_nil, ← hu, ← hb]
      exact (DropQueue.takenOf_sublist_entries before).map _
    · rw [hd, hend, hr]
      rfl
  · obtain ⟨hok, hun⟩ := delivered_units exits fun x hx => hall x (hpre.subset hx)
    refine ⟨?_, hfifo, h.full, fun _ => hcomplete, delivered exits, hok, ?_⟩
    · rw [hun, ← hu]
      exact ((DropQueue.takenOf_sublist_entries exits).trans hpre.sublist).map _
    · simp [hr]

/-! ## The worker comes to the end of the stream -/

/-- How many turns of the worker are left, at most. -/
def turnsLeft (s : Passthrough) : Nat := 3 * s.input.length + s.outbox.length

theorem turn_progress (tr : H264Track) (ending : Ending) {s : Passthrough} (ns : Nat)
    (h : s.ended = false) :
    (turn tr ending s (.work ns)).1.ended = true ∨
      ((turn tr ending s (.work ns)).1.ended = false ∧
        turnsLeft (turn tr ending s (.work ns)).1 < turnsLeft s) := by
  cases ho : s.outbox with
  | cons u outbox =>
      right
      simp [turn, ho, h, turnsLeft]
  | nil =>
      cases hi : s.input with
      | cons n input =>
          right
          have hl := feed_outbox_length tr s.asm n
          simp only [turn, ho, hi, h, turnsLeft, List.length_cons, List.length_nil]
          refine ⟨trivial, ?_⟩
          omega
      | nil =>
          left
          simp [turn, ho, hi, h]

/-- From every state the worker can run to the end of the stream. -/
theorem turns_ended (tr : H264Track) (ending : Ending) (s : Passthrough) :
    ∃ es, (turns tr ending es s).1.ended = true := by
  generalize hn : turnsLeft s = n
  induction n using Nat.strong_induction_on generalizing s with
  | _ n ih =>
      by_cases hs : s.ended = true
      · exact ⟨[], hs⟩
      · rcases turn_progress tr ending 0 (by simpa using hs) with he | ⟨-, hlt⟩
        · exact ⟨[.work 0], he⟩
        · obtain ⟨es, hes⟩ := ih _ (hn ▸ hlt) (turn tr ending s (.work 0)).1 rfl
          exact ⟨.work 0 :: es, hes⟩

/-- Whatever the order of the turns, the consumer gets the access units and the end of the
stream as described, exactly for the streams whose last NAL unit ends its access unit: the
worker leaves its loop without flushing the unit in the accumulator. -/
theorem passthrough_delivers_iff (tr : H264Track) (ending : Ending) (nalus : List Nalu) :
    (∀ es, Delivers tr ending nalus (turns tr ending es (.start nalus)).1
      (turns tr ending es (.start nalus)).2) ↔ TailClosed nalus := by
  have hf : ∀ es, Follows tr ending nalus (turns tr ending es (.start nalus)).1
      (turns tr ending es (.start nalus)).2 := by
    intro es
    have h := turns_follows es (follows_start tr ending nalus)
    rwa [List.nil_append] at h
  constructor
  · intro h
    obtain ⟨es, hend⟩ := turns_ended tr ending (.start nalus)
    obtain ⟨read, cs, g, hin, hs, hh, hu⟩ := (hf es).grouped
    rw [if_pos hend] at hu
    obtain ⟨hnil, units, ho, hcs⟩ := hu
    rw [hnil, List.append_nil] at hin
    rw [← hin] at hs
    rw [tailClosed_iff hs hh]
    by_contra hg
    -- The group in the accumulator is one of the access units, and was not offered.
    have hacc : accessUnits nalus = cs ++ [g] := hs.splitBy_eq hg hh.chain
    have hc := congrArg List.length ((h es).complete hend)
    rw [ho, hacc] at hc
    have hl := congrArg List.length hcs
    simp only [List.length_map, List.length_append, List.length_singleton] at hc hl
    omega
  · intro ht es
    by_cases hend : (turns tr ending es (.start nalus)).1.ended = true
    · obtain ⟨read, cs, g, hin, hs, hh, hu⟩ := (hf es).grouped
      rw [if_pos hend] at hu
      obtain ⟨hnil, units, ho, hcs⟩ := hu
      rw [hnil, List.append_nil] at hin
      rw [← hin] at hs
      have hg := (tailClosed_iff hs hh).1 ht
      subst hg
      apply delivers_ended (hf es) hend ho
      rw [hcs, accessUnits, hs.splitBy_eq_closed]
    · exact delivers_running (hf es) (by simpa using hend)

/-- A stream that breaks off in the middle of an access unit. -/
theorem passthrough_drops_tail :
    ¬ ∀ es, Delivers ⟨[], [], 90000, 96⟩ .eos [⟨[0x41], 9000, false⟩]
      (turns ⟨[], [], 90000, 96⟩ .eos es (.start [⟨[0x41], 9000, false⟩])).1
      (turns ⟨[], [], 90000, 96⟩ .eos es (.start [⟨[0x41], 9000, false⟩])).2 := by
  intro h
  have hc := (h [.work 0, .work 0]).complete (by decide)
  revert hc
  decide

end OpenBambu.Rtsp
