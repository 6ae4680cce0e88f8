import OpenBambu.Rtsp.Interleaved

/-!
# A status line whose first byte was read ahead

`read_response` of `stubs/rtsp_client.cpp` with and without the byte `await_response` has peeked, and
`ssl_read_line` of `tls_dial.cpp`. The loop for the rest of a peeked line is a copy of `ssl_read_line`
that goes on where the original gives up: at the limit it just ends. Here every read says where it
leaves the stream, also when it fails.
-/

namespace OpenBambu.Rtsp

open OpenBambu.Foundation

def lineTooLong : ReadEnd := .failed (ascii "ssl_read_line: line exceeded max_len")

/-- The loop of `ssl_read_line`. -/
def sslReadLineLoop (e : WireEnd) (prev : Byte) (out : Bytes) : Bytes → Except ReadEnd Bytes × Bytes
  | [] => (.error (if out.length < kMaxLine then e.readEnd else lineTooLong), [])
  | c :: s =>
      if out.length < kMaxLine then
        if prev = Ascii.cr ∧ c = Ascii.lf then (.ok out.dropLast, s)
        else sslReadLineLoop e c (out ++ [c]) s
      else (.error lineTooLong, c :: s)

def sslReadLineAt (e : WireEnd) (s : Bytes) : Except ReadEnd Bytes × Bytes := sslReadLineLoop e 0 [] s

/-- The loop of `read_response` behind a prefetched byte. -/
def prefetchLoop (e : WireEnd) (prev : Byte) (line : Bytes) : Bytes → Except ReadEnd Bytes × Bytes
  | [] => (if line.length < kMaxLine then .error e.readEnd else .ok line, [])
  | c :: s =>
      if line.length < kMaxLine then
        if prev = Ascii.cr ∧ c = Ascii.lf then (.ok line.dropLast, s)
        else prefetchLoop e c (line ++ [c]) s
      else (.ok line, c :: s)

/-- The loop over the header lines. -/
def headersAt (e : WireEnd) : Nat → List (Bytes × Bytes) → Nat → Bytes →
    Except ReadEnd (List (Bytes × Bytes) × Nat) × Bytes
  | 0, _, _, s => (.error (.halt .hang), s)
  | fuel + 1, hs, n, s =>
      match sslReadLineAt e s with
      | (.error x, s) => (.error x, s)
      | (.ok line, s) =>
          if line = [] then (.ok (hs, n), s)
          else headersAt e fuel (hs ++ (headerOf line).toList) (lengthAfter n (headerOf line)) s

def bodyAt (e : WireEnd) (n : Nat) (s : Bytes) : Except ReadEnd Bytes × Bytes :=
  if kMaxResponseBody < n then (.error (.failed (ascii "rtsp: response body exceeds cap")), s)
  else if n ≤ s.length then (.ok (s.take n), s.drop n)
  else (.error e.readEnd, [])

/-- A status line and what follows it. -/
def behindStatus (e : WireEnd) (line s : Bytes) : Except ReadEnd Response × Bytes :=
  if line.length < 12 ∨ line.take 7 ≠ ascii "RTSP/1." then
    (.error (.failed (ascii "rtsp: malformed status line: " ++ line)), s)
  else
    match cut Ascii.sp (line.drop 9) with
    | none => (.error (.failed (ascii "rtsp: status line missing reason")), s)
    | some (code, reason) =>
        match headersAt e (s.length + 1) [] 0 s with
        | (.error x, s) => (.error x, s)
        | (.ok (hs, n), s) =>
            match bodyAt e n s with
            | (.error x, s) => (.error x, s)
            | (.ok body, s) => (.ok ⟨atoi code, trim reason, hs, body⟩, s)

def readResponseAt (e : WireEnd) (prefetch : Option Byte) (s : Bytes) : Except ReadEnd Response × Bytes :=
  let line :=
    match prefetch with
    | some c => prefetchLoop e c [c] s
    | none => sslReadLineAt e s
  match line with
  | (.error x, s) => (.error x, s)
  | (.ok line, s) => behindStatus e line s

/-! ## The status line -/

/-- The limit comes before the end of the line. -/
structure Overlong (t : Bytes) : Prop where
  full : kMaxLine ≤ t.length
  plain : ¬ crlf <:+: t.take kMaxLine

theorem not_crlf_snoc {out : Bytes} {prev c : Byte} (hout : ¬ crlf <:+: out) (hlast : out.getLast? = some prev)
    (hc : ¬ (prev = Ascii.cr ∧ c = Ascii.lf)) : ¬ crlf <:+: out ++ [c] := by
  rintro ⟨a, b, hab⟩
  cases b using List.reverseRecOn with
  | nil =>
      rw [List.append_nil, crlf, show a ++ [Ascii.cr, Ascii.lf] = (a ++ [Ascii.cr]) ++ [Ascii.lf] by simp] at hab
      obtain ⟨hout', hlf⟩ := List.append_inj' hab rfl
      rw [← hout', List.getLast?_concat] at hlast
      exact hc ⟨(Option.some.inj hlast).symm, (List.singleton_inj.mp hlf).symm⟩
  | append_singleton b d =>
      rw [← List.append_assoc] at hab
      exact hout ⟨a, b, (List.append_inj' hab rfl).1⟩

/-- Within the limit the two loops are one. -/
theorem prefetchLoop_eq (e : WireEnd) {prev : Byte} {out s : Bytes} (hshort : out.length ≤ kMaxLine)
    (hlast : out.getLast? = some prev) (hplain : ¬ crlf <:+: out) (h : ¬ Overlong (out ++ s)) :
    prefetchLoop e prev out s = sslReadLineLoop e prev out s := by
  induction s generalizing prev out with
  | nil =>
      have hroom : out.length < kMaxLine := by
        by_contra hfull
        refine h ⟨by rw [List.append_nil]; omega, ?_⟩
        rwa [List.append_nil, List.take_of_length_le (by omega)]
      rw [prefetchLoop, sslReadLineLoop, if_pos hroom, if_pos hroom]
  | cons c s ih =>
      have hroom : out.length < kMaxLine := by
        by_contra hfull
        have hlen : out.length = kMaxLine := by omega
        refine h ⟨by rw [List.length_append]; omega, ?_⟩
        rwa [← hlen, List.take_left]
      rw [prefetchLoop, sslReadLineLoop, if_pos hroom, if_pos hroom]
      by_cases hc : prev = Ascii.cr ∧ c = Ascii.lf
      · rw [if_pos hc, if_pos hc]
      · rw [if_neg hc, if_neg hc]
        refine ih ?_ List.getLast?_concat (not_crlf_snoc hplain hlast hc) ?_
        · rw [List.length_append, List.length_singleton]
          omega
        · rwa [List.append_assoc, List.singleton_append]

/-- At the limit one loop gives the line up to there, the other fails, both at the same place. -/
theorem loops_overlong (e : WireEnd) {prev : Byte} {out s : Bytes} (hshort : out.length ≤ kMaxLine)
    (hlast : out.getLast? = some prev) (h : Overlong (out ++ s)) :
    prefetchLoop e prev out s = (.ok ((out ++ s).take kMaxLine), (out ++ s).drop kMaxLine) ∧
      sslReadLineLoop e prev out s = (.error lineTooLong, (out ++ s).drop kMaxLine) := by
  induction s generalizing prev out with
  | nil =>
      have hfull : ¬ out.length < kMaxLine := by
        have := h.full
        rw [List.append_nil] at this
        omega
      rw [prefetchLoop, sslReadLineLoop, if_neg hfull, if_neg hfull, List.append_nil,
        List.take_of_length_le (by omega), List.drop_of_length_le (by omega)]
      exact ⟨rfl, rfl⟩
  | cons c s ih =>
      rw [prefetchLoop, sslReadLineLoop]
      by_cases hroom : out.length < kMaxLine
      · have hc : ¬ (prev = Ascii.cr ∧ c = Ascii.lf) := by
          rintro ⟨rfl, rfl⟩
          obtain ⟨before, rfl⟩ := List.getLast?_eq_some_iff.mp hlast
          have hend : (before ++ [Ascii.cr]) ++ Ascii.lf :: s = (before ++ crlf) ++ s := by simp [crlf]
          have hlen : (before ++ crlf).length ≤ kMaxLine := by
            simp only [List.length_append, crlf, List.length_cons, List.length_nil] at hroom ⊢
            omega
          refine h.plain ?_
          rw [hend, List.take_append, List.take_of_length_le hlen]
          exact ⟨before, _, rfl⟩
        rw [if_pos hroom, if_pos hroom, if_neg hc, if_neg hc]
        have hsame : (out ++ [c]) ++ s = out ++ c :: s := by simp
        rw [← hsame]
        refine ih ?_ List.getLast?_concat (by rwa [hsame])
        rw [List.length_append, List.length_singleton]
        omega
      · have hlen : out.length = kMaxLine := by omega
        rw [if_neg hroom, if_neg hroom, ← hlen, List.take_left, List.drop_left]
        exact ⟨rfl, rfl⟩

theorem sslReadLineAt_cons (e : WireEnd) (c : Byte) (s : Bytes) :
    sslReadLineAt e (c :: s) = sslReadLineLoop e c [c] s := by
  rw [sslReadLineAt, sslReadLineLoop, if_pos (by decide), if_neg fun h => absurd h.1 (by decide)]
  rfl

theorem not_crlf_singleton (c : Byte) : ¬ crlf <:+: [c] := fun h => by
  have := h.length_le
  simp [crlf] at this

/-! ## How far a read goes -/

theorem sslReadLineLoop_rest (e : WireEnd) (prev : Byte) (out s : Bytes) :
    (sslReadLineLoop e prev out s).2.length ≤ s.length := by
  induction s generalizing prev out with
  | nil => exact le_refl _
  | cons c s ih =>
      rw [sslReadLineLoop]
      split_ifs
      · exact Nat.le_succ _
      · exact (ih c (out ++ [c])).trans (Nat.le_succ _)
      · exact le_refl _

/-- A line takes at least one byte, where there is one. -/
theorem sslReadLineAt_rest (e : WireEnd) {s : Bytes} (h : s ≠ []) :
    (sslReadLineAt e s).2.length < s.length := by
  obtain ⟨c, s, rfl⟩ := List.exists_cons_of_ne_nil h
  rw [sslReadLineAt_cons]
  exact Nat.lt_succ_of_le (sslReadLineLoop_rest e c [c] s)

theorem headersAt_rest (e : WireEnd) (fuel : Nat) (hs : List (Bytes × Bytes)) (n : Nat) (s : Bytes) :
    (headersAt e fuel hs n s).2.length ≤ s.length := by
  induction fuel generalizing hs n s with
  | zero => exact le_refl _
  | succ fuel ih =>
      have hline := sslReadLineLoop_rest e 0 [] s
      rw [headersAt, sslReadLineAt]
      rcases hread : sslReadLineLoop e 0 [] s with ⟨_ | line, t⟩
      · rwa [hread] at hline
      · rw [hread] at hline
        simp only
        split_ifs
        · exact hline
        · exact (ih _ _ t).trans hline

theorem headersAt_takes (e : WireEnd) {fuel : Nat} (hfuel : 0 < fuel) (hs : List (Bytes × Bytes)) (n : Nat)
    {s : Bytes} (h : s ≠ []) : (headersAt e fuel hs n s).2.length < s.length := by
  obtain ⟨fuel, rfl⟩ := Nat.exists_eq_succ_of_ne_zero hfuel.ne'
  have hline := sslReadLineAt_rest e h
  rw [headersAt]
  rcases hread : sslReadLineAt e s with ⟨_ | line, t⟩
  · rwa [hread] at hline
  · rw [hread] at hline
    simp only
    split_ifs
    · exact hline
    · exact (headersAt_rest e fuel _ _ t).trans_lt hline

theorem bodyAt_rest (e : WireEnd) (n : Nat) (s : Bytes) : (bodyAt e n s).2.length ≤ s.length := by
  unfold bodyAt
  split_ifs
  · exact le_refl _
  · simp
  · exact Nat.zero_le _

/-! ## With and without the byte -/

/-- The return code of a read. -/
def ReadEnd.code : ReadEnd → Except Halt Int
  | .closed => .ok 1
  | .failed _ => .ok (-1)
  | .halt h => .error h

/-- The same response or the same return code, and the same place in the stream. -/
def SameResult (a b : Except ReadEnd Response × Bytes) : Prop :=
  a.1.mapError ReadEnd.code = b.1.mapError ReadEnd.code ∧ a.2 = b.2

/-- What `read_response` takes for a status line. -/
def StatusLine (line : Bytes) : Prop :=
  12 ≤ line.length ∧ line.take 7 = ascii "RTSP/1." ∧ (cut Ascii.sp (line.drop 9)).isSome = true

theorem behindStatus_malformed (e : WireEnd) {line : Bytes} (h : ¬ StatusLine line) (s : Bytes) :
    ∃ text, text.head? = some (Ascii.letter 'r') ∧ behindStatus e line s = (.error (.failed text), s) := by
  unfold behindStatus
  by_cases hshort : line.length < 12 ∨ line.take 7 ≠ ascii "RTSP/1."
  · rw [if_pos hshort]
    exact ⟨_, rfl, rfl⟩
  · rw [not_or, not_not] at hshort
    rw [if_neg (by tauto)]
    cases hcut : cut Ascii.sp (line.drop 9) with
    | none => exact ⟨_, rfl, rfl⟩
    | some parts => exact absurd ⟨by omega, hshort.2, by rw [hcut]; rfl⟩ h

/-- Behind a status line the first header line is read. -/
theorem behindStatus_takes (e : WireEnd) {line : Bytes} (h : StatusLine line) {s : Bytes} (hs : s ≠ []) :
    (behindStatus e line s).2.length < s.length := by
  obtain ⟨hlong, hversion, hcut⟩ := h
  obtain ⟨⟨code, reason⟩, hparts⟩ := Option.isSome_iff_exists.mp hcut
  have hheaders := headersAt_takes e (Nat.succ_pos s.length) [] 0 hs
  have hno : ¬ (line.length < 12 ∨ line.take 7 ≠ ascii "RTSP/1.") := by
    rw [not_or, not_not]
    exact ⟨by omega, hversion⟩
  rw [behindStatus, if_neg hno, hparts]
  simp only
  rcases hread : headersAt e (s.length + 1) [] 0 s with ⟨_ | ⟨hs', n⟩, t⟩
  · rwa [hread] at hheaders
  · rw [hread] at hheaders
    have hbody := bodyAt_rest e n t
    simp only
    rcases hb : bodyAt e n t with ⟨_ | body, u⟩
    · rw [hb] at hbody
      exact lt_of_le_of_lt hbody hheaders
    · rw [hb] at hbody
      exact lt_of_le_of_lt hbody hheaders

theorem behindStatus_end (e : WireEnd) {line : Bytes} (h : StatusLine line) :
    behindStatus e line [] = (.error e.readEnd, []) := by
  obtain ⟨hlong, hversion, hcut⟩ := h
  obtain ⟨⟨code, reason⟩, hparts⟩ := Option.isSome_iff_exists.mp hcut
  have hno : ¬ (line.length < 12 ∨ line.take 7 ≠ ascii "RTSP/1.") := by
    rw [not_or, not_not]
    exact ⟨by omega, hversion⟩
  rw [behindStatus, if_neg hno, hparts]
  rfl

theorem readResponseAt_eq (e : WireEnd) (ahead : Byte) {s : Bytes} (h : ¬ Overlong (ahead :: s)) :
    readResponseAt e (some ahead) s = readResponseAt e none (ahead :: s) := by
  have hloop := @prefetchLoop_eq e ahead [ahead] s (by simp [kMaxLine]) rfl (not_crlf_singleton ahead) h
  simp only [readResponseAt, sslReadLineAt_cons, hloop]

theorem readResponseAt_overlong (e : WireEnd) (ahead : Byte) {s : Bytes} (h : Overlong (ahead :: s)) :
    readResponseAt e (some ahead) s =
        behindStatus e ((ahead :: s).take kMaxLine) ((ahead :: s).drop kMaxLine) ∧
      readResponseAt e none (ahead :: s) = (.error lineTooLong, (ahead :: s).drop kMaxLine) := by
  obtain ⟨hahead, hplain⟩ := @loops_overlong e ahead [ahead] s (by simp [kMaxLine]) rfl h
  simp only [List.singleton_append] at hahead hplain
  simp only [readResponseAt, sslReadLineAt_cons, hahead, hplain, and_self]

theorem sameResult_failed_iff (r : Except ReadEnd Response × Bytes) (text s : Bytes) :
    SameResult r (.error (.failed text), s) ↔ (∃ text', r.1 = .error (.failed text')) ∧ r.2 = s := by
  obtain ⟨_ | r, t⟩ := r
  · rename_i x
    cases x <;> simp [SameResult, Except.mapError, ReadEnd.code]
  · simp [SameResult, Except.mapError]

theorem readEnd_failed_iff (e : WireEnd) : (∃ text, e.readEnd = .failed text) ↔ e = .broken := by
  cases e <;> simp [WireEnd.readEnd]

/-! ## The call of `await_response` -/

/-- `await_response` does not say where a failure has left the stream. -/
def placed {α : Type} : Except ReadEnd α × Bytes → Except ReadEnd (α × Bytes)
  | (.ok a, s) => .ok (a, s)
  | (.error x, _) => .error x

theorem lineLoop_placed (e : WireEnd) {prev : Byte} {out : Bytes}
    (h : out.getLast? = some Ascii.cr ↔ prev = Ascii.cr) (s : Bytes) :
    lineLoop e (fun _ _ => .error lineTooLong) out s = placed (sslReadLineLoop e prev out s) ∧
      lineLoop e (fun out s => .ok (out, s)) out s = placed (prefetchLoop e prev out s) := by
  induction s generalizing prev out with
  | nil =>
      rw [lineLoop, lineLoop, sslReadLineLoop, prefetchLoop]
      split_ifs <;> exact ⟨rfl, rfl⟩
  | cons c s ih =>
      rw [lineLoop, lineLoop, sslReadLineLoop, prefetchLoop]
      simp only [h]
      split_ifs
      · exact ⟨rfl, rfl⟩
      · exact ih (by rw [List.getLast?_concat, Option.some.injEq])
      · exact ⟨rfl, rfl⟩

theorem sslReadLine_placed (e : WireEnd) (s : Bytes) : sslReadLine e s = placed (sslReadLineAt e s) :=
  (lineLoop_placed e (by decide) s).1

theorem headerLoop_placed (e : WireEnd) (fuel : Nat) (hs : List (Bytes × Bytes)) (n : Nat) (s : Bytes) :
    headerLoop e fuel hs n s = (placed (headersAt e fuel hs n s)).map fun r => (r.1.1, r.1.2, r.2) := by
  induction fuel generalizing hs n s with
  | zero => rfl
  | succ fuel ih =>
      rw [headerLoop, headersAt, sslReadLine_placed]
      rcases sslReadLineAt e s with ⟨_ | line, t⟩
      · rfl
      · cases line with
        | nil => rfl
        | cons c line => exact ih _ _ t

theorem readBody_placed (e : WireEnd) (n : Nat) (s : Bytes) :
    readBody e (ascii "rtsp: response body exceeds cap") n s = placed (bodyAt e n s) := by
  unfold readBody readSome sslReadFull bodyAt
  by_cases hcap : kMaxResponseBody < n
  · rw [if_pos hcap, if_pos hcap]
    rfl
  · rw [if_neg hcap, if_neg hcap]
    by_cases hn : 0 < n
    · rw [if_pos hn]
      split_ifs <;> rfl
    · obtain rfl : n = 0 := by omega
      rfl

/-- `await_response` reads as the call with the byte read ahead does. -/
theorem readResponse_placed (e : WireEnd) (ahead : Byte) (s : Bytes) :
    readResponse e ahead s = placed (readResponseAt e (some ahead) s) := by
  have hline : statusLine e ahead s = placed (prefetchLoop e ahead [ahead] s) :=
    (lineLoop_placed e (by simp) s).2
  rw [readResponse, hline, readResponseAt]
  simp only
  rcases prefetchLoop e ahead [ahead] s with ⟨_ | line, t⟩
  · rfl
  · simp only [placed, bind, Except.bind, behindStatus]
    by_cases hshort : line.length < 12 ∨ line.take 7 ≠ ascii "RTSP/1."
    · rw [if_pos hshort, if_pos hshort]
    · rw [if_neg hshort, if_neg hshort]
      cases cut Ascii.sp (line.drop 9) with
      | none => rfl
      | some parts =>
          simp only [headerLoop_placed]
          rcases headersAt e (t.length + 1) [] 0 t with ⟨_ | ⟨hs, n⟩, u⟩
          · rfl
          · simp only [placed, Except.map, readBody_placed]
            rcases bodyAt e n u with ⟨_ | body, v⟩
            · rfl
            · rfl

/-! ## The two calls -/

/-- For every stream and every byte read ahead: the calls agree in everything, error texts as well,
exactly if the status line does not reach the limit; and in result and place exactly if what stands in
front of the limit is no status line either, or nothing follows it on a broken connection. The call with a
byte read ahead is the one of `await_response`. -/
theorem read_response_prefetch_iff (e : WireEnd) (ahead : Byte) (s : Bytes) :
    (readResponseAt e (some ahead) s = readResponseAt e none (ahead :: s) ↔ ¬ Overlong (ahead :: s)) ∧
      (SameResult (readResponseAt e (some ahead) s) (readResponseAt e none (ahead :: s)) ↔
        ¬ (Overlong (ahead :: s) ∧ StatusLine ((ahead :: s).take kMaxLine) ∧
          ¬ (e = .broken ∧ (ahead :: s).length = kMaxLine))) ∧
      readResponse e ahead s = placed (readResponseAt e (some ahead) s) := by
  rw [← and_assoc]
  refine ⟨?_, readResponse_placed e ahead s⟩
  by_cases hover : Overlong (ahead :: s)
  · obtain ⟨hahead, hplain⟩ := readResponseAt_overlong e ahead hover
    rw [hahead, hplain]
    have hfull := hover.full
    by_cases hstatus : StatusLine ((ahead :: s).take kMaxLine)
    · have hsame : SameResult (behindStatus e ((ahead :: s).take kMaxLine) ((ahead :: s).drop kMaxLine))
          (.error lineTooLong, (ahead :: s).drop kMaxLine) ↔
          e = .broken ∧ (ahead :: s).length = kMaxLine := by
        rw [lineTooLong, sameResult_failed_iff]
        by_cases hrest : (ahead :: s).drop kMaxLine = []
        · have hlen : (ahead :: s).length = kMaxLine := by
            have := List.drop_eq_nil_iff.mp hrest
            omega
          rw [hrest, behindStatus_end e hstatus]
          simp only [Except.error.injEq, and_true, hlen, readEnd_failed_iff]
        · have htakes := behindStatus_takes e hstatus hrest
          refine iff_of_false (fun h => ?_) (fun h => hrest (List.drop_eq_nil_iff.mpr h.2.le))
          rw [h.2] at htakes
          omega
      refine ⟨iff_of_false (fun heq => ?_) (not_not.mpr hover), ?_⟩
      · -- a broken connection has no error text
        obtain ⟨rfl, hlen⟩ := hsame.mp (by rw [heq]; exact ⟨rfl, rfl⟩)
        rw [List.drop_of_length_le hlen.le, behindStatus_end _ hstatus] at heq
        have htext := Except.error.inj (Prod.mk.inj heq).1
        simp only [WireEnd.readEnd, lineTooLong, ReadEnd.failed.injEq] at htext
        exact absurd htext (by decide +kernel)
      · rw [hsame]
        tauto
    · obtain ⟨text, htext, hfailed⟩ := behindStatus_malformed e hstatus ((ahead :: s).drop kMaxLine)
      rw [hfailed]
      refine ⟨iff_of_false (fun heq => ?_) (not_not.mpr hover), iff_of_true ⟨rfl, rfl⟩ fun h => hstatus h.2.1⟩
      have hsame := Except.error.inj (Prod.mk.inj heq).1
      rw [lineTooLong, ReadEnd.failed.injEq] at hsame
      rw [hsame] at htext
      exact absurd htext (by decide)
  · have heq := readResponseAt_eq e ahead hover
    refine ⟨iff_of_true heq hover, iff_of_true ?_ (fun h => hover h.1)⟩
    rw [heq]
    exact ⟨rfl, rfl⟩

/-! ## A status line at the limit -/

/-- A status line of exactly 8192 bytes. -/
def longStatus : Bytes := ascii "RTSP/1.0 200 " ++ List.replicate 8179 0x61

theorem overlong_longStatus : Overlong (longStatus ++ crlf) := by
  have hlen : longStatus.length = kMaxLine := by
    rw [longStatus, List.length_append, List.length_replicate]
    decide +kernel
  refine ⟨by rw [List.length_append]; omega, fun h => ?_⟩
  rw [← hlen, List.take_left] at h
  have hmem : Ascii.cr ∈ longStatus := h.subset List.mem_cons_self
  rcases List.mem_append.mp hmem with hmem | hmem
  · exact absurd hmem (by decide +kernel)
  · exact absurd (List.eq_of_mem_replicate hmem) (by decide)

theorem behindStatus_longStatus (e : WireEnd) (tail : Bytes) :
    behindStatus e (ascii "RTSP/1.0 200 " ++ tail) crlf = (.ok ⟨200, trim tail, [], []⟩, []) := by
  have hcut : cut Ascii.sp ((ascii "RTSP/1.0 200 " ++ tail).drop 9) = some (ascii "200", tail) := rfl
  have hno : ¬ ((ascii "RTSP/1.0 200 " ++ tail).length < 12 ∨
      (ascii "RTSP/1.0 200 " ++ tail).take 7 ≠ ascii "RTSP/1.") := by
    rw [not_or, not_not, List.length_append]
    refine ⟨?_, rfl⟩
    have : (ascii "RTSP/1.0 200 ").length = 13 := rfl
    omega
  rw [behindStatus, if_neg hno, hcut]
  rfl

/-- With its first byte read ahead it is the status line of a response, without it the read fails. -/
theorem read_response_prefetch_differs :
    readResponseAt .shutdown (some (Ascii.letter 'R')) (longStatus ++ crlf).tail =
        (.ok ⟨200, trim (List.replicate 8179 0x61), [], []⟩, []) ∧
      readResponseAt .shutdown none (longStatus ++ crlf) = (.error lineTooLong, crlf) ∧
      ¬ SameResult (readResponseAt .shutdown (some (Ascii.letter 'R')) (longStatus ++ crlf).tail)
        (readResponseAt .shutdown none (longStatus ++ crlf)) := by
  have hlen : longStatus.length = kMaxLine := by
    rw [longStatus, List.length_append, List.length_replicate]
    decide +kernel
  have hsplit : longStatus ++ crlf = Ascii.letter 'R' :: (longStatus ++ crlf).tail := rfl
  have hover := overlong_longStatus
  rw [hsplit] at hover
  obtain ⟨hahead, hplain⟩ := readResponseAt_overlong .shutdown _ hover
  rw [← hsplit, ← hlen, List.take_left, List.drop_left, longStatus, behindStatus_longStatus] at hahead
  rw [← hsplit, ← hlen, List.drop_left] at hplain
  refine ⟨hahead, hplain, fun h => ?_⟩
  rw [← longStatus] at hahead
  rw [hahead, hplain] at h
  exact absurd h.2 (by decide)

end OpenBambu.Rtsp
