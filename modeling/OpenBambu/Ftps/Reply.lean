import OpenBambu.Foundation.Framing
import OpenBambu.Ftps.Socket

/-!
# Replies on the control connection

`read_line` and `read_reply` take lines off `ctrl_buf` and read more of the control connection when
no whole line is there. How the bytes arrive is a script. `Reply` is a reply of RFC 959 and its bytes;
`read_reply` returns it whatever the cuts, provided that no inner line looks like a last one.
-/

namespace OpenBambu.Ftps

open OpenBambu.Foundation

/-- How the next read of the control connection goes: one more than this number of bytes, or all
that the server has sent, or nothing before the time-out. -/
inductive Arrival where
  | bytes (more : Nat)
  | fails
  deriving DecidableEq, Repr

/-- `ctrl_buf`, what the server has sent and the client has not read, and how reads will go. -/
structure Ctrl where
  buf : Bytes
  wire : Bytes
  arrivals : List Arrival
  deriving DecidableEq, Repr

/-- `ctrl_read` into 512 bytes; `none` is a count of 0 or -1. Behind the script a read brings what
there is. -/
def Ctrl.read (c : Ctrl) : Option Bytes × Ctrl :=
  match c.arrivals, c.wire with
  | .fails :: later, _ => (none, { c with arrivals := later })
  | arrivals, [] => (none, { c with arrivals := arrivals.tail })
  | [], b :: bs => (some (b :: bs.take 511), { c with wire := bs.drop 511 })
  | .bytes more :: later, b :: bs =>
      (some (b :: bs.take (min more 511)), { c with wire := bs.drop (min more 511), arrivals := later })

theorem Ctrl.read_some {c c' : Ctrl} {got : Bytes} (h : c.read = (some got, c')) :
    got ≠ [] ∧ c.wire = got ++ c'.wire ∧ c'.buf = c.buf ∧ c'.arrivals = c.arrivals.tail := by
  unfold Ctrl.read at h
  split at h
  · simp at h
  · simp at h
  · rename_i b bs harr hwire
    obtain ⟨hgot, rfl⟩ := Prod.mk.inj h
    obtain rfl := Option.some.inj hgot
    refine ⟨List.cons_ne_nil _ _, ?_, rfl, by rw [harr, List.tail_nil]⟩
    rw [hwire, List.cons_append, List.take_append_drop]
  · rename_i more later b bs harr hwire
    obtain ⟨hgot, rfl⟩ := Prod.mk.inj h
    obtain rfl := Option.some.inj hgot
    refine ⟨List.cons_ne_nil _ _, ?_, rfl, by rw [harr, List.tail_cons]⟩
    rw [hwire, List.cons_append, List.take_append_drop]

theorem Ctrl.read_shorter {c c' : Ctrl} {got : Bytes} (h : c.read = (some got, c')) :
    c'.wire.length < c.wire.length := by
  obtain ⟨hne, hwire, _⟩ := Ctrl.read_some h
  have hpos := List.length_pos_of_ne_nil hne
  rw [hwire, List.length_append]
  omega

/-- `read_line`. -/
def readLine (c : Ctrl) : Option Bytes × Ctrl :=
  match cut Ascii.lf c.buf with
  | some (line, rest) => (some (stripCr line), { c with buf := rest })
  | none =>
      match _h : c.read with
      | (none, c') => (none, c')
      | (some got, c') => readLine { c' with buf := c'.buf ++ got }
termination_by c.wire.length
decreasing_by exact Ctrl.read_shorter _h

/-- The code of a line that ends a reply: three digits and a space. -/
def finalCode : Bytes → Option Nat
  | a :: b :: c :: d :: _ =>
      if isDigit a && isDigit b && isDigit c && d == Ascii.sp then some (ofDecimal [a, b, c]) else none
  | _ => none

/-- A further line behind what `read_reply` has accumulated. -/
def accumulate (accumulated line : Bytes) : Bytes :=
  (if accumulated = [] then [] else accumulated ++ [Ascii.lf]) ++ line

/-! ## Lines as frames -/

theorem cut_shorter {sep : Byte} {s line rest : Bytes} (h : cut sep s = some (line, rest)) :
    rest.length < s.length := by
  induction s generalizing line with
  | nil => simp [cut] at h
  | cons c s ih =>
      rw [cut] at h
      split_ifs at h
      · obtain ⟨_, rfl⟩ := Prod.mk.inj (Option.some.inj h)
        exact Nat.lt_succ_self _
      · obtain ⟨p, hp, heq⟩ := Option.map_eq_some_iff.mp h
        obtain ⟨_, rfl⟩ := Prod.mk.inj heq
        have := ih hp
        rw [List.length_cons]
        omega

theorem cut_extend {sep : Byte} {s line rest : Bytes} (h : cut sep s = some (line, rest)) (more : Bytes) :
    cut sep (s ++ more) = some (line, rest ++ more) := by
  induction s generalizing line with
  | nil => simp [cut] at h
  | cons c s ih =>
      rw [cut] at h
      rw [List.cons_append, cut]
      split_ifs at h ⊢ with hsep
      · obtain ⟨rfl, rfl⟩ := Prod.mk.inj (Option.some.inj h)
        rfl
      · obtain ⟨p, hp, heq⟩ := Option.map_eq_some_iff.mp h
        obtain ⟨rfl, rfl⟩ := Prod.mk.inj heq
        rw [ih hp]
        rfl

/-- What a line feed ends is a frame. -/
def lineFraming : Framing Byte Bytes where
  next := cut Ascii.lf
  shorter := cut_shorter
  extend := cut_extend

/-- No read that is to come fails. -/
def NoneFails (arrivals : List Arrival) : Prop := Arrival.fails ∉ arrivals

theorem NoneFails.tail {arrivals : List Arrival} (h : NoneFails arrivals) : NoneFails arrivals.tail :=
  fun hmem => h (List.mem_of_mem_tail hmem)

theorem Ctrl.read_isSome {c : Ctrl} (hwire : c.wire ≠ []) (hnone : NoneFails c.arrivals) :
    ∃ got c', c.read = (some got, c') := by
  unfold Ctrl.read
  split
  · rename_i later harr
    exact absurd (harr ▸ List.mem_cons_self) hnone
  · contradiction
  · exact ⟨_, _, rfl⟩
  · exact ⟨_, _, rfl⟩

/-- What the client still has to read. -/
def Ctrl.unread (c : Ctrl) : Bytes := c.buf ++ c.wire

/-- However the stream is cut, `read_line` takes its first line. -/
theorem readLine_spec {c : Ctrl} {line more : Bytes} (hnone : NoneFails c.arrivals)
    (hline : cut Ascii.lf c.unread = some (line, more)) :
    ∃ c', readLine c = (some (stripCr line), c') ∧ c'.unread = more ∧ NoneFails c'.arrivals := by
  unfold Ctrl.unread at hline
  fun_induction readLine c with
  | case1 c l rest hcut =>
      -- a frame in the buffer is the frame of the whole stream
      have hwhole := lineFraming.extend hcut c.wire
      obtain ⟨rfl, rfl⟩ := Prod.mk.inj (Option.some.inj (hline.symm.trans hwhole))
      exact ⟨_, rfl, rfl, hnone⟩
  | case2 c hcut c' hread =>
      by_cases hwire : c.wire = []
      · rw [hwire, List.append_nil, hcut] at hline
        exact absurd hline (by simp)
      · obtain ⟨got, c'', hgot⟩ := Ctrl.read_isSome hwire hnone
        exact absurd (hread.symm.trans hgot) (by simp)
  | case3 c hcut got c' hread ih =>
      obtain ⟨_, hwire, hbuf, harr⟩ := Ctrl.read_some hread
      refine ih (harr ▸ hnone.tail) ?_
      rw [← hline, hwire, hbuf, List.append_assoc]

theorem readLine_shorter {c c' : Ctrl} {line : Bytes} (h : readLine c = (some line, c')) :
    c'.unread.length < c.unread.length := by
  unfold Ctrl.unread
  fun_induction readLine c with
  | case1 c l rest hcut =>
      obtain ⟨_, rfl⟩ := Prod.mk.inj h
      have := cut_shorter hcut
      simp only [List.length_append]
      omega
  | case2 c hcut c'' hread => simp at h
  | case3 c hcut got c'' hread ih =>
      obtain ⟨_, hwire, hbuf, _⟩ := Ctrl.read_some hread
      have := ih h
      simpa [hwire, hbuf, Nat.add_assoc] using this

/-- `read_reply`; `none` is the code -1. -/
def readReply (c : Ctrl) (accumulated : Bytes) : Option (Nat × Bytes) × Ctrl :=
  match _h : readLine c with
  | (none, c') => (none, c')
  | (some line, c') =>
      match finalCode line with
      | some code => (some (code, accumulate accumulated line), c')
      | none => readReply c' (accumulate accumulated line)
termination_by c.unread.length
decreasing_by exact readLine_shorter _h

theorem readReply_final {c c' : Ctrl} {accumulated line : Bytes} {code : Nat}
    (hread : readLine c = (some line, c')) (hcode : finalCode line = some code) :
    readReply c accumulated = (some (code, accumulate accumulated line), c') := by
  rw [readReply]
  split
  · rename_i c'' hnone
    exact absurd (hread.symm.trans hnone) (by simp)
  · rename_i l c'' hsome
    obtain ⟨hl, rfl⟩ := Prod.mk.inj (hread.symm.trans hsome)
    obtain rfl := Option.some.inj hl
    simp only [hcode]

theorem readReply_further {c c' : Ctrl} {accumulated line : Bytes}
    (hread : readLine c = (some line, c')) (hcode : finalCode line = none) :
    readReply c accumulated = readReply c' (accumulate accumulated line) := by
  rw [readReply]
  split
  · rename_i c'' hnone
    exact absurd (hread.symm.trans hnone) (by simp)
  · rename_i l c'' hsome
    obtain ⟨hl, rfl⟩ := Prod.mk.inj (hread.symm.trans hsome)
    obtain rfl := Option.some.inj hl
    simp only [hcode]

/-- Where nothing is to be read, nothing is left. -/
theorem readReply_nothing {c : Ctrl} (h : c.unread = []) (accumulated : Bytes) :
    (readReply c accumulated).2.unread = [] := by
  obtain ⟨hbuf, hwire⟩ := List.append_eq_nil_iff.mp h
  obtain ⟨c', hread, hnothing⟩ : ∃ c', c.read = (none, c') ∧ c'.unread = [] := by
    unfold Ctrl.read
    split
    · exact ⟨_, rfl, h⟩
    · exact ⟨_, rfl, h⟩
    · rename_i b bs _ hcons
      exact absurd (hwire.symm.trans hcons) (by simp)
    · rename_i more later b bs _ hcons
      exact absurd (hwire.symm.trans hcons) (by simp)
  have hline : readLine c = (none, c') := by
    rw [readLine, hbuf, cut]
    simp only
    split
    · rename_i c'' hnone
      exact hnone.symm.trans hread
    · rename_i got c'' hsome
      exact absurd (hread.symm.trans hsome) (by simp)
  rw [readReply]
  split
  · rename_i c'' hnone
    obtain ⟨_, rfl⟩ := Prod.mk.inj (hline.symm.trans hnone)
    exact hnothing
  · rename_i l c'' hsome
    exact absurd (hline.symm.trans hsome) (by simp)

/-! ## The replies of RFC 959 -/

def crlf : Bytes := [Ascii.cr, Ascii.lf]

/-- The three digits of a code. -/
def tag (code : Fin 1000) : Bytes :=
  [digitByte (code / 100), digitByte (code / 10 % 10), digitByte (code % 10)]

/-- A reply: one line `NNN text`, or `NNN-first`, inner lines and a last line `NNN text`. Only the
last line starts with the code and a space. -/
structure Reply where
  code : Fin 1000
  opening : Option (Bytes × List Bytes)
  text : Bytes
  text_line : Ascii.lf ∉ text
  opening_lines : ∀ p ∈ opening, Ascii.lf ∉ p.1 ∧
    ∀ l ∈ p.2, Ascii.lf ∉ l ∧ startsWith l (tag code ++ [Ascii.sp]) = false

namespace Reply

def last (r : Reply) : Bytes := tag r.code ++ Ascii.sp :: r.text

/-- The lines in front of the last one. -/
def before (r : Reply) : List Bytes :=
  match r.opening with
  | none => []
  | some (first, inner) => (tag r.code ++ Ascii.minus :: first) :: inner

/-- The reply on the wire. -/
def bytes (r : Reply) : Bytes := r.before.flatMap (· ++ crlf) ++ (r.last ++ crlf)

/-- The text that the caller gets. -/
def body (r : Reply) : Bytes := accumulate (r.before.foldl accumulate []) r.last

/-- No inner line starts with three digits and a space: RFC 959 has the server pad such a line. -/
def Padded (r : Reply) : Prop := ∀ p ∈ r.opening, ∀ l ∈ p.2, finalCode l = none

end Reply

theorem tag_digits (code : Fin 1000) :
    isDigit (digitByte (code / 100)) = true ∧ isDigit (digitByte (code / 10 % 10)) = true ∧
      isDigit (digitByte (code % 10)) = true := by
  have hc := code.isLt
  exact ⟨isDigit_digitByte (by omega), isDigit_digitByte (by omega), isDigit_digitByte (by omega)⟩

theorem ofDecimal_tag (code : Fin 1000) : ofDecimal (tag code) = code := by
  have hc := code.isLt
  have hvalue : ∀ a b c, a < 10 → b < 10 → c < 10 →
      ofDecimal [digitByte a, digitByte b, digitByte c] = 100 * a + 10 * b + c := by
    intro a b c ha hb hc
    simp only [ofDecimal, List.foldl_cons, List.foldl_nil, digitVal_digitByte ha,
      digitVal_digitByte hb, digitVal_digitByte hc]
    omega
  rw [tag, hvalue _ _ _ (by omega) (by omega) (by omega)]
  omega

theorem finalCode_last (r : Reply) : finalCode r.last = some r.code.val := by
  obtain ⟨ha, hb, hc⟩ := tag_digits r.code
  simp only [Reply.last, tag, List.cons_append, List.nil_append, finalCode, ha, hb, hc]
  exact congrArg some (ofDecimal_tag r.code)

theorem finalCode_first (code : Fin 1000) (first : Bytes) :
    finalCode (tag code ++ Ascii.minus :: first) = none := by
  simp [tag, finalCode, Ascii.minus, Ascii.sp]

theorem stripCr_append (line : Bytes) : stripCr (line ++ [Ascii.cr]) = line := by
  rw [stripCr, List.getLast?_concat, if_pos rfl, List.dropLast_concat]

/-- A line on the wire, in front of anything. -/
theorem cut_line {line : Bytes} (h : Ascii.lf ∉ line) (more : Bytes) :
    cut Ascii.lf ((line ++ crlf) ++ more) = some (line ++ [Ascii.cr], more) := by
  have hcr : Ascii.lf ∉ line ++ [Ascii.cr] := by
    rw [List.mem_append, not_or]
    exact ⟨h, by decide⟩
  rw [← cut_of_not_mem hcr more]
  simp [crlf]

/-- Lines that end no reply and a line that does are one reply. -/
theorem readReply_lines {ls : List Bytes} {last more : Bytes} {code : Nat} {c : Ctrl} {accumulated : Bytes}
    (hnone : NoneFails c.arrivals) (hls : ∀ l ∈ ls, Ascii.lf ∉ l ∧ finalCode l = none)
    (hlast : Ascii.lf ∉ last) (hcode : finalCode last = some code)
    (hunread : c.unread = ls.flatMap (· ++ crlf) ++ (last ++ crlf) ++ more) :
    ∃ c', readReply c accumulated = (some (code, accumulate (ls.foldl accumulate accumulated) last), c') ∧
      c'.unread = more ∧ NoneFails c'.arrivals := by
  induction ls generalizing c accumulated with
  | nil =>
      rw [List.flatMap_nil, List.nil_append] at hunread
      obtain ⟨c', hread, hmore, hnone'⟩ := readLine_spec hnone (hunread ▸ cut_line hlast more)
      rw [stripCr_append] at hread
      exact ⟨c', readReply_final hread hcode, hmore, hnone'⟩
  | cons l ls ih =>
      obtain ⟨hl, hquiet⟩ := hls l List.mem_cons_self
      rw [List.flatMap_cons, List.append_assoc, List.append_assoc] at hunread
      obtain ⟨c', hread, hmore, hnone'⟩ := readLine_spec hnone (hunread ▸ cut_line hl _)
      rw [stripCr_append] at hread
      obtain ⟨c'', hrest, hdone⟩ := @ih c' (accumulate accumulated l) hnone'
        (fun x hx => hls x (List.mem_cons_of_mem _ hx)) (by rw [hmore, ← List.append_assoc])
      exact ⟨c'', (readReply_further hread hquiet).trans hrest, hdone⟩

theorem lf_not_mem_tag (code : Fin 1000) : Ascii.lf ∉ tag code := by
  have hall : ∀ code : Fin 1000, Ascii.lf ∉ tag code := by decide +kernel
  exact hall code

/-- A padded reply in front of anything is read whole, and nothing behind it. -/
theorem readReply_spec {r : Reply} (hpad : r.Padded) (c : Ctrl) (more : Bytes)
    (hnone : NoneFails c.arrivals) (hunread : c.unread = r.bytes ++ more) :
    ∃ c', readReply c [] = (some (r.code.val, r.body), c') ∧ c'.unread = more ∧
      NoneFails c'.arrivals := by
  have hlast : Ascii.lf ∉ r.last := by
    simp only [Reply.last, List.mem_append, List.mem_cons, not_or]
    exact ⟨lf_not_mem_tag r.code, by decide, r.text_line⟩
  refine readReply_lines hnone ?_ hlast (finalCode_last r) hunread
  intro l hl
  unfold Reply.before at hl
  split at hl
  · exact absurd hl List.not_mem_nil
  · rename_i first inner hopen
    obtain ⟨hfirst, hinner⟩ := r.opening_lines _ hopen
    rcases List.mem_cons.mp hl with rfl | hl
    · refine ⟨?_, finalCode_first _ _⟩
      simp only [List.mem_append, List.mem_cons, not_or]
      exact ⟨lf_not_mem_tag r.code, by decide, hfirst⟩
    · exact ⟨(hinner l hl).1, hpad _ hopen l hl⟩

theorem lf_not_mem_first (code : Fin 1000) {first : Bytes} (h : Ascii.lf ∉ first) :
    Ascii.lf ∉ tag code ++ Ascii.minus :: first := by
  simp only [List.mem_append, List.mem_cons, not_or]
  exact ⟨lf_not_mem_tag code, by decide, h⟩

/-- An inner line that looks like a last one ends the reply: what follows it stays unread. -/
theorem readReply_early {r : Reply} (hpad : ¬r.Padded) (c : Ctrl) (more : Bytes)
    (hnone : NoneFails c.arrivals) (hunread : c.unread = r.bytes ++ more) :
    more.length < (readReply c []).2.unread.length := by
  simp only [Reply.Padded, not_forall, exists_prop] at hpad
  obtain ⟨⟨first, inner⟩, hopen, l, hl, hcode⟩ := hpad
  obtain ⟨hfirst, hinner⟩ := r.opening_lines _ hopen
  have hfound : (inner.find? fun x => (finalCode x).isSome).isSome :=
    List.find?_isSome.mpr ⟨l, hl, Option.isSome_iff_ne_none.mpr hcode⟩
  obtain ⟨early, hfind⟩ := Option.isSome_iff_exists.mp hfound
  obtain ⟨hearly, quiet, later, hsplit, hquiet⟩ := List.find?_eq_some_iff_append.mp hfind
  obtain ⟨code, hcode⟩ := Option.isSome_iff_exists.mp hearly
  -- the lines up to the early one make up a whole reply, in front of the others
  have hmem : ∀ x ∈ quiet ++ early :: later, Ascii.lf ∉ x := fun x hx => (hinner x (hsplit ▸ hx)).1
  have hquiet : ∀ x ∈ (tag r.code ++ Ascii.minus :: first) :: quiet, Ascii.lf ∉ x ∧ finalCode x = none := by
    refine List.forall_mem_cons.mpr ⟨⟨lf_not_mem_first _ hfirst, finalCode_first _ _⟩, fun x hx => ⟨?_, ?_⟩⟩
    · exact hmem x (List.mem_append_left _ hx)
    · exact Option.not_isSome_iff_eq_none.mp (by simpa using hquiet x hx)
  have hwire : c.unread = ((tag r.code ++ Ascii.minus :: first) :: quiet).flatMap (· ++ crlf) ++
      (early ++ crlf) ++ (later.flatMap (· ++ crlf) ++ (r.last ++ crlf) ++ more) := by
    rw [hunread, Reply.bytes, Reply.before, hopen, hsplit]
    simp
  obtain ⟨c', hread, hrest, -⟩ := @readReply_lines _ early _ code c [] hnone hquiet
    (hmem early (List.mem_append_right _ List.mem_cons_self)) hcode hwire
  rw [hread, hrest]
  simp only [List.length_append, crlf, List.length_cons]
  omega

theorem foldl_accumulate {acc : Bytes} (h : acc ≠ []) (ls : List Bytes) :
    ls.foldl accumulate acc = acc ++ ls.flatMap (Ascii.lf :: ·) := by
  induction ls generalizing acc with
  | nil => rw [List.foldl_nil, List.flatMap_nil, List.append_nil]
  | cons l ls ih =>
      rw [List.foldl_cons, accumulate, if_neg h, ih (by simp [h]), List.flatMap_cons]
      simp

theorem intercalate_cons_flatMap (sep : Byte) (l : Bytes) (ls : List Bytes) :
    [sep].intercalate (l :: ls) = l ++ ls.flatMap (sep :: ·) := by
  induction ls generalizing l with
  | nil => rw [List.intercalate_singleton, List.flatMap_nil, List.append_nil]
  | cons l' ls ih =>
      rw [List.intercalate_cons_cons, ih, List.flatMap_cons, List.append_assoc]
      rfl

theorem tag_ne_nil (code : Fin 1000) (text : Bytes) : tag code ++ text ≠ [] := List.cons_ne_nil _ _

/-- The text of a reply is its lines with line feeds in between. -/
theorem Reply.body_eq (r : Reply) : r.body = [Ascii.lf].intercalate (r.before ++ [r.last]) := by
  rw [Reply.body, ← List.foldl_concat accumulate, Reply.before]
  split
  · rw [List.nil_append, List.intercalate_singleton]
    rfl
  · rename_i first inner hopen
    rw [List.cons_append, List.foldl_cons, intercalate_cons_flatMap]
    exact foldl_accumulate (tag_ne_nil _ _) _

/-- A reply in front of anything is read whole, and nothing behind it, exactly when none of its
inner lines starts with three digits and a space. -/
theorem readReply_iff (r : Reply) (c : Ctrl) (more : Bytes) (hnone : NoneFails c.arrivals)
    (hunread : c.unread = r.bytes ++ more) :
    (∃ c', readReply c [] = (some (r.code.val, [Ascii.lf].intercalate (r.before ++ [r.last])), c') ∧
      c'.unread = more) ↔ r.Padded := by
  rw [← Reply.body_eq]
  constructor
  · rintro ⟨c', hread, hmore⟩
    by_contra hpad
    have hearly := readReply_early hpad c more hnone hunread
    rw [hread, hmore] at hearly
    exact absurd hearly (lt_irrefl _)
  · intro hpad
    obtain ⟨c', hread, hmore, -⟩ := readReply_spec hpad c more hnone hunread
    exact ⟨c', hread, hmore⟩

/-! ## A reply to `STAT` -/

theorem code_lt : 213 < 1000 := by decide

theorem stat_text_line : Ascii.lf ∉ ascii "End" := by decide

theorem status_line : Ascii.lf ∉ ascii "Status" := by decide

theorem stat_opening_lines {inner : Bytes}
    (h : Ascii.lf ∉ inner ∧ startsWith inner (tag ⟨213, code_lt⟩ ++ [Ascii.sp]) = false) :
    ∀ p ∈ some (ascii "Status", [inner]), Ascii.lf ∉ p.1 ∧
      ∀ l ∈ p.2, Ascii.lf ∉ l ∧ startsWith l (tag ⟨213, code_lt⟩ ++ [Ascii.sp]) = false := by
  rintro p ⟨⟩
  exact ⟨status_line, List.forall_mem_singleton.mpr h⟩

def statReply (inner : Bytes)
    (h : Ascii.lf ∉ inner ∧ startsWith inner (tag ⟨213, code_lt⟩ ++ [Ascii.sp]) = false) : Reply :=
  ⟨⟨213, code_lt⟩, some (ascii "Status", [inner]), ascii "End", stat_text_line, stat_opening_lines h⟩

/-- A control connection over which a reply has been sent. -/
def Ctrl.sent (r : Reply) (arrivals : List Arrival) : Ctrl := ⟨[], r.bytes, arrivals⟩

theorem Ctrl.sent_unread (r : Reply) (arrivals : List Arrival) :
    (Ctrl.sent r arrivals).unread = r.bytes ++ [] := (List.append_nil _).symm

theorem megabytes_line : Ascii.lf ∉ ascii "200 MB free" ∧
    startsWith (ascii "200 MB free") (tag ⟨213, code_lt⟩ ++ [Ascii.sp]) = false := by
  decide +kernel

theorem free_line : Ascii.lf ∉ ascii "Free: 200 MB" ∧
    startsWith (ascii "Free: 200 MB") (tag ⟨213, code_lt⟩ ++ [Ascii.sp]) = false := by
  decide +kernel

theorem readReply_whole : ∃ c', readReply (Ctrl.sent (statReply _ free_line) [.bytes 0, .bytes 3]) [] =
    (some (213, [Ascii.lf].intercalate [ascii "213-Status", ascii "Free: 200 MB", ascii "213 End"]), c') ∧
      c'.unread = [] := by
  have hpad : (statReply _ free_line).Padded := by
    rintro p ⟨⟩
    exact List.forall_mem_singleton.mpr (by decide)
  exact (readReply_iff _ _ [] (by simp [NoneFails, Ctrl.sent]) (Ctrl.sent_unread _ _)).mpr hpad

theorem readReply_not_whole :
    ¬∀ (r : Reply) (c : Ctrl) (more : Bytes), NoneFails c.arrivals → c.unread = r.bytes ++ more →
      ∃ c', readReply c [] = (some (r.code.val, [Ascii.lf].intercalate (r.before ++ [r.last])), c') ∧
        c'.unread = more := by
  intro h
  have hnone : NoneFails (Ctrl.sent (statReply _ megabytes_line) []).arrivals := List.not_mem_nil
  have hpad : ¬(statReply _ megabytes_line).Padded := fun hpad =>
    absurd (hpad _ rfl _ List.mem_cons_self) (by decide)
  have hearly := readReply_early hpad _ [] hnone (Ctrl.sent_unread _ [])
  obtain ⟨c', hread, hmore⟩ := h _ _ [] hnone (Ctrl.sent_unread _ [])
  rw [hread, hmore] at hearly
  exact absurd hearly (lt_irrefl _)

end OpenBambu.Ftps
