import OpenBambu.Foundation.Calendar
import OpenBambu.Ftps.Reply
import OpenBambu.Ftps.Transfer

/-!
# Directory listings

`parse_ls_line` reads a line of `ls -l` by its columns, and `list_entries` runs it over the lines
that came over the data connection. `Row` is an entry of a directory with its line.
-/

namespace OpenBambu.Ftps

open OpenBambu.Foundation

structure Entry where
  name : Bytes
  size : Nat
  mtime : Nat
  isDir : Bool
  deriving DecidableEq, Repr

/-- An `Entry` that nothing has been written to. -/
def Entry.fresh : Entry := ⟨[], 0, 0, false⟩

def months : List Bytes :=
  [ascii "jan", ascii "feb", ascii "mar", ascii "apr", ascii "may", ascii "jun",
    ascii "jul", ascii "aug", ascii "sep", ascii "oct", ascii "nov", ascii "dec"]

/-- `ls_month_index`: 1 to 12, or 0. -/
def lsMonthIndex (tok : Bytes) : Nat :=
  if lc tok ∈ months then months.idxOf (lc tok) + 1 else 0

/-- A token: its bytes, and the line from its start on. -/
structure Tok where
  text : Bytes
  onwards : Bytes

theorem dropWhile_shorter {p : Byte → Bool} {c : Byte} {s line : Bytes} (h : line.dropWhile p = c :: s)
    (q : Byte → Bool) (hq : q c = true) : ((c :: s).dropWhile q).length < line.length := by
  rw [List.dropWhile_cons_of_pos hq]
  calc (s.dropWhile q).length ≤ s.length := List.length_dropWhile_le q s
    _ < (c :: s).length := Nat.lt_succ_self _
    _ ≤ line.length := h ▸ List.length_dropWhile_le p line

/-- The tokens between runs of blanks. -/
def tokens (line : Bytes) : List Tok :=
  match _h : line.dropWhile (· = Ascii.sp) with
  | [] => []
  | c :: s => ⟨(c :: s).takeWhile (· ≠ Ascii.sp), c :: s⟩ :: tokens ((c :: s).dropWhile (· ≠ Ascii.sp))
termination_by line.length
decreasing_by exact dropWhile_shorter _h _ (by simpa using head_dropWhile (· = Ascii.sp) line c (by rw [_h]; rfl))

/-- The farthest that a date may lie ahead. -/
def kSixMonths : Int := 60 * 60 * 24 * 183

/-- A time without a year, which is looked for around `now`. -/
def yearless (tm : Tm) (now : Int) : Int :=
  let candidate := timegm { tm with year := (gmtime now).year }
  if candidate > now + kSixMonths then
    -- `timegm` has brought the fields into their ranges
    timegm { gmtime candidate with year := (gmtime candidate).year - 1 }
  else candidate

/-- The time that the three date columns stand for, if they can be read and it is behind the epoch. -/
def lsTime (mon day ty : Bytes) (now : Int) (mtime : Nat) : Nat :=
  let mo := lsMonthIndex mon
  let day := atoi day
  if 0 < mo ∧ 0 < day ∧ ty ≠ [] then
    match cut Ascii.colon ty with
    | some (hour, minute) =>
        let candidate := yearless ⟨0, mo - 1, day, atoi hour, atoi minute, 0⟩ now
        if candidate > 0 then candidate.toNat else mtime
    | none =>
        let yr := atoi ty
        if yr ≥ 1970 then
          let candidate := timegm ⟨yr - 1900, mo - 1, day, 0, 0, 0⟩
          if candidate > 0 then candidate.toNat else mtime
        else mtime
  else mtime

def arrow : Bytes := ascii " -> "

/-- A name without what stands behind an arrow in it. -/
def cutArrow (name : Bytes) : Bytes :=
  match findText arrow name with
  | some (before, _) => before
  | none => name

/-- `parse_ls_line`. -/
def parseLsLine (line : Bytes) (e : Entry) (now : Int) : Entry :=
  if line = [] then e
  else
    let e := { e with isDir := line.head? = some (Ascii.letter 'd') }
    match tokens line with
    | _ :: _ :: _ :: _ :: size :: mon :: day :: ty :: name :: _ =>
        { e with
          size := (World.strtoull size.text).getD 0
          mtime := lsTime mon.text day.text ty.text now e.mtime
          name := cutArrow name.onwards }
    | _ => e

/-- The loop of `list_entries`. It asks for the time anew at each line: `clock n` is what it finds
when `n` more lines are to come. -/
def parseEntries (clock : Nat → Int) : List Bytes → List Entry
  | [] => []
  | line :: lines =>
      if stripCr line = [] then parseEntries clock lines
      else
        let e := parseLsLine (stripCr line) .fresh (clock lines.length)
        if e.name = [] ∨ e.name = ascii "." ∨ e.name = ascii ".." then parseEntries clock lines
        else e :: parseEntries clock lines

/-- The entries of a whole listing. -/
def listingEntries (clock : Nat → Int) (body : Bytes) : List Entry :=
  parseEntries clock (pieces Ascii.lf body)

/-! ## Lines by columns -/

theorem tokens_of_blanks {line rest : Bytes} (h : line.dropWhile (· = Ascii.sp) = rest.dropWhile (· = Ascii.sp)) :
    tokens line = tokens rest := by
  rw [tokens, tokens]
  split <;> split
  · rfl
  · rename_i hl c s hr
    rw [← h, hl] at hr
    cases hr
  · rename_i c s hl hr
    rw [h, hr] at hl
    cases hl
  · rename_i c s hl d u hr
    obtain ⟨rfl, rfl⟩ := List.cons.inj (hl.symm.trans (h.trans hr))
    rfl

/-- A column of a listing, with more or fewer blanks behind it. -/
structure Column where
  text : Bytes
  pad : Nat
  some_text : text ≠ []
  no_blank : Ascii.sp ∉ text
  one_line : Ascii.lf ∉ text

def Column.bytes (c : Column) : Bytes := c.text ++ List.replicate (c.pad + 1) Ascii.sp

theorem takeWhile_not_mem {sep : Byte} {text : Bytes} (h : sep ∉ text) (rest : Bytes) :
    (text ++ sep :: rest).takeWhile (· ≠ sep) = text ∧
      (text ++ sep :: rest).dropWhile (· ≠ sep) = sep :: rest := by
  have hall : ∀ c ∈ text, decide (c ≠ sep) = true := by
    intro c hc
    rw [decide_eq_true_iff]
    rintro rfl
    exact h hc
  rw [List.takeWhile_append_of_pos hall, List.dropWhile_append_of_pos hall]
  simp

theorem tokens_front {line : Bytes} (hne : line ≠ []) (hfront : line.head? ≠ some Ascii.sp) :
    tokens line = ⟨line.takeWhile (· ≠ Ascii.sp), line⟩ :: tokens (line.dropWhile (· ≠ Ascii.sp)) := by
  cases line with
  | nil => exact absurd rfl hne
  | cons c s =>
      have hc : ¬decide (c = Ascii.sp) = true := by simpa using hfront
      have hdrop : (c :: s).dropWhile (· = Ascii.sp) = c :: s := List.dropWhile_cons_of_neg hc
      rw [tokens]
      split
      · rename_i hnil
        rw [hdrop] at hnil
        cases hnil
      · rename_i d u hcons
        obtain ⟨rfl, rfl⟩ := List.cons.inj (hdrop.symm.trans hcons)
        rfl

/-- A column gives a token of its own, and its blanks none. -/
theorem tokens_column (c : Column) (rest : Bytes) :
    tokens (c.bytes ++ rest) = ⟨c.text, c.bytes ++ rest⟩ :: tokens rest := by
  have hshape : c.bytes ++ rest = c.text ++ Ascii.sp :: (List.replicate c.pad Ascii.sp ++ rest) := by
    rw [Column.bytes, List.replicate_succ, List.append_assoc, List.cons_append]
  obtain ⟨htake, hdrop⟩ := takeWhile_not_mem c.no_blank (List.replicate c.pad Ascii.sp ++ rest)
  rw [← hshape] at htake hdrop
  have hblanks : tokens (Ascii.sp :: (List.replicate c.pad Ascii.sp ++ rest)) = tokens rest := by
    refine tokens_of_blanks ?_
    rw [← List.cons_append, ← List.replicate_succ]
    exact List.dropWhile_append_of_pos fun b hb => decide_eq_true (List.eq_of_mem_replicate hb)
  have hfront : (c.bytes ++ rest).head? ≠ some Ascii.sp := by
    rw [hshape]
    cases htext : c.text with
    | nil => exact absurd htext c.some_text
    | cons b s =>
        intro hb
        obtain rfl := Option.some.inj hb
        exact c.no_blank (htext ▸ List.mem_cons_self)
  have hne : c.bytes ++ rest ≠ [] := by
    rw [hshape]
    simp
  rw [tokens_front hne hfront, htake, hdrop, hblanks]

inductive Kind where
  | regular
  | directory
  | symlink (target : Bytes)
  deriving DecidableEq, Repr

/-- The first letter of the column of permissions. -/
def Kind.letter : Kind → Byte
  | .regular => Ascii.minus
  | .directory => Ascii.letter 'd'
  | .symlink _ => Ascii.letter 'l'

/-- What stands behind the name. -/
def Kind.behind : Kind → Bytes
  | .symlink target => arrow ++ target
  | _ => []

/-- An entry of a directory, and its line of `ls -l`. The name of a symlink has no arrow. -/
structure Row where
  kind : Kind
  name : Bytes
  size : Nat
  mode : Column
  links : Column
  owner : Column
  group : Column
  sizes : Column
  month : Column
  day : Column
  time : Column
  crlf : Bool
  mode_kind : mode.text.head? = some kind.letter
  size_text : sizes.text = decimal size
  size_fits : size < 2 ^ 64
  some_name : name ≠ []
  name_front : name.head? ≠ some Ascii.sp
  name_line : Ascii.lf ∉ name
  name_cr : Ascii.cr ∉ name
  link : ∀ target, kind = .symlink target → Ascii.lf ∉ target ∧ ¬arrow <:+: name

namespace Row

def columns (r : Row) : List Column :=
  [r.mode, r.links, r.owner, r.group, r.sizes, r.month, r.day, r.time]

def front (r : Row) : Bytes := r.columns.flatMap Column.bytes

def line (r : Row) : Bytes := r.front ++ (r.name ++ r.kind.behind)

/-- The line with its ending. -/
def bytes (r : Row) : Bytes := r.line ++ (if r.crlf then [Ascii.cr, Ascii.lf] else [Ascii.lf])

def isDir (r : Row) : Bool := r.kind = .directory

/-- The entries that stand for the directory itself and for its parent. -/
def isDot (r : Row) : Bool := r.name = ascii "." || r.name = ascii ".."

/-- The name comes back whole: it has no arrow, or it is that of a symlink and does not make one
together with the blank of the arrow behind it. -/
def NameKept (r : Row) : Prop :=
  match r.kind with
  | .symlink _ => ¬ascii " ->" <:+ r.name
  | _ => ¬arrow <:+: r.name

end Row

theorem strtoull_decimal {n : Nat} (h : n < 2 ^ 64) : World.strtoull (decimal n) = some n := by
  obtain ⟨hspace, hminus, hplus, hrun⟩ := digits_scanned (decimal_digits n)
  simp only [World.strtoull, hspace, hminus, hplus, or_self, if_false, hrun, decimal_ne_nil,
    ofDecimal_decimal, if_neg (Nat.not_le.mpr h), ge_iff_le]

theorem head_front (r : Row) (text : Bytes) : (r.front ++ text).head? = some r.kind.letter := by
  rw [← r.mode_kind, Row.front, Row.columns, List.flatMap_cons, Column.bytes]
  cases hmode : r.mode.text with
  | nil => exact absurd hmode r.mode.some_text
  | cons c s => rfl

theorem letter_directory (r : Row) : decide (some r.kind.letter = some (Ascii.letter 'd')) = r.isDir := by
  rw [Row.isDir, decide_eq_decide]
  cases r.kind with
  | regular => decide
  | directory => decide
  | symlink target => exact iff_of_false (show ¬some (Ascii.letter 'l') = some (Ascii.letter 'd') by decide) nofun

/-- A line is read by its columns, with the arrow cut off whatever stands behind them. -/
theorem parseLsLine_columns (r : Row) {text : Bytes} (htext : text ≠ [])
    (hfront : text.head? ≠ some Ascii.sp) (now : Int) :
    parseLsLine (r.front ++ text) .fresh now =
      ⟨cutArrow text, r.size, lsTime r.month.text r.day.text r.time.text now 0, r.isDir⟩ := by
  have hne : r.front ++ text ≠ [] := by simp [htext]
  have htokens : tokens (r.front ++ text) = tokens (r.mode.bytes ++ (r.links.bytes ++ (r.owner.bytes ++
      (r.group.bytes ++ (r.sizes.bytes ++ (r.month.bytes ++ (r.day.bytes ++ (r.time.bytes ++ text)))))))) := by
    simp only [Row.front, Row.columns, List.flatMap_cons, List.flatMap_nil, List.append_assoc, List.nil_append]
  simp only [tokens_column, tokens_front htext hfront] at htokens
  rw [parseLsLine, if_neg hne]
  simp only [htokens, head_front, letter_directory, r.size_text, strtoull_decimal r.size_fits, Option.getD_some]
  rfl

/-! ## Names and arrows -/

theorem findText_eq_none {needle s : Bytes} (hneedle : needle ≠ []) :
    findText needle s = none ↔ ¬needle <:+: s := by
  induction s with
  | nil => simp [findText, hneedle]
  | cons c s ih =>
      rw [findText, List.infix_cons_iff, ← startsWith_iff]
      split_ifs with h
      · simp [h]
      · simp [h, ih]

theorem cutArrow_eq_self {name : Bytes} : cutArrow name = name ↔ ¬arrow <:+: name := by
  rw [← findText_eq_none (by decide), cutArrow]
  cases hfind : findText arrow name with
  | none => exact iff_of_true rfl rfl
  | some p =>
      refine iff_of_false (fun h => ?_) nofun
      have hlength := congrArg List.length (findText_append hfind)
      have hname := congrArg List.length h
      simp only [arrow, ascii, List.length_append] at hlength hname
      simp at hlength
      omega

theorem arrow_bytes : arrow = [0x20, 0x2d, 0x3e, 0x20] := by decide

/-- An arrow at the front of a name with another one behind it lies in the name, or takes the blank
of the other. -/
theorem arrow_before {name target : Bytes} (h : arrow <+: name ++ (arrow ++ target)) (hne : name ≠ []) :
    arrow <+: name ∨ name = ascii " ->" := by
  rw [arrow_bytes] at h ⊢
  match name, hne with
  | [a], _ => simp at h
  | [a, b], _ => simp at h
  | [a, b, c], _ =>
      right
      simp only [List.cons_append, List.nil_append, List.cons_prefix_cons] at h
      obtain ⟨rfl, rfl, rfl, -⟩ := h
      decide
  | a :: b :: c :: d :: name, _ =>
      left
      simpa [List.cons_prefix_cons] using h

/-- The name of a symlink without an arrow comes back, unless it ends in all of an arrow but its
last blank. -/
theorem cutArrow_symlink {name : Bytes} (target : Bytes) (h : ¬arrow <:+: name) :
    cutArrow (name ++ (arrow ++ target)) = name ↔ ¬ascii " ->" <:+ name := by
  induction name with
  | nil =>
      rw [List.nil_append, cutArrow, findText_self]
      exact iff_of_true rfl (by decide)
  | cons c name ih =>
      rw [List.infix_cons_iff, not_or] at h
      have hne : c :: name ≠ [] := List.cons_ne_nil c name
      rw [List.suffix_cons_iff, not_or, cutArrow, List.cons_append, findText, ← List.cons_append]
      by_cases hstart : startsWith ((c :: name) ++ (arrow ++ target)) arrow = true
      · have hname := (arrow_before (startsWith_iff.mp hstart) hne).resolve_left h.1
        rw [if_pos hstart]
        exact iff_of_false hne.symm fun hnot => hnot.1 hname.symm
      · have hname : ascii " ->" ≠ c :: name := by
          intro hname
          refine hstart (startsWith_iff.mpr ?_)
          rw [← hname, ← List.append_assoc]
          exact (by decide : arrow <+: ascii " ->" ++ arrow).trans (List.prefix_append _ target)
        rw [if_neg hstart, and_iff_right hname, ← ih h.2, cutArrow]
        cases hfind : findText arrow (name ++ (arrow ++ target)) with
        | none =>
            exact absurd (List.infix_append name arrow target) ((findText_eq_none (by decide)).mp (by simpa using hfind))
        | some p => simp

/-! ## Whole listings -/

theorem stripCr_of_not_mem {line : Bytes} (h : Ascii.cr ∉ line) : stripCr line = line := by
  rw [stripCr, if_neg fun hlast => h (List.mem_of_getLast? hlast)]

theorem stripCr_behind (front : Bytes) {line : Bytes} (h : line ≠ []) :
    stripCr (front ++ line) = front ++ stripCr line := by
  rw [stripCr, stripCr, List.getLast?_append_of_ne_nil _ h]
  split_ifs
  · rw [List.dropLast_append_of_ne_nil h]
  · rfl

theorem stripCr_arrow (target : Bytes) : stripCr (arrow ++ target) = arrow ++ stripCr target := by
  cases target with
  | nil => decide
  | cons c target => exact stripCr_behind arrow (List.cons_ne_nil c target)

namespace Row

/-- What stands behind the name in the line that is parsed. A carriage return at the end of a target
is taken for part of the ending. -/
def behindRead (r : Row) : Bytes :=
  match r.kind with
  | .symlink target => arrow ++ (if r.crlf then target else stripCr target)
  | _ => []

/-- The name that the line gives. -/
def nameRead (r : Row) : Bytes := cutArrow (r.name ++ r.behindRead)

/-- The line as it is cut out of the listing. -/
def rawLine (r : Row) : Bytes := r.line ++ (if r.crlf then [Ascii.cr] else [])

theorem nameRead_eq (r : Row) : r.nameRead = r.name ↔ r.NameKept := by
  unfold nameRead behindRead NameKept
  cases hkind : r.kind with
  | regular => rw [List.append_nil]; exact cutArrow_eq_self
  | directory => rw [List.append_nil]; exact cutArrow_eq_self
  | symlink target => exact cutArrow_symlink _ (r.link target hkind).2

theorem stripCr_rawLine (r : Row) : stripCr r.rawLine = r.front ++ (r.name ++ r.behindRead) := by
  have hne : r.name ≠ [] := r.some_name
  unfold rawLine line behindRead
  cases hcrlf : r.crlf with
  | true =>
      rw [if_pos rfl, stripCr_append]
      cases r.kind <;> rfl
  | false =>
      rw [if_neg Bool.false_ne_true, List.append_nil, stripCr_behind _ (by simp [hne])]
      cases r.kind with
      | regular =>
          show r.front ++ stripCr (r.name ++ []) = r.front ++ (r.name ++ [])
          rw [List.append_nil, stripCr_of_not_mem r.name_cr]
      | directory =>
          show r.front ++ stripCr (r.name ++ []) = r.front ++ (r.name ++ [])
          rw [List.append_nil, stripCr_of_not_mem r.name_cr]
      | symlink target =>
          show r.front ++ stripCr (r.name ++ (arrow ++ target)) = r.front ++ (r.name ++ (arrow ++ stripCr target))
          rw [stripCr_behind r.name (by simp [arrow_bytes]), stripCr_arrow]

theorem rawLine_some (r : Row) : stripCr r.rawLine ≠ [] := by
  simp [stripCr_rawLine, r.some_name]

/-- The name that is read is cut at an arrow; the other columns come out as they were written. -/
theorem parseLsLine_rawLine (r : Row) (now : Int) : parseLsLine (stripCr r.rawLine) .fresh now =
    ⟨r.nameRead, r.size, lsTime r.month.text r.day.text r.time.text now 0, r.isDir⟩ := by
  have htext : r.name ++ r.behindRead ≠ [] := by simp [r.some_name]
  have hfront : (r.name ++ r.behindRead).head? ≠ some Ascii.sp := by
    rw [List.head?_append_of_ne_nil _ r.some_name]
    exact r.name_front
  rw [stripCr_rawLine, parseLsLine_columns r htext hfront]
  rfl

theorem lf_not_mem_column (c : Column) : Ascii.lf ∉ c.bytes := by
  rw [Column.bytes, List.mem_append, not_or]
  exact ⟨c.one_line, fun h => absurd (List.eq_of_mem_replicate h) (by decide)⟩

theorem lf_not_mem_behind (r : Row) : Ascii.lf ∉ r.kind.behind := by
  cases hkind : r.kind with
  | regular => exact List.not_mem_nil
  | directory => exact List.not_mem_nil
  | symlink target =>
      rw [Kind.behind, List.mem_append, not_or]
      exact ⟨by decide, (r.link target hkind).1⟩

theorem lf_not_mem_rawLine (r : Row) : Ascii.lf ∉ r.rawLine := by
  have hcolumns : Ascii.lf ∉ r.front := by
    rw [front, List.mem_flatMap]
    rintro ⟨c, -, hc⟩
    exact lf_not_mem_column c hc
  have hcr : Ascii.lf ∉ (if r.crlf then [Ascii.cr] else []) := by
    cases r.crlf <;> decide
  simp only [rawLine, line, List.mem_append, not_or]
  exact ⟨⟨hcolumns, r.name_line, r.lf_not_mem_behind⟩, hcr⟩

theorem bytes_eq (r : Row) : r.bytes = r.rawLine ++ [Ascii.lf] := by
  rw [bytes, rawLine, List.append_assoc]
  cases r.crlf <;> rfl

/-- What a caller is shown of an entry, the time apart. -/
def seen (r : Row) : Bytes × Nat × Bool := (r.name, r.size, r.isDir)

/-- What the loop makes of the line. -/
def taken (r : Row) : Option (Bytes × Nat × Bool) :=
  if r.nameRead = [] ∨ r.nameRead = ascii "." ∨ r.nameRead = ascii ".." then none
  else some (r.nameRead, r.size, r.isDir)

/-- What the directory holds under the line. -/
def meant (r : Row) : Option (Bytes × Nat × Bool) := if !r.isDot then some r.seen else none

end Row

def Entry.seen (e : Entry) : Bytes × Nat × Bool := (e.name, e.size, e.isDir)

theorem pieces_rows (rows : List Row) :
    pieces Ascii.lf (rows.flatMap Row.bytes) = rows.map Row.rawLine := by
  induction rows with
  | nil => rfl
  | cons r rows ih =>
      rw [List.flatMap_cons, Row.bytes_eq, List.append_assoc, List.singleton_append,
        pieces_of_not_mem r.lf_not_mem_rawLine, ih, List.map_cons]

theorem parseEntries_rows (clock : Nat → Int) (rows : List Row) :
    (parseEntries clock (rows.map Row.rawLine)).map Entry.seen = rows.filterMap Row.taken := by
  induction rows with
  | nil => rfl
  | cons r rows ih =>
      rw [List.map_cons, parseEntries, if_neg r.rawLine_some, r.parseLsLine_rawLine, List.filterMap_cons, Row.taken]
      dsimp only
      split_ifs
      · exact ih
      · rw [List.map_cons, ih]
        rfl

/-- Two lists of results that agree in length wherever they can agree place by place. -/
theorem filterMap_eq_iff {α β : Type*} {f g : α → Option β} (h : ∀ a, g a = none → f a = none) (l : List α) :
    l.filterMap f = l.filterMap g ↔ ∀ a ∈ l, f a = g a := by
  have hshort : ∀ l : List α, (l.filterMap f).length ≤ (l.filterMap g).length := by
    intro l
    induction l with
    | nil => exact le_rfl
    | cons a l ih =>
        cases hg : g a with
        | none => rw [List.filterMap_cons_none hg, List.filterMap_cons_none (h a hg)]; exact ih
        | some b =>
            rw [List.filterMap_cons_some hg, List.length_cons, List.filterMap_cons]
            cases f a with
            | none => exact ih.trans (Nat.le_succ _)
            | some c => exact Nat.succ_le_succ ih
  induction l with
  | nil => exact iff_of_true rfl nofun
  | cons a l ih =>
      rw [List.forall_mem_cons]
      cases hg : g a with
      | none =>
          rw [List.filterMap_cons_none hg, List.filterMap_cons_none (h a hg), h a hg, and_iff_right rfl]
          exact ih
      | some b =>
          cases hf : f a with
          | none =>
              -- one result is missing, and no later line makes up for it
              rw [List.filterMap_cons_none hf, List.filterMap_cons_some hg]
              refine iff_of_false (fun heq => ?_) nofun
              have hlength := congrArg List.length heq
              have := hshort l
              rw [List.length_cons] at hlength
              omega
          | some c =>
              rw [List.filterMap_cons_some hf, List.filterMap_cons_some hg, List.cons.injEq, Option.some.injEq]
              exact and_congr Iff.rfl ih

theorem Row.isDot_iff (r : Row) : r.isDot = true ↔ r.name = ascii "." ∨ r.name = ascii ".." := by
  rw [Row.isDot, Bool.or_eq_true, decide_eq_true_iff, decide_eq_true_iff]

theorem nameKept_of_dot {r : Row} (h : r.isDot = true) : r.NameKept := by
  have harrow : ¬arrow <:+: r.name ∧ ¬ascii " ->" <:+ r.name := by
    rcases r.isDot_iff.mp h with hname | hname
    · rw [hname]
      decide
    · rw [hname]
      decide
  unfold Row.NameKept
  cases r.kind with
  | symlink target => exact harrow.2
  | regular => exact harrow.1
  | directory => exact harrow.1

theorem taken_of_meant_none {r : Row} (h : r.meant = none) : r.taken = none := by
  have hdot : r.isDot = true := by
    unfold Row.meant at h
    simpa using h
  rw [Row.taken, r.nameRead_eq.mpr (nameKept_of_dot hdot), if_pos (.inr (r.isDot_iff.mp hdot))]

theorem taken_eq_meant (r : Row) : r.taken = r.meant ↔ r.NameKept := by
  by_cases hdot : r.isDot = true
  · have hmeant : r.meant = none := by simp [Row.meant, hdot]
    exact iff_of_true ((taken_of_meant_none hmeant).trans hmeant.symm) (nameKept_of_dot hdot)
  · have hname : ¬(r.name = [] ∨ r.name = ascii "." ∨ r.name = ascii "..") := by
      rw [← r.isDot_iff, not_or]
      exact ⟨r.some_name, hdot⟩
    have hmeant : r.meant = some r.seen := by simp [Row.meant, hdot]
    rw [← r.nameRead_eq, hmeant, Row.seen, Row.taken]
    constructor
    · intro h
      split_ifs at h
      exact (Prod.mk.inj (Option.some.inj h)).1
    · intro h
      rw [h, if_neg hname]

theorem listingEntries_taken (clock : Nat → Int) (rows : List Row) :
    (listingEntries clock (rows.flatMap Row.bytes)).map Entry.seen = rows.filterMap Row.taken := by
  rw [listingEntries, pieces_rows, parseEntries_rows]

/-- A listing gives the entries of the directory in order, with their names, sizes and kinds,
exactly when every name comes back whole. -/
theorem listingEntries_iff (clock : Nat → Int) (rows : List Row) :
    (listingEntries clock (rows.flatMap Row.bytes)).map Entry.seen =
      (rows.filter fun r => !r.isDot).map Row.seen ↔ ∀ r ∈ rows, r.NameKept := by
  have hmeant : (rows.filter fun r => !r.isDot).map Row.seen = rows.filterMap Row.meant := by
    rw [← List.filterMap_eq_map, List.filterMap_filter]
    rfl
  rw [listingEntries_taken, hmeant, filterMap_eq_iff]
  · simp only [taken_eq_meant]
  · exact fun r => taken_of_meant_none

def Column.of (text : Bytes) (h : text ≠ [] ∧ Ascii.sp ∉ text ∧ Ascii.lf ∉ text) : Column :=
  ⟨text, 0, h.1, h.2.1, h.2.2⟩

/-- A regular file with an arrow in its name. -/
theorem listing_shortens : ¬∀ (clock : Nat → Int) (rows : List Row),
    (listingEntries clock (rows.flatMap Row.bytes)).map Entry.seen =
      (rows.filter fun r => !r.isDot).map Row.seen := by
  let file : Row :=
    { kind := .regular
      name := ascii "a -> b.3mf"
      size := 7
      mode := .of (ascii "-rw-r--r--") (by decide)
      links := .of (ascii "1") (by decide)
      owner := .of (ascii "root") (by decide)
      group := .of (ascii "root") (by decide)
      sizes := .of (ascii "7") (by decide)
      month := .of (ascii "Apr") (by decide)
      day := .of (ascii "21") (by decide)
      time := .of (ascii "12:00") (by decide)
      crlf := true
      mode_kind := by decide
      size_text := by decide
      size_fits := by decide
      some_name := by decide
      name_front := by decide
      name_line := by decide
      name_cr := by decide
      link := nofun }
  intro h
  have hlisting := h (fun _ => 0) [file]
  rw [listingEntries_taken] at hlisting
  exact absurd hlisting (by decide)

end OpenBambu.Ftps
