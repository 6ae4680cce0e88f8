import OpenBambu.Agent.CoverFiles

/-!
# The requests of the cover server

Studio fetches covers from a port on the loopback interface. Whatever bytes arrive there,
`handle_one` opens at most a file of the cover directory itself, and the addresses that `url_for` gives
lead to the files that `path_for` names.
-/

namespace OpenBambu.Agent

open OpenBambu.Foundation

/-! ## Reading the head -/

/-- The buffer, less the byte for its NUL. -/
def kHeadRoom : Nat := 4095

def headEnd : Bytes := [Ascii.cr, Ascii.lf, Ascii.cr, Ascii.lf]

/-- The buffer as `strstr` and `strchr` see it. -/
def cString (buf : Bytes) : Bytes := buf.takeWhile (· ≠ 0)

/-- The bytes in the buffer when the loop ends, over what the calls of `recv` find. An empty read is the
end of the stream, or an error. -/
def readHead (got : Bytes) : List Bytes → Bytes
  | [] => got
  | chunk :: chunks =>
      if kHeadRoom ≤ got.length ∨ chunk = [] then got
      else
        let got := got ++ chunk.take (kHeadRoom - got.length)
        if (findText headEnd (cString got)).isSome then got else readHead got chunks

/-! ## The request line -/

/-- A name that `path_for` could have given. -/
def safeBasename (s : Bytes) : Bool :=
  if s = [] ∨ 64 < s.length then false
  else if Ascii.slash ∈ s then false
  else if Ascii.backslash ∈ s then false
  else if (findText (ascii "..") s).isSome then false
  else if !startsWith s (ascii "cover-") then false
  else if s.length < 4 ∨ s.drop (s.length - 4) ≠ ascii ".png" then false
  else true

structure Status where
  code : Nat
  reason : Bytes
  deriving DecidableEq, Repr

def coverPrefix : Bytes := ascii "/cover/"

/-- Method and file name of a request, or the status it is refused with. -/
def parseRequest (buf : Bytes) : Except Status (Bytes × Bytes) :=
  match cut Ascii.sp (cString buf) with
  | none => .error ⟨400, ascii "Bad Request"⟩
  | some (method, behind) =>
      match cut Ascii.sp behind with
      | none => .error ⟨400, ascii "Bad Request"⟩
      | some (target, _) =>
          if method ≠ ascii "GET" ∧ method ≠ ascii "HEAD" then .error ⟨405, ascii "Method Not Allowed"⟩
          else
            let target := target.takeWhile (· ≠ Ascii.letter '?')
            if !startsWith target coverPrefix then .error ⟨404, ascii "Not Found"⟩
            else
              let base := target.drop coverPrefix.length
              if !safeBasename base then .error ⟨404, ascii "Not Found"⟩ else .ok (method, base)

/-! ## The answer -/

/-- The content of a file, if it exists, at each access in turn. -/
abbrev Disk := Nat → Bytes → Option Bytes

/-- `kWaitMs / kPollMs` -/
def kPolls : Nat := 150

/-- The accesses made until the file exists or the polls are over. -/
def awaitFile (found : Nat → Bool) : Nat → Nat → Nat
  | 0, t => t
  | polls + 1, t => if found t then t + 1 else awaitFile found polls (t + 1)

def sendStatus (s : Status) : Bytes :=
  ascii "HTTP/1.1 " ++ decimal s.code ++ ascii " " ++ s.reason ++
    ascii "\r\nConnection: close\r\nContent-Length: 0\r\n\r\n"

def okHead (length : Nat) : Bytes :=
  ascii "HTTP/1.1 200 OK\r\nConnection: close\r\nContent-Type: image/png\r\nCache-Control: no-store\r\n" ++
    ascii "Content-Length: " ++ decimal length ++ ascii "\r\n\r\n"

/-- What one connection comes to: the file that was served, and the bytes that were sent. -/
structure Answer where
  file : Option Bytes
  sent : Bytes
  deriving DecidableEq, Repr

/-- The part of `handle_one` behind the path. -/
def serveFile (disk : Disk) (method full : Bytes) : Answer :=
  let t := awaitFile (fun t => (disk t full).isSome) kPolls 0
  if (disk t full).isNone then ⟨none, sendStatus ⟨503, ascii "Service Unavailable"⟩⟩
  else
    let body := (disk (t + 1) full).getD []
    ⟨some full, okHead body.length ++ if method = ascii "GET" then body else []⟩

/-- The directory of the covers, and the file of `OBN_COVER_DEBUG_FILE`. -/
structure CoverDirs where
  tempDir : Bytes
  debugFile : Option Bytes

def CoverDirs.full (d : CoverDirs) (base : Bytes) : Bytes :=
  match d.debugFile with
  | none => joinPath d.tempDir base
  | some o => if o ≠ [] then o else joinPath d.tempDir base

def handleOne (d : CoverDirs) (disk : Disk) (chunks : List Bytes) : Answer :=
  match parseRequest (readHead [] chunks) with
  | .error s => ⟨none, sendStatus s⟩
  | .ok (method, base) => serveFile disk method (d.full base)

/-- The debug override is off. -/
def CoverDirs.Plain (d : CoverDirs) : Prop := d.debugFile = none ∨ d.debugFile = some []

theorem CoverDirs.Plain.full {d : CoverDirs} (h : d.Plain) (base : Bytes) : d.full base = joinPath d.tempDir base := by
  unfold CoverDirs.full
  rcases h with h | h
  · rw [h]
  · rw [h]
    rfl

/-! ## What is served -/

/-- A name of a directory's own entry that a cover could have. -/
structure CoverEntry (base : Bytes) : Prop where
  noSlash : Ascii.slash ∉ base
  noNul : (0 : Byte) ∉ base
  notDots : base ≠ ascii "." ∧ base ≠ ascii ".."
  front : ascii "cover-" <+: base
  ending : ascii ".png" <:+ base

theorem safeBasename_iff {s : Bytes} :
    safeBasename s = true ↔ s ≠ [] ∧ s.length ≤ 64 ∧ Ascii.slash ∉ s ∧ Ascii.backslash ∉ s ∧
      findText (ascii "..") s = none ∧ ascii "cover-" <+: s ∧ ascii ".png" <:+ s := by
  have hend : (s.length < 4 ∨ s.drop (s.length - 4) ≠ ascii ".png") ↔ ¬ ascii ".png" <:+ s := by
    rw [List.suffix_iff_eq_drop, show (ascii ".png").length = 4 from rfl, eq_comm (a := ascii ".png")]
    refine ⟨fun h => ?_, Or.inr⟩
    rcases h with h | h
    · intro heq
      have hlen := congrArg List.length heq
      rw [List.length_drop, show (ascii ".png").length = 4 from rfl] at hlen
      omega
    · exact h
  unfold safeBasename
  simp only [hend, ← startsWith_iff, Bool.if_false_left, Bool.and_eq_true, Bool.not_eq_true', decide_eq_false_iff_not,
    not_or, not_lt, not_not, Bool.not_eq_true, Option.isSome_eq_false_iff, Option.isNone_iff_eq_none,
    Bool.not_eq_false, and_true, and_assoc]

theorem parseRequest_base {buf method base : Bytes} (h : parseRequest buf = .ok (method, base)) :
    safeBasename base = true ∧ (0 : Byte) ∉ base := by
  unfold parseRequest at h
  split at h
  · cases h
  · rename_i method' behind hfirst
    split at h
    · cases h
    · rename_i target rest hsecond
      split_ifs at h with hmethod
      dsimp only at h
      split_ifs at h with hfront hbase
      obtain ⟨rfl, rfl⟩ := Prod.mk.inj (Except.ok.inj h)
      refine ⟨by simpa using hbase, fun hzero => ?_⟩
      have hin : (0 : Byte) ∈ cString buf := by
        rw [(cut_eq_some hfirst).1, (cut_eq_some hsecond).1]
        have htarget := (List.takeWhile_prefix _).subset ((List.drop_subset _ _) hzero)
        simp [htarget]
      exact absurd (List.mem_takeWhile_imp hin) (by simp)

theorem parseRequest_method {buf method base : Bytes} (h : parseRequest buf = .ok (method, base)) :
    method = ascii "GET" ∨ method = ascii "HEAD" := by
  unfold parseRequest at h
  split at h
  · cases h
  · split at h
    · cases h
    · split_ifs at h with hmethod
      dsimp only at h
      split_ifs at h
      obtain ⟨rfl, -⟩ := Prod.mk.inj (Except.ok.inj h)
      rw [not_and_or, not_not, not_not] at hmethod
      exact hmethod

/-- What is sent of a file: its length, and to a GET all of it. -/
structure SentWhole (method body sent : Bytes) : Prop where
  get : method = ascii "GET" → sent = okHead body.length ++ body
  head : method = ascii "HEAD" → sent = okHead body.length

/-- A file is looked at once more before it is read. -/
theorem serveFile_served {disk : Disk} {method full path : Bytes} (h : (serveFile disk method full).file = some path) :
    path = full ∧ ∃ t, (disk t full).isSome = true ∧
      SentWhole method ((disk (t + 1) full).getD []) (serveFile disk method full).sent := by
  unfold serveFile at h ⊢
  generalize awaitFile (fun t => (disk t full).isSome) kPolls 0 = t at h ⊢
  by_cases hnone : (disk t full).isNone = true
  · rw [if_pos hnone] at h
    cases h
  · rw [if_neg hnone] at h ⊢
    refine ⟨(Option.some.inj h).symm, t, by simpa [Option.isSome_iff_ne_none] using hnone, ?_, ?_⟩
    · rintro rfl
      rfl
    · rintro rfl
      exact List.append_nil _

theorem serveFile_refused {disk : Disk} {method full : Bytes} (h : (serveFile disk method full).file = none) :
    ∃ s, (serveFile disk method full).sent = sendStatus s := by
  unfold serveFile at h ⊢
  generalize awaitFile (fun t => (disk t full).isSome) kPolls 0 = t at h ⊢
  by_cases hnone : (disk t full).isNone = true
  · exact ⟨_, by rw [if_pos hnone]⟩
  · rw [if_neg hnone] at h
    cases h

theorem safe_entry {base : Bytes} (h : safeBasename base = true) (hzero : (0 : Byte) ∉ base) : CoverEntry base := by
  obtain ⟨-, -, hslash, -, -, hfront, hend⟩ := safeBasename_iff.mp h
  refine ⟨hslash, hzero, ⟨?_, ?_⟩, hfront, hend⟩
  · rintro rfl
    exact absurd hfront.length_le (by decide)
  · rintro rfl
    exact absurd hfront.length_le (by decide)

/-! ## The names that are given out -/

/-- A digit, a lowercase letter or a hyphen: what the name of a cover is made of, but for one dot. -/
def coverChar (c : Byte) : Bool := isDigit c || (0x61 ≤ c && c ≤ 0x7a) || c = Ascii.minus

theorem hexNibble_coverChar {n : Nat} (h : n < 16) : coverChar (hexNibble n) = true := by
  interval_cases n <;> decide

theorem hex8_coverChar (v : UInt32) : ∀ c ∈ hex8 v, coverChar c = true := by
  intro c hc
  obtain ⟨shift, -, rfl⟩ := List.mem_map.mp hc
  exact hexNibble_coverChar (Nat.mod_lt _ (by decide))

theorem decimal_coverChar (n : Nat) : ∀ c ∈ decimal n, coverChar c = true := fun c hc => by
  rw [coverChar, decimal_digits n c hc]
  rfl

/-- The name of a cover less its ending. -/
def coverStem (subtaskName : Bytes) (plateIdx : Nat) (version : Bytes) : Bytes :=
  ascii "cover-" ++ (hex8 (fnv1a32 (keyed subtaskName version)) ++ (ascii "-p" ++
    decimal (if 0 < plateIdx then plateIdx else 1)))

theorem coverFile_stem (n : Bytes) (plate : Nat) (v : Bytes) :
    coverFile n plate v = coverStem n plate v ++ ascii ".png" := by
  simp only [coverFile, coverStem, List.append_assoc]

theorem coverStem_chars (n : Bytes) (plate : Nat) (v : Bytes) : ∀ c ∈ coverStem n plate v, coverChar c = true := by
  intro c hc
  rw [coverStem, List.mem_append, List.mem_append, List.mem_append] at hc
  rcases hc with hc | hc | hc | hc
  · revert c
    decide +kernel
  · exact hex8_coverChar _ c hc
  · revert c
    decide +kernel
  · exact decimal_coverChar _ c hc

/-- A plate index as C passes it: the plates are counted from one. -/
def plateOf (plateIdx : Int32) : Nat := plateIdx.toInt.toNat

theorem coverFile_length (n : Bytes) (plateIdx : Int32) (v : Bytes) :
    (coverFile n (plateOf plateIdx) v).length ≤ 30 := by
  have hlt := plateIdx.toInt_lt
  have hplate : (if 0 < plateOf plateIdx then plateOf plateIdx else 1) < 10 ^ 10 := by
    rw [plateOf]
    split_ifs
    · omega
    · decide
  have hdigits := decimal_length_le hplate (by decide)
  rw [coverFile_stem, coverStem]
  simp only [List.length_append, show (ascii "cover-").length = 6 from rfl, show (ascii "-p").length = 2 from rfl,
    show (ascii ".png").length = 4 from rfl]
  have hhex : ∀ w, (hex8 w).length = 8 := fun w => rfl
  rw [hhex]
  omega

/-- One dot is not two. -/
theorem findText_dots {s : Bytes} (h : s.count Ascii.dot ≤ 1) : findText (ascii "..") s = none := by
  rw [Option.eq_none_iff_forall_ne_some]
  rintro ⟨before, behind⟩ hfound
  rw [findText_append hfound, List.count_append, List.count_append] at h
  have htwo : (ascii "..").count Ascii.dot = 2 := by decide
  omega

theorem coverFile_dots (n : Bytes) (plate : Nat) (v : Bytes) : (coverFile n plate v).count Ascii.dot = 1 := by
  have hstem : (coverStem n plate v).count Ascii.dot = 0 :=
    List.count_eq_zero.mpr fun hc => absurd (coverStem_chars n plate v _ hc) (by decide)
  rw [coverFile_stem, List.count_append, hstem]
  decide

theorem coverFile_chars (n : Bytes) (plate : Nat) (v : Bytes) :
    ∀ c ∈ coverFile n plate v, coverChar c = true ∨ c = Ascii.dot := by
  intro c hc
  rw [coverFile_stem, List.mem_append] at hc
  rcases hc with hc | hc
  · exact Or.inl (coverStem_chars n plate v c hc)
  · revert c
    decide +kernel

/-- No other byte is in the name of a cover. -/
theorem coverFile_not_mem {c : Byte} (h : coverChar c = false) (hdot : c ≠ Ascii.dot) (n : Bytes) (plate : Nat)
    (v : Bytes) : c ∉ coverFile n plate v := by
  intro hc
  rcases coverFile_chars n plate v c hc with hchar | hchar
  · rw [hchar] at h
    cases h
  · exact hdot hchar

theorem coverFile_safe (n : Bytes) (plateIdx : Int32) (v : Bytes) :
    safeBasename (coverFile n (plateOf plateIdx) v) = true := by
  have hlen := coverFile_length n plateIdx v
  refine safeBasename_iff.mpr ⟨?_, by omega, coverFile_not_mem (by decide) (by decide) n _ v,
    coverFile_not_mem (by decide) (by decide) n _ v, findText_dots (coverFile_dots n _ v).le, ?_, ?_⟩
  · rw [coverFile_stem, coverStem]
    simp [ascii]
  · rw [coverFile_stem, coverStem, List.append_assoc]
    exact List.prefix_append _ _
  · rw [coverFile_stem]
    exact List.suffix_append _ _

/-- `fs::path::filename`. -/
def filename (path : Bytes) : Bytes := (behindLast Ascii.slash path).getD path

theorem filename_joinPath (dir : Bytes) {name : Bytes} (h : Ascii.slash ∉ name) :
    filename (joinPath dir name) = name := by
  have hall : name.reverse.takeWhile (· ≠ Ascii.slash) = name.reverse :=
    List.takeWhile_eq_self_iff.mpr fun c hc => decide_eq_true fun heq => h (heq ▸ List.mem_reverse.mp hc)
  have hbehind : ∀ front, behindLast Ascii.slash (front ++ Ascii.slash :: name) = some name := by
    intro front
    have hrev : (front ++ Ascii.slash :: name).reverse = name.reverse ++ Ascii.slash :: front.reverse := by simp
    rw [behindLast, if_pos (by simp), hrev, List.takeWhile_append, hall, if_pos rfl]
    simp
  rw [joinPath, filename]
  split_ifs with hdir
  · rcases hdir with rfl | hlast
    · rw [List.nil_append, behindLast, if_neg (by simpa using h), Option.getD_none]
    · obtain ⟨front, rfl⟩ := List.getLast?_eq_some_iff.mp hlast
      rw [List.append_assoc, List.singleton_append, hbehind, Option.getD_some]
  · rw [hbehind, Option.getD_some]

/-! ## A whole request -/

/-- The bytes of a stream, up to its end. -/
def arriving (chunks : List Bytes) : Bytes := (chunks.takeWhile (· ≠ [])).flatten

theorem arriving_cons {chunk : Bytes} (h : chunk ≠ []) (chunks : List Bytes) :
    arriving (chunk :: chunks) = chunk ++ arriving chunks := by
  rw [arriving, List.takeWhile_cons_of_pos (by simpa using h), List.flatten_cons, arriving]

theorem arriving_end (chunks : List Bytes) : arriving ([] :: chunks) = [] := rfl

/-- The buffer holds the front of the stream: as much as there is room for, or less with the end of the head
in it. -/
theorem readHead_spec (chunks : List Bytes) {got : Bytes} (hgot : got.length ≤ kHeadRoom) :
    readHead got chunks <+: (got ++ arriving chunks).take kHeadRoom ∧
      (readHead got chunks = (got ++ arriving chunks).take kHeadRoom ∨
        (findText headEnd (cString (readHead got chunks))).isSome = true) := by
  induction chunks generalizing got with
  | nil =>
      rw [readHead, show arriving [] = [] from rfl, List.append_nil, List.take_of_length_le hgot]
      exact ⟨List.prefix_rfl, Or.inl rfl⟩
  | cons chunk chunks ih =>
      rw [readHead]
      split_ifs with hstop
      · have hall : (got ++ arriving (chunk :: chunks)).take kHeadRoom = got := by
          rcases hstop with hfull | rfl
          · rw [List.take_append, show kHeadRoom - got.length = 0 by omega, List.take_zero, List.append_nil,
              List.take_of_length_le hgot]
          · rw [arriving_end, List.append_nil, List.take_of_length_le hgot]
        rw [hall]
        exact ⟨List.prefix_rfl, Or.inl rfl⟩
      · rw [not_or, not_le] at hstop
        have hroom : (got ++ chunk.take (kHeadRoom - got.length)).length ≤ kHeadRoom := by
          rw [List.length_append, List.length_take]
          omega
        have hsame : (got ++ chunk.take (kHeadRoom - got.length) ++ arriving chunks).take kHeadRoom =
            (got ++ arriving (chunk :: chunks)).take kHeadRoom := by
          simp only [arriving_cons hstop.2, List.append_assoc, List.take_append, List.take_take, min_self]
          congr 2
          rw [List.length_take]
          rcases le_total chunk.length (kHeadRoom - got.length) with hle | hle
          · rw [min_eq_right hle]
          · rw [min_eq_left hle, Nat.sub_self, Nat.sub_eq_zero_of_le hle]
        dsimp only
        split_ifs with hfound
        · refine ⟨?_, Or.inr hfound⟩
          rw [← hsame, List.take_append, List.take_of_length_le hroom]
          exact List.prefix_append _ _
        · rw [← hsame]
          exact ih hroom

/-- A line without carriage returns that fits the buffer is read whole. -/
theorem readHead_line {line : Bytes} {chunks : List Bytes} (hline : line <+: arriving chunks)
    (hlen : line.length ≤ kHeadRoom) (hcr : Ascii.cr ∉ line) : line <+: readHead [] chunks := by
  have hroom : ([] : Bytes).length ≤ kHeadRoom := Nat.zero_le _
  obtain ⟨hpre, hread⟩ := readHead_spec chunks hroom
  rw [List.nil_append] at hpre hread
  have hfit : line <+: (arriving chunks).take kHeadRoom := List.prefix_take_iff.mpr ⟨hline, hlen⟩
  rcases hread with hread | hfound
  · rw [hread]
    exact hfit
  · rcases List.prefix_or_prefix_of_prefix hfit hpre with h | h
    · exact h
    · obtain ⟨⟨before, behind⟩, hp⟩ := Option.isSome_iff_exists.mp hfound
      have hin : Ascii.cr ∈ cString (readHead [] chunks) := by
        rw [findText_append hp]
        simp [headEnd]
      exact absurd (h.subset ((List.takeWhile_prefix _).subset hin)) hcr

theorem cString_append {line : Bytes} (h : (0 : Byte) ∉ line) (rest : Bytes) :
    cString (line ++ rest) = line ++ cString rest :=
  List.takeWhile_append_of_pos fun _ hc => decide_eq_true fun hzero => h (hzero ▸ hc)

/-- A byte of a request line, up to the query. -/
def Visible (c : Byte) : Prop := 0x20 < c ∧ c ≠ Ascii.letter '?'

instance : DecidablePred Visible := fun c => inferInstanceAs (Decidable (0x20 < c ∧ c ≠ Ascii.letter '?'))

theorem Visible.of_coverChar {c : Byte} (h : coverChar c = true ∨ c = Ascii.dot) : Visible c := by
  have hall : ∀ c : Byte, coverChar c = true ∨ c = Ascii.dot → Visible c := forall_byte (by decide +kernel)
  exact hall c h

/-- A request for a target, with a query behind it or without. Anything may follow. -/
structure Requests (target method : Bytes) (chunks : List Bytes) : Prop where
  known : method = ascii "GET" ∨ method = ascii "HEAD"
  line : ∃ query behind, (query = [] ∨ query.head? = some (Ascii.letter '?')) ∧ (∀ c ∈ query, 0x20 < c) ∧
    query.length ≤ 4000 ∧ arriving chunks = method ++ Ascii.sp :: (target ++ query ++ Ascii.sp :: behind)

theorem takeWhile_query {target query : Bytes} (htarget : Ascii.letter '?' ∉ target)
    (hquery : query = [] ∨ query.head? = some (Ascii.letter '?')) :
    (target ++ query).takeWhile (· ≠ Ascii.letter '?') = target := by
  have hall : ∀ c ∈ target, decide (c ≠ Ascii.letter '?') = true := fun c hc =>
    decide_eq_true fun heq => htarget (heq ▸ hc)
  rw [List.takeWhile_append_of_pos hall]
  cases query with
  | nil => rw [List.takeWhile_nil, List.append_nil]
  | cons c query =>
      obtain rfl := Option.some.inj (hquery.resolve_left (List.cons_ne_nil c query))
      rw [List.takeWhile_cons_of_neg (by simp), List.append_nil]

/-- A target of the name of a cover leads to that name. -/
theorem parseRequest_cover {n method : Bytes} {plateIdx : Int32} {v : Bytes} {chunks : List Bytes}
    (h : Requests (coverPrefix ++ coverFile n (plateOf plateIdx) v) method chunks) :
    parseRequest (readHead [] chunks) = .ok (method, coverFile n (plateOf plateIdx) v) := by
  obtain ⟨hmethod, query, behind, hquestion, hvisible, hlen, harrive⟩ := h
  have hsmall := coverFile_length n plateIdx v
  have hsafe := coverFile_safe n plateIdx v
  have hchars : ∀ c ∈ coverPrefix ++ coverFile n (plateOf plateIdx) v, Visible c := by
    intro c hc
    rcases List.mem_append.mp hc with hc | hc
    · exact (show ∀ c ∈ coverPrefix, Visible c by decide +kernel) c hc
    · exact Visible.of_coverChar (coverFile_chars n _ v c hc)
  have hprefix : coverPrefix.length = 7 := rfl
  generalize coverFile n (plateOf plateIdx) v = file at *
  have hmchars : method.length ≤ 4 ∧ ∀ c ∈ method, (0x20 : Byte) < c := by
    rcases hmethod with rfl | rfl
    · decide +kernel
    · decide +kernel
  have htarget : ∀ c ∈ coverPrefix ++ file ++ query, (0x20 : Byte) < c := by
    intro c hc
    rcases List.mem_append.mp hc with hc | hc
    · exact (hchars c hc).1
    · exact hvisible c hc
  have hline : ∀ c ∈ method ++ Ascii.sp :: (coverPrefix ++ file ++ query ++ [Ascii.sp]), (0x20 : Byte) ≤ c := by
    intro c hc
    rw [List.mem_append, List.mem_cons, List.mem_append, List.mem_singleton] at hc
    rcases hc with hc | rfl | hc | rfl
    · exact UInt8.le_of_lt (hmchars.2 c hc)
    · decide
    · exact UInt8.le_of_lt (htarget c hc)
    · decide
  have hfront : method ++ Ascii.sp :: (coverPrefix ++ file ++ query ++ [Ascii.sp]) <+: arriving chunks :=
    ⟨behind, by rw [harrive]; simp⟩
  obtain ⟨rest, hrest⟩ := readHead_line hfront
    (by simp only [List.length_append, List.length_cons, List.length_nil, kHeadRoom]; omega)
    fun hcr => absurd (hline _ hcr) (by decide)
  have hc : cString (readHead [] chunks) =
      method ++ Ascii.sp :: (coverPrefix ++ file ++ query ++ Ascii.sp :: cString rest) := by
    rw [← hrest, cString_append fun hzero => absurd (hline _ hzero) (by decide)]
    simp
  rw [parseRequest, hc, cut_of_not_mem fun hsp => absurd (hmchars.2 _ hsp) (by decide)]
  dsimp only
  rw [cut_of_not_mem fun hsp => absurd (htarget _ hsp) (by decide)]
  dsimp only
  rw [if_neg (by tauto), takeWhile_query (fun hq => (hchars _ hq).2 rfl) hquestion, startsWith_append,
    List.drop_left, hsafe]
  rfl

/-! ## The law -/

/-- Whatever is read, at most an entry of the directory is served, and what is sent else holds no file. -/
structure Contained (d : CoverDirs) (disk : Disk) (chunks : List Bytes) : Prop where
  served : ∀ path, (handleOne d disk chunks).file = some path →
    ∃ method base, parseRequest (readHead [] chunks) = .ok (method, base) ∧
      (method = ascii "GET" ∨ method = ascii "HEAD") ∧ CoverEntry base ∧ path = joinPath d.tempDir base ∧
        ∃ t, SentWhole method ((disk t path).getD []) (handleOne d disk chunks).sent
  refused : (handleOne d disk chunks).file = none → ∃ s, (handleOne d disk chunks).sent = sendStatus s

/-- The address that is given out ends with the name of the file that is written, and leads to it: the request is
taken, and the file is served if it exists. -/
structure Resolves (port : Nat) (subtaskName : Bytes) (plateIdx : Int32) (version target : Bytes) : Prop where
  url : urlFor port subtaskName (plateOf plateIdx) version = ascii "http://127.0.0.1:" ++ decimal port ++ target
  name : ∀ dir, target = coverPrefix ++ filename (pathFor dir subtaskName (plateOf plateIdx) version)
  answer : ∀ d disk method chunks, CoverDirs.Plain d → Requests target method chunks →
    handleOne d disk chunks = serveFile disk method (pathFor d.tempDir subtaskName (plateOf plateIdx) version)
  file : ∀ d disk method chunks, CoverDirs.Plain d → Requests target method chunks →
    (∀ t, (disk t (pathFor d.tempDir subtaskName (plateOf plateIdx) version)).isSome = true) →
      (handleOne d disk chunks).file = some (pathFor d.tempDir subtaskName (plateOf plateIdx) version)

structure CoverServerLaw : Prop where
  contained : ∀ d disk chunks, CoverDirs.Plain d → Contained d disk chunks
  resolves : ∀ port subtaskName plateIdx version, 0 < port → subtaskName ≠ [] →
    ∃ target, Resolves port subtaskName plateIdx version target

theorem handleOne_contained {d : CoverDirs} (hd : d.Plain) (disk : Disk) (chunks : List Bytes) :
    Contained d disk chunks := by
  cases hparse : parseRequest (readHead [] chunks) with
  | error s =>
      have hanswer : handleOne d disk chunks = ⟨none, sendStatus s⟩ := by rw [handleOne, hparse]
      constructor
      · intro path hpath
        rw [hanswer] at hpath
        cases hpath
      · intro _
        exact ⟨s, by rw [hanswer]⟩
  | ok request =>
      obtain ⟨method, base⟩ := request
      obtain ⟨hsafe, hzero⟩ := parseRequest_base hparse
      have hanswer : handleOne d disk chunks = serveFile disk method (joinPath d.tempDir base) := by
        rw [handleOne, hparse, ← hd.full]
      constructor
      · intro path hpath
        rw [hanswer] at hpath ⊢
        obtain ⟨rfl, t, -, hsent⟩ := serveFile_served hpath
        exact ⟨method, base, hparse, parseRequest_method hparse, safe_entry hsafe hzero, rfl, t + 1, hsent⟩
      · intro hnone
        rw [hanswer] at hnone ⊢
        exact serveFile_refused hnone

/-- A file that exists is served. -/
theorem serveFile_found {disk : Disk} {full : Bytes} (h : ∀ t, (disk t full).isSome = true) (method : Bytes) :
    (serveFile disk method full).file = some full := by
  unfold serveFile
  dsimp only
  rw [if_neg (by simp [Option.isNone_iff_eq_none, ← Option.isSome_iff_ne_none, h])]

theorem coverServer_law : CoverServerLaw := by
  refine ⟨fun d disk chunks hd => handleOne_contained hd disk chunks, fun port n plateIdx v hport hn => ?_⟩
  have hanswer : ∀ d disk method chunks, CoverDirs.Plain d →
      Requests (coverPrefix ++ coverFile n (plateOf plateIdx) v) method chunks →
      handleOne d disk chunks = serveFile disk method (pathFor d.tempDir n (plateOf plateIdx) v) := by
    intro d disk method chunks hd hreq
    rw [handleOne, parseRequest_cover hreq, pathFor, if_neg hn]
    dsimp only
    rw [hd.full]
  refine ⟨coverPrefix ++ coverFile n (plateOf plateIdx) v, ?_, fun dir => ?_, hanswer, ?_⟩
  · rw [urlFor, if_neg (by simp [hn]; omega), coverPrefix, List.append_assoc, List.append_assoc]
  · rw [pathFor, if_neg hn, filename_joinPath dir (coverFile_not_mem (by decide) (by decide) n _ v)]
  · intro d disk method chunks hd hreq hfound
    rw [hanswer d disk method chunks hd hreq]
    exact serveFile_found hfound method

end OpenBambu.Agent
