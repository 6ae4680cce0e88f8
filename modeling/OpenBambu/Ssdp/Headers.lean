import OpenBambu.Json.Layout
import OpenBambu.Lan.Registry

/-!
# Announcements of printers

A printer announces itself in a datagram of header lines. `parse` looks for the end of the start line:
the first CRLF anywhere in the datagram, and only without one the first line feed. The headers become
the JSON text Studio gets, from which the address and the serial of the printer go into the registry.
-/

namespace OpenBambu.Ssdp

open OpenBambu.Foundation
open OpenBambu.Json (isWs compact Value)
open OpenBambu.Lan (StringMap System Process registryPutIpSerial)

/-! ## The parser -/

/-- What `trim` takes away are the blanks of JSON. -/
def trim (s : Bytes) : Bytes := (s.dropWhile isWs).rdropWhile isWs

abbrev Headers := StringMap

/-- `emplace`: the first value of a key stays. -/
def Headers.set (h : Headers) (key value : Bytes) : Headers :=
  if (h.lookup (lc key)).isSome then h else h.insert (lc key) value

def Headers.value (h : Headers) (key : Bytes) : Bytes := (h.lookup key).getD []

/-- The field on a header line. -/
def readField (line : Bytes) : Option (Bytes × Bytes) :=
  match cut Ascii.colon line with
  | none => none
  | some (k, v) => if trim k = [] then none else some (trim k, trim v)

def addLine (h : Headers) (line : Bytes) : Headers :=
  match readField line with
  | none => h
  | some (k, v) => h.set k v

/-- The lines up to the first blank one, without their line ends. -/
def headerLines (rest : Bytes) : List Bytes := ((pieces Ascii.lf rest).map stripCr).takeWhile (· ≠ [])

def crlf : Bytes := [Ascii.cr, Ascii.lf]

/-- The start line, and what the parser takes for the text behind it. -/
def startLine (data : Bytes) : Option (Bytes × Bytes) :=
  match findText crlf data with
  | some p => some p
  | none => cut Ascii.lf data

def parse (data : Bytes) : Option Headers :=
  if data.length < 4 then none
  else
    match startLine data with
    | none => none
    | some (start, rest) =>
        if (findText (ascii "HTTP/1.") start).isNone then none
        else some ((headerLines rest).foldl addLine ∅)

/-! ## The JSON text -/

def jsonEscape (s : Bytes) : Bytes := Json.escape s

/-- The members Studio expects, with their values. -/
def deviceInfo (h : Headers) : List (Bytes × Bytes) :=
  [(ascii "dev_name", h.value (ascii "devname.bambu.com")),
    (ascii "dev_id", h.value (ascii "usn")),
    (ascii "dev_ip", h.value (ascii "location")),
    (ascii "dev_type", h.value (ascii "devmodel.bambu.com")),
    (ascii "dev_signal", []),
    (ascii "connect_type", h.value (ascii "devconnect.bambu.com")),
    (ascii "bind_state", h.value (ascii "devbind.bambu.com")),
    (ascii "sec_link", h.value (ascii "devseclink.bambu.com")),
    (ascii "ssdp_version", h.value (ascii "devversion.bambu.com")),
    (ascii "connection_name", h.value (ascii "devinf.bambu.com"))]

def toDeviceInfoJson (h : Headers) : Bytes :=
  compact.object ((deviceInfo h).map fun p => (p.1, jsonEscape p.2))

/-! ## What is recorded for a bind -/

/-- The registry, and the announcements by address. -/
structure BindCache where
  registry : Process
  ssdpJsonByIp : StringMap

def isBlank (b : Byte) : Bool := b = Ascii.sp || b = Ascii.tab

def trimIpString (s : Bytes) : Bytes := (s.rdropWhile isWs).dropWhile isBlank

def cacheSsdpJsonForBind (sys : System) (c : BindCache) (json : Bytes) : BindCache :=
  match Json.parse json with
  | .error _ => c
  | .ok root =>
      let ip := trimIpString (root.find (ascii "dev_ip")).asString
      if ip = [] then c
      else
        let devId := (root.find (ascii "dev_id")).asString
        { registry := if devId = [] then c.registry else registryPutIpSerial sys c.registry ip devId
          ssdpJsonByIp := c.ssdpJsonByIp.insert ip json }

/-! ## What a datagram announces -/

/-- The header lines: those behind the first one, up to the first blank line. -/
def announcedLines (data : Bytes) : List Bytes :=
  match cut Ascii.lf data with
  | none => []
  | some (_, rest) => headerLines rest

/-- The first value the lines give a key. -/
def firstValue (lines : List Bytes) (key : Bytes) : Option Bytes :=
  (lines.filterMap readField).findSome? fun f => if lc f.1 = key then some f.2 else none

def announced (data key : Bytes) : Bytes := (firstValue (announcedLines data) key).getD []

/-- The members and the headers they come from. -/
def infoHeaders : List (Bytes × Bytes) :=
  [(ascii "dev_name", ascii "devname.bambu.com"), (ascii "dev_id", ascii "usn"),
    (ascii "dev_ip", ascii "location"), (ascii "dev_type", ascii "devmodel.bambu.com"),
    (ascii "connect_type", ascii "devconnect.bambu.com"), (ascii "bind_state", ascii "devbind.bambu.com"),
    (ascii "sec_link", ascii "devseclink.bambu.com"), (ascii "ssdp_version", ascii "devversion.bambu.com"),
    (ascii "connection_name", ascii "devinf.bambu.com")]

/-- The text has the members Studio expects, each with the value that was announced. -/
def Tells (data json : Bytes) : Prop :=
  ∃ o, Json.parse json = .ok (.object o) ∧ Json.lookup o (ascii "dev_signal") = some (.string []) ∧
    ∀ p ∈ infoHeaders, Json.lookup o p.1 = some (.string (announced data p.2))

/-- The announced serial is recorded for the announced address, with the text, and nothing else. -/
structure Recorded (data json : Bytes) (c c' : BindCache) : Prop where
  serial : ∀ ip, c'.registry.ipToSerial.lookup ip =
    if ip = announced data (ascii "location") ∧ ip ≠ [] ∧ announced data (ascii "usn") ≠ [] then
      some (announced data (ascii "usn"))
    else c.registry.ipToSerial.lookup ip
  json : ∀ ip, c'.ssdpJsonByIp.lookup ip =
    if ip = announced data (ascii "location") ∧ ip ≠ [] then some json else c.ssdpJsonByIp.lookup ip

/-- Every header line is captured, told and recorded. -/
structure Captures (sys : System) (data : Bytes) (h : Headers) : Prop where
  headers : ∀ key, h.lookup key = firstValue (announcedLines data) key
  json : Tells data (toDeviceInfoJson h)
  recorded : ∀ c, Recorded data (toDeviceInfoJson h) c (cacheSsdpJsonForBind sys c (toDeviceInfoJson h))

/-- Where the start line ends in a bare line feed and a later line in CRLF: the lines up to that one say
nothing the lines behind it do not say first, and if the headers end among them, the lines behind say
nothing more. -/
def NothingLost (data : Bytes) : Prop :=
  ∀ front rest first lost, findText crlf data = some (front, rest) → cut Ascii.lf front = some (first, lost) →
    (∀ key value, firstValue (headerLines (lost ++ crlf)) key = some value →
      firstValue (headerLines rest) key = some value) ∧
    ([] ∈ (pieces Ascii.lf (lost ++ crlf)).map stripCr →
      ∀ key value, firstValue (headerLines rest) key = some value →
        firstValue (headerLines (lost ++ crlf)) key = some value)

/-! ## Headers -/

theorem lookup_set (h : Headers) (k v key : Bytes) :
    (h.set k v).lookup key = (h.lookup key).or (if lc k = key then some v else none) := by
  rw [Headers.set]
  by_cases hkey : lc k = key
  · subst hkey
    rw [if_pos rfl]
    cases hold : h.lookup (lc k) with
    | none => rw [if_neg (by simp), AList.lookup_insert, Option.none_or]
    | some old => rw [if_pos (by rfl), hold, Option.some_or]
  · rw [if_neg hkey, Option.or_none]
    split_ifs with hold
    · rfl
    · exact AList.lookup_insert_ne (Ne.symm hkey)

theorem firstValue_cons (line : Bytes) (lines : List Bytes) (key : Bytes) :
    firstValue (line :: lines) key =
      ((readField line).bind fun f => if lc f.1 = key then some f.2 else none).or (firstValue lines key) := by
  rw [firstValue, List.filterMap_cons]
  cases readField line with
  | none => rfl
  | some f =>
      rw [Option.bind_some]
      simp only [List.findSome?_cons]
      by_cases hkey : lc f.1 = key
      · rw [if_pos hkey]
        rfl
      · rw [if_neg hkey]
        rfl

theorem firstValue_append (xs ys : List Bytes) (key : Bytes) :
    firstValue (xs ++ ys) key = (firstValue xs key).or (firstValue ys key) := by
  rw [firstValue, List.filterMap_append, List.findSome?_append]
  rfl

/-- The parser's loop keeps the first value of every key. -/
theorem lookup_addLines (lines : List Bytes) (h : Headers) (key : Bytes) :
    (lines.foldl addLine h).lookup key = (h.lookup key).or (firstValue lines key) := by
  induction lines generalizing h with
  | nil => exact (Option.or_none).symm
  | cons line lines ih =>
      rw [List.foldl_cons, ih, firstValue_cons, addLine]
      cases readField line with
      | none => rw [Option.bind_none, Option.none_or]
      | some f =>
          obtain ⟨k, v⟩ := f
          rw [Option.bind_some, ← Option.or_assoc, ← lookup_set]

/-- A parsed datagram has the fields of the lines behind what the parser takes for the start line. -/
theorem parse_lookup {data : Bytes} {h : Headers} (hp : parse data = some h) :
    ∃ start rest, startLine data = some (start, rest) ∧
      ∀ key, h.lookup key = firstValue (headerLines rest) key := by
  rw [parse] at hp
  split_ifs at hp with hsize
  cases hstart : startLine data with
  | none =>
      rw [hstart] at hp
      cases hp
  | some p =>
      obtain ⟨start, rest⟩ := p
      rw [hstart] at hp
      simp only at hp
      split_ifs at hp with hhttp
      obtain rfl := Option.some.inj hp
      refine ⟨start, rest, rfl, fun key => ?_⟩
      rw [lookup_addLines, AList.lookup_empty, Option.none_or]

/-! ## Line ends -/

theorem pieces_lost (lost rest : Bytes) :
    pieces Ascii.lf (lost ++ crlf ++ rest) = pieces Ascii.lf (lost ++ crlf) ++ pieces Ascii.lf rest := by
  have hsep := pieces_append_sep Ascii.lf (lost ++ [Ascii.cr]) rest
  simpa [crlf] using hsep

/-- Without a blank line among the lost ones, the headers go on behind them. -/
theorem headerLines_through {lost : Bytes} (h : [] ∉ (pieces Ascii.lf (lost ++ crlf)).map stripCr)
    (rest : Bytes) : headerLines (lost ++ crlf ++ rest) = headerLines (lost ++ crlf) ++ headerLines rest := by
  have hall : ∀ line ∈ (pieces Ascii.lf (lost ++ crlf)).map stripCr, decide (line ≠ []) = true := by
    intro line hline
    apply decide_eq_true
    rintro rfl
    exact h hline
  rw [headerLines, headerLines, headerLines, pieces_lost, List.map_append,
    List.takeWhile_append_of_pos hall, List.takeWhile_eq_self_iff.mpr hall]

/-- A blank line among the lost ones ends the headers. -/
theorem headerLines_stop {lost : Bytes} (h : [] ∈ (pieces Ascii.lf (lost ++ crlf)).map stripCr)
    (rest : Bytes) : headerLines (lost ++ crlf ++ rest) = headerLines (lost ++ crlf) := by
  rw [headerLines, headerLines, pieces_lost, List.map_append, List.takeWhile_append, if_neg]
  intro hlen
  have hall := List.takeWhile_eq_self_iff.mp ((List.takeWhile_prefix _).eq_of_length hlen)
  exact of_decide_eq_true (hall [] h) rfl

/-- Where the parser and the announcement start to read. -/
theorem startLine_announced {data start rest : Bytes} (h : startLine data = some (start, rest)) :
    (announcedLines data = headerLines rest ∧
      ∀ front rest', findText crlf data = some (front, rest') → Ascii.lf ∉ front) ∨
      ∃ first lost, findText crlf data = some (start, rest) ∧ cut Ascii.lf start = some (first, lost) ∧
        announcedLines data = headerLines (lost ++ crlf ++ rest) := by
  rw [startLine] at h
  cases hcrlf : findText crlf data with
  | none =>
      rw [hcrlf] at h
      simp only at h
      rw [announcedLines, h]
      exact Or.inl ⟨rfl, fun front rest' hfind => absurd hfind (by simp)⟩
  | some p =>
      rw [hcrlf] at h
      obtain rfl := Option.some.inj h
      have hdata : data = start ++ (crlf ++ rest) := findText_append hcrlf
      by_cases hlf : Ascii.lf ∈ start
      · obtain ⟨first, lost, hcut, -⟩ := cut_of_mem hlf
        obtain ⟨hstart, hnot⟩ := cut_eq_some hcut
        refine Or.inr ⟨first, lost, rfl, hcut, ?_⟩
        have hfirst : cut Ascii.lf data = some (first, lost ++ crlf ++ rest) := by
          rw [hdata, hstart, List.append_assoc, List.cons_append, ← List.append_assoc lost]
          exact cut_of_not_mem hnot _
        rw [announcedLines, hfirst]
      · left
        have hfirst : cut Ascii.lf data = some (start ++ [Ascii.cr], rest) := by
          have hnot : Ascii.lf ∉ start ++ [Ascii.cr] := by
            rw [List.mem_append, not_or]
            exact ⟨hlf, by decide⟩
          rw [hdata, ← cut_of_not_mem hnot rest]
          simp [crlf]
        rw [announcedLines, hfirst]
        refine ⟨rfl, fun front rest' hfind => ?_⟩
        obtain ⟨rfl, rfl⟩ := Prod.mk.inj (Option.some.inj hfind)
        exact hlf

/-- The parser has every header exactly if what it takes for the start line loses nothing. -/
theorem headers_iff {data : Bytes} {h : Headers} (hp : parse data = some h) :
    (∀ key, h.lookup key = firstValue (announcedLines data) key) ↔ NothingLost data := by
  obtain ⟨start, rest, hstart, hlookup⟩ := parse_lookup hp
  simp only [hlookup]
  rcases startLine_announced hstart with ⟨hsame, hfront⟩ | ⟨first, lost, hfind, hcut, hlines⟩
  · rw [hsame]
    refine iff_of_true (fun key => rfl) fun front rest' first lost hfind hcut => ?_
    rw [cut_eq_none (hfront front rest' hfind)] at hcut
    cases hcut
  · rw [hlines]
    have hone : NothingLost data ↔
        (∀ key value, firstValue (headerLines (lost ++ crlf)) key = some value →
          firstValue (headerLines rest) key = some value) ∧
        ([] ∈ (pieces Ascii.lf (lost ++ crlf)).map stripCr →
          ∀ key value, firstValue (headerLines rest) key = some value →
            firstValue (headerLines (lost ++ crlf)) key = some value) := by
      constructor
      · exact fun hlost => hlost start rest first lost hfind hcut
      · intro hcond front rest' first' lost' hfind' hcut'
        obtain ⟨rfl, rfl⟩ := Prod.mk.inj (Option.some.inj (hfind.symm.trans hfind'))
        obtain ⟨rfl, rfl⟩ := Prod.mk.inj (Option.some.inj (hcut.symm.trans hcut'))
        exact hcond
    rw [hone]
    by_cases hblank : [] ∈ (pieces Ascii.lf (lost ++ crlf)).map stripCr
    · rw [headerLines_stop hblank]
      constructor
      · intro heq
        exact ⟨fun key value hv => (heq key).trans hv, fun _ key value hv => (heq key).symm.trans hv⟩
      · intro hcond key
        apply Option.ext
        intro value
        exact ⟨hcond.2 hblank key value, hcond.1 key value⟩
    · rw [headerLines_through hblank]
      simp only [firstValue_append, hblank, false_imp_iff, and_true]
      refine forall_congr' fun key => ?_
      constructor
      · intro heq value hv
        rw [heq, hv, Option.some_or]
      · intro hcond
        cases hv : firstValue (headerLines (lost ++ crlf)) key with
        | none => rw [Option.none_or]
        | some value => rw [hcond value hv, Option.some_or]

/-! ## The JSON text -/

def infoKeys : List Bytes :=
  [ascii "dev_name", ascii "dev_id", ascii "dev_ip", ascii "dev_type", ascii "dev_signal",
    ascii "connect_type", ascii "bind_state", ascii "sec_link", ascii "ssdp_version", ascii "connection_name"]

theorem infoKeys_word : ∀ key ∈ infoKeys, Json.isWord key = true := by decide +kernel

/-- The text is that of an object with the members of `deviceInfo`. -/
theorem parse_deviceInfo (h : Headers) :
    Json.parse (toDeviceInfoJson h) =
      .ok (.object (Json.ofMembers ((deviceInfo h).map fun p => (p.1, .string p.2)))) := by
  have hkeys : (deviceInfo h).map Prod.fst = infoKeys := rfl
  have hplain : ∀ p ∈ deviceInfo h, Json.PlainKey p.1 := fun p hp =>
    Json.plainKey_of_word (infoKeys_word p.1 (hkeys ▸ List.mem_map_of_mem hp))
  exact (compact.readsAs_strings hplain).parse_self

theorem nodup_infoKeys : infoKeys.Nodup := by
  simp only [infoKeys, ascii, String.reduceToList, List.map_cons, List.map_nil]
  decide +kernel

theorem lookup_deviceInfo {h : Headers} {p : Bytes × Bytes} (hp : p ∈ deviceInfo h) :
    Json.lookup ((deviceInfo h).map fun p => (p.1, .string p.2)) p.1 = some (.string p.2) := by
  have hkeys : ((deviceInfo h).map fun p => (p.1, Value.string p.2)).map Prod.fst = infoKeys := rfl
  have hmem : (p.1, Value.string p.2) ∈ (deviceInfo h).map fun p => (p.1, .string p.2) :=
    List.mem_map_of_mem hp
  exact Json.lookup_of_mem (hkeys ▸ nodup_infoKeys) hmem

/-- The headers the members come from, and the one that has none. -/
theorem mem_deviceInfo (h : Headers) :
    (ascii "dev_signal", []) ∈ deviceInfo h ∧ ∀ p ∈ infoHeaders, (p.1, h.value p.2) ∈ deviceInfo h := by
  constructor
  · simp [deviceInfo]
  · simp [infoHeaders, deviceInfo]

theorem tells {data : Bytes} {h : Headers}
    (hh : ∀ key, h.lookup key = firstValue (announcedLines data) key) : Tells data (toDeviceInfoJson h) := by
  have hvalue : ∀ key, h.value key = announced data key := fun key => congrArg (·.getD []) (hh key)
  obtain ⟨hsignal, hmem⟩ := mem_deviceInfo h
  refine ⟨_, parse_deviceInfo h, ?_, fun p hp => ?_⟩
  · rw [(Json.lookup_ofMembers _ _).2]
    exact lookup_deviceInfo hsignal
  · rw [(Json.lookup_ofMembers _ _).2, ← hvalue]
    exact lookup_deviceInfo (hmem p hp)

/-! ## The record for a bind -/

/-- The text has neither a blank in front nor one behind. -/
structure Trimmed (s : Bytes) : Prop where
  front : ∀ b, s.head? = some b → isWs b = false
  back : ∀ b, s.getLast? = some b → isWs b = false

theorem trimmed_trim (s : Bytes) : Trimmed (trim s) where
  front := by
    intro b hb
    obtain ⟨t, ht⟩ := List.rdropWhile_prefix isWs (s.dropWhile isWs)
    have hfirst : (s.dropWhile isWs).head? = some b := by
      rw [← ht, List.head?_append, show (List.rdropWhile isWs (s.dropWhile isWs)).head? = some b from hb,
        Option.some_or]
    have hnot := List.head?_dropWhile_not isWs s
    rw [hfirst] at hnot
    exact hnot
  back := by
    intro b hb
    have hne : trim s ≠ [] := by
      intro hnil
      rw [hnil] at hb
      cases hb
    have hlast := List.rdropWhile_last_not isWs (s.dropWhile isWs) hne
    obtain rfl := Option.some.inj (hb.symm.trans (List.getLast?_eq_some_getLast hne))
    exact Bool.eq_false_iff.mpr hlast

theorem trimIpString_trimmed {s : Bytes} (h : Trimmed s) : trimIpString s = s := by
  have hback : s.rdropWhile isWs = s := by
    rw [List.rdropWhile_eq_self_iff]
    intro hne
    rw [h.back _ (List.getLast?_eq_some_getLast hne)]
    simp
  rw [trimIpString, hback]
  cases s with
  | nil => rfl
  | cons b s =>
      have hb : isBlank b = false := by
        have hfront := h.front b rfl
        rw [isWs] at hfront
        rw [isBlank]
        revert hfront
        generalize decide (b = Ascii.sp) = x
        generalize decide (b = Ascii.tab) = y
        cases x <;> cases y <;> simp
      rw [List.dropWhile_cons, hb]
      rfl

theorem firstValue_trimmed {lines : List Bytes} {key value : Bytes} (h : firstValue lines key = some value) :
    Trimmed value := by
  obtain ⟨f, hf, hvalue⟩ := List.exists_of_findSome?_eq_some h
  obtain ⟨line, -, hread⟩ := List.mem_filterMap.mp hf
  split_ifs at hvalue with hkey
  obtain rfl := Option.some.inj hvalue
  rw [readField] at hread
  cases hcut : cut Ascii.colon line with
  | none =>
      rw [hcut] at hread
      cases hread
  | some p =>
      rw [hcut] at hread
      simp only at hread
      split_ifs at hread with hempty
      obtain rfl := Option.some.inj hread
      exact trimmed_trim p.2

theorem announced_trimmed (data key : Bytes) : Trimmed (announced data key) := by
  rw [announced]
  cases hvalue : firstValue (announcedLines data) key with
  | none => exact ⟨fun b hb => (nomatch hb), fun b hb => (nomatch hb)⟩
  | some value => exact firstValue_trimmed hvalue


theorem lookup_putIpSerial (sys : System) (p : Process) {ip serial : Bytes} (hip : ip ≠ [])
    (hserial : serial ≠ []) (key : Bytes) :
    (registryPutIpSerial sys p ip serial).ipToSerial.lookup key =
      if key = ip then some serial else p.ipToSerial.lookup key := by
  have hwrite : ∀ q, (Lan.writeStateFile sys q).ipToSerial = q.ipToSerial := by
    intro q
    rw [Lan.writeStateFile]
    split_ifs
    · rfl
    · rfl
  rw [registryPutIpSerial, if_neg (by tauto)]
  split_ifs with hsame hkey hkey
  · rw [hkey, hsame]
  · rfl
  · rw [hwrite, hkey]
    exact AList.lookup_insert _
  · rw [hwrite]
    exact AList.lookup_insert_ne hkey

theorem recorded {sys : System} {data json : Bytes} (h : Tells data json) (c : BindCache) :
    Recorded data json c (cacheSsdpJsonForBind sys c json) := by
  obtain ⟨o, hparse, -, htold⟩ := h
  have hip : ((Value.object o).find (ascii "dev_ip")).asString = announced data (ascii "location") := by
    rw [Json.find_word (by decide +kernel), Value.asObject,
      htold (ascii "dev_ip", ascii "location") (by decide +kernel)]
    rfl
  have hid : ((Value.object o).find (ascii "dev_id")).asString = announced data (ascii "usn") := by
    rw [Json.find_word (by decide +kernel), Value.asObject,
      htold (ascii "dev_id", ascii "usn") (by decide +kernel)]
    rfl
  rw [cacheSsdpJsonForBind, hparse]
  simp only [hip, hid, trimIpString_trimmed (announced_trimmed data _)]
  by_cases hempty : announced data (ascii "location") = []
  · rw [if_pos hempty]
    refine ⟨fun ip => ?_, fun ip => ?_⟩
    · rw [if_neg fun h => h.2.1 (h.1.trans hempty)]
    · rw [if_neg fun h => h.2 (h.1.trans hempty)]
  · rw [if_neg hempty]
    have hne : ∀ ip, ip = announced data (ascii "location") → ip ≠ [] := fun ip h => h ▸ hempty
    refine ⟨fun ip => ?_, fun ip => ?_⟩
    · by_cases hserial : announced data (ascii "usn") = []
      · simp only [if_pos hserial]
        rw [if_neg fun h => h.2.2 hserial]
      · simp only [if_neg hserial]
        rw [lookup_putIpSerial sys c.registry hempty hserial]
        refine if_congr ?_ rfl rfl
        exact ⟨fun h => ⟨h, hne ip h, hserial⟩, fun h => h.1⟩
    · change (AList.insert (announced data (ascii "location")) json c.ssdpJsonByIp).lookup ip = _
      by_cases hsame : ip = announced data (ascii "location")
      · rw [if_pos ⟨hsame, hne ip hsame⟩, hsame]
        exact AList.lookup_insert _
      · rw [if_neg fun h => hsame h.1]
        exact AList.lookup_insert_ne hsame

/-! ## The whole announcement -/

/-- Every header of an accepted datagram is captured, told and recorded exactly if nothing is lost with
the start line. -/
theorem captures_iff (sys : System) {data : Bytes} {h : Headers} (hp : parse data = some h) :
    Captures sys data h ↔ NothingLost data := by
  rw [← headers_iff hp]
  constructor
  · exact fun hc => hc.headers
  · intro hh
    exact ⟨hh, tells hh, recorded (tells hh)⟩

/-- A start line that ends in CRLF loses nothing. -/
theorem captures_ordinary :
    let data := ascii "NOTIFY * HTTP/1.1\r\nLocation: 192.168.1.9\nUSN: 00M\r\n\r\n"
    ∃ h, parse data = some h ∧ Captures .plain data h := by
  intro data
  have hsome : (parse data).isSome = true := by decide +kernel
  obtain ⟨h, hp⟩ := Option.isSome_iff_exists.mp hsome
  refine ⟨h, hp, (captures_iff .plain hp).mpr ?_⟩
  intro front rest first lost hfind hcut
  have hfront : findText crlf data = some (ascii "NOTIFY * HTTP/1.1", data.drop 19) := by decide +kernel
  obtain ⟨rfl, -⟩ := Prod.mk.inj (Option.some.inj (hfront.symm.trans hfind))
  exact absurd hcut (by rw [cut_eq_none (by decide +kernel)]; simp)

/-- The address and the serial are lost where only a later line ends in CRLF. -/
theorem captures_fails :
    let data := ascii "NOTIFY * HTTP/1.1\nLocation: 192.168.1.9\nUSN: 00M\r\nDevName.bambu.com: X\r\n\r\n"
    ∃ h, parse data = some h ∧ ¬ Captures .plain data h := by
  intro data
  have hsome : (parse data).isSome = true := by decide +kernel
  obtain ⟨h, hp⟩ := Option.isSome_iff_exists.mp hsome
  refine ⟨h, hp, fun hc => ?_⟩
  have hlookup : (parse data).bind (fun h => h.lookup (ascii "usn")) = none := by decide +kernel
  rw [hp, Option.bind_some, hc.headers] at hlookup
  exact absurd hlookup (by decide +kernel)

end OpenBambu.Ssdp
