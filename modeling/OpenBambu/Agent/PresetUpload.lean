import OpenBambu.Agent.PresetValues

/-!
# The body of an uploaded preset

`build_upload_body` writes the envelope and the options of a preset by hand, `json::parse` and
`fill_values_from_full` read them back.
-/

namespace OpenBambu.Agent

open OpenBambu.Foundation OpenBambu.Json

/-! ## The body -/

/-- The keys of the envelope. -/
def isTop (k : Bytes) : Bool := k = ascii "version" || k = ascii "type" || k = ascii "base_id"

/-- The keys that stay out of `setting`: those of the envelope, the slot for errors, and what the
session left in the map. -/
def isReserved (k : Bytes) : Bool :=
  isTop k || k = ascii "code" || k = ascii "name" || k = ascii "setting_id" || k = ascii "user_id" ||
    k = ascii "public"

def getOr (values : Values) (key : String) : Bytes := (values.find (ascii key)).getD []

/-- The loop over the map; `first` is whether nothing has been written yet. -/
def optionsText (first : Bool) : List (Bytes × Bytes) → Bytes
  | [] => []
  | (k, v) :: rest =>
      if isReserved k then optionsText first rest
      else (if first then [] else [Ascii.comma]) ++
        (escape k ++ Ascii.colon :: escape v ++ optionsText false rest)

def buildUploadBody (name : Bytes) (values : Values) (isCreate : Bool) : Bytes :=
  let bid := getOr values "base_id"
  let typ := getOr values "type"
  let ver := getOr values "version"
  [Ascii.lbrace] ++
    (if isCreate = false ∧ bid ≠ [] then ascii "\"base_id\":" ++ escape bid ++ [Ascii.comma] else []) ++
    (ascii "\"name\":" ++ escape name) ++
    (if isCreate then ascii ",\"public\":false" else []) ++
    (ascii ",\"setting\":\x7b" ++ optionsText true values.entries ++ [Ascii.rbrace]) ++
    (if isCreate then
      (ascii ",\"type\":" ++ escape typ) ++ (ascii ",\"version\":" ++ escape ver)
    else
      (if typ ≠ [] then ascii ",\"type\":" ++ escape typ else []) ++
        (if ver ≠ [] then ascii ",\"version\":" ++ escape ver else [])) ++
    (if isCreate ∧ bid ≠ [] then ascii ",\"base_id\":" ++ escape bid else []) ++
    [Ascii.rbrace]

/-! ## The options -/

/-- The map without the reserved keys, as an object of strings. -/
def keptOptions (entries : List (Bytes × Bytes)) : Object :=
  (entries.filter fun e => !isReserved e.1).map fun e => (e.1, .string e.2)

theorem keptOptions_reserved {e : Bytes × Bytes} (h : isReserved e.1 = true) (rest : List (Bytes × Bytes)) :
    keptOptions (e :: rest) = keptOptions rest := by
  rw [keptOptions, List.filter_cons_of_neg (by simp [h]), keptOptions]

theorem keptOptions_kept {e : Bytes × Bytes} (h : isReserved e.1 = false) (rest : List (Bytes × Bytes)) :
    keptOptions (e :: rest) = (e.1, .string e.2) :: keptOptions rest := by
  rw [keptOptions, List.filter_cons_of_pos (by simp [h]), List.map_cons, keptOptions]

theorem optionsText_more (entries : List (Bytes × Bytes)) :
    optionsText false entries ++ [Ascii.rbrace] = dumpMoreMembers (keptOptions entries) := by
  induction entries with
  | nil => rfl
  | cons e rest ih =>
      cases h : isReserved e.1 with
      | true => rw [optionsText, if_pos h, ih, keptOptions_reserved h]
      | false =>
        rw [optionsText, if_neg (Bool.not_eq_true _ ▸ h), keptOptions_kept h, dumpMoreMembers, ← ih, Value.dump]
        simp

/-- The loop writes what `dump` writes of the options that are kept. -/
theorem optionsText_first (entries : List (Bytes × Bytes)) :
    optionsText true entries ++ [Ascii.rbrace] = dumpMembers (keptOptions entries) := by
  induction entries with
  | nil => rfl
  | cons e rest ih =>
      cases h : isReserved e.1 with
      | true => rw [optionsText, if_pos h, ih, keptOptions_reserved h]
      | false =>
        rw [optionsText, if_neg (Bool.not_eq_true _ ▸ h), keptOptions_kept h, dumpMembers, ← optionsText_more,
          Value.dump]
        simp

theorem lt_of_compare {a b : Bytes} (h : compare a b = .lt) : a < b := by
  induction a generalizing b with
  | nil =>
      cases b with
      | nil => cases h
      | cons d b => exact List.nil_lt_cons d b
  | cons c a ih =>
      cases b with
      | nil => cases h
      | cons d b =>
          rw [List.compare_cons_cons, Ordering.then_eq_lt] at h
          rw [List.cons_lt_cons_iff]
          rcases h with hlt | ⟨heq, hrest⟩
          · exact .inl (compareOfLessAndEq_eq_lt.1 hlt)
          · exact .inr ⟨Std.LawfulEqOrd.compare_eq_iff_eq.1 heq, ih hrest⟩

theorem keptOptions_sorted (values : Values) : Sorted (keptOptions values.entries) := by
  rw [Sorted, keptOptions, List.pairwise_map]
  exact (values.sorted.filter _).imp fun h => lt_of_compare h

theorem keptOptions_writable (values : Values) : Writable (.object (keptOptions values.entries)) := by
  refine .object (keptOptions_sorted values) ?_
  intro p hp
  obtain ⟨e, -, rfl⟩ := List.mem_map.1 hp
  exact .string _

theorem lookup_kept {entries : List (Bytes × Bytes)} {key v : Bytes}
    (h : OrderedMap.findEntry key entries = some v) (hkey : isReserved key = false) :
    lookup (keptOptions entries) key = some (.string v) := by
  induction entries with
  | nil => cases h
  | cons e rest ih =>
      rw [OrderedMap.findEntry] at h
      by_cases heq : key = e.1
      · rw [if_pos (Std.LawfulEqOrd.compare_eq_iff_eq.2 heq)] at h
        rw [keptOptions_kept (heq ▸ hkey), lookup_cons, if_pos heq, Option.some.inj h]
      · rw [if_neg fun hc => heq (Std.LawfulEqOrd.compare_eq_iff_eq.1 hc)] at h
        cases hres : isReserved e.1 with
        | true => rw [keptOptions_reserved hres, ih h]
        | false => rw [keptOptions_kept hres, lookup_cons, if_neg heq, ih h]

theorem lookup_keptOptions {values : Values} {key v : Bytes} (h : values.find key = some v)
    (hkey : isReserved key = false) : lookup (keptOptions values.entries) key = some (.string v) :=
  lookup_kept h hkey

/-! ## The members -/

def ofNonempty (key : String) (s : Bytes) : List Entry :=
  if s = [] then [] else [Entry.ofString (ascii key) s]

/-- The members of the body in the order they are written. -/
def uploadMembers (name : Bytes) (values : Values) (isCreate : Bool) : List Entry :=
  let typ := getOr values "type"
  let ver := getOr values "version"
  let setting : Entry :=
    ⟨ascii "setting", (Value.object (keptOptions values.entries)).dump, .object (keptOptions values.entries)⟩
  if isCreate then
    [Entry.ofString (ascii "name") name, ⟨ascii "public", ascii "false", .bool false⟩, setting,
      Entry.ofString (ascii "type") typ, Entry.ofString (ascii "version") ver] ++
        ofNonempty "base_id" (getOr values "base_id")
  else
    ofNonempty "base_id" (getOr values "base_id") ++ [Entry.ofString (ascii "name") name, setting] ++
      ofNonempty "type" typ ++ ofNonempty "version" ver

/-- A key between quotes, a colon, and the text of the value. -/
def keyAndText (p : Bytes × Bytes) : Bytes := Ascii.quote :: (p.1 ++ Ascii.quote :: Ascii.colon :: p.2)

theorem compact_more (ps : List (Bytes × Bytes)) :
    compact.more ps = (ps.flatMap fun p => Ascii.comma :: keyAndText p) ++ [Ascii.rbrace] := by
  induction ps with
  | nil => rfl
  | cons p ps ih =>
      rw [Layout.more, ih, List.flatMap_cons, List.cons_append, List.cons_append, List.append_assoc]
      rfl

theorem compact_object (p : Bytes × Bytes) (ps : List (Bytes × Bytes)) :
    compact.object (p :: ps) =
      Ascii.lbrace :: (keyAndText p ++ ((ps.flatMap fun p => Ascii.comma :: keyAndText p) ++ [Ascii.rbrace])) := by
  rw [Layout.object, compact_more]
  rfl

/-- The literals of the writer are keys between quotes. -/
theorem keyTexts :
    ascii "\"base_id\":" = Ascii.quote :: (ascii "base_id" ++ [Ascii.quote, Ascii.colon]) ∧
    ascii "\"name\":" = Ascii.quote :: (ascii "name" ++ [Ascii.quote, Ascii.colon]) ∧
    ascii ",\"public\":false" =
      Ascii.comma :: Ascii.quote :: (ascii "public" ++ Ascii.quote :: Ascii.colon :: ascii "false") ∧
    ascii ",\"setting\":\x7b" =
      Ascii.comma :: Ascii.quote :: (ascii "setting" ++ [Ascii.quote, Ascii.colon, Ascii.lbrace]) ∧
    ascii ",\"type\":" = Ascii.comma :: Ascii.quote :: (ascii "type" ++ [Ascii.quote, Ascii.colon]) ∧
    ascii ",\"version\":" =
      Ascii.comma :: Ascii.quote :: (ascii "version" ++ [Ascii.quote, Ascii.colon]) ∧
    ascii ",\"base_id\":" =
      Ascii.comma :: Ascii.quote :: (ascii "base_id" ++ [Ascii.quote, Ascii.colon]) := by
  decide +kernel

theorem buildUploadBody_eq (name : Bytes) (values : Values) (isCreate : Bool) :
    buildUploadBody name values isCreate =
      compact.object ((uploadMembers name values isCreate).map Entry.written) := by
  obtain ⟨hbase, hname, hpublic, hsetting, htype, hversion, hlast⟩ := keyTexts
  have hdump : (Value.object (keptOptions values.entries)).dump =
      Ascii.lbrace :: (optionsText true values.entries ++ [Ascii.rbrace]) := by
    rw [Value.dump, optionsText_first]
  unfold buildUploadBody uploadMembers
  simp only [hbase, hname, hpublic, hsetting, htype, hversion, hlast, hdump]
  cases isCreate with
  | true =>
      by_cases hb : getOr values "base_id" = []
      · simp [hb, ofNonempty, compact_object, keyAndText, Entry.written, Entry.ofString]
      · simp [hb, ofNonempty, compact_object, keyAndText, Entry.written, Entry.ofString]
  | false =>
      by_cases hb : getOr values "base_id" = []
      · by_cases ht : getOr values "type" = [] <;> by_cases hv : getOr values "version" = [] <;>
          simp [hb, ht, hv, ofNonempty, compact_object, keyAndText, Entry.written, Entry.ofString]
      · by_cases ht : getOr values "type" = [] <;> by_cases hv : getOr values "version" = [] <;>
          simp [hb, ht, hv, ofNonempty, compact_object, keyAndText, Entry.written, Entry.ofString]

theorem plainKey_upload {key : String}
    (h : key ∈ ["base_id", "name", "type", "version", "public", "setting"]) : PlainKey (ascii key) := by
  have hword : ∀ key ∈ ["base_id", "name", "type", "version", "public", "setting"],
      isWord (ascii key) = true := by
    decide +kernel
  exact plainKey_of_word (hword key h)

theorem ofNonempty_good {key : String} (h : PlainKey (ascii key)) (s : Bytes) :
    ∀ e ∈ ofNonempty key s, e.Good := by
  unfold ofNonempty
  split_ifs
  · simp
  · exact List.forall_mem_singleton.2 (good_ofString h s)

theorem uploadMembers_good (name : Bytes) (values : Values) (isCreate : Bool) :
    ∀ e ∈ uploadMembers name values isCreate, e.Good := by
  have hbase : PlainKey (ascii "base_id") := plainKey_upload (by simp)
  have hname : PlainKey (ascii "name") := plainKey_upload (by simp)
  have htype : PlainKey (ascii "type") := plainKey_upload (by simp)
  have hversion : PlainKey (ascii "version") := plainKey_upload (by simp)
  have hpublic : (⟨ascii "public", ascii "false", .bool false⟩ : Entry).Good :=
    ⟨plainKey_upload (by simp), (Writable.bool false).readsAs⟩
  have hsetting : (⟨ascii "setting", (Value.object (keptOptions values.entries)).dump,
      .object (keptOptions values.entries)⟩ : Entry).Good :=
    ⟨plainKey_upload (by simp), (keptOptions_writable values).readsAs⟩
  unfold uploadMembers
  cases isCreate with
  | true =>
      rw [if_pos rfl, List.forall_mem_append]
      refine ⟨?_, ofNonempty_good hbase _⟩
      simp only [List.forall_mem_cons]
      exact ⟨good_ofString hname _, hpublic, hsetting, good_ofString htype _, good_ofString hversion _, nofun⟩
  | false =>
      rw [if_neg (by decide)]
      simp only [List.forall_mem_append, List.forall_mem_cons]
      exact ⟨⟨⟨ofNonempty_good hbase _, good_ofString hname _, hsetting, nofun⟩, ofNonempty_good htype _⟩,
        ofNonempty_good hversion _⟩

/-- The object that the body is. -/
def uploadObject (name : Bytes) (values : Values) (isCreate : Bool) : Object :=
  ofMembers ((uploadMembers name values isCreate).map fun e => (e.key, e.value))

theorem parse_buildUploadBody (name : Bytes) (values : Values) (isCreate : Bool) :
    parse (buildUploadBody name values isCreate) = .ok (.object (uploadObject name values isCreate)) := by
  rw [buildUploadBody_eq]
  exact (compact.readsAs (uploadMembers_good name values isCreate)).parse_self

/-- What the body has under each of its keys. -/
theorem lookup_upload (name : Bytes) (values : Values) (isCreate : Bool) :
    lookup (uploadObject name values isCreate) (ascii "name") = some (.string name) ∧
    lookup (uploadObject name values isCreate) (ascii "setting") =
      some (.object (keptOptions values.entries)) ∧
    (∀ key ∈ ["type", "version"], lookup (uploadObject name values isCreate) (ascii key) =
      if isCreate = true ∨ getOr values key ≠ [] then some (.string (getOr values key)) else none) ∧
    lookup (uploadObject name values isCreate) (ascii "base_id") =
      if getOr values "base_id" ≠ [] then some (.string (getOr values "base_id")) else none := by
  unfold uploadObject
  simp only [(lookup_ofMembers _ _).2, uploadMembers, List.forall_mem_cons]
  cases isCreate with
  | true =>
      by_cases hb : getOr values "base_id" = [] <;>
        simp +decide [hb, ofNonempty, Entry.ofString, lookup_cons, lookup_nil]
  | false =>
      by_cases hb : getOr values "base_id" = [] <;> by_cases ht : getOr values "type" = [] <;>
        by_cases hv : getOr values "version" = [] <;>
          simp +decide [hb, ht, hv, ofNonempty, Entry.ofString, lookup_cons, lookup_nil]

/-! ## Upload and download -/

/-- The body shows the name, the type and the version, which an update leaves out when they are
empty, the base where there is one, and the options that are kept. -/
structure Uploaded (name : Bytes) (values : Values) (isCreate : Bool) (o : Object) : Prop where
  name : lookup o (ascii "name") = some (.string name)
  type : lookup o (ascii "type") =
    if isCreate = true ∨ getOr values "type" ≠ [] then some (.string (getOr values "type")) else none
  version : lookup o (ascii "version") =
    if isCreate = true ∨ getOr values "version" ≠ [] then some (.string (getOr values "version")) else none
  baseId : lookup o (ascii "base_id") =
    if getOr values "base_id" ≠ [] then some (.string (getOr values "base_id")) else none
  setting : lookup o (ascii "setting") = some (.object (keptOptions values.entries))

/-- Every entry that is not reserved is there again, but the time is the server's. -/
def Recovered (values out : Values) : Prop :=
  ∀ key v, values.find key = some v → isReserved key = false → key ≠ ascii "updated_time" → out.find key = some v

theorem uploaded (name : Bytes) (values : Values) (isCreate : Bool) :
    Uploaded name values isCreate (uploadObject name values isCreate) := by
  obtain ⟨hname, hsetting, hboth, hbase⟩ := lookup_upload name values isCreate
  exact ⟨hname, hboth "type" (by simp), hboth "version" (by simp), hbase, hsetting⟩

/-- The server answers with the body and the id it gave. -/
def withSettingId (o : Object) (settingId : Bytes) : Value :=
  .object (assign o (ascii "setting_id") (.string settingId))

theorem settingOf_withSettingId {o : Object} {setting : Object}
    (h : lookup o (ascii "setting") = some (.object setting)) (settingId : Bytes) :
    settingOf (withSettingId o settingId) = setting := by
  rw [settingOf, find_word (by decide +kernel), withSettingId, Value.asObject, lookup_assign,
    if_neg (by decide), h]
  rfl

theorem recovered (name : Bytes) (values : Values) (isCreate : Bool) (settingId userId : Bytes) :
    Recovered values
      (fillValuesFromFull (withSettingId (uploadObject name values isCreate) settingId) userId) := by
  intro key v hv hkey htime
  have hordered : Ordered (withSettingId (uploadObject name values isCreate) settingId) :=
    ordered_assign (parse_ordered (parse_buildUploadBody name values isCreate)) _ .string
  have huser : key ≠ ascii "user_id" := by
    rintro rfl
    exact absurd hkey (by decide +kernel)
  refine find_option hordered userId ?_ htime huser (v := .string v)
  rw [settingOf_withSettingId (uploaded name values isCreate).setting]
  exact lookup_keptOptions hv hkey

/-- What is uploaded is read as it was written, and downloading it gives every option back. -/
theorem upload_round_trip (name : Bytes) (values : Values) (isCreate : Bool) (settingId userId : Bytes) :
    ∃ o, parse (buildUploadBody name values isCreate) = .ok (.object o) ∧ Uploaded name values isCreate o ∧
      Recovered values (fillValuesFromFull (withSettingId o settingId) userId) := by
  refine ⟨uploadObject name values isCreate, parse_buildUploadBody name values isCreate, ?_, ?_⟩
  · exact uploaded name values isCreate
  · exact recovered name values isCreate settingId userId

/-- A map with nothing but the time of its last update. -/
def datedPreset : Values := OrderedMap.empty.insert (ascii "updated_time") (ascii "5")

theorem upload_not_whole :
    (¬ ∃ o, parse (buildUploadBody (ascii "A") datedPreset false) = .ok (.object o) ∧
      lookup o (ascii "type") = some (.string (getOr datedPreset "type"))) ∧
    ¬ ∃ o, parse (buildUploadBody (ascii "A") datedPreset false) = .ok (.object o) ∧
      (fillValuesFromFull (withSettingId o (ascii "P1")) (ascii "1")).find (ascii "updated_time") =
        datedPreset.find (ascii "updated_time") := by
  constructor
  · rintro ⟨o, hparse, htype⟩
    rw [parse_buildUploadBody] at hparse
    obtain rfl := Value.object.inj (Except.ok.inj hparse)
    rw [(uploaded _ _ _).type, if_neg (by decide)] at htype
    cases htype
  · rintro ⟨o, hparse, htime⟩
    rw [parse_buildUploadBody] at hparse
    obtain rfl := Value.object.inj (Except.ok.inj hparse)
    revert htime
    decide +kernel

end OpenBambu.Agent
