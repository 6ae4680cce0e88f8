import OpenBambu.Json.IntegerList
import OpenBambu.Print.Published

/-!
# The request as the printer reads it

A mapping of filaments goes into the request as the array it is, or is made one of the integers it lists. Read
as JSON the request has the fields it was made of and no others, whatever bytes are in its strings.
-/

namespace OpenBambu.Print

open OpenBambu.Foundation OpenBambu.Json

/-! ## The fields of a request -/

/-- What `ams_mapping` stands for: nothing, the elements of an array, or the integers between commas. -/
inductive AmsList (useAms : Bool) : Bytes → List Value → Prop
  | blank {mapping : Bytes} (white : Blank mapping) :
      AmsList useAms mapping (if useAms then [.number 0] else [])
  | array {mapping : Bytes} {vs : List Value} (text : parse mapping = .ok (.array vs)) :
      AmsList useAms mapping vs
  | integers {ts : List PaddedInteger} (some : ts ≠ []) (held : ∀ t ∈ ts, t.integer.Held) :
      AmsList useAms (commaList ts) (ts.map fun t => .number t.integer.value)

/-- An array, or nothing in its place. -/
inductive ArrayText : Bytes → List Value → Prop
  | absent : ArrayText [] []
  | array {text : Bytes} {vs : List Value} (text_ok : parse text = .ok (.array vs)) : ArrayText text vs

/-- The elements of the three mappings. -/
structure Slots where
  ams : List Value
  ams2 : List Value
  nozzle : List Value

structure Mappings (p : PrintParams) (slots : Slots) : Prop where
  amsMapping : AmsList p.taskUseAms p.amsMapping slots.ams
  amsMapping2 : ArrayText p.amsMapping2 slots.ams2
  nozzleMapping : ArrayText p.nozzleMapping slots.nozzle
  ints : ∀ n ∈ [p.autoBedLeveling, p.autoOffsetCali, p.extruderCaliManualMode, p.autoFlowCali],
    n.natAbs ≤ 2 ^ 31

/-- The strings of a request. -/
def stringFields (p : PrintParams) (opts : ProjectFileOpts) (seqId : Bytes) : List (Bytes × Value) :=
  [(ascii "sequence_id", .string seqId),
    (ascii "command", .string (ascii "project_file")),
    (ascii "param", .string (ascii "Metadata/plate_" ++ signed (if p.plateIndex ≤ 0 then 1 else p.plateIndex) ++
      ascii ".gcode")),
    (ascii "project_id", .string opts.projectId),
    (ascii "profile_id", .string opts.profileId),
    (ascii "task_id", .string opts.taskId),
    (ascii "subtask_id", .string opts.subtaskId),
    (ascii "subtask_name", .string (if p.projectName = [] then p.taskName else p.projectName)),
    (ascii "file", .string (stripLeadingSlash opts.filePath)),
    (ascii "url", .string opts.url),
    (ascii "md5", .string opts.md5),
    (ascii "bed_type", .string (if p.taskBedType = [] then ascii "auto" else p.taskBedType))]

/-- The switches and the mappings behind them. -/
def switchFields (p : PrintParams) (slots : Slots) : List (Bytes × Value) :=
  [(ascii "bed_leveling", .bool p.taskBedLeveling),
    (ascii "flow_cali", .bool p.taskFlowCali),
    (ascii "vibration_cali", .bool p.taskVibrationCali),
    (ascii "layer_inspect", .bool p.taskLayerInspect),
    (ascii "timelapse", .bool p.taskRecordTimelapse),
    (ascii "use_ams", .bool p.taskUseAms),
    (ascii "ams_mapping", .array slots.ams),
    (ascii "ams_mapping2", .array slots.ams2)]

def nozzleFields (p : PrintParams) (slots : Slots) : List (Bytes × Value) :=
  if p.nozzleMapping = [] then [] else [(ascii "nozzle_mapping", .array slots.nozzle)]

def levelingFields (p : PrintParams) : List (Bytes × Value) :=
  [(ascii "auto_bed_leveling", .number p.autoBedLeveling),
    (ascii "nozzle_offset_cali", .number p.autoOffsetCali)]

def extruderFields (p : PrintParams) : List (Bytes × Value) :=
  if 0 ≤ p.extruderCaliManualMode then
    [(ascii "extrude_cali_manual_mode", .number p.extruderCaliManualMode)]
  else []

def flagFields (p : PrintParams) (forceExternal : Bool) : List (Bytes × Value) :=
  [(ascii "cfg", .string (if p.taskTimelapseUseInternal && !forceExternal then ascii "4" else ascii "0")),
    (ascii "extrude_cali_flag", .number p.autoFlowCali)]

/-- The fields of the member `print`, with their values. -/
def requestFields (p : PrintParams) (opts : ProjectFileOpts) (seqId : Bytes) (forceExternal : Bool)
    (slots : Slots) : List (Bytes × Value) :=
  stringFields p opts seqId ++ (switchFields p slots ++ nozzleFields p slots ++ levelingFields p ++
    extruderFields p ++ flagFields p forceExternal)

/-- The value is an object with the member `print`, and that one has these fields, each with its value. -/
structure Carries (v : Value) (fields : List (Bytes × Value)) : Prop where
  alone : v.asObject.map Prod.fst = [ascii "print"]
  found : ∀ key x, (key, x) ∈ fields → (v.find (ascii "print")).find key = x
  only : ∀ key ∈ (v.find (ascii "print")).asObject.map Prod.fst, key ∈ fields.map Prod.fst

/-! ## The mapping of the filaments -/

theorem joinTokens_eq (toks : List Bytes) : joinTokens toks = arrayText toks := by
  cases toks with
  | nil => rfl
  | cons tok toks => rw [joinTokens, arrayText, List.append_assoc]

/-- Around a token nothing but blanks is taken away. -/
theorem trimToken_around (tok : Bytes) : ∃ a b, Blank a ∧ Blank b ∧ tok = a ++ (trimToken tok ++ b) := by
  have hws : ∀ c : Byte, isBlank c = true → isWs c = true := by
    intro c hc
    simp only [isBlank, Bool.or_eq_true, decide_eq_true_eq] at hc
    rcases hc with rfl | rfl <;> decide
  refine ⟨tok.takeWhile isBlank, (tok.dropWhile isBlank).rtakeWhile isBlank,
    fun c hc => hws c (List.mem_takeWhile_imp hc), fun c hc => hws c (List.mem_rtakeWhile_imp hc), ?_⟩
  rw [trimToken, List.rdropWhile_append_rtakeWhile, List.takeWhile_append_dropWhile]

theorem parse_trimToken (tok : Bytes) (v : Value) : parse (trimToken tok) = .ok v ↔ parse tok = .ok v := by
  obtain ⟨a, b, ha, hb, htok⟩ := trimToken_around tok
  conv_rhs => rw [htok]
  exact (parse_blank ha hb _ v).symm

theorem parse_joinTokens {us : List PaddedInteger} (h : ∀ t ∈ us, t.integer.Held) :
    parse (joinTokens (((us.map PaddedInteger.bytes).map trimToken).filter (· ≠ []))) =
      .ok (.array (us.map fun t => .number t.integer.value)) := by
  have htok : ∀ t ∈ us, parse (trimToken t.bytes) = .ok (.number t.integer.value) := fun t ht =>
    (parse_trimToken _ _).mpr (t.parse_bytes (h t ht))
  have hfilter : ((us.map PaddedInteger.bytes).map trimToken).filter (· ≠ []) =
      (us.map fun t => (trimToken t.bytes, Value.number t.integer.value)).map Prod.fst := by
    rw [List.filter_eq_self.mpr, List.map_map, List.map_map]
    · rfl
    · intro tok hmem
      rw [List.map_map] at hmem
      obtain ⟨t, ht, rfl⟩ := List.mem_map.mp hmem
      refine decide_eq_true fun hnil => ?_
      have hparse := htok t ht
      rw [show trimToken t.bytes = [] from hnil] at hparse
      cases hparse
  rw [hfilter, joinTokens_eq]
  have hall : ∀ e ∈ us.map (fun t => (trimToken t.bytes, Value.number t.integer.value)), parse e.1 = .ok e.2 :=
    List.forall_mem_map.mpr htok
  have hparse := (readsAs_parsedArray hall).parse_self
  rwa [List.map_map (g := Prod.snd)] at hparse

theorem parse_formatAmsMapping {useAms : Bool} {mapping : Bytes} {vs : List Value}
    (h : AmsList useAms mapping vs) : parse (formatAmsMapping mapping useAms) = .ok (.array vs) := by
  unfold formatAmsMapping
  simp only
  cases h with
  | blank white =>
      have htrim : (mapping.dropWhile isWs).rdropWhile isWs = [] := by
        rw [List.dropWhile_eq_nil_iff.mpr white]
        rfl
      rw [if_pos htrim]
      cases useAms with
      | false => exact readsAs_noElements.parse_self
      | true => exact (readsAs_single (readsAs_integer (exact_of_small (n := 0) (by decide)))).parse_self
  | array text =>
      obtain ⟨tree, ⟨w, t, w', hw, hw', rfl, ht⟩, hv⟩ := parse_iff_text.mp text
      obtain ⟨ts, rfl⟩ := Tree.value_array hv
      have hhead := ht.array_head
      have hne : t ≠ [] := by
        rintro rfl
        cases hhead
      rw [trim_text hw hw' ht, if_neg hne, if_pos hhead]
      exact (ht.readsAs hv).parse_self
  | @integers ts some held =>
      obtain ⟨us, hus, htrim, c, hhead, hc⟩ := commaList_trim some
      have hne : commaList us ≠ [] := by
        intro hnil
        rw [hnil] at hhead
        cases hhead
      have hbracket : (commaList us).head? ≠ Option.some Ascii.lbracket := by
        rw [hhead]
        exact fun heq => hc (Option.some.inj heq)
      rw [htrim, if_neg hne, if_neg hbracket, pieces_commaList]
      have hheld : ∀ i ∈ us.map PaddedInteger.integer, i.Held := by
        rw [hus]
        exact List.forall_mem_map.mpr held
      have hvalues := congrArg (List.map fun i => Value.number (IntegerText.value i)) hus
      rw [List.map_map, List.map_map] at hvalues
      rw [parse_joinTokens (List.forall_mem_map.mp hheld)]
      exact congrArg (fun vs => Except.ok (Value.array vs)) hvalues

/-! ## The request -/

section Request

variable {p : PrintParams} {slots : Slots} (opts : ProjectFileOpts) (seqId : Bytes) (forceExternal : Bool)

/-- The text of a member is read as a field under its key. -/
def ReadAsField (member : Bytes × Bytes) (field : Bytes × Value) : Prop :=
  member.1 = field.1 ∧ parse member.2 = .ok field.2

theorem readAsField {t : Bytes} {v : Value} (h : ReadsAs t v) (key : Bytes) : ReadAsField (key, t) (key, v) :=
  ⟨rfl, h.parse_self⟩

theorem parse_mapping2 {text : Bytes} {vs : List Value} (h : ArrayText text vs) :
    parse (if text = [] then ascii "[]" else text) = .ok (.array vs) := by
  cases h with
  | absent =>
      rw [if_pos rfl]
      exact readsAs_noElements.parse_self
  | array text_ok =>
      rw [if_neg, text_ok]
      rintro rfl
      cases text_ok

theorem naming_fields : List.Forall₂ ReadAsField
    ((namingMembers p opts seqId).map fun e => (e.1, jsonEscape e.2)) (stringFields p opts seqId) := by
  have hfields : stringFields p opts seqId = (namingMembers p opts seqId).map fun e => (e.1, .string e.2) := rfl
  rw [hfields, List.forall₂_map_left_iff, List.forall₂_map_right_iff, List.forall₂_same]
  exact fun e _ => readAsField (readsAs_escape e.2) e.1

theorem option_fields (h : Mappings p slots) : List.Forall₂ ReadAsField (optionMembers p forceExternal)
    (switchFields p slots ++ nozzleFields p slots ++ levelingFields p ++ extruderFields p ++
      flagFields p forceExternal) := by
  obtain ⟨hauto, hoffset, hmanual, hflow⟩ :
      p.autoBedLeveling.natAbs ≤ 2 ^ 31 ∧ p.autoOffsetCali.natAbs ≤ 2 ^ 31 ∧
        p.extruderCaliManualMode.natAbs ≤ 2 ^ 31 ∧ p.autoFlowCali.natAbs ≤ 2 ^ 31 := by
    simpa only [List.forall_mem_cons, List.not_mem_nil, IsEmpty.forall_iff, implies_true, and_true]
      using h.ints
  unfold optionMembers
  refine List.rel_append (List.rel_append (List.rel_append (List.rel_append ?_ ?_) ?_) ?_) ?_
  · have hswitch (key : Bytes) (b : Bool) : ReadAsField (key, toBool b) (key, .bool b) :=
      readAsField (readsAs_toBool b) key
    exact .cons (hswitch _ _) <| .cons (hswitch _ _) <| .cons (hswitch _ _) <| .cons (hswitch _ _) <|
      .cons (hswitch _ _) <| .cons (hswitch _ _) <| .cons ⟨rfl, parse_formatAmsMapping h.amsMapping⟩ <|
      .cons ⟨rfl, parse_mapping2 h.amsMapping2⟩ .nil
  · unfold nozzleFields
    split_ifs with hempty
    · exact .nil
    · have hnozzle := parse_mapping2 h.nozzleMapping
      rw [if_neg hempty] at hnozzle
      exact .cons ⟨rfl, hnozzle⟩ .nil
  · exact .cons (readAsField (readsAs_int hauto) _) <| .cons (readAsField (readsAs_int hoffset) _) .nil
  · unfold extruderFields
    split_ifs
    · exact .cons (readAsField (readsAs_int hmanual) _) .nil
    · exact .nil
  · exact .cons (readAsField (readsAs_cfg _) _) <| .cons (readAsField (readsAs_int hflow) _) .nil

/-- Read as JSON, the request is the object of its fields. -/
theorem parse_buildProjectFileJson (h : Mappings p slots) :
    parse (buildProjectFileJson p opts seqId forceExternal) =
      .ok (.object (ofMembers [(ascii "print",
        .object (ofMembers (requestFields p opts seqId forceExternal slots)))])) := by
  have hplain : ∀ q ∈ ((namingMembers p opts seqId).map fun e => (e.1, jsonEscape e.2)) ++
      optionMembers p forceExternal, PlainKey q.1 := by
    refine List.forall_mem_append.mpr ⟨List.forall_mem_map.mpr fun e he => ?_, fun q hq => ?_⟩
    · exact plainKey_of_word (namingKeys_word e.1 (namingMembers_keys p opts seqId ▸ List.mem_map_of_mem he))
    · exact plainKey_of_word (optionKeys_word q.1 (optionMembers_keys p forceExternal q hq))
  exact (compact.readsAs_one (plainKey_of_word printKey_word) (compact.readsAs_members hplain
    (List.rel_append (naming_fields opts seqId) (option_fields forceExternal h)))).parse_self

def requestKeys : List Bytes := namingKeys ++ optionKeys

theorem requestKeys_nodup : requestKeys.Nodup := by decide +kernel

theorem requestKeys_word : ∀ key ∈ requestKeys, isWord key = true :=
  List.forall_mem_append.mpr ⟨namingKeys_word, optionKeys_word⟩

/-- Fields that are left out leave the keys of the others in their order. -/
theorem requestFields_keys :
    ((requestFields p opts seqId forceExternal slots).map Prod.fst).Sublist requestKeys := by
  have hnozzle : ((nozzleFields p slots).map Prod.fst).Sublist [ascii "nozzle_mapping"] := by
    unfold nozzleFields
    split_ifs
    · exact List.nil_sublist _
    · exact List.Sublist.refl _
  have hextruder : ((extruderFields p).map Prod.fst).Sublist [ascii "extrude_cali_manual_mode"] := by
    unfold extruderFields
    split_ifs
    · exact List.Sublist.refl _
    · exact List.nil_sublist _
  rw [requestFields, List.map_append, List.map_append, List.map_append, List.map_append, List.map_append]
  exact (List.Sublist.refl namingKeys).append (((((List.Sublist.refl (optionKeys.take 8)).append hnozzle).append
    (List.Sublist.refl [ascii "auto_bed_leveling", ascii "nozzle_offset_cali"])).append hextruder).append
      (List.Sublist.refl [ascii "cfg", ascii "extrude_cali_flag"]))

/-- However the strings are spelled, the request is read with its fields and no others. -/
theorem buildProjectFileJson_law (h : Mappings p slots) :
    ∃ v, parse (buildProjectFileJson p opts seqId forceExternal) = .ok v ∧
      Carries v (requestFields p opts seqId forceExternal slots) := by
  have hsub : ((requestFields p opts seqId forceExternal slots).map Prod.fst).Sublist requestKeys :=
    requestFields_keys opts seqId forceExternal
  refine ⟨_, parse_buildProjectFileJson opts seqId forceExternal h, ?_⟩
  generalize requestFields p opts seqId forceExternal slots = fields at hsub
  have hprint : (Value.object (ofMembers [(ascii "print", Value.object (ofMembers fields))])).find
      (ascii "print") = .object (ofMembers fields) := by
    rw [find_ofMembers printKey_word, lookup_cons, if_pos rfl, Option.getD_some]
  have hnodup : (fields.map Prod.fst).Nodup := requestKeys_nodup.sublist hsub
  refine ⟨rfl, fun key x hmem => ?_, fun key hkey => ?_⟩
  · have hword := requestKeys_word key (hsub.subset (List.mem_map_of_mem hmem))
    rw [hprint, find_ofMembers hword, lookup_of_mem hnodup hmem, Option.getD_some]
  · obtain ⟨hsorted, hlookup⟩ := lookup_ofMembers fields key
    rw [hprint] at hkey
    obtain ⟨q, hq, rfl⟩ := List.mem_map.mp hkey
    rw [lookup_of_mem hsorted.nodup hq] at hlookup
    exact List.mem_map_of_mem (mem_of_lookup hlookup.symm)

end Request

theorem blank_sp : Blank [Ascii.sp] := List.forall_mem_singleton.mpr rfl

theorem one_ne_nil : ascii "1" ≠ [] := by decide +kernel

theorem one_digits : ∀ c ∈ ascii "1", isDigit c = true := by decide +kernel

/-- The slot 1 or -1, behind a blank. -/
def slotText (negative : Bool) : PaddedInteger where
  before := [Ascii.sp]
  integer :=
    { negative := negative
      digits := ascii "1"
      nonempty := one_ne_nil
      digits_ok := one_digits }
  after := []
  before_blank := blank_sp
  after_blank := PaddedInteger.blank_nil

theorem slotText_held (negative : Bool) : (slotText negative).integer.Held := by
  have hone : ofDecimal (slotText negative).integer.digits = 1 := rfl
  rw [IntegerText.Held, hone]
  exact ⟨Binary64.representable_of_lt (by decide), 1, by decide, by decide⟩

/-- The cube with these texts as its mappings. -/
def mappedCube (amsMapping amsMapping2 : Bytes) : PrintParams :=
  { cubePrint with taskUseAms := true, taskBedType := ascii "auto", amsMapping, amsMapping2 }

def cubeOpts (filePath : Bytes) : ProjectFileOpts :=
  { filePath, url := ascii "ftp://cube.gcode.3mf", md5 := ascii "\"" }

/-- `1, -1` becomes an array. -/
theorem buildProjectFileJson_slots :
    ∃ v, parse (buildProjectFileJson (mappedCube (ascii " 1, -1") (arrayText [signed 1]))
        (cubeOpts (ascii "/cube.gcode.3mf")) (ascii "1700000000000") false) = .ok v ∧
      Carries v (requestFields (mappedCube (ascii " 1, -1") (arrayText [signed 1]))
        (cubeOpts (ascii "/cube.gcode.3mf")) (ascii "1700000000000") false
        ⟨[.number (1 : Int), .number (-1 : Int)], [.number (1 : Int)], []⟩) := by
  have hlist : AmsList true (ascii " 1, -1") [.number (1 : Int), .number (-1 : Int)] := by
    have hheld : ∀ t ∈ [slotText false, slotText true], t.integer.Held :=
      List.forall_mem_cons.mpr ⟨slotText_held false, List.forall_mem_singleton.mpr (slotText_held true)⟩
    have htext : commaList [slotText false, slotText true] = ascii " 1, -1" := by decide +kernel
    rw [← htext]
    exact .integers (List.cons_ne_nil _ _) hheld
  have hone : ReadsAs (signed 1) (.number (1 : Int)) := readsAs_integer (exact_of_small (by decide))
  exact buildProjectFileJson_law _ _ _
    ⟨hlist, .array (readsAs_single hone).parse_self, .absent, by decide⟩

/-! ## Parameters as they are -/

/-- The strings of the caller in a request. -/
def stringParams (p : PrintParams) (opts : ProjectFileOpts) : List (Bytes × Bytes) :=
  [(ascii "project_id", opts.projectId), (ascii "profile_id", opts.profileId), (ascii "task_id", opts.taskId),
    (ascii "subtask_id", opts.subtaskId), (ascii "subtask_name", p.projectName), (ascii "file", opts.filePath),
    (ascii "url", opts.url), (ascii "md5", opts.md5), (ascii "bed_type", p.taskBedType)]

/-- The request is read with these strings as they are, and with these integers as `ams_mapping`. -/
def TakenOver (p : PrintParams) (opts : ProjectFileOpts) (slots : List Int) : Prop :=
  ∃ v, parse (buildProjectFileJson p opts (ascii "1700000000000") false) = .ok v ∧
    (∀ q ∈ stringParams p opts, PrintField v q.1 q.2) ∧
    (v.find (ascii "print")).find (ascii "ams_mapping") = .array (slots.map fun n => .number n)

theorem takenOver_file {p : PrintParams} {opts : ProjectFileOpts} {slots : List Int} (h : TakenOver p opts slots) :
    stripLeadingSlash opts.filePath = opts.filePath := by
  obtain ⟨v, hv, hstrings, -⟩ := h
  have hread : PrintField v (ascii "file") (stripLeadingSlash opts.filePath) :=
    message_field p opts _ _ hv (by simp [namingMembers])
  have hgiven : PrintField v (ascii "file") opts.filePath :=
    hstrings (ascii "file", opts.filePath) (by simp [stringParams])
  exact Value.string.inj (hread.symm.trans hgiven)

/-- The file loses its slash; an integer between doubles is another one; one with a plus sign is none. -/
theorem takenOver_fails :
    ¬ TakenOver (mappedCube [] []) (cubeOpts (ascii "/cube.gcode.3mf")) [0] ∧
      ¬ TakenOver (mappedCube (ascii "9007199254740993") []) (cubeOpts (ascii "cube.gcode.3mf"))
        [9007199254740993] ∧
      ¬ TakenOver (mappedCube (ascii "+1") []) (cubeOpts (ascii "cube.gcode.3mf")) [1] := by
  refine ⟨fun h => absurd (takenOver_file h) (by decide +kernel), fun h => ?_, fun h => ?_⟩
  · obtain ⟨v, hv, -, hslots⟩ := h
    have hread : (parse (buildProjectFileJson (mappedCube (ascii "9007199254740993") [])
        (cubeOpts (ascii "cube.gcode.3mf")) (ascii "1700000000000") false)).toOption.map (fun v =>
          ((v.find (ascii "print")).find (ascii "ams_mapping")).asArray.map fun slot => slot.asNumber 0) =
        some [9007199254740992] := by
      decide +kernel
    rw [hv, Except.toOption, Option.map_some, hslots] at hread
    exact absurd (Option.some.inj hread) (by decide +kernel)
  · obtain ⟨v, hv, -⟩ := h
    have hnone : (parse (buildProjectFileJson (mappedCube (ascii "+1") []) (cubeOpts (ascii "cube.gcode.3mf"))
        (ascii "1700000000000") false)).toOption = none := by
      decide +kernel
    rw [hv] at hnone
    cases hnone

end OpenBambu.Print
