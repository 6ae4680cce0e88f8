import OpenBambu.Print.CloudJob

/-!
# The task as the cloud reads it

Texts of the caller go into the body of a task as they are where they start like JSON, and so does the profile
id. Read as JSON the body has the fields it was made of and no others.
-/

namespace OpenBambu.Print

open OpenBambu.Foundation OpenBambu.Json

/-! ## The fields of a task -/

/-- Behind its blanks the text starts like an array or an object. -/
def Sniffed (raw : Bytes) : Prop := ∃ b ∈ (trim raw).head?, b = Ascii.lbracket ∨ b = Ascii.lbrace

/-- The value of a text that starts like JSON, or the one in its place. -/
inductive TextOr (fallback : Value) : Bytes → Value → Prop
  | own {raw : Bytes} {v : Value} (sniffed : Sniffed raw) (text : parse raw = .ok v) : TextOr fallback raw v
  | fallback {raw : Bytes} (other : ¬ Sniffed raw) : TextOr fallback raw fallback

/-- The values of the texts that go into the body as they are. -/
structure TaskValues where
  detail : Value
  ams : Value
  nozzle : Value
  nozzleInfos : Value
  profile : Value

structure TaskTexts (p : CloudParams) (profileId : Bytes) (vals : TaskValues) : Prop where
  detail : TextOr (.array []) p.amsMappingInfo vals.detail
  ams : TextOr (.array [.number (-1 : Int)]) p.amsMapping vals.ams
  nozzle : p.nozzleMapping ≠ [] → parse p.nozzleMapping = .ok vals.nozzle
  nozzleInfos : TextOr (.array []) p.nozzlesInfo vals.nozzleInfos
  profile : parse (if profileId = [] then ascii "0" else profileId) = .ok vals.profile
  ints : ∀ n ∈ [p.autoBedLeveling, p.autoFlowCali, p.extruderCaliManualMode, p.autoOffsetCali,
    p.originProfileId, p.plateIndex], n.natAbs ≤ 2 ^ 31

section Fields

variable (p : CloudParams) (modelId : Bytes) (vals : TaskValues) (pairs : List Value)
variable (forceExternal useLanChannel : Bool)

def mappingFields : List (Bytes × Value) :=
  [(ascii "amsDetailMapping", vals.detail), (ascii "amsMapping", vals.ams),
    (ascii "amsMapping2", .array pairs)] ++
  if p.nozzleMapping = [] then [] else [(ascii "nozzleMapping", vals.nozzle)]

def machineFields : List (Bytes × Value) :=
  [(ascii "autoBedLeveling", .number p.autoBedLeveling),
    (ascii "bedLeveling", .bool p.taskBedLeveling),
    (ascii "bedType", .string (if p.taskBedType = [] then ascii "auto" else p.taskBedType)),
    (ascii "cfg", .string (if p.taskTimelapseUseInternal && !forceExternal then ascii "4" else ascii "0")),
    (ascii "cover", .string []),
    (ascii "deviceId", .string p.devId),
    (ascii "extrudeCaliFlag", .number p.autoFlowCali),
    (ascii "extrudeCaliManualMode", .number p.extruderCaliManualMode),
    (ascii "filamentSettingIds", .array []),
    (ascii "flowCali", .bool p.taskFlowCali),
    (ascii "layerInspect", .bool p.taskLayerInspect)]

def modelFields : List (Bytes × Value) :=
  [(ascii "mode", .string (if useLanChannel then ascii "lan_file" else ascii "cloud_file")),
    (ascii "modelId", .string modelId),
    (ascii "nozzleInfos", vals.nozzleInfos),
    (ascii "nozzleOffsetCali", .number p.autoOffsetCali),
    (ascii "oriModelId", .string p.originModelId),
    (ascii "oriProfileId", .number p.originProfileId),
    (ascii "plateIndex", .number (if p.plateIndex ≤ 0 then 1 else p.plateIndex : Int)),
    (ascii "profileId", vals.profile),
    (ascii "sequence_id", .string (ascii "20000")),
    (ascii "timelapse", .bool p.taskRecordTimelapse),
    (ascii "title", .string (if p.projectName = [] then p.taskName else p.projectName)),
    (ascii "useAms", .bool p.taskUseAms),
    (ascii "vibrationCali", .bool p.taskVibrationCali)]

/-- The fields of a task, with their values. -/
def taskFields : List (Bytes × Value) :=
  mappingFields p vals pairs ++ machineFields p forceExternal ++ modelFields p modelId vals useLanChannel

end Fields

/-- The value has these fields, each with its value, and no others. -/
structure HasFields (v : Value) (fields : List (Bytes × Value)) : Prop where
  found : ∀ key x, (key, x) ∈ fields → v.find key = x
  only : ∀ key ∈ v.asObject.map Prod.fst, key ∈ fields.map Prod.fst

/-- An object of fields under keys of which there are no two alike. -/
theorem hasFields_ofMembers {fields : List (Bytes × Value)} (hwords : ∀ key ∈ fields.map Prod.fst, isWord key = true)
    (hnodup : (fields.map Prod.fst).Nodup) : HasFields (.object (ofMembers fields)) fields where
  found key x hmem := by
    rw [find_ofMembers (hwords key (List.mem_map_of_mem hmem)), lookup_of_mem hnodup hmem, Option.getD_some]
  only key hkey := by
    obtain ⟨hsorted, hlookup⟩ := lookup_ofMembers fields key
    obtain ⟨q, hq, rfl⟩ := List.mem_map.mp hkey
    rw [lookup_of_mem hsorted.nodup hq] at hlookup
    exact List.mem_map_of_mem (mem_of_lookup hlookup.symm)

/-! ## The texts of the caller -/

theorem parse_jsonOrDefault {raw text : Bytes} {fallback v : Value} (h : TextOr fallback raw v)
    (htext : parse text = .ok fallback) : parse (jsonOrDefault raw text) = .ok v := by
  have htrim := parse_trim raw v
  rw [← trim] at htrim
  unfold jsonOrDefault
  cases h with
  | own sniffed hparse =>
      obtain ⟨b, hb, hopen⟩ := sniffed
      cases hraw : trim raw with
      | nil => exact absurd (hraw ▸ hb) (by simp)
      | cons c rest =>
          rw [hraw] at hb htrim
          obtain rfl := Option.mem_some.mp hb
          dsimp only
          rw [if_pos hopen]
          exact htrim.mpr hparse
  | fallback other =>
      cases hraw : trim raw with
      | nil => exact htext
      | cons c rest =>
          have hopen : ¬(c = Ascii.lbracket ∨ c = Ascii.lbrace) := fun h =>
            other ⟨c, hraw ▸ Option.mem_some.mpr rfl, h⟩
          dsimp only
          rw [if_neg hopen]
          exact htext

theorem parse_cloudPairs (p : PrintParams) : ∃ pairs, parse (amsMapping2ForCloud p) = .ok (.array pairs) := by
  rcases forCloud_cases p with ⟨items, -, -, hresult⟩ | ⟨-, hresult⟩
  · exact ⟨_, hresult ▸ parse_elements items⟩
  · exact hresult ▸ parse_derived p.amsMapping

theorem parse_minusOne : parse (ascii "[-1]") = .ok (.array [.number (-1 : Int)]) := by
  have htext : ascii "[-1]" = arrayText [signed (-1)] := by decide +kernel
  rw [htext]
  exact (readsAs_single (readsAs_integer (exact_of_small (by decide)))).parse_self

/-! ## The body -/

section Body

variable {p : CloudParams} {profileId : Bytes} {vals : TaskValues} (modelId : Bytes) {pairs : List Value}
variable (forceExternal useLanChannel : Bool)

theorem mapping_fields (h : TaskTexts p profileId vals)
    (hpairs : parse (amsMapping2ForCloud p.toPrintParams) = .ok (.array pairs)) :
    List.Forall₂ ReadAsField (mappingMembers p) (mappingFields p vals pairs) := by
  refine List.rel_append ?_ ?_
  · exact .cons ⟨rfl, parse_jsonOrDefault h.detail parse_brackets⟩ <|
      .cons ⟨rfl, parse_jsonOrDefault h.ams parse_minusOne⟩ <| .cons ⟨rfl, hpairs⟩ .nil
  · split_ifs with hempty
    · exact .nil
    · exact .cons ⟨rfl, h.nozzle hempty⟩ .nil

theorem machine_fields (h : TaskTexts p profileId vals) :
    List.Forall₂ ReadAsField (machineMembers p forceExternal) (machineFields p forceExternal) := by
  have hint (key : Bytes) {n : Int} (hn : n ∈ [p.autoBedLeveling, p.autoFlowCali, p.extruderCaliManualMode,
      p.autoOffsetCali, p.originProfileId, p.plateIndex]) : ReadAsField (key, signed n) (key, .number n) :=
    readAsField (readsAs_int (h.ints n hn)) key
  have hswitch (key : Bytes) (b : Bool) : ReadAsField (key, toBool b) (key, .bool b) :=
    readAsField (readsAs_toBool b) key
  exact .cons (hint _ (by simp)) <| .cons (hswitch _ _) <| .cons (readAsField (readsAs_escape _) _) <|
    .cons (readAsField (readsAs_cfg _) _) <| .cons (readAsField (readsAs_escape []) _) <|
    .cons (readAsField (readsAs_escape _) _) <| .cons (hint _ (by simp)) <| .cons (hint _ (by simp)) <|
    .cons (readAsField readsAs_noElements _) <| .cons (hswitch _ _) <| .cons (hswitch _ _) .nil

theorem model_fields (h : TaskTexts p profileId vals) : List.Forall₂ ReadAsField
    (modelMembers p modelId profileId useLanChannel) (modelFields p modelId vals useLanChannel) := by
  have hswitch (key : Bytes) (b : Bool) : ReadAsField (key, toBool b) (key, .bool b) :=
    readAsField (readsAs_toBool b) key
  have hstring (key s : Bytes) : ReadAsField (key, jsonEscape s) (key, .string s) :=
    readAsField (readsAs_escape s) key
  have hmode : ReadAsField
      (ascii "mode", if useLanChannel then ascii "\"lan_file\"" else ascii "\"cloud_file\"")
      (ascii "mode", .string (if useLanChannel then ascii "lan_file" else ascii "cloud_file")) := by
    cases useLanChannel with
    | false => exact hstring (ascii "mode") (ascii "cloud_file")
    | true => exact hstring (ascii "mode") (ascii "lan_file")
  have hplate : (if p.plateIndex ≤ 0 then 1 else p.plateIndex : Int).natAbs ≤ 2 ^ 31 := by
    split_ifs
    · decide
    · exact h.ints _ (by simp)
  exact .cons hmode <| .cons (hstring _ _) <| .cons ⟨rfl, parse_jsonOrDefault h.nozzleInfos parse_brackets⟩ <|
    .cons (readAsField (readsAs_int (h.ints _ (by simp))) _) <| .cons (hstring _ _) <|
    .cons (readAsField (readsAs_int (h.ints _ (by simp))) _) <| .cons (readAsField (readsAs_int hplate) _) <|
    .cons ⟨rfl, h.profile⟩ <| .cons (hstring _ (ascii "20000")) <| .cons (hswitch _ _) <|
    .cons (hstring _ _) <| .cons (hswitch _ _) <| .cons (hswitch _ _) .nil

def taskKeys : List Bytes :=
  [ascii "amsDetailMapping", ascii "amsMapping", ascii "amsMapping2", ascii "nozzleMapping",
    ascii "autoBedLeveling", ascii "bedLeveling", ascii "bedType", ascii "cfg", ascii "cover", ascii "deviceId",
    ascii "extrudeCaliFlag", ascii "extrudeCaliManualMode", ascii "filamentSettingIds", ascii "flowCali",
    ascii "layerInspect", ascii "mode", ascii "modelId", ascii "nozzleInfos", ascii "nozzleOffsetCali",
    ascii "oriModelId", ascii "oriProfileId", ascii "plateIndex", ascii "profileId", ascii "sequence_id",
    ascii "timelapse", ascii "title", ascii "useAms", ascii "vibrationCali"]

theorem taskKeys_nodup : taskKeys.Nodup := by decide +kernel

theorem taskKeys_word : ∀ key ∈ taskKeys, isWord key = true := by decide +kernel

theorem taskFields_keys :
    ((taskFields p modelId vals pairs forceExternal useLanChannel).map Prod.fst).Sublist taskKeys := by
  have hnozzle : ((mappingFields p vals pairs).map Prod.fst).Sublist (taskKeys.take 4) := by
    unfold mappingFields
    split_ifs
    · exact List.Sublist.append (List.Sublist.refl (taskKeys.take 3)) (List.nil_sublist [ascii "nozzleMapping"])
    · exact List.Sublist.refl _
  rw [taskFields, List.append_assoc, List.map_append]
  exact hnozzle.append (List.Sublist.refl (taskKeys.drop 4))

/-- Read as JSON, the body is the object of its fields. -/
theorem parse_buildTaskBody (h : TaskTexts p profileId vals)
    (hpairs : parse (amsMapping2ForCloud p.toPrintParams) = .ok (.array pairs)) :
    parse (buildTaskBody p modelId profileId forceExternal useLanChannel) =
      .ok (.object (ofMembers (taskFields p modelId vals pairs forceExternal useLanChannel))) := by
  have hfields : List.Forall₂ ReadAsField
      (mappingMembers p ++ machineMembers p forceExternal ++ modelMembers p modelId profileId useLanChannel)
      (taskFields p modelId vals pairs forceExternal useLanChannel) :=
    List.rel_append (List.rel_append (mapping_fields h hpairs) (machine_fields forceExternal h))
      (model_fields modelId useLanChannel h)
  have hkeys : List.Forall₂ Eq
      ((mappingMembers p ++ machineMembers p forceExternal ++
        modelMembers p modelId profileId useLanChannel).map Prod.fst)
      ((taskFields p modelId vals pairs forceExternal useLanChannel).map Prod.fst) := by
    rw [List.forall₂_map_left_iff, List.forall₂_map_right_iff]
    exact hfields.imp fun _ _ h => h.1
  rw [List.forall₂_eq_eq_eq] at hkeys
  refine (compact.readsAs_members (fun q hq => ?_) hfields).parse_self
  exact plainKey_of_word (taskKeys_word q.1 ((taskFields_keys modelId forceExternal useLanChannel).subset
    (hkeys ▸ List.mem_map_of_mem hq)))

/-- Whatever bytes its strings have, the body is read with its fields and no others. -/
theorem buildTaskBody_law (h : TaskTexts p profileId vals) :
    ∃ v pairs, parse (buildTaskBody p modelId profileId forceExternal useLanChannel) = .ok v ∧
      parse (amsMapping2ForCloud p.toPrintParams) = .ok (.array pairs) ∧
      HasFields v (taskFields p modelId vals pairs forceExternal useLanChannel) := by
  obtain ⟨pairs, hpairs⟩ := parse_cloudPairs p.toPrintParams
  have hsub : ((taskFields p modelId vals pairs forceExternal useLanChannel).map Prod.fst).Sublist taskKeys :=
    taskFields_keys modelId forceExternal useLanChannel
  exact ⟨_, pairs, parse_buildTaskBody modelId forceExternal useLanChannel h hpairs, hpairs,
    hasFields_ofMembers (fun key hkey => taskKeys_word key (hsub.subset hkey)) (taskKeys_nodup.sublist hsub)⟩

end Body

/-- The cube from the first slot, and a mapping that is no JSON. -/
def cubeTask : CloudParams :=
  { mappedCube (arrayText [signed 1]) [] with
    configFilename := []
    amsMappingInfo := ascii "none"
    nozzlesInfo := []
    originModelId := []
    originProfileId := 0 }

theorem buildTaskBody_cube :
    ∃ v pairs, parse (buildTaskBody cubeTask (ascii "\"m\"") [] false true) = .ok v ∧
      parse (amsMapping2ForCloud cubeTask.toPrintParams) = .ok (.array pairs) ∧
      HasFields v (taskFields cubeTask (ascii "\"m\"")
        ⟨.array [], .array [.number (1 : Int)], .null, .array [], .number (0 : Int)⟩ pairs false true) := by
  have hone : ReadsAs (signed 1) (.number (1 : Int)) := readsAs_integer (exact_of_small (by decide))
  have hzero : ReadsAs (signed 0) (.number (0 : Int)) := readsAs_integer (exact_of_small (by decide))
  have hother : ¬ Sniffed (ascii "none") := by
    rintro ⟨b, hb, hopen⟩
    obtain rfl := Option.mem_some.mp (show b ∈ some (Ascii.letter 'n') from hb)
    revert hopen
    decide
  have hempty : ¬ Sniffed [] := by
    rintro ⟨b, hb, -⟩
    exact absurd hb (by simp [trim])
  have hams : Sniffed (arrayText [signed 1]) := ⟨Ascii.lbracket, by decide, Or.inl rfl⟩
  exact buildTaskBody_law _ _ _
    { detail := .fallback hother
      ams := .own hams (readsAs_single hone).parse_self
      nozzle := fun h => absurd rfl h
      nozzleInfos := .fallback hempty
      profile := hzero.parse_self
      ints := by decide }

end OpenBambu.Print
