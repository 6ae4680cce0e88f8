import OpenBambu.Print.RemoteName
import OpenBambu.Print.Stages

/-!
# What a print job publishes

The message of a job that succeeds, as a reader of JSON finds it: the file it names is the one that was
uploaded, however the texts of the caller in it are spelled.
-/

namespace OpenBambu.Print

open OpenBambu.Foundation OpenBambu.Json

/-! ## The names of an upload -/

theorem pickRemoteName_noSlash (p : PrintParams) : Ascii.slash ∉ pickRemoteName p := fun hslash =>
  ((plainName_pick p).2.bytes Ascii.slash hslash).2.1 rfl

theorem stripLeadingSlash_of_notMem {s : Bytes} (h : Ascii.slash ∉ s) : stripLeadingSlash s = s := by
  cases s with
  | nil => rfl
  | cons b rest =>
      rw [stripLeadingSlash, if_neg]
      rintro rfl
      exact h List.mem_cons_self

/-- An absolute path. -/
def Absolute (path : Bytes) : Prop := ∃ file, path = Ascii.slash :: file

theorem Absolute.strip {path : Bytes} (h : Absolute path) : path = Ascii.slash :: stripLeadingSlash path := by
  obtain ⟨file, rfl⟩ := h
  rw [stripLeadingSlash, if_pos rfl]

theorem probe_absolute (cwd : Bytes → Ftps.Printer) {remotePath : Bytes} (hpath : Absolute remotePath)
    (filename : Bytes) {candidates : List Bytes} (hcand : ∀ cand ∈ candidates, Absolute cand)
    (w : Ftps.World) : Absolute (probe cwd remotePath filename candidates w).1 := by
  induction candidates generalizing w with
  | nil => exact hpath
  | cons cand candidates ih =>
      rw [probe]
      split_ifs
      · exact ih (fun c hc => hcand c (List.mem_cons_of_mem _ hc)) _
      · exact ⟨filename, rfl⟩
      · obtain ⟨dir, rfl⟩ := hcand cand List.mem_cons_self
        exact ⟨dir ++ ascii "/" ++ filename, by simp⟩

theorem adjustStoragePath_absolute (cwd : Bytes → Ftps.Printer) {remotePath : Bytes}
    (hpath : Absolute remotePath) (w : Ftps.World) :
    Absolute (adjustStoragePath cwd remotePath w).1 := by
  have hsdcard : Absolute (ascii "/sdcard") := ⟨ascii "sdcard", by decide +kernel⟩
  have husb : Absolute (ascii "/usb") := ⟨ascii "usb", by decide +kernel⟩
  have hroot : Absolute (ascii "/") := ⟨[], by decide +kernel⟩
  rw [adjustStoragePath]
  simp only
  split_ifs
  · exact hpath
  · exact hpath
  · exact probe_absolute cwd hpath _ (by simp [hsdcard, husb, hroot]) w
  · exact probe_absolute cwd hpath _ (by simp [hsdcard, husb, hroot]) w

/-- A path that is given to STOR is absolute, and there is one if the upload succeeds. -/
theorem ftpUpload_stor (e : Setting) (p : PrintParams) (remotePath : Bytes) (errCode : Int)
    (hpath : Absolute remotePath) (herr : errCode ≠ 0) (h : (ftpUpload e p remotePath errCode).code = 0) :
    ∃ path, (ftpUpload e p remotePath errCode).stor = some path ∧ Absolute path := by
  have hcanceled : errCanceled ≠ 0 := by decide
  unfold ftpUpload at h ⊢
  simp only at h ⊢
  split_ifs at h ⊢
  · exact absurd h (by decide)
  · exact absurd h (by decide)
  · exact absurd h herr
  · exact absurd h hcanceled
  · exact absurd h herr
  · exact ⟨_, rfl, adjustStoragePath_absolute e.ftp.cwd hpath _⟩

/-! ## The members of the message -/

/-- A string of the member `print`. -/
def PrintField (v : Value) (key s : Bytes) : Prop := (v.find (ascii "print")).find key = .string s

def namingKeys : List Bytes :=
  [ascii "sequence_id", ascii "command", ascii "param", ascii "project_id", ascii "profile_id",
    ascii "task_id", ascii "subtask_id", ascii "subtask_name", ascii "file", ascii "url", ascii "md5",
    ascii "bed_type"]

theorem namingKeys_nodup : namingKeys.Nodup := by decide +kernel

theorem namingKeys_word : ∀ key ∈ namingKeys, isWord key = true := by decide +kernel

theorem printKey_word : isWord (ascii "print") = true := by decide +kernel

section Message

variable (p : PrintParams) (opts : ProjectFileOpts) (seqId : Bytes) (forceExternal : Bool)

theorem namingMembers_keys : (namingMembers p opts seqId).map Prod.fst = namingKeys := rfl

/-- However the message is read, each of its leading strings is found in it. -/
theorem message_field {v : Value} (h : parse (buildProjectFileJson p opts seqId forceExternal) = .ok v)
    {key s : Bytes} (hmem : (key, s) ∈ namingMembers p opts seqId) : PrintField v key s := by
  have hkeys := namingMembers_keys p opts seqId
  have hplain : ∀ q ∈ namingMembers p opts seqId, PlainKey q.1 := fun q hq =>
    plainKey_of_word (namingKeys_word q.1 (hkeys ▸ List.mem_map_of_mem hq))
  obtain ⟨rest, hread, -⟩ := parse_ok_iff.mp h
  have htext := hread.value_behind (skipWs_skipWs _).symm
  rw [buildProjectFileJson, ← List.append_nil (compact.object _)] at htext
  obtain ⟨w, inner, r, rfl, hprint, hinner⟩ := compact.reads_first (plainKey_of_word printKey_word) htext
  obtain ⟨members, rfl, hfound⟩ := compact.reads_front hplain (by simp [optionMembers]) hinner
  have hword := namingKeys_word key (hkeys ▸ List.mem_map_of_mem hmem)
  have hnodup : (((namingMembers p opts seqId).map fun q => (q.1, Value.string q.2)).map Prod.fst).Nodup := by
    rw [List.map_map]
    exact hkeys ▸ namingKeys_nodup
  have hlookup := lookup_of_mem hnodup (List.mem_map_of_mem (f := fun q => (q.1, Value.string q.2)) hmem)
  rw [PrintField, find_word printKey_word, Value.asObject, hprint, Option.getD_some,
    find_word hword, Value.asObject, hfound key _ hlookup, Option.getD_some]

/-- The texts of the caller that go into the message as they are, and its integers. -/
structure JsonTexts : Prop where
  amsMapping : ∃ v, ReadsAs (formatAmsMapping p.amsMapping p.taskUseAms) v
  amsMapping2 : p.amsMapping2 ≠ [] → ∃ v, ReadsAs p.amsMapping2 v
  nozzleMapping : p.nozzleMapping ≠ [] → ∃ v, ReadsAs p.nozzleMapping v
  ints : ∀ n ∈ [p.autoBedLeveling, p.autoOffsetCali, p.extruderCaliManualMode, p.autoFlowCali],
    n.natAbs ≤ 2 ^ 31

def optionKeys : List Bytes :=
  [ascii "bed_leveling", ascii "flow_cali", ascii "vibration_cali", ascii "layer_inspect", ascii "timelapse",
    ascii "use_ams", ascii "ams_mapping", ascii "ams_mapping2", ascii "nozzle_mapping",
    ascii "auto_bed_leveling", ascii "nozzle_offset_cali", ascii "extrude_cali_manual_mode", ascii "cfg",
    ascii "extrude_cali_flag"]

theorem optionKeys_word : ∀ key ∈ optionKeys, isWord key = true := by decide +kernel

theorem optionMembers_keys : ∀ q ∈ optionMembers p forceExternal, q.1 ∈ optionKeys := by
  have hkeys : (optionMembers p forceExternal).map Prod.fst ⊆ optionKeys := by
    unfold optionMembers
    simp only [apply_ite (List.map Prod.fst), optionKeys, ascii, String.reduceToList, List.map_append,
      List.map_cons, List.map_nil]
    split_ifs
    all_goals decide +kernel
  exact fun q hq => hkeys (List.mem_map_of_mem hq)

theorem readsAs_toBool (b : Bool) : ReadsAs (toBool b) (.bool b) := by
  cases b with
  | true => exact Spells.trueLit.readsAs rfl
  | false => exact Spells.falseLit.readsAs rfl

theorem readsAs_int {n : Int} (h : n.natAbs ≤ 2 ^ 31) : ReadsAs (signed n) (.number n) :=
  readsAs_integer (exact_of_small (by omega))

theorem readsAs_noElements : ReadsAs (ascii "[]") (.array []) :=
  (Spells.emptyArray (w := []) (by simp [Blank])).readsAs rfl

theorem readsAs_cfg (b : Bool) : ReadsAs (Ascii.quote :: (signed (if b then 4 else 0) ++ [Ascii.quote]))
    (.string (if b then ascii "4" else ascii "0")) := by
  cases b with
  | true => exact readsAs_escape (ascii "4")
  | false => exact readsAs_escape (ascii "0")

theorem optionMembers_read (h : JsonTexts p) : ∀ q ∈ optionMembers p forceExternal, ∃ v, ReadsAs q.2 v := by
  obtain ⟨hauto, hoffset, hmanual, hflow⟩ :
      p.autoBedLeveling.natAbs ≤ 2 ^ 31 ∧ p.autoOffsetCali.natAbs ≤ 2 ^ 31 ∧
        p.extruderCaliManualMode.natAbs ≤ 2 ^ 31 ∧ p.autoFlowCali.natAbs ≤ 2 ^ 31 := by
    simpa only [List.forall_mem_cons, List.not_mem_nil, IsEmpty.forall_iff, implies_true, and_true]
      using h.ints
  have hsecond : ∃ v, ReadsAs (if p.amsMapping2 = [] then ascii "[]" else p.amsMapping2) v := by
    split_ifs with hempty
    · exact ⟨_, readsAs_noElements⟩
    · exact h.amsMapping2 hempty
  unfold optionMembers
  simp only [List.forall_mem_append, List.forall_mem_cons]
  refine ⟨⟨⟨⟨⟨⟨_, readsAs_toBool _⟩, ⟨_, readsAs_toBool _⟩, ⟨_, readsAs_toBool _⟩, ⟨_, readsAs_toBool _⟩,
    ⟨_, readsAs_toBool _⟩, ⟨_, readsAs_toBool _⟩, h.amsMapping, hsecond, nofun⟩, ?_⟩, ⟨_, readsAs_int hauto⟩,
    ⟨_, readsAs_int hoffset⟩, nofun⟩, ?_⟩, ⟨_, readsAs_cfg _⟩, ⟨_, readsAs_int hflow⟩, nofun⟩
  · split_ifs with hempty
    · exact nofun
    · exact List.forall_mem_singleton.mpr (h.nozzleMapping hempty)
  · split_ifs
    · exact List.forall_mem_singleton.mpr ⟨_, readsAs_int hmanual⟩
    · exact nofun

/-- The message is read when the texts in it are JSON. -/
theorem message_parses (h : JsonTexts p) :
    ∃ v, parse (buildProjectFileJson p opts seqId forceExternal) = .ok v := by
  have hkeys := namingMembers_keys p opts seqId
  have hmembers : ∀ q ∈ ((namingMembers p opts seqId).map fun e => (e.1, jsonEscape e.2)) ++
      optionMembers p forceExternal, PlainKey q.1 ∧ ∃ v, ReadsAs q.2 v := by
    refine List.forall_mem_append.mpr ⟨fun q hq => ?_, fun q hq => ?_⟩
    · obtain ⟨e, he, rfl⟩ := List.mem_map.mp hq
      exact ⟨plainKey_of_word (namingKeys_word e.1 (hkeys ▸ List.mem_map_of_mem he)), _, readsAs_escape e.2⟩
    · exact ⟨plainKey_of_word (optionKeys_word q.1 (optionMembers_keys p forceExternal q hq)),
        optionMembers_read p forceExternal h q hq⟩
  have hprint : ∀ q ∈ [(ascii "print", compact.object (((namingMembers p opts seqId).map fun e =>
      (e.1, jsonEscape e.2)) ++ optionMembers p forceExternal))], PlainKey q.1 ∧ ∃ v, ReadsAs q.2 v :=
    List.forall_mem_singleton.mpr ⟨plainKey_of_word printKey_word, compact.readsAs_object hmembers⟩
  obtain ⟨v, hv⟩ := compact.readsAs_object hprint
  exact ⟨v, hv.parse_self⟩

end Message

/-! ## The job -/

section Job

variable (e : Setting) (p : PrintParams)

/-- The message names the file by the path given to STOR, or by the `dest_name`. -/
def NamesUpload (v : Value) : Uploaded → Prop
  | .stor path => ∃ file, path = Ascii.slash :: file ∧ PrintField v (ascii "file") file ∧
      PrintField v (ascii "url") (ascii "ftp://" ++ file)
  | .emmc destName => PrintField v (ascii "file") destName ∧
      PrintField v (ascii "url") (ascii "brtc://emmc/" ++ destName)

/-- The MD5 of the caller if he gives one, the MD5 of the file where that is hashed to its end, and nothing
where it cannot be hashed. -/
structure PublishedMd5 (md5 : Bytes) : Prop where
  given : p.ftpFileMd5 ≠ [] → md5 = p.ftpFileMd5
  hashed : p.ftpFileMd5 = [] → ∀ reading, e.hashReads = some reading →
    (reading.pieces.takeWhile (· ≠ [])).flatten = e.file.content →
    md5 = hexUpper (e.md5.digest e.file.content)
  missing : p.ftpFileMd5 = [] → e.hashReads = none → md5 = []

/-- The message of a run names its upload, however the texts of the caller in it are spelled, and it is
read when they are JSON. -/
def Publishes (run : JobRun) : Prop :=
  ∃ json uploaded, run.message = some json ∧ run.uploaded = some uploaded ∧
    (JsonTexts p → ∃ v, parse json = .ok v) ∧
    ∀ v, parse json = .ok v → NamesUpload v uploaded ∧
      ∃ md5, PrintField v (ascii "md5") md5 ∧ PublishedMd5 e p md5

theorem publishedMd5 (storedPath url : Bytes) :
    PublishedMd5 e p (projectFileOpts e p storedPath url).md5 where
  given h := if_neg h
  hashed h reading hreads hwhole := by
    rw [projectFileOpts]
    simp only
    rw [if_pos h, md5OfFile, hreads]
    simp only
    rw [hwhole]
  missing h hreads := by
    rw [projectFileOpts]
    simp only
    rw [if_pos h, md5OfFile, hreads]

theorem startPrint_publishes (reports : List Report) {uploaded : Uploaded} {opts : ProjectFileOpts}
    (hmd5 : PublishedMd5 e p opts.md5)
    (hnames : ∀ v, PrintField v (ascii "file") (stripLeadingSlash opts.filePath) →
      PrintField v (ascii "url") opts.url → NamesUpload v uploaded)
    (h : (startPrint e p reports uploaded opts).code = some 0) :
    Publishes e p (startPrint e p reports uploaded opts) := by
  unfold startPrint at h ⊢
  simp only at h ⊢
  split_ifs at h ⊢
  · exact absurd (Option.some.inj h) (by decide)
  · exact absurd (Option.some.inj h) (by decide)
  · refine ⟨_, _, rfl, rfl, message_parses p opts e.seqId e.forceExternal, fun v hv => ?_⟩
    have hfield {key s : Bytes} (hmem : (key, s) ∈ namingMembers p opts e.seqId) : PrintField v key s :=
      message_field p opts e.seqId e.forceExternal hv hmem
    exact ⟨hnames v (hfield (by simp [namingMembers])) (hfield (by simp [namingMembers])), _,
      hfield (by simp [namingMembers]), hmd5⟩

end Job

/-- The MD5 of the message is one the caller gives, or that of the file. -/
def Md5OfUpload (e : Setting) (p : PrintParams) : Prop :=
  (runLocalPrintJob e p).code = some 0 → ∀ json v, (runLocalPrintJob e p).message = some json →
    parse json = .ok v → ∃ md5, PrintField v (ascii "md5") md5 ∧
      (p.ftpFileMd5 ≠ [] ∧ md5 = p.ftpFileMd5 ∨ md5 = hexUpper (e.md5.digest e.file.content))

/-- A file that can be uploaded and not hashed. -/
def unhashed : Setting := { lanSetting with hashReads := none }

theorem cubePrint_texts : JsonTexts cubePrint where
  amsMapping := ⟨_, readsAs_noElements⟩
  amsMapping2 h := absurd rfl h
  nozzleMapping h := absurd rfl h
  ints := by decide

end OpenBambu.Print
