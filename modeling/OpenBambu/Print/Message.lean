import OpenBambu.Json.Layout
import OpenBambu.Foundation.Text

/-!
# The request that starts a print

The name the print file gets on the printer, the ways a path to it is written, and the MQTT message
`build_project_file_json` makes of them. Some fields of the message are JSON texts of the caller that go
into it as they are.
-/

namespace OpenBambu.Print

open OpenBambu.Foundation OpenBambu.Json

/-- What the LAN print job reads of `BBL::PrintParams`. -/
structure PrintParams where
  devId : Bytes
  taskName : Bytes
  projectName : Bytes
  filename : Bytes
  plateIndex : Int
  ftpFolder : Bytes
  ftpFileMd5 : Bytes
  nozzleMapping : Bytes
  amsMapping : Bytes
  amsMapping2 : Bytes
  devIp : Bytes
  useSslForFtp : Bool
  username : Bytes
  password : Bytes
  taskBedLeveling : Bool
  taskFlowCali : Bool
  taskVibrationCali : Bool
  taskLayerInspect : Bool
  taskRecordTimelapse : Bool
  taskTimelapseUseInternal : Bool
  taskUseAms : Bool
  taskBedType : Bytes
  autoBedLeveling : Int
  autoFlowCali : Int
  autoOffsetCali : Int
  extruderCaliManualMode : Int
  tryEmmcPrint : Bool

/-! ## Names -/

def isSlash (b : Byte) : Bool := b = Ascii.slash || b = Ascii.backslash

def basenameOf (path : Bytes) : Bytes := path.rtakeWhile fun b => !isSlash b

def sanitizeRemoteName (name : Bytes) : Bytes :=
  let name := name.dropWhile fun b => b = Ascii.dot || isSlash b || b = Ascii.sp
  let name := name.rdropWhile fun b => b = Ascii.sp || b = Ascii.dot
  name.map fun b => if b < 0x20 || isSlash b then 0x5f else b

def endsWith (s suf : Bytes) : Bool := startsWith s.reverse suf.reverse

def strip3mfExtension (name : Bytes) : Bytes :=
  if endsWith name (ascii ".gcode.3mf") then name.rdrop 10
  else if endsWith name (ascii ".3mf") then name.rdrop 4
  else name

def pickRemoteName (p : PrintParams) : Bytes :=
  let project := if p.projectName = [] then p.taskName else p.projectName
  let project := strip3mfExtension (sanitizeRemoteName project)
  if project ≠ [] then project ++ ascii ".gcode.3mf"
  else
    let name := sanitizeRemoteName (basenameOf p.filename)
    if name ≠ [] then name else ascii "print.gcode.3mf"

/-! ## Paths -/

def stripLeadingSlash (s : Bytes) : Bytes :=
  match s with
  | [] => []
  | b :: rest => if b = Ascii.slash then rest else s

def useBrtcCacheUpload (p : PrintParams) : Bool := p.tryEmmcPrint

def buildBrtcEmmcUrl (remoteName : Bytes) : Bytes := ascii "brtc://emmc/" ++ stripLeadingSlash remoteName

def buildFtpUrl (storedPath : Bytes) : Bytes := ascii "ftp://" ++ stripLeadingSlash storedPath

/-- The path of the upload, in front of a probe for the storage. -/
def remotePath (p : PrintParams) : Bytes :=
  let folder := p.ftpFolder
  let folder := if folder ≠ [] ∧ folder.getLast? ≠ some Ascii.slash then folder ++ [Ascii.slash] else folder
  let folder := if folder ≠ [] ∧ folder.head? = some Ascii.slash then folder.tail else folder
  Ascii.slash :: (folder ++ pickRemoteName p)

def pathUnder (path pre : Bytes) : Bool :=
  path.length > pre.length + 1 && startsWith path pre && path[pre.length]? = some Ascii.slash

/-! ## The message -/

def jsonEscape (s : Bytes) : Bytes := escape s

def toBool (v : Bool) : Bytes := if v then ascii "true" else ascii "false"

def isBlank (b : Byte) : Bool := b = Ascii.sp || b = Ascii.tab

def trimToken (tok : Bytes) : Bytes := (tok.dropWhile isBlank).rdropWhile isBlank

/-- The tokens between the commas, in the brackets of an array. -/
def joinTokens : List Bytes → Bytes
  | [] => [Ascii.lbracket, Ascii.rbracket]
  | tok :: toks => Ascii.lbracket :: (tok ++ toks.flatMap (fun t => Ascii.comma :: t) ++ [Ascii.rbracket])

def formatAmsMapping (mapping : Bytes) (useAms : Bool) : Bytes :=
  let s := (mapping.dropWhile isWs).rdropWhile isWs
  if s = [] then if useAms then ascii "[0]" else ascii "[]"
  else if s.head? = some Ascii.lbracket then s
  else joinTokens (((pieces Ascii.comma s).map trimToken).filter (· ≠ []))

structure ProjectFileOpts where
  filePath : Bytes
  url : Bytes
  md5 : Bytes
  projectId : Bytes := ascii "0"
  profileId : Bytes := ascii "0"
  taskId : Bytes := ascii "0"
  subtaskId : Bytes := ascii "0"

/-- The members in front of the calibrations, all of them strings. -/
def namingMembers (p : PrintParams) (opts : ProjectFileOpts) (seqId : Bytes) : List (Bytes × Bytes) :=
  [(ascii "sequence_id", seqId),
    (ascii "command", ascii "project_file"),
    (ascii "param", ascii "Metadata/plate_" ++ signed (if p.plateIndex ≤ 0 then 1 else p.plateIndex) ++
      ascii ".gcode"),
    (ascii "project_id", opts.projectId),
    (ascii "profile_id", opts.profileId),
    (ascii "task_id", opts.taskId),
    (ascii "subtask_id", opts.subtaskId),
    (ascii "subtask_name", if p.projectName = [] then p.taskName else p.projectName),
    (ascii "file", stripLeadingSlash opts.filePath),
    (ascii "url", opts.url),
    (ascii "md5", opts.md5),
    (ascii "bed_type", if p.taskBedType = [] then ascii "auto" else p.taskBedType)]

/-- The members behind them, with the texts of their values. `forceExternal` is
`config::current().force_timelapse_external`. -/
def optionMembers (p : PrintParams) (forceExternal : Bool) : List (Bytes × Bytes) :=
  [(ascii "bed_leveling", toBool p.taskBedLeveling),
    (ascii "flow_cali", toBool p.taskFlowCali),
    (ascii "vibration_cali", toBool p.taskVibrationCali),
    (ascii "layer_inspect", toBool p.taskLayerInspect),
    (ascii "timelapse", toBool p.taskRecordTimelapse),
    (ascii "use_ams", toBool p.taskUseAms),
    (ascii "ams_mapping", formatAmsMapping p.amsMapping p.taskUseAms),
    (ascii "ams_mapping2", if p.amsMapping2 = [] then ascii "[]" else p.amsMapping2)] ++
  (if p.nozzleMapping = [] then [] else [(ascii "nozzle_mapping", p.nozzleMapping)]) ++
  [(ascii "auto_bed_leveling", signed p.autoBedLeveling),
    (ascii "nozzle_offset_cali", signed p.autoOffsetCali)] ++
  (if 0 ≤ p.extruderCaliManualMode then
    [(ascii "extrude_cali_manual_mode", signed p.extruderCaliManualMode)] else []) ++
  [(ascii "cfg", Ascii.quote :: (signed (if p.taskTimelapseUseInternal && !forceExternal then 4 else 0) ++
      [Ascii.quote])),
    (ascii "extrude_cali_flag", signed p.autoFlowCali)]

/-- `seqId` is the time of `now_seq_id`. -/
def buildProjectFileJson (p : PrintParams) (opts : ProjectFileOpts) (seqId : Bytes) (forceExternal : Bool) :
    Bytes :=
  compact.object [(ascii "print", compact.object
    (((namingMembers p opts seqId).map fun e => (e.1, jsonEscape e.2)) ++ optionMembers p forceExternal))]

end OpenBambu.Print
