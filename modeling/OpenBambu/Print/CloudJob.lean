import OpenBambu.Agent.CoverServer
import OpenBambu.Cloud.Http
import OpenBambu.Foundation.Dialogue
import OpenBambu.Print.AmsMapping
import OpenBambu.Print.ProjectFile
import OpenBambu.Url.Encoding

/-!
# The cloud print job

`Agent::run_cloud_print_job`: the project and its two uploads, the task, an upload to the printer where the
job goes over the LAN, and the message that starts the print. The job asks its surroundings for every reply
and every file, and they may answer as they like.
-/

namespace OpenBambu.Print

open OpenBambu.Foundation OpenBambu.Json OpenBambu.Cloud OpenBambu.Foundation.Dialogue
open OpenBambu.Agent (Response Session cloudRegion filename)

/-! ## Surroundings -/

/-- What the cloud print job reads of `BBL::PrintParams`. -/
structure CloudParams extends PrintParams where
  configFilename : Bytes
  amsMappingInfo : Bytes
  nozzlesInfo : Bytes
  originModelId : Bytes
  originProfileId : Int

/-- `send_message_to_printer`, or `cloud_send_message`. -/
inductive Channel where
  | lan
  | cloud
  deriving DecidableEq, Repr

inductive CloudCall where
  | perform (req : Request)
  | cancelled
  | report (r : Report)
  | slurp (path : Bytes)
  | ftpUpload (p : PrintParams) (remotePath : Bytes)
  | emmcUpload (p : PrintParams) (remoteName : Bytes)
  | publish (channel : Channel) (devId json : Bytes)

/-- The uploads answer as `ftp_upload` and `upload_file` do in some surroundings of theirs. -/
def CloudAnswer : CloudCall → Type
  | .perform _ => Response
  | .cancelled => Bool
  | .report _ => Unit
  | .slurp _ => Bytes
  | .ftpUpload p remotePath => { up : FtpUpload // ∃ e, up = Print.ftpUpload e p remotePath errPrintLpUploadFtpFailed }
  | .emmcUpload p remoteName =>
      { up : List Report × Int // ∃ e, uploadFile e p remoteName errPrintLpUploadFtpFailed = (up.1, some up.2) }
  | .publish .. => Int

/-- A part of the job: it gives up with the code that the job returns. -/
abbrev CloudStep (α : Type) := Job CloudCall CloudAnswer Int α

def perform (req : Request) : CloudStep Response := Job.ask (CloudCall.perform req)

def report (r : Report) : CloudStep Unit := Job.ask (CloudCall.report r)

def isCancelled : CloudStep Bool := Job.ask CloudCall.cancelled

/-- The bytes of the file, and none where it cannot be read. -/
def slurpFile (path : Bytes) : CloudStep Bytes := Job.ask (CloudCall.slurp path)

def publish (channel : Channel) (devId json : Bytes) : CloudStep Int :=
  Job.ask (CloudCall.publish channel devId json)

def errInvalidHandle : Int := -1
def errPrintWrRequestProjectIdFailed : Int := -2010
def errPrintWrUpload3mfConfigToOssFailed : Int := -2030
def errPrintWrPutNotificationFailed : Int := -2050
def errPrintWrGetNotificationTimeout : Int := -2060
def errPrintWrPatchProjectFailed : Int := -2080
def errPrintWrUpload3mfToOssFailed : Int := -2110
def errPrintWrPostTaskFailed : Int := -2120
def errPrintWrGetUserUploadFailed : Int := -2140

/-- An error is reported, and the job ends with its code. -/
def giveUp {α : Type} (code : Int) (text : Bytes) : CloudStep α := do
  report (failed code text)
  throw code

def failStage {α : Type} (code : Int) (what : Bytes) (resp : Response) : CloudStep α :=
  let detail :=
    if resp.error ≠ [] then what ++ ascii ": " ++ resp.error
    else if resp.statusCode ≠ 0 then what ++ ascii ": HTTP " ++ signed resp.statusCode
    else what
  giveUp code detail

/-! ## The requests -/

structure ProjectInfo where
  projectId : Bytes
  modelId : Bytes
  profileId : Bytes
  uploadUrl : Bytes
  uploadTicket : Bytes
  deriving DecidableEq, Repr

/-- The host of the API, and the account. -/
structure Account where
  api : Bytes
  token : Bytes
  userId : Bytes

section Requests

variable (a : Account)

def bblHeaders : Headers :=
  let h : Headers := OrderedMap.empty
  let h := h.insert (ascii "Authorization") (ascii "Bearer " ++ a.token)
  let h := h.insert (ascii "Content-Type") (ascii "application/json")
  let h := h.insert (ascii "Accept") (ascii "application/json")
  let h := h.insert (ascii "X-BBL-Client-Name") (ascii "OpenBambooNetworking")
  let h := h.insert (ascii "X-BBL-Client-Type") (ascii "slicer")
  let h := h.insert (ascii "X-BBL-OS-Type") (ascii "linux")
  let h := h.insert (ascii "X-BBL-Agent-OS-Type") (ascii "linux")
  let h := h.insert (ascii "X-BBL-Language") (ascii "en-US")
  let h := h.insert (ascii "X-BBL-Executable-info") (ascii "\x7b\x7d")
  if a.userId = [] then h
  else h.insert (ascii "X-BBL-Client-ID") (ascii "slicer:" ++ a.userId ++ ascii ":obn0")

/-- Without a content type, for a GET. -/
def getHeaders : Headers := (bblHeaders a).erase (ascii "Content-Type")

def projectRequest (name : Bytes) : Request where
  method := .post
  url := a.api ++ ascii "/v1/iot-service/api/user/project"
  headers := bblHeaders a
  body := compact.object [(ascii "name", escape name)]

/-- A PUT to a presigned address. The headers without a value drop those libcurl adds. -/
def s3Request (url body : Bytes) : Request where
  method := .put
  url := url
  headers := (OrderedMap.empty.insert (ascii "Content-Type") []).insert (ascii "Expect") []
  body := body
  noDefaultContentType := true
  noDefaultAccept := true

def notifyRequest (ticket originName : Bytes) : Request where
  method := .put
  url := a.api ++ ascii "/v1/iot-service/api/user/notification"
  headers := bblHeaders a
  body := compact.object [(ascii "upload",
    compact.object [(ascii "origin_file_name", escape originName), (ascii "ticket", escape ticket)])]

def pollRequest (ticket : Bytes) : Request where
  method := .get
  url := a.api ++ ascii "/v1/iot-service/api/user/notification?action=upload&ticket=" ++ Url.urlEncode ticket
  headers := getHeaders a

def patchRequest (projectId profileId md5 : Bytes) (plateIdx : Int) (url : Bytes) : Request where
  method := .patch
  url := a.api ++ ascii "/v1/iot-service/api/user/project/" ++ projectId
  headers := bblHeaders a
  body := compact.object [(ascii "profile_id", escape profileId),
    (ascii "profile_print_3mf", arrayText [compact.object [(ascii "md5", escape md5),
      (ascii "plate_idx", signed (if plateIdx ≤ 0 then 1 else plateIdx)), (ascii "url", escape url)]])]

def uploadUrlRequest (modelSlot : Bytes) : Request where
  method := .get
  url := a.api ++ ascii "/v1/iot-service/api/user/upload?models=" ++ Url.urlEncode modelSlot
  headers := getHeaders a

def taskRequest (body : Bytes) : Request where
  method := .post
  url := a.api ++ ascii "/v1/user-service/my/task"
  headers := bblHeaders a
  body := body

end Requests

/-! ## The steps -/

def projectInfo (root : Value) : ProjectInfo where
  projectId := (root.find (ascii "project_id")).asString
  modelId := (root.find (ascii "model_id")).asString
  profileId := (root.find (ascii "profile_id")).asString
  uploadUrl := (root.find (ascii "upload_url")).asString
  uploadTicket := (root.find (ascii "upload_ticket")).asString

/-- The id of the body's text, where the value is a number. -/
def rawTaskId (body : Bytes) : Bytes :=
  match findText (ascii "\"id\"") body with
  | none => []
  | some (_, behind) => (behind.dropWhile fun b => !isDigit b).takeWhile isDigit

section Steps

variable (a : Account)

def createProject (name : Bytes) : CloudStep ProjectInfo := do
  let resp ← perform (projectRequest a name)
  if ¬Accepted resp then failStage errPrintWrRequestProjectIdFailed (ascii "create_project") resp
  else
    match parse resp.body with
    | .error _ => giveUp errPrintWrRequestProjectIdFailed (ascii "bad JSON")
    | .ok root =>
        let info := projectInfo root
        if info.projectId = [] ∨ info.uploadUrl = [] then
          giveUp errPrintWrRequestProjectIdFailed (ascii "missing fields")
        else pure info

def percentReport (pct : Nat) : Report := ⟨.upload, pct, decimal pct ++ ascii "%"⟩

def s3Put (url body : Bytes) (stageStartPct stageEndPct : Nat) (errCode : Int) : CloudStep Unit := do
  report (percentReport stageStartPct)
  let resp ← perform (s3Request url body)
  if ¬Accepted resp then failStage errCode (ascii "s3 PUT") resp
  else report (percentReport stageEndPct)

def notifyUpload (ticket originName : Bytes) : CloudStep Unit := do
  let resp ← perform (notifyRequest a ticket originName)
  if ¬Accepted resp then failStage errPrintWrPutNotificationFailed (ascii "notify_upload") resp
  else pure ()

/-- The polls that are left. -/
def pollUpload (ticket : Bytes) : Nat → CloudStep Unit
  | 0 => giveUp errPrintWrGetNotificationTimeout (ascii "upload poll timeout")
  | attempts + 1 => do
      let cancelled ← isCancelled
      if cancelled = true then throw errCanceled
      else do
        let resp ← perform (pollRequest a ticket)
        if Accepted resp then pure () else pollUpload ticket attempts

def patchProject (projectId profileId md5 : Bytes) (plateIdx : Int) (url : Bytes) : CloudStep Unit := do
  let resp ← perform (patchRequest a projectId profileId md5 plateIdx url)
  if ¬Accepted resp then failStage errPrintWrPatchProjectFailed (ascii "patch_project") resp
  else pure ()

def getUploadUrl (modelSlot : Bytes) : CloudStep Bytes := do
  let resp ← perform (uploadUrlRequest a modelSlot)
  if ¬Accepted resp then failStage errPrintWrGetUserUploadFailed (ascii "get_upload_url") resp
  else
    match parse resp.body with
    | .error _ => failStage errPrintWrGetUserUploadFailed (ascii "bad get_upload_url JSON") resp
    | .ok root =>
        match (root.find (ascii "urls")).asArray with
        | [] => failStage errPrintWrGetUserUploadFailed (ascii "get_upload_url empty") resp
        | entry :: _ =>
            let url := (entry.find (ascii "url")).asString
            if url = [] then
              failStage errPrintWrGetUserUploadFailed (ascii "get_upload_url missing url") resp
            else pure url

/-- A task that is refused gets the id 0. -/
def createTask (body : Bytes) : CloudStep Bytes := do
  let resp ← perform (taskRequest a body)
  if ¬Accepted resp then pure (ascii "0")
  else
    match parse resp.body with
    | .error _ => failStage errPrintWrPostTaskFailed (ascii "create_task bad JSON") resp
    | .ok root =>
        let taskId := (root.find (ascii "id")).asString
        let taskId := if taskId = [] then rawTaskId resp.body else taskId
        if taskId = [] then failStage errPrintWrPostTaskFailed (ascii "create_task missing task_id") resp
        else pure taskId

end Steps

/-! ## The body of the task -/

/-- A text of the caller that starts like an array or an object, or the default. -/
def jsonOrDefault (raw fallback : Bytes) : Bytes :=
  let s := trim raw
  match s with
  | [] => fallback
  | b :: _ => if b = Ascii.lbracket ∨ b = Ascii.lbrace then s else fallback

def mappingMembers (p : CloudParams) : List (Bytes × Bytes) :=
  [(ascii "amsDetailMapping", jsonOrDefault p.amsMappingInfo (ascii "[]")),
    (ascii "amsMapping", jsonOrDefault p.amsMapping (ascii "[-1]")),
    (ascii "amsMapping2", amsMapping2ForCloud p.toPrintParams)] ++
  if p.nozzleMapping = [] then [] else [(ascii "nozzleMapping", p.nozzleMapping)]

def machineMembers (p : CloudParams) (forceExternal : Bool) : List (Bytes × Bytes) :=
  [(ascii "autoBedLeveling", signed p.autoBedLeveling),
    (ascii "bedLeveling", toBool p.taskBedLeveling),
    (ascii "bedType", jsonEscape (if p.taskBedType = [] then ascii "auto" else p.taskBedType)),
    (ascii "cfg", Ascii.quote ::
      (signed (if p.taskTimelapseUseInternal && !forceExternal then 4 else 0) ++ [Ascii.quote])),
    (ascii "cover", ascii "\"\""),
    (ascii "deviceId", jsonEscape p.devId),
    (ascii "extrudeCaliFlag", signed p.autoFlowCali),
    (ascii "extrudeCaliManualMode", signed p.extruderCaliManualMode),
    (ascii "filamentSettingIds", ascii "[]"),
    (ascii "flowCali", toBool p.taskFlowCali),
    (ascii "layerInspect", toBool p.taskLayerInspect)]

def modelMembers (p : CloudParams) (modelId profileId : Bytes) (useLanChannel : Bool) : List (Bytes × Bytes) :=
  [(ascii "mode", if useLanChannel then ascii "\"lan_file\"" else ascii "\"cloud_file\""),
    (ascii "modelId", jsonEscape modelId),
    (ascii "nozzleInfos", jsonOrDefault p.nozzlesInfo (ascii "[]")),
    (ascii "nozzleOffsetCali", signed p.autoOffsetCali),
    (ascii "oriModelId", jsonEscape p.originModelId),
    (ascii "oriProfileId", signed p.originProfileId),
    (ascii "plateIndex", signed (if p.plateIndex ≤ 0 then 1 else p.plateIndex)),
    (ascii "profileId", if profileId = [] then ascii "0" else profileId),
    (ascii "sequence_id", ascii "\"20000\""),
    (ascii "timelapse", toBool p.taskRecordTimelapse),
    (ascii "title", jsonEscape (if p.projectName = [] then p.taskName else p.projectName)),
    (ascii "useAms", toBool p.taskUseAms),
    (ascii "vibrationCali", toBool p.taskVibrationCali)]

def buildTaskBody (p : CloudParams) (modelId profileId : Bytes) (forceExternal useLanChannel : Bool) : Bytes :=
  compact.object (mappingMembers p ++ machineMembers p forceExternal ++
    modelMembers p modelId profileId useLanChannel)

/-! ## The job -/

/-- The settings, the country of the user, the snapshot of the session, and the next sequence id. -/
structure CloudSetting where
  settings : Config.Settings
  countryCode : Bytes
  session : Session
  seqId : Bytes

/-- Where the printer is to get the file from. -/
inductive Delivery where
  | cloud (url : Bytes)
  | stored (path : Bytes)
  | emmc
  deriving DecidableEq, Repr

section Job

variable (c : CloudSetting) (p : CloudParams)

def CloudSetting.api : Bytes := cloudApiHostFor c.settings (cloudRegion c.countryCode)

def CloudSetting.forceExternal : Bool := c.settings.forceTimelapseExternal

def CloudSetting.account : Account := ⟨c.api, c.session.accessToken, c.session.userId⟩

def cloudName : Bytes :=
  let name := if p.projectName = [] then p.taskName else p.projectName
  if name = [] then ascii "untitled" else name

def configPath : Bytes := if p.configFilename = [] then p.filename else p.configFilename

def cloudMd5 : Bytes :=
  if p.ftpFileMd5 = [] then ascii "00000000000000000000000000000000" else p.ftpFileMd5

def modelSlot (info : ProjectInfo) : Bytes :=
  info.modelId ++ ascii "_" ++ info.profileId ++ ascii "_" ++
    signed (if p.plateIndex ≤ 0 then 1 else p.plateIndex) ++ ascii ".3mf"

def patch (info : ProjectInfo) (url : Bytes) : CloudStep Unit :=
  patchProject c.account info.projectId info.profileId (cloudMd5 p) p.plateIndex url

/-- The bytes of a file there must be something in. -/
def readFile (path text : Bytes) : CloudStep Bytes := do
  let bytes ← slurpFile path
  if bytes = [] then giveUp errFileNotExist text else pure bytes

/-- [A] to [H]: the project, and the address of its print file. -/
def recordProject : CloudStep (ProjectInfo × Bytes) := do
  let info ← createProject c.account (cloudName p)
  let configBytes ← readFile (configPath p) (ascii "config_filename not readable")
  s3Put info.uploadUrl configBytes 0 10 errPrintWrUpload3mfConfigToOssFailed
  notifyUpload c.account info.uploadTicket (filename (configPath p))
  pollUpload c.account info.uploadTicket 20
  patch c p info (ascii "ftp://" ++ pickRemoteName p.toPrintParams)
  let mainUploadUrl ← getUploadUrl c.account (modelSlot p info)
  let mainBytes ← readFile p.filename (ascii "filename not readable")
  s3Put mainUploadUrl mainBytes 10 95 errPrintWrUpload3mfToOssFailed
  patch c p info mainUploadUrl
  pure (info, mainUploadUrl)

/-- The upload to the printer. Without its address or access code the job goes over the cloud. -/
def deliver (mainUploadUrl : Bytes) (useLanChannel : Bool) : CloudStep Delivery :=
  if useLanChannel = false then pure (.cloud mainUploadUrl)
  else if p.devIp = [] ∨ p.password = [] then pure (.cloud mainUploadUrl)
  else if useBrtcCacheUpload p.toPrintParams = true then do
    let up ← Job.ask (CloudCall.emmcUpload p.toPrintParams (pickRemoteName p.toPrintParams))
    if up.1.2 ≠ 0 then throw up.1.2 else pure .emmc
  else do
    let up ← Job.ask (CloudCall.ftpUpload p.toPrintParams (remotePath p.toPrintParams))
    if up.1.code ≠ 0 then throw up.1.code
    else
      let storedPath := up.1.stor.getD []
      pure (.stored (if storedPath = [] then remotePath p.toPrintParams else storedPath))

def Delivery.usesLan : Delivery → Bool
  | .cloud _ => false
  | _ => true

def Delivery.channel : Delivery → Channel
  | .cloud _ => .cloud
  | _ => .lan

def cloudFileOpts (info : ProjectInfo) (taskId : Bytes) (delivery : Delivery) : ProjectFileOpts where
  filePath :=
    match delivery with
    | .stored path => path
    | _ => pickRemoteName p.toPrintParams
  url :=
    match delivery with
    | .cloud url => url
    | .stored path => buildFtpUrl path
    | .emmc => buildBrtcEmmcUrl (pickRemoteName p.toPrintParams)
  md5 := cloudMd5 p
  projectId := info.projectId
  profileId := info.profileId
  taskId := taskId
  subtaskId := ascii "0"

def cloudMessage (info : ProjectInfo) (taskId : Bytes) (delivery : Delivery) : Bytes :=
  buildProjectFileJson p.toPrintParams (cloudFileOpts p info taskId delivery) c.seqId c.forceExternal

/-- [J]: the message that starts the print. -/
def startCloudPrint (info : ProjectInfo) (taskId : Bytes) (delivery : Delivery) : CloudStep Unit := do
  let pubRc ← publish delivery.channel p.devId (cloudMessage c p info taskId delivery)
  if pubRc ≠ 0 then giveUp errPrintLpPublishMsgFailed (ascii "MQTT publish failed")
  else report finished

/-- [I] and [J]. -/
def startTask (info : ProjectInfo) (delivery : Delivery) : CloudStep Unit := do
  report sending
  let body := buildTaskBody p info.modelId info.profileId c.forceExternal delivery.usesLan
  let taskId ← createTask c.account body
  startCloudPrint c p info taskId delivery

def runCloudPrintJob (useLanChannel : Bool) : CloudStep Unit :=
  if p.filename = [] then giveUp errFileNotExist (ascii "empty filename")
  else if c.session.accessToken = [] ∨ c.session.userId = [] then
    giveUp errInvalidHandle (ascii "not logged in")
  else do
    report created
    let cancelled ← isCancelled
    if cancelled = true then throw errCanceled
    else do
      let (info, mainUploadUrl) ← recordProject c p
      let delivery ← deliver p mainUploadUrl useLanChannel
      startTask c p info delivery

end Job

end OpenBambu.Print
