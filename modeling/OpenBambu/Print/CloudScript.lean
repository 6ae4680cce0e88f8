import OpenBambu.Print.CloudJob

/-!
# The script of the cloud print job

What the job asks of the cloud, of the disk and of the printer, in order. Each step is built from the answers
to those in front of it, and comes only behind answers that were good. At the end stands the one message that
starts the print.
-/

namespace OpenBambu.Print

open OpenBambu.Foundation OpenBambu.Json OpenBambu.Cloud OpenBambu.Foundation.Dialogue
open OpenBambu.Agent (Response Session filename)

/-! ## Good answers -/

/-- A reply that describes the project. -/
structure ProjectOf (resp : Response) (info : ProjectInfo) : Prop where
  accepted : Accepted resp
  described : ∃ root, parse resp.body = .ok root ∧ info = projectInfo root
  named : info.projectId ≠ []
  placed : info.uploadUrl ≠ []

/-- A reply that has the address for an upload. -/
def UploadUrlOf (resp : Response) (url : Bytes) : Prop :=
  Accepted resp ∧ url ≠ [] ∧ ∃ root entry entries, parse resp.body = .ok root ∧
    (root.find (ascii "urls")).asArray = entry :: entries ∧ (entry.find (ascii "url")).asString = url

/-- The id of a task: 0 where the task is refused, and otherwise what the reply calls its id. -/
def TaskOf (resp : Response) (taskId : Bytes) : Prop :=
  ¬Accepted resp ∧ taskId = ascii "0" ∨
    Accepted resp ∧ taskId ≠ [] ∧ ∃ root, parse resp.body = .ok root ∧
      (taskId = (root.find (ascii "id")).asString ∨
        (root.find (ascii "id")).asString = [] ∧ taskId = rawTaskId resp.body)

/-! ## The script -/

section Script

variable (c : CloudSetting) (p : CloudParams)

def asks (req : Request) (good : Response → Prop) : Cue CloudAnswer := ⟨.perform req, good⟩

def reads (path bytes : Bytes) : Cue CloudAnswer := ⟨.slurp path, fun b : Bytes => b = bytes ∧ b ≠ []⟩

def patches (info : ProjectInfo) (url : Bytes) : Cue CloudAnswer :=
  asks (patchRequest c.account info.projectId info.profileId (cloudMd5 p) p.plateIndex url) Accepted

def polls (info : ProjectInfo) (refused : Nat) : List (Cue CloudAnswer) :=
  List.replicate refused (asks (pollRequest c.account info.uploadTicket) fun resp => ¬Accepted resp) ++
    [asks (pollRequest c.account info.uploadTicket) Accepted]

/-- The project with its two files; `refused` of the polls for the first one are refused. -/
def projectScript (info : ProjectInfo) (mainUrl : Bytes) (refused : Nat) (config main : Bytes) :
    List (Cue CloudAnswer) :=
  [asks (projectRequest c.account (cloudName p)) fun resp => ProjectOf resp info,
    reads (configPath p) config,
    asks (s3Request info.uploadUrl config) Accepted,
    asks (notifyRequest c.account info.uploadTicket (filename (configPath p))) Accepted] ++
  polls c info refused ++
  [patches c p info (ascii "ftp://" ++ pickRemoteName p.toPrintParams),
    asks (uploadUrlRequest c.account (modelSlot p info)) fun resp => UploadUrlOf resp mainUrl,
    reads p.filename main,
    asks (s3Request mainUrl main) Accepted,
    patches c p info mainUrl]

/-- The upload to the printer, which is not made for the cloud. -/
def deliveryScript : Delivery → List (Cue CloudAnswer)
  | .cloud _ => []
  | .emmc =>
      [⟨.emmcUpload p.toPrintParams (pickRemoteName p.toPrintParams),
        fun up : { up : List Report × Int // _ } => up.1.2 = 0⟩]
  | .stored path =>
      [⟨.ftpUpload p.toPrintParams (remotePath p.toPrintParams),
        fun up : { up : FtpUpload // _ } => up.1.code = 0 ∧ up.1.stor = some path⟩]

def taskScript (info : ProjectInfo) (taskId : Bytes) (delivery : Delivery) : List (Cue CloudAnswer) :=
  [asks (taskRequest c.account (buildTaskBody p info.modelId info.profileId c.forceExternal delivery.usesLan))
      fun resp => TaskOf resp taskId,
    ⟨.publish delivery.channel p.devId (cloudMessage c p info taskId delivery),
      fun rc : Int => rc = 0⟩]

/-- Where the file goes: over the LAN only if that is wanted and the printer can be reached. -/
def DeliveryOf (useLanChannel : Bool) (mainUrl : Bytes) : Delivery → Prop
  | .cloud url => url = mainUrl ∧ (useLanChannel = true → p.devIp = [] ∨ p.password = [])
  | .emmc => useLanChannel = true ∧ useBrtcCacheUpload p.toPrintParams = true
  | .stored path => useLanChannel = true ∧ useBrtcCacheUpload p.toPrintParams = false ∧ Absolute path

/-- A script of the job. -/
def JobScript (useLanChannel : Bool) (script : List (Cue CloudAnswer)) : Prop :=
  ∃ info mainUrl refused config main delivery taskId, refused < 20 ∧
    DeliveryOf p useLanChannel mainUrl delivery ∧
    script = projectScript c p info mainUrl refused config main ++ deliveryScript p delivery ++
      taskScript c p info taskId delivery

end Script

/-- The calls of the script: all but the questions for a cancellation and the reports. -/
def acts : CloudCall → Bool
  | .cancelled => false
  | .report _ => false
  | _ => true

/-- An upload over port 6000 without a connection. -/
theorem uploadFile_unconnected (p : PrintParams) (remoteName : Bytes) :
    uploadFile { lanSetting with tunnel := none } p remoteName errPrintLpUploadFtpFailed =
      ([], some errPrintLpUploadFtpFailed) := rfl

instance (call : CloudCall) : Nonempty (CloudAnswer call) := by
  cases call with
  | perform req => exact ⟨(⟨[], 0, []⟩ : Response)⟩
  | cancelled => exact ⟨false⟩
  | report r => exact ⟨()⟩
  | slurp path => exact ⟨([] : Bytes)⟩
  | ftpUpload p remotePath => exact ⟨⟨_, lanSetting, rfl⟩⟩
  | emmcUpload p remoteName => exact ⟨⟨([], errPrintLpUploadFtpFailed), _, uploadFile_unconnected p remoteName⟩⟩
  | publish channel devId json => exact ⟨(0 : Int)⟩

/-! ## The steps along the script -/

section Steps

variable {α : Type} {plan : α → List (Cue CloudAnswer) → Prop}

theorem quits_giveUp (code : Int) (text : Bytes) : Quits acts (giveUp code text : CloudStep α) :=
  quits_unseen rfl fun _ => quits_throw code

theorem quits_failStage (code : Int) (what : Bytes) (resp : Response) :
    Quits acts (failStage code what resp : CloudStep α) := quits_giveUp code _

theorem follows_report (r : Report) {plan : Unit → List (Cue CloudAnswer) → Prop} (h : plan () []) :
    Follows acts (report r) plan := follows_aside rfl fun _ => h

variable (a : Account)

theorem createProject_follows (name : Bytes) :
    Follows acts (createProject a name) fun info s =>
      s = [asks (projectRequest a name) fun resp => ProjectOf resp info] := by
  refine follows_ask rfl (fun resp => ?_) ⟨⟨[], [], [], [], []⟩, _, [], rfl⟩
  simp only
  split_ifs with haccepted
  · cases hroot : parse resp.body with
    | error e => exact Or.inr (quits_giveUp _ _)
    | ok root =>
        simp only
        split_ifs with hmissing
        · exact Or.inr (quits_giveUp _ _)
        · rw [not_or] at hmissing
          exact Or.inl ⟨_, ⟨haccepted, ⟨root, hroot, rfl⟩, hmissing.1, hmissing.2⟩, follows_pure rfl⟩
  · exact Or.inr (quits_failStage _ _ _)

/-- A request whose reply is only looked at for its status. -/
theorem follows_accepted {req : Request} {code : Int} {what : Bytes} {behind : CloudStep Unit}
    (hbehind : Follows acts behind fun _ s => s = []) :
    Follows acts (do
      let resp ← perform req
      if ¬Accepted resp then failStage code what resp else behind) fun _ s => s = [asks req Accepted] := by
  refine follows_ask rfl (fun resp => ?_) ⟨(), _, [], rfl⟩
  split_ifs with haccepted
  · exact Or.inl ⟨_, haccepted, hbehind.mono fun _ _ hs => hs ▸ rfl⟩
  · exact Or.inr (quits_failStage _ _ _)

theorem s3Put_follows (url body : Bytes) (startPct endPct : Nat) (code : Int) :
    Follows acts (s3Put url body startPct endPct code) fun _ s => s = [asks (s3Request url body) Accepted] :=
  follows_unseen rfl fun _ => follows_accepted (follows_report _ rfl)

theorem notifyUpload_follows (ticket originName : Bytes) :
    Follows acts (notifyUpload a ticket originName) fun _ s =>
      s = [asks (notifyRequest a ticket originName) Accepted] :=
  follows_accepted (follows_pure rfl)

theorem patchProject_follows (projectId profileId md5 : Bytes) (plateIdx : Int) (url : Bytes) :
    Follows acts (patchProject a projectId profileId md5 plateIdx url) fun _ s =>
      s = [asks (patchRequest a projectId profileId md5 plateIdx url) Accepted] :=
  follows_accepted (follows_pure rfl)

/-- Of `attempts + 1` polls, `attempts` can be refused and one more accepted. -/
theorem pollUpload_follows (ticket : Bytes) (attempts : Nat) :
    Follows acts (pollUpload a ticket (attempts + 1)) fun _ s => ∃ refused ≤ attempts,
      s = List.replicate refused (asks (pollRequest a ticket) fun resp => ¬Accepted resp) ++
        [asks (pollRequest a ticket) Accepted] := by
  induction attempts with
  | zero =>
      refine follows_unseen rfl fun cancelled => ?_
      split_ifs
      · exact (quits_throw _).follows ⟨(), _, 0, le_rfl, rfl⟩
      · refine follows_ask rfl (fun resp => ?_) ⟨(), _, [], 0, le_rfl, rfl⟩
        split_ifs with haccepted
        · exact Or.inl ⟨_, haccepted, follows_pure ⟨0, le_rfl, rfl⟩⟩
        · exact Or.inr (quits_giveUp _ _)
  | succ attempts ih =>
      refine follows_unseen rfl fun cancelled => ?_
      split_ifs
      · exact (quits_throw _).follows ⟨(), _, 0, Nat.zero_le _, rfl⟩
      · refine follows_ask rfl (fun resp => ?_) ⟨(), _, [], 0, Nat.zero_le _, rfl⟩
        split_ifs with haccepted
        · exact Or.inl ⟨_, haccepted, follows_pure ⟨0, Nat.zero_le _, rfl⟩⟩
        · refine Or.inl ⟨fun resp : Response => ¬Accepted resp, haccepted, ih.mono ?_⟩
          rintro _ s ⟨refused, hle, rfl⟩
          exact ⟨refused + 1, Nat.succ_le_succ hle, rfl⟩

theorem getUploadUrl_follows (slot : Bytes) :
    Follows acts (getUploadUrl a slot) fun url s =>
      s = [asks (uploadUrlRequest a slot) fun resp => UploadUrlOf resp url] := by
  refine follows_ask rfl (fun resp => ?_) ⟨[], _, [], rfl⟩
  simp only
  split_ifs with haccepted
  · cases hroot : parse resp.body with
    | error e => exact Or.inr (quits_failStage _ _ _)
    | ok root =>
        cases hurls : (root.find (ascii "urls")).asArray with
        | nil => exact Or.inr (by simpa only [hurls] using quits_failStage _ _ _)
        | cons entry entries =>
            simp only [hurls]
            split_ifs with hempty
            · exact Or.inr (quits_failStage _ _ _)
            · exact Or.inl ⟨_, ⟨haccepted, hempty, root, entry, entries, hroot, hurls, rfl⟩, follows_pure rfl⟩
  · exact Or.inr (quits_failStage _ _ _)

theorem createTask_follows (body : Bytes) :
    Follows acts (createTask a body) fun taskId s =>
      s = [asks (taskRequest a body) fun resp => TaskOf resp taskId] := by
  refine follows_ask rfl (fun resp => ?_) ⟨[], _, [], rfl⟩
  simp only
  split_ifs with haccepted
  · cases hroot : parse resp.body with
    | error e => exact Or.inr (quits_failStage _ _ _)
    | ok root =>
        simp only
        by_cases hid : (root.find (ascii "id")).asString = []
        · rw [if_pos hid]
          split_ifs with hempty
          · exact Or.inr (quits_failStage _ _ _)
          · exact Or.inl ⟨_, Or.inr ⟨haccepted, hempty, root, hroot, Or.inr ⟨hid, rfl⟩⟩, follows_pure rfl⟩
        · rw [if_neg hid, if_neg hid]
          exact Or.inl ⟨_, Or.inr ⟨haccepted, hid, root, hroot, Or.inl rfl⟩, follows_pure rfl⟩
  · exact Or.inl ⟨_, Or.inl ⟨haccepted, rfl⟩, follows_pure rfl⟩

theorem readFile_follows (path text : Bytes) :
    Follows acts (readFile path text) fun bytes s => s = [reads path bytes] := by
  refine follows_ask rfl (fun bytes => ?_) ⟨[], _, [], rfl⟩
  split_ifs with hempty
  · exact Or.inr (quits_giveUp _ _)
  · exact Or.inl ⟨_, ⟨rfl, hempty⟩, follows_pure rfl⟩

end Steps

section Job

variable (c : CloudSetting) (p : CloudParams)

theorem recordProject_follows :
    Follows acts (recordProject c p) fun r s => ∃ refused config main, refused < 20 ∧
      s = projectScript c p r.1 r.2 refused config main := by
  refine follows_bind (createProject_follows _ _) ?_
  rintro info _ rfl
  refine follows_bind (readFile_follows _ _) ?_
  rintro config _ rfl
  refine follows_bind (s3Put_follows _ _ _ _ _) ?_
  rintro _ _ rfl
  refine follows_bind (notifyUpload_follows _ _ _) ?_
  rintro _ _ rfl
  refine follows_bind (pollUpload_follows _ _ 19) ?_
  rintro _ _ ⟨refused, hrefused, rfl⟩
  refine follows_bind (patchProject_follows _ _ _ _ _ _) ?_
  rintro _ _ rfl
  refine follows_bind (getUploadUrl_follows _ _) ?_
  rintro mainUrl _ rfl
  refine follows_bind (readFile_follows _ _) ?_
  rintro main _ rfl
  refine follows_bind (s3Put_follows _ _ _ _ _) ?_
  rintro _ _ rfl
  refine follows_bind (patchProject_follows _ _ _ _ _ _) ?_
  rintro _ _ rfl
  exact follows_pure ⟨refused, config, main, Nat.lt_succ_of_le hrefused, by
    simp [projectScript, polls, patches]⟩

theorem deliver_follows (mainUrl : Bytes) (useLanChannel : Bool) :
    Follows acts (deliver p mainUrl useLanChannel) fun d s =>
      DeliveryOf p useLanChannel mainUrl d ∧ s = deliveryScript p d := by
  unfold deliver
  split_ifs with hcloud haccess hemmc
  · exact follows_pure ⟨⟨rfl, fun h => absurd (hcloud.symm.trans h) (by decide)⟩, rfl⟩
  · exact follows_pure ⟨⟨rfl, fun _ => haccess⟩, rfl⟩
  · have hlan : useLanChannel = true := by simpa using hcloud
    refine follows_ask rfl (fun up => ?_) ⟨.emmc, _, [], ⟨hlan, hemmc⟩, rfl⟩
    split_ifs with hcode
    · exact Or.inr (quits_throw _)
    · exact Or.inl ⟨_, not_not.mp hcode, follows_pure ⟨⟨hlan, hemmc⟩, rfl⟩⟩
  · have hlan : useLanChannel = true := by simpa using hcloud
    have hftp : useBrtcCacheUpload p.toPrintParams = false := by simpa using hemmc
    refine follows_ask rfl (fun up => ?_) ⟨.stored (remotePath p.toPrintParams), _, [],
      ⟨hlan, hftp, ⟨_, rfl⟩⟩, rfl⟩
    obtain ⟨up, e, rfl⟩ := up
    split_ifs with hcode
    · exact Or.inr (quits_throw _)
    · obtain ⟨path, hstor, hpath⟩ := ftpUpload_stor e p.toPrintParams (remotePath p.toPrintParams)
        errPrintLpUploadFtpFailed ⟨_, rfl⟩ (by decide) (not_not.mp hcode)
      have hne : path ≠ [] := by
        obtain ⟨file, rfl⟩ := hpath
        exact List.cons_ne_nil _ _
      simp only [hstor, Option.getD_some, if_neg hne]
      exact Or.inl ⟨_, ⟨not_not.mp hcode, hstor⟩, follows_pure ⟨⟨hlan, hftp, hpath⟩, rfl⟩⟩

theorem startTask_follows (info : ProjectInfo) (delivery : Delivery) :
    Follows acts (startTask c p info delivery) fun _ s => ∃ taskId, s = taskScript c p info taskId delivery := by
  refine follows_unseen rfl fun _ => follows_bind (createTask_follows _ _) ?_
  rintro taskId _ rfl
  refine follows_ask rfl (fun rc => ?_) ⟨(), fun rc : Int => rc = 0, [], taskId, rfl⟩
  split_ifs with hrc
  · exact Or.inr (quits_giveUp _ _)
  · exact Or.inl ⟨fun rc : Int => rc = 0, not_not.mp hrc, follows_report _ ⟨taskId, rfl⟩⟩

/-- There is a script that goes to the cloud. -/
theorem jobScript_exists (useLanChannel : Bool) : ∃ s, JobScript c p useLanChannel s := by
  have hdelivery : ∃ d, DeliveryOf p useLanChannel [] d := by
    by_cases hway : useLanChannel = true → p.devIp = [] ∨ p.password = []
    · exact ⟨.cloud [], rfl, hway⟩
    · rw [Classical.not_imp] at hway
      cases hemmc : useBrtcCacheUpload p.toPrintParams with
      | true => exact ⟨.emmc, hway.1, hemmc⟩
      | false => exact ⟨.stored (remotePath p.toPrintParams), hway.1, hemmc, _, rfl⟩
  obtain ⟨d, hd⟩ := hdelivery
  exact ⟨_, ⟨[], [], [], [], []⟩, [], 0, [], [], d, [], by decide, hd, rfl⟩

/-- Whatever its surroundings answer, the job keeps to a script, and succeeds at its end. -/
theorem runCloudPrintJob_follows (useLanChannel : Bool) :
    Follows acts (runCloudPrintJob c p useLanChannel) fun _ s => JobScript c p useLanChannel s := by
  have hgo : ∃ (u : Unit) (s : List (Cue CloudAnswer)), JobScript c p useLanChannel s := by
    obtain ⟨s, hs⟩ := jobScript_exists c p useLanChannel
    exact ⟨(), s, hs⟩
  unfold runCloudPrintJob
  split_ifs
  · exact (quits_giveUp _ _).follows hgo
  · exact (quits_giveUp _ _).follows hgo
  · refine follows_unseen rfl fun _ => follows_unseen rfl fun cancelled => ?_
    split_ifs
    · exact (quits_throw _).follows hgo
    · refine follows_bind (recordProject_follows c p) ?_
      rintro ⟨info, mainUrl⟩ _ ⟨refused, config, main, hrefused, rfl⟩
      refine follows_bind (deliver_follows p mainUrl useLanChannel) ?_
      rintro delivery _ ⟨hdelivery, rfl⟩
      refine (startTask_follows c p info delivery).mono ?_
      rintro _ _ ⟨taskId, rfl⟩
      exact ⟨info, mainUrl, refused, config, main, delivery, taskId, hrefused, hdelivery,
        (List.append_assoc _ _ _).symm⟩

end Job

/-! ## The message -/

/-- What a run has published: over which channel, to which printer, and what. -/
def published (t : List (Exchange CloudAnswer)) : List (Channel × Bytes × Bytes) :=
  t.filterMap fun x =>
    match x.1 with
    | .publish channel devId json => some (channel, devId, json)
    | _ => none

theorem published_watched (t : List (Exchange CloudAnswer)) : published (watched acts t) = published t := by
  induction t with
  | nil => rfl
  | cons x t ih =>
      obtain ⟨call, ans⟩ := x
      cases call <;> simp_all [published, watched_cons, acts]

section Message

variable (c : CloudSetting) (p : CloudParams)

/-- The printer is told to fetch the file from where the job has put it. -/
def NamesDelivery (v : Value) : Delivery → Prop
  | .cloud url => PrintField v (ascii "file") (pickRemoteName p.toPrintParams) ∧ PrintField v (ascii "url") url
  | .stored path => NamesUpload v (.stor path)
  | .emmc => NamesUpload v (.emmc (pickRemoteName p.toPrintParams))

/-- The message as the printer reads it. -/
structure Announces (info : ProjectInfo) (taskId : Bytes) (delivery : Delivery) (json : Bytes) : Prop where
  readable : JsonTexts p.toPrintParams → ∃ v, parse json = .ok v
  project : ∀ v, parse json = .ok v → PrintField v (ascii "project_id") info.projectId
  profile : ∀ v, parse json = .ok v → PrintField v (ascii "profile_id") info.profileId
  task : ∀ v, parse json = .ok v → PrintField v (ascii "task_id") taskId
  md5 : ∀ v, parse json = .ok v → PrintField v (ascii "md5") (cloudMd5 p)
  file : ∀ v, parse json = .ok v → NamesDelivery p v delivery

theorem cloudMessage_announces (info : ProjectInfo) (taskId : Bytes) {delivery : Delivery}
    {useLanChannel : Bool} {mainUrl : Bytes} (h : DeliveryOf p useLanChannel mainUrl delivery) :
    Announces p info taskId delivery (cloudMessage c p info taskId delivery) := by
  have hfield {key s : Bytes} (hmem : (key, s) ∈ namingMembers p.toPrintParams
      (cloudFileOpts p info taskId delivery) c.seqId) {v : Value}
      (hv : parse (cloudMessage c p info taskId delivery) = .ok v) : PrintField v key s :=
    message_field _ _ _ _ hv hmem
  have hname := stripLeadingSlash_of_notMem (pickRemoteName_noSlash p.toPrintParams)
  refine ⟨message_parses _ _ _ _, fun v hv => hfield (by simp [namingMembers, cloudFileOpts]) hv,
    fun v hv => hfield (by simp [namingMembers, cloudFileOpts]) hv,
    fun v hv => hfield (by simp [namingMembers, cloudFileOpts]) hv,
    fun v hv => hfield (by simp [namingMembers, cloudFileOpts]) hv, fun v hv => ?_⟩
  cases delivery with
  | cloud url =>
      exact ⟨hfield (by simp [namingMembers, cloudFileOpts, hname]) hv,
        hfield (by simp [namingMembers, cloudFileOpts]) hv⟩
  | stored path =>
      exact ⟨_, h.2.2.strip, hfield (by simp [namingMembers, cloudFileOpts]) hv,
        hfield (by simp [namingMembers, cloudFileOpts, buildFtpUrl]) hv⟩
  | emmc =>
      exact ⟨hfield (by simp [namingMembers, cloudFileOpts, hname]) hv,
        hfield (by simp [namingMembers, cloudFileOpts, buildBrtcEmmcUrl, hname]) hv⟩

end Message

/-! ## Every run -/

/-- The replies of a cloud that grants everything. -/
def grantedReply (req : Request) : Bytes :=
  if endsWith req.url (ascii "/user/project") then
    compact.object [(ascii "project_id", escape (ascii "11")), (ascii "model_id", escape (ascii "m")),
      (ascii "profile_id", escape (ascii "7")), (ascii "upload_url", escape (ascii "https://s3/config")),
      (ascii "upload_ticket", escape (ascii "t"))]
  else if endsWith req.url (ascii "/my/task") then compact.object [(ascii "id", ascii "42")]
  else compact.object [(ascii "urls", arrayText [compact.object [(ascii "url", escape (ascii "https://s3/main"))]])]

/-- Surroundings in which everything succeeds but the upload over port 6000. -/
def grantingCloud (_ : List (Exchange CloudAnswer)) : (call : CloudCall) → CloudAnswer call
  | .perform req => (⟨[], 200, grantedReply req⟩ : Response)
  | .cancelled => false
  | .report _ => ()
  | .slurp path => path
  | .ftpUpload p remotePath => ⟨ftpUpload lanSetting p remotePath errPrintLpUploadFtpFailed, lanSetting, rfl⟩
  | .emmcUpload p remoteName => ⟨([], errPrintLpUploadFtpFailed), _, uploadFile_unconnected p remoteName⟩
  | .publish .. => (0 : Int)

def cubeOverCloud : CloudParams :=
  { cubePrint with
    configFilename := []
    amsMappingInfo := []
    nozzlesInfo := []
    originModelId := []
    originProfileId := 0 }

def loggedInSetting : CloudSetting where
  settings := {}
  countryCode := ascii "US"
  session := { accessToken := ascii "token", userId := ascii "1001" }
  seqId := ascii "1700000000000"

def grantedRun (useLanChannel : Bool) : List (Exchange CloudAnswer) × Except Int Unit :=
  run grantingCloud [] (runCloudPrintJob loggedInSetting cubeOverCloud useLanChannel)

theorem grantedRun_exchanges (useLanChannel : Bool) :
    Exchanges (runCloudPrintJob loggedInSetting cubeOverCloud useLanChannel).run (grantedRun useLanChannel).1 :=
  (runs_run grantingCloud [] _).exchanges

theorem grantedRun_succeeds : (grantedRun false).2 = .ok () := by decide +kernel

section Runs

variable (c : CloudSetting) (p : CloudParams) (useLanChannel : Bool)

/-- The job as far as it has come: along one of its scripts, and to the end of it if it has succeeded. -/
def Conducted (t : List (Exchange CloudAnswer)) : Prop :=
  (∃ script, JobScript c p useLanChannel script ∧ Conforms script (watched acts t)) ∧
    ((runCloudPrintJob c p useLanChannel).Runs t (.ok ()) →
      ∃ script, JobScript c p useLanChannel script ∧ Completes script (watched acts t))

/-- At every moment of every run. -/
theorem cloud_job_conducted {t : List (Exchange CloudAnswer)}
    (ht : Exchanges (runCloudPrintJob c p useLanChannel).run t) : Conducted c p useLanChannel t := by
  have hfollows := runCloudPrintJob_follows c p useLanChannel
  constructor
  · obtain ⟨-, script, hscript, hconforms⟩ := hfollows.exchanges ht
    exact ⟨script, hscript, hconforms⟩
  · intro hok
    exact hfollows.completes t () hok

end Runs

theorem cloud_job_conducted_granted :
    (grantedRun false).2 = .ok () ∧ Conducted loggedInSetting cubeOverCloud false (grantedRun false).1 :=
  ⟨grantedRun_succeeds, cloud_job_conducted _ _ _ (grantedRun_exchanges false)⟩

section Runs

variable (c : CloudSetting) (p : CloudParams) (useLanChannel : Bool)

/-- One message, behind everything that it speaks of. -/
structure StartsPrint (t : List (Exchange CloudAnswer)) (message : Channel × Bytes × Bytes) : Prop where
  only : published t = [message]
  behind : ∃ info mainUrl refused config main delivery taskId front rc, refused < 20 ∧
    DeliveryOf p useLanChannel mainUrl delivery ∧
    watched acts t = front ++ [⟨.publish message.1 message.2.1 message.2.2, rc⟩] ∧
    Completes (projectScript c p info mainUrl refused config main ++ deliveryScript p delivery ++
      (taskScript c p info taskId delivery).take 1) front ∧
    message.1 = delivery.channel ∧ message.2.1 = p.devId ∧ Announces p info taskId delivery message.2.2

theorem published_of_conforms {script : List (Cue CloudAnswer)} {t : List (Exchange CloudAnswer)}
    (h : Conforms script t) (hscript : ∀ q ∈ script, ∀ channel devId json, q.call ≠ .publish channel devId json) :
    published t = [] := by
  refine List.filterMap_eq_nil_iff.mpr fun x hx => ?_
  obtain ⟨q, hq, hcall⟩ := h.call_mem hx
  have hother := hscript q hq
  rw [← hcall] at hother
  split
  · next channel devId json hpublish => exact absurd hpublish (hother channel devId json)
  · rfl

theorem no_publish_before (info : ProjectInfo) (mainUrl : Bytes) (refused : Nat) (config main taskId : Bytes)
    (delivery : Delivery) :
    ∀ q ∈ projectScript c p info mainUrl refused config main ++ deliveryScript p delivery ++
      (taskScript c p info taskId delivery).take 1, ∀ channel devId json, q.call ≠ .publish channel devId json := by
  have hpolls : ∀ q ∈ polls c info refused, ∀ channel devId json, q.call ≠ .publish channel devId json := by
    intro q hq
    rcases List.mem_append.mp hq with hrefused | haccepted
    · rw [List.eq_of_mem_replicate hrefused]
      exact fun _ _ _ => nofun
    · rw [List.mem_singleton.mp haccepted]
      exact fun _ _ _ => nofun
  have hdelivery : ∀ q ∈ deliveryScript p delivery, ∀ channel devId json, q.call ≠ .publish channel devId json := by
    cases delivery <;> simp [deliveryScript]
  simp only [List.forall_mem_append, projectScript]
  exact ⟨⟨⟨⟨by simp [asks, reads], hpolls⟩, by simp [asks, reads, patches]⟩, hdelivery⟩,
    by simp [taskScript, asks]⟩

end Runs

/-- A request to the API in the name of the account. -/
structure Authorized (a : Account) (req : Request) : Prop where
  host : ∃ path, req.url = a.api ++ path
  bearer : req.headers.find (ascii "Authorization") = some (ascii "Bearer " ++ a.token)

/-- A PUT that says nothing of the account. -/
def anonymousPut (version url bytes : Bytes) : Wire where
  verb := ascii "PUT"
  url := url
  headers := [ascii "Content-Type:", ascii "Expect:", ascii "User-Agent: OBN/" ++ version]
  body := some bytes

theorem wire_s3Request (version url bytes : Bytes) :
    wire version (s3Request url bytes) = anonymousPut version url bytes := by
  have hlines : headerLines version (s3Request url bytes) = (anonymousPut version url bytes).headers := by
    rfl
  rw [wire, hlines]
  rfl

theorem bblHeaders_bearer (a : Account) :
    (bblHeaders a).find (ascii "Authorization") = some (ascii "Bearer " ++ a.token) := by
  unfold bblHeaders
  simp only
  split_ifs
  all_goals
    simp only [OrderedMap.find_insert]
    rfl

theorem getHeaders_bearer (a : Account) :
    (getHeaders a).find (ascii "Authorization") = some (ascii "Bearer " ++ a.token) := by
  rw [getHeaders, OrderedMap.find_erase, bblHeaders_bearer, if_neg (by decide +kernel)]

/-- The requests of a run. -/
def requests (t : List (Exchange CloudAnswer)) : List Request :=
  t.filterMap fun x =>
    match x.1 with
    | .perform req => some req
    | _ => none

theorem mem_requests {t : List (Exchange CloudAnswer)} {req : Request} (h : req ∈ requests t) :
    ∃ x ∈ watched acts t, x.1 = .perform req := by
  obtain ⟨x, hx, hreq⟩ := List.mem_filterMap.mp h
  split at hreq
  · next r hperform =>
      obtain rfl := Option.some.inj hreq
      exact ⟨x, List.mem_filter.mpr ⟨hx, by rw [hperform]; rfl⟩, hperform⟩
  · exact nomatch hreq

section Requests

variable (c : CloudSetting) (p : CloudParams) (useLanChannel : Bool)

/-- A request with the account to the API, or one of the two files without it to an address of the server. -/
def Confined (version : Bytes) (info : ProjectInfo) (mainUrl config main : Bytes) (req : Request) : Prop :=
  Authorized c.account req ∨ wire version req = anonymousPut version info.uploadUrl config ∨
    wire version req = anonymousPut version mainUrl main

section Guards

variable {c} {version : Bytes} {info : ProjectInfo} {mainUrl config main : Bytes}

/-- If the cue is a request, it is confined. -/
def Guards (c : CloudSetting) (version : Bytes) (info : ProjectInfo) (mainUrl config main : Bytes)
    (q : Cue CloudAnswer) : Prop :=
  ∀ req, q.call = .perform req → Confined c version info mainUrl config main req

theorem guards_asks {r : Request} (h : Confined c version info mainUrl config main r) (good : Response → Prop) :
    Guards c version info mainUrl config main (asks r good) := fun _ hreq => CloudCall.perform.inj hreq ▸ h

theorem guards_reads (path bytes : Bytes) : Guards c version info mainUrl config main (reads path bytes) :=
  fun _ => nofun

/-- A request with the headers of the account. -/
theorem confined_bbl {r : Request} (path : Bytes) (hurl : r.url = c.account.api ++ path)
    (hheaders : r.headers = bblHeaders c.account) : Confined c version info mainUrl config main r :=
  Or.inl ⟨⟨path, hurl⟩, hheaders ▸ bblHeaders_bearer c.account⟩

theorem confined_get {r : Request} (path : Bytes) (hurl : r.url = c.account.api ++ path)
    (hheaders : r.headers = getHeaders c.account) : Confined c version info mainUrl config main r :=
  Or.inl ⟨⟨path, hurl⟩, hheaders ▸ getHeaders_bearer c.account⟩

theorem guards_patches (url : Bytes) : Guards c version info mainUrl config main (patches c p info url) :=
  guards_asks (confined_bbl _ (List.append_assoc _ _ _) rfl) _

theorem guards_polls (refused : Nat) :
    ∀ q ∈ polls c info refused, Guards c version info mainUrl config main q := by
  have hpoll : Confined c version info mainUrl config main (pollRequest c.account info.uploadTicket) :=
    confined_get _ (List.append_assoc _ _ _) rfl
  intro q hq
  rcases List.mem_append.mp hq with hrefused | haccepted
  · rw [List.eq_of_mem_replicate hrefused]
    exact guards_asks hpoll _
  · rw [List.mem_singleton.mp haccepted]
    exact guards_asks hpoll _

theorem guards_projectScript (refused : Nat) :
    ∀ q ∈ projectScript c p info mainUrl refused config main,
      Guards c version info mainUrl config main q := by
  have hproject : Confined c version info mainUrl config main (projectRequest c.account (cloudName p)) :=
    confined_bbl _ rfl rfl
  have hnotify (name : Bytes) :
      Confined c version info mainUrl config main (notifyRequest c.account info.uploadTicket name) :=
    confined_bbl _ rfl rfl
  have hupload : Confined c version info mainUrl config main (uploadUrlRequest c.account (modelSlot p info)) :=
    confined_get _ (List.append_assoc _ _ _) rfl
  have hfirst : Confined c version info mainUrl config main (s3Request info.uploadUrl config) :=
    Or.inr (Or.inl (wire_s3Request version _ _))
  have hsecond : Confined c version info mainUrl config main (s3Request mainUrl main) :=
    Or.inr (Or.inr (wire_s3Request version _ _))
  unfold projectScript
  simp only [List.forall_mem_append, List.forall_mem_cons]
  exact ⟨⟨⟨guards_asks hproject _, guards_reads _ _, guards_asks hfirst _, guards_asks (hnotify _) _,
      List.forall_mem_nil _⟩, guards_polls refused⟩, guards_patches p _, guards_asks hupload _, guards_reads _ _,
    guards_asks hsecond _, guards_patches p _, List.forall_mem_nil _⟩

theorem guards_deliveryScript (delivery : Delivery) :
    ∀ q ∈ deliveryScript p delivery, Guards c version info mainUrl config main q := by
  cases delivery <;> simp [deliveryScript, Guards]

theorem guards_taskScript (taskId : Bytes) (delivery : Delivery) :
    ∀ q ∈ taskScript c p info taskId delivery, Guards c version info mainUrl config main q := by
  have htask (body : Bytes) : Confined c version info mainUrl config main (taskRequest c.account body) :=
    confined_bbl _ rfl rfl
  unfold taskScript
  rw [List.forall_mem_cons]
  exact ⟨guards_asks (htask _) _, by simp [Guards]⟩

end Guards

end Requests

end OpenBambu.Print
