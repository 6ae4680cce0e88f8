import OpenBambu.Print.Message
import OpenBambu.Print.Progress

/-!
# The LAN print job

`Agent::run_local_print_job`: the upload over FTPS or to the emmc over port 6000, and the message that
starts the print. A run is what it reports, what it uploads under which name, what it publishes, and the
code it comes back with.
-/

namespace OpenBambu.Print

open OpenBambu.Foundation OpenBambu.Json

/-! ## What a run meets -/

def errFileNotExist : Int := -14
def errCanceled : Int := -18
def errPrintLpFileOverSize : Int := -4010
def errPrintLpUploadFtpFailed : Int := -4020
def errPrintLpPublishMsgFailed : Int := -4030
def errConnectionToPrinterFailed : Int := -6010

/-- Where the job asks `cancel_fn`; a run comes to each of them once at most. -/
inductive Poll where
  | created
  | sent (bytes : Nat)
  | confirmed
  | chunk (turn : Nat)
  | uploaded
  deriving DecidableEq, Repr

/-- The reads of a stream: pieces of the file in order, up to the first that brings nothing. -/
structure Reading (content : Bytes) where
  pieces : List Bytes
  ordered : pieces.flatten <+: content

/-- The FTP server of the printer while the client connects, asks for a directory, and uploads. -/
structure FtpServer where
  connect : Ftps.Printer
  cwd : Bytes → Ftps.Printer
  stor : Ftps.Printer

/-- Everything around a run. The local file does not change. -/
structure Setting where
  file : Upload.File
  /-- `file_size` finds the file, and how the streams of `stor` and of `md5_of_file` read it; `none` when
  it cannot be opened, or when OpenSSL has no MD5 for `md5_of_file`. -/
  stat : Bool
  storReads : Option (Reading file.content)
  hashReads : Option (Reading file.content)
  opensChunked : Bool
  md5 : Upload.Md5
  cancelled : Poll → Bool
  caFile : Bytes
  ftp : FtpServer
  /-- The connection to port 6000 with the number of its next request, if it is made. -/
  tunnel : Option (UInt32 × Tunnel.Session)
  /-- `send_message_to_printer`. -/
  publish : Bytes → Int
  seqId : Bytes
  forceExternal : Bool

inductive PrintingStage where
  | create
  | upload
  | sending
  | finished
  | error
  deriving DecidableEq, Repr

/-- A call of `update_fn`. -/
structure Report where
  stage : PrintingStage
  code : Int
  text : Bytes
  deriving DecidableEq, Repr

def created : Report := ⟨.create, 0, []⟩
def sending : Report := ⟨.sending, 0, []⟩
def finished : Report := ⟨.finished, 0, ascii "3"⟩
def failed (code : Int) (text : Bytes) : Report := ⟨.error, code, text⟩

/-! ## `ftp_upload` -/

def connectConfig (p : PrintParams) (caFile : Bytes) : Ftps.ConnectConfig where
  username := if p.username = [] then ascii "bblp" else p.username
  password := p.password
  useTls := p.useSslForFtp
  tlsVerifyHostname := p.devId
  caFile := caFile

section Probe

variable (cwd : Bytes → Ftps.Printer) (remotePath : Bytes)

/-- The loop over the candidates: the path, and the client behind it. -/
def probe (filename : Bytes) : List Bytes → Ftps.World → Bytes × Ftps.World
  | [], w => (remotePath, w)
  | cand :: candidates, w =>
      let r := (w.begin (cwd cand)).cwd (cwd cand) cand
      if r.1 ≠ [] then probe filename candidates r.2
      else (if cand = ascii "/" then ascii "/" ++ filename else cand ++ ascii "/" ++ filename, r.2)

def adjustStoragePath (w : Ftps.World) : Bytes × Ftps.World :=
  let underSdcard := pathUnder remotePath (ascii "/sdcard")
  let underUsb := pathUnder remotePath (ascii "/usb")
  if !underSdcard && !underUsb then (remotePath, w)
  else
    let filename := ((remotePath.drop 1).dropWhile (· ≠ Ascii.slash)).drop 1
    if filename = [] then (remotePath, w)
    else if underSdcard then
      probe cwd remotePath filename [ascii "/sdcard", ascii "/usb", ascii "/"] w
    else probe cwd remotePath filename [ascii "/usb", ascii "/sdcard", ascii "/"] w

end Probe

/-- Its reports, its code, and the path given to STOR. -/
structure FtpUpload where
  reports : List Report
  code : Int
  stor : Option Bytes

section Upload

variable (e : Setting) (p : PrintParams)

def ftpReport (total sent : Nat) : Report :=
  ⟨.upload, ftpPercent total sent, signed (ftpPercent total sent) ++ ascii "%"⟩

/-- The reports of the calls of `progress`: a call that finds the job cancelled has none. -/
def ftpReports (calls : List Nat × List Nat) : List Report :=
  (calls.1.filter fun sent => !e.cancelled (.sent sent)).map (ftpReport e.file.size) ++
    (calls.2.filter fun _ => !e.cancelled .confirmed).map (ftpReport e.file.size)

def ftpUpload (remotePath : Bytes) (errCodeOnFailure : Int) : FtpUpload :=
  if !e.stat then ⟨[failed errFileNotExist (ascii "file not found")], errFileNotExist, none⟩
  else if e.file.size > 1024 * 1024 * 1024 then
    ⟨[failed errPrintLpFileOverSize (ascii "file over 1 GB")], errPrintLpFileOverSize, none⟩
  else
    let client := (Ftps.World.start.begin e.ftp.connect).connect (connectConfig p e.caFile) e.ftp.connect
    if client.1 ≠ [] then ⟨[failed errCodeOnFailure client.1], errCodeOnFailure, none⟩
    else
      let effective := adjustStoragePath e.ftp.cwd remotePath client.2
      let w := effective.2.begin e.ftp.stor
      let file := e.storReads.map fun r => Ftps.LocalFile.mk e.file.size r.pieces
      let progress (sent _ : Nat) := !e.cancelled (.sent sent)
      let reports := ftpReports e (storCalls progress w e.ftp.stor p.filename file effective.1)
      let err := (w.stor e.ftp.stor p.filename file effective.1 (some progress)).1
      if err ≠ [] then
        let code := if err = ascii "upload cancelled" then errCanceled else errCodeOnFailure
        ⟨reports ++ [failed code err], code, some effective.1⟩
      else ⟨reports, 0, some effective.1⟩

/-! ## `tunnel_upload::upload_file` -/

def chunkReport (pct : Int) : Report := ⟨.upload, pct, []⟩

def emmcRequest (remoteName : Bytes) : Upload.UploadRequest where
  localPath := p.filename
  destStorage := ascii "emmc"
  destName := remoteName

def opened : Option Upload.File := if e.opensChunked then some e.file else none

/-- Where the chunks end that a connection gets through. -/
def emmcEnds (remoteName : Bytes) (conn : UInt32 × Tunnel.Session) : List Nat :=
  uploadEnds e.md5 conn.1 (fun turn => e.cancelled (.chunk turn)) (emmcRequest p remoteName) (opened e) conn.2

/-- `Connection::upload`. -/
def emmcOutcome (remoteName : Bytes) (conn : UInt32 × Tunnel.Session) :
    Except Halt (Upload.UploadOutcome × Tunnel.Session) :=
  Upload.runChunkedUpload e.md5 conn.1 (emmcRequest p remoteName) (opened e)
    (fun turn => e.cancelled (.chunk turn)) conn.2

/-- The reports and the code; `none` when it does not come back. -/
def uploadFile (remoteName : Bytes) (errCodeOnFailure : Int) : List Report × Option Int :=
  match e.tunnel with
  | none => ([], some errCodeOnFailure)
  | some conn =>
      let reports :=
        (changes (-1) ((emmcEnds e p remoteName conn).map (chunkPercent e.file.size))).map chunkReport
      match emmcOutcome e p remoteName conn with
      | .error _ => (reports, none)
      | .ok (out, _) =>
          if out.ok then (reports ++ [chunkReport 100], some 0)
          else if out.error = some .cancelled then (reports, some errCanceled)
          else (reports, some errCodeOnFailure)

end Upload

/-! ## `run_local_print_job` -/

/-- Where a run has put the file, or has tried to: the path given to STOR, or the `dest_name`. -/
inductive Uploaded where
  | stor (path : Bytes)
  | emmc (destName : Bytes)
  deriving DecidableEq, Repr

structure JobRun where
  reports : List Report
  /-- `none` when it does not come back. -/
  code : Option Int
  uploaded : Option Uploaded := none
  /-- What it has given to `send_message_to_printer`. -/
  message : Option Bytes := none

/-- Two upper-case digits a byte. -/
def hexUpper (digest : Bytes) : Bytes :=
  let digit (n : Nat) : Byte := if n < 10 then UInt8.ofNat (48 + n) else UInt8.ofNat (55 + n)
  digest.flatMap fun b => [digit (b.toNat / 16), digit (b.toNat % 16)]

section Job

variable (e : Setting) (p : PrintParams)

def md5OfFile : Bytes :=
  match e.hashReads with
  | none => []
  | some reading => hexUpper (e.md5.digest (reading.pieces.takeWhile (· ≠ [])).flatten)

/-- The file and its URL of the message, with its MD5. -/
def projectFileOpts (storedPath url : Bytes) : ProjectFileOpts where
  filePath := storedPath
  url := url
  md5 := if p.ftpFileMd5 = [] then md5OfFile e else p.ftpFileMd5

/-- Everything behind the upload. -/
def startPrint (reports : List Report) (uploaded : Uploaded) (opts : ProjectFileOpts) : JobRun :=
  if e.cancelled .uploaded then
    { reports := reports ++ [failed errCanceled (ascii "cancelled")]
      code := some errCanceled
      uploaded := some uploaded }
  else
    let json := buildProjectFileJson p opts e.seqId e.forceExternal
    let reports := reports ++ [sending]
    if e.publish json ≠ 0 then
      { reports := reports ++ [failed errPrintLpPublishMsgFailed (ascii "MQTT publish failed")]
        code := some errPrintLpPublishMsgFailed
        uploaded := some uploaded
        message := some json }
    else
      { reports := reports ++ [finished]
        code := some 0
        uploaded := some uploaded
        message := some json }

def runLocalPrintJob : JobRun :=
  if p.devIp = [] ∨ p.password = [] then
    { reports := [failed errConnectionToPrinterFailed (ascii "no dev_ip/access_code")]
      code := some errConnectionToPrinterFailed }
  else if p.filename = [] then
    { reports := [failed errFileNotExist (ascii "empty filename")]
      code := some errFileNotExist }
  else if e.cancelled .created then { reports := [created], code := some errCanceled }
  else if useBrtcCacheUpload p then
    let remoteName := pickRemoteName p
    let up := uploadFile e p remoteName errPrintLpUploadFtpFailed
    let reports := created :: up.1
    if up.2 ≠ some 0 then { reports, code := up.2, uploaded := some (.emmc remoteName) }
    else
      startPrint e p reports (.emmc remoteName)
        (projectFileOpts e p remoteName (buildBrtcEmmcUrl remoteName))
  else
    let up := ftpUpload e p (remotePath p) errPrintLpUploadFtpFailed
    let reports := created :: up.reports
    let storedPath := up.stor.getD []
    if up.code ≠ 0 then { reports, code := some up.code, uploaded := up.stor.map .stor }
    else startPrint e p reports (.stor storedPath) (projectFileOpts e p storedPath (buildFtpUrl storedPath))

end Job

end OpenBambu.Print
