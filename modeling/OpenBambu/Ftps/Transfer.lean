import OpenBambu.Ftps.Client
import OpenBambu.Foundation.Run

/-!
# The operations of the FTP client

The loops over the data connection, and `stor`, `list`, `retr`, `list_entries`, `dele`, `size`, `cwd`
and `quit` around them. An operation with the printer as it is while it runs is an event; runs of the
client are runs over events.
-/

namespace OpenBambu.Ftps

open OpenBambu.Foundation

/-! ## The loops over the data -/

/-- The local file: where its end is when it is opened, and what the reads bring, one after the other.
Behind the end and after an error they bring nothing. -/
structure LocalFile where
  size : Nat
  reads : List Bytes
  deriving DecidableEq, Repr

inductive UploadEnd where
  | done
  | writeFailed
  | cancelled
  deriving DecidableEq, Repr

/-- What has gone out, how many bytes `sent` has counted, with which of its values `progress` was called,
and how the loop ended. -/
structure Upload where
  data : Bytes
  sent : Nat
  calls : List Nat
  ended : UploadEnd
  deriving DecidableEq, Repr

/-- Whole percents; `none` is the -1 of an unknown total. The product is of 64 bits. -/
def percent (sent total : Nat) : Option Nat :=
  if total > 0 then some (sent * 100 % 2 ^ 64 / total) else none

/-- A callback is called when a further percent is reached. -/
def callsAt (progress : Option (Nat → Nat → Bool)) (sent total : Nat) (last : Option Nat) : List Nat :=
  if progress.isSome ∧ percent sent total ≠ last then [sent] else []

/-- A callback that says no once a further percent is reached. -/
def cancels (progress : Option (Nat → Nat → Bool)) (sent total : Nat) (last : Option Nat) : Bool :=
  match progress with
  | some f => percent sent total != last && !f sent total
  | none => false

/-- The loop of `stor`. -/
def sendFile (useTls : Bool) (progress : Option (Nat → Nat → Bool)) (total : Nat) :
    List Bytes → List Sent → Nat → Option Nat → Upload
  | [], _, sent, _ => ⟨[], sent, [], .done⟩
  | piece :: reads, script, sent, last =>
      if piece = [] then ⟨[], sent, [], .done⟩
      else
        let written := writeAll useTls script piece
        if !written.ok then ⟨written.data, sent, [], .writeFailed⟩
        else
          let sent := (sent + piece.length) % 2 ^ 64
          let calls := callsAt progress sent total last
          if cancels progress sent total last then ⟨written.data, sent, calls, .cancelled⟩
          else
            let later := sendFile useTls progress total reads written.script sent
              (if progress.isSome then percent sent total else last)
            { later with data := written.data ++ later.data, calls := calls ++ later.calls }

/-- The loop of `list` and `list_entries`: what it has collected, and the read that ended it. -/
def readListing (useTls : Bool) (script : List Received) : Bytes × ReadSome :=
  match _h : readSome useTls script with
  | (.got data, rest) =>
      let later := readListing useTls rest
      (data ++ later.1, later.2)
  | (ended, _) => ([], ended)
termination_by script.length
decreasing_by exact readSome_shorter _h

inductive DownloadEnd where
  | done
  | readFailed
  | cancelled
  deriving DecidableEq, Repr

/-- The loop of `retr`; the sink is asked with all that it has been given. -/
def drain (useTls : Bool) (sink : Option (List Bytes → Bool)) (given : List Bytes)
    (script : List Received) : List Bytes × DownloadEnd :=
  match _h : readSome useTls script with
  | (.got data, rest) =>
      let given := given ++ [data]
      if sink.any fun f => !f given then (given, .cancelled) else drain useTls sink given rest
  | (.eof, _) => (given, .done)
  | (.failed, _) => (given, .readFailed)
termination_by script.length
decreasing_by exact readSome_shorter _h

def listCommand (path : Bytes) : Bytes := if path = [] then ascii "LIST" else ascii "LIST " ++ path

namespace World

variable (w : World) (p : Printer)

/-! ## The operations -/

/-- The end of a transfer that has gone through. -/
def finish (what : Bytes) (w : World) (p : Printer) : Bytes × World :=
  let r := w.readCompletion p
  if hasCode r.1 [226, 250] then ([], r.2)
  else (what ++ ascii " finish code=" ++ codeText r.1 ++ ascii ": " ++ replyBody r.1, r.2)

/-- `Client::stor`. What `progress` says behind the completion reply is not looked at. -/
def stor (localPath : Bytes) (file : Option LocalFile) (remotePath : Bytes)
    (progress : Option (Nat → Nat → Bool)) : Bytes × World :=
  match file with
  | none => (ascii "open " ++ localPath ++ ascii ": " ++ p.errorText, w)
  | some file =>
      match w.startTransfer p (ascii "STOR") (ascii "STOR " ++ remotePath) with
      | (.refused err, w) => (err, w)
      | (.tlsFailed err, w) => (err, w)
      | (.open checks, w) =>
          let up := sendFile w.client.useTls progress file.size file.reads p.dataSends 0 none
          let w := w.dataCarried checks up.data
          match up.ended with
          | .writeFailed => (ascii "data write: " ++ p.errorText, w)
          | .cancelled => (ascii "upload cancelled", w)
          | .done => w.finish (ascii "STOR") p

/-- LIST and its data, as `list` and `list_entries` both get it: the error, the body, and the state. -/
def fetchListing (path : Bytes) : Bytes × Bytes × World :=
  match w.startTransfer p (ascii "LIST") (listCommand path) with
  | (.refused err, w) => (err, [], w)
  | (.tlsFailed err, w) => (err, [], w)
  | (.open checks, w) =>
      let listing := readListing w.client.useTls p.dataReads
      let r := (w.dataCarried checks listing.1).readCompletion p
      if hasCode r.1 [226, 250] then ([], listing.1, r.2)
      else (ascii "LIST finish code=" ++ codeText r.1, [], r.2)

/-- `Client::list`: the body, `err_out`, and the state. -/
def list (path : Bytes) : Bytes × Bytes × World :=
  let r := w.fetchListing p path
  (r.2.1, r.1, r.2.2)

/-- `Client::list_entries` up to its loop over the lines: the error, the body that is parsed, and the
state. -/
def listEntries (path : Bytes) : Bytes × Bytes × World := w.fetchListing p path

/-- `Client::retr`. The completion reply is read also when the transfer was broken off. -/
def retr (remotePath : Bytes) (sink : Option (List Bytes → Bool)) : Bytes × World :=
  match w.startTransfer p (ascii "RETR") (ascii "RETR " ++ remotePath) with
  | (.refused err, w) => (err, w)
  | (.tlsFailed err, w) => (err, w)
  | (.open checks, w) =>
      let down := drain w.client.useTls sink [] p.dataReads
      let r := (w.dataCarried checks down.1.flatten).finish (ascii "RETR") p
      match down.2 with
      | .readFailed => (ascii "data read: " ++ p.errorText, r.2)
      | .cancelled => (ascii "download cancelled", r.2)
      | .done => r

/-- `Client::dele`. -/
def dele (remotePath : Bytes) : Bytes × World :=
  let r := w.sendCmd p (ascii "DELE " ++ remotePath)
  if hasCode r.1 [250, 200] then ([], r.2) else (ascii "DELE code=" ++ codeText r.1, r.2)

/-- `std::strtoull` in base ten, if it reads a number. -/
def strtoull (s : Bytes) : Option Nat :=
  let s := s.dropWhile isspace
  let neg := s.head? = some Ascii.minus
  let s := if s.head? = some Ascii.minus ∨ s.head? = some Ascii.plus then s.tail else s
  let ds := s.takeWhile isDigit
  if ds = [] then none
  else
    let n := ofDecimal ds
    some (if n ≥ 2 ^ 64 then 2 ^ 64 - 1 else if neg then (2 ^ 64 - n) % 2 ^ 64 else n)

/-- What `size` reads behind the first number of a reply's body, which ends at its first NUL. -/
def sizeText (body : Bytes) : Bytes :=
  let s := body.takeWhile (· ≠ 0)
  (((s.dropWhile fun c => !isDigit c).dropWhile isDigit).dropWhile fun c => c = Ascii.sp || c = Ascii.tab)

/-- `Client::size`: the error, `*size_out`, and the state. -/
def size (remotePath : Bytes) : Bytes × Nat × World :=
  let r := w.sendCmd p (ascii "SIZE " ++ remotePath)
  if !hasCode r.1 [213] then (ascii "SIZE code=" ++ codeText r.1, 0, r.2)
  else
    match strtoull (sizeText (replyBody r.1)) with
    | none => (ascii "SIZE parse: " ++ replyBody r.1, 0, r.2)
    | some v => ([], v, r.2)

/-- `Client::cwd`. -/
def cwd (path : Bytes) : Bytes × World :=
  let r := w.sendCmd p (ascii "CWD " ++ path)
  if hasCode r.1 [250, 200] then ([], r.2)
  else (ascii "CWD " ++ path ++ ascii " code=" ++ codeText r.1, r.2)

/-- `Client::quit`, which the destructor calls too. -/
def quit : World :=
  let w := if w.client.ctrlFd.isSome then (w.ctrlWrite p (ascii "QUIT" ++ crlf)).2.readReply.2 else w
  { w with client := { w.client with ctrlSsl := none, ctrlFd := none, ctx := none } }

end World

/-! ## Runs -/

inductive Op where
  | connect (cfg : ConnectConfig)
  | stor (localPath : Bytes) (file : Option LocalFile) (remotePath : Bytes)
      (progress : Option (Nat → Nat → Bool))
  | list (path : Bytes)
  | listEntries (path : Bytes)
  | retr (remotePath : Bytes) (sink : Option (List Bytes → Bool))
  | size (remotePath : Bytes)
  | dele (remotePath : Bytes)
  | cwd (path : Bytes)
  | quit

/-- An operation, and the printer while it runs. -/
structure Event where
  op : Op
  printer : Printer

/-- The state in which an operation starts: the reads of the control connection are those of the
event. -/
def World.begin (w : World) (p : Printer) : World := { w with arrivals := p.arrivals }

def World.run (w : World) (p : Printer) : Op → World
  | .connect cfg => (w.connect cfg p).2
  | .stor localPath file remotePath progress => (w.stor p localPath file remotePath progress).2
  | .list path => (w.list p path).2.2
  | .listEntries path => (w.listEntries p path).2.2
  | .retr remotePath sink => (w.retr p remotePath sink).2
  | .size remotePath => (w.size p remotePath).2.2
  | .dele remotePath => (w.dele p remotePath).2
  | .cwd path => (w.cwd p path).2
  | .quit => w.quit p

def step (w : World) (e : Event) : World := (w.begin e.printer).run e.printer e.op

end OpenBambu.Ftps
