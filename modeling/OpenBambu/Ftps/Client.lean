import OpenBambu.Ftps.Reply

/-!
# The FTP client and its printer

`Client` holds what `Client::Impl` holds, `World` the TCP connections it has opened and, of each of
them, what the printer has sent on it and what TLS has checked. `Printer` is what the printer and the
network do while one operation runs. Each operation is the function of the source over these.
-/

namespace OpenBambu.Ftps

open OpenBambu.Foundation

structure ConnectConfig where
  username : Bytes
  password : Bytes
  useTls : Bool
  tlsVerifyHostname : Bytes
  caFile : Bytes
  deriving DecidableEq, Repr

/-- The peer of a TLS handshake. -/
structure Handshake where
  /-- The handshake comes to its end when the chain is accepted. -/
  completes : Bool
  /-- The chain leads to a certificate of the trust store. -/
  chain : Bool
  /-- There is a peer certificate. -/
  certificate : Bool
  /-- `X509_check_host` finds the serial in it. -/
  name : Bool
  /-- The peer takes up the session that it is offered. -/
  resumes : Bool
  deriving DecidableEq, Repr

/-- The printer, the network and the calls of OpenSSL during one operation. -/
structure Printer where
  /-- `lan_tls::verify_enabled`. -/
  verifyEnabled : Bool
  /-- `connect_tcp` of the control connection, and of a data connection to a port. -/
  tcp : Bool
  dataTcp : Int → Bool
  ctxNew : Bool
  /-- `configure_lan_ssl_verify` behind its check of `ca_file`. -/
  verifySetup : Bool
  sslNew : Bool
  tls : Handshake
  /-- The end of a handshake that `connect` gave up, when the SSL object is written to later. -/
  late : Handshake
  dataSslNew : Bool
  dataTls : Handshake
  greeting : Reply
  /-- The reply to a command line, and to a transfer it accepts when that is over. -/
  answer : Bytes → Reply
  completion : Reply
  arrivals : List Arrival
  sends : Bytes → List Sent
  dataReads : List Received
  dataSends : List Sent
  /-- `openssl_last_error` and `strerror`. -/
  errorText : Bytes

/-- A TCP connection of the client. -/
structure Conn where
  /-- An SSL object belongs to it, and whether it verifies the chain. -/
  wrapped : Bool
  verifies : Bool
  /-- The handshake is done; the checks that were made in it. -/
  secure : Bool
  chain : Bool
  name : Bool
  /-- The greeting has been read. -/
  greeted : Bool
  /-- Sent by the printer and not read yet. -/
  wire : Bytes
  deriving DecidableEq, Repr

def Conn.new : Conn := ⟨false, false, false, false, false, false, []⟩

/-- `Client::Impl`; connections go by number. -/
structure Client where
  useTls : Bool
  tlsVerifyHostname : Bytes
  /-- `ctx`, and whether it has SSL_VERIFY_PEER. -/
  ctx : Option Bool
  ctrlSsl : Option Nat
  ctrlFd : Option Nat
  ctrlBuf : Bytes
  deriving DecidableEq, Repr

/-- A command with the reply the printer gives to it, or the end of a transfer (no command) with its
completion reply, and what `read_reply` returned for it. -/
structure Exchange where
  command : Option Bytes
  reply : Reply
  returned : Option (Nat × Bytes)

/-- The checks of a TLS connection. -/
structure Checks where
  chain : Bool
  name : Bool
  deriving DecidableEq, Repr

structure World where
  client : Client
  conns : Nat → Conn
  next : Nat
  arrivals : List Arrival
  /-- The exchanges so far, and the checks of the TLS connections whenever they carried application
  bytes, the last one first. -/
  log : List Exchange
  trace : List Checks

def World.start : World where
  client := ⟨true, [], none, none, none, []⟩
  conns := fun _ => Conn.new
  next := 0
  arrivals := []
  log := []
  trace := []

namespace World

variable (w : World)

/-- The connection that `ctrl_read` and `ctrl_write` use: the one of `ctrl_ssl`, or `ctrl_fd` with no
TLS on it (nothing comes of plain text on a TLS connection). -/
def channel : Option Nat :=
  if w.client.useTls then w.client.ctrlSsl
  else w.client.ctrlFd.filter fun i => !(w.conns i).wrapped

def setConn (i : Nat) (c : Conn) : World := { w with conns := Function.update w.conns i c }

/-- Application bytes on a connection. -/
def carried (i : Nat) : World :=
  if (w.conns i).wrapped then { w with trace := ⟨(w.conns i).chain, (w.conns i).name⟩ :: w.trace } else w

/-- The control connection as `read_reply` sees it. -/
def ctrl : Ctrl :=
  ⟨w.client.ctrlBuf, (w.channel.map fun i => (w.conns i).wire).getD [], w.arrivals⟩

/-- What is left of it. -/
def putCtrl (c : Ctrl) : World :=
  let w' := { w with client := { w.client with ctrlBuf := c.buf }, arrivals := c.arrivals }
  match w.channel with
  | none => w'
  | some i =>
      let w' := w'.setConn i { w.conns i with wire := c.wire }
      if c.wire = (w.conns i).wire then w' else w'.carried i

/-- `Impl::read_reply`. -/
def readReply : Option (Nat × Bytes) × World :=
  let r := Ftps.readReply w.ctrl []
  (r.1, w.putCtrl r.2)

end World

/-! ## Commands -/

/-- What the printer answers to what arrives: a reply to every line, and to a transfer that it
accepts the completion reply. -/
def transferCommand (line : Bytes) : Bool :=
  startsWith line (ascii "STOR ") || startsWith line (ascii "RETR ") || startsWith line (ascii "LIST")

def accepting (r : Reply) : Bool := r.code.val == 150 || r.code.val == 125

def Printer.replies (p : Printer) (line : Bytes) : Bytes :=
  (p.answer line).bytes ++ if transferCommand line && accepting (p.answer line) then p.completion.bytes else []

/-- The lines of what a client sends. -/
def commandLines (wire : Bytes) : List Bytes := (pieces Ascii.lf wire).map stripCr

/-- The handshake that a write drives on. -/
def World.finishTls (w : World) (p : Printer) (i : Nat) : World :=
  let c := w.conns i
  if c.wrapped && !c.secure && p.late.completes && (!c.verifies || p.late.chain) then
    w.setConn i { c with secure := true, chain := c.verifies, wire := p.greeting.bytes }
  else w

/-- `Impl::ctrl_write`. A line that does not go out whole is no command to the printer. -/
def World.ctrlWrite (w : World) (p : Printer) (wire : Bytes) : Bool × World :=
  match w.channel with
  | none => (false, w)
  | some i =>
      let w := w.finishTls p i
      let c := w.conns i
      if c.wrapped && !c.secure then (false, w)
      else
        let written := writeAll w.client.useTls (p.sends wire) wire
        let w := if written.data = [] then w else w.carried i
        if written.ok then
          (true, w.setConn i { c with wire := c.wire ++ (commandLines wire).flatMap p.replies })
        else (false, w)

def World.record (w : World) (command : Option Bytes) (reply : Reply) (returned : Option (Nat × Bytes)) :
    World :=
  { w with log := ⟨command, reply, returned⟩ :: w.log }

/-- `Impl::send_cmd`. -/
def World.sendCmd (w : World) (p : Printer) (cmd : Bytes) : Option (Nat × Bytes) × World :=
  let wire := cmd ++ crlf
  let reply := p.answer ((commandLines wire).headD [])
  match w.ctrlWrite p wire with
  | (false, w) => (none, w.record (some cmd) reply none)
  | (true, w) =>
      let r := w.readReply
      (r.1, r.2.record (some cmd) reply r.1)

/-- The reply behind the data of a transfer. -/
def World.readCompletion (w : World) (p : Printer) : Option (Nat × Bytes) × World :=
  let r := w.readReply
  (r.1, r.2.record none p.completion r.1)

/-- `std::to_string` of a code. -/
def codeText (reply : Option (Nat × Bytes)) : Bytes :=
  match reply with
  | some (code, _) => decimal code
  | none => ascii "-1"

def replyBody (reply : Option (Nat × Bytes)) : Bytes := (reply.map Prod.snd).getD []

def hasCode (reply : Option (Nat × Bytes)) (codes : List Nat) : Bool :=
  (reply.map fun r => codes.contains r.1).getD false

/-! ## Connecting -/

/-- `verify_peer_cn`, with its error. -/
def verifyPeerCn (h : Handshake) (expectedCn : Bytes) : Option Bytes :=
  if !h.certificate then some (ascii "no peer certificate")
  else if !h.name then some (ascii "certificate CN/host mismatch (expected " ++ expectedCn ++ ascii ")")
  else none

/-- The check of the name behind the handshake, if verification is wanted. -/
def nameError (wantVerify : Bool) (h : Handshake) (expectedCn : Bytes) : Option Bytes :=
  if wantVerify then verifyPeerCn h expectedCn else none

/-- The TLS part of `connect_transport` on the connection `i`. -/
def World.startTls (w : World) (cfg : ConnectConfig) (p : Printer) (i : Nat) : Option Bytes × World :=
  let wantVerify := p.verifyEnabled && cfg.tlsVerifyHostname ≠ []
  if p.verifyEnabled && cfg.tlsVerifyHostname = [] then
    (some (ascii "TLS verify requires printer serial (tls_verify_hostname)"), w)
  else if wantVerify && cfg.caFile = [] then
    (some (ascii "TLS verify requires ca_file (printer.cer)"), w)
  else if !p.ctxNew then
    (some (ascii "SSL_CTX_new: " ++ p.errorText), { w with client := { w.client with ctx := none } })
  else if wantVerify && !p.verifySetup then
    (some (ascii "TLS verify setup: " ++ p.errorText), { w with client := { w.client with ctx := some false } })
  else
    let w := { w with client := { w.client with ctx := some wantVerify } }
    if !p.sslNew then
      (some (ascii "SSL_new: " ++ p.errorText), { w with client := { w.client with ctrlSsl := none } })
    else
      let w := { w with client := { w.client with ctrlSsl := some i } }
      let c : Conn := { w.conns i with wrapped := true, verifies := wantVerify }
      if !p.tls.completes || (wantVerify && !p.tls.chain) then
        (some (ascii "TLS handshake: " ++ p.errorText), w.setConn i c)
      else
        let c : Conn := { c with secure := true, chain := wantVerify, wire := p.greeting.bytes }
        match nameError wantVerify p.tls cfg.tlsVerifyHostname with
        | some verr => (some (ascii "TLS verify: " ++ verr), w.setConn i c)
        | none => (none, w.setConn i { c with name := wantVerify })

/-- The greeting, on connection `i`. -/
def World.banner (w : World) (i : Nat) : Bytes × World :=
  let r := w.readReply
  let w := if r.1.isSome then r.2.setConn i { r.2.conns i with greeted := true } else r.2
  if hasCode r.1 [220] then ([], w)
  else (ascii "no 220 banner (got " ++ codeText r.1 ++ ascii "): " ++ replyBody r.1, w)

/-- `Client::connect_transport`. A printer without TLS sends its greeting at once. -/
def World.connectTransport (w : World) (cfg : ConnectConfig) (p : Printer) : Bytes × World :=
  let w := { w with client := { w.client with
    useTls := cfg.useTls, tlsVerifyHostname := cfg.tlsVerifyHostname, ctrlBuf := [] } }
  if !p.tcp then (ascii "tcp: " ++ p.errorText, w)
  else
    let i := w.next
    let w := { w with client := { w.client with ctrlFd := some i }, next := i + 1 }
    if cfg.useTls then
      match (w.setConn i Conn.new).startTls cfg p i with
      | (some err, w) => (err, w)
      | (none, w) => w.banner i
    else (w.setConn i { Conn.new with wire := p.greeting.bytes }).banner i

/-- A command that has to be answered with one of the codes, and the rest of the login behind it. -/
def World.expect (w : World) (p : Printer) (cmd what : Bytes) (codes : List Nat)
    (next : World → Bytes × World) : Bytes × World :=
  let r := w.sendCmd p cmd
  if hasCode r.1 codes then next r.2 else (what ++ ascii " rejected: code=" ++ codeText r.1, r.2)

/-- `Client::login`. -/
def World.login (w : World) (cfg : ConnectConfig) (p : Printer) : Bytes × World :=
  let typed (w : World) : Bytes × World :=
    w.expect p (ascii "TYPE I") (ascii "TYPE I") [200] fun w =>
      if w.client.useTls then
        w.expect p (ascii "PBSZ 0") (ascii "PBSZ") [200] fun w =>
          w.expect p (ascii "PROT P") (ascii "PROT P") [200] fun w => ([], w)
      else ([], w)
  let r := w.sendCmd p (ascii "USER " ++ cfg.username)
  if hasCode r.1 [331] then
    r.2.expect p (ascii "PASS " ++ cfg.password) (ascii "PASS") [230] typed
  else if hasCode r.1 [230] then typed r.2
  else (ascii "USER rejected: code=" ++ codeText r.1, r.2)

/-- `Client::connect`. -/
def World.connect (w : World) (cfg : ConnectConfig) (p : Printer) : Bytes × World :=
  match w.connectTransport cfg p with
  | ([], w) => w.login cfg p
  | (err, w) => (err, w)

/-! ## Data connections -/

/-- One `%d` of `sscanf`. -/
def scanInt (s : Bytes) : Option (Int × Bytes) :=
  let s := s.dropWhile isspace
  let neg := s.head? = some Ascii.minus
  let s := if s.head? = some Ascii.minus ∨ s.head? = some Ascii.plus then s.tail else s
  let ds := s.takeWhile isDigit
  if ds = [] then none
  else some (if neg then -(ofDecimal ds : Int) else ofDecimal ds, s.dropWhile isDigit)

/-- `sscanf` with that many `%d`, separated by commas. -/
def scanInts : Nat → Bytes → Option (List Int)
  | 0, _ => some []
  | 1, s => (scanInt s).map fun r => [r.1]
  | n + 2, s => do
      let r ← scanInt s
      match r.2 with
      | c :: rest => if c = Ascii.comma then (scanInts (n + 1) rest).map (r.1 :: ·) else none
      | [] => none

def lparen : Byte := 0x28
def rparen : Byte := 0x29

/-- The port in the body of a reply to PASV, or the error. The positions are of the first
parentheses. -/
def pasvPort (body : Bytes) : Except Bytes Int :=
  let lp := body.idxOf lparen
  let rp := body.idxOf rparen
  if lp = body.length ∨ rp = body.length ∨ rp ≤ lp then .error (ascii "PASV bad body: " ++ body)
  else
    let addr := (body.drop (lp + 1)).take (rp - lp - 1)
    match scanInts 6 addr with
    | some [_, _, _, _, p1, p2] => .ok (p1 * 256 + p2)
    | _ => .error (ascii "PASV parse: " ++ addr)

/-- `open_data_tcp`, with its error. -/
def World.openDataTcp (w : World) (p : Printer) : Option Bytes × World :=
  let r := w.sendCmd p (ascii "PASV")
  if !hasCode r.1 [227] then (some (ascii "PASV rejected: code=" ++ codeText r.1), r.2)
  else
    match pasvPort (replyBody r.1) with
    | .error err => (some err, r.2)
    | .ok port => if p.dataTcp port then (none, r.2) else (some (ascii "data tcp: " ++ p.errorText), r.2)

/-- The checks that count for a data connection when its handshake has gone through: those of the
control connection when its session is resumed, else its own, which are of the chain alone. -/
def World.dataChecks (w : World) (p : Printer) (verifies : Bool) : Checks :=
  match w.client.ctrlSsl with
  | some i =>
      if p.dataTls.resumes then ⟨(w.conns i).chain, (w.conns i).name⟩ else ⟨verifies, false⟩
  | none => ⟨verifies, false⟩

/-- `wrap_data_tls`. OpenSSL looks at the chain unless the session is resumed. -/
def World.wrapDataTls (w : World) (p : Printer) : Except Bytes Checks :=
  match w.client.ctx with
  | none => .error (ascii "data SSL_new")
  | some verifies =>
      if !p.dataSslNew then .error (ascii "data SSL_new")
      else if p.dataTls.completes && (p.dataTls.resumes || !verifies || p.dataTls.chain) then
        .ok (w.dataChecks p verifies)
      else .error (ascii "data TLS handshake: " ++ p.errorText)

/-- How a transfer starts: the checks of its data connection (none without TLS), or the error and
whether the printer had accepted it. -/
inductive Started where
  | refused (err : Bytes)
  | tlsFailed (err : Bytes)
  | open (checks : Option Checks)
  deriving DecidableEq, Repr

/-- What `stor`, `list`, `retr` and `list_entries` begin with: PASV, the command and, when it is
accepted, TLS on the data connection. -/
def World.startTransfer (w : World) (p : Printer) (what cmd : Bytes) : Started × World :=
  match w.openDataTcp p with
  | (some err, w) => (.refused err, w)
  | (none, w) =>
      let r := w.sendCmd p cmd
      if !hasCode r.1 [150, 125] then
        (.refused (what ++ ascii " rejected: code=" ++ codeText r.1), r.2)
      else if r.2.client.useTls then
        match r.2.wrapDataTls p with
        | .error err => (.tlsFailed err, r.2)
        | .ok checks => (.open (some checks), r.2)
      else (.open none, r.2)

/-- Data bytes on a data connection. -/
def World.dataCarried (w : World) (checks : Option Checks) (data : Bytes) : World :=
  match checks with
  | some c => if data = [] then w else { w with trace := c :: w.trace }
  | none => w

end OpenBambu.Ftps
