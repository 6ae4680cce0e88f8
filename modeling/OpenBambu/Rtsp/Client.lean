import OpenBambu.Foundation.Dialogue
import OpenBambu.Json.Value
import OpenBambu.Rtsp.Auth
import OpenBambu.Rtsp.Interleaved
import OpenBambu.Rtsp.Sdp

/-!
# The client of a camera

`Client::start` asks for OPTIONS, DESCRIBE, SETUP and PLAY, each a second time where the printer challenges the
first; behind it a thread sends GET_PARAMETER until `stop`, which sends TEARDOWN. The connection, every reply
and every nonce of its own come from the surroundings of the client.
-/

namespace OpenBambu.Rtsp

open OpenBambu.Foundation OpenBambu.Foundation.Dialogue
open OpenBambu.Json (signed)

structure Url where
  host : Bytes
  port : Int
  user : Bytes
  passwd : Bytes
  path : Bytes
  device : Bytes
  tls : Bool

/-- What the client keeps between its requests. Of what has arrived it has not read `pending`. -/
structure ClientState where
  cseq : Int32
  sessionId : Bytes
  auth : AuthState
  track : H264Track
  demux : Demux
  pending : Bytes

def ClientState.start : ClientState where
  cseq := 1
  sessionId := []
  auth := ⟨.none, [], [], [], [], [], 0⟩
  track := ⟨[], [], 90000, 96⟩
  demux := ⟨[], ⟨[], 0, false⟩⟩
  pending := []

/-! ## Surroundings -/

inductive RtspCall where
  | dialTls (host : Bytes) (port : Int) (device : Bytes)
  | dial (host : Bytes) (port : Int)
  | randomDevice
  | write (req : Bytes)
  | await (rtpPt : Int) (pending : Bytes) (d : Demux)
  | shutdownBoth
  | close

/-- A reply is read as `await_response` reads it, from what is pending and what arrives behind it. -/
def RtspAnswer : RtspCall → Type
  | .dialTls .. => Bool
  | .dial .. => Bool
  | .randomDevice => UInt64
  | .write _ => Bool
  | .await rtpPt pending d =>
      { r : Except ReadEnd (Response × Bytes × Demux) // ∃ e more, r = awaitResponse rtpPt e (pending ++ more) d }
  | .shutdownBoth => Unit
  | .close => Unit

/-- A part of the client. Where it fails or the connection is closed the source returns -1 or 1. -/
abbrev RtspStep (α : Type) := Job RtspCall RtspAnswer ReadEnd α

def dialTls (host : Bytes) (port : Int) (device : Bytes) : RtspStep Bool :=
  Job.ask (RtspCall.dialTls host port device)

def dial (host : Bytes) (port : Int) : RtspStep Bool := Job.ask (RtspCall.dial host port)

def randomDevice : RtspStep UInt64 := Job.ask RtspCall.randomDevice

/-- `ssl_write_all`. -/
def writeAll (req : Bytes) : RtspStep Bool := Job.ask (RtspCall.write req)

def shutdownBoth : RtspStep Unit := Job.ask RtspCall.shutdownBoth

/-- `close_tls`, or `close_socket` where there is no session. -/
def close : RtspStep Unit := Job.ask RtspCall.close

/-! ## Requests -/

/-- The bytes in front of the first NUL. -/
def cString (s : Bytes) : Bytes := s.takeWhile (· ≠ 0)

def baseUrl (url : Url) : Bytes :=
  (if url.tls then ascii "rtsps://" else ascii "rtsp://") ++ url.host ++ ascii ":" ++ signed url.port ++
    (if url.path ≠ [] ∧ url.path.head? ≠ some Ascii.slash then ascii "/" else []) ++ url.path

/-- The address of the track: absolute, below the root of the base, or below the base. -/
def resolveControl (base control : Bytes) : Bytes :=
  if control = [] ∨ control = ascii "*" then base
  else if startsWith control (ascii "rtsp://") ∨ startsWith control (ascii "rtsps://") then control
  else if control.head? = some Ascii.slash then
    match findText (ascii "://") base with
    | none => base ++ control
    | some (scheme, behind) => scheme ++ ascii "://" ++ behind.takeWhile (· ≠ Ascii.slash) ++ control
  else if base.getLast? = some Ascii.slash then base ++ control
  else base ++ ascii "/" ++ control

def randomCnonce (r : UInt64) : Bytes :=
  [60, 56, 52, 48, 44, 40, 36, 32, 28, 24, 20, 16, 12, 8, 4, 0].map fun shift =>
    hexNibble (r.toNat / 2 ^ shift % 16)

/-- A challenge of Digest with a `qop` wants a nonce of the client. -/
def AuthState.wantsCnonce (auth : AuthState) : Bool := auth.authScheme = .digest && auth.digestQop ≠ []

/-- The part of a request that has room in the buffer, or has not. -/
def requestHead (method url : Bytes) (st : ClientState) : Bytes :=
  method ++ ascii " " ++ cString url ++ ascii " RTSP/1.0" ++ crlf ++
    (ascii "CSeq: " ++ signed st.cseq.toInt ++ crlf) ++
    (ascii "User-Agent: open-bamboo-networking/0.1" ++ crlf) ++
    (if st.sessionId = [] then [] else ascii "Session: " ++ cString st.sessionId ++ crlf)

/-- The requests of the thread and of `stop`. -/
def inlineRequest (method url : Bytes) (st : ClientState) (authHeader : Bytes) : Bytes :=
  method ++ ascii " " ++ url ++ ascii " RTSP/1.0" ++ crlf ++
    (ascii "CSeq: " ++ signed st.cseq.toInt ++ crlf) ++
    (ascii "Session: " ++ st.sessionId ++ crlf) ++ authHeader ++ crlf

section Steps

variable (md5Hex : Bytes → Bytes) (who : Credentials)

def authorization (auth : AuthState) (method uri : Bytes) : RtspStep (Bytes × AuthState) :=
  if auth.wantsCnonce = true then do
    let r ← randomDevice
    pure (computeAuthorization md5Hex (randomCnonce r) who method uri auth)
  else pure (computeAuthorization md5Hex [] who method uri auth)

def sendRequest (method url extraHeaders : Bytes) (st : ClientState) : RtspStep ClientState :=
  let head := requestHead method url st
  if 4096 ≤ head.length then throw (.failed (ascii "rtsp: request too long"))
  else do
    let (authHeader, auth) ← authorization md5Hex who st.auth method url
    let written ← writeAll (head ++ authHeader ++ extraHeaders ++ crlf)
    if written = true then pure { st with cseq := st.cseq + 1, auth }
    else throw (.failed (ascii "rtsp: write failed"))

def awaitReply (st : ClientState) : RtspStep (Response × ClientState) := do
  let got ← Job.ask (RtspCall.await st.track.rtpPt st.pending st.demux)
  match got.1 with
  | .error e => throw e
  | .ok (resp, pending, demux) => pure (resp, { st with pending, demux })

def noUsableChallenge : Bytes :=
  ascii "rtsp: 401 Unauthorized with no usable WWW-Authenticate (" ++
    ascii "Bambu access code wrong, or unsupported auth scheme)"

def rejected : Bytes := ascii "rtsp: 401 Unauthorized after Digest retry -- access code rejected by printer"

/-- A request, and once more with what the printer wants. -/
def requestWithAuth (method url extraHeaders : Bytes) (st : ClientState) :
    RtspStep (Response × ClientState) := do
  let st ← sendRequest md5Hex who method url extraHeaders st
  let (resp, st) ← awaitReply st
  if resp.status ≠ 401 then pure (resp, st)
  else
    match adoptChallenge resp st.auth with
    | .error h => throw (.halt h)
    | .ok (false, _) => throw (.failed noUsableChallenge)
    | .ok (true, auth) => do
        let st ← sendRequest md5Hex who method url extraHeaders { st with auth }
        let (resp, st) ← awaitReply st
        if resp.status = 401 then throw (.failed rejected) else pure (resp, st)

/-- The text for a status other than 200, in its buffer. -/
def statusText (method : Bytes) (resp : Response) : Bytes :=
  (ascii "rtsp: " ++ method ++ ascii " returned " ++ signed resp.status ++ ascii " " ++
    cString resp.reason).take 127

def doOptions (urlFull : Bytes) (st : ClientState) : RtspStep ClientState := do
  let (resp, st) ← requestWithAuth md5Hex who (ascii "OPTIONS") urlFull [] st
  if resp.status ≠ 200 then throw (.failed (statusText (ascii "OPTIONS") resp)) else pure st

def acceptHeader : Bytes := ascii "Accept: application/sdp" ++ crlf

def doDescribe (urlFull : Bytes) (st : ClientState) : RtspStep (Bytes × ClientState) := do
  let (resp, st) ← requestWithAuth md5Hex who (ascii "DESCRIBE") urlFull acceptHeader st
  if resp.status ≠ 200 then throw (.failed (statusText (ascii "DESCRIBE") resp)) else pure (resp.body, st)

def transportHeader : Bytes := ascii "Transport: RTP/AVP/TCP;unicast;interleaved=0-1" ++ crlf

/-- The id in front of the parameters of a `Session` header. -/
def sessionIdOf (session : Bytes) : Bytes := trim (session.takeWhile (· ≠ Ascii.letter ';'))

def doSetup (urlSetup : Bytes) (st : ClientState) : RtspStep ClientState := do
  let (resp, st) ← requestWithAuth md5Hex who (ascii "SETUP") urlSetup transportHeader st
  if resp.status ≠ 200 then throw (.failed (statusText (ascii "SETUP") resp))
  else
    let session := resp.header (ascii "session")
    if session = [] then throw (.failed (ascii "rtsp: SETUP did not return a Session header"))
    else pure { st with sessionId := sessionIdOf session }

def rangeHeader : Bytes := ascii "Range: npt=0.000-" ++ crlf

def doPlay (urlFull : Bytes) (st : ClientState) : RtspStep ClientState := do
  let (resp, st) ← requestWithAuth md5Hex who (ascii "PLAY") urlFull rangeHeader st
  if resp.status ≠ 200 then throw (.failed (statusText (ascii "PLAY") resp)) else pure st

/-- From OPTIONS to PLAY. -/
def handshake (urlFull : Bytes) : RtspStep ClientState := do
  let st ← doOptions md5Hex who urlFull ClientState.start
  let (sdp, st) ← doDescribe md5Hex who urlFull st
  match parseSdp sdp with
  | .error text => throw (.failed text)
  | .ok (track, control) => do
      let st ← doSetup md5Hex who (resolveControl urlFull control) { st with track }
      doPlay md5Hex who urlFull st

/-- The pings that `stop_flag` lets through. A write that fails ends the thread. -/
def keepaliveMain (urlFull : Bytes) : Nat → ClientState → RtspStep ClientState
  | 0, st => pure st
  | pings + 1, st => do
      let (authHeader, auth) ← authorization md5Hex who st.auth (ascii "GET_PARAMETER") urlFull
      let written ← writeAll (inlineRequest (ascii "GET_PARAMETER") urlFull st authHeader)
      let st := { st with cseq := st.cseq + 1, auth }
      if written = true then keepaliveMain urlFull pings st else pure st

def doTeardownBestEffort (urlFull : Bytes) (st : ClientState) : RtspStep Unit :=
  if st.sessionId = [] then pure ()
  else do
    let (authHeader, _) ← authorization md5Hex who st.auth (ascii "TEARDOWN") urlFull
    let _ ← writeAll (inlineRequest (ascii "TEARDOWN") urlFull st authHeader)
    pure ()

end Steps

/-! ## The client -/

section Client

variable (md5Hex : Bytes → Bytes) (url : Url)

def Url.credentials : Credentials := ⟨url.user, url.passwd⟩

/-- A read that does not return leaves the connection open. -/
def start : RtspStep ClientState :=
  if url.tls = true then do
    let dialed ← dialTls url.host url.port url.device
    if dialed = true then
      tryCatch (handshake md5Hex url.credentials (baseUrl url)) fun e =>
        match e with
        | .halt h => throw (.halt h)
        | e => do
            close
            throw e
    else throw (.failed [])
  else do
    let dialed ← dial url.host url.port
    if dialed = true then do
      close
      throw (.failed (ascii "rtsp: plain rtsp:// is not supported"))
    else throw (.failed [])

/-- `stop`, behind the last ping. The socket is shut down before TEARDOWN is written to it. -/
def stop (urlFull : Bytes) (st : ClientState) : RtspStep Unit := do
  shutdownBoth
  doTeardownBestEffort md5Hex url.credentials urlFull st
  close

/-- A client from `start` to `stop`, with as many pings as the stop flag lets through. -/
def life (pings : Nat) : RtspStep Unit := do
  let st ← start md5Hex url
  let st ← keepaliveMain md5Hex url.credentials (baseUrl url) pings st
  stop md5Hex url (baseUrl url) st

end Client

end OpenBambu.Rtsp
