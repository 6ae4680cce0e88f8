import OpenBambu.Tunnel.Handshake
import OpenBambu.Rtsp.Passthrough

/-!
# The tunnel handle of the video library

`struct Tunnel` of `stubs/BambuSource.cpp` and the calls on it. A tunnel in CTRL mode has a worker
thread; its critical sections and its reads are turns of their own, so that the calls come between
any two of them. Closing is two steps, for it waits in between until the worker has exited.
-/

namespace OpenBambu.Source

open OpenBambu.Foundation OpenBambu.Json OpenBambu.Tunnel

inductive Scheme where
  /-- `Scheme::Local`. -/
  | localTls
  | rtsps
  | rtsp
  deriving DecidableEq, Repr

structure TunnelUrl where
  scheme : Scheme := .localTls
  host : Bytes := []
  port : Int := 6000
  user : Bytes := ascii "bblp"
  passwd : Bytes := []
  device : Bytes := []
  cliId : Bytes := []
  cliVer : Bytes := []
  netVer : Bytes := []
  path : Bytes := ascii "/streaming/live/1"

/-! ## Connections -/

/-- One return of `SSL_read`. -/
inductive SslRead where
  | bytes (c : Chunk)
  | wantRead
  | eof
  | error

/-- An `SSL` object with its socket: what has arrived and is not read yet, how the coming writes
end, and what has been written. -/
structure Conn where
  reads : List SslRead
  writes : List (Option Nat)
  sent : Bytes

/-- The members of a `tunnel_local::Session`. -/
structure TlSession where
  seq : UInt32
  phase : HandshakePhase
  recvBuf : Bytes

/-- What `read_some` makes of it. -/
def SslRead.some : SslRead → Read
  | .bytes c => .bytes c
  | .wantRead => .wantRead
  | .eof => .closed
  | .error => .closed

/-- A session in a call that is given the connection. -/
def TlSession.on (tl : TlSession) (c : Conn) : Session where
  seq := tl.seq
  phase := tl.phase
  recvBuf := tl.recvBuf
  reads := c.reads.map SslRead.some
  writes := c.writes
  sent := c.sent

/-- The connection behind such a call. -/
def Conn.behind (c : Conn) (s : Session) : Conn where
  reads := c.reads.drop (c.reads.length - s.reads.length)
  writes := s.writes
  sent := s.sent

/-- `ssl_write_all`, for which the members of a session do not matter. -/
def Conn.writeAll (c : Conn) (buf : Bytes) : Bool × Conn :=
  let r := sslWriteAll (TlSession.on ⟨0, .notStarted, []⟩ c) buf
  (r.1, c.behind r.2)

/-- `shutdown_both`: a read behind what has arrived returns at once. -/
def Conn.shutdownBoth (c : Conn) : Conn := { c with reads := c.reads ++ [.eof] }

/-! ## The handle -/

inductive SubType where
  | avc1
  | mjpg
  deriving DecidableEq, Repr

/-- A started passthrough, with what its worker reads. -/
structure Pass where
  track : Rtsp.H264Track
  ending : Rtsp.Ending
  state : Rtsp.Passthrough

/-- Where the CTRL worker stands. `req` is the request at hand and `conn` the `SSL` object that
`recv_payload` was called with. -/
inductive Worker where
  /-- Waiting on `ctrl_cv`. -/
  | waiting
  /-- The request is off `ctrl_in` and not sent yet. -/
  | holding (req : Bytes)
  /-- In `recv_payload`, at its buffer. -/
  | taking (req : Bytes) (conn : Nat)
  /-- In `SSL_read`. -/
  | reading (req : Bytes) (conn : Nat)
  /-- `consume_frames` did not come back. -/
  | halted (req : Bytes) (h : Halt)
  | exited
  deriving DecidableEq

structure Tunnel where
  url : TunnelUrl
  /-- Every connection there was; `ssl` is the one in use. -/
  conns : List Conn := []
  ssl : Option Nat := none
  rtspPass : Option Pass := none
  subType : SubType := .mjpg
  width : Int := 1280
  height : Int := 720
  frameRate : Int := 15
  t0 : Nat := 0
  closing : Bool := false
  mjpgAuthed : Bool := false
  ctrlMode : Bool := false
  tlSession : Option TlSession := none
  ctrlIn : List Bytes := []
  ctrlOut : List Bytes := []
  ctrlStop : Bool := false
  ctrlWorker : Option Worker := none

/-- The session on the given connection. -/
def Tunnel.session (t : Tunnel) (conn : Nat) : Option Session := do
  let tl ← t.tlSession
  let c ← t.conns[conn]?
  return tl.on c

/-- The tunnel behind a call of the session. -/
def Tunnel.put (t : Tunnel) (conn : Nat) (s : Session) : Tunnel :=
  { t with
    tlSession := some ⟨s.seq, s.phase, s.recvBuf⟩
    conns := t.conns.modify conn (·.behind s) }

def kCtrlType : Int := 0x3001

def kMaxFrameSize : Nat := 2 ^ 20

/-- `Bambu_success`, `Bambu_stream_end` and `Bambu_would_block`. -/
def success : Int := 0

def streamEnd : Int := 1

def wouldBlock : Int := 2

/-! ## Opening -/

/-- What the calls that dial come to: how the writes on the connection of `dial_tls` will end, or the
started passthrough. -/
structure Network where
  dialTls : (host : Bytes) → (port : Int) → (serial : Option Bytes) → Option (List (Option Nat))
  startRtsp : TunnelUrl → Option Pass

def openRtsp (t : Tunnel) (net : Network) (now : Nat) : Int × Tunnel :=
  match net.startRtsp t.url with
  | none => (-1, t)
  | some pass =>
      (success,
        { t with
          rtspPass := some pass
          subType := .avc1
          width := 1280
          height := 720
          frameRate := 30
          t0 := now })

def bambuOpen (t : Tunnel) (net : Network) (now : Nat) : Int × Tunnel :=
  if t.url.scheme = .rtsps ∨ t.url.scheme = .rtsp then openRtsp t net now
  else
    let serial := if t.url.device = [] then none else some t.url.device
    match net.dialTls t.url.host t.url.port serial with
    | none => (-1, { t with ssl := none })
    | some writes =>
        (success,
          { t with
            conns := t.conns ++ [⟨[], writes, []⟩]
            ssl := some t.conns.length
            t0 := now })

/-! ## Starting a stream -/

def buildAuthPacket (url : TunnelUrl) : Bytes :=
  writeU32Le 0x40 ++ writeU32Le 0x3000 ++ writeU32Le 0 ++ writeU32Le 0 ++
    asciiField url.user 32 ++ asciiField url.passwd 32

/-- The auth packet on the connection. -/
def sendAuth (t : Tunnel) (conn : Nat) : Int × Tunnel :=
  match t.conns[conn]? with
  | none => (-1, t)
  | some c =>
      match c.writeAll (buildAuthPacket t.url) with
      | (false, c) => (-1, { t with conns := t.conns.set conn c })
      | (true, c) => (success, { t with conns := t.conns.set conn c, mjpgAuthed := true })

def bambuStartStream (t : Tunnel) : Int × Tunnel :=
  match t.url.scheme with
  | .localTls =>
      match t.ssl with
      | none => (-1, t)
      | some conn => if t.ctrlMode || t.mjpgAuthed then (success, t) else sendAuth t conn
  | _ => if t.rtspPass.isNone then (-1, t) else (success, t)

/-- The `Config` of the handshake. -/
def handshakeConfig (url : TunnelUrl) : Config where
  username := url.user
  accessCode := url.passwd
  clientId := url.cliId
  clientVer := if url.cliVer ≠ [] then url.cliVer else url.netVer

/-- `seed` is what `std::rand` returns. -/
def startNativeCtrlHandshake (t : Tunnel) (seed : UInt32) : Except Halt (Int × Tunnel) :=
  match t.ssl with
  | none => .ok (-1, t)
  | some conn =>
      let t := if t.tlSession.isNone then { t with tlSession := some ⟨seed, .notStarted, []⟩ } else t
      match t.session conn with
      | none => .ok (-1, t)
      | some s =>
          match handshakeStep (handshakeConfig t.url) s with
          | .error h => .error h
          | .ok (.failed, s) => .ok (-1, { t.put conn s with tlSession := none })
          | .ok (.more, s) => .ok (wouldBlock, t.put conn s)
          | .ok (.done, s) =>
              if t.ctrlMode then .ok (success, t.put conn s)
              else
                .ok (success,
                  { t.put conn s with
                    ctrlMode := true
                    ctrlStop := false
                    ctrlWorker := some .waiting })

def bambuStartStreamEx (t : Tunnel) (type : Int) (seed : UInt32) : Except Halt (Int × Tunnel) :=
  if type = kCtrlType then startNativeCtrlHandshake t seed else .ok (bambuStartStream t)

def bambuGetStreamCount (t : Tunnel) : Int :=
  match t.url.scheme with
  | .localTls => if t.ssl.isNone then 0 else 1
  | _ => if t.rtspPass.isNone then 0 else 1

structure StreamInfo where
  subType : SubType
  width : Int
  height : Int
  frameRate : Int
  deriving DecidableEq

def bambuGetStreamInfo (t : Tunnel) (index : Int) : Option StreamInfo :=
  if index = 0 then some ⟨t.subType, t.width, t.height, t.frameRate⟩ else none

/-! ## Samples -/

structure Sample where
  itrack : UInt32
  flags : UInt32
  buffer : Bytes
  decodeTime : Nat
  deriving DecidableEq

/-- The codes 0, 1 and -1 of `ssl_read_all`. -/
inductive ReadAll where
  | all (bytes : Bytes)
  | eof
  | failed

/-- What is left of a chunk that was read in part. -/
def Chunk.behind (c : Chunk) (n : Nat) (h : n < c.bytes.length) : Chunk where
  bytes := c.bytes.drop n
  nonempty := by
    intro hnil
    have hlen := congrArg List.length hnil
    rw [List.length_drop, List.length_nil] at hlen
    omega
  fits := by
    have hfits := c.fits
    rw [List.length_drop]
    omega

/-- The loop of `ssl_read_all` while the tunnel is not closing: `got` has been read and `len` bytes
are to come. -/
def readAllLoop (got : Bytes) (len : Nat) : List SslRead → Except Halt (ReadAll × List SslRead)
  | [] => .error .blocked
  | .wantRead :: rs => readAllLoop got len rs
  | .eof :: rs => .ok (.eof, rs)
  | .error :: rs => .ok (.failed, rs)
  | .bytes c :: rs =>
      if h : len < c.bytes.length then
        .ok (.all (got ++ c.bytes.take len), .bytes (Chunk.behind c len h) :: rs)
      else if len = c.bytes.length then .ok (.all (got ++ c.bytes), rs)
      else readAllLoop (got ++ c.bytes) (len - c.bytes.length) rs

def sslReadAll (t : Tunnel) (c : Conn) (len : Nat) : Except Halt (ReadAll × Conn) :=
  if len = 0 then .ok (.all [], c)
  else if t.closing then .ok (.failed, c)
  else (readAllLoop [] len c.reads).map fun r => (r.1, { c with reads := r.2 })

/-- What a call returns: a code, or a sample with `Bambu_success`. -/
inductive Answer where
  | code (rc : Int)
  | sample (s : Sample)
  | info (i : Option StreamInfo)
  deriving DecidableEq

/-- The test for the bytes around a JPEG frame. -/
def isJpeg (frame : Bytes) : Bool :=
  4 ≤ frame.length && frame[0]? = some 0xFF && frame[1]? = some 0xD8 &&
    frame[frame.length - 2]? = some 0xFF && frame[frame.length - 1]? = some 0xD9

/-- One frame off the connection; `now` is in nanoseconds. -/
def readMjpeg (t : Tunnel) (c : Conn) (now : Nat) : Except Halt (Answer × Conn) :=
  match sslReadAll t c 16 with
  | .error h => .error h
  | .ok (.failed, c) => .ok (.code (-1), c)
  | .ok (.eof, c) => .ok (.code streamEnd, c)
  | .ok (.all hdr, c) =>
      let payloadSize := (readU32Le hdr).toNat
      if payloadSize = 0 ∨ kMaxFrameSize < payloadSize then .ok (.code (-1), c)
      else
        match sslReadAll t c payloadSize with
        | .error h => .error h
        | .ok (.failed, c) => .ok (.code (-1), c)
        | .ok (.eof, c) => .ok (.code streamEnd, c)
        | .ok (.all frame, c) =>
            if isJpeg frame then
              .ok
                (.sample
                  { itrack := readU32Le (hdr.drop 4)
                    flags := readU32Le (hdr.drop 8)
                    buffer := frame
                    decodeTime := (now - t.t0) / 100 }, c)
            else .ok (.code (-1), c)

def readRtsp (t : Tunnel) : Answer × Tunnel :=
  match t.rtspPass with
  | none => (.code (-1), t)
  | some pass =>
      let pulled := Rtsp.tryPull pass.state.ready
      let t := { t with rtspPass := some { pass with state := { pass.state with ready := pulled.1 } } }
      match pulled.2 with
      | .ok bytes dt100ns flags => (.sample ⟨0, flags, bytes, dt100ns.toNat⟩, t)
      | .wouldBlock => (.code wouldBlock, t)
      | .streamEnd => (.code streamEnd, t)
      | .error => (.code (-1), t)

def bambuReadSample (t : Tunnel) (now : Nat) : Except Halt (Answer × Tunnel) :=
  if t.ctrlMode then
    match t.ctrlOut with
    | [] => .ok (.code wouldBlock, t)
    | reply :: out => .ok (.sample ⟨0, 0, reply, 0⟩, { t with ctrlOut := out })
  else if t.url.scheme = .rtsps ∨ t.url.scheme = .rtsp then .ok (readRtsp t)
  else
    match t.ssl with
    | none => .ok (.code (-1), t)
    | some conn =>
        match t.conns[conn]? with
        | none => .ok (.code (-1), t)
        | some c =>
            (readMjpeg t c now).map fun r => (r.1, { t with conns := t.conns.set conn r.2 })

/-- `data` has the length that is handed in with it. -/
def bambuSendMessage (t : Tunnel) (ctrl : Int) (data : Bytes) : Int × Tunnel :=
  if data = [] then (-1, t)
  else if ctrl ≠ kCtrlType then (success, t)
  else if !t.ctrlMode then (-1, t)
  else (success, { t with ctrlIn := t.ctrlIn ++ [data] })

/-! ## Closing -/

/-- `stop_ctrl_mode` up to the join. -/
def requestStop (t : Tunnel) : Tunnel := { t with ctrlStop := true }

/-- `stop_ctrl_mode` behind the join. -/
def stopped (t : Tunnel) : Tunnel :=
  if t.ctrlMode then { t with ctrlWorker := none, tlSession := none, ctrlMode := false } else t

/-- Whether the join returns. -/
def Joinable (t : Tunnel) : Prop := t.ctrlWorker = none ∨ t.ctrlWorker = some .exited

instance (t : Tunnel) : Decidable (Joinable t) := inferInstanceAs (Decidable (_ ∨ _))

def tunnelClose (t : Tunnel) : Tunnel :=
  { t with
    closing := true
    conns := match t.ssl with
      | none => t.conns
      | some conn => t.conns.modify conn Conn.shutdownBoth
    ssl := none
    rtspPass := none }

/-- `Bambu_Close`, and `Bambu_Destroy` up to the `delete`, behind the join. -/
def bambuClose (t : Tunnel) : Tunnel := tunnelClose (stopped t)

/-! ## Calls -/

/-- The calls that do not close. -/
inductive Call where
  | open (net : Network) (now : Nat)
  | startStream
  | startStreamEx (type : Int) (seed : UInt32)
  | getStreamCount
  | getStreamInfo (index : Int)
  | readSample (now : Nat)
  | sendMessage (ctrl : Int) (data : Bytes)

/-- A call that waits or never comes back has no answer. -/
def Tunnel.call (t : Tunnel) : Call → Except Halt (Answer × Tunnel)
  | .open net now => .ok (.code (bambuOpen t net now).1, (bambuOpen t net now).2)
  | .startStream => .ok (.code (bambuStartStream t).1, (bambuStartStream t).2)
  | .startStreamEx type seed => (bambuStartStreamEx t type seed).map fun r => (.code r.1, r.2)
  | .getStreamCount => .ok (.code (bambuGetStreamCount t), t)
  | .getStreamInfo index => .ok (.info (bambuGetStreamInfo t index), t)
  | .readSample now => bambuReadSample t now
  | .sendMessage ctrl data => .ok (.code (bambuSendMessage t ctrl data).1, (bambuSendMessage t ctrl data).2)

end OpenBambu.Source
