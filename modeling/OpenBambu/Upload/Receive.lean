import OpenBambu.Tunnel.Session
import OpenBambu.Tunnel.Requests

/-!
# Waiting for replies

The receive loops of `src/tunnel_upload.cpp` over a session. `drain_stale_wire_json` throws
away what is in the buffer before a request goes out; `recv_json_payload` waits for one
body, `recv_wire_json` for one with the `cmdtype` and the `sequence` of the request.
`deliveries` lists what a loop that does nothing but receive would be given.
-/

namespace OpenBambu.Upload

open OpenBambu.Foundation OpenBambu.Json OpenBambu.Tunnel

/-- Why an operation failed. -/
inductive Error where
  | notConnected
  | missingPath
  | missingFields
  | cannotOpen
  /-- `describe_ssl_io_error`: OpenSSL's own text. -/
  | io
  | cancelled
  | badAbilityReply
  | badInitReply
  | readPrefix
  | read
  | md5Finalize
  | downloadResult (n : Int)
  | uploadResult (n : Int)
  deriving DecidableEq, Repr

/-- The loop around `recv_payload`: the next body, or `none` when the connection fails. -/
def recvBody : Nat → Session → Except Halt (Option Bytes × Session)
  | 0, _ => .error .hang
  | fuel + 1, s =>
      match recvPayload s with
      | .error h => .error h
      | .ok (.payload body, s) => .ok (some body, s)
      | .ok (.failed, s) => .ok (none, s)
      | .ok (.again, s) => recvBody fuel s

/-- A turn that goes on has taken a read. -/
def nextBody (s : Session) : Except Halt (Option Bytes × Session) := recvBody (s.reads.length + 1) s

/-- The JSON of a body and the binary part behind it. -/
def wireParts (payload : Bytes) : Bytes × Bytes := (splitJsonPrefix payload).getD (payload, [])

def recvJsonPayload (s : Session) : Except Halt (Option Bytes × Session) :=
  (nextBody s).map fun r => (r.1.map fun payload => (wireParts payload).1, r.2)

def drainStaleWireJson (s : Session) : Except Halt Session :=
  (takePendingWireJson s.recvBuf).map fun r => { s with recvBuf := r.2 }

/-- The test of `run_sub_file`: the `cmdtype` and the `sequence` are those of the request. -/
def answers (cmdtype : Nat) (sequence : UInt32) (wireJson : Bytes) : Bool :=
  parseWireCmdtype wireJson = cmdtype && UInt32.ofInt (parseWireSequence wireJson) = sequence

/-- The test of `recv_wire_json`, where 0 stands for any sequence. -/
def accepts (cmdtype : Nat) (sequence : UInt32) (wireJson : Bytes) : Bool :=
  parseWireCmdtype wireJson = cmdtype &&
    (sequence = 0 || UInt32.ofInt (parseWireSequence wireJson) = sequence)

/-- The loop of `recv_wire_json` over `skips` bodies. -/
def recvWireLoop (cmdtype : Nat) (sequence : UInt32) : Nat → Session → Except Halt (Option Bytes × Session)
  | 0, s => .ok (none, s)
  | skips + 1, s =>
      match recvJsonPayload s with
      | .error h => .error h
      | .ok (none, s) => .ok (none, s)
      | .ok (some json, s) =>
          if accepts cmdtype sequence json then .ok (some json, s)
          else recvWireLoop cmdtype sequence skips s

/-- What was pending behind the one accepted is lost. -/
def recvWireJson (cmdtype : Nat) (sequence : UInt32) (s : Session) :
    Except Halt (Option Bytes × Session) :=
  match takePendingWireJson s.recvBuf with
  | .error h => .error h
  | .ok (pending, rest) =>
      match pending.find? (accepts cmdtype sequence) with
      | some json => .ok (some json, { s with recvBuf := rest })
      | none => recvWireLoop cmdtype sequence 32 { s with recvBuf := rest }

/-! ## What a receive loop is given -/

/-- How the bodies end: the caller stops, the connection fails, or a call does not return. -/
inductive Fate where
  | cancelled
  | failed
  | halted (h : Halt)

/-- The bodies a loop receives that polls `cancelled` before each, and what comes then. -/
def deliveries (cancelled : Nat → Bool) : Nat → Nat → Session → List Bytes × Fate
  | 0, _, _ => ([], .halted .hang)
  | turns + 1, k, s =>
      if cancelled k then ([], .cancelled)
      else
        match nextBody s with
        | .error h => ([], .halted h)
        | .ok (none, _) => ([], .failed)
        | .ok (some body, s) =>
            (body :: (deliveries cancelled turns (k + 1) s).1, (deliveries cancelled turns (k + 1) s).2)

/-! ## Receiving writes nothing -/

theorem tryReadFrames_sent {s s' : Session} {code : ReadCode} (h : tryReadFrames s = .ok (code, s')) :
    s'.sent = s.sent := by
  unfold tryReadFrames at h
  split at h
  · exact absurd h (by simp)
  all_goals
    obtain ⟨-, rfl⟩ := Prod.mk.inj (Except.ok.inj h)
    rfl

theorem recvLoop_sent {fuel : Nat} {s s' : Session} {r : Recv} (h : recvLoop fuel s = .ok (r, s')) :
    s'.sent = s.sent := by
  induction fuel generalizing s with
  | zero => exact absurd h (by simp [recvLoop])
  | succ fuel ih =>
      rw [recvLoop] at h
      split at h
      · exact absurd h (by simp)
      · obtain ⟨-, rfl⟩ := Prod.mk.inj (Except.ok.inj h)
        rfl
      · split at h
        · exact absurd h (by simp)
        all_goals
          rename_i hread
          have hsent := tryReadFrames_sent hread
        · obtain ⟨-, rfl⟩ := Prod.mk.inj (Except.ok.inj h)
          exact hsent
        · obtain ⟨-, rfl⟩ := Prod.mk.inj (Except.ok.inj h)
          exact hsent
        · exact (ih h).trans hsent

theorem recvBody_sent {fuel : Nat} {s s' : Session} {r : Option Bytes}
    (h : recvBody fuel s = .ok (r, s')) : s'.sent = s.sent := by
  induction fuel generalizing s with
  | zero => exact absurd h (by simp [recvBody])
  | succ fuel ih =>
      rw [recvBody] at h
      split at h
      · exact absurd h (by simp)
      all_goals rename_i hrecv
      · obtain ⟨-, rfl⟩ := Prod.mk.inj (Except.ok.inj h)
        exact recvLoop_sent hrecv
      · obtain ⟨-, rfl⟩ := Prod.mk.inj (Except.ok.inj h)
        exact recvLoop_sent hrecv
      · exact (ih h).trans (recvLoop_sent hrecv)

theorem recvJsonPayload_sent {s s' : Session} {r : Option Bytes}
    (h : recvJsonPayload s = .ok (r, s')) : s'.sent = s.sent := by
  unfold recvJsonPayload at h
  cases hn : nextBody s with
  | error e => exact absurd (hn ▸ h) (by simp [Except.map])
  | ok p =>
      rw [hn] at h
      obtain ⟨-, rfl⟩ := Prod.mk.inj (Except.ok.inj h)
      exact recvBody_sent hn

theorem recvWireLoop_sent {cmdtype skips : Nat} {sequence : UInt32} {s s' : Session} {r : Option Bytes}
    (h : recvWireLoop cmdtype sequence skips s = .ok (r, s')) : s'.sent = s.sent := by
  induction skips generalizing s with
  | zero =>
      obtain ⟨-, rfl⟩ := Prod.mk.inj (Except.ok.inj h)
      rfl
  | succ skips ih =>
      rw [recvWireLoop] at h
      split at h
      · exact absurd h (by simp)
      all_goals rename_i hrecv
      · obtain ⟨-, rfl⟩ := Prod.mk.inj (Except.ok.inj h)
        exact recvJsonPayload_sent hrecv
      · split_ifs at h
        · obtain ⟨-, rfl⟩ := Prod.mk.inj (Except.ok.inj h)
          exact recvJsonPayload_sent hrecv
        · exact (ih h).trans (recvJsonPayload_sent hrecv)

theorem recvWireJson_sent {cmdtype : Nat} {sequence : UInt32} {s s' : Session} {r : Option Bytes}
    (h : recvWireJson cmdtype sequence s = .ok (r, s')) : s'.sent = s.sent := by
  unfold recvWireJson at h
  split at h
  · exact absurd h (by simp)
  · split at h
    · obtain ⟨-, rfl⟩ := Prod.mk.inj (Except.ok.inj h)
      rfl
    · have hsent := recvWireLoop_sent h
      exact hsent

end OpenBambu.Upload
