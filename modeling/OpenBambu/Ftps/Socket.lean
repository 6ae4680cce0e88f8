import OpenBambu.Foundation.Text

/-!
# The sockets of the FTP client

`ssl_read_some` and `ssl_write_all` call OpenSSL until it wants neither to read nor to write,
`plain_read_some` and `plain_write_all` do the same over `poll`. What the calls come to is a script:
what OpenSSL or the kernel returns one call after the other. A script that is at its end means a peer
that is silent until the time-out.
-/

namespace OpenBambu.Ftps

open OpenBambu.Foundation

/-- What one call that reads comes to. -/
inductive Received where
  /-- At least one byte, at most what the buffer takes. -/
  | bytes (first : Byte) (more : Bytes)
  /-- `SSL_ERROR_ZERO_RETURN`, or `recv` returning 0. -/
  | closed
  /-- The call has to wait; whether the socket gets ready before the time-out. -/
  | again (ready : Bool)
  | broken
  deriving DecidableEq, Repr

/-- The result of a read: a positive count, 0 or -1. -/
inductive ReadSome where
  | got (data : Bytes)
  | eof
  | failed
  deriving DecidableEq, Repr

/-- The calls of one read; `retry` is whether there is another call where one had to wait. -/
def pollRead (retry : Bool) : List Received → ReadSome × List Received
  | [] => (.failed, [])
  | .bytes b more :: rest => (.got (b :: more), rest)
  | .closed :: rest => (.eof, rest)
  | .again ready :: rest => if retry && ready then pollRead retry rest else (.failed, rest)
  | .broken :: rest => (.failed, rest)

def sslReadSome (script : List Received) : ReadSome × List Received := pollRead true script

/-- `recv` comes behind its `wait_fd`, and only once. -/
def plainReadSome (script : List Received) : ReadSome × List Received := pollRead false script

/-- The read of a loop over the data. -/
def readSome (useTls : Bool) (script : List Received) : ReadSome × List Received :=
  if useTls then sslReadSome script else plainReadSome script

/-- What one call that writes comes to. -/
inductive Sent where
  /-- One more than this number of bytes went out, or all that were left. -/
  | moved (more : Nat)
  | again (ready : Bool)
  | broken
  deriving DecidableEq, Repr

/-- The bytes that went out, whether they were all, and what is left of the script. -/
structure Written where
  data : Bytes
  ok : Bool
  script : List Sent
  deriving DecidableEq, Repr

/-- The calls of one write; `retry` is as in `pollRead`. -/
def pollWrite (retry : Bool) : List Sent → Bytes → Written
  | script, [] => ⟨[], true, script⟩
  | [], _ :: _ => ⟨[], false, []⟩
  | .moved more :: rest, b :: bs =>
      let tail := pollWrite retry rest (bs.drop more)
      { tail with data := (b :: bs.take more) ++ tail.data }
  | .again ready :: rest, b :: bs =>
      if retry && ready then pollWrite retry rest (b :: bs) else ⟨[], false, rest⟩
  | .broken :: rest, _ :: _ => ⟨[], false, rest⟩

def sslWriteAll (script : List Sent) (data : Bytes) : Written := pollWrite true script data

/-- `send` comes behind a `wait_fd` and is not called a second time when it has to wait. -/
def plainWriteAll (script : List Sent) (data : Bytes) : Written := pollWrite false script data

def writeAll (useTls : Bool) (script : List Sent) (data : Bytes) : Written :=
  if useTls then sslWriteAll script data else plainWriteAll script data

/-! ## What the loops bring about -/

theorem readSome_eq (useTls : Bool) (script : List Received) : readSome useTls script = pollRead useTls script := by
  cases useTls <;> rfl

theorem writeAll_eq (useTls : Bool) (script : List Sent) (data : Bytes) :
    writeAll useTls script data = pollWrite useTls script data := by
  cases useTls <;> rfl

theorem readSome_shorter {useTls : Bool} {script rest : List Received} {data : Bytes}
    (h : readSome useTls script = (.got data, rest)) : rest.length < script.length := by
  rw [readSome_eq] at h
  fun_induction pollRead useTls script with
  | case2 b more later =>
      obtain ⟨_, rfl⟩ := Prod.mk.inj h
      exact Nat.lt_succ_self _
  | case4 ready later hretry ih =>
      have := ih h
      simp only [List.length_cons]
      omega
  | _ => simp at h

/-- A write that went through put out all of its data, in order. -/
theorem writeAll_ok {useTls : Bool} {script : List Sent} {data : Bytes}
    (h : (writeAll useTls script data).ok = true) : (writeAll useTls script data).data = data := by
  rw [writeAll_eq] at h ⊢
  fun_induction pollWrite useTls script data with
  | case1 script => rfl
  | case3 more rest b bs tail ih =>
      have hall : tail.data = bs.drop more := ih h
      rw [hall, List.cons_append, List.take_append_drop]
  | case4 ready rest b bs hretry ih => exact ih h
  | _ => simp at h

/-- No bytes came of the call, and no other call follows it. -/
def Received.ends (useTls : Bool) : Received → Bool
  | .bytes _ _ => false
  | .again ready => !(useTls && ready)
  | _ => true

/-- The outcome that ends the reading. -/
def endingRead (useTls : Bool) (script : List Received) : Option Received := script.find? (Received.ends useTls)

/-- A read takes the script as far as its bytes go, or to the outcome that ends the reading. -/
theorem readSome_spec (useTls : Bool) (script : List Received) :
    match readSome useTls script with
    | (.got _, rest) => endingRead useTls script = endingRead useTls rest
    | (.eof, _) => endingRead useTls script = some .closed
    | (.failed, _) => endingRead useTls script ≠ some .closed := by
  rw [readSome_eq]
  fun_induction pollRead useTls script with
  | case4 ready later hretry ih =>
      have hon : ¬ (Received.again ready).ends useTls = true := by
        rw [Received.ends, hretry]
        decide
      rw [endingRead, List.find?_cons_of_neg hon]
      exact ih
  | case5 ready later hretry =>
      have hends : (Received.again ready).ends useTls = true := by
        rw [Received.ends, Bool.eq_false_of_not_eq_true hretry]
        rfl
      rw [endingRead, List.find?_cons_of_pos hends]
      simp
  | _ => simp [endingRead, Received.ends]

end OpenBambu.Ftps
