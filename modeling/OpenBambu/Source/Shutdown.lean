import OpenBambu.Source.Worker

/-!
# Closing a tunnel whose worker waits for the printer

`Bambu_Close` and `Bambu_Destroy` wait for the worker to exit before they shut the socket down, and
the worker looks at the stop flag between requests only. A read returns when something has arrived,
so the join returns exactly if the request at hand ends on what has already arrived.
-/

namespace OpenBambu.Source

open OpenBambu.Foundation OpenBambu.Tunnel

/-- A thread waits for the worker, and the worker in `SSL_read` for bytes. -/
def Stuck (w : World) : Prop :=
  (∃ destroy, w.closer = .joining destroy) ∧
    ∃ req conn s, w.tunnel.ctrlWorker = some (.reading req conn) ∧
      w.tunnel.session conn = some s ∧ s.reads = []

/-- From here on the worker does not get stuck while the printer is silent. -/
def JoinReturns (w : World) : Prop :=
  ∀ n, ¬ Stuck (after World.step w (List.replicate n .turn))

/-- A receive phase with the given buffer ends on what has arrived: at its buffer, or in its read. -/
inductive Answered : Bool → Bytes → List Read → Prop where
  | halted {buf : Bytes} {reads : List Read} {h : Halt} (htake : takeBodies buf = .error h) :
      Answered true buf reads
  | replied {buf body rest : Bytes} {more : List Bytes} {reads : List Read}
      (htake : takeBodies buf = .ok (body :: more, rest)) (hend : parseWireResult body ≠ kResContinue) :
      Answered true buf reads
  | goesOn {buf body rest : Bytes} {more : List Bytes} {reads : List Read}
      (htake : takeBodies buf = .ok (body :: more, rest)) (hgo : parseWireResult body = kResContinue)
      (h : Answered true rest reads) : Answered true buf reads
  | waits {buf rest : Bytes} {reads : List Read} (htake : takeBodies buf = .ok ([], rest))
      (h : Answered false rest reads) : Answered true buf reads
  | bytes {buf : Bytes} {c : Chunk} {reads : List Read} (h : Answered true (buf ++ c.bytes) reads) :
      Answered false buf (.bytes c :: reads)
  | again {buf : Bytes} {reads : List Read} : Answered false buf (.wantRead :: reads)
  | failed {buf : Bytes} {reads : List Read} : Answered false buf (.closed :: reads)

theorem Answered.append {place : Bool} {buf : Bytes} {reads : List Read}
    (h : Answered place buf reads) (later : List Read) : Answered place buf (reads ++ later) := by
  induction h with
  | halted htake => exact .halted htake
  | replied htake hend => exact .replied htake hend
  | goesOn htake hgo h ih => exact .goesOn htake hgo ih
  | waits htake h ih => exact .waits htake ih
  | bytes h ih => exact .bytes ih
  | again => exact .again
  | failed => exact .failed

/-- No request is under way, or what has arrived ends the one that is. -/
def RequestAnswered (t : Tunnel) : Prop :=
  match t.ctrlWorker with
  | some (.holding req) => ∀ conn s s', t.ssl = some conn → t.session conn = some s →
      sendAbiJson s req = (true, s') → Answered true s.recvBuf s.reads
  | some (.taking _ conn) => ∀ s, t.session conn = some s → Answered true s.recvBuf s.reads
  | some (.reading _ conn) => ∀ s, t.session conn = some s → Answered false s.recvBuf s.reads
  | _ => True

/-- A close comes while no request waits for the printer. -/
def ClosesAnswered (w : World) : Event → Prop
  | .close _ => w.closer = .idle → w.tunnel.ctrlMode = true → RequestAnswered w.tunnel
  | _ => True

/-! ## The session behind a turn -/

theorem TlSession.on_behind {c : Conn} {s : Session} (h : s.reads <:+ c.reads.map SslRead.some) :
    TlSession.on ⟨s.seq, s.phase, s.recvBuf⟩ (c.behind s) = s := by
  have hreads : (c.reads.drop (c.reads.length - s.reads.length)).map SslRead.some = s.reads := by
    obtain ⟨front, hfront⟩ := h
    have hlen := congrArg List.length hfront
    rw [List.length_append, List.length_map] at hlen
    have hdrop : c.reads.length - s.reads.length = front.length := by omega
    rw [hdrop, List.map_drop, ← hfront, List.drop_left]
  rw [TlSession.on, Conn.behind]
  simp only [hreads]

/-- The session that a call left is there for the next one. -/
theorem session_put {t : Tunnel} {conn : Nat} {s s' : Session} (hs : t.session conn = some s)
    (hreads : s'.reads <:+ s.reads) : (t.put conn s').session conn = some s' := by
  obtain ⟨tl, htl, hs⟩ := Option.bind_eq_some_iff.1 hs
  obtain ⟨c, hc, hs⟩ := Option.bind_eq_some_iff.1 hs
  obtain rfl := Option.some.inj hs
  have hget : (t.conns.modify conn (·.behind s'))[conn]? = some (c.behind s') := by
    rw [List.getElem?_modify_eq, hc]
    rfl
  show (do
    let c ← (t.conns.modify conn (·.behind s'))[conn]?
    return TlSession.on ⟨s'.seq, s'.phase, s'.recvBuf⟩ c) = some s'
  rw [hget]
  exact congrArg some (TlSession.on_behind hreads)

/-! ## The worker behind the stop -/

theorem Answered.taken {buf rest : Bytes} {reads : List Read} (h : Answered true buf reads)
    (htake : takeBodies buf = .ok ([], rest)) : Answered false rest reads := by
  cases h with
  | halted htake' => cases htake.symm.trans htake'
  | replied htake' hend => cases htake.symm.trans htake'
  | goesOn htake' hgo h => cases htake.symm.trans htake'
  | waits htake' h =>
      cases htake.symm.trans htake'
      exact h

theorem Answered.behind {buf body rest : Bytes} {more : List Bytes} {reads : List Read}
    (h : Answered true buf reads) (htake : takeBodies buf = .ok (body :: more, rest))
    (hgo : parseWireResult body = kResContinue) : Answered true rest reads := by
  cases h with
  | halted htake' => cases htake.symm.trans htake'
  | replied htake' hend =>
      cases htake.symm.trans htake'
      exact absurd hgo hend
  | goesOn htake' hgo' h =>
      cases htake.symm.trans htake'
      exact h
  | waits htake' h => cases htake.symm.trans htake'

/-- Behind the stop flag the worker takes no new request, and what ends the one at hand is still
there behind a turn. -/
theorem RequestAnswered.turn {t : Tunnel} {pc : Worker} (h : RequestAnswered t)
    (hpc : t.ctrlWorker = some pc) (hstop : t.ctrlStop = true) :
    RequestAnswered (workerTurn t pc).1 := by
  cases pc with
  | waiting =>
      rw [workerTurn, if_pos hstop]
      trivial
  | holding req =>
      simp only [RequestAnswered, hpc] at h
      rw [workerTurn]
      cases hb : t.ssl.bind fun conn => (t.session conn).map fun s => (conn, s) with
      | none => trivial
      | some p =>
          obtain ⟨conn, hssl, hmap⟩ := Option.bind_eq_some_iff.1 hb
          obtain ⟨s, hs, rfl⟩ := Option.map_eq_some_iff.1 hmap
          dsimp only
          obtain ⟨hbuf, hreads, -⟩ := sendFrame_frame s kMagicCtrlClient (wrapCtrlAbi req)
          cases hsend : sendAbiJson s req with
          | mk ok s' =>
              rw [← sendAbiJson, hsend] at hbuf hreads
              cases ok with
              | false => trivial
              | true =>
                  intro s'' hs''
                  have hput : (t.put conn s').session conn = some s' :=
                    session_put hs (by rw [hreads])
                  cases hput.symm.trans hs''
                  rw [hbuf, hreads]
                  exact h conn s s' hssl hs hsend
  | taking req conn =>
      have h' := h
      simp only [RequestAnswered, hpc] at h'
      rw [workerTurn]
      cases hs : t.session conn with
      | none => exact h
      | some s =>
          have ha := h' s hs
          dsimp only
          cases htake : takeBodies s.recvBuf with
          | error e => trivial
          | ok r =>
              obtain ⟨bodies, rest⟩ := r
              have hput : (t.put conn { s with recvBuf := rest }).session conn =
                  some { s with recvBuf := rest } := session_put hs (List.suffix_refl _)
              cases bodies with
              | nil =>
                  intro s' hs'
                  cases hput.symm.trans hs'
                  exact ha.taken htake
              | cons body more =>
                  dsimp only
                  rw [takeReply]
                  dsimp only
                  split_ifs with hgo
                  · intro s' hs'
                    cases hput.symm.trans hs'
                    exact ha.behind htake hgo
                  · trivial
  | reading req conn =>
      have h' := h
      simp only [RequestAnswered, hpc] at h'
      rw [workerTurn]
      cases hs : t.session conn with
      | none => exact h
      | some s =>
          have ha := h' s hs
          dsimp only
          rw [tryReadFrames]
          cases hr : s.reads with
          | nil => exact h
          | cons r rs =>
              cases r with
              | bytes c =>
                  intro s' hs'
                  have hput : (t.put conn { s with recvBuf := s.recvBuf ++ c.bytes, reads := rs }).session
                      conn = some { s with recvBuf := s.recvBuf ++ c.bytes, reads := rs } :=
                    session_put hs (by rw [hr]; exact List.suffix_cons _ _)
                  cases hput.symm.trans hs'
                  rw [hr] at ha
                  cases ha with
                  | bytes ha => exact ha
              | wantRead => trivial
              | closed => trivial
  | halted req e => exact h
  | exited => exact h

/-! ## The worker with a silent printer -/

theorem World.step_turn {w : World} {pc : Worker} (hpc : w.tunnel.ctrlWorker = some pc) :
    (w.step .turn).tunnel = (workerTurn w.tunnel pc).1 ∧ (w.step .turn).closer = w.closer := by
  rw [World.step, hpc]
  exact ⟨rfl, rfl⟩

/-- A thread joins the worker, which is in a receive phase: at its buffer, or in its read. -/
structure At (place : Bool) (buf : Bytes) (reads : List Read) (w : World) : Prop where
  joining : ∃ destroy, w.closer = .joining destroy
  receiving : ∃ req conn s,
    w.tunnel.ctrlWorker = some (if place then .taking req conn else .reading req conn) ∧
      w.tunnel.session conn = some s ∧ s.recvBuf = buf ∧ s.reads = reads

theorem At.takes_none {buf rest : Bytes} {reads : List Read} {w : World} (h : At true buf reads w)
    (htake : takeBodies buf = .ok ([], rest)) : At false rest reads (w.step .turn) := by
  obtain ⟨hj, req, conn, s, hpc, hs, rfl, rfl⟩ := h
  rw [if_pos rfl] at hpc
  obtain ⟨ht, hc⟩ := World.step_turn hpc
  refine ⟨hc ▸ hj, req, conn, { s with recvBuf := rest }, ?_, ?_, rfl, rfl⟩
  · rw [ht, workerTurn, hs]
    dsimp only
    rw [htake]
    rfl
  · rw [ht, workerTurn, hs]
    dsimp only
    rw [htake]
    exact session_put hs (List.suffix_refl _)

theorem At.takes {buf body rest : Bytes} {more : List Bytes} {reads : List Read} {w : World}
    (h : At true buf reads w) (htake : takeBodies buf = .ok (body :: more, rest))
    (hgo : parseWireResult body = kResContinue) : At true rest reads (w.step .turn) := by
  obtain ⟨hj, req, conn, s, hpc, hs, rfl, rfl⟩ := h
  rw [if_pos rfl] at hpc
  obtain ⟨ht, hc⟩ := World.step_turn hpc
  refine ⟨hc ▸ hj, req, conn, { s with recvBuf := rest }, ?_, ?_, rfl, rfl⟩
  · rw [ht, workerTurn, hs]
    dsimp only
    rw [htake]
    dsimp only
    rw [takeReply]
    dsimp only
    rw [if_pos hgo]
    rfl
  · rw [ht, workerTurn, hs]
    dsimp only
    rw [htake]
    dsimp only
    rw [takeReply]
    dsimp only
    rw [if_pos hgo]
    exact session_put hs (List.suffix_refl _)

theorem At.reads {buf : Bytes} {c : Chunk} {reads : List Read} {w : World}
    (h : At false buf (.bytes c :: reads) w) : At true (buf ++ c.bytes) reads (w.step .turn) := by
  obtain ⟨hj, req, conn, s, hpc, hs, rfl, hr⟩ := h
  rw [if_neg Bool.false_ne_true] at hpc
  obtain ⟨ht, hc⟩ := World.step_turn hpc
  refine ⟨hc ▸ hj, req, conn, { s with recvBuf := s.recvBuf ++ c.bytes, reads := reads }, ?_, ?_, rfl,
    rfl⟩
  · rw [ht, workerTurn, hs]
    dsimp only
    rw [tryReadFrames, hr]
    rfl
  · rw [ht, workerTurn, hs]
    dsimp only
    rw [tryReadFrames, hr]
    exact session_put hs (by rw [hr]; exact List.suffix_cons _ _)

theorem JoinReturns.turn {w : World} (h : JoinReturns w) : JoinReturns (w.step .turn) := by
  intro n
  exact h (n + 1)

/-- Where the read of a phase gets stuck, so does the buffer in front of it. -/
theorem At.answered_taking {reads : List Read}
    (hread : ∀ {buf w}, At false buf reads w → JoinReturns w → Answered false buf reads) {buf : Bytes}
    {w : World} (h : At true buf reads w) (hj : JoinReturns w) : Answered true buf reads := by
  induction hn : buf.length using Nat.strong_induction_on generalizing buf w with
  | _ n ih =>
      cases htake : takeBodies buf with
      | error e => exact .halted htake
      | ok r =>
          obtain ⟨bodies, rest⟩ := r
          cases bodies with
          | nil => exact .waits htake (hread (h.takes_none htake) hj.turn)
          | cons body more =>
              by_cases hgo : parseWireResult body = kResContinue
              · have hlt := takeBodies_shorter htake
                exact .goesOn htake hgo (ih rest.length (hn ▸ hlt) (h.takes htake hgo) hj.turn rfl)
              · exact .replied htake hgo

/-- A phase that does not get stuck while the printer is silent ends on what has arrived. -/
theorem At.answered {place : Bool} {buf : Bytes} {reads : List Read} {w : World}
    (h : At place buf reads w) (hj : JoinReturns w) : Answered place buf reads := by
  have hread : ∀ {buf w}, At false buf reads w → JoinReturns w → Answered false buf reads := by
    clear h hj
    induction reads with
    | nil =>
        intro buf w h hj
        obtain ⟨hjoin, req, conn, s, hpc, hs, -, hr⟩ := h
        exact absurd ⟨hjoin, req, conn, s, hpc, hs, hr⟩ (hj 0)
    | cons r reads ih =>
        intro buf w h hj
        cases r with
        | bytes c => exact .bytes (At.answered_taking ih h.reads hj.turn)
        | wantRead => exact .again
        | closed => exact .failed
  cases place with
  | false => exact hread h hj
  | true => exact At.answered_taking hread h hj

/-- A join that returns has found no request under way that what has arrived does not end. -/
theorem requestAnswered_of_joinReturns {w : World} (hjoin : ∃ destroy, w.closer = .joining destroy)
    (h : JoinReturns w) : RequestAnswered w.tunnel := by
  cases hpc : w.tunnel.ctrlWorker with
  | none => simp only [RequestAnswered, hpc]
  | some pc =>
      cases pc with
      | waiting => simp only [RequestAnswered, hpc]
      | holding req =>
          simp only [RequestAnswered, hpc]
          intro conn s s' hssl hs hsend
          obtain ⟨ht, hc⟩ := World.step_turn hpc
          obtain ⟨hbuf, hreads, -⟩ := sendFrame_frame s kMagicCtrlClient (wrapCtrlAbi req)
          rw [← sendAbiJson, hsend] at hbuf hreads
          have hput : (w.tunnel.put conn s').session conn = some s' := session_put hs (by rw [hreads])
          have hturn : (workerTurn w.tunnel (.holding req)).1 =
              { w.tunnel.put conn s' with ctrlWorker := some (.taking req conn) } := by
            rw [workerTurn, hssl, Option.bind_some, hs, Option.map_some]
            dsimp only
            rw [hsend]
          have hat : At true s.recvBuf s.reads (w.step .turn) := by
            refine ⟨hc ▸ hjoin, req, conn, s', ?_, ?_, hbuf, hreads⟩
            · rw [ht, hturn]
              rfl
            · rw [ht, hturn]
              exact hput
          exact hat.answered h.turn
      | taking req conn =>
          simp only [RequestAnswered, hpc]
          intro s hs
          have hat : At true s.recvBuf s.reads w := ⟨hjoin, req, conn, s, hpc, hs, rfl, rfl⟩
          exact hat.answered h
      | reading req conn =>
          simp only [RequestAnswered, hpc]
          intro s hs
          have hat : At false s.recvBuf s.reads w := ⟨hjoin, req, conn, s, hpc, hs, rfl, rfl⟩
          exact hat.answered h
      | halted req e => simp only [RequestAnswered, hpc]
      | exited => simp only [RequestAnswered, hpc]

/-! ## What arrives, and the other calls -/

theorem sslWriteAll_reads (s : Session) (buf : Bytes) (reads : List Read) :
    sslWriteAll { s with reads := reads } buf =
      ((sslWriteAll s buf).1, { (sslWriteAll s buf).2 with reads := reads }) := by
  unfold sslWriteAll
  dsimp only
  split <;> rfl

/-- What there is to read does not matter to a send. -/
theorem sendFrame_reads (s : Session) (magic : UInt32) (payload : Bytes) (reads : List Read) :
    sendFrame { s with reads := reads } magic payload =
      ((sendFrame s magic payload).1, { (sendFrame s magic payload).2 with reads := reads }) := by
  unfold sendFrame
  dsimp only
  have h := sslWriteAll_reads { s with seq := s.seq + 1 }
    (buildFrameHeader (UInt32.ofNat payload.length) magic s.seq) reads
  rw [h]
  cases sslWriteAll { s with seq := s.seq + 1 }
      (buildFrameHeader (UInt32.ofNat payload.length) magic s.seq) with
  | mk ok s' =>
      cases ok with
      | false => rfl
      | true =>
          dsimp only
          split_ifs
          · rfl
          · exact sslWriteAll_reads s' payload reads

/-- A session after an arrival on some connection: it has the same buffer and no fewer reads. -/
theorem session_arrive {t : Tunnel} {k conn : Nat} {r : SslRead} {s' : Session}
    (hs : (t.arrive k r).session conn = some s') :
    ∃ s later, t.session conn = some s ∧ s' = { s with reads := s.reads ++ later } := by
  obtain ⟨tl, htl, hs⟩ := Option.bind_eq_some_iff.1 hs
  obtain ⟨c', hc', hs⟩ := Option.bind_eq_some_iff.1 hs
  obtain rfl := Option.some.inj hs
  have hsession : ∀ {c}, t.conns[conn]? = some c → t.session conn = some (tl.on c) := by
    intro c hc
    have htl' : t.tlSession = some tl := htl
    rw [Tunnel.session, htl', hc]
    rfl
  have hget : (t.conns.modify k fun c => { c with reads := c.reads ++ [r] })[conn]? = some c' := hc'
  rw [List.getElem?_modify] at hget
  obtain ⟨c, hc, hmod⟩ := Option.map_eq_some_iff.1 hget
  by_cases hk : k = conn
  · rw [if_pos hk] at hmod
    refine ⟨tl.on c, [r.some], hsession hc, ?_⟩
    rw [← hmod, TlSession.on, TlSession.on]
    simp
  · rw [if_neg hk] at hmod
    refine ⟨tl.on c, [], hsession hc, ?_⟩
    rw [← hmod, List.append_nil]

theorem RequestAnswered.arrive {t : Tunnel} (h : RequestAnswered t) (k : Nat) (r : SslRead) :
    RequestAnswered (t.arrive k r) := by
  have hworker : (t.arrive k r).ctrlWorker = t.ctrlWorker := rfl
  cases hpc : t.ctrlWorker with
  | none => simp only [RequestAnswered, hworker, hpc]
  | some pc =>
      cases pc with
      | holding req =>
          simp only [RequestAnswered, hworker, hpc] at h ⊢
          intro conn s' s'' hssl hs' hsend
          obtain ⟨s, later, hs, rfl⟩ := session_arrive hs'
          have hsame := sendFrame_reads s kMagicCtrlClient (wrapCtrlAbi req) (s.reads ++ later)
          rw [← sendAbiJson, hsend] at hsame
          have hok : sendAbiJson s req = (true, (sendAbiJson s req).2) :=
            Prod.ext (congrArg Prod.fst hsame).symm rfl
          exact (h conn s _ hssl hs hok).append later
      | taking req conn =>
          simp only [RequestAnswered, hworker, hpc] at h ⊢
          intro s' hs'
          obtain ⟨s, later, hs, rfl⟩ := session_arrive hs'
          exact (h s hs).append later
      | reading req conn =>
          simp only [RequestAnswered, hworker, hpc] at h ⊢
          intro s' hs'
          obtain ⟨s, later, hs, rfl⟩ := session_arrive hs'
          exact (h s hs).append later
      | waiting => simp only [RequestAnswered, hworker, hpc]
      | halted req e => simp only [RequestAnswered, hworker, hpc]
      | exited => simp only [RequestAnswered, hworker, hpc]

/-- Beside a thread that closes, a call only touches the queues. -/
theorem Tunnel.call_locked {t t' : Tunnel} {c : Call} {a : Answer} (h : t.call c = .ok (a, t'))
    (hc : c.locked = true) (hctrl : t.ctrlMode = true) :
    ∃ ctrlIn ctrlOut, t' = { t with ctrlIn := ctrlIn, ctrlOut := ctrlOut } := by
  cases c with
  | readSample now =>
      rw [Tunnel.call, bambuReadSample, if_pos hctrl] at h
      split at h <;> cases h
      · exact ⟨t.ctrlIn, t.ctrlOut, rfl⟩
      · exact ⟨t.ctrlIn, _, rfl⟩
  | sendMessage ctrl data =>
      cases h
      rw [bambuSendMessage]
      split_ifs
      · exact ⟨t.ctrlIn, t.ctrlOut, rfl⟩
      · exact ⟨t.ctrlIn, t.ctrlOut, rfl⟩
      · exact ⟨t.ctrlIn, t.ctrlOut, rfl⟩
      · exact ⟨_, t.ctrlOut, rfl⟩
  | «open» net now => cases hc
  | startStream => cases hc
  | startStreamEx type seed => cases hc
  | getStreamCount => cases hc
  | getStreamInfo index => cases hc

/-! ## Runs -/

/-- A thread that waits for the worker has set the stop flag. -/
def Stopping (w : World) : Prop :=
  (∃ destroy, w.closer = .joining destroy) → w.tunnel.ctrlMode = true ∧ w.tunnel.ctrlStop = true

theorem Stopping.call {w : World} (h : Stopping w) {c : Call} (hc : w.closer.admits c = true)
    {a : Answer} {t : Tunnel} (hok : w.tunnel.call c = .ok (a, t)) (log : List Report) :
    Stopping ⟨t, w.closer, log⟩ ∧
      ((∃ destroy, w.closer = .joining destroy) → (RequestAnswered t ↔ RequestAnswered w.tunnel)) := by
  have htouch : (∃ destroy, w.closer = .joining destroy) →
      ∃ ctrlIn ctrlOut, t = { w.tunnel with ctrlIn := ctrlIn, ctrlOut := ctrlOut } := by
    intro hj
    have hj' := hj
    obtain ⟨destroy, hd⟩ := hj'
    rw [hd] at hc
    exact Tunnel.call_locked hok hc (h hj).1
  refine ⟨?_, ?_⟩
  · intro hj
    obtain ⟨ctrlIn, ctrlOut, rfl⟩ := htouch hj
    exact h hj
  · intro hj
    obtain ⟨ctrlIn, ctrlOut, rfl⟩ := htouch hj
    exact Iff.rfl

theorem Stopping.step {w : World} (h : Stopping w) (e : Event) : Stopping (w.step e) := by
  cases e with
  | call c =>
      rw [World.step]
      split_ifs with hc
      · split
        · exact h
        · rename_i a t hok
          exact (h.call hc hok _).1
      · exact h
  | close destroy =>
      rw [World.step]
      split_ifs with hidle hctrl
      · intro _
        exact ⟨hctrl, rfl⟩
      · intro hj
        obtain ⟨d, hd⟩ := hj
        cases destroy <;> cases hd
      · exact h
  | joined =>
      rw [World.step]
      split
      · rename_i destroy _
        split_ifs
        · intro hj
          obtain ⟨d, hd⟩ := hj
          cases destroy <;> cases hd
        · exact h
      · exact h
  | turn =>
      rw [World.step]
      split
      · exact h
      · rename_i pc hpc
        have hframe := (workerTurn_spec hpc).1
        intro hj
        show (workerTurn w.tunnel pc).1.ctrlMode = true ∧ (workerTurn w.tunnel pc).1.ctrlStop = true
        rw [hframe.mode, hframe.stop]
        exact h hj
  | arrive conn r => exact h
  | produce ns => exact h

theorem joinReturns_iff {w : World} (h : Stopping w) :
    JoinReturns w ↔ ((∃ destroy, w.closer = .joining destroy) → RequestAnswered w.tunnel) := by
  constructor
  · intro hj hjoin
    exact requestAnswered_of_joinReturns hjoin hj
  · intro hsafe n
    induction n generalizing w with
    | zero =>
        intro hstuck
        obtain ⟨hjoin, req, conn, s, hpc, hs, hr⟩ := hstuck
        have ha := hsafe hjoin
        simp only [RequestAnswered, after_nil, List.replicate_zero] at hpc hs ha
        rw [hpc] at ha
        have hread := ha s hs
        rw [hr] at hread
        cases hread
    | succ n ih =>
        apply ih (h.step .turn)
        intro hjoin
        cases hpc : w.tunnel.ctrlWorker with
        | none =>
            rw [World.step, hpc] at hjoin ⊢
            exact hsafe hjoin
        | some pc =>
            obtain ⟨ht, hc⟩ := World.step_turn hpc
            rw [hc] at hjoin
            rw [ht]
            exact (hsafe hjoin).turn hpc (h hjoin).2

/-- A step keeps the join returning exactly if it is not a close in front of a request that the
printer has not answered. -/
theorem Stopping.step_iff {w : World} (h : Stopping w) (hj : JoinReturns w) (e : Event) :
    JoinReturns (w.step e) ↔ ClosesAnswered w e := by
  have hsafe := (joinReturns_iff h).1 hj
  rw [joinReturns_iff (h.step e)]
  cases e with
  | call c =>
      refine iff_of_true ?_ trivial
      rw [World.step]
      split_ifs with hc
      · split
        · exact hsafe
        · rename_i a t hok
          intro hjoin
          exact ((h.call hc hok w.log).2 hjoin).2 (hsafe hjoin)
      · exact hsafe
  | close destroy =>
      rw [World.step]
      split_ifs with hidle hctrl
      · constructor
        · intro hr _ _
          exact hr ⟨destroy, rfl⟩
        · intro hr _
          exact hr hidle hctrl
      · refine iff_of_true ?_ ?_
        · intro hjoin
          obtain ⟨d, hd⟩ := hjoin
          cases destroy <;> cases hd
        · intro _ hmode
          exact absurd hmode hctrl
      · refine iff_of_true hsafe ?_
        intro hclosed
        exact absurd hclosed hidle
  | joined =>
      refine iff_of_true ?_ trivial
      rw [World.step]
      split
      · rename_i destroy _
        split_ifs
        · intro hjoin
          obtain ⟨d, hd⟩ := hjoin
          cases destroy <;> cases hd
        · exact hsafe
      · exact hsafe
  | turn => exact iff_of_true ((joinReturns_iff (h.step .turn)).1 hj.turn) trivial
  | arrive conn r =>
      refine iff_of_true ?_ trivial
      intro hjoin
      exact (hsafe hjoin).arrive conn r
  | produce ns => exact iff_of_true hsafe trivial

theorem stopping_start (url : TunnelUrl) : Stopping (World.start url) := by
  intro hj
  obtain ⟨destroy, hd⟩ := hj
  cases hd

theorem joinReturns_start (url : TunnelUrl) : JoinReturns (World.start url) := by
  apply (joinReturns_iff (stopping_start url)).2
  intro hj
  obtain ⟨destroy, hd⟩ := hj
  cases hd

/-- Along a run no thread that closes waits for a worker that waits for a silent printer, exactly if
every close comes while no request waits for bytes that have not arrived. -/
theorem join_returns_iff (url : TunnelUrl) (run : List Event) :
    InEveryState World.step JoinReturns (World.start url) run ↔
      AtEveryStep World.step ClosesAnswered (World.start url) run :=
  inEveryState_iff (fun _ e h => h.step e) (fun _ e h hj => h.step_iff hj e) (stopping_start url)
    (joinReturns_start url) run

/-- The tunnel is closed while its worker waits for a reply. -/
def closedWaiting : List Event :=
  ctrlReady ++ [.call (.sendMessage kCtrlType request7), .turn, .turn, .turn, .close false]

theorem closedWaiting_stuck : Stuck (after World.step (World.start {}) closedWaiting) := by
  have hs : ((after World.step (World.start {}) closedWaiting).tunnel.session 0).map
      (fun s => s.reads.length) = some 0 := by
    decide +kernel
  obtain ⟨s, hs, hlen⟩ := Option.map_eq_some_iff.1 hs
  refine ⟨⟨false, by decide +kernel⟩, request7, 0, s, by decide +kernel, hs, ?_⟩
  exact List.length_eq_zero_iff.1 hlen

theorem join_returns_fails :
    ¬ InEveryState World.step JoinReturns (World.start {}) closedWaiting := by
  intro h
  have hend : JoinReturns (after World.step (World.start {}) closedWaiting) :=
    h closedWaiting [] (List.append_nil _).symm
  have hnow := hend 0
  rw [List.replicate_zero, after_nil] at hnow
  exact hnow closedWaiting_stuck

end OpenBambu.Source
