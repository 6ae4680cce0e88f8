import OpenBambu.Ftps.Transfer

/-!
# Commands and their replies

Between two operations nothing is unread on a connection whose greeting has been read, so that the
next reply belongs to the next command. `Pending w rest` is that state inside an operation: `rest` is
what the client still has to read. A transfer that the printer has accepted leaves its completion
reply pending, and the ways out of the transfer that do not read it are the ones that break the
alignment.
-/

namespace OpenBambu.Ftps

open OpenBambu.Foundation

namespace World

variable (w : World) (i : Nat) (c : Conn)

@[simp] theorem setConn_client : (w.setConn i c).client = w.client := rfl
@[simp] theorem setConn_arrivals : (w.setConn i c).arrivals = w.arrivals := rfl
@[simp] theorem setConn_log : (w.setConn i c).log = w.log := rfl
@[simp] theorem setConn_next : (w.setConn i c).next = w.next := rfl
@[simp] theorem setConn_self : (w.setConn i c).conns i = c := Function.update_self ..

theorem setConn_other {j : Nat} (h : j ≠ i) : (w.setConn i c).conns j = w.conns j :=
  Function.update_of_ne h ..

theorem carried_eq : ∃ t, w.carried i = { w with trace := t } := by
  unfold carried
  split
  · exact ⟨_, rfl⟩
  · exact ⟨w.trace, rfl⟩

theorem dataCarried_eq (checks : Option Checks) (data : Bytes) :
    ∃ t, w.dataCarried checks data = { w with trace := t } := by
  unfold dataCarried
  split
  · split_ifs
    · exact ⟨w.trace, rfl⟩
    · exact ⟨_, rfl⟩
  · exact ⟨w.trace, rfl⟩

/-- Nothing of the connection but its wire changes. -/
theorem channel_setConn (h : c.wrapped = (w.conns i).wrapped) : (w.setConn i c).channel = w.channel := by
  have hwrapped : ∀ j, ((w.setConn i c).conns j).wrapped = (w.conns j).wrapped := by
    intro j
    by_cases hj : j = i
    · rw [hj, setConn_self, h]
    · rw [setConn_other w i c hj]
  simp only [channel, setConn_client, hwrapped]

end World

/-! ## What is still to be read -/

/-- The log is right: what was returned for a command is the reply to it. -/
def Answered (w : World) : Prop :=
  ∀ x ∈ w.log, ∀ r, x.returned = some r → r = (x.reply.code.val, x.reply.body)

/-- TLS is up wherever the greeting was read over it. -/
def Secured (w : World) : Prop :=
  ∀ j, (w.conns j).greeted = true → (w.conns j).wrapped = true → (w.conns j).secure = true

/-- No connection: `quit` has been called, or `connect` has never got one. -/
def Closed (w : World) : Prop := w.client.ctrlSsl = none ∧ w.client.ctrlFd = none

/-- The state between two operations. -/
structure Idle (w : World) : Prop where
  answered : Answered w
  secured : Secured w
  quiet : ∀ j, (w.conns j).greeted = true → (w.conns j).wire = []
  buf : w.client.ctrlBuf = [] ∨ Closed w

/-- Inside an operation: `rest` is unread on the control connection, if there is one, and nothing on
the others. -/
structure Pending (w : World) (rest : Bytes) : Prop where
  answered : Answered w
  secured : Secured w
  noneFails : NoneFails w.arrivals
  here : ∀ i, w.channel = some i → (w.conns i).greeted = true ∧ w.client.ctrlBuf ++ (w.conns i).wire = rest
  nowhere : w.channel = none → rest = [] ∧ (w.client.ctrlBuf = [] ∨ Closed w)
  others : ∀ j, w.channel ≠ some j → (w.conns j).greeted = true → (w.conns j).wire = []

theorem Closed.channel {w : World} (h : Closed w) : w.channel = none := by
  unfold World.channel
  rw [h.1, h.2]
  split <;> rfl

theorem Idle.pending {w : World} (h : Idle w) (hnone : NoneFails w.arrivals)
    (hgreeted : ∀ i, w.channel = some i → (w.conns i).greeted = true) : Pending w [] where
  answered := h.answered
  secured := h.secured
  noneFails := hnone
  here i hi := by
    refine ⟨hgreeted i hi, ?_⟩
    rcases h.buf with hbuf | hclosed
    · rw [hbuf, h.quiet i (hgreeted i hi), List.append_nil]
    · exact absurd (hclosed.channel.symm.trans hi) (by simp)
  nowhere _ := ⟨rfl, h.buf⟩
  others j _ := h.quiet j

theorem Pending.idle {w : World} (h : Pending w []) : Idle w where
  answered := h.answered
  secured := h.secured
  quiet j hj := by
    by_cases hc : w.channel = some j
    · exact (List.append_eq_nil_iff.mp (h.here j hc).2).2
    · exact h.others j hc hj
  buf := by
    cases hc : w.channel with
    | none => exact (h.nowhere hc).2
    | some i => exact Or.inl (List.append_eq_nil_iff.mp (h.here i hc).2).1

/-- Only what is on the wire of the control connection and in the buffer counts. -/
theorem Pending.of_trace {w : World} {rest : Bytes} (h : Pending w rest) (t : List Checks) :
    Pending { w with trace := t } rest :=
  ⟨h.answered, h.secured, h.noneFails, h.here, h.nowhere, h.others⟩

/-! ## One exchange -/

/-- What an operation leaves as it is while it uses the control connection. -/
structure Same (w w' : World) : Prop where
  client : w'.client = { w.client with ctrlBuf := w'.client.ctrlBuf }
  channel : w'.channel = w.channel

theorem Same.refl (w : World) : Same w w := ⟨rfl, rfl⟩

theorem Same.trans {w w' w'' : World} (h : Same w w') (h' : Same w' w'') : Same w w'' where
  client := by rw [h'.client, h.client]
  channel := h'.channel.trans h.channel

/-- The state behind a use of the connection `i`. -/
def World.rewire (w : World) (i : Nat) (buf wire : Bytes) (arrivals : List Arrival) (t : List Checks) :
    World :=
  { w with
    client := { w.client with ctrlBuf := buf }
    arrivals := arrivals
    conns := Function.update w.conns i { w.conns i with wire := wire }
    trace := t }

theorem World.same_rewire (w : World) (i : Nat) (buf wire : Bytes) (arrivals : List Arrival)
    (t : List Checks) : Same w (w.rewire i buf wire arrivals t) :=
  ⟨rfl, World.channel_setConn w i { w.conns i with wire := wire } rfl⟩

theorem Pending.rewire {w : World} {rest rest' buf wire : Bytes} {i : Nat} {arrivals : List Arrival}
    (h : Pending w rest) (hc : w.channel = some i) (hnone : NoneFails arrivals)
    (hunread : buf ++ wire = rest') (t : List Checks) :
    Pending (w.rewire i buf wire arrivals t) rest' := by
  have hchannel : (w.rewire i buf wire arrivals t).channel = some i :=
    (w.same_rewire i buf wire arrivals t).channel.trans hc
  have hi : (w.rewire i buf wire arrivals t).conns i = { w.conns i with wire := wire } :=
    World.setConn_self w i _
  have hother : ∀ j, j ≠ i → (w.rewire i buf wire arrivals t).conns j = w.conns j := fun j hj =>
    World.setConn_other w i _ hj
  refine ⟨h.answered, ?_, hnone, ?_, ?_, ?_⟩
  · intro j hgreeted hwrapped
    by_cases hj : j = i
    · subst hj
      rw [hi] at hgreeted hwrapped ⊢
      exact h.secured j hgreeted hwrapped
    · rw [hother j hj] at hgreeted hwrapped ⊢
      exact h.secured j hgreeted hwrapped
  · intro j hj
    obtain rfl := Option.some.inj (hchannel.symm.trans hj)
    rw [hi]
    exact ⟨(h.here i hc).1, hunread⟩
  · intro hnowhere
    exact absurd (hchannel.symm.trans hnowhere) (by simp)
  · intro j hj hgreeted
    have hne : j ≠ i := by
      rintro rfl
      exact hj hchannel
    rw [hother j hne] at hgreeted ⊢
    exact h.others j (by rw [hc]; exact fun heq => hne (Option.some.inj heq).symm) hgreeted

theorem World.putCtrl_some {w : World} {i : Nat} (hc : w.channel = some i) (c : Ctrl) :
    ∃ t, w.putCtrl c = w.rewire i c.buf c.wire c.arrivals t := by
  unfold World.putCtrl
  simp only [hc]
  split_ifs
  · exact ⟨w.trace, rfl⟩
  · obtain ⟨t, ht⟩ := World.carried_eq
      (World.setConn { w with client := { w.client with ctrlBuf := c.buf }, arrivals := c.arrivals } i
        { w.conns i with wire := c.wire }) i
    exact ⟨t, ht⟩

theorem Reply.bytes_ne_nil (r : Reply) : r.bytes ≠ [] := by
  simp [Reply.bytes, crlf]

/-- `read_reply` takes the first reply of its connection. -/
theorem World.readReply_some {w : World} {i : Nat} {r : Reply} (more : Bytes) (hc : w.channel = some i)
    (hnone : NoneFails w.arrivals) (hunread : w.client.ctrlBuf ++ (w.conns i).wire = r.bytes ++ more)
    (hpad : r.Padded) :
    ∃ buf wire arrivals t, w.readReply = (some (r.code.val, r.body), w.rewire i buf wire arrivals t) ∧
      buf ++ wire = more ∧ NoneFails arrivals := by
  have hctrl : w.ctrl = ⟨w.client.ctrlBuf, (w.conns i).wire, w.arrivals⟩ := by
    rw [World.ctrl, hc, Option.map_some, Option.getD_some]
  obtain ⟨c', hread, hmore, hnone'⟩ := readReply_spec hpad w.ctrl more
    (by rw [hctrl]; exact hnone) (by rw [hctrl]; exact hunread)
  obtain ⟨t, hput⟩ := World.putCtrl_some hc c'
  refine ⟨c'.buf, c'.wire, c'.arrivals, t, ?_, hmore, hnone'⟩
  rw [World.readReply, hread, ← hput]

theorem Pending.readReply {w : World} {r : Reply} {more : Bytes} (h : Pending w (r.bytes ++ more))
    (hpad : r.Padded) :
    ∃ w', w.readReply = (some (r.code.val, r.body), w') ∧ Pending w' more ∧ Same w w' ∧
      w'.log = w.log := by
  cases hc : w.channel with
  | none =>
      have hnil := (List.append_eq_nil_iff.mp (h.nowhere hc).1).1
      exact absurd hnil r.bytes_ne_nil
  | some i =>
      obtain ⟨buf, wire, arrivals, t, hread, hmore, hnone⟩ :=
        World.readReply_some more hc h.noneFails (h.here i hc).2 hpad
      exact ⟨_, hread, h.rewire hc hnone hmore t, w.same_rewire .., rfl⟩

theorem pieces_line {cmd : Bytes} (h : Ascii.lf ∉ cmd) : pieces Ascii.lf (cmd ++ crlf) = [cmd ++ [Ascii.cr]] := by
  have hline : Ascii.lf ∉ cmd ++ [Ascii.cr] := by
    rw [List.mem_append, not_or]
    exact ⟨h, by decide⟩
  have hcut := pieces_of_not_mem hline []
  rw [List.append_assoc] at hcut
  exact hcut

/-- A command without a line feed is one line to the printer. -/
theorem commandLines_crlf {cmd : Bytes} (h : Ascii.lf ∉ cmd) : commandLines (cmd ++ crlf) = [cmd] := by
  rw [commandLines, pieces_line h, List.map_singleton, stripCr_append]

/-- `ctrl_write` gets a command to the printer: there is a connection, and the line goes out whole. -/
def World.Delivers (w : World) (p : Printer) (cmd : Bytes) : Prop :=
  w.channel.isSome = true ∧ (writeAll w.client.useTls (p.sends (cmd ++ crlf)) (cmd ++ crlf)).ok = true

/-- A command that goes out makes its replies pending. -/
theorem Pending.ctrlWrite {w : World} (h : Pending w []) (p : Printer) (cmd : Bytes)
    (hline : Ascii.lf ∉ cmd) :
    ∃ b w', w.ctrlWrite p (cmd ++ crlf) = (b, w') ∧ Same w w' ∧ w'.log = w.log ∧
      (b = false ∧ ¬ w.Delivers p cmd ∧ Pending w' [] ∨
        b = true ∧ w.Delivers p cmd ∧ Pending w' (p.replies cmd)) := by
  unfold World.ctrlWrite
  cases hc : w.channel with
  | none => exact ⟨_, _, rfl, Same.refl w, rfl, Or.inl ⟨rfl, fun hd => by simp [World.Delivers, hc] at hd, h⟩⟩
  | some i =>
      obtain ⟨hgreeted, hunread⟩ := h.here i hc
      have hsecure : ((w.conns i).wrapped && !(w.conns i).secure) = false := by
        cases hwrapped : (w.conns i).wrapped with
        | false => rfl
        | true => rw [h.secured i hgreeted hwrapped]; rfl
      have hfinish : w.finishTls p i = w := by
        unfold World.finishTls
        simp only [hsecure, Bool.false_and, Bool.false_eq_true, if_false]
      simp only [hfinish, hsecure, Bool.false_eq_true, if_false]
      generalize hwritten : writeAll w.client.useTls (p.sends (cmd ++ crlf)) (cmd ++ crlf) = written
      obtain ⟨t, ht⟩ : ∃ t, (if written.data = [] then w else w.carried i) = { w with trace := t } := by
        split_ifs
        · exact ⟨w.trace, rfl⟩
        · exact w.carried_eq i
      rw [ht]
      cases hok : written.ok with
      | false =>
          simp only [Bool.false_eq_true, if_false]
          refine ⟨_, _, rfl, ⟨rfl, rfl⟩, rfl, Or.inl ⟨rfl, fun hd => ?_, h.of_trace t⟩⟩
          have hsent := hd.2
          rw [hwritten, hok] at hsent
          exact absurd hsent (by simp)
      | true =>
          simp only [if_true]
          refine ⟨_, _, rfl, w.same_rewire i w.client.ctrlBuf _ w.arrivals t, rfl, Or.inr ⟨rfl, ?_, ?_⟩⟩
          · exact ⟨by rw [hc]; rfl, by rw [hwritten, hok]⟩
          · refine h.rewire hc h.noneFails ?_ t
            rw [commandLines_crlf hline, List.flatMap_singleton, ← List.append_assoc, hunread,
              List.nil_append]

/-- The replies of an operation are padded as RFC 959 wants it. -/
structure Printer.Padded (p : Printer) : Prop where
  greeting : p.greeting.Padded
  answer : ∀ line, (p.answer line).Padded
  completion : p.completion.Padded

theorem Pending.record {w : World} {rest : Bytes} (h : Pending w rest) (command : Option Bytes)
    {reply : Reply} {returned : Option (Nat × Bytes)}
    (hright : ∀ r, returned = some r → r = (reply.code.val, reply.body)) :
    Pending (w.record command reply returned) rest := by
  refine ⟨?_, h.secured, h.noneFails, h.here, h.nowhere, h.others⟩
  intro x hx
  rcases List.mem_cons.mp hx with rfl | hx
  · exact hright
  · exact h.answered x hx

theorem Same.record {w w' : World} (h : Same w w') (command : Option Bytes) (reply : Reply)
    (returned : Option (Nat × Bytes)) : Same w (w'.record command reply returned) :=
  ⟨h.client, h.channel⟩

/-- What is unread behind a command. -/
def Printer.owed (p : Printer) (cmd : Bytes) : Bytes :=
  if transferCommand cmd && accepting (p.answer cmd) then p.completion.bytes else []

theorem owed_other {p : Printer} {cmd : Bytes} (h : transferCommand cmd = false) : p.owed cmd = [] := by
  rw [Printer.owed, h, Bool.false_and, if_neg Bool.false_ne_true]

/-- `send_cmd` returns the reply to its command, or fails with nothing sent. -/
theorem Pending.sendCmd {w : World} (h : Pending w []) {p : Printer} (hpad : p.Padded) (cmd : Bytes)
    (hline : Ascii.lf ∉ cmd) :
    ∃ reply w', w.sendCmd p cmd = (reply, w') ∧ Same w w' ∧
      (reply = none ∧ ¬ w.Delivers p cmd ∧ Pending w' [] ∨
        reply = some ((p.answer cmd).code.val, (p.answer cmd).body) ∧ w.Delivers p cmd ∧
          Pending w' (p.owed cmd)) := by
  obtain ⟨b, w1, hwrite, hsame1, _, hcase⟩ := h.ctrlWrite p cmd hline
  have hfirst : (commandLines (cmd ++ crlf)).headD [] = cmd := by rw [commandLines_crlf hline]; rfl
  unfold World.sendCmd
  simp only [hwrite, hfirst]
  rcases hcase with ⟨rfl, hlost, hpending⟩ | ⟨rfl, hdelivers, hpending⟩
  · exact ⟨_, _, rfl, hsame1.record .., Or.inl ⟨rfl, hlost, hpending.record _ (by simp)⟩⟩
  · obtain ⟨w2, hread, hrest, hsame2, _⟩ := hpending.readReply (hpad.answer cmd)
    simp only [hread]
    refine ⟨_, _, rfl, (hsame1.trans hsame2).record .., Or.inr ⟨rfl, hdelivers, hrest.record _ ?_⟩⟩
    rintro r hr
    exact (Option.some.inj hr).symm

theorem Pending.readCompletion {w : World} {p : Printer} (h : Pending w p.completion.bytes)
    (hpad : p.Padded) :
    ∃ w', w.readCompletion p = (some (p.completion.code.val, p.completion.body), w') ∧ Pending w' [] ∧
      Same w w' := by
  have hbehind : Pending w (p.completion.bytes ++ []) := by rwa [List.append_nil]
  obtain ⟨w1, hread, hrest, hsame, _⟩ := hbehind.readReply hpad.completion
  unfold World.readCompletion
  simp only [hread]
  refine ⟨_, rfl, hrest.record _ ?_, hsame.record ..⟩
  rintro r hr
  exact (Option.some.inj hr).symm

/-! ## Transfers -/

theorem hasCode_reply (r : Reply) (codes : List Nat) :
    hasCode (some (r.code.val, r.body)) codes = codes.contains r.code.val := rfl

theorem accepting_eq (r : Reply) : accepting r = hasCode (some (r.code.val, r.body)) [150, 125] := by
  simp only [accepting, hasCode, Option.map_some, Option.getD_some, List.contains_cons, List.contains_nil,
    Bool.or_false]

/-- A data connection can be opened: PASV is answered with a port that takes the connection. -/
def Printer.OpensData (p : Printer) : Prop :=
  (p.answer (ascii "PASV")).code.val = 227 ∧
    ∃ port, pasvPort (p.answer (ascii "PASV")).body = .ok port ∧ p.dataTcp port = true

/-- The printer gets as far as to accept the transfer. -/
structure World.Accepts (w : World) (p : Printer) (cmd : Bytes) : Prop where
  pasv : w.Delivers p (ascii "PASV")
  data : p.OpensData
  command : w.Delivers p cmd
  accepted : accepting (p.answer cmd) = true

/-- With TLS, the data connection gets it. -/
def World.DataTls (w : World) (p : Printer) : Prop :=
  w.client.useTls = true → (w.wrapDataTls p).isOk = true

theorem Same.delivers {w w' : World} (h : Same w w') {p : Printer} {cmd : Bytes} :
    w'.Delivers p cmd ↔ w.Delivers p cmd := by
  rw [World.Delivers, World.Delivers, h.channel, h.client]

theorem Same.wrapDataTls_isOk {w w' : World} (h : Same w w') (p : Printer) :
    (w'.wrapDataTls p).isOk = (w.wrapDataTls p).isOk := by
  unfold World.wrapDataTls
  rw [h.client]
  cases w.client.ctx with
  | none => rfl
  | some verifies =>
      simp only
      split_ifs <;> rfl

/-- The data connection is opened exactly if the printer and the network open it. -/
theorem Pending.openDataTcp {w : World} (h : Pending w []) {p : Printer} (hpad : p.Padded) :
    ∃ err w', w.openDataTcp p = (err, w') ∧ Pending w' [] ∧ Same w w' ∧
      (err = none ↔ w.Delivers p (ascii "PASV") ∧ p.OpensData) := by
  obtain ⟨reply, w', hsend, hsame, hcase⟩ := h.sendCmd hpad (ascii "PASV") (by decide)
  unfold World.openDataTcp
  simp only [hsend]
  rcases hcase with ⟨rfl, hlost, hpending⟩ | ⟨rfl, hdelivers, hpending⟩
  · exact ⟨_, _, rfl, hpending, hsame, by simp [hlost]⟩
  · rw [owed_other (by decide)] at hpending
    have hiff {err : Option Bytes} (hopens : err = none ↔ p.OpensData) :
        err = none ↔ w.Delivers p (ascii "PASV") ∧ p.OpensData := by
      rw [hopens, and_iff_right hdelivers]
    rw [hasCode_reply]
    split_ifs with hcode
    · refine ⟨_, _, rfl, hpending, hsame, hiff ?_⟩
      simpa [Printer.OpensData] using fun h227 => absurd h227 (by simpa using hcode)
    · have h227 : (p.answer (ascii "PASV")).code.val = 227 := by simpa using hcode
      rw [replyBody, Option.map_some, Option.getD_some]
      cases hport : pasvPort (p.answer (ascii "PASV")).body with
      | error err => exact ⟨_, _, rfl, hpending, hsame, hiff (by simp [Printer.OpensData, hport])⟩
      | ok port =>
          simp only
          split_ifs with hdata
          · exact ⟨_, _, rfl, hpending, hsame, hiff (by simp [Printer.OpensData, hport, h227, hdata])⟩
          · exact ⟨_, _, rfl, hpending, hsame, hiff (by simp [Printer.OpensData, hport, hdata])⟩

/-- How a transfer starts: refused with nothing pending, or accepted with the completion reply
pending. -/
theorem Pending.startTransfer {w : World} (h : Pending w []) {p : Printer} (hpad : p.Padded)
    (what : Bytes) {cmd : Bytes} (hline : Ascii.lf ∉ cmd) (hcmd : transferCommand cmd = true) :
    ∃ started w', w.startTransfer p what cmd = (started, w') ∧ Same w w' ∧
      ((∃ err, started = .refused err) ∧ ¬ w.Accepts p cmd ∧ Pending w' [] ∨
        w.Accepts p cmd ∧ Pending w' p.completion.bytes ∧
          ((∃ err, started = .tlsFailed err) ∧ ¬ w.DataTls p ∨
            (∃ checks, started = .open checks) ∧ w.DataTls p)) := by
  obtain ⟨err, w1, hopen, hpending1, hsame1, hready⟩ := h.openDataTcp hpad
  unfold World.startTransfer
  simp only [hopen]
  cases err with
  | some err =>
      have hno : ¬ w.Accepts p cmd := fun ha => absurd (hready.mpr ⟨ha.pasv, ha.data⟩) (by simp)
      exact ⟨_, _, rfl, hsame1, Or.inl ⟨⟨err, rfl⟩, hno, hpending1⟩⟩
  | none =>
      obtain ⟨hpasv, hdata⟩ := hready.mp rfl
      obtain ⟨reply, w2, hsend, hsame2, hcase⟩ := hpending1.sendCmd hpad cmd hline
      have hsame := hsame1.trans hsame2
      simp only [hsend]
      rcases hcase with ⟨rfl, hlost, hpending2⟩ | ⟨rfl, hdelivers, hpending2⟩
      · have hno : ¬ w.Accepts p cmd := fun ha => hlost (hsame1.delivers.mpr ha.command)
        exact ⟨_, _, rfl, hsame, Or.inl ⟨⟨_, rfl⟩, hno, hpending2⟩⟩
      · rw [Printer.owed, hcmd, Bool.true_and] at hpending2
        rw [← accepting_eq]
        cases haccept : accepting (p.answer cmd) with
        | false =>
            rw [haccept, if_neg Bool.false_ne_true] at hpending2
            have hno : ¬ w.Accepts p cmd := fun ha => absurd (ha.accepted.symm.trans haccept) (by simp)
            exact ⟨_, _, rfl, hsame, Or.inl ⟨⟨_, rfl⟩, hno, hpending2⟩⟩
        | true =>
            rw [haccept, if_pos rfl] at hpending2
            have haccepts : w.Accepts p cmd := ⟨hpasv, hdata, hsame1.delivers.mp hdelivers, haccept⟩
            have htls : w2.client.useTls = w.client.useTls := by rw [hsame.client]
            have hwrap := hsame.wrapDataTls_isOk p
            rw [World.DataTls, ← hwrap, ← htls]
            simp only [Bool.not_true, Bool.false_eq_true, if_false]
            split_ifs with huse
            · cases hdataTls : w2.wrapDataTls p with
              | error err =>
                  exact ⟨_, _, rfl, hsame, Or.inr ⟨haccepts, hpending2,
                    Or.inl ⟨⟨err, rfl⟩, fun hok => absurd (hok huse) (by simp [Except.isOk, Except.toBool])⟩⟩⟩
              | ok checks =>
                  exact ⟨_, _, rfl, hsame, Or.inr ⟨haccepts, hpending2, Or.inr ⟨⟨_, rfl⟩, fun _ => rfl⟩⟩⟩
            · exact ⟨_, _, rfl, hsame, Or.inr ⟨haccepts, hpending2,
                Or.inr ⟨⟨_, rfl⟩, fun hon => absurd hon huse⟩⟩⟩

theorem Pending.dataCarried {w : World} {rest : Bytes} (h : Pending w rest) (checks : Option Checks)
    (data : Bytes) : Pending (w.dataCarried checks data) rest := by
  obtain ⟨t, ht⟩ := w.dataCarried_eq checks data
  rw [ht]
  exact h.of_trace t

theorem Pending.finish {w : World} {p : Printer} (h : Pending w p.completion.bytes) (hpad : p.Padded)
    (what : Bytes) : Pending (World.finish what w p).2 [] := by
  obtain ⟨w', hread, hrest, _⟩ := h.readCompletion hpad
  unfold World.finish
  simp only [hread]
  split_ifs
  · exact hrest
  · exact hrest

theorem lf_not_mem_command {verb text : Bytes} (hverb : Ascii.lf ∉ verb) (htext : Ascii.lf ∉ text) :
    Ascii.lf ∉ verb ++ text := by
  rw [List.mem_append, not_or]
  exact ⟨hverb, htext⟩

theorem lf_not_mem_listCommand {path : Bytes} (h : Ascii.lf ∉ path) : Ascii.lf ∉ listCommand path := by
  unfold listCommand
  split_ifs
  · decide
  · exact lf_not_mem_command (by decide) h

theorem transferCommand_list (path : Bytes) : transferCommand (listCommand path) = true := by
  unfold listCommand
  split_ifs
  · decide
  · rfl

theorem transferCommand_retr (path : Bytes) : transferCommand (ascii "RETR " ++ path) = true := rfl

theorem transferCommand_stor (path : Bytes) : transferCommand (ascii "STOR " ++ path) = true := rfl

/-- What a transfer leaves unread: its completion reply if it was accepted and did not end as it
should, else nothing. -/
def Leaves (w : World) (p : Printer) (cmd : Bytes) (ends : Prop) (w' : World) : Prop :=
  (w.Accepts p cmd → ends) ∧ Pending w' [] ∨ (w.Accepts p cmd ∧ ¬ ends) ∧ Pending w' p.completion.bytes

section Transfers

variable {w : World} {p : Printer} (h : Pending w []) (hpad : p.Padded)

include h hpad

theorem Pending.fetchListing {path : Bytes} (hline : Ascii.lf ∉ path) :
    Leaves w p (listCommand path) (w.DataTls p) (w.fetchListing p path).2.2 := by
  obtain ⟨started, w', hstart, _, hcase⟩ := h.startTransfer hpad (ascii "LIST")
    (lf_not_mem_listCommand hline) (transferCommand_list path)
  unfold World.fetchListing
  rw [hstart]
  rcases hcase with ⟨⟨err, rfl⟩, hno, hpending⟩ | ⟨haccepts, hpending, ⟨⟨err, rfl⟩, htls⟩ | ⟨⟨checks, rfl⟩, htls⟩⟩
  · exact Or.inl ⟨fun ha => absurd ha hno, hpending⟩
  · exact Or.inr ⟨⟨haccepts, htls⟩, hpending⟩
  · obtain ⟨w'', hread, hrest, _⟩ :=
      (hpending.dataCarried checks (readListing w'.client.useTls p.dataReads).1).readCompletion hpad
    simp only [hread]
    refine Or.inl ⟨fun _ => htls, ?_⟩
    split_ifs
    · exact hrest
    · exact hrest

/-- `retr` reads the completion reply also when the sink or the data connection broke it off. -/
theorem Pending.retr {remotePath : Bytes} (hline : Ascii.lf ∉ remotePath)
    (sink : Option (List Bytes → Bool)) :
    Leaves w p (ascii "RETR " ++ remotePath) (w.DataTls p) (w.retr p remotePath sink).2 := by
  obtain ⟨started, w', hstart, _, hcase⟩ := h.startTransfer hpad (ascii "RETR")
    (lf_not_mem_command (by decide) hline) (transferCommand_retr remotePath)
  unfold World.retr
  rw [hstart]
  rcases hcase with ⟨⟨err, rfl⟩, hno, hpending⟩ | ⟨haccepts, hpending, ⟨⟨err, rfl⟩, htls⟩ | ⟨⟨checks, rfl⟩, htls⟩⟩
  · exact Or.inl ⟨fun ha => absurd ha hno, hpending⟩
  · exact Or.inr ⟨⟨haccepts, htls⟩, hpending⟩
  · have hfinish := (hpending.dataCarried checks
      (drain w'.client.useTls sink [] p.dataReads).1.flatten).finish hpad (ascii "RETR")
    simp only
    refine Or.inl ⟨fun _ => htls, ?_⟩
    split
    · exact hfinish
    · exact hfinish
    · exact hfinish

/-- `stor` reads it only when all of the file has gone out. -/
theorem Pending.stor {remotePath : Bytes} (hline : Ascii.lf ∉ remotePath) (localPath : Bytes)
    (file : LocalFile) (progress : Option (Nat → Nat → Bool)) :
    Leaves w p (ascii "STOR " ++ remotePath)
      (w.DataTls p ∧
        (sendFile w.client.useTls progress file.size file.reads p.dataSends 0 none).ended = .done)
      (w.stor p localPath (some file) remotePath progress).2 := by
  obtain ⟨started, w', hstart, hsame, hcase⟩ := h.startTransfer hpad (ascii "STOR")
    (lf_not_mem_command (by decide) hline) (transferCommand_stor remotePath)
  unfold World.stor
  simp only [hstart]
  rcases hcase with ⟨⟨err, rfl⟩, hno, hpending⟩ | ⟨haccepts, hpending, ⟨⟨err, rfl⟩, htls⟩ | ⟨⟨checks, rfl⟩, htls⟩⟩
  · exact Or.inl ⟨fun ha => absurd ha hno, hpending⟩
  · exact Or.inr ⟨⟨haccepts, fun hends => htls hends.1⟩, hpending⟩
  · have huse : w'.client.useTls = w.client.useTls := by rw [hsame.client]
    simp only [huse]
    have hdata := hpending.dataCarried checks
      (sendFile w.client.useTls progress file.size file.reads p.dataSends 0 none).data
    cases hend : (sendFile w.client.useTls progress file.size file.reads p.dataSends 0 none).ended with
    | writeFailed => exact Or.inr ⟨⟨haccepts, fun hends => by simp at hends⟩, hdata⟩
    | cancelled => exact Or.inr ⟨⟨haccepts, fun hends => by simp at hends⟩, hdata⟩
    | done => exact Or.inl ⟨fun _ => ⟨htls, rfl⟩, hdata.finish hpad (ascii "STOR")⟩

/-! ## The other operations -/

/-- A command that starts no transfer leaves nothing pending. -/
theorem Pending.command (cmd : Bytes) (hline : Ascii.lf ∉ cmd) (hcmd : transferCommand cmd = false) :
    Pending (w.sendCmd p cmd).2 [] := by
  obtain ⟨reply, w', hsend, _, hcase⟩ := h.sendCmd hpad cmd hline
  rw [hsend]
  rcases hcase with ⟨_, _, hpending⟩ | ⟨_, _, hpending⟩
  · exact hpending
  · rwa [owed_other hcmd] at hpending

theorem Pending.size {remotePath : Bytes} (hline : Ascii.lf ∉ remotePath) :
    Pending (w.size p remotePath).2.2 [] := by
  have hsend := h.command hpad (ascii "SIZE " ++ remotePath)
    (lf_not_mem_command (by decide) hline) rfl
  unfold World.size
  simp only
  split_ifs
  · exact hsend
  · split
    · exact hsend
    · exact hsend

theorem Pending.dele {remotePath : Bytes} (hline : Ascii.lf ∉ remotePath) :
    Pending (w.dele p remotePath).2 [] := by
  have hsend := h.command hpad (ascii "DELE " ++ remotePath)
    (lf_not_mem_command (by decide) hline) rfl
  unfold World.dele
  simp only
  split_ifs
  · exact hsend
  · exact hsend

theorem Pending.cwd {path : Bytes} (hline : Ascii.lf ∉ path) : Pending (w.cwd p path).2 [] := by
  have hsend := h.command hpad (ascii "CWD " ++ path) (lf_not_mem_command (by decide) hline) rfl
  unfold World.cwd
  simp only
  split_ifs
  · exact hsend
  · exact hsend

theorem Pending.expect {cmd what : Bytes} {codes : List Nat} {next : World → Bytes × World}
    (hline : Ascii.lf ∉ cmd) (hcmd : transferCommand cmd = false)
    (hnext : ∀ w', Pending w' [] → Pending (next w').2 []) :
    Pending (w.expect p cmd what codes next).2 [] := by
  have hsend := h.command hpad cmd hline hcmd
  unfold World.expect
  simp only
  split_ifs
  · exact hnext _ hsend
  · exact hsend

end Transfers

/-! ## Connecting -/

theorem Idle.setConn {w : World} (h : Idle w) (i : Nat) {c : Conn} (hc : c.greeted = false) :
    Idle (w.setConn i c) := by
  refine ⟨h.answered, ?_, ?_, h.buf⟩
  · intro j hgreeted hwrapped
    by_cases hj : j = i
    · rw [hj, World.setConn_self, hc] at hgreeted
      exact absurd hgreeted (by simp)
    · rw [World.setConn_other w i c hj] at hgreeted hwrapped ⊢
      exact h.secured j hgreeted hwrapped
  · intro j hgreeted
    by_cases hj : j = i
    · rw [hj, World.setConn_self, hc] at hgreeted
      exact absurd hgreeted (by simp)
    · rw [World.setConn_other w i c hj] at hgreeted ⊢
      exact h.quiet j hgreeted

/-- Of the client only the buffer counts. -/
theorem Idle.of_client {w : World} (h : Idle w) (client : Client) (next : Nat)
    (hbuf : client.ctrlBuf = []) : Idle { w with client := client, next := next } :=
  ⟨h.answered, h.secured, h.quiet, Or.inl hbuf⟩

/-- A connection with nothing but its greeting on it. -/
structure Greeting (w : World) (i : Nat) (p : Printer) : Prop where
  channel : w.channel = some i
  buf : w.client.ctrlBuf = []
  fresh : (w.conns i).greeted = false
  wire : (w.conns i).wire = p.greeting.bytes
  secure : (w.conns i).wrapped = true → (w.conns i).secure = true
  noneFails : NoneFails w.arrivals

theorem Idle.banner {w : World} (h : Idle w) {i : Nat} {p : Printer} (hg : Greeting w i p)
    (hpad : p.Padded) : Pending (w.banner i).2 [] := by
  obtain ⟨buf, wire, arrivals, t, hread, hmore, hnone⟩ :=
    World.readReply_some [] hg.channel hg.noneFails
      (by rw [hg.buf, hg.wire, List.nil_append, List.append_nil]) hpad.greeting
  have hpending : Pending ((w.rewire i buf wire arrivals t).setConn i
      { (w.rewire i buf wire arrivals t).conns i with greeted := true }) [] := by
    have hi : (w.rewire i buf wire arrivals t).conns i = { w.conns i with wire := wire } :=
      World.setConn_self w i _
    have hother : ∀ j, j ≠ i → ((w.rewire i buf wire arrivals t).setConn i
        { (w.rewire i buf wire arrivals t).conns i with greeted := true }).conns j = w.conns j := by
      intro j hj
      rw [World.setConn_other _ i _ hj]
      exact World.setConn_other w i _ hj
    have hchannel : ((w.rewire i buf wire arrivals t).setConn i
        { (w.rewire i buf wire arrivals t).conns i with greeted := true }).channel = some i :=
      (World.channel_setConn (w.rewire i buf wire arrivals t) i
        { (w.rewire i buf wire arrivals t).conns i with greeted := true } rfl).trans
        ((w.same_rewire i buf wire arrivals t).channel.trans hg.channel)
    refine ⟨h.answered, ?_, hnone, ?_, ?_, ?_⟩
    · intro j hgreeted hwrapped
      by_cases hj : j = i
      · subst hj
        rw [World.setConn_self, hi] at hwrapped ⊢
        exact hg.secure hwrapped
      · rw [hother j hj] at hgreeted hwrapped ⊢
        exact h.secured j hgreeted hwrapped
    · intro j hj
      obtain rfl := Option.some.inj (hchannel.symm.trans hj)
      rw [World.setConn_self, hi]
      exact ⟨rfl, hmore⟩
    · intro hnowhere
      exact absurd (hchannel.symm.trans hnowhere) (by simp)
    · intro j hj hgreeted
      have hne : j ≠ i := by
        rintro rfl
        exact hj hchannel
      rw [hother j hne] at hgreeted ⊢
      exact h.quiet j hgreeted
  unfold World.banner
  simp only [hread, Option.isSome_some, if_true]
  split_ifs
  · exact hpending
  · exact hpending

theorem Idle.startTls {w : World} (h : Idle w) (hbuf : w.client.ctrlBuf = []) (cfg : ConnectConfig)
    {p : Printer} (hnone : NoneFails w.arrivals) (huse : w.client.useTls = true) {i : Nat}
    (hfresh : (w.conns i).greeted = false) :
    ∃ err w', w.startTls cfg p i = (err, w') ∧ Idle w' ∧ (err = none → Greeting w' i p) ∧
      err ≠ some [] := by
  unfold World.startTls
  generalize (p.verifyEnabled && decide (cfg.tlsVerifyHostname ≠ [])) = wantVerify
  have hmine (c : Conn) (hc : c.greeted = false) :=
    (h.of_client { w.client with ctx := some wantVerify, ctrlSsl := some i } w.next hbuf).setConn i hc
  simp only
  split_ifs
  · exact ⟨_, _, rfl, h, by simp, by simp [ascii]⟩
  · exact ⟨_, _, rfl, h, by simp, by simp [ascii]⟩
  · exact ⟨_, _, rfl, h.of_client { w.client with ctx := none } w.next hbuf, by simp, by simp [ascii]⟩
  · exact ⟨_, _, rfl, h.of_client { w.client with ctx := some false } w.next hbuf, by simp, by simp [ascii]⟩
  · exact ⟨_, _, rfl, h.of_client { w.client with ctx := some wantVerify, ctrlSsl := none } w.next hbuf, by simp,
      by simp [ascii]⟩
  · exact ⟨_, _, rfl, hmine _ hfresh, by simp, by simp [ascii]⟩
  · split
    · exact ⟨_, _, rfl, hmine _ hfresh, by simp, by simp [ascii]⟩
    · refine ⟨_, _, rfl, hmine _ hfresh, fun _ => ?_, by simp⟩
      refine ⟨?_, hbuf, ?_, ?_, ?_, hnone⟩
      · simp only [World.channel, World.setConn_client, huse, if_true]
      · rw [World.setConn_self]
        exact hfresh
      · rw [World.setConn_self]
      · rw [World.setConn_self]
        exact fun _ => rfl

/-- A connection that is greeted is ready for commands, any other end of `connect_transport` leaves
the state idle. -/
theorem Idle.connectTransport {w : World} (h : Idle w) (cfg : ConnectConfig) {p : Printer}
    (hnone : NoneFails w.arrivals) (hpad : p.Padded) :
    ∃ err w', w.connectTransport cfg p = (err, w') ∧ Idle w' ∧ (err = [] → Pending w' []) := by
  unfold World.connectTransport
  simp only
  split_ifs with htcp huse
  · exact ⟨_, _, rfl, h.of_client _ w.next rfl, by simp [ascii]⟩
  · have hopened := (h.of_client ⟨cfg.useTls, cfg.tlsVerifyHostname, w.client.ctx, w.client.ctrlSsl,
      some w.next, []⟩ (w.next + 1) rfl).setConn w.next (c := Conn.new) rfl
    obtain ⟨err, w', hstart, hidle, hgreeting, hne⟩ := hopened.startTls rfl cfg (p := p) hnone huse
      (i := w.next) (by rw [World.setConn_self]; rfl)
    simp only [hstart]
    cases err with
    | some err => exact ⟨_, _, rfl, hidle, fun hnil => absurd (congrArg some hnil) hne⟩
    | none =>
        have hbanner := hidle.banner (hgreeting rfl) hpad
        exact ⟨_, _, rfl, hbanner.idle, fun _ => hbanner⟩
  · have hopened := (h.of_client ⟨cfg.useTls, cfg.tlsVerifyHostname, w.client.ctx, w.client.ctrlSsl,
      some w.next, []⟩ (w.next + 1) rfl).setConn w.next
        (c := { Conn.new with wire := p.greeting.bytes }) rfl
    have hbanner := hopened.banner (i := w.next) (p := p)
      ⟨?_, rfl, by rw [World.setConn_self]; rfl, by rw [World.setConn_self],
        by rw [World.setConn_self]; simp [Conn.new], hnone⟩ hpad
    · exact ⟨_, _, rfl, hbanner.idle, fun _ => hbanner⟩
    · rw [Bool.not_eq_true] at huse
      simp only [World.channel, World.setConn_client, huse, Bool.false_eq_true, if_false]
      rw [Option.filter_some, World.setConn_self]
      rfl

theorem Pending.login {w : World} (h : Pending w []) {p : Printer} (hpad : p.Padded) (cfg : ConnectConfig)
    (huser : Ascii.lf ∉ cfg.username) (hpass : Ascii.lf ∉ cfg.password) :
    Pending (w.login cfg p).2 [] := by
  have htyped : ∀ w' : World, Pending w' [] →
      Pending (w'.expect p (ascii "TYPE I") (ascii "TYPE I") [200] fun w =>
        if w.client.useTls then
          w.expect p (ascii "PBSZ 0") (ascii "PBSZ") [200] fun w =>
            w.expect p (ascii "PROT P") (ascii "PROT P") [200] fun w => ([], w)
        else ([], w)).2 [] := by
    intro w' h'
    refine h'.expect hpad (by decide) rfl fun w2 h2 => ?_
    split_ifs
    · refine h2.expect hpad (by decide) rfl fun w3 h3 => ?_
      exact h3.expect hpad (by decide) rfl fun w4 h4 => h4
    · exact h2
  have hsend := h.command hpad (ascii "USER " ++ cfg.username)
    (lf_not_mem_command (by decide) huser) rfl
  unfold World.login
  simp only
  split_ifs
  · exact hsend.expect hpad (lf_not_mem_command (by decide) hpass) rfl htyped
  · exact htyped _ hsend
  · exact hsend

theorem Idle.connect {w : World} (h : Idle w) (cfg : ConnectConfig) {p : Printer}
    (hnone : NoneFails w.arrivals) (hpad : p.Padded) (huser : Ascii.lf ∉ cfg.username)
    (hpass : Ascii.lf ∉ cfg.password) : Idle (w.connect cfg p).2 := by
  obtain ⟨err, w', hopen, hidle, hready⟩ := h.connectTransport cfg hnone hpad
  unfold World.connect
  rw [hopen]
  cases err with
  | nil => exact ((hready rfl).login hpad cfg huser hpass).idle
  | cons => exact hidle

/-! ## Leaving -/

/-- Only the connection in use changes, and not in whether it is greeted. -/
structure Touches (w w' : World) : Prop where
  log : w'.log = w.log
  channel : w'.channel = w.channel
  others : ∀ j, w.channel ≠ some j → w'.conns j = w.conns j
  greeted : ∀ j, (w'.conns j).greeted = (w.conns j).greeted
  wrapped : ∀ j, (w'.conns j).wrapped = (w.conns j).wrapped
  secure : ∀ j, (w.conns j).secure = true → (w'.conns j).secure = true

theorem Touches.refl (w : World) : Touches w w :=
  ⟨rfl, rfl, fun _ _ => rfl, fun _ => rfl, fun _ => rfl, fun _ h => h⟩

theorem Touches.trans {w w' w'' : World} (h : Touches w w') (h' : Touches w' w'') : Touches w w'' where
  log := h'.log.trans h.log
  channel := h'.channel.trans h.channel
  others j hj := (h'.others j (h.channel ▸ hj)).trans (h.others j hj)
  greeted j := (h'.greeted j).trans (h.greeted j)
  wrapped j := (h'.wrapped j).trans (h.wrapped j)
  secure j hj := h'.secure j (h.secure j hj)

theorem Touches.of_trace {w w' : World} (h : Touches w w') (t : List Checks) :
    Touches w { w' with trace := t } :=
  ⟨h.log, h.channel, h.others, h.greeted, h.wrapped, h.secure⟩

/-- Other checks and another wire of the connection in use. -/
theorem Touches.setConn {w : World} {i : Nat} (hc : w.channel = some i) {c : Conn}
    (hgreeted : c.greeted = (w.conns i).greeted) (hwrapped : c.wrapped = (w.conns i).wrapped)
    (hsecure : (w.conns i).secure = true → c.secure = true) : Touches w (w.setConn i c) := by
  have hcases : ∀ j, j = i ∧ (w.setConn i c).conns j = c ∨ (w.setConn i c).conns j = w.conns j := by
    intro j
    by_cases hj : j = i
    · exact Or.inl ⟨hj, by rw [hj, World.setConn_self]⟩
    · exact Or.inr (World.setConn_other w i c hj)
  refine ⟨rfl, World.channel_setConn w i c hwrapped, ?_, ?_, ?_, ?_⟩
  · intro j hj
    rcases hcases j with ⟨rfl, _⟩ | h
    · exact absurd hc hj
    · exact h
  · intro j
    rcases hcases j with ⟨rfl, h⟩ | h
    · rw [h, hgreeted]
    · rw [h]
  · intro j
    rcases hcases j with ⟨rfl, h⟩ | h
    · rw [h, hwrapped]
    · rw [h]
  · intro j hj
    rcases hcases j with ⟨rfl, h⟩ | h
    · rw [h]
      exact hsecure hj
    · rw [h]
      exact hj

theorem World.touches_ctrlWrite (w : World) (p : Printer) (wire : Bytes) :
    Touches w (w.ctrlWrite p wire).2 := by
  unfold World.ctrlWrite
  cases hc : w.channel with
  | none => exact Touches.refl w
  | some i =>
      have hfinish : Touches w (w.finishTls p i) := by
        unfold World.finishTls
        simp only
        split_ifs
        · exact Touches.setConn hc rfl rfl fun _ => rfl
        · exact Touches.refl w
      simp only
      generalize w.finishTls p i = w1 at hfinish ⊢
      have hc1 : w1.channel = some i := hfinish.channel.trans hc
      obtain ⟨t, ht⟩ : ∃ t, (if (writeAll w1.client.useTls (p.sends wire) wire).data = [] then w1
          else w1.carried i) = { w1 with trace := t } := by
        split_ifs
        · exact ⟨w1.trace, rfl⟩
        · exact w1.carried_eq i
      have htrace := hfinish.of_trace t
      rw [ht]
      split_ifs
      · exact hfinish
      · exact htrace.trans (Touches.setConn (w := { w1 with trace := t }) hc1 rfl rfl id)
      · exact htrace

theorem World.touches_readReply (w : World) : Touches w w.readReply.2 := by
  unfold World.readReply
  simp only
  generalize (Ftps.readReply w.ctrl []).2 = c
  cases hc : w.channel with
  | none =>
      unfold World.putCtrl
      simp only [hc]
      exact ⟨rfl, rfl, fun _ _ => rfl, fun _ => rfl, fun _ => rfl, fun _ h => h⟩
  | some i =>
      obtain ⟨t, hput⟩ := World.putCtrl_some hc c
      rw [hput]
      have hset := (Touches.setConn hc (c := { w.conns i with wire := c.wire }) rfl rfl id).of_trace t
      exact ⟨hset.log, (w.same_rewire ..).channel, hset.others, hset.greeted, hset.wrapped, hset.secure⟩

theorem Pending.readReply_nothing {w : World} (h : Pending w []) {j : Nat}
    (hgreeted : (w.conns j).greeted = true) : (w.readReply.2.conns j).wire = [] := by
  by_cases hc : w.channel = some j
  · have hctrl : w.ctrl = ⟨w.client.ctrlBuf, (w.conns j).wire, w.arrivals⟩ := by
      rw [World.ctrl, hc, Option.map_some, Option.getD_some]
    have hnothing := Ftps.readReply_nothing (c := w.ctrl) (by rw [hctrl]; exact (h.here j hc).2) []
    obtain ⟨t, hput⟩ := World.putCtrl_some hc (Ftps.readReply w.ctrl []).2
    have hwire : ((w.putCtrl (Ftps.readReply w.ctrl []).2).conns j).wire = (Ftps.readReply w.ctrl []).2.wire := by
      rw [hput]
      exact congrArg Conn.wire (World.setConn_self w j _)
    exact hwire.trans (List.append_eq_nil_iff.mp hnothing).2
  · rw [w.touches_readReply.others j hc]
    exact h.others j hc hgreeted

/-- What `quit` has done behind it does not matter: it leaves no connection. -/
theorem Idle.quit {w : World} (h : Idle w) {p : Printer} (hnone : NoneFails w.arrivals)
    (hpad : p.Padded) : Idle (w.quit p) := by
  have hclose : ∀ w' : World, Touches w w' →
      (∀ j, (w'.conns j).greeted = true → (w'.conns j).wire = []) →
      Idle { w' with client := { w'.client with ctrlSsl := none, ctrlFd := none, ctx := none } } := by
    intro w' ht hq
    refine ⟨fun x hx => h.answered x (ht.log ▸ hx), ?_, hq, Or.inr ⟨rfl, rfl⟩⟩
    intro j hgreeted hwrapped
    exact ht.secure j (h.secured j ((ht.greeted j).symm.trans hgreeted) ((ht.wrapped j).symm.trans hwrapped))
  have hwrite := w.touches_ctrlWrite p (ascii "QUIT" ++ crlf)
  have htouch := hwrite.trans (World.touches_readReply _)
  unfold World.quit
  simp only
  split_ifs
  · refine hclose _ htouch fun j hgreeted => ?_
    by_cases hready : ∀ i, w.channel = some i → (w.conns i).greeted = true
    · obtain ⟨b, w1, hw1, _, _, hcase⟩ :=
        (h.pending hnone hready).ctrlWrite p (ascii "QUIT") (by decide)
      rw [hw1] at hgreeted ⊢
      rw [w1.touches_readReply.greeted] at hgreeted
      rcases hcase with ⟨_, _, hpending⟩ | ⟨_, _, hpending⟩
      · exact hpending.readReply_nothing hgreeted
      · have hreply : p.replies (ascii "QUIT") = (p.answer (ascii "QUIT")).bytes ++ [] := by
          rw [Printer.replies, show transferCommand (ascii "QUIT") = false from rfl, Bool.false_and,
            if_neg Bool.false_ne_true]
        rw [hreply] at hpending
        obtain ⟨w2, hread, hrest, _⟩ := hpending.readReply (hpad.answer _)
        rw [hread]
        rw [← w1.touches_readReply.greeted, hread] at hgreeted
        exact hrest.idle.quiet j hgreeted
    · push Not at hready
      obtain ⟨i, hi, hfresh⟩ := hready
      rw [htouch.greeted] at hgreeted
      have hne : w.channel ≠ some j := by
        intro hj
        obtain rfl := Option.some.inj (hi.symm.trans hj)
        exact hfresh hgreeted
      rw [htouch.others j hne]
      exact h.quiet j hgreeted
  · exact hclose w (Touches.refl w) h.quiet

/-! ## Runs -/

/-- What is returned for a command is the reply to it, and no reply stays unread on the connection
that the next command will use. -/
structure Aligned (w : World) : Prop where
  answered : Answered w
  settled : ∀ i, w.channel = some i → (w.conns i).greeted = true →
    w.client.ctrlBuf ++ (w.conns i).wire = []

/-- The texts that an operation puts into its commands. -/
def Op.texts : Op → List Bytes
  | .connect cfg => [cfg.username, cfg.password]
  | .stor _ _ remotePath _ => [remotePath]
  | .list path => [path]
  | .listEntries path => [path]
  | .retr remotePath _ => [remotePath]
  | .size remotePath => [remotePath]
  | .dele remotePath => [remotePath]
  | .cwd path => [path]
  | .quit => []

/-- The command that starts the operation's transfer. -/
def Op.transfer : Op → Option Bytes
  | .stor _ (some _) remotePath _ => some (ascii "STOR " ++ remotePath)
  | .list path => some (listCommand path)
  | .listEntries path => some (listCommand path)
  | .retr remotePath _ => some (ascii "RETR " ++ remotePath)
  | _ => none

/-- The operation works on a connection that is there already. -/
def Op.usesConnection : Op → Bool
  | .connect _ => false
  | .quit => false
  | _ => true

/-- An upload puts out all of the file: no write fails and `progress` never says no. -/
def Op.UploadDone (useTls : Bool) (p : Printer) : Op → Prop
  | .stor _ (some file) _ progress =>
      (sendFile useTls progress file.size file.reads p.dataSends 0 none).ended = .done
  | _ => True

/-- The printer's replies arrive and are padded, no text breaks its command line, and the connection
has been greeted. -/
structure Ready (w : World) (e : Event) : Prop where
  noneFails : NoneFails e.printer.arrivals
  padded : e.printer.Padded
  lines : ∀ text ∈ e.op.texts, Ascii.lf ∉ text
  greeted : e.op.usesConnection = true → ∀ i, w.channel = some i → (w.conns i).greeted = true

/-- A transfer that is accepted gets its data connection and, if it is an upload, to its end. -/
def TransferEnds (w : World) (e : Event) : Prop :=
  ∀ cmd, e.op.transfer = some cmd → (w.begin e.printer).Accepts e.printer cmd →
    w.DataTls e.printer ∧ e.op.UploadDone w.client.useTls e.printer

/-- A step that leaves commands and replies aligned. -/
def Orderly (w : World) (e : Event) : Prop := Ready w e ∧ TransferEnds w e

theorem Idle.begin {w : World} (h : Idle w) (p : Printer) : Idle (w.begin p) :=
  ⟨h.answered, h.secured, h.quiet, h.buf⟩

/-- A step keeps the state idle, but for a transfer that leaves its completion reply. -/
theorem Idle.step {w : World} {e : Event} (h : Idle w) (hr : Ready w e) :
    TransferEnds w e ∧ Idle (step w e) ∨ ¬ TransferEnds w e ∧ Pending (step w e) e.printer.completion.bytes := by
  obtain ⟨op, p⟩ := e
  have hidle := h.begin p
  have hpending (huse : op.usesConnection = true) : Pending (w.begin p) [] :=
    hidle.pending hr.noneFails (hr.greeted huse)
  have hcommand (hop : op.transfer = none) (hdone : Idle (Ftps.step w ⟨op, p⟩)) :
      TransferEnds w ⟨op, p⟩ ∧ Idle (Ftps.step w ⟨op, p⟩) ∨
        ¬ TransferEnds w ⟨op, p⟩ ∧ Pending (Ftps.step w ⟨op, p⟩) p.completion.bytes :=
    Or.inl ⟨fun cmd hcmd => absurd (hop.symm.trans hcmd) (by simp), hdone⟩
  have htransfer {cmd : Bytes} {ends : Prop} (hop : op.transfer = some cmd)
      (hends : ends ↔ w.DataTls p ∧ op.UploadDone w.client.useTls p)
      (hleaves : Leaves (w.begin p) p cmd ends (Ftps.step w ⟨op, p⟩)) :
      TransferEnds w ⟨op, p⟩ ∧ Idle (Ftps.step w ⟨op, p⟩) ∨
        ¬ TransferEnds w ⟨op, p⟩ ∧ Pending (Ftps.step w ⟨op, p⟩) p.completion.bytes := by
    rcases hleaves with ⟨hall, hrest⟩ | ⟨⟨haccepts, hbad⟩, hrest⟩
    · refine Or.inl ⟨fun cmd' hcmd' haccepts => hends.mp (hall ?_), hrest.idle⟩
      obtain rfl := Option.some.inj (hop.symm.trans hcmd')
      exact haccepts
    · exact Or.inr ⟨fun hall => hbad (hends.mpr (hall cmd hop haccepts)), hrest⟩
  have hline {text : Bytes} (htext : text ∈ op.texts) : Ascii.lf ∉ text := hr.lines text htext
  cases op with
  | connect cfg =>
      exact hcommand rfl (hidle.connect cfg hr.noneFails hr.padded (hline (by simp [Op.texts]))
        (hline (by simp [Op.texts])))
  | stor localPath file remotePath progress =>
      cases file with
      | none => exact hcommand rfl hidle
      | some file =>
          exact htransfer rfl Iff.rfl
            ((hpending rfl).stor hr.padded (hline (by simp [Op.texts])) localPath file progress)
  | list path =>
      exact htransfer rfl (and_iff_left trivial).symm
        ((hpending rfl).fetchListing hr.padded (hline (by simp [Op.texts])))
  | listEntries path =>
      exact htransfer rfl (and_iff_left trivial).symm
        ((hpending rfl).fetchListing hr.padded (hline (by simp [Op.texts])))
  | retr remotePath sink =>
      exact htransfer rfl (and_iff_left trivial).symm
        ((hpending rfl).retr hr.padded (hline (by simp [Op.texts])) sink)
  | size remotePath => exact hcommand rfl ((hpending rfl).size hr.padded (hline (by simp [Op.texts]))).idle
  | dele remotePath => exact hcommand rfl ((hpending rfl).dele hr.padded (hline (by simp [Op.texts]))).idle
  | cwd path => exact hcommand rfl ((hpending rfl).cwd hr.padded (hline (by simp [Op.texts]))).idle
  | quit => exact hcommand rfl (hidle.quit hr.noneFails hr.padded)

theorem Idle.aligned {w : World} (h : Idle w) : Aligned w where
  answered := h.answered
  settled i hi hgreeted := by
    rcases h.buf with hbuf | hclosed
    · rw [hbuf, h.quiet i hgreeted, List.append_nil]
    · exact absurd (hclosed.channel.symm.trans hi) (by simp)

theorem Pending.not_aligned {w : World} {r : Reply} (h : Pending w r.bytes) : ¬ Aligned w := by
  intro hlaw
  cases hc : w.channel with
  | none => exact r.bytes_ne_nil (h.nowhere hc).1
  | some i =>
      obtain ⟨hgreeted, hunread⟩ := h.here i hc
      exact r.bytes_ne_nil (hunread.symm.trans (hlaw.settled i hc hgreeted))

theorem idle_start : Idle World.start where
  answered := by simp [Answered, World.start]
  secured := by simp [Secured, World.start, Conn.new]
  quiet := by simp [World.start, Conn.new]
  buf := Or.inl rfl

/-- Where commands and replies can be aligned at all, they are exactly if every transfer ends as it
should. -/
theorem aligned_iff {w : World} (h : Idle w) {events : List Event} (hr : AtEveryStep step Ready w events) :
    InEveryState step Aligned w events ↔ AtEveryStep step TransferEnds w events := by
  induction events generalizing w with
  | nil => exact ⟨fun _ => atEveryStep_nil, fun _ => inEveryState_nil.mpr h.aligned⟩
  | cons e events ih =>
      obtain ⟨hready, hrest⟩ := atEveryStep_cons.mp hr
      rw [inEveryState_cons, atEveryStep_cons, and_iff_right h.aligned]
      rcases h.step hready with ⟨hends, hidle⟩ | ⟨hbad, hpending⟩
      · rw [and_iff_right hends]
        exact ih hidle hrest
      · refine ⟨fun hall => absurd ?_ hpending.not_aligned, fun hall => absurd hall.1 hbad⟩
        exact hall [] events rfl

/-- Along every run whose steps are orderly the reply that a command returns is the reply to it, and
nothing is left unread behind any operation. -/
theorem aligned_of_orderly {events : List Event} (h : AtEveryStep step Orderly World.start events) :
    InEveryState step Aligned World.start events := by
  refine (aligned_iff idle_start fun past e rest hr => ?_).mpr fun past e rest hr => ?_
  · exact (h past e rest hr).1
  · exact (h past e rest hr).2

/-! ## A printer with a file on it -/

def oneLine (code : Fin 1000) : Reply := ⟨code, none, [], by simp, by simp⟩

def passive : Reply := ⟨227, none, ascii "Entering Passive Mode (192,168,1,20,195,80).", by decide, by simp⟩

/-- The printer's certificate checks out, and it lets itself be told everything but a change to a
directory that it has not got. -/
def goodPrinter : Printer where
  verifyEnabled := true
  tcp := true
  dataTcp := fun _ => true
  ctxNew := true
  verifySetup := true
  sslNew := true
  tls := ⟨true, true, true, true, false⟩
  late := ⟨false, false, false, false, false⟩
  dataSslNew := true
  dataTls := ⟨true, true, true, true, true⟩
  greeting := oneLine 220
  answer := fun line =>
    if startsWith line (ascii "USER") then oneLine 331
    else if startsWith line (ascii "PASS") then oneLine 230
    else if startsWith line (ascii "PASV") then passive
    else if transferCommand line then oneLine 150
    else if startsWith line (ascii "DELE") then oneLine 250
    else if startsWith line (ascii "CWD") then oneLine 550
    else oneLine 200
  completion := oneLine 226
  arrivals := []
  sends := fun _ => [.moved 500]
  dataReads := [.bytes 0x64 [], .closed]
  dataSends := [.moved 1, .moved 1, .moved 1]
  errorText := []

def lanConfig : ConnectConfig := ⟨ascii "bblp", ascii "12345678", true, ascii "01S00A000000001", ascii "printer.cer"⟩

def upload (progress : Option (Nat → Nat → Bool)) : Op :=
  .stor (ascii "cube.3mf") (some ⟨4, [[1, 2], [3, 4]]⟩) (ascii "/cube.3mf") progress

/-- A file is uploaded and then removed again. -/
def uploadAndRemove (progress : Option (Nat → Nat → Bool)) : List Event :=
  [⟨.connect lanConfig, goodPrinter⟩, ⟨upload progress, goodPrinter⟩, ⟨.dele (ascii "/cube.3mf"), goodPrinter⟩,
    ⟨.cwd (ascii "/usb"), goodPrinter⟩]

theorem goodPrinter_padded : goodPrinter.Padded := by
  have hanswer : ∀ line, (goodPrinter.answer line).opening = none := by
    intro line
    simp only [goodPrinter]
    split_ifs <;> rfl
  refine ⟨?_, fun line => ?_, ?_⟩
  · simp [Reply.Padded, goodPrinter, oneLine]
  · simp [Reply.Padded, hanswer]
  · simp [Reply.Padded, goodPrinter, oneLine]

theorem aligned_of_orderly_upload : InEveryState step Aligned World.start (uploadAndRemove none) := by
  have hready : ∀ w op, (∀ text ∈ op.texts, Ascii.lf ∉ text) →
      (w.channel.all fun i => (w.conns i).greeted) = true → Ready w ⟨op, goodPrinter⟩ := by
    intro w op hlines hgreeted
    refine ⟨by simp [NoneFails, goodPrinter], goodPrinter_padded, hlines, fun _ i hi => ?_⟩
    rw [hi] at hgreeted
    exact hgreeted
  have hother : ∀ w op, op.transfer = none → TransferEnds w ⟨op, goodPrinter⟩ := fun w op hop cmd hcmd =>
    absurd (hop.symm.trans hcmd) (by simp)
  refine aligned_of_orderly ?_
  refine atEveryStep_cons.mpr ⟨⟨hready _ _ (by decide) rfl, hother _ _ rfl⟩, ?_⟩
  refine atEveryStep_cons.mpr ⟨⟨hready _ _ (by decide) (by decide +kernel), fun _ _ _ => ⟨fun _ => ?_, ?_⟩⟩, ?_⟩
  · decide +kernel
  · show _ = UploadEnd.done
    decide +kernel
  refine atEveryStep_cons.mpr ⟨⟨hready _ _ (by decide) (by decide +kernel), hother _ _ rfl⟩, ?_⟩
  exact atEveryStep_cons.mpr ⟨⟨hready _ _ (by decide) (by decide +kernel), hother _ _ rfl⟩, atEveryStep_nil⟩

/-- A cancelled upload leaves its 226, so that the removal gets that one and the change of directory
the 250 of the removal: a missing directory is there. -/
theorem aligned_fails :
    ¬ InEveryState step Aligned World.start (uploadAndRemove (some fun _ _ => false)) := by
  intro h
  have hlast := h (uploadAndRemove (some fun _ _ => false)) [] (by rw [List.append_nil])
  have hlog : (after step World.start (uploadAndRemove (some fun _ _ => false))).log.head?.map
      (fun x => (x.reply.code.val, x.returned.map Prod.fst)) = some (550, some 250) := by
    decide +kernel
  obtain ⟨x, hx, hcodes⟩ := Option.map_eq_some_iff.mp hlog
  obtain ⟨hcode, hreturned⟩ := Prod.mk.inj hcodes
  obtain ⟨r, hr, hr250⟩ := Option.map_eq_some_iff.mp hreturned
  have hright := hlast.answered x (List.mem_of_mem_head? (Option.mem_def.mpr hx)) r hr
  rw [hright] at hr250
  simp only at hr250
  omega

end OpenBambu.Ftps
