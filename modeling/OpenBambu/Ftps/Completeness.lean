import OpenBambu.Ftps.Alignment
import OpenBambu.Foundation.Run

/-!
# What a successful transfer has carried

`stor` takes a read that brings nothing for the end of its file, and the listings take every read
that is not positive for the end of their data. When a transfer succeeds is spelled out in the bytes of
the control connection, the handshake of the data connection, the reads of the file and the writes, and
from that when success means that the transfer was complete.
-/

namespace OpenBambu.Ftps

open OpenBambu.Foundation

/-! ## What the control connection brings -/

/-- More that the printer has sent. -/
def Ctrl.extend (c : Ctrl) (sent : Bytes) : Ctrl := { c with wire := c.wire ++ sent }

/-- The replies of a connection on which these bytes come in front of each read of a reply. -/
def Ctrl.replies : Ctrl → List Bytes → List (Option (Nat × Bytes))
  | _, [] => []
  | c, sent :: later =>
      let r := Ftps.readReply (c.extend sent) []
      r.1 :: Ctrl.replies r.2 later

/-- What the printer sends when a command arrives. -/
def Printer.sent (p : Printer) (cmd : Bytes) : Bytes := (commandLines (cmd ++ crlf)).flatMap p.replies

/-- The line of a command goes out whole. -/
def World.lineOut (w : World) (p : Printer) (cmd : Bytes) : Bool :=
  (writeAll w.client.useTls (p.sends (cmd ++ crlf)) (cmd ++ crlf)).ok

/-- The control connection as a write finds it: a handshake that `connect` gave up may come to its end
with the write, and the greeting with that. -/
def World.control (w : World) (p : Printer) : Option Ctrl :=
  match w.channel with
  | none => none
  | some i =>
      let c := w.conns i
      if !c.wrapped || c.secure then some ⟨w.client.ctrlBuf, c.wire, w.arrivals⟩
      else if p.late.completes && (!c.verifies || p.late.chain) then
        some ⟨w.client.ctrlBuf, p.greeting.bytes, w.arrivals⟩
      else none

/-- There is a control connection, and TLS is up on it if it is to be. -/
def World.Up (w : World) : Prop :=
  ∃ i, w.channel = some i ∧ (!(w.conns i).wrapped || (w.conns i).secure) = true

theorem World.Up.control {w : World} (h : w.Up) (p : Printer) : w.control p = some w.ctrl := by
  obtain ⟨i, hc, hup⟩ := h
  simp only [World.control, World.ctrl, hc, hup, if_true, Option.map_some, Option.getD_some]

theorem guard_of_up {c : Conn} (h : (!c.wrapped || c.secure) = true) : (c.wrapped && !c.secure) = false := by
  cases hw : c.wrapped <;> cases hs : c.secure <;> simp_all

theorem World.up_setConn {w : World} {i : Nat} (hc : w.channel = some i) {c : Conn}
    (hwrapped : c.wrapped = (w.conns i).wrapped) (hup : (!c.wrapped || c.secure) = true) :
    Same w (w.setConn i c) ∧ (w.setConn i c).Up ∧ (w.setConn i c).ctrl = ⟨w.client.ctrlBuf, c.wire, w.arrivals⟩ := by
  have hchannel := w.channel_setConn i c hwrapped
  refine ⟨⟨rfl, hchannel⟩, ⟨i, hchannel.trans hc, by rwa [World.setConn_self]⟩, ?_⟩
  rw [World.ctrl, hchannel, hc, Option.map_some, Option.getD_some, World.setConn_self]
  rfl

theorem World.up_rewire {w : World} {i : Nat} (hc : w.channel = some i)
    (hup : (!(w.conns i).wrapped || (w.conns i).secure) = true) (buf wire : Bytes) (arrivals : List Arrival)
    (t : List Checks) :
    (w.rewire i buf wire arrivals t).Up ∧ (w.rewire i buf wire arrivals t).ctrl = ⟨buf, wire, arrivals⟩ := by
  have hchannel := (w.same_rewire i buf wire arrivals t).channel.trans hc
  have hi : (w.rewire i buf wire arrivals t).conns i = { w.conns i with wire := wire } :=
    World.setConn_self w i _
  refine ⟨⟨i, hchannel, by rwa [hi]⟩, ?_⟩
  rw [World.ctrl, hchannel, Option.map_some, Option.getD_some, hi]
  rfl

/-- What a write finds is there once the handshake has been driven on. -/
theorem World.finishTls_control {w : World} {p : Printer} {i : Nat} (hc : w.channel = some i) :
    Same w (w.finishTls p i) ∧
      (w.control p = none ∧ ((w.finishTls p i).conns i).wrapped = true ∧
          ((w.finishTls p i).conns i).secure = false ∨
        (w.finishTls p i).Up ∧ w.control p = some (w.finishTls p i).ctrl) := by
  unfold World.finishTls World.control
  simp only [hc]
  by_cases hup : (!(w.conns i).wrapped || (w.conns i).secure) = true
  · have hguard := guard_of_up hup
    rw [hguard, if_pos hup]
    simp only [Bool.false_and, Bool.false_eq_true, if_false]
    exact ⟨Same.refl w, Or.inr ⟨⟨i, hc, hup⟩, by rw [World.ctrl, hc, Option.map_some, Option.getD_some]⟩⟩
  · obtain ⟨hwrapped, hsecure⟩ : (w.conns i).wrapped = true ∧ (w.conns i).secure = false := by
      simpa using hup
    rw [if_neg hup]
    simp only [hwrapped, hsecure, Bool.not_false, Bool.true_and]
    by_cases hlate : (p.late.completes && (!(w.conns i).verifies || p.late.chain)) = true
    · rw [if_pos hlate, if_pos hlate]
      obtain ⟨hsame, hnow, hctrl⟩ := World.up_setConn hc (c := ⟨true, (w.conns i).verifies, true,
        (w.conns i).verifies, (w.conns i).name, (w.conns i).greeted, p.greeting.bytes⟩) hwrapped.symm rfl
      exact ⟨hsame, Or.inr ⟨hnow, by rw [hctrl]⟩⟩
    · rw [if_neg hlate, if_neg hlate]
      exact ⟨Same.refl w, Or.inl ⟨rfl, hwrapped, hsecure⟩⟩

/-- A command goes out where there is a connection and the line is written whole, and with it the
printer sends what it has to say. -/
theorem World.ctrlWrite_control (w : World) (p : Printer) (cmd : Bytes) :
    ∃ b w', w.ctrlWrite p (cmd ++ crlf) = (b, w') ∧ Same w w' ∧
      (b = false ∧ (w.control p = none ∨ w.lineOut p cmd = false) ∨
        b = true ∧ w.lineOut p cmd = true ∧ ∃ c, w.control p = some c ∧ w'.Up ∧
          w'.ctrl = c.extend (p.sent cmd)) := by
  unfold World.ctrlWrite
  cases hc : w.channel with
  | none => exact ⟨_, _, rfl, Same.refl w, Or.inl ⟨rfl, Or.inl (by rw [World.control, hc])⟩⟩
  | some i =>
      obtain ⟨hsame, hcase⟩ := w.finishTls_control (p := p) hc
      dsimp only
      generalize w.finishTls p i = w1 at hsame hcase ⊢
      rcases hcase with ⟨hnone, hwrapped, hsecure⟩ | ⟨⟨j, hj, hup⟩, hcontrol⟩
      · simp only [hwrapped, hsecure, Bool.not_false, Bool.and_true, if_true]
        exact ⟨_, _, rfl, hsame, Or.inl ⟨rfl, Or.inl hnone⟩⟩
      · obtain rfl := Option.some.inj (hj.symm.trans (hsame.channel.trans hc))
        have huse : w1.client.useTls = w.client.useTls := by rw [hsame.client]
        simp only [guard_of_up hup, Bool.false_eq_true, if_false, huse]
        generalize hwritten : writeAll w.client.useTls (p.sends (cmd ++ crlf)) (cmd ++ crlf) = written
        have hout : w.lineOut p cmd = written.ok := by rw [World.lineOut, hwritten]
        obtain ⟨t, ht⟩ : ∃ t, (if written.data = [] then w1 else w1.carried j) = { w1 with trace := t } := by
          split_ifs
          · exact ⟨w1.trace, rfl⟩
          · exact w1.carried_eq j
        rw [ht]
        cases hok : written.ok with
        | false => exact ⟨_, _, rfl, ⟨hsame.client, hsame.channel⟩, Or.inl ⟨rfl, Or.inr (hout.trans hok)⟩⟩
        | true =>
            simp only [if_true]
            have hrewire := w1.same_rewire j w1.client.ctrlBuf ((w1.conns j).wire ++ p.sent cmd)
              w1.arrivals t
            obtain ⟨hnow, hctrl⟩ := World.up_rewire hj hup w1.client.ctrlBuf
              ((w1.conns j).wire ++ p.sent cmd) w1.arrivals t
            refine ⟨true, w1.rewire j w1.client.ctrlBuf ((w1.conns j).wire ++ p.sent cmd) w1.arrivals t, rfl,
              hsame.trans hrewire, Or.inr ⟨rfl, hout.trans hok, _, hcontrol, hnow, ?_⟩⟩
            rw [hctrl, World.ctrl, hj, Option.map_some, Option.getD_some]
            rfl

/-- A reply is read off the connection. -/
theorem World.Up.readReply {w : World} (h : w.Up) :
    ∃ w', w.readReply = ((Ftps.readReply w.ctrl []).1, w') ∧ Same w w' ∧ w'.Up ∧
      w'.ctrl = (Ftps.readReply w.ctrl []).2 := by
  obtain ⟨i, hc, hup⟩ := h
  generalize hread : Ftps.readReply w.ctrl [] = r
  obtain ⟨t, hput⟩ := World.putCtrl_some hc r.2
  obtain ⟨hnow, hctrl⟩ := World.up_rewire hc hup r.2.buf r.2.wire r.2.arrivals t
  refine ⟨_, ?_, w.same_rewire i r.2.buf r.2.wire r.2.arrivals t, hnow, hctrl⟩
  rw [World.readReply, hread, hput]

/-- What `send_cmd` returns is the first reply of what is unread and of what the printer sends. -/
theorem World.sendCmd_control (w : World) (p : Printer) (cmd : Bytes) :
    ∃ reply w', w.sendCmd p cmd = (reply, w') ∧ Same w w' ∧
      (reply = none ∧ (w.control p = none ∨ w.lineOut p cmd = false) ∨
        w.lineOut p cmd = true ∧ ∃ c, w.control p = some c ∧ w'.Up ∧
          (reply, w'.ctrl) = Ftps.readReply (c.extend (p.sent cmd)) []) := by
  obtain ⟨b, w1, hwrite, hsame1, hcase⟩ := w.ctrlWrite_control p cmd
  unfold World.sendCmd
  simp only [hwrite]
  rcases hcase with ⟨rfl, hlost⟩ | ⟨rfl, hout, c, hcontrol, hup, hctrl⟩
  · exact ⟨_, _, rfl, hsame1.record .., Or.inl ⟨rfl, hlost⟩⟩
  · obtain ⟨w2, hread, hsame2, hup2, hrest⟩ := hup.readReply
    simp only [hread]
    refine ⟨_, _, rfl, (hsame1.trans hsame2).record .., Or.inr ⟨hout, c, hcontrol, hup2, ?_⟩⟩
    rw [← hctrl]
    exact Prod.ext rfl hrest

/-! ## How a transfer goes through -/

/-- The reply to PASV names a port that takes the data connection. -/
def Printer.Opens (p : Printer) (pasv : Option (Nat × Bytes)) : Prop :=
  hasCode pasv [227] = true ∧ ∃ port, pasvPort (replyBody pasv) = .ok port ∧ p.dataTcp port = true

/-- The replies to PASV and to the command and the one behind the data, of a transfer that goes through. -/
def Printer.Passes (p : Printer) : List (Option (Nat × Bytes)) → Prop
  | [pasv, command, completion] =>
      p.Opens pasv ∧ hasCode command [150, 125] = true ∧ hasCode completion [226, 250] = true
  | _ => False

/-- The data connection gets TLS, if it is to have it. -/
def World.DataSecured (w : World) (p : Printer) : Prop :=
  w.client.useTls = true → ∃ verifies, w.client.ctx = some verifies ∧ p.dataSslNew = true ∧
    p.dataTls.completes = true ∧ (p.dataTls.resumes = true ∨ verifies = false ∨ p.dataTls.chain = true)

/-- The printer and the network take a transfer and confirm its end: both lines go out, the bytes on the
control connection are a 227 with a usable port, a 150 or 125 and a 226 or 250, and TLS comes up on the
data connection. -/
structure World.Carries (w : World) (p : Printer) (cmd : Bytes) : Prop where
  pasvOut : w.lineOut p (ascii "PASV") = true
  commandOut : w.lineOut p cmd = true
  replies : ∃ c, w.control p = some c ∧ p.Passes (c.replies [p.sent (ascii "PASV"), p.sent cmd, []])
  secured : w.DataSecured p

theorem World.wrapDataTls_isOk (w : World) (p : Printer) :
    (w.wrapDataTls p).isOk = true ↔ ∃ verifies, w.client.ctx = some verifies ∧ p.dataSslNew = true ∧
      p.dataTls.completes = true ∧ (p.dataTls.resumes = true ∨ verifies = false ∨ p.dataTls.chain = true) := by
  unfold World.wrapDataTls
  cases w.client.ctx with
  | none => simp [Except.isOk, Except.toBool]
  | some verifies =>
      simp only [Option.some.injEq, exists_eq_left']
      split_ifs with hnew hdone
      · simp_all [Except.isOk, Except.toBool]
      · simp_all [Except.isOk, Except.toBool, or_assoc]
      · refine iff_of_false (by simp [Except.isOk, Except.toBool]) ?_
        rintro ⟨_, hcompletes, hchecked⟩
        exact hdone (by simpa [hcompletes, or_assoc] using hchecked)

theorem wrapDataTls_error {w : World} {p : Printer} {err : Bytes} (h : w.wrapDataTls p = .error err) :
    err ≠ [] := by
  unfold World.wrapDataTls at h
  split at h
  · rw [← Except.error.inj h]
    simp [ascii]
  · split_ifs at h
    · rw [← Except.error.inj h]
      simp [ascii]
    · rw [← Except.error.inj h]
      simp [ascii]

theorem pasvPort_error {body err : Bytes} (h : pasvPort body = .error err) : err ≠ [] := by
  unfold pasvPort at h
  simp only at h
  split_ifs at h
  · rw [← Except.error.inj h]
    simp [ascii]
  · split at h
    · cases h
    · rw [← Except.error.inj h]
      simp [ascii]

/-- The data connection is opened, or there is an error to tell. -/
theorem World.openDataTcp_control (w : World) (p : Printer) :
    ∃ err w', w.openDataTcp p = (err, w') ∧ Same w w' ∧
      ((∃ e, err = some e ∧ e ≠ []) ∧ (w.lineOut p (ascii "PASV") = false ∨
          ∀ c, w.control p = some c → ¬ p.Opens (Ftps.readReply (c.extend (p.sent (ascii "PASV"))) []).1) ∨
        err = none ∧ w.lineOut p (ascii "PASV") = true ∧ ∃ c, w.control p = some c ∧ w'.Up ∧
          p.Opens (Ftps.readReply (c.extend (p.sent (ascii "PASV"))) []).1 ∧
            w'.ctrl = (Ftps.readReply (c.extend (p.sent (ascii "PASV"))) []).2) := by
  obtain ⟨reply, w', hsend, hsame, hcase⟩ := w.sendCmd_control p (ascii "PASV")
  unfold World.openDataTcp
  simp only [hsend]
  rcases hcase with ⟨rfl, hlost⟩ | ⟨hout, c, hcontrol, hup, hread⟩
  · refine ⟨_, _, rfl, hsame, Or.inl ⟨⟨_, rfl, by simp [ascii]⟩, hlost.symm.imp_right fun hnone c hc => ?_⟩⟩
    exact absurd (hnone.symm.trans hc) (by simp)
  · obtain ⟨hreply, hrest⟩ := Prod.ext_iff.mp hread
    simp only at hreply hrest
    have hclosed {e : Bytes} (he : e ≠ []) (hno : ¬ p.Opens reply) :
        (∃ e', some e = some e' ∧ e' ≠ []) ∧ (w.lineOut p (ascii "PASV") = false ∨ ∀ c, w.control p = some c →
          ¬ p.Opens (Ftps.readReply (c.extend (p.sent (ascii "PASV"))) []).1) := by
      refine ⟨⟨e, rfl, he⟩, Or.inr fun c' hc' => ?_⟩
      rw [Option.some.inj (hc'.symm.trans hcontrol), ← hreply]
      exact hno
    split_ifs with hcode
    · exact ⟨_, _, rfl, hsame, Or.inl (hclosed (by simp [ascii]) fun hopens => by simp [hopens.1] at hcode)⟩
    · cases hport : pasvPort (replyBody reply) with
      | error err =>
          refine ⟨_, _, rfl, hsame, Or.inl (hclosed (pasvPort_error hport) fun hopens => ?_)⟩
          obtain ⟨_, port, hok, _⟩ := hopens
          exact absurd (hport.symm.trans hok) (by simp)
      | ok port =>
          simp only
          split_ifs with hdata
          · have hopens : p.Opens reply := ⟨by simpa using hcode, port, hport, hdata⟩
            rw [hreply] at hopens
            exact ⟨_, _, rfl, hsame, Or.inr ⟨rfl, hout, c, hcontrol, hup, hopens, hrest⟩⟩
          · refine ⟨_, _, rfl, hsame, Or.inl (hclosed (by simp [ascii]) fun hopens => ?_)⟩
            obtain ⟨_, port', hok, htcp⟩ := hopens
            rw [← Except.ok.inj (hport.symm.trans hok)] at htcp
            exact hdata htcp

/-- A transfer that does not start has an error to tell, and one that does goes through with the reply
that is then read. -/
theorem World.startTransfer_control (w : World) (p : Printer) (what cmd : Bytes) :
    ∃ started w', w.startTransfer p what cmd = (started, w') ∧ Same w w' ∧
      ((∃ err, err ≠ [] ∧ (started = .refused err ∨ started = .tlsFailed err)) ∧ ¬ w.Carries p cmd ∨
        (∃ checks, started = .open checks) ∧ w'.Up ∧
          (hasCode (Ftps.readReply w'.ctrl []).1 [226, 250] = true ↔ w.Carries p cmd)) := by
  obtain ⟨err, w1, hopen, hsame1, hcase1⟩ := w.openDataTcp_control p
  unfold World.startTransfer
  simp only [hopen]
  rcases hcase1 with ⟨⟨e, rfl, he⟩, hno⟩ | ⟨rfl, hpasv, c, hcontrol, hup1, hopens, hctrl1⟩
  · refine ⟨_, _, rfl, hsame1, Or.inl ⟨⟨e, he, Or.inl rfl⟩, fun hcarries => ?_⟩⟩
    obtain ⟨c, hc, hpasses⟩ := hcarries.replies
    rcases hno with hlost | hno
    · exact absurd (hcarries.pasvOut.symm.trans hlost) (by simp)
    · exact hno c hc hpasses.1
  · obtain ⟨reply, w2, hsend, hsame2, hcase2⟩ := w1.sendCmd_control p cmd
    have hsame := hsame1.trans hsame2
    have hline : w1.lineOut p cmd = w.lineOut p cmd := by rw [World.lineOut, World.lineOut, hsame1.client]
    have hctrl : w1.control p = some (Ftps.readReply (c.extend (p.sent (ascii "PASV"))) []).2 := by
      rw [hup1.control p, hctrl1]
    have hunique {c' : Ctrl} (hc' : w.control p = some c') : c' = c := Option.some.inj (hc'.symm.trans hcontrol)
    have huse : w2.client.useTls = w.client.useTls := by rw [hsame.client]
    have hctx : w2.client.ctx = w.client.ctx := by rw [hsame.client]
    simp only [hsend]
    rcases hcase2 with ⟨rfl, hlost⟩ | ⟨hcommand, c1, hc1, hup2, hread⟩
    · refine ⟨_, _, rfl, hsame, Or.inl ⟨⟨_, ?_, Or.inl rfl⟩, fun hcarries => ?_⟩⟩
      · simp [ascii]
      · rcases hlost with hnone | hlost
        · exact absurd (hctrl.symm.trans hnone) (by simp)
        · exact absurd ((hline.trans hcarries.commandOut).symm.trans hlost) (by simp)
    · obtain ⟨hreply, hrest⟩ := Prod.ext_iff.mp hread
      simp only at hreply hrest
      rw [← Option.some.inj (hctrl.symm.trans hc1)] at hreply hrest
      have hpasses : p.Passes (c.replies [p.sent (ascii "PASV"), p.sent cmd, []]) ↔
          hasCode reply [150, 125] = true ∧ hasCode (Ftps.readReply w2.ctrl []).1 [226, 250] = true := by
        rw [hreply, hrest]
        simp only [Ctrl.replies, Printer.Passes, Ctrl.extend, List.append_nil]
        exact and_iff_right hopens
      split_ifs with hcode htls
      · refine ⟨_, _, rfl, hsame, Or.inl ⟨⟨_, ?_, Or.inl rfl⟩, fun hcarries => ?_⟩⟩
        · simp [ascii]
        · obtain ⟨c', hc', hp⟩ := hcarries.replies
          rw [hunique hc'] at hp
          simp [(hpasses.mp hp).1] at hcode
      all_goals
        have haccepted : hasCode reply [150, 125] = true := by simpa using hcode
        have hcarries (hsecured : w.DataSecured p) :
            hasCode (Ftps.readReply w2.ctrl []).1 [226, 250] = true ↔ w.Carries p cmd := by
          constructor
          · intro hdone
            exact ⟨hpasv, hline ▸ hcommand, ⟨c, hcontrol, hpasses.mpr ⟨haccepted, hdone⟩⟩, hsecured⟩
          · intro hcarries
            obtain ⟨c', hc', hp⟩ := hcarries.replies
            rw [hunique hc'] at hp
            exact (hpasses.mp hp).2
      · have hok := w2.wrapDataTls_isOk p
        rw [hctx] at hok
        cases hwrap : w2.wrapDataTls p with
        | error err =>
            refine ⟨_, _, rfl, hsame, Or.inl ⟨⟨err, wrapDataTls_error hwrap, Or.inr rfl⟩, fun h => ?_⟩⟩
            have := hok.mpr (h.secured (huse.symm.trans htls))
            rw [hwrap] at this
            cases this
        | ok checks =>
            rw [hwrap] at hok
            exact ⟨_, _, rfl, hsame, Or.inr ⟨⟨_, rfl⟩, hup2, hcarries fun _ => hok.mp rfl⟩⟩
      · exact ⟨_, _, rfl, hsame, Or.inr ⟨⟨_, rfl⟩, hup2, hcarries fun hon =>
          absurd (huse.trans hon) htls⟩⟩

/-! ## Uploads -/

/-- What the reads bring up to the first that brings nothing, in order. -/
def LocalFile.pieces (file : LocalFile) : List Bytes := file.reads.takeWhile (· ≠ [])

def LocalFile.bytes (file : LocalFile) : Bytes := file.pieces.flatten

/-- `ok` holds of every piece with those in front of it. -/
def AtEveryPiece (ok : List Bytes → Bytes → Prop) (pieces : List Bytes) : Prop :=
  AtEveryStep (fun before piece => before ++ [piece]) ok [] pieces

/-- What the writes of the pieces leave of the script. -/
def scriptBehind (useTls : Bool) (script : List Sent) (pieces : List Bytes) : List Sent :=
  pieces.foldl (fun script piece => (writeAll useTls script piece).script) script

/-- No write fails. -/
def PiecesOut (useTls : Bool) (script : List Sent) (pieces : List Bytes) : Prop :=
  AtEveryPiece (fun before piece => (writeAll useTls (scriptBehind useTls script before) piece).ok = true) pieces

/-- `sent` behind the pieces. -/
def sentBehind (pieces : List Bytes) : Nat := pieces.flatten.length % 2 ^ 64

/-- `last_progress` behind the pieces; in front of the first it is -1. -/
def percentBehind (total : Nat) (pieces : List Bytes) : Option Nat :=
  if pieces = [] then none else percent (sentBehind pieces) total

/-- `progress` lets every further percentage pass. -/
def LetsPass (progress : Option (Nat → Nat → Bool)) (total : Nat) (pieces : List Bytes) : Prop :=
  ∀ f ∈ progress, AtEveryPiece (fun before piece =>
    percentBehind total (before ++ [piece]) ≠ percentBehind total before →
      f (sentBehind (before ++ [piece])) total = true) pieces

/-- An upload whose loop comes to its end has put out all that was read. -/
theorem sendFile_done {useTls : Bool} {progress : Option (Nat → Nat → Bool)} {total : Nat}
    {reads : List Bytes} {script : List Sent} {sent : Nat} {last : Option Nat}
    (h : (sendFile useTls progress total reads script sent last).ended = .done) :
    (sendFile useTls progress total reads script sent last).data = (reads.takeWhile (· ≠ [])).flatten := by
  induction reads generalizing script sent last with
  | nil => rfl
  | cons piece reads ih =>
      unfold sendFile at h ⊢
      simp only at h ⊢
      generalize (if progress.isSome = true then _ else last) = later at h ⊢
      split_ifs at h ⊢ with hpiece hwrite hcancel
      · simp [hpiece]
      · rw [Bool.not_eq_true, Bool.not_eq_false'] at hwrite
        simp only [ih h, writeAll_ok hwrite]
        rw [List.takeWhile_cons_of_pos (by simpa using hpiece), List.flatten_cons]

theorem sentBehind_concat (before : List Bytes) (piece : Bytes) :
    sentBehind (before ++ [piece]) = (sentBehind before + piece.length) % 2 ^ 64 := by
  simp [sentBehind]

theorem scriptBehind_concat (useTls : Bool) (script : List Sent) (before : List Bytes) (piece : Bytes) :
    scriptBehind useTls script (before ++ [piece]) =
      (writeAll useTls (scriptBehind useTls script before) piece).script := List.foldl_concat ..

theorem percentBehind_concat (total : Nat) (before : List Bytes) (piece : Bytes) :
    percentBehind total (before ++ [piece]) = percent (sentBehind (before ++ [piece])) total := if_neg (by simp)

/-- The loop behind some pieces comes to its end exactly if the further ones go out and none of them is
cancelled. -/
theorem sendFile_done_iff (useTls : Bool) (progress : Option (Nat → Nat → Bool)) (total : Nat)
    (reads : List Bytes) (script : List Sent) (before : List Bytes) (last : Option Nat)
    (hlast : progress.isSome = true → last = percentBehind total before) :
    (sendFile useTls progress total reads (scriptBehind useTls script before) (sentBehind before) last).ended
        = .done ↔
      AtEveryStep (fun before piece => before ++ [piece]) (fun before piece =>
        (writeAll useTls (scriptBehind useTls script before) piece).ok = true ∧ ∀ f ∈ progress,
          percentBehind total (before ++ [piece]) ≠ percentBehind total before →
            f (sentBehind (before ++ [piece])) total = true) before (reads.takeWhile (· ≠ [])) := by
  induction reads generalizing before last with
  | nil => exact iff_of_true rfl atEveryStep_nil
  | cons piece reads ih =>
      by_cases hpiece : piece = []
      · rw [sendFile, if_pos hpiece, List.takeWhile_cons_of_neg (by simpa using hpiece)]
        exact iff_of_true rfl atEveryStep_nil
      rw [List.takeWhile_cons_of_pos (by simpa using hpiece), atEveryStep_cons, sendFile, if_neg hpiece]
      simp only [← sentBehind_concat, ← scriptBehind_concat]
      cases hwrite : (writeAll useTls (scriptBehind useTls script before) piece).ok with
      | false =>
          rw [if_pos (by decide)]
          exact iff_of_false (by simp) (by simp)
      | true =>
          rw [if_neg (by decide), and_iff_right rfl]
          have hpasses : cancels progress (sentBehind (before ++ [piece])) total last = false ↔
              ∀ f ∈ progress, percentBehind total (before ++ [piece]) ≠ percentBehind total before →
                f (sentBehind (before ++ [piece])) total = true := by
            cases progress with
            | none => simp [cancels]
            | some f =>
                rw [hlast rfl, percentBehind_concat]
                simp [cancels]
          rw [← hpasses]
          cases hcancel : cancels progress (sentBehind (before ++ [piece])) total last with
          | true =>
              rw [if_pos rfl]
              exact iff_of_false (by simp) (by simp)
          | false =>
              rw [if_neg Bool.false_ne_true, and_iff_right rfl]
              refine ih _ _ fun hsome => ?_
              rw [if_pos hsome, percentBehind_concat]

section Upload

variable (w : World) (p : Printer) (file : LocalFile) (progress : Option (Nat → Nat → Bool))

/-- The data of an upload. -/
def uploadOf : Upload :=
  sendFile w.client.useTls progress file.size file.reads p.dataSends 0 none

variable (localPath remotePath : Bytes)

/-- The printer carries the upload, all writes go out and nobody cancels it. -/
structure Uploads : Prop where
  carries : w.Carries p (ascii "STOR " ++ remotePath)
  out : PiecesOut w.client.useTls p.dataSends file.pieces
  passes : LetsPass progress file.size file.pieces

/-- Success means that as many bytes as were announced have gone out in the order of the file, and
that the printer has confirmed them. -/
structure StorLaw : Prop where
  complete : (w.stor p localPath (some file) remotePath progress).1 = [] →
    (uploadOf w p file progress).data = file.bytes ∧ (uploadOf w p file progress).data.length = file.size
  confirmed : (w.stor p localPath (some file) remotePath progress).1 = [] →
    ∃ x, (w.stor p localPath (some file) remotePath progress).2.log.head? = some x ∧ x.command = none ∧
      hasCode x.returned [226, 250] = true

theorem uploadOf_done_iff :
    (uploadOf w p file progress).ended = .done ↔
      PiecesOut w.client.useTls p.dataSends file.pieces ∧ LetsPass progress file.size file.pieces := by
  have hdone := sendFile_done_iff w.client.useTls progress file.size file.reads p.dataSends [] none
    (fun _ => rfl)
  rw [PiecesOut, LetsPass, AtEveryPiece]
  refine hdone.trans ⟨fun h => ⟨fun b x l hs => (h b x l hs).1, fun f hf b x l hs => (h b x l hs).2 f hf⟩, ?_⟩
  exact fun h b x l hs => ⟨h.1 b x l hs, fun f hf => h.2 f hf b x l hs⟩

/-- A success has read all of the file and leaves the printer's confirmation as the last exchange. -/
theorem stor_success {err : Bytes} (herr : (w.stor p localPath (some file) remotePath progress).1 = err) :
    (err = [] ↔ Uploads w p file progress remotePath) ∧
      (err = [] → ∃ x, (w.stor p localPath (some file) remotePath progress).2.log.head? = some x ∧
        x.command = none ∧ hasCode x.returned [226, 250] = true) := by
  subst herr
  obtain ⟨started, w', hstart, hsame, hcase⟩ :=
    w.startTransfer_control p (ascii "STOR") (ascii "STOR " ++ remotePath)
  have hdone := uploadOf_done_iff w p file progress
  have huploads : Uploads w p file progress remotePath ↔ w.Carries p (ascii "STOR " ++ remotePath) ∧
      (uploadOf w p file progress).ended = .done := by
    rw [hdone]
    exact ⟨fun h => ⟨h.carries, h.out, h.passes⟩, fun h => ⟨h.1, h.2.1, h.2.2⟩⟩
  unfold World.stor
  simp only [hstart]
  rcases hcase with ⟨⟨err, herr, rfl | rfl⟩, hno⟩ | ⟨⟨checks, rfl⟩, hup, hgoes⟩
  · exact ⟨iff_of_false herr fun h => hno h.carries, fun h => absurd h herr⟩
  · exact ⟨iff_of_false herr fun h => hno h.carries, fun h => absurd h herr⟩
  · have huse : sendFile w'.client.useTls progress file.size file.reads p.dataSends 0 none =
        uploadOf w p file progress := by rw [hsame.client, uploadOf]
    rw [huploads, ← hgoes]
    simp only [huse]
    generalize uploadOf w p file progress = up
    cases hend : up.ended with
    | writeFailed => exact ⟨iff_of_false (by simp [ascii]) (by simp), fun h => absurd h (by simp [ascii])⟩
    | cancelled => exact ⟨iff_of_false (by simp [ascii]) (by simp), fun h => absurd h (by simp [ascii])⟩
    | done =>
        obtain ⟨t, ht⟩ := w'.dataCarried_eq checks up.data
        have hread : (World.readReply { w' with trace := t }).1 = (Ftps.readReply w'.ctrl []).1 := rfl
        rw [ht]
        simp only [World.finish, World.readCompletion, hread, and_true]
        split_ifs with hcode
        · exact ⟨iff_of_true rfl hcode, fun _ => ⟨_, rfl, rfl, hcode⟩⟩
        · exact ⟨iff_of_false (by simp [ascii]) hcode, fun h => absurd h (by simp [ascii])⟩

/-- The law holds of an upload exactly if it does not go through, or its reads have brought as many
bytes as were announced. -/
theorem storLaw_iff :
    StorLaw w p file progress localPath remotePath ↔
      (Uploads w p file progress remotePath → file.bytes.length = file.size) := by
  obtain ⟨hsuccess, hconfirmed⟩ := stor_success w p file progress localPath remotePath rfl
  constructor
  · intro hlaw hup
    obtain ⟨hdata, hlength⟩ := hlaw.complete (hsuccess.mpr hup)
    rw [← hdata, hlength]
  · intro hlength
    refine ⟨fun h => ?_, hconfirmed⟩
    have hup := hsuccess.mp h
    have hdata : (uploadOf w p file progress).data = file.bytes :=
      sendFile_done ((uploadOf_done_iff w p file progress).mpr ⟨hup.out, hup.passes⟩)
    exact ⟨hdata, hdata ▸ hlength hup⟩

end Upload

/-! ## Listings -/

section Listing

variable (w : World) (p : Printer) (path : Bytes)

theorem fetchListing_success_iff : (w.fetchListing p path).1 = [] ↔ w.Carries p (listCommand path) := by
  obtain ⟨started, w', hstart, hsame, hcase⟩ := w.startTransfer_control p (ascii "LIST") (listCommand path)
  unfold World.fetchListing
  simp only [hstart]
  rcases hcase with ⟨⟨err, herr, rfl | rfl⟩, hno⟩ | ⟨⟨checks, rfl⟩, hup, hgoes⟩
  · exact iff_of_false herr hno
  · exact iff_of_false herr hno
  · rw [← hgoes]
    simp only
    obtain ⟨t, ht⟩ := w'.dataCarried_eq checks (readListing w'.client.useTls p.dataReads).1
    have hread : (World.readReply { w' with trace := t }).1 = (Ftps.readReply w'.ctrl []).1 := rfl
    rw [ht]
    simp only [World.readCompletion, hread]
    split_ifs with hcode
    · exact iff_of_true rfl hcode
    · exact iff_of_false (by simp [ascii]) hcode

/-- The read that ended the listing. -/
def listingEnd : ReadSome := (readListing w.client.useTls p.dataReads).2

theorem readListing_eof_iff (useTls : Bool) (script : List Received) :
    (readListing useTls script).2 = .eof ↔ endingRead useTls script = some .closed := by
  fun_induction readListing useTls script with
  | case1 script data rest hread later ih =>
      have hspec := readSome_spec useTls script
      rw [hread] at hspec
      rw [hspec]
      exact ih
  | case2 script ended rest hmore hread =>
      have hspec := readSome_spec useTls script
      rw [hread] at hspec
      cases ended with
      | got data => exact absurd rfl (hmore data)
      | eof => exact iff_of_true rfl hspec
      | failed => exact iff_of_false (by simp) hspec

/-- Success of `list` and of `list_entries` means that the data were read to their end. -/
structure ListingLaw : Prop where
  list : (w.list p path).2.1 = [] → listingEnd w p = .eof
  entries : (w.listEntries p path).1 = [] → listingEnd w p = .eof

theorem listingLaw_iff : ListingLaw w p path ↔
    (w.Carries p (listCommand path) → endingRead w.client.useTls p.dataReads = some .closed) := by
  have hsuccess := fetchListing_success_iff w p path
  have heof : listingEnd w p = .eof ↔ endingRead w.client.useTls p.dataReads = some .closed :=
    readListing_eof_iff _ _
  constructor
  · intro hlaw hcarries
    exact heof.mp (hlaw.entries (hsuccess.mpr hcarries))
  · intro hend
    exact ⟨fun h => heof.mpr (hend (hsuccess.mp h)), fun h => heof.mpr (hend (hsuccess.mp h))⟩

end Listing

/-- Success means completeness exactly where the reads of a file whose upload goes through bring as many
bytes as its size, and the data of a listing that goes through end by a close. -/
theorem transferLaw_iff (w : World) (p : Printer) (localPath : Bytes) (file : LocalFile)
    (remotePath : Bytes) (progress : Option (Nat → Nat → Bool)) (path : Bytes) :
    (StorLaw w p file progress localPath remotePath ∧ ListingLaw w p path) ↔
      (Uploads w p file progress remotePath → file.bytes.length = file.size) ∧
        (w.Carries p (listCommand path) → endingRead w.client.useTls p.dataReads = some .closed) :=
  and_congr (storLaw_iff w p file progress localPath remotePath) (listingLaw_iff w p path)

/-- A file of four bytes whose second read fails. -/
def brokenFile : LocalFile := ⟨4, [[1, 2]]⟩

/-- A data connection that falls silent in the middle of a listing. -/
def silentPrinter : Printer := { goodPrinter with dataReads := [.bytes 0x64 [], .again false] }

def connected : World := step World.start ⟨.connect lanConfig, goodPrinter⟩

/-- Half a file is a success, and half a listing. -/
theorem transferLaw_fails :
    ¬ StorLaw connected silentPrinter brokenFile none (ascii "cube.3mf") (ascii "/cube.3mf") ∧
      ¬ ListingLaw connected silentPrinter (ascii "/") := by
  constructor
  · intro hlaw
    have hlength := (hlaw.complete (by decide +kernel)).2
    exact absurd hlength (by decide +kernel)
  · intro hlaw
    have hend := hlaw.list (by decide +kernel)
    exact absurd hend (by decide +kernel)

end OpenBambu.Ftps
