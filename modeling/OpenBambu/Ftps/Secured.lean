import OpenBambu.Ftps.Alignment

/-!
# What the TLS connections of the FTP client have been checked for

With verification enabled every application byte should go over a connection whose chain and whose
peer name were checked. A data connection whose handshake is a full one has no name check, and a
control connection stays in use when its name check failed. Apart from these two the client keeps to
it.
-/

namespace OpenBambu.Ftps

open OpenBambu.Foundation

/-- Whatever carried application bytes had both checks. -/
def AllChecked (w : World) : Prop := ∀ c ∈ w.trace, c.chain = true ∧ c.name = true

/-- What the loop of a transfer moves over its data connection. -/
def Op.dataBytes (p : Printer) : Op → Bytes
  | .stor _ (some file) _ progress => (sendFile true progress file.size file.reads p.dataSends 0 none).data
  | .list _ => (readListing true p.dataReads).1
  | .listEntries _ => (readListing true p.dataReads).1
  | .retr _ sink => (drain true sink [] p.dataReads).1.flatten
  | _ => []

/-- Whether the operation uses the control connection that is there. -/
def Op.speaks : Op → Bool
  | .connect _ => false
  | .stor _ none _ _ => false
  | _ => true

/-- The name check of the control connection has succeeded, or its handshake is not done and does not
come to its end either. -/
def Vetted (w : World) (p : Printer) : Prop :=
  ∀ i, w.channel = some i → (w.conns i).wrapped = true →
    (w.conns i).name = true ∨
      (w.conns i).secure = false ∧ (p.late.completes && p.late.chain) = false

/-- The control connection is vetted, and a data connection that moves bytes resumes its session. -/
def Vouched (w : World) (e : Event) : Prop :=
  (e.op.speaks = true → Vetted w e.printer) ∧
    ∀ cmd what checks w', e.op.transfer = some cmd →
      (w.begin e.printer).startTransfer e.printer what cmd = (.open (some checks), w') →
        e.printer.dataTls.resumes = true ∨ e.op.dataBytes e.printer = []

/-! ## What operations are made of -/

/-- A property of the state that commands and replies keep. -/
structure Stable (p : Printer) (Q : World → Prop) : Prop where
  write : ∀ {w : World}, Q w → ∀ wire, Q (w.ctrlWrite p wire).2
  read : ∀ {w : World}, Q w → Q w.readReply.2
  record : ∀ {w : World}, Q w → ∀ command reply returned, Q (w.record command reply returned)

section Stable

variable {p : Printer} {Q : World → Prop} {w : World}

theorem Stable.sendCmd (h : Stable p Q) (hw : Q w) (cmd : Bytes) : Q (w.sendCmd p cmd).2 := by
  have hwrite := h.write hw (cmd ++ crlf)
  rw [World.sendCmd]
  cases hsent : w.ctrlWrite p (cmd ++ crlf) with
  | mk ok w' =>
      rw [hsent] at hwrite
      cases ok with
      | false => exact h.record hwrite _ _ _
      | true => exact h.record (h.read hwrite) _ _ _

theorem Stable.readCompletion (h : Stable p Q) (hw : Q w) : Q (w.readCompletion p).2 :=
  h.record (h.read hw) _ _ _

theorem Stable.finish (h : Stable p Q) (hw : Q w) (what : Bytes) : Q (World.finish what w p).2 := by
  rw [World.finish]
  split_ifs <;> exact h.readCompletion hw

theorem Stable.expect (h : Stable p Q) (hw : Q w) (cmd what : Bytes) (codes : List Nat)
    {next : World → Bytes × World} (hnext : ∀ w, Q w → Q (next w).2) :
    Q (w.expect p cmd what codes next).2 := by
  rw [World.expect]
  split_ifs
  · exact hnext _ (h.sendCmd hw cmd)
  · exact h.sendCmd hw cmd

theorem Stable.login (h : Stable p Q) (hw : Q w) (cfg : ConnectConfig) : Q (w.login cfg p).2 := by
  have htyped : ∀ w, Q w → Q (w.expect p (ascii "TYPE I") (ascii "TYPE I") [200] fun w =>
      if w.client.useTls then
        w.expect p (ascii "PBSZ 0") (ascii "PBSZ") [200] fun w =>
          w.expect p (ascii "PROT P") (ascii "PROT P") [200] fun w => ([], w)
      else ([], w)).2 := by
    intro w hw
    apply h.expect hw
    intro w hw
    split_ifs
    · apply h.expect hw
      intro w hw
      exact h.expect hw _ _ _ fun w hw => hw
    · exact hw
  have huser := h.sendCmd hw (ascii "USER " ++ cfg.username)
  rw [World.login]
  dsimp only
  split_ifs
  · exact h.expect huser _ _ _ htyped
  · exact htyped _ huser
  · exact huser

theorem Stable.openDataTcp (h : Stable p Q) (hw : Q w) : Q (w.openDataTcp p).2 := by
  have hpasv := h.sendCmd hw (ascii "PASV")
  rw [World.openDataTcp]
  split_ifs
  · exact hpasv
  · cases pasvPort (replyBody (w.sendCmd p (ascii "PASV")).1) with
    | error err => exact hpasv
    | ok port =>
        dsimp only
        split_ifs <;> exact hpasv

theorem Stable.startTransfer (h : Stable p Q) (hw : Q w) (what cmd : Bytes) :
    Q (w.startTransfer p what cmd).2 := by
  have hopen := h.openDataTcp hw
  rw [World.startTransfer]
  cases hdata : w.openDataTcp p with
  | mk err w' =>
      rw [hdata] at hopen
      cases err with
      | some err => exact hopen
      | none =>
          have hsent := h.sendCmd hopen cmd
          dsimp only
          split_ifs
          · exact hsent
          · cases (w'.sendCmd p cmd).2.wrapDataTls p <;> exact hsent
          · exact hsent

/-- The operations on a control connection keep what commands and replies keep, if the bytes of a
transfer do so too. -/
theorem Stable.run (h : Stable p Q) (hw : Q w) {op : Op} (hconnect : ∀ cfg, op ≠ .connect cfg)
    (hquit : op ≠ .quit)
    (hdata : ∀ cmd what checks w', op.transfer = some cmd →
      w.startTransfer p what cmd = (.open checks, w') → ∀ data,
        (w'.client.useTls = true → data = op.dataBytes p) → Q (w'.dataCarried checks data)) :
    Q (w.run p op) := by
  have hlisting : ∀ path, op.transfer = some (listCommand path) →
      op.dataBytes p = (readListing true p.dataReads).1 → Q (w.fetchListing p path).2.2 := by
    intro path htransfer hbytes
    have hstart := h.startTransfer hw (ascii "LIST") (listCommand path)
    rw [World.fetchListing]
    cases hs : w.startTransfer p (ascii "LIST") (listCommand path) with
    | mk started w' =>
        rw [hs] at hstart
        cases started with
        | refused err => exact hstart
        | tlsFailed err => exact hstart
        | «open» checks =>
            have hmoved := hdata _ _ checks w' htransfer hs (readListing w'.client.useTls p.dataReads).1
              (fun htls => by rw [htls, hbytes])
            dsimp only
            split_ifs <;> exact h.readCompletion hmoved
  cases op with
  | connect cfg => exact absurd rfl (hconnect cfg)
  | stor localPath file remotePath progress =>
      cases file with
      | none => exact hw
      | some file =>
          rw [World.run, World.stor]
          have hstart := h.startTransfer hw (ascii "STOR") (ascii "STOR " ++ remotePath)
          dsimp only
          cases hs : w.startTransfer p (ascii "STOR") (ascii "STOR " ++ remotePath) with
          | mk started w' =>
              rw [hs] at hstart
              cases started with
              | refused err => exact hstart
              | tlsFailed err => exact hstart
              | «open» checks =>
                  have hmoved := hdata _ _ checks w' rfl hs
                    (sendFile w'.client.useTls progress file.size file.reads p.dataSends 0 none).data
                    (fun htls => by rw [htls]; rfl)
                  dsimp only
                  split
                  · exact hmoved
                  · exact hmoved
                  · exact h.finish hmoved _
  | list path => exact hlisting path rfl rfl
  | listEntries path => exact hlisting path rfl rfl
  | retr remotePath sink =>
      have hstart := h.startTransfer hw (ascii "RETR") (ascii "RETR " ++ remotePath)
      rw [World.run, World.retr]
      cases hs : w.startTransfer p (ascii "RETR") (ascii "RETR " ++ remotePath) with
      | mk started w' =>
          rw [hs] at hstart
          cases started with
          | refused err => exact hstart
          | tlsFailed err => exact hstart
          | «open» checks =>
              have hmoved := hdata _ _ checks w' rfl hs
                (drain w'.client.useTls sink [] p.dataReads).1.flatten (fun htls => by rw [htls]; rfl)
              have hend := h.finish hmoved (ascii "RETR")
              dsimp only
              split
              · exact hend
              · exact hend
              · exact hend
  | size remotePath =>
      have hsent := h.sendCmd hw (ascii "SIZE " ++ remotePath)
      rw [World.run, World.size]
      split_ifs
      · exact hsent
      · cases World.strtoull (World.sizeText
          (replyBody (w.sendCmd p (ascii "SIZE " ++ remotePath)).1)) <;> exact hsent
  | dele remotePath =>
      have hsent := h.sendCmd hw (ascii "DELE " ++ remotePath)
      rw [World.run, World.dele]
      split_ifs <;> exact hsent
  | cwd path =>
      have hsent := h.sendCmd hw (ascii "CWD " ++ path)
      rw [World.run, World.cwd]
      split_ifs <;> exact hsent
  | quit => exact absurd rfl hquit

theorem Stable.quit (h : Stable p Q) (hw : Q w) : ∃ w', Q w' ∧ w.quit p =
    { w' with client := { w'.client with ctrlSsl := none, ctrlFd := none, ctx := none } } := by
  refine ⟨_, ?_, rfl⟩
  split_ifs
  · exact h.read (h.write hw _)
  · exact hw

end Stable

/-! ## Connections that are checked -/

/-- What is known of a connection while verification is enabled. -/
structure Conn.Verified (c : Conn) : Prop where
  verifies : c.wrapped = true → c.verifies = true
  chain : c.wrapped = true → c.secure = true → c.chain = true
  named : c.name = true → c.secure = true
  silent : c.wrapped = true → c.secure = false → c.wire = []

structure Guarded (w : World) : Prop where
  ssl : ∀ i, w.client.ctrlSsl = some i → i < w.next ∧ (w.conns i).wrapped = true
  verified : ∀ i, (w.conns i).Verified
  checked : AllChecked w

/-- The name check of the control connection has succeeded. -/
structure Trusted (w : World) : Prop extends Guarded w where
  name : ∀ i, w.channel = some i → (w.conns i).wrapped = true → (w.conns i).name = true

/-- The handshake of the control connection is not done, and does not come to its end. -/
structure Mute (p : Printer) (w : World) : Prop extends Guarded w where
  unfinished : ∃ i, w.channel = some i ∧ (w.conns i).wrapped = true ∧ (w.conns i).secure = false
  late : (p.late.completes && p.late.chain) = false

/-- Only what is on the wires changes, and the control connection stays the same. -/
structure SameChecks (w w' : World) : Prop where
  channel : w'.channel = w.channel
  conns : ∀ j, ∃ wire, w'.conns j = { w.conns j with wire := wire }

theorem SameChecks.refl (w : World) : SameChecks w w := ⟨rfl, fun j => ⟨(w.conns j).wire, rfl⟩⟩

theorem SameChecks.setWire (w : World) (i : Nat) (wire : Bytes) :
    SameChecks w (w.setConn i { w.conns i with wire := wire }) := by
  refine ⟨World.channel_setConn w i _ rfl, ?_⟩
  intro j
  by_cases hj : j = i
  · subst hj
    exact ⟨wire, World.setConn_self w j _⟩
  · exact ⟨(w.conns j).wire, World.setConn_other w i _ hj⟩

theorem Guarded.setWire {w : World} (h : Guarded w) {i : Nat} {wire : Bytes}
    (hwire : (w.conns i).wrapped = true → (w.conns i).secure = false → wire = []) :
    Guarded (w.setConn i { w.conns i with wire := wire }) := by
  refine ⟨?_, ?_, h.checked⟩
  · intro j hj
    obtain ⟨x, hx⟩ := (SameChecks.setWire w i wire).conns j
    rw [hx]
    exact h.ssl j hj
  · intro j
    by_cases hj : j = i
    · subst hj
      rw [World.setConn_self]
      exact { h.verified j with silent := hwire }
    · rw [World.setConn_other w i _ hj]
      exact h.verified j

/-- What else changes of the state does not matter. -/
theorem Guarded.same {w w' : World} (h : Guarded w) (hssl : w'.client.ctrlSsl = w.client.ctrlSsl)
    (hconns : w'.conns = w.conns) (hnext : w'.next = w.next) (htrace : AllChecked w') : Guarded w' := by
  refine ⟨?_, ?_, htrace⟩
  · rw [hssl, hconns, hnext]
    exact h.ssl
  · rw [hconns]
    exact h.verified

theorem AllChecked.carried {w : World} (h : Guarded w) {i : Nat}
    (hname : (w.conns i).wrapped = true → (w.conns i).name = true) : AllChecked (w.carried i) := by
  rw [World.carried]
  split_ifs with hwrapped
  · intro c hc
    rcases List.mem_cons.1 hc with rfl | hc
    · have hn := hname hwrapped
      exact ⟨(h.verified i).chain hwrapped ((h.verified i).named hn), hn⟩
    · exact h.checked c hc
  · exact h.checked

/-- Application bytes on a connection whose checks have succeeded. -/
theorem Guarded.carried {w : World} (h : Guarded w) {i : Nat}
    (hname : (w.conns i).wrapped = true → (w.conns i).name = true) : Guarded (w.carried i) := by
  have htrace := AllChecked.carried h hname
  obtain ⟨t, ht⟩ := w.carried_eq i
  rw [ht] at htrace ⊢
  exact h.same (by rfl) (by rfl) (by rfl) htrace

/-- A handshake that is done, or that does not come to its end. -/
theorem finishTls_stays {w : World} (h : Guarded w) {p : Printer} {i : Nat}
    (hdone : (w.conns i).wrapped = true →
      (w.conns i).secure = true ∨ (p.late.completes && p.late.chain) = false) : w.finishTls p i = w := by
  rw [World.finishTls]
  apply if_neg
  cases hwrapped : (w.conns i).wrapped with
  | false => simp
  | true =>
      rcases hdone hwrapped with hsecure | hlate
      · simp [hsecure]
      · rw [(h.verified i).verifies hwrapped]
        revert hlate
        cases p.late.completes <;> cases p.late.chain <;> simp

/-- A write keeps the state guarded where the name has been checked, or nothing goes out. -/
theorem Guarded.ctrlWrite {w : World} (h : Guarded w) {p : Printer} (wire : Bytes)
    (hvetted : ∀ i, w.channel = some i → (w.conns i).wrapped = true →
      (w.conns i).name = true ∨ (w.conns i).secure = false ∧ (p.late.completes && p.late.chain) = false) :
    Guarded (w.ctrlWrite p wire).2 ∧ SameChecks w (w.ctrlWrite p wire).2 := by
  rw [World.ctrlWrite]
  cases hc : w.channel with
  | none => exact ⟨h, .refl w⟩
  | some i =>
      have hstays : w.finishTls p i = w := by
        apply finishTls_stays h
        intro hwrapped
        exact (hvetted i hc hwrapped).imp ((h.verified i).named) And.right
      dsimp only
      rw [hstays]
      by_cases hopen : ((w.conns i).wrapped && !(w.conns i).secure) = true
      · rw [if_pos hopen]
        exact ⟨h, .refl w⟩
      · rw [if_neg hopen]
        have hname : (w.conns i).wrapped = true → (w.conns i).name = true := by
          intro hwrapped
          rcases hvetted i hc hwrapped with hname | ⟨hsecure, -⟩
          · exact hname
          · exact absurd (by rw [hwrapped, hsecure]; rfl) hopen
        obtain ⟨t, ht, hchecked⟩ : ∃ t, (if (writeAll w.client.useTls (p.sends wire) wire).data = [] then w
            else w.carried i) = { w with trace := t } ∧ AllChecked { w with trace := t } := by
          split_ifs
          · exact ⟨w.trace, rfl, h.checked⟩
          · obtain ⟨t, ht⟩ := w.carried_eq i
            exact ⟨t, ht, ht ▸ AllChecked.carried h hname⟩
        have hmoved : Guarded { w with trace := t } := h.same (by rfl) (by rfl) (by rfl) hchecked
        rw [ht]
        split_ifs
        · constructor
          · apply hmoved.setWire
            intro hwrapped hsecure
            cases hsecure.symm.trans ((h.verified i).named (hname hwrapped))
          · have hsame := SameChecks.setWire { w with trace := t } i
              ((w.conns i).wire ++ (commandLines wire).flatMap p.replies)
            exact ⟨hsame.channel.trans rfl, hsame.conns⟩
        · exact ⟨hmoved, rfl, (SameChecks.refl w).conns⟩

theorem Ctrl.read_wire (c : Ctrl) : c.read.2.wire <:+ c.wire := by
  unfold Ctrl.read
  split
  · exact List.suffix_refl _
  · exact List.suffix_refl _
  · rename_i b bs _ hwire
    rw [hwire]
    exact (List.drop_suffix _ _).trans (List.suffix_cons b bs)
  · rename_i b bs _ hwire
    rw [hwire]
    exact (List.drop_suffix _ _).trans (List.suffix_cons b bs)

/-- What is left on the wire behind a line, and behind a reply. -/
theorem readLine_wire (c : Ctrl) : (readLine c).2.wire <:+ c.wire := by
  fun_induction readLine c with
  | case1 c line rest hcut => exact List.suffix_refl _
  | case2 c hcut c' hread =>
      have h := c.read_wire
      rw [hread] at h
      exact h
  | case3 c hcut got c' hread ih =>
      obtain ⟨-, hwire, -, -⟩ := Ctrl.read_some hread
      rw [hwire]
      exact ih.trans (List.suffix_append _ _)

theorem readReply_wire (c : Ctrl) (accumulated : Bytes) :
    (Ftps.readReply c accumulated).2.wire <:+ c.wire := by
  fun_induction Ftps.readReply c accumulated with
  | case1 c accumulated c' hline =>
      have h := readLine_wire c
      rw [hline] at h
      exact h
  | case2 c accumulated line c' hline code hcode =>
      have h := readLine_wire c
      rw [hline] at h
      exact h
  | case3 c accumulated line c' hline hcode ih =>
      have h := readLine_wire c
      rw [hline] at h
      exact ih.trans h

/-- A reply keeps the state guarded where the name has been checked, or nothing comes. -/
theorem Guarded.readReply {w : World} (h : Guarded w)
    (hvetted : ∀ i, w.channel = some i → (w.conns i).wrapped = true →
      (w.conns i).name = true ∨ (w.conns i).secure = false) :
    Guarded w.readReply.2 ∧ SameChecks w w.readReply.2 := by
  have hsuffix := readReply_wire w.ctrl []
  rw [World.readReply]
  dsimp only
  generalize (Ftps.readReply w.ctrl []).2 = c at hsuffix ⊢
  have hbase : Guarded { w with client := { w.client with ctrlBuf := c.buf }, arrivals := c.arrivals } :=
    h.same (by rfl) (by rfl) (by rfl) h.checked
  rw [World.putCtrl]
  cases hc : w.channel with
  | none => exact ⟨hbase, rfl, (SameChecks.refl w).conns⟩
  | some i =>
      have hwire : w.ctrl.wire = (w.conns i).wire := by
        rw [World.ctrl, hc]
        rfl
      rw [hwire] at hsuffix
      have hsilent : (w.conns i).wrapped = true → (w.conns i).secure = false → c.wire = [] := by
        intro hwrapped hsecure
        rw [(h.verified i).silent hwrapped hsecure] at hsuffix
        exact List.suffix_nil.1 hsuffix
      have hleft := @Guarded.setWire _ hbase i c.wire hsilent
      have hsame : SameChecks w (World.setConn
          { w with client := { w.client with ctrlBuf := c.buf }, arrivals := c.arrivals } i
          { w.conns i with wire := c.wire }) := by
        have hset := SameChecks.setWire
          { w with client := { w.client with ctrlBuf := c.buf }, arrivals := c.arrivals } i c.wire
        exact ⟨hset.channel.trans rfl, hset.conns⟩
      dsimp only
      split_ifs with heq
      · exact ⟨hleft, hsame⟩
      · have hname : (w.conns i).wrapped = true → (w.conns i).name = true := by
          intro hwrapped
          rcases hvetted i hc hwrapped with hname | hsecure
          · exact hname
          · exact absurd ((hsilent hwrapped hsecure).trans ((h.verified i).silent hwrapped hsecure).symm) heq
        constructor
        · apply hleft.carried
          rw [World.setConn_self]
          exact hname
        · obtain ⟨t, ht⟩ := World.carried_eq (World.setConn
            { w with client := { w.client with ctrlBuf := c.buf }, arrivals := c.arrivals } i
            { w.conns i with wire := c.wire }) i
          rw [ht]
          exact ⟨hsame.channel, hsame.conns⟩

/-! ## What operations keep -/

theorem Guarded.record {w : World} (h : Guarded w) (command : Option Bytes) (reply : Reply)
    (returned : Option (Nat × Bytes)) : Guarded (w.record command reply returned) :=
  h.same (by rfl) (by rfl) (by rfl) h.checked

theorem Trusted.of_same {w w' : World} (h : Trusted w) (hg : Guarded w') (hsame : SameChecks w w') :
    Trusted w' := by
  refine ⟨hg, ?_⟩
  intro i hc
  obtain ⟨wire, hconn⟩ := hsame.conns i
  rw [hconn]
  exact h.name i (hsame.channel ▸ hc)

theorem Trusted.stable_on (p : Printer) (channel : Option Nat) :
    Stable p fun w => Trusted w ∧ w.channel = channel where
  write h wire :=
    have hkept := h.1.toGuarded.ctrlWrite wire fun i hc hwrapped => .inl (h.1.name i hc hwrapped)
    ⟨h.1.of_same hkept.1 hkept.2, hkept.2.channel.trans h.2⟩
  read h :=
    have hkept := h.1.toGuarded.readReply fun i hc hwrapped => .inl (h.1.name i hc hwrapped)
    ⟨h.1.of_same hkept.1 hkept.2, hkept.2.channel.trans h.2⟩
  record h command reply returned :=
    ⟨⟨h.1.toGuarded.record command reply returned, h.1.name⟩, h.2⟩

theorem Trusted.stable (p : Printer) : Stable p Trusted where
  write {w} h wire := ((Trusted.stable_on p w.channel).write ⟨h, rfl⟩ wire).1
  read {w} h := ((Trusted.stable_on p w.channel).read ⟨h, rfl⟩).1
  record {w} h command reply returned :=
    ((Trusted.stable_on p w.channel).record ⟨h, rfl⟩ command reply returned).1

theorem Mute.of_same {p : Printer} {w w' : World} (h : Mute p w) (hg : Guarded w')
    (hsame : SameChecks w w') : Mute p w' := by
  obtain ⟨i, hc, hwrapped, hsecure⟩ := h.unfinished
  obtain ⟨wire, hconn⟩ := hsame.conns i
  exact ⟨hg, ⟨i, hsame.channel.trans hc, by rw [hconn]; exact hwrapped, by rw [hconn]; exact hsecure⟩,
    h.late⟩

theorem Mute.silent_on {p : Printer} {w : World} (h : Mute p w) {i : Nat} (hc : w.channel = some i) :
    (w.conns i).secure = false := by
  obtain ⟨j, hj, -, hsecure⟩ := h.unfinished
  obtain rfl := Option.some.inj (hc.symm.trans hj)
  exact hsecure

theorem Mute.stable (p : Printer) : Stable p (Mute p) where
  write h wire :=
    have hkept := h.toGuarded.ctrlWrite wire fun _ hc _ => .inr ⟨h.silent_on hc, h.late⟩
    h.of_same hkept.1 hkept.2
  read h :=
    have hkept := h.toGuarded.readReply fun _ hc _ => .inr (h.silent_on hc)
    h.of_same hkept.1 hkept.2
  record h command reply returned :=
    ⟨h.toGuarded.record command reply returned, h.unfinished, h.late⟩

/-- No command goes out while the handshake is not done. -/
theorem Mute.sendCmd {p : Printer} {w : World} (h : Mute p w) (cmd : Bytes) :
    (w.sendCmd p cmd).1 = none := by
  obtain ⟨i, hc, hwrapped, hsecure⟩ := h.unfinished
  have hstays : w.finishTls p i = w :=
    finishTls_stays h.toGuarded fun _ => .inr h.late
  have hwrite : w.ctrlWrite p (cmd ++ crlf) = (false, w) := by
    rw [World.ctrlWrite, hc]
    dsimp only
    rw [hstays, hwrapped, hsecure]
    rfl
  rw [World.sendCmd, hwrite]

/-- A transfer does not open without a reply to its commands. -/
theorem Mute.startTransfer {p : Printer} {w w' : World} (h : Mute p w) {what cmd : Bytes}
    {checks : Option Checks} : w.startTransfer p what cmd ≠ (.open checks, w') := by
  have hpasv := h.sendCmd (ascii "PASV")
  intro hs
  rw [World.startTransfer, World.openDataTcp, hpasv] at hs
  cases hs

/-- What it takes for a transfer to open with TLS. -/
theorem startTransfer_open {p : Printer} {w w' : World} {what cmd : Bytes} {checks : Checks}
    (hs : w.startTransfer p what cmd = (.open (some checks), w')) :
    ∃ w₁, w.openDataTcp p = (none, w₁) ∧ (w₁.sendCmd p cmd).1 ≠ none ∧ w' = (w₁.sendCmd p cmd).2 ∧
      w'.client.useTls = true ∧ w'.wrapDataTls p = .ok checks := by
  rw [World.startTransfer] at hs
  cases hdata : w.openDataTcp p with
  | mk err w₁ =>
      rw [hdata] at hs
      cases err with
      | some err => cases hs
      | none =>
          dsimp only at hs
          split_ifs at hs with hcode htls
          · cases hs
          · cases hwrap : (w₁.sendCmd p cmd).2.wrapDataTls p with
            | error err =>
                rw [hwrap] at hs
                cases hs
            | ok c =>
                rw [hwrap] at hs
                obtain ⟨hc, rfl⟩ := Prod.mk.inj hs
                obtain rfl := Option.some.inj (Started.open.inj hc)
                refine ⟨w₁, rfl, ?_, rfl, htls, hwrap⟩
                intro hnone
                rw [hnone] at hcode
                exact hcode rfl
          · cases hs

/-- No command is answered where there is no control connection. -/
theorem sendCmd_unconnected {w : World} (p : Printer) (hc : w.channel = none) (cmd : Bytes) :
    (w.sendCmd p cmd).1 = none := by
  rw [World.sendCmd, World.ctrlWrite, hc]

theorem Trusted.wrapDataTls {p : Printer} {w : World} (h : Trusted w) (hconnected : w.channel ≠ none)
    (htls : w.client.useTls = true) (hresumes : p.dataTls.resumes = true) {checks : Checks}
    (hwrap : w.wrapDataTls p = .ok checks) : checks.chain = true ∧ checks.name = true := by
  have hchannel : w.channel = w.client.ctrlSsl := by rw [World.channel, if_pos htls]
  cases hssl : w.client.ctrlSsl with
  | none => exact absurd (hchannel.trans hssl) hconnected
  | some i =>
      have hwrapped := (h.ssl i hssl).2
      have hname := h.name i (hchannel.trans hssl) hwrapped
      have hchain := (h.verified i).chain hwrapped ((h.verified i).named hname)
      have hchecks : ∀ verifies, w.dataChecks p verifies = ⟨true, true⟩ := by
        intro verifies
        rw [World.dataChecks, hssl]
        simp only [hresumes, if_true, hchain, hname]
      rw [World.wrapDataTls] at hwrap
      cases hctx : w.client.ctx with
      | none =>
          rw [hctx] at hwrap
          cases hwrap
      | some verifies =>
          rw [hctx] at hwrap
          dsimp only at hwrap
          split_ifs at hwrap
          obtain rfl := Except.ok.inj hwrap
          rw [hchecks]
          exact ⟨rfl, rfl⟩

/-- The data connection of a transfer that has opened has the checks of the control connection if it
resumes the session of it. -/
theorem Trusted.startTransfer {p : Printer} {w w' : World} (h : Trusted w) {what cmd : Bytes}
    {checks : Checks} (hs : w.startTransfer p what cmd = (.open (some checks), w'))
    (hresumes : p.dataTls.resumes = true) : checks.chain = true ∧ checks.name = true := by
  have hopen := (Trusted.stable p).openDataTcp h
  obtain ⟨w₁, hdata, hanswered, rfl, htls, hwrap⟩ := startTransfer_open hs
  rw [hdata] at hopen
  obtain ⟨hsent, hchannel⟩ := (Trusted.stable_on p w₁.channel).sendCmd ⟨hopen, rfl⟩ cmd
  apply hsent.wrapDataTls _ htls hresumes hwrap
  rw [hchannel]
  intro hnone
  exact hanswered (sendCmd_unconnected p hnone cmd)

/-! ## Connecting -/

/-- A connection may be replaced by one that is verified, and become the one of the SSL object. -/
theorem Guarded.setConn {w w' : World} (h : Guarded w) {i : Nat} {c : Conn} (hc : c.Verified)
    (hconns : w'.conns = w.conns) (htrace : w'.trace = w.trace)
    (hssl : ∀ j, w'.client.ctrlSsl = some j →
      j < w'.next ∧ if j = i then c.wrapped = true else w.client.ctrlSsl = some j) :
    Guarded (w'.setConn i c) := by
  refine ⟨?_, ?_, ?_⟩
  · intro j hj
    obtain ⟨hnext, hwrapped⟩ := hssl j hj
    refine ⟨hnext, ?_⟩
    split_ifs at hwrapped with heq
    · rw [heq, World.setConn_self]
      exact hwrapped
    · rw [World.setConn_other w' i c heq, hconns]
      exact (h.ssl j hwrapped).2
  · intro j
    by_cases heq : j = i
    · rw [heq, World.setConn_self]
      exact hc
    · rw [World.setConn_other w' i c heq, hconns]
      exact h.verified j
  · intro c hc
    exact h.checked c (htrace ▸ hc)

/-- The TLS part of `connect_transport` leaves a guarded state, and where it succeeds a trusted one. -/
theorem Guarded.startTls {w : World} (h : Guarded w) {p : Printer} (hverify : p.verifyEnabled = true)
    (cfg : ConnectConfig) {i : Nat} (hi : i < w.next) (hnew : w.conns i = Conn.new)
    (htls : w.client.useTls = true) :
    Guarded (w.startTls cfg p i).2 ∧
      ((w.startTls cfg p i).1 = none → Trusted (w.startTls cfg p i).2) := by
  have hclient : ∀ ctx, Guarded { w with client := { w.client with ctx := ctx } } :=
    fun _ => h.same (by rfl) (by rfl) (by rfl) h.checked
  have hwrapped : ∀ c : Conn, c.wrapped = true → c.Verified → Guarded (World.setConn
      { w with client := { w.client with ctx := some true, ctrlSsl := some i } } i c) := by
    intro c hc hverified
    apply h.setConn hverified (by rfl) (by rfl)
    intro j hj
    obtain rfl := Option.some.inj hj
    exact ⟨hi, by rw [if_pos rfl]; exact hc⟩
  rw [World.startTls]
  dsimp only
  rw [hverify, Bool.true_and]
  by_cases hname : cfg.tlsVerifyHostname = []
  · rw [if_pos (by simp [hname])]
    exact ⟨h, nofun⟩
  rw [if_neg (by simp [hname])]
  have hwant : (decide (cfg.tlsVerifyHostname ≠ [])) = true := by simp [hname]
  rw [hwant, Bool.true_and]
  split_ifs with hca hctx hsetup hssl hshake
  · exact ⟨h, nofun⟩
  · exact ⟨hclient none, nofun⟩
  · exact ⟨hclient (some false), nofun⟩
  · exact ⟨⟨nofun, h.verified, h.checked⟩, nofun⟩
  · refine ⟨hwrapped _ rfl ?_, nofun⟩
    rw [hnew]
    exact ⟨fun _ => rfl, nofun, nofun, fun _ _ => rfl⟩
  · have hdone : ∀ name, Conn.Verified { w.conns i with
        wrapped := true, verifies := true, secure := true, chain := true, wire := p.greeting.bytes,
        name := name } :=
      fun _ => ⟨fun _ => rfl, fun _ _ => rfl, fun _ => rfl, nofun⟩
    cases herr : nameError true p.tls cfg.tlsVerifyHostname with
    | some verr => exact ⟨hwrapped _ rfl (hdone _), nofun⟩
    | none =>
        refine ⟨hwrapped _ rfl (hdone true), fun _ => ⟨hwrapped _ rfl (hdone true), ?_⟩⟩
        intro j hj _
        rw [World.channel, World.setConn_client, if_pos htls] at hj
        obtain rfl := Option.some.inj hj
        rw [World.setConn_self]

/-- A new TCP connection. -/
theorem Guarded.place {w w' : World} (h : Guarded w) {c : Conn} (hwrapped : c.wrapped = false)
    (hname : c.name = false) (hconns : w'.conns = w.conns) (htrace : w'.trace = w.trace)
    (hssl : w'.client.ctrlSsl = w.client.ctrlSsl) (hnext : w'.next = w.next + 1) :
    Guarded (w'.setConn w.next c) := by
  have hplain : c.wrapped = true → False := fun hw => Bool.false_ne_true (hwrapped.symm.trans hw)
  have hunnamed : c.name = true → False := fun hn => Bool.false_ne_true (hname.symm.trans hn)
  apply h.setConn ⟨fun hw => (hplain hw).elim, fun hw => (hplain hw).elim, fun hn => (hunnamed hn).elim,
    fun hw => (hplain hw).elim⟩ hconns htrace
  intro j hj
  have hlt := (h.ssl j (hssl ▸ hj)).1
  refine ⟨by omega, ?_⟩
  rw [if_neg (by omega)]
  exact hssl ▸ hj

/-- The banner is read on a trusted connection. -/
theorem Trusted.banner {w : World} (h : Trusted w) (p : Printer) (i : Nat) : Trusted (w.banner i).2 := by
  have hread := (Trusted.stable p).read h
  have hgreeted : Trusted (if w.readReply.1.isSome then
      w.readReply.2.setConn i { w.readReply.2.conns i with greeted := true } else w.readReply.2) := by
    split_ifs
    · refine ⟨?_, ?_⟩
      · refine Guarded.setConn hread.toGuarded ?_ rfl rfl ?_
        · obtain ⟨hverifies, hchain, hnamed, hsilent⟩ := hread.verified i
          exact ⟨hverifies, hchain, hnamed, hsilent⟩
        · intro j hj
          refine ⟨(hread.ssl j hj).1, ?_⟩
          split_ifs with heq
          · exact heq ▸ (hread.ssl j hj).2
          · exact hj
      · intro j hj
        have hchannel := World.channel_setConn w.readReply.2 i
          { w.readReply.2.conns i with greeted := true } rfl
        have hname := hread.name j (hchannel ▸ hj)
        by_cases heq : j = i
        · subst heq
          rw [World.setConn_self]
          exact hname
        · rw [World.setConn_other _ _ _ heq]
          exact hname
    · exact hread
  rw [World.banner]
  dsimp only
  split_ifs at hgreeted ⊢ <;> exact hgreeted

theorem startTls_error {w : World} {cfg : ConnectConfig} {p : Printer} {i : Nat} :
    (w.startTls cfg p i).1 ≠ some [] := by
  rw [World.startTls]
  dsimp only
  generalize nameError _ p.tls cfg.tlsVerifyHostname = verr
  cases verr with
  | none =>
      split_ifs
      all_goals simp [ascii]
  | some verr =>
      split_ifs
      all_goals simp [ascii]

/-- Over a TCP connection that is there. -/
theorem Guarded.greet {w w' : World} (h : Guarded w) {p : Printer} (hverify : p.verifyEnabled = true)
    (cfg : ConnectConfig) {r : Bytes × World}
    (hr : (if cfg.useTls = true then
      match (w'.setConn w.next Conn.new).startTls cfg p w.next with
      | (some err, w) => (err, w)
      | (none, w'') => w''.banner w.next
      else (w'.setConn w.next { Conn.new with wire := p.greeting.bytes }).banner w.next) = r)
    (hconns : w'.conns = w.conns) (htrace : w'.trace = w.trace)
    (hssl : w'.client.ctrlSsl = w.client.ctrlSsl) (hnext : w'.next = w.next + 1)
    (huse : w'.client.useTls = cfg.useTls) (hfd : w'.client.ctrlFd = some w.next) :
    Guarded r.2 ∧ (r.1 = [] → Trusted r.2) := by
  split_ifs at hr with htls
  · have hstart := (h.place (c := Conn.new) rfl rfl hconns htrace hssl hnext).startTls hverify
      cfg (i := w.next) (by rw [World.setConn_next]; omega) (World.setConn_self _ _ _)
      (huse.trans htls)
    have herr := @startTls_error (w'.setConn w.next Conn.new) cfg p w.next
    cases htransport : (w'.setConn w.next Conn.new).startTls cfg p w.next with
    | mk err w'' =>
        rw [htransport] at hr hstart herr
        cases err with
        | some err =>
            subst hr
            exact ⟨hstart.1, fun hnil => absurd (congrArg some hnil) herr⟩
        | none =>
            have hread := (hstart.2 rfl).banner p w.next
            subst hr
            exact ⟨hread.toGuarded, fun _ => hread⟩
  · have hplain : Trusted (w'.setConn w.next { Conn.new with wire := p.greeting.bytes }) := by
      refine ⟨h.place rfl rfl hconns htrace hssl hnext, ?_⟩
      intro j hj hwrapped
      rw [World.channel, World.setConn_client, if_neg (by rw [huse]; exact htls), hfd] at hj
      obtain rfl := Option.some.inj (Option.filter_eq_some_iff.1 hj).1
      rw [World.setConn_self] at hwrapped
      cases hwrapped
    have hread := hplain.banner p w.next
    subst hr
    exact ⟨hread.toGuarded, fun _ => hread⟩

/-- `connect_transport` too leaves a guarded state, and where it succeeds a trusted one. -/
theorem Guarded.connectTransport {w : World} (h : Guarded w) {p : Printer}
    (hverify : p.verifyEnabled = true) (cfg : ConnectConfig) :
    Guarded (w.connectTransport cfg p).2 ∧
      ((w.connectTransport cfg p).1 = [] → Trusted (w.connectTransport cfg p).2) := by
  rw [World.connectTransport]
  dsimp only
  by_cases htcp : (!p.tcp) = true
  · rw [if_pos htcp]
    refine ⟨h.same (by rfl) (by rfl) (by rfl) h.checked, ?_⟩
    intro hnil
    simp [ascii] at hnil
  rw [if_neg htcp]
  exact h.greet hverify cfg (by rfl) (by rfl) (by rfl) (by rfl) (by rfl) (by rfl) (by rfl)

theorem Guarded.connect {w : World} (h : Guarded w) {p : Printer} (hverify : p.verifyEnabled = true)
    (cfg : ConnectConfig) : Guarded (w.connect cfg p).2 := by
  obtain ⟨hguarded, htrusted⟩ := h.connectTransport hverify cfg
  rw [World.connect]
  cases htransport : w.connectTransport cfg p with
  | mk err w' =>
      rw [htransport] at hguarded htrusted
      cases err with
      | nil => exact ((Trusted.stable p).login (htrusted rfl) cfg).toGuarded
      | cons b err => exact hguarded

/-! ## Runs -/

/-- Where the control connection is vetted, it is trusted or mute. -/
theorem Guarded.trusted_or_mute {w : World} (h : Guarded w) {p : Printer} (hv : Vetted w p) :
    Trusted w ∨ Mute p w := by
  by_cases hnamed : ∀ i, w.channel = some i → (w.conns i).wrapped = true → (w.conns i).name = true
  · exact .inl ⟨h, hnamed⟩
  · right
    push Not at hnamed
    obtain ⟨i, hc, hwrapped, hname⟩ := hnamed
    rcases hv i hc hwrapped with hn | ⟨hsecure, hlate⟩
    · exact absurd hn hname
    · exact ⟨h, ⟨i, hc, hwrapped, hsecure⟩, hlate⟩

theorem Guarded.closed {w : World} (h : Guarded w) : Guarded { w with
    client := { w.client with ctrlSsl := none, ctrlFd := none, ctx := none } } :=
  ⟨nofun, h.verified, h.checked⟩

theorem Stable.closed {p : Printer} {Q : World → Prop} {w : World} (h : Stable p Q) (hw : Q w)
    (hguarded : ∀ {w}, Q w → Guarded w) : Guarded (w.quit p) := by
  obtain ⟨w', hw', hquit⟩ := h.quit hw
  rw [hquit]
  exact (hguarded hw').closed

theorem Trusted.dataCarried {w : World} (h : Trusted w) {checks : Option Checks} {data : Bytes}
    (hchecked : ∀ c, checks = some c → data ≠ [] → c.chain = true ∧ c.name = true) :
    Trusted (w.dataCarried checks data) := by
  cases checks with
  | none => exact h
  | some c =>
      rw [World.dataCarried]
      split_ifs with hdata
      · exact h
      · refine ⟨h.same (by rfl) (by rfl) (by rfl) ?_, h.name⟩
        intro x hx
        rcases List.mem_cons.1 hx with rfl | hx
        · exact hchecked x rfl hdata
        · exact h.checked x hx

theorem Guarded.step {w : World} (h : Guarded w) {e : Event} (hverify : e.printer.verifyEnabled = true)
    (hv : Vouched w e) : Guarded (Ftps.step w e) := by
  obtain ⟨op, p⟩ := e
  have hbegin : Guarded (w.begin p) := h.same (by rfl) (by rfl) (by rfl) h.checked
  rw [Ftps.step]
  dsimp only
  by_cases hspeaks : op.speaks = true
  · have hconnect : ∀ cfg, op ≠ .connect cfg := by
      intro cfg heq
      subst heq
      cases hspeaks
    rcases hbegin.trusted_or_mute (hv.1 hspeaks) with htrusted | hmute
    · by_cases hquit : op = .quit
      · subst hquit
        exact (Trusted.stable p).closed htrusted fun h => h.toGuarded
      · apply Trusted.toGuarded
        apply (Trusted.stable p).run htrusted hconnect hquit
        intro cmd what checks w' htransfer hs data hdata
        have hopened := (Trusted.stable p).startTransfer htrusted what cmd
        rw [hs] at hopened
        apply hopened.dataCarried
        intro c hc hne
        subst hc
        rcases hv.2 cmd what c w' htransfer hs with hresumes | hnone
        · exact htrusted.startTransfer hs hresumes
        · obtain ⟨-, -, -, -, htls, -⟩ := startTransfer_open hs
          exact absurd ((hdata htls).trans hnone) hne
    · by_cases hquit : op = .quit
      · subst hquit
        exact (Mute.stable p).closed hmute fun h => h.toGuarded
      · apply Mute.toGuarded
        apply (Mute.stable p).run hmute hconnect hquit
        intro cmd what checks w' _ hs
        exact absurd hs hmute.startTransfer
  · cases op with
    | connect cfg => exact hbegin.connect hverify cfg
    | stor localPath file remotePath progress =>
        cases file with
        | none => exact hbegin
        | some file => exact absurd rfl hspeaks
    | _ => exact absurd rfl hspeaks

theorem guarded_start : Guarded World.start :=
  ⟨nofun, fun _ => ⟨nofun, nofun, nofun, nofun⟩, nofun⟩

end OpenBambu.Ftps
