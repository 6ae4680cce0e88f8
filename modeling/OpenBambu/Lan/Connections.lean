import OpenBambu.Ftps.Secured

/-!
# The TLS connections to a printer

`dial_tls` makes those of the :6000 tunnel and of the cameras, libmosquitto that of MQTT with what
`mqtt::Client::connect` has set, and the FTP client its own. A run is any order of dials, starts of a
LAN session, operations of FTP clients and bytes over what has been connected.
-/

namespace OpenBambu.Lan

open OpenBambu.Foundation
open OpenBambu.Ftps (Handshake Checks Vouched AllChecked)

/-- What turns verification off. -/
structure Settings where
  skipVerifyFromEnv : Bool
  lanTlsSkipVerify : Bool

/-- `lan_tls::verify_enabled`. -/
def Settings.verifyEnabled (s : Settings) : Bool := !(s.skipVerifyFromEnv || s.lanTlsSkipVerify)

/-! ## `dial_tls` -/

/-- The printer, the network and the calls of OpenSSL during one dial. -/
structure Dial where
  /-- `resolve_lan_ca_file` and `wait_env_serial`. -/
  caFile : Option Bytes
  envSerial : Option Bytes
  /-- `make_verify_ctx`, with its error; `g_ctx_insecure` is there. -/
  verifyCtx : Option Bytes
  insecureCtx : Bool
  tcp : Bool
  sslNew : Bool
  tls : Handshake
  /-- The texts of `dial` and of OpenSSL. -/
  errorText : Bytes

/-- The serial that the peer's name is compared with. -/
def Dial.serial (d : Dial) (expectedSerial : Bytes) : Bytes :=
  if expectedSerial ≠ [] then expectedSerial else d.envSerial.getD []

/-- `dial_tls`, with its error (of the one for a missing serial the beginning) or the checks of the
connection that it hands out. -/
def dialTls (s : Settings) (d : Dial) (expectedSerial : Bytes) : Except Bytes Checks :=
  let wantVerify := !s.skipVerifyFromEnv && !s.lanTlsSkipVerify
  if wantVerify && d.caFile.getD [] = [] then
    .error (ascii "OBN_LAN_TLS_CA_FILE not set (check obn.lan_tls.env in config dir)")
  else if wantVerify && d.serial expectedSerial = [] then .error (ascii "no serial for ")
  else if wantVerify && d.verifyCtx.isSome then .error (d.verifyCtx.getD [])
  else if !wantVerify && !d.insecureCtx then .error (ascii "SSL_CTX not initialized")
  else if !d.tcp then .error d.errorText
  else if !d.sslNew then .error (ascii "SSL_new: " ++ d.errorText)
  else if !(d.tls.completes && (!wantVerify || d.tls.chain)) then
    .error (ascii "SSL_connect: " ++ d.errorText)
  else if wantVerify && !(d.tls.certificate && d.tls.name) then .error (ascii "TLS hostname verify failed")
  else .ok ⟨wantVerify && d.tls.chain, wantVerify && d.tls.certificate && d.tls.name⟩

/-- What `dial_tls` hands out with verification has had both checks. -/
theorem dialTls_checked {s : Settings} (h : s.verifyEnabled = true) {d : Dial} {expectedSerial : Bytes}
    {c : Checks} (hdial : dialTls s d expectedSerial = .ok c) : c.chain = true ∧ c.name = true := by
  have hwant : (!s.skipVerifyFromEnv && !s.lanTlsSkipVerify) = true := by
    rw [← Bool.not_or]
    exact h
  rw [dialTls, hwant] at hdial
  split_ifs at hdial with hca hserial hctx hinsecure htcp hssl hshake hname
  obtain rfl := Except.ok.inj hdial
  constructor
  · revert hshake
    cases d.tls.completes <;> cases d.tls.chain <;> simp
  · revert hname
    cases d.tls.certificate <;> cases d.tls.name <;> simp

/-! ## MQTT -/

structure ConnectConfig where
  username : Bytes
  password : Bytes
  useTls : Bool
  caFile : Bytes
  tlsVerifyHostname : Bytes
  tlsInsecure : Bool
  tlsSkipChainVerify : Bool

/-- What libmosquitto has been told of TLS. -/
structure TlsSettings where
  verifyHostname : Option Bytes
  caFile : Option Bytes
  caPath : Option Bytes
  verifyPeer : Bool
  insecure : Bool

/-- What the calls of libmosquitto return, and the files of the machine. -/
structure Calls where
  usernamePwSet : Int
  tlsVerifyHostnameSet : Int
  tlsSet : Int
  tlsOptsSet : Int
  tlsInsecureSet : Int
  connectAsync : Int
  /-- `peer_cert_path_for_ip`, and `merged_trust_bundle_path` of it. -/
  peerCert : Option Bytes
  mergedTrustBundle : Bytes
  /-- The first of `kCaCandidates` that can be opened. -/
  caCandidate : Option Bytes

def MOSQ_ERR_TLS : Int := 8

/-- `mosquitto_connect_async`. -/
def Calls.connect (m : Calls) (settings : Option TlsSettings) : Except Int (Option TlsSettings) :=
  if m.connectAsync ≠ 0 then .error m.connectAsync else .ok settings

/-- The settings of `mqtt::Client::connect` with TLS. -/
def tlsSettings (s : Settings) (cfg : ConnectConfig) (m : Calls) : TlsSettings :=
  let lanHostnameVerify := !cfg.tlsVerifyHostname.isEmpty
  let skipVerify := cfg.tlsInsecure || (lanHostnameVerify && !s.verifyEnabled)
  let verifyHostname := if lanHostnameVerify && !skipVerify then some cfg.tlsVerifyHostname else none
  if cfg.caFile ≠ [] then
    let merged :=
      if lanHostnameVerify && !skipVerify && m.peerCert.isSome then m.mergedTrustBundle else cfg.caFile
    ⟨verifyHostname, some merged, none, !cfg.tlsSkipChainVerify && !skipVerify, skipVerify⟩
  else
    ⟨verifyHostname, m.caCandidate, if m.caCandidate.isSome then none else some (ascii "/etc/ssl/certs"),
      !cfg.tlsInsecure, skipVerify⟩

/-- `mqtt::Client::connect`, with its code or the settings under which libmosquitto goes on to connect
(none without TLS). -/
def mqttConnect (s : Settings) (cfg : ConnectConfig) (m : Calls) : Except Int (Option TlsSettings) :=
  if (!cfg.username.isEmpty || !cfg.password.isEmpty) && m.usernamePwSet ≠ 0 then .error m.usernamePwSet
  else if !cfg.useTls then m.connect none
  else
    let lanHostnameVerify := !cfg.tlsVerifyHostname.isEmpty
    let skipVerify := cfg.tlsInsecure || (lanHostnameVerify && !s.verifyEnabled)
    if lanHostnameVerify && !skipVerify && m.tlsVerifyHostnameSet ≠ 0 then .error m.tlsVerifyHostnameSet
    else if cfg.caFile.isEmpty && lanHostnameVerify && !skipVerify then .error MOSQ_ERR_TLS
    else if m.tlsSet ≠ 0 then .error m.tlsSet
    else if m.tlsOptsSet ≠ 0 then .error m.tlsOptsSet
    else if skipVerify && m.tlsInsecureSet ≠ 0 then .error m.tlsInsecureSet
    else m.connect (some (tlsSettings s cfg m))

/-- The fields of `LanSession` that its connection depends on. -/
structure LanSession where
  devId : Bytes
  username : Bytes
  password : Bytes
  useSsl : Bool
  caFile : Bytes

def BAMBU_NETWORK_ERR_CONNECT_FAILED : Int := -2

/-- The settings that `LanSession::start` gives to `mqtt::Client::connect`. -/
def LanSession.config (l : LanSession) (s : Settings) : ConnectConfig where
  username := l.username
  password := l.password
  useTls := l.useSsl
  caFile := l.caFile
  tlsVerifyHostname := l.devId
  tlsInsecure := !s.verifyEnabled
  tlsSkipChainVerify := false

/-- `LanSession::start`; `map_mqtt_err` is left out of its code. -/
def LanSession.start (l : LanSession) (s : Settings) (m : Calls) : Except Int (Option TlsSettings) :=
  if l.useSsl && s.verifyEnabled && l.caFile.isEmpty then .error BAMBU_NETWORK_ERR_CONNECT_FAILED
  else if l.useSsl && s.verifyEnabled && l.devId.isEmpty then .error BAMBU_NETWORK_ERR_CONNECT_FAILED
  else mqttConnect s (l.config s) m

theorem Calls.connect_ok {m : Calls} {settings settings' : Option TlsSettings}
    (h : m.connect settings = .ok settings') : settings' = settings := by
  rw [Calls.connect] at h
  split_ifs at h
  exact (Except.ok.inj h).symm

/-- Where libmosquitto goes on with TLS it has been told so. -/
theorem mqttConnect_tls {s : Settings} {cfg : ConnectConfig} {m : Calls} {t : TlsSettings}
    (h : mqttConnect s cfg m = .ok (some t)) : cfg.useTls = true ∧ t = tlsSettings s cfg m := by
  rw [mqttConnect] at h
  by_cases huser : ((!cfg.username.isEmpty || !cfg.password.isEmpty) && decide (m.usernamePwSet ≠ 0)) = true
  · rw [if_pos huser] at h
    cases h
  rw [if_neg huser] at h
  cases htls : cfg.useTls with
  | false =>
      rw [htls, if_pos (by decide : (!false) = true)] at h
      cases Calls.connect_ok h
  | true =>
      rw [htls, if_neg (by decide)] at h
      dsimp only at h
      split_ifs at h
      exact ⟨rfl, Option.some.inj (Calls.connect_ok h)⟩

/-- With verification a LAN session asks libmosquitto for both checks. -/
theorem LanSession.start_verifies {l : LanSession} {s : Settings} (h : s.verifyEnabled = true) {m : Calls}
    {t : TlsSettings} (hstart : l.start s m = .ok (some t)) :
    t.verifyPeer = true ∧ t.insecure = false ∧ t.verifyHostname = some l.devId ∧ l.devId ≠ [] := by
  rw [LanSession.start] at hstart
  split_ifs at hstart with hca hdev
  obtain ⟨hssl, rfl⟩ := mqttConnect_tls hstart
  rw [LanSession.config] at hssl
  have hca' : l.caFile ≠ [] := by
    intro hnil
    exact hca (by rw [hnil, h]; simpa using hssl)
  have hdev' : l.devId ≠ [] := by
    intro hnil
    exact hdev (by rw [hnil, h]; simpa using hssl)
  have hname : (!l.devId.isEmpty) = true := by simpa using hdev'
  rw [tlsSettings, LanSession.config, h, hname, if_pos hca']
  exact ⟨rfl, rfl, rfl, hdev'⟩

/-- What libmosquitto is documented to do with its settings. -/
structure Verifies (connects : TlsSettings → Handshake → Bool) : Prop where
  chain : ∀ t h, connects t h = true → t.verifyPeer = true → h.chain = true
  name : ∀ t h, connects t h = true → t.verifyPeer = true → t.insecure = false → t.verifyHostname ≠ none →
    h.name = true

/-- The checks of a connection that libmosquitto has made. -/
def TlsSettings.checks (t : TlsSettings) (h : Handshake) : Checks :=
  ⟨t.verifyPeer && h.chain, t.verifyPeer && !t.insecure && t.verifyHostname.isSome && h.name⟩

/-! ## Runs -/

/-- FTP clients, dialed connections and MQTT clients go by number. -/
structure World where
  ftp : Nat → Ftps.World
  dialed : Nat → Option Checks
  /-- What libmosquitto connects with, and the connection it has. -/
  mqttSettings : Nat → Option TlsSettings
  mqtt : Nat → Option Checks
  /-- The checks of dialed and of MQTT connections whenever they carried application bytes. -/
  trace : List Checks

def World.start : World := ⟨fun _ => Ftps.World.start, fun _ => none, fun _ => none, fun _ => none, []⟩

inductive Event where
  | ftp (client : Nat) (e : Ftps.Event)
  | dial (conn : Nat) (d : Dial) (expectedSerial : Bytes)
  /-- Bytes of the tunnel or of a camera, either way. -/
  | dialedBytes (conn : Nat)
  | startSession (client : Nat) (l : LanSession) (m : Calls)
  /-- libmosquitto connects, or connects again. -/
  | mqttHandshake (client : Nat) (h : Handshake)
  | mqttBytes (client : Nat)

/-- An operation of an FTP client asks for verification as the settings say. -/
def Settings.during (s : Settings) (e : Ftps.Event) : Ftps.Event :=
  { e with printer := { e.printer with verifyEnabled := s.verifyEnabled } }

def World.carried (w : World) (checks : Option Checks) : World :=
  { w with trace := checks.toList ++ w.trace }

def step (s : Settings) (connects : TlsSettings → Handshake → Bool) (w : World) : Event → World
  | .ftp client e => { w with ftp := Function.update w.ftp client (Ftps.step (w.ftp client) (s.during e)) }
  | .dial conn d expectedSerial =>
      { w with dialed := Function.update w.dialed conn (dialTls s d expectedSerial).toOption }
  | .dialedBytes conn => w.carried (w.dialed conn)
  | .startSession client l m =>
      let settings := (l.start s m).toOption.getD none
      let w := { w with mqtt := Function.update w.mqtt client none }
      { w with mqttSettings := Function.update w.mqttSettings client settings }
  | .mqttHandshake client h =>
      let checks := ((w.mqttSettings client).filter fun t => connects t h).map fun t => t.checks h
      { w with mqtt := Function.update w.mqtt client checks }
  | .mqttBytes client => w.carried (w.mqtt client)

/-- Whatever carried application bytes had both checks. -/
structure Checked (w : World) : Prop where
  ftp : ∀ i, AllChecked (w.ftp i)
  other : ∀ c ∈ w.trace, c.chain = true ∧ c.name = true

/-- The operations of FTP clients are vouched for. -/
def VouchedFor (s : Settings) (w : World) (e : Event) : Prop :=
  ∀ client op, e = .ftp client op → Vouched (w.ftp client) (s.during op)

/-- A connection that is there has had both checks. -/
def Verified (conn : Option Checks) : Prop := ∀ c, conn = some c → c.chain = true ∧ c.name = true

/-- Settings that are there ask for both checks. -/
def AsksBoth (settings : Option TlsSettings) : Prop :=
  ∀ t, settings = some t → t.verifyPeer = true ∧ t.insecure = false ∧ t.verifyHostname ≠ none

/-- Connections have both checks, or are yet to have them. -/
structure Watched (w : World) : Prop where
  ftp : ∀ i, Ftps.Guarded (w.ftp i)
  dialed : ∀ i, Verified (w.dialed i)
  settings : ∀ i, AsksBoth (w.mqttSettings i)
  mqtt : ∀ i, Verified (w.mqtt i)
  trace : ∀ c ∈ w.trace, c.chain = true ∧ c.name = true

theorem Watched.carried {w : World} (h : Watched w) {checks : Option Checks}
    (hc : Verified checks) : Watched (w.carried checks) := by
  refine ⟨h.ftp, h.dialed, h.settings, h.mqtt, ?_⟩
  intro c hmem
  rcases List.mem_append.1 hmem with hmem | hmem
  · exact hc c (Option.mem_toList.1 hmem)
  · exact h.trace c hmem

/-- What holds of every entry holds when one of them changes. -/
theorem forall_update {α : Type} {P : α → Prop} {f : Nat → α} {i : Nat} {a : α} (hf : ∀ j, P (f j))
    (ha : P a) (j : Nat) : P (Function.update f i a j) := by
  by_cases hj : j = i
  · rw [hj, Function.update_self]
    exact ha
  · rw [Function.update_of_ne hj]
    exact hf j

theorem checks_verified {connects : TlsSettings → Handshake → Bool} (hlib : Verifies connects)
    {t : TlsSettings} (ht : t.verifyPeer = true ∧ t.insecure = false ∧ t.verifyHostname ≠ none)
    {h : Handshake} (hconnects : connects t h = true) :
    (t.checks h).chain = true ∧ (t.checks h).name = true := by
  obtain ⟨hpeer, hsecure, hname⟩ := ht
  rw [TlsSettings.checks, hpeer, hsecure, hlib.chain t h hconnects hpeer,
    hlib.name t h hconnects hpeer hsecure hname, Option.isSome_iff_ne_none.2 hname]
  exact ⟨rfl, rfl⟩

theorem Watched.step {s : Settings} (hs : s.verifyEnabled = true)
    {connects : TlsSettings → Handshake → Bool} (hlib : Verifies connects) {w : World} (h : Watched w)
    {e : Event} (he : VouchedFor s w e) : Watched (Lan.step s connects w e) := by
  cases e with
  | ftp client e =>
      refine ⟨?_, h.dialed, h.settings, h.mqtt, h.trace⟩
      exact forall_update h.ftp ((h.ftp client).step hs (he client e rfl))
  | dial conn d expectedSerial =>
      refine ⟨h.ftp, ?_, h.settings, h.mqtt, h.trace⟩
      apply @forall_update _ Verified _ _ _ h.dialed
      intro c hc
      cases hdial : dialTls s d expectedSerial with
      | error err =>
          rw [hdial] at hc
          cases hc
      | ok c' =>
          rw [hdial] at hc
          obtain rfl := Option.some.inj hc
          exact dialTls_checked hs hdial
  | dialedBytes conn => exact h.carried (h.dialed conn)
  | startSession client l m =>
      refine ⟨h.ftp, h.dialed, ?_, ?_, h.trace⟩
      · apply @forall_update _ AsksBoth _ _ _ h.settings
        intro t ht
        cases hstart : l.start s m with
        | error rc =>
            rw [hstart] at ht
            cases ht
        | ok settings =>
            rw [hstart] at ht
            obtain ⟨hpeer, hsecure, hname, -⟩ := l.start_verifies hs (hstart.trans (congrArg _ ht))
            exact ⟨hpeer, hsecure, by rw [hname]; nofun⟩
      · exact @forall_update _ Verified _ _ _ h.mqtt nofun
  | mqttHandshake client hs' =>
      refine ⟨h.ftp, h.dialed, h.settings, ?_, h.trace⟩
      apply @forall_update _ Verified _ _ _ h.mqtt
      intro c hc
      obtain ⟨t, ht, rfl⟩ := Option.map_eq_some_iff.1 hc
      obtain ⟨hset, hconnects⟩ := Option.filter_eq_some_iff.1 ht
      exact checks_verified hlib (h.settings client t hset) hconnects
  | mqttBytes client => exact h.carried (h.mqtt client)

theorem watched_start : Watched World.start :=
  ⟨fun _ => Ftps.guarded_start, fun _ => nofun, fun _ => nofun, fun _ => nofun, nofun⟩

theorem Watched.all_checked {w : World} (h : Watched w) : Checked w := ⟨fun i => (h.ftp i).checked, h.trace⟩

def verifying : Settings := ⟨false, false⟩

/-- A libmosquitto that asks for no more than it has been told. -/
def mosquitto (t : TlsSettings) (h : Handshake) : Bool :=
  h.completes && (!t.verifyPeer || h.chain && (t.insecure || t.verifyHostname.isNone || h.name))

theorem mosquitto_verifies : Verifies mosquitto := by
  constructor
  · intro t h hconnects hpeer
    rw [mosquitto, hpeer] at hconnects
    simp only [Bool.and_eq_true, Bool.not_true, Bool.false_or] at hconnects
    exact hconnects.2.1
  · intro t h hconnects hpeer hsecure hname
    rw [mosquitto, hpeer, hsecure, Option.isNone_eq_false_iff.2 (Option.isSome_iff_ne_none.2 hname)] at hconnects
    simp only [Bool.and_eq_true, Bool.not_true, Bool.false_or] at hconnects
    exact hconnects.2.2

def ownHandshake : Handshake := ⟨true, true, true, true, false⟩

def dialPrinter : Dial := ⟨some (ascii "printer.cer"), none, none, true, true, true, ownHandshake, []⟩

def lanSession : LanSession :=
  ⟨ascii "01S00A000000001", ascii "bblp", ascii "12345678", true, ascii "printer.cer"⟩

def quietCalls : Calls := ⟨0, 0, 0, 0, 0, 0, none, [], none⟩

/-- A file goes to the printer over FTP, and bytes over the two other connections. -/
def ordinary : List Event :=
  [.ftp 0 ⟨.connect Ftps.lanConfig, Ftps.goodPrinter⟩, .ftp 0 ⟨Ftps.upload none, Ftps.goodPrinter⟩,
    .dial 0 dialPrinter (ascii "01S00A000000001"), .dialedBytes 0, .startSession 0 lanSession quietCalls,
    .mqttHandshake 0 ownHandshake, .mqttBytes 0]

theorem ordinary_vouched :
    AtEveryStep (step verifying mosquitto) (VouchedFor verifying) World.start ordinary := by
  have hother : ∀ w e, (∀ client op, e ≠ .ftp client op) → VouchedFor verifying w e := by
    intro w e he client op heq
    exact absurd heq (he client op)
  refine atEveryStep_cons.2 ⟨?_, atEveryStep_cons.2 ⟨?_, ?_⟩⟩
  · intro client op heq
    obtain ⟨rfl, rfl⟩ := Event.ftp.inj heq
    refine ⟨?_, ?_⟩
    · intro hspeaks
      cases hspeaks
    · intro cmd what checks w' hcmd
      cases hcmd
  · intro client op heq
    obtain ⟨rfl, rfl⟩ := Event.ftp.inj heq
    refine ⟨fun _ i hi _ => .inl ?_, fun _ _ _ _ _ _ => .inl rfl⟩
    have hname : ((step verifying mosquitto World.start
        (.ftp 0 ⟨.connect Ftps.lanConfig, Ftps.goodPrinter⟩)).ftp 0).channel.all
        (fun i => ((step verifying mosquitto World.start
          (.ftp 0 ⟨.connect Ftps.lanConfig, Ftps.goodPrinter⟩)).ftp 0).conns i |>.name) = true := by
      decide +kernel
    rw [hi] at hname
    exact hname
  · apply atEveryStep_cons.2 ⟨hother _ _ (by simp), _⟩
    apply atEveryStep_cons.2 ⟨hother _ _ (by simp), _⟩
    apply atEveryStep_cons.2 ⟨hother _ _ (by simp), _⟩
    apply atEveryStep_cons.2 ⟨hother _ _ (by simp), _⟩
    apply atEveryStep_cons.2 ⟨hother _ _ (by simp), atEveryStep_nil⟩

/-- The data connection of the upload is taken by another printer, with a certificate of its own. -/
def otherPrinter : Ftps.Printer :=
  { Ftps.goodPrinter with dataTls := ⟨true, true, true, false, false⟩ }

def intercepted : List Event :=
  [.ftp 0 ⟨.connect Ftps.lanConfig, Ftps.goodPrinter⟩, .ftp 0 ⟨Ftps.upload none, otherPrinter⟩]

end OpenBambu.Lan
