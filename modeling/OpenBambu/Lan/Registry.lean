import Mathlib.Data.List.AList
import Mathlib.Data.List.TakeWhile
import Mathlib.Logic.Function.Basic
import OpenBambu.Foundation.Decimal
import OpenBambu.Foundation.Run
import OpenBambu.Foundation.Text

/-!
# The TLS registry and its copies

The networking library keeps the CA file, the serials and the peer certificates of the printers in maps,
copies every change to the environment, and writes all of it to a state file. `env_var_get` looks into
the environment; the first time it finds nothing it takes the lines of the first state file it finds
over into the environment, whatever stands there. The file is out of date where no config directory is
set while the maps change.
-/

namespace OpenBambu.Lan

open OpenBambu.Foundation

/-- A `std::unordered_map` of strings. -/
abbrev StringMap := AList fun _ : Bytes => Bytes

/-- What the library cannot know: the order a hash map is iterated in, and which file a path names. -/
structure System where
  order : List (Sigma fun _ : Bytes => Bytes) → List (Sigma fun _ : Bytes => Bytes)
  perm : ∀ l, (order l).Perm l
  resolve : Bytes → Bytes

def kEnvCaFile : Bytes := ascii "OBN_LAN_TLS_CA_FILE"
def kEnvConfigDir : Bytes := ascii "OBN_CONFIG_DIR"
def kEnvIpPrefix : Bytes := ascii "OBN_LAN_TLS_IP_"
def kEnvPeerPrefix : Bytes := ascii "OBN_LAN_TLS_PEER_"
def kEnvSerialWaitMs : Bytes := ascii "OBN_LAN_TLS_SERIAL_WAIT_MS"
def kLanTlsStateFile : Bytes := ascii "obn.lan_tls.env"

/-- What `is_lan_tls_ipc_key` looks for. -/
def ipcPrefix : Bytes := ascii "OBN_LAN_TLS_"

def isLanTlsIpcKey (key : Bytes) : Bool := startsWith key ipcPrefix

def underscore : Byte := 0x5f
def equals : Byte := 0x3d
def hash : Byte := 0x23

def envKeyForIpPrefix (ip pre : Bytes) : Bytes :=
  pre ++ ip.map fun c => if c = Ascii.dot then underscore else c

def envKeyForIp (ip : Bytes) : Bytes := envKeyForIpPrefix ip kEnvIpPrefix

def peerEnvKeyForIp (ip : Bytes) : Bytes := envKeyForIpPrefix ip kEnvPeerPrefix

/-- A string behind `c_str()`. -/
def cstr (s : Bytes) : Bytes := s.takeWhile (· ≠ 0)

abbrev Env := Bytes → Option Bytes

/-- `setenv` with overwriting. -/
def setEnvVar (env : Env) (key value : Bytes) : Env := Function.update env (cstr key) (some (cstr value))

/-- An empty value counts as none. -/
def envVarGetOs (env : Env) (key : Bytes) : Option Bytes := (env key).filter (· ≠ [])

/-- The process, its files, and the state file it wrote last. -/
structure Process where
  configDir : Bytes
  caFile : Bytes
  ipToSerial : StringMap
  ipToPeerCert : StringMap
  env : Env
  hydrated : Bool
  /-- By the file, not by its path. -/
  files : Bytes → Option Bytes
  lastWritten : Option Bytes

/-- The `/` of `std::filesystem::path` in front of a relative name. -/
def joinPath (base name : Bytes) : Bytes :=
  if base = [] then name
  else if base.getLast? = some Ascii.slash then base ++ name
  else base ++ Ascii.slash :: name

def stateFile (dir : Bytes) : Bytes := joinPath dir kLanTlsStateFile

/-- The two programs whose directories are searched. -/
def programDirs (base : Bytes) : List Bytes :=
  [joinPath base (ascii "OrcaSlicer"), joinPath base (ascii "BambuStudio")]

def stateFileSearchPaths (p : Process) : List Bytes :=
  ((if p.configDir = [] then [] else [p.configDir]) ++ (envVarGetOs p.env kEnvConfigDir).toList ++
    (p.env (ascii "XDG_CONFIG_HOME")).toList.flatMap programDirs ++
    (p.env (ascii "HOME")).toList.flatMap fun home => programDirs (joinPath home (ascii ".config"))).map
      stateFile

/-- The assignment on a line of a state file. -/
def readStateLine (line : Bytes) : Option (Bytes × Bytes) :=
  if line.head? = some hash then none
  else
    match cut equals line with
    | none => none
    | some (key, val) =>
        if key = [] then none
        else if key ≠ kEnvConfigDir ∧ !isLanTlsIpcKey key then none
        else some (key, val)

def applyStateLine (env : Env) (line : Bytes) : Env :=
  match readStateLine line with
  | none => env
  | some (key, val) => setEnvVar env key val

def foundStateFile (sys : System) (p : Process) : Option Bytes :=
  (stateFileSearchPaths p).findSome? fun path => p.files (sys.resolve path)

def hydrateEnvFromStateFileOnce (sys : System) (p : Process) : Process :=
  if p.hydrated then p
  else
    match foundStateFile sys p with
    | none => { p with hydrated := true }
    | some content => { p with hydrated := true, env := (pieces Ascii.lf content).foldl applyStateLine p.env }

/-- The value, and the process behind the call. -/
def envVarGet (sys : System) (p : Process) (key : Bytes) : Option Bytes × Process :=
  if key = [] then (none, p)
  else
    match envVarGetOs p.env key with
    | some v => (some v, p)
    | none =>
        if isLanTlsIpcKey key then
          let p := hydrateEnvFromStateFileOnce sys p
          (envVarGetOs p.env key, p)
        else (none, p)

/-- The entries of a map that are not empty, under their keys. -/
def stateEntries (sys : System) (keyForIp : Bytes → Bytes) (m : StringMap) : List (Bytes × Bytes) :=
  ((sys.order m.entries).filter fun e => e.2 ≠ []).map fun e => (keyForIp e.1, e.2)

/-- What the state file assigns. -/
def stateLines (sys : System) (p : Process) : List (Bytes × Bytes) :=
  (if p.caFile = [] then [] else [(kEnvCaFile, p.caFile)]) ++
    stateEntries sys envKeyForIp p.ipToSerial ++ stateEntries sys peerEnvKeyForIp p.ipToPeerCert

def stateComment : Bytes := ascii "# Open Bamboo Networking LAN TLS IPC (auto-generated)"

def stateContent (sys : System) (p : Process) : Bytes :=
  stateComment ++ Ascii.lf :: (stateLines sys p).flatMap fun e => e.1 ++ equals :: e.2 ++ [Ascii.lf]

/-- The writes and the rename of the temporary file succeed. -/
def writeStateFile (sys : System) (p : Process) : Process :=
  if p.configDir = [] then p
  else
    let out := stateFile p.configDir
    { p with
      files := Function.update (Function.update p.files (sys.resolve (out ++ ascii ".tmp")) none)
        (sys.resolve out) (some (stateContent sys p))
      lastWritten := some (stateContent sys p) }

def syncCaEnv (p : Process) : Process := { p with env := setEnvVar p.env kEnvCaFile p.caFile }

def syncIpEnv (p : Process) (ip serial : Bytes) : Process :=
  { p with env := setEnvVar p.env (envKeyForIp ip) serial }

def syncPeerEnv (p : Process) (ip path : Bytes) : Process :=
  { p with env := setEnvVar p.env (peerEnvKeyForIp ip) path }

def syncRegistry (sys : System) (p : Process) : Process :=
  let p := syncCaEnv p
  let p := (sys.order p.ipToSerial.entries).foldl (fun p e => syncIpEnv p e.1 e.2) p
  let p := (sys.order p.ipToPeerCert.entries).foldl (fun p e => syncPeerEnv p e.1 e.2) p
  writeStateFile sys p

def registrySetConfigDir (sys : System) (p : Process) (dir : Bytes) : Process :=
  if p.configDir = dir then p
  else
    let p := { p with configDir := dir }
    let p := if dir = [] then p else { p with env := setEnvVar p.env kEnvConfigDir dir }
    syncRegistry sys p

def registrySetCaFile (sys : System) (p : Process) (path : Bytes) : Process :=
  if p.caFile = path then p else writeStateFile sys (syncCaEnv { p with caFile := path })

def registryPutIpSerial (sys : System) (p : Process) (ip serial : Bytes) : Process :=
  if ip = [] ∨ serial = [] then p
  else if p.ipToSerial.lookup ip = some serial then p
  else
    writeStateFile sys (syncIpEnv { p with ipToSerial := p.ipToSerial.insert ip serial } ip serial)

def registrySetPeerCert (sys : System) (p : Process) (ip path : Bytes) : Process :=
  if ip = [] then p
  else if path = [] then
    if p.ipToPeerCert.lookup ip = none then p
    else writeStateFile sys (syncPeerEnv { p with ipToPeerCert := p.ipToPeerCert.erase ip } ip path)
  else if p.ipToPeerCert.lookup ip = some path then p
  else
    writeStateFile sys (syncPeerEnv { p with ipToPeerCert := p.ipToPeerCert.insert ip path } ip path)

/-- A call of the library. -/
inductive Call where
  | setConfigDir (dir : Bytes)
  | setCaFile (path : Bytes)
  | putIpSerial (ip serial : Bytes)
  | setPeerCert (ip path : Bytes)
  | envVarGet (key : Bytes)

def Process.step (sys : System) (p : Process) : Call → Process
  | .setConfigDir dir => registrySetConfigDir sys p dir
  | .setCaFile path => registrySetCaFile sys p path
  | .putIpSerial ip serial => registryPutIpSerial sys p ip serial
  | .setPeerCert ip path => registrySetPeerCert sys p ip path
  | .envVarGet key => (Lan.envVarGet sys p key).2

/-! ## What the copies owe the registry -/

/-- A text of digits and dots, as every IPv4 literal is. -/
def Dotted (ip : Bytes) : Prop := ∀ b ∈ ip, isDigit b = true ∨ b = Ascii.dot

/-- The calls with IPv4 literals and values without line feeds. -/
def Call.Proper : Call → Prop
  | .setConfigDir _ => True
  | .setCaFile path => Ascii.lf ∉ path
  | .putIpSerial ip serial => Dotted ip ∧ Ascii.lf ∉ serial
  | .setPeerCert ip path => Dotted ip ∧ Ascii.lf ∉ path
  | .envVarGet _ => True

/-- A new process that finds the state file written last, and no other. -/
structure FreshFrom (sys : System) (p q : Process) : Prop where
  hydrated : q.hydrated = false
  env : ∀ key, isLanTlsIpcKey key = true → envVarGetOs q.env key = none
  only : ∃ path content, path ∈ stateFileSearchPaths q ∧ p.lastWritten = some content ∧
    q.files = Function.update (fun _ => none) (sys.resolve path) (some content)

/-- Every lookup of a value the registry holds returns it, and a new process has the same values. -/
structure Answers (sys : System) (p : Process) : Prop where
  ca : p.caFile ≠ [] → (envVarGet sys p kEnvCaFile).1 = some p.caFile
  serial : ∀ ip serial, p.ipToSerial.lookup ip = some serial →
    (envVarGet sys p (envKeyForIp ip)).1 = some serial
  peerCert : ∀ ip path, p.ipToPeerCert.lookup ip = some path →
    (envVarGet sys p (peerEnvKeyForIp ip)).1 = some path
  fresh : ∀ q, FreshFrom sys p q →
    (envVarGet sys q kEnvCaFile).1 = (if p.caFile = [] then none else some p.caFile) ∧
      ∀ ip, Dotted ip → (envVarGet sys q (envKeyForIp ip)).1 = p.ipToSerial.lookup ip ∧
        (envVarGet sys q (peerEnvKeyForIp ip)).1 = p.ipToPeerCert.lookup ip

/-- The registry holds this value under this key. -/
def Held (p : Process) (key value : Bytes) : Prop :=
  (key = kEnvCaFile ∧ value = p.caFile ∧ value ≠ []) ∨
    (∃ ip, p.ipToSerial.lookup ip = some value ∧ key = envKeyForIp ip) ∨
    ∃ ip, p.ipToPeerCert.lookup ip = some value ∧ key = peerEnvKeyForIp ip

/-- What a line assigns to a key. -/
def assigned (key line : Bytes) : Option Bytes :=
  (readStateLine line).bind fun e => if cstr e.1 = key then some (cstr e.2) else none

/-- What a state file leaves assigned to a key. -/
def lastAssigned (content key : Bytes) : Option Bytes :=
  ((pieces Ascii.lf content).filterMap (assigned key)).getLast?

/-- A state file has no other value for a key than the registry. -/
def Agrees (p : Process) (content : Bytes) : Prop :=
  ∀ key value, Held p key value → ∀ other, lastAssigned content key = some other → other = value

/-- The value a call puts into the registry where there was another one. -/
def Process.newValue (p : Process) : Call → Option Bytes
  | .setCaFile path => if p.caFile = path then none else some path
  | .putIpSerial ip serial =>
      if ip = [] ∨ serial = [] ∨ p.ipToSerial.lookup ip = some serial then none else some serial
  | .setPeerCert ip path =>
      if ip = [] ∨ (p.ipToPeerCert.lookup ip).getD [] = path then none else some path
  | _ => none

/-- A new value has no NUL in it and is written to a file if any was; and a state file that is taken
over while no config directory is set agrees with the registry. -/
structure Current (sys : System) (p : Process) (call : Call) : Prop where
  change : ∀ value, p.newValue call = some value →
    0 ∉ value ∧ (p.configDir = [] → p.lastWritten = none)
  hydration : ∀ key, call = .envVarGet key → p.hydrated = false → isLanTlsIpcKey key = true →
    envVarGetOs p.env key = none → p.configDir = [] → ∀ content, foundStateFile sys p = some content →
      Agrees p content

/-! ## Keys -/

structure StateKey (key : Bytes) : Prop where
  ipc : isLanTlsIpcKey key = true
  equals : equals ∉ key
  lf : Ascii.lf ∉ key
  nul : 0 ∉ key

theorem stateKey_ca : StateKey kEnvCaFile where
  ipc := by decide +kernel
  equals := by decide +kernel
  lf := by decide +kernel
  nul := by decide +kernel

theorem StateKey.ne_nil {key : Bytes} (h : StateKey key) : key ≠ [] := by
  rintro rfl
  exact absurd h.ipc (by decide +kernel)

theorem cstr_eq {s : Bytes} (h : 0 ∉ s) : cstr s = s := by
  rw [cstr, List.takeWhile_eq_self_iff]
  intro b hb
  apply decide_eq_true
  rintro rfl
  exact h hb

theorem stateKey_forIp {pre ip : Bytes} (hpre : StateKey pre) (hip : Dotted ip) :
    StateKey (envKeyForIpPrefix ip pre) := by
  have hmem : ∀ b ∈ ip.map (fun c => if c = Ascii.dot then underscore else c),
      isDigit b = true ∨ b = underscore := by
    intro b hb
    obtain ⟨c, hc, rfl⟩ := List.mem_map.mp hb
    split_ifs with hdot
    · exact Or.inr rfl
    · exact Or.inl ((hip c hc).resolve_right hdot)
  have hno : ∀ x : Byte, isDigit x = false → x ≠ underscore → x ∉ pre → x ∉ envKeyForIpPrefix ip pre := by
    intro x hdigit hne hx hin
    rcases List.mem_append.mp hin with h | h
    · exact hx h
    · rcases hmem x h with h | h
      · rw [hdigit] at h
        cases h
      · exact hne h
  refine ⟨?_, hno _ (by decide) (by decide) hpre.equals, hno _ (by decide) (by decide) hpre.lf,
    hno _ (by decide) (by decide) hpre.nul⟩
  exact startsWith_iff.mpr ((startsWith_iff.mp hpre.ipc).trans (List.prefix_append _ _))

theorem stateKey_ip {ip : Bytes} (h : Dotted ip) : StateKey (envKeyForIp ip) :=
  stateKey_forIp ⟨by decide +kernel, by decide +kernel, by decide +kernel, by decide +kernel⟩ h

theorem stateKey_peer {ip : Bytes} (h : Dotted ip) : StateKey (peerEnvKeyForIp ip) :=
  stateKey_forIp ⟨by decide +kernel, by decide +kernel, by decide +kernel, by decide +kernel⟩ h

theorem underscore_not_dotted {ip : Bytes} (h : Dotted ip) : underscore ∉ ip := by
  intro hin
  rcases h _ hin with h | h
  · exact absurd h (by decide)
  · exact absurd h (by decide)

theorem forIp_injective {pre ip ip' : Bytes} (h : Dotted ip) (h' : Dotted ip')
    (heq : envKeyForIpPrefix ip pre = envKeyForIpPrefix ip' pre) : ip = ip' := by
  have hmap := List.append_cancel_left heq
  clear heq
  induction ip generalizing ip' with
  | nil => exact (List.map_eq_nil_iff.mp hmap.symm).symm
  | cons c ip ih =>
      cases ip' with
      | nil => exact absurd hmap (by simp)
      | cons c' ip' =>
          obtain ⟨hc, hrest⟩ := List.cons.inj hmap
          have hip := underscore_not_dotted h
          have hip' := underscore_not_dotted h'
          have heq : c = c' := by
            simp only at hc
            split_ifs at hc with h1 h2 h2
            · exact h1.trans h2.symm
            · exact absurd hc (List.ne_of_not_mem_cons hip')
            · exact absurd hc.symm (List.ne_of_not_mem_cons hip)
            · exact hc
          rw [heq, ih (fun b hb => h b (List.mem_cons_of_mem _ hb))
            (fun b hb => h' b (List.mem_cons_of_mem _ hb)) hrest]

/-- The keys of the three kinds differ behind the common prefix. -/
theorem ca_ne_ip (ip : Bytes) : kEnvCaFile ≠ envKeyForIp ip := by
  intro h
  have htake := congrArg (List.take 13) h
  rw [envKeyForIp, envKeyForIpPrefix, List.take_append_of_le_length (by decide +kernel)] at htake
  exact absurd htake (by decide +kernel)

theorem ca_ne_peer (ip : Bytes) : kEnvCaFile ≠ peerEnvKeyForIp ip := by
  intro h
  have htake := congrArg (List.take 13) h
  rw [peerEnvKeyForIp, envKeyForIpPrefix, List.take_append_of_le_length (by decide +kernel)] at htake
  exact absurd htake (by decide +kernel)

theorem ip_ne_peer (ip ip' : Bytes) : envKeyForIp ip ≠ peerEnvKeyForIp ip' := by
  intro h
  have htake := congrArg (List.take 13) h
  rw [envKeyForIp, peerEnvKeyForIp, envKeyForIpPrefix, envKeyForIpPrefix,
    List.take_append_of_le_length (by decide +kernel),
    List.take_append_of_le_length (by decide +kernel)] at htake
  exact absurd htake (by decide +kernel)

/-! ## What the registry holds -/

/-- A value that comes through a line of a file and a C string as it is. -/
structure PlainText (value : Bytes) : Prop where
  lf : Ascii.lf ∉ value
  nul : 0 ∉ value

structure Registered (p : Process) : Prop where
  ca : PlainText p.caFile
  serial : ∀ ip value, p.ipToSerial.lookup ip = some value → Dotted ip ∧ value ≠ [] ∧ PlainText value
  peerCert : ∀ ip value, p.ipToPeerCert.lookup ip = some value → Dotted ip ∧ value ≠ [] ∧ PlainText value

theorem Held.entry {p : Process} (hr : Registered p) {key value : Bytes} (h : Held p key value) :
    StateKey key ∧ value ≠ [] ∧ PlainText value := by
  rcases h with ⟨rfl, rfl, hne⟩ | ⟨ip, hip, rfl⟩ | ⟨ip, hip, rfl⟩
  · exact ⟨stateKey_ca, hne, hr.ca⟩
  · obtain ⟨hdot, hvalue⟩ := hr.serial ip value hip
    exact ⟨stateKey_ip hdot, hvalue⟩
  · obtain ⟨hdot, hvalue⟩ := hr.peerCert ip value hip
    exact ⟨stateKey_peer hdot, hvalue⟩

theorem held_ca {p : Process} {value : Bytes} :
    Held p kEnvCaFile value ↔ value = p.caFile ∧ value ≠ [] := by
  constructor
  · rintro (⟨-, h⟩ | ⟨ip, -, h⟩ | ⟨ip, -, h⟩)
    · exact h
    · exact absurd h (ca_ne_ip ip)
    · exact absurd h (ca_ne_peer ip)
  · exact fun h => Or.inl ⟨rfl, h⟩

theorem held_ip {p : Process} (hr : Registered p) {ip value : Bytes} (hip : Dotted ip) :
    Held p (envKeyForIp ip) value ↔ p.ipToSerial.lookup ip = some value := by
  constructor
  · rintro (⟨h, -⟩ | ⟨ip', h, heq⟩ | ⟨ip', -, h⟩)
    · exact absurd h.symm (ca_ne_ip ip)
    · rwa [forIp_injective hip (hr.serial ip' value h).1 heq]
    · exact absurd h (ip_ne_peer ip ip')
  · exact fun h => Or.inr (Or.inl ⟨ip, h, rfl⟩)

theorem held_peer {p : Process} (hr : Registered p) {ip value : Bytes} (hip : Dotted ip) :
    Held p (peerEnvKeyForIp ip) value ↔ p.ipToPeerCert.lookup ip = some value := by
  constructor
  · rintro (⟨h, -⟩ | ⟨ip', -, h⟩ | ⟨ip', h, heq⟩)
    · exact absurd h.symm (ca_ne_peer ip)
    · exact absurd h.symm (ip_ne_peer ip' ip)
    · rwa [forIp_injective hip (hr.peerCert ip' value h).1 heq]
  · exact fun h => Or.inr (Or.inr ⟨ip, h, rfl⟩)

theorem Held.unique {p : Process} (hr : Registered p) {key value other : Bytes} (h : Held p key value)
    (h' : Held p key other) : value = other := by
  rcases h with ⟨rfl, rfl, -⟩ | ⟨ip, hip, rfl⟩ | ⟨ip, hip, rfl⟩
  · exact (held_ca.mp h').1.symm
  · exact Option.some.inj (hip.symm.trans ((held_ip hr (hr.serial ip value hip).1).mp h'))
  · exact Option.some.inj (hip.symm.trans ((held_peer hr (hr.peerCert ip value hip).1).mp h'))

/-! ## The state file -/

theorem mem_stateEntries {sys : System} {keyForIp : Bytes → Bytes} {m : StringMap} {key value : Bytes} :
    (key, value) ∈ stateEntries sys keyForIp m ↔
      value ≠ [] ∧ ∃ ip, m.lookup ip = some value ∧ key = keyForIp ip := by
  rw [stateEntries, List.mem_map]
  constructor
  · rintro ⟨⟨ip, v⟩, hmem, heq⟩
    obtain ⟨rfl, rfl⟩ := Prod.mk.inj heq
    rw [List.mem_filter, (sys.perm _).mem_iff] at hmem
    exact ⟨by simpa using hmem.2, ip, AList.mem_lookup_iff.mpr hmem.1, rfl⟩
  · rintro ⟨hne, ip, hip, rfl⟩
    refine ⟨⟨ip, value⟩, ?_, rfl⟩
    rw [List.mem_filter, (sys.perm _).mem_iff]
    exact ⟨AList.mem_lookup_iff.mp hip, by simpa using hne⟩

/-- The file has the values of the registry under their keys. -/
theorem mem_stateLines {sys : System} {p : Process} (hr : Registered p) {key value : Bytes} :
    (key, value) ∈ stateLines sys p ↔ Held p key value := by
  rw [stateLines, List.mem_append, List.mem_append, mem_stateEntries, mem_stateEntries, or_assoc, Held]
  refine or_congr ?_ (or_congr ?_ ?_)
  · split_ifs with hca
    · simp [hca]
    · simp only [List.mem_singleton, Prod.mk.injEq]
      constructor
      · rintro ⟨rfl, rfl⟩
        exact ⟨rfl, rfl, hca⟩
      · exact fun h => ⟨h.1, h.2.1⟩
  · apply and_iff_right_of_imp
    rintro ⟨ip, hip, -⟩
    exact (hr.serial ip value hip).2.1
  · apply and_iff_right_of_imp
    rintro ⟨ip, hip, -⟩
    exact (hr.peerCert ip value hip).2.1

theorem readStateLine_line {key : Bytes} (h : StateKey key) (value : Bytes) :
    readStateLine (key ++ equals :: value) = some (key, value) := by
  have hne : key ≠ [] := h.ne_nil
  have hhead : (key ++ equals :: value).head? ≠ some hash := by
    intro hhash
    obtain ⟨c, t, rfl⟩ := List.exists_cons_of_ne_nil hne
    obtain rfl := Option.some.inj hhash
    obtain ⟨u, hu⟩ := startsWith_iff.mp h.ipc
    exact absurd (List.cons.inj hu).1 (by decide +kernel)
  rw [readStateLine, if_neg hhead, cut_of_not_mem h.equals]
  simp [hne, h.ipc]

theorem pieces_lines {lines : List (Bytes × Bytes)}
    (h : ∀ e ∈ lines, Ascii.lf ∉ e.1 ∧ Ascii.lf ∉ e.2) :
    pieces Ascii.lf (lines.flatMap fun e => e.1 ++ equals :: e.2 ++ [Ascii.lf]) =
      lines.map fun e => e.1 ++ equals :: e.2 := by
  induction lines with
  | nil => rfl
  | cons e lines ih =>
      obtain ⟨hkey, hvalue⟩ := h e List.mem_cons_self
      have hline : Ascii.lf ∉ e.1 ++ equals :: e.2 := by
        rw [List.mem_append, List.mem_cons, not_or, not_or]
        exact ⟨hkey, by decide, hvalue⟩
      rw [List.flatMap_cons, List.append_assoc, List.singleton_append, pieces_of_not_mem hline,
        ih fun d hd => h d (List.mem_cons_of_mem _ hd), List.map_cons]

theorem assigned_line {key value other : Bytes} (h : StateKey key) (hv : PlainText value) :
    assigned other (key ++ equals :: value) = if key = other then some value else none := by
  rw [assigned, readStateLine_line h, Option.bind_some, cstr_eq h.nul, cstr_eq hv.nul]

/-- What the written file leaves assigned to a key is what the registry holds. -/
theorem lastAssigned_stateContent (sys : System) {p : Process} (hr : Registered p) {key value : Bytes} :
    lastAssigned (stateContent sys p) key = some value ↔ Held p key value := by
  have hentry : ∀ e ∈ stateLines sys p, StateKey e.1 ∧ PlainText e.2 := by
    intro e he
    obtain ⟨hkey, -, hvalue⟩ := Held.entry hr ((mem_stateLines hr).mp he)
    exact ⟨hkey, hvalue⟩
  have hpieces : pieces Ascii.lf (stateContent sys p) =
      stateComment :: (stateLines sys p).map fun e => e.1 ++ equals :: e.2 := by
    rw [stateContent, pieces_of_not_mem (by decide +kernel),
      pieces_lines fun e he => ⟨(hentry e he).1.lf, (hentry e he).2.lf⟩]
  have hcomment : assigned key stateComment = none := by
    rw [assigned, readStateLine, if_pos (by decide +kernel), Option.bind_none]
  have hassigned : (pieces Ascii.lf (stateContent sys p)).filterMap (assigned key) =
      (stateLines sys p).filterMap fun e => if e.1 = key then some e.2 else none := by
    rw [hpieces, List.filterMap_cons, hcomment, List.filterMap_map]
    refine List.filterMap_congr fun e he => ?_
    exact assigned_line (hentry e he).1 (hentry e he).2
  have hmem : ∀ v, v ∈ (stateLines sys p).filterMap (fun e => if e.1 = key then some e.2 else none) ↔
      Held p key v := by
    intro v
    rw [← @mem_stateLines sys p hr, List.mem_filterMap]
    constructor
    · rintro ⟨⟨k, w⟩, he, hif⟩
      split_ifs at hif with hk
      obtain rfl := Option.some.inj hif
      exact hk ▸ he
    · intro he
      exact ⟨(key, v), he, if_pos rfl⟩
  rw [lastAssigned, hassigned]
  constructor
  · intro hlast
    exact (hmem value).mp (List.mem_of_getLast? hlast)
  · intro hheld
    have hne := List.ne_nil_of_mem ((hmem value).mpr hheld)
    have hlast := List.getLast?_eq_some_getLast hne
    rw [hlast, hheld.unique hr ((hmem _).mp (List.getLast_mem hne))]

/-- Behind the lines of a file a key has the last value they assign to it. -/
theorem applyStateLines (env : Env) (content key : Bytes) :
    (pieces Ascii.lf content).foldl applyStateLine env key =
      ((lastAssigned content key).map some).getD (env key) := by
  have hread : ∀ (env : Env) (line : Bytes),
      applyStateLine env line key = ((assigned key line).map some).getD (env key) := by
    intro env line
    rw [applyStateLine, assigned]
    cases readStateLine line with
    | none => rfl
    | some e =>
        obtain ⟨k, v⟩ := e
        simp only [setEnvVar, Function.update_apply, Option.bind_some]
        by_cases hk : cstr k = key
        · rw [if_pos hk.symm, if_pos hk]
          rfl
        · rw [if_neg (Ne.symm hk), if_neg hk]
          rfl
  have hlast := @foldl_last _ _ _ applyStateLine (fun env : Env => env key) _ hread
    (pieces Ascii.lf content) env
  rw [hlast, lastAssigned, ← List.map_filterMap, List.getLast?_map]

/-! ## The environment -/

/-- The environment has every value the registry holds. -/
def EnvHolds (p : Process) (env : Env) : Prop := ∀ key value, Held p key value → env key = some value

/-- Setting what is held anyway, or a key that holds nothing, keeps the rest. -/
theorem EnvHolds.set {p : Process} (hr : Registered p) {env : Env} {key value : Bytes}
    (h : ∀ k v, Held p k v → k ≠ key → env k = some v) (hk : 0 ∉ key)
    (hheld : ∀ v, Held p key v → v = value) : EnvHolds p (setEnvVar env key value) := by
  intro k v hv
  rw [setEnvVar, cstr_eq hk, Function.update_apply]
  split_ifs with hkey
  · subst hkey
    obtain rfl := hheld v hv
    rw [cstr_eq (hv.entry hr).2.2.nul]
  · exact h k v hv hkey

theorem EnvHolds.foldl {p : Process} (hr : Registered p) {keyForIp : Bytes → Bytes}
    {entries : List (Sigma fun _ : Bytes => Bytes)} (hentries : ∀ e ∈ entries, Held p (keyForIp e.1) e.2)
    {env : Env} (h : EnvHolds p env) :
    EnvHolds p (entries.foldl (fun env e => setEnvVar env (keyForIp e.1) e.2) env) := by
  induction entries generalizing env with
  | nil => exact h
  | cons e entries ih =>
      have he := hentries e List.mem_cons_self
      apply ih fun d hd => hentries d (List.mem_cons_of_mem _ hd)
      exact EnvHolds.set hr (fun k v hv _ => h k v hv) (he.entry hr).1.nul fun v hv => hv.unique hr he

/-- Taking over a file that agrees with the registry changes none of its values. -/
theorem EnvHolds.hydrate {p : Process} {content : Bytes} (h : EnvHolds p p.env)
    (hagrees : Agrees p content) :
    EnvHolds p ((pieces Ascii.lf content).foldl applyStateLine p.env) := by
  intro key value hheld
  rw [applyStateLines]
  cases hlast : lastAssigned content key with
  | none => exact h key value hheld
  | some other =>
      rw [hagrees key value hheld other hlast]
      rfl

theorem agrees_stateContent (sys : System) {p : Process} (hr : Registered p) :
    Agrees p (stateContent sys p) := by
  intro key value hheld other hlast
  exact ((lastAssigned_stateContent sys hr).mp hlast).unique hr hheld

/-! ## The invariant -/

structure Synced (sys : System) (p : Process) : Prop where
  registered : Registered p
  env : EnvHolds p p.env
  file : p.configDir ≠ [] → p.files (sys.resolve (stateFile p.configDir)) = some (stateContent sys p)
  written : ∀ content, p.lastWritten = some content → content = stateContent sys p

/-- Writing brings the files up to date. -/
theorem Synced.write {sys : System} {p : Process} (hr : Registered p) {env : Env} (henv : EnvHolds p env)
    (hw : p.configDir = [] → ∀ content, p.lastWritten = some content → content = stateContent sys p) :
    Synced sys (writeStateFile sys { p with env := env }) := by
  rw [writeStateFile]
  split_ifs with hdir
  · exact ⟨⟨hr.ca, hr.serial, hr.peerCert⟩, henv, fun h => absurd hdir h, hw hdir⟩
  · refine ⟨⟨hr.ca, hr.serial, hr.peerCert⟩, henv, fun _ => ?_, fun content hc => ?_⟩
    · exact Function.update_self (sys.resolve (stateFile p.configDir)) _ _
    · exact (Option.some.inj hc).symm

/-- The state file a process with a config directory finds is its own. -/
theorem Synced.found {sys : System} {p : Process} (h : Synced sys p) (hdir : p.configDir ≠ []) :
    foundStateFile sys p = some (stateContent sys p) := by
  rw [foundStateFile, stateFileSearchPaths, if_neg hdir, List.append_assoc, List.append_assoc,
    List.singleton_append, List.map_cons, List.findSome?_cons, h.file hdir]

theorem Synced.hydrate {sys : System} {p : Process} (h : Synced sys p)
    (hagrees : p.hydrated = false → p.configDir = [] → ∀ content, foundStateFile sys p = some content →
      Agrees p content) :
    Synced sys (hydrateEnvFromStateFileOnce sys p) := by
  rw [hydrateEnvFromStateFileOnce]
  split_ifs with hdone
  · exact h
  · cases hfound : foundStateFile sys p with
    | none => exact ⟨⟨h.registered.ca, h.registered.serial, h.registered.peerCert⟩, h.env, h.file, h.written⟩
    | some content =>
        have hcontent : Agrees p content := by
          by_cases hdir : p.configDir = []
          · exact hagrees (by simpa using hdone) hdir content hfound
          · obtain rfl := Option.some.inj ((h.found hdir).symm.trans hfound)
            exact agrees_stateContent sys h.registered
        exact ⟨⟨h.registered.ca, h.registered.serial, h.registered.peerCert⟩, h.env.hydrate hcontent,
          h.file, h.written⟩

/-- A lookup of a value that is held returns it and takes nothing over. -/
theorem Synced.lookup {sys : System} {p : Process} (h : Synced sys p) {key value : Bytes}
    (hheld : Held p key value) : envVarGet sys p key = (some value, p) := by
  obtain ⟨hkey, hne, -⟩ := hheld.entry h.registered
  have hos : envVarGetOs p.env key = some value := by
    rw [envVarGetOs, h.env key value hheld, Option.filter_some, if_pos (by simpa using hne)]
  rw [envVarGet, if_neg hkey.ne_nil, hos]

/-- A new process finds exactly what the registry holds. -/
theorem Synced.fresh {sys : System} {p q : Process} (h : Synced sys p) (hq : FreshFrom sys p q)
    {key : Bytes} (hkey : StateKey key) (value : Bytes) :
    (envVarGet sys q key).1 = some value ↔ Held p key value := by
  obtain ⟨path, content, hpath, hwritten, hfiles⟩ := hq.only
  obtain rfl := h.written content hwritten
  have hfound : foundStateFile sys q = some (stateContent sys p) := by
    have hone : ∀ other, q.files other = none ∨ q.files other = some (stateContent sys p) := by
      intro other
      rw [hfiles, Function.update_apply]
      split_ifs
      · exact Or.inr rfl
      · exact Or.inl rfl
    have hsome : (foundStateFile sys q).isSome = true := by
      rw [foundStateFile, List.findSome?_isSome_iff]
      exact ⟨path, hpath, by rw [hfiles, Function.update_self]; rfl⟩
    obtain ⟨found, hfound⟩ := Option.isSome_iff_exists.mp hsome
    obtain ⟨other, -, hother⟩ := List.exists_of_findSome?_eq_some hfound
    rcases hone (sys.resolve other) with h | h
    · exact absurd (h.symm.trans hother) (by simp)
    · exact hfound.trans (hother.symm.trans h)
  have hnone := hq.env key hkey.ipc
  have hvalue : (envVarGet sys q key).1 =
      ((((lastAssigned (stateContent sys p) key).map some).getD (q.env key))).filter (· ≠ []) := by
    rw [envVarGet, if_neg hkey.ne_nil, hnone]
    simp only [hkey.ipc, if_true, hydrateEnvFromStateFileOnce, hq.hydrated, hfound]
    rw [if_neg (by simp), envVarGetOs]
    exact congrArg _ (applyStateLines q.env (stateContent sys p) key)
  rw [hvalue, ← lastAssigned_stateContent sys h.registered]
  cases hlast : lastAssigned (stateContent sys p) key with
  | none =>
      rw [Option.map_none, Option.getD_none]
      exact iff_of_false (by rw [show (q.env key).filter (· ≠ []) = none from hnone]; simp) (by simp)
  | some other =>
      have hheld := (lastAssigned_stateContent sys h.registered).mp hlast
      rw [Option.map_some, Option.getD_some, Option.filter_some,
        if_pos (by simpa using (hheld.entry h.registered).2.1)]

theorem Synced.answers {sys : System} {p : Process} (h : Synced sys p) : Answers sys p where
  ca := fun hne => by rw [h.lookup (held_ca.mpr ⟨rfl, hne⟩)]
  serial := fun ip serial hip => by rw [h.lookup (Or.inr (Or.inl ⟨ip, hip, rfl⟩))]
  peerCert := fun ip path hip => by rw [h.lookup (Or.inr (Or.inr ⟨ip, hip, rfl⟩))]
  fresh := by
    intro q hq
    refine ⟨?_, fun ip hip => ⟨?_, ?_⟩⟩
    · apply Option.ext
      intro value
      rw [h.fresh hq stateKey_ca, held_ca]
      split_ifs with hca
      · simp [hca]
      · rw [Option.some.injEq]
        constructor
        · exact fun hv => hv.1.symm
        · rintro rfl
          exact ⟨rfl, hca⟩
    · apply Option.ext
      intro value
      rw [h.fresh hq (stateKey_ip hip), held_ip h.registered hip]
    · apply Option.ext
      intro value
      rw [h.fresh hq (stateKey_peer hip), held_peer h.registered hip]

/-! ## One call -/

theorem foldl_env (keyForIp : Bytes → Bytes) (entries : List (Sigma fun _ : Bytes => Bytes)) (p : Process) :
    entries.foldl (fun p e => { p with env := setEnvVar p.env (keyForIp e.1) e.2 }) p =
      { p with env := entries.foldl (fun env e => setEnvVar env (keyForIp e.1) e.2) p.env } := by
  induction entries generalizing p with
  | nil => rfl
  | cons e entries ih => exact ih _

theorem order_held {sys : System} {m : StringMap} {e : Sigma fun _ : Bytes => Bytes}
    (he : e ∈ sys.order m.entries) : m.lookup e.1 = some e.2 := by
  rw [(sys.perm _).mem_iff] at he
  exact AList.mem_lookup_iff.mpr he

theorem Synced.sync {sys : System} {p : Process} (hr : Registered p) {env : Env} (henv : EnvHolds p env)
    (hw : ∀ content, p.lastWritten = some content → content = stateContent sys p) (dir : Bytes) :
    Synced sys (syncRegistry sys { p with configDir := dir, env := env }) := by
  have hca : EnvHolds p (setEnvVar env kEnvCaFile p.caFile) :=
    EnvHolds.set hr (fun k v hv _ => henv k v hv) stateKey_ca.nul fun v hv => (held_ca.mp hv).1
  have hserials : ∀ e ∈ sys.order p.ipToSerial.entries, Held p (envKeyForIp e.1) e.2 := fun e he =>
    Or.inr (Or.inl ⟨e.1, order_held he, rfl⟩)
  have hcerts : ∀ e ∈ sys.order p.ipToPeerCert.entries, Held p (peerEnvKeyForIp e.1) e.2 := fun e he =>
    Or.inr (Or.inr ⟨e.1, order_held he, rfl⟩)
  have hpeers := (hca.foldl hr hserials).foldl hr hcerts
  have hfirst := foldl_env envKeyForIp (sys.order p.ipToSerial.entries)
  have hsecond := foldl_env peerEnvKeyForIp (sys.order p.ipToPeerCert.entries)
  have hdir : Registered { p with configDir := dir } := ⟨hr.ca, hr.serial, hr.peerCert⟩
  simp only [syncRegistry, syncCaEnv, syncIpEnv, syncPeerEnv, hfirst, hsecond]
  exact Synced.write hdir hpeers fun _ => hw

theorem Synced.setConfigDir {sys : System} {p : Process} (h : Synced sys p) (dir : Bytes) :
    Synced sys (registrySetConfigDir sys p dir) := by
  have hr := h.registered
  rw [registrySetConfigDir]
  split_ifs with hsame hdir
  · exact h
  · exact Synced.sync hr h.env h.written dir
  · have henv : EnvHolds p (setEnvVar p.env kEnvConfigDir dir) := by
      refine EnvHolds.set hr (fun k v hv _ => h.env k v hv) (by decide +kernel) fun v hv => ?_
      exact absurd (hv.entry hr).1.ipc (by decide +kernel)
    exact Synced.sync hr henv h.written dir

theorem Synced.setCaFile {sys : System} {p : Process} (h : Synced sys p) {path : Bytes}
    (hproper : (Call.setCaFile path).Proper) (hc : Current sys p (.setCaFile path)) :
    Synced sys (registrySetCaFile sys p path) := by
  rw [registrySetCaFile]
  split_ifs with hsame
  · exact h
  obtain ⟨hnul, hsaved⟩ := hc.change path (if_neg hsame)
  have hr : Registered { p with caFile := path } :=
    ⟨⟨hproper, hnul⟩, h.registered.serial, h.registered.peerCert⟩
  have henv : EnvHolds { p with caFile := path } (setEnvVar p.env kEnvCaFile path) := by
    refine EnvHolds.set hr (fun k v hv hk => ?_) stateKey_ca.nul fun v hv => (held_ca.mp hv).1
    exact h.env k v (hv.imp_left fun h => absurd h.1 hk)
  apply Synced.write hr henv
  intro hdir content hwritten
  exact absurd ((hsaved hdir).symm.trans hwritten) (by simp)

theorem Synced.putIpSerial {sys : System} {p : Process} (h : Synced sys p) {ip serial : Bytes}
    (hproper : (Call.putIpSerial ip serial).Proper) (hc : Current sys p (.putIpSerial ip serial)) :
    Synced sys (registryPutIpSerial sys p ip serial) := by
  rw [registryPutIpSerial]
  split_ifs with hempty hsame
  · exact h
  · exact h
  obtain ⟨hnul, hsaved⟩ := hc.change serial (if_neg (by tauto))
  obtain ⟨hip, hlf⟩ := hproper
  obtain ⟨-, hne⟩ := not_or.mp hempty
  have hold : ∀ ip' v, (p.ipToSerial.insert ip serial).lookup ip' = some v → ip' ≠ ip →
      p.ipToSerial.lookup ip' = some v := fun ip' v hv hother => by
    rwa [AList.lookup_insert_ne hother] at hv
  have hnew : ∀ v, (p.ipToSerial.insert ip serial).lookup ip = some v → v = serial := fun v hv => by
    rw [AList.lookup_insert] at hv
    exact (Option.some.inj hv).symm
  have hr : Registered { p with ipToSerial := p.ipToSerial.insert ip serial } := by
    refine ⟨h.registered.ca, fun ip' v hv => ?_, h.registered.peerCert⟩
    by_cases hother : ip' = ip
    · subst hother
      obtain rfl := hnew v hv
      exact ⟨hip, hne, hlf, hnul⟩
    · exact h.registered.serial ip' v (hold ip' v hv hother)
  have henv : EnvHolds { p with ipToSerial := p.ipToSerial.insert ip serial }
      (setEnvVar p.env (envKeyForIp ip) serial) := by
    refine EnvHolds.set hr ?_ (stateKey_ip hip).nul fun v hv => hnew v ((held_ip hr hip).mp hv)
    rintro k v (hca | ⟨ip', hv, rfl⟩ | hpeer) hk
    · exact h.env k v (Or.inl hca)
    · have hother : ip' ≠ ip := fun heq => hk (by rw [heq])
      exact h.env _ v (Or.inr (Or.inl ⟨ip', hold ip' v hv hother, rfl⟩))
    · exact h.env k v (Or.inr (Or.inr hpeer))
  apply Synced.write hr henv
  intro hdir content hwritten
  exact absurd ((hsaved hdir).symm.trans hwritten) (by simp)

/-- Another map of certificates that differs at one address, where the environment follows. -/
theorem Synced.changePeerCert {sys : System} {p : Process} (h : Synced sys p) {ip path : Bytes} {m : StringMap}
    (hip : Dotted ip) (hold : ∀ ip', ip' ≠ ip → m.lookup ip' = p.ipToPeerCert.lookup ip')
    (hnew : ∀ v, m.lookup ip = some v → v = path ∧ v ≠ [] ∧ PlainText v)
    (hsaved : p.configDir = [] → p.lastWritten = none) :
    Synced sys (writeStateFile sys (syncPeerEnv { p with ipToPeerCert := m } ip path)) := by
  have hr : Registered { p with ipToPeerCert := m } := by
    refine ⟨h.registered.ca, h.registered.serial, fun ip' v hv => ?_⟩
    by_cases hother : ip' = ip
    · subst hother
      exact ⟨hip, (hnew v hv).2⟩
    · exact h.registered.peerCert ip' v ((hold ip' hother).symm.trans hv)
  have henv : EnvHolds { p with ipToPeerCert := m } (setEnvVar p.env (peerEnvKeyForIp ip) path) := by
    refine EnvHolds.set hr ?_ (stateKey_peer hip).nul fun v hv => (hnew v ((held_peer hr hip).mp hv)).1
    rintro k v (hca | hserial | ⟨ip', hv, rfl⟩) hk
    · exact h.env k v (Or.inl hca)
    · exact h.env k v (Or.inr (Or.inl hserial))
    · have hother : ip' ≠ ip := fun heq => hk (by rw [heq])
      exact h.env _ v (Or.inr (Or.inr ⟨ip', (hold ip' hother).symm.trans hv, rfl⟩))
  apply Synced.write hr henv
  intro hdir content hwritten
  exact absurd ((hsaved hdir).symm.trans hwritten) (by simp)

theorem Synced.setPeerCert {sys : System} {p : Process} (h : Synced sys p) {ip path : Bytes}
    (hproper : (Call.setPeerCert ip path).Proper) (hc : Current sys p (.setPeerCert ip path)) :
    Synced sys (registrySetPeerCert sys p ip path) := by
  obtain ⟨hip, hlf⟩ := hproper
  have hchange : ip ≠ [] → (p.ipToPeerCert.lookup ip).getD [] ≠ path →
      0 ∉ path ∧ (p.configDir = [] → p.lastWritten = none) := fun hne hother =>
    hc.change path (if_neg (by tauto))
  rw [registrySetPeerCert]
  split_ifs with hempty hpath hgone hsame
  · exact h
  · exact h
  · subst hpath
    obtain ⟨old, hold⟩ := Option.ne_none_iff_exists'.mp hgone
    have hne := (h.registered.peerCert ip old hold).2.1
    refine h.changePeerCert hip (fun ip' hother => AList.lookup_erase_ne hother) (fun v hv => ?_)
      (hchange hempty (by simpa [hold] using hne)).2
    rw [AList.lookup_erase] at hv
    cases hv
  · exact h
  · have hother : (p.ipToPeerCert.lookup ip).getD [] ≠ path := by
      cases hold : p.ipToPeerCert.lookup ip with
      | none => exact fun heq => hpath heq.symm
      | some old => exact fun heq => hsame (hold.trans (congrArg some heq))
    obtain ⟨hnul, hsaved⟩ := hchange hempty hother
    refine h.changePeerCert hip (fun ip' hother => AList.lookup_insert_ne hother) (fun v hv => ?_) hsaved
    rw [AList.lookup_insert] at hv
    obtain rfl := Option.some.inj hv
    exact ⟨rfl, hpath, hlf, hnul⟩

theorem Synced.envVarGet {sys : System} {p : Process} (h : Synced sys p) {key : Bytes}
    (hc : Current sys p (.envVarGet key)) : Synced sys (Lan.envVarGet sys p key).2 := by
  rw [Lan.envVarGet]
  by_cases hempty : key = []
  · rw [if_pos hempty]
    exact h
  rw [if_neg hempty]
  cases hos : envVarGetOs p.env key with
  | some v => exact h
  | none =>
      simp only
      split_ifs with hipc
      · exact h.hydrate fun hfirst => hc.hydration key rfl hfirst hipc hos
      · exact h

/-- A call keeps the copies in step if its new value comes through and what it takes over agrees. -/
theorem Synced.step {sys : System} {p : Process} (h : Synced sys p) {call : Call} (hproper : call.Proper)
    (hc : Current sys p call) : Synced sys (p.step sys call) := by
  cases call with
  | setConfigDir dir => exact h.setConfigDir dir
  | setCaFile path => exact h.setCaFile hproper hc
  | putIpSerial ip serial => exact h.putIpSerial hproper hc
  | setPeerCert ip path => exact h.setPeerCert hproper hc
  | envVarGet key => exact h.envVarGet hc

/-! ## Runs -/

/-- A process that has just started, with the environment and the files it finds. -/
def Process.start (env : Env) (files : Bytes → Option Bytes) : Process where
  configDir := []
  caFile := []
  ipToSerial := ∅
  ipToPeerCert := ∅
  env := env
  hydrated := false
  files := files
  lastWritten := none

theorem synced_start (sys : System) (env : Env) (files : Bytes → Option Bytes) :
    Synced sys (Process.start env files) := by
  have hnone : ∀ key value, ¬ Held (Process.start env files) key value := by
    rintro key value (⟨-, h, hne⟩ | ⟨ip, h, -⟩ | ⟨ip, h, -⟩)
    · exact hne h
    · exact absurd h (by simp [Process.start])
    · exact absurd h (by simp [Process.start])
  refine ⟨⟨⟨by simp [Process.start], by simp [Process.start]⟩, ?_, ?_⟩, ?_, ?_, ?_⟩
  · intro ip value h
    exact absurd h (by simp [Process.start])
  · intro ip value h
    exact absurd h (by simp [Process.start])
  · exact fun key value h => absurd h (hnone key value)
  · exact fun h => absurd rfl h
  · intro content h
    cases h

/-- In a run whose calls are all current, every lookup of a value the registry holds returns it, and a
new process has the values of the registry. -/
theorem registry_answers (sys : System) (env : Env) (files : Bytes → Option Bytes) (calls : List Call)
    (hproper : ∀ call ∈ calls, call.Proper)
    (hcurrent : AtEveryStep (Process.step sys) (Current sys) (Process.start env files) calls) :
    InEveryState (Process.step sys) (Answers sys) (Process.start env files) calls := by
  have hsynced : InEveryState (Process.step sys) (Synced sys) (Process.start env files) calls := by
    have hboth : AtEveryStep (Process.step sys) (fun p call => call.Proper ∧ Current sys p call)
        (Process.start env files) calls := by
      intro past call rest hcalls
      exact ⟨hproper call (by simp [hcalls]), hcurrent past call rest hcalls⟩
    apply inEveryState_of_step _ (synced_start sys env files) hboth
    exact fun p call h hok => h.step hok.1 hok.2
  exact hsynced.mono fun p h => h.answers

/-- A system that iterates in the order of the list and has no links. -/
def System.plain : System := ⟨id, fun _ => List.Perm.refl _, id⟩

/-- A config directory and then a serial are current whatever state file lies in the home directory. -/
theorem registry_answers_ordinary :
    let env : Env := fun key => if key = ascii "HOME" then some (ascii "/home/u") else none
    let files : Bytes → Option Bytes := fun path =>
      if path = ascii "/home/u/.config/BambuStudio/obn.lan_tls.env" then
        some (ascii "OBN_LAN_TLS_IP_192_168_1_9=OLD\n") else none
    let calls := [Call.setConfigDir (ascii "/cfg"), .putIpSerial (ascii "192.168.1.9") (ascii "NEW"),
      .envVarGet kEnvSerialWaitMs]
    InEveryState (Process.step .plain) (Answers .plain) (Process.start env files) calls := by
  intro env files calls
  apply registry_answers
  · intro call hcall
    simp only [calls, List.mem_cons, List.not_mem_nil, or_false] at hcall
    rcases hcall with rfl | rfl | rfl
    · trivial
    · exact ⟨by unfold Dotted; decide +kernel, by decide +kernel⟩
    · trivial
  · refine atEveryStep_cons.mpr ⟨?_, atEveryStep_cons.mpr ⟨?_, atEveryStep_cons.mpr ⟨?_, atEveryStep_nil⟩⟩⟩
    · refine ⟨fun value h => ?_, fun key h => ?_⟩
      · cases h
      · cases h
    · refine ⟨fun value h => ?_, fun key h => ?_⟩
      · have hnew : (registrySetConfigDir .plain (Process.start env files) (ascii "/cfg")).newValue
            (.putIpSerial (ascii "192.168.1.9") (ascii "NEW")) = some (ascii "NEW") := by
          decide +kernel
        obtain rfl := Option.some.inj (hnew.symm.trans h)
        exact ⟨by decide +kernel, fun hdir => absurd hdir (by decide +kernel)⟩
      · cases h
    · refine ⟨fun value h => ?_, fun key h hdone hipc hos hdir => ?_⟩
      · cases h
      · exact absurd hdir (by decide +kernel)

/-- Without a config directory the first lookup of another value replaces a serial by an older one. -/
theorem registry_answers_fails :
    let env : Env := fun key => if key = ascii "HOME" then some (ascii "/home/u") else none
    let files : Bytes → Option Bytes := fun path =>
      if path = ascii "/home/u/.config/BambuStudio/obn.lan_tls.env" then
        some (ascii "OBN_LAN_TLS_IP_192_168_1_9=OLD\n") else none
    let calls := [Call.putIpSerial (ascii "192.168.1.9") (ascii "NEW"), .envVarGet kEnvSerialWaitMs]
    (∀ call ∈ calls, call.Proper) ∧
      ¬ InEveryState (Process.step .plain) (Answers .plain) (Process.start env files) calls := by
  intro env files calls
  constructor
  · intro call hcall
    simp only [calls, List.mem_cons, List.not_mem_nil, or_false] at hcall
    rcases hcall with rfl | rfl
    · exact ⟨by unfold Dotted; decide +kernel, by decide +kernel⟩
    · trivial
  · intro h
    have hlast := (h calls [] (by simp)).serial (ascii "192.168.1.9") (ascii "NEW") (by decide +kernel)
    exact absurd hlast (by decide +kernel)

end OpenBambu.Lan
