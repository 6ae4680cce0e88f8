import OpenBambu.Foundation.LastOf

/-!
# The configuration file

`obn.conf` has a setting on each line. `parse_file` applies the lines in turn, so that the last one counts.
A value that cannot be read ought to leave its setting alone, which `apply_key` sees to for ports that are no
number, but not for switches: `truthy` makes them false.
-/

namespace OpenBambu.Config

open OpenBambu.Foundation

structure Settings where
  logLevel : Bytes := []
  logStderr : Bytes := []
  logToFile : Bytes := []
  logFile : Bytes := []
  cloudGlobalApiHost : Bytes := []
  cloudGlobalWebHost : Bytes := []
  cloudGlobalMqttHost : Bytes := []
  cloudCnApiHost : Bytes := []
  cloudCnWebHost : Bytes := []
  cloudCnMqttHost : Bytes := []
  lanTlsSkipVerify : Bool := false
  cloudMqttPort : Int := 8883
  blockCloud : Bool := true
  forceTimelapseExternal : Bool := false
  bambusourceLogLevel : Bytes := []
  bambusourceLogFile : Bytes := []
  deriving DecidableEq, Repr

def equals : Byte := 0x3d

def hash : Byte := 0x23

/-- Key and value of a line, if it has them. -/
def parseLine (line : Bytes) : Option (Bytes × Bytes) :=
  if line = [] ∨ line.head? = some hash then none
  else
    match cut equals line with
    | none => none
    | some (front, behind) =>
        if front = [] then none
        else if trim front = [] then none
        else some (trim front, trim behind)

def truthy (val : Bytes) (fallback : Bool) : Bool :=
  if lc val = ascii "1" ∨ lc val = ascii "true" ∨ lc val = ascii "yes" then true
  else if lc val = ascii "0" ∨ lc val = ascii "false" ∨ lc val = ascii "no" then false
  else fallback

def applyKey (out : Settings) (key val : Bytes) : Settings :=
  if key = ascii "log_level" then { out with logLevel := val }
  else if key = ascii "log_stderr" then { out with logStderr := val }
  else if key = ascii "log_to_file" then { out with logToFile := val }
  else if key = ascii "log_file" then { out with logFile := val }
  else if key = ascii "cloud_global_api_host" then { out with cloudGlobalApiHost := val }
  else if key = ascii "cloud_global_web_host" then { out with cloudGlobalWebHost := val }
  else if key = ascii "cloud_global_mqtt_host" then { out with cloudGlobalMqttHost := val }
  else if key = ascii "cloud_cn_api_host" then { out with cloudCnApiHost := val }
  else if key = ascii "cloud_cn_web_host" then { out with cloudCnWebHost := val }
  else if key = ascii "cloud_cn_mqtt_host" then { out with cloudCnMqttHost := val }
  else if key = ascii "lan_tls_skip_verify" then { out with lanTlsSkipVerify := truthy val false }
  else if key = ascii "cloud_mqtt_port" then
    if 0 < atoi val ∧ atoi val ≤ 65535 then { out with cloudMqttPort := atoi val } else out
  else if key = ascii "block_cloud" then { out with blockCloud := truthy val false }
  else if key = ascii "force_timelapse_external" then { out with forceTimelapseExternal := truthy val false }
  else if key = ascii "bambusource_log_level" then { out with bambusourceLogLevel := val }
  else if key = ascii "bambusource_log_file" then { out with bambusourceLogFile := val }
  else out

def takeLine (out : Settings) (line : Bytes) : Settings :=
  match parseLine line with
  | none => out
  | some (key, val) => applyKey out key val

/-- The settings of a file, `none` when it cannot be opened. -/
def parseFile : Option Bytes → Settings
  | none => {}
  | some text => (pieces Ascii.lf text).foldl takeLine {}

/-! ## The keys -/

/-- The settings that are texts. -/
inductive TextSetting where
  | logLevel | logStderr | logToFile | logFile
  | cloudGlobalApiHost | cloudGlobalWebHost | cloudGlobalMqttHost
  | cloudCnApiHost | cloudCnWebHost | cloudCnMqttHost
  | bambusourceLogLevel | bambusourceLogFile
  deriving DecidableEq, Repr

def TextSetting.key : TextSetting → Bytes
  | .logLevel => ascii "log_level"
  | .logStderr => ascii "log_stderr"
  | .logToFile => ascii "log_to_file"
  | .logFile => ascii "log_file"
  | .cloudGlobalApiHost => ascii "cloud_global_api_host"
  | .cloudGlobalWebHost => ascii "cloud_global_web_host"
  | .cloudGlobalMqttHost => ascii "cloud_global_mqtt_host"
  | .cloudCnApiHost => ascii "cloud_cn_api_host"
  | .cloudCnWebHost => ascii "cloud_cn_web_host"
  | .cloudCnMqttHost => ascii "cloud_cn_mqtt_host"
  | .bambusourceLogLevel => ascii "bambusource_log_level"
  | .bambusourceLogFile => ascii "bambusource_log_file"

def TextSetting.of (f : TextSetting) (s : Settings) : Bytes :=
  match f with
  | .logLevel => s.logLevel
  | .logStderr => s.logStderr
  | .logToFile => s.logToFile
  | .logFile => s.logFile
  | .cloudGlobalApiHost => s.cloudGlobalApiHost
  | .cloudGlobalWebHost => s.cloudGlobalWebHost
  | .cloudGlobalMqttHost => s.cloudGlobalMqttHost
  | .cloudCnApiHost => s.cloudCnApiHost
  | .cloudCnWebHost => s.cloudCnWebHost
  | .cloudCnMqttHost => s.cloudCnMqttHost
  | .bambusourceLogLevel => s.bambusourceLogLevel
  | .bambusourceLogFile => s.bambusourceLogFile

/-- The settings that are on or off. -/
inductive Switch where
  | lanTlsSkipVerify | blockCloud | forceTimelapseExternal
  deriving DecidableEq, Repr

def Switch.key : Switch → Bytes
  | .lanTlsSkipVerify => ascii "lan_tls_skip_verify"
  | .blockCloud => ascii "block_cloud"
  | .forceTimelapseExternal => ascii "force_timelapse_external"

def Switch.of (f : Switch) (s : Settings) : Bool :=
  match f with
  | .lanTlsSkipVerify => s.lanTlsSkipVerify
  | .blockCloud => s.blockCloud
  | .forceTimelapseExternal => s.forceTimelapseExternal

def portKey : Bytes := ascii "cloud_mqtt_port"

/-! ## The law -/

/-- Nothing to trim. -/
def Bare (s : Bytes) : Prop := (∀ c ∈ s.head?, isspace c = false) ∧ ∀ c ∈ s.getLast?, isspace c = false

/-- The line is no comment, and has the key in front of its first `=` and the value behind it, blanks aside. -/
structure Assigns (line key val : Bytes) : Prop where
  notComment : line.head? ≠ some hash
  named : key ≠ [] ∧ equals ∉ key
  bare : Bare key ∧ Bare val
  entry : ∃ a b c d, line = a ++ (key ++ b) ++ equals :: (c ++ (val ++ d)) ∧
    ∀ x ∈ a ++ b ++ (c ++ d), isspace x = true

/-- The words for on and off. -/
def SwitchValue (val : Bytes) (x : Bool) : Prop :=
  (lc val ∈ [ascii "1", ascii "true", ascii "yes"] ∧ x = true) ∨
    (lc val ∈ [ascii "0", ascii "false", ascii "no"] ∧ x = false)

def PortRange (n : Int) : Prop := 0 < n ∧ n ≤ 65535

instance : DecidablePred PortRange := fun n => inferInstanceAs (Decidable (0 < n ∧ n ≤ 65535))

/-- Digits and nothing else. -/
def PortValue (val : Bytes) (x : Int) : Prop :=
  val ≠ [] ∧ (∀ c ∈ val, isDigit c = true) ∧ x = ofDecimal val ∧ PortRange x

def Switch.Line (f : Switch) (line : Bytes) (x : Bool) : Prop := ∃ val, Assigns line f.key val ∧ SwitchValue val x

def PortLine (line : Bytes) (x : Int) : Prop := ∃ val, Assigns line portKey val ∧ PortValue val x

/-- For every key the value of the last line with a valid one, or the default. -/
structure LastValid (lines : List Bytes) (s : Settings) : Prop where
  texts : ∀ f : TextSetting, LastOf (fun line x => Assigns line f.key x) lines (f.of {}) (f.of s)
  switches : ∀ f : Switch, LastOf f.Line lines (f.of {}) (f.of s)
  port : LastOf PortLine lines 8883 s.cloudMqttPort

/-- Where the last line for a switch has no word for on or off, the switch is off anyway. Where the last line for
the port that starts with a port is not a port as a whole, it starts with the right one anyway. -/
structure Harmless (lines : List Bytes) : Prop where
  switches : ∀ (f : Switch) before line behind val, lines = before ++ line :: behind → Assigns line f.key val →
    (∀ l ∈ behind, ∀ w, ¬ Assigns l f.key w) → (∀ x, ¬ SwitchValue val x) →
    LastOf f.Line lines (f.of {}) false
  port : ∀ before line behind val, lines = before ++ line :: behind → Assigns line portKey val →
    PortRange (atoi val) → (∀ l ∈ behind, ∀ w, Assigns l portKey w → ¬ PortRange (atoi w)) →
    (∀ x, ¬ PortValue val x) → LastOf PortLine lines 8883 (atoi val)

/-! ## One line -/

theorem parseLine_iff {line key val : Bytes} : parseLine line = some (key, val) ↔ Assigns line key val := by
  have hblank : isspace equals = false := by decide
  constructor
  · intro h
    unfold parseLine at h
    split_ifs at h with hcomment
    split at h
    · cases h
    · rename_i front behind hcut
      split_ifs at h with hfront hkey
      obtain ⟨rfl, rfl⟩ := Prod.mk.inj (Option.some.inj h)
      obtain ⟨hline, hnot⟩ := cut_eq_some hcut
      obtain ⟨a, b, hkeyEq, hab⟩ := trim_decompose front
      obtain ⟨c, d, hvalEq, hcd⟩ := trim_decompose behind
      have hmem : equals ∉ trim front := by
        intro hin
        rw [hkeyEq] at hnot
        exact hnot (by simp [hin])
      refine ⟨fun hhash => hcomment (Or.inr hhash), ⟨hkey, hmem⟩, ⟨⟨trim_head _, trim_getLast _⟩,
        ⟨trim_head _, trim_getLast _⟩⟩, a, b, c, d, ?_, fun x hx => ?_⟩
      · rw [← hkeyEq, ← hvalEq, hline]
      · rcases List.mem_append.mp hx with hx | hx
        · exact hab x hx
        · exact hcd x hx
  · rintro ⟨hcomment, ⟨hne, hmem⟩, ⟨hkey, hval⟩, a, b, c, d, rfl, hspace⟩
    have hnot : ∀ t : Bytes, (∀ x ∈ t, isspace x = true) → equals ∉ t := by
      intro t ht hin
      rw [ht equals hin] at hblank
      cases hblank
    have ha : ∀ x ∈ a, isspace x = true := fun x hx => hspace x (by simp [hx])
    have hb : ∀ x ∈ b, isspace x = true := fun x hx => hspace x (by simp [hx])
    have hc : ∀ x ∈ c, isspace x = true := fun x hx => hspace x (by simp [hx])
    have hd : ∀ x ∈ d, isspace x = true := fun x hx => hspace x (by simp [hx])
    have hfront : equals ∉ a ++ (key ++ b) := by simp [hnot a ha, hnot b hb, hmem]
    rw [parseLine, if_neg (not_or.mpr ⟨by simp, hcomment⟩), cut_of_not_mem hfront]
    dsimp only
    rw [if_neg (by simp [hne]), trim_between hkey.1 hkey.2 ha hb, if_neg hne, trim_between hval.1 hval.2 hc hd]

/-- The value of a line for one key. -/
def lineValue (key line : Bytes) : Option Bytes :=
  (parseLine line).bind fun p => if p.1 = key then some p.2 else none

theorem lineValue_iff {key line val : Bytes} : lineValue key line = some val ↔ Assigns line key val := by
  rw [← parseLine_iff, lineValue, Option.bind_eq_some_iff]
  constructor
  · rintro ⟨⟨k, v⟩, hparse, hv⟩
    split_ifs at hv with hk
    obtain rfl := Option.some.inj hv
    rw [hparse, ← hk]
  · intro h
    exact ⟨(key, val), h, if_pos rfl⟩

theorem applyKey_text (f : TextSetting) (s : Settings) (key val : Bytes) :
    f.of (applyKey s key val) = if key = f.key then val else f.of s := by
  by_cases hkey : key = f.key
  · rw [if_pos hkey, hkey]
    cases f <;> rfl
  · rw [if_neg hkey]
    -- Every other branch leaves the field as it is.
    cases f <;> rw [TextSetting.key] at hkey <;>
      simp only [applyKey, TextSetting.of, apply_ite Settings.logLevel, apply_ite Settings.logStderr,
        apply_ite Settings.logToFile, apply_ite Settings.logFile, apply_ite Settings.cloudGlobalApiHost,
        apply_ite Settings.cloudGlobalWebHost, apply_ite Settings.cloudGlobalMqttHost,
        apply_ite Settings.cloudCnApiHost, apply_ite Settings.cloudCnWebHost, apply_ite Settings.cloudCnMqttHost,
        apply_ite Settings.bambusourceLogLevel, apply_ite Settings.bambusourceLogFile, hkey, if_false, ite_self]

theorem applyKey_switch (f : Switch) (s : Settings) (key val : Bytes) :
    f.of (applyKey s key val) = if key = f.key then truthy val false else f.of s := by
  by_cases hkey : key = f.key
  · rw [if_pos hkey, hkey]
    cases f <;> rfl
  · rw [if_neg hkey]
    cases f <;> rw [Switch.key] at hkey <;>
      simp only [applyKey, Switch.of, apply_ite Settings.lanTlsSkipVerify, apply_ite Settings.blockCloud,
        apply_ite Settings.forceTimelapseExternal, hkey, if_false, ite_self]

theorem applyKey_port (s : Settings) (key val : Bytes) :
    (applyKey s key val).cloudMqttPort =
      if key = portKey then if 0 < atoi val ∧ atoi val ≤ 65535 then atoi val else s.cloudMqttPort
      else s.cloudMqttPort := by
  by_cases hkey : key = portKey
  · rw [if_pos hkey, hkey]
    have hbranch : applyKey s portKey val =
        if 0 < atoi val ∧ atoi val ≤ 65535 then { s with cloudMqttPort := atoi val } else s := rfl
    rw [hbranch, apply_ite Settings.cloudMqttPort]
  · rw [if_neg hkey]
    rw [portKey] at hkey
    simp only [applyKey, apply_ite Settings.cloudMqttPort, hkey, if_false, ite_self]

theorem takeLine_eq (s : Settings) (line : Bytes) {α : Type} (get : Settings → α) (key : Bytes)
    (write : Bytes → α → α)
    (h : ∀ k val, get (applyKey s k val) = if k = key then write val (get s) else get s) :
    get (takeLine s line) = ((lineValue key line).map fun val => write val (get s)).getD (get s) := by
  unfold takeLine lineValue
  cases parseLine line with
  | none => rfl
  | some p =>
      obtain ⟨k, val⟩ := p
      rw [Option.bind_some]
      dsimp only
      rw [h]
      split_ifs <;> rfl

theorem takeLine_text (f : TextSetting) (s : Settings) (line : Bytes) :
    f.of (takeLine s line) = (lineValue f.key line).getD (f.of s) := by
  rw [takeLine_eq s line f.of f.key (fun val _ => val) fun k val => applyKey_text f s k val, Option.map_id']

theorem takeLine_switch (f : Switch) (s : Settings) (line : Bytes) :
    f.of (takeLine s line) = ((lineValue f.key line).map fun val => truthy val false).getD (f.of s) :=
  takeLine_eq s line f.of f.key (fun val _ => truthy val false) fun k val => applyKey_switch f s k val

/-- The port a line is taken for. -/
def linePort (line : Bytes) : Option Int :=
  (lineValue portKey line).bind fun val => if PortRange (atoi val) then some (atoi val) else none

theorem takeLine_port (s : Settings) (line : Bytes) :
    (takeLine s line).cloudMqttPort = (linePort line).getD s.cloudMqttPort := by
  rw [takeLine_eq s line Settings.cloudMqttPort portKey
    (fun val old => if 0 < atoi val ∧ atoi val ≤ 65535 then atoi val else old) (applyKey_port s), linePort]
  cases lineValue portKey line with
  | none => rfl
  | some val =>
      rw [Option.map_some, Option.bind_some, Option.getD_some]
      by_cases hport : PortRange (atoi val)
      · rw [if_pos hport, Option.getD_some]
        exact if_pos hport
      · rw [if_neg hport, Option.getD_none]
        exact if_neg hport

/-! ## The words for on and off -/

def readSwitch (val : Bytes) : Option Bool :=
  if lc val ∈ [ascii "1", ascii "true", ascii "yes"] then some true
  else if lc val ∈ [ascii "0", ascii "false", ascii "no"] then some false
  else none

theorem readSwitch_iff {val : Bytes} {x : Bool} : readSwitch val = some x ↔ SwitchValue val x := by
  have hapart : lc val ∈ [ascii "1", ascii "true", ascii "yes"] →
      lc val ∉ [ascii "0", ascii "false", ascii "no"] := by
    generalize lc val = w
    revert w
    decide +kernel
  unfold readSwitch SwitchValue
  split_ifs with hon hoff
  · simp [hon, hapart hon, eq_comm]
  · simp [hon, hoff, eq_comm]
  · simp [hon, hoff]

theorem truthy_eq (val : Bytes) (fallback : Bool) : truthy val fallback = (readSwitch val).getD fallback := by
  unfold truthy readSwitch
  simp only [List.mem_cons, List.not_mem_nil, or_false]
  split_ifs <;> rfl

theorem truthy_unread {val : Bytes} (h : ∀ x, ¬ SwitchValue val x) : truthy val false = false := by
  rw [truthy_eq]
  cases hread : readSwitch val with
  | none => rfl
  | some x => exact absurd (readSwitch_iff.mp hread) (h x)

/-! ## Whole files -/

theorem switchLine_iff (f : Switch) (line : Bytes) (x : Bool) :
    f.Line line x ↔ (lineValue f.key line).bind readSwitch = some x := by
  rw [Option.bind_eq_some_iff]
  simp only [Switch.Line, lineValue_iff, readSwitch_iff]

/-- What the code takes a line for. -/
theorem switchTaken_iff (f : Switch) (line : Bytes) (x : Bool) :
    (∃ val, Assigns line f.key val ∧ x = truthy val false) ↔
      ((lineValue f.key line).map fun val => truthy val false) = some x := by
  rw [Option.map_eq_some_iff]
  simp only [lineValue_iff, eq_comm (a := x)]

theorem portTaken_iff (line : Bytes) (x : Int) :
    (∃ val, Assigns line portKey val ∧ PortRange (atoi val) ∧ x = atoi val) ↔ linePort line = some x := by
  rw [linePort, Option.bind_eq_some_iff]
  simp only [lineValue_iff, Option.ite_none_right_eq_some, Option.some.injEq, eq_comm (a := x)]

theorem Assigns.value_unique {line key v w : Bytes} (hv : Assigns line key v) (hw : Assigns line key w) : v = w :=
  Option.some.inj ((lineValue_iff.mpr hv).symm.trans (lineValue_iff.mpr hw))

theorem switch_agree (f : Switch) (lines : List Bytes) :
    LastOf f.Line lines (f.of {}) (f.of (lines.foldl takeLine {})) ↔
      ∀ before line behind val, lines = before ++ line :: behind → Assigns line f.key val →
        (∀ l ∈ behind, ∀ w, ¬ Assigns l f.key w) → (∀ x, ¬ SwitchValue val x) →
        LastOf f.Line lines (f.of {}) false := by
  have htaken := lastOf_foldl (switchTaken_iff f) (takeLine_switch f) lines {}
  rw [lastOf_agree (Q := fun line x => ∃ val, Assigns line f.key val ∧ x = truthy val false) ?_ ?_ htaken]
  · constructor
    · intro h before line behind val hsplit hval hbehind hnone
      have hlast : LastOf f.Line lines (f.of {}) (truthy val false) := by
        refine h before line behind _ hsplit ⟨val, hval, rfl⟩ ?_ ?_
        · rintro l hl z ⟨w, hw, -⟩
          exact hbehind l hl w hw
        · rintro z ⟨w, hw, hz⟩
          exact hnone z (hval.value_unique hw ▸ hz)
      rwa [truthy_unread hnone] at hlast
    · rintro h before line behind x hsplit ⟨val, hval, rfl⟩ hbehind hnone
      have hno : ∀ x, ¬ SwitchValue val x := fun z hz => hnone z ⟨val, hval, hz⟩
      rw [truthy_unread hno]
      exact h before line behind val hsplit hval (fun l hl w hw => hbehind l hl _ ⟨w, hw, rfl⟩) hno
  · rintro line x ⟨val, hval, hx⟩
    refine ⟨val, hval, ?_⟩
    rw [truthy_eq, readSwitch_iff.mpr hx, Option.getD_some]
  · rintro line x y ⟨v, hv, rfl⟩ ⟨w, hw, rfl⟩
    rw [hv.value_unique hw]

/-- A port on its own is what `atoi` reads. -/
theorem atoi_port {val : Bytes} {x : Int} (h : PortValue val x) : atoi val = x := by
  obtain ⟨-, hdigits, rfl, -, hhigh⟩ := h
  exact atoi_digits hdigits (by omega)

theorem port_agree (lines : List Bytes) :
    LastOf PortLine lines 8883 (lines.foldl takeLine {}).cloudMqttPort ↔
      ∀ before line behind val, lines = before ++ line :: behind → Assigns line portKey val →
        PortRange (atoi val) → (∀ l ∈ behind, ∀ w, Assigns l portKey w → ¬ PortRange (atoi w)) →
        (∀ x, ¬ PortValue val x) → LastOf PortLine lines 8883 (atoi val) := by
  have htaken := lastOf_foldl portTaken_iff takeLine_port lines {}
  rw [lastOf_agree (Q := fun line x => ∃ val, Assigns line portKey val ∧ PortRange (atoi val) ∧ x = atoi val) ?_ ?_
    htaken]
  · constructor
    · intro h before line behind val hsplit hval hrange hbehind hnone
      refine h before line behind _ hsplit ⟨val, hval, hrange, rfl⟩ ?_ ?_
      · rintro l hl z ⟨w, hw, hport, -⟩
        exact hbehind l hl w hw hport
      · rintro z ⟨w, hw, hz⟩
        exact hnone z (hval.value_unique hw ▸ hz)
    · rintro h before line behind x hsplit ⟨val, hval, hrange, rfl⟩ hbehind hnone
      exact h before line behind val hsplit hval hrange (fun l hl w hw hport => hbehind l hl _ ⟨w, hw, hport, rfl⟩)
        fun z hz => hnone z ⟨val, hval, hz⟩
  · rintro line x ⟨val, hval, hx⟩
    have hatoi := atoi_port hx
    exact ⟨val, hval, hatoi ▸ hx.2.2.2, hatoi.symm⟩
  · rintro line x y ⟨v, hv, -, rfl⟩ ⟨w, hw, -, rfl⟩
    rw [hv.value_unique hw]

theorem texts_last (lines : List Bytes) (f : TextSetting) :
    LastOf (fun line x => Assigns line f.key x) lines (f.of {}) (f.of (lines.foldl takeLine {})) := by
  have hread : ∀ line x, Assigns line f.key x ↔ lineValue f.key line = some x := fun _ _ => lineValue_iff.symm
  exact lastOf_foldl hread (takeLine_text f) lines {}

/-- The last valid value of every key is what counts in exactly the files whose last values, if they are not valid,
do no harm. -/
theorem lastValid_iff (text : Bytes) :
    LastValid (pieces Ascii.lf text) (parseFile (some text)) ↔ Harmless (pieces Ascii.lf text) := by
  rw [parseFile]
  constructor
  · intro h
    exact ⟨fun f => (switch_agree f _).mp (h.switches f), (port_agree _).mp h.port⟩
  · intro h
    exact ⟨texts_last _, fun f => (switch_agree f _).mpr (h.switches f), (port_agree _).mpr h.port⟩

/-- A slip in a file that blocks the cloud, as without the file. -/
def mistyped : Bytes := ascii "# privacy\nblock_cloud = yes\nblock_cloud = ture\n"

theorem lastValid_mistyped : ¬ LastValid (pieces Ascii.lf mistyped) (parseFile (some mistyped)) := by
  intro h
  have hlast := (lastOf_iff (switchLine_iff .blockCloud)).mp (h.switches .blockCloud)
  have hcode : Switch.blockCloud.of (parseFile (some mistyped)) = false := by decide +kernel
  rw [hcode] at hlast
  revert hlast
  decide +kernel

end OpenBambu.Config
