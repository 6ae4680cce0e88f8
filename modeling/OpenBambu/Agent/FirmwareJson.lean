import OpenBambu.Agent.Firmware
import OpenBambu.Agent.Versions
import OpenBambu.Json.Layout

/-!
# The firmware catalogue

`render_firmware_json` writes what is known of a printer's firmware as JSON, piece by piece into one
string. The pieces make up the document whatever is known and whatever the strings are.
-/

namespace OpenBambu.Agent

open OpenBambu.Foundation OpenBambu.Json

/-! ## The code -/

/-- `emit_fw_entry`: what it appends to, and whether the next entry is the first. -/
def emitFwEntry (dst : Bytes × Bool) (version description : Bytes) : Bytes × Bool :=
  let text := if dst.2 then dst.1 else dst.1 ++ [Ascii.comma]
  (text ++ ascii "\x7b\"version\":" ++ escape version ++ ascii ",\"url\":\"\",\"description\":" ++
    escape description ++ [Ascii.rbrace], false)

def has (product : Bytes) (series : String) : Bool := (findText (ascii series) product).isSome

def productSlug (product : Bytes) : Bytes :=
  if has product "X1" then ascii "x1"
  else if has product "P2" then ascii "p1"
  else if has product "P1" then ascii "p1"
  else if has product "A1" then ascii "a1"
  else if has product "H2" then ascii "h2d"
  else if has product "N7" then ascii "n7"
  else ascii "all"

def notesUrl (product : Bytes) : Bytes :=
  ascii "https://bambulab.com/en/support/firmware-download/" ++ productSlug product

def currentDescription (product : Bytes) : Bytes :=
  ascii "Currently installed firmware. Full changelog at " ++ notesUrl product ++ ascii "."

def newDescription (product newVer : Bytes) : Bytes :=
  ascii "New firmware version " ++ newVer ++ ascii " is available.\n\nRelease notes: " ++ notesUrl product ++
    ascii "\n\nClick 'Update' to install; the printer already knows which package to download. " ++
    ascii "Do not turn off the printer during the update (~10 minutes)."

def amsDescription (product : Bytes) : Bytes := ascii "AMS firmware. Release notes: " ++ notesUrl product

/-- The entries of the `ota` module; `newer` is whether its new version compares greater. -/
def emitOta (dst : Bytes × Bool) (m : ModuleFw) (newer : Bool) : Bytes × Bool :=
  let dst := if m.curVer = [] then dst else emitFwEntry dst m.curVer (currentDescription m.productName)
  if m.newVer ≠ [] ∧ newer then emitFwEntry dst m.newVer (newDescription m.productName m.newVer) else dst

def isAms (key : Bytes) : Bool := key = ascii "ams" || startsWith key (ascii "ams/")

def advertised (m : ModuleFw) : Bytes := if m.newVer ≠ [] then m.newVer else m.curVer

/-- One turn of the loop over the modules. -/
def emitAms (product : Bytes) (dst : Bytes × Bool) (kv : Bytes × ModuleFw) : Bytes × Bool :=
  if !isAms kv.1 then dst
  else if advertised kv.2 = [] then dst
  else emitFwEntry dst (advertised kv.2) (amsDescription product)

/-- `version_compare(m.new_ver, m.cur_ver) > 0`, which is asked only with a new version. -/
def isNewer (turns : Nat) (m : ModuleFw) : Except Fault Bool :=
  if m.newVer = [] then .ok false
  else do
    let order ← versionCompare turns m.newVer m.curVer
    return 0 < order

/-- The entries of the `ota` module behind `body`, if it is known. -/
def appendOta (turns : Nat) (body : Bytes) (ota : Option ModuleFw) : Except Fault Bytes :=
  match ota with
  | none => .ok body
  | some m => (isNewer turns m).map fun newer => (emitOta (body, true) m newer).1

/-- `render_firmware_json`. -/
def renderFirmwareJson (turns : Nat) (deviceFw : OrderedMap Bytes DeviceFw) (devId : Bytes) :
    Except Fault Bytes := do
  let modules : DeviceFw := (deviceFw.find devId).getD .empty
  let ota := modules.find (ascii "ota")
  let product := (ota.map ModuleFw.productName).getD []
  let body := ascii "\x7b\"devices\":[\x7b\"dev_id\":" ++ escape devId ++ ascii ",\"firmware\":["
  let body ← appendOta turns body ota
  let body := body ++ ascii "],\"ams\":["
  let amsFw := (modules.entries.foldl (emitAms product) ([], true)).1
  let body := if amsFw = [] then body else body ++ ascii "\x7b\"firmware\":[" ++ amsFw ++ ascii "]\x7d"
  return body ++ ascii "]\x7d]\x7d"

/-! ## The document -/

def fwEntry (version description : Bytes) : Value :=
  .object (ofMembers [(ascii "version", .string version), (ascii "url", .string []),
    (ascii "description", .string description)])

/-- The versions of the `ota` module, the installed one first. -/
def otaEntries (m : ModuleFw) (newer : Bool) : List (Bytes × Bytes) :=
  (if m.curVer = [] then [] else [(m.curVer, currentDescription m.productName)]) ++
    (if m.newVer ≠ [] ∧ newer then [(m.newVer, newDescription m.productName m.newVer)] else [])

/-- An AMS module with a version. -/
def isListed (kv : Bytes × ModuleFw) : Bool := isAms kv.1 && decide (advertised kv.2 ≠ [])

/-- The versions of the AMS modules that have one, in the order of their names. -/
def amsEntries (modules : DeviceFw) (product : Bytes) : List (Bytes × Bytes) :=
  (modules.entries.filter isListed).map fun kv => (advertised kv.2, amsDescription product)

/-- The entries as values. -/
def fwEntries (es : List (Bytes × Bytes)) : Value := .array (es.map fun e => fwEntry e.1 e.2)

/-- No element without entries. -/
def amsArray (es : List (Bytes × Bytes)) : Value :=
  .array (if es = [] then [] else [.object (ofMembers [(ascii "firmware", fwEntries es)])])

def catalogue (devId : Bytes) (ota ams : List (Bytes × Bytes)) : Value :=
  .object (ofMembers [(ascii "devices", .array [.object (ofMembers [(ascii "dev_id", .string devId),
    (ascii "firmware", fwEntries ota), (ascii "ams", amsArray ams)])])])

/-- The text comes back and is the document of what is known of the device: the new version of the
`ota` module is in it exactly when it compares greater. -/
def Catalogued (deviceFw : OrderedMap Bytes DeviceFw) (devId : Bytes) : Prop :=
  ∃ text, (∃ turns, renderFirmwareJson turns deviceFw devId = .ok text) ∧
    ∃ newer : Bool,
      let modules : DeviceFw := (deviceFw.find devId).getD .empty
      let ota := modules.find (ascii "ota")
      (∀ m ∈ ota, newer = true ↔ ∃ c > 0, Compares m.newVer m.curVer c) ∧
      parse text = .ok (catalogue devId ((ota.map fun m => otaEntries m newer).getD [])
        (amsEntries modules ((ota.map ModuleFw.productName).getD [])))

/-! ## The pieces -/

def entryText (e : Bytes × Bytes) : Bytes :=
  compact.object [(ascii "version", escape e.1), (ascii "url", escape []), (ascii "description", escape e.2)]

/-- The texts of an array without its brackets. -/
def joined : List Bytes → Bytes
  | [] => []
  | t :: ts => t ++ ts.flatMap (Ascii.comma :: ·)

theorem arrayText_eq (ts : List Bytes) : arrayText ts = Ascii.lbracket :: (joined ts ++ [Ascii.rbracket]) := by
  cases ts with
  | nil => rfl
  | cons t ts => rw [arrayText, joined, List.append_assoc]

/-- The entries that have been written behind `base`. -/
def Emitted (base : Bytes) (es : List (Bytes × Bytes)) (dst : Bytes × Bool) : Prop :=
  dst = (base ++ joined (es.map entryText), es.isEmpty)

theorem emitted_nil (base : Bytes) : Emitted base [] (base, true) := by
  rw [Emitted, List.map_nil, joined, List.append_nil]
  rfl

theorem emitFwEntry_text (dst : Bytes × Bool) (version description : Bytes) :
    emitFwEntry dst version description =
      ((if dst.2 then dst.1 else dst.1 ++ [Ascii.comma]) ++ entryText (version, description), false) := by
  have hopen : ascii "\x7b\"version\":" =
      Ascii.lbrace :: Ascii.quote :: (ascii "version" ++ [Ascii.quote, Ascii.colon]) := by
    decide
  have hurl : ascii ",\"url\":\"\",\"description\":" = Ascii.comma :: Ascii.quote :: (ascii "url" ++
      Ascii.quote :: Ascii.colon :: (escape [] ++ Ascii.comma :: Ascii.quote :: (ascii "description" ++
        [Ascii.quote, Ascii.colon]))) := by
    decide
  rw [emitFwEntry, hopen, hurl]
  simp [entryText, Layout.object, Layout.more, Layout.member, compact]

theorem emitted_snoc {base : Bytes} {es : List (Bytes × Bytes)} {dst : Bytes × Bool} (h : Emitted base es dst)
    (version description : Bytes) :
    Emitted base (es ++ [(version, description)]) (emitFwEntry dst version description) := by
  rw [emitFwEntry_text, h]
  cases es with
  | nil => simp [Emitted, joined]
  | cons e es => simp [Emitted, joined]

theorem emitted_ota {base : Bytes} (m : ModuleFw) (newer : Bool) :
    Emitted base (otaEntries m newer) (emitOta (base, true) m newer) := by
  have hfirst : Emitted base (if m.curVer = [] then [] else [(m.curVer, currentDescription m.productName)])
      (if m.curVer = [] then (base, true) else emitFwEntry (base, true) m.curVer (currentDescription m.productName)) := by
    split_ifs
    · exact emitted_nil base
    · exact emitted_snoc (emitted_nil base) _ _
  unfold otaEntries emitOta
  dsimp only
  by_cases hnew : m.newVer ≠ [] ∧ newer = true
  · rw [if_pos hnew, if_pos hnew]
    exact emitted_snoc hfirst _ _
  · rw [if_neg hnew, if_neg hnew, List.append_nil]
    exact hfirst

theorem emitted_ams (product : Bytes) (kvs : List (Bytes × ModuleFw)) {es : List (Bytes × Bytes)} {dst : Bytes × Bool}
    (h : Emitted [] es dst) :
    Emitted [] (es ++ (kvs.filter isListed).map fun kv => (advertised kv.2, amsDescription product))
      (kvs.foldl (emitAms product) dst) := by
  induction kvs generalizing es dst with
  | nil => rwa [List.filter_nil, List.map_nil, List.append_nil]
  | cons kv kvs ih =>
      rw [List.foldl_cons]
      by_cases hkept : isListed kv = true
      · have hturn : emitAms product dst kv = emitFwEntry dst (advertised kv.2) (amsDescription product) := by
          rw [isListed, Bool.and_eq_true, decide_eq_true_iff] at hkept
          rw [emitAms, if_neg (by simp [hkept.1]), if_neg hkept.2]
        rw [List.filter_cons_of_pos hkept, List.map_cons, hturn, List.append_cons]
        exact ih (emitted_snoc h _ _)
      · have hturn : emitAms product dst kv = dst := by
          rw [isListed, Bool.and_eq_true, decide_eq_true_iff, not_and, not_not] at hkept
          unfold emitAms
          split_ifs with hams hempty
          · rfl
          · rfl
          · exact absurd (hkept (by simpa using hams)) hempty
        rw [List.filter_cons_of_neg hkept, hturn]
        exact ih h

/-! ## The whole text -/

theorem plain_keys : PlainKey (ascii "version") ∧ PlainKey (ascii "url") ∧ PlainKey (ascii "description") ∧
    PlainKey (ascii "devices") ∧ PlainKey (ascii "dev_id") ∧ PlainKey (ascii "firmware") ∧ PlainKey (ascii "ams") := by
  refine ⟨?_, ?_, ?_, ?_, ?_, ?_, ?_⟩ <;> exact plainKey_of_word (by decide +kernel)

theorem readsAs_entry (e : Bytes × Bytes) : ReadsAs (entryText e) (fwEntry e.1 e.2) := by
  obtain ⟨hversion, hurl, hdescription, -⟩ := plain_keys
  have hkeys : ∀ p ∈ [(ascii "version", e.1), (ascii "url", []), (ascii "description", e.2)], PlainKey p.1 := by
    simp [hversion, hurl, hdescription]
  exact compact.readsAs_strings hkeys

theorem readsAs_entries (es : List (Bytes × Bytes)) : ReadsAs (arrayText (es.map entryText)) (fwEntries es) := by
  have hall : ∀ x ∈ es.map fun e => (entryText e, fwEntry e.1 e.2), ReadsAs x.1 x.2 :=
    List.forall_mem_map.mpr fun e _ => readsAs_entry e
  have hread := readsAs_array hall
  rwa [List.map_map, List.map_map] at hread

/-- The element around the entries of the AMS modules. -/
def amsTexts (es : List (Bytes × Bytes)) : List Bytes :=
  if es = [] then [] else [compact.object [(ascii "firmware", arrayText (es.map entryText))]]

theorem readsAs_ams (es : List (Bytes × Bytes)) : ReadsAs (arrayText (amsTexts es)) (amsArray es) := by
  obtain ⟨-, -, -, -, -, hfirmware, -⟩ := plain_keys
  unfold amsTexts amsArray
  split_ifs
  · exact @readsAs_array [] nofun
  · exact readsAs_single (compact.readsAs_one hfirmware (readsAs_entries es))

def catalogueText (devId : Bytes) (ota ams : List (Bytes × Bytes)) : Bytes :=
  compact.object [(ascii "devices", arrayText [compact.object [(ascii "dev_id", escape devId),
    (ascii "firmware", arrayText (ota.map entryText)), (ascii "ams", arrayText (amsTexts ams))]])]

theorem parse_catalogueText (devId : Bytes) (ota ams : List (Bytes × Bytes)) :
    parse (catalogueText devId ota ams) = .ok (catalogue devId ota ams) := by
  obtain ⟨-, -, -, hdevices, hdevId, hfirmware, hams⟩ := plain_keys
  have hgood : ∀ e ∈ [Entry.ofString (ascii "dev_id") devId,
      ⟨ascii "firmware", arrayText (ota.map entryText), fwEntries ota⟩,
      ⟨ascii "ams", arrayText (amsTexts ams), amsArray ams⟩], e.Good := by
    simp only [List.forall_mem_cons, List.not_mem_nil, false_implies, implies_true, and_true]
    exact ⟨good_ofString hdevId devId, ⟨hfirmware, readsAs_entries ota⟩, ⟨hams, readsAs_ams ams⟩⟩
  exact (compact.readsAs_one hdevices (readsAs_single (compact.readsAs hgood))).parse_self

/-- The pieces that `render_firmware_json` appends make up that text. -/
theorem pieces_catalogueText (devId : Bytes) (ota ams : List (Bytes × Bytes)) :
    (ascii "\x7b\"devices\":[\x7b\"dev_id\":" ++ escape devId ++ ascii ",\"firmware\":[" ++
        joined (ota.map entryText)) ++
      ascii "],\"ams\":[" ++ (if ams = [] then [] else ascii "\x7b\"firmware\":[" ++ joined (ams.map entryText) ++
        ascii "]\x7d") ++ ascii "]\x7d]\x7d" = catalogueText devId ota ams := by
  have hopen : ascii "\x7b\"devices\":[\x7b\"dev_id\":" = Ascii.lbrace :: Ascii.quote :: (ascii "devices" ++
      Ascii.quote :: Ascii.colon :: Ascii.lbracket :: Ascii.lbrace :: Ascii.quote :: (ascii "dev_id" ++
        [Ascii.quote, Ascii.colon])) := by
    decide
  have hfirmware : ascii ",\"firmware\":[" = Ascii.comma :: Ascii.quote :: (ascii "firmware" ++
      [Ascii.quote, Ascii.colon, Ascii.lbracket]) := by
    decide
  have hams : ascii "],\"ams\":[" = Ascii.rbracket :: Ascii.comma :: Ascii.quote :: (ascii "ams" ++
      [Ascii.quote, Ascii.colon, Ascii.lbracket]) := by
    decide
  have helement : ascii "\x7b\"firmware\":[" = Ascii.lbrace :: Ascii.quote :: (ascii "firmware" ++
      [Ascii.quote, Ascii.colon, Ascii.lbracket]) := by
    decide
  have hend : ascii "]\x7d" = [Ascii.rbracket, Ascii.rbrace] := by decide
  have hclose : ascii "]\x7d]\x7d" = [Ascii.rbracket, Ascii.rbrace, Ascii.rbracket, Ascii.rbrace] := by decide
  rw [hopen, hfirmware, hams, helement, hend, hclose, catalogueText, amsTexts, arrayText_eq, arrayText_eq, arrayText_eq]
  split_ifs
  · simp [Layout.object, Layout.more, Layout.member, compact, joined]
  · simp [Layout.object, Layout.more, Layout.member, compact, joined, arrayText_eq]

theorem joined_append (base : Bytes) {es : List (Bytes × Bytes)} {dst : Bytes × Bool} (h : Emitted base es dst) :
    dst.1 = base ++ joined (es.map entryText) := by rw [h]

theorem joined_eq_nil {es : List (Bytes × Bytes)} : joined (es.map entryText) = [] ↔ es = [] := by
  cases es with
  | nil => exact iff_of_true rfl rfl
  | cons e es => simp [joined, entryText, Layout.object]

/-- The comparison of a new version comes back with `newer`. -/
theorem isNewer_ok {turns : Nat} {m : ModuleFw} {newer : Bool} (h : isNewer turns m = .ok newer) :
    Comparable m.newVer m.curVer ∧ (newer = true ↔ ∃ c > 0, Compares m.newVer m.curVer c) := by
  unfold isNewer at h
  split_ifs at h with hnew
  · obtain rfl := Except.ok.inj h
    refine ⟨.inr (.inl hnew), iff_of_false Bool.false_ne_true ?_⟩
    rintro ⟨c, hc, hcompares⟩
    rw [compares_of_shortcut (.inr (.inl hnew))] at hcompares
    omega
  · obtain ⟨order, horder, h⟩ := bind_eq_ok.mp h
    obtain rfl := Except.ok.inj h
    have hcompares : Compares m.newVer m.curVer order := ⟨turns, horder⟩
    refine ⟨comparable_of_compares hcompares, ?_⟩
    rw [decide_eq_true_iff]
    constructor
    · exact fun hpos => ⟨order, hpos, hcompares⟩
    · rintro ⟨c, hc, hother⟩
      rwa [compares_unique hcompares hother]

theorem isNewer_of_comparable {m : ModuleFw} (h : Comparable m.newVer m.curVer) :
    ∃ turns newer, isNewer turns m = .ok newer := by
  by_cases hnew : m.newVer = []
  · exact ⟨0, false, if_pos hnew⟩
  · obtain ⟨v, turns, hv⟩ := comes_back h
    refine ⟨turns, decide (0 < v), ?_⟩
    rw [isNewer, if_neg hnew, hv]
    rfl

theorem assembled (devId : Bytes) (ota ams : List (Bytes × Bytes)) {front : Bytes}
    (h : front = ascii "\x7b\"devices\":[\x7b\"dev_id\":" ++ escape devId ++ ascii ",\"firmware\":[" ++
      joined (ota.map entryText)) :
    (if joined (ams.map entryText) = [] then front ++ ascii "],\"ams\":["
      else front ++ ascii "],\"ams\":[" ++ ascii "\x7b\"firmware\":[" ++ joined (ams.map entryText) ++ ascii "]\x7d") ++
        ascii "]\x7d]\x7d" = catalogueText devId ota ams := by
  rw [← pieces_catalogueText, ← h, if_congr joined_eq_nil rfl rfl]
  split_ifs
  · rw [List.append_nil]
  · simp only [List.append_assoc]

/-- What the call returns is the text of the document. -/
theorem renderFirmwareJson_eq (turns : Nat) (deviceFw : OrderedMap Bytes DeviceFw) (devId : Bytes) :
    renderFirmwareJson turns deviceFw devId =
      let modules : DeviceFw := (deviceFw.find devId).getD .empty
      let ams := amsEntries modules (((modules.find (ascii "ota")).map ModuleFw.productName).getD [])
      match modules.find (ascii "ota") with
      | none => .ok (catalogueText devId [] ams)
      | some m => (isNewer turns m).map fun newer => catalogueText devId (otaEntries m newer) ams := by
  unfold renderFirmwareJson
  generalize hmodules : ((deviceFw.find devId).getD .empty : DeviceFw) = modules
  have hams := joined_append []
    (emitted_ams (((modules.find (ascii "ota")).map ModuleFw.productName).getD []) modules.entries (emitted_nil []))
  rw [List.nil_append, List.nil_append] at hams
  dsimp only
  rw [hams]
  cases modules.find (ascii "ota") with
  | none =>
      have htext := assembled devId [] (amsEntries modules []) (List.append_nil _).symm
      exact congrArg Except.ok htext
  | some m =>
      rw [appendOta]
      dsimp only
      cases isNewer turns m with
      | error e => rfl
      | ok newer =>
          have htext := assembled devId (otaEntries m newer) (amsEntries modules m.productName)
            (joined_append _ (emitted_ota m newer))
          show _ = Except.ok (catalogueText devId (otaEntries m newer) (amsEntries modules m.productName))
          rw [← htext]
          rfl

/-- A call that comes back has compared the versions of the `ota` module. -/
theorem comparable_of_render {turns : Nat} {deviceFw : OrderedMap Bytes DeviceFw} {devId text : Bytes} {m : ModuleFw}
    (hrender : renderFirmwareJson turns deviceFw devId = .ok text)
    (hota : ((deviceFw.find devId).getD .empty : DeviceFw).find (ascii "ota") = some m) :
    Comparable m.newVer m.curVer := by
  rw [renderFirmwareJson_eq] at hrender
  dsimp only at hrender
  rw [hota] at hrender
  dsimp only at hrender
  cases hnewer : isNewer turns m with
  | error e => rw [hnewer] at hrender; cases hrender
  | ok newer => exact (isNewer_ok hnewer).1

/-- The catalogue of a device is returned, whatever is known and asked, exactly when the versions of
its `ota` module can be compared. -/
theorem renderFirmwareJson_iff (deviceFw : OrderedMap Bytes DeviceFw) (devId : Bytes) :
    Catalogued deviceFw devId ↔
      ∀ m ∈ ((deviceFw.find devId).getD .empty : DeviceFw).find (ascii "ota"), Comparable m.newVer m.curVer := by
  constructor
  · rintro ⟨text, ⟨turns, hrender⟩, -⟩ m hota
    exact comparable_of_render hrender hota
  · unfold Catalogued
    simp only [renderFirmwareJson_eq]
    cases ((deviceFw.find devId).getD .empty : DeviceFw).find (ascii "ota") with
    | none => exact fun _ => ⟨_, ⟨0, rfl⟩, false, nofun, parse_catalogueText devId [] _⟩
    | some m =>
        intro h
        obtain ⟨turns, newer, hnewer⟩ := isNewer_of_comparable (h m rfl)
        refine ⟨_, ⟨turns, by dsimp only; rw [hnewer]; rfl⟩, newer, ?_, parse_catalogueText devId (otaEntries m newer) _⟩
        rintro m' hm'
        obtain rfl := Option.some.inj hm'
        exact (isNewer_ok hnewer).2

/-- A printer that announces a version with a letter in it. -/
theorem catalogue_fails : ¬∀ deviceFw devId, Catalogued deviceFw devId := by
  intro h
  let m : ModuleFw := ⟨ascii "ota", ascii "01.08.01.00", ascii "01.08.01.00b", ascii "P2S", []⟩
  obtain ⟨text, ⟨turns, hrender⟩, -⟩ :=
    h (OrderedMap.empty.insert (ascii "01P00A") (OrderedMap.empty.insert (ascii "ota") m)) (ascii "01P00A")
  rcases comparable_of_render (m := m) hrender (by rfl) with heq | heq | heq | ⟨hplain, -⟩
  · exact absurd heq (by decide)
  · exact absurd heq (by decide)
  · exact absurd heq (by decide)
  · rcases hplain.bytes 0x62 (by decide) with hb | hb
    · exact absurd hb (by decide)
    · exact absurd hb (by decide)

end OpenBambu.Agent
