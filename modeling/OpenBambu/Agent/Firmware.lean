import OpenBambu.Foundation.OrderedMap
import OpenBambu.Foundation.Run
import OpenBambu.Foundation.Text
import OpenBambu.Json.RoundTrip

/-!
# Firmware versions from the frames of a printer

`update_fw_state` looks at every frame that is forwarded and keeps a record for each module. Two
shapes of frames announce versions: the reply to `get_version`, and the `new_ver_list` of a status.
-/

namespace OpenBambu.Agent

open OpenBambu.Foundation OpenBambu.Json

/-! ## The code -/

structure ModuleFw where
  name : Bytes
  curVer : Bytes
  newVer : Bytes
  productName : Bytes
  sn : Bytes
  deriving DecidableEq, Repr

inductive FwField where
  | curVer
  | newVer
  | productName
  | sn
  deriving DecidableEq, Repr

namespace ModuleFw

/-- What `operator[]` makes for a key that is not there. -/
def fresh : ModuleFw := ⟨[], [], [], [], []⟩

def get (m : ModuleFw) : FwField → Bytes
  | .curVer => m.curVer
  | .newVer => m.newVer
  | .productName => m.productName
  | .sn => m.sn

def set (m : ModuleFw) (f : FwField) (v : Bytes) : ModuleFw :=
  match f with
  | .curVer => { m with curVer := v }
  | .newVer => { m with newVer := v }
  | .productName => { m with productName := v }
  | .sn => { m with sn := v }

/-- A value that is not empty is taken. -/
def take (m : ModuleFw) (f : FwField) (v : Bytes) : ModuleFw := if v = [] then m else m.set f v

/-- A value that is not empty goes into an empty field. -/
def fill (m : ModuleFw) (f : FwField) (v : Bytes) : ModuleFw :=
  if v ≠ [] ∧ m.get f = [] then m.set f v else m

theorem get_set (m : ModuleFw) (f g : FwField) (v : Bytes) :
    (m.set f v).get g = if g = f then v else m.get g := by
  cases f <;> cases g <;> rfl

theorem get_take (m : ModuleFw) (f g : FwField) (v : Bytes) :
    (m.take f v).get g = if g = f ∧ v ≠ [] then v else m.get g := by
  unfold take
  split_ifs with hv <;> simp_all [get_set]

theorem get_fill (m : ModuleFw) (f g : FwField) (v : Bytes) :
    (m.fill f v).get g = if g = f ∧ v ≠ [] ∧ m.get g = [] then v else m.get g := by
  unfold fill
  split_ifs with hv hg hg
  all_goals grind [get_set]

end ModuleFw

/-- `DeviceFw::modules`. -/
abbrev DeviceFw := OrderedMap Bytes ModuleFw

/-- The record of a module, with empty fields as long as there is none. -/
def DeviceFw.record (dev : DeviceFw) (name : Bytes) : ModuleFw := (dev.find name).getD .fresh

def textOf (item : Value) (key : String) : Bytes := (item.find (ascii key)).asString

/-- The assignments of `parse_module_into`, in their order. -/
def ModuleFw.read (m : ModuleFw) (item : Value) : ModuleFw :=
  let m := { m with name := textOf item "name" }
  let m := m.take .curVer (textOf item "sw_ver")
  let m := m.take .newVer (textOf item "sw_new_ver")
  let m := m.fill .newVer (textOf item "new_ver")
  let m := m.fill .curVer (textOf item "cur_ver")
  let m := m.take .productName (textOf item "product_name")
  m.take .sn (textOf item "sn")

def parseModuleInto (dev : DeviceFw) (item : Value) : DeviceFw :=
  if !item.isObject ∨ textOf item "name" = [] then dev
  else dev.insert (textOf item "name") ((dev.record (textOf item "name")).read item)

/-- The prefilter, over the text of the frame. -/
def hints (payload : Bytes) : Bool :=
  (findText (ascii "sw_ver") payload).isSome || (findText (ascii "new_ver_list") payload).isSome

def updateFwState (dev : DeviceFw) (payload : Bytes) : DeviceFw :=
  if !hints payload then dev
  else
    match parse payload with
    | .error _ => dev
    | .ok v =>
        let dev :=
          if (v.find (ascii "info.command")).asString = ascii "get_version" then
            (v.find (ascii "info.module")).asArray.foldl parseModuleInto dev
          else dev
        (v.find (ascii "print.upgrade_state.new_ver_list")).asArray.foldl parseModuleInto dev

/-! ## What is announced -/

/-- The two shapes of an item. -/
inductive Shape where
  | getVersion
  | newVerList
  deriving DecidableEq, Repr

/-- The member of an item that announces a field. -/
def Shape.key : Shape → FwField → String
  | .getVersion, .curVer => "sw_ver"
  | .getVersion, .newVer => "sw_new_ver"
  | .newVerList, .curVer => "cur_ver"
  | .newVerList, .newVer => "new_ver"
  | _, .productName => "product_name"
  | _, .sn => "sn"

/-- A value for a field of a module. -/
structure Announcement where
  module : Bytes
  field : FwField
  value : Bytes
  deriving DecidableEq, Repr

/-- The item is about this module. -/
def Names (item : Value) (name : Bytes) : Prop :=
  item.isObject = true ∧ textOf item "name" = name ∧ name ≠ []

instance (item : Value) (name : Bytes) : Decidable (Names item name) := instDecidableAnd

/-- The values of an item that are not empty. -/
def announced (shape : Shape) (item : Value) : List Announcement :=
  if Names item (textOf item "name") then
    [FwField.curVer, .newVer, .productName, .sn].filterMap fun f =>
      if textOf item (shape.key f) = [] then none
      else some ⟨textOf item "name", f, textOf item (shape.key f)⟩
  else []

/-- The items of a frame in either shape. -/
def frameItems (payload : Bytes) : List (Shape × Value) :=
  match parse payload with
  | .error _ => []
  | .ok v =>
      (if (v.find (ascii "info.command")).asString = ascii "get_version" then
        (v.find (ascii "info.module")).asArray.map (Shape.getVersion, ·) else []) ++
      (v.find (ascii "print.upgrade_state.new_ver_list")).asArray.map (Shape.newVerList, ·)

def announcements (payload : Bytes) : List Announcement :=
  (frameItems payload).flatMap fun p => announced p.1 p.2

/-- The value announced last for a field of a module. -/
def latest (history : List Announcement) (module : Bytes) (f : FwField) : Bytes :=
  ((history.filter fun a => a.module = module ∧ a.field = f).getLast?.map Announcement.value).getD []

/-- The cache, and all that has been announced. -/
structure Mirror where
  dev : DeviceFw
  history : List Announcement

def Mirror.start : Mirror := ⟨.empty, []⟩

/-- A frame is forwarded. -/
def Mirror.step (s : Mirror) (payload : Bytes) : Mirror :=
  ⟨updateFwState s.dev payload, s.history ++ announcements payload⟩

/-- Every field of every record holds what has been announced last. -/
def Mirror.Current (s : Mirror) : Prop :=
  ∀ module f, (s.dev.record module).get f = latest s.history module f

/-! ## When the record follows -/

/-- What the code does with a version field that holds `old` is what the shape announces: `sw` and
`alt` are the values under the keys of `get_version` and of `new_ver_list`. -/
def FieldKept (shape : Shape) (old sw alt : Bytes) : Prop :=
  match shape with
  | .getVersion => sw = [] → alt ≠ [] → old ≠ []
  | .newVerList => (sw = [] → alt ≠ [] → old = [] ∨ old = alt) ∧ (sw ≠ [] → sw = if alt = [] then old else alt)

/-- An item finds the version fields of its module so that what it announces gets into them. -/
def ItemKept (dev : DeviceFw) (p : Shape × Value) : Prop :=
  ∀ name, Names p.2 name → ∀ f, f = FwField.curVer ∨ f = FwField.newVer →
    FieldKept p.1 ((dev.record name).get f) (textOf p.2 (Shape.getVersion.key f)) (textOf p.2 (Shape.newVerList.key f))

/-- Every item of a frame does, and a frame that the prefilter drops announces nothing new. -/
structure FrameKept (s : Mirror) (payload : Bytes) : Prop where
  items : hints payload = true →
    AtEveryStep (fun dev p => parseModuleInto dev p.2) ItemKept s.dev (frameItems payload)
  dropped : hints payload = false →
    ∀ a ∈ announcements payload, (s.dev.record a.module).get a.field = a.value

theorem updateFwState_eq (dev : DeviceFw) (payload : Bytes) : updateFwState dev payload =
    if hints payload then after (fun dev p => parseModuleInto dev p.2) dev (frameItems payload) else dev := by
  unfold updateFwState frameItems
  cases hints payload with
  | false => rfl
  | true =>
      rw [if_neg (by decide), if_pos rfl]
      cases parse payload with
      | error e => rfl
      | ok v =>
          dsimp only
          rw [after_append]
          split_ifs <;> simp only [after, List.foldl_map, List.foldl_nil]

theorem latest_append (history more : List Announcement) (module : Bytes) (f : FwField) :
    latest (history ++ more) module f =
      ((more.filter fun a => a.module = module ∧ a.field = f).getLast?.map Announcement.value).getD
        (latest history module f) := by
  unfold latest
  rw [List.filter_append, List.getLast?_append]
  cases (more.filter fun a => a.module = module ∧ a.field = f).getLast? <;> rfl

theorem filterMap_field {α : Type} (f : FwField) (x : Option α) :
    ([FwField.curVer, .newVer, .productName, .sn].filterMap fun g => if g = f then x else none) = x.toList := by
  cases f <;> cases x <;> rfl

/-- What an item announces for one field: nothing, or the one value of that field. -/
theorem filter_announced (shape : Shape) (item : Value) (module : Bytes) (f : FwField) :
    ((announced shape item).filter fun a => a.module = module ∧ a.field = f) =
      if Names item module ∧ textOf item (shape.key f) ≠ [] then [⟨module, f, textOf item (shape.key f)⟩] else [] := by
  unfold announced
  by_cases hname : Names item module
  · have hown : Names item (textOf item "name") := by rw [hname.2.1]; exact hname
    have hfield : ∀ g, (if textOf item (shape.key g) = [] then none
          else some (⟨textOf item "name", g, textOf item (shape.key g)⟩ : Announcement)).filter
        (fun a => a.module = module ∧ a.field = f) =
        if g = f then (if textOf item (shape.key f) = [] then none
          else some ⟨module, f, textOf item (shape.key f)⟩) else none := by
      intro g
      by_cases hg : g = f
      · subst hg
        rw [if_pos rfl]
        split_ifs <;> simp [Option.filter, hname.2.1]
      · split_ifs <;> simp [Option.filter, hg]
    rw [if_pos hown, List.filter_filterMap, funext hfield, filterMap_field]
    by_cases htext : textOf item (shape.key f) = []
    · rw [if_pos htext, if_neg (by simp [htext])]
      rfl
    · rw [if_neg htext, if_pos ⟨hname, htext⟩]
      rfl
  · have hnot : ¬(Names item module ∧ textOf item (shape.key f) ≠ []) := fun h => hname h.1
    rw [if_neg hnot]
    by_cases hown : Names item (textOf item "name")
    · have hother : textOf item "name" ≠ module := fun h => hname (h ▸ hown)
      rw [if_pos hown, List.filter_filterMap]
      refine List.filterMap_eq_nil_iff.mpr fun g _ => ?_
      split_ifs <;> simp [Option.filter, hother]
    · rw [if_neg hown]
      rfl

/-- The last word of an item on a field. -/
theorem latest_announced (history : List Announcement) (shape : Shape) (item : Value) (module : Bytes)
    (f : FwField) : latest (history ++ announced shape item) module f =
      if Names item module ∧ textOf item (shape.key f) ≠ [] then textOf item (shape.key f)
      else latest history module f := by
  rw [latest_append, filter_announced]
  split_ifs <;> rfl

/-- What the code makes of a field that holds `old`. -/
def written (item : Value) (f : FwField) (old : Bytes) : Bytes :=
  if textOf item (Shape.getVersion.key f) ≠ [] then textOf item (Shape.getVersion.key f)
  else if old = [] then textOf item (Shape.newVerList.key f)
  else old

theorem get_read (m : ModuleFw) (item : Value) (f : FwField) : (m.read item).get f = written item f (m.get f) := by
  unfold ModuleFw.read written
  simp only [ModuleFw.get_take, ModuleFw.get_fill]
  cases f with
  | curVer => simp only [Shape.key, ModuleFw.get]; grind
  | newVer => simp only [Shape.key, ModuleFw.get]; grind
  | productName => simp only [Shape.key, ModuleFw.get]; grind
  | sn => simp only [Shape.key, ModuleFw.get]; grind

theorem record_insert (dev : DeviceFw) (name module : Bytes) (m : ModuleFw) :
    DeviceFw.record (dev.insert name m) module = if module = name then m else dev.record module := by
  unfold DeviceFw.record
  rw [OrderedMap.find_insert]
  split_ifs <;> rfl

theorem record_parseModuleInto (dev : DeviceFw) (item : Value) (module : Bytes) (f : FwField) :
    (DeviceFw.record (parseModuleInto dev item) module).get f =
      if Names item module then written item f ((dev.record module).get f) else (dev.record module).get f := by
  unfold parseModuleInto
  by_cases hname : Names item (textOf item "name")
  · have hkept : ¬((!item.isObject) = true ∨ textOf item "name" = []) := by simp [hname.1, hname.2.2]
    rw [if_neg hkept, record_insert]
    by_cases hmodule : module = textOf item "name"
    · subst hmodule
      rw [if_pos rfl, if_pos hname, get_read]
    · rw [if_neg hmodule, if_neg fun h => hmodule h.2.1.symm]
  · have hnone : ¬Names item module := fun h => hname ⟨h.1, rfl, h.2.1 ▸ h.2.2⟩
    have hskipped : (!item.isObject) = true ∨ textOf item "name" = [] := by
      by_contra h
      rw [not_or] at h
      exact hname ⟨by simpa using h.1, rfl, h.2⟩
    rw [if_pos hskipped, if_neg hnone]

theorem written_of_kept {shape : Shape} {item : Value} {f : FwField} {old : Bytes}
    (h : f = .curVer ∨ f = .newVer →
      FieldKept shape old (textOf item (Shape.getVersion.key f)) (textOf item (Shape.newVerList.key f))) :
    written item f old = if textOf item (shape.key f) ≠ [] then textOf item (shape.key f) else old := by
  unfold written
  cases f with
  | curVer =>
      have h := h (.inl rfl)
      cases shape <;> simp only [FieldKept, Shape.key] at h ⊢ <;> grind
  | newVer =>
      have h := h (.inr rfl)
      cases shape <;> simp only [FieldKept, Shape.key] at h ⊢ <;> grind
  | productName => cases shape <;> simp only [Shape.key] <;> grind
  | sn => cases shape <;> simp only [Shape.key] <;> grind

/-- An item that finds its fields so leaves every field with what has been announced last. -/
theorem item_current {dev : DeviceFw} {history : List Announcement} {p : Shape × Value}
    (h : Mirror.Current ⟨dev, history⟩) (hp : ItemKept dev p) :
    Mirror.Current ⟨parseModuleInto dev p.2, history ++ announced p.1 p.2⟩ := by
  intro module f
  have hold := h module f
  show (DeviceFw.record (parseModuleInto dev p.2) module).get f = latest (history ++ announced p.1 p.2) module f
  rw [record_parseModuleInto, latest_announced, ← hold]
  by_cases hname : Names p.2 module
  · rw [if_pos hname, written_of_kept (hp module hname f)]
    exact if_congr (and_iff_right hname).symm rfl rfl
  · have hnot : ¬(Names p.2 module ∧ textOf p.2 (p.1.key f) ≠ []) := fun h => hname h.1
    rw [if_neg hname, if_neg hnot]

/-- Announcements of what the records hold already change nothing. -/
theorem current_of_known {dev : DeviceFw} {history more : List Announcement} (h : Mirror.Current ⟨dev, history⟩)
    (hknown : ∀ a ∈ more, (dev.record a.module).get a.field = a.value) : Mirror.Current ⟨dev, history ++ more⟩ := by
  intro module f
  have hold := h module f
  show (dev.record module).get f = latest (history ++ more) module f
  rw [latest_append, ← hold]
  cases hlast : (more.filter fun a => a.module = module ∧ a.field = f).getLast? with
  | none => rfl
  | some a =>
      obtain ⟨hmem, hplace⟩ := List.mem_filter.mp (List.mem_of_getLast? hlast)
      obtain ⟨rfl, rfl⟩ := of_decide_eq_true hplace
      exact hknown a hmem

theorem items_current {items : List (Shape × Value)} {dev : DeviceFw} {history : List Announcement}
    (h : Mirror.Current ⟨dev, history⟩)
    (hitems : AtEveryStep (fun dev p => parseModuleInto dev p.2) ItemKept dev items) :
    Mirror.Current ⟨after (fun dev p => parseModuleInto dev p.2) dev items,
      history ++ items.flatMap fun p => announced p.1 p.2⟩ := by
  induction items generalizing dev history with
  | nil => rwa [List.flatMap_nil, List.append_nil]
  | cons p items ih =>
      obtain ⟨hp, hitems⟩ := atEveryStep_cons.mp hitems
      have hrest := ih (item_current h hp) hitems
      rw [List.append_assoc] at hrest
      rw [List.flatMap_cons]
      exact hrest

theorem step_current {s : Mirror} {payload : Bytes} (h : s.Current) (hframe : FrameKept s payload) :
    (s.step payload).Current := by
  unfold Mirror.step
  rw [updateFwState_eq]
  cases hhints : hints payload with
  | true => exact items_current h (hframe.items hhints)
  | false => exact current_of_known h (hframe.dropped hhints)

/-- The cache holds what has been announced last as long as every frame finds it so that it takes
what the frame announces. -/
theorem mirror_current {frames : List Bytes} (h : AtEveryStep Mirror.step FrameKept .start frames) :
    InEveryState Mirror.step Mirror.Current .start frames :=
  inEveryState_of_step (fun _ _ hs hframe => step_current hs hframe) (fun _ f => by cases f <;> rfl) h

/-! ## Two new versions in a row -/

def versionItem (newVer : Bytes) : Value :=
  .object [(ascii "name", .string (ascii "ota")), (ascii "new_ver", .string newVer)]

/-- A status that announces a new version. -/
def versionFrame (newVer : Bytes) : Value :=
  .object [(ascii "print", .object [(ascii "upgrade_state", .object [(ascii "new_ver_list",
    .array [versionItem newVer])])])]

theorem versionFrame_writable (newVer : Bytes) : Writable (versionFrame newVer) := by
  have hitem : Writable (versionItem newVer) := by
    have hkeys : ascii "name" < ascii "new_ver" := by decide
    refine .object (List.pairwise_pair.mpr hkeys) ?_
    rw [List.forall_mem_cons, List.forall_mem_singleton]
    exact ⟨.string _, .string _⟩
  have hone : ∀ (key : String) (v : Value), Writable v → Writable (.object [(ascii key, v)]) := fun key v hv =>
    .object (List.pairwise_singleton _ _) (List.forall_mem_singleton.mpr hv)
  exact hone _ _ (hone _ _ (hone _ _ (.array (List.forall_mem_singleton.mpr hitem))))

theorem frameItems_version (newVer : Bytes) :
    frameItems (versionFrame newVer).dump = [(.newVerList, versionItem newVer)] := by
  rw [frameItems, parse_dump (versionFrame_writable newVer)]
  rfl

theorem step_version {newVer : Bytes} (h : hints (versionFrame newVer).dump = true) (s : Mirror) :
    s.step (versionFrame newVer).dump =
      ⟨parseModuleInto s.dev (versionItem newVer), s.history ++ announced .newVerList (versionItem newVer)⟩ := by
  rw [Mirror.step, updateFwState_eq, if_pos h, announcements, frameItems_version, List.flatMap_singleton]
  rfl

theorem mirror_current_of_one :
    InEveryState Mirror.step Mirror.Current .start [(versionFrame (ascii "01.09.00.00")).dump] := by
  have hhints : hints (versionFrame (ascii "01.09.00.00")).dump = true := by decide +kernel
  refine mirror_current (atEveryStep_cons.mpr ⟨⟨fun _ => ?_, fun h => absurd (hhints.symm.trans h) (by decide)⟩,
    atEveryStep_nil⟩)
  rw [frameItems_version]
  refine atEveryStep_cons.mpr ⟨?_, atEveryStep_nil⟩
  rintro name ⟨-, rfl, -⟩ f (rfl | rfl)
  · exact ⟨fun _ _ => .inl rfl, fun h => absurd rfl h⟩
  · exact ⟨fun _ _ => .inl rfl, fun h => absurd rfl h⟩

theorem mirror_not_current : ¬∀ frames, InEveryState Mirror.step Mirror.Current .start frames := by
  intro h
  have hfirst : hints (versionFrame (ascii "01.09.00.00")).dump = true := by decide +kernel
  have hsecond : hints (versionFrame (ascii "01.10.00.00")).dump = true := by decide +kernel
  have hcurrent := h [(versionFrame (ascii "01.09.00.00")).dump, (versionFrame (ascii "01.10.00.00")).dump]
    _ [] (List.append_nil _).symm (ascii "ota") .newVer
  rw [after_cons, after_cons, after_nil, step_version hfirst, step_version hsecond] at hcurrent
  exact absurd hcurrent (by decide +kernel)

end OpenBambu.Agent
