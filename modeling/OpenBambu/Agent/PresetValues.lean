import OpenBambu.Agent.Presets
import OpenBambu.Json.Layout

/-!
# The values of a downloaded preset

`fill_values_from_full` makes the flat map of the loader from the reply to `GET /setting/<id>`: the
envelope, the options in `setting`, the time of the last update and the user are written one over
the other.
-/

namespace OpenBambu.Agent

open OpenBambu.Foundation OpenBambu.Json

/-! ## One value as text -/

/-- A number that the conversion to `long long` and back leaves alone is written as an integer, any
other with seventeen significant digits. -/
def numberText (d : Double) : Bytes :=
  if (Binary64.toInt64 d : ℚ) = d then signed (Binary64.toInt64 d)
  else if d < 0 then Ascii.minus :: formatMagnitude d.num.natAbs d.den
  else formatMagnitude d.num.natAbs d.den

def jsonScalarToString (v : Value) : Bytes :=
  match v with
  | .null => []
  | .bool b => if b then ascii "1" else ascii "0"
  | .string s => s
  | .number d => numberText d
  | .array a => (Value.array a).dump
  | .object o => (Value.object o).dump

/-! ## The map -/

def envelopeKeys : List Bytes :=
  [ascii "name", ascii "type", ascii "version", ascii "setting_id", ascii "base_id",
    ascii "filament_id"]

def copyStr (root : Value) (out : Values) (key : Bytes) : Values :=
  match root.find key with
  | .string s => out.insert key s
  | .number d => out.insert key (signed (Binary64.toInt64 d))
  | _ => out

def putOption (out : Values) (p : Bytes × Value) : Values := out.insert p.1 (jsonScalarToString p.2)

/-- The time of the last update, under either of its keys. -/
def updateTimeOf (root : Value) : Bytes :=
  let iso := (root.find (ascii "update_time")).asString
  if iso = [] then (root.find (ascii "updated_time")).asString else iso

def fillValuesFromFull (root : Value) (userId : Bytes) : Values :=
  let out := envelopeKeys.foldl (copyStr root) .empty
  let out := (root.find (ascii "setting")).asObject.foldl putOption out
  let unixTs := parseIsoUtc (updateTimeOf root)
  -- a time that is zero makes the loader overwrite what it has
  let unixTs := if unixTs = 0 then 1 else unixTs
  let out := out.insert (ascii "updated_time") (signed unixTs)
  let out := if out.find (ascii "base_id") = none then out.insert (ascii "base_id") [] else out
  if userId = [] then out else out.insert (ascii "user_id") userId

/-! ## What stands under a key -/

/-- What the envelope has under the key, if it is a string or a number. -/
def envelopeValue (root : Value) (key : Bytes) : Option Value :=
  match root.find key with
  | .string s => some (.string s)
  | .number d => some (.number d)
  | _ => none

/-- What the copy makes of it. -/
def copiedText : Value → Bytes
  | .number d => signed (Binary64.toInt64 d)
  | v => v.asString

theorem parseBody_ordered (body : Bytes) : Ordered (parseBody body) := by
  unfold parseBody
  split
  · exact .object List.Pairwise.nil (by simp)
  · rename_i v hv
    exact parse_ordered hv

theorem find_copyStr (root : Value) (out : Values) (key k : Bytes) :
    (copyStr root out key).find k =
      if k = key then ((envelopeValue root key).map copiedText).or (out.find k) else out.find k := by
  unfold copyStr envelopeValue
  cases root.find key with
  | string s => simp only [OrderedMap.find_insert, Option.map_some, Option.some_or]; rfl
  | number d => simp only [OrderedMap.find_insert, Option.map_some, Option.some_or]; rfl
  | _ => simp

theorem find_copied (root : Value) (keys : List Bytes) (out : Values) (k : Bytes) :
    (keys.foldl (copyStr root) out).find k =
      if k ∈ keys then ((envelopeValue root k).map copiedText).or (out.find k) else out.find k := by
  induction keys generalizing out with
  | nil => rfl
  | cons key keys ih =>
      rw [List.foldl_cons, ih, find_copyStr]
      by_cases hk : k = key
      · subst hk
        by_cases hm : k ∈ keys
        · cases envelopeValue root k <;> simp [hm]
        · simp [hm]
      · simp [hk]

theorem find_options {o : Object} (h : (o.map Prod.fst).Nodup) (out : Values) (k : Bytes) :
    (o.foldl putOption out).find k = ((lookup o k).map jsonScalarToString).or (out.find k) := by
  induction o generalizing out with
  | nil => rfl
  | cons p o ih =>
      obtain ⟨hp, ho⟩ := List.nodup_cons.1 h
      rw [List.foldl_cons, ih ho, putOption, OrderedMap.find_insert, lookup_cons]
      by_cases hk : k = p.1
      · have hnone : lookup o k = none := List.lookup_eq_none_iff.2 fun q hq => by
          have hne : k ≠ q.1 := fun he => hp (hk ▸ he ▸ List.mem_map_of_mem hq)
          simpa using hne
        rw [if_pos hk, if_pos hk, hnone]
        rfl
      · rw [if_neg hk, if_neg hk]

theorem find_default (out : Values) (key k : Bytes) :
    (if out.find key = none then out.insert key [] else out).find k =
      (out.find k).or (if k = key then some [] else none) := by
  by_cases hk : k = key
  · subst hk
    cases h : out.find k with
    | none => simp [OrderedMap.find_insert]
    | some v => simp [h]
  · split_ifs with h
    · rw [OrderedMap.find_insert, if_neg hk, Option.or_none]
    · rw [Option.or_none]

/-- The members of `setting`. -/
def settingOf (root : Value) : Object := (root.find (ascii "setting")).asObject

def unixTsOf (root : Value) : Int :=
  if parseIsoUtc (updateTimeOf root) = 0 then 1 else parseIsoUtc (updateTimeOf root)

/-- Every key of the map has the last of what is written under it: the user, the time, the option,
the member of the envelope. -/
theorem find_fillValues {root : Value} (h : Ordered root) (userId k : Bytes) :
    (fillValuesFromFull root userId).find k =
      if k = ascii "user_id" ∧ userId ≠ [] then some userId
      else if k = ascii "updated_time" then some (signed (unixTsOf root))
      else ((lookup (settingOf root) k).map jsonScalarToString).or
        ((if k ∈ envelopeKeys then (envelopeValue root k).map copiedText else none).or
          (if k = ascii "base_id" then some [] else none)) := by
  have hnodup : (settingOf root).map Prod.fst |>.Nodup :=
    (h.find (by decide +kernel)).keys_nodup
  have hmerged : ∀ k, ((settingOf root).foldl putOption (envelopeKeys.foldl (copyStr root) .empty)).find k =
      ((lookup (settingOf root) k).map jsonScalarToString).or
        (if k ∈ envelopeKeys then (envelopeValue root k).map copiedText else none) := by
    intro k
    rw [find_options hnodup, find_copied, OrderedMap.find_empty, Option.or_none]
  have hstamped : (fillValuesFromFull root userId).find k =
      if k = ascii "user_id" ∧ userId ≠ [] then some userId
      else ((((settingOf root).foldl putOption (envelopeKeys.foldl (copyStr root) .empty)).insert
        (ascii "updated_time") (signed (unixTsOf root))).find k).or
          (if k = ascii "base_id" then some [] else none) := by
    rw [← find_default]
    by_cases huser : userId = []
    · have hno : ¬ (k = ascii "user_id" ∧ userId ≠ []) := fun h => h.2 huser
      rw [if_neg hno]
      simp only [fillValuesFromFull, if_pos huser]
      rfl
    · simp only [and_iff_left (show userId ≠ [] from huser), fillValuesFromFull, if_neg huser]
      exact OrderedMap.find_insert _ _ _ _
  rw [hstamped, OrderedMap.find_insert, hmerged]
  by_cases hk : k = ascii "updated_time"
  · simp [hk]
  · simp [hk, Option.or_assoc]

/-! ## The map against the reply -/

/-- A member of `setting` that is not the loader's copy of it: the envelope names the key, or the
time or the user stands there. -/
def Overridden (root : Value) (key : Bytes) : Prop :=
  key ∈ envelopeKeys ∧ (envelopeValue root key).isSome = true ∨
    key = ascii "updated_time" ∨ key = ascii "user_id"

/-- The envelope goes before `setting`, nothing else of `setting` is lost, and what the loader
requires is there. -/
structure Merged (root : Value) (userId : Bytes) (out : Values) : Prop where
  envelope : ∀ key ∈ envelopeKeys, ∀ v, envelopeValue root key = some v →
    out.find key = some (jsonScalarToString v)
  setting : ∀ key v, lookup (settingOf root) key = some v → ¬ Overridden root key →
    out.find key = some (jsonScalarToString v)
  baseId : (out.find (ascii "base_id")).isSome = true
  updatedTime : ∃ t : Int, 0 < t ∧ out.find (ascii "updated_time") = some (signed t)
  user : (out.find (ascii "user_id")).getD [] = userId

/-- A number whose text is that of its integer part. -/
def Whole : Value → Prop
  | .number d => numberText d = signed (Binary64.toInt64 d)
  | _ => True

/-- No key of the envelope is in `setting` with another text, the numbers of the envelope that
`setting` does not repeat are whole, the time is not before the epoch, and where no user is given
`setting` names none. -/
structure Unclashing (root : Value) (userId : Bytes) : Prop where
  same : ∀ key ∈ envelopeKeys, ∀ v, envelopeValue root key = some v →
    ∀ w, lookup (settingOf root) key = some w → jsonScalarToString w = jsonScalarToString v
  whole : ∀ key ∈ envelopeKeys, ∀ v, envelopeValue root key = some v →
    lookup (settingOf root) key = none → Whole v
  time : 0 ≤ parseIsoUtc (updateTimeOf root)
  user : userId = [] → ∀ w, lookup (settingOf root) (ascii "user_id") = some w → jsonScalarToString w = []

theorem copiedText_iff {root : Value} {key : Bytes} {v : Value} (h : envelopeValue root key = some v) :
    copiedText v = jsonScalarToString v ↔ Whole v := by
  unfold envelopeValue at h
  split at h
  · obtain rfl := Option.some.inj h
    exact iff_of_true rfl trivial
  · obtain rfl := Option.some.inj h
    exact eq_comm
  · cases h

/-- The text of an integer has a minus sign exactly when the integer is negative. -/
theorem signed_head (n : Int) : (signed n).head? = some Ascii.minus ↔ n < 0 := by
  unfold signed
  split_ifs with h
  · exact iff_of_true rfl h
  · exact iff_of_false (Binary64.decimal_head_ne_minus _) h

section

variable {root : Value} (h : Ordered root) (userId : Bytes)

include h

theorem find_envelopeKey {key : Bytes} (hkey : key ∈ envelopeKeys) {v : Value}
    (hv : envelopeValue root key = some v) :
    (fillValuesFromFull root userId).find key =
      some (((lookup (settingOf root) key).map jsonScalarToString).getD (copiedText v)) := by
  have hall : ∀ k ∈ envelopeKeys, k ≠ ascii "user_id" ∧ k ≠ ascii "updated_time" := by decide +kernel
  have hne := hall key hkey
  rw [find_fillValues h, if_neg fun hk => hne.1 hk.1, if_neg hne.2, if_pos hkey, hv]
  cases lookup (settingOf root) key <;> rfl

theorem find_updatedTime :
    (fillValuesFromFull root userId).find (ascii "updated_time") = some (signed (unixTsOf root)) := by
  rw [find_fillValues h, if_neg fun hk => absurd hk.1 (by decide), if_pos rfl]

theorem find_userId :
    (fillValuesFromFull root userId).find (ascii "user_id") =
      if userId = [] then (lookup (settingOf root) (ascii "user_id")).map jsonScalarToString
      else some userId := by
  rw [find_fillValues h]
  have hkey : ascii "user_id" ∉ envelopeKeys := by decide
  have htime : ascii "user_id" ≠ ascii "updated_time" := by decide
  have hbase : ascii "user_id" ≠ ascii "base_id" := by decide
  by_cases hu : userId = []
  · rw [if_neg fun hk => hk.2 hu, if_neg htime, if_neg hkey, if_neg hbase, if_pos hu]
    simp
  · rw [if_pos ⟨rfl, hu⟩, if_neg hu]

/-- What the loader finds under a key of `setting`. -/
theorem find_option {key : Bytes} {v : Value} (hv : lookup (settingOf root) key = some v)
    (htime : key ≠ ascii "updated_time") (huser : key ≠ ascii "user_id") :
    (fillValuesFromFull root userId).find key = some (jsonScalarToString v) := by
  rw [find_fillValues h, if_neg fun hk => huser hk.1, if_neg htime, hv]
  rfl

theorem baseId_isSome : ((fillValuesFromFull root userId).find (ascii "base_id")).isSome = true := by
  rw [find_fillValues h, if_neg fun hk => absurd hk.1 (by decide), if_neg (by decide), if_pos rfl]
  simp

theorem updatedTime_iff :
    (∃ t : Int, 0 < t ∧ (fillValuesFromFull root userId).find (ascii "updated_time") = some (signed t)) ↔
      0 ≤ parseIsoUtc (updateTimeOf root) := by
  rw [find_updatedTime h]
  have hpos : 0 < unixTsOf root ↔ 0 ≤ parseIsoUtc (updateTimeOf root) := by
    unfold unixTsOf
    split_ifs <;> omega
  rw [← hpos]
  constructor
  · rintro ⟨t, ht, heq⟩
    have hsign : ¬ unixTsOf root < 0 := by
      rw [← signed_head, Option.some.inj heq, signed_head]
      omega
    have hne : unixTsOf root ≠ 0 := by
      unfold unixTsOf
      split_ifs <;> omega
    omega
  · intro ht
    exact ⟨_, ht, rfl⟩

theorem user_iff :
    ((fillValuesFromFull root userId).find (ascii "user_id")).getD [] = userId ↔
      (userId = [] → ∀ w, lookup (settingOf root) (ascii "user_id") = some w → jsonScalarToString w = []) := by
  rw [find_userId h]
  by_cases hu : userId = []
  · rw [if_pos hu, hu]
    cases lookup (settingOf root) (ascii "user_id") <;> simp
  · rw [if_neg hu]
    exact iff_of_true rfl fun he => absurd he hu

theorem envelope_iff {key : Bytes} (hkey : key ∈ envelopeKeys) {v : Value}
    (hv : envelopeValue root key = some v) :
    (fillValuesFromFull root userId).find key = some (jsonScalarToString v) ↔
      (∀ w, lookup (settingOf root) key = some w → jsonScalarToString w = jsonScalarToString v) ∧
        (lookup (settingOf root) key = none → Whole v) := by
  rw [find_envelopeKey h userId hkey hv, ← copiedText_iff hv]
  cases lookup (settingOf root) key <;> simp

end

/-- The map of a reply is merged as the loader needs it exactly when its envelope and its `setting`
do not clash. -/
theorem fillValuesFromFull_iff (body userId : Bytes) :
    Merged (parseBody body) userId (fillValuesFromFull (parseBody body) userId) ↔
      Unclashing (parseBody body) userId := by
  have h : Ordered (parseBody body) := parseBody_ordered body
  constructor
  · intro hm
    refine ⟨?_, ?_, ?_, ?_⟩
    · intro key hkey v hv
      exact ((envelope_iff h userId hkey hv).1 (hm.envelope key hkey v hv)).1
    · intro key hkey v hv
      exact ((envelope_iff h userId hkey hv).1 (hm.envelope key hkey v hv)).2
    · exact (updatedTime_iff h userId).1 hm.updatedTime
    · exact (user_iff h userId).1 hm.user
  · intro hu
    refine ⟨?_, ?_, ?_, ?_, ?_⟩
    · intro key hkey v hv
      exact (envelope_iff h userId hkey hv).2 ⟨hu.same key hkey v hv, hu.whole key hkey v hv⟩
    · intro key v hv hno
      refine find_option h userId hv ?_ ?_
      · rintro rfl
        exact hno (.inr (.inl rfl))
      · rintro rfl
        exact hno (.inr (.inr rfl))
    · exact baseId_isSome h userId
    · exact (updatedTime_iff h userId).2 hu.time
    · exact (user_iff h userId).2 hu.user

/-- A preset whose `setting` has a name of its own. -/
def renamedPreset : Value :=
  .object [(ascii "name", .string (ascii "A")),
    (ascii "setting", .object [(ascii "name", .string (ascii "B"))])]

theorem parseBody_renamedPreset : parseBody renamedPreset.dump = renamedPreset := by
  have hkeys : ascii "name" < ascii "setting" := by decide
  have hsetting : Writable (.object [(ascii "name", .string (ascii "B"))]) :=
    .object (List.pairwise_singleton _ _) (List.forall_mem_singleton.2 (.string _))
  have hwritable : Writable renamedPreset := by
    refine .object (List.pairwise_pair.2 hkeys) ?_
    rw [List.forall_mem_cons, List.forall_mem_singleton]
    exact ⟨.string _, hsetting⟩
  rw [parseBody, parse_dump hwritable]

theorem fillValuesFromFull_clashes :
    ¬ Merged (parseBody renamedPreset.dump) (ascii "1")
      (fillValuesFromFull (parseBody renamedPreset.dump) (ascii "1")) := by
  rw [parseBody_renamedPreset]
  intro h
  have hname := h.envelope (ascii "name") (by decide) (.string (ascii "A")) rfl
  revert hname
  decide +kernel

end OpenBambu.Agent
