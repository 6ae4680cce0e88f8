import OpenBambu.Print.Stages

/-!
# The filaments of a cloud print

The cloud takes the filament mapping as an array of pairs, one for each filament of the plate. They come from
the `ams_mapping2` of Studio, or else from its flat list of slots. The server counts positions, so an entry that
is left out moves the ones behind it to other filaments.
-/

namespace OpenBambu.Print

open OpenBambu.Foundation OpenBambu.Json

/-- What `trim` takes away are the blanks of JSON. -/
def trim (s : Bytes) : Bytes := (s.dropWhile isWs).rdropWhile isWs

/-- `static_cast<int>` of a double. Out of range the conversion is undefined; this is the value `cvttsd2si`
delivers. -/
def castInt (d : Double) : Int :=
  let t := d.num.tdiv d.den
  if -2 ^ 31 ≤ t ∧ t < 2 ^ 31 then t else -2 ^ 31

def amsSlotPair (amsId slotId : Int) : Bytes :=
  compact.object [(ascii "amsId", signed amsId), (ascii "slotId", signed slotId)]

/-- The ids of a slot in the flat list. What is no number has none, and is passed over. -/
def flatIds : Value → Option (Int × Int)
  | .number d => let idx := castInt d; some (if idx < 0 then (255, 255) else (idx / 4, idx % 4))
  | _ => none

def derivedFromFlat (amsMapping : Bytes) : Bytes :=
  match parse amsMapping with
  | .ok (.array entries) => arrayText ((entries.filterMap flatIds).map fun ids => amsSlotPair ids.1 ids.2)
  | _ => ascii "[]"

/-- An id of an element, in the spelling of the cloud or that of the printer. -/
def elementId (item : Value) (key printerKey : Bytes) : Int :=
  let v := item.find key
  let v := if v.isNumber then v else item.find printerKey
  match v with
  | .number d => castInt d
  | _ => 255

def elementIds (item : Value) : Int × Int :=
  (elementId item (ascii "amsId") (ascii "ams_id"), elementId item (ascii "slotId") (ascii "slot_id"))

def amsMapping2ForCloud (p : PrintParams) : Bytes :=
  let raw := trim p.amsMapping2
  if raw = [] ∨ raw = ascii "[]" then derivedFromFlat p.amsMapping
  else
    match parse raw with
    | .ok (.array items) => arrayText ((items.map elementIds).map fun ids => amsSlotPair ids.1 ids.2)
    | _ => derivedFromFlat p.amsMapping

/-! ## The law -/

/-- The value is a pair with these ids. -/
def PairIs (v : Value) (amsId slotId : Int) : Prop :=
  v.find (ascii "amsId") = .number amsId ∧ v.find (ascii "slotId") = .number slotId

/-- The number under the first of two keys with one, or 255. -/
def IdIs (item : Value) (key printerKey : Bytes) (n : Int) : Prop :=
  item.find key = .number n ∨ (item.find key).isNumber = false ∧
    (item.find printerKey = .number n ∨ (item.find printerKey).isNumber = false ∧ n = 255)

/-- A pair with the ids of an element. -/
def CarriesIds (item v : Value) : Prop :=
  ∃ amsId slotId, PairIs v amsId slotId ∧ IdIs item (ascii "amsId") (ascii "ams_id") amsId ∧
    IdIs item (ascii "slotId") (ascii "slot_id") slotId

/-- A pair with the ids of a slot, or with 255 for what is no slot. -/
def CarriesSlot (entry v : Value) : Prop :=
  ∃ amsId slotId, PairIs v amsId slotId ∧
    ((∃ n : Int, 0 ≤ n ∧ entry = .number n ∧ amsId * 4 + slotId = n ∧ 0 ≤ slotId ∧ slotId < 4) ∨
      (∀ n : Int, 0 ≤ n → entry ≠ .number n) ∧ amsId = 255 ∧ slotId = 255)

/-- Each filament keeps its place. -/
structure MappingLaw (p : PrintParams) : Prop where
  accepted : ∃ vs, parse (amsMapping2ForCloud p) = .ok (.array vs)
  own : ∀ items, parse p.amsMapping2 = .ok (.array items) → items ≠ [] →
    ∃ vs, parse (amsMapping2ForCloud p) = .ok (.array vs) ∧ List.Forall₂ CarriesIds items vs
  derived : (∀ items, parse p.amsMapping2 = .ok (.array items) → items = []) →
    ∀ entries, parse p.amsMapping = .ok (.array entries) →
      ∃ vs, parse (amsMapping2ForCloud p) = .ok (.array vs) ∧ List.Forall₂ CarriesSlot entries vs

/-- An `int`. -/
def IsInt (d : Double) : Prop := ∃ n : Int, -2 ^ 31 ≤ n ∧ n < 2 ^ 31 ∧ d = n

/-- The numbers that are looked at are integers. -/
structure IntNumbers (p : PrintParams) : Prop where
  flat : ∀ entries, parse p.amsMapping = .ok (.array entries) → ∀ d, .number d ∈ entries → IsInt d
  own : ∀ items, parse p.amsMapping2 = .ok (.array items) → ∀ item ∈ items,
    ∀ key ∈ [ascii "amsId", ascii "ams_id", ascii "slotId", ascii "slot_id"],
      ∀ d, item.find key = .number d → IsInt d

/-- Where the flat list is used, it is a list of numbers; and it is used for an empty array too, unless there is
nothing in it. -/
structure KeepsPlaces (p : PrintParams) : Prop where
  numbers : (∀ items, parse p.amsMapping2 = .ok (.array items) →
      items = [] ∧ trim p.amsMapping2 = ascii "[]") →
    ∀ entries, parse p.amsMapping = .ok (.array entries) → ∀ e ∈ entries, e.isNumber = true
  blanks : parse p.amsMapping2 = .ok (.array []) → trim p.amsMapping2 ≠ ascii "[]" →
    ∀ entries, parse p.amsMapping = .ok (.array entries) → entries = []

/-! ## Pairs -/

theorem castInt_range (d : Double) : -2 ^ 31 ≤ castInt d ∧ castInt d < 2 ^ 31 := by
  rw [castInt]
  split_ifs with h
  · exact h
  · decide

theorem castInt_int {n : Int} (h : -2 ^ 31 ≤ n ∧ n < 2 ^ 31) : castInt n = n := by
  have htdiv : (n : Double).num.tdiv (n : Double).den = n := by
    rw [Rat.num_intCast, Rat.den_intCast, Nat.cast_one, Int.tdiv_one]
  rw [castInt, htdiv, if_pos h]

def pairKeys : List Bytes := [ascii "amsId", ascii "slotId"]

def pairMembers (amsId slotId : Int) : List (Bytes × Value) :=
  [(ascii "amsId", .number amsId), (ascii "slotId", .number slotId)]

def pairValue (ids : Int × Int) : Value := .object (ofMembers (pairMembers ids.1 ids.2))

/-- The ids of a pair can be read back. -/
def Small (ids : Int × Int) : Prop := ids.1.natAbs < 2 ^ 53 ∧ ids.2.natAbs < 2 ^ 53

theorem pairKeys_word : ∀ key ∈ pairKeys, isWord key = true := by decide +kernel

theorem readsAs_pair {ids : Int × Int} (h : Small ids) : ReadsAs (amsSlotPair ids.1 ids.2) (pairValue ids) := by
  have hgood : ∀ e ∈ [(⟨ascii "amsId", signed ids.1, .number ids.1⟩ : Entry),
      ⟨ascii "slotId", signed ids.2, .number ids.2⟩], e.Good := by
    refine List.forall_mem_cons.mpr ⟨⟨?_, readsAs_integer (exact_of_small h.1)⟩,
      List.forall_mem_singleton.mpr ⟨?_, readsAs_integer (exact_of_small h.2)⟩⟩
    · exact plainKey_of_word (pairKeys_word _ (by simp [pairKeys]))
    · exact plainKey_of_word (pairKeys_word _ (by simp [pairKeys]))
  exact compact.readsAs hgood

theorem pairIs_value (ids : Int × Int) : PairIs (pairValue ids) ids.1 ids.2 := by
  have hfind := fun key (hkey : key ∈ pairKeys) =>
    find_ofMembers (pairKeys_word key hkey) (pairMembers ids.1 ids.2)
  constructor
  · rw [pairValue, hfind _ (by simp [pairKeys])]
    rfl
  · have hne : ascii "slotId" ≠ ascii "amsId" := by decide +kernel
    rw [pairValue, hfind _ (by simp [pairKeys]), pairMembers, lookup_cons, if_neg hne]
    rfl

theorem parse_pairs {ids : List (Int × Int)} (h : ∀ i ∈ ids, Small i) :
    parse (arrayText (ids.map fun i => amsSlotPair i.1 i.2)) = .ok (.array (ids.map pairValue)) := by
  have hall : ∀ e ∈ ids.map fun i => (amsSlotPair i.1 i.2, pairValue i), ReadsAs e.1 e.2 := by
    intro e he
    obtain ⟨i, hi, rfl⟩ := List.mem_map.mp he
    exact readsAs_pair (h i hi)
  have hread := (readsAs_array hall).parse_self
  rwa [List.map_map, List.map_map] at hread

/-! ## The two sources -/

theorem small_of_int {a b : Int} (ha : -2 ^ 31 ≤ a ∧ a < 2 ^ 31) (hb : -2 ^ 31 ≤ b ∧ b < 2 ^ 31) :
    Small (a, b) := by
  constructor
  · show a.natAbs < 2 ^ 53
    omega
  · show b.natAbs < 2 ^ 53
    omega

theorem elementId_range (item : Value) (key printerKey : Bytes) :
    -2 ^ 31 ≤ elementId item key printerKey ∧ elementId item key printerKey < 2 ^ 31 := by
  rw [elementId]
  split
  · exact castInt_range _
  · decide

theorem flatIds_small {e : Value} {ids : Int × Int} (h : flatIds e = some ids) : Small ids := by
  cases e with
  | number d =>
      obtain ⟨hlow, hhigh⟩ := castInt_range d
      rw [flatIds] at h
      obtain rfl := Option.some.inj h
      split_ifs
      · exact small_of_int (by decide) (by decide)
      · exact small_of_int (by omega) (by omega)
  | _ => cases h

/-- What becomes of an id, when it is an integer. -/
theorem elementId_is {item : Value} {key printerKey : Bytes} (hkey : ∀ d, item.find key = .number d → IsInt d)
    (hother : ∀ d, item.find printerKey = .number d → IsInt d) :
    IdIs item key printerKey (elementId item key printerKey) := by
  have hcast : ∀ d, IsInt d → Value.number d = .number (castInt d : Int) := by
    rintro d ⟨n, hlow, hhigh, rfl⟩
    rw [castInt_int ⟨hlow, hhigh⟩]
  unfold IdIs elementId
  cases hv : item.find key with
  | number d => exact Or.inl (hcast d (hkey d hv))
  | _ =>
      refine Or.inr ⟨rfl, ?_⟩
      cases hw : item.find printerKey with
      | number d => exact Or.inl (hcast d (hother d hw))
      | _ => exact Or.inr ⟨rfl, rfl⟩

theorem carriesIds {item : Value} (h : ∀ key ∈ [ascii "amsId", ascii "ams_id", ascii "slotId", ascii "slot_id"],
    ∀ d, item.find key = .number d → IsInt d) : CarriesIds item (pairValue (elementIds item)) :=
  ⟨_, _, pairIs_value _, elementId_is (h _ (by simp)) (h _ (by simp)), elementId_is (h _ (by simp)) (h _ (by simp))⟩

/-- A number of the flat list becomes the pair of its slot. -/
theorem carriesSlot {d : Double} (h : IsInt d) :
    ∃ ids, flatIds (.number d) = some ids ∧ CarriesSlot (.number d) (pairValue ids) := by
  obtain ⟨n, hlow, hhigh, rfl⟩ := h
  have hcast := castInt_int ⟨hlow, hhigh⟩
  refine ⟨_, rfl, _, _, pairIs_value _, ?_⟩
  rw [hcast]
  split_ifs with hneg
  · refine Or.inr ⟨fun m hm heq => ?_, rfl, rfl⟩
    have hnm : n = m := by exact_mod_cast Value.number.inj heq
    omega
  · exact Or.inl ⟨n, by omega, rfl, by dsimp only; omega, by dsimp only; omega, by dsimp only; omega⟩

/-! ## Which source is used -/

theorem parse_brackets : parse (ascii "[]") = .ok (.array []) := by
  have htext : ascii "[]" = arrayText [] := by decide +kernel
  rw [htext]
  exact (@readsAs_array [] nofun).parse_self

/-- An array other than `[]` is used as it is; without one the flat list is. -/
theorem forCloud_cases (p : PrintParams) :
    (∃ items, parse p.amsMapping2 = .ok (.array items) ∧ trim p.amsMapping2 ≠ ascii "[]" ∧
      amsMapping2ForCloud p = arrayText ((items.map elementIds).map fun ids => amsSlotPair ids.1 ids.2)) ∨
    (∀ items, parse p.amsMapping2 = .ok (.array items) → items = [] ∧ trim p.amsMapping2 = ascii "[]") ∧
      amsMapping2ForCloud p = derivedFromFlat p.amsMapping := by
  have htrim := parse_trim p.amsMapping2
  unfold amsMapping2ForCloud
  rw [← trim] at htrim
  generalize trim p.amsMapping2 = raw at htrim ⊢
  dsimp only
  by_cases hraw : raw = [] ∨ raw = ascii "[]"
  · rw [if_pos hraw]
    refine Or.inr ⟨fun items hitems => ?_, rfl⟩
    have hparse := (htrim _).mpr hitems
    rcases hraw with rfl | rfl
    · exact absurd hparse (by simp [parse, parseValue, skipWs])
    · exact ⟨Value.array.inj (Except.ok.inj (hparse.symm.trans parse_brackets)), rfl⟩
  · rw [if_neg hraw]
    rw [not_or] at hraw
    split
    · rename_i items hitems
      exact Or.inl ⟨items, (htrim _).mp hitems, hraw.2, rfl⟩
    · rename_i hno
      exact Or.inr ⟨fun items hitems => absurd ((htrim _).mpr hitems) (hno items), rfl⟩

theorem parse_elements (items : List Value) :
    parse (arrayText ((items.map elementIds).map fun ids => amsSlotPair ids.1 ids.2)) =
      .ok (.array ((items.map elementIds).map pairValue)) := by
  refine parse_pairs fun ids hids => ?_
  obtain ⟨item, -, rfl⟩ := List.mem_map.mp hids
  exact small_of_int (elementId_range item _ _) (elementId_range item _ _)

theorem parse_flat (entries : List Value) :
    parse (arrayText ((entries.filterMap flatIds).map fun ids => amsSlotPair ids.1 ids.2)) =
      .ok (.array ((entries.filterMap flatIds).map pairValue)) := by
  refine parse_pairs fun ids hids => ?_
  obtain ⟨e, -, he⟩ := List.mem_filterMap.mp hids
  exact flatIds_small he

theorem parse_derived (amsMapping : Bytes) : ∃ vs, parse (derivedFromFlat amsMapping) = .ok (.array vs) := by
  unfold derivedFromFlat
  split
  · exact ⟨_, parse_flat _⟩
  · exact ⟨[], parse_brackets⟩

/-- The pairs of a flat list are as many as its entries where all of these are numbers. -/
theorem derived_iff {amsMapping : Bytes} {entries : List Value} (hparse : parse amsMapping = .ok (.array entries))
    (hints : ∀ d, .number d ∈ entries → IsInt d) :
    (∃ vs, parse (derivedFromFlat amsMapping) = .ok (.array vs) ∧ List.Forall₂ CarriesSlot entries vs) ↔
      ∀ e ∈ entries, e.isNumber = true := by
  have hresult : parse (derivedFromFlat amsMapping) = .ok (.array ((entries.filterMap flatIds).map pairValue)) := by
    rw [derivedFromFlat, hparse]
    exact parse_flat entries
  constructor
  · rintro ⟨vs, hvs, hall⟩
    obtain rfl := Value.array.inj (Except.ok.inj (hresult.symm.trans hvs))
    have hlen := hall.length_eq
    rw [List.length_map, eq_comm, List.filterMap_length_eq_length] at hlen
    intro e he
    have hsome := hlen e he
    cases e with
    | number d => rfl
    | _ => cases hsome
  · intro hnumbers
    refine ⟨_, hresult, ?_⟩
    clear hparse hresult
    induction entries with
    | nil => exact .nil
    | cons e entries ih =>
        have htail := ih (fun d hd => hints d (List.mem_cons_of_mem _ hd))
          fun x hx => hnumbers x (List.mem_cons_of_mem _ hx)
        have he := hnumbers e List.mem_cons_self
        cases e with
        | number d =>
            obtain ⟨ids, hids, hcarries⟩ := carriesSlot (hints d List.mem_cons_self)
            rw [List.filterMap_cons, hids]
            exact .cons hcarries htail
        | _ => cases he

theorem forall₂_elements {items : List Value} (h : ∀ item ∈ items,
    ∀ key ∈ [ascii "amsId", ascii "ams_id", ascii "slotId", ascii "slot_id"],
      ∀ d, item.find key = .number d → IsInt d) :
    List.Forall₂ CarriesIds items ((items.map elementIds).map pairValue) := by
  rw [List.map_map, List.forall₂_map_right_iff, List.forall₂_same]
  exact fun item hitem => carriesIds (h item hitem)

/-- The filaments keep their places in exactly the requests whose flat list, where it is used, is of numbers, and
whose `ams_mapping2`, where it is an empty array, is spelled `[]`. -/
theorem mappingLaw_iff {p : PrintParams} (h : IntNumbers p) : MappingLaw p ↔ KeepsPlaces p := by
  rcases forCloud_cases p with ⟨items, hitems, hraw, hresult⟩ | ⟨hnone, hresult⟩
  · have hparse := parse_elements items
    rw [← hresult] at hparse
    have hown : ∀ is, parse p.amsMapping2 = .ok (.array is) → is = items := fun is his =>
      Value.array.inj (Except.ok.inj (his.symm.trans hitems))
    constructor
    · intro hlaw
      refine ⟨fun hall => absurd (hall items hitems).2 hraw, fun hempty _ entries hentries => ?_⟩
      obtain rfl := hown [] hempty
      obtain ⟨vs, hvs, hall⟩ := hlaw.derived (fun is his => hown is his) entries hentries
      obtain rfl := Value.array.inj (Except.ok.inj (hparse.symm.trans hvs))
      exact List.forall₂_nil_right_iff.mp hall
    · intro hkeeps
      refine ⟨⟨_, hparse⟩, fun is his _ => ⟨_, hparse, ?_⟩,
        fun hempty entries hentries => ⟨_, hparse, ?_⟩⟩
      · obtain rfl := hown is his
        exact forall₂_elements (h.own is his)
      · obtain rfl := hempty items hitems
        obtain rfl := hkeeps.blanks hitems hraw entries hentries
        exact .nil
  · constructor
    · intro hlaw
      refine ⟨fun _ entries hentries => ?_, fun hempty hraw => absurd (hnone [] hempty).2 hraw⟩
      have hderived := hlaw.derived (fun is his => (hnone is his).1) entries hentries
      rw [hresult] at hderived
      exact (derived_iff hentries (h.flat entries hentries)).mp hderived
    · intro hkeeps
      refine ⟨?_, fun is his hne => absurd (hnone is his).1 hne, fun _ entries hentries => ?_⟩
      · rw [hresult]
        exact parse_derived _
      · rw [hresult]
        exact (derived_iff hentries (h.flat entries hentries)).mpr (hkeeps.numbers hnone entries hentries)

/-- Without an `ams_mapping2` the flat list is used. -/
theorem parse_nothing (v : Value) : parse [] ≠ .ok v := by simp [parse, parseValue, skipWs]

theorem forCloud_nothing {p : PrintParams} (h : p.amsMapping2 = []) :
    amsMapping2ForCloud p = derivedFromFlat p.amsMapping := by
  rcases forCloud_cases p with ⟨items, hitems, -⟩ | ⟨-, hresult⟩
  · rw [h] at hitems
    exact absurd hitems (parse_nothing _)
  · exact hresult

/-- An entry of a flat list, with its text: a slot, or null. -/
def entryText : Option Int → Bytes × Value
  | some n => (signed n, .number n)
  | none => (ascii "null", .null)

/-- The request with these slots and no `ams_mapping2`. -/
def flatPrint (slots : List (Option Int)) : PrintParams :=
  { cubePrint with amsMapping := arrayText ((slots.map entryText).map Prod.fst) }

theorem flatPrint_numbers (slots : List (Option Int)) (h : ∀ n, some n ∈ slots → -2 ^ 31 ≤ n ∧ n < 2 ^ 31) :
    parse (flatPrint slots).amsMapping = .ok (.array ((slots.map entryText).map Prod.snd)) ∧
      IntNumbers (flatPrint slots) := by
  have hreads : ∀ e ∈ slots.map entryText, ReadsAs e.1 e.2 := by
    intro e he
    obtain ⟨slot, hslot, rfl⟩ := List.mem_map.mp he
    cases slot with
    | none => exact Spells.null.readsAs rfl
    | some n =>
        have hn := h n hslot
        exact readsAs_integer (exact_of_small (by omega))
  have hparse := (readsAs_array hreads).parse_self
  refine ⟨hparse, fun entries hentries d hd => ?_, fun items hitems => absurd hitems (parse_nothing _)⟩
  obtain rfl := Value.array.inj (Except.ok.inj (hparse.symm.trans hentries))
  rw [List.map_map] at hd
  obtain ⟨slot, hslot, heq⟩ := List.mem_map.mp hd
  cases slot with
  | none => cases heq
  | some n => exact ⟨n, (h n hslot).1, (h n hslot).2, (Value.number.inj heq).symm⟩

theorem mappingLaw_slots : MappingLaw (flatPrint [some 0, some (-1), some 5]) := by
  obtain ⟨hparse, hnumbers⟩ := flatPrint_numbers [some 0, some (-1), some 5] (by simp)
  refine (mappingLaw_iff hnumbers).mpr ⟨fun _ entries hentries => ?_, fun hempty => absurd hempty (parse_nothing _)⟩
  obtain rfl := Value.array.inj (Except.ok.inj (hparse.symm.trans hentries))
  simp [entryText, Value.isNumber]

/-- `[0,null,2]`: the third filament becomes the second. -/
theorem mappingLaw_gap :
    IntNumbers (flatPrint [some 0, none, some 2]) ∧ ¬ MappingLaw (flatPrint [some 0, none, some 2]) := by
  obtain ⟨hparse, hnumbers⟩ := flatPrint_numbers [some 0, none, some 2] (by simp)
  refine ⟨hnumbers, fun hlaw => ?_⟩
  have hderived := hlaw.derived (fun is his => absurd his (parse_nothing _)) _ hparse
  rw [forCloud_nothing rfl, derived_iff hparse (hnumbers.flat _ hparse)] at hderived
  have hnull := hderived .null (List.mem_cons_of_mem _ List.mem_cons_self)
  cases hnull

end OpenBambu.Print
