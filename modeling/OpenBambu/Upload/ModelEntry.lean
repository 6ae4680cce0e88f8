import OpenBambu.Foundation.FirstMax
import OpenBambu.Foundation.Text
import Mathlib.Data.Prod.Lex

/-!
# The entry of a model in a listing

Covers are read out of the 3MF file of the model, so `find_model_entry` looks for the file in what the
printer lists. Several files can match one name. Those of the cache come first, then the newer ones, then
those with the full extension.
-/

namespace OpenBambu.Upload

open OpenBambu.Foundation

structure ModelFileEntry where
  name : Bytes
  path : Bytes
  time : Int
  deriving DecidableEq, Repr

def endsWith (s suf : Bytes) : Bool := suf.isSuffixOf s

def nameMatchesModel (listingName modelName : Bytes) : Bool :=
  if listingName = modelName then true
  else if !endsWith modelName (ascii ".3mf") then
    if listingName = modelName ++ ascii ".gcode.3mf" then true
    else listingName = modelName ++ ascii ".3mf"
  else false

/-- What is behind the last slash, or all of it. -/
def baseOf (path : Bytes) : Bytes := (behindLast Ascii.slash path).getD path

def inCache (path : Bytes) : Bool := (findText (ascii "/cache/") path).isSome

/-- `consider`, with the pointer `best` as an entry and its place in the list. -/
def consider (modelName : Bytes) (best : Option (ModelFileEntry × Nat)) (f : ModelFileEntry × Nat) :
    Option (ModelFileEntry × Nat) :=
  if !nameMatchesModel f.1.name modelName && !nameMatchesModel (baseOf f.1.path) modelName then best
  else
    match best with
    | none => some f
    | some b =>
        let cacheA := if inCache f.1.path then 1 else 0
        let cacheB := if inCache b.1.path then 1 else 0
        if cacheA ≠ cacheB then if cacheA > cacheB then some f else some b
        else if f.1.time ≠ b.1.time then if f.1.time > b.1.time then some f else some b
        else
          let gcodeA := endsWith f.1.name (ascii ".gcode.3mf")
          let gcodeB := endsWith b.1.name (ascii ".gcode.3mf")
          if gcodeA ≠ gcodeB ∧ gcodeA then some f else some b

def findModelEntry (files : List ModelFileEntry) (modelName : Bytes) : Option (ModelFileEntry × Nat) :=
  files.zipIdx.foldl (consider modelName) none

/-! ## The order of the entries -/

/-- The entry matches by its name or by the basename of its path. -/
def matchesModel (modelName : Bytes) (f : ModelFileEntry) : Bool :=
  nameMatchesModel f.name modelName || nameMatchesModel (baseOf f.path) modelName

/-- Under `/cache/`, then the newer time, then `.gcode.3mf`. -/
def rank (f : ModelFileEntry) : Bool ×ₗ Int ×ₗ Bool :=
  toLex (inCache f.path, toLex (f.time, endsWith f.name (ascii ".gcode.3mf")))

theorem rank_lt_iff (b f : ModelFileEntry) :
    rank b < rank f ↔ inCache b.path < inCache f.path ∨ inCache b.path = inCache f.path ∧
      (b.time < f.time ∨ b.time = f.time ∧
        endsWith b.name (ascii ".gcode.3mf") < endsWith f.name (ascii ".gcode.3mf")) := by
  rw [rank, rank, Prod.Lex.toLex_lt_toLex, Prod.Lex.toLex_lt_toLex]

/-- The comparison of `consider` is that of the ranks. -/
theorem consider_eq (modelName : Bytes) (best : Option (ModelFileEntry × Nat)) (f : ModelFileEntry × Nat) :
    consider modelName best f = keepMax (matchesModel modelName) rank best f := by
  unfold consider keepMax
  have hmatch : (!nameMatchesModel f.1.name modelName && !nameMatchesModel (baseOf f.1.path) modelName) =
      !matchesModel modelName f.1 := by
    rw [matchesModel, Bool.not_or]
  rw [hmatch]
  cases matchesModel modelName f.1 with
  | false => rfl
  | true =>
      cases best with
      | none => rfl
      | some b =>
          simp only [rank_lt_iff, Bool.lt_iff]
          generalize endsWith f.1.name (ascii ".gcode.3mf") = gcodeA
          generalize endsWith b.1.name (ascii ".gcode.3mf") = gcodeB
          rcases lt_trichotomy b.1.time f.1.time with ht | ht | ht
          · cases inCache f.1.path <;> cases inCache b.1.path <;> simp [ht, ht.ne']
          · cases inCache f.1.path <;> cases inCache b.1.path <;>
              cases gcodeA <;> cases gcodeB <;> simp [ht]
          · cases inCache f.1.path <;> cases inCache b.1.path <;> simp [ht.ne, ht.ne', ht.not_gt]

theorem findModelEntry_eq (files : List ModelFileEntry) (modelName : Bytes) :
    findModelEntry files modelName = firstMax (matchesModel modelName) rank files := by
  have hstep : consider modelName = keepMax (matchesModel modelName) rank :=
    funext fun best => funext fun f => consider_eq modelName best f
  rw [findModelEntry, hstep, firstMax]

/-- Nothing is found only where nothing matches; what is found is the first of the matching entries with
the highest rank, and in another order of the listing an entry of that rank is found. -/
structure ModelEntryLaw (files : List ModelFileEntry) (modelName : Bytes) : Prop where
  none_iff : findModelEntry files modelName = none ↔ ∀ f ∈ files, matchesModel modelName f = false
  first : ∀ r, findModelEntry files modelName = some r → IsFirstMax (matchesModel modelName) rank files r
  perm : ∀ files', files.Perm files' →
    (findModelEntry files modelName).map (fun r => rank r.1) =
      (findModelEntry files' modelName).map fun r => rank r.1

theorem findModelEntry_law (files : List ModelFileEntry) (modelName : Bytes) :
    ModelEntryLaw files modelName where
  none_iff := by
    rw [findModelEntry_eq]
    exact firstMax_eq_none_iff
  first r h := by
    rw [findModelEntry_eq] at h
    exact isFirstMax_of_eq h
  perm files' h := by
    rw [findModelEntry_eq, findModelEntry_eq]
    exact firstMax_perm h

end OpenBambu.Upload
