import OpenBambu.Foundation.Binary64
import Mathlib.Data.List.DropRight

/-!
# JSON values of `json_lite`

`obn::json::Value` with its accessors, its path lookup and `dump`. An `Object` is a
`std::map`: an association list in increasing key order, which `emplace` and
`assign` keep. Accessors return their default on any other kind.
-/

namespace OpenBambu.Json

open OpenBambu.Foundation

inductive Value where
  | null
  | bool (b : Bool)
  | number (d : Double)
  | string (s : Bytes)
  | array (a : List Value)
  | object (o : List (Bytes × Value))

abbrev Object := List (Bytes × Value)

/-- `std::map::emplace`: a key that is present keeps its value. -/
def emplace (o : Object) (k : Bytes) (v : Value) : Object :=
  match o with
  | [] => [(k, v)]
  | (k', v') :: rest =>
      if k = k' then (k', v') :: rest
      else if k < k' then (k, v) :: (k', v') :: rest
      else (k', v') :: emplace rest k v

/-- `req[k] = v`. -/
def assign (o : Object) (k : Bytes) (v : Value) : Object :=
  match o with
  | [] => [(k, v)]
  | (k', v') :: rest =>
      if k = k' then (k, v) :: rest
      else if k < k' then (k, v) :: (k', v') :: rest
      else (k', v') :: assign rest k v

def lookup (o : Object) (k : Bytes) : Option Value := List.lookup k o

theorem lookup_nil (k : Bytes) : lookup [] k = none := rfl

theorem lookup_cons (p : Bytes × Value) (o : Object) (k : Bytes) :
    lookup (p :: o) k = if k = p.1 then some p.2 else lookup o k := by
  rw [lookup, List.lookup_cons]
  by_cases h : k = p.1
  · rw [if_pos h, beq_iff_eq.mpr h]
  · rw [if_neg h, beq_false_of_ne h]
    rfl

/-- Every key is below the later ones. -/
def Sorted (o : Object) : Prop := o.Pairwise fun a b => a.1 < b.1

theorem key_trichotomy (a b : Bytes) : a < b ∨ a = b ∨ b < a := by
  by_cases h : a < b
  · exact Or.inl h
  · by_cases h' : b < a
    · exact Or.inr (Or.inr h')
    · exact Or.inr (Or.inl (Std.Trichotomous.trichotomous (r := (· < ·)) a b h h'))

theorem mem_emplace {o : Object} {k : Bytes} {v : Value} {p : Bytes × Value}
    (h : p ∈ emplace o k v) : p = (k, v) ∨ p ∈ o := by
  induction o with
  | nil => exact Or.inl (by simpa [emplace] using h)
  | cons q o ih =>
      rw [emplace] at h
      split_ifs at h with he hl
      · exact Or.inr h
      · exact (List.mem_cons.mp h)
      · rcases List.mem_cons.mp h with rfl | h
        · exact Or.inr (by simp)
        · exact (ih h).imp_right fun h => by simp [h]

theorem emplace_ne_nil (o : Object) (k : Bytes) (v : Value) : emplace o k v ≠ [] := by
  cases o with
  | nil => simp [emplace]
  | cons q o => rw [emplace]; split_ifs <;> simp

theorem sorted_emplace {o : Object} (h : Sorted o) (k : Bytes) (v : Value) :
    Sorted (emplace o k v) := by
  induction o with
  | nil => simp [Sorted, emplace]
  | cons q o ih =>
      obtain ⟨hq, ho⟩ := List.pairwise_cons.mp h
      rw [emplace]
      split_ifs with he hl
      · exact h
      · refine List.pairwise_cons.mpr ⟨fun p hp => ?_, h⟩
        rcases List.mem_cons.mp hp with rfl | hp
        · exact hl
        · exact List.lt_trans hl (hq p hp)
      · refine List.pairwise_cons.mpr ⟨fun p hp => ?_, ih ho⟩
        rcases mem_emplace hp with rfl | hp
        · exact ((key_trichotomy k q.1).resolve_left hl).resolve_left he
        · exact hq p hp

/-- A member that is there already keeps the place it had. -/
theorem emplace_assign (o : Object) (k key : Bytes) (v w : Value) :
    emplace (assign o k v) key w = assign (emplace o key w) k v := by
  have irrefl : ∀ a : Bytes, ¬ a < a := fun a => List.lt_irrefl a
  have asymm : ∀ {a b : Bytes}, a < b → ¬ b < a := fun h => List.lt_asymm h
  have trans : ∀ {a b c : Bytes}, a < b → b < c → a < c := fun h h' => List.lt_trans h h'
  induction o with
  | nil =>
      rcases key_trichotomy k key with h | h | h <;> grind [emplace, assign]
  | cons q o ih =>
      rcases key_trichotomy k key with h | h | h <;>
        rcases key_trichotomy k q.1 with h' | h' | h' <;>
          rcases key_trichotomy key q.1 with h'' | h'' | h'' <;> grind [emplace, assign]

theorem assign_eq_self_iff {o : Object} (h : Sorted o) (k : Bytes) (v : Value) :
    assign o k v = o ↔ lookup o k = some v := by
  induction o with
  | nil => simp [assign, lookup]
  | cons q o ih =>
      obtain ⟨hq, ho⟩ := List.pairwise_cons.mp h
      rw [assign]
      split_ifs with he hl
      · subst he
        simp [lookup_cons, Prod.ext_iff, eq_comm]
      · have hne : ∀ p ∈ q :: o, p.1 ≠ k := by
          intro p hp heq
          rcases List.mem_cons.mp hp with rfl | hp
          · exact he heq.symm
          · exact List.lt_asymm hl (heq ▸ hq p hp)
        have hnone : lookup (q :: o) k = none :=
          List.lookup_eq_none_iff.mpr fun p hp => by simpa using (hne p hp).symm
        rw [hnone]
        constructor
        · intro heq
          exact absurd (congrArg List.length heq) (by simp)
        · simp
      · have hskip : lookup (q :: o) k = lookup o k := by
          rw [lookup_cons, if_neg he]
        rw [hskip, ← ih ho]
        simp

theorem mem_assign {o : Object} {k : Bytes} {v : Value} {p : Bytes × Value} (h : p ∈ assign o k v) :
    p = (k, v) ∨ p ∈ o := by
  induction o with
  | nil => exact Or.inl (by simpa [assign] using h)
  | cons q o ih =>
      rw [assign] at h
      split_ifs at h with he hl
      · exact (List.mem_cons.mp h).imp_right fun h => List.mem_cons_of_mem _ h
      · exact List.mem_cons.mp h
      · rcases List.mem_cons.mp h with rfl | h
        · exact Or.inr List.mem_cons_self
        · exact (ih h).imp_right fun h => List.mem_cons_of_mem _ h

theorem sorted_assign {o : Object} (h : Sorted o) (k : Bytes) (v : Value) : Sorted (assign o k v) := by
  induction o with
  | nil => simp [Sorted, assign]
  | cons q o ih =>
      obtain ⟨hq, ho⟩ := List.pairwise_cons.mp h
      rw [assign]
      split_ifs with he hl
      · exact List.pairwise_cons.mpr ⟨fun p hp => he ▸ hq p hp, ho⟩
      · refine List.pairwise_cons.mpr ⟨fun p hp => ?_, h⟩
        rcases List.mem_cons.mp hp with rfl | hp
        · exact hl
        · exact List.lt_trans hl (hq p hp)
      · refine List.pairwise_cons.mpr ⟨fun p hp => ?_, ih ho⟩
        rcases mem_assign hp with rfl | hp
        · exact ((key_trichotomy k q.1).resolve_left hl).resolve_left he
        · exact hq p hp

theorem lookup_assign (o : Object) (k : Bytes) (v : Value) (key : Bytes) :
    lookup (assign o k v) key = if key = k then some v else lookup o key := by
  induction o with
  | nil => rw [assign, lookup_cons]
  | cons q o ih =>
      rw [assign]
      split_ifs with he hl hkey hkey hkey
      all_goals simp only [lookup_cons, ih]
      all_goals grind

namespace Value

def isNumber : Value → Bool
  | .number _ => true
  | _ => false

def isObject : Value → Bool
  | .object _ => true
  | _ => false

def asNumber (v : Value) (d : Double) : Double :=
  match v with
  | .number x => x
  | _ => d

/-- A truncating cast, without a check that the number is integral. -/
def asInt (v : Value) (d : Int) : Int :=
  match v with
  | .number x => Binary64.toInt64 x
  | _ => d

def asString : Value → Bytes
  | .string s => s
  | _ => []

def asArray : Value → List Value
  | .array a => a
  | _ => []

def asObject : Value → Object
  | .object o => o
  | _ => []

end Value

/-! ## Path lookup -/

def isSpace (b : Byte) : Bool := b = Ascii.sp || (0x09 ≤ b && b ≤ 0x0d)

/-- `std::stoul` in base ten; a minus sign negates modulo `2^64`. -/
def stoul (s : Bytes) : Option Nat :=
  let s := s.dropWhile isSpace
  let negative := s.head? = some Ascii.minus
  let s := if negative ∨ s.head? = some Ascii.plus then s.tail else s
  let ds := s.takeWhile isDigit
  if ds = [] then none
  else
    let n := ofDecimal ds
    if 2 ^ 64 ≤ n then none
    else if negative then some ((2 ^ 64 - n) % 2 ^ 64)
    else some n

/-- A separating dot behind a path element. -/
def skipDot : Bytes → Bytes
  | [] => []
  | c :: p => if c = Ascii.dot then p else c :: p

/-- The loop of `Value::find`; each turn uses up at least one byte of the path. -/
def findLoop : Nat → Value → Bytes → Value
  | _, cur, [] => cur
  | 0, _, _ => .null
  | fuel + 1, cur, c :: p =>
      match cur with
      | .null => .null
      | _ =>
        if c = Ascii.lbracket then
          let idx := p.takeWhile (· ≠ Ascii.rbracket)
          match p.dropWhile (· ≠ Ascii.rbracket) with
          | [] => .null
          | _ :: after =>
              match cur with
              | .array arr =>
                  match stoul idx with
                  | none => .null
                  | some i =>
                      match arr[i]? with
                      | none => .null
                      | some v => findLoop fuel v (skipDot after)
              | _ => .null
        else
          let isKey := fun b => b ≠ Ascii.dot ∧ b ≠ Ascii.lbracket
          let key := (c :: p).takeWhile isKey
          match cur with
          | .object o =>
              match lookup o key with
              | none => .null
              | some v => findLoop fuel v (skipDot ((c :: p).dropWhile isKey))
          | _ => .null

/-- `Value::find`. Any miss gives the null value. -/
def Value.find (v : Value) (path : Bytes) : Value := findLoop path.length v path

/-- A path without dots and brackets is the key of a member. -/
theorem find_key {key : Bytes} (hne : key ≠ []) (hk : ∀ b ∈ key, b ≠ Ascii.dot ∧ b ≠ Ascii.lbracket)
    (v : Value) : v.find key = (lookup v.asObject key).getD .null := by
  obtain ⟨c, p, rfl⟩ := List.exists_cons_of_ne_nil hne
  have hc := (hk c List.mem_cons_self).2
  have hall : ∀ b ∈ c :: p, (decide (b ≠ Ascii.dot ∧ b ≠ Ascii.lbracket)) = true := fun b hb =>
    decide_eq_true (hk b hb)
  have htake : (c :: p).takeWhile (fun b => decide (b ≠ Ascii.dot ∧ b ≠ Ascii.lbracket)) = c :: p :=
    List.takeWhile_eq_self_iff.mpr hall
  have hdrop : (c :: p).dropWhile (fun b => decide (b ≠ Ascii.dot ∧ b ≠ Ascii.lbracket)) = [] :=
    List.dropWhile_eq_nil_iff.mpr hall
  rw [Value.find, List.length_cons, findLoop.eq_def]
  cases v with
  | object o =>
      simp only [if_neg hc, htake, hdrop, Value.asObject]
      cases lookup o (c :: p) with
      | none => rfl
      | some v => cases hp : p.length <;> rfl
  | _ =>
      simp only [if_neg hc, Value.asObject]
      rfl

/-- Letters, digits and underscores. -/
def wordByte (b : Byte) : Bool := (0x61 ≤ b && b ≤ 0x7a) || (0x41 ≤ b && b ≤ 0x5a) || isDigit b || b = 0x5f

/-- The keys of the messages are words. -/
def isWord (key : Bytes) : Bool := !key.isEmpty && key.all wordByte

theorem wordByte_apart {b : Byte} (h : wordByte b = true) :
    (b ≠ Ascii.quote ∧ b ≠ Ascii.backslash) ∧ b ≠ Ascii.dot ∧ b ≠ Ascii.lbracket := by
  have hall : ∀ b : Byte, wordByte b = true →
      (b ≠ Ascii.quote ∧ b ≠ Ascii.backslash) ∧ b ≠ Ascii.dot ∧ b ≠ Ascii.lbracket :=
    forall_byte (by decide +kernel)
  exact hall b h

theorem isWord_iff {key : Bytes} : isWord key = true ↔ key ≠ [] ∧ ∀ b ∈ key, wordByte b = true := by
  rw [isWord, Bool.and_eq_true, Bool.not_eq_true', List.isEmpty_eq_false_iff, List.all_eq_true]

/-- There is no path syntax in a word. -/
theorem find_word {key : Bytes} (h : isWord key = true) (v : Value) :
    v.find key = (lookup v.asObject key).getD .null := by
  obtain ⟨hne, hbytes⟩ := isWord_iff.mp h
  exact find_key hne (fun b hb => (wordByte_apart (hbytes b hb)).2) v

/-! ## Serialisation -/

def hexDigit (n : Nat) : Byte := if n < 10 then UInt8.ofNat (48 + n) else UInt8.ofNat (87 + n)

/-- What `escape` writes for one byte. -/
def escapeByte (c : Byte) : Bytes :=
  if c = Ascii.quote then [Ascii.backslash, Ascii.quote]
  else if c = Ascii.backslash then [Ascii.backslash, Ascii.backslash]
  else if c = 0x08 then [Ascii.backslash, Ascii.letter 'b']
  else if c = 0x0c then [Ascii.backslash, Ascii.letter 'f']
  else if c = Ascii.lf then [Ascii.backslash, Ascii.letter 'n']
  else if c = Ascii.cr then [Ascii.backslash, Ascii.letter 'r']
  else if c = Ascii.tab then [Ascii.backslash, Ascii.letter 't']
  else if c < 0x20 then
    [Ascii.backslash, Ascii.letter 'u', 0x30, 0x30, hexDigit (c.toNat / 16), hexDigit (c.toNat % 16)]
  else [c]

def escape (s : Bytes) : Bytes := Ascii.quote :: s.flatMap escapeByte ++ [Ascii.quote]

def signed (n : Int) : Bytes :=
  if n < 0 then Ascii.minus :: decimal n.natAbs else decimal n.natAbs

/-- `n / d * 10^s` rounded to an integer. -/
def scaledDecimal (n d : Nat) : Int → Nat
  | .ofNat k => Binary64.roundHalfEven (n * 10 ^ k) d
  | .negSucc k => Binary64.roundHalfEven n (d * 10 ^ (k + 1))

/-- The decimal exponent of a positive fraction. -/
def floorLog10 (n d : Nat) : Int :=
  if d ≤ n then Nat.log 10 (n / d) else -(Nat.clog 10 ((d + n - 1) / n) : Int)

/-- Without its trailing zeros. -/
def stripZeros (ds : Bytes) : Bytes := ds.rdropWhile (· = 0x30)

def withPoint (int frac : Bytes) : Bytes :=
  let frac := stripZeros frac
  if frac = [] then int else int ++ Ascii.dot :: frac

/-- `%.17g` of a positive fraction. -/
def formatMagnitude (n d : Nat) : Bytes :=
  let x := floorLog10 n d
  let m := scaledDecimal n d (16 - x)
  let (m, x) := if m = 10 ^ 17 then (10 ^ 16, x + 1) else (m, x)
  let ds := decimal m
  if x < -4 ∨ 17 ≤ x then
    let e := decimal x.natAbs
    withPoint (ds.take 1) (ds.drop 1) ++ Ascii.letter 'e' ::
      (if x < 0 then Ascii.minus else Ascii.plus) :: (if e.length < 2 then 0x30 :: e else e)
  else if x < 0 then withPoint [0x30] (List.replicate (x.natAbs - 1) 0x30 ++ ds)
  else withPoint (ds.take (x.toNat + 1)) (ds.drop (x.toNat + 1))

/-- Integers in the range of `long long` are written as such, other numbers with
seventeen significant digits. The source's bound `9.2233720368547748e18` is `2^63 - 1024`. -/
def dumpNumber (d : Double) : Bytes :=
  if -(2 ^ 63 - 1024) ≤ d ∧ d ≤ 2 ^ 63 - 1024 ∧ d.den = 1 then signed (Binary64.toInt64 d)
  else if d < 0 then Ascii.minus :: formatMagnitude d.num.natAbs d.den
  else formatMagnitude d.num.natAbs d.den

mutual

def Value.dump : Value → Bytes
  | .null => ascii "null"
  | .bool b => if b then ascii "true" else ascii "false"
  | .number d => dumpNumber d
  | .string s => escape s
  | .array a => Ascii.lbracket :: dumpItems a
  | .object o => Ascii.lbrace :: dumpMembers o

/-- The elements behind an opening bracket, and the closing one. -/
def dumpItems : List Value → Bytes
  | [] => [Ascii.rbracket]
  | v :: vs => v.dump ++ dumpMoreItems vs

def dumpMoreItems : List Value → Bytes
  | [] => [Ascii.rbracket]
  | v :: vs => Ascii.comma :: v.dump ++ dumpMoreItems vs

def dumpMembers : List (Bytes × Value) → Bytes
  | [] => [Ascii.rbrace]
  | (k, v) :: o => escape k ++ Ascii.colon :: v.dump ++ dumpMoreMembers o

def dumpMoreMembers : List (Bytes × Value) → Bytes
  | [] => [Ascii.rbrace]
  | (k, v) :: o => Ascii.comma :: escape k ++ Ascii.colon :: v.dump ++ dumpMoreMembers o

end

end OpenBambu.Json
