import OpenBambu.Json.Rfc8259

/-!
# The parser and its pointer

The functions of `Parser` as they move `p` through the text: a position is an index, `end` is the
length of the text, and a dereference at or behind `end` halts the call. Loops and the recursion
of `parse_value` take fuel; running out of it is `Halt.hang`. No run halts, and a run returns what
the reader of `OpenBambu.Json.Parser` finds on the text behind the pointer (`parse_returns`).
-/

namespace OpenBambu.Json.Cursor

open OpenBambu.Foundation

/-- `true` with a value and the new `p`, or `false` with what is in `err`. -/
abbrev Outcome (α : Type) := Except String (α × Nat)

variable (text : Bytes)

/-- `p < end && test(*p)`. -/
def peek (p : Nat) (test : Byte → Bool) : Except Halt Bool :=
  if p < text.length then do
    let c ← byteAt text p
    return test c
  else return false

/-- `while (p < end && test(*p)) ++p;` -/
def skipWhile (test : Byte → Bool) : Nat → Nat → Except Halt Nat
  | 0, _ => .error .hang
  | fuel + 1, p => do
      if ← peek text p test then skipWhile test fuel (p + 1) else return p

def skipWs (p : Nat) : Except Halt Nat := skipWhile text isWs (text.length + 1) p

def skipDigits (p : Nat) : Except Halt Nat := skipWhile text isDigit (text.length + 1) p

/-- The comparing loop of `literal`. -/
def compare : Bytes → Nat → Except Halt Bool
  | [], _ => return true
  | l :: lit, p => do
      let c ← byteAt text p
      if c = l then compare lit (p + 1) else return false

def literal (lit : Bytes) (p : Nat) : Except Halt (Option Nat) :=
  if text.length - p < lit.length then return none
  else do
    if ← compare text lit p then return some (p + lit.length) else return none

/-- The loop over four hex digits from `p`; the code point so far is `cp`. -/
def hexDigits : Nat → Nat → Nat → Except Halt (Option Nat)
  | 0, _, cp => return some cp
  | n + 1, p, cp => do
      let h ← byteAt text p
      match hexVal h with
      | none => return none
      | some d => hexDigits n (p + 1) (cp * 16 + d)

/-- What follows the four digits of a high surrogate: the pair it makes, when a low one follows. -/
def surrogatePair (cp p : Nat) : Except Halt (Outcome Bytes) :=
  if text.length - p < 6 then return .ok (utf8 cp, p)
  else do
    let b ← byteAt text p
    if b ≠ Ascii.backslash then return .ok (utf8 cp, p)
    else
      let u ← byteAt text (p + 1)
      if u ≠ Ascii.letter 'u' then return .ok (utf8 cp, p)
      else
        match ← hexDigits text 4 (p + 2) 0 with
        | none => return .error "bad low surrogate"
        | some lo =>
            if 0xDC00 ≤ lo ∧ lo ≤ 0xDFFF then
              return .ok (utf8 (0x10000 + (cp - 0xD800) * 0x400 + (lo - 0xDC00)), p + 6)
            else return .ok (utf8 cp, p)

/-- The `switch` on the byte `e` behind a backslash, with `p` behind it. -/
def escape (e : Byte) (p : Nat) : Except Halt (Outcome Bytes) :=
  match simpleEscape e with
  | some b => return .ok ([b], p)
  | none =>
      if e = Ascii.letter 'u' then
        if text.length - p < 4 then return .error "bad \\u escape"
        else do
          match ← hexDigits text 4 p 0 with
          | none => return .error "bad hex in \\u"
          | some cp =>
              if 0xD800 ≤ cp ∧ cp ≤ 0xDBFF then surrogatePair text cp (p + 4)
              else return .ok (utf8 cp, p + 4)
      else return .error "bad escape char"

/-- The loop of `parse_string`. -/
def stringLoop : Nat → Nat → Bytes → Except Halt (Outcome Bytes)
  | 0, _, _ => .error .hang
  | fuel + 1, p, out =>
      if p < text.length then do
        let c ← byteAt text p
        if c = Ascii.quote then return .ok (out, p + 1)
        else if c = Ascii.backslash then
          if p + 1 < text.length then
            let e ← byteAt text (p + 1)
            match ← escape text e (p + 2) with
            | .error err => return .error err
            | .ok (bs, p) => stringLoop fuel p (out ++ bs)
          else return .error "bad escape"
        else stringLoop fuel (p + 1) (out ++ [c])
      else return .error "unterminated string"

def parseString (p : Nat) : Except Halt (Outcome Bytes) := do
  if ← peek text p (· = Ascii.quote) then stringLoop text (text.length + 1) (p + 1) []
  else return .error "expected string"

/-- `.` and digits. -/
def fraction (p : Nat) : Except Halt Nat := do
  if ← peek text p (· = Ascii.dot) then skipDigits text (p + 1) else return p

/-- `e` or `E`, a sign and digits. -/
def exponent (p : Nat) : Except Halt Nat := do
  if ← peek text p isExpLetter then
    if ← peek text (p + 1) isSign then skipDigits text (p + 2) else skipDigits text (p + 1)
  else return p

/-- `parse_number` looks at `*p` first, without a comparison of `p` and `end`. -/
def parseNumber (start : Nat) : Except Halt (Outcome Double) := do
  let c ← byteAt text start
  let p ← skipDigits text (if c = Ascii.minus then start + 1 else start)
  let p ← fraction text p
  let p ← exponent text p
  if p = start then return .error "bad number"
  else
    let token ← slice text start (p - start)
    match Binary64.stod token with
    | none => return .error "number range"
    | some d => return .ok (d, p)

/-- `parse_value` on a literal or number, given `c = *p`. -/
def parseScalar (c : Byte) (p : Nat) : Except Halt (Outcome Value) :=
  if c = Ascii.letter 't' then do
    match ← literal text (ascii "true") p with
    | some p => return .ok (.bool true, p)
    | none => return .error "bad literal"
  else if c = Ascii.letter 'f' then do
    match ← literal text (ascii "false") p with
    | some p => return .ok (.bool false, p)
    | none => return .error "bad literal"
  else if c = Ascii.letter 'n' then do
    match ← literal text (ascii "null") p with
    | some p => return .ok (.null, p)
    | none => return .error "bad literal"
  else if c = Ascii.minus ∨ isDigit c then do
    match ← parseNumber text p with
    | .error e => return .error e
    | .ok (d, p) => return .ok (.number d, p)
  else return .error "unexpected character"

mutual

def parseValue : Nat → Nat → Except Halt (Outcome Value)
  | 0, _ => .error .hang
  | fuel + 1, p => do
      let p ← skipWs text p
      if p < text.length then
        let c ← byteAt text p
        if c = Ascii.quote then
          match ← parseString text p with
          | .error e => return .error e
          | .ok (s, p) => return .ok (.string s, p)
        else if c = Ascii.lbrace then
          let p ← skipWs text (p + 1)
          if ← peek text p (· = Ascii.rbrace) then return .ok (.object [], p + 1)
          else parseMembers fuel [] p
        else if c = Ascii.lbracket then
          let p ← skipWs text (p + 1)
          if ← peek text p (· = Ascii.rbracket) then return .ok (.array [], p + 1)
          else parseItems fuel [] p
        else parseScalar text c p
      else return .error "unexpected EOF"

/-- The loop over members. -/
def parseMembers : Nat → Object → Nat → Except Halt (Outcome Value)
  | 0, _, _ => .error .hang
  | fuel + 1, obj, p => do
      let p ← skipWs text p
      match ← parseString text p with
      | .error e => return .error e
      | .ok (key, p) =>
          let p ← skipWs text p
          if ← peek text p (· = Ascii.colon) then
            match ← parseValue fuel (p + 1) with
            | .error e => return .error e
            | .ok (v, p) =>
                let p ← skipWs text p
                if ← peek text p (· = Ascii.comma) then parseMembers fuel (emplace obj key v) (p + 1)
                else if ← peek text p (· = Ascii.rbrace) then
                  return .ok (.object (emplace obj key v), p + 1)
                else return .error "expected ',' or '\x7d'"
          else return .error "expected ':'"

/-- The loop over elements. -/
def parseItems : Nat → List Value → Nat → Except Halt (Outcome Value)
  | 0, _, _ => .error .hang
  | fuel + 1, arr, p => do
      match ← parseValue fuel p with
      | .error e => return .error e
      | .ok (v, p) =>
          let p ← skipWs text p
          if ← peek text p (· = Ascii.comma) then parseItems fuel (arr ++ [v]) (p + 1)
          else if ← peek text p (· = Ascii.rbracket) then return .ok (.array (arr ++ [v]), p + 1)
          else return .error "expected ',' or ']'"

end

/-- `obn::json::parse` with fuel for the recursion of `parse_value`. -/
def parse (fuel : Nat) : Except Halt (Except String Value) := do
  let p ← skipWs text 0
  match ← parseValue text fuel p with
  | .error e => return .error e
  | .ok (v, p) =>
      let p ← skipWs text p
      if p < text.length then return .error "trailing characters" else return .ok v

/-! ## The pointer and the text behind it -/

/-- `p` stands in front of `s`. -/
structure Points (p : Nat) (s : Bytes) : Prop where
  inside : p ≤ text.length
  drop_eq : text.drop p = s

/-- The call returns what the reader finds, with the pointer in front of the rest. -/
inductive Agrees {α : Type} : Except Halt (Outcome α) → Result α → Prop
  | error (e : String) : Agrees (.ok (.error e)) (.error e)
  | ok (a : α) {q : Nat} {rest : Bytes} (front : Points text q rest) :
      Agrees (.ok (.ok (a, q))) (.ok (a, rest))

variable {text : Bytes} {p : Nat} {c : Byte} {s : Bytes}

theorem Agrees.outcome {α : Type} {x : Except Halt (Outcome α)} {y : Result α}
    (h : Agrees text x y) :
    (∃ e, x = .ok (.error e) ∧ y = .error e) ∨
      ∃ a q rest, x = .ok (.ok (a, q)) ∧ y = .ok (a, rest) ∧ Points text q rest := by
  cases h with
  | error e => exact Or.inl ⟨e, rfl, rfl⟩
  | ok a front => exact Or.inr ⟨a, _, _, rfl, rfl, front⟩

theorem Points.length_eq (h : Points text p s) : s.length = text.length - p := by
  rw [← h.drop_eq, List.length_drop]

theorem Points.lt (h : Points text p (c :: s)) : p < text.length := lt_of_drop h.drop_eq

theorem Points.step (h : Points text p (c :: s)) : Points text (p + 1) s :=
  ⟨h.lt, drop_succ h.drop_eq⟩

theorem Points.byteAt (h : Points text p (c :: s)) : byteAt text p = .ok c := byteAt_drop h.drop_eq

theorem Points.not_lt (h : Points text p []) : ¬ p < text.length := by
  have := h.length_eq
  rw [List.length_nil] at this
  omega

theorem Points.peek_cons (h : Points text p (c :: s)) (test : Byte → Bool) :
    peek text p test = .ok (test c) := by
  rw [peek, if_pos h.lt, h.byteAt]
  rfl

theorem Points.peek_nil (h : Points text p []) (test : Byte → Bool) :
    peek text p test = .ok false := by
  rw [peek, if_neg h.not_lt]
  rfl

theorem Points.skipWhile (h : Points text p s) (test : Byte → Bool) {fuel : Nat}
    (hf : s.length < fuel) :
    ∃ q, skipWhile text test fuel p = .ok q ∧ Points text q (s.dropWhile test) := by
  induction s generalizing p fuel with
  | nil =>
      obtain ⟨n, rfl⟩ := Nat.exists_eq_succ_of_ne_zero (Nat.ne_of_gt hf)
      refine ⟨p, ?_, h⟩
      rw [Cursor.skipWhile, h.peek_nil]
      rfl
  | cons c s ih =>
      obtain ⟨n, rfl⟩ := Nat.exists_eq_succ_of_ne_zero (Nat.ne_of_gt (Nat.zero_lt_of_lt hf))
      rw [Cursor.skipWhile, h.peek_cons, ok_bind, List.dropWhile_cons]
      cases test c with
      | true => exact ih h.step (by simpa using hf)
      | false => exact ⟨p, rfl, h⟩

theorem Points.skipWs (h : Points text p s) :
    ∃ q, skipWs text p = .ok q ∧ Points text q (Json.skipWs s) := by
  refine h.skipWhile isWs ?_
  rw [h.length_eq]
  omega

theorem Points.skipDigits (h : Points text p s) :
    ∃ q, skipDigits text p = .ok q ∧ Points text q (s.dropWhile isDigit) := by
  refine h.skipWhile isDigit ?_
  rw [h.length_eq]
  omega

/-! ## Literals and numbers -/

theorem Points.compare {lit : Bytes} (h : Points text p s) (hl : lit.length ≤ s.length) :
    compare text lit p = .ok (decide (lit <+: s)) := by
  induction lit generalizing p s with
  | nil =>
      rw [Cursor.compare, decide_eq_true List.nil_prefix]
      rfl
  | cons l lit ih =>
      obtain ⟨c, s, rfl⟩ := List.exists_cons_of_length_pos (Nat.zero_lt_of_lt hl)
      rw [Cursor.compare, h.byteAt, ok_bind]
      by_cases hc : c = l
      · rw [if_pos hc, ih h.step (by simpa using hl), hc]
        simp
      · rw [if_neg hc]
        simp [Ne.symm hc]
        rfl

theorem Points.advance {lit rest : Bytes} (h : Points text p (lit ++ rest)) :
    Points text (p + lit.length) rest := by
  have hlen := h.length_eq
  have hin := h.inside
  rw [List.length_append] at hlen
  refine ⟨by omega, ?_⟩
  rw [← List.drop_drop, h.drop_eq, List.drop_left]

theorem Points.literal (h : Points text p s) (lit : Bytes) :
    (literal text lit p = .ok none ∧ Json.literal lit s = none) ∨
      ∃ q rest, literal text lit p = .ok (some q) ∧ Json.literal lit s = some rest ∧
        Points text q rest := by
  unfold Cursor.literal
  by_cases hlen : text.length - p < lit.length
  · refine Or.inl ⟨if_pos hlen, ?_⟩
    have hnot : ¬ lit <+: s := fun hp => by
      have := hp.length_le
      have := h.length_eq
      omega
    rw [Json.literal, if_neg hnot]
  · rw [if_neg hlen, h.compare (by rw [h.length_eq]; omega), ok_bind]
    by_cases hp : lit <+: s
    · obtain ⟨rest, rfl⟩ := hp
      refine Or.inr ⟨p + lit.length, rest, ?_, literal_eq_some.mpr rfl, h.advance⟩
      rw [if_pos (decide_eq_true (List.prefix_append lit rest))]
      rfl
    · refine Or.inl ⟨?_, by rw [Json.literal, if_neg hp]⟩
      rw [if_neg (by simp [hp])]
      rfl

/-- Taking one byte when it passes the test. -/
theorem Points.optional (h : Points text p s) (test : Byte → Bool) :
    ∃ b, peek text p test = .ok b ∧ (b = true ↔ (optional test s).1 ≠ []) ∧
      Points text (if b then p + 1 else p) (optional test s).2 := by
  cases s with
  | nil => exact ⟨false, h.peek_nil test, by simp [Foundation.optional], h⟩
  | cons c s =>
      refine ⟨test c, h.peek_cons test, ?_⟩
      rw [Foundation.optional]
      cases test c with
      | true => exact ⟨by simp, h.step⟩
      | false => exact ⟨by simp, h⟩

theorem Points.fraction (h : Points text p s) :
    ∃ q, fraction text p = .ok q ∧
      Points text q (ifTaken (Foundation.optional (· = Ascii.dot)) digits s).2 := by
  obtain ⟨b, hb, htaken, hnext⟩ := h.optional (· = Ascii.dot)
  rw [Cursor.fraction, hb, ok_bind]
  cases b with
  | true =>
      rw [ifTaken_of_ne_nil (htaken.mp rfl)]
      exact hnext.skipDigits
  | false =>
      rw [ifTaken_of_nil (by simpa using htaken)]
      exact ⟨p, rfl, hnext⟩

theorem Points.exponent (h : Points text p s) :
    ∃ q, exponent text p = .ok q ∧
      Points text q (ifTaken (Foundation.optional isExpLetter)
        (andThen (Foundation.optional isSign) digits) s).2 := by
  obtain ⟨b, hb, htaken, hnext⟩ := h.optional isExpLetter
  rw [Cursor.exponent, hb, ok_bind]
  cases b with
  | true =>
      rw [ifTaken_of_ne_nil (htaken.mp rfl)]
      obtain ⟨b', hb', _, hnext'⟩ := Points.optional hnext isSign
      simp only [if_true] at hb' hnext' ⊢
      rw [hb', ok_bind]
      cases b' with
      | true => exact hnext'.skipDigits
      | false => exact hnext'.skipDigits
  | false =>
      rw [ifTaken_of_nil (by simpa using htaken)]
      exact ⟨p, rfl, hnext⟩

/-- Where the pointer stands behind the scanned text. -/
theorem Points.scanned {start q : Nat} (h : Points text start s)
    (hq : Points text q (scanNumber s).2) :
    slice text start (q - start) = .ok (scanNumber s).1 ∧
      (q = start ↔ (scanNumber s).1 = []) := by
  have happ := scanner_number.append s
  have hlen := congrArg List.length happ
  rw [List.length_append, h.length_eq, hq.length_eq] at hlen
  have hin := h.inside
  have hin' := hq.inside
  refine ⟨?_, ?_⟩
  · rw [slice_ok (by omega), h.drop_eq, Except.ok.injEq]
    calc s.take (q - start) = ((scanNumber s).1 ++ (scanNumber s).2).take (q - start) := by rw [happ]
      _ = (scanNumber s).1 := List.take_left' (by omega)
  · rw [← List.length_eq_zero_iff]
    omega

theorem Points.parseNumber {start : Nat} (h : Points text start (c :: s)) :
    Agrees text (parseNumber text start) (Json.parseNumber (c :: s)) := by
  have hsign : Points text (if c = Ascii.minus then start + 1 else start)
      (Foundation.optional (· = Ascii.minus) (c :: s)).2 := by
    rw [Foundation.optional]
    split_ifs with hc hc' hc'
    · exact h.step
    · exact absurd (decide_eq_true hc) hc'
    · exact absurd (of_decide_eq_true hc') hc
    · exact h
  obtain ⟨q₁, hq₁, hint⟩ := hsign.skipDigits
  obtain ⟨q₂, hq₂, hfrac⟩ := hint.fraction
  obtain ⟨q, hq, hexp⟩ := hfrac.exponent
  obtain ⟨hslice, hempty⟩ := h.scanned (q := q) hexp
  rw [Cursor.parseNumber, h.byteAt, ok_bind, hq₁, ok_bind, hq₂, ok_bind, hq, ok_bind,
    Json.parseNumber]
  by_cases hnil : (scanNumber (c :: s)).1 = []
  · rw [if_pos (hempty.mpr hnil), if_pos hnil]
    exact .error _
  · rw [if_neg fun he => hnil (hempty.mp he), if_neg hnil, hslice, ok_bind]
    cases Binary64.stod (scanNumber (c :: s)).1 with
    | none => exact .error _
    | some d => exact .ok d hexp

theorem agrees_literal (h : Points text p s) (lit : Bytes) (v : Value) :
    Agrees text (do
        match ← literal text lit p with
        | some p => return .ok (v, p)
        | none => return .error "bad literal")
      (match Json.literal lit s with
        | some rest => .ok (v, rest)
        | none => .error "bad literal") := by
  rcases h.literal lit with ⟨hcall, hread⟩ | ⟨q, rest, hcall, hread, hq⟩
  · rw [hcall, hread]
    exact .error _
  · rw [hcall, hread]
    exact .ok v hq

theorem Points.parseScalar (h : Points text p (c :: s)) :
    Agrees text (parseScalar text c p) (Json.parseScalar c (c :: s)) := by
  unfold Cursor.parseScalar Json.parseScalar
  split_ifs with ht hf hn hd
  · exact agrees_literal h (ascii "true") (.bool true)
  · exact agrees_literal h (ascii "false") (.bool false)
  · exact agrees_literal h (ascii "null") .null
  · rcases h.parseNumber.outcome with ⟨e, hx, hy⟩ | ⟨d, q, rest, hx, hy, hq⟩
    · rw [hx, hy]
      exact .error e
    · rw [hx, hy]
      exact .ok _ hq
  · exact .error _

/-! ## Strings -/

/-- Reading digits before the code point so far. -/
theorem Points.hexDigits {h0 h1 h2 h3 : Byte} {rest : Bytes}
    (h : Points text p (h0 :: h1 :: h2 :: h3 :: rest)) :
    hexDigits text 4 p 0 = .ok (hex4 h0 h1 h2 h3) := by
  have hone : ∀ (n p cp : Nat) (c : Byte) (s : Bytes), Points text p (c :: s) →
      Cursor.hexDigits text (n + 1) p cp =
        match hexVal c with
        | none => .ok none
        | some d => Cursor.hexDigits text n (p + 1) (cp * 16 + d) := by
    intro n p cp c s hp
    rw [Cursor.hexDigits, hp.byteAt]
    rfl
  rw [hone _ _ _ _ _ h, hex4]
  cases hexVal h0 with
  | none => rfl
  | some a =>
      simp only [hone _ _ _ _ _ h.step]
      cases hexVal h1 with
      | none => rfl
      | some b =>
          simp only [hone _ _ _ _ _ h.step.step]
          cases hexVal h2 with
          | none => rfl
          | some c =>
              simp only [hone _ _ _ _ _ h.step.step.step]
              cases hexVal h3 with
              | none => rfl
              | some d => simp [Cursor.hexDigits, pure, Except.pure]

theorem six_of_length {s : Bytes} (h : 6 ≤ s.length) :
    ∃ b u l0 l1 l2 l3 rest, s = b :: u :: l0 :: l1 :: l2 :: l3 :: rest := by
  match s, h with
  | b :: u :: l0 :: l1 :: l2 :: l3 :: rest, _ => exact ⟨_, _, _, _, _, _, _, rfl⟩

theorem four_of_length {s : Bytes} (h : 4 ≤ s.length) :
    ∃ h0 h1 h2 h3 rest, s = h0 :: h1 :: h2 :: h3 :: rest := by
  match s, h with
  | h0 :: h1 :: h2 :: h3 :: rest, _ => exact ⟨_, _, _, _, _, rfl⟩

theorem Points.surrogatePair (h : Points text p s) (cp : Nat) :
    surrogatePair text cp p = .ok (match lowSurrogate s with
      | none => .error "bad low surrogate"
      | some (some lo) => .ok (utf8 (0x10000 + (cp - 0xD800) * 0x400 + (lo - 0xDC00)), p + 6)
      | some none => .ok (utf8 cp, p)) := by
  unfold Cursor.surrogatePair
  by_cases hlen : text.length - p < 6
  · have hshort : lowSurrogate s = some none := by
      rw [← h.length_eq] at hlen
      match s, hlen with
      | [], _ | [_], _ | [_, _], _ | [_, _, _], _ | [_, _, _, _], _ | [_, _, _, _, _], _ => rfl
    rw [if_pos hlen, hshort]
    rfl
  · rw [if_neg hlen]
    obtain ⟨b, u, l0, l1, l2, l3, rest, rfl⟩ := six_of_length (by rw [h.length_eq]; omega)
    rw [h.byteAt, ok_bind, h.step.byteAt]
    simp only [ok_bind, h.step.step.hexDigits, lowSurrogate]
    by_cases hb : b = Ascii.backslash
    · by_cases hu : u = Ascii.letter 'u'
      · simp only [hb, hu, ne_eq, not_true_eq_false, if_false, and_self, if_true]
        cases hex4 l0 l1 l2 l3 with
        | none => rfl
        | some lo =>
            simp only
            split_ifs <;> rfl
      · simp only [hb, hu, ne_eq, not_true_eq_false, not_false_eq_true, if_false, and_false, if_true]
        rfl
    · simp only [hb, ne_eq, not_false_eq_true, if_true, false_and, if_false]
      rfl

theorem Points.escape {e : Byte} {rest : Bytes} (h : Points text p rest) :
    escape text e p = .ok (match escapeAt (e :: rest) with
      | .error err => .error err
      | .ok (bs, n) => .ok (bs, p + (n - 1))) := by
  rw [Cursor.escape, escapeAt.eq_def]
  simp only
  cases simpleEscape e with
  | some b => rfl
  | none =>
      simp only
      by_cases hu : e = Ascii.letter 'u'
      · simp only [if_pos hu]
        by_cases hlen : text.length - p < 4
        · rw [if_pos hlen]
          rw [← h.length_eq] at hlen
          rcases rest with _ | ⟨h0, _ | ⟨h1, _ | ⟨h2, _ | ⟨h3, rest⟩⟩⟩⟩
          iterate 4 rfl
          rw [List.length_cons, List.length_cons, List.length_cons, List.length_cons] at hlen
          omega
        · rw [if_neg hlen]
          obtain ⟨h0, h1, h2, h3, rest, rfl⟩ := four_of_length (by rw [h.length_eq]; omega)
          rw [h.hexDigits]
          simp only [ok_bind]
          cases hex4 h0 h1 h2 h3 with
          | none => rfl
          | some cp =>
              simp only
              split_ifs with hhigh
              · rw [(h.step.step.step.step).surrogatePair cp]
                cases lowSurrogate rest with
                | none => rfl
                | some lo => cases lo <;> rfl
              · rfl
      · simp only [if_neg hu]
        rfl

theorem Points.forward (h : Points text p s) {n : Nat} (hn : n ≤ s.length) :
    Points text (p + n) (s.drop n) := by
  have := h.length_eq
  have := h.inside
  refine ⟨by omega, ?_⟩
  rw [← h.drop_eq, List.drop_drop]

theorem escapeAt_length {s bs : Bytes} {n : Nat} (h : escapeAt s = .ok (bs, n)) :
    1 ≤ n ∧ n ≤ s.length := by
  obtain ⟨e, c, hs, hn, _⟩ := (readsEscape_of_escapeAt h).text
  have hlen := congrArg List.length hs
  rw [List.length_append, hn] at hlen
  rw [List.length_cons] at hn
  omega

theorem Points.stringLoop (h : Points text p s) (out : Bytes) {fuel : Nat} (hf : s.length < fuel) :
    Agrees text (stringLoop text fuel p out) (stringBody 0 s out) := by
  induction fuel generalizing p s out with
  | zero => exact absurd hf (Nat.not_lt_zero _)
  | succ fuel ih =>
      rw [Cursor.stringLoop]
      cases s with
      | nil =>
          rw [if_neg h.not_lt]
          exact .error _
      | cons c s =>
          rw [List.length_cons] at hf
          rw [if_pos h.lt, h.byteAt, ok_bind, stringBody]
          by_cases hq : c = Ascii.quote
          · rw [if_pos hq, if_pos hq]
            exact .ok out h.step
          · rw [if_neg hq, if_neg hq]
            by_cases hb : c = Ascii.backslash
            · rw [if_pos hb, if_pos hb]
              cases s with
              | nil =>
                  rw [if_neg h.step.not_lt]
                  exact .error _
              | cons e rest =>
                  rw [if_pos h.step.lt, h.step.byteAt, ok_bind, h.step.step.escape, ok_bind]
                  cases hesc : escapeAt (e :: rest) with
                  | error err => exact .error err
                  | ok r =>
                      obtain ⟨bs, n⟩ := r
                      obtain ⟨hpos, hn⟩ := escapeAt_length hesc
                      have hnext := h.step.forward hn
                      rw [show p + 1 + n = p + 2 + (n - 1) by omega] at hnext
                      simp only [stringBody_skip hn]
                      refine ih hnext (out ++ bs) ?_
                      rw [List.length_drop]
                      omega
            · rw [if_neg hb, if_neg hb]
              exact ih h.step (out ++ [c]) (by omega)

theorem Points.parseString (h : Points text p s) :
    Agrees text (parseString text p) (Json.parseString s) := by
  unfold Cursor.parseString
  cases s with
  | nil =>
      rw [h.peek_nil]
      exact .error _
  | cons c s =>
      rw [h.peek_cons, ok_bind, Json.parseString]
      by_cases hq : c = Ascii.quote
      · rw [if_pos hq, if_pos (decide_eq_true hq)]
        refine h.step.stringLoop [] ?_
        have := h.step.length_eq
        omega
      · rw [if_neg hq, if_neg (by simpa using hq)]
        exact .error _

/-! ## Values -/

theorem Points.peek_head (h : Points text p s) (b : Byte) :
    peek text p (· = b) = .ok (decide (s.head? = some b)) := by
  cases s with
  | nil => rw [h.peek_nil]; rfl
  | cons c s => simp [h.peek_cons]

theorem Points.peek_tail (h : Points text p s) {b : Byte} (hb : s.head? = some b) :
    Points text (p + 1) s.tail := by
  obtain ⟨t, rfl⟩ := List.head?_eq_some_iff.mp hb
  exact h.step

/-- Behind an element: the pointer tells a comma and a closing bracket apart as the reader does. -/
theorem Points.next {r : Bytes} (h : Points text p r) (closing : Byte) :
    ∃ q, Cursor.skipWs text p = .ok q ∧
      match nextAfter closing r with
      | .more rest => peek text q (· = Ascii.comma) = .ok true ∧ Points text (q + 1) rest ∧
          rest.length < r.length
      | .close rest => peek text q (· = Ascii.comma) = .ok false ∧
          peek text q (· = closing) = .ok true ∧ Points text (q + 1) rest
      | .other => peek text q (· = Ascii.comma) = .ok false ∧
          peek text q (· = closing) = .ok false := by
  obtain ⟨q, hq, hp⟩ := h.skipWs
  refine ⟨q, hq, ?_⟩
  rw [nextAfter]
  cases hs : Json.skipWs r with
  | nil =>
      rw [hs] at hp
      exact ⟨hp.peek_nil _, hp.peek_nil _⟩
  | cons c rest =>
      rw [hs] at hp
      have hlt := lt_of_skipWs hs
      simp only [hp.peek_cons, Except.ok.injEq]
      by_cases hcomma : c = Ascii.comma
      · simp only [if_pos hcomma]
        exact ⟨decide_eq_true hcomma, hp.step, hlt⟩
      · by_cases hclose : c = closing
        · simp only [if_neg hcomma, if_pos hclose]
          exact ⟨decide_eq_false hcomma, decide_eq_true hclose, hp.step⟩
        · simp only [if_neg hcomma, if_neg hclose]
          exact ⟨decide_eq_false hcomma, decide_eq_false hclose⟩

variable (text) in
/-- The function a mode of the reader stands for. -/
def call (fuel : Nat) : Mode → Nat → Except Halt (Outcome Value)
  | .value, p => parseValue text fuel p
  | .members o, p => parseMembers text fuel o p
  | .items a, p => parseItems text fuel a p

section Descent

variable {n m : Nat}
  (ih : ∀ {m : Nat} {k : Mode} {p : Nat} {s : Bytes}, Points text p s → need k s < n →
    need k s < m → Agrees text (call text n k p) (run m k s))

include ih in
theorem Points.parseValue (h : Points text p s) (hn : need .value s < n + 1)
    (hm : need .value s < m + 1) :
    Agrees text (parseValue text (n + 1) p) (Json.parseValue (m + 1) s) := by
  simp only [need] at hn hm
  obtain ⟨q, hq, hpoint⟩ := h.skipWs
  rw [Cursor.parseValue, Json.parseValue, hq, ok_bind]
  cases hs : Json.skipWs s with
  | nil =>
      rw [hs] at hpoint
      rw [if_neg hpoint.not_lt]
      exact .error _
  | cons c t =>
      rw [hs] at hpoint
      have hlt := lt_of_skipWs hs
      have hle := length_skipWs_le t
      obtain ⟨q', hq', hpoint'⟩ := hpoint.step.skipWs
      rw [if_pos hpoint.lt, hpoint.byteAt, ok_bind]
      simp only
      split_ifs with hquote hbrace hstop hbracket hstop
      · rcases hpoint.parseString.outcome with ⟨e, hx, hy⟩ | ⟨str, r, rest, hx, hy, hr⟩
        · rw [hx, hy]
          exact .error e
        · rw [hx, hy]
          exact .ok _ hr
      · rw [hq', ok_bind, hpoint'.peek_head, ok_bind, if_pos (decide_eq_true hstop)]
        exact .ok _ (hpoint'.peek_tail hstop)
      · rw [hq', ok_bind, hpoint'.peek_head, ok_bind, if_neg (by simpa using hstop)]
        exact ih (k := .members []) hpoint' (by simp only [need]; omega) (by simp only [need]; omega)
      · rw [hq', ok_bind, hpoint'.peek_head, ok_bind, if_pos (decide_eq_true hstop)]
        exact .ok _ (hpoint'.peek_tail hstop)
      · rw [hq', ok_bind, hpoint'.peek_head, ok_bind, if_neg (by simpa using hstop)]
        exact ih (k := .items []) hpoint' (by simp only [need]; omega) (by simp only [need]; omega)
      · exact hpoint.parseScalar

include ih in
theorem Points.parseMembers (h : Points text p s) (o : Object) (hn : need (.members o) s < n + 1)
    (hm : need (.members o) s < m + 1) :
    Agrees text (parseMembers text (n + 1) o p) (Json.parseMembers (m + 1) o s) := by
  simp only [need] at hn hm
  obtain ⟨q₁, hq₁, hp₁⟩ := h.skipWs
  have hws := length_skipWs_le s
  rw [Cursor.parseMembers, Json.parseMembers, hq₁, ok_bind]
  rcases hp₁.parseString.outcome with ⟨e, hx, hy⟩ | ⟨key, q₂, r₂, hx, hy, hp₂⟩
  · rw [hx, hy]
    exact .error e
  obtain ⟨t, ht, hkey⟩ := parseString_ok_iff.mp hy
  have hlen₂ := hkey.shorter
  obtain ⟨q₃, hq₃, hp₃⟩ := hp₂.skipWs
  rw [hx, hy, ok_bind]
  simp only [hq₃, ok_bind]
  cases hs : Json.skipWs r₂ with
  | nil =>
      rw [hs] at hp₃
      rw [hp₃.peek_nil]
      exact .error _
  | cons c r₃ =>
      rw [hs] at hp₃
      have hlen₃ := lt_of_skipWs hs
      have hlen := congrArg List.length ht
      rw [List.length_cons] at hlen
      rw [hp₃.peek_cons, ok_bind]
      simp only [decide_eq_true_eq]
      by_cases hc : c = Ascii.colon
      · rw [if_pos hc, if_pos hc]
        have hvalue := ih (m := m) (k := .value) hp₃.step (by simp only [need]; omega)
          (by simp only [need]; omega)
        rcases hvalue.outcome with ⟨e, hx', hy'⟩ | ⟨v, q₄, r₄, hx', hy', hp₄⟩
        · rw [call] at hx'
          rw [run] at hy'
          rw [hx', hy']
          exact .error e
        · have hlen₄ := (reads_of_run hy').shorter
          rw [call] at hx'
          rw [run] at hy'
          obtain ⟨q₅, hq₅, hnext⟩ := hp₄.next Ascii.rbrace
          rw [hx', hy', ok_bind]
          simp only [hq₅, ok_bind]
          cases heq : nextAfter Ascii.rbrace r₄ <;> simp only [heq] at hnext
          · obtain ⟨hcomma, hp₅, hlen₅⟩ := hnext
            rw [hcomma, ok_bind]
            exact ih (k := .members (emplace o key v)) hp₅ (by simp only [need]; omega)
              (by simp only [need]; omega)
          · obtain ⟨hcomma, hclose, hp₅⟩ := hnext
            rw [hcomma, ok_bind, hclose]
            exact .ok _ hp₅
          · obtain ⟨hcomma, hclose⟩ := hnext
            rw [hcomma, ok_bind, hclose]
            exact .error _
      · rw [if_neg hc, if_neg hc]
        exact .error _

include ih in
theorem Points.parseItems (h : Points text p s) (a : List Value) (hn : need (.items a) s < n + 1)
    (hm : need (.items a) s < m + 1) :
    Agrees text (parseItems text (n + 1) a p) (Json.parseItems (m + 1) a s) := by
  simp only [need] at hn hm
  rw [Cursor.parseItems, Json.parseItems]
  have hvalue := ih (m := m) (k := .value) h (by simp only [need]; omega) (by simp only [need]; omega)
  rcases hvalue.outcome with ⟨e, hx, hy⟩ | ⟨v, q, r, hx, hy, hp⟩
  · rw [call] at hx
    rw [run] at hy
    rw [hx, hy]
    exact .error e
  · have hlen := (reads_of_run hy).shorter
    rw [call] at hx
    rw [run] at hy
    obtain ⟨q', hq', hnext⟩ := hp.next Ascii.rbracket
    rw [hx, hy, ok_bind]
    simp only [hq', ok_bind]
    cases heq : nextAfter Ascii.rbracket r <;> simp only [heq] at hnext
    · obtain ⟨hcomma, hp', hlen'⟩ := hnext
      rw [hcomma, ok_bind]
      exact ih (k := .items (a ++ [v])) hp' (by simp only [need]; omega)
        (by simp only [need]; omega)
    · obtain ⟨hcomma, hclose, hp'⟩ := hnext
      rw [hcomma, ok_bind, hclose]
      exact .ok _ hp'
    · obtain ⟨hcomma, hclose⟩ := hnext
      rw [hcomma, ok_bind, hclose]
      exact .error _

end Descent

/-- With enough fuel on either side the pointer finds what the reader finds. -/
theorem Points.run {n m : Nat} {k : Mode} {p : Nat} {s : Bytes} (h : Points text p s)
    (hn : need k s < n) (hm : need k s < m) : Agrees text (call text n k p) (Json.run m k s) := by
  induction n generalizing m k p s with
  | zero => exact absurd hn (Nat.not_lt_zero _)
  | succ n ih =>
      obtain ⟨m, rfl⟩ := Nat.exists_eq_succ_of_ne_zero (Nat.ne_of_gt (Nat.zero_lt_of_lt hm))
      cases k with
      | value => exact Points.parseValue ih h hn hm
      | members o => exact Points.parseMembers ih h o hn hm
      | items a => exact Points.parseItems ih h a hn hm

/-- Whatever the text and however much fuel there is beyond the bound, `parse` comes back, reads
no byte behind the end and returns what the reader returns. -/
theorem parse_returns (text : Bytes) {fuel : Nat} (hf : 2 * text.length < fuel) :
    parse text fuel = .ok (Json.parse text) := by
  have hstart : Points text 0 text := ⟨Nat.zero_le _, rfl⟩
  obtain ⟨q, hq, hp⟩ := hstart.skipWs
  have hle := length_skipWs_le text
  have hrun := hp.run (n := fuel) (m := 2 * text.length + 2) (k := .value)
    (by simp only [need]; omega) (by simp only [need]; omega)
  rw [call, Json.run] at hrun
  rw [parse, hq, ok_bind, Json.parse]
  rcases hrun.outcome with ⟨e, hx, hy⟩ | ⟨v, r, rest, hx, hy, hr⟩
  · rw [hx, hy]
    rfl
  · obtain ⟨q', hq', hp'⟩ := hr.skipWs
    rw [hx, hy, ok_bind]
    simp only [hq', ok_bind]
    cases hs : Json.skipWs rest with
    | nil =>
        rw [hs] at hp'
        rw [if_neg hp'.not_lt, if_pos rfl]
        rfl
    | cons c t =>
        rw [hs] at hp'
        rw [if_pos hp'.lt, if_neg (List.cons_ne_nil _ _)]
        rfl

end OpenBambu.Json.Cursor

namespace OpenBambu.Json

open OpenBambu.Foundation

/-- The value of a text of the grammar all of whose numbers are in its form and fit a double. -/
def Denotes (text : Bytes) (v : Value) : Prop :=
  ∃ tree, JsonText text tree ∧ tree.value Numeral.denoted = some v

/-- What `parse` is to do on a text: come back without a read behind its end, however much fuel
there is beyond some bound, and accept exactly what the text denotes. -/
def ParseLaw (text : Bytes) : Prop :=
  (∃ bound, ∀ fuel, bound ≤ fuel → Cursor.parse text fuel = .ok (parse text)) ∧
    ∀ v, parse text = .ok v ↔ Denotes text v

/-- In a text that is JSON up to the form of its numbers, `std::stod` converts all of them just
when all are in the grammar's form and fit a double. -/
def NumbersConvert (text : Bytes) : Prop :=
  ∀ tree, JsonText text tree →
    ((∀ n ∈ tree.numerals, n.digits ≠ [] ∧ n.double.isSome = true ∧ ¬ n.Underflows) ↔
      ∀ n ∈ tree.numerals, n.Rfc ∧ n.double.isSome = true)

theorem converts_iff (tree : Tree) :
    (∀ n ∈ tree.numerals, n.digits ≠ [] ∧ n.double.isSome = true ∧ ¬ n.Underflows) ↔
      (tree.value Numeral.stod).isSome = true := by
  rw [Tree.value_isSome]
  exact forall₂_congr fun n _ => n.stod_isSome.symm

theorem denotes_iff (tree : Tree) :
    (∀ n ∈ tree.numerals, n.Rfc ∧ n.double.isSome = true) ↔
      (tree.value Numeral.denoted).isSome = true := by
  rw [Tree.value_isSome]
  exact forall₂_congr fun n _ => n.denoted_isSome.symm

/-- A tree that has both values has one. -/
theorem Tree.value_agree {tree : Tree} (hs : (tree.value Numeral.stod).isSome = true)
    (hd : (tree.value Numeral.denoted).isSome = true) :
    tree.value Numeral.stod = tree.value Numeral.denoted := by
  rw [Tree.value_isSome] at hs hd
  refine Tree.value_congr tree fun n hn => ?_
  obtain ⟨x, hx⟩ := Option.isSome_iff_exists.mp (hs n hn)
  obtain ⟨y, hy⟩ := Option.isSome_iff_exists.mp (hd n hn)
  exact Numeral.stod_eq_denoted hx hy

/-- `parse` keeps its law on exactly the texts whose numbers convert as the grammar has them. -/
theorem parseLaw_iff (text : Bytes) : ParseLaw text ↔ NumbersConvert text := by
  have hback : ∃ bound, ∀ fuel, bound ≤ fuel → Cursor.parse text fuel = .ok (parse text) :=
    ⟨2 * text.length + 1, fun fuel hf => Cursor.parse_returns text hf⟩
  constructor
  · rintro ⟨_, hlaw⟩ tree htext
    rw [converts_iff, denotes_iff, Option.isSome_iff_exists, Option.isSome_iff_exists]
    constructor
    · rintro ⟨v, hv⟩
      obtain ⟨tree', htext', hv'⟩ := (hlaw v).mp (parse_iff_text.mpr ⟨tree, htext, hv⟩)
      exact ⟨v, htext.unique htext' ▸ hv'⟩
    · rintro ⟨v, hv⟩
      obtain ⟨tree', htext', hv'⟩ := parse_iff_text.mp ((hlaw v).mpr ⟨tree, htext, hv⟩)
      exact ⟨v, htext.unique htext' ▸ hv'⟩
  · intro hconv
    refine ⟨hback, fun v => ?_⟩
    rw [parse_iff_text, Denotes]
    refine exists_congr fun tree => and_congr_right fun htext => ?_
    have hboth := hconv tree htext
    rw [converts_iff, denotes_iff] at hboth
    constructor
    · intro hv
      have hs : (tree.value Numeral.stod).isSome = true := by rw [hv, Option.isSome_some]
      rw [← Tree.value_agree hs (hboth.mp hs), hv]
    · intro hv
      have hd : (tree.value Numeral.denoted).isSome = true := by rw [hv, Option.isSome_some]
      rw [Tree.value_agree (hboth.mpr hd) hd, hv]

theorem numeral_digits : (∀ c ∈ ascii "1", isDigit c = true) ∧ (∀ c ∈ ascii "400", isDigit c = true) ∧
    ∀ c ∈ ascii "01", isDigit c = true := by
  decide +kernel

/-- `1e-400`, in the grammar and not accepted. -/
def tinyNumeral : Numeral where
  negative := false
  int := ascii "1"
  frac := none
  exp := some ⟨Ascii.letter 'e', some Ascii.minus, ascii "400", Exponent.lower_ok,
    fun _ h => Or.inr (Option.some.inj h).symm, numeral_digits.2.1⟩
  start := Or.inr (List.cons_ne_nil _ _)
  int_ok := numeral_digits.1
  frac_ok := fun ds h => absurd h.symm (Option.some_ne_none ds)

/-- `01`, accepted and not in the grammar. -/
def paddedNumeral : Numeral where
  negative := false
  int := ascii "01"
  frac := none
  exp := none
  start := Or.inr (List.cons_ne_nil _ _)
  int_ok := numeral_digits.2.2
  frac_ok := fun ds h => absurd h.symm (Option.some_ne_none ds)

theorem jsonText_numeral (n : Numeral) : JsonText n.text (.number n) :=
  ⟨[], n.text, [], by simp [Blank], by simp [Blank], by simp, .number n⟩

/-- The law fails in both directions: on `1e-400` and on `01`. -/
theorem parseLaw_fails : ¬ ParseLaw (ascii "1e-400") ∧ ¬ ParseLaw (ascii "01") := by
  have htiny : tinyNumeral.text = ascii "1e-400" := by decide
  have hpadded : paddedNumeral.text = ascii "01" := by decide
  constructor
  · intro h
    have hden : Denotes (ascii "1e-400") (.number 0) := by
      refine ⟨.number tinyNumeral, htiny ▸ jsonText_numeral _, ?_⟩
      have hzero : tinyNumeral.denoted = some 0 := by decide +kernel
      rw [Tree.value, hzero, Option.map_some]
    obtain ⟨tree, htext, hv⟩ := parse_iff_text.mp ((h.2 _).mpr hden)
    have hnone : tinyNumeral.stod = none := by decide +kernel
    obtain rfl := htext.unique (htiny ▸ jsonText_numeral tinyNumeral)
    rw [Tree.value, hnone] at hv
    exact absurd hv (by simp)
  · intro h
    have hone : paddedNumeral.stod = some 1 := by decide +kernel
    have hparse : parse (ascii "01") = .ok (.number 1) :=
      parse_iff_text.mpr ⟨.number paddedNumeral, hpadded ▸ jsonText_numeral _, by
        rw [Tree.value, hone, Option.map_some]⟩
    obtain ⟨tree, htext, hv⟩ := (h.2 _).mp hparse
    have hnone : paddedNumeral.denoted = none := by decide +kernel
    obtain rfl := htext.unique (hpadded ▸ jsonText_numeral paddedNumeral)
    rw [Tree.value, hnone] at hv
    exact absurd hv (by simp)

end OpenBambu.Json
