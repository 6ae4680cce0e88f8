import OpenBambu.Json.Value

/-!
# The parser of `json_lite`

The functions of `Parser` return what they parsed and the bytes behind it, or the
reason they write to `err`. `parse_value` recurses through arrays and objects; its
fuel bounds the nesting and the elements it may still read, and that of `parse` is
always enough (`run_complete` in `OpenBambu.Json.Grammar`).
-/

namespace OpenBambu.Json

open OpenBambu.Foundation

abbrev Result (α : Type) := Except String (α × Bytes)

def isWs (b : Byte) : Bool :=
  b = Ascii.sp || b = Ascii.tab || b = Ascii.lf || b = Ascii.cr

def skipWs (s : Bytes) : Bytes := s.dropWhile isWs

/-- The text behind a literal, when it is there. -/
def literal (lit s : Bytes) : Option Bytes :=
  if lit <+: s then some (s.drop lit.length) else none

def hexVal (h : Byte) : Option Nat :=
  if 0x30 ≤ h ∧ h ≤ 0x39 then some (h.toNat - 0x30)
  else if 0x61 ≤ h ∧ h ≤ 0x66 then some (h.toNat - 0x61 + 10)
  else if 0x41 ≤ h ∧ h ≤ 0x46 then some (h.toNat - 0x41 + 10)
  else none

/-- Four hex digits of a `\u` escape. -/
def hex4 (h0 h1 h2 h3 : Byte) : Option Nat := do
  let a ← hexVal h0
  let b ← hexVal h1
  let c ← hexVal h2
  let d ← hexVal h3
  return ((a * 16 + b) * 16 + c) * 16 + d

def utf8 (cp : Nat) : Bytes :=
  if cp < 0x80 then [UInt8.ofNat cp]
  else if cp < 0x800 then [UInt8.ofNat (0xC0 + cp / 0x40), UInt8.ofNat (0x80 + cp % 0x40)]
  else if cp < 0x10000 then
    [UInt8.ofNat (0xE0 + cp / 0x1000), UInt8.ofNat (0x80 + cp / 0x40 % 0x40),
      UInt8.ofNat (0x80 + cp % 0x40)]
  else
    [UInt8.ofNat (0xF0 + cp / 0x40000), UInt8.ofNat (0x80 + cp / 0x1000 % 0x40),
      UInt8.ofNat (0x80 + cp / 0x40 % 0x40), UInt8.ofNat (0x80 + cp % 0x40)]

/-- The escapes of one letter. -/
def simpleEscape (e : Byte) : Option Byte :=
  if e = Ascii.quote then some Ascii.quote
  else if e = Ascii.backslash then some Ascii.backslash
  else if e = Ascii.slash then some Ascii.slash
  else if e = Ascii.letter 'b' then some 0x08
  else if e = Ascii.letter 'f' then some 0x0c
  else if e = Ascii.letter 'n' then some Ascii.lf
  else if e = Ascii.letter 'r' then some Ascii.cr
  else if e = Ascii.letter 't' then some Ascii.tab
  else none

/-- The low half of a surrogate pair behind a high half, when one follows. `none` is a
`\u` whose digits are not hexadecimal. -/
def lowSurrogate (s : Bytes) : Option (Option Nat) :=
  match s with
  | b :: u :: l0 :: l1 :: l2 :: l3 :: _ =>
      if b = Ascii.backslash ∧ u = Ascii.letter 'u' then
        match hex4 l0 l1 l2 l3 with
        | none => none
        | some lo => some (if 0xDC00 ≤ lo ∧ lo ≤ 0xDFFF then some lo else none)
      else some none
  | _ => some none

/-- One escape, given what follows its backslash: the bytes it denotes and how many
bytes it takes. -/
def escapeAt : Bytes → Except String (Bytes × Nat)
  | [] => .error "bad escape"
  | e :: rest =>
      match simpleEscape e with
      | some b => .ok ([b], 1)
      | none =>
          if e = Ascii.letter 'u' then
            match rest with
            | h0 :: h1 :: h2 :: h3 :: rest =>
                match hex4 h0 h1 h2 h3 with
                | none => .error "bad hex in \\u"
                | some cp =>
                    if 0xD800 ≤ cp ∧ cp ≤ 0xDBFF then
                      match lowSurrogate rest with
                      | none => .error "bad low surrogate"
                      | some (some lo) =>
                          .ok (utf8 (0x10000 + (cp - 0xD800) * 0x400 + (lo - 0xDC00)), 11)
                      | some none => .ok (utf8 cp, 5)
                    else .ok (utf8 cp, 5)
            | _ => .error "bad \\u escape"
          else .error "bad escape char"

/-- The loop of `parse_string` behind the opening quote. `skip` counts the bytes of an
escape that has been read already. -/
def stringBody : Nat → Bytes → Bytes → Result Bytes
  | _, [], _ => .error "unterminated string"
  | skip + 1, _ :: rest, out => stringBody skip rest out
  | 0, c :: rest, out =>
      if c = Ascii.quote then .ok (out, rest)
      else if c = Ascii.backslash then
        match escapeAt rest with
        | .error e => .error e
        | .ok (bs, n) => stringBody n rest (out ++ bs)
      else stringBody 0 rest (out ++ [c])

def parseString : Bytes → Result Bytes
  | [] => .error "expected string"
  | c :: rest => if c = Ascii.quote then stringBody 0 rest [] else .error "expected string"

/-- The text `parse_number` hands to `std::stod`, and what is behind it: an optional minus,
digits, a point with digits, an exponent letter with sign and digits. Any of the digit
runs may be empty. -/
def scanNumber : Bytes → Bytes × Bytes :=
  andThen (optional (· = Ascii.minus))
    (andThen digits
      (andThen (ifTaken (optional (· = Ascii.dot)) digits)
        (ifTaken (optional fun c => c = Ascii.letter 'e' || c = Ascii.letter 'E')
          (andThen (optional fun c => c = Ascii.plus || c = Ascii.minus) digits))))

def parseNumber (s : Bytes) : Result Double :=
  if (scanNumber s).1 = [] then .error "bad number"
  else
    match Binary64.stod (scanNumber s).1 with
    | none => .error "number range"
    | some d => .ok (d, (scanNumber s).2)

/-- What closes an array or object, or goes on with its next element. -/
inductive Next where
  | more (rest : Bytes)
  | close (rest : Bytes)
  | other

def nextAfter (closing : Byte) (s : Bytes) : Next :=
  match skipWs s with
  | [] => .other
  | c :: rest => if c = Ascii.comma then .more rest else if c = closing then .close rest else .other

/-- `parse_value` on a text that starts with none of the bracketed kinds or a string. -/
def parseScalar (c : Byte) (s : Bytes) : Result Value :=
  if c = Ascii.letter 't' then
    match literal (ascii "true") s with
    | some rest => .ok (.bool true, rest)
    | none => .error "bad literal"
  else if c = Ascii.letter 'f' then
    match literal (ascii "false") s with
    | some rest => .ok (.bool false, rest)
    | none => .error "bad literal"
  else if c = Ascii.letter 'n' then
    match literal (ascii "null") s with
    | some rest => .ok (.null, rest)
    | none => .error "bad literal"
  else if c = Ascii.minus ∨ isDigit c then
    match parseNumber s with
    | .error e => .error e
    | .ok (d, rest) => .ok (.number d, rest)
  else .error "unexpected character"

mutual

def parseValue : Nat → Bytes → Result Value
  | 0, _ => .error "out of fuel"
  | fuel + 1, s =>
      match skipWs s with
      | [] => .error "unexpected EOF"
      | c :: rest =>
          if c = Ascii.quote then
            match parseString (c :: rest) with
            | .error e => .error e
            | .ok (str, rest) => .ok (.string str, rest)
          else if c = Ascii.lbrace then
            if (skipWs rest).head? = some Ascii.rbrace then .ok (.object [], (skipWs rest).tail)
            else parseMembers fuel [] (skipWs rest)
          else if c = Ascii.lbracket then
            if (skipWs rest).head? = some Ascii.rbracket then .ok (.array [], (skipWs rest).tail)
            else parseItems fuel [] (skipWs rest)
          else parseScalar c (c :: rest)

/-- The member loop, with the object read so far. -/
def parseMembers : Nat → Object → Bytes → Result Value
  | 0, _, _ => .error "out of fuel"
  | fuel + 1, obj, s =>
      match parseString (skipWs s) with
      | .error e => .error e
      | .ok (key, rest) =>
          match skipWs rest with
          | [] => .error "expected ':'"
          | c :: rest =>
              if c = Ascii.colon then
                match parseValue fuel rest with
                | .error e => .error e
                | .ok (v, rest) =>
                    match nextAfter Ascii.rbrace rest with
                    | .more rest => parseMembers fuel (emplace obj key v) rest
                    | .close rest => .ok (.object (emplace obj key v), rest)
                    | .other => .error "expected ',' or '\x7d'"
              else .error "expected ':'"

/-- The element loop, with the array read so far. -/
def parseItems : Nat → List Value → Bytes → Result Value
  | 0, _, _ => .error "out of fuel"
  | fuel + 1, arr, s =>
      match parseValue fuel s with
      | .error e => .error e
      | .ok (v, rest) =>
          match nextAfter Ascii.rbracket rest with
          | .more rest => parseItems fuel (arr ++ [v]) rest
          | .close rest => .ok (.array (arr ++ [v]), rest)
          | .other => .error "expected ',' or ']'"

end

/-- `obn::json::parse`: a value with nothing but white space around it. -/
def parse (text : Bytes) : Except String Value :=
  match parseValue (2 * text.length + 2) (skipWs text) with
  | .error e => .error e
  | .ok (v, rest) => if skipWs rest = [] then .ok v else .error "trailing characters"

end OpenBambu.Json
