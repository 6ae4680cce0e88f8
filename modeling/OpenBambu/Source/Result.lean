import OpenBambu.Json.Written
import OpenBambu.Source.Worker
import OpenBambu.Tunnel.WireResult

/-!
# The two result codes of a reply

The CTRL worker cuts a reply at the first empty line, `split_json_prefix` behind the closing brace, and
both read the result of what they have cut off. `\n\n` is where both cut. Behind `\r\n\r\n` there is no
empty line for the worker, so it goes on into the blob.
-/

namespace OpenBambu.Source

open OpenBambu.Foundation OpenBambu.Json OpenBambu.Tunnel

/-- The separators of `split_json_prefix`. -/
inductive Separator where
  | lf
  | crlf
  deriving DecidableEq

def Separator.text : Separator → Bytes
  | .lf => [Ascii.lf, Ascii.lf]
  | .crlf => [Ascii.cr, Ascii.lf, Ascii.cr, Ascii.lf]

/-- What follows the JSON text: nothing, or a separator and a blob. -/
def behind : Option (Separator × Bytes) → Bytes
  | none => []
  | some (sep, bin) => sep.text ++ bin

/-- The JSON text of an object: what `dump` writes, and what the parser accepts from brace to brace. -/
inductive ObjectJson : Bytes → Prop
  | dumped (o : Object) : ObjectJson (Value.object o).dump
  | accepted {json : Bytes} {o : Object} (parses : parse json = .ok (.object o))
      (starts : json.head? = some Ascii.lbrace) (ends : json.getLast? = some Ascii.rbrace) :
      ObjectJson json

/-- The two codes of a payload are the same. -/
def ResultsAgree (wire : Bytes) : Prop :=
  ∃ json bin, splitJsonPrefix wire = some (json, bin) ∧ parseWireResult wire = Tunnel.parseWireResult json

def emptyLine : Bytes := [Ascii.lf, Ascii.lf]

/-- The worker cuts behind the JSON text, up to white space, or the code is -1 whatever follows. -/
def CutsCleanly (json : Bytes) (rest : Option (Separator × Bytes)) : Prop :=
  (findText emptyLine json = none ∧
      ∀ bin, rest = some (.crlf, bin) → ∀ b ∈ wireJson (Separator.crlf.text ++ bin), isWs b = true) ∨
    ∀ x, ResultIs json x → CastsTo x (-1)

/-! ## Texts that go on behind an object -/

/-- A text that starts with braces around balanced text is an object with nothing but white space
behind it, or no JSON at all. -/
theorem parse_behind {c t : Bytes} (hc : Balanced c) (o : Object) :
    parse (Ascii.lbrace :: (c ++ Ascii.rbrace :: t)) = .ok (.object o) ↔
      parse (Ascii.lbrace :: (c ++ [Ascii.rbrace])) = .ok (.object o) ∧ ∀ b ∈ t, isWs b = true := by
  -- both readings stop at the brace the scan finds
  have hread : ∀ {t : Bytes}, parse (Ascii.lbrace :: (c ++ Ascii.rbrace :: t)) = .ok (.object o) →
      ObjectText o c ∧ ∀ b ∈ t, isWs b = true := by
    intro t h
    obtain ⟨w, d, z, htext, hw, hz, hobj⟩ := parse_object h
    cases w with
    | nil =>
        have hsplit := splitJsonPrefix_object hc t
        rw [htext, List.nil_append, splitJsonPrefix_object hobj.balanced, Option.some.injEq,
          Prod.mk.injEq, List.cons.injEq] at hsplit
        obtain rfl := List.append_cancel_right hsplit.1.2
        have hsame := List.append_cancel_left (List.cons.inj htext).2
        rw [(List.cons.inj hsame).2]
        exact ⟨hobj, hz⟩
    | cons b w =>
        obtain rfl := (List.cons.inj htext).1
        exact absurd (hw _ List.mem_cons_self) (by decide)
  have hback : ∀ {t : Bytes}, ObjectText o c → (∀ b ∈ t, isWs b = true) →
      parse (Ascii.lbrace :: (c ++ Ascii.rbrace :: t)) = .ok (.object o) := by
    intro t hobj ht
    exact parse_ok_iff.mpr ⟨t, (hobj.reads t).value_behind (skipWs_skipWs _),
      List.dropWhile_eq_nil_iff.mpr ht⟩
  constructor
  · intro h
    obtain ⟨hobj, ht⟩ := hread h
    exact ⟨hback hobj (by simp), ht⟩
  · rintro ⟨h, ht⟩
    exact hback (hread h).1 ht

theorem resultIs_behind {c t : Bytes} (hc : Balanced c) (x : Double) :
    ResultIs (Ascii.lbrace :: (c ++ Ascii.rbrace :: t)) x ↔
      ResultIs (Ascii.lbrace :: (c ++ [Ascii.rbrace])) x ∧ ∀ b ∈ t, isWs b = true := by
  constructor
  · rintro ⟨o, hp, hl⟩
    obtain ⟨hp, ht⟩ := (parse_behind hc o).mp hp
    exact ⟨⟨o, hp, hl⟩, ht⟩
  · rintro ⟨⟨o, hp, hl⟩, ht⟩
    exact ⟨o, (parse_behind hc o).mpr ⟨hp, ht⟩, hl⟩

/-- The code of a text that goes on behind its object. -/
theorem parseWireResult_behind {c t : Bytes} (hc : Balanced c) :
    ((∀ b ∈ t, isWs b = true) → Tunnel.parseWireResult (Ascii.lbrace :: (c ++ Ascii.rbrace :: t)) =
        Tunnel.parseWireResult (Ascii.lbrace :: (c ++ [Ascii.rbrace]))) ∧
      ((¬ ∀ b ∈ t, isWs b = true) →
        Tunnel.parseWireResult (Ascii.lbrace :: (c ++ Ascii.rbrace :: t)) = -1) := by
  constructor
  · intro ht
    by_cases hnum : ∃ x, ResultIs (Ascii.lbrace :: (c ++ [Ascii.rbrace])) x
    · obtain ⟨x, hx⟩ := hnum
      rw [parseWireResult_number hx, parseWireResult_number ((resultIs_behind hc x).mpr ⟨hx, ht⟩)]
    · rw [parseWireResult_other fun x hx => hnum ⟨x, hx⟩,
        parseWireResult_other fun x hx => hnum ⟨x, ((resultIs_behind hc x).mp hx).1⟩]
  · intro ht
    exact parseWireResult_other fun x hx => ht ((resultIs_behind hc x).mp hx).2

theorem parseWireResult_eq_minus_one {json : Bytes} :
    Tunnel.parseWireResult json = -1 ↔ ∀ x, ResultIs json x → CastsTo x (-1) := by
  have hcast : ∀ {x : Double}, toInt (Binary64.toInt64 x) = -1 ↔ CastsTo x (-1) :=
    cast_eq_iff (by decide) (by decide) (by decide)
  constructor
  · intro h x hx
    exact hcast.mp ((parseWireResult_number hx).symm.trans h)
  · intro h
    by_cases hnum : ∃ x, ResultIs json x
    · obtain ⟨x, hx⟩ := hnum
      exact (parseWireResult_number hx).trans (hcast.mpr (h x hx))
    · exact parseWireResult_other fun x hx => hnum ⟨x, hx⟩

/-! ## Where the worker cuts -/

theorem parseWireResult_cut (wire : Bytes) :
    parseWireResult wire = Tunnel.parseWireResult (wireJson wire) := rfl

theorem wireJson_cons {c : Byte} {s : Bytes} (h : ¬ startsWith (c :: s) emptyLine = true) :
    wireJson (c :: s) = c :: wireJson s := by
  have hfind : findText emptyLine (c :: s) = (findText emptyLine s).map fun p => (c :: p.1, p.2) := by
    rw [findText, if_neg h]
  rw [emptyLine] at hfind
  rw [wireJson, wireJson, hfind]
  cases findText [Ascii.lf, Ascii.lf] s with
  | none => rfl
  | some p => rfl

/-- Behind a text without an empty line. -/
theorem wireJson_behind {j : Bytes} (h : findText emptyLine j = none) (hlast : j.getLast? ≠ some Ascii.lf)
    (s : Bytes) : wireJson (j ++ s) = j ++ wireJson s := by
  induction j with
  | nil => rfl
  | cons c j ih =>
      rw [findText] at h
      split_ifs at h with hs
      have hstart : ¬ startsWith (c :: (j ++ s)) emptyLine = true := by
        rw [startsWith_iff]
        rintro ⟨u, hu⟩
        obtain ⟨rfl, htail⟩ := List.cons.inj hu
        cases j with
        | nil => exact hlast rfl
        | cons d j =>
            obtain rfl : Ascii.lf = d := (List.cons.inj htail).1
            exact hs (startsWith_append emptyLine j)
      have hlast' : j.getLast? ≠ some Ascii.lf := by
        cases j with
        | nil => simp
        | cons d j => rwa [List.getLast?_cons_cons] at hlast
      rw [List.cons_append, wireJson_cons hstart, ih (Option.map_eq_none_iff.mp h) hlast']
      rfl

theorem wireJson_lf (bin : Bytes) : wireJson (Separator.lf.text ++ bin) = [] := by
  have hstart : startsWith (Ascii.lf :: ([Ascii.lf] ++ bin)) [Ascii.lf, Ascii.lf] = true :=
    startsWith_append [Ascii.lf, Ascii.lf] bin
  rw [wireJson, Separator.text, List.cons_append, findText, if_pos hstart]

/-- An empty line inside the text ends it there, whatever follows. -/
theorem wireJson_inside {j before s : Bytes} (h : findText emptyLine j = some (before, s)) (u : Bytes) :
    wireJson (j ++ u) = before ∧ before <+: j ∧ before.length < j.length := by
  have hj := findText_append h
  have hu := findText_behind h u
  rw [emptyLine] at hu
  refine ⟨by rw [wireJson, hu], ⟨emptyLine ++ s, hj.symm⟩, ?_⟩
  rw [hj, List.length_append, List.length_append, emptyLine, List.length_cons]
  omega

theorem ObjectJson.braces {json : Bytes} (h : ObjectJson json) :
    ∃ c, json = Ascii.lbrace :: (c ++ [Ascii.rbrace]) ∧ Balanced c := by
  cases h with
  | dumped o => exact dump_object o
  | @accepted json o parses starts ends =>
      obtain ⟨w, c, z, rfl, hw, hz, hobj⟩ := parse_object parses
      obtain rfl : w = [] := by
        cases w with
        | nil => rfl
        | cons b w =>
            obtain rfl := Option.some.inj starts
            exact absurd (hw _ List.mem_cons_self) (by decide)
      obtain rfl : z = [] := by
        by_contra hne
        have hlast : z.getLast? = some Ascii.rbrace := by
          have hsplit : Ascii.lbrace :: (c ++ Ascii.rbrace :: z) = Ascii.lbrace :: (c ++ [Ascii.rbrace]) ++ z := by
            simp
          rw [List.nil_append, hsplit, List.getLast?_append_of_ne_nil _ hne] at ends
          exact ends
        exact absurd (hz _ (List.mem_of_getLast? hlast)) (by decide)
      exact ⟨c, rfl, hobj.balanced⟩

/-- A part of an object text that stops before its last brace is no object. -/
theorem parseWireResult_inside {c before : Bytes} (hc : Balanced c)
    (hpre : before <+: Ascii.lbrace :: (c ++ [Ascii.rbrace]))
    (hlen : before.length < (Ascii.lbrace :: (c ++ [Ascii.rbrace])).length) :
    Tunnel.parseWireResult before = -1 := by
  have hcut : splitJsonPrefix before = none := by
    rw [List.prefix_iff_eq_take.mp hpre]
    apply splitJsonPrefix_cut hc
    rw [List.length_cons, List.length_append, List.length_singleton] at hlen
    omega
  refine parseWireResult_other fun x hx => ?_
  obtain ⟨o, hp, -⟩ := hx
  obtain ⟨w, d, z, rfl, hw, -, hobj⟩ := parse_object hp
  cases w with
  | nil =>
      rw [List.nil_append, splitJsonPrefix_object hobj.balanced] at hcut
      exact absurd hcut (by simp)
  | cons b w =>
      obtain ⟨u, hu⟩ := hpre
      obtain rfl := (List.cons.inj hu).1
      exact absurd (hw _ List.mem_cons_self) (by decide)

/-- The two codes of a reply agree exactly where the worker finds the end of the JSON text, or the
result reads as -1 anyway. -/
theorem results_agree_iff {json : Bytes} (h : ObjectJson json) (rest : Option (Separator × Bytes)) :
    ResultsAgree (json ++ behind rest) ↔ CutsCleanly json rest := by
  obtain ⟨c, rfl, hc⟩ := h.braces
  have happend : ∀ t, Ascii.lbrace :: (c ++ [Ascii.rbrace]) ++ t =
      Ascii.lbrace :: (c ++ Ascii.rbrace :: t) := by
    intro t
    simp
  have hagree : ResultsAgree (Ascii.lbrace :: (c ++ [Ascii.rbrace]) ++ behind rest) ↔
      Tunnel.parseWireResult (wireJson (Ascii.lbrace :: (c ++ [Ascii.rbrace]) ++ behind rest)) =
        Tunnel.parseWireResult (Ascii.lbrace :: (c ++ [Ascii.rbrace])) := by
    rw [← parseWireResult_cut]
    have hsplit := splitJsonPrefix_object hc (behind rest)
    rw [← happend] at hsplit
    constructor
    · rintro ⟨json, bin, hjson, h⟩
      obtain ⟨rfl, -⟩ := Prod.mk.inj (Option.some.inj (hsplit.symm.trans hjson))
      exact h
    · exact fun h => ⟨_, _, hsplit, h⟩
  rw [hagree, CutsCleanly, ← parseWireResult_eq_minus_one]
  cases hline : findText emptyLine (Ascii.lbrace :: (c ++ [Ascii.rbrace])) with
  | some p =>
      -- the worker cuts inside the JSON text
      obtain ⟨before, s⟩ := p
      obtain ⟨hcut, hpre, hlen⟩ := wireJson_inside hline (behind rest)
      rw [hcut, parseWireResult_inside hc hpre hlen, eq_comm]
      simp
  | none =>
      have hlast : (Ascii.lbrace :: (c ++ [Ascii.rbrace])).getLast? ≠ some Ascii.lf := by
        rw [← List.cons_append, List.getLast?_concat]
        decide
      obtain ⟨hblank, hjunk⟩ := parseWireResult_behind (t := wireJson (behind rest)) hc
      have hws : (∀ b ∈ wireJson (behind rest), isWs b = true) ↔
          ∀ bin, rest = some (.crlf, bin) → ∀ b ∈ wireJson (Separator.crlf.text ++ bin), isWs b = true := by
        rcases rest with _ | ⟨_ | _, bin⟩
        · simp [behind, wireJson, findText]
        · simp [behind, wireJson_lf]
        · simp [behind]
      rw [wireJson_behind hline hlast, happend, ← hws]
      by_cases hall : ∀ b ∈ wireJson (behind rest), isWs b = true
      · exact iff_of_true (hblank hall) (Or.inl ⟨rfl, hall⟩)
      · rw [hjunk hall, eq_comm, or_iff_right fun h => hall h.2]

theorem results_agree_dump :
    ResultsAgree ((Value.object [(ascii "result", .number 1)]).dump ++ behind (some (.lf, [0x41]))) ↔
      CutsCleanly (Value.object [(ascii "result", .number 1)]).dump (some (.lf, [0x41])) :=
  results_agree_iff (.dumped _) _

/-- A reply that says `continue`, with one byte behind the other separator: the worker stops. -/
theorem results_agree_fails :
    ¬ ResultsAgree ((Value.object [(ascii "result", .number 1)]).dump ++
      behind (some (.crlf, [0x41]))) := by
  rintro ⟨json, bin, hsplit, h⟩
  have hjson : splitJsonPrefix ((Value.object [(ascii "result", .number 1)]).dump ++
      behind (some (.crlf, [0x41]))) = some (ascii "\x7b\"result\":1\x7d", [0x41]) := by
    decide +kernel
  obtain ⟨rfl, -⟩ := Prod.mk.inj (Option.some.inj (hjson.symm.trans hsplit))
  revert h
  decide +kernel

end OpenBambu.Source
