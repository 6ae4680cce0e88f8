import OpenBambu.Json.Parser

/-!
# What the parser accepts, as a relation

`ReadsString` and `Reads` say what the recursive descent of `parse_value` reads off
the front of a text, without fuel: one constructor for each way through a function
of the parser. A fuelled run that succeeds is a derivation (`reads_of_run`), and a
derivation is found by every run with enough fuel (`run_complete`), so `parse`
accepts exactly the texts of `parse_ok_iff`.
-/

namespace OpenBambu.Json

open OpenBambu.Foundation

/-! ## Strings -/

/-- A string behind its opening quote: its bytes, and the text behind the closing quote. -/
inductive ReadsString : Bytes → Bytes → Bytes → Prop
  | close {rest : Bytes} : ReadsString (Ascii.quote :: rest) [] rest
  | plain {c : Byte} {s str rest : Bytes} (hq : c ≠ Ascii.quote) (hb : c ≠ Ascii.backslash)
      (more : ReadsString s str rest) : ReadsString (c :: s) (c :: str) rest
  | escape {s bs str rest : Bytes} {n : Nat} (esc : escapeAt s = .ok (bs, n))
      (inside : n ≤ s.length) (more : ReadsString (s.drop n) str rest) :
      ReadsString (Ascii.backslash :: s) (bs ++ str) rest

theorem readsString_of_body {skip : Nat} {s out r rest : Bytes}
    (h : stringBody skip s out = .ok (r, rest)) :
    ∃ str, r = out ++ str ∧ skip ≤ s.length ∧ ReadsString (s.drop skip) str rest := by
  induction s generalizing skip out with
  | nil => exact absurd h (by simp [stringBody])
  | cons c s ih =>
      cases skip with
      | succ skip =>
          rw [stringBody] at h
          obtain ⟨str, hr, hle, hs⟩ := ih h
          exact ⟨str, hr, by simpa using hle, hs⟩
      | zero =>
          rw [stringBody] at h
          split_ifs at h with hq hb
          · obtain ⟨rfl, rfl⟩ := Prod.mk.inj (Except.ok.inj h)
            exact ⟨[], by simp, Nat.zero_le _, hq ▸ .close⟩
          · split at h
            · exact absurd h (by simp)
            · rename_i bs n he
              obtain ⟨str, hr, hle, hs⟩ := ih h
              exact ⟨bs ++ str, by simp [hr], Nat.zero_le _, hb ▸ .escape he hle hs⟩
          · obtain ⟨str, hr, _, hs⟩ := ih h
            exact ⟨c :: str, by simp [hr], Nat.zero_le _, .plain hq hb hs⟩

theorem stringBody_skip {n : Nat} {s : Bytes} (h : n ≤ s.length) (out : Bytes) :
    stringBody n s out = stringBody 0 (s.drop n) out := by
  induction s generalizing n with
  | nil =>
      obtain rfl : n = 0 := by simpa using h
      rfl
  | cons c s ih =>
      cases n with
      | zero => rfl
      | succ n => exact ih (by simpa using h)

theorem stringBody_of_reads {s str rest : Bytes} (h : ReadsString s str rest) (out : Bytes) :
    stringBody 0 s out = .ok (out ++ str, rest) := by
  induction h generalizing out with
  | close => rw [stringBody, if_pos rfl, List.append_nil]
  | plain hq hb _ ih => rw [stringBody, if_neg hq, if_neg hb, ih]; simp
  | escape esc inside _ ih =>
      rw [stringBody, if_neg (by decide), if_pos rfl, esc]
      simp only
      rw [stringBody_skip inside, ih, List.append_assoc]

theorem parseString_ok_iff {s str rest : Bytes} :
    parseString s = .ok (str, rest) ↔ ∃ t, s = Ascii.quote :: t ∧ ReadsString t str rest := by
  constructor
  · intro h
    cases s with
    | nil => exact absurd h (by simp [parseString])
    | cons c t =>
        rw [parseString] at h
        split_ifs at h with hc
        obtain ⟨str', rfl, _, hs⟩ := readsString_of_body h
        exact ⟨t, by rw [hc], hs⟩
  · rintro ⟨t, rfl, hs⟩
    rw [parseString, if_pos rfl, stringBody_of_reads hs, List.nil_append]

theorem ReadsString.shorter {s str rest : Bytes} (h : ReadsString s str rest) :
    rest.length < s.length := by
  induction h with
  | close => simp
  | plain _ _ _ ih => rw [List.length_cons]; omega
  | escape _ _ _ ih => rw [List.length_drop] at ih; rw [List.length_cons]; omega

theorem lowSurrogate_other {b : Byte} (hb : b ≠ Ascii.backslash) (x : Bytes) :
    lowSurrogate (b :: x) = some none := by
  unfold lowSurrogate
  split
  · rename_i h
    rw [← (List.cons.inj h).1, if_neg fun h => hb h.1]
  · rfl

theorem lowSurrogate_other_escape {b e : Byte} (he : e ≠ Ascii.letter 'u') (x : Bytes) :
    lowSurrogate (b :: e :: x) = some none := by
  unfold lowSurrogate
  split
  · rename_i h
    rw [← (List.cons.inj (List.cons.inj h).2).1, if_neg fun h => he h.2]
  · rfl

/-- One escape behind its backslash: the bytes it denotes and those it takes. -/
inductive ReadsEscape : Bytes → Bytes → Nat → Prop
  | simple {e b : Byte} {x : Bytes} (short : simpleEscape e = some b) : ReadsEscape (e :: x) [b] 1
  | unit {h0 h1 h2 h3 : Byte} {x : Bytes} {cp : Nat} (hex : hex4 h0 h1 h2 h3 = some cp)
      (other : ¬ (0xD800 ≤ cp ∧ cp ≤ 0xDBFF)) :
      ReadsEscape (Ascii.letter 'u' :: h0 :: h1 :: h2 :: h3 :: x) (utf8 cp) 5
  | lone {h0 h1 h2 h3 : Byte} {x : Bytes} {cp : Nat} (hex : hex4 h0 h1 h2 h3 = some cp)
      (high : 0xD800 ≤ cp ∧ cp ≤ 0xDBFF) (low : lowSurrogate x = some none) :
      ReadsEscape (Ascii.letter 'u' :: h0 :: h1 :: h2 :: h3 :: x) (utf8 cp) 5
  | pair {h0 h1 h2 h3 l0 l1 l2 l3 : Byte} {x : Bytes} {cp lo : Nat}
      (hex : hex4 h0 h1 h2 h3 = some cp) (high : 0xD800 ≤ cp ∧ cp ≤ 0xDBFF)
      (hex' : hex4 l0 l1 l2 l3 = some lo) (low : 0xDC00 ≤ lo ∧ lo ≤ 0xDFFF) :
      ReadsEscape
        (Ascii.letter 'u' :: h0 :: h1 :: h2 :: h3 ::
          Ascii.backslash :: Ascii.letter 'u' :: l0 :: l1 :: l2 :: l3 :: x)
        (utf8 (0x10000 + (cp - 0xD800) * 0x400 + (lo - 0xDC00))) 11

theorem lowSurrogate_some_lo {x : Bytes} {lo : Nat} (h : lowSurrogate x = some (some lo)) :
    ∃ l0 l1 l2 l3 y, x = Ascii.backslash :: Ascii.letter 'u' :: l0 :: l1 :: l2 :: l3 :: y ∧
      hex4 l0 l1 l2 l3 = some lo ∧ 0xDC00 ≤ lo ∧ lo ≤ 0xDFFF := by
  unfold lowSurrogate at h
  split at h
  · split_ifs at h with hbu
    · split at h
      · exact absurd h (by simp)
      · rename_i hhex
        have h := Option.some.inj h
        split_ifs at h with hlow
        obtain rfl := Option.some.inj h
        obtain ⟨rfl, rfl⟩ := hbu
        exact ⟨_, _, _, _, _, rfl, hhex, hlow⟩
    · exact absurd h (by simp)
  · exact absurd h (by simp)

theorem readsEscape_of_escapeAt {s bs : Bytes} {n : Nat} (h : escapeAt s = .ok (bs, n)) :
    ReadsEscape s bs n := by
  unfold escapeAt at h
  split at h
  · exact absurd h (by simp)
  · split at h
    · rename_i hb
      obtain ⟨rfl, rfl⟩ := Prod.mk.inj (Except.ok.inj h)
      exact .simple hb
    · split_ifs at h with hu
      subst hu
      split at h
      · split at h
        · exact absurd h (by simp)
        · rename_i hcp
          split_ifs at h with hs
          · split at h
            · exact absurd h (by simp)
            · rename_i hlo
              obtain ⟨rfl, rfl⟩ := Prod.mk.inj (Except.ok.inj h)
              obtain ⟨l0, l1, l2, l3, y, rfl, hhex, hlow⟩ := lowSurrogate_some_lo hlo
              exact .pair hcp hs hhex hlow
            · rename_i hlo
              obtain ⟨rfl, rfl⟩ := Prod.mk.inj (Except.ok.inj h)
              exact .lone hcp hs hlo
          · obtain ⟨rfl, rfl⟩ := Prod.mk.inj (Except.ok.inj h)
            exact .unit hcp hs
      · exact absurd h (by simp)

theorem escapeAt_of_reads {s bs : Bytes} {n : Nat} (h : ReadsEscape s bs n) :
    escapeAt s = .ok (bs, n) := by
  have hu : simpleEscape (Ascii.letter 'u') = none := by decide
  cases h with
  | simple short => simp only [escapeAt, short]
  | unit hex other => simp only [escapeAt, hu, if_true, hex, if_neg other]
  | lone hex high low => simp only [escapeAt, hu, if_true, hex, if_pos high, low]
  | pair hex high hex' low =>
      simp only [escapeAt, hu, if_true, hex, if_pos high, lowSurrogate, and_self, hex', if_pos low]

/-- An escape depends on what follows it only through the low surrogate there. -/
theorem ReadsEscape.text {s bs : Bytes} {n : Nat} (h : ReadsEscape s bs n) :
    ∃ e c, s = e :: c ++ s.drop n ∧ (e :: c).length = n ∧ (e = Ascii.letter 'u' → 5 ≤ n) ∧
      ∀ t, lowSurrogate t = lowSurrogate (s.drop n) → ReadsEscape (e :: c ++ t) bs n := by
  cases h with
  | simple short =>
      refine ⟨_, [], rfl, rfl, ?_, fun t _ => .simple short⟩
      rintro rfl
      rw [show simpleEscape (Ascii.letter 'u') = none by decide] at short
      exact absurd short (by simp)
  | unit hex other => exact ⟨_, [_, _, _, _], rfl, rfl, fun _ => Nat.le_refl _, fun t _ => .unit hex other⟩
  | lone hex high low =>
      exact ⟨_, [_, _, _, _], rfl, rfl, fun _ => Nat.le_refl _,
        fun t ht => .lone hex high (ht.trans low)⟩
  | pair hex high hex' low =>
      exact ⟨_, [_, _, _, _, _, _, _, _, _, _], rfl, rfl, fun _ => by omega,
        fun t _ => .pair hex high hex' low⟩

/-- A string reads the same whatever follows its closing quote. -/
theorem ReadsString.text {s str rest : Bytes} (h : ReadsString s str rest) :
    ∃ c, s = c ++ rest ∧
      ∀ tail, ReadsString (c ++ tail) str tail ∧ lowSurrogate (c ++ tail) = lowSurrogate s := by
  induction h with
  | close =>
      refine ⟨[Ascii.quote], rfl, fun tail => ⟨.close, ?_⟩⟩
      rw [List.singleton_append, lowSurrogate_other (by decide), lowSurrogate_other (by decide)]
  | @plain c s str rest hq hb _ ih =>
      obtain ⟨t, rfl, ht⟩ := ih
      refine ⟨c :: t, rfl, fun tail => ⟨.plain hq hb (ht tail).1, ?_⟩⟩
      rw [List.cons_append, lowSurrogate_other hb, lowSurrogate_other hb]
  | @escape s bs str rest n esc _ more ih =>
      obtain ⟨t, hdrop, ht⟩ := ih
      obtain ⟨e, c, hs, hn, hu, hlocal⟩ := (readsEscape_of_escapeAt esc).text
      refine ⟨Ascii.backslash :: (e :: c ++ t), ?_, fun tail => ⟨?_, ?_⟩⟩
      · rw [List.cons_append, List.append_assoc, ← hdrop, ← hs]
      · rw [List.cons_append, List.append_assoc]
        refine .escape (escapeAt_of_reads (hlocal _ (ht tail).2)) ?_ ?_
        · rw [List.length_append, hn]
          omega
        · rw [List.drop_left' hn]
          exact (ht tail).1
      · rw [hs, List.cons_append, List.append_assoc, List.cons_append, List.cons_append]
        by_cases he : e = Ascii.letter 'u'
        · match c, hn, hu he with
          | l0 :: l1 :: l2 :: l3 :: c, _, _ => rfl
        · rw [lowSurrogate_other_escape he, lowSurrogate_other_escape he]

/-! ## Literals and numbers -/

/-- A byte that neither opens a string nor opens or closes an object. -/
def Plain (b : Byte) : Prop := b ≠ Ascii.quote ∧ b ≠ Ascii.lbrace ∧ b ≠ Ascii.rbrace

instance (b : Byte) : Decidable (Plain b) := inferInstanceAs (Decidable (_ ∧ _))

theorem literal_eq_some {lit s rest : Bytes} : literal lit s = some rest ↔ s = lit ++ rest := by
  unfold literal
  constructor
  · intro h
    split_ifs at h with hp
    obtain ⟨t, rfl⟩ := hp
    rw [List.drop_left] at h
    rw [Option.some.inj h]
  · rintro rfl
    rw [if_pos (List.prefix_append lit rest), List.drop_left]

/-- Number texts are signs, digits, points and exponent letters. -/
theorem scanner_number : Scanner Plain scanNumber := by
  have hdigits : Scanner Plain digits := scanner_digits.mono fun c hc => by
    refine ⟨?_, ?_, ?_⟩ <;> rintro rfl <;> exact absurd hc (by decide)
  have hopt : ∀ p : Byte → Bool, p Ascii.quote = false → p Ascii.lbrace = false →
      p Ascii.rbrace = false → Scanner Plain (optional p) := by
    intro p h1 h2 h3
    refine (scanner_optional p).mono fun c hc => ?_
    refine ⟨?_, ?_, ?_⟩ <;> rintro rfl <;> simp_all
  exact (hopt _ rfl rfl rfl).andThen (hdigits.andThen
    (((hopt _ rfl rfl rfl).ifTaken hdigits).andThen
      ((hopt _ rfl rfl rfl).ifTaken ((hopt _ rfl rfl rfl).andThen hdigits))))

theorem literal_cases (lit s : Bytes) :
    literal lit s = none ∨ ∃ rest, literal lit s = some rest ∧ s = lit ++ rest := by
  cases hr : literal lit s with
  | none => exact Or.inl rfl
  | some rest => exact Or.inr ⟨rest, rfl, literal_eq_some.mp hr⟩

/-- A literal or number takes a nonempty text without quotes and braces, and takes it
whatever follows, up to the first byte of that. -/
theorem parseScalar_ok {c : Byte} {s rest : Bytes} {v : Value}
    (h : parseScalar c s = .ok (v, rest)) :
    ∃ text, text ≠ [] ∧ s = text ++ rest ∧ (∀ b ∈ text, Plain b) ∧ v.isObject = false ∧
      ∀ tail, tail.head? = rest.head? → parseScalar c (text ++ tail) = .ok (v, tail) := by
  unfold parseScalar at h
  split_ifs at h with ht hf hn hd
  · rcases literal_cases (ascii "true") s with hr | ⟨r, hr, rfl⟩
    · exact absurd h (by simp [hr])
    · rw [hr] at h
      obtain ⟨rfl, rfl⟩ := Prod.mk.inj (Except.ok.inj h)
      refine ⟨_, by decide, rfl, by decide +kernel, rfl, fun tail _ => ?_⟩
      simp only [parseScalar, if_pos ht, literal_eq_some.mpr rfl]
  · rcases literal_cases (ascii "false") s with hr | ⟨r, hr, rfl⟩
    · exact absurd h (by simp [hr])
    · rw [hr] at h
      obtain ⟨rfl, rfl⟩ := Prod.mk.inj (Except.ok.inj h)
      refine ⟨_, by decide, rfl, by decide +kernel, rfl, fun tail _ => ?_⟩
      simp only [parseScalar, if_neg ht, if_pos hf, literal_eq_some.mpr rfl]
  · rcases literal_cases (ascii "null") s with hr | ⟨r, hr, rfl⟩
    · exact absurd h (by simp [hr])
    · rw [hr] at h
      obtain ⟨rfl, rfl⟩ := Prod.mk.inj (Except.ok.inj h)
      refine ⟨_, by decide, rfl, by decide +kernel, rfl, fun tail _ => ?_⟩
      simp only [parseScalar, if_neg ht, if_neg hf, if_pos hn, literal_eq_some.mpr rfl]
  · unfold parseNumber at h
    split_ifs at h with hnum
    split at h
    · exact absurd h (by simp)
    · rename_i d r hd'
      split at hd'
      · exact absurd hd' (by simp)
      · rename_i x hx
        obtain ⟨rfl, rfl⟩ := Prod.mk.inj (Except.ok.inj hd')
        obtain ⟨rfl, rfl⟩ := Prod.mk.inj (Except.ok.inj h)
        refine ⟨_, hnum, (scanner_number.append s).symm, scanner_number.taken s, rfl, fun tail htail => ?_⟩
        simp only [parseScalar, if_neg ht, if_neg hf, if_neg hn, if_pos hd, parseNumber,
          scanner_number.resume s tail htail, if_neg hnum, hx]

/-! ## Values -/

/-- The three entry points of the descent; the loops carry what they have read so far. -/
inductive Mode where
  | value
  | members (o : Object)
  | items (a : List Value)

/-- `Reads mode s v rest`: the descent reads `v` off the front of `s` and stops at `rest`. -/
inductive Reads : Mode → Bytes → Value → Bytes → Prop
  | string {s t str rest : Bytes} (start : skipWs s = Ascii.quote :: t)
      (text : ReadsString t str rest) : Reads .value s (.string str) rest
  | emptyObject {s t rest : Bytes} (start : skipWs s = Ascii.lbrace :: t)
      (stop : skipWs t = Ascii.rbrace :: rest) : Reads .value s (.object []) rest
  | object {s t rest : Bytes} {v : Value} (start : skipWs s = Ascii.lbrace :: t)
      (nonempty : (skipWs t).head? ≠ some Ascii.rbrace)
      (inner : Reads (.members []) (skipWs t) v rest) : Reads .value s v rest
  | emptyArray {s t rest : Bytes} (start : skipWs s = Ascii.lbracket :: t)
      (stop : skipWs t = Ascii.rbracket :: rest) : Reads .value s (.array []) rest
  | array {s t rest : Bytes} {v : Value} (start : skipWs s = Ascii.lbracket :: t)
      (nonempty : (skipWs t).head? ≠ some Ascii.rbracket)
      (inner : Reads (.items []) (skipWs t) v rest) : Reads .value s v rest
  | scalar {s t rest : Bytes} {c : Byte} {v : Value} (start : skipWs s = c :: t)
      (hq : c ≠ Ascii.quote) (hb : c ≠ Ascii.lbrace) (hk : c ≠ Ascii.lbracket)
      (text : parseScalar c (c :: t) = .ok (v, rest)) : Reads .value s v rest
  | member {o : Object} {s t key r r₁ r₂ r₃ rest : Bytes} {v w : Value}
      (start : skipWs s = Ascii.quote :: t) (text : ReadsString t key r)
      (colon : skipWs r = Ascii.colon :: r₁) (inner : Reads .value r₁ v r₂)
      (comma : skipWs r₂ = Ascii.comma :: r₃)
      (more : Reads (.members (emplace o key v)) r₃ w rest) : Reads (.members o) s w rest
  | lastMember {o : Object} {s t key r r₁ r₂ rest : Bytes} {v : Value}
      (start : skipWs s = Ascii.quote :: t) (text : ReadsString t key r)
      (colon : skipWs r = Ascii.colon :: r₁) (inner : Reads .value r₁ v r₂)
      (stop : skipWs r₂ = Ascii.rbrace :: rest) :
      Reads (.members o) s (.object (emplace o key v)) rest
  | item {a : List Value} {s r r₁ rest : Bytes} {v w : Value} (inner : Reads .value s v r)
      (comma : skipWs r = Ascii.comma :: r₁) (more : Reads (.items (a ++ [v])) r₁ w rest) :
      Reads (.items a) s w rest
  | lastItem {a : List Value} {s r rest : Bytes} {v : Value} (inner : Reads .value s v r)
      (stop : skipWs r = Ascii.rbracket :: rest) : Reads (.items a) s (.array (a ++ [v])) rest

/-- The function of the parser a mode stands for. -/
def run (fuel : Nat) : Mode → Bytes → Result Value
  | .value, s => parseValue fuel s
  | .members o, s => parseMembers fuel o s
  | .items a, s => parseItems fuel a s

theorem nextAfter_more_iff {closing : Byte} {s rest : Bytes} :
    nextAfter closing s = .more rest ↔ skipWs s = Ascii.comma :: rest := by
  unfold nextAfter
  split
  · rename_i h
    simp [h]
  · rename_i c r h
    rw [h]
    split_ifs with hc hk
    · simp [hc]
    · simpa using fun h => absurd h hc
    · simpa using fun h => absurd h hc

theorem nextAfter_close_iff {closing : Byte} (hne : closing ≠ Ascii.comma) {s rest : Bytes} :
    nextAfter closing s = .close rest ↔ skipWs s = closing :: rest := by
  unfold nextAfter
  split
  · rename_i h
    simp [h]
  · rename_i c r h
    rw [h]
    split_ifs with hc hk
    · simpa [hc] using fun h => absurd h.symm hne
    · simp [hk]
    · simpa using fun h => absurd h hk

theorem reads_of_value {fuel : Nat}
    (ih : ∀ {m s v rest}, run fuel m s = .ok (v, rest) → Reads m s v rest)
    {s rest : Bytes} {v : Value} (h : parseValue (fuel + 1) s = .ok (v, rest)) :
    Reads .value s v rest := by
  rw [parseValue] at h
  split at h
  · exact absurd h (by simp)
  · rename_i c t hs
    split_ifs at h with hq hb he hk he'
    · split at h
      · exact absurd h (by simp)
      · rename_i str r hstr
        obtain ⟨rfl, rfl⟩ := Prod.mk.inj (Except.ok.inj h)
        obtain ⟨t', ht, hr⟩ := parseString_ok_iff.mp hstr
        exact .string (hs.trans ht) hr
    · obtain ⟨rfl, rfl⟩ := Prod.mk.inj (Except.ok.inj h)
      obtain ⟨r, hr⟩ := List.head?_eq_some_iff.mp he
      exact .emptyObject (hb ▸ hs) (by rw [hr]; rfl)
    · exact .object (hb ▸ hs) he (ih (m := .members []) h)
    · obtain ⟨rfl, rfl⟩ := Prod.mk.inj (Except.ok.inj h)
      obtain ⟨r, hr⟩ := List.head?_eq_some_iff.mp he'
      exact .emptyArray (hk ▸ hs) (by rw [hr]; rfl)
    · exact .array (hk ▸ hs) he' (ih (m := .items []) h)
    · exact .scalar hs hq hb hk h

theorem reads_of_members {fuel : Nat}
    (ih : ∀ {m s v rest}, run fuel m s = .ok (v, rest) → Reads m s v rest)
    {o : Object} {s rest : Bytes} {v : Value} (h : parseMembers (fuel + 1) o s = .ok (v, rest)) :
    Reads (.members o) s v rest := by
  rw [parseMembers] at h
  split at h
  · exact absurd h (by simp)
  · rename_i key r hkey
    obtain ⟨t, hs, hr⟩ := parseString_ok_iff.mp hkey
    split at h
    · exact absurd h (by simp)
    · rename_i c r₁ hcolon
      split_ifs at h with hc
      subst hc
      split at h
      · exact absurd h (by simp)
      · rename_i w r₂ hv
        have hin := ih (m := .value) hv
        split at h
        · rename_i r₃ hn
          exact .member hs hr hcolon hin (nextAfter_more_iff.mp hn) (ih (m := .members _) h)
        · rename_i r₃ hn
          obtain ⟨rfl, rfl⟩ := Prod.mk.inj (Except.ok.inj h)
          exact .lastMember hs hr hcolon hin ((nextAfter_close_iff (by decide)).mp hn)
        · exact absurd h (by simp)

theorem reads_of_items {fuel : Nat}
    (ih : ∀ {m s v rest}, run fuel m s = .ok (v, rest) → Reads m s v rest)
    {a : List Value} {s rest : Bytes} {v : Value} (h : parseItems (fuel + 1) a s = .ok (v, rest)) :
    Reads (.items a) s v rest := by
  rw [parseItems] at h
  split at h
  · exact absurd h (by simp)
  · rename_i w r hv
    have hin := ih (m := .value) hv
    split at h
    · rename_i r₁ hn
      exact .item hin (nextAfter_more_iff.mp hn) (ih (m := .items _) h)
    · rename_i r₁ hn
      obtain ⟨rfl, rfl⟩ := Prod.mk.inj (Except.ok.inj h)
      exact .lastItem hin ((nextAfter_close_iff (by decide)).mp hn)
    · exact absurd h (by simp)

/-- What a fuelled run returns is derivable. -/
theorem reads_of_run {n : Nat} {m : Mode} {s rest : Bytes} {v : Value}
    (h : run n m s = .ok (v, rest)) : Reads m s v rest := by
  induction n generalizing m s v rest with
  | zero => cases m <;> exact absurd h (by simp [run, parseValue, parseMembers, parseItems])
  | succ n ih =>
      cases m with
      | value => exact reads_of_value ih h
      | members o => exact reads_of_members ih h
      | items a => exact reads_of_items ih h

theorem length_skipWs_le (s : Bytes) : (skipWs s).length ≤ s.length :=
  (List.dropWhile_sublist isWs).length_le

theorem lt_of_skipWs {s t : Bytes} {c : Byte} (h : skipWs s = c :: t) : t.length < s.length := by
  have := length_skipWs_le s
  rw [h, List.length_cons] at this
  omega

/-- Every reading uses up at least one byte. -/
theorem Reads.shorter {mode : Mode} {s rest : Bytes} {v : Value} (h : Reads mode s v rest) :
    rest.length < s.length := by
  induction h with
  | string start text =>
      have := lt_of_skipWs start
      have := text.shorter
      omega
  | emptyObject start stop | emptyArray start stop =>
      have := lt_of_skipWs start
      have := lt_of_skipWs stop
      omega
  | @object _ t _ _ start _ _ ih | @array _ t _ _ start _ _ ih =>
      have := lt_of_skipWs start
      have := length_skipWs_le t
      omega
  | scalar start _ _ _ text =>
      obtain ⟨text, hne, he, _⟩ := parseScalar_ok text
      have := lt_of_skipWs start
      have hpos := List.length_pos_of_ne_nil hne
      have hlen := congrArg List.length he
      rw [List.length_cons, List.length_append] at hlen
      omega
  | member start text colon _ comma _ ih ih' =>
      have := lt_of_skipWs start
      have := text.shorter
      have := lt_of_skipWs colon
      have := lt_of_skipWs comma
      omega
  | lastMember start text colon _ stop ih =>
      have := lt_of_skipWs start
      have := text.shorter
      have := lt_of_skipWs colon
      have := lt_of_skipWs stop
      omega
  | item _ comma _ ih ih' =>
      have := lt_of_skipWs comma
      omega
  | lastItem _ stop ih =>
      have := lt_of_skipWs stop
      omega

/-- Fuel that no run on a text uses up. -/
def need : Mode → Bytes → Nat
  | .value, s => 2 * s.length
  | _, s => 2 * s.length + 1

/-- A derivation is found by every run with enough fuel. -/
theorem run_complete {mode : Mode} {s rest : Bytes} {v : Value} (h : Reads mode s v rest)
    {n : Nat} (hf : need mode s < n) : run n mode s = .ok (v, rest) := by
  induction h generalizing n with
  | string start text =>
      obtain ⟨fuel, rfl⟩ := Nat.exists_eq_add_of_lt hf
      have hstr := parseString_ok_iff.mpr ⟨_, rfl, text⟩
      simp only [run, parseValue, start, if_pos, hstr]
  | emptyObject start stop =>
      obtain ⟨fuel, rfl⟩ := Nat.exists_eq_add_of_lt hf
      rw [run, parseValue, start]
      simp only [if_neg (show Ascii.lbrace ≠ Ascii.quote by decide), if_true, stop, List.head?_cons,
        List.tail_cons]
  | emptyArray start stop =>
      obtain ⟨fuel, rfl⟩ := Nat.exists_eq_add_of_lt hf
      rw [run, parseValue, start]
      simp only [if_neg (show Ascii.lbracket ≠ Ascii.quote by decide),
        if_neg (show Ascii.lbracket ≠ Ascii.lbrace by decide), if_true, stop, List.head?_cons,
        List.tail_cons]
  | @object s t _ _ start nonempty _ ih =>
      obtain ⟨fuel, rfl⟩ := Nat.exists_eq_add_of_lt hf
      have := lt_of_skipWs start
      have := length_skipWs_le t
      have hin := ih (n := need .value s + fuel) (by simp only [need]; omega)
      rw [run, parseValue, start]
      simp only [if_neg (show Ascii.lbrace ≠ Ascii.quote by decide), if_true, if_neg nonempty]
      exact hin
  | @array s t _ _ start nonempty _ ih =>
      obtain ⟨fuel, rfl⟩ := Nat.exists_eq_add_of_lt hf
      have := lt_of_skipWs start
      have := length_skipWs_le t
      have hin := ih (n := need .value s + fuel) (by simp only [need]; omega)
      rw [run, parseValue, start]
      simp only [if_neg (show Ascii.lbracket ≠ Ascii.quote by decide),
        if_neg (show Ascii.lbracket ≠ Ascii.lbrace by decide), if_true, if_neg nonempty]
      exact hin
  | scalar start hq hb hk text =>
      obtain ⟨fuel, rfl⟩ := Nat.exists_eq_add_of_lt hf
      rw [run, parseValue, start]
      simp only [if_neg hq, if_neg hb, if_neg hk, text]
  | @member o s _ _ _ _ _ _ _ _ _ start text colon inner comma _ ih ih' =>
      obtain ⟨fuel, rfl⟩ := Nat.exists_eq_add_of_lt hf
      have := lt_of_skipWs start
      have := text.shorter
      have := lt_of_skipWs colon
      have := inner.shorter
      have := lt_of_skipWs comma
      have hkey := parseString_ok_iff.mpr ⟨_, rfl, text⟩
      have hin := ih (n := need (.members o) s + fuel) (by simp only [need]; omega)
      have hmore := ih' (n := need (.members o) s + fuel) (by simp only [need]; omega)
      simp only [run] at hin hmore ⊢
      rw [parseMembers, start, hkey]
      simp only [colon, if_true, hin, nextAfter_more_iff.mpr comma, hmore]
  | @lastMember o s _ _ _ _ _ _ _ start text colon inner stop ih =>
      obtain ⟨fuel, rfl⟩ := Nat.exists_eq_add_of_lt hf
      have := lt_of_skipWs start
      have := text.shorter
      have := lt_of_skipWs colon
      have hkey := parseString_ok_iff.mpr ⟨_, rfl, text⟩
      have hin := ih (n := need (.members o) s + fuel) (by simp only [need]; omega)
      simp only [run] at hin ⊢
      rw [parseMembers, start, hkey]
      simp only [colon, if_true, hin, (nextAfter_close_iff (by decide)).mpr stop]
  | @item a s _ _ _ _ _ inner comma _ ih ih' =>
      obtain ⟨fuel, rfl⟩ := Nat.exists_eq_add_of_lt hf
      have := inner.shorter
      have := lt_of_skipWs comma
      have hin := ih (n := need (.items a) s + fuel) (by simp only [need]; omega)
      have hmore := ih' (n := need (.items a) s + fuel) (by simp only [need]; omega)
      simp only [run] at hin hmore ⊢
      rw [parseItems, hin]
      simp only [nextAfter_more_iff.mpr comma, hmore]
  | @lastItem a s _ _ _ inner stop ih =>
      obtain ⟨fuel, rfl⟩ := Nat.exists_eq_add_of_lt hf
      have hin := ih (n := need (.items a) s + fuel) (by simp only [need]; omega)
      simp only [run] at hin ⊢
      rw [parseItems, hin]
      simp only [(nextAfter_close_iff (by decide)).mpr stop]

/-- The texts `obn::json::parse` accepts, and their values. -/
theorem parse_ok_iff {text : Bytes} {v : Value} :
    parse text = .ok v ↔ ∃ rest, Reads .value (skipWs text) v rest ∧ skipWs rest = [] := by
  unfold parse
  constructor
  · intro h
    split at h
    · exact absurd h (by simp)
    · rename_i w rest hv
      split_ifs at h with hend
      obtain rfl := Except.ok.inj h
      exact ⟨rest, reads_of_run (n := 2 * text.length + 2) (m := .value) (by simpa only [run] using hv), hend⟩
  · rintro ⟨rest, hr, hend⟩
    have hlen := length_skipWs_le text
    have hrun := run_complete hr (n := 2 * text.length + 2) (by simp only [need]; omega)
    rw [run] at hrun
    rw [hrun]
    simp only [if_pos hend]

/-! ## The text that was read -/

/-- Texts in which strings and the braces outside them are closed. -/
inductive Balanced : Bytes → Prop
  | nil : Balanced []
  | plain {b : Byte} {c : Bytes} (hb : Plain b) (more : Balanced c) : Balanced (b :: c)
  | string {c str d : Bytes} (text : ∀ tail, ReadsString (c ++ tail) str tail)
      (more : Balanced d) : Balanced (Ascii.quote :: c ++ d)
  | braces {c d : Bytes} (inner : Balanced c) (more : Balanced d) :
      Balanced (Ascii.lbrace :: c ++ Ascii.rbrace :: d)

theorem Balanced.append {c d : Bytes} (hc : Balanced c) (hd : Balanced d) : Balanced (c ++ d) := by
  induction hc with
  | nil => exact hd
  | plain hb _ ih => exact .plain hb ih
  | @string c str d' text _ ih =>
      rw [List.append_assoc]
      exact .string text ih
  | @braces c d' inner _ ih ih' =>
      rw [List.append_assoc, List.cons_append]
      exact .braces inner ih'

theorem balanced_of_plain {c : Bytes} (h : ∀ b ∈ c, Plain b) : Balanced c := by
  induction c with
  | nil => exact .nil
  | cons b c ih =>
      exact .plain (h b (by simp)) (ih fun x hx => h x (by simp [hx]))

theorem plain_of_isWs {b : Byte} (h : isWs b = true) : Plain b := by
  refine ⟨?_, ?_, ?_⟩ <;> rintro rfl <;> exact absurd h (by decide)

theorem balanced_ws {w : Bytes} (h : ∀ b ∈ w, isWs b = true) : Balanced w :=
  balanced_of_plain fun b hb => plain_of_isWs (h b hb)

/-- The white space in front of a byte, and that byte in front of anything else. -/
theorem skipWs_cons {s t : Bytes} {c : Byte} (h : skipWs s = c :: t) :
    ∃ w, s = w ++ c :: t ∧ (∀ b ∈ w, isWs b = true) ∧ ∀ u, skipWs (w ++ c :: u) = c :: u := by
  have hs : s.takeWhile isWs ++ skipWs s = s := List.takeWhile_append_dropWhile
  have hw : ∀ b ∈ s.takeWhile isWs, isWs b = true := List.all_eq_true.mp List.all_takeWhile
  have hc : isWs c = false := by
    have := List.head?_dropWhile_not isWs s
    rw [show s.dropWhile isWs = c :: t from h] at this
    simpa using this
  refine ⟨s.takeWhile isWs, by rw [← h, hs], hw, fun u => ?_⟩
  rw [skipWs, List.dropWhile_append_of_pos hw, List.dropWhile_cons, if_neg (by simp [hc])]

/-- The shape of the text each mode reads; a member loop also reads the closing brace. -/
def Closed : Mode → Bytes → Prop
  | .members _, c => ∃ d, c = d ++ [Ascii.rbrace] ∧ Balanced d
  | _, c => Balanced c

theorem Reads.text_ne_nil {mode : Mode} {s c rest : Bytes} {v : Value} (h : Reads mode s v rest)
    (hs : s = c ++ rest) : c ≠ [] := by
  rintro rfl
  have := h.shorter
  rw [hs, List.nil_append] at this
  omega

/-- What was read is a prefix of closed shape, and is read as the same value whatever
follows it; only literals and numbers look at the next byte. -/
theorem Reads.text {mode : Mode} {s rest : Bytes} {v : Value} (h : Reads mode s v rest) :
    ∃ c, s = c ++ rest ∧ Closed mode c ∧
      ∀ tail, (mode = .value → v.isObject = false → tail.head? = rest.head?) →
        Reads mode (c ++ tail) v tail := by
  induction h with
  | @string s t str rest start text =>
      obtain ⟨w, rfl, hw, hskip⟩ := skipWs_cons start
      obtain ⟨c, rfl, hc⟩ := text.text
      refine ⟨w ++ Ascii.quote :: c, by simp, ?_, fun tail _ => ?_⟩
      · have := Balanced.string (fun tail => (hc tail).1) .nil
        rw [List.append_nil] at this
        exact (balanced_ws hw).append this
      · rw [List.append_assoc, List.cons_append]
        exact .string (hskip _) (hc tail).1
  | @emptyObject s t rest start stop =>
      obtain ⟨w, rfl, hw, hskip⟩ := skipWs_cons start
      obtain ⟨x, rfl, hx, hskip'⟩ := skipWs_cons stop
      refine ⟨w ++ Ascii.lbrace :: (x ++ [Ascii.rbrace]), by simp, ?_, fun tail _ => ?_⟩
      · exact (balanced_ws hw).append (.braces (balanced_ws hx) .nil)
      · simp only [List.append_assoc, List.cons_append, List.nil_append]
        exact .emptyObject (hskip _) (hskip' _)
  | @object s t rest v start nonempty inner ih =>
      obtain ⟨w, rfl, hw, hskip⟩ := skipWs_cons start
      obtain ⟨c, hs, hclosed, hlocal⟩ := ih
      obtain ⟨b, c', rfl⟩ := List.exists_cons_of_ne_nil (inner.text_ne_nil hs)
      obtain ⟨x, rfl, hx, hskip'⟩ := skipWs_cons hs
      refine ⟨w ++ Ascii.lbrace :: (x ++ b :: c'), by simp, ?_, fun tail _ => ?_⟩
      · obtain ⟨d, hd, hbal⟩ := hclosed
        rw [hd, ← List.append_assoc]
        exact (balanced_ws hw).append (.braces ((balanced_ws hx).append hbal) .nil)
      · simp only [List.append_assoc, List.cons_append]
        refine .object (hskip _) ?_ ?_
        · rw [hskip'] at nonempty ⊢
          exact nonempty
        · rw [hskip']
          exact hlocal tail (by simp)
  | @emptyArray s t rest start stop =>
      obtain ⟨w, rfl, hw, hskip⟩ := skipWs_cons start
      obtain ⟨x, rfl, hx, hskip'⟩ := skipWs_cons stop
      refine ⟨w ++ Ascii.lbracket :: (x ++ [Ascii.rbracket]), by simp, ?_, fun tail _ => ?_⟩
      · exact (balanced_ws hw).append
          (.plain (by decide) ((balanced_ws hx).append (.plain (by decide) .nil)))
      · simp only [List.append_assoc, List.cons_append, List.nil_append]
        exact .emptyArray (hskip _) (hskip' _)
  | @array s t rest v start nonempty inner ih =>
      obtain ⟨w, rfl, hw, hskip⟩ := skipWs_cons start
      obtain ⟨c, hs, hclosed, hlocal⟩ := ih
      obtain ⟨b, c', rfl⟩ := List.exists_cons_of_ne_nil (inner.text_ne_nil hs)
      obtain ⟨x, rfl, hx, hskip'⟩ := skipWs_cons hs
      refine ⟨w ++ Ascii.lbracket :: (x ++ b :: c'), by simp, ?_, fun tail _ => ?_⟩
      · exact (balanced_ws hw).append (.plain (by decide) ((balanced_ws hx).append hclosed))
      · simp only [List.append_assoc, List.cons_append]
        refine .array (hskip _) ?_ ?_
        · rw [hskip'] at nonempty ⊢
          exact nonempty
        · rw [hskip']
          exact hlocal tail (by simp)
  | @scalar s t rest c v start hq hb hk text =>
      obtain ⟨w, rfl, hw, hskip⟩ := skipWs_cons start
      obtain ⟨x, hne, ht, hplain, hobj, hlocal⟩ := parseScalar_ok text
      obtain ⟨b, x', rfl⟩ := List.exists_cons_of_ne_nil hne
      obtain ⟨rfl, rfl⟩ := List.cons.inj ht
      refine ⟨w ++ c :: x', by simp, ?_, fun tail htail => ?_⟩
      · exact (balanced_ws hw).append (balanced_of_plain hplain)
      · simp only [List.append_assoc, List.cons_append]
        exact .scalar (hskip _) hq hb hk (hlocal tail (htail rfl hobj))
  | @member o s t key r r₁ r₂ r₃ rest v w start text colon inner comma more ih ih' =>
      obtain ⟨x, rfl, hx, hskip⟩ := skipWs_cons start
      obtain ⟨k, rfl, hk⟩ := text.text
      obtain ⟨y, rfl, hy, hskip'⟩ := skipWs_cons colon
      obtain ⟨c, rfl, hc, hlocal⟩ := ih
      obtain ⟨z, rfl, hz, hskip''⟩ := skipWs_cons comma
      obtain ⟨c', rfl, ⟨d, rfl, hd⟩, hlocal'⟩ := ih'
      refine ⟨x ++ Ascii.quote :: (k ++ (y ++ Ascii.colon :: (c ++ (z ++ Ascii.comma ::
        (d ++ [Ascii.rbrace]))))), by simp, ⟨x ++ (Ascii.quote :: k ++ (y ++ Ascii.colon ::
        (c ++ (z ++ Ascii.comma :: d)))), by simp, ?_⟩, fun tail _ => ?_⟩
      · exact (balanced_ws hx).append (.string (fun tail => (hk tail).1) ((balanced_ws hy).append
          (.plain (by decide) (hc.append ((balanced_ws hz).append (.plain (by decide) hd))))))
      · simp only [List.append_assoc, List.cons_append, List.nil_append] at hlocal hlocal' ⊢
        refine .member (hskip _) (hk _).1 (hskip' _) (hlocal _ fun _ _ => ?_) (hskip'' _)
          (hlocal' tail (by simp))
        cases z <;> rfl
  | @lastMember o s t key r r₁ r₂ rest v start text colon inner stop ih =>
      obtain ⟨x, rfl, hx, hskip⟩ := skipWs_cons start
      obtain ⟨k, rfl, hk⟩ := text.text
      obtain ⟨y, rfl, hy, hskip'⟩ := skipWs_cons colon
      obtain ⟨c, rfl, hc, hlocal⟩ := ih
      obtain ⟨z, rfl, hz, hskip''⟩ := skipWs_cons stop
      refine ⟨x ++ Ascii.quote :: (k ++ (y ++ Ascii.colon :: (c ++ (z ++ [Ascii.rbrace])))),
        by simp, ⟨x ++ (Ascii.quote :: k ++ (y ++ Ascii.colon :: (c ++ z))), by simp, ?_⟩,
        fun tail _ => ?_⟩
      · exact (balanced_ws hx).append (.string (fun tail => (hk tail).1) ((balanced_ws hy).append
          (.plain (by decide) (hc.append (balanced_ws hz)))))
      · simp only [List.append_assoc, List.cons_append, List.nil_append] at hlocal ⊢
        refine .lastMember (hskip _) (hk _).1 (hskip' _) (hlocal _ fun _ _ => ?_) (hskip'' _)
        cases z <;> rfl
  | @item a s r r₁ rest v w inner comma more ih ih' =>
      obtain ⟨c, rfl, hc, hlocal⟩ := ih
      obtain ⟨z, rfl, hz, hskip⟩ := skipWs_cons comma
      obtain ⟨c', rfl, hc', hlocal'⟩ := ih'
      refine ⟨c ++ (z ++ Ascii.comma :: c'), by simp,
        hc.append ((balanced_ws hz).append (.plain (by decide) hc')), fun tail _ => ?_⟩
      simp only [List.append_assoc, List.cons_append]
      refine .item (hlocal _ fun _ _ => ?_) (hskip _) (hlocal' tail (by simp))
      cases z <;> rfl
  | @lastItem a s r rest v inner stop ih =>
      obtain ⟨c, rfl, hc, hlocal⟩ := ih
      obtain ⟨z, rfl, hz, hskip⟩ := skipWs_cons stop
      refine ⟨c ++ (z ++ [Ascii.rbracket]), by simp,
        hc.append ((balanced_ws hz).append (.plain (by decide) .nil)), fun tail _ => ?_⟩
      simp only [List.append_assoc, List.cons_append, List.nil_append]
      refine .lastItem (hlocal _ fun _ _ => ?_) (hskip _)
      cases z <;> rfl

/-- The member loop ends with an object, and a member it starts with stays the first of its key. -/
theorem Reads.members_assign {o : Object} {s rest : Bytes} {x : Value}
    (h : Reads (.members o) s x rest) :
    ∃ w, x = .object w ∧ w ≠ [] ∧ (Sorted o → Sorted w) ∧
      ∀ k v, Reads (.members (assign o k v)) s (.object (assign w k v)) rest := by
  generalize hm : Mode.members o = mode at h
  induction h generalizing o with
  | string | emptyObject | object | emptyArray | array | scalar | item | lastItem => cases hm
  | member start text colon inner comma _ _ ih' =>
      cases hm
      obtain ⟨w, rfl, hne, hs, hw⟩ := ih' rfl
      refine ⟨w, rfl, hne, fun ho => hs (sorted_emplace ho _ _), fun k v => ?_⟩
      refine .member start text colon inner comma ?_
      rw [emplace_assign]
      exact hw k v
  | lastMember start text colon inner stop =>
      cases hm
      refine ⟨_, rfl, emplace_ne_nil _ _ _, fun ho => sorted_emplace ho _ _, fun k v => ?_⟩
      rw [← emplace_assign]
      exact .lastMember start text colon inner stop

theorem Reads.members_behind {o : Object} {s s' rest : Bytes} {x : Value}
    (h : Reads (.members o) s x rest) (hs : skipWs s' = skipWs s) :
    Reads (.members o) s' x rest := by
  cases h with
  | member start text colon inner comma more =>
      exact .member (hs.trans start) text colon inner comma more
  | lastMember start text colon inner stop => exact .lastMember (hs.trans start) text colon inner stop

theorem Reads.value_behind {s s' rest : Bytes} {v : Value} (h : Reads .value s v rest)
    (hs : skipWs s' = skipWs s) : Reads .value s' v rest := by
  cases h with
  | string start text => exact .string (hs.trans start) text
  | emptyObject start stop => exact .emptyObject (hs.trans start) stop
  | object start nonempty inner => exact .object (hs.trans start) nonempty inner
  | emptyArray start stop => exact .emptyArray (hs.trans start) stop
  | array start nonempty inner => exact .array (hs.trans start) nonempty inner
  | scalar start hq hb hk text => exact .scalar (hs.trans start) hq hb hk text

theorem Reads.items_behind {a : List Value} {s s' rest : Bytes} {x : Value}
    (h : Reads (.items a) s x rest) (hs : skipWs s' = skipWs s) : Reads (.items a) s' x rest := by
  cases h with
  | item inner comma more => exact .item (inner.value_behind hs) comma more
  | lastItem inner stop => exact .lastItem (inner.value_behind hs) stop

/-- No value starts with the bracket that closes an array. -/
theorem Reads.value_head {s rest : Bytes} {v : Value} (h : Reads .value s v rest) :
    (skipWs s).head? ≠ some Ascii.rbracket := by
  have hne : ∀ {c t}, skipWs s = c :: t → c ≠ Ascii.rbracket →
      (skipWs s).head? ≠ some Ascii.rbracket := by
    intro c t hs hc
    rw [hs]
    exact fun h => hc (Option.some.inj h)
  cases h with
  | string start => exact hne start (by decide)
  | emptyObject start => exact hne start (by decide)
  | object start => exact hne start (by decide)
  | emptyArray start => exact hne start (by decide)
  | array start => exact hne start (by decide)
  | scalar start hq hb hk text =>
      refine hne start ?_
      rintro rfl
      exact absurd text (by simp [parseScalar, Ascii.rbracket, Ascii.letter, Ascii.minus, isDigit])

theorem skipWs_append {w : Bytes} (hw : ∀ b ∈ w, isWs b = true) (s : Bytes) :
    skipWs (w ++ s) = skipWs s := List.dropWhile_append_of_pos hw

theorem ws_append_skipWs (s : Bytes) : ∃ w, s = w ++ skipWs s ∧ ∀ b ∈ w, isWs b = true :=
  ⟨s.takeWhile isWs, List.takeWhile_append_dropWhile.symm, List.all_eq_true.mp List.all_takeWhile⟩

theorem skipWs_skipWs (s : Bytes) : skipWs (skipWs s) = skipWs s := by
  obtain ⟨w, hs, hw⟩ := ws_append_skipWs s
  conv_rhs => rw [hs, skipWs_append hw]

/-- `c` stands between the braces of a text of the object `o`. -/
structure ObjectText (o : Object) (c : Bytes) : Prop where
  balanced : Balanced c
  sorted : Sorted o
  reads : ∀ tail, Reads .value (Ascii.lbrace :: (c ++ Ascii.rbrace :: tail)) (.object o) tail
  blank : o = [] → ∀ b ∈ c, isWs b = true
  members : o ≠ [] → ∀ k v tail,
    Reads (.members [(k, v)]) (c ++ Ascii.rbrace :: tail) (.object (assign o k v)) tail

theorem objectText_nil {x : Bytes} (hx : ∀ b ∈ x, isWs b = true) : ObjectText [] x where
  balanced := balanced_ws hx
  sorted := List.Pairwise.nil
  reads tail := .emptyObject (t := x ++ Ascii.rbrace :: tail) rfl (by rw [skipWs_append hx]; rfl)
  blank _ := hx
  members h := absurd rfl h

theorem Reads.members_quote {o : Object} {s rest : Bytes} {x : Value}
    (h : Reads (.members o) s x rest) : ∃ t, skipWs s = Ascii.quote :: t := by
  cases h with
  | member start => exact ⟨_, start⟩
  | lastMember start => exact ⟨_, start⟩

theorem objectText_members {x s rest : Bytes} {o : Object} (hx : ∀ b ∈ x, isWs b = true)
    (hs : skipWs s = s) (h : Reads (.members []) s (.object o) rest) :
    ∃ d, s = d ++ Ascii.rbrace :: rest ∧ ObjectText o (x ++ d) := by
  obtain ⟨c, hsc, ⟨d, rfl, hd⟩, hlocal⟩ := h.text
  obtain ⟨w, hw, hwne, hsorted, hassign⟩ := h.members_assign
  obtain rfl := Value.object.inj hw
  obtain ⟨t, ht⟩ := h.members_quote
  rw [hs] at ht
  rw [List.append_assoc, List.singleton_append] at hsc
  cases d with
  | nil => exact absurd (List.cons.inj (hsc.symm.trans ht)).1 (by decide)
  | cons q d =>
      obtain rfl : q = Ascii.quote := (List.cons.inj (hsc.symm.trans ht)).1
      have hstart : ∀ tail, skipWs (x ++ Ascii.quote :: d ++ Ascii.rbrace :: tail) =
          Ascii.quote :: d ++ [Ascii.rbrace] ++ tail := by
        intro tail
        rw [List.append_assoc, skipWs_append hx, List.append_assoc]
        rfl
      refine ⟨_, hsc, (balanced_ws hx).append hd, hsorted List.Pairwise.nil, fun tail => ?_,
        fun h => absurd h hwne, fun _ k v tail => ?_⟩
      · refine .object rfl ?_ ?_
        · rw [hstart]
          exact fun h => absurd (Option.some.inj h) (by decide)
        · rw [hstart]
          exact hlocal tail (by simp)
      · obtain ⟨c, hsc', _, hlocal'⟩ := (hassign k v).text
        obtain rfl : c = Ascii.quote :: d ++ [Ascii.rbrace] := by
          have hsame : Ascii.quote :: d ++ [Ascii.rbrace] ++ rest = c ++ rest := by
            rw [← hsc', hsc]
            simp
          exact (List.append_cancel_right hsame).symm
        refine (hlocal' tail (by simp)).members_behind ?_
        rw [hstart, ← hstart, hstart]
        rfl

theorem Reads.items_array {a : List Value} {s rest : Bytes} {x : Value}
    (h : Reads (.items a) s x rest) : ∃ b, x = .array b := by
  generalize hm : Mode.items a = mode at h
  induction h generalizing a with
  | string | emptyObject | object | emptyArray | array | scalar | member | lastMember => cases hm
  | item _ _ _ _ ih' =>
      cases hm
      exact ih' rfl
  | lastItem => exact ⟨_, rfl⟩

/-- The elements read so far stay at the front. -/
theorem Reads.items_prefix {a : List Value} {s rest : Bytes} {x : Value} (h : Reads (.items a) s x rest) :
    ∃ b, b ≠ [] ∧ x = .array (a ++ b) := by
  generalize hm : Mode.items a = mode at h
  induction h generalizing a with
  | string | emptyObject | object | emptyArray | array | scalar | member | lastMember => cases hm
  | @item _ _ _ _ _ v _ _ _ _ _ ih' =>
      cases hm
      obtain ⟨b, -, rfl⟩ := ih' rfl
      exact ⟨v :: b, List.cons_ne_nil _ _, by rw [List.append_assoc, List.singleton_append]⟩
  | @lastItem _ _ _ _ v =>
      cases hm
      exact ⟨[v], List.cons_ne_nil _ _, rfl⟩

/-- A text that parses as an object: white space, braces around its members, white space. -/
theorem parse_object {text : Bytes} {o : Object} (h : parse text = .ok (.object o)) :
    ∃ w c z, text = w ++ Ascii.lbrace :: (c ++ Ascii.rbrace :: z) ∧ (∀ b ∈ w, isWs b = true) ∧
      (∀ b ∈ z, isWs b = true) ∧ ObjectText o c := by
  obtain ⟨rest, hr, hend⟩ := parse_ok_iff.mp h
  have hz : ∀ b ∈ rest, isWs b = true := List.dropWhile_eq_nil_iff.mp hend
  obtain ⟨w, htext, hw⟩ := ws_append_skipWs text
  generalize hv : Value.object o = v at hr
  cases hr with
  | string | emptyArray => cases hv
  | array start nonempty inner =>
      obtain ⟨b, hb⟩ := inner.items_array
      exact absurd (hv.trans hb) (by simp)
  | scalar start hq hb hk text =>
      subst hv
      obtain ⟨_, _, _, _, hobj, _⟩ := parseScalar_ok text
      exact absurd hobj (by simp [Value.isObject])
  | emptyObject start stop =>
      cases hv
      rw [skipWs_skipWs] at start
      obtain ⟨x, rfl, hx, _⟩ := skipWs_cons stop
      exact ⟨w, x, rest, by rw [← start]; exact htext, hw, hz, objectText_nil hx⟩
  | @object _ t _ _ start nonempty inner =>
      subst hv
      rw [skipWs_skipWs] at start
      obtain ⟨x, ht, hx⟩ := ws_append_skipWs t
      obtain ⟨d, hd, hobj⟩ := objectText_members hx (skipWs_skipWs t) inner
      refine ⟨w, x ++ d, rest, ?_, hw, hz, hobj⟩
      rw [List.append_assoc, ← hd, ← ht, ← start]
      exact htext

theorem ReadsString.unique {s str str' rest rest' : Bytes} (h : ReadsString s str rest)
    (h' : ReadsString s str' rest') : str = str' ∧ rest = rest' := by
  have he := (stringBody_of_reads h []).symm.trans (stringBody_of_reads h' [])
  exact Prod.mk.inj (Except.ok.inj he)

theorem Reads.unique {mode : Mode} {s rest rest' : Bytes} {v v' : Value} (h : Reads mode s v rest)
    (h' : Reads mode s v' rest') : v = v' ∧ rest = rest' := by
  have he := (run_complete h (Nat.lt_succ_self _)).symm.trans (run_complete h' (Nat.lt_succ_self _))
  exact Prod.mk.inj (Except.ok.inj he)

end OpenBambu.Json
