import OpenBambu.Rtsp.Auth

/-!
# Challenge parameters as they are written

A list of parameters in the syntax of RFC 2617: tokens and quoted strings, with blanks around the
separators as the server likes. What `parse_auth_params` reads of it is the list, but for quoted
strings: it keeps their escapes, trims them, and knows them only where the quote follows the `=` at
once.
-/

namespace OpenBambu.Rtsp

open OpenBambu.Foundation

def blank (c : Byte) : Bool := c = Ascii.sp || c = Ascii.tab

/-- A character of a token: visible, and no separator. -/
def tokenByte (c : Byte) : Bool :=
  0x21 ≤ c && c ≤ 0x7e && !(ascii "()<>@,;:\\\"/[]?=\x7b\x7d").contains c

structure Token where
  bytes : Bytes
  nonempty : bytes ≠ []
  chars : ∀ c ∈ bytes, tokenByte c = true

/-- A character of a quoted string, by itself or behind a backslash. -/
inductive QuotedItem where
  | plain (c : Byte) (quote : c ≠ Ascii.quote) (backslash : c ≠ Ascii.backslash)
  | pair (c : Byte)

def QuotedItem.text : QuotedItem → Bytes
  | .plain c _ _ => [c]
  | .pair c => [Ascii.backslash, c]

def QuotedItem.char : QuotedItem → Byte
  | .plain c _ _ => c
  | .pair c => c

inductive ParamValue where
  | token (t : Token)
  | quotedString (items : List QuotedItem)

def ParamValue.text : ParamValue → Bytes
  | .token t => t.bytes
  | .quotedString items => Ascii.quote :: (items.flatMap QuotedItem.text ++ [Ascii.quote])

/-- The value that is meant. -/
def ParamValue.value : ParamValue → Bytes
  | .token t => t.bytes
  | .quotedString items => items.map QuotedItem.char

structure Param where
  key : Token
  before : Bytes
  behind : Bytes
  value : ParamValue
  blanks : ∀ c ∈ before ++ behind, blank c = true

def Param.text (p : Param) : Bytes := p.key.bytes ++ p.before ++ equals :: (p.behind ++ p.value.text)

/-- The pair that is meant. -/
def Param.pair (p : Param) : Bytes × Bytes := (lc p.key.bytes, p.value.value)

/-- A list of parameters, each with the separators in front of it. -/
structure WrittenParams where
  params : List (Bytes × Param)
  trail : Bytes
  separators : ∀ s ∈ params.map Prod.fst ++ [trail], ∀ c ∈ s, separator c = true
  apart : ∀ s ∈ (params.map Prod.fst).tail, Ascii.comma ∈ s

def textOf (params : List (Bytes × Param)) (trail : Bytes) : Bytes :=
  params.flatMap (fun p => p.1 ++ p.2.text) ++ trail

def WrittenParams.text (w : WrittenParams) : Bytes := textOf w.params w.trail

def WrittenParams.pairs (w : WrittenParams) : List (Bytes × Bytes) := w.params.map fun p => p.2.pair

/-- A quoted string follows the `=` at once, has no backslash, and neither begins nor ends with white
space. -/
def Param.Readable (p : Param) : Prop :=
  ∀ items, p.value = .quotedString items → p.behind = [] ∧ Ascii.backslash ∉ items.flatMap QuotedItem.text ∧
    (∀ c ∈ (items.map QuotedItem.char).head?, isspace c = false) ∧
    ∀ c ∈ (items.map QuotedItem.char).getLast?, isspace c = false

/-! ## One parameter -/

theorem blank_facts {c : Byte} (h : blank c = true) :
    isspace c = true ∧ keyByte c = true ∧ separator c = true ∧ c ≠ Ascii.comma ∧ c ≠ Ascii.quote := by
  have hall : ∀ n : Fin 256, blank (UInt8.ofFin n) = true →
      isspace (UInt8.ofFin n) = true ∧ keyByte (UInt8.ofFin n) = true ∧ separator (UInt8.ofFin n) = true ∧
        UInt8.ofFin n ≠ Ascii.comma ∧ UInt8.ofFin n ≠ Ascii.quote := by decide +kernel
  exact hall c.toFin h

theorem tokenByte_facts {c : Byte} (h : tokenByte c = true) :
    isspace c = false ∧ keyByte c = true ∧ separator c = false ∧ c ≠ Ascii.comma ∧ c ≠ Ascii.quote := by
  have hall : ∀ n : Fin 256, tokenByte (UInt8.ofFin n) = true →
      isspace (UInt8.ofFin n) = false ∧ keyByte (UInt8.ofFin n) = true ∧ separator (UInt8.ofFin n) = false ∧
        UInt8.ofFin n ≠ Ascii.comma ∧ UInt8.ofFin n ≠ Ascii.quote := by decide +kernel
  exact hall c.toFin h

theorem Token.front (t : Token) : ∀ c ∈ t.bytes.head?, isspace c = false := fun c hc =>
  (tokenByte_facts (t.chars c (List.mem_of_mem_head? hc))).1

theorem Token.back (t : Token) : ∀ c ∈ t.bytes.getLast?, isspace c = false := fun c hc =>
  (tokenByte_facts (t.chars c (List.mem_of_mem_getLast? hc))).1

theorem trim_token (t : Token) {a b : Bytes} (ha : ∀ c ∈ a, blank c = true) (hb : ∀ c ∈ b, blank c = true) :
    trim (a ++ (t.bytes ++ b)) = t.bytes :=
  trim_between t.front t.back (fun c hc => (blank_facts (ha c hc)).1) fun c hc => (blank_facts (hb c hc)).1

/-- The key is read as it is meant, whatever stands behind the `=`. -/
theorem authParam_text (p : Param) (rest : Bytes) :
    authParam (p.text ++ rest) =
      ((lc p.key.bytes, trim (authValue (p.behind ++ (p.value.text ++ rest))).1),
        (authValue (p.behind ++ (p.value.text ++ rest))).2) := by
  have hkey : ∀ c ∈ p.key.bytes ++ p.before, keyByte c = true := by
    intro c hc
    rcases List.mem_append.mp hc with hc | hc
    · exact (tokenByte_facts (p.key.chars c hc)).2.1
    · exact (blank_facts (p.blanks c (List.mem_append_left _ hc))).2.1
  have htext : p.text ++ rest =
      (p.key.bytes ++ p.before) ++ equals :: (p.behind ++ (p.value.text ++ rest)) := by
    simp [Param.text]
  have htake : (p.text ++ rest).takeWhile keyByte = p.key.bytes ++ p.before := by
    rw [htext, List.takeWhile_append_of_pos hkey, List.takeWhile_cons_of_neg (by decide), List.append_nil]
  have hdrop : (p.text ++ rest).dropWhile keyByte = equals :: (p.behind ++ (p.value.text ++ rest)) := by
    rw [htext, List.dropWhile_append_of_pos hkey, List.dropWhile_cons_of_neg (by decide)]
  have htrim : trim (p.key.bytes ++ p.before) = p.key.bytes :=
    @trim_token p.key [] p.before (by simp) fun c hc => p.blanks c (List.mem_append_left _ hc)
  rw [authParam, htake, hdrop, htrim]
  rfl

/-- What stands in front of the next comma are blanks. -/
def BlanksBehind (rest : Bytes) : Prop := ∀ c ∈ rest.takeWhile (· ≠ Ascii.comma), blank c = true

theorem BlanksBehind.skip {rest : Bytes} (h : BlanksBehind rest) :
    (rest.dropWhile (· ≠ Ascii.comma)).dropWhile separator = rest.dropWhile separator := by
  conv_rhs => rw [← List.takeWhile_append_dropWhile (p := (· ≠ Ascii.comma)) (l := rest)]
  rw [List.dropWhile_append_of_pos fun c hc => (blank_facts (h c hc)).2.2.1]

theorem authValue_unquoted {s : Bytes} (h : s.head? ≠ some Ascii.quote) :
    authValue s = (s.takeWhile (· ≠ Ascii.comma), s.dropWhile (· ≠ Ascii.comma)) := if_neg h

theorem authValue_token (t : Token) {blanks : Bytes} (hb : ∀ c ∈ blanks, blank c = true) {rest : Bytes}
    (hr : BlanksBehind rest) :
    trim (authValue (blanks ++ (t.bytes ++ rest))).1 = t.bytes ∧
      ((authValue (blanks ++ (t.bytes ++ rest))).2).dropWhile separator = rest.dropWhile separator := by
  have hplain : ∀ c ∈ blanks ++ t.bytes, c ≠ Ascii.comma ∧ c ≠ Ascii.quote := by
    intro c hc
    rcases List.mem_append.mp hc with hc | hc
    · exact (blank_facts (hb c hc)).2.2.2
    · exact (tokenByte_facts (t.chars c hc)).2.2.2
  have hhead : (blanks ++ (t.bytes ++ rest)).head? ≠ some Ascii.quote := by
    obtain ⟨c, s, hs⟩ := List.exists_cons_of_ne_nil
      (show blanks ++ t.bytes ≠ [] from List.append_ne_nil_of_right_ne_nil _ t.nonempty)
    rw [← List.append_assoc, hs]
    exact fun h => (hplain c (by rw [hs]; exact List.mem_cons_self)).2 (Option.some.inj h)
  have hcomma : ∀ c ∈ blanks ++ t.bytes, decide (c ≠ Ascii.comma) = true := fun c hc =>
    decide_eq_true (hplain c hc).1
  rw [authValue_unquoted hhead, ← List.append_assoc, List.takeWhile_append_of_pos hcomma,
    List.dropWhile_append_of_pos hcomma, List.append_assoc]
  exact ⟨trim_token t hb hr, hr.skip⟩

/-! ## Quoted strings -/

theorem quotedText_quote (s : Bytes) : quotedText (Ascii.quote :: s) = ([], Ascii.quote :: s) := by
  cases s <;> rfl

theorem quotedText_plain {c : Byte} (hq : c ≠ Ascii.quote) (hb : c ≠ Ascii.backslash) (s : Bytes) :
    quotedText (c :: s) = (c :: (quotedText s).1, (quotedText s).2) := by
  cases s with
  | nil => simp only [quotedText, if_neg hq]
  | cons d s => rw [quotedText, if_neg hq, if_neg hb]

theorem quotedText_pair (c : Byte) (s : Bytes) :
    quotedText (Ascii.backslash :: c :: s) = (Ascii.backslash :: c :: (quotedText s).1, (quotedText s).2) := by
  rw [quotedText, if_neg (by decide), if_pos rfl]

/-- The end of a quoted string is found, whatever is in it. -/
theorem quotedText_items (items : List QuotedItem) (rest : Bytes) :
    quotedText (items.flatMap QuotedItem.text ++ Ascii.quote :: rest) =
      (items.flatMap QuotedItem.text, Ascii.quote :: rest) := by
  induction items with
  | nil => exact quotedText_quote rest
  | cons item items ih =>
      rw [List.flatMap_cons, List.append_assoc]
      cases item with
      | plain c hq hb =>
          simp only [QuotedItem.text, List.cons_append, List.nil_append]
          rw [quotedText_plain hq hb, ih]
      | pair c =>
          simp only [QuotedItem.text, List.cons_append, List.nil_append]
          rw [quotedText_pair, ih]

theorem length_items (items : List QuotedItem) :
    items.length ≤ (items.flatMap QuotedItem.text).length ∧
      (Ascii.backslash ∈ items.flatMap QuotedItem.text →
        items.length < (items.flatMap QuotedItem.text).length) := by
  induction items with
  | nil => simp
  | cons item items ih =>
      rw [List.flatMap_cons, List.length_append, List.length_cons]
      cases item with
      | plain c hq hb =>
          refine ⟨by simp only [QuotedItem.text, List.length_singleton]; omega, fun h => ?_⟩
          have hmem : Ascii.backslash ∈ items.flatMap QuotedItem.text := by
            rcases List.mem_append.mp h with h | h
            · exact absurd (List.mem_singleton.mp h).symm hb
            · exact h
          have := ih.2 hmem
          simp only [QuotedItem.text, List.length_singleton]
          omega
      | pair c =>
          simp only [QuotedItem.text, List.length_cons, List.length_nil]
          exact ⟨by omega, fun _ => by omega⟩

theorem text_eq_chars {items : List QuotedItem} (h : Ascii.backslash ∉ items.flatMap QuotedItem.text) :
    items.flatMap QuotedItem.text = items.map QuotedItem.char := by
  induction items with
  | nil => rfl
  | cons item items ih =>
      rw [List.flatMap_cons, List.mem_append, not_or] at h
      rw [List.flatMap_cons, List.map_cons, ih h.2]
      cases item with
      | plain c hq hb => rfl
      | pair c => exact absurd List.mem_cons_self h.1

theorem head_text (items : List QuotedItem) {c : Byte} (h : c ∈ (items.flatMap QuotedItem.text).head?) :
    c = Ascii.backslash ∨ c ∈ (items.map QuotedItem.char).head? := by
  cases items with
  | nil => cases h
  | cons item items =>
      cases item with
      | plain d hq hb => exact Or.inr h
      | pair d => exact Or.inl (Option.some.inj h).symm

theorem getLast_text (items : List QuotedItem) :
    (items.flatMap QuotedItem.text).getLast? = (items.map QuotedItem.char).getLast? := by
  cases items using List.reverseRecOn with
  | nil => rfl
  | append_singleton items item =>
      rw [List.flatMap_append, List.map_append, List.getLast?_append, List.getLast?_append]
      cases item <;> rfl

theorem comma_mem_text {items : List QuotedItem} (h : Ascii.comma ∈ items.flatMap QuotedItem.text) :
    Ascii.comma ∈ items.map QuotedItem.char := by
  obtain ⟨item, hitem, hc⟩ := List.mem_flatMap.mp h
  refine List.mem_map.mpr ⟨item, hitem, ?_⟩
  cases item with
  | plain c hq hb => exact (List.mem_singleton.mp hc).symm
  | pair c =>
      rcases List.mem_cons.mp hc with hc | hc
      · exact absurd hc (by decide)
      · exact (List.mem_singleton.mp hc).symm

/-- What stands between the quotes, trimmed, is what is meant exactly if it has no escape and no white
space at its ends. -/
theorem trim_items_iff (items : List QuotedItem) :
    trim (items.flatMap QuotedItem.text) = items.map QuotedItem.char ↔
      Ascii.backslash ∉ items.flatMap QuotedItem.text ∧
        (∀ c ∈ (items.map QuotedItem.char).head?, isspace c = false) ∧
        ∀ c ∈ (items.map QuotedItem.char).getLast?, isspace c = false := by
  constructor
  · intro h
    have hfront := trim_head (items.flatMap QuotedItem.text)
    have hback := trim_getLast (items.flatMap QuotedItem.text)
    obtain ⟨a, b, hab, hspace⟩ := trim_decompose (items.flatMap QuotedItem.text)
    rw [h] at hfront hback hab
    refine ⟨fun hslash => ?_, hfront, hback⟩
    have ha : a = [] := by
      cases a with
      | nil => rfl
      | cons c a =>
          have hc := hspace c List.mem_cons_self
          rcases @head_text items c (by rw [hab]; rfl) with rfl | hin
          · exact absurd hc (by decide)
          · rw [hfront c hin] at hc
            cases hc
    have hb : b = [] := by
      cases b using List.reverseRecOn with
      | nil => rfl
      | append_singleton b c =>
          have hc := hspace c (by simp)
          have hlast : c ∈ (items.map QuotedItem.char).getLast? := by
            rw [← getLast_text, hab, ← List.append_assoc, ← List.append_assoc, List.getLast?_concat]
            rfl
          rw [hback c hlast] at hc
          cases hc
    rw [ha, hb, List.nil_append, List.append_nil] at hab
    have hlen := (length_items items).2 hslash
    rw [hab, List.length_map] at hlen
    omega
  · rintro ⟨hslash, hfront, hback⟩
    rw [text_eq_chars hslash]
    exact trim_self hfront hback

/-- With a blank in front of its quote a string is read up to the next comma, quotes and all. -/
theorem trim_quoted_behind_blank (items : List QuotedItem) {blanks : Bytes} (hne : blanks ≠ [])
    (hb : ∀ c ∈ blanks, blank c = true) {rest : Bytes} (hr : BlanksBehind rest) :
    trim (authValue (blanks ++ ((ParamValue.quotedString items).text ++ rest))).1 ≠
      items.map QuotedItem.char := by
  have hhead : (blanks ++ ((ParamValue.quotedString items).text ++ rest)).head? ≠ some Ascii.quote := by
    obtain ⟨c, s, rfl⟩ := List.exists_cons_of_ne_nil hne
    exact fun h => (blank_facts (hb c List.mem_cons_self)).2.2.2.2 (Option.some.inj h)
  rw [authValue_unquoted hhead]
  by_cases hcomma : Ascii.comma ∈ items.flatMap QuotedItem.text
  · intro h
    have hin : Ascii.comma ∈ trim ((blanks ++ ((ParamValue.quotedString items).text ++ rest)).takeWhile
        (· ≠ Ascii.comma)) := by
      rw [h]
      exact comma_mem_text hcomma
    obtain ⟨a, b, hab, -⟩ := trim_decompose ((blanks ++ ((ParamValue.quotedString items).text ++ rest)).takeWhile
      (· ≠ Ascii.comma))
    have hin' := List.mem_append_right a (List.mem_append_left b hin)
    rw [← hab] at hin'
    exact absurd (List.mem_takeWhile_imp hin') (by decide)
  · have hplain : ∀ c ∈ blanks ++ (ParamValue.quotedString items).text, decide (c ≠ Ascii.comma) = true := by
      intro c hc
      refine decide_eq_true fun heq => ?_
      subst heq
      rcases List.mem_append.mp hc with hc | hc
      · exact (blank_facts (hb _ hc)).2.2.2.1 rfl
      · simp only [ParamValue.text, List.mem_cons, List.mem_append, List.not_mem_nil, or_false] at hc
        rcases hc with hc | hc | hc
        · exact absurd hc (by decide)
        · exact hcomma hc
        · exact absurd hc (by decide)
    have hspace : ∀ c, blank c = true → isspace c = true := fun c hc => (blank_facts hc).1
    rw [← List.append_assoc, List.takeWhile_append_of_pos hplain, List.append_assoc,
      trim_between (s := (ParamValue.quotedString items).text) ?_ ?_ (fun c hc => hspace c (hb c hc))
        fun c hc => hspace c (hr c hc)]
    · intro h
      have hlen := congrArg List.length h
      have := (length_items items).1
      simp only [ParamValue.text, List.length_cons, List.length_append, List.length_map, List.length_nil] at hlen
      omega
    · intro c hc
      obtain rfl := Option.some.inj hc
      decide
    · intro c hc
      rw [ParamValue.text, ← List.cons_append, List.getLast?_concat] at hc
      obtain rfl := Option.some.inj hc
      decide

/-! ## The list -/

theorem authLoop_fuel {fuel fuel' : Nat} {s : Bytes} (h : s.length < fuel) (h' : s.length < fuel') :
    authLoop fuel s = authLoop fuel' s := by
  induction fuel generalizing fuel' s with
  | zero => omega
  | succ fuel ih =>
      cases fuel' with
      | zero => omega
      | succ fuel' =>
          rw [authLoop, authLoop]
          split_ifs with hs
          · rfl
          · have hturn := authParam_length hs (head_dropWhile separator s)
            have hskip := (List.dropWhile_suffix separator (l := s)).length_le
            rw [@ih fuel' (authParam (s.dropWhile separator)).2 (by omega) (by omega)]

theorem parseAuthParams_skip (s : Bytes) : parseAuthParams s = parseAuthParams (s.dropWhile separator) := by
  have hskip := (List.dropWhile_suffix separator (l := s)).length_le
  have htwice : (s.dropWhile separator).dropWhile separator = s.dropWhile separator :=
    dropWhile_head (head_dropWhile separator s)
  rw [parseAuthParams, parseAuthParams,
    @authLoop_fuel ((s.dropWhile separator).length + 1) (s.length + 1) _ (by omega) (by omega), authLoop,
    authLoop, htwice]

theorem parseAuthParams_all {s : Bytes} (h : ∀ c ∈ s, separator c = true) : parseAuthParams s = .ok [] := by
  rw [parseAuthParams_skip, List.dropWhile_eq_nil_iff.mpr h]
  rfl

/-- The first parameter of a list, and the rest. -/
theorem parseAuthParams_step {s : Bytes} (hs : s ≠ []) (hsep : ∀ c ∈ s.head?, separator c = false) :
    ∃ more, parseAuthParams (authParam s).2 = .ok more ∧ parseAuthParams s = .ok ((authParam s).1 :: more) := by
  obtain ⟨more, hmore⟩ := parseAuthParams_ok (authParam s).2
  refine ⟨more, hmore, ?_⟩
  have hturn := authParam_length hs hsep
  rw [parseAuthParams] at hmore
  rw [parseAuthParams, authLoop, dropWhile_head hsep, if_neg hs,
    @authLoop_fuel s.length ((authParam s).2.length + 1) _ (by omega) (by omega), hmore]
  rfl

theorem Param.text_head (p : Param) (rest : Bytes) :
    p.text ++ rest ≠ [] ∧ ∀ c ∈ (p.text ++ rest).head?, separator c = false := by
  obtain ⟨c, s, hs⟩ := List.exists_cons_of_ne_nil p.key.nonempty
  have htext : p.text ++ rest = c :: (s ++ p.before ++ equals :: (p.behind ++ p.value.text) ++ rest) := by
    simp [Param.text, hs]
  rw [htext]
  refine ⟨List.cons_ne_nil _ _, fun d hd => ?_⟩
  obtain rfl := Option.some.inj hd
  exact (tokenByte_facts (p.key.chars c (by rw [hs]; exact List.mem_cons_self))).2.2.1

/-- The value is read as it is meant exactly if the parameter is readable, and then the rest is read as
if it stood alone. -/
theorem Param.value_iff (p : Param) {rest : Bytes} (hr : BlanksBehind rest) :
    (trim (authValue (p.behind ++ (p.value.text ++ rest))).1 = p.value.value ↔ p.Readable) ∧
      (p.Readable → ((authValue (p.behind ++ (p.value.text ++ rest))).2).dropWhile separator =
        rest.dropWhile separator) := by
  have hblanks : ∀ c ∈ p.behind, blank c = true := fun c hc => p.blanks c (List.mem_append_right _ hc)
  unfold Param.Readable
  cases hv : p.value with
  | token t =>
      obtain ⟨hvalue, hrest⟩ := authValue_token t hblanks hr
      exact ⟨iff_of_true hvalue (fun items h => by cases h), fun _ => hrest⟩
  | quotedString items =>
      simp only [ParamValue.quotedString.injEq, forall_eq']
      by_cases hat : p.behind = []
      · have hread : authValue (p.behind ++ ((ParamValue.quotedString items).text ++ rest)) =
            (items.flatMap QuotedItem.text, rest) := by
          have hquoted := quotedText_items items rest
          have htail : (p.behind ++ ((ParamValue.quotedString items).text ++ rest)).tail =
              items.flatMap QuotedItem.text ++ Ascii.quote :: rest := by
            simp [hat, ParamValue.text]
          rw [authValue, if_pos (by rw [hat]; rfl), htail, hquoted]
          rfl
        rw [hread]
        exact ⟨(trim_items_iff items).trans ⟨fun h => ⟨hat, h⟩, fun h => h.2⟩, fun _ => rfl⟩
      · refine ⟨iff_of_false (trim_quoted_behind_blank items hat hblanks hr) (fun h => hat h.1), ?_⟩
        exact fun h => absurd h.1 hat

theorem blanksBehind_of_comma {s : Bytes} (hs : ∀ c ∈ s, separator c = true) (hcomma : Ascii.comma ∈ s) (t : Bytes) :
    BlanksBehind (s ++ t) := by
  induction s with
  | nil => cases hcomma
  | cons c s ih =>
      by_cases hc : c = Ascii.comma
      · rw [BlanksBehind, List.cons_append, List.takeWhile_cons_of_neg (by simpa using hc)]
        simp
      · have hin : Ascii.comma ∈ s := (List.mem_cons.mp hcomma).resolve_left fun h => hc h.symm
        have hblank : blank c = true := by
          have := hs c List.mem_cons_self
          simp only [separator, blank, Bool.or_eq_true, decide_eq_true_eq] at this ⊢
          tauto
        rw [BlanksBehind, List.cons_append, List.takeWhile_cons_of_pos (by simpa using hc)]
        exact List.forall_mem_cons.mpr ⟨hblank, ih (fun d hd => hs d (List.mem_cons_of_mem _ hd)) hin⟩

theorem blanksBehind_of_separators {s : Bytes} (hs : ∀ c ∈ s, separator c = true) : BlanksBehind s := by
  intro c hc
  have hne : c ≠ Ascii.comma := by simpa using List.mem_takeWhile_imp hc
  have := hs c ((List.takeWhile_prefix _).subset hc)
  simp only [separator, blank, Bool.or_eq_true, decide_eq_true_eq] at this ⊢
  tauto

theorem WrittenParams.ok_iff (params : List (Bytes × Param)) (trail : Bytes)
    (hsep : ∀ s ∈ params.map Prod.fst ++ [trail], ∀ c ∈ s, separator c = true)
    (hapart : ∀ s ∈ (params.map Prod.fst).tail, Ascii.comma ∈ s) :
    parseAuthParams (textOf params trail) = .ok (params.map fun p => p.2.pair) ↔
      ∀ p ∈ params, p.2.Readable := by
  induction params with
  | nil =>
      have hall := parseAuthParams_all (hsep trail (by simp))
      exact iff_of_true hall (by simp)
  | cons head params ih =>
      obtain ⟨sep, p⟩ := head
      have hlead := hsep sep (by simp)
      have hmore : ∀ s ∈ params.map Prod.fst ++ [trail], ∀ c ∈ s, separator c = true := fun s hs =>
        hsep s (by simp only [List.map_cons, List.cons_append]; exact List.mem_cons_of_mem _ hs)
      have hcommas : ∀ s ∈ params.map Prod.fst, Ascii.comma ∈ s := hapart
      have hbehindComma : BlanksBehind (textOf params trail) := by
        cases params with
        | nil => exact blanksBehind_of_separators (hmore trail (by simp))
        | cons next params =>
            have heq : textOf (next :: params) trail =
                next.1 ++ (next.2.text ++ textOf params trail) := by
              simp [textOf]
            rw [heq]
            exact blanksBehind_of_comma (hmore next.1 (by simp)) (hcommas next.1 (by simp)) _
      have hrest := ih hmore fun s hs => hcommas s (List.mem_of_mem_tail hs)
      have htext : textOf ((sep, p) :: params) trail = sep ++ (p.text ++ textOf params trail) := by
        simp [textOf]
      obtain ⟨hne, hhead⟩ := p.text_head (textOf params trail)
      obtain ⟨more, hbehind, hfirst⟩ := parseAuthParams_step hne hhead
      obtain ⟨hvalue, hskip⟩ := p.value_iff hbehindComma
      rw [htext, parseAuthParams_skip, List.dropWhile_append_of_pos hlead, dropWhile_head hhead, hfirst,
        List.forall_mem_cons, ← hrest, ← hvalue]
      rw [authParam_text] at hbehind ⊢
      simp only at hbehind
      simp only [List.map_cons, Except.ok.injEq, List.cons.injEq, Param.pair, Prod.mk.injEq, true_and]
      refine and_congr_right fun hv => ?_
      rw [parseAuthParams_skip, hskip (hvalue.mp hv), ← parseAuthParams_skip] at hbehind
      rw [hbehind, Except.ok.injEq]

/-- For every list of parameters that is written: the loop ends, and it gives the list exactly if every
quoted string is readable; then the realm and the nonce of a challenge with them are the real ones. -/
theorem parse_auth_params_iff (w : WrittenParams) :
    (∃ p, parseAuthParams w.text = .ok p) ∧
      (parseAuthParams w.text = .ok w.pairs ↔ ∀ p ∈ w.params, p.2.Readable) ∧
      ∀ resp st scheme, lc scheme = ascii "digest " →
        resp.header (ascii "www-authenticate") = scheme ++ w.text → (∀ p ∈ w.params, p.2.Readable) →
        ∃ adopted st', adoptChallenge resp st = .ok (adopted, st') ∧
          st'.digestRealm = valueOr w.pairs (ascii "realm") [] ∧
          st'.digestNonce = valueOr w.pairs (ascii "nonce") [] := by
  have hiff := WrittenParams.ok_iff w.params w.trail w.separators w.apart
  refine ⟨parseAuthParams_ok _, hiff, fun resp st scheme hscheme hheader hreadable => ?_⟩
  have hlen : scheme.length = 7 := by
    have := congrArg List.length hscheme
    rwa [lc, List.length_map] at this
  have hparams : digestParams resp = some w.pairs := by
    have hlist : parseAuthParams w.text = .ok w.pairs := hiff.mpr hreadable
    rw [digestParams, hheader, ← hlen, List.take_left, List.drop_left, if_pos hscheme, hlist]
    rfl
  rw [adoptChallenge_digest hparams, keepParams_clear]
  split_ifs
  · exact ⟨_, _, rfl, rfl, rfl⟩
  · exact ⟨_, _, rfl, rfl, rfl⟩

/-- `realm= "a, b", nonce="n"`. -/
def realmBehindBlank : WrittenParams where
  params :=
    [([],
        { key := ⟨ascii "realm", by decide +kernel, by decide +kernel⟩
          before := []
          behind := [Ascii.sp]
          value := .quotedString
            [.plain 0x61 (by decide) (by decide), .plain Ascii.comma (by decide) (by decide),
              .plain Ascii.sp (by decide) (by decide), .plain 0x62 (by decide) (by decide)]
          blanks := by decide +kernel }),
      ([Ascii.comma, Ascii.sp],
        { key := ⟨ascii "nonce", by decide +kernel, by decide +kernel⟩
          before := []
          behind := []
          value := .quotedString [.plain 0x6e (by decide) (by decide)]
          blanks := by decide +kernel })]
  trail := []
  separators := by decide +kernel
  apart := by decide +kernel

/-- The comma in the quoted realm ends the value. -/
theorem parse_auth_params_splits :
    realmBehindBlank.text = ascii "realm= \"a, b\", nonce=\"n\"" ∧
      parseAuthParams realmBehindBlank.text =
        .ok [(ascii "realm", ascii "\"a"), (ascii "b\"", []), (ascii "nonce", ascii "n")] ∧
      ¬ parseAuthParams realmBehindBlank.text = .ok realmBehindBlank.pairs := by
  refine ⟨by decide +kernel, by decide +kernel, by decide +kernel⟩

end OpenBambu.Rtsp
