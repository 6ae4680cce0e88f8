import OpenBambu.Json.RoundTrip
import OpenBambu.Tunnel.Session

/-!
# Control messages on the wire

A message of Studio is the text of a JSON object, optionally followed by a blank
line and a binary blob. `send_abi_json` edits it as raw text. This module says for
which messages the body on the wire splits again into an object with the same
members and `mtype`, and into the same blob.
-/

namespace OpenBambu.Tunnel

open OpenBambu.Foundation OpenBambu.Json

/-- What Studio passes to `Bambu_SendMessage`. -/
def ctrlMessage (json : Bytes) : Option Bytes → Bytes
  | none => json
  | some blob => json ++ Ascii.lf :: Ascii.lf :: blob

def mtypeKey : Bytes := ascii "mtype"

def mtypeValue : Value := .number (kMtypeCtrlJson : ℚ)

/-- The body splits into a JSON text with the members of `o` and `mtype`, and the blob. -/
def Carries (body : Bytes) (o : Object) (blob : Option Bytes) : Prop :=
  ∃ json bin, splitJsonPrefix body = some (json, bin) ∧
    parse json = .ok (.object (assign o mtypeKey mtypeValue)) ∧ bin = blob.getD []

/-- The white space at the end of a text. -/
def trailing (s : Bytes) : Bytes := s.rtakeWhile isWs

/-- The messages that come through: the object starts at the first byte; it is nonempty, or
starts with an `mtype` that is the right one already; and no white space that belongs to the
text or to the blob gets lost or in between. -/
def WrapsCleanly (json : Bytes) (o : Object) (blob : Option Bytes) : Prop :=
  json.head? = some Ascii.lbrace ∧
    if mtypePrefix <+: json then
      lookup o mtypeKey = some mtypeValue ∧
        match blob with
        | none => trailing json = [] ∨ trailing json = [Ascii.lf, Ascii.lf] ∨
            trailing json = [Ascii.cr, Ascii.lf, Ascii.cr, Ascii.lf]
        | some _ => trailing json = []
    else
      o ≠ [] ∧
        match blob with
        | none => True
        | some blob => blob = [] ∨ (trailing json = [] ∧ trailing blob = [])

/-! ## Trimming -/

theorem rdropWhile_behind {p : Byte → Bool} {x : Byte} (hx : p x = false) (a b : Bytes) :
    (a ++ x :: b).rdropWhile p = a ++ x :: b.rdropWhile p := by
  induction b using List.reverseRecOn with
  | nil => exact List.rdropWhile_concat_neg p a x (by simp [hx])
  | append_singleton b y ih =>
      rw [← List.cons_append, ← List.append_assoc]
      by_cases hy : p y = true
      · rw [List.rdropWhile_concat_pos p _ y hy, List.rdropWhile_concat_pos p _ y hy, ih]
      · rw [List.rdropWhile_concat_neg p _ y hy, List.rdropWhile_concat_neg p _ y hy]
        simp

theorem rtakeWhile_behind {p : Byte → Bool} {x : Byte} (hx : p x = false) {b : Bytes}
    (hb : ∀ y ∈ b, p y = true) (a : Bytes) : (a ++ x :: b).rtakeWhile p = b := by
  have h := List.rdropWhile_append_rtakeWhile (p := p) (l := a ++ x :: b)
  rw [rdropWhile_behind hx, List.rdropWhile_eq_nil_iff.mpr hb] at h
  have h' : (a ++ [x]) ++ (a ++ x :: b).rtakeWhile p = (a ++ [x]) ++ b := by
    rw [h]
    simp
  exact List.append_cancel_left h'

theorem prefix_before {P a b : Bytes} {x : Byte} (hx : x ∉ P) : P <+: a ++ x :: b ↔ P <+: a := by
  constructor
  · rintro ⟨t, ht⟩
    rcases List.append_eq_append_iff.mp ht with ⟨m, ha, _⟩ | ⟨m, hP, hm⟩
    · exact ⟨m, ha.symm⟩
    · cases m with
      | nil => exact ⟨[], by simpa using hP⟩
      | cons y m =>
          obtain ⟨rfl, _⟩ := List.cons.inj hm
          exact absurd (by rw [hP]; simp) hx
  · rintro ⟨t, rfl⟩
    exact ⟨t ++ x :: b, by simp⟩

/-! ## The separator -/

theorem skipSeparator_nil_iff {z : Bytes} :
    skipSeparator z = [] ↔
      z = [] ∨ z = [Ascii.lf, Ascii.lf] ∨ z = [Ascii.cr, Ascii.lf, Ascii.cr, Ascii.lf] := by
  unfold skipSeparator
  constructor
  · intro h
    split_ifs at h with h1 h2
    · obtain ⟨t, rfl⟩ := h1
      obtain rfl : t = [] := h
      exact Or.inr (Or.inl rfl)
    · obtain ⟨t, rfl⟩ := h2
      obtain rfl : t = [] := h
      exact Or.inr (Or.inr rfl)
    · exact Or.inl h
  · rintro (rfl | rfl | rfl) <;> decide

/-- Behind white space other than none the blob does not come out as it went in. -/
theorem skipSeparator_blob_iff {z blob : Bytes} :
    skipSeparator (z ++ Ascii.lf :: Ascii.lf :: blob) = blob ↔ z = [] := by
  constructor
  · intro h
    unfold skipSeparator at h
    have hlen := congrArg List.length h
    split_ifs at h hlen with h1 h2
    · rw [List.length_drop, List.length_append, List.length_cons, List.length_cons] at hlen
      exact List.length_eq_zero_iff.mp (by omega)
    · rw [List.length_drop, List.length_append, List.length_cons, List.length_cons] at hlen
      obtain ⟨t, ht⟩ := h2
      have htotal := congrArg List.length ht
      simp only [List.length_append, List.length_cons, List.length_nil] at htotal
      obtain ⟨y, y', rfl⟩ := List.length_eq_two.mp (show z.length = 2 by omega)
      -- the third byte is the first of the blank line
      simp only [List.cons_append, List.nil_append, List.cons.injEq] at ht
      exact absurd ht.2.2.1 (by decide)
    · rw [List.length_append, List.length_cons, List.length_cons] at hlen
      omega
  · rintro rfl
    rw [List.nil_append, skipSeparator, if_pos ⟨blob, rfl⟩]
    rfl

/-! ## Messages that come apart again -/

section Wrapped

variable {o : Object} {c : Bytes}

theorem carries_iff_of_split {body json bin : Bytes} {blob : Option Bytes}
    (h : splitJsonPrefix body = some (json, bin)) :
    Carries body o blob ↔
      parse json = .ok (.object (assign o mtypeKey mtypeValue)) ∧ bin = blob.getD [] := by
  constructor
  · rintro ⟨json', bin', h', hp, hb⟩
    obtain ⟨rfl, rfl⟩ := Prod.mk.inj (Option.some.inj (h.symm.trans h'))
    exact ⟨hp, hb⟩
  · rintro ⟨hp, hb⟩
    exact ⟨json, bin, h, hp, hb⟩

theorem parse_braces (h : ObjectText o c) :
    parse (Ascii.lbrace :: (c ++ [Ascii.rbrace])) = .ok (.object o) :=
  parse_ok_iff.mpr ⟨[], (h.reads []).value_behind (skipWs_skipWs _), rfl⟩

/-- The start that `wrap_ctrl_abi` gives a message, behind the brace. -/
def mtypeMember : Bytes :=
  Ascii.quote :: (mtypeKey.flatMap escapeByte ++ Ascii.quote ::
    (Ascii.colon :: (decimal kMtypeCtrlJson ++ [Ascii.comma])))

theorem wrapped_start (rest : Bytes) :
    mtypePrefix ++ Ascii.colon :: decimal kMtypeCtrlJson ++ Ascii.comma :: rest =
      Ascii.lbrace :: (mtypeMember ++ rest) := by
  have h : mtypePrefix ++ Ascii.colon :: decimal kMtypeCtrlJson ++ [Ascii.comma] =
      Ascii.lbrace :: mtypeMember := by decide
  rw [← List.cons_append, ← h]
  simp

theorem exact_mtype : Exact (kMtypeCtrlJson : Int) :=
  ⟨Binary64.representable_of_lt (by decide), by decide⟩

theorem reads_mtype (rest : Bytes) :
    Reads .value (decimal kMtypeCtrlJson ++ Ascii.comma :: rest) mtypeValue (Ascii.comma :: rest) :=
  reads_signed exact_mtype (delimited_cons (by decide) rest)

theorem mtypeMember_append (rest : Bytes) :
    mtypeMember ++ rest = Ascii.quote :: (mtypeKey.flatMap escapeByte ++ Ascii.quote ::
      (Ascii.colon :: (decimal kMtypeCtrlJson ++ Ascii.comma :: rest))) := by
  simp [mtypeMember]

theorem reads_wrapped {rest tail : Bytes} {w : Value}
    (h : Reads (.members [(mtypeKey, mtypeValue)]) rest w tail) :
    Reads (.members []) (mtypeMember ++ rest) w tail := by
  rw [mtypeMember_append]
  exact .member rfl (readsString_escape _ _) rfl (reads_mtype rest) rfl h

/-- Behind the comma the parser needs another member. -/
theorem wrapped_members {rest tail : Bytes} {w : Value}
    (h : Reads (.members []) (mtypeMember ++ rest) w tail) :
    ∃ t, skipWs rest = Ascii.quote :: t := by
  rw [mtypeMember_append] at h
  cases h with
  | member start text colon inner comma more =>
      obtain rfl := (List.cons.inj start).2
      obtain ⟨-, rfl⟩ := text.unique (readsString_escape _ _)
      obtain rfl := (List.cons.inj colon).2
      obtain ⟨-, rfl⟩ := inner.unique (reads_mtype rest)
      obtain rfl := (List.cons.inj comma).2
      exact more.members_quote
  | lastMember start text colon inner stop =>
      obtain rfl := (List.cons.inj start).2
      obtain ⟨-, rfl⟩ := text.unique (readsString_escape _ _)
      obtain rfl := (List.cons.inj colon).2
      obtain ⟨-, rfl⟩ := inner.unique (reads_mtype rest)
      exact absurd (List.cons.inj stop).1 (by decide)

/-- A wrapped object is an object again unless it was empty: then a comma is left over. -/
theorem parse_wrapped (h : ObjectText o c) :
    parse (Ascii.lbrace :: (mtypeMember ++ (c ++ [Ascii.rbrace]))) =
        .ok (.object (assign o mtypeKey mtypeValue)) ↔ o ≠ [] := by
  have hskip : skipWs (mtypeMember ++ (c ++ [Ascii.rbrace])) =
      mtypeMember ++ (c ++ [Ascii.rbrace]) := rfl
  have hhead : (mtypeMember ++ (c ++ [Ascii.rbrace])).head? ≠ some Ascii.rbrace :=
    fun h => absurd (Option.some.inj h) (by decide)
  constructor
  · intro hp hnil
    obtain ⟨rest, hr, _⟩ := parse_ok_iff.mp hp
    have hr := hr.value_behind (skipWs_skipWs _).symm
    generalize Value.object (assign o mtypeKey mtypeValue) = w at hr
    have hw : Reads (.members []) (mtypeMember ++ (c ++ [Ascii.rbrace])) w rest := by
      cases hr with
      | string start | emptyArray start | array start =>
          exact absurd (List.cons.inj start).1 (by decide)
      | emptyObject start stop =>
          obtain rfl := (List.cons.inj start).2
          exact absurd (List.cons.inj stop).1 (by decide)
      | object start nonempty inner =>
          obtain rfl := (List.cons.inj start).2
          exact inner
      | scalar start hq hb => exact absurd (List.cons.inj start).1.symm hb
    obtain ⟨t, ht⟩ := wrapped_members hw
    rw [skipWs_append (h.blank hnil)] at ht
    exact absurd (List.cons.inj ht).1 (by decide)
  · intro hne
    have hr := reads_wrapped (h.members hne mtypeKey mtypeValue [])
    exact parse_ok_iff.mpr ⟨[], .object rfl (by rw [hskip]; exact hhead) (by rw [hskip]; exact hr), rfl⟩

theorem balanced_wrapped (h : Balanced c) : Balanced (mtypeMember ++ c) := by
  rw [mtypeMember_append]
  have hplain : ∀ b ∈ Ascii.colon :: (decimal kMtypeCtrlJson ++ [Ascii.comma]), Plain b := by decide +kernel
  have hrest := (balanced_of_plain hplain).append h
  have htext : ∀ tail, ReadsString (mtypeKey.flatMap escapeByte ++ [Ascii.quote] ++ tail) mtypeKey tail :=
    fun tail => by simpa using readsString_escape mtypeKey tail
  simpa using Balanced.string htext hrest

end Wrapped

/-- A message that starts with white space is passed on as it is. -/
theorem wrapCtrlAbi_blank {b : Byte} (hb : isWs b = true) (t : Bytes) :
    wrapCtrlAbi (b :: t) = b :: t := by
  unfold wrapCtrlAbi
  simp only
  split_ifs with hp
  · rfl
  · split
    · rfl
    · rename_i c rest htrim
      have hpre : c :: rest <+: b :: t := htrim ▸ List.rdropWhile_prefix isWs (b :: t)
      obtain ⟨_, hcons⟩ := hpre
      obtain ⟨rfl, _⟩ := List.cons.inj hcons
      rw [if_neg]
      rintro rfl
      exact absurd hb (by decide)

/-- What reaches the wire of a message that starts with its object, whatever follows. -/
theorem wrapCtrlAbi_object (c suffix : Bytes) :
    wrapCtrlAbi (Ascii.lbrace :: (c ++ Ascii.rbrace :: suffix)) =
      if mtypePrefix <+: Ascii.lbrace :: c then Ascii.lbrace :: (c ++ Ascii.rbrace :: suffix)
      else Ascii.lbrace :: (mtypeMember ++ c ++ Ascii.rbrace :: suffix.rdropWhile isWs) := by
  have htrim : (Ascii.lbrace :: (c ++ Ascii.rbrace :: suffix)).rdropWhile isWs =
      Ascii.lbrace :: c ++ Ascii.rbrace :: suffix.rdropWhile isWs :=
    rdropWhile_behind (by decide) (Ascii.lbrace :: c) suffix
  have hprefixed := prefix_before (P := mtypePrefix) (a := Ascii.lbrace :: c) (x := Ascii.rbrace)
    (b := suffix.rdropWhile isWs) (by decide)
  simp only [wrapCtrlAbi, htrim, hprefixed]
  split_ifs with hp
  · rfl
  · simp only [List.cons_append, if_true]
    rw [wrapped_start, List.append_assoc]

theorem skipSeparator_suffix (s : Bytes) : skipSeparator s <:+ s := by
  unfold skipSeparator
  split_ifs
  · exact List.drop_suffix 2 s
  · exact List.drop_suffix 4 s
  · exact List.suffix_refl s

/-- A separator and a blob that are trimmed together come apart again when the trimming
takes nothing, or when there is no blob. -/
theorem skipSeparator_trimmed_iff {z blob : Bytes} (hz : ∀ b ∈ z, isWs b = true) :
    skipSeparator ((z ++ Ascii.lf :: Ascii.lf :: blob).rdropWhile isWs) = blob ↔
      blob = [] ∨ (z = [] ∧ trailing blob = []) := by
  by_cases hnil : blob = []
  · subst hnil
    have hall : ∀ b ∈ z ++ [Ascii.lf, Ascii.lf], isWs b = true := by
      intro b hb
      rcases List.mem_append.mp hb with hb | hb
      · exact hz b hb
      · have hlf : ∀ b ∈ [Ascii.lf, Ascii.lf], isWs b = true := by decide +kernel
        exact hlf b hb
    rw [List.rdropWhile_eq_nil_iff.mpr hall]
    exact ⟨fun _ => Or.inl rfl, fun _ => rfl⟩
  · have hkeep : trailing blob = [] → (z ++ Ascii.lf :: Ascii.lf :: blob).rdropWhile isWs =
        z ++ Ascii.lf :: Ascii.lf :: blob := by
      intro ht
      refine List.rdropWhile_eq_self_iff.mpr fun hl => ?_
      have hlast := List.rtakeWhile_eq_nil_iff.mp ht hnil
      rwa [List.getLast_append_of_ne_nil _ (by simp), List.getLast_cons (by simp),
        List.getLast_cons hnil]
    constructor
    · intro h
      have ht : trailing blob = [] := by
        generalize hX : (z ++ Ascii.lf :: Ascii.lf :: blob).rdropWhile isWs = X at h
        refine List.rtakeWhile_eq_nil_iff.mpr fun hl => ?_
        obtain ⟨u, hu⟩ := skipSeparator_suffix X
        rw [h] at hu
        have hXne : X ≠ [] := by
          rintro rfl
          exact hnil (List.append_eq_nil_iff.mp hu).2
        have hlast := List.rdropWhile_last_not isWs (z ++ Ascii.lf :: Ascii.lf :: blob)
          (by rw [hX]; exact hXne)
        simp only [hX, ← hu] at hlast
        rwa [List.getLast_append_of_ne_nil _ hl] at hlast
      rw [hkeep ht] at h
      exact Or.inr ⟨skipSeparator_blob_iff.mp h, ht⟩
    · rintro (h | ⟨hzero, ht⟩)
      · exact absurd h hnil
      · rw [hkeep ht]
        exact skipSeparator_blob_iff.mpr hzero

/-- The wrapped message splits into what was passed in exactly when it wraps cleanly. -/
theorem wrap_carries_iff {json : Bytes} {o : Object} (h : parse json = .ok (.object o))
    (blob : Option Bytes) :
    Carries (wrapCtrlAbi (ctrlMessage json blob)) o blob ↔ WrapsCleanly json o blob := by
  obtain ⟨w, c, z, rfl, hw, hz, hobj⟩ := parse_object h
  cases w with
  | cons b w =>
      have hb := hw b List.mem_cons_self
      have hne : b ≠ Ascii.lbrace := by
        rintro rfl
        exact absurd hb (by decide)
      obtain ⟨t, ht⟩ : ∃ t, ctrlMessage (b :: w ++ Ascii.lbrace :: (c ++ Ascii.rbrace :: z)) blob =
          b :: t := by
        cases blob <;> exact ⟨_, rfl⟩
      rw [ht, wrapCtrlAbi_blank hb]
      constructor
      · rintro ⟨json, bin, hs, _⟩
        have hhead : (b :: t).head? ≠ some Ascii.lbrace := fun h => hne (Option.some.inj h)
        rw [splitJsonPrefix, if_neg hhead] at hs
        exact absurd hs (by simp)
      · rintro ⟨hhead, _⟩
        exact absurd (Option.some.inj hhead) hne
  | nil =>
      have htrail : trailing (Ascii.lbrace :: (c ++ Ascii.rbrace :: z)) = z :=
        rtakeWhile_behind (by decide) hz (Ascii.lbrace :: c)
      have hprefixed := prefix_before (P := mtypePrefix) (a := Ascii.lbrace :: c) (x := Ascii.rbrace)
        (b := z) (by decide)
      have hplus : ∃ suffix, ctrlMessage (Ascii.lbrace :: (c ++ Ascii.rbrace :: z)) blob =
          Ascii.lbrace :: (c ++ Ascii.rbrace :: suffix) ∧
          suffix = (match blob with | none => z | some blob => z ++ Ascii.lf :: Ascii.lf :: blob) := by
        cases blob with
        | none => exact ⟨z, rfl, rfl⟩
        | some blob => exact ⟨_, by simp [ctrlMessage], rfl⟩
      obtain ⟨suffix, hmsg, hsuffix⟩ := hplus
      rw [List.nil_append]
      rw [hmsg, wrapCtrlAbi_object]
      unfold WrapsCleanly
      rw [htrail, List.head?_cons]
      simp only [List.cons_append] at hprefixed
      simp only [hprefixed, true_and]
      split_ifs with hp
      · rw [carries_iff_of_split (splitJsonPrefix_object hobj.balanced suffix), parse_braces hobj,
          Except.ok.injEq, Value.object.injEq, eq_comm, assign_eq_self_iff hobj.sorted, hsuffix]
        cases blob with
        | none => exact and_congr_right fun _ => skipSeparator_nil_iff
        | some blob => exact and_congr_right fun _ => skipSeparator_blob_iff
      · rw [carries_iff_of_split (splitJsonPrefix_object (balanced_wrapped hobj.balanced) _),
          List.append_assoc, parse_wrapped hobj, hsuffix]
        refine and_congr_right fun _ => ?_
        cases blob with
        | none =>
            simp only [List.rdropWhile_eq_nil_iff.mpr hz]
            exact ⟨fun _ => trivial, fun _ => rfl⟩
        | some blob => exact skipSeparator_trimmed_iff hz

theorem sendAbiJson_body {s : Session} (hs : ∀ w ∈ s.writes, w = none) (abiBody : Bytes) :
    (sendAbiJson s abiBody).2.sent.drop (s.sent.length + 16) = wrapCtrlAbi abiBody := by
  obtain ⟨ws, _, hsend⟩ := sendFrame_ok hs kMagicCtrlClient (wrapCtrlAbi abiBody)
  rw [sendAbiJson, hsend]
  simp only [← List.append_assoc]
  rw [List.drop_left' (by simp)]

/-- The body that `send_abi_json` puts behind the frame header carries the message
exactly when it wraps cleanly. -/
theorem send_abi_json_carries_iff {s : Session} (hs : ∀ w ∈ s.writes, w = none) {json : Bytes}
    {o : Object} (h : parse json = .ok (.object o)) (blob : Option Bytes) :
    Carries ((sendAbiJson s (ctrlMessage json blob)).2.sent.drop (s.sent.length + 16)) o blob ↔
      WrapsCleanly json o blob := by
  rw [sendAbiJson_body hs, wrap_carries_iff h]

/-- A session that is ready and silent. -/
def idle : Session where
  seq := 0
  phase := .ready
  recvBuf := []
  reads := []
  writes := []
  sent := []

/-- `{"a":null}` -/
def nullMember : Object := [(ascii "a", .null)]

theorem parse_nullMember : parse (Value.object nullMember).dump = .ok (.object nullMember) :=
  parse_dump (.object (List.pairwise_singleton _ _) fun _ hp => List.mem_singleton.mp hp ▸ .null)

theorem send_abi_json_carries_nullMember :
    Carries ((sendAbiJson idle (ctrlMessage (Value.object nullMember).dump none)).2.sent.drop
        (idle.sent.length + 16)) nullMember none ↔
      WrapsCleanly (Value.object nullMember).dump nullMember none :=
  send_abi_json_carries_iff (by decide) parse_nullMember none

/-- A blob that ends in a line feed loses it. -/
theorem send_abi_json_trims_blob :
    parse (Value.object nullMember).dump = .ok (.object nullMember) ∧
      ¬ Carries
          ((sendAbiJson idle (ctrlMessage (Value.object nullMember).dump
            (some [0x41, Ascii.lf]))).2.sent.drop (idle.sent.length + 16))
          nullMember (some [0x41, Ascii.lf]) := by
  refine ⟨parse_nullMember, fun h => ?_⟩
  rw [sendAbiJson_body (by decide), wrap_carries_iff parse_nullMember] at h
  obtain ⟨_, h⟩ := h
  rw [if_neg (by decide)] at h
  rcases h.2 with h | ⟨_, h⟩
  · exact absurd h (by decide)
  · exact absurd h (by decide)

end OpenBambu.Tunnel
