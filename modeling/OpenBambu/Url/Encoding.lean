import OpenBambu.Url.Parsers

/-!
# Encoded values in a URL

The access code and the ids of a session go into the query of a `bambu:///local/` URL through
`http::url_encode`, and each parser takes them out with a decoder of its own. An encoded value has neither a
separator nor a `+` in it, so both decoders give back what was encoded.
-/

namespace OpenBambu.Url

open OpenBambu.Foundation
open OpenBambu.Source (TunnelUrl)

def hexDigits : Bytes := ascii "0123456789ABCDEF"

def unreserved (c : Byte) : Bool :=
  (0x41 ≤ c && c ≤ 0x5a) || (0x61 ≤ c && c ≤ 0x7a) || (0x30 ≤ c && c ≤ 0x39) || c = 0x2d || c = 0x5f ||
    c = 0x2e || c = 0x7e

def encodeByte (c : Byte) : Bytes :=
  if unreserved c then [c]
  else [Sep.percent, hexDigits.getD (c.toNat / 16 % 16) 0, hexDigits.getD (c.toNat % 16) 0]

/-- `http::url_encode`. -/
def urlEncode (s : Bytes) : Bytes := s.flatMap encodeByte

/-! ## Both decoders -/

theorem hexVal_digit : ∀ n < 16, hexVal (hexDigits.getD n 0) = some n := by decide +kernel

theorem unreserved_ne {c : Byte} (h : unreserved c = true) :
    c ≠ Sep.percent ∧ c ≠ Sep.amp ∧ c ≠ Ascii.plus := by
  have hall : ∀ c : Byte, unreserved c = true → c ≠ Sep.percent ∧ c ≠ Sep.amp ∧ c ≠ Ascii.plus :=
    forall_byte (by decide +kernel)
  exact hall c h

section Decode

variable {plain : Byte → Byte}

theorem decodeWith_plain {c : Byte} (h : c ≠ Sep.percent) (s : Bytes) :
    decodeWith plain (c :: s) = plain c :: decodeWith plain s := by
  match s with
  | [] => rfl
  | [_] => rfl
  | _ :: _ :: _ => rw [decodeWith, escaped, if_neg h]

theorem decodeWith_escape {h l b : Byte} (hb : escaped Sep.percent h l = some b) (s : Bytes) :
    decodeWith plain (Sep.percent :: h :: l :: s) = b :: decodeWith plain s := by
  rw [decodeWith, hb]

theorem escaped_digits (c : Byte) :
    escaped Sep.percent (hexDigits.getD (c.toNat / 16 % 16) 0) (hexDigits.getD (c.toNat % 16) 0) = some c := by
  have hlt := c.toNat_lt
  have hvalue : c.toNat / 16 % 16 * 16 + c.toNat % 16 = c.toNat := by omega
  rw [escaped, if_pos rfl, hexVal_digit _ (Nat.mod_lt _ (by decide)), hexVal_digit _ (Nat.mod_lt _ (by decide))]
  change some (UInt8.ofNat (c.toNat / 16 % 16 * 16 + c.toNat % 16)) = some c
  rw [hvalue, UInt8.ofNat_toNat]

/-- What the decoder does with bytes other than escapes does not matter if it keeps the unreserved ones. -/
theorem decodeWith_encode (hplain : ∀ c, unreserved c = true → plain c = c) (s rest : Bytes) :
    decodeWith plain (urlEncode s ++ rest) = s ++ decodeWith plain rest := by
  induction s with
  | nil => rfl
  | cons c s ih =>
      rw [urlEncode, List.flatMap_cons, List.append_assoc, encodeByte]
      split_ifs with hc
      · rw [List.singleton_append, decodeWith_plain (unreserved_ne hc).1, hplain c hc]
        exact congrArg (c :: ·) ih
      · rw [List.cons_append, List.cons_append, List.singleton_append, decodeWith_escape (escaped_digits c)]
        exact congrArg (c :: ·) ih

end Decode

theorem percentDecode_encode (s : Bytes) : percentDecode (urlEncode s) = s := by
  have hkeep : ∀ c, unreserved c = true → id c = c := fun _ _ => rfl
  have h := decodeWith_encode hkeep s []
  rwa [List.append_nil, decodeWith, List.append_nil] at h

theorem urlDecode_encode (s : Bytes) : urlDecode (urlEncode s) = s := by
  have hkeep : ∀ c, unreserved c = true → plusToBlank c = c := fun c hc => if_neg (unreserved_ne hc).2.2
  have h := decodeWith_encode hkeep s []
  rwa [List.append_nil, decodeWith, List.append_nil] at h

theorem amp_not_mem_encode (s : Bytes) : Sep.amp ∉ urlEncode s := by
  have hdigit : ∀ n < 16, hexDigits.getD n 0 ≠ Sep.amp := by decide +kernel
  intro hmem
  obtain ⟨c, -, hc⟩ := List.mem_flatMap.mp hmem
  rw [encodeByte] at hc
  split_ifs at hc with hu
  · exact (unreserved_ne hu).2.1 (List.mem_singleton.mp hc).symm
  · simp only [List.mem_cons, List.not_mem_nil, or_false] at hc
    rcases hc with heq | heq | heq
    · exact absurd heq (by decide)
    · exact hdigit _ (Nat.mod_lt _ (by decide)) heq.symm
    · exact hdigit _ (Nat.mod_lt _ (by decide)) heq.symm

/-! ## The keys with a text -/

/-- The keys whose values are texts. -/
inductive TextKey where
  | user
  | passwd
  | device
  | cliId
  | cliVer
  | netVer
  deriving DecidableEq, Repr

namespace TextKey

def text : TextKey → Bytes
  | user => ascii "user"
  | passwd => ascii "passwd"
  | device => ascii "device"
  | cliId => ascii "cli_id"
  | cliVer => ascii "cli_ver"
  | netVer => ascii "net_ver"

def ofLan (u : LanUrl) : TextKey → Bytes
  | user => u.user
  | passwd => u.password
  | device => u.device
  | cliId => u.cliId
  | cliVer => u.cliVer
  | netVer => u.netVer

def ofTunnel (u : TunnelUrl) : TextKey → Bytes
  | user => u.user
  | passwd => u.passwd
  | device => u.device
  | cliId => u.cliId
  | cliVer => u.cliVer
  | netVer => u.netVer

end TextKey

/-- A key with its value in a query. -/
def queryToken (p : Bytes × Bytes) : Bytes := p.1 ++ Sep.equals :: urlEncode p.2

def joinQuery (params : List (Bytes × Bytes)) : Bytes := [Sep.amp].intercalate (params.map queryToken)

theorem lanTake_text (f : TextKey) (u : LanUrl) (token : Bytes) :
    f.ofLan (u.take token) = ((tokenValue false f.text token).map percentDecode).getD (f.ofLan u) := by
  unfold LanUrl.take tokenValue
  cases h : keyValue token with
  | none => rw [pair_none h]; rfl
  | some p =>
      rw [pair_some h]
      obtain ⟨key, raw⟩ := p
      by_cases hkey : key = f.text
      · subst hkey
        cases f <;> rfl
      · simp only [Option.bind_some, if_neg hkey, Option.map_none, Option.getD_none]
        cases f <;> simp only [TextKey.text] at hkey <;> split_ifs <;> rfl

theorem tunnelTake_text (f : TextKey) (u : TunnelUrl) (token : Bytes) :
    f.ofTunnel (tunnelTake u token) = ((tokenValue true f.text token).map urlDecode).getD (f.ofTunnel u) := by
  obtain ⟨key, raw, hpair, hval⟩ := tunnel_pair token
  rw [tunnelTake, hval, tokenValue, hpair]
  by_cases hkey : key = f.text
  · subst hkey
    cases f <;> rfl
  · simp only [Option.bind_some, if_neg hkey, Option.map_none, Option.getD_none]
    cases f <;> simp only [TextKey.text] at hkey <;> split_ifs <;> rfl

/-! ## Queries -/

/-- The query behind the host is made of these keys and values. -/
structure Carries (rest : Bytes) (params : List (Bytes × Bytes)) : Prop where
  keys : ∀ p ∈ params, Sep.amp ∉ p.1 ∧ Sep.equals ∉ p.1
  distinct : (params.map Prod.fst).Nodup
  query : (splitQuery rest).2 = joinQuery params

theorem keyValue_token {p : Bytes × Bytes} (h : Sep.equals ∉ p.1) :
    keyValue (queryToken p) = some (p.1, urlEncode p.2) := cut_of_not_mem h _

theorem pieces_joinQuery {params : List (Bytes × Bytes)} (h : ∀ p ∈ params, Sep.amp ∉ p.1) :
    pieces Sep.amp (joinQuery params) = params.map queryToken := by
  refine pieces_intercalate fun token htoken => ?_
  obtain ⟨p, hp, rfl⟩ := List.mem_map.mp htoken
  refine ⟨fun hmem => ?_, by simp [queryToken]⟩
  rcases List.mem_append.mp hmem with hkey | hvalue
  · exact h p hp hkey
  · rcases List.mem_cons.mp hvalue with heq | hvalue
    · exact absurd heq (by decide)
    · exact amp_not_mem_encode p.2 hvalue

/-- A key that occurs once has the value that is looked up. -/
theorem filterMap_key {ps : List (Bytes × Bytes)} (hnodup : (ps.map Prod.fst).Nodup) (key : Bytes) :
    (ps.filterMap fun p => if p.1 = key then some p.2 else none) = (ps.lookup key).toList := by
  induction ps with
  | nil => rfl
  | cons p ps ih =>
      obtain ⟨hp, hrest⟩ := List.nodup_cons.mp hnodup
      obtain ⟨k, v⟩ := p
      rw [List.filterMap_cons, List.lookup_cons]
      by_cases hk : k = key
      · subst hk
        have hnone : (ps.filterMap fun p => if p.1 = k then some p.2 else none) = [] :=
          List.filterMap_eq_nil_iff.mpr fun q hq => if_neg fun heq => hp (List.mem_map.mpr ⟨q, hq, heq⟩)
        rw [if_pos rfl, hnone, beq_self_eq_true]
        rfl
      · rw [if_neg hk, beq_false_of_ne (Ne.symm hk)]
        exact ih hrest

theorem lookup_param {ps : List (Bytes × Bytes)} (hnodup : (ps.map Prod.fst).Nodup) {key v : Bytes}
    (h : (key, v) ∈ ps) : ps.lookup key = some v := by
  rw [← Option.mem_toList, ← filterMap_key hnodup]
  exact List.mem_filterMap.mpr ⟨_, h, if_pos rfl⟩

section Query

variable {rest : Bytes} {params : List (Bytes × Bytes)} (h : Carries rest params)

include h

theorem Carries.tokens : pieces Sep.amp (splitQuery rest).2 = params.map queryToken := by
  rw [h.query, pieces_joinQuery fun p hp => (h.keys p hp).1]

theorem Carries.values (bare : Bool) {decode : Bytes → Bytes} (hdecode : ∀ s, decode (urlEncode s) = s)
    (key : Bytes) : (pieces Sep.amp (splitQuery rest).2).filterMap (fun t => (tokenValue bare key t).map decode) =
      params.filterMap fun p => if p.1 = key then some p.2 else none := by
  rw [h.tokens, List.filterMap_map]
  refine List.filterMap_congr fun p hp => ?_
  rw [Function.comp_apply, tokenValue, pair_some (keyValue_token (h.keys p hp).2), Option.bind_some]
  split_ifs
  · rw [Option.map_some, hdecode]
  · rfl

theorem Carries.ofLan {u₀ : LanUrl} {f : TextKey} {v : Bytes} (hv : (f.text, v) ∈ params) :
    f.ofLan ((pieces Sep.amp (splitQuery rest).2).foldl LanUrl.take u₀) = v := by
  have hlast := @foldl_last _ _ _ _ (fun u => f.ofLan u) _ (lanTake_text f)
    (pieces Sep.amp (splitQuery rest).2) u₀
  rw [hlast, h.values false percentDecode_encode, filterMap_key h.distinct, lookup_param h.distinct hv]
  rfl

theorem Carries.ofTunnel {u₀ : TunnelUrl} {f : TextKey} {v : Bytes} (hv : (f.text, v) ∈ params) :
    f.ofTunnel ((pieces Sep.amp (splitQuery rest).2).foldl tunnelTake u₀) = v := by
  have hlast := @foldl_last _ _ _ _ (fun u => f.ofTunnel u) _ (tunnelTake_text f)
    (pieces Sep.amp (splitQuery rest).2) u₀
  rw [hlast, h.values true urlDecode_encode, filterMap_key h.distinct, lookup_param h.distinct hv]
  rfl

end Query

/-! ## The URLs -/

/-- The port of the query, or the one in front of it. -/
def portIn (params : List (Bytes × Bytes)) (port : Int) : Int :=
  ((params.lookup (ascii "port")).bind stoi).getD port

/-- Each parser accepts the URL exactly if there is a host in it, and for `parse_url` a positive port. What it
accepts holds every text of the query as it was before it was encoded. -/
structure ReadBack (rest : Bytes) (params : List (Bytes × Bytes)) : Prop where
  lanAccepts : (parseLanUrl (kPrefix ++ rest)).isSome = true ↔ lanHost rest ≠ []
  lanTexts : ∀ u, parseLanUrl (kPrefix ++ rest) = some u → ∀ f v, (TextKey.text f, v) ∈ params → f.ofLan u = v
  tunnelAccepts : (parseUrl (kPrefix ++ rest)).isSome = true ↔
    ∃ host port, hostPort (trimHost (splitQuery rest).1) 6000 = some (host, port) ∧ host ≠ [] ∧
      0 < portIn params port
  tunnelTexts : ∀ u, parseUrl (kPrefix ++ rest) = some u → ∀ f v, (TextKey.text f, v) ∈ params → f.ofTunnel u = v

/-- Host and port behind the query. -/
theorem Carries.endpoint {rest : Bytes} {params : List (Bytes × Bytes)} (h : Carries rest params)
    (u₀ : TunnelUrl) :
    ((pieces Sep.amp (splitQuery rest).2).foldl tunnelTake u₀).host = u₀.host ∧
      ((pieces Sep.amp (splitQuery rest).2).foldl tunnelTake u₀).port = portIn params u₀.port := by
  have hread : tunnelEndpoint ((pieces Sep.amp (splitQuery rest).2).foldl tunnelTake u₀) = _ :=
    (List.foldl_hom tunnelEndpoint fun u t => (tunnelTake_endpoint u t).symm).symm.trans
      (foldl_take true urlDecode (splitQuery rest).2 (tunnelEndpoint u₀))
  obtain ⟨hhost, hport, -, -⟩ := Endpoint.mk.inj hread
  refine ⟨hhost, hport.trans ?_⟩
  have hvalues := h.values true urlDecode_encode (ascii "port")
  rw [filterMap_key h.distinct, ← List.map_filterMap] at hvalues
  have hstoi : ((Url.values true (ascii "port") (splitQuery rest).2).filterMap fun raw => stoi (urlDecode raw)) =
      ((params.lookup (ascii "port")).toList).filterMap stoi := by
    rw [← hvalues, List.filterMap_map]
    rfl
  rw [hstoi, portIn]
  cases params.lookup (ascii "port") with
  | none => rfl
  | some v =>
      rw [Option.toList_some, List.filterMap_cons, List.filterMap_nil, Option.bind_some]
      cases stoi v <;> rfl

/-- Every text comes back from both decoders, and out of the query of a LAN URL. -/
theorem encoded_texts_read_back :
    (∀ s, urlDecode (urlEncode s) = s ∧ percentDecode (urlEncode s) = s) ∧
      ∀ rest params, Carries rest params → ReadBack rest params := by
  refine ⟨fun s => ⟨urlDecode_encode s, percentDecode_encode s⟩, fun rest params h => ⟨?_, ?_, ?_, ?_⟩⟩
  · rw [parseLanUrl, startsWith_append, List.drop_left]
    simp only [Bool.not_true, Bool.false_eq_true, if_false]
    split_ifs with hhost <;> simp [hhost]
  · intro u hu f v hv
    rw [parseLanUrl, startsWith_append, List.drop_left] at hu
    simp only [Bool.not_true, Bool.false_eq_true, if_false] at hu
    split_ifs at hu
    rw [← Option.some.inj hu]
    exact h.ofLan hv
  · rw [parseUrl_local]
    cases hhost : hostPort (trimHost (splitQuery rest).1) 6000 with
    | none => simp
    | some p =>
        obtain ⟨host, port⟩ := p
        obtain ⟨hh, hp⟩ := h.endpoint { host := host, port := port }
        simp only [Option.bind_some, hh, hp]
        split_ifs with hok
        · exact iff_of_true rfl ⟨host, port, rfl, hok.1, hok.2⟩
        · refine iff_of_false Bool.false_ne_true ?_
          rintro ⟨host', port', heq, hne, hpos⟩
          obtain ⟨rfl, rfl⟩ := Prod.mk.inj (Option.some.inj heq)
          exact hok ⟨hne, hpos⟩
  · intro u hu f v hv
    rw [parseUrl_local] at hu
    obtain ⟨p, -, hp⟩ := Option.bind_eq_some_iff.mp hu
    dsimp only at hp
    split_ifs at hp
    rw [← Option.some.inj hp]
    exact h.ofTunnel hv

/-- An access code of separators. -/
def codeParams : List (Bytes × Bytes) := [(ascii "port", ascii "6000"), (ascii "passwd", ascii "a+b&c=%?")]

def codeRest : Bytes := ascii "192.168.1.9.?" ++ joinQuery codeParams

theorem codeRest_carries : Carries codeRest codeParams :=
  ⟨by decide +kernel, by decide +kernel, by decide +kernel⟩

theorem encoded_code_read_back : Carries codeRest codeParams ∧ ReadBack codeRest codeParams ∧
    (parseUrl (kPrefix ++ codeRest)).isSome = true :=
  ⟨codeRest_carries, encoded_texts_read_back.2 codeRest codeParams codeRest_carries, by decide +kernel⟩

/-- Both parsers return the texts of the query. -/
def BothRead (rest : Bytes) (params : List (Bytes × Bytes)) : Prop :=
  (∃ u, parseLanUrl (kPrefix ++ rest) = some u ∧ ∀ f v, (TextKey.text f, v) ∈ params → f.ofLan u = v) ∧
    ∃ u, parseUrl (kPrefix ++ rest) = some u ∧ ∀ f v, (TextKey.text f, v) ∈ params → f.ofTunnel u = v

/-- A URL without a host is refused by both. -/
theorem both_read_fails : ¬ ∀ rest params, Carries rest params → BothRead rest params := by
  intro hall
  have hcarries : Carries (Sep.question :: joinQuery codeParams) codeParams :=
    ⟨by decide +kernel, by decide +kernel, by decide +kernel⟩
  obtain ⟨⟨u, hu, -⟩, -⟩ := hall _ _ hcarries
  have hrefused : (parseLanUrl (kPrefix ++ Sep.question :: joinQuery codeParams)).isNone = true := by
    decide +kernel
  rw [hu] at hrefused
  exact absurd hrefused (by simp)

end OpenBambu.Url
