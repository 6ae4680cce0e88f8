import OpenBambu.FileTransfer.Blocking
import OpenBambu.Source.Tunnel

/-!
# The parsers of `bambu:` URLs

File transfer, the source of the Linux and macOS player and the DirectShow filter each read the URL
that Studio hands them with a parser of their own. On `bambu:///local/` URLs they agree exactly where
the host carries no port and at most the dot in front of the query, and where no `+` and no key
without `=` matters.
-/

namespace OpenBambu.Url

open OpenBambu.Foundation
open OpenBambu.Source (TunnelUrl)

namespace Sep

def percent : Byte := 0x25
def amp : Byte := 0x26
def equals : Byte := 0x3d
def question : Byte := 0x3f
def at' : Byte := 0x40

end Sep

/-! ## Percent encoding -/

def hexVal (c : Byte) : Option Nat :=
  if 0x30 ≤ c && c ≤ 0x39 then some (c.toNat - 0x30)
  else if 0x61 ≤ c && c ≤ 0x66 then some (10 + (c.toNat - 0x61))
  else if 0x41 ≤ c && c ≤ 0x46 then some (10 + (c.toNat - 0x41))
  else none

/-- `%` and two hex digits. -/
def escaped (c h l : Byte) : Option Byte :=
  if c = Sep.percent then do
    let hi ← hexVal h
    let lo ← hexVal l
    some (UInt8.ofNat (hi * 16 + lo))
  else none

/-- An escape is its byte, any other byte goes through `plain`. -/
def decodeWith (plain : Byte → Byte) : Bytes → Bytes
  | c :: h :: l :: s =>
      match escaped c h l with
      | some b => b :: decodeWith plain s
      | none => plain c :: decodeWith plain (h :: l :: s)
  | c :: s => plain c :: decodeWith plain s
  | [] => []

def plusToBlank (c : Byte) : Byte := if c = Ascii.plus then Ascii.sp else c

/-- `percent_decode` of file transfer. -/
def percentDecode (s : Bytes) : Bytes := decodeWith id s

/-- `url_decode` of the two others. -/
def urlDecode (s : Bytes) : Bytes := decodeWith plusToBlank s

/-! ## Pieces of a URL -/

/-- A key and its value; the value is still encoded. -/
def keyValue (token : Bytes) : Option (Bytes × Bytes) := cut Sep.equals token

/-- Host part and query, split at the first question mark. -/
def splitQuery (rest : Bytes) : Bytes × Bytes := (cut Sep.question rest).getD (rest, [])

/-- The end without slashes and dots. -/
def trimHost (host : Bytes) : Bytes :=
  (host.reverse.dropWhile fun c => c = Ascii.slash || c = Ascii.dot).reverse

/-- Host and port of a host part, `none` when there is a port that is no number. -/
def hostPort (host : Bytes) (port : Int) : Option (Bytes × Int) :=
  match cut Ascii.colon host with
  | some (host, text) => (stoi text).map fun port => (host, port)
  | none => some (host, port)

def setPort (port : Int) (val : Bytes) : Int := (stoi val).getD port

/-! ## `parse_lan_url` -/

structure LanUrl extends FileTransfer.Blocking.LanUrl where
  ip : Bytes := []
  port : Int := 6000
  device : Bytes := []

/-- One turn of the loop over the query. -/
def LanUrl.take (u : LanUrl) (token : Bytes) : LanUrl :=
  match keyValue token with
  | none => u
  | some (key, raw) =>
      let val := percentDecode raw
      if key = ascii "port" then { u with port := setPort u.port val }
      else if key = ascii "user" then { u with user := val }
      else if key = ascii "passwd" then { u with password := val }
      else if key = ascii "device" then { u with device := val }
      else if key = ascii "cli_id" then { u with cliId := val }
      else if key = ascii "cli_ver" then { u with cliVer := val }
      else if key = ascii "net_ver" then { u with netVer := val }
      else u

def kPrefix : Bytes := ascii "bambu:///local/"

/-- The host of a LAN URL: a dot in front of a query is left out. -/
def lanHost (rest : Bytes) : Bytes :=
  match cut Sep.question rest with
  | some (host, _) => if host.getLast? = some Ascii.dot then host.dropLast else host
  | none => rest

def parseLanUrl (raw : Bytes) : Option LanUrl :=
  if !startsWith raw kPrefix then none
  else
    let rest := raw.drop kPrefix.length
    if lanHost rest = [] then none
    else some ((pieces Sep.amp (splitQuery rest).2).foldl LanUrl.take { ip := lanHost rest })

/-! ## `parse_url` -/

def tunnelTake (u : TunnelUrl) (token : Bytes) : TunnelUrl :=
  let (key, val) :=
    match keyValue token with
    | none => (token, [])
    | some (key, raw) => (key, urlDecode raw)
  if key = ascii "port" then { u with port := setPort u.port val }
  else if key = ascii "user" then { u with user := val }
  else if key = ascii "passwd" then { u with passwd := val }
  else if key = ascii "device" then { u with device := val }
  else if key = ascii "cli_id" then { u with cliId := val }
  else if key = ascii "cli_ver" then { u with cliVer := val }
  else if key = ascii "net_ver" then { u with netVer := val }
  else u

/-- User and password in front of the `@` of an RTSP URL, and what is behind it. -/
def userinfo (host user passwd : Bytes) : Bytes × Bytes × Bytes :=
  match cut Sep.at' host with
  | none => (host, user, passwd)
  | some (info, host) =>
      match cut Ascii.colon info with
      | some (user, passwd) => (host, urlDecode user, urlDecode passwd)
      | none => (host, urlDecode info, passwd)

/-- Host part and path of an RTSP URL. -/
def splitPath (host path : Bytes) : Bytes × Bytes :=
  match cut Ascii.slash host with
  | some (host, path) => (host, Ascii.slash :: path)
  | none => (host, path)

/-- The scheme of a URL, its port, and what is behind the prefix. -/
def tunnelScheme (url : Bytes) : Source.Scheme × Int × Bytes :=
  if startsWith url kPrefix then (.localTls, 6000, url.drop kPrefix.length)
  else if startsWith url (ascii "bambu:///rtsps___") then
    (.rtsps, 322, url.drop (ascii "bambu:///rtsps___").length)
  else if startsWith url (ascii "bambu:///rtsp___") then
    (.rtsp, 554, url.drop (ascii "bambu:///rtsp___").length)
  else (.localTls, 6000, url)

def parseUrl (url : Bytes) : Option TunnelUrl := do
  let (scheme, port, rest) := tunnelScheme url
  let (hostPart, query) := splitQuery rest
  let u : TunnelUrl := { scheme := scheme, port := port }
  let (hostPart, u) :=
    if scheme = .localTls then (trimHost hostPart, u)
    else
      let (hostPart, user, passwd) := userinfo hostPart u.user u.passwd
      let (hostPart, path) := splitPath hostPart u.path
      (hostPart, { u with user := user, passwd := passwd, path := path })
  let (host, port) ← hostPort hostPart u.port
  let u := (pieces Sep.amp query).foldl tunnelTake { u with host := host, port := port }
  if u.host ≠ [] ∧ 0 < u.port then some u else none

/-! ## `parse_bambu_url` -/

structure ParsedUrl where
  scheme : Source.Scheme := .localTls
  host : Bytes := []
  port : Int := 6000
  user : Bytes := ascii "bblp"
  passwd : Bytes := []
  path : Bytes := ascii "/streaming/live/1"

def ParsedUrl.take (u : ParsedUrl) (token : Bytes) : ParsedUrl :=
  match keyValue token with
  | none => u
  | some (key, raw) =>
      let val := urlDecode raw
      if key = ascii "user" then { u with user := val }
      else if key = ascii "passwd" then { u with passwd := val }
      else if key = ascii "port" then { u with port := setPort u.port val }
      else u

/-- The scheme of what is behind `bambu:` and its slashes. -/
def bodyScheme (body : Bytes) : Option (Source.Scheme × Int × Bytes) :=
  if startsWith body (ascii "local/") then some (.localTls, 6000, body.drop (ascii "local/").length)
  else if startsWith body (ascii "rtsps___") then some (.rtsps, 322, body.drop (ascii "rtsps___").length)
  else if startsWith body (ascii "rtsp___") then some (.rtsp, 554, body.drop (ascii "rtsp___").length)
  else none

def parseBambuUrl (url : Bytes) : Option ParsedUrl :=
  if !startsWith url (ascii "bambu:") then none
  else do
    let body := (url.drop (ascii "bambu:").length).dropWhile (· = Ascii.slash)
    let (scheme, port, rest) ← bodyScheme body
    let (head, query) := splitQuery rest
    let u : ParsedUrl := { scheme := scheme, port := port }
    let (head, u) :=
      if scheme = .localTls then (trimHost head, u)
      else
        let (head, user, passwd) := userinfo head u.user u.passwd
        let (head, path) := splitPath head u.path
        (head, { u with user := user, passwd := passwd, path := path })
    let (host, port) ← hostPort head u.port
    let u := (pieces Sep.amp query).foldl ParsedUrl.take { u with host := host, port := port }
    if u.host ≠ [] then some u else none

/-! ## What they agree on -/

/-- What a connection is made from. -/
structure Endpoint where
  host : Bytes
  port : Int
  user : Bytes
  passwd : Bytes
  deriving DecidableEq, Repr

def LanUrl.endpoint (u : LanUrl) : Endpoint := ⟨u.ip, u.port, u.user, u.password⟩

def tunnelEndpoint (u : TunnelUrl) : Endpoint := ⟨u.host, u.port, u.user, u.passwd⟩

def ParsedUrl.endpoint (u : ParsedUrl) : Endpoint := ⟨u.host, u.port, u.user, u.passwd⟩

/-- The three parsers accept the URL with the same endpoint, or none of them does. -/
structure Agree (url : Bytes) : Prop where
  source : (parseLanUrl url).map LanUrl.endpoint = (parseUrl url).map tunnelEndpoint
  filter : (parseLanUrl url).map LanUrl.endpoint = (parseBambuUrl url).map ParsedUrl.endpoint

/-- The key of a token and its value as it is written; with `bare` a token without `=` is a key with no
value. -/
def pair (bare : Bool) (token : Bytes) : Option (Bytes × Bytes) :=
  match keyValue token with
  | some p => some p
  | none => if bare then some (token, []) else none

def tokenValue (bare : Bool) (key token : Bytes) : Option Bytes :=
  (pair bare token).bind fun p => if p.1 = key then some p.2 else none

/-- The values of a key in a query, as they are written. -/
def values (bare : Bool) (key query : Bytes) : List Bytes :=
  (pieces Sep.amp query).filterMap (tokenValue bare key)

/-- The last of them. -/
def lastValue (bare : Bool) (key default query : Bytes) : Bytes :=
  (values bare key query).getLast?.getD default

/-- The last port that is a number. -/
def lastPort (decode : Bytes → Bytes) (query : Bytes) : Int :=
  ((values false (ascii "port") query).filterMap fun raw => stoi (decode raw)).getLast?.getD 6000

/-- The last value of a key has no `+` in it, and no key without `=` behind it. -/
structure PlainValue (key default query : Bytes) : Prop where
  plus : Ascii.plus ∉ lastValue false key default query
  bare : lastValue true key default query = lastValue false key default query

/-- What the parsers read in the same way. -/
structure Plain (rest : Bytes) : Prop where
  colon : Ascii.colon ∉ (splitQuery rest).1
  host : lanHost rest = trimHost (splitQuery rest).1
  port : lanHost rest ≠ [] → lastPort percentDecode (splitQuery rest).2 = lastPort urlDecode (splitQuery rest).2 ∧
    0 < lastPort urlDecode (splitQuery rest).2
  user : lanHost rest ≠ [] → PlainValue (ascii "user") (ascii "bblp") (splitQuery rest).2
  passwd : lanHost rest ≠ [] → PlainValue (ascii "passwd") [] (splitQuery rest).2

/-! ## Decoding -/

theorem hexVal_plus : hexVal Ascii.plus = none := by decide

/-- There is no `+` in an escape. -/
theorem escaped_plus {c h l b : Byte} (hb : escaped c h l = some b) :
    Ascii.plus ≠ c ∧ Ascii.plus ≠ h ∧ Ascii.plus ≠ l := by
  rw [escaped] at hb
  split_ifs at hb with hc
  refine ⟨?_, ?_, ?_⟩
  · rw [hc]
    decide
  · intro heq
    rw [← heq, hexVal_plus] at hb
    cases hb
  · intro heq
    rw [← heq, hexVal_plus] at hb
    revert hb
    cases hexVal h <;> nofun

theorem plusToBlank_eq_iff (c : Byte) : c = plusToBlank c ↔ Ascii.plus ≠ c := by
  rw [plusToBlank]
  split_ifs with h
  · rw [h]
    decide
  · exact iff_of_true rfl (Ne.symm h)

theorem decode_eq_iff (s : Bytes) : percentDecode s = urlDecode s ↔ Ascii.plus ∉ s := by
  rw [percentDecode, urlDecode]
  fun_induction decodeWith id s with
  | case1 c h l s b hb ih =>
      obtain ⟨hc, hh, hl⟩ := escaped_plus hb
      rw [decodeWith, hb]
      simp only [List.cons.injEq, true_and, List.mem_cons, not_or]
      rw [ih]
      tauto
  | case2 c h l s hb ih =>
      rw [decodeWith, hb, List.mem_cons, not_or, ← ih]
      simp only [id_eq, List.cons.injEq]
      rw [plusToBlank_eq_iff]
  | case3 c s hshort ih =>
      rw [decodeWith]
      · simp only [id_eq, List.cons.injEq]
        rw [plusToBlank_eq_iff, ih, List.mem_cons, not_or]
      · exact hshort
  | case4 => exact iff_of_true rfl List.not_mem_nil

theorem decodeWith_eq_nil (plain : Byte → Byte) (s : Bytes) : decodeWith plain s = [] ↔ s = [] := by
  fun_cases decodeWith plain s <;> simp

/-! ## The loops over the query -/

/-- What a token does to an endpoint. -/
def Endpoint.take (bare : Bool) (decode : Bytes → Bytes) (e : Endpoint) (token : Bytes) : Endpoint where
  host := e.host
  port := ((tokenValue bare (ascii "port") token).bind fun raw => stoi (decode raw)).getD e.port
  user := ((tokenValue bare (ascii "user") token).map decode).getD e.user
  passwd := ((tokenValue bare (ascii "passwd") token).map decode).getD e.passwd

section Take

variable {bare : Bool} {decode : Bytes → Bytes} {e : Endpoint} {token key raw : Bytes}

theorem Endpoint.take_none (h : pair bare token = none) : e.take bare decode token = e := by
  simp only [Endpoint.take, tokenValue, h, Option.bind_none, Option.map_none, Option.getD_none]

/-- A token sets the one of the three that its key names. -/
theorem Endpoint.take_pair (h : pair bare token = some (key, raw)) :
    e.take bare decode token =
      if key = ascii "port" then { e with port := setPort e.port (decode raw) }
      else if key = ascii "user" then { e with user := decode raw }
      else if key = ascii "passwd" then { e with passwd := decode raw }
      else e := by
  by_cases hport : key = ascii "port"
  · subst hport
    simp only [Endpoint.take, tokenValue, h]
    rfl
  by_cases huser : key = ascii "user"
  · subst huser
    simp only [Endpoint.take, tokenValue, h]
    rfl
  by_cases hpasswd : key = ascii "passwd"
  · subst hpasswd
    simp only [Endpoint.take, tokenValue, h]
    rfl
  simp only [Endpoint.take, tokenValue, h, Option.bind_some, if_neg hport, if_neg huser, if_neg hpasswd,
    Option.bind_none, Option.map_none, Option.getD_none]

end Take

theorem pair_some {bare : Bool} {token : Bytes} {p : Bytes × Bytes} (h : keyValue token = some p) :
    pair bare token = some p := by
  rw [pair, h]

theorem pair_none {bare : Bool} {token : Bytes} (h : keyValue token = none) :
    pair bare token = if bare then some (token, []) else none := by
  rw [pair, h]

theorem lanTake_endpoint (u : LanUrl) (token : Bytes) :
    (u.take token).endpoint = u.endpoint.take false percentDecode token := by
  rw [LanUrl.take]
  cases h : keyValue token with
  | none => rw [Endpoint.take_none (pair_none h)]
  | some p =>
      rw [Endpoint.take_pair (pair_some h)]
      dsimp only
      split_ifs <;> rfl

/-- `parse_url` reads every token as a key and a value. -/
theorem tunnel_pair (token : Bytes) : ∃ key raw, pair true token = some (key, raw) ∧
    (match keyValue token with
      | none => (token, [])
      | some (key, raw) => (key, urlDecode raw)) = (key, urlDecode raw) := by
  cases h : keyValue token with
  | none => exact ⟨token, [], pair_none h, rfl⟩
  | some p => exact ⟨p.1, p.2, pair_some h, rfl⟩

theorem tunnelTake_endpoint (u : TunnelUrl) (token : Bytes) :
    tunnelEndpoint (tunnelTake u token) = (tunnelEndpoint u).take true urlDecode token := by
  obtain ⟨key, raw, hpair, hval⟩ := tunnel_pair token
  rw [tunnelTake, hval, Endpoint.take_pair hpair]
  dsimp only
  split_ifs <;> rfl

theorem parsedTake_endpoint (u : ParsedUrl) (token : Bytes) :
    (u.take token).endpoint = u.endpoint.take false urlDecode token := by
  rw [ParsedUrl.take]
  cases h : keyValue token with
  | none => rw [Endpoint.take_none (pair_none h)]
  | some p =>
      rw [Endpoint.take_pair (pair_some h)]
      dsimp only
      -- here the port is looked for last
      by_cases hport : p.1 = ascii "port"
      · rw [hport, if_pos rfl, if_neg (by decide), if_neg (by decide), if_pos rfl]
        rfl
      · simp only [if_neg hport]
        split_ifs <;> rfl

/-- The endpoint behind a query. -/
theorem foldl_take (bare : Bool) (decode : Bytes → Bytes) (query : Bytes) (e : Endpoint) :
    (pieces Sep.amp query).foldl (Endpoint.take bare decode) e =
      ⟨e.host, ((values bare (ascii "port") query).filterMap fun raw => stoi (decode raw)).getLast?.getD e.port,
        ((values bare (ascii "user") query).map decode).getLast?.getD e.user,
        ((values bare (ascii "passwd") query).map decode).getLast?.getD e.passwd⟩ := by
  have hhost := @foldl_last _ _ _ (Endpoint.take bare decode) Endpoint.host (fun _ => none)
    (fun _ _ => rfl) (pieces Sep.amp query) e
  have hport := @foldl_last _ _ _ (Endpoint.take bare decode) Endpoint.port _
    (fun _ _ => rfl) (pieces Sep.amp query) e
  have huser := @foldl_last _ _ _ (Endpoint.take bare decode) Endpoint.user _
    (fun _ _ => rfl) (pieces Sep.amp query) e
  have hpasswd := @foldl_last _ _ _ (Endpoint.take bare decode) Endpoint.passwd _
    (fun _ _ => rfl) (pieces Sep.amp query) e
  rw [List.filterMap_none] at hhost
  rw [values, List.filterMap_filterMap, ← hport, values, List.map_filterMap, ← huser, values,
    List.map_filterMap, ← hpasswd]
  exact congrArg (fun host => Endpoint.mk host _ _ _) hhost

/-- No port comes of a token without `=`. -/
theorem ports_bare (query : Bytes) :
    ((values true (ascii "port") query).filterMap fun raw => stoi (urlDecode raw)) =
      (values false (ascii "port") query).filterMap fun raw => stoi (urlDecode raw) := by
  rw [values, values, List.filterMap_filterMap, List.filterMap_filterMap]
  apply List.filterMap_congr
  intro token _
  cases h : keyValue token with
  | some p => rw [tokenValue, tokenValue, pair_some h, pair_some h]
  | none =>
      rw [tokenValue, tokenValue, pair_none h, pair_none h]
      show ((if token = ascii "port" then some [] else none : Option Bytes).bind fun raw =>
        stoi (urlDecode raw)) = none
      split_ifs
      · decide
      · rfl

/-! ## The endpoints -/

/-- The endpoint that a query gives to a host. -/
def Endpoint.read (bare : Bool) (decode : Bytes → Bytes) (host query : Bytes) : Endpoint :=
  ⟨host, ((values bare (ascii "port") query).filterMap fun raw => stoi (decode raw)).getLast?.getD 6000,
    ((values bare (ascii "user") query).map decode).getLast?.getD (ascii "bblp"),
    ((values bare (ascii "passwd") query).map decode).getLast?.getD []⟩

theorem parseLanUrl_endpoint (rest : Bytes) :
    (parseLanUrl (kPrefix ++ rest)).map LanUrl.endpoint =
      if lanHost rest = [] then none
      else some (.read false percentDecode (lanHost rest) (splitQuery rest).2) := by
  rw [parseLanUrl, startsWith_append, List.drop_left]
  simp only [Bool.not_true, Bool.false_eq_true, if_false]
  split_ifs
  · rfl
  · rw [Option.map_some, ← List.foldl_hom LanUrl.endpoint fun u t => (lanTake_endpoint u t).symm, foldl_take]
    rfl

theorem trimHost_start (host : Bytes) : trimHost host <+: host := by
  rw [trimHost, ← List.reverse_suffix, List.reverse_reverse]
  exact List.dropWhile_suffix _

/-- No colon, no port. -/
theorem hostPort_plain {host : Bytes} (hcolon : Ascii.colon ∉ host) (port : Int) :
    hostPort (trimHost host) port = some (trimHost host, port) := by
  rw [hostPort, cut_eq_none fun h => hcolon ((trimHost_start host).subset h)]

theorem parseUrl_local (rest : Bytes) :
    parseUrl (kPrefix ++ rest) = (hostPort (trimHost (splitQuery rest).1) 6000).bind fun p =>
      let u := (pieces Sep.amp (splitQuery rest).2).foldl tunnelTake { host := p.1, port := p.2 }
      if u.host ≠ [] ∧ 0 < u.port then some u else none := by
  have hscheme : tunnelScheme (kPrefix ++ rest) = (.localTls, 6000, rest) := by
    rw [tunnelScheme, startsWith_append, List.drop_left]
    rfl
  rw [parseUrl, hscheme]
  rfl

theorem parseBambuUrl_local (rest : Bytes) :
    parseBambuUrl (kPrefix ++ rest) = (hostPort (trimHost (splitQuery rest).1) 6000).bind fun p =>
      let u := (pieces Sep.amp (splitQuery rest).2).foldl ParsedUrl.take { host := p.1, port := p.2 }
      if u.host ≠ [] then some u else none := by
  have hstart : startsWith (kPrefix ++ rest) (ascii "bambu:") = true :=
    startsWith_append (ascii "bambu:") (ascii "///local/" ++ rest)
  -- All slashes behind `bambu:` are skipped, and `local/` begins with none.
  have hbody : ((kPrefix ++ rest).drop (ascii "bambu:").length).dropWhile (· = Ascii.slash) =
      ascii "local/" ++ rest := rfl
  have hscheme : bodyScheme (ascii "local/" ++ rest) = some (.localTls, 6000, rest) := by
    rw [bodyScheme, startsWith_append, List.drop_left]
    rfl
  rw [parseBambuUrl, hstart, if_neg (by decide), hbody]
  change (bodyScheme (ascii "local/" ++ rest)).bind _ = _
  rw [hscheme]
  rfl

theorem parseUrl_endpoint {rest : Bytes} (hcolon : Ascii.colon ∉ (splitQuery rest).1) :
    (parseUrl (kPrefix ++ rest)).map tunnelEndpoint =
      if trimHost (splitQuery rest).1 ≠ [] ∧ 0 < lastPort urlDecode (splitQuery rest).2 then
        some (.read true urlDecode (trimHost (splitQuery rest).1) (splitQuery rest).2)
      else none := by
  have hread : tunnelEndpoint ((pieces Sep.amp (splitQuery rest).2).foldl tunnelTake
      { host := trimHost (splitQuery rest).1, port := 6000 }) =
        .read true urlDecode (trimHost (splitQuery rest).1) (splitQuery rest).2 := by
    rw [← List.foldl_hom tunnelEndpoint fun u t => (tunnelTake_endpoint u t).symm, foldl_take]
    rfl
  obtain ⟨hhost, hport, -, -⟩ := Endpoint.mk.inj hread
  rw [ports_bare] at hport
  rw [parseUrl_local, hostPort_plain hcolon, Option.bind_some, apply_ite (Option.map tunnelEndpoint),
    Option.map_some, hread]
  dsimp only
  rw [hhost, hport]
  rfl

theorem parseBambuUrl_endpoint {rest : Bytes} (hcolon : Ascii.colon ∉ (splitQuery rest).1) :
    (parseBambuUrl (kPrefix ++ rest)).map ParsedUrl.endpoint =
      if trimHost (splitQuery rest).1 ≠ [] then
        some (.read false urlDecode (trimHost (splitQuery rest).1) (splitQuery rest).2)
      else none := by
  have hread : ParsedUrl.endpoint ((pieces Sep.amp (splitQuery rest).2).foldl ParsedUrl.take
      { host := trimHost (splitQuery rest).1, port := 6000 }) =
        .read false urlDecode (trimHost (splitQuery rest).1) (splitQuery rest).2 := by
    rw [← List.foldl_hom ParsedUrl.endpoint fun u t => (parsedTake_endpoint u t).symm, foldl_take]
    rfl
  obtain ⟨hhost, -, -, -⟩ := Endpoint.mk.inj hread
  rw [parseBambuUrl_local, hostPort_plain hcolon, Option.bind_some, apply_ite (Option.map ParsedUrl.endpoint),
    Option.map_some, hread]
  dsimp only
  rw [hhost]
  rfl

/-! ## When they agree -/

/-- A value read with `+` as it stands and as a blank, and one where a key without `=` counts. -/
theorem values_decoded (bare : Bool) (decode : Bytes → Bytes) (key default query : Bytes)
    (hdefault : decode default = default) :
    ((values bare key query).map decode).getLast?.getD default =
      decode (lastValue bare key default query) := by
  rw [List.getLast?_map, lastValue]
  cases (values bare key query).getLast? with
  | none => exact hdefault.symm
  | some raw => rfl

theorem tokenValue_bare (key token : Bytes) :
    tokenValue true key token = tokenValue false key token ∨ tokenValue true key token = some [] := by
  rw [tokenValue, tokenValue]
  cases h : keyValue token with
  | some p => exact .inl (by rw [pair_some h, pair_some h])
  | none =>
      rw [pair_none h, pair_none h, if_pos rfl, if_neg Bool.false_ne_true, Option.bind_some]
      by_cases hkey : token = key
      · exact .inr (if_pos hkey)
      · exact .inl (if_neg hkey)

/-- With keys without `=` the last value is the same, or it is empty. -/
theorem lastValue_bare (key default query : Bytes) :
    lastValue true key default query = lastValue false key default query ∨
      lastValue true key default query = [] := by
  rw [lastValue, lastValue, values, values]
  induction pieces Sep.amp query using List.reverseRecOn with
  | nil => exact .inl rfl
  | append_singleton ts t ih =>
      rw [List.filterMap_append, List.filterMap_append, List.getLast?_append, List.getLast?_append]
      rcases tokenValue_bare key t with heq | hempty
      · rw [List.filterMap_cons, List.filterMap_cons, heq]
        cases tokenValue false key t with
        | none => exact ih
        | some raw => exact .inl rfl
      · right
        rw [List.filterMap_cons, hempty]
        rfl

theorem urlDecode_eq_iff_of_bare {key default query : Bytes} :
    urlDecode (lastValue true key default query) = urlDecode (lastValue false key default query) ↔
      lastValue true key default query = lastValue false key default query := by
  constructor
  · intro h
    rcases lastValue_bare key default query with heq | hnil
    · exact heq
    · rw [hnil] at h ⊢
      exact ((decodeWith_eq_nil plusToBlank _).1 h.symm).symm
  · exact congrArg urlDecode

/-- The value of a key is read alike exactly if it is plain. -/
theorem plainValue_iff (key default query : Bytes) (hlan : percentDecode default = default)
    (hurl : urlDecode default = default) :
    ((values false key query).map percentDecode).getLast?.getD default =
        ((values true key query).map urlDecode).getLast?.getD default ∧
      ((values false key query).map percentDecode).getLast?.getD default =
        ((values false key query).map urlDecode).getLast?.getD default ↔
      PlainValue key default query := by
  rw [values_decoded _ _ _ _ _ hlan, values_decoded _ _ _ _ _ hurl, values_decoded _ _ _ _ _ hurl]
  constructor
  · intro ⟨htrue, hfalse⟩
    exact ⟨(decode_eq_iff _).1 hfalse, urlDecode_eq_iff_of_bare.1 (htrue.symm.trans hfalse)⟩
  · intro h
    have hfalse := (decode_eq_iff _).2 h.plus
    exact ⟨hfalse.trans (congrArg urlDecode h.bare.symm), hfalse⟩

theorem mem_trimHost {host : Bytes} {c : Byte} (h : c ∈ host) (hslash : c ≠ Ascii.slash)
    (hdot : c ≠ Ascii.dot) : c ∈ trimHost host := by
  have hrev : c ∈ host.reverse := List.mem_reverse.2 h
  rw [← List.takeWhile_append_dropWhile (p := fun c => decide (c = Ascii.slash) || decide (c = Ascii.dot))
    (l := host.reverse)] at hrev
  rcases List.mem_append.1 hrev with htaken | hleft
  · simpa [hslash, hdot] using List.mem_takeWhile_imp htaken
  · exact List.mem_reverse.2 hleft

/-- The host of file transfer is the host part, or that without a dot. -/
theorem lanHost_eq (rest : Bytes) :
    lanHost rest = (splitQuery rest).1 ∨ (splitQuery rest).1 = lanHost rest ++ [Ascii.dot] := by
  rw [lanHost, splitQuery]
  cases cut Sep.question rest with
  | none => exact .inl rfl
  | some p =>
      dsimp only [Option.getD_some]
      split_ifs with hdot
      · exact .inr (List.dropLast_append_getLast? _ hdot).symm
      · exact .inl rfl

theorem trimHost_prefix_lanHost (rest : Bytes) : trimHost (splitQuery rest).1 <+: lanHost rest := by
  rcases lanHost_eq rest with heq | heq
  · rw [heq]
    exact trimHost_start _
  · have htrim : trimHost (lanHost rest ++ [Ascii.dot]) = trimHost (lanHost rest) := by
      rw [trimHost, List.reverse_append, List.reverse_singleton, List.singleton_append, List.dropWhile_cons,
        if_pos (by decide), trimHost]
    rw [heq, htrim]
    exact trimHost_start _

theorem parseUrl_host {rest : Bytes} {e : Endpoint}
    (h : (parseUrl (kPrefix ++ rest)).map tunnelEndpoint = some e) :
    ∃ port, hostPort (trimHost (splitQuery rest).1) 6000 = some (e.host, port) := by
  rw [parseUrl_local] at h
  cases hhost : hostPort (trimHost (splitQuery rest).1) 6000 with
  | none =>
      rw [hhost] at h
      cases h
  | some p =>
      rw [hhost, Option.bind_some] at h
      dsimp only at h
      split_ifs at h
      · rw [Option.map_some, ← List.foldl_hom tunnelEndpoint fun u t => (tunnelTake_endpoint u t).symm,
          foldl_take] at h
        exact ⟨p.2, by rw [← Option.some.inj h]; rfl⟩
      · cases h

/-- A host with a port in it is a host to file transfer only. -/
theorem not_agree_of_colon {rest : Bytes} (h : Ascii.colon ∈ (splitQuery rest).1) :
    ¬ Agree (kPrefix ++ rest) := by
  intro hagree
  have htrimmed := mem_trimHost h (by decide) (by decide)
  have hlan : Ascii.colon ∈ lanHost rest := (trimHost_prefix_lanHost rest).subset htrimmed
  have hsource := hagree.source
  rw [parseLanUrl_endpoint, if_neg (List.ne_nil_of_mem hlan)] at hsource
  obtain ⟨port, hhost⟩ := parseUrl_host hsource.symm
  obtain ⟨before, behind, hcut, hnot⟩ := cut_of_mem htrimmed
  rw [hostPort, hcut] at hhost
  obtain ⟨p, -, hp⟩ := Option.map_eq_some_iff.1 hhost
  obtain ⟨rfl, -⟩ := Prod.mk.inj hp
  exact hnot hlan

/-- The three parsers agree on a LAN URL exactly if it is plain. -/
theorem parsers_agree_iff (rest : Bytes) : Agree (kPrefix ++ rest) ↔ Plain rest := by
  by_cases hcolon : Ascii.colon ∈ (splitQuery rest).1
  · exact iff_of_false (not_agree_of_colon hcolon) fun h => h.colon hcolon
  have hagree : Agree (kPrefix ++ rest) ↔
      (parseLanUrl (kPrefix ++ rest)).map LanUrl.endpoint = (parseUrl (kPrefix ++ rest)).map tunnelEndpoint ∧
      (parseLanUrl (kPrefix ++ rest)).map LanUrl.endpoint =
        (parseBambuUrl (kPrefix ++ rest)).map ParsedUrl.endpoint :=
    ⟨fun h => ⟨h.source, h.filter⟩, fun h => ⟨h.1, h.2⟩⟩
  rw [hagree, parseLanUrl_endpoint, parseUrl_endpoint hcolon, parseBambuUrl_endpoint hcolon]
  by_cases hlan : lanHost rest = []
  · have htrim : trimHost (splitQuery rest).1 = [] := by
      have hprefix := trimHost_prefix_lanHost rest
      rw [hlan] at hprefix
      exact List.prefix_nil.1 hprefix
    rw [if_pos hlan, if_neg fun h => h.1 htrim, if_neg fun h => h htrim]
    refine iff_of_true ⟨rfl, rfl⟩ ⟨hcolon, hlan.trans htrim.symm, ?_, ?_, ?_⟩
    · exact fun h => absurd hlan h
    · exact fun h => absurd hlan h
    · exact fun h => absurd hlan h
  rw [if_neg hlan]
  by_cases htrim : trimHost (splitQuery rest).1 = []
  · rw [if_neg fun h => h.1 htrim]
    exact iff_of_false (fun h => nomatch h.1) fun h => hlan (h.host.trans htrim)
  rw [if_pos htrim]
  constructor
  · intro ⟨hsource, hfilter⟩
    split_ifs at hsource with hport
    obtain ⟨hhost, hport', huser, hpasswd⟩ := Endpoint.mk.inj (Option.some.inj hsource)
    obtain ⟨-, -, huser', hpasswd'⟩ := Endpoint.mk.inj (Option.some.inj hfilter)
    rw [ports_bare] at hport'
    exact ⟨hcolon, hhost, fun _ => ⟨hport', hport.2⟩,
      fun _ => (plainValue_iff _ _ _ rfl rfl).1 ⟨huser, huser'⟩,
      fun _ => (plainValue_iff _ _ _ rfl rfl).1 ⟨hpasswd, hpasswd'⟩⟩
  · intro h
    obtain ⟨hport, hpositive⟩ := h.port hlan
    obtain ⟨huser, huser'⟩ := (plainValue_iff _ _ _ rfl rfl).2 (h.user hlan)
    obtain ⟨hpasswd, hpasswd'⟩ := (plainValue_iff _ _ _ rfl rfl).2 (h.passwd hlan)
    rw [if_pos ⟨htrim, hpositive⟩]
    constructor
    · apply congrArg some
      rw [Endpoint.read, Endpoint.read, Endpoint.mk.injEq, ports_bare]
      exact ⟨h.host, hport, huser, hpasswd⟩
    · apply congrArg some
      rw [Endpoint.read, Endpoint.read, Endpoint.mk.injEq]
      exact ⟨h.host, hport, huser', hpasswd'⟩

/-- An access code that has been encoded as a form, with a `+` for a blank. -/
def formEncoded : Bytes := ascii "192.168.1.9.?port=6000&user=bblp&passwd=ab+cd"

/-- File transfer logs in with the plus sign, the players with a blank. -/
theorem parsers_agree_fails : ¬ Agree (kPrefix ++ formEncoded) := by
  intro h
  have hdiffer : (parseLanUrl (kPrefix ++ formEncoded)).map LanUrl.endpoint ≠
      (parseUrl (kPrefix ++ formEncoded)).map tunnelEndpoint := by
    decide +kernel
  exact hdiffer h.source

end OpenBambu.Url
