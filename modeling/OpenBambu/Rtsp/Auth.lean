import OpenBambu.Rtsp.Interleaved

/-!
# Authentication of RTSP requests

`parse_auth_params`, `adopt_challenge` and `compute_authorization` of `stubs/rtsp_client.cpp`. A 401
brings a challenge, and every later request, keepalive and teardown among them, is authorized with
what the client keeps of it. The hash is `EVP_Digest`'s and stands as a parameter, as do the random
digits of the client nonce.
-/

namespace OpenBambu.Rtsp

open OpenBambu.Foundation

/-! ## Base64 -/

def kB64Alphabet : Bytes := ascii "ABCDEFGHIJKLMNOPQRSTUVWXYZabcdefghijklmnopqrstuvwxyz0123456789+/"

def base64Char (v : UInt32) : Byte := kB64Alphabet.getD (v &&& 0x3f).toNat 0

def base64Encode : Bytes → Bytes
  | [] => []
  | [a] =>
      let v := a.toUInt32 <<< 16
      [base64Char (v >>> 18), base64Char (v >>> 12), 0x3d, 0x3d]
  | [a, b] =>
      let v := (a.toUInt32 <<< 16) ||| (b.toUInt32 <<< 8)
      [base64Char (v >>> 18), base64Char (v >>> 12), base64Char (v >>> 6), 0x3d]
  | a :: b :: c :: s =>
      let v := (a.toUInt32 <<< 16) ||| (b.toUInt32 <<< 8) ||| c.toUInt32
      base64Char (v >>> 18) :: base64Char (v >>> 12) :: base64Char (v >>> 6) :: base64Char v :: base64Encode s

/-! ## The parameters of a challenge -/

def equals : Byte := 0x3d

/-- What the loop skips in front of a key. -/
def separator (c : Byte) : Bool := c = Ascii.sp || c = Ascii.comma || c = Ascii.tab

/-- A value behind its opening quote, as it stands there, and the text from the closing quote on. -/
def quotedText : Bytes → Bytes × Bytes
  | [] => ([], [])
  | [c] => if c = Ascii.quote then ([], [c]) else ([c], [])
  | c :: d :: s =>
      if c = Ascii.quote then ([], c :: d :: s)
      else if c = Ascii.backslash then (c :: d :: (quotedText s).1, (quotedText s).2)
      else (c :: (quotedText (d :: s)).1, (quotedText (d :: s)).2)

/-- A value behind its `=`, and what stands behind it. -/
def authValue (s : Bytes) : Bytes × Bytes :=
  if s.head? = some Ascii.quote then ((quotedText s.tail).1, (quotedText s.tail).2.drop 1)
  else (s.takeWhile (· ≠ Ascii.comma), s.dropWhile (· ≠ Ascii.comma))

def keyByte (c : Byte) : Bool := c ≠ equals && c ≠ Ascii.comma

/-- One parameter, and what stands behind it. -/
def authParam (s : Bytes) : (Bytes × Bytes) × Bytes :=
  let k := lc (trim (s.takeWhile keyByte))
  let rest := s.dropWhile keyByte
  if rest.head? = some equals then ((k, trim (authValue rest.tail).1), (authValue rest.tail).2)
  else ((k, []), rest)

def authLoop : Nat → Bytes → Except Halt (List (Bytes × Bytes))
  | 0, _ => .error .hang
  | fuel + 1, s =>
      let s := s.dropWhile separator
      if s = [] then .ok []
      else do
        let more ← authLoop fuel (authParam s).2
        return (authParam s).1 :: more

/-- Every turn of the loop takes at least one byte. -/
def parseAuthParams (s : Bytes) : Except Halt (List (Bytes × Bytes)) := authLoop (s.length + 1) s

/-! ## The state of the client -/

inductive AuthScheme where
  | none
  | basic
  | digest
  deriving DecidableEq, Repr

structure AuthState where
  authScheme : AuthScheme
  digestRealm : Bytes
  digestNonce : Bytes
  digestQop : Bytes
  digestOpaque : Bytes
  digestAlgorithm : Bytes
  digestNc : UInt32
  deriving DecidableEq, Repr

/-- `Response::header`: the first header of the name. -/
def Response.header (r : Response) (key : Bytes) : Bytes :=
  ((r.headers.find? fun h => h.1 = lc key).map Prod.snd).getD []

/-- The parameters the client keeps. -/
def keepParam (st : AuthState) (kv : Bytes × Bytes) : AuthState :=
  if kv.1 = ascii "realm" then { st with digestRealm := kv.2 }
  else if kv.1 = ascii "nonce" then { st with digestNonce := kv.2 }
  else if kv.1 = ascii "qop" then { st with digestQop := kv.2 }
  else if kv.1 = ascii "opaque" then { st with digestOpaque := kv.2 }
  else if kv.1 = ascii "algorithm" then { st with digestAlgorithm := kv.2 }
  else st

def AuthState.clear (st : AuthState) : AuthState :=
  { st with digestRealm := [], digestNonce := [], digestQop := [], digestOpaque := [], digestAlgorithm := [] }

def adoptChallenge (resp : Response) (st : AuthState) : Except Halt (Bool × AuthState) :=
  let www := resp.header (ascii "www-authenticate")
  if www = [] then .ok (false, st)
  else if lc (www.take 7) = ascii "digest " then do
    let p ← parseAuthParams (www.drop 7)
    let st := p.foldl keepParam st.clear
    if st.digestRealm = [] || st.digestNonce = [] then return (false, st)
    else return (true, { st with digestNc := 0, authScheme := .digest })
  else if lc (www.take 6) = ascii "basic " then .ok (true, { st with authScheme := .basic })
  else .ok (false, st)

/-- `user` and `passwd`. -/
structure Credentials where
  user : Bytes
  passwd : Bytes

def quoted (s : Bytes) : Bytes := Ascii.quote :: s ++ [Ascii.quote]

/-- `Authorization` for a request, and the state with the nonce count it used up. -/
def computeAuthorization (md5Hex : Bytes → Bytes) (cnonce : Bytes) (who : Credentials) (method uri : Bytes)
    (st : AuthState) : Bytes × AuthState :=
  match st.authScheme with
  | .none => ([], st)
  | .basic =>
      (ascii "Authorization: Basic " ++ base64Encode (who.user ++ Ascii.colon :: who.passwd) ++
        [Ascii.cr, Ascii.lf], st)
  | .digest =>
      let ha1 := md5Hex (who.user ++ Ascii.colon :: (st.digestRealm ++ Ascii.colon :: who.passwd))
      let ha2 := md5Hex (method ++ Ascii.colon :: uri)
      let nc := st.digestNc + 1
      let response :=
        if st.digestQop ≠ [] then
          md5Hex (ha1 ++ Ascii.colon :: (st.digestNonce ++ Ascii.colon :: (hex8 nc ++
            Ascii.colon :: (cnonce ++ ascii ":auth:" ++ ha2))))
        else md5Hex (ha1 ++ Ascii.colon :: (st.digestNonce ++ Ascii.colon :: ha2))
      let extra :=
        if st.digestQop ≠ [] then ascii ", qop=auth, nc=" ++ hex8 nc ++ ascii ", cnonce=" ++ quoted cnonce
        else []
      (ascii "Authorization: Digest username=" ++ quoted who.user ++ ascii ", realm=" ++
          quoted st.digestRealm ++ ascii ", nonce=" ++ quoted st.digestNonce ++ ascii ", uri=" ++ quoted uri ++
          ascii ", response=" ++ quoted response ++
          (if st.digestOpaque ≠ [] then ascii ", opaque=" ++ quoted st.digestOpaque else []) ++
          (if st.digestAlgorithm ≠ [] then ascii ", algorithm=" ++ st.digestAlgorithm else []) ++ extra ++
          [Ascii.cr, Ascii.lf],
        if st.digestQop ≠ [] then { st with digestNc := nc } else st)

/-! ## The loop over the parameters ends -/

theorem quotedText_length (s : Bytes) : (quotedText s).2.length ≤ s.length := by
  induction s using quotedText.induct with
  | case1 => simp [quotedText]
  | case2 => simp [quotedText]
  | case3 c hc => simp [quotedText, hc]
  | case4 => simp [quotedText]
  | case5 d s hq ih =>
      rw [quotedText, if_neg (by decide), if_pos rfl]
      simp only [List.length_cons]
      omega
  | case6 c d s hq hb ih =>
      rw [quotedText, if_neg hq, if_neg hb]
      simp only [List.length_cons] at ih ⊢
      omega

theorem authValue_length (s : Bytes) : (authValue s).2.length ≤ s.length := by
  unfold authValue
  split_ifs with h
  · have := quotedText_length s.tail
    simp only [List.length_drop, List.length_tail] at this ⊢
    omega
  · exact (List.dropWhile_suffix _).length_le

/-- A turn takes at least one byte. -/
theorem authParam_length {s : Bytes} (hs : s ≠ []) (hsep : ∀ c ∈ s.head?, separator c = false) :
    (authParam s).2.length < s.length := by
  obtain ⟨c, t, rfl⟩ := List.exists_cons_of_ne_nil hs
  have hsuffix := (List.dropWhile_suffix keyByte (l := c :: t)).length_le
  rw [authParam]
  split_ifs with h
  · have hvalue := authValue_length ((c :: t).dropWhile keyByte).tail
    have hne : (c :: t).dropWhile keyByte ≠ [] := fun hnil => by simp [hnil] at h
    have hpos := List.length_pos_of_ne_nil hne
    rw [List.length_tail] at hvalue
    show (authValue ((c :: t).dropWhile keyByte).tail).2.length < _
    omega
  · -- the first byte is no comma, so the key is not empty
    have hc := hsep c rfl
    simp only [separator, Bool.or_eq_false_iff, decide_eq_false_iff_not] at hc
    have hkey : keyByte c = true := by
      by_contra hno
      have heq : c = equals := by
        simp only [keyByte, Bool.and_eq_true, decide_eq_true_eq, not_and_or, not_not] at hno
        exact hno.resolve_right hc.1.2
      rw [List.dropWhile_cons_of_neg (by simpa using hno), heq] at h
      exact h rfl
    rw [List.dropWhile_cons_of_pos hkey]
    have := (List.dropWhile_suffix keyByte (l := t)).length_le
    simp only [List.length_cons]
    omega

/-- The result does not depend on the fuel, where there is enough. -/
theorem authLoop_ok {fuel : Nat} {s : Bytes} (h : s.length < fuel) : ∃ p, authLoop fuel s = .ok p := by
  induction fuel generalizing s with
  | zero => omega
  | succ fuel ih =>
      rw [authLoop]
      split_ifs with hs
      · exact ⟨[], rfl⟩
      · have hturn := authParam_length hs (head_dropWhile separator s)
        have hskip := (List.dropWhile_suffix separator (l := s)).length_le
        obtain ⟨p, hp⟩ := @ih (authParam (s.dropWhile separator)).2 (by omega)
        exact ⟨_, by rw [hp]; rfl⟩

theorem parseAuthParams_ok (s : Bytes) : ∃ p, parseAuthParams s = .ok p := authLoop_ok (by omega)

/-! ## What a challenge leaves -/

/-- The value a list of parameters gives a key: the last one, or the one that was there. -/
def valueOr (p : List (Bytes × Bytes)) (key prior : Bytes) : Bytes :=
  (p.filterMap fun kv => if kv.1 = key then some kv.2 else none).getLast?.getD prior

/-- The parameters of a Digest challenge. -/
def digestParams (resp : Response) : Option (List (Bytes × Bytes)) :=
  let www := resp.header (ascii "www-authenticate")
  if lc (www.take 7) = ascii "digest " then (parseAuthParams (www.drop 7)).toOption else none

/-- The client already keeps what a list of parameters says. -/
structure Agrees (p : List (Bytes × Bytes)) (st : AuthState) : Prop where
  realm : st.digestRealm = valueOr p (ascii "realm") []
  nonce : st.digestNonce = valueOr p (ascii "nonce") []
  qop : st.digestQop = valueOr p (ascii "qop") []
  opaqueText : st.digestOpaque = valueOr p (ascii "opaque") []
  algorithm : st.digestAlgorithm = valueOr p (ascii "algorithm") []

/-- A parameter goes under the one of the five keys that it names. -/
theorem keepParam_eq (st : AuthState) (kv : Bytes × Bytes) :
    keepParam st kv =
      { st with
        digestRealm := (if kv.1 = ascii "realm" then some kv.2 else none).getD st.digestRealm
        digestNonce := (if kv.1 = ascii "nonce" then some kv.2 else none).getD st.digestNonce
        digestQop := (if kv.1 = ascii "qop" then some kv.2 else none).getD st.digestQop
        digestOpaque := (if kv.1 = ascii "opaque" then some kv.2 else none).getD st.digestOpaque
        digestAlgorithm := (if kv.1 = ascii "algorithm" then some kv.2 else none).getD st.digestAlgorithm } := by
  by_cases hrealm : kv.1 = ascii "realm"
  · simp +decide [keepParam, hrealm]
  by_cases hnonce : kv.1 = ascii "nonce"
  · simp +decide [keepParam, hnonce]
  by_cases hqop : kv.1 = ascii "qop"
  · simp +decide [keepParam, hqop]
  by_cases hopaque : kv.1 = ascii "opaque"
  · simp +decide [keepParam, hopaque]
  by_cases halgorithm : kv.1 = ascii "algorithm"
  · simp +decide [keepParam, halgorithm]
  simp only [keepParam, if_neg hrealm, if_neg hnonce, if_neg hqop, if_neg hopaque, if_neg halgorithm, Option.getD_none]

theorem keepParams_rest (p : List (Bytes × Bytes)) (st : AuthState) :
    (p.foldl keepParam st).authScheme = st.authScheme ∧ (p.foldl keepParam st).digestNc = st.digestNc := by
  induction p generalizing st with
  | nil => exact ⟨rfl, rfl⟩
  | cons kv p ih =>
      have hone : (keepParam st kv).authScheme = st.authScheme ∧ (keepParam st kv).digestNc = st.digestNc := by
        rw [keepParam_eq]
        exact ⟨rfl, rfl⟩
      rw [List.foldl_cons, (ih _).1, (ih _).2]
      exact hone

/-- Of a list of parameters the client keeps the last value of each of the five keys. -/
theorem keepParams_clear (p : List (Bytes × Bytes)) (st : AuthState) :
    p.foldl keepParam st.clear =
      { st with
        digestRealm := valueOr p (ascii "realm") []
        digestNonce := valueOr p (ascii "nonce") []
        digestQop := valueOr p (ascii "qop") []
        digestOpaque := valueOr p (ascii "opaque") []
        digestAlgorithm := valueOr p (ascii "algorithm") [] } := by
  have hrest := keepParams_rest p st.clear
  have hrealm := foldl_last (fun st kv => congrArg AuthState.digestRealm (keepParam_eq st kv)) p st.clear
  have hnonce := foldl_last (fun st kv => congrArg AuthState.digestNonce (keepParam_eq st kv)) p st.clear
  have hqop := foldl_last (fun st kv => congrArg AuthState.digestQop (keepParam_eq st kv)) p st.clear
  have hopaque := foldl_last (fun st kv => congrArg AuthState.digestOpaque (keepParam_eq st kv)) p st.clear
  have halgorithm := foldl_last (fun st kv => congrArg AuthState.digestAlgorithm (keepParam_eq st kv)) p st.clear
  generalize p.foldl keepParam st.clear = kept at *
  cases kept
  simp only at hrest hrealm hnonce hqop hopaque halgorithm
  simp only [hrest, hrealm, hnonce, hqop, hopaque, halgorithm, AuthState.clear, valueOr]

/-- A challenge with parameters is adopted if it names a realm and a nonce, and else replaces them. -/
theorem adoptChallenge_digest {resp : Response} {p : List (Bytes × Bytes)} (h : digestParams resp = some p)
    (st : AuthState) :
    adoptChallenge resp st =
      .ok (if valueOr p (ascii "realm") [] = [] ∨ valueOr p (ascii "nonce") [] = [] then
          (false, p.foldl keepParam st.clear)
        else (true, { p.foldl keepParam st.clear with digestNc := 0, authScheme := .digest })) := by
  rw [digestParams] at h
  rw [adoptChallenge]
  split_ifs at h with hdigest
  obtain ⟨q, hq⟩ := parseAuthParams_ok ((resp.header (ascii "www-authenticate")).drop 7)
  rw [hq] at h
  obtain rfl := Option.some.inj h
  have hne : resp.header (ascii "www-authenticate") ≠ [] := by
    intro hnil
    rw [hnil] at hdigest
    exact absurd hdigest (by decide +kernel)
  rw [if_neg hne, if_pos hdigest, hq, ok_bind]
  simp only [keepParams_clear, Bool.or_eq_true, decide_eq_true_eq]
  split_ifs <;> rfl

/-- A response without a Digest challenge leaves the state, unless it asks for Basic. -/
theorem adoptChallenge_other {resp : Response} (h : digestParams resp = none) (st : AuthState) :
    adoptChallenge resp st = .ok (false, st) ∨
      adoptChallenge resp st = .ok (true, { st with authScheme := .basic }) := by
  rw [digestParams] at h
  rw [adoptChallenge]
  split_ifs with hnil hdigest hbasic
  · exact Or.inl rfl
  · obtain ⟨q, hq⟩ := parseAuthParams_ok ((resp.header (ascii "www-authenticate")).drop 7)
    rw [if_pos hdigest, hq] at h
    cases h
  · exact Or.inr rfl
  · exact Or.inl rfl

theorem agrees_iff (p : List (Bytes × Bytes)) (st : AuthState) :
    p.foldl keepParam st.clear = st ↔ Agrees p st := by
  rw [keepParams_clear]
  obtain ⟨scheme, realm, nonce, qop, op, algorithm, nc⟩ := st
  constructor
  · intro h
    simp only [AuthState.mk.injEq, true_and, and_true] at h
    exact ⟨h.1.symm, h.2.1.symm, h.2.2.1.symm, h.2.2.2.1.symm, h.2.2.2.2.symm⟩
  · intro h
    have := h.realm
    have := h.nonce
    have := h.qop
    have := h.opaqueText
    have := h.algorithm
    simp_all

/-- A challenge that is not adopted leaves the state as it was exactly if it is no Digest challenge, or
names a realm and a nonce, or says only what the client already keeps. -/
theorem adopt_challenge_keeps_iff (resp : Response) (st : AuthState) :
    (∃ r, adoptChallenge resp st = .ok r) ∧
      ((∀ st', adoptChallenge resp st = .ok (false, st') → st' = st) ↔
        ∀ p ∈ digestParams resp,
          (valueOr p (ascii "realm") [] ≠ [] ∧ valueOr p (ascii "nonce") [] ≠ []) ∨ Agrees p st) := by
  cases hp : digestParams resp with
  | none =>
      rcases adoptChallenge_other hp st with h | h
      · refine ⟨⟨_, h⟩, iff_of_true (fun st' hst => ?_) (fun p hmem => by cases hmem)⟩
        rw [h] at hst
        exact (Prod.mk.inj (Except.ok.inj hst)).2.symm
      · refine ⟨⟨_, h⟩, iff_of_true (fun st' hst => ?_) (fun p hmem => by cases hmem)⟩
        rw [h] at hst
        exact absurd (Prod.mk.inj (Except.ok.inj hst)).1 (by decide)
  | some p =>
      have h := adoptChallenge_digest hp st
      refine ⟨⟨_, h⟩, ?_⟩
      simp only [Option.mem_def, Option.some.injEq, forall_eq']
      rw [h, ← agrees_iff]
      split_ifs with hempty
      · have hno : ¬ (valueOr p (ascii "realm") [] ≠ [] ∧ valueOr p (ascii "nonce") [] ≠ []) := by tauto
        rw [or_iff_right hno]
        exact ⟨fun hst => hst _ rfl, fun hst st' heq => (Prod.mk.inj (Except.ok.inj heq)).2 ▸ hst⟩
      · refine iff_of_true (fun st' heq => ?_) (Or.inl ?_)
        · exact absurd (Prod.mk.inj (Except.ok.inj heq)).1 (by decide)
        · tauto

/-- A client in the middle of a Digest session. -/
def workingState : AuthState where
  authScheme := .digest
  digestRealm := ascii "LIVE555 Streaming Media"
  digestNonce := ascii "a1b2c3"
  digestQop := []
  digestOpaque := []
  digestAlgorithm := []
  digestNc := 0

/-- A 401 whose challenge has no nonce. -/
def challengeWithoutNonce : Response where
  status := 401
  reason := ascii "Unauthorized"
  headers := [(ascii "www-authenticate", ascii "Digest realm=x")]
  body := []

/-- It is not adopted, and the session's nonce is gone. -/
theorem adopt_challenge_loses_nonce :
    adoptChallenge challengeWithoutNonce workingState =
        .ok (false, { workingState with digestRealm := ascii "x", digestNonce := [] }) ∧
      ¬ ∀ st', adoptChallenge challengeWithoutNonce workingState = .ok (false, st') → st' = workingState := by
  have hrun : adoptChallenge challengeWithoutNonce workingState =
      .ok (false, { workingState with digestRealm := ascii "x", digestNonce := [] }) := by decide +kernel
  refine ⟨hrun, fun h => ?_⟩
  exact absurd (h _ hrun) (by decide +kernel)

end OpenBambu.Rtsp
