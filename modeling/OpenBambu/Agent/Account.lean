import OpenBambu.Foundation.Run
import OpenBambu.Foundation.Text
import OpenBambu.Json.Parser

/-!
# The stored account

`Agent::apply_login_info`, `Agent::clear_session` and `Agent::hydrate_session` over the session of
`auth::Store`, with the replies of the cloud as `cloud_auth` reads them.
-/

namespace OpenBambu.Agent

open OpenBambu.Foundation OpenBambu.Json

/-! ## The session -/

structure Session where
  region : Bytes := ascii "GLOBAL"
  account : Bytes := []
  accessToken : Bytes := []
  refreshToken : Bytes := []
  /-- In ticks of the system clock. -/
  expiresAt : Int := 0
  userId : Bytes := []
  userName : Bytes := []
  nickName : Bytes := []
  avatar : Bytes := []
  deriving DecidableEq, Repr

def Session.loggedIn (s : Session) : Prop := s.accessToken ≠ [] ∧ s.userId ≠ []

instance (s : Session) : Decidable s.loggedIn := inferInstanceAs (Decidable (_ ∧ _))

/-- The new value unless it is empty. -/
def overlay (old new : Bytes) : Bytes := if new = [] then old else new

/-- A time so many seconds later, in the 64-bit nanoseconds of the clock. -/
def afterSeconds (now seconds : Int) : Int := (now + seconds * 10 ^ 9).bmod (2 ^ 64)

/-- `Store::update_tokens`. -/
def Session.updateTokens (s : Session) (now : Int) (access refresh : Bytes) (lifetime : Int) : Session :=
  { s with
    accessToken := access
    refreshToken := overlay s.refreshToken refresh
    expiresAt := afterSeconds now lifetime }

/-- `Store::update_profile`. -/
def Session.updateProfile (s : Session) (userId userName nickName avatar : Bytes) : Session :=
  { s with
    userId := overlay s.userId userId
    userName := overlay s.userName userName
    nickName := overlay s.nickName nickName
    avatar := overlay s.avatar avatar }

/-- `Store::needs_refresh` with its margin of ten minutes. -/
def Session.needsRefresh (s : Session) (now : Int) : Bool :=
  if s.accessToken = [] then true
  else if s.expiresAt = 0 then false
  else s.expiresAt ≤ afterSeconds now 600

/-! ## Replies of the cloud -/

structure Response where
  error : Bytes
  statusCode : Int
  body : Bytes

structure AuthResult where
  accessToken : Bytes
  refreshToken : Bytes
  expiresIn : Int

/-- `cloud::refresh_token` from the response of the server, if it is `ok`. -/
def refreshToken (resp : Response) : Option AuthResult :=
  if resp.error ≠ [] then none
  else
    match parse resp.body with
    | .error _ => none
    | .ok root =>
        let access := (root.find (ascii "accessToken")).asString
        if access = [] then none
        else some
          { accessToken := access
            refreshToken := (root.find (ascii "refreshToken")).asString
            expiresIn := (root.find (ascii "expiresIn")).asInt 0 }

structure ProfileResult where
  userId : Bytes
  userName : Bytes
  nickName : Bytes
  avatar : Bytes
  account : Bytes

/-- `cloud::get_profile` from the response of the server, if it is `ok`. -/
def getProfile (resp : Response) : Option ProfileResult :=
  if resp.error ≠ [] then none
  else if resp.statusCode ≠ 200 then none
  else
    match parse resp.body with
    | .error _ => none
    | .ok root =>
        let uidStr := (root.find (ascii "uidStr")).asString
        let uid := (root.find (ascii "uid")).asInt 0
        let nickname := (root.find (ascii "nickname")).asString
        some
          { userId := if uidStr = [] ∧ uid ≠ 0 then signed uid else uidStr
            userName := (root.find (ascii "name")).asString
            nickName := if nickname = [] then (root.find (ascii "nickName")).asString else nickname
            avatar := (root.find (ascii "avatar")).asString
            account := (root.find (ascii "account")).asString }

/-! ## Login -/

/-- `std::stoll`, as a zero where it throws. -/
def stoll (s : Bytes) : Int :=
  let s := s.dropWhile isspace
  let negative := s.head? = some Ascii.minus
  let s := if negative ∨ s.head? = some Ascii.plus then s.tail else s
  let n : Int := ofDecimal (s.takeWhile isDigit)
  let n := if negative then -n else n
  if -2 ^ 63 ≤ n ∧ n < 2 ^ 63 then n else 0

def readIntOrStr (v : Value) : Int := if v.isNumber then v.asInt 0 else stoll v.asString

structure LoginInfo where
  accessToken : Bytes
  refreshToken : Bytes
  expiresIn : Int
  account : Bytes
  userId : Bytes
  userName : Bytes
  nickName : Bytes
  avatar : Bytes
  haveProfileInline : Bool
  deriving DecidableEq, Repr

/-- The envelope that Studio builds; without a token in it, the reply to a ticket. -/
def readLogin (root : Value) : LoginInfo :=
  let text (path : String) := (root.find (ascii path)).asString
  let account := text "data.user.account"
  let userId := text "data.user.uid"
  let userName := text "data.user.name"
  let avatar := text "data.user.avatar"
  let envelope : LoginInfo :=
    { accessToken := text "data.token"
      refreshToken := text "data.refresh_token"
      expiresIn := readIntOrStr (root.find (ascii "data.expires_in"))
      account, userId, userName, avatar
      nickName := text "data.user.nickname"
      haveProfileInline := userId ≠ [] ∨ userName ≠ [] ∨ avatar ≠ [] ∨ account ≠ [] }
  if envelope.accessToken = [] then
    { envelope with
      accessToken := text "accessToken"
      refreshToken := text "refreshToken"
      expiresIn := readIntOrStr (root.find (ascii "expiresIn"))
      account := text "account" }
  else envelope

/-- A call of `apply_login_info`, with what the agent finds while it runs. -/
structure LoginCall where
  json : Bytes
  countryCode : Bytes
  now : Int
  /-- The reply to the profile request, if one is made. -/
  profile : Response

def cloudRegion (countryCode : Bytes) : Bytes :=
  if countryCode = ascii "CN" then ascii "CN" else ascii "GLOBAL"

/-- The lifetime that is assumed where none is given. -/
def lifetimeOf (expiresIn : Int) : Int := if 0 < expiresIn then expiresIn else 3 * 30 * 24 * 3600

/-- The session with the tokens of a login. -/
def withTokens (s : Session) (call : LoginCall) (info : LoginInfo) : Session :=
  { s with
    region := cloudRegion call.countryCode
    accessToken := info.accessToken
    refreshToken := overlay s.refreshToken info.refreshToken
    account := overlay s.account info.account
    expiresAt := afterSeconds call.now (lifetimeOf info.expiresIn) }

/-- The session with the profile of a login, as it came or as the cloud has it. -/
def withProfile (s : Session) (call : LoginCall) (info : LoginInfo) : Session :=
  if info.haveProfileInline then
    s.updateProfile info.userId info.userName info.nickName info.avatar
  else
    match getProfile call.profile with
    | some prof => s.updateProfile prof.userId prof.userName prof.nickName prof.avatar
    | none => s

inductive LoginError where
  | invalidHandle
  | invalidResult
  deriving DecidableEq, Repr

/-- The store is there once the directory of the configuration is set. -/
abbrev AuthStore := Option Session

def applyLoginInfo (store : AuthStore) (call : LoginCall) : Except LoginError Session :=
  match store with
  | none => .error .invalidHandle
  | some s =>
      match parse call.json with
      | .error _ => .error .invalidResult
      | .ok root =>
          let info := readLogin root
          if info.accessToken = [] then .error .invalidResult
          else .ok (withProfile (withTokens s call info) call info)

def clearSession (store : AuthStore) : AuthStore := store.map fun _ => {}

/-- The reply with which `hydrate_session` updates the tokens, where it does. -/
def hydrateReply (s : Session) (now : Int) (resp : Response) : Option AuthResult :=
  if ¬ s.loggedIn then none
  else if ¬ s.needsRefresh now then none
  else if s.refreshToken = [] then none
  else refreshToken resp

def hydrateSession (store : AuthStore) (now : Int) (resp : Response) : AuthStore :=
  store.map fun s =>
    match hydrateReply s now resp with
    | none => s
    | some r =>
        let refresh := if r.refreshToken = [] then s.refreshToken else r.refreshToken
        s.updateTokens now r.accessToken refresh (lifetimeOf r.expiresIn)

/-! ## Runs -/

/-- The calls of the agent; a login is of an account. -/
inductive AccountEvent (α : Type*) where
  | login (who : α) (call : LoginCall)
  | clear
  | hydrate (now : Int) (resp : Response)

variable {α : Type*}

/-- The store after a call. A failed login leaves it as it was. -/
def AccountEvent.store (store : AuthStore) : AccountEvent α → AuthStore
  | .login _ call =>
      match applyLoginInfo store call with
      | .ok s => some s
      | .error _ => store
  | .clear => clearSession store
  | .hydrate now resp => hydrateSession store now resp

/-- The fields that belong to an account. -/
inductive Field where
  | accessToken | refreshToken | account | userId | userName | nickName | avatar
  deriving DecidableEq, Repr

def Session.get (s : Session) : Field → Bytes
  | .accessToken => s.accessToken
  | .refreshToken => s.refreshToken
  | .account => s.account
  | .userId => s.userId
  | .userName => s.userName
  | .nickName => s.nickName
  | .avatar => s.avatar

/-- What a login supplies of a field, from its payload or from the profile it asks for. -/
def supplied (call : LoginCall) (info : LoginInfo) (f : Field) : Bytes :=
  let profile (inPayload : LoginInfo → Bytes) (inReply : ProfileResult → Bytes) :=
    if info.haveProfileInline then inPayload info else ((getProfile call.profile).map inReply).getD []
  match f with
  | .accessToken => info.accessToken
  | .refreshToken => info.refreshToken
  | .account => info.account
  | .userId => profile LoginInfo.userId ProfileResult.userId
  | .userName => profile LoginInfo.userName ProfileResult.userName
  | .nickName => profile LoginInfo.nickName ProfileResult.nickName
  | .avatar => profile LoginInfo.avatar ProfileResult.avatar

/-- What a payload with a token says. -/
def payloadInfo (call : LoginCall) : Option LoginInfo :=
  match parse call.json with
  | .error _ => none
  | .ok root => if (readLogin root).accessToken = [] then none else some (readLogin root)

/-- What a login has read of its payload, if it goes through. -/
def loginInfo (store : AuthStore) (call : LoginCall) : Option LoginInfo :=
  store.bind fun _ => payloadInfo call

/-- The store, the account that each field came from, and the account of the last login. -/
structure Traced (α : Type*) where
  store : AuthStore
  source : Field → α
  last : α

/-- A value comes from the account whose login supplied it, a refreshed token from the one of the
token it was refreshed with. -/
def Traced.step (t : Traced α) (e : AccountEvent α) : Traced α where
  store := e.store t.store
  source := fun f =>
    match e with
    | .login who call =>
        match loginInfo t.store call with
        | some info => if supplied call info f = [] then t.source f else who
        | none => t.source f
    | .clear => t.source f
    | .hydrate now resp =>
        match t.store.bind fun s => hydrateReply s now resp with
        | some _ => if f = .accessToken then t.source .refreshToken else t.source f
        | none => t.source f
  last :=
    match e with
    | .login who call => if (loginInfo t.store call).isSome then who else t.last
    | _ => t.last

/-- A stored session, all of one account. -/
def Traced.start (store : AuthStore) (who : α) : Traced α := ⟨store, fun _ => who, who⟩

/-- Every field is empty or comes from the account of the last login. -/
def OneAccount (t : Traced α) : Prop :=
  ∀ s, t.store = some s → ∀ f, s.get f = [] ∨ t.source f = t.last

def SameButExpiry (s s' : Session) : Prop := s.region = s'.region ∧ ∀ f, s.get f = s'.get f

/-- The login of another account leaves the session that it leaves where nobody was logged in. -/
def LoginForgets (t : Traced α) (e : AccountEvent α) : Prop :=
  ∀ who call s, e = .login who call → who ≠ t.last → applyLoginInfo t.store call = .ok s →
    ∃ s', applyLoginInfo (some {}) call = .ok s' ∧ SameButExpiry s s'

/-- What the login of another account does not supply is empty already. -/
def LoginCovers (t : Traced α) (e : AccountEvent α) : Prop :=
  ∀ who call info s, e = .login who call → who ≠ t.last → loginInfo t.store call = some info →
    t.store = some s → ∀ f, supplied call info f = [] → s.get f = []

/-- No session of the run mixes accounts, and no login depends on who was logged in before. -/
def AccountLaw (store : AuthStore) (who : α) (run : List (AccountEvent α)) : Prop :=
  InEveryState Traced.step OneAccount (.start store who) run ∧
    AtEveryStep Traced.step LoginForgets (.start store who) run

/-! ## One login -/

theorem payloadInfo_token {call : LoginCall} {info : LoginInfo} (h : payloadInfo call = some info) :
    info.accessToken ≠ [] := by
  unfold payloadInfo at h
  split at h
  · cases h
  · split_ifs at h with hc
    cases h
    exact hc

theorem loginInfo_eq_some {store : AuthStore} {call : LoginCall} {info : LoginInfo} :
    loginInfo store call = some info ↔ (∃ s, store = some s) ∧ payloadInfo call = some info := by
  cases store with
  | none => simp [loginInfo]
  | some s => simp [loginInfo]

/-- A login goes through when there is a store and the payload has a token. -/
theorem applyLoginInfo_some (s : Session) (call : LoginCall) :
    applyLoginInfo (some s) call =
      match payloadInfo call with
      | some info => .ok (withProfile (withTokens s call info) call info)
      | none => .error .invalidResult := by
  rw [applyLoginInfo, payloadInfo]
  cases parse call.json with
  | error e => rfl
  | ok root =>
      by_cases hc : (readLogin root).accessToken = []
      · simp [hc]
      · simp [hc]

theorem region_withProfile (s : Session) (call : LoginCall) (info : LoginInfo) :
    (withProfile s call info).region = s.region := by
  unfold withProfile
  split_ifs
  · rfl
  · cases getProfile call.profile <;> rfl

/-- A login keeps of a field only what it does not supply. -/
theorem get_login (s : Session) (call : LoginCall) {info : LoginInfo} (h : info.accessToken ≠ [])
    (f : Field) : (withProfile (withTokens s call info) call info).get f =
      overlay (s.get f) (supplied call info f) := by
  have hover : ∀ x : Bytes, overlay x [] = x := fun x => rfl
  unfold withProfile supplied
  by_cases hi : info.haveProfileInline
  · cases f <;> simp [hi, Session.get, withTokens, Session.updateProfile, overlay, h]
  · cases getProfile call.profile <;> cases f <;>
      simp [hi, Session.get, withTokens, Session.updateProfile, overlay, h]

theorem applyLoginInfo_ok {store : AuthStore} {call : LoginCall} {s' : Session}
    (h : applyLoginInfo store call = .ok s') :
    ∃ s info, store = some s ∧ payloadInfo call = some info ∧
      s' = withProfile (withTokens s call info) call info := by
  cases store with
  | none => cases h
  | some s =>
      rw [applyLoginInfo_some] at h
      cases hp : payloadInfo call with
      | none =>
          rw [hp] at h
          cases h
      | some info =>
          rw [hp] at h
          cases h
          exact ⟨s, info, rfl, rfl, rfl⟩

theorem store_login {s : Session} {call : LoginCall} {info : LoginInfo} {who : α}
    (h : payloadInfo call = some info) :
    (AccountEvent.login who call).store (some s) =
      some (withProfile (withTokens s call info) call info) := by
  rw [AccountEvent.store, applyLoginInfo_some, h]

/-- The login of another account forgets the session before it exactly when it covers it. -/
theorem loginForgets_iff (t : Traced α) (e : AccountEvent α) : LoginForgets t e ↔ LoginCovers t e := by
  constructor
  · intro h who call info s he hwho hl ht f hf
    have hp := (loginInfo_eq_some.1 hl).2
    have htok := payloadInfo_token hp
    obtain ⟨s', hs', -, hsame⟩ := h who call (withProfile (withTokens s call info) call info) he hwho
      (by rw [ht, applyLoginInfo_some, hp])
    rw [applyLoginInfo_some, hp] at hs'
    cases hs'
    have hget := hsame f
    rw [get_login _ _ htok, get_login _ _ htok, overlay, if_pos hf, overlay, if_pos hf] at hget
    rw [hget]
    cases f <;> rfl
  · intro h who call s' he hwho hs'
    obtain ⟨s, info, ht, hp, rfl⟩ := applyLoginInfo_ok hs'
    have htok := payloadInfo_token hp
    have hcov := h who call info s he hwho (loginInfo_eq_some.2 ⟨⟨s, ht⟩, hp⟩) ht
    refine ⟨withProfile (withTokens {} call info) call info, by rw [applyLoginInfo_some, hp], ?_, ?_⟩
    · rw [region_withProfile, region_withProfile]
      rfl
    · intro f
      rw [get_login _ _ htok, get_login _ _ htok, overlay, overlay]
      split_ifs with hf
      · rw [hcov f hf]
        cases f <;> rfl
      · rfl

/-! ## One step -/

theorem OneAccount.login {t : Traced α} {who : α} {call : LoginCall} (h : OneAccount t)
    (hc : LoginCovers t (.login who call)) : OneAccount (t.step (.login who call)) := by
  intro s' hs' f
  cases hl : loginInfo t.store call with
  | none =>
      have hstore : (t.step (.login who call)).store = t.store := by
        show AccountEvent.store t.store (.login who call) = t.store
        cases ht : t.store with
        | none => rfl
        | some s =>
            rw [ht] at hl
            rw [AccountEvent.store, applyLoginInfo_some, show payloadInfo call = none from hl]
      rw [hstore] at hs'
      simpa [Traced.step, hl] using h s' hs' f
  | some info =>
      obtain ⟨⟨s, ht⟩, hp⟩ := loginInfo_eq_some.1 hl
      have htok := payloadInfo_token hp
      have hs : s' = withProfile (withTokens s call info) call info := by
        have hst : AccountEvent.store t.store (.login who call) = some s' := hs'
        rw [ht, store_login hp] at hst
        exact (Option.some.inj hst).symm
      subst hs
      simp only [Traced.step, hl, Option.isSome_some, if_true]
      by_cases hf : supplied call info f = []
      · rw [get_login _ _ htok, overlay, if_pos hf, if_pos hf]
        by_cases hwho : who = t.last
        · rw [hwho]
          exact h s ht f
        · exact Or.inl (hc who call info s rfl hwho hl ht f hf)
      · rw [if_neg hf]
        exact Or.inr rfl

theorem OneAccount.clear {t : Traced α} : OneAccount (t.step .clear) := by
  intro s' hs' f
  left
  have hst : clearSession t.store = some s' := hs'
  unfold clearSession at hst
  cases ht : t.store with
  | none =>
      rw [ht] at hst
      cases hst
  | some s =>
      rw [ht] at hst
      cases hst
      cases f <;> rfl

theorem hydrateReply_some {s : Session} {now : Int} {resp : Response} {r : AuthResult}
    (h : hydrateReply s now resp = some r) : s.refreshToken ≠ [] := by
  unfold hydrateReply at h
  split_ifs at h with h1 h2 h3
  exact h3

theorem OneAccount.hydrate {t : Traced α} {now : Int} {resp : Response} (h : OneAccount t) :
    OneAccount (t.step (.hydrate now resp)) := by
  intro s' hs' f
  have hst : hydrateSession t.store now resp = some s' := hs'
  unfold hydrateSession at hst
  cases ht : t.store with
  | none =>
      rw [ht] at hst
      cases hst
  | some s =>
      rw [ht, Option.map_some, Option.some.injEq] at hst
      cases hr : hydrateReply s now resp with
      | none =>
          rw [hr] at hst
          subst hst
          simpa [Traced.step, ht, hr] using h s ht f
      | some r =>
          rw [hr] at hst
          subst hst
          have href : t.source .refreshToken = t.last :=
            (h s ht .refreshToken).resolve_left (hydrateReply_some hr)
          by_cases hf : f = .accessToken
          · right
            simp [Traced.step, ht, hr, hf, href]
          · have hsrc : (t.step (.hydrate now resp)).source f = t.source f := by
              simp [Traced.step, ht, hr, hf]
            rw [hsrc]
            show _ ∨ t.source f = t.last
            by_cases hf' : f = .refreshToken
            · exact Or.inr (hf' ▸ href)
            · have hget : ∀ access refresh lifetime,
                  (s.updateTokens now access refresh lifetime).get f = s.get f := by
                intro access refresh lifetime
                cases f <;> first | rfl | contradiction
              rw [hget]
              exact h s ht f

theorem OneAccount.step {t : Traced α} {e : AccountEvent α} (h : OneAccount t) (hc : LoginCovers t e) :
    OneAccount (t.step e) := by
  cases e with
  | login who call => exact h.login hc
  | clear => exact OneAccount.clear
  | hydrate now resp => exact h.hydrate

theorem OneAccount.start (store : AuthStore) (who : α) : OneAccount (Traced.start store who) := by
  intro s _ f
  exact Or.inr rfl

/-- The stored session never mixes accounts exactly when every login of another account finds
empty what it does not supply. -/
theorem accountLaw_iff (store : AuthStore) (who : α) (run : List (AccountEvent α)) :
    AccountLaw store who run ↔ AtEveryStep Traced.step LoginCovers (.start store who) run := by
  have hforget : AtEveryStep Traced.step LoginForgets (.start store who) run ↔
      AtEveryStep Traced.step LoginCovers (.start store who) run := by
    constructor
    · intro h past e rest hr
      exact (loginForgets_iff _ e).1 (h past e rest hr)
    · intro h past e rest hr
      exact (loginForgets_iff _ e).2 (h past e rest hr)
  rw [AccountLaw, hforget]
  constructor
  · intro h
    exact h.2
  · intro h
    refine ⟨?_, h⟩
    exact inEveryState_of_step (fun t e ht hc => ht.step hc) (OneAccount.start store who) h

/-- The first user signs in through the browser, with the whole profile. -/
def firstLogin : LoginCall where
  json := ascii "\x7b\"data\":\x7b\"token\":\"t1\",\"refresh_token\":\"r1\"," ++
    ascii "\"user\":\x7b\"uid\":\"1\",\"name\":\"ann\"\x7d\x7d\x7d"
  countryCode := []
  now := 0
  profile := ⟨[], 0, []⟩

/-- The second user signs in with a ticket, and the cloud does not answer for the profile. -/
def secondLogin : LoginCall where
  json := ascii "\x7b\"accessToken\":\"t2\"\x7d"
  countryCode := []
  now := 0
  profile := ⟨ascii "timeout", 0, []⟩

/-- The token of the second user next to the user id of the first. -/
theorem secondLogin_mixed :
    (after Traced.step (.start (some {}) false) [.login false firstLogin, .login true secondLogin]).store =
      some { accessToken := ascii "t2", refreshToken := ascii "r1", userId := ascii "1",
             userName := ascii "ann", expiresAt := afterSeconds 0 (3 * 30 * 24 * 3600) } := by
  decide +kernel

theorem accountLaw_fails :
    ¬ AccountLaw (some {}) false [.login false firstLogin, .login true secondLogin] := by
  intro h
  have hone := h.1 [.login false firstLogin, .login true secondLogin] [] (by simp)
  have hmix := hone _ secondLogin_mixed .userId
  revert hmix
  decide +kernel

end OpenBambu.Agent
