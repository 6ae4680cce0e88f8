import OpenBambu.Rtsp.Conversation

/-!
# What the printer gets to read

Each request of a client is made from what has been exchanged before it: its number counts the requests, and
its `Authorization` answers the last challenge that could be used. That holds from OPTIONS to TEARDOWN, over all
pings.
-/

namespace OpenBambu.Rtsp

open OpenBambu.Foundation OpenBambu.Foundation.Dialogue

/-! ## What has been exchanged -/

/-- Behind a reply. -/
def AuthState.heard (auth : AuthState) (resp : Response) : AuthState :=
  if resp.status = 401 then
    match adoptChallenge resp auth with
    | .ok (true, adopted) => adopted
    | _ => auth
  else auth

/-- What an exchange leaves of the challenge and its count. -/
def AuthState.behind (auth : AuthState) : Exchange RtspAnswer → AuthState
  | ⟨.write _, _⟩ => auth.spent
  | ⟨.await .., ans⟩ =>
      match ans.1 with
      | .ok (resp, _) => auth.heard resp
      | .error _ => auth
  | _ => auth

section Past

variable (md5Hex : Bytes → Bytes) (who : Credentials) (urlFull : Bytes)

/-- A request with this number and the header for this challenge. -/
def RequestOf (n : Int) (auth : AuthState) (req : Bytes) : Prop :=
  ∃ st cnonce, st.cseq.toInt = n ∧ st.auth = auth ∧
    ((∃ l, req = requestText md5Hex who l st cnonce) ∨
      ∃ method, req = inlineRequest method urlFull st
        (computeAuthorization md5Hex cnonce who method urlFull st.auth).1)

/-- The number of the request behind these exchanges, counted in the `int` of the client. -/
def numberBehind (n : Int32) (past : List (Exchange RtspAnswer)) : Int32 :=
  n + Int32.ofNat (requestsWritten past).length

/-- Every request is made from the exchanges before it. -/
def FromPast (n : Int32) (auth : AuthState) (t : List (Exchange RtspAnswer)) : Prop :=
  ∀ past req ok rest, t = past ++ wrote req ok :: rest →
    RequestOf md5Hex who urlFull (numberBehind n past).toInt (past.foldl AuthState.behind auth) req

/-- The exchanges lead from one state of the client to the other. -/
structure Leads (st st' : ClientState) (t : List (Exchange RtspAnswer)) : Prop where
  fromPast : FromPast md5Hex who urlFull st.cseq st.auth t
  cseq : st'.cseq = numberBehind st.cseq t
  auth : st'.auth = t.foldl AuthState.behind st.auth

end Past

section Requests

variable {md5Hex : Bytes → Bytes} {who : Credentials} {urlFull : Bytes} {n : Int32} {auth : AuthState}
variable {t t' : List (Exchange RtspAnswer)}

theorem numberBehind_nil (n : Int32) : numberBehind n [] = n := Int32.add_zero n

theorem numberBehind_append (n : Int32) (t t' : List (Exchange RtspAnswer)) :
    numberBehind n (t ++ t') = numberBehind (numberBehind n t) t' := by
  rw [numberBehind, numberBehind, numberBehind, Int32.add_assoc, ← Int32.ofNat_add, ← List.length_append,
    requestsWritten, requestsWritten, requestsWritten, ← List.filterMap_append]

theorem fromPast_nil : FromPast md5Hex who urlFull n auth [] := fun _ _ _ _ h =>
  absurd h.symm (List.append_ne_nil_of_right_ne_nil _ (List.cons_ne_nil _ _))

theorem FromPast.earlier (h : FromPast md5Hex who urlFull n auth t) (ht : t' <+: t) :
    FromPast md5Hex who urlFull n auth t' := by
  obtain ⟨more, rfl⟩ := ht
  rintro past req ok rest rfl
  exact h past req ok (rest ++ more) (by rw [List.append_assoc, List.cons_append])

theorem FromPast.append (h : FromPast md5Hex who urlFull n auth t)
    (h' : FromPast md5Hex who urlFull (numberBehind n t) (t.foldl AuthState.behind auth) t') :
    FromPast md5Hex who urlFull n auth (t ++ t') := by
  intro past req ok rest heq
  rcases List.append_eq_append_iff.mp heq with ⟨mid, rfl, hmid⟩ | ⟨mid, rfl, hmid⟩
  · have hreq := h' mid req ok rest hmid
    rwa [← numberBehind_append, ← List.foldl_append] at hreq
  · cases mid with
    | nil =>
        have hreq := h' [] req ok rest hmid.symm
        rwa [List.append_nil, numberBehind_nil] at hreq
    | cons x mid =>
        obtain ⟨rfl, -⟩ := List.cons.inj hmid
        exact h past req ok mid rfl

theorem fromPast_wrote {req : Bytes} (h : RequestOf md5Hex who urlFull n.toInt auth req) (ok : Bool) :
    FromPast md5Hex who urlFull n auth [wrote req ok] := by
  intro past req' ok' rest heq
  cases past with
  | nil =>
      obtain ⟨hwrote, -⟩ := List.cons.inj heq
      obtain rfl : req = req' := RtspCall.write.inj (congrArg Sigma.fst hwrote)
      rw [numberBehind_nil]
      exact h
  | cons x past => exact absurd (List.cons.inj heq).2.symm (List.append_ne_nil_of_right_ne_nil _ (List.cons_ne_nil _ _))

theorem fromPast_got (st : ClientState) (ans : Awaited st) : FromPast md5Hex who urlFull n auth [got st ans] := by
  intro past req ok rest heq
  cases past with
  | nil => exact nomatch congrArg Sigma.fst (List.cons.inj heq).1
  | cons x past => exact absurd (List.cons.inj heq).2.symm (List.append_ne_nil_of_right_ne_nil _ (List.cons_ne_nil _ _))

theorem leads_nil (st : ClientState) : Leads md5Hex who urlFull st st [] :=
  ⟨fromPast_nil, (numberBehind_nil _).symm, rfl⟩

theorem Leads.trans {st st₁ st₂ : ClientState} (h : Leads md5Hex who urlFull st st₁ t)
    (h' : Leads md5Hex who urlFull st₁ st₂ t') : Leads md5Hex who urlFull st st₂ (t ++ t') where
  fromPast := h.fromPast.append (h.cseq ▸ h.auth ▸ h'.fromPast)
  cseq := by rw [h'.cseq, h.cseq, numberBehind_append]
  auth := by rw [List.foldl_append, h'.auth, h.auth]

/-! ## The handshake -/

theorem requestOf_line (c : Conversation) (cnonce : Bytes) :
    RequestOf md5Hex who urlFull c.client.cseq.toInt c.client.auth (c.request md5Hex who urlFull cnonce) :=
  ⟨c.client, cnonce, rfl, rfl, Or.inl ⟨c.line urlFull, rfl⟩⟩

theorem granted_client {phase : Phase} {control : Bytes} {resp : Response} {st : ClientState} {c : Conversation}
    (h : granted urlFull phase control resp st = some c) : c.client.cseq = st.cseq ∧ c.client.auth = st.auth := by
  unfold granted at h
  split_ifs at h with h200
  cases phase with
  | options =>
      obtain rfl := Option.some.inj h
      exact ⟨rfl, rfl⟩
  | describe =>
      dsimp only at h
      split at h
      · cases h
      · obtain rfl := Option.some.inj h
        exact ⟨rfl, rfl⟩
  | setup =>
      dsimp only at h
      split_ifs at h
      obtain rfl := Option.some.inj h
      exact ⟨rfl, rfl⟩
  | play =>
      obtain rfl := Option.some.inj h
      exact ⟨rfl, rfl⟩
  | playing => cases h

/-- The next turn of the conversation has the challenge and the number that its reply leaves. -/
theorem hear_client {c c₂ : Conversation} {resp : Response} {st : ClientState}
    (h : c.hear urlFull resp st = some c₂) : c₂.client.cseq = st.cseq ∧ c₂.client.auth = st.auth.heard resp := by
  unfold Conversation.hear at h
  unfold AuthState.heard
  split_ifs at h with h401
  · rw [if_pos h401]
    unfold Conversation.challenged at h
    split_ifs at h with hretried
    generalize adoptChallenge resp st.auth = adopted at h ⊢
    split at h
    · obtain rfl := Option.some.inj h
      exact ⟨rfl, rfl⟩
    · cases h
  · rw [if_neg h401]
    exact granted_client h

theorem turn_leads {c c₂ : Conversation} (cnonce : Bytes) {ans : Awaited c.client.asked}
    (h : c.behind urlFull ans = some c₂) : Leads md5Hex who urlFull c.client c₂.client
      [wrote (c.request md5Hex who urlFull cnonce) true, got c.client.asked ans] := by
  have hclient : c₂.client.cseq = c.client.cseq + 1 ∧
      c₂.client.auth = (c.client.auth.spent).behind (got c.client.asked ans) := by
    unfold Conversation.behind at h
    unfold got AuthState.behind
    dsimp only
    split at h
    · cases h
    · next resp pending demux hok =>
        rw [hok]
        exact hear_client h
  exact
    { fromPast := (fromPast_wrote (requestOf_line c cnonce) true).append (fromPast_got _ ans)
      cseq := hclient.1
      auth := hclient.2 }

theorem Talk.leads {c c₁ : Conversation} (h : Talk md5Hex who urlFull c t c₁) :
    Leads md5Hex who urlFull c.client c₁.client t := by
  induction h with
  | nil => exact leads_nil _
  | turn _ _ cnonce ans leads ih => exact ih.trans (turn_leads cnonce leads)

theorem Stuck.fromPast {c : Conversation} (h : Stuck md5Hex who urlFull c t) :
    FromPast md5Hex who urlFull c.client.cseq c.client.auth t := by
  cases h with
  | tooLong => exact fromPast_nil
  | unwritten fits cnonce => exact fromPast_wrote (requestOf_line c cnonce) false
  | unheard fits cnonce ans =>
      exact (fromPast_wrote (requestOf_line c cnonce) true).append (fromPast_got _ ans)

theorem Breaks.fromPast {c : Conversation} (h : Breaks md5Hex who urlFull c t) :
    FromPast md5Hex who urlFull c.client.cseq c.client.auth t := by
  obtain ⟨c₁, front, rest, rfl, htalk, -, hstuck⟩ := h
  exact htalk.leads.fromPast.append (htalk.leads.cseq ▸ htalk.leads.auth ▸ hstuck.fromPast)

/-! ## The pings and the end -/

theorem requestOf_inline (method : Bytes) (st : ClientState) (cnonce : Bytes) :
    RequestOf md5Hex who urlFull st.cseq.toInt st.auth (inlineRequest method urlFull st
      (computeAuthorization md5Hex cnonce who method urlFull st.auth).1) :=
  ⟨st, cnonce, rfl, rfl, Or.inr ⟨method, rfl⟩⟩

theorem keepaliveMain_meets (pings : Nat) (st : ClientState) :
    Meets onWire (keepaliveMain md5Hex who urlFull pings st) (fun st' t => Leads md5Hex who urlFull st st' t)
      fun _ _ => False := by
  induction pings generalizing st with
  | zero => exact meets_pure (leads_nil st)
  | succ pings ih =>
      unfold keepaliveMain
      refine meets_bind (authorization_meets _ _ _) ?_
      rintro p t ⟨rfl, cnonce, rfl⟩
      refine meets_ask (c := RtspCall.write _) rfl fun (written : Bool) => ?_
      have hping : Leads md5Hex who urlFull st
          { st with
            cseq := st.cseq + 1
            auth := (computeAuthorization md5Hex cnonce who (ascii "GET_PARAMETER") urlFull st.auth).2 }
          [wrote (inlineRequest (ascii "GET_PARAMETER") urlFull st
            (computeAuthorization md5Hex cnonce who (ascii "GET_PARAMETER") urlFull st.auth).1) written] :=
        ⟨fromPast_wrote (requestOf_inline _ st cnonce) written, rfl, computeAuthorization_spent _ _ _ _⟩
      cases written with
      | true => exact (ih _).mono (fun st' t h => hping.trans h) fun _ _ h => h
      | false => exact meets_pure hping

theorem doTeardown_meets (st : ClientState) :
    Meets onWire (doTeardownBestEffort md5Hex who urlFull st)
      (fun _ t => FromPast md5Hex who urlFull st.cseq st.auth t) fun _ _ => False := by
  unfold doTeardownBestEffort
  split_ifs
  · exact meets_pure fromPast_nil
  · refine meets_bind (authorization_meets _ _ _) ?_
    rintro p t ⟨rfl, cnonce, rfl⟩
    exact meets_ask (c := RtspCall.write _) rfl fun written =>
      meets_pure (fromPast_wrote (requestOf_inline _ st cnonce) written)

end Requests

theorem life_meets (md5Hex : Bytes → Bytes) (url : Url) (pings : Nat) :
    Meets onWire (life md5Hex url pings)
      (fun _ => FromPast md5Hex url.credentials (baseUrl url) 1 ClientState.start.auth)
      fun _ => FromPast md5Hex url.credentials (baseUrl url) 1 ClientState.start.auth := by
  unfold life
  refine meets_bind ((start_meets md5Hex url).mono (fun _ _ h => h) ?_) ?_
  · rintro e t (rfl | hbreaks)
    · exact fromPast_nil
    · exact hbreaks.fromPast
  · rintro st t ⟨c, htalk, -, rfl⟩
    refine meets_bind ((keepaliveMain_meets pings c.client).mono (fun _ _ h => h) fun _ _ h => h.elim) ?_
    intro st' t' hpings
    have hleads := htalk.leads.trans hpings
    unfold stop
    refine meets_unseen rfl fun _ => ?_
    refine meets_bind ((doTeardown_meets st').mono (fun _ _ h => h) fun _ _ h => h.elim) fun _ t'' hend => ?_
    refine meets_aside rfl fun _ => ?_
    rw [List.append_nil, ← List.append_assoc]
    exact hleads.fromPast.append (hleads.cseq ▸ hleads.auth ▸ hend)

theorem life_fromPast (md5Hex : Bytes → Bytes) (url : Url) (pings : Nat) {t : List (Exchange RtspAnswer)}
    (ht : Exchanges (life md5Hex url pings).run t) :
    FromPast md5Hex url.credentials (baseUrl url) 1 ClientState.start.auth (watched onWire t) := by
  obtain ⟨rest, ⟨-, h⟩ | ⟨-, h⟩⟩ := (life_meets md5Hex url pings).exchanges ht
  · exact h.earlier (List.prefix_append _ _)
  · exact h.earlier (List.prefix_append _ _)

/-- The challenge and the count that the exchanges leave to a new client. -/
def authBehind (past : List (Exchange RtspAnswer)) : AuthState :=
  past.foldl AuthState.behind ClientState.start.auth

/-- As long as the count fits into an `int`, a request has the number of its place. -/
theorem FromPast.request {md5Hex : Bytes → Bytes} {who : Credentials} {urlFull : Bytes}
    {t past rest : List (Exchange RtspAnswer)} {req : Bytes} {ok : Bool}
    (h : FromPast md5Hex who urlFull 1 ClientState.start.auth t)
    (short : (requestsWritten t).length < 2 ^ 31) (hreq : t = past ++ wrote req ok :: rest) :
    RequestOf md5Hex who urlFull (1 + (requestsWritten past).length) (authBehind past) req := by
  have hplace : (requestsWritten past).length + 1 ≤ (requestsWritten t).length := by
    rw [hreq, requestsWritten, requestsWritten, List.filterMap_append, List.length_append]
    exact Nat.add_le_add_left (Nat.succ_pos _) _
  have hnumber : (numberBehind 1 past).toInt = 1 + (requestsWritten past).length := by
    have hone : (1 : Int32) = Int32.ofNat 1 := rfl
    rw [numberBehind, hone, ← Int32.ofNat_add, Int32.toInt_ofNat_of_lt (by omega), Int.natCast_add]
    rfl
  rw [← hnumber]
  exact h past req ok rest hreq

/-- At every moment of a client that has made fewer than 2^31 requests each of them has the number of its
place, and the header for the last challenge that could be used: none before the first, and with a count of
the requests since. -/
theorem life_requests (md5Hex : Bytes → Bytes) (url : Url) (pings : Nat) {t : List (Exchange RtspAnswer)}
    (ht : Exchanges (life md5Hex url pings).run t)
    (short : (requestsWritten (watched onWire t)).length < 2 ^ 31)
    {past rest : List (Exchange RtspAnswer)} {req : Bytes} {ok : Bool}
    (hreq : watched onWire t = past ++ wrote req ok :: rest) :
    RequestOf md5Hex url.credentials (baseUrl url) (1 + (requestsWritten past).length) (authBehind past) req :=
  (life_fromPast md5Hex url pings ht).request short hreq

/-! ## Nonces and their counts -/

/-- The nonce of a Digest challenge that is taken up with the reply. -/
def AuthState.taken (auth : AuthState) (resp : Response) : Option Bytes :=
  if resp.status = 401 then
    match adoptChallenge resp auth with
    | .ok (true, adopted) => if adopted.authScheme = .digest then some adopted.digestNonce else none
    | _ => none
  else none

def AuthState.takenIn (auth : AuthState) : Exchange RtspAnswer → List Bytes
  | ⟨.await .., ans⟩ =>
      match ans.1 with
      | .ok (resp, _) => (auth.taken resp).toList
      | .error _ => []
  | _ => []

/-- The nonces that are taken up. -/
def nonces (auth : AuthState) : List (Exchange RtspAnswer) → List Bytes
  | [] => []
  | x :: t => auth.takenIn x ++ nonces (auth.behind x) t

section Nonces

variable {auth : AuthState}

theorem nonces_append (t t' : List (Exchange RtspAnswer)) :
    nonces auth (t ++ t') = nonces auth t ++ nonces (t.foldl AuthState.behind auth) t' := by
  induction t generalizing auth with
  | nil => rfl
  | cons x t ih => rw [List.cons_append, nonces, nonces, ih, List.append_assoc, List.foldl_cons]

/-- A challenge that can be used starts its count anew, or is none of Digest. -/
theorem adoptChallenge_usable {resp : Response} {adopted : AuthState}
    (h : adoptChallenge resp auth = .ok (true, adopted)) :
    adopted.authScheme = .digest ∧ adopted.digestNc = 0 ∨ adopted.authScheme = .basic := by
  unfold adoptChallenge at h
  dsimp only at h
  split_ifs at h
  · cases h
  · cases hparams : parseAuthParams ((resp.header (ascii "www-authenticate")).drop 7) with
    | error e =>
        rw [hparams] at h
        cases h
    | ok p =>
        rw [hparams] at h
        simp only [bind, Except.bind] at h
        split_ifs at h
        · cases h
        · cases h
          exact Or.inl ⟨rfl, rfl⟩
  · cases h
    exact Or.inr rfl
  · cases h

/-- A reply leaves the challenge, or ends Digest, or its nonce is taken up and the count starts. -/
theorem heard_cases (auth : AuthState) (resp : Response) :
    auth.taken resp = none ∧ (auth.heard resp = auth ∨ (auth.heard resp).authScheme = .basic) ∨
      auth.taken resp = some (auth.heard resp).digestNonce ∧ (auth.heard resp).digestNc = 0 := by
  unfold AuthState.taken AuthState.heard
  split_ifs with h401
  · split
    · next adopted hadopt =>
        rcases adoptChallenge_usable hadopt with ⟨hdigest, hzero⟩ | hbasic
        · exact Or.inr ⟨if_pos hdigest, hzero⟩
        · refine Or.inl ⟨if_neg ?_, Or.inr hbasic⟩
          rw [hbasic]
          nofun
    · exact Or.inl ⟨rfl, Or.inl rfl⟩
  · exact Or.inl ⟨rfl, Or.inl rfl⟩

theorem wantsCnonce_basic {auth : AuthState} (h : auth.authScheme = .basic) : auth.wantsCnonce = false := by
  rw [AuthState.wantsCnonce, h]
  rfl

theorem spent_wants {auth : AuthState} (h : auth.wantsCnonce = true) :
    auth.spent = { auth with digestNc := auth.digestNc + 1 } := if_pos h

theorem spent_other {auth : AuthState} (h : auth.wantsCnonce = false) : auth.spent = auth :=
  if_neg (by rw [h]; exact Bool.false_ne_true)

theorem nonce_exchange {x : Exchange RtspAnswer} (hwants : (auth.behind x).wantsCnonce = true) :
    (auth.behind x).digestNonce ∈ auth.takenIn x ∨
      auth.wantsCnonce = true ∧ (auth.behind x).digestNonce = auth.digestNonce ∧
        (auth.behind x).digestNc = auth.digestNc + UInt32.ofNat (requestsWritten [x]).length := by
  obtain ⟨call, ans⟩ := x
  cases call with
  | write req =>
      have hspent : auth.behind ⟨.write req, ans⟩ = auth.spent := rfl
      rw [hspent] at hwants ⊢
      cases hauth : auth.wantsCnonce with
      | false =>
          rw [spent_other hauth, hauth] at hwants
          cases hwants
      | true =>
          rw [spent_wants hauth]
          exact Or.inr ⟨rfl, rfl, rfl⟩
  | await rtpPt pending d =>
      have hread : auth.digestNc = auth.digestNc + UInt32.ofNat 0 := (UInt32.add_zero _).symm
      unfold AuthState.behind at hwants ⊢
      unfold AuthState.takenIn
      dsimp only at hwants ⊢
      split at hwants
      · next resp rest hok =>
          rcases heard_cases auth resp with ⟨-, hsame | hbasic⟩ | ⟨htaken, -⟩
          · rw [hsame] at hwants ⊢
            exact Or.inr ⟨hwants, rfl, hread⟩
          · rw [wantsCnonce_basic hbasic] at hwants
            cases hwants
          · rw [htaken]
            exact Or.inl List.mem_cons_self
      · exact Or.inr ⟨hwants, rfl, hread⟩
  | _ => exact Or.inr ⟨hwants, rfl, (UInt32.add_zero _).symm⟩

/-- The nonce behind some exchanges is the one before, with a count of the requests since, or it was taken up
on the way. -/
theorem nonce_behind (t : List (Exchange RtspAnswer)) (hwants : (t.foldl AuthState.behind auth).wantsCnonce = true) :
    (t.foldl AuthState.behind auth).digestNonce ∈ nonces auth t ∨
      auth.wantsCnonce = true ∧ (t.foldl AuthState.behind auth).digestNonce = auth.digestNonce ∧
        (t.foldl AuthState.behind auth).digestNc = auth.digestNc + UInt32.ofNat (requestsWritten t).length := by
  induction t generalizing auth with
  | nil => exact Or.inr ⟨hwants, rfl, (UInt32.add_zero _).symm⟩
  | cons x t ih =>
      rw [List.foldl_cons] at hwants ⊢
      rw [nonces]
      rcases ih hwants with hmem | ⟨hbehind, hnonce, hcount⟩
      · exact Or.inl (List.mem_append_right _ hmem)
      · rw [hnonce, hcount]
        rcases nonce_exchange hbehind with hmem | ⟨hauth, hnonce', hcount'⟩
        · exact Or.inl (List.mem_append_left _ hmem)
        · have hlength : (requestsWritten (x :: t)).length =
              (requestsWritten [x]).length + (requestsWritten t).length := by
            rw [← List.singleton_append, requestsWritten, List.filterMap_append, List.length_append]
            rfl
          rw [hcount', hlength, UInt32.ofNat_add, UInt32.add_assoc]
          exact Or.inr ⟨hauth, hnonce', rfl⟩

end Nonces

/-- No two requests of a client have the same nonce with the same count, where the printer makes each nonce
only once. -/
theorem life_counts_nonces (md5Hex : Bytes → Bytes) (url : Url) (pings : Nat) {t : List (Exchange RtspAnswer)}
    (ht : Exchanges (life md5Hex url pings).run t)
    (fresh : (nonces ClientState.start.auth (watched onWire t)).Nodup)
    (short : (requestsWritten (watched onWire t)).length < 2 ^ 31)
    {past past' rest rest' : List (Exchange RtspAnswer)} {req req' : Bytes} {ok ok' : Bool}
    (hreq : watched onWire t = past ++ wrote req ok :: rest)
    (hreq' : watched onWire t = past' ++ wrote req' ok' :: rest') (hlater : past.length < past'.length)
    (hcounted : (authBehind past).wantsCnonce = true) (hcounted' : (authBehind past').wantsCnonce = true) :
    RequestOf md5Hex url.credentials (baseUrl url) (1 + (requestsWritten past).length) (authBehind past) req ∧
      RequestOf md5Hex url.credentials (baseUrl url) (1 + (requestsWritten past').length) (authBehind past') req' ∧
      ((authBehind past).digestNonce, (authBehind past).digestNc) ≠
        ((authBehind past').digestNonce, (authBehind past').digestNc) := by
  have hrequests := life_fromPast md5Hex url pings ht
  refine ⟨hrequests.request short hreq, hrequests.request short hreq', fun heq => ?_⟩
  obtain ⟨mid, hmid⟩ : past ++ [wrote req ok] <+: past' := by
    refine @List.prefix_of_prefix_length_le _ _ _ (watched onWire t) ?_ (hreq' ▸ List.prefix_append _ _) ?_
    · exact ⟨rest, by rw [hreq, List.append_assoc, List.singleton_append]⟩
    · rw [List.length_append]
      exact hlater
  rw [List.append_assoc, List.singleton_append] at hmid
  subst hmid
  have hbehind : authBehind (past ++ wrote req ok :: mid) =
      (wrote req ok :: mid).foldl AuthState.behind (authBehind past) := List.foldl_append
  rw [hbehind] at hcounted' heq
  obtain ⟨hnonce, hcount⟩ := Prod.mk.inj heq
  rcases nonce_behind _ hcounted' with hmem | ⟨-, -, hsince⟩
  · -- The later nonce was taken up behind the earlier one.
    have hbefore : (authBehind past).digestNonce ∈ nonces ClientState.start.auth past := by
      rcases nonce_behind past hcounted with hmem | ⟨hstart, -⟩
      · exact hmem
      · cases hstart
    rw [hreq', nonces_append, nonces_append] at fresh
    exact List.disjoint_of_nodup_append (List.nodup_append.mp fresh).1 hbefore (hnonce ▸ hmem)
  · -- The count has gone on.
    have hshort : (requestsWritten (wrote req ok :: mid)).length < 2 ^ 32 := by
      rw [hreq', requestsWritten, List.filterMap_append, List.filterMap_append, List.length_append,
        List.length_append] at short
      refine lt_of_le_of_lt (Nat.le_trans (Nat.le_add_left _ _) (Nat.le_add_right _ _)) (short.trans ?_)
      decide
    have hsome : 0 < (requestsWritten (wrote req ok :: mid)).length := Nat.succ_pos _
    rw [hsince] at hcount
    have hsame := congrArg UInt32.toNat hcount
    rw [UInt32.toNat_add, UInt32.toNat_ofNat', Nat.mod_eq_of_lt hshort] at hsame
    have hbound := (authBehind past).digestNc.toNat_lt
    omega

/-- A request among the exchanges, with those before it. -/
theorem wrote_at {t : List (Exchange RtspAnswer)} {i : Nat}
    (h : (t[i]?.map fun x => onWire x.1 && !x.1.isAwait) = some true) :
    ∃ req ok rest, t = t.take i ++ wrote req ok :: rest := by
  obtain ⟨x, hx, hwrite⟩ := Option.map_eq_some_iff.mp h
  obtain ⟨hi, rfl⟩ := List.getElem?_eq_some_iff.mp hx
  have hsplit : t = t.take i ++ t[i] :: t.drop (i + 1) := by
    rw [← List.drop_eq_getElem_cons hi, List.take_append_drop]
  generalize t[i] = x at hwrite hsplit
  obtain ⟨call, ans⟩ := x
  cases call with
  | write req => exact ⟨req, ans, _, hsplit⟩
  | _ => cases hwrite

/-- Two requests with a count, under nonces that are taken up once. -/
abbrev CountsTwo (t : List (Exchange RtspAnswer)) (i j : Nat) : Prop :=
  (t[i]?.map fun x => onWire x.1 && !x.1.isAwait) = some true ∧
    (t[j]?.map fun x => onWire x.1 && !x.1.isAwait) = some true ∧ (t.take i).length < (t.take j).length ∧
    (nonces ClientState.start.auth t).Nodup ∧ (requestsWritten t).length < 2 ^ 31 ∧
    (authBehind (t.take i)).wantsCnonce = true ∧ (authBehind (t.take j)).wantsCnonce = true

/-- The life of the camera's client, where the second DESCRIBE and SETUP carry a count. -/
theorem cameraLife_counts : (requestsWritten (watched onWire cameraLife)).length = 6 ∧
    (requestsWritten ((watched onWire cameraLife).take 6)).length = 3 ∧
      CountsTwo (watched onWire cameraLife) 4 6 := by decide +kernel

/-- SETUP, the fourth request of six. -/
theorem life_requests_camera : ∃ past req, (requestsWritten past).length = 3 ∧
    (requestsWritten (watched onWire cameraLife)).length = 6 ∧
      RequestOf md5OfCamera cameraUrl.credentials (baseUrl cameraUrl) (1 + (requestsWritten past).length)
        (authBehind past) req := by
  obtain ⟨hall, hplace, -, hsetup, -, -, hshort, -⟩ := cameraLife_counts
  obtain ⟨req, ok, rest, hreq⟩ := wrote_at hsetup
  exact ⟨_, req, hplace, hall, life_requests md5OfCamera cameraUrl 0 cameraLife_exchanges hshort hreq⟩

/-- The second DESCRIBE, and SETUP. -/
theorem life_counts_nonces_camera : ∃ past past' req req', past.length < past'.length ∧
    RequestOf md5OfCamera cameraUrl.credentials (baseUrl cameraUrl) (1 + (requestsWritten past).length)
      (authBehind past) req ∧
    RequestOf md5OfCamera cameraUrl.credentials (baseUrl cameraUrl) (1 + (requestsWritten past').length)
      (authBehind past') req' ∧
    ((authBehind past).digestNonce, (authBehind past).digestNc) ≠
      ((authBehind past').digestNonce, (authBehind past').digestNc) := by
  obtain ⟨-, -, hfirst, hsecond, hlater, hfresh, hshort, hcounted, hcounted'⟩ := cameraLife_counts
  obtain ⟨req, ok, rest, hreq⟩ := wrote_at hfirst
  obtain ⟨req', ok', rest', hreq'⟩ := wrote_at hsecond
  exact ⟨_, _, req, req', hlater, life_counts_nonces md5OfCamera cameraUrl 0 cameraLife_exchanges hfresh hshort
    hreq hreq' hlater hcounted hcounted'⟩

/-! ## The password -/

/-- The challenge cannot tell the passwords apart: it asks for none, or for hashes that are the same. -/
def SameHash (md5Hex : Bytes → Bytes) (user passwd passwd' : Bytes) (auth : AuthState) : Prop :=
  match auth.authScheme with
  | .none => True
  | .basic => False
  | .digest => md5Hex (user ++ Ascii.colon :: (auth.digestRealm ++ Ascii.colon :: passwd)) =
      md5Hex (user ++ Ascii.colon :: (auth.digestRealm ++ Ascii.colon :: passwd'))

theorem computeAuthorization_hash {md5Hex : Bytes → Bytes} {user passwd passwd' : Bytes} {auth : AuthState}
    (hsame : SameHash md5Hex user passwd passwd' auth) (cnonce method uri : Bytes) :
    computeAuthorization md5Hex cnonce ⟨user, passwd⟩ method uri auth =
      computeAuthorization md5Hex cnonce ⟨user, passwd'⟩ method uri auth := by
  unfold SameHash at hsame
  unfold computeAuthorization
  cases hscheme : auth.authScheme with
  | none => rfl
  | basic =>
      rw [hscheme] at hsame
      exact hsame.elim
  | digest =>
      rw [hscheme] at hsame
      dsimp only at hsame ⊢
      rw [hsame]

/-- The client with a camera that challenges nothing. -/
def openLife : List (Exchange RtspAnswer) := (run (camera openReplies) [] (life md5OfCamera cameraUrl 1).run).1

theorem openLife_exchanges : Exchanges (life md5OfCamera cameraUrl 1).run openLife :=
  (runs_run (camera openReplies) [] _).exchanges

/-- A reply with a challenge. -/
def challenges : Exchange RtspAnswer → Bool
  | ⟨.await .., ans⟩ =>
      match ans.1 with
      | .ok (resp, _) => resp.status = 401
      | .error _ => false
  | _ => false

theorem behind_unchallenged {auth : AuthState} (hnone : auth.authScheme = .none) {x : Exchange RtspAnswer}
    (hx : challenges x = false) : auth.behind x = auth := by
  obtain ⟨call, ans⟩ := x
  cases call with
  | write req => exact spent_other (by rw [AuthState.wantsCnonce, hnone]; rfl)
  | await rtpPt pending d =>
      unfold challenges at hx
      unfold AuthState.behind
      dsimp only at hx ⊢
      split at hx
      · exact if_neg (of_decide_eq_false hx)
      · rfl
  | _ => rfl

theorem foldl_unchallenged {auth : AuthState} (hnone : auth.authScheme = .none) {t : List (Exchange RtspAnswer)}
    (ht : ∀ x ∈ t, challenges x = false) : t.foldl AuthState.behind auth = auth := by
  induction t with
  | nil => rfl
  | cons x t ih =>
      obtain ⟨hx, ht⟩ := List.forall_mem_cons.mp ht
      rw [List.foldl_cons, behind_unchallenged hnone hx, ih ht]

end OpenBambu.Rtsp
