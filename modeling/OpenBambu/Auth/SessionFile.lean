import OpenBambu.Agent.Account
import OpenBambu.Foundation.Calendar
import OpenBambu.Json.Layout

/-!
# The session in its file

`auth::Store` writes the whole session behind every change: into a temporary file, which then takes the
place of the old one. The expiry goes through a text in whole seconds of UTC.
-/

namespace OpenBambu.Auth

open OpenBambu.Foundation OpenBambu.Json
open OpenBambu.Agent (Session afterSeconds)

/-! ## Times as text -/

/-- A field of `printf` with zeros in front. -/
def fixed (width : Nat) (n : Int) : Bytes :=
  if n < 0 then Ascii.minus :: (List.replicate (width - 1 - (decimal n.natAbs).length) 0x30 ++ decimal n.natAbs)
  else List.replicate (width - (decimal n.toNat).length) 0x30 ++ decimal n.toNat

/-- `std::chrono::system_clock::to_time_t`: whole seconds, towards zero. -/
def toTimeT (tp : Int) : Int := tp.tdiv (10 ^ 9)

/-- `from_time_t`, in the 64-bit nanoseconds of the clock. -/
def fromTimeT (t : Int) : Int := (t * 10 ^ 9).bmod (2 ^ 64)

def toIso8601 (tp : Int) : Bytes :=
  let tm := gmtime (toTimeT tp)
  fixed 4 (tm.year + 1900) ++ Ascii.minus :: (fixed 2 (tm.mon + 1) ++ Ascii.minus :: (fixed 2 tm.mday ++
    Ascii.letter 'T' :: (fixed 2 tm.hour ++ Ascii.colon :: (fixed 2 tm.min ++ Ascii.colon ::
      (fixed 2 tm.sec ++ [Ascii.letter 'Z'])))))

/-- `%d` of `sscanf`: a `strtol` whose result is cut to an `int`. -/
def scanInt (s : Bytes) : Option (Int × Bytes) :=
  let s := s.dropWhile isspace
  let negative := s.head? = some Ascii.minus
  let s := if negative ∨ s.head? = some Ascii.plus then s.tail else s
  if s.takeWhile isDigit = [] then none
  else
    let n : Int := ofDecimal (s.takeWhile isDigit)
    let n := if negative then -n else n
    some ((max (-2 ^ 63) (min (2 ^ 63 - 1) n)).bmod (2 ^ 32), s.dropWhile isDigit)

/-- A byte of the format. -/
def scanByte (c : Byte) (s : Bytes) : Option Bytes :=
  match s with
  | [] => none
  | b :: rest => if b = c then some rest else none

/-- A number and the byte of the format behind it. -/
def scanField (c : Byte) (s : Bytes) : Option (Int × Bytes) :=
  (scanInt s).bind fun p => (scanByte c p.2).map fun rest => (p.1, rest)

/-- The six conversions of `%d-%d-%dT%d:%d:%dZ`; what follows the last one does not count. -/
def scanIso8601 (s : Bytes) : Option Tm := do
  let (y, s) ← scanField Ascii.minus s
  let (mo, s) ← scanField Ascii.minus s
  let (d, s) ← scanField (Ascii.letter 'T') s
  let (h, s) ← scanField Ascii.colon s
  let (mi, s) ← scanField Ascii.colon s
  let (se, _) ← scanInt s
  return { year := y - 1900, mon := mo - 1, mday := d, hour := h, min := mi, sec := se }

def parseIso8601 (s : Bytes) : Int :=
  if s = [] then 0
  else
    match scanIso8601 (s.takeWhile (· ≠ 0)) with
    | none => 0
    | some tm => fromTimeT (timegm tm)

/-! ## The store and its file -/

abbrev Files := Bytes → Option Bytes

/-- How far a write gets. -/
inductive WriteOutcome where
  | done
  | openFails
  | writeFails
  | renameFails
  deriving DecidableEq

structure Store where
  path : Bytes
  session : Session
  files : Files

/-- `Store::load_locked`: the session in a file. -/
def loadSession (path : Bytes) (files : Files) : Session :=
  if path = [] then {}
  else
    match files path with
    | none => {}
    | some text =>
        if text = [] then {}
        else
          match parse text with
          | .error _ => {}
          | .ok root =>
              let region := (root.find (ascii "region")).asString
              { region := if region = [] then ascii "GLOBAL" else region
                account := (root.find (ascii "account")).asString
                accessToken := (root.find (ascii "access_token")).asString
                refreshToken := (root.find (ascii "refresh_token")).asString
                expiresAt := parseIso8601 (root.find (ascii "expires_at")).asString
                userId := (root.find (ascii "user_id")).asString
                userName := (root.find (ascii "user_name")).asString
                nickName := (root.find (ascii "nick_name")).asString
                avatar := (root.find (ascii "avatar")).asString }

/-- The line of a member. -/
def addMember (k v : Bytes) (last : Bool) : Bytes :=
  ascii "  \"" ++ k ++ ascii "\": " ++ escape v ++ (if last then [] else [Ascii.comma]) ++ [Ascii.lf]

def sessionBody (s : Session) : Bytes :=
  ascii "\x7b\n" ++
  addMember (ascii "region") s.region false ++
  addMember (ascii "account") s.account false ++
  addMember (ascii "access_token") s.accessToken false ++
  addMember (ascii "refresh_token") s.refreshToken false ++
  addMember (ascii "expires_at") (toIso8601 s.expiresAt) false ++
  addMember (ascii "user_id") s.userId false ++
  addMember (ascii "user_name") s.userName false ++
  addMember (ascii "nick_name") s.nickName false ++
  addMember (ascii "avatar") s.avatar true ++
  ascii "\x7d\n"

def tmpPath (path : Bytes) : Bytes := path ++ ascii ".tmp"

/-- `Store::persist_locked`. A temporary file that was not finished or not renamed is removed. -/
def persist (path : Bytes) (s : Session) (files : Files) (outcome : WriteOutcome) : Files :=
  if path = [] then files
  else
    match outcome with
    | .openFails => files
    | .writeFails | .renameFails => Function.update files (tmpPath path) none
    | .done => Function.update (Function.update files (tmpPath path) none) path (some (sessionBody s))

inductive StoreCall where
  | set (s : Session)
  | updateTokens (now : Int) (access refresh : Bytes) (lifetime : Int)
  | updateProfile (userId userName nickName avatar : Bytes)
  | clear
  deriving DecidableEq

/-- The session behind a call. -/
def StoreCall.session (s : Session) : StoreCall → Session
  | .set s => s
  | .updateTokens now access refresh lifetime => s.updateTokens now access refresh lifetime
  | .updateProfile userId userName nickName avatar => s.updateProfile userId userName nickName avatar
  | .clear => {}

/-- A call, and how far the write of its session gets. -/
def Store.step (st : Store) (e : StoreCall × WriteOutcome) : Store :=
  let s := e.1.session st.session
  match e.1 with
  | .clear =>
      { st with
        session := s
        files := if st.path = [] then st.files else Function.update st.files st.path none }
  | _ => { st with session := s, files := persist st.path s st.files e.2 }

/-! ## The way of a time through its text -/

/-- A text of digits that denotes a number. -/
structure Numeric (ds : Bytes) (n : Int) : Prop where
  digits : ∀ c ∈ ds, isDigit c = true
  ne_nil : ds ≠ []
  value : (ofDecimal ds : Int) = n

theorem ofDecimal_zeros (k : Nat) (ds : Bytes) : ofDecimal (List.replicate k 0x30 ++ ds) = ofDecimal ds := by
  induction k with
  | zero => rfl
  | succ k ih =>
      rw [List.replicate_succ, List.cons_append, ofDecimal, List.foldl_cons]
      exact ih

theorem numeric_fixed {n : Int} (h : 0 ≤ n) (width : Nat) : Numeric (fixed width n) n := by
  have hfixed : fixed width n = List.replicate (width - (decimal n.toNat).length) 0x30 ++ decimal n.toNat :=
    if_neg (by omega)
  rw [hfixed]
  refine ⟨?_, ?_, ?_⟩
  · intro c hc
    rcases List.mem_append.mp hc with hc | hc
    · rw [List.eq_of_mem_replicate hc]
      decide
    · exact decimal_digits n.toNat c hc
  · exact List.append_ne_nil_of_right_ne_nil _ (decimal_ne_nil n.toNat)
  · rw [ofDecimal_zeros, ofDecimal_decimal]
    omega

theorem scanInt_numeric {ds : Bytes} {n : Int} (hds : Numeric ds n) (h : 0 ≤ n ∧ n ≤ 9999) {rest : Bytes}
    (hrest : ∀ c, rest.head? = some c → isDigit c = false) : scanInt (ds ++ rest) = some (n, rest) := by
  obtain ⟨c, t, rfl⟩ := List.exists_cons_of_ne_nil hds.ne_nil
  obtain ⟨hspace, hminus, hplus⟩ := digit_not_space (hds.digits c List.mem_cons_self)
  have hskip : (c :: t ++ rest).dropWhile isspace = c :: t ++ rest := by
    rw [List.cons_append, List.dropWhile_cons, hspace]
    rfl
  have hhead : (c :: t ++ rest).head? = some c := rfl
  obtain ⟨htake, hdrop⟩ := takeWhile_digits hds.digits hrest
  have hneg : ¬ some c = some Ascii.minus := fun h => hminus (Option.some.inj h)
  have hpos : ¬ some c = some Ascii.plus := fun h => hplus (Option.some.inj h)
  simp only [scanInt, hskip, hhead, hneg, hpos, or_self, if_false, htake, hdrop, hds.ne_nil, hds.value,
    int_of_long (n := n) (by omega) (by omega)]

theorem scanField_fixed {n : Int} (h : 0 ≤ n ∧ n ≤ 9999) (width : Nat) {c : Byte} (hc : isDigit c = false)
    (rest : Bytes) : scanField c (fixed width n ++ c :: rest) = some (n, rest) := by
  have hscan : scanInt (fixed width n ++ c :: rest) = some (n, c :: rest) := by
    apply scanInt_numeric (numeric_fixed h.1 width) h
    intro b hb
    obtain rfl := Option.some.inj hb
    exact hc
  rw [scanField, hscan, Option.bind_some, scanByte, if_pos rfl]
  rfl

/-- The text of a time is read back field by field. -/
theorem scanIso8601_toIso8601 {tp : Int} (h : (gmtime (toTimeT tp)).Civil) :
    scanIso8601 (toIso8601 tp) = some (gmtime (toTimeT tp)) := by
  rw [toIso8601, scanIso8601]
  generalize gmtime (toTimeT tp) = tm at h
  obtain ⟨hyear, hmon, hmday, hhour, hmin, hsec⟩ := h
  have hlast : scanInt (fixed 2 tm.sec ++ [Ascii.letter 'Z']) = some (tm.sec, [Ascii.letter 'Z']) := by
    apply scanInt_numeric (numeric_fixed hsec.1 2) ⟨hsec.1, by omega⟩
    intro b hb
    obtain rfl := Option.some.inj hb
    decide
  rw [scanField_fixed hyear 4 (by decide)]
  simp only [Option.bind_eq_bind, Option.bind_some]
  rw [scanField_fixed (by omega) 2 (by decide), Option.bind_some,
    scanField_fixed (by omega) 2 (by decide), Option.bind_some,
    scanField_fixed (by omega) 2 (by decide), Option.bind_some,
    scanField_fixed (by omega) 2 (by decide), Option.bind_some, hlast, Option.bind_some]
  simp

/-- The times of the clock, in 64 bits. -/
def InClock (tp : Int) : Prop := -2 ^ 63 ≤ tp ∧ tp < 2 ^ 63

theorem toTimeT_inClock {tp : Int} (h : InClock tp) : InClock (toTimeT tp * 10 ^ 9) := by
  obtain ⟨hlow, hhigh⟩ := h
  rw [toTimeT]
  rcases Int.le_total 0 tp with hpos | hneg
  · rw [Int.tdiv_eq_ediv_of_nonneg hpos]
    constructor <;> omega
  · have hflip : tp.tdiv (10 ^ 9) = -(-tp / 10 ^ 9) := by
      rw [← Int.tdiv_eq_ediv_of_nonneg (by omega), Int.neg_tdiv, Int.neg_neg]
    rw [hflip]
    constructor <;> omega

theorem toTimeT_near {tp : Int} (h : InClock tp) : NearEpoch (toTimeT tp) := by
  obtain ⟨hlow, hhigh⟩ := toTimeT_inClock h
  constructor <;> omega

theorem fromTimeT_toTimeT {tp : Int} (h : InClock tp) : fromTimeT (toTimeT tp) = toTimeT tp * 10 ^ 9 := by
  obtain ⟨hlow, hhigh⟩ := toTimeT_inClock h
  apply Int.bmod_eq_of_le_mul_two
  · omega
  · omega

theorem fixed_clean {n : Int} (h : 0 ≤ n) (width : Nat) : ∀ b ∈ fixed width n, b ≠ 0 := by
  have hdigit : ∀ b : Byte, isDigit b = true → b ≠ 0 := forall_byte (by decide +kernel)
  exact fun b hb => hdigit b ((numeric_fixed h width).digits b hb)

theorem toIso8601_clean {tp : Int} (h : (gmtime (toTimeT tp)).Civil) : ∀ b ∈ toIso8601 tp, b ≠ 0 := by
  rw [toIso8601]
  generalize gmtime (toTimeT tp) = tm at h
  obtain ⟨hyear, hmon, hmday, hhour, hmin, hsec⟩ := h
  intro b hb
  simp only [List.mem_append, List.mem_cons, List.not_mem_nil, or_false] at hb
  rcases hb with hb | rfl | hb | rfl | hb | rfl | hb | rfl | hb | rfl | hb | rfl
  · exact fixed_clean hyear.1 4 b hb
  · decide
  · exact fixed_clean (by omega) 2 b hb
  · decide
  · exact fixed_clean (by omega) 2 b hb
  · decide
  · exact fixed_clean hhour.1 2 b hb
  · decide
  · exact fixed_clean hmin.1 2 b hb
  · decide
  · exact fixed_clean hsec.1 2 b hb
  · decide

/-- A time comes back from its text cut to whole seconds. -/
theorem parseIso8601_toIso8601 {tp : Int} (h : InClock tp) :
    parseIso8601 (toIso8601 tp) = toTimeT tp * 10 ^ 9 := by
  have hcivil := gmtime_civil (toTimeT_near h)
  have hclean : (toIso8601 tp).takeWhile (· ≠ 0) = toIso8601 tp := by
    rw [List.takeWhile_eq_self_iff]
    intro b hb
    apply decide_eq_true
    exact toIso8601_clean hcivil b hb
  have hne : toIso8601 tp ≠ [] := by
    rw [toIso8601]
    exact List.append_ne_nil_of_right_ne_nil _ (List.cons_ne_nil _ _)
  rw [parseIso8601, if_neg hne, hclean, scanIso8601_toIso8601 hcivil]
  simp only
  rw [timegm_gmtime, fromTimeT_toTimeT h]

/-! ## The way of a session through its file -/

/-- What is read back of a session. -/
def readBack (s : Session) : Session :=
  { s with
    region := if s.region = [] then ascii "GLOBAL" else s.region
    expiresAt := toTimeT s.expiresAt * 10 ^ 9 }

/-- One member a line. -/
def lines : Layout where
  before := [Ascii.lf, Ascii.sp, Ascii.sp]
  gap := [Ascii.sp]
  closing := [Ascii.lf]
  before_blank := by unfold Blank; decide +kernel
  gap_blank := by unfold Blank; decide +kernel
  closing_blank := by unfold Blank; decide +kernel

def sessionMembers (s : Session) : List (Bytes × Bytes) :=
  [(ascii "region", s.region), (ascii "account", s.account), (ascii "access_token", s.accessToken),
    (ascii "refresh_token", s.refreshToken), (ascii "expires_at", toIso8601 s.expiresAt),
    (ascii "user_id", s.userId), (ascii "user_name", s.userName), (ascii "nick_name", s.nickName),
    (ascii "avatar", s.avatar)]

def sessionKeys : List Bytes :=
  [ascii "region", ascii "account", ascii "access_token", ascii "refresh_token", ascii "expires_at",
    ascii "user_id", ascii "user_name", ascii "nick_name", ascii "avatar"]

theorem sessionKeys_word : ∀ key ∈ sessionKeys, isWord key = true := by decide +kernel

theorem nodup_sessionKeys : sessionKeys.Nodup := by
  simp only [sessionKeys, ascii, String.reduceToList, List.map_cons, List.map_nil]
  decide +kernel

theorem lookup_sessionMembers {s : Session} {key value : Bytes} (h : (key, value) ∈ sessionMembers s) :
    lookup ((sessionMembers s).map fun p => (p.1, .string p.2)) key = some (.string value) := by
  have hkeys : ((sessionMembers s).map fun p => (p.1, Value.string p.2)).map Prod.fst = sessionKeys := rfl
  have hmem : (key, Value.string value) ∈ (sessionMembers s).map fun p => (p.1, .string p.2) :=
    List.mem_map.mpr ⟨_, h, rfl⟩
  exact lookup_of_mem (hkeys ▸ nodup_sessionKeys) hmem

theorem sessionBody_lines (s : Session) :
    sessionBody s = lines.object ((sessionMembers s).map fun p => (p.1, escape p.2)) ++ [Ascii.lf] := by
  have hopen : ascii "  \"" = [Ascii.sp, Ascii.sp, Ascii.quote] := by decide
  have hclose : ascii "\": " = [Ascii.quote, Ascii.colon, Ascii.sp] := by decide
  have hfirst : ascii "\x7b\n" = [Ascii.lbrace, Ascii.lf] := by decide
  have hlast : ascii "\x7d\n" = [Ascii.rbrace, Ascii.lf] := by decide
  simp [sessionBody, addMember, sessionMembers, Layout.object, Layout.more, Layout.member, lines, hopen, hclose,
    hfirst, hlast]

theorem parse_sessionBody (s : Session) :
    parse (sessionBody s) = .ok (.object (ofMembers ((sessionMembers s).map fun p => (p.1, .string p.2)))) := by
  have hkeys : (sessionMembers s).map Prod.fst = sessionKeys := rfl
  have hplain : ∀ p ∈ sessionMembers s, PlainKey p.1 := fun p hp =>
    plainKey_of_word (sessionKeys_word p.1 (hkeys ▸ List.mem_map_of_mem hp))
  have hnil : Blank [] := by simp [Blank]
  have hlf : Blank [Ascii.lf] := by unfold Blank; decide +kernel
  rw [sessionBody_lines]
  exact (lines.readsAs_strings hplain).parse hnil hlf

/-- The session in the file is the one that was written, as far as the file has it. -/
theorem loadSession_body {path : Bytes} (hpath : path ≠ []) {files : Files} {s : Session}
    (hfile : files path = some (sessionBody s)) (hclock : InClock s.expiresAt) :
    loadSession path files = readBack s := by
  have hfind : ∀ key value, (key, value) ∈ sessionMembers s →
      ((Value.object (ofMembers ((sessionMembers s).map fun p => (p.1, .string p.2)))).find key).asString =
        value := by
    intro key value hmem
    have hkey : key ∈ (sessionMembers s).map Prod.fst := List.mem_map.mpr ⟨_, hmem, rfl⟩
    rw [find_ofMembers (sessionKeys_word key hkey), lookup_sessionMembers hmem]
    rfl
  have hbody : sessionBody s ≠ [] := by
    rw [sessionBody_lines]
    exact List.append_ne_nil_of_right_ne_nil _ (List.cons_ne_nil _ _)
  rw [loadSession, if_neg hpath, hfile]
  simp only [if_neg hbody, parse_sessionBody]
  rw [hfind (ascii "region") s.region (by simp [sessionMembers]),
    hfind (ascii "account") s.account (by simp [sessionMembers]),
    hfind (ascii "access_token") s.accessToken (by simp [sessionMembers]),
    hfind (ascii "refresh_token") s.refreshToken (by simp [sessionMembers]),
    hfind (ascii "expires_at") (toIso8601 s.expiresAt) (by simp [sessionMembers]),
    hfind (ascii "user_id") s.userId (by simp [sessionMembers]),
    hfind (ascii "user_name") s.userName (by simp [sessionMembers]),
    hfind (ascii "nick_name") s.nickName (by simp [sessionMembers]),
    hfind (ascii "avatar") s.avatar (by simp [sessionMembers]), parseIso8601_toIso8601 hclock]
  rfl

/-! ## Runs -/

/-- The expiry that is set is a time of the clock. -/
def StoreCall.Proper : StoreCall → Prop
  | .set s => InClock s.expiresAt
  | _ => True

/-- The write behind a call does not come through. -/
def Fails (e : StoreCall × WriteOutcome) : Prop := e.1 ≠ .clear ∧ e.2 ≠ .done

theorem tmpPath_ne (path : Bytes) : tmpPath path ≠ path := by
  intro h
  have hlen := congrArg List.length h
  rw [tmpPath, List.length_append, Nat.add_eq_left] at hlen
  exact absurd hlen (by decide)

theorem step_path (st : Store) (e : StoreCall × WriteOutcome) : (st.step e).path = st.path := by
  obtain ⟨call, outcome⟩ := e
  cases call <;> rfl

theorem step_session (st : Store) (e : StoreCall × WriteOutcome) :
    (st.step e).session = e.1.session st.session := by
  obtain ⟨call, outcome⟩ := e
  cases call <;> rfl

theorem afterSeconds_inClock (now seconds : Int) : InClock (afterSeconds now seconds) := by
  have hlow : -((2 ^ 64 : Nat) / 2 : Int) ≤ afterSeconds now seconds := Int.le_bmod (by decide)
  have hhigh : afterSeconds now seconds < ((2 ^ 64 : Nat) + 1 : Int) / 2 := Int.bmod_lt (by decide)
  constructor <;> omega

/-- A call keeps the expiry a time of the clock. -/
theorem step_inClock {st : Store} (h : InClock st.session.expiresAt) {e : StoreCall × WriteOutcome}
    (he : e.1.Proper) : InClock (st.step e).session.expiresAt := by
  obtain ⟨call, outcome⟩ := e
  rw [step_session]
  cases call with
  | set s => exact he
  | updateTokens now access refresh lifetime =>
      exact afterSeconds_inClock now lifetime
  | updateProfile userId userName nickName avatar => exact h
  | clear =>
      have hzero : InClock 0 := ⟨by decide, by decide⟩
      exact hzero

/-- A write that fails leaves the file that is there. -/
theorem step_fails (st : Store) {e : StoreCall × WriteOutcome} (he : Fails e) :
    (st.step e).files st.path = st.files st.path := by
  obtain ⟨call, outcome⟩ := e
  obtain ⟨hclear, hdone⟩ := he
  have hpersist : ∀ s, persist st.path s st.files outcome st.path = st.files st.path := by
    intro s
    by_cases hempty : st.path = []
    · simp only [persist, if_pos hempty]
    · have htmp := Function.update_of_ne (tmpPath_ne st.path).symm none st.files
      cases outcome with
      | done => exact absurd rfl hdone
      | openFails => simp only [persist, if_neg hempty]
      | writeFails => simp only [persist, if_neg hempty, htmp]
      | renameFails => simp only [persist, if_neg hempty, htmp]
  cases call with
  | clear => exact absurd rfl hclear
  | set s => exact hpersist _
  | updateTokens now access refresh lifetime => exact hpersist _
  | updateProfile userId userName nickName avatar => exact hpersist _

theorem loadSession_congr {path : Bytes} {files files' : Files} (h : files path = files' path) :
    loadSession path files = loadSession path files' := by
  rw [loadSession, loadSession, h]

theorem run_path (st : Store) (events : List (StoreCall × WriteOutcome)) :
    (after Store.step st events).path = st.path :=
  after_of_inv (I := fun t => t.path = st.path) (fun t e h => (step_path t e).trans h) rfl events

theorem run_inClock {st : Store} (h : InClock st.session.expiresAt)
    {events : List (StoreCall × WriteOutcome)} (he : ∀ e ∈ events, e.1.Proper) :
    InClock (after Store.step st events).session.expiresAt := by
  induction events generalizing st with
  | nil => exact h
  | cons e events ih =>
      exact ih (step_inClock h (he e List.mem_cons_self)) fun x hx => he x (List.mem_cons_of_mem _ hx)

/-- Nor does a run of them. -/
theorem run_fails (st : Store) {events : List (StoreCall × WriteOutcome)} (h : ∀ e ∈ events, Fails e) :
    loadSession st.path (after Store.step st events).files = loadSession st.path st.files := by
  induction events generalizing st with
  | nil => rfl
  | cons e events ih =>
      have hrest := ih (st.step e) fun x hx => h x (List.mem_cons_of_mem _ hx)
      rw [step_path] at hrest
      rw [after_cons, hrest]
      exact loadSession_congr (step_fails st (h e List.mem_cons_self))

/-- A call whose write comes through leaves its session in the file. -/
theorem step_done {st : Store} (hpath : st.path ≠ []) {call : StoreCall}
    (hclock : InClock (st.step (call, .done)).session.expiresAt) :
    loadSession st.path (st.step (call, .done)).files = readBack (st.step (call, .done)).session := by
  have hwritten : ∀ s, persist st.path s st.files .done st.path = some (sessionBody s) := by
    intro s
    rw [persist, if_neg hpath]
    exact Function.update_self _ _ _
  cases call with
  | clear =>
      have hgone : (st.step (.clear, .done)).files st.path = none := by
        rw [Store.step]
        simp only [if_neg hpath]
        exact Function.update_self _ _ _
      have hblank : readBack {} = {} := by simp [readBack, toTimeT, ascii]
      rw [loadSession, if_neg hpath, hgone, step_session]
      exact hblank.symm
  | set s => exact loadSession_body hpath (hwritten _) hclock
  | updateTokens now access refresh lifetime => exact loadSession_body hpath (hwritten _) hclock
  | updateProfile userId userName nickName avatar => exact loadSession_body hpath (hwritten _) hclock

end OpenBambu.Auth
