import OpenBambu.Json.Grammar
import OpenBambu.Tunnel.Frame

/-!
# JSON bodies of control frames

`wrap_ctrl_abi` puts `"mtype":12289` in front of the members of a message,
`split_json_prefix` cuts a body into its leading JSON object and the binary blob
behind it, and `take_pending_wire_json` does so for every complete frame of a
receive buffer. The brace scan of `split_json_prefix` is not the parser; on the
text of an object the two stop at the same brace (`splitJsonPrefix_object`).
-/

namespace OpenBambu.Tunnel

open OpenBambu.Foundation OpenBambu.Json

def kMtypeCtrlJson : Nat := 12289
def kMtypeCtrlSetup : Nat := 12291

/-- `{"mtype"`, the start of a message that is passed on as it is. -/
def mtypePrefix : Bytes := ascii "\x7b\"mtype\""

/-- The white space stripped here is that of the parser. -/
def wrapCtrlAbi (abi : Bytes) : Bytes :=
  let trimmed := abi.rdropWhile isWs
  if mtypePrefix <+: trimmed then abi
  else
    match trimmed with
    | [] => abi
    | c :: rest =>
        if c = Ascii.lbrace then
          mtypePrefix ++ Ascii.colon :: decimal kMtypeCtrlJson ++ Ascii.comma :: rest
        else abi

/-- The scan for the brace that closes the object, from byte `i` on. -/
def scanLoop (depth : Int) (inStr esc : Bool) (i : Nat) : Bytes → Option Nat
  | [] => if depth = 0 then some i else none
  | c :: s =>
      if inStr then
        if esc then scanLoop depth true false (i + 1) s
        else if c = Ascii.backslash then scanLoop depth true true (i + 1) s
        else if c = Ascii.quote then scanLoop depth false esc (i + 1) s
        else scanLoop depth true false (i + 1) s
      else if c = Ascii.quote then scanLoop depth true esc (i + 1) s
      else if c = Ascii.lbrace then scanLoop (depth + 1) false esc (i + 1) s
      else if c = Ascii.rbrace then
        if depth - 1 = 0 then some (i + 1) else scanLoop (depth - 1) false esc (i + 1) s
      else scanLoop depth false esc (i + 1) s

/-- The optional blank line in front of the blob. -/
def skipSeparator (s : Bytes) : Bytes :=
  if [Ascii.lf, Ascii.lf] <+: s then s.drop 2
  else if [Ascii.cr, Ascii.lf, Ascii.cr, Ascii.lf] <+: s then s.drop 4
  else s

/-- The JSON text and the blob, or `none` where the source returns false. -/
def splitJsonPrefix (data : Bytes) : Option (Bytes × Bytes) :=
  if data.head? = some Ascii.lbrace then
    (scanLoop 0 false false 0 data).map fun i => (data.take i, skipSeparator (data.drop i))
  else none

/-- What `take_pending_wire_json` pushes for one frame body. -/
def pendingMessage (body : Bytes) : Option Bytes :=
  if body = [] then none
  else
    match splitJsonPrefix body with
    | some (json, _) => if json = [] then none else some json
    | none => some body

/-- The loop of `take_pending_wire_json`; a turn that goes on has shortened the buffer. -/
def takePendingLoop : Nat → Bytes → Except Halt (List Bytes × Bytes)
  | 0, _ => .error .hang
  | fuel + 1, buf =>
      match consumeFrames buf with
      | .error h => .error h
      | .ok (consumed, bodies) =>
          if consumed = 0 then .ok ([], buf)
          else
            match takePendingLoop fuel (buf.drop consumed) with
            | .error h => .error h
            | .ok (msgs, rest) => .ok (bodies.filterMap pendingMessage ++ msgs, rest)

/-- The messages and the buffer they leave. -/
def takePendingWireJson (buf : Bytes) : Except Halt (List Bytes × Bytes) :=
  takePendingLoop (buf.length + 1) buf

/-! ## The scan over balanced text -/

theorem hexVal_ne {h : Byte} {n : Nat} (hv : hexVal h = some n) :
    h ≠ Ascii.quote ∧ h ≠ Ascii.backslash := by
  have hq : hexVal Ascii.quote = none := by decide
  have hb : hexVal Ascii.backslash = none := by decide
  constructor <;> rintro rfl
  · exact absurd (hq.symm.trans hv) (by simp)
  · exact absurd (hb.symm.trans hv) (by simp)

theorem hex4_some {h0 h1 h2 h3 : Byte} {n : Nat} (h : hex4 h0 h1 h2 h3 = some n) :
    ∀ b ∈ [h0, h1, h2, h3], b ≠ Ascii.quote ∧ b ≠ Ascii.backslash := by
  simp only [hex4, Option.bind_eq_bind, Option.bind_eq_some_iff] at h
  obtain ⟨_, h0, _, h1, _, h2, _, h3, _⟩ := h
  simp only [List.forall_mem_cons]
  exact ⟨hexVal_ne h0, hexVal_ne h1, hexVal_ne h2, hexVal_ne h3, by simp⟩

theorem scan_inStr {c : Bytes} (hc : ∀ b ∈ c, b ≠ Ascii.quote ∧ b ≠ Ascii.backslash) (depth : Int)
    (i : Nat) (tail : Bytes) :
    scanLoop depth true false i (c ++ tail) = scanLoop depth true false (i + c.length) tail := by
  induction c generalizing i with
  | nil => rfl
  | cons b c ih =>
      obtain ⟨hq, hb⟩ := hc b (by simp)
      rw [List.cons_append, scanLoop, if_pos rfl, if_neg (by simp), if_neg hb, if_neg hq,
        ih fun x hx => hc x (by simp [hx]), List.length_cons]
      congr 1
      omega

theorem scan_escape {s bs : Bytes} {n : Nat} (h : ReadsEscape s bs n) :
    ∃ c, s = c ++ s.drop n ∧ ∀ depth i tail,
      scanLoop depth true true i (c ++ tail) = scanLoop depth true false (i + c.length) tail := by
  have hfirst : ∀ (e : Byte) (c : Bytes), (∀ b ∈ c, b ≠ Ascii.quote ∧ b ≠ Ascii.backslash) →
      ∀ depth i tail, scanLoop depth true true i (e :: c ++ tail) =
        scanLoop depth true false (i + (e :: c).length) tail := by
    intro e c hc depth i tail
    rw [List.cons_append, scanLoop, if_pos rfl, if_pos rfl, scan_inStr hc, List.length_cons]
    congr 1
    omega
  cases h with
  | simple short => exact ⟨[_], rfl, hfirst _ [] (by simp)⟩
  | unit hex other => exact ⟨[_, _, _, _, _], rfl, hfirst _ [_, _, _, _] (hex4_some hex)⟩
  | lone hex high low => exact ⟨[_, _, _, _, _], rfl, hfirst _ [_, _, _, _] (hex4_some hex)⟩
  | @pair h0 h1 h2 h3 l0 l1 l2 l3 x cp lo hex high hex' low =>
      refine ⟨[_, h0, h1, h2, h3] ++ Ascii.backslash :: [Ascii.letter 'u', l0, l1, l2, l3], rfl, ?_⟩
      intro depth i tail
      rw [List.append_assoc, hfirst _ [_, _, _, _] (hex4_some hex), List.cons_append, scanLoop,
        if_pos rfl, if_neg (by simp), if_pos rfl, hfirst _ [_, _, _, _] (hex4_some hex')]
      simp

theorem scan_string {s str rest : Bytes} (h : ReadsString s str rest) :
    ∃ c, s = c ++ rest ∧ ∀ depth i tail,
      scanLoop depth true false i (c ++ tail) = scanLoop depth false false (i + c.length) tail := by
  induction h with
  | close =>
      refine ⟨[Ascii.quote], rfl, fun depth i tail => ?_⟩
      rw [List.singleton_append, scanLoop, if_pos rfl, if_neg (by simp), if_neg (by decide),
        if_pos rfl]
      rfl
  | @plain b s str rest hq hb _ ih =>
      obtain ⟨c, rfl, hc⟩ := ih
      refine ⟨b :: c, rfl, fun depth i tail => ?_⟩
      have hb' : ∀ x ∈ [b], x ≠ Ascii.quote ∧ x ≠ Ascii.backslash := fun x hx =>
        List.mem_singleton.mp hx ▸ ⟨hq, hb⟩
      rw [← List.singleton_append, List.append_assoc, scan_inStr hb', hc, List.length_append,
        Nat.add_assoc]
  | @escape s bs str rest n esc _ _ ih =>
      obtain ⟨d, hdrop, hd⟩ := ih
      obtain ⟨c, hs, hc⟩ := scan_escape (readsEscape_of_escapeAt esc)
      refine ⟨Ascii.backslash :: (c ++ d), ?_, fun depth i tail => ?_⟩
      · rw [List.cons_append, List.append_assoc, ← hdrop, ← hs]
      · rw [List.cons_append, scanLoop, if_pos rfl, if_neg (by simp), if_pos rfl, List.append_assoc,
          hc, hd, List.length_cons, List.length_append]
        congr 1
        omega

/-- Over a balanced text inside an object the scan comes back to the depth it started at. -/
theorem scan_balanced {c : Bytes} (h : Balanced c) {depth : Int} (hd : 0 < depth) (i : Nat)
    (tail : Bytes) :
    scanLoop depth false false i (c ++ tail) = scanLoop depth false false (i + c.length) tail := by
  induction h generalizing depth i tail with
  | nil => rfl
  | @plain b c hb _ ih =>
      rw [List.cons_append, scanLoop, if_neg (by simp), if_neg hb.1, if_neg hb.2.1, if_neg hb.2.2,
        ih hd, List.length_cons]
      congr 1
      omega
  | @string c str d text _ ih =>
      obtain ⟨c', hc', hscan⟩ := scan_string (text [])
      obtain rfl := List.append_cancel_right hc'
      rw [List.append_assoc, List.cons_append, scanLoop, if_neg (by simp), if_pos rfl, hscan, ih hd,
        List.length_append, List.length_cons]
      congr 1
      omega
  | @braces c d _ _ ih ih' =>
      rw [List.append_assoc, List.cons_append, scanLoop, if_neg (by simp), if_neg (by decide),
        if_pos rfl, ih (by omega), List.cons_append, scanLoop, if_neg (by simp), if_neg (by decide),
        if_neg (by decide), if_pos rfl, if_neg (by omega), Int.add_sub_cancel, ih' hd,
        List.length_append, List.length_cons, List.length_cons]
      congr 1
      omega

/-- On a body that starts with an object text, `split_json_prefix` stops where the parser does. -/
theorem splitJsonPrefix_object {c : Bytes} (h : Balanced c) (tail : Bytes) :
    splitJsonPrefix (Ascii.lbrace :: (c ++ Ascii.rbrace :: tail)) =
      some (Ascii.lbrace :: (c ++ [Ascii.rbrace]), skipSeparator tail) := by
  have hscan : scanLoop 0 false false 0 (Ascii.lbrace :: (c ++ Ascii.rbrace :: tail)) =
      some (1 + c.length + 1) := by
    rw [scanLoop, if_neg (by simp), if_neg (by decide), if_pos rfl, scan_balanced h (by omega),
      scanLoop, if_neg (by simp), if_neg (by decide), if_neg (by decide), if_pos rfl,
      if_pos (by omega), Nat.zero_add]
  have hsplit : Ascii.lbrace :: (c ++ Ascii.rbrace :: tail) =
      Ascii.lbrace :: (c ++ [Ascii.rbrace]) ++ tail := by simp
  have hlen : (Ascii.lbrace :: (c ++ [Ascii.rbrace])).length = 1 + c.length + 1 := by
    simp only [List.length_cons, List.length_append, List.length_nil]
    omega
  rw [splitJsonPrefix, if_pos List.head?_cons, hscan, Option.map_some, hsplit, List.take_left' hlen,
    List.drop_left' hlen]

/-- Inside the object the scan only ends at a brace, whatever follows it. -/
theorem scanLoop_extend {depth : Int} (hd : 0 < depth) {inStr esc : Bool} {i k : Nat} {s : Bytes}
    (h : scanLoop depth inStr esc i s = some k) (t : Bytes) :
    k ≤ i + s.length ∧ scanLoop depth inStr esc i (s ++ t) = some k := by
  induction s generalizing depth inStr esc i with
  | nil =>
      rw [scanLoop, if_neg (by omega)] at h
      exact absurd h (by simp)
  | cons c s ih =>
      rw [scanLoop] at h
      rw [List.cons_append, scanLoop, List.length_cons]
      split_ifs at h ⊢ with h1 h2 h3 h4 h5 h6 h7 h8
      all_goals first
        | exact ⟨by have := Option.some.inj h; omega, h⟩
        | (obtain ⟨hle, hscan⟩ := ih (by omega) h
           exact ⟨by omega, hscan⟩)

/-- A text cut off inside its object has no JSON prefix. -/
theorem splitJsonPrefix_cut {c : Bytes} (h : Balanced c) {n : Nat} (hn : n < c.length + 2) :
    splitJsonPrefix ((Ascii.lbrace :: (c ++ [Ascii.rbrace])).take n) = none := by
  cases n with
  | zero => rfl
  | succ n =>
      have hwhole : scanLoop 1 false false 1 (c ++ [Ascii.rbrace]) = some (1 + c.length + 1) := by
        rw [scan_balanced h (by omega), scanLoop, if_neg (by simp), if_neg (by decide),
          if_neg (by decide), if_pos rfl, if_pos (by omega)]
      rw [List.take_succ_cons, splitJsonPrefix, if_pos List.head?_cons, scanLoop, if_neg (by simp),
        if_neg (by decide), if_pos rfl]
      cases hs : scanLoop (0 + 1) false false (0 + 1) ((c ++ [Ascii.rbrace]).take n) with
      | none => rfl
      | some k =>
          obtain ⟨hle, hscan⟩ := scanLoop_extend (by omega) hs ((c ++ [Ascii.rbrace]).drop n)
          rw [List.take_append_drop] at hscan
          have hk := Option.some.inj (hwhole.symm.trans hscan)
          rw [List.length_take] at hle
          omega

/-! ## Pending messages -/

theorem scanLoop_ge {depth : Int} {inStr esc : Bool} {i k : Nat} {s : Bytes}
    (h : scanLoop depth inStr esc i s = some k) : i ≤ k := by
  induction s generalizing depth inStr esc i with
  | nil =>
      rw [scanLoop] at h
      split_ifs at h
      exact Nat.le_of_eq (Option.some.inj h)
  | cons c s ih =>
      rw [scanLoop] at h
      split_ifs at h
      all_goals first
        | exact Nat.le_of_succ_le (ih h)
        | exact Nat.le_of_succ_le (Nat.le_of_eq (Option.some.inj h))

theorem splitJsonPrefix_ne_nil {data json bin : Bytes}
    (h : splitJsonPrefix data = some (json, bin)) : json ≠ [] := by
  unfold splitJsonPrefix at h
  split_ifs at h with hd
  obtain ⟨s, rfl⟩ := List.head?_eq_some_iff.mp hd
  obtain ⟨k, hk, he⟩ := Option.map_eq_some_iff.mp h
  rw [scanLoop, if_neg (by simp), if_neg (by decide), if_pos rfl] at hk
  have hpos := scanLoop_ge hk
  obtain ⟨rfl, -⟩ := Prod.mk.inj he
  simp only [ne_eq, List.take_eq_nil_iff, reduceCtorEq, or_false]
  omega

/-- The JSON prefix of a body, or all of it. -/
def wireText (body : Bytes) : Bytes :=
  match splitJsonPrefix body with
  | some (json, _) => json
  | none => body

theorem pendingMessage_eq (body : Bytes) :
    pendingMessage body = if body = [] then none else some (wireText body) := by
  unfold pendingMessage wireText
  split_ifs with hb
  · rfl
  · cases h : splitJsonPrefix body with
    | none => rfl
    | some p =>
        obtain ⟨json, bin⟩ := p
        simp only [if_neg (splitJsonPrefix_ne_nil h)]

theorem consumeFrames_settled {data : Bytes} (hw : NoWrappedHeader data)
    (hs : exactCodec.Settled data) : consumeFrames data = .ok (0, []) := by
  obtain ⟨n, hn, hle, hdrop⟩ := consumeFrames_exact hw
  rw [Framing.drain_of_settled hs] at hn hdrop
  have hlen := congrArg List.length hdrop
  rw [List.length_drop] at hlen
  obtain rfl : n = 0 := by
    simp only at hlen
    omega
  exact hn

/-- The first turn takes everything that is complete; the second finds nothing and stops. -/
theorem takePendingWireJson_exact {buf : Bytes} (h : NoWrappedHeader buf) :
    takePendingWireJson buf = .ok
      ((exactCodec.drain buf).1.filterMap fun f => pendingMessage f.payload, (exactCodec.drain buf).2) := by
  obtain ⟨n, hn, hle, hdrop⟩ := consumeFrames_exact h
  have hsettled := Framing.drain_settles (F := exactCodec.toFraming) buf
  by_cases hzero : n = 0
  · subst hzero
    rw [List.drop_zero] at hdrop
    rw [← hdrop] at hsettled
    have hd := Framing.drain_of_settled hsettled
    rw [hd] at hn
    rw [takePendingWireJson, takePendingLoop, hn, hd]
    rfl
  · have hrest : NoWrappedHeader (exactCodec.drain buf).2 := by
      have hsound : NoWrappedHeader (buf ++ []) := by rwa [List.append_nil]
      have hleft := hsound.rest
      rwa [List.append_nil] at hleft
    have hstop := consumeFrames_settled hrest hsettled
    obtain ⟨k, hk⟩ : ∃ k, buf.length = k + 1 := ⟨buf.length - 1, by omega⟩
    rw [takePendingWireJson, takePendingLoop, hn, hk]
    simp only [if_neg hzero, hdrop]
    rw [takePendingLoop, hstop]
    simp [List.filterMap_map]

theorem takePendingWireJson_steps :
    StepsBy takePendingWireJson fun f => pendingMessage f.payload := by
  intro fs data ys h hsmall
  exact takePendingWireJson_exact (noWrappedHeader_encodeAll h hsmall)

/-- Frames cut into chunks anywhere come out of the receive buffer whole and in order,
as bodies and as messages, and nothing is left behind. -/
theorem chunked_frames_round_trip (fs : List Frame) (hsmall : ∀ f ∈ fs, f.Small) (cs : List Bytes)
    (h : cs.flatten = fs.flatMap Frame.encode) :
    onChunks takeBodies [] cs = .ok (fs.map Frame.payload, []) ∧
      onChunks takePendingWireJson [] cs =
        .ok (((fs.map Frame.payload).filter (· ≠ [])).map wireText, []) := by
  have hcs : [] ++ cs.flatten ++ [] = exactCodec.encodeAll fs := by
    rw [List.nil_append, List.append_nil]
    exact h
  have hfeed := Framing.feed_flatten (F := exactCodec.toFraming) exactCodec.settled_nil cs
  rw [List.nil_append, h, show fs.flatMap Frame.encode = exactCodec.encodeAll fs from rfl,
    exactCodec.drain_encodeAll, Prod.mk.injEq] at hfeed
  have hmsgs : ∀ fs : List Frame, (fs.filterMap fun f => pendingMessage f.payload) =
      ((fs.map Frame.payload).filter (· ≠ [])).map wireText := by
    intro fs
    induction fs with
    | nil => rfl
    | cons f fs ih =>
        rw [List.filterMap_cons, pendingMessage_eq, ih, List.map_cons]
        by_cases hp : f.payload = [] <;> simp [hp]
  refine ⟨?_, ?_⟩
  · rw [onChunks_encoded takeBodies_steps hcs hsmall, hfeed.1, hfeed.2, List.filterMap_eq_map']
  · rw [onChunks_encoded takePendingWireJson_steps hcs hsmall, hfeed.1, hfeed.2, hmsgs]

def twoReplies : List Frame :=
  [{ magic := kMagicCtrlServer, seq := 1, payload := ascii "\x7b\"result\":1\x7d", fits := by decide },
    { magic := kMagicCtrlServer, seq := 2, payload := ascii "\x7b\"result\":0\x7d", fits := by decide }]

/-- The stream cut inside the header of the first frame. -/
theorem chunked_frames_round_trip_cut :
    onChunks takeBodies []
        [(twoReplies.flatMap Frame.encode).take 5, (twoReplies.flatMap Frame.encode).drop 5] =
      .ok (twoReplies.map Frame.payload, []) ∧
    onChunks takePendingWireJson []
        [(twoReplies.flatMap Frame.encode).take 5, (twoReplies.flatMap Frame.encode).drop 5] =
      .ok (((twoReplies.map Frame.payload).filter (· ≠ [])).map wireText, []) :=
  chunked_frames_round_trip twoReplies (by decide) _ (by simp)

end OpenBambu.Tunnel
