import OpenBambu.Tunnel.Ready

/-!
# From the handshake to the messages behind it

A peer that answers the login and the setup and goes on sending. Where its reads cut the
stream decides which frames the handshake takes off the buffer together with the setup ack:
their bodies are dropped, and `recv_payload` drops those it takes together with another.
-/

namespace OpenBambu.Tunnel

open OpenBambu.Foundation OpenBambu.Json

/-! ## The wait on a known stream -/

/-- Reads that complete no ack leave the wait where it was, with what they left over. -/
theorem awaitAck_skip {buf : Bytes} {early : List Read} (hopen : Open early)
    (h : ∀ f ∈ framesAfter buf early, isSetupAck f.payload = false) (rs : List Read) :
    awaitAck buf (early ++ rs) =
      awaitAck (exactCodec.drain (buf ++ (received early).flatten)).2 rs := by
  have hnone : ∀ {fs : List Frame}, (∀ f ∈ fs, isSetupAck f.payload = false) →
      fs.any (fun f => isSetupAck f.payload) = false := by
    intro fs hfs
    rw [List.any_eq_false]
    exact fun f hf => by simp [hfs f hf]
  induction early generalizing buf with
  | nil =>
      rw [received_nil, List.flatten_nil, List.append_nil, List.nil_append]
      rw [framesAfter, received_nil, List.flatten_nil, List.append_nil] at h
      have hd := Framing.drain_of_settled (Framing.drain_settles (F := exactCodec.toFraming) buf)
      rw [awaitAck_wait (hnone h), awaitAck_wait (by rw [hd]; rfl), hd]
  | cons r early ih =>
      have hopen' : Open early := fun x hx => hopen x (List.mem_cons_of_mem _ hx)
      have hfirst : ∀ f ∈ (exactCodec.drain buf).1, isSetupAck f.payload = false := by
        intro f hf
        refine h f ?_
        rw [framesAfter, Framing.drain_append]
        exact List.mem_append_left _ hf
      rw [List.cons_append, awaitAck_wait (hnone hfirst)]
      cases r with
      | closed => exact absurd rfl (hopen _ List.mem_cons_self)
      | wantRead =>
          have hrest := Framing.drain_append (F := exactCodec.toFraming) buf (received early).flatten
          rw [framesAfter, received_wantRead, hrest] at h
          rw [received_wantRead, hrest]
          exact ih hopen' fun f hf => h f (List.mem_append_right _ hf)
      | bytes c =>
          have hrest := Framing.drain_append (F := exactCodec.toFraming) buf
            (c.bytes ++ (received early).flatten)
          rw [framesAfter, received_bytes, List.flatten_cons, hrest] at h
          rw [received_bytes, List.flatten_cons, hrest, ← List.append_assoc]
          refine ih hopen' fun f hf => h f (List.mem_append_right _ ?_)
          rwa [framesAfter, List.append_assoc] at hf

/-- Reads that complete an ack end the wait before what comes behind them. -/
theorem awaitAck_early {buf : Bytes} {early : List Read} (hopen : Open early)
    (h : ∃ f ∈ framesAfter buf early, isSetupAck f.payload = true) (rs : List Read) :
    ∃ rest mid, awaitAck buf (early ++ rs) = some (rest, mid ++ rs) := by
  induction early generalizing buf with
  | nil =>
      obtain ⟨f, hf, hack⟩ := h
      rw [framesAfter, received_nil, List.flatten_nil, List.append_nil] at hf
      exact ⟨_, [], awaitAck_found (List.any_eq_true.mpr ⟨f, hf, hack⟩) _⟩
  | cons r early ih =>
      by_cases hany : (exactCodec.drain buf).1.any fun f => isSetupAck f.payload
      · exact ⟨_, r :: early, awaitAck_found hany _⟩
      · have hopen' : Open early := fun x hx => hopen x (List.mem_cons_of_mem _ hx)
        have hlater : ∀ {f : Frame} {ys : Bytes}, isSetupAck f.payload = true →
            f ∈ (exactCodec.drain (buf ++ ys)).1 →
              f ∈ (exactCodec.drain ((exactCodec.drain buf).2 ++ ys)).1 := by
          intro f ys hack hf
          rw [Framing.drain_append] at hf
          rcases List.mem_append.mp hf with hf | hf
          · exact absurd (List.any_eq_true.mpr ⟨f, hf, hack⟩) hany
          · exact hf
        obtain ⟨f, hf, hack⟩ := h
        rw [List.cons_append, awaitAck_wait (by simpa using hany)]
        cases r with
        | closed => exact absurd rfl (hopen _ List.mem_cons_self)
        | wantRead => exact ih hopen' ⟨f, hlater hack hf, hack⟩
        | bytes c =>
            refine ih hopen' ⟨f, ?_, hack⟩
            rw [framesAfter, received_bytes, List.flatten_cons] at hf
            rw [framesAfter, List.append_assoc]
            exact hlater hack hf

/-! ## The stream of the peer -/

/-- What the peer sends: a login ack, frames, the setup ack, more frames. The login ack ends
with the read `c₀`, the setup ack inside the read `c`, behind `early` and before `left`. -/
structure PeerStream where
  login : Frame
  before : List Frame
  ack : Frame
  after : List Frame
  reads₀ : List Read
  c₀ : Chunk
  early : List Read
  c : Chunk
  left : List Read
  /-- The bytes of `c` up to the end of the ack. -/
  head : Bytes
  /-- The bytes of `c` behind the ack. -/
  tail : Bytes
  stays : Open (reads₀ ++ .bytes c₀ :: (early ++ .bytes c :: left))
  login_magic : login.magic = kMagicLoginServer
  small : ∀ f ∈ login :: (before ++ ack :: after), f.Small
  successful : Successful ack.payload
  first : ∀ f ∈ before, ¬ Successful f.payload
  login_read : (received reads₀).flatten ++ c₀.bytes = login.encode
  cut : c.bytes = head ++ tail
  ends : head ≠ []
  ack_read : (received early).flatten ++ head = exactCodec.encodeAll (before ++ [ack])
  after_read : tail ++ (received left).flatten = exactCodec.encodeAll after

def PeerStream.reads (p : PeerStream) : List Read :=
  p.reads₀ ++ .bytes p.c₀ :: (p.early ++ .bytes p.c :: p.left)

/-- The calls come to `Ready` with the read that completes the ack, not before and with no
read more, and then every frame behind the ack is received, once and in order. -/
def HandsOver (cfg : Config) (p : PeerStream) (s₀ : Session) : Prop :=
  ∃ s, (∃ N, ∀ n, N ≤ n → handshakeRun cfg s₀ n = .ok s) ∧
    (∀ n s', handshakeRun cfg s₀ n = .ok s' → s'.phase = .ready → s' = s) ∧
    s.phase = .ready ∧ s.reads = p.left ∧
    ∀ m, p.left.length + 2 ≤ m → recvAll m s = p.after.map Frame.payload

/-- No reply before the ack is misread, no frame behind it ends in the same read, and none of
the later reads completes two. -/
structure PeerStream.Spaced (p : PeerStream) : Prop where
  before : ∀ f ∈ framesAfter [] p.early, ¬ Misread f.payload
  with_ack : exactCodec.completed p.after 0 p.tail.length = 0
  later : exactCodec.AtMostOneEach p.after (p.tail :: received p.left)

variable (p : PeerStream)

theorem PeerStream.open_early : Open p.early := fun r hr => p.stays r (by simp [hr])

/-- The frames complete before the last read are among those before the ack. -/
theorem PeerStream.early_frames :
    ∃ later, p.before ++ [p.ack] = framesAfter [] p.early ++ later ++ [p.ack] ∧
      (exactCodec.drain (received p.early).flatten).2 ++ p.head =
        exactCodec.encodeAll (later ++ [p.ack]) := by
  obtain ⟨later, hall, _, hrest⟩ := exactCodec.cut_encodeAll p.ack_read
  have hne : later ≠ [] := by
    rintro rfl
    exact p.ends (List.append_eq_nil_iff.mp hrest).2
  obtain ⟨init, last, rfl⟩ : ∃ init last, later = init ++ [last] :=
    ⟨_, _, (List.dropLast_append_getLast hne).symm⟩
  rw [← List.append_assoc] at hall
  obtain ⟨_, hlast⟩ := List.append_inj' hall rfl
  obtain rfl : p.ack = last := List.singleton_inj.mp hlast
  exact ⟨init, hall, hrest⟩

theorem PeerStream.early_ack {f : Frame} (hf : f ∈ framesAfter [] p.early) :
    isSetupAck f.payload = true ↔ Misread f.payload := by
  obtain ⟨later, hall, _⟩ := p.early_frames
  have hmem : f ∈ p.before := by
    rw [List.append_cancel_right hall]
    exact List.mem_append_left _ hf
  rw [isSetupAck_iff]
  exact or_iff_right (p.first f hmem)

/-- If no reply before the ack is misread, the wait ends with the ack and drops what the
last read completed behind it. -/
theorem PeerStream.awaitAck_eq (h : ∀ f ∈ framesAfter [] p.early, ¬ Misread f.payload) :
    awaitAck [] (p.early ++ .bytes p.c :: p.left) =
      some ((exactCodec.drain p.tail).2, p.left) := by
  obtain ⟨later, _, hrest⟩ := p.early_frames
  have hearly : ∀ f ∈ framesAfter [] p.early, isSetupAck f.payload = false := fun f hf =>
    Bool.eq_false_iff.mpr fun hack => h f hf ((p.early_ack hf).mp hack)
  have hstream : (exactCodec.drain (received p.early).flatten).2 ++ p.c.bytes =
      exactCodec.encodeAll (later ++ [p.ack]) ++ p.tail := by
    rw [p.cut, ← List.append_assoc, hrest]
  have hd := exactCodec.drain_encodeAll_append (later ++ [p.ack]) p.tail
  have hack : (later ++ [p.ack] ++ (exactCodec.drain p.tail).1).any
      (fun f => isSetupAck f.payload) = true :=
    List.any_eq_true.mpr ⟨p.ack, by simp, (isSetupAck_iff _).mpr (Or.inl p.successful)⟩
  rw [awaitAck_skip p.open_early hearly, List.nil_append,
    awaitAck_bytes (Framing.drain_settles _), hstream]
  have hdrain : exactCodec.drain (exactCodec.encodeAll (later ++ [p.ack]) ++ p.tail) =
      (later ++ [p.ack] ++ (exactCodec.drain p.tail).1, (exactCodec.drain p.tail).2) := hd
  rw [awaitAck_found (by rw [hdrain]; exact hack), hdrain]

theorem PeerStream.clean :
    NoWrappedHeader (received (p.early ++ .bytes p.c :: p.left)).flatten := by
  suffices hstream : (received (p.early ++ .bytes p.c :: p.left)).flatten ++ [] =
      exactCodec.encodeAll (p.before ++ p.ack :: p.after) by
    exact noWrappedHeader_encodeAll hstream fun f hf => p.small f (List.mem_cons_of_mem _ hf)
  have hsplit : p.before ++ p.ack :: p.after = (p.before ++ [p.ack]) ++ p.after := by simp
  rw [hsplit, exactCodec.encodeAll_append, ← p.ack_read, ← p.after_read, flatten_received_append,
    received_bytes, List.flatten_cons, p.cut]
  simp only [List.append_assoc, List.append_nil]

variable {p}

/-- A session before its handshake over the stream. -/
structure Facing (p : PeerStream) (s₀ : Session) : Prop where
  phase : s₀.phase = .notStarted
  buf : s₀.recvBuf = []
  writes : ∀ w ∈ s₀.writes, w = none
  reads : s₀.reads = p.reads

/-- The session the calls come to, once the wait has an end. -/
theorem Facing.reaches {s₀ : Session} (h : Facing p s₀) (cfg : Config) {buf : Bytes}
    {left : List Read} (hawait : awaitAck [] (p.early ++ .bytes p.c :: p.left) = some (buf, left)) :
    ∃ s, (∃ N, ∀ n, N ≤ n → handshakeRun cfg s₀ n = .ok s) ∧
      (∀ n s', handshakeRun cfg s₀ n = .ok s' → s'.phase = .ready → s' = s) ∧
      s.phase = .ready ∧ s.recvBuf = buf ∧ s.reads = left := by
  obtain ⟨N, s, hrun, hready, hbuf, hleft⟩ := handshakeRun_reaches cfg h.phase h.buf h.writes
    h.reads (fun r hr => p.stays r (List.mem_append_left _ hr)) p.login_read p.login_magic
    (p.small _ List.mem_cons_self) p.clean hawait
  refine ⟨s, ⟨N, hrun⟩, fun n s' hn hp => ?_, hready, hbuf, hleft⟩
  have h₁ := handshakeRun_add hn N
  rw [handshakeRun_ready hp, hrun _ (Nat.le_add_left N n)] at h₁
  exact (Except.ok.inj h₁).symm

/-- The bytes of the ack's read behind the ack complete as many frames as they drain to. -/
theorem completed_tail (p : PeerStream) :
    exactCodec.completed p.after 0 p.tail.length = (exactCodec.drain p.tail).1.length := by
  have hstream : ([] ++ p.tail :: received p.left).flatten ++ [] = exactCodec.encodeAll p.after := by
    simpa using p.after_read
  simpa using (exactCodec.feed_piece hstream).symm

/-- A session that has come to the end of the wait with no reply misread: what it received is
all there exactly when the handshake took no frame behind the ack and no read completes two. -/
theorem received_all_iff {s : Session} (hbuf : s.recvBuf = (exactCodec.drain p.tail).2)
    (hreads : s.reads = p.left) {m : Nat} (hm : p.left.length + 2 ≤ m) :
    recvAll m s = p.after.map Frame.payload ↔
      exactCodec.completed p.after 0 p.tail.length = 0 ∧
        exactCodec.AtMostOneEach p.after (p.tail :: received p.left) := by
  obtain ⟨later, hafter, _, hrest⟩ := exactCodec.cut_encodeAll p.after_read
  have hin : Incoming s later := by
    refine ⟨?_, fun f hf => ?_, by rw [hbuf, hreads]; exact hrest⟩
    · rw [hreads]
      exact fun r hr => p.stays r (by simp [hr])
    · exact p.small f (by rw [hafter]; simp [hf])
  have hm' : s.reads.length + 2 ≤ m := by rw [hreads]; exact hm
  rw [completed_tail, List.length_eq_zero_iff]
  by_cases hnil : (exactCodec.drain p.tail).1 = []
  · have htail := congrArg Prod.snd (Framing.drain_eq_of_nil hnil)
    rw [hnil, List.nil_append] at hafter
    rw [hafter, recvAll_all_iff hin hm', hbuf, hreads, htail]
    exact (and_iff_right hnil).symm
  · -- the frames the handshake took are missing
    have hle := recvAll_length_le hin hm'
    have hpos := List.length_pos_of_ne_nil hnil
    refine iff_of_false (fun hall => ?_) fun h => hnil h.1
    have hlen := congrArg List.length hall
    rw [List.length_map, hafter, List.length_append] at hlen
    omega

/-- The handshake hands the stream over without a loss exactly when the reads space it out. -/
theorem handshake_hands_over_iff {cfg : Config} {s₀ : Session} (h : Facing p s₀) :
    HandsOver cfg p s₀ ↔ p.Spaced := by
  constructor
  · rintro ⟨s, ⟨N, hrun⟩, honly, hready, hreads, hall⟩
    have hbefore : ∀ f ∈ framesAfter [] p.early, ¬ Misread f.payload := by
      intro f hf hmis
      obtain ⟨rest, mid, hawait⟩ :=
        awaitAck_early p.open_early ⟨f, hf, (p.early_ack hf).mpr hmis⟩ (.bytes p.c :: p.left)
      obtain ⟨s', ⟨N', hrun'⟩, _, hready', _, hreads'⟩ := h.reaches cfg hawait
      obtain rfl := honly N' s' (hrun' _ (Nat.le_refl _)) hready'
      have hlen := congrArg List.length (hreads.symm.trans hreads')
      rw [List.length_append, List.length_cons] at hlen
      omega
    obtain ⟨s', ⟨N', hrun'⟩, _, hready', hbuf', _⟩ := h.reaches cfg (p.awaitAck_eq hbefore)
    obtain rfl := honly N' s' (hrun' _ (Nat.le_refl _)) hready'
    obtain ⟨hwith, hlater⟩ :=
      (received_all_iff hbuf' hreads (Nat.le_refl _)).mp (hall _ (Nat.le_refl _))
    exact ⟨hbefore, hwith, hlater⟩
  · rintro ⟨hbefore, hwith, hlater⟩
    obtain ⟨s, hrun, honly, hready, hbuf, hreads⟩ :=
      h.reaches cfg (p.awaitAck_eq hbefore)
    exact ⟨s, hrun, honly, hready, hreads, fun m hm =>
      (received_all_iff hbuf hreads hm).mpr ⟨hwith, hlater⟩⟩

theorem framesAfter_nil : framesAfter [] [] = [] :=
  congrArg Prod.fst (Framing.drain_of_settled exactCodec.settled_nil)

/-- The setup ack and the first reply behind it in one read. -/
def hurried : PeerStream where
  login := loginAck
  before := []
  ack := setupReply
  after := twoReplies.take 1
  reads₀ := []
  c₀ := ⟨loginAck.encode, exactCodec.encode_ne_nil _, loginAck_short⟩
  early := []
  c := ⟨setupReply.encode ++ (twoReplies.take 1).flatMap Frame.encode, by decide, by decide⟩
  left := []
  head := setupReply.encode
  tail := (twoReplies.take 1).flatMap Frame.encode
  stays := by simp [Open]
  login_magic := rfl
  small := by decide
  successful := setupReply_successful
  first := by simp
  login_read := rfl
  cut := rfl
  ends := by decide
  ack_read := rfl
  after_read := List.append_nil _

theorem hurried_facing : Facing hurried (fresh hurried.reads) :=
  ⟨rfl, rfl, by simp [fresh], rfl⟩

theorem handshake_hands_over_hurried :
    HandsOver demoConfig hurried (fresh hurried.reads) ↔ hurried.Spaced :=
  handshake_hands_over_iff hurried_facing

/-- The reply is lost. -/
theorem handshake_drops_coalesced :
    Facing hurried (fresh hurried.reads) ∧
      ¬ HandsOver demoConfig hurried (fresh hurried.reads) := by
  refine ⟨hurried_facing, ?_⟩
  rintro ⟨s, _, honly, _, hreads, hall⟩
  obtain ⟨s', ⟨N', hrun'⟩, _, hready', hbuf', _⟩ := hurried_facing.reaches demoConfig
    (hurried.awaitAck_eq fun f hf => by
      rw [show framesAfter [] hurried.early = [] from framesAfter_nil] at hf
      exact absurd hf (by simp))
  obtain rfl := honly N' s' (hrun' _ (Nat.le_refl _)) hready'
  obtain ⟨hwith, _⟩ := (received_all_iff hbuf' hreads (Nat.le_refl _)).mp (hall _ (Nat.le_refl _))
  exact absurd hwith (by decide)

end OpenBambu.Tunnel
