import OpenBambu.Ftps.Completeness
import OpenBambu.Upload.Transfer

/-!
# The progress of an upload

How far `Client::stor` and `run_chunked_upload` have got whenever they can report it, as their loops
come to it, and the percentages the print job makes of that.
-/

namespace OpenBambu.Print

open OpenBambu.Foundation

/-! ## Percentages -/

/-- `static_cast<int>`. -/
def intOf (n : Nat) : Int := (n : Int).bmod (2 ^ 32)

/-- The percentage of `ftp_upload`. -/
def ftpPercent (total sent : Nat) : Int :=
  let pct := if total > 0 then intOf (sent * 100 % 2 ^ 64 / total) else 0
  if pct > 100 then 100 else pct

/-- The percentage of `run_chunked_upload`. -/
def chunkPercent (size offset : Nat) : Int := intOf (offset * 100 % 2 ^ 64 / size)

/-- The percentages that are reported: each that is not the one in front of it. -/
def changes : Int → List Int → List Int
  | _, [] => []
  | last, pct :: pcts => if pct ≠ last then pct :: changes pct pcts else changes last pcts

theorem isChain_changes (last : Int) (pcts : List Int) :
    (last :: changes last pcts).IsChain (· ≤ ·) ↔ (last :: pcts).IsChain (· ≤ ·) := by
  induction pcts generalizing last with
  | nil => rfl
  | cons pct pcts ih =>
      rw [changes, List.isChain_cons_cons]
      split_ifs with hne
      · rw [List.isChain_cons_cons, ih]
      · obtain rfl := not_not.mp hne
        rw [ih]
        exact (and_iff_right (le_refl _)).symm

theorem changes_subset (last : Int) (pcts : List Int) : changes last pcts ⊆ pcts := by
  induction pcts generalizing last with
  | nil => exact List.Subset.refl _
  | cons pct pcts ih =>
      rw [changes]
      split_ifs
      · exact List.cons_subset_cons _ (ih _)
      · exact List.subset_cons_of_subset _ (ih _)

theorem intOf_small {n : Nat} (h : n ≤ 100) : intOf n = n :=
  Int.bmod_eq_of_le (by norm_num) (by norm_num; omega)

theorem ftpPercent_eq {total sent : Nat} (hle : sent ≤ total) (hfits : total * 100 < 2 ^ 64) :
    ftpPercent total sent = (sent * 100 / total : Nat) := by
  have hmul : sent * 100 < 2 ^ 64 := Nat.lt_of_le_of_lt (Nat.mul_le_mul_right _ hle) hfits
  have hpct : sent * 100 / total ≤ 100 := Nat.div_le_of_le_mul (by omega)
  unfold ftpPercent
  simp only
  rw [Nat.mod_eq_of_lt hmul, intOf_small hpct]
  split_ifs with hpos hover hzero
  · omega
  · rfl
  · exact absurd hzero (by decide)
  · rw [Nat.eq_zero_of_not_pos hpos, Nat.div_zero, Int.ofNat_zero]

theorem chunkPercent_eq {size offset : Nat} (hle : offset ≤ size) :
    chunkPercent size offset = (offset * 100 % 2 ^ 64 / size : Nat) ∧
      offset * 100 % 2 ^ 64 / size ≤ 100 := by
  have hmod := Nat.mod_le (offset * 100) (2 ^ 64)
  have hpct : offset * 100 % 2 ^ 64 / size ≤ 100 := Nat.div_le_of_le_mul (by omega)
  exact ⟨intOf_small hpct, hpct⟩

theorem chunkPercent_bounds {size offset : Nat} (hle : offset ≤ size) :
    0 ≤ chunkPercent size offset ∧ chunkPercent size offset ≤ 100 := by
  obtain ⟨heq, hpct⟩ := chunkPercent_eq hle
  rw [heq]
  exact ⟨Int.natCast_nonneg _, Int.ofNat_le.mpr hpct⟩

/-- The hundredfold of a size that fits 64 bits keeps the percentages from falling. -/
theorem hundredths_mono {size a b : Nat} (hab : a ≤ b) (hb : b ≤ size) (hfits : size * 100 < 2 ^ 64) :
    a * 100 % 2 ^ 64 / size ≤ b * 100 % 2 ^ 64 / size := by
  rw [Nat.mod_eq_of_lt (by omega), Nat.mod_eq_of_lt (by omega)]
  exact Nat.div_le_div_right (Nat.mul_le_mul_right _ hab)

/-! ## `Client::stor` -/

section Stor

open OpenBambu.Ftps

variable (useTls : Bool) (progress : Nat → Nat → Bool) (total : Nat)

/-- The calls of `progress` that `stor` makes: those of its loop, and the one behind the completion
reply. -/
def storCalls (w : World) (p : Printer) (localPath : Bytes) (file : Option LocalFile) (remotePath : Bytes) :
    List Nat × List Nat :=
  match file with
  | none => ([], [])
  | some file =>
      match w.startTransfer p (ascii "STOR") (ascii "STOR " ++ remotePath) with
      | (.refused _, _) => ([], [])
      | (.tlsFailed _, _) => ([], [])
      | (.open _, w') =>
          let up := sendFile w'.client.useTls (some progress) file.size file.reads p.dataSends 0 none
          (up.calls,
            if (w.stor p localPath (some file) remotePath (some progress)).1 = [] then [up.sent] else [])

theorem pairwise_cons_cons {a b : Nat} {l : List Nat} (hab : a ≤ b) (h : (b :: l).Pairwise (· ≤ ·)) :
    (a :: b :: l).Pairwise (· ≤ ·) := by
  refine List.pairwise_cons.mpr ⟨fun x hx => ?_, h⟩
  rcases List.mem_cons.mp hx with rfl | hx
  · exact hab
  · exact hab.trans ((List.pairwise_cons.mp h).1 x hx)

theorem callsAt_rise {sent next : Nat} (last : Option Nat) {later : List Nat} (hstep : sent ≤ next)
    (h : (next :: later).Pairwise (· ≤ ·)) :
    (sent :: (callsAt (some progress) next total last ++ later)).Pairwise (· ≤ ·) := by
  have hfirst := pairwise_cons_cons hstep h
  rw [callsAt]
  split_ifs
  · exact hfirst
  · exact hfirst.sublist (.cons_cons _ (List.sublist_cons_self _ _))

/-- The numbers of the calls rise, up to what has been sent in the end. -/
theorem calls_rise (reads : List Bytes) (script : List Sent) (sent : Nat) (last : Option Nat)
    (hfits : sent + reads.flatten.length < 2 ^ 64) :
    (sent :: ((sendFile useTls (some progress) total reads script sent last).calls ++
        [(sendFile useTls (some progress) total reads script sent last).sent])).Pairwise (· ≤ ·) ∧
      (sendFile useTls (some progress) total reads script sent last).sent ≤
        sent + reads.flatten.length := by
  induction reads generalizing script sent last with
  | nil => simp [sendFile]
  | cons piece reads ih =>
      rw [List.flatten_cons, List.length_append] at hfits ⊢
      have hmod : (sent + piece.length) % 2 ^ 64 = sent + piece.length := Nat.mod_eq_of_lt (by omega)
      obtain ⟨hpair, hle⟩ := ih (writeAll useTls script piece).script (sent + piece.length)
        (percent (sent + piece.length) total) (by omega)
      have hstep : sent ≤ sent + piece.length := Nat.le_add_right _ _
      rw [sendFile]
      simp only [Option.isSome_some, if_true, hmod]
      by_cases hpiece : piece = []
      · simp [hpiece]
      by_cases hwrite : (!(writeAll useTls script piece).ok) = true
      · simp [hpiece, hwrite]
      rw [if_neg hpiece, if_neg hwrite]
      split_ifs with hcancel
      · exact ⟨callsAt_rise progress total last hstep (by simp), by simp only; omega⟩
      · rw [List.append_assoc]
        exact ⟨callsAt_rise progress total last hstep hpair, by simp only; omega⟩

/-- What `stor` reports rises from nothing up to at most what its file has brought. -/
theorem storCalls_rise (w : World) (p : Printer) (localPath : Bytes) {file : Option LocalFile}
    (remotePath : Bytes) {size : Nat} (hfile : ∀ x ∈ file, x.reads.flatten.length ≤ size)
    (hfits : size < 2 ^ 64) :
    ((storCalls progress w p localPath file remotePath).1 ++
        (storCalls progress w p localPath file remotePath).2).Pairwise (· ≤ ·) ∧
      ∀ sent ∈ (storCalls progress w p localPath file remotePath).1 ++
        (storCalls progress w p localPath file remotePath).2, sent ≤ size := by
  unfold storCalls
  cases file with
  | none => simp
  | some file =>
      have hlength := hfile file rfl
      cases w.startTransfer p (ascii "STOR") (ascii "STOR " ++ remotePath) with
      | mk started w' =>
          cases started with
          | refused err => simp
          | tlsFailed err => simp
          | «open» checks =>
              obtain ⟨hpair, hle⟩ := calls_rise w'.client.useTls progress file.size file.reads
                p.dataSends 0 none (by omega)
              simp only
              generalize sendFile w'.client.useTls (some progress) file.size file.reads p.dataSends 0 none = up
                at hpair hle ⊢
              have hrise := (List.pairwise_cons.mp hpair).2
              have hlast (x : Nat) (hx : x ∈ up.calls ++ [up.sent]) : x ≤ size := by
                rcases List.mem_append.mp hx with hx | hx
                · have := (List.pairwise_append.mp hrise).2.2 x hx _ (List.mem_singleton_self _)
                  omega
                · obtain rfl := List.mem_singleton.mp hx
                  omega
              split_ifs
              · exact ⟨hrise, hlast⟩
              · rw [List.append_nil]
                exact ⟨(List.pairwise_append.mp hrise).1, fun x hx =>
                  hlast x (List.mem_append_left _ hx)⟩

end Stor

/-! ## `run_chunked_upload` -/

section Chunks

open OpenBambu.Tunnel OpenBambu.Upload

variable (md5 : Md5) (seq : UInt32) (f : File) (cancelled : Nat → Bool)

/-- Where the chunks of `transfer` end. -/
def transferEnds (chunkSizeKb : UInt32) (offset : UInt64) (s : Session) : List Nat :=
  let bufferSize := chunkSizeKb.toNat * 1024
  match hashPrefix f bufferSize offset.toNat (f.size + 1) 0 [] with
  | .error _ => []
  | .ok none => []
  | .ok (some ctx) =>
      chunkEnds md5 f seq bufferSize cancelled (f.size + 1) 0
        { pos := offset.toNat, offset := offset.toNat, fragId := 0, ctx := ctx, digestLower := [] } s

/-- The same of `runChunkedUpload`. -/
def uploadEnds (req : UploadRequest) (opened : Option File) (s : Session) : List Nat :=
  if req.destStorage = [] ∨ req.destName = [] ∨ req.localPath = [] then []
  else
    match opened with
    | none => []
    | some f =>
        match initUpload seq req f s with
        | .error _ => []
        | .ok (.error _, _) => []
        | .ok (.ok (chunkSizeKb, offset), s) => transferEnds md5 seq f cancelled chunkSizeKb offset s

theorem transferEnds_rise (chunkSizeKb : UInt32) (offset : UInt64) (s : Session) :
    (transferEnds md5 seq f cancelled chunkSizeKb offset s).IsChain (· ≤ ·) ∧
      ∀ x ∈ transferEnds md5 seq f cancelled chunkSizeKb offset s, x ≤ f.size := by
  unfold transferEnds
  simp only
  cases hashPrefix f (chunkSizeKb.toNat * 1024) offset.toNat (f.size + 1) 0 [] with
  | error h => simp
  | ok hashed =>
      cases hashed with
      | none => simp
      | some ctx =>
          obtain ⟨hchain, hle⟩ := chunkEnds_rise (f.size + 1) 0
            ⟨offset.toNat, offset.toNat, 0, ctx, []⟩ s
          exact ⟨hchain.tail, hle⟩

theorem uploadEnds_rise (req : UploadRequest) (opened : Option File) (s : Session) {size : Nat}
    (hsize : ∀ f ∈ opened, f.size = size) :
    (uploadEnds md5 seq cancelled req opened s).IsChain (· ≤ ·) ∧
      ∀ x ∈ uploadEnds md5 seq cancelled req opened s, x ≤ size := by
  unfold uploadEnds
  split_ifs
  · simp
  · cases opened with
    | none => simp
    | some f =>
        obtain rfl := hsize f rfl
        simp only
        cases initUpload seq req f s with
        | error h => simp
        | ok r =>
            obtain ⟨started, s₁⟩ := r
            cases started with
            | error out => simp
            | ok start => exact transferEnds_rise md5 seq f cancelled start.1 start.2 s₁

end Chunks

end OpenBambu.Print
