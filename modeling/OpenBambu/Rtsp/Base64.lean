import OpenBambu.Rtsp.Auth
import OpenBambu.Rtsp.Sections

/-!
# Base64

The decoder keeps the bits that are not written out yet in the low end of a 32-bit word and never clears
the bits above them. They run out of the word at its upper end, and no byte is taken from there: the
decoder writes what it would write with a word of any width.
-/

namespace OpenBambu.Rtsp

open OpenBambu.Foundation

/-! ## The word of the decoder -/

/-- What `base64_decode` skips. -/
def isSkipped (c : Byte) : Bool := c = Ascii.cr || c = Ascii.lf || c = Ascii.sp

/-- The loop with a word that loses nothing. -/
def wideLoop (acc bits : Nat) (out : Bytes) : Bytes → Option Bytes
  | [] => some out
  | c :: rest =>
      if c = 0x3d then some out
      else if isSkipped c then wideLoop acc bits out rest
      else
        match base64Value c with
        | none => none
        | some v =>
            let acc := acc * 64 + v.toNat
            if 8 ≤ bits + 6 then wideLoop acc (bits - 2) (out ++ [UInt8.ofNat (acc / 2 ^ (bits - 2))]) rest
            else wideLoop acc (bits + 6) out rest

theorem base64Value_lt {c : Byte} {v : UInt32} (h : base64Value c = some v) : v.toNat < 64 := by
  have hall : ∀ c : Byte, (base64Value c).all (fun v => v.toNat < 64) = true := forall_byte (by decide +kernel)
  have hc := hall c
  rw [h] at hc
  simpa using hc

/-- The six new bits go into the free low end of the word. -/
theorem shifted_toNat {buf v : UInt32} {acc : Nat} (hbuf : buf.toNat = acc % 2 ^ 32) (hv : v.toNat < 64) :
    ((buf <<< 6) ||| v).toNat = (acc * 64 + v.toNat) % 2 ^ 32 := by
  have hshift : (buf <<< 6).toNat = 2 ^ 6 * (buf.toNat % 2 ^ 26) := by
    have hlit : (6 : UInt32).toNat % 32 = 6 := rfl
    rw [UInt32.toNat_shiftLeft, hlit, Nat.shiftLeft_eq]
    omega
  rw [UInt32.toNat_or, hshift, ← Nat.two_pow_add_eq_or_of_lt hv, hbuf]
  omega

/-- A byte that is taken out of the low end is the same in both words. -/
theorem byte_of_word {buf k : UInt32} {acc : Nat} (hbuf : buf.toNat = acc % 2 ^ 32) (hk : k.toNat ≤ 24) :
    (buf >>> k).toUInt8 = UInt8.ofNat (acc / 2 ^ k.toNat) := by
  have hsplit : (2 : Nat) ^ 32 = 2 ^ k.toNat * (2 ^ (24 - k.toNat) * 256) := by
    have hexp : 32 = k.toNat + (24 - k.toNat + 8) := by omega
    calc (2 : Nat) ^ 32 = 2 ^ (k.toNat + (24 - k.toNat + 8)) := congrArg (2 ^ ·) hexp
      _ = 2 ^ k.toNat * (2 ^ (24 - k.toNat) * 256) := by
        rw [pow_add, pow_add]
        norm_num
  have hmod : k.toNat % 32 = k.toNat := Nat.mod_eq_of_lt (by omega)
  refine UInt8.toNat_inj.mp ?_
  rw [UInt32.toNat_toUInt8, UInt32.toNat_shiftRight, hmod, Nat.shiftRight_eq_div_pow, hbuf,
    UInt8.toNat_ofNat', hsplit, Nat.mod_mul_right_div_self, Nat.mod_mul_left_mod]

/-- The bits above a byte never come back: the 32-bit word and the wide one write the same. -/
theorem base64Loop_wide {buf bits : UInt32} {acc : Nat} (hbuf : buf.toNat = acc % 2 ^ 32)
    (hbits : bits.toNat ≤ 7) (out s : Bytes) :
    base64Loop buf bits out s = wideLoop acc bits.toNat out s := by
  induction s generalizing buf bits acc out with
  | nil => rfl
  | cons c rest ih =>
      rw [base64Loop, wideLoop]
      by_cases heq : c = 0x3d
      · rw [if_pos heq, if_pos heq]
      rw [if_neg heq, if_neg heq]
      by_cases hskip : c = Ascii.cr ∨ c = Ascii.lf ∨ c = Ascii.sp
      · have hskipped : isSkipped c = true := by simpa [isSkipped, or_assoc] using hskip
        rw [if_pos hskip, if_pos hskipped]
        exact ih hbuf hbits out
      have hskipped : ¬ isSkipped c = true := by simpa [isSkipped, or_assoc] using hskip
      rw [if_neg hskip, if_neg hskipped]
      cases hv : base64Value c with
      | none => rfl
      | some v =>
          have hword := shifted_toNat hbuf (base64Value_lt hv)
          have hsix : (bits + 6).toNat = bits.toNat + 6 := by
            have hlit : (6 : UInt32).toNat = 6 := rfl
            rw [UInt32.toNat_add, hlit, Nat.mod_eq_of_lt (by omega)]
          have hlit : (8 : UInt32).toNat = 8 := rfl
          simp only [UInt32.le_iff_toNat_le, hsix, hlit]
          by_cases height : 8 ≤ bits.toNat + 6
          · have hless : (bits + 6 - 8).toNat = bits.toNat - 2 := by
              rw [UInt32.toNat_sub_of_le _ _ (UInt32.le_iff_toNat_le.mpr (by rw [hsix]; exact height)), hsix]
              exact Nat.add_sub_add_right bits.toNat 6 2
            have hbyte := byte_of_word hword (k := bits + 6 - 8) (by omega)
            rw [hless] at hbyte
            rw [if_pos height, if_pos height, hbyte, ih hword (by omega), hless]
          · rw [if_neg height, if_neg height, ih hword (by omega), hsix]

/-- No overflow of the accumulator affects a byte that is written. -/
theorem base64Decode_wide (s : Bytes) : base64Decode s = wideLoop 0 0 [] s :=
  base64Loop_wide rfl (by decide) [] s

/-! ## What is skipped -/

theorem wideLoop_filter (acc bits : Nat) (out s : Bytes) :
    wideLoop acc bits out s = wideLoop acc bits out (s.filter fun c => !isSkipped c) := by
  induction s generalizing acc bits out with
  | nil => rfl
  | cons c rest ih =>
      cases hskip : isSkipped c with
      | true =>
          have hne : c ≠ 0x3d := by
            rintro rfl
            exact absurd hskip (by decide)
          rw [List.filter_cons_of_neg (by simp [hskip]), wideLoop, if_neg hne, if_pos hskip, ih]
      | false =>
          rw [List.filter_cons_of_pos (by simp [hskip]), wideLoop, wideLoop]
          simp only [hskip, ih]

/-! ## The characters of the encoder -/

theorem alphabet_read : ∀ k < 64, ∃ v : UInt32, base64Value (kB64Alphabet.getD k 0) = some v ∧ v.toNat = k ∧
    kB64Alphabet.getD k 0 ≠ 0x3d ∧ isSkipped (kB64Alphabet.getD k 0) = false := by
  have hall : ∀ k < 64, base64Value (kB64Alphabet.getD k 0) = some (UInt32.ofNat k) ∧
      (UInt32.ofNat k).toNat = k ∧ kB64Alphabet.getD k 0 ≠ 0x3d ∧
      isSkipped (kB64Alphabet.getD k 0) = false := by decide +kernel
  exact fun k hk => ⟨_, hall k hk⟩

theorem masked_toNat (v : UInt32) : (v &&& 0x3f).toNat = v.toNat % 64 := by
  rw [UInt32.toNat_and]
  exact Nat.and_two_pow_sub_one_eq_mod v.toNat 6

/-- One character of the encoder brings its six bits back. -/
theorem wideLoop_char (acc bits : Nat) (out : Bytes) (v : UInt32) (s : Bytes) :
    wideLoop acc bits out (base64Char v :: s) =
      if 8 ≤ bits + 6 then
        wideLoop (acc * 64 + v.toNat % 64) (bits - 2)
          (out ++ [UInt8.ofNat ((acc * 64 + v.toNat % 64) / 2 ^ (bits - 2))]) s
      else wideLoop (acc * 64 + v.toNat % 64) (bits + 6) out s := by
  obtain ⟨w, hw, hval, hne, hskip⟩ := alphabet_read (v.toNat % 64) (Nat.mod_lt _ (by decide))
  rw [base64Char, masked_toNat, wideLoop, if_neg hne, if_neg (ne_true_of_eq_false hskip), hw]
  simp only [hval]

/-! ## Groups of three bytes -/

/-- A byte that is moved up inside the word. -/
theorem moved_toNat (b : Byte) {k : UInt32} (hk : k.toNat ≤ 24) :
    (b.toUInt32 <<< k).toNat = b.toNat * 2 ^ k.toNat := by
  have hb := b.toNat_lt
  have hpow : 2 ^ k.toNat ≤ 2 ^ 24 := Nat.pow_le_pow_right (by decide) hk
  have hfit : b.toNat * 2 ^ k.toNat < 2 ^ 32 := by nlinarith
  rw [UInt32.toNat_shiftLeft, UInt8.toNat_toUInt32, Nat.mod_eq_of_lt (by omega : k.toNat < 32),
    Nat.shiftLeft_eq, Nat.mod_eq_of_lt hfit]

theorem pair_toNat (a b : Byte) :
    ((a.toUInt32 <<< 16) ||| (b.toUInt32 <<< 8)).toNat = a.toNat * 2 ^ 16 + b.toNat * 2 ^ 8 := by
  have hb := b.toNat_lt
  have hfront : (a.toUInt32 <<< 16).toNat = a.toNat * 2 ^ 16 := moved_toNat a (by decide)
  have hback : (b.toUInt32 <<< 8).toNat = b.toNat * 2 ^ 8 := moved_toNat b (by decide)
  rw [UInt32.toNat_or, hfront, hback, Nat.mul_comm a.toNat, ← Nat.two_pow_add_eq_or_of_lt (by omega)]

theorem group_toNat (a b c : Byte) :
    ((a.toUInt32 <<< 16) ||| (b.toUInt32 <<< 8) ||| c.toUInt32).toNat =
      a.toNat * 2 ^ 16 + b.toNat * 2 ^ 8 + c.toNat := by
  have hc := c.toNat_lt
  have hpair : ((a.toUInt32 <<< 16) ||| (b.toUInt32 <<< 8)).toNat = 2 ^ 8 * (a.toNat * 2 ^ 8 + b.toNat) := by
    rw [pair_toNat]
    omega
  rw [UInt32.toNat_or, hpair, UInt8.toNat_toUInt32, ← Nat.two_pow_add_eq_or_of_lt hc]
  omega

theorem shift_toNat (v : UInt32) {k : UInt32} (hk : k.toNat < 32) :
    (v >>> k).toNat = v.toNat / 2 ^ k.toNat := by
  rw [UInt32.toNat_shiftRight, Nat.mod_eq_of_lt hk, Nat.shiftRight_eq_div_pow]

theorem ofNat_eq_byte {n : Nat} {b : Byte} (h : n % 256 = b.toNat) : UInt8.ofNat n = b :=
  UInt8.toNat_inj.mp (by rw [UInt8.toNat_ofNat', h])

/-- The four sextets of a word of 24 bits. -/
theorem sextets {v : UInt32} {a b c : Nat} (h : v.toNat = a * 2 ^ 16 + b * 2 ^ 8 + c) (ha : a < 256)
    (hb : b < 256) (hc : c < 256) :
    (v >>> 18).toNat % 64 = a / 4 ∧ (v >>> 12).toNat % 64 = a % 4 * 16 + b / 16 ∧
      (v >>> 6).toNat % 64 = b % 16 * 4 + c / 64 ∧ v.toNat % 64 = c % 64 := by
  have h18 : (v >>> 18).toNat = v.toNat / 2 ^ 18 := shift_toNat v (by decide)
  have h12 : (v >>> 12).toNat = v.toNat / 2 ^ 12 := shift_toNat v (by decide)
  have h6 : (v >>> 6).toNat = v.toNat / 2 ^ 6 := shift_toNat v (by decide)
  rw [h18, h12, h6, h]
  norm_num
  omega

/-- Behind a whole group no bit is left over; the end of the input leaves two or four zeros. -/
theorem wideLoop_encode (acc : Nat) (out x : Bytes) : wideLoop acc 0 out (base64Encode x) = some (out ++ x) := by
  fun_induction base64Encode x generalizing acc out with
  | case1 => rw [wideLoop, List.append_nil]
  | case2 a v =>
      have ha := a.toNat_lt
      have hmoved : v.toNat = a.toNat * 2 ^ 16 := moved_toNat a (by decide)
      have hv : v.toNat = a.toNat * 2 ^ 16 + 0 * 2 ^ 8 + 0 := by rw [hmoved, Nat.zero_mul, Nat.add_zero]
      obtain ⟨h0, h1, -, -⟩ := sextets hv ha (by decide) (by decide)
      rw [wideLoop_char, if_neg (by decide), wideLoop_char, if_pos (by decide), wideLoop, if_pos rfl, h0, h1]
      have hfirst : UInt8.ofNat (((acc * 64 + a.toNat / 4) * 64 + (a.toNat % 4 * 16 + 0 / 16)) / 2 ^ (0 + 6 - 2)) =
          a := ofNat_eq_byte (by norm_num; omega)
      rw [hfirst]
  | case3 a b v =>
      have ha := a.toNat_lt
      have hb := b.toNat_lt
      have hpair : v.toNat = a.toNat * 2 ^ 16 + b.toNat * 2 ^ 8 := pair_toNat a b
      have hv : v.toNat = a.toNat * 2 ^ 16 + b.toNat * 2 ^ 8 + 0 := by rw [hpair, Nat.add_zero]
      obtain ⟨h0, h1, h2, -⟩ := sextets hv ha hb (by decide)
      rw [wideLoop_char, if_neg (by decide), wideLoop_char, if_pos (by decide), wideLoop_char,
        if_pos (by decide), wideLoop, if_pos rfl, h0, h1, h2, List.append_assoc]
      refine congrArg (fun bs => some (out ++ bs)) (congrArg₂ (fun a b => [a, b]) ?_ ?_)
      · exact ofNat_eq_byte (by norm_num; omega)
      · exact ofNat_eq_byte (by norm_num; omega)
  | case4 a b c s v ih =>
      have ha := a.toNat_lt
      have hb := b.toNat_lt
      have hc := c.toNat_lt
      obtain ⟨h0, h1, h2, h3⟩ := sextets (group_toNat a b c) ha hb hc
      rw [wideLoop_char, if_neg (by decide), wideLoop_char, if_pos (by decide), wideLoop_char,
        if_pos (by decide), wideLoop_char, if_pos (by decide), h0, h1, h2, h3, ih]
      simp only [List.append_assoc]
      refine congrArg (fun bs => some (out ++ bs)) (congrArg₂ (fun a bs => a :: bs) ?_
        (congrArg₂ (fun b bs => b :: bs) ?_ (congrArg₂ (fun c bs => c :: bs) ?_ rfl)))
      · exact ofNat_eq_byte (by norm_num; omega)
      · exact ofNat_eq_byte (by norm_num; omega)
      · exact ofNat_eq_byte (by norm_num; omega)

/-! ## What base64 carries -/

theorem decode_encode (x : Bytes) : base64Decode (base64Encode x) = some x := by
  rw [base64Decode_wide, wideLoop_encode, List.nil_append]

/-- Every byte of an encoding is a character of the alphabet or a padding. -/
theorem encode_bytes (x : Bytes) : ∀ c ∈ base64Encode x, c ∈ kB64Alphabet ∨ c = 0x3d := by
  have hchar : ∀ v, base64Char v ∈ kB64Alphabet := by
    intro v
    have hlen : kB64Alphabet.length = 64 := by decide +kernel
    have hlt : (v &&& 0x3f).toNat < kB64Alphabet.length := by
      rw [masked_toNat, hlen]
      exact Nat.mod_lt _ (by decide)
    rw [base64Char, List.getD_eq_getElem?_getD, List.getElem?_eq_getElem hlt]
    exact List.getElem_mem hlt
  fun_induction base64Encode x with
  | case1 => simp
  | case2 a v => simp [hchar]
  | case3 a b v => simp [hchar]
  | case4 a b c s v ih => simpa [hchar] using ih

theorem encode_eq_nil (x : Bytes) : base64Encode x = [] ↔ x = [] := by
  fun_cases base64Encode x <;> simp

/-- No byte of an encoding separates or is white space. -/
theorem encode_apart (x : Bytes) :
    ∀ c ∈ base64Encode x, c ≠ Ascii.comma ∧ c ≠ 0x3b ∧ isspace c = false := by
  have halphabet : (kB64Alphabet.all fun c => c ≠ Ascii.comma ∧ c ≠ 0x3b ∧ isspace c = false) = true := by
    decide +kernel
  intro c hc
  rcases encode_bytes x c hc with hmem | rfl
  · exact of_decide_eq_true (List.all_eq_true.mp halphabet c hmem)
  · decide

/-- The NAL units of `sprop-parameter-sets` are those that were encoded. -/
theorem nalsOf_encoded {nals : List Bytes} (h : ∀ nal ∈ nals, nal ≠ []) :
    nalsOf (ascii "sprop-parameter-sets=" ++ [Ascii.comma].intercalate (nals.map base64Encode)) = nals := by
  let joined := [Ascii.comma].intercalate (nals.map base64Encode)
  have hjoined : ∀ c ∈ joined, c ≠ 0x3b ∧ isspace c = false := by
    intro c hc
    rcases mem_intercalate hc with rfl | ⟨text, htext, hmem⟩
    · decide
    · obtain ⟨nal, -, rfl⟩ := List.mem_map.mp htext
      exact (encode_apart nal c hmem).2
  have htext : ascii "sprop-parameter-sets=" ++ joined = ascii "sprop-parameter-sets" ++ 0x3d :: joined := by
    rw [show ascii "sprop-parameter-sets=" = ascii "sprop-parameter-sets" ++ [0x3d] by decide +kernel]
    simp
  have hkey : (0x3b : Byte) ∉ ascii "sprop-parameter-sets" ∧ (0x3d : Byte) ∉ ascii "sprop-parameter-sets" ∧
      lc (trim (ascii "sprop-parameter-sets")) = ascii "sprop-parameter-sets" := by decide +kernel
  have hpiece : (0x3b : Byte) ∉ ascii "sprop-parameter-sets" ++ 0x3d :: joined := by
    intro hmem
    rcases List.mem_append.mp hmem with hmem | hmem
    · exact hkey.1 hmem
    · rcases List.mem_cons.mp hmem with heq | hmem
      · exact absurd heq (by decide)
      · exact (hjoined _ hmem).1 rfl
  have htrim : trim joined = joined := trim_self
    (fun c hc => (hjoined c (List.mem_of_mem_head? hc)).2)
    (fun c hc => (hjoined c (List.mem_of_mem_getLast? hc)).2)
  have hpieces : pieces Ascii.comma joined = nals.map base64Encode := by
    refine pieces_intercalate fun text hmem => ?_
    obtain ⟨nal, hnal, rfl⟩ := List.mem_map.mp hmem
    exact ⟨fun hcomma => (encode_apart nal _ hcomma).1 rfl, fun hnil => h nal hnal ((encode_eq_nil nal).mp hnil)⟩
  have hdecoded : ∀ nal ∈ nals, decodedNal (base64Encode nal) = some nal := by
    intro nal hnal
    rw [decodedNal, decode_encode, Option.filter_some, if_pos (by simpa using h nal hnal)]
  rw [nalsOf, htext, pieces_self hpiece (by simp), List.flatMap_singleton, spropTexts, cut_of_not_mem hkey.2.1]
  simp only [hkey.2.2, if_true, htrim, hpieces]
  rw [List.filterMap_map]
  exact (List.filterMap_congr hdecoded).trans (List.filterMap_some)

/-- What is encoded is decoded, with blanks anywhere in between, and the width of the word never shows;
so parameter sets and credentials arrive as they were sent. -/
structure Base64Law (x : Bytes) : Prop where
  round_trip : base64Decode (base64Encode x) = some x
  skipped : ∀ text, text.filter (fun c => !isSkipped c) = base64Encode x → base64Decode text = some x
  wide : ∀ text, base64Decode text = wideLoop 0 0 [] text
  sprop : ∀ nals : List Bytes, (∀ nal ∈ nals, nal ≠ []) →
    nalsOf (ascii "sprop-parameter-sets=" ++ [Ascii.comma].intercalate (nals.map base64Encode)) = nals
  basic : ∀ md5Hex cnonce who method uri st, st.authScheme = .basic → ∃ text,
    (computeAuthorization md5Hex cnonce who method uri st).1 =
      ascii "Authorization: Basic " ++ text ++ [Ascii.cr, Ascii.lf] ∧
    base64Decode text = some (who.user ++ Ascii.colon :: who.passwd)

theorem base64_law (x : Bytes) : Base64Law x where
  round_trip := decode_encode x
  skipped text h := by rw [base64Decode_wide, wideLoop_filter, h, ← base64Decode_wide, decode_encode]
  wide := base64Decode_wide
  sprop _ h := nalsOf_encoded h
  basic md5Hex cnonce who method uri st h := by
    refine ⟨_, ?_, decode_encode _⟩
    rw [computeAuthorization, h]

end OpenBambu.Rtsp
