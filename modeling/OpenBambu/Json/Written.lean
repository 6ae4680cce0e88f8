import OpenBambu.Json.RoundTrip

/-!
# The text of a value

What `dump` writes of any value, whatever its keys and strings contain: strings are closed, and the
braces outside them match.
-/

namespace OpenBambu.Json

open OpenBambu.Foundation

theorem balanced_escape (s : Bytes) : Balanced (escape s) := by
  have htext : ∀ tail, ReadsString (s.flatMap escapeByte ++ [Ascii.quote] ++ tail) s tail :=
    fun tail => by simpa using readsString_escape s tail
  simpa [escape] using Balanced.string htext .nil

/-! ## Numbers -/

/-- A byte of a number text. -/
def numeralByte (b : Byte) : Prop := numberByte b = true ∨ b = Ascii.plus ∨ b = Ascii.minus

theorem numeralByte_digit {b : Byte} (h : isDigit b = true) : numeralByte b :=
  Or.inl (by rw [numberByte, h]; rfl)

theorem numeralByte_plain {b : Byte} (h : numeralByte b) : Plain b := by
  have hdigit : ∀ c, isDigit c = true → Plain c := forall_byte (by decide +kernel)
  rcases h with h | rfl | rfl
  · simp only [numberByte, Bool.or_eq_true, decide_eq_true_eq] at h
    rcases h with ((h | rfl) | rfl) | rfl
    · exact hdigit b h
    all_goals decide
  all_goals decide

theorem decimal_numeral (n : Nat) : ∀ b ∈ decimal n, numeralByte b :=
  fun b hb => numeralByte_digit (decimal_digits n b hb)

theorem withPoint_numeral {int frac : Bytes} (hi : ∀ b ∈ int, numeralByte b)
    (hf : ∀ b ∈ frac, numeralByte b) : ∀ b ∈ withPoint int frac, numeralByte b := by
  intro b hb
  simp only [withPoint] at hb
  split_ifs at hb with hnil
  · exact hi b hb
  · rw [List.mem_append, List.mem_cons] at hb
    rcases hb with hb | rfl | hb
    · exact hi b hb
    · exact Or.inl rfl
    · exact hf b ((List.rdropWhile_prefix _ frac).subset hb)

/-- The exponent of `%.17g`, with at least two digits. -/
theorem exponent_numeral (x : Int) : ∀ b ∈ Ascii.letter 'e' :: (if x < 0 then Ascii.minus else Ascii.plus) ::
    (if (decimal x.natAbs).length < 2 then 0x30 :: decimal x.natAbs else decimal x.natAbs),
    numeralByte b := by
  intro b hb
  rw [List.mem_cons, List.mem_cons] at hb
  rcases hb with rfl | rfl | hb
  · exact Or.inl rfl
  · split_ifs
    · exact Or.inr (Or.inr rfl)
    · exact Or.inr (Or.inl rfl)
  · split_ifs at hb
    · rcases List.mem_cons.mp hb with rfl | hb
      · exact Or.inl rfl
      · exact decimal_numeral _ b hb
    · exact decimal_numeral _ b hb

theorem formatMagnitude_numeral (n d : Nat) : ∀ b ∈ formatMagnitude n d, numeralByte b := by
  have hzeros : ∀ k, ∀ b ∈ List.replicate k (0x30 : Byte), numeralByte b := by
    intro k b hb
    obtain ⟨-, rfl⟩ := List.mem_replicate.mp hb
    exact Or.inl rfl
  simp only [formatMagnitude]
  generalize (if scaledDecimal n d (16 - floorLog10 n d) = 10 ^ 17 then (10 ^ 16, floorLog10 n d + 1)
    else (scaledDecimal n d (16 - floorLog10 n d), floorLog10 n d)) = p
  obtain ⟨m, x⟩ := p
  have hds := decimal_numeral m
  have hcut : ∀ k, ∀ b ∈ withPoint ((decimal m).take k) ((decimal m).drop k), numeralByte b := fun k =>
    withPoint_numeral (fun c hc => hds c (List.mem_of_mem_take hc)) fun c hc =>
      hds c (List.mem_of_mem_drop hc)
  simp only
  by_cases hexp : x < -4 ∨ 17 ≤ x
  · rw [if_pos hexp]
    intro b hb
    rcases List.mem_append.mp hb with hb | hb
    · exact hcut 1 b hb
    · exact exponent_numeral x b hb
  rw [if_neg hexp]
  by_cases hneg : x < 0
  · rw [if_pos hneg]
    apply withPoint_numeral (hzeros 1)
    intro c hc
    rcases List.mem_append.mp hc with hc | hc
    · exact hzeros _ c hc
    · exact hds c hc
  · rw [if_neg hneg]
    exact hcut _

theorem dumpNumber_numeral (d : Double) : ∀ b ∈ dumpNumber d, numeralByte b := by
  have hminus : ∀ {c : Bytes}, (∀ b ∈ c, numeralByte b) → ∀ b ∈ Ascii.minus :: c, numeralByte b := by
    intro c hc b hb
    rcases List.mem_cons.mp hb with rfl | hb
    · exact Or.inr (Or.inr rfl)
    · exact hc b hb
  unfold dumpNumber signed
  split_ifs
  · exact hminus (decimal_numeral _)
  · exact decimal_numeral _
  · exact hminus (formatMagnitude_numeral _ _)
  · exact formatMagnitude_numeral _ _

theorem balanced_number (d : Double) : Balanced (dumpNumber d) :=
  balanced_of_plain fun b hb => numeralByte_plain (dumpNumber_numeral d b hb)

/-! ## Values -/

mutual

theorem balanced_dump : (v : Value) → Balanced v.dump
  | .null => balanced_of_plain (by decide +kernel)
  | .bool true => balanced_of_plain (by decide +kernel)
  | .bool false => balanced_of_plain (by decide +kernel)
  | .number d => balanced_number d
  | .string s => balanced_escape s
  | .array a => .plain (by decide) (balanced_dumpItems a)
  | .object o => by
      obtain ⟨c, hc, hbalanced⟩ := balanced_dumpMembers o
      rw [Value.dump, hc]
      exact .braces hbalanced .nil

theorem balanced_dumpItems : (vs : List Value) → Balanced (dumpItems vs)
  | [] => .plain (by decide) .nil
  | v :: vs => (balanced_dump v).append (balanced_dumpMoreItems vs)

theorem balanced_dumpMoreItems : (vs : List Value) → Balanced (dumpMoreItems vs)
  | [] => .plain (by decide) .nil
  | v :: vs => .plain (by decide) ((balanced_dump v).append (balanced_dumpMoreItems vs))

/-- The members, up to the closing brace. -/
theorem balanced_dumpMembers : (o : Object) → ∃ c, dumpMembers o = c ++ [Ascii.rbrace] ∧ Balanced c
  | [] => ⟨[], rfl, .nil⟩
  | (k, v) :: o => by
      obtain ⟨c, hc, hbalanced⟩ := balanced_dumpMoreMembers o
      refine ⟨escape k ++ Ascii.colon :: (v.dump ++ c), by simp [dumpMembers, hc], ?_⟩
      exact (balanced_escape k).append (.plain (by decide) ((balanced_dump v).append hbalanced))

theorem balanced_dumpMoreMembers : (o : Object) → ∃ c, dumpMoreMembers o = c ++ [Ascii.rbrace] ∧ Balanced c
  | [] => ⟨[], rfl, .nil⟩
  | (k, v) :: o => by
      obtain ⟨c, hc, hbalanced⟩ := balanced_dumpMoreMembers o
      refine ⟨Ascii.comma :: (escape k ++ Ascii.colon :: (v.dump ++ c)), by simp [dumpMoreMembers, hc], ?_⟩
      exact .plain (by decide)
        ((balanced_escape k).append (.plain (by decide) ((balanced_dump v).append hbalanced)))

end

/-- The text of an object: what stands between its braces is balanced. -/
theorem dump_object (o : Object) :
    ∃ c, (Value.object o).dump = Ascii.lbrace :: (c ++ [Ascii.rbrace]) ∧ Balanced c := by
  obtain ⟨c, hc, hbalanced⟩ := balanced_dumpMembers o
  exact ⟨c, by rw [Value.dump, hc], hbalanced⟩

end OpenBambu.Json
