import Mathlib.Data.FinEnum
import Mathlib.Data.List.Basic

/-!
# Byte strings and calls that do not return

Buffers and strings are lists of bytes. A call either returns or comes to one of
the ends in `Halt`; `Except Halt` keeps a memory error or an endless loop from
being read as a result.
-/

namespace OpenBambu.Foundation

abbrev Byte := UInt8
abbrev Bytes := List Byte

instance instLawfulBEqBytes : LawfulBEq Bytes := inferInstance

/-- The bytes of a literal of the source. Only ASCII literals occur. -/
def ascii (s : String) : Bytes := s.toList.map fun c => UInt8.ofNat c.toNat

namespace Ascii

def tab : Byte := 0x09
def lf : Byte := 0x0a
def cr : Byte := 0x0d
def sp : Byte := 0x20
def quote : Byte := 0x22
def plus : Byte := 0x2b
def comma : Byte := 0x2c
def minus : Byte := 0x2d
def dot : Byte := 0x2e
def slash : Byte := 0x2f
def colon : Byte := 0x3a
def lbracket : Byte := 0x5b
def backslash : Byte := 0x5c
def rbracket : Byte := 0x5d
def lbrace : Byte := 0x7b
def rbrace : Byte := 0x7d

/-- A lower-case letter, given as a character. -/
def letter (c : Char) : Byte := UInt8.ofNat c.toNat

end Ascii

/-- What the bytes below 256 all have, every byte has. -/
theorem forall_byte {P : Byte → Prop} (h : ∀ n < 256, P (UInt8.ofNat n)) (b : Byte) : P b := by
  rw [← UInt8.ofNat_toNat (x := b)]
  exact h b.toNat b.toNat_lt

/-- The ways in which a call never comes back with a value. -/
inductive Halt where
  /-- It read memory outside its buffer, which is undefined behaviour. -/
  | overread
  /-- Its loop makes no progress. -/
  | hang
  /-- It waits for a peer that sends nothing more. -/
  | blocked
  deriving DecidableEq, Repr

/-- The range `[off, off+len)` of a buffer, when it lies inside. -/
def slice (buf : Bytes) (off len : Nat) : Except Halt Bytes :=
  if off + len ≤ buf.length then .ok ((buf.drop off).take len) else .error .overread

/-- One byte of a buffer, when the index lies inside. -/
def byteAt (buf : Bytes) (i : Nat) : Except Halt Byte :=
  match buf[i]? with
  | some b => .ok b
  | none => .error .overread

theorem ok_bind {α β : Type} (a : α) (f : α → Except Halt β) : (Except.ok a >>= f) = f a := rfl

theorem slice_ok {buf : Bytes} {off len : Nat} (h : off + len ≤ buf.length) :
    slice buf off len = .ok ((buf.drop off).take len) := if_pos h

theorem byteAt_ok {buf : Bytes} {i : Nat} (h : i < buf.length) : byteAt buf i = .ok buf[i] := by
  simp [byteAt, List.getElem?_eq_getElem h]

theorem byteAt_drop {buf rest : Bytes} {i : Nat} {b : Byte} (h : buf.drop i = b :: rest) :
    byteAt buf i = .ok b := by
  have hb : buf[i]? = some b := by
    rw [← Nat.add_zero i, ← List.getElem?_drop, h, List.getElem?_cons_zero]
  rw [byteAt, hb]

theorem lt_of_drop {buf rest : Bytes} {i : Nat} {b : Byte} (h : buf.drop i = b :: rest) :
    i < buf.length := by
  by_contra hle
  rw [List.drop_eq_nil_of_le (Nat.le_of_not_lt hle)] at h
  exact List.cons_ne_nil _ _ h.symm

theorem drop_succ {buf rest : Bytes} {i : Nat} {b : Byte} (h : buf.drop i = b :: rest) :
    buf.drop (i + 1) = rest := by
  rw [← List.drop_drop, h, List.drop_one, List.tail_cons]

end OpenBambu.Foundation
