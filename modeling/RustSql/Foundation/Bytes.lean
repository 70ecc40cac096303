import Mathlib.Data.Nat.Basic
import Mathlib.Tactic.Ring

/-! Fixed-size byte buffers and the little-endian words stored in them. -/

namespace RustSql.Foundation

/-- What holds of all bytes is checked in 256 cases. -/
@[elab_as_elim]
theorem forall_byte {p : UInt8 → Prop} (every : ∀ n : Fin 256, p (UInt8.ofNat n)) (b : UInt8) : p b := by
  have here := every ⟨b.toNat, b.toNat_lt⟩
  rwa [UInt8.ofNat_toNat] at here

/-- A buffer of exactly `size` bytes. -/
abbrev Bytes (size : Nat) := Vector UInt8 size

namespace Bytes

/-- The all-zero buffer. -/
def zero (size : Nat) : Bytes size :=
  Vector.replicate size 0

/-- One byte, with bytes past the end read as zero. -/
def byteAt (buffer : Bytes size) (offset : Nat) : UInt8 :=
  buffer[offset]?.getD 0

/-- The `u32` whose little-endian bytes start at `offset`. -/
def readU32 (buffer : Bytes size) (offset : Nat) : Nat :=
  (byteAt buffer offset).toNat + 256 * (byteAt buffer (offset + 1)).toNat +
    65536 * (byteAt buffer (offset + 2)).toNat +
    16777216 * (byteAt buffer (offset + 3)).toNat

/-- Store `value` modulo `2 ^ 32` at `offset`, least significant byte first. -/
def writeU32 (buffer : Bytes size) (offset value : Nat) : Bytes size :=
  (((buffer.setIfInBounds offset (UInt8.ofNat value)).setIfInBounds
    (offset + 1) (UInt8.ofNat (value / 256))).setIfInBounds
    (offset + 2) (UInt8.ofNat (value / 65536))).setIfInBounds
    (offset + 3) (UInt8.ofNat (value / 16777216))

theorem byteAt_setIfInBounds (buffer : Bytes size) (target offset : Nat) (value : UInt8)
    (bound : target < size) :
    byteAt (buffer.setIfInBounds target value) offset =
      if target = offset then value else byteAt buffer offset := by
  unfold byteAt
  rw [Vector.getElem?_setIfInBounds]
  split <;> rfl

theorem byteAt_writeU32 (buffer : Bytes size) (target value offset : Nat)
    (bound : target + 4 ≤ size) :
    byteAt (writeU32 buffer target value) offset =
      if target + 3 = offset then UInt8.ofNat (value / 16777216)
      else if target + 2 = offset then UInt8.ofNat (value / 65536)
      else if target + 1 = offset then UInt8.ofNat (value / 256)
      else if target = offset then UInt8.ofNat value
      else byteAt buffer offset := by
  unfold writeU32
  rw [byteAt_setIfInBounds _ _ _ _ (by omega), byteAt_setIfInBounds _ _ _ _ (by omega),
    byteAt_setIfInBounds _ _ _ _ (by omega), byteAt_setIfInBounds _ _ _ _ (by omega)]

/-- A word reads back as it was written. -/
theorem readU32_writeU32 (buffer : Bytes size) (offset value : Nat)
    (bound : offset + 4 ≤ size) :
    readU32 (writeU32 buffer offset value) offset = value % 2 ^ 32 := by
  simp only [readU32, byteAt_writeU32 _ _ _ _ bound]
  simp
  omega

theorem readU32_writeU32_of_lt (buffer : Bytes size) (offset value : Nat)
    (bound : offset + 4 ≤ size) (small : value < 2 ^ 32) :
    readU32 (writeU32 buffer offset value) offset = value := by
  rw [readU32_writeU32 buffer offset value bound, Nat.mod_eq_of_lt small]

/-- A write leaves every disjoint word alone. -/
theorem readU32_writeU32_disjoint (buffer : Bytes size) (target value offset : Nat)
    (bound : target + 4 ≤ size) (apart : offset + 4 ≤ target ∨ target + 4 ≤ offset) :
    readU32 (writeU32 buffer target value) offset = readU32 buffer offset := by
  have same : ∀ shift, shift < 4 →
      byteAt (writeU32 buffer target value) (offset + shift) =
        byteAt buffer (offset + shift) := by
    intro shift small
    rw [byteAt_writeU32 _ _ _ _ bound, if_neg (by omega), if_neg (by omega),
      if_neg (by omega), if_neg (by omega)]
  have first := same 0 (by omega)
  rw [Nat.add_zero] at first
  simp only [readU32, first, same 1 (by omega), same 2 (by omega), same 3 (by omega)]

end Bytes

end RustSql.Foundation
