import Mathlib.Data.Nat.Size
import RustSql.Types.RowCodec

/-! Rows of any width as bytes, and the sizes predicted for them. -/

namespace RustSql.Types

open RustSql.Foundation

def Cell.blob (bytes : List UInt8) (fits : bytes.length < 2 ^ 64) : Cell := ⟨.blob bytes, fits⟩

/-- The bytes of stored values, from a column on. -/
def encodeCells (rowidAlias : Option Nat) : Nat → List Cell → List UInt8
  | _, [] => []
  | col, cell :: rest =>
    (if rowidAlias = some col then [rowidMarker] else cell.1.encode) ++
      encodeCells rowidAlias (col + 1) rest

theorem encodeCells_append (rowidAlias : Option Nat) (col : Nat) (front back : List Cell) :
    encodeCells rowidAlias col (front ++ back) =
      encodeCells rowidAlias col front ++ encodeCells rowidAlias (col + front.length) back := by
  induction front generalizing col with
  | nil => rfl
  | cons cell front ih =>
    rw [List.cons_append, encodeCells, encodeCells, ih, List.append_assoc, List.length_cons,
      Nat.add_right_comm, Nat.add_assoc]

/-- `uvarint_len`: the bits of the number in groups of seven. -/
def uvarintLen (n : Nat) : Nat := (n.size + 6) / 7

theorem size_of_large {n : Nat} (large : 128 ≤ n) : n.size = (n / 128).size + 7 := by
  have high : 0 < (n / 128).size := Nat.size_pos.mpr (by omega)
  apply Nat.le_antisymm
  · rw [Nat.size_le, pow_add]
    have below := Nat.lt_size_self (n / 128)
    omega
  · have above : 2 ^ ((n / 128).size - 1) ≤ n / 128 := Nat.lt_size.mp (by omega)
    have bits : (n / 128).size - 1 + 7 < n.size := by
      rw [Nat.lt_size, pow_add]
      omega
    omega

/-- Zero takes a byte but has no bits. -/
theorem encodeUvarint_length (n : Nat) :
    (encodeUvarint n).length = uvarintLen n + if n = 0 then 1 else 0 := by
  induction n using Nat.strongRecOn with
  | ind n ih =>
    rw [encodeUvarint]
    split
    next small =>
      by_cases zero : n = 0
      · subst zero
        rfl
      · have bits : n.size ≤ 7 := Nat.size_le.mpr small
        have positive := Nat.size_pos.mpr (Nat.pos_of_ne_zero zero)
        rw [if_neg zero, uvarintLen, List.length_singleton]
        omega
    next large =>
      have bits := @size_of_large n (by omega)
      rw [List.length_cons, ih (n / 128) (by omega), if_neg (by omega), if_neg (by omega),
        uvarintLen, uvarintLen]
      omega

namespace Value

/-- `encoded_size`. -/
def encodedSize : Value → Nat
  | null => 1
  | integer i =>
    let v := i.toInt
    if v = 0 then 1
    else if -2 ^ 7 ≤ v ∧ v < 2 ^ 7 then 2
    else if -2 ^ 15 ≤ v ∧ v < 2 ^ 15 then 3
    else if -2 ^ 31 ≤ v ∧ v < 2 ^ 31 then 5
    else 9
  | real f => if isCompact f then 1 + uvarintLen (zigzag (asI64 f)) else 9
  | text bytes | blob bytes => 1 + uvarintLen bytes.length + bytes.length

/-- The values with a zero as their varint: empty texts and blobs, and `+0.0`. -/
def writesZero : Value → Bool
  | text bytes | blob bytes => bytes.isEmpty
  | real f => f.bits == 0
  | _ => false

theorem zigzag_asI64_eq_zero {f : Binary64} (compact : isCompact f = true) :
    zigzag (asI64 f) = 0 ↔ f.bits = 0 := by
  constructor
  · intro zero
    have back := asF64_asI64 compact
    rw [zero] at back
    rw [← back]
    rfl
  · intro zero
    obtain ⟨bits⟩ := f
    cases zero
    decide +kernel

/-- The prediction is one short exactly for the values that write a zero. -/
theorem encode_length (value : Value) :
    value.encode.length = value.encodedSize + if value.writesZero then 1 else 0 := by
  cases value with
  | null => rfl
  | integer i =>
    simp only [encode, encodedSize, writesZero]
    split
    · rfl
    · split
      · simp
      · split
        · simp
        · split <;> simp
  | real f =>
    simp only [encode, encodedSize, writesZero, beq_iff_eq]
    split
    next compact =>
      rw [List.length_cons, encodeUvarint_length]
      simp only [zigzag_asI64_eq_zero compact]
      omega
    next wide =>
      have nonzero : f.bits ≠ 0 := by
        intro zero
        obtain ⟨bits⟩ := f
        cases zero
        exact wide (by decide)
      rw [if_neg nonzero, List.length_cons, littleEndian_length]
  | text bytes | blob bytes =>
    simp only [encode, encodedSize, writesZero, List.length_cons, List.length_append,
      encodeUvarint_length, List.length_eq_zero_iff, List.isEmpty_iff]
    omega

theorem encodedSize_eq_iff (value : Value) :
    value.encodedSize = value.encode.length ↔ value.writesZero = false := by
  rw [encode_length]
  cases value.writesZero <;> simp

end Value

/-- The predicted size of stored values, from a column on. -/
def encodedSizes (rowidAlias : Option Nat) : Nat → List Cell → Nat
  | _, [] => 0
  | col, cell :: rest =>
    (if rowidAlias = some col then 1 else cell.1.encodedSize) +
      encodedSizes rowidAlias (col + 1) rest

/-- How many stored values write a zero, from a column on. -/
def zeroVarints (rowidAlias : Option Nat) : Nat → List Cell → Nat
  | _, [] => 0
  | col, cell :: rest =>
    (if rowidAlias ≠ some col ∧ cell.1.writesZero = true then 1 else 0) +
      zeroVarints rowidAlias (col + 1) rest

theorem encodeCells_length (rowidAlias : Option Nat) (col : Nat) (cells : List Cell) :
    (encodeCells rowidAlias col cells).length =
      encodedSizes rowidAlias col cells + zeroVarints rowidAlias col cells := by
  induction cells generalizing col with
  | nil => rfl
  | cons cell cells ih =>
    rw [encodeCells, encodedSizes, zeroVarints, List.length_append, ih]
    by_cases marked : rowidAlias = some col
    · simp only [marked, if_true, List.length_singleton, ne_eq, not_true, false_and, if_false]
      omega
    · simp only [marked, if_false, ne_eq, not_false_iff, true_and, Value.encode_length]
      omega

theorem zeroVarints_eq_zero (rowidAlias : Option Nat) (col : Nat) (cells : List Cell) :
    zeroVarints rowidAlias col cells = 0 ↔ ∀ i cell, cells[i]? = some cell →
      rowidAlias ≠ some (col + i) → cell.1.writesZero = false := by
  induction cells generalizing col with
  | nil => simp [zeroVarints]
  | cons head cells ih =>
    rw [zeroVarints, Nat.add_eq_zero_iff, ih]
    constructor
    · rintro ⟨first, others⟩ i cell at_i unmarked
      cases i with
      | zero =>
        cases at_i
        cases zero : head.1.writesZero with
        | false => rfl
        | true => simp [zero, show rowidAlias ≠ some col from unmarked] at first
      | succ i => exact others i cell at_i (by rwa [Nat.add_right_comm, Nat.add_assoc])
    · intro clean
      refine ⟨?_, fun i cell at_i unmarked => clean (i + 1) cell at_i ?_⟩
      · rw [if_neg]
        rintro ⟨unmarked, zero⟩
        rw [clean 0 head rfl unmarked] at zero
        cases zero
      · rwa [Nat.add_right_comm, Nat.add_assoc] at unmarked

end RustSql.Types
