import RustSql.Types.RowBytes

/-! The rows whose last body goes from its value to the overflow chain directly. -/

namespace RustSql.Storage.RowCodec

open RustSql.Types

/-- `SPILL_MAX_PREFIX`. -/
def spillMaxPrefix : Nat := 512

/-- The bytes of a text or a blob. -/
def body : Value → Option (List UInt8)
  | .text bytes | .blob bytes => some bytes
  | _ => none

/-- `spill_tail_shape`: the tail column, the length of what precedes its body, and the length of
the payload. -/
def spillTailShape (row : List Types.Cell) (rowidAlias : Option Nat) (maxCell : Nat) :
    Option (Nat × Nat × Nat) := do
  let cell ← row.getLast?
  let tail := row.length - 1
  if rowidAlias = some tail then none
  else
    let body ← body cell.1
    if body.length ≤ maxCell then none
    else
      let total := encodedSizes rowidAlias 0 row
      let prefixLen := total - body.length
      if spillMaxPrefix < prefixLen then none else some (tail, prefixLen, total)

/-- The tag and the length of a body; other values whole. -/
def spillHeader : Value → List UInt8
  | .text bytes => (if isRaw bytes then 0x0B else 0x07) :: encodeUvarint bytes.length
  | .blob bytes => 0x08 :: encodeUvarint bytes.length
  | value => value.encode

/-- `encode_row_spill_prefix_into`, from a column on. -/
def encodeSpillPrefix (rowidAlias : Option Nat) (tailCol : Nat) : Nat → List Types.Cell → List UInt8
  | _, [] => []
  | col, cell :: rest =>
    (if rowidAlias = some col then [rowidMarker]
      else if col = tailCol then spillHeader cell.1 else cell.1.encode) ++
      encodeSpillPrefix rowidAlias tailCol (col + 1) rest

section Shape

variable {rowidAlias : Option Nat} {maxCell : Nat}

theorem encode_of_body {value : Value} {bytes : List UInt8} (has : body value = some bytes) :
    value.encode = spillHeader value ++ bytes := by
  cases value <;> cases has <;> rfl

theorem body_length_le {value : Value} {bytes : List UInt8} (has : body value = some bytes) :
    bytes.length ≤ value.encodedSize := by
  cases value <;> cases has <;> exact Nat.le_add_left _ _

theorem encodeSpillPrefix_front (tailCol col : Nat) (front : List Types.Cell)
    (before : col + front.length ≤ tailCol) (back : List Types.Cell) :
    encodeSpillPrefix rowidAlias tailCol col (front ++ back) = encodeCells rowidAlias col front ++
      encodeSpillPrefix rowidAlias tailCol (col + front.length) back := by
  induction front generalizing col with
  | nil => rfl
  | cons cell front ih =>
    rw [List.length_cons] at before
    rw [List.cons_append, encodeSpillPrefix, encodeCells, ih (col + 1) (by omega),
      if_neg (by omega : col ≠ tailCol), List.append_assoc, List.length_cons, Nat.add_right_comm,
      Nat.add_assoc]

theorem encodedSizes_append (col : Nat) (front back : List Types.Cell) :
    encodedSizes rowidAlias col (front ++ back) =
      encodedSizes rowidAlias col front + encodedSizes rowidAlias (col + front.length) back := by
  induction front generalizing col with
  | nil => simp [encodedSizes]
  | cons cell front ih =>
    have next : col + 1 + front.length = col + (cell :: front).length := by
      rw [List.length_cons]
      omega
    rw [List.cons_append, encodedSizes, encodedSizes, ih, next, Nat.add_assoc]

/-- A row that is written from its tail. -/
structure Spilled (rowidAlias : Option Nat) (maxCell : Nat) where
  front : List Types.Cell
  last : Types.Cell
  bytes : List UInt8
  unmarked : rowidAlias ≠ some front.length
  has : body last.1 = some bytes
  large : maxCell < bytes.length

namespace Spilled

variable (spilled : Spilled rowidAlias maxCell)

def row : List Types.Cell := spilled.front ++ [spilled.last]

def total : Nat := encodedSizes rowidAlias 0 spilled.row

/-- The prefix and the body are the payload, byte for byte. -/
theorem concatenation :
    encodeSpillPrefix rowidAlias spilled.front.length 0 spilled.row ++ spilled.bytes =
      encodeCells rowidAlias 0 spilled.row := by
  have stored : encodeCells rowidAlias spilled.front.length [spilled.last] =
      spillHeader spilled.last.1 ++ spilled.bytes := by
    rw [encodeCells, if_neg spilled.unmarked, encode_of_body spilled.has, encodeCells,
      List.append_nil]
  have header : encodeSpillPrefix rowidAlias spilled.front.length spilled.front.length
      [spilled.last] = spillHeader spilled.last.1 := by
    rw [encodeSpillPrefix, if_neg spilled.unmarked, if_pos rfl, encodeSpillPrefix, List.append_nil]
  rw [row, encodeSpillPrefix_front _ _ _ (by omega), encodeCells_append, Nat.zero_add, stored,
    header, List.append_assoc]

theorem bytes_le : spilled.bytes.length ≤ spilled.total := by
  have small := body_length_le spilled.has
  rw [total, row, encodedSizes_append, Nat.zero_add, encodedSizes, if_neg spilled.unmarked]
  omega

end Spilled

theorem spillTailShape_spilled {row : List Types.Cell} {tail prefixLen total : Nat}
    (shape : spillTailShape row rowidAlias maxCell = some (tail, prefixLen, total)) :
    ∃ spilled : Spilled rowidAlias maxCell, row = spilled.row ∧ tail = spilled.front.length ∧
      prefixLen = spilled.total - spilled.bytes.length ∧ total = spilled.total := by
  obtain ⟨last, atEnd, shape⟩ := Option.bind_eq_some_iff.mp shape
  obtain ⟨front, rfl⟩ := List.getLast?_eq_some_iff.mp atEnd
  have position : (front ++ [last]).length - 1 = front.length := by simp
  simp only [position] at shape
  split at shape
  · cases shape
  next unmarked =>
    obtain ⟨bytes, has, shape⟩ := Option.bind_eq_some_iff.mp shape
    split at shape
    · cases shape
    next large =>
      split at shape
      · cases shape
      · cases shape
        exact ⟨⟨front, last, bytes, unmarked, has, Nat.lt_of_not_le large⟩, rfl, rfl, rfl, rfl⟩

/-- What is promised of a tail: the three lengths and the bytes. -/
structure SpillExact (row : List Types.Cell) (rowidAlias : Option Nat) (tail prefixLen total : Nat)
    (bytes : List UInt8) : Prop where
  prefix_length : (encodeSpillPrefix rowidAlias tail 0 row).length = prefixLen
  sum : prefixLen + bytes.length = total
  total_length : total = (encodeCells rowidAlias 0 row).length
  concatenation : encodeSpillPrefix rowidAlias tail 0 row ++ bytes = encodeCells rowidAlias 0 row

theorem Spilled.exact_iff (spilled : Spilled rowidAlias maxCell) :
    SpillExact spilled.row rowidAlias spilled.front.length
        (spilled.total - spilled.bytes.length) spilled.total spilled.bytes ↔
      zeroVarints rowidAlias 0 spilled.row = 0 := by
  have whole := spilled.concatenation
  have inside := spilled.bytes_le
  have stored : (encodeCells rowidAlias 0 spilled.row).length =
      spilled.total + zeroVarints rowidAlias 0 spilled.row := encodeCells_length _ _ _
  have lengths := congrArg List.length whole
  rw [List.length_append, stored] at lengths
  constructor
  · intro exact
    have total := exact.total_length
    omega
  · intro clean
    exact ⟨by omega, by omega, by omega, whole⟩

/-- The size of a value is predicted unless it writes a zero, and so is a row written from its
tail. -/
theorem spillTailShape_exact (value : Value) (row : List Types.Cell) (rowidAlias : Option Nat)
    (maxCell tail prefixLen total : Nat) :
    (value.encodedSize = value.encode.length ↔ value.writesZero = false) ∧
    (spillTailShape row rowidAlias maxCell = some (tail, prefixLen, total) →
      ∃ cell bytes, row[tail]? = some cell ∧ body cell.1 = some bytes ∧
        (SpillExact row rowidAlias tail prefixLen total bytes ↔
          ∀ col cell, row[col]? = some cell → rowidAlias ≠ some col →
            cell.1.writesZero = false)) := by
  refine ⟨value.encodedSize_eq_iff, fun shape => ?_⟩
  obtain ⟨spilled, rfl, rfl, rfl, rfl⟩ := spillTailShape_spilled shape
  refine ⟨spilled.last, spilled.bytes, ?_, spilled.has, ?_⟩
  · simp [Spilled.row]
  · rw [spilled.exact_iff, zeroVarints_eq_zero]
    simp only [Nat.zero_add]

theorem spillTailShape_exact_blob :
    ∃ cell bytes, [Cell.integer 7, Cell.blob [1, 2, 3] (by decide)][1]? = some cell ∧
      body cell.1 = some bytes ∧
      (SpillExact [Cell.integer 7, Cell.blob [1, 2, 3] (by decide)] none 1 4 7 bytes ↔
        ∀ (col : Nat) (cell : Types.Cell),
          [Cell.integer 7, Cell.blob [1, 2, 3] (by decide)][col]? = some cell →
          none ≠ some col → cell.1.writesZero = false) :=
  (spillTailShape_exact .null _ none 2 1 4 7).2 (by decide)

/-- Behind an empty blob the prefix is a byte longer than announced. -/
theorem spillTailShape_short :
    spillTailShape [Cell.blob [] (by decide), Cell.blob [1, 2, 3] (by decide)] none 2 =
        some (1, 3, 6) ∧
      (encodeSpillPrefix none 1 0
        [Cell.blob [] (by decide), Cell.blob [1, 2, 3] (by decide)]).length = 4 ∧
      (encodeCells none 0
        [Cell.blob [] (by decide), Cell.blob [1, 2, 3] (by decide)]).length = 7 := by
  decide +kernel

end Shape

end RustSql.Storage.RowCodec
