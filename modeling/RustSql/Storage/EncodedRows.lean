import RustSql.Types.RowBytes
import RustSql.Storage.DecodeSafety

/-! What the checked readers find in the bytes of an encoded row. -/

namespace RustSql.Storage.RowCodec

open RustSql.Foundation RustSql.Types

/-- The bytes of a stored value in its column. -/
def cellBytes (rowidAlias : Option Nat) (col : Nat) (cell : Types.Cell) : List UInt8 :=
  if rowidAlias = some col then [rowidMarker] else cell.1.encode

theorem cellBytes_ne_nil (rowidAlias : Option Nat) (col : Nat) (cell : Types.Cell) :
    cellBytes rowidAlias col cell ≠ [] := by
  unfold cellBytes
  split
  · exact List.cons_ne_nil _ _
  · exact cell.encode_ne_nil

theorem decodeWithTrust_encode {trusted : Bool} {cell : Types.Cell} {rest : List UInt8}
    (bounded : (cell.1.encode ++ rest).length < 2 ^ 63) :
    decodeWithTrust trusted (cell.1.encode ++ rest) = .ok (cell.1, cell.1.encode.length) := by
  have back := @decodeWithTrust_of_decode _ rest _ trusted bounded (Value.decode_encode cell.2)
  rw [back, List.length_append, Nat.add_sub_cancel]

theorem stored_encode {trusted : Bool} {cell : Types.Cell} {rest : List UInt8}
    (bounded : (cell.1.encode ++ rest).length < 2 ^ 63) :
    stored trusted (cell.1.encode ++ rest) = some cell.1.encode.length :=
  decodeWithTrust_stored bounded (decodeWithTrust_encode bounded)

theorem claimed_encode {cell : Types.Cell} {rest : List UInt8}
    (bounded : (cell.1.encode ++ rest).length < 2 ^ 63) :
    claimed (cell.1.encode ++ rest) = some cell.1.encode.length :=
  (stored_eq_some.mp (@stored_encode false _ _ bounded)).1

/-- A stored value is read back as it was, and every reader finds its length. -/
theorem value_roundtrip (trusted : Bool) (cell : Types.Cell) (rest : List UInt8)
    (bounded : (cell.1.encode ++ rest).length < 2 ^ 63) :
    decodeWithTrust trusted (cell.1.encode ++ rest) = .ok (cell.1, cell.1.encode.length) ∧
      valueEncodedLen (cell.1.encode ++ rest) = .ok cell.1.encode.length ∧
      encodedSpan (cell.1.encode ++ rest) = .ok cell.1.encode.length := by
  have short : cell.1.encode.length < 2 ^ 63 := by
    rw [List.length_append] at bounded
    omega
  have skipped : valueEncodedLen (cell.1.encode ++ rest) = .ok cell.1.encode.length :=
    (valueEncodedLen_eq_ok bounded).mpr ⟨claimed_encode bounded, by omega⟩
  refine ⟨decodeWithTrust_encode bounded, skipped, ?_⟩
  rw [encodedSpan_eq, skipped]
  rfl

theorem value_roundtrip_raw :
    decodeWithTrust false ((Value.text [0xC3]).encode ++ [0x06]) =
        .ok (.text [0xC3], (Value.text [0xC3]).encode.length) ∧
      valueEncodedLen ((Value.text [0xC3]).encode ++ [0x06]) =
        .ok (Value.text [0xC3]).encode.length ∧
      encodedSpan ((Value.text [0xC3]).encode ++ [0x06]) = .ok (Value.text [0xC3]).encode.length :=
  value_roundtrip false ⟨.text [0xC3], by simp [Value.Fits]⟩ [0x06] (by
    simp [Value.encode, encodeUvarint])

/-- A position of a payload from which so many stored values follow. -/
structure At (buf : List UInt8) (rowidAlias : Option Nat) (col pos : Nat) (cells : List Types.Cell) :
    Prop where
  inside : pos ≤ buf.length
  suffix : buf.drop pos = encodeCells rowidAlias col cells

namespace At

variable {buf : List UInt8} {rowidAlias : Option Nat} {col pos : Nat} {cell : Types.Cell}
  {cells : List Types.Cell}

theorem start (rowidAlias : Option Nat) (row : List Types.Cell) :
    At (encodeCells rowidAlias 0 row) rowidAlias 0 0 row := ⟨Nat.zero_le _, rfl⟩

theorem cons_suffix (here : At buf rowidAlias col pos (cell :: cells)) :
    buf.drop pos = cellBytes rowidAlias col cell ++ encodeCells rowidAlias (col + 1) cells :=
  here.suffix

theorem length (here : At buf rowidAlias col pos cells) :
    buf.length = pos + (encodeCells rowidAlias col cells).length := by
  have inside := here.inside
  rw [← here.suffix, List.length_drop]
  omega

theorem before (here : At buf rowidAlias col pos (cell :: cells)) : pos < buf.length := by
  have filled := List.length_pos_of_ne_nil (cellBytes_ne_nil rowidAlias col cell)
  have whole := here.inside
  have bytes := congrArg List.length here.cons_suffix
  rw [List.length_drop, List.length_append] at bytes
  omega

theorem done (here : At buf rowidAlias col pos []) : pos = buf.length := by
  have whole := here.length
  rw [whole]
  rfl

theorem next (here : At buf rowidAlias col pos (cell :: cells)) :
    At buf rowidAlias (col + 1) (pos + (cellBytes rowidAlias col cell).length) cells where
  inside := by
    have whole := here.length
    have bytes : (encodeCells rowidAlias col (cell :: cells)).length =
      (cellBytes rowidAlias col cell).length +
        (encodeCells rowidAlias (col + 1) cells).length := List.length_append
    omega
  suffix := by rw [← List.drop_drop, here.cons_suffix, List.drop_left]

theorem next_marked (here : At buf rowidAlias col pos (cell :: cells))
    (marked : rowidAlias = some col) : At buf rowidAlias (col + 1) (pos + 1) cells := by
  have next := here.next
  rwa [cellBytes, if_pos marked] at next

theorem next_stored (here : At buf rowidAlias col pos (cell :: cells))
    (unmarked : rowidAlias ≠ some col) :
    At buf rowidAlias (col + 1) (pos + cell.1.encode.length) cells := by
  have next := here.next
  rwa [cellBytes, if_neg unmarked] at next

theorem stored_suffix (here : At buf rowidAlias col pos (cell :: cells))
    (unmarked : rowidAlias ≠ some col) :
    buf.drop pos = cell.1.encode ++ encodeCells rowidAlias (col + 1) cells := by
  rw [here.cons_suffix, cellBytes, if_neg unmarked]

theorem marker (here : At buf rowidAlias col pos (cell :: cells))
    (marked : rowidAlias = some col) : buf[pos]? = some rowidMarker := by
  have first := congrArg List.head? here.cons_suffix
  rw [List.head?_drop, cellBytes, if_pos marked] at first
  exact first

theorem decode (here : At buf rowidAlias col pos (cell :: cells))
    (bounded : buf.length < 2 ^ 63) (unmarked : rowidAlias ≠ some col) (trusted : Bool) :
    decodeAt trusted buf pos = .ok (cell.1, pos + cell.1.encode.length) := by
  refine decodeAt_ok bounded here.inside ?_
  have suffix := @drop_bounded _ pos bounded
  rw [here.stored_suffix unmarked] at suffix ⊢
  exact decodeWithTrust_encode suffix

theorem claims (here : At buf rowidAlias col pos (cell :: cells))
    (bounded : buf.length < 2 ^ 63) (unmarked : rowidAlias ≠ some col) :
    claimed (buf.drop pos) = some cell.1.encode.length := by
  have suffix := @drop_bounded _ pos bounded
  rw [here.stored_suffix unmarked] at suffix ⊢
  exact claimed_encode suffix

theorem skip (here : At buf rowidAlias col pos (cell :: cells))
    (bounded : buf.length < 2 ^ 63) (unmarked : rowidAlias ≠ some col) :
    skipAt buf pos = .ok (pos + cell.1.encode.length) := by
  have behind := (here.next_stored unmarked).inside
  exact (skipAt_eq_ok bounded here.inside).mpr
    ⟨_, here.claims bounded unmarked, by omega, rfl⟩

theorem span (here : At buf rowidAlias col pos (cell :: cells))
    (bounded : buf.length < 2 ^ 63) :
    encodedSpan (buf.drop pos) = .ok (cellBytes rowidAlias col cell).length := by
  have suffix := @drop_bounded _ pos bounded
  by_cases marked : rowidAlias = some col
  · rw [here.cons_suffix, cellBytes, if_pos marked]
    rfl
  · have behind := here.next.inside
    rw [encodedSpan_eq_ok suffix, here.claims bounded marked]
    rw [cellBytes, if_neg marked] at behind ⊢
    exact ⟨rfl, by omega⟩

end At

end RustSql.Storage.RowCodec
