import RustSql.Storage.SelectedColumns

/-! The probes read the same columns, and all decoders agree. -/

namespace RustSql.Storage.RowCodec

open RustSql.Foundation RustSql.Types

/-- A probed number has the value of the column. -/
inductive ProbedInt : Value → Checked Unit ProbeNum → Prop
  | integer (i : Int64) : ProbedInt (.integer i) (.ok (.int i))
  | real (f : Binary64) : ProbedInt (.real f) (.ok (.real f))
  | integral {f : Binary64} {i : Int64} (number : f.isNaN = false) (same : exact i = f.scaled) :
    ProbedInt (.real f) (.ok (.int i))
  | null : ProbedInt .null (Checked.fail ())
  | text (bytes : List UInt8) : ProbedInt (.text bytes) (Checked.fail ())
  | blob (bytes : List UInt8) : ProbedInt (.blob bytes) (Checked.fail ())

/-- The text of a column, if it is one. -/
def textOf : Value → Checked Unit (List UInt8)
  | .text bytes => .ok bytes
  | _ => Checked.fail ()

section Starts

variable {buf : List UInt8} {rowidAlias : Option Nat} {col pos left : Nat} {cells : List Types.Cell}

theorem probeStart_at (bounded : buf.length < 2 ^ 63) (here : At buf rowidAlias col pos cells) :
    (left ≤ cells.length → ∃ off, probeStart buf left pos = .ok off ∧
      At buf rowidAlias (col + left) off (cells.drop left)) ∧
    (cells.length < left → probeStart buf left pos = Checked.fail ()) := by
  induction left generalizing col pos cells with
  | zero => exact ⟨fun _ => ⟨pos, rfl, here⟩, fun beyond => absurd beyond (Nat.not_lt_zero _)⟩
  | succ left ih =>
    rw [probeStart, Checked.sliceFrom_ok here.inside, Checked.ok_bind]
    cases cells with
    | nil =>
      refine ⟨fun beyond => absurd beyond (Nat.not_succ_le_zero _), fun _ => ?_⟩
      rw [here.suffix]
      rfl
    | cons cell cells =>
      have next := here.next
      have inside := next.inside
      obtain ⟨found, missing⟩ := ih next
      rw [here.span bounded, Checked.ok_bind, Checked.add_ok (by omega), Checked.ok_bind]
      refine ⟨fun enough => ?_, fun beyond => missing (Nat.lt_of_succ_lt_succ beyond)⟩
      obtain ⟨off, walked, there⟩ := found (Nat.le_of_succ_le_succ enough)
      rw [Nat.add_right_comm, Nat.add_assoc] at there
      exact ⟨off, walked, there⟩

/-- Over a stored row both probes walk alike. -/
theorem textStart_at (bounded : buf.length < 2 ^ 63) (here : At buf rowidAlias col pos cells) :
    textStart buf left pos = probeStart buf left pos := by
  induction left generalizing col pos cells with
  | zero => rfl
  | succ left ih =>
    rw [probeStart, textStart, Checked.sliceFrom_ok here.inside, getFrom, if_pos here.inside,
      Checked.ok_bind, Checked.ok_bind]
    cases cells with
    | nil =>
      rw [here.suffix]
      rfl
    | cons cell cells =>
      have inside := here.next.inside
      rw [here.span bounded, Checked.ok_bind, Checked.ok_bind, Checked.add_ok (by omega),
        Checked.ok_bind, Checked.ok_bind, ih here.next]

end Starts

section Numbers

variable {payload raw rest : List UInt8} {tag : UInt8} {off : Nat}

theorem getRange_behind (bytes : payload.drop off = tag :: (raw ++ rest)) :
    getRange payload (off + 1) (off + 1 + raw.length) = .ok raw := by
  have behind : payload.drop (off + 1) = raw ++ rest := by rw [← List.drop_drop, bytes]; rfl
  have length := congrArg List.length bytes
  rw [List.length_drop, List.length_cons, List.length_append] at length
  rw [getRange, if_pos ⟨Nat.le_add_right _ _, by omega⟩, behind, Nat.add_sub_cancel_left,
    List.take_left]

theorem readInt_behind (bounded : payload.length < 2 ^ 63)
    (bytes : payload.drop off = tag :: (raw ++ rest)) :
    readInt payload (off + 1) raw.length = .ok (.int (Int64.ofInt (signedValue raw))) := by
  have length := congrArg List.length bytes
  rw [List.length_drop, List.length_cons, List.length_append] at length
  rw [readInt, Checked.add_ok (by omega), Checked.ok_bind, getRange_behind bytes]
  rfl

theorem readInt_signed {width : Nat} {i : Int64} (bounded : payload.length < 2 ^ 63)
    (bytes : payload.drop off = tag :: (signedBytes width i.toInt ++ rest)) (positive : 0 < width)
    (low : -2 ^ (8 * width - 1) ≤ i.toInt) (high : i.toInt < 2 ^ (8 * width - 1)) :
    readInt payload (off + 1) width = .ok (.int i) := by
  have read := readInt_behind bounded bytes
  rw [Value.signedBytes_length, signedValue_signedBytes positive low high, Int64.ofInt_toInt]
    at read
  exact read

/-- The integer of a compact double is its value. -/
theorem exact_of_compact {f : Binary64} (compact : isCompact f = true) :
    f.isNaN = false ∧ exact (Int64.ofInt (unzigzag (zigzag (asI64 f)))) = f.scaled := by
  have back := asF64_asI64 compact
  simp only [isCompact, Bool.and_eq_true, decide_eq_true_iff] at compact
  obtain ⟨⟨⟨finite, _⟩, bounded⟩, _⟩ := compact
  have number : f.isNaN = false := by
    simp only [Binary64.isNaN, decide_eq_false_iff_not]
    omega
  have size := Binary64.natAbs_scaled f
  have unit : (0 : Int) < Binary64.unit := Binary64.unit_pos
  have cast : asI64 f = f.truncate := asI64_of_range number (by omega) (by omega)
  have word : (Int64.ofInt (asI64 f)).toInt = asI64 f := by
    rw [Int64.toInt_ofInt]
    unfold asI64 Binary64.toIntSat
    apply Int.bmod_eq_of_le_mul_two <;> simp only [Int64.size] <;> omega
  rw [unzigzag_zigzag] at back ⊢
  refine ⟨number, ?_⟩
  rw [← scaled_asF64_of_truncate number (word.trans cast), back]

end Numbers

section Probes

variable {payload : List UInt8} {rowidAlias : Option Nat} {col off : Nat} {rowid : Int64}

theorem head_of_drop {rest : List UInt8} {tag : UInt8} (suffix : payload.drop off = tag :: rest) :
    payload[off]? = some tag ∧ off < payload.length := by
  have first : payload[off]? = some tag := by
    rw [← List.head?_drop, suffix]
    rfl
  exact ⟨first, (List.getElem?_eq_some_iff.mp first).1⟩

theorem ProbedInt.of_read {result : Checked Unit ProbeNum} {i : Int64}
    (read : result = .ok (.int i)) : ProbedInt (.integer i) result := read ▸ .integer i

theorem ProbedInt.of_real {result : Checked Unit ProbeNum} {f : Binary64}
    (read : result = .ok (.real f)) : ProbedInt (.real f) result := read ▸ .real f

theorem ProbedInt.of_compact {result : Checked Unit ProbeNum} {f : Binary64}
    (compact : isCompact f = true)
    (read : result = .ok (.int (Int64.ofInt (unzigzag (zigzag (asI64 f)))))) :
    ProbedInt (.real f) result := by
  obtain ⟨number, same⟩ := exact_of_compact compact
  exact read ▸ .integral number same

theorem probeNumber_cell {tag : UInt8} {tail rest : List UInt8} {cell : Types.Cell}
    (bounded : payload.length < 2 ^ 63) (encoded : cell.1.encode = tag :: tail)
    (suffix : payload.drop off = tag :: (tail ++ rest)) :
    ProbedInt cell.1 (probeNumber payload (off + 1) tag) := by
  obtain ⟨value, fits⟩ := cell
  cases value with
  | null =>
    cases encoded
    exact .null
  | integer i =>
    have low := i.le_toInt
    have high := i.toInt_lt
    simp only [Value.encode] at encoded
    split at encoded
    next zero =>
      cases encoded
      have same : i = 0 := Int64.toInt_inj.mp zero
      exact .of_read (by rw [same]; rfl)
    next =>
      split at encoded
      next range =>
        cases encoded
        exact .of_read (readInt_signed bounded suffix (by decide) range.1 range.2)
      next =>
        split at encoded
        next range =>
          cases encoded
          exact .of_read (readInt_signed bounded suffix (by decide) range.1 range.2)
        next =>
          split at encoded
          next range =>
            cases encoded
            exact .of_read (readInt_signed bounded suffix (by decide) range.1 range.2)
          next =>
            cases encoded
            exact .of_read (readInt_signed bounded suffix (by decide) low high)
  | real f =>
    simp only [Value.encode] at encoded
    split at encoded
    next compact =>
      cases encoded
      obtain ⟨_, inside⟩ := head_of_drop suffix
      have behind : payload.drop (off + 1) = encodeUvarint (zigzag (asI64 f)) ++ rest := by
        rw [← List.drop_drop, suffix]
        rfl
      have slice : @Checked.sliceFrom Unit _ payload (off + 1) =
          .ok (encodeUvarint (zigzag (asI64 f)) ++ rest) := behind ▸ Checked.sliceFrom_ok inside
      have number := readUvarint_of_some
        (@uvarint_append rest (zigzag (asI64 f)) (Value.zigzag_asI64_lt f))
      refine .of_compact compact ?_
      rw [probeNumber]
      simp only [UInt8.reduceToNat, slice, Checked.ok_bind, number]
      rfl
    next =>
      cases encoded
      have length := congrArg List.length suffix
      rw [List.length_drop, List.length_cons, List.length_append, littleEndian_length] at length
      have read := getRange_behind suffix
      rw [littleEndian_length] at read
      have word : fromLittleEndian (littleEndian 8 f.bits.toNat) = f.bits.toNat := by
        rw [fromLittleEndian_littleEndian]
        exact Nat.mod_eq_of_lt f.bits.toNat_lt
      refine .of_real ?_
      rw [probeNumber]
      simp only [UInt8.reduceToNat]
      rw [Checked.add_ok (by omega), Checked.ok_bind, read, Checked.ok_bind, word,
        UInt64.ofNat_toNat]
      rfl
  | text raw =>
    simp only [Value.encode] at encoded
    split at encoded <;> (cases encoded; exact .text raw)
  | blob raw =>
    cases encoded
    exact .blob raw

/-- The text probe at the tag of a stored value. -/
theorem probeText_cell {tag : UInt8} {tail rest : List UInt8} {cell : Types.Cell}
    (bounded : payload.length < 2 ^ 63) (unmarked : rowidAlias ≠ some col)
    (start : textStart payload col 0 = .ok off) (encoded : cell.1.encode = tag :: tail)
    (suffix : payload.drop off = tag :: (tail ++ rest)) :
    probeTextColumn payload col rowidAlias = textOf cell.1 := by
  obtain ⟨first, inside⟩ := head_of_drop suffix
  have behind : payload.drop (off + 1) = tail ++ rest := by rw [← List.drop_drop, suffix]; rfl
  have rests : getFrom payload (off + 1) = .ok (tail ++ rest) := behind ▸ if_pos inside
  have refused : tag.toNat ≠ 0x07 → tag.toNat ≠ 0x0B →
      probeTextColumn payload col rowidAlias = Checked.fail () := fun seven eleven => by
    unfold probeTextColumn
    rw [if_neg unmarked, start, Checked.ok_bind, first]
    exact if_pos ⟨seven, eleven⟩
  obtain ⟨value, fits⟩ := cell
  cases value with
  | null =>
    cases encoded
    exact refused (by decide) (by decide)
  | integer i =>
    simp only [Value.encode] at encoded
    split at encoded
    · cases encoded
      exact refused (by decide) (by decide)
    · split at encoded
      · cases encoded
        exact refused (by decide) (by decide)
      · split at encoded
        · cases encoded
          exact refused (by decide) (by decide)
        · split at encoded <;> (cases encoded; exact refused (by decide) (by decide))
  | real f =>
    simp only [Value.encode] at encoded
    split at encoded <;> (cases encoded; exact refused (by decide) (by decide))
  | blob raw =>
    cases encoded
    exact refused (by decide) (by decide)
  | text raw =>
    have kind : ¬ (tag.toNat ≠ 0x07 ∧ tag.toNat ≠ 0x0B) := by
      simp only [Value.encode] at encoded
      split at encoded <;> (cases encoded; decide)
    have body : tail = encodeUvarint raw.length ++ raw := (List.cons.inj encoded).2.symm
    rw [body, List.append_assoc] at rests suffix
    have length := congrArg List.length suffix
    rw [List.length_drop, List.length_cons, List.length_append, List.length_append] at length
    have text : payload.drop (off + 1 + (encodeUvarint raw.length).length) = raw ++ rest := by
      have parts := congrArg (List.drop (1 + (encodeUvarint raw.length).length)) suffix
      rw [List.drop_drop, ← Nat.add_assoc] at parts
      rw [parts, Nat.add_comm 1, List.drop_succ_cons, List.drop_left]
    unfold probeTextColumn
    rw [if_neg unmarked, start, Checked.ok_bind, first]
    simp only
    rw [if_neg kind, Checked.add_ok (by omega), Checked.ok_bind, rests, Checked.ok_bind,
      readUvarint_of_some (uvarint_append raw.length fits)]
    simp only [Checked.mapError, Checked.ok_bind]
    rw [Checked.add_ok (by omega), Checked.ok_bind, if_neg (by omega), getRange,
      if_pos ⟨Nat.le_add_right _ _, by omega⟩, text, Nat.add_sub_cancel_left, List.take_left]
    rfl

end Probes

namespace Stores

variable {payload : Payload} {row : List Types.Cell} {rowid : Int64} {rowidAlias : Option Nat}

theorem columnValue_alias (stores : Stores payload row rowid rowidAlias) {col : Nat}
    (marked : rowidAlias = some col) : columnValue row col = .integer rowid := by
  rw [columnValue, stores.inside col marked]
  rfl

/-- A probe ends at the stored value of its column, or behind the row. -/
theorem probed (stores : Stores payload row rowid rowidAlias) (col : Nat) :
    (∃ off, probeStart payload.1 col 0 = .ok off ∧ payload.1[off]? = none ∧
      columnValue row col = .null) ∨
    (probeStart payload.1 col 0 = Checked.fail () ∧ columnValue row col = .null) ∨
    ∃ off cell cells, probeStart payload.1 col 0 = .ok off ∧ columnValue row col = cell.1 ∧
      At payload.1 rowidAlias col off (cell :: cells) := by
  obtain ⟨found, missing⟩ := @probeStart_at payload.1 rowidAlias 0 0 col row payload.2 stores.start
  by_cases short : col ≤ row.length
  · obtain ⟨off, start, here⟩ := found short
    rw [Nat.zero_add] at here
    rcases suffix : row.drop col with _ | ⟨cell, cells⟩
    · rw [suffix] at here
      exact .inl ⟨off, start, List.getElem?_eq_none here.done.ge,
        columnValue_past suffix (Nat.le_refl _)⟩
    · rw [suffix] at here
      exact .inr (.inr ⟨off, cell, cells, start, (columnValue_drop suffix).1, here⟩)
  · have past := Nat.lt_of_not_le short
    exact .inr (.inl ⟨missing past,
      columnValue_past (List.drop_eq_nil_of_le (Nat.le_refl _)) past.le⟩)

theorem probeIntColumn (stores : Stores payload row rowid rowidAlias) (col : Nat) :
    ProbedInt (columnValue row col) (probeIntColumn payload.1 col rowid rowidAlias) := by
  by_cases marked : rowidAlias = some col
  · rw [stores.columnValue_alias marked]
    exact .of_read (if_pos marked)
  rcases stores.probed col with ⟨off, start, none, null⟩ | ⟨failed, null⟩ |
    ⟨off, cell, cells, start, value, here⟩
  · rw [null, RowCodec.probeIntColumn, if_neg marked, start, Checked.ok_bind, none]
    exact .null
  · rw [null, RowCodec.probeIntColumn, if_neg marked, failed]
    exact .null
  · obtain ⟨tag, tail, encoded⟩ := List.exists_cons_of_ne_nil cell.encode_ne_nil
    have suffix := here.stored_suffix marked
    rw [encoded, List.cons_append] at suffix
    obtain ⟨first, inside⟩ := head_of_drop suffix
    have bounded := payload.2
    rw [value, RowCodec.probeIntColumn, if_neg marked, start, Checked.ok_bind, first]
    simp only
    rw [Checked.add_ok (by omega), Checked.ok_bind]
    exact probeNumber_cell bounded encoded suffix

theorem probeTextColumn (stores : Stores payload row rowid rowidAlias) (col : Nat) :
    probeTextColumn payload.1 col rowidAlias = textOf (columnValue row col) := by
  by_cases marked : rowidAlias = some col
  · rw [stores.columnValue_alias marked]
    exact if_pos marked
  have walk := @textStart_at payload.1 rowidAlias 0 0 col row payload.2 stores.start
  rcases stores.probed col with ⟨off, start, none, null⟩ | ⟨failed, null⟩ |
    ⟨off, cell, cells, start, value, here⟩
  · rw [null, RowCodec.probeTextColumn, if_neg marked, walk, start, Checked.ok_bind, none]
    rfl
  · rw [null, RowCodec.probeTextColumn, if_neg marked, walk, failed]
    rfl
  · obtain ⟨tag, tail, encoded⟩ := List.exists_cons_of_ne_nil cell.encode_ne_nil
    have suffix := here.stored_suffix marked
    rw [encoded, List.cons_append] at suffix
    rw [value]
    exact probeText_cell payload.2 marked (walk.trans start) encoded suffix

end Stores

/-- The value a projection takes from a full row: the rowid, or a column, `NULL` past the row. -/
def projection (full : List Value) (rowid : Int64) (i : Nat) : Value :=
  if i = rowidProj then .integer rowid else (full[i]?).getD .null

theorem projection_fullRow (row : List Types.Cell) (nCols : Nat) (rowid : Int64) :
    projection (fullRow row nCols) rowid = project row rowid := by
  funext i
  rw [projection, project, columnValue_eq row nCols]

/-- A stored row decodes to itself, and the selective decoders and probes to its columns. -/
theorem decoders_agree {payload : Payload} {row : List Types.Cell} {rowid : Int64}
    {rowidAlias : Option Nat} {nCols : Nat} (stores : Stores payload row rowid rowidAlias)
    (wide : row.length ≤ nCols) (trusted : Bool) :
    ∃ full, full = row.map Subtype.val ++ List.replicate (nCols - row.length) .null ∧
      decodeRow trusted payload.1 nCols rowid rowidAlias = .ok full ∧
      (∀ (unstable : UnstableSort) (wanted : List Nat) (out : List Value),
        decodeRowSelective unstable trusted payload.1 nCols wanted rowid rowidAlias out =
          .ok (wanted.map (projection full rowid))) ∧
      (∀ wanted : List Nat, wanted ≠ [] → wanted.Pairwise (· < ·) → (∀ i ∈ wanted, i < 2 ^ 64) →
        decodeRowSelectiveSorted trusted payload.1 nCols wanted rowid rowidAlias =
          .ok (wanted.map (projection full rowid))) ∧
      (∀ wanted : List Nat,
        decodeRowSelectiveWide trusted payload.1 nCols wanted rowid rowidAlias =
          .ok ((List.range nCols).map fun col =>
            if col ∈ peaks 0 wanted then (full[col]?).getD .null else .null)) ∧
      (∀ wanted : List Nat, wanted.Pairwise (· ≤ ·) → ∀ col, col ∈ peaks 0 wanted ↔ col ∈ wanted) ∧
      (∀ col, probeTextColumn payload.1 col rowidAlias = textOf ((full[col]?).getD .null)) ∧
      ∀ col, ProbedInt ((full[col]?).getD .null)
        (probeIntColumn payload.1 col rowid rowidAlias) := by
  refine ⟨fullRow row nCols, rfl, stores.decodeRow wide, fun unstable wanted out => ?_,
    fun wanted some sorted words => ?_, fun wanted => ?_, fun wanted sorted col => ?_, fun col => ?_,
    fun col => ?_⟩
  · rw [projection_fullRow]
    exact stores.decodeRowSelective wide unstable wanted out
  · rw [projection_fullRow]
    exact stores.decodeRowSelectiveSorted wide some sorted words
  · rw [stores.decodeRowSelectiveWide wide]
    simp only [columnValue_eq row nCols]
  · rw [mem_peaks sorted, and_iff_left (Nat.zero_le _)]
  · rw [← columnValue_eq]
    exact stores.probeTextColumn col
  · rw [← columnValue_eq]
    exact stores.probeIntColumn col

theorem decoders_agree_pair :
    ∃ full, full = [Value.integer 5, .blob [9]] ++ [.null] ∧
      decodeRow false [9, 8, 1, 9] 3 5 (some 0) = .ok full ∧
      (∀ (wanted : List Nat) (out : List Value),
        decodeRowSelective UnstableSort.merge false [9, 8, 1, 9] 3 wanted 5 (some 0) out =
          .ok (wanted.map (projection full 5))) ∧
      (∀ wanted : List Nat, wanted ≠ [] → wanted.Pairwise (· < ·) → (∀ i ∈ wanted, i < 2 ^ 64) →
        decodeRowSelectiveSorted false [9, 8, 1, 9] 3 wanted 5 (some 0) =
          .ok (wanted.map (projection full 5))) ∧
      (∀ wanted : List Nat,
        decodeRowSelectiveWide false [9, 8, 1, 9] 3 wanted 5 (some 0) =
          .ok ((List.range 3).map fun col =>
            if col ∈ peaks 0 wanted then (full[col]?).getD .null else .null)) ∧
      (∀ wanted : List Nat, wanted.Pairwise (· ≤ ·) → ∀ col, col ∈ peaks 0 wanted ↔ col ∈ wanted) ∧
      (∀ col, probeTextColumn [9, 8, 1, 9] col (some 0) = textOf ((full[col]?).getD .null)) ∧
      ∀ col, ProbedInt ((full[col]?).getD .null) (probeIntColumn [9, 8, 1, 9] col 5 (some 0)) := by
  have stores : Stores ⟨[9, 8, 1, 9], by decide⟩ [Cell.integer 5, Types.Cell.blob [9] (by decide)] 5
      (some 0) := ⟨by decide +kernel, fun a marked => by cases marked; rfl⟩
  obtain ⟨full, padded, decoded, selected, rest⟩ := decoders_agree stores (by decide : 2 ≤ 3) false
  exact ⟨full, padded, decoded, selected .merge, rest⟩

/-- The wide decoder leaves out a column that is listed behind a later one. -/
theorem wide_skips :
    decodeRowSelectiveWide false (encodeCells none 0 [Cell.integer 7, Cell.integer 8]) 2 [1, 0] 0
        none = .ok [.null, .integer 8] ∧
      decodeRow false (encodeCells none 0 [Cell.integer 7, Cell.integer 8]) 2 0 none =
        .ok [.integer 7, .integer 8] := by
  decide +kernel

end RustSql.Storage.RowCodec
