import RustSql.Storage.Cell

/-! Round trip of B+tree cells: every reader infers from the length alone how the cell was
split. -/

namespace RustSql.Storage

open RustSql.Foundation Varint

theorem markBit (i : Nat) : (UInt64.ofNat indexV6Mark).toBitVec.getLsbD i = decide (i = 62) := by
  have power : (UInt64.ofNat indexV6Mark).toBitVec = BitVec.twoPow 64 62 := by decide
  rw [power, BitVec.getLsbD_twoPow]
  by_cases same : i = 62
  · simp [same]
  · simp [same, Ne.symm same]

section Marked

variable {total : UInt64} (small : total.toNat < indexV6Mark)

include small

theorem unmarkedBit : total.toBitVec.getLsbD 62 = false :=
  Nat.testBit_lt_two_pow small

omit small in
theorem marked_ne_zero : (total ||| UInt64.ofNat indexV6Mark) &&& UInt64.ofNat indexV6Mark ≠ 0 := by
  intro zero
  have bit := congrArg (fun u : UInt64 => u.toBitVec.getLsbD 62) zero
  simp only [UInt64.toBitVec_and, UInt64.toBitVec_or, BitVec.getLsbD_and, BitVec.getLsbD_or,
    markBit] at bit
  simp at bit

theorem marked_total :
    (total ||| UInt64.ofNat indexV6Mark) &&& ~~~ UInt64.ofNat indexV6Mark = total := by
  apply UInt64.toBitVec_inj.mp
  apply BitVec.eq_of_getLsbD_eq
  intro i inside
  simp only [UInt64.toBitVec_and, UInt64.toBitVec_or, UInt64.toBitVec_not, BitVec.getLsbD_and,
    BitVec.getLsbD_or, BitVec.getLsbD_not, markBit, inside]
  by_cases same : i = 62
  · subst same
    rw [unmarkedBit small]
    rfl
  · simp [same]

theorem unmarked_zero : total &&& UInt64.ofNat indexV6Mark = 0 := by
  apply UInt64.toBitVec_inj.mp
  apply BitVec.eq_of_getLsbD_eq
  intro i inside
  simp only [UInt64.toBitVec_and, BitVec.getLsbD_and, markBit]
  by_cases same : i = 62
  · subst same
    rw [unmarkedBit small]
    rfl
  · simp [same]

end Marked

/-- The rule a key was split by. -/
def indexLocalLen (v6 : Bool) (total pageSize : Nat) : Nat :=
  if v6 then indexLocalLenV6 total pageSize else overflowLocalLenFor total pageSize

theorem indexCellSplit_raw {total : UInt64} (small : total.toNat < indexV6Mark) (v6 : Bool)
    (pageSize : Nat) :
    indexCellSplit (indexTotalRaw total v6) pageSize =
      (total.toNat, indexLocalLen v6 total.toNat pageSize, v6) := by
  cases v6
  · simp [indexCellSplit, indexTotalRaw, unmarked_zero small, indexLocalLen]
  · simp only [indexCellSplit, indexTotalRaw, if_true, if_pos marked_ne_zero,
      marked_total small, indexLocalLen]

/-- A cell the tree may hold: what is in the page keeps within the limit of the page, and what
is not has the local part that the rule gives. Lengths of keys stay below the mark. -/
def Cell.WellFormed (pageSize : Nat) : Cell → Prop
  | .tableLeaf _ payload => payload.length ≤ pageSize - 128
  | .tableLeafOverflow _ total share _ =>
    share.length = overflowLocalLenFor total.toNat pageSize ∧ share.length < total.toNat
  | .tableInterior _ _ => True
  | .indexLeaf key _ | .indexInterior _ key _ => key.length ≤ pageSize - 128
  | .indexLeafOverflow _ total share _ v6 | .indexInteriorOverflow _ _ total share _ v6 =>
    total.toNat < indexV6Mark ∧ share.length = indexLocalLen v6 total.toNat pageSize ∧
      share.length < total.toNat

def Cell.pageType : Cell → PageType
  | tableLeaf .. | tableLeafOverflow .. => .leafTable
  | tableInterior .. => .interiorTable
  | indexLeaf .. | indexLeafOverflow .. => .leafIndex
  | indexInterior .. | indexInteriorOverflow .. => .interiorIndex

/-- The bytes of a cell. -/
def Cell.bytes (cell : Cell) : List UInt8 := cell.encode []

theorem Cell.encode_eq (cell : Cell) (out : List UInt8) : cell.encode out = out ++ cell.bytes := by
  cases cell <;> simp [bytes, encode]

theorem pageBytes_length (id : UInt32) : (pageBytes id).length = 4 := length_toBeBytes id.toNat

theorem Cell.bytes_length (cell : Cell) : cell.bytes.length = cell.encodedSize := by
  cases cell <;> simp [bytes, encode, encodedSize, pageBytes_length] <;> omega

/-- A buffer that has `front` at its front. -/
def Cell.filled (front out : List UInt8) : Cell.Cursor :=
  (front ++ out.drop front.length, front.length)

theorem Cell.put_filled {front bytes out : List UInt8}
    (room : front.length + bytes.length ≤ out.length) :
    put bytes (filled front out) = .ok (filled (front ++ bytes) out) := by
  have inside : front.length + bytes.length ≤ front.length + (out.length - front.length) := by
    omega
  have kept : (front ++ out.drop front.length).drop (front.length + bytes.length) =
      out.drop (front.length + bytes.length) := by
    rw [List.drop_length_add_append, List.drop_drop]
  simp only [put, filled, List.length_append, List.length_drop, if_pos inside, kept,
    List.take_left]

/-- `encode_into` writes the bytes of `encode`, and its position ends at `encodedSize`. -/
theorem Cell.encodeInto_eq (cell : Cell) {out : List UInt8}
    (room : cell.encodedSize ≤ out.length) :
    cell.encodeInto out = .ok (filled cell.bytes out) := by
  have start : (out, 0) = filled [] out := rfl
  cases cell <;>
    simp only [encodedSize] at room <;>
    simp (disch := simp only [List.length_append, List.length_nil, pageBytes_length]; omega) only
      [encodeInto, start, put_filled, Checked.ok_bind] <;>
    simp [bytes, encode]

theorem read_signed (v : Int64) (rest : List UInt8) :
    decodeSigned (encodeSigned v ++ rest) = some (v, (encodeSigned v).length) := by
  rw [decodeSigned_encodeSigned, encodeSigned, encode_length]

theorem read_varint (v : UInt64) (rest : List UInt8) :
    Varint.decode (Varint.encode v ++ rest) = some (v, (Varint.encode v).length) := by
  rw [decode_encode, encode_length]

theorem pageAt_pageBytes (id : UInt32) (rest : List UInt8) : pageAt (pageBytes id ++ rest) = id := by
  rw [pageAt, List.take_left' (pageBytes_length id), pageBytes, fromBeBytes_toBeBytes id.toNat_lt]
  exact UInt32.ofNat_toNat

section Legal

variable {pageSize : Nat} (legal : LegalPageSize pageSize)

theorem overflowLocalLenFor_whole {total : Nat} (fits : total ≤ pageSize - 128) :
    overflowLocalLenFor total pageSize = total := by
  rw [overflowLocalLenFor, if_pos fits]

include legal

/-- The length of a key in the page is not marked. -/
theorem indexCellSplit_whole {key : List UInt8} (fits : key.length ≤ pageSize - 128) :
    indexCellSplit (UInt64.ofNat key.length) pageSize = (key.length, key.length, false) := by
  have most := legal.atMost
  have length : (UInt64.ofNat key.length).toNat = key.length :=
    UInt64.toNat_ofNat_of_lt' (show key.length < 2 ^ 64 by omega)
  have split := @indexCellSplit_raw (UInt64.ofNat key.length) (by rw [length, indexV6Mark]; omega)
    false pageSize
  rwa [length, indexLocalLen, if_neg (by simp), overflowLocalLenFor_whole fits] at split

omit legal in
theorem share_read (share : List UInt8) (overflow : UInt32) (suffix : List UInt8) :
    ¬ (share ++ (pageBytes overflow ++ suffix)).length < share.length + 4 := by
  simp only [List.length_append, pageBytes_length]
  omega

omit legal in
theorem child_read (leftChild : UInt32) (rest : List UInt8) :
    ¬ (pageBytes leftChild ++ rest).length < 4 ∧
      (∀ n, (pageBytes leftChild ++ rest).drop (4 + n) = rest.drop n) ∧
      (pageBytes leftChild ++ rest).drop 4 = rest := by
  have behind : (pageBytes leftChild ++ rest).drop 4 = rest :=
    List.drop_left' (pageBytes_length leftChild)
  refine ⟨?_, fun n => ?_, behind⟩
  · simp only [List.length_append, pageBytes_length]
    omega
  · rw [← List.drop_drop, behind]

/-- The readers find in the page what fits it. -/
theorem whole_read {bytes : List UInt8} (fits : bytes.length ≤ pageSize - 128)
    (suffix : List UInt8) :
    (UInt64.ofNat bytes.length).toNat = bytes.length ∧
      ¬ (bytes ++ suffix).length < bytes.length := by
  have most := legal.atMost
  refine ⟨UInt64.toNat_ofNat_of_lt' (show bytes.length < 2 ^ 64 by omega), ?_⟩
  rw [List.length_append]
  omega

theorem Cell.decode_bytes {cell : Cell} (well : cell.WellFormed pageSize) (suffix : List UInt8) :
    Cell.decode (cell.bytes ++ suffix) cell.pageType pageSize = .ok cell := by
  cases cell with
  | tableLeaf rowid payload =>
    have fits : payload.length ≤ pageSize - 128 := well
    obtain ⟨length, long⟩ := whole_read legal fits suffix
    simp only [bytes, encode, List.nil_append, List.append_assoc, pageType, Cell.decode,
      decodeLeafTable, read_signed, orCorrupt, bind, Except.bind, List.drop_left, lenVarint,
      read_varint, length, overflowLocalLenFor_whole fits, if_neg long, if_true, List.take_left]
  | tableLeafOverflow rowid total share overflow =>
    obtain ⟨rule, spilled⟩ := well
    have long := share_read share overflow suffix
    have partly : share.length ≠ total.toNat := by omega
    simp only [bytes, encode, List.nil_append, List.append_assoc, pageType, Cell.decode,
      decodeLeafTable, read_signed, orCorrupt, bind, Except.bind, List.drop_left, read_varint,
      ← rule, if_neg partly, if_neg long, List.take_left, pageAt_pageBytes]
  | tableInterior leftChild key =>
    obtain ⟨long, -, behind⟩ := child_read leftChild (encodeSigned key ++ suffix)
    simp only [bytes, encode, List.nil_append, List.append_assoc, pageType, Cell.decode,
      decodeInteriorTable, if_neg long, behind, read_signed, orCorrupt, bind, Except.bind,
      pageAt_pageBytes]
  | indexLeaf key rowid =>
    have fits : key.length ≤ pageSize - 128 := well
    obtain ⟨-, long⟩ := whole_read legal fits suffix
    simp only [bytes, encode, List.nil_append, List.append_assoc, pageType, Cell.decode,
      decodeLeafIndex, read_signed, orCorrupt, bind, Except.bind, List.drop_left, lenVarint,
      read_varint, indexCellSplit_whole legal fits, if_neg long, if_true, List.take_left]
  | indexLeafOverflow rowid total share overflow v6 =>
    obtain ⟨small, rule, spilled⟩ := well
    have long := share_read share overflow suffix
    have partly : share.length ≠ total.toNat := by omega
    simp only [bytes, encode, List.nil_append, List.append_assoc, pageType, Cell.decode,
      decodeLeafIndex, read_signed, orCorrupt, bind, Except.bind, List.drop_left, read_varint,
      indexCellSplit_raw small, ← rule, if_neg partly, if_neg long, List.take_left,
      pageAt_pageBytes, UInt64.ofNat_toNat]
  | indexInterior leftChild key rowid =>
    have fits : key.length ≤ pageSize - 128 := well
    obtain ⟨-, long⟩ := whole_read legal fits suffix
    obtain ⟨child, beyond, behind⟩ := child_read leftChild
      (encodeSigned rowid ++ (lenVarint key ++ (key ++ suffix)))
    rw [lenVarint] at child beyond behind
    simp only [bytes, encode, List.nil_append, List.append_assoc, pageType, Cell.decode,
      decodeInteriorIndex, lenVarint, if_neg child, behind, beyond, read_signed, orCorrupt, bind,
      Except.bind, List.drop_left, read_varint, indexCellSplit_whole legal fits, if_neg long,
      if_true, List.take_left, pageAt_pageBytes]
  | indexInteriorOverflow leftChild rowid total share overflow v6 =>
    obtain ⟨small, rule, spilled⟩ := well
    have long := share_read share overflow suffix
    have partly : share.length ≠ total.toNat := by omega
    obtain ⟨child, beyond, behind⟩ := child_read leftChild (encodeSigned rowid ++
      (Varint.encode (indexTotalRaw total v6) ++ (share ++ (pageBytes overflow ++ suffix))))
    simp only [bytes, encode, List.nil_append, List.append_assoc, pageType, Cell.decode,
      decodeInteriorIndex, if_neg child, behind, beyond, read_signed, orCorrupt, bind, Except.bind,
      List.drop_left, read_varint, indexCellSplit_raw small, ← rule, if_neg partly, if_neg long,
      List.take_left, pageAt_pageBytes, UInt64.ofNat_toNat]

/-- The whole length of a key. -/
def Cell.keyTotal : Cell → UInt64
  | indexLeaf key _ | indexInterior _ key _ => UInt64.ofNat key.length
  | indexLeafOverflow _ total _ _ _ | indexInteriorOverflow _ _ total _ _ _ => total
  | _ => 0

def Cell.view (cell : Cell) : IndexCellView :=
  ⟨cell.indexKey, cell.key, cell.leftChild, cell.keyTotal, cell.indexOverflow⟩

theorem decodeIndexCell_leaf {cell : Cell} (well : cell.WellFormed pageSize)
    (leaf : cell.pageType = .leafIndex) (suffix : List UInt8) :
    decodeIndexCell (cell.bytes ++ suffix) false pageSize = some cell.view := by
  cases cell with
  | indexLeaf key rowid =>
    have fits : key.length ≤ pageSize - 128 := well
    obtain ⟨-, long⟩ := whole_read legal fits suffix
    simp only [Cell.bytes, Cell.encode, List.nil_append, List.append_assoc, decodeIndexCell,
      cellChild, Bool.false_eq_true, if_false, List.drop_zero, Nat.zero_add, bind,
      Option.bind, read_signed, List.drop_left, lenVarint, read_varint,
      indexCellSplit_whole legal fits, if_neg long, if_true, List.take_left]
    rfl
  | indexLeafOverflow rowid total share overflow v6 =>
    obtain ⟨small, rule, spilled⟩ := well
    have long := share_read share overflow suffix
    have partly : share.length ≠ total.toNat := by omega
    simp only [Cell.bytes, Cell.encode, List.nil_append, List.append_assoc, decodeIndexCell,
      cellChild, Bool.false_eq_true, if_false, List.drop_zero, Nat.zero_add, bind, Option.bind,
      read_signed, List.drop_left, read_varint, indexCellSplit_raw small, ← rule, if_neg partly,
      if_neg long, List.take_left, pageAt_pageBytes, UInt64.ofNat_toNat]
    rfl
  | tableLeaf | tableLeafOverflow | tableInterior | indexInterior | indexInteriorOverflow =>
    cases leaf

theorem decodeIndexCell_interior {cell : Cell} (well : cell.WellFormed pageSize)
    (interior : cell.pageType = .interiorIndex) (suffix : List UInt8) :
    decodeIndexCell (cell.bytes ++ suffix) true pageSize = some cell.view := by
  cases cell with
  | indexInterior leftChild key rowid =>
    have fits : key.length ≤ pageSize - 128 := well
    obtain ⟨-, long⟩ := whole_read legal fits suffix
    obtain ⟨child, beyond, behind⟩ := child_read leftChild
      (encodeSigned rowid ++ (lenVarint key ++ (key ++ suffix)))
    rw [lenVarint] at child beyond behind
    simp only [Cell.bytes, Cell.encode, List.nil_append, List.append_assoc, decodeIndexCell,
      cellChild, if_true, lenVarint, if_neg child, behind, beyond, bind, Option.bind, read_signed,
      List.drop_left, read_varint, indexCellSplit_whole legal fits, if_neg long,
      List.take_left, pageAt_pageBytes]
    rfl
  | indexInteriorOverflow leftChild rowid total share overflow v6 =>
    obtain ⟨small, rule, spilled⟩ := well
    have long := share_read share overflow suffix
    have partly : share.length ≠ total.toNat := by omega
    obtain ⟨child, beyond, behind⟩ := child_read leftChild (encodeSigned rowid ++
      (Varint.encode (indexTotalRaw total v6) ++ (share ++ (pageBytes overflow ++ suffix))))
    simp only [Cell.bytes, Cell.encode, List.nil_append, List.append_assoc, decodeIndexCell,
      cellChild, if_true, if_neg child, behind, beyond, bind, Option.bind, read_signed,
      List.drop_left, read_varint, indexCellSplit_raw small, ← rule, if_neg partly,
      if_neg long, List.take_left, pageAt_pageBytes, UInt64.ofNat_toNat]
    rfl
  | tableLeaf | tableLeafOverflow | tableInterior | indexLeaf | indexLeafOverflow =>
    cases interior

theorem indexLeafCellSize_bytes {cell : Cell} (well : cell.WellFormed pageSize)
    (leaf : cell.pageType = .leafIndex) (suffix : List UInt8) :
    indexLeafCellSize (cell.bytes ++ suffix) pageSize = some cell.encodedSize := by
  cases cell with
  | indexLeaf key rowid =>
    have fits : key.length ≤ pageSize - 128 := well
    simp only [Cell.bytes, Cell.encode, List.nil_append, List.append_assoc, indexLeafCellSize,
      bind, Option.bind, read_signed, List.drop_left, lenVarint, read_varint,
      indexCellSplit_whole legal fits, if_true, Cell.encodedSize]
  | indexLeafOverflow rowid total share overflow v6 =>
    obtain ⟨small, rule, spilled⟩ := well
    have partly : share.length ≠ total.toNat := by omega
    simp only [Cell.bytes, Cell.encode, List.nil_append, List.append_assoc, indexLeafCellSize,
      bind, Option.bind, read_signed, List.drop_left, read_varint, indexCellSplit_raw small,
      ← rule, if_neg partly, Cell.encodedSize]
  | tableLeaf | tableLeafOverflow | tableInterior | indexInterior | indexInteriorOverflow =>
    cases leaf

theorem tableLeafCellSizePaged_bytes {cell : Cell} (well : cell.WellFormed pageSize)
    (leaf : cell.pageType = .leafTable) (suffix : List UInt8) :
    tableLeafCellSizePaged (cell.bytes ++ suffix) pageSize = some cell.encodedSize := by
  cases cell with
  | tableLeaf rowid payload =>
    have fits : payload.length ≤ pageSize - 128 := well
    obtain ⟨length, -⟩ := whole_read legal fits suffix
    simp only [Cell.bytes, Cell.encode, List.nil_append, List.append_assoc,
      tableLeafCellSizePaged, bind, Option.bind, read_signed, List.drop_left, lenVarint,
      read_varint, length, overflowLocalLenFor_whole fits, if_true, Cell.encodedSize]
  | tableLeafOverflow rowid total share overflow =>
    obtain ⟨rule, spilled⟩ := well
    have partly : share.length ≠ total.toNat := by omega
    simp only [Cell.bytes, Cell.encode, List.nil_append, List.append_assoc,
      tableLeafCellSizePaged, bind, Option.bind, read_signed, List.drop_left, read_varint,
      ← rule, if_neg partly, Cell.encodedSize]
  | tableInterior | indexLeaf | indexLeafOverflow | indexInterior | indexInteriorOverflow =>
    cases leaf

end Legal

/-- Every reader gives back what the writers wrote. -/
structure Survives (pageSize : Nat) (cell : Cell) : Prop where
  encode : ∀ out, cell.encode out = out ++ cell.bytes
  encodeInto : ∀ out, cell.encodedSize ≤ out.length →
    cell.encodeInto out = .ok (cell.bytes ++ out.drop cell.encodedSize, cell.encodedSize)
  length : cell.bytes.length = cell.encodedSize
  decode : ∀ suffix, Cell.decode (cell.bytes ++ suffix) cell.pageType pageSize = .ok cell
  leafView : cell.pageType = .leafIndex → ∀ suffix,
    decodeIndexCell (cell.bytes ++ suffix) false pageSize = some cell.view
  interiorView : cell.pageType = .interiorIndex → ∀ suffix,
    decodeIndexCell (cell.bytes ++ suffix) true pageSize = some cell.view
  indexSize : cell.pageType = .leafIndex → ∀ suffix,
    indexLeafCellSize (cell.bytes ++ suffix) pageSize = some cell.encodedSize
  tableSize : cell.pageType = .leafTable → ∀ suffix,
    tableLeafCellSizePaged (cell.bytes ++ suffix) pageSize = some cell.encodedSize

/-- Varints and well-formed cells survive their codecs, whatever follows them. -/
theorem cell_roundTrip :
    (∀ (v : UInt64) (rest : List UInt8), Varint.decode (Varint.encode v ++ rest) =
        some (v, lenOf v) ∧ (Varint.encode v).length = lenOf v) ∧
      (∀ (v : Int64) (rest : List UInt8), decodeSigned (encodeSigned v ++ rest) =
        some (v, lenOf v.toUInt64) ∧ (encodeSigned v).length = lenOf v.toUInt64) ∧
      ∀ (pageSize : Nat) (cell : Cell), LegalPageSize pageSize → cell.WellFormed pageSize →
        Survives pageSize cell := by
  refine ⟨fun v rest => ⟨decode_encode v rest, encode_length v⟩,
    fun v rest => ⟨decodeSigned_encodeSigned v rest, encode_length _⟩,
    fun pageSize cell legal well => ?_⟩
  refine ⟨cell.encode_eq, fun out room => ?_, cell.bytes_length, cell.decode_bytes legal well,
    decodeIndexCell_leaf legal well, decodeIndexCell_interior legal well,
    indexLeafCellSize_bytes legal well, tableLeafCellSizePaged_bytes legal well⟩
  rw [cell.encodeInto_eq room, Cell.filled, cell.bytes_length]

/-- A marked key of 500 bytes leaves 39 of them on a page of 512. -/
theorem cell_roundTrip_marked :
    Survives 512 (.indexLeafOverflow (-1) 500 (List.replicate 39 7) 3 true) :=
  cell_roundTrip.2.2 512 _ ⟨⟨9, rfl⟩, by decide, by decide⟩ ⟨by decide, by decide, by decide⟩

end RustSql.Storage
