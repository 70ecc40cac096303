import RustSql.Storage.FreelistRun
import RustSql.Storage.OverflowChain

/-! Cells for long payloads and keys: how they are split, and that what was split comes back. -/

namespace RustSql.Storage

open RustSql.Foundation Varint

/-- The length a table payload beyond the limit keeps local, before the limit is looked at. -/
def tableSurplus (total pageSize : Nat) : Nat :=
  pageSize / 4 + (total - pageSize / 4) % (pageSize - 16)

section Rule

variable {total pageSize : Nat}

theorem overflowLocalLenFor_long (least : 512 ≤ pageSize) (long : pageSize - 128 < total) :
    overflowLocalLenFor total pageSize =
      if tableSurplus total pageSize ≤ pageSize - 128 then tableSurplus total pageSize
      else pageSize / 4 := by
  have minLocal : clamp (pageSize / 4) 16 (pageSize - 128 - 8) = pageSize / 4 := by
    rw [clamp]
    omega
  have chainCap : max (pageSize - 16) 1 = pageSize - 16 := by omega
  rw [overflowLocalLenFor, if_neg (by omega)]
  simp only [minLocal, chainCap]
  rfl

theorem overflowLocalLenFor_bounds (least : 512 ≤ pageSize) (long : pageSize - 128 < total) :
    pageSize / 4 ≤ overflowLocalLenFor total pageSize ∧
      overflowLocalLenFor total pageSize ≤ pageSize - 128 := by
  rw [overflowLocalLenFor_long least long, tableSurplus]
  split <;> omega

/-- The last four lengths below the limit leave no room for the page number. -/
theorem overflowLocalLenFor_room (least : 512 ≤ pageSize) (long : pageSize - 128 < total) :
    overflowLocalLenFor total pageSize + 4 ≤ pageSize - 128 ↔
      ¬ (pageSize - 131 ≤ tableSurplus total pageSize ∧
        tableSurplus total pageSize ≤ pageSize - 128) := by
  rw [overflowLocalLenFor_long least long]
  split <;> omega

theorem indexLocalLenV6_bounds (least : 512 ≤ pageSize) (long : indexMaxLocal pageSize < total) :
    indexLocalLenV6 total pageSize ≤ indexMaxLocal pageSize := by
  have smaller : indexMinLocal pageSize ≤ indexMaxLocal pageSize := by
    rw [indexMinLocal, indexMaxLocal]
    omega
  rw [indexLocalLenV6, if_neg (by omega)]
  simp only
  split
  · assumption
  · exact smaller

end Rule

/-- `Btree::MAX_PAYLOAD`. -/
def maxPayload : Nat := 2 ^ 30

/-- Why a call ends without a result: an error, or a panic, such as that of a debug assertion
that does not hold. -/
inductive Stop where
  | raised (error : Error)
  | panicked
deriving DecidableEq, Repr

abbrev BtreeM (size : Nat) := EStateM Stop (Pager size)

def maxCellPayload (size : Nat) : Nat := size - 128

/-- `make_leaf_cell`. -/
def makeLeafCell (fresh : Bytes size) (rowid : Int64) (payload : List UInt8) :
    BtreeM size Cell := do
  if payload.length ≤ maxCellPayload size then return .tableLeaf rowid payload
  else if maxPayload < payload.length then
    throw (.raised (.invalidArgument
      s!"string or blob too big ({payload.length} bytes; max is {maxPayload})"))
  else
    let localLen := overflowLocalLenFor payload.length size
    if localLen + 4 ≤ maxCellPayload size then do
      let overflow ← EStateM.adaptExcept Stop.raised
        (Pager.buildOverflowChain fresh payload localLen)
      return .tableLeafOverflow rowid (UInt64.ofNat payload.length) (payload.take localLen)
        (UInt32.ofNat overflow)
    else throw .panicked

/-- The cell of `insert_index_inner`. A file of the current format needs no stamp for it. -/
def makeIndexCell (fresh : Bytes size) (rowid : Int64) (key : List UInt8) : BtreeM size Cell := do
  if indexMaxLocal size < key.length then do
    let localLen := indexLocalLenV6 key.length size
    let chain ← EStateM.adaptExcept Stop.raised (Pager.buildOverflowChain fresh key localLen)
    return .indexLeafOverflow rowid (UInt64.ofNat key.length) (key.take localLen)
      (UInt32.ofNat chain) true
  else return .indexLeaf key rowid

/-- The whole payload or key of a leaf cell. -/
def Cell.assemble (pager : Pager size) : Cell → Except Error (List UInt8)
  | tableLeaf _ payload => .ok payload
  | tableLeafOverflow _ total share overflow =>
    pager.assembleOverflowPayload share total.toNat overflow.toNat
  | indexLeaf key _ | indexInterior _ key _ => .ok key
  | indexLeafOverflow _ total share overflow _ | indexInteriorOverflow _ _ total share overflow _ =>
    pager.assembleOverflowPayload share total.toNat overflow.toNat
  | tableInterior _ _ => .ok []

/-- `free_space` of a leaf without cells. -/
def emptyLeafSpace (size id : Nat) : Nat := size - (headerOffset id + pageHeaderSize)

/-- A cell that fits any empty leaf, and whose bytes come back. -/
structure Stored (payload : List UInt8) (cell : Cell) (after : Pager size) : Prop where
  fits : ∀ id, cell.encodedSize + 2 ≤ emptyLeafSpace size id
  assembled : cell.assemble after = .ok payload

theorem emptyLeafSpace_le (size id : Nat) : size - 112 ≤ emptyLeafSpace size id := by
  rw [emptyLeafSpace, headerOffset, pageHeaderSize, dbHeaderSize]
  split <;> omega

section Split

variable {pager : Pager size} (legal : LegalPageSize size) (fresh : Bytes size) (rowid : Int64)

include legal

omit legal in
/-- Past the checks of the length, the assertion decides. -/
theorem makeLeafCell_long {payload : List UInt8} (long : size - 128 < payload.length)
    (capped : payload.length ≤ maxPayload) :
    makeLeafCell fresh rowid payload =
      if overflowLocalLenFor payload.length size + 4 ≤ size - 128 then do
        let overflow ← EStateM.adaptExcept Stop.raised
          (Pager.buildOverflowChain fresh payload (overflowLocalLenFor payload.length size))
        return .tableLeafOverflow rowid (UInt64.ofNat payload.length)
          (payload.take (overflowLocalLenFor payload.length size)) (UInt32.ofNat overflow)
      else throw .panicked := by
  have spills : ¬ payload.length ≤ maxCellPayload size := Nat.not_le.mpr long
  rw [makeLeafCell, if_neg spills, if_neg (Nat.not_lt.mpr capped)]
  rfl

/-- A cell that keeps the room its assertion asks for. -/
theorem makeLeafCell_stored {payload : List UInt8} (long : size - 128 < payload.length)
    (capped : payload.length ≤ maxPayload)
    (room : overflowLocalLenFor payload.length size + 4 ≤ size - 128)
    (allots : pager.Allots fresh
      (Pager.chainPages size (payload.length - overflowLocalLenFor payload.length size))) :
    Succeeds (makeLeafCell fresh rowid payload) pager (Stored payload) := by
  have inside := (overflowLocalLenFor_bounds legal.atLeast long).2
  have small : payload.length ≤ 2 ^ 30 := capped
  have total : (UInt64.ofNat payload.length).toNat = payload.length :=
    UInt64.toNat_ofNat_of_lt' (show payload.length < 2 ^ 64 by omega)
  rw [makeLeafCell_long fresh rowid long capped, if_pos room]
  simp only [Succeeds.bind_iff, Succeeds.pure_iff]
  apply (Succeeds.adaptExcept
    (Pager.buildOverflowChain_assembled legal fresh payload (by omega) allots)).mono
  rintro first after ⟨named, assembled⟩
  have page : (UInt32.ofNat first).toNat = first := UInt32.toNat_ofNat_of_lt' named
  refine ⟨fun id => ?_, ?_⟩
  · have space := emptyLeafSpace_le size id
    have share : (payload.take (overflowLocalLenFor payload.length size)).length =
        overflowLocalLenFor payload.length size := List.length_take_of_le (by omega)
    have key := lenOf_le rowid.toUInt64
    have count := @lenOf_le_of_lt (UInt64.ofNat payload.length) 5 (by decide) (by decide)
      (by rw [total]; omega)
    simp only [Cell.encodedSize, encodeSigned, encode_length, share]
    omega
  · rw [Cell.assemble, total, page]
    exact assembled

/-- The cell of a long key; its chain has a number for each page, so the length of the key is
far below the mark. -/
theorem makeIndexCell_stored {key : List UInt8} (long : indexMaxLocal size < key.length)
    (allots : pager.Allots fresh
      (Pager.chainPages size (key.length - indexLocalLenV6 key.length size))) :
    Succeeds (makeIndexCell fresh rowid key) pager (Stored key) := by
  have inside := indexLocalLenV6_bounds legal.atLeast long
  have least := legal.atLeast
  have most := legal.atMost
  have bounded := Pager.Allots.length_le (by rw [Pager.overflowPageCapacity]; omega) allots
  have pages : 2 ^ 32 * Pager.overflowPageCapacity size ≤ 2 ^ 32 * 65536 :=
    Nat.mul_le_mul_left _ (by rw [Pager.overflowPageCapacity]; omega)
  have limit : indexMaxLocal size ≤ size / 3 := by
    rw [indexMaxLocal]
    omega
  have total : (UInt64.ofNat key.length).toNat = key.length :=
    UInt64.toNat_ofNat_of_lt' (show key.length < 2 ^ 64 by omega)
  simp only [makeIndexCell, if_pos long, Succeeds.bind_iff, Succeeds.pure_iff]
  apply (Succeeds.adaptExcept
    (Pager.buildOverflowChain_assembled legal fresh key (by omega) allots)).mono
  rintro first after ⟨named, assembled⟩
  have page : (UInt32.ofNat first).toNat = first := UInt32.toNat_ofNat_of_lt' named
  refine ⟨fun id => ?_, ?_⟩
  · have space := emptyLeafSpace_le size id
    have share : (key.take (indexLocalLenV6 key.length size)).length =
        indexLocalLenV6 key.length size := List.length_take_of_le (by omega)
    have id := lenOf_le rowid.toUInt64
    have count := lenOf_le (indexTotalRaw (UInt64.ofNat key.length) true)
    simp only [Cell.encodedSize, encodeSigned, encode_length, share]
    omega
  · rw [Cell.assemble, total, page]
    exact assembled

end Split

/-- The promise for a payload beyond the limit of a page: the cell keeps its assertion and is
stored, or the payload is refused for its length. -/
def SplitSound (pager : Pager size) (fresh : Bytes size) (rowid : Int64) (payload : List UInt8) :
    Prop :=
  if payload.length ≤ maxPayload then
    Succeeds (makeLeafCell fresh rowid payload) pager (Stored payload)
  else
    makeLeafCell fresh rowid payload pager = .error (.raised (.invalidArgument
      s!"string or blob too big ({payload.length} bytes; max is {maxPayload})")) pager

/-- The split of a payload is sound unless its surplus is one of the last four lengths below
the limit of the page; that of an index key always is. -/
theorem overflow_split {pager : Pager size} (legal : LegalPageSize size) (fresh : Bytes size)
    (rowid : Int64) {payload key : List UInt8} (long : size - 128 < payload.length)
    (longKey : indexMaxLocal size < key.length)
    (allots : pager.Allots fresh
      (Pager.chainPages size (payload.length - overflowLocalLenFor payload.length size)))
    (allotsKey : pager.Allots fresh
      (Pager.chainPages size (key.length - indexLocalLenV6 key.length size))) :
    (SplitSound pager fresh rowid payload ↔
        maxPayload < payload.length ∨ ¬ (size - 131 ≤ tableSurplus payload.length size ∧
          tableSurplus payload.length size ≤ size - 128)) ∧
      Succeeds (makeIndexCell fresh rowid key) pager (Stored key) := by
  refine ⟨?_, makeIndexCell_stored legal fresh rowid longKey allotsKey⟩
  rw [SplitSound, ← overflowLocalLenFor_room legal.atLeast long]
  split
  · next capped =>
    have within : ¬ maxPayload < payload.length := Nat.not_lt.mpr capped
    constructor
    · intro stored
      refine Or.inr ?_
      by_contra tight
      rw [makeLeafCell_long fresh rowid long capped, if_neg tight, Succeeds.throw_iff] at stored
      exact stored
    · intro room
      exact makeLeafCell_stored legal fresh rowid long capped (room.resolve_left within) allots
  · next large =>
    have spills : ¬ payload.length ≤ maxCellPayload size := Nat.not_le.mpr long
    refine iff_of_true ?_ (Or.inl (Nat.not_le.mp large))
    rw [makeLeafCell, if_neg spills, if_pos (Nat.not_le.mp large)]
    rfl

/-- 400 bytes on a page of 512 keep 128 of them, and a key of 200 bytes keeps 39. -/
theorem overflow_split_fresh :
    (SplitSound (Pager.initializeNewDb 512 crc32 []) (Bytes.zero 512) 1 (List.replicate 400 7) ↔
        maxPayload < (List.replicate 400 (7 : UInt8)).length ∨
          ¬ (512 - 131 ≤ tableSurplus (List.replicate 400 (7 : UInt8)).length 512 ∧
            tableSurplus (List.replicate 400 (7 : UInt8)).length 512 ≤ 512 - 128)) ∧
      Succeeds (makeIndexCell (Bytes.zero 512) 1 (List.replicate 200 7))
        (Pager.initializeNewDb 512 crc32 []) (Stored (List.replicate 200 7)) := by
  have tracks := Pager.create_tracks 512 crc32 []
  have allots (wanted : Nat) (few : wanted < 2 ^ 16) :
      (Pager.initializeNewDb 512 crc32 []).Allots (Bytes.zero 512) wanted :=
    tracks.inv.allots Pager.legalPageSize_512 tracks.header _
      (show 1 + wanted < 2 ^ 32 by omega)
  exact overflow_split Pager.legalPageSize_512 (Bytes.zero 512) 1
    (by rw [List.length_replicate]; decide) (by rw [List.length_replicate]; decide)
    (allots _ (by rw [List.length_replicate]; decide))
    (allots _ (by rw [List.length_replicate]; decide))

/-- On a page of 4096, a payload of 8045 bytes would keep 3965 of them local. -/
theorem overflow_split_tight :
    LegalPageSize 4096 ∧ 4096 - 128 < (List.replicate 8045 (7 : UInt8)).length ∧
      (List.replicate 8045 (7 : UInt8)).length ≤ maxPayload ∧
      makeLeafCell (Bytes.zero 4096) 1 (List.replicate 8045 7)
          (Pager.initializeNewDb 4096 crc32 []) =
        .error .panicked (Pager.initializeNewDb 4096 crc32 []) ∧
      ¬ SplitSound (Pager.initializeNewDb 4096 crc32 []) (Bytes.zero 4096) 1
        (List.replicate 8045 7) := by
  have long : 4096 - 128 < (List.replicate 8045 (7 : UInt8)).length := by
    rw [List.length_replicate]
    decide
  have capped : (List.replicate 8045 (7 : UInt8)).length ≤ maxPayload := by
    rw [List.length_replicate, maxPayload]
    omega
  have tight : ¬ overflowLocalLenFor (List.replicate 8045 (7 : UInt8)).length 4096 + 4 ≤
      4096 - 128 := by
    rw [List.length_replicate]
    decide
  have stopped : makeLeafCell (Bytes.zero 4096) 1 (List.replicate 8045 7)
      (Pager.initializeNewDb 4096 crc32 []) =
        .error .panicked (Pager.initializeNewDb 4096 crc32 []) := by
    rw [makeLeafCell_long (Bytes.zero 4096) 1 long capped, if_neg tight]
    rfl
  refine ⟨⟨⟨12, rfl⟩, by decide, by decide⟩, long, capped, stopped, ?_⟩
  rw [SplitSound, if_pos capped, Succeeds, stopped]
  rintro ⟨cell, after, returned, -⟩
  cases returned

end RustSql.Storage
