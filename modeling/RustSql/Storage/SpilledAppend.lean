import RustSql.Storage.OverflowSplit
import RustSql.Storage.SavepointInvariant
import RustSql.Storage.SpillShape

/-! A row appended from its tail: the prefix and the front of the last body go to the cell, the
rest of the body to the chain, without the payload ever being built. -/

namespace RustSql.Storage

open RustSql.Foundation Varint RowCodec

namespace Pager

/-- The loop of `free_overflow_chain`, with the steps that are left. -/
def freeChainLoop (first : Nat) : Nat → Nat → PagerM size Unit
  | steps, cur => do
    if cur = 0 then return
    else
      match steps with
      | 0 => throw (.corruption s!"overflow chain cycle starting at page {first}")
      | steps + 1 => do
        let page ← getPage [] cur
        match OverflowPage.pageType page.data with
        | .error error => throw error
        | .ok .overflow => do
          freePage cur
          freeChainLoop first steps (OverflowPage.next page.data)
        | .ok _ => throw (.corruption s!"overflow chain hit non-overflow page {cur}")

def freeOverflowChain (first : Nat) : PagerM size Unit := do
  let pager ← get
  freeChainLoop first (pager.nPages + 4) first

end Pager

namespace LeafPage

open FileHeader

/-- The cell goes in front of the others piece by piece, its pointer behind theirs. -/
def writeSpilled (id : Nat) (rowid : Int64) (total : UInt64) (start share : List UInt8)
    (chain : UInt32) (off : Nat) (data : Bytes size) : Bytes size :=
  let n := nCells id data
  let o := off
  let data := writeSlice data o (encodeSigned rowid)
  let o := o + (encodeSigned rowid).length
  let data := writeSlice data o (encode total)
  let o := o + (encode total).length
  let data := writeSlice data o start
  let o := o + start.length
  let data := writeSlice data o share
  let o := o + share.length
  let data := writeSlice data o (pageBytes chain)
  let data := setCellContentStart id off data
  let data := setCellPointer id n off data
  setNCells id (n + 1) data

end LeafPage

/-- What becomes of the cell: the descent gets it, it is in the leaf, or the leaf was no longer
the one that had been looked at. -/
inductive SpillOutcome where
  | placed (cell : Cell)
  | written (leaf : Nat)
  | declined
deriving DecidableEq, Repr

/-- The write under the lock of the leaf. -/
def spillIntoLeaf (rowid : Int64) (start share : List UInt8) (total chain leaf : Nat)
    (pinned : Bool) : PagerM size SpillOutcome := do
  let cellSize := lenOf rowid.toUInt64 + lenOf (UInt64.ofNat total) + (start ++ share).length + 4
  let page ← Pager.getPage [] leaf
  match LeafPage.pageType leaf page.data with
  | .error error => throw error
  | .ok kind =>
    let off := LeafPage.cellContentStart leaf page.data - cellSize
    if kind = .leafTable ∧ pinned = true ∧ cellSize + 2 ≤ LeafPage.freeSpace leaf page.data ∧
        off + cellSize ≤ size then do
      modify (Pager.updatePage leaf fun page =>
        { data := LeafPage.writeSpilled leaf rowid (UInt64.ofNat total) start share
            (UInt32.ofNat chain) off page.data, dirty := true })
      modify (Pager.noteDirty leaf)
      return .written leaf
    else do
      Pager.freeOverflowChain chain
      return .declined

/-- `insert_table_append_spilled_inner`. `target` is the leaf that `spill_target_leaf` accepted,
and `pinned` whether `still_pins` holds of it under the lock. -/
def insertTableAppendSpilledInner (fresh : Bytes size) (rowid : Int64) (start body : List UInt8)
    (target : Option Nat) (pinned : Bool) : BtreeM size SpillOutcome := do
  modify Pager.noteWrite
  let total := start.length + body.length
  if total ≤ maxCellPayload size then throw .panicked
  else
    let localLen := overflowLocalLenFor total size
    if localLen < start.length then throw .panicked
    else do
      let bodyLocal := localLen - start.length
      let chain ← EStateM.adaptExcept Stop.raised
        (Pager.buildOverflowChainRest fresh (body.drop bodyLocal))
      match target with
      | none =>
        return .placed (.tableLeafOverflow rowid (UInt64.ofNat total)
          (start ++ body.take bodyLocal) (UInt32.ofNat chain))
      | some leaf =>
        EStateM.adaptExcept Stop.raised
          (spillIntoLeaf rowid start (body.take bodyLocal) total chain leaf pinned)

/-- The cell that the outcome brings into the tree. -/
def SpillOutcome.cell (after : Pager size) : SpillOutcome → Option (Except Error Cell)
  | placed cell => some (.ok cell)
  | written leaf => (after.view leaf).map fun data =>
    let last := LeafPage.nCells leaf data - 1
    Cell.decode (data.toList.drop (LeafPage.cellPointer leaf last data)) .leafTable size
  | declined => none

/-- The call does not panic, and a cell it brings into the tree is read back as the payload. -/
def SpillSound (rowid : Int64) (payload : List UInt8) :
    EStateM.Result Stop (Pager size) SpillOutcome → Prop
  | .ok .declined _ => True
  | .ok outcome after => ∃ cell, outcome.cell after = some (.ok cell) ∧ cell.key = rowid ∧
      cell.assemble after = .ok payload
  | .error stop _ => stop ≠ .panicked

namespace LeafPage

open FileHeader

section Place

variable {id off : Nat} {bytes : List UInt8} {data : Bytes size}

/-- A cell in front of the content of the page, and its pointer behind the others. -/
def placeCell (id off : Nat) (bytes : List UInt8) (data : Bytes size) : Bytes size :=
  setNCells id (nCells id data + 1) (setCellPointer id (nCells id data) off
    (setCellContentStart id off (writeSlice data off bytes)))

theorem writeSpilled_eq (rowid : Int64) (total : UInt64) (start share : List UInt8)
    (chain : UInt32) :
    writeSpilled id rowid total start share chain off data =
      placeCell id off (Cell.tableLeafOverflow rowid total (start ++ share) chain).bytes data := by
  simp only [writeSpilled, Nat.add_assoc, ← List.length_append, writeSlice_append, placeCell,
    Cell.bytes, Cell.encode, List.nil_append, List.append_assoc]

variable (behind : pointerOffset id (nCells id data) + 2 ≤ off)
  (inside : off + bytes.length ≤ size)

include behind inside

theorem nCells_placeCell (most : size ≤ 65536) :
    nCells id (placeCell id off bytes data) = nCells id data + 1 := by
  rw [pointerOffset, pageHeaderSize] at behind
  have small : nCells id data + 1 < 2 ^ 16 := by omega
  have fits : headerOffset id + 4 + 2 ≤ size := by omega
  have read := @word16_writeSlice size (setCellPointer id (nCells id data) off
    (setCellContentStart id off (writeSlice data off bytes))) (headerOffset id + 4) _ small fits
  rw [placeCell, setNCells]
  exact read

theorem cellPointer_placeCell (some : 0 < bytes.length) (most : size ≤ 65536) :
    cellPointer id (nCells id data) (placeCell id off bytes data) = off := by
  rw [pointerOffset, pageHeaderSize] at behind
  have apart := @word16_writeSlice_disjoint size (setCellPointer id (nCells id data) off
    (setCellContentStart id off (writeSlice data off bytes))) (headerOffset id + 4)
    (toBeBytes16 (nCells id data + 1)) (by simp [toBeBytes16]; omega)
    (pointerOffset id (nCells id data)) (Or.inr (by
      rw [pointerOffset, pageHeaderSize]
      simp [toBeBytes16]
      omega))
  rw [cellPointer, placeCell, setNCells, apart, setCellPointer]
  apply word16_writeSlice
  · omega
  · rw [pointerOffset, pageHeaderSize]
    omega

theorem slice_placeCell : slice (placeCell id off bytes data) off bytes.length = bytes := by
  rw [pointerOffset, pageHeaderSize] at behind
  have pair (value : Nat) : (toBeBytes16 value).length = 2 := rfl
  rw [placeCell, setNCells,
    slice_writeSlice_disjoint (by rw [pair]; omega) (Or.inr (by rw [pair]; omega)),
    setCellPointer, slice_writeSlice_disjoint (by rw [pair, pointerOffset, pageHeaderSize]; omega)
      (Or.inr (by rw [pair, pointerOffset, pageHeaderSize]; omega)),
    setCellContentStart, slice_writeSlice_disjoint (by rw [pair]; omega)
      (Or.inr (by rw [pair]; omega)), slice_writeSlice inside]

/-- What a page has at the pointer of the cell placed last. -/
theorem drop_placeCell (some : 0 < bytes.length) (most : size ≤ 65536) :
    ∃ rest, (placeCell id off bytes data).toList.drop (cellPointer id
      (nCells id (placeCell id off bytes data) - 1) (placeCell id off bytes data)) =
        bytes ++ rest := by
  rw [nCells_placeCell behind inside most, Nat.add_sub_cancel,
    cellPointer_placeCell behind inside some most]
  refine ⟨((placeCell id off bytes data).toList.drop off).drop bytes.length, ?_⟩
  have read := slice_placeCell behind inside
  rw [slice] at read
  nth_rewrite 1 [← List.take_append_drop bytes.length
    ((placeCell id off bytes data).toList.drop off)]
  rw [read]

end Place

end LeafPage

namespace Pager

/-- A fetch that returns found the page. -/
theorem getPage_returned {pager : Pager size} (sound : pager.Sound) (pins : List Nat) (id : Nat) :
    Meets (getPage pins id) pager (fun page after => Fetched pins id page pager after)
      (fun _ => True) := by
  unfold Meets
  cases cached : pager.cache id with
  | some page =>
    rw [getPage_hit cached]
    exact (Installed.refl sound cached).capture
  | none =>
    by_cases inRange : id < pager.nPages ∨ id = 0
    · cases stored : pager.medium id with
      | some data =>
        obtain ⟨page, after, returned, -, fetched⟩ := getPage_fetched sound pins
          (Or.inr inRange) (show pager.view id = some data by simp [view, cached, stored])
        rw [returned]
        exact fetched
      | none =>
        have old : ¬ (id = 0 ∧ pager.isNew = true) := by
          intro new
          rw [medium, if_pos new] at stored
          cases stored
        obtain ⟨error, failed⟩ := readMiss_none sound old stored
        rw [getPage_failed cached inRange old failed]
        trivial
    · obtain ⟨error, failed⟩ := getPage_outside pins cached (by omega)
      rw [failed]
      trivial

theorem fillChain_sound (ids : List Nat) (prev : Option Nat) (rest : List UInt8)
    {pager : Pager size} (sound : pager.Sound) : (fillChain prev rest ids pager).Sound := by
  induction ids generalizing prev rest pager with
  | nil => exact sound
  | cons id more ih =>
    apply ih
    apply updatePage_sound
    cases prev with
    | none => exact sound
    | some prev => exact updatePage_sound sound prev _

end Pager

/-- The pages of a chain are overflow pages. -/
theorem Pager.Linked.apart {pager : Pager size} (ids : List Nat) {rest : List UInt8}
    (linked : pager.Linked ids rest) (nonzero : ∀ id ∈ ids, id ≠ 0) {leaf : Nat}
    {data : Bytes size} (seen : pager.view leaf = some data)
    (kind : LeafPage.pageType leaf data = .ok .leafTable) : leaf ∉ ids := by
  induction ids generalizing rest with
  | nil => simp
  | cons id more ih =>
    obtain ⟨⟨found, behind, held, shape⟩, later⟩ := linked
    have behindNot := ih later fun other member => nonzero other (List.mem_cons_of_mem _ member)
    have differ : leaf ≠ id := by
      rintro rfl
      have same := Option.some.inj (seen.symm.trans held.2)
      rw [LeafPage.pageType, headerOffset, if_neg (nonzero leaf (List.mem_cons_self ..)), same,
        shape] at kind
      cases kind
    simp [differ, behindNot]

/-- A page that is fetched and changed leaves a chain without it alone. -/
theorem Pager.Linked.written {pager middle : Pager size} {ids : List Nat} {rest : List UInt8}
    (linked : pager.Linked ids rest) {leaf : Nat} {page : Page size}
    (fetched : Pager.Fetched [] leaf page pager middle) (outside : leaf ∉ ids)
    (change : Page size → Page size) :
    ((middle.updatePage leaf change).noteDirty leaf).Linked ids rest := by
  apply linked.of_holds ids
  intro other member data held
  have differ : other ≠ leaf := fun same => outside (same ▸ member)
  have changed := (Pager.updatePage_elsewhere middle leaf change).holds differ
    (fetched.holds other data held)
  have noted := (Pager.noteDirty_same leaf (middle.updatePage leaf change)).carried
    (Pager.updatePage_sound fetched.sound leaf change)
  exact noted.holds other data (by simp) changed

section Path

variable {pager : Pager size} {rowid : Int64} {payload : List UInt8}

theorem SpillSound.adaptExcept {computation : PagerM size SpillOutcome}
    (run : Meets computation pager (fun outcome after =>
      SpillSound rowid payload (.ok outcome after)) (fun _ => True)) :
    SpillSound rowid payload (EStateM.adaptExcept Stop.raised computation pager) := by
  unfold Meets at run
  unfold EStateM.adaptExcept
  cases ran : computation pager with
  | ok outcome after =>
    rw [ran] at run
    exact run
  | error error after => exact nofun

variable {start body : List UInt8}

/-- Behind the checks and the chain, the cell goes to the descent or into the leaf. -/
theorem insertTableAppendSpilledInner_chain {fresh : Bytes size} {target : Option Nat}
    {pinned : Bool} {chain : Nat} {after : Pager size}
    (long : size - 128 < start.length + body.length)
    (room : start.length ≤ overflowLocalLenFor (start.length + body.length) size)
    (ran : Pager.buildOverflowChainRest fresh (body.drop
      (overflowLocalLenFor (start.length + body.length) size - start.length)) pager.noteWrite =
        .ok chain after) :
    insertTableAppendSpilledInner fresh rowid start body target pinned pager =
      match target with
      | none => .ok (.placed (.tableLeafOverflow rowid (UInt64.ofNat (start.length + body.length))
          (start ++ body.take (overflowLocalLenFor (start.length + body.length) size -
            start.length)) (UInt32.ofNat chain))) after
      | some leaf => EStateM.adaptExcept Stop.raised (spillIntoLeaf rowid start
          (body.take (overflowLocalLenFor (start.length + body.length) size - start.length))
          (start.length + body.length) chain leaf pinned) after := by
  have spills : ¬ start.length + body.length ≤ maxCellPayload size := Nat.not_le.mpr long
  simp only [insertTableAppendSpilledInner, if_neg spills, if_neg (Nat.not_lt.mpr room), bind,
    EStateM.bind, modify, modifyGet, MonadStateOf.modifyGet, ran_modifyGet,
    EStateM.adaptExcept, ran]
  cases target <;> rfl

/-- Without room for the prefix the share of the body would be negative. -/
theorem insertTableAppendSpilledInner_short {fresh : Bytes size} {target : Option Nat}
    {pinned : Bool} (long : size - 128 < start.length + body.length)
    (short : overflowLocalLenFor (start.length + body.length) size < start.length) :
    insertTableAppendSpilledInner fresh rowid start body target pinned pager =
      .error .panicked pager.noteWrite := by
  have spills : ¬ start.length + body.length ≤ maxCellPayload size := Nat.not_le.mpr long
  simp only [insertTableAppendSpilledInner, if_neg spills, if_pos short, bind, EStateM.bind,
    modify, modifyGet, MonadStateOf.modifyGet, ran_modifyGet]
  rfl

/-- The cell in the leaf is read back, and behind it the chain. -/
theorem spillIntoLeaf_sound (legal : LegalPageSize size) (sound : pager.Sound)
    {start share rest : List UInt8} {total id leaf : Nat} {more : List Nat} {pinned : Bool}
    (small : total < 2 ^ 64) (parts : total = (start ++ share).length + rest.length)
    (rule : (start ++ share).length = overflowLocalLenFor total size) (spills : 0 < rest.length)
    (linked : pager.Linked (id :: more) rest) (distinct : (id :: more).Nodup)
    (count : (id :: more).length = Pager.chainPages size rest.length)
    (named : ∀ other ∈ id :: more, other ≠ 0 ∧ other < pager.nPages ∧ other < 2 ^ 32) :
    Meets (spillIntoLeaf rowid start share total id leaf pinned) pager
      (fun outcome after => SpillSound rowid (start ++ share ++ rest) (.ok outcome after))
      (fun _ => True) := by
  have whole : (UInt64.ofNat total).toNat = total := UInt64.toNat_ofNat_of_lt' small
  have first : (UInt32.ofNat id).toNat = id :=
    UInt32.toNat_ofNat_of_lt' (named id (List.mem_cons_self ..)).2.2
  have room : 0 < Pager.overflowPageCapacity size := by
    have large := legal.atLeast
    rw [Pager.overflowPageCapacity]
    omega
  obtain ⟨cell, made⟩ : ∃ cell, cell =
    Cell.tableLeafOverflow rowid (UInt64.ofNat total) (start ++ share) (UInt32.ofNat id) := ⟨_, rfl⟩
  have well : cell.WellFormed size := by
    rw [made]
    exact ⟨by rw [whole, rule], by rw [whole]; omega⟩
  have length : cell.bytes.length =
      lenOf rowid.toUInt64 + lenOf (UInt64.ofNat total) + (start ++ share).length + 4 := by
    rw [cell.bytes_length, made]
    simp only [Cell.encodedSize, encodeSigned, encode_length]
  unfold spillIntoLeaf
  simp only [Meets.bind_iff]
  apply (Pager.getPage_returned sound [] leaf).mono _ fun _ raised => raised
  intro page middle fetched
  cases kind : LeafPage.pageType leaf page.data with
  | error error => trivial
  | ok found =>
    simp only [Meets.ite_iff, Meets.bind_iff, Meets.modify_iff, Meets.pure_iff, ← length]
    refine ⟨?_, fun _ => ?_⟩
    · rintro ⟨rfl, -, space, inside⟩
      rw [LeafPage.freeSpace] at space
      obtain ⟨behind, shape⟩ := @LeafPage.drop_placeCell size leaf
        (LeafPage.cellContentStart leaf page.data - cell.bytes.length) cell.bytes page.data
        (by omega) inside (by omega) legal.atMost
      have outside := linked.apart _ (fun other member => (named other member).1) fetched.seen kind
      refine ⟨cell, ?_, by rw [made]; rfl, ?_⟩
      · simp only [SpillOutcome.cell, Pager.view, Pager.noteDirty, Pager.updatePage,
          Function.update_self, fetched.cached, Option.map_some, LeafPage.writeSpilled_eq, ← made,
          shape]
        have read := Cell.decode_bytes legal well behind
        rw [made] at read ⊢
        exact congrArg some read
      · rw [made, Cell.assemble, whole, first, parts]
        have kept := linked.written fetched outside
        refine Pager.assembleOverflowPayload_linked room (start ++ share) rest (kept _)
          distinct count fun other member => ?_
        have inRange := named other member
        have same := fetched.undisturbed.nPages
        exact ⟨inRange.1, same ▸ inRange.2.1, inRange.2.2⟩
    · unfold Meets
      split <;> trivial

/-- Where the share has room for the prefix, the call stores the payload. -/
theorem insertTableAppendSpilledInner_sound {trunks : List (Trunk Nat)} (legal : LegalPageSize size)
    (inv : pager.FreelistInv trunks) (header : 1 ≤ pager.nPages) (fresh : Bytes size)
    (target : Option Nat) (pinned : Bool) (long : size - 128 < (start ++ body).length)
    (room : start.length ≤ overflowLocalLenFor (start ++ body).length size)
    (small : pager.nPages + Pager.chainPages size (start ++ body).length < 2 ^ 32) :
    SpillSound rowid (start ++ body)
      (insertTableAppendSpilledInner fresh rowid start body target pinned pager) := by
  have large := legal.atLeast
  have most := legal.atMost
  have inside := (overflowLocalLenFor_bounds large long).2
  have capacity : 0 < Pager.overflowPageCapacity size := by
    rw [Pager.overflowPageCapacity]
    omega
  have total : (start ++ body).length = start.length + body.length := List.length_append
  rw [total] at long room inside small
  obtain ⟨bodyLocal, split⟩ : ∃ bodyLocal, bodyLocal =
      overflowLocalLenFor (start.length + body.length) size - start.length := ⟨_, rfl⟩
  have share : (start ++ body.take bodyLocal).length =
      overflowLocalLenFor (start.length + body.length) size := by
    rw [List.length_append, List.length_take_of_le (by omega)]
    omega
  have rest : (body.drop bodyLocal).length = body.length - bodyLocal := List.length_drop
  have fewer : Pager.chainPages size (body.drop bodyLocal).length ≤
      Pager.chainPages size (start.length + body.length) :=
    Nat.div_le_div_right (by omega)
  have bounded : start.length + body.length < 2 ^ 64 := by
    have pages := Nat.div_add_mod (start.length + body.length +
      (Pager.overflowPageCapacity size - 1)) (Pager.overflowPageCapacity size)
    have least := Nat.mod_lt (start.length + body.length + (Pager.overflowPageCapacity size - 1))
      capacity
    rw [← Pager.chainPages] at pages
    have product : Pager.overflowPageCapacity size *
        Pager.chainPages size (start.length + body.length) ≤ 65536 * 2 ^ 32 :=
      Nat.mul_le_mul (by rw [Pager.overflowPageCapacity]; omega) (by omega)
    omega
  have noted : pager.noteWrite.FreelistInv trunks := inv.of_same (Pager.noteWrite_same pager)
    ⟨rfl, rfl, rfl, rfl, rfl, rfl, rfl, rfl, rfl⟩
  have growth : pager.noteWrite.nPages + Pager.chainPages size (body.drop bodyLocal).length <
      2 ^ 32 := by
    show pager.nPages + _ < 2 ^ 32
    omega
  obtain ⟨ids, middle, returned, count, distinct, named⟩ := noted.allots legal header fresh growth
  obtain ⟨_, _, _, _, _, kept, -, -⟩ := Meets.returned (Meets.of_succeeds
    (Pager.allocatePagesOpts_inv legal _ fresh noted growth) : Meets _ _ _ fun _ => True) returned
  obtain ⟨chain, after, ran, rfl, rfl, pages, linked⟩ := Pager.buildOverflowChainRest_linked legal
    fresh (body.drop bodyLocal) returned distinct fun id member => (named id member).1
  have sound := Pager.fillChain_sound ids none (body.drop bodyLocal) kept.sound
  have parts : start.length + body.length =
      (start ++ body.take bodyLocal).length + (body.drop bodyLocal).length := by omega
  have payload : start ++ body.take bodyLocal ++ body.drop bodyLocal = start ++ body := by
    rw [List.append_assoc, List.take_append_drop]
  rw [split] at ran
  rw [insertTableAppendSpilledInner_chain long room ran, ← split]
  cases ids with
  | nil =>
    have pages : 1 ≤ Pager.chainPages size (body.drop bodyLocal).length :=
      (Nat.le_div_iff_mul_le capacity).mpr (by omega)
    rw [← count] at pages
    cases pages
  | cons id more =>
    cases target with
    | none =>
      have first : (UInt32.ofNat id).toNat = id :=
        UInt32.toNat_ofNat_of_lt' (named id (List.mem_cons_self ..)).2.2
      have assembled := Pager.assembleOverflowPayload_linked capacity
        (start ++ body.take bodyLocal) (body.drop bodyLocal) linked distinct count
        (pages ▸ named)
      refine ⟨_, rfl, rfl, ?_⟩
      rw [Cell.assemble, UInt64.toNat_ofNat_of_lt' bounded, List.headD_cons, first, parts, ← payload]
      exact assembled
    | some leaf =>
      apply SpillSound.adaptExcept
      rw [← payload]
      exact spillIntoLeaf_sound legal sound bounded parts share (by omega) linked distinct count
        (pages ▸ named)

end Path

namespace RowCodec

theorem encodedSize_pos (value : Types.Value) : 0 < value.encodedSize := by
  cases value <;> simp only [Types.Value.encodedSize] <;> (repeat' split) <;> omega

variable {rowidAlias : Option Nat}

theorem zeroVarints_front_le (col : Nat) (front : List Types.Cell) (last : Types.Cell) :
    Types.zeroVarints rowidAlias col (front ++ [last]) ≤
      Types.encodedSizes rowidAlias col front + 1 := by
  induction front generalizing col with
  | nil =>
    simp only [List.nil_append, Types.zeroVarints, Types.encodedSizes]
    split <;> omega
  | cons cell front ih =>
    have behind := ih (col + 1)
    have positive := encodedSize_pos cell.1
    simp only [List.cons_append, Types.zeroVarints, Types.encodedSizes]
    split <;> split <;> omega

theorem header_length_pos {value : Types.Value} {bytes : List UInt8}
    (has : body value = some bytes) : bytes.length < value.encodedSize := by
  cases value <;> cases has <;> simp only [Types.Value.encodedSize] <;> omega

/-- A prefix is at most twice as long as announced. -/
theorem Spilled.prefix_le {maxCell : Nat} (spilled : Spilled rowidAlias maxCell) :
    (encodeSpillPrefix rowidAlias spilled.front.length 0 spilled.row).length ≤
      2 * (spilled.total - spilled.bytes.length) := by
  have lengths := congrArg List.length spilled.concatenation
  rw [List.length_append, Types.encodeCells_length] at lengths
  have zeros := @zeroVarints_front_le rowidAlias 0 spilled.front spilled.last
  have larger := header_length_pos spilled.has
  have total : spilled.total = Types.encodedSizes rowidAlias 0 spilled.front +
      spilled.last.1.encodedSize := by
    rw [Spilled.total, Spilled.row, encodedSizes_append, Nat.zero_add, Types.encodedSizes,
      if_neg spilled.unmarked, Types.encodedSizes, Nat.add_zero]
  rw [← Spilled.row] at zeros
  rw [← Spilled.total] at lengths
  omega

theorem spillTailShape_le {row : List Types.Cell} {maxCell tail prefixLen total : Nat}
    (shape : spillTailShape row rowidAlias maxCell = some (tail, prefixLen, total)) :
    prefixLen ≤ spillMaxPrefix := by
  obtain ⟨last, -, shape⟩ := Option.bind_eq_some_iff.mp shape
  simp only at shape
  split at shape
  · cases shape
  · obtain ⟨bytes, -, shape⟩ := Option.bind_eq_some_iff.mp shape
    split at shape
    · cases shape
    · split at shape
      · cases shape
      next short =>
        cases shape
        exact Nat.le_of_not_lt short

end RowCodec

/-- The prefix is within a quarter of the page, or within the surplus of the payload where that
keeps to the limit of the page. -/
def PrefixFits (size start total : Nat) : Prop :=
  start ≤ size / 4 ∨ (start ≤ tableSurplus total size ∧ tableSurplus total size ≤ size - 128)

theorem prefixFits_iff {start total : Nat} (least : 512 ≤ size) (long : size - 128 < total) :
    PrefixFits size start total ↔ start ≤ overflowLocalLenFor total size := by
  rw [PrefixFits, overflowLocalLenFor_long least long, tableSurplus]
  split <;> omega

def sevens (n : Nat) (fits : n < 2 ^ 64) : Types.Cell :=
  Types.Cell.blob (List.replicate n 7) (by rwa [List.length_replicate])

/-- 400 bytes behind an integer, on a page of 512. -/
def spilledRow : List Types.Cell := [Types.Cell.integer 7, sevens 400 (by omega)]

/-- A prefix of 136 bytes, of which the cell may keep 128. -/
def crowdedRow : List Types.Cell :=
  [sevens 130 (by omega), sevens 488 (by omega)]

end RustSql.Storage
