import Mathlib.Data.List.OfFn
import RustSql.Storage.EncodedRows

/-! Every decoder of chosen columns returns the columns of the stored row. -/

namespace RustSql.Storage.RowCodec

open RustSql.Foundation RustSql.Types

/-- The value of a column, `NULL` where the row is short. -/
def columnValue (row : List Types.Cell) (i : Nat) : Value := ((row[i]?).map Subtype.val).getD .null

/-- The row a payload stands for, filled up to the declared columns. -/
def fullRow (row : List Types.Cell) (nCols : Nat) : List Value :=
  row.map Subtype.val ++ List.replicate (nCols - row.length) .null

/-- The value of a wanted column, or the rowid. -/
def project (row : List Types.Cell) (rowid : Int64) (i : Nat) : Value :=
  if i = rowidProj then .integer rowid else columnValue row i

theorem columnValue_eq (row : List Types.Cell) (nCols i : Nat) :
    columnValue row i = ((fullRow row nCols)[i]?).getD .null := by
  unfold columnValue fullRow
  by_cases stored : i < row.length
  · rw [List.getElem?_append_left (by simpa using stored), List.getElem?_map]
  · rw [List.getElem?_eq_none (Nat.le_of_not_lt stored), List.getElem?_append_right (by simpa using stored),
      List.getElem?_replicate]
    split <;> rfl

/-- The rowid alias holds the rowid. -/
def Aliased (rowid : Int64) (rowidAlias : Option Nat) (col : Nat) (cells : List Types.Cell) : Prop :=
  ∀ i cell, cells[i]? = some cell → rowidAlias = some (col + i) → cell = Cell.integer rowid

section Walks

variable {trusted : Bool} {buf : List UInt8} {rowid : Int64} {rowidAlias : Option Nat}
  {col pos left : Nat} {cell : Types.Cell} {cells : List Types.Cell}

theorem Aliased.head (aliased : Aliased rowid rowidAlias col (cell :: cells))
    (marked : rowidAlias = some col) : cell = Cell.integer rowid := aliased 0 cell rfl marked

theorem Aliased.tail (aliased : Aliased rowid rowidAlias col (cell :: cells)) :
    Aliased rowid rowidAlias (col + 1) cells := fun i other found marked =>
  aliased (i + 1) other found (by rwa [Nat.add_right_comm, Nat.add_assoc] at marked)

/-- What the bytes hold: the alias is only marked. -/
def storedValues (rowidAlias : Option Nat) : Nat → List Types.Cell → List Value
  | _, [] => []
  | col, cell :: rest =>
    (if rowidAlias = some col then .null else cell.1) :: storedValues rowidAlias (col + 1) rest

theorem At.decode_marked (here : At buf rowidAlias col pos (cell :: cells))
    (bounded : buf.length < 2 ^ 63) (marked : rowidAlias = some col) :
    decodeAt trusted buf pos = .ok (.null, pos + 1) := by
  refine decodeAt_ok bounded here.inside ?_
  rw [here.cons_suffix, cellBytes, if_pos marked]
  rfl

theorem decodeValues_at (bounded : buf.length < 2 ^ 63)
    (here : At buf rowidAlias col pos cells) (enough : cells.length ≤ left) :
    decodeValues trusted buf left pos = .ok (storedValues rowidAlias col cells) := by
  induction cells generalizing col pos left with
  | nil =>
    cases left with
    | zero => rfl
    | succ left =>
      rw [decodeValues, if_neg here.done.not_lt]
      rfl
  | cons cell cells ih =>
    obtain ⟨left, rfl⟩ : ∃ more, left = more + 1 := ⟨left - 1, by rw [List.length_cons] at enough; omega⟩
    have short : cells.length ≤ left := Nat.le_of_succ_le_succ enough
    rw [decodeValues, if_pos here.before, storedValues]
    by_cases marked : rowidAlias = some col
    · rw [here.decode_marked bounded marked, Checked.ok_bind, if_pos marked]
      simp only
      rw [ih (here.next_marked marked) short]
      rfl
    · rw [here.decode bounded marked, Checked.ok_bind, if_neg marked]
      simp only
      rw [ih (here.next_stored marked) short]
      rfl

theorem storedValues_length : (storedValues rowidAlias col cells).length = cells.length := by
  induction cells generalizing col with
  | nil => rfl
  | cons cell cells ih => rw [storedValues, List.length_cons, List.length_cons, ih]

theorem storedValues_getElem? (i : Nat) : (storedValues rowidAlias col cells)[i]? =
    (cells[i]?).map fun cell => if rowidAlias = some (col + i) then .null else cell.1 := by
  induction cells generalizing col i with
  | nil => rfl
  | cons cell cells ih =>
    cases i with
    | zero => rfl
    | succ i =>
      rw [storedValues, List.getElem?_cons_succ, List.getElem?_cons_succ, ih, Nat.add_right_comm,
        Nat.add_assoc]

theorem materializeAlias_stored {nCols : Nat} (aliased : Aliased rowid rowidAlias 0 cells)
    (inside : ∀ a ∈ rowidAlias, a < cells.length) :
    materializeAlias (storedValues rowidAlias 0 cells ++
      List.replicate (nCols - cells.length) .null) rowidAlias rowid = fullRow cells nCols := by
  cases rowidAlias with
  | none =>
    have same : storedValues none 0 cells = cells.map Subtype.val := by
      apply List.ext_getElem?
      intro i
      rw [storedValues_getElem?, List.getElem?_map]
      rfl
    rw [materializeAlias, same]
    rfl
  | some a =>
    have within := inside a rfl
    have same : (storedValues (some a) 0 cells).set a (.integer rowid) =
        cells.map Subtype.val := by
      apply List.ext_getElem?
      intro i
      rw [List.getElem?_set, storedValues_getElem?, List.getElem?_map, storedValues_length]
      split
      next here =>
        subst here
        obtain ⟨cell, found⟩ : ∃ cell, cells[a]? = some cell :=
          ⟨_, List.getElem?_eq_getElem within⟩
        rw [found, aliased a cell found (by rw [Nat.zero_add])]
        rfl
      next other =>
        have unmarked : ¬ (some a = some (0 + i)) := by
          rw [Nat.zero_add]
          exact fun same => other (Option.some.inj same)
        simp only [if_neg unmarked]
    rw [materializeAlias, List.set_append_left _ _ (by rwa [storedValues_length]), same]
    rfl

theorem At.marker_ok (here : At buf rowidAlias col pos (cell :: cells))
    (marked : rowidAlias = some col) : markerAt buf pos = .ok () :=
  markerAt_eq_ok.mpr (here.marker marked)

variable {row : List Types.Cell}

theorem columnValue_drop (suffix : row.drop col = cell :: cells) :
    columnValue row col = cell.1 ∧ row.drop (col + 1) = cells := by
  have first : row[col]? = some cell := by
    rw [← List.head?_drop, suffix]
    rfl
  refine ⟨by rw [columnValue, first]; rfl, ?_⟩
  rw [← List.drop_drop, suffix]
  rfl

theorem columnValue_past (suffix : row.drop col = []) {i : Nat} (past : col ≤ i) :
    columnValue row i = .null := by
  have length := List.drop_eq_nil_iff.mp suffix
  rw [columnValue, List.getElem?_eq_none (length.trans past)]
  rfl

section Slots

variable {n : Nat} {pending run : List (Wanted n)} {out final : Fin n → Value} {v : Value}

theorem assign_eq (slot : Fin n) :
    assign out run v slot = if ∃ want ∈ run, want.2 = slot then v else out slot := by
  induction run generalizing out with
  | nil => simp [assign]
  | cons want run ih =>
    have step : assign out (want :: run) v slot =
      assign (Function.update out want.2 v) run v slot := rfl
    rw [step, ih]
    by_cases later : ∃ other ∈ run, other.2 = slot
    · obtain ⟨other, member, same⟩ := later
      rw [if_pos ⟨other, member, same⟩, if_pos ⟨other, List.mem_cons_of_mem _ member, same⟩]
    · rw [if_neg later]
      by_cases here : want.2 = slot
      · rw [if_pos ⟨want, List.mem_cons_self, here⟩, ← here, Function.update_self]
      · rw [Function.update_of_ne (Ne.symm here), if_neg]
        rintro ⟨other, member, same⟩
        rcases List.mem_cons.mp member with rfl | member
        · exact here same
        · exact later ⟨other, member, same⟩

/-- Every pending slot has its value, and no other has changed. -/
structure Filled (value : Nat → Value) (pending : List (Wanted n)) (out final : Fin n → Value) :
    Prop where
  wanted : ∀ want ∈ pending, want.1 ≠ rowidProj → final want.2 = value want.1
  others : ∀ slot, (∀ want ∈ pending, want.2 = slot → want.1 = rowidProj) →
    final slot = out slot

theorem Filled.nulls {value : Nat → Value} (null : ∀ want ∈ pending, value want.1 = .null) :
    Filled value pending out (fillShort pending out) where
  wanted want member column := by
    rw [fillShort, assign_eq, if_pos ⟨want, List.mem_filter.mpr ⟨member, bne_iff_ne.mpr column⟩,
      rfl⟩, null want member]
  others slot free := by
    rw [fillShort, assign_eq, if_neg]
    rintro ⟨want, member, same⟩
    obtain ⟨there, column⟩ := List.mem_filter.mp member
    exact bne_iff_ne.mp column (free want there same)

/-- The run of a column is filled in front of the columns after it. -/
theorem Filled.after_run {value : Nat → Value} {column : Fin n → Nat}
    (columns : ∀ want ∈ pending, want.1 = column want.2) (real : col ≠ rowidProj)
    (filled : Filled value (pending.filter fun want => want.1 != col)
      (assign out (pending.filter fun want => want.1 == col) (value col)) final) :
    Filled value pending out final where
  wanted want member kept := by
    by_cases here : want.1 = col
    · rw [filled.others want.2, assign_eq, here]
      · exact if_pos ⟨want, List.mem_filter.mpr ⟨member, beq_iff_eq.mpr here⟩, rfl⟩
      · intro other others same
        obtain ⟨there, differs⟩ := List.mem_filter.mp others
        have agree := columns other there
        rw [same, ← columns want member, here] at agree
        exact absurd agree (bne_iff_ne.mp differs)
    · exact filled.wanted want (List.mem_filter.mpr ⟨member, bne_iff_ne.mpr here⟩) kept
  others slot free := by
    rw [filled.others slot fun want member same =>
      free want (List.mem_filter.mp member).1 same, assign_eq, if_neg]
    rintro ⟨want, member, same⟩
    obtain ⟨there, here⟩ := List.mem_filter.mp member
    exact real ((beq_iff_eq.mp here).symm.trans (free want there same))

theorem selectiveColumns_filled {row : List Types.Cell} {column : Fin n → Nat}
    (bounded : buf.length < 2 ^ 63) (here : At buf rowidAlias col pos cells)
    (aliased : Aliased rowid rowidAlias col cells) (suffix : row.drop col = cells)
    (enough : cells.length ≤ left) (slow : col ≤ pos) (sorted : Sorted pending)
    (least : ∀ want ∈ pending, col ≤ want.1)
    (columns : ∀ want ∈ pending, want.1 = column want.2) :
    ∃ rest last, selectiveColumns trusted buf rowid rowidAlias left col pos pending out =
        .ok (rest, last) ∧
      Filled (columnValue row) pending out (fillShort rest last) := by
  induction cells generalizing left col pos pending out with
  | nil =>
    have null : ∀ want ∈ pending, columnValue row want.1 = .null := fun want member =>
      columnValue_past suffix (least want member)
    refine ⟨pending, out, ?_, Filled.nulls null⟩
    cases left with
    | zero => rfl
    | succ left => rw [selectiveColumns, if_neg here.done.not_lt]
  | cons cell cells ih =>
    obtain ⟨left, rfl⟩ : ∃ more, left = more + 1 :=
      ⟨left - 1, by rw [List.length_cons] at enough; omega⟩
    have short : cells.length ≤ left := Nat.le_of_succ_le_succ enough
    obtain ⟨value, later⟩ := columnValue_drop suffix
    have before := here.before
    have all : (pending.filter fun want => decide (col ≤ want.1)) = pending :=
      List.filter_eq_self.mpr fun want member => decide_eq_true (least want member)
    rw [selectiveColumns, if_pos before, sorted.from_column, all]
    cases pending with
    | nil => exact ⟨[], out, rfl, ⟨by simp, fun _ _ => rfl⟩⟩
    | cons want pending =>
      simp only
      by_cases same : col = want.1
      · have after : ∀ other ∈ (want :: pending).filter fun want => want.1 != col,
            col + 1 ≤ other.1 := fun other member => by
          obtain ⟨there, differs⟩ := List.mem_filter.mp member
          have := least other there
          have := bne_iff_ne.mp differs
          omega
        have real : col ≠ rowidProj := by
          unfold rowidProj
          omega
        rw [if_pos same, sorted.run least, sorted.after_run least]
        by_cases marked : rowidAlias = some col
        · obtain ⟨rest, last, walked, filled⟩ := ih (here.next_marked marked) aliased.tail later
            short (Nat.succ_le_succ slow) (sorted.sublist List.filter_sublist) after
            fun want member => columns want (List.mem_filter.mp member).1
          rw [if_pos marked, here.marker_ok marked, Checked.ok_bind, walked]
          refine ⟨rest, last, rfl, Filled.after_run columns real ?_⟩
          rw [value, aliased.head marked]
          exact filled
        · have positive := List.length_pos_of_ne_nil cell.encode_ne_nil
          obtain ⟨rest, last, walked, filled⟩ := ih (here.next_stored marked) aliased.tail later
            short (by omega) (sorted.sublist List.filter_sublist) after
            fun want member => columns want (List.mem_filter.mp member).1
          rw [if_neg marked, here.decode bounded marked, Checked.ok_bind]
          simp only
          rw [walked]
          refine ⟨rest, last, rfl, Filled.after_run columns real ?_⟩
          rw [value]
          exact filled
      · have first := least want List.mem_cons_self
        have after : ∀ other ∈ want :: pending, col + 1 ≤ other.1 := fun other member => by
          rcases List.mem_cons.mp member with rfl | later
          · omega
          · have := (List.pairwise_cons.mp sorted).1 other later
            omega
        rw [if_neg same]
        by_cases marked : rowidAlias = some col
        · rw [if_pos marked]
          exact ih (here.next_marked marked) aliased.tail later short (Nat.succ_le_succ slow)
            sorted after columns
        · have positive := List.length_pos_of_ne_nil cell.encode_ne_nil
          rw [if_neg marked, here.skip bounded marked, Checked.ok_bind]
          exact ih (here.next_stored marked) aliased.tail later short (by omega) sorted after
            columns

end Slots

theorem sortedColumns_at {wanted : List Nat} (bounded : buf.length < 2 ^ 63)
    (here : At buf rowidAlias col pos cells) (aliased : Aliased rowid rowidAlias col cells)
    (suffix : row.drop col = cells) (enough : cells.length ≤ left)
    (sorted : wanted.Pairwise (· < ·)) (least : ∀ target ∈ wanted, col ≤ target) :
    sortedColumns trusted buf rowid rowidAlias left col pos wanted =
      .ok (wanted.map (columnValue row)) := by
  induction cells generalizing left col pos wanted with
  | nil =>
    have null : (wanted.map fun _ => Value.null) = wanted.map (columnValue row) :=
      List.map_congr_left fun target member => (columnValue_past suffix (least target member)).symm
    cases left with
    | zero => rw [sortedColumns, null]
    | succ left =>
      cases wanted with
      | nil => rfl
      | cons target rest => rw [sortedColumns, if_neg here.done.not_lt, null]
  | cons cell cells ih =>
    obtain ⟨left, rfl⟩ : ∃ more, left = more + 1 :=
      ⟨left - 1, by rw [List.length_cons] at enough; omega⟩
    have short : cells.length ≤ left := Nat.le_of_succ_le_succ enough
    obtain ⟨value, later⟩ := columnValue_drop suffix
    cases wanted with
    | nil => rfl
    | cons target rest =>
      obtain ⟨first, others⟩ := List.pairwise_cons.mp sorted
      have above := least target List.mem_cons_self
      rw [sortedColumns, if_pos here.before]
      by_cases below : col < target
      · have after : ∀ other ∈ target :: rest, col + 1 ≤ other := fun other member => by
          rcases List.mem_cons.mp member with rfl | member
          · exact below
          · exact Nat.le_of_lt (Nat.lt_of_le_of_lt below (first other member))
        rw [if_pos below]
        by_cases marked : rowidAlias = some col
        · rw [if_pos marked]
          exact ih (here.next_marked marked) aliased.tail later short sorted after
        · rw [if_neg marked, here.skip bounded marked, Checked.ok_bind]
          exact ih (here.next_stored marked) aliased.tail later short sorted after
      · have same : target = col := by omega
        have after : ∀ other ∈ rest, col + 1 ≤ other := fun other member => by
          have := first other member
          omega
        rw [if_neg below, List.map_cons, same, value]
        by_cases marked : rowidAlias = some col
        · rw [if_pos marked, here.marker_ok marked, Checked.ok_bind,
            ih (here.next_marked marked) aliased.tail later short others after,
            aliased.head marked]
          rfl
        · rw [if_neg marked, here.decode bounded marked, Checked.ok_bind]
          simp only
          rw [ih (here.next_stored marked) aliased.tail later short others after]
          rfl

/-- A column is filled in its place in front of the columns after it. -/
theorem wide_after {wanted : List Nat} {out final : Nat → Value} (stored : col < row.length)
    (filled : ∀ i, final i = if i ∈ peaks (col + 1) wanted ∧ i < row.length then columnValue row i
      else Function.update out col (columnValue row col) i) (i : Nat) :
    final i = if i ∈ col :: peaks (col + 1) wanted ∧ i < row.length then columnValue row i
      else out i := by
  rw [filled]
  by_cases here : i = col
  · subst here
    rw [Function.update_self, ite_self, if_pos ⟨List.mem_cons_self, stored⟩]
  · rw [Function.update_of_ne here]
    simp only [List.mem_cons, here, false_or]

theorem wideColumns_at {wanted : List Nat} {out : Nat → Value} (bounded : buf.length < 2 ^ 63)
    (here : At buf rowidAlias col pos cells) (aliased : Aliased rowid rowidAlias col cells)
    (suffix : row.drop col = cells) (enough : cells.length ≤ left) :
    ∃ final, wideColumns trusted buf rowid rowidAlias left col pos wanted out = .ok final ∧
      ∀ i, final i = if i ∈ peaks col wanted ∧ i < row.length then columnValue row i
        else out i := by
  induction cells generalizing left col pos wanted out with
  | nil =>
    have length := List.drop_eq_nil_iff.mp suffix
    refine ⟨out, ?_, fun i => (if_neg fun both => ?_).symm⟩
    · cases left with
      | zero => rfl
      | succ left => rw [wideColumns, if_neg here.done.not_lt]
    · have := le_of_mem_peaks both.1
      omega
  | cons cell cells ih =>
    obtain ⟨left, rfl⟩ : ∃ more, left = more + 1 :=
      ⟨left - 1, by rw [List.length_cons] at enough; omega⟩
    have short : cells.length ≤ left := Nat.le_of_succ_le_succ enough
    obtain ⟨value, later⟩ := columnValue_drop suffix
    have stored : col < row.length := by
      have length := congrArg List.length suffix
      rw [List.length_drop, List.length_cons] at length
      omega
    rw [wideColumns, if_pos here.before, ← peaks_dropWhile]
    have from_column : ∀ target ∈ (wanted.dropWhile fun target => decide (target < col)).head?,
        col ≤ target := fun target first => by
      have kept := List.head?_dropWhile_not (fun target => decide (target < col)) wanted
      rw [first] at kept
      simpa using kept
    generalize (wanted.dropWhile fun target => decide (target < col)) = wanted at from_column
    cases wanted with
    | nil => exact ⟨out, rfl, fun i => (if_neg fun both => absurd both.1 List.not_mem_nil).symm⟩
    | cons target rest =>
      have above : col ≤ target := from_column target rfl
      simp only
      by_cases same : col = target
      · subst same
        have next : peaks col (col :: rest) = col :: peaks (col + 1) rest := by
          rw [peaks, if_neg (Nat.lt_irrefl _)]
        rw [if_pos rfl, next]
        by_cases marked : rowidAlias = some col
        · obtain ⟨final, walked, filled⟩ := @ih (col + 1) (pos + 1) left rest
            (Function.update out col (.integer rowid)) (here.next_marked marked) aliased.tail
            later short
          have head : columnValue row col = .integer rowid := by rw [value, aliased.head marked]; rfl
          rw [← head] at filled
          rw [if_pos marked, here.marker_ok marked, Checked.ok_bind]
          exact ⟨final, walked, wide_after stored filled⟩
        · obtain ⟨final, walked, filled⟩ := @ih (col + 1) _ left rest
            (Function.update out col cell.1) (here.next_stored marked) aliased.tail later short
          rw [← value] at filled
          rw [if_neg marked, here.decode bounded marked, Checked.ok_bind]
          exact ⟨final, walked, wide_after stored filled⟩
      · have next : peaks col (target :: rest) = peaks (col + 1) (target :: rest) := by
          rw [peaks, peaks, if_neg (by omega), if_neg (by omega)]
        rw [if_neg same, next]
        by_cases marked : rowidAlias = some col
        · rw [if_pos marked]
          exact ih (here.next_marked marked) aliased.tail later short
        · rw [if_neg marked, here.skip bounded marked, Checked.ok_bind]
          exact ih (here.next_stored marked) aliased.tail later short

/-- On an ascending list the walk stops at every column. -/
theorem mem_peaks {wanted : List Nat} (sorted : wanted.Pairwise (· ≤ ·)) {target : Nat} :
    target ∈ peaks col wanted ↔ target ∈ wanted ∧ col ≤ target := by
  induction wanted generalizing col with
  | nil => simp [peaks]
  | cons first rest ih =>
    obtain ⟨least, others⟩ := List.pairwise_cons.mp sorted
    rw [peaks]
    split
    next below =>
      rw [ih others, List.mem_cons]
      constructor
      · rintro ⟨member, above⟩
        exact ⟨.inr member, above⟩
      · rintro ⟨rfl | member, above⟩
        · omega
        · exact ⟨member, above⟩
    next above =>
      rw [List.mem_cons, ih others, List.mem_cons]
      constructor
      · rintro (rfl | ⟨member, later⟩)
        · exact ⟨.inl rfl, Nat.le_of_not_lt above⟩
        · exact ⟨.inr member, by omega⟩
      · rintro ⟨rfl | member, _⟩
        · exact .inl rfl
        · have := least target member
          by_cases same : target = first
          · exact .inl same
          · exact .inr ⟨member, by omega⟩

end Walks

section Decoders

variable {trusted : Bool} {row : List Types.Cell} {rowid : Int64} {rowidAlias : Option Nat}
  {nCols : Nat} {payload : Payload}

/-- A payload that stores a row whose alias holds the rowid. -/
structure Stores (payload : Payload) (row : List Types.Cell) (rowid : Int64)
    (rowidAlias : Option Nat) : Prop where
  encoded : payload.1 = encodeCells rowidAlias 0 row
  inside : ∀ a ∈ rowidAlias, row[a]? = some (Cell.integer rowid)

namespace Stores

theorem start (stores : Stores payload row rowid rowidAlias) :
    At payload.1 rowidAlias 0 0 row := stores.encoded ▸ At.start rowidAlias row

theorem aliased (stores : Stores payload row rowid rowidAlias) :
    Aliased rowid rowidAlias 0 row := fun i cell found marked => by
  rw [Nat.zero_add] at marked
  have held := stores.inside i marked
  rw [found] at held
  exact Option.some.inj held

theorem decodeRow (stores : Stores payload row rowid rowidAlias) (wide : row.length ≤ nCols) :
    decodeRow trusted payload.1 nCols rowid rowidAlias = .ok (fullRow row nCols) := by
  unfold RowCodec.decodeRow
  rw [decodeValues_at payload.2 stores.start wide, Checked.ok_bind, storedValues_length,
    materializeAlias_stored stores.aliased fun a marked => ?_]
  · rfl
  · exact (List.getElem?_eq_some_iff.mp (stores.inside a marked)).1

theorem decodeRowSelective (stores : Stores payload row rowid rowidAlias)
    (wide : row.length ≤ nCols) (unstable : UnstableSort) (colIndices : List Nat)
    (out : List Value) :
    decodeRowSelective unstable trusted payload.1 nCols colIndices rowid rowidAlias out =
      .ok (colIndices.map (project row rowid)) := by
  unfold RowCodec.decodeRowSelective
  split
  next empty =>
    cases List.length_eq_zero_iff.mp empty
    rfl
  next =>
    obtain ⟨rest, last, walked, filled⟩ := @selectiveColumns_filled trusted payload.1 rowid
      rowidAlias 0 0 nCols row _ (walkOrder unstable colIndices)
      (prefillRowid rowid (walkOrder unstable colIndices)
        fun slot => out[slot.val]?.getD .null) row colIndices.get payload.2 stores.start
      stores.aliased rfl wide (Nat.le_refl _) (walkOrder_sorted _ _) (fun _ _ => Nat.zero_le _)
      fun want member => mem_walkOrder.mp member
    unfold decodeSelectiveWalk
    rw [walked]
    simp only [Checked.ok_bind]
    refine congrArg Except.ok ?_
    have slots : fillShort rest last = fun slot => project row rowid (colIndices.get slot) := by
      funext slot
      have member : (colIndices.get slot, slot) ∈ walkOrder unstable colIndices :=
        mem_walkOrder.mpr rfl
      unfold project
      split
      next pseudo =>
        rw [filled.others slot fun want there same => by rw [mem_walkOrder.mp there, same, pseudo],
          prefillRowid, assign_eq, if_pos]
        exact ⟨_, List.mem_filter.mpr ⟨member, beq_iff_eq.mpr pseudo⟩, rfl⟩
      next real => exact filled.wanted _ member real
    rw [slots]
    exact List.ofFn_getElem_eq_map colIndices (project row rowid)

/-- A list that ascends strictly ends before the words do. -/
theorem assertSorted_ok {colIndices : List Nat} (some : colIndices ≠ [])
    (sorted : colIndices.Pairwise (· < ·)) (words : ∀ i ∈ colIndices, i < 2 ^ 64) :
    assertSorted colIndices = .ok () := by
  obtain ⟨front, last, rfl⟩ : ∃ front last, colIndices = front ++ [last] :=
    ⟨_, _, (List.dropLast_append_getLast some).symm⟩
  have below : rowidProj ∉ front := by
    intro member
    have before := (List.pairwise_append.mp sorted).2.2 _ member last (List.mem_singleton_self _)
    have word := words last (by simp)
    unfold rowidProj at before
    omega
  have length : (Checked.sub (front ++ [last]).length 1 : Checked String Nat) = .ok front.length := by
    simp [Checked.sub]
  unfold assertSorted
  rw [decide_eq_true (List.isChain_iff_pairwise.mpr sorted), length]
  simp only [Checked.ok_bind, Checked.assert, if_true]
  simp [below]

theorem decodeRowSelectiveSorted (stores : Stores payload row rowid rowidAlias)
    (wide : row.length ≤ nCols) {colIndices : List Nat} (some : colIndices ≠ [])
    (sorted : colIndices.Pairwise (· < ·)) (words : ∀ i ∈ colIndices, i < 2 ^ 64) :
    decodeRowSelectiveSorted trusted payload.1 nCols colIndices rowid rowidAlias =
      .ok (colIndices.map (project row rowid)) := by
  unfold RowCodec.decodeRowSelectiveSorted
  rw [assertSorted_ok some sorted words, Checked.ok_bind]
  split
  next single =>
    rw [single]
    rfl
  next =>
    rw [sortedColumns_at payload.2 stores.start stores.aliased rfl wide sorted
      fun _ _ => Nat.zero_le _, Checked.ok_bind]
    refine congrArg Except.ok ?_
    unfold fillLast
    split
    next last =>
      obtain ⟨front, rfl⟩ := List.getLast?_eq_some_iff.mp last
      have real : ∀ i ∈ front, i ≠ rowidProj := fun i member => by
        have below := (List.pairwise_append.mp sorted).2.2 i member rowidProj
          (List.mem_singleton_self _)
        exact below.ne
      have values : front.map (columnValue row) = front.map (project row rowid) :=
        List.map_congr_left fun i member => (if_neg (real i member)).symm
      simp [project, values]
    next absent =>
      refine List.map_congr_left fun i member => (if_neg fun pseudo => absent ?_).symm
      -- the pseudo-column is the largest word, so nothing follows it
      obtain ⟨front, back, rfl⟩ := List.append_of_mem member
      cases back with
      | nil => rw [List.getLast?_append, pseudo]; rfl
      | cons other back =>
        have above := (List.pairwise_cons.mp (List.pairwise_append.mp sorted).2.1).1 other
          List.mem_cons_self
        have word := words other (by simp)
        rw [pseudo] at above
        unfold rowidProj at above
        omega

theorem decodeRowSelectiveWide (stores : Stores payload row rowid rowidAlias)
    (wide : row.length ≤ nCols) (wanted : List Nat) :
    decodeRowSelectiveWide trusted payload.1 nCols wanted rowid rowidAlias =
      .ok ((List.range nCols).map fun col =>
        if col ∈ peaks 0 wanted then columnValue row col else .null) := by
  obtain ⟨final, walked, filled⟩ := @wideColumns_at trusted payload.1 rowid rowidAlias 0 0 nCols
    row row wanted (fun _ => .null) payload.2 stores.start stores.aliased rfl wide
  unfold RowCodec.decodeRowSelectiveWide
  rw [walked]
  refine congrArg Except.ok (List.map_congr_left fun col _ => ?_)
  rw [filled]
  by_cases stored : col < row.length
  · simp only [stored, and_true]
  · have null : columnValue row col = .null :=
      columnValue_past (List.drop_eq_nil_of_le (Nat.le_refl _)) (Nat.le_of_not_lt stored)
    rw [if_neg fun both => stored both.2, null, ite_self]

end Stores

end Decoders

end RustSql.Storage.RowCodec
