import RustSql.Storage.RangeReads
import Mathlib.Data.List.TakeWhile

/-! Batches of cells: what one batch copies, and the rows of the batches of a resumed scan. -/

namespace RustSql.Storage

open RustSql.Foundation

/-- The payload of a cell that does not spill. -/
def LeafCell.bytes (cell : LeafCell) : List UInt8 :=
  match cell.1 with
  | .tableLeaf _ payload => payload
  | _ => []

/-- The length of the payload, on the page or not. -/
def LeafCell.size (cell : LeafCell) : Nat :=
  match cell.1 with
  | .tableLeaf _ payload => payload.length
  | .tableLeafOverflow _ total _ _ => total.toNat
  | _ => 0

def LeafCell.served (cell : LeafCell) : Int64 × List UInt8 := (cell.rowid, cell.bytes)

namespace CellsWalk

/-- All entries are in the arena. -/
def Filled (walk : CellsWalk) : Prop :=
  ∀ entry ∈ walk.entries, entry.off.toNat + entry.len.toNat ≤ walk.arena.length

theorem copy_rows {walk : CellsWalk} {rowid : Int64} {bytes : List UInt8} (filled : walk.Filled)
    (arena : walk.arena.length < 2 ^ 32) (short : bytes.length < 2 ^ 32) :
    (walk.copy rowid bytes).Filled ∧
      (walk.copy rowid bytes).rows = walk.rows ++ [(rowid, bytes)] := by
  have off : (UInt32.ofNat walk.arena.length).toNat = walk.arena.length :=
    UInt32.toNat_ofNat_of_lt' arena
  have len : (UInt32.ofNat bytes.length).toNat = bytes.length := UInt32.toNat_ofNat_of_lt' short
  constructor
  · intro entry member
    rw [copy, List.length_append]
    rcases List.mem_append.mp member with old | new
    · have := filled entry old
      omega
    · rw [List.mem_singleton.mp new, off, len]
  · rw [rows, rows, copy, List.map_append]
    congr 1
    · apply List.map_congr_left
      intro entry member
      have inside := filled entry member
      rw [List.drop_append_of_le_length (by omega),
        List.take_append_of_le_length (by rw [List.length_drop]; omega)]
    · simp only [List.map_cons, List.map_nil, off, len, List.drop_left, List.take_length]

/-- A scan on its way. -/
structure Going (walk : CellsWalk) : Prop where
  filled : walk.Filled
  hitEnd : walk.hitEnd = true
  overflowStop : walk.overflowStop = false
  maxBytes : walk.maxBytes ≤ 2 ^ 32

theorem visit_full {walk : CellsWalk} (full : walk.full = true) (cell : LeafCell) :
    visit walk cell = .ok ({ walk with hitEnd := false }, false) := by
  rw [visit, if_pos full]

theorem visit_spills {walk : CellsWalk} (room : walk.full = false) {cell : LeafCell}
    (spills : cell.spills = true) (size : cell.size < 2 ^ 32) :
    visit walk cell = .ok ({ walk with hitEnd := false, overflowStop := true }, false) := by
  obtain ⟨cell, kind⟩ := cell
  cases cell with
  | tableLeafOverflow rowid total share chain =>
    have short : ¬ 2 ^ 32 ≤ total.toNat := Nat.not_le.mpr size
    simp only [visit, room, Bool.false_eq_true, if_false, if_neg short]
  | _ => cases spills

theorem visit_copies {walk : CellsWalk} (room : walk.full = false) {cell : LeafCell}
    (inPage : cell.spills = false) (size : cell.size < 2 ^ 32) :
    visit walk cell = .ok (walk.copy cell.rowid cell.bytes, true) := by
  obtain ⟨cell, kind⟩ := cell
  cases cell with
  | tableLeaf rowid payload =>
    have short : ¬ 2 ^ 32 ≤ payload.length := Nat.not_le.mpr size
    simp only [visit, room, Bool.false_eq_true, if_false, if_neg short]
    rfl
  | tableLeafOverflow rowid total share chain => cases inPage
  | _ => cases kind

theorem Going.copy {walk : CellsWalk} (going : walk.Going) (room : walk.full = false)
    {cell : LeafCell} (inPage : cell.spills = false) (size : cell.size < 2 ^ 32) :
    (walk.copy cell.rowid cell.bytes).Going ∧
      (walk.copy cell.rowid cell.bytes).rows = walk.rows ++ [cell.served] := by
  have arena : walk.arena.length < 2 ^ 32 := by
    have bound := going.maxBytes
    rw [full, Bool.or_eq_false_iff] at room
    have := of_decide_eq_false room.2
    omega
  have short : cell.bytes.length < 2 ^ 32 := by
    obtain ⟨cell, kind⟩ := cell
    cases cell with
    | tableLeaf rowid payload => exact size
    | tableLeafOverflow rowid total share chain => cases inPage
    | _ => cases kind
  obtain ⟨filled, rows⟩ := @copy_rows _ cell.rowid _ going.filled arena short
  exact ⟨⟨filled, going.hitEnd, going.overflowStop, going.maxBytes⟩, rows⟩

/-- What a scan over the cells ends with: cells that it served, and those it left. -/
structure Batch (walk : CellsWalk) (served left : List LeafCell) (after : CellsWalk) : Prop where
  rows : after.rows = walk.rows ++ served.map LeafCell.served
  last : after.last = (served.getLast?.map LeafCell.rowid).getD walk.last
  inPage : ∀ cell ∈ served, cell.spills = false
  hitEnd : after.hitEnd = left.isEmpty
  overflowStop : after.overflowStop = true → ∃ cell ∈ left.head?, cell.spills = true
  progress : after.hitEnd = false → after.overflowStop = false →
    walk.full = true ∨ served ≠ []

theorem visitAll_batch (cells : List LeafCell) (sizes : ∀ cell ∈ cells, cell.size < 2 ^ 32)
    (walk : CellsWalk) (going : walk.Going) :
    ∃ served left after go, cells = served ++ left ∧
      visitAll visit walk cells = .ok (after, go) ∧ Batch walk served left after := by
  induction cells generalizing walk with
  | nil =>
    refine ⟨[], [], walk, true, rfl, rfl, ⟨by simp, rfl, nofun, going.hitEnd, ?_, ?_⟩⟩
    · intro met
      rw [going.overflowStop] at met
      cases met
    · intro ends
      rw [going.hitEnd] at ends
      cases ends
  | cons cell rest ih =>
    have size := sizes cell (List.mem_cons_self ..)
    cases room : walk.full with
    | true =>
      refine ⟨[], cell :: rest, { walk with hitEnd := false }, false, rfl,
        by rw [visitAll, visit_full room]; rfl,
        ⟨by simp [rows], rfl, nofun, rfl, ?_, fun _ _ => Or.inl room⟩⟩
      intro met
      rw [going.overflowStop] at met
      cases met
    | false =>
      cases spills : cell.spills with
      | true =>
        exact ⟨[], cell :: rest, { walk with hitEnd := false, overflowStop := true }, false, rfl,
          by rw [visitAll, visit_spills room spills size]; rfl,
          ⟨by simp [rows], rfl, nofun, rfl, fun _ => ⟨cell, rfl, spills⟩, fun _ stop => by
            cases stop⟩⟩
      | false =>
        obtain ⟨onward, copied⟩ := going.copy room spills size
        obtain ⟨served, left, after, go, same, visited, batch⟩ :=
          ih (fun other member => sizes other (List.mem_cons_of_mem _ member)) _ onward
        refine ⟨cell :: served, left, after, go, by rw [same]; rfl, ?_, ?_⟩
        · rw [visitAll, visit_copies room spills size]
          exact visited
        · refine ⟨?_, ?_, ?_, batch.hitEnd, batch.overflowStop, fun _ _ => Or.inr (by simp)⟩
          · rw [batch.rows, copied]
            simp
          · rw [batch.last, List.getLast?_cons]
            cases served.getLast? <;> rfl
          · intro other member
            rcases List.mem_cons.mp member with rfl | later
            · exact spills
            · exact batch.inPage other later

theorem start_going (budget maxBytes : Nat) (bound : maxBytes ≤ 2 ^ 32) :
    (start budget maxBytes).Going :=
  ⟨nofun, rfl, rfl, Nat.max_le.mpr ⟨bound, by norm_num⟩⟩

theorem start_room (budget maxBytes : Nat) : (start budget maxBytes).full = false := by
  rw [full, Bool.or_eq_false_iff]
  exact ⟨decide_eq_false (Nat.not_le.mpr (Nat.le_max_right budget 1)),
    decide_eq_false (Nat.not_le.mpr (Nat.le_max_right maxBytes 1))⟩

end CellsWalk

section Resumed

variable {store : TableStore} {tree : TableTree} {depth : Nat} {start stop : Int64}

theorem succ_le_iff {last rowid : Int64} (later : last < rowid) (k : Int64) :
    last + 1 ≤ k ↔ last < k := by
  rw [Int64.lt_iff_toInt_lt] at later
  rw [Int64.lt_iff_toInt_lt, Int64.le_iff_toInt_le, Int64.toInt_add]
  have low := last.le_toInt
  have high := rowid.toInt_lt
  have one : (1 : Int64).toInt = 1 := by decide
  rw [one, Int.bmod_eq_of_le (by omega) (by omega)]
  omega

/-- Resumed behind a row of the span, a scan has the rest of it before itself. -/
theorem Span.cells_resume {entries served left : List LeafCell} {row : LeafCell}
    (sorted : entries.Pairwise (fun first second => first.rowid < second.rowid))
    (parts : (⟨some start, some stop⟩ : Span).cells entries = served ++ left)
    (last : served.getLast? = some row) (more : left ≠ []) :
    (⟨some (row.rowid + 1), some stop⟩ : Span).cells entries = left := by
  obtain ⟨front, rfl⟩ := List.getLast?_eq_some_iff.mp last
  have all : ((front ++ [row]) ++ left).Pairwise
      (fun first second => first.rowid < second.rowid) := parts ▸ sorted.filter _
  obtain ⟨before, -, apart⟩ := List.pairwise_append.mp all
  have behind (cell : LeafCell) (member : cell ∈ left) : row.rowid < cell.rowid :=
    apart row (by simp) cell member
  have ahead (cell : LeafCell) (member : cell ∈ front ++ [row]) : cell.rowid ≤ row.rowid := by
    rcases List.mem_append.mp member with early | same
    · exact le_of_lt ((List.pairwise_append.mp before).2.2 cell early row (by simp))
    · rw [List.mem_singleton.mp same]
  obtain ⟨next, later⟩ := List.exists_mem_of_ne_nil left more
  have inside : row ∈ (⟨some start, some stop⟩ : Span).cells entries := by
    rw [parts]
    simp
  have above := (Span.contains_iff.mp (List.mem_filter.mp inside).2).1
  have narrowed : (⟨some (row.rowid + 1), some stop⟩ : Span).cells entries =
      ((⟨some start, some stop⟩ : Span).cells entries).filter (fun cell => row.rowid < cell.rowid) := by
    rw [Span.cells, Span.cells, List.filter_filter]
    apply List.filter_congr
    intro cell _
    rw [Bool.eq_iff_iff, Bool.and_eq_true, Span.contains_iff, Span.contains_iff, decide_eq_true_eq,
      succ_le_iff (behind next later)]
    exact ⟨fun both => ⟨both.1, le_trans above (le_of_lt both.1), both.2⟩,
      fun all => ⟨all.1, all.2.2⟩⟩
  rw [narrowed, parts, List.filter_append]
  have none : (front ++ [row]).filter (fun cell => row.rowid < cell.rowid) = [] := by
    rw [List.filter_eq_nil_iff]
    intro cell member
    simpa using ahead cell member
  have every : left.filter (fun cell => row.rowid < cell.rowid) = left := by
    rw [List.filter_eq_self]
    intro cell member
    simpa using behind cell member
  rw [none, every, List.nil_append]

/-- One batch serves a front of the span. -/
theorem scanTableRangeCells_batch (hosts : store.Hosts tree) (enough : tree.height < depth)
    (sizes : ∀ cell ∈ tree.entries, cell.size < 2 ^ 32) (budget : Nat) {maxBytes : Nat}
    (bound : maxBytes ≤ 2 ^ 32) :
    ∃ served left batch reads,
      (⟨some start, some stop⟩ : Span).cells tree.entries = served ++ left ∧
      store.scanTableRangeCells depth tree.id start stop budget maxBytes = .ok (batch, reads) ∧
      CellsWalk.Batch (CellsWalk.start budget maxBytes) served left batch ∧
      ∀ id ∈ reads, id ∈ tree.pages := by
  obtain ⟨served, left, after, go, parts, visited, batch⟩ := CellsWalk.visitAll_batch
    ((⟨some start, some stop⟩ : Span).cells tree.entries)
    (fun cell member => sizes cell (List.mem_filter.mp member).1) _
    (CellsWalk.start_going budget maxBytes bound)
  have visits : Visits ⟨some start, some stop⟩ tree CellsWalk.visit (store.walk "scan_cells"
      (TableStore.visitFrom start stop CellsWalk.visit) (TableStore.childrenFrom start) depth
      tree.id) :=
    TableStore.walk_visits (visitFrom_sound start stop _) (childrenFrom_sound start stop) hosts
      hosts.named enough
  obtain ⟨more, walk, ran, reached, reads⟩ := visits _ after go visited
  refine ⟨served, left, after, walk.reads, parts, ?_, batch, reads⟩
  simp only [TableStore.scanTableRangeCells, ran, reached]

/-- The batches serve the rows of the span up to the first that is on overflow pages. -/
theorem resumedBatches_serve (hosts : store.Hosts tree) (enough : tree.height < depth)
    (sizes : ∀ cell ∈ tree.entries, cell.size < 2 ^ 32) (budget : Nat) {maxBytes : Nat}
    (bound : maxBytes ≤ 2 ^ 32) (rounds : Nat) (start : Int64)
    (rounded : ((⟨some start, some stop⟩ : Span).cells tree.entries).length < rounds) :
    ∃ reads, store.resumedBatches depth tree.id stop budget maxBytes rounds start =
        .ok ((((⟨some start, some stop⟩ : Span).cells tree.entries).takeWhile
            (fun cell => !cell.spills)).map LeafCell.served,
          ((⟨some start, some stop⟩ : Span).cells tree.entries).any LeafCell.spills, reads) ∧
      ∀ id ∈ reads, id ∈ tree.pages := by
  induction rounds generalizing start with
  | zero => cases rounded
  | succ rounds ih =>
    obtain ⟨served, left, batch, reads, parts, ran, what, known⟩ :=
      @scanTableRangeCells_batch _ _ _ start stop hosts enough sizes budget _ bound
    have rows : batch.rows = served.map LeafCell.served := by
      rw [what.rows]
      rfl
    have front : (served ++ left).takeWhile (fun cell => !cell.spills) =
        served ++ left.takeWhile (fun cell => !cell.spills) :=
      List.takeWhile_append_of_pos fun cell member => by simpa using what.inPage cell member
    have whether : (served ++ left).any LeafCell.spills = left.any LeafCell.spills := by
      have none : served.any LeafCell.spills = false := by simpa using what.inPage
      rw [List.any_append, none, Bool.false_or]
    rw [TableStore.resumedBatches, ran, parts, front, whether]
    simp only [bind, Except.bind]
    cases ends : batch.hitEnd with
    | true =>
      have none : left = [] := by simpa [ends] using what.hitEnd
      have still : batch.overflowStop = false := by
        cases met : batch.overflowStop with
        | false => rfl
        | true =>
          obtain ⟨cell, member, -⟩ := what.overflowStop met
          rw [none] at member
          cases member
      refine ⟨reads, ?_, known⟩
      simp [none, rows, still]
    | false =>
      cases met : batch.overflowStop with
      | true =>
        obtain ⟨cell, member, spills⟩ := what.overflowStop met
        cases left with
        | nil => cases member
        | cons first rest =>
          cases member
          refine ⟨reads, ?_, known⟩
          simp [spills, rows]
      | false =>
        have some_ : served ≠ [] := by
          rcases what.progress ends met with full | progress
          · rw [CellsWalk.start_room] at full
            cases full
          · exact progress
        have more : left ≠ [] := by
          rintro rfl
          rw [what.hitEnd] at ends
          cases ends
        obtain ⟨row, last⟩ : ∃ row, served.getLast? = some row :=
          ⟨_, List.getLast?_eq_some_getLast some_⟩
        have next : batch.last = row.rowid := by rw [what.last, last]; rfl
        have rest := Span.cells_resume hosts.ordered.sorted.1 parts last more
        have shorter : left.length < rounds := by
          rw [parts, List.length_append] at rounded
          have := List.length_pos_iff.mpr some_
          omega
        obtain ⟨later, answers, inside⟩ := ih (row.rowid + 1) (by rwa [rest])
        rw [rest] at answers
        refine ⟨reads ++ later, ?_, ?_⟩
        · rw [next, answers]
          simp [rows]
        · intro id member
          rcases List.mem_append.mp member with here | there
          · exact known id here
          · exact inside id there

end Resumed

/-- The range reads agree with the full scan. Batches end at a row on overflow pages, and
`scan_table_range` needs a right-most child everywhere and a visitor that never stops. -/
theorem rangeReads_agree {store : TableStore} {tree : TableTree} {depth : Nat}
    {start stop : Int64} (hosts : store.Hosts tree) (enough : tree.height < depth)
    (order : start ≤ stop) :
    (∀ (σ : Type) (f : σ → Int64 → List UInt8 → σ × Bool), Visits Span.full tree
      (store.visitPayload f) (store.scanTable depth tree.id f)) ∧
    (∀ (σ : Type) (f : σ → Int64 → List UInt8 → σ × Bool) (mayReenter : Bool),
      Visits ⟨some start, some stop⟩ tree (store.visitPayload f)
        (store.scanTableRangeBorrowedOpts start stop f mayReenter depth tree.id)) ∧
    (∀ (σ ρ : Type) (decode : LeafCell → Except Error ρ) (f : σ → Int64 → ρ → σ × Bool),
      Visits ⟨some start, some stop⟩ tree (TableStore.visitRow decode f)
        (store.scanTableRangeSelective decode start stop f depth tree.id)) ∧
    (∀ (σ : Type) (f : σ → Int64 → List UInt8 → σ × Bool),
      (∀ state rowid payload, (f state rowid payload).2 = true) →
      tree.Every (fun forest => forest.Named ∧ forest.right ≠ 0) →
        Visits ⟨some start, some stop⟩ tree (store.visitPayload f)
          (store.scanTableRange start stop f depth tree.id)) ∧
    (∀ budget maxBytes rounds, maxBytes ≤ 2 ^ 32 → (∀ cell ∈ tree.entries, cell.size < 2 ^ 32) →
      ((⟨some start, some stop⟩ : Span).cells tree.entries).length < rounds →
        ∃ reads, store.resumedBatches depth tree.id stop budget maxBytes rounds start =
            .ok ((((⟨some start, some stop⟩ : Span).cells tree.entries).takeWhile
                (fun cell => !cell.spills)).map LeafCell.served,
              ((⟨some start, some stop⟩ : Span).cells tree.entries).any LeafCell.spills, reads) ∧
          ∀ id ∈ reads, id ∈ tree.pages) ∧
    (∀ (σ : Type) (walk : Walk σ), Succeeds (store.countRangeSubtree start stop depth tree.id) walk
      (Counted ⟨some start, some stop⟩ tree.entries tree.pages walk)) :=
  ⟨fun _ f => scanTable_visits hosts enough f,
    fun _ f mayReenter => scanTableRangeBorrowedOpts_visits hosts enough start stop f mayReenter,
    fun _ _ decode f => scanTableRangeSelective_visits hosts enough decode start stop f,
    fun _ f goes every => scanTableRange_visits hosts enough start stop f goes every,
    fun budget _ rounds bound sizes rounded =>
      resumedBatches_serve hosts enough sizes budget bound rounds start rounded,
    fun _ walk => countRangeSubtree_counted order depth tree hosts.laid hosts.named hosts.ordered
      enough walk⟩

/-- A visitor that takes every row. -/
def takeRow (rows : List (Int64 × List UInt8)) (rowid : Int64) (payload : List UInt8) :
    List (Int64 × List UInt8) × Bool := (rows ++ [(rowid, payload)], true)

theorem rangeReads_agree_small : smallStore.Hosts smallTree ∧
    Visits Span.full smallTree (smallStore.visitPayload takeRow) (smallStore.scanTable 2 2 takeRow) ∧
    Visits ⟨some 2, some 9⟩ smallTree (smallStore.visitPayload takeRow)
      (smallStore.scanTableRangeBorrowedOpts 2 9 takeRow true 2 2) ∧
    Visits ⟨some 2, some 9⟩ smallTree (TableStore.visitRow smallStore.payload takeRow)
      (smallStore.scanTableRangeSelective smallStore.payload 2 9 takeRow 2 2) ∧
    Visits ⟨some 2, some 9⟩ smallTree (smallStore.visitPayload takeRow)
      (smallStore.scanTableRange 2 9 takeRow 2 2) ∧
    (∃ reads, smallStore.resumedBatches 2 2 9 1 64 3 2 = .ok ([(2, [20]), (5, [50])], false, reads) ∧
      ∀ id ∈ reads, id ∈ smallTree.pages) ∧
    ∀ walk : Walk Unit, Succeeds (smallStore.countRangeSubtree 2 9 2 2) walk
      (Counted ⟨some 2, some 9⟩ smallTree.entries smallTree.pages walk) := by
  obtain ⟨scan, borrowed, selective, range, batches, count⟩ :=
    @rangeReads_agree _ _ 2 2 9 smallStore_hosts (by decide) (by decide)
  have sizes : ∀ cell ∈ smallTree.entries, cell.size < 2 ^ 32 := by decide
  exact ⟨smallStore_hosts, scan _ takeRow, borrowed _ takeRow true, selective _ _ smallStore.payload takeRow,
    range _ takeRow (fun _ _ _ => rfl) (by simp [smallTree, SearchTree.Every, SearchForest.Every,
      SearchForest.Named, SearchForest.trees, SearchForest.right, SearchTree.id]),
    batches 1 64 3 (by decide) sizes (by decide), count Unit⟩

/-- A row of 5000 bytes, with the share that a page of 4096 bytes holds of it. -/
def longRow : LeafCell := .overflow 7 5000 (.replicate 1024 0) 9

/-- A row on overflow pages ends the batches, which visit nothing of it. -/
theorem rangeReads_agree_overflow : ¬ ∀ (store : TableStore) (tree : TableTree) (depth : Nat)
    (start stop : Int64) (budget maxBytes rounds : Nat), store.Hosts tree → tree.height < depth →
      start ≤ stop → maxBytes ≤ 2 ^ 32 → (∀ cell ∈ tree.entries, cell.size < 2 ^ 32) →
      ((⟨some start, some stop⟩ : Span).cells tree.entries).length < rounds →
        ∃ rows met reads, store.resumedBatches depth tree.id stop budget maxBytes rounds start =
            .ok (rows, met, reads) ∧
          rows.map Prod.fst =
            ((⟨some start, some stop⟩ : Span).cells tree.entries).map LeafCell.rowid := by
  intro claim
  have hosts : TableStore.Hosts
      ⟨fun _ => .ok (.leaf [longRow]), fun _ _ _ => .ok (.replicate 5000 0)⟩ (.leaf 2 [longRow]) :=
    ⟨rfl, trivial, by simp [SearchTree.Ordered, Within]⟩
  have sizes : ∀ cell ∈ (SearchTree.leaf 2 [longRow] : TableTree).entries, cell.size < 2 ^ 32 := by
    intro cell member
    rw [List.mem_singleton.mp member]
    decide
  obtain ⟨rows, met, reads, ran, same⟩ := claim _ _ 1 1 9 8 64 2 hosts (by decide) (by decide)
    (by decide) sizes (by decide)
  obtain ⟨_, answers, -⟩ := @resumedBatches_serve _ _ 1 9 hosts (by decide) sizes 8 64
    (by decide) 2 1 (by decide)
  rw [ran] at answers
  cases answers
  exact absurd same (by decide)

end RustSql.Storage
