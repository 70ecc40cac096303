import RustSql.Storage.TableTree

/-! Range reads of a table tree: six walks that prune, stop and resume in their own ways. -/

namespace RustSql.Storage

open RustSql.Foundation

namespace TableStore

variable {σ : Type} (store : TableStore)

/-- A visitor of rowids and payloads. -/
def visitPayload (f : σ → Int64 → List UInt8 → σ × Bool) : Visit σ := fun state cell => do
  let payload ← store.payload cell
  .ok (f state cell.rowid payload)

/-- A visitor of rowids and decoded rows. -/
def visitRow (decode : LeafCell → Except Error ρ) (f : σ → Int64 → ρ → σ × Bool) : Visit σ :=
  fun state cell => do
    let row ← decode cell
    .ok (f state cell.rowid row)

/-- All children; 0 is no right-most child. -/
def allChildren (cells : List (Nat × Int64)) (right : Nat) : List Nat :=
  cells.map Prod.fst ++ if right = 0 then [] else [right]

/-- The children from the first separator at or above `start` on. -/
def childrenFrom (start : Int64) (cells : List (Nat × Int64)) (right : Nat) : List Nat :=
  (cells.drop (partitionPoint (fun cell => cell.2 < start) cells)).map Prod.fst ++
    if right = 0 then [] else [right]

/-- Only the cells from `start` on are visited. -/
def guarded (start : Int64) (visit : Visit σ) : Visit σ := fun state cell =>
  if start ≤ cell.rowid then visit state cell else .ok (state, true)

/-- The loop over the cells of a leaf, up to the first that is past `stop`. -/
def visitUpTo (stop : Int64) (visit : Visit σ) : List LeafCell → WalkM σ Bool
  | [] => return true
  | cell :: rest => do
    if stop < cell.rowid then return false
    else
      let go ← visitCells visit [cell]
      if go = true then visitUpTo stop visit rest else return false

/-- The cells from the first at or above `start` on. -/
def visitFrom (start stop : Int64) (visit : Visit σ) (cells : List LeafCell) : WalkM σ Bool :=
  visitUpTo stop visit (cells.drop (partitionPoint (fun cell => cell.rowid < start) cells))

/-- `scan_table`. -/
def scanTable (depth root : Nat) (f : σ → Int64 → List UInt8 → σ × Bool) : WalkM σ Bool :=
  store.walk "scan" (visitCells (store.visitPayload f)) allChildren depth root

/-- `scan_range_subtree_borrowed`. -/
def scanRangeSubtreeBorrowed (start stop : Int64) (f : σ → Int64 → List UInt8 → σ × Bool)
    (depth root : Nat) : WalkM σ Bool :=
  store.walk "range scan" (visitFrom start stop (guarded start (store.visitPayload f)))
    (childrenFrom start) depth root

/-- The cells that the first phase of the deferred discipline copies, and whether it met one past
`stop`. -/
def copyRange (start stop : Int64) : List LeafCell → List LeafCell × Bool
  | [] => ([], false)
  | cell :: rest =>
    if stop < cell.rowid then ([], true)
    else
      let (batch, met) := copyRange start stop rest
      (if start ≤ cell.rowid then cell :: batch else batch, met)

/-- `scan_range_subtree_borrowed_deferred`. -/
def scanRangeSubtreeBorrowedDeferred (start stop : Int64)
    (f : σ → Int64 → List UInt8 → σ × Bool) (depth root : Nat) : WalkM σ Bool :=
  store.walk "range_borrowed" (fun cells => do
    let lo := partitionPoint (fun cell => cell.rowid < start) cells
    let (batch, met) := copyRange start stop (cells.drop lo)
    let cont ← visitCells (store.visitPayload f) batch
    return cont && !met) allChildren depth root

def scanTableRangeBorrowedOpts (start stop : Int64) (f : σ → Int64 → List UInt8 → σ × Bool)
    (mayReenter : Bool) (depth root : Nat) : WalkM σ Bool :=
  if mayReenter then store.scanRangeSubtreeBorrowedDeferred start stop f depth root
  else store.scanRangeSubtreeBorrowed start stop f depth root

/-- `scan_table_range_selective`. -/
def scanTableRangeSelective (decode : LeafCell → Except Error ρ) (start stop : Int64)
    (f : σ → Int64 → ρ → σ × Bool) (depth root : Nat) : WalkM σ Bool :=
  store.walk "scan_selective" (visitFrom start stop (visitRow decode f)) (childrenFrom start) depth
    root

/-- `scan_table_range`. A visitor that stops ends its leaf only, and a missing right-most child is
page 0. -/
def scanTableRange (start stop : Int64) (f : σ → Int64 → List UInt8 → σ × Bool)
    (depth root : Nat) : WalkM σ Bool :=
  store.walk "range scan" (fun cells => do
    let _ ← visitUpTo stop (guarded start (store.visitPayload f)) cells
    return true) (fun cells right =>
      ((cells ++ [(right, Int64.maxValue)]).filter (fun cell => !decide (cell.2 < start))).map
        Prod.fst) depth root

/-- The children of a count: up to the first separator that reaches `stop`. -/
def countChildren (stop : Int64) (right : Nat) : List (Nat × Int64) → List Nat
  | [] => if right = 0 then [] else [right]
  | (child, key) :: rest => child :: if stop ≤ key then [] else countChildren stop right rest

/-- The rest of a sum. -/
def sumCounts (count : Nat → WalkM σ Nat) : List Nat → WalkM σ Nat
  | [] => return 0
  | child :: rest => do
    let first ← count child
    let later ← sumCounts count rest
    return first + later

/-- `count_range_subtree`. -/
def countRangeSubtree (start stop : Int64) : Nat → Nat → WalkM σ Nat
  | 0, _ => throw .exhausted
  | depth + 1, id => do
    let page ← store.fetch id
    match page with
    | .leaf cells =>
      let first := partitionPoint (fun cell => cell.rowid < start) cells
      let past := searchLoop (testAt (fun cell => cell.rowid ≤ stop) cells) cells.length first
        cells.length
      return past - first
    | .interior cells right =>
      let lo := partitionPoint (fun cell => cell.2 < start) cells
      sumCounts (countRangeSubtree start stop depth) (countChildren stop right (cells.drop lo))
    | .other kind =>
      throw (.raised (.corruption s!"unexpected page type in count_range: {kind.debug}"))

end TableStore

structure CellEntry where
  rowid : Int64
  off : UInt32
  len : UInt32

/-- The state of a cells scan. -/
structure CellsWalk where
  arena : List UInt8
  entries : List CellEntry
  budget : Nat
  maxBytes : Nat
  hitEnd : Bool
  overflowStop : Bool
  last : Int64

namespace CellsWalk

def full (walk : CellsWalk) : Bool :=
  walk.budget ≤ walk.entries.length || walk.maxBytes ≤ walk.arena.length

def copy (rowid : Int64) (bytes : List UInt8) (walk : CellsWalk) : CellsWalk where
  arena := walk.arena ++ bytes
  entries := walk.entries ++ [⟨rowid, UInt32.ofNat walk.arena.length, UInt32.ofNat bytes.length⟩]
  budget := walk.budget
  maxBytes := walk.maxBytes
  hitEnd := walk.hitEnd
  overflowStop := walk.overflowStop
  last := rowid

/-- The work of `scan_range_subtree_cells` on a cell of the range. -/
def visit : Visit CellsWalk := fun walk cell =>
  let tooLarge (plen : Nat) : Except Error (CellsWalk × Bool) :=
    .error (.corruption s!"record payload {plen} too large for cell serving")
  if walk.full then .ok ({ walk with hitEnd := false }, false)
  else
    match cell.1 with
    | .tableLeaf rowid payload =>
      if 2 ^ 32 ≤ payload.length then tooLarge payload.length
      else .ok (walk.copy rowid payload, true)
    | .tableLeafOverflow _ total _ _ =>
      if 2 ^ 32 ≤ total.toNat then tooLarge total.toNat
      else .ok ({ walk with hitEnd := false, overflowStop := true }, false)
    | _ => .ok (walk, true)

def start (budget maxBytes : Nat) : CellsWalk where
  arena := []
  entries := []
  budget := max budget 1
  maxBytes := max maxBytes 1
  hitEnd := true
  overflowStop := false
  last := Int64.minValue

/-- The rows of the batch, as their reader gets them from the arena. -/
def rows (walk : CellsWalk) : List (Int64 × List UInt8) :=
  walk.entries.map fun entry =>
    (entry.rowid, (walk.arena.drop entry.off.toNat).take entry.len.toNat)

end CellsWalk

namespace TableStore

variable (store : TableStore)

/-- `scan_table_range_cells`: the batch, and the pages that were read for it. -/
def scanTableRangeCells (depth root : Nat) (start stop : Int64) (budget maxBytes : Nat) :
    Except Halt (CellsWalk × List Nat) :=
  let walk : WalkM CellsWalk Bool :=
    store.walk "scan_cells" (visitFrom start stop CellsWalk.visit) (childrenFrom start) depth root
  match walk ⟨CellsWalk.start budget maxBytes, []⟩ with
  | .ok _ after => .ok (after.visitor, after.reads)
  | .error halt _ => .error halt

/-- Batches until one hits the end of the range or stops at an overflow cell; each is resumed
behind the last row of the one before it. The answer tells whether a cell stopped them. -/
def resumedBatches (depth root : Nat) (stop : Int64) (budget maxBytes : Nat) :
    Nat → Int64 → Except Halt (List (Int64 × List UInt8) × Bool × List Nat)
  | 0, _ => .error .exhausted
  | rounds + 1, start => do
    let (batch, reads) ← store.scanTableRangeCells depth root start stop budget maxBytes
    if batch.hitEnd || batch.overflowStop then .ok (batch.rows, batch.overflowStop, reads)
    else do
      let (rows, met, more) ← resumedBatches depth root stop budget maxBytes rounds (batch.last + 1)
      .ok (batch.rows ++ rows, met, reads ++ more)

end TableStore

section Leaves

variable {σ : Type}

theorem visitAll_guarded (start : Int64) (visit : Visit σ) (state : σ) (cells : List LeafCell) :
    visitAll (TableStore.guarded start visit) state cells =
      visitAll visit state (cells.filter (fun cell => start ≤ cell.rowid)) := by
  induction cells generalizing state with
  | nil => rfl
  | cons cell rest ih =>
    rw [visitAll, TableStore.guarded, List.filter_cons]
    by_cases inside : start ≤ cell.rowid
    · rw [if_pos inside, if_pos (decide_eq_true inside), visitAll]
      cases visited : visit state cell with
      | error error => rfl
      | ok answer =>
        simp only [bind, Except.bind]
        split
        · exact ih _
        · rfl
    · rw [if_neg inside, if_neg (by simpa using inside)]
      simpa [bind, Except.bind] using ih state

/-- The loop visits what is not past `stop`, and stops there or with the visitor. -/
theorem visitUpTo_sound {stop : Int64} {visit : Visit σ} (cells : List LeafCell)
    (sorted : cells.Pairwise (fun first second => first.rowid < second.rowid)) (walk : Walk σ)
    (visitor : σ) (go : Bool)
    (visited : visitAll visit walk.visitor (cells.filter (fun cell => cell.rowid ≤ stop)) =
      .ok (visitor, go)) :
    Succeeds (TableStore.visitUpTo stop visit cells) walk (fun more after =>
      after = ⟨visitor, walk.reads⟩ ∧ (go = false → more = false) ∧
        (more = false → go = false ∨ ∃ cell ∈ cells, stop < cell.rowid)) := by
  induction cells generalizing walk with
  | nil =>
    cases visited
    simp only [TableStore.visitUpTo, Succeeds.pure_iff]
    exact ⟨trivial, by simp, by simp⟩
  | cons cell rest ih =>
    obtain ⟨first, sortedRest⟩ := List.pairwise_cons.mp sorted
    simp only [TableStore.visitUpTo, Succeeds.ite_iff, Succeeds.bind_iff, Succeeds.pure_iff]
    refine ⟨fun past => ?_, fun inside => ?_⟩
    · have none : (cell :: rest).filter (fun cell => cell.rowid ≤ stop) = [] := by
        rw [List.filter_eq_nil_iff]
        intro other member
        rcases List.mem_cons.mp member with rfl | later
        · simpa using past
        · simpa using lt_trans past (first other later)
      rw [none] at visited
      cases visited
      exact ⟨rfl, by simp, fun _ => Or.inr ⟨cell, List.mem_cons_self .., past⟩⟩
    · rw [List.filter_cons, if_pos (by simpa using inside), visitAll] at visited
      cases answered : visit walk.visitor cell with
      | error error =>
        rw [answered] at visited
        cases visited
      | ok answer =>
        obtain ⟨next, goes⟩ := answer
        have single : visitAll visit walk.visitor [cell] = .ok (next, goes) := by
          rw [visitAll, answered]
          cases goes <;> rfl
        refine ⟨goes, ⟨next, walk.reads⟩, by rw [visitCells, single], ?_⟩
        simp only [answered, bind, Except.bind] at visited
        cases goes with
        | true =>
          refine ⟨fun _ => ?_, fun halted => absurd rfl halted⟩
          apply (ih sortedRest ⟨next, walk.reads⟩ (by simpa using visited)).mono
          rintro more after ⟨same, stops, because⟩
          refine ⟨same, stops, fun none => ?_⟩
          exact (because none).imp_right fun ⟨other, member, past⟩ =>
            ⟨other, List.mem_cons_of_mem _ member, past⟩
        | false =>
          cases visited
          exact ⟨by simp, fun _ => ⟨rfl, fun _ => trivial, fun _ => Or.inl rfl⟩⟩

theorem rowid_cut {start : Int64} {cells : List LeafCell}
    (sorted : cells.Pairwise (fun first second => first.rowid < second.rowid)) :
    Cut (fun cell : LeafCell => cell.rowid < start) cells := by
  apply sorted.imp
  intro first second before holds
  simp only [decide_eq_true_eq] at holds ⊢
  exact lt_trans before holds

/-- Behind the search everything is at or above `start`. -/
theorem drop_rowid {start : Int64} (cells : List LeafCell)
    (sorted : cells.Pairwise (fun first second => first.rowid < second.rowid)) :
    cells.drop (partitionPoint (fun cell => cell.rowid < start) cells) =
      cells.filter (fun cell => start ≤ cell.rowid) := by
  rw [(drop_partitionPoint (rowid_cut sorted)).1, (rowid_cut sorted).dropWhile_eq]
  apply List.filter_congr
  intro cell _
  rw [Bool.eq_iff_iff]
  simp

theorem Span.contains_iff {start stop rowid : Int64} :
    (⟨some start, some stop⟩ : Span).contains rowid = true ↔ start ≤ rowid ∧ rowid ≤ stop := by
  simp [Span.contains, Span.before, Span.past]

theorem Span.cells_eq (start stop : Int64) (cells : List LeafCell) :
    (⟨some start, some stop⟩ : Span).cells cells =
      (cells.filter (fun cell => start ≤ cell.rowid)).filter (fun cell => cell.rowid ≤ stop) := by
  rw [Span.cells, List.filter_filter]
  apply List.filter_congr
  intro cell _
  rw [Bool.eq_iff_iff, Span.contains_iff]
  simp [and_comm]

theorem Span.past_iff {start stop rowid : Int64} :
    (⟨some start, some stop⟩ : Span).past rowid = true ↔ stop < rowid := by
  simp [Span.past]

theorem visitFrom_sound (start stop : Int64) (visit : Visit σ) :
    LeafSound ⟨some start, some stop⟩ visit (TableStore.visitFrom start stop visit) := by
  intro cells sorted walk visitor go visited
  rw [TableStore.visitFrom, drop_rowid _ sorted]
  rw [Span.cells_eq] at visited
  apply (visitUpTo_sound _ (sorted.filter _) walk visitor go visited).mono
  rintro more after ⟨same, stops, because⟩
  refine ⟨same, stops, fun none => (because none).imp_right fun ⟨cell, member, past⟩ => ?_⟩
  exact ⟨cell, (List.mem_filter.mp member).1, Span.past_iff.mpr past⟩

theorem visitAll_inside {start stop : Int64} (visit : Visit σ) (state : σ)
    (cells : List LeafCell) :
    visitAll (TableStore.guarded start visit) state
        ((⟨some start, some stop⟩ : Span).cells cells) =
      visitAll visit state ((⟨some start, some stop⟩ : Span).cells cells) := by
  rw [visitAll_guarded, Span.cells, List.filter_filter]
  congr 1
  apply List.filter_congr
  intro cell _
  rw [Bool.eq_iff_iff, Bool.and_eq_true, decide_eq_true_eq, Span.contains_iff]
  exact ⟨fun both => both.2, fun inside => ⟨inside.1, inside⟩⟩

theorem visitFrom_guarded_sound (start stop : Int64) (visit : Visit σ) :
    LeafSound ⟨some start, some stop⟩ visit
      (TableStore.visitFrom start stop (TableStore.guarded start visit)) := by
  intro cells sorted walk visitor go visited
  apply visitFrom_sound start stop _ cells sorted walk visitor go
  rwa [visitAll_inside]

theorem visitCells_sound (visit : Visit σ) : LeafSound Span.full visit (visitCells visit) := by
  intro cells _ walk visitor go visited
  have all : Span.full.cells cells = cells := by
    rw [Span.cells, List.filter_eq_self]
    exact fun _ _ => rfl
  rw [all] at visited
  refine ⟨go, ⟨visitor, walk.reads⟩, by rw [visitCells, visited], rfl, fun stopped => stopped,
    fun stopped => Or.inl stopped⟩

theorem copyRange_eq (start stop : Int64) (cells : List LeafCell)
    (sorted : cells.Pairwise (fun first second => first.rowid < second.rowid)) :
    TableStore.copyRange start stop cells =
      ((⟨some start, some stop⟩ : Span).cells cells, cells.any (fun cell => stop < cell.rowid)) := by
  induction cells with
  | nil => rfl
  | cons cell rest ih =>
    obtain ⟨first, sortedRest⟩ := List.pairwise_cons.mp sorted
    rw [TableStore.copyRange]
    by_cases past : stop < cell.rowid
    · have none := Span.cells_past (Span.past_iff.mpr past : (⟨some start, some stop⟩ : Span).past _
        = true) first
      have outside : ¬ (⟨some start, some stop⟩ : Span).contains cell.rowid = true := by
        rw [Span.contains_iff]
        exact fun inside => absurd inside.2 (not_le.mpr past)
      rw [Span.cells] at none
      rw [if_pos past, Span.cells, List.filter_cons, if_neg outside, none, List.any_cons,
        decide_eq_true past, Bool.true_or]
    · rw [if_neg past, ih sortedRest, Span.cells, Span.cells, List.filter_cons, List.any_cons]
      have front : decide (stop < cell.rowid) = false := by simpa using past
      rw [front, Bool.false_or]
      by_cases inside : start ≤ cell.rowid
      · simp only [if_pos inside, if_pos (Span.contains_iff.mpr ⟨inside, not_lt.mp past⟩)]
      · have outside : ¬ (⟨some start, some stop⟩ : Span).contains cell.rowid = true := by
          rw [Span.contains_iff]
          exact fun both => inside both.1
        simp only [if_neg inside, if_neg outside]

end Leaves

section Children

theorem allChildren_sound (span : Span) :
    ChildrenSound span SearchForest.Named TableStore.allChildren := by
  refine ⟨fun _ => false, by simp, by simp, ?_⟩
  intro low high forest named _
  rw [SearchForest.skip_none, SearchForest.ids_eq forest named]
  rfl

theorem key_cut {start : Int64} {low high : Option Int64} {forest : TableForest}
    (ordered : forest.Ordered LeafCell.rowid low high) :
    Cut (fun cell : Nat × Int64 => decide (cell.2 < start)) forest.cells := by
  apply (SearchForest.Ordered.cells_sorted forest ordered).1.imp
  intro first second before holds
  simp only [decide_eq_true_eq] at holds ⊢
  exact lt_trans before holds

theorem childrenFrom_sound (start stop : Int64) :
    ChildrenSound ⟨some start, some stop⟩ SearchForest.Named (TableStore.childrenFrom start) := by
  refine ⟨fun sep => sep < start, ?_, ?_, ?_⟩
  · intro k k' le before
    simp only [decide_eq_true_eq] at before ⊢
    exact lt_of_le_of_lt le before
  · intro k before
    rw [Bool.eq_false_iff, ne_eq, Span.contains_iff]
    simp only [decide_eq_true_eq] at before
    exact fun inside => absurd inside.1 (not_le.mpr before)
  · intro low high forest named ordered
    rw [TableStore.childrenFrom, (drop_partitionPoint (key_cut ordered)).1,
      SearchForest.ids_eq _ named.skip, SearchForest.cells_skip, SearchForest.right_skip]

/-- Where the right-most child is there, page 0 is not one of them. -/
theorem scanTableRange_children (start stop : Int64) :
    ChildrenSound ⟨some start, some stop⟩ (fun forest => forest.Named ∧ forest.right ≠ 0)
      (fun cells right => ((cells ++ [(right, Int64.maxValue)]).filter
        (fun cell => !decide (cell.2 < start))).map Prod.fst) := by
  obtain ⟨test, front, outside, same⟩ := childrenFrom_sound start stop
  refine ⟨test, front, outside, fun low high forest shape ordered => ?_⟩
  rw [← same low high forest shape.1 ordered, TableStore.childrenFrom,
    (drop_partitionPoint (key_cut ordered)).1, (key_cut ordered).dropWhile_eq, if_neg shape.2]
  have largest : ¬ Int64.maxValue < start := by
    rw [Int64.lt_iff_toInt_lt]
    have := start.toInt_le
    simp
    omega
  simp [List.filter_append, largest]

end Children

/-- A search tree on the pages of the store. -/
structure TableStore.Hosts (store : TableStore) (tree : TableTree) : Prop where
  laid : store.Laid tree
  named : tree.Every SearchForest.Named
  ordered : tree.Ordered LeafCell.rowid none none

/-- Two leaves under a root. -/
def smallTree : TableTree :=
  .node 2 (.cons (.leaf 3 [.row 1 [10], .row 2 [20]]) 2 (.last (.leaf 4 [.row 5 [50]])))

def smallStore : TableStore where
  page
    | 2 => .ok (.interior [(3, 2)] 4)
    | 3 => .ok (.leaf [.row 1 [10], .row 2 [20]])
    | 4 => .ok (.leaf [.row 5 [50]])
    | _ => .error (.corruption "page out of range")
  assemble _ _ _ := .error (.corruption "no overflow page")

theorem smallStore_hosts : smallStore.Hosts smallTree where
  laid := ⟨rfl, rfl, rfl⟩
  named := by simp [smallTree, SearchTree.Every, SearchForest.Every, SearchForest.Named,
    SearchForest.trees, SearchTree.id]
  ordered := by
    simp [smallTree, SearchTree.Ordered, SearchForest.Ordered, Within, LeafCell.rowid,
      LeafCell.row, Cell.key]

/-- The read visits the cells of the span in order, up to the first at which the visitor stops,
and reads no page outside the tree. -/
def Visits (span : Span) (tree : TableTree) (visit : Visit σ) (read : WalkM σ Bool) : Prop :=
  ∀ state visitor go, visitAll visit state (span.cells tree.entries) = .ok (visitor, go) →
    Succeeds read ⟨state, []⟩ (fun _ after =>
      after.visitor = visitor ∧ ∀ id ∈ after.reads, id ∈ tree.pages)

section Reads

variable {σ : Type} {store : TableStore} {tree : TableTree} {depth : Nat}

theorem TableStore.walk_visits {span : Span} {visit : Visit σ} {name : String}
    {leaf : List LeafCell → WalkM σ Bool} {children : List (Nat × Int64) → Nat → List Nat}
    {shape : TableForest → Prop} (leaves : LeafSound span visit leaf)
    (picks : ChildrenSound span shape children) (hosts : store.Hosts tree)
    (every : tree.Every shape) (enough : tree.height < depth) :
    Visits span tree visit (store.walk name leaf children depth tree.id) := by
  intro state visitor go visited
  apply (store.walk_walked leaves picks depth tree hosts.laid every hosts.ordered enough
    ⟨state, []⟩ visitor go visited).mono
  rintro more after ⟨reached, reads, -, -⟩
  exact ⟨reached, fun id member => (reads id member).resolve_left (by simp)⟩

variable (hosts : store.Hosts tree) (enough : tree.height < depth)

include hosts enough

theorem scanTable_visits (f : σ → Int64 → List UInt8 → σ × Bool) :
    Visits Span.full tree (store.visitPayload f) (store.scanTable depth tree.id f) :=
  TableStore.walk_visits (visitCells_sound _) (allChildren_sound _) hosts hosts.named enough

theorem scanTableRangeBorrowedOpts_visits (start stop : Int64)
    (f : σ → Int64 → List UInt8 → σ × Bool) (mayReenter : Bool) :
    Visits ⟨some start, some stop⟩ tree (store.visitPayload f)
      (store.scanTableRangeBorrowedOpts start stop f mayReenter depth tree.id) := by
  cases mayReenter with
  | false =>
    exact TableStore.walk_visits (visitFrom_guarded_sound start stop _)
      (childrenFrom_sound start stop) hosts hosts.named enough
  | true =>
    refine TableStore.walk_visits ?_ (allChildren_sound _) hosts hosts.named enough
    intro cells sorted walk visitor go visited
    have inside := sorted.filter (fun cell => start ≤ cell.rowid)
    have again : (⟨some start, some stop⟩ : Span).cells
        (cells.filter (fun cell => start ≤ cell.rowid)) =
          (⟨some start, some stop⟩ : Span).cells cells := by
      rw [Span.cells_eq, Span.cells_eq, List.filter_filter]
      simp
    simp only [drop_rowid _ sorted, copyRange_eq start stop _ inside, again, Succeeds.bind_iff,
      Succeeds.pure_iff]
    refine ⟨go, ⟨visitor, walk.reads⟩, by rw [visitCells, visited], rfl, ?_, ?_⟩
    · rintro rfl
      rfl
    · intro halted
      cases go with
      | false => exact Or.inl rfl
      | true =>
        refine Or.inr ?_
        simp only [Bool.true_and, Bool.not_eq_false', List.any_eq_true, decide_eq_true_eq] at halted
        obtain ⟨cell, member, past⟩ := halted
        exact ⟨cell, (List.mem_filter.mp member).1, Span.past_iff.mpr past⟩

theorem scanTableRangeSelective_visits {ρ : Type} (decode : LeafCell → Except Error ρ)
    (start stop : Int64) (f : σ → Int64 → ρ → σ × Bool) :
    Visits ⟨some start, some stop⟩ tree (TableStore.visitRow decode f)
      (store.scanTableRangeSelective decode start stop f depth tree.id) :=
  TableStore.walk_visits (visitFrom_sound start stop _) (childrenFrom_sound start stop) hosts
    hosts.named enough

omit hosts enough in
theorem visitAll_goes {visit : Visit σ} (goes : ∀ state cell out, visit state cell = .ok out →
    out.2 = true) {state visitor : σ} {cells : List LeafCell} {go : Bool}
    (visited : visitAll visit state cells = .ok (visitor, go)) : go = true := by
  induction cells generalizing state with
  | nil =>
    cases visited
    rfl
  | cons cell rest ih =>
    rw [visitAll] at visited
    cases answered : visit state cell with
    | error error =>
      rw [answered] at visited
      cases visited
    | ok answer =>
      have on := goes _ _ _ answered
      simp only [answered, bind, Except.bind, on, if_true] at visited
      exact ih visited

/-- `scan_table_range` where no visitor stops and no right-most child is missing. -/
theorem scanTableRange_visits (start stop : Int64) (f : σ → Int64 → List UInt8 → σ × Bool)
    (goes : ∀ state rowid payload, (f state rowid payload).2 = true)
    (every : tree.Every (fun forest => forest.Named ∧ forest.right ≠ 0)) :
    Visits ⟨some start, some stop⟩ tree (store.visitPayload f)
      (store.scanTableRange start stop f depth tree.id) := by
  refine TableStore.walk_visits ?_ (scanTableRange_children start stop) hosts every enough
  intro cells sorted walk visitor go visited
  have on : go = true := by
    apply visitAll_goes _ visited
    intro state cell out answered
    unfold TableStore.visitPayload at answered
    cases found : store.payload cell with
    | error error =>
      rw [found] at answered
      cases answered
    | ok payload =>
      rw [found] at answered
      cases answered
      exact goes _ _ _
  have all : visitAll (TableStore.guarded start (store.visitPayload f)) walk.visitor
      (cells.filter (fun cell => cell.rowid ≤ stop)) = .ok (visitor, go) := by
    rw [visitAll_guarded, List.filter_comm]
    rwa [Span.cells_eq] at visited
  simp only [Succeeds.bind_iff, Succeeds.pure_iff]
  apply (visitUpTo_sound cells sorted walk visitor go all).mono
  rintro more after ⟨same, -, -⟩
  exact ⟨same, fun halted => absurd halted (by simp [on]), by simp⟩

end Reads

section Counts

variable {σ : Type} {store : TableStore} {start stop : Int64}

omit store in
theorem span_split (order : start ≤ stop) (cells : List LeafCell) :
    (cells.filter (fun cell => cell.rowid ≤ stop)).length =
      (cells.filter (fun cell => cell.rowid < start)).length +
        ((⟨some start, some stop⟩ : Span).cells cells).length := by
  induction cells with
  | nil => rfl
  | cons cell rest ih =>
    rw [Span.cells] at ih ⊢
    rcases lt_or_ge cell.rowid start with front | from_
    · have low := le_trans (le_of_lt front) order
      have outside : ¬ (⟨some start, some stop⟩ : Span).contains cell.rowid = true := by
        rw [Span.contains_iff]
        exact fun inside => absurd inside.1 (not_le.mpr front)
      rw [List.filter_cons, if_pos (decide_eq_true low), List.filter_cons,
        if_pos (decide_eq_true front), List.filter_cons, if_neg outside, List.length_cons,
        List.length_cons, ih]
      omega
    · have notFront : ¬ decide (cell.rowid < start) = true := by simpa using from_
      rw [List.filter_cons, List.filter_cons, if_neg notFront, List.filter_cons]
      by_cases low : cell.rowid ≤ stop
      · rw [if_pos (decide_eq_true low), if_pos (Span.contains_iff.mpr ⟨from_, low⟩),
          List.length_cons, List.length_cons, ih]
        omega
      · have outside : ¬ (⟨some start, some stop⟩ : Span).contains cell.rowid = true := by
          rw [Span.contains_iff]
          exact fun inside => low inside.2
        rw [if_neg (by simpa using low), if_neg outside, ih]

theorem searchLoop_cells {test : LeafCell → Bool} {cells : List LeafCell} (cut : Cut test cells)
    (lo : Nat) (within : lo ≤ cells.length) (below : ∀ i < lo, testAt test cells i = true) :
    (∀ i < searchLoop (testAt test cells) cells.length lo cells.length,
      testAt test cells i = true) ∧
    (cells.filter test).length = searchLoop (testAt test cells) cells.length lo cells.length := by
  obtain ⟨holds, fails⟩ := searchLoop_boundary cut.testAt cells.length lo cells.length
    (Nat.sub_le _ _) within below (fun i outside => by
      rw [testAt, List.getElem?_eq_none outside, Option.any_none])
  exact ⟨holds, count_of_boundary _ holds fails⟩

/-- The span between two binary searches. -/
theorem count_leaf (order : start ≤ stop) (cells : List LeafCell)
    (sorted : cells.Pairwise (fun first second => first.rowid < second.rowid)) :
    searchLoop (testAt (fun cell => cell.rowid ≤ stop) cells) cells.length
        (partitionPoint (fun cell => cell.rowid < start) cells) cells.length -
      partitionPoint (fun cell => cell.rowid < start) cells =
        ((⟨some start, some stop⟩ : Span).cells cells).length := by
  have cutStop : Cut (fun cell : LeafCell => cell.rowid ≤ stop) cells := by
    apply sorted.imp
    intro first second before holds
    simp only [decide_eq_true_eq] at holds ⊢
    exact le_trans (le_of_lt before) holds
  obtain ⟨below, count⟩ := searchLoop_cells (@rowid_cut start _ sorted) 0 (Nat.zero_le _)
    (by simp)
  rw [← partitionPoint] at below count
  have within : partitionPoint (fun cell => cell.rowid < start) cells ≤ cells.length :=
    count ▸ List.length_filter_le _ _
  obtain ⟨-, total⟩ := searchLoop_cells cutStop _ within (fun i inside => by
    have before := below i inside
    unfold testAt at before ⊢
    cases found : cells[i]? with
    | none => simp [found] at before
    | some cell =>
      simp only [found, Option.any_some, decide_eq_true_eq] at before ⊢
      exact le_trans (le_of_lt before) order)
  rw [← total, span_split order, count]
  omega

theorem countChildren_eq : (forest : TableForest) → forest.Named →
    TableStore.countChildren stop forest.right forest.cells =
      (forest.upTo (fun sep => stop ≤ sep)).map SearchTree.id
  | .nil, _ => rfl
  | .last tree, named => if_neg (named tree (List.mem_singleton_self _))
  | .cons tree sep rest, named => by
    have later := countChildren_eq rest
      fun child member => named child (List.mem_cons_of_mem _ member)
    rw [SearchForest.cells, SearchForest.right, TableStore.countChildren, SearchForest.upTo,
      List.map_cons, later]
    simp only [decide_eq_true_eq]
    split <;> rfl

/-- What a count over `entries` on `pages` leaves behind. -/
structure Counted (span : Span) (entries : List LeafCell) (pages : List Nat) (walk : Walk σ)
    (count : Nat) (after : Walk σ) : Prop where
  count : count = (span.cells entries).length
  visitor : after.visitor = walk.visitor
  reads : ∀ id ∈ after.reads, id ∈ walk.reads ∨ id ∈ pages

theorem sumCounts_counted {span : Span} {count : Nat → WalkM σ Nat} (trees : List TableTree)
    (counts : ∀ tree ∈ trees, ∀ walk : Walk σ,
      Succeeds (count tree.id) walk (Counted span tree.entries tree.pages walk))
    (walk : Walk σ) :
    Succeeds (TableStore.sumCounts count (trees.map SearchTree.id)) walk
      (Counted span (trees.flatMap SearchTree.entries) (trees.flatMap SearchTree.pages) walk) := by
  induction trees generalizing walk with
  | nil =>
    simp only [List.map_nil, TableStore.sumCounts, Succeeds.pure_iff]
    exact ⟨rfl, rfl, fun id member => Or.inl member⟩
  | cons tree rest ih =>
    simp only [List.map_cons, TableStore.sumCounts, Succeeds.bind_iff, Succeeds.pure_iff,
      List.flatMap_cons]
    apply (counts tree (List.mem_cons_self ..) walk).mono
    rintro first middle ⟨counted, kept, reads⟩
    apply (ih (fun other member => counts other (List.mem_cons_of_mem _ member)) middle).mono
    rintro later after ⟨countedLater, keptLater, readsLater⟩
    refine ⟨?_, keptLater.trans kept, fun id member => ?_⟩
    · rw [counted, countedLater, Span.cells, Span.cells, Span.cells, List.filter_append,
        List.length_append]
    · rcases readsLater id member with before | inside
      · exact (reads id before).imp_right (List.mem_append_left _)
      · exact Or.inr (List.mem_append_right _ inside)

/-- A count counts the cells of the span, and reads no page outside the tree. -/
theorem countRangeSubtree_counted (order : start ≤ stop) (depth : Nat) (tree : TableTree)
    (laid : store.Laid tree) (named : tree.Every SearchForest.Named) {low high : Option Int64}
    (ordered : tree.Ordered LeafCell.rowid low high) (enough : tree.height < depth)
    (walk : Walk σ) :
    Succeeds (store.countRangeSubtree start stop depth tree.id) walk
      (Counted ⟨some start, some stop⟩ tree.entries tree.pages walk) := by
  induction depth generalizing tree low high walk with
  | zero => cases enough
  | succ depth ih =>
    have fetched (page : TablePage) (found : store.page tree.id = .ok page)
        (post : TablePage → Walk σ → Prop) (holds : post page ⟨walk.visitor, tree.id :: walk.reads⟩) :
        Succeeds (store.fetch tree.id) walk post :=
      ⟨page, _, by rw [TableStore.fetch, found], holds⟩
    rw [TableStore.countRangeSubtree, Succeeds.bind_iff]
    cases tree with
    | leaf id entries =>
      apply fetched _ laid
      simp only [count_leaf order entries ordered.1, Succeeds.pure_iff]
      refine ⟨rfl, rfl, fun page member => ?_⟩
      rcases List.mem_cons.mp member with rfl | old
      · exact Or.inr (List.mem_singleton_self _)
      · exact Or.inl old
    | node id children =>
      apply fetched _ laid.1
      have front (k k' : Int64) (le : k ≤ k') (before : decide (k' < start) = true) :
          decide (k < start) = true := by
        simp only [decide_eq_true_eq] at before ⊢
        exact lt_of_le_of_lt le before
      have outside (entry : LeafCell) (before : decide (entry.rowid < start) = true) :
          (⟨some start, some stop⟩ : Span).contains entry.rowid = false := by
        rw [Bool.eq_false_iff, ne_eq, Span.contains_iff]
        simp only [decide_eq_true_eq] at before
        exact fun inside => absurd inside.1 (not_le.mpr before)
      have behind (entry : LeafCell) (sep : Int64) (reached : decide (stop ≤ sep) = true)
          (above : sep < entry.rowid) :
          (⟨some start, some stop⟩ : Span).contains entry.rowid = false := by
        rw [Bool.eq_false_iff, ne_eq, Span.contains_iff]
        simp only [decide_eq_true_eq] at reached
        exact fun inside => absurd (lt_of_le_of_lt reached above) (not_lt.mpr inside.2)
      obtain ⟨⟨least, kept⟩, wanted⟩ := SearchForest.Ordered.skip front outside children ordered
      have upTo := SearchForest.Ordered.upTo behind _ kept
      have inside : ∀ child ∈ (children.skip (fun sep => decide (sep < start))).upTo
          (fun sep => decide (stop ≤ sep)), child ∈ children.trees := fun child member =>
        (SearchForest.trees_skip _ children).subset
          ((SearchForest.upTo_trees _ _).subset member)
      have picked : TableStore.countChildren stop children.right (children.cells.drop
          (partitionPoint (fun cell => cell.2 < start) children.cells)) =
            ((children.skip (fun sep => decide (sep < start))).upTo
              (fun sep => decide (stop ≤ sep))).map SearchTree.id := by
        rw [← countChildren_eq _ (SearchForest.Named.skip named.1), SearchForest.cells_skip,
          SearchForest.right_skip, (drop_partitionPoint (key_cut ordered)).1]
      simp only [picked]
      apply (sumCounts_counted _ (fun child member => ?_) ⟨walk.visitor, id :: walk.reads⟩).mono
      · rintro count after ⟨counted, unchanged, reads⟩
        refine ⟨?_, unchanged, fun page member => ?_⟩
        · rw [counted, Span.cells, upTo, wanted]
          rfl
        · rcases reads page member with old | below
          · rcases List.mem_cons.mp old with rfl | known
            · exact Or.inr (List.mem_cons_self ..)
            · exact Or.inl known
          · refine Or.inr (List.mem_cons_of_mem _ ?_)
            obtain ⟨child, member, within⟩ := List.mem_flatMap.mp below
            rw [SearchForest.pages_eq]
            exact List.mem_flatMap.mpr ⟨child, inside child member, within⟩
      · have member := inside child member
        obtain ⟨_, _, orderedChild⟩ := SearchForest.Ordered.trees children ordered child member
        have shorter := SearchForest.height_le children child member
        rw [SearchTree.height] at enough
        exact ih child (TableStore.LaidForest.trees children laid.2 child member)
          (SearchForest.Every.trees children named.2 child member) orderedChild (by omega)

end Counts

end RustSql.Storage
