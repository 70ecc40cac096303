import RustSql.Storage.RangeReads

/-! Bulk updates: one walk over the leaves and a sorted list of updates. -/

namespace RustSql.Storage

open RustSql.Foundation

/-- An update with its index in the list of updates. -/
structure BulkUpdate where
  index : Nat
  rowid : Int64
  payload : List UInt8

def bulkUpdates (updates : List (Int64 × List UInt8)) : List BulkUpdate :=
  updates.zipIdx.map fun entry => ⟨entry.2, entry.1.1, entry.1.2⟩

/-- The row can be overwritten in place: the old payload is on the page and of the same length. -/
def LeafCell.fits (cell : LeafCell) (payload : List UInt8) : Bool :=
  match cell.1 with
  | .tableLeaf _ old => old.length == payload.length
  | _ => false

/-- The merge of the cells of a leaf with the pending updates: the cells behind it, the updates
that are left, and the indices of those that were deferred. -/
def mergeLeaf : List LeafCell → List BulkUpdate → List LeafCell × List BulkUpdate × List Nat
  | [], pending => ([], pending, [])
  | cells, [] => (cells, [], [])
  | cell :: cells, update :: pending =>
    if cell.rowid < update.rowid then
      let (rest, left, deferred) := mergeLeaf cells (update :: pending)
      (cell :: rest, left, deferred)
    else if update.rowid < cell.rowid then
      let (rest, left, deferred) := mergeLeaf (cell :: cells) pending
      (rest, left, update.index :: deferred)
    else
      let (rest, left, deferred) := mergeLeaf cells pending
      if cell.fits update.payload then (.row cell.rowid update.payload :: rest, left, deferred)
      else (cell :: rest, left, update.index :: deferred)
termination_by cells pending => cells.length + pending.length

/-- The table, the updates from `ui` on, and the indices that were pushed to `deferred`. -/
structure BulkState where
  store : TableStore
  pending : List BulkUpdate
  deferred : List Nat

abbrev BulkM := EStateM Halt BulkState

def BulkState.setLeaf (state : BulkState) (id : Nat) (cells : List LeafCell) : TableStore where
  page page := if page = id then .ok (.leaf cells) else state.store.page page
  assemble := state.store.assemble

def fetchBulk (id : Nat) : BulkM TablePage := fun state =>
  match state.store.page id with
  | .ok page => .ok page state
  | .error error => .error (.raised error) state

/-- Children in order, until no update is pending. -/
def sweepChildren (step : Nat → BulkM Unit) : List Nat → BulkM Unit
  | [] => return ()
  | child :: rest => do
    let state ← get
    if state.pending.isEmpty then return ()
    else
      step child
      sweepChildren step rest

/-- `update_table_bulk_subtree`; the first argument bounds the depth. -/
def updateTableBulkSubtree : Nat → Nat → BulkM Unit
  | 0, _ => throw .exhausted
  | depth + 1, id => do
    let state ← get
    match state.pending with
    | [] => return ()
    | update :: later => do
      let page ← fetchBulk id
      match page with
      | .leaf cells =>
        let lo := partitionPoint (fun cell => cell.rowid < update.rowid) cells
        let (merged, left, deferred) := mergeLeaf (cells.drop lo) (update :: later)
        modify fun state => ⟨state.setLeaf id (cells.take lo ++ merged), left,
          state.deferred ++ deferred⟩
      | .interior cells right =>
        let lo := partitionPoint (fun cell => cell.2 < update.rowid) cells
        let children := (cells.drop lo).map Prod.fst
        sweepChildren (updateTableBulkSubtree depth)
          ((if later.isEmpty then children.take 1 else children) ++
            if right = 0 then [] else [right])
      | .other _ => return ()

/-- `update_table_bulk`. -/
def TableStore.updateTableBulk (store : TableStore) (depth root : Nat)
    (updates : List (Int64 × List UInt8)) : EStateM.Result Halt BulkState Unit :=
  updateTableBulkSubtree depth root ⟨store, bulkUpdates updates, []⟩

/-- The row that the updates make of a cell. -/
def patch (updates : List BulkUpdate) (cell : LeafCell) : LeafCell :=
  match updates.find? (fun update => update.rowid = cell.rowid) with
  | some update => if cell.fits update.payload then .row cell.rowid update.payload else cell
  | none => cell

/-- An update above all entries. -/
def BulkUpdate.above (entries : List LeafCell) (update : BulkUpdate) : Bool :=
  entries.all (fun entry => entry.rowid < update.rowid)

/-- An update that fits one of the entries. -/
def BulkUpdate.fitsIn (entries : List LeafCell) (update : BulkUpdate) : Bool :=
  entries.any (fun entry => entry.rowid == update.rowid && entry.fits update.payload)

/-- The indices of the updates that fit no entry. -/
def misfits (entries : List LeafCell) (updates : List BulkUpdate) : List Nat :=
  (updates.filter (fun update => !update.fitsIn entries)).map BulkUpdate.index

variable {updates : List BulkUpdate} {cell : LeafCell}

theorem patch_idle (idle : ∀ update ∈ updates, update.rowid ≠ cell.rowid) :
    patch updates cell = cell := by
  have none : updates.find? (fun update => update.rowid = cell.rowid) = none := by
    rw [List.find?_eq_none]
    intro update member
    simpa using idle update member
  rw [patch, none]

theorem patch_rowid (updates : List BulkUpdate) (cell : LeafCell) :
    (patch updates cell).rowid = cell.rowid := by
  unfold patch
  split
  · split <;> rfl
  · rfl

theorem patch_append {front back : List BulkUpdate}
    (idle : ∀ update ∈ front, update.rowid ≠ cell.rowid) :
    patch (front ++ back) cell = patch back cell := by
  have none : front.find? (fun update => update.rowid = cell.rowid) = none := by
    rw [List.find?_eq_none]
    intro update member
    simpa using idle update member
  rw [patch, patch, List.find?_append, none, Option.none_or]

variable {update : BulkUpdate} {pending : List BulkUpdate}

theorem patch_cons_ne (differ : update.rowid ≠ cell.rowid) :
    patch (update :: pending) cell = patch pending cell := by
  apply @patch_append cell [update]
  intro other member
  rwa [List.mem_singleton.mp member]

theorem patch_cons_eq (same : update.rowid = cell.rowid) :
    patch (update :: pending) cell =
      if cell.fits update.payload then .row cell.rowid update.payload else cell := by
  rw [patch, List.find?_cons_of_pos (by simpa using same)]

variable {cells : List LeafCell}

theorem fitsIn_cons_ne (differ : update.rowid ≠ cell.rowid) :
    update.fitsIn (cell :: cells) = update.fitsIn cells := by
  have other : (cell.rowid == update.rowid) = false := by simpa using differ.symm
  rw [BulkUpdate.fitsIn, List.any_cons, other, Bool.false_and, Bool.false_or]
  rfl

theorem above_cons_lt (before : cell.rowid < update.rowid) :
    update.above (cell :: cells) = update.above cells := by
  rw [BulkUpdate.above, List.all_cons, decide_eq_true before, Bool.true_and]
  rfl

theorem above_cons_le (after : update.rowid ≤ cell.rowid) : update.above (cell :: cells) = false := by
  rw [BulkUpdate.above, List.all_cons, decide_eq_false (not_lt.mpr after), Bool.false_and]

/-- A cell in front of all updates plays no part in a merge. -/
theorem misfits_cons_ne (differ : ∀ update ∈ updates, update.rowid ≠ cell.rowid) :
    misfits (cell :: cells) updates = misfits cells updates := by
  rw [misfits, misfits]
  congr 1
  apply List.filter_congr
  intro update member
  rw [fitsIn_cons_ne (differ update member)]

theorem misfits_none {entries : List LeafCell} (misses : update.fitsIn entries = false) :
    misfits entries (update :: updates) = update.index :: misfits entries updates := by
  rw [misfits, List.filter_cons_of_pos (by simpa using misses)]
  rfl

theorem misfits_fit {entries : List LeafCell} (fits : update.fitsIn entries = true) :
    misfits entries (update :: updates) = misfits entries updates := by
  rw [misfits, List.filter_cons_of_neg (by simpa using fits)]
  rfl

/-- Updates behind the first cell, with and without it. -/
theorem merge_behind (behind : ∀ update ∈ pending, cell.rowid < update.rowid) :
    pending.filter (·.above (cell :: cells)) = pending.filter (·.above cells) ∧
      misfits (cell :: cells) (pending.filter (fun update => !update.above (cell :: cells))) =
        misfits cells (pending.filter (fun update => !update.above cells)) := by
  have same : pending.filter (fun update => !update.above (cell :: cells)) =
      pending.filter (fun update => !update.above cells) := by
    apply List.filter_congr
    intro update member
    rw [above_cons_lt (behind update member)]
  refine ⟨List.filter_congr fun update member => above_cons_lt (behind update member), ?_⟩
  rw [same]
  exact misfits_cons_ne fun update member =>
    ne_of_gt (behind update (List.mem_filter.mp member).1)

/-- An update for the first cell, between the cells and the updates behind it. -/
theorem fitsIn_head (same : update.rowid = cell.rowid)
    (behind : ∀ other ∈ cells, cell.rowid < other.rowid) :
    update.fitsIn (cell :: cells) = cell.fits update.payload := by
  have none : update.fitsIn cells = false := by
    rw [BulkUpdate.fitsIn, List.any_eq_false]
    intro other member
    have differ : (other.rowid == update.rowid) = false := by
      simpa [same] using ne_of_gt (behind other member)
    simp [differ]
  rw [BulkUpdate.fitsIn] at none ⊢
  rw [List.any_cons, none, same]
  simp

/-- An update for the first cell: what it does to the cells and leaves to the updates behind it. -/
theorem merge_met
    (sortedCells : (cell :: cells).Pairwise (fun first second => first.rowid < second.rowid))
    (sortedPending : (update :: pending).Pairwise (fun first second => first.rowid < second.rowid))
    (meets : update.rowid = cell.rowid) :
    pending.filter (·.above (cell :: cells)) = pending.filter (·.above cells) ∧
      misfits (cell :: cells) (pending.filter (fun update => !update.above (cell :: cells))) =
        misfits cells (pending.filter (fun update => !update.above cells)) ∧
      (cell :: cells).map (patch (update :: pending)) =
        (if cell.fits update.payload then .row cell.rowid update.payload else cell) ::
          cells.map (patch pending) := by
  obtain ⟨first, -⟩ := List.pairwise_cons.mp sortedCells
  obtain ⟨second, -⟩ := List.pairwise_cons.mp sortedPending
  obtain ⟨same, missed⟩ := @merge_behind cell pending cells
    (fun other member => meets ▸ second other member)
  refine ⟨same, missed, ?_⟩
  rw [List.map_cons, patch_cons_eq meets]
  congr 1
  apply List.map_congr_left
  intro other member
  exact patch_cons_ne (meets ▸ ne_of_lt (first other member))

/-- The merge patches the cells, leaves the updates above them all, and defers those of the rest
that fit no cell. -/
theorem mergeLeaf_eq (cells : List LeafCell) (pending : List BulkUpdate)
    (sortedCells : cells.Pairwise (fun first second => first.rowid < second.rowid))
    (sortedPending : pending.Pairwise (fun first second => first.rowid < second.rowid)) :
    mergeLeaf cells pending = (cells.map (patch pending), pending.filter (·.above cells),
      misfits cells (pending.filter (fun update => !update.above cells))) := by
  induction cells, pending using mergeLeaf.induct with
  | case1 pending => simp [mergeLeaf, BulkUpdate.above, misfits]
  | case2 cells _ =>
    have all : cells.map (patch []) = cells := List.map_id'' (fun cell => patch_idle (by simp)) _
    simp [mergeLeaf, all, misfits]
  | case3 cell cells update pending before rest left deferred answer ih =>
    obtain ⟨first, sortedRest⟩ := List.pairwise_cons.mp sortedCells
    have behind : ∀ other ∈ update :: pending, cell.rowid < other.rowid := by
      intro other member
      rcases List.mem_cons.mp member with rfl | later
      · exact before
      · exact lt_trans before ((List.pairwise_cons.mp sortedPending).1 other later)
    obtain ⟨same, missed⟩ := @merge_behind cell _ cells behind
    rw [mergeLeaf, if_pos before, ih sortedRest sortedPending, same, missed, List.map_cons,
      patch_idle fun other member => ne_of_gt (behind other member)]
  | case4 cell cells update pending notBefore after rest left deferred answer ih =>
    obtain ⟨first, sortedRest⟩ := List.pairwise_cons.mp sortedPending
    have differ : ∀ other ∈ cell :: cells, update.rowid ≠ other.rowid := by
      intro other member
      rcases List.mem_cons.mp member with rfl | later
      · exact ne_of_lt after
      · exact ne_of_lt (lt_trans after ((List.pairwise_cons.mp sortedCells).1 other later))
    have misses : update.fitsIn (cell :: cells) = false := by
      rw [BulkUpdate.fitsIn, List.any_eq_false]
      intro other member
      have other_ne : (other.rowid == update.rowid) = false := by
        simpa using (differ other member).symm
      simp [other_ne]
    have stays : (cell :: cells).map (patch (update :: pending)) =
        (cell :: cells).map (patch pending) :=
      List.map_congr_left fun other member => patch_cons_ne (differ other member)
    rw [mergeLeaf, if_neg notBefore, if_pos after, ih sortedCells sortedRest, stays,
      List.filter_cons_of_neg (by simp [above_cons_le (le_of_lt after)]),
      List.filter_cons_of_pos (by simp [above_cons_le (le_of_lt after)]), misfits_none misses]
  | case5 cell cells update pending notBefore notAfter rest left deferred answer fits ih =>
    obtain ⟨same, missed, stays⟩ := merge_met sortedCells sortedPending
      (le_antisymm (not_lt.mp notBefore) (not_lt.mp notAfter))
    have met := fitsIn_head (le_antisymm (not_lt.mp notBefore) (not_lt.mp notAfter))
      (List.pairwise_cons.mp sortedCells).1
    rw [mergeLeaf, if_neg notBefore, if_neg notAfter,
      ih (List.pairwise_cons.mp sortedCells).2 (List.pairwise_cons.mp sortedPending).2,
      List.filter_cons_of_neg (by simp [above_cons_le (not_lt.mp notBefore)]),
      List.filter_cons_of_pos (by simp [above_cons_le (not_lt.mp notBefore)]),
      misfits_fit (met.trans fits), same, missed, stays, if_pos fits]
    simp only [if_pos fits]
  | case6 cell cells update pending notBefore notAfter rest left deferred answer misses ih =>
    obtain ⟨same, missed, stays⟩ := merge_met sortedCells sortedPending
      (le_antisymm (not_lt.mp notBefore) (not_lt.mp notAfter))
    have met := fitsIn_head (le_antisymm (not_lt.mp notBefore) (not_lt.mp notAfter))
      (List.pairwise_cons.mp sortedCells).1
    rw [mergeLeaf, if_neg notBefore, if_neg notAfter,
      ih (List.pairwise_cons.mp sortedCells).2 (List.pairwise_cons.mp sortedPending).2,
      List.filter_cons_of_neg (by simp [above_cons_le (not_lt.mp notBefore)]),
      List.filter_cons_of_pos (by simp [above_cons_le (not_lt.mp notBefore)]),
      misfits_none (met.trans (by simpa using misses)), same, missed, stays, if_neg misses]
    simp only [if_neg misses]

/-- Cells in front of all updates stay in front of the merge. -/
theorem mergeLeaf_front {front back : List LeafCell}
    (before : ∀ cell ∈ front, cell.rowid < update.rowid) :
    mergeLeaf (front ++ back) (update :: pending) =
      (front ++ (mergeLeaf back (update :: pending)).1, (mergeLeaf back (update :: pending)).2) := by
  induction front with
  | nil => rfl
  | cons cell rest ih =>
    rw [List.cons_append, mergeLeaf, if_pos (before cell (List.mem_cons_self ..)),
      ih fun other member => before other (List.mem_cons_of_mem _ member)]
    rfl

end RustSql.Storage
