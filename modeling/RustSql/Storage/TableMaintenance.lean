import RustSql.Foundation.GuardedRun
import RustSql.Storage.BulkContract
import RustSql.Storage.BulkDeleteRun
import RustSql.Storage.RangeReads

/-! Bulk deletes and bulk updates of a table, one after the other: what scans find behind them. -/

namespace RustSql.Storage

open RustSql.Foundation

/-- One bulk statement on a table. -/
inductive BulkCall where
  | delete (rowids : List Int64)
  | update (updates : List (Int64 × List UInt8))

namespace BulkCall

/-- The statement on the rows alone. An update that does not fit leaves its row. -/
def rows (cells : List LeafCell) : BulkCall → List LeafCell
  | delete rowids => without rowids cells
  | update updates => cells.map (patch (bulkUpdates updates))

/-- Rowids ascend, and those to delete are there. -/
def Allowed (cells : List LeafCell) : BulkCall → Prop
  | delete rowids => rowids.Pairwise (· < ·) ∧ ∀ rowid ∈ rowids, ∃ cell ∈ cells, cell.rowid = rowid
  | update updates => updates.Pairwise fun first second => first.1 < second.1

/-- The statement on the pages: the store behind it, when it does not halt. -/
def run (garbage : Nat → Except Error TablePage) (depth root : Nat) (store : TableStore) :
    BulkCall → Option TableStore
  | delete rowids =>
    match store.deleteRowidsInorder garbage depth root rowids.length rowids with
    | .ok _ after => some after.store
    | .error _ _ => none
  | update updates =>
    match store.updateTableBulk depth root updates with
    | .ok _ after => some after.store
    | .error _ _ => none

end BulkCall

/-- A tree in a store after some statements: it holds `cells`, on pages of the first tree. -/
structure Maintained (store : TableStore) (first tree : TableTree) (cells : List LeafCell) : Prop where
  hosts : store.Hosts tree
  nodup : tree.pages.Nodup
  id : tree.id = first.id
  height : tree.height ≤ first.height
  within : ∀ page ∈ tree.pages, page ∈ first.pages
  entries : tree.entries = cells

variable {garbage : Nat → Except Error TablePage} {store : TableStore} {first tree : TableTree}
  {cells : List LeafCell} {depth : Nat}

theorem Maintained.step (kept : Maintained store first tree cells) (enough : first.height < depth)
    (call : BulkCall) (allowed : call.Allowed cells) :
    ∃ after left, call.run garbage depth first.id store = some after ∧
      Maintained after first left (call.rows cells) := by
  have deep := Nat.lt_of_le_of_lt kept.height enough
  cases call with
  | delete rowids =>
    obtain ⟨ascending, present⟩ := allowed
    rw [← kept.entries] at present
    have stands : Stands ⟨store, [], []⟩ tree := ⟨kept.hosts, kept.nodup⟩
    obtain ⟨count, after, ran, _, left, done⟩ := @deleteLoop_deletes garbage _ _ _ rowids.length
      rowids ⟨none, Int64.minValue, Int64.maxValue, []⟩ 0 stands deep ascending present
      (fun _ _ => Or.inl rfl) (Nat.le_refl _)
    obtain ⟨freed, _, parts, _⟩ := done.freed
    refine ⟨after.store, left, ?_, done.stands.hosts, done.stands.nodup, done.id.trans kept.id,
      done.height.trans kept.height, ?_, done.entries.trans (congrArg _ kept.entries)⟩
    · rw [kept.id] at ran
      rw [BulkCall.run, TableStore.deleteRowidsInorder, ran]
    · exact fun page member => kept.within page (parts.mem_iff.mp (List.mem_append_left _ member))
  | update updates =>
    obtain ⟨_, after, ran, swept⟩ := updateTableBulkSubtree_swept (bulkUpdates_sorted allowed) depth
      tree kept.hosts.named kept.nodup deep none none ⟨store, bulkUpdates updates, []⟩
      kept.hosts.laid kept.hosts.ordered ⟨[], rfl, nofun⟩
    refine ⟨after.store, tree.map (patch (bulkUpdates updates)), ?_, ⟨?_, ?_, ?_⟩, ?_, ?_, ?_, ?_, ?_⟩
    · rw [kept.id] at ran
      rw [BulkCall.run, TableStore.updateTableBulk, ran]
    · apply TableStore.Laid.patched tree kept.hosts.laid
      intro id member
      rw [swept.store, TableStore.patched]
      exact if_pos member
    · exact SearchTree.Every.map _ (fun _ named => named.map _) tree kept.hosts.named
    · exact SearchTree.Ordered.map (patch_rowid _) tree kept.hosts.ordered
    · exact (SearchTree.pages_map _ tree).symm ▸ kept.nodup
    · exact (SearchTree.id_map _ tree).trans kept.id
    · exact (SearchTree.height_map _ tree).le.trans kept.height
    · exact (SearchTree.pages_map _ tree).symm ▸ kept.within
    · rw [SearchTree.entries_map, kept.entries]
      rfl

/-- Through any list of bulk statements the table stays a search tree under its root on its own
pages, and a range scan behind them visits exactly the rows the statements leave. -/
theorem maintained_scan (hosts : store.Hosts tree) (nodup : tree.pages.Nodup)
    (enough : tree.height < depth) {calls : List BulkCall}
    (allowed : Run.Along BulkCall.Allowed BulkCall.rows tree.entries calls) :
    ∃ after left, calls.foldlM (BulkCall.run garbage depth tree.id) store = some after ∧
      after.Hosts left ∧ left.id = tree.id ∧ left.entries = calls.foldl BulkCall.rows tree.entries ∧
      (∀ page ∈ left.pages, page ∈ tree.pages) ∧
      ∀ (σ ρ : Type) (decode : LeafCell → Except Error ρ) (f : σ → Int64 → ρ → σ × Bool)
        (start stop : Int64), Visits ⟨some start, some stop⟩ left (TableStore.visitRow decode f)
          (after.scanTableRangeSelective decode start stop f depth tree.id) := by
  have runs : ∀ (calls : List BulkCall) (store : TableStore) (now : TableTree) (cells : List LeafCell),
      Maintained store tree now cells →
      Run.Along BulkCall.Allowed BulkCall.rows cells calls →
      ∃ after left, calls.foldlM (BulkCall.run garbage depth tree.id) store = some after ∧
        Maintained after tree left (calls.foldl BulkCall.rows cells) := by
    intro calls
    induction calls with
    | nil => exact fun store now cells kept _ => ⟨store, now, rfl, kept⟩
    | cons call rest ih =>
      intro store now cells kept along
      obtain ⟨middle, changed, ran, stays⟩ := @Maintained.step garbage _ _ _ _ _ kept enough call along.1
      obtain ⟨after, left, later, stood⟩ := ih middle changed _ stays along.2
      refine ⟨after, left, ?_, stood⟩
      rw [List.foldlM_cons, ran]
      exact later
  obtain ⟨after, left, ran, kept⟩ := runs calls store tree _
    ⟨hosts, nodup, rfl, Nat.le_refl _, fun _ member => member, rfl⟩ allowed
  refine ⟨after, left, ran, kept.hosts, kept.id, kept.entries, kept.within, ?_⟩
  intro σ ρ decode f start stop
  rw [← kept.id]
  exact scanTableRangeSelective_visits kept.hosts (Nat.lt_of_le_of_lt kept.height enough) decode start
    stop f

/-- Row 1 goes, and row 5 is changed. -/
theorem maintained_scan_small :
    ∃ after left, [BulkCall.delete [1], .update [(5, [55])]].foldlM
        (BulkCall.run (fun _ => .ok (.other .overflow)) 2 smallTree.id) smallStore = some after ∧
      after.Hosts left ∧ left.id = smallTree.id ∧
      left.entries = [BulkCall.delete [1], .update [(5, [55])]].foldl BulkCall.rows smallTree.entries ∧
      (∀ page ∈ left.pages, page ∈ smallTree.pages) ∧
      ∀ (σ ρ : Type) (decode : LeafCell → Except Error ρ) (f : σ → Int64 → ρ → σ × Bool)
        (start stop : Int64), Visits ⟨some start, some stop⟩ left (TableStore.visitRow decode f)
          (after.scanTableRangeSelective decode start stop f 2 smallTree.id) :=
  maintained_scan smallStore_hosts (by decide) (by decide)
    ⟨⟨by decide, List.forall_mem_cons.mpr ⟨by decide, nofun⟩⟩, List.pairwise_singleton _ _, trivial⟩

end RustSql.Storage
