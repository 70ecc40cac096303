import RustSql.Storage.BulkMet

/-! The contract of a bulk update: every update is made exactly, or deferred with its row as it
was. -/

namespace RustSql.Storage

open RustSql.Foundation

def rowAt (entries : List LeafCell) (rowid : Int64) : Option LeafCell :=
  entries.find? (fun entry => entry.rowid == rowid)

/-- Each update is made exactly, or its index is deferred and its row untouched; rows without an
update stay as they are. -/
structure AppliesOrDefers (updates : List (Int64 × List UInt8)) (entries after : List LeafCell)
    (deferred : List Nat) : Prop where
  each : ∀ i update, updates[i]? = some update →
    ((rowAt entries update.1).isSome ∧
      rowAt after update.1 = some (.row update.1 update.2)) ∨
    (i ∈ deferred ∧ rowAt after update.1 = rowAt entries update.1)
  others : ∀ rowid, rowid ∉ updates.map Prod.fst → rowAt after rowid = rowAt entries rowid

section Updates

variable {updates : List (Int64 × List UInt8)}

theorem bulkUpdates_get (i : Nat) :
    (bulkUpdates updates)[i]? = updates[i]?.map (fun update => ⟨i, update.1, update.2⟩) := by
  rw [bulkUpdates, List.getElem?_map, List.getElem?_zipIdx, Option.map_map]
  simp only [Nat.zero_add]
  rfl

theorem bulkUpdates_rowids : (bulkUpdates updates).map BulkUpdate.rowid = updates.map Prod.fst := by
  rw [bulkUpdates, List.map_map]
  apply List.ext_getElem?
  intro i
  simp only [List.getElem?_map, List.getElem?_zipIdx, Option.map_map]
  rfl

theorem bulkUpdates_sorted
    (ascending : updates.Pairwise (fun first second => first.1 < second.1)) :
    (bulkUpdates updates).Pairwise (fun first second => first.rowid < second.rowid) := by
  have mapped := @List.pairwise_map _ _ BulkUpdate.rowid (· < ·) (bulkUpdates updates)
  rw [← mapped, bulkUpdates_rowids, List.pairwise_map]
  exact ascending

theorem bulkUpdates_index {i : Nat} {update : BulkUpdate}
    (found : (bulkUpdates updates)[i]? = some update) : update.index = i := by
  rw [bulkUpdates_get] at found
  obtain ⟨_, -, rfl⟩ := Option.map_eq_some_iff.mp found
  rfl

theorem bulkUpdates_nodup : ((bulkUpdates updates).map BulkUpdate.index).Nodup := by
  rw [List.Nodup, List.pairwise_map, List.pairwise_iff_getElem]
  intro i j inside inside' before same
  have first := bulkUpdates_index (List.getElem?_eq_getElem inside)
  have second := bulkUpdates_index (List.getElem?_eq_getElem inside')
  omega

end Updates

section Rows

theorem eq_of_sorted {α κ : Type} [LinearOrder κ] {key : α → κ} {entries : List α}
    (sorted : entries.Pairwise (fun first second => key first < key second)) {first second : α}
    (member : first ∈ entries) (member' : second ∈ entries) (same : key first = key second) :
    first = second := by
  have nodup : (entries.map key).Nodup := List.pairwise_map.mpr (sorted.imp ne_of_lt)
  exact List.inj_on_of_nodup_map nodup member member' same

variable {all : List BulkUpdate} {entries : List LeafCell}

theorem rowAt_map (rowid : Int64) :
    rowAt (entries.map (patch all)) rowid = (rowAt entries rowid).map (patch all) := by
  rw [rowAt, rowAt, List.find?_map]
  congr 2
  funext entry
  simp [patch_rowid]

theorem rowAt_rowid {rowid : Int64} {entry : LeafCell} (found : rowAt entries rowid = some entry) :
    entry ∈ entries ∧ entry.rowid = rowid :=
  ⟨List.mem_of_find?_eq_some found, by simpa using List.find?_some found⟩

theorem rowAt_mem (sorted : entries.Pairwise (fun first second => first.rowid < second.rowid))
    {entry : LeafCell} (member : entry ∈ entries) : rowAt entries entry.rowid = some entry := by
  cases found : rowAt entries entry.rowid with
  | none =>
    rw [rowAt, List.find?_eq_none] at found
    exact absurd (found entry member) (by simp)
  | some other =>
    obtain ⟨inside, same⟩ := rowAt_rowid found
    rw [eq_of_sorted sorted inside member same]

/-- The update of a row. -/
theorem patch_update (sorted : all.Pairwise (fun first second => first.rowid < second.rowid))
    {update : BulkUpdate} (listed : update ∈ all) {entry : LeafCell}
    (same : entry.rowid = update.rowid) :
    patch all entry =
      if entry.fits update.payload then .row entry.rowid update.payload else entry := by
  cases found : all.find? (fun update => update.rowid = entry.rowid) with
  | none =>
    rw [List.find?_eq_none] at found
    exact absurd (found update listed) (by simp [same])
  | some other =>
    have hits : other.rowid = entry.rowid := by simpa using List.find?_some found
    rw [patch, found,
      eq_of_sorted sorted (List.mem_of_find?_eq_some found) listed (hits.trans same)]

theorem rowAt_none {rowid : Int64} (missing : ∀ entry ∈ entries, rowid ≠ entry.rowid) :
    rowAt entries rowid = none := by
  rw [rowAt, List.find?_eq_none]
  intro entry member
  simpa using (missing entry member).symm

/-- A resolved update is made where it fits the row, and else its row stays. -/
theorem resolved_applies
    (sortedRows : entries.Pairwise (fun first second => first.rowid < second.rowid))
    (sorted : all.Pairwise (fun first second => first.rowid < second.rowid))
    {update : BulkUpdate} (listed : update ∈ all) :
    (update.fitsIn entries = true → (rowAt entries update.rowid).isSome ∧
      rowAt (entries.map (patch all)) update.rowid = some (.row update.rowid update.payload)) ∧
    (update.fitsIn entries = false →
      rowAt (entries.map (patch all)) update.rowid = rowAt entries update.rowid) := by
  rw [rowAt_map]
  constructor
  · intro fits
    obtain ⟨entry, member, both⟩ := List.any_eq_true.mp fits
    rw [Bool.and_eq_true, beq_iff_eq] at both
    obtain ⟨same, room⟩ := both
    have found := rowAt_mem sortedRows member
    rw [same] at found
    rw [found, Option.map_some, patch_update sorted listed same, if_pos room, same]
    exact ⟨rfl, rfl⟩
  · intro misses
    cases found : rowAt entries update.rowid with
    | none => rfl
    | some entry =>
      obtain ⟨member, same⟩ := rowAt_rowid found
      rw [BulkUpdate.fitsIn, List.any_eq_false] at misses
      have tight : ¬ entry.fits update.payload = true := fun fits =>
        misses entry member (by simp [same, fits])
      rw [Option.map_some, patch_update sorted listed same, if_neg tight]

end Rows

theorem appliesOrDefers_iff {updates : List (Int64 × List UInt8)} {entries : List LeafCell}
    (sortedRows : entries.Pairwise (fun first second => first.rowid < second.rowid))
    (ascending : updates.Pairwise (fun first second => first.1 < second.1))
    {done left : List BulkUpdate} (split : bulkUpdates updates = done ++ left)
    (missing : ∀ update ∈ left, ∀ entry ∈ entries, update.rowid ≠ entry.rowid) :
    AppliesOrDefers updates entries (entries.map (patch (bulkUpdates updates)))
      (misfits entries done) ↔ left = [] := by
  have sorted := bulkUpdates_sorted ascending
  constructor
  · intro contract
    rw [List.eq_nil_iff_forall_not_mem]
    intro update member
    have listed : update ∈ bulkUpdates updates := split ▸ List.mem_append_right _ member
    obtain ⟨i, at_i⟩ := List.mem_iff_getElem?.mp listed
    have index := bulkUpdates_index at_i
    rw [bulkUpdates_get] at at_i
    obtain ⟨source, found, rfl⟩ := Option.map_eq_some_iff.mp at_i
    rcases contract.each i source found with ⟨there, -⟩ | ⟨deferred, -⟩
    · rw [rowAt_none (missing _ member)] at there
      cases there
    · obtain ⟨other, inDone, same⟩ := List.mem_map.mp deferred
      have nodup := @bulkUpdates_nodup updates
      rw [split, List.map_append] at nodup
      exact (List.nodup_append.mp nodup).2.2 _
        (List.mem_map_of_mem (List.mem_filter.mp inDone).1) _ (List.mem_map_of_mem member) same
  · rintro rfl
    rw [List.append_nil] at split
    refine ⟨fun i source found => ?_, fun rowid outside => ?_⟩
    · have at_i : (bulkUpdates updates)[i]? = some ⟨i, source.1, source.2⟩ := by
        rw [bulkUpdates_get, found]
        rfl
      have listed := List.mem_of_getElem? at_i
      obtain ⟨applied, stays⟩ := resolved_applies sortedRows sorted listed
      cases fits : BulkUpdate.fitsIn entries ⟨i, source.1, source.2⟩ with
      | true => exact Or.inl (applied fits)
      | false =>
        refine Or.inr ⟨List.mem_map.mpr ⟨_, List.mem_filter.mpr ⟨split ▸ listed, ?_⟩, rfl⟩,
          stays fits⟩
        simp [fits]
    · rw [rowAt_map]
      cases found : rowAt entries rowid with
      | none => rfl
      | some entry =>
        obtain ⟨-, same⟩ := rowAt_rowid found
        rw [Option.map_some, patch_idle]
        intro update listed hits
        rw [← bulkUpdates_rowids] at outside
        exact outside (List.mem_map.mpr ⟨update, listed, hits.trans same⟩)

/-- A bulk update makes or defers every update exactly when its walk comes to a row at or above
the last rowid. -/
theorem updateTableBulk_contract {store : TableStore} {tree : TableTree} {depth : Nat}
    {updates : List (Int64 × List UInt8)} (hosts : store.Hosts tree) (nodup : tree.pages.Nodup)
    (enough : tree.height < depth)
    (ascending : updates.Pairwise (fun first second => first.1 < second.1)) :
    ∃ after changed, store.updateTableBulk depth tree.id updates = .ok () after ∧
      after.store.Hosts changed ∧ changed.pages = tree.pages ∧
      (AppliesOrDefers updates tree.entries changed.entries after.deferred ↔
        met tree (updates.map Prod.fst) = true) := by
  have sorted := bulkUpdates_sorted ascending
  obtain ⟨_, after, ran, swept⟩ := updateTableBulkSubtree_swept sorted depth tree hosts.named nodup
    enough none none ⟨store, bulkUpdates updates, []⟩ hosts.laid hosts.ordered ⟨[], rfl, nofun⟩
  obtain ⟨done, split, deferred, -⟩ := swept.done
  refine ⟨after, tree.map (patch (bulkUpdates updates)), ran, ⟨?_, ?_, ?_⟩,
    SearchTree.pages_map _ tree, ?_⟩
  · apply TableStore.Laid.patched tree hosts.laid
    intro id member
    rw [swept.store, TableStore.patched]
    exact if_pos member
  · exact SearchTree.Every.map _ (fun _ named => named.map _) tree hosts.named
  · exact SearchTree.Ordered.map (patch_rowid _) tree hosts.ordered
  · rw [SearchTree.entries_map, deferred, List.nil_append,
      appliesOrDefers_iff hosts.ordered.sorted.1 ascending split swept.missing,
      unmet_eq_nil_iff tree _ sorted, bulkUpdates_rowids]

/-- Row 1 is there, and row 4 is not. -/
theorem updateTableBulk_contract_small :
    ∃ after changed, smallStore.updateTableBulk 2 smallTree.id [(1, [11]), (4, [44])] =
        .ok () after ∧ after.store.Hosts changed ∧ changed.pages = smallTree.pages ∧
      (AppliesOrDefers [(1, [11]), (4, [44])] smallTree.entries changed.entries after.deferred ↔
        met smallTree [1, 4] = true) :=
  updateTableBulk_contract smallStore_hosts (by decide) (by decide) (by decide)

/-- An update of row 9, behind the last row. -/
theorem updateTableBulk_drops : ¬ ∀ (store : TableStore) (tree : TableTree) (depth : Nat)
    (updates : List (Int64 × List UInt8)), store.Hosts tree → tree.pages.Nodup →
      tree.height < depth → updates.Pairwise (fun first second => first.1 < second.1) →
        ∃ after changed, store.updateTableBulk depth tree.id updates = .ok () after ∧
          AppliesOrDefers updates tree.entries changed after.deferred := by
  intro claim
  obtain ⟨after, changed, ran, contract⟩ := claim smallStore smallTree 2 [(9, [90])]
    smallStore_hosts (by decide) (by decide) (by decide)
  obtain ⟨_, final, again, swept⟩ := updateTableBulkSubtree_swept
    (bulkUpdates_sorted (by decide : [((9 : Int64), ([90] : List UInt8))].Pairwise _)) 2 smallTree
    smallStore_hosts.named (by decide) (by decide) none none
    ⟨smallStore, bulkUpdates [(9, [90])], []⟩ smallStore_hosts.laid smallStore_hosts.ordered
    ⟨[], rfl, nofun⟩
  rw [TableStore.updateTableBulk, again] at ran
  cases ran
  have left : unmet smallTree (bulkUpdates [(9, [90])]) = bulkUpdates [(9, [90])] :=
    unmet_idle smallTree (by decide)
  obtain ⟨done, split, deferred, -⟩ := swept.done
  rw [left] at split
  have none : done = [] := List.self_eq_append_left.mp split
  rcases contract.each 0 (9, [90]) rfl with ⟨there, -⟩ | ⟨listed, -⟩
  · exact absurd there (by decide)
  · rw [deferred, none] at listed
    cases listed

end RustSql.Storage
