import RustSql.Storage.UnlinkCascade

/-! A bulk delete of rowids that are there is a sequence of point deletes. -/

namespace RustSql.Storage

open RustSql.Foundation

section Descent

variable {state : DeleteState} {rowid : Int64} {child : TableTree}

theorem childAt_next : (forest : TableForest) → forest.childAt rowid = some child →
    ((forest.cells.dropWhile (fun cell => decide (cell.2 < rowid))).head?.map Prod.fst).getD
      forest.right = child.id
  | .nil, found => by cases found
  | .last tree, found => by
    cases found
    rfl
  | .cons tree sep rest, found => by
    rw [SearchForest.childAt] at found
    rw [SearchForest.cells, SearchForest.right, List.dropWhile_cons]
    by_cases inside : rowid ≤ sep
    · rw [if_pos inside] at found
      cases found
      rw [if_neg (by simpa using inside)]
      rfl
    · rw [if_neg inside] at found
      rw [if_pos (by simpa using inside)]
      exact childAt_next rest found

/-- The descent ends at the leaf of the rowid. -/
theorem descendTo_place (depth : Nat) (tree : TableTree) {low high : Option Int64}
    {place : LeafPlace LeafCell} (laid : state.store.Laid tree)
    (named : tree.Every SearchForest.Named) (ordered : tree.Ordered LeafCell.rowid low high)
    (found : tree.leafAt rowid = some place) (enough : tree.height < depth) (path : List Nat)
    {post : Nat × List Nat × Bool → DeleteState → Prop}
    (holds : post (place.id, place.path ++ path, false) state) :
    Succeeds (descendTo rowid depth tree.id path) state post := by
  induction depth generalizing tree low high place path with
  | zero => cases enough
  | succ depth ih =>
    rw [descendTo, Succeeds.bind_iff]
    cases tree with
    | leaf id entries =>
      cases found
      apply fetchPage_fetched laid
      exact (Succeeds.pure_iff _ _ _).mpr holds
    | node id children =>
      obtain ⟨child, below, routed, leaf, shorter, rfl⟩ := SearchTree.leafAt_node found
      have member := SearchForest.childAt_mem children routed
      obtain ⟨_, _, orderedChild⟩ := SearchForest.Ordered.trees children ordered child member
      have next : (((children.cells)[partitionPoint (fun cell => decide (cell.2 < rowid))
          children.cells]?).map Prod.fst).getD children.right = child.id := by
        rw [← List.head?_drop, (drop_partitionPoint (key_cut ordered)).1]
        exact childAt_next children routed
      apply fetchPage_fetched laid.1
      simp only [next, if_neg (named.1 child member)]
      rw [SearchTree.height] at enough
      refine ih child (TableStore.LaidForest.trees children laid.2 child member)
        (SearchForest.Every.trees children named.2 child member) orderedChild leaf (by omega)
        (id :: path) ?_
      simpa using holds

theorem leafRowidBounds_leaf {id : Nat} {cells : List LeafCell}
    (found : state.store.page id = .ok (.leaf cells)) {post : Option (Int64 × Int64) →
      DeleteState → Prop} (some_ : ∀ first last, cells.head? = some first →
        cells.getLast? = some last → post (some (first.rowid, last.rowid)) state)
    (none_ : cells = [] → post none state) :
    Succeeds (leafRowidBounds id) state post := by
  rw [leafRowidBounds, Succeeds.bind_iff]
  apply fetchPage_fetched found
  cases first : cells.head? with
  | none =>
    simp only [first, Succeeds.pure_iff]
    exact none_ (List.head?_eq_none_iff.mp first)
  | some front =>
    cases last : cells.getLast? with
    | none =>
      rw [List.getLast?_eq_none_iff.mp last] at first
      cases first
    | some back =>
      simp only [first, last, Succeeds.pure_iff]
      exact some_ front back first last

end Descent

section Leaf

variable {state : DeleteState}

/-- The cells without those of some rowids. -/
def without (rowids : List Int64) (cells : List LeafCell) : List LeafCell :=
  cells.filter (fun cell => !rowids.contains cell.rowid)

theorem freeOverflowChain_frees {chain : Nat} {post : PUnit → DeleteState → Prop}
    (holds : ∀ chains, post ⟨⟩ ⟨state.store, state.freed, chains⟩) :
    Succeeds (freeOverflowChain chain) state post := by
  rw [freeOverflowChain]
  split
  · rw [Succeeds.pure_iff]
    exact holds state.chains
  · rw [Succeeds.modify_iff]
    exact holds _

theorem freeChains_frees (cells : List LeafCell) {post : PUnit → DeleteState → Prop}
    (holds : ∀ chains, post ⟨⟩ ⟨state.store, state.freed, chains⟩) :
    Succeeds (freeChains cells) state post := by
  induction cells generalizing state with
  | nil =>
    rw [freeChains, Succeeds.pure_iff]
    exact holds state.chains
  | cons cell rest ih =>
    rw [freeChains, Succeeds.bind_iff]
    exact freeOverflowChain_frees fun chains => ih holds

theorem TableStore.put_put (store : TableStore) (id : Nat) (first second : Except Error TablePage) :
    (store.put id first).put id second = store.put id second := by
  unfold TableStore.put
  congr 1
  funext other
  by_cases here : other = id <;> simp [here]

theorem TableStore.put_same {store : TableStore} {id : Nat} {page : Except Error TablePage}
    (found : store.page id = page) : store.put id page = store := by
  unfold TableStore.put
  cases store with
  | mk pages assemble =>
    congr 1
    funext other
    by_cases here : other = id
    · rw [if_pos here, here, ← found]
    · rw [if_neg here]

variable {cells : List LeafCell}

/-- The cell of a rowid, and the cells without it. -/
theorem eraseIdx_rowid {cell : LeafCell}
    (sorted : cells.Pairwise (fun first second => first.rowid < second.rowid))
    (member : cell ∈ cells) :
    cells[partitionPoint (fun other => other.rowid < cell.rowid) cells]? = some cell ∧
      cells.eraseIdx (partitionPoint (fun other => other.rowid < cell.rowid) cells) =
        without [cell.rowid] cells := by
  obtain ⟨behind, front⟩ := drop_partitionPoint (@rowid_cut cell.rowid _ sorted)
  obtain ⟨before, after, rfl⟩ := List.append_of_mem member
  obtain ⟨-, sortedBehind, apart⟩ := List.pairwise_append.mp sorted
  have low : ∀ other ∈ before, other.rowid < cell.rowid :=
    fun other there => apart other there cell (List.mem_cons_self ..)
  have high : ∀ other ∈ after, cell.rowid < other.rowid := (List.pairwise_cons.mp sortedBehind).1
  have drops : (before ++ cell :: after).dropWhile (fun other => decide (other.rowid < cell.rowid)) =
      cell :: after := by
    rw [List.dropWhile_append_of_pos (by simpa using low)]
    simp
  have takes : (before ++ cell :: after).takeWhile (fun other => decide (other.rowid < cell.rowid)) =
      before := by
    rw [List.takeWhile_append_of_pos (by simpa using low)]
    simp
  rw [drops] at behind
  rw [takes] at front
  constructor
  · rw [← List.head?_drop, behind]
    rfl
  · rw [List.eraseIdx_eq_take_drop_succ, ← List.tail_drop, behind, front]
    have keeps (others : List LeafCell) (differ : ∀ other ∈ others, other.rowid ≠ cell.rowid) :
        without [cell.rowid] others = others := by
      rw [without, List.filter_eq_self]
      intro other there
      simpa using differ other there
    have split : without [cell.rowid] (before ++ cell :: after) =
        without [cell.rowid] before ++ without [cell.rowid] after := by
      simp [without, List.filter_append]
    rw [split, keeps before fun other there => ne_of_lt (low other there),
      keeps after fun other there => ne_of_gt (high other there)]
    rfl

/-- A point delete in a leaf. -/
theorem deleteFromPage_deletes {id : Nat} {rowid : Int64}
    (found : state.store.page id = .ok (.leaf cells))
    (sorted : cells.Pairwise (fun first second => first.rowid < second.rowid))
    (present : ∃ cell ∈ cells, cell.rowid = rowid) {post : Bool → DeleteState → Prop}
    (holds : ∀ chains, post true
      ⟨state.store.put id (.ok (.leaf (without [rowid] cells))), state.freed, chains⟩) :
    Succeeds (deleteFromPage id rowid) state post := by
  obtain ⟨cell, member, rfl⟩ := present
  obtain ⟨here, erased⟩ := eraseIdx_rowid sorted member
  rw [deleteFromPage, Succeeds.bind_iff]
  apply fetchPage_fetched found
  simp only [here, if_true, erased, Succeeds.bind_iff, Succeeds.pure_iff]
  apply freeOverflowChain_frees
  intro chains
  exact putPage_put (holds chains)

theorem without_sorted {rowids : List Int64}
    (sorted : cells.Pairwise (fun first second => first.rowid < second.rowid)) :
    (without rowids cells).Pairwise (fun first second => first.rowid < second.rowid) :=
  sorted.filter _

theorem without_cons (rowid : Int64) (rowids : List Int64) (cells : List LeafCell) :
    without rowids (without [rowid] cells) = without (rowid :: rowids) cells := by
  rw [without, without, without, List.filter_filter]
  apply List.filter_congr
  intro cell _
  simp [Bool.and_comm]

/-- A run of point deletes in a leaf. -/
theorem deleteRun_deletes {id : Nat} (run : List Int64)
    (found : state.store.page id = .ok (.leaf cells))
    (sorted : cells.Pairwise (fun first second => first.rowid < second.rowid))
    (distinct : run.Nodup) (present : ∀ rowid ∈ run, ∃ cell ∈ cells, cell.rowid = rowid)
    {post : Nat → DeleteState → Prop} (holds : ∀ chains, post run.length
      ⟨state.store.put id (.ok (.leaf (without run cells))), state.freed, chains⟩) :
    Succeeds (deleteRun id run) state post := by
  induction run generalizing state cells post with
  | nil =>
    rw [deleteRun, Succeeds.pure_iff]
    have all : without [] cells = cells := by simp [without]
    have same := holds state.chains
    rw [all, TableStore.put_same found] at same
    exact same
  | cons rowid rest ih =>
    obtain ⟨outside, distinctRest⟩ := List.nodup_cons.mp distinct
    rw [deleteRun, Succeeds.bind_iff]
    apply deleteFromPage_deletes found sorted (present rowid (List.mem_cons_self ..))
    intro chains
    rw [Succeeds.bind_iff]
    apply ih (TableStore.put_self _ _ _) (without_sorted sorted) distinctRest
    · intro other member
      obtain ⟨cell, inside, same⟩ := present other (List.mem_cons_of_mem _ member)
      refine ⟨cell, List.mem_filter.mpr ⟨inside, ?_⟩, same⟩
      have differ : cell.rowid ≠ rowid := fun equal => outside (equal ▸ same ▸ member)
      simpa using differ
    · intro chains
      simp only [Succeeds.pure_iff, if_true, TableStore.put_put, without_cons]
      rw [Nat.add_comm]
      exact holds chains

/-- As many cells as rowids: none is left. -/
theorem without_all {run : List Int64}
    (sorted : cells.Pairwise (fun first second => first.rowid < second.rowid))
    (distinct : run.Nodup) (present : ∀ rowid ∈ run, ∃ cell ∈ cells, cell.rowid = rowid)
    (length : run.length = cells.length) : without run cells = [] := by
  have nodup : (cells.map LeafCell.rowid).Nodup := List.pairwise_map.mpr (sorted.imp ne_of_lt)
  have inside : run ⊆ cells.map LeafCell.rowid := by
    intro rowid member
    obtain ⟨cell, there, same⟩ := present rowid member
    exact List.mem_map.mpr ⟨cell, there, same⟩
  have perm : run.Perm (cells.map LeafCell.rowid) :=
    (List.subperm_of_subset distinct inside).perm_of_length_le (by rw [List.length_map, length])
  rw [without, List.filter_eq_nil_iff]
  intro cell member
  have listed : cell.rowid ∈ run := perm.mem_iff.mpr (List.mem_map_of_mem member)
  simp [listed]

end Leaf

section Place

variable {state : DeleteState} {k : Int64}

mutual

theorem leafAt_page {f : List LeafCell → List LeafCell} {store : TableStore} :
    (tree : TableTree) → {place : LeafPlace LeafCell} → store.Laid tree → tree.pages.Nodup →
      tree.leafAt k = some place →
        place.id ∈ tree.pages ∧ store.page place.id = .ok (.leaf place.entries) ∧
          (store.put place.id (.ok (.leaf (f place.entries)))).Laid (tree.edit k f)
  | .leaf id entries, place, laid, _, found => by
    cases found
    exact ⟨List.mem_singleton_self _, laid, TableStore.put_self _ _ _⟩
  | .node id children, place, laid, nodup, found => by
    rw [SearchTree.leafAt, Option.map_eq_some_iff] at found
    obtain ⟨below, inside, rfl⟩ := found
    obtain ⟨outside, nodupBelow⟩ := List.nodup_cons.mp nodup
    obtain ⟨member, page, edited⟩ := leafAt_pageForest children laid.2 nodupBelow inside
    refine ⟨List.mem_cons_of_mem _ member, page, ?_, edited⟩
    have differ : id ≠ below.id := fun same => outside (same ▸ member)
    rw [SearchForest.cells_edit, SearchForest.right_edit]
    exact (TableStore.put_other _ _ differ).trans laid.1

theorem leafAt_pageForest {f : List LeafCell → List LeafCell} {store : TableStore} :
    (forest : TableForest) → {place : LeafPlace LeafCell} → store.LaidForest forest →
      forest.pages.Nodup → forest.leafAt k = some place →
        place.id ∈ forest.pages ∧ store.page place.id = .ok (.leaf place.entries) ∧
          (store.put place.id (.ok (.leaf (f place.entries)))).LaidForest (forest.edit k f)
  | .nil, _, _, _, found => by cases found
  | .last tree, _, laid, nodup, found => leafAt_page tree laid nodup found
  | .cons tree sep rest, place, laid, nodup, found => by
    obtain ⟨nodupTree, nodupRest, apart⟩ := List.nodup_append.mp nodup
    rw [SearchForest.leafAt] at found
    rw [SearchForest.edit, SearchForest.pages, List.mem_append]
    by_cases inside : k ≤ sep
    · rw [if_pos inside] at found
      obtain ⟨member, page, edited⟩ := leafAt_page tree laid.1 nodupTree found
      rw [if_pos inside]
      refine ⟨Or.inl member, page, edited, TableStore.LaidForest.congr rest laid.2 fun id there => ?_⟩
      exact TableStore.put_other _ _ fun same => apart _ member id there same.symm
    · rw [if_neg inside] at found
      obtain ⟨member, page, edited⟩ := leafAt_pageForest rest laid.2 nodupRest found
      rw [if_neg inside]
      refine ⟨Or.inr member, page, TableStore.Laid.congr tree laid.1 fun id there => ?_, edited⟩
      exact TableStore.put_other _ _ fun same => apart id there _ member same

end

end Place

/-- The tree is on pages of its own. -/
structure Stands (state : DeleteState) (tree : TableTree) : Prop where
  hosts : state.store.Hosts tree
  nodup : tree.pages.Nodup

/-- What a bulk delete of rowids leaves of a tree. -/
structure Deleted (rowids : List Int64) (tree left : TableTree) (state after : DeleteState) :
    Prop where
  stands : Stands after left
  id : left.id = tree.id
  entries : left.entries = without rowids tree.entries
  height : left.height ≤ tree.height
  freed : Frees tree.pages left.pages state after

theorem Deleted.refl {tree : TableTree} {state : DeleteState} (stands : Stands state tree) :
    Deleted [] tree tree state state where
  stands := stands
  id := rfl
  entries := by simp [without]
  height := Nat.le_refl _
  freed := ⟨[], rfl, by simp, nofun⟩

theorem Frees.trans {pages middle left : List Nat} {state between after : DeleteState}
    (first : Frees pages middle state between) (second : Frees middle left between after) :
    Frees pages left state after := by
  obtain ⟨new, freed, parts, hollow⟩ := first
  obtain ⟨new', freed', parts', hollow'⟩ := second
  refine ⟨new' ++ new, by rw [freed', freed, List.append_assoc], ?_, fun entry member => ?_⟩
  · rw [List.map_append, ← List.append_assoc]
    exact (parts'.append_right _).trans parts
  · rcases List.mem_append.mp member with late | early
    · exact hollow' entry late
    · exact hollow entry early

theorem without_append (front back : List Int64) (cells : List LeafCell) :
    without back (without front cells) = without (front ++ back) cells := by
  rw [without, without, without, List.filter_filter]
  apply List.filter_congr
  intro cell _
  simp [Bool.and_comm]

theorem Deleted.trans {front back : List Int64} {tree middle left : TableTree}
    {state between after : DeleteState} (first : Deleted front tree middle state between)
    (second : Deleted back middle left between after) :
    Deleted (front ++ back) tree left state after where
  stands := second.stands
  id := second.id.trans first.id
  entries := by rw [second.entries, first.entries, without_append]
  height := Nat.le_trans second.height first.height
  freed := first.freed.trans second.freed

section Run

variable {garbage : Nat → Except Error TablePage} {state : DeleteState} {tree : TableTree}
  {k : Int64} {place : LeafPlace LeafCell} {run : List Int64}

/-- The rows of a run go from their leaf. -/
theorem edit_deleted (stands : Stands state tree) (found : tree.leafAt k = some place)
    (near : ∀ rowid ∈ run, k ≤ rowid ∧ ∃ most ∈ place.entries, rowid ≤ most.rowid)
    (chains : List Nat) :
    Deleted run tree (tree.edit k (without run)) state
      ⟨state.store.put place.id (.ok (.leaf (without run place.entries))), state.freed, chains⟩ where
  stands := by
    refine ⟨⟨(leafAt_page tree stands.hosts.laid stands.nodup found).2.2,
      SearchTree.Every.edit tree stands.hosts.named,
      SearchTree.Ordered.edit (fun _ => List.filter_sublist) tree stands.hosts.ordered⟩, ?_⟩
    rw [SearchTree.pages_edit]
    exact stands.nodup
  id := SearchTree.id_edit tree
  entries := by
    apply SearchTree.entries_edit tree stands.hosts.ordered found
    intro entry goes
    exact near entry.rowid (by simpa using goes)
  height := Nat.le_of_eq (SearchTree.height_edit tree)
  freed := ⟨[], rfl, by simp [SearchTree.pages_edit], nofun⟩

/-- A tree whose leaf is empty is pruned by the cascade. -/
theorem cascade_deleted (stands : Stands state tree) (found : tree.leafAt k = some place)
    (empty : place.entries = []) {post : PUnit → DeleteState → Prop}
    (holds : ∀ left after, Deleted [] tree left state after → post ⟨⟩ after) :
    Succeeds (unlinkChildCascade garbage tree.id place.path place.id) state post := by
  have same : without [] tree.entries = tree.entries := by simp [without]
  obtain ⟨gone, kept⟩ := SearchTree.prune_pruned tree stands.hosts.ordered stands.hosts.named found
    empty
  apply (cascade_root stands.hosts.laid stands.nodup stands.hosts.named found empty).mono
  rintro _ after ⟨laid, unlinked⟩
  cases pruned : tree.prune k with
  | none =>
    rw [pruned] at laid unlinked
    refine holds (.leaf tree.id []) after ⟨⟨⟨laid, trivial, ?_⟩, ?_⟩, rfl, ?_, Nat.zero_le _,
      unlinked.freed⟩
    · simp [SearchTree.Ordered]
    · exact List.nodup_singleton _
    · rw [same, gone pruned]
      rfl
  | some left =>
    rw [pruned] at laid unlinked
    have facts := kept left pruned
    exact holds left after ⟨⟨⟨laid, facts.named, facts.ordered⟩, stands.nodup.sublist facts.pages⟩,
      facts.id, facts.entries.trans same.symm, facts.height, unlinked.freed⟩

theorem deleteInLeaf_deletes (stands : Stands state tree) (found : tree.leafAt k = some place)
    (near : ∀ rowid ∈ run, k ≤ rowid ∧ ∃ most ∈ place.entries, rowid ≤ most.rowid)
    (distinct : run.Nodup) (present : ∀ rowid ∈ run, ∃ cell ∈ place.entries, cell.rowid = rowid)
    {cursor : Cursor} (path : cursor.path = place.path) :
    Succeeds (deleteInLeaf garbage tree.id place.id run cursor) state (fun result after =>
      result.1 = run.length ∧ (∃ left, Deleted run tree left state after) ∧
        (result.2.sticky = none ∨ ∃ cell ∈ place.entries, result.2.hi = cell.rowid)) := by
  have page := (leafAt_page (f := id) tree stands.hosts.laid stands.nodup found).2.1
  have sorted := SearchTree.leafAt_sorted tree stands.hosts.ordered found
  rw [deleteInLeaf, Succeeds.bind_iff]
  apply fetchPage_fetched page
  simp only [Succeeds.ite_iff, Succeeds.bind_iff, Succeeds.pure_iff]
  refine ⟨fun whole => ?_, fun _ => ?_⟩
  · have none_ := without_all sorted distinct present whole.1
    apply freeChains_frees
    intro chains
    apply putPage_put
    have edited := edit_deleted stands found near chains
    rw [none_] at edited
    have emptied := SearchTree.leafAt_edit (f := without run) tree found
    rw [none_] at emptied
    have root : (tree.edit k (without run)).id = tree.id := SearchTree.id_edit tree
    rw [path, ← root]
    refine cascade_deleted edited.stands emptied rfl fun left after pruned => ?_
    refine ⟨whole.1.symm, ⟨left, ?_⟩, Or.inl trivial⟩
    have both := edited.trans pruned
    rwa [List.append_nil] at both
  · apply deleteRun_deletes run page sorted distinct present
    intro chains
    have edited := edit_deleted stands found near chains
    apply leafRowidBounds_leaf (TableStore.put_self _ _ _)
    · intro first last _ back
      simp only [Succeeds.pure_iff]
      refine ⟨trivial, ⟨_, edited⟩, Or.inr ⟨last, ?_, rfl⟩⟩
      exact (List.mem_filter.mp (List.mem_of_getLast? back)).1
    · intro _
      simp only [Succeeds.pure_iff]
      exact ⟨trivial, ⟨_, edited⟩, Or.inl trivial⟩

/-- The leaf of a rowid that is there is pinned. -/
theorem pin_place {depth : Nat} {rowid : Int64} {later : List Int64} {cursor : Cursor}
    (stands : Stands state tree) (found : tree.leafAt rowid = some place)
    (some_ : place.entries ≠ []) (enough : tree.height < depth)
    (loose : cursor.sticky = none ∨ cursor.hi < rowid)
    {post : List Int64 × Cursor → DeleteState → Prop}
    (holds : ∀ first last, place.entries.getLast? = some last →
      post (rowid :: later, ⟨some place.id, first, last.rowid, place.path⟩) state) :
    Succeeds (pin depth tree.id (rowid :: later) cursor) state post := by
  have repins : (cursor.sticky.isNone || decide (rowid < cursor.lo) ||
      decide (cursor.hi < rowid)) = true := by
    rcases loose with none_ | past
    · simp [none_]
    · simp [past]
  have page := (leafAt_page (f := id) tree stands.hosts.laid stands.nodup found).2.1
  rw [pin, if_pos repins, Succeeds.bind_iff]
  apply descendTo_place depth tree stands.hosts.laid stands.hosts.named stands.hosts.ordered found
    enough []
  simp only [Succeeds.bind_iff, List.append_nil]
  apply leafRowidBounds_leaf page
  · intro first last _ back
    simp only [Succeeds.pure_iff]
    exact holds first.rowid last back
  · intro none_
    exact absurd none_ some_

theorem le_last {cells : List LeafCell} {cell last : LeafCell}
    (sorted : cells.Pairwise (fun first second => first.rowid < second.rowid))
    (back : cells.getLast? = some last) (member : cell ∈ cells) : cell.rowid ≤ last.rowid := by
  obtain ⟨front, rfl⟩ := List.getLast?_eq_some_iff.mp back
  rcases List.mem_append.mp member with early | same
  · exact le_of_lt ((List.pairwise_append.mp sorted).2.2 cell early last (List.mem_singleton_self _))
  · rw [List.mem_singleton.mp same]

/-- The rowids up to a bound, and those behind it. -/
theorem run_cut {hi : Int64} {rowids : List Int64} (ascending : rowids.Pairwise (· < ·)) :
    Cut (fun rowid => decide (rowid ≤ hi)) rowids := by
  apply ascending.imp
  intro first second before holds
  simp only [decide_eq_true_eq] at holds ⊢
  exact le_trans (le_of_lt before) holds

/-- An ascending list splits into its rowids up to a bound and those above it. -/
theorem run_split {hi : Int64} {rowids : List Int64} (ascending : rowids.Pairwise (· < ·)) :
    ∃ run rest, rowids = run ++ rest ∧
      rowids.take (partitionPoint (fun rowid => decide (rowid ≤ hi)) rowids) = run ∧
      rowids.drop (partitionPoint (fun rowid => decide (rowid ≤ hi)) rowids) = rest ∧
      (∀ rowid ∈ run, rowid ≤ hi) ∧ ∀ rowid ∈ rest, hi < rowid := by
  obtain ⟨behind, front⟩ := drop_partitionPoint (@run_cut hi _ ascending)
  refine ⟨_, _, List.takeWhile_append_dropWhile.symm, front, behind, ?_, ?_⟩
  · intro rowid listed
    simpa using List.mem_takeWhile_imp listed
  · intro rowid listed
    rw [(run_cut ascending).dropWhile_eq, List.mem_filter] at listed
    simpa using listed.2

theorem deleteLoop_deletes {depth : Nat} (rounds : Nat) (rowids : List Int64) (cursor : Cursor)
    (deleted : Nat) (stands : Stands state tree) (enough : tree.height < depth)
    (ascending : rowids.Pairwise (· < ·))
    (present : ∀ rowid ∈ rowids, ∃ entry ∈ tree.entries, entry.rowid = rowid)
    (loose : ∀ rowid ∈ rowids, cursor.sticky = none ∨ cursor.hi < rowid)
    (rounded : rowids.length ≤ rounds) :
    Succeeds (deleteLoop garbage depth tree.id rounds rowids cursor deleted) state
      (fun count after => count = deleted + rowids.length ∧
        ∃ left, Deleted rowids tree left state after) := by
  induction rounds generalizing state tree rowids cursor deleted with
  | zero =>
    have none_ := List.length_eq_zero_iff.mp (Nat.le_zero.mp rounded)
    subst none_
    rw [deleteLoop, Succeeds.pure_iff]
    exact ⟨rfl, tree, Deleted.refl stands⟩
  | succ rounds ih =>
    cases rowids with
    | nil =>
      rw [deleteLoop, Succeeds.pure_iff]
      exact ⟨rfl, tree, Deleted.refl stands⟩
    | cons rowid later =>
      obtain ⟨entry, member, rfl⟩ := present rowid (List.mem_cons_self ..)
      obtain ⟨place, found, inside⟩ :=
        SearchTree.leafAt_of_mem tree stands.hosts.ordered member
      have sorted := SearchTree.leafAt_sorted tree stands.hosts.ordered found
      rw [deleteLoop, Succeeds.bind_iff]
      apply pin_place stands found (List.ne_nil_of_mem inside) enough
        (loose _ (List.mem_cons_self ..))
      intro first last back
      have lastMember := List.mem_of_getLast? back
      obtain ⟨run, rest, split, front, behind, below, past⟩ := @run_split last.rowid _ ascending
      obtain ⟨ascendingRun, ascendingRest, -⟩ := List.pairwise_append.mp (split ▸ ascending)
      have listed : ∀ rowid, rowid ∈ run ∨ rowid ∈ rest → rowid ∈ entry.rowid :: later := by
        intro rowid there
        rw [split]
        exact List.mem_append.mpr there
      -- The rowid that the loop has come to is in the run.
      have some_ : run ≠ [] := by
        rintro rfl
        have first : entry.rowid ∈ rest := by
          rw [← List.nil_append rest, ← split]
          exact List.mem_cons_self ..
        exact absurd (past _ first) (not_lt.mpr (le_last sorted back inside))
      have count : partitionPoint (fun rowid => decide (rowid ≤ last.rowid))
          (entry.rowid :: later) ≠ 0 := by
        intro zero
        rw [zero] at front
        exact some_ front.symm
      simp only [if_neg count, front, behind, Succeeds.bind_iff]
      have least (rowid : Int64) (there : rowid ∈ run) : entry.rowid ≤ rowid := by
        rcases List.mem_cons.mp (listed rowid (.inl there)) with rfl | behind
        · exact le_refl _
        · exact le_of_lt ((List.pairwise_cons.mp ascending).1 rowid behind)
      have lengths := congrArg List.length split
      rw [List.length_append] at lengths
      have emptied : Succeeds (deleteInLeaf garbage tree.id place.id run
          ⟨some place.id, first, last.rowid, place.path⟩) state _ := deleteInLeaf_deletes stands found
        (fun rowid there => ⟨least rowid there, last, lastMember, below rowid there⟩)
        (ascendingRun.imp ne_of_lt)
        (fun rowid there => by
          obtain ⟨other, known, rfl⟩ := present rowid (listed rowid (.inl there))
          obtain ⟨place', found', inside'⟩ :=
            SearchTree.leafAt_of_mem tree stands.hosts.ordered known
          rw [SearchTree.leafAt_between tree stands.hosts.ordered found lastMember
            (least _ there) (below _ there)] at found'
          cases found'
          exact ⟨other, inside', rfl⟩) rfl
      apply emptied.mono
      rintro ⟨gone, next⟩ after ⟨counted, ⟨left, done⟩, looseNext⟩
      simp only at counted
      have positive := List.length_pos_iff.mpr some_
      rw [← done.id]
      apply (ih _ next (deleted + gone) done.stands (Nat.lt_of_le_of_lt done.height enough)
        ascendingRest (fun rowid there => ?_) (fun rowid there => ?_) (by omega)).mono
      · rintro count final ⟨total, ⟨last, finished⟩⟩
        rw [split]
        refine ⟨?_, last, done.trans finished⟩
        rw [total, List.length_append]
        omega
      · obtain ⟨other, known, rfl⟩ := present rowid (listed rowid (.inr there))
        refine ⟨other, ?_, rfl⟩
        rw [done.entries, without, List.mem_filter]
        refine ⟨known, ?_⟩
        have outside : other.rowid ∉ run := fun inRun => absurd (past _ there) (not_lt.mpr (below _ inRun))
        simpa using outside
      · refine looseNext.imp_right ?_
        rintro ⟨cell, inLeaf, same⟩
        rw [same]
        exact lt_of_le_of_lt (le_last sorted back inLeaf) (past rowid there)

end Run

/-- Rowids that are there are deleted one and all: nothing else goes, the root stays, and only
pages without rows and children are freed. -/
theorem deleteRowidsInorder_deletes {garbage : Nat → Except Error TablePage} {store : TableStore}
    {tree : TableTree} {depth rounds : Nat} {rowids : List Int64} (hosts : store.Hosts tree)
    (nodup : tree.pages.Nodup) (enough : tree.height < depth) (ascending : rowids.Pairwise (· < ·))
    (present : ∀ rowid ∈ rowids, ∃ entry ∈ tree.entries, entry.rowid = rowid)
    (rounded : rowids.length ≤ rounds) :
    ∃ after left, store.deleteRowidsInorder garbage depth tree.id rounds rowids =
        .ok rowids.length after ∧
      after.store.Hosts left ∧ left.pages.Nodup ∧ left.id = tree.id ∧
      left.entries = tree.entries.filter (fun entry => !rowids.contains entry.rowid) ∧
      (left.pages ++ after.freed.map Prod.fst).Perm tree.pages ∧
      ∀ entry ∈ after.freed, Hollow entry.2 := by
  have stands : Stands ⟨store, [], []⟩ tree := ⟨hosts, nodup⟩
  obtain ⟨count, after, ran, total, left, done⟩ := @deleteLoop_deletes garbage _ _ _ rounds rowids
    ⟨none, Int64.minValue, Int64.maxValue, []⟩ 0 stands enough ascending present
    (fun _ _ => Or.inl rfl) rounded
  obtain ⟨new, freed, parts, hollow⟩ := done.freed
  rw [List.append_nil] at freed
  rw [Nat.zero_add] at total
  refine ⟨after, left, total ▸ ran, done.stands.hosts, done.stands.nodup, done.id, done.entries, ?_⟩
  rw [freed]
  exact ⟨parts, hollow⟩

/-- Rows 1 and 5 go, and with row 5 its leaf. -/
theorem deleteRowidsInorder_deletes_small :
    ∃ after left, smallStore.deleteRowidsInorder (fun _ => .ok (.other .overflow)) 2 smallTree.id 2
        [1, 5] = .ok 2 after ∧
      after.store.Hosts left ∧ left.pages.Nodup ∧ left.id = smallTree.id ∧
      left.entries = smallTree.entries.filter (fun entry => !(List.contains [(1 : Int64), 5] entry.rowid)) ∧
      (left.pages ++ after.freed.map Prod.fst).Perm smallTree.pages ∧
      ∀ entry ∈ after.freed, Hollow entry.2 :=
  deleteRowidsInorder_deletes smallStore_hosts (by decide) (by decide) (by decide)
    (List.forall_mem_cons.mpr ⟨by decide, List.forall_mem_cons.mpr ⟨by decide, nofun⟩⟩) (by decide)

/-- A leaf whose bounds and whose number of rows a list with a missing rowid happens to have. -/
def evenLeaf : List LeafCell := [.row 1 [], .row 3 [], .row 4 [], .row 6 []]

/-- The list of 1, 2, 4 and 6 takes row 3 with it. -/
theorem deleteRowidsInorder_takes_unlisted : ¬ ∀ (garbage : Nat → Except Error TablePage)
    (store : TableStore) (tree : TableTree) (depth : Nat) (rowids : List Int64), store.Hosts tree →
      tree.pages.Nodup → tree.height < depth → rowids.Pairwise (· < ·) →
        ∃ rounds count after, store.deleteRowidsInorder garbage depth tree.id rounds rowids =
            .ok count after ∧
          count = (rowids.filter (fun rowid =>
            tree.entries.any (fun entry => entry.rowid == rowid))).length := by
  intro claim
  have hosts : TableStore.Hosts ⟨fun _ => .ok (.leaf evenLeaf), fun _ _ _ => .ok []⟩
      (.leaf 1 evenLeaf) :=
    ⟨rfl, trivial, by simp [SearchTree.Ordered, Within, evenLeaf, LeafCell.row, LeafCell.rowid,
      Cell.key]⟩
  obtain ⟨rounds, count, after, ran, counted⟩ := claim (fun _ => .ok (.leaf [])) _ _ 1 [1, 2, 4, 6]
    hosts (by decide) (by decide) (by decide)
  have three : count = 3 := counted
  cases rounds with
  | zero => cases ran
  | succ rounds =>
    have four : ∃ final, deleteLoop (fun _ => .ok (.leaf [])) 1 1 (rounds + 1) [1, 2, 4, 6]
        ⟨none, Int64.minValue, Int64.maxValue, []⟩ 0
        ⟨⟨fun _ => .ok (.leaf evenLeaf), fun _ _ _ => .ok []⟩, [], []⟩ = .ok 4 final := by
      cases rounds <;> exact ⟨_, rfl⟩
    obtain ⟨final, same⟩ := four
    have both := same.symm.trans ran
    cases both
    cases three

end RustSql.Storage
