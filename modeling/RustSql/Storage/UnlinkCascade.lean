import RustSql.Storage.BulkDelete

/-! The upward unlink cascade prunes an emptied leaf, and frees pages that hold nothing only. -/

namespace RustSql.Storage

open RustSql.Foundation

section Unlink

variable {k : Int64} {child : TableTree}

/-- The cells and the right-most pointer of an interior page without a child. -/
def unlinked (cells : List (Nat × Int64)) (right child : Nat) : List (Nat × Int64) × Nat :=
  match cells.findIdx? (fun cell => cell.1 == child) with
  | some i => (cells.eraseIdx i, right)
  | none => (cells.dropLast, (cells.getLast?.map Prod.fst).getD 0)

theorem unlinked_cons {cell : Nat × Int64} {cells : List (Nat × Int64)} {right id : Nat}
    (other : cell.1 ≠ id) (some_ : cells ≠ []) :
    unlinked (cell :: cells) right id = (cell :: (unlinked cells right id).1, (unlinked cells right id).2) := by
  have differ : (cell.1 == id) = false := by simpa using other
  rw [unlinked, unlinked, List.findIdx?_cons, differ]
  cases found : cells.findIdx? (fun cell => cell.1 == id) with
  | some i => rfl
  | none =>
    cases cells with
    | nil => exact absurd rfl some_
    | cons first rest => rfl

/-- An unlinked child is the routed one. -/
theorem unlinked_removeAt : (forest : TableForest) → (forest.trees.map SearchTree.id).Nodup →
    forest.childAt k = some child →
      unlinked forest.cells forest.right child.id =
        ((forest.removeAt k).cells, (forest.removeAt k).right) ∧
      (child.id ∈ forest.cells.map Prod.fst ∨ forest.right = child.id)
  | .nil, _, found => by cases found
  | .last tree, _, found => by
    cases found
    exact ⟨rfl, Or.inr rfl⟩
  | .cons tree sep rest, nodup, found => by
    rw [SearchForest.childAt] at found
    rw [SearchForest.trees, List.map_cons, List.nodup_cons] at nodup
    by_cases inside : k ≤ sep
    · rw [if_pos inside] at found
      cases found
      rw [SearchForest.removeAt, if_pos inside, SearchForest.cells, SearchForest.right, unlinked,
        List.findIdx?_cons, beq_self_eq_true]
      exact ⟨rfl, Or.inl (List.mem_cons_self ..)⟩
    · rw [if_neg inside] at found
      obtain ⟨same, there⟩ := unlinked_removeAt rest nodup.2 found
      have other : tree.id ≠ child.id := fun equal => nodup.1
        (equal ▸ List.mem_map_of_mem (SearchForest.childAt_mem rest found))
      rw [SearchForest.removeAt, if_neg inside]
      refine ⟨?_, there.imp_left (List.mem_cons_of_mem _)⟩
      cases rest with
      | nil => cases found
      | last only =>
        have differ : (tree.id == child.id) = false := by simpa using other
        rw [SearchForest.cells, SearchForest.cells, unlinked, List.findIdx?_cons, differ]
        rfl
      | cons first next later =>
        rw [SearchForest.cells, SearchForest.right,
          unlinked_cons other (by simp [SearchForest.cells]), same]
        rfl

theorem forest_eq_nil_iff {forest : TableForest} (named : forest.Named) :
    forest = .nil ↔ forest.cells = [] ∧ forest.right = 0 := by
  cases forest with
  | nil => simp [SearchForest.cells, SearchForest.right]
  | last tree =>
    have nonzero := named tree (List.mem_singleton_self _)
    simp [SearchForest.right, nonzero]
  | cons tree sep rest => simp [SearchForest.cells]

end Unlink

section Steps

variable {state : DeleteState}

theorem fetchPage_fetched {id : Nat} {page : TablePage} (found : state.store.page id = .ok page)
    {post : TablePage → DeleteState → Prop} (holds : post page state) :
    Succeeds (fetchPage id) state post :=
  ⟨page, state, by rw [fetchPage, found], holds⟩

theorem putPage_put {id : Nat} {page : TablePage} {post : PUnit → DeleteState → Prop}
    (holds : post ⟨⟩ ⟨state.store.put id (.ok page), state.freed, state.chains⟩) :
    Succeeds (putPage id page) state post := by
  rw [putPage, Succeeds.modify_iff]
  exact holds

theorem TableStore.put_self (store : TableStore) (id : Nat) (page : Except Error TablePage) :
    (store.put id page).page id = page :=
  if_pos rfl

theorem TableStore.put_other (store : TableStore) {id other : Nat} (page : Except Error TablePage)
    (differ : other ≠ id) : (store.put id page).page other = store.page other :=
  if_neg differ

theorem unlinkChildReference_removes {k : Int64} {id : Nat} {forest : TableForest}
    {child : TableTree} (found : state.store.page id = .ok (.interior forest.cells forest.right))
    (named : forest.Named) (distinct : (forest.trees.map SearchTree.id).Nodup)
    (routed : forest.childAt k = some child) {post : Bool → DeleteState → Prop}
    (holds : ∀ childless, (childless = true ↔ forest.removeAt k = .nil) →
      post childless ⟨state.store.put id
        (.ok (.interior (forest.removeAt k).cells (forest.removeAt k).right)), state.freed,
        state.chains⟩) :
    Succeeds (unlinkChildReference id child.id) state post := by
  obtain ⟨same, there⟩ := unlinked_removeAt forest distinct routed
  have namedRest : (forest.removeAt k).Named := by
    obtain ⟨front, back, all, removed, -⟩ := SearchForest.childAt_split forest routed
    intro tree member
    refine named tree ?_
    rw [removed, List.mem_append] at member
    rw [all, List.mem_append, List.mem_cons]
    tauto
  have childless := forest_eq_nil_iff namedRest
  rw [unlinkChildReference, Succeeds.bind_iff]
  apply fetchPage_fetched found
  unfold unlinked at same
  cases where_ : forest.cells.findIdx? (fun cell => cell.1 == child.id) with
  | some i =>
    rw [where_] at same
    obtain ⟨cells, right⟩ := Prod.mk.inj same
    simp only [where_, Succeeds.bind_iff, Succeeds.pure_iff]
    apply putPage_put
    rw [cells, right]
    apply holds
    rw [childless]
    simp
  | none =>
    rw [where_] at same
    obtain ⟨cells, right⟩ := Prod.mk.inj same
    have rightmost : forest.right = child.id := by
      refine there.resolve_left fun member => ?_
      obtain ⟨cell, listed, equal⟩ := List.mem_map.mp member
      rw [List.findIdx?_eq_none_iff] at where_
      exact absurd (where_ cell listed) (by simp [equal])
    simp only [where_, rightmost, if_true, Succeeds.bind_iff, Succeeds.pure_iff]
    apply putPage_put
    rw [cells, right]
    apply holds
    rw [childless, ← cells, ← right]
    simp only [Bool.and_eq_true, beq_iff_eq, decide_eq_true_eq, ← List.length_eq_zero_iff,
      List.length_dropLast]
    omega

end Steps

/-- A page without rows and without children. -/
def Hollow (page : Except Error TablePage) : Prop :=
  page = .ok (.leaf []) ∨ page = .ok (.interior [] 0)

/-- Of these pages some are left, and the others were hollow and are free. -/
def Frees (pages left : List Nat) (state after : DeleteState) : Prop :=
  ∃ new, after.freed = new ++ state.freed ∧ (left ++ new.map Prod.fst).Perm pages ∧
    ∀ entry ∈ new, Hollow entry.2

structure Unlinked (pages left : List Nat) (state after : DeleteState) : Prop where
  others : ∀ id, id ∉ pages → after.store.page id = state.store.page id
  freed : Frees pages left state after

section Cascade

variable (garbage : Nat → Except Error TablePage) (root : Nat) (k : Int64)

/-- The cascade from an empty leaf of the tree prunes the tree, or goes on above it. -/
def CascadesInto (tree : TableTree) : Prop :=
  ∀ (place : LeafPlace LeafCell) (state : DeleteState) (ups : List Nat)
    (post : PUnit → DeleteState → Prop), state.store.Laid tree → tree.pages.Nodup →
      tree.Every SearchForest.Named → root ∉ tree.pages → tree.leafAt k = some place →
        place.entries = [] →
    (∀ pruned after, tree.prune k = some pruned → after.store.Laid pruned →
      Unlinked tree.pages pruned.pages state after → post ⟨⟩ after) →
    (tree.prune k = none → ∀ middle, Hollow (middle.store.page tree.id) →
      Unlinked tree.pages [tree.id] state middle →
        Succeeds (unlinkChildCascade garbage root ups tree.id) middle post) →
    Succeeds (unlinkChildCascade garbage root (place.path ++ ups) place.id) state post

variable {garbage root k}

theorem ids_nodup {trees : List TableTree} (nodup : (trees.flatMap SearchTree.pages).Nodup) :
    (trees.map SearchTree.id).Nodup := by
  induction trees with
  | nil => exact List.nodup_nil
  | cons tree rest ih =>
    rw [List.flatMap_cons, List.nodup_append] at nodup
    obtain ⟨-, later, apart⟩ := nodup
    rw [List.map_cons, List.nodup_cons]
    refine ⟨fun member => ?_, ih later⟩
    obtain ⟨other, inside, same⟩ := List.mem_map.mp member
    exact apart tree.id tree.id_mem_pages tree.id
      (List.mem_flatMap.mpr ⟨other, inside, same ▸ other.id_mem_pages⟩) rfl

/-- What is left of a child and its siblings. -/
theorem Frees.among {front back : List TableTree} {child : TableTree} {left : List Nat} {id : Nat}
    {state after : DeleteState} (below : Frees child.pages left state after) :
    Frees (id :: (front ++ child :: back).flatMap SearchTree.pages)
      (id :: (front.flatMap SearchTree.pages ++ left ++ back.flatMap SearchTree.pages)) state
        after := by
  obtain ⟨new, freed, parts, hollow⟩ := below
  refine ⟨new, freed, ?_, hollow⟩
  rw [List.flatMap_append, List.flatMap_cons, List.cons_append]
  refine List.Perm.cons id ?_
  calc
    front.flatMap SearchTree.pages ++ left ++ back.flatMap SearchTree.pages ++ new.map Prod.fst
    _ = front.flatMap SearchTree.pages ++ (left ++ (back.flatMap SearchTree.pages ++
        new.map Prod.fst)) := by simp only [List.append_assoc]
    List.Perm _ (front.flatMap SearchTree.pages ++ (left ++ (new.map Prod.fst ++
        back.flatMap SearchTree.pages))) :=
      (List.perm_append_comm.append_left left).append_left _
    _ = front.flatMap SearchTree.pages ++ ((left ++ new.map Prod.fst) ++
        back.flatMap SearchTree.pages) := by simp only [List.append_assoc]
    List.Perm _ _ := (parts.append_right _).append_left _

/-- The children of an interior page, those in front of one of them and those behind it. -/
structure Around (id : Nat) (children : TableForest) (front : List TableTree) (child : TableTree)
    (back : List TableTree) : Prop where
  trees : children.trees = front ++ child :: back
  nodup : (id :: children.pages).Nodup

namespace Around

variable {id : Nat} {children rest : TableForest} {front back : List TableTree}
  {child other : TableTree} {state middle after : DeleteState} {left : List Nat}

theorem pages (around : Around id children front child back) :
    children.pages = (front ++ child :: back).flatMap SearchTree.pages := by
  rw [SearchForest.pages_eq, around.trees]

theorem inside (around : Around id children front child back) :
    ∀ page ∈ child.pages, page ∈ children.pages := by
  intro page here
  rw [around.pages]
  exact List.mem_flatMap.mpr ⟨child, by simp, here⟩

theorem ne_parent (around : Around id children front child back) {page : Nat}
    (here : page ∈ children.pages) : page ≠ id :=
  fun same => (List.nodup_cons.mp around.nodup).1 (same ▸ here)

theorem sibling (around : Around id children front child back) (there : other ∈ front ++ back) :
    other ∈ children.trees := by
  rw [List.mem_append] at there
  rw [around.trees, List.mem_append, List.mem_cons]
  tauto

theorem nodup_pages (around : Around id children front child back) :
    ((front ++ child :: back).flatMap SearchTree.pages).Nodup :=
  around.pages ▸ (List.nodup_cons.mp around.nodup).2

/-- The pages of a child are not those of its siblings. -/
theorem apart (around : Around id children front child back) (there : other ∈ front ++ back) :
    ∀ page ∈ other.pages, page ∉ child.pages := by
  have nodup := around.nodup_pages
  rw [List.flatMap_append, List.flatMap_cons, List.nodup_append] at nodup
  obtain ⟨-, rest, apart⟩ := nodup
  intro page inside here
  rcases List.mem_append.mp there with early | late
  · exact apart page (List.mem_flatMap.mpr ⟨other, early, inside⟩) page
      (List.mem_append_left _ here) rfl
  · exact (List.nodup_append.mp rest).2.2 page here page
      (List.mem_flatMap.mpr ⟨other, late, inside⟩) rfl

/-- Siblings stay where only the child's pages and the parent are written. -/
theorem laid (around : Around id children front child back) (laid : state.store.LaidForest children)
    (unmoved : ∀ page, page ≠ id → page ∉ child.pages →
      after.store.page page = state.store.page page) (there : other ∈ front ++ back) :
    after.store.Laid other := by
  have sibling := around.sibling there
  refine TableStore.Laid.congr other (TableStore.LaidForest.trees children laid other sibling) ?_
  intro page here
  refine unmoved page (around.ne_parent ?_) (around.apart there page here)
  rw [SearchForest.pages_eq]
  exact List.mem_flatMap.mpr ⟨other, sibling, here⟩

/-- What is left of a child is left among its siblings. -/
theorem unlinked (around : Around id children front child back)
    (unmoved : ∀ page, page ≠ id → page ∉ child.pages →
      after.store.page page = state.store.page page) (below : Frees child.pages left state after)
    (behind : rest.pages = front.flatMap SearchTree.pages ++ left ++ back.flatMap SearchTree.pages) :
    Unlinked (id :: children.pages) (id :: rest.pages) state after := by
  refine ⟨fun page outer => ?_, ?_⟩
  · rw [List.mem_cons, not_or] at outer
    exact unmoved page outer.1 fun here => outer.2 (around.inside page here)
  · rw [around.pages, behind]
    exact below.among

end Around

variable {id : Nat} {children rest : TableForest} {child : TableTree} {front back : List TableTree}
  {state middle : DeleteState} {ups : List Nat} {post : PUnit → DeleteState → Prop}

/-- The child is free, and its parent holds the other children. -/
def dropped (garbage : Nat → Except Error TablePage) (id child : Nat) (rest : TableForest)
    (state : DeleteState) : DeleteState :=
  ⟨(state.store.put id (.ok (.interior rest.cells rest.right))).put child (garbage child),
    (child, state.store.page child) :: state.freed, state.chains⟩

theorem dropped_other {page freed : Nat} (parent : page ≠ id) (differ : page ≠ freed) :
    (dropped garbage id freed rest state).store.page page = state.store.page page :=
  (TableStore.put_other _ _ differ).trans (TableStore.put_other _ _ parent)

theorem dropped_parent {freed : Nat} (differ : id ≠ freed) :
    (dropped garbage id freed rest state).store.page id = .ok (.interior rest.cells rest.right) :=
  (TableStore.put_other _ _ differ).trans (TableStore.put_self _ _ _)

theorem unlinkChildCascade_drops (found : middle.store.page id = .ok (.interior children.cells children.right))
    (named : children.Named) (distinct : (children.trees.map SearchTree.id).Nodup)
    (routed : children.childAt k = some child) (notRoot : child.id ≠ root) (notParent : child.id ≠ id)
    (stays : children.removeAt k ≠ .nil → post ⟨⟩ (dropped garbage id child.id (children.removeAt k) middle))
    (gone : children.removeAt k = .nil → Succeeds (if id = root then putPage root (.leaf [])
      else unlinkChildCascade garbage root ups id) (dropped garbage id child.id .nil middle) post) :
    Succeeds (unlinkChildCascade garbage root (id :: ups) child.id) middle post := by
  have nonzero : child.id ≠ 0 := named child (SearchForest.childAt_mem children routed)
  rw [unlinkChildCascade, if_neg (by simp [nonzero, notRoot])]
  simp only [Succeeds.bind_iff]
  apply unlinkChildReference_removes found named distinct routed
  intro childless childless_iff
  rw [freePage, Succeeds.modify_iff, TableStore.put_other _ _ notParent]
  cases emptied : childless with
  | false =>
    simp only [if_true, Succeeds.pure_iff]
    refine stays fun nil => ?_
    rw [childless_iff.mpr nil] at emptied
    cases emptied
  | true =>
    have nil := childless_iff.mp emptied
    rw [nil]
    simpa only [Bool.true_eq_false, if_false, Succeeds.ite_iff, dropped] using gone nil

theorem cascade_forest (into : CascadesInto garbage root k child)
    (found : state.store.page id = .ok (.interior children.cells children.right))
    (laid : state.store.LaidForest children) (nodup : (id :: children.pages).Nodup)
    (named : children.Named) (every : children.Every SearchForest.Named)
    (unrooted : root ∉ children.pages) (routed : children.childAt k = some child)
    {below : LeafPlace LeafCell} (leaf : child.leafAt k = some below) (empty : below.entries = [])
    (stays : ∀ after, children.prune k ≠ .nil →
      after.store.page id = .ok (.interior (children.prune k).cells (children.prune k).right) →
        after.store.LaidForest (children.prune k) →
          Unlinked (id :: children.pages) (id :: (children.prune k).pages) state after →
            post ⟨⟩ after)
    (gone : children.prune k = .nil → ∀ middle, middle.store.page id = .ok (.interior [] 0) →
      Unlinked (id :: children.pages) [id] state middle →
        Succeeds (if id = root then putPage root (.leaf [])
          else unlinkChildCascade garbage root ups id) middle post) :
    Succeeds (unlinkChildCascade garbage root (below.path ++ id :: ups) below.id) state post := by
  obtain ⟨front, back, all, removed, replaced⟩ := SearchForest.childAt_split children routed
  have around : Around id children front child back := ⟨all, nodup⟩
  have member := SearchForest.childAt_mem children routed
  have notParent := around.ne_parent (around.inside _ child.id_mem_pages)
  have notBelow : id ∉ child.pages := fun here => around.ne_parent (around.inside id here) rfl
  have pruning := SearchForest.prune_eq children routed
  apply into below state (id :: ups) post (TableStore.LaidForest.trees children laid child member)
    ((List.nodup_flatMap.mp around.nodup_pages).1 child (by simp))
    (SearchForest.Every.trees children every child member)
    (fun here => unrooted (around.inside root here)) leaf empty
  · intro pruned after changed laidChild unlinked
    rw [changed] at pruning
    change children.prune k = children.replaceAt k pruned at pruning
    have trees := replaced pruned
    obtain ⟨cells, right⟩ := SearchForest.cells_replaceAt pruned (SearchTree.id_prune child changed)
      children routed
    have unmoved : ∀ page, page ≠ id → page ∉ child.pages →
        after.store.page page = state.store.page page := fun page _ => unlinked.others page
    rw [pruning] at stays
    refine stays after (fun nil => ?_) ?_ ?_ (around.unlinked unmoved unlinked.freed ?_)
    · rw [nil] at trees
      simp [SearchForest.trees] at trees
    · rw [unlinked.others id notBelow, cells, right, found]
    · apply TableStore.LaidForest.of_trees
      intro other there
      rw [trees, List.mem_append, List.mem_cons] at there
      have split : other = pruned ∨ other ∈ front ++ back := by
        rw [List.mem_append]
        tauto
      rcases split with rfl | old
      · exact laidChild
      · exact around.laid laid unmoved old
    · rw [SearchForest.pages_eq, trees, List.flatMap_append, List.flatMap_cons, List.append_assoc]
  · intro lost middle hollow unlinked
    rw [lost] at pruning
    change children.prune k = children.removeAt k at pruning
    have notRoot : child.id ≠ root := fun same =>
      unrooted (same ▸ around.inside child.id child.id_mem_pages)
    have unmoved : ∀ page, page ≠ id → page ∉ child.pages →
        (dropped garbage id child.id (children.removeAt k) middle).store.page page =
          state.store.page page := by
      intro page parent outside
      rw [dropped_other parent fun same => outside (same ▸ child.id_mem_pages),
        unlinked.others page outside]
    have whole : Unlinked (id :: children.pages) (id :: (children.removeAt k).pages) state
        (dropped garbage id child.id (children.removeAt k) middle) := by
      obtain ⟨new, freed, parts, hollows⟩ := unlinked.freed
      refine @Around.unlinked _ _ _ _ _ _ _ _ [] around unmoved
        ⟨(child.id, middle.store.page child.id) :: new, by rw [dropped, freed]; rfl, parts, ?_⟩ ?_
      · intro entry listed
        rcases List.mem_cons.mp listed with rfl | earlier
        · exact hollow
        · exact hollows entry earlier
      · rw [SearchForest.pages_eq, removed, List.flatMap_append, List.append_nil]
    refine unlinkChildCascade_drops ((unlinked.others id notBelow).trans found) named
      (all ▸ ids_nodup around.nodup_pages) routed notRoot notParent (fun some_ => ?_) fun nil => ?_
    · rw [pruning] at stays
      refine stays _ some_ (dropped_parent notParent.symm) ?_ whole
      apply TableStore.LaidForest.of_trees
      intro tree there
      exact around.laid laid unmoved (removed ▸ there)
    · rw [nil] at whole
      exact gone (pruning.trans nil) _ (dropped_parent notParent.symm) whole

theorem Unlinked.refl {pages : List Nat} {state : DeleteState} :
    Unlinked pages pages state state :=
  ⟨fun _ _ => rfl, [], rfl, by simp, nofun⟩

theorem cascadesInto (tree : TableTree) : CascadesInto garbage root k tree := by
  intro place state ups post laid nodup named unrooted found empty stays gone
  cases tree with
  | leaf id entries =>
    cases found
    apply gone rfl state _ Unlinked.refl
    exact Or.inl (empty ▸ laid)
  | node id children =>
    obtain ⟨child, below, routed, leaf, shorter, rfl⟩ := SearchTree.leafAt_node found
    have notRoot : id ≠ root := fun same => unrooted (same ▸ List.mem_cons_self ..)
    show Succeeds (unlinkChildCascade garbage root ((below.path ++ [id]) ++ ups) below.id) state post
    rw [List.append_assoc]
    apply cascade_forest (cascadesInto child) laid.1 laid.2 nodup named.1 named.2
      (fun here => unrooted (List.mem_cons_of_mem _ here)) routed leaf empty
    · intro after some_ page laidRest unlinked
      exact stays _ after (SearchTree.prune_node some_) ⟨page, laidRest⟩ unlinked
    · intro nil middle page unlinked
      rw [if_neg notRoot]
      refine gone ?_ middle (Or.inr page) unlinked
      rw [SearchTree.prune, nil]
termination_by tree.height

/-- The cascade from an empty leaf leaves the pruned tree, or an empty root. -/
theorem cascade_root {tree : TableTree} {place : LeafPlace LeafCell} {state : DeleteState}
    (laid : state.store.Laid tree) (nodup : tree.pages.Nodup) (named : tree.Every SearchForest.Named)
    (found : tree.leafAt k = some place) (empty : place.entries = []) :
    Succeeds (unlinkChildCascade garbage tree.id place.path place.id) state (fun _ after =>
      after.store.Laid ((tree.prune k).getD (.leaf tree.id [])) ∧
        Unlinked tree.pages ((tree.prune k).getD (.leaf tree.id [])).pages state after) := by
  cases tree with
  | leaf id entries =>
    cases found
    show Succeeds (unlinkChildCascade garbage id [] id) state _
    rw [unlinkChildCascade, if_pos (Or.inr rfl), Succeeds.pure_iff]
    exact ⟨empty ▸ laid, Unlinked.refl⟩
  | node id children =>
    obtain ⟨child, below, routed, leaf, shorter, rfl⟩ := SearchTree.leafAt_node found
    apply cascade_forest (cascadesInto child) laid.1 laid.2 nodup named.1 named.2
      (List.nodup_cons.mp nodup).1 routed leaf empty
    · intro after some_ page laidRest unlinked
      rw [SearchTree.prune_node some_]
      exact ⟨⟨page, laidRest⟩, unlinked⟩
    · intro nil middle page unlinked
      rw [if_pos rfl]
      apply putPage_put
      have lost : SearchTree.prune k (.node id children) = none := by
        rw [SearchTree.prune, nil]
      rw [lost]
      refine ⟨TableStore.put_self _ _ _, fun other outside => ?_, unlinked.freed⟩
      have differ : other ≠ id := fun same => outside (same ▸ List.mem_cons_self ..)
      exact (TableStore.put_other _ _ differ).trans (unlinked.others other outside)

end Cascade

end RustSql.Storage
