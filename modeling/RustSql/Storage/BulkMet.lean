import RustSql.Storage.BulkSweep

/-! When every update of a bulk update is made or deferred. -/

namespace RustSql.Storage

open RustSql.Foundation

section Run

variable {all : List BulkUpdate} {low high : Option Int64} {state : BulkState}

theorem fetchBulk_fetched {id : Nat} {page : TablePage} (found : state.store.page id = .ok page)
    {post : TablePage → BulkState → Prop} (holds : post page state) :
    Succeeds (fetchBulk id) state post :=
  ⟨page, state, by rw [fetchBulk, found], holds⟩

theorem Reached.sublist {pending : List BulkUpdate} (reached : Reached all low pending) :
    pending.Sublist all := by
  obtain ⟨resolved, rfl, -⟩ := reached
  exact List.sublist_append_right _ _

/-- A leaf of the walk. -/
theorem leaf_swept {id : Nat} {entries : List LeafCell} {update : BulkUpdate}
    {later : List BulkUpdate} (sorted : all.Pairwise (fun first second => first.rowid < second.rowid))
    (laid : state.store.page id = .ok (.leaf entries))
    (ordered : SearchTree.Ordered LeafCell.rowid low high (.leaf id entries))
    (pending : state.pending = update :: later) (reached : Reached all low state.pending)
    (lo : Nat) (start : lo = partitionPoint (fun cell => cell.rowid < update.rowid) entries) :
    Swept all entries [id] high (state.pending.filter (·.above entries)) state
      ⟨state.setLeaf id (entries.take lo ++ (mergeLeaf (entries.drop lo) (update :: later)).1),
        (mergeLeaf (entries.drop lo) (update :: later)).2.1,
        state.deferred ++ (mergeLeaf (entries.drop lo) (update :: later)).2.2⟩ := by
  have front : ∀ cell ∈ entries.take lo, cell.rowid < update.rowid := by
    intro cell member
    rw [start, (drop_partitionPoint (rowid_cut ordered.1)).2] at member
    simpa using List.mem_takeWhile_imp member
  have whole := @mergeLeaf_front update later (entries.take lo) (entries.drop lo) front
  rw [List.take_append_drop,
    mergeLeaf_eq entries _ ordered.1 (pending ▸ sorted.sublist reached.sublist)] at whole
  obtain ⟨cells, rest⟩ := Prod.mk.inj whole
  rw [← cells, ← rest, ← pending]
  have parts : state.pending = state.pending.filter (fun update => !update.above entries) ++
      state.pending.filter (·.above entries) := by
    have cut : Cut (fun update => !BulkUpdate.above entries update) state.pending := by
      apply (sorted.sublist reached.sublist).imp
      intro first second before reaches
      rw [Bool.not_eq_true'] at reaches ⊢
      rw [BulkUpdate.above, List.all_eq_false] at reaches ⊢
      obtain ⟨entry, member, notBelow⟩ := reaches
      refine ⟨entry, member, fun below => notBelow ?_⟩
      simp only [decide_eq_true_eq] at below ⊢
      exact lt_trans below before
    simpa using cut.parts
  refine ⟨?_, rfl, ⟨_, parts, rfl, ?_⟩, ?_⟩
  · have same : entries.map (patch state.pending) = entries.map (patch all) := by
      obtain ⟨resolved, split, below⟩ := reached
      apply List.map_congr_left
      intro entry member
      rw [split]
      refine (patch_append fun early listed => ?_).symm
      obtain ⟨least, found, le⟩ := below early listed
      exact ne_of_lt (lt_of_le_of_lt le ((ordered.2 entry member).1 least found))
    rw [same, BulkState.setLeaf, TableStore.patched]
    show TableStore.mk _ _ = TableStore.mk _ _
    congr 1
    funext page
    by_cases here : page = id
    · rw [if_pos here, if_pos (List.mem_singleton.mpr here), here, laid]
      rfl
    · rw [if_neg here, if_neg (fun member => here (List.mem_singleton.mp member))]
  · intro update member most found
    have reaches := (List.mem_filter.mp member).2
    rw [Bool.not_eq_true', BulkUpdate.above, List.all_eq_false] at reaches
    obtain ⟨entry, inside, notBelow⟩ := reaches
    exact le_trans (by simpa using notBelow) ((ordered.2 entry inside).2 most found)
  · intro update member entry inside
    have above := (List.mem_filter.mp member).2
    rw [BulkUpdate.above, List.all_eq_true] at above
    exact ne_of_gt (by simpa using above entry inside)

theorem updateTableBulkSubtree_swept
    (sorted : all.Pairwise (fun first second => first.rowid < second.rowid)) (depth : Nat)
    (tree : TableTree) (named : tree.Every SearchForest.Named) (nodup : tree.pages.Nodup)
    (enough : tree.height < depth) : Sweeps all (updateTableBulkSubtree depth) tree := by
  induction depth generalizing tree with
  | zero => cases enough
  | succ depth ih =>
    intro low high state laid ordered reached
    rw [updateTableBulkSubtree]
    simp only [Succeeds.bind_iff, Succeeds.get_iff]
    cases pending : state.pending with
    | nil =>
      simp only [Succeeds.pure_iff]
      rw [pending] at reached
      have none : Idle state.pending tree.entries := by simp [pending, Idle]
      have idle := Swept.beside laid ordered (pending ▸ reached) none
      rw [pending] at idle
      rwa [unmet_idle _ (by simp)]
    | cons update later =>
      simp only [Succeeds.bind_iff]
      cases tree with
      | leaf id entries =>
        apply fetchBulk_fetched laid
        simp only [Succeeds.modify_iff]
        have swept := leaf_swept sorted laid ordered pending reached _ rfl
        rw [pending] at swept
        exact swept
      | node id children =>
        apply fetchBulk_fetched laid.1
        obtain ⟨outside, nodupBelow⟩ := List.nodup_cons.mp nodup
        have steps (child : TableTree) (member : child ∈ children.trees) :
            Sweeps all (updateTableBulkSubtree depth) child := by
          have shorter := SearchForest.height_le children child member
          rw [SearchTree.height] at enough
          refine ih child (SearchForest.Every.trees children named.2 child member) ?_ (by omega)
          rw [SearchForest.pages_eq] at nodupBelow
          exact (List.nodup_flatMap.mp nodupBelow).1 child member
        have interior (left : List BulkUpdate) (after : BulkState)
            (below : Swept all children.entries children.pages high left state after) :
            Swept all children.entries (id :: children.pages) high left state after := by
          refine ⟨?_, below.pending, below.done, below.missing⟩
          have still : state.store.patched all [id] = state.store := by
            apply TableStore.patched_idle
            intro page member
            rw [List.mem_singleton.mp member, laid.1]
            rfl
          have parts := @TableStore.patched_append state.store all [id] children.pages
            (fun page member => List.mem_singleton.mp member ▸ outside)
          rw [still] at parts
          rw [below.store, parts]
          rfl
        have cells : children.cells.drop
            (partitionPoint (fun cell => cell.2 < update.rowid) children.cells) =
              (children.skip (fun sep => decide (sep < update.rowid))).cells := by
          rw [(drop_partitionPoint (key_cut ordered)).1, SearchForest.cells_skip]
        simp only [cells]
        cases later with
        | nil =>
          simp only [List.isEmpty_nil, if_true]
          apply (sweepChildren_one children low high state steps named.1 laid.2 ordered nodupBelow
            reached pending).mono
          exact fun _ after swept => interior _ after swept
        | cons second rest =>
          have from_ : ∀ other ∈ state.pending, update.rowid ≤ other.rowid := by
            intro other member
            have ascending := sorted.sublist reached.sublist
            rw [pending] at ascending member
            rcases List.mem_cons.mp member with rfl | behind
            · exact le_refl _
            · exact le_of_lt ((List.pairwise_cons.mp ascending).1 other behind)
          have ids := SearchForest.ids_eq _
            (@SearchForest.Named.skip _ _ (fun sep => decide (sep < update.rowid)) _ named.1)
          rw [SearchForest.right_skip] at ids
          simp only [List.isEmpty_cons, Bool.false_eq_true, if_false, ← ids]
          apply (sweepChildren_skip children low high state steps laid.2 ordered nodupBelow
            reached from_).mono
          intro _ after swept
          rw [pending] at swept
          exact interior _ after swept

end Run

mutual

/-- A walk with the rowid alone comes to a row at or above it. -/
def finds (rowid : Int64) : TableTree → Bool
  | .leaf _ entries => entries.any (fun entry => rowid ≤ entry.rowid)
  | .node _ children => findsOne rowid children

/-- In the child that the rowid belongs to, or in the right-most one. -/
def findsOne (rowid : Int64) : TableForest → Bool
  | .nil => false
  | .last tree => finds rowid tree
  | .cons tree sep rest =>
    if sep < rowid then findsOne rowid rest else finds rowid tree || findsRight rowid rest

def findsRight (rowid : Int64) : TableForest → Bool
  | .nil => false
  | .last tree => finds rowid tree
  | .cons _ _ rest => findsRight rowid rest

end

mutual

/-- A walk that resolves `before` first comes to a row at or above the rowid. -/
def findsBehind (before rowid : Int64) : TableTree → Bool
  | .leaf _ entries => entries.any (fun entry => rowid ≤ entry.rowid)
  | .node _ children => findsBehindIn before rowid children

/-- In the child that resolves `before`, or in one behind it. -/
def findsBehindIn (before rowid : Int64) : TableForest → Bool
  | .nil => false
  | .last tree => findsBehind before rowid tree
  | .cons tree _ rest =>
    if tree.entries.any (fun entry => before ≤ entry.rowid) then
      findsBehind before rowid tree || rest.trees.any (finds rowid)
    else findsBehindIn before rowid rest

end

/-- A walk for the rowids comes to a row at or above the last of them. -/
def met (tree : TableTree) (rowids : List Int64) : Bool :=
  match rowids.reverse with
  | [] => true
  | [rowid] => finds rowid tree
  | rowid :: before :: _ => findsBehind before rowid tree

section Met

theorem above_iff {update : BulkUpdate} {entries : List LeafCell} :
    update.above entries = !entries.any (fun entry => update.rowid ≤ entry.rowid) := by
  rw [BulkUpdate.above, List.not_any_eq_all_not]
  congr 1
  funext entry
  rw [Bool.eq_iff_iff]
  simp

theorem filter_single {update : BulkUpdate} {entries : List LeafCell} :
    [update].filter (·.above entries) =
      if entries.any (fun entry => update.rowid ≤ entry.rowid) then [] else [update] := by
  rw [List.filter_cons, List.filter_nil, above_iff]
  cases entries.any (fun entry => update.rowid ≤ entry.rowid) <;> rfl

mutual

theorem unmet_single (update : BulkUpdate) : (tree : TableTree) →
    unmet tree [update] = if finds update.rowid tree then [] else [update]
  | .leaf _ _ => filter_single
  | .node _ children => unmetOne_eq update children

theorem unmetOne_eq (update : BulkUpdate) : (forest : TableForest) →
    unmetOne forest update = if findsOne update.rowid forest then [] else [update]
  | .nil => rfl
  | .last tree => unmet_single update tree
  | .cons tree sep rest => by
    rw [unmetOne, findsOne]
    split
    · exact unmetOne_eq update rest
    · rw [unmet_single update tree]
      cases finds update.rowid tree with
      | true => exact unmetRight_idle rest (by simp)
      | false => exact unmetRight_single update rest

theorem unmetRight_single (update : BulkUpdate) : (forest : TableForest) →
    unmetRight forest [update] = if findsRight update.rowid forest then [] else [update]
  | .nil => rfl
  | .last tree => unmet_single update tree
  | .cons _ _ rest => unmetRight_single update rest

end

theorem unmetAll_single (update : BulkUpdate) : (forest : TableForest) →
    unmetAll forest [update] = if forest.trees.any (finds update.rowid) then [] else [update]
  | .nil => rfl
  | .last tree => by simp [unmetAll, SearchForest.trees, unmet_single]
  | .cons tree _ rest => by
    rw [unmetAll, SearchForest.trees, List.any_cons, unmet_single]
    cases finds update.rowid tree with
    | true => exact unmetAll_idle rest (by simp)
    | false => exact unmetAll_single update rest

/-- What is left of a list of updates that ends with `before` and `update`. -/
def LeftOf (before update : BulkUpdate) (reaches finds : Bool) (left : List BulkUpdate) : Prop :=
  if reaches then left = if finds then [] else [update]
  else ∃ front, left = front ++ [before, update] ∧ ∀ other ∈ front, other.rowid < before.rowid

variable {before update : BulkUpdate}

theorem leftOf_leaf (ascending : before.rowid < update.rowid) (entries : List LeafCell)
    (front : List BulkUpdate) (sorted : ∀ other ∈ front, other.rowid < before.rowid) :
    LeftOf before update (entries.any (fun entry => before.rowid ≤ entry.rowid))
      (entries.any (fun entry => update.rowid ≤ entry.rowid))
      ((front ++ [before, update]).filter (·.above entries)) := by
  rw [LeftOf]
  cases reaches : entries.any (fun entry => before.rowid ≤ entry.rowid) with
  | true =>
    obtain ⟨entry, member, le⟩ := List.any_eq_true.mp reaches
    have notFront : front.filter (·.above entries) = [] := by
      rw [List.filter_eq_nil_iff]
      intro other listed above
      rw [BulkUpdate.above, List.all_eq_true] at above
      have below : entry.rowid < other.rowid := by simpa using above entry member
      exact absurd (lt_trans below (sorted other listed)) (not_lt.mpr (by simpa using le))
    have notBefore : before.above entries = false := by rw [above_iff, reaches]; rfl
    rw [if_pos rfl, List.filter_append, notFront, List.nil_append,
      List.filter_cons_of_neg (by simp [notBefore]), filter_single]
  | false =>
    have aboveBefore : before.above entries = true := by rw [above_iff, reaches]; rfl
    have aboveUpdate : update.above entries = true := by
      rw [BulkUpdate.above, List.all_eq_true] at aboveBefore ⊢
      intro entry member
      have below : entry.rowid < before.rowid := by simpa using aboveBefore entry member
      simpa using lt_trans below ascending
    rw [if_neg (by simp)]
    refine ⟨front.filter (·.above entries), ?_,
      fun other member => sorted other (List.mem_filter.mp member).1⟩
    rw [List.filter_append, List.filter_cons_of_pos aboveBefore,
      List.filter_cons_of_pos aboveUpdate, List.filter_nil]

theorem unmet_node {id : Nat} {children : TableForest} {front : List BulkUpdate} :
    unmet (.node id children) (front ++ [before, update]) =
      unmetAll children (front ++ [before, update]) := by
  match front with
  | [] => rfl
  | [_] => rfl
  | _ :: _ :: _ => rfl

mutual

theorem unmet_leftOf (ascending : before.rowid < update.rowid) : (tree : TableTree) →
    (front : List BulkUpdate) → (∀ other ∈ front, other.rowid < before.rowid) →
      LeftOf before update (tree.entries.any (fun entry => before.rowid ≤ entry.rowid))
        (findsBehind before.rowid update.rowid tree) (unmet tree (front ++ [before, update]))
  | .leaf _ entries, front, sorted => leftOf_leaf ascending entries front sorted
  | .node _ children, front, sorted => by
    rw [unmet_node]
    exact unmetAll_leftOf ascending children front sorted

theorem unmetAll_leftOf (ascending : before.rowid < update.rowid) : (forest : TableForest) →
    (front : List BulkUpdate) → (∀ other ∈ front, other.rowid < before.rowid) →
      LeftOf before update (forest.entries.any (fun entry => before.rowid ≤ entry.rowid))
        (findsBehindIn before.rowid update.rowid forest)
        (unmetAll forest (front ++ [before, update]))
  | .nil, front, sorted => ⟨front, rfl, sorted⟩
  | .last tree, front, sorted => unmet_leftOf ascending tree front sorted
  | .cons tree _ rest, front, sorted => by
    have first := unmet_leftOf ascending tree front sorted
    rw [SearchForest.entries, List.any_append, unmetAll, findsBehindIn]
    cases reaches : tree.entries.any (fun entry => before.rowid ≤ entry.rowid) with
    | true =>
      rw [reaches, LeftOf, if_pos rfl] at first
      rw [Bool.true_or, LeftOf, if_pos rfl, if_pos rfl, first]
      cases findsBehind before.rowid update.rowid tree with
      | true => exact unmetAll_idle rest (by simp)
      | false => exact unmetAll_single update rest
    | false =>
      rw [reaches, LeftOf, if_neg (by simp)] at first
      obtain ⟨front', left, sorted'⟩ := first
      rw [Bool.false_or, if_neg (by simp), left]
      exact unmetAll_leftOf ascending rest front' sorted'

end

mutual

theorem findsBehind_reaches {first second : Int64} (ascending : first < second) :
    (tree : TableTree) → findsBehind first second tree = true →
      tree.entries.any (fun entry => first ≤ entry.rowid) = true
  | .leaf _ entries, found => by
    rw [findsBehind, List.any_eq_true] at found
    obtain ⟨entry, member, le⟩ := found
    rw [SearchTree.entries, List.any_eq_true]
    refine ⟨entry, member, ?_⟩
    simp only [decide_eq_true_eq] at le ⊢
    exact le_trans (le_of_lt ascending) le
  | .node _ children, found => findsBehindIn_reaches ascending children found

theorem findsBehindIn_reaches {first second : Int64} (ascending : first < second) :
    (forest : TableForest) → findsBehindIn first second forest = true →
      forest.entries.any (fun entry => first ≤ entry.rowid) = true
  | .nil, found => by cases found
  | .last tree, found => findsBehind_reaches ascending tree found
  | .cons tree _ rest, found => by
    rw [SearchForest.entries, List.any_append, Bool.or_eq_true]
    rw [findsBehindIn] at found
    split at found
    · next reaches => exact Or.inl reaches
    · exact Or.inr (findsBehindIn_reaches ascending rest found)

end

/-- The walk leaves no update when it comes to a row at or above the last one. -/
theorem unmet_eq_nil_iff (tree : TableTree) (pending : List BulkUpdate)
    (sorted : pending.Pairwise (fun first second => first.rowid < second.rowid)) :
    unmet tree pending = [] ↔ met tree (pending.map BulkUpdate.rowid) = true := by
  rw [met, ← List.map_reverse]
  cases last : pending.reverse with
  | nil =>
    rw [List.reverse_eq_nil_iff.mp last]
    simp [unmet_idle]
  | cons update rest =>
    have whole : pending = rest.reverse ++ [update] := by
      rw [← List.reverse_reverse pending, last, List.reverse_cons]
    cases rest with
    | nil =>
      rw [whole]
      simp [unmet_single]
    | cons before front =>
      have parts : pending = front.reverse ++ [before, update] := by
        rw [whole, List.reverse_cons, List.append_assoc]
        rfl
      rw [parts] at sorted ⊢
      obtain ⟨-, two, apart⟩ := List.pairwise_append.mp sorted
      have ascending : before.rowid < update.rowid :=
        (List.pairwise_cons.mp two).1 update (List.mem_singleton_self _)
      have left := unmet_leftOf ascending tree front.reverse
        (fun other member => apart other member before (List.mem_cons_self ..))
      rw [LeftOf] at left
      show _ ↔ findsBehind before.rowid update.rowid tree = true
      split at left
      · rw [left]
        cases findsBehind before.rowid update.rowid tree <;> simp
      · next short =>
        obtain ⟨front', same, -⟩ := left
        rw [same]
        constructor
        · intro none
          simp at none
        · intro found
          exact absurd (findsBehind_reaches ascending tree found) short

end Met

end RustSql.Storage
