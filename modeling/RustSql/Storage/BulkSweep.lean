import RustSql.Storage.BulkUpdate

/-! A bulk update on a tree: which updates its walk leaves, and what it does with the others. -/

namespace RustSql.Storage

open RustSql.Foundation

def patchPage (updates : List BulkUpdate) : TablePage → TablePage
  | .leaf cells => .leaf (cells.map (patch updates))
  | page => page

/-- The store with the updates made on some pages. -/
def TableStore.patched (updates : List BulkUpdate) (pages : List Nat) (store : TableStore) :
    TableStore where
  page id := if id ∈ pages then (store.page id).map (patchPage updates) else store.page id
  assemble := store.assemble

section Pages

variable {store other : TableStore} {updates : List BulkUpdate}

theorem TableStore.patched_append {front back : List Nat}
    (apart : ∀ id ∈ front, id ∉ back) :
    (store.patched updates front).patched updates back = store.patched updates (front ++ back) := by
  unfold TableStore.patched
  congr 1
  funext id
  simp only [List.mem_append]
  by_cases here : id ∈ front
  · simp [here, apart id here]
  · simp [here]

mutual

/-- A patched tree is laid out on the patched pages. -/
theorem TableStore.Laid.patched : (tree : TableTree) → store.Laid tree →
    (∀ id ∈ tree.pages, other.page id = (store.page id).map (patchPage updates)) →
      other.Laid (tree.map (patch updates))
  | .leaf id entries, laid, same => by
    rw [SearchTree.map, TableStore.Laid, same id (List.mem_singleton_self _), laid]
    rfl
  | .node id children, laid, same => by
    rw [SearchTree.map, TableStore.Laid, same id (List.mem_cons_self ..), laid.1,
      SearchForest.cells_map, SearchForest.right_map]
    exact ⟨rfl, TableStore.LaidForest.patched children laid.2
      fun page member => same page (List.mem_cons_of_mem _ member)⟩

theorem TableStore.LaidForest.patched : (forest : TableForest) → store.LaidForest forest →
    (∀ id ∈ forest.pages, other.page id = (store.page id).map (patchPage updates)) →
      other.LaidForest (forest.map (patch updates))
  | .nil, _, _ => trivial
  | .last tree, laid, same => TableStore.Laid.patched tree laid same
  | .cons tree _ rest, laid, same =>
    ⟨TableStore.Laid.patched tree laid.1
        fun page member => same page (List.mem_append_left _ member),
      TableStore.LaidForest.patched rest laid.2
        fun page member => same page (List.mem_append_right _ member)⟩

end

mutual

/-- Where no entry has an update, the pages stay as they are. -/
theorem TableStore.Laid.idle : (tree : TableTree) → store.Laid tree →
    (∀ entry ∈ tree.entries, ∀ update ∈ updates, update.rowid ≠ entry.rowid) →
      ∀ id ∈ tree.pages, (store.page id).map (patchPage updates) = store.page id
  | .leaf id entries, laid, idle, page, member => by
    have each : ∀ entry ∈ entries, patch updates entry = entry :=
      fun entry inside => patch_idle (idle entry inside)
    have stays : entries.map (patch updates) = entries :=
      (List.map_congr_left each).trans (List.map_id' entries)
    rw [List.mem_singleton.mp member, show store.page id = .ok (.leaf entries) from laid,
      Except.map, patchPage, stays]
  | .node id children, laid, idle, page, member => by
    rcases List.mem_cons.mp member with rfl | below
    · rw [laid.1]
      rfl
    · exact TableStore.LaidForest.idle children laid.2 idle page below

theorem TableStore.LaidForest.idle : (forest : TableForest) → store.LaidForest forest →
    (∀ entry ∈ forest.entries, ∀ update ∈ updates, update.rowid ≠ entry.rowid) →
      ∀ id ∈ forest.pages, (store.page id).map (patchPage updates) = store.page id
  | .nil, _, _, _, member => by cases member
  | .last tree, laid, idle, page, member => TableStore.Laid.idle tree laid idle page member
  | .cons tree _ rest, laid, idle, page, member => by
    rcases List.mem_append.mp member with here | there
    · exact TableStore.Laid.idle tree laid.1
        (fun entry inside => idle entry (List.mem_append_left _ inside)) page here
    · exact TableStore.LaidForest.idle rest laid.2
        (fun entry inside => idle entry (List.mem_append_right _ inside)) page there

end

theorem TableStore.patched_idle {pages : List Nat}
    (idle : ∀ id ∈ pages, (store.page id).map (patchPage updates) = store.page id) :
    store.patched updates pages = store := by
  unfold TableStore.patched
  cases store with
  | mk page assemble =>
    congr 1
    funext id
    by_cases here : id ∈ pages
    · rw [if_pos here]
      exact idle id here
    · rw [if_neg here]

end Pages

mutual

/-- The updates that a walk leaves. With one update alone it only comes to the child that the
rowid belongs to, and to the right-most one. -/
def unmet : TableTree → List BulkUpdate → List BulkUpdate
  | .leaf _ entries, pending => pending.filter (·.above entries)
  | .node _ children, pending =>
    match pending with
    | [] => []
    | [update] => unmetOne children update
    | pending => unmetAll children pending

def unmetAll : TableForest → List BulkUpdate → List BulkUpdate
  | .nil, pending => pending
  | .last tree, pending => unmet tree pending
  | .cons tree _ rest, pending => unmetAll rest (unmet tree pending)

def unmetOne : TableForest → BulkUpdate → List BulkUpdate
  | .nil, update => [update]
  | .last tree, update => unmet tree [update]
  | .cons tree sep rest, update =>
    if sep < update.rowid then unmetOne rest update else unmetRight rest (unmet tree [update])

def unmetRight : TableForest → List BulkUpdate → List BulkUpdate
  | .nil, pending => pending
  | .last tree, pending => unmet tree pending
  | .cons _ _ rest, pending => unmetRight rest pending

end

theorem filter_above {entries : List LeafCell} {pending : List BulkUpdate}
    (above : ∀ entry ∈ entries, ∀ update ∈ pending, entry.rowid < update.rowid) :
    pending.filter (·.above entries) = pending := by
  rw [List.filter_eq_self]
  intro update member
  rw [BulkUpdate.above, List.all_eq_true]
  intro entry inside
  simpa using above entry inside update member

mutual

theorem unmet_idle {pending : List BulkUpdate} : (tree : TableTree) →
    (∀ entry ∈ tree.entries, ∀ update ∈ pending, entry.rowid < update.rowid) →
      unmet tree pending = pending
  | .leaf _ entries, above => filter_above above
  | .node _ children, above => by
    match pending with
    | [] => rfl
    | [update] => exact unmetOne_idle children above
    | first :: second :: rest => exact unmetAll_idle children above

theorem unmetAll_idle {pending : List BulkUpdate} : (forest : TableForest) →
    (∀ entry ∈ forest.entries, ∀ update ∈ pending, entry.rowid < update.rowid) →
      unmetAll forest pending = pending
  | .nil, _ => rfl
  | .last tree, above => unmet_idle tree above
  | .cons tree _ rest, above => by
    rw [unmetAll, unmet_idle tree fun entry member => above entry (List.mem_append_left _ member),
      unmetAll_idle rest fun entry member => above entry (List.mem_append_right _ member)]

theorem unmetOne_idle {update : BulkUpdate} : (forest : TableForest) →
    (∀ entry ∈ forest.entries, ∀ other ∈ [update], entry.rowid < other.rowid) →
      unmetOne forest update = [update]
  | .nil, _ => rfl
  | .last tree, above => unmet_idle tree above
  | .cons tree _ rest, above => by
    have later := fun entry member => above entry (List.mem_append_right _ member)
    rw [unmetOne, unmet_idle tree fun entry member => above entry (List.mem_append_left _ member),
      unmetOne_idle rest later, unmetRight_idle rest later, ite_self]

theorem unmetRight_idle {pending : List BulkUpdate} : (forest : TableForest) →
    (∀ entry ∈ forest.entries, ∀ update ∈ pending, entry.rowid < update.rowid) →
      unmetRight forest pending = pending
  | .nil, _ => rfl
  | .last tree, above => unmet_idle tree above
  | .cons _ _ rest, above =>
    unmetRight_idle rest fun entry member => above entry (List.mem_append_right _ member)

end

/-- The updates in front of the pending ones are for rowids up to `low`. -/
def Reached (all : List BulkUpdate) (low : Option Int64) (pending : List BulkUpdate) : Prop :=
  ∃ resolved, all = resolved ++ pending ∧
    ∀ update ∈ resolved, ∃ least ∈ low, update.rowid ≤ least

/-- What a walk over entries up to `high` does: the updates that it does not leave are made, or
deferred where they fit no entry. -/
structure Swept (all : List BulkUpdate) (entries : List LeafCell) (pages : List Nat)
    (high : Option Int64) (left : List BulkUpdate) (state after : BulkState) : Prop where
  store : after.store = state.store.patched all pages
  pending : after.pending = left
  done : ∃ done, state.pending = done ++ left ∧
    after.deferred = state.deferred ++ misfits entries done ∧
      ∀ update ∈ done, ∀ most ∈ high, update.rowid ≤ most
  missing : ∀ update ∈ left, ∀ entry ∈ entries, update.rowid ≠ entry.rowid

section Sweep

variable {all : List BulkUpdate} {low high : Option Int64} {state : BulkState}

/-- No update is for one of the entries. -/
def Idle (updates : List BulkUpdate) (entries : List LeafCell) : Prop :=
  ∀ entry ∈ entries, ∀ update ∈ updates, update.rowid ≠ entry.rowid

theorem Reached.idle {pending : List BulkUpdate} {entries : List LeafCell}
    (reached : Reached all low pending) (inside : ∀ entry ∈ entries, Within low high entry.rowid)
    (idle : Idle pending entries) : Idle all entries := by
  obtain ⟨resolved, rfl, below⟩ := reached
  intro entry member update listed
  rcases List.mem_append.mp listed with early | later
  · obtain ⟨least, bound, le⟩ := below update early
    exact ne_of_lt (lt_of_le_of_lt le ((inside entry member).1 least bound))
  · exact idle entry member update later

theorem Reached.mono {pending : List BulkUpdate} {sep : Int64} (reached : Reached all low pending)
    (bound : Within low high sep) : Reached all (some sep) pending := by
  obtain ⟨resolved, split, below⟩ := reached
  refine ⟨resolved, split, fun update member => ⟨sep, rfl, ?_⟩⟩
  obtain ⟨least, found, le⟩ := below update member
  exact le_trans le (le_of_lt (bound.1 least found))

/-- Pages without an update for one of their entries. -/
theorem Swept.idle {entries : List LeafCell} {pages : List Nat}
    (stays : ∀ id ∈ pages, (state.store.page id).map (patchPage all) = state.store.page id)
    (idle : Idle state.pending entries) :
    Swept all entries pages high state.pending state state where
  store := (TableStore.patched_idle stays).symm
  pending := rfl
  done := ⟨[], rfl, by simp [misfits], nofun⟩
  missing update member entry inside := idle entry inside update member

theorem Swept.reached {entries : List LeafCell} {pages : List Nat} {left : List BulkUpdate}
    {after : BulkState} {sep : Int64} (swept : Swept all entries pages (some sep) left state after)
    (reached : Reached all low state.pending) (bound : Within low high sep) :
    Reached all (some sep) left := by
  obtain ⟨resolved, split, below⟩ := reached.mono bound
  obtain ⟨done, parts, -, upTo⟩ := swept.done
  refine ⟨resolved ++ done, by rw [split, parts, List.append_assoc], fun update member => ?_⟩
  rcases List.mem_append.mp member with early | now
  · exact below update early
  · exact ⟨sep, rfl, upTo update now sep rfl⟩

theorem misfits_append {front back : List LeafCell} {first second : List BulkUpdate}
    (idleBack : Idle first back) (idleFront : Idle second front) :
    misfits (front ++ back) (first ++ second) = misfits front first ++ misfits back second := by
  have none {entries : List LeafCell} {updates : List BulkUpdate} (idle : Idle updates entries)
      (update : BulkUpdate) (member : update ∈ updates) : update.fitsIn entries = false := by
    rw [BulkUpdate.fitsIn, List.any_eq_false]
    intro entry inside
    have differ : (entry.rowid == update.rowid) = false := by
      simpa using (idle entry inside update member).symm
    simp [differ]
  unfold misfits
  rw [List.filter_append, List.map_append]
  congr 2
  · apply List.filter_congr
    intro update member
    have missed := none idleBack update member
    unfold BulkUpdate.fitsIn at missed ⊢
    rw [List.any_append, missed, Bool.or_false]
  · apply List.filter_congr
    intro update member
    have missed := none idleFront update member
    unfold BulkUpdate.fitsIn at missed ⊢
    rw [List.any_append, missed, Bool.false_or]

/-- One walk behind the other. -/
theorem Swept.append {front back : List LeafCell} {pages pages' : List Nat}
    {middle left : List BulkUpdate} {between after : BulkState} {sep : Int64}
    (first : Swept all front pages (some sep) middle state between)
    (second : Swept all back pages' high left between after)
    (behind : ∀ entry ∈ back, sep < entry.rowid) (bound : Within low high sep)
    (apart : ∀ id ∈ pages, id ∉ pages') :
    Swept all (front ++ back) (pages ++ pages') high left state after := by
  obtain ⟨done, parts, deferred, upTo⟩ := first.done
  obtain ⟨later, parts', deferred', upTo'⟩ := second.done
  rw [first.pending] at parts'
  refine ⟨?_, second.pending, ⟨done ++ later, ?_, ?_, ?_⟩, ?_⟩
  · rw [second.store, first.store, TableStore.patched_append apart]
  · rw [parts, parts', List.append_assoc]
  · rw [deferred', deferred, List.append_assoc, misfits_append]
    · intro entry member update now
      exact ne_of_lt (lt_of_le_of_lt (upTo update now sep rfl) (behind entry member))
    · intro entry member update now
      exact first.missing update (parts' ▸ List.mem_append_left _ now) entry member
  · intro update member most found
    rcases List.mem_append.mp member with early | now
    · exact le_trans (upTo update early sep rfl) (bound.2 most found)
    · exact upTo' update now most found
  · intro update member entry inside
    rcases List.mem_append.mp inside with here | there
    · exact first.missing update (parts' ▸ List.mem_append_right _ member) entry here
    · exact second.missing update member entry there

/-- The walk into a child. -/
def Sweeps (all : List BulkUpdate) (step : Nat → BulkM Unit) (tree : TableTree) : Prop :=
  ∀ (low high : Option Int64) (state : BulkState), state.store.Laid tree →
    tree.Ordered LeafCell.rowid low high → Reached all low state.pending →
      Succeeds (step tree.id) state (fun _ after =>
        Swept all tree.entries tree.pages high (unmet tree state.pending) state after)

variable {step : Nat → BulkM Unit}

theorem sweepChildren_none {ids : List Nat} (none : state.pending = [])
    {post : PUnit → BulkState → Prop} (holds : post ⟨⟩ state) :
    Succeeds (sweepChildren step ids) state post := by
  cases ids with
  | nil => simpa only [sweepChildren, Succeeds.pure_iff] using holds
  | cons child rest =>
    simp only [sweepChildren, Succeeds.bind_iff, Succeeds.get_iff, none, List.isEmpty_nil,
      if_true, Succeeds.pure_iff]
    exact holds

theorem sweepChildren_some {child : Nat} {rest : List Nat} (some_ : state.pending ≠ [])
    {post : PUnit → BulkState → Prop}
    (runs : Succeeds (step child) state (fun _ after =>
      Succeeds (sweepChildren step rest) after post)) :
    Succeeds (sweepChildren step (child :: rest)) state post := by
  have more : state.pending.isEmpty = false := by simpa using some_
  simp only [sweepChildren, Succeeds.bind_iff, Succeeds.get_iff, more, Bool.false_eq_true,
    if_false]
  exact runs

/-- Pages behind the updates that are left. -/
theorem Swept.behind {forest : TableForest} (laid : state.store.LaidForest forest)
    (ordered : forest.Ordered LeafCell.rowid low high) (reached : Reached all low state.pending)
    (idle : Idle state.pending forest.entries) :
    Swept all forest.entries forest.pages high state.pending state state :=
  Swept.idle (TableStore.LaidForest.idle forest laid
    (reached.idle (SearchForest.Ordered.sorted forest ordered).2 idle)) idle

theorem Swept.beside {tree : TableTree} (laid : state.store.Laid tree)
    (ordered : tree.Ordered LeafCell.rowid low high) (reached : Reached all low state.pending)
    (idle : Idle state.pending tree.entries) :
    Swept all tree.entries tree.pages high state.pending state state :=
  Swept.idle (TableStore.Laid.idle tree laid
    (reached.idle (SearchTree.Ordered.sorted tree ordered).2 idle)) idle

/-- A tree in front, and what the walk does on the forest behind it. -/
theorem Swept.cons {tree : TableTree} {sep : Int64} {rest : TableForest} {middle left : List BulkUpdate}
    {between after : BulkState} (nodup : (SearchForest.cons tree sep rest).pages.Nodup)
    (ordered : (SearchForest.cons tree sep rest).Ordered LeafCell.rowid low high)
    (first : Swept all tree.entries tree.pages (some sep) middle state between)
    (second : Swept all rest.entries rest.pages high left between after) :
    Swept all (SearchForest.cons tree sep rest).entries (SearchForest.cons tree sep rest).pages high
      left state after :=
  first.append second
    (fun entry member =>
      ((SearchForest.Ordered.sorted rest ordered.2.2).2 entry member).1 sep rfl)
    ordered.1 (fun _ here there => (List.nodup_append.mp nodup).2.2 _ here _ there rfl)

/-- The forest behind a tree is still laid out when the walk is through with the tree. -/
theorem Swept.laid {tree : TableTree} {sep : Int64} {rest : TableForest} {middle : List BulkUpdate}
    {between : BulkState} {most : Option Int64}
    (nodup : (SearchForest.cons tree sep rest).pages.Nodup)
    (first : Swept all tree.entries tree.pages most middle state between)
    (laid : state.store.LaidForest rest) : between.store.LaidForest rest := by
  apply TableStore.LaidForest.congr rest laid
  intro id member
  have outside : id ∉ tree.pages := fun here =>
    (List.nodup_append.mp nodup).2.2 id here id member rfl
  rw [first.store, TableStore.patched]
  exact if_neg outside

theorem sweepChildren_all : (forest : TableForest) → (low high : Option Int64) →
    (state : BulkState) → (∀ tree ∈ forest.trees, Sweeps all step tree) →
      state.store.LaidForest forest → forest.Ordered LeafCell.rowid low high →
        forest.pages.Nodup → Reached all low state.pending →
          Succeeds (sweepChildren step (forest.trees.map SearchTree.id)) state (fun _ after =>
            Swept all forest.entries forest.pages high (unmetAll forest state.pending) state after)
  | .nil, low, high, state, _, laid, ordered, _, reached => by
    simp only [SearchForest.trees, List.map_nil, sweepChildren, Succeeds.pure_iff]
    exact Swept.behind laid ordered reached (by rintro _ ⟨⟩)
  | .last tree, low, high, state, steps, laid, ordered, _, reached => by
    by_cases none : state.pending = []
    · apply sweepChildren_none none
      rw [unmetAll_idle _ (by simp [none])]
      exact Swept.behind laid ordered reached (by simp [none, Idle])
    · apply sweepChildren_some none
      apply (steps tree (List.mem_singleton_self _) low high state laid ordered reached).mono
      intro _ after swept
      simp only [List.map_nil, sweepChildren, Succeeds.pure_iff]
      exact swept
  | .cons tree sep rest, low, high, state, steps, laid, ordered, nodup, reached => by
    by_cases none : state.pending = []
    · apply sweepChildren_none none
      rw [unmetAll_idle _ (by simp [none])]
      exact Swept.behind laid ordered reached (by simp [none, Idle])
    · apply sweepChildren_some none
      apply (steps tree (List.mem_cons_self ..) low (some sep) state laid.1 ordered.2.1
        reached).mono
      intro _ between first
      have onward := first.reached reached ordered.1
      rw [← first.pending] at onward
      apply (sweepChildren_all rest (some sep) high between
        (fun child member => steps child (List.mem_cons_of_mem _ member))
        (first.laid nodup laid.2) ordered.2.2 (List.nodup_append.mp nodup).2.1 onward).mono
      intro _ after second
      rw [first.pending] at second
      exact first.cons nodup ordered second

/-- Children in front of the first update are skipped. -/
theorem sweepChildren_skip {front : Int64} : (forest : TableForest) → (low high : Option Int64) →
    (state : BulkState) → (∀ tree ∈ forest.trees, Sweeps all step tree) →
      state.store.LaidForest forest → forest.Ordered LeafCell.rowid low high →
        forest.pages.Nodup → Reached all low state.pending →
          (∀ update ∈ state.pending, front ≤ update.rowid) →
            Succeeds (sweepChildren step
              ((forest.skip (fun sep => decide (sep < front))).trees.map SearchTree.id)) state
              (fun _ after => Swept all forest.entries forest.pages high
                (unmetAll forest state.pending) state after)
  | .nil, low, high, state, steps, laid, ordered, nodup, reached, _
  | .last _, low, high, state, steps, laid, ordered, nodup, reached, _ =>
    sweepChildren_all _ low high state steps laid ordered nodup reached
  | .cons tree sep rest, low, high, state, steps, laid, ordered, nodup, reached, from_ => by
    rw [SearchForest.skip]
    split
    · next skipped =>
      have above (entry : LeafCell) (member : entry ∈ tree.entries) (update : BulkUpdate)
          (listed : update ∈ state.pending) : entry.rowid < update.rowid := by
        have le := ((SearchTree.Ordered.sorted tree ordered.2.1).2 entry member).2 sep rfl
        exact lt_of_le_of_lt le (lt_of_lt_of_le (of_decide_eq_true skipped) (from_ update listed))
      have first := Swept.beside laid.1 ordered.2.1 reached
        fun entry member update listed => ne_of_gt (above entry member update listed)
      apply (sweepChildren_skip rest (some sep) high state
        (fun child member => steps child (List.mem_cons_of_mem _ member)) laid.2 ordered.2.2
        (List.nodup_append.mp nodup).2.1 (reached.mono ordered.1) from_).mono
      intro _ after second
      rw [unmetAll, unmet_idle tree above]
      exact first.cons nodup ordered second
    · exact sweepChildren_all _ low high state steps laid ordered nodup reached

/-- A walk into the right-most child alone. -/
theorem sweepChildren_right : (forest : TableForest) → (low high : Option Int64) →
    (state : BulkState) → (∀ tree ∈ forest.trees, Sweeps all step tree) → forest.Named →
      state.store.LaidForest forest → forest.Ordered LeafCell.rowid low high →
        forest.pages.Nodup → Reached all low state.pending →
          (∀ update ∈ state.pending, ∃ least ∈ low, update.rowid ≤ least) →
            Succeeds (sweepChildren step (if forest.right = 0 then [] else [forest.right])) state
              (fun _ after => Swept all forest.entries forest.pages high
                (unmetRight forest state.pending) state after)
  | .nil, low, high, state, steps, _, laid, ordered, nodup, reached, _ =>
    sweepChildren_all .nil low high state steps laid ordered nodup reached
  | .last tree, low, high, state, steps, named, laid, ordered, nodup, reached, _ => by
    have right : SearchForest.right (.last tree) ≠ 0 := named tree (List.mem_singleton_self _)
    rw [if_neg right]
    exact sweepChildren_all (.last tree) low high state steps laid ordered nodup reached
  | .cons tree sep rest, low, high, state, steps, named, laid, ordered, nodup, reached, below => by
    have first := Swept.beside laid.1 ordered.2.1 reached fun entry member update listed => by
      obtain ⟨least, found, le⟩ := below update listed
      have inside := (SearchTree.Ordered.sorted tree ordered.2.1).2 entry member
      exact ne_of_lt (lt_of_le_of_lt le (inside.1 least found))
    apply (sweepChildren_right rest (some sep) high state
      (fun child member => steps child (List.mem_cons_of_mem _ member))
      (fun child member => named child (List.mem_cons_of_mem _ member)) laid.2 ordered.2.2
      (List.nodup_append.mp nodup).2.1 (reached.mono ordered.1) (fun update listed => ?_)).mono
    · intro _ after second
      exact first.cons nodup ordered second
    · obtain ⟨least, found, le⟩ := below update listed
      exact ⟨sep, rfl, le_trans le (le_of_lt (ordered.1.1 least found))⟩

/-- With one update alone, the child that it belongs to and the right-most one. -/
theorem sweepChildren_one {update : BulkUpdate} : (forest : TableForest) →
    (low high : Option Int64) → (state : BulkState) →
      (∀ tree ∈ forest.trees, Sweeps all step tree) → forest.Named →
        state.store.LaidForest forest → forest.Ordered LeafCell.rowid low high →
          forest.pages.Nodup → Reached all low state.pending → state.pending = [update] →
            Succeeds (sweepChildren step
              (((forest.skip (fun sep => decide (sep < update.rowid))).cells.map Prod.fst).take 1 ++
                if forest.right = 0 then [] else [forest.right])) state
              (fun _ after => Swept all forest.entries forest.pages high (unmetOne forest update)
                state after)
  | .nil, low, high, state, steps, _, laid, ordered, nodup, reached, single => by
    rw [unmetOne, ← single]
    exact sweepChildren_all .nil low high state steps laid ordered nodup reached
  | .last tree, low, high, state, steps, named, laid, ordered, nodup, reached, single => by
    have right : SearchForest.right (.last tree) ≠ 0 := named tree (List.mem_singleton_self _)
    rw [if_neg right, unmetOne, ← single]
    exact sweepChildren_all (.last tree) low high state steps laid ordered nodup reached
  | .cons tree sep rest, low, high, state, steps, named, laid, ordered, nodup, reached, single => by
    have later := fun child member => steps child (List.mem_cons_of_mem tree member)
    have namedRest : rest.Named := fun child member => named child (List.mem_cons_of_mem _ member)
    rw [SearchForest.skip, unmetOne]
    by_cases skipped : sep < update.rowid
    · rw [if_pos (decide_eq_true skipped), if_pos skipped]
      have first := Swept.beside laid.1 ordered.2.1 reached fun entry member other listed => by
        rw [single, List.mem_singleton] at listed
        have le := ((SearchTree.Ordered.sorted tree ordered.2.1).2 entry member).2 sep rfl
        exact listed ▸ ne_of_gt (lt_of_le_of_lt le skipped)
      apply (sweepChildren_one rest (some sep) high state later namedRest laid.2 ordered.2.2
        (List.nodup_append.mp nodup).2.1 (reached.mono ordered.1) single).mono
      intro _ after second
      rw [single] at first
      exact first.cons nodup ordered second
    · rw [if_neg (by simpa using skipped), if_neg skipped]
      apply sweepChildren_some (by simp [single])
      apply (steps tree (List.mem_cons_self ..) low (some sep) state laid.1 ordered.2.1
        reached).mono
      intro _ between first
      have onward := first.reached reached ordered.1
      have few (other : BulkUpdate) (listed : other ∈ between.pending) : other = update := by
        obtain ⟨done, parts, -⟩ := first.done
        rw [← first.pending, single] at parts
        exact List.mem_singleton.mp (parts ▸ List.mem_append_right _ listed)
      rw [← first.pending] at onward
      apply (sweepChildren_right rest (some sep) high between later namedRest
        (first.laid nodup laid.2) ordered.2.2 (List.nodup_append.mp nodup).2.1 onward
        (fun other listed => ⟨sep, rfl, few other listed ▸ not_lt.mp skipped⟩)).mono
      intro _ after second
      rw [first.pending, single] at second
      rw [single] at first
      exact first.cons nodup ordered second

end Sweep

end RustSql.Storage
