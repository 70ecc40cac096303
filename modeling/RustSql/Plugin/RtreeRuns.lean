import RustSql.Foundation.GuardedRun
import RustSql.Plugin.RtreeBoxes

/-! Removal by the walk of the source, and what a run of insertions and removals keeps: the tree
holds the boxes of the map, as long as every removal comes to its leaf. -/

namespace RustSql.Plugin.Rtree

open RustSql.Foundation RustSql.Foundation.SummaryEntry

variable {dims : Nat}

theorem removeRec_leaf (id : Int64) (item : Int64 × BBox dims) (rest : RTreeNode dims) :
    removeRec id (.leaf item :: rest) =
      if item.1 = id then (rest, true)
      else (.leaf item :: (removeRec id rest).1, (removeRec id rest).2) := by
  rw [removeRec, removeEntry]
  by_cases here : item.1 = id
  · simp [here]
  · simp [here]

theorem removeRec_interior (id : Int64) (child : RTreeNode dims) (bbox : BBox dims) (rest : RTreeNode dims) :
    removeRec id (.interior child bbox :: rest) =
      if (removeRec id child).2 = false ∧ (removeRec id child).1 = [] then removeRec id rest
      else (.interior (removeRec id child).1 (nodeBox (removeRec id child).1) :: rest, true) := by
  rw [removeRec, removeEntry]
  by_cases gone : (removeRec id child).2 = false ∧ (removeRec id child).1 = []
  · simp [gone]
  · have kept : (!(removeRec id child).2 && (removeRec id child).1.isEmpty) = false := by
      simpa using gone
    simp [gone, kept]

mutual

/-- The walk comes to the leaf of this id: no child with a leaf below it stands before. -/
def Reaches (id : Int64) : RTreeNode dims → Prop
  | [] => False
  | e :: rest => ReachesEntry id e ∨ (Passed e ∧ Reaches id rest)

def ReachesEntry (id : Int64) : NodeEntry dims → Prop
  | .leaf item => item.1 = id
  | .interior child _ => Reaches id child

/-- The walk goes on behind a leaf, and behind a child with no leaf below it. -/
def Passed : NodeEntry dims → Prop
  | .leaf _ => True
  | .interior child _ => items child = []

end

theorem mem_of_reaches {id : Int64} {node : RTreeNode dims} (reaches : Reaches id node) :
    ∃ item ∈ items node, item.1 = id := by
  induction node using nodeInduction with
  | nil => exact reaches.elim
  | leaf item rest ih =>
    rcases reaches with here | ⟨_, later⟩
    · exact ⟨item, .head _, here⟩
    · obtain ⟨other, member, same⟩ := ih later
      exact ⟨other, .tail _ member, same⟩
  | interior child bbox rest inner ih =>
    rcases reaches with here | ⟨_, later⟩
    · obtain ⟨item, member, same⟩ := inner here
      exact ⟨item, List.mem_append_left _ member, same⟩
    · obtain ⟨item, member, same⟩ := ih later
      exact ⟨item, List.mem_append_right _ member, same⟩

/-- A removal takes the leaf that its walk comes to, and else drops the children without leaves
at most. -/
theorem removeRec_items (id : Int64) (node : RTreeNode dims) :
    (Reaches id node → (removeRec id node).2 = true ∧
      items (removeRec id node).1 = (items node).eraseP (fun item => item.1 = id)) ∧
    (¬ Reaches id node → items (removeRec id node).1 = items node ∧
      (items node = [] → removeRec id node = ([], false))) := by
  induction node using nodeInduction with
  | nil => exact ⟨False.elim, fun _ => ⟨rfl, fun _ => rfl⟩⟩
  | leaf item rest ih =>
    rw [removeRec_leaf]
    by_cases here : item.1 = id
    · rw [if_pos here]
      refine ⟨fun _ => ⟨rfl, ?_⟩, fun missed => absurd (.inl here) missed⟩
      simp [entryItems, here]
    · rw [if_neg here]
      constructor
      · intro reaches
        obtain ⟨ended, left⟩ := ih.1 (reaches.resolve_left here).2
        exact ⟨ended, by simp [entryItems, here, left]⟩
      · intro missed
        obtain ⟨left, _⟩ := ih.2 fun reaches => missed (.inr ⟨trivial, reaches⟩)
        exact ⟨by simp [left], fun empty => by simp [entryItems] at empty⟩
  | interior child bbox rest inner ih =>
    rw [removeRec_interior]
    by_cases below : Reaches id child
    · obtain ⟨ended, left⟩ := inner.1 below
      rw [if_neg fun gone => by rw [ended] at gone; cases gone.1]
      refine ⟨fun _ => ⟨rfl, ?_⟩, fun missed => absurd (.inl below) missed⟩
      obtain ⟨item, member, same⟩ := mem_of_reaches below
      rw [items_cons, items_cons, entryItems, entryItems, left,
        List.eraseP_append_left (by simpa using same) _ member]
    · obtain ⟨kept, hollow⟩ := inner.2 below
      by_cases empty : items child = []
      · rw [if_pos (by rw [hollow empty]; exact ⟨rfl, rfl⟩)]
        constructor
        · intro reaches
          obtain ⟨ended, left⟩ := ih.1 (reaches.resolve_left below).2
          exact ⟨ended, by simp [entryItems, empty, left]⟩
        · intro missed
          obtain ⟨left, gone⟩ := ih.2 fun reaches => missed (.inr ⟨empty, reaches⟩)
          exact ⟨by simp [entryItems, empty, left], fun none => gone (List.append_eq_nil_iff.mp none).2⟩
      · have stays : ¬ ((removeRec id child).2 = false ∧ (removeRec id child).1 = []) := by
          rintro ⟨_, none⟩
          rw [none] at kept
          exact empty kept.symm
        rw [if_neg stays]
        refine ⟨fun reaches => ?_, fun _ => ⟨by simp [entryItems, kept], fun none => ?_⟩⟩
        · exact absurd (reaches.resolve_left below).1 empty
        · exact absurd (List.append_eq_nil_iff.mp none).1 empty

theorem removeRec_sound (id : Int64) {node : RTreeNode dims} (sound : Sound node) :
    Sound (removeRec id node).1 := by
  induction node using nodeInduction with
  | nil => exact sound
  | leaf item rest ih =>
    have later : Sound rest := sound.of_subset (List.subset_cons_self _ _)
    have here : Sound [SummaryEntry.leaf item] := sound.of_subset (by simp)
    rw [removeRec_leaf]
    split
    · exact later
    · exact here.append (ih later)
  | interior child bbox rest inner ih =>
    have later : Sound rest := sound.of_subset (List.subset_cons_self _ _)
    have kept : Sound (removeRec id child).1 :=
      inner ⟨sound.covered.1.2, fun item member => sound.proper item (List.mem_append_left _ member)⟩
    rw [removeRec_interior]
    split
    · exact ih later
    · exact (sound_interior kept kept.encloses).append later

/-- Of items with different ids the first of an id is the only one. -/
theorem eraseP_eq_filter {entries : List (Int64 × BBox dims)} (distinct : (entries.map (·.1)).Nodup) (id : Int64) :
    entries.eraseP (fun item => item.1 = id) = entries.filter (fun item => item.1 ≠ id) := by
  induction entries with
  | nil => rfl
  | cons item rest ih =>
    rw [List.map_cons, List.nodup_cons] at distinct
    by_cases here : item.1 = id
    · have others : ∀ other ∈ rest, other.1 ≠ id := by
        intro other member same
        exact distinct.1 (here ▸ same ▸ List.mem_map_of_mem member)
      simpa [here] using (List.filter_eq_self.mpr (by simpa using others)).symm
    · simpa [here] using ih distinct.2

/-- The tree, and the map of boxes that it stands for. -/
structure Mapped (dims : Nat) where
  root : RTreeNode dims
  boxes : Int64 → Option (BBox dims)

inductive Call (dims : Nat) where
  | insert (id : Int64) (bbox : BBox dims)
  | remove (id : Int64)

def Mapped.opened (dims : Nat) : Mapped dims := ⟨[], fun _ => none⟩

/-- What a call makes of the map. -/
def boxesAfter (boxes : Int64 → Option (BBox dims)) : Call dims → Int64 → Option (BBox dims)
  | .insert id bbox => Function.update boxes id (some bbox)
  | .remove id => Function.update boxes id none

/-- What a call makes of the tree. -/
def rootAfter (root : RTreeNode dims) : Call dims → Option (RTreeNode dims)
  | .insert id bbox => insert root id bbox
  | .remove id => some (remove root id)

def Step (s : Mapped dims) (call : Call dims) (_ : Unit) (after : Mapped dims) : Prop :=
  rootAfter s.root call = some after.root ∧ after.boxes = boxesAfter s.boxes call

/-- New ids come with proper boxes, and ids that are there are removed. -/
def Admissible (s : Mapped dims) : Call dims → Prop
  | .insert id bbox => s.boxes id = none ∧ bbox.Proper
  | .remove id => s.boxes id ≠ none

/-- A removal comes to its leaf. -/
def Reached (s : Mapped dims) : Call dims → Prop
  | .insert _ _ => True
  | .remove id => Reaches id s.root

/-- The query finds what the map holds, each box once. -/
def Exact (s : Mapped dims) : Prop :=
  ∀ cons : List (DimConstraint dims), (query s.root cons).Nodup ∧ ∀ id bbox,
    (id, bbox) ∈ query s.root cons ↔
      s.boxes id = some bbox ∧ ∀ c ∈ cons, c.acceptsStandalone bbox = true

/-- The tree holds the map. -/
structure Inv (s : Mapped dims) : Prop where
  sound : Sound s.root
  distinct : ((items s.root).map (·.1)).Nodup
  mem_iff : ∀ id bbox, (id, bbox) ∈ items s.root ↔ s.boxes id = some bbox

theorem opened_inv : Inv (Mapped.opened dims) where
  sound := ⟨trivial, fun item member => by cases member⟩
  distinct := List.nodup_nil
  mem_iff id bbox := ⟨fun member => (List.not_mem_nil member).elim, fun found => nomatch found⟩

theorem Inv.exact {s : Mapped dims} (inv : Inv s) : Exact s := by
  intro cons
  rw [query_eq inv.sound]
  refine ⟨(inv.distinct.of_map _).filter _, fun id bbox => ?_⟩
  rw [List.mem_filter, inv.mem_iff, List.all_eq_true]

theorem Inv.inserted {s after : Mapped dims} (inv : Inv s) {id : Int64} {bbox : BBox dims}
    (fresh : s.boxes id = none) (sound : Sound after.root)
    (perm : (items after.root).Perm ((id, bbox) :: items s.root))
    (stored : after.boxes = Function.update s.boxes id (some bbox)) : Inv after := by
  have new : id ∉ (items s.root).map (·.1) := by
    intro member
    obtain ⟨⟨_, other⟩, found, rfl⟩ := List.mem_map.mp member
    rw [(inv.mem_iff _ _).mp found] at fresh
    cases fresh
  refine ⟨sound, (perm.map _).nodup_iff.mpr (List.nodup_cons.mpr ⟨new, inv.distinct⟩), fun other b => ?_⟩
  rw [perm.mem_iff, List.mem_cons, stored, inv.mem_iff, Prod.mk.injEq]
  by_cases same : other = id
  · subst same
    simp [fresh, eq_comm]
  · simp [same]

theorem Inv.removed {s after : Mapped dims} (inv : Inv s) {id : Int64} (reaches : Reaches id s.root)
    (left : after.root = remove s.root id) (stored : after.boxes = Function.update s.boxes id none) :
    Inv after := by
  have erased : items after.root = (items s.root).filter (fun item => item.1 ≠ id) := by
    rw [left, remove, ((removeRec_items id s.root).1 reaches).2, eraseP_eq_filter inv.distinct]
  refine ⟨left ▸ removeRec_sound id inv.sound, ?_, fun other b => ?_⟩
  · rw [erased]
    exact inv.distinct.sublist (List.filter_sublist.map _)
  · rw [erased, List.mem_filter, stored, inv.mem_iff]
    by_cases same : other = id
    · subst same
      simp
    · simp [same]

theorem Inv.step {s after : Mapped dims} (inv : Inv s) {call : Call dims} {result : Unit}
    (admissible : Admissible s call) (reached : Reached s call) (stepped : Step s call result after) :
    Inv after := by
  obtain ⟨grown, stored⟩ := stepped
  cases call with
  | insert id bbox =>
    obtain ⟨root, done, sound, perm⟩ := insert_some inv.sound admissible.2
    have same : root = after.root := Option.some.inj (done.symm.trans grown)
    exact inv.inserted admissible.1 (same ▸ sound) (same ▸ perm) stored
  | remove id => exact inv.removed reached (Option.some.inj grown).symm stored

/-- No call fails. -/
theorem Inv.steps {s : Mapped dims} (inv : Inv s) {call : Call dims} (admissible : Admissible s call) :
    ∃ after, Step s call () after := by
  cases call with
  | insert id bbox =>
    obtain ⟨root, done, _⟩ := insert_some inv.sound admissible.2
    exact ⟨⟨root, _⟩, done, rfl⟩
  | remove id => exact ⟨⟨remove s.root id, _⟩, rfl, rfl⟩

/-- A removal that does not come to its leaf leaves it in the tree. -/
theorem Inv.reached_of_exact {s after : Mapped dims} (inv : Inv s) {call : Call dims} {result : Unit}
    (admissible : Admissible s call) (stepped : Step s call result after) (exact : Exact after) :
    Reached s call := by
  obtain ⟨left, stored⟩ := stepped
  cases call with
  | insert id bbox => trivial
  | remove id =>
    by_contra missed
    obtain ⟨bbox, held⟩ := Option.ne_none_iff_exists'.mp admissible
    have same : items after.root = items s.root := by
      rw [← Option.some.inj left, remove, ((removeRec_items id s.root).2 missed).1]
    have sound : Sound after.root := Option.some.inj left ▸ removeRec_sound id inv.sound
    have found : (id, bbox) ∈ query after.root [] := by
      rw [query_eq sound, same]
      simpa using (inv.mem_iff id bbox).mpr held
    have kept := (((exact []).2 id bbox).mp found).1
    rw [stored] at kept
    simp [boxesAfter] at kept

theorem run_inv {calls : List (Call dims)} {s : Mapped dims}
    (run : Run Step (fun s call => Admissible s call ∧ Reached s call) (Mapped.opened dims) calls s) : Inv s :=
  run.invariant Inv (fun _ _ _ _ inv allowed stepped => inv.step allowed.1 allowed.2 stepped) opened_inv

/-- Along a run whose removals come to their leaves the tree is the map, and the next call keeps
it so exactly when it comes to its leaf as well. -/
theorem rtree_is_map {calls : List (Call dims)} {s : Mapped dims}
    (run : Run Step (fun s call => Admissible s call ∧ Reached s call) (Mapped.opened dims) calls s) :
    Exact s ∧ ∀ call, Admissible s call → ∃ after, Step s call () after ∧ (Exact after ↔ Reached s call) := by
  have inv := run_inv run
  refine ⟨inv.exact, fun call admissible => ?_⟩
  obtain ⟨after, stepped⟩ := inv.steps admissible
  exact ⟨after, stepped, inv.reached_of_exact admissible stepped,
    fun reached => (inv.step admissible reached stepped).exact⟩

/-- A map without an id has no item with it, in particular no leaf. -/
theorem Inv.fresh {s : Mapped dims} (inv : Inv s) {id : Int64} (absent : id ∉ (items s.root).map (·.1)) :
    s.boxes id = none := by
  by_contra held
  obtain ⟨bbox, held⟩ := Option.ne_none_iff_exists'.mp held
  exact absent (List.mem_map_of_mem ((inv.mem_iff id bbox).mpr held))

theorem items_leaves (entries : List (Int64 × BBox dims)) :
    items (entries.map .leaf : RTreeNode dims) = entries := by
  induction entries with
  | nil => rfl
  | cons e rest ih => rw [List.map_cons, items_cons, ih]; rfl

def inserts (entries : List (Int64 × BBox dims)) : List (Call dims) :=
  entries.map fun e => .insert e.1 e.2

section Inserts

variable {entries : List (Int64 × BBox dims)}

/-- A run of insertions that no node is too small for. -/
theorem run_inserts (proper : ∀ e ∈ entries, e.2.Proper) (distinct : (entries.map (·.1)).Nodup)
    (room : entries.length ≤ MAX_ENTRIES) : ∃ s,
      Run Step (fun s call => Admissible s call ∧ Reached s call) (Mapped.opened dims) (inserts entries) s ∧
        s.root = entries.map .leaf := by
  induction entries using List.reverseRecOn with
  | nil => exact ⟨_, .refl, rfl⟩
  | append_singleton entries e ih =>
    rw [List.length_append, List.length_singleton] at room
    rw [List.map_append] at distinct
    obtain ⟨old, _, apart⟩ := List.nodup_append.mp distinct
    obtain ⟨s, run, grown⟩ := ih (fun e member => proper e (List.mem_append_left _ member)) old (by omega)
    have fresh : s.boxes e.1 = none := (run_inv run).fresh fun member => by
      rw [grown, items_leaves] at member
      exact apart _ member _ (List.mem_singleton_self _) rfl
    have stepped : Step s (.insert e.1 e.2) () ⟨_, boxesAfter s.boxes (.insert e.1 e.2)⟩ :=
      ⟨insert_room (by rw [grown, List.length_map]; omega) e.1 e.2, rfl⟩
    have proper := proper e (List.mem_append_right _ (List.mem_singleton_self _))
    rw [inserts, List.map_append]
    exact ⟨_, run.next ⟨⟨fresh, proper⟩, trivial⟩ stepped, by rw [grown, List.map_append]; rfl⟩

/-- One box more than a node holds makes two children, which share the leaves. -/
theorem run_split {e : Int64 × BBox dims} (proper : ∀ other ∈ entries ++ [e], other.2.Proper)
    (distinct : ((entries ++ [e]).map (·.1)).Nodup) (full : entries.length = MAX_ENTRIES) :
    ∃ s one two left right leftBox rightBox,
      Run Step (fun s call => Admissible s call ∧ Reached s call) (Mapped.opened dims)
        (inserts (entries ++ [e])) s ∧
      s.root = [.interior (.leaf one :: left) leftBox, .interior (.leaf two :: right) rightBox] := by
  rw [List.map_append] at distinct
  obtain ⟨old, _, apart⟩ := List.nodup_append.mp distinct
  obtain ⟨s, run, grown⟩ := run_inserts (fun e member => proper e (List.mem_append_left _ member)) old
    (Nat.le_of_eq full)
  have fresh : s.boxes e.1 = none := (run_inv run).fresh fun member => by
    rw [grown, items_leaves] at member
    exact apart _ member _ (List.mem_singleton_self _) rfl
  have proper := proper e (List.mem_append_right _ (List.mem_singleton_self _))
  obtain ⟨left, right, rightBox, split, perm, nonempty, _⟩ := @insert_full _ _ (run_inv run).sound
    (by rw [grown, List.length_map, full]) e.1 _ proper
  have stepped : Step s (.insert e.1 e.2) () ⟨_, boxesAfter s.boxes (.insert e.1 e.2)⟩ := ⟨split, rfl⟩
  have leaves : ∀ e ∈ left ++ right, ∃ item, SummaryEntry.leaf item = e := by
    intro e member
    rw [perm.mem_iff, grown] at member
    rcases List.mem_append.mp member with old | new
    · obtain ⟨item, _, is⟩ := List.mem_map.mp old
      exact ⟨item, is⟩
    · exact ⟨_, (List.mem_singleton.mp new).symm⟩
  obtain ⟨first, left, rfl⟩ := List.exists_cons_of_ne_nil nonempty.1
  obtain ⟨second, right, rfl⟩ := List.exists_cons_of_ne_nil nonempty.2
  obtain ⟨one, rfl⟩ := leaves first (by simp)
  obtain ⟨two, rfl⟩ := leaves second (by simp)
  rw [inserts, List.map_append]
  exact ⟨_, one, two, left, right, _, rightBox, run.next ⟨⟨fresh, proper⟩, trivial⟩ stepped, rfl⟩

end Inserts

/-- Boxes under their numbers. -/
def numbered (box : Nat → BBox 1) (n : Nat) : List (Int64 × BBox 1) :=
  (List.range n).map fun i => (Int64.ofNat i, box i)

theorem run_numbered {box : Nat → BBox 1} (proper : ∀ i < 33, (box i).Proper) :
    ∃ s one two left right leftBox rightBox,
      Run Step (fun s call => Admissible s call ∧ Reached s call) (Mapped.opened 1)
        (inserts (numbered box 33)) s ∧
      s.root = [.interior (.leaf one :: left) leftBox, .interior (.leaf two :: right) rightBox] := by
  have split : numbered box 33 = numbered box 32 ++ [(32, box 32)] := by
    rw [numbered, List.range_succ, List.map_append]
    rfl
  have ids : (numbered box 33).map (·.1) = (List.range 33).map Int64.ofNat := by
    rw [numbered, List.map_map]
    rfl
  have whole : ∀ e ∈ numbered box 33, e.2.Proper := by
    intro e member
    obtain ⟨i, inside, rfl⟩ := List.mem_map.mp member
    exact proper i (List.mem_range.mp inside)
  have distinct : ((numbered box 33).map (·.1)).Nodup := by
    rw [ids]
    decide
  rw [split] at whole distinct ⊢
  exact run_split whole distinct (by rw [numbered, List.length_map, List.length_range]; rfl)

/-- The points 0 to 32 split the root, and a leaf of the first child is removed. -/
theorem rtree_is_map_split : ∃ (s after : Mapped 1) (id : Int64),
    Run Step (fun s call => Admissible s call ∧ Reached s call) (Mapped.opened 1)
      (inserts (numbered (fun i => ⟨fun _ => .ofInt i, fun _ => .ofInt i⟩) 33)) s ∧ s.root.length = 2 ∧
    Run Step (fun s call => Admissible s call ∧ Reached s call) s [.remove id] after ∧
    (Exact s ∧ Exact after) := by
  obtain ⟨s, one, _, left, _, leftBox, _, run, grown⟩ :=
    @run_numbered (fun i => ⟨fun _ => .ofInt i, fun _ => .ofInt i⟩) (by decide +kernel)
  have inv := run_inv run
  have held := (inv.mem_iff one.1 one.2).mp (by simp [grown, entryItems])
  have admissible : Admissible s (.remove one.1) := fun none => by rw [held] at none; cases none
  have reached : Reached s (.remove one.1) := by
    rw [Reached, grown]
    exact .inl (.inl rfl)
  obtain ⟨after, removed⟩ := inv.steps admissible
  have last : Run Step (fun s call => Admissible s call ∧ Reached s call) s [.remove one.1] after :=
    .single ⟨admissible, reached⟩ removed
  exact ⟨s, after, one.1, run, by rw [grown]; rfl, last, (rtree_is_map run).1,
    (rtree_is_map (run.trans last)).1⟩

/-- The box of the number zero. -/
def zeroPoint : BBox 1 := ⟨fun _ => ⟨0⟩, fun _ => ⟨0⟩⟩

/-- One box more than a node holds, and an id of the second child is not removed. -/
theorem remove_missed : ¬ ∀ (calls : List (Call 1)) (s : Mapped 1),
    Run Step Admissible (Mapped.opened 1) calls s → Exact s := by
  intro claimed
  obtain ⟨s, one, two, left, right, leftBox, rightBox, run, grown⟩ :=
    @run_numbered (fun _ => zeroPoint) (by decide)
  have inv := run_inv run
  have held := (inv.mem_iff two.1 two.2).mp (by simp [grown, entryItems])
  have admissible : Admissible s (.remove two.1) := fun none => by rw [held] at none; cases none
  obtain ⟨after, removed⟩ := inv.steps admissible
  have exact := claimed _ _ ((run.mono fun _ _ => And.left).next admissible removed)
  have reaches : Reaches two.1 s.root := inv.reached_of_exact admissible removed exact
  rw [grown] at reaches
  rcases reaches with inFirst | ⟨hollow, _⟩
  · obtain ⟨other, member, same⟩ := mem_of_reaches inFirst
    have distinct := inv.distinct
    rw [grown, items_cons, items_cons, List.map_append, List.map_append] at distinct
    exact (List.nodup_append.mp distinct).2.2 other.1 (List.mem_map_of_mem member) two.1
      (by simp [entryItems]) same
  · cases hollow

end RustSql.Plugin.Rtree
