import RustSql.Plugin.RtreeNode

/-! What insertion and removal keep of an R-tree: every box encloses the boxes below it, a split
keeps every entry, and a removal takes its entry when the walk reaches it. -/

namespace RustSql.Plugin.Rtree

open RustSql.Foundation RustSql.Foundation.SummaryEntry

variable {dims : Nat}

/-- A box of numbers whose minima are not above its maxima. -/
def BBox.Proper (b : BBox dims) : Prop := ∀ d, (b.lo d).le (b.hi d) = true

instance (b : BBox dims) : Decidable b.Proper := by
  unfold BBox.Proper
  infer_instance

/-- `contains`, of what is stored behind a box. -/
def BBox.Encloses (outer : BBox dims) (item : Int64 × BBox dims) : Prop :=
  ∀ d, (outer.lo d).le (item.2.lo d) = true ∧ (item.2.hi d).le (outer.hi d) = true

theorem BBox.Proper.encloses {b : BBox dims} (proper : b.Proper) (id : Int64) : b.Encloses (id, b) :=
  fun d => ⟨Binary64.le_self (Binary64.numbers_of_le (proper d)).1,
    Binary64.le_self (Binary64.numbers_of_le (proper d)).2⟩

variable {item : Int64 × BBox dims}

theorem BBox.Encloses.union_left {b other : BBox dims} (encloses : b.Encloses item) :
    (b.unionWith other).Encloses item :=
  fun d => ⟨Binary64.minimum_le_of_left (encloses d).1, Binary64.le_maximum_of_left (encloses d).2⟩

theorem BBox.Encloses.union_right {b other : BBox dims} (encloses : other.Encloses item) :
    (b.unionWith other).Encloses item :=
  fun d => ⟨Binary64.minimum_le_of_right (encloses d).1, Binary64.le_maximum_of_right (encloses d).2⟩

/-- The box of an entry encloses all that is below it. -/
def Bounded (e : NodeEntry dims) : Prop := ∀ item ∈ entryItems e, (entryBox e).Encloses item

theorem bounded_of_covered {e : NodeEntry dims} (covered : CoveredEntry BBox.Encloses e)
    (proper : ∀ item ∈ entryItems e, item.2.Proper) : Bounded e := by
  cases e with
  | leaf item =>
    intro other member
    obtain rfl := List.mem_singleton.mp member
    exact (proper _ member).encloses _
  | interior child bbox => exact covered.1

/-- The boxes of some entries, joined to a box. -/
theorem encloses_foldl {entries : RTreeNode dims} {b : BBox dims}
    (encloses : b.Encloses item ∨ ∃ e ∈ entries, (entryBox e).Encloses item) :
    (entries.foldl (fun b e => b.unionWith (entryBox e)) b).Encloses item := by
  induction entries generalizing b with
  | nil => simpa using encloses
  | cons e rest ih =>
    rw [List.foldl_cons]
    apply ih
    rcases encloses with before | ⟨other, member, inside⟩
    · exact .inl before.union_left
    · rcases List.mem_cons.mp member with rfl | later
      · exact .inl inside.union_right
      · exact .inr ⟨other, later, inside⟩

variable {node : RTreeNode dims}

theorem nodeBox_encloses (bounded : ∀ e ∈ node, Bounded e) (member : item ∈ items node) :
    (nodeBox node).Encloses item := by
  obtain ⟨e, entry, below⟩ := mem_items_iff.mp member
  exact encloses_foldl (.inr ⟨e, entry, bounded e entry item below⟩)

/-- A node that may stand in the tree: its boxes enclose, and its items have proper boxes. -/
structure Sound (node : RTreeNode dims) : Prop where
  covered : Covered BBox.Encloses node
  proper : ∀ item ∈ items node, item.2.Proper

theorem Sound.bounded (sound : Sound node) : ∀ e ∈ node, Bounded e :=
  fun e member => bounded_of_covered (covered_iff.mp sound.covered e member)
    fun item below => sound.proper item (mem_items_iff.mpr ⟨e, member, below⟩)

theorem Sound.encloses (sound : Sound node) :
    ∀ item ∈ items node, (nodeBox node).Encloses item :=
  fun _ member => nodeBox_encloses sound.bounded member

theorem Sound.of_subset {first second : RTreeNode dims} (sound : Sound second) (subset : first ⊆ second) :
    Sound first where
  covered := sound.covered.of_subset subset
  proper item member := by
    obtain ⟨e, entry, below⟩ := mem_items_iff.mp member
    exact sound.proper item (mem_items_iff.mpr ⟨e, subset entry, below⟩)

theorem Sound.append {first second : RTreeNode dims} (one : Sound first) (two : Sound second) :
    Sound (first ++ second) where
  covered := one.covered.append two.covered
  proper item member := by
    rw [items_append] at member
    exact (List.mem_append.mp member).elim (one.proper item) (two.proper item)

theorem sound_leaf {id : Int64} {bbox : BBox dims} (proper : bbox.Proper) :
    Sound [(.leaf (id, bbox) : NodeEntry dims)] where
  covered := ⟨trivial, trivial⟩
  proper item member := by
    obtain rfl := List.mem_singleton.mp member
    exact proper

theorem sound_interior {child : RTreeNode dims} (sound : Sound child) {bbox : BBox dims}
    (encloses : ∀ item ∈ items child, bbox.Encloses item) :
    Sound [(.interior child bbox : NodeEntry dims)] where
  covered := ⟨⟨encloses, sound.covered⟩, trivial⟩
  proper item member := by
    rw [items_cons, items_nil, List.append_nil] at member
    exact sound.proper item member

/-- A box that encloses a row the constraint accepts is not pruned. -/
theorem boxMayContain_of_accepts {c : DimConstraint dims} {parent : BBox dims}
    (proper : item.2.Proper) (encloses : parent.Encloses item)
    (accepts : c.acceptsStandalone item.2 = true) : c.boxMayContain parent = true := by
  have low := (encloses c.dim).1
  have high := (encloses c.dim).2
  -- each bound of the box is on the outer side of both bounds of the row
  have least : ∀ first : Bool, (parent.lo c.dim).le
      (if first then item.2.lo c.dim else item.2.hi c.dim) = true := by
    intro first
    cases first with
    | true => exact low
    | false => exact Binary64.le_trans low (proper c.dim)
  have most : ∀ first : Bool, (if first then item.2.lo c.dim else item.2.hi c.dim : Binary64).le
      (parent.hi c.dim) = true := by
    intro first
    cases first with
    | true => exact Binary64.le_trans (proper c.dim) high
    | false => exact high
  have least := least (decide ((c.col - 1) % 2 = 0))
  have most := most (decide ((c.col - 1) % 2 = 0))
  simp only [decide_eq_true_eq] at least most
  unfold DimConstraint.acceptsStandalone at accepts
  unfold DimConstraint.boxMayContain
  generalize (if (c.col - 1) % 2 = 0 then item.2.lo c.dim else item.2.hi c.dim) = v at *
  cases op : c.op with
  | lt => exact Binary64.lt_of_le_of_lt least (by simpa [op, DimOp.holds] using accepts)
  | le => exact Binary64.le_trans least (by simpa [op, DimOp.holds] using accepts)
  | gt => exact Binary64.lt_of_lt_of_le (by simpa [op, DimOp.holds] using accepts) most
  | ge => exact Binary64.le_trans (by simpa [op, DimOp.holds] using accepts) most
  | eq =>
    have same : v.eq c.value = true := by simpa [op, DimOp.holds] using accepts
    have number := (Binary64.numbers_of_le least).2
    obtain ⟨below, above⟩ := Binary64.le_of_eq same
    simp only [Bool.and_eq_true]
    exact ⟨Binary64.le_trans least below, Binary64.le_trans above most⟩

variable {root : RTreeNode dims}

theorem query_eq (sound : Sound root) (cons : List (DimConstraint dims)) :
    query root cons = (items root).filter fun item => cons.all (·.acceptsStandalone item.2) := by
  refine search_eq_filter (fun bbox item proper encloses accepts => ?_) root sound.covered sound.proper
  rw [List.all_eq_true] at accepts ⊢
  exact fun c member => boxMayContain_of_accepts proper encloses (accepts c member)

theorem swapRemove_some {α : Type} {entries : List α} {i : Nat} (within : i < entries.length) :
    ∃ removed rest, swapRemove entries i = some (removed, rest) ∧ entries.Perm (removed :: rest) := by
  obtain ⟨front, last, rfl⟩ : ∃ front last, entries = front ++ [last] :=
    ⟨entries.dropLast, entries.getLast (List.ne_nil_of_length_pos (by omega)),
      (List.dropLast_append_getLast _).symm⟩
  refine ⟨(front ++ [last])[i], ((front ++ [last]).set i last).dropLast, ?_, ?_⟩
  · simp [swapRemove, List.getElem?_eq_getElem within]
  · rw [List.length_append, List.length_singleton] at within
    by_cases final : i = front.length
    · subst final
      simp
    · have inside : i < front.length := by omega
      rw [List.set_append_left _ _ inside, List.dropLast_concat, List.getElem_append_left inside]
      refine List.perm_append_comm.trans ?_
      exact (((List.getElem_cons_eraseIdx_perm inside).symm.cons last).trans (.swap _ _ _)).trans
        ((List.set_perm_cons_eraseIdx inside last).symm.cons _)

theorem mem_indexPairs {n : Nat} {pair : Nat × Nat} (member : pair ∈ indexPairs n) :
    pair.1 < pair.2 ∧ pair.2 < n := by
  unfold indexPairs at member
  simp only [List.mem_flatMap, List.mem_range, List.mem_map, List.mem_range'_1] at member
  obtain ⟨i, _, j, ⟨low, high⟩, rfl⟩ := member
  exact ⟨low, by dsimp only; omega⟩

/-- Two entries of an overfull node. -/
theorem seeds_within {entries : RTreeNode dims} (two : 2 ≤ entries.length) :
    (seeds entries).1 < (seeds entries).2 ∧ (seeds entries).2 < entries.length := by
  unfold seeds
  refine List.foldlRecOn (motive := fun best : (Nat × Nat) × Binary64 =>
    best.1.1 < best.1.2 ∧ best.1.2 < entries.length) _ _ ⟨by decide, two⟩ fun best within pair member => ?_
  split
  · dsimp only
    split
    · exact mem_indexPairs member
    · exact within
  · exact within

/-- What a split in the making keeps: the entries it has taken, and the box of the right half. -/
structure Halves.Holds (halves : Halves dims) (taken : RTreeNode dims) : Prop where
  entries : (halves.left ++ halves.right).Perm taken
  some : halves.left ≠ [] ∧ halves.right ≠ []
  right : ∀ item ∈ items halves.right, halves.rightBox.Encloses item

theorem Halves.Holds.add {halves : Halves dims} {taken : RTreeNode dims} {e : NodeEntry dims}
    (holds : halves.Holds taken) (bounded : Bounded e) : (halves.add e).Holds (e :: taken) := by
  have moved : (e :: (halves.left ++ halves.right)).Perm (e :: taken) := holds.entries.cons e
  unfold Halves.add
  dsimp only
  split
  · refine ⟨?_, ⟨by simp, holds.some.2⟩, holds.right⟩
    simpa using List.perm_middle.trans moved
  · refine ⟨?_, ⟨holds.some.1, by simp⟩, fun item member => ?_⟩
    · rw [← List.append_assoc]
      exact (List.perm_append_singleton e _).trans moved
    · rw [items_append] at member
      rcases List.mem_append.mp member with before | new
      · exact (holds.right item before).union_left
      · exact (bounded item (by simpa using new)).union_right

theorem Halves.Holds.foldl {entries : RTreeNode dims} (bounded : ∀ e ∈ entries, Bounded e)
    {halves : Halves dims} {taken : RTreeNode dims} (holds : halves.Holds taken) :
    (entries.foldl Halves.add halves).Holds (entries.reverse ++ taken) := by
  induction entries generalizing halves taken with
  | nil => exact holds
  | cons e rest ih =>
    rw [List.foldl_cons, List.reverse_cons, List.append_assoc]
    exact ih (fun other member => bounded other (.tail _ member)) (holds.add (bounded e (.head _)))

/-- A split loses no entry, and comes with the box of the right half. -/
theorem splitNode_some (sound : Sound node) (two : 2 ≤ node.length) :
    ∃ left right rightBox, splitNode node = some (left, right, rightBox) ∧ (left ++ right).Perm node ∧
      (left ≠ [] ∧ right ≠ []) ∧ ∀ item ∈ items right, rightBox.Encloses item := by
  obtain ⟨ordered, within⟩ := seeds_within two
  obtain ⟨e2, others, taken2, perm2⟩ := swapRemove_some within
  have count : node.length = others.length + 1 := perm2.length_eq
  have index : min (seeds node).1 others.length < others.length := by omega
  obtain ⟨e1, rest, taken1, perm1⟩ := swapRemove_some index
  have whole : node.Perm (e2 :: e1 :: rest) := perm2.trans (perm1.cons e2)
  have every : ∀ e ∈ e2 :: e1 :: rest, Bounded e := fun e member => sound.bounded e (whole.mem_iff.mpr member)
  have start : (⟨[e1], [e2], nodeBox [e1], nodeBox [e2]⟩ : Halves dims).Holds [e1, e2] :=
    ⟨.refl _, ⟨by simp, by simp⟩, fun item member => nodeBox_encloses (by simpa using every e2 (.head _)) member⟩
  have final := start.foldl fun e member => every e (.tail _ (.tail _ member))
  refine ⟨_, _, _, by simp [splitNode, taken2, taken1], ?_, final.some, final.right⟩
  refine final.entries.trans ?_
  refine ((List.reverse_perm rest).append_right _).trans (List.perm_append_comm.trans ?_)
  exact ((List.Perm.swap e2 e1 rest)).trans whole.symm

theorem insert_room (room : root.length < MAX_ENTRIES) (id : Int64) (bbox : BBox dims) :
    insert root id bbox = some (root ++ [.leaf (id, bbox)]) := by
  have fits : (root ++ [.leaf (id, bbox)] : RTreeNode dims).length ≤ MAX_ENTRIES := by
    rw [List.length_append]
    exact room
  unfold insert insertRec
  simp only [if_pos fits]
  rfl

/-- A full root becomes two children. -/
theorem insert_full (sound : Sound root) (full : MAX_ENTRIES ≤ root.length) {id : Int64}
    {bbox : BBox dims} (proper : bbox.Proper) :
    ∃ left right rightBox,
      insert root id bbox = some [.interior left (nodeBox left), .interior right rightBox] ∧
      (left ++ right).Perm (root ++ [.leaf (id, bbox)]) ∧ (left ≠ [] ∧ right ≠ []) ∧
      ∀ item ∈ items right, rightBox.Encloses item := by
  have count : (root ++ [.leaf (id, bbox)] : RTreeNode dims).length = root.length + 1 := by
    rw [List.length_append]
    rfl
  have grown : Sound (root ++ [.leaf (id, bbox)]) := sound.append (sound_leaf proper)
  have most : MAX_ENTRIES = 32 := rfl
  obtain ⟨left, right, rightBox, split, perm, nonempty, encloses⟩ := splitNode_some grown (by omega)
  refine ⟨left, right, rightBox, ?_, perm, nonempty, encloses⟩
  unfold insert insertRec
  simp only [if_neg (show ¬ (root ++ [.leaf (id, bbox)] : RTreeNode dims).length ≤ MAX_ENTRIES by omega), split]
  rfl

theorem insert_some (sound : Sound root) {id : Int64} {bbox : BBox dims} (proper : bbox.Proper) :
    ∃ after, insert root id bbox = some after ∧ Sound after ∧
      (items after).Perm ((id, bbox) :: items root) := by
  have grown : Sound (root ++ [.leaf (id, bbox)]) := sound.append (sound_leaf proper)
  have added : (items (root ++ [.leaf (id, bbox)])).Perm ((id, bbox) :: items root) := by
    rw [items_append]
    exact List.perm_append_comm
  by_cases room : root.length < MAX_ENTRIES
  · exact ⟨_, insert_room room id bbox, grown, added⟩
  · obtain ⟨left, right, rightBox, done, perm, _, encloses⟩ := insert_full sound (Nat.le_of_not_lt room) proper
    have first : Sound left := grown.of_subset fun e member =>
      perm.subset (List.mem_append_left _ member)
    have second : Sound right := grown.of_subset fun e member =>
      perm.subset (List.mem_append_right _ member)
    refine ⟨_, done, (sound_interior first first.encloses).append (sound_interior second encloses), ?_⟩
    have whole := items_perm perm
    rw [items_append] at whole
    simpa [entryItems] using whole.trans added

end RustSql.Plugin.Rtree
