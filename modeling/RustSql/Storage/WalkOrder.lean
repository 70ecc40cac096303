import RustSql.Storage.RowDecoders

/-! The wanted columns in the order of the walk. -/

namespace RustSql.Storage.RowCodec

/-- In a list that is ordered for a test, the front that passes is all that passes. -/
theorem takeWhile_eq_filter {α : Type} {test : α → Bool} {xs : List α}
    (ordered : xs.Pairwise fun a b => test b = true → test a = true) :
    xs.takeWhile test = xs.filter test := by
  induction xs with
  | nil => rfl
  | cons x xs ih =>
    obtain ⟨first, others⟩ := List.pairwise_cons.mp ordered
    cases passes : test x with
    | true => rw [List.takeWhile_cons_of_pos passes, List.filter_cons_of_pos passes, ih others]
    | false =>
      have none : xs.filter test = [] := List.filter_eq_nil_iff.mpr fun y member later =>
        absurd (first y member later) (Bool.eq_false_iff.mp passes)
      rw [List.takeWhile_cons_of_neg (Bool.eq_false_iff.mp passes),
        List.filter_cons_of_neg (Bool.eq_false_iff.mp passes), none]

theorem dropWhile_eq_filter {α : Type} {test : α → Bool} {xs : List α}
    (ordered : xs.Pairwise fun a b => test b = true → test a = true) :
    xs.dropWhile test = xs.filter fun x => !test x := by
  induction xs with
  | nil => rfl
  | cons x xs ih =>
    obtain ⟨first, others⟩ := List.pairwise_cons.mp ordered
    cases passes : test x with
    | true =>
      rw [List.dropWhile_cons_of_pos passes, List.filter_cons_of_neg (by simp [passes]), ih others]
    | false =>
      have all : (xs.filter fun y => !test y) = xs := List.filter_eq_self.mpr fun y member => by
        cases later : test y with
        | true => exact absurd (first y member later) (Bool.eq_false_iff.mp passes)
        | false => rfl
      rw [List.dropWhile_cons_of_neg (Bool.eq_false_iff.mp passes),
        List.filter_cons_of_pos (by simp [passes]), all]

section Sorting

variable {n : Nat} {want : Wanted n} {wants back : List (Wanted n)}

/-- The order of the walk. -/
abbrev Sorted (wants : List (Wanted n)) : Prop := wants.Pairwise fun a b => a.1 ≤ b.1

theorem insertBack_perm : (insertBack want back).Perm (want :: back) := by
  induction back with
  | nil => rfl
  | cons top rest ih =>
    rw [insertBack]
    split
    · exact (ih.cons top).trans (List.Perm.swap _ _ _)
    · rfl

theorem insertBack_sorted (sorted : back.Pairwise fun a b => b.1 ≤ a.1) :
    (insertBack want back).Pairwise fun a b => b.1 ≤ a.1 := by
  induction back with
  | nil => exact List.pairwise_singleton _ _
  | cons top rest ih =>
    obtain ⟨first, others⟩ := List.pairwise_cons.mp sorted
    rw [insertBack]
    split
    next below =>
      refine List.pairwise_cons.mpr ⟨fun other member => ?_, ih others⟩
      rcases List.mem_cons.mp (insertBack_perm.mem_iff.mp member) with rfl | member
      · exact below.le
      · exact first other member
    next above =>
      refine List.pairwise_cons.mpr ⟨fun other member => ?_, sorted⟩
      rcases List.mem_cons.mp member with rfl | member
      · exact Nat.le_of_not_lt above
      · exact (first other member).trans (Nat.le_of_not_lt above)

theorem insertAll_perm :
    (wants.foldl (fun back want => insertBack want back) back).Perm (wants ++ back) := by
  induction wants generalizing back with
  | nil => rfl
  | cons want wants ih =>
    exact ih.trans ((insertBack_perm.append_left wants).trans List.perm_middle)

theorem insertAll_sorted (sorted : back.Pairwise fun a b => b.1 ≤ a.1) :
    (wants.foldl (fun back want => insertBack want back) back).Pairwise
      fun a b => b.1 ≤ a.1 := by
  induction wants generalizing back with
  | nil => exact sorted
  | cons want wants ih => exact ih (insertBack_sorted sorted)

theorem insertionSort_perm : (insertionSort wants).Perm wants := by
  refine (List.reverse_perm _).trans (insertAll_perm.trans ?_)
  rw [List.append_nil]

theorem insertionSort_sorted : Sorted (insertionSort wants) :=
  List.pairwise_reverse.mpr (insertAll_sorted .nil)

theorem ascending_pairwise {cols : List Nat} (up : ascending cols = true) :
    cols.Pairwise (· ≤ ·) := by
  induction cols with
  | nil => exact .nil
  | cons a rest ih =>
    cases rest with
    | nil => exact List.pairwise_singleton _ _
    | cons b rest =>
      rw [ascending, Bool.and_eq_true, decide_eq_true_iff] at up
      have later := ih up.2
      refine List.pairwise_cons.mpr ⟨fun other member => ?_, later⟩
      rcases List.mem_cons.mp member with rfl | member
      · exact up.1
      · exact up.1.trans ((List.pairwise_cons.mp later).1 other member)

theorem walkOrder_perm (unstable : UnstableSort) (cols : List Nat) :
    (walkOrder unstable cols).Perm
      ((List.finRange cols.length).map fun slot => (cols.get slot, slot)) := by
  unfold walkOrder
  split
  · rfl
  · split
    · exact insertionSort_perm
    · exact unstable.perm _

theorem walkOrder_sorted (unstable : UnstableSort) (cols : List Nat) :
    Sorted (walkOrder unstable cols) := by
  unfold walkOrder
  split
  next up =>
    have columns : ((List.finRange cols.length).map fun slot => (cols.get slot, slot)).map
        Prod.fst = cols := by
      rw [List.map_map]
      exact List.map_get_finRange cols
    have sorted := ascending_pairwise up
    rw [← columns] at sorted
    exact List.pairwise_map.mp sorted
  · split
    · exact insertionSort_sorted
    · exact unstable.sorted _

theorem mem_walkOrder {unstable : UnstableSort} {cols : List Nat} {want : Wanted cols.length} :
    want ∈ walkOrder unstable cols ↔ want.1 = cols.get want.2 := by
  rw [(walkOrder_perm unstable cols).mem_iff, List.mem_map]
  constructor
  · rintro ⟨slot, _, rfl⟩
    rfl
  · intro column
    exact ⟨want.2, List.mem_finRange _, Prod.ext column.symm rfl⟩

theorem Sorted.from_column (sorted : Sorted wants) (col : Nat) :
    (wants.dropWhile fun want => decide (want.1 < col)) =
      wants.filter fun want => decide (col ≤ want.1) := by
  rw [dropWhile_eq_filter (sorted.imp fun order below => ?_)]
  · congr 1
    funext want
    simp only [← decide_not, Nat.not_lt]
  · rw [decide_eq_true_iff] at below ⊢
    exact order.trans_lt below

theorem Sorted.run (sorted : Sorted wants) {col : Nat} (least : ∀ want ∈ wants, col ≤ want.1) :
    (wants.takeWhile fun want => want.1 == col) = wants.filter fun want => want.1 == col := by
  refine takeWhile_eq_filter (sorted.imp_of_mem fun first _ order same => ?_)
  rw [beq_iff_eq] at same ⊢
  exact Nat.le_antisymm (same ▸ order) (least _ first)

theorem Sorted.after_run (sorted : Sorted wants) {col : Nat}
    (least : ∀ want ∈ wants, col ≤ want.1) :
    (wants.dropWhile fun want => want.1 == col) = wants.filter fun want => want.1 != col := by
  refine dropWhile_eq_filter (sorted.imp_of_mem fun first _ order same => ?_)
  rw [beq_iff_eq] at same ⊢
  exact Nat.le_antisymm (same ▸ order) (least _ first)

end Sorting

end RustSql.Storage.RowCodec
