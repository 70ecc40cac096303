import RustSql.Executor.InvertedIndex

/-! The algebra of rowid lists in ascending order: what intersection, union and deduplication
keep. -/

namespace RustSql.Executor.Fts

/-- Strictly ascending. -/
def Ascending (rowids : List Int64) : Prop := rowids.Pairwise (· < ·)

theorem ascending_cons {a : Int64} {l : List Int64} : Ascending (a :: l) ↔ (∀ b ∈ l, a < b) ∧ Ascending l :=
  List.pairwise_cons

theorem intersectSorted_spec {l r : List Int64} (left : Ascending l) (right : Ascending r) :
    Ascending (intersectSorted l r) ∧ ∀ x, x ∈ intersectSorted l r ↔ x ∈ l ∧ x ∈ r := by
  induction l, r using intersectSorted.induct with
  | case1 r => simp [intersectSorted, Ascending]
  | case2 l _ => cases l <;> simp [intersectSorted, Ascending]
  | case3 a l r ih =>
    rw [ascending_cons] at left right
    obtain ⟨ascending, mem⟩ := ih left.2 right.2
    rw [intersectSorted, if_pos rfl]
    refine ⟨ascending_cons.mpr ⟨fun b member => left.1 b ((mem b).mp member).1, ascending⟩, fun x => ?_⟩
    rw [List.mem_cons, List.mem_cons, List.mem_cons, mem]
    grind
  | case4 a l b r differ less ih =>
    have ordered := ascending_cons.mp left
    obtain ⟨ascending, mem⟩ := ih ordered.2 right
    rw [intersectSorted, if_neg differ, if_pos less]
    refine ⟨ascending, fun x => ?_⟩
    rw [ascending_cons] at right
    rw [mem, List.mem_cons, List.mem_cons]
    grind
  | case5 a l b r differ notLess ih =>
    have ordered := ascending_cons.mp right
    obtain ⟨ascending, mem⟩ := ih left ordered.2
    rw [intersectSorted, if_neg differ, if_neg notLess]
    refine ⟨ascending, fun x => ?_⟩
    rw [ascending_cons] at left
    rw [mem, List.mem_cons, List.mem_cons]
    grind

/-- No element is below the last one. -/
def Behind (last : Option Int64) (rowids : List Int64) : Prop :=
  ∀ y, last = some y → ∀ x ∈ rowids, y ≤ x

/-- What comes behind the last element: in strict order, and each element once. -/
structure Merged (last : Option Int64) (inputs result : List Int64) : Prop where
  ascending : Ascending result
  above : ∀ y, last = some y → ∀ x ∈ result, y < x
  mem_iff : ∀ x, x ∈ result ↔ x ∈ inputs ∧ last ≠ some x

/-- The next element is dropped when it is the last one again. -/
theorem Merged.again {a : Int64} {inputs inputs' result : List Int64}
    (merged : Merged (some a) inputs result) (same : ∀ x, x ∈ inputs' ↔ x = a ∨ x ∈ inputs) :
    Merged (some a) inputs' result := by
  refine ⟨merged.ascending, merged.above, fun x => ?_⟩
  rw [merged.mem_iff, same]
  grind

/-- The next element is pushed when it is new. -/
theorem Merged.push {last : Option Int64} {a : Int64} {inputs inputs' result : List Int64}
    (merged : Merged (some a) inputs result) (new : last ≠ some a) (behind : Behind last inputs')
    (same : ∀ x, x ∈ inputs' ↔ x = a ∨ x ∈ inputs) (least : ∀ x ∈ inputs', a ≤ x) :
    Merged last inputs' (a :: result) := by
  refine ⟨ascending_cons.mpr ⟨merged.above a rfl, merged.ascending⟩, fun y is x member => ?_, fun x => ?_⟩
  · have first : y ≤ a := behind y is a ((same a).mpr (.inl rfl))
    have differ : y ≠ a := fun equal => new (equal ▸ is)
    have here : y < a := Int64.lt_of_le_of_ne first differ
    rcases List.mem_cons.mp member with rfl | later
    · exact here
    · exact Int64.lt_trans here (merged.above a rfl x later)
  · rw [List.mem_cons, merged.mem_iff, same]
    constructor
    · rintro (rfl | ⟨member, differ⟩)
      · exact ⟨.inl rfl, new⟩
      · refine ⟨.inr member, fun is => ?_⟩
        have low := behind x is a ((same a).mpr (.inl rfl))
        have high := least x ((same x).mpr (.inr member))
        exact differ (congrArg some (Int64.le_antisymm high low))
    · rintro ⟨rfl | member, other⟩
      · exact .inl rfl
      · by_cases equal : x = a
        · exact .inl equal
        · exact .inr ⟨member, fun is => equal (Option.some.inj is).symm⟩

/-- The head of a sorted list is the least. -/
theorem head_le {a : Int64} {l : List Int64} (sorted : (a :: l).Pairwise (· ≤ ·)) : ∀ x ∈ a :: l, a ≤ x := by
  intro x member
  rcases List.mem_cons.mp member with rfl | later
  · exact Int64.le_refl x
  · exact (List.pairwise_cons.mp sorted).1 x later

theorem mergeFrom_spec {last : Option Int64} {l r : List Int64} (left : l.Pairwise (· ≤ ·))
    (right : r.Pairwise (· ≤ ·)) (behind : Behind last (l ++ r)) : Merged last (l ++ r) (mergeFrom last l r) := by
  induction last, l, r using mergeFrom.induct with
  | case1 last =>
    rw [mergeFrom]
    refine ⟨List.Pairwise.nil, ?_, fun x => by simp⟩
    intro _ _ _ member
    cases member
  | case2 a l ih =>
    rw [mergeFrom, if_pos rfl]
    have least := head_le left
    refine (ih (List.pairwise_cons.mp left).2 right fun y is x member => ?_).again fun x => by simp
    cases is
    exact least x (List.mem_cons_of_mem _ (by simpa using member))
  | case3 last a l new ih =>
    rw [mergeFrom, if_neg new]
    have least := head_le left
    refine (ih (List.pairwise_cons.mp left).2 right fun y is x member => ?_).push new behind
      (fun x => by simp) fun x member => least x (by simpa using member)
    cases is
    exact least x (List.mem_cons_of_mem _ (by simpa using member))
  | case4 b r ih =>
    rw [mergeFrom, if_pos rfl]
    have least := head_le right
    refine (ih left (List.pairwise_cons.mp right).2 fun y is x member => ?_).again fun x => by simp
    cases is
    exact least x (List.mem_cons_of_mem _ (by simpa using member))
  | case5 last b r new ih =>
    rw [mergeFrom, if_neg new]
    have least := head_le right
    refine (ih left (List.pairwise_cons.mp right).2 fun y is x member => ?_).push new behind
      (fun x => by simp) fun x member => least x (by simpa using member)
    cases is
    exact least x (List.mem_cons_of_mem _ (by simpa using member))
  | case6 a l b r order ih =>
    rw [mergeFrom, if_pos order, if_pos rfl]
    have least : ∀ x ∈ (a :: l) ++ b :: r, a ≤ x := fun x member =>
      (List.mem_append.mp member).elim (head_le left x) fun inside => Int64.le_trans order (head_le right x inside)
    refine (ih (List.pairwise_cons.mp left).2 right fun y is x member => ?_).again fun x => by simp
    cases is
    exact least x (List.mem_cons_of_mem _ member)
  | case7 last a l b r order new ih =>
    rw [mergeFrom, if_pos order, if_neg new]
    have least : ∀ x ∈ (a :: l) ++ b :: r, a ≤ x := fun x member =>
      (List.mem_append.mp member).elim (head_le left x) fun inside => Int64.le_trans order (head_le right x inside)
    refine (ih (List.pairwise_cons.mp left).2 right fun y is x member => ?_).push new behind
      (fun x => by simp) least
    cases is
    exact least x (List.mem_cons_of_mem _ member)
  | case8 a l b r order ih =>
    rw [mergeFrom, if_neg order, if_pos rfl]
    have before : b ≤ a := (Int64.le_total a b).resolve_left order
    have least : ∀ x ∈ (a :: l) ++ b :: r, b ≤ x := fun x member =>
      (List.mem_append.mp member).elim (fun inside => Int64.le_trans before (head_le left x inside))
        (head_le right x)
    refine (ih left (List.pairwise_cons.mp right).2 fun y is x member => ?_).again fun x => by grind
    cases is
    exact least x (by grind)
  | case9 last a l b r order new ih =>
    rw [mergeFrom, if_neg order, if_neg new]
    have before : b ≤ a := (Int64.le_total a b).resolve_left order
    have least : ∀ x ∈ (a :: l) ++ b :: r, b ≤ x := fun x member =>
      (List.mem_append.mp member).elim (fun inside => Int64.le_trans before (head_le left x inside))
        (head_le right x)
    refine (ih left (List.pairwise_cons.mp right).2 fun y is x member => ?_).push new behind
      (fun x => by grind) least
    cases is
    exact least x (by grind)

theorem Ascending.le {l : List Int64} (ascending : Ascending l) : l.Pairwise (· ≤ ·) :=
  ascending.imp fun less => Int64.le_of_lt less

theorem mergeSortedDedup_spec {l r : List Int64} (left : Ascending l) (right : Ascending r) :
    Ascending (mergeSortedDedup l r) ∧ ∀ x, x ∈ mergeSortedDedup l r ↔ x ∈ l ∨ x ∈ r := by
  have merged : Merged none (l ++ r) (mergeFrom none l r) := mergeFrom_spec left.le right.le fun y is => nomatch is
  refine ⟨merged.ascending, fun x => ?_⟩
  rw [mergeSortedDedup, merged.mem_iff, List.mem_append]
  simp

theorem dedupFrom_eq (last : Option Int64) (l : List Int64) : dedupFrom last l = mergeFrom last l [] := by
  induction l generalizing last with
  | nil => rw [dedupFrom, mergeFrom]
  | cons a l ih => rw [dedupFrom, mergeFrom, ih, ih]

theorem sortDedup_spec (rowids : List Int64) :
    Ascending (sortDedup rowids) ∧ ∀ x, x ∈ sortDedup rowids ↔ x ∈ rowids := by
  have sorted := @List.pairwise_mergeSort Int64 (fun one two => decide (one ≤ two))
    (fun a b c first second => by
      simp only [decide_eq_true_eq] at first second ⊢
      exact Int64.le_trans first second)
    (fun a b => by
      simp only [Bool.or_eq_true, decide_eq_true_eq]
      exact Int64.le_total a b) rowids
  have merged : Merged none _ _ := mergeFrom_spec (sorted.imp fun order => of_decide_eq_true order)
    (@List.Pairwise.nil Int64 (· ≤ ·)) fun y is => nomatch is
  unfold sortDedup
  rw [dedupFrom_eq]
  refine ⟨merged.ascending, fun x => ?_⟩
  rw [merged.mem_iff, List.append_nil, List.mem_mergeSort]
  simp

end RustSql.Executor.Fts
