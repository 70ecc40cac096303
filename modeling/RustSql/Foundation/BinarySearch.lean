import Mathlib.Data.List.TakeWhile

/-! Binary search for the place where a test that holds of a front of a list stops holding. -/

namespace RustSql.Foundation

/-- The search in `[lo, hi)`; where the test holds of the middle, the boundary is behind it. -/
def searchLoop (holds : Nat → Bool) : Nat → Nat → Nat → Nat
  | 0, lo, _ => lo
  | fuel + 1, lo, hi =>
    if lo < hi then
      let mid := (lo + hi) / 2
      if holds mid then searchLoop holds fuel (mid + 1) hi else searchLoop holds fuel lo mid
    else lo

/-- The test at a position of a list. -/
def testAt (test : α → Bool) (cells : List α) (i : Nat) : Bool := (cells[i]?).any test

def partitionPoint (test : α → Bool) (cells : List α) : Nat :=
  searchLoop (testAt test cells) cells.length 0 cells.length

theorem searchLoop_boundary {holds : Nat → Bool}
    (front : ∀ i j, i ≤ j → holds j = true → holds i = true) (fuel lo hi : Nat)
    (enough : hi - lo ≤ fuel) (ordered : lo ≤ hi) (below : ∀ i < lo, holds i = true)
    (above : ∀ i, hi ≤ i → holds i = false) :
    (∀ i < searchLoop holds fuel lo hi, holds i = true) ∧
      ∀ i, searchLoop holds fuel lo hi ≤ i → holds i = false := by
  induction fuel generalizing lo hi with
  | zero =>
    have met : lo = hi := by omega
    exact ⟨below, met ▸ above⟩
  | succ fuel ih =>
    rw [searchLoop]
    by_cases more : lo < hi
    · rw [if_pos more]
      cases middle : holds ((lo + hi) / 2) with
      | true =>
        simp only [middle, if_true]
        apply ih ((lo + hi) / 2 + 1) hi (by omega) (by omega) _ above
        intro i inside
        exact front i _ (by omega) middle
      | false =>
        simp only [middle, Bool.false_eq_true, if_false]
        apply ih lo ((lo + hi) / 2) (by omega) (by omega) below
        intro i inside
        cases later : holds i with
        | false => rfl
        | true =>
          rw [front _ i inside later] at middle
          cases middle
    · rw [if_neg more]
      have met : lo = hi := by omega
      exact ⟨below, met ▸ above⟩

/-- Of a sorted list the test holds in front of a boundary. -/
def Cut (test : α → Bool) (cells : List α) : Prop :=
  cells.Pairwise (fun first second => test second = true → test first = true)

theorem Cut.testAt {test : α → Bool} {cells : List α} (cut : Cut test cells) (i j : Nat)
    (before : i ≤ j) (holds : testAt test cells j = true) :
    Foundation.testAt test cells i = true := by
  rcases Nat.eq_or_lt_of_le before with rfl | earlier
  · exact holds
  · unfold Foundation.testAt at holds ⊢
    cases found : cells[j]? with
    | none => simp [found] at holds
    | some second =>
      obtain ⟨inside, at_j⟩ := List.getElem?_eq_some_iff.mp found
      have first : i < cells.length := Nat.lt_trans earlier inside
      simp only [found, Option.any_some] at holds
      rw [List.getElem?_eq_getElem first, Option.any_some]
      exact List.pairwise_iff_getElem.mp cut i j first inside earlier (at_j ▸ holds)

variable {test : α → Bool}

/-- A boundary of the test is where `dropWhile` stops. -/
theorem drop_of_boundary (cells : List α) (r : Nat) (below : ∀ i < r, testAt test cells i = true)
    (here : testAt test cells r = false) :
    cells.drop r = cells.dropWhile test ∧ cells.take r = cells.takeWhile test := by
  induction cells generalizing r with
  | nil => simp
  | cons cell rest ih =>
    cases r with
    | zero =>
      have stops : test cell = false := here
      simp [stops]
    | succ r =>
      have goes : test cell = true := below 0 (Nat.succ_pos r)
      have behind := ih r (fun i inside => below (i + 1) (Nat.succ_lt_succ inside)) here
      simp [goes, behind]

theorem drop_partitionPoint {cells : List α} (cut : Cut test cells) :
    cells.drop (partitionPoint test cells) = cells.dropWhile test ∧
      cells.take (partitionPoint test cells) = cells.takeWhile test := by
  obtain ⟨below, above⟩ := searchLoop_boundary cut.testAt cells.length 0 cells.length
    (Nat.sub_le _ _) (Nat.zero_le _) (by simp) (fun i outside => by
      rw [testAt, List.getElem?_eq_none outside, Option.any_none])
  exact drop_of_boundary cells _ below (above _ (Nat.le_refl _))

/-- A boundary of the test tells how often it holds. -/
theorem count_of_boundary {cells : List α} (r : Nat) (below : ∀ i < r, testAt test cells i = true)
    (above : ∀ i, r ≤ i → testAt test cells i = false) : (cells.filter test).length = r := by
  induction cells generalizing r with
  | nil =>
    cases r with
    | zero => rfl
    | succ r => cases below 0 (Nat.succ_pos r)
  | cons cell rest ih =>
    cases r with
    | zero =>
      have none : (cell :: rest).filter test = [] := by
        rw [List.filter_eq_nil_iff]
        intro other member holds
        obtain ⟨i, inside, rfl⟩ := List.getElem_of_mem member
        have fails := above i (Nat.zero_le i)
        rw [testAt, List.getElem?_eq_getElem inside, Option.any_some, holds] at fails
        cases fails
      rw [none, List.length_nil]
    | succ r =>
      have goes : test cell = true := below 0 (Nat.succ_pos r)
      rw [List.filter_cons, if_pos goes, List.length_cons,
        ih r (fun i inside => below (i + 1) (Nat.succ_lt_succ inside))
          fun i outside => above (i + 1) (Nat.succ_le_succ outside)]

/-- The test keeps failing where it has failed once. -/
theorem Cut.dropWhile_eq (cells : List α) (cut : Cut test cells) :
    cells.dropWhile test = cells.filter (fun cell => !test cell) := by
  induction cells with
  | nil => rfl
  | cons cell rest ih =>
    obtain ⟨first, later⟩ := List.pairwise_cons.mp cut
    cases holds : test cell with
    | true => simpa [holds] using ih later
    | false =>
      have all : rest.filter (fun cell => !test cell) = rest := by
        rw [List.filter_eq_self]
        intro other member
        cases again : test other with
        | false => rfl
        | true =>
          rw [first other member again] at holds
          cases holds
      simp [holds, all]

theorem Cut.takeWhile_eq (cells : List α) (cut : Cut test cells) :
    cells.takeWhile test = cells.filter test := by
  induction cells with
  | nil => rfl
  | cons cell rest ih =>
    obtain ⟨first, later⟩ := List.pairwise_cons.mp cut
    cases holds : test cell with
    | true => simpa [holds] using ih later
    | false =>
      have none : rest.filter test = [] := by
        rw [List.filter_eq_nil_iff]
        intro other member again
        rw [first other member again] at holds
        cases holds
      simp [holds, none]

theorem Cut.parts (cells : List α) (cut : Cut test cells) :
    cells = cells.filter test ++ cells.filter (fun cell => !test cell) := by
  rw [← cut.takeWhile_eq, ← cut.dropWhile_eq, List.takeWhile_append_dropWhile]

end RustSql.Foundation
