import Mathlib.Data.List.Sort
import Mathlib.Data.Set.Insert

/-! The least `k` of a stream of elements, held in a heap whose top is the greatest of them. -/

namespace RustSql.Foundation

universe u

variable {α : Type u} [LinearOrder α]

/-- The heap, from its top down. -/
def push (x : α) (heap : List α) : List α := heap.orderedInsert (· ≥ ·) x

/-- An element goes in while there is room, and afterwards in place of the top when it is below it. -/
def offer (k : Nat) (heap : List α) (x : α) : List α :=
  if heap.length < k then push x heap
  else
    match heap with
    | [] => []
    | worst :: rest => if x < worst then push x rest else worst :: rest

/-- A heap holds the least `k` elements of a set, or all of them. -/
structure Best (k : Nat) (seen : Set α) (heap : List α) : Prop where
  ordered : heap.Pairwise (· > ·)
  seen_of_mem : ∀ x ∈ heap, x ∈ seen
  atMost : heap.length ≤ k
  full : heap.length < k → ∀ x ∈ seen, x ∈ heap
  least : ∀ x ∈ heap, ∀ y ∈ seen, y ∉ heap → x < y

theorem mem_push {x y : α} {heap : List α} : y ∈ push x heap ↔ y = x ∨ y ∈ heap := List.mem_orderedInsert _

theorem length_push (x : α) (heap : List α) : (push x heap).length = heap.length + 1 :=
  List.orderedInsert_length _ _ _

theorem push_ordered {x : α} {heap : List α} (ordered : heap.Pairwise (· > ·)) (new : x ∉ heap) :
    (push x heap).Pairwise (· > ·) := by
  have sorted : (push x heap).Pairwise (· ≥ ·) := (ordered.imp fun above => le_of_lt above).orderedInsert _ _
  have once : (push x heap).Nodup := by
    refine ((List.perm_orderedInsert _ x heap).nodup_iff).mpr (List.nodup_cons.mpr ⟨new, ?_⟩)
    exact ordered.imp fun above => ne_of_gt above
  exact (sorted.and once).imp fun both => lt_of_le_of_ne both.1 (Ne.symm both.2)

theorem mem_offer {k : Nat} {heap : List α} {x y : α} (member : y ∈ offer k heap x) : y = x ∨ y ∈ heap := by
  rw [offer.eq_def] at member
  split at member
  · exact mem_push.mp member
  · split at member
    · cases member
    · split at member
      · exact (mem_push.mp member).imp id fun kept => by simp [kept]
      · exact .inr member

theorem best_nil (k : Nat) : Best k (∅ : Set α) [] where
  ordered := List.Pairwise.nil
  seen_of_mem := by simp
  atMost := Nat.zero_le k
  full := by simp
  least := by simp

namespace Best

variable {k : Nat} {seen : Set α} {heap : List α} (best : Best k seen heap)
include best

theorem offer_room {x : α} (new : x ∉ seen) (room : heap.length < k) : Best k (insert x seen) (push x heap) where
  ordered := push_ordered best.ordered fun member => new (best.seen_of_mem x member)
  seen_of_mem y member := (mem_push.mp member).imp id (best.seen_of_mem y)
  atMost := by rw [length_push]; exact room
  full _ y member := mem_push.mpr (member.imp id (best.full room y))
  least _ _ y member absent := absurd (mem_push.mpr (member.imp id (best.full room y))) absent

theorem offer_better {x worst : α} {rest : List α} (new : x ∉ seen) (shape : heap = worst :: rest)
    (full : ¬ heap.length < k) (below : x < worst) : Best k (insert x seen) (push x rest) := by
  subst shape
  have ordered := List.pairwise_cons.mp best.ordered
  have inside : worst ∈ seen := best.seen_of_mem worst (by simp)
  have size : (push x rest).length = (worst :: rest).length := length_push x rest
  refine ⟨push_ordered ordered.2 fun member => new (best.seen_of_mem x (by simp [member])), ?_, ?_, ?_, ?_⟩
  · exact fun y member => (mem_push.mp member).imp id fun kept => best.seen_of_mem y (by simp [kept])
  · rw [size]
    exact best.atMost
  · rw [size]
    exact fun short => absurd short full
  · intro a kept y member absent
    rw [mem_push, not_or] at absent
    have other : y ∈ seen := member.resolve_left absent.1
    have last : worst ≤ y := by
      by_cases same : y = worst
      · exact same.ge
      · exact (best.least worst (by simp) y other (by simp [same, absent.2])).le
    rcases mem_push.mp kept with rfl | kept
    · exact lt_of_lt_of_le below last
    · exact lt_of_lt_of_le (ordered.1 a kept) last

/-- What lies above the top leaves the heap as it is. -/
theorem settled {others : Set α} (full : heap.length = k) (above : ∀ worst, heap.head? = some worst → ∀ y ∈ others, worst < y) :
    Best k (seen ∪ others) heap := by
  refine ⟨best.ordered, fun x member => .inl (best.seen_of_mem x member), best.atMost, ?_, ?_⟩
  · exact fun short => absurd full (by omega)
  · rintro x member y (old | new) absent
    · exact best.least x member y old absent
    · cases heap with
      | nil => cases member
      | cons worst rest =>
        have high := above worst rfl y new
        rcases List.mem_cons.mp member with rfl | later
        · exact high
        · exact lt_trans ((List.pairwise_cons.mp best.ordered).1 x later) high

theorem offer {x : α} (new : x ∉ seen) : Best k (insert x seen) (offer k heap x) := by
  rw [Foundation.offer.eq_def]
  split
  · rename_i room
    exact best.offer_room new room
  · rename_i full
    have size : heap.length = k := by have := best.atMost; omega
    have stays (above : ∀ worst, heap.head? = some worst → ∀ y ∈ ({x} : Set α), worst < y) :
        Best k (insert x seen) heap := by
      rw [Set.insert_eq, Set.union_comm]
      exact best.settled size above
    split
    · exact stays (by simp)
    · rename_i worst rest
      split
      · rename_i below
        exact best.offer_better new rfl full below
      · rename_i notBelow
        refine stays fun top is y one => ?_
        cases is
        cases one
        have inside := best.seen_of_mem worst (by simp)
        exact lt_of_le_of_ne (not_lt.mp notBelow) fun same => new (same ▸ inside)

end Best

end RustSql.Foundation
