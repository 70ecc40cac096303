import Mathlib.Data.Nat.Digits.Lemmas
import Mathlib.Tactic.Ring

/-! Numerals with the highest digit first: how they are read, and how two of one length
compare. -/

namespace RustSql.Foundation

/-- The value of a row of digits, the highest first. -/
def numeral (base : Nat) (digits : List Nat) : Nat := Nat.ofDigits base digits.reverse

section Numeral

variable {base : Nat}

@[simp] theorem numeral_nil : numeral base [] = 0 := rfl

theorem numeral_append (left right : List Nat) :
    numeral base (left ++ right) = numeral base left * base ^ right.length + numeral base right := by
  rw [numeral, List.reverse_append, Nat.ofDigits_append, List.length_reverse, numeral, numeral]
  ring

theorem numeral_cons (digit : Nat) (rest : List Nat) :
    numeral base (digit :: rest) = digit * base ^ rest.length + numeral base rest := by
  have single : numeral base [digit] = digit := Nat.ofDigits_singleton
  rw [← List.singleton_append, numeral_append, single]

/-- Reading a numeral digit by digit. -/
theorem foldl_numeral (digits : List Nat) (n : Nat) :
    digits.foldl (fun n digit => n * base + digit) n =
      n * base ^ digits.length + numeral base digits := by
  induction digits generalizing n with
  | nil => simp
  | cons digit rest ih =>
    rw [List.foldl_cons, ih, numeral_cons, List.length_cons]
    ring

theorem numeral_lt (large : 1 < base) {digits : List Nat} (bounded : ∀ digit ∈ digits, digit < base) :
    numeral base digits < base ^ digits.length := by
  have bound := @Nat.ofDigits_lt_base_pow_length base digits.reverse large
  rw [List.length_reverse] at bound
  exact bound fun digit member => bounded digit (List.mem_reverse.mp member)

/-- A numeral with a nonzero digit in front is long because it is large. -/
theorem pow_le_numeral {digit : Nat} (nonzero : 0 < digit) (rest : List Nat) :
    base ^ rest.length ≤ numeral base (digit :: rest) := by
  rw [numeral_cons]
  exact Nat.le_trans (Nat.le_mul_of_pos_left _ nonzero) (Nat.le_add_right _ _)

/-- Leading zeros do not count. -/
theorem numeral_zeros {zeros : List Nat} (all : ∀ digit ∈ zeros, digit = 0) (digits : List Nat) :
    numeral base (zeros ++ digits) = numeral base digits := by
  induction zeros with
  | nil => rfl
  | cons digit rest ih =>
    have zero := all digit (List.mem_cons_self ..)
    rw [List.cons_append, numeral_cons, zero, Nat.zero_mul, Nat.zero_add]
    exact ih fun digit member => all digit (List.mem_cons_of_mem _ member)

/-- The first difference between two rows of digits, zero where there is none. -/
def firstDifference (left right : List Nat) : Int :=
  ((List.zipWith (fun l r : Nat => (l : Int) - r) left right).find? (· ≠ 0)).getD 0

/-- The first digits that differ decide how two numerals of one length compare. -/
theorem firstDifference_sign (large : 1 < base) {left right : List Nat}
    (length : left.length = right.length) (leftBound : ∀ digit ∈ left, digit < base)
    (rightBound : ∀ digit ∈ right, digit < base) :
    (firstDifference left right < 0 ↔ numeral base left < numeral base right) ∧
      (0 < firstDifference left right ↔ numeral base right < numeral base left) := by
  induction left generalizing right with
  | nil =>
    have empty : right = [] := List.length_eq_zero_iff.mp length.symm
    simp [empty, firstDifference]
  | cons l ls ih =>
    cases right with
    | nil => simp at length
    | cons r rs =>
      have same : ls.length = rs.length := by simpa using length
      have lowBelow := numeral_lt large fun digit member =>
        leftBound digit (List.mem_cons_of_mem _ member)
      have highBelow := numeral_lt large fun digit member =>
        rightBound digit (List.mem_cons_of_mem _ member)
      rw [numeral_cons, numeral_cons]
      rw [same] at lowBelow ⊢
      rcases Nat.lt_trichotomy l r with less | equal | more
      · have first : firstDifference (l :: ls) (r :: rs) = (l : Int) - r := by
          have differ : (l : Int) - r ≠ 0 := by omega
          simp [firstDifference, differ]
        have step : (l + 1) * base ^ rs.length ≤ r * base ^ rs.length :=
          Nat.mul_le_mul_right _ less
        rw [Nat.add_mul] at step
        rw [first]
        constructor <;> constructor <;> intro _ <;> omega
      · subst equal
        have first : firstDifference (l :: ls) (l :: rs) = firstDifference ls rs := by
          simp [firstDifference]
        have rest := ih same (fun digit member => leftBound digit (List.mem_cons_of_mem _ member))
          fun digit member => rightBound digit (List.mem_cons_of_mem _ member)
        rw [first, rest.1, rest.2]
        constructor <;> constructor <;> intro _ <;> omega
      · have first : firstDifference (l :: ls) (r :: rs) = (l : Int) - r := by
          have differ : (l : Int) - r ≠ 0 := by omega
          simp [firstDifference, differ]
        have step : (r + 1) * base ^ rs.length ≤ l * base ^ rs.length :=
          Nat.mul_le_mul_right _ more
        rw [Nat.add_mul] at step
        rw [first]
        constructor <;> constructor <;> intro _ <;> omega

end Numeral

end RustSql.Foundation
