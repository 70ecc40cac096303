import RustSql.Foundation.Binary64

/-! SQL values and their total order. -/

namespace RustSql.Types

open RustSql.Foundation

/-- A single SQL value; text is compared and stored by its bytes. -/
inductive Value where
  | null
  | integer (i : Int64)
  | real (f : Binary64)
  | text (bytes : List UInt8)
  | blob (bytes : List UInt8)
deriving DecidableEq, Repr

/-- The double `9223372036854775808.0`. -/
def twoPow63 : Binary64 := ⟨0x43E0000000000000⟩

/-- The double `-9223372036854775808.0`. -/
def negTwoPow63 : Binary64 := ⟨0xC3E0000000000000⟩

/-- The cast `r as i64`. -/
def asI64 (r : Binary64) : Int := r.toIntSat (-2 ^ 63) (2 ^ 63 - 1)

/-- The cast `i as f64`. -/
def asF64 (i : Int64) : Binary64 := Binary64.ofInt i.toInt

/-- Exact comparison of an integer against a double: the range test, then the
truncated integer, and only for equal truncations the double itself. -/
def intFloatCompare (i : Int64) (r : Binary64) : Ordering :=
  if r.lt negTwoPow63 then .gt
  else if twoPow63.le r then .lt
  else
    match compare i.toInt (asI64 r) with
    | .eq =>
      let s := asF64 i
      if s.lt r then .lt else if r.lt s then .gt else .eq
    | decided => decided

namespace Value

/-- Doubles that are NaN form their own class after every number. -/
def numClass : Value → Nat
  | integer _ => 1
  | real f => if f.isNaN then 2 else 1
  | _ => 0

/-- `NULL`, then numbers, then text, then blobs. -/
def cmp (self other : Value) : Ordering :=
  match self, other with
  | null, null => .eq
  | null, _ => .lt
  | _, null => .gt
  | integer a, integer b => compare a.toInt b.toInt
  | integer a, real b =>
    (compare (numClass (integer a)) (numClass (real b))).then (intFloatCompare a b)
  | real a, integer b =>
    (compare (numClass (real a)) (numClass (integer b))).then (intFloatCompare b a).swap
  | real a, real b =>
    (compare (numClass (real a)) (numClass (real b))).then ((a.partialCmp b).getD .eq)
  | integer _, text _ | integer _, blob _ | real _, text _ | real _, blob _ => .lt
  | text _, integer _ | blob _, integer _ | text _, real _ | blob _, real _ => .gt
  | text a, text b => List.compareLex compare a b
  | blob a, blob b => List.compareLex compare a b
  | text _, blob _ => .lt
  | blob _, text _ => .gt

def isNaN : Value → Bool
  | real f => f.isNaN
  | _ => false

def isNull : Value → Bool
  | null => true
  | _ => false

def isText : Value → Bool
  | text _ => true
  | _ => false

end Value

/-- The value of an integer in the units doubles are counted in. -/
def exact (i : Int64) : Int := i.toInt * Binary64.unit

theorem natAbs_le (i : Int64) : i.toInt.natAbs ≤ 2 ^ 63 := by
  have low := i.le_toInt
  have high := i.toInt_lt
  omega

theorem scaled_twoPow63 : twoPow63.scaled = 2 ^ 63 * Binary64.unit := by decide +kernel

theorem scaled_negTwoPow63 : negTwoPow63.scaled = -2 ^ 63 * Binary64.unit := by decide +kernel

theorem exact_bounds (i : Int64) :
    -2 ^ 63 * (Binary64.unit : Int) ≤ exact i ∧ exact i < 2 ^ 63 * (Binary64.unit : Int) :=
  ⟨Int.mul_le_mul_of_nonneg_right i.le_toInt Binary64.unit_pos.le,
    Int.mul_lt_mul_of_pos_right i.toInt_lt Binary64.unit_pos⟩

theorem asI64_of_range {r : Binary64} (number : r.isNaN = false)
    (low : -2 ^ 63 * (Binary64.unit : Int) ≤ r.scaled)
    (high : r.scaled < 2 ^ 63 * (Binary64.unit : Int)) : asI64 r = r.truncate := by
  obtain ⟨below, above⟩ := Binary64.truncate_bounds number
  have positive := Binary64.unit_pos
  have atLeast : -2 ^ 63 < r.truncate + 1 :=
    Int.lt_of_mul_lt_mul_right (Int.lt_of_le_of_lt low above) positive.le
  have atMost : r.truncate - 1 < 2 ^ 63 :=
    Int.lt_of_mul_lt_mul_right (Int.lt_trans below high) positive.le
  have notTop : r.truncate ≠ 2 ^ 63 := by
    intro top
    have size : 2 ^ 63 * Binary64.unit ≤ r.scaled.natAbs := by
      have quotient := Binary64.natAbs_truncate number
      rw [top] at quotient
      rw [Binary64.natAbs_scaled]
      exact (Nat.le_div_iff_mul_le (by exact_mod_cast positive)).mp quotient.le
    have nonnegative : 0 ≤ r.scaled := by
      rw [top] at below
      exact (Int.mul_nonneg (by decide) positive.le).trans below.le
    have reached : (2 ^ 63 * Binary64.unit : Int) ≤ r.scaled := by
      rw [← Int.natAbs_of_nonneg nonnegative]
      exact_mod_cast size
    exact absurd high (Int.not_lt.mpr reached)
  simp only [asI64, Binary64.toIntSat]
  omega

/-- An integer some double truncates to is cast exactly: up to `2^52` every
integer is a double, and beyond it the truncated double is an integer. -/
theorem scaled_asF64_of_truncate {i : Int64} {r : Binary64} (number : r.isNaN = false)
    (same : i.toInt = r.truncate) : (asF64 i).scaled = exact i := by
  have bound := natAbs_le i
  have quotient := Binary64.natAbs_truncate number
  rw [← same] at quotient
  by_cases zero : i.toInt.natAbs = 0
  · apply Binary64.scaled_ofInt_of_represented (f := ⟨0⟩) bound
    rw [zero, Nat.zero_mul]
    decide
  rcases Binary64.roundNat_enclosed _ zero bound with rounded | ⟨_, _, _, _, least, _⟩
  · apply Binary64.scaled_ofInt_of_represented (f := asF64 i) bound
    rw [asF64, Binary64.magnitude_ofInt bound, rounded]
  · apply Binary64.scaled_ofInt_of_represented (f := r) bound
    have large : 2 ^ 52 * Binary64.unit ≤ Binary64.weight r.magnitude := by
      rw [quotient] at least
      exact (Nat.le_div_iff_mul_le (by exact_mod_cast Binary64.unit_pos)).mp least
    rw [quotient, Nat.div_mul_cancel (Binary64.unit_dvd_weight large)]

/-- The mixed comparison is the comparison of the exact values. -/
theorem intFloatCompare_eq (i : Int64) {r : Binary64} (number : r.isNaN = false) :
    intFloatCompare i r = compare (exact i) r.scaled := by
  obtain ⟨least, most⟩ := exact_bounds i
  have lowNumber : negTwoPow63.isNaN = false := by decide
  have highNumber : twoPow63.isNaN = false := by decide
  rw [intFloatCompare]
  split
  · rename_i below
    rw [Binary64.lt_iff number lowNumber, scaled_negTwoPow63] at below
    exact (compare_gt_iff_gt.mpr (lt_of_lt_of_le below least)).symm
  · rename_i notBelow
    rw [Binary64.lt_iff number lowNumber, scaled_negTwoPow63, not_lt] at notBelow
    split
    · rename_i above
      rw [Binary64.le_iff highNumber number, scaled_twoPow63] at above
      exact (compare_lt_iff_lt.mpr (lt_of_lt_of_le most above)).symm
    · rename_i notAbove
      rw [Binary64.le_iff highNumber number, scaled_twoPow63, not_le] at notAbove
      rw [asI64_of_range number notBelow notAbove]
      obtain ⟨below, above⟩ := Binary64.truncate_bounds number
      have positive := Binary64.unit_pos.le
      rcases lt_trichotomy i.toInt r.truncate with less | same | more
      · rw [compare_lt_iff_lt.mpr less]
        refine (compare_lt_iff_lt.mpr (lt_of_le_of_lt ?_ below)).symm
        exact Int.mul_le_mul_of_nonneg_right (by omega) positive
      · have value := scaled_asF64_of_truncate number same
        have castNumber : (asF64 i).isNaN = false := Binary64.isNaN_ofInt (natAbs_le i)
        rw [compare_eq_iff_eq.mpr same]
        simp only [Binary64.lt_iff castNumber number, Binary64.lt_iff number castNumber, value]
        rcases lt_trichotomy (exact i) r.scaled with less | equal | more
        · simp [less, compare_lt_iff_lt.mpr less]
        · simp [equal]
        · simp [more, not_lt.mpr more.le, compare_gt_iff_gt.mpr more]
      · rw [compare_gt_iff_gt.mpr more]
        refine (compare_gt_iff_gt.mpr (lt_of_lt_of_le above ?_)).symm
        exact Int.mul_le_mul_of_nonneg_right (by omega) positive

end RustSql.Types
