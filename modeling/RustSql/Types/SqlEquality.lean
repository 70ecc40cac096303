import RustSql.Types.MaskedText
import RustSql.Types.NumericText
import RustSql.Types.OrderKey
import RustSql.Types.RowCodec

/-! SQL equality of values, and the hash that goes with it. -/

namespace RustSql.Types

open RustSql.Foundation

namespace Value

/-- `values_sql_equal`. -/
def sqlEqual : Value → Value → Bool
  | null, null => true
  | integer x, integer y => x == y
  | integer x, real y | real y, integer x => !y.isNaN && intFloatCompare x y == .eq
  | real x, real y => x.partialCmp y == some .eq
  | text x, text y => x == y
  | blob x, blob y => x == y
  | _, _ => false

/-- The doubles that hash as integers: finite, equal to their truncation and in range. -/
def hashesAsInteger (f : Binary64) : Bool :=
  decide (f.magnitude < 2047 * 2 ^ 52) && decide (f.scaled = f.truncate * Binary64.unit) &&
    negTwoPow63.le f && f.lt twoPow63

/-- `hash_value_sql`: the bytes that go into the hasher. A string ends with `FF`, bytes begin
with their number. -/
def hashSql : Value → List UInt8
  | null => [0]
  | integer i => 1 :: signedBytes 8 i.toInt
  | real f =>
    if hashesAsInteger f then 1 :: signedBytes 8 (asI64 f)
    else 2 :: littleEndian 8 f.bits.toNat
  | text s => 3 :: (asStr s ++ [0xFF])
  | blob b => 4 :: (littleEndian 8 b.length ++ b)

/-- A double with the value of an integer hashes as this integer. -/
theorem hashSql_real {f : Binary64} {k : Int} (number : f.isNaN = false)
    (value : f.scaled = k * Binary64.unit) (low : -2 ^ 63 ≤ k) (high : k < 2 ^ 63) :
    hashSql (.real f) = 1 :: signedBytes 8 k := by
  have positive := Binary64.unit_pos
  have least : -2 ^ 63 * (Binary64.unit : Int) ≤ f.scaled := by
    rw [value]
    exact Int.mul_le_mul_of_nonneg_right low positive.le
  have most : f.scaled < 2 ^ 63 * (Binary64.unit : Int) := by
    rw [value]
    exact Int.mul_lt_mul_of_pos_right high positive
  have truncated := Binary64.truncate_integral number value
  have integer : hashesAsInteger f = true := by
    rw [hashesAsInteger, truncated]
    simp only [Bool.and_eq_true, decide_eq_true_iff]
    refine ⟨⟨⟨finite_integral value low high, value⟩, ?_⟩, ?_⟩
    · rw [Binary64.le_iff (by decide) number, scaled_negTwoPow63]
      exact least
    · rw [Binary64.lt_iff number (by decide), scaled_twoPow63]
      exact most
  rw [hashSql, if_pos integer, asI64_of_range number least most, truncated]

variable {a b c : Value}

/-- The order of values that are no NaN is that of their keys. -/
theorem cmp_swap (left : a.isNaN = false) (right : b.isNaN = false) : b.cmp a = (a.cmp b).swap := by
  rw [← compare_encodeOrderKey b a right left, ← compare_encodeOrderKey a b left right]
  exact Std.OrientedCmp.eq_swap

theorem cmp_trans (left : a.isNaN = false) (middle : b.isNaN = false) (right : c.isNaN = false)
    (first : (a.cmp b).isLE) (second : (b.cmp c).isLE) : (a.cmp c).isLE := by
  rw [← compare_encodeOrderKey a b left middle] at first
  rw [← compare_encodeOrderKey b c middle right] at second
  rw [← compare_encodeOrderKey a c left right]
  exact Std.TransCmp.isLE_trans first second

/-- The numbers of equal rank are those of equal value. -/
theorem sqlEqual_iff (left : a.isNaN = false) (right : b.isNaN = false) :
    a.sqlEqual b = true ↔ a.cmp b = .eq := by
  cases a <;> cases b <;> simp only [isNaN] at left right
  case null.null => exact iff_of_true rfl rfl
  case integer.integer i j =>
    rw [sqlEqual, cmp, beq_iff_eq, compare_eq_iff_eq, Int64.toInt_inj]
  case integer.real i r =>
    rw [sqlEqual, cmp, right, numClass_real right]
    simp [numClass]
  case real.integer r i =>
    rw [sqlEqual, cmp, left, numClass_real left, show numClass (integer i) = 1 from rfl]
    cases intFloatCompare i r <;> decide
  case real.real r s =>
    rw [sqlEqual, cmp, numClass_real left, numClass_real right,
      Binary64.partialCmp_of_number left right]
    simp
  case text.text s t | blob.blob s t =>
    rw [sqlEqual, cmp, beq_iff_eq, compareLex_eq_iff]
  all_goals exact iff_of_false Bool.false_ne_true fun is => by cases is

/-- Equal values feed the same bytes to the hasher. -/
theorem hashSql_of_equal (left : a.isNaN = false) (right : b.isNaN = false)
    (equal : a.cmp b = .eq) : a.hashSql = b.hashSql := by
  cases a <;> cases b <;> simp only [isNaN] at left right
  case null.null => rfl
  case integer.integer i j =>
    rw [cmp, compare_eq_iff_eq, Int64.toInt_inj] at equal
    rw [equal]
  case integer.real i r =>
    rw [cmp, numClass_real right] at equal
    have value : exact i = r.scaled := by
      rw [← compare_eq_iff_eq, ← intFloatCompare_eq i right]
      exact equal
    rw [hashSql_real right value.symm i.le_toInt i.toInt_lt]
    rfl
  case real.integer r i =>
    rw [cmp, numClass_real left] at equal
    have value : exact i = r.scaled := by
      rw [← compare_eq_iff_eq, ← intFloatCompare_eq i left]
      exact Ordering.swap_eq_eq.mp equal
    rw [hashSql_real left value.symm i.le_toInt i.toInt_lt]
    rfl
  case real.real r s =>
    rw [cmp, numClass_real left, numClass_real right, Binary64.partialCmp_of_number left right] at equal
    have value : r.scaled = s.scaled := compare_eq_iff_eq.mp equal
    by_cases zero : s.magnitude = 0
    · have nothing : s.scaled = 0 * Binary64.unit := by
        rw [Int.zero_mul, ← Int.natAbs_eq_zero, Binary64.natAbs_scaled, zero]
        rfl
      rw [hashSql_real right nothing (by decide) (by decide),
        hashSql_real left (value.trans nothing) (by decide) (by decide)]
    · rw [eq_of_scaled value zero]
  case text.text s t | blob.blob s t =>
    rw [cmp, compareLex_eq_iff] at equal
    rw [equal]
  all_goals cases equal

/-- Values without NaN are totally ordered up to equality, and equality and hashes go by the
order. -/
theorem sql_coherent (a b c : Value) (left : a.isNaN = false) (middle : b.isNaN = false)
    (right : c.isNaN = false) :
    b.cmp a = (a.cmp b).swap ∧ ((a.cmp b).isLE → (b.cmp c).isLE → (a.cmp c).isLE) ∧
      (a.sqlEqual b = true ↔ a.cmp b = .eq) ∧ (a.sqlEqual b = true → a.hashSql = b.hashSql) :=
  ⟨cmp_swap left middle, cmp_trans left middle right, sqlEqual_iff left middle,
    fun equal => hashSql_of_equal left middle ((sqlEqual_iff left middle).mp equal)⟩

/-- The least integer and the double of its value. -/
theorem sql_coherent_least :
    (real negTwoPow63).cmp (integer Int64.minValue) =
        ((integer Int64.minValue).cmp (real negTwoPow63)).swap ∧
      (((integer Int64.minValue).cmp (real negTwoPow63)).isLE →
        ((real negTwoPow63).cmp null).isLE → ((integer Int64.minValue).cmp null).isLE) ∧
      ((integer Int64.minValue).sqlEqual (real negTwoPow63) = true ↔
        (integer Int64.minValue).cmp (real negTwoPow63) = .eq) ∧
      ((integer Int64.minValue).sqlEqual (real negTwoPow63) = true →
        (integer Int64.minValue).hashSql = (real negTwoPow63).hashSql) :=
  sql_coherent (integer Int64.minValue) (real negTwoPow63) null rfl (by decide) rfl

end Value

end RustSql.Types
