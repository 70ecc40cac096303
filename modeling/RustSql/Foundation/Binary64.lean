import Mathlib.Order.Compare
import Mathlib.Order.Monotone.Basic
import Mathlib.Data.Nat.Log
import Mathlib.Tactic.Ring
import Mathlib.Tactic.Linarith

/-! IEEE binary64 numbers as bit patterns with exact dyadic values. Values are
counted in units of the smallest subnormal `2^-1074`, so that every comparison
is one between integers; infinity takes the value its exponent field would
give, `2^1024`, which lies above every finite double. -/

namespace RustSql.Foundation

structure Binary64 where
  bits : UInt64
deriving DecidableEq, Repr

namespace Binary64

/-- The bit pattern without its sign bit: eleven exponent and 52 fraction bits. -/
def magnitude (f : Binary64) : Nat := f.bits.toNat % 2 ^ 63

def sign (f : Binary64) : Bool := f.bits >>> 63 == 1

/-- Exponent field all ones and a nonzero fraction. -/
def isNaN (f : Binary64) : Bool := decide (2047 * 2 ^ 52 < f.magnitude)

/-- The value of a sign-free pattern in units of `2^-1074`. -/
def weight (pattern : Nat) : Nat :=
  if pattern / 2 ^ 52 = 0 then pattern % 2 ^ 52
  else (2 ^ 52 + pattern % 2 ^ 52) * 2 ^ (pattern / 2 ^ 52 - 1)

/-- One, in units of `2^-1074`. -/
def unit : Nat := 2 ^ 1074

def scaled (f : Binary64) : Int :=
  if f.sign then -(weight f.magnitude : Int) else weight f.magnitude

/-- `f64::partial_cmp`: unordered exactly when an operand is NaN. -/
def partialCmp (f g : Binary64) : Option Ordering :=
  if f.isNaN || g.isNaN then none else some (compare f.scaled g.scaled)

def lt (f g : Binary64) : Bool := f.partialCmp g == some .lt

def le (f g : Binary64) : Bool := f.partialCmp g == some .lt || f.partialCmp g == some .eq

/-- Nearest pattern to a natural number, ties to the even fraction. A rounding
carry out of the fraction moves to the next exponent by itself. -/
def roundNat (n : Nat) : Nat :=
  let top := n.log2
  if n = 0 then 0
  else if top ≤ 52 then (top + 1023) * 2 ^ 52 + (n * 2 ^ (52 - top) - 2 ^ 52)
  else
    let shift := top - 52
    let quotient := n / 2 ^ shift
    let rest := n % 2 ^ shift
    let half := 2 ^ (shift - 1)
    let up := half < rest || (rest == half && quotient % 2 == 1)
    (top + 1023) * 2 ^ 52 + (quotient - 2 ^ 52) + (if up then 1 else 0)

/-- The integer-to-double cast, rounding to nearest with ties to even. -/
def ofInt (i : Int) : Binary64 :=
  ⟨UInt64.ofNat ((if i < 0 then 2 ^ 63 else 0) + roundNat i.natAbs)⟩

/-- Truncation toward zero; NaN truncates to zero. -/
def truncate (f : Binary64) : Int :=
  if f.isNaN then 0 else f.scaled.tdiv unit

/-- The saturating double-to-integer cast to a range. -/
def toIntSat (low high : Int) (f : Binary64) : Int := max low (min high f.truncate)

/-- Addition of positive zero: only the sign of a zero changes. -/
def addZero (f : Binary64) : Binary64 := if f.magnitude = 0 then ⟨0⟩ else f

theorem magnitude_lt (f : Binary64) : f.magnitude < 2 ^ 63 := Nat.mod_lt _ (by decide)

theorem sign_iff (f : Binary64) : f.sign = true ↔ 2 ^ 63 ≤ f.bits.toNat := by
  have bound := f.bits.toNat_lt
  have shift : (f.bits >>> 63).toNat = f.bits.toNat / 2 ^ 63 := by
    rw [UInt64.toNat_shiftRight, Nat.shiftRight_eq_div_pow]
    rfl
  rw [sign, beq_iff_eq, ← UInt64.toNat_inj, shift, show (1 : UInt64).toNat = 1 from rfl]
  omega

theorem bits_toNat (f : Binary64) :
    f.bits.toNat = (if f.sign then 2 ^ 63 else 0) + f.magnitude := by
  have bound := f.bits.toNat_lt
  have signed := f.sign_iff
  unfold magnitude
  by_cases negative : f.sign = true
  · have large := signed.mp negative
    simp only [negative, if_true]
    omega
  · have small : ¬ 2 ^ 63 ≤ f.bits.toNat := fun large => negative (signed.mpr large)
    simp only [negative]
    simp
    omega

theorem ofParts (negative : Bool) (pattern : Nat) (bound : pattern < 2 ^ 63) :
    (⟨UInt64.ofNat ((if negative then 2 ^ 63 else 0) + pattern)⟩ : Binary64).magnitude = pattern ∧
      (⟨UInt64.ofNat ((if negative then 2 ^ 63 else 0) + pattern)⟩ : Binary64).sign = negative := by
  have word : (UInt64.ofNat ((if negative then 2 ^ 63 else 0) + pattern)).toNat =
      (if negative then 2 ^ 63 else 0) + pattern := by
    rw [UInt64.toNat_ofNat']
    apply Nat.mod_eq_of_lt
    split <;> omega
  constructor
  · simp only [magnitude, word]
    split <;> omega
  · apply Bool.eq_iff_iff.mpr
    rw [sign_iff, word]
    cases negative with
    | false => simp; omega
    | true => simp

/-- A normal pattern is its significand at its exponent; the significand may
also be the carry value, which is the next exponent's first pattern. -/
theorem weight_normal (exponent significand : Nat) (normal : 1 ≤ exponent)
    (low : 2 ^ 52 ≤ significand) (high : significand ≤ 2 ^ 53) :
    weight (exponent * 2 ^ 52 + (significand - 2 ^ 52)) = significand * 2 ^ (exponent - 1) := by
  by_cases carry : significand = 2 ^ 53
  · have field : (exponent * 2 ^ 52 + (significand - 2 ^ 52)) / 2 ^ 52 = exponent + 1 := by omega
    have fraction : (exponent * 2 ^ 52 + (significand - 2 ^ 52)) % 2 ^ 52 = 0 := by omega
    have power : 2 ^ exponent = 2 * 2 ^ (exponent - 1) := by
      rw [← pow_succ', Nat.sub_add_cancel normal]
    simp only [weight, field, fraction, Nat.add_one_ne_zero, if_false, Nat.add_sub_cancel]
    rw [power, carry]
    ring
  · have field : (exponent * 2 ^ 52 + (significand - 2 ^ 52)) / 2 ^ 52 = exponent := by omega
    have fraction : (exponent * 2 ^ 52 + (significand - 2 ^ 52)) % 2 ^ 52 =
        significand - 2 ^ 52 := by omega
    have nonzero : exponent ≠ 0 := by omega
    simp only [weight, field, fraction, nonzero, if_false]
    rw [Nat.add_sub_cancel' low]

theorem weight_lt_succ (pattern : Nat) : weight pattern < weight (pattern + 1) := by
  by_cases subnormal : pattern / 2 ^ 52 = 0
  · by_cases last : pattern + 1 = 2 ^ 52
    · have exact := weight_normal 1 (2 ^ 52) (by decide) (by decide) (by decide)
      have here : pattern = 2 ^ 52 - 1 := by omega
      rw [last, show (2 : Nat) ^ 52 = 1 * 2 ^ 52 + (2 ^ 52 - 2 ^ 52) by norm_num, exact, here]
      simp [weight]
    · have next : (pattern + 1) / 2 ^ 52 = 0 := by omega
      simp only [weight, subnormal, next, if_true]
      omega
  · have exact := weight_normal (pattern / 2 ^ 52) (2 ^ 52 + pattern % 2 ^ 52) (by omega)
      (by omega) (by omega)
    have following := weight_normal (pattern / 2 ^ 52) (2 ^ 52 + pattern % 2 ^ 52 + 1) (by omega)
      (by omega) (by omega)
    rw [show pattern / 2 ^ 52 * 2 ^ 52 + (2 ^ 52 + pattern % 2 ^ 52 - 2 ^ 52) = pattern by omega]
      at exact
    rw [show pattern / 2 ^ 52 * 2 ^ 52 + (2 ^ 52 + pattern % 2 ^ 52 + 1 - 2 ^ 52) = pattern + 1
      by omega] at following
    rw [exact, following]
    exact Nat.mul_lt_mul_of_pos_right (Nat.lt_succ_self _) (Nat.pow_pos (by decide))

theorem weight_strictMono : StrictMono weight := strictMono_nat_of_lt_succ weight_lt_succ

@[simp] theorem weight_zero : weight 0 = 0 := by decide

/-- The fraction bits a positive number keeps at its own exponent, leading one
included. -/
def significand (n : Nat) : Nat := n * 2 ^ 52 / 2 ^ n.log2

/-- The greatest pattern not above a positive number. -/
def floorNat (n : Nat) : Nat := (n.log2 + 1023) * 2 ^ 52 + (significand n - 2 ^ 52)

theorem significand_bounds (n : Nat) (positive : n ≠ 0) :
    2 ^ 52 ≤ significand n ∧ significand n < 2 ^ 53 := by
  have low := Nat.log2_self_le positive
  have high := Nat.lt_log2_self (n := n)
  have power : 0 < 2 ^ n.log2 := Nat.pow_pos (by decide)
  constructor
  · rw [significand, Nat.le_div_iff_mul_le power, Nat.mul_comm]
    exact Nat.mul_le_mul_right _ low
  · rw [significand, Nat.div_lt_iff_lt_mul power]
    calc n * 2 ^ 52 < 2 ^ (n.log2 + 1) * 2 ^ 52 := Nat.mul_lt_mul_of_pos_right high (by decide)
      _ = 2 ^ 53 * 2 ^ n.log2 := by ring

theorem weight_floorNat (n : Nat) (positive : n ≠ 0) :
    weight (floorNat n) = significand n * 2 ^ (n.log2 + 1022) ∧
      weight (floorNat n + 1) = (significand n + 1) * 2 ^ (n.log2 + 1022) := by
  obtain ⟨low, high⟩ := significand_bounds n positive
  have here := weight_normal (n.log2 + 1023) (significand n) (by omega) low (by omega)
  have next := weight_normal (n.log2 + 1023) (significand n + 1) (by omega) (by omega) (by omega)
  have shift : significand n + 1 - 2 ^ 52 = significand n - 2 ^ 52 + 1 := by omega
  have exponent : n.log2 + 1023 - 1 = n.log2 + 1022 := by omega
  rw [shift, ← Nat.add_assoc, exponent] at next
  rw [exponent] at here
  exact ⟨here, next⟩

theorem significand_exact (n : Nat) (small : n.log2 ≤ 52) :
    significand n = n * 2 ^ (52 - n.log2) ∧ significand n * 2 ^ (n.log2 + 1022) = n * unit := by
  have exponents : 52 - n.log2 + (n.log2 + 1022) = 1074 := by omega
  have split : 2 ^ 52 = 2 ^ (52 - n.log2) * 2 ^ n.log2 := by
    rw [← pow_add, Nat.sub_add_cancel small]
  have value : significand n = n * 2 ^ (52 - n.log2) := by
    rw [significand, split, ← Nat.mul_assoc, Nat.mul_div_cancel _ (Nat.pow_pos (by decide))]
  refine ⟨value, ?_⟩
  rw [value, unit, Nat.mul_assoc, ← pow_add, exponents]

theorem significand_large (n : Nat) (large : 52 ≤ n.log2) :
    significand n = n / 2 ^ (n.log2 - 52) := by
  have split : 2 ^ n.log2 = 2 ^ (n.log2 - 52) * 2 ^ 52 := by
    rw [← pow_add, Nat.sub_add_cancel large]
  rw [significand, split, Nat.mul_div_mul_right _ _ (Nat.pow_pos (by decide))]

theorem roundNat_small (n : Nat) (positive : n ≠ 0) (small : n.log2 ≤ 52) :
    roundNat n = floorNat n := by
  unfold roundNat floorNat
  simp only [positive, small, if_true, if_false, (significand_exact n small).1]

theorem roundNat_large (n : Nat) (positive : n ≠ 0) (large : 52 < n.log2) :
    roundNat n = floorNat n ∨
      (roundNat n = floorNat n + 1 ∧ n % 2 ^ (n.log2 - 52) ≠ 0) := by
  have half : 0 < 2 ^ (n.log2 - 52 - 1) := Nat.pow_pos (by decide)
  have beyond : ¬ n.log2 ≤ 52 := by omega
  unfold roundNat floorNat
  simp only [positive, beyond, if_false, significand_large n large.le]
  split
  · rename_i up
    refine Or.inr ⟨rfl, ?_⟩
    intro exact
    simp only [exact, Bool.or_eq_true, decide_eq_true_eq, Bool.and_eq_true, beq_iff_eq] at up
    omega
  · exact Or.inl (Nat.add_zero _)

/-- An integer of at most 64 bits is rounded exactly, or to one of the two
integral doubles that enclose it. -/
theorem roundNat_enclosed (n : Nat) (positive : n ≠ 0) (bound : n ≤ 2 ^ 63) :
    weight (roundNat n) = n * unit ∨
      ∃ low high, weight (floorNat n) = low * unit ∧ weight (floorNat n + 1) = high * unit ∧
        2 ^ 52 ≤ n ∧ low < n ∧ n < high ∧ high ≤ low + 2 ^ 11 ∧
        (roundNat n = floorNat n ∨ roundNat n = floorNat n + 1) := by
  obtain ⟨here, next⟩ := weight_floorNat n positive
  by_cases small : n.log2 ≤ 52
  · left
    rw [roundNat_small n positive small, here, (significand_exact n small).2]
  · have large : 52 ≤ n.log2 := by omega
    have least : 2 ^ 52 ≤ n :=
      (Nat.pow_le_pow_right (by decide) large).trans (Nat.log2_self_le positive)
    have top : n.log2 ≤ 63 := by
      by_contra beyond
      have := Nat.log2_self_le positive
      have : 2 ^ 64 ≤ 2 ^ n.log2 := Nat.pow_le_pow_right (by decide) (by omega)
      omega
    obtain ⟨shift, split⟩ : ∃ shift, n.log2 = shift + 52 := ⟨n.log2 - 52, by omega⟩
    have scale : 2 ^ (n.log2 + 1022) = 2 ^ shift * unit := by
      rw [unit, ← pow_add, show n.log2 + 1022 = shift + 1074 by omega]
    have value := significand_large n large
    rw [show n.log2 - 52 = shift by omega] at value
    have division := Nat.div_add_mod n (2 ^ shift)
    have gap : 2 ^ shift ≤ 2 ^ 11 := Nat.pow_le_pow_right (by decide) (by omega)
    have remainder : n % 2 ^ shift < 2 ^ shift := Nat.mod_lt _ (Nat.pow_pos (by decide))
    rw [scale, ← Nat.mul_assoc, value] at here next
    rw [Nat.mul_comm] at division
    by_cases exact : n % 2 ^ shift = 0
    · left
      rcases roundNat_large n positive (by omega) with kept | ⟨_, inexact⟩
      · rw [kept, here, show n / 2 ^ shift * 2 ^ shift = n by omega]
      · rw [show n.log2 - 52 = shift by omega] at inexact
        exact absurd exact inexact
    · right
      refine ⟨_, _, here, next, least, by omega, ?_, ?_, ?_⟩
      · rw [Nat.add_mul]; omega
      · rw [Nat.add_mul]; omega
      · exact (roundNat_large n positive (by omega)).imp_right And.left

theorem floorNat_bounds (n : Nat) (positive : n ≠ 0) (bound : n ≤ 2 ^ 63) :
    1 ≤ floorNat n ∧ floorNat n + 1 < 2047 * 2 ^ 52 := by
  obtain ⟨low, high⟩ := significand_bounds n positive
  have top : n.log2 < 64 := (Nat.log2_lt positive).mpr (by omega)
  unfold floorNat
  omega

theorem roundNat_lt (n : Nat) (bound : n ≤ 2 ^ 63) : roundNat n < 2047 * 2 ^ 52 := by
  by_cases zero : n = 0
  · subst zero
    decide
  · obtain ⟨_, high⟩ := floorNat_bounds n zero bound
    by_cases small : n.log2 ≤ 52
    · rw [roundNat_small n zero small]
      omega
    · rcases roundNat_large n zero (by omega) with kept | ⟨up, _⟩ <;> omega

section Cast

variable {i : Int} (bound : i.natAbs ≤ 2 ^ 63)
include bound

theorem magnitude_ofInt : (ofInt i).magnitude = roundNat i.natAbs := by
  have range := roundNat_lt _ bound
  have parts := ofParts (decide (i < 0)) (roundNat i.natAbs) (by omega)
  simpa [ofInt] using parts.1

theorem sign_ofInt : (ofInt i).sign = decide (i < 0) := by
  have range := roundNat_lt _ bound
  have parts := ofParts (decide (i < 0)) (roundNat i.natAbs) (by omega)
  simpa [ofInt] using parts.2

theorem isNaN_ofInt : (ofInt i).isNaN = false := by
  have range := roundNat_lt _ bound
  simp only [isNaN, magnitude_ofInt bound, decide_eq_false_iff_not]
  omega

theorem scaled_ofInt : (ofInt i).scaled =
    if i < 0 then -(weight (roundNat i.natAbs) : Int) else weight (roundNat i.natAbs) := by
  simp [scaled, magnitude_ofInt bound, sign_ofInt bound]

end Cast

theorem unit_pos : 0 < (unit : Int) := by
  unfold unit
  positivity

/-- Integral doubles truncate to the integer they are. -/
theorem truncate_integral {f : Binary64} {k : Int} (number : f.isNaN = false)
    (value : f.scaled = k * unit) : f.truncate = k := by
  rw [truncate, number, if_neg Bool.false_ne_true, value]
  exact Int.mul_tdiv_cancel k unit_pos.ne'

/-- No double lies strictly between two neighbouring patterns. -/
theorem scaled_le_weight {f : Binary64} {pattern : Nat}
    (below : f.scaled < weight (pattern + 1)) : f.scaled ≤ weight pattern := by
  by_cases negative : f.sign = true
  · simp only [scaled, negative, if_true]
    omega
  · rw [scaled, if_neg negative] at below ⊢
    have index : f.magnitude < pattern + 1 :=
      weight_strictMono.lt_iff_lt.mp (by exact_mod_cast below)
    exact_mod_cast weight_strictMono.monotone (Nat.lt_succ_iff.mp index)

theorem scaled_le_neg_weight {f : Binary64} {pattern : Nat}
    (below : f.scaled < -(weight pattern : Int)) : f.scaled ≤ -(weight (pattern + 1) : Int) := by
  by_cases negative : f.sign = true
  · simp only [scaled, negative, if_true] at below ⊢
    have index : pattern < f.magnitude := weight_strictMono.lt_iff_lt.mp (by omega)
    have monotone : weight (pattern + 1) ≤ weight f.magnitude :=
      weight_strictMono.monotone index
    omega
  · rw [scaled, if_neg negative] at below
    omega

theorem weight_lt_power (pattern : Nat) : weight pattern < 2 ^ 53 * 2 ^ (pattern / 2 ^ 52 - 1) := by
  have fraction : pattern % 2 ^ 52 < 2 ^ 52 := Nat.mod_lt _ (by decide)
  unfold weight
  split
  · rename_i subnormal
    rw [subnormal]
    omega
  · exact Nat.mul_lt_mul_of_pos_right (by omega) (Nat.pow_pos (by decide))

/-- From `2^52` on every double is an integer. -/
theorem unit_dvd_weight {pattern : Nat} (large : 2 ^ 52 * unit ≤ weight pattern) :
    unit ∣ weight pattern := by
  have high := Nat.lt_of_le_of_lt large (weight_lt_power pattern)
  have exponent : 1074 ≤ pattern / 2 ^ 52 - 1 := by
    by_contra small
    have index : pattern / 2 ^ 52 - 1 ≤ 1073 := by omega
    have double : 2 ^ 52 * unit = 2 ^ 53 * 2 ^ 1073 := by
      rw [unit, ← pow_add, ← pow_add]
    have power : 2 ^ (pattern / 2 ^ 52 - 1) ≤ 2 ^ 1073 :=
      Nat.pow_le_pow_right Nat.two_pos index
    have scaledPower := Nat.mul_le_mul_left (2 ^ 53) power
    rw [double] at high
    exact absurd high (Nat.not_lt.mpr scaledPower)
  have normal : pattern / 2 ^ 52 ≠ 0 := by omega
  rw [weight, if_neg normal]
  exact Dvd.dvd.mul_left (pow_dvd_pow 2 exponent) _

theorem partialCmp_of_number {f g : Binary64} (left : f.isNaN = false) (right : g.isNaN = false) :
    f.partialCmp g = some (compare f.scaled g.scaled) := by
  simp [partialCmp, left, right]

theorem lt_iff {f g : Binary64} (left : f.isNaN = false) (right : g.isNaN = false) :
    f.lt g = true ↔ f.scaled < g.scaled := by
  simp [lt, partialCmp_of_number left right, compare_lt_iff_lt]

theorem le_iff {f g : Binary64} (left : f.isNaN = false) (right : g.isNaN = false) :
    f.le g = true ↔ f.scaled ≤ g.scaled := by
  simp only [le, partialCmp_of_number left right, Bool.or_eq_true, beq_iff_eq,
    Option.some.injEq, compare_lt_iff_lt, compare_eq_iff_eq]
  omega

theorem natAbs_scaled (f : Binary64) : f.scaled.natAbs = weight f.magnitude := by
  unfold scaled
  split <;> simp

theorem natAbs_truncate {f : Binary64} (number : f.isNaN = false) :
    f.truncate.natAbs = weight f.magnitude / unit := by
  have value : f.truncate = f.scaled.tdiv unit := by
    rw [truncate, number, if_neg Bool.false_ne_true]
  rw [value, Int.natAbs_tdiv, natAbs_scaled]
  rfl

/-- Truncation leaves less than one unit. -/
theorem truncate_bounds {f : Binary64} (number : f.isNaN = false) :
    (f.truncate - 1) * unit < f.scaled ∧ f.scaled < (f.truncate + 1) * unit := by
  have division := Int.mul_tdiv_add_tmod f.scaled unit
  have value : f.truncate = f.scaled.tdiv unit := by
    rw [truncate, number, if_neg Bool.false_ne_true]
  have above := Int.tmod_lt_of_pos f.scaled unit_pos
  have below := Int.lt_tmod_of_pos f.scaled unit_pos
  rw [← value] at division
  constructor
  · rw [Int.sub_mul, Int.mul_comm]; omega
  · rw [Int.add_mul, Int.mul_comm]; omega

/-- A cast that rounds leaves no double equal to the integer. -/
theorem scaled_ofInt_of_represented {i : Int} {f : Binary64} (bound : i.natAbs ≤ 2 ^ 63)
    (represented : weight f.magnitude = i.natAbs * unit) :
    (ofInt i).scaled = i * unit := by
  have exact : weight (roundNat i.natAbs) = i.natAbs * unit := by
    by_cases zero : i.natAbs = 0
    · rw [zero]
      simp [roundNat]
    · rcases roundNat_enclosed _ zero bound with exact | ⟨low, high, here, next, _, below, above, _⟩
      · exact exact
      · have index : floorNat i.natAbs < f.magnitude := by
          apply weight_strictMono.lt_iff_lt.mp
          rw [here, represented]
          exact Nat.mul_lt_mul_of_pos_right below (by exact_mod_cast unit_pos)
        have index' : f.magnitude < floorNat i.natAbs + 1 := by
          apply weight_strictMono.lt_iff_lt.mp
          rw [next, represented]
          exact Nat.mul_lt_mul_of_pos_right above (by exact_mod_cast unit_pos)
        omega
  rw [scaled_ofInt bound, exact]
  split
  · rename_i negative
    rw [Nat.cast_mul, ← Int.neg_mul]
    congr 1
    omega
  · rename_i nonnegative
    rw [Nat.cast_mul]
    congr 1
    omega

attribute [irreducible] unit

end Binary64

end RustSql.Foundation
