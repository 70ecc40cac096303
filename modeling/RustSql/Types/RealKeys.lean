import RustSql.Types.NumberParse

/-! The integers that doubles and numeric texts stand for. -/

namespace RustSql.Types

open RustSql.Foundation

section RealToI64

variable {f : Binary64} (number : f.isNaN = false)

include number

theorem lt_aboveNegTwoPow63 :
    f.lt aboveNegTwoPow63 = true ↔ f.scaled ≤ -2 ^ 63 * (Binary64.unit : Int) := by
  have next : (Binary64.weight (0x43DFFFFFFFFFFFFF + 1) : Int) = 2 ^ 63 * Binary64.unit := by
    decide +kernel
  have edge : -2 ^ 63 * (Binary64.unit : Int) < aboveNegTwoPow63.scaled := by decide +kernel
  rw [Binary64.lt_iff number (by decide)]
  constructor
  · intro below
    have least : f.scaled ≤ -(Binary64.weight (0x43DFFFFFFFFFFFFF + 1) : Int) :=
      Binary64.scaled_le_neg_weight below
    rwa [next, ← Int.neg_mul] at least
  · exact fun least => lt_of_le_of_lt least edge

theorem belowTwoPow63_lt :
    belowTwoPow63.lt f = true ↔ 2 ^ 63 * (Binary64.unit : Int) ≤ f.scaled := by
  have next : (Binary64.weight (0x43DFFFFFFFFFFFFF + 1) : Int) = 2 ^ 63 * Binary64.unit := by
    decide +kernel
  have edge : belowTwoPow63.scaled < 2 ^ 63 * (Binary64.unit : Int) := by decide +kernel
  rw [Binary64.lt_iff (by decide) number]
  constructor
  · intro above
    by_contra small
    have less : f.scaled ≤ (Binary64.weight 0x43DFFFFFFFFFFFFF : Int) := by
      apply Binary64.scaled_le_weight
      rw [next]
      exact Int.not_le.mp small
    exact absurd above (Int.not_lt.mpr less)
  · exact fun most => lt_of_lt_of_le edge most

/-- `sqlite3RealToI64` clamps what lies outside, and truncates what lies inside. -/
theorem realToI64_spec :
    (f.scaled ≤ -2 ^ 63 * (Binary64.unit : Int) ∧ realToI64 f = Int64.minValue) ∨
      (2 ^ 63 * (Binary64.unit : Int) ≤ f.scaled ∧ realToI64 f = Int64.maxValue) ∨
      (-2 ^ 63 * (Binary64.unit : Int) < f.scaled ∧ f.scaled < 2 ^ 63 * (Binary64.unit : Int) ∧
        (realToI64 f).toInt = f.truncate) := by
  by_cases below : f.scaled ≤ -2 ^ 63 * (Binary64.unit : Int)
  · exact Or.inl ⟨below, by rw [realToI64, if_pos ((lt_aboveNegTwoPow63 number).mpr below)]⟩
  · have notBelow := mt (lt_aboveNegTwoPow63 number).mp below
    by_cases above : 2 ^ 63 * (Binary64.unit : Int) ≤ f.scaled
    · refine Or.inr (Or.inl ⟨above, ?_⟩)
      rw [realToI64, if_neg notBelow, if_pos ((belowTwoPow63_lt number).mpr above)]
    · have notAbove := mt (belowTwoPow63_lt number).mp above
      have low := Int.not_le.mp below
      have high := Int.not_le.mp above
      refine Or.inr (Or.inr ⟨low, high, ?_⟩)
      have cast := asI64_of_range number low.le high
      rw [realToI64, if_neg notBelow, if_neg notAbove, cast]
      refine Int64.toInt_ofInt_of_le ?_ ?_
      · rw [← cast, asI64, Binary64.toIntSat]
        exact le_max_left _ _
      · rw [← cast, asI64, Binary64.toIntSat]
        omega

/-- Only a double of an integer's value becomes this integer. -/
theorem realToI64_exact {k : Int64} (value : f.scaled = exact k) : realToI64 f = k := by
  obtain ⟨low, high⟩ := exact_bounds k
  have unit := Binary64.unit_pos
  rcases realToI64_spec number with ⟨below, same⟩ | ⟨above, -⟩ | ⟨-, -, same⟩
  · rw [same, ← Int64.toInt_inj]
    rw [value, exact] at below
    have most := Int.le_of_mul_le_mul_right below unit
    have least := k.le_toInt
    exact Int.le_antisymm least most
  · rw [value] at above
    exact absurd high (Int.not_lt.mpr above)
  · rw [← Int64.toInt_inj, same]
    exact Binary64.truncate_integral number value

/-- The comparison with the clamped integer finds the doubles that are integers. -/
theorem intFloatCompare_realToI64 {k : Int64} :
    intFloatCompare (realToI64 f) f = .eq ∧ realToI64 f = k ↔ f.scaled = exact k := by
  rw [intFloatCompare_eq _ number, compare_eq_iff_eq]
  constructor
  · rintro ⟨same, rfl⟩
    exact same.symm
  · intro value
    rw [realToI64_exact number value]
    exact ⟨value.symm, rfl⟩

/-- A double that is the cast of its integer has the integer's value. -/
theorem exact_of_sameNumber (low : Int64.minValue < realToI64 f) (high : realToI64 f < Int64.maxValue)
    (same : sameNumber f (asF64 (realToI64 f)) = true) : f.scaled = exact (realToI64 f) := by
  rcases realToI64_spec number with ⟨-, least⟩ | ⟨-, most⟩ | ⟨-, -, truncated⟩
  · rw [least] at low
    exact absurd low (by decide)
  · rw [most] at high
    exact absurd high (by decide)
  · have plain : (asF64 (realToI64 f)).isNaN = false := Binary64.isNaN_ofInt (natAbs_le _)
    rw [sameNumber, Binary64.partialCmp_of_number number plain, beq_iff_eq, Option.some.injEq,
      compare_eq_iff_eq, scaled_asF64_of_truncate number truncated] at same
    exact same

end RealToI64

theorem sameNumber_number {f g : Binary64} (same : sameNumber f g = true) :
    f.isNaN = false ∧ g.isNaN = false ∧ f.scaled = g.scaled := by
  rw [sameNumber, beq_iff_eq, Binary64.partialCmp] at same
  split_ifs at same with unordered
  rw [Bool.not_eq_true, Bool.or_eq_false_iff] at unordered
  exact ⟨unordered.1, unordered.2, compare_eq_iff_eq.mp (Option.some.inj same)⟩

/-- A small integer is a double. -/
theorem scaled_asF64_small {i : Int64} (small : i.toInt.natAbs < 2 ^ 53) :
    (asF64 i).scaled = exact i := by
  have represented : Binary64.weight (asF64 i).magnitude = i.toInt.natAbs * Binary64.unit := by
    rw [asF64, Binary64.magnitude_ofInt (natAbs_le i), weight_roundNat small]
  exact Binary64.scaled_ofInt_of_represented (natAbs_le i) represented

/-- What `sqlite3RealSameAsInt` accepts. -/
theorem exact_of_realSameAsInt {r : Binary64} (same : realSameAsInt r (realToI64 r) = true) :
    r.isNaN = false ∧ r.scaled = exact (realToI64 r) ∧ (realToI64 r).toInt.natAbs < 2 ^ 53 := by
  rw [realSameAsInt, Bool.or_eq_true] at same
  rcases same with zero | both
  · obtain ⟨number, -, value⟩ := sameNumber_number zero
    have nothing : r.scaled = exact 0 := value.trans (Int.zero_mul _).symm
    have key := realToI64_exact number nothing
    rw [key]
    exact ⟨number, nothing, by decide⟩
  · simp only [Bool.and_eq_true, beq_iff_eq, decide_eq_true_eq] at both
    obtain ⟨bits, low, high⟩ := both
    have small : (realToI64 r).toInt.natAbs < 2 ^ 53 := by omega
    have cast : r = asF64 (realToI64 r) := by
      cases r
      exact congrArg Binary64.mk bits
    have number : r.isNaN = false := by
      rw [cast]
      exact Binary64.isNaN_ofInt (natAbs_le _)
    refine ⟨number, ?_, small⟩
    have value := scaled_asF64_small small
    rwa [← cast] at value

theorem applyNumericAffinity_eq (z : List UInt8) : applyNumericAffinity z =
    if (atof z).2 ≤ 0 then none
    else if (atof z).2 = 1 then
      if realSameAsInt (atof z).1 (realToI64 (atof z).1) then
        some (.integer (realToI64 (atof z).1))
      else if (atoi64 z).2 = 0 then some (.integer (atoi64 z).1)
      else some (integerAffinity (atof z).1)
    else some (integerAffinity (atof z).1) := rfl

/-- The value of a text that looks like a number is that of `atof`, or the integer of `atoi64`. -/
theorem applyNumericAffinity_value {z : List UInt8} (number : 0 < (atof z).2) :
    (∃ i, applyNumericAffinity z = some (.integer i) ∧
      (atoi64 z = (i, 0) ∨ (atof z).1.isNaN = false ∧ (atof z).1.scaled = exact i)) ∨
      applyNumericAffinity z = some (.real (atof z).1) := by
  have affinity : (∃ i, integerAffinity (atof z).1 = .integer i ∧ (atof z).1.isNaN = false ∧
      (atof z).1.scaled = exact i) ∨ integerAffinity (atof z).1 = .real (atof z).1 := by
    rw [integerAffinity]
    split_ifs with fits
    · obtain ⟨plain, -, -⟩ := sameNumber_number fits.1
      exact Or.inl ⟨_, rfl, plain, exact_of_sameNumber plain fits.2.1 fits.2.2 fits.1⟩
    · exact Or.inr rfl
  have conclude (same : applyNumericAffinity z = some (integerAffinity (atof z).1)) :
      (∃ i, applyNumericAffinity z = some (.integer i) ∧
        (atoi64 z = (i, 0) ∨ (atof z).1.isNaN = false ∧ (atof z).1.scaled = exact i)) ∨
        applyNumericAffinity z = some (.real (atof z).1) := by
    rcases affinity with ⟨i, integer, value⟩ | real
    · exact Or.inl ⟨i, same.trans (congrArg some integer), Or.inr value⟩
    · exact Or.inr (same.trans (congrArg some real))
  have unfolded := applyNumericAffinity_eq z
  rw [if_neg (Int.not_le.mpr number)] at unfolded
  split_ifs at unfolded with whole same integer
  · obtain ⟨plain, value, -⟩ := exact_of_realSameAsInt same
    exact Or.inl ⟨_, unfolded, Or.inr ⟨plain, value⟩⟩
  · exact Or.inl ⟨_, unfolded, Or.inl (Prod.ext rfl integer)⟩
  · exact conclude unfolded
  · exact conclude unfolded

theorem applyNumericAffinity_none {z : List UInt8} (other : (atof z).2 ≤ 0) :
    applyNumericAffinity z = none := by
  rw [applyNumericAffinity_eq, if_pos other]

theorem roundFraction_le (num den : Nat) : roundFraction num den ≤ 2047 * 2 ^ 52 := by
  rw [roundFraction]
  dsimp only
  split_ifs with infinite
  · exact Nat.le_refl _
  · exact Nat.le_of_not_le infinite
  · exact Nat.lt_of_not_le infinite

/-- A small integer that `atof` reads is the one in the text. -/
theorem signed_of_atof {s : Nat} {neg : Bool} {k : Int64} (bound : s ≤ 2 ^ 63)
    (small : k.toInt.natAbs < 2 ^ 53)
    (value : (⟨UInt64.ofNat ((if neg then 2 ^ 63 else 0) +
      if s = 0 then 0 else parseDecimal s 0)⟩ : Binary64).scaled = exact k) :
    k.toInt = signed neg s := by
  have positive := Binary64.unit_pos
  have plain : parseDecimal s 0 = roundFraction s 1 := by
    rw [parseDecimal, if_pos (Int.le_refl 0), Int.toNat_zero, Nat.pow_zero, Nat.mul_one]
  rw [plain] at value
  have range : (if s = 0 then 0 else roundFraction s 1) < 2 ^ 63 := by
    split_ifs
    · decide
    · exact Nat.lt_of_le_of_lt (roundFraction_le s 1) (by decide)
  obtain ⟨magnitude, sign⟩ := Binary64.ofParts neg _ range
  have size := congrArg Int.natAbs value
  rw [Binary64.natAbs_scaled, magnitude, exact, Int.natAbs_mul, Int.natAbs_natCast] at size
  have same : s = k.toInt.natAbs := by
    split_ifs at size with zero
    · rw [Binary64.weight_zero] at size
      rw [zero]
      exact ((Nat.mul_eq_zero.mp size.symm).resolve_right (by omega)).symm
    · exact roundFraction_small (Nat.lt_of_le_of_lt bound (by decide)) small size
  rw [Binary64.scaled, sign, magnitude, exact] at value
  rw [signed, same]
  cases neg with
  | true =>
    rw [if_pos rfl] at value ⊢
    have nonpositive : k.toInt * (Binary64.unit : Int) ≤ 0 * Binary64.unit := by omega
    have least := Int.le_of_mul_le_mul_right nonpositive positive
    omega
  | false =>
    rw [if_neg Bool.false_ne_true] at value ⊢
    have nonnegative : 0 * (Binary64.unit : Int) ≤ k.toInt * Binary64.unit := by omega
    have most := Int.le_of_mul_le_mul_right nonnegative positive
    omega

/-- A text that is an integer for the standard library and a number for `atof` is the integer
for both. -/
theorem applyNumericAffinity_parsed {t : List UInt8} {i : Int64}
    (parsed : parseI64 (trim (asStr t)) = some i) (number : 0 < (atof t).2) :
    applyNumericAffinity t = some (.integer i) := by
  obtain ⟨spaces, after, literal, digits, neg, split, front, behind, scanned, some_, all, small,
    value, code, read⟩ := atof_parsed parsed number
  have whole := atoi64_spaced front behind scanned some_ all value
  rw [← split] at whole
  rw [applyNumericAffinity_eq, if_neg (Int.not_le.mpr number), if_pos code]
  split_ifs with same integer
  · obtain ⟨-, exact_, little⟩ := exact_of_realSameAsInt same
    have key : (realToI64 (atof t).1).toInt = i.toInt := by
      rw [value]
      refine signed_of_atof small little ?_
      rw [← read]
      exact exact_
    rw [Int64.toInt_inj.mp key]
  · rw [whole]
  · exact absurd (congrArg Prod.snd whole) integer

end RustSql.Types
