import RustSql.Executor.OrderKeyDecode
import RustSql.Foundation.Checked
import RustSql.Types.RealKeys

/-! Rowid seeks: the rowids that compare with an operand as a condition says. -/

namespace RustSql.Executor

open RustSql.Foundation RustSql.Types

/-- `apply_operand_affinity`, for any rendering of doubles as texts. -/
def applyOperandAffinity (formatReal : Binary64 → List UInt8) : Affinity → Value → Value
  | .text, .integer i => .text (decimalText i)
  | .text, .real f => .text (formatReal f)
  | .text, v => v
  | .integer, v | .real, v | .numeric, v => Affinity.numeric.coerce formatReal v
  | _, v => v

def realIntKey (r : Binary64) : Option Int64 :=
  let ix := realToI64 r
  if sameNumber (asF64 ix) r ∧ Int64.minValue < ix ∧ ix < Int64.maxValue then some ix else none

def textIntKey (text : List UInt8) : Option Int64 :=
  match applyNumericAffinity text with
  | some (.integer i) => some i
  | _ => none

def rowidSeekValue : Value → Option Int64
  | .integer i => some i
  | .null => none
  | .real f => realIntKey f
  | .text t => textIntKey t
  | .blob _ => none

/-- The least rowid for the double that the seek conversion rejects. -/
def leastKey (f : Binary64) : Option Int64 :=
  if sameNumber f negTwoPow63 then some Int64.minValue else none

def leastRowid : Value → Option Int64
  | .real f => leastKey f
  | .text t => if 0 < (atof t).2 then leastKey (atof t).1 else none
  | _ => none

def numericRowidKey (v : Value) : Option Int64 := (rowidSeekValue v).or (leastRowid v)

inductive RowidRangeBound where
  | val (i : Int64)
  | unbounded
  | never
deriving DecidableEq, Repr

def unboundedSide (lower : Bool) : RowidRangeBound := if lower then .never else .unbounded

/-- An addition of `i64`s. -/
def addI64 (a : Int64) (b : Int) : Checked Empty Int64 :=
  if -2 ^ 63 ≤ a.toInt + b ∧ a.toInt + b < 2 ^ 63 then .ok (Int64.ofInt (a.toInt + b))
  else .error .overflow

/-- The bound of a `REAL`. -/
def rowidRangeBoundReal (f : Binary64) (lower : Bool) : Checked Empty RowidRangeBound :=
  if f.isNaN then .ok .never
  else
    let iKey := realToI64 f
    let c := intFloatCompare iKey f
    if lower then
      match c with
      | .gt | .eq => .ok (.val iKey)
      | .lt => if iKey = Int64.maxValue then .ok .never else .val <$> addI64 iKey 1
    else
      match c with
      | .lt | .eq => .ok (.val iKey)
      | .gt => if iKey = Int64.minValue then .ok .never else .val <$> addI64 iKey (-1)

def rowidRangeBound (formatReal : Binary64 → List UInt8) (v : Value) (lower : Bool) :
    Checked Empty RowidRangeBound :=
  match v with
  | .integer i => .ok (.val i)
  | .null => .ok .never
  | .real f => rowidRangeBoundReal f lower
  | .text _ =>
    match applyOperandAffinity formatReal .integer v with
    | .integer i => .ok (.val i)
    | .real f => rowidRangeBoundReal f lower
    | _ => .ok (unboundedSide lower)
  | .blob _ => .ok (unboundedSide lower)

/-- One side of a range; without an operand it is open. -/
def rangeSide (formatReal : Binary64 → List UInt8) (lower : Bool) :
    Option Value → Checked Empty RowidRangeBound
  | some v => rowidRangeBound formatReal v lower
  | none => .ok .unbounded

/-- The rowid of a bound, or the end of the open side. -/
def RowidRangeBound.key (bound : RowidRangeBound) (far : Int64) : Int64 :=
  match bound with
  | .val i => i
  | _ => far

def rowidRangeBounds (formatReal : Binary64 → List UInt8) (start stop : Option Value) :
    Checked Empty (Option (Int64 × Int64)) := do
  let lo ← rangeSide formatReal true start
  if lo = .never then .ok none
  else do
    let hi ← rangeSide formatReal false stop
    if hi = .never then .ok none
    else
      let lo := lo.key Int64.minValue
      let hi := hi.key Int64.maxValue
      if hi < lo then .ok none else .ok (some (lo, hi))

/-- The integer that a finite double lands on. -/
def landing (f : Binary64) : Option Int64 :=
  if isFinite f ∧ intFloatCompare (realToI64 f) f = .eq then some (realToI64 f) else none

def rowidStrictBoundary : Value → Option Int64
  | .integer i => some i
  | .real f => landing f
  | .text t =>
    let trimmed := trim (asStr t)
    match parseI64 trimmed with
    | some i => some i
    | none =>
      match parseF64 trimmed with
      | some f => landing f
      | none => none
  | _ => none

section Comparisons

variable (r : Int64) (v : Value)

/-- `r >= v` is true. -/
def RowidGe : Prop := v.isNull = false ∧ v.isNaN = false ∧ ((Value.integer r).cmp v).isGE = true

/-- `r <= v` is true. -/
def RowidLe : Prop := v.isNull = false ∧ v.isNaN = false ∧ ((Value.integer r).cmp v).isLE = true

/-- `r = v` is true. -/
def RowidEq : Prop := v.isNull = false ∧ v.isNaN = false ∧ (Value.integer r).cmp v = .eq

end Comparisons

/-- A value that is a number, in the units doubles are counted in. -/
inductive Number : Value → Int → Prop
  | integer (i : Int64) : Number (.integer i) (exact i)
  | real {f : Binary64} (number : f.isNaN = false) : Number (.real f) f.scaled

section Numbers

variable {r : Int64} {v : Value} {x : Int}

theorem exact_le {a b : Int64} : exact a ≤ exact b ↔ a.toInt ≤ b.toInt :=
  ⟨fun le => Int.le_of_mul_le_mul_right le Binary64.unit_pos,
    fun le => Int.mul_le_mul_of_nonneg_right le Binary64.unit_pos.le⟩

theorem exact_inj {a b : Int64} : exact a = exact b ↔ a = b := by
  rw [← Int64.toInt_inj]
  constructor
  · intro same
    exact Int.le_antisymm (exact_le.mp same.le) (exact_le.mp same.ge)
  · intro same
    rw [exact, exact, same]

theorem Number.cmp_eq (number : Number v x) :
    v.isNull = false ∧ v.isNaN = false ∧ (Value.integer r).cmp v = compare (exact r) x := by
  cases number with
  | integer i =>
    refine ⟨rfl, rfl, ?_⟩
    rw [Value.cmp]
    rcases lt_trichotomy r.toInt i.toInt with less | same | more
    · rw [compare_lt_iff_lt.mpr less, compare_lt_iff_lt.mpr]
      exact Int.mul_lt_mul_of_pos_right less Binary64.unit_pos
    · rw [compare_eq_iff_eq.mpr same, compare_eq_iff_eq.mpr (by rw [exact, exact, same])]
    · rw [compare_gt_iff_gt.mpr more, compare_gt_iff_gt.mpr]
      exact Int.mul_lt_mul_of_pos_right more Binary64.unit_pos
  | @real f plain =>
    refine ⟨rfl, plain, ?_⟩
    rw [Value.cmp, numClass_real plain, ← intFloatCompare_eq r plain]
    rfl

theorem Number.ge_iff (number : Number v x) : RowidGe r v ↔ x ≤ exact r := by
  obtain ⟨present, plain, order⟩ := @Number.cmp_eq r v x number
  rw [RowidGe, present, plain, order]
  simp only [true_and]
  exact Int.isGE_compare

theorem Number.le_iff (number : Number v x) : RowidLe r v ↔ exact r ≤ x := by
  obtain ⟨present, plain, order⟩ := @Number.cmp_eq r v x number
  rw [RowidLe, present, plain, order]
  simp only [true_and]
  exact Int.isLE_compare

theorem Number.eq_iff (number : Number v x) : RowidEq r v ↔ x = exact r := by
  obtain ⟨present, plain, order⟩ := @Number.cmp_eq r v x number
  rw [RowidEq, present, plain, order, compare_eq_iff_eq]
  simp only [true_and]
  exact eq_comm

end Numbers

/-- A rowid is on the inner side of a lower bound. -/
def RowidRangeBound.Above : RowidRangeBound → Int64 → Prop
  | .val i, r => i.toInt ≤ r.toInt
  | .unbounded, _ => True
  | .never, _ => False

/-- A rowid is on the inner side of an upper bound. -/
def RowidRangeBound.Below : RowidRangeBound → Int64 → Prop
  | .val i, r => r.toInt ≤ i.toInt
  | .unbounded, _ => True
  | .never, _ => False

section Bounds

variable {f : Binary64} {r : Int64} {x n : Int}

/-- The integers from a number on are those from its ceiling on. -/
theorem le_exact_iff (low : (n - 1) * Binary64.unit < x) (high : x ≤ n * Binary64.unit) :
    x ≤ exact r ↔ n ≤ r.toInt := by
  have positive := Binary64.unit_pos
  constructor
  · intro le
    have above := Int.lt_of_mul_lt_mul_right (lt_of_lt_of_le low le) positive.le
    omega
  · exact fun le => high.trans (Int.mul_le_mul_of_nonneg_right le positive.le)

/-- The integers up to a number are those up to its floor. -/
theorem exact_le_iff (low : n * Binary64.unit ≤ x) (high : x < (n + 1) * Binary64.unit) :
    exact r ≤ x ↔ r.toInt ≤ n := by
  have positive := Binary64.unit_pos
  constructor
  · intro le
    have below := Int.lt_of_mul_lt_mul_right (lt_of_le_of_lt le high) positive.le
    omega
  · exact fun le => (Int.mul_le_mul_of_nonneg_right le positive.le).trans low

theorem addI64_ok {a : Int64} {b : Int} (low : -2 ^ 63 ≤ a.toInt + b) (high : a.toInt + b < 2 ^ 63) :
    ∃ c, addI64 a b = .ok c ∧ c.toInt = a.toInt + b :=
  ⟨_, if_pos ⟨low, high⟩, Int64.toInt_ofInt_of_le low high⟩

theorem lt_max {a : Int64} (differ : a ≠ Int64.maxValue) : a.toInt + 1 < 2 ^ 63 := by
  have bound := a.toInt_lt
  have top : Int64.maxValue.toInt = 2 ^ 63 - 1 := by decide
  have other : a.toInt ≠ Int64.maxValue.toInt := fun same => differ (Int64.toInt_inj.mp same)
  omega

theorem min_lt {a : Int64} (differ : a ≠ Int64.minValue) : -2 ^ 63 ≤ a.toInt + -1 := by
  have bound := a.le_toInt
  have bottom : Int64.minValue.toInt = -2 ^ 63 := by decide
  have other : a.toInt ≠ Int64.minValue.toInt := fun same => differ (Int64.toInt_inj.mp same)
  omega

variable (number : f.isNaN = false)

include number

/-- The lower bound of a double takes the rowids from it on. -/
theorem rowidRangeBoundReal_lower : ∃ b, rowidRangeBoundReal f true = .ok b ∧
    ∀ r, b.Above r ↔ f.scaled ≤ exact r := by
  rw [rowidRangeBoundReal, number]
  simp only [Bool.false_eq_true, if_false, if_true]
  rw [intFloatCompare_eq _ number]
  rcases realToI64_spec number with ⟨below, least⟩ | ⟨above, most⟩ | ⟨low, high, truncated⟩
  · have all (r : Int64) : f.scaled ≤ exact r := below.trans (exact_bounds r).1
    have kept : compare (exact (realToI64 f)) f.scaled ≠ .lt := by
      rw [ne_eq, compare_lt_iff_lt]
      exact Int.not_lt.mpr (all _)
    refine ⟨.val (realToI64 f), ?_, fun r => iff_of_true ?_ (all r)⟩
    · cases order : compare (exact (realToI64 f)) f.scaled with
      | lt => exact absurd order kept
      | eq => rfl
      | gt => rfl
    · rw [least]
      exact r.le_toInt
  · have less : compare (exact (realToI64 f)) f.scaled = .lt :=
      compare_lt_iff_lt.mpr (lt_of_lt_of_le (exact_bounds _).2 above)
    rw [less, most]
    refine ⟨.never, rfl, fun r => iff_of_false not_false ?_⟩
    exact Int.not_le.mpr (lt_of_lt_of_le (exact_bounds r).2 above)
  · obtain ⟨under, over_⟩ := Binary64.truncate_bounds number
    rw [← truncated] at under over_
    rcases lt_trichotomy (exact (realToI64 f)) f.scaled with less | same | more
    · rw [compare_lt_iff_lt.mpr less]
      dsimp only
      split_ifs with top
      · refine ⟨.never, rfl, fun r => iff_of_false not_false ?_⟩
        rw [top] at less
        refine Int.not_le.mpr (lt_of_le_of_lt (exact_le.mpr ?_) less)
        exact Int.lt_add_one_iff.mp r.toInt_lt
      · obtain ⟨next, added, value⟩ := @addI64_ok (realToI64 f) 1
          (by have := (realToI64 f).le_toInt; omega) (lt_max top)
        refine ⟨.val next, by rw [added]; rfl, fun r => ?_⟩
        rw [RowidRangeBound.Above, value, le_exact_iff _ over_.le]
        rwa [Int.add_sub_cancel]
    · rw [compare_eq_iff_eq.mpr same]
      exact ⟨.val (realToI64 f), rfl, fun r => (le_exact_iff under same.ge).symm⟩
    · rw [compare_gt_iff_gt.mpr more]
      exact ⟨.val (realToI64 f), rfl, fun r => (le_exact_iff under more.le).symm⟩

/-- The upper bound of a double takes the rowids up to it. -/
theorem rowidRangeBoundReal_upper : ∃ b, rowidRangeBoundReal f false = .ok b ∧
    ∀ r, b.Below r ↔ exact r ≤ f.scaled := by
  rw [rowidRangeBoundReal, number]
  simp only [Bool.false_eq_true, if_false]
  rw [intFloatCompare_eq _ number]
  rcases realToI64_spec number with ⟨below, least⟩ | ⟨above, most⟩ | ⟨low, high, truncated⟩
  · rcases lt_or_eq_of_le below with less | same
    · have more : compare (exact (realToI64 f)) f.scaled = .gt :=
        compare_gt_iff_gt.mpr (lt_of_lt_of_le less (exact_bounds _).1)
      rw [more, least]
      refine ⟨.never, rfl, fun r => iff_of_false not_false ?_⟩
      exact Int.not_le.mpr (lt_of_lt_of_le less (exact_bounds r).1)
    · have bottom : exact (realToI64 f) = f.scaled := by rw [least, same]; rfl
      rw [compare_eq_iff_eq.mpr bottom]
      refine ⟨.val (realToI64 f), rfl, fun r => ?_⟩
      rw [← bottom, exact_le]
      exact Iff.rfl
  · have less : compare (exact (realToI64 f)) f.scaled = .lt :=
      compare_lt_iff_lt.mpr (lt_of_lt_of_le (exact_bounds _).2 above)
    rw [less]
    refine ⟨.val (realToI64 f), rfl, fun r => iff_of_true ?_ ?_⟩
    · rw [most]
      exact Int.lt_add_one_iff.mp r.toInt_lt
    · exact (lt_of_lt_of_le (exact_bounds r).2 above).le
  · obtain ⟨under, over_⟩ := Binary64.truncate_bounds number
    rw [← truncated] at under over_
    rcases lt_trichotomy (exact (realToI64 f)) f.scaled with less | same | more
    · rw [compare_lt_iff_lt.mpr less]
      exact ⟨.val (realToI64 f), rfl, fun r => (exact_le_iff less.le over_).symm⟩
    · rw [compare_eq_iff_eq.mpr same]
      exact ⟨.val (realToI64 f), rfl, fun r => (exact_le_iff same.le over_).symm⟩
    · rw [compare_gt_iff_gt.mpr more]
      dsimp only
      split_ifs with bottom
      · refine ⟨.never, rfl, fun r => iff_of_false not_false ?_⟩
        rw [bottom] at more
        exact Int.not_le.mpr (lt_of_lt_of_le more (exact_le.mpr r.le_toInt))
      · obtain ⟨next, added, value⟩ := @addI64_ok (realToI64 f) (-1) (min_lt bottom)
          (by have := (realToI64 f).toInt_lt; omega)
        refine ⟨.val next, by rw [added]; rfl, fun r => ?_⟩
        rw [RowidRangeBound.Below, value, exact_le_iff under.le]
        · exact Iff.rfl
        · rwa [Int.sub_add_cancel]

end Bounds

section Operands

variable {formatReal : Binary64 → List UInt8} {f : Binary64} {t : List UInt8}

theorem isNaN_atof (z : List UInt8) : (atof z).1.isNaN = false := by
  have parsed (s : Nat) (e : Int) : parseDecimal s e ≤ 2047 * 2 ^ 52 := by
    rw [parseDecimal]
    split_ifs <;> exact roundFraction_le _ _
  have plain (neg : Bool) (s : Nat) (e : Int) : (⟨UInt64.ofNat ((if neg then 2 ^ 63 else 0) +
      if s = 0 then 0 else parseDecimal s e)⟩ : Binary64).isNaN = false := by
    have bound : (if s = 0 then 0 else parseDecimal s e) ≤ 2047 * 2 ^ 52 := by
      split_ifs
      · exact Nat.zero_le _
      · exact parsed s e
    have small : (if s = 0 then 0 else parseDecimal s e) < 2 ^ 63 :=
      Nat.lt_of_le_of_lt bound (by decide)
    rw [Binary64.isNaN, (Binary64.ofParts neg _ small).1, decide_eq_false_iff_not]
    exact Nat.not_lt.mpr bound
  rw [atof]
  dsimp only
  split
  · rfl
  · exact plain _ _ _

/-- The operand a `REAL` becomes has its value. -/
theorem operand_real (number : f.isNaN = false) :
    Number (applyOperandAffinity formatReal .integer (.real f)) f.scaled := by
  change Number (numericRealAffinity f) f.scaled
  rw [numericRealAffinity]
  split_ifs with fits
  · obtain ⟨-, -, same, inside⟩ := fits
    obtain ⟨-, -, value⟩ := sameNumber_number same
    have positive : (realAbs f).magnitude = f.magnitude ∧ (realAbs f).sign = false := by
      simpa [realAbs] using Binary64.ofParts false f.magnitude f.magnitude_lt
    have size : (realAbs f).scaled = f.scaled.natAbs := by
      rw [Binary64.scaled, positive.2, positive.1, Binary64.natAbs_scaled]
      rfl
    have plain : (realAbs f).isNaN = false := by
      rw [Binary64.isNaN, positive.1]
      exact number
    rw [Binary64.lt_iff plain (by decide), scaled_twoPow63, size] at inside
    have cast := asI64_of_range number (by omega) (by omega)
    have truncated : (Int64.ofInt (asI64 f)).toInt = f.truncate := by
      rw [Int64.toInt_ofInt_of_le, cast]
      · rw [asI64, Binary64.toIntSat]
        exact le_max_left _ _
      · rw [asI64, Binary64.toIntSat]
        omega
    rw [value, scaled_asF64_of_truncate number truncated]
    exact .integer _
  · exact .real number

theorem operand_nan (nan : f.isNaN = true) :
    applyOperandAffinity formatReal .integer (.real f) = .real f := by
  change numericRealAffinity f = .real f
  rw [numericRealAffinity]
  refine if_neg fun fits => ?_
  obtain ⟨number, -⟩ := sameNumber_number fits.2.2.1
  rw [nan] at number
  cases number

theorem realStored_number (number : f.isNaN = false) :
    (realStored f).isNaN = false ∧ (realStored f).scaled = f.scaled := by
  rw [realStored]
  split_ifs with zero
  · exact ⟨rfl, (sameNumber_number zero).2.2.symm⟩
  · exact ⟨number, rfl⟩

/-- A text that looks like a number: an integer, or what `atof` reads and no integer is. -/
theorem operand_text (number : 0 < (atof t).2) :
    (∃ i, textIntKey t = some i ∧
      applyOperandAffinity formatReal .integer (.text t) = .integer i ∧
      (atoi64 t = (i, 0) ∨ (atof t).1.scaled = exact i)) ∨
    textIntKey t = none ∧ Unsqueezed (atof t).1 ∧
      applyOperandAffinity formatReal .integer (.text t) = .real (realStored (atof t).1) := by
  rcases applyNumericAffinity_value number with ⟨i, integer, value⟩ | real
  · refine Or.inl ⟨i, by rw [textIntKey, integer], ?_, value.imp_right And.right⟩
    change numericTextAffinity t = _
    rw [numericTextAffinity, integer]
  · refine Or.inr ⟨by rw [textIntKey, real], applyNumericAffinity_real real (isNaN_atof t), ?_⟩
    change numericTextAffinity t = _
    rw [numericTextAffinity, real]

theorem operand_other (other : (atof t).2 ≤ 0) :
    textIntKey t = none ∧ applyOperandAffinity formatReal .integer (.text t) = .text t := by
  have missing := applyNumericAffinity_none other
  refine ⟨by rw [textIntKey, missing], ?_⟩
  change numericTextAffinity t = _
  rw [numericTextAffinity, missing]

/-- Rowids stand below all texts. -/
theorem compare_text (r : Int64) :
    (RowidGe r (.text t) ↔ False) ∧ (RowidLe r (.text t) ↔ True) ∧ (RowidEq r (.text t) ↔ False) :=
  ⟨iff_of_false nofun not_false, iff_of_true ⟨rfl, rfl, rfl⟩ trivial, iff_of_false nofun not_false⟩

theorem compare_blob (r : Int64) :
    (RowidGe r (.blob t) ↔ False) ∧ (RowidLe r (.blob t) ↔ True) ∧ (RowidEq r (.blob t) ↔ False) :=
  ⟨iff_of_false nofun not_false, iff_of_true ⟨rfl, rfl, rfl⟩ trivial, iff_of_false nofun not_false⟩

/-- Nothing compares with `NULL` or NaN. -/
theorem compare_never {v : Value} (never : v.isNull = true ∨ v.isNaN = true) (r : Int64) :
    ¬ RowidGe r v ∧ ¬ RowidLe r v ∧ ¬ RowidEq r v := by
  have absent (rest : Prop) : ¬ (v.isNull = false ∧ v.isNaN = false ∧ rest) := by
    rintro ⟨present, plain, -⟩
    rcases never with null | nan
    · rw [null] at present
      cases present
    · rw [nan] at plain
      cases plain
  exact ⟨absent _, absent _, absent _⟩

/-- The bounds of an operand are those of the comparisons with it. -/
theorem rowidRangeBound_spec (formatReal : Binary64 → List UInt8) (v : Value) :
    (∃ b, rowidRangeBound formatReal v true = .ok b ∧
      ∀ r, b.Above r ↔ RowidGe r (applyOperandAffinity formatReal .integer v)) ∧
    (∃ b, rowidRangeBound formatReal v false = .ok b ∧
      ∀ r, b.Below r ↔ RowidLe r (applyOperandAffinity formatReal .integer v)) := by
  cases v with
  | null =>
    have never := @compare_never .null (Or.inl rfl)
    exact ⟨⟨.never, rfl, fun r => iff_of_false not_false (never r).1⟩,
      ⟨.never, rfl, fun r => iff_of_false not_false (never r).2.1⟩⟩
  | integer i =>
    refine ⟨⟨.val i, rfl, fun r => ?_⟩, ⟨.val i, rfl, fun r => ?_⟩⟩
    · exact exact_le.symm.trans (Number.integer i).ge_iff.symm
    · exact exact_le.symm.trans (Number.integer i).le_iff.symm
  | real f =>
    cases nan : f.isNaN with
    | true =>
      rw [operand_nan nan, rowidRangeBound, rowidRangeBound, rowidRangeBoundReal,
        rowidRangeBoundReal, if_pos nan, if_pos nan]
      have never := @compare_never (.real f) (Or.inr nan)
      exact ⟨⟨.never, rfl, fun r => iff_of_false not_false (never r).1⟩,
        ⟨.never, rfl, fun r => iff_of_false not_false (never r).2.1⟩⟩
    | false =>
      have number := @operand_real formatReal f nan
      obtain ⟨low, lower, above⟩ := rowidRangeBoundReal_lower nan
      obtain ⟨high, upper, below⟩ := rowidRangeBoundReal_upper nan
      exact ⟨⟨low, lower, fun r => (above r).trans number.ge_iff.symm⟩,
        ⟨high, upper, fun r => (below r).trans number.le_iff.symm⟩⟩
  | text t =>
    rcases Int.lt_or_le 0 (atof t).2 with number | other
    · rcases @operand_text formatReal t number with ⟨i, -, same, -⟩ | ⟨-, -, same⟩
      · rw [rowidRangeBound, rowidRangeBound, same]
        refine ⟨⟨.val i, rfl, fun r => ?_⟩, ⟨.val i, rfl, fun r => ?_⟩⟩
        · exact exact_le.symm.trans (Number.integer i).ge_iff.symm
        · exact exact_le.symm.trans (Number.integer i).le_iff.symm
      · rw [rowidRangeBound, rowidRangeBound, same]
        have plain := (realStored_number (isNaN_atof t)).1
        obtain ⟨low, lower, above⟩ := rowidRangeBoundReal_lower plain
        obtain ⟨high, upper, below⟩ := rowidRangeBoundReal_upper plain
        exact ⟨⟨low, lower, fun r => (above r).trans (Number.real plain).ge_iff.symm⟩,
          ⟨high, upper, fun r => (below r).trans (Number.real plain).le_iff.symm⟩⟩
    · rw [rowidRangeBound, rowidRangeBound, (@operand_other formatReal t other).2]
      exact ⟨⟨.never, rfl, fun r => (compare_text r).1.symm⟩,
        ⟨.unbounded, rfl, fun r => (compare_text r).2.1.symm⟩⟩
  | blob b =>
    exact ⟨⟨.never, rfl, fun r => (compare_blob r).1.symm⟩,
      ⟨.unbounded, rfl, fun r => (compare_blob r).2.1.symm⟩⟩

end Operands

/-- The interval that `rowid_range_bounds` gives holds a rowid. -/
def Within (bounds : Option (Int64 × Int64)) (r : Int64) : Prop :=
  ∃ interval ∈ bounds, interval.1.toInt ≤ r.toInt ∧ r.toInt ≤ interval.2.toInt

theorem rangeSide_spec {formatReal : Binary64 → List UInt8} {lower : Bool}
    (side : RowidRangeBound → Int64 → Prop) (compares : Int64 → Value → Prop)
    (spec : ∀ v, ∃ b, rowidRangeBound formatReal v lower = .ok b ∧
      ∀ r, side b r ↔ compares r (applyOperandAffinity formatReal .integer v))
    (open_ : ∀ r, side .unbounded r) (operand : Option Value) :
    ∃ b, rangeSide formatReal lower operand = .ok b ∧ ∀ r, side b r ↔
        ∀ v ∈ operand, compares r (applyOperandAffinity formatReal .integer v) := by
  cases operand with
  | none => exact ⟨.unbounded, rfl, fun r => iff_of_true (open_ r) (fun v member => nomatch member)⟩
  | some v =>
    obtain ⟨b, bound, means⟩ := spec v
    refine ⟨b, bound, fun r => (means r).trans ⟨?_, fun all => all v rfl⟩⟩
    intro holds other member
    cases member
    exact holds

/-- The interval of a range is that of the rowids between its operands. -/
theorem rowidRangeBounds_spec (formatReal : Binary64 → List UInt8) (start stop : Option Value) :
    ∃ bounds, rowidRangeBounds formatReal start stop = .ok bounds ∧ ∀ r, Within bounds r ↔
      (∀ v ∈ start, RowidGe r (applyOperandAffinity formatReal .integer v)) ∧
        ∀ v ∈ stop, RowidLe r (applyOperandAffinity formatReal .integer v) := by
  obtain ⟨lo, lower, above⟩ := rangeSide_spec RowidRangeBound.Above RowidGe
    (fun v => (rowidRangeBound_spec formatReal v).1) (fun _ => trivial) start
  obtain ⟨hi, upper, below⟩ := rangeSide_spec RowidRangeBound.Below RowidLe
    (fun v => (rowidRangeBound_spec formatReal v).2) (fun _ => trivial) stop
  have nothing (r : Int64) : Within none r ↔ False :=
    iff_of_false (fun ⟨_, member, _⟩ => nomatch member) not_false
  have ends (lo hi : Int64) (r : Int64) :
      Within (if hi < lo then none else some (lo, hi)) r ↔
        lo.toInt ≤ r.toInt ∧ r.toInt ≤ hi.toInt := by
    split_ifs with inverted
    · rw [nothing, false_iff, not_and]
      rw [Int64.lt_iff_toInt_lt] at inverted
      omega
    · constructor
      · rintro ⟨_, member, both⟩
        cases member
        exact both
      · exact fun both => ⟨_, rfl, both⟩
  have least (r : Int64) : Int64.minValue.toInt ≤ r.toInt := r.le_toInt
  have most (r : Int64) : r.toInt ≤ Int64.maxValue.toInt := Int.lt_add_one_iff.mp r.toInt_lt
  have low (bounded : lo ≠ .never) (r : Int64) :
      (lo.key Int64.minValue).toInt ≤ r.toInt ↔ lo.Above r := by
    cases lo with
    | val i => exact Iff.rfl
    | unbounded => exact iff_of_true (least r) trivial
    | never => exact absurd rfl bounded
  have high (bounded : hi ≠ .never) (r : Int64) :
      r.toInt ≤ (hi.key Int64.maxValue).toInt ↔ hi.Below r := by
    cases hi with
    | val i => exact Iff.rfl
    | unbounded => exact iff_of_true (most r) trivial
    | never => exact absurd rfl bounded
  simp only [← above, ← below]
  rw [rowidRangeBounds, lower, Checked.ok_bind]
  split_ifs with noLow
  · refine ⟨none, rfl, fun r => ?_⟩
    rw [nothing, noLow]
    exact iff_of_false not_false And.left
  · rw [upper, Checked.ok_bind]
    split_ifs with noHigh
    · refine ⟨none, rfl, fun r => ?_⟩
      rw [nothing, noHigh]
      exact iff_of_false not_false And.right
    · refine ⟨if hi.key Int64.maxValue < lo.key Int64.minValue then none
        else some (lo.key Int64.minValue, hi.key Int64.maxValue), ?_, fun r => ?_⟩
      · dsimp only
        split_ifs <;> rfl
      · rw [ends, low noLow, high noHigh]

section Keys

variable {formatReal : Binary64 → List UInt8} {f g : Binary64} {k : Int64} {t : List UInt8}

theorem sameNumber_iff (left : f.isNaN = false) (right : g.isNaN = false) :
    sameNumber f g = true ↔ f.scaled = g.scaled := by
  rw [sameNumber, Binary64.partialCmp_of_number left right, beq_iff_eq, Option.some.injEq,
    compare_eq_iff_eq]

theorem scaled_minValue : negTwoPow63.scaled = exact Int64.minValue := scaled_negTwoPow63

/-- Only one double has the value of the least integer. -/
theorem eq_negTwoPow63 (value : f.scaled = exact Int64.minValue) : f = negTwoPow63 :=
  eq_of_scaled (value.trans scaled_minValue.symm) (by decide)

theorem landing_iff : landing f = some k ↔ f.isNaN = false ∧ f.scaled = exact k := by
  rw [landing]
  constructor
  · intro lands
    split_ifs at lands with both
    have finite := of_decide_eq_true both.1
    have number : f.isNaN = false := by
      rw [Binary64.isNaN, decide_eq_false_iff_not]
      omega
    exact ⟨number, (intFloatCompare_realToI64 number).mp ⟨both.2, Option.some.inj lands⟩⟩
  · rintro ⟨number, value⟩
    obtain ⟨equal, same⟩ := (intFloatCompare_realToI64 number).mpr value
    rw [if_pos ⟨decide_eq_true (finite_integral value k.le_toInt k.toInt_lt), equal⟩, same]

/-- The key of a double is its integer, but for the least one. -/
theorem realIntKey_iff (number : f.isNaN = false) :
    realIntKey f = some k ↔ f.scaled = exact k ∧ k ≠ Int64.minValue := by
  have plain : (asF64 (realToI64 f)).isNaN = false := Binary64.isNaN_ofInt (natAbs_le _)
  rw [realIntKey]
  constructor
  · intro found
    split_ifs at found with fits
    obtain ⟨same, low, high⟩ := fits
    cases found
    have back : sameNumber f (asF64 (realToI64 f)) = true :=
      (sameNumber_iff number plain).mpr ((sameNumber_iff plain number).mp same).symm
    exact ⟨exact_of_sameNumber number low high back, fun least => absurd (least ▸ low) (by decide)⟩
  · rintro ⟨value, other⟩
    have low : -2 ^ 63 < k.toInt := by
      have bound := min_lt other
      omega
    obtain ⟨-, top⟩ := realToI64_integral number value low k.toInt_lt
    have same := sameNumber_integral number value low.le k.toInt_lt
    have key := realToI64_exact number value
    rw [Int64.ofInt_toInt] at same
    rw [key] at plain ⊢
    refine if_pos ⟨?_, ?_, ?_⟩
    · exact (sameNumber_iff plain number).mpr ((sameNumber_iff number plain).mp same).symm
    · rw [Int64.lt_iff_toInt_lt]
      exact low
    · rw [Int64.lt_iff_toInt_lt]
      exact top

theorem realIntKey_nan (nan : f.isNaN = true) : realIntKey f = none := by
  rw [realIntKey]
  refine if_neg fun fits => ?_
  obtain ⟨-, number, -⟩ := sameNumber_number fits.1
  rw [nan] at number
  cases number

/-- What the least integer adds to the keys of a double. -/
theorem leastKey_iff (number : f.isNaN = false) {seek : Option Int64}
    (sought : ∀ k, seek = some k ↔ f.scaled = exact k ∧ k ≠ Int64.minValue) :
    seek.or (leastKey f) = some k ↔ f.scaled = exact k := by
  have least := @sameNumber_iff f negTwoPow63 number (by decide)
  rw [scaled_minValue] at least
  cases seek with
  | some j =>
    have value := ((sought j).mp rfl).1
    rw [Option.some_or, Option.some.injEq, value, exact_inj]
  | none =>
    have missing (k : Int64) (value : f.scaled = exact k) : k = Int64.minValue := by
      by_contra other
      exact nomatch (sought k).mpr ⟨value, other⟩
    rw [Option.none_or, leastKey]
    constructor
    · intro taken
      split_ifs at taken with same
      cases taken
      exact least.mp same
    · intro value
      have same := missing k value
      rw [same] at value ⊢
      rw [if_pos (least.mpr value)]

theorem leastKey_nan (nan : f.isNaN = true) : leastKey f = none := by
  refine if_neg fun same => ?_
  obtain ⟨number, -⟩ := sameNumber_number same
  rw [nan] at number
  cases number

theorem unsqueezed_sought (whole : Unsqueezed f) (k : Int64) :
    none = some k ↔ f.scaled = exact k ∧ k ≠ Int64.minValue := by
  refine iff_of_false nofun ?_
  rintro ⟨value, other⟩
  have bound := min_lt other
  exact whole k.toInt (by omega) k.toInt_lt value

/-- The key of a value is the rowid that equals it. -/
theorem numericRowidKey_iff (formatReal : Binary64 → List UInt8) (v : Value) (k : Int64) :
    numericRowidKey v = some k ↔ RowidEq k (applyOperandAffinity formatReal .integer v) := by
  cases v with
  | null => exact iff_of_false nofun (compare_never (Or.inl rfl) k).2.2
  | integer i =>
    refine Iff.trans ?_ (Number.integer i).eq_iff.symm
    rw [exact_inj]
    exact ⟨Option.some.inj, congrArg some⟩
  | real f =>
    rw [numericRowidKey, rowidSeekValue, leastRowid]
    cases nan : f.isNaN with
    | true =>
      have never := @compare_never (.real f) (Or.inr nan) k
      rw [realIntKey_nan nan, operand_nan nan, leastKey_nan nan]
      exact iff_of_false nofun never.2.2
    | false =>
      exact (leastKey_iff nan fun k => realIntKey_iff nan).trans (operand_real nan).eq_iff.symm
  | text t =>
    rw [numericRowidKey, rowidSeekValue, leastRowid]
    rcases Int.lt_or_le 0 (atof t).2 with number | other
    · rw [if_pos number]
      rcases @operand_text formatReal t number with ⟨i, key, same, -⟩ | ⟨key, whole, same⟩
      · rw [key, same, Option.some_or]
        refine Iff.trans ?_ (Number.integer i).eq_iff.symm
        rw [exact_inj]
        exact ⟨Option.some.inj, congrArg some⟩
      · obtain ⟨plain, value⟩ := realStored_number (isNaN_atof t)
        rw [key, same, (Number.real plain).eq_iff, value]
        exact leastKey_iff (isNaN_atof t) (unsqueezed_sought whole)
    · obtain ⟨key, same⟩ := @operand_other formatReal t other
      rw [key, same, if_neg (Int.not_lt.mpr other)]
      exact iff_of_false nofun fun equal => (compare_text k).2.2.mp equal
  | blob b => exact iff_of_false nofun fun equal => (compare_blob k).2.2.mp equal

end Keys

/-- Texts that the standard library reads as an integer, `atof` reads as the same number. -/
def StrictFits : Value → Prop
  | .text t =>
    match parseI64 (trim (asStr t)) with
    | some _ => 0 < (atof t).2
    | none => ∀ f k, parseF64 (trim (asStr t)) = some f → f.isNaN = false → f.scaled = exact k →
        0 < (atof t).2 ∧ sameNumber (atof t).1 f = true
  | _ => True

section Strict

variable {formatReal : Binary64 → List UInt8} {f : Binary64} {k : Int64} {t : List UInt8}

theorem strict_text (t : List UInt8) : rowidStrictBoundary (.text t) =
    (parseI64 (trim (asStr t))).or ((parseF64 (trim (asStr t))).bind landing) := by
  rw [rowidStrictBoundary]
  cases parseI64 (trim (asStr t)) with
  | some i => rfl
  | none => cases parseF64 (trim (asStr t)) <;> rfl

/-- A text equals the integer of the double that the standard library reads exactly when `atof`
reads this double. -/
theorem rowidEq_text (other : parseI64 (trim (asStr t)) = none) (number : f.isNaN = false)
    (value : f.scaled = exact k) :
    RowidEq k (applyOperandAffinity formatReal .integer (.text t)) ↔
      0 < (atof t).2 ∧ sameNumber (atof t).1 f = true := by
  rw [sameNumber_iff (isNaN_atof t) number, value]
  rcases Int.lt_or_le 0 (atof t).2 with positive | nothing
  · rw [and_iff_right positive]
    rcases @operand_text formatReal t positive with ⟨i, -, same, whole | read⟩ | ⟨-, -, same⟩
    · have parsed := parseI64_of_atoi64 (congrArg Prod.snd whole)
      rw [other] at parsed
      cases parsed
    · rw [same, (Number.integer i).eq_iff, read]
    · obtain ⟨plain, stored⟩ := realStored_number (isNaN_atof t)
      rw [same, (Number.real plain).eq_iff, stored]
  · rw [(@operand_other formatReal t nothing).2]
    exact iff_of_false (fun equal => (compare_text k).2.2.mp equal)
      fun both => absurd both.1 (Int.not_lt.mpr nothing)

/-- Where a strict bound is a rowid, it is the one that equals the operand, exactly for the
operands that fit. -/
theorem strict_iff (formatReal : Binary64 → List UInt8) (v : Value) :
    (∀ k, rowidStrictBoundary v = some k →
      RowidEq k (applyOperandAffinity formatReal .integer v)) ↔ StrictFits v := by
  cases v with
  | null => exact iff_of_true nofun trivial
  | blob b => exact iff_of_true nofun trivial
  | integer i =>
    refine iff_of_true (fun k same => ?_) trivial
    cases same
    exact (Number.integer i).eq_iff.mpr rfl
  | real f =>
    refine iff_of_true (fun k lands => ?_) trivial
    obtain ⟨number, value⟩ := landing_iff.mp lands
    exact (operand_real number).eq_iff.mpr value
  | text t =>
    rw [strict_text, StrictFits]
    cases parsed : parseI64 (trim (asStr t)) with
    | some i =>
      dsimp only
      rw [Option.some_or]
      constructor
      · intro holds
        by_contra other
        have equal := holds i rfl
        rw [(@operand_other formatReal t (Int.not_lt.mp other)).2] at equal
        exact (compare_text i).2.2.mp equal
      · rintro number k same
        cases same
        have integer := applyNumericAffinity_parsed parsed number
        change RowidEq i (numericTextAffinity t)
        rw [numericTextAffinity, integer]
        exact (Number.integer i).eq_iff.mpr rfl
    | none =>
      dsimp only
      rw [Option.none_or]
      constructor
      · intro holds f k read number value
        refine (rowidEq_text parsed number value).mp (holds k ?_)
        rw [read]
        exact landing_iff.mpr ⟨number, value⟩
      · intro fits k lands
        obtain ⟨f, read, landed⟩ := Option.bind_eq_some_iff.mp lands
        obtain ⟨number, value⟩ := landing_iff.mp landed
        exact (rowidEq_text parsed number value).mpr (fits f k read number value)

/-- Only one rowid equals an operand. -/
theorem rowidEq_unique {v : Value} {r : Int64}
    (equal : RowidEq k (applyOperandAffinity formatReal .integer v)) :
    RowidEq r (applyOperandAffinity formatReal .integer v) ↔ r = k := by
  have here := (numericRowidKey_iff formatReal v k).mpr equal
  rw [← numericRowidKey_iff, here, Option.some.injEq, eq_comm]

/-- The seek key differs for the least integer as a double only. -/
theorem rowidSeekValue_eq (formatReal : Binary64 → List UInt8) (v : Value) :
    if applyOperandAffinity formatReal .integer v = .real negTwoPow63 then
      rowidSeekValue v = none ∧ numericRowidKey v = some Int64.minValue
    else rowidSeekValue v = numericRowidKey v := by
  have key := numericRowidKey_iff formatReal v
  split_ifs with least
  · have lowest : numericRowidKey v = some Int64.minValue := by
      rw [key, least, (Number.real (by decide)).eq_iff, scaled_minValue]
    refine ⟨?_, lowest⟩
    cases v with
    | null => rfl
    | integer i => cases least
    | blob b => rfl
    | real f =>
      cases nan : f.isNaN with
      | true => exact realIntKey_nan nan
      | false =>
        cases found : realIntKey f with
        | none => exact found
        | some k =>
          obtain ⟨value, other⟩ := (realIntKey_iff nan).mp found
          have equal := (key k).mpr ((operand_real nan).eq_iff.mpr value)
          exact absurd (Option.some.inj (equal.symm.trans lowest)) other
    | text t =>
      rcases Int.lt_or_le 0 (atof t).2 with positive | nothing
      · rcases @operand_text formatReal t positive with ⟨i, -, same, -⟩ | ⟨none_, -, -⟩
        · cases same.symm.trans least
        · exact none_
      · exact (@operand_other formatReal t nothing).1
  · cases found : rowidSeekValue v with
    | some k => rw [numericRowidKey, found, Option.some_or]
    | none =>
      cases keyed : numericRowidKey v with
      | none => rfl
      | some k =>
        refine absurd ?_ least
        have taken := keyed
        rw [numericRowidKey, found, Option.none_or] at taken
        have stays (f : Binary64) (same : sameNumber f negTwoPow63 = true) : f = negTwoPow63 :=
          eq_negTwoPow63 ((sameNumber_number same).2.2.trans scaled_minValue)
        cases v with
        | null => cases taken
        | integer i => cases taken
        | blob b => cases taken
        | real f =>
          rw [leastRowid, leastKey] at taken
          split_ifs at taken with same
          rw [stays f same]
          change numericRealAffinity negTwoPow63 = _
          decide +kernel
        | text t =>
          rw [leastRowid] at taken
          split_ifs at taken with positive
          rw [leastKey] at taken
          split_ifs at taken with same
          rcases @operand_text formatReal t positive with ⟨i, seek, -⟩ | ⟨-, -, real⟩
          · have absent : textIntKey t = none := found
            rw [absent] at seek
            cases seek
          · rw [real, stays _ same]
            decide +kernel

end Strict

/-- The rowids of a range, its strict end and the keys of an operand are those of the comparisons
with the operand, exactly where its text is read alike by the standard library and `atof`. -/
theorem rowid_seeks_iff (formatReal : Binary64 → List UInt8) (v : Value) :
    ((∀ start stop : Option Value, ∃ bounds,
        rowidRangeBounds formatReal start stop = .ok bounds ∧ ∀ r, Within bounds r ↔
          (∀ v ∈ start, RowidGe r (applyOperandAffinity formatReal .integer v)) ∧
            ∀ v ∈ stop, RowidLe r (applyOperandAffinity formatReal .integer v)) ∧
      (∀ k, rowidStrictBoundary v = some k →
        ∀ r, RowidEq r (applyOperandAffinity formatReal .integer v) ↔ r = k) ∧
      (∀ k, numericRowidKey v = some k ↔
        RowidEq k (applyOperandAffinity formatReal .integer v)) ∧
      if applyOperandAffinity formatReal .integer v = .real negTwoPow63 then
        rowidSeekValue v = none ∧ numericRowidKey v = some Int64.minValue
      else rowidSeekValue v = numericRowidKey v) ↔ StrictFits v := by
  rw [← strict_iff formatReal v]
  constructor
  · rintro ⟨-, strict, -⟩ k lands
    exact (strict k lands k).mpr rfl
  · intro strict
    exact ⟨rowidRangeBounds_spec formatReal, fun k lands r => rowidEq_unique (strict k lands),
      numericRowidKey_iff formatReal v, rowidSeekValue_eq formatReal v⟩

/-- A no-break space in front of a digit: the text of an integer for the standard library, and no
number for `atof`. -/
theorem strict_boundary_trims_too_much :
    ¬ ∀ (formatReal : Binary64 → List UInt8) (v : Value) (k : Int64),
      rowidStrictBoundary v = some k →
        ∀ r, RowidEq r (applyOperandAffinity formatReal .integer v) ↔ r = k := by
  intro claimed
  have lands : rowidStrictBoundary (.text [0xc2, 0xa0, 0x35]) = some 5 := by decide
  have equal := (claimed (fun _ => []) _ 5 lands 5).mpr rfl
  have text : applyOperandAffinity (fun _ => []) .integer (.text [0xc2, 0xa0, 0x35]) =
      .text [0xc2, 0xa0, 0x35] := by decide
  rw [text] at equal
  exact (compare_text 5).2.2.mp equal

end RustSql.Executor
