import RustSql.Foundation.Binary64

/-! Sums, products and bounds of binary64 numbers. -/

namespace RustSql.Foundation

namespace Binary64

/-- A quiet NaN. -/
def quietNaN : Binary64 := ⟨0x7FF8000000000000⟩

def infinityPattern : Nat := 2047 * 2 ^ 52

def isInfinite (f : Binary64) : Bool := decide (f.magnitude = infinityPattern)

/-- The nearest pattern to a natural number of smallest subnormals, ties to the even fraction;
beyond the largest double it is the infinity. -/
def roundScaled (n : Nat) : Nat :=
  if n < 2 ^ 53 then n
  else
    let shift := n.log2 - 52
    let quotient := n / 2 ^ shift
    let rest := n % 2 ^ shift
    let half := 2 ^ (shift - 1)
    let up := half < rest || (rest == half && quotient % 2 == 1)
    min infinityPattern ((shift + 1) * 2 ^ 52 + (quotient - 2 ^ 52) + (if up then 1 else 0))

/-- The double of a sign and a sign-free pattern. -/
def ofPattern (negative : Bool) (pattern : Nat) : Binary64 :=
  ⟨UInt64.ofNat ((if negative then 2 ^ 63 else 0) + pattern)⟩

/-- The sum of two finite doubles is exact in smallest subnormals before it is rounded. -/
def add (f g : Binary64) : Binary64 :=
  if f.isNaN || g.isNaN then quietNaN
  else if f.isInfinite then (if g.isInfinite && f.sign != g.sign then quietNaN else f)
  else if g.isInfinite then g
  else
    let sum := f.scaled + g.scaled
    if sum = 0 then ofPattern (f.sign && g.sign) 0
    else ofPattern (decide (sum < 0)) (roundScaled sum.natAbs)

def neg (f : Binary64) : Binary64 := ofPattern (!f.sign) f.magnitude

def sub (f g : Binary64) : Binary64 := f.add g.neg

example : (ofInt (2 ^ 53)).add (ofInt 1) = ofInt (2 ^ 53) := by decide +kernel

example : (ofInt (2 ^ 53)).sub (ofInt (2 ^ 53)) = ofInt 0 := by decide +kernel

def infinity : Binary64 := ofPattern false infinityPattern

def negInfinity : Binary64 := ofPattern true infinityPattern

/-- The nearest pattern to `n / 2^e` smallest subnormals, ties to the even fraction; beyond the
largest double it is the infinity. -/
def roundDyadic (n e : Nat) : Nat :=
  let shift := max e (n.log2 - 52)
  let quotient := n / 2 ^ shift
  let rest := n % 2 ^ shift
  let half := 2 ^ (shift - 1)
  let up := half < rest || (rest == half && quotient % 2 == 1)
  let pattern := if shift = e then quotient else (shift - e + 1) * 2 ^ 52 + (quotient - 2 ^ 52)
  min infinityPattern (pattern + (if up then 1 else 0))

/-- The product of two finite doubles is exact before it is rounded. -/
def mul (f g : Binary64) : Binary64 :=
  if f.isNaN || g.isNaN then quietNaN
  else if f.isInfinite || g.isInfinite then
    if f.magnitude = 0 || g.magnitude = 0 then quietNaN
    else ofPattern (f.sign != g.sign) infinityPattern
  else ofPattern (f.sign != g.sign) (roundDyadic (weight f.magnitude * weight g.magnitude) 1074)

/-- `f64::min`: a NaN gives way to a number. -/
def minimum (f g : Binary64) : Binary64 :=
  if f.isNaN then g else if g.isNaN then f else if g.lt f then g else f

/-- `f64::max`. -/
def maximum (f g : Binary64) : Binary64 :=
  if f.isNaN then g else if g.isNaN then f else if f.lt g then g else f

def eq (f g : Binary64) : Bool := f.partialCmp g == some .eq

def one : Binary64 := ofInt 1

example : (ofInt 3).mul (ofInt (-5)) = ofInt (-15) := by decide +kernel

example : ((⟨0x3FB999999999999A⟩ : Binary64).mul ⟨0x3FB999999999999A⟩) = ⟨0x3F847AE147AE147C⟩ := by
  decide +kernel

theorem numbers_of_le {f g : Binary64} (below : f.le g = true) : f.isNaN = false ∧ g.isNaN = false := by
  unfold le partialCmp at below
  cases left : f.isNaN <;> cases right : g.isNaN <;> simp_all

theorem numbers_of_lt {f g : Binary64} (below : f.lt g = true) : f.isNaN = false ∧ g.isNaN = false := by
  unfold lt partialCmp at below
  cases left : f.isNaN <;> cases right : g.isNaN <;> simp_all

theorem le_trans {f g h : Binary64} (first : f.le g = true) (second : g.le h = true) :
    f.le h = true := by
  obtain ⟨left, middle⟩ := numbers_of_le first
  have right := (numbers_of_le second).2
  rw [le_iff left middle] at first
  rw [le_iff middle right] at second
  exact (le_iff left right).mpr (first.trans second)

theorem lt_of_le_of_lt {f g h : Binary64} (first : f.le g = true) (second : g.lt h = true) :
    f.lt h = true := by
  obtain ⟨left, middle⟩ := numbers_of_le first
  have right := (numbers_of_lt second).2
  rw [le_iff left middle] at first
  rw [lt_iff middle right] at second
  exact (lt_iff left right).mpr (first.trans_lt second)

theorem lt_of_lt_of_le {f g h : Binary64} (first : f.lt g = true) (second : g.le h = true) :
    f.lt h = true := by
  obtain ⟨left, middle⟩ := numbers_of_lt first
  have right := (numbers_of_le second).2
  rw [lt_iff left middle] at first
  rw [le_iff middle right] at second
  exact (lt_iff left right).mpr (first.trans_le second)

theorem le_self {f : Binary64} (number : f.isNaN = false) : f.le f = true :=
  (le_iff number number).mpr le_rfl

theorem le_of_eq {f g : Binary64} (same : f.eq g = true) : f.le g = true ∧ g.le f = true := by
  have numbers : f.isNaN = false ∧ g.isNaN = false := by
    unfold eq partialCmp at same
    cases left : f.isNaN <;> cases right : g.isNaN <;> simp_all
  rw [eq, partialCmp_of_number numbers.1 numbers.2, beq_iff_eq, Option.some.injEq,
    compare_eq_iff_eq] at same
  rw [le_iff numbers.1 numbers.2, le_iff numbers.2 numbers.1]
  exact ⟨same.le, same.ge⟩

theorem not_lt {f g : Binary64} (left : f.isNaN = false) (right : g.isNaN = false)
    (not : ¬ g.lt f = true) : f.le g = true := by
  rw [lt_iff right left] at not
  exact (le_iff left right).mpr (Int.not_lt.mp not)

theorem minimum_le_of_left {f g bound : Binary64} (below : f.le bound = true) :
    (minimum f g).le bound = true := by
  obtain ⟨left, _⟩ := numbers_of_le below
  unfold minimum
  rw [left, if_neg Bool.false_ne_true]
  split
  · exact below
  · next number =>
    split
    · next smaller =>
      have right := Bool.eq_false_iff.mpr number
      exact le_trans ((le_iff right left).mpr ((lt_iff right left).mp smaller).le) below
    · exact below

theorem minimum_le_of_right {f g bound : Binary64} (below : g.le bound = true) :
    (minimum f g).le bound = true := by
  obtain ⟨right, _⟩ := numbers_of_le below
  unfold minimum
  split
  · exact below
  · next number =>
    rw [right, if_neg Bool.false_ne_true]
    split
    · exact below
    · next larger => exact le_trans (not_lt (Bool.eq_false_iff.mpr number) right larger) below

theorem le_maximum_of_left {f g bound : Binary64} (above : bound.le f = true) :
    bound.le (maximum f g) = true := by
  obtain ⟨_, left⟩ := numbers_of_le above
  unfold maximum
  rw [left, if_neg Bool.false_ne_true]
  split
  · exact above
  · next number =>
    split
    · next larger =>
      have right := Bool.eq_false_iff.mpr number
      exact le_trans above ((le_iff left right).mpr ((lt_iff left right).mp larger).le)
    · exact above

theorem le_maximum_of_right {f g bound : Binary64} (above : bound.le g = true) :
    bound.le (maximum f g) = true := by
  obtain ⟨_, right⟩ := numbers_of_le above
  unfold maximum
  split
  · exact above
  · next number =>
    rw [right, if_neg Bool.false_ne_true]
    split
    · exact above
    · next smaller => exact le_trans above (not_lt right (Bool.eq_false_iff.mpr number) smaller)

end RustSql.Foundation.Binary64
