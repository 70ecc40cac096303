import RustSql.Types.Value

/-! Text to number conversion, and which numbers stay doubles under a numeric affinity. -/

namespace RustSql.Types

open RustSql.Foundation

/-- The greatest pattern from a base on, in steps of halving width, whose weight fits a fraction. -/
def floorPattern (num den : Nat) : Nat → Nat → Nat
  | 0, pattern => pattern
  | k + 1, pattern =>
    if Binary64.weight (pattern + 2 ^ k) * den ≤ num then floorPattern num den k (pattern + 2 ^ k)
    else floorPattern num den k pattern

/-- The pattern nearest to a fraction of one, ties to the even one; infinity from its threshold. -/
def roundFraction (num den : Nat) : Nat :=
  let scaled := num * Binary64.unit
  let low := floorPattern scaled den 63 0
  if 2047 * 2 ^ 52 ≤ low then 2047 * 2 ^ 52
  else
    let middle := (Binary64.weight low + Binary64.weight (low + 1)) * den
    if 2 * scaled < middle ∨ (2 * scaled = middle ∧ low % 2 = 0) then low else low + 1

/-- `format!("{s}e{exp}").parse::<f64>()`. -/
def parseDecimal (s : Nat) (exp : Int) : Nat :=
  if 0 ≤ exp then roundFraction (s * 10 ^ exp.toNat) 1 else roundFraction s (10 ^ (-exp).toNat)

def isSpace (b : UInt8) : Bool :=
  b == 0x20 || b == 0x09 || b == 0x0a || b == 0x0b || b == 0x0c || b == 0x0d

def isDigit (b : UInt8) : Bool := 0x30 ≤ b && b ≤ 0x39

def digitOf (b : UInt8) : Nat := b.toNat - 0x30

/-- From here on digits only shift the exponent. -/
def significandLimit : Nat := (2 ^ 64 - 1 - 9) / 10

structure Scan where
  rest : List UInt8
  s : Nat
  d : Int
  nDigit : Nat

def scanInteger : List UInt8 → Nat → Nat → Scan
  | [], s, nDigit => ⟨[], s, 0, nDigit⟩
  | b :: z, s, nDigit =>
    if isDigit b then
      let s := s * 10 + digitOf b
      if significandLimit ≤ s then ⟨z.dropWhile isDigit, s, (z.takeWhile isDigit).length, nDigit + 1⟩
      else scanInteger z s (nDigit + 1)
    else ⟨b :: z, s, 0, nDigit⟩

def scanFraction : List UInt8 → Nat → Int → Nat → Scan
  | [], s, d, nDigit => ⟨[], s, d, nDigit⟩
  | b :: z, s, d, nDigit =>
    if isDigit b then
      if s < significandLimit then scanFraction z (s * 10 + digitOf b) (d - 1) (nDigit + 1)
      else scanFraction z s d nDigit
    else ⟨b :: z, s, d, nDigit⟩

def scanExponent : List UInt8 → Nat → Bool → List UInt8 × Nat × Bool
  | [], e, eValid => ([], e, eValid)
  | b :: z, e, eValid =>
    if isDigit b then scanExponent z (if e < 10000 then e * 10 + digitOf b else 10000) true
    else (b :: z, e, eValid)

/-- The sign in front of a number. -/
def scanSign : List UInt8 → Bool × List UInt8
  | [] => (false, [])
  | b :: z => if b = 0x2d then (true, z) else if b = 0x2b then (false, z) else (false, b :: z)

/-- `sqlite3AtoF`: the number that the bytes start with, and what the bytes are as a whole. -/
def atof (z : List UInt8) : Binary64 × Int :=
  let z := (z.takeWhile (· != 0)).dropWhile isSpace
  if z = [] then (⟨0⟩, 0)
  else
    let (negative, z) := scanSign z
    let integer := scanInteger z 0 0
    let dot := integer.rest.head? == some 0x2e
    let number :=
      if dot then scanFraction integer.rest.tail integer.s integer.d integer.nDigit else integer
    let exponent := number.rest.head? == some 0x65 || number.rest.head? == some 0x45
    let (eNegative, behind) := if exponent then scanSign number.rest.tail else (false, number.rest)
    let (rest, e, eValid) := if exponent then scanExponent behind 0 false else (behind, 0, true)
    let rest := rest.dropWhile isSpace
    let eType : Int := 1 + (if dot then 1 else 0) + (if exponent then 1 else 0)
    let pattern :=
      if number.s = 0 then 0
      else parseDecimal number.s ((if eNegative then -(e : Int) else e) + number.d)
    let value : Binary64 := ⟨UInt64.ofNat ((if negative then 2 ^ 63 else 0) + pattern)⟩
    let rc : Int :=
      if rest = [] ∧ 0 < number.nDigit ∧ eValid then eType
      else if 2 ≤ eType ∧ (eType = 3 ∨ eValid) ∧ 0 < number.nDigit then -1
      else 0
    (value, rc)

def pow63Digits : List UInt8 :=
  [0x39, 0x32, 0x32, 0x33, 0x33, 0x37, 0x32, 0x30, 0x33, 0x36, 0x38, 0x35, 0x34, 0x37, 0x37, 0x35,
    0x38, 0x30, 0x38]

/-- `sqlite3Atoi64`. -/
def atoi64 (z : List UInt8) : Int64 × Int :=
  let (neg, start) := scanSign (z.dropWhile isSpace)
  let zeros := start.takeWhile (· == 0x30)
  let behind := start.dropWhile (· == 0x30)
  let digits := behind.takeWhile isDigit
  let excess := behind.dropWhile isDigit
  let u := digits.foldl (fun (u : UInt64) b => u * 10 + UInt64.ofNat (digitOf b)) 0
  let value :=
    if 2 ^ 63 - 1 < u.toNat then if neg then Int64.minValue else Int64.maxValue
    else if neg then Int64.ofInt (-u.toNat) else Int64.ofInt u.toNat
  let rc : Int :=
    if digits = [] ∧ zeros = [] then -1 else if excess.any (fun b => !isSpace b) then 1 else 0
  if digits.length < 19 then (value, rc)
  else
    -- the first digit that differs decides; only the sign of `c` counts
    let c : Int :=
      if 19 < digits.length then 1
      else ((List.zipWith (fun b p => (b.toNat : Int) - p.toNat) digits pow63Digits).find?
        (· ≠ 0)).getD 0
    if c < 0 then (value, rc)
    else
      let clamped := if neg then Int64.minValue else Int64.maxValue
      if 0 < c then (clamped, 2) else if neg then (clamped, rc) else (clamped, 3)

/-- The double `9223372036854774784.0`. -/
def belowTwoPow63 : Binary64 := ⟨0x43DFFFFFFFFFFFFF⟩

/-- The double `-9223372036854774784.0`. -/
def aboveNegTwoPow63 : Binary64 := ⟨0xC3DFFFFFFFFFFFFF⟩

/-- `sqlite3RealToI64`. -/
def realToI64 (r : Binary64) : Int64 :=
  if r.lt aboveNegTwoPow63 then Int64.minValue
  else if belowTwoPow63.lt r then Int64.maxValue
  else Int64.ofInt (asI64 r)

def sameNumber (f g : Binary64) : Bool := f.partialCmp g == some .eq

/-- `sqlite3RealSameAsInt`. -/
def realSameAsInt (r : Binary64) (i : Int64) : Bool :=
  sameNumber r ⟨0⟩ ||
    (r.bits == (asF64 i).bits &&
      (decide (-2251799813685248 ≤ i.toInt) && decide (i.toInt < 2251799813685248)))

inductive NumericAffinity where
  | integer (i : Int64)
  | real (f : Binary64)
deriving DecidableEq, Repr

/-- A double that is an integer becomes one. -/
def integerAffinity (r : Binary64) : NumericAffinity :=
  let ix := realToI64 r
  if sameNumber r (asF64 ix) ∧ Int64.minValue < ix ∧ ix < Int64.maxValue then .integer ix
  else .real r

def applyNumericAffinity (z : List UInt8) : Option NumericAffinity :=
  let (r, rc) := atof z
  if rc ≤ 0 then none
  else if rc = 1 then
    if realSameAsInt r (realToI64 r) then some (.integer (realToI64 r))
    else
      let (i, irc) := atoi64 z
      if irc = 0 then some (.integer i) else some (integerAffinity r)
  else some (integerAffinity r)

example : applyNumericAffinity [0x20, 0x2d, 0x31, 0x2e, 0x35, 0x65, 0x2d, 0x31] =
    some (.real ⟨0xBFC3333333333333⟩) := by decide +kernel

/-- A double that is no integer strictly inside `±2^63`. -/
def Unsqueezed (f : Binary64) : Prop :=
  ∀ k : Int, -2 ^ 63 < k → k < 2 ^ 63 → f.scaled ≠ k * Binary64.unit

section Integral

variable {f : Binary64} {k : Int} (number : f.isNaN = false)
  (value : f.scaled = k * Binary64.unit)

include number value

theorem asI64_integral (low : -2 ^ 63 ≤ k) (high : k < 2 ^ 63) : asI64 f = k := by
  have least : -2 ^ 63 * (Binary64.unit : Int) ≤ f.scaled := by
    rw [value]
    exact Int.mul_le_mul_of_nonneg_right low Binary64.unit_pos.le
  have most : f.scaled < 2 ^ 63 * (Binary64.unit : Int) := by
    rw [value]
    exact Int.mul_lt_mul_of_pos_right high Binary64.unit_pos
  rw [asI64_of_range number least most, Binary64.truncate_integral number value]

omit number in
theorem finite_integral (low : -2 ^ 63 ≤ k) (high : k < 2 ^ 63) : f.magnitude < 2047 * 2 ^ 52 := by
  by_contra infinite
  have large : Binary64.weight (2047 * 2 ^ 52) ≤ Binary64.weight f.magnitude :=
    Binary64.weight_strictMono.monotone (Nat.le_of_not_lt infinite)
  have size : f.scaled.natAbs ≤ 2 ^ 63 * Binary64.unit := by
    rw [value, Int.natAbs_mul, Int.natAbs_natCast]
    exact Nat.mul_le_mul_right _ (by omega)
  rw [Binary64.natAbs_scaled] at size
  have beyond : 2 ^ 63 * Binary64.unit < Binary64.weight (2047 * 2 ^ 52) := by decide +kernel
  omega

theorem sameNumber_integral (low : -2 ^ 63 ≤ k) (high : k < 2 ^ 63) :
    sameNumber f (asF64 (Int64.ofInt k)) = true := by
  have back : (Int64.ofInt k).toInt = k := Int64.toInt_ofInt_of_le low high
  have whole : (asF64 (Int64.ofInt k)).scaled = exact (Int64.ofInt k) :=
    scaled_asF64_of_truncate number (by rw [back, Binary64.truncate_integral number value])
  have plain : (asF64 (Int64.ofInt k)).isNaN = false := Binary64.isNaN_ofInt (natAbs_le _)
  rw [sameNumber, Binary64.partialCmp_of_number number plain, whole, exact, back, value,
    compare_eq_iff_eq.mpr rfl]
  rfl

/-- No double lies between `2^63 - 1024` and `2^63`. -/
theorem realToI64_integral (low : -2 ^ 63 < k) (high : k < 2 ^ 63) :
    realToI64 f = Int64.ofInt k ∧ k < 2 ^ 63 - 1 := by
  have top : (Binary64.weight 0x43DFFFFFFFFFFFFF : Int) = (2 ^ 63 - 1024) * Binary64.unit := by
    decide +kernel
  have next : (Binary64.weight (0x43DFFFFFFFFFFFFF + 1) : Int) = 2 ^ 63 * Binary64.unit := by
    decide +kernel
  have notBelow : ¬ f.lt aboveNegTwoPow63 = true := by
    intro below
    rw [Binary64.lt_iff number (by decide)] at below
    have least : f.scaled ≤ -(Binary64.weight (0x43DFFFFFFFFFFFFF + 1) : Int) :=
      Binary64.scaled_le_neg_weight below
    rw [next, value, ← Int.neg_mul] at least
    have beyond := Int.le_of_mul_le_mul_right least Binary64.unit_pos
    omega
  have small : f.scaled ≤ (Binary64.weight 0x43DFFFFFFFFFFFFF : Int) := by
    apply Binary64.scaled_le_weight
    rw [next, value]
    exact Int.mul_lt_mul_of_pos_right high Binary64.unit_pos
  have notAbove : ¬ belowTwoPow63.lt f = true := by
    rw [Binary64.lt_iff (by decide) number]
    exact Int.not_lt.mpr small
  rw [realToI64, if_neg notBelow, if_neg notAbove, asI64_integral number value low.le high]
  rw [top, value] at small
  have bounded := Int.le_of_mul_le_mul_right small Binary64.unit_pos
  exact ⟨rfl, by omega⟩

end Integral

theorem integerAffinity_real {r f : Binary64} (kept : integerAffinity r = .real f) :
    r = f ∧ (f.isNaN = false → Unsqueezed f) := by
  simp only [integerAffinity] at kept
  split at kept
  · cases kept
  · rename_i stays
    cases kept
    refine ⟨rfl, fun number k low high value => stays ?_⟩
    obtain ⟨cast, bounded⟩ := realToI64_integral number value low high
    have back : (Int64.ofInt k).toInt = k := Int64.toInt_ofInt_of_le low.le high
    rw [cast]
    refine ⟨sameNumber_integral number value low.le high, ?_, ?_⟩
    · rw [Int64.lt_iff_toInt_lt, back]
      exact low
    · rw [Int64.lt_iff_toInt_lt, back]
      exact bounded

/-- A text becomes a double only where no integer has its value. -/
theorem applyNumericAffinity_real {z : List UInt8} {f : Binary64}
    (converted : applyNumericAffinity z = some (.real f)) (number : f.isNaN = false) :
    Unsqueezed f := by
  have stays (kept : some (integerAffinity (atof z).1) = some (.real f)) : Unsqueezed f :=
    (integerAffinity_real (Option.some.inj kept)).2 number
  unfold applyNumericAffinity at converted
  simp only at converted
  split at converted
  · cases converted
  · split at converted
    · split at converted
      · cases converted
      · split at converted
        · cases converted
        · exact stays converted
    · exact stays converted

end RustSql.Types
