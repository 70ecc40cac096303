import RustSql.Foundation.Positional
import RustSql.Types.NumericText

/-! The integer at the front of a text: `atoi64` reads it exactly, and clamps it. -/

namespace RustSql.Types

open RustSql.Foundation

/-- Whether a minus stands in front, and what stands behind the spaces and the sign. -/
def unsigned (z : List UInt8) : Bool × List UInt8 := scanSign (z.dropWhile isSpace)

/-- The digits of the integer, and all that follows them. -/
def digitRun (z : List UInt8) : List UInt8 := (unsigned z).2.takeWhile isDigit

def behindRun (z : List UInt8) : List UInt8 := (unsigned z).2.dropWhile isDigit

def decimal (digits : List UInt8) : Nat := numeral 10 (digits.map digitOf)

def integerRun (z : List UInt8) : Int :=
  if (unsigned z).1 then -(decimal (digitRun z) : Int) else decimal (digitRun z)

/-- The nearest `i64`. -/
def clampI64 (i : Int) : Int := max (-2 ^ 63) (min i (2 ^ 63 - 1))

/-- What the return code says about the text. -/
def integerCode (z : List UInt8) : Int :=
  if digitRun z = [] then -1
  else if integerRun z = 2 ^ 63 then 3
  else if clampI64 (integerRun z) ≠ integerRun z then 2
  else if (behindRun z).any (fun b => !isSpace b) then 1 else 0

theorem digitOf_lt {b : UInt8} (digit : isDigit b = true) : digitOf b < 10 := by
  simp only [isDigit, Bool.and_eq_true, decide_eq_true_eq, UInt8.le_iff_toNat_le] at digit
  have high : b.toNat ≤ 57 := digit.2
  simp only [digitOf]
  omega

variable {digits : List UInt8}

theorem digitOf_map_lt (all : ∀ b ∈ digits, isDigit b = true) :
    ∀ d ∈ digits.map digitOf, d < 10 := by
  intro d member
  obtain ⟨b, inside, rfl⟩ := List.mem_map.mp member
  exact digitOf_lt (all b inside)

theorem mem_takeWhile {p : α → Bool} {l : List α} : ∀ a ∈ l.takeWhile p, p a = true :=
  List.all_eq_true.mp (List.all_takeWhile ..)

/-- The accumulator counts modulo `2^64`. -/
theorem foldl_digits (digits : List UInt8) (u : UInt64) :
    (digits.foldl (fun (u : UInt64) b => u * 10 + UInt64.ofNat (digitOf b)) u).toNat =
      (u.toNat * 10 ^ digits.length + decimal digits) % 2 ^ 64 := by
  induction digits generalizing u with
  | nil => simp [decimal]
  | cons b rest ih =>
    have step : (u * 10 + UInt64.ofNat (digitOf b)).toNat =
        (u.toNat * 10 + digitOf b) % 2 ^ 64 := by
      simp [UInt64.toNat_add, UInt64.toNat_mul]
    rw [List.foldl_cons, ih, step]
    have congruent := ((Nat.mod_modEq (u.toNat * 10 + digitOf b) (2 ^ 64)).mul_right
      (10 ^ rest.length)).add_right (decimal rest)
    rw [congruent]
    congr 1
    rw [decimal, decimal, List.map_cons, numeral_cons, List.length_map, List.length_cons]
    ring

/-- The zeros in front are digits too, and do not change the number. -/
theorem digitRun_zeros (start : List UInt8) :
    start.takeWhile isDigit = start.takeWhile (· == 0x30) ++
        (start.dropWhile (· == 0x30)).takeWhile isDigit ∧
      start.dropWhile isDigit = (start.dropWhile (· == 0x30)).dropWhile isDigit := by
  induction start with
  | nil => simp
  | cons b rest ih =>
    by_cases zero : b = 0x30
    · subst zero
      have digit : isDigit 0x30 = true := by decide
      simp [digit, ih]
    · have other : (b == 0x30) = false := by simpa using zero
      simp [List.takeWhile_cons, List.dropWhile_cons, other]

theorem decimal_zeros {zeros : List UInt8} (all : ∀ b ∈ zeros, b = 0x30) (digits : List UInt8) :
    decimal (zeros ++ digits) = decimal digits := by
  rw [decimal, decimal, List.map_append, numeral_zeros]
  intro d member
  obtain ⟨b, inside, rfl⟩ := List.mem_map.mp member
  rw [all b inside]
  rfl

theorem decimal_lt (all : ∀ b ∈ digits, isDigit b = true) :
    decimal digits < 10 ^ digits.length := by
  have bound := numeral_lt (by decide) (digitOf_map_lt all)
  rwa [List.length_map] at bound

/-- Without zeros in front, `k + 1` digits make at least `10 ^ k`. -/
theorem pow_le_decimal {start : List UInt8}
    (some : (start.dropWhile (· == 0x30)).takeWhile isDigit ≠ []) :
    10 ^ (((start.dropWhile (· == 0x30)).takeWhile isDigit).length - 1) ≤
      decimal ((start.dropWhile (· == 0x30)).takeWhile isDigit) := by
  cases behind : start.dropWhile (· == 0x30) with
  | nil => simp [behind] at some
  | cons b rest =>
    have nonzero : b ≠ 0x30 := by
      have first := List.head?_dropWhile_not (· == 0x30) start
      simpa [behind] using first
    rw [behind] at some
    by_cases digit : isDigit b = true
    · have positive : 0 < digitOf b := by
        simp only [isDigit, Bool.and_eq_true, decide_eq_true_eq, UInt8.le_iff_toNat_le] at digit
        have low : 48 ≤ b.toNat := digit.1
        have differ : b.toNat ≠ 48 := fun same => nonzero (UInt8.toNat_inj.mp same)
        simp only [digitOf]
        omega
      have bound := @pow_le_numeral 10 (digitOf b) positive ((rest.takeWhile isDigit).map digitOf)
      rw [List.length_map] at bound
      simpa [digit, decimal] using bound
    · simp [digit] at some

theorem decimal_pow63 : decimal pow63Digits = 2 ^ 63 := by decide

/-- The differences of two digit bytes are those of the digits. -/
theorem zipWith_digits {left right : List UInt8} (leftAll : ∀ b ∈ left, isDigit b = true)
    (rightAll : ∀ b ∈ right, isDigit b = true) :
    List.zipWith (fun b p => (b.toNat : Int) - p.toNat) left right =
      List.zipWith (fun l r : Nat => (l : Int) - r) (left.map digitOf) (right.map digitOf) := by
  induction left generalizing right with
  | nil => rfl
  | cons b rest ih =>
    cases right with
    | nil => rfl
    | cons p more =>
      have first := leftAll b (List.mem_cons_self ..)
      have second := rightAll p (List.mem_cons_self ..)
      simp only [isDigit, Bool.and_eq_true, decide_eq_true_eq, UInt8.le_iff_toNat_le] at first second
      have low : 48 ≤ b.toNat := first.1
      have least : 48 ≤ p.toNat := second.1
      simp only [List.map_cons, List.zipWith_cons_cons, digitOf]
      congr 1
      · omega
      · exact ih (fun b member => leftAll b (List.mem_cons_of_mem _ member))
          fun b member => rightAll b (List.mem_cons_of_mem _ member)

theorem comparison_sign (all : ∀ b ∈ digits, isDigit b = true) (length : digits.length = 19)
    {c : Int} (compared : c = ((List.zipWith (fun b p => (b.toNat : Int) - p.toNat) digits
      pow63Digits).find? (· ≠ 0)).getD 0) :
    (c < 0 ↔ decimal digits < 2 ^ 63) ∧ (0 < c ↔ 2 ^ 63 < decimal digits) := by
  have reference : ∀ b ∈ pow63Digits, isDigit b = true := List.all_eq_true.mp (by decide)
  have same : c = firstDifference (digits.map digitOf) (pow63Digits.map digitOf) := by
    rw [compared, zipWith_digits all reference, firstDifference]
  have lengths : (digits.map digitOf).length = (pow63Digits.map digitOf).length := by
    rw [List.length_map, length]
    rfl
  have sign := firstDifference_sign (by decide) lengths (digitOf_map_lt all)
    (digitOf_map_lt reference)
  rw [same, ← decimal_pow63]
  exact sign

/-- The accumulator as an `i64`. -/
def accumulated (neg : Bool) (digits : List UInt8) : Int64 :=
  let u := digits.foldl (fun (u : UInt64) b => u * 10 + UInt64.ofNat (digitOf b)) 0
  if 2 ^ 63 - 1 < u.toNat then if neg then Int64.minValue else Int64.maxValue
  else if neg then Int64.ofInt (-u.toNat) else Int64.ofInt u.toNat

/-- The end of `atoi64`, behind the loops. -/
def concluded (neg : Bool) (digits : List UInt8) (rc : Int) : Int64 × Int :=
  if digits.length < 19 then (accumulated neg digits, rc)
  else
    let c : Int :=
      if 19 < digits.length then 1
      else ((List.zipWith (fun b p => (b.toNat : Int) - p.toNat) digits pow63Digits).find?
        (· ≠ 0)).getD 0
    if c < 0 then (accumulated neg digits, rc)
    else
      let clamped := if neg then Int64.minValue else Int64.maxValue
      if 0 < c then (clamped, 2) else if neg then (clamped, rc) else (clamped, 3)

def signed (neg : Bool) (n : Nat) : Int := if neg then -(n : Int) else n

theorem clampI64_small (neg : Bool) {n : Nat} (small : n < 2 ^ 63) :
    clampI64 (signed neg n) = signed neg n := by
  rw [clampI64, signed]
  split <;> omega

theorem clampI64_large (neg : Bool) {n : Nat} (large : 2 ^ 63 ≤ n) :
    Int64.ofInt (clampI64 (signed neg n)) = if neg then Int64.minValue else Int64.maxValue := by
  cases neg
  · have top : clampI64 (signed false n) = 2 ^ 63 - 1 := by
      rw [clampI64, signed]
      simp
      omega
    rw [top]
    decide
  · have bottom : clampI64 (signed true n) = -2 ^ 63 := by
      rw [clampI64, signed]
      simp
      omega
    rw [bottom]
    decide

theorem accumulated_eq (neg : Bool) (small : decimal digits < 2 ^ 63) :
    accumulated neg digits = Int64.ofInt (signed neg (decimal digits)) := by
  have wrapped := foldl_digits digits 0
  rw [UInt64.toNat_zero, Nat.zero_mul, Nat.zero_add,
    Nat.mod_eq_of_lt (Nat.lt_trans small (by decide))] at wrapped
  have low : ¬ 2 ^ 63 - 1 < decimal digits := by omega
  rw [accumulated, wrapped, if_neg low]
  cases neg <;> rfl

/-- The code of a number with digits, before the code of what follows it. -/
def rangeCode (i rc : Int) : Int :=
  if i = 2 ^ 63 then 3 else if clampI64 i ≠ i then 2 else rc

theorem rangeCode_small (neg : Bool) {n : Nat} (small : n < 2 ^ 63) (rc : Int) :
    rangeCode (signed neg n) rc = rc := by
  have fits : signed neg n ≠ 2 ^ 63 := by
    rw [signed]
    split <;> omega
  rw [rangeCode, if_neg fits, clampI64_small neg small, if_neg (by simp)]

theorem rangeCode_large (neg : Bool) {n : Nat} (large : 2 ^ 63 < n) (rc : Int) :
    rangeCode (signed neg n) rc = 2 := by
  have beyond : signed neg n ≠ 2 ^ 63 := by
    rw [signed]
    split <;> omega
  have clamped : clampI64 (signed neg n) ≠ signed neg n := by
    rw [clampI64, signed]
    split <;> omega
  rw [rangeCode, if_neg beyond, if_pos clamped]

theorem rangeCode_edge (neg : Bool) (rc : Int) :
    rangeCode (signed neg (2 ^ 63)) rc = if neg then rc else 3 := by
  cases neg <;> rfl

/-- The comparison of the digits settles what the accumulator may have lost. -/
theorem concluded_eq (neg : Bool) (all : ∀ b ∈ digits, isDigit b = true)
    (least : digits ≠ [] → 10 ^ (digits.length - 1) ≤ decimal digits) (rc : Int) :
    concluded neg digits rc =
      (Int64.ofInt (clampI64 (signed neg (decimal digits))),
        rangeCode (signed neg (decimal digits)) rc) := by
  have settled (small : decimal digits < 2 ^ 63) :
      (accumulated neg digits, rc) =
        (Int64.ofInt (clampI64 (signed neg (decimal digits))),
          rangeCode (signed neg (decimal digits)) rc) := by
    rw [accumulated_eq neg small, clampI64_small neg small, rangeCode_small neg small]
  rw [concluded]
  by_cases short : digits.length < 19
  · have small : decimal digits < 10 ^ 18 :=
      Nat.lt_of_lt_of_le (decimal_lt all) (Nat.pow_le_pow_right (by decide) (by omega))
    rw [if_pos short, settled (Nat.lt_trans small (by decide))]
  · have some : digits ≠ [] := by
      rintro rfl
      exact short (by decide)
    have sign : ∀ c : Int, c = (if 19 < digits.length then 1
        else ((List.zipWith (fun b p => (b.toNat : Int) - p.toNat) digits pow63Digits).find?
          (· ≠ 0)).getD 0) →
        (c < 0 ↔ decimal digits < 2 ^ 63) ∧ (0 < c ↔ 2 ^ 63 < decimal digits) := by
      intro c compared
      split at compared
      · next long =>
        have large : 10 ^ 19 ≤ decimal digits :=
          Nat.le_trans (Nat.pow_le_pow_right (by decide) (by omega)) (least some)
        omega
      · next exactly => exact comparison_sign all (by omega) compared
    obtain ⟨below, above⟩ := sign _ rfl
    rw [if_neg short]
    simp only [below, above]
    rcases Nat.lt_trichotomy (decimal digits) (2 ^ 63) with small | edge | large
    · rw [if_pos small, settled small]
    · have reached : ¬ decimal digits < 2 ^ 63 := by omega
      have within : ¬ 2 ^ 63 < decimal digits := by omega
      rw [if_neg reached, if_neg within, clampI64_large neg (Nat.le_of_eq edge.symm), edge,
        rangeCode_edge]
      cases neg <;> rfl
    · rw [if_neg (Nat.lt_asymm large), if_pos large, clampI64_large neg large.le,
        rangeCode_large neg large]

/-- The value and the code of `atoi64`. -/
theorem atoi64_eq (z : List UInt8) :
    atoi64 z = (Int64.ofInt (clampI64 (integerRun z)), integerCode z) := by
  obtain ⟨run, behind⟩ := digitRun_zeros (unsigned z).2
  have zeros : ∀ b ∈ (unsigned z).2.takeWhile (· == 0x30), b = 0x30 := fun b member => by
    simpa using mem_takeWhile b member
  have number : integerRun z = signed (unsigned z).1
      (decimal (((unsigned z).2.dropWhile (· == 0x30)).takeWhile isDigit)) := by
    rw [integerRun, digitRun, run, decimal_zeros zeros, signed]
  have empty : digitRun z = [] ↔
      ((unsigned z).2.dropWhile (· == 0x30)).takeWhile isDigit = [] ∧
        (unsigned z).2.takeWhile (· == 0x30) = [] := by
    rw [digitRun, run, List.append_eq_nil_iff, and_comm]
  have parsed : atoi64 z = concluded (unsigned z).1
      (((unsigned z).2.dropWhile (· == 0x30)).takeWhile isDigit)
      (if ((unsigned z).2.dropWhile (· == 0x30)).takeWhile isDigit = [] ∧
          (unsigned z).2.takeWhile (· == 0x30) = [] then -1
        else if (((unsigned z).2.dropWhile (· == 0x30)).dropWhile isDigit).any
          (fun b => !isSpace b) then 1 else 0) := rfl
  rw [parsed, concluded_eq _ mem_takeWhile pow_le_decimal, ← number, integerCode]
  simp only [empty, behindRun, behind]
  congr 1
  split
  · next none =>
    have zero : integerRun z = 0 := by
      rw [number, none.1]
      cases (unsigned z).1 <;> rfl
    rw [zero]
    rfl
  · rfl

/-- The integer at the front of a text is read exactly where it fits an `i64`, and clamped
where it does not; the code tells the cases apart. -/
theorem atoi64_exact (z : List UInt8) :
    (atoi64 z).1.toInt = clampI64 (integerRun z) ∧
      ((atoi64 z).2 = -1 ↔ digitRun z = []) ∧
      ((atoi64 z).2 = 3 ↔ integerRun z = 2 ^ 63) ∧
      ((atoi64 z).2 = 2 ↔ integerRun z < -2 ^ 63 ∨ 2 ^ 63 < integerRun z) ∧
      ((atoi64 z).2 = 1 ↔ digitRun z ≠ [] ∧ clampI64 (integerRun z) = integerRun z ∧
        ∃ b ∈ behindRun z, isSpace b = false) ∧
      ((atoi64 z).2 = 0 ↔ digitRun z ≠ [] ∧ clampI64 (integerRun z) = integerRun z ∧
        ∀ b ∈ behindRun z, isSpace b = true) := by
  have value : (atoi64 z).1.toInt = clampI64 (integerRun z) := by
    rw [atoi64_eq]
    exact Int64.toInt_ofInt_of_le (by rw [clampI64]; omega) (by rw [clampI64]; omega)
  have code : (atoi64 z).2 = integerCode z := by rw [atoi64_eq]
  have nothing (none : digitRun z = []) : integerRun z = 0 := by
    rw [integerRun, none]
    split <;> rfl
  refine ⟨value, ?_⟩
  rw [code, integerCode]
  have range : clampI64 (integerRun z) = integerRun z ↔
      -2 ^ 63 ≤ integerRun z ∧ integerRun z < 2 ^ 63 := by
    rw [clampI64]
    omega
  by_cases none : digitRun z = []
  · simp [none, nothing none]
  · by_cases edge : integerRun z = 2 ^ 63
    · simp [none, edge, clampI64]
    · by_cases inside : clampI64 (integerRun z) = integerRun z
      · have within := range.mp inside
        have fits : ¬ (integerRun z < -2 ^ 63 ∨ 2 ^ 63 < integerRun z) := by omega
        by_cases excess : (behindRun z).any (fun b => !isSpace b) = true
        · have found : ∃ b ∈ behindRun z, isSpace b = false := by simpa using excess
          rw [if_neg none, if_neg edge, if_neg (not_not.mpr inside), if_pos excess]
          refine ⟨iff_of_false (by decide) none, iff_of_false (by decide) edge,
            iff_of_false (by decide) fits, iff_of_true rfl ⟨none, inside, found⟩,
            iff_of_false (by decide) ?_⟩
          rintro ⟨-, -, all⟩
          obtain ⟨b, member, other⟩ := found
          simp [all b member] at other
        · have all : ∀ b ∈ behindRun z, isSpace b = true := by simpa using excess
          rw [if_neg none, if_neg edge, if_neg (not_not.mpr inside), if_neg excess]
          refine ⟨iff_of_false (by decide) none, iff_of_false (by decide) edge,
            iff_of_false (by decide) fits, iff_of_false (by decide) ?_,
            iff_of_true rfl ⟨none, inside, all⟩⟩
          rintro ⟨-, -, b, member, other⟩
          simp [all b member] at other
      · have outside : integerRun z < -2 ^ 63 ∨ 2 ^ 63 < integerRun z := by
          rw [range] at inside
          omega
        rw [if_neg none, if_neg edge, if_pos inside]
        exact ⟨iff_of_false (by decide) none, iff_of_false (by decide) edge,
          iff_of_true rfl outside, iff_of_false (by decide) fun kept => inside kept.2.1,
          iff_of_false (by decide) fun kept => inside kept.2.1⟩

example : atoi64 [0x20, 0x2d, 0x39, 0x78] = (-9, 1) := by decide

end RustSql.Types
