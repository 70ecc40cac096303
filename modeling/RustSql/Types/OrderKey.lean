import RustSql.Types.Value
import RustSql.Foundation.Lexicographic

/-! The order-preserving encoding of secondary index keys. -/

namespace RustSql.Types

open RustSql.Foundation

/-- The sign-flip map from doubles to words ordered like the numbers. -/
def doubleOrderKey (f : Binary64) : UInt64 :=
  if f.bits >>> 63 == 1 then ~~~f.bits else f.bits ||| 0x8000000000000000

/-- The cast `f as i128`. -/
def asI128 (f : Binary64) : Int := f.toIntSat (-2 ^ 127) (2 ^ 127 - 1)

/-- The nearest double, stepped down one unit in the last place when rounding
went up. -/
def bucketFloor (i : Int64) : Binary64 :=
  let lo := asF64 i
  if i.toInt < asI128 lo then
    if Binary64.lt ⟨0⟩ lo then ⟨lo.bits - 1⟩ else ⟨lo.bits + 1⟩
  else lo

/-- The distance to the bucket floor, cast to `u16`. -/
def bucketDelta (i : Int64) : Nat := ((i.toInt - asI128 (bucketFloor i)) % 2 ^ 16).toNat

/-- Every zero byte becomes the pair `00 01`. -/
def escapeOrderBytes (bytes : List UInt8) : List UInt8 :=
  bytes.flatMap fun b => if b == 0 then [0, 1] else [b]

def encodeNumber (key : UInt64) (delta : Nat) : List UInt8 :=
  1 :: (bigEndian 8 key.toNat ++ bigEndian 2 delta)

namespace Value

def encodeOrderKey : Value → List UInt8
  | null => [0]
  | integer i => encodeNumber (doubleOrderKey (bucketFloor i)) (bucketDelta i)
  | real f => encodeNumber (doubleOrderKey f.addZero) 0
  | text bytes => 2 :: (escapeOrderBytes bytes ++ [0, 0])
  | blob bytes => 3 :: (escapeOrderBytes bytes ++ [0, 0])

/-- Append the key of one value to a composite key. -/
def encodeOrderKeyInto (self : Value) (out : List UInt8) : List UInt8 :=
  out ++ self.encodeOrderKey

end Value

/-- The composite key of a row: the keys of its values one after another. -/
def encodeRowKey (row : List Value) : List UInt8 :=
  row.foldl (fun out value => value.encodeOrderKeyInto out) []

theorem encodeRowKey_eq (row : List Value) : encodeRowKey row = row.flatMap Value.encodeOrderKey := by
  have general (out : List UInt8) :
      row.foldl (fun out value => value.encodeOrderKeyInto out) out =
        out ++ row.flatMap Value.encodeOrderKey := by
    induction row generalizing out with
    | nil => simp
    | cons value rest ih =>
      rw [List.foldl_cons, ih, Value.encodeOrderKeyInto, List.flatMap_cons, List.append_assoc]
  exact general []

theorem doubleOrderKey_toNat (f : Binary64) :
    (doubleOrderKey f).toNat =
      if f.sign then 2 ^ 63 - 1 - f.magnitude else 2 ^ 63 + f.magnitude := by
  have parts := f.bits_toNat
  have bound := f.magnitude_lt
  have branch : (f.bits >>> 63 == 1) = f.sign := rfl
  rw [doubleOrderKey, branch]
  split
  · rename_i negative
    rw [UInt64.toNat_not, parts, negative]
    simp only [if_true, UInt64.size]
    omega
  · rename_i nonnegative
    have disjoint := Nat.two_pow_add_eq_or_of_lt bound 1
    rw [UInt64.toNat_or, parts, if_neg nonnegative, Nat.zero_add,
      show (0x8000000000000000 : UInt64).toNat = 2 ^ 63 from rfl, Nat.or_comm]
    simpa using disjoint.symm

/-- Zeros are written with a positive sign. -/
def Canonical (f : Binary64) : Prop := f.sign = true → f.magnitude ≠ 0

theorem compare_doubleOrderKey {f g : Binary64} (left : Canonical f) (right : Canonical g) :
    compare (doubleOrderKey f).toNat (doubleOrderKey g).toNat = compare f.scaled g.scaled := by
  have order := Binary64.weight_strictMono
  have fBound := f.magnitude_lt
  have gBound := g.magnitude_lt
  have positive (m : Nat) (nonzero : m ≠ 0) : 0 < Binary64.weight m := by
    simpa using order (Nat.pos_of_ne_zero nonzero)
  rw [doubleOrderKey_toNat, doubleOrderKey_toNat, Binary64.scaled, Binary64.scaled]
  by_cases fSign : f.sign = true <;> by_cases gSign : g.sign = true
  · simp only [fSign, gSign, if_true]
    rcases lt_trichotomy f.magnitude g.magnitude with less | same | more
    · have := order less
      rw [compare_gt_iff_gt.mpr (by omega), compare_gt_iff_gt.mpr (by omega)]
    · rw [same, compare_eq_iff_eq.mpr rfl, compare_eq_iff_eq.mpr rfl]
    · have := order more
      rw [compare_lt_iff_lt.mpr (by omega), compare_lt_iff_lt.mpr (by omega)]
  · have := positive _ (left fSign)
    rw [if_pos fSign, if_neg gSign, if_pos fSign, if_neg gSign,
      compare_lt_iff_lt.mpr (by omega), compare_lt_iff_lt.mpr (by omega)]
  · have := positive _ (right gSign)
    rw [if_neg fSign, if_pos gSign, if_neg fSign, if_pos gSign,
      compare_gt_iff_gt.mpr (by omega), compare_gt_iff_gt.mpr (by omega)]
  · rw [if_neg fSign, if_neg gSign, if_neg fSign, if_neg gSign]
    rcases lt_trichotomy f.magnitude g.magnitude with less | same | more
    · have := order less
      rw [compare_lt_iff_lt.mpr (by omega), compare_lt_iff_lt.mpr (by omega)]
    · rw [same, compare_eq_iff_eq.mpr rfl, compare_eq_iff_eq.mpr rfl]
    · have := order more
      rw [compare_gt_iff_gt.mpr (by omega), compare_gt_iff_gt.mpr (by omega)]

/-- A number is the greatest double below it plus a short integral distance. -/
structure Bucket (value : Int) (floor : Binary64) (delta : Nat) : Prop where
  number : floor.isNaN = false
  canonical : Canonical floor
  sum : value = floor.scaled + delta * Binary64.unit
  short : delta < 2 ^ 16
  greatest : ∀ g : Binary64, g.isNaN = false → g.scaled ≤ value → g.scaled ≤ floor.scaled

theorem Bucket.floor_le {value : Int} {floor : Binary64} {delta : Nat}
    (bucket : Bucket value floor delta) : floor.scaled ≤ value := by
  rw [bucket.sum]
  have nonnegative : 0 ≤ (delta : Int) * Binary64.unit :=
    Int.mul_nonneg (Int.natCast_nonneg _) Binary64.unit_pos.le
  omega

/-- Bucket floors decide the order of two numbers, and distances decide inside
one bucket. -/
theorem Bucket.compare_eq {x y : Int} {f g : Binary64} {d e : Nat}
    (left : Bucket x f d) (right : Bucket y g e) :
    (compare f.scaled g.scaled).then (compare d e) = compare x y := by
  rcases lt_trichotomy f.scaled g.scaled with less | same | more
  · have below : x < y := by
      by_contra reached
      have := left.greatest g right.number (right.floor_le.trans (not_lt.mp reached))
      omega
    rw [compare_lt_iff_lt.mpr less, compare_lt_iff_lt.mpr below]
    rfl
  · rw [compare_eq_iff_eq.mpr same, left.sum, right.sum, same]
    have positive := Binary64.unit_pos
    rcases lt_trichotomy d e with less | equal | more
    · have scaledLess : (d : Int) * Binary64.unit < e * Binary64.unit :=
        Int.mul_lt_mul_of_pos_right (by exact_mod_cast less) positive
      rw [compare_lt_iff_lt.mpr less, compare_lt_iff_lt.mpr (by omega)]
      rfl
    · rw [equal, compare_eq_iff_eq.mpr rfl, compare_eq_iff_eq.mpr rfl]
      rfl
    · have scaledMore : (e : Int) * Binary64.unit < d * Binary64.unit :=
        Int.mul_lt_mul_of_pos_right (by exact_mod_cast more) positive
      rw [compare_gt_iff_gt.mpr more, compare_gt_iff_gt.mpr (by omega)]
      rfl
  · have above : y < x := by
      by_contra reached
      have := right.greatest f left.number (left.floor_le.trans (not_lt.mp reached))
      omega
    rw [compare_gt_iff_gt.mpr more, compare_gt_iff_gt.mpr above]
    rfl

theorem compare_encodeNumber {x y : Int} {f g : Binary64} {d e : Nat}
    (left : Bucket x f d) (right : Bucket y g e) :
    List.compareLex compare (encodeNumber (doubleOrderKey f) d)
      (encodeNumber (doubleOrderKey g) e) = compare x y := by
  have sameLength (x y : List UInt8) (length : x.length = y.length) : x <+: y → x = y :=
    fun part => part.eq_of_length length
  have tag : compare (1 : UInt8) 1 = .eq := by decide
  rw [encodeNumber, encodeNumber, List.compareLex_cons_cons, tag, Ordering.eq_then,
    compareLex_append _ _ _ _ (sameLength _ _ (by simp)) (sameLength _ _ (by simp)),
    compareLex_bigEndian, compareLex_bigEndian,
    show 256 ^ 8 = 2 ^ 64 by norm_num, show 256 ^ 2 = 2 ^ 16 by norm_num,
    Nat.mod_eq_of_lt (doubleOrderKey f).toNat_lt, Nat.mod_eq_of_lt (doubleOrderKey g).toNat_lt,
    compare_doubleOrderKey left.canonical right.canonical,
    Nat.mod_eq_of_lt left.short, Nat.mod_eq_of_lt right.short]
  exact left.compare_eq right

theorem scaled_addZero (f : Binary64) : f.addZero.scaled = f.scaled := by
  unfold Binary64.addZero
  split
  · rename_i zero
    have vanishes : f.scaled = 0 := by
      simp [Binary64.scaled, zero]
    rw [vanishes]
    decide
  · rfl

theorem canonical_addZero (f : Binary64) : Canonical f.addZero := by
  unfold Binary64.addZero
  split
  · exact fun negative => absurd negative (by decide)
  · rename_i nonzero
    exact fun _ => nonzero

theorem bucket_real {f : Binary64} (number : f.isNaN = false) : Bucket f.scaled f.addZero 0 where
  number := by
    unfold Binary64.addZero
    split
    · decide
    · exact number
  canonical := canonical_addZero f
  sum := by simp [scaled_addZero]
  short := by decide
  greatest g _ below := by rwa [scaled_addZero]

theorem asI128_integral {f : Binary64} {k : Int} (number : f.isNaN = false)
    (value : f.scaled = k * Binary64.unit) (small : k.natAbs ≤ 2 ^ 64) : asI128 f = k := by
  rw [asI128, Binary64.toIntSat, Binary64.truncate_integral number value]
  omega

/-- One step of the bit pattern away from zero, or toward it. -/
theorem stepUp_parts {f : Binary64} (room : f.magnitude + 1 < 2 ^ 63) :
    (⟨f.bits + 1⟩ : Binary64).magnitude = f.magnitude + 1 ∧
      (⟨f.bits + 1⟩ : Binary64).sign = f.sign := by
  have parts := f.bits_toNat
  have word : f.bits + 1 = UInt64.ofNat ((if f.sign then 2 ^ 63 else 0) + (f.magnitude + 1)) := by
    apply UInt64.toNat_inj.mp
    rw [UInt64.toNat_add, parts, UInt64.toNat_ofNat', show (1 : UInt64).toNat = 1 from rfl,
      Nat.add_assoc]
  rw [word]
  exact Binary64.ofParts _ _ room

theorem stepDown_parts {f : Binary64} (room : f.magnitude ≠ 0) :
    (⟨f.bits - 1⟩ : Binary64).magnitude = f.magnitude - 1 ∧
      (⟨f.bits - 1⟩ : Binary64).sign = f.sign := by
  have parts := f.bits_toNat
  have bound := f.magnitude_lt
  have limit := f.bits.toNat_lt
  have word : f.bits - 1 = UInt64.ofNat ((if f.sign then 2 ^ 63 else 0) + (f.magnitude - 1)) := by
    apply UInt64.toNat_inj.mp
    rw [UInt64.toNat_sub, UInt64.toNat_ofNat', show (1 : UInt64).toNat = 1 from rfl]
    omega
  rw [word]
  exact Binary64.ofParts _ _ (by omega)

/-- Integers keep an integral bucket floor at a distance of at most `2^11`. -/
structure IntegralFloor (i : Int64) (f : Binary64) (k : Int) : Prop where
  number : f.isNaN = false
  canonical : Canonical f
  value : f.scaled = k * Binary64.unit
  below : k ≤ i.toInt
  near : i.toInt ≤ k + 2 ^ 11
  greatest : ∀ g : Binary64, g.isNaN = false → g.scaled ≤ exact i → g.scaled ≤ f.scaled

theorem bucketFloor_kept {i : Int64} {k : Int} (small : k.natAbs ≤ 2 ^ 64)
    (value : (asF64 i).scaled = k * Binary64.unit) (below : k ≤ i.toInt) :
    bucketFloor i = asF64 i := by
  have number : (asF64 i).isNaN = false := Binary64.isNaN_ofInt (natAbs_le i)
  rw [bucketFloor, asI128_integral number value small, if_neg (not_lt.mpr below)]

theorem bucketFloor_stepped {i : Int64} {k : Int} (small : k.natAbs ≤ 2 ^ 64)
    (value : (asF64 i).scaled = k * Binary64.unit) (above : i.toInt < k) :
    bucketFloor i = if 0 < k then ⟨(asF64 i).bits - 1⟩ else ⟨(asF64 i).bits + 1⟩ := by
  have number : (asF64 i).isNaN = false := Binary64.isNaN_ofInt (natAbs_le i)
  have zero : (⟨0⟩ : Binary64).scaled = 0 := by decide
  have positive : Binary64.lt ⟨0⟩ (asF64 i) = true ↔ 0 < k := by
    rw [Binary64.lt_iff (by decide) number, value, zero]
    exact mul_pos_iff_of_pos_right Binary64.unit_pos
  rw [bucketFloor, asI128_integral number value small, if_pos above]
  simp only [positive]

section Enclosed

variable {i : Int64} {low high : Nat} (least : 2 ^ 52 ≤ i.toInt.natAbs)
  (here : Binary64.weight (Binary64.floorNat i.toInt.natAbs) = low * Binary64.unit)
  (next : Binary64.weight (Binary64.floorNat i.toInt.natAbs + 1) = high * Binary64.unit)
  (below : low < i.toInt.natAbs) (above : i.toInt.natAbs < high) (near : high ≤ low + 2 ^ 11)

include least here next below above near

/-- A positive integer between two doubles has the lower one as its floor. -/
theorem integralFloor_positive {f : Binary64} (nonnegative : 0 ≤ i.toInt)
    (magnitude : f.magnitude = Binary64.floorNat i.toInt.natAbs) (sign : f.sign = false) :
    IntegralFloor i f low where
  number := by
    have bounds := Binary64.floorNat_bounds _ (by omega) (natAbs_le i)
    simp only [Binary64.isNaN, magnitude, decide_eq_false_iff_not]
    omega
  canonical := by simp [Canonical, sign]
  value := by simp [Binary64.scaled, sign, magnitude, here]
  below := by omega
  near := by omega
  greatest g _ atMost := by
    have strict : g.scaled < Binary64.weight (Binary64.floorNat i.toInt.natAbs + 1) := by
      refine lt_of_le_of_lt atMost ?_
      rw [next, exact, Nat.cast_mul]
      exact Int.mul_lt_mul_of_pos_right (by omega) Binary64.unit_pos
    have bounded := Binary64.scaled_le_weight strict
    simpa [Binary64.scaled, sign, magnitude] using bounded

/-- A negative integer between two doubles has the greater magnitude as its
floor. -/
theorem integralFloor_negative {f : Binary64} (negative : i.toInt < 0)
    (magnitude : f.magnitude = Binary64.floorNat i.toInt.natAbs + 1) (sign : f.sign = true) :
    IntegralFloor i f (-high) where
  number := by
    have bounds := Binary64.floorNat_bounds _ (by omega) (natAbs_le i)
    simp only [Binary64.isNaN, magnitude, decide_eq_false_iff_not]
    omega
  canonical := by simp [Canonical, magnitude]
  value := by simp [Binary64.scaled, sign, magnitude, next]
  below := by omega
  near := by omega
  greatest g _ atMost := by
    have strict : g.scaled < -(Binary64.weight (Binary64.floorNat i.toInt.natAbs) : Int) := by
      refine lt_of_le_of_lt atMost ?_
      rw [here, exact, Nat.cast_mul, ← Int.neg_mul]
      exact Int.mul_lt_mul_of_pos_right (by omega) Binary64.unit_pos
    have bounded := Binary64.scaled_le_neg_weight strict
    simpa [Binary64.scaled, sign, magnitude] using bounded

end Enclosed

theorem integralFloor_exact {i : Int64} (value : (asF64 i).scaled = i.toInt * Binary64.unit) :
    IntegralFloor i (asF64 i) i.toInt where
  number := Binary64.isNaN_ofInt (natAbs_le i)
  canonical := by
    intro sign zero
    have negative : i.toInt < 0 := by
      simpa [asF64, Binary64.sign_ofInt (natAbs_le i)] using sign
    have vanishes : (asF64 i).scaled = 0 := by simp [Binary64.scaled, zero]
    rw [vanishes] at value
    have := Int.mul_neg_of_neg_of_pos negative Binary64.unit_pos
    omega
  value := value
  below := le_rfl
  near := by omega
  greatest g _ atMost := by rwa [value]

theorem bucketFloor_integral (i : Int64) : ∃ k, IntegralFloor i (bucketFloor i) k := by
  have bound := natAbs_le i
  have magnitude : (asF64 i).magnitude = Binary64.roundNat i.toInt.natAbs :=
    Binary64.magnitude_ofInt bound
  have sign : (asF64 i).sign = decide (i.toInt < 0) := Binary64.sign_ofInt bound
  have represented (exact : Binary64.weight (Binary64.roundNat i.toInt.natAbs) =
      i.toInt.natAbs * Binary64.unit) : ∃ k, IntegralFloor i (bucketFloor i) k := by
    have value : (asF64 i).scaled = i.toInt * Binary64.unit :=
      Binary64.scaled_ofInt_of_represented (f := asF64 i) bound (by rw [magnitude, exact])
    rw [bucketFloor_kept (by omega) value le_rfl]
    exact ⟨_, integralFloor_exact value⟩
  by_cases zero : i.toInt.natAbs = 0
  · exact represented (by rw [zero]; simp [Binary64.roundNat])
  rcases Binary64.roundNat_enclosed _ zero bound with
    exact | ⟨low, high, here, next, least, below, above, near, rounded⟩
  · exact represented exact
  by_cases negative : i.toInt < 0
  · have isNegative : (asF64 i).sign = true := by simpa [sign] using negative
    rcases rounded with down | up
    · have value : (asF64 i).scaled = (-low : Int) * Binary64.unit := by
        simp [Binary64.scaled, isNegative, magnitude, down, here]
      have bounds := Binary64.floorNat_bounds _ zero bound
      obtain ⟨stepMagnitude, stepSign⟩ := stepUp_parts (f := asF64 i) (by omega)
      rw [bucketFloor_stepped (by omega) value (by omega), if_neg (by omega)]
      exact ⟨_, integralFloor_negative least here next below above near negative
        (by rw [stepMagnitude, magnitude, down]) (by rw [stepSign, isNegative])⟩
    · have value : (asF64 i).scaled = (-high : Int) * Binary64.unit := by
        simp [Binary64.scaled, isNegative, magnitude, up, next]
      rw [bucketFloor_kept (by omega) value (by omega)]
      exact ⟨_, integralFloor_negative least here next below above near negative
        (by rw [magnitude, up]) isNegative⟩
  · have isPositive : (asF64 i).sign = false := by simpa [sign] using negative
    rcases rounded with down | up
    · have value : (asF64 i).scaled = (low : Int) * Binary64.unit := by
        simp [Binary64.scaled, isPositive, magnitude, down, here]
      rw [bucketFloor_kept (by omega) value (by omega)]
      exact ⟨_, integralFloor_positive least here next below above near (not_lt.mp negative)
        (by rw [magnitude, down]) isPositive⟩
    · have value : (asF64 i).scaled = (high : Int) * Binary64.unit := by
        simp [Binary64.scaled, isPositive, magnitude, up, next]
      obtain ⟨stepMagnitude, stepSign⟩ := stepDown_parts (f := asF64 i) (by omega)
      rw [bucketFloor_stepped (by omega) value (by omega), if_pos (by omega)]
      exact ⟨_, integralFloor_positive least here next below above near (not_lt.mp negative)
        (by rw [stepMagnitude, magnitude, up, Nat.add_sub_cancel]) (by rw [stepSign, isPositive])⟩

theorem bucket_integer (i : Int64) : Bucket (exact i) (bucketFloor i) (bucketDelta i) := by
  obtain ⟨k, floor⟩ := bucketFloor_integral i
  have bound := natAbs_le i
  have below := floor.below
  have near := floor.near
  have cast : asI128 (bucketFloor i) = k := asI128_integral floor.number floor.value (by omega)
  have distance : (bucketDelta i : Int) = i.toInt - k := by
    rw [bucketDelta, cast]
    omega
  exact {
    number := floor.number
    canonical := floor.canonical
    sum := by rw [floor.value, distance, exact]; ring
    short := by omega
    greatest := floor.greatest }

theorem compare_zero_byte {b : UInt8} (nonzero : b ≠ 0) :
    compare 0 b = .lt ∧ compare b 0 = .gt := by
  have positive : 0 < b.toNat := Nat.pos_of_ne_zero fun zero => nonzero (UInt8.toNat_inj.mp zero)
  have zeroByte : (0 : UInt8).toNat = 0 := rfl
  constructor
  · simp only [compare, compareOfLessAndEq, UInt8.lt_iff_toNat_lt, zeroByte, positive, if_true]
  · simp only [compare, compareOfLessAndEq, UInt8.lt_iff_toNat_lt, zeroByte, Nat.not_lt_zero,
      if_false, nonzero]

theorem escapeOrderBytes_cons (b : UInt8) (rest : List UInt8) :
    escapeOrderBytes (b :: rest) =
      if b = 0 then 0 :: 1 :: escapeOrderBytes rest else b :: escapeOrderBytes rest := by
  by_cases zero : b = 0 <;> simp [escapeOrderBytes, zero]

/-- Terminated escaped bodies compare as the bodies: inside a body a zero byte
continues with `01`, after it with `00`. -/
theorem compareLex_escape (a b : List UInt8) :
    List.compareLex compare (escapeOrderBytes a ++ [0, 0]) (escapeOrderBytes b ++ [0, 0]) =
      List.compareLex compare a b := by
  induction a generalizing b with
  | nil =>
    cases b with
    | nil => decide
    | cons y more =>
      rw [escapeOrderBytes_cons, List.compareLex_nil_cons]
      by_cases zero : y = 0
      · simp only [zero, if_true]
        rfl
      · simp [zero, escapeOrderBytes, List.compareLex_cons_cons, (compare_zero_byte zero).1]
  | cons x rest ih =>
    cases b with
    | nil =>
      rw [escapeOrderBytes_cons, List.compareLex_cons_nil]
      by_cases zero : x = 0
      · simp only [zero, if_true]
        rfl
      · simp [zero, escapeOrderBytes, List.compareLex_cons_cons, (compare_zero_byte zero).2]
    | cons y more =>
      rw [escapeOrderBytes_cons, escapeOrderBytes_cons, List.compareLex_cons_cons]
      by_cases xZero : x = 0 <;> by_cases yZero : y = 0
      · simp [xZero, yZero, List.compareLex_cons_cons, ih]
      · simp [xZero, yZero, List.compareLex_cons_cons, (compare_zero_byte yZero).1]
      · simp [xZero, yZero, List.compareLex_cons_cons, (compare_zero_byte xZero).2]
      · simp [xZero, yZero, List.compareLex_cons_cons, ih]

theorem eq_of_prefix_escape (a b : List UInt8)
    (part : escapeOrderBytes a ++ [0, 0] <+: escapeOrderBytes b ++ [0, 0]) : a = b := by
  induction a generalizing b with
  | nil =>
    cases b with
    | nil => rfl
    | cons y more =>
      rw [escapeOrderBytes_cons] at part
      by_cases zero : y = 0 <;> simp [zero, escapeOrderBytes, List.cons_prefix_cons] at part
      exact absurd part.1.symm zero
  | cons x rest ih =>
    cases b with
    | nil =>
      rw [escapeOrderBytes_cons] at part
      by_cases zero : x = 0 <;> simp [zero, escapeOrderBytes, List.cons_prefix_cons] at part
    | cons y more =>
      rw [escapeOrderBytes_cons, escapeOrderBytes_cons] at part
      by_cases xZero : x = 0 <;> by_cases yZero : y = 0 <;>
        simp only [xZero, yZero, if_true, if_false, List.cons_append, List.cons_prefix_cons] at part
      · rw [xZero, yZero, ih more part.2.2]
      · exact absurd part.1.symm yZero
      · exact part.1.elim
      · rw [part.1, ih more part.2]

theorem encodeNumber_length (key : UInt64) (delta : Nat) : (encodeNumber key delta).length = 11 := by
  simp [encodeNumber]

/-- No order key is a proper prefix of another one, NaN keys included. -/
theorem prefixFree_encodeOrderKey : PrefixFree Value.encodeOrderKey := by
  intro v w part
  have sameLength (k k' : UInt64) (d d' : Nat)
      (numbers : encodeNumber k d <+: encodeNumber k' d') : encodeNumber k d = encodeNumber k' d' :=
    numbers.eq_of_length (by rw [encodeNumber_length, encodeNumber_length])
  cases v <;> cases w <;> simp only [Value.encodeOrderKey] at part ⊢
  case text.text a b =>
    rw [eq_of_prefix_escape a b ((List.prefix_cons_inj 2).mp part)]
  case blob.blob a b =>
    rw [eq_of_prefix_escape a b ((List.prefix_cons_inj 3).mp part)]
  all_goals first
    | exact sameLength _ _ _ _ part
    | exact absurd part (by simp [encodeNumber, List.cons_prefix_cons])

theorem compare_exact (i j : Int64) : compare (exact i) (exact j) = compare i.toInt j.toInt := by
  have positive := Binary64.unit_pos
  unfold exact
  rcases lt_trichotomy i.toInt j.toInt with less | same | more
  · rw [compare_lt_iff_lt.mpr less,
      compare_lt_iff_lt.mpr (Int.mul_lt_mul_of_pos_right less positive)]
  · rw [same, compare_eq_iff_eq.mpr rfl, compare_eq_iff_eq.mpr rfl]
  · rw [compare_gt_iff_gt.mpr more,
      compare_gt_iff_gt.mpr (Int.mul_lt_mul_of_pos_right more positive)]

theorem numClass_real {r : Binary64} (number : r.isNaN = false) : (Value.real r).numClass = 1 := by
  simp [Value.numClass, number]

/-- The key order of two values is their SQL order. -/
theorem compare_encodeOrderKey (v w : Value) (left : v.isNaN = false) (right : w.isNaN = false) :
    List.compareLex compare v.encodeOrderKey w.encodeOrderKey = v.cmp w := by
  have tagLess (a b : List UInt8) (x y : UInt8) (less : compare x y = .lt) :
      List.compareLex compare (x :: a) (y :: b) = .lt := by
    rw [List.compareLex_cons_cons, less]
    rfl
  have tagMore (a b : List UInt8) (x y : UInt8) (more : compare x y = .gt) :
      List.compareLex compare (x :: a) (y :: b) = .gt := by
    rw [List.compareLex_cons_cons, more]
    rfl
  cases v <;> cases w <;> simp only [Value.encodeOrderKey, Value.cmp, Value.isNaN] at left right ⊢
  case null.null => decide
  case integer.integer i j =>
    rw [compare_encodeNumber (bucket_integer i) (bucket_integer j), compare_exact]
  case integer.real i r =>
    rw [compare_encodeNumber (bucket_integer i) (bucket_real right), intFloatCompare_eq i right,
      numClass_real right]
    rfl
  case real.integer r i =>
    rw [compare_encodeNumber (bucket_real left) (bucket_integer i), intFloatCompare_eq i left,
      numClass_real left, ← Std.OrientedCmp.eq_swap]
    rfl
  case real.real r s =>
    rw [compare_encodeNumber (bucket_real left) (bucket_real right), numClass_real left,
      numClass_real right, Binary64.partialCmp_of_number left right]
    rfl
  case text.text a b =>
    rw [List.compareLex_cons_cons, compareLex_escape]
    rfl
  case blob.blob a b =>
    rw [List.compareLex_cons_cons, compareLex_escape]
    rfl
  all_goals first
    | exact tagLess _ _ _ _ (by decide)
    | exact tagMore _ _ _ _ (by decide)

/-- Composite index keys are ordered, and told apart, exactly as the rows they
encode, and no key of a single value runs on into another one. -/
theorem encodeRowKey_order (a b : List Value) (length : a.length = b.length)
    (left : ∀ v ∈ a, v.isNaN = false) (right : ∀ v ∈ b, v.isNaN = false) :
    List.compareLex compare (encodeRowKey a) (encodeRowKey b) = List.compareLex Value.cmp a b ∧
      (encodeRowKey a = encodeRowKey b ↔ List.Forall₂ (fun v w => v.cmp w = .eq) a b) ∧
      ∀ v w : Value, v.encodeOrderKey <+: w.encodeOrderKey → v.encodeOrderKey = w.encodeOrderKey := by
  have order : List.compareLex compare (encodeRowKey a) (encodeRowKey b) =
      List.compareLex Value.cmp a b := by
    rw [encodeRowKey_eq, encodeRowKey_eq]
    exact compareLex_flatMap (fun v => v.isNaN = false) prefixFree_encodeOrderKey
      compare_encodeOrderKey a b length left right
  refine ⟨order, ?_, prefixFree_encodeOrderKey⟩
  rw [← compareLex_eq_forall₂ a b length, ← order, compareLex_eq_iff]

/-- The integer `2^53 + 1` is ordered above the double `2^53` it rounds to. -/
theorem encodeRowKey_order_rounded :
    List.compareLex compare (encodeRowKey [.integer 9007199254740993, .text []])
      (encodeRowKey [.real ⟨0x4340000000000000⟩, .text [0]]) = .gt := by
  have order := (encodeRowKey_order [.integer 9007199254740993, .text []]
    [.real ⟨0x4340000000000000⟩, .text [0]] rfl (by decide) (by decide)).1
  rw [order]
  decide +kernel

end RustSql.Types
