import RustSql.Executor.Evaluate
import RustSql.Types.NumericText
import RustSql.Types.OrderKey
import RustSql.Types.RowCodec

/-! Column affinity, and the values of a column read back from their order keys. -/

namespace RustSql.Executor

open RustSql.Foundation RustSql.Types

def realStored (f : Binary64) : Binary64 := if sameNumber f ⟨0⟩ then ⟨0⟩ else f

def numericTextAffinity (s : List UInt8) : Value :=
  match applyNumericAffinity s with
  | some (.integer i) => .integer i
  | some (.real f) => .real (realStored f)
  | none => .text s

def isFinite (f : Binary64) : Bool := decide (f.magnitude < 2047 * 2 ^ 52)

def realAbs (f : Binary64) : Binary64 := ⟨UInt64.ofNat f.magnitude⟩

def numericRealAffinity (f : Binary64) : Value :=
  let i := Int64.ofInt (asI64 f)
  if isFinite f ∧ i ≠ Int64.minValue ∧ sameNumber f (asF64 i) ∧ (realAbs f).lt twoPow63 then
    .integer i
  else .real f

/-- `i.to_string()`. -/
def decimalText (i : Int64) : List UInt8 :=
  (toString i.toInt).toList.map fun c => UInt8.ofNat c.toNat

/-- `Affinity::coerce`, for any rendering of doubles as texts. -/
def Affinity.coerce (formatReal : Binary64 → List UInt8) : Affinity → Value → Value
  | .integer, .integer i => .integer i
  | .integer, .real f => numericRealAffinity f
  | .integer, .text s => numericTextAffinity s
  | .integer, .blob b => .blob b
  | .integer, .null => .null
  | .real, .integer i => .real (asF64 i)
  | .real, .real f => .real (realStored f)
  | .real, .text s =>
    match applyNumericAffinity s with
    | some (.integer i) => .real (asF64 i)
    | some (.real f) => .real (realStored f)
    | .none => .text s
  | .real, .blob b => .blob b
  | .real, .null => .null
  | .text, .integer i => .text (decimalText i)
  | .text, .real f => .text (formatReal f)
  | .text, .text s => .text s
  | .text, .blob b => .blob b
  | .text, .null => .null
  | .numeric, .integer i => .integer i
  | .numeric, .real f => numericRealAffinity f
  | .numeric, .text s => numericTextAffinity s
  | .numeric, v => v
  | _, v => v

def fromBigEndian (bytes : List UInt8) : Nat := bytes.foldl (fun n b => n * 256 + b.toNat) 0

/-- The escaped payload; a zero at its end is followed by the terminator's. -/
def unescapePayload : List UInt8 → Option (List UInt8)
  | [] => some []
  | 0 :: 1 :: rest => (unescapePayload rest).map (0 :: ·)
  | 0 :: _ => none
  | b :: rest => (unescapePayload rest).map (b :: ·)

def unescape (body : List UInt8) : Option (List UInt8) :=
  if body.length < 2 then none
  else if body.drop (body.length - 2) ≠ [0, 0] then none
  else unescapePayload (body.take (body.length - 2))

/-- `lo.fract() == 0.0`. -/
def fractIsZero (f : Binary64) : Bool :=
  isFinite f && decide (f.scaled = f.truncate * Binary64.unit)

def decodeNumber (lo : Binary64) (delta : Nat) : Affinity → Option Value
  | .integer | .numeric =>
    if delta ≠ 0 then
      let v := asI128 lo + delta
      if -2 ^ 63 ≤ v ∧ v < 2 ^ 63 then some (.integer (Int64.ofInt v)) else none
    else if fractIsZero lo ∧ negTwoPow63.le lo ∧ lo.lt twoPow63 then
      some (.integer (Int64.ofInt (asI64 lo)))
    else some (.real lo)
  | .real =>
    if delta = 0 ∧ sameNumber lo ⟨0⟩ = false ∧ lo.isNaN = false then some (.real lo) else none
  | _ => none

/-- The bits of the double behind a key word. -/
def orderKeyBits (k : UInt64) : UInt64 :=
  if k >>> 63 == 1 then k &&& ~~~0x8000000000000000 else ~~~k

def decodeOrderKeyValue (seg : List UInt8) (aff : Affinity) : Option Value :=
  match seg with
  | [] => none
  | tag :: body =>
    if tag = 0 ∧ body.length = 0 then some .null
    else if tag = 2 then (unescape body).map .text
    else if tag = 3 then (unescape body).map .blob
    else if tag = 1 ∧ body.length = 10 then
      let k := UInt64.ofNat (fromBigEndian (body.take 8))
      decodeNumber ⟨orderKeyBits k⟩ (fromBigEndian (body.drop 8)) aff
    else none

theorem fromBigEndian_bigEndian (width n : Nat) :
    fromBigEndian (bigEndian width n) = n % 256 ^ width := by
  have general (start : Nat) : (bigEndian width n).foldl (fun n b => n * 256 + b.toNat) start =
      start * 256 ^ width + n % 256 ^ width := by
    induction width generalizing start with
    | zero => simp [bigEndian, Nat.mod_one]
    | succ width ih =>
      have digits : n % 256 ^ (width + 1) =
          n % 256 ^ width + 256 ^ width * (n / 256 ^ width % 256) := by
        rw [pow_succ]
        exact Nat.mod_mul
      rw [bigEndian, List.foldl_cons, ih, UInt8.toNat_ofNat', digits]
      ring
  rw [fromBigEndian, general, Nat.zero_mul, Nat.zero_add]

theorem orderKeyBits_doubleOrderKey (f : Binary64) : orderKeyBits (doubleOrderKey f) = f.bits := by
  have word := doubleOrderKey_toNat f
  have bound := f.magnitude_lt
  have parts := f.bits_toNat
  have top := Binary64.sign_iff ⟨doubleOrderKey f⟩
  change (doubleOrderKey f >>> 63 == 1) = true ↔ 2 ^ 63 ≤ (doubleOrderKey f).toNat at top
  rw [orderKeyBits]
  apply UInt64.toNat_inj.mp
  by_cases negative : f.sign = true
  · rw [if_pos negative] at word parts
    rw [if_neg (by rw [top]; omega), UInt64.toNat_not, word, parts, UInt64.size]
    omega
  · rw [if_neg negative] at word parts
    have mask : (~~~(0x8000000000000000 : UInt64)).toNat = 2 ^ 63 - 1 := by decide
    rw [if_pos (by rw [top]; omega), UInt64.toNat_and, mask, Nat.and_two_pow_sub_one_eq_mod, word,
      parts]
    omega

theorem decodeOrderKeyValue_number (f : Binary64) {delta : Nat} (short : delta < 2 ^ 16)
    (aff : Affinity) :
    decodeOrderKeyValue (encodeNumber (doubleOrderKey f) delta) aff = decodeNumber f delta aff := by
  have word := (doubleOrderKey f).toNat_lt
  have key : fromBigEndian (bigEndian 8 (doubleOrderKey f).toNat) = (doubleOrderKey f).toNat := by
    rw [fromBigEndian_bigEndian]
    exact Nat.mod_eq_of_lt (by omega)
  have rest : fromBigEndian (bigEndian 2 delta) = delta := by
    rw [fromBigEndian_bigEndian]
    exact Nat.mod_eq_of_lt (by omega)
  rw [encodeNumber, decodeOrderKeyValue]
  simp only [List.length_append, bigEndian_length]
  rw [if_neg (by decide), if_neg (by decide), if_neg (by decide), if_pos (by decide),
    List.take_left' (bigEndian_length 8 _), List.drop_left' (bigEndian_length 8 _), key, rest,
    UInt64.ofNat_toNat, orderKeyBits_doubleOrderKey]

theorem unescapePayload_escape (bytes : List UInt8) :
    unescapePayload (escapeOrderBytes bytes) = some bytes := by
  induction bytes with
  | nil => rfl
  | cons b bytes ih =>
    rw [escapeOrderBytes_cons]
    by_cases zero : b = 0
    · rw [if_pos zero, unescapePayload, ih, zero]
      rfl
    · rw [if_neg zero, unescapePayload, ih]
      · rfl
      · exact fun _ bad _ => zero bad
      · exact fun bad => zero bad

theorem unescape_escape (bytes : List UInt8) :
    unescape (escapeOrderBytes bytes ++ [0, 0]) = some bytes := by
  rw [unescape, List.length_append, List.length_cons, List.length_singleton,
    Nat.add_sub_cancel, List.drop_left, List.take_left, if_neg (by omega), if_neg (by simp)]
  exact unescapePayload_escape bytes

section Numeric

variable {f : Binary64} {aff : Affinity} (numeric : aff = .integer ∨ aff = .numeric)

include numeric

/-- Keys of integral doubles are read as integers, the least one included. -/
theorem decodeNumber_integral {k : Int} (number : f.isNaN = false)
    (value : f.scaled = k * Binary64.unit) (low : -2 ^ 63 ≤ k) (high : k < 2 ^ 63) :
    decodeNumber f 0 aff = some (.integer (Int64.ofInt k)) := by
  have least : negTwoPow63.le f = true := by
    rw [Binary64.le_iff (by decide) number, scaled_negTwoPow63, value]
    exact Int.mul_le_mul_of_nonneg_right low Binary64.unit_pos.le
  have most : f.lt twoPow63 = true := by
    rw [Binary64.lt_iff number (by decide), scaled_twoPow63, value]
    exact Int.mul_lt_mul_of_pos_right high Binary64.unit_pos
  have whole : fractIsZero f = true := by
    rw [fractIsZero, isFinite, decide_eq_true (finite_integral value low high),
      Binary64.truncate_integral number value, Bool.true_and, decide_eq_true_iff]
    exact value
  have read : decodeNumber f 0 .numeric = some (.integer (Int64.ofInt k)) := by
    rw [decodeNumber, if_neg (by decide), if_pos ⟨whole, least, most⟩,
      asI64_integral number value low high]
  rcases numeric with rfl | rfl
  · exact read
  · exact read

theorem decodeNumber_kept (number : f.isNaN = false) (stays : Unsqueezed f)
    (other : f ≠ negTwoPow63) : decodeNumber f 0 aff = some (.real f) := by
  have read : decodeNumber f 0 .numeric = some (.real f) := by
    rw [decodeNumber, if_neg (by decide), if_neg]
    rintro ⟨whole, least, most⟩
    rw [fractIsZero, Bool.and_eq_true, decide_eq_true_iff] at whole
    rw [Binary64.le_iff (by decide) number, scaled_negTwoPow63, whole.2] at least
    rw [Binary64.lt_iff number (by decide), scaled_twoPow63, whole.2] at most
    have low := Int.le_of_mul_le_mul_right least Binary64.unit_pos
    have high := Int.lt_of_mul_lt_mul_right most Binary64.unit_pos.le
    rcases Int.lt_or_eq_of_le low with inside | edge
    · exact stays _ inside high whole.2
    · have value : f.scaled = negTwoPow63.scaled := by rw [whole.2, ← edge, scaled_negTwoPow63]
      exact other (eq_of_scaled value (by decide))
  rcases numeric with rfl | rfl
  · exact read
  · exact read

theorem decodeNumber_integer (i : Int64) :
    decodeNumber (bucketFloor i) (bucketDelta i) aff = some (.integer i) := by
  obtain ⟨k, floor⟩ := bucketFloor_integral i
  have below := floor.below
  have near := floor.near
  have low := i.le_toInt
  have high := i.toInt_lt
  have cast : asI128 (bucketFloor i) = k := asI128_integral floor.number floor.value (by omega)
  have distance : (bucketDelta i : Int) = i.toInt - k := by
    rw [bucketDelta, cast]
    omega
  by_cases same : bucketDelta i = 0
  · have equal : k = i.toInt := by omega
    rw [same, decodeNumber_integral numeric floor.number floor.value (by omega) (by omega), equal,
      Int64.ofInt_toInt]
  · have sum : asI128 (bucketFloor i) + bucketDelta i = i.toInt := by omega
    have read : decodeNumber (bucketFloor i) (bucketDelta i) .numeric = some (.integer i) := by
      rw [decodeNumber, if_pos same, sum, if_pos ⟨low, high⟩, Int64.ofInt_toInt]
    rcases numeric with rfl | rfl
    · exact read
    · exact read

end Numeric

variable {f : Binary64}

theorem magnitude_unsqueezed (stays : Unsqueezed f) : f.magnitude ≠ 0 := by
  intro zero
  refine stays 0 (by decide) (by decide) ?_
  rw [Binary64.scaled, zero]
  simp

theorem realStored_unsqueezed (number : f.isNaN = false) (stays : Unsqueezed f) :
    realStored f = f := by
  rw [realStored, if_neg]
  intro zero
  rw [sameNumber, Binary64.partialCmp_of_number number (by decide), beq_iff_eq, Option.some.injEq,
    compare_eq_iff_eq] at zero
  refine stays 0 (by decide) (by decide) ?_
  rw [zero, Int.zero_mul]
  decide

theorem isNaN_realStored (number : (realStored f).isNaN = false) : f.isNaN = false := by
  unfold realStored at number
  split at number
  · rename_i zero
    by_contra nan
    rw [Bool.not_eq_false] at nan
    simp [sameNumber, Binary64.partialCmp, nan] at zero
  · exact number

theorem numericTextAffinity_real {s : List UInt8} (stored : numericTextAffinity s = .real f)
    (number : f.isNaN = false) : Unsqueezed f := by
  unfold numericTextAffinity at stored
  split at stored
  · cases stored
  · rename_i r converted
    cases stored
    have plain := isNaN_realStored number
    have stays := applyNumericAffinity_real converted plain
    rw [realStored_unsqueezed plain stays]
    exact stays
  · cases stored

theorem numericRealAffinity_real {f g : Binary64} (stored : numericRealAffinity f = .real g)
    (number : g.isNaN = false) : Unsqueezed g := by
  simp only [numericRealAffinity] at stored
  split at stored
  · cases stored
  · rename_i stays
    cases stored
    intro k low high value
    have back : (Int64.ofInt k).toInt = k := Int64.toInt_ofInt_of_le low.le high
    rw [asI64_integral number value low.le high] at stays
    refine stays ⟨?_, ?_, sameNumber_integral number value low.le high, ?_⟩
    · exact decide_eq_true (finite_integral value low.le high)
    · intro least
      rw [least] at back
      exact absurd (show Int64.minValue.toInt < k by exact low) (by omega)
    · have positive : (realAbs f).magnitude = f.magnitude ∧ (realAbs f).sign = false := by
        simpa [realAbs] using Binary64.ofParts false f.magnitude f.magnitude_lt
      have size : (realAbs f).scaled = f.scaled.natAbs := by
        rw [Binary64.scaled, positive.2, positive.1, Binary64.natAbs_scaled]
        rfl
      have plain : (realAbs f).isNaN = false := by
        rw [Binary64.isNaN, positive.1]
        exact number
      rw [Binary64.lt_iff plain (by decide), scaled_twoPow63, size, value, Int.natAbs_mul,
        Int.natAbs_natCast, Nat.cast_mul]
      exact Int.mul_lt_mul_of_pos_right (by omega) Binary64.unit_pos

variable {formatReal : Binary64 → List UInt8}

/-- What a column of a numeric affinity holds. -/
theorem coerce_numeric {aff : Affinity} {w : Value} (numeric : aff = .integer ∨ aff = .numeric)
    (stored : aff.coerce formatReal w = .real f) (number : f.isNaN = false) : Unsqueezed f := by
  rcases numeric with rfl | rfl <;> cases w with
  | null => cases stored
  | integer i => cases stored
  | real r => exact numericRealAffinity_real stored number
  | text s => exact numericTextAffinity_real stored number
  | blob b => cases stored

theorem coerce_real_text {s : List UInt8} :
    (∃ f, Affinity.real.coerce formatReal (.text s) = .real f) ∨
      Affinity.real.coerce formatReal (.text s) = .text s := by
  have coerced : Affinity.real.coerce formatReal (.text s) =
      match applyNumericAffinity s with
      | some (.integer i) => .real (asF64 i)
      | some (.real f) => .real (realStored f)
      | .none => .text s := rfl
  rw [coerced]
  match applyNumericAffinity s with
  | some (.integer i) => exact .inl ⟨_, rfl⟩
  | some (.real f) => exact .inl ⟨_, rfl⟩
  | .none => exact .inr rfl

/-- A column of the other affinities holds no integer that its decoder reads. -/
theorem coerce_real_integer {w : Value} {i : Int64} :
    Affinity.real.coerce formatReal w ≠ .integer i := by
  intro stored
  cases w with
  | null => cases stored
  | integer i => cases stored
  | real r => cases stored
  | text s =>
    rcases @coerce_real_text formatReal s with ⟨f, real⟩ | text
    · rw [real] at stored
      cases stored
    · rw [text] at stored
      cases stored
  | blob b => cases stored

theorem decodeNumber_real :
    decodeNumber f.addZero 0 .real = none ∨ decodeNumber f.addZero 0 .real = some (.real f) := by
  rw [decodeNumber]
  split
  · rename_i read
    refine .inr (congrArg (some ∘ Value.real) ?_)
    rw [Binary64.addZero]
    split
    · rename_i zero
      rw [Binary64.addZero, if_pos zero] at read
      exact absurd read.2.1 (by decide)
    · rfl
  · exact .inl rfl

/-- The key of a value is read as the value itself or not at all, and other values than numbers
always are. -/
def Recovers (aff : Affinity) (v : Value) : Prop :=
  (decodeOrderKeyValue v.encodeOrderKey aff = none ∨
    decodeOrderKeyValue v.encodeOrderKey aff = some v) ∧
  ((v = .null ∨ v.isText ∨ ∃ b, v = .blob b) → decodeOrderKeyValue v.encodeOrderKey aff = some v)

theorem decode_integerKey (i : Int64) (aff : Affinity) :
    decodeOrderKeyValue (Value.integer i).encodeOrderKey aff =
      decodeNumber (bucketFloor i) (bucketDelta i) aff :=
  decodeOrderKeyValue_number _ (bucket_integer i).short aff

theorem decode_realKey (f : Binary64) (aff : Affinity) :
    decodeOrderKeyValue (Value.real f).encodeOrderKey aff = decodeNumber f.addZero 0 aff :=
  decodeOrderKeyValue_number _ (by decide) aff

theorem plain_number {v : Value} (number : v.numClass = 1) :
    ¬ (v = .null ∨ v.isText ∨ ∃ b, v = .blob b) := by
  rintro (rfl | text | ⟨b, rfl⟩)
  · cases number
  · cases v with
    | text s => cases number
    | null => cases number
    | integer i => cases text
    | real f => cases text
    | blob b => cases text
  · cases number

theorem recovers_number {aff : Affinity} {v : Value} (number : v.numClass = 1) :
    Recovers aff v ↔ decodeOrderKeyValue v.encodeOrderKey aff = none ∨
      decodeOrderKeyValue v.encodeOrderKey aff = some v :=
  and_iff_left fun other => absurd other (plain_number number)

theorem recovers_read {aff : Affinity} {v : Value}
    (read : decodeOrderKeyValue v.encodeOrderKey aff = some v) : Recovers aff v :=
  ⟨.inr read, fun _ => read⟩

theorem recovers_text (aff : Affinity) (s : List UInt8) : Recovers aff (.text s) := by
  apply recovers_read
  rw [Value.encodeOrderKey, decodeOrderKeyValue]
  simp [unescape_escape]

theorem recovers_blob (aff : Affinity) (b : List UInt8) : Recovers aff (.blob b) := by
  apply recovers_read
  rw [Value.encodeOrderKey, decodeOrderKeyValue]
  simp [unescape_escape]

theorem recovers_integer {aff : Affinity} {w : Value} {i : Int64}
    (stored : aff.coerce formatReal w = .integer i) : Recovers aff (.integer i) := by
  rw [recovers_number rfl, decode_integerKey]
  cases aff with
  | integer => exact .inr (decodeNumber_integer (.inl rfl) i)
  | numeric => exact .inr (decodeNumber_integer (.inr rfl) i)
  | real => exact absurd stored coerce_real_integer
  | text => exact .inl rfl
  | blob => exact .inl rfl
  | none => exact .inl rfl

theorem recovers_numericReal {aff : Affinity} {w : Value}
    (numeric : aff = .integer ∨ aff = .numeric) (stored : aff.coerce formatReal w = .real f)
    (number : f.isNaN = false) : Recovers aff (.real f) ↔ f ≠ negTwoPow63 := by
  have stays := coerce_numeric numeric stored number
  have same : f.addZero = f := if_neg (magnitude_unsqueezed stays)
  rw [recovers_number (numClass_real number), decode_realKey, same]
  by_cases edge : f = negTwoPow63
  · have read := decodeNumber_integral numeric number (k := -2 ^ 63)
      (by rw [edge, scaled_negTwoPow63]) (by decide) (by decide)
    rw [read, edge]
    simp
  · rw [decodeNumber_kept numeric number stays edge]
    simp [edge]

/-- The values of a column are recovered from their keys, all but the double `-2^63` under a
numeric affinity, which comes back as an integer. -/
theorem decode_stored (formatReal : Binary64 → List UInt8) (aff : Affinity) (v w : Value)
    (stored : aff.coerce formatReal w = v) (number : v.isNaN = false) :
    Recovers aff v ↔ ¬ ((aff = .integer ∨ aff = .numeric) ∧ v = .real negTwoPow63) := by
  cases v with
  | null => exact iff_of_true (recovers_read rfl) (by simp)
  | text s => exact iff_of_true (recovers_text aff s) (by simp)
  | blob b => exact iff_of_true (recovers_blob aff b) (by simp)
  | integer i => exact iff_of_true (recovers_integer stored) (by simp)
  | real f =>
    have one : (Value.real f).numClass = 1 := numClass_real number
    cases aff with
    | integer => simpa using recovers_numericReal (.inl rfl) stored number
    | numeric => simpa using recovers_numericReal (.inr rfl) stored number
    | real =>
      refine iff_of_true ((recovers_number one).mpr ?_) (by simp)
      rw [decode_realKey]
      exact decodeNumber_real
    | text => exact iff_of_true ((recovers_number one).mpr (.inl rfl)) (by simp)
    | blob => exact iff_of_true ((recovers_number one).mpr (.inl rfl)) (by simp)
    | none => exact iff_of_true ((recovers_number one).mpr (.inl rfl)) (by simp)

/-- The text `8e0` in an integer column. -/
theorem decode_stored_integral :
    Recovers .integer (.integer 8) ↔
      ¬ ((Affinity.integer = .integer ∨ Affinity.integer = .numeric) ∧
        Value.integer 8 = .real negTwoPow63) :=
  decode_stored (fun _ => []) .integer (.integer 8) (.text [0x38, 0x65, 0x30]) (by decide +kernel) rfl

/-- A double that stays one in an integer column is read as an integer. -/
theorem decode_stored_least :
    Affinity.integer.coerce (fun _ => []) (.real negTwoPow63) = .real negTwoPow63 ∧
      decodeOrderKeyValue (Value.real negTwoPow63).encodeOrderKey .integer =
        some (.integer Int64.minValue) ∧
      ¬ Recovers .integer (.real negTwoPow63) := by
  have read : decodeOrderKeyValue (Value.real negTwoPow63).encodeOrderKey .integer =
      some (.integer Int64.minValue) := by decide +kernel
  refine ⟨by decide +kernel, read, fun recovers => ?_⟩
  rcases recovers.1 with missing | same
  · rw [read] at missing
    cases missing
  · rw [read] at same
    cases same

end RustSql.Executor
