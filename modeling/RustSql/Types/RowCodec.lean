import RustSql.Types.MaskedText
import RustSql.Types.Value

/-! The storage codec of rows: tagged values, with the rowid alias left out. -/

namespace RustSql.Types

open RustSql.Foundation

/-- `encode_uvarint`: seven bits a byte, the lowest first, every byte but the last with its
high bit set. -/
def encodeUvarint (n : Nat) : List UInt8 :=
  if n < 128 then [UInt8.ofNat n] else UInt8.ofNat (n % 128 + 128) :: encodeUvarint (n / 128)

/-- `decode_uvarint` of a `u64`, with the bytes after it. -/
def decodeUvarint (shift n : Nat) : List UInt8 → Except String (Nat × List UInt8)
  | [] => .error "truncated varint"
  | b :: rest =>
    if 64 ≤ shift then .error "varint too long"
    else
      let n := (n + b.toNat % 128 * 2 ^ shift) % 2 ^ 64
      if b.toNat < 128 then .ok (n, rest) else decodeUvarint (shift + 7) n rest

def littleEndian : Nat → Nat → List UInt8
  | 0, _ => []
  | width + 1, n => UInt8.ofNat (n % 256) :: littleEndian width (n / 256)

def fromLittleEndian : List UInt8 → Nat
  | [] => 0
  | b :: rest => b.toNat + 256 * fromLittleEndian rest

/-- The two's complement bytes of a signed integer. -/
def signedBytes (width : Nat) (i : Int) : List UInt8 :=
  littleEndian width (i % 2 ^ (8 * width)).toNat

def signedValue (bytes : List UInt8) : Int :=
  (fromLittleEndian bytes : Int).bmod (2 ^ (8 * bytes.length))

/-- A text that is not valid UTF-8. -/
def isRaw (bytes : List UInt8) : Bool := !validUtf8 bytes

/-- The doubles stored as a varint: the integers up to `2^53`, except `-0.0`. -/
def isCompact (f : Binary64) : Bool :=
  decide (f.magnitude < 2047 * 2 ^ 52) && decide (Binary64.unit ∣ Binary64.weight f.magnitude) &&
    decide (Binary64.weight f.magnitude ≤ 2 ^ 53 * Binary64.unit) &&
    !(decide (f.magnitude = 0) && f.sign)

def zigzag (i : Int) : Nat := if i < 0 then (-2 * i - 1).toNat else (2 * i).toNat

def unzigzag (z : Nat) : Int := if z % 2 = 0 then (z / 2 : Nat) else -(z / 2 : Nat) - 1

namespace Value

/-- The lengths of texts and blobs are `u64`s. -/
def Fits : Value → Prop
  | text bytes | blob bytes => bytes.length < 2 ^ 64
  | _ => True

/-- `encode_into`. -/
def encode : Value → List UInt8
  | null => [0x00]
  | integer i =>
    let v := i.toInt
    if v = 0 then [0x01]
    else if -2 ^ 7 ≤ v ∧ v < 2 ^ 7 then 0x02 :: signedBytes 1 v
    else if -2 ^ 15 ≤ v ∧ v < 2 ^ 15 then 0x03 :: signedBytes 2 v
    else if -2 ^ 31 ≤ v ∧ v < 2 ^ 31 then 0x04 :: signedBytes 4 v
    else 0x05 :: signedBytes 8 v
  | real f =>
    if isCompact f then 0x0A :: encodeUvarint (zigzag (asI64 f))
    else 0x06 :: littleEndian 8 f.bits.toNat
  | text bytes => (if isRaw bytes then 0x0B else 0x07) :: (encodeUvarint bytes.length ++ bytes)
  | blob bytes => 0x08 :: (encodeUvarint bytes.length ++ bytes)

/-- A fixed number of bytes and what follows them. -/
def decodeFixed (width : Nat) (truncated : String) (build : List UInt8 → Value)
    (rest : List UInt8) : Except String (Value × List UInt8) :=
  if rest.length < width then .error truncated
  else .ok (build (rest.take width), rest.drop width)

/-- A length and a body of that many bytes. -/
def decodeBody (truncated : String) (build : List UInt8 → Except String Value)
    (rest : List UInt8) : Except String (Value × List UInt8) := do
  let (length, rest) ← decodeUvarint 0 0 rest
  if rest.length < length then .error truncated
  else
    let value ← build (rest.take length)
    return (value, rest.drop length)

def decodeInteger (bytes : List UInt8) : Value := .integer (Int64.ofInt (signedValue bytes))

/-- `Value::decode`, with the bytes after the value. -/
def decode : List UInt8 → Except String (Value × List UInt8)
  | [] => .error "empty buffer"
  | tag :: rest =>
    match tag.toNat with
    | 0x00 | 0x09 => .ok (.null, rest)
    | 0x01 => .ok (.integer 0, rest)
    | 0x02 => decodeFixed 1 "truncated i8" decodeInteger rest
    | 0x03 => decodeFixed 2 "truncated i16" decodeInteger rest
    | 0x04 => decodeFixed 4 "truncated i32" decodeInteger rest
    | 0x05 => decodeFixed 8 "truncated i64" decodeInteger rest
    | 0x06 => decodeFixed 8 "truncated real"
        (fun bytes => .real ⟨UInt64.ofNat (fromLittleEndian bytes)⟩) rest
    | 0x07 => decodeBody "truncated text body"
        (fun bytes => if isRaw bytes then .error "invalid utf8 in text" else .ok (.text bytes)) rest
    | 0x08 => decodeBody "truncated blob body" (fun bytes => .ok (.blob bytes)) rest
    | 0x0B => decodeBody "truncated text body" (fun bytes => .ok (.text bytes)) rest
    | 0x0A => do
      let (z, rest) ← decodeUvarint 0 0 rest
      return (.real (asF64 (Int64.ofInt (unzigzag z))), rest)
    | _ => .error "unknown value tag"

end Value

section Numbers

theorem decodeUvarint_lt {shift n : Nat} {bytes rest : List UInt8} {value : Nat}
    (decoded : decodeUvarint shift n bytes = .ok (value, rest)) : value < 2 ^ 64 := by
  induction bytes generalizing shift n with
  | nil => cases decoded
  | cons b more ih =>
    rw [decodeUvarint] at decoded
    split at decoded
    · cases decoded
    · simp only at decoded
      split at decoded
      · cases decoded
        exact Nat.mod_lt _ (by decide)
      · exact ih decoded

theorem decodeUvarint_encode (m : Nat) (rest : List UInt8) {shift n : Nat} (start : shift < 64)
    (inside : n + m * 2 ^ shift < 2 ^ 64) :
    decodeUvarint shift n (encodeUvarint m ++ rest) = .ok (n + m * 2 ^ shift, rest) := by
  induction m using Nat.strongRecOn generalizing shift n with
  | ind m ih =>
    rw [encodeUvarint]
    split
    · rename_i last
      have byte : (UInt8.ofNat m).toNat = m := by simp; omega
      have small : m % 128 = m := Nat.mod_eq_of_lt last
      simp only [List.singleton_append, decodeUvarint, byte, small, Nat.not_le.mpr start, if_false,
        Nat.mod_eq_of_lt inside, last, if_true]
    · rename_i more
      have byte : (UInt8.ofNat (m % 128 + 128)).toNat = m % 128 + 128 := by simp; omega
      have low : (m % 128 + 128) % 128 = m % 128 := by omega
      have power : 2 ^ (shift + 7) = 128 * 2 ^ shift := by rw [pow_add]; ring
      have split : m * 2 ^ shift = m % 128 * 2 ^ shift + m / 128 * 2 ^ (shift + 7) := by
        rw [power]
        nth_rewrite 1 [← Nat.mod_add_div m 128]
        ring
      have high : 2 ^ (shift + 7) ≤ m / 128 * 2 ^ (shift + 7) :=
        Nat.le_mul_of_pos_left _ (by omega)
      have next : shift + 7 < 64 := by
        have bound : 2 ^ (shift + 7) < 2 ^ 64 := by omega
        exact (Nat.pow_lt_pow_iff_right (by decide)).mp bound
      have here : n + m % 128 * 2 ^ shift < 2 ^ 64 := by omega
      simp only [List.cons_append, decodeUvarint, byte, low, Nat.not_le.mpr start, if_false,
        Nat.mod_eq_of_lt here]
      rw [if_neg (by omega), ih (m / 128) (by omega) next (by omega), split, Nat.add_assoc]

@[simp] theorem littleEndian_length (width n : Nat) : (littleEndian width n).length = width := by
  induction width generalizing n with
  | zero => rfl
  | succ width ih => simp [littleEndian, ih]

theorem fromLittleEndian_littleEndian (width n : Nat) :
    fromLittleEndian (littleEndian width n) = n % 256 ^ width := by
  induction width generalizing n with
  | zero => simp [littleEndian, fromLittleEndian, Nat.mod_one]
  | succ width ih =>
    have byte : (UInt8.ofNat (n % 256)).toNat = n % 256 := by simp
    rw [littleEndian, fromLittleEndian, ih, byte, pow_succ, Nat.mul_comm (256 ^ width),
      Nat.mod_mul]

theorem signedValue_signedBytes {width : Nat} {i : Int} (positive : 0 < width)
    (low : -2 ^ (8 * width - 1) ≤ i) (high : i < 2 ^ (8 * width - 1)) :
    signedValue (signedBytes width i) = i := by
  have power : (256 : Nat) ^ width = 2 ^ (8 * width) := by
    rw [pow_mul]
    norm_num
  have double : (2 : Int) ^ (8 * width) = 2 * 2 ^ (8 * width - 1) := by
    rw [← pow_succ']
    congr 1
    omega
  have modulus : (0 : Int) < 2 ^ (8 * width) := by positivity
  have residue := Int.emod_nonneg i modulus.ne'
  have below := Int.emod_lt_of_pos i modulus
  have natural : (i % 2 ^ (8 * width)).toNat < 2 ^ (8 * width) := by
    zify
    omega
  rw [signedValue, signedBytes, fromLittleEndian_littleEndian, littleEndian_length, power,
    Nat.mod_eq_of_lt natural, Int.toNat_of_nonneg residue]
  have reduce := Int.emod_bmod i (2 ^ (8 * width))
  push_cast at reduce
  rw [reduce]
  apply Int.bmod_eq_of_le_mul_two <;> push_cast <;> omega

theorem unzigzag_zigzag (i : Int) : unzigzag (zigzag i) = i := by
  unfold unzigzag zigzag
  split <;> split <;> omega

end Numbers

section Reals

variable {f : Binary64}

/-- Doubles that are not zero are determined by their value. -/
theorem eq_of_scaled {g : Binary64} (same : f.scaled = g.scaled) (nonzero : g.magnitude ≠ 0) :
    f = g := by
  have size : f.magnitude = g.magnitude := by
    apply Binary64.weight_strictMono.injective
    rw [← Binary64.natAbs_scaled, ← Binary64.natAbs_scaled, same]
  have positive : 0 < Binary64.weight g.magnitude :=
    Nat.zero_lt_of_lt (Binary64.weight_strictMono (Nat.pos_of_ne_zero nonzero))
  have sign : f.sign = g.sign := by
    unfold Binary64.scaled at same
    rw [size] at same
    cases left : f.sign <;> cases right : g.sign <;>
      simp only [left, right, if_true, Bool.false_eq_true, if_false] at same ⊢ <;> omega
  have bits : f.bits = g.bits := by
    apply UInt64.toNat_inj.mp
    rw [Binary64.bits_toNat f, Binary64.bits_toNat g, size, sign]
  cases f
  cases g
  exact congrArg Binary64.mk bits

/-- A compact double survives the cast to an integer and back. -/
theorem asF64_asI64 (compact : isCompact f = true) :
    asF64 (Int64.ofInt (unzigzag (zigzag (asI64 f)))) = f := by
  simp only [isCompact, Bool.and_eq_true, decide_eq_true_iff, Bool.not_eq_true',
    Bool.and_eq_false_iff, decide_eq_false_iff_not] at compact
  obtain ⟨⟨⟨finite, ⟨k, integral⟩⟩, bounded⟩, positive⟩ := compact
  have number : f.isNaN = false := by
    simp only [Binary64.isNaN, decide_eq_false_iff_not]
    omega
  have small : k ≤ 2 ^ 53 := by
    have unit : 0 < Binary64.unit := by exact_mod_cast Binary64.unit_pos
    rw [integral, Nat.mul_comm] at bounded
    exact Nat.le_of_mul_le_mul_right bounded unit
  obtain ⟨t, value, size⟩ : ∃ t : Int, f.scaled = t * Binary64.unit ∧ t.natAbs = k := by
    unfold Binary64.scaled
    rw [integral]
    cases f.sign with
    | true => exact ⟨-k, by simp only [if_true]; push_cast; ring, by simp⟩
    | false => exact ⟨k, by simp only [Bool.false_eq_true, if_false]; push_cast; ring, by simp⟩
  have cast : asI64 f = t := by
    rw [asI64, Binary64.toIntSat, Binary64.truncate_integral number value]
    omega
  have word : (Int64.ofInt t).toInt = t := by
    rw [Int64.toInt_ofInt]
    apply Int.bmod_eq_of_le_mul_two <;> simp only [Int64.size] <;> omega
  rw [cast, unzigzag_zigzag, asF64, word]
  by_cases zero : f.magnitude = 0
  · have sign : f.sign = false := positive.resolve_left (fun differs => differs zero)
    have bits : f.bits = 0 := by
      apply UInt64.toNat_inj.mp
      rw [Binary64.bits_toNat f, zero, sign]
      rfl
    have nothing : t = 0 := by
      have weight : Binary64.weight f.magnitude = 0 := by rw [zero]; rfl
      have unit : 0 < Binary64.unit := by exact_mod_cast Binary64.unit_pos
      rw [integral, Nat.mul_eq_zero] at weight
      omega
    rw [nothing]
    cases f
    exact congrArg Binary64.mk bits.symm
  · refine eq_of_scaled ?_ zero
    rw [Binary64.scaled_ofInt_of_represented (by omega) (by rw [integral, size, Nat.mul_comm]), value]

end Reals

namespace Value

section Codec

variable {rest bytes : List UInt8} {value : Value}

@[simp] theorem signedBytes_length (width : Nat) (i : Int) : (signedBytes width i).length = width :=
  littleEndian_length _ _

theorem decodeFixed_append {width : Nat} {truncated : String} {build : List UInt8 → Value}
    (length : bytes.length = width) :
    decodeFixed width truncated build (bytes ++ rest) = .ok (build bytes, rest) := by
  subst length
  simp [decodeFixed]

theorem decodeInteger_signedBytes {width : Nat} {i : Int64} (positive : 0 < width)
    (low : -2 ^ (8 * width - 1) ≤ i.toInt) (high : i.toInt < 2 ^ (8 * width - 1)) :
    decodeInteger (signedBytes width i.toInt) = .integer i := by
  rw [decodeInteger, signedValue_signedBytes positive low high, Int64.ofInt_toInt]

theorem decodeBody_append {truncated : String} {build : List UInt8 → Except String Value}
    (fits : bytes.length < 2 ^ 64) :
    decodeBody truncated build (encodeUvarint bytes.length ++ (bytes ++ rest)) =
      (do return (← build bytes, rest)) := by
  have length := decodeUvarint_encode bytes.length (bytes ++ rest) (by decide : 0 < 64)
    (n := 0) (by simpa using fits)
  rw [decodeBody, length]
  simp [bind, Except.bind]

theorem zigzag_asI64_lt (f : Binary64) : zigzag (asI64 f) < 2 ^ 64 := by
  unfold zigzag asI64 Binary64.toIntSat
  split <;> omega

theorem decode_integer (i : Int64) : decode ((integer i).encode ++ rest) = .ok (integer i, rest) := by
  have low := i.le_toInt
  have high := i.toInt_lt
  simp only [encode]
  split
  · rename_i zero
    have same : i = 0 := Int64.toInt_inj.mp zero
    subst same
    rfl
  · split
    · rename_i range
      exact (decodeFixed_append (signedBytes_length _ _)).trans
        (by rw [decodeInteger_signedBytes (by decide) range.1 range.2])
    · split
      · rename_i range
        exact (decodeFixed_append (signedBytes_length _ _)).trans
          (by rw [decodeInteger_signedBytes (by decide) range.1 range.2])
      · split
        · rename_i range
          exact (decodeFixed_append (signedBytes_length _ _)).trans
            (by rw [decodeInteger_signedBytes (by decide) range.1 range.2])
        · exact (decodeFixed_append (signedBytes_length _ _)).trans
            (by rw [decodeInteger_signedBytes (by decide) low high])

theorem decode_real (f : Binary64) : decode ((real f).encode ++ rest) = .ok (real f, rest) := by
  simp only [encode]
  split
  · rename_i compact
    have number := decodeUvarint_encode (zigzag (asI64 f)) rest (by decide : 0 < 64) (n := 0)
      (by simpa using zigzag_asI64_lt f)
    have tag : decode (10 :: encodeUvarint (zigzag (asI64 f)) ++ rest) = (do
        let (z, rest) ← decodeUvarint 0 0 (encodeUvarint (zigzag (asI64 f)) ++ rest)
        return (.real (asF64 (Int64.ofInt (unzigzag z))), rest)) := rfl
    rw [tag, number]
    simp [bind, Except.bind, pure, Except.pure, asF64_asI64 compact]
  · have word : fromLittleEndian (littleEndian 8 f.bits.toNat) = f.bits.toNat := by
      rw [fromLittleEndian_littleEndian]
      exact Nat.mod_eq_of_lt f.bits.toNat_lt
    have fixed := @decodeFixed_append rest _ 8 "truncated real"
      (fun bytes => .real ⟨UInt64.ofNat (fromLittleEndian bytes)⟩)
      (littleEndian_length 8 f.bits.toNat)
    rw [word, UInt64.ofNat_toNat] at fixed
    exact fixed

/-- Decoding what was encoded gives the value back and leaves what follows. -/
theorem decode_encode (fits : value.Fits) : decode (value.encode ++ rest) = .ok (value, rest) := by
  cases value with
  | null => rfl
  | integer i => exact decode_integer i
  | real f => exact decode_real f
  | text bytes =>
    rw [encode, List.cons_append, List.append_assoc]
    cases raw : isRaw bytes with
    | true =>
      exact @decodeBody_append rest bytes "truncated text body" (fun bytes => .ok (.text bytes)) fits
    | false =>
      refine (@decodeBody_append rest bytes "truncated text body" (fun bytes =>
        if isRaw bytes then .error "invalid utf8 in text" else .ok (.text bytes)) fits).trans ?_
      simp [raw, bind, Except.bind, pure, Except.pure]
  | blob bytes =>
    rw [encode, List.cons_append, List.append_assoc]
    exact @decodeBody_append rest bytes "truncated blob body" (fun bytes => .ok (.blob bytes)) fits

theorem decodeFixed_ok {width : Nat} {truncated : String} {build : List UInt8 → Value}
    (decoded : decodeFixed width truncated build bytes = .ok (value, rest)) :
    ∃ body, value = build body := by
  unfold decodeFixed at decoded
  split at decoded
  · cases decoded
  · cases decoded
    exact ⟨_, rfl⟩

theorem decodeBody_ok {truncated : String} {build : List UInt8 → Except String Value}
    (decoded : decodeBody truncated build bytes = .ok (value, rest)) :
    ∃ body : List UInt8, body.length < 2 ^ 64 ∧ build body = .ok value := by
  simp only [decodeBody, bind, Except.bind, pure, Except.pure] at decoded
  split at decoded
  · cases decoded
  · rename_i number found
    split at decoded
    · cases decoded
    · split at decoded
      · cases decoded
      · rename_i built
        cases decoded
        have length := decodeUvarint_lt found
        refine ⟨_, ?_, built⟩
        rw [List.length_take]
        omega

/-- Only lengths that fit are ever read. -/
theorem decode_fits (decoded : decode bytes = .ok (value, rest)) : value.Fits := by
  unfold decode at decoded
  split at decoded
  · cases decoded
  · split at decoded
    case h_1 | h_2 | h_3 =>
      cases decoded
      trivial
    case h_4 | h_5 | h_6 | h_7 | h_8 =>
      obtain ⟨body, rfl⟩ := decodeFixed_ok decoded
      trivial
    case h_9 =>
      obtain ⟨body, fits, built⟩ := decodeBody_ok decoded
      split at built
      · cases built
      · cases built
        exact fits
    case h_10 | h_11 =>
      obtain ⟨body, fits, built⟩ := decodeBody_ok decoded
      cases built
      exact fits
    case h_12 =>
      simp only [bind, Except.bind] at decoded
      split at decoded
      · cases decoded
      · cases decoded
        trivial
    case h_13 => cases decoded

end Codec

end Value

/-- A value with lengths that fit. -/
abbrev Cell := { value : Value // value.Fits }

namespace Cell

def integer (i : Int64) : Cell := ⟨.integer i, trivial⟩

def decode (bytes : List UInt8) : Except String (Cell × List UInt8) :=
  match found : Value.decode bytes with
  | .ok (value, rest) => .ok (⟨value, Value.decode_fits found⟩, rest)
  | .error message => .error message

theorem decode_encode (cell : Cell) (rest : List UInt8) :
    decode (cell.1.encode ++ rest) = .ok (cell, rest) := by
  have back := @Value.decode_encode rest cell.1 cell.2
  unfold decode
  split
  · rename_i found
    rw [back] at found
    cases found
    rfl
  · rename_i found
    rw [back] at found
    cases found

theorem encode_ne_nil (cell : Cell) : cell.1.encode ≠ [] := by
  intro empty
  have back := decode_encode cell []
  rw [empty] at back
  cases back

end Cell

/-- `ROWID_MARKER`. -/
def rowidMarker : UInt8 := 0x09

end RustSql.Types
