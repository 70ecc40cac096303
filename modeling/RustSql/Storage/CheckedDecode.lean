import RustSql.Foundation.Checked
import RustSql.Types.RowCodec

/-! One value at the front of a payload: its size, its checks and what can go wrong. -/

namespace RustSql.Storage.RowCodec

open RustSql.Foundation RustSql.Types

/-- `decode_uvarint`: the number and how many bytes it takes. -/
def readUvarint (bytes : List UInt8) : Checked String (Nat × Nat) :=
  match decodeUvarint 0 0 bytes with
  | .ok (n, rest) => .ok (n, bytes.length - rest.length)
  | .error message => Checked.fail message

/-- A fixed number of bytes behind the tag. -/
def decodeFixed (width : Nat) (truncated : String) (build : List UInt8 → Value)
    (rest : List UInt8) : Checked String (Value × Nat) :=
  if rest.length < width then Checked.fail truncated
  else do
    let raw ← Checked.sliceRange rest 0 width
    return (build raw, 1 + width)

/-- A length and a body behind the tag. -/
def decodeBody (truncated : String) (build : List UInt8 → Checked String Value)
    (rest : List UInt8) : Checked String (Value × Nat) := do
  let (len, n) ← readUvarint rest
  let stop ← Checked.add n len
  if rest.length < stop then Checked.fail truncated
  else do
    let raw ← Checked.sliceRange rest n stop
    let value ← build raw
    let size ← Checked.add (1 + n) len
    return (value, size)

/-- `Value::decode_with_trust`: a trusted text is not validated. -/
def decodeWithTrust (trusted : Bool) : List UInt8 → Checked String (Value × Nat)
  | [] => Checked.fail "empty buffer"
  | tag :: rest =>
    match tag.toNat with
    | 0x00 => .ok (.null, 1)
    | 0x01 => .ok (.integer 0, 1)
    | 0x02 => decodeFixed 1 "truncated i8" Value.decodeInteger rest
    | 0x03 => decodeFixed 2 "truncated i16" Value.decodeInteger rest
    | 0x04 => decodeFixed 4 "truncated i32" Value.decodeInteger rest
    | 0x05 => decodeFixed 8 "truncated i64" Value.decodeInteger rest
    | 0x06 => decodeFixed 8 "truncated real"
        (fun raw => .real ⟨UInt64.ofNat (fromLittleEndian raw)⟩) rest
    | 0x07 => decodeBody "truncated text body" (fun raw =>
      if !trusted && isRaw raw then Checked.fail "invalid utf8 in text" else .ok (.text raw)) rest
    | 0x08 => decodeBody "truncated blob body" (fun raw => .ok (.blob raw)) rest
    | 0x0B => decodeBody "truncated text body" (fun raw => .ok (.text raw)) rest
    | 0x09 => .ok (.null, 1)
    | 0x0A => do
      let (z, n) ← readUvarint rest
      return (.real (asF64 (Int64.ofInt (unzigzag z))), 1 + n)
    | _ => Checked.fail "unknown value tag"

/-- A length behind the tag, added without a look at the bytes there. -/
def skipBody (rest : List UInt8) : Checked String Nat := do
  let (len, n) ← readUvarint rest
  Checked.add (1 + n) len

def skipVarint (rest : List UInt8) : Checked String Nat := do
  let (_, n) ← readUvarint rest
  return 1 + n

/-- `value_encoded_len`. -/
def valueEncodedLen : List UInt8 → Checked String Nat
  | [] => Checked.fail "empty value"
  | tag :: rest =>
    match tag.toNat with
    | 0x00 | 0x01 | 0x09 => .ok 1
    | 0x02 => .ok 2
    | 0x03 => .ok 3
    | 0x04 => .ok 5
    | 0x05 | 0x06 => .ok 9
    | 0x0A => skipVarint rest
    | 0x07 | 0x08 | 0x0B => skipBody rest
    | _ => Checked.fail "unknown value tag"

/-- `encoded_span`, which gives no reasons. -/
def encodedSpan : List UInt8 → Checked Unit Nat
  | [] => Checked.fail ()
  | tag :: rest =>
    match tag.toNat with
    | 0x00 | 0x01 | 0x09 => .ok 1
    | 0x02 => .ok 2
    | 0x03 => .ok 3
    | 0x04 => .ok 5
    | 0x05 | 0x06 => .ok 9
    | 0x07 | 0x08 | 0x0B => Checked.mapError (fun _ => ()) (skipBody rest)
    | 0x0A => Checked.mapError (fun _ => ()) (skipVarint rest)
    | _ => Checked.fail ()

/-- A varint and how many bytes it takes. -/
def uvarint (bytes : List UInt8) : Option (Nat × Nat) :=
  match decodeUvarint 0 0 bytes with
  | .ok (n, rest) => some (n, bytes.length - rest.length)
  | .error _ => none

/-- The size the tag and the length claim for the value at the front. -/
def claimed : List UInt8 → Option Nat
  | [] => none
  | tag :: rest =>
    match tag.toNat with
    | 0x00 | 0x01 | 0x09 => some 1
    | 0x02 => some 2
    | 0x03 => some 3
    | 0x04 => some 5
    | 0x05 | 0x06 => some 9
    | 0x0A => (uvarint rest).map fun (_, n) => 1 + n
    | 0x07 | 0x08 | 0x0B => (uvarint rest).map fun (len, n) => 1 + n + len
    | _ => none

/-- A text behind its tag is valid, or not looked at. -/
def textAccepted (trusted : Bool) : List UInt8 → Bool
  | [] => true
  | tag :: rest => trusted || tag.toNat != 0x07 ||
      (uvarint rest).all fun (len, n) => !isRaw ((rest.drop n).take len)

/-- The size of the value at the front, when all of it is there. -/
def stored (trusted : Bool) (bytes : List UInt8) : Option Nat :=
  (claimed bytes).filter fun size => decide (size ≤ bytes.length) && textAccepted trusted bytes

section Varint

variable {bytes rest : List UInt8} {n shift value : Nat}

theorem decodeUvarint_suffix (decoded : decodeUvarint shift n bytes = .ok (value, rest)) :
    ∃ front, bytes = front ++ rest ∧ 0 < front.length := by
  induction bytes generalizing shift n with
  | nil => cases decoded
  | cons b more ih =>
    rw [decodeUvarint] at decoded
    split at decoded
    · cases decoded
    · simp only at decoded
      split at decoded
      · cases decoded
        exact ⟨[b], rfl, Nat.one_pos⟩
      · obtain ⟨front, rfl, _⟩ := ih decoded
        exact ⟨b :: front, rfl, Nat.succ_pos _⟩

theorem uvarint_bounds {len : Nat} (found : uvarint bytes = some (len, n)) :
    0 < n ∧ n ≤ bytes.length ∧ len < 2 ^ 64 := by
  unfold uvarint at found
  split at found
  next v rest decoded =>
    cases found
    obtain ⟨front, rfl, filled⟩ := decodeUvarint_suffix decoded
    have bound := decodeUvarint_lt decoded
    rw [List.length_append]
    exact ⟨by omega, by omega, bound⟩
  next => cases found

theorem readUvarint_of_some {len : Nat} (found : uvarint bytes = some (len, n)) :
    readUvarint bytes = .ok (len, n) := by
  unfold uvarint at found
  unfold readUvarint
  split at found
  next v rest decoded =>
    cases found
    rfl
  next => cases found

theorem readUvarint_of_none (missing : uvarint bytes = none) :
    ∃ message, readUvarint bytes = Checked.fail message := by
  unfold uvarint at missing
  unfold readUvarint
  split at missing
  next => cases missing
  next message failed => exact ⟨message, rfl⟩

theorem uvarint_append (m : Nat) (fits : m < 2 ^ 64) :
    uvarint (encodeUvarint m ++ rest) = some (m, (encodeUvarint m).length) := by
  have number := decodeUvarint_encode m rest (by decide : 0 < 64) (n := 0) (by simpa using fits)
  unfold uvarint
  rw [number]
  simp

end Varint

/-- What a skip makes of a claimed size. -/
inductive Skips (bytes : List UInt8) : Checked String Nat → Prop
  | size {s : Nat} (found : claimed bytes = some s) (inside : s < 2 ^ 64) : Skips bytes (.ok s)
  | beyond {s : Nat} (found : claimed bytes = some s) (outside : 2 ^ 64 ≤ s) :
      Skips bytes (.error .overflow)
  | refused {message : String} (missing : claimed bytes = none) :
      Skips bytes (Checked.fail message)

/-- What a decoder makes of the bytes at the front. -/
inductive Reads (trusted : Bool) (bytes : List UInt8) : Checked String (Value × Nat) → Prop
  | value {v : Value} {s : Nat} (found : stored trusted bytes = some s) :
      Reads trusted bytes (.ok (v, s))
  | beyond {s : Nat} (found : claimed bytes = some s) (outside : 2 ^ 64 < s) :
      Reads trusted bytes (.error .overflow)
  | refused {message : String} (missing : stored trusted bytes = none)
      (inside : ∀ s ∈ claimed bytes, s ≤ 2 ^ 64) : Reads trusted bytes (Checked.fail message)

section Front

variable {bytes rest : List UInt8} {tag : UInt8} {trusted : Bool} {s : Nat}

theorem stored_eq_some : stored trusted bytes = some s ↔
    claimed bytes = some s ∧ s ≤ bytes.length ∧ textAccepted trusted bytes = true := by
  rw [stored, Option.filter_eq_some_iff]
  simp

theorem skipVarint_skips (bounded : rest.length < 2 ^ 63)
    (claims : claimed (tag :: rest) = (uvarint rest).map fun (_, n) => 1 + n) :
    Skips (tag :: rest) (skipVarint rest) := by
  unfold skipVarint
  rcases found : uvarint rest with _ | ⟨z, n⟩
  · obtain ⟨message, failed⟩ := readUvarint_of_none found
    rw [failed]
    exact .refused (by rw [claims, found]; rfl)
  · obtain ⟨_, inside, _⟩ := uvarint_bounds found
    rw [readUvarint_of_some found]
    exact .size (by rw [claims, found]; rfl) (by omega)

theorem skipBody_skips
    (claims : claimed (tag :: rest) = (uvarint rest).map fun (len, n) => 1 + n + len) :
    Skips (tag :: rest) (skipBody rest) := by
  unfold skipBody
  rcases found : uvarint rest with _ | ⟨len, n⟩
  · obtain ⟨message, failed⟩ := readUvarint_of_none found
    rw [failed]
    exact .refused (by rw [claims, found]; rfl)
  · have claimed : claimed (tag :: rest) = some (1 + n + len) := by rw [claims, found]; rfl
    rw [readUvarint_of_some found, Checked.ok_bind]
    simp only [Checked.add]
    split
    next inside => exact .size claimed inside
    next outside => exact .beyond claimed (Nat.le_of_not_lt outside)

/-- A skip goes by the claim alone. -/
theorem valueEncodedLen_skips (bounded : bytes.length < 2 ^ 63) :
    Skips bytes (valueEncodedLen bytes) := by
  cases bytes with
  | nil => exact .refused rfl
  | cons tag rest =>
    have inner : rest.length < 2 ^ 63 := Nat.lt_of_succ_lt bounded
    rw [valueEncodedLen]
    split
    case h_9 kind => exact skipVarint_skips inner (by simp [claimed, kind])
    case h_10 kind | h_11 kind | h_12 kind => exact skipBody_skips (by simp [claimed, kind])
    case h_13 => exact .refused (by simp [claimed, *])
    all_goals exact .size (by simp [claimed, *]) (by decide)

/-- The two skips differ in their errors only. -/
theorem encodedSpan_eq (bytes : List UInt8) :
    encodedSpan bytes = Checked.mapError (fun _ => ()) (valueEncodedLen bytes) := by
  cases bytes with
  | nil => rfl
  | cons tag rest =>
    rw [encodedSpan]
    split <;> simp only [valueEncodedLen, *] <;> rfl

theorem stored_eq_none (short : ∀ s, claimed bytes = some s → s ≤ bytes.length →
    textAccepted trusted bytes = false) : stored trusted bytes = none := by
  refine Option.eq_none_iff_forall_ne_some.mpr fun s found => ?_
  obtain ⟨claims, inside, accepted⟩ := stored_eq_some.mp found
  rw [short s claims inside] at accepted
  cases accepted

theorem decodeFixed_reads {width : Nat} {truncated : String} {build : List UInt8 → Value}
    (small : 1 + width ≤ 2 ^ 64) (claims : claimed (tag :: rest) = some (1 + width))
    (accepted : textAccepted trusted (tag :: rest) = true) :
    Reads trusted (tag :: rest) (decodeFixed width truncated build rest) := by
  unfold decodeFixed
  split
  next short =>
    refine .refused (stored_eq_none fun s found inside => ?_) fun s found => ?_
    · cases claims.symm.trans found
      rw [List.length_cons] at inside
      omega
    · cases claims.symm.trans found
      exact small
  next enough =>
    rw [Checked.sliceRange_ok (Nat.zero_le _) (Nat.le_of_not_lt enough), Checked.ok_bind]
    refine .value (stored_eq_some.mpr ⟨claims, ?_, accepted⟩)
    rw [List.length_cons]
    omega

theorem decodeBody_reads {truncated : String} {build : List UInt8 → Checked String Value}
    (bounded : rest.length < 2 ^ 63)
    (claims : claimed (tag :: rest) = (uvarint rest).map fun (len, n) => 1 + n + len)
    (builds : ∀ len n, uvarint rest = some (len, n) →
      if textAccepted trusted (tag :: rest) then ∃ v, build ((rest.drop n).take len) = .ok v
      else ∃ message, build ((rest.drop n).take len) = Checked.fail message) :
    Reads trusted (tag :: rest) (decodeBody truncated build rest) := by
  unfold decodeBody
  rcases found : uvarint rest with _ | ⟨len, n⟩
  · obtain ⟨message, failed⟩ := readUvarint_of_none found
    have missing : claimed (tag :: rest) = none := by rw [claims, found]; rfl
    rw [failed]
    refine .refused (stored_eq_none fun s some => ?_) fun s some => ?_ <;>
      cases missing.symm.trans some
  have claimed : claimed (tag :: rest) = some (1 + n + len) := by rw [claims, found]; rfl
  rw [readUvarint_of_some found, Checked.ok_bind]
  by_cases inside : n + len < 2 ^ 64
  · simp only [Checked.add_ok inside, Checked.ok_bind]
    have fits : ∀ s, RowCodec.claimed (tag :: rest) = some s → s ≤ 2 ^ 64 := by
      intro s other
      cases claimed.symm.trans other
      omega
    split
    next short =>
      refine .refused (stored_eq_none fun s other bound => ?_) fits
      cases claimed.symm.trans other
      rw [List.length_cons] at bound
      omega
    next enough =>
      have length : n + len ≤ rest.length := Nat.le_of_not_lt enough
      have built := builds len n found
      rw [Checked.sliceRange_ok (Nat.le_add_right _ _) length, Checked.ok_bind,
        Nat.add_sub_cancel_left]
      split at built
      next accepted =>
        obtain ⟨v, value⟩ := built
        rw [value, Checked.ok_bind, Checked.add_ok (by omega), Checked.ok_bind]
        refine .value (stored_eq_some.mpr ⟨claimed, ?_, accepted⟩)
        rw [List.length_cons]
        omega
      next rejected =>
        obtain ⟨message, failed⟩ := built
        rw [failed]
        exact .refused (stored_eq_none fun _ _ _ => Bool.eq_false_iff.mpr rejected) fits
  · simp only [Checked.add, if_neg inside]
    exact .beyond claimed (by omega)

theorem decodeWithTrust_reads (bounded : bytes.length < 2 ^ 63) :
    Reads trusted bytes (decodeWithTrust trusted bytes) := by
  cases bytes with
  | nil => exact .refused rfl nofun
  | cons tag rest =>
    have inner : rest.length < 2 ^ 63 := Nat.lt_of_succ_lt bounded
    rw [decodeWithTrust]
    split
    case h_1 kind | h_2 kind | h_11 kind =>
      exact .value (stored_eq_some.mpr ⟨by simp [claimed, kind], by simp,
        by simp [textAccepted, kind]⟩)
    case h_3 kind | h_4 kind | h_5 kind | h_6 kind | h_7 kind =>
      exact decodeFixed_reads (by decide) (by simp [claimed, kind]) (by simp [textAccepted, kind])
    case h_8 kind =>
      refine decodeBody_reads inner (by simp [claimed, kind]) fun len n found => ?_
      cases trusted <;> cases raw : isRaw ((rest.drop n).take len) <;>
        simp [textAccepted, kind, found, raw, Checked.fail]
    case h_9 kind | h_10 kind =>
      exact decodeBody_reads inner (by simp [claimed, kind])
        fun len n found => by simp [textAccepted, kind]
    case h_12 kind =>
      have claims : claimed (tag :: rest) = (uvarint rest).map fun (_, n) => 1 + n := by
        simp [claimed, kind]
      rcases found : uvarint rest with _ | ⟨z, n⟩
      · obtain ⟨message, failed⟩ := readUvarint_of_none found
        rw [found] at claims
        rw [failed]
        refine .refused (stored_eq_none fun s some => ?_) fun s some => ?_ <;>
          cases claims.symm.trans some
      · obtain ⟨_, inside, _⟩ := uvarint_bounds found
        rw [found] at claims
        rw [readUvarint_of_some found, Checked.ok_bind]
        refine .value (stored_eq_some.mpr ⟨claims, ?_, by simp [textAccepted, kind]⟩)
        rw [List.length_cons]
        omega
    case h_13 =>
      have claims : claimed (tag :: rest) = none := by simp [claimed, *]
      refine .refused (stored_eq_none fun s some => ?_) fun s some => ?_ <;>
        cases claims.symm.trans some

theorem safe_decodeWithTrust (bounded : bytes.length < 2 ^ 63) :
    Checked.Safe (decodeWithTrust trusted bytes) ↔ ∀ s ∈ claimed bytes, s ≤ 2 ^ 64 := by
  have reads := @decodeWithTrust_reads _ trusted bounded
  generalize decodeWithTrust trusted bytes = outcome at reads
  cases reads with
  | value found =>
    obtain ⟨claims, inside, _⟩ := stored_eq_some.mp found
    refine iff_of_true (.ok _) fun s some => ?_
    cases claims.symm.trans some
    omega
  | beyond found outside =>
    exact iff_of_false Checked.not_safe_overflow fun all =>
      absurd (all _ found) (Nat.not_le.mpr outside)
  | refused _ inside => exact iff_of_true (.reported _) inside

theorem decodeWithTrust_stored {v : Value} (bounded : bytes.length < 2 ^ 63)
    (decoded : decodeWithTrust trusted bytes = .ok (v, s)) : stored trusted bytes = some s := by
  have reads := @decodeWithTrust_reads _ trusted bounded
  rw [decoded] at reads
  cases reads with
  | value found => exact found

theorem stored_decodes (bounded : bytes.length < 2 ^ 63) (found : stored trusted bytes = some s) :
    ∃ v, decodeWithTrust trusted bytes = .ok (v, s) := by
  rcases outcome : decodeWithTrust trusted bytes with fault | ⟨v, size⟩
  · have reads := @decodeWithTrust_reads _ trusted bounded
    rw [outcome] at reads
    obtain ⟨claims, inside, _⟩ := stored_eq_some.mp found
    cases reads with
    | beyond other outside =>
      cases claims.symm.trans other
      omega
    | refused missing => cases missing.symm.trans found
  · have same := decodeWithTrust_stored bounded outcome
    rw [found] at same
    cases same
    exact ⟨v, rfl⟩

theorem safe_valueEncodedLen (bounded : bytes.length < 2 ^ 63) :
    Checked.Safe (valueEncodedLen bytes) ↔ ∀ s ∈ claimed bytes, s < 2 ^ 64 := by
  have skips := valueEncodedLen_skips bounded
  generalize valueEncodedLen bytes = outcome at skips
  cases skips with
  | size found inside =>
    refine iff_of_true (.ok _) fun s some => ?_
    cases found.symm.trans some
    exact inside
  | beyond found outside =>
    exact iff_of_false Checked.not_safe_overflow fun all =>
      absurd (all _ found) (Nat.not_lt.mpr outside)
  | refused missing =>
    refine iff_of_true (.reported _) fun s some => ?_
    cases missing.symm.trans some

theorem valueEncodedLen_eq_ok (bounded : bytes.length < 2 ^ 63) :
    valueEncodedLen bytes = .ok s ↔ claimed bytes = some s ∧ s < 2 ^ 64 := by
  have skips := valueEncodedLen_skips bounded
  constructor
  · intro done
    rw [done] at skips
    cases skips with
    | size found inside => exact ⟨found, inside⟩
  · rintro ⟨claims, inside⟩
    rcases outcome : valueEncodedLen bytes with fault | size
    · rw [outcome] at skips
      cases skips with
      | beyond found outside =>
        cases claims.symm.trans found
        omega
      | refused missing => cases claims.symm.trans missing
    · rw [outcome] at skips
      cases skips with
      | size found => cases claims.symm.trans found; rfl

end Front

section Refinement

variable {bytes rest after : List UInt8} {v : Value} {trusted : Bool}

theorem decodeFixed_of_decode {width : Nat} {truncated : String} {build : List UInt8 → Value}
    (decoded : Value.decodeFixed width truncated build rest = .ok (v, after)) :
    decodeFixed width truncated build rest = .ok (v, 1 + rest.length - after.length) := by
  unfold Value.decodeFixed at decoded
  unfold decodeFixed
  split at decoded
  · cases decoded
  next enough =>
    cases decoded
    rw [if_neg enough, Checked.sliceRange_ok (Nat.zero_le _) (Nat.le_of_not_lt enough),
      Checked.ok_bind, List.length_drop, List.drop_zero, Nat.sub_zero]
    have size : 1 + rest.length - (rest.length - width) = 1 + width := by omega
    rw [size]
    rfl

theorem decodeBody_of_decode {truncated : String} {build : List UInt8 → Except String Value}
    {checkedBuild : List UInt8 → Checked String Value}
    (builds : ∀ raw v, build raw = .ok v → checkedBuild raw = .ok v)
    (bounded : rest.length < 2 ^ 63)
    (decoded : Value.decodeBody truncated build rest = .ok (v, after)) :
    decodeBody truncated checkedBuild rest = .ok (v, 1 + rest.length - after.length) := by
  simp only [Value.decodeBody, bind, Except.bind, pure, Except.pure] at decoded
  split at decoded
  · cases decoded
  next number found =>
    obtain ⟨len, body⟩ := number
    obtain ⟨front, rfl, _⟩ := decodeUvarint_suffix found
    have header : readUvarint (front ++ body) = .ok (len, front.length) := by
      simp [readUvarint, found]
    simp only at decoded
    split at decoded
    · cases decoded
    next enough =>
      split at decoded
      · cases decoded
      next value built =>
        cases decoded
        rw [List.length_append] at bounded
        have back := builds _ _ built
        simp only [decodeBody, header, Checked.ok_bind]
        rw [Checked.add_ok (by omega), Checked.ok_bind, List.length_append, if_neg (by omega),
          Checked.sliceRange_ok (Nat.le_add_right _ _) (by rw [List.length_append]; omega),
          Checked.ok_bind, Nat.add_sub_cancel_left, List.drop_left, back, Checked.ok_bind,
          Checked.add_ok (by omega), Checked.ok_bind, List.length_drop]
        have size : 1 + (front.length + body.length) - (body.length - len) =
          1 + front.length + len := by omega
        rw [size]
        rfl

/-- Where the decoder without machine words succeeds, the one with them does as well. -/
theorem decodeWithTrust_of_decode (bounded : bytes.length < 2 ^ 63)
    (decoded : Value.decode bytes = .ok (v, after)) :
    decodeWithTrust trusted bytes = .ok (v, bytes.length - after.length) := by
  cases bytes with
  | nil => cases decoded
  | cons tag rest =>
    have inner : rest.length < 2 ^ 63 := Nat.lt_of_succ_lt bounded
    rw [Value.decode] at decoded
    rw [decodeWithTrust, List.length_cons, Nat.add_comm]
    split at decoded
    case h_1 kind | h_2 kind | h_3 kind =>
      cases decoded
      simp [kind]
    case h_4 kind | h_5 kind | h_6 kind | h_7 kind | h_8 kind =>
      simp only [kind]
      exact decodeFixed_of_decode decoded
    case h_9 kind =>
      simp only [kind]
      refine decodeBody_of_decode (fun raw v built => ?_) inner decoded
      split at built
      · cases built
      next valid =>
        cases built
        simp [valid]
    case h_10 kind | h_11 kind =>
      simp only [kind]
      exact decodeBody_of_decode (fun raw v built => by cases built; rfl) inner decoded
    case h_12 kind =>
      simp only [bind, Except.bind] at decoded
      split at decoded
      · cases decoded
      next number found =>
        obtain ⟨z, body⟩ := number
        obtain ⟨front, rfl, _⟩ := decodeUvarint_suffix found
        have header : readUvarint (front ++ body) = .ok (z, front.length) := by
          simp [readUvarint, found]
        cases decoded
        have size : 1 + (front ++ body).length - body.length = 1 + front.length := by
          rw [List.length_append]
          omega
        simp only [kind]
        rw [header, Checked.ok_bind, size]
        rfl
    case h_13 => cases decoded

end Refinement

end RustSql.Storage.RowCodec
