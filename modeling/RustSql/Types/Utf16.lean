import RustSql.Types.MaskedText
import Mathlib.Tactic.Ring

/-! Texts in UTF-16 and back: the characters of a string, its code units and their bytes. -/

namespace RustSql.Types

/-- The character of a well-formed sequence. -/
def scalarOf : List UInt8 → Nat
  | [a] => a.toNat
  | [a, b] => a.toNat % 32 * 64 + b.toNat % 64
  | [a, b, c] => (a.toNat % 16 * 64 + b.toNat % 64) * 64 + c.toNat % 64
  | [a, b, c, d] => ((a.toNat % 8 * 64 + b.toNat % 64) * 64 + c.toNat % 64) * 64 + d.toNat % 64
  | _ => 0

def utf8Bytes (scalar : Nat) : List UInt8 :=
  if scalar < 0x80 then [UInt8.ofNat scalar]
  else if scalar < 0x800 then
    [UInt8.ofNat (0xC0 + scalar / 64), UInt8.ofNat (0x80 + scalar % 64)]
  else if scalar < 0x10000 then
    [UInt8.ofNat (0xE0 + scalar / 4096), UInt8.ofNat (0x80 + scalar / 64 % 64),
      UInt8.ofNat (0x80 + scalar % 64)]
  else
    [UInt8.ofNat (0xF0 + scalar / 262144), UInt8.ofNat (0x80 + scalar / 4096 % 64),
      UInt8.ofNat (0x80 + scalar / 64 % 64), UInt8.ofNat (0x80 + scalar % 64)]

/-- A character is no surrogate. -/
def IsScalar (scalar : Nat) : Prop :=
  scalar < 0xD800 ∨ (0xE000 ≤ scalar ∧ scalar < 0x110000)

/-- `chars`, with at most so many left to see. -/
def scalarsFrom : Nat → List UInt8 → List Nat
  | 0, _ => []
  | _, [] => []
  | fuel + 1, bytes =>
    match utf8Front bytes with
    | .valid length => scalarOf (bytes.take length) :: scalarsFrom fuel (bytes.drop length)
    | .invalid _ => []

def scalars (bytes : List UInt8) : List Nat := scalarsFrom bytes.length bytes

theorem ofNat_eq {n : Nat} {b : UInt8} (same : n = b.toNat) : UInt8.ofNat n = b := by
  rw [same, UInt8.ofNat_toNat]

section

variable {a b c d : UInt8}

theorem scalar_one (ascii : a.toNat < 0x80) :
    IsScalar (scalarOf [a]) ∧ utf8Bytes (scalarOf [a]) = [a] := by
  rw [scalarOf, utf8Bytes, if_pos ascii, UInt8.ofNat_toNat]
  exact ⟨Or.inl (by omega), rfl⟩

theorem scalar_two (first : 0xC2 ≤ a.toNat ∧ a.toNat ≤ 0xDF)
    (second : 0x80 ≤ b.toNat ∧ b.toNat ≤ 0xBF) :
    IsScalar (scalarOf [a, b]) ∧ utf8Bytes (scalarOf [a, b]) = [a, b] := by
  have low : a.toNat % 32 = a.toNat - 0xC0 := by omega
  have next : b.toNat % 64 = b.toNat - 0x80 := by omega
  rw [scalarOf, low, next, utf8Bytes, if_neg (by omega), if_pos (by omega)]
  refine ⟨Or.inl (by omega), ?_⟩
  rw [ofNat_eq (show _ = a.toNat by omega), ofNat_eq (show _ = b.toNat by omega)]

theorem scalar_three (first : 0xE0 ≤ a.toNat ∧ a.toNat ≤ 0xEF)
    (second : 0x80 ≤ b.toNat ∧ b.toNat ≤ 0xBF) (third : 0x80 ≤ c.toNat ∧ c.toNat ≤ 0xBF)
    (long : a.toNat = 0xE0 → 0xA0 ≤ b.toNat) (surrogate : a.toNat = 0xED → b.toNat ≤ 0x9F) :
    IsScalar (scalarOf [a, b, c]) ∧ utf8Bytes (scalarOf [a, b, c]) = [a, b, c] := by
  have low : a.toNat % 16 = a.toNat - 0xE0 := by omega
  have next : b.toNat % 64 = b.toNat - 0x80 := by omega
  have last : c.toNat % 64 = c.toNat - 0x80 := by omega
  rw [scalarOf, low, next, last, utf8Bytes, if_neg (by omega), if_neg (by omega),
    if_pos (by omega)]
  refine ⟨?_, ?_⟩
  · unfold IsScalar
    omega
  · rw [ofNat_eq (show _ = a.toNat by omega), ofNat_eq (show _ = b.toNat by omega),
      ofNat_eq (show _ = c.toNat by omega)]

theorem scalar_four (first : 0xF0 ≤ a.toNat ∧ a.toNat ≤ 0xF4)
    (second : 0x80 ≤ b.toNat ∧ b.toNat ≤ 0xBF) (third : 0x80 ≤ c.toNat ∧ c.toNat ≤ 0xBF)
    (fourth : 0x80 ≤ d.toNat ∧ d.toNat ≤ 0xBF) (long : a.toNat = 0xF0 → 0x90 ≤ b.toNat)
    (top : a.toNat = 0xF4 → b.toNat ≤ 0x8F) :
    IsScalar (scalarOf [a, b, c, d]) ∧ utf8Bytes (scalarOf [a, b, c, d]) = [a, b, c, d] := by
  have low : a.toNat % 8 = a.toNat - 0xF0 := by omega
  have next : b.toNat % 64 = b.toNat - 0x80 := by omega
  have more : c.toNat % 64 = c.toNat - 0x80 := by omega
  have last : d.toNat % 64 = d.toNat - 0x80 := by omega
  rw [scalarOf, low, next, more, last, utf8Bytes, if_neg (by omega), if_neg (by omega),
    if_neg (by omega)]
  refine ⟨?_, ?_⟩
  · unfold IsScalar
    omega
  · rw [ofNat_eq (show _ = a.toNat by omega), ofNat_eq (show _ = b.toNat by omega),
      ofNat_eq (show _ = c.toNat by omega), ofNat_eq (show _ = d.toNat by omega)]

end

theorem continuation_bounds {b : UInt8} (continues : isContinuation b = true) :
    0x80 ≤ b.toNat ∧ b.toNat ≤ 0xBF := by
  rw [isContinuation, Bool.and_eq_true, decide_eq_true_iff, decide_eq_true_iff,
    UInt8.le_iff_toNat_le, UInt8.le_iff_toNat_le] at continues
  exact continues

theorem range_bounds {b low high : UInt8} (inside : (low ≤ b && b ≤ high) = true) :
    low.toNat ≤ b.toNat ∧ b.toNat ≤ high.toNat := by
  rw [Bool.and_eq_true, decide_eq_true_iff, decide_eq_true_iff] at inside
  exact inside

/-- The second byte where one first byte raises its lower bound and another lowers its upper. -/
theorem second_bounds {a b low high lower upper : UInt8} (apart : low ≠ high)
    (above : 0x80 ≤ lower.toNat) (below : upper.toNat ≤ 0xBF)
    (second : (if a = low then lower ≤ b && b ≤ 0xBF
      else if a = high then 0x80 ≤ b && b ≤ upper else isContinuation b) = true) :
    (0x80 ≤ b.toNat ∧ b.toNat ≤ 0xBF) ∧ (a.toNat = low.toNat → lower.toNat ≤ b.toNat) ∧
      (a.toNat = high.toNat → b.toNat ≤ upper.toNat) := by
  simp only [UInt8.toNat_inj]
  split_ifs at second with isLow isHigh
  · obtain ⟨least, most⟩ := range_bounds second
    exact ⟨⟨above.trans least, most⟩, fun _ => least, fun same => absurd (isLow.symm.trans same) apart⟩
  · obtain ⟨least, most⟩ := range_bounds second
    exact ⟨⟨least, most.trans below⟩, fun same => absurd same isLow, fun _ => most⟩
  · exact ⟨continuation_bounds second, fun same => absurd same isLow, fun same => absurd same isHigh⟩

/-- A well-formed sequence is the bytes of its character. -/
theorem scalarOf_front {b : UInt8} {rest : List UInt8} {length : Nat}
    (front : utf8Front (b :: rest) = .valid length) :
    IsScalar (scalarOf ((b :: rest).take length)) ∧
      utf8Bytes (scalarOf ((b :: rest).take length)) = (b :: rest).take length := by
  unfold utf8Front at front
  rw [List.headD_cons] at front
  dsimp only at front
  by_cases ascii : b < 0x80
  · rw [if_pos ascii] at front
    cases front
    exact scalar_one (UInt8.lt_iff_toNat_lt.mp ascii)
  rw [if_neg ascii] at front
  by_cases two : (0xC2 ≤ b && b ≤ 0xDF) = true
  · rw [if_pos two] at front
    cases rest with
    | nil => cases front
    | cons c rest =>
      simp only [List.getElem?_cons_succ, List.getElem?_cons_zero] at front
      split_ifs at front with second
      cases front
      exact scalar_two (range_bounds two) (continuation_bounds second)
  rw [if_neg two] at front
  by_cases three : (0xE0 ≤ b && b ≤ 0xEF) = true
  · rw [if_pos three] at front
    rcases rest with _ | ⟨c, _ | ⟨d, rest⟩⟩
    · cases front
    · simp only [List.getElem?_cons_succ, List.getElem?_cons_zero, List.getElem?_nil] at front
      split_ifs at front
    · simp only [List.getElem?_cons_succ, List.getElem?_cons_zero] at front
      split_ifs at front with second third
      cases front
      obtain ⟨bounds, long, surrogate⟩ := second_bounds (by decide) (by decide) (by decide) second
      exact scalar_three (range_bounds three) bounds (continuation_bounds third) long surrogate
  rw [if_neg three] at front
  by_cases four : (0xF0 ≤ b && b ≤ 0xF4) = true
  · rw [if_pos four] at front
    rcases rest with _ | ⟨c, _ | ⟨d, _ | ⟨e, rest⟩⟩⟩
    · cases front
    · simp only [List.getElem?_cons_succ, List.getElem?_cons_zero, List.getElem?_nil] at front
      split_ifs at front
    · simp only [List.getElem?_cons_succ, List.getElem?_cons_zero, List.getElem?_nil] at front
      split_ifs at front
    · simp only [List.getElem?_cons_succ, List.getElem?_cons_zero] at front
      split_ifs at front with second third fourth
      cases front
      obtain ⟨bounds, long, top⟩ := second_bounds (by decide) (by decide) (by decide) second
      exact scalar_four (range_bounds four) bounds (continuation_bounds third)
        (continuation_bounds fourth) long top
  · rw [if_neg four] at front
    cases front

/-- A valid text is its characters. -/
theorem scalars_spec {bytes : List UInt8} (valid : validUtf8 bytes = true) :
    (∀ scalar ∈ scalars bytes, IsScalar scalar) ∧
      (scalars bytes).flatMap utf8Bytes = bytes := by
  have every (fuel : Nat) (bytes : List UInt8) (valid : validUtf8From fuel bytes = true) :
      (∀ scalar ∈ scalarsFrom fuel bytes, IsScalar scalar) ∧
        (scalarsFrom fuel bytes).flatMap utf8Bytes = bytes := by
    induction fuel generalizing bytes with
    | zero =>
      rw [List.isEmpty_iff.mp valid]
      exact ⟨nofun, rfl⟩
    | succ fuel ih =>
      cases bytes with
      | nil => exact ⟨nofun, rfl⟩
      | cons b rest =>
        rw [validUtf8From_cons] at valid
        rw [scalarsFrom]
        · cases front : utf8Front (b :: rest) with
          | valid length =>
            rw [front] at valid
            obtain ⟨plain, same⟩ := scalarOf_front front
            obtain ⟨others, whole⟩ := ih _ valid
            refine ⟨List.forall_mem_cons.mpr ⟨plain, others⟩, ?_⟩
            rw [List.flatMap_cons, same, whole, List.take_append_drop]
          | _ =>
            rw [front] at valid
            cases valid
        · exact nofun
  exact every _ _ valid

/-- `encode_utf16`. -/
def encodeUtf16 (scalars : List Nat) : List Nat :=
  scalars.flatMap fun scalar =>
    if scalar < 0x10000 then [scalar]
    else [0xD800 + (scalar - 0x10000) / 0x400, 0xDC00 + (scalar - 0x10000) % 0x400]

/-- `from_utf16_lossy`: an unpaired surrogate becomes U+FFFD. -/
def fromUtf16Lossy : List Nat → List Nat
  | [] => []
  | [u] => if u < 0xD800 ∨ 0xDFFF < u then [u] else [0xFFFD]
  | u :: v :: rest =>
    if u < 0xD800 ∨ 0xDFFF < u then u :: fromUtf16Lossy (v :: rest)
    else if 0xDC00 ≤ u ∨ v < 0xDC00 ∨ 0xDFFF < v then 0xFFFD :: fromUtf16Lossy (v :: rest)
    else (0x10000 + (u - 0xD800) * 0x400 + (v - 0xDC00)) :: fromUtf16Lossy rest

theorem fromUtf16Lossy_plain {u : Nat} (plain : u < 0xD800 ∨ 0xDFFF < u) (rest : List Nat) :
    fromUtf16Lossy (u :: rest) = u :: fromUtf16Lossy rest := by
  cases rest with
  | nil => exact if_pos plain
  | cons v rest => rw [fromUtf16Lossy, if_pos plain]

theorem fromUtf16Lossy_encodeUtf16 {scalars : List Nat}
    (plain : ∀ scalar ∈ scalars, IsScalar scalar) :
    fromUtf16Lossy (encodeUtf16 scalars) = scalars := by
  induction scalars with
  | nil => rfl
  | cons scalar rest ih =>
    obtain ⟨here, others⟩ := List.forall_mem_cons.mp plain
    have later := ih others
    have split : encodeUtf16 (scalar :: rest) = (if scalar < 0x10000 then [scalar]
        else [0xD800 + (scalar - 0x10000) / 0x400, 0xDC00 + (scalar - 0x10000) % 0x400]) ++
        encodeUtf16 rest := List.flatMap_cons
    unfold IsScalar at here
    rw [split]
    by_cases small : scalar < 0x10000
    · rw [if_pos small, List.singleton_append, fromUtf16Lossy_plain (by omega), later]
    · rw [if_neg small, List.cons_append, List.singleton_append, fromUtf16Lossy,
        if_neg (by omega), if_neg (by omega), later]
      refine congrArg (· :: rest) ?_
      omega

/-- The text encoding of a file. -/
inductive TextEnc where
  | utf8
  | utf16le
  | utf16be
deriving DecidableEq, Repr

/-- `to_le_bytes` and `to_be_bytes` of a unit. -/
def unitBytes (enc : TextEnc) (u : Nat) : List UInt8 :=
  match enc with
  | .utf16le => [UInt8.ofNat (u % 256), UInt8.ofNat (u / 256)]
  | _ => [UInt8.ofNat (u / 256), UInt8.ofNat (u % 256)]

def unitOf (enc : TextEnc) (a b : UInt8) : Nat :=
  match enc with
  | .utf16le => b.toNat * 256 + a.toNat
  | _ => a.toNat * 256 + b.toNat

/-- An odd byte at the end is dropped. -/
def unitsOf (enc : TextEnc) : List UInt8 → List Nat
  | a :: b :: rest => unitOf enc a b :: unitsOf enc rest
  | _ => []

/-- `encode_text_bytes` of a string. -/
def encodeTextBytes (s : List UInt8) (enc : TextEnc) : List UInt8 :=
  match enc with
  | .utf8 => s
  | _ => (encodeUtf16 (scalars s)).flatMap (unitBytes enc)

/-- `decode_text_bytes` of a UTF-16 file. -/
def decodeTextBytes (bytes : List UInt8) (enc : TextEnc) : List UInt8 :=
  (fromUtf16Lossy (unitsOf enc bytes)).flatMap utf8Bytes

theorem encodeUtf16_lt {scalars : List Nat} (plain : ∀ scalar ∈ scalars, IsScalar scalar) :
    ∀ u ∈ encodeUtf16 scalars, u < 0x10000 := by
  intro u member
  obtain ⟨scalar, inside, same⟩ := List.mem_flatMap.mp member
  have here := plain scalar inside
  unfold IsScalar at here
  split_ifs at same with small
  · cases List.mem_singleton.mp same
    exact small
  · rcases List.mem_cons.mp same with rfl | same
    · omega
    · rw [List.mem_singleton.mp same]
      omega

theorem unitsOf_bytes (enc : TextEnc) {units : List Nat} (words : ∀ u ∈ units, u < 0x10000) :
    unitsOf enc (units.flatMap (unitBytes enc)) = units := by
  induction units with
  | nil => cases enc <;> rfl
  | cons u rest ih =>
    obtain ⟨here, others⟩ := List.forall_mem_cons.mp words
    have high : (UInt8.ofNat (u / 256)).toNat = u / 256 := by
      rw [UInt8.toNat_ofNat']
      omega
    have low : (UInt8.ofNat (u % 256)).toNat = u % 256 := by
      rw [UInt8.toNat_ofNat']
      omega
    have whole : u / 256 * 256 + u % 256 = u := by omega
    rw [List.flatMap_cons]
    cases enc <;>
      simp only [unitBytes, List.cons_append, List.nil_append, unitsOf, unitOf, high, low, whole] <;>
      exact congrArg (u :: ·) (ih others)

/-- A string survives UTF-16. -/
theorem decodeTextBytes_encode {s : List UInt8} (valid : validUtf8 s = true) (enc : TextEnc)
    (wide : enc ≠ .utf8) : decodeTextBytes (encodeTextBytes s enc) enc = s := by
  obtain ⟨plain, whole⟩ := scalars_spec valid
  have bytes : encodeTextBytes s enc = (encodeUtf16 (scalars s)).flatMap (unitBytes enc) := by
    cases enc with
    | utf8 => exact absurd rfl wide
    | utf16le => rfl
    | utf16be => rfl
  rw [bytes, decodeTextBytes, unitsOf_bytes enc (encodeUtf16_lt plain),
    fromUtf16Lossy_encodeUtf16 plain, whole]

end RustSql.Types
