import RustSql.Foundation.Checked
import RustSql.Jsonb.Denotation
import RustSql.Types.Utf16

/-! Decoding the escapes of a string payload, and the values of keys. An overflow of the
32-bit arithmetic is a fault. -/

namespace RustSql.Jsonb

open RustSql.Foundation RustSql.Types

instance (c : Nat) : Decidable (IsScalar c) :=
  inferInstanceAs (Decidable (c < 0xD800 ∨ (0xE000 ≤ c ∧ c < 0x110000)))

/-- `char::from_u32`, as the bytes of the character. -/
def fromU32 (c : Nat) : Option (List UInt8) := if IsScalar c then some (utf8Bytes c) else none

/-- The bytes of U+FFFD. -/
def replacement : List UInt8 := utf8Bytes 0xFFFD

/-- `from_str_radix` of the first `n` bytes, when there are as many. -/
def hexAt (n : Nat) (b : List UInt8) : Option Nat :=
  if n ≤ b.length then fromStrRadix16 (2 ^ 32) (b.take n) else none

/-- `to_digit(16).unwrap_or(0)`. -/
def toDigit (b : UInt8) : Nat := if isHexDigit b then hexValue b else 0

/-- The loop over the digits of `\u{…}`. -/
def bracedValue : (digits : List UInt8) → (v : Nat) → Checked Unit Nat
  | [], v => .ok v
  | d :: ds, v => if v * 16 < 2 ^ 32 then bracedValue ds (v * 16 + toDigit d) else .error .overflow

def isHigh (cp : Nat) : Bool := 0xD800 ≤ cp && cp < 0xDC00

def isLow (cp : Nat) : Bool := 0xDC00 ≤ cp && cp < 0xE000

/-- The character of two surrogates. -/
def pairOf (high low : Nat) : Nat := 0x10000 + (high - 0xD800) * 1024 + (low - 0xDC00)

/-- What stands behind `\u`: the bytes that are pushed, and what is left to decode. -/
def decodeUnicode (json5 : Bool) (b : List UInt8) : Checked Unit (List UInt8 × List UInt8) :=
  if json5 ∧ b.head? = some 0x7B then do
    let digits := (b.drop 1).takeWhile (· != 0x7D)
    let v ← bracedValue digits 0
    .ok ((fromU32 v).getD [], b.drop (digits.length + 2))
  else
    match hexAt 4 b with
    | none => .ok ([], b)
    | some cp =>
      if isHigh cp ∧ b[4]? = some 0x5C ∧ b[5]? = some 0x75 then
        match hexAt 4 (b.drop 6) with
        | none => .ok (replacement, b.drop 4)
        | some lo =>
          if lo < 0xDC00 then .error .overflow
          else .ok ((fromU32 (pairOf cp lo)).getD [], b.drop 10)
      else if isLow cp then .ok (replacement, b)
      else .ok ((fromU32 cp).getD replacement, b.drop 4)

/-- The escapes of one letter. -/
def letterEscape (e : UInt8) : Option UInt8 :=
  if e = 0x22 ∨ e = 0x5C ∨ e = 0x2F then some e
  else if e = 0x62 then some 0x08
  else if e = 0x66 then some 0x0C
  else if e = 0x6E then some 0x0A
  else if e = 0x72 then some 0x0D
  else if e = 0x74 then some 0x09
  else if e = 0x76 then some 0x0B
  else if e = 0x30 then some 0x00
  else none

/-- An escape: its letter, and what stands behind that. -/
def decodeEscape (json5 : Bool) (e : UInt8) (b : List UInt8) :
    Checked Unit (List UInt8 × List UInt8) :=
  match letterEscape e with
  | some c => .ok ([c], b)
  | none =>
    if e = 0x75 then decodeUnicode json5 b
    else if e = 0x27 ∧ json5 then .ok ([0x27], b)
    else if e = 0x78 ∧ json5 then
      match hexAt 2 b with
      | some cp => .ok ((fromU32 cp).getD replacement, b.drop 2)
      | none => .ok ([], b)
    else if e = 0x0D ∧ json5 then .ok ([], if b.head? = some 0x0A then b.drop 1 else b)
    else if e = 0xE2 ∧ json5 ∧ isLineSeparator b then .ok ([], b.drop 2)
    else if e = 0x0A then .ok ([], b)
    else .ok ([0x5C, e], b)

def decodeFrom (json5 : Bool) : (fuel : Nat) → List UInt8 → Checked Unit (List UInt8)
  | 0, _ => .ok []
  | _ + 1, [] => .ok []
  | fuel + 1, c :: b =>
    if c = 0x5C ∧ b ≠ [] then do
      let (out, rest) ← decodeEscape json5 (b.headD 0) b.tail
      let more ← decodeFrom json5 fuel rest
      .ok (out ++ more)
    else do
      let more ← decodeFrom json5 fuel b
      .ok (c :: more)

def decodeEscapes (json5 : Bool) (b : List UInt8) : Checked Unit (List UInt8) :=
  decodeFrom json5 b.length b

/-- `string_bytes` of a string element. -/
def stringBytes (kind : StrKind) (s : List UInt8) : Checked Unit (List UInt8) :=
  match kind with
  | .text | .textRaw => .ok s
  | .textJ => decodeEscapes false s
  | .text5 => decodeEscapes true s

/-- Every byte as the character of that number. -/
def latin1 (b : List UInt8) : List UInt8 := b.flatMap fun c => utf8Bytes c.toNat

/-- `string_value` of a string element. -/
def stringValue (kind : StrKind) (s : List UInt8) : Checked Unit (List UInt8) :=
  match kind with
  | .text | .textRaw => .ok (asStr s)
  | .textJ | .text5 => (stringBytes kind s).map latin1

/-- Does a key equal the text that is looked for? -/
def keyMatches (kind : StrKind) (raw k : List UInt8) : Checked Unit Bool :=
  match kind with
  | .text | .textRaw => .ok (if validUtf8 raw then raw == k else asStr raw == k)
  | .textJ => (decodeEscapes false raw).map fun d => latin1 d == k
  | .text5 => (decodeEscapes true raw).map fun d => latin1 d == k

theorem keyMatches_eq (kind : StrKind) (raw k : List UInt8) :
    keyMatches kind raw k = (stringValue kind raw).map (· == k) := by
  have shown : (if validUtf8 raw then raw == k else asStr raw == k) = (asStr raw == k) := by
    split
    · rename_i valid
      rw [asStr_eq_self.mpr valid]
    · rfl
  cases kind with
  | text | textRaw => exact congrArg Except.ok shown
  | textJ => cases decoded : decodeEscapes false raw <;> simp [keyMatches, stringValue, stringBytes, decoded, Except.map]
  | text5 => cases decoded : decodeEscapes true raw <;> simp [keyMatches, stringValue, stringBytes, decoded, Except.map]

section Steps

variable {json5 : Bool} {b out rest : List UInt8} {e : UInt8}

theorem decodeUnicode_shorter (done : decodeUnicode json5 b = .ok (out, rest)) :
    rest.length ≤ b.length := by
  have dropped (n : Nat) : (b.drop n).length ≤ b.length := by
    rw [List.length_drop]
    omega
  unfold decodeUnicode at done
  split at done
  · obtain ⟨v, _, done⟩ := Checked.bind_ok_iff.mp done
    cases done
    exact dropped _
  · split at done
    · cases done
      exact Nat.le_refl _
    · split at done
      · split at done
        · rw [← (Prod.mk.inj (Except.ok.inj done)).2]
          exact dropped _
        · split at done
          · cases done
          · rw [← (Prod.mk.inj (Except.ok.inj done)).2]
            exact dropped _
      · split at done
        · rw [← (Prod.mk.inj (Except.ok.inj done)).2]
        · rw [← (Prod.mk.inj (Except.ok.inj done)).2]
          exact dropped _

theorem decodeEscape_shorter (done : decodeEscape json5 e b = .ok (out, rest)) :
    rest.length ≤ b.length := by
  have dropped (n : Nat) : (b.drop n).length ≤ b.length := by
    rw [List.length_drop]
    omega
  unfold decodeEscape at done
  split at done
  · cases done
    exact Nat.le_refl _
  split at done
  · exact decodeUnicode_shorter done
  split at done
  · cases done
    exact Nat.le_refl _
  split at done
  · split at done
    · cases done
      exact dropped _
    · cases done
      exact Nat.le_refl _
  split at done
  · cases done
    split
    · exact dropped _
    · exact Nat.le_refl _
  split at done
  · cases done
    exact dropped _
  split at done
  · cases done
    exact Nat.le_refl _
  · cases done
    exact Nat.le_refl _

/-- The fuel never decides. -/
theorem decodeFrom_enough (json5 : Bool) {fuel : Nat} {b : List UInt8} (enough : b.length ≤ fuel) :
    decodeFrom json5 fuel b = decodeEscapes json5 b := by
  have stable (fuel : Nat) : ∀ b : List UInt8, b.length ≤ fuel →
      decodeFrom json5 (fuel + 1) b = decodeFrom json5 fuel b := by
    induction fuel with
    | zero =>
      intro b enough
      rw [List.length_eq_zero_iff.mp (Nat.le_zero.mp enough)]
      rfl
    | succ fuel ih =>
      intro b enough
      cases b with
      | nil => rfl
      | cons c b =>
        rw [decodeFrom, decodeFrom.eq_def json5 (fuel + 1) (c :: b)]
        dsimp only
        rw [List.length_cons] at enough
        by_cases escape : c = 0x5C ∧ b ≠ []
        · rw [if_pos escape, if_pos escape]
          cases done : decodeEscape json5 (b.headD 0) b.tail with
          | error fault => rfl
          | ok found =>
            obtain ⟨out, rest⟩ := found
            have shorter := decodeEscape_shorter done
            rw [List.length_tail] at shorter
            dsimp only [bind, Except.bind]
            rw [ih rest (by omega)]
        · rw [if_neg escape, if_neg escape, ih b (by omega)]
  unfold decodeEscapes
  induction fuel, enough using Nat.le_induction with
  | base => rfl
  | succ fuel enough ih => rw [stable fuel b enough, ih]

theorem decodeEscapes_plain {c : UInt8} (notBackslash : c ≠ 0x5C) (b : List UInt8) :
    decodeEscapes json5 (c :: b) = (decodeEscapes json5 b).map (c :: ·) := by
  rw [decodeEscapes, List.length_cons, decodeFrom, if_neg (fun both => notBackslash both.1),
    decodeFrom_enough json5 (Nat.le_refl _)]
  rfl

theorem decodeEscapes_escape (json5 : Bool) (e : UInt8) (b : List UInt8) :
    decodeEscapes json5 (0x5C :: e :: b) =
      (decodeEscape json5 e b).bind fun (out, rest) => (decodeEscapes json5 rest).map (out ++ ·) := by
  rw [decodeEscapes, List.length_cons, decodeFrom, if_pos ⟨rfl, List.cons_ne_nil e b⟩]
  dsimp only [List.headD_cons, List.tail_cons, bind]
  cases done : decodeEscape json5 e b with
  | error fault => rfl
  | ok found =>
    obtain ⟨out, rest⟩ := found
    have shorter := decodeEscape_shorter done
    dsimp only [Except.bind]
    rw [decodeFrom_enough json5 (by rw [List.length_cons]; omega)]
    rfl

end Steps

end RustSql.Jsonb
