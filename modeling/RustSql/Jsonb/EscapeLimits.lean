import RustSql.Jsonb.Canonical
import RustSql.Jsonb.EscapeMeaning

/-! Payloads of any bytes: where the decoder overflows, when the text of a key is its
decoded bytes, and that written escapes decode to what was written. -/

namespace RustSql.Jsonb

open RustSql.Foundation RustSql.Types

/-- The number in the braces of `\u{…}`; what is no digit counts as zero. -/
def bracedNumber (ds : List UInt8) : Nat := ds.foldl (fun v d => v * 16 + toDigit d) 0

def bracedDigits (b : List UInt8) : List UInt8 := (b.drop 1).takeWhile (· != 0x7D)

/-- Behind `\u` stands a number in braces that is no 32-bit one, or a high surrogate and an
escape below the low surrogates. -/
def UnicodeOverflows (json5 : Bool) (b : List UInt8) : Prop :=
  if json5 ∧ b.head? = some 0x7B then 2 ^ 32 ≤ bracedNumber (bracedDigits b)
  else ∃ cp lo, hexAt 4 b = some cp ∧ isHigh cp = true ∧ b[4]? = some 0x5C ∧ b[5]? = some 0x75 ∧
    hexAt 4 (b.drop 6) = some lo ∧ lo < 0xDC00

/-- Where the text goes on behind an escape of a code unit. -/
def behindUnicode (json5 : Bool) (b : List UInt8) : List UInt8 :=
  if json5 ∧ b.head? = some 0x7B then b.drop ((bracedDigits b).length + 2)
  else
    match hexAt 4 b with
    | none => b
    | some cp =>
      if isHigh cp ∧ b[4]? = some 0x5C ∧ b[5]? = some 0x75 then
        if (hexAt 4 (b.drop 6)).isSome then b.drop 10 else b.drop 4
      else if isLow cp then b
      else b.drop 4

/-- Where the text goes on behind an escape. -/
def behindEscape (json5 : Bool) (e : UInt8) (b : List UInt8) : List UInt8 :=
  if (letterEscape e).isSome then b
  else if e = 0x75 then behindUnicode json5 b
  else if e = 0x78 ∧ json5 then if (hexAt 2 b).isSome then b.drop 2 else b
  else if e = 0x0D ∧ json5 ∧ b.head? = some 0x0A then b.drop 1
  else if e = 0xE2 ∧ json5 ∧ isLineSeparator b then b.drop 2
  else b

/-- Going from escape to escape the text comes to one that overflows. -/
inductive Overflows (json5 : Bool) : List UInt8 → Prop
  | here {b} (beyond : UnicodeOverflows json5 b) : Overflows json5 (0x5C :: 0x75 :: b)
  | plain {c b} (notBackslash : c ≠ 0x5C) (behind : Overflows json5 b) : Overflows json5 (c :: b)
  | escape {e b} (behind : Overflows json5 (behindEscape json5 e b)) :
      Overflows json5 (0x5C :: e :: b)

section Faults

variable {json5 : Bool} {b : List UInt8} {e : UInt8}

theorem toDigit_lt (d : UInt8) : toDigit d < 16 :=
  forall_byte (by decide +kernel) d

theorem foldl_digits_le (ds : List UInt8) (v : Nat) :
    v ≤ ds.foldl (fun v d => v * 16 + toDigit d) v := by
  induction ds generalizing v with
  | nil => exact Nat.le_refl v
  | cons d ds ih =>
    have := ih (v * 16 + toDigit d)
    rw [List.foldl_cons]
    omega

theorem bracedValue_eq (ds : List UInt8) {v : Nat} (small : v < 2 ^ 32) :
    bracedValue ds v =
      if ds.foldl (fun v d => v * 16 + toDigit d) v < 2 ^ 32 then
        .ok (ds.foldl (fun v d => v * 16 + toDigit d) v)
      else .error .overflow := by
  induction ds generalizing v with
  | nil => rw [bracedValue, List.foldl_nil, if_pos small]
  | cons d ds ih =>
    have digit := toDigit_lt d
    have grows := foldl_digits_le ds (v * 16 + toDigit d)
    rw [bracedValue, List.foldl_cons]
    by_cases room : v * 16 < 2 ^ 32
    · rw [if_pos room, ih (by omega)]
    · rw [if_neg room, if_neg (by omega)]

/-- An escape of a code unit overflows, or the text goes on behind it. -/
theorem decodeUnicode_cases (json5 : Bool) (b : List UInt8) :
    (UnicodeOverflows json5 b ∧ decodeUnicode json5 b = .error .overflow) ∨
      (¬ UnicodeOverflows json5 b ∧ ∃ out, decodeUnicode json5 b = .ok (out, behindUnicode json5 b)) := by
  unfold UnicodeOverflows decodeUnicode behindUnicode
  by_cases braced : json5 = true ∧ b.head? = some 0x7B
  · rw [if_pos braced, if_pos braced, if_pos braced]
    have value : bracedValue ((b.drop 1).takeWhile (· != 0x7D)) 0 =
        if bracedNumber (bracedDigits b) < 2 ^ 32 then .ok (bracedNumber (bracedDigits b))
        else .error .overflow := bracedValue_eq _ (by decide)
    dsimp only
    rw [value]
    by_cases small : bracedNumber (bracedDigits b) < 2 ^ 32
    · refine .inr ⟨Nat.not_le.mpr small, (fromU32 (bracedNumber (bracedDigits b))).getD [], ?_⟩
      rw [if_pos small]
      rfl
    · refine .inl ⟨Nat.not_lt.mp small, ?_⟩
      rw [if_neg small]
      rfl
  · rw [if_neg braced, if_neg braced, if_neg braced]
    cases first : hexAt 4 b with
    | none => exact .inr ⟨by simp, [], rfl⟩
    | some cp =>
      dsimp only
      by_cases high : isHigh cp = true ∧ b[4]? = some 0x5C ∧ b[5]? = some 0x75
      · rw [if_pos high, if_pos high]
        cases second : hexAt 4 (b.drop 6) with
        | none => exact .inr ⟨by simp, replacement, rfl⟩
        | some lo =>
          dsimp only
          by_cases below : lo < 0xDC00
          · rw [if_pos below]
            exact .inl ⟨⟨cp, lo, rfl, high.1, high.2.1, high.2.2, rfl, below⟩, rfl⟩
          · rw [if_neg below]
            refine .inr ⟨?_, _, rfl⟩
            rintro ⟨_, _, _, _, _, _, is, beneath⟩
            cases is
            exact below beneath
      · rw [if_neg high, if_neg high]
        have none : ¬ ∃ cp' lo, some cp = some cp' ∧ isHigh cp' = true ∧ b[4]? = some 0x5C ∧
            b[5]? = some 0x75 ∧ hexAt 4 (b.drop 6) = some lo ∧ lo < 0xDC00 := by
          rintro ⟨_, _, is, isHigh, slash, letter, _⟩
          cases is
          exact high ⟨isHigh, slash, letter⟩
        by_cases low : isLow cp = true
        · rw [if_pos low, if_pos low]
          exact .inr ⟨none, _, rfl⟩
        · rw [if_neg low, if_neg low]
          exact .inr ⟨none, _, rfl⟩

/-- Every escape overflows, or the text goes on behind it. -/
theorem decodeEscape_cases (json5 : Bool) (e : UInt8) (b : List UInt8) :
    (e = 0x75 ∧ UnicodeOverflows json5 b ∧ decodeEscape json5 e b = .error .overflow) ∨
      ((e = 0x75 → ¬ UnicodeOverflows json5 b) ∧
        ∃ out, decodeEscape json5 e b = .ok (out, behindEscape json5 e b)) := by
  unfold decodeEscape behindEscape
  cases letter : letterEscape e with
  | some c =>
    refine .inr ⟨?_, [c], rfl⟩
    rintro rfl
    cases letter
  | none =>
    dsimp only [Option.isSome_none]
    rw [if_neg (by decide : ¬ false = true)]
    by_cases isUnicode : e = 0x75
    · rw [if_pos isUnicode, if_pos isUnicode]
      rcases decodeUnicode_cases json5 b with ⟨beyond, fault⟩ | ⟨within, out, done⟩
      · exact .inl ⟨isUnicode, beyond, fault⟩
      · exact .inr ⟨fun _ => within, out, done⟩
    refine .inr ⟨fun is => absurd is isUnicode, ?_⟩
    rw [if_neg isUnicode, if_neg isUnicode]
    by_cases quote : e = 0x27 ∧ json5 = true
    · obtain ⟨rfl, lenient⟩ := quote
      exact ⟨_, if_pos ⟨rfl, lenient⟩⟩
    rw [if_neg quote]
    by_cases hex : e = 0x78 ∧ json5 = true
    · rw [if_pos hex, if_pos hex]
      cases hexAt 2 b with
      | none => exact ⟨_, rfl⟩
      | some cp => exact ⟨_, rfl⟩
    rw [if_neg hex, if_neg hex]
    by_cases cr : e = 0x0D ∧ json5 = true
    · obtain ⟨rfl, lenient⟩ := cr
      rw [if_pos ⟨rfl, lenient⟩]
      by_cases lineFeed : b.head? = some 0x0A
      · rw [if_pos lineFeed, if_pos ⟨rfl, lenient, lineFeed⟩]
        exact ⟨_, rfl⟩
      · have other : ¬ ((0x0D : UInt8) = 0xE2 ∧ json5 = true ∧ isLineSeparator b = true) :=
          fun both => absurd both.1 (by decide)
        rw [if_neg lineFeed, if_neg (fun both => lineFeed both.2.2), if_neg other]
        exact ⟨_, rfl⟩
    have noBreak : ¬ (e = 0x0D ∧ json5 = true ∧ b.head? = some 0x0A) :=
      fun both => cr ⟨both.1, both.2.1⟩
    rw [if_neg cr, if_neg noBreak]
    by_cases separator : e = 0xE2 ∧ json5 = true ∧ isLineSeparator b = true
    · rw [if_pos separator, if_pos separator]
      exact ⟨_, rfl⟩
    rw [if_neg separator, if_neg separator]
    split
    · exact ⟨_, rfl⟩
    · exact ⟨_, rfl⟩

theorem decodeEscapes_overflow (overflows : Overflows json5 b) :
    decodeEscapes json5 b = .error .overflow := by
  induction overflows with
  | here beyond =>
    rcases decodeUnicode_cases json5 _ with ⟨_, fault⟩ | ⟨within, _⟩
    · rw [decodeEscapes_unicode, fault]
      rfl
    · exact absurd beyond within
  | plain notBackslash _ ih =>
    rw [decodeEscapes_plain notBackslash, ih]
    rfl
  | @escape e b _ ih =>
    rcases decodeEscape_cases json5 e b with ⟨_, _, fault⟩ | ⟨_, out, done⟩
    · rw [decodeEscapes_escape, fault]
      rfl
    · rw [decodeEscapes_escape, done, map_bind_ok, ih]
      rfl

theorem decodeEscapes_done (json5 : Bool) (n : Nat) : ∀ b : List UInt8, b.length ≤ n → ¬ Overflows json5 b →
    ∃ d, decodeEscapes json5 b = .ok d := by
  induction n with
  | zero =>
    intro b short _
    rw [List.length_eq_zero_iff.mp (Nat.le_zero.mp short)]
    exact ⟨[], rfl⟩
  | succ n ih =>
    intro b short within
    match b with
    | [] => exact ⟨[], rfl⟩
    | [c] =>
      by_cases isBackslash : c = 0x5C
      · subst isBackslash
        exact ⟨[0x5C], rfl⟩
      · rw [decodeEscapes_plain isBackslash]
        exact ⟨[c], rfl⟩
    | c :: e :: rest =>
      rw [List.length_cons] at short
      by_cases isBackslash : c = 0x5C
      · subst isBackslash
        rw [decodeEscapes_escape]
        rcases decodeEscape_cases json5 e rest with ⟨rfl, beyond, _⟩ | ⟨_, out, done⟩
        · exact absurd (.here beyond) within
        · have shorter := decodeEscape_shorter done
          rw [List.length_cons] at short
          obtain ⟨d, inner⟩ := ih _ (by omega) fun behind => within (.escape behind)
          rw [done, map_bind_ok, inner]
          exact ⟨_, rfl⟩
      · obtain ⟨d, inner⟩ := ih (e :: rest) (by omega) fun behind => within (.plain isBackslash behind)
        rw [decodeEscapes_plain isBackslash, inner]
        exact ⟨_, rfl⟩

/-- The arithmetic stays within its words exactly when the text comes to no escape that
overflows. -/
theorem decodeEscapes_safe_iff : Checked.Safe (decodeEscapes json5 b) ↔ ¬ Overflows json5 b := by
  constructor
  · intro safe overflows
    rw [decodeEscapes_overflow overflows] at safe
    cases safe
  · intro within
    obtain ⟨d, done⟩ := decodeEscapes_done json5 b.length b (Nat.le_refl _) within
    rw [done]
    exact .ok d

end Faults

/-- Four digits of a control character stand for it. -/
theorem decodeEscapes_control {json5 : Bool} {c : UInt8} (control : c < 0x20) (more : List UInt8) :
    decodeEscapes json5 ([0x5C, 0x75] ++ hexDigits4 c ++ more) =
      (decodeEscapes json5 more).map (c :: ·) := by
  have all : ∀ n : Fin 32, hexNumber (hexDigits4 (UInt8.ofNat n)) = n.val ∧
      fromU32 n.val = some [UInt8.ofNat n] ∧ isHigh n.val = false ∧ isLow n.val = false := by
    decide
  have small : c.toNat < 32 := control
  obtain ⟨number, shown, high, low⟩ := all ⟨c.toNat, small⟩
  rw [UInt8.ofNat_toNat] at number shown
  obtain ⟨⟨four, digits⟩, _⟩ := hexDigits4_spec control
  have read : hexAt 4 (hexDigits4 c ++ more) = some c.toNat := by
    rw [hexAt_digits four (by decide) (by decide) digits, number]
  have unbraced : ¬ (json5 = true ∧ (hexDigits4 c ++ more).head? = some 0x7B) := by
    rintro ⟨_, braced⟩
    cases braced
  have behind : (hexDigits4 c ++ more).drop 4 = more := by
    rw [← four, List.drop_left]
  rw [List.append_assoc, List.cons_append, List.cons_append, List.nil_append, decodeEscapes_unicode,
    decodeUnicode, if_neg unbraced, read]
  dsimp only at high low ⊢
  rw [high, low, if_neg (by rintro ⟨is, _⟩; cases is), if_neg (by decide), shown, behind]
  rfl

theorem decodeEscapes_escapedByte (json5 : Bool) (c : UInt8) (more : List UInt8) :
    decodeEscapes json5 (escapedByte c ++ more) = (decodeEscapes json5 more).map (c :: ·) := by
  have letter {e c : UInt8} (known : letterEscape e = some c) :
      decodeEscapes json5 ([0x5C, e] ++ more) = (decodeEscapes json5 more).map (c :: ·) := by
    rw [List.cons_append, List.cons_append, List.nil_append, decodeEscapes_escape, decodeEscape, known]
    rfl
  by_cases double : c = 0x22
  · subst double
    exact letter rfl
  by_cases backslash : c = 0x5C
  · subst backslash
    exact letter rfl
  by_cases backspace : c = 0x08
  · subst backspace
    exact letter rfl
  by_cases formFeed : c = 0x0C
  · subst formFeed
    exact letter rfl
  by_cases lineFeed : c = 0x0A
  · subst lineFeed
    exact letter rfl
  by_cases cr : c = 0x0D
  · subst cr
    exact letter rfl
  by_cases tab : c = 0x09
  · subst tab
    exact letter rfl
  rw [escapedByte, if_neg double, if_neg backslash, if_neg backspace, if_neg formFeed, if_neg lineFeed,
    if_neg cr, if_neg tab]
  by_cases control : c < 0x20
  · rw [if_pos control]
    exact decodeEscapes_control control more
  · rw [if_neg control]
    exact decodeEscapes_plain backslash more

/-- What is written with escapes decodes to what was written. -/
theorem decodeEscapes_writeEscapedString (json5 : Bool) (s : List UInt8) :
    decodeEscapes json5 (writeEscapedString s) = .ok s := by
  induction s with
  | nil => rfl
  | cons c s ih =>
    rw [writeEscapedString, List.flatMap_cons, decodeEscapes_escapedByte]
    rw [writeEscapedString] at ih
    rw [ih]
    rfl

end RustSql.Jsonb
