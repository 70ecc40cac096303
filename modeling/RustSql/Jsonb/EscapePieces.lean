import RustSql.Jsonb.Escapes
import RustSql.Jsonb.NumberRendering

/-! The decoder on a payload the scanner accepts, piece by piece, beside what the pieces
denote. -/

namespace RustSql.Jsonb

open RustSql.Foundation RustSql.Types

/-- The bytes a piece stands for by itself; a surrogate alone is U+FFFD. -/
def Piece.bytes : Piece → List UInt8
  | plain c => [c]
  | escape e | char e => [UInt8.ofNat (escapeUnit e)]
  | unicode ds | hex ds => (fromU32 (hexNumber ds)).getD replacement
  | joined _ => []

/-- The UTF-8 of a string: an escape of a high surrogate and one of a low surrogate behind
it are one character. -/
def contentBytes : List Piece → List UInt8
  | [] => []
  | .unicode ds :: .unicode ds' :: rest =>
    if isHigh (hexNumber ds) ∧ isLow (hexNumber ds') then
      utf8Bytes (pairOf (hexNumber ds) (hexNumber ds')) ++ contentBytes rest
    else (Piece.unicode ds).bytes ++ contentBytes (.unicode ds' :: rest)
  | p :: rest => p.bytes ++ contentBytes rest

/-- The bytes the decoder makes of a piece by itself: behind a low surrogate it goes on
with the digits. -/
def Piece.decoded : Piece → List UInt8
  | unicode ds => if isLow (hexNumber ds) then replacement ++ ds else (unicode ds).bytes
  | p => p.bytes

def decodePieces : List Piece → Checked Unit (List UInt8)
  | [] => .ok []
  | .unicode ds :: .unicode ds' :: rest =>
    if isHigh (hexNumber ds) then
      if hexNumber ds' < 0xDC00 then .error .overflow
      else
        (decodePieces rest).map
          ((fromU32 (pairOf (hexNumber ds) (hexNumber ds'))).getD [] ++ ·)
    else (decodePieces (.unicode ds' :: rest)).map ((Piece.unicode ds).decoded ++ ·)
  | p :: rest => (decodePieces rest).map (p.decoded ++ ·)

/-- Every low surrogate stands behind a high one, and what stands behind a high one is no
other escape of a code unit. -/
def Paired : List Piece → Bool
  | [] => true
  | .unicode ds :: .unicode ds' :: rest =>
    if isHigh (hexNumber ds) then isLow (hexNumber ds') && Paired rest
    else !isLow (hexNumber ds) && Paired (.unicode ds' :: rest)
  | .unicode ds :: rest => !isLow (hexNumber ds) && Paired rest
  | _ :: rest => Paired rest

section Decoding

variable {strict json5 : Bool} {quote : UInt8}

theorem hexNumber_append (ds : List UInt8) (d : UInt8) :
    hexNumber (ds ++ [d]) = hexNumber ds * 16 + hexValue d := by
  simp [hexNumber]

theorem hexNumber_lt {ds : List UInt8} (all : ∀ b ∈ ds, isHexDigit b = true) :
    hexNumber ds < 16 ^ ds.length := by
  induction ds using List.reverseRecOn with
  | nil => decide
  | append_singleton ds d ih =>
    obtain ⟨others, last⟩ := List.forall_mem_append.mp all
    have bytes : isHexDigit d = true → hexValue d < 16 := forall_byte (by decide +kernel) d
    have digit : hexValue d < 16 := bytes (last d List.mem_cons_self)
    have before := ih others
    rw [hexNumber_append, List.length_append, List.length_singleton, Nat.pow_succ]
    omega

theorem hexAt_digits {n : Nat} {ds : List UInt8} (length : ds.length = n) (filled : 0 < n) (short : n ≤ 4)
    (all : ∀ b ∈ ds, isHexDigit b = true) (rest : List UInt8) :
    hexAt n (ds ++ rest) = some (hexNumber ds) := by
  subst length
  have some_ : ds ≠ [] := List.length_pos_iff.mp filled
  have small := hexNumber_lt all
  have bound : 16 ^ ds.length ≤ 16 ^ 4 := Nat.pow_le_pow_right (by decide) short
  have within : hexNumber ds < 2 ^ 32 := by omega
  rw [hexAt, if_pos (by rw [List.length_append]; omega), List.take_left,
    fromStrRadix16_run _ all some_, if_pos within]

theorem letterEscape_plain {e : UInt8} (known : isPlainEscape e = true) :
    letterEscape e = some (UInt8.ofNat (escapeUnit e)) := by
  simp only [isPlainEscape, Bool.or_eq_true, beq_iff_eq] at known
  rcases known with ((((((is | is) | is) | is) | is) | is) | is) | is <;> subst is <;> rfl

theorem map_bind_ok (out rest : List UInt8) :
    (Except.ok (out, rest) : Checked Unit _).bind
        (fun (out, rest) => (decodeEscapes json5 rest).map (out ++ ·)) =
      (decodeEscapes json5 rest).map (out ++ ·) := rfl

/-- Digits are decoded as they stand. -/
theorem decodeEscapes_digits {ds : List UInt8} (all : ∀ b ∈ ds, isHexDigit b = true) (more : List UInt8) :
    decodeEscapes json5 (ds ++ more) = (decodeEscapes json5 more).map (ds ++ ·) := by
  induction ds with
  | nil =>
    rw [List.nil_append]
    cases decodeEscapes json5 more <;> rfl
  | cons d ds ih =>
    obtain ⟨digit, others⟩ := List.forall_mem_cons.mp all
    have notBackslash : d ≠ 0x5C := by
      rintro rfl
      exact absurd digit (by decide)
    rw [List.cons_append, decodeEscapes_plain notBackslash, ih others]
    cases decodeEscapes json5 more <;> rfl

/-- A piece that is no escape of a code unit. -/
theorem decodeEscapes_piece {p : Piece} {more : List UInt8} (good : p.Good strict quote)
    (ends : p.Ends more) (other : ∀ ds, p ≠ .unicode ds) (flag : p.json5 = true → p.escaped = true → json5 = true) :
    decodeEscapes json5 (p.text ++ more) = (decodeEscapes json5 more).map (p.bytes ++ ·) := by
  cases p with
  | plain c => exact decodeEscapes_plain good.2.1 more
  | escape e =>
    have step : decodeEscape json5 e more = .ok ([UInt8.ofNat (escapeUnit e)], more) := by
      rw [decodeEscape, letterEscape_plain good]
    exact (decodeEscapes_escape json5 e more).trans (by rw [step, map_bind_ok]; rfl)
  | unicode ds => exact absurd rfl (other ds)
  | hex ds =>
    have lenient : json5 = true := flag rfl rfl
    obtain ⟨_, two, all⟩ := good
    have digits := hexAt_digits two (by decide) (by decide) all more
    have behind : (ds ++ more).drop 2 = more := by rw [← two, List.drop_left]
    have step : decodeEscape json5 0x78 (ds ++ more) = .ok ((Piece.hex ds).bytes, more) := by
      rw [decodeEscape, show letterEscape 0x78 = none from rfl]
      dsimp only
      rw [if_neg (by decide), if_neg (by rintro ⟨is, _⟩; cases is), if_pos ⟨rfl, lenient⟩, digits, behind]
      rfl
    exact (decodeEscapes_escape json5 0x78 (ds ++ more)).trans (by rw [step, map_bind_ok])
  | char e =>
    have lenient : json5 = true := flag rfl rfl
    have step : decodeEscape json5 e more = .ok ((Piece.char e).bytes, more) := by
      rcases good.2 with rfl | rfl | rfl
      · rfl
      · rfl
      · rw [decodeEscape, show letterEscape 0x27 = none from rfl]
        dsimp only
        rw [if_neg (by decide), if_pos ⟨rfl, lenient⟩]
        rfl
    exact (decodeEscapes_escape json5 e more).trans (by rw [step, map_bind_ok])
  | joined line =>
    have lenient : json5 = true := flag rfl rfl
    have step : ∃ e tail, line = e :: tail ∧ decodeEscape json5 e (tail ++ more) = .ok ([], more) := by
      have known := good.2
      simp only [lineEnds, List.mem_cons, List.not_mem_nil, or_false] at known
      subst lenient
      rcases known with rfl | rfl | rfl | rfl | rfl
      · exact ⟨0x0A, [], rfl, rfl⟩
      · refine ⟨0x0D, [], rfl, ?_⟩
        rw [List.nil_append, decodeEscape, show letterEscape 0x0D = none from rfl]
        dsimp only
        rw [if_neg (by decide), if_neg (by decide), if_neg (by decide), if_pos ⟨rfl, rfl⟩,
          if_neg (ends rfl)]
      · exact ⟨0x0D, [0x0A], rfl, rfl⟩
      · exact ⟨0xE2, [0x80, 0xA8], rfl, rfl⟩
      · exact ⟨0xE2, [0x80, 0xA9], rfl, rfl⟩
    obtain ⟨e, tail, rfl, step⟩ := step
    exact (decodeEscapes_escape json5 e (tail ++ more)).trans (by rw [step, map_bind_ok]; rfl)

/-- Another escape of a code unit is next. -/
def nextUnicode (more : List UInt8) : Prop := more[0]? = some 0x5C ∧ more[1]? = some 0x75

instance (more : List UInt8) : Decidable (nextUnicode more) :=
  inferInstanceAs (Decidable (_ ∧ _))

/-- The four digits of an escape, and what is next. -/
theorem decodeUnicode_digits {ds : List UInt8} (four : ds.length = 4) (all : ∀ b ∈ ds, isHexDigit b = true)
    (more : List UInt8) :
    decodeUnicode json5 (ds ++ more) =
      if isHigh (hexNumber ds) ∧ nextUnicode more then
        match hexAt 4 (more.drop 2) with
        | none => .ok (replacement, more)
        | some lo =>
          if lo < 0xDC00 then .error .overflow
          else .ok ((fromU32 (pairOf (hexNumber ds) lo)).getD [], more.drop 6)
      else if isLow (hexNumber ds) then .ok (replacement, ds ++ more)
      else .ok ((fromU32 (hexNumber ds)).getD replacement, more) := by
  have notBrace : (ds ++ more).head? ≠ some 0x7B := by
    obtain ⟨a, b, c, d, rfl⟩ := four_digits four
    rintro ⟨⟩
    exact absurd (all _ List.mem_cons_self) (by decide)
  have digits := hexAt_digits four (by decide) (by decide) all more
  have at_ (n : Nat) : (ds ++ more)[4 + n]? = more[n]? := by
    rw [List.getElem?_append_right (by omega), four, Nat.add_sub_cancel_left]
  have behind (n : Nat) : (ds ++ more).drop (4 + n) = more.drop n := by
    rw [← List.drop_drop, ← four, List.drop_left]
  have first := at_ 0
  have second := at_ 1
  have after := behind 0
  have digits' := behind 2
  have rest := behind 6
  rw [List.drop_zero] at after
  unfold decodeUnicode nextUnicode
  rw [if_neg (fun both => notBrace both.2), digits]
  dsimp only
  rw [first, second, after, digits', rest]
  rfl

theorem decodeEscapes_unicode (json5 : Bool) (b : List UInt8) :
    decodeEscapes json5 (0x5C :: 0x75 :: b) =
      (decodeUnicode json5 b).bind fun (out, rest) => (decodeEscapes json5 rest).map (out ++ ·) :=
  decodeEscapes_escape json5 0x75 b

/-- An escape of a code unit that is not taken as the first of two. -/
theorem decodeEscapes_lone {ds more : List UInt8} (four : ds.length = 4)
    (all : ∀ b ∈ ds, isHexDigit b = true) (alone : ¬ (isHigh (hexNumber ds) = true ∧ nextUnicode more)) :
    decodeEscapes json5 ((Piece.unicode ds).text ++ more) =
      (decodeEscapes json5 more).map ((Piece.unicode ds).decoded ++ ·) := by
  have step := decodeEscapes_unicode json5 (ds ++ more)
  rw [decodeUnicode_digits four all, if_neg alone] at step
  refine Eq.trans step ?_
  unfold Piece.decoded
  by_cases low : isLow (hexNumber ds) = true
  · rw [if_pos low]
    dsimp only
    rw [if_pos low, map_bind_ok, decodeEscapes_digits all]
    cases decodeEscapes json5 more <;> simp [Except.map]
  · rw [if_neg low]
    dsimp only
    rw [if_neg low, map_bind_ok]
    rfl

/-- An escape of a high surrogate takes the next escape with it. -/
theorem decodeEscapes_pair {ds ds' more : List UInt8} (four : ds.length = 4)
    (all : ∀ b ∈ ds, isHexDigit b = true) (four' : ds'.length = 4) (all' : ∀ b ∈ ds', isHexDigit b = true)
    (high : isHigh (hexNumber ds) = true) :
    decodeEscapes json5 ((Piece.unicode ds).text ++ ((Piece.unicode ds').text ++ more)) =
      if hexNumber ds' < 0xDC00 then .error .overflow
      else (decodeEscapes json5 more).map
        ((fromU32 (pairOf (hexNumber ds) (hexNumber ds'))).getD [] ++ ·) := by
  have step := decodeEscapes_unicode json5 (ds ++ ((Piece.unicode ds').text ++ more))
  have next : nextUnicode ((Piece.unicode ds').text ++ more) := ⟨rfl, rfl⟩
  have digits := hexAt_digits four' (by decide) (by decide) all' more
  have behind : ((Piece.unicode ds').text ++ more).drop 2 = ds' ++ more := rfl
  have after : ((Piece.unicode ds').text ++ more).drop 6 = more := by
    rw [show (6 : Nat) = (Piece.unicode ds').text.length by simp [Piece.text, four'], List.drop_left]
  rw [decodeUnicode_digits four all, if_pos ⟨high, next⟩, behind, digits] at step
  dsimp only at step
  refine Eq.trans step ?_
  by_cases below : hexNumber ds' < 0xDC00
  · rw [if_pos below, if_pos below]
    rfl
  · rw [if_neg below, if_neg below, map_bind_ok, after]

theorem not_nextUnicode {ps : List Piece} (spelled : Spelled strict quote ps)
    (other : ∀ ds rest, ps ≠ .unicode ds :: rest) : ¬ nextUnicode (piecesText ps) := by
  rintro ⟨first, second⟩
  cases ps with
  | nil => cases first
  | cons p rest =>
    obtain ⟨good, _, _⟩ := spelled
    rw [piecesText_cons] at first second
    cases p with
    | plain c => exact good.2.1 (Option.some.inj first)
    | escape e =>
      have is : e = 0x75 := Option.some.inj second
      subst is
      exact absurd (show isPlainEscape 0x75 = true from good) (by decide)
    | unicode ds => exact other ds rest rfl
    | hex ds => exact absurd (Option.some.inj second) (by decide)
    | char e =>
      have is : e = 0x75 := Option.some.inj second
      subst is
      exact absurd good.2 (by decide)
    | joined line =>
      have known := good.2
      simp only [lineEnds, List.mem_cons, List.not_mem_nil, or_false] at known
      rcases known with rfl | rfl | rfl | rfl | rfl <;> exact absurd (Option.some.inj second) (by decide)

theorem decoded_eq_bytes {p : Piece} (other : ∀ ds, p ≠ .unicode ds) : p.decoded = p.bytes := by
  cases p with
  | unicode ds => exact absurd rfl (other ds)
  | _ => rfl

/-- On the payload of a string the decoder goes piece by piece. -/
theorem decodeEscapes_pieces {ps : List Piece} (spelled : Spelled strict quote ps)
    (flag : ps.any Piece.json5 = true → json5 = true) :
    decodeEscapes json5 (piecesText ps) = decodePieces ps := by
  induction ps using decodePieces.induct with
  | case1 => rfl
  | case2 ds ds' rest high below =>
    obtain ⟨good, _, good', _, others⟩ := spelled
    rw [piecesText_cons, piecesText_cons, decodeEscapes_pair good.1 good.2 good'.1 good'.2 high, decodePieces,
      if_pos high, if_pos below, if_pos below]
  | case3 ds ds' rest high above ih =>
    obtain ⟨good, _, good', _, others⟩ := spelled
    rw [piecesText_cons, piecesText_cons, decodeEscapes_pair good.1 good.2 good'.1 good'.2 high, decodePieces,
      if_pos high, if_neg above, if_neg above, ih others flag]
  | case4 ds ds' rest notHigh ih =>
    obtain ⟨good, _, others⟩ := spelled
    rw [piecesText_cons, decodeEscapes_lone good.1 good.2 (fun both => notHigh both.1), decodePieces,
      if_neg notHigh, ih others flag]
  | case5 p rest other ih =>
    obtain ⟨good, ends, others⟩ := spelled
    have step : decodePieces (p :: rest) = (decodePieces rest).map (p.decoded ++ ·) := by
      rw [decodePieces]
      exact other
    have inner : rest.any Piece.json5 = true → json5 = true := by
      intro some_
      exact flag (by rw [List.any_cons, some_, Bool.or_true])
    rw [piecesText_cons, step, ← ih others inner]
    by_cases isUnicode : ∃ ds, p = .unicode ds
    · obtain ⟨ds, rfl⟩ := isUnicode
      refine decodeEscapes_lone good.1 good.2 fun both => ?_
      exact not_nextUnicode others (fun ds' more is => other ds ds' more rfl is) both.2
    · have notUnicode : ∀ ds, p ≠ .unicode ds := fun ds is => isUnicode ⟨ds, is⟩
      rw [decoded_eq_bytes notUnicode]
      refine decodeEscapes_piece good ends notUnicode fun only5 _ => ?_
      exact flag (by rw [List.any_cons, only5, Bool.true_or])

end Decoding

end RustSql.Jsonb
