import Mathlib.Data.Nat.Digits.Lemmas
import Mathlib.Tactic.Ring
import RustSql.Jsonb.Denotation
import RustSql.Jsonb.Grammar

/-! How numbers are rendered: every payload the parser makes becomes a number of RFC 8259
of the same value, but for hexadecimal ones with a minus sign or too many digits. -/

namespace RustSql.Jsonb

set_option maxRecDepth 4000

open Rfc

section Values

variable {d : Decimal}

theorem dropWhile_run {f : UInt8 → Bool} {run rest : List UInt8} (all : ∀ b ∈ run, f b = true)
    (stop : ∀ b ∈ rest.head?, f b = false) : (run ++ rest).dropWhile f = rest := by
  have whole := List.takeWhile_append_dropWhile (p := f) (l := run ++ rest)
  rw [takeWhile_run all stop] at whole
  exact List.append_cancel_left whole

theorem expText_stop (formed : d.Formed) : ∀ b ∈ (expText d.exp).head?, isDigit b = false := by
  cases exp : d.exp with
  | none => nofun
  | some parts =>
    obtain ⟨e, sign, ds⟩ := parts
    rintro b ⟨⟩
    rcases (formed.exp e sign ds exp).1 with rfl | rfl <;> decide

theorem fracText_stop (formed : d.Formed) :
    ∀ b ∈ (fracText d.frac ++ expText d.exp).head?, isDigit b = false := by
  cases d.frac with
  | none => exact expText_stop formed
  | some ds =>
    rintro b ⟨⟩
    decide

/-- The number without its sign. -/
def Decimal.magnitude (d : Decimal) : ℚ :=
  digitsValue (d.int ++ d.frac.getD []) *
    10 ^ (exponentValue (expText d.exp).tail - (d.frac.getD []).length)

theorem fractionOf_parts (formed : d.Formed) :
    fractionOf (fracText d.frac ++ expText d.exp) = (d.frac.getD [], expText d.exp) := by
  cases frac : d.frac with
  | none =>
    have noDot : ∀ rest, expText d.exp ≠ 0x2E :: rest := by
      intro rest is
      cases exp : d.exp with
      | none => rw [exp] at is; cases is
      | some parts =>
        obtain ⟨e, sign, ds⟩ := parts
        rw [exp] at is
        have letter := (List.cons.inj is).1
        rcases (formed.exp e sign ds exp).1 with rfl | rfl <;> exact absurd letter (by decide)
    simp only [fracText, List.nil_append, Option.getD_none]
    rw [fractionOf]
    exact noDot
  | some ds =>
    have all := formed.frac ds frac
    simp only [fracText, List.cons_append, Option.getD_some, fractionOf]
    rw [takeWhile_run all (expText_stop formed), dropWhile_run all (expText_stop formed)]

theorem decimalValue_body (formed : d.Formed) : decimalValue d.body = d.magnitude := by
  have stop := fracText_stop formed
  rw [decimalValue, Decimal.body, takeWhile_run formed.int stop, dropWhile_run formed.int stop,
    fractionOf_parts formed, Decimal.magnitude]

theorem startsHex_iff (p : JParser) : startsHex p = (stripHexPrefix p.rest).isSome := by
  unfold startsHex stripHexPrefix
  split <;> simp_all

theorem unsignedValue_body (formed : d.Formed) : unsignedValue d.body = d.magnitude := by
  have notHex := @startsHex_run _ [] 0 formed nofun
  rw [startsHex_iff, List.append_nil, Option.isSome_eq_false_iff, Option.isNone_iff_eq_none] at notHex
  rw [unsignedValue, notHex]
  exact decimalValue_body formed

/-- The value of a payload with a sign. -/
theorem numberValue_signed {sign rest : List UInt8} (signed : isSign sign)
    (unsigned : ∀ b ∈ rest.head?, b ≠ 0x2D ∧ b ≠ 0x2B) :
    numberValue (sign ++ rest) = if sign = [0x2D] then -unsignedValue rest else unsignedValue rest := by
  rcases signed with rfl | rfl | rfl
  · rw [if_neg (by decide), List.nil_append]
    cases rest with
    | nil => rfl
    | cons b rest =>
      obtain ⟨noMinus, noPlus⟩ := unsigned b rfl
      rw [numberValue]
      · rintro _ is
        exact noMinus (List.cons.inj is).1
      · rintro _ is
        exact noPlus (List.cons.inj is).1
  · rfl
  · rfl

theorem body_unsigned (formed : d.Formed) : ∀ b ∈ d.body.head?, b ≠ 0x2D ∧ b ≠ 0x2B := by
  obtain ⟨c, tail, body, first⟩ := Decimal.body_first formed
  rw [body]
  rintro b ⟨⟩
  rcases first with digit | rfl
  · constructor <;> rintro rfl <;> exact absurd digit (by decide)
  · decide

theorem numberValue_text (formed : d.Formed) :
    numberValue d.text = if d.sign = [0x2D] then -d.magnitude else d.magnitude := by
  rw [Decimal.text, numberValue_signed formed.sign (body_unsigned formed), unsignedValue_body formed]

theorem numberValue_payload (formed : d.Formed) :
    numberValue d.payload = if d.sign = [0x2D] then -d.magnitude else d.magnitude := by
  unfold Decimal.payload
  split
  · rename_i plus
    have unsigned := numberValue_signed (.inl rfl) (body_unsigned formed)
    rw [List.nil_append, if_neg (by decide)] at unsigned
    rw [unsigned, if_neg (by rw [plus]; decide), unsignedValue_body formed]
  · exact numberValue_text formed

end Values

theorem digitsValue_append (xs ys : List UInt8) :
    digitsValue (xs ++ ys) = digitsValue xs * 10 ^ ys.length + digitsValue ys := by
  induction ys using List.reverseRecOn with
  | nil => simp [digitsValue]
  | append_singleton ys b ih =>
    rw [← List.append_assoc]
    simp only [digitsValue, List.foldl_append, List.foldl_cons, List.foldl_nil,
      List.length_append, List.length_singleton] at ih ⊢
    rw [ih, Nat.pow_succ]
    ring

/-- The digits of a number, from the last one on. -/
theorem digitsValue_digits {ds : List Nat} (all : ∀ d ∈ ds, d < 10) :
    digitsValue (ds.reverse.map fun d => UInt8.ofNat (0x30 + d)) = Nat.ofDigits 10 ds := by
  induction ds with
  | nil => rfl
  | cons d ds ih =>
    obtain ⟨small, others⟩ := List.forall_mem_cons.mp all
    have digit : (UInt8.ofNat (0x30 + d)).toNat - 0x30 = d := by
      rw [UInt8.toNat_ofNat']
      omega
    rw [List.reverse_cons, List.map_append, digitsValue_append, ih others, Nat.ofDigits_cons,
      List.map_singleton]
    simp only [digitsValue, List.length_singleton, List.foldl_cons, List.foldl_nil, digit]
    ring

theorem decimalDigits_value (n : Nat) : digitsValue (decimalDigits n) = n := by
  unfold decimalDigits
  split
  · rename_i zero
    subst zero
    rfl
  · rw [digitsValue_digits fun d => Nat.digits_lt_base (by decide), Nat.ofDigits_digits]

theorem decimalDigits_digits (n : Nat) : ∀ b ∈ decimalDigits n, isDigit b = true := by
  unfold decimalDigits
  split
  · decide
  · intro b member
    obtain ⟨d, inside, rfl⟩ := List.mem_map.mp member
    have small : d < 10 := Nat.digits_lt_base (by decide) (List.mem_reverse.mp inside)
    have all : ∀ d : Fin 10, isDigit (UInt8.ofNat (0x30 + d)) = true := by decide
    exact all ⟨d, small⟩

theorem decimalDigits_filled (n : Nat) : decimalDigits n ≠ [] := by
  unfold decimalDigits
  split
  · decide
  · rename_i positive
    simpa [Nat.digits_ne_nil_iff_ne_zero] using positive

theorem decimalDigits_first (n : Nat) (long : 1 < (decimalDigits n).length) :
    (decimalDigits n).head? ≠ some 0x30 := by
  unfold decimalDigits at long ⊢
  split
  · rename_i zero
    simp [zero] at long
  · rename_i positive
    have filled : Nat.digits 10 n ≠ [] := Nat.digits_ne_nil_iff_ne_zero.mpr positive
    have last := Nat.getLast_digit_ne_zero 10 positive
    have small : (Nat.digits 10 n).getLast filled < 10 :=
      Nat.digits_lt_base (by decide) (List.getLast_mem filled)
    rw [List.head?_map, List.head?_reverse, List.getLast?_eq_some_getLast filled, Option.map_some]
    intro is
    have byte := congrArg UInt8.toNat (Option.some.inj is)
    rw [UInt8.toNat_ofNat'] at byte
    have zero : (Nat.digits 10 n).getLast filled = 0 := by
      simp only [UInt8.reduceToNat] at byte
      omega
    exact last zero

/-- A number written without sign, fraction and exponent. -/
def integerText (n : Nat) : Decimal := ⟨[], decimalDigits n, none, none⟩

theorem integerText_number (n : Nat) : Number (integerText n) :=
  ⟨.inl rfl, ⟨decimalDigits_filled n, decimalDigits_digits n⟩, decimalDigits_first n, nofun, nofun⟩

theorem integerText_text (n : Nat) : (integerText n).text = decimalDigits n := by
  simp [integerText, Decimal.text, Decimal.body, fracText, expText]

theorem integerText_value (n : Nat) : numberValue (decimalDigits n) = n := by
  have formed := ((number_iff _).mp (integerText_number n)).1
  have value := numberValue_text formed
  rw [integerText_text] at value
  have zero : exponentValue [] = 0 := rfl
  rw [value, if_neg (show ¬ (integerText n).sign = [0x2D] from nofun), Decimal.magnitude]
  simp [integerText, expText, zero, decimalDigits_value]

/-- A hexadecimal number that is not rewritten. -/
def Hex.beyond (h : Hex) : Bool := h.sign == [0x2D] || 2 ^ 128 ≤ hexNumber h.run

section Hexadecimal

variable {h : Hex}

theorem trimPlus_sign {sign rest : List UInt8} (signed : isSign sign) (unsigned : rest.head? ≠ some 0x2B) :
    trimPlus (sign ++ rest) = if sign = [0x2B] then rest else sign ++ rest := by
  have stop : ∀ b ∈ rest.head?, (b == 0x2B) = false := by
    rintro b first
    rw [beq_eq_false_iff_ne]
    rintro rfl
    exact unsigned first
  unfold trimPlus
  rcases signed with rfl | rfl | rfl
  · exact @dropWhile_run _ [] _ (by simp) stop
  · rfl
  · exact @dropWhile_run _ [0x2B] _ (by decide) stop

theorem stripHexPrefix_letter {letter : UInt8} (isLetter : letter = 0x78 ∨ letter = 0x58)
    (rest : List UInt8) : stripHexPrefix (0x30 :: letter :: rest) = some rest := by
  rcases isLetter with rfl | rfl <;> rfl

theorem fromStrRadix16_run {run : List UInt8} (bound : Nat) (all : ∀ b ∈ run, isHexDigit b = true)
    (filled : run ≠ []) :
    fromStrRadix16 bound run = if hexNumber run < bound then some (hexNumber run) else none := by
  unfold fromStrRadix16
  split
  · exact absurd (all _ List.mem_cons_self) (by decide)
  · simp only [ne_eq, filled, not_false_eq_true, List.all_eq_true.mpr all, true_and]

/-- The digits behind `0x` are read as they are. -/
theorem canonicalInt5_digits {s run : List UInt8} {letter : UInt8} (unsigned : trimPlus s = 0x30 :: letter :: run)
    (isLetter : letter = 0x78 ∨ letter = 0x58) (all : ∀ b ∈ run, isHexDigit b = true)
    (filled : run ≠ []) :
    canonicalInt5 s =
      if hexNumber run < 2 ^ 128 then decimalDigits (hexNumber run) else 0x30 :: letter :: run := by
  have noMinus : ∀ rest, run ≠ 0x2D :: rest := by
    rintro rest rfl
    exact absurd (all _ List.mem_cons_self) (by decide)
  unfold canonicalInt5
  dsimp only
  rw [unsigned, stripHexPrefix_letter isLetter]
  simp only [fromStrRadix16_run _ all filled]
  by_cases small : hexNumber run < 2 ^ 128
  · rw [if_pos small, if_pos small]
    rfl
  · rw [if_neg small, if_neg small]

theorem canonicalInt5_hex (formed : h.Formed) :
    canonicalInt5 h.text =
      if h.beyond then (if h.sign = [0x2B] then h.text.tail else h.text)
      else decimalDigits (hexNumber h.run) := by
  have trimmed : trimPlus h.text = if h.sign = [0x2B] then 0x30 :: h.letter :: h.run else h.text :=
    trimPlus_sign formed.sign (by simp)
  unfold Hex.beyond
  rcases formed.sign with none | minus | plus
  · rw [none, if_neg (by decide), Hex.text, none, List.nil_append] at trimmed
    rw [Hex.text, none, List.nil_append, canonicalInt5_digits trimmed formed.letter formed.run formed.some]
    by_cases small : hexNumber h.run < 2 ^ 128
    · rw [if_pos small, if_neg (by simpa using small)]
    · rw [if_neg small, if_pos (by simpa using small)]
      rfl
  · rw [minus, if_neg (by decide), Hex.text, minus] at trimmed
    unfold canonicalInt5
    rw [Hex.text, minus, trimmed]
    rfl
  · rw [plus, if_pos rfl, Hex.text, plus] at trimmed
    rw [Hex.text, plus, canonicalInt5_digits trimmed formed.letter formed.run formed.some]
    by_cases small : hexNumber h.run < 2 ^ 128
    · rw [if_pos small, if_neg (by simpa using small)]
    · rw [if_neg small, if_pos (by simpa using small)]
      rfl

theorem numberValue_hex (formed : h.Formed) (within : h.beyond = false) :
    numberValue h.text = hexNumber h.run := by
  have noMinus : h.sign ≠ [0x2D] := by
    rintro minus
    simp [Hex.beyond, minus] at within
  rw [Hex.text, numberValue_signed formed.sign (by rintro b ⟨⟩; decide), if_neg noMinus, unsignedValue,
    stripHexPrefix_letter formed.letter]

end Hexadecimal

/-- The number of RFC 8259: without a plus sign, and with a zero where no digit is. -/
def Decimal.rfc (d : Decimal) : Decimal :=
  ⟨if d.sign = [0x2B] then [] else d.sign, if d.int = [] then [0x30] else d.int,
    d.frac.map fun ds => if ds = [] then [0x30] else ds, d.exp⟩

section Reals

variable {d : Decimal}

theorem rfc_number (formed : d.Formed) : Number d.rfc := by
  refine ⟨?_, ?_, ?_, ?_, ?_⟩
  · rcases formed.sign with is | is | is <;> simp [Decimal.rfc, is]
  · by_cases none : d.int = []
    · simp only [Decimal.rfc, none, if_true]
      decide
    · simp only [Decimal.rfc, none, if_false]
      exact ⟨none, formed.int⟩
  · by_cases none : d.int = []
    · simp [Decimal.rfc, none]
    · simp only [Decimal.rfc, none, if_false]
      exact formed.noLeadingZero
  · intro ds member
    obtain ⟨run, is, rfl⟩ := Option.map_eq_some_iff.mp member
    by_cases empty : run = []
    · rw [if_pos empty]
      decide
    · rw [if_neg empty]
      exact ⟨empty, formed.frac run is⟩
  · intro e sign ds is
    obtain ⟨letter, signed, all, filled⟩ := formed.exp e sign ds is
    exact ⟨letter, signed, filled, all⟩

theorem rfc_magnitude (d : Decimal) : d.rfc.magnitude = d.magnitude := by
  have int : digitsValue d.rfc.int = digitsValue d.int := by
    by_cases none : d.int = []
    · rw [Decimal.rfc, none]
      rfl
    · simp [Decimal.rfc, none]
  have same : d.rfc.exp = d.exp := rfl
  unfold Decimal.magnitude
  rw [digitsValue_append, digitsValue_append, int, same]
  cases frac : d.frac with
  | none => simp [Decimal.rfc, frac]
  | some ds =>
    by_cases empty : ds = []
    · have zero : digitsValue [0x30] = 0 := rfl
      have nothing : digitsValue [] = 0 := rfl
      simp only [Decimal.rfc, frac, empty, Option.map_some, if_true, Option.getD_some, zero, nothing,
        List.length_singleton, List.length_nil, Nat.add_zero, pow_zero, mul_one, pow_one, Nat.cast_zero,
        sub_zero, Nat.cast_mul, Nat.cast_one, Nat.cast_ofNat]
      rw [zpow_sub_one₀ (by norm_num : (10 : ℚ) ≠ 0)]
      ring
    · simp [Decimal.rfc, frac, empty]

theorem rfc_value (formed : d.Formed) : numberValue d.rfc.text = numberValue d.payload := by
  have minus : d.rfc.sign = [0x2D] ↔ d.sign = [0x2D] := by
    rcases formed.sign with is | is | is <;> simp [Decimal.rfc, is]
  rw [numberValue_text ((number_iff _).mp (rfc_number formed)).1, numberValue_payload formed, rfc_magnitude]
  by_cases is : d.sign = [0x2D]
  · rw [if_pos is, if_pos (minus.mpr is)]
  · rw [if_neg is, if_neg (fun negative => is (minus.mp negative))]

theorem rfc_payload (d : Decimal) : d.payload = d.rfc.sign ++ d.body := by
  unfold Decimal.payload Decimal.rfc
  split <;> rfl

theorem isDigit_not_dot {run : List UInt8} (all : ∀ b ∈ run, isDigit b = true) :
    ∀ b ∈ run, (b != 0x2E) = true := by
  intro b member
  rw [bne_iff_ne]
  rintro rfl
  exact absurd (all _ member) (by decide)

theorem expText_not_dot (formed : d.Formed) : ∀ b ∈ expText d.exp, (b != 0x2E) = true := by
  cases exp : d.exp with
  | none => nofun
  | some parts =>
    obtain ⟨e, sign, ds⟩ := parts
    obtain ⟨letter, signed, all, _⟩ := formed.exp e sign ds exp
    refine List.forall_mem_cons.mpr ⟨by rcases letter with rfl | rfl <;> decide, ?_⟩
    refine List.forall_mem_append.mpr ⟨?_, isDigit_not_dot all⟩
    rcases signed with rfl | rfl | rfl <;> decide

/-- A sign in front is kept, and the rest gets the zeros that are missing. -/
def fillDot : List UInt8 → List UInt8
  | 0x2E :: frac => [0x30, 0x2E] ++ frac
  | rest =>
    match splitDot rest with
    | some (whole, frac) => whole ++ (if frac.head?.any isDigit then [] else [0x30]) ++ frac
    | none => rest

theorem canonicalFloat5_signed {s sign rest : List UInt8} {b : UInt8} (trimmed : trimPlus s = sign ++ b :: rest)
    (signed : sign = [] ∨ sign = [0x2D]) (first : isDigit b = true ∨ b = 0x2E) :
    canonicalFloat5 s = sign ++ fillDot (b :: rest) := by
  have other : b ≠ 0x49 ∧ b ≠ 0x4E ∧ b ≠ 0x2D := by
    rcases first with digit | rfl
    · refine ⟨?_, ?_, ?_⟩ <;> rintro rfl <;> exact absurd digit (by decide)
    · decide
  have notNamed {text : List UInt8} {c : UInt8} (differ : b ≠ c) : b :: rest ≠ c :: text :=
    fun is => differ (List.cons.inj is).1
  have infinity : ascii "Infinity" = 0x49 :: ascii "nfinity" := rfl
  have minusInfinity : ascii "-Infinity" = 0x2D :: 0x49 :: ascii "nfinity" := rfl
  have nan : ascii "NaN" = 0x4E :: ascii "aN" := rfl
  unfold canonicalFloat5
  dsimp only
  rw [trimmed, infinity, minusInfinity, nan]
  by_cases dot : b = 0x2E
  · subst dot
    rcases signed with rfl | rfl
    · rw [List.nil_append, if_neg (by simp), if_neg (by simp), if_neg (by simp)]
      rfl
    · rw [if_neg (by simp), if_neg (by simp), if_neg (by simp)]
      rfl
  · have notDot : ∀ r, b :: rest ≠ 0x2E :: r := fun r => notNamed dot
    rw [fillDot.eq_2 _ notDot]
    rcases signed with rfl | rfl
    · have notMinus : ∀ r, b :: rest ≠ 0x2D :: r := fun r => notNamed other.2.2
      rw [List.nil_append, if_neg (notNamed other.1), if_neg (notNamed other.2.2),
        if_neg (notNamed other.2.1)]
      cases found : splitDot (b :: rest) <;> simp [found]
    · have behind : [0x2D] ++ b :: rest ≠ 0x2D :: 0x49 :: ascii "nfinity" :=
        fun is => notNamed other.1 (List.cons.inj is).2
      rw [if_neg (by simp), if_neg behind, if_neg (by simp)]
      cases found : splitDot (b :: rest) <;> simp [found]

theorem splitDot_body (formed : d.Formed) :
    splitDot d.body = d.frac.map fun ds => (d.int ++ [0x2E], ds ++ expText d.exp) := by
  have noDot := isDigit_not_dot formed.int
  unfold splitDot
  cases frac : d.frac with
  | none =>
    have all : ∀ b ∈ d.body, (b != 0x2E) = true := by
      rw [Decimal.body, frac]
      exact List.forall_mem_append.mpr ⟨noDot, expText_not_dot formed⟩
    have behind := @dropWhile_run _ _ [] all (by simp)
    rw [List.append_nil] at behind
    rw [behind]
    rfl
  | some ds =>
    have stop : ∀ b ∈ (0x2E :: (ds ++ expText d.exp)).head?, (b != 0x2E) = false := by
      rintro _ ⟨⟩
      decide
    have text : fracText (some ds) ++ expText d.exp = 0x2E :: (ds ++ expText d.exp) := rfl
    rw [Decimal.body, frac, text, dropWhile_run noDot stop, takeWhile_run noDot stop]
    rfl

theorem fillDot_body (formed : d.Formed) : fillDot d.body = d.rfc.body := by
  by_cases none : d.int = []
  · obtain ⟨ds, frac, filled⟩ := formed.some none
    have body : d.body = 0x2E :: (ds ++ expText d.exp) := by
      rw [Decimal.body, none, frac]
      rfl
    rw [body, fillDot]
    simp [Decimal.body, Decimal.rfc, none, frac, filled, fracText]
  · obtain ⟨b, int, is⟩ := List.exists_cons_of_ne_nil none
    have notDot : ∀ rest, d.body ≠ 0x2E :: rest := by
      intro rest same
      rw [Decimal.body, is] at same
      have dot := (List.cons.inj same).1
      exact absurd (formed.int b (by rw [is]; exact List.mem_cons_self)) (by rw [dot]; decide)
    rw [fillDot.eq_2 _ notDot, splitDot_body formed]
    cases frac : d.frac with
    | none => simp [Decimal.body, Decimal.rfc, none, frac]
    | some ds =>
      cases ds with
      | nil =>
        have stop : (expText d.exp).head?.any isDigit = false := by
          cases first : (expText d.exp).head? with
          | none => rfl
          | some b => exact expText_stop formed b first
        simp [Decimal.body, Decimal.rfc, none, frac, fracText, stop]
      | cons c ds =>
        have digit := formed.frac _ frac c List.mem_cons_self
        simp [Decimal.body, Decimal.rfc, none, frac, fracText, digit]

/-- A real number of JSON5 becomes one of RFC 8259. -/
theorem canonicalFloat5_payload (formed : d.Formed) : canonicalFloat5 d.payload = d.rfc.text := by
  obtain ⟨b, tail, body, first⟩ := Decimal.body_first formed
  have signed : d.rfc.sign = [] ∨ d.rfc.sign = [0x2D] := (rfc_number formed).sign
  have trimmed : trimPlus d.payload = d.rfc.sign ++ b :: tail := by
    have noPlus : d.rfc.sign ≠ [0x2B] := by
      rcases signed with is | is <;> rw [is] <;> decide
    have unsigned : d.body.head? ≠ some 0x2B := fun plus => (body_unsigned formed _ plus).2 rfl
    have signs : isSign d.rfc.sign := signed.imp_right .inl
    rw [rfc_payload, trimPlus_sign signs unsigned, if_neg noPlus, body]
  rw [canonicalFloat5_signed trimmed signed first, ← body, fillDot_body formed]
  rfl

end Reals

/-- A hexadecimal payload with a minus sign, or of 2^128 or more. -/
def hexBeyond (kind : NumKind) (s : List UInt8) : Bool :=
  kind == .int5 && (s.head? == some 0x2D ||
    ((stripHexPrefix (trimPlus s)).any fun hex => decide (2 ^ 128 ≤ hexNumber hex)))

theorem hexBeyond_hex {h : Hex} (formed : h.Formed) : hexBeyond .int5 h.text = h.beyond := by
  have body := stripHexPrefix_letter formed.letter h.run
  have trimmed : trimPlus h.text = if h.sign = [0x2B] then 0x30 :: h.letter :: h.run else h.text :=
    trimPlus_sign formed.sign (by simp)
  unfold hexBeyond Hex.beyond
  rcases formed.sign with none | minus | plus
  · rw [trimmed, none, if_neg (by decide), Hex.text, none, List.nil_append, body]
    rfl
  · rw [Hex.text, minus]
    rfl
  · rw [trimmed, plus, if_pos rfl, Hex.text, plus, body]
    rfl

theorem hexBeyond_other {kind : NumKind} (other : kind ≠ .int5) (s : List UInt8) :
    hexBeyond kind s = false := by
  cases kind <;> first | rfl | exact absurd rfl other

theorem Decimal.kind_ne (d : Decimal) : d.kind ≠ .int5 := by
  unfold Decimal.kind
  split
  · split <;> nofun
  · nofun

/-- A decimal payload is rendered as its number of RFC 8259. -/
theorem renderNumber_decimal {d : Decimal} (formed : d.Formed) :
    renderNumber d.kind d.payload = d.rfc.text := by
  have verbatim (int : d.int ≠ []) (frac : d.frac ≠ some []) : d.payload = d.rfc.text := by
    have same : d.rfc.body = d.body := by
      cases is : d.frac with
      | none => simp [Decimal.body, Decimal.rfc, int, is]
      | some ds =>
        have filled : ds ≠ [] := fun empty => frac (empty ▸ is)
        simp [Decimal.body, Decimal.rfc, int, is, filled]
    rw [rfc_payload, Decimal.text, same]
  unfold Decimal.kind
  by_cases real : (d.frac.isSome || d.exp.isSome) = true
  · rw [if_pos real]
    cases canonical : d.canonical with
    | true =>
      have number := (number_iff d).mpr ⟨formed, canonical⟩
      exact verbatim number.int.1 fun is => (number.frac [] is).1 rfl
    | false => exact canonicalFloat5_payload formed
  · rw [if_neg real]
    simp only [Bool.or_eq_true, not_or, Bool.not_eq_true, Option.isSome_eq_false_iff,
      Option.isNone_iff_eq_none] at real
    refine verbatim (fun none => ?_) (by simp [real.1])
    obtain ⟨ds, is, _⟩ := formed.some none
    rw [real.1] at is
    cases is

/-- What an infinity is written as. -/
def infinite (sign : List UInt8) : Decimal := ⟨sign, ascii "9", none, some (0x65, [], ascii "999")⟩

theorem infinite_number {sign : List UInt8} (signed : sign = [] ∨ sign = [0x2D]) :
    Number (infinite sign) := by
  refine ⟨signed, by simp only [infinite]; decide, by simp only [infinite]; decide, nofun, ?_⟩
  rintro e sign ds ⟨⟩
  decide

/-- The rendered text of a number is one of RFC 8259 with the same value. -/
theorem renderNumber_rfc {kind : NumKind} {s taken : List UInt8}
    (number : NumberText false (.payload kind s) taken) (within : hexBeyond kind s = false) :
    ∃ d, Number d ∧ renderNumber kind s = d.text ∧ numberValue d.text = numberValue s := by
  generalize is : NumTok.payload kind s = tok at number
  cases number with
  | @decimal d formed =>
    cases is
    exact ⟨d.rfc, rfc_number formed, renderNumber_decimal formed, rfc_value formed⟩
  | @hex h _ formed =>
    cases is
    rw [hexBeyond_hex formed] at within
    have rendered := canonicalInt5_hex formed
    rw [within, if_neg (by decide)] at rendered
    refine ⟨integerText (hexNumber h.run), integerText_number _, ?_, ?_⟩
    · rw [integerText_text, ← rendered]
      rfl
    · rw [integerText_text, integerText_value, numberValue_hex formed within]
  | infinity _ signed =>
    cases is
    rcases signed with rfl | rfl
    · exact ⟨infinite [0x2D], infinite_number (.inr rfl), rfl, rfl⟩
    · exact ⟨infinite [], infinite_number (.inl rfl), rfl, rfl⟩
  | nan => cases is

/-- A number that is not rewritten has a letter no number of RFC 8259 has. -/
theorem renderNumber_beyond {kind : NumKind} {s taken : List UInt8}
    (number : NumberText false (.payload kind s) taken) (beyond : hexBeyond kind s = true) :
    (∃ b ∈ renderNumber kind s, b = 0x78 ∨ b = 0x58) ∧ ∀ b ∈ renderNumber kind s, b ≠ 0x22 := by
  generalize is : NumTok.payload kind s = tok at number
  cases number with
  | @decimal d formed =>
    cases is
    rw [hexBeyond_other d.kind_ne] at beyond
    cases beyond
  | @hex h _ formed =>
    cases is
    rw [hexBeyond_hex formed] at beyond
    have rendered := canonicalInt5_hex formed
    rw [beyond, if_pos rfl] at rendered
    have text : ∀ b ∈ h.text, b ≠ 0x22 := by
      refine List.forall_mem_append.mpr ⟨?_, ?_⟩
      · rcases formed.sign with is | is | is <;> rw [is] <;> decide
      · refine List.forall_mem_cons.mpr ⟨by decide, List.forall_mem_cons.mpr ⟨?_, ?_⟩⟩
        · rcases formed.letter with is | is <;> rw [is] <;> decide
        · rintro b member rfl
          exact absurd (formed.run _ member) (by decide)
    rw [renderNumber, rendered]
    split
    · rename_i plus
      have tail : h.text.tail = 0x30 :: h.letter :: h.run := by rw [Hex.text, plus]; rfl
      refine ⟨⟨h.letter, by rw [tail]; simp, formed.letter⟩, ?_⟩
      exact fun b member => text b (List.mem_of_mem_tail member)
    · exact ⟨⟨h.letter, by simp [Hex.text], formed.letter⟩, text⟩
  | infinity _ signed =>
    cases is
    cases beyond
  | nan => cases is

/-- The bytes of a number of RFC 8259. -/
theorem number_bytes {d : Decimal} (number : Number d) :
    ∀ b ∈ d.text, b ≠ 0x22 ∧ b ≠ 0x78 ∧ b ≠ 0x58 := by
  have digit {b : UInt8} (is : isDigit b = true) : b ≠ 0x22 ∧ b ≠ 0x78 ∧ b ≠ 0x58 := by
    refine ⟨?_, ?_, ?_⟩ <;> rintro rfl <;> exact absurd is (by decide)
  have sign : ∀ b ∈ d.sign, b ≠ 0x22 ∧ b ≠ 0x78 ∧ b ≠ 0x58 := by
    rcases number.sign with is | is <;> rw [is] <;> decide
  have frac : ∀ b ∈ fracText d.frac, b ≠ 0x22 ∧ b ≠ 0x78 ∧ b ≠ 0x58 := by
    cases is : d.frac with
    | none => nofun
    | some ds =>
      exact List.forall_mem_cons.mpr ⟨by decide, fun b member => digit ((number.frac ds is).2 b member)⟩
  have exp : ∀ b ∈ expText d.exp, b ≠ 0x22 ∧ b ≠ 0x78 ∧ b ≠ 0x58 := by
    cases is : d.exp with
    | none => nofun
    | some parts =>
      obtain ⟨e, sign, ds⟩ := parts
      obtain ⟨letter, signed, _, all⟩ := number.exp e sign ds is
      refine List.forall_mem_cons.mpr ⟨by rcases letter with rfl | rfl <;> decide, ?_⟩
      refine List.forall_mem_append.mpr ⟨?_, fun b member => digit (all b member)⟩
      rcases signed with rfl | rfl | rfl <;> decide
  exact List.forall_mem_append.mpr ⟨sign, List.forall_mem_append.mpr
    ⟨fun b member => digit (number.int.2 b member), List.forall_mem_append.mpr ⟨frac, exp⟩⟩⟩

end RustSql.Jsonb
