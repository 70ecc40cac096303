import RustSql.Types.IntegerText
import RustSql.Types.MaskedText
import Mathlib.Data.List.TakeWhile

/-! The numbers of the standard library's `trim` and `parse` beside those of `atof` and
`atoi64`. -/

namespace RustSql.Types

open RustSql.Foundation

/-- The white space of Unicode, in UTF-8. -/
def whiteSpace : List (List UInt8) :=
  [[0x09], [0x0a], [0x0b], [0x0c], [0x0d], [0x20], [0xc2, 0x85], [0xc2, 0xa0],
    [0xe1, 0x9a, 0x80], [0xe2, 0x80, 0x80], [0xe2, 0x80, 0x81], [0xe2, 0x80, 0x82],
    [0xe2, 0x80, 0x83], [0xe2, 0x80, 0x84], [0xe2, 0x80, 0x85], [0xe2, 0x80, 0x86],
    [0xe2, 0x80, 0x87], [0xe2, 0x80, 0x88], [0xe2, 0x80, 0x89], [0xe2, 0x80, 0x8a],
    [0xe2, 0x80, 0xa8], [0xe2, 0x80, 0xa9], [0xe2, 0x80, 0xaf], [0xe2, 0x81, 0x9f],
    [0xe3, 0x80, 0x80]]

/-- The bytes behind all the code words in front. -/
def stripCodes (codes : List (List UInt8)) : Nat → List UInt8 → List UInt8
  | 0, s => s
  | fuel + 1, s =>
    match codes.find? fun code => code.isPrefixOf s with
    | none => s
    | some code => stripCodes codes fuel (s.drop code.length)

def trimStart (s : List UInt8) : List UInt8 := stripCodes whiteSpace s.length s

def trimEnd (s : List UInt8) : List UInt8 :=
  (stripCodes (whiteSpace.map List.reverse) s.length s.reverse).reverse

def trim (s : List UInt8) : List UInt8 := trimEnd (trimStart s)

/-- `parse::<i64>()`. -/
def parseI64 (s : List UInt8) : Option Int64 :=
  let (neg, digits) := scanSign s
  if digits = [] ∨ digits.all isDigit = false then none
  else
    let n := signed neg (decimal digits)
    if -2 ^ 63 ≤ n ∧ n < 2 ^ 63 then some (Int64.ofInt n) else none

/-- The exponent of a decimal number, zero where there is none. -/
def parseExponent (z : List UInt8) : Option Int :=
  if z = [] then some 0
  else if z.head? = some 0x65 ∨ z.head? = some 0x45 then
    let (neg, digits) := scanSign z.tail
    if digits = [] ∨ digits.all isDigit = false then none else some (signed neg (decimal digits))
  else none

/-- The names of the doubles that are no decimal numbers, and their patterns. -/
def parseSpecial (z : List UInt8) : Option Nat :=
  let lower := z.map fun b => if 0x41 ≤ b ∧ b ≤ 0x5a then b + 0x20 else b
  if lower = [0x6e, 0x61, 0x6e] then some (2047 * 2 ^ 52 + 2 ^ 51)
  else if lower = [0x69, 0x6e, 0x66] ∨
      lower = [0x69, 0x6e, 0x66, 0x69, 0x6e, 0x69, 0x74, 0x79] then some (2047 * 2 ^ 52)
  else none

/-- `parse::<f64>()`: the double nearest to the number. -/
def parseF64 (s : List UInt8) : Option Binary64 :=
  let (neg, z) := scanSign s
  let whole := z.takeWhile isDigit
  let behind := z.dropWhile isDigit
  let dot := behind.head? == some 0x2e
  let fraction := if dot then behind.tail.takeWhile isDigit else []
  let rest := if dot then behind.tail.dropWhile isDigit else behind
  let pattern :=
    if whole ++ fraction = [] then parseSpecial z
    else (parseExponent rest).map fun e =>
      let s := decimal (whole ++ fraction)
      if s = 0 then 0 else parseDecimal s (e - fraction.length)
  pattern.map fun pattern => ⟨UInt64.ofNat ((if neg then 2 ^ 63 else 0) + pattern)⟩

/-- What is stripped is a row of code words. -/
theorem stripCodes_split (codes : List (List UInt8)) (fuel : Nat) (s : List UInt8) :
    ∃ row : List (List UInt8), (∀ code ∈ row, code ∈ codes) ∧
      s = row.flatten ++ stripCodes codes fuel s := by
  induction fuel generalizing s with
  | zero => exact ⟨[], (fun _ member => nomatch member), rfl⟩
  | succ fuel ih =>
    rw [stripCodes]
    cases found : codes.find? fun code => code.isPrefixOf s with
    | none => exact ⟨[], (fun _ member => nomatch member), rfl⟩
    | some code =>
      have there := List.find?_some found
      have listed := List.mem_of_find?_eq_some found
      obtain ⟨rest, rfl⟩ := List.isPrefixOf_iff_prefix.mp there
      obtain ⟨row, all, split⟩ := ih rest
      refine ⟨code :: row, ?_, ?_⟩
      · intro other member
        rcases List.mem_cons.mp member with rfl | member
        · exact listed
        · exact all other member
      · dsimp only
        rw [List.drop_left, List.flatten_cons, List.append_assoc, ← split]

/-- White space on either side of what `trim` leaves. -/
theorem trim_split (s : List UInt8) :
    ∃ front behind : List (List UInt8), (∀ code ∈ front, code ∈ whiteSpace) ∧
      (∀ code ∈ behind, code ∈ whiteSpace) ∧ s = front.flatten ++ (trim s ++ behind.flatten) := by
  obtain ⟨front, left, split⟩ := stripCodes_split whiteSpace s.length s
  obtain ⟨row, right, mirrored⟩ := stripCodes_split (whiteSpace.map List.reverse)
    (trimStart s).length (trimStart s).reverse
  refine ⟨front, (row.map List.reverse).reverse, left, ?_, ?_⟩
  · intro code member
    obtain ⟨other, inside, rfl⟩ := List.mem_map.mp (List.mem_reverse.mp member)
    obtain ⟨original, listed, rfl⟩ := List.mem_map.mp (right other inside)
    rwa [List.reverse_reverse]
  · have back := congrArg List.reverse mirrored
    rw [List.reverse_reverse, List.reverse_append, List.reverse_flatten] at back
    exact split.trans (congrArg (front.flatten ++ ·) back)

/-- Nothing is stripped where no code word is in front. -/
theorem stripCodes_stop {codes : List (List UInt8)} {fuel : Nat} {s : List UInt8}
    (none_ : ∀ code ∈ codes, ¬ code <+: s) : stripCodes codes fuel s = s := by
  cases fuel with
  | zero => rfl
  | succ fuel =>
    have missing : codes.find? (fun code => code.isPrefixOf s) = none := by
      rw [List.find?_eq_none]
      intro code member there
      exact none_ code member (List.isPrefixOf_iff_prefix.mp there)
    rw [stripCodes, missing]

/-- Single bytes that are code words, and begin no other one, are stripped. -/
theorem stripCodes_singles {codes : List (List UInt8)} {spaces s : List UInt8} {fuel : Nat}
    (single : ∀ b ∈ spaces, ∀ s, codes.find? (fun code => code.isPrefixOf (b :: s)) = some [b])
    (none_ : ∀ code ∈ codes, ¬ code <+: s) (enough : spaces.length ≤ fuel) :
    stripCodes codes fuel (spaces ++ s) = s := by
  induction spaces generalizing fuel with
  | nil => exact stripCodes_stop none_
  | cons b rest ih =>
    obtain ⟨fuel, rfl⟩ := Nat.exists_eq_succ_of_ne_zero (n := fuel)
      (by rw [List.length_cons] at enough; omega)
    rw [List.cons_append, stripCodes, single b (List.mem_cons_self ..)]
    exact ih (fun other member => single other (List.mem_cons_of_mem _ member))
      (Nat.le_of_succ_le_succ enough)

/-- White space is that of `atof`, up to a byte that is not ASCII. -/
theorem whiteSpace_row {row : List (List UInt8)} (all : ∀ code ∈ row, code ∈ whiteSpace) :
    (∀ b ∈ row.flatten, isSpace b = true) ∨ ∃ spaces b rest, row.flatten = spaces ++ b :: rest ∧
      (∀ b ∈ spaces, isSpace b = true) ∧ 0x80 ≤ b := by
  have codes (code) (member : code ∈ whiteSpace) :
      (∀ b ∈ code, isSpace b = true) ∨ code ≠ [] ∧ 0x80 ≤ code.headD 0 := by
    have judged : whiteSpace.all (fun code => code.all isSpace ||
        decide (code ≠ [] ∧ 0x80 ≤ code.headD 0)) := by decide
    simpa using List.all_eq_true.mp judged code member
  induction row with
  | nil => exact Or.inl fun _ member => nomatch member
  | cons code row ih =>
    rw [List.flatten_cons]
    rcases codes code (all code (List.mem_cons_self ..)) with ascii | ⟨some_, wide⟩
    · rcases ih fun other member => all other (List.mem_cons_of_mem _ member) with
        rest | ⟨spaces, b, rest, split, plain, wide⟩
      · refine Or.inl fun b member => ?_
        rcases List.mem_append.mp member with member | member
        · exact ascii b member
        · exact rest b member
      · refine Or.inr ⟨code ++ spaces, b, rest, ?_, fun b member => ?_, wide⟩
        · rw [split, List.append_assoc]
        · rcases List.mem_append.mp member with member | member
          · exact ascii b member
          · exact plain b member
    · obtain ⟨b, more, rfl⟩ := List.exists_cons_of_ne_nil some_
      exact Or.inr ⟨[], b, more ++ row.flatten, rfl, (fun _ member => nomatch member), wide⟩

theorem whiteSpace_bytes {row : List (List UInt8)} (all : ∀ code ∈ row, code ∈ whiteSpace) :
    ∀ b ∈ row.flatten, b ≠ 0 ∧ b ≠ rawMask := by
  have codes : whiteSpace.flatten.all (fun b => decide (b ≠ 0 ∧ b ≠ rawMask)) := by decide
  intro b member
  obtain ⟨code, inside, there⟩ := List.mem_flatten.mp member
  exact of_decide_eq_true (List.all_eq_true.mp codes b
    (List.mem_flatten.mpr ⟨code, all code inside, there⟩))

/-- A text without the mask was not masked. -/
theorem asStr_of_unmasked {z : List UInt8} (unmasked : rawMask ∉ asStr z) : asStr z = z := by
  have from_ (fuel : Nat) : ∀ z : List UInt8, rawMask ∉ maskedFrom fuel z →
      maskedFrom fuel z = z := by
    induction fuel with
    | zero => exact fun _ _ => rfl
    | succ fuel ih =>
      intro z unmasked
      cases z with
      | nil => rfl
      | cons b rest =>
        rw [maskedFrom_cons] at unmasked ⊢
        cases front : utf8Front (b :: rest) with
        | valid length =>
          rw [front] at unmasked
          dsimp only at unmasked ⊢
          rw [ih _ fun member => unmasked (List.mem_append_right _ member), List.take_append_drop]
        | invalid length =>
          rw [front] at unmasked
          refine absurd (List.mem_append_left _ (List.mem_replicate.mpr ⟨?_, rfl⟩)) unmasked
          obtain ⟨n, rfl⟩ := Nat.exists_eq_succ_of_ne_zero
            (Nat.pos_iff_ne_zero.mp (utf8Front_invalid front))
          exact Nat.succ_ne_zero _
  exact from_ _ z unmasked

/-- The search for the greatest pattern. -/
theorem floorPattern_spec {num den k pattern : Nat} (low : Binary64.weight pattern * den ≤ num)
    (high : num < Binary64.weight (pattern + 2 ^ k) * den) :
    Binary64.weight (floorPattern num den k pattern) * den ≤ num ∧
      num < Binary64.weight (floorPattern num den k pattern + 1) * den := by
  induction k generalizing pattern with
  | zero => exact ⟨low, high⟩
  | succ k ih =>
    rw [floorPattern]
    split_ifs with fits
    · refine ih fits ?_
      rwa [Nat.add_assoc, ← Nat.two_mul, ← Nat.pow_succ']
    · exact ih low (Nat.lt_of_not_le fits)

/-- An integer below `2 ^ 53` is a double. -/
theorem weight_roundNat {n : Nat} (small : n < 2 ^ 53) :
    Binary64.weight (Binary64.roundNat n) = n * Binary64.unit := by
  by_cases zero : n = 0
  · rw [zero, Nat.zero_mul]
    decide
  · have top : n.log2 ≤ 52 := Nat.lt_succ_iff.mp ((Nat.log2_lt zero).mpr small)
    rw [Binary64.roundNat_small n zero top, (Binary64.weight_floorNat n zero).1,
      (Binary64.significand_exact n top).2]

theorem pow_mul_le {a b c d : Nat} (le : a + b ≤ c + d) : 2 ^ a * 2 ^ b ≤ 2 ^ c * 2 ^ d := by
  rw [← Nat.pow_add, ← Nat.pow_add]
  exact Nat.pow_le_pow_right Nat.two_pos le

/-- Only an integer itself is rounded to a small integer. -/
theorem roundFraction_small {s k : Nat} (bound : s < 2 ^ 64) (small : k < 2 ^ 53)
    (value : Binary64.weight (roundFraction s 1) = k * Binary64.unit) : s = k := by
  have positive : 0 < Binary64.unit := by exact_mod_cast Binary64.unit_pos
  have top : s * Binary64.unit < Binary64.weight (0 + 2 ^ 63) * 1 := by
    have edge := Binary64.weight_normal 2048 (2 ^ 52) (by decide) (Nat.le_refl _) (by decide)
    have pattern : 2048 * 2 ^ 52 + (2 ^ 52 - 2 ^ 52) = 2 ^ 63 := by decide
    rw [pattern] at edge
    rw [Nat.zero_add, Nat.mul_one, edge]
    refine Nat.lt_of_lt_of_le (Nat.mul_lt_mul_of_pos_right bound positive) ?_
    rw [Binary64.unit]
    exact pow_mul_le (by decide)
  obtain ⟨low, high⟩ := @floorPattern_spec _ _ 63 0
      (by rw [Binary64.weight_zero, Nat.zero_mul]; exact Nat.zero_le _) top
  rw [Nat.mul_one] at low high
  rw [roundFraction] at value
  dsimp only at value
  generalize floorPattern (s * Binary64.unit) 1 63 0 = floor at low high value
  have monotone := Binary64.weight_strictMono
  by_cases exact_ : s < 2 ^ 53
  · have there := weight_roundNat exact_
    have here : floor = Binary64.roundNat s := by
      rw [← there] at low high
      have least := monotone.le_iff_le.mp low
      have most := monotone.lt_iff_lt.mp high
      omega
    have finite : ¬ 2047 * 2 ^ 52 ≤ floor := by
      have range := Binary64.roundNat_lt s (Nat.le_of_lt (Nat.lt_trans exact_ (by decide)))
      omega
    have next : Binary64.weight floor < Binary64.weight (floor + 1) :=
      monotone (Nat.lt_succ_self floor)
    have same : Binary64.weight floor = s * Binary64.unit := by rw [here, there]
    rw [if_neg finite, if_pos (Or.inl (by omega)), same] at value
    exact Nat.eq_of_mul_eq_mul_right positive value
  · have large := Nat.le_of_not_lt exact_
    have reached : Binary64.weight (Binary64.floorNat (2 ^ 53)) = 2 ^ 53 * Binary64.unit := by
      decide +kernel
    have above : Binary64.floorNat (2 ^ 53) ≤ floor := by
      refine Nat.lt_succ_iff.mp (monotone.lt_iff_lt.mp (Nat.lt_of_le_of_lt ?_ high))
      rw [reached]
      exact Nat.mul_le_mul_right _ large
    have result : floor ≤ floor + 1 ∧ (2047 * 2 ^ 52 ≤ floor →
        Binary64.floorNat (2 ^ 53) ≤ 2047 * 2 ^ 52) := ⟨Nat.le_succ _, fun _ => by decide⟩
    have least : 2 ^ 53 * Binary64.unit ≤ k * Binary64.unit := by
      rw [← value, ← reached]
      refine monotone.monotone ?_
      split_ifs with infinite
      · exact result.2 infinite
      · exact above
      · exact Nat.le_succ_of_le above
    have fits := Nat.le_of_mul_le_mul_right least positive
    omega

theorem scanSign_split {z rest : List UInt8} {neg : Bool} (scanned : scanSign z = (neg, rest)) :
    (z = rest ∧ neg = false) ∨ (z = 0x2d :: rest ∧ neg = true) ∨ (z = 0x2b :: rest ∧ neg = false) := by
  cases z with
  | nil =>
    cases scanned
    exact Or.inl ⟨rfl, rfl⟩
  | cons b z =>
    rw [scanSign] at scanned
    split_ifs at scanned with minus plus
    · cases scanned
      exact Or.inr (Or.inl ⟨minus ▸ rfl, rfl⟩)
    · cases scanned
      exact Or.inr (Or.inr ⟨plus ▸ rfl, rfl⟩)
    · cases scanned
      exact Or.inl ⟨rfl, rfl⟩

theorem scanSign_plain {b : UInt8} (minus : b ≠ 0x2d) (plus : b ≠ 0x2b) (z : List UInt8) :
    scanSign (b :: z) = (false, b :: z) := by
  rw [scanSign, if_neg minus, if_neg plus]

theorem digit_ne {b : UInt8} (digit : isDigit b = true) {c : UInt8} (other : isDigit c = false) :
    b ≠ c := by
  rintro rfl
  rw [digit] at other
  cases other

/-- A sign in front of digits stays one, whatever follows. -/
theorem scanSign_append {literal digits : List UInt8} {neg : Bool}
    (scanned : scanSign literal = (neg, digits)) (some_ : digits ≠ [])
    (all : ∀ b ∈ digits, isDigit b = true) (after : List UInt8) :
    scanSign (literal ++ after) = (neg, digits ++ after) := by
  rcases scanSign_split scanned with ⟨rfl, rfl⟩ | ⟨rfl, rfl⟩ | ⟨rfl, rfl⟩
  · obtain ⟨b, rest, rfl⟩ := List.exists_cons_of_ne_nil some_
    have digit := all b (List.mem_cons_self ..)
    exact scanSign_plain (digit_ne digit (by decide)) (digit_ne digit (by decide)) _
  · rfl
  · rfl

/-- What is not a digit. -/
def Behind (rest : List UInt8) : Prop := ∀ b ∈ rest.head?, isDigit b = false

theorem scanInteger_stop {rest : List UInt8} (behind : Behind rest) (s n : Nat) :
    scanInteger rest s n = ⟨rest, s, 0, n⟩ := by
  cases rest with
  | nil => rfl
  | cons b rest =>
    rw [scanInteger, behind b rfl]
    rfl

/-- The digits of a number that fits are all read. -/
theorem scanInteger_digits {digits rest : List UInt8} (all : ∀ b ∈ digits, isDigit b = true)
    (behind : Behind rest) (s n : Nat)
    (fits : s * 10 ^ digits.length + decimal digits < significandLimit * 10) :
    ∃ more, scanInteger (digits ++ rest) s n =
      ⟨rest, s * 10 ^ digits.length + decimal digits, 0, n + more⟩ ∧ (digits ≠ [] → 0 < more) := by
  induction digits generalizing s n with
  | nil =>
    refine ⟨0, ?_, fun some_ => absurd rfl some_⟩
    rw [List.nil_append, scanInteger_stop behind, decimal, List.map_nil, numeral_nil]
    simp
  | cons b digits ih =>
    have digit := all b (List.mem_cons_self ..)
    have later : ∀ c ∈ digits, isDigit c = true := fun c member =>
      all c (List.mem_cons_of_mem _ member)
    have total : s * 10 ^ (b :: digits).length + decimal (b :: digits) =
        (s * 10 + digitOf b) * 10 ^ digits.length + decimal digits := by
      rw [decimal, decimal, List.map_cons, numeral_cons, List.length_map, List.length_cons]
      ring
    rw [total] at fits ⊢
    rw [List.cons_append, scanInteger, if_pos digit]
    dsimp only
    split_ifs with full
    · have last : digits = [] := by
        by_contra some_
        have power : 10 ≤ 10 ^ digits.length :=
          Nat.le_self_pow (List.length_pos_iff.mpr some_).ne' 10
        have large := Nat.mul_le_mul full power
        omega
      subst last
      refine ⟨1, ?_, fun _ => Nat.one_pos⟩
      have nothing : rest.takeWhile isDigit = [] := by
        cases rest with
        | nil => rfl
        | cons c rest => rw [List.takeWhile_cons, behind c rfl]; rfl
      have everything : rest.dropWhile isDigit = rest := by
        cases rest with
        | nil => rfl
        | cons c rest => rw [List.dropWhile_cons, behind c rfl]; rfl
      rw [List.nil_append, nothing, everything, decimal, List.map_nil, numeral_nil]
      simp
    · obtain ⟨more, read, -⟩ := ih later (s * 10 + digitOf b) (n + 1) fits
      refine ⟨more + 1, ?_, fun _ => Nat.succ_pos _⟩
      rw [read, Nat.add_assoc, Nat.add_comm 1]

/-- Behind the spaces of `atof`. -/
def atofInput (z : List UInt8) : List UInt8 := (z.takeWhile (· != 0)).dropWhile isSpace

/-- A text that starts with neither a sign, a digit nor a point is no number. -/
theorem atof_none {z rest : List UInt8} {b : UInt8} (input : atofInput z = b :: rest)
    (wide : 0x80 ≤ b) : (atof z).2 ≤ 0 := by
  have other : ∀ c : UInt8, c < 0x80 → b ≠ c := by
    rintro c small rfl
    exact absurd wide (UInt8.not_le.mpr small)
  have digit : isDigit b = false := by
    rw [isDigit, Bool.and_eq_false_iff]
    refine Or.inr (decide_eq_false fun small => ?_)
    exact absurd (UInt8.le_trans wide small) (by decide)
  have behind : Behind (b :: rest) := by
    intro c same
    cases same
    exact digit
  have point : ((b :: rest).head? == some 0x2e) = false := by
    rw [List.head?_cons]
    exact beq_eq_false_iff_ne.mpr fun same => other _ (by decide) (Option.some.inj same)
  unfold atofInput at input
  rw [atof]
  dsimp only
  rw [input, if_neg (List.cons_ne_nil _ _),
    scanSign_plain (other _ (by decide)) (other _ (by decide)), scanInteger_stop behind]
  dsimp only
  rw [point]
  simp

theorem isSpace_cases {b : UInt8} (space : isSpace b = true) :
    b = 0x20 ∨ b = 0x09 ∨ b = 0x0a ∨ b = 0x0b ∨ b = 0x0c ∨ b = 0x0d := by
  simpa only [isSpace, Bool.or_eq_true, beq_iff_eq, or_assoc] using space

/-- A text that is a number only if it is an integer. -/
theorem atof_integer {z literal digits after : List UInt8} {neg : Bool}
    (input : atofInput z = literal ++ after) (scanned : scanSign literal = (neg, digits))
    (some_ : digits ≠ []) (all : ∀ b ∈ digits, isDigit b = true)
    (fits : decimal digits < significandLimit * 10)
    (behind : ∀ b ∈ after.head?, isSpace b = true ∨ 0x80 ≤ b) :
    (atof z).1 = ⟨UInt64.ofNat ((if neg then 2 ^ 63 else 0) +
        if decimal digits = 0 then 0 else parseDecimal (decimal digits) 0)⟩ ∧
      (atof z).2 = if after.dropWhile isSpace = [] then 1 else 0 := by
  have spaces : ∀ b : UInt8, isSpace b = true → isDigit b = false ∧ b ≠ 0x2e ∧ b ≠ 0x65 ∧
      b ≠ 0x45 := by
    intro b space
    rcases isSpace_cases space with rfl | rfl | rfl | rfl | rfl | rfl <;> decide
  have plain : ∀ b ∈ after.head?, isDigit b = false ∧ b ≠ 0x2e ∧ b ≠ 0x65 ∧ b ≠ 0x45 := by
    intro b there
    rcases behind b there with space | wide
    · exact spaces b space
    · have other : ∀ c : UInt8, c < 0x80 → b ≠ c := by
        rintro c small rfl
        exact absurd wide (UInt8.not_le.mpr small)
      refine ⟨?_, other _ (by decide), other _ (by decide), other _ (by decide)⟩
      rw [isDigit, Bool.and_eq_false_iff]
      refine Or.inr (decide_eq_false fun small => ?_)
      exact absurd (UInt8.le_trans wide small) (by decide)
  have head : ∀ c : UInt8, (∀ b ∈ after.head?, b ≠ c) → (after.head? == some c) = false := by
    intro c differ
    cases after with
    | nil => rfl
    | cons b rest =>
      rw [List.head?_cons]
      exact beq_eq_false_iff_ne.mpr fun same => differ b rfl (Option.some.inj same)
  have point := head 0x2e fun b there => (plain b there).2.1
  have lower := head 0x65 fun b there => (plain b there).2.2.1
  have upper := head 0x45 fun b there => (plain b there).2.2.2
  have scanned' := scanSign_append scanned some_ all after
  obtain ⟨more, read, counted⟩ := scanInteger_digits all (fun b there => (plain b there).1) 0 0
    (by rwa [Nat.zero_mul, Nat.zero_add])
  have positive := counted some_
  rw [Nat.zero_mul, Nat.zero_add, Nat.zero_add] at read
  have nonempty : literal ++ after ≠ [] := by
    intro empty
    obtain ⟨rfl, -⟩ := List.append_eq_nil_iff.mp empty
    cases scanned
    exact some_ rfl
  unfold atofInput at input
  rw [atof]
  dsimp only
  rw [input, if_neg nonempty, scanned']
  dsimp only
  rw [read]
  dsimp only
  simp only [point, lower, upper, Bool.or_self, Bool.false_eq_true, if_false]
  simp [positive]

theorem parseI64_some {s : List UInt8} {i : Int64} (parsed : parseI64 s = some i) :
    ∃ neg digits, scanSign s = (neg, digits) ∧ digits ≠ [] ∧ (∀ b ∈ digits, isDigit b = true) ∧
      -2 ^ 63 ≤ signed neg (decimal digits) ∧ signed neg (decimal digits) < 2 ^ 63 ∧
      i.toInt = signed neg (decimal digits) := by
  rw [parseI64] at parsed
  dsimp only at parsed
  split_ifs at parsed with bad fits
  rw [not_or, Bool.not_eq_false, List.all_eq_true] at bad
  refine ⟨_, _, rfl, bad.1, bad.2, fits.1, fits.2, ?_⟩
  cases parsed
  exact Int64.toInt_ofInt_of_le fits.1 fits.2

theorem decimal_small {neg : Bool} {n : Nat} (low : -2 ^ 63 ≤ signed neg n)
    (high : signed neg n < 2 ^ 63) : n ≤ 2 ^ 63 := by
  cases neg <;> simp only [signed, Bool.false_eq_true, if_true, if_false] at low high <;> omega

/-- A text whose trimmed string is an integer is the integer between white space. -/
theorem parsed_split {t : List UInt8} {i : Int64} (parsed : parseI64 (trim (asStr t)) = some i) :
    ∃ (front behind : List (List UInt8)) (literal digits : List UInt8) (neg : Bool),
      (∀ code ∈ front, code ∈ whiteSpace) ∧ (∀ code ∈ behind, code ∈ whiteSpace) ∧
      t = front.flatten ++ (literal ++ behind.flatten) ∧ scanSign literal = (neg, digits) ∧
      digits ≠ [] ∧ (∀ b ∈ digits, isDigit b = true) ∧ (∀ b ∈ literal, b ≠ 0) ∧
      decimal digits ≤ 2 ^ 63 ∧ i.toInt = signed neg (decimal digits) := by
  obtain ⟨neg, digits, scanned, some_, all, low, high, value⟩ := parseI64_some parsed
  obtain ⟨front, behind, left, right, split⟩ := trim_split (asStr t)
  have marks : ∀ b ∈ digits, b ≠ 0 ∧ b ≠ rawMask := fun b member =>
    ⟨digit_ne (all b member) (by decide), digit_ne (all b member) (by decide)⟩
  have literal : ∀ b ∈ trim (asStr t), b ≠ 0 ∧ b ≠ rawMask := by
    rcases scanSign_split scanned with ⟨same, -⟩ | ⟨same, -⟩ | ⟨same, -⟩
    · rwa [same]
    · rw [same]
      exact List.forall_mem_cons.mpr ⟨by decide, marks⟩
    · rw [same]
      exact List.forall_mem_cons.mpr ⟨by decide, marks⟩
  have unmasked : rawMask ∉ asStr t := by
    intro member
    rw [split] at member
    rcases List.mem_append.mp member with member | member
    · exact (whiteSpace_bytes left _ member).2 rfl
    · rcases List.mem_append.mp member with member | member
      · exact (literal _ member).2 rfl
      · exact (whiteSpace_bytes right _ member).2 rfl
  refine ⟨front, behind, trim (asStr t), digits, neg, left, right, ?_, scanned, some_, all,
    fun b member => (literal b member).1, decimal_small low high, value⟩
  rwa [asStr_of_unmasked unmasked] at split ⊢

theorem dropWhile_spaces {spaces rest : List UInt8} (all : ∀ b ∈ spaces, isSpace b = true)
    (stop : ∀ b ∈ rest.head?, isSpace b = false) : (spaces ++ rest).dropWhile isSpace = rest := by
  induction spaces with
  | nil =>
    cases rest with
    | nil => rfl
    | cons b rest => rw [List.nil_append, List.dropWhile_cons, stop b rfl]; rfl
  | cons b spaces ih =>
    rw [List.cons_append, List.dropWhile_cons, if_pos (all b (List.mem_cons_self ..))]
    exact ih fun c member => all c (List.mem_cons_of_mem _ member)

/-- The first byte of an integer is no space. -/
theorem literal_head {literal digits : List UInt8} {neg : Bool}
    (scanned : scanSign literal = (neg, digits)) (some_ : digits ≠ [])
    (all : ∀ b ∈ digits, isDigit b = true) (after : List UInt8) :
    ∀ b ∈ (literal ++ after).head?, isSpace b = false := by
  intro b first
  rcases scanSign_split scanned with ⟨rfl, -⟩ | ⟨rfl, -⟩ | ⟨rfl, -⟩
  · obtain ⟨c, rest, rfl⟩ := List.exists_cons_of_ne_nil some_
    cases first
    have digit := all b (List.mem_cons_self ..)
    by_contra space
    rw [Bool.not_eq_false] at space
    rcases isSpace_cases space with rfl | rfl | rfl | rfl | rfl | rfl <;> exact absurd digit (by decide)
  · cases first
    decide
  · cases first
    decide

theorem space_narrow {b : UInt8} (space : isSpace b = true) : ¬ 0x80 ≤ b := by
  rcases isSpace_cases space with rfl | rfl | rfl | rfl | rfl | rfl <;> decide

/-- Such a text is a number for `atof` only if the white space is its own. -/
theorem atof_parsed {t : List UInt8} {i : Int64} (parsed : parseI64 (trim (asStr t)) = some i)
    (number : 0 < (atof t).2) :
    ∃ (spaces after literal digits : List UInt8) (neg : Bool),
      t = spaces ++ (literal ++ after) ∧ (∀ b ∈ spaces, isSpace b = true) ∧
      (∀ b ∈ after, isSpace b = true) ∧ scanSign literal = (neg, digits) ∧ digits ≠ [] ∧
      (∀ b ∈ digits, isDigit b = true) ∧ decimal digits ≤ 2 ^ 63 ∧
      i.toInt = signed neg (decimal digits) ∧ (atof t).2 = 1 ∧
      (atof t).1 = ⟨UInt64.ofNat ((if neg then 2 ^ 63 else 0) +
        if decimal digits = 0 then 0 else parseDecimal (decimal digits) 0)⟩ := by
  obtain ⟨front, behind, literal, digits, neg, left, right, split, scanned, some_, all, nonzero,
    small, value⟩ := parsed_split parsed
  have noNul : t.takeWhile (· != 0) = t := by
    rw [List.takeWhile_eq_self_iff]
    intro b member
    rw [bne_iff_ne]
    rw [split] at member
    rcases List.mem_append.mp member with member | member
    · exact (whiteSpace_bytes left b member).1
    · rcases List.mem_append.mp member with member | member
      · exact nonzero b member
      · exact (whiteSpace_bytes right b member).1
  have head := literal_head scanned some_ all behind.flatten
  have spaces : ∀ b ∈ front.flatten, isSpace b = true := by
    rcases whiteSpace_row left with plain | ⟨spaces, b, rest, broken, plain, wide⟩
    · exact plain
    · have input : atofInput t = b :: (rest ++ (literal ++ behind.flatten)) := by
        rw [atofInput, noNul, split, broken, List.append_assoc]
        refine dropWhile_spaces plain fun c first => ?_
        cases first
        by_contra space
        rw [Bool.not_eq_false] at space
        exact space_narrow space wide
      exact absurd (atof_none input wide) (Int.not_le.mpr number)
  have input : atofInput t = literal ++ behind.flatten := by
    rw [atofInput, noNul, split]
    exact dropWhile_spaces spaces head
  have fits : decimal digits < significandLimit * 10 := Nat.lt_of_le_of_lt small (by decide)
  have first : ∀ b ∈ behind.flatten.head?, isSpace b = true ∨ 0x80 ≤ b := by
    intro b there
    rcases whiteSpace_row right with plain | ⟨spaces, c, rest, broken, plain, wide⟩
    · exact Or.inl (plain b (List.mem_of_mem_head? there))
    · rw [broken] at there
      cases spaces with
      | nil =>
        cases there
        exact Or.inr wide
      | cons d spaces =>
        cases there
        exact Or.inl (plain b (List.mem_cons_self ..))
  obtain ⟨read, code⟩ := atof_integer input scanned some_ all fits first
  rw [code] at number
  have ends : behind.flatten.dropWhile isSpace = [] := by
    by_contra more
    rw [if_neg more] at number
    exact Int.lt_irrefl 0 number
  rw [if_pos ends] at code
  exact ⟨front.flatten, behind.flatten, literal, digits, neg, split, spaces,
    List.dropWhile_eq_nil_iff.mp ends, scanned, some_, all, small, value, code, read⟩

theorem takeWhile_digits {digits after : List UInt8} (all : ∀ b ∈ digits, isDigit b = true)
    (behind : Behind after) : (digits ++ after).takeWhile isDigit = digits ∧
      (digits ++ after).dropWhile isDigit = after := by
  induction digits with
  | nil =>
    cases after with
    | nil => exact ⟨rfl, rfl⟩
    | cons b rest =>
      have other := behind b rfl
      constructor
      · rw [List.nil_append, List.takeWhile_cons, other]
        rfl
      · rw [List.nil_append, List.dropWhile_cons, other]
        rfl
  | cons b digits ih =>
    obtain ⟨taken, dropped⟩ := ih fun c member => all c (List.mem_cons_of_mem _ member)
    have digit := all b (List.mem_cons_self ..)
    constructor
    · rw [List.cons_append, List.takeWhile_cons, if_pos digit, taken]
    · rw [List.cons_append, List.dropWhile_cons, if_pos digit, dropped]

theorem space_no_digit {b : UInt8} (space : isSpace b = true) : isDigit b = false := by
  rcases isSpace_cases space with rfl | rfl | rfl | rfl | rfl | rfl <;> decide

theorem clampI64_inside {i : Int} (low : -2 ^ 63 ≤ i) (high : i < 2 ^ 63) : clampI64 i = i := by
  rw [clampI64]
  omega

/-- `atoi64` reads an integer between spaces. -/
theorem atoi64_spaced {spaces literal digits after : List UInt8} {neg : Bool} {i : Int64}
    (front : ∀ b ∈ spaces, isSpace b = true) (behind : ∀ b ∈ after, isSpace b = true)
    (scanned : scanSign literal = (neg, digits)) (some_ : digits ≠ [])
    (all : ∀ b ∈ digits, isDigit b = true) (value : i.toInt = signed neg (decimal digits)) :
    atoi64 (spaces ++ (literal ++ after)) = (i, 0) := by
  have inner : unsigned (spaces ++ (literal ++ after)) = (neg, digits ++ after) := by
    rw [unsigned, dropWhile_spaces front (literal_head scanned some_ all after),
      scanSign_append scanned some_ all]
  have rest : Behind after := fun b first => space_no_digit (behind b (List.mem_of_mem_head? first))
  obtain ⟨taken, dropped⟩ := takeWhile_digits all rest
  have run : integerRun (spaces ++ (literal ++ after)) = i.toInt := by
    rw [integerRun, digitRun, inner, value]
    dsimp only
    rw [taken]
    rfl
  have inside : clampI64 i.toInt = i.toInt := clampI64_inside i.le_toInt i.toInt_lt
  obtain ⟨read, -, -, -, -, code⟩ := atoi64_exact (spaces ++ (literal ++ after))
  refine Prod.ext ?_ (code.mpr ⟨?_, ?_, ?_⟩)
  · rw [← Int64.toInt_inj, read, run, inside]
  · rw [digitRun, inner]
    dsimp only
    rwa [taken]
  · rw [run, inside]
  · rw [behindRun, inner]
    dsimp only
    rwa [dropped]

theorem asStr_ascii {z : List UInt8} (ascii : ∀ b ∈ z, b < 0x80) : asStr z = z := by
  have from_ (fuel : Nat) : ∀ z : List UInt8, (∀ b ∈ z, b < 0x80) → maskedFrom fuel z = z := by
    induction fuel with
    | zero => exact fun _ _ => rfl
    | succ fuel ih =>
      intro z ascii
      cases z with
      | nil => rfl
      | cons b rest =>
        have single : utf8Front (b :: rest) = .valid 1 := by
          rw [utf8Front]
          exact if_pos (ascii b (List.mem_cons_self ..))
        rw [maskedFrom_cons, single]
        dsimp only
        rw [List.drop_succ_cons, List.drop_zero,
          ih rest fun c member => ascii c (List.mem_cons_of_mem _ member)]
        rfl
  exact from_ _ z ascii

/-- Code words that start with white space of `atof` or outside ASCII. -/
def Spacing (codes : List (List UInt8)) : Prop :=
  (∀ code ∈ codes, code ≠ [] ∧ (isSpace (code.headD 0) = true ∨ 0x80 ≤ code.headD 0)) ∧
    ∀ b, isSpace b = true → ∀ s, codes.find? (fun code => code.isPrefixOf (b :: s)) = some [b]

theorem spacing_whiteSpace : Spacing whiteSpace := by
  refine ⟨by decide, fun b space s => ?_⟩
  rcases isSpace_cases space with rfl | rfl | rfl | rfl | rfl | rfl <;> rfl

theorem spacing_reverse : Spacing (whiteSpace.map List.reverse) := by
  refine ⟨by decide, fun b space s => ?_⟩
  rcases isSpace_cases space with rfl | rfl | rfl | rfl | rfl | rfl <;> rfl

/-- Spaces in front of another ASCII byte are what is stripped. -/
theorem stripCodes_spaces {codes : List (List UInt8)} (spacing : Spacing codes)
    {spaces rest : List UInt8} {b : UInt8} (all : ∀ b ∈ spaces, isSpace b = true)
    (other : isSpace b = false) (narrow : b < 0x80) {fuel : Nat} (enough : spaces.length ≤ fuel) :
    stripCodes codes fuel (spaces ++ b :: rest) = b :: rest := by
  refine stripCodes_singles (fun c member => spacing.2 c (all c member)) ?_ enough
  rintro code member ⟨more, same⟩
  obtain ⟨some_, first⟩ := spacing.1 code member
  obtain ⟨c, tail, rfl⟩ := List.exists_cons_of_ne_nil some_
  rw [List.cons_append] at same
  obtain ⟨rfl, -⟩ := List.cons.inj same
  rcases first with space | wide
  · exact absurd space (Bool.eq_false_iff.mp other)
  · exact absurd wide (UInt8.not_le.mpr narrow)

/-- A text that `atoi64` takes whole is an integer for the standard library. -/
theorem parseI64_of_atoi64 {t : List UInt8} (whole : (atoi64 t).2 = 0) :
    parseI64 (trim (asStr t)) = some (atoi64 t).1 := by
  obtain ⟨read, -, -, -, -, code⟩ := atoi64_exact t
  obtain ⟨some_, clamped, behind⟩ := code.mp whole
  have spaces : ∀ b ∈ t.takeWhile isSpace, isSpace b = true := mem_takeWhile
  have split : t = t.takeWhile isSpace ++ t.dropWhile isSpace := List.takeWhile_append_dropWhile.symm
  have digits : ∀ b ∈ digitRun t, isDigit b = true := mem_takeWhile
  have rest : (unsigned t).2 = digitRun t ++ behindRun t := List.takeWhile_append_dropWhile.symm
  obtain ⟨literal, scanned, whole_⟩ : ∃ literal, scanSign literal = ((unsigned t).1, digitRun t) ∧
      t.dropWhile isSpace = literal ++ behindRun t := by
    have scanned : scanSign (t.dropWhile isSpace) = ((unsigned t).1, (unsigned t).2) := rfl
    rw [rest] at scanned
    obtain ⟨b, more, same⟩ := List.exists_cons_of_ne_nil some_
    have digit := digits b (same ▸ List.mem_cons_self ..)
    rcases scanSign_split scanned with ⟨plain, sign⟩ | ⟨minus, sign⟩ | ⟨plus, sign⟩
    · refine ⟨digitRun t, ?_, plain⟩
      rw [sign, same]
      exact scanSign_plain (digit_ne digit (by decide)) (digit_ne digit (by decide)) _
    · exact ⟨0x2d :: digitRun t, by rw [sign]; rfl, minus⟩
    · exact ⟨0x2b :: digitRun t, by rw [sign]; rfl, plus⟩
  rw [whole_] at split
  have ascii : ∀ b ∈ t, b ≠ rawMask ∧ b < 0x80 := by
    have ofSpace : ∀ b, isSpace b = true → b ≠ rawMask ∧ b < 0x80 := by
      intro b space
      rcases isSpace_cases space with rfl | rfl | rfl | rfl | rfl | rfl <;> decide
    have ofDigit : ∀ b, isDigit b = true → b ≠ rawMask ∧ b < 0x80 := by
      intro b digit
      refine ⟨digit_ne digit (by decide), ?_⟩
      simp only [isDigit, Bool.and_eq_true, decide_eq_true_eq] at digit
      exact UInt8.lt_of_le_of_lt digit.2 (by decide)
    intro b member
    rw [split] at member
    rcases List.mem_append.mp member with member | member
    · exact ofSpace b (spaces b member)
    · rcases List.mem_append.mp member with member | member
      · rcases scanSign_split scanned with ⟨rfl, -⟩ | ⟨rfl, -⟩ | ⟨rfl, -⟩
        · exact ofDigit b (digits b member)
        · rcases List.mem_cons.mp member with rfl | member
          · decide
          · exact ofDigit b (digits b member)
        · rcases List.mem_cons.mp member with rfl | member
          · decide
          · exact ofDigit b (digits b member)
      · exact ofSpace b (behind b member)
  have plain : asStr t = t := asStr_ascii fun b member => (ascii b member).2
  have inside : ∀ b ∈ literal, b < 0x80 := fun b member => (ascii b (by
    rw [split]
    exact List.mem_append_right _ (List.mem_append_left _ member))).2
  have started : trimStart t = literal ++ behindRun t := by
    have head := literal_head scanned some_ digits (behindRun t)
    obtain ⟨b, more, same⟩ : ∃ b more, literal = b :: more := by
      cases literal with
      | nil => exact absurd (congrArg Prod.snd scanned).symm some_
      | cons b more => exact ⟨b, more, rfl⟩
    have first : b ∈ literal := same ▸ List.mem_cons_self ..
    rw [same, List.cons_append] at head split ⊢
    have strip := @stripCodes_spaces _ spacing_whiteSpace _ (more ++ behindRun t) _ spaces
        (head b rfl) (inside b first) t.length (List.takeWhile_sublist _).length_le
    rw [← split] at strip
    exact strip
  have ended : trimEnd (literal ++ behindRun t) = literal := by
    obtain ⟨front, last, same⟩ : ∃ front last, digitRun t = front ++ [last] :=
      ⟨_, _, (List.dropLast_append_getLast some_).symm⟩
    have digit : isDigit last = true := digits last (by
      rw [same]
      exact List.mem_append_right _ (List.mem_singleton.mpr rfl))
    have finish : ∃ more, literal.reverse = last :: more := by
      rcases scanSign_split scanned with ⟨plain, -⟩ | ⟨minus, -⟩ | ⟨plus, -⟩
      · exact ⟨front.reverse, by rw [plain, same, List.reverse_append]; rfl⟩
      · exact ⟨front.reverse ++ [0x2d], by
          rw [minus, same, List.reverse_cons, List.reverse_append]; rfl⟩
      · exact ⟨front.reverse ++ [0x2b], by
          rw [plus, same, List.reverse_cons, List.reverse_append]; rfl⟩
    obtain ⟨more, mirrored⟩ := finish
    have other : isSpace last = false := by
      by_contra space
      rw [Bool.not_eq_false] at space
      exact absurd digit (Bool.eq_false_iff.mp (space_no_digit space))
    have member : last ∈ literal := by
      rw [← List.mem_reverse, mirrored]
      exact List.mem_cons_self ..
    rw [trimEnd, List.reverse_append, mirrored, stripCodes_spaces spacing_reverse
      (fun b member => behind b (List.mem_reverse.mp member)) other (inside last member), ← mirrored,
      List.reverse_reverse]
    rw [List.length_reverse, List.length_append]
    exact Nat.le_add_left _ _
  have range : signed (unsigned t).1 (decimal (digitRun t)) = integerRun t := rfl
  rw [plain, trim, started, ended, parseI64, scanned]
  dsimp only
  have low : -2 ^ 63 ≤ integerRun t ∧ integerRun t < 2 ^ 63 := by
    rw [clampI64] at clamped
    omega
  rw [if_neg, range, if_pos low, ← clamped, ← read, Int64.ofInt_toInt]
  rw [not_or, Bool.not_eq_false, List.all_eq_true]
  exact ⟨some_, digits⟩

end RustSql.Types
