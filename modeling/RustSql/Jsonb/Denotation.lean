import Mathlib.Data.Rat.Defs
import RustSql.Jsonb.Encoding

/-! The value a tree stands for: numbers as rationals, strings as code units, whatever
text they were written in. -/

namespace RustSql.Jsonb

/-- The number decimal digits spell. -/
def digitsValue (ds : List UInt8) : Nat := ds.foldl (fun n b => n * 10 + (b.toNat - 0x30)) 0

/-- The exponent behind its letter. -/
def exponentValue : List UInt8 → Int
  | 0x2D :: ds => -digitsValue ds
  | 0x2B :: ds => digitsValue ds
  | ds => digitsValue ds

/-- The digits behind a dot, and what follows them. -/
def fractionOf : List UInt8 → List UInt8 × List UInt8
  | 0x2E :: rest => (rest.takeWhile isDigit, rest.dropWhile isDigit)
  | rest => ([], rest)

/-- The number a decimal text without a sign spells. -/
def decimalValue (s : List UInt8) : ℚ :=
  let int := s.takeWhile isDigit
  let (frac, behind) := fractionOf (s.dropWhile isDigit)
  digitsValue (int ++ frac) * 10 ^ (exponentValue behind.tail - frac.length)

def unsignedValue (s : List UInt8) : ℚ :=
  match stripHexPrefix s with
  | some hex => hexNumber hex
  | none => decimalValue s

/-- The number a payload spells, decimal or hexadecimal. -/
def numberValue : List UInt8 → ℚ
  | 0x2D :: rest => -unsignedValue rest
  | 0x2B :: rest => unsignedValue rest
  | s => unsignedValue s

example : numberValue (ascii "-12.5e1") = -125 := by decide +kernel

/-- A code unit of UTF-16, or a byte beyond ASCII as it stands in the text. -/
inductive Symbol where
  | unit (u : Nat)
  | byte (b : UInt8)
deriving DecidableEq, Repr

def symbolOf (c : UInt8) : Symbol := if c < 0x80 then .unit c.toNat else .byte c

/-- The code unit of an escape of one letter. -/
def escapeUnit (e : UInt8) : Nat :=
  if e = 0x62 then 0x08 else if e = 0x66 then 0x0C else if e = 0x6E then 0x0A
  else if e = 0x72 then 0x0D else if e = 0x74 then 0x09 else if e = 0x76 then 0x0B
  else if e = 0x30 then 0 else e.toNat

/-- The content of a string from its text between the quotes. -/
def symbols : List UInt8 → List Symbol
  | [] => []
  | 0x5C :: 0x75 :: a :: b :: c :: d :: rest => .unit (hexNumber [a, b, c, d]) :: symbols rest
  | 0x5C :: 0x78 :: x :: y :: rest => .unit (hexNumber [x, y]) :: symbols rest
  | 0x5C :: 0x0A :: rest => symbols rest
  | 0x5C :: 0x0D :: 0x0A :: rest => symbols rest
  | 0x5C :: 0x0D :: rest => symbols rest
  | 0x5C :: 0xE2 :: 0x80 :: 0xA8 :: rest => symbols rest
  | 0x5C :: 0xE2 :: 0x80 :: 0xA9 :: rest => symbols rest
  | 0x5C :: e :: rest => .unit (escapeUnit e) :: symbols rest
  | c :: rest => symbolOf c :: symbols rest

/-- The content of a string element; the bytes of a raw one are not escaped. -/
def contentOf (kind : StrKind) (s : List UInt8) : List Symbol :=
  if kind = .textRaw then s.map symbolOf else symbols s

/-- A JSON value. -/
inductive Json where
  | null
  | truth (value : Bool)
  | number (value : ℚ)
  | string (content : List Symbol)
  | array (items : List Json)
  | object (pairs : List (Json × Json))

mutual

def Jb.value : Jb → Json
  | .null => .null
  | .truth value => .truth value
  | .number _ s => .number (numberValue s)
  | .string kind s => .string (contentOf kind s)
  | .array items => .array (itemValues items)
  | .object pairs => .object (pairValues pairs)

def itemValues : List Jb → List Json
  | [] => []
  | item :: rest => item.value :: itemValues rest

def pairValues : List (Jb × Jb) → List (Json × Json)
  | [] => []
  | (key, value) :: rest => (key.value, value.value) :: pairValues rest

end

namespace Piece

/-- What a piece stands for. -/
def symbols : Piece → List Symbol
  | plain c => [symbolOf c]
  | escape e | char e => [.unit (escapeUnit e)]
  | unicode ds | hex ds => [.unit (hexNumber ds)]
  | joined _ => []

end Piece

section Strings

variable {strict : Bool} {quote : UInt8}

theorem four_digits {ds : List UInt8} (four : ds.length = 4) : ∃ a b c d, ds = [a, b, c, d] := by
  match ds, four with
  | [a, b, c, d], _ => exact ⟨a, b, c, d, rfl⟩

theorem two_digits {ds : List UInt8} (two : ds.length = 2) : ∃ x y, ds = [x, y] := by
  match ds, two with
  | [x, y], _ => exact ⟨x, y, rfl⟩

theorem symbols_plain {c : UInt8} (rest : List UInt8) (notBackslash : c ≠ 0x5C) :
    symbols (c :: rest) = symbolOf c :: symbols rest := by
  rw [symbols] <;> intros <;> simp_all

/-- The letters of escapes are none that take more bytes. -/
theorem symbols_escape {e : UInt8} (rest : List UInt8)
    (single : e ∉ [0x75, 0x78, 0x0A, 0x0D, 0xE2]) :
    symbols (0x5C :: e :: rest) = .unit (escapeUnit e) :: symbols rest := by
  simp only [List.mem_cons, List.not_mem_nil, or_false, not_or] at single
  rw [symbols] <;> intros <;> simp_all

theorem isPlainEscape_single {e : UInt8} (known : isPlainEscape e = true) :
    e ∉ [0x75, 0x78, 0x0A, 0x0D, 0xE2] := by
  simp only [isPlainEscape, Bool.or_eq_true, beq_iff_eq] at known
  rcases known with ((((((is | is) | is) | is) | is) | is) | is) | is <;> subst is <;> decide

theorem symbols_joined {line rest : List UInt8} (known : line ∈ lineEnds)
    (ends : line = [0x0D] → rest.head? ≠ some 0x0A) :
    symbols (0x5C :: (line ++ rest)) = symbols rest := by
  simp only [lineEnds, List.mem_cons, List.not_mem_nil, or_false] at known
  rcases known with rfl | rfl | rfl | rfl | rfl
  · rw [List.singleton_append, symbols]
  · have alone := ends rfl
    rw [List.singleton_append, symbols]
    rintro more rfl
    exact alone rfl
  · simp only [List.cons_append, List.nil_append, symbols]
  · simp only [List.cons_append, List.nil_append, symbols]
  · simp only [List.cons_append, List.nil_append, symbols]

theorem symbols_piecesText {ps : List Piece} (spelled : Spelled strict quote ps) :
    symbols (piecesText ps) = ps.flatMap Piece.symbols := by
  induction ps with
  | nil => rfl
  | cons p ps ih =>
    obtain ⟨good, ends, others⟩ := spelled
    rw [piecesText_cons, List.flatMap_cons, ← ih others]
    cases p with
    | plain c => exact symbols_plain _ good.2.1
    | escape e => exact symbols_escape _ (isPlainEscape_single good)
    | unicode ds =>
      obtain ⟨a, b, c, d, rfl⟩ := four_digits good.1
      rfl
    | hex ds =>
      obtain ⟨x, y, rfl⟩ := two_digits good.2.1
      rfl
    | char e =>
      rcases good.2 with rfl | rfl | rfl <;> exact symbols_escape _ (by decide)
    | joined line => exact symbols_joined good.2 ends

end Strings

end RustSql.Jsonb
