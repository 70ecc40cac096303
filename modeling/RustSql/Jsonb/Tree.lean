import RustSql.Foundation.Bytes
import Mathlib.Data.Nat.Digits.Defs
import RustSql.Types.MaskedText

/-! The JSON tree that keeps the text of its numbers and strings, and its minified
rendering. -/

namespace RustSql.Jsonb

/-- How the text of a number is written: RFC 8259 or JSON5, integer or real. -/
inductive NumKind where
  | int | int5 | float | float5
deriving DecidableEq, Repr

/-- How the payload of a string is written: without escapes, with those of RFC 8259,
with those of JSON5, or raw and still to be escaped. -/
inductive StrKind where
  | text | textJ | text5 | textRaw
deriving DecidableEq, Repr

/-- A JSON tree; the keys of an object are strings. -/
inductive Jb where
  | null
  | truth (value : Bool)
  | number (kind : NumKind) (payload : List UInt8)
  | string (kind : StrKind) (payload : List UInt8)
  | array (items : List Jb)
  | object (pairs : List (Jb × Jb))

/-- The bytes of an ASCII text. -/
def ascii (text : String) : List UInt8 := text.toList.map fun c => UInt8.ofNat c.toNat

def isDigit (b : UInt8) : Bool := 0x30 ≤ b && b ≤ 0x39

def isHexDigit (b : UInt8) : Bool :=
  isDigit b || (0x61 ≤ b && b ≤ 0x66) || (0x41 ≤ b && b ≤ 0x46)

/-- The value of a hexadecimal digit. -/
def hexValue (b : UInt8) : Nat :=
  if b ≤ 0x39 then b.toNat - 0x30 else if b ≤ 0x46 then b.toNat - 0x37 else b.toNat - 0x57

/-- The number hexadecimal digits spell. -/
def hexNumber (digits : List UInt8) : Nat := digits.foldl (fun n b => n * 16 + hexValue b) 0

/-- `from_str_radix(digits, 16)` of an unsigned integer below `bound`; a plus sign may
stand in front. -/
def fromStrRadix16 (bound : Nat) (digits : List UInt8) : Option Nat :=
  let body := match digits with
    | 0x2B :: rest => rest
    | _ => digits
  if body ≠ [] ∧ body.all isHexDigit ∧ hexNumber body < bound then some (hexNumber body) else none

/-- `to_string` of an unsigned integer. -/
def decimalDigits (n : Nat) : List UInt8 :=
  if n = 0 then [0x30] else (Nat.digits 10 n).reverse.map fun d => UInt8.ofNat (0x30 + d)

/-- `trim_start_matches('+')`. -/
def trimPlus (s : List UInt8) : List UInt8 := s.dropWhile (· == 0x2B)

/-- What follows `0x` or `0X`. -/
def stripHexPrefix : List UInt8 → Option (List UInt8)
  | 0x30 :: 0x78 :: rest | 0x30 :: 0x58 :: rest => some rest
  | _ => none

def canonicalInt5 (s : List UInt8) : List UInt8 :=
  let t := trimPlus s
  match stripHexPrefix t with
  | none => t
  | some hex =>
    let neg := t.head? == some 0x2D
    let h := match hex with
      | 0x2D :: rest => rest
      | _ => hex
    match fromStrRadix16 (2 ^ 128) h with
    | some v => (if neg then [0x2D] else []) ++ decimalDigits v
    | none => t

/-- The part up to and with the first dot, and the part behind it. -/
def splitDot (s : List UInt8) : Option (List UInt8 × List UInt8) :=
  match s.dropWhile (· != 0x2E) with
  | [] => none
  | _ :: rest => some (s.takeWhile (· != 0x2E) ++ [0x2E], rest)

def canonicalFloat5 (s : List UInt8) : List UInt8 :=
  let t := trimPlus s
  if t = ascii "Infinity" then ascii "9e999"
  else if t = ascii "-Infinity" then ascii "-9e999"
  else if t = ascii "NaN" then ascii "null"
  else
    let (sign, rest) : List UInt8 × List UInt8 := match t with
      | 0x2D :: r => ([0x2D], r)
      | _ => ([], t)
    match rest with
    | 0x2E :: frac => sign ++ [0x30, 0x2E] ++ frac
    | _ =>
      match splitDot rest with
      | some (whole, frac) =>
        sign ++ whole ++ (if frac.head?.any isDigit then [] else [0x30]) ++ frac
      | none => sign ++ rest

/-- The digits of `{:04x}` for a byte. -/
def hexDigits4 (b : UInt8) : List UInt8 :=
  let digit (n : Nat) : UInt8 := UInt8.ofNat (if n < 10 then 0x30 + n else 0x57 + n)
  [0x30, 0x30, digit (b.toNat / 16), digit (b.toNat % 16)]

/-- One byte of a string in JSON text. -/
def escapedByte (c : UInt8) : List UInt8 :=
  if c = 0x22 then [0x5C, 0x22]
  else if c = 0x5C then [0x5C, 0x5C]
  else if c = 0x08 then [0x5C, 0x62]
  else if c = 0x0C then [0x5C, 0x66]
  else if c = 0x0A then [0x5C, 0x6E]
  else if c = 0x0D then [0x5C, 0x72]
  else if c = 0x09 then [0x5C, 0x74]
  else if c < 0x20 then [0x5C, 0x75] ++ hexDigits4 c
  else [c]

def writeEscapedString (b : List UInt8) : List UInt8 := b.flatMap escapedByte

/-- `write_json5_as_json`: JSON5 escapes become escapes of RFC 8259, line
continuations vanish. -/
def writeJson5AsJson : List UInt8 → List UInt8
  | [] => []
  | 0x5C :: 0x78 :: x :: y :: rest => [0x5C, 0x75, 0x30, 0x30, x, y] ++ writeJson5AsJson rest
  | 0x5C :: 0x30 :: rest => ascii "\\u0000" ++ writeJson5AsJson rest
  | 0x5C :: 0x76 :: rest => ascii "\\u000b" ++ writeJson5AsJson rest
  | 0x5C :: 0x27 :: rest => 0x27 :: writeJson5AsJson rest
  | 0x5C :: 0x0A :: rest => writeJson5AsJson rest
  | 0x5C :: 0x0D :: 0x0A :: rest => writeJson5AsJson rest
  | 0x5C :: 0x0D :: rest => writeJson5AsJson rest
  | 0x5C :: 0xE2 :: 0x80 :: 0xA8 :: rest => writeJson5AsJson rest
  | 0x5C :: 0xE2 :: 0x80 :: 0xA9 :: rest => writeJson5AsJson rest
  | 0x5C :: e :: rest => [0x5C, e] ++ writeJson5AsJson rest
  | 0x22 :: rest => [0x5C, 0x22] ++ writeJson5AsJson rest
  | c :: rest =>
    (if c < 0x20 then writeEscapedString [c] else [c]) ++ writeJson5AsJson rest

def renderNumber : NumKind → List UInt8 → List UInt8
  | .int, s | .float, s => s
  | .int5, s => canonicalInt5 s
  | .float5, s => canonicalFloat5 s

def renderString (kind : StrKind) (s : List UInt8) : List UInt8 :=
  let body := match kind with
    | .text | .textJ => s
    | .text5 => writeJson5AsJson s
    | .textRaw => writeEscapedString s
  [0x22] ++ body ++ [0x22]

mutual

/-- `Jb::write`. -/
def Jb.render : Jb → List UInt8
  | .null => ascii "null"
  | .truth true => ascii "true"
  | .truth false => ascii "false"
  | .number kind s => renderNumber kind s
  | .string kind s => renderString kind s
  | .array items => [0x5B] ++ renderItems items ++ [0x5D]
  | .object pairs => [0x7B] ++ renderPairs pairs ++ [0x7D]

/-- The items between the brackets, a comma before all but the first. -/
def renderItems : List Jb → List UInt8
  | [] => []
  | [item] => item.render
  | item :: rest => item.render ++ [0x2C] ++ renderItems rest

def renderPairs : List (Jb × Jb) → List UInt8
  | [] => []
  | [(key, value)] => key.render ++ [0x3A] ++ value.render
  | (key, value) :: rest =>
    key.render ++ [0x3A] ++ value.render ++ [0x2C] ++ renderPairs rest

end

end RustSql.Jsonb
