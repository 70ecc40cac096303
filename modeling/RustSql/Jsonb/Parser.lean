import RustSql.Jsonb.Codec

/-! The text parser: one parser for RFC 8259 and for the lenient superset with JSON5,
with the errors at one-based byte positions. Every loop takes fuel, of which a fixed
multiple of the bytes left is enough. -/

namespace RustSql.Jsonb

/-- The bytes that are left and how many have been read. -/
structure JParser where
  rest : List UInt8
  pos : Nat
deriving DecidableEq, Repr

namespace JParser

def advance (p : JParser) (n : Nat) : JParser := ⟨p.rest.drop n, p.pos + n⟩

def peek (p : JParser) : Option UInt8 := p.rest.head?

def err (p : JParser) : Nat := p.pos + 1

def startsWith (p : JParser) (lit : List UInt8) : Bool := lit.isPrefixOf p.rest

/-- The input between two positions. -/
def span (start stop : JParser) : List UInt8 := start.rest.take (stop.pos - start.pos)

end JParser

def isWs (b : UInt8) : Bool := b == 0x20 || b == 0x09 || b == 0x0A || b == 0x0D

/-- The second and third byte of U+2028 and U+2029. -/
def isLineSeparator : List UInt8 → Bool
  | 0x80 :: 0xA8 :: _ | 0x80 :: 0xA9 :: _ => true
  | _ => false

/-- How far behind the opening `*/` starts. -/
def blockCommentEnd : List UInt8 → Option Nat
  | [] => none
  | b :: rest =>
    if b = 0x2A ∧ rest.head? = some 0x2F then some 0 else (blockCommentEnd rest).map (· + 1)

/-- The length of a line comment behind its `//`, the line end included. -/
def lineCommentLen : List UInt8 → Nat
  | [] => 0
  | b :: rest =>
    if b = 0x0A ∨ b = 0x0D then 1
    else if b = 0xE2 ∧ isLineSeparator rest then 3
    else 1 + lineCommentLen rest

/-- `json5_ws_len`: the length of the JSON5-only whitespace in front. -/
def json5WsLen : List UInt8 → Nat
  | 0x0B :: _ | 0x0C :: _ => 1
  | 0x2F :: 0x2A :: rest => ((blockCommentEnd rest).map (· + 4)).getD 0
  | 0x2F :: 0x2F :: rest => 2 + lineCommentLen rest
  | 0xC2 :: 0xA0 :: _ => 2
  | 0xE1 :: 0x9A :: 0x80 :: _ => 3
  | 0xE2 :: 0x80 :: c :: _ =>
    if (0x80 ≤ c && c ≤ 0x8A) || c == 0xA8 || c == 0xA9 || c == 0xAF then 3 else 0
  | 0xE2 :: 0x81 :: 0x9F :: _ => 3
  | 0xE3 :: 0x80 :: 0x80 :: _ => 3
  | 0xEF :: 0xBB :: 0xBF :: _ => 3
  | _ => 0

/-- The spaces of both grammars. -/
def JParser.skipSpaces (p : JParser) : JParser := p.advance (p.rest.takeWhile isWs).length

def skipWsFrom (strict : Bool) : (fuel : Nat) → JParser → JParser
  | 0, p => p.skipSpaces
  | fuel + 1, p =>
    if strict then p.skipSpaces
    else
      match json5WsLen p.skipSpaces.rest with
      | 0 => p.skipSpaces
      | n => skipWsFrom strict fuel (p.skipSpaces.advance n)

def JParser.skipWs (strict : Bool) (p : JParser) : JParser := skipWsFrom strict p.rest.length p

/-- A scanned number: the `NULL` of a lenient `NaN`, or its kind and payload. -/
inductive NumTok where
  | null
  | payload (kind : NumKind) (text : List UInt8)
deriving DecidableEq, Repr

def JParser.skipDigits (p : JParser) : JParser := p.advance (p.rest.takeWhile isDigit).length

def JParser.skipHexDigits (p : JParser) : JParser := p.advance (p.rest.takeWhile isHexDigit).length

/-- The sign in front: what follows it, or the number it already makes. -/
def scanSign (strict : Bool) (p : JParser) : Except Nat (JParser ⊕ (NumTok × JParser)) :=
  match p.peek with
  | some 0x2D =>
    let q := p.advance 1
    if !strict && q.startsWith (ascii "Infinity") then
      .ok (.inr (.payload .float (ascii "-9e999"), q.advance 8))
    else if !strict && q.startsWith (ascii "NaN") then .ok (.inr (.null, q.advance 3))
    else .ok (.inl q)
  | some 0x2B =>
    if strict then .error p.err
    else
      let q := p.advance 1
      if q.startsWith (ascii "Infinity") then
        .ok (.inr (.payload .float (ascii "9e999"), q.advance 8))
      else .ok (.inl q)
  | _ => .ok (.inl p)

/-- Is a hexadecimal number next? -/
def startsHex (p : JParser) : Bool :=
  match p.rest with
  | 0x30 :: 0x78 :: _ | 0x30 :: 0x58 :: _ => true
  | _ => false

/-- The hexadecimal number that began at `start`. -/
def scanHexNumber (strict : Bool) (start p : JParser) : Except Nat (NumTok × JParser) :=
  if strict then .error p.err
  else
    let q := (p.advance 2).skipHexDigits
    if q.pos = p.pos + 2 then .error q.err else .ok (.payload .int5 (start.span q), q)

/-- The fraction: was there a dot, how many digits follow it, and where it ends. -/
def scanFraction (p : JParser) : Bool × Nat × JParser :=
  if p.peek = some 0x2E then
    let q := (p.advance 1).skipDigits
    (true, q.pos - (p.pos + 1), q)
  else (false, 0, p)

/-- The sign of an exponent. -/
def JParser.skipSign (p : JParser) : JParser :=
  if p.peek = some 0x2B ∨ p.peek = some 0x2D then p.advance 1 else p

/-- The exponent: was there one, and where it ends. -/
def scanExponent (p : JParser) : Except Nat (Bool × JParser) :=
  if p.peek = some 0x65 ∨ p.peek = some 0x45 then
    let q := (p.advance 1).skipSign
    let r := q.skipDigits
    if r.pos = q.pos then .error p.err else .ok (true, r)
  else .ok (false, p)

/-- The decimal number that began at `start`, from its first digit on. -/
def scanDecimal (strict : Bool) (start p : JParser) : Except Nat (NumTok × JParser) := do
  let q := p.skipDigits
  let intDigits := q.pos - p.pos
  let (dot, fracDigits, q) := scanFraction q
  let (hasExp, q) ← scanExponent q
  if intDigits = 0 ∧ fracDigits = 0 then .error start.err
  else if intDigits > 1 ∧ p.peek = some 0x30 then .error p.err
  else
    let plus := start.peek == some 0x2B
    let body := if plus then start.advance 1 else start
    if dot || hasExp then
      let canonical := !plus && intDigits > 0 && (!dot || fracDigits > 0)
      if strict && !canonical then .error start.err
      else if canonical then .ok (.payload .float (start.span q), q)
      else .ok (.payload .float5 (body.span q), q)
    else .ok (.payload .int (body.span q), q)

def scanNumber (strict : Bool) (p : JParser) : Except Nat (NumTok × JParser) := do
  match ← scanSign strict p with
  | .inr found => .ok found
  | .inl q => if startsHex q then scanHexNumber strict p q else scanDecimal strict p q

/-- `n` hexadecimal digits. -/
def scanHexDigits : (n : Nat) → JParser → Except Nat JParser
  | 0, p => .ok p
  | n + 1, p =>
    match p.peek with
    | none => .error p.err
    | some h => if isHexDigit h then scanHexDigits n (p.advance 1) else .error p.err

/-- The escapes of RFC 8259 behind a backslash, without `\u`. -/
def isPlainEscape (e : UInt8) : Bool :=
  e == 0x22 || e == 0x5C || e == 0x2F || e == 0x62 || e == 0x66 || e == 0x6E || e == 0x72 ||
    e == 0x74

/-- The escapes that only JSON5 has behind a backslash. -/
def isJson5Escape (e : UInt8) : Bool :=
  e == 0x78 || e == 0x76 || e == 0x30 || e == 0x0A || e == 0x0D || e == 0x27

/-- What stands behind a backslash: is it JSON5 only, and where it ends. -/
def scanEscape (strict : Bool) (p : JParser) : Except Nat (Bool × JParser) :=
  match p.rest with
  | [] => .error p.err
  | e :: behind =>
    if isPlainEscape e then .ok (false, p.advance 1)
    else if e = 0x75 then do
      let q ← scanHexDigits 4 (p.advance 1)
      return (false, q)
    else if e = 0xE2 ∧ !strict ∧ isLineSeparator behind then .ok (true, p.advance 3)
    else if isJson5Escape e then
      if strict || (e == 0x30 && behind.head?.any isDigit) then .error p.err
      else if e = 0x0D ∧ behind.head? = some 0x0A then .ok (true, p.advance 2)
      else if e = 0x78 then do
        let q ← scanHexDigits 2 (p.advance 1)
        return (true, q)
      else .ok (true, p.advance 1)
    else .error p.err

/-- The string's kind, by the escapes and bytes it holds. -/
def stringKind (escaped json5 : Bool) : StrKind :=
  if json5 then .text5 else if escaped then .textJ else .text

/-- The loop of `scan_string_q` up to the closing quote: the kind and the position of
that quote. -/
def scanStringFrom (strict : Bool) (q : UInt8) : (fuel : Nat) → (escaped json5 : Bool) →
    JParser → Except Nat (StrKind × JParser)
  | 0, _, _, p => .error p.err
  | fuel + 1, escaped, json5, p =>
    match p.peek with
    | none => .error p.err
    | some c =>
      if c = 0x22 ∧ q ≠ 0x22 then scanStringFrom strict q fuel escaped true (p.advance 1)
      else if c = q then .ok (stringKind escaped json5, p)
      else if c = 0x5C then do
        let (only5, r) ← scanEscape strict (p.advance 1)
        scanStringFrom strict q fuel true (json5 || only5) r
      else if c = 0 then .error p.err
      else if c < 0x20 then
        if strict then .error p.err else scanStringFrom strict q fuel escaped true (p.advance 1)
      else scanStringFrom strict q fuel escaped json5 (p.advance 1)

/-- `scan_string_q`: the kind, the payload between the quotes, and what is behind. -/
def scanString (strict : Bool) (q : UInt8) (p : JParser) :
    Except Nat (StrKind × List UInt8 × JParser) :=
  if p.peek ≠ some q then .error p.err
  else do
    let start := p.advance 1
    let (kind, stop) ← scanStringFrom strict q (start.rest.length + 1) false false start
    return (kind, start.span stop, stop.advance 1)

/-- The bytes an unquoted key may start with. -/
def isId1 (c : UInt8) : Bool :=
  (0x61 ≤ c && c ≤ 0x7A) || (0x41 ≤ c && c ≤ 0x5A) || c == 0x5F || c == 0x24 || 0x80 ≤ c

def is4Hex (b : List UInt8) : Bool := decide (4 ≤ b.length) && (b.take 4).all isHexDigit

/-- The loop of `scan_ident_key`: does the key hold an escape, and where it ends. -/
def scanIdentFrom (start : Nat) : (fuel : Nat) → (escaped : Bool) → JParser → Bool × JParser
  | 0, escaped, p => (escaped, p)
  | fuel + 1, escaped, p =>
    match p.rest with
    | [] => (escaped, p)
    | c :: behind =>
      if (isId1 c || (isDigit c && p.pos > start)) && json5WsLen p.rest == 0 then
        scanIdentFrom start fuel escaped (p.advance 1)
      else if c = 0x5C ∧ behind.head? = some 0x75 ∧ is4Hex (behind.drop 1) then
        scanIdentFrom start fuel true (p.advance 6)
      else (escaped, p)

def scanIdentKey (p : JParser) : Except Nat (StrKind × List UInt8 × JParser) :=
  let (escaped, q) := scanIdentFrom p.pos p.rest.length false p
  if q.pos = p.pos then .error p.err
  else .ok (if escaped then .textJ else .text, p.span q, q)

/-- The key of a member: quoted, or in JSON5 also single-quoted or a name. -/
def scanKey (strict : Bool) (p : JParser) : Except Nat (StrKind × List UInt8 × JParser) :=
  if p.peek = some 0x22 then scanString strict 0x22 p
  else if strict then .error p.err
  else if p.peek = some 0x27 then scanString strict 0x27 p
  else scanIdentKey p

def parseLit (lit : List UInt8) (v : Jb) (p : JParser) : Except Nat (Jb × JParser) :=
  if p.startsWith lit then .ok (v, p.advance lit.length) else .error p.err

def NumTok.jb : NumTok → Jb
  | .null => .null
  | .payload kind text => .number kind text

def startsNumber (c : UInt8) : Bool := c == 0x2D || c == 0x2B || isDigit c || c == 0x2E

mutual

def parseValue (strict : Bool) : (fuel : Nat) → JParser → Except Nat (Jb × JParser)
  | 0, p => .error p.err
  | fuel + 1, p =>
    let p := p.skipWs strict
    match p.peek with
    | none => .error p.err
    | some c =>
      if c = 0x7B then parseObject strict fuel p
      else if c = 0x5B then parseArray strict fuel p
      else if c = 0x22 then do
        let (kind, text, q) ← scanString strict 0x22 p
        return (.string kind text, q)
      else if c = 0x27 ∧ !strict then do
        let (kind, text, q) ← scanString strict 0x27 p
        return (.string kind text, q)
      else if c = 0x74 then parseLit (ascii "true") (.truth true) p
      else if c = 0x66 then parseLit (ascii "false") (.truth false) p
      else if c = 0x6E then parseLit (ascii "null") .null p
      else if c = 0x4E ∧ !strict then parseLit (ascii "NaN") .null p
      else if c = 0x49 ∧ !strict then
        parseLit (ascii "Infinity") (.number .float (ascii "9e999")) p
      else if startsNumber c then do
        let (tok, q) ← scanNumber strict p
        return (tok.jb, q)
      else .error p.err

def parseArray (strict : Bool) : (fuel : Nat) → JParser → Except Nat (Jb × JParser)
  | 0, p => .error p.err
  | fuel + 1, p =>
    let p := (p.advance 1).skipWs strict
    if p.peek = some 0x5D then .ok (.array [], p.advance 1)
    else do
      let (items, q) ← parseItems strict fuel p
      return (.array items, q)

/-- The items of an array from one of them on, up to and with the bracket. -/
def parseItems (strict : Bool) : (fuel : Nat) → JParser → Except Nat (List Jb × JParser)
  | 0, p => .error p.err
  | fuel + 1, p => do
    let (v, q) ← parseValue strict fuel p
    let q := q.skipWs strict
    if q.peek = some 0x2C then
      let q := (q.advance 1).skipWs strict
      if q.peek = some 0x5D ∧ !strict then return ([v], q.advance 1)
      else do
        let (items, r) ← parseItems strict fuel q
        return (v :: items, r)
    else if q.peek = some 0x5D then return ([v], q.advance 1)
    else .error q.err

def parseObject (strict : Bool) : (fuel : Nat) → JParser → Except Nat (Jb × JParser)
  | 0, p => .error p.err
  | fuel + 1, p =>
    let p := (p.advance 1).skipWs strict
    if p.peek = some 0x7D then .ok (.object [], p.advance 1)
    else do
      let (pairs, q) ← parseMembers strict fuel p
      return (.object pairs, q)

/-- The members of an object from one of them on, up to and with the brace. -/
def parseMembers (strict : Bool) : (fuel : Nat) → JParser → Except Nat (List (Jb × Jb) × JParser)
  | 0, p => .error p.err
  | fuel + 1, p => do
    let (kind, text, q) ← scanKey strict (p.skipWs strict)
    let q := q.skipWs strict
    if q.peek ≠ some 0x3A then .error q.err
    else do
      let (v, q) ← parseValue strict fuel (q.advance 1)
      let q := q.skipWs strict
      if q.peek = some 0x2C then
        let q := (q.advance 1).skipWs strict
        if q.peek = some 0x7D ∧ !strict then return ([(.string kind text, v)], q.advance 1)
        else do
          let (pairs, r) ← parseMembers strict fuel q
          return ((.string kind text, v) :: pairs, r)
      else if q.peek = some 0x7D then return ([(.string kind text, v)], q.advance 1)
      else .error q.err

end

/-- What is enough for every loop of the parser. -/
def parseFuel (b : List UInt8) : Nat := 3 * b.length + 3

/-- A document: a value and nothing but whitespace behind it. -/
def parseBytes (strict : Bool) (b : List UInt8) : Except Nat Jb := do
  let (v, p) ← parseValue strict (parseFuel b) ⟨b, 0⟩
  let p := p.skipWs strict
  if p.rest ≠ [] then .error p.err else return v

def parseLenientBytes (b : List UInt8) : Except Nat Jb := parseBytes false b

def parseStrictBytes (b : List UInt8) : Except Nat Jb := parseBytes true b

end RustSql.Jsonb
