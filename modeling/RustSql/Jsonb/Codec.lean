import RustSql.Foundation.Lexicographic
import RustSql.Jsonb.Tree

/-! The binary JSONB encoding, and the four walkers that read it: the decoder, the
validity check, the renderer and the decoder that keeps offsets. A walker goes through
a container while its position is before the payload's end; each takes fuel, of which
twice the length of the blob is enough. -/

namespace RustSql.Jsonb

open RustSql.Foundation RustSql.Types

def NumKind.code : NumKind → UInt8
  | .int => 3
  | .int5 => 4
  | .float => 5
  | .float5 => 6

def StrKind.code : StrKind → UInt8
  | .text => 7
  | .textJ => 8
  | .text5 => 9
  | .textRaw => 10

/-- The element types. -/
inductive Typ where
  | null
  | truth (value : Bool)
  | number (kind : NumKind)
  | string (kind : StrKind)
  | array
  | object
deriving DecidableEq, Repr

def Typ.code : Typ → UInt8
  | .null => 0
  | .truth true => 1
  | .truth false => 2
  | .number kind => kind.code
  | .string kind => kind.code
  | .array => 11
  | .object => 12

/-- The type a low nibble stands for; 13, 14 and 15 are reserved. -/
def Typ.ofCode (code : UInt8) : Option Typ :=
  match code.toNat with
  | 0 => some .null
  | 1 => some (.truth true)
  | 2 => some (.truth false)
  | 3 => some (.number .int)
  | 4 => some (.number .int5)
  | 5 => some (.number .float)
  | 6 => some (.number .float5)
  | 7 => some (.string .text)
  | 8 => some (.string .textJ)
  | 9 => some (.string .text5)
  | 10 => some (.string .textRaw)
  | 11 => some .array
  | 12 => some .object
  | _ => none

/-- `push_header`: the shortest header for a payload of `len` bytes. -/
def pushHeader (typ : UInt8) (len : Nat) : List UInt8 :=
  if len ≤ 11 then [(UInt8.ofNat len <<< 4) ||| typ]
  else if len ≤ 0xFF then (0xC0 ||| typ) :: bigEndian 1 len
  else if len ≤ 0xFFFF then (0xD0 ||| typ) :: bigEndian 2 len
  else if len ≤ 0xFFFFFFFF then (0xE0 ||| typ) :: bigEndian 4 len
  else (0xF0 ||| typ) :: bigEndian 8 len

/-- The number of size bytes a high nibble announces. -/
def sizeBytes (nibble : Nat) : Nat :=
  if nibble = 12 then 1 else if nibble = 13 then 2 else if nibble = 14 then 4 else 8

/-- `(len << 8) | byte`, from the first size byte on. -/
def readSize (bytes : List UInt8) : Nat := bytes.foldl (fun len byte => len * 256 + byte.toNat) 0

/-- `read_header`: the type nibble, the payload's length and the header's. -/
def readHeader (b : List UInt8) (pos : Nat) : Option (UInt8 × Nat × Nat) :=
  match b[pos]? with
  | none => none
  | some h =>
    let typ := h &&& 0x0F
    let hn := (h >>> 4).toNat
    if hn ≤ 11 then some (typ, hn, 1)
    else
      let n := sizeBytes hn
      if pos + 1 + n > b.length then none
      else some (typ, readSize ((b.drop (pos + 1)).take n), 1 + n)

/-- The bytes of a slice. -/
def slice (b : List UInt8) (start stop : Nat) : List UInt8 := (b.drop start).take (stop - start)

mutual

def encodeElem : Jb → List UInt8
  | .null => [Typ.code .null]
  | .truth value => [Typ.code (.truth value)]
  | .number kind s => pushHeader kind.code s.length ++ s
  | .string kind s => pushHeader kind.code s.length ++ s
  | .array items =>
    let payload := encodeItems items
    pushHeader (Typ.code .array) payload.length ++ payload
  | .object pairs =>
    let payload := encodePairs pairs
    pushHeader (Typ.code .object) payload.length ++ payload

def encodeItems : List Jb → List UInt8
  | [] => []
  | item :: rest => encodeElem item ++ encodeItems rest

def encodePairs : List (Jb × Jb) → List UInt8
  | [] => []
  | (key, value) :: rest => encodeElem key ++ encodeElem value ++ encodePairs rest

end

def jbToBytes (t : Jb) : List UInt8 := encodeElem t

def Jb.isString : Jb → Bool
  | .string _ _ => true
  | _ => false

/-- The header of the element at a position, with the ends of its payload. An end that
overflows lies behind every blob. -/
def elemBounds (b : List UInt8) (pos : Nat) : Option (UInt8 × Nat × Nat) :=
  match readHeader b pos with
  | none => none
  | some (typ, len, hdr) =>
    if pos + hdr + len > b.length then none else some (typ, pos + hdr, pos + hdr + len)

mutual

/-- `decode_elem`: the element at a position, and the position behind it. -/
def decodeElem (b : List UInt8) : (fuel pos : Nat) → Option (Jb × Nat)
  | 0, _ => none
  | fuel + 1, pos => do
    let (code, start, stop) ← elemBounds b pos
    match Typ.ofCode code with
    | some .null => if stop ≠ start then none else some (.null, stop)
    | some (.truth value) => if stop ≠ start then none else some (.truth value, stop)
    | some (.number kind) =>
      if validUtf8 (slice b start stop) then some (.number kind (slice b start stop), stop)
      else none
    | some (.string kind) => some (.string kind (slice b start stop), stop)
    | some .array => do
      let (items, p) ← decodeItems b stop fuel start
      if p ≠ stop then none else some (.array items, stop)
    | some .object => do
      let (pairs, p) ← decodePairs b stop fuel start
      if p ≠ stop then none else some (.object pairs, stop)
    | none => none

def decodeItems (b : List UInt8) (stop : Nat) : (fuel p : Nat) → Option (List Jb × Nat)
  | 0, _ => none
  | fuel + 1, p =>
    if p < stop then do
      let (item, p) ← decodeElem b fuel p
      let (items, p) ← decodeItems b stop fuel p
      some (item :: items, p)
    else some ([], p)

def decodePairs (b : List UInt8) (stop : Nat) : (fuel p : Nat) → Option (List (Jb × Jb) × Nat)
  | 0, _ => none
  | fuel + 1, p =>
    if p < stop then do
      let (key, p) ← decodeElem b fuel p
      if !key.isString then none
      else if p ≥ stop then none
      else do
        let (value, p) ← decodeElem b fuel p
        let (pairs, p) ← decodePairs b stop fuel p
        some ((key, value) :: pairs, p)
    else some ([], p)

end

/-- What is enough for every walk through a blob. -/
def walkFuel (b : List UInt8) : Nat := 2 * b.length

def jbFromBytes (b : List UInt8) : Option Jb :=
  if b.isEmpty then none
  else do
    let (t, pos) ← decodeElem b (walkFuel b) 0
    if pos ≠ b.length then none else some t

def minHdr (len : Nat) : Nat :=
  if len ≤ 11 then 1 else if len ≤ 0xFF then 2 else if len ≤ 0xFFFF then 3
  else if len ≤ 0xFFFFFFFF then 5 else 9

mutual

/-- The walk of `jsonb_check`: the end of the element, whether it is a string, and
whether all headers so far are the shortest. -/
def checkElem (b : List UInt8) : (fuel pos : Nat) → (canon : Bool) → (depth : Nat) →
    Option (Nat × Bool × Bool)
  | 0, _, _, _ => none
  | fuel + 1, pos, canon, depth =>
    if depth > 2000 then none
    else do
      let (typ, len, hdr) ← readHeader b pos
      let canon := canon && hdr == minHdr len
      let ps := pos + hdr
      let pe := ps + len
      if pe > b.length then none
      else
        match Typ.ofCode typ with
        | some .null | some (.truth _) => if len = 0 then some (pe, false, canon) else none
        | some (.number _) => if validUtf8 (slice b ps pe) then some (pe, false, canon) else none
        | some (.string _) => some (pe, true, canon)
        | some .array => do
          let (p, canon) ← checkItems b pe fuel ps canon (depth + 1)
          if p = pe then some (pe, false, canon) else none
        | some .object => do
          let (p, canon) ← checkPairs b pe fuel ps canon (depth + 1)
          if p = pe then some (pe, false, canon) else none
        | none => none

def checkItems (b : List UInt8) (pe : Nat) : (fuel p : Nat) → (canon : Bool) → (depth : Nat) →
    Option (Nat × Bool)
  | 0, _, _, _ => none
  | fuel + 1, p, canon, depth =>
    if p < pe then do
      let (p, _, canon) ← checkElem b fuel p canon depth
      checkItems b pe fuel p canon depth
    else some (p, canon)

def checkPairs (b : List UInt8) (pe : Nat) : (fuel p : Nat) → (canon : Bool) → (depth : Nat) →
    Option (Nat × Bool)
  | 0, _, _, _ => none
  | fuel + 1, p, canon, depth =>
    if p < pe then do
      let (kp, isStr, canon) ← checkElem b fuel p canon depth
      if !isStr || kp ≥ pe then none
      else do
        let (p, _, canon) ← checkElem b fuel kp canon depth
        checkPairs b pe fuel p canon depth
    else some (p, canon)

end

def jsonbCheck (b : List UInt8) : Option Bool :=
  if b.isEmpty then none
  else do
    let (stop, _, canon) ← checkElem b (walkFuel b) 0 true 0
    if stop = b.length then some canon else none

mutual

/-- The walk of `render_jsonb`: what the element renders to, and its end. -/
def renderElem (b : List UInt8) : (fuel pos : Nat) → (out : List UInt8) → (depth : Nat) →
    Option (List UInt8 × Nat)
  | 0, _, _, _ => none
  | fuel + 1, pos, out, depth =>
    if depth > 2000 then none
    else do
      let (typ, len, hdr) ← readHeader b pos
      let ps := pos + hdr
      let pe := ps + len
      if pe > b.length then none
      else
        let raw := slice b ps pe
        match Typ.ofCode typ with
        | some .null => if len ≠ 0 then none else some (out ++ ascii "null", pe)
        | some (.truth true) => if len ≠ 0 then none else some (out ++ ascii "true", pe)
        | some (.truth false) => if len ≠ 0 then none else some (out ++ ascii "false", pe)
        | some (.number kind) =>
          if validUtf8 raw then some (out ++ renderNumber kind raw, pe) else none
        | some (.string kind) => some (out ++ renderString kind raw, pe)
        | some .array => do
          let (out, p) ← renderElems b pe fuel ps (out ++ [0x5B]) true (depth + 1)
          if p ≠ pe then none else some (out ++ [0x5D], pe)
        | some .object => do
          let (out, p) ← renderMembers b pe fuel ps (out ++ [0x7B]) true (depth + 1)
          if p ≠ pe then none else some (out ++ [0x7D], pe)
        | none => none

def renderElems (b : List UInt8) (pe : Nat) : (fuel p : Nat) → (out : List UInt8) →
    (first : Bool) → (depth : Nat) → Option (List UInt8 × Nat)
  | 0, _, _, _, _ => none
  | fuel + 1, p, out, first, depth =>
    if p < pe then do
      let (out, p) ← renderElem b fuel p (if first then out else out ++ [0x2C]) depth
      renderElems b pe fuel p out false depth
    else some (out, p)

def renderMembers (b : List UInt8) (pe : Nat) : (fuel p : Nat) → (out : List UInt8) →
    (first : Bool) → (depth : Nat) → Option (List UInt8 × Nat)
  | 0, _, _, _, _ => none
  | fuel + 1, p, out, first, depth =>
    if p < pe then do
      let out := if first then out else out ++ [0x2C]
      let (kt, _, _) ← readHeader b p
      match Typ.ofCode kt with
      | some (.string _) => do
        let (out, p) ← renderElem b fuel p out depth
        if p ≥ pe then none
        else do
          let (out, p) ← renderElem b fuel p (out ++ [0x3A]) depth
          renderMembers b pe fuel p out false depth
      | _ => none
    else some (out, p)

end

def renderJsonb (b : List UInt8) : Option (List UInt8) :=
  if b.isEmpty then none
  else do
    let (out, stop) ← renderElem b (walkFuel b) 0 [] 0
    if stop = b.length then some out else none

/-- An element with the offset it starts at. -/
inductive Sp where
  | scalar (off : Nat) (jb : Jb)
  | array (off : Nat) (items : List Sp)
  | object (off : Nat) (pairs : List (Sp × Sp))

def Sp.isString : Sp → Bool
  | .scalar _ jb => jb.isString
  | _ => false

mutual

def Sp.toJb : Sp → Jb
  | .scalar _ jb => jb
  | .array _ items => .array (toJbs items)
  | .object _ pairs => .object (toJbPairs pairs)

def toJbs : List Sp → List Jb
  | [] => []
  | item :: rest => item.toJb :: toJbs rest

def toJbPairs : List (Sp × Sp) → List (Jb × Jb)
  | [] => []
  | (key, value) :: rest => (key.toJb, value.toJb) :: toJbPairs rest

end

mutual

/-- `decode_sp_elem`. -/
def decodeSpElem (b : List UInt8) : (fuel pos : Nat) → Option (Sp × Nat)
  | 0, _ => none
  | fuel + 1, pos => do
    let (code, start, stop) ← elemBounds b pos
    match Typ.ofCode code with
    | some .null => if stop ≠ start then none else some (.scalar pos .null, stop)
    | some (.truth value) => if stop ≠ start then none else some (.scalar pos (.truth value), stop)
    | some (.number kind) =>
      if validUtf8 (slice b start stop) then
        some (.scalar pos (.number kind (slice b start stop)), stop)
      else none
    | some (.string kind) => some (.scalar pos (.string kind (slice b start stop)), stop)
    | some .array => do
      let (items, p) ← decodeSpItems b stop fuel start
      if p ≠ stop then none else some (.array pos items, stop)
    | some .object => do
      let (pairs, p) ← decodeSpPairs b stop fuel start
      if p ≠ stop then none else some (.object pos pairs, stop)
    | none => none

def decodeSpItems (b : List UInt8) (stop : Nat) : (fuel p : Nat) → Option (List Sp × Nat)
  | 0, _ => none
  | fuel + 1, p =>
    if p < stop then do
      let (item, p) ← decodeSpElem b fuel p
      let (items, p) ← decodeSpItems b stop fuel p
      some (item :: items, p)
    else some ([], p)

def decodeSpPairs (b : List UInt8) (stop : Nat) : (fuel p : Nat) →
    Option (List (Sp × Sp) × Nat)
  | 0, _ => none
  | fuel + 1, p =>
    if p < stop then do
      let (key, p) ← decodeSpElem b fuel p
      if !key.isString then none
      else if p ≥ stop then none
      else do
        let (value, p) ← decodeSpElem b fuel p
        let (pairs, p) ← decodeSpPairs b stop fuel p
        some ((key, value) :: pairs, p)
    else some ([], p)

end

def spFromBytes (b : List UInt8) : Option Sp :=
  if b.isEmpty then none
  else do
    let (sp, pos) ← decodeSpElem b (walkFuel b) 0
    if pos ≠ b.length then none else some sp

end RustSql.Jsonb
