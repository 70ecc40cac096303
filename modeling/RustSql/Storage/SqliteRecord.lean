import RustSql.Foundation.Checked
import RustSql.Foundation.Lexicographic
import RustSql.Storage.Varint
import RustSql.Storage.WalBytes
import RustSql.Types.RowCodec
import RustSql.Types.Utf16

/-! Records of the SQLite file format: a header of serial types, then the bodies. -/

namespace RustSql.Storage.Sqlitefmt

open RustSql.Foundation RustSql.Types

/-- `read_varint`: the value and how many bytes it took. -/
def readVarint (buf : List UInt8) (off : Nat) : Option (Int64 × Nat) :=
  (Varint.decodeLoop 0 0 (buf.drop off)).map fun (v, n) => (v.toInt64, n)

theorem decodeLoop_used {i v : Nat} {buf : List UInt8} {value : UInt64} {n : Nat}
    (read : Varint.decodeLoop i v buf = some (value, n)) : 0 < n := by
  induction buf generalizing i v with
  | nil => cases read
  | cons b rest ih =>
    rw [Varint.decodeLoop] at read
    split_ifs at read
    · cases read
      decide
    · cases read
      exact Nat.succ_pos i
    · exact ih read

theorem readVarint_used {buf : List UInt8} {off : Nat} {v : Int64} {n : Nat}
    (read : readVarint buf off = some (v, n)) : 0 < n := by
  obtain ⟨⟨value, used⟩, found, same⟩ := Option.map_eq_some_iff.mp read
  cases same
  exact decodeLoop_used found

/-- `varint_len`: a byte for each group of seven bits. -/
def varintLen (v : Nat) : Nat := if v / 128 = 0 then 1 else varintLen (v / 128) + 1
termination_by v
decreasing_by omega

def writeVarint (v : Int64) : List UInt8 :=
  let uv := v.toUInt64.toNat
  if uv ≤ 0x7f then [UInt8.ofNat uv]
  else if v < 0 ∨ 2 ^ 56 ≤ uv then
    let rest := uv / 256
    ((List.range 8).map fun i => UInt8.ofNat (rest / 2 ^ ((7 - i) * 7) % 128 + 128)) ++
      [UInt8.ofNat (uv % 256)]
  else
    let n := varintLen uv
    (List.range n).map fun i =>
      let byte := uv / 2 ^ ((n - 1 - i) * 7) % 128
      UInt8.ofNat (if i < n - 1 then byte + 128 else byte)

/-- `real_is_storable_as_int`. -/
def realIsStorableAsInt (f : Binary64) : Bool := isCompact f

/-- The serial type of an integer and the bytes of its body. -/
def integerSerial (i : Int64) : UInt64 × Nat :=
  let v := i.toInt
  if v = 0 then (8, 0)
  else if v = 1 then (9, 0)
  else if -2 ^ 7 ≤ v ∧ v < 2 ^ 7 then (1, 1)
  else if -2 ^ 15 ≤ v ∧ v < 2 ^ 15 then (2, 2)
  else if -2 ^ 23 ≤ v ∧ v < 2 ^ 23 then (3, 3)
  else if -2 ^ 31 ≤ v ∧ v < 2 ^ 31 then (4, 4)
  else if -2 ^ 47 ≤ v ∧ v < 2 ^ 47 then (5, 6)
  else (6, 8)

/-- The bytes of a text in the encoding of the file. -/
def textBody (enc : TextEnc) (bytes : List UInt8) : List UInt8 :=
  match enc with
  | .utf8 => bytes
  | _ => encodeTextBytes (asStr bytes) enc

/-- The cast `f as i64` of an integral double. -/
def storedInt (f : Binary64) : Int64 := Int64.ofInt (asI64 f)

def serialTypeAndSize (v : Value) (enc : TextEnc) : UInt64 × Nat :=
  match v with
  | .null => (0, 0)
  | .integer i => integerSerial i
  | .real f =>
    if f.isNaN then (7, 8)
    else if realIsStorableAsInt f then integerSerial (storedInt f) else (7, 8)
  | .text bytes =>
    let n := match enc with
      | .utf8 => bytes.length
      | _ => (encodeUtf16 (scalars (asStr bytes))).length * 2
    (UInt64.ofNat (13 + 2 * n), n)
  | .blob bytes => (UInt64.ofNat (12 + 2 * bytes.length), bytes.length)

/-- `write_be_int`: the low bytes of an integer. -/
def writeBeInt (v : Int64) (n : Nat) : List UInt8 := (bigEndian 8 v.toUInt64.toNat).drop (8 - n)

def writeBody (v : Value) (enc : TextEnc) : List UInt8 :=
  match v with
  | .null => []
  | .integer i => writeBeInt i (integerSerial i).2
  | .real f =>
    if realIsStorableAsInt f then writeBeInt (storedInt f) (integerSerial (storedInt f)).2
    else bigEndian 8 f.bits.toNat
  | .text bytes => textBody enc bytes
  | .blob bytes => bytes

/-- The bytes that the header's own length takes, from `size` bytes on. -/
def sizePrefix (header : Nat) (size : Nat) : Nat → Nat
  | 0 => size
  | fuel + 1 =>
    let needed := varintLen (size + header)
    if needed ≤ size then size else sizePrefix header needed fuel

def headerTypes (values : List Value) (enc : TextEnc) : List UInt8 :=
  values.flatMap fun v => writeVarint (serialTypeAndSize v enc).1.toInt64

/-- `write_header_and_body`. -/
def encodeRecordEnc (values : List Value) (enc : TextEnc) : List UInt8 :=
  let header := headerTypes values enc
  let size := sizePrefix header.length 1 10
  writeVarint (Int64.ofNat (size + header.length)) ++ header ++
    values.flatMap fun v => writeBody v enc

/-- `be_int`: the bytes of an integer, sign-extended. -/
def beInt (n : Nat) (bytes : List UInt8) : Int64 :=
  let fill : UInt8 := if n < 8 ∧ bytes.headD 0 &&& 0x80 ≠ 0 then 0xff else 0
  (UInt64.ofNat (fromBeBytes (List.replicate (8 - n) fill ++ bytes))).toInt64

/-- A body of `n` bytes, and what is behind it. -/
def takeBody (payload : List UInt8) (body n : Nat) (truncated : String)
    (build : List UInt8 → Value) : Except String (Value × Nat) :=
  if payload.length < body + n then .error truncated
  else .ok (build ((payload.drop body).take n), body + n)

/-- `decode_value`: the value, and the offset behind it. -/
def decodeValue (payload : List UInt8) (body : Nat) (st : UInt64) (enc : TextEnc) :
    Except String (Value × Nat) :=
  let integer (n : Nat) :=
    takeBody payload body n "truncated integer body" fun bytes => .integer (beInt n bytes)
  match st.toNat with
  | 0 => .ok (.null, body)
  | 1 => integer 1
  | 2 => integer 2
  | 3 => integer 3
  | 4 => integer 4
  | 5 => integer 6
  | 6 => integer 8
  | 7 =>
    takeBody payload body 8 "truncated float body" fun bytes =>
      .real ⟨UInt64.ofNat (fromBeBytes bytes)⟩
  | 8 => .ok (.integer 0, body)
  | 9 => .ok (.integer 1, body)
  | st =>
    if 12 ≤ st ∧ st % 2 = 0 then
      takeBody payload body ((st - 12) / 2) "truncated blob body" .blob
    else if 13 ≤ st then
      takeBody payload body ((st - 13) / 2) "truncated text body" fun bytes =>
        .text (match enc with
          | .utf8 => bytes
          | _ => decodeTextBytes bytes enc)
    else .error s!"invalid serial type {st}"

/-- The serial types of a header that ends at `header`, and where they end. -/
def readSerials (payload : List UInt8) (header : Nat) (off : Nat) :
    Except String (List UInt64 × Nat) :=
  if off < header then
    match _read : readVarint payload off with
    | none => .error "truncated serial type"
    | some (st, used) => do
      let (serials, stop) ← readSerials payload header (off + used)
      return (st.toUInt64 :: serials, stop)
  else .ok ([], off)
termination_by header - off
decreasing_by
  have used := readVarint_used _read
  omega

/-- The header of a record: its serial types, and its length. -/
def readHeader (payload : List UInt8) : Except String (List UInt64 × Nat) :=
  match readVarint payload 0 with
  | none => .error "truncated record header"
  | some (size, off) => do
    let header := size.toUInt64.toNat
    if payload.length < header ∨ header = 0 then
      throw s!"bad record header size {header}"
    let (serials, stop) ← readSerials payload header off
    if stop ≠ header then throw "record header overrun"
    return (serials, header)

/-- One value of a record. -/
def nextValue (payload : List UInt8) (body : Nat) (st : UInt64) (enc : TextEnc) :
    Except String (Value × Nat) :=
  if st = 10 ∨ st = 11 then .error s!"reserved serial type {st}"
  else decodeValue payload body st enc

/-- The loop of `decode_record_all_enc`. -/
def decodeAll (payload : List UInt8) (enc : TextEnc) (body : Nat) :
    List UInt64 → Except String (List Value)
  | [] => .ok []
  | st :: serials => do
    let (value, body) ← nextValue payload body st enc
    let values ← decodeAll payload enc body serials
    return value :: values

def decodeRecordAllEnc (payload : List UInt8) (enc : TextEnc) : Except String (List Value) := do
  let (serials, header) ← readHeader payload
  decodeAll payload enc header serials

/-- The loop of `decode_record_enc` behind `values`. -/
def decodeColumns (payload : List UInt8) (nCols : Nat) (enc : TextEnc) (body : Nat)
    (values : List Value) : List UInt64 → Except String (List Value)
  | [] => .ok values
  | st :: serials => do
    let (value, body) ← nextValue payload body st enc
    let values := values ++ [value]
    if values.length = nCols then .ok values
    else decodeColumns payload nCols enc body values serials

/-- `Vec::with_capacity` panics past `isize::MAX` bytes; a value takes `valueSize`. -/
def decodeRecordEnc (valueSize : Nat) (payload : List UInt8) (nCols : Nat) (enc : TextEnc) :
    Checked String (List Value) :=
  match readHeader payload with
  | .error message => Checked.fail message
  | .ok (serials, header) =>
    if 2 ^ 63 ≤ nCols * valueSize then .error .overflow
    else
      match decodeColumns payload nCols enc header [] serials with
      | .error message => Checked.fail message
      | .ok values => .ok (values ++ List.replicate (nCols - values.length) .null)

end RustSql.Storage.Sqlitefmt
