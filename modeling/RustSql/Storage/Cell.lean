import RustSql.Foundation.Checked
import RustSql.Storage.Varint
import RustSql.Storage.WalBytes

/-! Cells of B+tree pages and their bytes. Long payloads and keys keep a local part in the
cell; how long it is follows from the whole length. -/

namespace RustSql.Storage

open RustSql.Foundation

inductive PageType where
  | interiorTable
  | leafTable
  | interiorIndex
  | leafIndex
  | overflow
deriving DecidableEq, Repr

namespace PageType

def code : PageType → UInt8
  | interiorTable => 0x05
  | leafTable => 0x0D
  | interiorIndex => 0x02
  | leafIndex => 0x0A
  | overflow => 0x04

def fromByte (b : UInt8) : Except Error PageType :=
  match b with
  | 0x05 => .ok interiorTable
  | 0x0D => .ok leafTable
  | 0x04 => .ok overflow
  | 0x02 => .ok interiorIndex
  | 0x0A => .ok leafIndex
  | b => .error (.corruption s!"invalid page type byte: {b}")

end PageType

def clamp (x low high : Nat) : Nat := max low (min x high)

/-- The local part of a table payload. -/
def overflowLocalLenFor (total pageSize : Nat) : Nat :=
  let maxLocal := pageSize - 128
  if total ≤ maxLocal then total
  else
    let chainCap := pageSize - 16
    let minLocal := clamp (pageSize / 4) 16 (maxLocal - 8)
    let surplus := minLocal + (total - minLocal) % max chainCap 1
    if surplus ≤ maxLocal then surplus else minLocal

/-- `INDEX_V6_MARK`. -/
def indexV6Mark : Nat := 2 ^ 62

def indexMaxLocal (pageSize : Nat) : Nat := (pageSize - 12) * 64 / 255 - 23

def indexMinLocal (pageSize : Nat) : Nat := (pageSize - 12) * 32 / 255 - 23

/-- The local part of an index key. -/
def indexLocalLenV6 (total pageSize : Nat) : Nat :=
  let maxLocal := indexMaxLocal pageSize
  if total ≤ maxLocal then total
  else
    let minLocal := indexMinLocal pageSize
    let chainCap := max (pageSize - 16) 1
    let surplus := minLocal + (total - minLocal) % chainCap
    if surplus ≤ maxLocal then surplus else minLocal

def indexTotalRaw (total : UInt64) (v6 : Bool) : UInt64 :=
  if v6 then total ||| UInt64.ofNat indexV6Mark else total

/-- The whole length of a key, its local length, and whether the length is marked. -/
def indexCellSplit (raw : UInt64) (pageSize : Nat) : Nat × Nat × Bool :=
  if raw &&& UInt64.ofNat indexV6Mark ≠ 0 then
    let total := (raw &&& ~~~ UInt64.ofNat indexV6Mark).toNat
    (total, indexLocalLenV6 total pageSize, true)
  else (raw.toNat, overflowLocalLenFor raw.toNat pageSize, false)

/-- `share` is the local part of what a chain of overflow pages continues. -/
inductive Cell where
  | tableLeaf (rowid : Int64) (payload : List UInt8)
  | tableLeafOverflow (rowid : Int64) (total : UInt64) (share : List UInt8) (overflow : UInt32)
  | tableInterior (leftChild : UInt32) (key : Int64)
  | indexLeaf (key : List UInt8) (rowid : Int64)
  | indexLeafOverflow (rowid : Int64) (total : UInt64) (share : List UInt8) (overflow : UInt32)
    (v6 : Bool)
  | indexInterior (leftChild : UInt32) (key : List UInt8) (rowid : Int64)
  | indexInteriorOverflow (leftChild : UInt32) (rowid : Int64) (total : UInt64)
    (share : List UInt8) (overflow : UInt32) (v6 : Bool)
deriving DecidableEq, Repr

/-- A page number in a cell. -/
def pageBytes (id : UInt32) : List UInt8 := toBeBytes id.toNat

def pageAt (bytes : List UInt8) : UInt32 := UInt32.ofNat (fromBeBytes (bytes.take 4))

def lenVarint (bytes : List UInt8) : List UInt8 := Varint.encode (UInt64.ofNat bytes.length)

namespace Cell

open Varint

def key : Cell → Int64
  | tableLeaf rowid _ => rowid
  | tableLeafOverflow rowid _ _ _ => rowid
  | tableInterior _ key => key
  | indexLeaf _ rowid => rowid
  | indexLeafOverflow rowid _ _ _ _ => rowid
  | indexInterior _ _ rowid => rowid
  | indexInteriorOverflow _ rowid _ _ _ _ => rowid

def leftChild : Cell → UInt32
  | tableInterior leftChild _ => leftChild
  | indexInterior leftChild _ _ => leftChild
  | indexInteriorOverflow leftChild _ _ _ _ _ => leftChild
  | _ => 0

/-- The local part of an overflow key. -/
def indexKey : Cell → List UInt8
  | indexLeaf key _ | indexInterior _ key _ => key
  | indexLeafOverflow _ _ share _ _ | indexInteriorOverflow _ _ _ share _ _ => share
  | _ => []

def indexOverflow : Cell → UInt32
  | indexLeafOverflow _ _ _ overflow _ | indexInteriorOverflow _ _ _ _ overflow _ => overflow
  | _ => 0

def encodedSize : Cell → Nat
  | tableLeaf rowid payload =>
    (encodeSigned rowid).length + (lenVarint payload).length + payload.length
  | tableLeafOverflow rowid total share _ =>
    (encodeSigned rowid).length + (encode total).length + share.length + 4
  | tableInterior _ key => 4 + (encodeSigned key).length
  | indexLeaf key rowid => (encodeSigned rowid).length + (lenVarint key).length + key.length
  | indexLeafOverflow rowid total share _ v6 =>
    (encodeSigned rowid).length + (encode (indexTotalRaw total v6)).length + share.length + 4
  | indexInterior _ key rowid =>
    4 + (encodeSigned rowid).length + (lenVarint key).length + key.length
  | indexInteriorOverflow _ rowid total share _ v6 =>
    4 + (encodeSigned rowid).length + (encode (indexTotalRaw total v6)).length + share.length + 4

/-- `encode`, at the end of `out`. -/
def encode (cell : Cell) (out : List UInt8) : List UInt8 :=
  match cell with
  | tableLeaf rowid payload => out ++ encodeSigned rowid ++ lenVarint payload ++ payload
  | tableLeafOverflow rowid total share overflow =>
    out ++ encodeSigned rowid ++ Varint.encode total ++ share ++ pageBytes overflow
  | tableInterior leftChild key => out ++ pageBytes leftChild ++ encodeSigned key
  | indexLeaf key rowid => out ++ encodeSigned rowid ++ lenVarint key ++ key
  | indexLeafOverflow rowid total share overflow v6 =>
    out ++ encodeSigned rowid ++ Varint.encode (indexTotalRaw total v6) ++ share ++
      pageBytes overflow
  | indexInterior leftChild key rowid =>
    out ++ pageBytes leftChild ++ encodeSigned rowid ++ lenVarint key ++ key
  | indexInteriorOverflow leftChild rowid total share overflow v6 =>
    out ++ pageBytes leftChild ++ encodeSigned rowid ++ Varint.encode (indexTotalRaw total v6) ++
      share ++ pageBytes overflow

/-- A buffer and the bytes of it that are written. -/
abbrev Cursor := List UInt8 × Nat

/-- `put!`: a slice copied into the buffer behind what is written. -/
def put (bytes : List UInt8) (cursor : Cursor) : Checked Error Cursor := do
  let (out, w) := cursor
  if w + bytes.length ≤ out.length then
    .ok (out.take w ++ bytes ++ out.drop (w + bytes.length), w + bytes.length)
  else .error .slice

/-- `encode_into`. -/
def encodeInto (cell : Cell) (out : List UInt8) : Checked Error Cursor :=
  match cell with
  | tableLeaf rowid payload => do
    let out ← put (encodeSigned rowid) (out, 0)
    let out ← put (lenVarint payload) out
    put payload out
  | tableLeafOverflow rowid total share overflow => do
    let out ← put (encodeSigned rowid) (out, 0)
    let out ← put (Varint.encode total) out
    let out ← put share out
    put (pageBytes overflow) out
  | tableInterior leftChild key => do
    let out ← put (pageBytes leftChild) (out, 0)
    put (encodeSigned key) out
  | indexLeaf key rowid => do
    let out ← put (encodeSigned rowid) (out, 0)
    let out ← put (lenVarint key) out
    put key out
  | indexLeafOverflow rowid total share overflow v6 => do
    let out ← put (encodeSigned rowid) (out, 0)
    let out ← put (Varint.encode (indexTotalRaw total v6)) out
    let out ← put share out
    put (pageBytes overflow) out
  | indexInterior leftChild key rowid => do
    let out ← put (pageBytes leftChild) (out, 0)
    let out ← put (encodeSigned rowid) out
    let out ← put (lenVarint key) out
    put key out
  | indexInteriorOverflow leftChild rowid total share overflow v6 => do
    let out ← put (pageBytes leftChild) (out, 0)
    let out ← put (encodeSigned rowid) out
    let out ← put (Varint.encode (indexTotalRaw total v6)) out
    let out ← put share out
    put (pageBytes overflow) out

/-- `ok_or_else`. -/
def orCorrupt (message : String) : Option α → Except Error α
  | some a => .ok a
  | none => .error (.corruption message)

def decodeLeafTable (buf : List UInt8) (pageSize : Nat) : Except Error Cell := do
  let (rowid, n) ← orCorrupt "truncated leaf rowid" (decodeSigned buf)
  let rest := buf.drop n
  let (plen, m) ← orCorrupt "truncated leaf payload length" (decode rest)
  let rest := rest.drop m
  let localLen := overflowLocalLenFor plen.toNat pageSize
  if localLen = plen.toNat then
    if rest.length < plen.toNat then .error (.corruption "truncated leaf payload")
    else .ok (tableLeaf rowid (rest.take plen.toNat))
  else if rest.length < localLen + 4 then .error (.corruption "truncated overflow leaf cell")
  else
    .ok (tableLeafOverflow rowid plen (rest.take localLen) (pageAt (rest.drop localLen)))

def decodeInteriorTable (buf : List UInt8) : Except Error Cell := do
  if buf.length < 4 then .error (.corruption "truncated interior child")
  else do
    let (key, _) ← orCorrupt "truncated interior key" (decodeSigned (buf.drop 4))
    .ok (tableInterior (pageAt buf) key)

def decodeLeafIndex (buf : List UInt8) (pageSize : Nat) : Except Error Cell := do
  let (rowid, n) ← orCorrupt "truncated index leaf rowid" (decodeSigned buf)
  let rest := buf.drop n
  let (rawLen, m) ← orCorrupt "truncated index leaf key length" (decode rest)
  let rest := rest.drop m
  let (keyLen, localLen, v6) := indexCellSplit rawLen pageSize
  if localLen = keyLen then
    if rest.length < keyLen then .error (.corruption "truncated index leaf key")
    else .ok (indexLeaf (rest.take keyLen) rowid)
  else if rest.length < localLen + 4 then
    .error (.corruption "truncated index leaf overflow cell")
  else
    .ok (indexLeafOverflow rowid (UInt64.ofNat keyLen) (rest.take localLen)
      (pageAt (rest.drop localLen)) v6)

def decodeInteriorIndex (buf : List UInt8) (pageSize : Nat) : Except Error Cell := do
  if buf.length < 4 then .error (.corruption "truncated index interior child")
  else do
    let leftChild := pageAt buf
    let (rowid, n) ← orCorrupt "truncated index interior rowid" (decodeSigned (buf.drop 4))
    let rest := buf.drop (4 + n)
    let (rawLen, m) ← orCorrupt "truncated index interior key length" (decode rest)
    let rest := rest.drop m
    let (keyLen, localLen, v6) := indexCellSplit rawLen pageSize
    if localLen = keyLen then
      if rest.length < keyLen then .error (.corruption "truncated index interior key")
      else .ok (indexInterior leftChild (rest.take keyLen) rowid)
    else if rest.length < localLen + 4 then
      .error (.corruption "truncated index interior overflow cell")
    else
      .ok (indexInteriorOverflow leftChild rowid (UInt64.ofNat keyLen) (rest.take localLen)
        (pageAt (rest.drop localLen)) v6)

/-- `Cell::decode`. -/
def decode (buf : List UInt8) (pageType : PageType) (pageSize : Nat) : Except Error Cell :=
  match pageType with
  | .leafTable => decodeLeafTable buf pageSize
  | .interiorTable => decodeInteriorTable buf
  | .leafIndex => decodeLeafIndex buf pageSize
  | .interiorIndex => decodeInteriorIndex buf pageSize
  | .overflow => .error (.corruption "overflow page reached as a btree cell page")

end Cell

open Varint

def indexLeafCellSize (buf : List UInt8) (pageSize : Nat) : Option Nat := do
  let (_, n1) ← decodeSigned buf
  let (raw, n2) ← decode (buf.drop n1)
  let (klen, localLen, _) := indexCellSplit raw pageSize
  if localLen = klen then some (n1 + n2 + klen) else some (n1 + n2 + localLen + 4)

def tableLeafCellSizePaged (buf : List UInt8) (pageSize : Nat) : Option Nat := do
  let (_, n1) ← decodeSigned buf
  let (plen, n2) ← decode (buf.drop n1)
  let localLen := overflowLocalLenFor plen.toNat pageSize
  if localLen = plen.toNat then some (n1 + n2 + plen.toNat)
  else some (n1 + n2 + localLen + 4)

/-- The key of a view is the local part when there is an overflow chain. -/
structure IndexCellView where
  key : List UInt8
  rowid : Int64
  leftChild : UInt32
  total : UInt64
  overflow : UInt32
deriving DecidableEq, Repr

/-- The child of an interior cell and the bytes it takes. -/
def cellChild (buf : List UInt8) (interior : Bool) : Option (UInt32 × Nat) :=
  if interior then if buf.length < 4 then none else some (pageAt buf, 4)
  else some (0, 0)

def decodeIndexCell (buf : List UInt8) (interior : Bool) (pageSize : Nat) :
    Option IndexCellView := do
  let (leftChild, afterChild) ← cellChild buf interior
  let (rowid, n) ← decodeSigned (buf.drop afterChild)
  let rest := buf.drop (afterChild + n)
  let (rawLen, m) ← decode rest
  let rest := rest.drop m
  let (keyLen, localLen, _) := indexCellSplit rawLen pageSize
  if localLen = keyLen then
    if rest.length < keyLen then none
    else some ⟨rest.take keyLen, rowid, leftChild, UInt64.ofNat keyLen, 0⟩
  else if rest.length < localLen + 4 then none
  else
    some ⟨rest.take localLen, rowid, leftChild, UInt64.ofNat keyLen,
      pageAt (rest.drop localLen)⟩

end RustSql.Storage
