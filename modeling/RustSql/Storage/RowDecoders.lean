import RustSql.Storage.CheckedDecode

/-! The decoders of a stored row: whole rows, chosen columns, layouts and probes. -/

namespace RustSql.Storage.RowCodec

open RustSql.Foundation RustSql.Types

/-- `ROWID_PROJ`. -/
def rowidProj : Nat := 2 ^ 64 - 1

def rowDecode (message : String) : String := "row decode: " ++ message

def aliasUnmarked : String := "rowid-alias column must hold the rowid marker"

/-- The value at a position of the payload and the position behind it. -/
def decodeAt (trusted : Bool) (buf : List UInt8) (pos : Nat) : Checked String (Value × Nat) := do
  let bytes ← Checked.sliceFrom buf pos
  let (v, n) ← Checked.mapError rowDecode (decodeWithTrust trusted bytes)
  let next ← Checked.add pos n
  return (v, next)

/-- The position behind a value that is skipped. -/
def skipAt (buf : List UInt8) (pos : Nat) : Checked String Nat := do
  let bytes ← Checked.sliceFrom buf pos
  let n ← valueEncodedLen bytes
  Checked.add pos n

/-- The rowid marker at a position. -/
def markerAt (buf : List UInt8) (pos : Nat) : Checked String Unit := do
  let b ← Checked.get buf pos
  if b = rowidMarker then return () else Checked.fail aliasUnmarked

def decodeValues (trusted : Bool) (buf : List UInt8) : Nat → Nat → Checked String (List Value)
  | 0, _ => .ok []
  | left + 1, pos =>
    if pos < buf.length then do
      let (v, next) ← decodeAt trusted buf pos
      let row ← decodeValues trusted buf left next
      return v :: row
    else .ok []

/-- `materialize_alias`. -/
def materializeAlias (out : List Value) (rowidAlias : Option Nat) (rowid : Int64) : List Value :=
  match rowidAlias with
  | some a => out.set a (.integer rowid)
  | none => out

/-- `decode_row`, where the thread trusts its texts or does not. -/
def decodeRow (trusted : Bool) (buf : List UInt8) (nCols : Nat) (rowid : Int64)
    (rowidAlias : Option Nat) : Checked String (List Value) := do
  let row ← decodeValues trusted buf nCols 0
  return materializeAlias (row ++ List.replicate (nCols - row.length) .null) rowidAlias rowid

/-- A wanted column and the slot its value goes to. -/
abbrev Wanted (n : Nat) := Nat × Fin n

/-- The same value for several slots. -/
def assign {n : Nat} (out : Fin n → Value) (run : List (Wanted n)) (v : Value) : Fin n → Value :=
  run.foldl (fun out want => Function.update out want.2 v) out

/-- The slots of the rowid pseudo-column. -/
def prefillRowid {n : Nat} (rowid : Int64) (indices : List (Wanted n)) (out : Fin n → Value) :
    Fin n → Value :=
  assign out (indices.filter fun want => want.1 == rowidProj) (.integer rowid)

/-- The slots a short row leaves. -/
def fillShort {n : Nat} (pending : List (Wanted n)) (out : Fin n → Value) : Fin n → Value :=
  assign out (pending.filter fun want => want.1 != rowidProj) .null

section Walk

variable (trusted : Bool) (buf : List UInt8) (rowid : Int64) (rowidAlias : Option Nat) {n : Nat}

/-- The columns from `col` on, with the wanted ones that are left. -/
def selectiveColumns : Nat → Nat → Nat → List (Wanted n) → (Fin n → Value) →
    Checked String (List (Wanted n) × (Fin n → Value))
  | 0, _, _, pending, out => .ok (pending, out)
  | left + 1, col, pos, pending, out =>
    if pos < buf.length then
      match pending.dropWhile fun want => decide (want.1 < col) with
      | [] => .ok ([], out)
      | want :: rest =>
        if col = want.1 then
          let run := (want :: rest).takeWhile fun want => want.1 == col
          let rest := (want :: rest).dropWhile fun want => want.1 == col
          if rowidAlias = some col then do
            markerAt buf pos
            selectiveColumns left (col + 1) (pos + 1) rest (assign out run (.integer rowid))
          else do
            let (v, next) ← decodeAt trusted buf pos
            selectiveColumns left (col + 1) next rest (assign out run v)
        else if rowidAlias = some col then
          selectiveColumns left (col + 1) (pos + 1) (want :: rest) out
        else do
          let next ← skipAt buf pos
          selectiveColumns left (col + 1) next (want :: rest) out
    else .ok (pending, out)

/-- `decode_selective_walk`. -/
def decodeSelectiveWalk (nColsTotal : Nat) (indices : List (Wanted n)) (out : Fin n → Value) :
    Checked String (Fin n → Value) := do
  let (pending, out) ←
    selectiveColumns trusted buf rowid rowidAlias nColsTotal 0 0 indices
      (prefillRowid rowid indices out)
  return fillShort pending out

end Walk

def ascending : List Nat → Bool
  | a :: b :: rest => decide (a ≤ b) && ascending (b :: rest)
  | _ => true

/-- One step of the insertion sort, from the largest sorted entry down. -/
def insertBack {n : Nat} (want : Wanted n) : List (Wanted n) → List (Wanted n)
  | [] => [want]
  | top :: rest => if want.1 < top.1 then top :: insertBack want rest else want :: top :: rest

/-- The paired insertion sort of up to sixteen columns. -/
def insertionSort {n : Nat} (wants : List (Wanted n)) : List (Wanted n) :=
  (wants.foldl (fun back want => insertBack want back) []).reverse

/-- `sort_unstable_by_key`: sorted by the column, equal columns in any order. -/
structure UnstableSort where
  sort : {n : Nat} → List (Wanted n) → List (Wanted n)
  perm : ∀ {n : Nat} (wants : List (Wanted n)), (sort wants).Perm wants
  sorted : ∀ {n : Nat} (wants : List (Wanted n)), (sort wants).Pairwise fun a b => a.1 ≤ b.1

/-- A stable merge sort is one. -/
def UnstableSort.merge : UnstableSort where
  sort wants := wants.mergeSort fun a b => decide (a.1 ≤ b.1)
  perm wants := List.mergeSort_perm wants _
  sorted wants := by
    have sorted := @List.pairwise_mergeSort _ (fun a b => decide (a.1 ≤ b.1))
      (fun a b c first second => by simp only [decide_eq_true_eq] at *; omega)
      (fun a b => by simp only [Bool.or_eq_true, decide_eq_true_eq]; omega) wants
    exact sorted.imp of_decide_eq_true

/-- The columns in the order of the walk, with their slots. -/
def walkOrder (unstable : UnstableSort) (colIndices : List Nat) :
    List (Wanted colIndices.length) :=
  let wants := (List.finRange colIndices.length).map fun slot => (colIndices.get slot, slot)
  if ascending colIndices then wants
  else if colIndices.length ≤ 16 then insertionSort wants
  else unstable.sort wants

/-- `decode_row_selective_opt`, over what the caller's buffer held. -/
def decodeRowSelective (unstable : UnstableSort) (trusted : Bool) (buf : List UInt8)
    (nColsTotal : Nat) (colIndices : List Nat) (rowid : Int64) (rowidAlias : Option Nat)
    (out : List Value) : Checked String (List Value) :=
  if colIndices.length = 0 then .ok []
  else do
    let slots ← decodeSelectiveWalk trusted buf rowid rowidAlias nColsTotal
      (walkOrder unstable colIndices) fun slot => out[slot.val]?.getD .null
    return List.ofFn slots

/-- The columns from `col` on for a strictly ascending list: one value for each wanted column. -/
def sortedColumns (trusted : Bool) (buf : List UInt8) (rowid : Int64)
    (rowidAlias : Option Nat) : Nat → Nat → Nat → List Nat → Checked String (List Value)
  | 0, _, _, wanted => .ok (wanted.map fun _ => .null)
  | _, _, _, [] => .ok []
  | left + 1, col, pos, target :: rest =>
    if pos < buf.length then
      if col < target then
        if rowidAlias = some col then
          sortedColumns trusted buf rowid rowidAlias left (col + 1) (pos + 1) (target :: rest)
        else do
          let next ← skipAt buf pos
          sortedColumns trusted buf rowid rowidAlias left (col + 1) next (target :: rest)
      else if rowidAlias = some col then do
        markerAt buf pos
        let values ← sortedColumns trusted buf rowid rowidAlias left (col + 1) (pos + 1) rest
        return .integer rowid :: values
      else do
        let (v, next) ← decodeAt trusted buf pos
        let values ← sortedColumns trusted buf rowid rowidAlias left (col + 1) next rest
        return v :: values
    else .ok ((target :: rest).map fun _ => .null)

/-- The last slot of a list that ends with the rowid pseudo-column. -/
def fillLast (colIndices : List Nat) (rowid : Int64) (values : List Value) : List Value :=
  if colIndices.getLast? = some rowidProj then values.set (values.length - 1) (.integer rowid)
  else values

/-- The debug assertions of `decode_row_selective_sorted`. The second one looks at all columns but
the last, which the empty list does not have. -/
def assertSorted (colIndices : List Nat) : Checked String Unit := do
  Checked.assert (decide (colIndices.IsChain (· < ·)))
  let last ← Checked.sub colIndices.length 1
  Checked.assert (!(colIndices.take last).contains rowidProj)

/-- `decode_row_selective_sorted`. -/
def decodeRowSelectiveSorted (trusted : Bool) (buf : List UInt8) (nColsTotal : Nat)
    (colIndices : List Nat) (rowid : Int64) (rowidAlias : Option Nat) : Checked String (List Value) := do
  assertSorted colIndices
  if colIndices = [rowidProj] then return [.integer rowid]
  else
    let values ← sortedColumns trusted buf rowid rowidAlias nColsTotal 0 0 colIndices
    return fillLast colIndices rowid values

/-- The columns from `col` on, each wanted one in its own place. -/
def wideColumns (trusted : Bool) (buf : List UInt8) (rowid : Int64) (rowidAlias : Option Nat) :
    Nat → Nat → Nat → List Nat → (Nat → Value) → Checked String (Nat → Value)
  | 0, _, _, _, out => .ok out
  | left + 1, col, pos, wanted, out =>
    if pos < buf.length then
      match wanted.dropWhile fun target => decide (target < col) with
      | [] => .ok out
      | target :: rest =>
        if col = target then
          if rowidAlias = some col then do
            markerAt buf pos
            wideColumns trusted buf rowid rowidAlias left (col + 1) (pos + 1) rest
              (Function.update out col (.integer rowid))
          else do
            let (v, next) ← decodeAt trusted buf pos
            wideColumns trusted buf rowid rowidAlias left (col + 1) next rest
              (Function.update out col v)
        else if rowidAlias = some col then
          wideColumns trusted buf rowid rowidAlias left (col + 1) (pos + 1) (target :: rest) out
        else do
          let next ← skipAt buf pos
          wideColumns trusted buf rowid rowidAlias left (col + 1) next (target :: rest) out
    else .ok out

/-- `decode_row_selective_wide`: all columns, `NULL` where none is wanted. -/
def decodeRowSelectiveWide (trusted : Bool) (buf : List UInt8) (nColsTotal : Nat)
    (wanted : List Nat) (rowid : Int64) (rowidAlias : Option Nat) : Checked String (List Value) := do
  let out ← wideColumns trusted buf rowid rowidAlias nColsTotal 0 0 wanted fun _ => .null
  return (List.range nColsTotal).map out

/-- The cast `as u32`. -/
def asU32 (n : Nat) : Nat := n % 2 ^ 32

/-- The regions of the columns from `col` on, and whether they are the whole payload. -/
def columnRegions (payload : List UInt8) (rowidAlias : Option Nat) :
    Nat → Nat → Nat → Checked Empty (Bool × List (Nat × Nat))
  | 0, _, pos => .ok (pos == payload.length, [])
  | left + 1, col, pos =>
    if pos < payload.length then
      if rowidAlias = some col then do
        let b ← Checked.get payload pos
        if b = rowidMarker then do
          let (whole, regions) ← columnRegions payload rowidAlias left (col + 1) (pos + 1)
          return (whole, (asU32 pos, 1) :: regions)
        else return (false, [])
      else do
        let bytes ← Checked.sliceFrom payload pos
        match ← Checked.attempt (valueEncodedLen bytes) with
        | none => return (false, [])
        | some n => do
          let next ← Checked.add pos n
          if payload.length < next then return (false, [])
          else do
            let (whole, regions) ← columnRegions payload rowidAlias left (col + 1) next
            return (whole, (asU32 pos, asU32 n) :: regions)
    else .ok (false, [])

/-- `row_column_regions_into`. -/
def rowColumnRegions (payload : List UInt8) (nCols : Nat) (rowidAlias : Option Nat) :
    Checked Empty (Bool × List (Nat × Nat)) := columnRegions payload rowidAlias nCols 0 0

inductive LazyError where
  | headerPastLocal
  | corrupt (message : String)
deriving DecidableEq, Repr

/-- `{tag:#x}`. -/
def hex (tag : UInt8) : String := "0x" ++ String.ofList (Nat.toDigits 16 tag.toNat)

/-- The lengths of the header behind the tag and of the body. -/
def spanHeader (tag : UInt8) (rest : List UInt8) : Checked LazyError (Nat × Nat) :=
  match tag.toNat with
  | 0x00 | 0x01 | 0x09 => .ok (0, 0)
  | 0x02 => .ok (0, 1)
  | 0x03 => .ok (0, 2)
  | 0x04 => .ok (0, 4)
  | 0x05 | 0x06 => .ok (0, 8)
  | 0x0A => do
    let (_, n) ← Checked.mapError (fun _ => .corrupt "truncated varint in lazy layout walk")
      (readUvarint rest)
    return (n, 0)
  | 0x07 | 0x08 | 0x0B => do
    let (len, n) ← Checked.mapError
      (fun _ => .corrupt "truncated length varint in lazy layout walk") (readUvarint rest)
    return (n, len)
  | _ => Checked.fail (.corrupt ("unknown value tag " ++ hex tag ++ " in lazy layout walk"))

/-- The spans of so many columns from a position on. -/
def columnSpans (bytes : List UInt8) (total : Nat) :
    Nat → Nat → Checked LazyError (List (Option (Nat × Nat)))
  | 0, _ => .ok []
  | left + 1, pos =>
    if total ≤ pos then do
      let spans ← columnSpans bytes total left pos
      return none :: spans
    else if bytes.length ≤ pos then Checked.fail .headerPastLocal
    else do
      let tag ← Checked.get bytes pos
      let rest ← Checked.sliceFrom bytes (pos + 1)
      let (hdr, body) ← spanHeader tag rest
      if bytes.length < pos + 1 + hdr then Checked.fail .headerPastLocal
      else do
        let len ← Checked.add (1 + hdr) body
        let next ← Checked.add pos len
        let spans ← columnSpans bytes total left next
        return some (asU32 pos, asU32 len) :: spans

/-- How many columns a walk up to `maxCol` visits. -/
def spanCount (nColsTotal maxCol : Nat) : Nat := min maxCol (nColsTotal - 1) + 1

/-- `column_spans_local`. -/
def columnSpansLocal (bytes : List UInt8) (total nColsTotal maxCol : Nat) :
    Checked LazyError (List (Option (Nat × Nat))) :=
  columnSpans bytes total (spanCount nColsTotal maxCol) 0

inductive ProbeNum where
  | int (i : Int64)
  | real (f : Binary64)
deriving DecidableEq, Repr

/-- `payload.get(start..stop)?`. -/
def getRange (payload : List UInt8) (start stop : Nat) : Checked Unit (List UInt8) :=
  if start ≤ stop ∧ stop ≤ payload.length then .ok ((payload.drop start).take (stop - start))
  else Checked.fail ()

/-- `payload.get(start..)?`. -/
def getFrom (payload : List UInt8) (start : Nat) : Checked Unit (List UInt8) :=
  if start ≤ payload.length then .ok (payload.drop start) else Checked.fail ()

/-- The start of a column, by slices that have to be inside. -/
def probeStart (payload : List UInt8) : Nat → Nat → Checked Unit Nat
  | 0, off => .ok off
  | left + 1, off => do
    let bytes ← Checked.sliceFrom payload off
    let span ← encodedSpan bytes
    let next ← Checked.add off span
    probeStart payload left next

/-- An integer of so many bytes, with its sign. -/
def readInt (payload : List UInt8) (body n : Nat) : Checked Unit ProbeNum := do
  let stop ← Checked.add body n
  let raw ← getRange payload body stop
  return .int (Int64.ofInt (signedValue raw))

/-- The number behind a tag; other values are none. -/
def probeNumber (payload : List UInt8) (body : Nat) (tag : UInt8) : Checked Unit ProbeNum :=
  match tag.toNat with
  | 0x01 => .ok (.int 0)
  | 0x02 => readInt payload body 1
  | 0x03 => readInt payload body 2
  | 0x04 => readInt payload body 4
  | 0x05 => readInt payload body 8
  | 0x06 => do
    let stop ← Checked.add body 8
    let raw ← getRange payload body stop
    return .real ⟨UInt64.ofNat (fromLittleEndian raw)⟩
  | 0x0A => do
    let bytes ← Checked.sliceFrom payload body
    let (z, _) ← Checked.mapError (fun _ => ()) (readUvarint bytes)
    return .int (Int64.ofInt (unzigzag z))
  | _ => Checked.fail ()

/-- `probe_int_column`. -/
def probeIntColumn (payload : List UInt8) (col : Nat) (rowid : Int64) (rowidAlias : Option Nat) :
    Checked Unit ProbeNum :=
  if rowidAlias = some col then .ok (.int rowid)
  else do
    let off ← probeStart payload col 0
    match payload[off]? with
    | none => Checked.fail ()
    | some tag => do
      let body ← Checked.add off 1
      probeNumber payload body tag

/-- The start of a column, by slices that may be missing. -/
def textStart (payload : List UInt8) : Nat → Nat → Checked Unit Nat
  | 0, off => .ok off
  | left + 1, off => do
    let bytes ← getFrom payload off
    let span ← encodedSpan bytes
    let next ← Checked.add off span
    textStart payload left next

/-- `probe_text_column`. -/
def probeTextColumn (payload : List UInt8) (col : Nat) (rowidAlias : Option Nat) :
    Checked Unit (List UInt8) :=
  if rowidAlias = some col then Checked.fail ()
  else do
    let off ← textStart payload col 0
    match payload[off]? with
    | none => Checked.fail ()
    | some tag =>
      if tag.toNat ≠ 0x07 ∧ tag.toNat ≠ 0x0B then Checked.fail ()
      else do
        let header ← Checked.add off 1
        let bytes ← getFrom payload header
        let (len, n) ← Checked.mapError (fun _ => ()) (readUvarint bytes)
        let start ← Checked.add header n
        -- `checked_add`
        if 2 ^ 64 ≤ start + len then Checked.fail () else getRange payload start (start + len)

end RustSql.Storage.RowCodec
