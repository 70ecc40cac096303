import RustSql.Storage.CellCodec

/-! Overflow pages: a page header, the number of the next page of the chain, and bytes of a
payload from offset 16 on. The writes to the header and the cell pointers of a B+tree page leave the
rest of the page alone. -/

namespace RustSql.Storage

open RustSql.Foundation

namespace FileHeader

/-- A slice that fits replaces the bytes it covers. -/
theorem toList_writeSlice (buffer : Bytes size) {offset : Nat} {bytes : List UInt8}
    (fits : offset + bytes.length ≤ size) :
    (writeSlice buffer offset bytes).toList =
      buffer.toList.take offset ++ bytes ++ buffer.toList.drop (offset + bytes.length) := by
  induction bytes generalizing buffer offset with
  | nil => simp [writeSlice]
  | cons byte rest ih =>
    rw [List.length_cons] at fits
    have inside : offset < buffer.toList.length := by
      rw [Vector.length_toList]
      omega
    rw [writeSlice, ih _ (by omega), Vector.toList_setIfInBounds, List.drop_set_of_lt (by omega),
      List.take_add_one, List.take_set_of_le (Nat.le_refl _), List.getElem?_set_self inside,
      List.length_cons]
    simp [Nat.add_assoc, Nat.add_comm 1]

theorem toList_writeSlice_front {buffer : Bytes size} {front rest bytes : List UInt8} {offset : Nat}
    (shape : buffer.toList = front ++ rest) (place : offset = front.length)
    (fits : offset + bytes.length ≤ size) :
    (writeSlice buffer offset bytes).toList = front ++ bytes ++ rest.drop bytes.length := by
  rw [toList_writeSlice buffer fits, shape, place, List.take_left, List.drop_length_add_append]

end FileHeader

namespace OverflowPage

open FileHeader

/-- `overflow_next`. -/
def next (data : Bytes size) : Nat := wordAt data.toList 12

/-- `overflow_data`. -/
def body (data : Bytes size) : List UInt8 := data.toList.drop 16

def pageType (data : Bytes size) : Except Error PageType :=
  PageType.fromByte (data.toList.headD 0)

/-- `set_overflow_next`. -/
def setNext (id : Nat) (data : Bytes size) : Bytes size := writeSlice data 12 (toBeBytes id)

/-- `init_overflow`: the type, three reserved bytes, no cells, the content start 12, no right
child, and no next page. -/
def init (data : Bytes size) : Bytes size :=
  let data := writeSlice data 0 [PageType.overflow.code]
  let data := writeSlice data 1 [0, 0, 0]
  let data := writeSlice data 4 [0, 0]
  let data := writeSlice data 6 [0, 12]
  let data := writeSlice data 8 (toBeBytes 0)
  writeSlice data 12 (toBeBytes 0)

/-- A page of a chain, filled from `take` bytes of the payload; the rest of the last page is
cleared. -/
def fill (take : List UInt8) (last : Bool) (data : Bytes size) : Bytes size :=
  let data := writeSlice (init data) 16 take
  if last ∧ take.length < size - 16 then
    writeSlice data (16 + take.length) (List.replicate (size - 16 - take.length) 0)
  else data

/-- A page that a chain may use. -/
structure Holds (data : Bytes size) (after : Nat) (bytes : List UInt8) : Prop where
  kind : pageType data = .ok .overflow
  next : OverflowPage.next data = after
  body : bytes <+: OverflowPage.body data

theorem body_length (data : Bytes size) : (body data).length = size - 16 := by
  rw [body, List.length_drop, Vector.length_toList]

/-- The header that `init_overflow` leaves. -/
def header (after : Nat) : List UInt8 :=
  [PageType.overflow.code, 0, 0, 0, 0, 0, 0, 12, 0, 0, 0, 0] ++ toBeBytes after

theorem header_length (after : Nat) : (header after).length = 16 := rfl

section Writes

variable (large : 16 ≤ size)

include large

theorem toList_init (data : Bytes size) : (init data).toList = header 0 ++ body data := by
  have kind := @toList_writeSlice_front size data [] data.toList [PageType.overflow.code] 0 rfl rfl
    (by simp; omega)
  have reserved := @toList_writeSlice_front size _ _ _ [0, 0, 0] 1 kind rfl (by simp; omega)
  have cells := @toList_writeSlice_front size _ _ _ [0, 0] 4 reserved rfl (by simp; omega)
  have start := @toList_writeSlice_front size _ _ _ [0, 12] 6 cells rfl (by simp; omega)
  have right := @toList_writeSlice_front size _ _ _ (toBeBytes 0) 8 start rfl (by simp; omega)
  have link := @toList_writeSlice_front size _ _ _ (toBeBytes 0) 12 right rfl (by simp; omega)
  have zeros : toBeBytes 0 = [0, 0, 0, 0] := rfl
  rw [init, link]
  simp [List.drop_drop, header, body, zeros]

theorem toList_setNext {data : Bytes size} {after : Nat} {rest : List UInt8}
    (shape : data.toList = header after ++ rest) (id : Nat) :
    (setNext id data).toList = header id ++ rest := by
  have split : data.toList =
      [PageType.overflow.code, 0, 0, 0, 0, 0, 0, 12, 0, 0, 0, 0] ++ (toBeBytes after ++ rest) := by
    rw [shape, header, List.append_assoc]
  have place : 12 = [PageType.overflow.code, 0, 0, 0, 0, 0, 0, 12, 0, 0, 0, 0].length := rfl
  rw [setNext, toList_writeSlice_front split place (by simp; omega),
    List.drop_left' (by simp), header]

theorem fill_shape (data : Bytes size) {take : List UInt8} (fits : take.length ≤ size - 16)
    (last : Bool) :
    ∃ rest, (fill take last data).toList = header 0 ++ (take ++ rest) := by
  have filled := @toList_writeSlice_front size _ _ _ take 16 (toList_init large data) rfl
    (by omega)
  rw [List.append_assoc] at filled
  rw [fill]
  split
  · have cleared := @toList_writeSlice_front size _ (header 0 ++ take) _
      (List.replicate (size - 16 - take.length) 0) (16 + take.length)
      (by rw [List.append_assoc]; exact filled) (by simp [header_length]) (by simp; omega)
    exact ⟨_, by rw [cleared, List.append_assoc, List.append_assoc]⟩
  · exact ⟨_, filled⟩

omit large in
theorem holds_of_shape {data : Bytes size} {after : Nat} {take rest : List UInt8}
    (small : after < 2 ^ 32) (shape : data.toList = header after ++ (take ++ rest)) :
    Holds data after take := by
  refine ⟨?_, ?_, ?_⟩
  · rw [pageType, shape]
    rfl
  · rw [OverflowPage.next, shape, header, wordAt, List.append_assoc]
    exact fromBeBytes_toBeBytes small
  · have behind : body data = take ++ rest := by
      rw [body, shape]
      rfl
    rw [behind]
    exact List.prefix_append take rest

end Writes

end OverflowPage

end RustSql.Storage

namespace RustSql.Storage

open RustSql.Foundation

def pageHeaderSize : Nat := 12

/-- Page 0 has the file header in front. -/
def headerOffset (id : Nat) : Nat := if id = 0 then dbHeaderSize else 0

/-- `u16::to_be_bytes`. -/
def toBeBytes16 (value : Nat) : List UInt8 := [UInt8.ofNat (value / 256), UInt8.ofNat value]

namespace LeafPage

open FileHeader

def slice (data : Bytes size) (offset length : Nat) : List UInt8 :=
  (data.toList.drop offset).take length

def word16 (data : Bytes size) (offset : Nat) : Nat := fromBeBytes (slice data offset 2)

def pageType (id : Nat) (data : Bytes size) : Except Error PageType :=
  PageType.fromByte (data.toList.getD (headerOffset id) 0)

def nCells (id : Nat) (data : Bytes size) : Nat := word16 data (headerOffset id + 4)

def setNCells (id n : Nat) (data : Bytes size) : Bytes size :=
  writeSlice data (headerOffset id + 4) (toBeBytes16 n)

/-- Zero stands for the end of the page. -/
def cellContentStart (id : Nat) (data : Bytes size) : Nat :=
  if word16 data (headerOffset id + 6) = 0 then size else word16 data (headerOffset id + 6)

def setCellContentStart (id offset : Nat) (data : Bytes size) : Bytes size :=
  writeSlice data (headerOffset id + 6) (toBeBytes16 (if size ≤ offset then 0 else offset))

def pointerOffset (id idx : Nat) : Nat := headerOffset id + pageHeaderSize + idx * 2

def cellPointer (id idx : Nat) (data : Bytes size) : Nat := word16 data (pointerOffset id idx)

def setCellPointer (id idx pointer : Nat) (data : Bytes size) : Bytes size :=
  writeSlice data (pointerOffset id idx) (toBeBytes16 pointer)

def freeSpace (id : Nat) (data : Bytes size) : Nat :=
  cellContentStart id data - pointerOffset id (nCells id data)

section Writes

variable {data : Bytes size} {offset : Nat} {bytes : List UInt8}

/-- Slices written one behind the other are one slice. -/
theorem writeSlice_append (data : Bytes size) (offset : Nat) (left right : List UInt8) :
    writeSlice (writeSlice data offset left) (offset + left.length) right =
      writeSlice data offset (left ++ right) := by
  induction left generalizing data offset with
  | nil => rfl
  | cons byte rest ih =>
    rw [writeSlice, List.length_cons, List.cons_append, writeSlice, ← ih, Nat.add_assoc,
      Nat.add_comm 1]

theorem slice_writeSlice (fits : offset + bytes.length ≤ size) :
    slice (writeSlice data offset bytes) offset bytes.length = bytes := by
  have front : (data.toList.take offset).length = offset := by
    rw [List.length_take, Vector.length_toList]
    omega
  rw [slice, toList_writeSlice data fits, List.append_assoc, List.drop_left' front, List.take_left]

/-- A write leaves every disjoint slice alone. -/
theorem slice_writeSlice_disjoint (fits : offset + bytes.length ≤ size) {other length : Nat}
    (apart : other + length ≤ offset ∨ offset + bytes.length ≤ other) :
    slice (writeSlice data offset bytes) other length = slice data other length := by
  have front : (data.toList.take offset).length = offset := by
    rw [List.length_take, Vector.length_toList]
    omega
  rw [slice, slice, toList_writeSlice data fits]
  rcases apart with before | behind
  · have inside : other ≤ (data.toList.take offset).length := by omega
    have short : length ≤ ((data.toList.take offset).drop other).length := by
      rw [List.length_drop]
      omega
    rw [List.append_assoc, List.drop_append_of_le_length inside,
      List.take_append_of_le_length short, List.drop_take, List.take_take]
    congr 1
    omega
  · have written : (data.toList.take offset ++ bytes).length = offset + bytes.length := by
      rw [List.length_append, front]
    obtain ⟨more, rfl⟩ := Nat.exists_eq_add_of_le behind
    rw [← written, List.drop_length_add_append, List.drop_drop, written]

theorem word16_writeSlice {value : Nat} (small : value < 2 ^ 16) (fits : offset + 2 ≤ size) :
    word16 (writeSlice data offset (toBeBytes16 value)) offset = value := by
  have read : slice (writeSlice data offset (toBeBytes16 value)) offset 2 = toBeBytes16 value :=
    @slice_writeSlice size data offset (toBeBytes16 value) fits
  rw [word16, read]
  simp only [fromBeBytes, toBeBytes16, List.foldl_cons, List.foldl_nil, UInt8.toNat_ofNat']
  omega

theorem word16_writeSlice_disjoint (fits : offset + bytes.length ≤ size) {other : Nat}
    (apart : other + 2 ≤ offset ∨ offset + bytes.length ≤ other) :
    word16 (writeSlice data offset bytes) other = word16 data other := by
  rw [word16, slice_writeSlice_disjoint fits apart, word16]

end Writes

end LeafPage

end RustSql.Storage
