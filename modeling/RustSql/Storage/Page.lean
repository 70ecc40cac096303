import RustSql.Foundation.Bytes

/-! Pages, the file header on page 0, and the errors the pager reports. Page numbers are
`u32` in the source and `Nat` here; arithmetic that can wrap says so. -/

namespace RustSql.Storage

open RustSql.Foundation

inductive Error where
  | corruption (message : String)
  | invalidArgument (message : String)
  | io (message : String)
  deriving DecidableEq, Repr

/-- The legal page sizes of `read_header`: a power of two in `512..=65536`. -/
structure LegalPageSize (size : Nat) : Prop where
  powerOfTwo : ∃ exponent, size = 2 ^ exponent
  atLeast : 512 ≤ size
  atMost : size ≤ 65536

/-- A cached page: its bytes and whether they still have to be written. -/
structure Page (size : Nat) where
  data : Bytes size
  dirty : Bool
  deriving DecidableEq

namespace Page

/-- `Page::new`: a clean page of zeros. -/
def new (size : Nat) : Page size where
  data := Bytes.zero size
  dirty := false

/-- `Page::touch` marks the page for writing. -/
def touch (page : Page size) : Page size :=
  { page with dirty := true }

end Page

def dbHeaderSize : Nat := 100

/-- `RSQLDB06`. -/
def dbMagic : List UInt8 := [82, 83, 81, 76, 68, 66, 48, 54]

def journalModeWal : Nat := 1

namespace FileHeader

/-- `copy_from_slice` of a byte string at `offset`. -/
def writeSlice (buffer : Bytes size) (offset : Nat) : List UInt8 → Bytes size
  | [] => buffer
  | byte :: rest => writeSlice (buffer.setIfInBounds offset byte) (offset + 1) rest

/-- `FileHeader::write`. -/
def write (buffer : Bytes size) (pageSize dbSizePages schemaCookie : Nat) : Bytes size :=
  let buffer := writeSlice buffer 0 dbMagic
  let buffer := buffer.writeU32 8 pageSize
  let buffer := buffer.writeU32 12 1
  let buffer := buffer.writeU32 16 dbSizePages
  let buffer := buffer.writeU32 20 0
  let buffer := buffer.writeU32 24 0
  let buffer := buffer.writeU32 28 schemaCookie
  let buffer := buffer.writeU32 32 1
  let buffer := buffer.writeU32 36 2048
  let buffer := buffer.writeU32 40 0
  let buffer := buffer.writeU32 44 0
  buffer.writeU32 48 1

def dbSizePages (buffer : Bytes size) : Nat := buffer.readU32 16
/-- `FileHeader::set_journal_mode`. -/
def setJournalMode (buffer : Bytes size) (mode : Nat) : Bytes size :=
  buffer.writeU32 72 mode

/-- The page-0 refresh of a WAL commit: the header fields from the pager's counters. -/
def refresh (buffer : Bytes size) (pageSize nPages head count cookie : Nat) : Bytes size :=
  let buffer := write buffer pageSize nPages cookie
  let buffer := buffer.writeU32 20 head
  let buffer := buffer.writeU32 24 count
  setJournalMode buffer journalModeWal

/-- `build_init_page0`: the header over an empty schema-table leaf. -/
def initPage0 (size : Nat) : Page size :=
  let data := write (Bytes.zero size) size 1 0
  { data := data.setIfInBounds dbHeaderSize 0x0D, dirty := false }

end FileHeader

end RustSql.Storage
