import RustSql.Foundation.Checked
import RustSql.Foundation.FileImage
import RustSql.Storage.WalBytes
import Mathlib.Data.List.FinRange

/-! Rollback journals of the SQLite file format: the writer, the probe for a hot one and its
replay. -/

namespace RustSql.Storage.Sqlitefmt.Rj

open RustSql.Foundation

/-- `JOURNAL_MAGIC`. -/
def journalMagic : List UInt8 := [0xd9, 0xd5, 0x05, 0xf9, 0x20, 0xa1, 0x63, 0xd7]

/-- `SECTOR`, the sector size of the writer. -/
def sectorSize : UInt32 := 512

/-- `u32::MAX / 4`. -/
def maxPages : Nat := (2 ^ 32 - 1) / 4

/-- The bytes at `N - 200`, `N - 400` and so on, added to the nonce. -/
def pageChecksum (page : List UInt8) (nonce : UInt32) : UInt32 :=
  (List.finRange (page.length / 200)).foldl (fun cksum i =>
    cksum + (page.get ⟨page.length - 200 * (i.1 + 1), by have := i.2; omega⟩).toUInt32) nonce

/-- A power of two from 512 to 65536. -/
abbrev LegalSize (n : Nat) : Prop := (512 ≤ n ∧ n ≤ 65536) ∧ n &&& (n - 1) = 0

/-- A header that passed its sanity gates. -/
structure JournalHeader where
  nRec : Int32
  nonce : UInt32
  initialDbPages : Nat
  sector : Nat
  pageSize : Nat
  legalPage : LegalSize pageSize
  legalSector : LegalSize sector
  few : initialDbPages ≤ maxPages

namespace JournalHeader

def fromBytes (b : List UInt8) : Option JournalHeader :=
  if b.take 8 ≠ journalMagic then none
  else
    if legalPage : LegalSize (wordAt b 24) then
      if legalSector : LegalSize (wordAt b 20) then
        if few : wordAt b 16 ≤ maxPages then
          some ⟨(UInt32.ofNat (wordAt b 8)).toInt32, UInt32.ofNat (wordAt b 12), wordAt b 16,
            wordAt b 20, wordAt b 24, legalPage, legalSector, few⟩
        else none
      else none
    else none

/-- `rec_len`: a page number, the page and its checksum. -/
def recLen (hdr : JournalHeader) : Nat := 4 + hdr.pageSize + 4

end JournalHeader

/-- A page number and the content of the page before the transaction. -/
abbrev PageImage := Nat × List UInt8

/-- The page number, the page and the checksum of the record at an offset. -/
def recordAt (bytes : List UInt8) (pageSize off : Nat) :
    Checked String (Nat × List UInt8 × UInt32) := do
  let pgno ← Checked.sliceRange bytes off (off + 4)
  let page ← Checked.sliceRange bytes (off + 4) (off + 4 + pageSize)
  let cksum ← Checked.sliceRange bytes (off + 4 + pageSize) (off + 8 + pageSize)
  .ok (fromBeBytes pgno, page, UInt32.ofNat (fromBeBytes cksum))

/-- At most `limit` records from an offset on, the offset behind them, and whether none was
torn. -/
def takeRecords (bytes : List UInt8) (hdr : JournalHeader) :
    (limit off : Nat) → Checked String (List PageImage × Nat × Bool)
  | 0, off => .ok ([], off, true)
  | limit + 1, off =>
    if bytes.length < off + hdr.recLen then .ok ([], off, false)
    else do
      let (pgno, page, cksum) ← recordAt bytes hdr.pageSize off
      if cksum ≠ pageChecksum page hdr.nonce then .ok ([], off, false)
      else if pgno = 0 ∨ maxPages < pgno then .ok ([], off, false)
      else do
        let (more, stop, whole) ← takeRecords bytes hdr limit (off + hdr.recLen)
        .ok ((pgno, page) :: more, stop, whole)

/-- `limit`: how many records the segment declares behind its header. -/
def declared (bytes : List UInt8) (hdr : JournalHeader) (start : Nat) : Checked String Nat :=
  if hdr.nRec < 0 then
    if start ≤ bytes.length then .ok ((bytes.length - start) / hdr.recLen)
    else .error .overflow
  else .ok hdr.nRec.toInt.toNat

/-- The header at an offset, its records, the offset behind them, and whether none was torn. -/
def segmentAt (bytes : List UInt8) (off : Nat) :
    Checked String (Option (JournalHeader × List PageImage × Nat × Bool)) := do
  let buf ← Checked.sliceRange bytes off (off + 28)
  match JournalHeader.fromBytes buf with
  | none => .ok none
  | some hdr =>
    let limit ← declared bytes hdr (off + hdr.sector)
    let (more, stop, whole) ← takeRecords bytes hdr limit (off + hdr.sector)
    .ok (some (hdr, more, stop, whole))

theorem takeRecords_forward {bytes : List UInt8} {hdr : JournalHeader} {limit off stop : Nat}
    {more : List PageImage} {whole : Bool}
    (taken : takeRecords bytes hdr limit off = .ok (more, stop, whole)) : off ≤ stop := by
  induction limit generalizing off more with
  | zero =>
    cases taken
    exact Nat.le_refl _
  | succ limit ih =>
    rw [takeRecords] at taken
    split_ifs at taken with short
    · cases taken
      exact Nat.le_refl _
    · obtain ⟨⟨pgno, page, cksum⟩, -, taken⟩ := Checked.bind_ok_iff.mp taken
      dsimp only at taken
      split_ifs at taken
      · cases taken
        exact Nat.le_refl _
      · cases taken
        exact Nat.le_refl _
      · obtain ⟨⟨rest, last, all⟩, later, taken⟩ := Checked.bind_ok_iff.mp taken
        cases taken
        exact Nat.le_trans (Nat.le_add_right _ _) (ih later)

theorem segmentAt_forward {bytes : List UInt8} {off stop : Nat} {hdr : JournalHeader}
    {more : List PageImage} {whole : Bool}
    (read : segmentAt bytes off = .ok (some (hdr, more, stop, whole))) : off + hdr.sector ≤ stop := by
  obtain ⟨buf, -, read⟩ := Checked.bind_ok_iff.mp read
  cases parsed : JournalHeader.fromBytes buf with
  | none =>
    rw [parsed] at read
    cases read
  | some hdr =>
    rw [parsed] at read
    obtain ⟨limit, -, read⟩ := Checked.bind_ok_iff.mp read
    obtain ⟨⟨more, last, all⟩, taken, read⟩ := Checked.bind_ok_iff.mp read
    cases read
    exact takeRecords_forward taken

/-- `div_ceil(stride) * stride`. -/
def roundUp (off stride : Nat) : Nat := (off + stride - 1) / stride * stride

theorem le_roundUp (off : Nat) {stride : Nat} (positive : 0 < stride) : off ≤ roundUp off stride := by
  have division := Nat.div_add_mod (off + stride - 1) stride
  have small := Nat.mod_lt (off + stride - 1) positive
  rw [Nat.mul_comm] at division
  rw [roundUp]
  omega

/-- The loop over the segments: the restored pages and the length to truncate to. -/
def segments (bytes : List UInt8) (restored : List PageImage) (truncateTo off : Nat) :
    Checked String (List PageImage × Nat) :=
  if off + 28 ≤ bytes.length then
    match _read : segmentAt bytes off with
    | .error fault => .error fault
    | .ok none => .ok (restored, truncateTo)
    | .ok (some (hdr, more, stop, whole)) =>
      if whole then
        segments bytes (restored ++ more) (hdr.initialDbPages * hdr.pageSize)
          (roundUp stop hdr.sector)
      else .ok (restored ++ more, truncateTo)
  else .ok (restored, truncateTo)
termination_by bytes.length - off
decreasing_by
  have forward := segmentAt_forward _read
  have legal := hdr.legalSector.1.1
  have up := le_roundUp stop (Nat.lt_of_lt_of_le (by decide) legal)
  omega

/-- The database file and its journal; `none` where there is no file. -/
structure Files where
  db : Option (List UInt8)
  journal : Option (List UInt8)
deriving DecidableEq

/-- Where a restored page goes. -/
def PageImage.place (image : PageImage) : FileImage.Image UInt8 :=
  ((image.1 - 1) * image.2.length, image.2)

/-- The truncation behind the restored pages. -/
def truncated (db : List UInt8) (truncateTo : Nat) : List UInt8 :=
  if 0 < truncateTo ∧ truncateTo < db.length then db.take truncateTo else db

def replayIfHot (files : Files) : Checked String (Bool × Files) :=
  match files.journal with
  | none => .ok (false, files)
  | some bytes =>
    if bytes.length < 28 then .ok (false, ⟨files.db, none⟩)
    else do
      let (restored, truncateTo) ← segments bytes [] 0 0
      match restored, files.db with
      | [], _ => .ok (false, ⟨files.db, none⟩)
      | _, none => .ok (false, ⟨none, none⟩)
      | restored, some db =>
        .ok (true, ⟨some (truncated (FileImage.writeAll 0 (restored.map PageImage.place) db)
          truncateTo), none⟩)

def hasHotJournal (files : Files) : Checked String Bool :=
  match files.journal with
  | none => .ok false
  | some bytes =>
    if bytes.length < 28 + 512 then .ok false
    else do
      let buf ← Checked.sliceRange bytes 0 28
      match JournalHeader.fromBytes buf with
      | none => .ok false
      | some hdr =>
        if hdr.nRec = 0 then .ok false
        else if bytes.length < 512 + hdr.recLen then .ok false
        else do
          let page ← Checked.sliceRange bytes (512 + 4) (512 + 4 + hdr.pageSize)
          let cksum ← Checked.sliceRange bytes (512 + 4 + hdr.pageSize) (512 + 8 + hdr.pageSize)
          .ok (decide (UInt32.ofNat (fromBeBytes cksum) = pageChecksum page hdr.nonce))

/-- `write_journal`: the bytes of the journal file. -/
def writeJournal (nonce : UInt32) (oldPages : List (UInt32 × List UInt8))
    (pageSize initialDbPages : UInt32) : Except String (List UInt8) :=
  if oldPages.any fun page => page.1 == 0 then .error "journal page number 0 is invalid"
  else
    let hdr := journalMagic ++ (toBeBytes oldPages.length ++ (toBeBytes nonce.toNat ++
      (toBeBytes initialDbPages.toNat ++ (toBeBytes sectorSize.toNat ++
        toBeBytes pageSize.toNat))))
    .ok (hdr ++ (List.replicate (sectorSize.toNat - hdr.length) 0 ++
      oldPages.flatMap fun (pgno, page) =>
        toBeBytes pgno.toNat ++ (page ++ toBeBytes (pageChecksum page nonce).toNat)))

/-- The writes of `write_pages`. -/
def writePages (pageSize : UInt32) (pages : List (UInt32 × List UInt8)) :
    List (FileImage.Image UInt8) :=
  pages.map fun (pgno, page) => ((pgno.toNat - 1) * pageSize.toNat, page)

end RustSql.Storage.Sqlitefmt.Rj
