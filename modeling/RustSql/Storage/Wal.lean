import RustSql.Foundation.AssocMap
import RustSql.Foundation.RedoLog
import RustSql.Storage.Page

/-! The write-ahead log. Frame offsets are modelled by frame indices, which determine
them: frame `i` starts at byte `32 + i * (24 + page_size)`. The log's properties hold for
any checksum function, so it is an argument, as are the salts the clock supplies. The frame count
is a `u32` of the source: runs of the log keep it below `2 ^ 32`. -/

namespace RustSql.Storage

open RustSql.Foundation

/-- The running checksum pair. -/
abbrev Checksum := UInt32 × UInt32

/-- The pair of salts that marks the frames of one log generation. -/
abbrev Salts := UInt32 × UInt32

/-- A checksum pair continued over more bytes. -/
abbrev Crc := Checksum → List UInt8 → Checksum

/-- One byte of CRC32 with the reflected IEEE polynomial. -/
def crcByte (state : UInt32) (byte : UInt8) : UInt32 :=
  Nat.repeat (fun state =>
    if state &&& 1 = 1 then (state >>> 1) ^^^ 0xEDB88320 else state >>> 1) 8
    (state ^^^ byte.toUInt32)

/-- `Hasher::new_with_initial`, `update` and `finalize` of `crc32fast`. -/
def crcHash (initial : UInt32) (bytes : List UInt8) : UInt32 :=
  ~~~ (bytes.foldl crcByte (~~~ initial))

/-- `wal::crc32`: two CRC32s with different seeds. -/
def crc32 : Crc := fun chain bytes =>
  (crcHash chain.1 bytes, crcHash (chain.2 ^^^ 0xA5A5A5A5) bytes)

/-- `u32::to_be_bytes`. -/
def toBeBytes (value : Nat) : List UInt8 :=
  [UInt8.ofNat (value / 16777216), UInt8.ofNat (value / 65536), UInt8.ofNat (value / 256),
    UInt8.ofNat value]

structure WalHeader where
  salts : Salts
  checksum : Checksum
  deriving DecidableEq

/-- `WalHeader::new`, with the salts the clock supplied. -/
def WalHeader.new (crc : Crc) (salts : Salts) : WalHeader where
  salts := salts
  checksum := crc (0, 0) []

structure Frame (size : Nat) where
  pageId : Nat
  commit : Nat
  salts : Salts
  checksum : Checksum
  data : Bytes size
  deriving DecidableEq

/-- A frame whose checksum is still to be computed. -/
def Frame.unsummed (pageId : Nat) (commit : Nat) (salts : Salts) (data : Bytes size) :
    Frame size :=
  { pageId := pageId, commit := commit, salts := salts, checksum := (0, 0), data := data }

/-- The checksum of a frame that follows `chain`: id, commit mark and page bytes. -/
def Frame.sum (crc : Crc) (chain : Checksum) (frame : Frame size) : Checksum :=
  crc chain (toBeBytes frame.pageId ++ toBeBytes frame.commit ++ frame.data.toList)

/-- Store the checksum that continues `chain`. -/
def Frame.chainFrom (crc : Crc) (chain : Checksum) (frame : Frame size) : Frame size :=
  { frame with checksum := frame.sum crc chain }

/-- The sidecar file: no header while it has no bytes. -/
structure WalFile (size : Nat) where
  header : Option WalHeader
  frames : List (Frame size)

structure Wal (size : Nat) where
  file : WalFile size
  header : WalHeader
  checksum : Checksum
  nFrames : Nat
  headerDirty : Bool
  uncommitted : AssocMap Nat Nat
  recksumFrom : Option Nat

/-- Positioned write of consecutive frames. -/
def writeFrames (frames : List (Frame size)) (start : Nat) (written : List (Frame size)) :
    List (Frame size) :=
  frames.take start ++ written ++ frames.drop (start + written.length)

/-- Give consecutive frames the checksums that continue `chain`. -/
def rechainFrames (crc : Crc) : Checksum → List (Frame size) → List (Frame size)
  | _, [] => []
  | chain, frame :: rest =>
    frame.chainFrom crc chain :: rechainFrames crc (frame.sum crc chain) rest

/-- The running checksum after the frames. -/
def chainAfter (crc : Crc) : Checksum → List (Frame size) → Checksum
  | chain, [] => chain
  | chain, frame :: rest => chainAfter crc (frame.sum crc chain) rest

namespace Wal

/-- The deferred header write of a fresh sidecar. -/
def writeHeader (wal : Wal size) : Wal size :=
  if wal.headerDirty then
    { wal with file := { wal.file with header := some wal.header }, headerDirty := false }
  else wal

/-- `Wal::rechain`. -/
def rechain (crc : Crc) (wal : Wal size) : Wal size :=
  match wal.recksumFrom with
  | none => wal
  | some start =>
    let seed := if start = 0 then wal.header.checksum
      else (wal.file.frames[start - 1]?.map Frame.checksum).getD wal.header.checksum
    let body := (wal.file.frames.drop start).take (wal.nFrames - start)
    { wal with
      file := { wal.file with
        frames := writeFrames wal.file.frames start (rechainFrames crc seed body) }
      checksum := chainAfter crc seed body
      recksumFrom := none }

/-- `Wal::append`. -/
def append (crc : Crc) (wal : Wal size) (pageId : Nat) (data : Bytes size)
    (commit : Bool) : Wal size × Nat :=
  let wal := wal.writeHeader
  let wal := if commit then wal.rechain crc else wal
  let index := wal.nFrames
  let frame := (Frame.unsummed pageId (if commit then 1 else 0) wal.header.salts data).chainFrom
    crc wal.checksum
  ({ wal with
      file := { wal.file with frames := writeFrames wal.file.frames index [frame] }
      checksum := frame.checksum
      nFrames := wal.nFrames + 1
      uncommitted := if commit then ∅ else wal.uncommitted.insert pageId index }, index)

/-- `Wal::spill`: over the page's own frame of this transaction, else appended. -/
def spill (crc : Crc) (wal : Wal size) (pageId : Nat) (data : Bytes size) :
    Wal size × Nat :=
  match wal.uncommitted.lookup pageId with
  | none => wal.append crc pageId data false
  | some index =>
    ({ wal with
        file := { wal.file with
          frames := writeFrames wal.file.frames index
            [Frame.unsummed pageId 0 wal.header.salts data] }
        recksumFrom := some (wal.recksumFrom.elim index (fun first => min first index)) },
      index)

/-- The frames of one commit: only the last one carries the commit mark. -/
def commitFrames (salts : Salts) : List (Nat × Bytes size) → List (Frame size)
  | [] => []
  | [(pageId, data)] => [Frame.unsummed pageId 1 salts data]
  | (pageId, data) :: rest => Frame.unsummed pageId 0 salts data :: commitFrames salts rest

/-- `Wal::append_batch`: pages that are no longer dirty are skipped, and a batch with
nothing left to write ends no transaction. Returns the written pages with their frames. -/
def appendBatch (crc : Crc) (wal : Wal size) (pages : List (Nat × Page size)) :
    Wal size × List (Nat × Nat) :=
  if pages.isEmpty then (wal, [])
  else
    let wal := wal.writeHeader.rechain crc
    let written := (pages.filter (fun entry => entry.2.dirty)).map
      (fun entry => (entry.1, entry.2.data))
    if written.isEmpty then (wal, [])
    else
      let frames := rechainFrames crc wal.checksum (commitFrames wal.header.salts written)
      ({ wal with
          file := { wal.file with frames := writeFrames wal.file.frames wal.nFrames frames }
          checksum := chainAfter crc wal.checksum (commitFrames wal.header.salts written)
          nFrames := wal.nFrames + written.length
          uncommitted := ∅ },
        (written.map Prod.fst).zipIdx wal.nFrames)

/-- `Wal::reset_synced`. -/
def reset (crc : Crc) (salts : Salts) : Wal size :=
  let header := WalHeader.new crc salts
  { file := { header := some header, frames := [] }, header := header,
    checksum := header.checksum, nFrames := 0, headerDirty := false, uncommitted := ∅,
    recksumFrom := none }

/-- `Wal::reset_keep_size_synced`: the old frames stay behind under their old salts. -/
def resetKeepSize (crc : Crc) (salts : Salts) (wal : Wal size) : Wal size :=
  let header := WalHeader.new crc salts
  { file := { wal.file with header := some header }, header := header,
    checksum := header.checksum, nFrames := 0, headerDirty := false, uncommitted := ∅,
    recksumFrom := none }

/-- `Wal::read_frame_at`. -/
def readFrameAt (wal : Wal size) (index : Nat) : Except Error (Bytes size) :=
  match wal.file.frames[index]? with
  | none => .error (.io "failed to fill whole buffer")
  | some frame =>
    if frame.salts = wal.header.salts then .ok frame.data
    else .error (.corruption "WAL frame salt mismatch")

end Wal

/-- Where the validation walk of `Wal::recover` stands. -/
structure Recovery where
  lastValid : Nat
  lastCommit : Nat
  lastCommitChain : Checksum

/-- The validation walk: it stops at the first frame of another generation or with a
checksum that does not continue the chain. -/
def recoverWalk (crc : Crc) (salts : Salts) :
    List (Frame size) → Nat → Checksum → Recovery → Recovery
  | [], _, _, found => found
  | frame :: rest, index, running, found =>
    if frame.salts ≠ salts then found
    else if frame.sum crc running ≠ frame.checksum then found
    else
      let running := frame.sum crc running
      let found := { found with lastValid := index + 1 }
      recoverWalk crc salts rest (index + 1) running
        (if frame.commit ≠ 0 then
          { found with lastCommit := index + 1, lastCommitChain := running }
        else found)

/-- `Wal::open` and `Wal::open_shared`: `recover` over what the file holds. `fresh` are
the salts of the header an empty sidecar gets. -/
def Wal.recover (crc : Crc) (fresh : Salts) (file : WalFile size) (truncateTorn : Bool) :
    Wal size :=
  match file.header with
  | none =>
    let header := WalHeader.new crc fresh
    { file := file, header := header, checksum := header.checksum, nFrames := 0,
      headerDirty := true, uncommitted := ∅, recksumFrom := none }
  | some header =>
    let found := recoverWalk crc header.salts file.frames 0 header.checksum
      { lastValid := 0, lastCommit := 0, lastCommitChain := header.checksum }
    let frames := if truncateTorn && decide (found.lastCommit < found.lastValid)
      then file.frames.take found.lastCommit else file.frames
    { file := { file with frames := frames }, header := header,
      checksum := found.lastCommitChain, nFrames := found.lastCommit, headerDirty := false,
      uncommitted := ∅, recksumFrom := none }

/-- `Wal::committed_page_map`: later frames of a page replace earlier ones. -/
def Wal.committedPageMap (wal : Wal size) : AssocMap Nat Nat :=
  ((wal.file.frames.take wal.nFrames).zipIdx).foldl
    (fun map entry => map.insert entry.1.pageId entry.2) ∅

namespace Wal

/-- Frame `index` is a live frame of page `id`. -/
def Owned (wal : Wal size) (id : Nat) (index : Nat) : Prop :=
  index < wal.nFrames ∧ ∃ frame, wal.file.frames[index]? = some frame ∧
    frame.pageId = id ∧ frame.salts = wal.header.salts

/-- What every log keeps: its live frames are on disk, and each page's frame of the open
transaction is its own. -/
structure Grounded (wal : Wal size) : Prop where
  onDisk : wal.nFrames ≤ wal.file.frames.length
  own : ∀ id index, wal.uncommitted.lookup id = some index → wal.Owned id index

theorem getElem?_writeFrames (frames : List (Frame size)) (start index : Nat)
    (frame : Frame size) (bound : start ≤ frames.length) :
    (writeFrames frames start [frame])[index]? =
      if index = start then some frame else frames[index]? := by
  have front : (frames.take start).length = start := by simp [bound]
  unfold writeFrames
  rw [List.append_assoc]
  rcases Nat.lt_trichotomy index start with before | same | after
  · rw [List.getElem?_append_left (by omega), List.getElem?_take_of_lt before,
      if_neg (by omega)]
  · rw [List.getElem?_append_right (by omega), if_pos same, front]
    simp [same]
  · rw [List.getElem?_append_right (by omega), if_neg (by omega), front,
      List.getElem?_append_right (by simp; omega), List.getElem?_drop]
    congr 1
    simp
    omega

theorem length_writeFrames (frames : List (Frame size)) (start : Nat) (frame : Frame size)
    (bound : start ≤ frames.length) :
    (writeFrames frames start [frame]).length = max frames.length (start + 1) := by
  simp [writeFrames]
  omega

theorem readFrameAt_owned {wal : Wal size} {id : Nat} {index : Nat}
    (owned : wal.Owned id index) : ∃ data, wal.readFrameAt index = .ok data := by
  obtain ⟨_, frame, found, _, salted⟩ := owned
  exact ⟨frame.data, by simp [readFrameAt, found, salted]⟩

@[simp]
theorem writeHeader_header (wal : Wal size) : wal.writeHeader.header = wal.header := by
  unfold writeHeader
  split <;> rfl

@[simp]
theorem writeHeader_frames (wal : Wal size) :
    wal.writeHeader.file.frames = wal.file.frames := by
  unfold writeHeader
  split <;> rfl

@[simp]
theorem writeHeader_nFrames (wal : Wal size) : wal.writeHeader.nFrames = wal.nFrames := by
  unfold writeHeader
  split <;> rfl

@[simp]
theorem writeHeader_uncommitted (wal : Wal size) :
    wal.writeHeader.uncommitted = wal.uncommitted := by
  unfold writeHeader
  split <;> rfl

/-- What a spill leaves behind: a frame with the page's bytes at `index`, and the frames
of all other pages as they were. -/
structure Spilled (wal : Wal size) (id : Nat) (data : Bytes size) (after : Wal size)
    (index : Nat) : Prop where
  header : after.header = wal.header
  grounded : after.Grounded
  own : after.Owned id index
  latest : after.uncommitted.lookup id = some index
  content : after.readFrameAt index = .ok data
  keepsOwn : ∀ other, wal.Owned id other → after.Owned id other
  keeps : ∀ page other, page ≠ id → wal.Owned page other →
    after.Owned page other ∧ after.readFrameAt other = wal.readFrameAt other

/-- A first spill takes the slot behind the last live frame. -/
theorem append_spilled (crc : Crc) (wal : Wal size) (grounded : wal.Grounded) (id : Nat)
    (data : Bytes size) :
    wal.Spilled id data (wal.append crc id data false).1 (wal.append crc id data false).2 := by
  have stored : ∀ index, (wal.append crc id data false).1.file.frames[index]? =
      if index = wal.nFrames then
        some ((Frame.unsummed id 0 wal.header.salts data).chainFrom crc wal.writeHeader.checksum)
      else wal.file.frames[index]? := by
    intro index
    simp only [append, Bool.false_eq_true, if_false, writeHeader_frames, writeHeader_nFrames,
      writeHeader_header]
    exact getElem?_writeFrames _ _ _ _ grounded.onDisk
  have here : (wal.append crc id data false).1.Owned id wal.nFrames := by
    refine ⟨by simp [append], _, (stored wal.nFrames).trans (if_pos rfl), rfl, ?_⟩
    simp [append, Frame.chainFrom, Frame.unsummed]
  have keep : ∀ page index, wal.Owned page index →
      (wal.append crc id data false).1.Owned page index ∧
        (wal.append crc id data false).1.readFrameAt index = wal.readFrameAt index := by
    rintro page index ⟨live, frame, found, same, salted⟩
    have kept := (stored index).trans (if_neg (Nat.ne_of_lt live))
    constructor
    · refine ⟨?_, frame, kept.trans found, same, ?_⟩
      · simp [append]
        omega
      · simpa [append] using salted
    · simp only [readFrameAt, kept]
      simp [append]
  refine ⟨by simp [append], ⟨?_, ?_⟩, ?_, ?_, ?_, ?_, ?_⟩
  · simp only [append, Bool.false_eq_true, if_false, writeHeader_frames, writeHeader_nFrames]
    rw [length_writeFrames _ _ _ grounded.onDisk]
    omega
  · intro page index found
    simp only [append, Bool.false_eq_true, if_false, writeHeader_uncommitted,
      writeHeader_nFrames, AssocMap.lookup_insert_eq] at found
    split at found
    · next same =>
        cases found
        exact same ▸ here
    · exact (keep page index (grounded.own page index found)).1
  · simpa [append] using here
  · simp [append]
  · have slot : (wal.append crc id data false).2 = wal.nFrames := by simp [append]
    simp only [readFrameAt, slot, stored, if_true]
    simp [append, Frame.chainFrom, Frame.unsummed]
  · intro index owned
    exact (keep id index owned).1
  · intro page index _ owned
    exact keep page index owned

/-- A page spilled before in this transaction is written over its own frame. -/
theorem overwrite_spilled (wal : Wal size) (grounded : wal.Grounded) (id : Nat)
    (data : Bytes size) (slot : Nat) (broken : Option Nat)
    (known : wal.uncommitted.lookup id = some slot) :
    wal.Spilled id data
      { wal with
        file := { wal.file with
          frames := writeFrames wal.file.frames slot
            [Frame.unsummed id 0 wal.header.salts data] }
        recksumFrom := broken } slot := by
  obtain ⟨live, old, found, ownOld, _⟩ := grounded.own id slot known
  have inside : slot ≤ wal.file.frames.length :=
    Nat.le_trans (Nat.le_of_lt live) grounded.onDisk
  have stored := fun index => getElem?_writeFrames wal.file.frames slot index
    (Frame.unsummed id 0 wal.header.salts data) inside
  have apart : ∀ page index, page ≠ id → wal.Owned page index → index ≠ slot := by
    rintro page index differ ⟨_, frame, there, same, _⟩ rfl
    rw [found] at there
    cases there
    exact differ (same.symm.trans ownOld)
  have keep : ∀ page index, wal.Owned page index → ∃ frame,
      (writeFrames wal.file.frames slot [Frame.unsummed id 0 wal.header.salts data])[index]? =
        some frame ∧ frame.pageId = page ∧ frame.salts = wal.header.salts := by
    rintro page index ⟨_, frame, there, same, salted⟩
    by_cases hit : index = slot
    · subst hit
      rw [found] at there
      cases there
      exact ⟨_, (stored index).trans (if_pos rfl), ownOld.symm.trans same, rfl⟩
    · exact ⟨frame, (stored index).trans ((if_neg hit).trans there), same, salted⟩
  refine ⟨rfl, ⟨?_, ?_⟩, ?_, known, ?_, ?_, ?_⟩
  · show wal.nFrames ≤ (writeFrames wal.file.frames slot _).length
    rw [length_writeFrames _ _ _ inside]
    exact Nat.le_trans grounded.onDisk (Nat.le_max_left _ _)
  · intro page index there
    exact ⟨(grounded.own page index there).1, keep page index (grounded.own page index there)⟩
  · exact ⟨live, keep id slot (grounded.own id slot known)⟩
  · simp only [readFrameAt, stored, if_true]
    exact if_pos rfl
  · intro index owned
    exact ⟨owned.1, keep id index owned⟩
  · intro page index differ owned
    refine ⟨⟨owned.1, keep page index owned⟩, ?_⟩
    simp [readFrameAt, stored, apart page index differ owned]

theorem spill_spilled (crc : Crc) (wal : Wal size) (grounded : wal.Grounded) (id : Nat)
    (data : Bytes size) :
    wal.Spilled id data (wal.spill crc id data).1 (wal.spill crc id data).2 := by
  unfold spill
  cases known : wal.uncommitted.lookup id with
  | none => exact append_spilled crc wal grounded id data
  | some slot => exact overwrite_spilled wal grounded id data slot _ known

end Wal

end RustSql.Storage
