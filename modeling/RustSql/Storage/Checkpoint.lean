import Mathlib.Data.List.Sort
import RustSql.Foundation.TotalRun
import RustSql.Storage.Freelist
import RustSql.Storage.WalChronicle

/-! `checkpoint_wal_locked` copies the committed frames into the main file and starts the
log over. It is modelled by the file operations it issues, so that a crash between any two
of them can be looked at. -/

namespace RustSql.Storage

open RustSql.Foundation

/-- What outlives the process: the main file and the log file. -/
structure Disk (size : Nat) where
  store : List (Bytes size)
  log : WalFile size

/-- One file operation; a write of several pages counts page by page. -/
inductive FileWrite (size : Nat) where
  | page (id : Nat) (data : Bytes size)
  | setLen (pages : Nat)
  | clearLog
  | logHeader (header : WalHeader)

namespace Disk

def apply (disk : Disk size) : FileWrite size → Disk size
  | .page id data => { disk with store := writeStore disk.store id data }
  | .setLen pages => { disk with store := Pager.setLen disk.store pages }
  | .clearLog => { disk with log := { header := none, frames := [] } }
  | .logHeader header => { disk with log := { disk.log with header := some header } }

def applyAll (disk : Disk size) (writes : List (FileWrite size)) : Disk size :=
  writes.foldl apply disk

end Disk

/-- The coalescing buffer of the fold: pages from `runStart` on that are not written yet. -/
structure FoldRun (size : Nat) where
  runStart : Option Nat
  runBuf : List (Bytes size)
  issued : List (FileWrite size)

namespace FoldRun

/-- `run_buf_max`, in pages. -/
def runBufMax : Nat := 16

def start : FoldRun size where
  runStart := none
  runBuf := []
  issued := []

/-- `flush_run`: the buffered pages as one write. -/
def flushRun (run : FoldRun size) : List (FileWrite size) :=
  (run.runBuf.zipIdx (run.runStart.getD 0)).map (fun entry => .page entry.2 entry.1)

/-- Begin a new run unless `id` continues the current one and there is room. -/
def advance (run : FoldRun size) (id : Nat) : FoldRun size :=
  if run.runStart.any (fun first => first + run.runBuf.length = id) &&
      run.runBuf.length < runBufMax then run
  else { runStart := some id, runBuf := [], issued := run.issued ++ run.flushRun }

def push (run : FoldRun size) (data : Bytes size) : FoldRun size :=
  { run with runBuf := run.runBuf ++ [data] }

/-- The fold loop. The header is left for the end. -/
def foldPages (serve : Nat → Except Error (Bytes size)) :
    List Nat → FoldRun size → FoldRun size × Option Error
  | [], run => (run, none)
  | id :: rest, run =>
    if id = 0 then foldPages serve rest run
    else
      match serve id with
      | .ok data => foldPages serve rest ((run.advance id).push data)
      | .error error => (run.advance id, some error)

end FoldRun

namespace Pager

/-- The pages a checkpoint copies: those of the committed map below an armed truncation
bound, in ascending order. -/
def foldedIds (pager : Pager size) (state : WalState size) : List Nat :=
  (state.map.keys.filter (fun id =>
    pager.pendingTruncate = 0 || id < pager.pendingTruncate)).insertionSort (· ≤ ·)

/-- The bytes of a page to copy: the cached copy, else its committed frame. -/
def serve (pager : Pager size) (state : WalState size) (id : Nat) :
    Except Error (Bytes size) :=
  match pager.cache id with
  | some page => .ok page.data
  | none => state.wal.readFrameAt ((state.map.lookup id).getD 0)

/-- The header to write, and the page count the file has to cover for it: the committed
frame, or under an armed truncation the cached copy. -/
def foldedHeader (pager : Pager size) (state : WalState size) :
    Except Error (Option (Bytes size) × Nat) :=
  match state.map.lookup 0 with
  | none => .ok (none, 0)
  | some index =>
    if pager.pendingTruncate = 0 then
      (state.wal.readFrameAt index).map (fun data => (some data, FileHeader.dbSizePages data))
    else
      match pager.cache 0 with
      | some page => .ok (some page.data, 0)
      | none => (state.wal.readFrameAt index).map (fun data => (some data, 0))

/-- The truncation of the main file and the reset of the log. -/
def finishWrites (truncate : Bool) (header : WalHeader) (wanted current : Nat) :
    List (FileWrite size) :=
  (if wanted = current then [] else [.setLen wanted]) ++
    (if truncate then [.clearLog, .logHeader header] else [.logHeader header])

/-- The main file and the log as they are on disk. -/
def disk (pager : Pager size) : Disk size where
  store := pager.store
  log := (pager.wal.map (fun state => state.wal.file)).getD { header := none, frames := [] }

/-- The file operations of a checkpoint, up to its first error. -/
def checkpointWrites (truncate : Bool) (salts : Salts) (pager : Pager size)
    (state : WalState size) : List (FileWrite size) × Option Error :=
  match FoldRun.foldPages (pager.serve state) (pager.foldedIds state) .start with
  | (run, some error) => (run.issued, some error)
  | (run, none) =>
    let pages := run.issued ++ run.flushRun
    match pager.foldedHeader state with
    | .error error => (pages, some error)
    | .ok (header, folded) =>
      let writes := pages ++ header.toList.map (FileWrite.page 0)
      (writes ++ finishWrites truncate (WalHeader.new pager.crc salts)
        (max pager.nPages folded) (pager.disk.applyAll writes).store.length, none)

/-- `checkpoint_wal_locked`. `salts` are those of the log's next generation. -/
def checkpointWalLocked (truncate : Bool) (salts : Salts) : PagerM size Unit := fun pager =>
  match pager.wal with
  | none => .ok () pager
  | some state =>
    if state.spilled.keys.isEmpty then
      match pager.checkpointWrites truncate salts state with
      | (writes, some error) =>
        .error error { pager with store := (pager.disk.applyAll writes).store }
      | (writes, none) =>
        .ok () { pager with
          store := (pager.disk.applyAll writes).store
          pendingTruncate := 0
          wal := some {
            wal := if truncate then Wal.reset pager.crc salts
              else state.wal.resetKeepSize pager.crc salts
            map := ∅
            spilled := ∅ } }
    else .ok () pager

/-- What the call asks of the file system. -/
def checkpointTrace (truncate : Bool) (salts : Salts) (pager : Pager size) :
    List (FileWrite size) :=
  match pager.wal with
  | none => []
  | some state =>
    if state.spilled.keys.isEmpty then (pager.checkpointWrites truncate salts state).1 else []

end Pager

end RustSql.Storage
