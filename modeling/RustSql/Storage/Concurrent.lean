import RustSql.Foundation.TotalRun
import RustSql.Storage.Savepoint

/-! One `BEGIN CONCURRENT` transaction: private copies of the pages it touches, and
savepoints over them. -/

namespace RustSql.Storage.Concurrent

open RustSql.Foundation

inductive Error where
  | snapshotConflict (message : String)
  | corruption (message : String)
  | invalidArgument (message : String)
deriving DecidableEq, Repr

inductive JournalKind where
  | insert | replace | delete
deriving DecidableEq, Repr

/-- One journaled row-level write. -/
structure JournalOp where
  root : Nat
  isIndex : Bool
  kind : JournalKind
  rowid : Int64
  key : List UInt8
  payload : List UInt8
deriving DecidableEq, Repr

/-- A savepoint level: the pages as they were, and marks into the lists that only grow. -/
structure ConcurrentSavepoint (size : Nat) where
  name : String
  undo : AssocMap Nat (Bytes size)
  allocatedMark : Nat
  freedMark : Nat
  journalMark : Nat
  lineageSnap : AssocMap Nat Nat

/-- The transaction's private state. The read set is left out: it only refuses reads. -/
structure ConcurrentTxn (size : Nat) where
  beginEpoch : Nat
  beginNPages : Nat
  shadows : AssocMap Nat (Bytes size)
  allocated : List Nat
  freed : List Nat
  dirtied : List Nat
  rowJournal : List JournalOp
  opOk : List Bool
  rootLineage : AssocMap Nat Nat
  savepoints : List (ConcurrentSavepoint size)
  discarded : List Nat

/-- `ConcurrentTxn::new`. -/
def ConcurrentTxn.new (beginEpoch beginNPages : Nat) : ConcurrentTxn size where
  beginEpoch := beginEpoch
  beginNPages := beginNPages
  shadows := ∅
  allocated := []
  freed := []
  dirtied := []
  rowJournal := []
  opOk := []
  rootLineage := ∅
  savepoints := []
  discarded := []

/-- A transaction with the shared state it reads: the committed bytes of every page
(`none` where neither cache, WAL nor file has a whole page), the version stamps and
the two page counts. -/
structure Writer (size : Nat) where
  txn : ConcurrentTxn size
  committed : Nat → Option (Bytes size)
  stampOf : Nat → Nat
  nPages : Nat
  committedNPages : Nat

abbrev WriterM (size : Nat) := EStateM Error (Writer size)

namespace ConcurrentTxn

/-- `existed_at`: the page was part of the transaction when the level was opened, as
far as its number tells. -/
def existedAt (txn : ConcurrentTxn size) (level : ConcurrentSavepoint size) (id : Nat) : Bool :=
  decide (id < txn.beginNPages) ||
    (decide (0 < level.allocatedMark) &&
      (txn.allocated[level.allocatedMark - 1]?).any (fun last => decide (id ≤ last)))

/-- The level after a fetch of a page it may need: the first bytes stay. -/
def captureLevel (txn : ConcurrentTxn size) (id : Nat) (bytes : Bytes size)
    (level : ConcurrentSavepoint size) : ConcurrentSavepoint size :=
  if txn.existedAt level id && (level.undo.lookup id).isNone then
    { level with undo := level.undo.insert id bytes }
  else level

/-- `capture_shadow_undo`: nothing to do when the newest level has the page. -/
def captureShadowUndo (id : Nat) (bytes : Bytes size) (txn : ConcurrentTxn size) :
    ConcurrentTxn size :=
  if txn.savepoints.getLast?.any (fun level => (level.undo.lookup id).isSome) then txn
  else { txn with savepoints := txn.savepoints.map (txn.captureLevel id bytes) }

def noteDirty (id : Nat) (txn : ConcurrentTxn size) : ConcurrentTxn size :=
  { txn with dirtied := if id ∈ txn.dirtied then txn.dirtied else id :: txn.dirtied }

end ConcurrentTxn

namespace Writer

def mapTxn (change : ConcurrentTxn size → ConcurrentTxn size) (writer : Writer size) :
    Writer size :=
  { writer with txn := change writer.txn }

/-- `fetch_committed_bytes`. -/
def fetchCommittedBytes (writer : Writer size) (id bound : Nat) : Option (Bytes size) :=
  if bound ≤ id ∧ id ≠ 0 then none else writer.committed id

/-- A sibling commit brought the page after this transaction began. -/
def late (writer : Writer size) (id : Nat) : Bool :=
  (decide (writer.txn.beginEpoch < writer.stampOf id) && decide (id ≠ 0)) ||
    (decide (writer.txn.beginNPages ≤ id) && decide (id ≠ 0))

/-- The page numbers a fetch may ask for. -/
def fetchBound (writer : Writer size) (id : Nat) : Nat :=
  if writer.txn.beginNPages ≤ id ∧ id ≠ 0 then max writer.committedNPages writer.nPages
  else if writer.late id then max writer.committedNPages writer.txn.beginNPages
  else writer.txn.beginNPages

/-- The read set no longer holds: `what` was changed by a sibling's commit. -/
def staleRead (what : String) : Error :=
  .snapshotConflict ("data read by this transaction (" ++ what ++
    ") was changed by a concurrent commit; the transaction must be retried")

def lateTouch (id : Nat) : Error :=
  .snapshotConflict ("page " ++ toString id ++ " was committed by another connection after this " ++
    "transaction began; the transaction must be retried")

/-- Hand a page out: its bytes are recorded for the savepoints first. -/
def serve (id : Nat) (bytes : Bytes size) (refused : Bool) : WriterM size (Bytes size) := do
  modify (mapTxn (ConcurrentTxn.captureShadowUndo id bytes))
  if id ≠ 0 ∧ refused = true then throw (staleRead ("page " ++ toString id))
  else return bytes

/-- `writer_shadow_fetch`. `stale` is the answer of `read_set_stale`, `refused` that of
`note_semantic_read`. -/
def writerShadowFetch (id : Nat) (stale : Option String) (refused : Bool) :
    WriterM size (Bytes size) := do
  let writer ← get
  match writer.txn.shadows.lookup id with
  | some bytes => serve id bytes refused
  | none =>
    if writer.late id ∧ writer.txn.savepoints ≠ [] then throw (lateTouch id)
    else if writer.fetchBound id ≤ id then
      throw (.corruption ("page " ++ toString id ++ " out of range (concurrent snapshot n_pages=" ++
        toString (writer.fetchBound id) ++ ")"))
    else
      match writer.fetchCommittedBytes id (writer.fetchBound id) with
      | none => throw (.corruption ("short read on page " ++ toString id))
      | some live =>
        match stale, writer.late id with
        | some what, true => throw (staleRead what)
        | _, _ =>
          modify (mapTxn fun txn => { txn with shadows := txn.shadows.insert id live })
          serve id live refused

/-- A mutation through the handle a fetch returned. -/
def mutate (id : Nat) (change : Bytes size → Bytes size) (stale : Option String)
    (refused : Bool) : WriterM size Unit := do
  let bytes ← writerShadowFetch id stale refused
  modify (mapTxn fun txn =>
    ({ txn with shadows := txn.shadows.insert id (change bytes) }).noteDirty id)

/-- `writer_shadow_alloc`: the page count is an `AtomicU32`, whose `fetch_add` wraps. -/
def writerShadowAlloc (writer : Writer size) : Writer size :=
  { writer with
    nPages := (writer.nPages + 1) % 2 ^ 32
    txn := { writer.txn with
      shadows := writer.txn.shadows.insert writer.nPages (Bytes.zero size)
      allocated := writer.txn.allocated ++ [writer.nPages] } }

/-- `writer_shadow_free`. -/
def writerShadowFree (id : Nat) : WriterM size Unit := do
  if id = 0 then throw (.invalidArgument "cannot free page 0")
  else
    modify (mapTxn fun txn =>
      { txn with freed := txn.freed ++ [id], shadows := txn.shadows.erase id })

/-- `note_row_write` and the `note_row_outcome` of the same operation. -/
def noteRowWrite (op : JournalOp) (ok : Bool) (writer : Writer size) : Writer size :=
  writer.mapTxn fun txn =>
    { txn with rowJournal := txn.rowJournal ++ [op], opOk := txn.opOk ++ [ok] }

/-- `note_root_split`. -/
def noteRootSplit (oldRoot newRoot : Nat) (writer : Writer size) : Writer size :=
  if oldRoot = 0 ∨ newRoot = 0 then writer
  else writer.mapTxn fun txn => { txn with rootLineage := txn.rootLineage.insert newRoot oldRoot }

/-- `savepoint_concurrent`. -/
def savepointConcurrent (name : String) (writer : Writer size) : Writer size :=
  writer.mapTxn fun txn =>
    { txn with savepoints := txn.savepoints ++ [{
        name := name.toLower
        undo := ∅
        allocatedMark := txn.allocated.length
        freedMark := txn.freed.length
        journalMark := txn.rowJournal.length
        lineageSnap := txn.rootLineage }] }

/-- `release_concurrent_savepoint`: the depth left, if there is such a savepoint. -/
def releaseConcurrentSavepoint (name : String) (writer : Writer size) :
    Option Nat × Writer size :=
  match Pager.savepointIndex (writer.txn.savepoints.map ConcurrentSavepoint.name) name with
  | none => (none, writer)
  | some index =>
    (some index, writer.mapTxn fun txn => { txn with savepoints := txn.savepoints.take index })

end Writer

namespace ConcurrentTxn

/-- The lists cut back to the level's marks, and the pages allocated since dropped. -/
def cutBack (level : ConcurrentSavepoint size) (txn : ConcurrentTxn size) : ConcurrentTxn size :=
  let junk := txn.allocated.drop level.allocatedMark
  { txn with
    allocated := txn.allocated.take level.allocatedMark
    freed := txn.freed.take level.freedMark
    rowJournal := txn.rowJournal.take level.journalMark
    opOk := txn.opOk.take level.journalMark
    rootLineage := level.lineageSnap
    shadows := junk.foldl (fun shadows id => shadows.erase id) txn.shadows
    discarded := txn.discarded ++ junk }

/-- One pre-image back in place. -/
def restorePage (id : Nat) (bytes : Bytes size) (txn : ConcurrentTxn size) : ConcurrentTxn size :=
  ({ txn with shadows := txn.shadows.insert id bytes }).noteDirty id

/-- No dirty entry outlives its shadow. -/
def dropStale (txn : ConcurrentTxn size) : ConcurrentTxn size :=
  { txn with dirtied := txn.dirtied.filter fun id => (txn.shadows.lookup id).isSome }

def removeShadow (id : Nat) (txn : ConcurrentTxn size) : ConcurrentTxn size :=
  { txn with shadows := txn.shadows.erase id, dirtied := txn.dirtied.erase id }

end ConcurrentTxn

namespace Writer

/-- The pre-images that are restored: those of pages that were not allocated since. -/
def restored (level : ConcurrentSavepoint size) (txn : ConcurrentTxn size) :
    List (Nat × Bytes size) :=
  (level.undo.entries.map fun entry => (entry.1, entry.2)).filter fun entry =>
    decide (entry.1 ∉ txn.allocated.drop level.allocatedMark)

/-- The restored page has the committed bytes, so it carries no write. -/
def netZero (writer : Writer size) (entry : Nat × Bytes size) : Bool :=
  decide (entry.1 < writer.txn.beginNPages ∨ entry.1 = 0) &&
    decide (writer.fetchCommittedBytes entry.1 writer.txn.beginNPages = some entry.2)

/-- The transaction rolled back to a level that sits below `below`. -/
def rollbackTo (below : List (ConcurrentSavepoint size)) (level : ConcurrentSavepoint size)
    (writer : Writer size) : Writer size :=
  let undone := restored level writer.txn
  let txn := undone.foldl (fun txn entry => txn.restorePage entry.1 entry.2)
    (writer.txn.cutBack level)
  let txn := { txn.dropStale with savepoints := below ++ [{ level with undo := ∅ }] }
  let removable := undone.filter writer.netZero
  { writer with txn := removable.foldl (fun txn entry => txn.removeShadow entry.1) txn }

/-- `rollback_concurrent_savepoint`: the depth left, if there is such a savepoint. -/
def rollbackConcurrentSavepoint (name : String) (writer : Writer size) :
    Option Nat × Writer size :=
  let levels := writer.txn.savepoints
  match Pager.savepointIndex (levels.map ConcurrentSavepoint.name) name with
  | none => (none, writer)
  | some index =>
    match levels[index]? with
    | none => (none, writer)
    | some level => (some (index + 1), writer.rollbackTo (levels.take index) level)

/-- What the transaction sees: its own copy of a page, else the committed bytes. -/
def view (writer : Writer size) (id : Nat) : Option (Bytes size) :=
  (writer.txn.shadows.lookup id).or (writer.committed id)

end Writer

end RustSql.Storage.Concurrent
