import RustSql.Foundation.Lexicographic
import RustSql.Storage.Concurrent
import RustSql.Storage.RootLineage
import Mathlib.Data.List.Sort

/-! Version stamps: every commit stamps the pages, rows and index keys it wrote with a new
epoch, fetches and commits ask whether something has moved since, and the stamps are dropped
when no transaction is open. -/

namespace RustSql.Storage.StampPruning

open RustSql.Foundation RustSql.Storage.RootLineage
open RustSql.Storage.Concurrent (JournalOp JournalKind)

structure Stamps where
  pages : AssocMap Nat Nat
  rows : AssocMap (Nat × Int64) Nat
  keys : AssocMap (Nat × List UInt8) Nat

def Stamps.empty : Stamps := ⟨∅, ∅, ∅⟩

/-- The order of the key map: by root, then by the bytes. -/
def keyWord (key : Nat × List UInt8) : List Nat := key.1 :: key.2.map UInt8.toNat

abbrev KeyEntry := (_ : Nat × List UInt8) × Nat

def keyOrder (one two : KeyEntry) : Prop :=
  (List.compareLex compare (keyWord one.1) (keyWord two.1)).isLE

instance : DecidableRel keyOrder := fun _ _ => inferInstanceAs (Decidable (_ = true))

instance : Std.Total keyOrder where
  total one two := by
    rw [keyOrder, keyOrder, @Std.OrientedCmp.eq_swap _ (List.compareLex compare) _ (keyWord two.1)]
    cases List.compareLex compare (keyWord one.1) (keyWord two.1) <;> simp

instance : IsTrans KeyEntry keyOrder where
  trans _ _ _ := Std.TransCmp.isLE_trans

namespace Stamps

def stampOf (stamps : Stamps) (id : Nat) : Nat := (stamps.pages.lookup id).getD 0

def rowStamp (stamps : Stamps) (roots : Roots) (root : Nat) (rowid : Int64) : Nat :=
  (stamps.rows.lookup (roots.originOf root, rowid)).getD 0

/-- The walk of the key map from the first key that is not below the prefix. -/
def keyPrefixStamp (stamps : Stamps) (roots : Roots) (root : Nat) (start : List UInt8) : Nat :=
  let word := keyWord (roots.originOf root, start)
  (((scanFrom compare (fun entry : KeyEntry => keyWord entry.1) word
    (stamps.keys.entries.insertionSort keyOrder)).takeWhile fun entry =>
      decide (word <+: keyWord entry.1)).map Sigma.snd).foldl max 0

end Stamps

structure Savepoint where
  name : String
  undo : List Nat
  allocatedMark : Nat
  journalMark : Nat
  freedMark : Nat
  lineageSnap : AssocMap Nat Nat

/-- What a transaction holds, but for the page stamps it read. A shadow is held as its dirty
flag. -/
structure TxnBody where
  beginEpoch : Nat
  beginNPages : Nat
  shadows : AssocMap Nat Bool
  allocated : List Nat
  freed : List Nat
  dirtied : List Nat
  decisionReads : List Nat
  rowJournal : List JournalOp
  rootLineage : AssocMap Nat Nat
  savepoints : List Savepoint
  discarded : List Nat
  semPages : List Nat
  semRows : AssocMap (Nat × Int64) Nat
  semKeys : AssocMap (Nat × List UInt8) Nat
  shadowEpoch : AssocMap Nat Nat
  pageKind : AssocMap Nat UInt8
  viewAdvanced : Bool

structure ConcurrentTxn extends TxnBody where
  readStamps : AssocMap Nat Nat

/-- `ConcurrentTxn::new`. -/
def ConcurrentTxn.new (beginEpoch beginNPages : Nat) : ConcurrentTxn where
  beginEpoch := beginEpoch
  beginNPages := beginNPages
  shadows := ∅
  allocated := []
  freed := []
  dirtied := []
  decisionReads := []
  rowJournal := []
  rootLineage := ∅
  savepoints := []
  discarded := []
  semPages := []
  semRows := ∅
  semKeys := ∅
  shadowEpoch := ∅
  pageKind := ∅
  viewAdvanced := false
  readStamps := ∅

def ConcurrentTxn.recorded (txn : ConcurrentTxn) (id : Nat) : Nat := (txn.readStamps.lookup id).getD 0

def pairs (lineage : AssocMap Nat Nat) : List (Nat × Nat) :=
  lineage.entries.map fun entry => (entry.1, entry.2)

/-- An entry kept at the least value noted for it. -/
def noteLeast [DecidableEq Key] (map : AssocMap Key Nat) (key : Key) (epoch : Nat) : AssocMap Key Nat :=
  map.insert key (min epoch ((map.lookup key).getD epoch))

namespace TxnBody

def canonicalRoot (txn : TxnBody) (root : Nat) : Nat := chase (pairs txn.rootLineage) 64 root

def materializedAt (txn : TxnBody) (id : Nat) : Nat := (txn.shadowEpoch.lookup id).getD txn.beginEpoch

def existedAt (txn : TxnBody) (level : Savepoint) (id : Nat) : Bool :=
  decide (id < txn.beginNPages) ||
    (decide (0 < level.allocatedMark) &&
      (txn.allocated[level.allocatedMark - 1]?).any fun last => decide (id ≤ last))

/-- `capture_shadow_undo`. -/
def captureShadowUndo (id : Nat) (txn : TxnBody) : TxnBody :=
  if txn.savepoints.getLast?.any fun level => decide (id ∈ level.undo) then txn
  else { txn with savepoints := txn.savepoints.map fun level =>
    if txn.existedAt level id && !decide (id ∈ level.undo) then { level with undo := id :: level.undo }
    else level }

/-- The pages the transaction has fetched or taken. -/
def Known (txn : TxnBody) (id : Nat) : Prop :=
  (txn.shadowEpoch.lookup id).isSome ∨ id ∈ txn.allocated ∨ id ∈ txn.discarded

/-- The pages a commit installs. -/
def dirtyShadows (txn : TxnBody) : List Nat :=
  (txn.shadows.entries.filter fun entry => entry.2).map Sigma.fst

def wrote (txn : TxnBody) : Bool :=
  !txn.dirtied.isEmpty || !txn.rowJournal.isEmpty || !txn.allocated.isEmpty || !txn.freed.isEmpty

/-- `note_dirty`, and the dirty flag of the shadow behind the handle. -/
def noteDirty (id : Nat) (txn : TxnBody) : TxnBody :=
  { txn with
    shadows := if (txn.shadows.lookup id).isSome then txn.shadows.insert id true else txn.shadows
    dirtied := if id ∈ txn.dirtied then txn.dirtied else id :: txn.dirtied }

/-- The lists cut back to the marks of a savepoint, and the pages taken since dropped. -/
def cutBack (level : Savepoint) (txn : TxnBody) : TxnBody :=
  let junk := txn.allocated.drop level.allocatedMark
  { txn with
    allocated := txn.allocated.take level.allocatedMark
    freed := txn.freed.take level.freedMark
    rowJournal := txn.rowJournal.take level.journalMark
    rootLineage := level.lineageSnap
    shadows := junk.foldl (fun shadows id => shadows.erase id) txn.shadows
    discarded := txn.discarded ++ junk }

def restorePage (txn : TxnBody) (id : Nat) : TxnBody :=
  noteDirty id { txn with shadows := txn.shadows.insert id true }

def removeShadow (txn : TxnBody) (id : Nat) : TxnBody :=
  { txn with shadows := txn.shadows.erase id, dirtied := txn.dirtied.erase id }

/-- Back to a level that sits on top of `below`; `netZero` are the pages whose bytes are the
committed ones. -/
def rollbackTo (below : List Savepoint) (level : Savepoint) (netZero : List Nat) (txn : TxnBody) :
    TxnBody :=
  let undone := level.undo.filter fun id => !decide (id ∈ txn.allocated.drop level.allocatedMark)
  let txn := undone.foldl restorePage (txn.cutBack level)
  let txn := { txn with
    dirtied := txn.dirtied.filter fun id => (txn.shadows.lookup id).isSome
    savepoints := below ++ [{ level with undo := [] }] }
  (undone.filter fun id => decide (id < txn.beginNPages ∨ id = 0) && decide (id ∈ netZero)).foldl
    removeShadow txn

end TxnBody

/-- What a statement does to its transaction's own data. -/
inductive Edit where
  | mutate (id : Nat)
  | free (id : Nat)
  | decisionRead (id : Nat)
  | rowWrite (op : JournalOp)
  | journalInvalidated
  | rootSplit (oldRoot newRoot : Nat)
  | savepoint (name : String)
  | release (name : String)
  | rollback (name : String) (netZero : List Nat)

def Edit.apply : Edit → TxnBody → TxnBody
  | .mutate id, txn => txn.noteDirty id
  | .free id, txn =>
    if id = 0 then txn else { txn with freed := txn.freed ++ [id], shadows := txn.shadows.erase id }
  | .decisionRead id, txn => if id = 0 then txn else { txn with decisionReads := id :: txn.decisionReads }
  | .rowWrite op, txn =>
    { txn with rowJournal := txn.rowJournal ++ [{ op with
        root := txn.canonicalRoot op.root
        key := if op.isIndex then op.key else []
        payload := if op.isIndex then [] else op.payload }] }
  | .journalInvalidated, txn => { txn with rowJournal := [] }
  | .rootSplit oldRoot newRoot, txn =>
    if oldRoot = 0 ∨ newRoot = 0 then txn
    else { txn with rootLineage := txn.rootLineage.insert newRoot oldRoot }
  | .savepoint name, txn =>
    { txn with savepoints := txn.savepoints ++ [{
        name := name.toLower
        undo := []
        allocatedMark := txn.allocated.length
        journalMark := txn.rowJournal.length
        freedMark := txn.freed.length
        lineageSnap := txn.rootLineage }] }
  | .release name, txn =>
    match Pager.savepointIndex (txn.savepoints.map Savepoint.name) name with
    | none => txn
    | some index => { txn with savepoints := txn.savepoints.take index }
  | .rollback name netZero, txn =>
    match Pager.savepointIndex (txn.savepoints.map Savepoint.name) name with
    | none => txn
    | some index => match txn.savepoints[index]? with
      | none => txn
      | some level => txn.rollbackTo (txn.savepoints.take index) level netZero

/-- A BEGIN that has not registered its transaction: the page count it loaded, and the epoch
once it has loaded that. -/
structure Begin where
  nPages : Nat
  epoch : Option Nat

/-- The manager, but for the stamps and the open transactions. `committing` is the fresh
transaction of a merge while it replays. -/
structure Frame where
  commitEpoch : Nat
  roots : Roots
  nextTxn : Nat
  nPages : Nat
  committedNPages : Nat
  memory : Bool
  begins : AssocMap Nat Begin
  committing : Option Nat

structure Manager extends Frame where
  stamps : Stamps
  txns : AssocMap Nat ConcurrentTxn

def Manager.new (memory : Bool) (nPages : Nat) : Manager where
  commitEpoch := 1
  roots := Roots.empty
  nextTxn := 1
  nPages := nPages
  committedNPages := nPages
  memory := memory
  begins := ∅
  committing := none
  stamps := Stamps.empty
  txns := ∅

inductive Answer where
  | page | conflict | corruption
deriving DecidableEq

/-- What an event reports. `late` is `none` where the transaction had the page already. -/
inductive Outcome where
  | done
  | opened (txn : Nat)
  | notOpen
  | busy
  | fetched (late : Option Bool) (answer : Answer)
  | merging (fresh : Nat)
  | committed (merged : Bool)
  | conflict
deriving DecidableEq

/-- The thread-local marks around a fetch. -/
structure Reading where
  structural : Bool
  pointRead : Option (Nat × Int64)
  keyProbe : Option (Nat × List UInt8)

namespace Manager

def stampOf (manager : Manager) (id : Nat) : Nat := manager.stamps.stampOf id

def rowStamp (manager : Manager) (root : Nat) (rowid : Int64) : Nat :=
  manager.stamps.rowStamp manager.roots root rowid

def keyPrefixStamp (manager : Manager) (root : Nat) (start : List UInt8) : Nat :=
  manager.stamps.keyPrefixStamp manager.roots root start

/-- `read_set_stale`. -/
def readSetStale (manager : Manager) (txn : ConcurrentTxn) : Bool :=
  (txn.semPages.any fun id => decide (manager.stampOf id ≠ txn.recorded id)) ||
    (txn.semRows.entries.any fun entry => decide (entry.2 < manager.rowStamp entry.1.1 entry.1.2)) ||
      txn.semKeys.entries.any fun entry => decide (entry.2 < manager.keyPrefixStamp entry.1.1 entry.1.2)

/-- The page as a whole was read. -/
def notePageRead (manager : Manager) (txn : ConcurrentTxn) (id : Nat) : Bool × ConcurrentTxn :=
  let txn := { txn with semPages := if id ∈ txn.semPages then txn.semPages else id :: txn.semPages }
  (txn.viewAdvanced && decide (manager.stampOf id ≠ txn.recorded id), txn)

/-- One row of the leaf was read. -/
def noteRowRead (manager : Manager) (txn : ConcurrentTxn) (id root : Nat) (rowid : Int64) :
    Bool × ConcurrentTxn :=
  let key := (txn.canonicalRoot root, rowid)
  let txn := { txn with semRows := noteLeast txn.semRows key (txn.materializedAt id) }
  (txn.viewAdvanced && decide ((txn.semRows.lookup key).getD 0 < manager.rowStamp key.1 key.2), txn)

/-- The keys of the leaf with some beginning were read. -/
def noteKeyRead (manager : Manager) (txn : ConcurrentTxn) (id root : Nat) (start : List UInt8) :
    Bool × ConcurrentTxn :=
  let key := (txn.canonicalRoot root, start)
  let txn := { txn with semKeys := noteLeast txn.semKeys key (txn.materializedAt id) }
  (txn.viewAdvanced && decide ((txn.semKeys.lookup key).getD 0 < manager.keyPrefixStamp key.1 key.2), txn)

/-- `note_semantic_read`: whether the read is refused, and the transaction after it. -/
def noteSemanticRead (manager : Manager) (txn : ConcurrentTxn) (reading : Reading) (id : Nat) :
    Bool × ConcurrentTxn :=
  match txn.pageKind.lookup id with
  | none => (false, txn)
  | some kind =>
    if kind = 0x05 ∨ kind = 0x02 then (false, txn)
    else match reading.pointRead, reading.keyProbe with
      | some (root, rowid), probe =>
        if kind = 0x0D then manager.noteRowRead txn id root rowid
        else if kind ≠ 0x0A then (false, txn)
        else match probe with
          | some (root, start) => manager.noteKeyRead txn id root start
          | none => manager.notePageRead txn id
      | none, some (root, start) =>
        if kind = 0x0A then manager.noteKeyRead txn id root start else manager.notePageRead txn id
      | none, none => manager.notePageRead txn id

def setTxn (manager : Manager) (t : Nat) (txn : ConcurrentTxn) : Manager :=
  { manager with txns := manager.txns.insert t txn }

/-- The end of a fetch, whose page the transaction has. -/
def serve (manager : Manager) (t : Nat) (txn : ConcurrentTxn) (late : Option Bool) (reading : Reading)
    (id : Nat) : Outcome × Manager :=
  if id ≠ 0 ∧ reading.structural = false then
    let noted := manager.noteSemanticRead txn reading id
    (.fetched late (if noted.1 then .conflict else .page), manager.setTxn t noted.2)
  else (.fetched late .page, manager.setTxn t txn)

def beyond (txn : ConcurrentTxn) (id : Nat) : Bool := decide (txn.beginNPages ≤ id ∧ id ≠ 0)

/-- A sibling commit brought the page after the transaction began. -/
def late (manager : Manager) (txn : ConcurrentTxn) (id : Nat) : Bool :=
  decide (txn.beginEpoch < manager.stampOf id ∧ id ≠ 0) || beyond txn id

def fetchBound (manager : Manager) (txn : ConcurrentTxn) (id : Nat) : Nat :=
  if beyond txn id then max manager.committedNPages manager.nPages
  else if manager.late txn id then max manager.committedNPages txn.beginNPages
  else txn.beginNPages

/-- The page is materialized with its stamp as the base. -/
def materialize (manager : Manager) (txn : ConcurrentTxn) (id : Nat) (kind : UInt8) : ConcurrentTxn :=
  { txn with
    viewAdvanced := txn.viewAdvanced || manager.late txn id
    readStamps := txn.readStamps.insert id (manager.stampOf id)
    shadows := txn.shadows.insert id false
    shadowEpoch := txn.shadowEpoch.insert id manager.commitEpoch
    pageKind := if id ≠ 0 then txn.pageKind.insert id kind else txn.pageKind }

/-- `writer_shadow_fetch`. `live` is the first of the committed bytes, if they can be read. -/
def writerShadowFetch (manager : Manager) (t id : Nat) (reading : Reading) (live : Option UInt8) :
    Outcome × Manager :=
  match manager.txns.lookup t with
  | none => (.notOpen, manager)
  | some txn =>
    if (txn.shadows.lookup id).isSome then
      manager.serve t { txn with toTxnBody := txn.captureShadowUndo id } none reading id
    else
      let late := manager.late txn id
      if late = true ∧ txn.savepoints ≠ [] then (.fetched (some late) .conflict, manager)
      else if manager.fetchBound txn id ≤ id then (.fetched (some late) .corruption, manager)
      else match live with
        | none => (.fetched (some late) .corruption, manager)
        | some kind =>
          if late = true ∧ manager.readSetStale txn = true then (.fetched (some late) .conflict, manager)
          else
            let txn := manager.materialize txn id kind
            manager.serve t { txn with toTxnBody := txn.captureShadowUndo id } (some late) reading id

/-- `writer_shadow_alloc`. The page count is an `AtomicU32`, whose `fetch_add` wraps. -/
def writerShadowAlloc (manager : Manager) (t : Nat) : Outcome × Manager :=
  let taken := { manager with nPages := (manager.nPages + 1) % 2 ^ 32 }
  match manager.txns.lookup t with
  | none => (.notOpen, taken)
  | some txn =>
    (.done, taken.setTxn t { txn with
      shadows := txn.shadows.insert manager.nPages true
      allocated := txn.allocated ++ [manager.nPages] })

def edit (manager : Manager) (t : Nat) (change : Edit) : Outcome × Manager :=
  match manager.txns.lookup t with
  | none => (.notOpen, manager)
  | some txn => (.done, manager.setTxn t { txn with toTxnBody := change.apply txn.toTxnBody })

def loadPages (manager : Manager) (thread : Nat) : Outcome × Manager :=
  let committed := if manager.memory then manager.nPages else manager.committedNPages
  (.done, { manager with
    committedNPages := committed
    begins := manager.begins.insert thread ⟨committed, none⟩ })

def loadEpoch (manager : Manager) (thread : Nat) : Outcome × Manager :=
  match manager.begins.lookup thread with
  | some ⟨nPages, none⟩ =>
    (.done, { manager with begins := manager.begins.insert thread ⟨nPages, some manager.commitEpoch⟩ })
  | _ => (.done, manager)

/-- `begin` of the manager. -/
def register (manager : Manager) (beginEpoch beginNPages : Nat) : Manager :=
  { manager with
    nextTxn := manager.nextTxn + 1
    txns := manager.txns.insert manager.nextTxn (ConcurrentTxn.new beginEpoch beginNPages) }

def registerBegin (manager : Manager) (thread : Nat) : Outcome × Manager :=
  match manager.begins.lookup thread with
  | some ⟨nPages, some epoch⟩ =>
    (.opened manager.nextTxn,
      { manager.register epoch nPages with begins := manager.begins.erase thread })
  | _ => (.done, manager)

/-- `stamp_installed`, `stamp_rows` and `stamp_keys`, with one new epoch. -/
def stampCommit (manager : Manager) (txn : TxnBody) : Stamps :=
  let epoch := manager.commitEpoch + 1
  { pages := txn.dirtyShadows.foldl (fun pages id => pages.insert id epoch) manager.stamps.pages
    rows := (txn.rowJournal.map fun op => (manager.roots.originOf op.root, op.rowid)).foldl
      (fun rows row => rows.insert row epoch) manager.stamps.rows
    keys := ((txn.rowJournal.filter JournalOp.isIndex).map fun op =>
      (manager.roots.originOf op.root, op.key)).foldl
        (fun keys key => keys.insert key epoch) manager.stamps.keys }

/-- The install: the lineage first, then the pages and the stamps, and the flush publishes the
page count. -/
def install (manager : Manager) (txn : TxnBody) : Manager :=
  let moved := { manager with roots := manager.roots.installLineage (pairs txn.rootLineage) }
  { moved with
    commitEpoch := manager.commitEpoch + 1
    stamps := moved.stampCommit txn
    committedNPages := manager.nPages }

/-- A page moved since the base of the transaction's copy. -/
def moved (manager : Manager) (txn : ConcurrentTxn) (id : Nat) : Bool :=
  decide (manager.stampOf id ≠ txn.recorded id)

def rowMoved (manager : Manager) (txn : ConcurrentTxn) : Bool :=
  txn.rowJournal.any fun op => decide (txn.beginEpoch < manager.rowStamp op.root op.rowid)

/-- The journal names a root that is not the tree's root any more. -/
def rootMoved (manager : Manager) (txn : TxnBody) : Bool :=
  txn.rowJournal.any fun op => decide (op.root ≠ 0) &&
    decide (manager.roots.currentRootOf (manager.roots.originOf op.root) ≠ op.root)

/-- The validation of the write set. -/
def conflicts (manager : Manager) (txn : ConcurrentTxn) : Bool :=
  txn.dirtyShadows.any (manager.moved txn) || txn.decisionReads.any (manager.moved txn) ||
    manager.rootMoved txn.toTxnBody || manager.rowMoved txn

/-- `commit_concurrent_body`, under the commit lock. A merge leaves a fresh transaction that
replays the journal. -/
def commitConcurrent (manager : Manager) (t : Nat) : Outcome × Manager :=
  if manager.committing.isSome then (.busy, manager)
  else match manager.txns.lookup t with
    | none => (.notOpen, manager)
    | some txn =>
      let taken := { manager with txns := manager.txns.erase t }
      if txn.wrote && manager.readSetStale txn then (.conflict, taken)
      else if manager.conflicts txn then
        if txn.rowJournal.isEmpty || manager.rowMoved txn then (.conflict, taken)
        else (.merging manager.nextTxn,
          { taken.register manager.commitEpoch manager.committedNPages with
            committing := some manager.nextTxn })
      else (.committed false, taken.install txn.toTxnBody)

/-- The rest of `resolve_page_conflict`, when the replay is over. -/
def finishMerge (manager : Manager) (replayed : Bool) : Outcome × Manager :=
  match manager.committing with
  | none => (.done, manager)
  | some fresh => match manager.txns.lookup fresh with
    | none => (.conflict, { manager with committing := none })
    | some txn =>
      let taken := { manager with committing := none, txns := manager.txns.erase fresh }
      if replayed then (.committed true, taken.install txn.toTxnBody) else (.conflict, taken)

/-- `rollback_concurrent_body`. -/
def rollbackConcurrent (manager : Manager) (t : Nat) : Outcome × Manager :=
  if manager.committing.isSome then (.busy, manager)
  else match manager.txns.lookup t with
    | none => (.done, manager)
    | some txn => (.done, { manager with
        txns := manager.txns.erase t
        committedNPages := if (txn.allocated ++ txn.discarded).isEmpty then manager.committedNPages
          else manager.nPages })

/-- `prune_stamps_if_idle`. -/
def pruneStampsIfIdle (manager : Manager) : Manager :=
  if manager.txns.entries.isEmpty && manager.committing.isNone then { manager with stamps := .empty }
  else manager

end Manager

/-- The steps of any number of threads. -/
inductive Event where
  | loadPages (thread : Nat)
  | loadEpoch (thread : Nat)
  | register (thread : Nat)
  | fetch (txn id : Nat) (reading : Reading) (live : Option UInt8)
  | allocate (txn : Nat)
  | edit (txn : Nat) (change : Edit)
  | commit (txn : Nat)
  | finishMerge (replayed : Bool)
  | rollback (txn : Nat)
  | prune (ran : Bool)

def Manager.step (manager : Manager) : Event → Outcome × Manager
  | .loadPages thread => manager.loadPages thread
  | .loadEpoch thread => manager.loadEpoch thread
  | .register thread => manager.registerBegin thread
  | .fetch txn id reading live => manager.writerShadowFetch txn id reading live
  | .allocate txn => manager.writerShadowAlloc txn
  | .edit txn change => manager.edit txn change
  | .commit txn => manager.commitConcurrent txn
  | .finishMerge replayed => manager.finishMerge replayed
  | .rollback txn => manager.rollbackConcurrent txn
  | .prune ran => (.done, if ran then manager.pruneStampsIfIdle else manager)

def Manager.next (manager : Manager) (event : Event) : Manager := (manager.step event).2

def Manager.outcomes : Manager → List Event → List Outcome
  | _, [] => []
  | manager, event :: rest => (manager.step event).1 :: (manager.next event).outcomes rest

/-- The same events, but for where the stamps were dropped. -/
inductive Event.Same : Event → Event → Prop where
  | refl (event : Event) : Same event event
  | prune (ran ran' : Bool) : Same (.prune ran) (.prune ran')

/-- A page, a row or an index key. -/
inductive Mark where
  | page (id : Nat)
  | row (root : Nat) (rowid : Int64)
  | key (root : Nat) (bytes : List UInt8)

def Stamps.at (stamps : Stamps) : Mark → Nat
  | .page id => stamps.stampOf id
  | .row root rowid => (stamps.rows.lookup (root, rowid)).getD 0
  | .key root bytes => (stamps.keys.lookup (root, bytes)).getD 0

/-- What a commit stamps. -/
def Written (roots : Roots) (txn : TxnBody) : Mark → Prop
  | .page id => id ∈ txn.dirtyShadows
  | .row root rowid => (root, rowid) ∈ txn.rowJournal.map fun op => (roots.originOf op.root, op.rowid)
  | .key root bytes => (root, bytes) ∈ (txn.rowJournal.filter JournalOp.isIndex).map fun op =>
    (roots.originOf op.root, op.key)

theorem lookup_foldl_insert [DecidableEq Key] (keys : List Key) (value : Nat) (map : AssocMap Key Nat)
    (target : Key) :
    (keys.foldl (fun map key => map.insert key value) map).lookup target =
      if target ∈ keys then some value else map.lookup target := by
  induction keys generalizing map with
  | nil => simp
  | cons key rest ih =>
    rw [List.foldl_cons, ih, AssocMap.lookup_insert_eq]
    by_cases later : target ∈ rest
    · simp [later]
    · by_cases here : target = key <;> simp [later, here]

theorem stampCommit_at (manager : Manager) (txn : TxnBody) (mark : Mark) :
    (Written manager.roots txn mark ∧ (manager.stampCommit txn).at mark = manager.commitEpoch + 1) ∨
      (¬ Written manager.roots txn mark ∧ (manager.stampCommit txn).at mark = manager.stamps.at mark) := by
  cases mark <;>
    simp only [Written, Stamps.at, Stamps.stampOf, Manager.stampCommit, lookup_foldl_insert]
  all_goals
    split
    · exact Or.inl ⟨‹_›, rfl⟩
    · exact Or.inr ⟨‹_›, rfl⟩

theorem lt_foldl_max (values : List Nat) (start bound : Nat) :
    bound < values.foldl max start ↔ bound < start ∨ ∃ value ∈ values, bound < value := by
  induction values generalizing start with
  | nil => simp
  | cons value rest ih =>
    rw [List.foldl_cons, ih, lt_max_iff, List.exists_mem_cons_iff, or_assoc]

theorem keyWord_initial (one two : Nat × List UInt8) :
    keyWord one <+: keyWord two ↔ one.1 = two.1 ∧ one.2 <+: two.2 := by
  have injective : Function.Injective UInt8.toNat := fun _ _ => UInt8.toNat_inj.mp
  rw [keyWord, keyWord, List.cons_prefix_cons, List.prefix_map_iff_of_injective injective]

/-- The walk finds the newest of all keys with the prefix. -/
theorem lt_keyPrefixStamp (stamps : Stamps) (roots : Roots) (root : Nat) (start : List UInt8)
    (bound : Nat) :
    bound < stamps.keyPrefixStamp roots root start ↔
      ∃ bytes, start <+: bytes ∧ bound < stamps.at (.key (roots.originOf root) bytes) := by
  have sorted := List.pairwise_insertionSort keyOrder stamps.keys.entries
  simp only [Stamps.keyPrefixStamp]
  rw [scanFrom_takeWhile sorted, lt_foldl_max]
  constructor
  · rintro (impossible | ⟨value, member, below⟩)
    · exact absurd impossible (Nat.not_lt_zero _)
    · obtain ⟨⟨⟨origin, bytes⟩, stamp⟩, found, rfl⟩ := List.mem_map.mp member
      obtain ⟨held, part⟩ := List.mem_filter.mp found
      obtain ⟨rfl, part⟩ := (keyWord_initial _ _).mp (of_decide_eq_true part)
      have stored := AList.mem_lookup_iff.mpr ((List.mem_insertionSort _).mp held)
      refine ⟨bytes, part, ?_⟩
      rw [Stamps.at, Option.mem_def.mp stored]
      exact below
  · rintro ⟨bytes, part, below⟩
    rw [Stamps.at] at below
    cases stored : stamps.keys.lookup (roots.originOf root, bytes) with
    | none => rw [stored] at below; exact absurd below (Nat.not_lt_zero _)
    | some stamp =>
      rw [stored] at below
      refine Or.inr ⟨stamp, List.mem_map.mpr ⟨⟨(roots.originOf root, bytes), stamp⟩, ?_, rfl⟩, below⟩
      refine List.mem_filter.mpr ⟨(List.mem_insertionSort _).mpr (AList.mem_lookup_iff.mp stored), ?_⟩
      exact decide_eq_true ((keyWord_initial _ _).mpr ⟨rfl, part⟩)

/-- Where the stamps differ, neither is newer than the base. -/
def Alike (base : Nat) (one two : Stamps) : Prop :=
  ∀ mark, one.at mark = two.at mark ∨ (one.at mark ≤ base ∧ two.at mark ≤ base)

namespace Alike

variable {base bound : Nat} {one two : Stamps}

theorem newer (alike : Alike base one two) (above : base ≤ bound) (mark : Mark) :
    bound < one.at mark ↔ bound < two.at mark := by
  rcases alike mark with same | ⟨old, old'⟩
  · rw [same]
  · constructor <;> intro newer <;> omega

theorem symm (alike : Alike base one two) : Alike base two one := fun mark =>
  (alike mark).imp Eq.symm And.symm

theorem old (alike : Alike base one two) (old : ∀ mark, one.at mark ≤ base) (mark : Mark) :
    two.at mark ≤ base := by
  rcases alike mark with same | ⟨_, old'⟩
  · exact same ▸ old mark
  · exact old'

theorem row (alike : Alike base one two) (above : base ≤ bound) (roots : Roots) (root : Nat)
    (rowid : Int64) : bound < one.rowStamp roots root rowid ↔ bound < two.rowStamp roots root rowid :=
  alike.newer above (.row (roots.originOf root) rowid)

theorem keys (alike : Alike base one two) (above : base ≤ bound) (roots : Roots) (root : Nat)
    (start : List UInt8) :
    bound < one.keyPrefixStamp roots root start ↔ bound < two.keyPrefixStamp roots root start := by
  rw [lt_keyPrefixStamp, lt_keyPrefixStamp]
  exact exists_congr fun bytes => and_congr_right fun _ => alike.newer above _

/-- A commit that writes the same on both sides. -/
theorem commit {manager manager' : Manager} (alike : Alike base manager.stamps manager'.stamps)
    (epoch : manager.commitEpoch = manager'.commitEpoch) (roots : manager.roots = manager'.roots)
    (txn : TxnBody) : Alike base (manager.stampCommit txn) (manager'.stampCommit txn) := by
  intro mark
  rcases stampCommit_at manager txn mark with ⟨written, here⟩ | ⟨apart, here⟩ <;>
    rcases stampCommit_at manager' txn mark with ⟨written', here'⟩ | ⟨apart', here'⟩
  · exact Or.inl (by rw [here, here', epoch])
  · exact absurd (roots ▸ written) apart'
  · exact absurd (roots ▸ written') apart
  · rw [here, here']
    exact alike mark

end Alike

end RustSql.Storage.StampPruning
