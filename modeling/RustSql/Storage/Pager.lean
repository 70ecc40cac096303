import RustSql.Storage.Wal
import Mathlib.Logic.Function.Basic

/-! The page cache over its media: the main file, the log, and the DELETE-mode spill. -/

namespace RustSql.Storage

open RustSql.Foundation

/-- `PagerSnapshot`: the counters a rollback restores. -/
structure PagerSnapshot where
  nPages : Nat
  freelistHead : Nat
  freelistCount : Nat
  schemaCookie : Nat
  deriving DecidableEq

/-- One SAVEPOINT level with the pre-images captured since it was opened. -/
structure SavepointLevel (size : Nat) where
  name : String
  base : PagerSnapshot
  pages : AssocMap Nat (Bytes size)

/-- `PreimageLog::insert`: the first image of a page stays. -/
def SavepointLevel.record (level : SavepointLevel size) (id : Nat) (data : Bytes size) :
    SavepointLevel size :=
  if level.pages.lookup id = none then { level with pages := level.pages.insert id data }
  else level

/-- The log with its index of committed frames and of uncommitted spill frames. -/
structure WalState (size : Nat) where
  wal : Wal size
  map : AssocMap Nat Nat
  spilled : AssocMap Nat Nat

/-- `Pager`. `store` is the main file page by page, `none` stands for `u32::MAX` in the
three hints that use it, and `deleteSpill` keeps the newest record of each spilled page.
`crc` and `pressure` are the environment: the checksum, and for each call of
`maybe_evict_locked` the pages its LRU walk picks. -/
structure Pager (size : Nat) where
  store : List (Bytes size)
  isMemory : Bool
  isNew : Bool
  lazyWriteback : Bool
  cache : Nat → Option (Page size)
  nPages : Nat
  freelistHead : Nat
  freelistCount : Nat
  schemaCookie : Nat
  dirtyPages : List Nat
  lastNotedDirty : Option Nat
  dirtyCountApprox : Nat
  wal : Option (WalState size)
  deleteSpill : Nat → Option (Bytes size)
  savepoints : List (SavepointLevel size)
  savepointMinBase : Option Nat
  savepointCaptureGate : Option Nat
  undoCaptureSuspended : Bool
  pendingTruncate : Nat
  committedNPages : Nat
  crc : Crc
  pressure : List (List Nat)

/-- Pager calls keep their effects when they fail. -/
abbrev PagerM (size : Nat) := EStateM Error (Pager size)

/-- Positioned write of one page; a write past the end leaves zeros in between. -/
def writeStore (store : List (Bytes size)) (id : Nat) (data : Bytes size) :
    List (Bytes size) :=
  if id < store.length then store.set id data
  else store ++ List.replicate (id - store.length) (Bytes.zero size) ++ [data]

/-- The log with one more uncommitted page version. -/
def WalState.spill (crc : Crc) (id : Nat) (data : Bytes size) (state : WalState size) :
    WalState size :=
  let spill := state.wal.spill crc id data
  { state with wal := spill.1, spilled := state.spilled.insert id spill.2 }

namespace Pager

def snapshot (pager : Pager size) : PagerSnapshot where
  nPages := pager.nPages
  freelistHead := pager.freelistHead
  freelistCount := pager.freelistCount
  schemaCookie := pager.schemaCookie

/-- `initialize_new_db`: a pager over an empty file. The header is only in the cache. -/
def initializeNewDb (size : Nat) (crc : Crc) (pressure : List (List Nat)) : Pager size where
  store := []
  isMemory := false
  isNew := true
  lazyWriteback := false
  cache := Function.update (fun _ => none) 0 (some (FileHeader.initPage0 size))
  nPages := 1
  freelistHead := 0
  freelistCount := 0
  schemaCookie := 0
  dirtyPages := []
  lastNotedDirty := none
  dirtyCountApprox := 0
  wal := none
  deleteSpill := fun _ => none
  savepoints := []
  savepointMinBase := none
  savepointCaptureGate := none
  undoCaptureSuspended := false
  pendingTruncate := 0
  committedNPages := 1
  crc := crc
  pressure := pressure

/-- `note_write`. -/
def noteWrite (pager : Pager size) : Pager size :=
  { pager with dirtyCountApprox := pager.dirtyCountApprox + 1 }

/-- `note_dirty`, with its shortcut for the page noted last. -/
def noteDirty (id : Nat) (pager : Pager size) : Pager size :=
  { pager with
    dirtyPages := if pager.lastNotedDirty = some id then pager.dirtyPages
      else pager.dirtyPages.insert id
    dirtyCountApprox :=
      if pager.lastNotedDirty = some id ∨ id ∈ pager.dirtyPages then pager.dirtyCountApprox
      else pager.dirtyCountApprox + 1
    lastNotedDirty := some id }

def insertPage (id : Nat) (page : Page size) (pager : Pager size) : Pager size :=
  { pager with cache := Function.update pager.cache id (some page) }

/-- Change a page through a reference a caller holds. -/
def updatePage (id : Nat) (change : Page size → Page size) (pager : Pager size) :
    Pager size :=
  { pager with cache := Function.update pager.cache id ((pager.cache id).map change) }

/-- Drop a page from the cache; in WAL mode also from the dirty tracking. -/
def dropPage (id : Nat) (pager : Pager size) : Pager size :=
  { pager with
    cache := Function.update pager.cache id none
    dirtyPages := if pager.wal.isSome then pager.dirtyPages.erase id else pager.dirtyPages
    lastNotedDirty := if pager.wal.isSome ∧ pager.lastNotedDirty = some id then none
      else pager.lastNotedDirty }

/-- Put a dirty page where the next miss finds it: the main file under lazy write-back,
else a frame of the log, else the DELETE-mode spill. The log has at most one frame for each page
of the open transaction, and its `u32` frame count is taken not to wrap. -/
def spillPage (id : Nat) (data : Bytes size) (pager : Pager size) : Pager size :=
  { pager with
    store := if pager.lazyWriteback then writeStore pager.store id data else pager.store
    wal := if pager.lazyWriteback then pager.wal
      else pager.wal.map (WalState.spill pager.crc id data)
    deleteSpill := if pager.lazyWriteback ∨ pager.wal.isSome then pager.deleteSpill
      else Function.update pager.deleteSpill id (some data) }

/-- One pass of the loop of `maybe_evict_locked` over the page `id`; `pins` are the pages
whose references are held. -/
def evictOne (pins : List Nat) (id : Nat) (pager : Pager size) : Pager size :=
  match pager.cache id with
  | none => pager.dropPage id
  | some page =>
    if id ∈ pins then pager
    else if page.dirty then
      if pager.lazyWriteback || id != 0 then (pager.spillPage id page.data).dropPage id
      else pager
    else pager.dropPage id

/-- `maybe_evict_locked`. -/
def maybeEvict (pins : List Nat) (pager : Pager size) : Pager size :=
  if pager.isMemory then pager
  else
    match pager.pressure with
    | [] => pager
    | victims :: later =>
      victims.foldl (fun pager id => pager.evictOne pins id) { pager with pressure := later }

/-- `capture_savepoint_undo`: the levels with the page's pre-image. -/
def captureSavepointUndo (id : Nat) (data : Bytes size) (pager : Pager size) :
    List (SavepointLevel size) :=
  if pager.savepointCaptureGate.any (fun gate => gate ≤ id) then pager.savepoints
  else if pager.savepoints.getLast?.any (fun level => (level.pages.lookup id).isSome) then
    pager.savepoints
  else if pager.savepoints.all (fun level => level.base.nPages ≤ id) then pager.savepoints
  else pager.savepoints.map (fun level =>
    if id < level.base.nPages then level.record id data else level)

/-- The capture hook of `get_page`. -/
def captureOnFetch (id : Nat) (data : Bytes size) (pager : Pager size) : Pager size :=
  { pager with
    savepoints := if pager.savepoints.isEmpty || pager.undoCaptureSuspended
      then pager.savepoints else pager.captureSavepointUndo id data }

/-- The uncommitted frame a page was spilled to. -/
def spilledFrame (pager : Pager size) (id : Nat) : Option Nat :=
  pager.wal.bind (fun state => state.spilled.lookup id)

/-- The newest committed frame of a page. -/
def committedFrame (pager : Pager size) (id : Nat) : Option Nat :=
  pager.wal.bind (fun state => state.map.lookup id)

def readFrame (pager : Pager size) (index : Nat) : Except Error (Bytes size) :=
  match pager.wal with
  | some state => state.wal.readFrameAt index
  | none => .error (.io "no log attached")

/-- Take a page out of the spill that serves it. -/
def unspill (id : Nat) (pager : Pager size) : Pager size :=
  if (pager.spilledFrame id).isSome then
    { pager with
      wal := pager.wal.map (fun state => { state with spilled := state.spilled.erase id }) }
  else { pager with deleteSpill := Function.update pager.deleteSpill id none }

/-- The miss path of `get_page`: the spill frame, the DELETE-mode spill, the committed
frame, the main file. A page that comes out of a spill is dirty again. -/
def readMiss (id : Nat) : PagerM size (Page size) := fun pager =>
  match pager.spilledFrame id with
  | some index =>
    match pager.readFrame index with
    | .ok data => .ok { data := data, dirty := true } (pager.unspill id)
    | .error error => .error error (pager.unspill id)
  | none =>
    match pager.deleteSpill id with
    | some data => .ok { data := data, dirty := true } (pager.unspill id)
    | none =>
      match pager.committedFrame id with
      | some index =>
        match pager.readFrame index with
        | .ok data => .ok { data := data, dirty := false } pager
        | .error error => .error error pager
      | none =>
        match pager.store[id]? with
        | some data => .ok { data := data, dirty := false } pager
        | none =>
          .error (.corruption s!"short read on page {id}: 0 of {size} bytes") pager

/-- `get_page`. `pins` are the pages whose references the caller still holds. -/
def getPage (pins : List Nat) (id : Nat) : PagerM size (Page size) := do
  let pager ← get
  match pager.cache id with
  | some page =>
    modify (captureOnFetch id page.data)
    return page
  | none =>
    let nPages := pager.nPages
    if nPages ≤ id ∧ id ≠ 0 then
      throw (.corruption s!"page {id} out of range (n_pages={nPages})")
    else if id = 0 ∧ pager.isNew = true then
      let page := FileHeader.initPage0 size
      modify (fun pager => (pager.maybeEvict pins).insertPage 0 page)
      return page
    else
      let page ← readMiss id
      modify (fun pager => (pager.maybeEvict pins).insertPage id page)
      if page.dirty then modify (noteDirty id)
      modify (captureOnFetch id page.data)
      return page

/-- Fetch a page, change its bytes, `touch` it and note it dirty. -/
def writePage (pins : List Nat) (id : Nat) (change : Bytes size → Bytes size) :
    PagerM size Unit := do
  let _ ← getPage pins id
  modify (updatePage id (fun page => { data := change page.data, dirty := true }))
  modify (noteDirty id)

end Pager

end RustSql.Storage
