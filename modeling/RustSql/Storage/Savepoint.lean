import RustSql.Storage.Freelist

/-! SAVEPOINT, RELEASE and ROLLBACK TO on the pager. -/

namespace RustSql.Storage.Pager

open RustSql.Foundation

/-- The bounds derived from the levels: the lowest base floors tail truncation, the
highest one gates the capture of pre-images. -/
def setLevels (levels : List (SavepointLevel size)) (pager : Pager size) : Pager size :=
  { pager with
    savepoints := levels
    savepointMinBase := (levels.map (fun level => level.base.nPages)).min?
    savepointCaptureGate := (levels.map (fun level => level.base.nPages)).max? }

/-- A level without pre-images. -/
def openLevel (name : String) (base : PagerSnapshot) : SavepointLevel size where
  name := name.toLower
  base := base
  pages := ∅

/-- `savepoint`. -/
def savepoint (name : String) (pager : Pager size) : Pager size :=
  pager.setLevels (pager.savepoints ++ [openLevel name pager.snapshot])

/-- `savepoint_index`: the newest level of that name. -/
def savepointIndex : List String → String → Option Nat
  | [], _ => none
  | first :: rest, name =>
    match savepointIndex rest name with
    | some index => some (index + 1)
    | none => if first = name.toLower then some 0 else none

/-- `release_savepoint`: the level goes with everything above it. -/
def releaseSavepoint (name : String) : PagerM size (Option Nat) := do
  match savepointIndex ((← get).savepoints.map SavepointLevel.name) name with
  | none => return none
  | some index =>
    modify (fun pager => pager.setLevels (pager.savepoints.take index))
    return some index

def setSuspended (suspended : Bool) (pager : Pager size) : Pager size :=
  { pager with undoCaptureSuspended := suspended }

/-- The restore loop of `rollback_savepoint`. -/
def restorePages (base : PagerSnapshot) : List (Nat × Bytes size) → PagerM size Unit
  | [] => return ()
  | (id, bytes) :: rest => do
      if id < base.nPages then
        writePage [] id (fun _ => bytes)
      restorePages base rest

/-- Run with the capture of pre-images suspended; the scope ends with the call. -/
def suspendUndoCapture (computation : PagerM size Unit) : PagerM size Unit := fun pager =>
  match computation (pager.setSuspended true) with
  | .ok value after => .ok value (after.setSuspended false)
  | .error error after => .error error (after.setSuspended false)

/-- The last phases of `rollback_savepoint`: forget the pages allocated since, rewind the
counters, and cut the file to its old length. -/
def rewind (base : PagerSnapshot) (pager : Pager size) : Pager size :=
  let dirtyPages := pager.dirtyPages.filter (fun id => id < base.nPages)
  { pager with
    cache := fun id => if base.nPages ≤ id then none else pager.cache id
    dirtyPages := dirtyPages
    lastNotedDirty := none
    wal := pager.wal.map (fun state => { state with
      spilled := AssocMap.retain (fun id => decide (id < base.nPages)) state.spilled })
    pendingTruncate := 0
    nPages := base.nPages
    freelistHead := base.freelistHead
    freelistCount := base.freelistCount
    schemaCookie := base.schemaCookie
    store := pager.store.take base.nPages
    dirtyCountApprox := dirtyPages.length }

/-- `rollback_savepoint`: the level's depth on the stack, if there is one. -/
def rollbackSavepoint (name : String) : PagerM size (Option Nat) := do
  let levels := (← get).savepoints
  match savepointIndex (levels.map SavepointLevel.name) name with
  | none => return none
  | some index =>
    match levels[index]? with
    | none => return none
    | some level =>
      modify (setLevels (levels.take index ++ [openLevel name level.base]))
      suspendUndoCapture
        (restorePages level.base (level.pages.entries.map (fun entry => (entry.1, entry.2))))
      modify (rewind level.base)
      return some (index + 1)

end RustSql.Storage.Pager
