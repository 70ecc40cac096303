import RustSql.Foundation.SearchTreePrune
import RustSql.Storage.RangeReads

/-! Bulk deletes in rowid order: a pinned leaf, a run of rowids in its bounds, and the upward cascade
that unlinks an emptied leaf. -/

namespace RustSql.Storage

open RustSql.Foundation

/-- The pages, those that were freed with what they held, and the overflow chains that were
freed. -/
structure DeleteState where
  store : TableStore
  freed : List (Nat × Except Error TablePage)
  chains : List Nat

abbrev DeleteM := EStateM Halt DeleteState

def TableStore.put (store : TableStore) (id : Nat) (page : Except Error TablePage) :
    TableStore where
  page other := if other = id then page else store.page other
  assemble := store.assemble

def fetchPage (id : Nat) : DeleteM TablePage := fun state =>
  match state.store.page id with
  | .ok page => .ok page state
  | .error error => .error (.raised error) state

def putPage (id : Nat) (page : TablePage) : DeleteM Unit :=
  modify fun state => ⟨state.store.put id (.ok page), state.freed, state.chains⟩

/-- The first overflow page of a cell; 0 is none. -/
def LeafCell.chain (cell : LeafCell) : Nat :=
  match cell.1 with
  | .tableLeafOverflow _ _ _ chain => chain.toNat
  | _ => 0

def freeOverflowChain (chain : Nat) : DeleteM Unit :=
  if chain = 0 then return ()
  else modify fun state => ⟨state.store, state.freed, chain :: state.chains⟩

section Code

variable (garbage : Nat → Except Error TablePage) (depth root : Nat)

/-- `free_page`; the page holds garbage afterwards. -/
def freePage (id : Nat) : DeleteM Unit :=
  modify fun state =>
    ⟨state.store.put id (garbage id), (id, state.store.page id) :: state.freed, state.chains⟩

def unlinkChildReference (parent child : Nat) : DeleteM Bool := do
  let page ← fetchPage parent
  match page with
  | .interior cells right =>
    match cells.findIdx? (fun cell => cell.1 == child) with
    | some i => do
      putPage parent (.interior (cells.eraseIdx i) right)
      return (cells.eraseIdx i).length == 0 && right == 0
    | none =>
      if right = child then do
        let last := (cells.getLast?.map Prod.fst).getD 0
        putPage parent (.interior cells.dropLast last)
        return last == 0 && decide (cells.length ≤ 1)
      else return false
  | _ => return false

/-- The interior pages of the path come with the lowest first. -/
def unlinkChildCascade : List Nat → Nat → DeleteM Unit
  | [], child =>
    if child = 0 ∨ child = root then return ()
    else do
      let childless ← unlinkChildReference root child
      freePage garbage child
      if childless = false then return () else putPage root (.leaf [])
  | parent :: up, child =>
    if child = 0 ∨ child = root then return ()
    else do
      let childless ← unlinkChildReference parent child
      freePage garbage child
      if childless = false then return ()
      else if parent = root then putPage root (.leaf [])
      else unlinkChildCascade up parent

def leafRowidBounds (leaf : Nat) : DeleteM (Option (Int64 × Int64)) := do
  let page ← fetchPage leaf
  match page with
  | .leaf cells =>
    match cells.head?, cells.getLast? with
    | some first, some last => return some (first.rowid, last.rowid)
    | _, _ => return none
  | _ => return none

/-- `delete_from_page` on a leaf. -/
def deleteFromPage (id : Nat) (rowid : Int64) : DeleteM Bool := do
  let page ← fetchPage id
  match page with
  | .leaf cells =>
    let pos := partitionPoint (fun cell => cell.rowid < rowid) cells
    match cells[pos]? with
    | none => return false
    | some cell =>
      if cell.rowid = rowid then do
        freeOverflowChain cell.chain
        putPage id (.leaf (cells.eraseIdx pos))
        return true
      else return false
  | _ => throw (.raised (.corruption "overflow page reached as a btree node in delete_from_page"))

/-- The loop over a run of rowids; the answer is how many were there. -/
def deleteRun (leaf : Nat) : List Int64 → DeleteM Nat
  | [] => return 0
  | rowid :: rest => do
    let found ← deleteFromPage leaf rowid
    let later ← deleteRun leaf rest
    return (if found then 1 else 0) + later

def freeChains : List LeafCell → DeleteM Unit
  | [] => return ()
  | cell :: rest => do
    freeOverflowChain cell.chain
    freeChains rest

/-- The page that the descent for a rowid ends at, its path, and whether the right-most child was
missing. -/
def descendTo (rowid : Int64) : Nat → Nat → List Nat → DeleteM (Nat × List Nat × Bool)
  | 0, _, _ => throw .exhausted
  | depth + 1, id, path => do
    let page ← fetchPage id
    match page with
    | .leaf _ => return (id, path, false)
    | .interior cells right =>
      let next := ((cells[partitionPoint (fun cell => cell.2 < rowid) cells]?).map Prod.fst).getD
        right
      if next = 0 then return (id, path, true) else descendTo rowid depth next (id :: path)
    | .other kind =>
      throw (.raised (.corruption s!"unexpected page type in bulk delete: {kind.debug}"))

/-- The sticky leaf, its bounds and its path. -/
structure Cursor where
  sticky : Option Nat
  lo : Int64
  hi : Int64
  path : List Nat

/-- Pins the leaf of the next rowid; a rowid that cannot be there is skipped. -/
def pin (rowids : List Int64) (cursor : Cursor) : DeleteM (List Int64 × Cursor) :=
  match rowids with
  | [] => return (rowids, cursor)
  | rowid :: later =>
    if cursor.sticky.isNone || decide (rowid < cursor.lo) || decide (cursor.hi < rowid) then do
      let (page, path, missed) ← descendTo rowid depth root []
      let pending := if missed then later else rowids
      let bounds ← leafRowidBounds page
      match bounds with
      | none => return (pending.drop 1, ⟨none, cursor.lo, cursor.hi, path⟩)
      | some (lo, hi) => return (pending, ⟨some page, lo, hi, path⟩)
    else return (rowids, cursor)

/-- The work on the run of rowids in the bounds of the pinned leaf: how many rows went, and the
cursor behind it. -/
def deleteInLeaf (leaf : Nat) (run : List Int64) (cursor : Cursor) : DeleteM (Nat × Cursor) := do
  let page ← fetchPage leaf
  match page with
  | .leaf cells =>
    if run.length = cells.length ∧ 0 < cells.length ∧ run.head? = some cursor.lo ∧
        run.getLast? = some cursor.hi then do
      freeChains cells
      putPage leaf (.leaf [])
      unlinkChildCascade garbage root cursor.path leaf
      return (cells.length, ⟨none, cursor.lo, cursor.hi, cursor.path⟩)
    else do
      let count ← deleteRun leaf run
      let bounds ← leafRowidBounds leaf
      match bounds with
      | none => return (count, ⟨none, cursor.lo, cursor.hi, cursor.path⟩)
      | some (lo, hi) => return (count, ⟨some leaf, lo, hi, cursor.path⟩)
  | _ => return (0, cursor)

/-- The loop of `delete_rowids_inorder`; the first argument bounds its rounds. -/
def deleteLoop : Nat → List Int64 → Cursor → Nat → DeleteM Nat
  | _, [], _, deleted => return deleted
  | 0, _ :: _, _, _ => throw .exhausted
  | rounds + 1, rowid :: later, cursor, deleted => do
    let (pending, cursor) ← pin depth root (rowid :: later) cursor
    match cursor.sticky with
    | none => deleteLoop rounds pending cursor deleted
    | some leaf =>
      let count := partitionPoint (fun rowid => rowid ≤ cursor.hi) pending
      if count = 0 then deleteLoop rounds pending ⟨none, cursor.lo, cursor.hi, cursor.path⟩ deleted
      else do
        let (gone, cursor) ← deleteInLeaf garbage root leaf (pending.take count) cursor
        deleteLoop rounds (pending.drop count) cursor (deleted + gone)

/-- `delete_rowids_inorder`. -/
def TableStore.deleteRowidsInorder (store : TableStore) (rounds : Nat) (rowids : List Int64) :
    EStateM.Result Halt DeleteState Nat :=
  deleteLoop garbage depth root rounds rowids ⟨none, Int64.minValue, Int64.maxValue, []⟩ 0
    ⟨store, [], []⟩

end Code

end RustSql.Storage
