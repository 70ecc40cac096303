import RustSql.Storage.Pager

/-! The trunk freelist: allocation, freeing, and truncation of the file's tail. A trunk
page holds `[next trunk, K, K page numbers]`, four little-endian bytes each. -/

namespace RustSql.Storage.Pager

open RustSql.Foundation

/-- How many page numbers a trunk page has room for. -/
def trunkCap (size : Nat) : Nat := (size - 8) / 4

def trunkNext (data : Bytes size) : Nat := data.readU32 0

def trunkCount (data : Bytes size) : Nat := data.readU32 4

def trunkEntry (data : Bytes size) (index : Nat) : Nat := data.readU32 (8 + index * 4)

def setFreelistHead (head : Nat) (pager : Pager size) : Pager size :=
  { pager with freelistHead := head }

def setFreelistCount (count : Nat) (pager : Pager size) : Pager size :=
  { pager with freelistCount := count }

def bumpFreelistCount (pager : Pager size) : Pager size :=
  pager.setFreelistCount ((pager.freelistCount + 1) % 2 ^ 32)

def setNPages (count : Nat) (pager : Pager size) : Pager size :=
  { pager with nPages := count }

/-- A count without a chain is dropped before an allocation looks at it. -/
def healFreelist (pager : Pager size) : Pager size :=
  pager.setFreelistCount
    (if 0 < pager.freelistCount ∧ pager.freelistHead = 0 then 0 else pager.freelistCount)

/-- Take one page off the freelist: the last entry of the head trunk, or the head trunk
itself once it is empty. The page comes back zeroed. -/
def popFreelist (pins : List Nat) : PagerM size Nat := do
  let head := (← get).freelistHead
  if head = 0 then
    throw (.corruption "freelist count > 0 but freelist head is 0 (corrupt freelist)")
  let page ← getPage pins head
  if size < 8 then throw (.corruption s!"freelist trunk {head} too small")
  let next := trunkNext page.data
  let entries := trunkCount page.data
  -- The count goes first, so that a failing pop under-reports.
  if (← get).freelistCount = 0 then throw (.corruption "freelist underflow")
  modify (fun pager => pager.setFreelistCount (pager.freelistCount - 1))
  let freed ←
    if 0 < entries then do
      let last := entries - 1
      let page ← getPage (head :: pins) head
      if size < 8 + last * 4 + 4 then
        throw (.corruption s!"freelist trunk {head} entry {last} out of range")
      modify (updatePage head (fun page =>
        { data := page.data.writeU32 4 last, dirty := true }))
      modify (noteDirty head)
      pure (trunkEntry page.data last)
    else do
      modify (setFreelistHead next)
      writePage (head :: pins) head (fun _ => Bytes.zero size)
      pure head
  let _ ← getPage (head :: pins) freed
  modify (updatePage freed (fun _ => { data := Bytes.zero size, dirty := true }))
  return freed

/-- `allocate_page`. -/
def allocatePage : PagerM size Nat := do
  modify healFreelist
  if 0 < (← get).freelistCount then
    let freed ← popFreelist []
    modify noteWrite
    modify (noteDirty freed)
    return freed
  else
    let id := (← get).nPages
    modify (setNPages ((id + 1) % 2 ^ 32))
    modify (fun pager => (pager.maybeEvict []).insertPage id (Page.new size).touch)
    modify noteWrite
    modify (noteDirty id)
    return id

/-- The freelist phase of `allocate_pages_opts`: up to `wanted` more pages behind `taken`,
whose references are held. -/
def popPages : Nat → List Nat → PagerM size (List Nat)
  | 0, taken => return taken
  | wanted + 1, taken => do
      if (← get).freelistCount = 0 then return taken
      let freed ← popFreelist taken
      modify (noteDirty freed)
      popPages wanted (taken ++ [freed])

/-- The dirty tracking of `allocate_pages_opts`, in one go for the whole extent. -/
def noteAllocated (out : List Nat) (pager : Pager size) : Pager size :=
  let dirtyPages := out.foldl (fun pages id => pages.insert id) pager.dirtyPages
  { pager with
    dirtyPages := dirtyPages
    lastNotedDirty := out.getLast?
    dirtyCountApprox := dirtyPages.length }

/-- `allocate_pages_opts`. `fresh` is what a page of file growth starts with: zeros, or
for `zeroed: false` whatever the buffer held. -/
def allocatePagesOpts (wanted : Nat) (fresh : Bytes size) : PagerM size (List Nat) := do
  if wanted = 0 then return []
  modify healFreelist
  let taken ← popPages wanted []
  let remaining := wanted - taken.length
  let first := (← get).nPages
  let grown := (List.range remaining).map (fun index => (first + index) % 2 ^ 32)
  if 0 < remaining then
    modify (setNPages ((first + remaining) % 2 ^ 32))
    modify (fun pager => grown.foldl
      (fun pager id => pager.insertPage id { data := fresh, dirty := true })
      (pager.maybeEvict taken))
  let out := taken ++ grown
  if !out.isEmpty then
    modify noteWrite
    modify (noteAllocated out)
  return out

/-- `allocate_pages`. -/
def allocatePages (wanted : Nat) : PagerM size (List Nat) :=
  allocatePagesOpts wanted (Bytes.zero size)

/-- A page that becomes the head trunk in front of `head`. -/
def newTrunk (size head : Nat) : Bytes size :=
  ((Bytes.zero size).writeU32 0 head).writeU32 4 0

/-- Append `id` to the entries of a trunk that has `entries` of them. -/
def appendEntry (data : Bytes size) (entries id : Nat) : Bytes size :=
  (data.writeU32 (8 + entries * 4) id).writeU32 4 (entries + 1)

/-- Neither the file nor a committed frame has the page. -/
def unwritten (id : Nat) (pager : Pager size) : Bool :=
  decide (pager.store.length % 2 ^ 32 ≤ id) && (pager.committedFrame id).isNone

/-- `free_page`. -/
def freePage (id : Nat) : PagerM size Unit := do
  if id = 0 then throw (.invalidArgument "cannot free page 0")
  let _ ← getPage [] id
  let head := (← get).freelistHead
  if id = head then return ()
  let becameTrunk ←
    if head = 0 then pure true
    else do
      let trunk ← getPage [id] head
      let entries := trunkCount trunk.data
      if entries < trunkCap size ∧ 8 + entries * 4 + 4 ≤ size then
        modify (updatePage head (fun page =>
          { data := appendEntry page.data entries id, dirty := true }))
        modify (noteDirty head)
        pure false
      else pure true
  if becameTrunk then
    modify (updatePage id (fun _ => { data := newTrunk size head, dirty := true }))
    modify (noteDirty id)
    modify (setFreelistHead id)
  else
    -- A freed entry is zeroed in the cache only; it stays dirty when no medium has it.
    let dirty := (← get).unwritten id
    modify (updatePage id (fun _ => { data := Bytes.zero size, dirty := dirty }))
    if dirty then modify (noteDirty id)
  modify bumpFreelistCount
  modify noteWrite

/-- The lowest `k ≥ 1` with all of `[k, n)` freed. -/
def tailBound (freed : List Nat) : Nat → Nat
  | 0 => 0
  | 1 => 1
  | bound + 2 => if bound + 1 ∈ freed then tailBound freed (bound + 1) else bound + 2

/-- Overwrite the entry array of a trunk from `index` on. -/
def writeEntries (data : Bytes size) (index : Nat) : List Nat → Bytes size
  | [] => data
  | entry :: rest => writeEntries (data.writeU32 (8 + index * 4) entry) (index + 1) rest

def compactTrunk (data : Bytes size) (entries : List Nat) : Bytes size :=
  writeEntries (data.writeU32 4 entries.length) 0 entries

/-- The accumulators of the freelist walk of `truncate_tail`. -/
structure TruncateWalk where
  newHead : Nat
  prevKept : Nat
  keptPages : Nat
  orphans : List Nat

/-- The entries `truncate_tail` reads off a trunk. -/
def trunkEntries (data : Bytes size) : List Nat :=
  (List.range (min (trunkCount data) (trunkCap size))).map (trunkEntry data)

/-- Rewrite the entry array of a kept trunk that lost entries. -/
def compactKept (cur : Nat) (entries kept : List Nat) : PagerM size Unit := do
  if kept.length ≠ entries.length then
    writePage [] cur (fun data => compactTrunk data kept)

/-- Link the trunk kept before to this one. -/
def relinkKept (walk : TruncateWalk) (cur : Nat) : PagerM size Unit := do
  if walk.newHead ≠ 0 then
    writePage [] walk.prevKept (fun data => data.writeU32 0 cur)

def TruncateWalk.keep (walk : TruncateWalk) (cur : Nat) (kept : List Nat) : TruncateWalk where
  newHead := if walk.newHead = 0 then cur else walk.newHead
  prevKept := cur
  keptPages := (walk.keptPages + 1 + kept.length) % 2 ^ 32
  orphans := walk.orphans

/-- The freelist walk of `truncate_tail`: trunks from `bound` on go, the others keep their
entries below it and are linked in the order they come. -/
def truncateWalk (bound : Nat) : Nat → Nat → TruncateWalk → PagerM size TruncateWalk
  | 0, _, walk => return walk
  | steps + 1, cur, walk =>
    if cur = 0 then return walk
    else do
      let page ← getPage [] cur
      let entries := trunkEntries page.data
      let kept := entries.filter (fun entry => entry < bound)
      if bound ≤ cur then
        truncateWalk bound steps (trunkNext page.data)
          { walk with orphans := walk.orphans ++ kept }
      else
        compactKept cur entries kept
        relinkKept walk cur
        truncateWalk bound steps (trunkNext page.data) (walk.keep cur kept)

/-- Cache slots below this id are dense; the others live in an overflow map. -/
def pageVecDirectLimit : Nat := 2 ^ 20

/-- `set_len`, in pages. -/
def setLen (store : List (Bytes size)) (pages : Nat) : List (Bytes size) :=
  if pages ≤ store.length then store.take pages
  else store ++ List.replicate (pages - store.length) (Bytes.zero size)

/-- The last phase of `truncate_tail`: forget the pages from `bound` on. -/
def dropTail (bound : Nat) (pager : Pager size) : Pager size :=
  { pager with
    cache := fun id =>
      if bound ≤ id ∧ (id < pager.nPages ∨ pageVecDirectLimit ≤ id) then none
      else pager.cache id
    dirtyPages := pager.dirtyPages.filter (fun id => id < bound)
    lastNotedDirty := none
    wal := pager.wal.map (fun state =>
      { state with map := AssocMap.retain (fun id => decide (id < bound)) state.map })
    nPages := bound
    pendingTruncate := if pager.isMemory then 0 else bound
    dirtyCountApprox := pager.dirtyCountApprox + 1
    store := if pager.isMemory then setLen pager.store bound else pager.store }

/-- `truncate_tail`: the new page bound, or 0 when nothing was truncated. -/
def truncateTail (freed : List Nat) : PagerM size Nat := do
  if freed.isEmpty then return 0
  let pager ← get
  let n := pager.nPages
  if n ≤ 1 then return 0
  let floor := pager.savepointMinBase.getD 0
  let bound := max (tailBound freed n) floor
  if bound = n then return 0
  let steps := max ((pager.freelistCount + n) % 2 ^ 32) 1
  let walk ← truncateWalk bound steps pager.freelistHead
    { newHead := 0, prevKept := 0, keptPages := 0, orphans := [] }
  modify (setFreelistHead walk.newHead)
  modify (setFreelistCount walk.keptPages)
  walk.orphans.forM freePage
  modify (dropTail bound)
  return bound

end RustSql.Storage.Pager
