import RustSql.Session.Iter

/-! The change group: changesets folded together, one entry for each row key. -/

namespace RustSql.Session

open RustSql.Foundation RustSql.Types

structure GroupEntry where
  op : Op
  indirect : Bool
  record : List UInt8
deriving DecidableEq, Repr

structure GroupTable where
  name : Name
  nCol : Nat
  abPk : List UInt8
  bPatch : Bool
  chains : HashChains GroupEntry
  nEntry : Nat

structure ChangeGroup where
  tables : List GroupTable
  bPatch : Option Bool
  bRebase : Bool

/-- `skip_record`: so many fields. -/
def skipRecord (a : List UInt8) : Nat → Nat → Checked String Nat
  | pos, 0 => .ok pos
  | pos, n + 1 => do
    let l ← serialLen (a.drop pos)
    skipRecord a (pos + l) n

/-- The rest behind a field outside the key; a key-only record has no such field. -/
def skipUnkeyed (pkOnly : Bool) (a : List UInt8) : Checked String (List UInt8) :=
  if pkOnly then .ok a
  else do
    let n ← serialLen a
    Checked.sliceFrom a n

/-- The new fields of an update, which are behind the old ones unless it is a patchset's. -/
def newHalf (bPatchset : Bool) (nCol : Nat) (a : List UInt8) : Checked String (List UInt8) :=
  if bPatchset then .ok a
  else do
    let skipped ← skipRecord a 0 nCol
    Checked.sliceFrom a skipped

/-- `change_equal` on the first columns of a table. -/
def changeEqual (leftPkOnly rightPkOnly : Bool) :
    List UInt8 → List UInt8 → List UInt8 → Checked String Bool
  | [], _, _ => .ok true
  | pk :: abPk, a1, a2 =>
    if pk ≠ 0 then do
      let n1 ← serialLen a1
      let n2 ← serialLen a2
      if n1 ≠ n2 then .ok false
      else
        let f1 ← Checked.sliceRange a1 0 n1
        let f2 ← Checked.sliceRange a2 0 n2
        if f1 ≠ f2 then .ok false
        else changeEqual leftPkOnly rightPkOnly abPk (a1.drop n1) (a2.drop n2)
    else do
      let a1 ← skipUnkeyed leftPkOnly a1
      let a2 ← skipUnkeyed rightPkOnly a2
      changeEqual leftPkOnly rightPkOnly abPk a1 a2

/-- The field at the front and what is behind it. -/
def cutField (a : List UInt8) : Checked String (List UInt8 × List UInt8) := do
  let n ← serialLen a
  let field ← Checked.sliceRange a 0 n
  let rest ← Checked.sliceFrom a n
  .ok (field, rest)

/-- A field that is there: its first byte is not the one of an undefined value. -/
def defined (field : List UInt8) : Bool := field.headD 0 != typeUndef

/-- `merge_record`: the right field where it is defined, else the left one. -/
def mergeRecord : Nat → List UInt8 → List UInt8 → Checked String (List UInt8)
  | 0, _, _ => .ok []
  | n + 1, a1, a2 => do
    let (f1, a1) ← cutField a1
    let (f2, a2) ← cutField a2
    let rest ← mergeRecord n a1 a2
    .ok ((if defined f2 then f2 else f1) ++ rest)

/-- `merge_value`: the second field where there is one and it is defined. -/
def mergeValue (a1 : List UInt8) (a2 : Option (List UInt8)) :
    Checked String (List UInt8 × List UInt8 × Option (List UInt8)) := do
  let (f1, a1) ← cutField a1
  match a2 with
  | none => .ok (f1, a1, none)
  | some two =>
    let (f2, two) ← cutField two
    .ok (if defined f2 then f2 else f1, a1, some two)

/-- The old and the new value of each column, merged. -/
def mergeColumns : List UInt8 → List UInt8 → Option (List UInt8) → List UInt8 →
    Option (List UInt8) → Checked String (List (UInt8 × List UInt8 × List UInt8))
  | [], _, _, _, _ => .ok []
  | pk :: abPk, o1, o2, n1, n2 => do
    let (old, o1, o2) ← mergeValue o1 o2
    let (new, n1, n2) ← mergeValue n1 n2
    let rest ← mergeColumns abPk o1 o2 n1 n2
    .ok ((pk, old, new) :: rest)

def oldOut (column : UInt8 × List UInt8 × List UInt8) : List UInt8 :=
  if column.1 ≠ 0 ∨ column.2.1 ≠ column.2.2 then column.2.1 else [typeUndef]

def newOut (bPatchset : Bool) (column : UInt8 × List UInt8 × List UInt8) : List UInt8 :=
  if bPatchset = false ∧ (column.1 ≠ 0 ∨ column.2.1 = column.2.2) then [typeUndef] else column.2.2

/-- `merge_update`; none when nothing changes. -/
def mergeUpdate (abPk : List UInt8) (bPatchset : Bool) (old1 : List UInt8)
    (old2 : Option (List UInt8)) (new1 : List UInt8) (new2 : Option (List UInt8)) :
    Checked String (Option (List UInt8)) := do
  let columns ← mergeColumns abPk old1 old2 new1 new2
  if bPatchset then .ok (some (columns.flatMap (newOut true)))
  else if ∃ column ∈ columns, column.1 = 0 ∧ column.2.1 ≠ column.2.2 then
    .ok (some (columns.flatMap oldOut ++ columns.flatMap (newOut false)))
  else .ok none

/-- The merge of a rebaser's group. -/
def rebaseRecord (bIndirect : Bool) :
    List UInt8 → List UInt8 → List UInt8 → Checked String (List UInt8)
  | [], _, _ => .ok []
  | pk :: abPk, a1, a2 => do
    let (f1, a1) ← cutField a1
    let (f2, a2) ← cutField a2
    let rest ← rebaseRecord bIndirect abPk a1 a2
    let field :=
      if f1.headD 0 = typeReplaced ∨ (pk = 0 ∧ bIndirect = true) then [typeReplaced]
      else if defined f2 then f2 else f1
    .ok (field ++ rest)

/-- A merged change; without a record the entry is dropped. -/
abbrev Merged := Op × Bool × Option (List UInt8)

/-- `change_merge`; none keeps the entry as it is. -/
def changeMerge (abPk : List UInt8) (nCol : Nat) (bRebase bPatchset : Bool) (exist : GroupEntry)
    (op2 : Op) (bIndirect : Bool) (aRec : List UInt8) : Checked String (Option Merged) := do
  if bRebase then
    if exist.op = .delete ∧ exist.indirect = true then
      .ok (some (exist.op, exist.indirect, some exist.record))
    else
      let out ← rebaseRecord bIndirect (abPk.take nCol) exist.record aRec
      .ok (some (op2, bIndirect || exist.indirect, some out))
  else
    let indirect := bIndirect && exist.indirect
    match exist.op, op2 with
    | .insert, .insert | .update, .insert | .delete, .update | .delete, .delete => .ok none
    | .insert, .delete => .ok (some (.insert, false, none))
    | .insert, .update => do
      let news ← newHalf bPatchset nCol aRec
      let out ← mergeRecord nCol exist.record news
      .ok (some (.insert, indirect, some out))
    | .delete, .insert =>
      if bPatchset then .ok (some (.update, indirect, some aRec))
      else do
        let out ← mergeUpdate (abPk.take nCol) bPatchset exist.record none aRec none
        .ok (some (.update, indirect, out))
    | .update, .update => do
      let a1 ← newHalf bPatchset nCol exist.record
      let a2 ← newHalf bPatchset nCol aRec
      let out ← mergeUpdate (abPk.take nCol) bPatchset aRec (some exist.record) a1 (some a2)
      .ok (some (.update, indirect, out))
    | .update, .delete =>
      if bPatchset then .ok (some (.delete, indirect, some aRec))
      else do
        let out ← mergeRecord nCol aRec exist.record
        .ok (some (.delete, indirect, some out))

def bPkOnlyEntry (op : Op) (bPatch : Bool) : Bool := op = .delete && bPatch

namespace GroupTable

def new (name : Name) (nCol : Nat) (abPk : List UInt8) (bPatch : Bool) : GroupTable :=
  ⟨name, nCol, abPk, bPatch, .empty, 0⟩

/-- Are the key columns of a change those of the table? -/
def compatible (t : GroupTable) (nCol : Nat) (pk : List UInt8) : Bool :=
  decide (nCol ≤ t.abPk.length) &&
    ((pk.take nCol).zip t.abPk).all fun flags => (flags.2 != 0) == (flags.1 != 0)

def growHash (t : GroupTable) : Checked String GroupTable := do
  let chains ← t.chains.grow
    (fun n e => recordPkHash t.abPk e.record (bPkOnlyEntry e.op t.bPatch) n) 256 t.nEntry
  .ok { t with chains }

/-- The entry with the key of a change, and its bucket. -/
def existing (t : GroupTable) (change : Change) : Checked String (Nat × Option Nat) := do
  let bPkOnly := bPkOnlyEntry change.op change.patchset
  let h ← recordPkHash t.abPk change.raw bPkOnly t.chains.buckets.length
  let found ← t.chains.find (.error .slice)
    (fun e => changeEqual (bPkOnlyEntry e.op t.bPatch) bPkOnly (t.abPk.take change.nCol) e.record
      change.raw)
    (t.chains.chain h)
  .ok (h, found)

/-- The entry at a place takes a change. -/
def merge (t : GroupTable) (bRebase : Bool) (h id : Nat) (change : Change) :
    Checked String GroupTable :=
  match t.chains.live id with
  | none => .error .slice
  | some e => do
    let merged ← changeMerge t.abPk change.nCol bRebase t.bPatch e change.op change.indirect
      change.raw
    match merged with
    | none => .ok t
    | some (op, indirect, some record) =>
      .ok { t with chains := t.chains.replace id ⟨op, indirect, record⟩ }
    | some (_, _, none) => .ok { t with chains := t.chains.remove h id, nEntry := t.nEntry - 1 }

/-- The part of `add_one` on its table. -/
def addChange (t : GroupTable) (bRebase : Bool) (change : Change) : Checked String GroupTable := do
  let t ← t.growHash
  let (h, found) ← t.existing change
  match found with
  | none =>
    .ok { t with
      chains := t.chains.insert h ⟨change.op, change.indirect, change.raw⟩
      nEntry := t.nEntry + 1 }
  | some id => t.merge bRebase h id change

end GroupTable

namespace ChangeGroup

def new : ChangeGroup := ⟨[], none, false⟩

def mixedMessage : String := "cannot mix changesets and patchsets"

def mismatchMessage : String := "primary key mismatch"

/-- The table of a change, a new one behind the others if need be. -/
def findTable (g : ChangeGroup) (change : Change) : ChangeGroup × Nat :=
  match g.tables.findIdx? fun t => eqIgnoreAsciiCase t.name change.table with
  | some i => (g, i)
  | none =>
    ({ g with tables := g.tables ++ [.new change.table change.nCol change.pk change.patchset] },
      g.tables.length)

def addOne (g : ChangeGroup) (change : Change) : Checked String ChangeGroup :=
  if g.bPatch.getD change.patchset ≠ change.patchset then Checked.fail mixedMessage
  else
    let (g, i) := { g with bPatch := some change.patchset }.findTable change
    match g.tables[i]? with
    | none => .error .slice
    | some t =>
      if t.compatible change.nCol change.pk then do
        let t ← t.addChange g.bRebase change
        .ok { g with tables := g.tables.set i t }
      else Checked.fail mismatchMessage

def add (g : ChangeGroup) (cs : List UInt8) : Checked String ChangeGroup :=
  (ChangesetIter.start cs false).foldChanges addOne g

def headerBytes (t : GroupTable) : List UInt8 :=
  (if t.bPatch then 0x50 else 0x54) :: (putVarint t.nCol ++ t.abPk ++ t.name ++ [0])

def entryBytes (e : GroupEntry) : List UInt8 :=
  e.op.code :: (if e.indirect then 1 else 0) :: e.record

def tableBytes (t : GroupTable) : List UInt8 :=
  if t.nEntry = 0 then []
  else headerBytes t ++ t.chains.buckets.flatMap fun chain => chain.flatMap fun id =>
    match t.chains.live id with
    | some e => entryBytes e
    | none => []

def output (g : ChangeGroup) : List UInt8 := g.tables.flatMap tableBytes

end ChangeGroup

/-- `concat`: the changeset that applies `a`, then `b`. -/
def concat (a b : List UInt8) : Checked String (List UInt8) := do
  let grp ← ChangeGroup.new.add a
  let grp ← grp.add b
  .ok grp.output

end RustSql.Session
