import RustSql.Foundation.HashChains
import RustSql.Session.PrimaryKey

/-! The capture side of a session: the first change of each row key, in a hash that grows. -/

namespace RustSql.Session

open RustSql.Foundation RustSql.Types

/-- A `str` by its bytes. -/
abbrev Name := List UInt8

def ascii (s : String) : Name := s.toList.map fun c => UInt8.ofNat c.toNat

def toAsciiLower (b : UInt8) : UInt8 := if 65 ≤ b ∧ b ≤ 90 then b + 32 else b

def eqIgnoreAsciiCase (a b : Name) : Bool := a.map toAsciiLower == b.map toAsciiLower

/-- A column; only a member of the primary key has a position in it. -/
structure Column where
  name : Name
  primaryKey : Bool
  pkSeq : UInt8
  /-- The value of `default_value_of`. -/
  defaultValue : Datum
  member : primaryKey = false → pkSeq = 0

structure Table where
  name : Name
  columns : List Column
  withoutRowid : Bool

structure SessionChange where
  op : Op
  indirect : Bool
  record : List UInt8
deriving DecidableEq, Repr

structure SessionTable where
  name : Name
  bRowid : Bool
  nCol : Nat
  abPk : List UInt8
  azCol : List Name
  bStat1 : Bool
  initialized : Bool
  untrackable : Bool
  chains : HashChains SessionChange
  freeIds : List Nat
  nEntry : Nat

def SessionTable.new (name : Name) : SessionTable :=
  ⟨name, false, 0, [], [], false, false, false, .empty, [], 0⟩

structure SessionCore where
  enable : Bool
  indirect : Bool
  zDb : Name
  autoAttach : Bool
  implicitPk : Bool
  tables : List SessionTable
  rc : Option String
  filter : Option (Name → Bool)

/-- One preupdate event: its rows have all columns of its table. -/
structure Event where
  op : Op
  tbl : Table
  rowid : Int64
  old : Option (List Datum)
  new : Option (List Datum)
  depth : Nat
  oldWide : op ≠ .insert → old.map List.length = some tbl.columns.length
  newWide : op ≠ .delete → new.map List.length = some tbl.columns.length
  statWide : eqIgnoreAsciiCase tbl.name (ascii "sqlite_stat1") = true → tbl.columns.length = 3

def sessionsRowid : Name := ascii "_rowid_"

def schemaChanged : String := "database schema has changed"

namespace SessionTable

/-- The synthetic column in front of the declared ones. -/
def offset (t : SessionTable) : Nat := if t.bRowid then 1 else 0

/-- The declared columns of the model. -/
def nDbCol (t : SessionTable) : Nat := t.nCol - t.offset

/-- `init_table_model`. -/
def initTableModel (t : SessionTable) (tbl : Table) (implicitPk : Bool) : SessionTable :=
  let bStat1 := eqIgnoreAsciiCase t.name (ascii "sqlite_stat1")
  let hasDeclPk := tbl.columns.any (·.primaryKey)
  let bRowid := implicitPk && !tbl.withoutRowid && !hasDeclPk && !bStat1
  let abPk := (if bRowid then [1] else []) ++ tbl.columns.map (·.pkSeq)
  let azCol := (if bRowid then [sessionsRowid] else []) ++ tbl.columns.map (·.name)
  { t with
    bRowid
    nCol := azCol.length
    azCol
    -- the pretend key (tbl, idx) of the three columns
    abPk := if bStat1 then [1, 2, 0] else abPk
    bStat1
    untrackable := !bRowid && !hasDeclPk && !bStat1
    initialized := true }

/-- `reinit_and_pad`: the model after the call, and its error. -/
def reinitAndPad (t : SessionTable) (tbl : Table) (implicitPk : Bool) :
    SessionTable × Option String :=
  let fresh := t.initTableModel tbl implicitPk
  let moved := (List.range fresh.abPk.length).any fun i =>
    let isPk := fresh.abPk.getD i 0 != 0
    let wasPk := decide (i < t.abPk.length) && t.abPk.getD i 0 != 0
    (decide (i < t.nCol) && isPk != wasPk) || (decide (t.nCol ≤ i) && isPk)
  if fresh.nCol < t.nCol ∨ fresh.bRowid ≠ t.bRowid ∨ moved then (fresh, some schemaChanged)
  else
    let padding := ((tbl.columns.drop t.nDbCol).take (fresh.nCol - t.nCol)).flatMap
      fun c => fieldOf (some c.defaultValue.1)
    let entries := t.chains.entries.map (Option.map fun e => { e with record := e.record ++ padding })
    ({ fresh with chains := { t.chains with entries } }, none)

end SessionTable

/-- The stat1 view of an event value. -/
def stat1View (bStat1 : Bool) (col : Nat) (v : Datum) : Datum :=
  if bStat1 ∧ col = 1 ∧ v.1 = .null then ⟨.blob [], Nat.two_pow_pos 63⟩ else v

def viewRow (bStat1 : Bool) (row : List Datum) : List Datum :=
  row.mapIdx fun col v => stat1View bStat1 col v

/-- The side of an event whose key counts. -/
def keySide (sop : Op) (bNewKey : Bool) (old new : Option (List Datum)) : Option (List Datum) :=
  if bNewKey ∨ sop = .insert then new else old

def hashValue (h : UInt32) : Value → Option UInt32
  | .integer x => some (hashI64 (hashType h typeInt) x.toUInt64)
  | .real x => some (hashI64 (hashType h typeReal) x.bits)
  | .text x => some (hashBlob (hashType h typeText) (asStr x))
  | .blob x => some (hashBlob (hashType h typeBlob) x)
  | .null => none

/-- The hash of the key values of a row; none for a NULL among them. -/
def hashSide : List UInt8 → List Datum → UInt32 → Option UInt32
  | _, [], h => some h
  | abPk, v :: side, h =>
    if abPk.headD 0 = 0 then hashSide abPk.tail side h
    else (hashValue h v.1).bind (hashSide abPk.tail side)

/-- The loop of `record_matches_pk`, from a column on. -/
def matchesFrom (side : List Datum) (offset : Nat) :
    Nat → List UInt8 → List UInt8 → Checked String Bool
  | _, [], _ => .ok true
  | i, flag :: abPk, rec => do
    if flag ≠ 0 then
      if i < offset then .error .overflow
      else
        let v ← Checked.get side (i - offset)
        let l ← serialLen rec
        let field ← Checked.sliceRange rec 0 l
        if field ≠ fieldOf (some v.1) then .ok false
        else matchesFrom side offset (i + 1) abPk (rec.drop l)
    else
      let l ← serialLen rec
      matchesFrom side offset (i + 1) abPk (rec.drop l)

namespace SessionTable

/-- The hash of the key of an event, when the event has one here. -/
def eventHash (t : SessionTable) (rowid : Int64) (side : Option (List Datum)) : Option UInt32 :=
  if t.bRowid then some (hashI64 0 rowid.toUInt64)
  else
    match side with
    | some s => if s.length = t.nDbCol then hashSide t.abPk s 0 else none
    | none => none

def recordMatchesPk (t : SessionTable) (rec : List UInt8) (side : Option (List Datum)) :
    Checked String Bool :=
  match side with
  | some s => if s.length + t.offset = t.nCol then matchesFrom s t.offset 0 t.abPk rec else .ok false
  | none => .ok false

/-- Is a stored record at the key of an event? -/
def sameKey (t : SessionTable) (rowid : Int64) (side : Option (List Datum)) (e : SessionChange) :
    Checked String Bool :=
  if t.bRowid then
    if e.record.head? = some typeInt then do
      let i ← getI64 (e.record.drop 1)
      .ok (i == rowid.toUInt64)
    else .ok false
  else t.recordMatchesPk e.record side

/-- The entry for the key of an event, by its bucket. -/
def existing (t : SessionTable) (h : UInt32) (rowid : Int64) (side : Option (List Datum)) :
    Checked String (Nat × Option Nat) := do
  let bucket ← bucketOf h t.chains.buckets.length
  let found ← t.chains.find (.ok false) (t.sameKey rowid side) (t.chains.chain bucket)
  .ok (bucket, found)

/-- The declared columns of a record: the full old row, or only the key of a new one. -/
def recordColumns (t : SessionTable) (sop : Op) (old new : Option (List Datum)) :
    Checked String (List (List UInt8)) :=
  (List.range t.nDbCol).mapM fun i => do
    let pk ← Checked.get t.abPk (i + t.offset)
    let source := if sop = .insert then (if pk ≠ 0 then new else none) else old
    match source with
    | some s => do
      let v ← Checked.get s i
      .ok (fieldOf (some v.1))
    | none => .ok (fieldOf none)

def serialize (t : SessionTable) (sop : Op) (rowid : Int64) (old new : Option (List Datum)) :
    Checked String (List UInt8) := do
  let columns ← t.recordColumns sop old new
  .ok ((if t.bRowid then typeInt :: putI64 rowid.toUInt64 else []) ++ columns.flatten)

def growHash (t : SessionTable) : Checked String SessionTable := do
  let chains ← t.chains.grow (fun n e => recordPkHash t.abPk e.record false n) 256 t.nEntry
  .ok { t with chains }

/-- A new entry, in a free slot if there is one. -/
def addEntry (t : SessionTable) (bucket : Nat) (entry : SessionChange) : SessionTable :=
  match t.freeIds with
  | [] => { t with chains := t.chains.insert bucket entry, nEntry := t.nEntry + 1 }
  | free :: freeIds =>
    { t with
      chains := ⟨t.chains.buckets.modify bucket (free :: ·), t.chains.entries.set free (some entry)⟩
      freeIds
      nEntry := t.nEntry + 1 }

/-- A direct change clears the indirect mark of an entry. -/
def clearIndirect (t : SessionTable) (id : Nat) : SessionTable :=
  match t.chains.live id with
  | some e => { t with chains := t.chains.replace id { e with indirect := false } }
  | none => t

/-- The old values a change of this kind has. -/
def oldView (t : SessionTable) (sop : Op) (event : Event) : Option (List Datum) :=
  if sop ≠ .insert then event.old.map (viewRow t.bStat1) else none

def newView (t : SessionTable) (sop : Op) (event : Event) : Option (List Datum) :=
  if sop ≠ .delete then event.new.map (viewRow t.bStat1) else none

/-- `record_one` on the table it finds. -/
def recordOne (t : SessionTable) (indirect : Bool) (sop : Op) (event : Event) (bNewKey : Bool) :
    Checked String SessionTable := do
  let old := t.oldView sop event
  let new := t.newView sop event
  let side := keySide sop bNewKey old new
  match t.eventHash event.rowid side with
  | none => .ok t
  | some h => do
    let t ← t.growHash
    let (bucket, found) ← t.existing h event.rowid side
    match found with
    | some id => .ok (if event.depth = 0 ∧ indirect = false then t.clearIndirect id else t)
    | none => do
      let record ← t.serialize sop event.rowid old new
      .ok (t.addEntry bucket ⟨sop, indirect || decide (0 < event.depth), record⟩)

end SessionTable

namespace SessionCore

def findTableIdx (s : SessionCore) (name : Name) : Option Nat :=
  s.tables.findIdx? fun t => eqIgnoreAsciiCase t.name name

def findOrAutoAttach (s : SessionCore) (name : Name) : SessionCore × Option Nat :=
  match s.findTableIdx name with
  | some i => (s, some i)
  | none =>
    if s.autoAttach ∧ (s.filter.map (· name)).getD true then
      ({ s with tables := s.tables ++ [.new name] }, some s.tables.length)
    else (s, none)

/-- The columns of the event do not fit the model. -/
def drifted (t : SessionTable) (event : Event) : Prop :=
  t.nDbCol ≠ match event.op with
    | .insert => (event.new.map List.length).getD 0
    | _ => (event.old.map List.length).getD 0

instance (t : SessionTable) (event : Event) : Decidable (drifted t event) :=
  inferInstanceAs (Decidable (_ ≠ _))

/-- The table at an index gets the model of the event, or its drift; none when it is ignored. -/
def resolve (s : SessionCore) (event : Event) (i : Nat) : SessionCore × Option Nat :=
  match s.tables[i]? with
  | none => (s, none)
  | some t =>
    if t.initialized = false then
      let t := t.initTableModel event.tbl s.implicitPk
      ({ s with tables := s.tables.set i t }, if t.untrackable then none else some i)
    else if t.untrackable then (s, none)
    else if drifted t event then
      let (t, error) := t.reinitAndPad event.tbl s.implicitPk
      let s := { s with tables := s.tables.set i t }
      match error with
      | some e => ({ s with rc := some e }, none)
      | none => (s, if t.untrackable then none else some i)
    else (s, some i)

/-- `record` up to its match on the kind of the event. -/
def prepare (s : SessionCore) (event : Event) : SessionCore × Option Nat :=
  if s.enable = false ∨ s.rc ≠ none then (s, none)
  else if eqIgnoreAsciiCase s.zDb (ascii "main") = false then (s, none)
  else
    match s.findOrAutoAttach event.tbl.name with
    | (s, none) => (s, none)
    | (s, some i) => s.resolve event i

/-- `record_one`. -/
def recordOne (s : SessionCore) (event : Event) (sop : Op) (bNewKey : Bool) :
    Checked String SessionCore :=
  match s.findTableIdx event.tbl.name with
  | none => .ok s
  | some i =>
    match s.tables[i]? with
    | none => .ok s
    | some t => do
      let t ← t.recordOne s.indirect sop event bNewKey
      .ok { s with tables := s.tables.set i t }

/-- The captures of an event: an update is one at its old key and one at its new key. -/
def attempts : Op → List (Op × Bool)
  | .update => [(.update, false), (.insert, true)]
  | .insert => [(.insert, false)]
  | .delete => [(.delete, false)]

def record (s : SessionCore) (event : Event) : Checked String SessionCore :=
  match s.prepare event with
  | (s, none) => .ok s
  | (s, some _) => (attempts event.op).foldlM (fun s a => s.recordOne event a.1 a.2) s

end SessionCore

end RustSql.Session
