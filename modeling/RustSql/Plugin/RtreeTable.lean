import RustSql.Foundation.AssocMap
import RustSql.Jsonb.Tree
import RustSql.Plugin.RtreeNode
import RustSql.Types.NumberParse

/-! The rtree virtual table: updates and reindexing of the row map and the tree, the plan of
`best_index` as a text, and the cursor that reads it back. -/

namespace RustSql.Plugin.Rtree

open RustSql.Foundation RustSql.Types

/-- `RtConfig`; its `parse` rejects more than five dimensions. -/
structure RtConfig where
  table : String
  dims : Nat
  dims_le : dims ≤ 5
  i32Mode : Bool
  colNames : List String

def RtConfig.minCol (d : Nat) : Nat := 1 + 2 * d

def RtConfig.maxCol (d : Nat) : Nat := 2 + 2 * d

inductive RtError where
  | semantic (message : String)
  | constraint (message : String)
deriving DecidableEq

/-- `Value::as_integer`. -/
def asInteger : Value → Int64
  | .null => 0
  | .integer i => i
  | .real f => realToI64 f
  | .text t => (atoi64 t).1
  | .blob b => (atoi64 b).1

def coerceCoord : Option Value → Binary64
  | some (.integer i) => asF64 i
  | some (.real f) => f
  | some (.text t) => (parseF64 (trim (asStr t))).getD ⟨0⟩
  | _ => ⟨0⟩

def BBox.fromRow (cfg : RtConfig) (row : List Value) : BBox cfg.dims :=
  ⟨fun d => coerceCoord row[RtConfig.minCol d]?, fun d => coerceCoord row[RtConfig.maxCol d]?⟩

def colName (cfg : RtConfig) (i : Nat) : String := cfg.colNames[i]?.getD "id"

/-- The rows by their rowid, and the tree. -/
structure RtState (cfg : RtConfig) where
  rows : AssocMap Int64 (Int64 × BBox cfg.dims)
  root : RTreeNode cfg.dims

variable {cfg : RtConfig}

def RtState.opened (cfg : RtConfig) : RtState cfg := ⟨∅, []⟩

def validate (cfg : RtConfig) (row : List Value) : Except RtError (BBox cfg.dims) :=
  let bbox := BBox.fromRow cfg row
  match (List.finRange cfg.dims).find? fun d => (bbox.hi d).lt (bbox.lo d) with
  | some d => .error (.constraint ("rtree constraint failed: " ++ cfg.table ++ ".(" ++
      colName cfg (RtConfig.minCol d) ++ "<=" ++ colName cfg (RtConfig.maxCol d) ++ ")"))
  | none => .ok bbox

/-- The range check of `rtree_i32`, which only an insertion makes. -/
def checkRange (cfg : RtConfig) (bbox : BBox cfg.dims) : Except RtError Unit :=
  let outside (v : Binary64) : Bool := (Binary64.ofInt (2 ^ 31 - 1)).lt v || v.lt (Binary64.ofInt (-2 ^ 31))
  if cfg.i32Mode && (List.finRange cfg.dims).any fun d => outside (bbox.lo d) || outside (bbox.hi d) then
    .error (.constraint "rtree constraint failed: coordinate out of i32 range")
  else .ok ()

structure UpdateOp where
  oldRowid : Option Int64
  newRowid : Option Int64
  columns : List (Option Value)

/-- The columns of an operation; one that is not set has the old value where there is one. -/
def opRow (cfg : RtConfig) (op : UpdateOp) (old : Option (Int64 × BBox cfg.dims)) : List Value :=
  let column (i : Nat) (held : Int64 × BBox cfg.dims → Value) : Value :=
    let v := (op.columns[i]?.join).getD .null
    if v.isNull then (old.map held).getD .null else v
  column 0 (fun held => .integer held.1) :: (List.finRange cfg.dims).flatMap fun (d : Fin cfg.dims) =>
    [column (RtConfig.minCol d) fun held => .real (held.2.lo d),
      column (RtConfig.maxCol d) fun held => .real (held.2.hi d)]

/-- The id in front of a row, the rowid for an empty one. -/
def rowId (row : List Value) (rid : Int64) : Int64 := (row.head?.map asInteger).getD rid

/-- The rowid an inserted row gets. -/
def insertedRowid (row : List Value) (rid : Int64) : Int64 :=
  if rowId row rid ≠ 0 then rowId row rid else rid

/-- One operation of `update`; `none` is a panic. -/
def applyOp (st : RtState cfg) (op : UpdateOp) : Option (Except RtError (Option Int64) × RtState cfg) :=
  match op.oldRowid, op.newRowid with
  | none, some rid =>
    let row := opRow cfg op none
    match validate cfg row with
    | .error e => some (.error e, st)
    | .ok bbox =>
      match checkRange cfg bbox with
      | .error e => some (.error e, st)
      | .ok () => do
        let rid := insertedRowid row rid
        let root ← insert st.root rid bbox
        pure (.ok (some rid), ⟨st.rows.insert rid (rid, bbox), root⟩)
  | some old, some new =>
    match validate cfg (opRow cfg op (st.rows.lookup old)) with
    | .error e => some (.error e, st)
    | .ok bbox => do
      let root ← insert (remove st.root old) new bbox
      pure (.ok (some new), ⟨(st.rows.erase old).insert new (new, bbox), root⟩)
  | some old, none => some (.ok none, ⟨st.rows.erase old, remove st.root old⟩)
  | none, none => some (.error (.semantic "invalid rtree update op"), st)

/-- `update`: the operations one after another, up to the first that fails. -/
def update (st : RtState cfg) : List UpdateOp → Option (Except RtError (List (Option Int64)) × RtState cfg)
  | [] => some (.ok [], st)
  | op :: ops => do
    match ← applyOp st op with
    | (.error e, st) => pure (.error e, st)
    | (.ok out, st) =>
      let (rest, st) ← update st ops
      pure (rest.map (out :: ·), st)

/-- The state that `reindex` builds up. -/
def reindexRows (st : RtState cfg) : List (Int64 × List Value) → Option (Except RtError (RtState cfg))
  | [] => some (.ok st)
  | (rid, vals) :: rest =>
    match validate cfg vals with
    | .error e => some (.error e)
    | .ok bbox => do
      let root ← insert st.root rid bbox
      reindexRows ⟨st.rows.insert rid (rowId vals rid, bbox), root⟩ rest

def reindex (st : RtState cfg) (rows : List (Int64 × List Value)) : Option (Except RtError Unit × RtState cfg) := do
  match ← reindexRows (.opened cfg) rows with
  | .error e => pure (.error e, st)
  | .ok built => pure (.ok (), built)

inductive VtabConstraintOp where
  | eq | lt | le | gt | ge | like | glob | «match»
  | function (name : String)
deriving DecidableEq

/-- A constraint on a column, or on the rowid, with the value of its expression. -/
structure VtabConstraint where
  column : Option Nat
  op : VtabConstraintOp
  value : Value

def DimOp.fromVtab : VtabConstraintOp → Option DimOp
  | .lt => some .lt
  | .le => some .le
  | .gt => some .gt
  | .ge => some .ge
  | .eq => some .eq
  | _ => none

def usizeMax : Nat := 2 ^ 64 - 1

/-- What `best_index` makes of a constraint it handles. -/
def planned (cfg : RtConfig) (c : VtabConstraint) : Option (Nat × DimOp) :=
  match c.column with
  | none => if c.op = .eq then some (usizeMax, .eq) else none
  | some col =>
    if 1 ≤ col ∧ col < 1 + 2 * cfg.dims then (DimOp.fromVtab c.op).map (col, ·) else none

def DimOp.text : DimOp → List UInt8
  | .lt => [0x3C]
  | .le => [0x3C, 0x3D]
  | .gt => [0x3E]
  | .ge => [0x3E, 0x3D]
  | .eq => [0x3D]

/-- A column and its operator, with a colon between them. -/
def planPart (entry : Nat × DimOp) : List UInt8 := Jsonb.decimalDigits entry.1 ++ 0x3A :: entry.2.text

def encodePlan (plan : List (Nat × DimOp)) : List UInt8 := [0x2C].intercalate (plan.map planPart)

structure IndexInfo where
  idxNum : Nat
  idxStr : Option (List UInt8)
  handled : List Bool
  recheck : List Bool
  estimatedCost : Binary64
  estimatedRows : Int64

def bestIndex (st : RtState cfg) (constraints : List VtabConstraint) : Except RtError IndexInfo :=
  if constraints.any fun c => c.op = .match then .error (.semantic "SQL logic error")
  else
    let handled := constraints.map fun c => (planned cfg c).isSome
    let recheck := constraints.map fun _ => false
    let plan := constraints.filterMap (planned cfg)
    if plan.isEmpty then
      let count := st.rows.entries.length
      .ok ⟨0, none, handled, recheck,
        ((Binary64.ofInt count).mul (Binary64.ofInt 10)).add (Binary64.ofInt 100), Int64.ofNat count⟩
    else .ok ⟨1, some (encodePlan plan), handled, recheck, Binary64.ofInt 20, 10⟩

/-- What stands behind a plus sign. -/
def behindPlus : List UInt8 → List UInt8
  | 0x2B :: rest => rest
  | text => text

/-- `parse::<usize>()`. -/
def parseUsize (text : List UInt8) : Option Nat :=
  let digits := behindPlus text
  if digits ≠ [] ∧ digits.all isDigit ∧ decimal digits < 2 ^ 64 then some (decimal digits) else none

def DimOp.ofText : List UInt8 → Option DimOp
  | [0x3C] => some .lt
  | [0x3C, 0x3D] => some .le
  | [0x3E] => some .gt
  | [0x3E, 0x3D] => some .ge
  | [0x3D] => some .eq
  | _ => none

def argNumber : Option Value → Binary64
  | some (.integer i) => asF64 i
  | some (.real f) => f
  | _ => ⟨0⟩

/-- What a part of the plan asks for: a rowid, or a test of a column. -/
inductive Wanted where
  | rowid (rid : Int64)
  | dim (col : Nat) (op : DimOp) (value : Binary64)
deriving DecidableEq

/-- One part of the plan, with its argument. -/
def wantedOf (part : List UInt8) (arg : Option Value) : Option Wanted :=
  match part.dropWhile (· ≠ 0x3A) with
  | [] => none
  | _ :: opText =>
    match DimOp.ofText opText, parseUsize (part.takeWhile (· ≠ 0x3A)) with
    | some op, some col =>
      if col = usizeMax then some (.rowid (Int64.ofInt (asI64 (argNumber arg))))
      else some (.dim col op (argNumber arg))
    | _, _ => none

def decodePlan (plan : List UInt8) (args : List Value) : List Wanted :=
  (plan.splitOn 0x2C).zipIdx.filterMap fun part => wantedOf part.1 args[part.2]?

def Wanted.rowid? : Wanted → Option Int64
  | .rowid rid => some rid
  | .dim _ _ _ => none

/-- The tests among the parts; a column that no box has panics. -/
def dimTests (dims : Nat) : List Wanted → Option (List (DimConstraint dims))
  | [] => some []
  | .rowid _ :: rest => dimTests dims rest
  | .dim col op value :: rest =>
    if within : 1 ≤ col ∧ col ≤ 2 * dims then
      (dimTests dims rest).map (⟨col, op, value, within⟩ :: ·)
    else none

def idLe {α : Type} (one two : Int64 × α) : Bool := decide (one.1 ≤ two.1)

def dedupFrom {α : Type} (last : Int64) : List (Int64 × α) → List (Int64 × α)
  | [] => []
  | row :: rest => if row.1 = last then dedupFrom last rest else row :: dedupFrom row.1 rest

/-- `dedup_by_key`: of neighbours with one key the first stays. -/
def dedupByKey {α : Type} : List (Int64 × α) → List (Int64 × α)
  | [] => []
  | row :: rest => row :: dedupFrom row.1 rest

/-- The rows in the order of their rowids. -/
def RtState.values (st : RtState cfg) : List (Int64 × BBox cfg.dims) :=
  (st.rows.entries.mergeSort fun one two => decide (one.1 ≤ two.1)).map (·.2)

/-- `RtCursor::filter`. -/
def filter (st : RtState cfg) (idxNum : Nat) (idxStr : Option (List UInt8)) (args : List Value) :
    Option (List (Int64 × BBox cfg.dims)) := do
  let wanted := if idxNum = 1 then (idxStr.map (decodePlan · args)).getD [] else []
  let cons ← dimTests cfg.dims wanted
  match (wanted.filterMap Wanted.rowid?).getLast? with
  | some rid => pure (st.rows.lookup rid).toList
  | none =>
    if cons = [] then pure st.values
    else pure (dedupByKey ((query st.root cons).mergeSort idLe))

/-- `RtCursor::column` of a row the cursor stands on; `none` is a panic. -/
def column (st : RtState cfg) (rid : Int64) (i : Nat) : Option Value :=
  if i = 0 then some (.integer rid)
  else
    match st.rows.lookup rid with
    | none => some .null
    | some (_, bbox) =>
      if within : (i - 1) / 2 < cfg.dims then
        let v := if (i - 1) % 2 = 0 then bbox.lo ⟨(i - 1) / 2, within⟩ else bbox.hi ⟨(i - 1) / 2, within⟩
        some (if cfg.i32Mode then .integer (Int64.ofInt (asI64 v)) else .real v)
      else none

end RustSql.Plugin.Rtree
