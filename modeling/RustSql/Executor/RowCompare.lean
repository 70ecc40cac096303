import RustSql.Executor.ThreeValued

/-! Comparisons of row values, and membership of a row value. A subquery's rows and
the affinities of its columns come from the executor. -/

namespace RustSql.Executor

open RustSql.Foundation RustSql.Types RustSql.Sql

/-- What stands for the expression of an item that has none. -/
def noExpr : Expr := .literal .null

/-- One side of a comparison of row values: a row whose items are evaluated as the
comparison reaches them, or values that are already there. -/
inductive RowSide where
  | items (items : List Expr)
  | values (exprs : Option (List Expr)) (vals : List Value)
      (sized : ∀ list ∈ exprs, list.length = vals.length)
  | typed (exprs : List Expr) (vals : List Value) (sized : exprs.length = vals.length)

namespace RowSide

def len : RowSide → Nat
  | .items list => list.length
  | .values _ vals _ | .typed _ vals _ => vals.length

/-- The items in order, each with its expression and its evaluation. -/
def cells (ctx : EvalContext) : RowSide → List (Option Expr × Result Value)
  | .items list => list.map fun e => (some e, evaluate ctx e)
  | .values none vals _ => vals.map fun v => (none, .ok v)
  | .values (some exprs) vals _ | .typed exprs vals _ =>
    (exprs.zip vals).map fun (e, v) => (some e, .ok v)

@[simp] theorem length_cells (ctx : EvalContext) (side : RowSide) :
    (side.cells ctx).length = side.len := by
  cases side with
  | items items => simp [cells, len]
  | values exprs vals sized =>
    cases exprs with
    | none => simp [cells, len]
    | some list => simp [cells, len, sized list rfl]
  | typed exprs vals sized => simp [cells, len, sized]

end RowSide

/-- `row_pair_cmp`: one pair under its own affinity and collation. `nullEq` is the
comparison of `IS`, where `NULL` equals `NULL` only. -/
def rowPairCmp (ctx : EvalContext) (le : Option Expr) (l : Value) (re : Option Expr) (r : Value)
    (nullEq : Bool) : Result (Option Ordering) :=
  if l.isNull || r.isNull then
    .ok (if nullEq then some (if l.isNull && r.isNull then .eq else .lt) else none)
  else do
    let le := le.getD noExpr
    let re := re.getD noExpr
    let (l, r) := coerceComparisonOperands ctx le l re r
    let coll ← resolveCollation ctx (ctx.collation le re)
    return some (boundOrder ctx coll l r)

/-- Does this pair decide for the comparison? All pairs but the last one are held to
the strict operator. -/
def rowPass (op : BinaryOp) (last : Bool) (o : Ordering) : Bool :=
  match op, last with
  | .lt, _ | .ltEq, false => o == .lt
  | .ltEq, true => o != .gt
  | .gt, _ | .gtEq, false => o == .gt
  | _, _ => o != .lt

def isEqMode : BinaryOp → Bool
  | .eq | .notEq => true
  | _ => false

/-- The loop of `row_compare` from one pair on, with the result so far. -/
def rowLoop (ctx : EvalContext) (op : BinaryOp) (nullEq : Bool) (result : Option Bool) :
    List ((Option Expr × Result Value) × (Option Expr × Result Value)) → Result (Option Bool)
  | [] => .ok result
  | ((le, lv), (re, rv)) :: rest => do
    let l ← lv
    let r ← rv
    let ord ← rowPairCmp ctx le l re r nullEq
    if isEqMode op then
      match ord with
      | some .eq => rowLoop ctx op nullEq result rest
      | some _ => return some false
      | none => rowLoop ctx op nullEq none rest
    else
      match ord with
      | none => return none
      | some o =>
        if rowPass op rest.isEmpty o then return result
        else if !rest.isEmpty && o == .eq then rowLoop ctx op nullEq result rest
        else return some false

def rowCompare (ctx : EvalContext) (op : BinaryOp) (l r : RowSide) (nullEq : Bool) :
    Result Value := do
  if l.len ≠ r.len then .error rowValueMisused
  else if !isComparison op then .error rowValueMisused
  else
    let result ← rowLoop ctx op nullEq (some true) ((l.cells ctx).zip (r.cells ctx))
    return ofTruth (if op = .notEq then Kleene.not result else result)

/-- What a `SELECT` returns: how many columns, and its rows. -/
structure QueryRows where
  columns : Nat
  rows : List (List Value)

/-- What row comparisons ask of the executor. -/
structure Subqueries where
  /-- `corr_exec_rows`. -/
  execRows : SelectStatement → (limitOne : Bool) → Result QueryRows
  /-- `select_column_affinity`. -/
  columnAffinity : SelectStatement → Nat → Option Affinity

def affinityTag : Affinity → String
  | .integer => "INTEGER"
  | .real => "REAL"
  | .numeric => "NUMERIC"
  | .text => "TEXT"
  | .blob | .none => "BLOB"

def affinityMarker (marker : String) (affinity : Affinity) : String := marker ++ affinityTag affinity

/-- The expression that carries the affinity of a subquery's column. -/
def columnCarrier (queries : Subqueries) (sel : SelectStatement) (i : Nat) : Expr :=
  match queries.columnAffinity sel i with
  | some .none | none => noExpr
  | some affinity => .cast noExpr (affinityMarker Expr.affMarker affinity)

def subqueryRowSide (queries : Subqueries) (sel : SelectStatement) (row : List Value) : RowSide :=
  .typed ((List.range row.length).map (columnCarrier queries sel)) row (by simp)

def wrongColumns (columns width : Nat) : Error :=
  .semantic s!"sub-select returns {columns} columns - expected {width}"

inductive InSource where
  | list (list : List Expr)
  | subquery (sel : SelectStatement)
  | table (name : String)

/-- The rows on the right of `IN`, in order. -/
def inRowSides (queries : Subqueries) (width : Nat) :
    InSource → Result (List (Result RowSide))
  | .list list => .ok (list.map fun
      | .row r => .ok (.items r)
      | _ => .error rowValueMisused)
  | .subquery sel => do
    let res ← queries.execRows sel false
    if res.columns ≠ width then .error (wrongColumns res.columns width)
    else return res.rows.map fun row => .ok (subqueryRowSide queries sel row)
  | .table _ => .error rowValueMisused

/-- What has been seen of the right side so far. -/
structure Probed where
  sawNull : Bool
  any : Bool
  found : Bool

/-- One probe per row until one is found. -/
def probeRows (ctx : EvalContext) (lhs : RowSide) (seen : Probed) :
    List (Result RowSide) → Result Probed
  | [] => .ok seen
  | side :: rest => do
    let rhs ← side
    match ← rowCompare ctx .eq lhs rhs false with
    | .integer 1 => return { seen with any := true, found := true }
    | .null => probeRows ctx lhs { seen with any := true, sawNull := true } rest
    | _ => probeRows ctx lhs { seen with any := true } rest

/-- The values of a row's items, one for each. -/
def evaluateItems (ctx : EvalContext) :
    (items : List Expr) → Result { vals : List Value // items.length = vals.length }
  | [] => .ok ⟨[], rfl⟩
  | e :: rest => do
    let v ← evaluate ctx e
    let ⟨vals, sized⟩ ← evaluateItems ctx rest
    return ⟨v :: vals, congrArg (· + 1) sized⟩

/-- The left row of `IN`, computed once. -/
def inLeftSide (items : List Expr) (vals : { vals : List Value // items.length = vals.length }) :
    RowSide :=
  .values (some items) vals.1 (by
    rintro list ⟨⟩
    exact vals.2)

def evaluateInRow (ctx : EvalContext) (queries : Subqueries) (items : List Expr)
    (source : InSource) (negated : Bool) : Result Value := do
  let vals ← evaluateItems ctx items
  let sides ← inRowSides queries items.length source
  let seen ← probeRows ctx (inLeftSide items vals) ⟨false, false, false⟩ sides
  return if seen.found then ofBool (!negated)
    else if !seen.any then ofBool negated
    else if seen.sawNull then .null
    else ofBool negated

end RustSql.Executor
