import RustSql.Types.Value

/-! The expressions of the SQL syntax tree. -/

namespace RustSql.Sql

open RustSql.Types

inductive BinaryOp where
  | add | sub | mul | div | mod | concat
  | bitAnd | bitOr | bitXor | shiftLeft | shiftRight
  | eq | notEq | lt | ltEq | gt | gtEq
  | and | or
  | arrow | arrowText | ftsMatch | distance
deriving DecidableEq, Repr

inductive UnaryOp where
  | neg | pos | not | bitNot
  /-- `x IS [NOT] TRUE` and `x IS [NOT] FALSE`: `truth` is the keyword. -/
  | truth (truth negated : Bool)
deriving DecidableEq, Repr

inductive LikeOp where
  | like | glob | regexp | match
deriving DecidableEq, Repr

inductive RaiseAction where
  | ignore | rollback | abort | fail
deriving DecidableEq, Repr

/-- A nested `SELECT`, known by its identity: no modelled function reads it. -/
structure SelectStatement where
  id : Nat
deriving DecidableEq, Repr

/-- An expression. The three sources of `IN` are constructors of their own, and
a window specification or an aggregate's `ORDER BY` is left out. -/
inductive Expr where
  | literal (value : Value)
  | parameter (name : String)
  | column (table : Option String) (name : String)
  | binary (op : BinaryOp) (left right : Expr)
  | unary (op : UnaryOp) (expr : Expr)
  | between (expr low high : Expr) (negated : Bool)
  | inList (expr : Expr) (list : List Expr) (negated : Bool)
  | inSubquery (expr : Expr) (select : SelectStatement) (negated : Bool)
  | inTable (expr : Expr) (table : String) (negated : Bool)
  | like (op : LikeOp) (expr pattern : Expr) (escape : Option Expr) (negated : Bool)
  | isNull (expr : Expr) (negated : Bool)
  | is (left right : Expr) (negated : Bool)
  | function (name : String) (distinct : Bool) (args : List Expr) (filter : Option Expr)
  | case (operand : Option Expr) (whens : List (Expr × Expr)) (otherwise : Option Expr)
  | row (items : List Expr)
  | subquery (select : SelectStatement)
  | exists (select : SelectStatement)
  | cast (expr : Expr) (typeName : String)
  | collate (expr : Expr) (collation : String)
  | raise (action : RaiseAction) (message : Option Expr)

namespace Expr

def isRow : Expr → Bool
  | .row _ => true
  | _ => false

/-- `is_truth_literal`: an integer literal that fits 32 bits. -/
def isTruthLiteral : Expr → Bool
  | .literal (.integer i) => decide (-2 ^ 31 ≤ i.toInt ∧ i.toInt < 2 ^ 31)
  | _ => false

/-- The prefixes of the type names that carry an affinity or a materialised
subquery through a `CAST` node. -/
def affMarker : String := "\x00aff:"

def inRhsMarker : String := "\x00inrhs:"

def subqMarker : String := "\x00subq"

mutual

/-- `subquery_in`: a subquery occurs in the expression; `markers` says whether the
carrier of a materialised one counts. -/
def subqueryIn (markers : Bool) : Expr → Bool
  | .subquery _ | .exists _ => true
  | .inList expr list _ => subqueryIn markers expr || subqueryInList markers list
  | .inSubquery _ _ _ => true
  | .inTable expr _ _ => subqueryIn markers expr
  | .binary _ left right | .is left right _ => subqueryIn markers left || subqueryIn markers right
  | .cast expr typeName =>
    if typeName.startsWith subqMarker || typeName.startsWith affMarker
        || typeName.startsWith inRhsMarker then markers
    else subqueryIn markers expr
  | .unary _ expr | .isNull expr _ | .collate expr _ => subqueryIn markers expr
  | .between expr low high _ =>
    subqueryIn markers expr || subqueryIn markers low || subqueryIn markers high
  | .like _ expr pattern escape _ =>
    subqueryIn markers expr || subqueryIn markers pattern || subqueryInOption markers escape
  | .row items => subqueryInList markers items
  | .function _ _ args filter => subqueryInList markers args || subqueryInOption markers filter
  | .case operand whens otherwise =>
    subqueryInOption markers operand || subqueryInWhens markers whens
      || subqueryInOption markers otherwise
  | .raise _ message => subqueryInOption markers message
  | .literal _ | .parameter _ | .column _ _ => false

def subqueryInList (markers : Bool) : List Expr → Bool
  | [] => false
  | item :: rest => subqueryIn markers item || subqueryInList markers rest

def subqueryInOption (markers : Bool) : Option Expr → Bool
  | none => false
  | some item => subqueryIn markers item

def subqueryInWhens (markers : Bool) : List (Expr × Expr) → Bool
  | [] => false
  | (condition, result) :: rest =>
    subqueryIn markers condition || subqueryIn markers result || subqueryInWhens markers rest

end

def containsSubquery (expr : Expr) : Bool := subqueryIn true expr

/-- A subquery still to run for each row: the materialised ones do not count. -/
def containsLiveSubquery (expr : Expr) : Bool := subqueryIn false expr

/-- The nodes the evaluator and the jump code walk; every other node is one leaf. -/
def weight : Expr → Nat
  | .binary _ left right => left.weight + right.weight + 1
  | .unary _ expr => expr.weight + 1
  | .between expr low high _ => expr.weight + low.weight + high.weight + 1
  | _ => 1

theorem weight_pos (expr : Expr) : 0 < expr.weight := by
  cases expr <;> simp [weight]

end Expr

end RustSql.Sql
