import RustSql.Sql.Ast

/-! The expression evaluator: truth values, comparison operands and the value of
a condition. What a leaf evaluates to is the context's business. -/

namespace RustSql.Executor

open RustSql.Foundation RustSql.Types RustSql.Sql

inductive Error where
  | semantic (message : String)
  /-- Any error a leaf raises: malformed JSON, integer overflow and the like. -/
  | raised (message : String)
deriving DecidableEq, Repr

abbrev Result (α : Type) := Except Error α

inductive Affinity where
  | integer | real | text | blob | numeric | none
deriving DecidableEq, Repr

/-- What a text that looks like a number converts to; `atof` never returns a NaN. -/
inductive Numeric where
  | integer (i : Int64)
  | real (f : Binary64) (number : f.isNaN = false)

def Numeric.value : Numeric → Value
  | .integer i => .integer i
  | .real f _ => .real f

/-- A collating sequence: an order of text bytes. -/
structure Collation where
  compare : List UInt8 → List UInt8 → Ordering

/-- What an expression is evaluated against: the row, its layout, the parameters and
the operator's scope, through the answers the evaluator takes from them. -/
structure EvalContext where
  /-- `atof(bytes).0 != 0.0`: the number the bytes start with is not zero. -/
  nonzero : List UInt8 → Bool
  /-- `numeric_value` of a text. -/
  numericText : List UInt8 → Option Numeric
  /-- `as_text` of a number. -/
  asText : Value → List UInt8
  /-- `expr_affinity_with`: the affinity an operand carries into a comparison. -/
  affinity : Expr → Option Affinity
  /-- `binary_comparison_collation`: the name of the collation of a comparison. -/
  collation : Expr → Expr → Option String
  lookupCollation : String → Option Collation
  /-- The order of texts in the connection's encoding; `none` is UTF-8. -/
  textOrder : Option (List UInt8 → List UInt8 → Ordering)
  /-- `sqlite_arith`, `concat` and `sqlite_bitop`. -/
  arithmetic : BinaryOp → Value → Value → Value
  asInteger : Value → Int64
  /-- `row_compare` of two row values. -/
  rowCompare : BinaryOp → List Expr → List Expr → Result Value
  /-- `row_compare` of a row value and a subquery's row. -/
  rowSubquery : BinaryOp → Expr → Expr → Result Value
  /-- The tree walker's value of every other expression. -/
  walk : Expr → Result Value
  /-- The value of the compiled form of an expression that has one. -/
  compiled : Expr → Option (Result Value)
  /-- The operator's compiled expressions are installed for the expression under
  evaluation; its leaves and operands that compile are then all registered. -/
  active : Bool
  /-- The `OR` conditions registered with their whole jump tree. -/
  jumpTree : Expr → Bool
  /-- `SUBQUERY_FREE`: the operator proved its expressions free of subqueries. -/
  subqueryFree : Bool

namespace EvalContext

def isTruthy (ctx : EvalContext) : Value → Bool
  | .null => false
  | .integer i => i != 0
  | .real f => f.partialCmp ⟨0⟩ != some .eq
  | .text bytes => ctx.nonzero bytes
  | .blob bytes => ctx.nonzero bytes

def evalHasSubquery (ctx : EvalContext) (e : Expr) : Bool :=
  !ctx.subqueryFree && e.containsSubquery

def valueCmpConn (ctx : EvalContext) (a b : Value) : Ordering :=
  match ctx.textOrder, a, b with
  | some order, .text x, .text y => order x y
  | _, _, _ => a.cmp b

end EvalContext

/-- `compare_collated`: only two texts are ordered by the collation. -/
def compareCollated (a b : Value) (collation : Collation) : Ordering :=
  match a, b with
  | .text x, .text y => collation.compare x y
  | _, _ => a.cmp b

def cmpOperandMissing (value : Value) : Bool := value.isNull || value.isNaN

def ofBool (truth : Bool) : Value := .integer (if truth then 1 else 0)

/-- Does a comparison operator accept this order of its operands? -/
def accepts : BinaryOp → Ordering → Bool
  | .eq, order => order == .eq
  | .notEq, order => order != .eq
  | .lt, order => order == .lt
  | .ltEq, order => order != .gt
  | .gt, order => order == .gt
  | .gtEq, order => order != .lt
  | _, _ => false

def isComparison : BinaryOp → Bool
  | .eq | .notEq | .lt | .ltEq | .gt | .gtEq => true
  | _ => false

/-- `=` and `<>` test `Value::cmp`; the range operators order texts in the
connection's encoding. -/
def comparisonOrder (ctx : EvalContext) (op : BinaryOp) (l r : Value) : Ordering :=
  match op with
  | .eq | .notEq => l.cmp r
  | _ => ctx.valueCmpConn l r

def applyBinary (ctx : EvalContext) (op : BinaryOp) (l r : Value) : Value :=
  match op with
  | .arrow | .arrowText | .ftsMatch | .distance => .null
  | .eq | .notEq | .lt | .ltEq | .gt | .gtEq =>
    if cmpOperandMissing l || cmpOperandMissing r then .null
    else ofBool (accepts op (comparisonOrder ctx op l r))
  | .and =>
    if (!l.isNull && !ctx.isTruthy l) || (!r.isNull && !ctx.isTruthy r) then .integer 0
    else if ctx.isTruthy l && ctx.isTruthy r then .integer 1
    else .null
  | .or =>
    if ctx.isTruthy l || ctx.isTruthy r then .integer 1
    else if (!l.isNull && !ctx.isTruthy l) && (!r.isNull && !ctx.isTruthy r) then .integer 0
    else .null
  | _ => ctx.arithmetic op l r

def applyBinaryCollated (ctx : EvalContext) (op : BinaryOp) (l r : Value)
    (collation : Collation) : Value :=
  if isComparison op then
    if cmpOperandMissing l || cmpOperandMissing r then .null
    else ofBool (accepts op (compareCollated l r collation))
  else applyBinary ctx op l r

def applyUnary (ctx : EvalContext) (op : UnaryOp) (v : Value) : Value :=
  match op with
  | .neg => if v.isNull then .null else ctx.arithmetic .sub (.integer 0) v
  | .pos => v
  | .not => if v.isNull then .null else .integer (if ctx.isTruthy v then 0 else 1)
  | .bitNot => if v.isNull then .null else .integer (~~~ctx.asInteger v)
  | .truth truth negated =>
    let b := if v.isNull then !truth else ctx.isTruthy v
    ofBool ((b == truth) ^^ negated)

/-- The affinity a comparison applies. -/
inductive CmpAffinity where
  | none | numeric | text
deriving DecidableEq, Repr

def Affinity.isNumeric : Affinity → Bool
  | .integer | .real | .numeric => true
  | _ => false

def comparisonAffinity (la ra : Option Affinity) : CmpAffinity :=
  match la.filter (· ≠ .none), ra.filter (· ≠ .none) with
  | some a, some b => if a.isNumeric || b.isNumeric then .numeric else .none
  | some a, none | none, some a =>
    if a.isNumeric then .numeric else if a = .text then .text else .none
  | none, none => .none

/-- `NUMERIC` converts a text that looks like a number. -/
def toNumeric (ctx : EvalContext) : Value → Value
  | .text bytes => ((ctx.numericText bytes).map Numeric.value).getD (.text bytes)
  | v => v

/-- `TEXT` renders a number as text. -/
def toText (ctx : EvalContext) : Value → Value
  | .integer i => .text (ctx.asText (.integer i))
  | .real f => .text (ctx.asText (.real f))
  | v => v

def applyComparisonAffinity (ctx : EvalContext) (aff : CmpAffinity) (l r : Value) :
    Value × Value :=
  if !l.isText && !r.isText then (l, r)
  else
    match aff with
    | .none => (l, r)
    | .numeric => (toNumeric ctx l, toNumeric ctx r)
    | .text => (toText ctx l, toText ctx r)

def coerceComparisonOperands (ctx : EvalContext) (le : Expr) (l : Value) (re : Expr) (r : Value) :
    Value × Value :=
  if !l.isText && !r.isText then (l, r)
  else applyComparisonAffinity ctx (comparisonAffinity (ctx.affinity le) (ctx.affinity re)) l r

/-- `BINARY`, spelled in any case, is the connection's ordinary order. -/
def isBinaryName (name : String) : Bool := name.toLower == "binary"

def noSuchCollation (name : String) : Error :=
  .semantic ("no such collation sequence: " ++ name)

def resolveCollation (ctx : EvalContext) (name : Option String) : Result (Option Collation) :=
  match name with
  | none => .ok none
  | some n =>
    if isBinaryName n then .ok none
    else
      match ctx.lookupCollation n with
      | some collation => .ok (some collation)
      | none => .error (noSuchCollation n)

def rowValueMisused : Error := .semantic "row value misused"

/-- `row_binary`: a comparison with a row value on one side. -/
def rowBinary (ctx : EvalContext) (op : BinaryOp) (left right : Expr) : Result Value :=
  match left, right with
  | .row l, .row r => ctx.rowCompare op l r
  | .row _, .subquery _ | .subquery _, .row _ => ctx.rowSubquery op left right
  | _, _ => .error rowValueMisused

/-- `always`: a literal the evaluator takes for the constant `truth`. -/
def always (e : Expr) (truth : Bool) : Bool :=
  e.isTruthLiteral &&
    match e with
    | .literal (.integer n) => (n != 0) == truth
    | _ => false

/-- The operand that decides an `AND` or an `OR` of two simplified operands. -/
def deciding (op : BinaryOp) (l r : Expr) : Option Expr :=
  if always l true || always r false then some (if op = .and then r else l)
  else if always r true || always l false then some (if op = .and then l else r)
  else none

/-- `simplified_and_or`, as the part of the expression that decides it when that is
not the whole expression: an operand that is always true or always false goes. -/
def simplified? : Expr → Option Expr
  | .binary .and left right =>
    deciding .and ((simplified? left).getD left) ((simplified? right).getD right)
  | .binary .or left right =>
    deciding .or ((simplified? left).getD left) ((simplified? right).getD right)
  | _ => none

theorem deciding_eq_some {op : BinaryOp} {l r alt : Expr} (simpler : deciding op l r = some alt) :
    alt = l ∨ alt = r := by
  unfold deciding at simpler
  by_cases conjunction : op = .and <;> grind

theorem weight_getD_simplified (x : Expr)
    (smaller : ∀ {alt}, simplified? x = some alt → alt.weight < x.weight) :
    ((simplified? x).getD x).weight ≤ x.weight := by
  cases found : simplified? x with
  | none => exact le_rfl
  | some alt => exact (smaller found).le

/-- What decides an expression is one of its proper parts. -/
theorem weight_simplified {e alt : Expr} (simpler : simplified? e = some alt) :
    alt.weight < e.weight := by
  fun_induction simplified? e generalizing alt with
  | case1 left right ihLeft ihRight | case2 left right ihLeft ihRight =>
    have keptLeft := weight_getD_simplified left ihLeft
    have keptRight := weight_getD_simplified right ihRight
    simp only [Expr.weight]
    rcases deciding_eq_some simpler with rfl | rfl <;> omega
  | case3 => cases simpler

/-- `and_or_order`: with a subquery only on the left the right operand goes first. -/
def andOrOrder (ctx : EvalContext) (left right : Expr) : Expr × Expr :=
  if ctx.evalHasSubquery left && !ctx.evalHasSubquery right then (right, left) else (left, right)

theorem andOrOrder_cases {ctx : EvalContext} {left right first second : Expr}
    (order : andOrOrder ctx left right = (first, second)) :
    first = left ∧ second = right ∨ first = right ∧ second = left := by
  unfold andOrOrder at order
  split at order <;> cases order <;> simp

theorem weight_andOrOrder {ctx : EvalContext} {left right first second : Expr}
    (order : andOrOrder ctx left right = (first, second)) :
    first.weight < left.weight + right.weight ∧ second.weight < left.weight + right.weight := by
  have := left.weight_pos
  have := right.weight_pos
  rcases andOrOrder_cases order with ⟨rfl, rfl⟩ | ⟨rfl, rfl⟩ <;> omega

/-- The compiled form of an expression, by how it is evaluated: a literal, a return
to the tree walker, or compiled nodes of its own with the outcome they have. -/
inductive CExpr where
  | lit (value : Value)
  | fallback (expr : Expr)
  | code (outcome : Result Value)

/-- `CExpr::compile`: conditions stay with the walker. -/
def CExpr.compile (ctx : EvalContext) : Expr → CExpr
  | .literal v => .lit v
  | e@(.binary .and _ _) | e@(.binary .or _ _) | e@(.unary .not _) | e@(.unary (.truth _ _) _)
  | e@(.between _ _ _ _) => .fallback e
  | e => (ctx.compiled e).elim (.fallback e) .code

/-- `compiled_eval`: `register_value` enters neither literals nor fallbacks. -/
def compiledEval (ctx : EvalContext) (e : Expr) : Option (Result Value) :=
  if ctx.active then
    match CExpr.compile ctx e with
    | .code outcome => some outcome
    | _ => none
  else none

/-- `can_be_null`: only a literal is known not to be `NULL`. -/
def canBeNull : Expr → Bool
  | .literal v => v.isNull
  | _ => true

/-- The operators that are `NULL` as soon as one operand is. -/
def nullSkips : BinaryOp → Bool
  | .eq | .notEq | .lt | .ltEq | .gt | .gtEq | .add | .sub | .mul | .div | .mod
  | .bitAnd | .bitOr | .shiftLeft | .shiftRight | .concat => true
  | _ => false

/-- The end of a binary operator: the affinity of a comparison, then the collation. -/
def finishBinary (ctx : EvalContext) (op : BinaryOp) (left right : Expr) (l r : Value) :
    Result Value :=
  let (l, r) := if isComparison op then coerceComparisonOperands ctx left l right r else (l, r)
  match ctx.collation left right with
  | some name =>
    if isBinaryName name then .ok (applyBinary ctx op l r)
    else
      match ctx.lookupCollation name with
      | some collation => .ok (applyBinaryCollated ctx op l r collation)
      | none => .error (noSuchCollation name)
  | none => .ok (applyBinary ctx op l r)

/-- The order of two operands of `BETWEEN` under the pair's own collation. -/
def boundOrder (ctx : EvalContext) (collation : Option Collation) (a b : Value) : Ordering :=
  match collation with
  | some c => compareCollated a b c
  | none => ctx.valueCmpConn a b

mutual

def evaluate (ctx : EvalContext) (e : Expr) : Result Value :=
  match compiledEval ctx e with
  | some outcome => outcome
  | none => evaluateUncompiled ctx e
termination_by 3 * e.weight + 1

def evaluateUncompiled (ctx : EvalContext) (e : Expr) : Result Value :=
  match e with
  | .literal v => .ok v
  | .binary .and left right => evaluateAndOr ctx .and left right
  | .binary .or left right => evaluateAndOr ctx .or left right
  | .binary .arrow _ _ | .binary .arrowText _ _ | .binary .ftsMatch _ _
  | .binary .distance _ _ => ctx.walk e
  | .binary op left right => do
    if left.isRow || right.isRow then rowBinary ctx op left right
    else if nullSkips op && canBeNull right && ctx.evalHasSubquery left
        && !ctx.evalHasSubquery right then
      let r ← evaluate ctx right
      if r.isNull then return .null
      let l ← evaluate ctx left
      finishBinary ctx op left right l r
    else
      let l ← evaluate ctx left
      if nullSkips op && l.isNull && ctx.evalHasSubquery right then return .null
      let r ← evaluate ctx right
      finishBinary ctx op left right l r
  | .unary op expr => do
    let v ← evaluate ctx expr
    return applyUnary ctx op v
  | .between expr low high negated => do
    if expr.isRow || low.isRow || high.isRow then
      let ge ← rowBinary ctx .gtEq expr low
      let le ← rowBinary ctx .ltEq expr high
      let v := applyBinary ctx .and ge le
      return if negated then applyUnary ctx .not v else v
    else
      let v ← evaluate ctx expr
      let lo ← evaluate ctx low
      let hi ← evaluate ctx high
      let (vLo, lo) := coerceComparisonOperands ctx expr v low lo
      let (vHi, hi) := coerceComparisonOperands ctx expr v high hi
      let collLo ← resolveCollation ctx (ctx.collation expr low)
      let collHi ← resolveCollation ctx (ctx.collation expr high)
      let ge := if v.isNull || lo.isNull then none else some (boundOrder ctx collLo vLo lo != .lt)
      let le := if v.isNull || hi.isNull then none else some (boundOrder ctx collHi vHi hi != .gt)
      let inRange := match ge, le with
        | some false, _ | _, some false => some false
        | some true, some true => some true
        | _, _ => none
      return match inRange with
        | some b => .integer (if b ^^ negated then 1 else 0)
        | none => .null
  | e => ctx.walk e
termination_by 3 * e.weight
decreasing_by all_goals simp only [Expr.weight]; omega

/-- A value-context `AND` or `OR` computes both operands, except that one holding a
subquery is skipped once the other decides. -/
def evaluateAndOr (ctx : EvalContext) (op : BinaryOp) (left right : Expr) : Result Value :=
  match _simpler : simplified? (.binary op left right) with
  | some alt => do
    let v ← evaluate ctx alt
    return applyBinary ctx .and v v
  | none =>
    match _order : andOrOrder ctx left right with
    | (first, second) => do
      let a ← evaluate ctx first
      if !a.isNull && ctx.evalHasSubquery second && op == .and && !ctx.isTruthy a then
        return .integer 0
      if !a.isNull && ctx.evalHasSubquery second && op == .or && ctx.isTruthy a then
        return .integer 1
      let b ← evaluate ctx second
      return applyBinary ctx op a b
termination_by 3 * (left.weight + right.weight) + 2
decreasing_by
  · have := weight_simplified _simpler
    simp only [Expr.weight] at this
    omega
  all_goals
    have := weight_andOrOrder _order
    omega

end

end RustSql.Executor
