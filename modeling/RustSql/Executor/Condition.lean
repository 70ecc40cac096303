import RustSql.Executor.Evaluate

/-! Conditions in jump form: `WHERE` terms, `CHECK` constraints and the operator's
compiled condition tree. -/

namespace RustSql.Executor

open RustSql.Foundation RustSql.Types RustSql.Sql

/-- A condition tree in jump form over compiled leaves. -/
inductive CCond where
  | and (left right : CCond)
  | or (left right : CCond)
  | not (inner : CCond)
  /-- `BETWEEN` and `IS [NOT] TRUE|FALSE` keep their jump code in the walker. -/
  | walk (expr : Expr)
  | leaf (expr : CExpr)

namespace CCond

def compile (ctx : EvalContext) (e : Expr) : CCond :=
  match e with
  | .binary .and left right =>
    match _simpler : simplified? (.binary .and left right) with
    | some alt => compile ctx alt
    | none => .and (compile ctx left) (compile ctx right)
  | .binary .or left right =>
    match _simpler : simplified? (.binary .or left right) with
    | some alt => compile ctx alt
    | none => .or (compile ctx left) (compile ctx right)
  | .unary .not expr => .not (compile ctx expr)
  | .unary (.truth _ _) _ | .between _ _ _ _ => .walk e
  | e => .leaf (CExpr.compile ctx e)
termination_by e.weight
decreasing_by
  all_goals first
    | exact weight_simplified (by assumption)
    | simp only [Expr.weight]; omega

/-- The nodes a condition tree visits, those of its walked conditions included. -/
def weight : CCond → Nat
  | .and left right | .or left right => left.weight + right.weight
  | .not inner => inner.weight + 1
  | .walk expr => expr.weight
  | .leaf _ => 1

theorem weight_pos (c : CCond) : 0 < c.weight := by
  induction c with
  | and | or => simp only [weight]; omega
  | not => simp only [weight]; omega
  | walk expr => exact expr.weight_pos
  | leaf => exact Nat.one_pos

theorem weight_compile_le (ctx : EvalContext) (e : Expr) : (compile ctx e).weight ≤ e.weight := by
  fun_induction compile ctx e with
  | case1 left right alt simpler ih | case3 left right alt simpler ih =>
    exact ih.trans (weight_simplified simpler).le
  | case2 left right _ ihLeft ihRight | case4 left right _ ihLeft ihRight =>
    simp only [weight, Expr.weight]
    omega
  | case5 expr ih =>
    simp only [weight, Expr.weight]
    omega
  | case6 | case7 => exact le_rfl
  | case8 => exact Expr.weight_pos _

/-- Compiling a connective leaves out its own node. -/
theorem weight_compile_lt (ctx : EvalContext) (op : BinaryOp) (left right : Expr)
    (connective : op = .and ∨ op = .or) :
    (compile ctx (.binary op left right)).weight < (Expr.binary op left right).weight := by
  have part (alt : Expr) (simpler : simplified? (.binary op left right) = some alt) :
      (compile ctx alt).weight < (Expr.binary op left right).weight :=
    (weight_compile_le ctx alt).trans_lt (weight_simplified simpler)
  have low := weight_compile_le ctx left
  have high := weight_compile_le ctx right
  rcases connective with rfl | rfl <;> rw [compile] <;> split
  · exact part _ (by assumption)
  · simp only [weight, Expr.weight]; omega
  · exact part _ (by assumption)
  · simp only [weight, Expr.weight]; omega

end CCond

/-- `compiled_cond`: the jump tree of an `OR` the scope holds. -/
def compiledCond (ctx : EvalContext) (e : Expr) : Option CCond :=
  if ctx.active && ctx.jumpTree e then some (CCond.compile ctx e) else none

theorem weight_compiledCond {ctx : EvalContext} {left right : Expr} {c : CCond}
    (registered : compiledCond ctx (.binary .or left right) = some c) :
    c.weight < (Expr.binary .or left right).weight := by
  unfold compiledCond at registered
  split at registered <;> cases registered
  exact CCond.weight_compile_lt ctx .or left right (.inr rfl)

def CExpr.eval (ctx : EvalContext) : CExpr → Result Value
  | .lit v => .ok v
  | .fallback e => evaluateUncompiled ctx e
  | .code outcome => outcome

/-- The false exit of a computed value. -/
def valueFails (ctx : EvalContext) (v : Value) (jumpIfNull : Bool) : Bool :=
  if v.isNull then jumpIfNull else !ctx.isTruthy v

/-- The true exit of a computed value. -/
def valueHolds (ctx : EvalContext) (v : Value) (jumpIfNull : Bool) : Bool :=
  if v.isNull then jumpIfNull else ctx.isTruthy v

/-- `between_bound`: `v >= bound` or `v <= bound`, `none` when either side is `NULL`. -/
def betweenBound (ctx : EvalContext) (expr : Expr) (v : Value) (bound : Expr) (lower : Bool) :
    Result (Option Bool) := do
  let b ← evaluate ctx bound
  if v.isNull || b.isNull then return none
  let (v, b) := coerceComparisonOperands ctx expr v bound b
  let collation ← resolveCollation ctx (ctx.collation expr bound)
  let order := boundOrder ctx collation v b
  return some (if lower then order != .lt else order != .gt)

/-- The truth of a value, `none` for `NULL`. -/
def truth (ctx : EvalContext) (v : Value) : Option Bool :=
  if v.isNull then none else some (ctx.isTruthy v)

/-- `between_jump`: the upper bound is not evaluated once the lower one decides. -/
def betweenJump (ctx : EvalContext) (expr low high : Expr) (ifTrue jumpIfNull : Bool) :
    Result Bool := do
  let firstJumpNull := if ifTrue then !jumpIfNull else jumpIfNull
  if expr.isRow || low.isRow || high.isRow then
    let ge := truth ctx (← rowBinary ctx .gtEq expr low)
    if ge.elim firstJumpNull (!·) then return !ifTrue
    let le := truth ctx (← rowBinary ctx .ltEq expr high)
    return le.elim jumpIfNull (· == ifTrue)
  else
    let v ← evaluate ctx expr
    let ge ← betweenBound ctx expr v low true
    if ge.elim firstJumpNull (!·) then return !ifTrue
    let le ← betweenBound ctx expr v high false
    return le.elim jumpIfNull (· == ifTrue)

mutual

/-- `cond_if_false`: the condition takes its false exit. -/
def condIfFalse (ctx : EvalContext) (e : Expr) (jumpIfNull : Bool) : Result Bool :=
  match e with
  | .binary .and left right =>
    match _simpler : simplified? (.binary .and left right) with
    | some alt => condIfFalse ctx alt jumpIfNull
    | none =>
      match _order : andOrOrder ctx left right with
      | (first, second) => do
        if ← condIfFalse ctx first jumpIfNull then return true
        condIfFalse ctx second jumpIfNull
  | .binary .or left right =>
    match _registered : compiledCond ctx (.binary .or left right) with
    | some c => c.ifFalse ctx jumpIfNull
    | none =>
      match _simpler : simplified? (.binary .or left right) with
      | some alt => condIfFalse ctx alt jumpIfNull
      | none =>
        match _order : andOrOrder ctx left right with
        | (first, second) => do
          if ← condIfTrue ctx first !jumpIfNull then return false
          condIfFalse ctx second jumpIfNull
  | .unary .not expr => condIfTrue ctx expr jumpIfNull
  -- A truth test is never `NULL`: the operand's own `NULL` decides by the form.
  | .unary (.truth truth negated) expr =>
    if truth ^^ negated then condIfFalse ctx expr !negated
    else condIfTrue ctx expr !negated
  | .between expr low high negated => betweenJump ctx expr low high negated jumpIfNull
  | e => do return valueFails ctx (← evaluate ctx e) jumpIfNull
termination_by 2 * e.weight
decreasing_by
  all_goals first
    | have := weight_simplified _simpler; omega
    | have := weight_compiledCond _registered; omega
    | have := weight_andOrOrder _order; simp only [Expr.weight]; omega
    | simp only [Expr.weight]; omega

/-- `cond_if_true`: the condition takes its true exit. -/
def condIfTrue (ctx : EvalContext) (e : Expr) (jumpIfNull : Bool) : Result Bool :=
  match e with
  | .binary .and left right =>
    match _simpler : simplified? (.binary .and left right) with
    | some alt => condIfTrue ctx alt jumpIfNull
    | none =>
      match _order : andOrOrder ctx left right with
      | (first, second) => do
        if ← condIfFalse ctx first !jumpIfNull then return false
        condIfTrue ctx second jumpIfNull
  | .binary .or left right =>
    match _registered : compiledCond ctx (.binary .or left right) with
    | some c => c.ifTrue ctx jumpIfNull
    | none =>
      match _simpler : simplified? (.binary .or left right) with
      | some alt => condIfTrue ctx alt jumpIfNull
      | none =>
        match _order : andOrOrder ctx left right with
        | (first, second) => do
          if ← condIfTrue ctx first jumpIfNull then return true
          condIfTrue ctx second jumpIfNull
  | .unary .not expr => condIfFalse ctx expr jumpIfNull
  | .unary (.truth truth negated) expr =>
    if truth ^^ negated then condIfTrue ctx expr negated
    else condIfFalse ctx expr negated
  | .between expr low high negated => betweenJump ctx expr low high (!negated) jumpIfNull
  | e => do return valueHolds ctx (← evaluate ctx e) jumpIfNull
termination_by 2 * e.weight
decreasing_by
  all_goals first
    | have := weight_simplified _simpler; omega
    | have := weight_compiledCond _registered; omega
    | have := weight_andOrOrder _order; simp only [Expr.weight]; omega
    | simp only [Expr.weight]; omega

def CCond.ifFalse (ctx : EvalContext) (c : CCond) (jumpIfNull : Bool) : Result Bool :=
  match c with
  | .and a b => do
    if ← a.ifFalse ctx jumpIfNull then return true
    b.ifFalse ctx jumpIfNull
  | .or a b => do
    if ← a.ifTrue ctx !jumpIfNull then return false
    b.ifFalse ctx jumpIfNull
  | .not a => a.ifTrue ctx jumpIfNull
  | .walk p => condIfFalse ctx p jumpIfNull
  | .leaf c => do return valueFails ctx (← c.eval ctx) jumpIfNull
termination_by 2 * c.weight + 1
decreasing_by
  all_goals simp only [CCond.weight]
  · have := b.weight_pos; omega
  · have := a.weight_pos; omega
  · have := b.weight_pos; omega
  · have := a.weight_pos; omega
  · omega
  · omega

def CCond.ifTrue (ctx : EvalContext) (c : CCond) (jumpIfNull : Bool) : Result Bool :=
  match c with
  | .and a b => do
    if ← a.ifFalse ctx !jumpIfNull then return false
    b.ifTrue ctx jumpIfNull
  | .or a b => do
    if ← a.ifTrue ctx jumpIfNull then return true
    b.ifTrue ctx jumpIfNull
  | .not a => a.ifFalse ctx jumpIfNull
  | .walk p => condIfTrue ctx p jumpIfNull
  | .leaf c => do return valueHolds ctx (← c.eval ctx) jumpIfNull
termination_by 2 * c.weight + 1
decreasing_by
  all_goals simp only [CCond.weight]
  · have := b.weight_pos; omega
  · have := a.weight_pos; omega
  · have := b.weight_pos; omega
  · have := a.weight_pos; omega
  · omega
  · omega

end

/-- A condition passes when it is true. -/
def evaluateWhere (ctx : EvalContext) (e : Expr) : Result Bool := do
  return !(← condIfFalse ctx e true)

/-- A term that is always false empties the whole chain. -/
def anyFalseTerm : Expr → Bool
  | .binary .and left right => anyFalseTerm left || anyFalseTerm right
  | t => t.isTruthLiteral && match t with
    | .literal (.integer n) => n == 0
    | _ => false

/-- The terms of an `AND` chain, left to right: with `pass` only the terms whose
subquery status it names are coded. -/
def rejects (ctx : EvalContext) (pass : Option Bool) : Expr → Result Bool
  | .binary .and left right => do
    if ← rejects ctx pass left then return true
    rejects ctx pass right
  | t =>
    if pass.any (t.containsLiveSubquery != ·) then .ok false
    else condIfFalse ctx t true

def evaluateWhereTerms (ctx : EvalContext) (e : Expr) : Result Bool :=
  match e with
  | .binary .and _ _ => do
    if anyFalseTerm e then return false
    if !e.containsLiveSubquery then return !(← rejects ctx none e)
    if ← rejects ctx (some false) e then return false
    return !(← rejects ctx (some true) e)
  | e => evaluateWhere ctx e

/-- A `CHECK` constraint fails only on false. -/
def evaluateCheck (ctx : EvalContext) (e : Expr) : Result Bool := condIfTrue ctx e true

end RustSql.Executor
