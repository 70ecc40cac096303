import RustSql.Foundation.Kleene
import RustSql.Executor.Condition

/-! Every way of deciding a condition, in jump form, compiled or as a value, computes
its three-valued truth. -/

namespace RustSql.Executor

open RustSql.Foundation RustSql.Types RustSql.Sql

/-- The value of a truth: 1, 0 or `NULL`. -/
def ofTruth : Option Bool → Value
  | some b => ofBool b
  | none => .null

/-- The three-valued truth of a condition whose parts all evaluate: `AND`, `OR` and
`NOT` are Kleene's, `BETWEEN` is the conjunction of its two comparisons, and a leaf
has the truth of its value. -/
def kleene (ctx : EvalContext) (e : Expr) : Result (Option Bool) :=
  match e with
  | .binary .and left right => do return Kleene.and (← kleene ctx left) (← kleene ctx right)
  | .binary .or left right => do return Kleene.or (← kleene ctx left) (← kleene ctx right)
  | .unary .not expr => do return Kleene.not (← kleene ctx expr)
  | .unary (.truth keyword negated) expr => do
    return some ((← kleene ctx expr) == some keyword ^^ negated)
  | .between expr low high negated => do
    let ge ← evaluateUncompiled ctx (.binary .gtEq expr low)
    let le ← evaluateUncompiled ctx (.binary .ltEq expr high)
    let inRange := Kleene.and (truth ctx ge) (truth ctx le)
    return if negated then Kleene.not inRange else inRange
  | e => do return truth ctx (← evaluate ctx e)

/-- The expression has no NaN for a value. -/
def isNumber (ctx : EvalContext) (e : Expr) : Bool :=
  match evaluate ctx e with
  | .ok v => !v.isNaN
  | .error _ => true

/-- No operand of a `BETWEEN` of the condition is a NaN. -/
def comparable (ctx : EvalContext) : Expr → Bool
  | .binary .and left right | .binary .or left right => comparable ctx left && comparable ctx right
  | .unary .not expr | .unary (.truth _ _) expr => comparable ctx expr
  | .between expr low high _ => isNumber ctx expr && isNumber ctx low && isNumber ctx high
  | _ => true

/-- The conditions that are not a single leaf. -/
def isCompound : Expr → Bool
  | .binary .and _ _ | .binary .or _ _ | .unary .not _ | .unary (.truth _ _) _
  | .between _ _ _ _ => true
  | _ => false

section Truth

variable (ctx : EvalContext)

@[simp] theorem truth_ofBool (b : Bool) : truth ctx (ofBool b) = some b := by
  cases b <;> rfl

@[simp] theorem truth_ofTruth (k : Option Bool) : truth ctx (ofTruth k) = k := by
  cases k with
  | none => rfl
  | some b => exact truth_ofBool ctx b

theorem isTruthy_null {v : Value} (null : v.isNull = true) : ctx.isTruthy v = false := by
  cases v <;> first | rfl | cases null

theorem valueFails_eq (v : Value) (j : Bool) : valueFails ctx v j = Kleene.fails (truth ctx v) j := by
  unfold valueFails truth
  split <;> rfl

theorem valueHolds_eq (v : Value) (j : Bool) : valueHolds ctx v j = Kleene.holds (truth ctx v) j := by
  unfold valueHolds truth
  split <;> rfl

theorem applyBinary_and (l r : Value) :
    applyBinary ctx .and l r = ofTruth (Kleene.and (truth ctx l) (truth ctx r)) := by
  have leftNull := isTruthy_null ctx (v := l)
  have rightNull := isTruthy_null ctx (v := r)
  revert leftNull rightNull
  unfold applyBinary truth
  cases l.isNull <;> cases r.isNull <;> cases ctx.isTruthy l <;> cases ctx.isTruthy r <;>
    simp [ofTruth, ofBool, Kleene.and]

theorem applyBinary_or (l r : Value) :
    applyBinary ctx .or l r = ofTruth (Kleene.or (truth ctx l) (truth ctx r)) := by
  have leftNull := isTruthy_null ctx (v := l)
  have rightNull := isTruthy_null ctx (v := r)
  revert leftNull rightNull
  unfold applyBinary truth
  cases l.isNull <;> cases r.isNull <;> cases ctx.isTruthy l <;> cases ctx.isTruthy r <;>
    simp [ofTruth, ofBool, Kleene.or]

theorem applyUnary_not (v : Value) :
    applyUnary ctx .not v = ofTruth (Kleene.not (truth ctx v)) := by
  unfold applyUnary truth
  cases v.isNull <;> cases ctx.isTruthy v <;> rfl

theorem applyUnary_truth (keyword negated : Bool) (v : Value) :
    applyUnary ctx (.truth keyword negated) v
      = ofTruth (some (truth ctx v == some keyword ^^ negated)) := by
  unfold applyUnary truth
  cases v.isNull <;> cases ctx.isTruthy v <;> cases keyword <;> cases negated <;> rfl

end Truth

section Evaluation

variable {ctx : EvalContext}

theorem compiledEval_compound {e : Expr} (compound : isCompound e = true) :
    compiledEval ctx e = none := by
  unfold compiledEval
  split
  · fun_cases isCompound e <;> first | rfl | simp [isCompound] at compound
  · rfl

theorem evaluate_compound {e : Expr} (compound : isCompound e = true) :
    evaluate ctx e = evaluateUncompiled ctx e := by
  rw [evaluate, compiledEval_compound compound]

@[simp] theorem evaluate_literal (v : Value) : evaluate ctx (.literal v) = .ok v := by
  have missing : compiledEval ctx (.literal v) = none := by
    unfold compiledEval
    split <;> rfl
  rw [evaluate, missing, evaluateUncompiled]

theorem compile_eq_lit {e : Expr} {v : Value} (form : CExpr.compile ctx e = .lit v) :
    e = .literal v := by
  fun_cases CExpr.compile ctx e <;> simp only [CExpr.compile] at form
  case case1 => cases form; rfl
  case case7 => cases found : ctx.compiled e <;> simp [found] at form
  all_goals cases form

theorem compile_eq_fallback {e p : Expr} (form : CExpr.compile ctx e = .fallback p) : p = e := by
  fun_cases CExpr.compile ctx e <;> simp only [CExpr.compile] at form
  case case7 =>
    cases found : ctx.compiled e with
    | none => simpa [found] using form.symm
    | some outcome => simp [found] at form
  all_goals cases form <;> rfl

/-- In the operator's own scope a compiled leaf is what `evaluate` runs. -/
theorem eval_compile (active : ctx.active = true) (e : Expr) :
    (CExpr.compile ctx e).eval ctx = evaluate ctx e := by
  rw [evaluate, compiledEval, if_pos active]
  cases form : CExpr.compile ctx e with
  | code => rfl
  | lit v =>
    rw [compile_eq_lit form, evaluateUncompiled]
    rfl
  | fallback p =>
    rw [compile_eq_fallback form]
    rfl

theorem evaluateAndOr_simplified {op : BinaryOp} {left right alt : Expr}
    (simpler : simplified? (.binary op left right) = some alt) :
    evaluateAndOr ctx op left right = (do
      let v ← evaluate ctx alt
      return applyBinary ctx .and v v) := by
  rw [evaluateAndOr]
  split
  · rename_i found
    rw [simpler] at found
    cases found
    rfl
  · rename_i found
    rw [simpler] at found
    cases found

theorem evaluateAndOr_ordered {op : BinaryOp} {left right first second : Expr}
    (whole : simplified? (.binary op left right) = none)
    (order : andOrOrder ctx left right = (first, second)) :
    evaluateAndOr ctx op left right = (do
      let a ← evaluate ctx first
      if !a.isNull && ctx.evalHasSubquery second && op == .and && !ctx.isTruthy a then
        return .integer 0
      if !a.isNull && ctx.evalHasSubquery second && op == .or && ctx.isTruthy a then
        return .integer 1
      let b ← evaluate ctx second
      return applyBinary ctx op a b) := by
  rw [evaluateAndOr]
  split
  · rename_i found
    rw [whole] at found
    cases found
  · split
    rename_i found
    rw [order] at found
    cases found
    rfl

end Evaluation

section Simplification

variable {ctx : EvalContext}

theorem kleene_always {e : Expr} {b : Bool} (constant : always e b = true) :
    kleene ctx e = .ok (some b) := by
  unfold always at constant
  split at constant
  · rename_i n
    have same : (n != 0) = b := by simpa using (Bool.and_eq_true_iff.mp constant).2
    rw [kleene, evaluate_literal]
    · subst same
      rfl
    all_goals simp
  · simp at constant

/-- What `AND` and `OR` do with the truths of their operands. -/
def connective : BinaryOp → Option Bool → Option Bool → Option Bool
  | .and => Kleene.and
  | _ => Kleene.or

theorem kleene_deciding {op : BinaryOp} {l r alt : Expr} {a b : Option Bool}
    (left : kleene ctx l = .ok a) (right : kleene ctx r = .ok b)
    (isConnective : op = .and ∨ op = .or) (simpler : deciding op l r = some alt) :
    kleene ctx alt = .ok (connective op a b) := by
  have leftConstant {t : Bool} (constant : always l t = true) : a = some t :=
    Except.ok.inj (left.symm.trans (kleene_always constant))
  have rightConstant {t : Bool} (constant : always r t = true) : b = some t :=
    Except.ok.inj (right.symm.trans (kleene_always constant))
  unfold deciding at simpler
  split at simpler
  · rename_i decided
    rcases Bool.or_eq_true_iff.mp decided with constant | constant
    · cases leftConstant constant
      rcases isConnective with rfl | rfl <;> cases simpler <;> simp [connective, left, right]
    · cases rightConstant constant
      rcases isConnective with rfl | rfl <;> cases simpler <;> simp [connective, left, right]
  · split at simpler
    · rename_i decided
      rcases Bool.or_eq_true_iff.mp decided with constant | constant
      · cases rightConstant constant
        rcases isConnective with rfl | rfl <;> cases simpler <;> simp [connective, left, right]
      · cases leftConstant constant
        rcases isConnective with rfl | rfl <;> cases simpler <;> simp [connective, left, right]
    · cases simpler

/-- The truths of the operands of a connective whose truth is known. -/
theorem kleene_binary {op : BinaryOp} {left right : Expr} {k : Option Bool}
    (isConnective : op = .and ∨ op = .or) (value : kleene ctx (.binary op left right) = .ok k) :
    ∃ a b, kleene ctx left = .ok a ∧ kleene ctx right = .ok b ∧ k = connective op a b := by
  rcases isConnective with rfl | rfl <;> rw [kleene] at value <;>
    cases leftValue : kleene ctx left <;> cases rightValue : kleene ctx right <;>
    rw [leftValue, rightValue] at value <;> cases value <;> exact ⟨_, _, rfl, rfl, rfl⟩

/-- Leaving out the operands that do not decide keeps the truth. -/
theorem kleene_simplified {e alt : Expr} {k : Option Bool} (simpler : simplified? e = some alt)
    (value : kleene ctx e = .ok k) : kleene ctx alt = .ok k := by
  have kept (x : Expr) {a : Option Bool} (value : kleene ctx x = .ok a)
      (ih : ∀ {alt k}, simplified? x = some alt → kleene ctx x = .ok k → kleene ctx alt = .ok k) :
      kleene ctx ((simplified? x).getD x) = .ok a := by
    cases found : simplified? x with
    | none => exact value
    | some alt => exact ih found value
  fun_induction simplified? e generalizing alt k with
  | case1 left right ihLeft ihRight =>
    obtain ⟨a, b, leftValue, rightValue, rfl⟩ := kleene_binary (.inl rfl) value
    exact kleene_deciding (kept left leftValue ihLeft) (kept right rightValue ihRight) (.inl rfl)
      simpler
  | case2 left right ihLeft ihRight =>
    obtain ⟨a, b, leftValue, rightValue, rfl⟩ := kleene_binary (.inr rfl) value
    exact kleene_deciding (kept left leftValue ihLeft) (kept right rightValue ihRight) (.inr rfl)
      simpler
  | case3 => cases simpler

end Simplification

section Between

variable {ctx : EvalContext}

/-- A conversion that neither makes a value missing nor fills one in. -/
def KeepsPresence (before after : Value) : Prop :=
  after.isNull = before.isNull ∧ (before.isNaN = false → after.isNaN = false)

theorem keepsPresence_refl (v : Value) : KeepsPresence v v := ⟨rfl, id⟩

theorem keepsPresence_toNumeric (v : Value) : KeepsPresence v (toNumeric ctx v) := by
  cases v with
  | text bytes =>
    cases found : ctx.numericText bytes with
    | none =>
      simp only [toNumeric, found]
      exact keepsPresence_refl _
    | some number =>
      simp only [toNumeric, found]
      cases number with
      | integer i => exact ⟨rfl, fun _ => rfl⟩
      | real f number => exact ⟨rfl, fun _ => number⟩
  | _ => exact keepsPresence_refl _

theorem keepsPresence_toText (v : Value) : KeepsPresence v (toText ctx v) := by
  cases v with
  | integer i => exact ⟨rfl, fun _ => rfl⟩
  | real f => exact ⟨rfl, fun _ => rfl⟩
  | _ => exact keepsPresence_refl _

/-- Comparison affinity converts texts and numbers only. -/
theorem keepsPresence_coerce (ctx : EvalContext) (le : Expr) (l : Value) (re : Expr) (r : Value) :
    KeepsPresence l (coerceComparisonOperands ctx le l re r).1 ∧
      KeepsPresence r (coerceComparisonOperands ctx le l re r).2 := by
  unfold coerceComparisonOperands applyComparisonAffinity
  split
  · exact ⟨keepsPresence_refl l, keepsPresence_refl r⟩
  · split
    · exact ⟨keepsPresence_refl l, keepsPresence_refl r⟩
    · exact ⟨keepsPresence_toNumeric l, keepsPresence_toNumeric r⟩
    · exact ⟨keepsPresence_toText l, keepsPresence_toText r⟩

/-- The truth of `v op b` for two operands of `BETWEEN`, under a resolved collation. -/
def boundTruth (ctx : EvalContext) (op : BinaryOp) (x : Expr) (v : Value) (y : Expr) (b : Value)
    (collation : Option Collation) : Option Bool :=
  if v.isNull || b.isNull then none
  else
    let (v, b) := coerceComparisonOperands ctx x v y b
    some (accepts op (boundOrder ctx collation v b))

theorem cmpOperandMissing_eq {v w : Value} (kept : KeepsPresence v w) (number : v.isNaN = false) :
    cmpOperandMissing w = v.isNull := by
  simp [cmpOperandMissing, kept.1, kept.2 number]

variable {op : BinaryOp}

/-- A range comparison of two operands that are not NaN is the comparison `BETWEEN`
makes of them. -/
theorem finishBinary_range {x y : Expr} {v b g : Value} (range : op = .gtEq ∨ op = .ltEq)
    (leftNumber : v.isNaN = false) (rightNumber : b.isNaN = false)
    (finished : finishBinary ctx op x y v b = .ok g) :
    ∃ collation, resolveCollation ctx (ctx.collation x y) = .ok collation ∧
      truth ctx g = boundTruth ctx op x v y b collation := by
  obtain ⟨keepsLeft, keepsRight⟩ := keepsPresence_coerce ctx x v y b
  have missing : (cmpOperandMissing (coerceComparisonOperands ctx x v y b).1
      || cmpOperandMissing (coerceComparisonOperands ctx x v y b).2) = (v.isNull || b.isNull) := by
    rw [cmpOperandMissing_eq keepsLeft leftNumber, cmpOperandMissing_eq keepsRight rightNumber]
  have outcome (order : Ordering) : truth ctx (if v.isNull || b.isNull then .null
      else ofBool (accepts op order)) = if v.isNull || b.isNull then none
      else some (accepts op order) := by
    split
    · rfl
    · exact truth_ofBool ctx _
  have comparison : isComparison op = true := by
    rcases range with rfl | rfl <;> rfl
  have applied (l r : Value) : applyBinary ctx op l r =
      if cmpOperandMissing l || cmpOperandMissing r then .null
      else ofBool (accepts op (boundOrder ctx none l r)) := by
    rcases range with rfl | rfl <;> rfl
  simp only [finishBinary, comparison, if_true, applied, applyBinaryCollated, missing] at finished
  cases named : ctx.collation x y with
  | none =>
    rw [named] at finished
    cases finished
    exact ⟨none, rfl, outcome _⟩
  | some name =>
    simp only [named] at finished
    cases ordinary : isBinaryName name with
    | true =>
      rw [if_pos ordinary] at finished
      cases finished
      exact ⟨none, by simp [resolveCollation, ordinary], outcome _⟩
    | false =>
      cases found : ctx.lookupCollation name with
      | none => simp [ordinary, found] at finished
      | some collation =>
        simp only [ordinary, found] at finished
        cases finished
        exact ⟨some collation, by simp [resolveCollation, ordinary, found], outcome _⟩

theorem evaluateUncompiled_row {x y : Expr} (range : op = .gtEq ∨ op = .ltEq)
    (row : (x.isRow || y.isRow) = true) :
    evaluateUncompiled ctx (.binary op x y) = rowBinary ctx op x y := by
  rcases range with rfl | rfl <;> rw [evaluateUncompiled] <;> simp [row]

theorem evaluateUncompiled_range {x y : Expr} (range : op = .gtEq ∨ op = .ltEq)
    (leftFree : x.containsSubquery = false) (rightFree : y.containsSubquery = false)
    (scalar : (x.isRow || y.isRow) = false) :
    evaluateUncompiled ctx (.binary op x y) = (do
      let l ← evaluate ctx x
      let r ← evaluate ctx y
      finishBinary ctx op x y l r) := by
  rcases range with rfl | rfl <;> rw [evaluateUncompiled] <;>
    simp [scalar, EvalContext.evalHasSubquery, leftFree, rightFree]

/-- The two operands of a comparison of `BETWEEN` and the truth it has. -/
theorem bound_of_comparison {x y : Expr} {g : Value} (range : op = .gtEq ∨ op = .ltEq)
    (leftFree : x.containsSubquery = false) (rightFree : y.containsSubquery = false)
    (scalar : (x.isRow || y.isRow) = false) (leftNumber : isNumber ctx x = true)
    (rightNumber : isNumber ctx y = true)
    (compared : evaluateUncompiled ctx (.binary op x y) = .ok g) :
    ∃ v b collation, evaluate ctx x = .ok v ∧ evaluate ctx y = .ok b ∧
      resolveCollation ctx (ctx.collation x y) = .ok collation ∧
      truth ctx g = boundTruth ctx op x v y b collation := by
  rw [evaluateUncompiled_range range leftFree rightFree scalar] at compared
  unfold isNumber at leftNumber rightNumber
  cases left : evaluate ctx x with
  | error => rw [left] at compared; cases compared
  | ok v =>
    cases right : evaluate ctx y with
    | error => rw [left, right] at compared; cases compared
    | ok b =>
      rw [left, right] at compared
      simp only [left, right, Bool.not_eq_true'] at leftNumber rightNumber
      obtain ⟨collation, resolved, outcome⟩ :=
        finishBinary_range range leftNumber rightNumber compared
      exact ⟨v, b, collation, rfl, rfl, resolved, outcome⟩

/-- A comparison with a row value needs a row value on both sides. -/
theorem isRow_of_rowBinary {x y : Expr} {g : Value} (leftFree : x.containsSubquery = false)
    (rightFree : y.containsSubquery = false) (compared : rowBinary ctx op x y = .ok g) :
    x.isRow = true ∧ y.isRow = true := by
  unfold rowBinary at compared
  split at compared
  · exact ⟨rfl, rfl⟩
  · simp [Expr.containsSubquery, Expr.subqueryIn] at rightFree
  · simp [Expr.containsSubquery, Expr.subqueryIn] at leftFree
  · cases compared

theorem betweenBound_eq {x y : Expr} {v b : Value} {collation : Option Collation} {lower : Bool}
    (form : op = .gtEq ∧ lower = true ∨ op = .ltEq ∧ lower = false) (right : evaluate ctx y = .ok b)
    (resolved : resolveCollation ctx (ctx.collation x y) = .ok collation) :
    betweenBound ctx x v y lower = .ok (boundTruth ctx op x v y b collation) := by
  unfold betweenBound boundTruth
  rw [right, resolved]
  cases missing : v.isNull || b.isNull
  · rcases form with ⟨rfl, rfl⟩ | ⟨rfl, rfl⟩ <;> simp [missing, accepts, bind, Except.bind, pure, Except.pure]
  · simp [missing, bind, Except.bind, pure, Except.pure]

/-- The jump over two known comparisons. -/
theorem jump_eq (ge le : Option Bool) (ifTrue j : Bool) :
    (if ge.elim (if ifTrue then !j else j) (!·) then !ifTrue else le.elim j (· == ifTrue)) =
      if ifTrue then Kleene.holds (Kleene.and ge le) j else Kleene.fails (Kleene.and ge le) j := by
  rcases ge with _ | _ | _ <;> rcases le with _ | _ | _ <;> cases ifTrue <;> cases j <;> rfl

section Operands

variable {x lo hi : Expr} {ge le : Value}

/-- What a `BETWEEN` without subqueries over operands that are not NaN compares: rows
with rows, or three values, each with its own collation. -/
inductive Compares (ctx : EvalContext) (x lo hi : Expr) (ge le : Value) : Prop
  | rows (row : (x.isRow || lo.isRow || hi.isRow) = true)
      (lower : rowBinary ctx .gtEq x lo = .ok ge) (upper : rowBinary ctx .ltEq x hi = .ok le)
  | scalars {v a b : Value} {lowColl highColl : Option Collation}
      (scalar : (x.isRow || lo.isRow || hi.isRow) = false)
      (middle : evaluate ctx x = .ok v) (low : evaluate ctx lo = .ok a)
      (high : evaluate ctx hi = .ok b)
      (lowResolved : resolveCollation ctx (ctx.collation x lo) = .ok lowColl)
      (highResolved : resolveCollation ctx (ctx.collation x hi) = .ok highColl)
      (lower : truth ctx ge = boundTruth ctx .gtEq x v lo a lowColl)
      (upper : truth ctx le = boundTruth ctx .ltEq x v hi b highColl)

theorem compares_of_comparisons (middleFree : x.containsSubquery = false)
    (lowFree : lo.containsSubquery = false) (highFree : hi.containsSubquery = false)
    (middleNumber : isNumber ctx x = true) (lowNumber : isNumber ctx lo = true)
    (highNumber : isNumber ctx hi = true)
    (lower : evaluateUncompiled ctx (.binary .gtEq x lo) = .ok ge)
    (upper : evaluateUncompiled ctx (.binary .ltEq x hi) = .ok le) :
    Compares ctx x lo hi ge le := by
  cases row : x.isRow || lo.isRow || hi.isRow with
  | false =>
    simp only [Bool.or_eq_false_iff] at row
    obtain ⟨⟨middleScalar, lowScalar⟩, highScalar⟩ := row
    obtain ⟨v, a, lowColl, middle, low, lowResolved, lowTruth⟩ :=
      bound_of_comparison (.inl rfl) middleFree lowFree (by simp [middleScalar, lowScalar])
        middleNumber lowNumber lower
    obtain ⟨w, b, highColl, again, high, highResolved, highTruth⟩ :=
      bound_of_comparison (.inr rfl) middleFree highFree (by simp [middleScalar, highScalar])
        middleNumber highNumber upper
    cases middle.symm.trans again
    exact .scalars (by simp [middleScalar, lowScalar, highScalar]) middle low high lowResolved
      highResolved lowTruth highTruth
  | true =>
    refine .rows row ?_ ?_
    · by_cases pair : (x.isRow || lo.isRow) = true
      · rwa [evaluateUncompiled_row (.inl rfl) pair] at lower
      · have other : (x.isRow || hi.isRow) = true := by
          simp_all
        rw [evaluateUncompiled_row (.inr rfl) other] at upper
        obtain ⟨middle, _⟩ := isRow_of_rowBinary middleFree highFree upper
        simp [middle] at pair
    · by_cases pair : (x.isRow || hi.isRow) = true
      · rwa [evaluateUncompiled_row (.inr rfl) pair] at upper
      · have other : (x.isRow || lo.isRow) = true := by
          simp_all
        rw [evaluateUncompiled_row (.inl rfl) other] at lower
        obtain ⟨middle, _⟩ := isRow_of_rowBinary middleFree lowFree lower
        simp [middle] at pair

theorem betweenJump_eq (compares : Compares ctx x lo hi ge le) (ifTrue j : Bool) :
    betweenJump ctx x lo hi ifTrue j =
      .ok (if ifTrue then Kleene.holds (Kleene.and (truth ctx ge) (truth ctx le)) j
        else Kleene.fails (Kleene.and (truth ctx ge) (truth ctx le)) j) := by
  rw [← jump_eq]
  unfold betweenJump
  cases compares with
  | rows row lower upper =>
    rw [if_pos row, lower, upper]
    cases decided : (truth ctx ge).elim (if ifTrue then !j else j) (!·) <;>
      simp [decided, bind, Except.bind, pure, Except.pure]
  | scalars scalar middle low high lowResolved highResolved lower upper =>
    rw [if_neg (by simp [scalar]), middle]
    simp only [bind, Except.bind, pure, Except.pure,
      betweenBound_eq (.inl ⟨rfl, rfl⟩) low lowResolved,
      betweenBound_eq (.inr ⟨rfl, rfl⟩) high highResolved, ← lower, ← upper]
    cases decided : (truth ctx ge).elim (if ifTrue then !j else j) (!·) <;> simp

theorem evaluate_between (compares : Compares ctx x lo hi ge le) (negated : Bool) :
    evaluate ctx (.between x lo hi negated) =
      .ok (ofTruth (if negated then Kleene.not (Kleene.and (truth ctx ge) (truth ctx le))
        else Kleene.and (truth ctx ge) (truth ctx le))) := by
  rw [evaluate_compound rfl, evaluateUncompiled]
  cases compares with
  | rows row lower upper =>
    rw [if_pos row, lower, upper]
    cases negated
    · simp [bind, Except.bind, pure, Except.pure, applyBinary_and]
    · simp [bind, Except.bind, pure, Except.pure, applyBinary_and, applyUnary_not]
  | scalars scalar middle low high lowResolved highResolved lower upper =>
    rw [if_neg (by simp [scalar]), middle, low, high]
    simp only [bind, Except.bind, pure, Except.pure, lowResolved, highResolved,
      (keepsPresence_coerce ctx x _ lo _).2.1, (keepsPresence_coerce ctx x _ hi _).2.1]
    simp only [boundTruth, accepts] at lower upper
    rw [← lower, ← upper]
    rcases truth ctx ge with _ | _ | _ <;> rcases truth ctx le with _ | _ | _ <;>
      cases negated <;> rfl

end Operands

end Between

end RustSql.Executor
