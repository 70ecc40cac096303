import RustSql.Executor.ThreeValued

/-! Jump code, compiled conditions, `WHERE` terms, `CHECK` constraints and values all
follow the three-valued truth of a condition. -/

namespace RustSql.Executor

open RustSql.Foundation RustSql.Types RustSql.Sql

/-- Every evaluator of the condition computes the truth `k`: the walker as a value and
by both exits, and the compiled tree wherever the operator's scope is installed. -/
structure Agrees (ctx : EvalContext) (e : Expr) (k : Option Bool) : Prop where
  value : ∃ v, evaluate ctx e = .ok v ∧ truth ctx v = k ∧ (isCompound e = true → v = ofTruth k)
  ifFalse (j : Bool) : condIfFalse ctx e j = .ok (Kleene.fails k j)
  ifTrue (j : Bool) : condIfTrue ctx e j = .ok (Kleene.holds k j)
  compiledFalse (active : ctx.active = true) (j : Bool) :
    (CCond.compile ctx e).ifFalse ctx j = .ok (Kleene.fails k j)
  compiledTrue (active : ctx.active = true) (j : Bool) :
    (CCond.compile ctx e).ifTrue ctx j = .ok (Kleene.holds k j)

section Cases

variable {ctx : EvalContext}

variable {k : Option Bool}

theorem value_of_evaluate {e : Expr} (computed : evaluate ctx e = .ok (ofTruth k)) :
    ∃ v, evaluate ctx e = .ok v ∧ truth ctx v = k ∧ (isCompound e = true → v = ofTruth k) :=
  ⟨ofTruth k, computed, truth_ofTruth ctx k, fun _ => rfl⟩

theorem agrees_between {x lo hi : Expr} {ge le : Value} (compares : Compares ctx x lo hi ge le)
    (negated : Bool) :
    Agrees ctx (.between x lo hi negated)
      (if negated then Kleene.not (Kleene.and (truth ctx ge) (truth ctx le))
        else Kleene.and (truth ctx ge) (truth ctx le)) := by
  have ifFalse (j : Bool) : condIfFalse ctx (.between x lo hi negated) j = .ok (Kleene.fails
      (if negated then Kleene.not (Kleene.and (truth ctx ge) (truth ctx le))
        else Kleene.and (truth ctx ge) (truth ctx le)) j) := by
    rw [condIfFalse, betweenJump_eq compares]
    cases negated <;> simp
  have ifTrue (j : Bool) : condIfTrue ctx (.between x lo hi negated) j = .ok (Kleene.holds
      (if negated then Kleene.not (Kleene.and (truth ctx ge) (truth ctx le))
        else Kleene.and (truth ctx ge) (truth ctx le)) j) := by
    rw [condIfTrue, betweenJump_eq compares]
    cases negated <;> simp
  exact {
    value := value_of_evaluate (evaluate_between compares negated)
    ifFalse, ifTrue
    compiledFalse := fun _ j => by rw [CCond.compile, CCond.ifFalse, ifFalse]
    compiledTrue := fun _ j => by rw [CCond.compile, CCond.ifTrue, ifTrue] }

theorem agrees_not {e : Expr} (inner : Agrees ctx e k) :
    Agrees ctx (.unary .not e) (Kleene.not k) := by
  obtain ⟨v, computed, same, _⟩ := inner.value
  refine ⟨value_of_evaluate ?_, ?_, ?_, ?_, ?_⟩
  · rw [evaluate_compound rfl, evaluateUncompiled, computed, ← same, ← applyUnary_not]
    rfl
  · intro j
    rw [condIfFalse, inner.ifTrue, Kleene.fails_not]
  · intro j
    rw [condIfTrue, inner.ifFalse, Kleene.holds_not]
  · intro active j
    rw [CCond.compile, CCond.ifFalse, inner.compiledTrue active, Kleene.fails_not]
  · intro active j
    rw [CCond.compile, CCond.ifTrue, inner.compiledFalse active, Kleene.holds_not]

theorem agrees_truth {e : Expr} (inner : Agrees ctx e k) (keyword negated : Bool) :
    Agrees ctx (.unary (.truth keyword negated) e) (some (k == some keyword ^^ negated)) := by
  obtain ⟨v, computed, same, _⟩ := inner.value
  have ifFalse (j : Bool) : condIfFalse ctx (.unary (.truth keyword negated) e) j
      = .ok (Kleene.fails (some (k == some keyword ^^ negated)) j) := by
    rw [condIfFalse, inner.ifFalse, inner.ifTrue]
    rcases k with _ | _ | _ <;> cases keyword <;> cases negated <;> rfl
  have ifTrue (j : Bool) : condIfTrue ctx (.unary (.truth keyword negated) e) j
      = .ok (Kleene.holds (some (k == some keyword ^^ negated)) j) := by
    rw [condIfTrue, inner.ifFalse, inner.ifTrue]
    rcases k with _ | _ | _ <;> cases keyword <;> cases negated <;> rfl
  refine ⟨value_of_evaluate ?_, ifFalse, ifTrue, ?_, ?_⟩
  · rw [evaluate_compound rfl, evaluateUncompiled, computed, ← same, ← applyUnary_truth]
    rfl
  · intro active j
    rw [CCond.compile, CCond.ifFalse, ifFalse]
  · intro active j
    rw [CCond.compile, CCond.ifTrue, ifTrue]

variable {op : BinaryOp}

theorem compile_simplified {left right alt : Expr} (isConnective : op = .and ∨ op = .or)
    (simpler : simplified? (.binary op left right) = some alt) :
    CCond.compile ctx (.binary op left right) = CCond.compile ctx alt := by
  rcases isConnective with rfl | rfl
  all_goals
    rw [CCond.compile]
    split
    · rename_i found
      cases simpler.symm.trans found
      rfl
    · rename_i found
      cases simpler.symm.trans found

theorem compiledCond_eq_some {e : Expr} {c : CCond} (registered : compiledCond ctx e = some c) :
    ctx.active = true ∧ c = CCond.compile ctx e := by
  unfold compiledCond at registered
  split at registered
  · rename_i held
    cases registered
    exact ⟨(Bool.and_eq_true_iff.mp held).1, rfl⟩
  · cases registered

variable {left right : Expr}

/-- The registered jump tree of an `OR` answers for it, else the walker does. -/
theorem condIfFalse_or {j : Bool} (compiled : ctx.active = true →
      (CCond.compile ctx (.binary .or left right)).ifFalse ctx j = .ok (Kleene.fails k j))
    (simpler : ∀ alt, simplified? (.binary .or left right) = some alt →
      condIfFalse ctx alt j = .ok (Kleene.fails k j))
    (whole : simplified? (.binary .or left right) = none →
      ∀ first second, andOrOrder ctx left right = (first, second) →
        (do if ← condIfTrue ctx first !j then return false
            condIfFalse ctx second j) = .ok (Kleene.fails k j)) :
    condIfFalse ctx (.binary .or left right) j = .ok (Kleene.fails k j) := by
  rw [condIfFalse]
  split
  · rename_i registered
    obtain ⟨active, rfl⟩ := compiledCond_eq_some registered
    exact compiled active
  · split
    · exact simpler _ (by assumption)
    · split
      exact whole (by assumption) _ _ (by assumption)

theorem condIfTrue_or {j : Bool} (compiled : ctx.active = true →
      (CCond.compile ctx (.binary .or left right)).ifTrue ctx j = .ok (Kleene.holds k j))
    (simpler : ∀ alt, simplified? (.binary .or left right) = some alt →
      condIfTrue ctx alt j = .ok (Kleene.holds k j))
    (whole : simplified? (.binary .or left right) = none →
      ∀ first second, andOrOrder ctx left right = (first, second) →
        (do if ← condIfTrue ctx first j then return true
            condIfTrue ctx second j) = .ok (Kleene.holds k j)) :
    condIfTrue ctx (.binary .or left right) j = .ok (Kleene.holds k j) := by
  rw [condIfTrue]
  split
  · rename_i registered
    obtain ⟨active, rfl⟩ := compiledCond_eq_some registered
    exact compiled active
  · split
    · exact simpler _ (by assumption)
    · split
      exact whole (by assumption) _ _ (by assumption)

theorem condIfFalse_and {j : Bool}
    (simpler : ∀ alt, simplified? (.binary .and left right) = some alt →
      condIfFalse ctx alt j = .ok (Kleene.fails k j))
    (whole : simplified? (.binary .and left right) = none →
      ∀ first second, andOrOrder ctx left right = (first, second) →
        (do if ← condIfFalse ctx first j then return true
            condIfFalse ctx second j) = .ok (Kleene.fails k j)) :
    condIfFalse ctx (.binary .and left right) j = .ok (Kleene.fails k j) := by
  rw [condIfFalse]
  split
  · exact simpler _ (by assumption)
  · split
    exact whole (by assumption) _ _ (by assumption)

theorem condIfTrue_and {j : Bool}
    (simpler : ∀ alt, simplified? (.binary .and left right) = some alt →
      condIfTrue ctx alt j = .ok (Kleene.holds k j))
    (whole : simplified? (.binary .and left right) = none →
      ∀ first second, andOrOrder ctx left right = (first, second) →
        (do if ← condIfFalse ctx first !j then return false
            condIfTrue ctx second j) = .ok (Kleene.holds k j)) :
    condIfTrue ctx (.binary .and left right) j = .ok (Kleene.holds k j) := by
  rw [condIfTrue]
  split
  · exact simpler _ (by assumption)
  · split
    exact whole (by assumption) _ _ (by assumption)

theorem evaluate_connective (isConnective : op = .and ∨ op = .or) :
    evaluate ctx (.binary op left right) = evaluateAndOr ctx op left right := by
  rcases isConnective with rfl | rfl <;>
    rw [evaluate_compound rfl, evaluateUncompiled]

/-- What decides a connective decides every evaluator of it. -/
theorem agrees_simplified {left right alt : Expr} (isConnective : op = .and ∨ op = .or)
    (simpler : simplified? (.binary op left right) = some alt) (part : Agrees ctx alt k) :
    Agrees ctx (.binary op left right) k := by
  have compiledFalse (active : ctx.active = true) (j : Bool) :
      (CCond.compile ctx (.binary op left right)).ifFalse ctx j = .ok (Kleene.fails k j) := by
    rw [compile_simplified isConnective simpler, part.compiledFalse active]
  have compiledTrue (active : ctx.active = true) (j : Bool) :
      (CCond.compile ctx (.binary op left right)).ifTrue ctx j = .ok (Kleene.holds k j) := by
    rw [compile_simplified isConnective simpler, part.compiledTrue active]
  refine ⟨value_of_evaluate ?_, ?_, ?_, compiledFalse, compiledTrue⟩
  · obtain ⟨v, computed, same, _⟩ := part.value
    rw [evaluate_connective isConnective, evaluateAndOr_simplified simpler, computed]
    exact congrArg Except.ok (by rw [applyBinary_and, same, Kleene.and_self])
  · intro j
    have decided (other : Expr) (found : simplified? (.binary op left right) = some other) :
        condIfFalse ctx other j = .ok (Kleene.fails k j) := by
      cases simpler.symm.trans found
      exact part.ifFalse j
    rcases isConnective with rfl | rfl
    · exact condIfFalse_and decided fun whole => by cases simpler.symm.trans whole
    · exact condIfFalse_or (fun active => compiledFalse active j) decided fun whole => by
        cases simpler.symm.trans whole
  · intro j
    have decided (other : Expr) (found : simplified? (.binary op left right) = some other) :
        condIfTrue ctx other j = .ok (Kleene.holds k j) := by
      cases simpler.symm.trans found
      exact part.ifTrue j
    rcases isConnective with rfl | rfl
    · exact condIfTrue_and decided fun whole => by cases simpler.symm.trans whole
    · exact condIfTrue_or (fun active => compiledTrue active j) decided fun whole => by
        cases simpler.symm.trans whole

/-- Two tests in order, the second made only when the first does not decide. -/
theorem guarded_ok {first second : Result Bool} {a b decided : Bool} (tested : first = .ok a)
    (other : second = .ok b) :
    (do if ← first then return decided
        second) = .ok (if a then decided else b) := by
  subst tested other
  cases a <;> rfl

theorem connective_comm (op : BinaryOp) (a b : Option Bool) :
    connective op a b = connective op b a := by
  unfold connective
  split
  · exact Kleene.and_comm a b
  · exact Kleene.or_comm a b

theorem applyBinary_connective (isConnective : op = .and ∨ op = .or) (l r : Value) :
    applyBinary ctx op l r = ofTruth (connective op (truth ctx l) (truth ctx r)) := by
  rcases isConnective with rfl | rfl
  · exact applyBinary_and ctx l r
  · exact applyBinary_or ctx l r

/-- The value of a connective from the values of its operands, in either order. -/
theorem evaluateAndOr_eq {a b : Option Bool} (isConnective : op = .and ∨ op = .or)
    (whole : simplified? (.binary op left right) = none) (leftAgrees : Agrees ctx left a)
    (rightAgrees : Agrees ctx right b) :
    evaluateAndOr ctx op left right = .ok (ofTruth (connective op a b)) := by
  have ordered {first second : Expr} {a b : Option Bool}
      (order : andOrOrder ctx left right = (first, second))
      (firstAgrees : Agrees ctx first a) (secondAgrees : Agrees ctx second b) :
      evaluateAndOr ctx op left right = .ok (ofTruth (connective op a b)) := by
    obtain ⟨v, computed, rfl, _⟩ := firstAgrees.value
    obtain ⟨w, second, rfl, _⟩ := secondAgrees.value
    rw [evaluateAndOr_ordered whole order, computed]
    simp only [bind, Except.bind, pure, Except.pure]
    split
    · rename_i skipped
      simp only [Bool.and_eq_true, Bool.not_eq_true', beq_iff_eq] at skipped
      obtain ⟨⟨⟨present, _⟩, rfl⟩, falsy⟩ := skipped
      simp [connective, truth, present, falsy, ofTruth, ofBool]
    · split
      · rename_i skipped
        simp only [Bool.and_eq_true, Bool.not_eq_true', beq_iff_eq] at skipped
        obtain ⟨⟨⟨present, _⟩, rfl⟩, truthy⟩ := skipped
        simp [connective, truth, present, truthy, ofTruth, ofBool]
      · rw [second]
        exact congrArg Except.ok (applyBinary_connective isConnective v w)
  cases order : andOrOrder ctx left right with
  | mk first second =>
    rcases andOrOrder_cases order with ⟨rfl, rfl⟩ | ⟨rfl, rfl⟩
    · exact ordered order leftAgrees rightAgrees
    · rw [connective_comm]
      exact ordered order rightAgrees leftAgrees

theorem agrees_and {a b : Option Bool} (whole : simplified? (.binary .and left right) = none)
    (leftAgrees : Agrees ctx left a) (rightAgrees : Agrees ctx right b) :
    Agrees ctx (.binary .and left right) (Kleene.and a b) := by
  have compiled : CCond.compile ctx (.binary .and left right)
      = .and (CCond.compile ctx left) (CCond.compile ctx right) := by
    rw [CCond.compile]
    split
    · rename_i found
      cases whole.symm.trans found
    · rfl
  refine ⟨value_of_evaluate ?_, ?_, ?_, ?_, ?_⟩
  · rw [evaluate_connective (.inl rfl)]
    exact evaluateAndOr_eq (.inl rfl) whole leftAgrees rightAgrees
  · intro j
    refine condIfFalse_and (fun alt found => by cases whole.symm.trans found) ?_
    intro _ first second order
    rcases andOrOrder_cases order with ⟨rfl, rfl⟩ | ⟨rfl, rfl⟩
    · rw [guarded_ok (leftAgrees.ifFalse j) (rightAgrees.ifFalse j), Kleene.fails_and]
    · rw [guarded_ok (rightAgrees.ifFalse j) (leftAgrees.ifFalse j), Kleene.and_comm,
        Kleene.fails_and]
  · intro j
    refine condIfTrue_and (fun alt found => by cases whole.symm.trans found) ?_
    intro _ first second order
    rcases andOrOrder_cases order with ⟨rfl, rfl⟩ | ⟨rfl, rfl⟩
    · rw [guarded_ok (leftAgrees.ifFalse _) (rightAgrees.ifTrue j), Kleene.holds_and]
    · rw [guarded_ok (rightAgrees.ifFalse _) (leftAgrees.ifTrue j), Kleene.and_comm,
        Kleene.holds_and]
  · intro active j
    rw [compiled, CCond.ifFalse, guarded_ok (leftAgrees.compiledFalse active j)
      (rightAgrees.compiledFalse active j), Kleene.fails_and]
  · intro active j
    rw [compiled, CCond.ifTrue, guarded_ok (leftAgrees.compiledFalse active _)
      (rightAgrees.compiledTrue active j), Kleene.holds_and]

theorem agrees_or {a b : Option Bool} (whole : simplified? (.binary .or left right) = none)
    (leftAgrees : Agrees ctx left a) (rightAgrees : Agrees ctx right b) :
    Agrees ctx (.binary .or left right) (Kleene.or a b) := by
  have compiled : CCond.compile ctx (.binary .or left right)
      = .or (CCond.compile ctx left) (CCond.compile ctx right) := by
    rw [CCond.compile]
    split
    · rename_i found
      cases whole.symm.trans found
    · rfl
  have compiledFalse (active : ctx.active = true) (j : Bool) :
      (CCond.compile ctx (.binary .or left right)).ifFalse ctx j
        = .ok (Kleene.fails (Kleene.or a b) j) := by
    rw [compiled, CCond.ifFalse, guarded_ok (leftAgrees.compiledTrue active _)
      (rightAgrees.compiledFalse active j), Kleene.fails_or]
  have compiledTrue (active : ctx.active = true) (j : Bool) :
      (CCond.compile ctx (.binary .or left right)).ifTrue ctx j
        = .ok (Kleene.holds (Kleene.or a b) j) := by
    rw [compiled, CCond.ifTrue, guarded_ok (leftAgrees.compiledTrue active j)
      (rightAgrees.compiledTrue active j), Kleene.holds_or]
  refine ⟨value_of_evaluate ?_, ?_, ?_, compiledFalse, compiledTrue⟩
  · rw [evaluate_connective (.inr rfl)]
    exact evaluateAndOr_eq (.inr rfl) whole leftAgrees rightAgrees
  · intro j
    refine condIfFalse_or (fun active => compiledFalse active j)
      (fun alt found => by cases whole.symm.trans found) ?_
    intro _ first second order
    rcases andOrOrder_cases order with ⟨rfl, rfl⟩ | ⟨rfl, rfl⟩
    · rw [guarded_ok (leftAgrees.ifTrue _) (rightAgrees.ifFalse j), Kleene.fails_or]
    · rw [guarded_ok (rightAgrees.ifTrue _) (leftAgrees.ifFalse j), Kleene.or_comm,
        Kleene.fails_or]
  · intro j
    refine condIfTrue_or (fun active => compiledTrue active j)
      (fun alt found => by cases whole.symm.trans found) ?_
    intro _ first second order
    rcases andOrOrder_cases order with ⟨rfl, rfl⟩ | ⟨rfl, rfl⟩
    · rw [guarded_ok (leftAgrees.ifTrue j) (rightAgrees.ifTrue j), Kleene.holds_or]
    · rw [guarded_ok (rightAgrees.ifTrue j) (leftAgrees.ifTrue j), Kleene.or_comm,
        Kleene.holds_or]

section Leaf

variable {e : Expr} (leaf : isCompound e = false)

include leaf

theorem kleene_leaf : kleene ctx e = (do return truth ctx (← evaluate ctx e)) := by
  unfold kleene
  split <;> first | rfl | simp [isCompound] at leaf

theorem condIfFalse_leaf (j : Bool) :
    condIfFalse ctx e j = (do return valueFails ctx (← evaluate ctx e) j) := by
  unfold condIfFalse
  split <;> first | rfl | simp [isCompound] at leaf

theorem condIfTrue_leaf (j : Bool) :
    condIfTrue ctx e j = (do return valueHolds ctx (← evaluate ctx e) j) := by
  unfold condIfTrue
  split <;> first | rfl | simp [isCompound] at leaf

theorem compile_leaf : CCond.compile ctx e = .leaf (CExpr.compile ctx e) := by
  unfold CCond.compile
  split <;> first | rfl | simp [isCompound] at leaf

theorem agrees_leaf {k : Option Bool} (value : kleene ctx e = .ok k) : Agrees ctx e k := by
  rw [kleene_leaf leaf] at value
  cases computed : evaluate ctx e with
  | error => rw [computed] at value; cases value
  | ok v =>
    rw [computed] at value
    cases value
    refine ⟨⟨v, computed, rfl, fun compound => ?_⟩, ?_, ?_, ?_, ?_⟩
    · rw [leaf] at compound
      cases compound
    · intro j
      rw [condIfFalse_leaf leaf, computed]
      exact congrArg Except.ok (valueFails_eq ctx v j)
    · intro j
      rw [condIfTrue_leaf leaf, computed]
      exact congrArg Except.ok (valueHolds_eq ctx v j)
    · intro active j
      rw [compile_leaf leaf, CCond.ifFalse, eval_compile active, computed]
      exact congrArg Except.ok (valueFails_eq ctx v j)
    · intro active j
      rw [compile_leaf leaf, CCond.ifTrue, eval_compile active, computed]
      exact congrArg Except.ok (valueHolds_eq ctx v j)

end Leaf

end Cases

/-- What the operands of a connective inherit, its deciding part inherits. -/
theorem simplified_inherits {Holds : Expr → Prop}
    (operands : ∀ op left right, op = .and ∨ op = .or → Holds (.binary op left right) →
      Holds left ∧ Holds right)
    {e alt : Expr} (simpler : simplified? e = some alt) (whole : Holds e) : Holds alt := by
  have kept (x : Expr) (whole : Holds x)
      (ih : ∀ {alt}, simplified? x = some alt → Holds x → Holds alt) :
      Holds ((simplified? x).getD x) := by
    cases found : simplified? x with
    | none => exact whole
    | some alt => exact ih found whole
  fun_induction simplified? e generalizing alt with
  | case1 left right ihLeft ihRight =>
    obtain ⟨leftHolds, rightHolds⟩ := operands .and left right (.inl rfl) whole
    rcases deciding_eq_some simpler with rfl | rfl
    · exact kept left leftHolds ihLeft
    · exact kept right rightHolds ihRight
  | case2 left right ihLeft ihRight =>
    obtain ⟨leftHolds, rightHolds⟩ := operands .or left right (.inr rfl) whole
    rcases deciding_eq_some simpler with rfl | rfl
    · exact kept left leftHolds ihLeft
    · exact kept right rightHolds ihRight
  | case3 => cases simpler

/-- A condition the truth of which is stated: it holds no subquery, and no operand of
its `BETWEEN`s is a NaN. -/
structure Stated (ctx : EvalContext) (e : Expr) : Prop where
  free : e.containsSubquery = false
  numbers : comparable ctx e = true

variable {ctx : EvalContext}

theorem Stated.operands (op : BinaryOp) (left right : Expr) (isConnective : op = .and ∨ op = .or)
    (stated : Stated ctx (.binary op left right)) : Stated ctx left ∧ Stated ctx right := by
  obtain ⟨free, numbers⟩ := stated
  simp only [Expr.containsSubquery, Expr.subqueryIn, Bool.or_eq_false_iff] at free
  rcases isConnective with rfl | rfl
  all_goals
    simp only [comparable, Bool.and_eq_true] at numbers
    exact ⟨⟨free.1, numbers.1⟩, ⟨free.2, numbers.2⟩⟩

theorem agrees_connective {op : BinaryOp} {left right : Expr} {k : Option Bool}
    (isConnective : op = .and ∨ op = .or) (stated : Stated ctx (.binary op left right))
    (value : kleene ctx (.binary op left right) = .ok k)
    (ih : ∀ part, part.weight < (Expr.binary op left right).weight → Stated ctx part →
      ∀ k, kleene ctx part = .ok k → Agrees ctx part k) : Agrees ctx (.binary op left right) k := by
  obtain ⟨leftStated, rightStated⟩ := stated.operands op left right isConnective
  obtain ⟨a, b, leftValue, rightValue, rfl⟩ := kleene_binary isConnective value
  cases simpler : simplified? (.binary op left right) with
  | some alt =>
    exact agrees_simplified isConnective simpler (ih alt (weight_simplified simpler)
      (simplified_inherits Stated.operands simpler stated) _ (kleene_simplified simpler value))
  | none =>
    have leftAgrees := ih left (by simp only [Expr.weight]; omega) leftStated a leftValue
    have rightAgrees := ih right (by simp only [Expr.weight]; omega) rightStated b rightValue
    rcases isConnective with rfl | rfl
    · exact agrees_and simpler leftAgrees rightAgrees
    · exact agrees_or simpler leftAgrees rightAgrees

theorem agrees_betweenStated {x lo hi : Expr} {negated : Bool} {k : Option Bool}
    (stated : Stated ctx (.between x lo hi negated))
    (value : kleene ctx (.between x lo hi negated) = .ok k) :
    Agrees ctx (.between x lo hi negated) k := by
  obtain ⟨free, numbers⟩ := stated
  simp only [Expr.containsSubquery, Expr.subqueryIn, Bool.or_eq_false_iff] at free
  simp only [comparable, Bool.and_eq_true] at numbers
  rw [kleene] at value
  cases lower : evaluateUncompiled ctx (.binary .gtEq x lo) with
  | error => rw [lower] at value; cases value
  | ok ge =>
    cases upper : evaluateUncompiled ctx (.binary .ltEq x hi) with
    | error => rw [lower, upper] at value; cases value
    | ok le =>
      rw [lower, upper] at value
      cases value
      exact agrees_between (compares_of_comparisons free.1.1 free.1.2 free.2 numbers.1.1
        numbers.1.2 numbers.2 lower upper) negated

/-- By induction on the nodes of the condition, each evaluator follows its truth. -/
theorem agrees_of_kleene (e : Expr) (stated : Stated ctx e) (k : Option Bool)
    (value : kleene ctx e = .ok k) : Agrees ctx e k := by
  induction size : e.weight using Nat.strong_induction_on generalizing e k with
  | _ n ih =>
    subst size
    have smaller (part : Expr) (less : part.weight < e.weight) (stated : Stated ctx part)
        (k : Option Bool) (value : kleene ctx part = .ok k) : Agrees ctx part k :=
      ih part.weight less part stated k value rfl
    cases compound : isCompound e with
    | false => exact agrees_leaf compound value
    | true =>
      fun_cases isCompound e
      case case1 left right => exact agrees_connective (.inl rfl) stated value smaller
      case case2 left right => exact agrees_connective (.inr rfl) stated value smaller
      case case3 expr =>
        rw [kleene] at value
        cases inner : kleene ctx expr with
        | error => rw [inner] at value; cases value
        | ok a =>
          rw [inner] at value
          cases value
          exact agrees_not (smaller expr (by simp [Expr.weight]) ⟨stated.1, stated.2⟩ a inner)
      case case4 keyword negated expr =>
        rw [kleene] at value
        cases inner : kleene ctx expr with
        | error => rw [inner] at value; cases value
        | ok a =>
          rw [inner] at value
          cases value
          exact agrees_truth (smaller expr (by simp [Expr.weight]) ⟨stated.1, stated.2⟩ a inner)
            keyword negated
      case case5 x lo hi negated => exact agrees_betweenStated stated value
      case case6 => simp [isCompound] at compound

section Terms

variable {ctx : EvalContext}

variable {k : Option Bool}

variable {e : Expr}

/-- A term that is always false makes its `AND` chain false. -/
theorem kleene_anyFalseTerm (dead : anyFalseTerm e = true) (value : kleene ctx e = .ok k) :
    k = some false := by
  fun_induction anyFalseTerm e generalizing k with
  | case1 left right ihLeft ihRight =>
    obtain ⟨a, b, leftValue, rightValue, rfl⟩ := kleene_binary (.inl rfl) value
    rcases Bool.or_eq_true_iff.mp dead with dead | dead
    · rw [ihLeft dead leftValue]
      exact Kleene.false_and b
    · rw [ihRight dead rightValue]
      exact Kleene.and_false a
  | case2 t _ =>
    have constant : always t false = true := by
      unfold always
      split at dead
      · simpa using dead
      · simp at dead
    exact Except.ok.inj (value.symm.trans (kleene_always constant))

theorem rejects_term {t : Expr} (single : ∀ left right, t = .binary .and left right → False)
    (pass : Option Bool) :
    rejects ctx pass t = if pass.any (t.containsLiveSubquery != ·) then .ok false
      else condIfFalse ctx t true := by
  rw [rejects]
  exact single

/-- The terms of a chain are coded one after the other. -/
theorem rejects_all (stated : Stated ctx e) (value : kleene ctx e = .ok k) :
    rejects ctx none e = .ok (Kleene.fails k true) := by
  fun_induction anyFalseTerm e generalizing k with
  | case1 left right ihLeft ihRight =>
    obtain ⟨a, b, leftValue, rightValue, rfl⟩ := kleene_binary (.inl rfl) value
    obtain ⟨leftStated, rightStated⟩ := stated.operands .and left right (.inl rfl)
    rw [rejects, guarded_ok (ihLeft leftStated leftValue) (ihRight rightStated rightValue)]
    exact congrArg Except.ok (Kleene.fails_and a b true).symm
  | case2 t single =>
    rw [rejects_term single]
    exact (agrees_of_kleene t stated k value).ifFalse true

/-- Coding the live terms after the others codes every term once. -/
theorem rejects_passes (stated : Stated ctx e) (value : kleene ctx e = .ok k) :
    ∃ plain live, rejects ctx (some false) e = .ok plain ∧ rejects ctx (some true) e = .ok live ∧
      (plain || live) = Kleene.fails k true := by
  fun_induction anyFalseTerm e generalizing k with
  | case1 left right ihLeft ihRight =>
    obtain ⟨a, b, leftValue, rightValue, rfl⟩ := kleene_binary (.inl rfl) value
    obtain ⟨leftStated, rightStated⟩ := stated.operands .and left right (.inl rfl)
    obtain ⟨leftPlain, leftLive, leftFirst, leftSecond, leftSame⟩ := ihLeft leftStated leftValue
    obtain ⟨rightPlain, rightLive, rightFirst, rightSecond, rightSame⟩ :=
      ihRight rightStated rightValue
    refine ⟨leftPlain || rightPlain, leftLive || rightLive, ?_, ?_, ?_⟩
    · rw [rejects, guarded_ok leftFirst rightFirst]
      cases leftPlain <;> rfl
    · rw [rejects, guarded_ok leftSecond rightSecond]
      cases leftLive <;> rfl
    · rw [connective, Kleene.fails_and, ← leftSame, ← rightSame]
      cases leftPlain <;> cases leftLive <;> cases rightPlain <;> cases rightLive <;> rfl
  | case2 t single =>
    have coded := (agrees_of_kleene t stated k value).ifFalse true
    rw [rejects_term single, rejects_term single, coded]
    cases t.containsLiveSubquery
    · exact ⟨_, false, rfl, rfl, Bool.or_false _⟩
    · exact ⟨false, _, rfl, rfl, Bool.false_or _⟩

theorem evaluateWhere_eq (stated : Stated ctx e) (value : kleene ctx e = .ok k) :
    evaluateWhere ctx e = .ok (!Kleene.fails k true) := by
  rw [evaluateWhere, (agrees_of_kleene e stated k value).ifFalse]
  rfl

theorem evaluateWhereTerms_eq (stated : Stated ctx e) (value : kleene ctx e = .ok k) :
    evaluateWhereTerms ctx e = .ok (!Kleene.fails k true) := by
  unfold evaluateWhereTerms
  split
  · split
    · rename_i dead
      rw [kleene_anyFalseTerm dead value]
      rfl
    · rw [rejects_all stated value]
      obtain ⟨plain, live, first, second, same⟩ := rejects_passes stated value
      rw [first, second, ← same]
      cases Expr.containsLiveSubquery _ <;> cases plain <;> cases live <;> rfl
  · exact evaluateWhere_eq stated value

end Terms

theorem fails_eq_decide (k : Option Bool) (j : Bool) :
    Kleene.fails k j = decide (k = some false ∨ k = none ∧ j = true) :=
  (Bool.eq_iff_iff.mpr (by simpa using Kleene.fails_eq_true_iff k j))

theorem holds_eq_decide (k : Option Bool) (j : Bool) :
    Kleene.holds k j = decide (k = some true ∨ k = none ∧ j = true) :=
  (Bool.eq_iff_iff.mpr (by simpa using Kleene.holds_eq_true_iff k j))

/-- A condition without subqueries all of whose parts evaluate, and none of whose
`BETWEEN` operands is a NaN, is decided by its truth: the walker's two exits, the
compiled tree in the operator's own scope, the jump over a `BETWEEN`, a `WHERE`
condition, a `WHERE` clause split into terms and a `CHECK`. As a value it has that
truth, and a condition that is no single leaf is 1, 0 or `NULL`. -/
theorem condition_follows_truth (ctx : EvalContext) (e : Expr) (k : Option Bool)
    (free : e.containsSubquery = false) (numbers : comparable ctx e = true)
    (value : kleene ctx e = .ok k) :
    (∀ j, condIfFalse ctx e j = .ok (decide (k = some false ∨ k = none ∧ j = true))) ∧
    (∀ j, condIfTrue ctx e j = .ok (decide (k = some true ∨ k = none ∧ j = true))) ∧
    (ctx.active = true → ∀ j,
      (CCond.compile ctx e).ifFalse ctx j
        = .ok (decide (k = some false ∨ k = none ∧ j = true)) ∧
      (CCond.compile ctx e).ifTrue ctx j
        = .ok (decide (k = some true ∨ k = none ∧ j = true))) ∧
    (∀ x lo hi, e = .between x lo hi false → ∀ j,
      betweenJump ctx x lo hi false j = .ok (decide (k = some false ∨ k = none ∧ j = true)) ∧
      betweenJump ctx x lo hi true j = .ok (decide (k = some true ∨ k = none ∧ j = true))) ∧
    evaluateWhere ctx e = .ok (decide (k = some true)) ∧
    evaluateWhereTerms ctx e = .ok (decide (k = some true)) ∧
    evaluateCheck ctx e = .ok (decide (k ≠ some false)) ∧
    ∃ v, evaluate ctx e = .ok v ∧ truth ctx v = k ∧ (isCompound e = true → v = ofTruth k) := by
  have stated : Stated ctx e := ⟨free, numbers⟩
  have agrees := agrees_of_kleene e stated k value
  have passes : (!Kleene.fails k true) = decide (k = some true) := by
    rcases k with _ | _ | _ <;> rfl
  refine ⟨?_, ?_, ?_, ?_, ?_, ?_, ?_, agrees.value⟩
  · intro j
    rw [agrees.ifFalse, fails_eq_decide]
  · intro j
    rw [agrees.ifTrue, holds_eq_decide]
  · intro active j
    rw [agrees.compiledFalse active, agrees.compiledTrue active, fails_eq_decide, holds_eq_decide]
    exact ⟨rfl, rfl⟩
  · rintro x lo hi rfl j
    have ifFalse := agrees.ifFalse j
    have ifTrue := agrees.ifTrue j
    rw [condIfFalse] at ifFalse
    rw [condIfTrue] at ifTrue
    rw [ifFalse, ← fails_eq_decide, ← holds_eq_decide]
    exact ⟨rfl, ifTrue⟩
  · rw [evaluateWhere_eq stated value, passes]
  · rw [evaluateWhereTerms_eq stated value, passes]
  · rw [evaluateCheck, agrees.ifTrue]
    rcases k with _ | _ | _ <;> rfl

/-- A statement with one bound parameter and no columns, outside any operator scope. -/
def boundContext (parameter : Value) : EvalContext where
  nonzero _ := false
  numericText _ := none
  asText _ := []
  affinity _ := none
  collation _ _ := none
  lookupCollation _ := none
  textOrder := none
  arithmetic _ _ _ := .null
  asInteger _ := 0
  rowCompare _ _ _ := .error rowValueMisused
  rowSubquery _ _ _ := .error rowValueMisused
  walk
    | .parameter _ => .ok parameter
    | _ => .ok .null
  compiled _ := none
  active := false
  jumpTree _ := false
  subqueryFree := true

/-- `NOT NULL OR 2 BETWEEN 1 AND 3`. -/
def sampleCondition : Expr :=
  .binary .or (.unary .not (.literal .null))
    (.between (.literal (.integer 2)) (.literal (.integer 1)) (.literal (.integer 3)) false)

theorem sampleCondition_passes :
    sampleCondition.containsSubquery = false ∧
    comparable (boundContext .null) sampleCondition = true ∧
    kleene (boundContext .null) sampleCondition = .ok (some true) ∧
    evaluateWhereTerms (boundContext .null) sampleCondition = .ok true := by
  have free : sampleCondition.containsSubquery = false := by
    simp [sampleCondition, Expr.containsSubquery, Expr.subqueryIn]
  have numbers : comparable (boundContext .null) sampleCondition = true := by
    simp [sampleCondition, comparable, isNumber, Value.isNaN]
  have value : kleene (boundContext .null) sampleCondition = .ok (some true) := by
    have bound (op : BinaryOp) (range : op = .gtEq ∨ op = .ltEq) (a b : Int64) :
        evaluateUncompiled (boundContext .null)
          (.binary op (.literal (.integer a)) (.literal (.integer b)))
          = finishBinary (boundContext .null) op (.literal (.integer a)) (.literal (.integer b))
            (.integer a) (.integer b) := by
      rw [evaluateUncompiled_range range (by simp [Expr.containsSubquery, Expr.subqueryIn])
        (by simp [Expr.containsSubquery, Expr.subqueryIn]) rfl, evaluate_literal, evaluate_literal]
      rfl
    simp only [sampleCondition, kleene, bound .gtEq (.inl rfl), bound .ltEq (.inr rfl),
      evaluate_literal]
    decide
  have follows := condition_follows_truth (boundContext .null) sampleCondition (some true) free
    numbers value
  exact ⟨free, numbers, value, follows.2.2.2.2.2.1⟩

/-- A quiet NaN. -/
def nan : Binary64 := ⟨0x7FF8000000000000⟩

/-- The leaf `5` is true but its value is not 1; and with a NaN bound to `?`, both
comparisons of `? BETWEEN 1 AND 2` are `NULL` while the condition takes its false exit. -/
theorem leaf_value_and_nan_between :
    (kleene (boundContext .null) (.literal (.integer 5)) = .ok (some true) ∧
      evaluate (boundContext .null) (.literal (.integer 5)) = .ok (.integer 5)) ∧
    (kleene (boundContext (.real nan))
        (.between (.parameter "0") (.literal (.integer 1)) (.literal (.integer 2)) false)
        = .ok none ∧
      condIfFalse (boundContext (.real nan))
        (.between (.parameter "0") (.literal (.integer 1)) (.literal (.integer 2)) false) false
        = .ok true) := by
  have parameter : evaluate (boundContext (.real nan)) (.parameter "0") = .ok (.real nan) := by
    rw [evaluate]
    simp [compiledEval, boundContext, evaluateUncompiled]
  have bound (op : BinaryOp) (range : op = .gtEq ∨ op = .ltEq) (b : Int64) :
      evaluateUncompiled (boundContext (.real nan))
        (.binary op (.parameter "0") (.literal (.integer b)))
        = finishBinary (boundContext (.real nan)) op (.parameter "0") (.literal (.integer b))
          (.real nan) (.integer b) := by
    rw [evaluateUncompiled_range range (by simp [Expr.containsSubquery, Expr.subqueryIn])
      (by simp [Expr.containsSubquery, Expr.subqueryIn]) rfl, evaluate_literal, parameter]
    rfl
  refine ⟨⟨?_, evaluate_literal _⟩, ?_, ?_⟩
  · rw [kleene, evaluate_literal]
    · rfl
    all_goals simp
  · simp only [kleene, bound .gtEq (.inl rfl), bound .ltEq (.inr rfl)]
    decide
  · simp only [condIfFalse, betweenJump, betweenBound, parameter, evaluate_literal]
    decide

end RustSql.Executor
