import RustSql.Executor.RowCompare

/-! The scalar expansion of a comparison of row values, and when the row comparison
is equal to it: the rows know only `NULL` as missing, the scalar operators also NaN,
and the scalar `=` looks at the bytes of texts where the rows use their order. -/

namespace RustSql.Executor

open RustSql.Foundation RustSql.Types RustSql.Sql

/-- One pair of the items of two rows. -/
structure RowPair where
  le : Option Expr
  l : Value
  re : Option Expr
  r : Value

namespace RowPair

def left (p : RowPair) : Expr := p.le.getD noExpr

def right (p : RowPair) : Expr := p.re.getD noExpr

/-- The scalar comparison of the pair. -/
def compare (ctx : EvalContext) (op : BinaryOp) (p : RowPair) : Result (Option Bool) := do
  return truth ctx (← finishBinary ctx op p.left p.right p.l p.r)

/-- The scalar `IS` of the pair. -/
def same (ctx : EvalContext) (p : RowPair) : Result Bool :=
  let (l, r) := coerceComparisonOperands ctx p.left p.l p.right p.r
  if l.isNull && r.isNull then .ok true
  else if l.isNull || r.isNull then .ok false
  else do
    match ← resolveCollation ctx (ctx.collation p.left p.right) with
    | some coll => return compareCollated l r coll == .eq
    | none => return l.cmp r == .eq

end RowPair

/-- The operator of all pairs but the last. -/
def strict : BinaryOp → BinaryOp
  | .ltEq => .lt
  | .gtEq => .gt
  | op => op

section Expansion

variable (ctx : EvalContext)

def equalities : List RowPair → Result (Option Bool)
  | [] => .ok (some true)
  | p :: rest => do return Kleene.and (← p.compare ctx .eq) (← equalities rest)

def lexicographic (op : BinaryOp) : List RowPair → Result (Option Bool)
  | [] => .ok (some false)
  | [p] => p.compare ctx op
  | p :: rest => do
    let before ← p.compare ctx (strict op)
    let tied ← p.compare ctx .eq
    return Kleene.or before (Kleene.and tied (← lexicographic op rest))

def identities : List RowPair → Result Bool
  | [] => .ok true
  | p :: rest => do return (← p.same ctx) && (← identities rest)

/-- What a comparison of two rows says in terms of the comparisons of their items. -/
def expansion (op : BinaryOp) (nullEq : Bool) (pairs : List RowPair) : Result (Option Bool) :=
  if nullEq then do return some (← identities ctx pairs)
  else
    match op with
    | .eq => equalities ctx pairs
    | .notEq => do return Kleene.not (← equalities ctx pairs)
    | _ => lexicographic ctx op pairs

end Expansion

/-- What a comparison of a pair can see: is an item `NULL`, are both, is an operand a
NaN, how do the operands order, and are they the same to `=`? -/
structure Judgement where
  absent : Bool
  bothAbsent : Bool
  nan : Bool
  order : Ordering
  same : Bool
  coherent : bothAbsent = true → absent = true
deriving DecidableEq, Repr

/-- What `=` tests of two operands that are there. -/
def sameValue (coll : Option Collation) (l r : Value) : Bool :=
  match coll with
  | some c => compareCollated l r c == .eq
  | none => l.cmp r == .eq

namespace RowPair

/-- The collation of a pair; one nobody knows is an error before it is asked for. -/
def coll (ctx : EvalContext) (p : RowPair) : Option Collation :=
  (resolveCollation ctx (ctx.collation p.left p.right)).toOption.join

def judgement (ctx : EvalContext) (p : RowPair) : Judgement :=
  let (l, r) := coerceComparisonOperands ctx p.left p.l p.right p.r
  { absent := p.l.isNull || p.r.isNull
    bothAbsent := p.l.isNull && p.r.isNull
    nan := l.isNaN || r.isNaN
    order := boundOrder ctx (p.coll ctx) l r
    same := sameValue (p.coll ctx) l r
    coherent := by
      intro both
      rw [(Bool.and_eq_true_iff.mp both).1, Bool.true_or] }

end RowPair

namespace Judgement

/-- What the row comparison makes of a pair. -/
def ofRow (nullEq : Bool) (j : Judgement) : Option Ordering :=
  if j.absent then (if nullEq then some (if j.bothAbsent then .eq else .lt) else none)
  else some j.order

/-- What a scalar comparison makes of a pair. -/
def ofScalar (op : BinaryOp) (j : Judgement) : Option Bool :=
  if j.absent || j.nan then none
  else
    match op with
    | .eq => some j.same
    | .notEq => some !j.same
    | _ => some (accepts op j.order)

/-- What the scalar `IS` makes of a pair. -/
def ofIs (j : Judgement) : Bool := j.bothAbsent || (!j.absent && j.same)

end Judgement

section Judging

variable {ctx : EvalContext} {op : BinaryOp} {p : RowPair}

theorem resolved_coll {found : Option Collation}
    (resolved : resolveCollation ctx (ctx.collation p.left p.right) = .ok found) :
    p.coll ctx = found := by
  rw [RowPair.coll, resolved]
  rfl

theorem coerce_isNull (ctx : EvalContext) (le : Expr) (l : Value) (re : Expr) (r : Value) :
    (coerceComparisonOperands ctx le l re r).1.isNull = l.isNull ∧
      (coerceComparisonOperands ctx le l re r).2.isNull = r.isNull :=
  ⟨(keepsPresence_coerce ctx le l re r).1.1, (keepsPresence_coerce ctx le l re r).2.1⟩

/-- The truth of a comparison operator, from the order of its operands and from their
being the same. -/
def decided (op : BinaryOp) (same : Bool) (order : Ordering) : Bool :=
  match op with
  | .eq => same
  | .notEq => !same
  | _ => accepts op order

theorem ofScalar_eq (op : BinaryOp) (j : Judgement) :
    j.ofScalar op = if j.absent || j.nan then none else some (decided op j.same j.order) := by
  unfold Judgement.ofScalar decided
  cases op <;> rfl

theorem truth_applyBinary (comparison : isComparison op = true) (l r : Value) :
    truth ctx (applyBinary ctx op l r) =
      if cmpOperandMissing l || cmpOperandMissing r then none
      else some (decided op (sameValue none l r) (boundOrder ctx none l r)) := by
  cases op <;> simp only [isComparison, Bool.false_eq_true] at comparison <;>
    simp only [applyBinary] <;> split <;> first | rfl | exact truth_ofBool ctx _

theorem truth_applyBinaryCollated (comparison : isComparison op = true) (l r : Value)
    (coll : Collation) :
    truth ctx (applyBinaryCollated ctx op l r coll) =
      if cmpOperandMissing l || cmpOperandMissing r then none
      else some (decided op (sameValue (some coll) l r) (boundOrder ctx (some coll) l r)) := by
  rw [applyBinaryCollated, if_pos comparison]
  split
  · rfl
  · cases op <;> simp only [isComparison, Bool.false_eq_true] at comparison <;>
      exact truth_ofBool ctx _

/-- A scalar comparison that has a value knows its collation. -/
theorem truth_finishBinary {x y : Expr} {a b v : Value} (comparison : isComparison op = true)
    (finished : finishBinary ctx op x y a b = .ok v) :
    ∃ coll, resolveCollation ctx (ctx.collation x y) = .ok coll ∧
      truth ctx v =
        let (l, r) := coerceComparisonOperands ctx x a y b
        if cmpOperandMissing l || cmpOperandMissing r then none
        else some (decided op (sameValue coll l r) (boundOrder ctx coll l r)) := by
  simp only [finishBinary, comparison, if_true] at finished
  cases named : ctx.collation x y with
  | none =>
    rw [named] at finished
    cases finished
    exact ⟨none, rfl, truth_applyBinary comparison _ _⟩
  | some name =>
    simp only [named] at finished
    cases ordinary : isBinaryName name with
    | true =>
      rw [if_pos ordinary] at finished
      cases finished
      exact ⟨none, by simp [resolveCollation, ordinary], truth_applyBinary comparison _ _⟩
    | false =>
      cases known : ctx.lookupCollation name with
      | none => simp [ordinary, known] at finished
      | some coll =>
        simp only [ordinary, known] at finished
        cases finished
        exact ⟨some coll, by simp [resolveCollation, ordinary, known],
          truth_applyBinaryCollated comparison _ _ coll⟩

theorem missing_coerced (ctx : EvalContext) (p : RowPair) :
    (cmpOperandMissing (coerceComparisonOperands ctx p.left p.l p.right p.r).1
        || cmpOperandMissing (coerceComparisonOperands ctx p.left p.l p.right p.r).2) =
      ((p.judgement ctx).absent || (p.judgement ctx).nan) := by
  obtain ⟨left, right⟩ := coerce_isNull ctx p.left p.l p.right p.r
  simp only [cmpOperandMissing, left, right, RowPair.judgement]
  cases p.l.isNull <;> cases p.r.isNull <;> simp

theorem compare_judged {k : Option Bool} (comparison : isComparison op = true)
    (value : p.compare ctx op = .ok k) :
    (∃ coll, resolveCollation ctx (ctx.collation p.left p.right) = .ok coll) ∧
      k = (p.judgement ctx).ofScalar op := by
  cases finished : finishBinary ctx op p.left p.right p.l p.r with
  | error e =>
    rw [RowPair.compare, finished] at value
    cases value
  | ok v =>
    rw [RowPair.compare, finished] at value
    cases value
    obtain ⟨coll, resolved, outcome⟩ := truth_finishBinary comparison finished
    refine ⟨⟨coll, resolved⟩, ?_⟩
    rw [outcome, ofScalar_eq, ← missing_coerced]
    simp only [RowPair.judgement, resolved_coll resolved]

theorem rowPairCmp_judged {found : Option Collation} (nullEq : Bool)
    (resolved : resolveCollation ctx (ctx.collation p.left p.right) = .ok found) :
    rowPairCmp ctx p.le p.l p.re p.r nullEq = .ok ((p.judgement ctx).ofRow nullEq) := by
  have known := resolved_coll resolved
  unfold rowPairCmp Judgement.ofRow RowPair.judgement
  simp only [known]
  split
  · rfl
  · rw [← RowPair.left, ← RowPair.right, resolved]
    rfl

/-- `IS` compares what is there like `=`, and knows `NULL` from everything else. -/
theorem same_judged {b : Bool} (value : p.same ctx = .ok b) :
    b = (p.judgement ctx).ofIs ∧
      rowPairCmp ctx p.le p.l p.re p.r true = .ok ((p.judgement ctx).ofRow true) := by
  obtain ⟨left, right⟩ := coerce_isNull ctx p.left p.l p.right p.r
  simp only [RowPair.same, left, right] at value
  cases leftNull : p.l.isNull <;> cases rightNull : p.r.isNull <;>
    simp only [leftNull, rightNull] at value
  case false.false =>
    cases resolved : resolveCollation ctx (ctx.collation p.left p.right) with
    | error =>
      rw [resolved] at value
      cases value
    | ok coll =>
      refine ⟨?_, rowPairCmp_judged true resolved⟩
      rw [resolved] at value
      cases coll <;> cases value <;>
        simp [Judgement.ofIs, RowPair.judgement, leftNull, rightNull, resolved_coll resolved, sameValue]
  all_goals
    cases value
    simp [Judgement.ofIs, RowPair.judgement, rowPairCmp, Judgement.ofRow, leftNull, rightNull]

end Judging

/-- Two sides whose items all evaluate, to these pairs. -/
def Computes (ctx : EvalContext) (l r : RowSide) (pairs : List RowPair) : Prop :=
  l.cells ctx = pairs.map (fun p => (p.le, .ok p.l)) ∧
    r.cells ctx = pairs.map (fun p => (p.re, .ok p.r))

/-- The loop of a row comparison on what it sees of its pairs. -/
def rowVerdict (op : BinaryOp) (nullEq : Bool) (result : Option Bool) :
    List Judgement → Option Bool
  | [] => result
  | j :: rest =>
    if isEqMode op then
      match j.ofRow nullEq with
      | some .eq => rowVerdict op nullEq result rest
      | some _ => some false
      | none => rowVerdict op nullEq none rest
    else
      match j.ofRow nullEq with
      | none => none
      | some o =>
        if rowPass op rest.isEmpty o then result
        else if !rest.isEmpty && o == .eq then rowVerdict op nullEq result rest
        else some false

theorem rowLoop_judged {ctx : EvalContext} {nullEq : Bool} (op : BinaryOp) (pairs : List RowPair)
    (judged : ∀ p ∈ pairs, rowPairCmp ctx p.le p.l p.re p.r nullEq =
      .ok ((p.judgement ctx).ofRow nullEq)) (result : Option Bool) :
    rowLoop ctx op nullEq result (pairs.map fun p => ((p.le, .ok p.l), (p.re, .ok p.r))) =
      .ok (rowVerdict op nullEq result (pairs.map (·.judgement ctx))) := by
  induction pairs generalizing result with
  | nil => rfl
  | cons p rest ih =>
    have first := judged p List.mem_cons_self
    have ih := ih fun q member => judged q (List.mem_cons_of_mem p member)
    cases seen : (p.judgement ctx).ofRow nullEq with
    | none =>
      simp only [List.map_cons, rowLoop, rowVerdict, first, seen, bind, Except.bind, pure,
        Except.pure]
      split
      · exact ih none
      · rfl
    | some o =>
      simp only [List.map_cons, rowLoop, rowVerdict, first, seen, bind, Except.bind, pure,
        Except.pure, List.isEmpty_map]
      split
      · cases o <;> simp [ih]
      · split
        · rfl
        · split
          · exact ih result
          · rfl

/-- The Kleene conjunction of what the scalar `=` makes of the pairs. -/
def allEqual : List Judgement → Option Bool
  | [] => some true
  | j :: rest => Kleene.and (j.ofScalar .eq) (allEqual rest)

def lexicographicVerdict (op : BinaryOp) : List Judgement → Option Bool
  | [] => some false
  | [j] => j.ofScalar op
  | j :: rest =>
    Kleene.or (j.ofScalar (strict op))
      (Kleene.and (j.ofScalar .eq) (lexicographicVerdict op rest))

def expansionVerdict (op : BinaryOp) (nullEq : Bool) (js : List Judgement) : Option Bool :=
  if nullEq then some (js.all Judgement.ofIs)
  else
    match op with
    | .eq => allEqual js
    | .notEq => Kleene.not (allEqual js)
    | _ => lexicographicVerdict op js

section Expanding

variable {ctx : EvalContext} {pairs : List RowPair}

theorem equalities_judged {k : Option Bool} (value : equalities ctx pairs = .ok k) :
    (∀ p ∈ pairs, ∃ coll, resolveCollation ctx (ctx.collation p.left p.right) = .ok coll) ∧
      k = allEqual (pairs.map (·.judgement ctx)) := by
  induction pairs generalizing k with
  | nil =>
    cases value
    exact ⟨nofun, rfl⟩
  | cons p rest ih =>
    rw [equalities] at value
    cases first : p.compare ctx .eq with
    | error e =>
      rw [first] at value
      cases value
    | ok b =>
      cases others : equalities ctx rest with
      | error e =>
        rw [first, others] at value
        cases value
      | ok c =>
        rw [first, others] at value
        cases value
        obtain ⟨resolved, rfl⟩ := compare_judged rfl first
        obtain ⟨resolvedRest, rfl⟩ := ih others
        exact ⟨List.forall_mem_cons.mpr ⟨resolved, resolvedRest⟩, rfl⟩

theorem isComparison_strict {op : BinaryOp} (comparison : isComparison op = true) :
    isComparison (strict op) = true := by
  cases op <;> first | rfl | cases comparison

theorem lexicographic_judged {op : BinaryOp} {k : Option Bool} (comparison : isComparison op = true)
    (value : lexicographic ctx op pairs = .ok k) :
    (∀ p ∈ pairs, ∃ coll, resolveCollation ctx (ctx.collation p.left p.right) = .ok coll) ∧
      k = lexicographicVerdict op (pairs.map (·.judgement ctx)) := by
  induction pairs generalizing k with
  | nil =>
    cases value
    exact ⟨nofun, rfl⟩
  | cons p rest ih =>
    cases rest with
    | nil =>
      obtain ⟨resolved, rfl⟩ := compare_judged comparison value
      exact ⟨List.forall_mem_cons.mpr ⟨resolved, nofun⟩, rfl⟩
    | cons q rest =>
      rw [lexicographic] at value
      cases before : p.compare ctx (strict op) with
      | error e =>
        rw [before] at value
        cases value
      | ok b =>
        cases tied : p.compare ctx .eq with
        | error e =>
          rw [before, tied] at value
          cases value
        | ok t =>
          cases others : lexicographic ctx op (q :: rest) with
          | error e =>
            rw [before, tied, others] at value
            cases value
          | ok c =>
            rw [before, tied, others] at value
            cases value
            obtain ⟨resolved, rfl⟩ := compare_judged (isComparison_strict comparison) before
            obtain ⟨_, rfl⟩ := compare_judged rfl tied
            obtain ⟨resolvedRest, rfl⟩ := ih others
            exact ⟨List.forall_mem_cons.mpr ⟨resolved, resolvedRest⟩, rfl⟩
      · simp

theorem identities_judged {b : Bool} (value : identities ctx pairs = .ok b) :
    (∀ p ∈ pairs, rowPairCmp ctx p.le p.l p.re p.r true = .ok ((p.judgement ctx).ofRow true)) ∧
      b = (pairs.map (·.judgement ctx)).all Judgement.ofIs := by
  induction pairs generalizing b with
  | nil =>
    cases value
    exact ⟨nofun, rfl⟩
  | cons p rest ih =>
    rw [identities] at value
    cases first : p.same ctx with
    | error e =>
      rw [first] at value
      cases value
    | ok s =>
      cases others : identities ctx rest with
      | error e =>
        rw [first, others] at value
        cases value
      | ok c =>
        rw [first, others] at value
        cases value
        obtain ⟨rfl, compared⟩ := same_judged first
        obtain ⟨comparedRest, rfl⟩ := ih others
        exact ⟨List.forall_mem_cons.mpr ⟨compared, comparedRest⟩, by simp⟩

/-- An expansion that has a value has every collation, so that the pairs of the row
comparison are judged too. -/
theorem expansion_judged {op : BinaryOp} {nullEq : Bool} {k : Option Bool}
    (comparison : isComparison op = true) (value : expansion ctx op nullEq pairs = .ok k) :
    (∀ p ∈ pairs, rowPairCmp ctx p.le p.l p.re p.r nullEq =
        .ok ((p.judgement ctx).ofRow nullEq)) ∧
      k = expansionVerdict op nullEq (pairs.map (·.judgement ctx)) := by
  have judged (resolved : ∀ p ∈ pairs, ∃ coll,
      resolveCollation ctx (ctx.collation p.left p.right) = .ok coll) :
      ∀ p ∈ pairs, rowPairCmp ctx p.le p.l p.re p.r false =
        .ok ((p.judgement ctx).ofRow false) := by
    intro p member
    obtain ⟨coll, known⟩ := resolved p member
    exact rowPairCmp_judged false known
  cases nullEq with
  | true =>
    unfold expansion at value
    rw [if_pos rfl] at value
    cases found : identities ctx pairs with
    | error e =>
      rw [found] at value
      cases value
    | ok b =>
      rw [found] at value
      cases value
      obtain ⟨compared, rfl⟩ := identities_judged found
      exact ⟨compared, rfl⟩
  | false =>
    have lexicographically (value : lexicographic ctx op pairs = .ok k) :=
      lexicographic_judged comparison value
    cases op <;> simp only [isComparison, Bool.false_eq_true] at comparison
    case eq =>
      obtain ⟨resolved, rfl⟩ := equalities_judged value
      exact ⟨judged resolved, rfl⟩
    case notEq =>
      cases found : equalities ctx pairs with
      | error e =>
        simp only [expansion, found] at value
        cases value
      | ok b =>
        simp only [expansion, found] at value
        cases value
        obtain ⟨resolved, rfl⟩ := equalities_judged found
        exact ⟨judged resolved, rfl⟩
    all_goals
      obtain ⟨resolved, rfl⟩ := lexicographically value
      exact ⟨judged resolved, rfl⟩

end Expanding

end RustSql.Executor
