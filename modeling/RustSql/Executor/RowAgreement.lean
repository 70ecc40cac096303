import RustSql.Executor.RowExpansion
import RustSql.Executor.ConditionTruth

/-! When a comparison of row values is equal to its scalar expansion, and membership of
a row value. -/

namespace RustSql.Executor

open RustSql.Foundation RustSql.Types RustSql.Sql

namespace Judgement

/-- The row comparison takes the pair for unequal. -/
def apart (j : Judgement) : Bool := !j.absent && j.order != .eq

/-- The scalar `=` takes the pair for unequal. -/
def unequal (j : Judgement) : Bool := !j.absent && !j.nan && !j.same

end Judgement

/-- Both see a pair that decides, or neither does; and without one, a NaN does no harm
only beside a `NULL`. -/
def EqualityAgrees (js : List Judgement) : Prop :=
  ((∃ j ∈ js, j.apart) ↔ ∃ j ∈ js, j.unequal) ∧
    ((∃ j ∈ js, j.apart) ∨ (∃ j ∈ js, j.absent) ∨ ∀ j ∈ js, j.nan = false)

/-- The rows tie up to a `NULL`. -/
def EndsMissing : List Judgement → Prop
  | [] => False
  | j :: rest => j.absent ∨ j.order = .eq ∧ EndsMissing rest

/-- The rows tie up to a pair that goes against the operator. -/
def Refuted (op : BinaryOp) : List Judgement → Prop
  | [] => False
  | [j] => j.absent = false ∧ accepts op j.order = false
  | j :: rest => j.absent = false ∧
      (j.order ≠ .eq ∧ accepts op j.order = false ∨ j.order = .eq ∧ Refuted op rest)

/-- The pairs that are the same to `=` go up to one that goes against the operator. -/
def Unsatisfied (op : BinaryOp) : List Judgement → Prop
  | [] => False
  | [j] => j.absent = false ∧ j.nan = false ∧ accepts op j.order = false
  | j :: rest => j.absent = false ∧ j.nan = false ∧ accepts (strict op) j.order = false ∧
      (j.same = false ∨ Unsatisfied op rest)

/-- The pairs up to the one that decides are judged alike: a NaN ties and a `NULL`
decides after it, and a pair the order and `=` disagree about decides nothing else. -/
def Orderly (op : BinaryOp) : List Judgement → Prop
  | [] => True
  | [j] => j.absent ∨ j.nan = false
  | j :: rest =>
    j.absent ∨
      j.nan = true ∧ j.order = .eq ∧ EndsMissing rest ∨
      j.nan = false ∧
        (j.order = .eq ∧ j.same = true ∧ Orderly op rest ∨
          j.order = .eq ∧ j.same = false ∧ Refuted op rest ∨
          j.order ≠ .eq ∧ (j.same = false ∨ accepts op j.order = true ∨ Unsatisfied op rest))

/-- A pair without a `NULL` that only one of the two equalities accepts does no harm
where another pair is unequal anyway. -/
def IdentityAgrees (js : List Judgement) : Prop :=
  (∃ j ∈ js, j.absent ∧ j.bothAbsent = false) ∨
    ((∃ j ∈ js, j.apart) ↔ ∃ j ∈ js, j.absent = false ∧ j.same = false)

/-- The rows and the scalar operators judge the pairs alike as far as it matters. -/
def Agreeing (op : BinaryOp) (nullEq : Bool) (js : List Judgement) : Prop :=
  if nullEq then IdentityAgrees js
  else
    match op with
    | .eq | .notEq => EqualityAgrees js
    | _ => Orderly op js

section Equality

theorem rowVerdict_eqMode {op : BinaryOp} (mode : isEqMode op = true) (js : List Judgement)
    (result : Option Bool) :
    rowVerdict op false result js =
      if js.any Judgement.apart then some false
      else if js.any Judgement.absent then none else result := by
  induction js generalizing result with
  | nil => rfl
  | cons j rest ih =>
    rw [rowVerdict, if_pos mode]
    cases absent : j.absent with
    | true => simp [Judgement.ofRow, Judgement.apart, absent, ih]
    | false =>
      cases order : j.order <;> simp [Judgement.ofRow, Judgement.apart, absent, order, ih]

theorem allEqual_eq (js : List Judgement) :
    allEqual js =
      if js.any Judgement.unequal then some false
      else if js.any (fun j => j.absent || j.nan) then none else some true := by
  induction js with
  | nil => rfl
  | cons j rest ih =>
    rw [allEqual, ih, List.any_cons, List.any_cons]
    generalize rest.any Judgement.unequal = unequal
    generalize rest.any (fun j => j.absent || j.nan) = missing
    cases absent : j.absent <;> cases nan : j.nan <;> cases same : j.same <;>
      cases unequal <;> cases missing <;>
      simp [Judgement.ofScalar, Judgement.unequal, absent, nan, same, Kleene.and]

theorem rowVerdict_isMode (js : List Judgement) :
    rowVerdict .eq true (some true) js =
      some (!js.any fun j => j.absent && !j.bothAbsent || j.apart) := by
  induction js with
  | nil => rfl
  | cons j rest ih =>
    have coherent := j.coherent
    rw [rowVerdict, if_pos (by rfl)]
    cases absent : j.absent <;> cases both : j.bothAbsent <;> cases order : j.order <;>
      simp_all [Judgement.ofRow, Judgement.apart]

theorem any_or (js : List Judgement) (f g : Judgement → Bool) :
    (js.any fun j => f j || g j) = (js.any f || js.any g) := by
  rw [Bool.eq_iff_iff]
  simp [and_or_left, exists_or]

theorem equality_agrees_iff (js : List Judgement) :
    rowVerdict .eq false (some true) js = allEqual js ↔ EqualityAgrees js := by
  have apart := List.any_eq_true (l := js) (p := Judgement.apart)
  have unequal := List.any_eq_true (l := js) (p := Judgement.unequal)
  have absent := List.any_eq_true (l := js) (p := Judgement.absent)
  have numbers : (js.any fun j => j.nan) = false ↔ ∀ j ∈ js, j.nan = false := by simp
  rw [rowVerdict_eqMode (by rfl), allEqual_eq, EqualityAgrees, ← apart, ← unequal, ← absent,
    ← numbers, any_or]
  cases js.any Judgement.apart <;> cases js.any Judgement.unequal <;>
    cases js.any Judgement.absent <;> cases (js.any fun j => j.nan) <;> simp

theorem notEq_agrees_iff (js : List Judgement) :
    Kleene.not (rowVerdict .notEq false (some true) js) = Kleene.not (allEqual js) ↔
      EqualityAgrees js := by
  have injective : Function.Injective Kleene.not := by
    intro a b same
    rcases a with _ | _ | _ <;> rcases b with _ | _ | _ <;> simp_all [Kleene.not]
  rw [injective.eq_iff, ← equality_agrees_iff, rowVerdict_eqMode (by rfl),
    rowVerdict_eqMode (by rfl)]

theorem identity_agrees_iff (js : List Judgement) :
    rowVerdict .eq true (some true) js = some (js.all Judgement.ofIs) ↔ IdentityAgrees js := by
  have alone := List.any_eq_true (l := js) (p := fun j => j.absent && !j.bothAbsent)
  have apart := List.any_eq_true (l := js) (p := Judgement.apart)
  have differ := List.any_eq_true (l := js) (p := fun j => !j.absent && !j.same)
  simp only [Bool.and_eq_true, Bool.not_eq_true'] at alone differ
  have pointwise : Judgement.ofIs =
      fun j => !((j.absent && !j.bothAbsent) || (!j.absent && !j.same)) := by
    funext j
    have coherent := j.coherent
    unfold Judgement.ofIs
    cases absent : j.absent <;> cases both : j.bothAbsent <;> cases j.same <;> simp_all
  have scalar : js.all Judgement.ofIs =
      !((js.any fun j => j.absent && !j.bothAbsent) || js.any fun j => !j.absent && !j.same) := by
    rw [pointwise, ← List.not_any_eq_all_not, any_or]
  rw [rowVerdict_isMode, IdentityAgrees, Option.some_inj, any_or, scalar, ← alone, ← apart, ← differ]
  cases (js.any fun j => j.absent && !j.bothAbsent) <;> cases js.any Judgement.apart <;>
    cases (js.any fun j => !j.absent && !j.same) <;> simp

end Equality

section Order

variable {op : BinaryOp}

/-- The operators that order. -/
def isRange : BinaryOp → Bool
  | .lt | .ltEq | .gt | .gtEq => true
  | _ => false

theorem isEqMode_range (range : isRange op = true) : isEqMode op = false := by
  cases op <;> first | rfl | cases range

theorem rowPass_last (range : isRange op = true) (o : Ordering) :
    rowPass op true o = accepts op o := by
  cases op <;> first | rfl | cases range

theorem rowPass_strict (range : isRange op = true) (o : Ordering) :
    rowPass op false o = accepts (strict op) o := by
  cases op <;> first | rfl | cases range

theorem accepts_strict_eq (range : isRange op = true) : accepts (strict op) .eq = false := by
  cases op <;> first | rfl | cases range

theorem accepts_strict_of_ne {o : Ordering} (differ : o ≠ .eq) :
    accepts (strict op) o = accepts op o := by
  cases op <;> cases o <;> first | exact absurd rfl differ | rfl

theorem ofScalar_range (range : isRange op = true) (j : Judgement) :
    j.ofScalar op = if j.absent || j.nan then none else some (accepts op j.order) := by
  cases op <;> first | rfl | cases range

theorem isRange_strict (range : isRange op = true) : isRange (strict op) = true := by
  cases op <;> first | rfl | cases range

theorem rowVerdict_last (range : isRange op = true) (j : Judgement) :
    rowVerdict op false (some true) [j] =
      if j.absent then none else some (accepts op j.order) := by
  rw [rowVerdict, if_neg (by simp [isEqMode_range range])]
  cases absent : j.absent <;> cases accepted : accepts op j.order <;>
    simp [Judgement.ofRow, absent, rowPass_last range, accepted]

/-- A pair that is not the last one decides unless it ties. -/
theorem rowVerdict_more (range : isRange op = true) (j next : Judgement) (rest : List Judgement) :
    rowVerdict op false (some true) (j :: next :: rest) =
      if j.absent then none
      else if j.order = .eq then rowVerdict op false (some true) (next :: rest)
      else some (accepts op j.order) := by
  rw [rowVerdict, if_neg (by simp [isEqMode_range range])]
  cases absent : j.absent with
  | true => simp [Judgement.ofRow, absent]
  | false =>
    by_cases tie : j.order = .eq
    · simp [Judgement.ofRow, absent, tie, rowPass_strict range, accepts_strict_eq range]
    · cases accepted : accepts op j.order <;>
        simp [Judgement.ofRow, absent, tie, rowPass_strict range, accepts_strict_of_ne tie,
          accepted]

theorem rowVerdict_none_iff (range : isRange op = true) (js : List Judgement) (nonempty : js ≠ []) :
    rowVerdict op false (some true) js = none ↔ EndsMissing js := by
  induction js with
  | nil => exact absurd rfl nonempty
  | cons j rest ih =>
    cases rest with
    | nil => simp [rowVerdict_last range, EndsMissing]
    | cons next rest =>
      rw [rowVerdict_more range, EndsMissing, ← ih (List.cons_ne_nil _ _)]
      cases j.absent <;> by_cases tie : j.order = .eq <;> simp [tie]

theorem rowVerdict_false_iff (range : isRange op = true) (js : List Judgement)
    (nonempty : js ≠ []) : rowVerdict op false (some true) js = some false ↔ Refuted op js := by
  induction js with
  | nil => exact absurd rfl nonempty
  | cons j rest ih =>
    cases rest with
    | nil => cases absent : j.absent <;> simp [rowVerdict_last range, Refuted, absent]
    | cons next rest =>
      rw [rowVerdict_more range, Refuted, ← ih (List.cons_ne_nil _ _)]
      · cases j.absent <;> by_cases tie : j.order = .eq <;> simp [tie]
      · simp

theorem lexicographicVerdict_false_iff (range : isRange op = true) (js : List Judgement)
    (nonempty : js ≠ []) : lexicographicVerdict op js = some false ↔ Unsatisfied op js := by
  induction js with
  | nil => exact absurd rfl nonempty
  | cons j rest ih =>
    cases rest with
    | nil =>
      cases absent : j.absent <;> cases nan : j.nan <;>
        simp [lexicographicVerdict, Unsatisfied, absent, nan, ofScalar_range range]
    | cons next rest =>
      rw [lexicographicVerdict, Unsatisfied, ← ih (List.cons_ne_nil _ _),
        ofScalar_range (isRange_strict range)]
      · generalize lexicographicVerdict op (next :: rest) = tail
        cases absent : j.absent <;> cases nan : j.nan <;> cases same : j.same <;>
          cases accepts (strict op) j.order <;> rcases tail with _ | _ | _ <;>
          simp [Judgement.ofScalar, absent, nan, same, Kleene.and, Kleene.or]
      · simp
      · simp

theorem order_agrees_iff (range : isRange op = true) (js : List Judgement) (nonempty : js ≠ []) :
    rowVerdict op false (some true) js = lexicographicVerdict op js ↔ Orderly op js := by
  induction js with
  | nil => exact absurd rfl nonempty
  | cons j rest ih =>
    cases rest with
    | nil =>
      rw [rowVerdict_last range, lexicographicVerdict, ofScalar_range range, Orderly]
      cases j.absent <;> cases j.nan <;> simp
    | cons next rest =>
      have more : next :: rest ≠ [] := List.cons_ne_nil _ _
      rw [rowVerdict_more range, Orderly, ← ih more, ← rowVerdict_none_iff range _ more,
        ← rowVerdict_false_iff range _ more, ← lexicographicVerdict_false_iff range _ more,
        lexicographicVerdict, ofScalar_range (isRange_strict range)]
      · generalize lexicographicVerdict op (next :: rest) = tail
        generalize rowVerdict op false (some true) (next :: rest) = verdict
        by_cases tie : j.order = .eq
        · rw [tie, accepts_strict_eq range]
          cases absent : j.absent <;> cases nan : j.nan <;> cases same : j.same <;>
            rcases tail with _ | _ | _ <;> rcases verdict with _ | _ | _ <;>
            simp [Judgement.ofScalar, absent, nan, same, Kleene.and, Kleene.or]
        · rw [accepts_strict_of_ne tie]
          cases absent : j.absent <;> cases nan : j.nan <;> cases same : j.same <;>
            cases accepts op j.order <;> rcases tail with _ | _ | _ <;>
            simp [tie, Judgement.ofScalar, absent, nan, same, Kleene.and, Kleene.or]
      · simp
      · simp

end Order

section Comparison

variable {ctx : EvalContext} {op : BinaryOp} {nullEq : Bool}

/-- The loop's result, negated for `<>`, against the expansion of the same judgements. -/
theorem verdict_agrees_iff (comparison : isComparison op = true)
    (identity : nullEq = true → op = .eq) (js : List Judgement) (nonempty : js ≠ []) :
    (if op = .notEq then Kleene.not (rowVerdict op nullEq (some true) js)
        else rowVerdict op nullEq (some true) js) = expansionVerdict op nullEq js ↔
      Agreeing op nullEq js := by
  cases nullEq with
  | true =>
    cases identity rfl
    exact identity_agrees_iff js
  | false =>
    cases op <;> simp only [isComparison, Bool.false_eq_true] at comparison
    case eq => exact equality_agrees_iff js
    case notEq => exact notEq_agrees_iff js
    all_goals exact order_agrees_iff rfl js nonempty

theorem rowCompare_judged {l r : RowSide} {pairs : List RowPair}
    (comparison : isComparison op = true) (computed : Computes ctx l r pairs)
    (judged : ∀ p ∈ pairs, rowPairCmp ctx p.le p.l p.re p.r nullEq =
      .ok ((p.judgement ctx).ofRow nullEq)) :
    rowCompare ctx op l r nullEq = .ok (ofTruth
      (if op = .notEq then Kleene.not (rowVerdict op nullEq (some true) (pairs.map (·.judgement ctx)))
        else rowVerdict op nullEq (some true) (pairs.map (·.judgement ctx)))) := by
  obtain ⟨left, right⟩ := computed
  have wide : l.len = r.len := by
    rw [← l.length_cells ctx, ← r.length_cells ctx, left, right, List.length_map, List.length_map]
  have loop := rowLoop_judged op pairs judged (some true)
  rw [← List.zip_map'] at loop
  rw [rowCompare, if_neg (not_not.mpr wide), if_neg (by simp [comparison]), left, right, loop]
  rfl

theorem ofTruth_injective : Function.Injective ofTruth := by
  intro a b same
  rcases a with _ | _ | _ <;> rcases b with _ | _ | _ <;>
    first | rfl | exact absurd same (by decide)

theorem rowCompare_iff {l r : RowSide} {pairs : List RowPair} {k : Option Bool}
    (comparison : isComparison op = true) (identity : nullEq = true → op = .eq)
    (nonempty : pairs ≠ []) (computed : Computes ctx l r pairs)
    (value : expansion ctx op nullEq pairs = .ok k) :
    rowCompare ctx op l r nullEq = .ok (ofTruth k) ↔
      Agreeing op nullEq (pairs.map (·.judgement ctx)) := by
  obtain ⟨judged, rfl⟩ := expansion_judged comparison value
  rw [rowCompare_judged comparison computed judged, Except.ok.injEq, ofTruth_injective.eq_iff]
  exact verdict_agrees_iff comparison identity _ (by simpa using nonempty)

end Comparison

section Membership

variable {ctx : EvalContext}

/-- The Kleene disjunction of row equalities. -/
def anyRow (truths : List (Option Bool)) : Option Bool := truths.foldr Kleene.or (some false)

/-- What the probes have seen stands for this truth. -/
def Probed.truth (seen : Probed) : Option Bool :=
  if seen.found then some true else if seen.sawNull then none else some false

/-- A probe that does not find the row adds its equality to what has been seen. -/
theorem truth_sawNull (seen : Probed) (unfound : seen.found = false) (any : Bool) :
    Probed.truth { seen with any := any, sawNull := true } = Kleene.or seen.truth none := by
  cases null : seen.sawNull <;> simp [Probed.truth, unfound, null, Kleene.or]

theorem probeRows_truth {lhs : RowSide} {sides : List RowSide} {truths : List (Option Bool)}
    (compared : List.Forall₂ (fun side k => rowCompare ctx .eq lhs side false = .ok (ofTruth k))
      sides truths) (seen : Probed) (unfound : seen.found = false)
    (known : seen.sawNull = true → seen.any = true) :
    ∃ after, probeRows ctx lhs seen (sides.map .ok) = .ok after ∧
      after.truth = Kleene.or seen.truth (anyRow truths) ∧
      (after.any = false → after.found = false ∧ after.sawNull = false) := by
  induction compared generalizing seen with
  | nil =>
    refine ⟨seen, rfl, ?_, fun quiet => ⟨unfound, ?_⟩⟩
    · exact (Kleene.or_false _).symm
    · by_contra null
      simp_all
  | @cons side k sides truths first _ ih =>
    have step (after : Probed) : anyRow (k :: truths) = Kleene.or k (anyRow truths) := rfl
    rw [List.map_cons, probeRows, step seen, ← Kleene.or_assoc]
    simp only [bind, Except.bind, first]
    rcases k with _ | _ | _
    · rw [← truth_sawNull seen unfound true]
      exact ih _ unfound fun _ => rfl
    · rw [Kleene.or_false]
      exact ih { seen with any := true } unfound fun _ => rfl
    · refine ⟨_, rfl, ?_, nofun⟩
      rw [Kleene.or_true, Kleene.true_or]
      rfl

/-- `IN` over rows is the disjunction of the row equalities, `NOT IN` its negation. -/
theorem evaluateInRow_eq {queries : Subqueries} {items : List Expr} {source : InSource}
    {vals : { vals : List Value // items.length = vals.length }} {sides : List RowSide}
    {truths : List (Option Bool)} (negated : Bool) (computed : evaluateItems ctx items = .ok vals)
    (listed : inRowSides queries items.length source = .ok (sides.map .ok))
    (compared : List.Forall₂ (fun side k =>
      rowCompare ctx .eq (inLeftSide items vals) side false = .ok (ofTruth k)) sides truths) :
    evaluateInRow ctx queries items source negated =
      .ok (ofTruth (if negated then Kleene.not (anyRow truths) else anyRow truths)) := by
  obtain ⟨after, ran, truth, quiet⟩ := probeRows_truth compared ⟨false, false, false⟩ rfl nofun
  have truth : after.truth = anyRow truths := truth.trans (Kleene.false_or _)
  rw [← truth, evaluateInRow, computed]
  simp only [bind, Except.bind, listed, ran, pure, Except.pure, Except.ok.injEq]
  obtain ⟨sawNull, any, found⟩ := after
  cases any <;> cases found <;> cases sawNull <;> cases negated <;>
    first | rfl | exact absurd (quiet rfl) (by decide)

end Membership

/-- A comparison of rows is equal to its scalar expansion exactly when the rows and the
scalar operators judge the pairs alike, and `IN` follows the row equalities. -/
theorem rowComparison_agrees_iff (ctx : EvalContext) {op : BinaryOp} {nullEq : Bool}
    {l r : RowSide} {pairs : List RowPair} {k : Option Bool}
    (comparison : isComparison op = true) (identity : nullEq = true → op = .eq)
    (nonempty : pairs ≠ []) (computed : Computes ctx l r pairs)
    (value : expansion ctx op nullEq pairs = .ok k) :
    (rowCompare ctx op l r nullEq = .ok (ofTruth k) ↔
      Agreeing op nullEq (pairs.map (·.judgement ctx))) ∧
    ∀ (queries : Subqueries) (items : List Expr) (source : InSource) (negated : Bool)
      (vals : { vals : List Value // items.length = vals.length }) (sides : List RowSide)
      (truths : List (Option Bool)), evaluateItems ctx items = .ok vals →
      inRowSides queries items.length source = .ok (sides.map .ok) →
      List.Forall₂ (fun side k =>
        rowCompare ctx .eq (inLeftSide items vals) side false = .ok (ofTruth k)) sides truths →
      evaluateInRow ctx queries items source negated =
        .ok (ofTruth (if negated then Kleene.not (anyRow truths) else anyRow truths)) := by
  refine ⟨rowCompare_iff comparison identity nonempty computed value, ?_⟩
  intro queries items source negated vals sides truths computed listed compared
  exact evaluateInRow_eq negated computed listed compared

/-- A row of given values, without expressions. -/
def valueRow (vals : List Value) : RowSide := .values none vals nofun

/-- `(1, NULL) < (1, 2)` ties on its first pair and meets the `NULL`. -/
theorem rowComparison_agrees_null :
    (rowCompare (boundContext .null) .lt (valueRow [.integer 1, .null])
        (valueRow [.integer 1, .integer 2]) false = .ok (ofTruth none) ↔
      Agreeing .lt false ([⟨none, .integer 1, none, .integer 1⟩, ⟨none, .null, none, .integer 2⟩].map
        (RowPair.judgement (boundContext .null)))) ∧
    ∀ (queries : Subqueries) (items : List Expr) (source : InSource) (negated : Bool)
      (vals : { vals : List Value // items.length = vals.length }) (sides : List RowSide)
      (truths : List (Option Bool)), evaluateItems (boundContext .null) items = .ok vals →
      inRowSides queries items.length source = .ok (sides.map .ok) →
      List.Forall₂ (fun side k => rowCompare (boundContext .null) .eq (inLeftSide items vals) side
        false = .ok (ofTruth k)) sides truths →
      evaluateInRow (boundContext .null) queries items source negated =
        .ok (ofTruth (if negated then Kleene.not (anyRow truths) else anyRow truths)) :=
  rowComparison_agrees_iff (boundContext .null) rfl nofun (List.cons_ne_nil _ _) ⟨rfl, rfl⟩
    (by decide)

def quietNaN : Value := .real ⟨0x7FF8000000000000⟩

/-- A NaN is equal to nothing as an operand, and equal to itself as an item. -/
theorem rowComparison_nan_diverges :
    expansion (boundContext .null) .eq false [⟨none, quietNaN, none, quietNaN⟩] = .ok none ∧
    rowCompare (boundContext .null) .eq (valueRow [quietNaN]) (valueRow [quietNaN]) false =
      .ok (.integer 1) ∧
    ¬ ∀ (ctx : EvalContext) (op : BinaryOp) (nullEq : Bool) (l r : RowSide) (pairs : List RowPair)
      (k : Option Bool), isComparison op = true → (nullEq = true → op = .eq) → pairs ≠ [] →
      Computes ctx l r pairs → expansion ctx op nullEq pairs = .ok k →
      rowCompare ctx op l r nullEq = .ok (ofTruth k) := by
  have scalar : expansion (boundContext .null) .eq false [⟨none, quietNaN, none, quietNaN⟩] =
      .ok none := by
    decide
  have row : rowCompare (boundContext .null) .eq (valueRow [quietNaN]) (valueRow [quietNaN]) false =
      .ok (.integer 1) := by
    decide
  refine ⟨scalar, row, fun agrees => ?_⟩
  have same := agrees (boundContext .null) .eq false (valueRow [quietNaN]) (valueRow [quietNaN])
    [⟨none, quietNaN, none, quietNaN⟩] none rfl nofun (List.cons_ne_nil _ _) ⟨rfl, rfl⟩ scalar
  rw [row] at same
  exact absurd same (by decide)

end RustSql.Executor
