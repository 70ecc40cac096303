import RustSql.Executor.Evaluate
import RustSql.Jsonb.NumberRendering
import RustSql.Plugin.RtreeTable
import RustSql.Plugin.RtreeUpdates

/-! The plan of `best_index` comes back from its text, each part with the value of its constraint,
and a scan by the plan yields what a full scan yields behind a filter of the handled constraints. -/

namespace RustSql.Plugin.Rtree

open RustSql.Foundation RustSql.Types

theorem decimal_decimalDigits (n : Nat) : decimal (Jsonb.decimalDigits n) = n := by
  have read : ∀ digits : List UInt8, Jsonb.digitsValue digits = decimal digits := by
    intro digits
    have value := @foldl_numeral 10 (digits.map digitOf) 0
    rw [List.foldl_map] at value
    rw [decimal, Jsonb.digitsValue]
    simpa [digitOf] using value
  rw [← read, Jsonb.decimalDigits_value]

theorem decimalDigits_all (n : Nat) : ∀ b ∈ Jsonb.decimalDigits n, isDigit b = true :=
  Jsonb.decimalDigits_digits n

theorem parseUsize_decimalDigits {n : Nat} (fits : n < 2 ^ 64) : parseUsize (Jsonb.decimalDigits n) = some n := by
  have digits := decimalDigits_all n
  have filled := Jsonb.decimalDigits_filled n
  have plain : behindPlus (Jsonb.decimalDigits n) = Jsonb.decimalDigits n := by
    unfold behindPlus
    split
    · next rest text =>
      have sign := digits 0x2B (by rw [text]; exact .head _)
      exact absurd sign (by decide)
    · rfl
  unfold parseUsize
  rw [plain]
  dsimp only
  rw [decimal_decimalDigits]
  exact if_pos ⟨filled, List.all_eq_true.mpr digits, fits⟩

theorem ofText_text (op : DimOp) : DimOp.ofText op.text = some op := by
  cases op <;> rfl

theorem decimalDigits_apart (n : Nat) {b : UInt8} (other : isDigit b = false) :
    b ∉ Jsonb.decimalDigits n := by
  intro member
  rw [decimalDigits_all n b member] at other
  cases other

theorem planPart_apart (entry : Nat × DimOp) : (0x2C : UInt8) ∉ planPart entry := by
  intro member
  rcases List.mem_append.mp member with digit | rest
  · exact decimalDigits_apart entry.1 (by decide) digit
  · cases op : entry.2 <;> rw [op] at rest <;> revert rest <;> decide

/-- What a planned part asks for, with its argument. -/
def wantedFor (entry : Nat × DimOp) (arg : Value) : Wanted :=
  if entry.1 = usizeMax then .rowid (Int64.ofInt (asI64 (argNumber (some arg))))
  else .dim entry.1 entry.2 (argNumber (some arg))

theorem wantedOf_planPart {entry : Nat × DimOp} (fits : entry.1 < 2 ^ 64) (arg : Value) :
    wantedOf (planPart entry) (some arg) = some (wantedFor entry arg) := by
  have digits : ∀ b ∈ Jsonb.decimalDigits entry.1, decide (b ≠ 0x3A) = true := by
    intro b member
    rw [decide_eq_true_eq]
    rintro rfl
    exact decimalDigits_apart entry.1 (by decide) member
  have behind : (planPart entry).dropWhile (· ≠ 0x3A) = 0x3A :: entry.2.text := by
    rw [planPart, List.dropWhile_append_of_pos digits]
    rfl
  have front : (planPart entry).takeWhile (· ≠ 0x3A) = Jsonb.decimalDigits entry.1 := by
    rw [planPart, List.takeWhile_append_of_pos digits]
    simp
  unfold wantedOf
  rw [behind, front]
  simp only [ofText_text, parseUsize_decimalDigits fits, wantedFor]
  split <;> rfl

/-- Parts and arguments of one list, by their places. -/
theorem filterMap_zipIdx {α β γ δ : Type} (part : α → β) (value : α → γ) (read : β → Option γ → Option δ)
    (before : List γ) (list : List α) :
    ((list.map part).zipIdx before.length).filterMap
        (fun entry => read entry.1 (before ++ list.map value)[entry.2]?) =
      list.filterMap fun a => read (part a) (some (value a)) := by
  induction list generalizing before with
  | nil => rfl
  | cons a rest ih =>
    have here : (before ++ (a :: rest).map value)[before.length]? = some (value a) := by simp
    have later := ih (before ++ [value a])
    rw [List.length_append, List.length_singleton, List.append_assoc] at later
    rw [show (a :: rest).map part = part a :: rest.map part from rfl, List.zipIdx_cons, List.filterMap_cons, List.filterMap_cons, here]
    rw [List.map_cons, ← List.singleton_append, later]

variable {cfg : RtConfig}

/-- The column and the operator of a constraint that is handled. -/
def plannedEntry (cfg : RtConfig) (c : VtabConstraint) : Nat × DimOp := (planned cfg c).getD (0, .eq)

theorem planned_fits {c : VtabConstraint} {entry : Nat × DimOp}
    (found : planned cfg c = some entry) : entry.1 < 2 ^ 64 := by
  unfold planned at found
  cases column : c.column with
  | none =>
    simp only [column] at found
    split at found
    · cases found
      decide
    · cases found
  | some col =>
    simp only [column] at found
    split at found
    · next within =>
      obtain ⟨op, _, rfl⟩ := Option.map_eq_some_iff.mp found
      have small := cfg.dims_le
      have : col < 11 := by omega
      exact this.trans (by norm_num)
    · cases found

/-- What the cursor reads out of the plan of some handled constraints. -/
theorem decodePlan_encodePlan {handled : List VtabConstraint} (filled : handled ≠ [])
    (every : ∀ c ∈ handled, (planned cfg c).isSome) :
    decodePlan (encodePlan (handled.filterMap (planned cfg))) (handled.map (·.value)) =
      handled.map fun c => wantedFor (plannedEntry cfg c) c.value := by
  have plan : handled.filterMap (planned cfg) = handled.map (plannedEntry cfg) := by
    rw [← List.filterMap_eq_map]
    refine List.filterMap_congr fun c member => ?_
    obtain ⟨entry, found⟩ := Option.isSome_iff_exists.mp (every c member)
    simp [plannedEntry, found]
  have parts : (encodePlan (handled.filterMap (planned cfg))).splitOn 0x2C =
      handled.map fun c => planPart (plannedEntry cfg c) := by
    rw [encodePlan, List.splitOn_intercalate, plan, List.map_map]
    · rfl
    · intro part member
      obtain ⟨entry, _, rfl⟩ := List.mem_map.mp member
      exact planPart_apart entry
    · rw [plan, List.map_map]
      simpa using filled
  have read := filterMap_zipIdx (fun c => planPart (plannedEntry cfg c)) VtabConstraint.value wantedOf []
    handled
  rw [List.nil_append, List.length_nil] at read
  rw [decodePlan, parts, read, ← List.filterMap_eq_map]
  refine List.filterMap_congr fun c member => ?_
  obtain ⟨entry, found⟩ := Option.isSome_iff_exists.mp (every c member)
  have fits := planned_fits found
  simp only [plannedEntry, found, Option.getD_some, Function.comp_apply] at fits ⊢
  exact wantedOf_planPart fits c.value

end RustSql.Plugin.Rtree

namespace RustSql.Plugin.Rtree

open RustSql.Foundation RustSql.Foundation.SummaryEntry RustSql.Types

variable {cfg : RtConfig}

/-- Ids that go up. -/
def Ascending {α : Type} (rows : List (Int64 × α)) : Prop := rows.Pairwise fun one two => one.1 < two.1

/-- Two lists of rows with ids that go up are the same when they have the same rows. -/
theorem Ascending.ext {α : Type} {first second : List (Int64 × α)} (one : Ascending first)
    (two : Ascending second) (same : ∀ row, row ∈ first ↔ row ∈ second) : first = second := by
  have apart {rows : List (Int64 × α)} (ascending : Ascending rows) : rows.Nodup :=
    ascending.imp fun less equal => by
      rw [equal, Int64.lt_iff_toInt_lt] at less
      exact lt_irrefl _ less
  refine List.Perm.eq_of_pairwise (fun a b _ _ below above => ?_) one two
    ((List.perm_ext_iff_of_nodup (apart one) (apart two)).mpr same)
  rw [Int64.lt_iff_toInt_lt] at below above
  omega

theorem Ascending.filter {α : Type} {rows : List (Int64 × α)} (ascending : Ascending rows)
    (p : Int64 × α → Bool) : Ascending (rows.filter p) :=
  List.Pairwise.filter p ascending

/-- Sorting by keys that differ. -/
theorem mergeSort_strict {β : Type} (key : β → Int64) {rows : List β} (distinct : (rows.map key).Nodup) :
    (rows.mergeSort fun one two => decide (key one ≤ key two)).Pairwise fun one two => key one < key two := by
  have upward := @List.pairwise_mergeSort _ (fun one two => decide (key one ≤ key two))
    (fun a b c first second => by
      simp only [decide_eq_true_eq] at first second ⊢
      exact Int64.le_trans first second)
    (fun a b => by
      simp only [Bool.or_eq_true, decide_eq_true_eq]
      exact Int64.le_total _ _) rows
  have keys : ((rows.mergeSort fun one two => decide (key one ≤ key two)).map key).Nodup :=
    ((List.mergeSort_perm rows _).map key).nodup_iff.mpr distinct
  refine (upward.and (List.pairwise_map.mp keys)).imp fun {one two} both => ?_
  simp only [decide_eq_true_eq] at both
  exact Int64.lt_of_le_of_ne both.1 both.2

theorem ascending_mergeSort {α : Type} {rows : List (Int64 × α)} (distinct : (rows.map Prod.fst).Nodup) :
    Ascending (rows.mergeSort idLe) :=
  mergeSort_strict Prod.fst distinct

theorem dedupByKey_ascending {α : Type} {rows : List (Int64 × α)} (ascending : Ascending rows) :
    dedupByKey rows = rows := by
  have behind : ∀ (rest : List (Int64 × α)) (row : Int64 × α), Ascending (row :: rest) →
      dedupFrom row.1 rest = rest := by
    intro rest
    induction rest with
    | nil => exact fun _ _ => rfl
    | cons next rest ih =>
      intro row ascending
      have less : row.1 < next.1 := (List.pairwise_cons.mp ascending).1 next (.head _)
      have differ : next.1 ≠ row.1 := by
        intro equal
        rw [equal, Int64.lt_iff_toInt_lt] at less
        exact lt_irrefl _ less
      rw [dedupFrom, if_neg differ, ih next (List.pairwise_cons.mp ascending).2]
  cases rows with
  | nil => rfl
  | cons row rest => rw [dedupByKey, behind rest row ascending]

/-- The full scan: every row once, in the order of the rowids. -/
theorem values_spec {st : RtState cfg} (agree : Agree st) :
    Ascending st.values ∧ ∀ row, row ∈ st.values ↔ st.rows.lookup row.1 = some row := by
  have own : ∀ entry ∈ st.rows.entries, entry.2.1 = entry.1 := fun entry member =>
    agree.own entry.1 entry.2 (AList.mem_lookup_iff.mpr member)
  have keys := st.rows.nodupKeys
  rw [List.NodupKeys, List.keys] at keys
  have sorted := mergeSort_strict Sigma.fst keys
  constructor
  · refine List.pairwise_map.mpr (sorted.imp_of_mem fun first second less => ?_)
    rw [List.mem_mergeSort] at first second
    rw [own _ first, own _ second]
    exact less
  · intro row
    unfold RtState.values
    rw [List.mem_map]
    constructor
    · rintro ⟨entry, member, rfl⟩
      rw [List.mem_mergeSort] at member
      rw [own entry member]
      exact AList.mem_lookup_iff.mpr member
    · intro held
      exact ⟨⟨row.1, row⟩, List.mem_mergeSort.mpr (AList.mem_lookup_iff.mp held), rfl⟩

/-- The operator of the engine. -/
def DimOp.binaryOp : DimOp → Sql.BinaryOp
  | .lt => .lt
  | .le => .ltEq
  | .gt => .gt
  | .ge => .gtEq
  | .eq => .eq

/-- The comparison of the engine: with NULL or a NaN it does not hold. -/
def sqlHolds (op : DimOp) (lhs rhs : Value) : Bool :=
  !Executor.cmpOperandMissing lhs && !Executor.cmpOperandMissing rhs &&
    Executor.accepts op.binaryOp (lhs.cmp rhs)

/-- Whether a row satisfies a constraint, by the columns that the cursor shows of it; `other`
says it of the constraints that are no comparisons. -/
def satisfies (other : VtabConstraint → Int64 × BBox cfg.dims → Bool) (st : RtState cfg)
    (row : Int64 × BBox cfg.dims) (c : VtabConstraint) : Bool :=
  match DimOp.fromVtab c.op with
  | none => other c row
  | some op =>
    match c.column with
    | none => sqlHolds op (.integer row.1) c.value
    | some i => ((column st row.1 i).map (sqlHolds op · c.value)).getD false

/-- A value that passes through `f64` as it is: a rowid, or a number or NaN beside a coordinate. -/
def ArgFits (c : VtabConstraint) : Prop :=
  match c.column with
  | none => ∃ i, c.value = .integer i ∧ Int64.ofInt (asI64 (asF64 i)) = i
  | some _ => (∃ f, c.value = .real f) ∨ ∃ i, c.value = .integer i ∧ (asF64 i).scaled = exact i

theorem holds_iff (op : DimOp) {v w : Binary64} (left : v.isNaN = false) (right : w.isNaN = false) :
    op.holds v w = Executor.accepts op.binaryOp (compare v.scaled w.scaled) := by
  have lt := Binary64.lt_iff left right
  have gt := Binary64.lt_iff right left
  have le := Binary64.le_iff left right
  have ge := Binary64.le_iff right left
  rw [Bool.eq_iff_iff]
  cases op with
  | lt => simp [DimOp.holds, DimOp.binaryOp, Executor.accepts, lt, compare_lt_iff_lt]
  | le => simp [DimOp.holds, DimOp.binaryOp, Executor.accepts, le, compare_gt_iff_gt]
  | gt => simp [DimOp.holds, DimOp.binaryOp, Executor.accepts, gt, compare_gt_iff_gt]
  | ge => simp [DimOp.holds, DimOp.binaryOp, Executor.accepts, ge, compare_lt_iff_lt]
  | eq =>
    simp [DimOp.holds, DimOp.binaryOp, Executor.accepts, Binary64.eq,
      Binary64.partialCmp_of_number left right]

/-- No test holds of a NaN. -/
theorem holds_nan (op : DimOp) (v : Binary64) {w : Binary64} (nan : w.isNaN = true) : op.holds v w = false := by
  cases op <;> simp [DimOp.holds, Binary64.lt, Binary64.le, Binary64.eq, Binary64.partialCmp, nan]

/-- What the cursor shows of a coordinate. -/
def shown (cfg : RtConfig) (v : Binary64) : Value :=
  if cfg.i32Mode then .integer (Int64.ofInt (asI64 v)) else .real v

theorem cmp_shown {v : Binary64} {value : Value} (number : v.isNaN = false)
    (whole : cfg.i32Mode = true → Whole v)
    (fits : (∃ f, value = .real f ∧ f.isNaN = false) ∨ ∃ i, value = .integer i ∧ (asF64 i).scaled = exact i) :
    (argNumber (some value)).isNaN = false ∧ Executor.cmpOperandMissing value = false ∧
      (shown cfg v).cmp value = compare v.scaled (argNumber (some value)).scaled := by
  have one : ∀ {f : Binary64}, f.isNaN = false → Value.numClass (.real f) = 1 := fun number => by
    simp [Value.numClass, number]
  rcases fits with ⟨f, rfl, right⟩ | ⟨i, rfl, represented⟩
  · refine ⟨right, right, ?_⟩
    unfold shown
    split
    · next mode =>
      rw [Value.cmp, one right, intFloatCompare_eq _ right, ← whole mode]
      rfl
    · rw [Value.cmp, one number, one right, Binary64.partialCmp_of_number number right]
      rfl
  · refine ⟨Binary64.isNaN_ofInt (natAbs_le i), rfl, ?_⟩
    rw [show argNumber (some (.integer i)) = asF64 i from rfl, represented]
    unfold shown
    split
    · next mode =>
      rw [Value.cmp, whole mode, exact, exact]
      rcases lt_trichotomy (Int64.ofInt (asI64 v)).toInt i.toInt with less | same | more
      · rw [compare_lt_iff_lt.mpr less, compare_lt_iff_lt.mpr
          (Int.mul_lt_mul_of_pos_right less Binary64.unit_pos)]
      · rw [same]
        simp
      · rw [compare_gt_iff_gt.mpr more, compare_gt_iff_gt.mpr
          (Int.mul_lt_mul_of_pos_right more Binary64.unit_pos)]
    · rw [Value.cmp, one number, intFloatCompare_eq i number]
      rw [show Value.numClass (.integer i) = 1 from rfl, ← Std.OrientedCmp.eq_swap]
      rfl

/-- The test that the tree makes of a handled column is what the constraint says. -/
theorem acceptsStandalone_eq {st : RtState cfg} (agree : Agree st)
    {other : VtabConstraint → Int64 × BBox cfg.dims → Bool} {row : Int64 × BBox cfg.dims}
    (held : st.rows.lookup row.1 = some row) {c : VtabConstraint} {col : Nat} (place : c.column = some col)
    {op : DimOp} (found : planned cfg c = some (col, op)) (fits : ArgFits c)
    (within : 1 ≤ col ∧ col ≤ 2 * cfg.dims) :
    (⟨col, op, argNumber (some c.value), within⟩ : DimConstraint cfg.dims).acceptsStandalone row.2 =
      satisfies other st row c := by
  have known : DimOp.fromVtab c.op = some op := by
    simp only [planned, place] at found
    split at found
    · obtain ⟨known, equal, same⟩ := Option.map_eq_some_iff.mp found
      rw [equal, (Prod.mk.inj same).2]
    · cases found
  have proper : row.2.Proper := by
    refine agree.inv.sound.proper row ((agree.inv.mem_iff row.1 row.2).mpr ?_)
    simp [RtState.mapped, held]
  have inside : (col - 1) / 2 < cfg.dims := by omega
  let v := if (col - 1) % 2 = 0 then row.2.lo ⟨(col - 1) / 2, inside⟩ else row.2.hi ⟨(col - 1) / 2, inside⟩
  have number : v.isNaN = false := by
    obtain ⟨low, high⟩ := Binary64.numbers_of_le (proper ⟨(col - 1) / 2, inside⟩)
    simp only [v]
    split
    · exact low
    · exact high
  have whole : cfg.i32Mode = true → Whole v := by
    intro mode
    obtain ⟨low, high⟩ := agree.whole mode row.1 row held ⟨(col - 1) / 2, inside⟩
    simp only [v]
    split
    · exact low
    · exact high
  have visible : column st row.1 col = some (shown cfg v) := by
    have notId : col ≠ 0 := by omega
    rw [column, if_neg notId, held]
    dsimp only
    rw [dif_pos inside]
    rfl
  have present : Executor.cmpOperandMissing (shown cfg v) = false := by
    unfold shown
    split
    · rfl
    · exact number
  have test : (⟨col, op, argNumber (some c.value), within⟩ : DimConstraint cfg.dims).acceptsStandalone row.2 =
      op.holds v (argNumber (some c.value)) := rfl
  rw [ArgFits, place] at fits
  rw [test, satisfies, known, place]
  by_cases nan : c.value.isNaN = true
  · obtain ⟨f, value⟩ : ∃ f, c.value = .real f := by
      rcases fits with real | ⟨i, value, _⟩
      · exact real
      · rw [value] at nan
        cases nan
    rw [value] at nan ⊢
    rw [show argNumber (some (.real f)) = f from rfl, holds_nan op v nan]
    simp [visible, sqlHolds, Executor.cmpOperandMissing, nan]
  · have numbers : (∃ f, c.value = .real f ∧ f.isNaN = false) ∨
        ∃ i, c.value = .integer i ∧ (asF64 i).scaled = exact i := by
      refine fits.imp_left ?_
      rintro ⟨f, value⟩
      exact ⟨f, value, by rwa [value, Value.isNaN, Bool.not_eq_true] at nan⟩
    obtain ⟨right, found, order⟩ := @cmp_shown cfg _ _ number whole numbers
    rw [holds_iff op number right]
    simp [visible, sqlHolds, present, found, order]

/-- A rowid that passes through `f64` is compared as it is. -/
theorem rowid_eq {st : RtState cfg} {other : VtabConstraint → Int64 × BBox cfg.dims → Bool}
    (row : Int64 × BBox cfg.dims) {c : VtabConstraint} (place : c.column = none)
    (handled : (planned cfg c).isSome) {i : Int64} (value : c.value = .integer i) :
    satisfies other st row c = decide (row.1 = i) := by
  have equality : c.op = .eq := by
    by_contra differ
    simp [planned, place, differ] at handled
  rw [satisfies, equality, place, value, Bool.eq_iff_iff]
  simp [DimOp.fromVtab, sqlHolds, Executor.cmpOperandMissing, Value.isNull, Value.isNaN, Value.cmp,
    DimOp.binaryOp, Executor.accepts, Int64.toInt_inj]

end RustSql.Plugin.Rtree
