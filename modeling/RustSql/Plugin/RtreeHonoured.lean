import RustSql.Plugin.RtreeScan

/-! An rtree table honours the constraints it claims, along every run of updates and reindexing
that its tree and its row map take alike. -/

namespace RustSql.Plugin.Rtree

open RustSql.Foundation RustSql.Foundation.SummaryEntry RustSql.Types

variable {cfg : RtConfig}

/-- The constraints that `best_index` has marked, and those it has not. -/
def marked (info : IndexInfo) (constraints : List VtabConstraint) (flag : Bool) : List VtabConstraint :=
  ((constraints.zip info.handled).filter (·.2 == flag)).map (·.1)

/-- The arguments of `filter`: the values of the handled constraints. -/
def filterArgs (info : IndexInfo) (constraints : List VtabConstraint) : List Value :=
  (marked info constraints true).map (·.value)

/-- Constraints whose values pass through `f64`; a rowid stands alone. -/
structure Plain (cfg : RtConfig) (constraints : List VtabConstraint) : Prop where
  values : ∀ c ∈ constraints, (planned cfg c).isSome → ArgFits c
  alone : ∀ c ∈ constraints, (planned cfg c).isSome → c.column = none →
    ∀ another ∈ constraints, (planned cfg another).isSome → another.column = none ∧ another.value = c.value

variable {constraints : List VtabConstraint}

theorem marked_eq {info : IndexInfo}
    (flags : info.handled = constraints.map fun c => (planned cfg c).isSome) (flag : Bool) :
    marked info constraints flag = constraints.filter fun c => (planned cfg c).isSome == flag := by
  rw [marked, flags]
  clear flags
  induction constraints with
  | nil => rfl
  | cons c rest ih =>
    rw [List.map_cons, List.zip_cons_cons, List.filter_cons, List.filter_cons]
    dsimp only
    split
    · rw [List.map_cons, ih]
    · exact ih

variable {st : RtState cfg}

theorem bestIndex_spec {info : IndexInfo} (done : bestIndex st constraints = .ok info) :
    (info.handled = constraints.map fun c => (planned cfg c).isSome) ∧
      if constraints.filterMap (planned cfg) = [] then info.idxNum = 0
      else info.idxNum = 1 ∧ info.idxStr = some (encodePlan (constraints.filterMap (planned cfg))) := by
  unfold bestIndex at done
  split at done
  · cases done
  · dsimp only at done
    split at done
    · next empty =>
      cases done
      rw [if_pos (List.isEmpty_iff.mp empty)]
      exact ⟨rfl, rfl⟩
    · next filled =>
      cases done
      rw [if_neg fun empty => filled (List.isEmpty_iff.mpr empty)]
      exact ⟨rfl, rfl, rfl⟩

/-- The tests of handled columns say together what their constraints say. -/
theorem dimTests_spec (agree : Agree st) (other : VtabConstraint → Int64 × BBox cfg.dims → Bool)
    {handled : List VtabConstraint}
    (every : ∀ c ∈ handled, (planned cfg c).isSome ∧ ArgFits c ∧ c.column ≠ none) :
    ∃ tests, dimTests cfg.dims (handled.map fun c => wantedFor (plannedEntry cfg c) c.value) = some tests ∧
      (handled.map fun c => wantedFor (plannedEntry cfg c) c.value).filterMap Wanted.rowid? = [] ∧
      (tests = [] ↔ handled = []) ∧ ∀ row, st.rows.lookup row.1 = some row →
        (tests.all (·.acceptsStandalone row.2)) = handled.all (satisfies other st row) := by
  induction handled with
  | nil => exact ⟨[], rfl, rfl, by simp, fun _ _ => rfl⟩
  | cons c rest ih =>
    obtain ⟨tests, read, noRowid, _, agreeing⟩ := ih fun other member => every other (.tail _ member)
    obtain ⟨isPlanned, fits, hasColumn⟩ := every c (.head _)
    obtain ⟨col, place⟩ := Option.ne_none_iff_exists'.mp hasColumn
    obtain ⟨⟨col', op⟩, found⟩ := Option.isSome_iff_exists.mp isPlanned
    obtain ⟨rfl, within⟩ : col' = col ∧ 1 ≤ col ∧ col ≤ 2 * cfg.dims := by
      have known := found
      simp only [planned, place] at known
      split at known
      · next inside =>
        obtain ⟨_, _, same⟩ := Option.map_eq_some_iff.mp known
        exact ⟨(Prod.mk.inj same).1.symm, inside.1, by omega⟩
      · cases known
    have notRowid : col' ≠ usizeMax := by
      have small := cfg.dims_le
      have least : (10 : Nat) < usizeMax := by decide
      omega
    have wanted : wantedFor (plannedEntry cfg c) c.value = .dim col' op (argNumber (some c.value)) := by
      simp [wantedFor, plannedEntry, found, notRowid]
    refine ⟨⟨col', op, argNumber (some c.value), within⟩ :: tests, ?_, ?_, by simp, fun row held => ?_⟩
    · rw [List.map_cons, wanted, dimTests, dif_pos within, read]
      rfl
    · rw [List.map_cons, wanted, List.filterMap_cons, noRowid]
      rfl
    · rw [List.all_cons, List.all_cons, agreeing row held,
        @acceptsStandalone_eq _ _ agree other _ held _ _ place _ found fits within]

/-- One rowid, however often it is asked for. -/
theorem probes_eq {handled : List VtabConstraint} {i : Int64} (round : Int64.ofInt (asI64 (asF64 i)) = i)
    (same : ∀ c ∈ handled, (planned cfg c).isSome ∧ c.column = none ∧ c.value = .integer i) :
    (handled.map fun c => wantedFor (plannedEntry cfg c) c.value) = List.replicate handled.length (.rowid i) := by
  refine List.eq_replicate_iff.mpr ⟨by simp, fun w inside => ?_⟩
  obtain ⟨c, member, rfl⟩ := List.mem_map.mp inside
  obtain ⟨known, place, value⟩ := same c member
  have entry : plannedEntry cfg c = (usizeMax, .eq) := by
    simp only [planned, place] at known
    split at known
    · next equality => simp [plannedEntry, planned, place, equality]
    · cases known
  rw [entry, value, wantedFor, if_pos rfl, argNumber, round]

theorem dimTests_replicate (dims n : Nat) (i : Int64) :
    dimTests dims (List.replicate n (.rowid i)) = some [] := by
  induction n with
  | zero => rfl
  | succ n ih => exact ih

/-- A rowid probe finds the rows of a full scan that have the rowid. -/
theorem probe_rows (agree : Agree st) {handled : List VtabConstraint} (filled : handled ≠ [])
    {i : Int64}
    (same : ∀ c ∈ handled, (planned cfg c).isSome ∧ c.column = none ∧ c.value = .integer i)
    (other : VtabConstraint → Int64 × BBox cfg.dims → Bool) :
    (st.rows.lookup i).toList = st.values.filter fun row => handled.all (satisfies other st row) := by
  obtain ⟨ascending, mem_values⟩ := values_spec agree
  have single : Ascending (st.rows.lookup i).toList := by
    cases st.rows.lookup i <;> simp [Ascending]
  refine single.ext (ascending.filter _) fun row => ?_
  have tells : ∀ c ∈ handled, satisfies other st row c = decide (row.1 = i) := fun c member =>
    rowid_eq row (same c member).2.1 (same c member).1 (same c member).2.2
  have every : handled.all (satisfies other st row) = true ↔ row.1 = i := by
    rw [List.all_eq_true]
    obtain ⟨c, member⟩ := List.exists_mem_of_ne_nil _ filled
    constructor
    · intro all
      have first := all c member
      rwa [tells c member, decide_eq_true_eq] at first
    · intro equal c member
      rw [tells c member, decide_eq_true_eq]
      exact equal
  rw [List.mem_filter, mem_values, every, Option.mem_toList]
  constructor
  · intro held
    have equal := agree.own i row held
    exact ⟨equal ▸ held, equal⟩
  · rintro ⟨held, rfl⟩
    exact held

/-- The items of the tree are the rows. -/
theorem Agree.mem_items (agree : Agree st) (row : Int64 × BBox cfg.dims) :
    row ∈ items st.root ↔ st.rows.lookup row.1 = some row := by
  rw [show row ∈ items st.root ↔ (row.1, row.2) ∈ items st.mapped.root from Iff.rfl, agree.inv.mem_iff]
  constructor
  · intro held
    obtain ⟨⟨id, bbox⟩, known, equal⟩ := Option.map_eq_some_iff.mp held
    have same := agree.own _ _ known
    dsimp only at same equal
    rw [known, same, equal]
  · intro held
    simp [RtState.mapped, held]

/-- A descent of the tree finds the rows of a full scan that pass the tests. -/
theorem descent_rows (agree : Agree st) {tests : List (DimConstraint cfg.dims)}
    {accepts : Int64 × BBox cfg.dims → Bool} (tells : ∀ row, st.rows.lookup row.1 = some row →
      tests.all (·.acceptsStandalone row.2) = accepts row) :
    dedupByKey ((query st.root tests).mergeSort idLe) = st.values.filter accepts := by
  obtain ⟨ascending, mem_values⟩ := values_spec agree
  have found : query st.root tests = _ := query_eq agree.inv.sound tests
  have distinct : ((query st.root tests).map Prod.fst).Nodup := by
    rw [found]
    exact agree.inv.distinct.sublist (List.filter_sublist.map _)
  have sorted := ascending_mergeSort distinct
  rw [dedupByKey_ascending sorted]
  refine sorted.ext (ascending.filter _) fun row => ?_
  rw [List.mem_mergeSort, found, List.mem_filter, List.mem_filter, mem_values]
  rw [show row ∈ items st.mapped.root ↔ row ∈ items st.root from Iff.rfl, agree.mem_items]
  constructor
  · rintro ⟨held, accepted⟩
    exact ⟨held, by rw [← tells row held]; exact accepted⟩
  · rintro ⟨held, satisfied⟩
    exact ⟨held, by rw [tells row held]; exact satisfied⟩

/-- The cursor yields the rows of a full scan that satisfy the handled constraints. -/
theorem filter_spec (agree : Agree st) (plain : Plain cfg constraints) {info : IndexInfo}
    (done : bestIndex st constraints = .ok info) :
    ∃ rows, filter st info.idxNum info.idxStr (filterArgs info constraints) = some rows ∧
      ∀ other, rows = st.values.filter fun row => (marked info constraints true).all (satisfies other st row) := by
  obtain ⟨flags, plan⟩ := bestIndex_spec done
  have members : ∀ c ∈ marked info constraints true, c ∈ constraints ∧ (planned cfg c).isSome := by
    intro c member
    rw [marked_eq flags] at member
    simpa using member
  have planOf : constraints.filterMap (planned cfg) = (marked info constraints true).filterMap (planned cfg) := by
    rw [marked_eq flags, List.filterMap_filter]
    refine List.filterMap_congr fun c _ => ?_
    cases planned cfg c <;> rfl
  rw [planOf] at plan
  unfold filterArgs
  generalize marked info constraints true = handled at members plan
  by_cases filled : handled = []
  · refine ⟨st.values, ?_, fun other => ?_⟩
    · rw [filled, List.filterMap_nil, if_pos rfl] at plan
      simp [filter, plan, dimTests]
    · rw [filled]
      simp
  · have planned_some : handled.filterMap (planned cfg) ≠ [] := by
      obtain ⟨c, member⟩ := List.exists_mem_of_ne_nil _ filled
      obtain ⟨entry, found⟩ := Option.isSome_iff_exists.mp (members c member).2
      exact List.ne_nil_of_mem (List.mem_filterMap.mpr ⟨c, member, found⟩)
    rw [if_neg planned_some] at plan
    obtain ⟨number, text⟩ := plan
    have wanted := decodePlan_encodePlan filled fun c member => (members c member).2
    by_cases rowid : ∃ c ∈ handled, c.column = none
    · obtain ⟨c, member, place⟩ := rowid
      obtain ⟨inside, isPlanned⟩ := members c member
      have fits := plain.values c inside isPlanned
      rw [ArgFits, place] at fits
      obtain ⟨i, value, round⟩ := fits
      have same : ∀ another ∈ handled,
          (planned cfg another).isSome ∧ another.column = none ∧ another.value = .integer i := by
        intro another member
        obtain ⟨listed, handled⟩ := members another member
        obtain ⟨equal, sameValue⟩ := plain.alone c inside isPlanned place another listed handled
        exact ⟨handled, equal, sameValue.trans value⟩
      refine ⟨(st.rows.lookup i).toList, ?_, probe_rows agree filled same⟩
      obtain ⟨n, count⟩ : ∃ n, handled.length = n + 1 :=
        Nat.exists_eq_succ_of_ne_zero fun zero => filled (List.length_eq_zero_iff.mp zero)
      have last : ((List.replicate (n + 1) (Wanted.rowid i)).filterMap Wanted.rowid?).getLast? = some i := by
        rw [List.filterMap_replicate]
        simp [Wanted.rowid?, List.getLast?_replicate]
      simp [filter, number, text, wanted, probes_eq round same, count, dimTests_replicate, last]
    · have columns : ∀ c ∈ handled, (planned cfg c).isSome ∧ ArgFits c ∧ c.column ≠ none := fun c member =>
        ⟨(members c member).2, plain.values c (members c member).1 (members c member).2,
          fun place => rowid ⟨c, member, place⟩⟩
      obtain ⟨tests, read, noRowid, empty, _⟩ := dimTests_spec agree (fun _ _ => true) columns
      have someTests : tests ≠ [] := fun none => filled (empty.mp none)
      refine ⟨dedupByKey ((query st.root tests).mergeSort idLe), ?_, fun other => ?_⟩
      · simp [filter, number, text, wanted, read, noRowid, someTests]
      · obtain ⟨tests', read', _, _, tells⟩ := dimTests_spec agree other columns
        obtain rfl : tests = tests' := Option.some.inj (read.symm.trans read')
        exact descent_rows agree tells

/-- A scan: what the cursor yields are the rows of a full scan that satisfy the handled
constraints, and behind a filter of the others it is the full scan behind a filter of all. -/
def Honoured (st : RtState cfg) (constraints : List VtabConstraint) : Prop :=
  ∀ info, bestIndex st constraints = .ok info → ∃ rows,
    filter st info.idxNum info.idxStr (filterArgs info constraints) = some rows ∧ ∀ other,
      (rows = st.values.filter fun row => (marked info constraints true).all (satisfies other st row)) ∧
      (rows.filter fun row => (marked info constraints false).all (satisfies other st row)) =
        st.values.filter fun row => constraints.all (satisfies other st row)

/-- The row map and the tree hold the same entries, each once. -/
def SameEntries (st : RtState cfg) : Prop :=
  ((items st.root).map (·.1)).Nodup ∧
    (∀ row, row ∈ items st.root ↔ st.rows.lookup row.1 = some row) ∧
    ∀ rid row, st.rows.lookup rid = some row → row.1 = rid

theorem Agree.honoured (agree : Agree st) (plain : Plain cfg constraints) : Honoured st constraints := by
  intro info done
  obtain ⟨rows, yielded, spec⟩ := filter_spec agree plain done
  refine ⟨rows, yielded, fun other => ⟨spec other, ?_⟩⟩
  rw [spec other, List.filter_filter]
  refine List.filter_congr fun row _ => ?_
  have flags := (bestIndex_spec done).1
  rw [marked_eq flags, marked_eq flags, Bool.eq_iff_iff]
  simp only [Bool.and_eq_true, List.all_eq_true, List.mem_filter, beq_iff_eq]
  constructor
  · rintro ⟨unhandled, handled⟩ c member
    cases flag : (planned cfg c).isSome with
    | true => exact handled c ⟨member, flag⟩
    | false => exact unhandled c ⟨member, flag⟩
  · exact fun all => ⟨fun c member => all c member.1, fun c member => all c member.1⟩

inductive TableCall where
  | update (ops : List UpdateOp)
  | reindex (rows : List (Int64 × List Value))

/-- A call that returns; it may return an error. -/
def TableStep (st : RtState cfg) (call : TableCall) (result : Except RtError Unit) (after : RtState cfg) : Prop :=
  match call with
  | .update ops => ∃ out, update st ops = some (out, after) ∧ result = out.map fun _ => ()
  | .reindex rows => reindex st rows = some (result, after)

/-- The row map and the tree take the call alike. -/
def TableGuard (st : RtState cfg) : TableCall → Prop
  | .update ops => OpsFit st ops
  | .reindex rows => RowsFit cfg rows

theorem step_agree {st after : RtState cfg} {call : TableCall} {result : Except RtError Unit}
    (agree : Agree st) (guarded : TableGuard st call) (stepped : TableStep st call result after) : Agree after := by
  cases call with
  | update ops =>
    obtain ⟨out, done, _⟩ := stepped
    obtain ⟨_, _, again, agreed⟩ := update_agree agree guarded
    rw [done] at again
    cases again
    exact agreed
  | reindex rows => exact reindex_agree agree guarded stepped

theorem rtree_table_honours {calls : List TableCall} {st : RtState cfg}
    (run : Run TableStep TableGuard (RtState.opened cfg) calls st) :
    SameEntries st ∧ ∀ constraints, Plain cfg constraints → Honoured st constraints := by
  have agree : Agree st := run.invariant Agree
    (fun _ _ _ _ agree guarded stepped => step_agree agree guarded stepped) opened_agree
  exact ⟨⟨agree.inv.distinct, agree.mem_items, agree.own⟩, fun _ plain => agree.honoured plain⟩

/-- A table of one dimension. -/
def lineTable : RtConfig := ⟨"line", 1, by decide, false, ["id", "minx", "maxx"]⟩

/-- An insertion of a row, from one coordinate to another. -/
def rowInsert (id : Int64) (lo hi : Binary64) : UpdateOp :=
  ⟨none, some id, [some (.integer id), some (.real lo), some (.real hi)]⟩

theorem rowInsert_validate (id : Int64) {lo hi : Binary64} (ordered : hi.lt lo = false) :
    validate lineTable (opRow lineTable (rowInsert id lo hi) none) = .ok ⟨fun _ => lo, fun _ => hi⟩ := by
  have box : BBox.fromRow lineTable (opRow lineTable (rowInsert id lo hi) none) =
      ⟨fun _ => lo, fun _ => hi⟩ := by
    refine congrArg₂ BBox.mk (funext fun d => ?_) (funext fun d => ?_)
    · rw [Fin.fin_one_eq_zero d]
      rfl
    · rw [Fin.fin_one_eq_zero d]
      rfl
  have inOrder : (List.finRange lineTable.dims).find? (fun _ => hi.lt lo) = none := by
    simp [ordered]
  unfold validate
  rw [box]
  dsimp only
  rw [inOrder]

/-- What it makes of a table whose root has room. -/
def rowInserted (st : RtState lineTable) (id : Int64) (lo hi : Binary64) : RtState lineTable :=
  ⟨st.rows.insert id (id, ⟨fun _ => lo, fun _ => hi⟩), st.root ++ [.leaf (id, ⟨fun _ => lo, fun _ => hi⟩)]⟩

theorem rowInsert_apply {st : RtState lineTable} (room : st.root.length < MAX_ENTRIES) {id : Int64}
    (named : id ≠ 0) {lo hi : Binary64} (ordered : hi.lt lo = false) :
    applyOp st (rowInsert id lo hi) = some (.ok (some id), rowInserted st id lo hi) := by
  have rid : insertedRowid (opRow lineTable (rowInsert id lo hi) none) id = id := if_pos named
  have valid := rowInsert_validate id ordered
  have unchecked : checkRange lineTable ⟨fun _ => lo, fun _ => hi⟩ = .ok () := rfl
  unfold applyOp
  simp only [rowInsert] at rid valid ⊢
  rw [valid]
  simp only [unchecked, rid, insert_room room]
  rfl

theorem rowInsert_fits {st : RtState lineTable} {id : Int64} (named : id ≠ 0) {lo hi : Binary64}
    (ordered : hi.lt lo = false) (proper : lo.le hi = true) (fresh : st.rows.lookup id = none) :
    OpFits st (rowInsert id lo hi) := by
  intro bbox valid _
  cases (rowInsert_validate id ordered).symm.trans valid
  have rid : insertedRowid (opRow lineTable (rowInsert id lo hi) none) id = id := if_pos named
  exact ⟨⟨fun _ => proper, fun mode => by cases mode⟩, by rw [rid]; exact fresh⟩

def twoRows : RtState lineTable :=
  rowInserted (rowInserted (.opened lineTable) 7 (.ofInt 1) (.ofInt 2)) 9 (.ofInt 3) (.ofInt 5)

/-- Bounds of both coordinates, and one of the id column, which no plan takes. -/
def askedWithin : List VtabConstraint :=
  [⟨some 1, .gt, .integer 2⟩, ⟨some 0, .ge, .integer 8⟩, ⟨some 2, .le, .real (.ofInt 5)⟩]

theorem askedWithin_plain : Plain lineTable askedWithin where
  values c member _ := by
    simp only [askedWithin, List.mem_cons, List.not_mem_nil, or_false] at member
    rcases member with rfl | rfl | rfl
    · exact .inr ⟨2, rfl, by decide +kernel⟩
    · exact .inr ⟨8, rfl, by decide +kernel⟩
    · exact .inl ⟨_, rfl⟩
  alone c member _ place := by
    simp only [askedWithin, List.mem_cons, List.not_mem_nil, or_false] at member
    rcases member with rfl | rfl | rfl <;> cases place

theorem rowid_plain (i : Int64) (round : Int64.ofInt (asI64 (asF64 i)) = i) :
    Plain lineTable [⟨none, .eq, .integer i⟩] where
  values c member _ := by
    rw [List.mem_singleton.mp member]
    exact ⟨i, rfl, round⟩
  alone c member _ _ another also _ := by
    rw [List.mem_singleton.mp member, List.mem_singleton.mp also]
    exact ⟨rfl, rfl⟩

theorem rtree_table_honours_line : SameEntries twoRows ∧ Honoured twoRows askedWithin ∧
    Honoured twoRows [⟨none, .eq, .integer 9⟩] := by
  have one := @rowInsert_apply (.opened lineTable) (by decide) 7 (by decide) (.ofInt 1) (.ofInt 2)
    (by decide +kernel)
  have two := @rowInsert_apply (rowInserted (.opened lineTable) 7 (.ofInt 1) (.ofInt 2))
    (by simp [rowInserted, RtState.opened, MAX_ENTRIES]) 9 (by decide) (.ofInt 3) (.ofInt 5) (by decide +kernel)
  have run : Run TableStep TableGuard (RtState.opened lineTable)
      [.update [rowInsert 7 (.ofInt 1) (.ofInt 2), rowInsert 9 (.ofInt 3) (.ofInt 5)]] twoRows := by
    refine .single ⟨?_, fun out after applied => ?_⟩ ⟨.ok [some 7, some 9], ?_, rfl⟩
    · exact rowInsert_fits (by decide) (by decide +kernel) (by decide +kernel) rfl
    · cases one.symm.trans applied
      exact ⟨rowInsert_fits (by decide) (by decide +kernel) (by decide +kernel) rfl, fun _ _ _ => trivial⟩
    · rw [update, one]
      simp only [Option.bind_eq_bind, Option.bind_some, update, two]
      rfl
  exact ⟨(rtree_table_honours run).1, (rtree_table_honours run).2 _ askedWithin_plain,
    (rtree_table_honours run).2 _ (rowid_plain 9 (by decide +kernel))⟩

/-- The row 7 at the coordinate zero. -/
def zeroInsert : UpdateOp := rowInsert 7 ⟨0⟩ ⟨0⟩

def zeroTable : RtState lineTable := ⟨(∅ : AssocMap Int64 _).insert 7 (7, zeroPoint), [.leaf (7, zeroPoint)]⟩

theorem zeroInsert_step : TableStep (RtState.opened lineTable) (.update [zeroInsert]) (.ok ()) zeroTable := by
  refine ⟨.ok [some 7], ?_, rfl⟩
  rw [update, zeroInsert, rowInsert_apply (by decide) (by decide) (by decide)]
  rfl

/-- The row 7, at a coordinate that it does not have. -/
def askedApart : List VtabConstraint := [⟨none, .eq, .integer 7⟩, ⟨some 1, .gt, .real ⟨0⟩⟩]

theorem askedApart_plan :
    decodePlan (encodePlan (askedApart.filterMap (planned lineTable))) (askedApart.map (·.value)) =
      [.rowid 7, .dim 1 .gt ⟨0⟩] := by
  have every : ∀ c ∈ askedApart, (planned lineTable c).isSome := by
    intro c member
    rcases List.mem_pair.mp member with rfl | rfl <;> rfl
  have filled : askedApart ≠ [] := List.cons_ne_nil _ _
  rw [decodePlan_encodePlan filled every]
  decide +kernel

/-- The rowid alone decides. -/
theorem rowid_alone : ¬ ∀ (calls : List TableCall) (st : RtState lineTable),
    Run TableStep (fun _ _ => True) (RtState.opened lineTable) calls st →
      SameEntries st ∧ ∀ constraints, Honoured st constraints := by
  intro claimed
  have run : Run TableStep (fun _ _ => True) (RtState.opened lineTable) [.update [zeroInsert]] zeroTable :=
    .single trivial zeroInsert_step
  obtain ⟨rows, yielded, spec⟩ := (claimed _ _ run).2 askedApart _ rfl
  have found : filter zeroTable 1 (some (encodePlan (askedApart.filterMap (planned lineTable))))
      (askedApart.map (·.value)) = some [(7, zeroPoint)] := by
    unfold filter
    simp only [Option.map_some, Option.getD_some, if_true, askedApart_plan]
    rfl
  obtain rfl : [(7, zeroPoint)] = rows := Option.some.inj (found.symm.trans yielded)
  have member : (7, zeroPoint) ∈ [((7 : Int64), zeroPoint)] := .head _
  rw [(spec fun _ _ => false).1] at member
  have satisfied := (List.mem_filter.mp member).2
  revert satisfied
  decide

end RustSql.Plugin.Rtree
