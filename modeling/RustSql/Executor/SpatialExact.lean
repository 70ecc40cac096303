import RustSql.Executor.SpatialIndex
import RustSql.Executor.SpatialCover

/-! Spatial scans of point queries are complete, and nearest-neighbour scans exact, as long as every
geometry fits the grid. -/

namespace RustSql.Executor.Geo

open RustSql.Foundation RustSql.Types

variable {Row : Type}

/-- The tree holds the entries of all rows in order, and nothing else. -/
structure Indexed (table : SpatialTable Row) (bt : List Entry) : Prop where
  sorted : bt.Pairwise fun one two => (List.compareLex compare one.1 two.1).isLE
  holds : ∃ entries, table.entries = some entries ∧ bt.Perm entries
  distinct : (table.rows.map Prod.fst).Nodup

/-- All geometries fit the grid. -/
def SpatialTable.Fits (table : SpatialTable Row) : Prop :=
  ∀ row ∈ table.rows, ∀ g, table.geometry row.2 = some g → FitsGrid table.resolution g.bbox

/-- The box of a query is one point. -/
def Pointlike (q : Geometry) : Prop := q.bbox.xmin = q.bbox.xmax ∧ q.bbox.ymin = q.bbox.ymax

theorem mapM_some {α β : Type} {f : α → Option β} {l : List α} (all : ∀ a ∈ l, f a ≠ none) : l.mapM f ≠ none := by
  induction l with
  | nil => simp
  | cons a l ih =>
    rw [List.forall_mem_cons] at all
    obtain ⟨b, here⟩ := Option.ne_none_iff_exists'.mp all.1
    obtain ⟨c, later⟩ := Option.ne_none_iff_exists'.mp (ih all.2)
    simp [List.mapM_cons, here, later]

theorem mem_of_mapM {α β : Type} {f : α → Option β} {l : List α} {results : List β} (found : l.mapM f = some results)
    {a : α} (member : a ∈ l) : ∃ b ∈ results, f a = some b := by
  induction l generalizing results with
  | nil => cases member
  | cons first rest ih =>
    rw [List.mapM_cons] at found
    cases here : f first with
    | none => simp [here] at found
    | some b =>
      cases later : rest.mapM f with
      | none => simp [here, later] at found
      | some others =>
        obtain rfl : b :: others = results := by simpa [here, later] using found
        rcases List.mem_cons.mp member with rfl | inside
        · exact ⟨b, by simp, here⟩
        · obtain ⟨c, listed, same⟩ := ih later inside
          exact ⟨c, by simp [listed], same⟩

theorem mem_source_of_mapM {α β : Type} {f : α → Option β} {l : List α} {results : List β}
    (found : l.mapM f = some results) {b : β} (member : b ∈ results) : ∃ a ∈ l, f a = some b := by
  induction l generalizing results with
  | nil =>
    cases found
    cases member
  | cons first rest ih =>
    rw [List.mapM_cons] at found
    cases here : f first with
    | none => simp [here] at found
    | some c =>
      cases later : rest.mapM f with
      | none => simp [here, later] at found
      | some others =>
        obtain rfl : c :: others = results := by simpa [here, later] using found
        rcases List.mem_cons.mp member with rfl | inside
        · exact ⟨first, by simp, here⟩
        · obtain ⟨a, listed, same⟩ := ih later inside
          exact ⟨a, by simp [listed], same⟩

/-- Where all geometries fit, no arithmetic overflows. -/
theorem SpatialTable.Fits.entries {table : SpatialTable Row} (fits : table.Fits) : table.entries ≠ none := by
  have rows : table.rows.mapM table.rowEntries ≠ none := by
    refine mapM_some fun row member => ?_
    unfold SpatialTable.rowEntries
    split
    · simp
    · rename_i g found
      obtain ⟨level, _, cells⟩ := cellsForBbox_fits (bbox_proper g) (fits row member g found)
      simp [cells]
  simpa [SpatialTable.entries] using rows

section

variable {table : SpatialTable Row} {bt : List Entry} (index : Indexed table bt) (fits : table.Fits)
include index fits

/-- The cells of a row are stored, all at one level. -/
theorem Indexed.stored {row : Int64 × Row} {g : Geometry} (member : row ∈ table.rows)
    (found : table.geometry row.2 = some g) :
    ∃ level ≤ SPATIAL_MAX_LEVEL, ∀ cell ∈ boxCells table.resolution level g.bbox,
      (encodeSpatialKey cell.level cell.cx cell.cy, row.1) ∈ bt := by
  obtain ⟨level, last, cells⟩ := cellsForBbox_fits (bbox_proper g) (fits row member g found)
  refine ⟨level, last, fun cell inside => ?_⟩
  obtain ⟨entries, made, same⟩ := index.holds
  rw [SpatialTable.entries, Option.map_eq_some_iff] at made
  obtain ⟨lists, made, rfl⟩ := made
  obtain ⟨listed, member', here⟩ := mem_of_mapM made member
  simp only [SpatialTable.rowEntries, found, cells, Option.map_some, Option.some.injEq] at here
  refine same.mem_iff.mpr (List.mem_flatten.mpr ⟨listed, member', ?_⟩)
  rw [← here]
  exact List.mem_map_of_mem inside

/-- A row near the query is in the window around it. -/
theorem Indexed.mem_window {row : Int64 × Row} {g q : Geometry} {r : ℚ} (member : row ∈ table.rows)
    (found : table.geometry row.2 = some g) (point : Pointlike q) (nonneg : 0 ≤ r)
    (near : Near r g.bbox q.bbox) : row.1 ∈ windowRowids bt table.resolution (windowAround (pointCenter q) r) := by
  obtain ⟨level, last, stored⟩ := index.stored fits member found
  have single : q.bbox = Box.single (pointCenter q) := by
    have x := point.1
    have y := point.2
    unfold Box.single pointCenter
    cases box : q.bbox
    simp only [box] at x y ⊢
    subst x y
    simp
  rw [single] at near
  refine mem_windowRowids index.sorted last stored (bbox_proper g) ⟨?_, ?_⟩ (near_window near le_rfl)
  · simp only [windowAround]
    linarith
  · simp only [windowAround]
    linarith

theorem Indexed.mem_all {row : Int64 × Row} {g : Geometry} (member : row ∈ table.rows)
    (found : table.geometry row.2 = some g) : row.1 ∈ bt.map Prod.snd := by
  obtain ⟨level, _, stored⟩ := index.stored fits member found
  have proper := bbox_proper g
  obtain ⟨cell, inside, _⟩ := @common_cell table.resolution _ proper _ proper
      (near_of_shared le_rfl (bbox_holds (exists_vertex g).choose_spec) (bbox_holds (exists_vertex g).choose_spec)) level
  exact List.mem_map.mpr ⟨_, stored cell inside, rfl⟩

end

/-- A distance, held as its square, is at most a radius. -/
def Within (d : WithTop ℚ) (r : ℚ) : Prop := 0 ≤ r ∧ d ≤ ((r ^ 2 : ℚ) : WithTop ℚ)

/-- A length at which the tolerance of the distance does no harm. -/
def Tolerant (table : SpatialTable Row) (q : Geometry) (r : ℚ) : Prop :=
  r < 0 ∨ EPS ≤ r ∨
    (∃ p, q = .point p) ∧ ∀ row ∈ table.rows, ∀ g, table.geometry row.2 = some g → ∃ p, g = .point p

variable {table : SpatialTable Row}

theorem near_of_within {q g : Geometry} {r : ℚ} (tolerant : Tolerant table q r) {row : Int64 × Row}
    (member : row ∈ table.rows) (found : table.geometry row.2 = some g)
    (close : Within (planarDistance g q) r) : Near r g.bbox q.bbox := by
  obtain ⟨nonneg, close⟩ := close
  rcases tolerant with negative | wide | ⟨⟨p, rfl⟩, points⟩
  · exact absurd nonneg (not_le.mpr negative)
  · exact (planarDistance_near nonneg close).mono (max_le le_rfl wide)
  · obtain ⟨p', rfl⟩ := points row member g found
    exact planarDistance_near_points nonneg close

/-- The keys of the rows that a scan ranks. -/
def candidates (table : SpatialTable Row) (passes : Row → Option Bool) (q : Geometry) : Set OrderKey :=
  {key | ∃ row g, (key.rowid, row) ∈ table.rows ∧ passes row = some true ∧ table.geometry row = some g ∧
    key.dist = planarDistance g q}

/-- The rows are those of the `k` least keys, in ascending order; an error is one of the residual. -/
def Exact (table : SpatialTable Row) (passes : Row → Option Bool) (q : Geometry) (k : Nat) : Option (List Row) → Prop
  | none => ∃ row ∈ table.rows, passes row.2 = none
  | some out => ∃ heap, Best k (candidates table passes q) heap ∧
      out.map some = heap.reverse.map fun key => table.rows.lookup key.rowid

theorem lookup_of_mem {l : List (Int64 × Row)} (distinct : (l.map Prod.fst).Nodup) {i : Int64} {row : Row}
    (member : (i, row) ∈ l) : l.lookup i = some row := by
  induction l with
  | nil => cases member
  | cons first rest ih =>
    obtain ⟨j, other⟩ := first
    rw [List.map_cons, List.nodup_cons] at distinct
    rcases List.mem_cons.mp member with same | later
    · cases same
      simp
    · have differ : i ≠ j := by
        rintro rfl
        exact distinct.1 (List.mem_map.mpr ⟨(i, row), later, rfl⟩)
      rw [List.lookup_cons, show (i == j) = false from beq_eq_false_iff_ne.mpr differ]
      exact ih distinct.2 later

theorem mem_of_lookup {l : List (Int64 × Row)} {i : Int64} {row : Row} (found : l.lookup i = some row) :
    (i, row) ∈ l := by
  induction l with
  | nil => cases found
  | cons first rest ih =>
    obtain ⟨j, other⟩ := first
    rw [List.lookup_cons] at found
    split at found
    · rename_i same
      cases found
      rw [eq_of_beq same]
      simp
    · exact List.mem_cons_of_mem _ (ih found)

/-- What a scan holds once it has ranked some rowids. -/
structure Ranked (table : SpatialTable Row) (query : KnnQuery Row) (seen : Int64 → Prop) (state : KnnState Row) : Prop where
  best : Best query.k {key | key ∈ candidates table query.passes query.point ∧ seen key.rowid} state.heap
  fetched : ∀ key ∈ state.heap, state.fetched.lookup key.rowid = table.rows.lookup key.rowid

/-- After some steps: the rows seen by then are ranked, or the residual has raised. -/
def Outcome (table : SpatialTable Row) (query : KnnQuery Row) (seen : Int64 → Prop) : Option (KnnState Row) → Prop
  | none => ∃ row ∈ table.rows, query.passes row.2 = none
  | some state => Ranked table query seen state

section

variable {table : SpatialTable Row} {query : KnnQuery Row}

variable {state : KnnState Row}

theorem Ranked.congr {seen seen' : Int64 → Prop} (ranked : Ranked table query seen state)
    (same : ∀ key ∈ candidates table query.passes query.point, seen key.rowid ↔ seen' key.rowid) :
    Ranked table query seen' state := by
  have keys : {key | key ∈ candidates table query.passes query.point ∧ seen' key.rowid} =
      {key | key ∈ candidates table query.passes query.point ∧ seen key.rowid} := by
    ext key
    exact and_congr_right fun member => (same key member).symm
  exact ⟨by rw [keys]; exact ranked.best, ranked.fetched⟩

variable {seen : Int64 → Prop}

/-- A rowid that brings no candidate changes nothing. -/
theorem Ranked.skip (ranked : Ranked table query seen state) {rowid : Int64}
    (none_ : ∀ key ∈ candidates table query.passes query.point, key.rowid ≠ rowid) :
    Ranked table query (fun x => seen x ∨ x = rowid) state :=
  ranked.congr fun key member => (or_iff_left (none_ key member)).symm

variable (distinct : (table.rows.map Prod.fst).Nodup)
include distinct

theorem candidate_iff {rowid : Int64} {row : Row} (found : table.rows.lookup rowid = some row) {d : WithTop ℚ} :
    ⟨d, rowid⟩ ∈ candidates table query.passes query.point ↔
      query.passes row = some true ∧ ∃ g, table.geometry row = some g ∧ d = planarDistance g query.point := by
  constructor
  · rintro ⟨other, g, member, passed, geometry, dist⟩
    obtain rfl : other = row := Option.some.inj ((lookup_of_mem distinct member).symm.trans found)
    exact ⟨passed, g, geometry, dist⟩
  · rintro ⟨passed, g, geometry, dist⟩
    exact ⟨row, g, mem_of_lookup found, passed, geometry, dist⟩

/-- A candidate goes to the heap, and its row is held aside. -/
theorem Ranked.offer {seen : Int64 → Prop} {state : KnnState Row} {rowid : Int64} {row : Row} {g : Geometry}
    (ranked : Ranked table query seen state) (new : ¬ seen rowid) (found : table.rows.lookup rowid = some row)
    (passed : query.passes row = some true) (geometry : table.geometry row = some g) :
    Ranked table query (fun x => seen x ∨ x = rowid)
      ⟨offer query.k state.heap ⟨planarDistance g query.point, rowid⟩, (rowid, row) :: state.fetched⟩ := by
  have grown : {key | key ∈ candidates table query.passes query.point ∧ (seen key.rowid ∨ key.rowid = rowid)} =
      insert ⟨planarDistance g query.point, rowid⟩
        {key | key ∈ candidates table query.passes query.point ∧ seen key.rowid} := by
    ext ⟨d, i⟩
    constructor
    · rintro ⟨member, old | same⟩
      · exact .inr ⟨member, old⟩
      · cases same
        obtain ⟨_, h, here, rfl⟩ := (candidate_iff distinct found).mp member
        rw [geometry] at here
        cases here
        exact .inl rfl
    · rintro (same | ⟨member, old⟩)
      · cases same
        exact ⟨(candidate_iff distinct found).mpr ⟨passed, g, geometry, rfl⟩, .inr rfl⟩
      · exact ⟨member, .inl old⟩
  refine ⟨by rw [grown]; exact ranked.best.offer fun old => new old.2, fun key kept => ?_⟩
  rw [List.lookup_cons]
  split
  · rename_i same
    rw [eq_of_beq same, found]
  · rename_i differ
    rcases mem_offer kept with rfl | old
    · simp at differ
    · exact ranked.fetched key old

theorem rankRow_spec {rowid : Int64} (ranked : Ranked table query seen state) (new : ¬ seen rowid) :
    Outcome table query (fun x => seen x ∨ x = rowid) (rankRow table query state rowid) := by
  cases found : table.rows.lookup rowid with
  | none =>
    simp only [rankRow, found]
    refine ranked.skip fun key member same => ?_
    obtain ⟨row, g, inside, _⟩ := member
    rw [← same, lookup_of_mem distinct inside] at found
    cases found
  | some row =>
    have only (key : OrderKey) (member : key ∈ candidates table query.passes query.point)
        (same : key.rowid = rowid) :
        query.passes row = some true ∧ ∃ g, table.geometry row = some g ∧ key.dist = planarDistance g query.point := by
      subst same
      exact (candidate_iff distinct found).mp member
    cases passed : query.passes row with
    | none =>
      simp only [rankRow, found, passed]
      exact ⟨(rowid, row), mem_of_lookup found, passed⟩
    | some pass =>
      cases pass with
      | false =>
        simp only [rankRow, found, passed]
        refine ranked.skip fun key member same => ?_
        have := (only key member same).1
        rw [passed] at this
        cases this
      | true =>
        cases geometry : table.geometry row with
        | none =>
          simp only [rankRow, found, passed, geometry]
          refine ranked.skip fun key member same => ?_
          obtain ⟨g, here, _⟩ := (only key member same).2
          rw [geometry] at here
          cases here
        | some g =>
          simp only [rankRow, found, passed, geometry]
          exact ranked.offer distinct new found passed geometry

theorem foldlM_rankRow_spec {fresh : List Int64} (ranked : Ranked table query seen state)
    (once : fresh.Nodup) (new : ∀ x ∈ fresh, ¬ seen x) :
    Outcome table query (fun x => seen x ∨ x ∈ fresh) (fresh.foldlM (rankRow table query) state) := by
  induction fresh generalizing seen state with
  | nil =>
    rw [List.foldlM_nil]
    exact ranked.congr fun key _ => by simp
  | cons rowid rest ih =>
    rw [List.nodup_cons] at once
    rw [List.forall_mem_cons] at new
    have step := rankRow_spec distinct ranked new.1
    rw [List.foldlM_cons]
    cases stepped : rankRow table query state rowid with
    | none =>
      rw [stepped] at step
      exact step
    | some after =>
      rw [stepped] at step
      have rest_ := ih step once.2 fun x member old => by
        rcases old with old | rfl
        · exact new.2 x member old
        · exact once.1 member
      have same : (fun x => (seen x ∨ x = rowid) ∨ x ∈ rest) = fun x => seen x ∨ x ∈ rowid :: rest := by
        funext x
        rw [List.mem_cons, or_assoc]
      rw [same] at rest_
      exact rest_

end

theorem lt_of_dist_lt {one two : OrderKey} (less : one.dist < two.dist) : one < two :=
  (Prod.Lex.toLex_lt_toLex (x := (one.dist, one.rowid.toInt)) (y := (two.dist, two.rowid.toInt))).mpr (.inl less)

section

variable {table : SpatialTable Row} {query : KnnQuery Row} {bt : List Entry} (index : Indexed table bt)
  (fits : table.Fits) (point : Pointlike query.point)
  (tolerant : 0 < table.resolution → Tolerant table query.point table.resolution)
include index fits

/-- The last round sees all candidates. -/
theorem seen_at_last {seen : List Int64} {key : OrderKey} (member : key ∈ candidates table query.passes query.point) :
    key.rowid ∈ (collectNew seen (roundRowids bt table query KNN_MAX_ROUNDS)).2 := by
  obtain ⟨row, g, inside, _, geometry, _⟩ := member
  rw [(collectNew_spec _ _).1, roundRowids, if_pos rfl]
  exact .inr (index.mem_all fits inside geometry)

include point tolerant

/-- What a window does not see is further away than its half side. -/
theorem far_of_unseen {seen : List Int64} {round : Nat} (inner : round ≠ KNN_MAX_ROUNDS)
    (positive : 0 < table.resolution * 2 ^ round) {key : OrderKey}
    (member : key ∈ candidates table query.passes query.point)
    (unseen : key.rowid ∉ (collectNew seen (roundRowids bt table query round)).2) :
    (((table.resolution * 2 ^ round) ^ 2 : ℚ) : WithTop ℚ) < key.dist := by
  obtain ⟨row, g, inside, _, geometry, dist⟩ := member
  by_contra close
  have power : (1 : ℚ) ≤ 2 ^ round := one_le_pow₀ (by norm_num)
  have resolution : 0 < table.resolution := pos_of_mul_pos_left positive (by positivity)
  have wide : Tolerant table query.point (table.resolution * 2 ^ round) := by
    rcases tolerant resolution with negative | wide | points
    · exact absurd resolution (not_lt.mpr negative.le)
    · exact .inr (.inl (by nlinarith))
    · exact .inr (.inr points)
  have near := near_of_within wide inside geometry ⟨positive.le, by rw [← dist]; exact not_lt.mp close⟩
  have found := index.mem_window fits inside geometry point positive.le near
  rw [(collectNew_spec _ _).1, roundRowids, if_neg inner, knnWindow, sane, if_pos resolution] at unseen
  exact unseen (.inr found)

theorem Ranked.finished {seen : List Int64} {round : Nat} {state : KnnState Row}
    (ranked : Ranked table query (· ∈ (collectNew seen (roundRowids bt table query round)).2) state)
    (done : finished table.resolution query.k round state.heap = true) : Ranked table query (fun _ => True) state := by
  by_cases last : round = KNN_MAX_ROUNDS
  · subst last
    exact ranked.congr fun key member => ⟨fun _ => trivial, fun _ => seen_at_last index fits member⟩
  · rw [Geo.finished, Bool.and_eq_true, decide_eq_true_eq] at done
    obtain ⟨size, stopped⟩ := done
    refine ⟨?_, ranked.fetched⟩
    have settled := @Best.settled _ _ _ _ _ ranked.best {key | key ∈ candidates table query.passes query.point ∧
      key.rowid ∉ (collectNew seen (roundRowids bt table query round)).2} size (by
      rintro worst top key ⟨member, unseen⟩
      rw [top] at stopped
      simp only [stops, if_neg last, Bool.and_eq_true, decide_eq_true_eq] at stopped
      exact lt_of_dist_lt (stopped.2.trans (far_of_unseen index fits point tolerant last stopped.1 member unseen)))
    have all : {key | key ∈ candidates table query.passes query.point ∧ True} =
        {key | key ∈ candidates table query.passes query.point ∧
          key.rowid ∈ (collectNew seen (roundRowids bt table query round)).2} ∪
        {key | key ∈ candidates table query.passes query.point ∧
          key.rowid ∉ (collectNew seen (roundRowids bt table query round)).2} := by
      ext key
      constructor
      · rintro ⟨member, _⟩
        exact (em _).imp (⟨member, ·⟩) (⟨member, ·⟩)
      · rintro (⟨member, _⟩ | ⟨member, _⟩) <;> exact ⟨member, trivial⟩
    rw [all]
    exact settled

theorem knnRounds_spec {first count : Nat} (last : first + count = KNN_MAX_ROUNDS + 1) {seen : List Int64}
    {state : KnnState Row} (ranked : Ranked table query (· ∈ seen) state)
    (complete : count = 0 → ∀ key ∈ candidates table query.passes query.point, key.rowid ∈ seen) :
    Outcome table query (fun _ => True) (knnRounds bt table query (List.range' first count) seen state) := by
  induction count generalizing first seen state with
  | zero => exact ranked.congr fun key member => ⟨fun _ => trivial, fun _ => complete rfl key member⟩
  | succ count ih =>
    obtain ⟨all, fresh, once⟩ := collectNew_spec seen (roundRowids bt table query first)
    have stepped := foldlM_rankRow_spec index.distinct ranked once fun x member => ((fresh x).mp member).2
    have same : (fun x => x ∈ seen ∨ x ∈ (collectNew seen (roundRowids bt table query first)).1) =
        fun x => x ∈ (collectNew seen (roundRowids bt table query first)).2 := by
      funext x
      rw [all, fresh, eq_iff_iff]
      tauto
    rw [same] at stepped
    rw [List.range'_succ, knnRounds]
    cases result : (collectNew seen (roundRowids bt table query first)).1.foldlM (rankRow table query) state with
    | none =>
      rw [result] at stepped
      simp only [result]
      exact stepped
    | some after =>
      rw [result] at stepped
      simp only [result]
      split
      · rename_i done
        exact Ranked.finished index fits point tolerant stepped done
      · refine ih (by omega) stepped ?_
        rintro rfl key member
        obtain rfl : first = KNN_MAX_ROUNDS := by omega
        exact seen_at_last index fits member

end

theorem filterMap_map_some {α β : Type} {f g : α → Option β} {l : List α}
    (same : ∀ a ∈ l, f a = g a ∧ g a ≠ none) : (l.filterMap f).map some = l.map g := by
  induction l with
  | nil => rfl
  | cons a l ih =>
    rw [List.forall_mem_cons] at same
    obtain ⟨b, here⟩ := Option.ne_none_iff_exists'.mp same.1.2
    rw [List.filterMap_cons_some (same.1.1.trans here), List.map_cons, List.map_cons, ih same.2, here]

/-- Of what is held for the keys of a heap, the rows come out in ascending order. -/
theorem emitted {query : KnnQuery Row} {state : KnnState Row}
    (distinct : (table.rows.map Prod.fst).Nodup) (ranked : Ranked table query (fun _ => True) state) :
    (state.heap.reverse.filterMap fun key => state.fetched.lookup key.rowid).map some =
      state.heap.reverse.map fun key => table.rows.lookup key.rowid := by
  refine filterMap_map_some fun key member => ?_
  have kept := List.mem_reverse.mp member
  obtain ⟨⟨row, g, inside, _⟩, _⟩ := ranked.best.seen_of_mem key kept
  exact ⟨ranked.fetched key kept, by rw [lookup_of_mem distinct inside]; simp⟩

theorem execSpatialKnn_exact {bt : List Entry} (index : Indexed table bt) (fits : table.Fits)
    {q : Geometry} (point : Pointlike q)
    (tolerant : 0 < table.resolution → Tolerant table q table.resolution)
    (passes : Row → Option Bool) (limit : Int64) :
    Exact table passes q limit.toInt.toNat (execSpatialKnn bt table passes q limit) := by
  have start (query : KnnQuery Row) : Ranked table query (· ∈ ([] : List Int64)) ⟨[], []⟩ := by
    refine ⟨?_, by simp⟩
    have none_ : {key | key ∈ candidates table query.passes query.point ∧ key.rowid ∈ ([] : List Int64)} = ∅ := by
      ext key
      simp
    rw [none_]
    exact best_nil query.k
  rw [execSpatialKnn]
  split
  · rename_i nonpositive
    have zero : limit.toInt.toNat = 0 := Int.toNat_of_nonpos (Int64.le_iff_toInt_le.mp nonpositive)
    rw [zero]
    refine ⟨[], ⟨List.Pairwise.nil, ?_, Nat.le_refl 0, ?_, ?_⟩, rfl⟩ <;> simp
  · have ran := @knnRounds_spec _ _ ⟨passes, q, limit.toInt.toNat⟩ _ index fits point tolerant 0
      (KNN_MAX_ROUNDS + 1) (Nat.zero_add _) _ _ (start _) nofun
    rw [← List.range_eq_range'] at ran
    cases result : knnRounds bt table ⟨passes, q, limit.toInt.toNat⟩ (List.range (KNN_MAX_ROUNDS + 1)) [] ⟨[], []⟩ with
    | none =>
      rw [result] at ran
      exact ran
    | some state =>
      rw [result] at ran
      refine ⟨state.heap, ?_, emitted index.distinct ran⟩
      have all : {key | key ∈ candidates table passes q ∧ True} = candidates table passes q := by
        ext key
        exact and_iff_left trivial
      rw [← all]
      exact ran.best

/-- No cell arithmetic overflows, the window of a scan holds all rows within the radius, and a
nearest-neighbour scan returns the rows of the least keys. -/
def Correct (table : SpatialTable Row) (q : Geometry) (r : ℚ) : Prop :=
  table.entries ≠ none ∧ ∀ bt, Indexed table bt →
    (∀ row ∈ table.rows, ∀ g, table.geometry row.2 = some g → Within (planarDistance g q) r →
      row.1 ∈ spatialScanRowids bt table q r) ∧
    ∀ passes limit, Exact table passes q limit.toInt.toNat (execSpatialKnn bt table passes q limit)

theorem spatial_scans_correct (table : SpatialTable Row) (q : Geometry) (r : ℚ) (fits : table.Fits)
    (point : Pointlike q) (radius : Tolerant table q r)
    (grid : 0 < table.resolution → Tolerant table q table.resolution) : Correct table q r := by
  refine ⟨fits.entries, fun bt index => ⟨fun row member g found close => ?_, fun passes limit => ?_⟩⟩
  · exact index.mem_window fits member found point close.1 (near_of_within radius member found close)
  · exact execSpatialKnn_exact index fits point grid passes limit

end RustSql.Executor.Geo
