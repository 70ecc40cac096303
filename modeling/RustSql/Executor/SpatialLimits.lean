import RustSql.Executor.SpatialExact
import Mathlib.Data.List.TakeWhile

/-! What spatial scans miss: rows of geometries that fit no level, rows near a query that is no point,
and rows within the tolerance of the distance. -/

namespace RustSql.Executor.Geo

open RustSql.Foundation RustSql.Types

variable {Row : Type}

theorem not_lt_of_mem_scanFrom {bt : List Entry} {word : List UInt8} {entry : Entry}
    (sorted : bt.Pairwise fun one two => (List.compareLex compare one.1 two.1).isLE)
    (member : entry ∈ scanFrom compare Prod.fst word bt) : List.compareLex compare entry.1 word ≠ .lt := by
  induction bt with
  | nil => cases member
  | cons first rest ih =>
    have ordered := List.pairwise_cons.mp sorted
    rw [scanFrom] at member
    by_cases below : List.compareLex compare first.1 word = .lt
    · rw [List.dropWhile_cons_of_pos (by simp [below])] at member
      exact ih ordered.2 member
    · rw [List.dropWhile_cons_of_neg (by simp [below])] at member
      rcases List.mem_cons.mp member with rfl | later
      · exact below
      · intro less
        have order := ordered.1 entry later
        refine below ?_
        have lt : List.compareLex compare first.1 word = .lt :=
          Std.TransCmp.lt_of_isLE_of_lt order less
        exact lt

/-- What the scan of a level finds under the key of a cell is a cell of the window. -/
theorem scanLevel_sound {bt : List Entry} {level : Nat} {cx0 cy0 cx1 cy1 : Int} {rowid : Int64}
    (sorted : bt.Pairwise fun one two => (List.compareLex compare one.1 two.1).isLE)
    (last : level ≤ SPATIAL_MAX_LEVEL) (low : Fits64 cx0 ∧ Fits64 cy0) (high : Fits64 cx1 ∧ Fits64 cy1)
    (found : rowid ∈ scanLevel bt level cx0 cy0 cx1 cy1) :
    ∃ key, (key, rowid) ∈ bt ∧ ∀ l cx cy, l ≤ SPATIAL_MAX_LEVEL → Fits64 cx ∧ Fits64 cy →
      key = encodeSpatialKey l cx cy → l = level ∧ (cx0 ≤ cx ∧ cx ≤ cx1) ∧ cy0 ≤ cy ∧ cy ≤ cy1 := by
  rw [scanLevel] at found
  obtain ⟨⟨key, id⟩, inBand, read⟩ := List.mem_filterMap.mp found
  have within := List.mem_takeWhile_imp inBand
  rw [bne_iff_ne] at within
  have scanned := (List.takeWhile_sublist _).subset inBand
  have reached := not_lt_of_mem_scanFrom sorted scanned
  have member := (List.dropWhile_sublist _).subset scanned
  have same : id = rowid ∧ ∀ l cx cy, Fits64 cx ∧ Fits64 cy → key = encodeSpatialKey l cx cy →
      (cx0 ≤ cx ∧ cx ≤ cx1) ∧ cy0 ≤ cy ∧ cy ≤ cy1 := by
    cases decoded : decodeSpatialKey key with
    | none => simp [decoded] at read
    | some cell =>
      obtain ⟨_, x, y⟩ := cell
      simp only [decoded] at read
      split at read
      · rename_i inside
        refine ⟨by simpa using read, fun l cx cy fits shape => ?_⟩
        obtain ⟨_, own⟩ := @decodeSpatialKey_encode l _ _ fits.1 fits.2
        rw [← shape, decoded] at own
        cases own
        exact ⟨⟨inside.1, inside.2.1⟩, inside.2.2⟩
      · cases read
  obtain ⟨rfl, cells⟩ := same
  refine ⟨key, member, fun l cx cy small fits shape => ⟨?_, cells l cx cy fits shape⟩⟩
  rw [shape] at within reached
  dsimp only at within reached
  rw [encodeSpatialKey_levels fits low, toInt_of_level small, toInt_of_level last] at reached
  rw [encodeSpatialKey_levels fits high, toInt_of_level small, toInt_of_level last] at within
  rcases lt_trichotomy (l : Int) level with less | equal | more
  · rw [compare_lt_iff_lt.mpr less] at reached
    exact absurd rfl reached
  · exact Int.ofNat_inj.mp equal
  · rw [compare_gt_iff_gt.mpr more] at within
    simp at within

variable {table : SpatialTable Row} {g : Geometry}

/-- A window finds a row by one of the row's own cells. -/
theorem window_sound {bt : List Entry} (index : Indexed table bt) {row : Int64 × Row}
    {cells : List Cell} (member : row ∈ table.rows) (found : table.geometry row.2 = some g)
    (own : cellsForBbox g.bbox table.resolution = some cells)
    (proper : ∀ cell ∈ cells, cell.level ≤ SPATIAL_MAX_LEVEL ∧ Fits64 cell.cx ∧ Fits64 cell.cy)
    {w : Box} (inside : row.1 ∈ windowRowids bt table.resolution w) :
    ∃ cell ∈ cells, (floorDiv w.xmin (cellWidth table.resolution cell.level) ≤ cell.cx ∧
        cell.cx ≤ floorDiv w.xmax (cellWidth table.resolution cell.level)) ∧
      floorDiv w.ymin (cellWidth table.resolution cell.level) ≤ cell.cy ∧
        cell.cy ≤ floorDiv w.ymax (cellWidth table.resolution cell.level) := by
  obtain ⟨level, listed, scanned⟩ := List.mem_flatMap.mp inside
  have last : level ≤ SPATIAL_MAX_LEVEL := Nat.lt_succ_iff.mp (List.mem_range.mp listed)
  obtain ⟨key, stored, sound⟩ := scanLevel_sound index.sorted last ⟨floorDiv_fits _ _, floorDiv_fits _ _⟩
    ⟨floorDiv_fits _ _, floorDiv_fits _ _⟩ scanned
  -- the entry is one of this row
  obtain ⟨entries, made, same⟩ := index.holds
  rw [SpatialTable.entries, Option.map_eq_some_iff] at made
  obtain ⟨lists, made, rfl⟩ := made
  obtain ⟨part, inParts, inPart⟩ := List.mem_flatten.mp (same.mem_iff.mp stored)
  obtain ⟨other, listed', here⟩ := mem_source_of_mapM made inParts
  have rowid : other.1 = row.1 ∧ ∃ h cells, table.geometry other.2 = some h ∧
      cellsForBbox h.bbox table.resolution = some cells ∧
      ∃ cell ∈ cells, key = encodeSpatialKey cell.level cell.cx cell.cy := by
    unfold SpatialTable.rowEntries at here
    split at here
    · cases here
      cases inPart
    · rename_i h geometry
      obtain ⟨cells, made, rfl⟩ := Option.map_eq_some_iff.mp here
      obtain ⟨cell, inCells, shape⟩ := List.mem_map.mp inPart
      obtain ⟨rfl, sameId⟩ := Prod.mk.inj shape
      exact ⟨sameId, h, cells, geometry, made, cell, inCells, rfl⟩
  obtain ⟨sameId, h, cells', geometry, made', cell, inCells, shape⟩ := rowid
  obtain rfl : other = row := by
    have one := @lookup_of_mem _ _ index.distinct other.1 other.2 listed'
    have two := @lookup_of_mem _ _ index.distinct row.1 row.2 member
    rw [sameId, two] at one
    exact Prod.ext sameId (Option.some.inj one).symm
  rw [found] at geometry
  cases geometry
  rw [own] at made'
  cases made'
  obtain ⟨small, fits⟩ := proper cell inCells
  obtain ⟨rfl, column, line⟩ := sound cell.level cell.cx cell.cy small fits shape
  exact ⟨cell, inCells, column, line⟩

/-- Entries can be put in order. -/
theorem exists_indexed (distinct : (table.rows.map Prod.fst).Nodup) (fine : table.entries ≠ none) :
    ∃ bt, Indexed table bt := by
  obtain ⟨entries, made⟩ := Option.ne_none_iff_exists'.mp fine
  refine ⟨entries.mergeSort fun one two => (List.compareLex compare one.1 two.1).isLE, ?_, ⟨entries, made, ?_⟩, distinct⟩
  · have trans {x y z : List UInt8} (one : (List.compareLex compare x y).isLE) (two : (List.compareLex compare y z).isLE) :
        (List.compareLex compare x z).isLE := Std.TransCmp.isLE_trans one two
    refine @List.pairwise_mergeSort Entry (fun one two => (List.compareLex compare one.1 two.1).isLE)
      (fun a b c first second => trans first second) (fun a b => ?_) entries
    have swap : List.compareLex compare b.1 a.1 = (List.compareLex compare a.1 b.1).swap := Std.OrientedCmp.eq_swap
    rw [swap]
    cases List.compareLex compare a.1 b.1 <;> rfl
  · exact List.mergeSort_perm _ _

/-- A scan is not correct if the cells of a row within the radius are all out of the window. -/
theorem not_correct_of_missed (distinct : (table.rows.map Prod.fst).Nodup) {row : Int64 × Row}
    {g q : Geometry} {r : ℚ} {cells : List Cell} (member : row ∈ table.rows)
    (found : table.geometry row.2 = some g)
    (own : cellsForBbox g.bbox table.resolution = some cells)
    (proper : ∀ cell ∈ cells, cell.level ≤ SPATIAL_MAX_LEVEL ∧ Fits64 cell.cx ∧ Fits64 cell.cy)
    (close : Within (planarDistance g q) r)
    (missed : ∀ cell ∈ cells, floorDiv ((pointCenter q).1 + r) (cellWidth table.resolution cell.level) < cell.cx ∨
      cell.cx < floorDiv ((pointCenter q).1 - r) (cellWidth table.resolution cell.level) ∨
      floorDiv ((pointCenter q).2 + r) (cellWidth table.resolution cell.level) < cell.cy ∨
      cell.cy < floorDiv ((pointCenter q).2 - r) (cellWidth table.resolution cell.level)) :
    ¬ Correct table q r := by
  rintro ⟨fine, correct⟩
  obtain ⟨bt, index⟩ := exists_indexed distinct fine
  have inside := (correct bt index).1 row member g found close
  obtain ⟨cell, listed, column, line⟩ := window_sound index member found own proper inside
  simp only [windowAround] at column line
  rcases missed cell listed with away | away | away | away <;> omega

/-- The point of a segment next to a point is as near as both of its ends. -/
theorem pointSegDist_le (p a b : Pt) : pointSegDist p a b ≤ squared p a ∧ pointSegDist p a b ≤ squared p b := by
  rw [pointSegDist]
  split
  · rename_i short
    have x : b.1 - a.1 = 0 := by nlinarith [sq_nonneg (b.1 - a.1), sq_nonneg (b.2 - a.2)]
    have y : b.2 - a.2 = 0 := by nlinarith [sq_nonneg (b.1 - a.1), sq_nonneg (b.2 - a.2)]
    have same : a = b := Prod.ext (by linarith) (by linarith)
    simp [same]
  · rename_i long
    rw [not_le] at long
    -- the square of the distance along the segment is a parabola with its low point at `part`
    obtain ⟨len, is⟩ : ∃ len, (b.1 - a.1) * (b.1 - a.1) + (b.2 - a.2) * (b.2 - a.2) = len := ⟨_, rfl⟩
    obtain ⟨part, low⟩ : ∃ part, ((p.1 - a.1) * (b.1 - a.1) + (p.2 - a.2) * (b.2 - a.2)) / len = part := ⟨_, rfl⟩
    rw [is] at long
    have dot : (p.1 - a.1) * (b.1 - a.1) + (p.2 - a.2) * (b.2 - a.2) = part * len := by
      rw [← low]
      field_simp
    have along (t : ℚ) : squared p (a.1 + t * (b.1 - a.1), a.2 + t * (b.2 - a.2)) =
        squared p a + len * (t ^ 2 - 2 * t * part) := by
      simp only [squared]
      linear_combination (-2 * t) * dot + t ^ 2 * is
    have atEnd : squared p b = squared p a + len * (1 - 2 * part) := by
      have whole := along 1
      simpa using whole
    have value : squared p (closest p a b) = squared p a + len *
        (max 0 (min 1 part) ^ 2 - 2 * max 0 (min 1 part) * part) := by
      rw [← along]
      simp only [closest, is, low]
    rw [value, atEnd]
    have best : max 0 (min 1 part) ^ 2 - 2 * max 0 (min 1 part) * part ≤ 0 ∧
        max 0 (min 1 part) ^ 2 - 2 * max 0 (min 1 part) * part ≤ 1 - 2 * part := by
      rcases le_total part 0 with below | above
      · rw [min_eq_right (below.trans zero_le_one), max_eq_left below]
        constructor <;> linarith
      · rcases le_total part 1 with inside | beyond
        · rw [min_eq_right inside, max_eq_right above]
          constructor <;> nlinarith
        · rw [min_eq_left beyond, max_eq_right zero_le_one]
          constructor <;> linarith
    constructor <;> nlinarith

theorem windows_cover {pts : List Pt} (long : 2 ≤ pts.length) {v : Pt} (member : v ∈ pts) :
    ∃ e ∈ windows pts, e.1 = v ∨ e.2 = v := by
  induction pts with
  | nil => cases member
  | cons first rest ih =>
    cases rest with
    | nil => simp at long
    | cons second rest =>
      have head : (first, second) ∈ windows (first :: second :: rest) := by simp [windows]
      rcases List.mem_cons.mp member with rfl | later
      · exact ⟨_, head, .inl rfl⟩
      · rcases List.mem_cons.mp later with rfl | inside
        · exact ⟨_, head, .inr rfl⟩
        · have more : 2 ≤ (second :: rest).length := by
            have := List.length_pos_of_mem inside
            simp only [List.length_cons]
            omega
          obtain ⟨e, listed, ends⟩ := ih more later
          exact ⟨e, by simpa [windows] using .inr listed, ends⟩

/-- Every vertex is the end of an edge, except of a point. -/
theorem edges_cover {v : Pt} (vertex : v ∈ g.vertices) (other : ∀ p, g ≠ .point p) :
    ∃ e ∈ g.edges, e.1 = v ∨ e.2 = v := by
  cases g with
  | point p => exact absurd rfl (other p)
  | lineString pts long => exact windows_cover long vertex
  | polygon rings some_ closed =>
    obtain ⟨ring, listed, inside⟩ := List.mem_flatten.mp vertex
    have long := closed ring listed
    have covered : ∃ e ∈ ringEdges ring, e.1 = v ∨ e.2 = v := by
      rw [ringEdges, if_pos (by omega)]
      refine windows_cover ?_ ?_
      · split
        · rw [List.length_append]
          omega
        · omega
      · split
        · exact List.mem_append_left _ inside
        · exact inside
    obtain ⟨e, inRing, ends⟩ := covered
    exact ⟨e, List.mem_flatMap.mpr ⟨ring, listed, inRing⟩, ends⟩

theorem foldl_min_le_start (distances : List ℚ) (start : WithTop ℚ) :
    distances.foldl (fun best d => min best (d : WithTop ℚ)) start ≤ start := by
  induction distances generalizing start with
  | nil => exact le_rfl
  | cons d rest ih => exact (ih _).trans (min_le_left _ _)

theorem best_le_of_mem {distances : List ℚ} {d : ℚ} (member : d ∈ distances) : best distances ≤ (d : WithTop ℚ) := by
  rw [best]
  generalize (⊤ : WithTop ℚ) = start
  induction distances generalizing start with
  | nil => cases member
  | cons e rest ih =>
    rcases List.mem_cons.mp member with rfl | later
    · exact (foldl_min_le_start rest _).trans (min_le_right _ _)
    · exact ih later _

theorem geomPointDist_le {p v : Pt} (vertex : v ∈ g.vertices) (other : ∀ p, g ≠ .point p) :
    geomPointDist p g ≤ ((squared p v : ℚ) : WithTop ℚ) := by
  obtain ⟨e, listed, ends⟩ := edges_cover vertex other
  have short : pointSegDist p e.1 e.2 ≤ squared p v := by
    rcases ends with rfl | rfl
    · exact (pointSegDist_le p e.1 e.2).1
    · exact (pointSegDist_le p e.1 e.2).2
  have found : best (g.edges.map fun e => pointSegDist p e.1 e.2) ≤ ((squared p v : ℚ) : WithTop ℚ) :=
    (best_le_of_mem (List.mem_map_of_mem listed)).trans (WithTop.coe_le_coe.mpr short)
  have finite : best (g.edges.map fun e => pointSegDist p e.1 e.2) ≠ ⊤ := ne_top_of_le_ne_top (by simp) found
  unfold geomPointDist
  simp only [if_pos finite]
  exact found

/-- No geometry is further from a point than any of its vertices is. -/
theorem planarDistance_le_vertex {p v : Pt} (vertex : v ∈ g.vertices) :
    planarDistance g (.point p) ≤ ((squared p v : ℚ) : WithTop ℚ) ∧
      planarDistance (.point p) g ≤ ((squared p v : ℚ) : WithTop ℚ) := by
  have zero : (0 : WithTop ℚ) ≤ ((squared p v : ℚ) : WithTop ℚ) := by
    rw [← WithTop.coe_zero, WithTop.coe_le_coe, squared]
    positivity
  cases shape : g with
  | point w =>
    subst shape
    cases List.mem_singleton.mp vertex
    have symmetric : squared v p = squared p v := by
      simp only [squared]
      ring
    simp [planarDistance, symmetric]
  | lineString pts long =>
    have far : geomPointDist p g ≤ ((squared p v : ℚ) : WithTop ℚ) :=
      geomPointDist_le vertex (by simp [shape])
    rw [shape] at far
    simp only [planarDistance]
    constructor
    · split
      · exact zero
      · exact far
    · split
      · exact zero
      · exact far
  | polygon rings some_ closed =>
    have far : geomPointDist p g ≤ ((squared p v : ℚ) : WithTop ℚ) :=
      geomPointDist_le vertex (by simp [shape])
    rw [shape] at far
    simp only [planarDistance]
    constructor
    · split
      · exact zero
      · exact far
    · split
      · exact zero
      · exact far

theorem foldl_grow_corners (pts : List Pt) (box : Box) :
    ((pts.foldl Box.grow box).xmax = box.xmax ∨ ∃ v ∈ pts, v.1 = (pts.foldl Box.grow box).xmax) ∧
      ((pts.foldl Box.grow box).ymax = box.ymax ∨ ∃ v ∈ pts, v.2 = (pts.foldl Box.grow box).ymax) := by
  induction pts generalizing box with
  | nil => exact ⟨.inl rfl, .inl rfl⟩
  | cons p rest ih =>
    rw [List.foldl_cons]
    obtain ⟨x, y⟩ := ih (box.grow p)
    constructor
    · rcases x with same | ⟨v, member, same⟩
      · rcases max_choice box.xmax p.1 with old | new
        · exact .inl (same.trans old)
        · exact .inr ⟨p, by simp, (same.trans new).symm⟩
      · exact .inr ⟨v, by simp [member], same⟩
    · rcases y with same | ⟨v, member, same⟩
      · rcases max_choice box.ymax p.2 with old | new
        · exact .inl (same.trans old)
        · exact .inr ⟨p, by simp, (same.trans new).symm⟩
      · exact .inr ⟨v, by simp [member], same⟩

theorem exists_corners (g : Geometry) : (∃ v ∈ g.vertices, v.1 = g.bbox.xmax) ∧ ∃ v ∈ g.vertices, v.2 = g.bbox.ymax := by
  obtain ⟨p, vertex⟩ := exists_vertex g
  rw [Geometry.bbox]
  cases vertices : g.vertices with
  | nil => simp [vertices] at vertex
  | cons first rest =>
    obtain ⟨x, y⟩ := foldl_grow_corners rest (.single first)
    constructor
    · rcases x with same | ⟨v, member, same⟩
      · exact ⟨first, by simp, same.symm⟩
      · exact ⟨v, by simp [member], same⟩
    · rcases y with same | ⟨v, member, same⟩
      · exact ⟨first, by simp, same.symm⟩
      · exact ⟨v, by simp [member], same⟩

theorem boxCells_fit {res : ℚ} {level : Nat} {box : Box} (last : level ≤ SPATIAL_MAX_LEVEL) (proper : box.Proper) :
    ∀ cell ∈ boxCells res level box, cell.level ≤ SPATIAL_MAX_LEVEL ∧ Fits64 cell.cx ∧ Fits64 cell.cy := by
  intro cell member
  obtain ⟨rfl, column, row⟩ := mem_cellRect.mp member
  have x := floorDiv_fits box.xmin (cellWidth res cell.level)
  have x' := floorDiv_fits box.xmax (cellWidth res cell.level)
  have y := floorDiv_fits box.ymin (cellWidth res cell.level)
  have y' := floorDiv_fits box.ymax (cellWidth res cell.level)
  have wide := @span_pos res _ _ cell.level proper.x
  have high := @span_pos res _ _ cell.level proper.y
  unfold span at column row wide high
  unfold Fits64 at *
  exact ⟨last, by omega, by omega⟩

/-- A box with few cells at the finest level is put there. -/
theorem cellsForBbox_first {res : ℚ} {box : Box} (proper : box.Proper)
    (few : span res 0 box.xmin box.xmax * span res 0 box.ymin box.ymax ≤ SPATIAL_MAX_CELLS) :
    cellsForBbox box res = some (boxCells res 0 box) := by
  have x := @span_pos res _ _ 0 proper.x
  have y := @span_pos res _ _ 0 proper.y
  have sides := @span_le_product res _ proper 0
  have limit : ((SPATIAL_MAX_CELLS : Nat) : Int) = 256 := rfl
  have small : min (2 ^ 64 - 1) ((span res 0 box.xmin box.xmax).toNat * (span res 0 box.ymin box.ymax).toNat) ≤
      SPATIAL_MAX_CELLS := by
    refine min_le_iff.mpr (.inr ?_)
    rw [← Int.toNat_mul (by omega) (by omega), Int.toNat_le]
    exact few
  rw [cellsForBbox, List.range_eq_range', List.range'_succ, cellsFrom]
  simp only [Option.bind_eq_bind, cellCount_span proper.x (show span res 0 box.xmin box.xmax < 2 ^ 63 by omega),
    cellCount_span proper.y (show span res 0 box.ymin box.ymax < 2 ^ 63 by omega), Option.bind_some, if_pos small]
  rfl

/-- A table of one geometry. -/
def lone (g : Geometry) (res : ℚ) : SpatialTable Geometry := ⟨[(1, g)], some, res⟩

theorem lone_fits {res : ℚ} (fits : FitsGrid res g.bbox) : (lone g res).Fits := by
  intro row member h found
  cases List.mem_singleton.mp member
  cases found
  exact fits

theorem span_same (res : ℚ) (level : Nat) (x : ℚ) : span res level x x = 1 := by
  unfold span
  omega

/-- A point beside a vertex is missed when the window ends in front of its cell. -/
theorem missed_beside {q : Geometry} {v p : Pt} {t res : ℚ} (vertex : v ∈ q.vertices) (nonneg : 0 ≤ t)
    (apart : squared p v = t ^ 2)
    (away : floorDiv ((pointCenter q).1 + t) (cellWidth res 0) < floorDiv p.1 (cellWidth res 0) ∨
      floorDiv ((pointCenter q).2 + t) (cellWidth res 0) < floorDiv p.2 (cellWidth res 0)) :
    ¬ Correct (lone (.point p) res) q t := by
  have few : span res 0 (Geometry.point p).bbox.xmin (Geometry.point p).bbox.xmax *
      span res 0 (Geometry.point p).bbox.ymin (Geometry.point p).bbox.ymax ≤ SPATIAL_MAX_CELLS := by
    have one : (Geometry.point p).bbox = Box.single p := rfl
    rw [one, Box.single, span_same, span_same]
    decide
  have own := cellsForBbox_first (bbox_proper (.point p)) few
  refine not_correct_of_missed (by simp [lone]) (List.mem_singleton_self _) rfl own
    (boxCells_fit (Nat.zero_le _) (bbox_proper _)) ⟨nonneg, ?_⟩ fun cell member => ?_
  · rw [← apart]
    exact (planarDistance_le_vertex vertex).2
  · obtain ⟨level, column, row⟩ := mem_cellRect.mp member
    have cx : floorDiv p.1 (cellWidth res 0) ≤ cell.cx := column.1
    have cy : floorDiv p.2 (cellWidth res 0) ≤ cell.cy := row.1
    rw [level]
    rcases away with x | y
    · exact .inl (lt_of_lt_of_le x cx)
    · exact .inr (.inr (.inl (lt_of_lt_of_le y cy)))

/-- On one axis: with cells as wide as the shifted edge, the cell of that edge starts behind a smaller
coordinate. -/
theorem floorDiv_beside {c x : ℚ} (less : c < x) :
    floorDiv (c + (|x| + 1)) (cellWidth (x + (|x| + 1)) 0) < floorDiv (x + (|x| + 1)) (cellWidth (x + (|x| + 1)) 0) := by
  have positive : 0 < x + (|x| + 1) := by linarith [neg_abs_le x]
  have width : cellWidth (x + (|x| + 1)) 0 = x + (|x| + 1) := by
    rw [cellWidth, sane, if_pos positive, pow_zero, mul_one]
  have below : ⌊(c + (|x| + 1)) / (x + (|x| + 1))⌋ < 1 := by
    rw [Int.floor_lt, Int.cast_one, div_lt_one positive]
    linarith
  rw [width, floorDiv, floorDiv, div_self positive.ne', Int.floor_one]
  unfold saturate
  omega

theorem shifted_tolerant (x : ℚ) : EPS ≤ |x| + 1 ∧ EPS ≤ x + (|x| + 1) := by
  have small : EPS ≤ 1 := by norm_num [EPS]
  constructor
  · linarith [abs_nonneg x]
  · linarith [neg_abs_le x]

/-- Around a query that is no point, the window misses some point. -/
theorem missed_of_not_pointlike {q : Geometry} (wide : ¬ Pointlike q) :
    ∃ p res r, EPS ≤ r ∧ EPS ≤ res ∧ ¬ Correct (lone (.point p) res) q r := by
  have proper := bbox_proper q
  obtain ⟨⟨v, vertex, isMax⟩, w, vertex', isMax'⟩ := exists_corners q
  rw [Pointlike, not_and_or] at wide
  rcases wide with x | y
  · have less : (pointCenter q).1 < q.bbox.xmax := by
      have := lt_of_le_of_ne proper.x x
      simp only [pointCenter]
      linarith
    refine ⟨(q.bbox.xmax + (|q.bbox.xmax| + 1), v.2), q.bbox.xmax + (|q.bbox.xmax| + 1), |q.bbox.xmax| + 1,
      (shifted_tolerant _).1, (shifted_tolerant _).2, missed_beside vertex (by positivity) ?_ (.inl (floorDiv_beside less))⟩
    rw [squared, isMax]
    ring
  · have less : (pointCenter q).2 < q.bbox.ymax := by
      have := lt_of_le_of_ne proper.y y
      simp only [pointCenter]
      linarith
    refine ⟨(w.1, q.bbox.ymax + (|q.bbox.ymax| + 1)), q.bbox.ymax + (|q.bbox.ymax| + 1), |q.bbox.ymax| + 1,
      (shifted_tolerant _).1, (shifted_tolerant _).2, missed_beside vertex' (by positivity) ?_ (.inr (floorDiv_beside less))⟩
    rw [squared, isMax']
    ring

/-- Behind the last level, only the cell of the low corner is stored. -/
theorem cellsFrom_misfit {res : ℚ} {box : Box} (proper : box.Proper) (misfit : ¬ FitsGrid res box)
    {levels : List Nat} (known : ∀ level ∈ levels, level ≤ SPATIAL_MAX_LEVEL) :
    cellsFrom box res levels = none ∨ cellsFrom box res levels = some [⟨SPATIAL_MAX_LEVEL,
      floorDiv box.xmin (cellWidth res SPATIAL_MAX_LEVEL), floorDiv box.ymin (cellWidth res SPATIAL_MAX_LEVEL)⟩] := by
  induction levels with
  | nil => exact .inr rfl
  | cons level rest ih =>
    rw [List.forall_mem_cons] at known
    have x := @span_pos res _ _ level proper.x
    have y := @span_pos res _ _ level proper.y
    rw [cellsFrom]
    simp only [Option.bind_eq_bind]
    cases columns : cellCount (floorDiv box.xmin (cellWidth res level)) (floorDiv box.xmax (cellWidth res level)) with
    | none => exact .inl rfl
    | some nx =>
      cases lines : cellCount (floorDiv box.ymin (cellWidth res level)) (floorDiv box.ymax (cellWidth res level)) with
      | none => exact .inl rfl
      | some ny =>
        have isX : nx = (span res level box.xmin box.xmax).toNat := by
          rw [cellCount] at columns
          split at columns
          · exact (Option.some.inj columns).symm
          · cases columns
        have isY : ny = (span res level box.ymin box.ymax).toNat := by
          rw [cellCount] at lines
          split at lines
          · exact (Option.some.inj lines).symm
          · cases lines
        simp only [Option.bind_some]
        rw [if_neg]
        · exact ih known.2
        · intro few
          refine misfit ⟨level, known.1, ?_⟩
          rw [isX, isY, ← Int.toNat_mul (by omega) (by omega)] at few
          have limit : SPATIAL_MAX_CELLS = 256 := rfl
          omega

theorem floorDiv_step {x t s : ℚ} (width : 0 < s) (short : t ≤ s) : floorDiv x s ≤ floorDiv (x - t) s + 1 := by
  have part : t / s ≤ 1 := (div_le_one width).mpr short
  have step : ⌊x / s⌋ ≤ ⌊(x - t) / s⌋ + 1 := by
    rw [← Int.floor_add_one]
    refine Int.floor_le_floor ?_
    rw [sub_div]
    linarith
  unfold floorDiv saturate
  omega

/-- A geometry that fits no level is missed from a vertex at its high corner, or overflows. -/
theorem missed_of_misfit (distinct : (table.rows.map Prod.fst).Nodup)
    (grid : EPS ≤ table.resolution) {row : Int64 × Row} (member : row ∈ table.rows)
    (found : table.geometry row.2 = some g) (misfit : ¬ FitsGrid table.resolution g.bbox) :
    ∃ v : Pt, ¬ Correct table (.point v) EPS := by
  have proper := bbox_proper g
  have resolution : 0 < table.resolution := lt_of_lt_of_le eps_pos grid
  have width := cellWidth_pos table.resolution SPATIAL_MAX_LEVEL
  have short : EPS ≤ cellWidth table.resolution SPATIAL_MAX_LEVEL := by
    rw [cellWidth, sane, if_pos resolution]
    have power : (1 : ℚ) ≤ 2 ^ SPATIAL_MAX_LEVEL := one_le_pow₀ (by norm_num)
    nlinarith
  obtain ⟨⟨v, vertex, isMax⟩, w, vertex', isMax'⟩ := exists_corners g
  rcases @cellsFrom_misfit _ _ proper misfit (List.range (SPATIAL_MAX_LEVEL + 1))
      (fun level listed => Nat.lt_succ_iff.mp (List.mem_range.mp listed)) with overflow | own
  · refine ⟨v, fun correct => correct.1 ?_⟩
    by_contra fine
    obtain ⟨entries, made⟩ := Option.ne_none_iff_exists'.mp fine
    rw [SpatialTable.entries, Option.map_eq_some_iff] at made
    obtain ⟨lists, made, _⟩ := made
    obtain ⟨part, _, here⟩ := mem_of_mapM made member
    simp [SpatialTable.rowEntries, found, cellsForBbox, overflow] at here
  · -- one of the sides is more than sixteen cells long
    have many : 16 < span table.resolution SPATIAL_MAX_LEVEL g.bbox.xmin g.bbox.xmax ∨
        16 < span table.resolution SPATIAL_MAX_LEVEL g.bbox.ymin g.bbox.ymax := by
      by_contra few
      rw [not_or, not_lt, not_lt] at few
      have x := @span_pos table.resolution _ _ SPATIAL_MAX_LEVEL proper.x
      have y := @span_pos table.resolution _ _ SPATIAL_MAX_LEVEL proper.y
      have limit : ((SPATIAL_MAX_CELLS : Nat) : Int) = 256 := rfl
      exact misfit ⟨SPATIAL_MAX_LEVEL, le_rfl, by nlinarith⟩
    have fit := @boxCells_fit table.resolution _ _ le_rfl proper
    have near (p : Pt) (vertex : p ∈ g.vertices) : Within (planarDistance g (.point p)) EPS := by
      refine ⟨eps_pos.le, (planarDistance_le_vertex vertex).1.trans (WithTop.coe_le_coe.mpr ?_)⟩
      have zero : squared p p = 0 := by
        rw [squared]
        ring
      rw [zero]
      positivity
    have center (p : Pt) : pointCenter (.point p) = p := by
      simp [pointCenter, Geometry.bbox, Geometry.vertices, Box.single]
    have proper' : ∀ cell ∈ ([⟨SPATIAL_MAX_LEVEL, floorDiv g.bbox.xmin (cellWidth table.resolution SPATIAL_MAX_LEVEL),
        floorDiv g.bbox.ymin (cellWidth table.resolution SPATIAL_MAX_LEVEL)⟩] : List Cell),
        cell.level ≤ SPATIAL_MAX_LEVEL ∧ Fits64 cell.cx ∧ Fits64 cell.cy := by
      intro cell listed
      cases List.mem_singleton.mp listed
      exact ⟨le_rfl, floorDiv_fits _ _, floorDiv_fits _ _⟩
    rcases many with x | y
    · refine ⟨v, not_correct_of_missed distinct member found own proper' (near v vertex) fun cell listed => ?_⟩
      cases List.mem_singleton.mp listed
      have step := floorDiv_step (x := v.1) width short
      rw [isMax] at step
      unfold span at x
      rw [center, isMax]
      dsimp only
      omega
    · refine ⟨w, not_correct_of_missed distinct member found own proper' (near w vertex') fun cell listed => ?_⟩
      cases List.mem_singleton.mp listed
      have step := floorDiv_step (x := w.2) width short
      rw [isMax'] at step
      unfold span at y
      rw [center, isMax']
      dsimp only
      omega

/-- A line that starts as far from the origin as the tolerance reaches. -/
def fringe : Geometry := .lineString [(EPS, 0), (2 * EPS, 0)] (by simp)

theorem fringe_box : fringe.bbox = ⟨EPS, 0, 2 * EPS, 0⟩ := by
  have order : EPS ≤ 2 * EPS := by linarith [eps_pos]
  simp [fringe, Geometry.bbox, Geometry.vertices, Box.grow, Box.single, order]

theorem fringe_width : cellWidth EPS 0 = EPS := by
  rw [cellWidth, sane, if_pos eps_pos, pow_zero, mul_one]

theorem fringe_first : floorDiv EPS (cellWidth EPS 0) = 1 := by
  rw [fringe_width, floorDiv, div_self eps_pos.ne', Int.floor_one]
  rfl

theorem fringe_last : floorDiv (2 * EPS) (cellWidth EPS 0) = 2 := by
  rw [fringe_width, floorDiv, mul_div_cancel_right₀ _ eps_pos.ne', show ⌊(2 : ℚ)⌋ = 2 by norm_num]
  rfl

theorem fringe_few : span EPS 0 fringe.bbox.xmin fringe.bbox.xmax * span EPS 0 fringe.bbox.ymin fringe.bbox.ymax ≤
    SPATIAL_MAX_CELLS := by
  have columns : span EPS 0 EPS (2 * EPS) = 2 := by
    rw [span, fringe_first, fringe_last]
    rfl
  rw [fringe_box]
  dsimp only
  rw [columns, span_same]
  decide

/-- The tolerance counts the origin as a point of the line. -/
theorem fringe_touches : planarDistance fringe (.point (0, 0)) = 0 := by
  have positive := eps_pos
  have on : onSegment (0, 0) (EPS, 0) (2 * EPS, 0) = true := by
    have order : EPS ≤ 2 * EPS := by linarith
    simp [onSegment, order, positive.le]
    linarith
  have meet : geoIntersects fringe (.point (0, 0)) = true := by
    simp [geoIntersects, fringe, geoContains, windows, on]
  unfold planarDistance
  simp only [fringe] at meet ⊢
  exact if_pos meet

theorem missed_below_tolerance {r : ℚ} (nonneg : 0 ≤ r) (small : r < EPS) :
    ¬ Correct (lone fringe EPS) (.point (0, 0)) r := by
  have own := cellsForBbox_first (bbox_proper fringe) fringe_few
  refine not_correct_of_missed (by simp [lone]) (List.mem_singleton_self _) rfl own
    (boxCells_fit (Nat.zero_le _) (bbox_proper _)) ⟨nonneg, ?_⟩ fun cell member => ?_
  · rw [fringe_touches, ← WithTop.coe_zero, WithTop.coe_le_coe]
    positivity
  · obtain ⟨level, column, _⟩ := mem_cellRect.mp member
    have first : floorDiv fringe.bbox.xmin (cellWidth EPS 0) = 1 := by
      rw [fringe_box]
      exact fringe_first
    have column' : floorDiv fringe.bbox.xmin (cellWidth EPS 0) ≤ cell.cx := column.1
    have below : ⌊(0 + r) / EPS⌋ < 1 := by
      rw [Int.floor_lt, Int.cast_one, zero_add, div_lt_one eps_pos]
      exact small
    have center : (pointCenter (.point (0, 0))).1 = 0 := by
      simp [pointCenter, Geometry.bbox, Geometry.vertices, Box.single]
    have window : floorDiv (0 + r) (cellWidth EPS 0) ≤ 0 := by
      rw [fringe_width]
      unfold floorDiv saturate
      omega
    rw [level, center]
    left
    show floorDiv (0 + r) (cellWidth EPS 0) < cell.cx
    omega

/-- A query of one point, geometries that fit the grid, and lengths of at least the tolerance make
spatial scans correct; and of each of the three, scans are correct in general only if it holds. -/
theorem spatial_scans_correct_iff (table : SpatialTable Row) (q : Geometry) (r : ℚ)
    (distinct : (table.rows.map Prod.fst).Nodup) :
    (table.Fits → Pointlike q → Tolerant table q r → (0 < table.resolution → Tolerant table q table.resolution) →
        Correct table q r) ∧
      ((∀ (other : SpatialTable Geometry) (r : ℚ), other.Fits → EPS ≤ other.resolution → EPS ≤ r →
        Correct other q r) ↔ Pointlike q) ∧
      (EPS ≤ table.resolution →
        ((∀ (q : Geometry) (r : ℚ), Pointlike q → EPS ≤ r → Correct table q r) ↔ table.Fits)) ∧
      ((∀ (other : SpatialTable Geometry) (q : Geometry), other.Fits → EPS ≤ other.resolution → Pointlike q →
        Correct other q r) ↔ r < 0 ∨ EPS ≤ r) := by
  refine ⟨spatial_scans_correct table q r, ⟨fun correct => ?_, ?_⟩, fun grid => ⟨fun correct => ?_, ?_⟩, fun correct => ?_, ?_⟩
  · by_contra wide
    obtain ⟨p, res, r, radius, grid, missed⟩ := missed_of_not_pointlike wide
    refine missed (correct (lone (.point p) res) r (lone_fits ⟨0, Nat.zero_le _, ?_⟩) grid radius)
    have one : (Geometry.point p).bbox = Box.single p := rfl
    rw [one, Box.single, span_same, span_same]
    decide
  · exact fun point other r fits grid radius =>
      spatial_scans_correct other q r fits point (.inr (.inl radius)) fun _ => .inr (.inl grid)
  · intro row member g found
    by_contra misfit
    obtain ⟨v, missed⟩ := missed_of_misfit distinct grid member found misfit
    exact missed (correct (.point v) EPS ⟨rfl, rfl⟩ le_rfl)
  · exact fun fits q r point radius =>
      spatial_scans_correct table q r fits point (.inr (.inl radius)) fun _ => .inr (.inl grid)
  · by_contra outside
    rw [not_or, not_lt, not_le] at outside
    exact missed_below_tolerance outside.1 outside.2
      (correct (lone fringe EPS) (.point (0, 0)) (lone_fits ⟨0, Nat.zero_le _, fringe_few⟩) le_rfl ⟨rfl, rfl⟩)
  · exact fun radius other q fits grid point =>
      spatial_scans_correct other q r fits point (radius.imp id .inl) fun _ => .inr (.inl grid)

/-- Two points, a line and a row without a geometry. -/
def fourRows : SpatialTable (Option Geometry) :=
  ⟨[(1, some (.point (3, -2))), (2, some (.lineString [(0, 0), (2, 1)] (by simp))), (3, none),
    (4, some (.point (40, 7)))], id, 1⟩

theorem fourRows_fits : fourRows.Fits := by
  have point (p : Pt) : FitsGrid 1 (Geometry.point p).bbox := ⟨0, Nat.zero_le _, by
    have one : (Geometry.point p).bbox = Box.single p := rfl
    rw [one, Box.single, span_same, span_same]
    decide⟩
  have line : FitsGrid 1 (Geometry.lineString [(0, 0), (2, 1)] (by simp)).bbox := ⟨0, Nat.zero_le _, by
    norm_num [span, cellWidth, sane, Geometry.bbox, Geometry.vertices, Box.single, Box.grow, floorDiv,
      saturate, SPATIAL_MAX_CELLS]⟩
  intro row member g found
  simp only [fourRows, List.mem_cons, List.not_mem_nil, or_false] at member
  rcases member with rfl | rfl | rfl | rfl
  · cases found
    exact point _
  · cases found
    exact line
  · cases found
  · cases found
    exact point _

theorem spatial_scans_correct_four : Correct fourRows (.point (1, 1)) 4 :=
  (spatial_scans_correct_iff fourRows (.point (1, 1)) 4 (by decide)).1 fourRows_fits ⟨rfl, rfl⟩
    (.inr (.inl (by norm_num [EPS]))) fun _ => .inr (.inl (by norm_num [EPS, fourRows]))

/-- A line of eight units as the query: the window around its centre misses a point one unit beside
its end. -/
theorem line_query_missed :
    ¬ Correct (lone (.point (9, 0)) 1) (.lineString [(0, 0), (8, 0)] (by simp)) 1 := by
  refine missed_beside (v := (8, 0)) (by simp [Geometry.vertices]) zero_le_one (by norm_num [squared]) (.inl ?_)
  have width : cellWidth 1 0 = 1 := by norm_num [cellWidth, sane]
  have center : (pointCenter (.lineString [(0, 0), (8, 0)] (by simp))).1 = 4 := by
    norm_num [pointCenter, Geometry.bbox, Geometry.vertices, Box.single, Box.grow]
  rw [width, center]
  norm_num [floorDiv, saturate]

end RustSql.Executor.Geo
