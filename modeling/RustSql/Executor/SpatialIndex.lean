import RustSql.Executor.Geometry
import RustSql.Executor.OrderKeyDecode
import RustSql.Foundation.Lexicographic
import RustSql.Foundation.KBest
import Mathlib.Data.Prod.Lex

/-! The spatial grid index: the cells of a box at the finest level where few of them cover it, and
the scan of all levels for the cells of a window. The nearest-neighbour scan doubles its window
around the query and keeps the `k` best rows of what it collects. -/

namespace RustSql.Executor.Geo

open RustSql.Foundation RustSql.Types

def SPATIAL_MAX_CELLS : Nat := 256

def SPATIAL_MAX_LEVEL : Nat := 16

/-- Level, column and row of a cell. -/
structure Cell where
  level : Nat
  cx : Int
  cy : Int
deriving DecidableEq

/-- The cast of a whole number to `i64`. -/
def saturate (z : Int) : Int := max (-2 ^ 63) (min (2 ^ 63 - 1) z)

def floorDiv (x s : ℚ) : Int := saturate ⌊x / s⌋

/-- The resolution that is used. -/
def sane (res : ℚ) : ℚ := if 0 < res then res else 1 / 100

/-- The width of a cell. -/
def cellWidth (res : ℚ) (level : Nat) : ℚ := sane res * 2 ^ level

/-- `(hi - lo + 1).max(0)` in `i64`; nothing when it overflows. -/
def cellCount (lo hi : Int) : Option Nat :=
  if -2 ^ 63 ≤ hi - lo ∧ hi - lo + 1 < 2 ^ 63 then some (hi - lo + 1).toNat else none

/-- Of `n` columns from the first one on, the cells of `m` rows. -/
def cellRect (level : Nat) (cx cy : Int) (n m : Nat) : List Cell :=
  (List.range n).flatMap fun i : Nat => (List.range m).map fun j : Nat => ⟨level, cx + i, cy + j⟩

/-- The levels one after another, and the cell of the low corner behind them all. -/
def cellsFrom (box : Box) (res : ℚ) : List Nat → Option (List Cell)
  | [] =>
    let s := cellWidth res SPATIAL_MAX_LEVEL
    some [⟨SPATIAL_MAX_LEVEL, floorDiv box.xmin s, floorDiv box.ymin s⟩]
  | level :: rest => do
    let s := cellWidth res level
    let cx0 := floorDiv box.xmin s
    let cx1 := floorDiv box.xmax s
    let cy0 := floorDiv box.ymin s
    let cy1 := floorDiv box.ymax s
    let nx ← cellCount cx0 cx1
    let ny ← cellCount cy0 cy1
    if min (2 ^ 64 - 1) (nx * ny) ≤ SPATIAL_MAX_CELLS then some (cellRect level cx0 cy0 nx ny)
    else cellsFrom box res rest

/-- Nothing when the arithmetic overflows. -/
def cellsForBbox (box : Box) (res : ℚ) : Option (List Cell) :=
  cellsFrom box res (List.range (SPATIAL_MAX_LEVEL + 1))

def encodeSpatialKey (level : Nat) (cx cy : Int) : List UInt8 :=
  let out := (Value.integer (Int64.ofNat level)).encodeOrderKeyInto []
  let out := (Value.integer (Int64.ofInt cx)).encodeOrderKeyInto out
  (Value.integer (Int64.ofInt cy)).encodeOrderKeyInto out

/-- One slot of a key: the number in it, and the bytes behind it. -/
def decodeSlot (key : List UInt8) : Option (Int64 × List UInt8) :=
  if key.length < 11 ∨ key.head? ≠ some 0x01 then none
  else
    let ok := UInt64.ofNat (fromBigEndian ((key.drop 1).take 8))
    let delta := fromBigEndian ((key.drop 9).take 2)
    let f : Binary64 := ⟨if ok >>> 63 == 1 then ok &&& 0x7FFFFFFFFFFFFFFF else ~~~ok⟩
    if !isFinite f || f.lt negTwoPow63 || twoPow63.le f then none
    else some (Int64.ofInt (asI64 f) + Int64.ofNat delta, key.drop 11)

def decodeSpatialKey (key : List UInt8) : Option (Int × Int × Int) := do
  let (level, key) ← decodeSlot key
  let (cx, key) ← decodeSlot key
  let (cy, key) ← decodeSlot key
  if key ≠ [] then none else some (level.toInt, cx.toInt, cy.toInt)

abbrev Entry := List UInt8 × Int64

/-- The scan of one level: from the window's low cell on, as far as its high cell. -/
def scanLevel (bt : List Entry) (level : Nat) (cx0 cy0 cx1 cy1 : Int) : List Int64 :=
  let start := encodeSpatialKey level cx0 cy0
  let stop := encodeSpatialKey level cx1 cy1
  let band := (scanFrom compare Prod.fst start bt).takeWhile fun entry =>
    List.compareLex compare entry.1 stop != .gt
  band.filterMap fun entry =>
    match decodeSpatialKey entry.1 with
    | some (_, cx, cy) => if cx0 ≤ cx ∧ cx ≤ cx1 ∧ cy0 ≤ cy ∧ cy ≤ cy1 then some entry.2 else none
    | none => none

/-- The rowids of all cells in a window, over all levels. -/
def windowRowids (bt : List Entry) (res : ℚ) (w : Box) : List Int64 :=
  (List.range (SPATIAL_MAX_LEVEL + 1)).flatMap fun level =>
    let s := cellWidth res level
    scanLevel bt level (floorDiv w.xmin s) (floorDiv w.ymin s) (floorDiv w.xmax s) (floorDiv w.ymax s)

/-- The centre of a geometry's box. -/
def pointCenter (g : Geometry) : Pt :=
  let b := g.bbox
  ((b.xmin + b.xmax) / 2, (b.ymin + b.ymax) / 2)

/-- The square around a point. -/
def windowAround (p : Pt) (r : ℚ) : Box := ⟨p.1 - r, p.2 - r, p.1 + r, p.2 + r⟩

end RustSql.Executor.Geo

namespace RustSql.Executor.Geo

open RustSql.Foundation RustSql.Types

def KNN_MAX_ROUNDS : Nat := 40

/-- Ascending distance, and the rowid as the tiebreak. -/
structure OrderKey where
  dist : WithTop ℚ
  rowid : Int64
deriving DecidableEq

def OrderKey.ranked (key : OrderKey) : WithTop ℚ ×ₗ Int := toLex (key.dist, key.rowid.toInt)

theorem OrderKey.ranked_injective : Function.Injective OrderKey.ranked := by
  rintro ⟨d, i⟩ ⟨e, j⟩ same
  have parts := Prod.mk.inj (toLex.injective same)
  rw [OrderKey.mk.injEq]
  exact ⟨parts.1, Int64.toInt_inj.mp parts.2⟩

instance : LinearOrder OrderKey := LinearOrder.lift' OrderKey.ranked OrderKey.ranked_injective

/-- A table with a spatial index: its rows, the geometry of a row, and the tree. -/
structure SpatialTable (Row : Type) where
  rows : List (Int64 × Row)
  geometry : Row → Option Geometry
  resolution : ℚ

variable {Row : Type}

/-- The entries of a row; nothing when the arithmetic of its cells overflows. -/
def SpatialTable.rowEntries (table : SpatialTable Row) (row : Int64 × Row) : Option (List Entry) :=
  match table.geometry row.2 with
  | none => some []
  | some g =>
    (cellsForBbox g.bbox table.resolution).map fun cells =>
      cells.map fun cell => (encodeSpatialKey cell.level cell.cx cell.cy, row.1)

def SpatialTable.entries (table : SpatialTable Row) : Option (List Entry) :=
  (table.rows.mapM table.rowEntries).map List.flatten

/-- `resolution * 2^round` around the query point. -/
def knnWindow (res : ℚ) (round : Nat) (p : Pt) : Box := windowAround p (sane res * 2 ^ round)

/-- The rowids that were not seen before, and all that are seen now. -/
def collectNew (seen : List Int64) : List Int64 → List Int64 × List Int64
  | [] => ([], seen)
  | rid :: rest =>
    if rid ∈ seen then collectNew seen rest
    else
      let (fresh, seen) := collectNew (rid :: seen) rest
      (rid :: fresh, seen)

theorem collectNew_spec (seen found : List Int64) :
    (∀ x, x ∈ (collectNew seen found).2 ↔ x ∈ seen ∨ x ∈ found) ∧
      (∀ x, x ∈ (collectNew seen found).1 ↔ x ∈ found ∧ x ∉ seen) ∧ (collectNew seen found).1.Nodup := by
  induction found generalizing seen with
  | nil => simp [collectNew]
  | cons rid rest ih =>
    rw [collectNew]
    split
    · rename_i old
      obtain ⟨all, fresh, once⟩ := ih seen
      refine ⟨fun x => ?_, fun x => ?_, once⟩
      · rw [all, List.mem_cons]
        grind
      · rw [fresh, List.mem_cons]
        grind
    · rename_i new
      obtain ⟨all, fresh, once⟩ := ih (rid :: seen)
      refine ⟨fun x => ?_, fun x => ?_, List.nodup_cons.mpr ⟨fun member => ?_, once⟩⟩
      · rw [all, List.mem_cons, List.mem_cons]
        grind
      · rw [List.mem_cons, List.mem_cons, fresh, List.mem_cons]
        grind
      · exact ((fresh rid).mp member).2 (by simp)

/-- One scan: the residual, nothing when it raises; the query geometry, and the limit. -/
structure KnnQuery (Row : Type) where
  passes : Row → Option Bool
  point : Geometry
  k : Nat

/-- What a scan holds: the best keys, and the rows it has fetched. -/
structure KnnState (Row : Type) where
  heap : List OrderKey
  fetched : List (Int64 × Row)

/-- Fetch and rank one candidate; nothing when the residual raises. -/
def rankRow (table : SpatialTable Row) (query : KnnQuery Row) (state : KnnState Row) (rowid : Int64) :
    Option (KnnState Row) :=
  match table.rows.lookup rowid with
  | none => some state
  | some row =>
    match query.passes row with
    | none => none
    | some false => some state
    | some true =>
      match table.geometry row with
      | none => some state
      | some g =>
        some ⟨offer query.k state.heap ⟨planarDistance g query.point, rowid⟩, (rowid, row) :: state.fetched⟩

/-- The stop rule, for the half side of the window against the worst distance kept. -/
def stops (res : ℚ) (round : Nat) (worst : OrderKey) : Bool :=
  if round = KNN_MAX_ROUNDS then decide (worst.dist < ⊤)
  else decide (0 < res * 2 ^ round) && decide (worst.dist < ((res * 2 ^ round) ^ 2 : ℚ))

/-- What a round scans: a window, or the whole index in the last round. -/
def roundRowids (bt : List Entry) (table : SpatialTable Row) (query : KnnQuery Row) (round : Nat) : List Int64 :=
  if round = KNN_MAX_ROUNDS then bt.map Prod.snd
  else windowRowids bt table.resolution (knnWindow table.resolution round (pointCenter query.point))

/-- Enough rows are kept, and none outside of the window can be better. -/
def finished (res : ℚ) (k round : Nat) (heap : List OrderKey) : Bool :=
  decide (heap.length = k) && match heap.head? with
    | some worst => stops res round worst
    | none => false

def knnRounds (bt : List Entry) (table : SpatialTable Row) (query : KnnQuery Row) :
    List Nat → List Int64 → KnnState Row → Option (KnnState Row)
  | [], _, state => some state
  | round :: rest, seen, state =>
    let (fresh, seen) := collectNew seen (roundRowids bt table query round)
    match fresh.foldlM (rankRow table query) state with
    | none => none
    | some state =>
      if finished table.resolution query.k round state.heap then some state
      else knnRounds bt table query rest seen state

/-- The rows in ascending order; nothing when the residual raises. -/
def execSpatialKnn (bt : List Entry) (table : SpatialTable Row) (passes : Row → Option Bool) (point : Geometry)
    (limit : Int64) : Option (List Row) :=
  if limit ≤ 0 then some []
  else
    (knnRounds bt table ⟨passes, point, limit.toInt.toNat⟩ (List.range (KNN_MAX_ROUNDS + 1)) [] ⟨[], []⟩).map
      fun state => state.heap.reverse.filterMap fun key => state.fetched.lookup key.rowid

/-- The rowids of the window that a spatial index scan reads. -/
def spatialScanRowids (bt : List Entry) (table : SpatialTable Row) (point : Geometry) (radius : ℚ) : List Int64 :=
  windowRowids bt table.resolution (windowAround (pointCenter point) radius)

end RustSql.Executor.Geo
