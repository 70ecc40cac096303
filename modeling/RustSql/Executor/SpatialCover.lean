import RustSql.Executor.SpatialIndex
import RustSql.Executor.GeometryBounds

/-! A box that some level covers with few cells is found by every window that meets it. -/

namespace RustSql.Executor.Geo

open RustSql.Foundation RustSql.Types

theorem bucketFloor_least {i : Int64} {k : Int} (floor : IntegralFloor i (bucketFloor i) k) : -2 ^ 63 ≤ k := by
  have least := floor.greatest negTwoPow63 (by decide) (by
    rw [scaled_negTwoPow63]
    exact Int.mul_le_mul_of_nonneg_right i.le_toInt Binary64.unit_pos.le)
  rw [scaled_negTwoPow63, floor.value] at least
  exact Int.le_of_mul_le_mul_right least Binary64.unit_pos

theorem decodeSlot_integer (i : Int64) (rest : List UInt8) :
    decodeSlot ((Value.integer i).encodeOrderKey ++ rest) = some (i, rest) := by
  obtain ⟨k, floor⟩ := bucketFloor_integral i
  have low := bucketFloor_least floor
  have below := floor.below
  have high := i.toInt_lt
  have cast : asI128 (bucketFloor i) = k := asI128_integral floor.number floor.value (by omega)
  have whole : asI64 (bucketFloor i) = k := asI64_integral floor.number floor.value low (by omega)
  have near := floor.near
  have distance : (bucketDelta i : Int) = i.toInt - k := by
    rw [bucketDelta, cast]
    omega
  have word := (doubleOrderKey (bucketFloor i)).toNat_lt
  have key : fromBigEndian (bigEndian 8 (doubleOrderKey (bucketFloor i)).toNat) =
      (doubleOrderKey (bucketFloor i)).toNat := by
    rw [fromBigEndian_bigEndian]
    exact Nat.mod_eq_of_lt (by omega)
  have delta : fromBigEndian (bigEndian 2 (bucketDelta i)) = bucketDelta i := by
    rw [fromBigEndian_bigEndian]
    exact Nat.mod_eq_of_lt (by omega)
  have bits := orderKeyBits_doubleOrderKey (bucketFloor i)
  rw [orderKeyBits, show ~~~(0x8000000000000000 : UInt64) = 0x7FFFFFFFFFFFFFFF from rfl] at bits
  have finite : isFinite (bucketFloor i) = true :=
    decide_eq_true (finite_integral floor.value low (by omega))
  have least : (bucketFloor i).lt negTwoPow63 = false := by
    rw [Bool.eq_false_iff, ne_eq, Binary64.lt_iff floor.number (by decide), scaled_negTwoPow63, floor.value, not_lt]
    exact Int.mul_le_mul_of_nonneg_right low Binary64.unit_pos.le
  have most : twoPow63.le (bucketFloor i) = false := by
    rw [Bool.eq_false_iff, ne_eq, Binary64.le_iff (by decide) floor.number, scaled_twoPow63, floor.value, not_le]
    exact Int.mul_lt_mul_of_pos_right (by omega) Binary64.unit_pos
  have sum : Int64.ofInt k + Int64.ofNat (bucketDelta i) = i := by
    rw [← Int64.ofInt_eq_ofNat, ← Int64.ofInt_add, distance]
    simp
  have shape : (Value.integer i).encodeOrderKey ++ rest = 1 :: (bigEndian 8 (doubleOrderKey (bucketFloor i)).toNat ++
      (bigEndian 2 (bucketDelta i) ++ rest)) := by
    rw [Value.encodeOrderKey, encodeNumber, List.cons_append, List.append_assoc]
  have first := bigEndian_length 8 (doubleOrderKey (bucketFloor i)).toNat
  have second := bigEndian_length 2 (bucketDelta i)
  have word8 : ((1 :: (bigEndian 8 (doubleOrderKey (bucketFloor i)).toNat ++
      (bigEndian 2 (bucketDelta i) ++ rest))).drop 1).take 8 = bigEndian 8 (doubleOrderKey (bucketFloor i)).toNat := by
    rw [List.drop_succ_cons, List.drop_zero, List.take_left' first]
  have word2 : ((1 :: (bigEndian 8 (doubleOrderKey (bucketFloor i)).toNat ++
      (bigEndian 2 (bucketDelta i) ++ rest))).drop 9).take 2 = bigEndian 2 (bucketDelta i) := by
    rw [List.drop_succ_cons, List.drop_left' first, List.take_left' second]
  have behind : (1 :: (bigEndian 8 (doubleOrderKey (bucketFloor i)).toNat ++
      (bigEndian 2 (bucketDelta i) ++ rest))).drop 11 = rest := by
    rw [List.drop_succ_cons, ← List.append_assoc, List.drop_left' (by rw [List.length_append, first, second])]
  rw [shape, decodeSlot, if_neg (by simp [first, second]; omega)]
  dsimp only
  rw [word8, word2, behind, key, delta, UInt64.ofNat_toNat, bits, finite, least, most, whole, sum]
  rfl

theorem encodeSpatialKey_eq (level : Nat) (cx cy : Int) :
    encodeSpatialKey level cx cy = encodeRowKey [.integer (Int64.ofNat level), .integer (Int64.ofInt cx),
      .integer (Int64.ofInt cy)] := rfl

/-- The numbers of `i64`. -/
def Fits64 (z : Int) : Prop := -2 ^ 63 ≤ z ∧ z < 2 ^ 63

theorem saturate_fits (z : Int) : Fits64 (saturate z) := by
  unfold Fits64 saturate
  omega

theorem fits_max {y z : Int} (one : Fits64 y) (two : Fits64 z) : Fits64 (max y z) := by
  unfold Fits64 at *
  omega

theorem toInt_of_fits {z : Int} (fits : Fits64 z) : (Int64.ofInt z).toInt = z :=
  Int64.toInt_ofInt_of_le fits.1 fits.2

variable {level : Nat}

theorem decodeSpatialKey_encode {cx cy : Int} (column : Fits64 cx) (row : Fits64 cy) :
    ∃ read, decodeSpatialKey (encodeSpatialKey level cx cy) = some (read, cx, cy) := by
  have shape : encodeSpatialKey level cx cy = (Value.integer (Int64.ofNat level)).encodeOrderKey ++
      ((Value.integer (Int64.ofInt cx)).encodeOrderKey ++ ((Value.integer (Int64.ofInt cy)).encodeOrderKey ++ [])) := by
    rw [encodeSpatialKey_eq, encodeRowKey_eq]
    rfl
  refine ⟨(Int64.ofNat level).toInt, ?_⟩
  rw [shape, decodeSpatialKey, decodeSlot_integer]
  simp only [Option.bind_eq_bind, Option.bind_some, decodeSlot_integer, ne_eq, not_true_eq_false, if_false,
    toInt_of_fits column, toInt_of_fits row]

theorem toInt_of_level (last : level ≤ SPATIAL_MAX_LEVEL) : (Int64.ofNat level).toInt = level := by
  rw [← Int64.ofInt_eq_ofNat]
  refine Int64.toInt_ofInt_of_le ?_ ?_ <;> simp only [SPATIAL_MAX_LEVEL] at last <;> omega

theorem encodeSpatialKey_levels {l m : Nat} {a b c d : Int} (fits : Fits64 a ∧ Fits64 b) (fits' : Fits64 c ∧ Fits64 d) :
    List.compareLex compare (encodeSpatialKey l a b) (encodeSpatialKey m c d) =
      (compare (Int64.ofNat l).toInt (Int64.ofNat m).toInt).then ((compare a c).then (compare b d)) := by
  have order := (encodeRowKey_order
    [.integer (Int64.ofNat l), .integer (Int64.ofInt a), .integer (Int64.ofInt b)]
    [.integer (Int64.ofNat m), .integer (Int64.ofInt c), .integer (Int64.ofInt d)] rfl
    (by simp [Value.isNaN]) (by simp [Value.isNaN])).1
  rw [encodeSpatialKey_eq, encodeSpatialKey_eq, order]
  simp only [List.compareLex_cons_cons, List.compareLex_nil_nil, Value.cmp, toInt_of_fits fits.1,
    toInt_of_fits fits.2, toInt_of_fits fits'.1, toInt_of_fits fits'.2, Ordering.then_eq]

theorem encodeSpatialKey_order {a b c d : Int} (fits : Fits64 a ∧ Fits64 b)
    (fits' : Fits64 c ∧ Fits64 d) :
    List.compareLex compare (encodeSpatialKey level a b) (encodeSpatialKey level c d) =
      (compare a c).then (compare b d) := by
  rw [encodeSpatialKey_levels fits fits', compare_eq_iff_eq.mpr rfl, Ordering.eq_then]

/-- In sorted entries, what is not below a key stands behind what is. -/
theorem mem_scanFrom {bt : List Entry} {word : List UInt8} {entry : Entry} (member : entry ∈ bt)
    (reached : List.compareLex compare entry.1 word ≠ .lt)
    (sorted : bt.Pairwise fun one two => (List.compareLex compare one.1 two.1).isLE) :
    entry ∈ scanFrom compare Prod.fst word bt := by
  induction bt with
  | nil => cases member
  | cons first rest ih =>
    rw [scanFrom]
    by_cases below : List.compareLex compare first.1 word = .lt
    · rw [List.dropWhile_cons_of_pos (by simp [below])]
      rcases List.mem_cons.mp member with rfl | later
      · exact absurd below reached
      · exact ih later (List.pairwise_cons.mp sorted).2
    · rwa [List.dropWhile_cons_of_neg (by simp [below])]

/-- A cell of the window is found. -/
theorem mem_scanLevel {bt : List Entry} {cx0 cy0 cx1 cy1 cx cy : Int} {rowid : Int64}
    (sorted : bt.Pairwise fun one two => (List.compareLex compare one.1 two.1).isLE)
    (low : Fits64 cx0 ∧ Fits64 cy0) (high : Fits64 cx1 ∧ Fits64 cy1) (cell : Fits64 cx ∧ Fits64 cy)
    (member : (encodeSpatialKey level cx cy, rowid) ∈ bt) (column : cx0 ≤ cx ∧ cx ≤ cx1)
    (row : cy0 ≤ cy ∧ cy ≤ cy1) : rowid ∈ scanLevel bt level cx0 cy0 cx1 cy1 := by
  have reached : List.compareLex compare (encodeSpatialKey level cx cy) (encodeSpatialKey level cx0 cy0) ≠ .lt := by
    rw [encodeSpatialKey_order cell low]
    rcases lt_or_eq_of_le column.1 with less | rfl
    · rw [compare_gt_iff_gt.mpr less]
      simp
    · rw [compare_eq_iff_eq.mpr rfl, Ordering.eq_then, ne_eq, compare_lt_iff_lt, not_lt]
      exact row.1
  have within : List.compareLex compare (encodeSpatialKey level cx cy) (encodeSpatialKey level cx1 cy1) ≠ .gt := by
    rw [encodeSpatialKey_order cell high]
    rcases lt_or_eq_of_le column.2 with less | rfl
    · rw [compare_lt_iff_lt.mpr less]
      simp
    · rw [compare_eq_iff_eq.mpr rfl, Ordering.eq_then, ne_eq, compare_gt_iff_gt, not_lt]
      exact row.2
  obtain ⟨read, decoded⟩ := @decodeSpatialKey_encode level _ _ cell.1 cell.2
  rw [scanLevel]
  refine List.mem_filterMap.mpr ⟨(encodeSpatialKey level cx cy, rowid), ?_, ?_⟩
  swap
  · rw [decoded]
    exact if_pos ⟨column.1, column.2, row.1, row.2⟩
  have found := mem_scanFrom member reached sorted
  have later : (scanFrom compare Prod.fst (encodeSpatialKey level cx0 cy0) bt).Pairwise fun one two =>
      (List.compareLex compare one.1 two.1).isLE := sorted.sublist (List.dropWhile_sublist _)
  rw [takeWhile_eq_filter, List.mem_filter]
  · exact ⟨found, by simpa using within⟩
  · refine later.imp fun {one two} order small => ?_
    rw [bne_iff_ne] at small ⊢
    exact Ordering.ne_gt_iff_isLE.mpr (Std.TransCmp.isLE_trans order (Ordering.ne_gt_iff_isLE.mp small))

theorem saturate_mono {y z : Int} (order : y ≤ z) : saturate y ≤ saturate z := by
  unfold saturate
  omega

theorem floorDiv_fits (x s : ℚ) : Fits64 (floorDiv x s) := saturate_fits _

theorem cellWidth_pos (res : ℚ) (level : Nat) : 0 < cellWidth res level := by
  have positive : 0 < sane res := by
    unfold sane
    split
    · assumption
    · norm_num
  exact mul_pos positive (by positivity)

theorem floorDiv_mono {x y s : ℚ} (width : 0 < s) (order : x ≤ y) : floorDiv x s ≤ floorDiv y s :=
  saturate_mono (Int.floor_le_floor (div_le_div_of_nonneg_right order width.le))

theorem mem_cellRect {cx cy : Int} {n m : Nat} {cell : Cell} :
    cell ∈ cellRect level cx cy n m ↔
      cell.level = level ∧ (cx ≤ cell.cx ∧ cell.cx < cx + n) ∧ cy ≤ cell.cy ∧ cell.cy < cy + m := by
  obtain ⟨l, x, y⟩ := cell
  simp only [cellRect, List.mem_flatMap, List.mem_map, List.mem_range, Cell.mk.injEq]
  constructor
  · rintro ⟨i, _, j, _, rfl, rfl, rfl⟩
    omega
  · rintro ⟨rfl, column, row⟩
    exact ⟨(x - cx).toNat, by omega, (y - cy).toNat, by omega, rfl, by omega, by omega⟩

/-- The cells from the low to the high corner of a box, on one axis. -/
def span (res : ℚ) (level : Nat) (lo hi : ℚ) : Int :=
  floorDiv hi (cellWidth res level) - floorDiv lo (cellWidth res level) + 1

/-- Some level covers the box with few cells. -/
def FitsGrid (res : ℚ) (box : Box) : Prop :=
  ∃ level ≤ SPATIAL_MAX_LEVEL,
    span res level box.xmin box.xmax * span res level box.ymin box.ymax ≤ SPATIAL_MAX_CELLS

/-- All corners in order. -/
structure Box.Proper (box : Box) : Prop where
  x : box.xmin ≤ box.xmax
  y : box.ymin ≤ box.ymax

theorem bbox_proper (g : Geometry) : g.bbox.Proper := by
  obtain ⟨p, vertex⟩ := exists_vertex g
  have holds := bbox_holds vertex
  exact ⟨holds.left.trans holds.right, holds.bottom.trans holds.top⟩

variable {res lo hi : ℚ}

theorem span_pos (level : Nat) (order : lo ≤ hi) : 1 ≤ span res level lo hi := by
  have mono := floorDiv_mono (cellWidth_pos res level) order
  unfold span
  omega

/-- A level has at most twice the cells of the next one. -/
theorem span_halves (level : Nat) (order : lo ≤ hi) :
    span res level lo hi ≤ 2 * span res (level + 1) lo hi := by
  have halved (x : ℚ) : ⌊x / cellWidth res (level + 1)⌋ = ⌊x / cellWidth res level⌋ / 2 := by
    have widths : x / cellWidth res (level + 1) = x / cellWidth res level / (2 : Nat) := by
      rw [cellWidth, cellWidth, pow_succ, ← mul_assoc, div_div]
      norm_num
    rw [widths, Int.floor_div_natCast]
    norm_num
  have mono : ⌊lo / cellWidth res level⌋ ≤ ⌊hi / cellWidth res level⌋ :=
    Int.floor_le_floor (div_le_div_of_nonneg_right order (cellWidth_pos res level).le)
  simp only [span, floorDiv, halved, saturate]
  omega

theorem span_doubles (order : lo ≤ hi) (level n : Nat) :
    span res level lo hi ≤ 2 ^ n * span res (level + n) lo hi := by
  induction n with
  | zero => simp
  | succ n ih =>
    have next := @span_halves res _ _ (level + n) order
    rw [pow_succ, mul_assoc]
    exact ih.trans (Int.mul_le_mul_of_nonneg_left next (by positivity))

theorem cellCount_span (order : lo ≤ hi) (small : span res level lo hi < 2 ^ 63) :
    cellCount (floorDiv lo (cellWidth res level)) (floorDiv hi (cellWidth res level)) =
      some (span res level lo hi).toNat := by
  have mono := floorDiv_mono (cellWidth_pos res level) order
  unfold span at small ⊢
  exact if_pos ⟨by omega, small⟩

/-- The cells of a box at one level. -/
def boxCells (res : ℚ) (level : Nat) (box : Box) : List Cell :=
  cellRect level (floorDiv box.xmin (cellWidth res level)) (floorDiv box.ymin (cellWidth res level))
    (span res level box.xmin box.xmax).toNat (span res level box.ymin box.ymax).toNat

section

variable {res : ℚ} {box : Box} (proper : box.Proper)
include proper

theorem span_le_product (level : Nat) :
    span res level box.xmin box.xmax ≤ span res level box.xmin box.xmax * span res level box.ymin box.ymax ∧
      span res level box.ymin box.ymax ≤ span res level box.xmin box.xmax * span res level box.ymin box.ymax := by
  have x := @span_pos res _ _ level proper.x
  have y := @span_pos res _ _ level proper.y
  constructor <;> nlinarith

/-- The search stops at a level with few cells before any count overflows. -/
theorem cellsFrom_fits {first count : Nat} {level : Nat} (here : first ≤ level ∧ level < first + count)
    (last : level ≤ SPATIAL_MAX_LEVEL)
    (few : span res level box.xmin box.xmax * span res level box.ymin box.ymax ≤ SPATIAL_MAX_CELLS) :
    ∃ chosen ≤ SPATIAL_MAX_LEVEL, cellsFrom box res (List.range' first count) = some (boxCells res chosen box) := by
  induction count generalizing first with
  | zero => omega
  | succ count ih =>
    obtain ⟨more, rfl⟩ := Nat.exists_eq_add_of_le here.1
    have sides := @span_le_product res _ proper (first + more)
    have doubles (lo hi : ℚ) (order : lo ≤ hi) (small : span res (first + more) lo hi ≤ 256) :
        span res first lo hi < 2 ^ 63 := by
      have most : (2 : Int) ^ more ≤ 2 ^ 16 := pow_le_pow_right₀ (by norm_num) (by simp [SPATIAL_MAX_LEVEL] at last; omega)
      have positive := @span_pos res _ _ (first + more) order
      have grown := @span_doubles res _ _ order first more
      nlinarith
    have limit : ((SPATIAL_MAX_CELLS : Nat) : Int) = 256 := rfl
    rw [List.range'_succ, cellsFrom]
    simp only [Option.bind_eq_bind, cellCount_span proper.x (doubles _ _ proper.x (by omega)),
      cellCount_span proper.y (doubles _ _ proper.y (by omega)), Option.bind_some]
    split
    · exact ⟨first, by omega, rfl⟩
    · rename_i many
      have later : more ≠ 0 := by
        rintro rfl
        refine many (min_le_iff.mpr (.inr ?_))
        have x := @span_pos res _ _ first proper.x
        have y := @span_pos res _ _ first proper.y
        rw [← Int.toNat_mul (by omega) (by omega), Int.toNat_le]
        exact few
      exact ih (by omega)

theorem cellsForBbox_fits (fits : FitsGrid res box) :
    ∃ level ≤ SPATIAL_MAX_LEVEL, cellsForBbox box res = some (boxCells res level box) := by
  obtain ⟨level, last, few⟩ := fits
  rw [cellsForBbox, List.range_eq_range']
  exact cellsFrom_fits proper (by omega) last few

/-- A box and a window that meet have a cell in common at every level. -/
theorem common_cell {w : Box} (order : w.Proper) (near : Near 0 box w) (level : Nat) :
    ∃ cell ∈ boxCells res level box,
      (floorDiv w.xmin (cellWidth res level) ≤ cell.cx ∧ cell.cx ≤ floorDiv w.xmax (cellWidth res level)) ∧
        (floorDiv w.ymin (cellWidth res level) ≤ cell.cy ∧ cell.cy ≤ floorDiv w.ymax (cellWidth res level)) ∧
        cell.level = level ∧ Fits64 cell.cx ∧ Fits64 cell.cy := by
  have width := cellWidth_pos res level
  have mono {x y : ℚ} (less : x ≤ y) : floorDiv x (cellWidth res level) ≤ floorDiv y (cellWidth res level) :=
    floorDiv_mono width less
  have bx := mono proper.x
  have by_ := mono proper.y
  have wx := mono order.x
  have wy := mono order.y
  have left := mono (by simpa using near.left)
  have right := mono (by simpa using near.right)
  have bottom := mono (by simpa using near.bottom)
  have top := mono (by simpa using near.top)
  have fits (x : ℚ) := floorDiv_fits x (cellWidth res level)
  refine ⟨⟨level, max (floorDiv box.xmin (cellWidth res level)) (floorDiv w.xmin (cellWidth res level)),
    max (floorDiv box.ymin (cellWidth res level)) (floorDiv w.ymin (cellWidth res level))⟩,
    mem_cellRect.mpr ⟨rfl, ?_⟩, ?_, ?_, rfl, ?_, ?_⟩
  · simp only [span]
    omega
  · dsimp only
    omega
  · dsimp only
    omega
  · exact fits_max (fits _) (fits _)
  · exact fits_max (fits _) (fits _)

end

/-- The rowid under the cells of a box is in every window that meets the box. -/
theorem mem_windowRowids {bt : List Entry} {res : ℚ} {box w : Box} {rowid : Int64}
    (sorted : bt.Pairwise fun one two => (List.compareLex compare one.1 two.1).isLE)
    (last : level ≤ SPATIAL_MAX_LEVEL)
    (stored : ∀ cell ∈ boxCells res level box, (encodeSpatialKey cell.level cell.cx cell.cy, rowid) ∈ bt)
    (proper : box.Proper) (order : w.Proper) (near : Near 0 box w) : rowid ∈ windowRowids bt res w := by
  obtain ⟨cell, member, column, row, rfl, fits⟩ := @common_cell res _ proper _ order near level
  refine List.mem_flatMap.mpr ⟨cell.level, List.mem_range.mpr (Nat.lt_succ_of_le last), ?_⟩
  exact mem_scanLevel sorted ⟨floorDiv_fits _ _, floorDiv_fits _ _⟩ ⟨floorDiv_fits _ _, floorDiv_fits _ _⟩ fits
    (stored cell member) column row

/-- Around a point, the square is as near as the point itself is within its half side. -/
theorem near_window {r t : ℚ} {p : Pt} {box : Box} (near : Near t box (Box.single p)) (within : t ≤ r) :
    Near 0 box (windowAround p r) where
  left := by
    have := near.left
    simp only [Box.single, windowAround] at this ⊢
    linarith
  right := by
    have := near.right
    simp only [Box.single, windowAround] at this ⊢
    linarith
  bottom := by
    have := near.bottom
    simp only [Box.single, windowAround] at this ⊢
    linarith
  top := by
    have := near.top
    simp only [Box.single, windowAround] at this ⊢
    linarith

end RustSql.Executor.Geo
