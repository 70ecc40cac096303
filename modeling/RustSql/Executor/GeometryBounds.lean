import RustSql.Executor.Geometry
import Mathlib.Tactic.Linarith
import Mathlib.Tactic.FieldSimp
import Mathlib.Tactic.LinearCombination

/-! What is at a distance has its boxes within that distance. -/

namespace RustSql.Executor.Geo

structure Box.Holds (box : Box) (p : Pt) : Prop where
  left : box.xmin ≤ p.1
  right : p.1 ≤ box.xmax
  bottom : box.ymin ≤ p.2
  top : p.2 ≤ box.ymax

/-- Boxes that overlap once one of them is widened all around. -/
structure Near (t : ℚ) (one two : Box) : Prop where
  left : one.xmin - t ≤ two.xmax
  right : two.xmin - t ≤ one.xmax
  bottom : one.ymin - t ≤ two.ymax
  top : two.ymin - t ≤ one.ymax

variable {one two : Box}

theorem Near.symm {t : ℚ} (near : Near t one two) : Near t two one :=
  ⟨near.right, near.left, near.top, near.bottom⟩

theorem Near.mono {t t' : ℚ} (near : Near t one two) (wider : t ≤ t') : Near t' one two where
  left := by linarith [near.left]
  right := by linarith [near.right]
  bottom := by linarith [near.bottom]
  top := by linarith [near.top]

/-- Points of two boxes that are near each other bring the boxes near each other. -/
theorem near_of_points {t : ℚ} {p q : Pt} (inOne : one.Holds p) (inTwo : two.Holds q)
    (x : |p.1 - q.1| ≤ t) (y : |p.2 - q.2| ≤ t) : Near t one two := by
  rw [abs_le] at x y
  exact {
    left := by linarith [inOne.left, inTwo.right]
    right := by linarith [inTwo.left, inOne.right]
    bottom := by linarith [inOne.bottom, inTwo.top]
    top := by linarith [inTwo.bottom, inOne.top] }

variable {p : Pt}

theorem near_of_shared {t : ℚ} (nonneg : 0 ≤ t) (inOne : one.Holds p) (inTwo : two.Holds p) :
    Near t one two :=
  near_of_points inOne inTwo (by simpa using nonneg) (by simpa using nonneg)

theorem single_holds (p : Pt) : (Box.single p).Holds p := ⟨le_rfl, le_rfl, le_rfl, le_rfl⟩

theorem Box.Holds.grow {box : Box} {p : Pt} (holds : box.Holds p) (q : Pt) : (box.grow q).Holds p where
  left := (min_le_left _ _).trans holds.left
  right := holds.right.trans (le_max_left _ _)
  bottom := (min_le_left _ _).trans holds.bottom
  top := holds.top.trans (le_max_left _ _)

theorem grow_holds (box : Box) (q : Pt) : (box.grow q).Holds q where
  left := min_le_right _ _
  right := le_max_right _ _
  bottom := min_le_right _ _
  top := le_max_right _ _

theorem foldl_grow_holds {pts : List Pt} {box : Box} (covered : box.Holds p ∨ p ∈ pts) :
    (pts.foldl Box.grow box).Holds p := by
  induction pts generalizing box with
  | nil => exact covered.resolve_right (by simp)
  | cons q rest ih =>
    refine ih ?_
    rcases covered with holds | member
    · exact .inl (holds.grow q)
    · rcases List.mem_cons.mp member with rfl | later
      · exact .inl (grow_holds box p)
      · exact .inr later

theorem bbox_holds {g : Geometry} (member : p ∈ g.vertices) : g.bbox.Holds p := by
  rw [Geometry.bbox]
  cases vertices : g.vertices with
  | nil => simp [vertices] at member
  | cons q rest =>
    rw [vertices] at member
    refine foldl_grow_holds ?_
    rcases List.mem_cons.mp member with rfl | later
    · exact .inl (single_holds p)
    · exact .inr later

/-- A point on the way from one point of a box to another one stays in the box. -/
theorem Box.Holds.between {box : Box} {a b p : Pt} (inA : box.Holds a) (inB : box.Holds b)
    (x : min a.1 b.1 ≤ p.1 ∧ p.1 ≤ max a.1 b.1) (y : min a.2 b.2 ≤ p.2 ∧ p.2 ≤ max a.2 b.2) : box.Holds p where
  left := (le_min inA.left inB.left).trans x.1
  right := x.2.trans (max_le inA.right inB.right)
  bottom := (le_min inA.bottom inB.bottom).trans y.1
  top := y.2.trans (max_le inA.top inB.top)

/-- Between two numbers, at some part of the way. -/
theorem between_of_part {a b t : ℚ} (low : 0 ≤ t) (high : t ≤ 1) :
    min a b ≤ a + t * (b - a) ∧ a + t * (b - a) ≤ max a b := by
  rcases le_total a b with order | order
  · rw [min_eq_left order, max_eq_right order]
    constructor <;> nlinarith
  · rw [min_eq_right order, max_eq_left order]
    constructor <;> nlinarith

theorem Box.Holds.part {box : Box} {a b : Pt} {t : ℚ} (inA : box.Holds a) (inB : box.Holds b) (low : 0 ≤ t)
    (high : t ≤ 1) : box.Holds (a.1 + t * (b.1 - a.1), a.2 + t * (b.2 - a.2)) :=
  inA.between inB (between_of_part low high) (between_of_part low high)

theorem eps_pos : (0 : ℚ) < EPS := by norm_num [EPS]

theorem onSegment_near {p a b : Pt} (on : onSegment p a b = true) (inOne : one.Holds p)
    (inA : two.Holds a) (inB : two.Holds b) : Near EPS one two := by
  simp only [onSegment, Bool.and_eq_true, decide_eq_true_eq] at on
  obtain ⟨_, ⟨⟨left, right⟩, bottom⟩, top⟩ := on
  exact {
    left := by linarith [inOne.left, max_le inA.right inB.right]
    right := by linarith [inOne.right, le_min inA.left inB.left]
    bottom := by linarith [inOne.bottom, max_le inA.top inB.top]
    top := by linarith [inOne.top, le_min inA.bottom inB.bottom] }

/-- A square bounds the distance on each axis. -/
theorem near_of_squared {r : ℚ} {p q : Pt} (nonneg : 0 ≤ r) (inOne : one.Holds p)
    (inTwo : two.Holds q) (close : squared p q ≤ r ^ 2) : Near r one two := by
  rw [squared] at close
  refine near_of_points inOne inTwo ?_ ?_
  · exact abs_le_of_sq_le_sq (by linarith [sq_nonneg (p.2 - q.2)]) nonneg
  · exact abs_le_of_sq_le_sq (by linarith [sq_nonneg (p.1 - q.1)]) nonneg

theorem pointSegDist_near {r : ℚ} {p a b : Pt} (nonneg : 0 ≤ r) (inOne : one.Holds p)
    (inA : two.Holds a) (inB : two.Holds b) (close : pointSegDist p a b ≤ r ^ 2) : Near r one two := by
  rw [pointSegDist] at close
  split at close
  · exact near_of_squared nonneg inOne inA close
  · refine near_of_squared nonneg inOne ?_ close
    exact inA.part inB (le_max_left _ _) (max_le zero_le_one (min_le_left _ _))

/-- Numbers of opposite signs meet zero at some part of the way. -/
theorem part_of_signs {d e : ℚ} (apart : 0 < d ∧ e < 0 ∨ d < 0 ∧ 0 < e) :
    0 ≤ d / (d - e) ∧ d / (d - e) ≤ 1 := by
  rcases apart with ⟨positive, negative⟩ | ⟨negative, positive⟩
  · have width : 0 < d - e := by linarith
    exact ⟨by positivity, (div_le_one width).mpr (by linarith)⟩
  · have width : d - e < 0 := by linarith
    exact ⟨div_nonneg_of_nonpos negative.le width.le, (div_le_one_of_neg width).mpr (by linarith)⟩

/-- Two segments that cross have a point in common. -/
theorem crossing_point {a b : Seg}
    (first : 0 < side b.1 b.2 a.1 ∧ side b.1 b.2 a.2 < 0 ∨ side b.1 b.2 a.1 < 0 ∧ 0 < side b.1 b.2 a.2)
    (second : 0 < side a.1 a.2 b.1 ∧ side a.1 a.2 b.2 < 0 ∨ side a.1 a.2 b.1 < 0 ∧ 0 < side a.1 a.2 b.2)
    (inA : one.Holds a.1 ∧ one.Holds a.2) (inB : two.Holds b.1 ∧ two.Holds b.2) :
    ∃ p, one.Holds p ∧ two.Holds p := by
  obtain ⟨low, high⟩ := part_of_signs first
  obtain ⟨low', high'⟩ := part_of_signs second
  have onA := inA.1.part inA.2 low high
  have onB := inB.1.part inB.2 low' high'
  have width : side b.1 b.2 a.1 - side b.1 b.2 a.2 ≠ 0 := by rcases first with ⟨_, _⟩ | ⟨_, _⟩ <;> intro _ <;> linarith
  have opposite : side a.1 a.2 b.1 - side a.1 a.2 b.2 = -(side b.1 b.2 a.1 - side b.1 b.2 a.2) := by
    simp only [side]
    ring
  have same : ((a.1.1 + side b.1 b.2 a.1 / (side b.1 b.2 a.1 - side b.1 b.2 a.2) * (a.2.1 - a.1.1),
      a.1.2 + side b.1 b.2 a.1 / (side b.1 b.2 a.1 - side b.1 b.2 a.2) * (a.2.2 - a.1.2)) : Pt) =
      (b.1.1 + side a.1 a.2 b.1 / (side a.1 a.2 b.1 - side a.1 a.2 b.2) * (b.2.1 - b.1.1),
      b.1.2 + side a.1 a.2 b.1 / (side a.1 a.2 b.1 - side a.1 a.2 b.2) * (b.2.2 - b.1.2)) := by
    rw [opposite]
    refine Prod.ext ?_ ?_
    · show a.1.1 + _ = b.1.1 + _
      field_simp
      simp only [side]
      ring
    · show a.1.2 + _ = b.1.2 + _
      field_simp
      simp only [side]
      ring
  exact ⟨_, onA, same ▸ onB⟩

theorem segmentsIntersect_near {a b : Seg} (inA : one.Holds a.1 ∧ one.Holds a.2)
    (inB : two.Holds b.1 ∧ two.Holds b.2) (meet : segmentsIntersect a b = true) : Near EPS one two := by
  simp only [segmentsIntersect, Bool.or_eq_true, Bool.and_eq_true, decide_eq_true_eq] at meet
  rcases meet with (((⟨first, second⟩ | ⟨_, on⟩) | ⟨_, on⟩) | ⟨_, on⟩) | ⟨_, on⟩
  · obtain ⟨p, inOne, inTwo⟩ := crossing_point first second inA inB
    exact near_of_shared eps_pos.le inOne inTwo
  · exact onSegment_near on inA.1 inB.1 inB.2
  · exact onSegment_near on inA.2 inB.1 inB.2
  · exact (onSegment_near on inB.1 inA.1 inA.2).symm
  · exact (onSegment_near on inB.2 inA.1 inA.2).symm

theorem segSegDist_near {r : ℚ} {a b : Seg} (nonneg : 0 ≤ r) (inA : one.Holds a.1 ∧ one.Holds a.2)
    (inB : two.Holds b.1 ∧ two.Holds b.2) (close : segSegDist a b ≤ r ^ 2) :
    Near (max r EPS) one two := by
  rw [segSegDist] at close
  split at close
  · rename_i meet
    exact (segmentsIntersect_near inA inB meet).mono (le_max_right _ _)
  · simp only [min_le_iff] at close
    rcases close with ((first | second) | third) | fourth
    · exact (pointSegDist_near nonneg inA.1 inB.1 inB.2 first).mono (le_max_left _ _)
    · exact (pointSegDist_near nonneg inA.2 inB.1 inB.2 second).mono (le_max_left _ _)
    · exact (pointSegDist_near nonneg inB.1 inA.1 inA.2 third).symm.mono (le_max_left _ _)
    · exact (pointSegDist_near nonneg inB.2 inA.1 inA.2 fourth).symm.mono (le_max_left _ _)

theorem mem_of_mem_closedEdges {ring : List Pt} {e : Seg} (member : e ∈ closedEdges ring) :
    e.1 ∈ ring ∧ e.2 ∈ ring := by
  obtain ⟨first, second⟩ := List.of_mem_zip (show (e.1, e.2) ∈ _ from member)
  refine ⟨first, ?_⟩
  rcases List.mem_append.mp second with later | head
  · exact List.mem_of_mem_tail later
  · exact List.mem_of_mem_take head

theorem toggle_eq (x y start : Bool) : (if (x != y) = true then !start else start) = (start ^^ (x ^^ y)) := by
  cases x <;> cases y <;> cases start <;> rfl

/-- Along a path, the changes of side add up to the change from its start to its end. -/
theorem foldl_straddles (p q z : Pt) (rest : List Pt) (start : Bool) :
    ((q :: rest).zip (rest ++ [z])).foldl (fun inside e => if straddles p e then !inside else inside) start =
      (start ^^ (decide (p.2 < q.2) ^^ decide (p.2 < z.2))) := by
  induction rest generalizing q start with
  | nil =>
    simp only [List.nil_append, List.zip_cons_cons, List.zip_nil_left, List.foldl_cons, List.foldl_nil, straddles]
    exact toggle_eq _ _ start
  | cons next rest ih =>
    rw [List.cons_append, List.zip_cons_cons, List.foldl_cons, ih, straddles, toggle_eq, Bool.xor_assoc,
      Bool.xor_assoc, ← Bool.xor_assoc (decide (p.2 < next.2)), Bool.xor_self, Bool.false_xor]

/-- A ring has an even number of edges across a horizontal line. -/
theorem foldl_straddles_closed (p : Pt) (ring : List Pt) :
    (closedEdges ring).foldl (fun inside e => if straddles p e then !inside else inside) false = false := by
  cases ring with
  | nil => rfl
  | cons q rest =>
    have sum := foldl_straddles p q q rest false
    rw [Bool.xor_self, Bool.xor_false] at sum
    exact sum

theorem foldl_toggle_eq {test other : Seg → Bool} {edges : List Seg} (agree : ∀ e ∈ edges, test e = other e)
    (start : Bool) :
    edges.foldl (fun inside e => if test e then !inside else inside) start =
      edges.foldl (fun inside e => if other e then !inside else inside) start := by
  induction edges generalizing start with
  | nil => rfl
  | cons e rest ih =>
    rw [List.forall_mem_cons] at agree
    rw [List.foldl_cons, List.foldl_cons, agree.1, ih agree.2]

theorem foldl_toggle_none {test : Seg → Bool} {edges : List Seg} (never : ∀ e ∈ edges, test e = false) (start : Bool) :
    edges.foldl (fun inside e => if test e then !inside else inside) start = start := by
  induction edges generalizing start with
  | nil => rfl
  | cons e rest ih =>
    rw [List.forall_mem_cons] at never
    rw [List.foldl_cons, never.1, ih never.2]
    rfl

/-- An edge across the line meets it between its ends. -/
theorem meetingX_between {e : Seg} (across : straddles p e = true) :
    (min e.1.1 e.2.1 ≤ meetingX p e ∧ meetingX p e ≤ max e.1.1 e.2.1) ∧
      min e.1.2 e.2.2 ≤ p.2 ∧ p.2 ≤ max e.1.2 e.2.2 := by
  have apart : p.2 < e.1.2 ∧ e.2.2 ≤ p.2 ∨ e.1.2 ≤ p.2 ∧ p.2 < e.2.2 := by
    by_cases first : p.2 < e.1.2 <;> by_cases second : p.2 < e.2.2
    · simp [straddles, first, second] at across
    · exact .inl ⟨first, not_lt.mp second⟩
    · exact .inr ⟨not_lt.mp first, second⟩
    · simp [straddles, first, second] at across
  have part : meetingX p e = e.1.1 + (p.2 - e.1.2) / (e.2.2 - e.1.2) * (e.2.1 - e.1.1) := by
    rw [meetingX]
    ring
  rw [part]
  rcases apart with ⟨low, high⟩ | ⟨low, high⟩
  · have width : e.2.2 - e.1.2 < 0 := by linarith
    refine ⟨between_of_part (div_nonneg_of_nonpos (by linarith) width.le)
      ((div_le_one_of_neg width).mpr (by linarith)), ?_, ?_⟩
    · exact (min_le_right _ _).trans high
    · exact low.le.trans (le_max_left _ _)
  · have width : 0 < e.2.2 - e.1.2 := by linarith
    refine ⟨between_of_part (div_nonneg (by linarith) width.le) ((div_le_one width).mpr (by linarith)), ?_, ?_⟩
    · exact (min_le_left _ _).trans low
    · exact high.le.trans (le_max_right _ _)

/-- What is not outside of a ring is near its box: an odd number of edges lies to the right, so that
there is one to the right and one to the left. -/
theorem pointInRing_near {ring : List Pt} (inOne : one.Holds p) (inTwo : ∀ q ∈ ring, two.Holds q)
    (found : pointInRing p ring ≠ .outside) : Near EPS one two := by
  rw [pointInRing] at found
  split at found
  · exact absurd rfl found
  · split at found
    · rename_i on
      obtain ⟨e, member, here⟩ := List.any_eq_true.mp on
      have ends := mem_of_mem_closedEdges member
      exact onSegment_near here inOne (inTwo _ ends.1) (inTwo _ ends.2)
    · have odd : (closedEdges ring).foldl (fun inside e =>
          if straddles p e && decide (p.1 < meetingX p e) then !inside else inside) false = true := by
        by_contra even
        rw [if_neg even] at found
        exact found rfl
      obtain ⟨e, member, across, right⟩ : ∃ e ∈ closedEdges ring, straddles p e = true ∧ p.1 < meetingX p e := by
        by_contra none_
        have same := @foldl_toggle_none (fun e => straddles p e && decide (p.1 < meetingX p e)) (closedEdges ring) (fun e member => by
            by_contra some_
            rw [Bool.not_eq_false, Bool.and_eq_true, decide_eq_true_eq] at some_
            exact none_ ⟨e, member, some_⟩) false
        rw [same] at odd
        cases odd
      obtain ⟨f, member', across', left⟩ : ∃ e ∈ closedEdges ring, straddles p e = true ∧ meetingX p e ≤ p.1 := by
        by_contra none_
        have same := @foldl_toggle_eq (fun e => straddles p e && decide (p.1 < meetingX p e)) (fun e => straddles p e) (closedEdges ring) (fun e member => by
            by_cases across : straddles p e = true
            · rw [across, Bool.true_and, decide_eq_true_eq]
              by_contra beyond
              exact none_ ⟨e, member, across, not_lt.mp beyond⟩
            · simp [across]) false
        rw [same, foldl_straddles_closed] at odd
        cases odd
      have ends := mem_of_mem_closedEdges member
      have ends' := mem_of_mem_closedEdges member'
      have bounds := meetingX_between across
      have bounds' := meetingX_between across'
      have inside : two.Holds p := {
        left := (le_min (inTwo _ ends'.1).left (inTwo _ ends'.2).left).trans (bounds'.1.1.trans left)
        right := right.le.trans (bounds.1.2.trans (max_le (inTwo _ ends.1).right (inTwo _ ends.2).right))
        bottom := (le_min (inTwo _ ends.1).bottom (inTwo _ ends.2).bottom).trans bounds.2.1
        top := bounds.2.2.trans (max_le (inTwo _ ends.1).top (inTwo _ ends.2).top) }
      exact near_of_shared eps_pos.le inOne inside

variable {rings : List (List Pt)}

theorem pointInPolygon_near (inOne : one.Holds p) (inTwo : ∀ ring ∈ rings, ∀ q ∈ ring, two.Holds q)
    (found : pointInPolygon p rings ≠ .outside) : Near EPS one two := by
  cases rings with
  | nil => exact absurd rfl found
  | cons ext holes =>
    refine pointInRing_near inOne (inTwo ext (by simp)) fun outside => found ?_
    rw [pointInPolygon, outside]

theorem mem_of_mem_windows {pts : List Pt} {e : Seg} (member : e ∈ windows pts) : e.1 ∈ pts ∧ e.2 ∈ pts := by
  obtain ⟨first, second⟩ := List.of_mem_zip (show (e.1, e.2) ∈ _ from member)
  exact ⟨first, List.mem_of_mem_tail second⟩

theorem mem_of_mem_ringsEdges {e : Seg} (member : e ∈ ringsEdges rings) :
    ∃ ring ∈ rings, e.1 ∈ ring ∧ e.2 ∈ ring := by
  obtain ⟨ring, listed, inside⟩ := List.mem_flatMap.mp member
  refine ⟨ring, listed, ?_⟩
  rw [ringEdges] at inside
  split at inside
  · obtain ⟨first, second⟩ := mem_of_mem_windows inside
    split at first
    · rename_i open_
      rw [if_pos open_] at second
      exact ⟨(List.mem_append.mp first).elim id List.mem_of_mem_take,
        (List.mem_append.mp second).elim id List.mem_of_mem_take⟩
    · rename_i closed
      rw [if_neg closed] at second
      exact ⟨first, second⟩
  · simp at inside

theorem edges_held {g : Geometry} {e : Seg} (member : e ∈ g.edges) : g.bbox.Holds e.1 ∧ g.bbox.Holds e.2 := by
  cases g with
  | point p => simp [Geometry.edges] at member
  | lineString pts long =>
    have ends := mem_of_mem_windows member
    exact ⟨bbox_holds ends.1, bbox_holds ends.2⟩
  | polygon rings some_ closed =>
    obtain ⟨ring, listed, first, second⟩ := mem_of_mem_ringsEdges member
    exact ⟨bbox_holds (List.mem_flatten.mpr ⟨ring, listed, first⟩), bbox_holds (List.mem_flatten.mpr ⟨ring, listed, second⟩)⟩

variable {closed : ∀ ring ∈ rings, 3 ≤ ring.length}

theorem rings_held {some_ : rings ≠ []} :
    ∀ ring ∈ rings, ∀ q ∈ ring, (Geometry.polygon rings some_ closed).bbox.Holds q := fun ring listed _ member =>
  bbox_holds (List.mem_flatten.mpr ⟨ring, listed, member⟩)

theorem exists_vertex (g : Geometry) : ∃ p, p ∈ g.vertices := by
  cases g with
  | point p => exact ⟨p, List.mem_singleton_self p⟩
  | lineString pts long => exact List.exists_mem_of_length_pos (Nat.lt_of_lt_of_le Nat.two_pos long)
  | polygon rings some_ closed =>
    obtain ⟨ring, listed⟩ := List.exists_mem_of_ne_nil rings some_
    obtain ⟨p, member⟩ := List.exists_mem_of_length_pos (l := ring) (by have := closed ring listed; omega)
    exact ⟨p, List.mem_flatten.mpr ⟨ring, listed, member⟩⟩

theorem pointInPolygon_near_bbox {some_ : rings ≠ []} {two : Box} (inTwo : two.Holds p)
    (found : pointInPolygon p rings ≠ .outside) :
    Near EPS (Geometry.polygon rings some_ closed).bbox two :=
  (pointInPolygon_near inTwo rings_held found).symm

variable {a b : Geometry}

theorem geoContains_near (contains : geoContains a b = true) : Near EPS a.bbox b.bbox := by
  obtain ⟨p, vertex⟩ := exists_vertex b
  have held := bbox_holds vertex
  cases a with
  | point | lineString => simp [geoContains] at contains
  | polygon rings some_ closed =>
    have inside : pointInPolygon p rings = .inside := by
      cases b with
      | point q =>
        cases List.mem_singleton.mp vertex
        simpa [geoContains] using contains
      | lineString pts long =>
        simp only [geoContains, List.all_eq_true, decide_eq_true_eq] at contains
        exact contains p vertex
      | polygon other _ _ =>
        simp only [geoContains, Bool.and_eq_true, List.all_eq_true, decide_eq_true_eq] at contains
        obtain ⟨ring, listed, member⟩ := List.mem_flatten.mp vertex
        exact contains.1 ring listed p member
    exact pointInPolygon_near_bbox held (by simp [inside])

theorem pointOnEdges_near (on : pointOnEdges a b.edges = true) : Near EPS a.bbox b.bbox := by
  cases a with
  | point p =>
    obtain ⟨e, member, here⟩ := List.any_eq_true.mp on
    have ends := edges_held member
    exact onSegment_near here (bbox_holds (List.mem_singleton_self p)) ends.1 ends.2
  | lineString | polygon => simp [pointOnEdges] at on

theorem boundariesIntersect_near (meet : boundariesIntersect a b = true) :
    Near EPS a.bbox b.bbox := by
  simp only [boundariesIntersect, Bool.or_eq_true] at meet
  rcases meet with (crossing | first) | second
  · obtain ⟨e, member, crossing⟩ := List.any_eq_true.mp crossing
    obtain ⟨f, member', crossing⟩ := List.any_eq_true.mp crossing
    exact segmentsIntersect_near (edges_held member) (edges_held member') crossing
  · exact pointOnEdges_near first
  · exact (pointOnEdges_near second).symm

theorem geoIntersects_near (meet : geoIntersects a b = true) : Near EPS a.bbox b.bbox := by
  unfold geoIntersects at meet
  split at meet
  · rename_i contains
    rw [Bool.or_eq_true] at contains
    exact contains.elim geoContains_near fun other => (geoContains_near other).symm
  · split at meet
    · rename_i p q _
      rw [Bool.and_eq_true, decide_eq_true_eq, decide_eq_true_eq] at meet
      exact near_of_points (bbox_holds (List.mem_singleton_self p)) (bbox_holds (List.mem_singleton_self q))
        meet.1 meet.2
    · rename_i p rings some_ closed _
      exact (pointInPolygon_near_bbox (bbox_holds (List.mem_singleton_self p)) (of_decide_eq_true meet)).symm
    · rename_i rings some_ closed p _
      exact pointInPolygon_near_bbox (bbox_holds (List.mem_singleton_self p)) (of_decide_eq_true meet)
    · rename_i p pts long _
      exact pointOnEdges_near (a := .point p) (b := .lineString pts long) meet
    · rename_i pts long p _
      exact (pointOnEdges_near (a := .point p) (b := .lineString pts long) meet).symm
    · exact boundariesIntersect_near meet

theorem foldl_min_le {distances : List ℚ} {start : WithTop ℚ} {bound : ℚ}
    (close : distances.foldl (fun best d => min best (d : WithTop ℚ)) start ≤ (bound : WithTop ℚ)) :
    start ≤ (bound : WithTop ℚ) ∨ ∃ d ∈ distances, d ≤ bound := by
  induction distances generalizing start with
  | nil => exact .inl close
  | cons d rest ih =>
    rcases ih close with first | ⟨e, member, small⟩
    · rcases min_le_iff.mp first with start_ | here
      · exact .inl start_
      · exact .inr ⟨d, by simp, WithTop.coe_le_coe.mp here⟩
    · exact .inr ⟨e, by simp [member], small⟩

theorem best_le {distances : List ℚ} {bound : ℚ} (close : best distances ≤ (bound : WithTop ℚ)) :
    ∃ d ∈ distances, d ≤ bound :=
  (foldl_min_le close).resolve_left (by simp)

section

variable {r : ℚ} (nonneg : 0 ≤ r)
include nonneg

theorem squared_near {p q : Pt} {a b : Geometry} (inA : p ∈ a.vertices) (inB : q ∈ b.vertices)
    (close : squared p q ≤ r ^ 2) : Near (max r EPS) a.bbox b.bbox :=
  (near_of_squared nonneg (bbox_holds inA) (bbox_holds inB) close).mono (le_max_left _ _)

theorem geomPointDist_near {p : Pt} {g : Geometry} (close : geomPointDist p g ≤ ((r ^ 2 : ℚ) : WithTop ℚ)) :
    Near (max r EPS) (Geometry.point p).bbox g.bbox := by
  have vertex : p ∈ (Geometry.point p).vertices := List.mem_singleton_self p
  have edges (small : best (g.edges.map fun e => pointSegDist p e.1 e.2) ≤ ((r ^ 2 : ℚ) : WithTop ℚ)) :
      Near (max r EPS) (Geometry.point p).bbox g.bbox := by
    obtain ⟨d, member, small⟩ := best_le small
    obtain ⟨e, listed, rfl⟩ := List.mem_map.mp member
    have ends := edges_held listed
    exact (pointSegDist_near nonneg (bbox_holds vertex) ends.1 ends.2 small).mono (le_max_left _ _)
  cases g with
  | point q =>
    simp only [geomPointDist] at close
    split at close
    · exact edges close
    · exact squared_near nonneg vertex (List.mem_singleton_self q) (WithTop.coe_le_coe.mp close)
  | lineString | polygon =>
    simp only [geomPointDist, ite_self] at close
    exact edges close

theorem edgesDist_near {a b : Geometry} (close : edgesDist a b ≤ ((r ^ 2 : ℚ) : WithTop ℚ)) :
    Near (max r EPS) a.bbox b.bbox := by
  rw [edgesDist] at close
  split at close
  · obtain ⟨d, member, small⟩ := best_le close
    obtain ⟨e, listed, inside⟩ := List.mem_flatMap.mp member
    obtain ⟨f, listed', rfl⟩ := List.mem_map.mp inside
    exact segSegDist_near nonneg (edges_held listed) (edges_held listed') small
  · obtain ⟨d, member, small⟩ := best_le close
    obtain ⟨p, vertex, inside⟩ := List.mem_flatMap.mp member
    obtain ⟨q, vertex', rfl⟩ := List.mem_map.mp inside
    exact squared_near nonneg vertex vertex' small

/-- Geometries within a distance have boxes within that distance, or within the tolerance. -/
theorem planarDistance_near {a b : Geometry} (close : planarDistance a b ≤ ((r ^ 2 : ℚ) : WithTop ℚ)) :
    Near (max r EPS) a.bbox b.bbox := by
  unfold planarDistance at close
  split at close
  · rename_i p q
    exact squared_near nonneg (List.mem_singleton_self p) (List.mem_singleton_self q) (WithTop.coe_le_coe.mp close)
  · split at close
    · rename_i meet
      exact (geoIntersects_near meet).mono (le_max_right _ _)
    · split at close
      · exact geomPointDist_near nonneg close
      · exact (geomPointDist_near nonneg close).symm
      · exact edgesDist_near nonneg close

/-- Of two points, the tolerance plays no part. -/
theorem planarDistance_near_points {p q : Pt}
    (close : planarDistance (.point p) (.point q) ≤ ((r ^ 2 : ℚ) : WithTop ℚ)) :
    Near r (Geometry.point p).bbox (Geometry.point q).bbox :=
  near_of_squared nonneg (bbox_holds (List.mem_singleton_self p)) (bbox_holds (List.mem_singleton_self q))
    (WithTop.coe_le_coe.mp close)

end

end RustSql.Executor.Geo
