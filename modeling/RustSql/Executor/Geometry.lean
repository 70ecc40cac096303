import Mathlib.Data.Rat.Floor
import Mathlib.Algebra.Order.Ring.Rat
import Mathlib.Order.WithBot
import Mathlib.Tactic.Ring

/-! Planar geometries over exact rationals, and the distance of two of them. All distances are
held as their squares, so that they stay rational. -/

namespace RustSql.Executor.Geo

abbrev Pt := ℚ × ℚ

abbrev Seg := Pt × Pt

/-- A parsed geometry; what `parse_geometry` refuses cannot be built. A polygon's exterior ring comes
first. -/
inductive Geometry where
  | point (p : Pt)
  | lineString (pts : List Pt) (long : 2 ≤ pts.length)
  | polygon (rings : List (List Pt)) (some_ : rings ≠ []) (closed : ∀ ring ∈ rings, 3 ≤ ring.length)

/-- The segments between neighbours. -/
def windows (pts : List Pt) : List Seg := pts.zip pts.tail

/-- The edges of one ring: from the last vertex back to the first unless they are one. -/
def ringEdges (ring : List Pt) : List Seg :=
  if 2 ≤ ring.length then
    windows (if ring.head? ≠ ring.getLast? then ring ++ ring.take 1 else ring)
  else []

def ringsEdges (rings : List (List Pt)) : List Seg := rings.flatMap ringEdges

namespace Geometry

def vertices : Geometry → List Pt
  | point p => [p]
  | lineString pts _ => pts
  | polygon rings _ _ => rings.flatten

def edges : Geometry → List Seg
  | point _ => []
  | lineString pts _ => windows pts
  | polygon rings _ _ => ringsEdges rings

end Geometry

/-- `(xmin, ymin, xmax, ymax)`. -/
structure Box where
  xmin : ℚ
  ymin : ℚ
  xmax : ℚ
  ymax : ℚ
deriving DecidableEq

def Box.single (p : Pt) : Box := ⟨p.1, p.2, p.1, p.2⟩

def Box.grow (box : Box) (p : Pt) : Box :=
  ⟨min box.xmin p.1, min box.ymin p.2, max box.xmax p.1, max box.ymax p.2⟩

/-- The box of at least one vertex. -/
def Geometry.bbox (g : Geometry) : Box :=
  match g.vertices with
  | [] => .single (0, 0)
  | p :: rest => rest.foldl Box.grow (.single p)

def EPS : ℚ := 1 / 10 ^ 12

def onSegment (p a b : Pt) : Bool :=
  let cross := (b.1 - a.1) * (p.2 - a.2) - (b.2 - a.2) * (p.1 - a.1)
  decide (|cross| ≤ EPS) && (decide (min a.1 b.1 - EPS ≤ p.1) && decide (p.1 ≤ max a.1 b.1 + EPS) &&
    decide (min a.2 b.2 - EPS ≤ p.2) && decide (p.2 ≤ max a.2 b.2 + EPS))

def squared (p q : Pt) : ℚ := (p.1 - q.1) ^ 2 + (p.2 - q.2) ^ 2

/-- The point of a segment next to a point. -/
def closest (p a b : Pt) : Pt :=
  let dx := b.1 - a.1
  let dy := b.2 - a.2
  let t := max 0 (min 1 (((p.1 - a.1) * dx + (p.2 - a.2) * dy) / (dx * dx + dy * dy)))
  (a.1 + t * dx, a.2 + t * dy)

def pointSegDist (p a b : Pt) : ℚ :=
  if (b.1 - a.1) * (b.1 - a.1) + (b.2 - a.2) * (b.2 - a.2) ≤ 0 then squared p a
  else squared p (closest p a b)

/-- On which side of a line a point lies. -/
def side (a b p : Pt) : ℚ := (b.1 - a.1) * (p.2 - a.2) - (b.2 - a.2) * (p.1 - a.1)

def segmentsIntersect (a b : Seg) : Bool :=
  let d1 := side b.1 b.2 a.1
  let d2 := side b.1 b.2 a.2
  let d3 := side a.1 a.2 b.1
  let d4 := side a.1 a.2 b.2
  (((decide (0 < d1) && decide (d2 < 0)) || (decide (d1 < 0) && decide (0 < d2))) &&
      ((decide (0 < d3) && decide (d4 < 0)) || (decide (d3 < 0) && decide (0 < d4)))) ||
    (decide (|d1| ≤ EPS) && onSegment a.1 b.1 b.2) || (decide (|d2| ≤ EPS) && onSegment a.2 b.1 b.2) ||
    (decide (|d3| ≤ EPS) && onSegment b.1 a.1 a.2) || (decide (|d4| ≤ EPS) && onSegment b.2 a.1 a.2)

def segSegDist (a b : Seg) : ℚ :=
  if segmentsIntersect a b then 0
  else min (min (min (pointSegDist a.1 b.1 b.2) (pointSegDist a.2 b.1 b.2)) (pointSegDist b.1 a.1 a.2))
    (pointSegDist b.2 a.1 a.2)

inductive RingPos where
  | inside
  | outside
  | boundary
deriving DecidableEq

/-- The edges of a ring closed implicitly. -/
def closedEdges (ring : List Pt) : List Seg := ring.zip (ring.tail ++ ring.take 1)

def straddles (p : Pt) (e : Seg) : Bool := decide (p.2 < e.1.2) != decide (p.2 < e.2.2)

/-- Where an edge meets the horizontal line through a point. -/
def meetingX (p : Pt) (e : Seg) : ℚ := e.1.1 + (p.2 - e.1.2) * (e.2.1 - e.1.1) / (e.2.2 - e.1.2)

def pointInRing (p : Pt) (ring : List Pt) : RingPos :=
  if ring.length < 3 then .outside
  else if (closedEdges ring).any fun e => onSegment p e.1 e.2 then .boundary
  else
    let inside := (closedEdges ring).foldl (fun inside e =>
      if straddles p e && decide (p.1 < meetingX p e) then !inside else inside) false
    if inside then .inside else .outside

/-- The holes of a polygon around a point in its exterior ring. -/
def pointInHoles (p : Pt) : List (List Pt) → RingPos
  | [] => .inside
  | hole :: rest =>
    match pointInRing p hole with
    | .inside => .outside
    | .boundary => .boundary
    | .outside => pointInHoles p rest

def pointInPolygon (p : Pt) : List (List Pt) → RingPos
  | [] => .outside
  | ext :: holes =>
    match pointInRing p ext with
    | .outside => .outside
    | .boundary => .boundary
    | .inside => pointInHoles p holes

def edgeSetsIntersect (ea eb : List Seg) : Bool := ea.any fun a => eb.any fun b => segmentsIntersect a b

def geoContains : Geometry → Geometry → Bool
  | .polygon rings _ _, .point p => pointInPolygon p rings = .inside
  | .polygon rings _ _, .lineString pts _ => pts.all fun p => pointInPolygon p rings = .inside
  | .polygon rings _ _, .polygon other _ _ =>
    (other.all fun ring => ring.all fun p => pointInPolygon p rings = .inside) &&
      !edgeSetsIntersect (ringsEdges rings) (ringsEdges other)
  | _, _ => false

def pointOnEdges : Geometry → List Seg → Bool
  | .point p, edges => edges.any fun e => onSegment p e.1 e.2
  | _, _ => false

def boundariesIntersect (a b : Geometry) : Bool :=
  edgeSetsIntersect a.edges b.edges || pointOnEdges a b.edges || pointOnEdges b a.edges

def geoIntersects (a b : Geometry) : Bool :=
  if geoContains a b || geoContains b a then true
  else
    match a, b with
    | .point p, .point q => decide (|p.1 - q.1| ≤ EPS) && decide (|p.2 - q.2| ≤ EPS)
    | .point p, .polygon rings _ _ => pointInPolygon p rings ≠ .outside
    | .polygon rings _ _, .point p => pointInPolygon p rings ≠ .outside
    | .point p, .lineString pts _ => (windows pts).any fun e => onSegment p e.1 e.2
    | .lineString pts _, .point p => (windows pts).any fun e => onSegment p e.1 e.2
    | a, b => boundariesIntersect a b

/-- The least of the distances, from infinity down. -/
def best (distances : List ℚ) : WithTop ℚ := distances.foldl (fun best d => min best (d : WithTop ℚ)) ⊤

def geomPointDist (p : Pt) (g : Geometry) : WithTop ℚ :=
  let found := best (g.edges.map fun e => pointSegDist p e.1 e.2)
  if found ≠ ⊤ then found
  else
    match g with
    | .point q => (squared p q : ℚ)
    | _ => found

/-- Edges against edges, or vertices against vertices where there are none. -/
def edgesDist (a b : Geometry) : WithTop ℚ :=
  let found := best (a.edges.flatMap fun e => b.edges.map fun f => segSegDist e f)
  if found ≠ ⊤ then found
  else best (a.vertices.flatMap fun p => b.vertices.map fun q => squared p q)

def planarDistance (a b : Geometry) : WithTop ℚ :=
  match a, b with
  | .point p, .point q => (squared p q : ℚ)
  | a, b =>
    if geoIntersects a b then 0
    else
      match a, b with
      | .point p, b => geomPointDist p b
      | a, .point p => geomPointDist p a
      | a, b => edgesDist a b

end RustSql.Executor.Geo
