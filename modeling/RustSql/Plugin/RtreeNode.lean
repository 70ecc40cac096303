import Mathlib.Data.Fintype.Basic
import Mathlib.Data.List.FinRange
import RustSql.Foundation.DoubleBounds
import RustSql.Foundation.SummaryTree

/-! The in-memory R-tree: boxes, dimension constraints, insertion with the quadratic split,
removal, and the pruned query. -/

namespace RustSql.Plugin.Rtree

open RustSql.Foundation

/-- An N-dimensional bounding box. -/
structure BBox (dims : Nat) where
  lo : Fin dims → Binary64
  hi : Fin dims → Binary64
deriving DecidableEq

namespace BBox

variable {dims : Nat}

def new (dims : Nat) : BBox dims := ⟨fun _ => .infinity, fun _ => .negInfinity⟩

def unionWith (b other : BBox dims) : BBox dims :=
  ⟨fun d => (b.lo d).minimum (other.lo d), fun d => (b.hi d).maximum (other.hi d)⟩

def area (b : BBox dims) : Binary64 :=
  (List.finRange dims).foldl (fun a d => a.mul (((b.hi d).sub (b.lo d)).maximum ⟨0⟩)) .one

end BBox

inductive DimOp where
  | lt | le | gt | ge | eq
deriving DecidableEq, Repr

def DimOp.holds : DimOp → Binary64 → Binary64 → Bool
  | .lt, lhs, rhs => lhs.lt rhs
  | .le, lhs, rhs => lhs.le rhs
  | .gt, lhs, rhs => rhs.lt lhs
  | .ge, lhs, rhs => rhs.le lhs
  | .eq, lhs, rhs => lhs.eq rhs

/-- A dimension test; the columns of a box are 1 to `2 * dims`, a minimum before its maximum. -/
structure DimConstraint (dims : Nat) where
  col : Nat
  op : DimOp
  value : Binary64
  within : 1 ≤ col ∧ col ≤ 2 * dims
deriving DecidableEq

namespace DimConstraint

variable {dims : Nat}

def dim (c : DimConstraint dims) : Fin dims := ⟨(c.col - 1) / 2, by have := c.within; omega⟩

def acceptsStandalone (c : DimConstraint dims) (b : BBox dims) : Bool :=
  c.op.holds (if (c.col - 1) % 2 = 0 then b.lo c.dim else b.hi c.dim) c.value

def boxMayContain (c : DimConstraint dims) (parent : BBox dims) : Bool :=
  match c.op with
  | .lt => (parent.lo c.dim).lt c.value
  | .le => (parent.lo c.dim).le c.value
  | .gt => c.value.lt (parent.hi c.dim)
  | .ge => c.value.le (parent.hi c.dim)
  | .eq => (parent.lo c.dim).le c.value && c.value.le (parent.hi c.dim)

end DimConstraint

/-- A leaf holds an id and its box, an interior entry a child node behind its box. -/
abbrev NodeEntry (dims : Nat) := SummaryEntry (Int64 × BBox dims) (BBox dims)

/-- `RTreeNode`: its entries. -/
abbrev RTreeNode (dims : Nat) := List (NodeEntry dims)

section Nodes

variable {dims : Nat}

def entryBox : NodeEntry dims → BBox dims
  | .leaf (_, bbox) => bbox
  | .interior _ bbox => bbox

/-- `RTreeNode::bbox`. -/
def nodeBox (node : RTreeNode dims) : BBox dims :=
  node.foldl (fun b e => b.unionWith (entryBox e)) (.new dims)

def MAX_ENTRIES : Nat := 32

/-- `Vec::swap_remove`: the last element takes the place of the one removed; an index out of
range panics. -/
def swapRemove {α : Type} (entries : List α) (i : Nat) : Option (α × List α) :=
  match entries[i]?, entries.getLast? with
  | some removed, some last => some (removed, (entries.set i last).dropLast)
  | _, _ => none

/-- The pairs `i < j` below `n` in the order of the two loops. -/
def indexPairs (n : Nat) : List (Nat × Nat) :=
  (List.range n).flatMap fun i => (List.range' (i + 1) (n - (i + 1))).map (i, ·)

/-- The pair with the worst combined waste. -/
def seeds (entries : RTreeNode dims) : Nat × Nat :=
  ((indexPairs entries.length).foldl (fun (best : (Nat × Nat) × Binary64) pair =>
    match entries[pair.1]?, entries[pair.2]? with
    | some first, some second =>
      let u := (entryBox first).unionWith (entryBox second)
      let waste := (u.area.sub (entryBox first).area).sub (entryBox second).area
      if best.2.lt waste then (pair, waste) else best
    | _, _ => best) ((0, 1), .negInfinity)).1

/-- The two nodes of a split in the making, with their boxes. -/
structure Halves (dims : Nat) where
  left : RTreeNode dims
  right : RTreeNode dims
  leftBox : BBox dims
  rightBox : BBox dims

/-- One entry joins the half that it enlarges less. -/
def Halves.add (halves : Halves dims) (e : NodeEntry dims) : Halves dims :=
  let gl := halves.leftBox.unionWith (entryBox e)
  let gr := halves.rightBox.unionWith (entryBox e)
  let dl := gl.area.sub halves.leftBox.area
  let dr := gr.area.sub halves.rightBox.area
  if dl.lt dr || (dl.eq dr && halves.left.length ≤ halves.right.length) then
    ⟨halves.left ++ [e], halves.right, gl, halves.rightBox⟩
  else ⟨halves.left, halves.right ++ [e], halves.leftBox, gr⟩

/-- `split_node`: the node keeps the left half; the right half comes with its box. -/
def splitNode (node : RTreeNode dims) : Option (RTreeNode dims × RTreeNode dims × BBox dims) := do
  let (s1, s2) := seeds node
  let (e2, entries) ← swapRemove node s2
  let (e1, entries) ← swapRemove entries (min s1 entries.length)
  let halves := entries.foldl Halves.add ⟨[e1], [e2], nodeBox [e1], nodeBox [e2]⟩
  pure (halves.left, halves.right, halves.rightBox)

/-- `insert_rec` as `insert` calls it: the entry always joins the root, which is split when it
overflows. -/
def insertRec (node : RTreeNode dims) (id : Int64) (bbox : BBox dims) :
    Option (RTreeNode dims × Option (RTreeNode dims × BBox dims)) :=
  let node := node ++ [.leaf (id, bbox)]
  if node.length ≤ MAX_ENTRIES then some (node, none)
  else do
    let (left, right, rightBox) ← splitNode node
    pure (left, some (right, rightBox))

def insert (root : RTreeNode dims) (id : Int64) (bbox : BBox dims) : Option (RTreeNode dims) := do
  let (root, split) ← insertRec root id bbox
  match split with
  | none => pure root
  | some (right, rightBox) => pure [.interior root (nodeBox root), .interior right rightBox]

mutual

/-- `remove_rec`: what is left of a node, and whether the walk has ended early. -/
def removeRec (id : Int64) : RTreeNode dims → RTreeNode dims × Bool
  | [] => ([], false)
  | e :: rest =>
    match removeEntry id e with
    | (left, true) => (left.toList ++ rest, true)
    | (left, false) =>
      let (rest, ended) := removeRec id rest
      (left.toList ++ rest, ended)

/-- What is left of an entry, and whether the walk ends at it: at the leaf that is removed, and
at every child that is not gone. -/
def removeEntry (id : Int64) : NodeEntry dims → Option (NodeEntry dims) × Bool
  | .leaf (eid, bbox) => if eid = id then (none, true) else (some (.leaf (eid, bbox)), false)
  | .interior child _ =>
    let (child, ended) := removeRec id child
    if !ended && child.isEmpty then (none, false)
    else (some (.interior child (nodeBox child)), true)

end

def remove (root : RTreeNode dims) (id : Int64) : RTreeNode dims := (removeRec id root).1

def query (root : RTreeNode dims) (cons : List (DimConstraint dims)) : List (Int64 × BBox dims) :=
  SummaryEntry.search (fun item => cons.all (·.acceptsStandalone item.2))
    (fun bbox => cons.all (·.boxMayContain bbox)) root

end Nodes

end RustSql.Plugin.Rtree
