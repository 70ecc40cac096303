import RustSql.Foundation.BinarySearch
import RustSql.Foundation.SearchTree
import RustSql.Foundation.TotalRun
import RustSql.Storage.CellCodec
import Mathlib.Data.List.Infix

/-! Table trees on their pages, and walks that visit the cells of leaves in order. -/

namespace RustSql.Storage

open RustSql.Foundation

scoped instance int64Order : LinearOrder Int64 where
  le_refl := Int64.le_refl
  le_trans _ _ _ := Int64.le_trans
  le_antisymm _ _ := Int64.le_antisymm
  le_total := Int64.le_total
  lt_iff_le_not_ge a b := by
    rw [Int64.lt_iff_le_and_ne]
    constructor
    · rintro ⟨below, differ⟩
      exact ⟨below, fun above => differ (Int64.le_antisymm below above)⟩
    · rintro ⟨below, notAbove⟩
      exact ⟨below, fun same => notAbove (same ▸ Int64.le_refl b)⟩
  toDecidableLE := inferInstance
  toDecidableLT := inferInstance
  toDecidableEq := inferInstance

/-- As `{:?}` prints it. -/
def PageType.debug : PageType → String
  | interiorTable => "InteriorTable"
  | leafTable => "LeafTable"
  | interiorIndex => "InteriorIndex"
  | leafIndex => "LeafIndex"
  | overflow => "Overflow"

/-- A cell of a table leaf. -/
abbrev LeafCell := { cell : Cell // cell.pageType = .leafTable }

namespace LeafCell

def rowid (cell : LeafCell) : Int64 := cell.1.key

def row (rowid : Int64) (payload : List UInt8) : LeafCell := ⟨.tableLeaf rowid payload, rfl⟩

def overflow (rowid : Int64) (total : UInt64) (share : List UInt8) (chain : UInt32) : LeafCell :=
  ⟨.tableLeafOverflow rowid total share chain, rfl⟩

/-- Whether part of the payload is on overflow pages. -/
def spills (cell : LeafCell) : Bool :=
  match cell.1 with
  | .tableLeafOverflow .. => true
  | _ => false

end LeafCell

/-- A page with its cells decoded. -/
inductive TablePage where
  | leaf (cells : List LeafCell)
  | interior (cells : List (Nat × Int64)) (right : Nat)
  | other (kind : PageType)

abbrev TableTree := SearchTree Int64 LeafCell

abbrev TableForest := SearchForest Int64 LeafCell

/-- What a reader sees: `get_page`, and `assemble_overflow_payload`. -/
structure TableStore where
  page : Nat → Except Error TablePage
  assemble : List UInt8 → Nat → Nat → Except Error (List UInt8)

namespace TableStore

def payload (store : TableStore) (cell : LeafCell) : Except Error (List UInt8) :=
  match cell.1 with
  | .tableLeaf _ payload => .ok payload
  | .tableLeafOverflow _ total share overflow =>
    store.assemble share total.toNat overflow.toNat
  | _ => .ok []

mutual

/-- The tree is laid out on the pages of the store. -/
def Laid (store : TableStore) : TableTree → Prop
  | .leaf id entries => store.page id = .ok (.leaf entries)
  | .node id children => store.page id = .ok (.interior children.cells children.right) ∧
      store.LaidForest children

def LaidForest (store : TableStore) : TableForest → Prop
  | .nil => True
  | .last tree => store.Laid tree
  | .cons tree _ rest => store.Laid tree ∧ store.LaidForest rest

end

theorem LaidForest.trees {store : TableStore} : (forest : TableForest) →
    store.LaidForest forest → ∀ tree ∈ forest.trees, store.Laid tree
  | .nil, _ => by simp [SearchForest.trees]
  | .last tree, laid => fun _ member => List.mem_singleton.mp member ▸ laid
  | .cons tree _ rest, laid => by
    intro child member
    rcases List.mem_cons.mp member with rfl | later
    · exact laid.1
    · exact LaidForest.trees rest laid.2 child later

theorem LaidForest.of_trees {store : TableStore} : (forest : TableForest) →
    (∀ tree ∈ forest.trees, store.Laid tree) → store.LaidForest forest
  | .nil, _ => trivial
  | .last tree, laid => laid tree (List.mem_singleton_self _)
  | .cons tree _ rest, laid => ⟨laid tree (List.mem_cons_self ..),
      LaidForest.of_trees rest fun other member => laid other (List.mem_cons_of_mem _ member)⟩

mutual

theorem Laid.congr {store other : TableStore} : (tree : TableTree) → store.Laid tree →
    (∀ id ∈ tree.pages, other.page id = store.page id) → other.Laid tree
  | .leaf id _, laid, same => (same id (List.mem_singleton_self _)).trans laid
  | .node id children, laid, same =>
    ⟨(same id (List.mem_cons_self ..)).trans laid.1, LaidForest.congr children laid.2
      fun page member => same page (List.mem_cons_of_mem _ member)⟩

theorem LaidForest.congr {store other : TableStore} : (forest : TableForest) → store.LaidForest forest →
    (∀ id ∈ forest.pages, other.page id = store.page id) → other.LaidForest forest
  | .nil, _, _ => trivial
  | .last tree, laid, same => Laid.congr tree laid same
  | .cons tree _ rest, laid, same =>
    ⟨Laid.congr tree laid.1 fun page member => same page (List.mem_append_left _ member),
      LaidForest.congr rest laid.2
        fun page member => same page (List.mem_append_right _ member)⟩

end

end TableStore

/-- The state of a walk: the visitor, and the pages read so far. -/
structure Walk (σ : Type) where
  visitor : σ
  reads : List Nat

/-- Why a walk ends without a result; a walk down a cycle of pages would not end. -/
inductive Halt where
  | raised (error : Error)
  | exhausted

abbrev WalkM (σ : Type) := EStateM Halt (Walk σ)

/-- A visitor answers whether it wants to go on. -/
abbrev Visit (σ : Type) := σ → LeafCell → Except Error (σ × Bool)

variable {σ : Type}

/-- The visitor on the cells, up to the first that it stops at. -/
def visitAll (visit : Visit σ) : σ → List LeafCell → Except Error (σ × Bool)
  | state, [] => .ok (state, true)
  | state, cell :: rest => do
    let (state, go) ← visit state cell
    if go then visitAll visit state rest else .ok (state, false)

def visitCells (visit : Visit σ) (cells : List LeafCell) : WalkM σ Bool := fun walk =>
  match visitAll visit walk.visitor cells with
  | .ok (visitor, go) => .ok go ⟨visitor, walk.reads⟩
  | .error error => .error (.raised error) walk

def TableStore.fetch (store : TableStore) (id : Nat) : WalkM σ TablePage := fun walk =>
  match store.page id with
  | .ok page => .ok page ⟨walk.visitor, id :: walk.reads⟩
  | .error error => .error (.raised error) walk

/-- Children in order, until one of them says to stop. -/
def descend (step : Nat → WalkM σ Bool) : List Nat → WalkM σ Bool
  | [] => return true
  | child :: rest => do
    let go ← step child
    if go = true then descend step rest else return false

/-- A walk with the leaf work `leaf` into the children that `children` picks from the cells and
the right-most pointer of an interior page; the first argument bounds the depth. -/
def TableStore.walk (store : TableStore) (name : String) (leaf : List LeafCell → WalkM σ Bool)
    (children : List (Nat × Int64) → Nat → List Nat) : Nat → Nat → WalkM σ Bool
  | 0, _ => throw .exhausted
  | depth + 1, id => do
    let page ← store.fetch id
    match page with
    | .leaf cells => leaf cells
    | .interior cells right => descend (store.walk name leaf children depth) (children cells right)
    | .other kind =>
      throw (.raised (.corruption s!"unexpected page type in {name}: {kind.debug}"))

/-- The cells with a rowid from `start` to `stop`. -/
structure Span where
  start : Option Int64
  stop : Option Int64

namespace Span

def full : Span := ⟨none, none⟩

/-- In front of the span. -/
def before (span : Span) (rowid : Int64) : Bool := span.start.any (rowid < ·)

/-- Behind the span. -/
def past (span : Span) (rowid : Int64) : Bool := span.stop.any (· < rowid)

def contains (span : Span) (rowid : Int64) : Bool := !span.before rowid && !span.past rowid

def cells (span : Span) (cells : List LeafCell) : List LeafCell :=
  cells.filter (fun cell => span.contains cell.rowid)

theorem past_mono {span : Span} {k k' : Int64} (le : k ≤ k') (past : span.past k = true) :
    span.past k' = true := by
  unfold Span.past at past ⊢
  cases found : span.stop with
  | none => simp [found] at past
  | some stop =>
    simp only [found, Option.any_some, decide_eq_true_eq] at past ⊢
    exact lt_of_lt_of_le past le

end Span

theorem visitAll_append (visit : Visit σ) (state : σ) (left right : List LeafCell) :
    visitAll visit state (left ++ right) = (do
      let (state, go) ← visitAll visit state left
      if go then visitAll visit state right else .ok (state, false)) := by
  induction left generalizing state with
  | nil => rfl
  | cons cell rest ih =>
    rw [List.cons_append, visitAll, visitAll]
    cases visited : visit state cell with
    | error error => rfl
    | ok answer =>
      obtain ⟨next, go⟩ := answer
      cases go with
      | true => exact ih next
      | false => rfl

/-- The leaf work visits the cells of the span, and says to stop only when the visitor did or a
cell is behind the span. -/
def LeafSound (span : Span) (visit : Visit σ) (leaf : List LeafCell → WalkM σ Bool) : Prop :=
  ∀ cells : List LeafCell, cells.Pairwise (fun first second => first.rowid < second.rowid) →
    ∀ (walk : Walk σ) visitor go, visitAll visit walk.visitor (span.cells cells) =
      .ok (visitor, go) → Succeeds (leaf cells) walk (fun more after =>
        after = ⟨visitor, walk.reads⟩ ∧ (go = false → more = false) ∧
          (more = false → go = false ∨ ∃ cell ∈ cells, span.past cell.rowid = true))

/-- From an interior page of this shape, the children that are picked are those behind
separators in front of the span, or all. -/
def ChildrenSound (span : Span) (shape : TableForest → Prop)
    (children : List (Nat × Int64) → Nat → List Nat) : Prop :=
  ∃ test : Int64 → Bool, (∀ k k', k ≤ k' → test k' = true → test k = true) ∧
    (∀ k, test k = true → span.contains k = false) ∧
    ∀ (low high : Option Int64) (forest : TableForest), shape forest →
      forest.Ordered LeafCell.rowid low high →
        children forest.cells forest.right = (forest.skip test).trees.map SearchTree.id

/-- What a walk over `entries` on `pages` leaves behind. -/
structure Walked (span : Span) (entries : List LeafCell) (pages : List Nat) (walk : Walk σ)
    (visitor : σ) (go more : Bool) (after : Walk σ) : Prop where
  visitor : after.visitor = visitor
  reads : ∀ id ∈ after.reads, id ∈ walk.reads ∨ id ∈ pages
  stops : go = false → more = false
  because : more = false → go = false ∨ ∃ entry ∈ entries, span.past entry.rowid = true

/-- Behind an entry that is behind the span there is nothing to visit. -/
theorem Span.cells_past {span : Span} {entries : List LeafCell} {entry : LeafCell}
    (past : span.past entry.rowid = true) (behind : ∀ other ∈ entries, entry.rowid < other.rowid) :
    span.cells entries = [] := by
  rw [Span.cells, List.filter_eq_nil_iff]
  intro other member
  rw [Span.contains, Span.past_mono (le_of_lt (behind other member)) past]
  simp

theorem descend_walked {span : Span} {visit : Visit σ} {step : Nat → WalkM σ Bool}
    (trees : List TableTree) (sorted : (trees.flatMap SearchTree.entries).Pairwise
      (fun first second => first.rowid < second.rowid))
    (steps : ∀ tree ∈ trees, ∀ (walk : Walk σ) visitor go,
      visitAll visit walk.visitor (span.cells tree.entries) = .ok (visitor, go) →
        Succeeds (step tree.id) walk (Walked span tree.entries tree.pages walk visitor go))
    (walk : Walk σ) (visitor : σ) (go : Bool)
    (visited : visitAll visit walk.visitor (span.cells (trees.flatMap SearchTree.entries)) =
      .ok (visitor, go)) :
    Succeeds (descend step (trees.map SearchTree.id)) walk
      (Walked span (trees.flatMap SearchTree.entries) (trees.flatMap SearchTree.pages) walk
        visitor go) := by
  induction trees generalizing walk with
  | nil =>
    cases visited
    simp only [List.map_nil, descend, Succeeds.pure_iff]
    exact ⟨rfl, fun id member => Or.inl member, by simp, by simp⟩
  | cons tree rest ih =>
    rw [List.flatMap_cons] at sorted visited
    obtain ⟨-, sortedRest, apart⟩ := List.pairwise_append.mp sorted
    rw [Span.cells, List.filter_append, visitAll_append] at visited
    cases first : visitAll visit walk.visitor (span.cells tree.entries) with
    | error error =>
      rw [Span.cells] at first
      rw [first] at visited
      cases visited
    | ok answer =>
      obtain ⟨middle, goes⟩ := answer
      have step := steps tree (List.mem_cons_self ..) walk middle goes first
      rw [Span.cells] at first
      simp only [first, bind, Except.bind] at visited
      simp only [List.map_cons, descend, List.flatMap_cons, Succeeds.bind_iff, Succeeds.ite_iff,
        Succeeds.pure_iff]
      apply step.mono
      rintro more after ⟨rfl, reads, stops, because⟩
      refine ⟨?_, ?_⟩
      · rintro rfl
        have going : goes = true := by
          cases goes
          · cases stops rfl
          · rfl
        rw [going, if_pos rfl] at visited
        apply (ih sortedRest (fun other member => steps other (List.mem_cons_of_mem _ member)) after
          visited).mono
        rintro more final ⟨reached, later, stopped, reason⟩
        refine ⟨reached, fun id member => ?_, stopped, fun none => ?_⟩
        · rcases later id member with before | inside
          · rcases reads id before with known | here
            · exact Or.inl known
            · exact Or.inr (List.mem_append_left _ here)
          · exact Or.inr (List.mem_append_right _ inside)
        · rcases reason none with left | ⟨entry, member, past⟩
          · exact Or.inl left
          · exact Or.inr ⟨entry, List.mem_append_right _ member, past⟩
      · intro halted
        have ends : more = false := by simpa using halted
        subst ends
        have left (id : Nat) (member : id ∈ after.reads) :
            id ∈ walk.reads ∨ id ∈ tree.pages ++ rest.flatMap SearchTree.pages :=
          (reads id member).imp_right (List.mem_append_left _)
        cases goes with
        | false =>
          simp only [Bool.false_eq_true, if_false, Except.ok.injEq, Prod.mk.injEq] at visited
          obtain ⟨rfl, rfl⟩ := visited
          exact ⟨rfl, left, fun _ => rfl, fun _ => Or.inl rfl⟩
        | true =>
          rcases because rfl with stopped | ⟨entry, member, past⟩
          · cases stopped
          · have none := Span.cells_past past (apart entry member)
            rw [Span.cells] at none
            simp only [if_true, none, visitAll, Except.ok.injEq, Prod.mk.injEq] at visited
            obtain ⟨rfl, rfl⟩ := visited
            exact ⟨rfl, left, by simp, fun _ =>
              Or.inr ⟨entry, List.mem_append_left _ member, past⟩⟩

/-- A walk visits the entries of the span in order, and reads no page outside the tree. -/
theorem TableStore.walk_walked {store : TableStore} {span : Span} {visit : Visit σ} {name : String}
    {leaf : List LeafCell → WalkM σ Bool} {children : List (Nat × Int64) → Nat → List Nat}
    {shape : TableForest → Prop} (leaves : LeafSound span visit leaf)
    (picks : ChildrenSound span shape children) (depth : Nat) (tree : TableTree)
    (laid : store.Laid tree) (every : tree.Every shape) {low high : Option Int64}
    (ordered : tree.Ordered LeafCell.rowid low high) (enough : tree.height < depth)
    (walk : Walk σ) (visitor : σ) (go : Bool)
    (visited : visitAll visit walk.visitor (span.cells tree.entries) = .ok (visitor, go)) :
    Succeeds (store.walk name leaf children depth tree.id) walk
      (Walked span tree.entries tree.pages walk visitor go) := by
  induction depth generalizing tree low high walk visitor go with
  | zero => cases enough
  | succ depth ih =>
    have fetched (page : TablePage) (found : store.page tree.id = .ok page)
        (post : TablePage → Walk σ → Prop) (holds : post page ⟨walk.visitor, tree.id :: walk.reads⟩) :
        Succeeds (store.fetch tree.id) walk post :=
      ⟨page, _, by rw [fetch, found], holds⟩
    rw [TableStore.walk, Succeeds.bind_iff]
    cases tree with
    | leaf id entries =>
      apply fetched _ laid
      apply (leaves entries ordered.1 ⟨walk.visitor, id :: walk.reads⟩ visitor go visited).mono
      rintro more after ⟨rfl, stops, because⟩
      refine ⟨rfl, fun page member => ?_, stops, because⟩
      rcases List.mem_cons.mp member with rfl | old
      · exact Or.inr (List.mem_singleton_self _)
      · exact Or.inl old
    | node id children =>
      obtain ⟨test, front, outside, same⟩ := picks
      apply fetched _ laid.1
      obtain ⟨⟨least, kept⟩, wanted⟩ := SearchForest.Ordered.skip front
        (fun entry (skipped : test (LeafCell.rowid entry) = true) => outside _ skipped) children
        ordered
      have suffix := SearchForest.trees_skip test children
      have sorted := (SearchForest.Ordered.sorted _ kept).1
      simp only [same low high children every.1 ordered]
      rw [SearchForest.entries_eq] at sorted wanted
      have all := visited
      rw [SearchTree.entries, Span.cells, ← wanted] at all
      apply (descend_walked _ sorted (fun child member => ?_) ⟨walk.visitor, id :: walk.reads⟩
        visitor go all).mono
      · rintro more after ⟨reached, reads, stops, because⟩
        refine ⟨reached, fun page member => ?_, stops, fun none => ?_⟩
        · rcases reads page member with old | inside
          · rcases List.mem_cons.mp old with rfl | known
            · exact Or.inr (List.mem_cons_self ..)
            · exact Or.inl known
          · refine Or.inr (List.mem_cons_of_mem _ ?_)
            rw [SearchForest.pages_eq]
            exact (suffix.flatMap SearchTree.pages).subset inside
        · rcases because none with left | ⟨entry, member, past⟩
          · exact Or.inl left
          · refine Or.inr ⟨entry, ?_, past⟩
            rw [SearchTree.entries, SearchForest.entries_eq]
            exact (suffix.flatMap SearchTree.entries).subset member
      · have inside := suffix.subset member
        obtain ⟨_, _, orderedChild⟩ := SearchForest.Ordered.trees children ordered child inside
        have shorter := SearchForest.height_le children child inside
        rw [SearchTree.height] at enough
        exact fun walk visitor go => ih child (LaidForest.trees children laid.2 child inside)
          (SearchForest.Every.trees children every.2 child inside) orderedChild (by omega)
          walk visitor go

end RustSql.Storage
