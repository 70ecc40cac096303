import Mathlib.Order.Lattice
import Mathlib.Data.List.Basic

/-! Search trees on numbered pages. An interior page has a separator behind every child but the
right-most one, at or above all keys of the child; the right-most child may be missing. -/

namespace RustSql.Foundation

mutual

inductive SearchTree (κ α : Type) where
  | leaf (id : Nat) (entries : List α)
  | node (id : Nat) (children : SearchForest κ α)

/-- The children of an interior page. -/
inductive SearchForest (κ α : Type) where
  | nil
  | last (tree : SearchTree κ α)
  | cons (tree : SearchTree κ α) (sep : κ) (rest : SearchForest κ α)

end

variable {κ α : Type}

def SearchTree.id : SearchTree κ α → Nat
  | leaf id _ => id
  | node id _ => id

mutual

/-- The entries in key order. -/
def SearchTree.entries : SearchTree κ α → List α
  | .leaf _ entries => entries
  | .node _ children => children.entries

def SearchForest.entries : SearchForest κ α → List α
  | .nil => []
  | .last tree => tree.entries
  | .cons tree _ rest => tree.entries ++ rest.entries

end

mutual

def SearchTree.pages : SearchTree κ α → List Nat
  | .leaf id _ => [id]
  | .node id children => id :: children.pages

def SearchForest.pages : SearchForest κ α → List Nat
  | .nil => []
  | .last tree => tree.pages
  | .cons tree _ rest => tree.pages ++ rest.pages

end

mutual

def SearchTree.height : SearchTree κ α → Nat
  | .leaf _ _ => 0
  | .node _ children => children.height + 1

/-- The greatest height of a child. -/
def SearchForest.height : SearchForest κ α → Nat
  | .nil => 0
  | .last tree => tree.height
  | .cons tree _ rest => max tree.height rest.height

end

/-- The cells of an interior page: a child and the separator behind it. -/
def SearchForest.cells : SearchForest κ α → List (Nat × κ)
  | .nil => []
  | .last _ => []
  | .cons tree sep rest => (tree.id, sep) :: rest.cells

/-- The right-most pointer; 0 stands for none. -/
def SearchForest.right : SearchForest κ α → Nat
  | .nil => 0
  | .last tree => tree.id
  | .cons _ _ rest => rest.right

def SearchForest.trees : SearchForest κ α → List (SearchTree κ α)
  | .nil => []
  | .last tree => [tree]
  | .cons tree _ rest => tree :: rest.trees

theorem SearchTree.id_mem_pages (tree : SearchTree κ α) : tree.id ∈ tree.pages := by
  cases tree <;> simp [SearchTree.id, SearchTree.pages]

/-- Children have a number other than 0. -/
def SearchForest.Named (forest : SearchForest κ α) : Prop :=
  ∀ tree ∈ forest.trees, tree.id ≠ 0

mutual

/-- Every interior page has the property. -/
def SearchTree.Every (shape : SearchForest κ α → Prop) : SearchTree κ α → Prop
  | .leaf _ _ => True
  | .node _ children => shape children ∧ children.Every shape

def SearchForest.Every (shape : SearchForest κ α → Prop) : SearchForest κ α → Prop
  | .nil => True
  | .last tree => tree.Every shape
  | .cons tree _ rest => tree.Every shape ∧ rest.Every shape

end

theorem SearchForest.Every.trees {shape : SearchForest κ α → Prop} :
    (forest : SearchForest κ α) → forest.Every shape → ∀ tree ∈ forest.trees, tree.Every shape
  | .nil, _ => by simp [SearchForest.trees]
  | .last tree, every => fun _ member => List.mem_singleton.mp member ▸ every
  | .cons tree sep rest, every => by
    intro child member
    rcases List.mem_cons.mp member with rfl | later
    · exact every.1
    · exact SearchForest.Every.trees rest every.2 child later

/-- The children from the first separator on of which the test does not hold. -/
def SearchForest.skip (test : κ → Bool) : SearchForest κ α → SearchForest κ α
  | .nil => .nil
  | .last tree => .last tree
  | .cons tree sep rest => if test sep = true then rest.skip test else .cons tree sep rest

/-- The children up to the first with a separator of which the test holds. -/
def SearchForest.upTo (test : κ → Bool) : SearchForest κ α → List (SearchTree κ α)
  | .nil => []
  | .last tree => [tree]
  | .cons tree sep rest => tree :: if test sep = true then [] else rest.upTo test

section Skip

variable (test : κ → Bool)

theorem SearchForest.cells_skip : (forest : SearchForest κ α) →
    (forest.skip test).cells = forest.cells.dropWhile (fun cell => test cell.2)
  | .nil | .last _ => rfl
  | .cons tree sep rest => by
    rw [skip, cells, List.dropWhile_cons]
    split
    · exact cells_skip rest
    · rfl

theorem SearchForest.right_skip : (forest : SearchForest κ α) →
    (forest.skip test).right = forest.right
  | .nil | .last _ => rfl
  | .cons tree sep rest => by
    rw [skip, right]
    split
    · exact right_skip rest
    · rfl

theorem SearchForest.trees_skip : (forest : SearchForest κ α) →
    (forest.skip test).trees <:+ forest.trees
  | .nil | .last _ => List.suffix_refl _
  | .cons tree sep rest => by
    rw [skip, trees]
    split
    · exact (trees_skip rest).trans (List.suffix_cons tree rest.trees)
    · exact List.suffix_refl _

theorem SearchForest.upTo_trees : (forest : SearchForest κ α) →
    forest.upTo test <+: forest.trees
  | .nil | .last _ => List.prefix_refl _
  | .cons tree sep rest => by
    rw [upTo, trees]
    split
    · exact ⟨rest.trees, rfl⟩
    · exact List.cons_prefix_cons.mpr ⟨rfl, upTo_trees rest⟩

theorem SearchForest.skip_none : (forest : SearchForest κ α) →
    forest.skip (fun _ => false) = forest
  | .nil | .last _ | .cons .. => rfl

end Skip

theorem SearchForest.pages_eq : (forest : SearchForest κ α) →
    forest.pages = forest.trees.flatMap SearchTree.pages
  | .nil => rfl
  | .last tree => by simp [pages, trees]
  | .cons tree sep rest => by simp [pages, trees, pages_eq rest]

theorem SearchForest.entries_eq : (forest : SearchForest κ α) →
    forest.entries = forest.trees.flatMap SearchTree.entries
  | .nil => rfl
  | .last tree => by simp [entries, trees]
  | .cons tree sep rest => by simp [entries, trees, entries_eq rest]

theorem SearchForest.height_le : (forest : SearchForest κ α) →
    ∀ tree ∈ forest.trees, tree.height ≤ forest.height
  | .nil => by simp [trees]
  | .last tree => by simp [trees, height]
  | .cons tree sep rest => by
    intro child member
    rw [height]
    rcases List.mem_cons.mp member with rfl | later
    · exact Nat.le_max_left _ _
    · exact Nat.le_trans (height_le rest child later) (Nat.le_max_right _ _)

theorem SearchForest.Every.of_trees {shape : SearchForest κ α → Prop} :
    (forest : SearchForest κ α) → (∀ tree ∈ forest.trees, tree.Every shape) → forest.Every shape
  | .nil, _ => trivial
  | .last tree, every => every tree (List.mem_singleton_self _)
  | .cons tree _ rest, every => ⟨every tree (List.mem_cons_self ..),
      SearchForest.Every.of_trees rest fun other member =>
        every other (List.mem_cons_of_mem _ member)⟩

theorem SearchForest.height_of_trees {bound : Nat} : (forest : SearchForest κ α) →
    (∀ tree ∈ forest.trees, tree.height ≤ bound) → forest.height ≤ bound
  | .nil, _ => Nat.zero_le _
  | .last tree, below => below tree (List.mem_singleton_self _)
  | .cons tree _ rest, below => Nat.max_le.mpr ⟨below tree (List.mem_cons_self ..),
      height_of_trees rest fun other member => below other (List.mem_cons_of_mem _ member)⟩

/-- The children by their numbers: those with a separator, and the right-most one. -/
theorem SearchForest.ids_eq : (forest : SearchForest κ α) → forest.Named →
    forest.trees.map SearchTree.id =
      forest.cells.map Prod.fst ++ if forest.right = 0 then [] else [forest.right]
  | .nil, _ => rfl
  | .last tree, named => by
    have nonzero := named tree (List.mem_singleton_self _)
    simp [trees, cells, right, nonzero]
  | .cons tree sep rest, named => by
    rw [trees, List.map_cons,
      ids_eq rest fun child member => named child (List.mem_cons_of_mem _ member)]
    rfl

theorem SearchForest.Named.skip {test : κ → Bool} {forest : SearchForest κ α}
    (named : forest.Named) : (forest.skip test).Named :=
  fun tree member => named tree ((SearchForest.trees_skip test forest).subset member)

mutual

def SearchTree.map (f : α → α) : SearchTree κ α → SearchTree κ α
  | .leaf id entries => .leaf id (entries.map f)
  | .node id children => .node id (children.map f)

def SearchForest.map (f : α → α) : SearchForest κ α → SearchForest κ α
  | .nil => .nil
  | .last tree => .last (tree.map f)
  | .cons tree sep rest => .cons (tree.map f) sep (rest.map f)

end

section Map

variable (f : α → α)

theorem SearchTree.id_map (tree : SearchTree κ α) : (tree.map f).id = tree.id := by
  cases tree <;> rfl

theorem SearchForest.cells_map : (forest : SearchForest κ α) →
    (forest.map f).cells = forest.cells
  | .nil | .last _ => rfl
  | .cons tree sep rest => by rw [map, cells, cells, SearchTree.id_map, cells_map rest]

theorem SearchForest.right_map : (forest : SearchForest κ α) →
    (forest.map f).right = forest.right
  | .nil => rfl
  | .last tree => SearchTree.id_map f tree
  | .cons _ _ rest => right_map rest

theorem SearchForest.trees_map : (forest : SearchForest κ α) →
    (forest.map f).trees = forest.trees.map (SearchTree.map f)
  | .nil | .last _ => rfl
  | .cons _ _ rest => by rw [map, trees, trees, List.map_cons, trees_map rest]

mutual

theorem SearchTree.entries_map : (tree : SearchTree κ α) →
    (tree.map f).entries = tree.entries.map f
  | .leaf _ _ => rfl
  | .node _ children => SearchForest.entries_map children

theorem SearchForest.entries_map : (forest : SearchForest κ α) →
    (forest.map f).entries = forest.entries.map f
  | .nil => rfl
  | .last tree => SearchTree.entries_map tree
  | .cons tree _ rest => by
    rw [SearchForest.map, SearchForest.entries, SearchForest.entries, List.map_append,
      SearchTree.entries_map tree, SearchForest.entries_map rest]

end

mutual

theorem SearchTree.pages_map : (tree : SearchTree κ α) → (tree.map f).pages = tree.pages
  | .leaf _ _ => rfl
  | .node _ children => by
    rw [SearchTree.map, SearchTree.pages, SearchTree.pages, SearchForest.pages_map children]

theorem SearchForest.pages_map : (forest : SearchForest κ α) →
    (forest.map f).pages = forest.pages
  | .nil => rfl
  | .last tree => SearchTree.pages_map tree
  | .cons tree _ rest => by
    rw [SearchForest.map, SearchForest.pages, SearchForest.pages, SearchTree.pages_map tree,
      SearchForest.pages_map rest]

end

mutual

theorem SearchTree.height_map : (tree : SearchTree κ α) → (tree.map f).height = tree.height
  | .leaf _ _ => rfl
  | .node _ children => congrArg (· + 1) (SearchForest.height_map children)

theorem SearchForest.height_map : (forest : SearchForest κ α) → (forest.map f).height = forest.height
  | .nil => rfl
  | .last tree => SearchTree.height_map tree
  | .cons tree _ rest => congrArg₂ max (SearchTree.height_map tree) (SearchForest.height_map rest)

end

theorem SearchForest.Named.map {forest : SearchForest κ α} (named : forest.Named) :
    (forest.map f).Named := by
  intro tree member
  rw [SearchForest.trees_map] at member
  obtain ⟨child, inside, rfl⟩ := List.mem_map.mp member
  rw [SearchTree.id_map]
  exact named child inside

mutual

theorem SearchTree.Every.map {shape : SearchForest κ α → Prop}
    (kept : ∀ forest, shape forest → shape (forest.map f)) : (tree : SearchTree κ α) →
      tree.Every shape → (tree.map f).Every shape
  | .leaf _ _, _ => trivial
  | .node _ children, every => ⟨kept children every.1, SearchForest.Every.map kept children every.2⟩

theorem SearchForest.Every.map {shape : SearchForest κ α → Prop}
    (kept : ∀ forest, shape forest → shape (forest.map f)) : (forest : SearchForest κ α) →
      forest.Every shape → (forest.map f).Every shape
  | .nil, _ => trivial
  | .last tree, every => SearchTree.Every.map kept tree every
  | .cons tree _ rest, every =>
    ⟨SearchTree.Every.map kept tree every.1, SearchForest.Every.map kept rest every.2⟩

end

end Map

section Order

variable [LinearOrder κ] (key : α → κ)

/-- Above the lower bound, and at most the upper one; a bound may be missing. -/
def Within (low high : Option κ) (k : κ) : Prop :=
  (∀ least ∈ low, least < k) ∧ ∀ most ∈ high, k ≤ most

mutual

/-- The search-tree invariant between two bounds. -/
def SearchTree.Ordered (low high : Option κ) : SearchTree κ α → Prop
  | .leaf _ entries => entries.Pairwise (fun first second => key first < key second) ∧
      ∀ entry ∈ entries, Within low high (key entry)
  | .node _ children => children.Ordered low high

def SearchForest.Ordered (low high : Option κ) : SearchForest κ α → Prop
  | .nil => True
  | .last tree => tree.Ordered low high
  | .cons tree sep rest => Within low high sep ∧ tree.Ordered low (some sep) ∧
      rest.Ordered (some sep) high

end

variable {key} {low high : Option κ}

theorem Within.of_low {sep k : κ} (bound : Within low high sep) (inside : Within (some sep) high k) :
    Within low high k :=
  ⟨fun least found => lt_trans (bound.1 least found) (inside.1 sep rfl), inside.2⟩

theorem Within.of_high {sep k : κ} (bound : Within low high sep) (inside : Within low (some sep) k) :
    Within low high k :=
  ⟨inside.1, fun most found => le_trans (inside.2 sep rfl) (bound.2 most found)⟩

mutual

/-- The entries of a search tree are sorted and keep to its bounds. -/
theorem SearchTree.Ordered.sorted {low high : Option κ} : (tree : SearchTree κ α) →
    tree.Ordered key low high →
      tree.entries.Pairwise (fun first second => key first < key second) ∧
        ∀ entry ∈ tree.entries, Within low high (key entry)
  | .leaf _ _, ordered => ordered
  | .node _ children, ordered => SearchForest.Ordered.sorted children ordered

theorem SearchForest.Ordered.sorted {low high : Option κ} : (forest : SearchForest κ α) →
    forest.Ordered key low high →
      forest.entries.Pairwise (fun first second => key first < key second) ∧
        ∀ entry ∈ forest.entries, Within low high (key entry)
  | .nil, _ => by simp [SearchForest.entries]
  | .last tree, ordered => SearchTree.Ordered.sorted tree ordered
  | .cons tree sep rest, ordered => by
    obtain ⟨bound, before, behind⟩ := ordered
    obtain ⟨sortedTree, insideTree⟩ := SearchTree.Ordered.sorted tree before
    obtain ⟨sortedRest, insideRest⟩ := SearchForest.Ordered.sorted rest behind
    refine ⟨List.pairwise_append.mpr ⟨sortedTree, sortedRest, ?_⟩, ?_⟩
    · intro first member second member'
      exact lt_of_le_of_lt ((insideTree first member).2 sep rfl)
        ((insideRest second member').1 sep rfl)
    · intro entry member
      rcases List.mem_append.mp member with left | right
      · exact bound.of_high (insideTree entry left)
      · exact bound.of_low (insideRest entry right)

end

/-- The separators of an interior page are sorted and keep to its bounds. -/
theorem SearchForest.Ordered.cells_sorted {low high : Option κ} : (forest : SearchForest κ α) →
    forest.Ordered key low high →
      forest.cells.Pairwise (fun first second => first.2 < second.2) ∧
        ∀ cell ∈ forest.cells, Within low high cell.2
  | .nil, _ | .last _, _ => by simp [SearchForest.cells]
  | .cons tree sep rest, ordered => by
    obtain ⟨bound, -, behind⟩ := ordered
    obtain ⟨sorted, inside⟩ := SearchForest.Ordered.cells_sorted rest behind
    simp only [SearchForest.cells, List.pairwise_cons, List.mem_cons]
    refine ⟨⟨fun cell member => (inside cell member).1 sep rfl, sorted⟩, ?_⟩
    rintro cell (rfl | member)
    · exact bound
    · exact bound.of_low (inside cell member)

theorem SearchForest.Ordered.trees {low high : Option κ} : (forest : SearchForest κ α) →
    forest.Ordered key low high →
      ∀ tree ∈ forest.trees, ∃ least most, tree.Ordered key least most
  | .nil, _ => by simp [SearchForest.trees]
  | .last tree, ordered => by
    intro child member
    rw [List.mem_singleton.mp member]
    exact ⟨low, high, ordered⟩
  | .cons tree sep rest, ordered => by
    intro child member
    rcases List.mem_cons.mp member with rfl | later
    · exact ⟨low, some sep, ordered.2.1⟩
    · exact SearchForest.Ordered.trees rest ordered.2.2 child later

mutual

theorem SearchTree.Ordered.map {f : α → α} (kept : ∀ entry, key (f entry) = key entry)
    {low high : Option κ} : (tree : SearchTree κ α) → tree.Ordered key low high →
      (tree.map f).Ordered key low high
  | .leaf _ entries, ordered => by
    refine ⟨?_, ?_⟩
    · rw [List.pairwise_map]
      exact ordered.1.imp fun before => by rwa [kept, kept]
    · intro entry member
      obtain ⟨old, inside, rfl⟩ := List.mem_map.mp member
      rw [kept]
      exact ordered.2 old inside
  | .node _ children, ordered => SearchForest.Ordered.map kept children ordered

theorem SearchForest.Ordered.map {f : α → α} (kept : ∀ entry, key (f entry) = key entry)
    {low high : Option κ} : (forest : SearchForest κ α) → forest.Ordered key low high →
      (forest.map f).Ordered key low high
  | .nil, _ => trivial
  | .last tree, ordered => SearchTree.Ordered.map kept tree ordered
  | .cons tree _ rest, ordered =>
    ⟨ordered.1, SearchTree.Ordered.map kept tree ordered.2.1,
      SearchForest.Ordered.map kept rest ordered.2.2⟩

end

/-- Skipped children have no entry that is asked for. -/
theorem SearchForest.Ordered.skip {test : κ → Bool}
    (front : ∀ k k', k ≤ k' → test k' = true → test k = true) {wanted : α → Bool}
    (unwanted : ∀ entry, test (key entry) = true → wanted entry = false) {low high : Option κ} :
    (forest : SearchForest κ α) → forest.Ordered key low high →
      (∃ least, (forest.skip test).Ordered key least high) ∧
        (forest.skip test).entries.filter wanted = forest.entries.filter wanted
  | .nil, ordered | .last _, ordered => ⟨⟨low, ordered⟩, rfl⟩
  | .cons tree sep rest, ordered => by
    rw [SearchForest.skip]
    split
    · next skipped =>
      obtain ⟨bounded, same⟩ := SearchForest.Ordered.skip front unwanted rest ordered.2.2
      have inside := (SearchTree.Ordered.sorted tree ordered.2.1).2
      have none : tree.entries.filter wanted = [] := by
        rw [List.filter_eq_nil_iff]
        intro entry member
        rw [unwanted entry (front _ _ ((inside entry member).2 sep rfl) skipped)]
        simp
      refine ⟨bounded, ?_⟩
      rw [same, SearchForest.entries, List.filter_append, none, List.nil_append]
    · exact ⟨⟨low, ordered⟩, rfl⟩

/-- Children that are left out behind have no entry that is asked for. -/
theorem SearchForest.Ordered.upTo {test : κ → Bool} {wanted : α → Bool}
    (unwanted : ∀ entry sep, test sep = true → sep < key entry → wanted entry = false)
    {low high : Option κ} : (forest : SearchForest κ α) → forest.Ordered key low high →
      ((forest.upTo test).flatMap SearchTree.entries).filter wanted =
        forest.entries.filter wanted
  | .nil, _ => rfl
  | .last tree, _ => by simp [SearchForest.upTo, SearchForest.entries]
  | .cons tree sep rest, ordered => by
    rw [SearchForest.upTo, SearchForest.entries, List.flatMap_cons, List.filter_append,
      List.filter_append]
    split
    · next reached =>
      have inside := (SearchForest.Ordered.sorted rest ordered.2.2).2
      have none : rest.entries.filter wanted = [] := by
        rw [List.filter_eq_nil_iff]
        intro entry member
        rw [unwanted entry sep reached ((inside entry member).1 sep rfl)]
        simp
      rw [none]
      rfl
    · rw [SearchForest.Ordered.upTo unwanted rest ordered.2.2]

end Order

end RustSql.Foundation
