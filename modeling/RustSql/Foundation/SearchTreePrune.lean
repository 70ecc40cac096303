import RustSql.Foundation.SearchTree
import Mathlib.Data.List.Flatten

/-! Changes of a search tree at the leaf that a key belongs to: other entries in it, or the tree
without it. -/

namespace RustSql.Foundation

variable {κ α : Type} [LinearOrder κ]

/-- The interior pages above a leaf, the lowest first, its number and its entries. -/
structure LeafPlace (α : Type) where
  path : List Nat
  id : Nat
  entries : List α

mutual

def SearchTree.leafAt (k : κ) : SearchTree κ α → Option (LeafPlace α)
  | .leaf id entries => some ⟨[], id, entries⟩
  | .node id children => (children.leafAt k).map fun place =>
    ⟨place.path ++ [id], place.id, place.entries⟩

def SearchForest.leafAt (k : κ) : SearchForest κ α → Option (LeafPlace α)
  | .nil => none
  | .last tree => tree.leafAt k
  | .cons tree sep rest => if k ≤ sep then tree.leafAt k else rest.leafAt k

end

/-- The child that a key belongs to. -/
def SearchForest.childAt (k : κ) : SearchForest κ α → Option (SearchTree κ α)
  | .nil => none
  | .last tree => some tree
  | .cons tree sep rest => if k ≤ sep then some tree else rest.childAt k

theorem SearchForest.childAt_mem {k : κ} {child : SearchTree κ α} :
    (forest : SearchForest κ α) → forest.childAt k = some child → child ∈ forest.trees
  | .nil, found => by cases found
  | .last tree, found => by
    cases found
    exact List.mem_singleton_self _
  | .cons tree sep rest, found => by
    rw [childAt] at found
    split at found
    · cases found
      exact List.mem_cons_self ..
    · exact List.mem_cons_of_mem _ (childAt_mem rest found)

theorem SearchForest.leafAt_eq {k : κ} : (forest : SearchForest κ α) →
    forest.leafAt k = (forest.childAt k).bind (SearchTree.leafAt k) := by
  intro forest
  cases forest with
  | nil | last => rfl
  | cons tree sep rest =>
    rw [leafAt, childAt]
    split
    · rfl
    · exact leafAt_eq rest

mutual

/-- The tree with other entries in the leaf of a key. -/
def SearchTree.edit (k : κ) (f : List α → List α) : SearchTree κ α → SearchTree κ α
  | .leaf id entries => .leaf id (f entries)
  | .node id children => .node id (children.edit k f)

def SearchForest.edit (k : κ) (f : List α → List α) : SearchForest κ α → SearchForest κ α
  | .nil => .nil
  | .last tree => .last (tree.edit k f)
  | .cons tree sep rest =>
    if k ≤ sep then .cons (tree.edit k f) sep rest else .cons tree sep (rest.edit k f)

end

section Edit

variable {k : κ} {f : List α → List α}

theorem SearchTree.id_edit (tree : SearchTree κ α) : (tree.edit k f).id = tree.id := by
  cases tree <;> rfl

theorem SearchForest.cells_edit : (forest : SearchForest κ α) →
    (forest.edit k f).cells = forest.cells := by
  intro forest
  cases forest with
  | nil | last => rfl
  | cons tree sep rest =>
    rw [edit]
    split
    · rw [cells, cells, SearchTree.id_edit]
    · rw [cells, cells, cells_edit rest]

theorem SearchForest.right_edit : (forest : SearchForest κ α) →
    (forest.edit k f).right = forest.right := by
  intro forest
  cases forest with
  | nil => rfl
  | last tree => exact SearchTree.id_edit tree
  | cons tree sep rest =>
    rw [edit]
    split
    · rfl
    · exact right_edit rest

mutual

theorem SearchTree.pages_edit : (tree : SearchTree κ α) → (tree.edit k f).pages = tree.pages
  | .leaf _ _ => rfl
  | .node _ children => by
    rw [SearchTree.edit, SearchTree.pages, SearchTree.pages, SearchForest.pages_edit children]

theorem SearchForest.pages_edit : (forest : SearchForest κ α) →
    (forest.edit k f).pages = forest.pages
  | .nil => rfl
  | .last tree => SearchTree.pages_edit tree
  | .cons tree sep rest => by
    rw [SearchForest.edit]
    split
    · rw [SearchForest.pages, SearchForest.pages, SearchTree.pages_edit tree]
    · rw [SearchForest.pages, SearchForest.pages, SearchForest.pages_edit rest]

end

mutual

theorem SearchTree.height_edit : (tree : SearchTree κ α) → (tree.edit k f).height = tree.height
  | .leaf _ _ => rfl
  | .node _ children => by
    rw [SearchTree.edit, SearchTree.height, SearchTree.height, SearchForest.height_edit children]

theorem SearchForest.height_edit : (forest : SearchForest κ α) →
    (forest.edit k f).height = forest.height
  | .nil => rfl
  | .last tree => SearchTree.height_edit tree
  | .cons tree sep rest => by
    rw [SearchForest.edit]
    split
    · rw [SearchForest.height, SearchForest.height, SearchTree.height_edit tree]
    · rw [SearchForest.height, SearchForest.height, SearchForest.height_edit rest]

end

mutual

theorem SearchTree.leafAt_edit : (tree : SearchTree κ α) → {place : LeafPlace α} →
    tree.leafAt k = some place →
      (tree.edit k f).leafAt k = some ⟨place.path, place.id, f place.entries⟩
  | .leaf _ _, place, found => by
    cases found
    rfl
  | .node id children, place, found => by
    rw [SearchTree.leafAt, Option.map_eq_some_iff] at found
    obtain ⟨below, inside, rfl⟩ := found
    rw [SearchTree.edit, SearchTree.leafAt, SearchForest.leafAt_edit children inside]
    rfl

theorem SearchForest.leafAt_edit : (forest : SearchForest κ α) → {place : LeafPlace α} →
    forest.leafAt k = some place →
      (forest.edit k f).leafAt k = some ⟨place.path, place.id, f place.entries⟩
  | .nil, _, found => by cases found
  | .last tree, _, found => SearchTree.leafAt_edit tree found
  | .cons tree sep rest, _, found => by
    rw [SearchForest.leafAt] at found
    rw [SearchForest.edit]
    by_cases inside : k ≤ sep
    · rw [if_pos inside] at found
      rw [if_pos inside, SearchForest.leafAt, if_pos inside]
      exact SearchTree.leafAt_edit tree found
    · rw [if_neg inside] at found
      rw [if_neg inside, SearchForest.leafAt, if_neg inside]
      exact SearchForest.leafAt_edit rest found

end

theorem SearchForest.trees_edit : (forest : SearchForest κ α) →
    (forest.edit k f).trees.map SearchTree.id = forest.trees.map SearchTree.id
  | .nil => rfl
  | .last tree => by rw [edit, trees, trees, List.map_singleton, List.map_singleton,
      SearchTree.id_edit]
  | .cons tree sep rest => by
    rw [edit]
    split
    · rw [trees, trees, List.map_cons, List.map_cons, SearchTree.id_edit]
    · rw [trees, trees, List.map_cons, List.map_cons, trees_edit rest]

/-- A change of entries within their bounds keeps the search-tree invariant. -/
theorem SearchForest.Named.edit {forest : SearchForest κ α} (named : forest.Named) :
    (forest.edit k f).Named := by
  intro tree member
  have inside := List.mem_map_of_mem (f := SearchTree.id) member
  rw [SearchForest.trees_edit] at inside
  obtain ⟨child, member', same⟩ := List.mem_map.mp inside
  rw [← same]
  exact named child member'

end Edit

section Filter

variable {key : α → κ} {k : κ}

mutual

theorem SearchTree.leafAt_entries : (tree : SearchTree κ α) → {place : LeafPlace α} →
    tree.leafAt k = some place → ∀ entry ∈ place.entries, entry ∈ tree.entries
  | .leaf _ _, _, found => by
    cases found
    exact fun _ member => member
  | .node _ children, _, found => by
    rw [SearchTree.leafAt, Option.map_eq_some_iff] at found
    obtain ⟨below, inside, rfl⟩ := found
    have all := SearchForest.leafAt_entries children inside
    exact all

theorem SearchForest.leafAt_entries : (forest : SearchForest κ α) → {place : LeafPlace α} →
    forest.leafAt k = some place → ∀ entry ∈ place.entries, entry ∈ forest.entries
  | .nil, _, found => by cases found
  | .last tree, _, found => SearchTree.leafAt_entries tree found
  | .cons tree sep rest, _, found => by
    rw [SearchForest.leafAt] at found
    intro entry member
    rw [SearchForest.entries, List.mem_append]
    split at found
    · exact Or.inl (SearchTree.leafAt_entries tree found entry member)
    · exact Or.inr (SearchForest.leafAt_entries rest found entry member)

end

mutual

/-- A key that is there is in its leaf. -/
theorem SearchTree.leafAt_of_mem {low high : Option κ} {entry : α} : (tree : SearchTree κ α) →
    tree.Ordered key low high → entry ∈ tree.entries →
      ∃ place, tree.leafAt (key entry) = some place ∧ entry ∈ place.entries
  | .leaf id entries, _, member => ⟨⟨[], id, entries⟩, rfl, member⟩
  | .node id children, ordered, member => by
    obtain ⟨place, found, inside⟩ := SearchForest.leafAt_of_mem children ordered member
    exact ⟨⟨place.path ++ [id], place.id, place.entries⟩, by rw [SearchTree.leafAt, found]; rfl,
      inside⟩

theorem SearchForest.leafAt_of_mem {low high : Option κ} {entry : α} :
    (forest : SearchForest κ α) → forest.Ordered key low high → entry ∈ forest.entries →
      ∃ place, forest.leafAt (key entry) = some place ∧ entry ∈ place.entries
  | .nil, _, member => by cases member
  | .last tree, ordered, member => SearchTree.leafAt_of_mem tree ordered member
  | .cons tree sep rest, ordered, member => by
    rw [SearchForest.leafAt]
    rcases List.mem_append.mp member with here | there
    · have below := ((SearchTree.Ordered.sorted tree ordered.2.1).2 entry here).2 sep rfl
      rw [if_pos below]
      exact SearchTree.leafAt_of_mem tree ordered.2.1 here
    · have above := ((SearchForest.Ordered.sorted rest ordered.2.2).2 entry there).1 sep rfl
      rw [if_neg (not_le.mpr above)]
      exact SearchForest.leafAt_of_mem rest ordered.2.2 there

end

mutual

theorem SearchTree.leafAt_sorted {low high : Option κ} : (tree : SearchTree κ α) →
    {place : LeafPlace α} → tree.Ordered key low high → tree.leafAt k = some place →
      place.entries.Pairwise (fun first second => key first < key second)
  | .leaf _ _, _, ordered, found => by
    cases found
    exact ordered.1
  | .node _ children, _, ordered, found => by
    rw [SearchTree.leafAt, Option.map_eq_some_iff] at found
    obtain ⟨below, inside, rfl⟩ := found
    have sorted := SearchForest.leafAt_sorted children ordered inside
    exact sorted

theorem SearchForest.leafAt_sorted {low high : Option κ} : (forest : SearchForest κ α) →
    {place : LeafPlace α} → forest.Ordered key low high → forest.leafAt k = some place →
      place.entries.Pairwise (fun first second => key first < key second)
  | .nil, _, _, found => by cases found
  | .last tree, _, ordered, found => SearchTree.leafAt_sorted tree ordered found
  | .cons tree sep rest, _, ordered, found => by
    rw [SearchForest.leafAt] at found
    split at found
    · exact SearchTree.leafAt_sorted tree ordered.2.1 found
    · exact SearchForest.leafAt_sorted rest ordered.2.2 found

end

mutual

/-- Keys up to one of a leaf belong to it too. -/
theorem SearchTree.leafAt_between {low high : Option κ} {k' : κ} {entry : α} :
    (tree : SearchTree κ α) → {place : LeafPlace α} → tree.Ordered key low high →
      tree.leafAt k = some place → entry ∈ place.entries → k ≤ k' → k' ≤ key entry →
        tree.leafAt k' = some place
  | .leaf _ _, _, _, found, _, _, _ => found
  | .node id children, place, ordered, found, member, le, le' => by
    rw [SearchTree.leafAt, Option.map_eq_some_iff] at found
    obtain ⟨below, inside, rfl⟩ := found
    rw [SearchTree.leafAt, SearchForest.leafAt_between children ordered inside member le le']
    rfl

theorem SearchForest.leafAt_between {low high : Option κ} {k' : κ} {entry : α} :
    (forest : SearchForest κ α) → {place : LeafPlace α} → forest.Ordered key low high →
      forest.leafAt k = some place → entry ∈ place.entries → k ≤ k' → k' ≤ key entry →
        forest.leafAt k' = some place
  | .nil, _, _, found, _, _, _ => by cases found
  | .last tree, _, ordered, found, member, le, le' =>
    SearchTree.leafAt_between tree ordered found member le le'
  | .cons tree sep rest, place, ordered, found, member, le, le' => by
    rw [SearchForest.leafAt] at found ⊢
    by_cases inside : k ≤ sep
    · rw [if_pos inside] at found
      have below := ((SearchTree.Ordered.sorted tree ordered.2.1).2 entry
        (SearchTree.leafAt_entries tree found entry member)).2 sep rfl
      rw [if_pos (le_trans le' below)]
      exact SearchTree.leafAt_between tree ordered.2.1 found member le le'
    · rw [if_neg inside] at found
      rw [if_neg fun above => inside (le_trans le above)]
      exact SearchForest.leafAt_between rest ordered.2.2 found member le le'

end

/-- The entries that go are from the key up to one of its leaf. -/
def Near (key : α → κ) (k : κ) (place : LeafPlace α) (stays : α → Bool) : Prop :=
  ∀ entry, stays entry = false → k ≤ key entry ∧ ∃ most ∈ place.entries, key entry ≤ key most

mutual

theorem SearchTree.entries_edit {stays : α → Bool} {low high : Option κ} :
    (tree : SearchTree κ α) → {place : LeafPlace α} → tree.Ordered key low high →
      tree.leafAt k = some place → Near key k place stays →
        (tree.edit k (List.filter stays)).entries = tree.entries.filter stays
  | .leaf _ _, _, _, _, _ => rfl
  | .node id children, place, ordered, found, near => by
    rw [SearchTree.leafAt, Option.map_eq_some_iff] at found
    obtain ⟨below, inside, rfl⟩ := found
    exact SearchForest.entries_edit children ordered inside near

theorem SearchForest.entries_edit {stays : α → Bool} {low high : Option κ} :
    (forest : SearchForest κ α) → {place : LeafPlace α} → forest.Ordered key low high →
      forest.leafAt k = some place → Near key k place stays →
        (forest.edit k (List.filter stays)).entries = forest.entries.filter stays
  | .nil, _, _, _, _ => rfl
  | .last tree, _, ordered, found, near => SearchTree.entries_edit tree ordered found near
  | .cons tree sep rest, place, ordered, found, near => by
    have left := (SearchTree.Ordered.sorted tree ordered.2.1).2
    have right := (SearchForest.Ordered.sorted rest ordered.2.2).2
    rw [SearchForest.leafAt] at found
    rw [SearchForest.edit, SearchForest.entries, List.filter_append]
    by_cases inside : k ≤ sep
    · rw [if_pos inside] at found
      have all : rest.entries.filter stays = rest.entries := by
        rw [List.filter_eq_self]
        intro entry member
        by_contra goes
        obtain ⟨-, most, listed, le⟩ := near entry (by simpa using goes)
        have below := (left most (SearchTree.leafAt_entries tree found most listed)).2 sep rfl
        exact absurd (le_trans le below) (not_le.mpr ((right entry member).1 sep rfl))
      rw [if_pos inside, SearchForest.entries, all,
        SearchTree.entries_edit tree ordered.2.1 found near]
    · rw [if_neg inside] at found
      have all : tree.entries.filter stays = tree.entries := by
        rw [List.filter_eq_self]
        intro entry member
        by_contra goes
        obtain ⟨le, -⟩ := near entry (by simpa using goes)
        exact inside (le_trans le ((left entry member).2 sep rfl))
      rw [if_neg inside, SearchForest.entries, all,
        SearchForest.entries_edit rest ordered.2.2 found near]

end

mutual

theorem SearchTree.Ordered.edit {f : List α → List α} (fewer : ∀ entries, (f entries).Sublist entries)
    {low high : Option κ} : (tree : SearchTree κ α) → tree.Ordered key low high →
      (tree.edit k f).Ordered key low high
  | .leaf _ entries, ordered => ⟨ordered.1.sublist (fewer entries),
      fun entry member => ordered.2 entry ((fewer entries).subset member)⟩
  | .node _ children, ordered => SearchForest.Ordered.edit fewer children ordered

theorem SearchForest.Ordered.edit {f : List α → List α}
    (fewer : ∀ entries, (f entries).Sublist entries) {low high : Option κ} :
    (forest : SearchForest κ α) → forest.Ordered key low high →
      (forest.edit k f).Ordered key low high
  | .nil, _ => trivial
  | .last tree, ordered => SearchTree.Ordered.edit fewer tree ordered
  | .cons tree sep rest, ordered => by
    rw [SearchForest.edit]
    split
    · exact ⟨ordered.1, SearchTree.Ordered.edit fewer tree ordered.2.1, ordered.2.2⟩
    · exact ⟨ordered.1, ordered.2.1, SearchForest.Ordered.edit fewer rest ordered.2.2⟩

end

mutual

theorem SearchTree.Every.edit {f : List α → List α} : (tree : SearchTree κ α) →
    tree.Every SearchForest.Named → (tree.edit k f).Every SearchForest.Named
  | .leaf _ _, _ => trivial
  | .node _ children, every => ⟨SearchForest.Named.edit every.1,
      SearchForest.Every.edit children every.2⟩

theorem SearchForest.Every.edit {f : List α → List α} : (forest : SearchForest κ α) →
    forest.Every SearchForest.Named → (forest.edit k f).Every SearchForest.Named
  | .nil, _ => trivial
  | .last tree, every => SearchTree.Every.edit tree every
  | .cons tree sep rest, every => by
    rw [SearchForest.edit]
    split
    · exact ⟨SearchTree.Every.edit tree every.1, every.2⟩
    · exact ⟨every.1, SearchForest.Every.edit rest every.2⟩

end

end Filter

section Bounds

variable {key : α → κ} {low high : Option κ}

theorem Within.widen {low' high' : Option κ} {k : κ} (inside : Within low high k)
    (lower : ∀ least ∈ low', ∃ bound ∈ low, least ≤ bound)
    (higher : ∀ most ∈ high', ∃ bound ∈ high, bound ≤ most) : Within low' high' k := by
  refine ⟨fun least found => ?_, fun most found => ?_⟩
  · obtain ⟨bound, there, le⟩ := lower least found
    exact lt_of_le_of_lt le (inside.1 bound there)
  · obtain ⟨bound, there, le⟩ := higher most found
    exact le_trans (inside.2 bound there) le

mutual

theorem SearchTree.Ordered.widen {low high low' high' : Option κ} : (tree : SearchTree κ α) →
    tree.Ordered key low high → (∀ least ∈ low', ∃ bound ∈ low, least ≤ bound) →
      (∀ most ∈ high', ∃ bound ∈ high, bound ≤ most) → tree.Ordered key low' high'
  | .leaf _ _, ordered, lower, higher =>
    ⟨ordered.1, fun entry member => (ordered.2 entry member).widen lower higher⟩
  | .node _ children, ordered, lower, higher =>
    SearchForest.Ordered.widen children ordered lower higher

theorem SearchForest.Ordered.widen {low high low' high' : Option κ} :
    (forest : SearchForest κ α) → forest.Ordered key low high →
      (∀ least ∈ low', ∃ bound ∈ low, least ≤ bound) →
        (∀ most ∈ high', ∃ bound ∈ high, bound ≤ most) → forest.Ordered key low' high'
  | .nil, _, _, _ => trivial
  | .last tree, ordered, lower, higher => SearchTree.Ordered.widen tree ordered lower higher
  | .cons tree _ rest, ordered, lower, higher =>
    ⟨ordered.1.widen lower higher,
      SearchTree.Ordered.widen tree ordered.2.1 lower fun most found => ⟨most, found, le_refl _⟩,
      SearchForest.Ordered.widen rest ordered.2.2 (fun least found => ⟨least, found, le_refl _⟩)
        higher⟩

end

end Bounds

/-- The forest with another child for the key. -/
def SearchForest.replaceAt (k : κ) (child : SearchTree κ α) : SearchForest κ α → SearchForest κ α
  | .nil => .nil
  | .last _ => .last child
  | .cons tree sep rest =>
    if k ≤ sep then .cons child sep rest else .cons tree sep (rest.replaceAt k child)

/-- A child in front of others that have changed. Without a right-most one it takes its place. -/
def SearchForest.consAfter (tree : SearchTree κ α) (sep : κ) (before after : SearchForest κ α) :
    SearchForest κ α :=
  match before, after with
  | .last _, .nil => .last tree
  | _, after => .cons tree sep after

/-- The forest without the child of the key. -/
def SearchForest.removeAt (k : κ) : SearchForest κ α → SearchForest κ α
  | .nil => .nil
  | .last _ => .nil
  | .cons tree sep rest =>
    if k ≤ sep then rest else SearchForest.consAfter tree sep rest (rest.removeAt k)

mutual

/-- The tree without the leaf of a key, and without the interior pages that it leaves childless. -/
def SearchTree.prune (k : κ) : SearchTree κ α → Option (SearchTree κ α)
  | .leaf _ _ => none
  | .node id children =>
    match children.prune k with
    | .nil => none
    | rest => some (.node id rest)

def SearchForest.prune (k : κ) : SearchForest κ α → SearchForest κ α
  | .nil => .nil
  | .last tree =>
    match tree.prune k with
    | none => .nil
    | some tree => .last tree
  | .cons tree sep rest =>
    if k ≤ sep then
      match tree.prune k with
      | none => rest
      | some tree => .cons tree sep rest
    else SearchForest.consAfter tree sep rest (rest.prune k)

end

section Child

variable {k : κ} {child : SearchTree κ α}

/-- Pruning is pruning in the child of the key. -/
theorem SearchForest.prune_eq : (forest : SearchForest κ α) → forest.childAt k = some child →
    forest.prune k = match child.prune k with
      | none => forest.removeAt k
      | some pruned => forest.replaceAt k pruned
  | .nil, found => by cases found
  | .last tree, found => by
    cases found
    rfl
  | .cons tree sep rest, found => by
    rw [childAt] at found
    rw [prune, removeAt]
    by_cases inside : k ≤ sep
    · rw [if_pos inside] at found
      cases found
      simp only [if_pos inside, replaceAt]
    · rw [if_neg inside] at found
      rw [if_neg inside, if_neg inside, prune_eq rest found]
      cases pruned : child.prune k with
      | some tree =>
        simp only [replaceAt, if_neg inside]
        cases rest <;> rfl
      | none =>
        cases rest with
        | nil => cases found
        | last only => rfl
        | cons first next later => rfl

/-- The child of the key among the others, and what becomes of it. -/
theorem SearchForest.childAt_split : (forest : SearchForest κ α) →
    forest.childAt k = some child → ∃ front back, forest.trees = front ++ child :: back ∧
      (forest.removeAt k).trees = front ++ back ∧
        ∀ other, (forest.replaceAt k other).trees = front ++ other :: back
  | .nil, found => by cases found
  | .last tree, found => by
    cases found
    exact ⟨[], [], rfl, rfl, fun _ => rfl⟩
  | .cons tree sep rest, found => by
    rw [childAt] at found
    by_cases inside : k ≤ sep
    · rw [if_pos inside] at found
      cases found
      refine ⟨[], rest.trees, rfl, by rw [removeAt, if_pos inside]; rfl, fun other => ?_⟩
      rw [replaceAt, if_pos inside]
      rfl
    · rw [if_neg inside] at found
      obtain ⟨front, back, all, removed, replaced⟩ := childAt_split rest found
      refine ⟨tree :: front, back, by rw [trees, all]; rfl, ?_, fun other => ?_⟩
      · rw [removeAt, if_neg inside]
        cases rest with
        | nil => cases found
        | last only =>
          cases found
          have none := List.append_eq_nil_iff.mp removed.symm
          rw [none.1, none.2]
          rfl
        | cons first next later =>
          show tree :: _ = _
          rw [removed]
          rfl
      · rw [replaceAt, if_neg inside, trees, replaced]
        rfl

theorem SearchForest.cells_replaceAt (other : SearchTree κ α) (same : other.id = child.id) :
    (forest : SearchForest κ α) → forest.childAt k = some child →
      (forest.replaceAt k other).cells = forest.cells ∧
        (forest.replaceAt k other).right = forest.right
  | .nil, found => by cases found
  | .last tree, found => by
    cases found
    exact ⟨rfl, same⟩
  | .cons tree sep rest, found => by
    rw [childAt] at found
    rw [replaceAt]
    by_cases inside : k ≤ sep
    · rw [if_pos inside] at found
      cases found
      rw [if_pos inside, cells, cells, same]
      exact ⟨rfl, rfl⟩
    · rw [if_neg inside] at found
      obtain ⟨cells, right⟩ := cells_replaceAt other same rest found
      rw [if_neg inside, SearchForest.cells, SearchForest.cells, cells]
      exact ⟨rfl, right⟩

/-- The bounds of the child of the key; the forest keeps its own with another child in them, and
without the child. -/
theorem SearchForest.Ordered.childAt {key : α → κ} {low high : Option κ} :
    (forest : SearchForest κ α) → forest.Ordered key low high → forest.childAt k = some child →
      ∃ least most, child.Ordered key least most ∧
        (∀ other : SearchTree κ α, other.Ordered key least most →
          (forest.replaceAt k other).Ordered key low high) ∧
        (forest.removeAt k).Ordered key low high
  | .nil, _, found => by cases found
  | .last tree, ordered, found => by
    cases found
    exact ⟨low, high, ordered, fun _ inside => inside, trivial⟩
  | .cons tree sep rest, ordered, found => by
    rw [SearchForest.childAt] at found
    have lower : ∀ least ∈ low, ∃ bound ∈ some sep, least ≤ bound :=
      fun least there => ⟨sep, rfl, le_of_lt (ordered.1.1 least there)⟩
    have higher : ∀ most ∈ high, ∃ bound ∈ some sep, bound ≤ most :=
      fun most there => ⟨sep, rfl, ordered.1.2 most there⟩
    by_cases inside : k ≤ sep
    · rw [if_pos inside] at found
      cases found
      refine ⟨low, some sep, ordered.2.1, fun other bounded => ?_, ?_⟩
      · rw [SearchForest.replaceAt, if_pos inside]
        exact ⟨ordered.1, bounded, ordered.2.2⟩
      · rw [SearchForest.removeAt, if_pos inside]
        exact SearchForest.Ordered.widen rest ordered.2.2 lower fun most there => ⟨most, there, le_refl _⟩
    · rw [if_neg inside] at found
      obtain ⟨least, most, bounded, replaced, removed⟩ :=
        SearchForest.Ordered.childAt rest ordered.2.2 found
      refine ⟨least, most, bounded, fun other within => ?_, ?_⟩
      · rw [SearchForest.replaceAt, if_neg inside]
        exact ⟨ordered.1, ordered.2.1, replaced other within⟩
      · rw [SearchForest.removeAt, if_neg inside]
        cases rest with
        | nil => cases found
        | last only => exact SearchTree.Ordered.widen tree ordered.2.1 (fun least there => ⟨least, there, le_refl _⟩) higher
        | cons first next later => exact ⟨ordered.1, ordered.2.1, removed⟩

theorem SearchTree.id_prune (tree : SearchTree κ α) {pruned : SearchTree κ α}
    (found : tree.prune k = some pruned) : pruned.id = tree.id := by
  cases tree with
  | leaf id entries => cases found
  | node id children =>
    rw [prune] at found
    split at found
    · cases found
    · cases found
      rfl

theorem SearchTree.prune_node {id : Nat} {children : SearchForest κ α}
    (some_ : children.prune k ≠ .nil) :
    SearchTree.prune k (.node id children) = some (.node id (children.prune k)) := by
  rw [SearchTree.prune]
  split
  · next nil => exact absurd nil some_
  · rfl

/-- What pruning keeps, where the leaf of the key is empty. -/
structure Pruned (key : α → κ) (low high : Option κ) (tree pruned : SearchTree κ α) : Prop where
  id : pruned.id = tree.id
  entries : pruned.entries = tree.entries
  ordered : pruned.Ordered key low high
  named : pruned.Every SearchForest.Named
  height : pruned.height ≤ tree.height
  pages : pruned.pages.Sublist tree.pages

theorem Pruned.node {key : α → κ} {low high : Option κ} {id : Nat} {before after : SearchForest κ α}
    (entries : after.entries = before.entries) (ordered : after.Ordered key low high)
    (named : ∀ tree ∈ after.trees, tree.id ≠ 0 ∧ tree.Every SearchForest.Named)
    (height : ∀ tree ∈ after.trees, tree.height ≤ before.height)
    (pages : after.pages.Sublist before.pages) :
    Pruned key low high (.node id before) (.node id after) where
  id := rfl
  entries := entries
  ordered := ordered
  named := ⟨fun tree member => (named tree member).1,
    SearchForest.Every.of_trees after fun tree member => (named tree member).2⟩
  height := Nat.succ_le_succ (SearchForest.height_of_trees after height)
  pages := pages.cons_cons id

/-- The leaf of a key lies under the child of the key. -/
theorem SearchTree.leafAt_node {id : Nat} {children : SearchForest κ α} {place : LeafPlace α}
    (found : SearchTree.leafAt k (.node id children) = some place) :
    ∃ child below, children.childAt k = some child ∧ child.leafAt k = some below ∧
      child.height < children.height + 1 ∧ place = ⟨below.path ++ [id], below.id, below.entries⟩ := by
  rw [SearchTree.leafAt, Option.map_eq_some_iff] at found
  obtain ⟨below, inside, rfl⟩ := found
  rw [SearchForest.leafAt_eq, Option.bind_eq_some_iff] at inside
  obtain ⟨child, routed, leaf⟩ := inside
  exact ⟨child, below, routed, leaf, Nat.lt_succ_of_le
    (SearchForest.height_le children child (SearchForest.childAt_mem children routed)), rfl⟩

theorem SearchTree.prune_pruned {key : α → κ} (tree : SearchTree κ α) {low high : Option κ}
    {place : LeafPlace α} (ordered : tree.Ordered key low high)
    (named : tree.Every SearchForest.Named) (found : tree.leafAt k = some place)
    (empty : place.entries = []) :
    (tree.prune k = none → tree.entries = []) ∧
      ∀ pruned, tree.prune k = some pruned → Pruned key low high tree pruned := by
  cases tree with
  | leaf id entries =>
    cases found
    exact ⟨fun _ => empty, nofun⟩
  | node id children =>
    obtain ⟨child, below, routed, leaf, shorter, rfl⟩ := SearchTree.leafAt_node found
    obtain ⟨front, back, all, removed, replaced⟩ := SearchForest.childAt_split children routed
    obtain ⟨least, most, bounded, keeps, without⟩ :=
      SearchForest.Ordered.childAt children ordered routed
    have known : ∀ other ∈ children.trees, other.id ≠ 0 ∧ other.Every SearchForest.Named :=
      fun other inside => ⟨named.1 other inside,
        SearchForest.Every.trees children named.2 other inside⟩
    have heights := SearchForest.height_le children
    have member := SearchForest.childAt_mem children routed
    obtain ⟨gone, stays⟩ := SearchTree.prune_pruned child bounded (known child member).2 leaf empty
    have whole : Pruned key low high (.node id children) (.node id (children.prune k)) := by
      rw [SearchForest.prune_eq children routed]
      cases pruned : child.prune k with
      | none =>
        have sub : (children.removeAt k).trees.Sublist children.trees := by
          rw [removed, all]
          exact (List.sublist_cons_self child back).append_left front
        refine Pruned.node ?_ without (fun other there => known other (sub.subset there))
          (fun other there => heights other (sub.subset there)) ?_
        · rw [SearchForest.entries_eq, SearchForest.entries_eq, removed, all, List.flatMap_append,
            List.flatMap_append, List.flatMap_cons, gone pruned, List.nil_append]
        · rw [SearchForest.pages_eq, SearchForest.pages_eq]
          exact sub.flatMap _
      | some changed =>
        have kept := stays changed pruned
        have trees := replaced changed
        have among (other : SearchTree κ α) (there : other ∈ (children.replaceAt k changed).trees) :
            other = changed ∨ other ∈ children.trees := by
          rw [trees, List.mem_append, List.mem_cons] at there
          rw [all, List.mem_append, List.mem_cons]
          tauto
        refine Pruned.node ?_ (keeps changed kept.ordered) (fun other there => ?_)
          (fun other there => ?_) ?_
        · rw [SearchForest.entries_eq, SearchForest.entries_eq, trees, all, List.flatMap_append,
            List.flatMap_append, List.flatMap_cons, List.flatMap_cons, kept.entries]
        · rcases among other there with rfl | old
          · exact ⟨kept.id ▸ (known child member).1, kept.named⟩
          · exact known other old
        · rcases among other there with rfl | old
          · exact Nat.le_trans kept.height (heights child member)
          · exact heights other old
        · rw [SearchForest.pages_eq, SearchForest.pages_eq, trees, all, List.flatMap_append,
            List.flatMap_append, List.flatMap_cons, List.flatMap_cons]
          exact (kept.pages.append_right _).append_left _
    by_cases nil : children.prune k = .nil
    · have entries : (children.prune k).entries = children.entries := whole.entries
      rw [nil] at entries
      rw [SearchTree.prune, nil]
      exact ⟨fun _ => entries.symm, nofun⟩
    · rw [SearchTree.prune_node nil]
      exact ⟨nofun, fun _ same => Option.some.inj same ▸ whole⟩
termination_by tree.height

end Child

end RustSql.Foundation
