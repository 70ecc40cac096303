import Mathlib.Data.List.Perm.Basic

/-! Search trees whose interior entries carry a summary of all items below them. A search that
leaves out what a summary excludes finds what a walk over all items finds. -/

namespace RustSql.Foundation

/-- An entry of a node: an item, or a child node behind its summary. -/
inductive SummaryEntry (ι σ : Type) where
  | leaf (item : ι)
  | interior (child : List (SummaryEntry ι σ)) (summary : σ)

namespace SummaryEntry

variable {ι σ : Type}

/-- Induction over a node: its entries one by one, and the nodes below them. -/
@[elab_as_elim]
theorem nodeInduction {motive : List (SummaryEntry ι σ) → Prop} (nil : motive [])
    (leaf : ∀ item rest, motive rest → motive (.leaf item :: rest))
    (interior : ∀ child summary rest, motive child → motive rest →
      motive (.interior child summary :: rest)) : ∀ node, motive node
  | [] => nil
  | .leaf item :: rest => leaf item rest (nodeInduction nil leaf interior rest)
  | .interior child summary :: rest =>
    interior child summary rest (nodeInduction nil leaf interior child)
      (nodeInduction nil leaf interior rest)

mutual

/-- All items below an entry. -/
def entryItems : SummaryEntry ι σ → List ι
  | .leaf item => [item]
  | .interior child _ => items child

/-- All items below a node. -/
def items : List (SummaryEntry ι σ) → List ι
  | [] => []
  | entry :: rest => entryItems entry ++ items rest

end

mutual

/-- Every summary covers all items below it. -/
def CoveredEntry (covers : σ → ι → Prop) : SummaryEntry ι σ → Prop
  | .leaf _ => True
  | .interior child summary => (∀ item ∈ items child, covers summary item) ∧ Covered covers child

def Covered (covers : σ → ι → Prop) : List (SummaryEntry ι σ) → Prop
  | [] => True
  | entry :: rest => CoveredEntry covers entry ∧ Covered covers rest

end

mutual

def searchEntry (accepts : ι → Bool) (mayContain : σ → Bool) : SummaryEntry ι σ → List ι
  | .leaf item => if accepts item then [item] else []
  | .interior child summary => if mayContain summary then search accepts mayContain child else []

/-- The accepted items, without a visit to the nodes whose summary excludes them. -/
def search (accepts : ι → Bool) (mayContain : σ → Bool) : List (SummaryEntry ι σ) → List ι
  | [] => []
  | entry :: rest => searchEntry accepts mayContain entry ++ search accepts mayContain rest

end

@[simp] theorem items_nil : items ([] : List (SummaryEntry ι σ)) = [] := rfl

@[simp] theorem items_cons (entry : SummaryEntry ι σ) (rest : List (SummaryEntry ι σ)) :
    items (entry :: rest) = entryItems entry ++ items rest := rfl

theorem items_eq_flatMap (node : List (SummaryEntry ι σ)) : items node = node.flatMap entryItems := by
  induction node with
  | nil => rfl
  | cons entry rest ih => rw [items_cons, ih, List.flatMap_cons]

@[simp] theorem items_append (first second : List (SummaryEntry ι σ)) :
    items (first ++ second) = items first ++ items second := by
  rw [items_eq_flatMap, items_eq_flatMap, items_eq_flatMap, List.flatMap_append]

variable {first second : List (SummaryEntry ι σ)}

theorem items_perm (perm : first.Perm second) : (items first).Perm (items second) := by
  rw [items_eq_flatMap, items_eq_flatMap]
  exact perm.flatMap_right entryItems

theorem mem_items_iff {node : List (SummaryEntry ι σ)} {item : ι} :
    item ∈ items node ↔ ∃ entry ∈ node, item ∈ entryItems entry := by
  rw [items_eq_flatMap, List.mem_flatMap]

variable {covers : σ → ι → Prop}

theorem covered_iff {node : List (SummaryEntry ι σ)} :
    Covered covers node ↔ ∀ entry ∈ node, CoveredEntry covers entry := by
  induction node with
  | nil => simp [Covered]
  | cons entry rest ih => rw [List.forall_mem_cons, ← ih, Covered]

theorem Covered.of_subset (covered : Covered covers second) (subset : first ⊆ second) :
    Covered covers first :=
  covered_iff.mpr fun entry member => covered_iff.mp covered entry (subset member)

theorem Covered.append (one : Covered covers first) (two : Covered covers second) :
    Covered covers (first ++ second) :=
  covered_iff.mpr fun entry member =>
    (List.mem_append.mp member).elim (covered_iff.mp one entry) (covered_iff.mp two entry)

/-- A summary that excludes no accepted item it covers loses nothing. -/
theorem search_eq_filter {accepts : ι → Bool} {mayContain : σ → Bool} {valid : ι → Prop}
    (sound : ∀ summary item, valid item → covers summary item → accepts item = true →
      mayContain summary = true) (node : List (SummaryEntry ι σ)) (covered : Covered covers node)
    (every : ∀ item ∈ items node, valid item) :
    search accepts mayContain node = (items node).filter accepts := by
  induction node using nodeInduction with
  | nil => rfl
  | leaf item rest ih =>
    rw [search, searchEntry, items_cons, List.filter_append,
      ih covered.2 fun other member => every other (List.mem_append_right _ member), entryItems,
      List.filter_singleton]
    cases accepts item <;> rfl
  | interior child summary rest inner ih =>
    have inside := fun item member => every item (List.mem_append_left (items rest) member)
    rw [search, searchEntry, items_cons, List.filter_append,
      ih covered.2 fun item member => every item (List.mem_append_right (items child) member)]
    congr 1
    split
    · exact inner covered.1.2 inside
    · next excluded =>
      symm
      rw [entryItems, List.filter_eq_nil_iff]
      exact fun item member accepted =>
        excluded (sound summary item (inside item member) (covered.1.1 item member) accepted)

end SummaryEntry

end RustSql.Foundation
