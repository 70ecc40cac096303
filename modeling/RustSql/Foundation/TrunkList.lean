import Mathlib.Data.List.Perm.Basic
import Mathlib.Data.List.Nodup

/-! A stack of items kept in trunks: every trunk is itself an item, and carries a bounded
stack of further items. -/

namespace RustSql.Foundation

universe u

/-- One trunk with the items it carries. -/
structure Trunk (Item : Type u) where
  item : Item
  entries : List Item

namespace Trunk

variable {Item : Type u}

/-- All items, in the order the trunks hold them. -/
def items : List (Trunk Item) → List Item
  | [] => []
  | trunk :: rest => trunk.item :: trunk.entries ++ items rest

@[simp]
theorem items_nil : items ([] : List (Trunk Item)) = [] := rfl

@[simp]
theorem items_cons (trunk : Trunk Item) (rest : List (Trunk Item)) :
    items (trunk :: rest) = trunk.item :: (trunk.entries ++ items rest) := rfl

variable {trunk : Trunk Item} {trunks : List (Trunk Item)}

theorem item_mem_items (member : trunk ∈ trunks) : trunk.item ∈ items trunks := by
  induction trunks with
  | nil => cases member
  | cons head rest ih =>
    rcases List.mem_cons.mp member with rfl | later
    · simp
    · simp [ih later]

theorem entry_mem_items {entry : Item} (member : trunk ∈ trunks) (listed : entry ∈ trunk.entries) :
    entry ∈ items trunks := by
  induction trunks with
  | nil => cases member
  | cons head rest ih =>
    rcases List.mem_cons.mp member with rfl | later
    · simp [listed]
    · simp [ih later]

/-- Take the newest item: the last entry of the first trunk, or the trunk itself. -/
def pop : List (Trunk Item) → Option (Item × List (Trunk Item))
  | [] => none
  | trunk :: rest =>
    match trunk.entries.getLast? with
    | none => some (trunk.item, rest)
    | some entry => some (entry, { trunk with entries := trunk.entries.dropLast } :: rest)

/-- Add an item: to the first trunk while it has room, else as a new trunk. -/
def push (room : Nat) (item : Item) : List (Trunk Item) → List (Trunk Item)
  | [] => [{ item := item, entries := [] }]
  | trunk :: rest =>
    if trunk.entries.length < room then
      { trunk with entries := trunk.entries ++ [item] } :: rest
    else { item := item, entries := [] } :: trunk :: rest

/-- Add several items, first to last. -/
def pushAll (room : Nat) (added : List Item) (trunks : List (Trunk Item)) :
    List (Trunk Item) :=
  added.foldl (fun trunks item => push room item trunks) trunks

/-- Drop the trunks and entries that fail the test. -/
def retain (keep : Item → Bool) (trunks : List (Trunk Item)) : List (Trunk Item) :=
  (trunks.filter (fun trunk => keep trunk.item)).map
    (fun trunk => { trunk with entries := trunk.entries.filter keep })

/-- The entries that pass the test while their trunk fails it. -/
def orphans (keep : Item → Bool) (trunks : List (Trunk Item)) : List Item :=
  (trunks.filter (fun trunk => !keep trunk.item)).flatMap
    (fun trunk => trunk.entries.filter keep)

/-- No trunk carries more than `room` entries. -/
def Fits (room : Nat) (trunks : List (Trunk Item)) : Prop :=
  ∀ trunk ∈ trunks, trunk.entries.length ≤ room

theorem items_pop {trunks later : List (Trunk Item)} {item : Item}
    (popped : pop trunks = some (item, later)) : (items trunks).Perm (item :: items later) := by
  cases trunks with
  | nil => cases popped
  | cons trunk rest =>
    simp only [pop] at popped
    split at popped
    · next empty =>
        cases popped
        rw [List.getLast?_eq_none_iff] at empty
        simp [empty]
    · next last =>
        cases popped
        obtain ⟨front, split⟩ := List.getLast?_eq_some_iff.mp last
        simp only [items_cons, split, List.dropLast_concat]
        rw [List.append_assoc]
        show ((trunk.item :: front) ++ item :: items rest).Perm
          (item :: ((trunk.item :: front) ++ items rest))
        exact List.perm_middle

theorem fits_pop {room : Nat} {trunks later : List (Trunk Item)} {item : Item}
    (fits : Fits room trunks) (popped : pop trunks = some (item, later)) :
    Fits room later := by
  cases trunks with
  | nil => cases popped
  | cons trunk rest =>
    have first := fits trunk List.mem_cons_self
    have others : Fits room rest := fun other member =>
      fits other (List.mem_cons_of_mem _ member)
    simp only [pop] at popped
    split at popped
    · cases popped
      exact others
    · cases popped
      intro other member
      rcases List.mem_cons.mp member with rfl | member
      · simp only [List.length_dropLast]
        omega
      · exact others other member

theorem items_push (room : Nat) (item : Item) (trunks : List (Trunk Item)) :
    (items (push room item trunks)).Perm (item :: items trunks) := by
  cases trunks with
  | nil => exact List.Perm.refl _
  | cons trunk rest =>
    simp only [push]
    split
    · simp only [items_cons, List.append_assoc]
      show ((trunk.item :: trunk.entries) ++ item :: items rest).Perm
        (item :: ((trunk.item :: trunk.entries) ++ items rest))
      exact List.perm_middle
    · exact List.Perm.refl _

theorem fits_push {room : Nat} (fits : Fits room trunks) (item : Item) :
    Fits room (push room item trunks) := by
  cases trunks with
  | nil =>
    intro trunk member
    cases List.mem_singleton.mp member
    exact Nat.zero_le room
  | cons trunk rest =>
    simp only [push]
    split
    · next space =>
        intro other member
        rcases List.mem_cons.mp member with rfl | member
        · simp only [List.length_append, List.length_singleton]
          omega
        · exact fits other (List.mem_cons_of_mem _ member)
    · intro other member
      rcases List.mem_cons.mp member with rfl | member
      · exact Nat.zero_le room
      · exact fits other member

theorem items_pushAll (room : Nat) (added : List Item) (trunks : List (Trunk Item)) :
    (items (pushAll room added trunks)).Perm (added ++ items trunks) := by
  induction added generalizing trunks with
  | nil => exact List.Perm.refl _
  | cons item rest ih =>
    have step := (ih (push room item trunks)).trans
      ((items_push room item trunks).append_left rest)
    exact step.trans List.perm_middle

theorem items_append (front back : List (Trunk Item)) :
    items (front ++ back) = items front ++ items back := by
  induction front with
  | nil => rfl
  | cons trunk rest ih => simp [ih]

theorem map_item_sublist (trunks : List (Trunk Item)) :
    (trunks.map Trunk.item).Sublist (items trunks) := by
  induction trunks with
  | nil => exact List.Sublist.slnil
  | cons trunk rest ih =>
    exact (ih.trans (List.sublist_append_right trunk.entries _)).cons_cons trunk.item

theorem retain_concat_kept {keep : Item → Bool} (kept : keep trunk.item) (done : List (Trunk Item)) :
    retain keep (done ++ [trunk]) =
      retain keep done ++ [{ trunk with entries := trunk.entries.filter keep }] := by
  simp [retain, kept]

theorem retain_concat_dropped {keep : Item → Bool} (dropped : keep trunk.item = false)
    (done : List (Trunk Item)) : retain keep (done ++ [trunk]) = retain keep done := by
  simp [retain, dropped]

theorem orphans_concat_kept {keep : Item → Bool} (kept : keep trunk.item) (done : List (Trunk Item)) :
    orphans keep (done ++ [trunk]) = orphans keep done := by
  simp [orphans, kept]

theorem orphans_concat_dropped {keep : Item → Bool} (dropped : keep trunk.item = false)
    (done : List (Trunk Item)) :
    orphans keep (done ++ [trunk]) = orphans keep done ++ trunk.entries.filter keep := by
  simp [orphans, dropped]

theorem map_item_retain_sublist (keep : Item → Bool) (trunks : List (Trunk Item)) :
    ((retain keep trunks).map Trunk.item).Sublist (trunks.map Trunk.item) := by
  unfold retain
  rw [List.map_map]
  exact List.filter_sublist.map Trunk.item

/-- While the first trunk has room, added items become its entries. -/
theorem pushAll_entries {room : Nat} (added : List Item) {item : Item} {entries : List Item}
    (fits : entries.length + added.length ≤ room) (rest : List (Trunk Item)) :
    pushAll room added ({ item := item, entries := entries } :: rest) =
      { item := item, entries := entries ++ added } :: rest := by
  induction added generalizing entries with
  | nil => simp [pushAll]
  | cons next more ih =>
    simp only [List.length_cons] at fits
    have space : entries.length < room := by omega
    have longer : (entries ++ [next]).length + more.length ≤ room := by simp; omega
    have step := ih longer
    simpa [pushAll, push, space] using step

/-- What is left of the items below a bound is what the kept trunks and the orphans hold. -/
theorem items_retain (keep : Item → Bool) (trunks : List (Trunk Item)) :
    (orphans keep trunks ++ items (retain keep trunks)).Perm ((items trunks).filter keep) := by
  induction trunks with
  | nil => exact List.Perm.refl _
  | cons trunk rest ih =>
    cases kept : keep trunk.item with
    | true =>
      have same : orphans keep (trunk :: rest) ++ items (retain keep (trunk :: rest)) =
          orphans keep rest ++ (trunk.item :: trunk.entries.filter keep) ++
            items (retain keep rest) := by
        simp [orphans, retain, kept]
      rw [same]
      have moved : (orphans keep rest ++ (trunk.item :: trunk.entries.filter keep) ++
          items (retain keep rest)).Perm ((trunk.item :: trunk.entries.filter keep) ++
            (orphans keep rest ++ items (retain keep rest))) := by
        rw [← List.append_assoc]
        exact List.perm_append_comm.append_right _
      refine moved.trans ((List.Perm.append_left _ ih).trans ?_)
      simp [kept]
    | false =>
      have same : orphans keep (trunk :: rest) ++ items (retain keep (trunk :: rest)) =
          trunk.entries.filter keep ++ (orphans keep rest ++ items (retain keep rest)) := by
        simp [orphans, retain, kept]
      rw [same]
      refine (List.Perm.append_left _ ih).trans ?_
      simp [kept]

theorem fits_retain {room : Nat} (fits : Fits room trunks) (keep : Item → Bool) :
    Fits room (retain keep trunks) := by
  intro trunk member
  obtain ⟨before, found, rfl⟩ := List.mem_map.mp member
  exact Nat.le_trans (List.length_filter_le _ _) (fits before (List.mem_filter.mp found).1)

end Trunk

end RustSql.Foundation
