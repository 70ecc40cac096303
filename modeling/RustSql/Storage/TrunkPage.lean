import RustSql.Foundation.TrunkList
import RustSql.Storage.Freelist
import RustSql.Storage.Residency

/-! The bytes of trunk pages, and chains of them. -/

namespace RustSql.Storage.Pager

open RustSql.Foundation

/-- The page is a trunk with these entries, linked to `next`. -/
structure TrunkPage (data : Bytes size) (next : Nat) (entries : List Nat) : Prop where
  next : trunkNext data = next
  count : trunkCount data = entries.length
  entry : ∀ index entry, entries[index]? = some entry → trunkEntry data index = entry

theorem trunkCap_bound {entries : Nat} (room : entries ≤ trunkCap size) (large : 8 ≤ size) :
    8 + entries * 4 ≤ size := by
  unfold trunkCap at room
  omega

theorem newTrunk_trunkPage (large : 8 ≤ size) {head : Nat} (small : head < 2 ^ 32) :
    TrunkPage (newTrunk size head) head [] where
  next := by
    unfold newTrunk trunkNext
    rw [Bytes.readU32_writeU32_disjoint _ _ _ _ (by omega) (by omega),
      Bytes.readU32_writeU32_of_lt _ _ _ (by omega) small]
  count := by
    unfold newTrunk trunkCount
    rw [Bytes.readU32_writeU32_of_lt _ _ _ (by omega) (by omega), List.length_nil]
  entry := by simp

variable {data : Bytes size}

theorem appendEntry_trunkPage {next : Nat} {entries : List Nat}
    (trunk : TrunkPage data next entries) {id : Nat} (small : id < 2 ^ 32)
    (room : entries.length < trunkCap size) (large : 8 ≤ size) (few : trunkCap size < 2 ^ 32) :
    TrunkPage (appendEntry data entries.length id) next (entries ++ [id]) := by
  have fits := trunkCap_bound (Nat.succ_le_of_lt room) large
  refine ⟨?_, ?_, ?_⟩
  · unfold appendEntry trunkNext
    rw [Bytes.readU32_writeU32_disjoint _ _ _ _ (by omega) (by omega),
      Bytes.readU32_writeU32_disjoint _ _ _ _ (by omega) (by omega)]
    exact trunk.next
  · unfold appendEntry trunkCount
    rw [Bytes.readU32_writeU32_of_lt _ _ _ (by omega) (by omega), List.length_append,
      List.length_singleton]
  · intro index entry found
    unfold appendEntry trunkEntry
    rw [Bytes.readU32_writeU32_disjoint _ _ _ _ (by omega) (by omega)]
    by_cases last : index = entries.length
    · subst last
      have same : id = entry := by simpa using found
      rw [Bytes.readU32_writeU32_of_lt _ _ _ (by omega) small, same]
    · rw [Bytes.readU32_writeU32_disjoint _ _ _ _ (by omega) (by omega)]
      apply trunk.entry
      have inside : index < entries.length := by
        have := (List.getElem?_eq_some_iff.mp found).1
        simp at this
        omega
      rwa [List.getElem?_append_left inside] at found

theorem pop_trunkPage {next last : Nat} {entries : List Nat}
    (trunk : TrunkPage data next (entries ++ [last])) (large : 8 ≤ size)
    (few : entries.length < 2 ^ 32) :
    TrunkPage (data.writeU32 4 entries.length) next entries ∧
      trunkEntry data entries.length = last := by
  refine ⟨⟨?_, ?_, ?_⟩, trunk.entry _ _ (by simp)⟩
  · unfold trunkNext
    rw [Bytes.readU32_writeU32_disjoint _ _ _ _ (by omega) (by omega)]
    exact trunk.next
  · exact Bytes.readU32_writeU32_of_lt _ _ _ (by omega) few
  · intro index entry found
    unfold trunkEntry
    rw [Bytes.readU32_writeU32_disjoint _ _ _ _ (by omega) (by omega)]
    apply trunk.entry
    rw [List.getElem?_append_left (List.getElem?_eq_some_iff.mp found).1, found]

theorem relink_trunkPage {next : Nat} {entries : List Nat} (trunk : TrunkPage data next entries)
    (large : 8 ≤ size) {cur : Nat} (small : cur < 2 ^ 32) :
    TrunkPage (data.writeU32 0 cur) cur entries where
  next := Bytes.readU32_writeU32_of_lt _ _ _ (by omega) small
  count := by
    unfold trunkCount
    rw [Bytes.readU32_writeU32_disjoint _ _ _ _ (by omega) (by omega)]
    exact trunk.count
  entry := by
    intro index entry found
    unfold trunkEntry
    rw [Bytes.readU32_writeU32_disjoint _ _ _ _ (by omega) (by omega)]
    exact trunk.entry index entry found

/-- Writing entries from `start` on leaves every word before them alone. -/
theorem readU32_writeEntries_before (entries : List Nat) (data : Bytes size)
    (start offset : Nat) (fits : 8 + (start + entries.length) * 4 ≤ size)
    (before : offset + 4 ≤ 8 + start * 4) :
    (writeEntries data start entries).readU32 offset = data.readU32 offset := by
  induction entries generalizing data start with
  | nil => rfl
  | cons entry rest ih =>
    simp only [List.length_cons] at fits
    rw [writeEntries, ih _ _ (by omega) (by omega),
      Bytes.readU32_writeU32_disjoint _ _ _ _ (by omega) (by omega)]

theorem trunkEntry_writeEntries (entries : List Nat) (data : Bytes size) (start : Nat)
    (fits : 8 + (start + entries.length) * 4 ≤ size) (small : ∀ entry ∈ entries, entry < 2 ^ 32)
    (index entry : Nat) (found : entries[index]? = some entry) :
    trunkEntry (writeEntries data start entries) (start + index) = entry := by
  induction entries generalizing data start index with
  | nil => simp at found
  | cons first rest ih =>
    simp only [List.length_cons] at fits
    cases index with
    | zero =>
      have same : first = entry := by simpa using found
      unfold trunkEntry
      rw [writeEntries, readU32_writeEntries_before _ _ _ _ (by omega) (by omega),
        Nat.add_zero, Bytes.readU32_writeU32_of_lt _ _ _ (by omega)
          (small first List.mem_cons_self), same]
    | succ index =>
      have later := ih (data.writeU32 (8 + start * 4) first) (start + 1) (by omega)
        (fun entry member => small entry (List.mem_cons_of_mem _ member)) index
        (by simpa using found)
      rw [writeEntries, show start + (index + 1) = start + 1 + index by omega]
      exact later

theorem compactTrunk_trunkPage {next : Nat} {entries kept : List Nat}
    (trunk : TrunkPage data next entries) (room : kept.length ≤ trunkCap size) (large : 8 ≤ size)
    (few : trunkCap size < 2 ^ 32) (small : ∀ entry ∈ kept, entry < 2 ^ 32) :
    TrunkPage (compactTrunk data kept) next kept := by
  have fits := trunkCap_bound room large
  unfold compactTrunk
  refine ⟨?_, ?_, ?_⟩
  · unfold trunkNext
    rw [readU32_writeEntries_before _ _ _ _ (by omega) (by omega),
      Bytes.readU32_writeU32_disjoint _ _ _ _ (by omega) (by omega)]
    exact trunk.next
  · unfold trunkCount
    rw [readU32_writeEntries_before _ _ _ _ (by omega) (by omega),
      Bytes.readU32_writeU32_of_lt _ _ _ (by omega) (by omega)]
  · intro index entry found
    have there := trunkEntry_writeEntries kept (data.writeU32 4 kept.length) 0 (by omega) small
      index entry found
    rwa [Nat.zero_add] at there

/-- The walk of `truncate_tail` reads the entries the trunk has. -/
theorem trunkEntries_eq {next : Nat} {entries : List Nat} (trunk : TrunkPage data next entries)
    (room : entries.length ≤ trunkCap size) : trunkEntries data = entries := by
  unfold trunkEntries
  rw [trunk.count, Nat.min_eq_left room]
  apply List.ext_getElem?
  intro index
  rw [List.getElem?_map]
  by_cases inside : index < entries.length
  · rw [List.getElem?_range inside, Option.map_some, List.getElem?_eq_getElem inside,
      trunk.entry index entries[index] (List.getElem?_eq_getElem inside)]
  · rw [List.getElem?_eq_none (by simp; omega), List.getElem?_eq_none (by omega)]
    rfl

/-- The trunks form a chain from the page `head` to the link `tail`. -/
def Chain (pager : Pager size) : Nat → List (Trunk Nat) → Nat → Prop
  | head, [], tail => head = tail
  | head, trunk :: rest, tail =>
    head = trunk.item ∧ head ≠ 0 ∧ ∃ data next, pager.view head = some data ∧
      TrunkPage data next trunk.entries ∧ Chain pager next rest tail

theorem chain_append {pager : Pager size} {head tail : Nat} {front back : List (Trunk Nat)} :
    pager.Chain head (front ++ back) tail ↔
      ∃ middle, pager.Chain head front middle ∧ pager.Chain middle back tail := by
  induction front generalizing head with
  | nil =>
    constructor
    · intro chain
      exact ⟨head, rfl, chain⟩
    · rintro ⟨middle, rfl, chain⟩
      exact chain
  | cons trunk rest ih =>
    simp only [List.cons_append, Chain]
    constructor
    · rintro ⟨first, nonzero, data, next, seen, page, chain⟩
      obtain ⟨middle, left, right⟩ := ih.mp chain
      exact ⟨middle, ⟨first, nonzero, data, next, seen, page, left⟩, right⟩
    · rintro ⟨middle, ⟨first, nonzero, data, next, seen, page, left⟩, right⟩
      exact ⟨first, nonzero, data, next, seen, page, ih.mpr ⟨middle, left, right⟩⟩

/-- A chain that ends at 0 passes through every link another chain from its head has. -/
theorem Chain.reaches {pager : Pager size} {head link : Nat} {front trunks : List (Trunk Nat)}
    (part : pager.Chain head front link) (whole : pager.Chain head trunks 0)
    (nonzero : link ≠ 0) : link ∈ trunks.map Trunk.item := by
  induction front generalizing head trunks with
  | nil =>
    have same : head = link := part
    cases trunks with
    | nil => exact absurd (same.symm.trans whole) nonzero
    | cons trunk rest => exact List.mem_cons.mpr (Or.inl (same.symm.trans whole.1))
  | cons first more ih =>
    obtain ⟨_, here, data, next, seen, page, part⟩ := part
    cases trunks with
    | nil => exact absurd whole here
    | cons trunk rest =>
      obtain ⟨_, _, bytes, after, again, other, whole⟩ := whole
      have equal : data = bytes := Option.some.inj (seen.symm.trans again)
      have agree : next = after := by rw [← page.next, ← other.next, equal]
      exact List.mem_cons_of_mem _ (ih part (agree ▸ whole))

/-- A chain whose trunks are solid survives whatever leaves those pages alone. -/
theorem Chain.keep {before after : Pager size} {head tail : Nat} {trunks : List (Trunk Nat)}
    (chain : before.Chain head trunks tail)
    (solid : ∀ trunk ∈ trunks, before.Solid trunk.item)
    (holds : ∀ trunk ∈ trunks, ∀ data, before.Holds trunk.item data →
      after.Holds trunk.item data) :
    after.Chain head trunks tail ∧ ∀ trunk ∈ trunks, after.Solid trunk.item := by
  induction trunks generalizing head with
  | nil => exact ⟨chain, by simp⟩
  | cons trunk rest ih =>
    obtain ⟨rfl, nonzero, data, next, seen, page, rest⟩ := chain
    have held := holds trunk List.mem_cons_self data ⟨solid trunk List.mem_cons_self, seen⟩
    obtain ⟨linked, others⟩ := ih rest
      (fun other member => solid other (List.mem_cons_of_mem _ member))
      (fun other member => holds other (List.mem_cons_of_mem _ member))
    refine ⟨⟨rfl, nonzero, data, next, held.2, page, linked⟩, ?_⟩
    intro other member
    rcases List.mem_cons.mp member with rfl | member
    · exact held.1
    · exact others other member

end RustSql.Storage.Pager
