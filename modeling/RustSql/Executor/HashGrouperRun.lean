import RustSql.Executor.HashGrouper

/-! The slot table finds every group whose number fits its slot, and the grouper numbers the
keys as `gather` keeps them. -/

namespace RustSql.Executor.Grouping

open RustSql.Foundation RustSql.Types

namespace HashGrouper

/-- The numbers a slot can hold, less one. -/
def groupLimit : Nat := 2 ^ 32 - 1

def entry (h : UInt64) (gi : Nat) : UInt32 × UInt32 := (h.toUInt32, UInt32.ofNat (gi + 1))

/-- The walk to the entry of one group. -/
def meets (slots : List (UInt32 × UInt32)) (h : UInt64) (gi n : Nat) : Bool :=
  vacant slots n || decide (slots[n]? = some (entry h gi))

/-- Groups with these hashes are in the table: every one whose number fits is met on the walk
from its home slot. -/
structure Filled (hashes : List UInt64) (slots : List (UInt32 × UInt32)) (mask bits used : Nat) : Prop where
  width : slots.length = 2 ^ bits
  full : mask + 1 = 2 ^ bits
  busy : slots.countP (fun slot => decide (slot.2 ≠ 0)) ≤ used
  owned : ∀ slot ∈ slots, slot.2 ≠ 0 → slot.2.toNat - 1 < hashes.length
  reached : ∀ gi h, hashes[gi]? = some h → gi < groupLimit →
    ∃ n, seek (meets slots h gi) mask slots.length (h.toNat &&& mask) = some n ∧ slots[n]? = some (entry h gi)

theorem entry_occupied {h : UInt64} {gi : Nat} (fits : gi < groupLimit) :
    (entry h gi).2 ≠ 0 ∧ (entry h gi).2.toNat - 1 = gi := by
  have whole : (entry h gi).2.toNat = gi + 1 := by
    rw [entry, UInt32.toNat_ofNat']
    exact Nat.mod_eq_of_lt (by simp only [groupLimit] at fits; omega)
  refine ⟨fun zero => ?_, by omega⟩
  rw [zero] at whole
  cases whole

theorem vacant_of {slots : List (UInt32 × UInt32)} {n : Nat} {slot : UInt32 × UInt32}
    (here : slots[n]? = some slot) : vacant slots n = (slot.2 == 0) := by
  rw [vacant, here, Option.any_some]

namespace Filled

variable {hashes : List UInt64} {slots : List (UInt32 × UInt32)} {mask bits used : Nat}

theorem start (full : mask + 1 = 2 ^ bits) : Filled [] (List.replicate (2 ^ bits) (0, 0)) mask bits 0 where
  width := List.length_replicate
  full := full
  busy := by rw [List.countP_replicate]; rfl
  owned slot member occupied := absurd (by rw [List.eq_of_mem_replicate member]) occupied
  reached _ _ found := by cases found

theorem vacancy (filled : Filled hashes slots mask bits used) (room : used < 2 ^ bits) :
    ∃ n < 2 ^ bits, vacant slots n = true := by
  have free : ∃ slot ∈ slots, slot.2 = 0 := by
    by_contra none
    have all : slots.countP (fun slot => decide (slot.2 ≠ 0)) = slots.length := by
      rw [List.countP_eq_length]
      exact fun slot member => decide_eq_true fun zero => none ⟨slot, member, zero⟩
    have busy := filled.busy
    rw [all, filled.width] at busy
    exact absurd busy (Nat.not_le_of_lt room)
  obtain ⟨slot, member, zero⟩ := free
  obtain ⟨n, here⟩ := List.getElem?_of_mem member
  refine ⟨n, filled.width ▸ (List.getElem?_eq_some_iff.mp here).1, ?_⟩
  rw [vacant_of here, zero]
  rfl

theorem home (filled : Filled hashes slots mask bits used) (h : UInt64) : h.toNat &&& mask < 2 ^ bits :=
  masked_lt filled.full _

/-- With room, placing a group fills the first vacant slot of its walk. -/
theorem place_eq (filled : Filled hashes slots mask bits used) (room : used < 2 ^ bits) (h : UInt64)
    (gi : Nat) : ∃ n, seek (vacant slots) mask slots.length (h.toNat &&& mask) = some n ∧
      vacant slots n = true ∧ n < slots.length ∧ place slots mask h gi = slots.set n (entry h gi) := by
  obtain ⟨free, below, isVacant⟩ := filled.vacancy room
  obtain ⟨n, sought⟩ := seek_isSome filled.full (filled.home h) below isVacant
  obtain ⟨stopped, inside⟩ := seek_stops filled.full sought (filled.home h)
  rw [← filled.width] at sought inside
  exact ⟨n, sought, stopped, inside, by rw [place, sought, entry]⟩

theorem vacant_set {n m : Nat} {new : UInt32 × UInt32} (apart : n ≠ m) :
    vacant (slots.set n new) m = vacant slots m := by
  rw [vacant, vacant, List.getElem?_set_ne apart]

/-- A group that was met is met again when a vacant slot has been taken. -/
theorem keeps (filled : Filled hashes slots mask bits used) {n gi : Nat} {h : UInt64}
    {new : UInt32 × UInt32} (free : vacant slots n = true) (found : hashes[gi]? = some h)
    (fits : gi < groupLimit) :
    ∃ m, seek (meets (slots.set n new) h gi) mask slots.length (h.toNat &&& mask) = some m ∧
      (slots.set n new)[m]? = some (entry h gi) := by
  obtain ⟨m, sought, here⟩ := filled.reached gi h found fits
  have apart : n ≠ m := by
    rintro rfl
    rw [vacant_of here, beq_iff_eq] at free
    exact (entry_occupied fits).1 free
  have there : (slots.set n new)[m]? = some (entry h gi) := by rw [List.getElem?_set_ne apart, here]
  refine ⟨m, seek_fewer sought (fun k stopped => ?_) ?_, there⟩
  · by_cases same : n = k
    · subst same
      rw [meets, free, Bool.true_or]
    · rw [meets, vacant_set same, List.getElem?_set_ne same] at stopped
      exact stopped
  · rw [meets, there, decide_eq_true rfl, Bool.or_true]

theorem countP_place (busy : slots.countP (fun slot => decide (slot.2 ≠ 0)) ≤ used) {n : Nat}
    (inside : n < slots.length) (new : UInt32 × UInt32) :
    (slots.set n new).countP (fun slot => decide (slot.2 ≠ 0)) ≤ used + 1 := by
  rw [List.countP_set inside]
  split <;> split <;> omega

theorem owned_place (owned : ∀ slot ∈ slots, slot.2 ≠ 0 → slot.2.toNat - 1 < hashes.length)
    {count gi : Nat} (more : hashes.length ≤ count) (inside : gi < count) {n : Nat} {h : UInt64} :
    ∀ slot ∈ slots.set n (entry h gi), slot.2 ≠ 0 → slot.2.toNat - 1 < count := by
  intro slot member occupied
  rcases List.mem_or_eq_of_mem_set member with old | rfl
  · exact (owned slot old occupied).trans_le more
  · have cut : (entry h gi).2.toNat ≤ gi + 1 := by
      rw [entry, UInt32.toNat_ofNat']
      exact Nat.mod_le _ _
    omega

/-- A group that has a slot takes another. -/
theorem again (filled : Filled hashes slots mask bits used) (room : used < 2 ^ bits) {gi : Nat}
    {h : UInt64} (found : hashes[gi]? = some h) : Filled hashes (place slots mask h gi) mask bits (used + 1) := by
  obtain ⟨n, sought, free, inside, placed⟩ := filled.place_eq room h gi
  rw [placed]
  refine ⟨List.length_set.trans filled.width, filled.full, countP_place filled.busy inside _,
    owned_place filled.owned le_rfl (List.getElem?_eq_some_iff.mp found).1, fun gj h' other fits => ?_⟩
  rw [List.length_set]
  exact filled.keeps free other fits

/-- The next group takes a slot. -/
theorem next (filled : Filled hashes slots mask bits used) (room : used < 2 ^ bits) (h : UInt64) :
    Filled (hashes ++ [h]) (place slots mask h hashes.length) mask bits (used + 1) := by
  obtain ⟨n, sought, free, inside, placed⟩ := filled.place_eq room h hashes.length
  have longer : (hashes ++ [h]).length = hashes.length + 1 := by simp
  rw [placed]
  refine ⟨List.length_set.trans filled.width, filled.full, countP_place filled.busy inside _,
    owned_place filled.owned (by omega) (by omega), fun gi h' found fits => ?_⟩
  rw [List.length_set]
  by_cases old : gi < hashes.length
  · rw [List.getElem?_append_left old] at found
    exact filled.keeps free found fits
  · obtain rfl : gi = hashes.length := by
      have bound := (List.getElem?_eq_some_iff.mp found).1
      omega
    rw [List.getElem?_concat_length] at found
    obtain rfl := Option.some.inj found
    refine ⟨n, ?_, List.getElem?_set_self inside⟩
    -- no slot held the group before, so the walk stops where the vacant one ended
    rw [← sought]
    refine congrArg (seek · mask slots.length (h.toNat &&& mask)) (funext fun m => ?_)
    by_cases same : n = m
    · subst same
      rw [free, meets, List.getElem?_set_self inside, decide_eq_true rfl, Bool.or_true]
    · rw [meets, vacant_set same, List.getElem?_set_ne same]
      have absent : ¬ slots[m]? = some (entry h hashes.length) := by
        intro held
        obtain ⟨occupied, number⟩ := entry_occupied (h := h) fits
        have bound := filled.owned _ (List.mem_of_getElem? held) occupied
        rw [number] at bound
        exact absurd bound (Nat.lt_irrefl _)
      rw [decide_eq_false absent, Bool.or_false]

/-- All groups placed in a fresh table, in order. -/
theorem refill (full : mask + 1 = 2 ^ bits) (hashAt : Nat → UInt64) (count : Nat) (room : count ≤ 2 ^ bits) :
    Filled ((List.range count).map hashAt)
      ((List.range count).foldl (fun slots gi => place slots mask (hashAt gi) gi)
        (List.replicate (2 ^ bits) (0, 0))) mask bits count := by
  induction count with
  | zero => exact start full
  | succ count ih =>
    have one := (ih (Nat.le_of_succ_le room)).next room (hashAt count)
    rw [List.range_succ, List.foldl_append, List.map_append]
    rw [List.length_map, List.length_range] at one
    exact one

end Filled

/-- The table between two calls: empty, or filled to at most three quarters. -/
inductive Loaded (hashes : List UInt64) (slots : List (UInt32 × UInt32)) (mask : Nat) : Prop where
  | empty (none : hashes = []) (bare : slots = []) (zero : mask = 0)
  | filled (bits : Nat) (large : 16 ≤ 2 ^ bits) (table : Filled hashes slots mask bits (hashes.length + 1))
      (load : hashes.length ≤ mask * 3 / 4)

theorem le_nextPowerOfTwo (n : Nat) : n ≤ nextPowerOfTwo n := Nat.le_pow_clog (by decide) n

theorem map_range_hashAt {hashes : List UInt64} {hashAt : Nat → UInt64} {count : Nat}
    (length : count = hashes.length) (same : ∀ gi h, hashes[gi]? = some h → hashAt gi = h) :
    (List.range count).map hashAt = hashes := by
  subst length
  refine List.ext_getElem (by simp) fun gi _ inside => ?_
  rw [List.getElem_map, List.getElem_range]
  exact same gi _ (List.getElem?_eq_getElem inside)

/-- The slot of a new group, whose key the lists have already. -/
theorem insertSlot_loaded {State : Type} {grouper : HashGrouper State} {hashes : List UInt64} {h : UInt64}
    (loaded : Loaded hashes grouper.slots grouper.mask) (count : grouper.groupCount = hashes.length + 1)
    (same : ∀ gi h', (hashes ++ [h])[gi]? = some h' → grouper.hashAt gi = h') :
    Loaded (hashes ++ [h]) (grouper.insertSlot h hashes.length).slots
      (grouper.insertSlot h hashes.length).mask := by
  have longer : (hashes ++ [h]).length = hashes.length + 1 := by simp
  rw [insertSlot, count]
  by_cases crowded : grouper.mask * 3 / 4 < hashes.length + 1
  · simp only [if_pos crowded]
    let bits := Nat.clog 2 (max (grouper.slots.length * 2) 16)
    have cap : max (grouper.slots.length * 2) 16 ≤ 2 ^ bits := le_nextPowerOfTwo _
    have full : 2 ^ bits - 1 + 1 = 2 ^ bits := Nat.sub_add_cancel (Nat.two_pow_pos bits)
    have load : hashes.length + 1 ≤ (2 ^ bits - 1) * 3 / 4 := by
      cases loaded with
      | empty none bare zero => rw [none, List.length_nil]; omega
      | filled before large table load =>
        have width := table.width
        have size := table.full
        omega
    have fresh := Filled.refill full grouper.hashAt grouper.groupCount (by omega)
    rw [map_range_hashAt (count.trans longer.symm) same, count] at fresh
    have last : (hashes ++ [h])[hashes.length]? = some h := List.getElem?_concat_length
    refine .filled bits (le_trans (le_max_right _ _) cap) ?_ (by rw [longer]; exact load)
    rw [longer]
    have placed := fresh.again (by omega) last
    rw [rehash, count]
    exact placed
  · simp only [if_neg crowded]
    cases loaded with
    | empty none bare zero => rw [zero] at crowded; omega
    | filled bits large table load =>
      refine .filled bits large ?_ (by omega)
      rw [longer]
      have size := table.full
      exact table.next (by omega) h

/-- Where one of the groups that fit is the right one, the probe finds it; otherwise nothing. -/
theorem probe_loaded {State : Type} {grouper : HashGrouper State} {hashes : List UInt64} {h : UInt64}
    {eq : Nat → Bool} (loaded : Loaded hashes grouper.slots grouper.mask)
    (hashed : ∀ gi h', hashes[gi]? = some h' → eq gi = true → h' = h)
    (sole : ∀ gi gj, gi < hashes.length → gi < groupLimit → gj < hashes.length → gj < groupLimit →
      eq gi = true → eq gj = true → gi = gj) :
    grouper.probe h eq = (List.range (min groupLimit hashes.length)).find? eq := by
  cases loaded with
  | empty none bare zero =>
    rw [probe, bare, none]
    rfl
  | filled bits large table load =>
    have nonempty : grouper.slots.isEmpty = false := by
      rw [List.isEmpty_eq_false_iff, ← List.length_pos_iff, table.width]
      exact Nat.two_pow_pos bits
    have number : ∀ {n : Nat} {slot : UInt32 × UInt32}, grouper.slots[n]? = some slot → slot.2 ≠ 0 →
        slot.2.toNat - 1 < min groupLimit hashes.length := by
      intro n slot here occupied
      have cut := slot.2.toNat_lt
      have positive : slot.2.toNat ≠ 0 := fun zero => occupied (UInt32.toNat_inj.mp zero)
      exact Nat.lt_min.mpr ⟨by simp only [groupLimit]; omega,
        table.owned slot (List.mem_of_getElem? here) occupied⟩
    rw [probe, nonempty, if_neg Bool.false_ne_true]
    cases target : (List.range (min groupLimit hashes.length)).find? eq with
    | some gi =>
      have right := List.find?_some target
      obtain ⟨fits, inside⟩ := Nat.lt_min.mp (List.mem_range.mp (List.mem_of_find?_eq_some target))
      have found : hashes[gi]? = some hashes[gi] := List.getElem?_eq_getElem inside
      have same := hashed gi _ found right
      rw [same] at found
      obtain ⟨n, sought, here⟩ := table.reached gi h found fits
      obtain ⟨occupied, whole⟩ := entry_occupied (h := h) fits
      have walk : stops grouper.slots h eq = meets grouper.slots h gi := by
        funext m
        rw [stops, meets, vacant]
        cases at' : grouper.slots[m]? with
        | none => rfl
        | some slot =>
          rw [Option.any_some, Option.any_some]
          by_cases zero : slot.2 = 0
          · rw [zero]
            rfl
          · rw [beq_false_of_ne zero, Bool.false_or, Bool.false_or]
            refine Bool.eq_iff_iff.mpr ?_
            rw [Bool.and_eq_true, beq_iff_eq, decide_eq_true_eq, Option.some.injEq]
            constructor
            · rintro ⟨short, accepted⟩
              obtain ⟨fits', inside'⟩ := Nat.lt_min.mp (number at' zero)
              have one := sole _ gi inside' fits' inside fits accepted right
              refine Prod.ext short (UInt32.toNat_inj.mp ?_)
              have positive : slot.2.toNat ≠ 0 := fun none => zero (UInt32.toNat_inj.mp none)
              have mine : (entry h gi).2.toNat ≠ 0 := fun none => occupied (UInt32.toNat_inj.mp none)
              omega
            · rintro rfl
              exact ⟨rfl, by rw [whole]; exact right⟩
      rw [walk, sought, Option.bind_some, here, Option.bind_some, if_neg occupied, whole]
    | none =>
      rw [List.find?_eq_none] at target
      cases sought : seek (stops grouper.slots h eq) grouper.mask grouper.slots.length
        (h.toNat &&& grouper.mask) with
      | none => rfl
      | some n =>
        have stopped := (seek_stops table.full sought (table.home h)).1
        rw [Option.bind_some]
        rw [stops] at stopped
        cases here : grouper.slots[n]? with
        | none => rfl
        | some slot =>
          rw [Option.bind_some]
          by_cases zero : slot.2 = 0
          · rw [if_pos zero]
          · rw [here, Option.any_some, beq_false_of_ne zero, Bool.false_or, Bool.and_eq_true] at stopped
            exact absurd stopped.2 (target _ (List.mem_range.mpr (number here zero)))

end HashGrouper

end RustSql.Executor.Grouping
