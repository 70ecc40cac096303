import RustSql.Executor.HashGrouperRun
import Mathlib.Data.List.Find
import Mathlib.Data.List.Forall2
import Mathlib.Data.Nat.Bitwise

/-! Which key sequences the grouper partitions exactly. -/

namespace RustSql.Executor.Grouping

open RustSql.Foundation RustSql.Types

/-- A key value that is no NaN. -/
structure Key where
  value : Value
  number : value.isNaN = false

instance : BEq Key := ⟨fun one two => one.value.sqlEqual two.value⟩

theorem sqlEqual_iff_cmp (one two : Key) : (one == two) = true ↔ one.value.cmp two.value = .eq :=
  Value.sqlEqual_iff one.number two.number

instance : EquivBEq Key where
  rfl {one} := by
    rw [sqlEqual_iff_cmp]
    have swap := Value.cmp_swap one.number one.number
    cases order : one.value.cmp one.value <;> rw [order] at swap <;> cases swap
  symm {one two} same := by
    rw [sqlEqual_iff_cmp] at same ⊢
    rw [Value.cmp_swap one.number two.number, same]
    rfl
  trans {one two three} first second := by
    rw [sqlEqual_iff_cmp] at first second ⊢
    have up := Value.cmp_trans one.number two.number three.number (by rw [first]; rfl) (by rw [second]; rfl)
    have back := Value.cmp_trans three.number two.number one.number
      (by rw [Value.cmp_swap two.number three.number, second]; rfl)
      (by rw [Value.cmp_swap one.number two.number, first]; rfl)
    rw [Value.cmp_swap one.number three.number] at back
    cases order : one.value.cmp three.value <;> rw [order] at up back
    · cases back
    · cases up

/-- Numbers feed the hasher what `hashSql` says of them. -/
theorem hashSqlValue_number (hash : UInt64) {v : Value} {tag : UInt8} {body : List UInt8}
    (number : (∃ i, v = .integer i) ∨ ∃ f, v = .real f) (bytes : v.hashSql = tag :: body) :
    hashSqlValue hash v = write (writeU8 hash tag) body := by
  rcases number with ⟨i, rfl⟩ | ⟨f, rfl⟩
  · cases bytes
    rfl
  · rw [Value.hashSql] at bytes
    rw [hashSqlValue]
    split at bytes
    · rw [if_pos ‹_›]
      cases bytes
      rfl
    · rw [if_neg ‹_›]
      cases bytes
      rfl

theorem hashSqlValue_congr (hash : UInt64) {one two : Key} (same : (one == two) = true) :
    hashSqlValue hash one.value = hashSqlValue hash two.value := by
  have order := (sqlEqual_iff_cmp one two).mp same
  have bytes := Value.hashSql_of_equal one.number two.number order
  obtain ⟨one, number⟩ := one
  obtain ⟨two, number'⟩ := two
  dsimp only at order bytes ⊢
  have numeric : ∀ {v w : Value}, v.hashSql = w.hashSql → ((∃ i, v = .integer i) ∨ ∃ f, v = .real f) →
      ((∃ i, w = .integer i) ∨ ∃ f, w = .real f) → hashSqlValue hash v = hashSqlValue hash w := by
    intro v w equal left right
    cases shape : w.hashSql with
    | nil =>
      rcases right with ⟨i, rfl⟩ | ⟨f, rfl⟩
      · cases shape
      · rw [Value.hashSql] at shape
        split at shape <;> cases shape
    | cons tag body =>
      rw [hashSqlValue_number hash left (equal.trans shape), hashSqlValue_number hash right shape]
  cases one <;> cases two
  case null.null => rfl
  case integer.integer | integer.real | real.integer | real.real =>
    exact numeric bytes (by simp) (by simp)
  case text.text s t | blob.blob s t =>
    have equal : s = t := (compareLex_eq_iff s t).mp order
    rw [equal]
  all_goals cases order

/-- A key of several terms. -/
def KeyTuple := List Key

def KeyTuple.values (key : KeyTuple) : List Value := List.map Key.value key

instance : BEq KeyTuple := ⟨fun one two => HashGrouper.keysEqual one.values two.values⟩

theorem keysEqual_map (one two : List Key) :
    HashGrouper.keysEqual (one.map Key.value) (two.map Key.value) = true ↔
      List.Forall₂ (fun a b : Key => (a == b) = true) one two := by
  rw [HashGrouper.keysEqual]
  induction one generalizing two with
  | nil =>
    cases two with
    | nil => exact iff_of_true rfl .nil
    | cons b two => exact iff_of_false nofun nofun
  | cons a one ih =>
    cases two with
    | nil => exact iff_of_false nofun nofun
    | cons b two =>
      rw [List.forall₂_cons, ← ih two]
      simp only [List.map_cons, List.length_cons, List.zip_cons_cons, List.all_cons,
        Bool.and_eq_true, beq_iff_eq, Nat.add_right_cancel_iff]
      exact and_left_comm

theorem keysEqual_iff (one two : KeyTuple) :
    (one == two) = true ↔ List.Forall₂ (fun a b : Key => (a == b) = true) one two :=
  keysEqual_map one two

instance : EquivBEq KeyTuple where
  rfl {one} := (keysEqual_iff one one).mpr (List.forall₂_same.mpr fun _ _ => BEq.rfl)
  symm {one two} same := (keysEqual_iff two one).mpr
    (((keysEqual_iff one two).mp same).flip.imp fun _ _ => BEq.symm)
  trans {one two three} first second := by
    rw [keysEqual_iff] at first second ⊢
    induction first generalizing three with
    | nil => exact second
    | cons head _ ih =>
      cases second with
      | cons head' rest' => exact .cons (BEq.trans head head') (ih rest')

theorem hashKey_congr {one two : KeyTuple} (same : (one == two) = true) :
    hashKey one.values = hashKey two.values := by
  have folded : ∀ (left right : List Key), List.Forall₂ (fun a b : Key => (a == b) = true) left right →
      ∀ hash, (left.map Key.value).foldl hashSqlValue hash = (right.map Key.value).foldl hashSqlValue hash := by
    intro left right pairs
    induction pairs with
    | nil => exact fun _ => rfl
    | cons head _ ih =>
      intro hash
      rw [List.map_cons, List.map_cons, List.foldl_cons, List.foldl_cons, hashSqlValue_congr hash head]
      exact ih _
  exact folded one two ((keysEqual_iff one two).mp same) 0

namespace ChunkVec

variable {α : Type}

structure Holds (vec : ChunkVec α) (items : List α) : Prop where
  len : vec.len = items.length
  whole : ∀ chunk ∈ vec.chunks, chunk.length = 2 ^ vec.chunkShift
  room : items.length ≤ vec.chunks.length * 2 ^ vec.chunkShift
  cells : ∀ i < items.length, vec.get i = items[i]?

theorem position_eq (shift i : Nat) : position shift i = (i / 2 ^ shift, i % 2 ^ shift) := by
  rw [position, Nat.shiftRight_eq_div_pow, Nat.one_shiftLeft, Nat.and_two_pow_sub_one_eq_mod]

theorem position_inj {shift i j : Nat} (same : position shift i = position shift j) : i = j := by
  rw [position_eq, position_eq, Prod.mk.injEq] at same
  rw [← Nat.div_add_mod i (2 ^ shift), ← Nat.div_add_mod j (2 ^ shift), same.1, same.2]

theorem new_holds (shift : Nat) : Holds (new shift : ChunkVec α) [] where
  len := rfl
  whole _ member := by cases member
  room := Nat.zero_le _
  cells _ below := absurd below (Nat.not_lt_zero _)

theorem push_holds {vec : ChunkVec α} {items : List α} (holds : Holds vec items) (v init : α) :
    Holds (vec.push v init) (items ++ [v]) := by
  have unit : 0 < 2 ^ vec.chunkShift := Nat.two_pow_pos _
  let chunks := if vec.len = vec.chunks.length * 1 <<< vec.chunkShift then
    vec.chunks ++ [List.replicate (1 <<< vec.chunkShift) init] else vec.chunks
  have whole : ∀ chunk ∈ chunks, chunk.length = 2 ^ vec.chunkShift := by
    intro chunk member
    simp only [chunks] at member
    split at member
    · rcases List.mem_append.mp member with old | new
      · exact holds.whole chunk old
      · rw [List.mem_singleton.mp new, List.length_replicate, Nat.one_shiftLeft]
    · exact holds.whole chunk member
  have wide : items.length < chunks.length * 2 ^ vec.chunkShift := by
    have room := holds.room
    simp only [chunks, Nat.one_shiftLeft, holds.len]
    split
    · rw [List.length_append, List.length_singleton, Nat.add_mul, Nat.one_mul]
      omega
    · omega
  have old : ∀ c, c < vec.chunks.length → chunks[c]? = vec.chunks[c]? := by
    intro c below
    simp only [chunks]
    split
    · rw [List.getElem?_append_left below]
    · rfl
  have pushed : vec.push v init = ⟨chunks.modify (position vec.chunkShift vec.len).1 fun entries =>
      entries.set (position vec.chunkShift vec.len).2 v, vec.len + 1, vec.chunkShift⟩ := rfl
  rw [pushed]
  refine ⟨by simp [holds.len], fun chunk member => ?_, ?_, fun i below => ?_⟩
  · obtain ⟨c, here⟩ := List.getElem?_of_mem member
    rw [List.getElem?_modify] at here
    obtain ⟨before, there, rfl⟩ := Option.map_eq_some_iff.mp here
    have size := whole before (List.mem_of_getElem? there)
    split
    · rw [List.length_set]
      exact size
    · exact size
  · rw [List.length_modify, List.length_append, List.length_singleton]
    exact wide
  · rw [get, List.getElem?_modify, position_eq, position_eq, holds.len]
    dsimp only
    rw [List.length_append, List.length_singleton] at below
    by_cases last : i = items.length
    · subst last
      have inside : items.length / 2 ^ vec.chunkShift < chunks.length := (Nat.div_lt_iff_lt_mul unit).mpr wide
      have size := whole _ (List.getElem_mem inside)
      rw [List.getElem?_eq_getElem inside, Option.map_eq_map, Option.map_some, if_pos rfl, Option.bind_some,
        List.getElem?_set_self (by rw [size]; exact Nat.mod_lt _ unit), List.getElem?_concat_length]
    · have before : i < items.length := by omega
      have cell := holds.cells i before
      have inside : i / 2 ^ vec.chunkShift < vec.chunks.length :=
        (Nat.div_lt_iff_lt_mul unit).mpr (before.trans_le holds.room)
      rw [get, position_eq] at cell
      rw [old _ inside, List.getElem?_append_left before, ← cell]
      cases vec.chunks[i / 2 ^ vec.chunkShift]? with
      | none => rfl
      | some entries =>
        rw [Option.map_eq_map, Option.map_some, Option.bind_some, Option.bind_some]
        split
        · rename_i same
          refine List.getElem?_set_ne fun equal => last ?_
          rw [← Nat.div_add_mod i (2 ^ vec.chunkShift), ← same, ← equal, Nat.div_add_mod]
        · rfl

theorem len_push (vec : ChunkVec α) (v init : α) : (vec.push v init).len = vec.len + 1 := rfl

end ChunkVec

namespace HashGrouper

variable {State : Type} [Inhabited State]

theorem pushStates_len (count : Nat) (states : ChunkVec State) :
    (pushStates count states).len = states.len + count := by
  have folded : ∀ items : List Nat, (items.foldl (fun states _ => states.push default default) states).len =
      states.len + items.length := by
    intro items
    induction items using List.reverseRecOn with
    | nil => rfl
    | append_singleton items last ih =>
      rw [List.foldl_append, List.foldl_cons, List.foldl_nil, ChunkVec.len_push, ih, List.length_append,
        List.length_singleton, Nat.add_assoc]
  rw [pushStates, folded, List.length_range]

section Call

variable {κ : Type} [BEq κ] [EquivBEq κ] {hash : κ → UInt64} {kept : List κ} {key : κ}

/-- Whether the group has the key. -/
def holdsKey (kept : List κ) (key : κ) (gi : Nat) : Bool := (kept[gi]?).any (· == key)

omit [EquivBEq κ] in
theorem find_range {limit : Nat} :
    (match (List.range (min limit kept.length)).find? (holdsKey kept key) with
      | some gi => gi < limit ∧ (kept[gi]?).any (· == key) = true ∧ remember limit kept key = kept
      | none => remember limit kept key = kept ++ [key]) := by
  cases found : (List.range (min limit kept.length)).find? (holdsKey kept key) with
  | some gi =>
    have right := List.find?_some found
    obtain ⟨fits, inside⟩ := Nat.lt_min.mp (List.mem_range.mp (List.mem_of_find?_eq_some found))
    refine ⟨fits, right, if_pos (List.any_eq_true.mpr ⟨kept[gi], ?_, ?_⟩)⟩
    · exact List.mem_take_iff_getElem.mpr ⟨gi, Nat.lt_min.mpr ⟨fits, inside⟩, rfl⟩
    · rw [holdsKey, List.getElem?_eq_getElem inside] at right
      exact right
  | none =>
    rw [List.find?_eq_none] at found
    refine if_neg fun known => ?_
    obtain ⟨other, member, same⟩ := List.any_eq_true.mp known
    obtain ⟨gi, below, rfl⟩ := List.mem_take_iff_getElem.mp member
    obtain ⟨fits, inside⟩ := Nat.lt_min.mp below
    refine found gi (List.mem_range.mpr (Nat.lt_min.mpr ⟨fits, inside⟩)) ?_
    rw [holdsKey, List.getElem?_eq_getElem inside]
    exact same

/-- The lists of the grouper are those of the keys kept: their number, their hashes, and the
states in step with them. -/
structure Grouped (hash : κ → UInt64) (width : Nat) (kept : List κ) (grouper : HashGrouper State) : Prop where
  count : grouper.groupCount = kept.length
  hashed : ∀ gi, (h : gi < kept.length) → grouper.hashAt gi = hash kept[gi]
  loaded : Loaded (kept.map hash) grouper.slots grouper.mask
  states : grouper.states.len = kept.length * width
  aggs : kept ≠ [] → grouper.nAggs = width

omit [Inhabited State] in
theorem insertSlot_keeps (grouper : HashGrouper State) (h : UInt64) (gi : Nat) :
    (grouper.insertSlot h gi).keysFlat = grouper.keysFlat ∧
      (grouper.insertSlot h gi).keysMulti = grouper.keysMulti ∧
      (grouper.insertSlot h gi).states = grouper.states ∧ (grouper.insertSlot h gi).nAggs = grouper.nAggs := by
  rw [insertSlot]
  split <;> exact ⟨rfl, rfl, rfl, rfl⟩

omit [Inhabited State] in
/-- The probe and the slot of a new key, over lists that take the key. -/
theorem call_grouped {grouper grown : HashGrouper State} {width : Nat} (grouped : Grouped hash width kept grouper)
    (congr : ∀ one two : κ, (one == two) = true → hash one = hash two)
    (early : EarlyApart groupLimit kept)
    (slots : grown.slots = grouper.slots) (mask : grown.mask = grouper.mask)
    (count : grown.groupCount = kept.length + 1)
    (hashed : ∀ gi, (h : gi < (kept ++ [key]).length) → grown.hashAt gi = hash (kept ++ [key])[gi])
    (states : grown.states.len = (kept.length + 1) * width) (aggs : grown.nAggs = width)
    {eq : Nat → Bool} (agrees : ∀ gi < kept.length, eq gi = holdsKey kept key gi) :
    grouper.probe (hash key) eq =
        (List.range (min groupLimit kept.length)).find? (holdsKey kept key) ∧
      Grouped hash width (kept ++ [key]) (grown.insertSlot (hash key) kept.length) := by
  have length : (kept.map hash).length = kept.length := List.length_map ..
  constructor
  · have probed := @probe_loaded _ grouper (kept.map hash) (hash key) eq grouped.loaded ?_ ?_
    · rw [length] at probed
      refine probed.trans (List.find?_congr fun gi member => ?_)
      exact agrees gi (Nat.lt_min.mp (List.mem_range.mp member)).2
    · intro gi h found right
      rw [List.getElem?_map] at found
      obtain ⟨existing, here, rfl⟩ := Option.map_eq_some_iff.mp found
      rw [agrees gi (List.getElem?_eq_some_iff.mp here).1, holdsKey, here] at right
      exact (congr _ _ right)
    · intro gi gj inside fits inside' fits' right right'
      rw [length] at inside inside'
      rw [agrees gi inside, holdsKey, List.getElem?_eq_getElem inside] at right
      rw [agrees gj inside', holdsKey, List.getElem?_eq_getElem inside'] at right'
      have same : (kept[gi] == kept[gj]) = true := BEq.trans right (BEq.symm right')
      rcases Nat.lt_trichotomy gi gj with less | equal | more
      · rw [early gi gj less fits inside'] at same
        cases same
      · exact equal
      · have back := BEq.symm same
        rw [early gj gi more fits' inside] at back
        cases back
  · have loaded := @insertSlot_loaded _ grown (kept.map hash) (hash key)
      (by rw [slots, mask]; exact grouped.loaded) (by rw [count, length]) (fun gi h found => by
        rw [← List.map_singleton, ← List.map_append, List.getElem?_map] at found
        obtain ⟨existing, here, rfl⟩ := Option.map_eq_some_iff.mp found
        obtain ⟨inside, rfl⟩ := List.getElem?_eq_some_iff.mp here
        exact hashed gi inside)
    rw [length, ← List.map_singleton, ← List.map_append] at loaded
    obtain ⟨flat, multi, stored, number⟩ := insertSlot_keeps grown (hash key) kept.length
    refine ⟨?_, fun gi inside => ?_, loaded, ?_, fun _ => number.trans aggs⟩
    · rw [groupCount, flat, multi, ← groupCount, count, List.length_append, List.length_singleton]
    · rw [hashAt, flat, multi, ← hashAt, hashed gi inside]
    · rw [stored, states, List.length_append, List.length_singleton]

end Call

section Runs

variable {κ : Type} [BEq κ] [EquivBEq κ] {keys : List κ}

/-- What the grouper promises of a sequence of keys. -/
structure Exact (keys : List κ) (numbers : List Nat) (grouper : HashGrouper State) : Prop where
  partition : ∀ (i j : Nat) (one two : κ) (gi gj : Nat), keys[i]? = some one → keys[j]? = some two →
    numbers[i]? = some gi → numbers[j]? = some gj → (gi = gj ↔ (one == two) = true)
  numbered : numbers.length = keys.length ∧ numbers.eraseDups = List.range grouper.groupCount
  vacancy : grouper.slots = [] ∨ ∃ slot ∈ grouper.slots, slot.2 = 0
  separate : ∀ gi gj one two, gi < grouper.groupCount → one < grouper.nAggs → two < grouper.nAggs →
    grouper.stateIndex gi one < grouper.states.len ∧
      (ChunkVec.position grouper.states.chunkShift (grouper.stateIndex gi one) =
        ChunkVec.position grouper.states.chunkShift (grouper.stateIndex gj two) → gi = gj ∧ one = two)

omit [Inhabited State] [BEq κ] [EquivBEq κ] in
theorem runOf_concat (step : HashGrouper State → κ → Nat × HashGrouper State) (grouper : HashGrouper State)
    (keys : List κ) (key : κ) : runOf step grouper (keys ++ [key]) =
      ((runOf step grouper keys).1 ++ [(step (runOf step grouper keys).2 key).1],
        (step (runOf step grouper keys).2 key).2) := by
  rw [runOf, List.foldl_append, List.foldl_cons, List.foldl_nil, ← runOf]

/-- A call finds the first of the looked up groups that has the key, or opens the next. -/
def Calls (step : HashGrouper State → κ → Nat × HashGrouper State)
    (invariant : List κ → HashGrouper State → Prop) : Prop :=
  ∀ (kept : List κ) (key : κ) (grouper : HashGrouper State), invariant kept grouper →
    EarlyApart groupLimit kept →
    (step grouper key).1 =
        ((List.range (min groupLimit kept.length)).find? (holdsKey kept key)).getD kept.length ∧
      invariant (remember groupLimit kept key) (step grouper key).2

variable {step : HashGrouper State → κ → Nat × HashGrouper State}
  {invariant : List κ → HashGrouper State → Prop} {start : HashGrouper State}

theorem eraseDups_concat (numbers : List Nat) (n : Nat) : (numbers ++ [n]).eraseDups =
    if n ∈ numbers then numbers.eraseDups else numbers.eraseDups ++ [n] := by
  rw [List.eraseDups_append]
  by_cases member : n ∈ numbers
  · simp [List.removeAll, member]
  · simp [List.removeAll, member, List.eraseDups_cons]

omit [Inhabited State] in
theorem run_kept (calls : Calls step invariant) (initial : invariant [] start) (keys : List κ) :
    invariant (gather groupLimit keys) (runOf step start keys).2 ∧
      (runOf step start keys).1.length = keys.length ∧
      (runOf step start keys).1.eraseDups = List.range (gather groupLimit keys).length ∧
      ∀ (i : Nat) (key : κ) (gi : Nat), keys[i]? = some key → (runOf step start keys).1[i]? = some gi →
        holdsKey (gather groupLimit keys) key gi = true := by
  induction keys using List.reverseRecOn with
  | nil => exact ⟨initial, rfl, rfl, fun _ _ _ found => by cases found⟩
  | append_singleton keys last ih =>
    obtain ⟨kept, length, numbered, named⟩ := ih
    obtain ⟨number, next⟩ := calls _ last _ kept (gather_early _ _)
    have grows := remember_grows groupLimit (gather groupLimit keys) last
    have old : ∀ key gi, holdsKey (gather groupLimit keys) key gi = true →
        holdsKey (remember groupLimit (gather groupLimit keys) last) key gi = true := by
      intro key gi holds
      rw [holdsKey] at holds ⊢
      cases here : (gather groupLimit keys)[gi]? with
      | none => rw [here] at holds; cases holds
      | some existing =>
        rw [here] at holds
        obtain ⟨more, same⟩ := grows
        rw [← same, List.getElem?_append_left (List.getElem?_eq_some_iff.mp here).1, here]
        exact holds
    have found := @find_range _ _ (gather groupLimit keys) last groupLimit
    rw [runOf_concat, gather_concat, number]
    refine ⟨next, by simp [length], ?_, fun i key gi here numberHere => ?_⟩
    · rw [eraseDups_concat, numbered]
      cases target : (List.range (min groupLimit (gather groupLimit keys).length)).find?
          (holdsKey (gather groupLimit keys) last) with
      | some gi =>
        rw [target] at found
        have below := Nat.lt_min.mp (List.mem_range.mp (List.mem_of_find?_eq_some target))
        have there : gi ∈ (runOf step start keys).1 := by
          rw [← List.mem_eraseDups, numbered]
          exact List.mem_range.mpr below.2
        rw [Option.getD_some, if_pos there, found.2.2]
      | none =>
        rw [target] at found
        have absent : (gather groupLimit keys).length ∉ (runOf step start keys).1 := by
          rw [← List.mem_eraseDups, numbered]
          exact List.not_mem_range_self
        rw [Option.getD_none, if_neg absent, found, List.length_append, List.length_singleton,
          List.range_succ]
    · by_cases before : i < keys.length
      · rw [List.getElem?_append_left before] at here
        rw [List.getElem?_append_left (length ▸ before)] at numberHere
        exact old key gi (named i key gi here numberHere)
      · obtain rfl : i = keys.length := by
          have bound := (List.getElem?_eq_some_iff.mp here).1
          rw [List.length_append, List.length_singleton] at bound
          omega
        rw [List.getElem?_concat_length] at here
        rw [← length, List.getElem?_concat_length] at numberHere
        obtain rfl := Option.some.inj here
        obtain rfl := Option.some.inj numberHere
        cases target : (List.range (min groupLimit (gather groupLimit keys).length)).find?
            (holdsKey (gather groupLimit keys) last) with
        | some gi =>
          rw [target] at found
          exact old last gi found.2.1
        | none =>
          rw [target] at found
          rw [found, Option.getD_none, holdsKey, List.getElem?_concat_length]
          exact BEq.rfl

omit [Inhabited State] in
/-- The promises are kept exactly where all repeats are early. -/
theorem exact_iff {hash : κ → UInt64} {width : Nat} (calls : Calls step invariant)
    (initial : invariant [] start)
    (grouped : ∀ kept grouper, invariant kept grouper → Grouped hash width kept grouper) :
    Exact keys (runOf step start keys).1 (runOf step start keys).2 ↔ EarlyRepeats groupLimit keys := by
  obtain ⟨kept, length, numbered, named⟩ := run_kept calls initial keys
  have group := grouped _ _ kept
  have found : ∀ {key : κ} {gi : Nat}, holdsKey (gather groupLimit keys) key gi = true →
      ∃ inside : gi < (gather groupLimit keys).length, ((gather groupLimit keys)[gi] == key) = true := by
    intro key gi holds
    rw [holdsKey] at holds
    cases here : (gather groupLimit keys)[gi]? with
    | none => rw [here] at holds; cases holds
    | some existing =>
      obtain ⟨inside, rfl⟩ := List.getElem?_eq_some_iff.mp here
      rw [here] at holds
      exact ⟨inside, holds⟩
  rw [← apart_gather_iff]
  constructor
  · intro exact
    refine List.pairwise_iff_getElem.mpr fun one two inside inside' order => ?_
    by_contra same
    rw [Bool.not_eq_false] at same
    -- both groups were named by some key
    have origin : ∀ gi, ∀ _inside : gi < (gather groupLimit keys).length, ∃ (i : Nat) (key : κ),
        keys[i]? = some key ∧ (runOf step start keys).1[i]? = some gi ∧
          ((gather groupLimit keys)[gi] == key) = true := by
      intro gi inside
      have member : gi ∈ (runOf step start keys).1 := by
        rw [← List.mem_eraseDups, numbered]
        exact List.mem_range.mpr inside
      obtain ⟨i, here⟩ := List.getElem?_of_mem member
      have bound := (List.getElem?_eq_some_iff.mp here).1
      rw [length] at bound
      have there : keys[i]? = some keys[i] := List.getElem?_eq_getElem bound
      obtain ⟨_, equal⟩ := found (named i keys[i] gi there here)
      exact ⟨i, keys[i], there, here, equal⟩
    obtain ⟨i, key, here, number, equal⟩ := origin one inside
    obtain ⟨j, key', here', number', equal'⟩ := origin two inside'
    have merged := (exact.partition i j key key' one two here here' number number').mpr
      (BEq.trans (BEq.symm equal) (BEq.trans same equal'))
    exact absurd merged (Nat.ne_of_lt order)
  · intro apart
    refine ⟨fun i j one two gi gj here here' number number' => ?_, ⟨length, by rw [numbered, group.count]⟩,
      ?_, fun gi gj one two inside below below' => ?_⟩
    · obtain ⟨inside, equal⟩ := found (named i one gi here number)
      obtain ⟨inside', equal'⟩ := found (named j two gj here' number')
      constructor
      · rintro rfl
        exact BEq.trans (BEq.symm equal) equal'
      · intro same
        have alike := BEq.trans equal (BEq.trans same (BEq.symm equal'))
        rcases Nat.lt_trichotomy gi gj with less | equal | more
        · rw [List.pairwise_iff_getElem.mp apart gi gj inside inside' less] at alike
          cases alike
        · exact equal
        · have back := BEq.symm alike
          rw [List.pairwise_iff_getElem.mp apart gj gi inside' inside more] at back
          cases back
    · cases group.loaded with
      | empty none bare zero => exact Or.inl bare
      | filled bits large table load =>
        obtain ⟨n, _, free⟩ := table.vacancy (by have full := table.full; omega)
        rw [vacant] at free
        cases here : (runOf step start keys).2.slots[n]? with
        | none => rw [here] at free; cases free
        | some slot =>
          rw [here] at free
          exact Or.inr ⟨slot, List.mem_of_getElem? here, beq_iff_eq.mp free⟩
    · rw [group.count] at inside
      have some : gather groupLimit keys ≠ [] := fun none => by rw [none] at inside; cases inside
      rw [group.aggs some] at below below'
      rw [stateIndex, stateIndex, group.aggs some, group.states]
      refine ⟨?_, fun same => ?_⟩
      · calc gi * width + one < gi * width + width := Nat.add_lt_add_left below _
          _ = (gi + 1) * width := (Nat.succ_mul gi width).symm
          _ ≤ (gather groupLimit keys).length * width := Nat.mul_le_mul_right _ inside
      · have index := ChunkVec.position_inj same
        have quotient := congrArg (· / width) index
        have rest := congrArg (· % width) index
        simp only [Nat.mul_add_mod_of_lt below, Nat.mul_add_mod_of_lt below'] at rest
        have wide : 0 < width := Nat.lt_of_le_of_lt (Nat.zero_le _) below
        simp only [Nat.mul_comm _ width, Nat.mul_add_div wide, Nat.div_eq_of_lt below,
          Nat.div_eq_of_lt below', Nat.add_zero] at quotient
        exact ⟨quotient, rest⟩

end Runs

/-- The states a group takes. -/
def widthOf (nAggs : Nat) : Nat := if nAggs = 0 then 1 else nAggs

/-- The grouper over keys of one term. -/
structure FlatKept (nAggs : Nat) (kept : List Key) (grouper : HashGrouper State) : Prop where
  grouped : Grouped (fun key : Key => hashSqlValue 0 key.value) (widthOf nAggs) kept grouper
  fresh : kept = [] → grouper.nAggs = nAggs
  multi : grouper.keysMulti = []
  none : grouper.keysFlat = none → kept = []
  flat : ∀ keys, grouper.keysFlat = some keys → ChunkVec.Holds keys (kept.map Key.value)

/-- The grouper over keys of several terms. -/
structure MultiKept (nAggs : Nat) (kept : List KeyTuple) (grouper : HashGrouper State) : Prop where
  grouped : Grouped (fun key : KeyTuple => hashKey key.values) (widthOf nAggs) kept grouper
  fresh : kept = [] → grouper.nAggs = nAggs
  flat : grouper.keysFlat = none
  multi : grouper.keysMulti = kept.map KeyTuple.values

/-- A grouper that counts no aggregates takes one state for each group. -/
def normal (grouper : HashGrouper State) : HashGrouper State :=
  if grouper.nAggs = 0 then { grouper with nAggs := 1 } else grouper

omit [Inhabited State] in
theorem normal_keeps (grouper : HashGrouper State) :
    (normal grouper).slots = grouper.slots ∧ (normal grouper).mask = grouper.mask ∧
      (normal grouper).keysFlat = grouper.keysFlat ∧ (normal grouper).keysMulti = grouper.keysMulti ∧
      (normal grouper).states = grouper.states ∧ (normal grouper).nAggs = widthOf grouper.nAggs := by
  rw [normal, widthOf]
  split <;> exact ⟨rfl, rfl, rfl, rfl, rfl, rfl⟩

omit [Inhabited State] in
theorem normal_grouped {κ : Type} [BEq κ] {hash : κ → UInt64} {nAggs : Nat} {kept : List κ}
    {grouper : HashGrouper State} (grouped : Grouped hash (widthOf nAggs) kept grouper)
    (fresh : kept = [] → grouper.nAggs = nAggs) :
    Grouped hash (widthOf nAggs) kept (normal grouper) ∧ (normal grouper).nAggs = widthOf nAggs := by
  obtain ⟨slots, mask, flat, multi, states, aggs⟩ := normal_keeps grouper
  have width : (normal grouper).nAggs = widthOf nAggs := by
    rw [aggs]
    by_cases none : kept = []
    · rw [fresh none]
    · rw [grouped.aggs none, widthOf, widthOf]
      split <;> simp_all
  refine ⟨⟨?_, fun gi inside => ?_, ?_, ?_, fun _ => width⟩, width⟩
  · rw [groupCount, flat, multi, ← groupCount, grouped.count]
  · rw [hashAt, flat, multi, ← hashAt, grouped.hashed gi inside]
  · rw [slots, mask]
    exact grouped.loaded
  · rw [states, grouped.states]

theorem internOne_calls (nAggs : Nat) :
    Calls (fun (grouper : HashGrouper State) (key : Key) => grouper.internOne key.value) (FlatKept nAggs) := by
  intro kept key grouper inv early
  obtain ⟨grouped, width⟩ := normal_grouped inv.grouped inv.fresh
  obtain ⟨slots, mask, flat, multi, states, aggs⟩ := normal_keeps grouper
  have held : ChunkVec.Holds ((normal grouper).keysFlat.getD (ChunkVec.new 9)) (kept.map Key.value) := by
    rw [flat]
    cases stored : grouper.keysFlat with
    | none =>
      rw [inv.none stored]
      exact ChunkVec.new_holds 9
    | some keys => exact inv.flat keys stored
  have len : ((normal grouper).keysFlat.getD (ChunkVec.new 9)).len = kept.length := by
    rw [held.len, List.length_map]
  have pushed := ChunkVec.push_holds held key.value Value.null
  rw [← List.map_singleton, ← List.map_append] at pushed
  obtain ⟨probed, next⟩ := @call_grouped State Key _ _ (fun key => hashSqlValue 0 key.value) kept key
    (normal grouper) { normal grouper with
      keysFlat := some (((normal grouper).keysFlat.getD (ChunkVec.new 9)).push key.value .null)
      states := pushStates (normal grouper).nAggs (normal grouper).states } _ grouped
    (fun _ _ same => hashSqlValue_congr 0 same) early rfl rfl (by rw [groupCount]; exact congrArg (· + 1) len)
    (fun gi inside => by
      have cell := pushed.cells gi (by rw [List.length_map]; exact inside)
      rw [List.getElem?_map, List.getElem?_eq_getElem inside] at cell
      exact congrArg (fun found => hashKey found.toList) cell)
    (by rw [pushStates_len, grouped.states, width, Nat.succ_mul]) width
    (fun gi => ((normal grouper).flatKey gi).any fun existing => existing.sqlEqual key.value)
    (fun gi inside => by
      rw [flatKey, flat, holdsKey]
      cases stored : grouper.keysFlat with
      | none => rw [inv.none stored] at inside; cases inside
      | some keys =>
        rw [Option.bind_some, (inv.flat keys stored).cells gi (by rw [List.length_map]; exact inside),
          List.getElem?_map, Option.any_map]
        rfl)
  have unfolded : grouper.internOne key.value =
      match (normal grouper).probe (hashSqlValue 0 key.value)
        (fun gi => ((normal grouper).flatKey gi).any fun existing => existing.sqlEqual key.value) with
      | some gi => (gi, normal grouper)
      | none => (((normal grouper).keysFlat.getD (ChunkVec.new 9)).len,
        insertSlot { normal grouper with
          keysFlat := some (((normal grouper).keysFlat.getD (ChunkVec.new 9)).push key.value .null)
          states := pushStates (normal grouper).nAggs (normal grouper).states }
          (hashSqlValue 0 key.value) ((normal grouper).keysFlat.getD (ChunkVec.new 9)).len) := rfl
  have found := @find_range _ _ kept key groupLimit
  dsimp only
  rw [unfolded, probed]
  cases target : (List.range (min groupLimit kept.length)).find? (holdsKey kept key) with
  | some gi =>
    rw [target] at found
    rw [found.2.2]
    have some : kept ≠ [] := fun none => by rw [none] at found; cases found.2.1
    exact ⟨rfl, grouped, fun none => absurd none some, multi.trans inv.multi,
      fun none => inv.none (flat.symm.trans none), fun keys stored => inv.flat keys (flat.symm.trans stored)⟩
  | none =>
    rw [target] at found
    rw [found, len]
    obtain ⟨flat', multi', states', aggs'⟩ := insertSlot_keeps { normal grouper with
      keysFlat := some (((normal grouper).keysFlat.getD (ChunkVec.new 9)).push key.value .null)
      states := pushStates (normal grouper).nAggs (normal grouper).states } (hashSqlValue 0 key.value) kept.length
    refine ⟨rfl, next, fun none => absurd none (by simp), multi'.trans (multi.trans inv.multi),
      fun none => ?_, fun keys stored => ?_⟩
    · rw [flat'] at none
      cases none
    · rw [flat'] at stored
      obtain rfl := Option.some.inj stored
      exact pushed

theorem intern_calls (nAggs : Nat) :
    Calls (fun (grouper : HashGrouper State) (key : KeyTuple) => grouper.intern key.values) (MultiKept nAggs) := by
  intro kept key grouper inv early
  obtain ⟨grouped, width⟩ := normal_grouped inv.grouped inv.fresh
  obtain ⟨slots, mask, flat, multi, states, aggs⟩ := normal_keeps grouper
  have len : (normal grouper).keysMulti.length = kept.length := by rw [multi, inv.multi, List.length_map]
  have pushed : (normal grouper).keysMulti ++ [key.values] = (kept ++ [key]).map KeyTuple.values := by
    rw [multi, inv.multi, List.map_append, List.map_singleton]
  obtain ⟨probed, next⟩ := @call_grouped State KeyTuple _ _ (fun key => hashKey key.values) kept key
    (normal grouper) { normal grouper with
      keysMulti := (normal grouper).keysMulti ++ [key.values]
      states := pushStates (normal grouper).nAggs (normal grouper).states } _ grouped
    (fun _ _ same => hashKey_congr same) early rfl rfl
    (by rw [groupCount, flat, inv.flat, pushed, List.length_map, List.length_append, List.length_singleton])
    (fun gi inside => by
      rw [hashAt, flat, inv.flat, pushed, List.getElem?_map, List.getElem?_eq_getElem inside]
      rfl)
    (by rw [pushStates_len, grouped.states, width, Nat.succ_mul]) width
    (fun gi => ((normal grouper).keysMulti[gi]?).any fun existing => keysEqual existing key.values)
    (fun gi inside => by
      rw [multi, inv.multi, holdsKey, List.getElem?_map, Option.any_map]
      rfl)
  have unfolded : grouper.intern key.values =
      match (normal grouper).probe (hashKey key.values)
        (fun gi => ((normal grouper).keysMulti[gi]?).any fun existing => keysEqual existing key.values) with
      | some gi => (gi, normal grouper)
      | none => ((normal grouper).keysMulti.length,
        insertSlot { normal grouper with
          keysMulti := (normal grouper).keysMulti ++ [key.values]
          states := pushStates (normal grouper).nAggs (normal grouper).states }
          (hashKey key.values) (normal grouper).keysMulti.length) := rfl
  have found := @find_range _ _ kept key groupLimit
  dsimp only
  rw [unfolded, probed]
  cases target : (List.range (min groupLimit kept.length)).find? (holdsKey kept key) with
  | some gi =>
    rw [target] at found
    rw [found.2.2]
    have some : kept ≠ [] := fun none => by rw [none] at found; cases found.2.1
    exact ⟨rfl, grouped, fun none => absurd none some, flat.trans inv.flat, multi.trans inv.multi⟩
  | none =>
    rw [target] at found
    rw [found, len]
    obtain ⟨flat', multi', states', aggs'⟩ := insertSlot_keeps { normal grouper with
      keysMulti := (normal grouper).keysMulti ++ [key.values]
      states := pushStates (normal grouper).nAggs (normal grouper).states } (hashKey key.values) kept.length
    exact ⟨rfl, next, fun none => absurd none (by simp), flat'.trans (flat.trans inv.flat), multi'.trans pushed⟩

omit [Inhabited State] in
theorem empty_grouped {κ : Type} [BEq κ] (hash : κ → UInt64) (nAggs : Nat) :
    Grouped hash (widthOf nAggs) [] (withAggs nAggs : HashGrouper State) where
  count := rfl
  hashed _ inside := absurd inside (Nat.not_lt_zero _)
  loaded := .empty rfl rfl rfl
  states := (Nat.zero_mul _).symm
  aggs none := absurd rfl none

variable (State)

/-- The promises for a sequence of single keys. -/
def ExactOne (nAggs : Nat) (keys : List Key) : Prop :=
  let run := runOf (fun (grouper : HashGrouper State) (key : Key) => grouper.internOne key.value)
    (withAggs nAggs) keys
  Exact keys run.1 run.2

/-- The same for key tuples. -/
def ExactTuples (nAggs : Nat) (keys : List KeyTuple) : Prop :=
  let run := runOf (fun (grouper : HashGrouper State) (key : KeyTuple) => grouper.intern key.values)
    (withAggs nAggs) keys
  Exact keys run.1 run.2

theorem exactOne_iff (nAggs : Nat) (keys : List Key) :
    ExactOne State nAggs keys ↔ EarlyRepeats groupLimit keys :=
  exact_iff (internOne_calls nAggs) ⟨empty_grouped _ nAggs, fun _ => rfl, rfl, fun _ => rfl,
    fun _ stored => by cases stored⟩ fun _ _ inv => inv.grouped

theorem exactTuples_iff (nAggs : Nat) (keys : List KeyTuple) :
    ExactTuples State nAggs keys ↔ EarlyRepeats groupLimit keys :=
  exact_iff (intern_calls nAggs) ⟨empty_grouped _ nAggs, fun _ => rfl, rfl, rfl⟩ fun _ _ inv => inv.grouped

/-- The grouper is exact on a sequence of keys just where no key that was new after the first
`2^32 - 1` comes again. -/
theorem grouper_exact_iff (nAggs : Nat) :
    (∀ keys : List Key, ExactOne State nAggs keys ↔ EarlyRepeats groupLimit keys) ∧
      ∀ keys : List KeyTuple, ExactTuples State nAggs keys ↔ EarlyRepeats groupLimit keys :=
  ⟨exactOne_iff State nAggs, exactTuples_iff State nAggs⟩

def wholeKey (n : Nat) : Key := ⟨.integer (Int64.ofNat n), rfl⟩

/-- The integers from 0 to `n`, and `n` again. -/
def counting (n : Nat) : List Key := (List.range n).map wholeKey ++ [wholeKey n, wholeKey n]

theorem counting_late {limit n : Nat} (late : limit ≤ n) (small : n < 2 ^ 63) :
    ¬ EarlyRepeats limit (counting n) := by
  intro repeats
  have distinct : ∀ {i j : Nat}, i < j → j ≤ n →
      (wholeKey i == wholeKey j) = false := by
    intro i j less bound
    change (Int64.ofNat i == Int64.ofNat j) = false
    refine beq_false_of_ne fun same => ?_
    have value := congrArg Int64.toInt same
    rw [Int64.toInt_ofNat_of_lt (by omega), Int64.toInt_ofNat_of_lt (by omega)] at value
    omega
  have few := repeats ((List.range n).map wholeKey) (wholeKey n) [] (wholeKey n) [] (by simp [counting])
    (fun other member => ?_) BEq.rfl
  · rw [firstSeen_of_apart, List.length_map, List.length_range] at few
    · exact absurd few (Nat.not_lt.mpr late)
    · refine List.pairwise_map.mpr (List.pairwise_lt_range.imp_of_mem fun _ member less => ?_)
      exact distinct less (List.mem_range.mp member).le
  · obtain ⟨i, below, rfl⟩ := List.mem_map.mp member
    exact distinct (List.mem_range.mp below) le_rfl

/-- The number of the last group does not fit its slot, so its key is not found again. -/
theorem last_group_lost : ¬ ExactOne Unit 1 (counting (2 ^ 32 - 1)) := by
  rw [exactOne_iff]
  exact counting_late (Nat.le_refl groupLimit) (by decide)

end HashGrouper

end RustSql.Executor.Grouping
