import Mathlib.Data.List.Lemmas
import Mathlib.Data.List.Nodup
import RustSql.Foundation.Checked

/-! Hash tables that chain entry numbers, over slots that hold an entry or nothing. -/

namespace RustSql.Foundation

structure HashChains (α : Type) where
  buckets : List (List Nat)
  entries : List (Option α)

namespace HashChains

variable {α κ ε : Type}

def empty : HashChains α := ⟨[], []⟩

/-- The entry a number names. -/
def live (t : HashChains α) (id : Nat) : Option α := t.entries[id]?.join

def chain (t : HashChains α) (b : Nat) : List Nat := t.buckets[b]?.getD []

/-- The occupied slots. -/
def count (t : HashChains α) : Nat := t.entries.countP Option.isSome

/-- One entry moves to the head of its new chain; an empty slot cannot be unwrapped. -/
def moveEntry (t : HashChains α) (slot : α → Checked ε Nat) (fresh : List (List Nat)) (id : Nat) :
    Checked ε (List (List Nat)) :=
  match t.live id with
  | none => .error .slice
  | some e => do
    let b ← slot e
    .ok (fresh.modify b (id :: ·))

/-- All chains, head first, into `n` new buckets. -/
def rehash (t : HashChains α) (slot : α → Checked ε Nat) (n : Nat) : Checked ε (HashChains α) := do
  let fresh ← t.buckets.flatten.foldlM (t.moveEntry slot) (List.replicate n [])
  .ok { t with buckets := fresh }

/-- Twice the buckets once they are half as many as the entries; the first ones come on demand. -/
def grow (t : HashChains α) (slot : Nat → α → Checked ε Nat) (initial nEntry : Nat) :
    Checked ε (HashChains α) :=
  if t.buckets = [] ∨ t.buckets.length / 2 ≤ nEntry then
    let n := if t.buckets = [] then initial else t.buckets.length * 2
    t.rehash (slot n) n
  else .ok t

/-- The first of a chain that is the one looked for; `missing` answers for an empty slot. -/
def find (t : HashChains α) (missing : Checked ε Bool) (same : α → Checked ε Bool) :
    List Nat → Checked ε (Option Nat)
  | [] => .ok none
  | id :: rest => do
    let found ← match t.live id with
      | some e => same e
      | none => missing
    if found then .ok (some id) else t.find missing same rest

/-- A new entry at the head of a chain. -/
def insert (t : HashChains α) (b : Nat) (e : α) : HashChains α :=
  ⟨t.buckets.modify b (t.entries.length :: ·), t.entries ++ [some e]⟩

def replace (t : HashChains α) (id : Nat) (e : α) : HashChains α :=
  { t with entries := t.entries.set id (some e) }

def remove (t : HashChains α) (b id : Nat) : HashChains α :=
  ⟨t.buckets.modify b (·.filter (· ≠ id)), t.entries.set id none⟩

/-- Each entry is once in the chain of its key, and no key has two entries. -/
structure Filed (t : HashChains α) (key : α → κ) (hash : κ → Nat) : Prop where
  chained : ∀ b id, id ∈ t.chain b ↔ ∃ e, t.live id = some e ∧ hash (key e) % t.buckets.length = b
  once : ∀ b, (t.chain b).Nodup
  distinct : ∀ {id id' e e'}, t.live id = some e → t.live id' = some e' → key e = key e' → id = id'

/-- The table has this entry. -/
def Has (t : HashChains α) (e : α) : Prop := ∃ id, t.live id = some e

/-- The answer of a lookup. -/
def Located (t : HashChains α) (key : α → κ) (k : κ) (answer : Option Nat) : Prop :=
  ∀ id, answer = some id ↔ ∃ e, t.live id = some e ∧ key e = k

variable {t : HashChains α} {key : α → κ} {hash : κ → Nat}

theorem live_lt {id : Nat} {e : α} (found : t.live id = some e) : id < t.entries.length := by
  by_contra outside
  rw [live, List.getElem?_eq_none (by omega)] at found
  cases found

theorem live_iff {id : Nat} {e : α} : t.live id = some e ↔ t.entries[id]? = some (some e) := by
  rw [live, Option.join_eq_some_iff]

theorem mem_flatten_iff {id : Nat} : id ∈ t.buckets.flatten ↔ ∃ b, id ∈ t.chain b := by
  constructor
  · intro member
    obtain ⟨ids, bucket, member⟩ := List.mem_flatten.mp member
    obtain ⟨b, inside, rfl⟩ := List.mem_iff_getElem.mp bucket
    exact ⟨b, by rw [chain, List.getElem?_eq_getElem inside]; exact member⟩
  · rintro ⟨b, member⟩
    by_cases inside : b < t.buckets.length
    · rw [chain, List.getElem?_eq_getElem inside] at member
      exact List.mem_flatten.mpr ⟨_, List.getElem_mem inside, member⟩
    · rw [chain, List.getElem?_eq_none (by omega)] at member
      cases member

namespace Filed

theorem mem_flatten (filed : t.Filed key hash) {id : Nat} :
    id ∈ t.buckets.flatten ↔ ∃ e, t.live id = some e := by
  rw [mem_flatten_iff]
  constructor
  · rintro ⟨b, member⟩
    obtain ⟨e, found, _⟩ := (filed.chained b id).mp member
    exact ⟨e, found⟩
  · rintro ⟨e, found⟩
    exact ⟨_, (filed.chained _ id).mpr ⟨e, found, rfl⟩⟩

theorem nodup_flatten (filed : t.Filed key hash) : t.buckets.flatten.Nodup := by
  rw [List.nodup_flatten]
  constructor
  · intro ids bucket
    obtain ⟨b, inside, rfl⟩ := List.mem_iff_getElem.mp bucket
    have once := filed.once b
    rwa [chain, List.getElem?_eq_getElem inside] at once
  · rw [List.pairwise_iff_getElem]
    intro b c first second below id left right
    have low : id ∈ t.chain b := by rwa [chain, List.getElem?_eq_getElem first]
    have high : id ∈ t.chain c := by rwa [chain, List.getElem?_eq_getElem second]
    obtain ⟨e, found, home⟩ := (filed.chained b id).mp low
    obtain ⟨e', found', home'⟩ := (filed.chained c id).mp high
    rw [found] at found'
    cases found'
    omega

end Filed

theorem filed_empty : (empty : HashChains α).Filed key hash := by
  have nothing : ∀ b, (empty : HashChains α).chain b = [] := fun b => by simp [chain, empty]
  have dead : ∀ id, (empty : HashChains α).live id = none := fun id => by simp [live, empty]
  refine ⟨fun b id => ?_, fun b => ?_, fun found => ?_⟩
  · rw [nothing, dead]
    exact ⟨nofun, fun ⟨_, found, _⟩ => nomatch found⟩
  · rw [nothing]
    exact List.nodup_nil
  · rw [dead] at found
    cases found

/-- A table without entries is filed under any key. -/
theorem Filed.rekey (filed : t.Filed key hash) (dead : ∀ id, t.live id = none) {t' : HashChains α}
    (same : t'.buckets = t.buckets) (dead' : ∀ id, t'.live id = none) {κ' : Type} (key' : α → κ')
    (hash' : κ' → Nat) : t'.Filed key' hash' := by
  have chains : ∀ b, t'.chain b = [] := by
    intro b
    have old : t'.chain b = t.chain b := by rw [chain, chain, same]
    rw [old]
    apply List.eq_nil_iff_forall_not_mem.mpr
    intro id member
    obtain ⟨e, found, _⟩ := (filed.chained b id).mp member
    rw [dead] at found
    cases found
  refine ⟨fun b id => ?_, fun b => ?_, fun found => ?_⟩
  · rw [chains, dead']
    exact ⟨nofun, fun ⟨_, found, _⟩ => nomatch found⟩
  · rw [chains]
    exact List.nodup_nil
  · rw [dead'] at found
    cases found

theorem count_eq_zero : t.count = 0 ↔ ∀ id, t.live id = none := by
  rw [count, List.countP_eq_zero]
  constructor
  · intro empty id
    cases found : t.live id with
    | none => rfl
    | some e =>
      have slot := live_iff.mp found
      exact absurd rfl (empty _ (List.mem_of_getElem? slot))
  · intro dead slot member
    obtain ⟨id, inside, rfl⟩ := List.mem_iff_getElem.mp member
    have none := dead id
    rw [live, List.getElem?_eq_getElem inside, Option.join_some] at none
    rw [none]
    exact Bool.false_ne_true

/-- The chains of the new buckets are the moved entries in reverse. -/
theorem foldlM_moveEntry {slot : α → Checked ε Nat} {home : Nat → Nat} (ids : List Nat)
    (slots : ∀ id ∈ ids, ∃ e, t.live id = some e ∧ slot e = .ok (home id))
    (fresh : List (List Nat)) :
    ids.foldlM (t.moveEntry slot) fresh =
      .ok (fresh.mapIdx fun b chain => (ids.filter (home · = b)).reverse ++ chain) := by
  induction ids generalizing fresh with
  | nil =>
    rw [List.foldlM_nil]
    congr 1
    exact (List.ext_getElem (by simp) (by simp)).symm
  | cons id ids ih =>
    obtain ⟨e, found, bucket⟩ := slots id List.mem_cons_self
    rw [List.foldlM_cons, moveEntry, found]
    simp only
    rw [bucket, Checked.ok_bind, Checked.ok_bind,
      ih fun other member => slots other (List.mem_cons_of_mem _ member)]
    congr 1
    apply List.ext_getElem (by simp)
    intro b inside _
    simp only [List.getElem_mapIdx, List.getElem_modify, List.filter_cons, decide_eq_true_eq]
    split
    · simp
    · rfl

theorem Filed.rehash (filed : t.Filed key hash) {slot : α → Checked ε Nat} {n : Nat}
    (positive : 0 < n) (slots : ∀ id e, t.live id = some e → slot e = .ok (hash (key e) % n)) :
    ∃ buckets, t.rehash slot n = .ok { t with buckets } ∧ buckets.length = n ∧
      ({ t with buckets } : HashChains α).Filed key hash := by
  let home id := ((t.live id).map fun e => hash (key e) % n).getD 0
  have homes : ∀ {id e}, t.live id = some e → home id = hash (key e) % n := by
    intro id e found
    simp only [home, found, Option.map_some, Option.getD_some]
  have moved := @foldlM_moveEntry α ε t slot home t.buckets.flatten
    (fun id member => by
      obtain ⟨e, found⟩ := filed.mem_flatten.mp member
      exact ⟨e, found, by rw [slots id e found, homes found]⟩)
    (List.replicate n [])
  refine ⟨_, by rw [HashChains.rehash, moved, Checked.ok_bind], by simp, ?_⟩
  have chains : ∀ b, ({ t with
      buckets := (List.replicate n []).mapIdx fun b chain =>
        (t.buckets.flatten.filter (home · = b)).reverse ++ chain } : HashChains α).chain b =
      if b < n then (t.buckets.flatten.filter (home · = b)).reverse else [] := by
    intro b
    simp only [chain, List.getElem?_mapIdx, List.getElem?_replicate]
    split <;> simp
  refine ⟨fun b id => ?_, fun b => ?_, filed.distinct⟩
  · rw [chains]
    simp only [List.length_mapIdx, List.length_replicate]
    constructor
    · intro member
      split at member
      · rw [List.mem_reverse, List.mem_filter, filed.mem_flatten] at member
        obtain ⟨⟨e, found⟩, at_home⟩ := member
        exact ⟨e, found, by rw [← homes found]; exact of_decide_eq_true at_home⟩
      · cases member
    · rintro ⟨e, found, rfl⟩
      rw [if_pos (Nat.mod_lt _ positive), List.mem_reverse, List.mem_filter, filed.mem_flatten]
      exact ⟨⟨e, found⟩, decide_eq_true (homes found)⟩
  · rw [chains]
    split
    · exact List.nodup_reverse.mpr (filed.nodup_flatten.filter _)
    · exact List.nodup_nil

/-- No entry can move when none has a slot. -/
theorem Filed.rehash_error (filed : t.Filed key hash) {slot : α → Checked ε Nat} {fault : Fault ε}
    {n : Nat} {e : α} (has : t.Has e) (slots : ∀ id e, t.live id = some e → slot e = .error fault) :
    t.rehash slot n = .error fault := by
  obtain ⟨id, found⟩ := has
  have member := filed.mem_flatten.mpr ⟨e, found⟩
  rw [HashChains.rehash]
  match ids : t.buckets.flatten with
  | [] =>
    rw [ids] at member
    cases member
  | first :: rest =>
    obtain ⟨e', found'⟩ := filed.mem_flatten.mp (by rw [ids]; exact List.mem_cons_self)
    rw [List.foldlM_cons, moveEntry, found']
    simp only
    rw [slots first e' found']
    rfl

theorem Filed.vacant (filed : t.Filed key hash) (none : t.buckets = []) (id : Nat) :
    t.live id = Option.none := by
  cases found : t.live id with
  | none => rfl
  | some e =>
    have member := (filed.chained _ id).mpr ⟨e, found, rfl⟩
    rw [chain, none] at member
    cases member

/-- The number of buckets a table grows to. -/
def grown (t : HashChains α) (initial : Nat) : Nat :=
  if t.buckets = [] then initial else t.buckets.length * 2

theorem grown_pos (t : HashChains α) {initial : Nat} (positive : 0 < initial) :
    0 < t.grown initial := by
  unfold grown
  split
  · exact positive
  next some =>
    have buckets := List.length_pos_iff.mpr some
    omega

theorem Filed.grow (filed : t.Filed key hash) {slot : Nat → α → Checked ε Nat}
    {initial nEntry : Nat} (positive : 0 < initial)
    (slots : t.buckets ≠ [] → t.buckets.length / 2 ≤ nEntry → ∀ id e, t.live id = some e →
      slot (t.grown initial) e = .ok (hash (key e) % t.grown initial)) :
    ∃ buckets, t.grow slot initial nEntry = .ok { t with buckets } ∧
      ({ t with buckets } : HashChains α).Filed key hash ∧ buckets ≠ [] ∧
      (buckets = t.buckets ∧ nEntry < t.buckets.length / 2 ∨
        buckets.length = t.grown initial ∧
          (t.buckets = [] ∨ t.buckets.length / 2 ≤ nEntry)) := by
  unfold HashChains.grow
  by_cases full : t.buckets = [] ∨ t.buckets.length / 2 ≤ nEntry
  · rw [if_pos full]
    have more := t.grown_pos positive
    obtain ⟨buckets, moved, width, filed'⟩ := @Filed.rehash α κ ε t key hash filed
      (slot (t.grown initial)) (t.grown initial) more (by
        intro id e found
        by_cases none : t.buckets = []
        · rw [filed.vacant none] at found
          cases found
        · exact slots none (full.resolve_left none) id e found)
    exact ⟨buckets, moved, filed', List.length_pos_iff.mp (by omega), .inr ⟨width, full⟩⟩
  · rw [if_neg full]
    obtain ⟨some, few⟩ := not_or.mp full
    exact ⟨t.buckets, rfl, filed, some, .inl ⟨rfl, Nat.lt_of_not_le few⟩⟩

/-- The chain of a key has the entry of the key, or the table has none. -/
theorem Filed.find (filed : t.Filed key hash) {missing : Checked ε Bool}
    {same : α → Checked ε Bool} [DecidableEq κ] {k : κ}
    (sound : ∀ id e, t.live id = some e → same e = .ok (decide (key e = k))) :
    ∃ answer, t.find missing same (t.chain (hash k % t.buckets.length)) = .ok answer ∧
      t.Located key k answer := by
  have walk : ∀ ids : List Nat, (∀ id ∈ ids, ∃ e, t.live id = some e) →
      ∃ answer, t.find missing same ids = .ok answer ∧
        ∀ id, (answer = some id → ∃ e, t.live id = some e ∧ key e = k) ∧
          (id ∈ ids → (∃ e, t.live id = some e ∧ key e = k) → answer = some id) := by
    intro ids
    induction ids with
    | nil => exact fun _ => ⟨none, rfl, fun id => ⟨nofun, nofun⟩⟩
    | cons first rest ih =>
      intro lives
      obtain ⟨e, found⟩ := lives first List.mem_cons_self
      obtain ⟨answer, walked, spec⟩ := ih fun id member => lives id (List.mem_cons_of_mem _ member)
      rw [HashChains.find, found]
      simp only
      rw [sound first e found, Checked.ok_bind]
      by_cases hit : key e = k
      · refine ⟨some first, by rw [decide_eq_true hit]; rfl, fun id => ⟨?_, fun _ other => ?_⟩⟩
        · intro same
          cases same
          exact ⟨e, found, hit⟩
        · obtain ⟨e', found', hit'⟩ := other
          rw [filed.distinct found found' (hit.trans hit'.symm)]
      · refine ⟨answer, by rw [decide_eq_false hit]; exact walked, fun id => ⟨(spec id).1, ?_⟩⟩
        intro member other
        rcases List.mem_cons.mp member with rfl | later
        · obtain ⟨e', found', hit'⟩ := other
          rw [found] at found'
          cases found'
          exact absurd hit' hit
        · exact (spec id).2 later other
  obtain ⟨answer, walked, spec⟩ := walk (t.chain (hash k % t.buckets.length)) fun id member => by
    obtain ⟨e, found, _⟩ := (filed.chained _ id).mp member
    exact ⟨e, found⟩
  refine ⟨answer, walked, fun id => ⟨(spec id).1, fun other => ?_⟩⟩
  refine (spec id).2 ?_ other
  obtain ⟨e, found, rfl⟩ := other
  exact (filed.chained _ id).mpr ⟨e, found, rfl⟩

theorem located_none (located : t.Located key k none) {e : α} (has : t.Has e) : key e ≠ k := by
  intro same
  obtain ⟨id, found⟩ := has
  exact nomatch (located id).mpr ⟨e, found, same⟩

theorem live_insert (b : Nat) (e : α) (id : Nat) :
    (t.insert b e).live id = if id = t.entries.length then some e else t.live id := by
  simp only [live, insert, List.getElem?_append]
  by_cases old : id < t.entries.length
  · rw [if_pos old, if_neg (by omega)]
  · rw [if_neg old]
    by_cases new : id = t.entries.length
    · rw [if_pos new, new, Nat.sub_self]
      rfl
    · rw [if_neg new, List.getElem?_eq_none (by simp only [List.length_singleton]; omega),
        List.getElem?_eq_none (by omega)]

theorem live_replace {id : Nat} {old : α} (found : t.live id = some old) (e : α) (i : Nat) :
    (t.replace id e).live i = if i = id then some e else t.live i := by
  have inside := live_lt found
  simp only [live, replace, List.getElem?_set]
  by_cases same : i = id
  · rw [if_pos same, if_pos same.symm, if_pos inside]
    rfl
  · rw [if_neg same, if_neg (Ne.symm same)]

theorem live_remove {id : Nat} {old : α} (found : t.live id = some old) (b i : Nat) :
    (t.remove b id).live i = if i = id then none else t.live i := by
  have inside := live_lt found
  simp only [live, remove, List.getElem?_set]
  by_cases same : i = id
  · rw [if_pos same, if_pos same.symm, if_pos inside]
    rfl
  · rw [if_neg same, if_neg (Ne.symm same)]

theorem chain_modify (t : HashChains α) (b : Nat) (f : List Nat → List Nat)
    (kept : f [] = [] ∨ b < t.buckets.length) (c : Nat) (entries : List (Option α)) :
    (⟨t.buckets.modify b f, entries⟩ : HashChains α).chain c =
      if c = b then f (t.chain c) else t.chain c := by
  simp only [chain, List.getElem?_modify]
  by_cases same : b = c
  · subst same
    simp only [if_true]
    by_cases inside : b < t.buckets.length
    · rw [List.getElem?_eq_getElem inside]
      rfl
    · rw [List.getElem?_eq_none (by omega)]
      exact (kept.resolve_right inside).symm
  · rw [if_neg (Ne.symm same)]
    simp only [if_neg same]
    cases t.buckets[c]? <;> rfl

theorem Filed.insert (filed : t.Filed key hash) (positive : 0 < t.buckets.length) {e : α}
    (fresh : ∀ old, t.Has old → key old ≠ key e) :
    (t.insert (hash (key e) % t.buckets.length) e).Filed key hash := by
  have inside := Nat.mod_lt (hash (key e)) positive
  have width : (t.insert (hash (key e) % t.buckets.length) e).buckets.length = t.buckets.length :=
    List.length_modify _ _ _
  have chains : ∀ c, (t.insert (hash (key e) % t.buckets.length) e).chain c =
      if c = hash (key e) % t.buckets.length then t.entries.length :: t.chain c else t.chain c :=
    fun c => chain_modify t _ _ (.inr inside) c _
  have unused : ∀ c, t.entries.length ∉ t.chain c := by
    intro c member
    obtain ⟨old, found, _⟩ := (filed.chained c _).mp member
    exact absurd (live_lt found) (Nat.lt_irrefl _)
  refine ⟨fun b id => ?_, fun b => ?_, fun {id id' x x'} found found' same => ?_⟩
  · rw [chains, live_insert, width]
    by_cases new : id = t.entries.length
    · subst new
      rw [if_pos rfl]
      constructor
      · intro member
        split at member
        next home => exact ⟨e, rfl, home.symm⟩
        · exact absurd member (unused b)
      · rintro ⟨_, ⟨⟩, home⟩
        rw [if_pos home.symm]
        exact List.mem_cons_self
    · rw [if_neg new, ← filed.chained b id]
      split
      · exact ⟨fun member => (List.mem_cons.mp member).resolve_left new, List.mem_cons_of_mem _⟩
      · rfl
  · rw [chains]
    split
    · exact List.nodup_cons.mpr ⟨unused b, filed.once b⟩
    · exact filed.once b
  · rw [live_insert] at found found'
    split at found <;> split at found'
    next new new' => exact new.trans new'.symm
    next =>
      cases found
      exact absurd same.symm (fresh _ ⟨_, found'⟩)
    next =>
      cases found'
      exact absurd same (fresh _ ⟨_, found⟩)
    next => exact filed.distinct found found' same

theorem has_insert {b : Nat} {e x : α} : (t.insert b e).Has x ↔ x = e ∨ t.Has x := by
  constructor
  · rintro ⟨id, found⟩
    rw [live_insert] at found
    split at found
    · cases found
      exact .inl rfl
    · exact .inr ⟨id, found⟩
  · rintro (rfl | ⟨id, found⟩)
    · exact ⟨t.entries.length, by rw [live_insert, if_pos rfl]⟩
    · exact ⟨id, by rw [live_insert, if_neg (live_lt found).ne, found]⟩

@[simp] theorem count_insert {b : Nat} {e : α} : (t.insert b e).count = t.count + 1 := by
  simp [count, insert, List.countP_append]

theorem Filed.replace (filed : t.Filed key hash) {id : Nat} {old e : α}
    (found : t.live id = some old) (same : key e = key old) :
    (t.replace id e).Filed key hash := by
  have keys : ∀ {i x}, (t.replace id e).live i = some x → ∃ y, t.live i = some y ∧ key y = key x := by
    intro i x live
    rw [live_replace found] at live
    split at live
    next this =>
      cases live
      exact ⟨old, by rw [this, found], same.symm⟩
    · exact ⟨x, live, rfl⟩
  refine ⟨fun b i => ?_, filed.once, fun first second equal => ?_⟩
  · have home : i ∈ (t.replace id e).chain b ↔ i ∈ t.chain b := Iff.rfl
    rw [home, filed.chained b i, live_replace found]
    by_cases this : i = id
    · subst this
      rw [if_pos rfl, found]
      constructor
      · rintro ⟨_, ⟨⟩, at_home⟩
        exact ⟨e, rfl, by rw [same]; exact at_home⟩
      · rintro ⟨_, ⟨⟩, at_home⟩
        exact ⟨old, rfl, by rw [← same]; exact at_home⟩
    · rw [if_neg this]
      rfl
  · obtain ⟨y, first, equal₁⟩ := keys first
    obtain ⟨y', second, equal₂⟩ := keys second
    exact filed.distinct first second (equal₁.trans (equal.trans equal₂.symm))

theorem has_replace (filed : t.Filed key hash) {id : Nat} {old e x : α}
    (found : t.live id = some old) (same : key e = key old) :
    (t.replace id e).Has x ↔ x = e ∨ t.Has x ∧ key x ≠ key e := by
  constructor
  · rintro ⟨i, live⟩
    rw [live_replace found] at live
    split at live
    · cases live
      exact .inl rfl
    next other =>
      exact .inr ⟨⟨i, live⟩, fun equal => other (filed.distinct live found (equal.trans same))⟩
  · rintro (rfl | ⟨⟨i, live⟩, other⟩)
    · exact ⟨id, by rw [live_replace found, if_pos rfl]⟩
    · refine ⟨i, ?_⟩
      rw [live_replace found, if_neg, live]
      rintro rfl
      rw [found] at live
      cases live
      exact other same.symm

theorem count_replace {id : Nat} {old e : α} (found : t.live id = some old) :
    (t.replace id e).count = t.count := by
  have inside := live_lt found
  have slot := live_iff.mp found
  rw [List.getElem?_eq_getElem inside, Option.some.injEq] at slot
  rw [count, replace, List.countP_set inside, slot]
  have occupied : 0 < t.entries.countP Option.isSome :=
    List.countP_pos_iff.mpr ⟨some old, slot ▸ List.getElem_mem inside, rfl⟩
  simp only [Option.isSome_some, if_true, count]
  omega

theorem Filed.remove (filed : t.Filed key hash) {id : Nat} {old : α} (found : t.live id = some old) :
    (t.remove (hash (key old) % t.buckets.length) id).Filed key hash := by
  have width : (t.remove (hash (key old) % t.buckets.length) id).buckets.length =
      t.buckets.length := List.length_modify _ _ _
  have chains : ∀ c i, i ∈ (t.remove (hash (key old) % t.buckets.length) id).chain c ↔
      i ∈ t.chain c ∧ i ≠ id := by
    intro c i
    have chain := chain_modify t (hash (key old) % t.buckets.length) (·.filter (· ≠ id))
      (.inl rfl) c (t.entries.set id none)
    rw [HashChains.remove, chain]
    split
    · rw [List.mem_filter, decide_eq_true_iff]
    next elsewhere =>
      refine ⟨fun member => ⟨member, ?_⟩, And.left⟩
      rintro rfl
      obtain ⟨e, live, home⟩ := (filed.chained c i).mp member
      rw [found] at live
      cases live
      exact elsewhere home.symm
  refine ⟨fun b i => ?_, fun b => ?_, fun first second same => ?_⟩
  · rw [chains, filed.chained b i, live_remove found, width]
    split
    next this => exact ⟨fun both => absurd this both.2, fun ⟨_, gone, _⟩ => nomatch gone⟩
    next other => exact ⟨And.left, fun found => ⟨found, other⟩⟩
  · have chain := chain_modify t (hash (key old) % t.buckets.length) (·.filter (· ≠ id))
      (.inl rfl) b (t.entries.set id none)
    rw [HashChains.remove, chain]
    split
    · exact (filed.once b).filter _
    · exact filed.once b
  · rw [live_remove found] at first second
    split at first
    · cases first
    · split at second
      · cases second
      · exact filed.distinct first second same

theorem has_remove (filed : t.Filed key hash) {b id : Nat} {old x : α}
    (found : t.live id = some old) :
    (t.remove b id).Has x ↔ t.Has x ∧ key x ≠ key old := by
  constructor
  · rintro ⟨i, live⟩
    rw [live_remove found] at live
    split at live
    · cases live
    next other => exact ⟨⟨i, live⟩, fun same => other (filed.distinct live found same)⟩
  · rintro ⟨⟨i, live⟩, other⟩
    refine ⟨i, ?_⟩
    rw [live_remove found, if_neg, live]
    rintro rfl
    rw [found] at live
    cases live
    exact other rfl

theorem count_remove {b id : Nat} {old : α} (found : t.live id = some old) :
    (t.remove b id).count + 1 = t.count := by
  have inside := live_lt found
  have slot := live_iff.mp found
  rw [List.getElem?_eq_getElem inside, Option.some.injEq] at slot
  have occupied : 0 < t.entries.countP Option.isSome :=
    List.countP_pos_iff.mpr ⟨some old, slot ▸ List.getElem_mem inside, rfl⟩
  rw [count, remove, List.countP_set inside, slot]
  simp only [Option.isSome_some, Option.isSome_none, if_true, count, Bool.false_eq_true, if_false]
  omega

theorem count_pos (has : t.Has e) : 0 < t.count := by
  obtain ⟨id, found⟩ := has
  have inside := live_lt found
  have slot := live_iff.mp found
  rw [List.getElem?_eq_getElem inside, Option.some.injEq] at slot
  exact List.countP_pos_iff.mpr ⟨some e, slot ▸ List.getElem_mem inside, rfl⟩

def listed (t : HashChains α) : List α := t.buckets.flatten.filterMap t.live

theorem flatMap_listed {β : Type} {f : α → List β} {shown : Nat → List β}
    (each : ∀ id, shown id = (t.live id).elim [] f) :
    (t.buckets.flatMap fun chain => chain.flatMap shown) = t.listed.flatMap f := by
  have one : (t.buckets.flatMap fun chain => chain.flatMap shown) = t.buckets.flatten.flatMap shown := by
    rw [List.flatten_eq_flatMap, List.flatMap_assoc]
    rfl
  rw [listed, one]
  induction t.buckets.flatten with
  | nil => rfl
  | cons id ids ih =>
    rw [List.flatMap_cons, ih, each]
    cases found : t.live id with
    | none => rw [List.filterMap_cons_none found, Option.elim_none, List.nil_append]
    | some e => rw [List.filterMap_cons_some found, List.flatMap_cons, Option.elim_some]

theorem Filed.mem_listed (filed : t.Filed key hash) {e : α} : e ∈ t.listed ↔ t.Has e := by
  rw [listed, List.mem_filterMap]
  constructor
  · rintro ⟨id, _, found⟩
    exact ⟨id, found⟩
  · rintro ⟨id, found⟩
    exact ⟨id, filed.mem_flatten.mpr ⟨e, found⟩, found⟩

/-- Every occupied slot is listed. -/
theorem Filed.length_listed (filed : t.Filed key hash) : t.listed.length = t.count := by
  have slots : t.entries = (List.range t.entries.length).map t.live := by
    refine List.ext_getElem (by simp) fun i first _ => ?_
    rw [List.getElem_map, List.getElem_range, live, List.getElem?_eq_getElem first]
    rfl
  have counted : t.count =
      ((List.range t.entries.length).filter fun id => (t.live id).isSome).length := by
    rw [count]
    conv_lhs => rw [slots]
    rw [List.countP_map, List.countP_eq_length_filter]
    rfl
  have same : t.buckets.flatten.Perm
      ((List.range t.entries.length).filter fun id => (t.live id).isSome) := by
    refine (List.perm_ext_iff_of_nodup filed.nodup_flatten (List.nodup_range.filter _)).mpr
      fun id => ?_
    rw [filed.mem_flatten, List.mem_filter, List.mem_range, Option.isSome_iff_exists]
    exact ⟨fun ⟨e, found⟩ => ⟨live_lt found, e, found⟩, And.right⟩
  rw [counted, ← same.length_eq, listed, List.length_filterMap_eq_countP,
    List.countP_eq_length.mpr fun id member => ?_]
  obtain ⟨e, found⟩ := filed.mem_flatten.mp member
  rw [found]
  rfl

/-- No key is listed twice. -/
theorem Filed.nodup_listed (filed : t.Filed key hash) : (t.listed.map key).Nodup := by
  have ids := filed.nodup_flatten
  rw [listed, List.map_filterMap]
  refine List.Nodup.filterMap ?_ ids
  intro id id' k first second
  obtain ⟨e, found, rfl⟩ := Option.map_eq_some_iff.mp first
  obtain ⟨e', found', same⟩ := Option.map_eq_some_iff.mp second
  exact filed.distinct found found' same.symm

end HashChains

end RustSql.Foundation
