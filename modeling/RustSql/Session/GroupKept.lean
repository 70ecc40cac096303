import RustSql.Session.GroupMerge
import RustSql.Session.RowKeys

/-! One table of a group: the entries as a map from row keys to changes. -/

namespace RustSql.Session

open RustSql.Foundation RustSql.Types

/-- A change of a row by its kind and fields. -/
abbrev Body := Op × List Field

namespace GroupTable

def entryKey (t : GroupTable) (e : GroupEntry) : Checked String RowKey :=
  keyFields (bPkOnlyEntry e.op t.bPatch) t.abPk e.record

/-- The change a table has for a key. -/
def At (t : GroupTable) (key : RowKey) : Option Body → Prop
  | none => ∀ e, t.chains.Has e → t.entryKey e ≠ .ok key
  | some (op, fields) => ∃ indirect, t.chains.Has ⟨op, indirect, recordOf fields⟩ ∧
      Filled t.abPk t.bPatch op fields ∧ (keyOf t.abPk t.bPatch op fields).map Subtype.val = key

/-- The invariant of a table. -/
structure Kept (t : GroupTable) : Prop where
  wide : t.abPk.length = t.nCol
  counted : t.nEntry = t.chains.count
  buckets : t.chains.buckets = [] ∨ ∃ k, 8 ≤ k ∧ k < 32 ∧ t.chains.buckets.length = 2 ^ k
  half : 2 * t.nEntry ≤ t.chains.buckets.length
  filed : t.chains.Filed t.entryKey (chainHash false)
  filled : ∀ {e}, t.chains.Has e → ∃ fields, e.record = recordOf fields ∧
    Filled t.abPk t.bPatch e.op fields

/-- The table with other entries and the same header. -/
def Reentered (t t' : GroupTable) : Prop := t' = { t with chains := t'.chains, nEntry := t'.nEntry }

end GroupTable

/-- A change after another: the two are merged, or the second is discarded. -/
def combine (abPk : List UInt8) (patch : Bool) (old : Option Body) (new : Body) : Option Body :=
  match old with
  | none => some new
  | some (op, fields) =>
    match mergedFields abPk patch op fields new.1 new.2 with
    | none => some (op, fields)
    | some (_, none) => none
    | some (op, some fields) => some (op, fields)

/-- A record has one list of fields. -/
theorem recordOf_injective {fs gs : List Field} (same : fs.length = gs.length)
    (records : recordOf fs = recordOf gs) : fs = gs := by
  induction fs generalizing gs with
  | nil => exact (List.length_eq_zero_iff.mp same.symm).symm
  | cons f fs ih =>
    match gs with
    | g :: gs =>
      rw [recordOf_cons, recordOf_cons] at records
      have left := @serialLen_field String f (recordOf fs)
      rw [records, serialLen_field] at left
      obtain ⟨first, rest⟩ := List.append_inj records (Except.ok.inj left).symm
      rw [Subtype.ext first, ih (Nat.succ.inj same) rest]

/-- The bucket counts a hash of so many entries comes to. -/
structure Sized (chains : HashChains GroupEntry) (nEntry : Nat) : Prop where
  buckets : chains.buckets = [] ∨ ∃ k, 8 ≤ k ∧ k < 32 ∧ chains.buckets.length = 2 ^ k
  half : 2 * nEntry ≤ chains.buckets.length

namespace Sized

variable {chains : HashChains GroupEntry} {nEntry : Nat}

/-- With fewer than `2 ^ 30` entries the next bucket count is a word. -/
theorem next_size (sized : Sized chains nEntry) (room : nEntry < 2 ^ 30)
    (full : chains.buckets = [] ∨ chains.buckets.length / 2 ≤ nEntry) :
    ∃ k, 8 ≤ k ∧ k < 32 ∧ chains.grown 256 = 2 ^ k := by
  by_cases none : chains.buckets = []
  · exact ⟨8, le_refl _, by decide, (if_pos none).trans (by decide)⟩
  · obtain ⟨k, low, high, width⟩ := sized.buckets.resolve_left none
    have many := full.resolve_left none
    refine ⟨k + 1, by omega, ?_, by rw [HashChains.grown, if_neg none, width, pow_succ]⟩
    by_contra top
    have last : k = 31 := by omega
    rw [width, last] at many
    omega

theorem grow (sized : Sized chains nEntry) (room : nEntry < 2 ^ 30) {buckets : List (List Nat)}
    (some : buckets ≠ [])
    (grown : buckets = chains.buckets ∧ nEntry < chains.buckets.length / 2 ∨
      buckets.length = chains.grown 256 ∧
        (chains.buckets = [] ∨ chains.buckets.length / 2 ≤ nEntry)) :
    Sized { chains with buckets } nEntry ∧ 2 * nEntry + 2 ≤ buckets.length := by
  have half := sized.half
  rcases grown with ⟨same, few⟩ | ⟨width, full⟩
  · obtain ⟨k, low, high, width⟩ := sized.buckets.resolve_left (same ▸ some)
    have even : 2 ^ k = 2 * 2 ^ (k - 1) := by
      rw [← pow_succ']
      congr 1
      omega
    rw [same]
    exact ⟨⟨.inr ⟨k, low, high, width⟩, half⟩, by omega⟩
  · obtain ⟨k, low, high, size⟩ := sized.next_size room full
    have power : 2 ^ 8 ≤ 2 ^ k := Nat.pow_le_pow_right (by decide) low
    have wide : 2 * nEntry + 2 ≤ buckets.length := by
      by_cases none : chains.buckets = []
      · rw [none, List.length_nil] at half
        omega
      · have positive := List.length_pos_iff.mpr none
        rw [HashChains.grown, if_neg none] at width
        omega
    exact ⟨⟨.inr ⟨k, low, high, width.trans size⟩, by dsimp only; omega⟩, wide⟩

end Sized

namespace GroupTable

variable {t t' : GroupTable}

theorem Filled.entryKey {op : Op} {indirect : Bool} {fields : List Field}
    (filled : Filled t.abPk t.bPatch op fields) :
    t.entryKey ⟨op, indirect, recordOf fields⟩ =
      .ok ((keyOf t.abPk t.bPatch op fields).map Subtype.val) := filled.keyFields

theorem kept_new {name : Name} {nCol : Nat} {abPk : List UInt8} (wide : abPk.length = nCol)
    (bPatch : Bool) : (GroupTable.new name nCol abPk bPatch).Kept := by
  refine ⟨wide, rfl, .inl rfl, Nat.le_refl _, HashChains.filed_empty, ?_⟩
  rintro e ⟨id, found⟩
  cases found

namespace Kept

theorem some_at (kept : t.Kept) {e : GroupEntry} (has : t.chains.Has e) {key : RowKey}
    (keyed : t.entryKey e = .ok key) : ∃ fields, e.record = recordOf fields ∧
      Filled t.abPk t.bPatch e.op fields ∧ t.At key (some (e.op, fields)) := by
  obtain ⟨fields, record, filled⟩ := kept.filled has
  obtain ⟨op, indirect, rec⟩ := e
  simp only at record filled
  subst record
  rw [Filled.entryKey filled] at keyed
  exact ⟨fields, rfl, filled, indirect, has, filled, Except.ok.inj keyed⟩

/-- Every key has its change, or none. -/
theorem exists_at (kept : t.Kept) (key : RowKey) : ∃ body, t.At key body := by
  by_cases there : ∃ e, t.chains.Has e ∧ t.entryKey e = .ok key
  · obtain ⟨e, has, keyed⟩ := there
    obtain ⟨fields, _, _, at_key⟩ := kept.some_at has keyed
    exact ⟨_, at_key⟩
  · exact ⟨none, fun e has keyed => there ⟨e, has, keyed⟩⟩

/-- A key has one change. -/
theorem at_unique (kept : t.Kept) {key : RowKey} {body body' : Option Body} (at_key : t.At key body)
    (at_key' : t.At key body') : body = body' := by
  match body, body' with
  | none, none => rfl
  | none, some (op, fields) =>
    obtain ⟨_, has, filled, keyed⟩ := at_key'
    exact absurd ((Filled.entryKey filled).trans (congrArg _ keyed)) (at_key _ has)
  | some (op, fields), none =>
    obtain ⟨_, has, filled, keyed⟩ := at_key
    exact absurd ((Filled.entryKey filled).trans (congrArg _ keyed)) (at_key' _ has)
  | some (op, fields), some (op', fields') =>
    obtain ⟨_, ⟨id, live⟩, filled, keyed⟩ := at_key
    obtain ⟨_, ⟨id', live'⟩, filled', keyed'⟩ := at_key'
    have same := kept.filed.distinct live live'
      ((Filled.entryKey filled).trans (by rw [keyed, ← keyed', ← Filled.entryKey filled']))
    subst same
    rw [live] at live'
    simp only [Option.some.injEq, GroupEntry.mk.injEq] at live'
    obtain ⟨rfl, _, record⟩ := live'
    rw [recordOf_injective (filled.wide.trans filled'.wide.symm) record]

theorem hash (kept : t.Kept) {e : GroupEntry} (has : t.chains.Has e) (n : Nat) :
    ∃ h : UInt32, recordPkHash t.abPk e.record (bPkOnlyEntry e.op t.bPatch) n = bucketOf h n ∧
      chainHash false (t.entryKey e) = h.toNat := by
  obtain ⟨fields, record, filled⟩ := kept.filled has
  obtain ⟨op, indirect, rec⟩ := e
  simp only at record filled
  subst record
  exact ⟨_, filled.keyed.recordPkHash n, by rw [Filled.entryKey filled]; rfl⟩

theorem sized (kept : t.Kept) : Sized t.chains t.nEntry := ⟨kept.buckets, kept.half⟩

/-- With fewer than `2 ^ 30` entries the hash grows. -/
theorem growHash (kept : t.Kept) (room : t.nEntry < 2 ^ 30) :
    ∃ buckets, t.growHash = .ok { t with chains := { t.chains with buckets } } ∧
      GroupTable.Kept { t with chains := { t.chains with buckets } } ∧
      buckets ≠ [] ∧ 2 * t.nEntry + 2 ≤ buckets.length := by
  obtain ⟨buckets, moved, filed, some, grown⟩ := @HashChains.Filed.grow _ _ String _ _ _ kept.filed
    (fun n e => recordPkHash t.abPk e.record (bPkOnlyEntry e.op t.bPatch) n) 256 t.nEntry (by decide)
    (by
      intro some full id e live
      obtain ⟨k, _, high, width⟩ := kept.sized.next_size room (.inr full)
      obtain ⟨h, hashed, chained⟩ := kept.hash ⟨id, live⟩ (t.chains.grown 256)
      have small : 2 ^ k < 2 ^ 32 := Nat.pow_lt_pow_right (by decide) high
      rw [hashed, chained, width, bucketOf_ok (Nat.two_pow_pos _) small])
  obtain ⟨sized, wide⟩ := kept.sized.grow room some grown
  refine ⟨buckets, by rw [GroupTable.growHash, moved, Checked.ok_bind], ?_, some, wide⟩
  exact ⟨kept.wide, kept.counted, sized.buckets, sized.half, filed, kept.filled⟩

/-- With `2 ^ 30` entries the bucket count wraps to zero. -/
theorem growHash_panics (kept : t.Kept) (many : 2 ^ 30 ≤ t.nEntry) :
    t.growHash = .error .overflow := by
  have half := kept.half
  have some : t.chains.buckets ≠ [] := by
    intro none
    rw [none, List.length_nil] at half
    omega
  obtain ⟨k, low, high, width⟩ := kept.buckets.resolve_left some
  have top : k = 31 := by
    by_contra other
    have power : 2 ^ k ≤ 2 ^ 30 := Nat.pow_le_pow_right (by decide) (by omega)
    omega
  rw [top] at width
  have wrapped : t.chains.buckets.length * 2 % 2 ^ 32 = 0 := by
    rw [width]
    decide
  have has : ∃ e, t.chains.Has e := by
    by_contra none
    have dead : t.chains.count = 0 := HashChains.count_eq_zero.mpr fun id => by
      cases found : t.chains.live id with
      | none => rfl
      | some e => exact absurd ⟨e, id, found⟩ none
    have counted := kept.counted
    omega
  obtain ⟨e, has⟩ := has
  rw [GroupTable.growHash, HashChains.grow, if_pos (.inr (by omega)), if_neg some]
  simp only
  rw [kept.filed.rehash_error has fun id e live => by
    obtain ⟨h, hashed, _⟩ := kept.hash ⟨id, live⟩ (t.chains.buckets.length * 2)
    rw [hashed, bucketOf, if_pos wrapped]]
  rfl

/-- The entry of a change is looked up by its key. -/
theorem existing (kept : t.Kept) (some : t.chains.buckets ≠ []) {change : Change}
    {fields : List Field} (filled : Filled t.abPk t.bPatch change.op fields)
    (raw : change.raw = recordOf fields) (nCol : change.nCol = t.nCol)
    (patchset : change.patchset = t.bPatch) :
    ∃ answer, t.existing change =
        .ok (chainHash false (.ok ((keyOf t.abPk t.bPatch change.op fields).map Subtype.val)) %
          t.chains.buckets.length, answer) ∧
      t.chains.Located t.entryKey
        (.ok ((keyOf t.abPk t.bPatch change.op fields).map Subtype.val)) answer := by
  obtain ⟨k, _, high, width⟩ := kept.buckets.resolve_left some
  have positive := List.length_pos_iff.mpr some
  have small : 2 ^ k < 2 ^ 32 := Nat.pow_lt_pow_right (by decide) high
  obtain ⟨answer, walked, located⟩ := @HashChains.Filed.find _ _ String _ _ _ kept.filed
    (.error .slice)
    (fun e => changeEqual (bPkOnlyEntry e.op t.bPatch) (bPkOnlyEntry change.op t.bPatch) t.abPk
      e.record (recordOf fields)) _
    (.ok ((keyOf t.abPk t.bPatch change.op fields).map Subtype.val)) (by
      intro id e live
      obtain ⟨fields', record, filled'⟩ := kept.filled ⟨id, live⟩
      obtain ⟨op, indirect, rec⟩ := e
      simp only at record filled'
      subst record
      simp only
      rw [filled'.keyed.changeEqual filled.keyed, Filled.entryKey filled']
      simp only [Except.ok.injEq])
  refine ⟨answer, ?_, located⟩
  have all : t.abPk.take change.nCol = t.abPk := by rw [nCol, ← kept.wide, List.take_length]
  rw [GroupTable.existing, raw, patchset, filled.keyed.recordPkHash,
    bucketOf_ok positive (by rw [width]; exact small),
    Checked.ok_bind, all, ← chainHash_declared, walked, Checked.ok_bind]

/-- The keys of other rows keep their changes. -/
theorem at_other {key key' : RowKey} (other : key' ≠ key) {body : Option Body}
    (has : ∀ e, t.entryKey e ≠ .ok key → (t'.chains.Has e ↔ t.chains.Has e))
    (header : t'.abPk = t.abPk ∧ t'.bPatch = t.bPatch) (at_key : t.At key' body) :
    t'.At key' body := by
  have keys : ∀ e, t'.entryKey e = t.entryKey e := fun e => by
    rw [GroupTable.entryKey, GroupTable.entryKey, header.1, header.2]
  match body with
  | none =>
    intro e there same
    rw [keys] at same
    refine at_key e ((has e ?_).mp there) same
    rw [same]
    exact fun equal => other (Except.ok.inj equal)
  | some (op, fields) =>
    obtain ⟨indirect, there, filled, keyed⟩ := at_key
    refine ⟨indirect, (has _ ?_).mpr there, ?_, ?_⟩
    · rw [Filled.entryKey filled, keyed]
      exact fun equal => other (Except.ok.inj equal)
    · rw [header.1, header.2]
      exact filled
    · rw [header.1, header.2]
      exact keyed

theorem inserted (kept : t.Kept) (some : t.chains.buckets ≠ [])
    (room : 2 * t.nEntry + 2 ≤ t.chains.buckets.length) {op : Op} {indirect : Bool}
    {fields : List Field} (filled : Filled t.abPk t.bPatch op fields) {key : RowKey}
    (keyed : (keyOf t.abPk t.bPatch op fields).map Subtype.val = key)
    (fresh : ∀ e, t.chains.Has e → t.entryKey e ≠ .ok key) :
    let t' := { t with
      chains := t.chains.insert (chainHash false (.ok key) % t.chains.buckets.length)
        ⟨op, indirect, recordOf fields⟩
      nEntry := t.nEntry + 1 }
    GroupTable.Kept t' ∧ t'.At key (Option.some (op, fields)) ∧
      ∀ key' body, key' ≠ key → t.At key' body → t'.At key' body := by
  have entry : t.entryKey ⟨op, indirect, recordOf fields⟩ = .ok key := by
    rw [Filled.entryKey filled, keyed]
  have filed := kept.filed.insert (List.length_pos_iff.mpr some) (by rw [entry]; exact fresh)
  rw [entry] at filed
  have has : ∀ {x}, (t.chains.insert (chainHash false (.ok key) % t.chains.buckets.length)
      ⟨op, indirect, recordOf fields⟩).Has x ↔ x = ⟨op, indirect, recordOf fields⟩ ∨
        t.chains.Has x := HashChains.has_insert
  have width : (t.chains.insert (chainHash false (.ok key) % t.chains.buckets.length)
      ⟨op, indirect, recordOf fields⟩).buckets.length = t.chains.buckets.length :=
    List.length_modify _ _ _
  refine ⟨⟨kept.wide, by rw [kept.counted, HashChains.count_insert], .inr ?_, ?_, filed, ?_⟩,
    ⟨indirect, has.mpr (.inl rfl), filled, keyed⟩, fun key' body other at_key => ?_⟩
  · rw [width]
    exact kept.buckets.resolve_left some
  · rw [width]
    exact room
  · intro e there
    rcases has.mp there with rfl | before
    · exact ⟨fields, rfl, filled⟩
    · exact kept.filled before
  · refine at_other other (fun e apart => has.trans ⟨fun either => ?_, .inr⟩) ⟨rfl, rfl⟩ at_key
    rcases either with rfl | before
    · exact absurd entry apart
    · exact before

theorem replaced (kept : t.Kept) {id : Nat} {e : GroupEntry} (live : t.chains.live id = some e)
    {op : Op} {indirect : Bool} {fields : List Field} (filled : Filled t.abPk t.bPatch op fields)
    {key : RowKey} (keyed : (keyOf t.abPk t.bPatch op fields).map Subtype.val = key)
    (same : t.entryKey e = .ok key) :
    let t' := { t with chains := t.chains.replace id ⟨op, indirect, recordOf fields⟩ }
    GroupTable.Kept t' ∧ t'.At key (some (op, fields)) ∧
      ∀ key' body, key' ≠ key → t.At key' body → t'.At key' body := by
  have entry : t.entryKey ⟨op, indirect, recordOf fields⟩ = t.entryKey e := by
    rw [Filled.entryKey filled, keyed, same]
  have has : ∀ {x}, (t.chains.replace id ⟨op, indirect, recordOf fields⟩).Has x ↔
      x = ⟨op, indirect, recordOf fields⟩ ∨ t.chains.Has x ∧
        t.entryKey x ≠ t.entryKey ⟨op, indirect, recordOf fields⟩ :=
    HashChains.has_replace kept.filed live entry
  refine ⟨⟨kept.wide, by rw [kept.counted, HashChains.count_replace live], kept.buckets, kept.half,
    kept.filed.replace live entry, ?_⟩,
    ⟨indirect, has.mpr (.inl rfl), filled, keyed⟩, fun key' body other at_key => ?_⟩
  · intro x there
    rcases has.mp there with rfl | ⟨before, _⟩
    · exact ⟨fields, rfl, filled⟩
    · exact kept.filled before
  · refine at_other other (fun x apart => has.trans ⟨fun either => ?_, fun before => .inr
      ⟨before, by rw [entry, same]; exact apart⟩⟩) ⟨rfl, rfl⟩ at_key
    rcases either with rfl | ⟨before, _⟩
    · exact absurd (entry.trans same) apart
    · exact before

theorem removed (kept : t.Kept) {id : Nat} {e : GroupEntry} (live : t.chains.live id = some e)
    {key : RowKey} (same : t.entryKey e = .ok key) :
    let t' := { t with
      chains := t.chains.remove (chainHash false (.ok key) % t.chains.buckets.length) id
      nEntry := t.nEntry - 1 }
    GroupTable.Kept t' ∧ t'.At key none ∧
      ∀ key' body, key' ≠ key → t.At key' body → t'.At key' body := by
  have filed := kept.filed.remove live
  rw [same] at filed
  have has : ∀ {x}, (t.chains.remove (chainHash false (.ok key) % t.chains.buckets.length) id).Has x ↔
      t.chains.Has x ∧ t.entryKey x ≠ t.entryKey e := HashChains.has_remove kept.filed live
  have counted := @HashChains.count_remove _ t.chains
    (chainHash false (.ok key) % t.chains.buckets.length) id e live
  have width : (t.chains.remove (chainHash false (.ok key) % t.chains.buckets.length)
      id).buckets.length = t.chains.buckets.length := List.length_modify _ _ _
  have before := kept.counted
  have half := kept.half
  refine ⟨⟨kept.wide, by dsimp only; omega, ?_, by dsimp only; omega, filed, ?_⟩,
    fun x there keyed => ?_, fun key' body other at_key => ?_⟩
  · rcases kept.buckets with none | ⟨k, low, high, size⟩
    · have dead := kept.filed.vacant none id
      rw [live] at dead
      cases dead
    · exact .inr ⟨k, low, high, by rw [width, size]⟩
  · intro x there
    exact kept.filled (has.mp there).1
  · exact (has.mp there).2 (keyed.trans same.symm)
  · exact at_other other (fun x apart => has.trans ⟨And.left, fun there =>
      ⟨there, by rw [same]; exact apart⟩⟩) ⟨rfl, rfl⟩ at_key

/-- The entry of a row takes a change of that row. -/
theorem merged (kept : t.Kept) {id : Nat} {e : GroupEntry} (live : t.chains.live id = some e)
    {change : Change} {fields : List Field} (filled : Filled t.abPk t.bPatch change.op fields)
    (raw : change.raw = recordOf fields) (nCol : change.nCol = t.nCol) {key : RowKey}
    (keyed : (keyOf t.abPk t.bPatch change.op fields).map Subtype.val = key)
    (same : t.entryKey e = .ok key) {body : Option Body} (at_key : t.At key body)
    (keeps : ∀ fields', body = some (.insert, fields') → t.bPatch = false → change.op = .update →
      KeepsKey t.abPk (fields.take t.abPk.length) (fields.drop t.abPk.length)) :
    ∃ t', t.merge false (chainHash false (.ok key) % t.chains.buckets.length) id change = .ok t' ∧
      t.Reentered t' ∧ t'.Kept ∧
      t'.At key (combine t.abPk t.bPatch body (change.op, fields)) ∧
      ∀ key' body', key' ≠ key → t.At key' body' → t'.At key' body' := by
  obtain ⟨fields', record, filled', there⟩ := kept.some_at ⟨id, live⟩ same
  have found : body = some (e.op, fields') := kept.at_unique at_key there
  obtain ⟨op', indirect', rec⟩ := e
  simp only at record found filled'
  subst record found
  obtain ⟨indirect, coalesced⟩ := changeMerge_fields filled' filled indirect' change.indirect
  have agree : keyOf t.abPk t.bPatch op' fields' = keyOf t.abPk t.bPatch change.op fields := by
    rw [Filled.entryKey filled'] at same
    exact List.map_injective_iff.mpr Subtype.val_injective ((Except.ok.inj same).trans keyed.symm)
  have cols : change.nCol = t.abPk.length := by rw [nCol, kept.wide]
  rw [GroupTable.merge]
  simp only [live]
  rw [raw, cols, coalesced, Checked.ok_bind]
  match result : mergedFields t.abPk t.bPatch op' fields' change.op fields with
  | none =>
    have stays : combine t.abPk t.bPatch (some (op', fields')) (change.op, fields) =
        some (op', fields') := by simp only [combine, result]
    exact ⟨t, rfl, rfl, kept, by rw [stays]; exact at_key, fun _ _ _ other => other⟩
  | some (op, none) =>
    have gone : combine t.abPk t.bPatch (some (op', fields')) (change.op, fields) = none := by
      simp only [combine, result]
    obtain ⟨kept', absent, others⟩ := kept.removed live same
    exact ⟨_, rfl, rfl, kept', by rw [gone]; exact absent, others⟩
  | some (op, some fields'') =>
    have both : combine t.abPk t.bPatch (some (op', fields')) (change.op, fields) =
        some (op, fields'') := by simp only [combine, result]
    obtain ⟨whole, key'⟩ := mergedFields_filled filled' filled agree
      (fun full first second => by
        subst first
        exact keeps fields' rfl full second) result
    obtain ⟨kept', there', others⟩ := @Kept.replaced t kept id _ live op indirect fields'' whole key
      (by rw [key', agree, keyed]) same
    exact ⟨_, rfl, rfl, kept', by rw [both]; exact there', others⟩

/-- A change is combined with the one its row has, and the other rows keep theirs. -/
theorem addChange (kept : t.Kept) (room : t.nEntry < 2 ^ 30) {change : Change} {fields : List Field}
    (filled : Filled t.abPk t.bPatch change.op fields) (raw : change.raw = recordOf fields)
    (nCol : change.nCol = t.nCol) (patchset : change.patchset = t.bPatch) {key : RowKey}
    (keyed : (keyOf t.abPk t.bPatch change.op fields).map Subtype.val = key) {body : Option Body}
    (at_key : t.At key body)
    (keeps : ∀ fields', body = some (.insert, fields') → t.bPatch = false → change.op = .update →
      KeepsKey t.abPk (fields.take t.abPk.length) (fields.drop t.abPk.length)) :
    ∃ t', t.addChange false change = .ok t' ∧ t.Reentered t' ∧ t'.Kept ∧
      t'.At key (combine t.abPk t.bPatch body (change.op, fields)) ∧
      ∀ key' body', key' ≠ key → t.At key' body' → t'.At key' body' := by
  obtain ⟨buckets, moved, grown, hashed, size⟩ := kept.growHash room
  let g : GroupTable := { t with chains := { t.chains with buckets } }
  obtain ⟨answer, walked, located⟩ := @Kept.existing g grown hashed change fields filled raw nCol
    patchset
  have same : (keyOf g.abPk g.bPatch change.op fields).map Subtype.val = key := keyed
  rw [same] at walked located
  cases answer with
  | none =>
    have fresh : ∀ e, g.chains.Has e → g.entryKey e ≠ .ok key :=
      fun e has => HashChains.located_none located has
    have nobody : body = none := grown.at_unique at_key fresh
    obtain ⟨kept', there, others⟩ := @Kept.inserted g grown hashed size change.op change.indirect
      fields filled key keyed fresh
    subst nobody
    refine ⟨_, ?_, ?_, kept', there, others⟩
    · rw [GroupTable.addChange, moved, Checked.ok_bind, walked, Checked.ok_bind, raw]
    · rfl
  | some id =>
    obtain ⟨e, live, at_id⟩ := (located id).mp rfl
    obtain ⟨t', done, header, kept', there, others⟩ := @Kept.merged g grown id e live change fields
      filled raw nCol key keyed at_id body at_key keeps
    refine ⟨t', ?_, header, kept', there, others⟩
    rw [GroupTable.addChange, moved, Checked.ok_bind, walked, Checked.ok_bind]
    exact done

end Kept

end GroupTable

end RustSql.Session
