import RustSql.Session.CaptureRecord

/-! A session keeps the first capture of every key, and finds it, while no rowid table grows. -/

namespace RustSql.Session

open RustSql.Foundation RustSql.Types

/-- The first capture of a key. -/
def firstOf (log : List Capture) (key : RowKey) : Option Capture := log.find? fun c => c.key = key

/-- What a table holds of the captures made so far. -/
structure Captured (t : SessionTable) (log : List Capture) : Prop where
  once : ∀ {id id' e e' key}, t.chains.live id = some e → t.chains.live id' = some e' →
    t.entryKey e = .ok key → t.entryKey e' = .ok key → id = id'
  found : ∀ {id e key rowid side}, t.chains.live id = some e → t.entryKey e = .ok key →
    t.rowKey rowid side = some key →
    ∃ h bucket, t.eventHash rowid side = some h ∧ t.existing h rowid side = .ok (bucket, some id)
  first : ∀ {e}, t.chains.Has e → ∃ key c, t.entryKey e = .ok key ∧ firstOf log key = some c ∧
    c.op = e.op ∧ c.record = e.record
  complete : ∀ {c}, c ∈ log → ∃ e, t.chains.Has e ∧ t.entryKey e = .ok c.key

/-- Room for one more capture: no rowid table may grow, and no bucket count may wrap. -/
def Room (t : SessionTable) : Prop := t.nEntry < 2 ^ 30 ∧ (t.bRowid = true → t.nEntry < 128)

/-- The invariant of a table. -/
structure Kept (t : SessionTable) (log : List Capture) : Prop where
  slots : t.freeIds = []
  counted : t.nEntry = t.chains.count
  buckets : t.chains.buckets = [] ∨ 256 ≤ t.chains.buckets.length
  small : t.chains.buckets.length < 2 ^ 32
  filed : t.chains.Filed t.entryKey (chainHash t.bRowid)
  modelled : t.initialized = true → t.untrackable = false → Modelled t
  idle : t.initialized = false ∨ t.untrackable = true → t.nEntry = 0
  stored : ∀ {e}, t.chains.Has e → ∃ fields, Stored t e fields
  first : ∀ {e}, t.chains.Has e → ∃ key c, t.entryKey e = .ok key ∧ firstOf log key = some c ∧
    c.op = e.op ∧ c.record = e.record
  complete : ∀ {c}, c ∈ log → ∃ e, t.chains.Has e ∧ t.entryKey e = .ok c.key

/-- The table with other chains, and nothing else changed. -/
def Rechained (t t' : SessionTable) : Prop :=
  t' = { t with chains := t'.chains, freeIds := t'.freeIds, nEntry := t'.nEntry }

variable {t t' : SessionTable} {log : List Capture}

theorem Modelled.rechain (modelled : Modelled t) (same : Rechained t t') : Modelled t' := by
  rw [same]
  exact ⟨modelled.wide, modelled.rowid⟩

theorem Stored.rechain {e : SessionChange} {fields : List Field} (stored : Stored t e fields)
    (same : Rechained t t') : Stored t' e fields := by
  rw [same]
  exact ⟨stored.record, stored.wide, stored.keyable, stored.rowid⟩

namespace Kept

theorem vacant (kept : Kept t log) (none : t.nEntry = 0) (e : SessionChange) : ¬ t.chains.Has e := by
  intro has
  have occupied := HashChains.count_pos has
  have counted := kept.counted
  omega

theorem lookup (kept : Kept t log) (modelled : Modelled t) (some : t.chains.buckets ≠ [])
    {rowid : Int64} {side : Option (List Datum)} {key : RowKey}
    (keyed : t.rowKey rowid side = Option.some key) :
    ∃ h bucket answer, t.eventHash rowid side = Option.some h ∧
      t.existing h rowid side = .ok (bucket, answer) ∧
      bucket = chainHash t.bRowid (.ok key) % t.chains.buckets.length ∧
      t.chains.Located t.entryKey (.ok key) answer := by
  have hashed := SessionTable.eventHash_eq modelled rowid side
  rw [keyed, Option.map_some] at hashed
  obtain ⟨answer, walked, located⟩ := @HashChains.Filed.find _ _ String _ _ _ kept.filed (.ok false)
    (t.sameKey rowid side) _ (.ok key) (by
      intro id e live
      obtain ⟨fields, stored⟩ := kept.stored ⟨id, live⟩
      exact stored.sameKey modelled keyed)
  refine ⟨_, _, answer, hashed, ?_, rfl, located⟩
  rw [SessionTable.existing, bucketOf_ok (List.length_pos_iff.mpr some) kept.small, Checked.ok_bind,
    ← chainHash_ok, walked, Checked.ok_bind]

/-- The invariant has what is promised of a tracked table. -/
theorem captured (kept : Kept t log) : Captured t log := by
  refine ⟨fun live live' same same' => ?_, fun {id e key rowid side} live same keyed => ?_,
    kept.first, kept.complete⟩
  · exact kept.filed.distinct live live' (same.trans same'.symm)
  · have occupied := HashChains.count_pos ⟨id, live⟩
    have counted := kept.counted
    have active : t.initialized = true ∧ t.untrackable = false := by
      by_contra other
      have idle := kept.idle (by
        cases first : t.initialized <;> cases second : t.untrackable <;> simp_all)
      omega
    have some : t.chains.buckets ≠ [] := by
      intro none
      have dead := kept.filed.vacant none id
      rw [live] at dead
      cases dead
    obtain ⟨h, bucket, answer, hashed, walked, _, located⟩ :=
      kept.lookup (kept.modelled active.1 active.2) some keyed
    exact ⟨h, bucket, hashed, by rw [walked, (located id).mpr ⟨e, live, same⟩]⟩

theorem growHash (kept : Kept t log) (modelled : Modelled t) (room : Room t) :
    ∃ buckets, t.growHash = .ok { t with chains := { t.chains with buckets } } ∧ buckets ≠ [] ∧
      Kept { t with chains := { t.chains with buckets } } log := by
  have wide := kept.buckets
  have limit := room.1
  obtain ⟨buckets, moved, filed, some, sizes⟩ := @HashChains.Filed.grow _ _ String _ _ _ kept.filed
    (fun n e => recordPkHash t.abPk e.record false n) 256 t.nEntry (by decide) (by
      intro some full id e live
      have declared : t.bRowid = false := by
        by_contra implicit
        have few := room.2 (Bool.eq_true_of_not_eq_false implicit)
        have many := wide.resolve_left some
        omega
      obtain ⟨fields, stored⟩ := kept.stored ⟨id, live⟩
      have positive := List.length_pos_iff.mpr some
      have grown : t.chains.grown 256 = t.chains.buckets.length * 2 := if_neg some
      exact stored.recordPkHash modelled declared (by omega) (by omega))
  have sized : 256 ≤ buckets.length ∧ buckets.length < 2 ^ 32 := by
    have old := kept.small
    have positive := List.length_pos_iff.mpr some
    rcases sizes with ⟨same, _⟩ | ⟨width, full⟩
    · subst same
      exact ⟨wide.resolve_left some, old⟩
    · unfold HashChains.grown at width
      split at width
      · omega
      next before =>
        have many := wide.resolve_left before
        have half := full.resolve_left before
        omega
  refine ⟨buckets, by rw [SessionTable.growHash, moved, Checked.ok_bind], some, ?_⟩
  refine ⟨kept.slots, kept.counted, .inr sized.1, sized.2, filed,
    fun first second => (kept.modelled first second).rechain rfl, kept.idle, fun has => ?_,
    kept.first, kept.complete⟩
  obtain ⟨fields, stored⟩ := kept.stored has
  exact ⟨fields, stored.rechain rfl⟩

theorem firstOf_append {key : RowKey} {c : Capture} (found : firstOf log key = some c)
    (more : List Capture) : firstOf (log ++ more) key = some c := by
  rw [firstOf, List.find?_append]
  exact Option.or_of_isSome (by rw [← firstOf, found]; rfl) |>.trans found

/-- A capture at a key that is there already changes at most a mark. -/
theorem again (kept : Kept t log) {id : Nat} {e : SessionChange}
    (live : t.chains.live id = some e) {c : Capture} (same : t.entryKey e = .ok c.key)
    (indirect : Bool) :
    Kept { t with chains := t.chains.replace id { e with indirect } } (log ++ [c]) := by
  have has := @HashChains.has_replace _ _ t.chains t.entryKey _ kept.filed id e
    { e with indirect }
  have old : ∀ {x}, (t.chains.replace id { e with indirect }).Has x →
      ∃ y, t.chains.Has y ∧ t.entryKey x = t.entryKey y ∧ y.op = x.op ∧ y.record = x.record := by
    intro x there
    rcases (has live rfl).mp there with rfl | ⟨before, _⟩
    · exact ⟨e, ⟨id, live⟩, rfl, rfl, rfl⟩
    · exact ⟨x, before, rfl, rfl, rfl⟩
  refine ⟨kept.slots, by rw [kept.counted, HashChains.count_replace live], kept.buckets, kept.small,
    kept.filed.replace live rfl, fun first second => (kept.modelled first second).rechain rfl,
    kept.idle, fun there => ?_, fun {x} there => ?_, fun {d} logged => ?_⟩
  · obtain ⟨y, before, _, _, record⟩ := old there
    obtain ⟨fields, stored⟩ := kept.stored before
    exact ⟨fields, by rw [← record]; exact stored.record, stored.wide, stored.keyable, stored.rowid⟩
  · obtain ⟨y, before, key, op, record⟩ := old there
    obtain ⟨k, d, keyed, first, ops, records⟩ := kept.first before
    exact ⟨k, d, key.trans keyed, firstOf_append first _, ops.trans op, records.trans record⟩
  · have target : ∃ y, t.chains.Has y ∧ t.entryKey y = .ok d.key := by
      rcases List.mem_append.mp logged with earlier | now
      · exact kept.complete earlier
      · rw [List.mem_singleton.mp now]
        exact ⟨e, ⟨id, live⟩, same⟩
    obtain ⟨y, before, keyed⟩ := target
    by_cases this : t.entryKey y = t.entryKey e
    · exact ⟨_, (has live rfl).mpr (.inl rfl), this.symm.trans keyed⟩
    · exact ⟨y, (has live rfl).mpr (.inr ⟨before, this⟩), keyed⟩

/-- The mark may also stay as it is. -/
theorem unchanged (kept : Kept t log) {id : Nat} {e : SessionChange}
    (live : t.chains.live id = some e) {c : Capture} (same : t.entryKey e = .ok c.key) :
    Kept t (log ++ [c]) := by
  have again := kept.again live same e.indirect
  have slot := HashChains.live_iff.mp live
  have kept' : t.chains.replace id { e with indirect := e.indirect } = t.chains := by
    rw [HashChains.replace]
    congr 1
    apply List.ext_getElem?
    intro i
    rw [List.getElem?_set]
    split
    next this =>
      subst this
      rw [if_pos (HashChains.live_lt live), slot]
    · rfl
  rwa [kept'] at again

/-- A capture at a new key is the entry of that key. -/
theorem added (kept : Kept t log) (active : t.initialized = true ∧ t.untrackable = false)
    (some : t.chains.buckets ≠ []) {e : SessionChange} {fields : List Field}
    (stored : Stored t e fields) {c : Capture} (same : t.entryKey e = .ok c.key) (op : c.op = e.op)
    (record : c.record = e.record)
    (fresh : ∀ old, t.chains.Has old → t.entryKey old ≠ .ok c.key) :
    Kept (t.addEntry (chainHash t.bRowid (.ok c.key) % t.chains.buckets.length) e)
      (log ++ [c]) := by
  rw [SessionTable.addEntry, kept.slots]
  simp only
  have filed := kept.filed.insert (List.length_pos_iff.mpr some) (by rw [same]; exact fresh)
  rw [same] at filed
  have has : ∀ {x}, (t.chains.insert
      (chainHash t.bRowid (.ok c.key) % t.chains.buckets.length) e).Has x ↔
      x = e ∨ t.chains.Has x := HashChains.has_insert
  have width : (t.chains.insert (chainHash t.bRowid (.ok c.key) % t.chains.buckets.length)
      e).buckets.length = t.chains.buckets.length := List.length_modify _ _ _
  refine ⟨rfl, by rw [kept.counted, HashChains.count_insert], .inr ?_, ?_, filed,
    fun first second => (kept.modelled first second).rechain (by rw [Rechained]),
    fun other => ?_, fun {x} there => ?_, fun {x} there => ?_, fun {d} logged => ?_⟩
  · rw [width]
    exact kept.buckets.resolve_left some
  · rw [width]
    exact kept.small
  · rw [active.1, active.2] at other
    rcases other with contra | contra <;> cases contra
  · have storedOld : ∃ fields, Stored t x fields := by
      rcases has.mp there with rfl | before
      · exact ⟨fields, stored⟩
      · exact kept.stored before
    obtain ⟨fields, stored⟩ := storedOld
    exact ⟨fields, stored.rechain (by rw [Rechained])⟩
  · rcases has.mp there with rfl | before
    · refine ⟨c.key, c, same, ?_, op, record⟩
      have missing : firstOf log c.key = none := by
        rw [firstOf, List.find?_eq_none]
        intro d logged equal
        obtain ⟨old, there, keyed⟩ := kept.complete logged
        exact fresh old there (by rw [keyed, of_decide_eq_true equal])
      rw [firstOf, List.find?_append, ← firstOf, missing, Option.none_or, List.find?_cons_of_pos]
      exact decide_eq_true rfl
    · obtain ⟨k, d, keyed, first, ops, records⟩ := kept.first before
      exact ⟨k, d, keyed, firstOf_append first _, ops, records⟩
  · rcases List.mem_append.mp logged with earlier | now
    · obtain ⟨old, there, keyed⟩ := kept.complete earlier
      exact ⟨old, has.mpr (.inr there), keyed⟩
    · rw [List.mem_singleton.mp now]
      exact ⟨e, has.mpr (.inl rfl), same⟩

/-- One capture keeps the invariant with the capture in the log. -/
theorem recordOne (kept : Kept t log) (active : t.initialized = true ∧ t.untrackable = false)
    (room : Room t) {event : Event} {a : Op × Bool} (member : a ∈ SessionCore.attempts event.op)
    (fits : event.tbl.columns.length = t.nDbCol) (indirect : Bool) :
    ∃ t', t.recordOne indirect a.1 event a.2 = .ok t' ∧ Rechained t t' ∧
      Kept t' (log ++ (t.capture a.1 event a.2).toList) := by
  have modelled := kept.modelled active.1 active.2
  obtain ⟨side, sided⟩ := sided t event member
  have wide : side.length = t.nDbCol := by rw [sided.wide, fits]
  have hashed := SessionTable.eventHash_eq modelled event.rowid (some side)
  unfold SessionTable.recordOne SessionTable.capture
  simp only
  rw [sided.key, sided.serialize modelled wide]
  cases keyed : t.rowKey event.rowid (some side) with
  | none =>
    rw [keyed, Option.map_none] at hashed
    rw [hashed]
    exact ⟨t, rfl, rfl, by rw [Option.toList_none, List.append_nil]; exact kept⟩
  | some key =>
    obtain ⟨buckets, moved, some', kept'⟩ := kept.growHash modelled room
    let grown : SessionTable := { t with chains := { t.chains with buckets } }
    obtain ⟨h, bucket, answer, hash, walked, home, located⟩ :=
      @Kept.lookup grown log kept' (kept'.modelled active.1 active.2) some' event.rowid (some side)
        key keyed
    have same : t.eventHash event.rowid (some side) = some h := hash
    rw [same]
    simp only
    rw [moved, Checked.ok_bind, walked, Checked.ok_bind]
    cases answer with
    | some id =>
      obtain ⟨e, live, at_key⟩ := (located id).mp rfl
      simp only
      by_cases direct : event.depth = 0 ∧ indirect = false
      · refine ⟨{ grown with chains := grown.chains.replace id { e with indirect := false } },
          ?_, rfl, @Kept.again grown log kept' id e live ⟨key, a.1, _⟩ at_key false⟩
        rw [if_pos direct, SessionTable.clearIndirect]
        simp only [live, grown]
      · exact ⟨grown, by rw [if_neg direct], rfl,
          @Kept.unchanged grown log kept' id e live ⟨key, a.1, _⟩ at_key⟩
    | none =>
      obtain ⟨stored, picked⟩ := @Sided.stored t a.1 side wide modelled event.rowid key keyed
        (indirect || decide (0 < event.depth))
      have serialized : grown.serialize a.1 event.rowid (t.oldView a.1 event)
          (t.newView a.1 event) = .ok (recordOf (recordFields t a.1 event.rowid side)) :=
        sided.serialize modelled wide
      simp only
      rw [serialized, Checked.ok_bind]
      refine ⟨_, rfl, ?_, ?_⟩
      · rw [SessionTable.addEntry]
        split <;> rfl
      · rw [home]
        have added := @Kept.added grown log kept' active some' _ _
          ⟨stored.record, stored.wide, stored.keyable, stored.rowid⟩
          ⟨key, a.1, recordOf (recordFields t a.1 event.rowid side)⟩
          (by rw [← picked]; exact stored.entryKey modelled) rfl rfl
          (fun old has => HashChains.located_none located has)
        exact added

end Kept

end RustSql.Session
