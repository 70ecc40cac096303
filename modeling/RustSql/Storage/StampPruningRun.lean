import RustSql.Storage.StampPruning

/-! Two runs that differ in where the stamps are dropped report the same, as long as no BEGIN
has an old epoch in hand at that moment. -/

namespace RustSql.Storage.StampPruning

open RustSql.Foundation RustSql.Storage.RootLineage

/-- The reads of a transaction, and the pages it knows, are as before. -/
structure Kept (before after : TxnBody) : Prop where
  beginEpoch : after.beginEpoch = before.beginEpoch
  beginNPages : after.beginNPages = before.beginNPages
  semPages : after.semPages = before.semPages
  semRows : after.semRows = before.semRows
  semKeys : after.semKeys = before.semKeys
  shadowEpoch : after.shadowEpoch = before.shadowEpoch
  pageKind : after.pageKind = before.pageKind
  known : ∀ id, after.Known id ↔ before.Known id

namespace Kept

theorem refl (txn : TxnBody) : Kept txn txn := ⟨rfl, rfl, rfl, rfl, rfl, rfl, rfl, fun _ => Iff.rfl⟩

theorem trans {first second third : TxnBody} (one : Kept first second) (two : Kept second third) :
    Kept first third :=
  ⟨two.beginEpoch.trans one.beginEpoch, two.beginNPages.trans one.beginNPages, two.semPages.trans one.semPages,
    two.semRows.trans one.semRows, two.semKeys.trans one.semKeys,
    two.shadowEpoch.trans one.shadowEpoch, two.pageKind.trans one.pageKind,
    fun id => (two.known id).trans (one.known id)⟩

theorem foldl {change : TxnBody → Nat → TxnBody} (each : ∀ txn id, Kept txn (change txn id))
    (ids : List Nat) (txn : TxnBody) : Kept txn (ids.foldl change txn) := by
  induction ids generalizing txn with
  | nil => exact refl txn
  | cons id rest ih => exact (each txn id).trans (ih _)

end Kept

/-- Copies and pre-images are of pages the transaction knows. -/
structure Held (txn : TxnBody) : Prop where
  shadows : ∀ id, (txn.shadows.lookup id).isSome → txn.Known id
  undo : ∀ level ∈ txn.savepoints, ∀ id ∈ level.undo, txn.Known id

theorem isSome_lookup_insert {map : AssocMap Nat Value} {key target : Nat} {value : Value}
    (held : ((map.insert key value).lookup target).isSome) :
    target = key ∨ (map.lookup target).isSome := by
  rw [AssocMap.lookup_insert_eq] at held
  split at held
  · exact Or.inl ‹_›
  · exact Or.inr held

theorem isSome_lookup_erase {map : AssocMap Nat Value} {key target : Nat}
    (held : ((map.erase key).lookup target).isSome) : (map.lookup target).isSome := by
  rw [AssocMap.lookup_erase_eq] at held
  split at held
  · cases held
  · exact held

theorem noteDirty_kept (id : Nat) (txn : TxnBody) : Kept txn (txn.noteDirty id) :=
  ⟨rfl, rfl, rfl, rfl, rfl, rfl, rfl, fun _ => Iff.rfl⟩

variable {txn : TxnBody}

theorem noteDirty_shadows {id target : Nat}
    (held : ((txn.noteDirty id).shadows.lookup target).isSome) : (txn.shadows.lookup target).isSome := by
  simp only [TxnBody.noteDirty] at held
  split at held
  · rcases isSome_lookup_insert held with rfl | old
    · assumption
    · exact old
  · exact held

theorem captureShadowUndo_kept (id : Nat) (txn : TxnBody) : Kept txn (txn.captureShadowUndo id) := by
  rw [TxnBody.captureShadowUndo]
  split
  · exact Kept.refl txn
  · exact ⟨rfl, rfl, rfl, rfl, rfl, rfl, rfl, fun _ => Iff.rfl⟩

variable {id : Nat}

theorem captureShadowUndo_held (held : Held txn) (known : txn.Known id) :
    Held (txn.captureShadowUndo id) := by
  rw [TxnBody.captureShadowUndo]
  split
  · exact held
  · refine ⟨held.shadows, fun level member target captured => ?_⟩
    obtain ⟨old, before, rfl⟩ := List.mem_map.mp member
    split at captured
    · rcases List.mem_cons.mp captured with rfl | earlier
      · exact known
      · exact held.undo old before target earlier
    · exact held.undo old before target captured

theorem cutBack_kept (level : Savepoint) (txn : TxnBody) : Kept txn (txn.cutBack level) := by
  refine ⟨rfl, rfl, rfl, rfl, rfl, rfl, rfl, fun id => or_congr_right ?_⟩
  change id ∈ txn.allocated.take level.allocatedMark ∨
    id ∈ txn.discarded ++ txn.allocated.drop level.allocatedMark ↔ _
  have parts : id ∈ txn.allocated ↔
      id ∈ txn.allocated.take level.allocatedMark ∨ id ∈ txn.allocated.drop level.allocatedMark := by
    rw [← List.mem_append, List.take_append_drop]
  rw [parts, List.mem_append]
  tauto

theorem cutBack_shadows {level : Savepoint} (held : ((txn.cutBack level).shadows.lookup id).isSome) :
    (txn.shadows.lookup id).isSome := by
  have folded : ∀ (junk : List Nat) (shadows : AssocMap Nat Bool),
      ((junk.foldl (fun shadows id => shadows.erase id) shadows).lookup id).isSome →
        (shadows.lookup id).isSome := by
    intro junk
    induction junk with
    | nil => exact fun _ held => held
    | cons first rest ih => exact fun shadows held => isSome_lookup_erase (ih _ held)
  exact folded _ _ held

theorem restorePage_kept (txn : TxnBody) (id : Nat) : Kept txn (txn.restorePage id) :=
  ⟨rfl, rfl, rfl, rfl, rfl, rfl, rfl, fun _ => Iff.rfl⟩

theorem removeShadow_kept (txn : TxnBody) (id : Nat) : Kept txn (txn.removeShadow id) :=
  ⟨rfl, rfl, rfl, rfl, rfl, rfl, rfl, fun _ => Iff.rfl⟩

theorem restored_shadows {ids : List Nat}
    (held : ((ids.foldl TxnBody.restorePage txn).shadows.lookup id).isSome) :
    id ∈ ids ∨ (txn.shadows.lookup id).isSome := by
  induction ids generalizing txn with
  | nil => exact Or.inr held
  | cons first rest ih =>
    rcases ih held with later | now
    · exact Or.inl (List.mem_cons_of_mem _ later)
    · rcases isSome_lookup_insert (noteDirty_shadows now) with rfl | old
      · exact Or.inl List.mem_cons_self
      · exact Or.inr old

theorem removed_shadows {ids : List Nat}
    (held : ((ids.foldl TxnBody.removeShadow txn).shadows.lookup id).isSome) :
    (txn.shadows.lookup id).isSome := by
  induction ids generalizing txn with
  | nil => exact held
  | cons first rest ih => exact isSome_lookup_erase (ih held)

theorem removed_savepoints (ids : List Nat) (txn : TxnBody) :
    (ids.foldl TxnBody.removeShadow txn).savepoints = txn.savepoints := by
  induction ids generalizing txn with
  | nil => rfl
  | cons first rest ih => exact ih _

theorem rollbackTo_kept (below : List Savepoint) (level : Savepoint) (netZero : List Nat)
    (txn : TxnBody) : Kept txn (txn.rollbackTo below level netZero) := by
  have restored := (cutBack_kept level txn).trans (Kept.foldl restorePage_kept
    (level.undo.filter fun id => !decide (id ∈ txn.allocated.drop level.allocatedMark)) _)
  refine Kept.trans ?_ (Kept.foldl removeShadow_kept _ _)
  exact ⟨restored.beginEpoch, restored.beginNPages, restored.semPages, restored.semRows,
    restored.semKeys, restored.shadowEpoch, restored.pageKind, restored.known⟩

theorem rollbackTo_held {below : List Savepoint} {level : Savepoint} {netZero : List Nat}
    (held : Held txn) (lower : below ⊆ txn.savepoints) (here : level ∈ txn.savepoints) :
    Held (txn.rollbackTo below level netZero) := by
  have kept := rollbackTo_kept below level netZero txn
  constructor
  · intro id found
    rw [kept.known]
    rw [TxnBody.rollbackTo] at found
    have copied := removed_shadows found
    rcases restored_shadows copied with undone | old
    · exact held.undo level here id (List.mem_filter.mp undone).1
    · exact held.shadows id (cutBack_shadows old)
  · intro other member id undone
    rw [kept.known]
    rw [TxnBody.rollbackTo, removed_savepoints] at member
    rcases List.mem_append.mp member with under | top
    · exact held.undo other (lower under) id undone
    · rw [List.mem_singleton.mp top] at undone
      cases undone

theorem Edit.apply_kept (change : Edit) (txn : TxnBody) : Kept txn (change.apply txn) := by
  cases change with
  | mutate id => exact noteDirty_kept id txn
  | free id =>
    rw [Edit.apply]
    split
    · exact Kept.refl txn
    · exact ⟨rfl, rfl, rfl, rfl, rfl, rfl, rfl, fun _ => Iff.rfl⟩
  | decisionRead id =>
    rw [Edit.apply]
    split
    · exact Kept.refl txn
    · exact ⟨rfl, rfl, rfl, rfl, rfl, rfl, rfl, fun _ => Iff.rfl⟩
  | rowWrite op => exact ⟨rfl, rfl, rfl, rfl, rfl, rfl, rfl, fun _ => Iff.rfl⟩
  | journalInvalidated => exact ⟨rfl, rfl, rfl, rfl, rfl, rfl, rfl, fun _ => Iff.rfl⟩
  | rootSplit oldRoot newRoot =>
    rw [Edit.apply]
    split
    · exact Kept.refl txn
    · exact ⟨rfl, rfl, rfl, rfl, rfl, rfl, rfl, fun _ => Iff.rfl⟩
  | savepoint name => exact ⟨rfl, rfl, rfl, rfl, rfl, rfl, rfl, fun _ => Iff.rfl⟩
  | release name =>
    rw [Edit.apply]
    split
    · exact Kept.refl txn
    · exact ⟨rfl, rfl, rfl, rfl, rfl, rfl, rfl, fun _ => Iff.rfl⟩
  | rollback name netZero =>
    rw [Edit.apply]
    split
    · exact Kept.refl txn
    · split
      · exact Kept.refl txn
      · exact rollbackTo_kept _ _ _ txn

theorem Edit.apply_held (change : Edit) (held : Held txn) : Held (change.apply txn) := by
  cases change with
  | mutate id => exact ⟨fun target found => held.shadows target (noteDirty_shadows found), held.undo⟩
  | free id =>
    rw [Edit.apply]
    split
    · exact held
    · exact ⟨fun target found => held.shadows target (isSome_lookup_erase found), held.undo⟩
  | decisionRead id => rw [Edit.apply]; split <;> exact ⟨held.shadows, held.undo⟩
  | rowWrite op => exact ⟨held.shadows, held.undo⟩
  | journalInvalidated => exact ⟨held.shadows, held.undo⟩
  | rootSplit oldRoot newRoot => rw [Edit.apply]; split <;> exact ⟨held.shadows, held.undo⟩
  | savepoint name =>
    refine ⟨held.shadows, fun level member id undone => ?_⟩
    rcases List.mem_append.mp member with old | new
    · exact held.undo level old id undone
    · rw [List.mem_singleton.mp new] at undone
      cases undone
  | release name =>
    rw [Edit.apply]
    split
    · exact held
    · exact ⟨held.shadows, fun level member => held.undo level (List.mem_of_mem_take member)⟩
  | rollback name netZero =>
    rw [Edit.apply]
    split
    · exact held
    · split
      · exact held
      · exact rollbackTo_held held (List.take_subset _ _) (List.mem_of_getElem? ‹_›)

/-- A transaction, under the epoch and the page count of the manager. -/
structure TxnSound (epoch nPages : Nat) (txn : ConcurrentTxn) : Prop where
  held : Held txn.toTxnBody
  begun : txn.beginEpoch ≤ epoch
  pages : txn.beginNPages ≤ nPages
  recorded : ∀ id, txn.recorded id ≤ epoch
  fetched : ∀ id, (txn.readStamps.lookup id).isSome → txn.Known id
  inside : ∀ id, txn.Known id → id < nPages
  kinds : ∀ id, (txn.pageKind.lookup id).isSome → txn.Known id
  semPages : ∀ id ∈ txn.semPages, txn.Known id
  semRows : ∀ key read, txn.semRows.lookup key = some read → txn.beginEpoch ≤ read
  semKeys : ∀ key read, txn.semKeys.lookup key = some read → txn.beginEpoch ≤ read
  shadowEpoch : ∀ id read, txn.shadowEpoch.lookup id = some read → txn.beginEpoch ≤ read

namespace TxnSound

variable {epoch nPages : Nat} {txn : ConcurrentTxn}

theorem mono {epoch' nPages' : Nat} (sound : TxnSound epoch nPages txn) (later : epoch ≤ epoch')
    (more : nPages ≤ nPages') : TxnSound epoch' nPages' txn :=
  { sound with
    begun := sound.begun.trans later
    pages := sound.pages.trans more
    recorded := fun id => (sound.recorded id).trans later
    inside := fun id known => (sound.inside id known).trans_le more }

theorem kept {body : TxnBody} (sound : TxnSound epoch nPages txn) (kept : Kept txn.toTxnBody body)
    (held : Held body) : TxnSound epoch nPages { txn with toTxnBody := body } where
  held := held
  begun := kept.beginEpoch ▸ sound.begun
  pages := kept.beginNPages ▸ sound.pages
  recorded := sound.recorded
  fetched id found := (kept.known id).mpr (sound.fetched id found)
  inside id known := sound.inside id ((kept.known id).mp known)
  kinds id found := (kept.known id).mpr (sound.kinds id (kept.pageKind ▸ found))
  semPages id member := (kept.known id).mpr (sound.semPages id (kept.semPages ▸ member))
  semRows key read found := kept.beginEpoch ▸ sound.semRows key read (kept.semRows ▸ found)
  semKeys key read found := kept.beginEpoch ▸ sound.semKeys key read (kept.semKeys ▸ found)
  shadowEpoch id read found := kept.beginEpoch ▸ sound.shadowEpoch id read (kept.shadowEpoch ▸ found)

theorem new {beginEpoch beginNPages : Nat} (begun : beginEpoch ≤ epoch) (pages : beginNPages ≤ nPages) :
    TxnSound epoch nPages (ConcurrentTxn.new beginEpoch beginNPages) where
  held := ⟨fun _ found => (by cases found), fun _ member => (by cases member)⟩
  begun := begun
  pages := pages
  recorded _ := Nat.zero_le _
  fetched _ found := by cases found
  inside _ known := by rcases known with found | member | member <;> cases ‹_›
  kinds _ found := by cases found
  semPages _ member := by cases member
  semRows _ _ found := by cases found
  semKeys _ _ found := by cases found
  shadowEpoch _ _ found := by cases found

theorem materializedAt (sound : TxnSound epoch nPages txn) (id : Nat) :
    txn.beginEpoch ≤ txn.materializedAt id := by
  rw [TxnBody.materializedAt]
  cases found : txn.shadowEpoch.lookup id with
  | none => exact Nat.le_refl _
  | some read => exact sound.shadowEpoch id read found

end TxnSound

theorem noteLeast_above [DecidableEq Key] {map : AssocMap Key Nat} {key : Key} {epoch base : Nat}
    (above : ∀ key read, map.lookup key = some read → base ≤ read) (now : base ≤ epoch) (target : Key)
    (read : Nat) (found : (noteLeast map key epoch).lookup target = some read) : base ≤ read := by
  rw [noteLeast, AssocMap.lookup_insert_eq] at found
  split at found
  · obtain rfl := Option.some.inj found
    refine le_min now ?_
    cases old : map.lookup key with
    | none => exact now
    | some earlier => exact above key earlier old
  · exact above target read found

theorem noteLeast_lookup [DecidableEq Key] (map : AssocMap Key Nat) (key : Key) (epoch : Nat) :
    ∃ read, (noteLeast map key epoch).lookup key = some read := by
  rw [noteLeast, AssocMap.lookup_insert_eq, if_pos rfl]
  exact ⟨_, rfl⟩

/-- The counters bound every stamp, and pages past the count have none. -/
structure Sound (manager : Manager) : Prop where
  stamped : ∀ mark, manager.stamps.at mark ≤ manager.commitEpoch
  fresh : ∀ id, manager.nPages ≤ id → manager.stampOf id = 0
  counted : manager.committedNPages ≤ manager.nPages
  txns : ∀ t txn, manager.txns.lookup t = some txn → TxnSound manager.commitEpoch manager.nPages txn
  begins : ∀ thread entry, manager.begins.lookup thread = some entry →
    entry.nPages ≤ manager.nPages ∧ ∀ epoch, entry.epoch = some epoch → epoch ≤ manager.commitEpoch

namespace Sound

variable {manager : Manager}

theorem new (memory : Bool) (nPages : Nat) : Sound (Manager.new memory nPages) where
  stamped mark := by cases mark <;> exact Nat.zero_le _
  fresh _ _ := rfl
  counted := Nat.le_refl _
  txns _ _ found := by cases found
  begins _ _ found := by cases found

theorem setTxn {txn : ConcurrentTxn} (sound : Sound manager) (t : Nat)
    (new : TxnSound manager.commitEpoch manager.nPages txn) : Sound (manager.setTxn t txn) where
  stamped := sound.stamped
  fresh := sound.fresh
  counted := sound.counted
  begins := sound.begins
  txns other old found := by
    rw [Manager.setTxn, AssocMap.lookup_insert_eq] at found
    split at found
    · exact Option.some.inj found ▸ new
    · exact sound.txns other old found

theorem erase (sound : Sound manager) (t : Nat) :
    Sound { manager with txns := manager.txns.erase t } where
  stamped := sound.stamped
  fresh := sound.fresh
  counted := sound.counted
  begins := sound.begins
  txns other old found := by
    rw [AssocMap.lookup_erase_eq] at found
    split at found
    · cases found
    · exact sound.txns other old found

theorem register {epoch nPages : Nat} (sound : Sound manager) (begun : epoch ≤ manager.commitEpoch)
    (pages : nPages ≤ manager.nPages) : Sound (manager.register epoch nPages) :=
  have opened := sound.setTxn manager.nextTxn (TxnSound.new begun pages)
  { stamped := opened.stamped
    fresh := opened.fresh
    counted := opened.counted
    txns := opened.txns
    begins := opened.begins }

/-- A commit of a transaction whose pages are below the count. -/
theorem install {txn : TxnBody} (sound : Sound manager)
    (inside : ∀ id, (txn.shadows.lookup id).isSome → id < manager.nPages) :
    Sound (manager.install txn) where
  stamped mark := by
    rcases stampCommit_at { manager with roots := manager.roots.installLineage (pairs txn.rootLineage) }
      txn mark with ⟨_, here⟩ | ⟨_, here⟩
    · exact Nat.le_of_eq here
    · exact here.le.trans ((sound.stamped mark).trans (Nat.le_succ _))
  fresh id past := by
    rcases stampCommit_at { manager with roots := manager.roots.installLineage (pairs txn.rootLineage) }
      txn (.page id) with ⟨written, _⟩ | ⟨_, here⟩
    · obtain ⟨⟨page, dirty⟩, member, rfl⟩ := List.mem_map.mp written
      have found := AList.mem_lookup_iff.mpr (List.mem_filter.mp member).1
      exact absurd (inside page (Option.isSome_of_mem found)) (Nat.not_lt.mpr past)
    · exact here.trans (sound.fresh id past)
  counted := Nat.le_refl _
  txns t txn found := (sound.txns t txn found).mono (Nat.le_succ _) (Nat.le_refl _)
  begins thread entry found :=
    ⟨(sound.begins thread entry found).1,
      fun epoch read => ((sound.begins thread entry found).2 epoch read).trans (Nat.le_succ _)⟩

end Sound

variable {txn : ConcurrentTxn}

variable {manager : Manager}

theorem noteRead_sound {reading : Reading} (sound : TxnSound manager.commitEpoch manager.nPages txn) :
    TxnSound manager.commitEpoch manager.nPages (manager.noteSemanticRead txn reading id).2 := by
  have row : ∀ root rowid,
      TxnSound manager.commitEpoch manager.nPages (manager.noteRowRead txn id root rowid).2 :=
    fun root rowid => { sound with
      held := ⟨sound.held.shadows, sound.held.undo⟩
      semRows := noteLeast_above sound.semRows (sound.materializedAt id) }
  have key : ∀ root start,
      TxnSound manager.commitEpoch manager.nPages (manager.noteKeyRead txn id root start).2 :=
    fun root start => { sound with
      held := ⟨sound.held.shadows, sound.held.undo⟩
      semKeys := noteLeast_above sound.semKeys (sound.materializedAt id) }
  rw [Manager.noteSemanticRead]
  cases kind : txn.pageKind.lookup id with
  | none => exact sound
  | some kind' =>
    have page : TxnSound manager.commitEpoch manager.nPages (manager.notePageRead txn id).2 :=
      { sound with
        held := ⟨sound.held.shadows, sound.held.undo⟩
        semPages := by
          intro other member
          change other ∈ (if id ∈ txn.semPages then txn.semPages else id :: txn.semPages) at member
          split at member
          · exact sound.semPages other member
          · rcases List.mem_cons.mp member with rfl | old
            · exact sound.kinds other (by rw [kind]; rfl)
            · exact sound.semPages other old }
    dsimp only
    split
    · exact sound
    · rcases reading.pointRead with _ | ⟨root, rowid⟩ <;> rcases reading.keyProbe with _ | ⟨root', start⟩ <;>
        dsimp only
      · exact page
      · split
        · exact key _ _
        · exact page
      · split
        · exact row _ _
        · split
          · exact sound
          · exact page
      · split
        · exact row _ _
        · split
          · exact sound
          · exact key _ _

theorem materialize_known {kind : UInt8} (other : Nat) :
    (manager.materialize txn id kind).Known other ↔ other = id ∨ txn.Known other := by
  simp only [TxnBody.Known, Manager.materialize, AssocMap.lookup_insert_eq]
  split <;> simp_all

theorem materialize_sound {kind : UInt8} (managed : Sound manager)
    (sound : TxnSound manager.commitEpoch manager.nPages txn) (inside : id < manager.nPages) :
    TxnSound manager.commitEpoch manager.nPages (manager.materialize txn id kind) where
  held := by
    refine ⟨fun other found => (materialize_known other).mpr ?_,
      fun level member other undone => (materialize_known other).mpr (Or.inr (sound.held.undo level member other undone))⟩
    exact (isSome_lookup_insert found).imp_right (sound.held.shadows other)
  begun := sound.begun
  pages := sound.pages
  recorded other := by
    simp only [ConcurrentTxn.recorded, Manager.materialize, AssocMap.lookup_insert_eq]
    split
    · exact managed.stamped (.page id)
    · exact sound.recorded other
  fetched other found := (materialize_known other).mpr
    ((isSome_lookup_insert found).imp_right (sound.fetched other))
  inside other known := by
    rcases (materialize_known other).mp known with rfl | old
    · exact inside
    · exact sound.inside other old
  kinds other found := by
    refine (materialize_known other).mpr ?_
    simp only [Manager.materialize] at found
    split at found
    · exact (isSome_lookup_insert found).imp_right (sound.kinds other)
    · exact Or.inr (sound.kinds other found)
  semPages other member := (materialize_known other).mpr (Or.inr (sound.semPages other member))
  semRows := sound.semRows
  semKeys := sound.semKeys
  shadowEpoch other read found := by
    simp only [Manager.materialize, AssocMap.lookup_insert_eq] at found
    split at found
    · exact Option.some.inj found ▸ sound.begun
    · exact sound.shadowEpoch other read found

theorem captured_sound {epoch nPages : Nat} (sound : TxnSound epoch nPages txn)
    (known : txn.Known id) :
    TxnSound epoch nPages { txn with toTxnBody := txn.captureShadowUndo id } :=
  sound.kept (captureShadowUndo_kept id _) (captureShadowUndo_held sound.held known)

theorem serve_sound {t id : Nat} {late : Option Bool} {reading : Reading} (managed : Sound manager)
    (sound : TxnSound manager.commitEpoch manager.nPages txn) :
    Sound (manager.serve t txn late reading id).2 := by
  rw [Manager.serve]
  split
  · exact managed.setTxn t (noteRead_sound sound)
  · exact managed.setTxn t sound

theorem fetchBound_le (managed : Sound manager)
    (sound : TxnSound manager.commitEpoch manager.nPages txn) (id : Nat) :
    manager.fetchBound txn id ≤ manager.nPages := by
  have counted := managed.counted
  have pages := sound.pages
  rw [Manager.fetchBound]
  split
  · exact max_le counted (Nat.le_refl _)
  · split
    · exact max_le counted pages
    · exact pages

theorem writerShadowFetch_sound (managed : Sound manager) (t id : Nat) (reading : Reading)
    (live : Option UInt8) : Sound (manager.writerShadowFetch t id reading live).2 := by
  rw [Manager.writerShadowFetch]
  cases found : manager.txns.lookup t with
  | none => exact managed
  | some txn =>
    have sound := managed.txns t txn found
    dsimp only
    split
    · exact serve_sound managed (captured_sound sound (sound.held.shadows id ‹_›))
    · split
      · exact managed
      · split
        · exact managed
        · have inside : id < manager.nPages :=
            (Nat.lt_of_not_le ‹_›).trans_le (fetchBound_le managed sound id)
          cases live with
          | none => exact managed
          | some kind =>
            dsimp only
            split
            · exact managed
            · refine serve_sound managed (captured_sound (materialize_sound managed sound inside) ?_)
              exact (materialize_known id).mpr (Or.inl rfl)

theorem writerShadowAlloc_sound (managed : Sound manager) (t : Nat)
    (room : manager.nPages + 1 < 2 ^ 32) : Sound (manager.writerShadowAlloc t).2 := by
  have grown : Sound { manager with nPages := manager.nPages + 1 } :=
    { stamped := managed.stamped
      fresh := fun id past => managed.fresh id (Nat.le_of_succ_le past)
      counted := managed.counted.trans (Nat.le_succ _)
      txns := fun t txn found => (managed.txns t txn found).mono (Nat.le_refl _) (Nat.le_succ _)
      begins := fun thread entry found =>
        ⟨(managed.begins thread entry found).1.trans (Nat.le_succ _), (managed.begins thread entry found).2⟩ }
  rw [Manager.writerShadowAlloc, Nat.mod_eq_of_lt room]
  cases found : manager.txns.lookup t with
  | none => exact grown
  | some txn =>
    have sound := managed.txns t txn found
    refine grown.setTxn t ?_
    have known : ∀ id, TxnBody.Known { txn.toTxnBody with
        shadows := txn.shadows.insert manager.nPages true
        allocated := txn.allocated ++ [manager.nPages] } id ↔ id = manager.nPages ∨ txn.Known id := by
      intro id
      simp only [TxnBody.Known, List.mem_append, List.mem_singleton]
      tauto
    exact
      { held := ⟨fun id held => (known id).mpr ((isSome_lookup_insert held).imp_right (sound.held.shadows id)),
          fun level member id undone => (known id).mpr (Or.inr (sound.held.undo level member id undone))⟩
        begun := sound.begun
        pages := sound.pages.trans (Nat.le_succ _)
        recorded := sound.recorded
        fetched := fun id held => (known id).mpr (Or.inr (sound.fetched id held))
        inside := fun id held => by
          rcases (known id).mp held with rfl | old
          · exact Nat.lt_succ_self _
          · exact (sound.inside id old).trans (Nat.lt_succ_self _)
        kinds := fun id held => (known id).mpr (Or.inr (sound.kinds id held))
        semPages := fun id member => (known id).mpr (Or.inr (sound.semPages id member))
        semRows := sound.semRows
        semKeys := sound.semKeys
        shadowEpoch := sound.shadowEpoch }

theorem edit_sound (managed : Sound manager) (t : Nat) (change : Edit) :
    Sound (manager.edit t change).2 := by
  rw [Manager.edit]
  cases found : manager.txns.lookup t with
  | none => exact managed
  | some txn =>
    have sound := managed.txns t txn found
    exact managed.setTxn t (sound.kept (change.apply_kept _) (change.apply_held sound.held))

theorem begin_sound (managed : Sound manager) (thread : Nat) (entry : Begin)
    (pages : entry.nPages ≤ manager.nPages)
    (read : ∀ epoch, entry.epoch = some epoch → epoch ≤ manager.commitEpoch) :
    Sound { manager with begins := manager.begins.insert thread entry } :=
  { managed with
    begins := by
      intro other old found
      rw [AssocMap.lookup_insert_eq] at found
      split at found
      · exact Option.some.inj found ▸ ⟨pages, read⟩
      · exact managed.begins other old found }

theorem taken_sound (managed : Sound manager) (t : Nat) (committing : Option Nat)
    (txn : ConcurrentTxn) (found : manager.txns.lookup t = some txn) :
    Sound ({ manager with committing := committing, txns := manager.txns.erase t }.install txn.toTxnBody) := by
  have erased := managed.erase t
  have taken : Sound { manager with committing := committing, txns := manager.txns.erase t } :=
    ⟨erased.stamped, erased.fresh, erased.counted, erased.txns, erased.begins⟩
  refine taken.install fun id held => ?_
  exact (managed.txns t txn found).inside id ((managed.txns t txn found).held.shadows id held)

theorem commitConcurrent_sound (managed : Sound manager) (t : Nat) :
    Sound (manager.commitConcurrent t).2 := by
  rw [Manager.commitConcurrent]
  split
  · exact managed
  · cases found : manager.txns.lookup t with
    | none => exact managed
    | some txn =>
      have erased := managed.erase t
      dsimp only
      split
      · exact erased
      · split
        · split
          · exact erased
          · have fresh := erased.register (Nat.le_refl _) erased.counted
            exact ⟨fresh.stamped, fresh.fresh, fresh.counted, fresh.txns, fresh.begins⟩
        · exact taken_sound managed t manager.committing txn found

theorem finishMerge_sound (managed : Sound manager) (replayed : Bool) :
    Sound (manager.finishMerge replayed).2 := by
  rw [Manager.finishMerge]
  cases manager.committing with
  | none => exact managed
  | some fresh =>
    dsimp only
    cases found : manager.txns.lookup fresh with
    | none => exact ⟨managed.stamped, managed.fresh, managed.counted, managed.txns, managed.begins⟩
    | some txn =>
      dsimp only
      split
      · exact taken_sound managed fresh none txn found
      · have erased := managed.erase fresh
        exact ⟨erased.stamped, erased.fresh, erased.counted, erased.txns, erased.begins⟩

/-- What the next step needs: stamps are dropped only while none is newer than the epoch that a
BEGIN in flight has in hand, who commits has fetched the pages it marked as decision reads, and the
page count does not wrap. -/
def Ordered (manager : Manager) : Event → Prop
  | .prune true => (manager.txns.entries.isEmpty && manager.committing.isNone) = true →
      ∀ thread entry epoch, manager.begins.lookup thread = some entry → entry.epoch = some epoch →
        ∀ mark, manager.stamps.at mark ≤ epoch
  | .commit t => ∀ txn, manager.txns.lookup t = some txn → ∀ id ∈ txn.decisionReads, txn.Known id
  | .allocate _ => manager.nPages + 1 < 2 ^ 32
  | _ => True

theorem step_sound (managed : Sound manager) (event : Event) (ordered : Ordered manager event) :
    Sound (manager.next event) := by
  cases event with
  | loadPages thread =>
    have bound : (if manager.memory then manager.nPages else manager.committedNPages) ≤ manager.nPages := by
      split
      · exact Nat.le_refl _
      · exact managed.counted
    have begun := begin_sound managed thread ⟨_, none⟩ bound fun _ impossible => by cases impossible
    exact ⟨begun.stamped, begun.fresh, bound, begun.txns, begun.begins⟩
  | loadEpoch thread =>
    rw [Manager.next, Manager.step, Manager.loadEpoch]
    split
    · refine begin_sound managed thread _ (managed.begins thread ⟨_, none⟩ ‹_›).1 fun epoch read => ?_
      exact Option.some.inj read ▸ Nat.le_refl _
    · exact managed
  | register thread =>
    rw [Manager.next, Manager.step, Manager.registerBegin]
    split
    · obtain ⟨pages, begun⟩ := managed.begins thread _ ‹_›
      have opened := managed.register (begun _ rfl) pages
      refine ⟨opened.stamped, opened.fresh, opened.counted, opened.txns, fun other entry found => ?_⟩
      rw [AssocMap.lookup_erase_eq] at found
      split at found
      · cases found
      · exact managed.begins other entry found
    · exact managed
  | fetch txn id reading live => exact writerShadowFetch_sound managed txn id reading live
  | allocate txn => exact writerShadowAlloc_sound managed txn ordered
  | edit txn change => exact edit_sound managed txn change
  | commit txn => exact commitConcurrent_sound managed txn
  | finishMerge replayed => exact finishMerge_sound managed replayed
  | rollback txn =>
    rw [Manager.next, Manager.step, Manager.rollbackConcurrent]
    split
    · exact managed
    · split
      · exact managed
      · have erased := managed.erase txn
        refine ⟨erased.stamped, erased.fresh, ?_, erased.txns, erased.begins⟩
        dsimp only
        split
        · exact managed.counted
        · exact Nat.le_refl _
  | prune ran =>
    cases ran with
    | false => exact managed
    | true =>
      rw [Manager.next, Manager.step]
      dsimp only
      rw [if_pos rfl, Manager.pruneStampsIfIdle]
      split
      · exact ⟨fun mark => by cases mark <;> exact Nat.zero_le _, fun _ _ => rfl, managed.counted,
          managed.txns, managed.begins⟩
      · exact managed

/-- One transaction in both runs: only the page stamps it read may differ, and the pages it
knows have moved in both runs or in neither. -/
structure TxnTwin (one two : Stamps) (txn txn' : ConcurrentTxn) : Prop where
  body : txn.toTxnBody = txn'.toTxnBody
  alike : Alike txn.beginEpoch one two
  bases : ∀ id, txn.Known id → (one.stampOf id = txn.recorded id ↔ two.stampOf id = txn'.recorded id)

structure Twin (manager manager' : Manager) : Prop where
  frame : manager.toFrame = manager'.toFrame
  txns : ∀ t, Option.Rel (TxnTwin manager.stamps manager'.stamps) (manager.txns.lookup t)
    (manager'.txns.lookup t)
  begins : ∀ thread entry epoch, manager.begins.lookup thread = some entry → entry.epoch = some epoch →
    Alike epoch manager.stamps manager'.stamps

namespace TxnTwin

variable {one two : Stamps} {txn txn' : ConcurrentTxn}

theorem moved (twin : TxnTwin one two txn txn') {id : Nat} (known : txn.Known id) :
    decide (one.stampOf id ≠ txn.recorded id) = decide (two.stampOf id ≠ txn'.recorded id) :=
  decide_eq_decide.mpr (not_congr (twin.bases id known))

/-- A change that keeps what the transaction knows, made in both runs. -/
theorem kept {body : TxnBody} (twin : TxnTwin one two txn txn') (kept : Kept txn.toTxnBody body) :
    TxnTwin one two { txn with toTxnBody := body } { txn' with toTxnBody := body } where
  body := rfl
  alike := kept.beginEpoch ▸ twin.alike
  bases id known := twin.bases id ((kept.known id).mp known)

end TxnTwin

theorem any_congr_mem {items : List α} {test test' : α → Bool}
    (same : ∀ item ∈ items, test item = test' item) : items.any test = items.any test' := by
  induction items with
  | nil => rfl
  | cons item rest ih =>
    rw [List.any_cons, List.any_cons, same item List.mem_cons_self,
      ih fun other member => same other (List.mem_cons_of_mem _ member)]

section Answers

variable {manager manager' : Manager} {txn txn' : ConcurrentTxn} {epoch nPages : Nat}

theorem readSetStale_twin (roots : manager.roots = manager'.roots)
    (twin : TxnTwin manager.stamps manager'.stamps txn txn') (sound : TxnSound epoch nPages txn) :
    manager.readSetStale txn = manager'.readSetStale txn' := by
  obtain ⟨body, reads⟩ := txn
  obtain ⟨body', reads'⟩ := txn'
  obtain rfl : body = body' := twin.body
  have pages := any_congr_mem fun id member => twin.moved (sound.semPages id member)
  have rows : ∀ entry ∈ body.semRows.entries,
      decide (entry.2 < manager.rowStamp entry.1.1 entry.1.2) =
        decide (entry.2 < manager'.rowStamp entry.1.1 entry.1.2) := by
    intro entry member
    have above := sound.semRows entry.1 entry.2 (AList.mem_lookup_iff.mpr member)
    rw [Manager.rowStamp, Manager.rowStamp, ← roots]
    exact decide_eq_decide.mpr (twin.alike.row above _ _ _)
  have keys : ∀ entry ∈ body.semKeys.entries,
      decide (entry.2 < manager.keyPrefixStamp entry.1.1 entry.1.2) =
        decide (entry.2 < manager'.keyPrefixStamp entry.1.1 entry.1.2) := by
    intro entry member
    have above := sound.semKeys entry.1 entry.2 (AList.mem_lookup_iff.mpr member)
    rw [Manager.keyPrefixStamp, Manager.keyPrefixStamp, ← roots]
    exact decide_eq_decide.mpr (twin.alike.keys above _ _ _)
  exact congrArg₂ (· || ·) (congrArg₂ (· || ·) pages (any_congr_mem rows)) (any_congr_mem keys)

theorem rowMoved_twin (roots : manager.roots = manager'.roots)
    (twin : TxnTwin manager.stamps manager'.stamps txn txn') :
    manager.rowMoved txn = manager'.rowMoved txn' := by
  obtain ⟨body, reads⟩ := txn
  obtain ⟨body', reads'⟩ := txn'
  obtain rfl : body = body' := twin.body
  refine any_congr_mem fun op _ => decide_eq_decide.mpr ?_
  rw [Manager.rowStamp, Manager.rowStamp, ← roots]
  exact twin.alike.row (Nat.le_refl _) _ _ _

theorem late_twin (twin : TxnTwin manager.stamps manager'.stamps txn txn') (id : Nat) :
    manager.late txn id = manager'.late txn' id := by
  obtain ⟨body, reads⟩ := txn
  obtain ⟨body', reads'⟩ := txn'
  obtain rfl : body = body' := twin.body
  have newer := twin.alike.newer (Nat.le_refl _) (.page id)
  exact congrArg₂ (· || ·) (decide_eq_decide.mpr (and_congr_left fun _ => newer)) rfl

theorem conflicts_twin (roots : manager.roots = manager'.roots)
    (twin : TxnTwin manager.stamps manager'.stamps txn txn') (sound : TxnSound epoch nPages txn)
    (decided : ∀ id ∈ txn.decisionReads, txn.Known id) :
    manager.conflicts txn = manager'.conflicts txn' := by
  have rows := rowMoved_twin roots twin
  obtain ⟨body, reads⟩ := txn
  obtain ⟨body', reads'⟩ := txn'
  obtain rfl : body = body' := twin.body
  have pages : body.dirtyShadows.any (manager.moved ⟨body, reads⟩) =
      body.dirtyShadows.any (manager'.moved ⟨body, reads'⟩) := by
    refine any_congr_mem fun id dirty => twin.moved ?_
    obtain ⟨entry, member, rfl⟩ := List.mem_map.mp dirty
    have found := AList.mem_lookup_iff.mpr (List.mem_filter.mp member).1
    exact sound.held.shadows _ (Option.isSome_of_mem found)
  have decisions : body.decisionReads.any (manager.moved ⟨body, reads⟩) =
      body.decisionReads.any (manager'.moved ⟨body, reads'⟩) :=
    any_congr_mem fun id member => twin.moved (decided id member)
  have views : manager.rootMoved body = manager'.rootMoved body := by
    rw [Manager.rootMoved, Manager.rootMoved, roots]
  rw [Manager.conflicts, Manager.conflicts, pages, decisions, rows, views]

theorem noteSemanticRead_twin (roots : manager.roots = manager'.roots)
    (twin : TxnTwin manager.stamps manager'.stamps txn txn') (sound : TxnSound epoch nPages txn)
    (reading : Reading) (id : Nat) :
    (manager.noteSemanticRead txn reading id).1 = (manager'.noteSemanticRead txn' reading id).1 ∧
      TxnTwin manager.stamps manager'.stamps (manager.noteSemanticRead txn reading id).2
        (manager'.noteSemanticRead txn' reading id).2 := by
  obtain ⟨body, reads⟩ := txn
  obtain ⟨body', reads'⟩ := txn'
  obtain rfl : body = body' := twin.body
  have row : ∀ root rowid,
      (manager.noteRowRead ⟨body, reads⟩ id root rowid).1 = (manager'.noteRowRead ⟨body, reads'⟩ id root rowid).1 ∧
        TxnTwin manager.stamps manager'.stamps (manager.noteRowRead ⟨body, reads⟩ id root rowid).2
          (manager'.noteRowRead ⟨body, reads'⟩ id root rowid).2 := by
    intro root rowid
    refine ⟨congrArg (body.viewAdvanced && ·) (decide_eq_decide.mpr ?_), rfl, twin.alike, twin.bases⟩
    obtain ⟨read, found⟩ := noteLeast_lookup body.semRows (body.canonicalRoot root, rowid)
      (body.materializedAt id)
    have above := noteLeast_above sound.semRows (sound.materializedAt id) _ _ found
    simp only [found, Option.getD_some, Manager.rowStamp, ← roots]
    exact twin.alike.row above _ _ _
  have key : ∀ root start,
      (manager.noteKeyRead ⟨body, reads⟩ id root start).1 = (manager'.noteKeyRead ⟨body, reads'⟩ id root start).1 ∧
        TxnTwin manager.stamps manager'.stamps (manager.noteKeyRead ⟨body, reads⟩ id root start).2
          (manager'.noteKeyRead ⟨body, reads'⟩ id root start).2 := by
    intro root start
    refine ⟨congrArg (body.viewAdvanced && ·) (decide_eq_decide.mpr ?_), rfl, twin.alike, twin.bases⟩
    obtain ⟨read, found⟩ := noteLeast_lookup body.semKeys (body.canonicalRoot root, start)
      (body.materializedAt id)
    have above := noteLeast_above sound.semKeys (sound.materializedAt id) _ _ found
    simp only [found, Option.getD_some, Manager.keyPrefixStamp, ← roots]
    exact twin.alike.keys above _ _ _
  simp only [Manager.noteSemanticRead]
  cases kind : body.pageKind.lookup id with
  | none => exact ⟨rfl, twin⟩
  | some byte =>
    have page : (manager.notePageRead ⟨body, reads⟩ id).1 = (manager'.notePageRead ⟨body, reads'⟩ id).1 ∧
        TxnTwin manager.stamps manager'.stamps (manager.notePageRead ⟨body, reads⟩ id).2
          (manager'.notePageRead ⟨body, reads'⟩ id).2 :=
      ⟨congrArg (body.viewAdvanced && ·) (twin.moved (sound.kinds id (by rw [kind]; rfl))), rfl,
        twin.alike, twin.bases⟩
    dsimp only
    split
    · exact ⟨rfl, twin⟩
    · rcases reading.pointRead with _ | ⟨root, rowid⟩ <;> rcases reading.keyProbe with _ | ⟨root', start⟩ <;>
        dsimp only
      · exact page
      · split
        · exact key _ _
        · exact page
      · split
        · exact row _ _
        · split
          · exact ⟨rfl, twin⟩
          · exact page
      · split
        · exact row _ _
        · split
          · exact ⟨rfl, twin⟩
          · exact key _ _

end Answers

namespace Twin

variable {manager manager' : Manager}

theorem refl (manager : Manager) : Twin manager manager where
  frame := rfl
  txns t := by
    cases manager.txns.lookup t with
    | none => exact .none
    | some txn => exact .some ⟨rfl, fun _ => Or.inl rfl, fun _ _ => Iff.rfl⟩
  begins _ _ _ _ _ := fun _ => Or.inl rfl

theorem lookup (twin : Twin manager manager') (t : Nat) :
    (manager.txns.lookup t = none ∧ manager'.txns.lookup t = none) ∨
      ∃ txn txn', manager.txns.lookup t = some txn ∧ manager'.txns.lookup t = some txn' ∧
        TxnTwin manager.stamps manager'.stamps txn txn' := by
  have related := twin.txns t
  cases found : manager.txns.lookup t <;> cases found' : manager'.txns.lookup t <;>
    rw [found, found'] at related <;> cases related
  · exact Or.inl ⟨rfl, rfl⟩
  · exact Or.inr ⟨_, _, rfl, rfl, ‹_›⟩

theorem setTxn {txn txn' : ConcurrentTxn} (twin : Twin manager manager') (t : Nat)
    (new : TxnTwin manager.stamps manager'.stamps txn txn') :
    Twin (manager.setTxn t txn) (manager'.setTxn t txn') where
  frame := twin.frame
  begins := twin.begins
  txns other := by
    rw [Manager.setTxn, Manager.setTxn, AssocMap.lookup_insert_eq, AssocMap.lookup_insert_eq]
    split
    · exact .some new
    · exact twin.txns other

theorem erase (twin : Twin manager manager') (t : Nat) :
    Twin { manager with txns := manager.txns.erase t } { manager' with txns := manager'.txns.erase t } where
  frame := twin.frame
  begins := twin.begins
  txns other := by
    rw [AssocMap.lookup_erase_eq, AssocMap.lookup_erase_eq]
    split
    · exact .none
    · exact twin.txns other

/-- The stamps of both runs are at most the epoch both have. -/
theorem alike (twin : Twin manager manager') (managed : Sound manager) (managed' : Sound manager') :
    Alike manager.commitEpoch manager.stamps manager'.stamps := fun mark =>
  Or.inr ⟨managed.stamped mark, congrArg Frame.commitEpoch twin.frame ▸ managed'.stamped mark⟩

theorem register {epoch nPages : Nat} (twin : Twin manager manager')
    (alike : Alike epoch manager.stamps manager'.stamps) :
    Twin (manager.register epoch nPages) (manager'.register epoch nPages) := by
  have new : TxnTwin manager.stamps manager'.stamps (ConcurrentTxn.new epoch nPages)
      (ConcurrentTxn.new epoch nPages) :=
    ⟨rfl, alike, fun _ known => by rcases known with found | member | member <;> cases ‹_›⟩
  obtain ⟨frame, stamps, txns⟩ := manager
  obtain ⟨frame', stamps', txns'⟩ := manager'
  obtain rfl : frame = frame' := twin.frame
  have opened := twin.setTxn frame.nextTxn new
  exact ⟨rfl, opened.txns, opened.begins⟩

/-- A commit of the same body: what it writes has moved for every transaction that is open. -/
theorem install (twin : Twin manager manager') (managed : Sound manager) (managed' : Sound manager')
    (body : TxnBody) : Twin (manager.install body) (manager'.install body) := by
  obtain ⟨frame, stamps, txns⟩ := manager
  obtain ⟨frame', stamps', txns'⟩ := manager'
  obtain rfl : frame = frame' := twin.frame
  let moved : Frame := { frame with roots := frame.roots.installLineage (pairs body.rootLineage) }
  have commit : ∀ base, Alike base stamps stamps' →
      Alike base (Manager.stampCommit ⟨moved, stamps, txns⟩ body)
        (Manager.stampCommit ⟨moved, stamps', txns'⟩ body) := fun base alike =>
    @Alike.commit base ⟨moved, stamps, txns⟩ ⟨moved, stamps', txns'⟩ alike rfl rfl body
  refine ⟨rfl, fun t => ?_, fun thread entry read found loaded =>
    commit _ (twin.begins thread entry read found loaded)⟩
  change Option.Rel _ (txns.lookup t) (txns'.lookup t)
  rcases twin.lookup t with ⟨found, found'⟩ | ⟨txn, txn', found, found', pair⟩
  · rw [found, found']
    exact .none
  · rw [found, found']
    refine .some ⟨pair.body, commit _ pair.alike, fun id known => ?_⟩
    have old : txn.recorded id ≤ frame.commitEpoch := (managed.txns t txn found).recorded id
    have old' : txn'.recorded id ≤ frame.commitEpoch := (managed'.txns t txn' found').recorded id
    change (Manager.stampCommit ⟨moved, stamps, txns⟩ body).at (.page id) = _ ↔
      (Manager.stampCommit ⟨moved, stamps', txns'⟩ body).at (.page id) = _
    -- a page that is written moves past every stamp on record
    rcases stampCommit_at ⟨moved, stamps, txns⟩ body (.page id) with ⟨written, now⟩ | ⟨apart, now⟩ <;>
      rcases stampCommit_at ⟨moved, stamps', txns'⟩ body (.page id) with
        ⟨written', now'⟩ | ⟨apart', now'⟩
    · rw [now, now']
      exact iff_of_false (Nat.ne_of_gt (Nat.lt_succ_of_le old)) (Nat.ne_of_gt (Nat.lt_succ_of_le old'))
    · exact absurd written apart'
    · exact absurd written' apart
    · rw [now, now']
      exact pair.bases id known

theorem serve {txn txn' : ConcurrentTxn} (twin : Twin manager manager')
    (pair : TxnTwin manager.stamps manager'.stamps txn txn')
    (sound : TxnSound manager.commitEpoch manager.nPages txn) (t id : Nat) (late : Option Bool)
    (reading : Reading) :
    (manager.serve t txn late reading id).1 = (manager'.serve t txn' late reading id).1 ∧
      Twin (manager.serve t txn late reading id).2 (manager'.serve t txn' late reading id).2 := by
  have roots : manager.roots = manager'.roots := congrArg Frame.roots twin.frame
  obtain ⟨answer, noted⟩ := noteSemanticRead_twin roots pair sound reading id
  rw [Manager.serve, Manager.serve]
  split
  · refine ⟨?_, twin.setTxn t noted⟩
    exact congrArg (fun refused => Outcome.fetched late (if refused then .conflict else .page)) answer
  · exact ⟨rfl, twin.setTxn t pair⟩

theorem materialize {txn txn' : ConcurrentTxn} (twin : Twin manager manager')
    (pair : TxnTwin manager.stamps manager'.stamps txn txn') (id : Nat) (kind : UInt8) :
    TxnTwin manager.stamps manager'.stamps (manager.materialize txn id kind)
      (manager'.materialize txn' id kind) := by
  have late := late_twin pair id
  have epoch : manager.commitEpoch = manager'.commitEpoch := congrArg Frame.commitEpoch twin.frame
  refine ⟨?_, pair.alike, fun other known => ?_⟩
  · simp only [Manager.materialize, late, epoch, pair.body]
  · simp only [ConcurrentTxn.recorded, Manager.materialize, AssocMap.lookup_insert_eq]
    rcases (materialize_known other).mp known with rfl | old
    · simp only [if_pos]
      exact iff_of_true rfl rfl
    · split
      · obtain rfl := ‹other = id›
        exact iff_of_true rfl rfl
      · exact pair.bases other old

end Twin

variable {manager manager' : Manager}

theorem writerShadowFetch_twin (twin : Twin manager manager') (managed : Sound manager) (t id : Nat)
    (reading : Reading) (live : Option UInt8) :
    (manager.writerShadowFetch t id reading live).1 = (manager'.writerShadowFetch t id reading live).1 ∧
      Twin (manager.writerShadowFetch t id reading live).2
        (manager'.writerShadowFetch t id reading live).2 := by
  have roots : manager.roots = manager'.roots := congrArg Frame.roots twin.frame
  have nPages : manager.nPages = manager'.nPages := congrArg Frame.nPages twin.frame
  have committed : manager.committedNPages = manager'.committedNPages :=
    congrArg Frame.committedNPages twin.frame
  rw [Manager.writerShadowFetch, Manager.writerShadowFetch]
  rcases twin.lookup t with ⟨found, found'⟩ | ⟨txn, txn', found, found', pair⟩
  · rw [found, found']
    exact ⟨rfl, twin⟩
  · have sound := managed.txns t txn found
    have late := late_twin pair id
    have stale := readSetStale_twin roots pair sound
    have bound : manager.fetchBound txn id = manager'.fetchBound txn' id := by
      rw [Manager.fetchBound, Manager.fetchBound, late, nPages, committed, Manager.beyond,
        Manager.beyond, pair.body]
    rw [found, found']
    dsimp only
    rw [← late, ← stale, ← bound, ← pair.body]
    split
    · have captured := pair.kept (captureShadowUndo_kept id txn.toTxnBody)
      exact twin.serve captured (captured_sound sound (sound.held.shadows id ‹_›)) t id _ reading
    · split
      · exact ⟨rfl, twin⟩
      · split
        · exact ⟨rfl, twin⟩
        · have inside : id < manager.nPages :=
            (Nat.lt_of_not_le ‹_›).trans_le (fetchBound_le managed sound id)
          cases live with
          | none => exact ⟨rfl, twin⟩
          | some kind =>
            dsimp only
            split
            · exact ⟨rfl, twin⟩
            · have fetched := twin.materialize pair id kind
              have captured := fetched.kept (captureShadowUndo_kept id _)
              rw [fetched.body] at captured
              have known : (manager.materialize txn id kind).Known id :=
                (materialize_known id).mpr (Or.inl rfl)
              rw [← fetched.body] at captured ⊢
              exact twin.serve captured
                (captured_sound (materialize_sound managed sound inside) known) t id _ reading

theorem writerShadowAlloc_twin (twin : Twin manager manager') (managed : Sound manager)
    (managed' : Sound manager') (t : Nat) (room : manager.nPages + 1 < 2 ^ 32) :
    (manager.writerShadowAlloc t).1 = (manager'.writerShadowAlloc t).1 ∧
      Twin (manager.writerShadowAlloc t).2 (manager'.writerShadowAlloc t).2 := by
  obtain ⟨frame, stamps, txns⟩ := manager
  obtain ⟨frame', stamps', txns'⟩ := manager'
  obtain rfl : frame = frame' := twin.frame
  have grown : Twin ⟨{ frame with nPages := frame.nPages + 1 }, stamps, txns⟩
      ⟨{ frame with nPages := frame.nPages + 1 }, stamps', txns'⟩ := ⟨rfl, twin.txns, twin.begins⟩
  rw [Manager.writerShadowAlloc, Manager.writerShadowAlloc, Nat.mod_eq_of_lt room]
  rcases twin.lookup t with ⟨found, found'⟩ | ⟨⟨body, reads⟩, ⟨body', reads'⟩, found, found', pair⟩
  · dsimp only at found found' ⊢
    rw [found, found']
    exact ⟨rfl, grown⟩
  · obtain rfl : body = body' := pair.body
    have sound := managed.txns t _ found
    have sound' := managed'.txns t _ found'
    dsimp only at found found' ⊢
    rw [found, found']
    refine ⟨rfl, grown.setTxn t ⟨rfl, pair.alike, fun id known => ?_⟩⟩
    -- a page that was just taken has no stamp, and none of it is on record
    have unread : ∀ {txn : ConcurrentTxn}, TxnSound frame.commitEpoch frame.nPages txn →
        txn.recorded frame.nPages = 0 := by
      intro txn sound
      rw [ConcurrentTxn.recorded]
      cases read : txn.readStamps.lookup frame.nPages with
      | none => rfl
      | some stamp =>
        have known := sound.fetched frame.nPages (by rw [read]; rfl)
        exact absurd (sound.inside _ known) (Nat.lt_irrefl _)
    by_cases taken : id = frame.nPages
    · subst taken
      exact iff_of_true ((managed.fresh _ (Nat.le_refl _)).trans (unread sound).symm)
        ((managed'.fresh _ (Nat.le_refl _)).trans (unread sound').symm)
    · refine pair.bases id ?_
      rcases known with read | member | member
      · exact Or.inl read
      · rcases List.mem_append.mp member with old | new
        · exact Or.inr (Or.inl old)
        · exact absurd (List.mem_singleton.mp new) taken
      · exact Or.inr (Or.inr member)

theorem edit_twin (twin : Twin manager manager') (t : Nat) (change : Edit) :
    (manager.edit t change).1 = (manager'.edit t change).1 ∧
      Twin (manager.edit t change).2 (manager'.edit t change).2 := by
  rw [Manager.edit, Manager.edit]
  rcases twin.lookup t with ⟨found, found'⟩ | ⟨txn, txn', found, found', pair⟩
  · rw [found, found']
    exact ⟨rfl, twin⟩
  · rw [found, found']
    dsimp only
    rw [← pair.body]
    exact ⟨rfl, twin.setTxn t (pair.kept (change.apply_kept _))⟩

theorem loadEpoch_twin (twin : Twin manager manager') (managed : Sound manager)
    (managed' : Sound manager') (thread : Nat) :
    (manager.loadEpoch thread).1 = (manager'.loadEpoch thread).1 ∧
      Twin (manager.loadEpoch thread).2 (manager'.loadEpoch thread).2 := by
  have alike := twin.alike managed managed'
  obtain ⟨frame, stamps, txns⟩ := manager
  obtain ⟨frame', stamps', txns'⟩ := manager'
  obtain rfl : frame = frame' := twin.frame
  rw [Manager.loadEpoch, Manager.loadEpoch]
  dsimp only
  split
  · refine ⟨rfl, rfl, twin.txns, fun other entry epoch found read => ?_⟩
    dsimp only at found
    rw [AssocMap.lookup_insert_eq] at found
    split at found
    · obtain rfl := Option.some.inj found
      obtain rfl := Option.some.inj read
      exact alike
    · exact twin.begins other entry epoch found read
  · exact ⟨rfl, twin⟩

theorem registerBegin_twin (twin : Twin manager manager') (thread : Nat) :
    (manager.registerBegin thread).1 = (manager'.registerBegin thread).1 ∧
      Twin (manager.registerBegin thread).2 (manager'.registerBegin thread).2 := by
  have opened : ∀ nPages epoch, manager.begins.lookup thread = some ⟨nPages, some epoch⟩ →
      Twin (manager.register epoch nPages) (manager'.register epoch nPages) := fun _ epoch found =>
    twin.register (twin.begins thread _ epoch found rfl)
  obtain ⟨frame, stamps, txns⟩ := manager
  obtain ⟨frame', stamps', txns'⟩ := manager'
  obtain rfl : frame = frame' := twin.frame
  rw [Manager.registerBegin, Manager.registerBegin]
  dsimp only
  split
  · refine ⟨rfl, rfl, (opened _ _ ‹_›).txns, fun other entry epoch found read => ?_⟩
    dsimp only at found
    rw [AssocMap.lookup_erase_eq] at found
    split at found
    · cases found
    · exact twin.begins other entry epoch found read
  · exact ⟨rfl, twin⟩

theorem commitConcurrent_twin (twin : Twin manager manager') (managed : Sound manager)
    (managed' : Sound manager') (t : Nat)
    (decided : ∀ txn, manager.txns.lookup t = some txn → ∀ id ∈ txn.decisionReads, txn.Known id) :
    (manager.commitConcurrent t).1 = (manager'.commitConcurrent t).1 ∧
      Twin (manager.commitConcurrent t).2 (manager'.commitConcurrent t).2 := by
  have erased := twin.erase t
  have alike := twin.alike managed managed'
  have installed := erased.install (managed.erase t) (managed'.erase t)
  have opened := @Twin.register _ _ manager.commitEpoch manager.committedNPages erased alike
  rcases twin.lookup t with ⟨found, found'⟩ | ⟨txn, txn', found, found', pair⟩
  all_goals
    obtain ⟨frame, stamps, txns⟩ := manager
    obtain ⟨frame', stamps', txns'⟩ := manager'
    obtain rfl : frame = frame' := twin.frame
    rw [Manager.commitConcurrent, Manager.commitConcurrent]
    dsimp only at found found' ⊢
    rw [found, found']
    dsimp only
  · split
    · exact ⟨rfl, twin⟩
    · exact ⟨rfl, twin⟩
  · have sound := managed.txns t txn found
    have stale := @readSetStale_twin ⟨frame, stamps, txns⟩ ⟨frame, stamps', txns'⟩ _ _ _ _ rfl pair sound
    have rows := @rowMoved_twin ⟨frame, stamps, txns⟩ ⟨frame, stamps', txns'⟩ _ _ rfl pair
    have all := @conflicts_twin ⟨frame, stamps, txns⟩ ⟨frame, stamps', txns'⟩ _ _ _ _ rfl pair sound
      (decided txn found)
    rw [← stale, ← rows, ← all, ← pair.body]
    split
    · exact ⟨rfl, twin⟩
    · split
      · exact ⟨rfl, erased⟩
      · split
        · split
          · exact ⟨rfl, erased⟩
          · exact ⟨rfl, rfl, opened.txns, opened.begins⟩
        · exact ⟨rfl, installed txn.toTxnBody⟩

theorem finishMerge_twin (twin : Twin manager manager') (managed : Sound manager)
    (managed' : Sound manager') (replayed : Bool) :
    (manager.finishMerge replayed).1 = (manager'.finishMerge replayed).1 ∧
      Twin (manager.finishMerge replayed).2 (manager'.finishMerge replayed).2 := by
  have looked := twin.lookup
  obtain ⟨frame, stamps, txns⟩ := manager
  obtain ⟨frame', stamps', txns'⟩ := manager'
  obtain rfl : frame = frame' := twin.frame
  rw [Manager.finishMerge, Manager.finishMerge]
  dsimp only
  cases frame.committing with
  | none => exact ⟨rfl, twin⟩
  | some fresh =>
    dsimp only
    have idle : Twin ⟨{ frame with committing := none }, stamps, txns.erase fresh⟩
        ⟨{ frame with committing := none }, stamps', txns'.erase fresh⟩ :=
      have erased := twin.erase fresh
      ⟨rfl, erased.txns, erased.begins⟩
    have sound : ∀ {stamps txns}, Sound ⟨frame, stamps, txns⟩ →
        Sound ⟨{ frame with committing := none }, stamps, txns.erase fresh⟩ := fun managed =>
      have erased := managed.erase fresh
      ⟨erased.stamped, erased.fresh, erased.counted, erased.txns, erased.begins⟩
    rcases looked fresh with ⟨found, found'⟩ | ⟨txn, txn', found, found', pair⟩
    · dsimp only at found found'
      rw [found, found']
      exact ⟨rfl, rfl, twin.txns, twin.begins⟩
    · dsimp only at found found'
      rw [found, found']
      dsimp only
      rw [← pair.body]
      cases replayed with
      | false => exact ⟨rfl, idle⟩
      | true => exact ⟨rfl, idle.install (sound managed) (sound managed') txn.toTxnBody⟩

theorem rollbackConcurrent_twin (twin : Twin manager manager') (t : Nat) :
    (manager.rollbackConcurrent t).1 = (manager'.rollbackConcurrent t).1 ∧
      Twin (manager.rollbackConcurrent t).2 (manager'.rollbackConcurrent t).2 := by
  have erased := twin.erase t
  rcases twin.lookup t with ⟨found, found'⟩ | ⟨txn, txn', found, found', pair⟩
  all_goals
    obtain ⟨frame, stamps, txns⟩ := manager
    obtain ⟨frame', stamps', txns'⟩ := manager'
    obtain rfl : frame = frame' := twin.frame
    rw [Manager.rollbackConcurrent, Manager.rollbackConcurrent]
    dsimp only at found found' ⊢
    rw [found, found']
    dsimp only
    split
    · exact ⟨rfl, twin⟩
  · exact ⟨rfl, twin⟩
  · rw [← pair.body]
    exact ⟨rfl, rfl, erased.txns, erased.begins⟩

/-- With no transaction open, stamps that are no newer than an epoch in hand answer alike. -/
theorem Twin.dropped (twin : Twin manager manager') (stamps stamps' : Stamps)
    (idle : manager.txns.entries.isEmpty = true)
    (old : ∀ thread entry epoch, manager.begins.lookup thread = some entry →
      entry.epoch = some epoch → ∀ mark, stamps.at mark ≤ epoch ∧ stamps'.at mark ≤ epoch) :
    Twin { manager with stamps := stamps } { manager' with stamps := stamps' } where
  frame := twin.frame
  txns t := by
    rcases twin.lookup t with ⟨found, found'⟩ | ⟨txn, txn', found, found', pair⟩
    · dsimp only
      rw [found, found']
      exact .none
    · have member := AList.mem_lookup_iff.mp found
      rw [List.isEmpty_iff.mp idle] at member
      cases member
  begins thread entry epoch found read := fun mark =>
    Or.inr (old thread entry epoch found read mark)

theorem empty_at (mark : Mark) (epoch : Nat) : Stamps.empty.at mark ≤ epoch := by
  cases mark <;> exact Nat.zero_le _

theorem Twin.isEmpty {manager manager' : Manager} (twin : Twin manager manager') :
    manager.txns.entries.isEmpty = manager'.txns.entries.isEmpty := by
  have emptied : ∀ {one two : Manager}, (∀ t, one.txns.lookup t = none → two.txns.lookup t = none) →
      one.txns.entries.isEmpty = true → two.txns.entries.isEmpty = true := by
    intro one two missing empty
    rw [List.isEmpty_iff, List.eq_nil_iff_forall_not_mem]
    intro entry member
    have absent : one.txns.lookup entry.1 = none := by
      cases found : one.txns.lookup entry.1 with
      | none => rfl
      | some txn =>
        have held := AList.mem_lookup_iff.mp found
        rw [List.isEmpty_iff.mp empty] at held
        cases held
    have found := AList.mem_lookup_iff.mpr member
    rw [missing entry.1 absent] at found
    cases found
  refine Bool.eq_iff_iff.mpr ⟨emptied fun t missing => ?_, emptied fun t missing => ?_⟩
  · rcases twin.lookup t with ⟨_, found'⟩ | ⟨txn, txn', found, _, _⟩
    · exact found'
    · rw [missing] at found
      cases found
  · rcases twin.lookup t with ⟨found, _⟩ | ⟨txn, txn', _, found', _⟩
    · exact found
    · rw [missing] at found'
      cases found'

theorem prune_twin (twin : Twin manager manager') {ran ran' : Bool}
    (ordered : Ordered manager (.prune ran)) (ordered' : Ordered manager' (.prune ran')) :
    Twin (manager.next (.prune ran)) (manager'.next (.prune ran')) := by
  have empty := twin.isEmpty
  obtain ⟨frame, stamps, txns⟩ := manager
  obtain ⟨frame', stamps', txns'⟩ := manager'
  obtain rfl : frame = frame' := twin.frame
  simp only [Manager.next, Manager.step, Manager.pruneStampsIfIdle]
  dsimp only at empty
  rw [← empty]
  by_cases idle : (txns.entries.isEmpty && frame.committing.isNone) = true
  · rw [if_pos idle, if_pos idle]
    have none : txns.entries.isEmpty = true := (Bool.and_eq_true_iff.mp idle).1
    cases ran with
    | true =>
      cases ran' with
      | true =>
        exact twin.dropped _ _ none fun _ _ epoch _ _ mark => ⟨empty_at mark epoch, empty_at mark epoch⟩
      | false =>
        refine twin.dropped _ _ none fun thread entry epoch found read mark => ⟨empty_at mark epoch, ?_⟩
        exact (twin.begins thread entry epoch found read).old (ordered idle thread entry epoch found read) mark
    | false =>
      cases ran' with
      | true =>
        rw [empty] at idle
        refine twin.dropped _ _ none fun thread entry epoch found read mark => ⟨?_, empty_at mark epoch⟩
        exact (twin.begins thread entry epoch found read).symm.old
          (ordered' idle thread entry epoch found read) mark
      | false => exact twin
  · rw [if_neg idle, if_neg idle]
    simpa only [ite_self] using twin

theorem step_twin {event event' : Event} (twin : Twin manager manager') (managed : Sound manager)
    (managed' : Sound manager') (same : Event.Same event event') (ordered : Ordered manager event)
    (ordered' : Ordered manager' event') :
    (manager.step event).1 = (manager'.step event').1 ∧ Twin (manager.next event) (manager'.next event') := by
  cases same with
  | prune ran ran' => exact ⟨rfl, prune_twin twin ordered ordered'⟩
  | refl =>
    cases event with
    | loadPages thread =>
      obtain ⟨frame, stamps, txns⟩ := manager
      obtain ⟨frame', stamps', txns'⟩ := manager'
      obtain rfl : frame = frame' := twin.frame
      refine ⟨rfl, rfl, twin.txns, fun other entry epoch found read => ?_⟩
      simp only [Manager.next, Manager.step, Manager.loadPages, AssocMap.lookup_insert_eq] at found
      split at found
      · rw [← Option.some.inj found] at read
        cases read
      · exact twin.begins other entry epoch found read
    | loadEpoch thread => exact loadEpoch_twin twin managed managed' thread
    | register thread => exact registerBegin_twin twin thread
    | fetch txn id reading live => exact writerShadowFetch_twin twin managed txn id reading live
    | allocate txn => exact writerShadowAlloc_twin twin managed managed' txn ordered
    | edit txn change => exact edit_twin twin txn change
    | commit txn => exact commitConcurrent_twin twin managed managed' txn ordered
    | finishMerge replayed => exact finishMerge_twin twin managed managed' replayed
    | rollback txn => exact rollbackConcurrent_twin twin txn
    | prune ran => exact ⟨rfl, prune_twin twin ordered ordered'⟩

theorem outcomes_twin {events events' : List Event} (twin : Twin manager manager')
    (managed : Sound manager) (managed' : Sound manager')
    (same : List.Forall₂ Event.Same events events')
    (ordered : Run.Along Ordered Manager.next manager events)
    (ordered' : Run.Along Ordered Manager.next manager' events') :
    manager.outcomes events = manager'.outcomes events' := by
  induction same generalizing manager manager' with
  | nil => rfl
  | cons head _ ih =>
    obtain ⟨reported, next⟩ := step_twin twin managed managed' head ordered.1 ordered'.1
    rw [Manager.outcomes, Manager.outcomes, reported,
      ih next (step_sound managed _ ordered.1) (step_sound managed' _ ordered'.1) ordered.2 ordered'.2]

/-- Dropping the stamps changes no outcome, wherever it happens in two runs of the same events. -/
theorem pruning_invisible (memory : Bool) (nPages : Nat) {events events' : List Event}
    (same : List.Forall₂ Event.Same events events')
    (ordered : Run.Along Ordered Manager.next (Manager.new memory nPages) events)
    (ordered' : Run.Along Ordered Manager.next (Manager.new memory nPages) events') :
    (Manager.new memory nPages).outcomes events = (Manager.new memory nPages).outcomes events' :=
  outcomes_twin (Twin.refl _) (Sound.new _ _) (Sound.new _ _) same ordered ordered'

/-- Runs that differ at one idle point. -/
theorem same_but_one (before after : List Event) (ran ran' : Bool) :
    List.Forall₂ Event.Same (before ++ .prune ran :: after) (before ++ .prune ran' :: after) := by
  have same : ∀ events : List Event, List.Forall₂ Event.Same events events := by
    intro events
    induction events with
    | nil => exact .nil
    | cons event rest ih => exact .cons (.refl event) ih
  induction before with
  | nil => exact .cons (.prune ran ran') (same after)
  | cons event rest ih => exact .cons (.refl event) ih

/-- One transaction writes page 3 and commits, and another BEGIN gets as far as its epoch. -/
def handoverStart : List Event :=
  [.loadPages 0, .loadEpoch 0, .register 0, .fetch 1 3 ⟨true, none, none⟩ (some 0x0D),
    .edit 1 (.mutate 3), .allocate 1, .commit 1, .loadPages 1, .loadEpoch 1]

/-- It registers after the stamps were dropped, and fetches the page. -/
def handover (ran : Bool) : List Event :=
  handoverStart ++ .prune ran :: [.register 1, .fetch 2 3 ⟨false, none, none⟩ (some 0x0D)]

theorem handoverStart_ordered : Run.Along Ordered Manager.next (Manager.new false 10) handoverStart := by
  refine ⟨trivial, trivial, trivial, trivial, trivial, ?_, ?_, trivial, trivial, trivial⟩
  · show 10 + 1 < 2 ^ 32
    decide
  · intro txn found id member
    cases found
    cases member

theorem handoverStart_sound : Sound (handoverStart.foldl Manager.next (Manager.new false 10)) := by
  have run : Run (fun before event (_ : Unit) after => after = Manager.next before event) Ordered
      (Manager.new false 10) handoverStart (handoverStart.foldl Manager.next (Manager.new false 10)) :=
    Run.of_along (by simp) handoverStart_ordered
  refine run.invariant Sound ?_ (Sound.new _ _)
  rintro before event _ _ sound ordered rfl
  exact step_sound sound event ordered

theorem pruning_invisible_handover :
    (Manager.new false 10).outcomes (handover true) = (Manager.new false 10).outcomes (handover false) := by
  obtain ⟨_, _, _, _, _, allocated, committed, _⟩ := handoverStart_ordered
  refine pruning_invisible false 10 (same_but_one _ _ true false) ?_ ?_
  · refine ⟨trivial, trivial, trivial, trivial, trivial, allocated, committed, trivial, trivial, ?_, trivial,
      trivial, trivial⟩
    intro _ thread entry epoch found read
    have begun : (handoverStart.foldl Manager.next (Manager.new false 10)).begins =
        (∅ : AssocMap Nat Begin).insert 1 ⟨11, some 2⟩ := rfl
    change (handoverStart.foldl Manager.next (Manager.new false 10)).begins.lookup thread = _ at found
    rw [begun, AssocMap.lookup_insert_eq] at found
    split at found
    · cases found
      cases read
      exact handoverStart_sound.stamped
    · cases found
  · exact ⟨trivial, trivial, trivial, trivial, trivial, allocated, committed, trivial, trivial, trivial, trivial,
      trivial, trivial⟩

/-- The second BEGIN loads its epoch before the commit and registers after it. -/
def racing (ran : Bool) : List Event :=
  [.loadPages 0, .loadEpoch 0, .register 0, .fetch 1 3 ⟨true, none, none⟩ (some 0x0D),
    .edit 1 (.mutate 3), .loadPages 1, .loadEpoch 1, .commit 1] ++ .prune ran ::
  [.register 1, .fetch 2 3 ⟨false, none, none⟩ (some 0x0D)]

/-- Without its stamp the page the other transaction committed is not late any more. -/
theorem prune_between_load_and_register :
    List.Forall₂ Event.Same (racing true) (racing false) ∧
      ((Manager.new false 10).outcomes (racing true)).getLast? = some (.fetched (some false) .page) ∧
      ((Manager.new false 10).outcomes (racing false)).getLast? = some (.fetched (some true) .page) :=
  ⟨same_but_one _ _ true false, by decide, by decide⟩

/-- A page is marked as a decision read, and then cannot be read. -/
def unread (ran : Bool) : List Event :=
  [.loadPages 0, .loadEpoch 0, .register 0, .fetch 1 3 ⟨true, none, none⟩ (some 0x0D),
    .edit 1 (.mutate 3), .commit 1] ++ .prune ran ::
  [.loadPages 0, .loadEpoch 0, .register 0, .edit 2 (.decisionRead 3), .fetch 2 3 ⟨true, none, none⟩ none,
    .commit 2]

/-- The mark without a base is compared with the stamp the page has kept. -/
theorem marked_unread : ((Manager.new false 10).outcomes (unread true)).getLast? = some (.committed false) ∧
    ((Manager.new false 10).outcomes (unread false)).getLast? = some .conflict := by
  constructor <;> decide

end RustSql.Storage.StampPruning
