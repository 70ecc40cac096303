import RustSql.Storage.SavepointCalls

/-! Opening, releasing and rolling back to savepoints. -/

namespace RustSql.Storage.Pager

open RustSql.Foundation

/-- What a savepoint opened now has to bring back. -/
def mark (name : String) (pager : Pager size) : Mark size where
  name := name.toLower
  base := pager.snapshot
  holds := pager.Holds

theorem savepointIndex_some {names : List String} {name : String} {index : Nat}
    (found : savepointIndex names name = some index) : names[index]? = some name.toLower := by
  induction names generalizing index with
  | nil => cases found
  | cons first rest ih =>
    simp only [savepointIndex] at found
    split at found
    · next inner later =>
        cases found
        exact ih later
    · split at found
      · next same =>
          cases found
          simp [same]
      · cases found

theorem lookup_openLevel (name : String) (base : PagerSnapshot) (id : Nat) :
    (openLevel name base : SavepointLevel size).pages.lookup id = none := rfl

variable {pager : Pager size}

theorem setLevels_undoable (undoable : pager.Undoable) {levels : List (SavepointLevel size)}
    (nested : Nested levels)
    (above : ∀ level ∈ levels, 1 ≤ level.base.nPages ∧ level.base.nPages ≤ pager.nPages) :
    (pager.setLevels levels).Undoable :=
  ⟨⟨undoable.sound.grounded, undoable.sound.committed, undoable.sound.spilled,
      undoable.sound.plain⟩, undoable.header, undoable.backed, above, undoable.nonempty, rfl, rfl,
    nested⟩

theorem tracks_setLevels (levels : List (SavepointLevel size)) {level : SavepointLevel size}
    {mark : Mark size} (tracks : pager.LevelTracks level mark) :
    (pager.setLevels levels).LevelTracks level mark :=
  tracks.keep (fun _ _ _ _ held => held)

variable {marks : List (Mark size)}

theorem savepoint_journaled (journaled : pager.Journaled marks) (name : String) :
    (pager.savepoint name).Journaled (marks ++ [pager.mark name]) := by
  have undoable := journaled.undoable
  refine ⟨setLevels_undoable undoable ?_ ?_, journaled.active, ?_⟩
  · unfold Nested
    rw [List.pairwise_append]
    refine ⟨undoable.nested, List.pairwise_singleton _ _, ?_⟩
    intro lower found upper member
    rw [List.mem_singleton.mp member]
    refine ⟨(undoable.above lower found).2, ?_⟩
    intro id logged
    rw [lookup_openLevel] at logged
    cases logged
  · intro level member
    rcases List.mem_append.mp member with member | member
    · exact undoable.above level member
    · rw [List.mem_singleton.mp member]
      exact ⟨undoable.nonempty, Nat.le_refl _⟩
  · refine List.rel_append (journaled.stack.imp (fun level mark tracks =>
      tracks_setLevels _ tracks)) (.cons ⟨rfl, rfl, ?_, fun _ _ _ held _ => held⟩ .nil)
    intro id data bytes _ found
    rw [lookup_openLevel] at found
    cases found

theorem releaseSavepoint_journaled (journaled : pager.Journaled marks) (index : Nat) :
    (pager.setLevels (pager.savepoints.take index)).Journaled (marks.take index) := by
  have undoable := journaled.undoable
  refine ⟨setLevels_undoable undoable ?_ ?_, journaled.active, ?_⟩
  · exact undoable.nested.sublist (List.take_sublist index _)
  · intro level member
    exact undoable.above level (List.mem_of_mem_take member)
  · exact (List.forall₂_take index journaled.stack).imp (fun level mark tracks =>
      tracks_setLevels _ tracks)

/-- Restoring one page, with the capture of pre-images suspended. -/
theorem restorePage_written (sound : pager.Sound) (header : pager.HeaderKept)
    (suspended : pager.undoCaptureSuspended = true) {id : Nat} (inRange : id < pager.nPages)
    (backed : pager.Backed id) (bytes : Bytes size) :
    Succeeds (writePage [] id (fun _ => bytes)) pager (fun _ after =>
      Written id bytes pager after ∧ after.HeaderKept ∧
        after.savepoints = pager.savepoints) := by
  obtain ⟨data, seen⟩ := backed.seen
  unfold writePage
  simp only [Succeeds.bind_iff, Succeeds.modify_iff]
  obtain ⟨page, middle, returned, _, fetched⟩ :=
    getPage_fetched sound [] (Or.inr (Or.inl inRange)) seen
  obtain ⟨_, kept, levels⟩ := (getPage_meets sound header [] id).returned returned
  have same : middle.savepoints = pager.savepoints := by
    simpa [captureOnFetch, suspended] using levels
  have settled : ¬ (id = 0 ∧ middle.isNew = true ∧ middle.lazyWriteback = true) := by
    rintro ⟨_, new, lazy⟩
    rw [(kept new).1] at lazy
    cases lazy
  have written := (updatePage_settled fetched.sound
    (fun _ => { data := bytes, dirty := true }) fetched.cached settled rfl).noteDirty id
  refine ⟨page, middle, returned, fetched.written written, ?_, same⟩
  intro new
  obtain ⟨direct, resident, spared⟩ := kept new
  refine ⟨direct, ?_, spared⟩
  show ((middle.updatePage id _).cache 0).isSome
  by_cases zero : id = 0
  · subst zero
    simp [updatePage, fetched.cached]
  · simpa [updatePage, Ne.symm zero] using resident

/-- The restore loop with `todo` left to write. -/
structure Restoring (start pager : Pager size) (lower : List (SavepointLevel size))
    (marks : List (Mark size)) (mark : Mark size) (todo : List (Nat × Bytes size)) : Prop where
  sound : pager.Sound
  header : pager.HeaderKept
  suspended : pager.undoCaptureSuspended = true
  undisturbed : Undisturbed start pager
  savepoints : pager.savepoints = start.savepoints
  backed : ∀ id, id < pager.nPages → pager.Backed id
  inRange : mark.base.nPages ≤ pager.nPages
  stack : List.Forall₂ pager.LevelTracks lower marks
  captured : ∀ entry ∈ todo, Captured lower entry.1
  right : ∀ entry ∈ todo, ∀ data, mark.holds entry.1 data → entry.2 = data
  held : ∀ id data, id < mark.base.nPages → mark.holds id data →
    (∃ entry ∈ todo, entry.1 = id) ∨ pager.Holds id data

theorem restorePages_restoring {start : Pager size} {lower : List (SavepointLevel size)}
    {mark : Mark size} (todo : List (Nat × Bytes size))
    (restoring : Restoring start pager lower marks mark todo) :
    Succeeds (restorePages mark.base todo) pager (fun _ after =>
      Restoring start after lower marks mark []) := by
  induction todo generalizing pager with
  | nil =>
    rw [restorePages, Succeeds.pure_iff]
    exact restoring
  | cons entry rest ih =>
    obtain ⟨id, bytes⟩ := entry
    have later : ∀ id' data, id' < mark.base.nPages → mark.holds id' data → id' ≠ id →
        (∃ entry ∈ rest, entry.1 = id') ∨ pager.Holds id' data := by
      intro other data old marked differ
      rcases restoring.held other data old marked with ⟨entry, member, same⟩ | held
      · rcases List.mem_cons.mp member with rfl | member
        · exact absurd same.symm differ
        · exact Or.inl ⟨entry, member, same⟩
      · exact Or.inr held
    rw [restorePages]
    simp only [Succeeds.bind_iff, Succeeds.ite_iff]
    refine ⟨fun old => ?_, fun young => ?_⟩
    · have inside := Nat.lt_of_lt_of_le old restoring.inRange
      apply (restorePage_written restoring.sound restoring.header restoring.suspended inside
        (restoring.backed id inside) bytes).mono
      rintro _ after ⟨written, header, savepoints⟩
      have same := written.undisturbed
      apply ih
      refine ⟨written.sound, header, same.suspended.trans restoring.suspended,
        restoring.undisturbed.trans same, savepoints.trans restoring.savepoints, ?_,
        same.nPages ▸ restoring.inRange, ?_,
        fun entry member => restoring.captured entry (List.mem_cons_of_mem _ member),
        fun entry member => restoring.right entry (List.mem_cons_of_mem _ member), ?_⟩
      · intro other low
        exact written.backed other (restoring.backed other (same.nPages ▸ low))
      · refine forall₂_imp_mem restoring.stack (fun level member mark tracks =>
          tracks.keep (fun other data older absent held => written.holds other data ?_ held))
        rintro rfl
        have logged := restoring.captured (other, bytes) List.mem_cons_self level member older
        rw [absent] at logged
        cases logged
      · intro other data older marked
        by_cases equal : other = id
        · subst equal
          have right := restoring.right (other, bytes) List.mem_cons_self data marked
          exact Or.inr (right ▸ written.here)
        · exact (later other data older marked equal).imp_right
            (written.holds other data equal)
    · apply ih
      refine ⟨restoring.sound, restoring.header, restoring.suspended, restoring.undisturbed,
        restoring.savepoints, restoring.backed, restoring.inRange, restoring.stack,
        fun entry member => restoring.captured entry (List.mem_cons_of_mem _ member),
        fun entry member => restoring.right entry (List.mem_cons_of_mem _ member), ?_⟩
      intro other data old marked
      exact later other data old marked (fun equal => young (equal ▸ old))

theorem medium_rewind {base : PagerSnapshot} {id : Nat} (old : id < base.nPages) :
    (pager.rewind base).medium id = pager.medium id := by
  have spilled : (pager.rewind base).spilledFrame id = pager.spilledFrame id := by
    unfold spilledFrame rewind
    cases pager.wal with
    | none => rfl
    | some state => simp [AssocMap.lookup_retain, old]
  have committed : (pager.rewind base).committedFrame id = pager.committedFrame id := by
    unfold committedFrame rewind
    cases pager.wal <;> rfl
  have read : ∀ index, (pager.rewind base).readFrame index = pager.readFrame index := by
    intro index
    unfold readFrame rewind
    cases pager.wal <;> rfl
  have stored : (pager.rewind base).store[id]? = pager.store[id]? :=
    List.getElem?_take_of_lt old
  unfold medium
  rw [spilled, committed, stored]
  simp only [read]
  rfl

theorem cache_rewind (pager : Pager size) {base : PagerSnapshot} {id : Nat}
    (old : id < base.nPages) : (pager.rewind base).cache id = pager.cache id :=
  if_neg (Nat.not_le.mpr old)

theorem holds_rewind {base : PagerSnapshot} {id : Nat} (old : id < base.nPages) {data : Bytes size}
    (held : pager.Holds id data) : (pager.rewind base).Holds id data := by
  refine ⟨?_, ?_⟩
  · intro page cached
    rw [cache_rewind pager old] at cached
    rw [medium_rewind old]
    exact held.1 page cached
  · unfold view
    rw [cache_rewind pager old, medium_rewind old]
    exact held.2

theorem rewind_sound (sound : pager.Sound) (base : PagerSnapshot) : (pager.rewind base).Sound := by
  have attached : ∀ state, (pager.rewind base).wal = some state → ∃ before,
      pager.wal = some before ∧ state = { before with
        spilled := AssocMap.retain (fun id => decide (id < base.nPages)) before.spilled } := by
    intro state found
    obtain ⟨before, here, same⟩ := Option.map_eq_some_iff.mp found
    exact ⟨before, here, same.symm⟩
  refine ⟨?_, ?_, ?_, ?_⟩
  · intro state found
    obtain ⟨before, here, rfl⟩ := attached state found
    exact sound.grounded before here
  · intro state found
    obtain ⟨before, here, rfl⟩ := attached state found
    exact sound.committed before here
  · intro state found id index listed
    obtain ⟨before, here, rfl⟩ := attached state found
    simp only [AssocMap.lookup_retain] at listed
    split at listed
    · exact sound.spilled before here id index listed
    · cases listed
  · intro lazy
    obtain ⟨none, spill⟩ := sound.plain lazy
    refine ⟨?_, spill⟩
    simp [rewind, none]

/-- The state after the restore loop, rewound, is the one the mark describes. -/
theorem Restoring.rewind {start pager : Pager size} {lower : List (SavepointLevel size)}
    {marks : List (Mark size)} {mark : Mark size} {fresh : SavepointLevel size}
    (restored : Restoring start pager lower marks mark []) (nested : Nested lower)
    (levels : start.savepoints = lower ++ [fresh]) (name : fresh.name = mark.name)
    (base : fresh.base = mark.base) (empty : ∀ id, fresh.pages.lookup id = none)
    (positive : 1 ≤ mark.base.nPages)
    (above : ∀ level ∈ lower, 1 ≤ level.base.nPages ∧ level.base.nPages ≤ mark.base.nPages)
    (floor : start.savepointMinBase =
      (start.savepoints.map (fun level => level.base.nPages)).min?)
    (gate : start.savepointCaptureGate =
      (start.savepoints.map (fun level => level.base.nPages)).max?) :
    ((pager.setSuspended false).rewind mark.base).Journaled (marks ++ [mark]) ∧
      ∀ id data, id < mark.base.nPages → mark.holds id data →
        ((pager.setSuspended false).rewind mark.base).Holds id data := by
  have same := restored.undisturbed
  have savepoints : ((pager.setSuspended false).rewind mark.base).savepoints = lower ++ [fresh] :=
    restored.savepoints.trans levels
  have sound : (pager.setSuspended false).Sound :=
    ⟨restored.sound.grounded, restored.sound.committed, restored.sound.spilled,
      restored.sound.plain⟩
  have held : ∀ id data, id < mark.base.nPages → mark.holds id data →
      ((pager.setSuspended false).rewind mark.base).Holds id data := by
    intro id data old marked
    rcases restored.held id data old marked with ⟨entry, member, _⟩ | held
    · cases member
    · exact holds_rewind old (show (pager.setSuspended false).Holds id data from held)
  refine ⟨⟨⟨rewind_sound sound _, ?_, ?_, ?_, positive, ?_, ?_, ?_⟩, rfl, ?_⟩, held⟩
  · intro new
    obtain ⟨direct, resident, spared⟩ := restored.header new
    refine ⟨direct, ?_, spared⟩
    rw [cache_rewind _ positive]
    exact resident
  · intro id old
    have backed : pager.Backed id := restored.backed id (Nat.lt_of_lt_of_le old restored.inRange)
    unfold Backed
    rw [cache_rewind _ old, medium_rewind old]
    exact backed
  · rw [savepoints]
    intro level member
    rcases List.mem_append.mp member with member | member
    · exact above level member
    · rw [List.mem_singleton.mp member, base]
      exact ⟨positive, Nat.le_refl _⟩
  · rw [savepoints, ← levels, ← floor]
    exact same.minBase
  · rw [savepoints, ← levels, ← gate]
    exact same.gate
  · rw [savepoints]
    unfold Nested
    rw [List.pairwise_append]
    refine ⟨nested, List.pairwise_singleton _ _, ?_⟩
    intro level found upper member
    rw [List.mem_singleton.mp member]
    refine ⟨base ▸ (above level found).2, ?_⟩
    intro id logged
    rw [empty id] at logged
    cases logged
  · rw [savepoints]
    refine List.rel_append (forall₂_imp_mem restored.stack (fun level member mark tracks =>
      tracks.keep (fun id data old _ still => holds_rewind
        (Nat.lt_of_lt_of_le old (above level member).2)
        (show (pager.setSuspended false).Holds id data from still))))
      (.cons ⟨name, base, ?_, ?_⟩ .nil)
    · intro id data bytes _ found
      rw [empty id] at found
      cases found
    · intro id data old marked _
      exact held id data (base ▸ old) marked

/-- The stack around the level that is rolled back to. -/
theorem stack_split {levels : List (SavepointLevel size)}
    (stack : List.Forall₂ pager.LevelTracks levels marks) {index : Nat}
    {level : SavepointLevel size} (found : levels[index]? = some level) :
    ∃ mark, marks[index]? = some mark ∧ pager.LevelTracks level mark ∧
      levels = levels.take index ++ level :: levels.drop (index + 1) := by
  obtain ⟨inside, here⟩ := List.getElem?_eq_some_iff.mp found
  have lengths := stack.length_eq
  have related := (List.forall₂_iff_get.mp stack).2 index inside (lengths ▸ inside)
  refine ⟨marks[index], List.getElem?_eq_getElem (lengths ▸ inside), ?_, ?_⟩
  · simpa [here] using related
  · rw [← here, List.getElem_cons_drop, List.take_append_drop]

/-- Re-opening the level and suspending capture sets the restore loop up. -/
theorem beginRestore (journaled : pager.Journaled marks) (name : String) (index : Nat)
    {level : SavepointLevel size} {mark : Mark size} (split : pager.savepoints =
      pager.savepoints.take index ++ level :: pager.savepoints.drop (index + 1))
    (tracks : pager.LevelTracks level mark) :
    Restoring
      ((pager.setLevels (pager.savepoints.take index ++ [openLevel name level.base])).setSuspended
        true)
      ((pager.setLevels (pager.savepoints.take index ++ [openLevel name level.base])).setSuspended
        true) (pager.savepoints.take index) (marks.take index) mark
      (level.pages.entries.map (fun entry => (entry.1, entry.2))) := by
  have undoable := journaled.undoable
  have nested := undoable.nested
  unfold Nested at nested
  rw [split, List.pairwise_append] at nested
  have member : level ∈ pager.savepoints := by
    rw [split]
    simp
  have logged : ∀ entry ∈ level.pages.entries.map (fun entry => (entry.1, entry.2)),
      level.pages.lookup entry.1 = some entry.2 := by
    intro entry listed
    obtain ⟨⟨id, bytes⟩, found, rfl⟩ := List.mem_map.mp listed
    exact AList.mem_lookup_iff.mpr found
  refine ⟨⟨undoable.sound.grounded, undoable.sound.committed, undoable.sound.spilled,
    undoable.sound.plain⟩, undoable.header, rfl, .refl _, rfl, undoable.backed,
    tracks.base ▸ (undoable.above level member).2, ?_, ?_, ?_, ?_⟩
  · exact (List.forall₂_take index journaled.stack).imp (fun lower mark tracks =>
      tracks.keep (fun _ _ _ _ held => held))
  · intro entry listed lower older old
    refine (nested.2.2 lower older level List.mem_cons_self).2 entry.1 ?_ old
    rw [logged entry listed]
    rfl
  · intro entry listed data marked
    exact tracks.logged entry.1 data entry.2 marked (logged entry listed)
  · intro id data old marked
    cases image : level.pages.lookup id with
    | some bytes =>
      exact Or.inl ⟨(id, bytes), List.mem_map.mpr ⟨⟨id, bytes⟩, AList.mem_lookup_iff.mp image,
        rfl⟩, rfl⟩
    | none => exact Or.inr (tracks.untouched id data (tracks.base ▸ old) marked image)

theorem rollbackSavepoint_restores (journaled : pager.Journaled marks) {name : String} {index : Nat}
    (found : savepointIndex (marks.map Mark.name) name = some index) :
    ∃ mark, marks[index]? = some mark ∧ mark.name = name.toLower ∧
      Succeeds (rollbackSavepoint name) pager (fun result after =>
        result = some (index + 1) ∧ after.Journaled (marks.take index ++ [mark]) ∧
        after.snapshot = mark.base ∧
        ∀ id data, id < mark.base.nPages → mark.holds id data → after.Holds id data) := by
  have undoable := journaled.undoable
  have names := (stack_marks journaled.stack).1
  have named := savepointIndex_some found
  rw [← names, List.getElem?_map, Option.map_eq_some_iff] at named
  obtain ⟨level, listed, levelName⟩ := named
  obtain ⟨mark, marked, tracks, split⟩ := stack_split journaled.stack listed
  refine ⟨mark, marked, tracks.name.symm.trans levelName, ?_⟩
  have nested := undoable.nested
  unfold Nested at nested
  rw [split, List.pairwise_append] at nested
  obtain ⟨lowerNested, _, between⟩ := nested
  have member : level ∈ pager.savepoints := List.mem_of_getElem? listed
  have restoring := beginRestore journaled name index split tracks
  obtain ⟨value, final, returned, restored⟩ := restorePages_restoring _ restoring
  have above : ∀ lower ∈ pager.savepoints.take index,
      1 ≤ lower.base.nPages ∧ lower.base.nPages ≤ mark.base.nPages := by
    intro lower older
    rw [← tracks.base]
    exact ⟨(undoable.above lower (List.mem_of_mem_take older)).1,
      (between lower older level List.mem_cons_self).1⟩
  obtain ⟨kept, held⟩ := restored.rewind lowerNested rfl (levelName.symm.trans tracks.name)
    tracks.base (lookup_openLevel name level.base) (tracks.base ▸ (undoable.above level member).1)
    above rfl rfl
  unfold rollbackSavepoint
  simp only [Succeeds.bind_iff, Succeeds.get_iff, names, found, listed, Succeeds.modify_iff,
    Succeeds.pure_iff]
  rw [tracks.base] at *
  refine ⟨(), final.setSuspended false, ?_, trivial, kept, rfl, held⟩
  unfold suspendUndoCapture
  rw [returned]

end RustSql.Storage.Pager
