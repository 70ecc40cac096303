import RustSql.Foundation.GuardedRun
import RustSql.Storage.Concurrent

/-! What the undo log of a savepoint in a concurrent transaction knows: a page's bytes
when the savepoint was opened are in the log, or the page still holds them. -/

namespace RustSql.Storage.Concurrent

open RustSql.Foundation

/-- What a savepoint has to bring back: the pages the transaction sees and its lists. -/
structure TxnState (size : Nat) where
  view : Nat → Option (Bytes size)
  allocated : List Nat
  freed : List Nat
  rowJournal : List JournalOp
  opOk : List Bool
  rootLineage : AssocMap Nat Nat

def Writer.state (writer : Writer size) : TxnState size where
  view := writer.view
  allocated := writer.txn.allocated
  freed := writer.txn.freed
  rowJournal := writer.txn.rowJournal
  opOk := writer.txn.opOk
  rootLineage := writer.txn.rootLineage

/-- A savepoint as it was opened. -/
structure TxnMark (size : Nat) where
  name : String
  state : TxnState size

/-- The page was part of the transaction in this state, as far as its number tells. -/
def Old (beginNPages : Nat) (state : TxnState size) (id : Nat) : Prop :=
  id < beginNPages ∨ ∃ last ∈ state.allocated.getLast?, id ≤ last

/-- The page was allocated between the two states. -/
def Since (earlier later : TxnState size) (id : Nat) : Prop :=
  id ∈ later.allocated ∧ id ∉ earlier.allocated

/-- The lists of the earlier state are prefixes of those of the later one. -/
structure Extends (earlier later : TxnState size) : Prop where
  allocated : earlier.allocated <+: later.allocated
  freed : earlier.freed <+: later.freed
  journal : earlier.rowJournal <+: later.rowJournal
  outcomes : earlier.opOk <+: later.opOk

theorem Extends.refl (state : TxnState size) : Extends state state :=
  ⟨List.prefix_rfl, List.prefix_rfl, List.prefix_rfl, List.prefix_rfl⟩

theorem Extends.trans {first second third : TxnState size} (one : Extends first second)
    (two : Extends second third) : Extends first third :=
  ⟨one.allocated.trans two.allocated, one.freed.trans two.freed, one.journal.trans two.journal,
    one.outcomes.trans two.outcomes⟩

/-- What the level recorded when it was opened. -/
structure Marks (level : ConcurrentSavepoint size) (mark : TxnMark size) : Prop where
  name : level.name = mark.name
  lineage : level.lineageSnap = mark.state.rootLineage
  allocated : level.allocatedMark = mark.state.allocated.length
  freed : level.freedMark = mark.state.freed.length
  journal : level.journalMark = mark.state.rowJournal.length
  parallel : mark.state.opOk.length = mark.state.rowJournal.length

/-- From the state `now` the level can bring the savepoint back: a page's old bytes are
in its log, or the page still has them, or it was allocated since and had only what is
committed. -/
structure Tracks (committed : Nat → Option (Bytes size)) (now : TxnState size)
    (level : ConcurrentSavepoint size) (mark : TxnMark size) : Prop where
  marks : Marks level mark
  extended : Extends mark.state now
  logged : ∀ id bytes, level.undo.lookup id = some bytes → mark.state.view id = some bytes
  untouched : ∀ id, level.undo.lookup id = none → ¬ Since mark.state now id →
    now.view id = mark.state.view id
  fresh : ∀ id, Since mark.state now id → mark.state.view id = committed id

/-- A newer level's pages are also in every older level that is old enough, and the state
it was opened in can be brought back to the older one. -/
structure Nested (beginNPages : Nat) (lower upper : ConcurrentSavepoint size × TxnMark size) :
    Prop where
  extended : Extends lower.2.state upper.2.state
  captured : ∀ id, (upper.1.undo.lookup id).isSome → Old beginNPages lower.2.state id →
    (lower.1.undo.lookup id).isSome
  untouched : ∀ id, lower.1.undo.lookup id = none → ¬ Since lower.2.state upper.2.state id →
    upper.2.state.view id = lower.2.state.view id

/-- The page numbers the transaction uses. -/
structure Numbered (writer : Writer size) : Prop where
  ascending : writer.txn.allocated.Pairwise (· < ·)
  allocated : ∀ id ∈ writer.txn.allocated, writer.txn.beginNPages ≤ id ∧ id < writer.nPages
  shadows : ∀ id, (writer.txn.shadows.lookup id).isSome → id < writer.nPages
  undo : ∀ level ∈ writer.txn.savepoints, ∀ id, (level.undo.lookup id).isSome → id < writer.nPages
  begun : writer.txn.beginNPages ≤ writer.nPages
  committed : writer.committedNPages ≤ writer.nPages
  parallel : writer.txn.opOk.length = writer.txn.rowJournal.length

/-- The open levels with the savepoints they stand for. -/
structure Stack (writer : Writer size) (pairs : List (ConcurrentSavepoint size × TxnMark size)) :
    Prop where
  levels : writer.txn.savepoints = pairs.map Prod.fst
  tracks : ∀ pair ∈ pairs, Tracks writer.committed writer.state pair.1 pair.2
  nested : pairs.Pairwise (Nested writer.txn.beginNPages)

/-- The undo invariant of a transaction and the savepoints it has opened. -/
structure Tracked (writer : Writer size) (marks : List (TxnMark size)) : Prop where
  numbered : Numbered writer
  stack : ∃ pairs, marks = pairs.map Prod.snd ∧ Stack writer pairs

section Steps

variable {writer after : Writer size}

/-- A step that appends to the lists and changes only pages the level does not need. -/
theorem Tracks.advance {level : ConcurrentSavepoint size} {mark : TxnMark size}
    (tracks : Tracks writer.committed writer.state level mark)
    (same : after.committed = writer.committed) (extended : Extends writer.state after.state)
    (kept : ∀ id, level.undo.lookup id = none → ¬ Since mark.state after.state id →
      after.view id = writer.view id)
    (grown : ∀ id, Since writer.state after.state id → level.undo.lookup id = none ∧
      writer.view id = writer.committed id) :
    Tracks after.committed after.state level mark where
  marks := tracks.marks
  extended := tracks.extended.trans extended
  logged := tracks.logged
  untouched := by
    intro id missing old
    have before : ¬ Since mark.state writer.state id := by
      intro since
      exact old ⟨extended.allocated.subset since.1, since.2⟩
    exact (kept id missing old).trans (tracks.untouched id missing before)
  fresh := by
    intro id since
    rw [same]
    by_cases known : id ∈ writer.txn.allocated
    · exact tracks.fresh id ⟨known, since.2⟩
    · obtain ⟨missing, seen⟩ := grown id ⟨since.1, known⟩
      have before : ¬ Since mark.state writer.state id := fun since => known since.1
      exact (tracks.untouched id missing before).symm.trans seen

theorem Tracked.advance {marks : List (TxnMark size)} (tracked : Tracked writer marks)
    (numbered : Numbered after) (levels : after.txn.savepoints = writer.txn.savepoints)
    (begun : after.txn.beginNPages = writer.txn.beginNPages)
    (same : after.committed = writer.committed) (extended : Extends writer.state after.state)
    (kept : ∀ level ∈ writer.txn.savepoints, ∀ mark, Marks level mark →
      Extends mark.state writer.state → ∀ id, level.undo.lookup id = none →
      ¬ Since mark.state after.state id → after.view id = writer.view id)
    (grown : ∀ id, Since writer.state after.state id →
      (∀ level ∈ writer.txn.savepoints, level.undo.lookup id = none) ∧
      writer.view id = writer.committed id) : Tracked after marks := by
  obtain ⟨pairs, rfl, stack⟩ := tracked.stack
  refine ⟨numbered, pairs, rfl, levels.trans stack.levels, ?_, begun ▸ stack.nested⟩
  intro pair member
  have tracks := stack.tracks pair member
  have level : pair.1 ∈ writer.txn.savepoints := by
    rw [stack.levels]
    exact List.mem_map_of_mem member
  exact tracks.advance same extended (kept pair.1 level pair.2 tracks.marks tracks.extended)
    (fun id since => ⟨(grown id since).1 pair.1 level, (grown id since).2⟩)

end Steps

section Marked

variable {writer : Writer size} {level : ConcurrentSavepoint size} {mark : TxnMark size}
  (marks : Marks level mark) (extended : Extends mark.state writer.state)

include marks extended

/-- `existed_at` reads the last page allocated before the savepoint. -/
theorem existedAt_iff (id : Nat) :
    writer.txn.existedAt level id = true ↔ Old writer.txn.beginNPages mark.state id := by
  obtain ⟨since, grown⟩ := extended.allocated
  have grown : writer.txn.allocated = mark.state.allocated ++ since := grown.symm
  unfold ConcurrentTxn.existedAt Old
  rw [Bool.or_eq_true, decide_eq_true_iff, marks.allocated, grown]
  cases empty : mark.state.allocated with
  | nil => simp
  | cons first rest =>
    rw [List.getElem?_append_left (by simp), List.getLast?_eq_getElem?]
    simp

theorem mem_drop_iff (ascending : writer.txn.allocated.Pairwise (· < ·)) (id : Nat) :
    id ∈ writer.txn.allocated.drop level.allocatedMark ↔ Since mark.state writer.state id := by
  obtain ⟨since, grown⟩ := extended.allocated
  have grown : writer.txn.allocated = mark.state.allocated ++ since := grown.symm
  rw [Since, Writer.state, grown, marks.allocated, List.drop_left]
  rw [grown, List.pairwise_append] at ascending
  constructor
  · intro member
    refine ⟨List.mem_append_right _ member, fun old => ?_⟩
    exact absurd (ascending.2.2 id old id member) (lt_irrefl id)
  · rintro ⟨member, young⟩
    exact (List.mem_append.mp member).resolve_left young

omit marks in
/-- A page that was there before was not allocated since. -/
theorem not_since_of_old (numbered : Numbered writer) {id : Nat}
    (old : Old writer.txn.beginNPages mark.state id) : ¬ Since mark.state writer.state id := by
  intro since
  obtain ⟨more, grown⟩ := extended.allocated
  have grown : writer.txn.allocated = mark.state.allocated ++ more := grown.symm
  rcases old with low | ⟨last, isLast, below⟩
  · have above := (numbered.allocated id since.1).1
    omega
  · have ascending := numbered.ascending
    rw [grown, List.pairwise_append] at ascending
    have later : id ∈ more := by
      have member := since.1
      rw [Writer.state, grown] at member
      exact (List.mem_append.mp member).resolve_left since.2
    have above := ascending.2.2 last (List.mem_of_getLast? isLast) id later
    omega

end Marked

section Capture

variable {writer : Writer size}

/-- Every level that is old enough for the page has its bytes. -/
def Captured (txn : ConcurrentTxn size) (id : Nat) : Prop :=
  ∀ level ∈ txn.savepoints, txn.existedAt level id = true → (level.undo.lookup id).isSome

theorem captureLevel_lookup (txn : ConcurrentTxn size) (id : Nat) (bytes : Bytes size)
    (level : ConcurrentSavepoint size) (other : Nat) :
    (txn.captureLevel id bytes level).undo.lookup other =
      if other = id ∧ txn.existedAt level id = true then
        some ((level.undo.lookup id).getD bytes)
      else level.undo.lookup other := by
  unfold ConcurrentTxn.captureLevel
  cases old : txn.existedAt level id with
  | false => simp
  | true =>
    cases found : level.undo.lookup id with
    | some held =>
      by_cases same : other = id
      · subst same
        simp [found]
      · simp [same]
    | none =>
      by_cases same : other = id
      · subst same
        simp
      · simp [same]

theorem captureLevel_keeps (txn : ConcurrentTxn size) (id : Nat) (bytes : Bytes size)
    (level : ConcurrentSavepoint size) {mark : TxnMark size} (marks : Marks level mark) :
    Marks (txn.captureLevel id bytes level) mark := by
  unfold ConcurrentTxn.captureLevel
  split
  · exact ⟨marks.name, marks.lineage, marks.allocated, marks.freed, marks.journal, marks.parallel⟩
  · exact marks

variable {bytes : Bytes size}

theorem captureLevel_none {txn : ConcurrentTxn size} {id other : Nat}
    {level : ConcurrentSavepoint size}
    (missing : (txn.captureLevel id bytes level).undo.lookup other = none) :
    level.undo.lookup other = none := by
  rw [captureLevel_lookup] at missing
  split at missing
  · cases missing
  · exact missing

/-- Recording the bytes a page has now leaves a level able to bring its savepoint back. -/
theorem Tracks.capture (numbered : Numbered writer) {level : ConcurrentSavepoint size}
    {mark : TxnMark size} (tracks : Tracks writer.committed writer.state level mark) {id : Nat}
    (seen : writer.view id = some bytes) :
    Tracks writer.committed writer.state (writer.txn.captureLevel id bytes level) mark where
  marks := captureLevel_keeps _ _ _ _ tracks.marks
  extended := tracks.extended
  logged := by
    intro other held found
    rw [captureLevel_lookup] at found
    split at found
    · rename_i hit
      obtain ⟨rfl, old⟩ := hit
      cases logged : level.undo.lookup other with
      | some first =>
        rw [logged] at found
        cases found
        exact tracks.logged other _ logged
      | none =>
        rw [logged] at found
        cases found
        have before := not_since_of_old tracks.extended numbered
          ((existedAt_iff tracks.marks tracks.extended other).mp old)
        exact (tracks.untouched other logged before).symm.trans seen
    · exact tracks.logged other held found
  untouched := fun other missing => tracks.untouched other (captureLevel_none missing)
  fresh := tracks.fresh

theorem Nested.capture {lower upper : ConcurrentSavepoint size × TxnMark size}
    (nested : Nested writer.txn.beginNPages lower upper) (marks : Marks lower.1 lower.2)
    (extended : Extends lower.2.state writer.state) (id : Nat) (bytes : Bytes size) :
    Nested writer.txn.beginNPages (writer.txn.captureLevel id bytes lower.1, lower.2)
      (writer.txn.captureLevel id bytes upper.1, upper.2) where
  extended := nested.extended
  captured := by
    intro other held old
    simp only [captureLevel_lookup] at held ⊢
    split
    · rfl
    · rename_i missed
      split at held
      · rename_i hit
        obtain ⟨rfl, _⟩ := hit
        exact absurd ⟨rfl, (existedAt_iff marks extended other).mpr old⟩ missed
      · exact nested.captured other held old
  untouched := fun other missing => nested.untouched other (captureLevel_none missing)

theorem captureLevel_allocatedMark (txn : ConcurrentTxn size) (id : Nat) (bytes : Bytes size)
    (level : ConcurrentSavepoint size) :
    (txn.captureLevel id bytes level).allocatedMark = level.allocatedMark := by
  unfold ConcurrentTxn.captureLevel
  split <;> rfl

variable {pairs : List (ConcurrentSavepoint size × TxnMark size)}

/-- When the newest level has the page, every older one that needs it has it too. -/
theorem Stack.captured_of_newest (stack : Stack writer pairs) {id : Nat}
    (newest : writer.txn.savepoints.getLast?.any (fun level => (level.undo.lookup id).isSome)) :
    Captured writer.txn id := by
  obtain ⟨levels, tracks, nested⟩ := stack
  intro level member old
  rw [levels] at newest member
  obtain ⟨pair, known, rfl⟩ := List.mem_map.mp member
  have marked := tracks pair known
  have needed := (existedAt_iff marked.marks marked.extended id).mp old
  rcases List.eq_nil_or_concat pairs with rfl | ⟨older, last, rfl⟩
  · cases known
  · rw [List.concat_eq_append] at *
    have held : (last.1.undo.lookup id).isSome := by simpa using newest
    rcases List.mem_append.mp known with earlier | final
    · exact ((List.pairwise_append.mp nested).2.2 pair earlier last (by simp)).captured id held needed
    · rw [List.mem_singleton.mp final]
      exact held

/-- The transaction after its levels recorded a page. -/
theorem Tracked.captureAll (numbered : Numbered writer) (stack : Stack writer pairs) {id : Nat}
    (seen : writer.txn.shadows.lookup id = some bytes) :
    Tracked { writer with txn := { writer.txn with
      savepoints := writer.txn.savepoints.map (writer.txn.captureLevel id bytes) } }
      (pairs.map Prod.snd) := by
  have view : writer.view id = some bytes := by
    rw [Writer.view, seen, Option.some_or]
  have inside : id < writer.nPages := numbered.shadows id (by simp [seen])
  refine ⟨{ numbered with undo := ?_ },
    pairs.map fun pair => (writer.txn.captureLevel id bytes pair.1, pair.2), by simp, ?_, ?_, ?_⟩
  · intro level member other held
    obtain ⟨before, known, rfl⟩ := List.mem_map.mp member
    rw [captureLevel_lookup] at held
    split at held
    · rename_i hit
      exact hit.1 ▸ inside
    · exact numbered.undo before known other held
  · rw [stack.levels]
    simp
  · intro pair member
    obtain ⟨before, known, rfl⟩ := List.mem_map.mp member
    exact (stack.tracks before known).capture numbered view
  · rw [List.pairwise_map]
    refine stack.nested.imp_of_mem ?_
    intro lower upper member _ nested
    have tracks := stack.tracks lower member
    exact nested.capture tracks.marks tracks.extended id bytes

/-- `capture_shadow_undo` of a page with the bytes it has now. -/
theorem Tracked.capture {marks : List (TxnMark size)} (tracked : Tracked writer marks) {id : Nat}
    (seen : writer.txn.shadows.lookup id = some bytes) :
    Tracked (writer.mapTxn (ConcurrentTxn.captureShadowUndo id bytes)) marks ∧
      Captured (writer.txn.captureShadowUndo id bytes) id := by
  obtain ⟨pairs, rfl, stack⟩ := tracked.stack
  rw [Writer.mapTxn, ConcurrentTxn.captureShadowUndo]
  split
  · rename_i newest
    exact ⟨tracked, stack.captured_of_newest newest⟩
  · refine ⟨Tracked.captureAll tracked.numbered stack seen, ?_⟩
    intro level member old
    obtain ⟨before, known, rfl⟩ := List.mem_map.mp member
    have same : writer.txn.existedAt before id = true := by
      rwa [ConcurrentTxn.existedAt, captureLevel_allocatedMark] at old
    rw [captureLevel_lookup, if_pos ⟨rfl, same⟩]
    rfl

end Capture

/-- Every open level records the page at a fetch, or has seen it allocated since. -/
def Coverable (txn : ConcurrentTxn size) (id : Nat) : Prop :=
  ∀ level ∈ txn.savepoints,
    txn.existedAt level id = true ∨ id ∈ txn.allocated.drop level.allocatedMark

theorem Coverable.capture {txn : ConcurrentTxn size} {id : Nat} (coverable : Coverable txn id)
    (other : Nat) (bytes : Bytes size) : Coverable (txn.captureShadowUndo other bytes) id := by
  unfold ConcurrentTxn.captureShadowUndo
  split
  · exact coverable
  · intro level member
    obtain ⟨before, known, rfl⟩ := List.mem_map.mp member
    have covered := coverable before known
    rw [ConcurrentTxn.existedAt] at covered ⊢
    rwa [captureLevel_allocatedMark]

section Calls

variable {writer : Writer size} {marks : List (TxnMark size)}

/-- Materialising a page shows the transaction nothing new. -/
theorem Tracked.materialize (tracked : Tracked writer marks) {id : Nat} {live : Bytes size}
    (inside : id < writer.nPages) (absent : writer.txn.shadows.lookup id = none)
    (committed : writer.committed id = some live) :
    Tracked (writer.mapTxn fun txn => { txn with shadows := txn.shadows.insert id live }) marks := by
  have view (other : Nat) : Writer.view (writer.mapTxn fun txn =>
      { txn with shadows := txn.shadows.insert id live }) other = writer.view other := by
    simp only [Writer.view, Writer.mapTxn, AssocMap.lookup_insert_eq]
    split
    · rename_i same
      subst same
      rw [absent, Option.none_or, committed, Option.some_or]
    · rfl
  refine tracked.advance { tracked.numbered with shadows := ?_ } rfl rfl rfl ⟨List.prefix_rfl,
    List.prefix_rfl, List.prefix_rfl, List.prefix_rfl⟩ (fun _ _ _ _ _ other _ _ => view other)
    (fun other since => absurd since.1 since.2)
  intro other held
  simp only [Writer.mapTxn, AssocMap.lookup_insert_eq] at held
  split at held
  · rename_i same
    exact same ▸ inside
  · exact tracked.numbered.shadows other held

theorem serve_tracked (tracked : Tracked writer marks) {id : Nat} {bytes : Bytes size}
    (seen : writer.txn.shadows.lookup id = some bytes) (refused : Bool) :
    Meets (Writer.serve id bytes refused) writer
      (fun result after => Tracked after marks ∧ Captured after.txn id ∧ result = bytes ∧
        after.txn.shadows.lookup id = some bytes ∧
        (Coverable writer.txn id → Coverable after.txn id))
      (fun after => Tracked after marks) := by
  obtain ⟨kept, captured⟩ := tracked.capture seen
  unfold Writer.serve
  simp only [Meets.bind_iff, Meets.modify_iff, Meets.ite_iff, Meets.throw_iff, Meets.pure_iff]
  refine ⟨fun _ => kept, fun _ => ⟨kept, captured, trivial, ?_,
    fun coverable => coverable.capture id bytes⟩⟩
  rw [Writer.mapTxn, ConcurrentTxn.captureShadowUndo]
  split <;> exact seen

theorem fetchBound_le (numbered : Numbered writer) (id : Nat) :
    writer.fetchBound id ≤ writer.nPages := by
  have begun := numbered.begun
  have committed := numbered.committed
  unfold Writer.fetchBound
  split
  · omega
  · split <;> omega

/-- A fetch records the page for every level that needs it, and changes nothing the
transaction sees. -/
theorem writerShadowFetch_tracked (tracked : Tracked writer marks) (id : Nat)
    (stale : Option String) (refused : Bool) :
    Meets (Writer.writerShadowFetch id stale refused) writer
      (fun bytes after => Tracked after marks ∧ Captured after.txn id ∧
        after.txn.shadows.lookup id = some bytes ∧
        (Coverable writer.txn id → Coverable after.txn id))
      (fun after => Tracked after marks) := by
  unfold Writer.writerShadowFetch
  simp only [Meets.bind_iff, Meets.get_iff]
  cases seen : writer.txn.shadows.lookup id with
  | some bytes =>
    refine (serve_tracked tracked seen refused).mono ?_ (fun _ kept => kept)
    rintro result after ⟨kept, captured, rfl, found, coverable⟩
    exact ⟨kept, captured, found, coverable⟩
  | none =>
    simp only [Meets.ite_iff, Meets.throw_iff]
    refine ⟨fun _ => tracked, fun _ => ⟨fun _ => tracked, fun within => ?_⟩⟩
    have inside : id < writer.nPages := by
      have bound := fetchBound_le tracked.numbered id
      omega
    split
    · exact tracked
    · rename_i bytes live
      have committed : writer.committed id = some bytes := by
        unfold Writer.fetchCommittedBytes at live
        split at live
        · cases live
        · exact live
      have materialized := tracked.materialize inside seen committed
      have present : (writer.mapTxn fun txn =>
          { txn with shadows := txn.shadows.insert id bytes }).txn.shadows.lookup id
          = some bytes := by
        simp [Writer.mapTxn]
      have served := serve_tracked materialized present refused
      split
      · exact tracked
      · simp only [Meets.bind_iff, Meets.modify_iff]
        refine served.mono ?_ (fun _ kept => kept)
        rintro result after ⟨kept, captured, rfl, found, coverable⟩
        exact ⟨kept, captured, found, coverable⟩

/-- A change of a page every level has recorded, or has seen allocated. -/
theorem Tracked.change (tracked : Tracked writer marks) {id : Nat} {bytes data : Bytes size}
    (seen : writer.txn.shadows.lookup id = some bytes) (captured : Captured writer.txn id)
    (coverable : Coverable writer.txn id) :
    Tracked (writer.mapTxn fun txn =>
      ({ txn with shadows := txn.shadows.insert id data }).noteDirty id) marks := by
  have inside : id < writer.nPages := tracked.numbered.shadows id (by simp [seen])
  refine tracked.advance { tracked.numbered with shadows := ?_ } rfl rfl rfl ⟨List.prefix_rfl,
    List.prefix_rfl, List.prefix_rfl, List.prefix_rfl⟩ ?_ (fun other since => absurd since.1 since.2)
  · intro other held
    simp only [Writer.mapTxn, ConcurrentTxn.noteDirty, AssocMap.lookup_insert_eq] at held
    split at held
    · rename_i same
      exact same ▸ inside
    · exact tracked.numbered.shadows other held
  · intro level member mark marked extended other missing young
    by_cases same : other = id
    · subst same
      rcases coverable level member with old | since
      · have held := captured level member old
        rw [missing] at held
        cases held
      · exact absurd ((mem_drop_iff marked extended tracked.numbered.ascending other).mp since) young
    · simp [Writer.view, Writer.mapTxn, ConcurrentTxn.noteDirty, same]

theorem mutate_tracked (tracked : Tracked writer marks) (id : Nat)
    (change : Bytes size → Bytes size) (stale : Option String) (refused : Bool)
    (coverable : Coverable writer.txn id) :
    Meets (Writer.mutate id change stale refused) writer (fun _ after => Tracked after marks)
      (fun after => Tracked after marks) := by
  unfold Writer.mutate
  rw [Meets.bind_iff]
  refine (writerShadowFetch_tracked tracked id stale refused).mono ?_ (fun _ kept => kept)
  rintro bytes after ⟨kept, captured, found, covers⟩
  exact kept.change found captured (covers coverable)

/-- A new page is above every page the savepoints know. -/
theorem writerShadowAlloc_tracked (tracked : Tracked writer marks)
    (room : writer.nPages + 1 < 2 ^ 32) :
    Tracked writer.writerShadowAlloc marks := by
  have count : writer.writerShadowAlloc.nPages = writer.nPages + 1 := Nat.mod_eq_of_lt room
  have absent : writer.txn.shadows.lookup writer.nPages = none := by
    by_contra present
    exact absurd (tracked.numbered.shadows _ (Option.isSome_iff_ne_none.mpr present)) (lt_irrefl _)
  have above (id : Nat) (member : id ∈ writer.txn.allocated) : id < writer.nPages :=
    (tracked.numbered.allocated id member).2
  have numbered : Numbered writer.writerShadowAlloc := by
    refine ⟨?_, ?_, ?_, ?_, ?_, ?_, tracked.numbered.parallel⟩
    · exact List.pairwise_append.mpr ⟨tracked.numbered.ascending, List.pairwise_singleton _ _,
        fun id member new isNew => List.mem_singleton.mp isNew ▸ above id member⟩
    · rw [count]
      intro id member
      rcases List.mem_append.mp member with known | new
      · have range := tracked.numbered.allocated id known
        exact ⟨range.1, Nat.lt_succ_of_lt range.2⟩
      · rw [List.mem_singleton.mp new]
        exact ⟨tracked.numbered.begun, Nat.lt_succ_self _⟩
    · rw [count]
      intro id held
      simp only [Writer.writerShadowAlloc, AssocMap.lookup_insert_eq] at held
      split at held
      · rename_i same
        exact same ▸ Nat.lt_succ_self _
      · exact Nat.lt_succ_of_lt (tracked.numbered.shadows id held)
    · rw [count]
      intro level member id held
      exact Nat.lt_succ_of_lt (tracked.numbered.undo level member id held)
    · rw [count]
      exact Nat.le_succ_of_le tracked.numbered.begun
    · rw [count]
      exact Nat.le_succ_of_le tracked.numbered.committed
  refine tracked.advance numbered rfl rfl rfl ⟨List.prefix_append _ _,
    List.prefix_rfl, List.prefix_rfl, List.prefix_rfl⟩ ?_ ?_
  · intro level member mark marked extended id missing young
    have differ : id ≠ writer.nPages := by
      rintro rfl
      refine young ⟨List.mem_append_right _ (List.mem_singleton_self _), fun old => ?_⟩
      exact absurd (above _ (extended.allocated.subset old)) (lt_irrefl _)
    simp [Writer.view, Writer.writerShadowAlloc, differ]
  · intro id since
    have new : id = writer.nPages := by
      rcases List.mem_append.mp since.1 with known | new
      · exact absurd known since.2
      · exact List.mem_singleton.mp new
    subst new
    refine ⟨fun level member => ?_, ?_⟩
    · by_contra present
      exact absurd (tracked.numbered.undo level member _ (Option.isSome_iff_ne_none.mpr present))
        (lt_irrefl _)
    · rw [Writer.view, absent, Option.none_or]

/-- Freeing drops the transaction's copy, so the levels must have it or not need it. -/
def Droppable (writer : Writer size) (id : Nat) : Prop :=
  writer.view id = writer.committed id ∨ ∀ level ∈ writer.txn.savepoints,
    (level.undo.lookup id).isSome ∨ id ∈ writer.txn.allocated.drop level.allocatedMark

theorem writerShadowFree_tracked (tracked : Tracked writer marks) (id : Nat)
    (droppable : Droppable writer id) :
    Meets (Writer.writerShadowFree id) writer (fun _ after => Tracked after marks)
      (fun after => Tracked after marks) := by
  unfold Writer.writerShadowFree
  simp only [Meets.ite_iff, Meets.throw_iff, Meets.modify_iff]
  refine ⟨fun _ => tracked, fun _ => ?_⟩
  refine tracked.advance { tracked.numbered with shadows := ?_ } rfl rfl rfl ⟨List.prefix_rfl,
    List.prefix_append _ _, List.prefix_rfl, List.prefix_rfl⟩ ?_
    (fun other since => absurd since.1 since.2)
  · intro other held
    simp only [Writer.mapTxn, AssocMap.lookup_erase_eq] at held
    split at held
    · cases held
    · exact tracked.numbered.shadows other held
  · intro level member mark marked extended other missing young
    by_cases same : other = id
    · subst same
      rcases droppable with seen | recorded
      · rw [seen]
        simp [Writer.view, Writer.mapTxn]
      · rcases recorded level member with held | since
        · rw [missing] at held
          cases held
        · exact absurd ((mem_drop_iff marked extended tracked.numbered.ascending other).mp since)
            young
    · simp [Writer.view, Writer.mapTxn, same]

theorem noteRowWrite_tracked (tracked : Tracked writer marks) (op : JournalOp) (ok : Bool) :
    Tracked (writer.noteRowWrite op ok) marks := by
  have parallel := tracked.numbered.parallel
  refine tracked.advance { tracked.numbered with parallel := ?_ } rfl rfl rfl ⟨List.prefix_rfl,
    List.prefix_rfl, List.prefix_append _ _, List.prefix_append _ _⟩
    (fun _ _ _ _ _ _ _ _ => rfl) (fun other since => absurd since.1 since.2)
  simp [Writer.noteRowWrite, Writer.mapTxn, parallel]

theorem noteRootSplit_tracked (tracked : Tracked writer marks) (oldRoot newRoot : Nat) :
    Tracked (writer.noteRootSplit oldRoot newRoot) marks := by
  unfold Writer.noteRootSplit
  split
  · exact tracked
  · exact tracked.advance { tracked.numbered with } rfl rfl rfl ⟨List.prefix_rfl,
      List.prefix_rfl, List.prefix_rfl, List.prefix_rfl⟩
      (fun _ _ _ _ _ _ _ _ => rfl) (fun other since => absurd since.1 since.2)

/-- A new level stands for the state it is opened in. -/
theorem savepointConcurrent_tracked (tracked : Tracked writer marks) (name : String) :
    Tracked (writer.savepointConcurrent name) (marks ++ [⟨name.toLower, writer.state⟩]) := by
  obtain ⟨pairs, rfl, stack⟩ := tracked.stack
  refine ⟨{ tracked.numbered with undo := ?_ }, pairs ++ [(⟨name.toLower, ∅,
    writer.txn.allocated.length, writer.txn.freed.length, writer.txn.rowJournal.length,
    writer.txn.rootLineage⟩, ⟨name.toLower, writer.state⟩)], by simp, ?_, ?_, ?_⟩
  · intro level member id held
    rcases List.mem_append.mp member with known | new
    · exact tracked.numbered.undo level known id held
    · rw [List.mem_singleton.mp new] at held
      cases held
  · rw [List.map_append, ← stack.levels]
    rfl
  · intro pair member
    rcases List.mem_append.mp member with known | new
    · exact stack.tracks pair known
    · rw [List.mem_singleton.mp new]
      exact ⟨⟨rfl, rfl, rfl, rfl, rfl, tracked.numbered.parallel⟩, Extends.refl _,
        fun _ _ found => (by cases found), fun _ _ _ => rfl,
        fun _ since => absurd since.1 since.2⟩
  · refine List.pairwise_append.mpr ⟨stack.nested, List.pairwise_singleton _ _, ?_⟩
    intro lower member upper new
    rw [List.mem_singleton.mp new]
    have tracks := stack.tracks lower member
    exact ⟨tracks.extended, fun _ held => (by cases held), tracks.untouched⟩

theorem Tracked.take (tracked : Tracked writer marks) (index : Nat) :
    Tracked (writer.mapTxn fun txn => { txn with savepoints := txn.savepoints.take index })
      (marks.take index) := by
  obtain ⟨pairs, rfl, stack⟩ := tracked.stack
  refine ⟨{ tracked.numbered with undo := ?_ }, pairs.take index, List.map_take.symm, ?_, ?_, ?_⟩
  · intro level member
    exact tracked.numbered.undo level (List.mem_of_mem_take member)
  · show writer.txn.savepoints.take index = _
    rw [stack.levels, List.map_take]
  · exact fun pair member => stack.tracks pair (List.mem_of_mem_take member)
  · exact stack.nested.sublist (List.take_sublist index pairs)

end Calls

section Rollback

theorem lookup_eraseAll (junk : List Nat) (shadows : AssocMap Nat (Bytes size)) (id : Nat) :
    (junk.foldl (fun shadows id => shadows.erase id) shadows).lookup id =
      if id ∈ junk then none else shadows.lookup id := by
  induction junk generalizing shadows with
  | nil => simp
  | cons first rest ih =>
    rw [List.foldl_cons, ih, AssocMap.lookup_erase_eq]
    by_cases later : id ∈ rest <;> by_cases same : id = first <;> simp [later, same]

theorem lookup_restoreAll (entries : List (Nat × Bytes size)) (txn : ConcurrentTxn size) {id : Nat} :
    (∀ bytes, (id, bytes) ∉ entries) →
    (entries.foldl (fun txn entry => txn.restorePage entry.1 entry.2) txn).shadows.lookup id
      = txn.shadows.lookup id := by
  intro absent
  induction entries generalizing txn with
  | nil => rfl
  | cons first rest ih =>
    have differ : id ≠ first.1 := fun same => absent first.2 (by simp [same])
    rw [List.foldl_cons, ih _ fun bytes member => absent bytes (List.mem_cons_of_mem _ member)]
    simp [ConcurrentTxn.restorePage, ConcurrentTxn.noteDirty, differ]

theorem lookup_restored (entries : List (Nat × Bytes size)) (txn : ConcurrentTxn size) {id : Nat}
    {bytes : Bytes size} (member : (id, bytes) ∈ entries)
    (single : ∀ other, (id, other) ∈ entries → other = bytes) :
    (entries.foldl (fun txn entry => txn.restorePage entry.1 entry.2) txn).shadows.lookup id
      = some bytes := by
  induction entries generalizing txn with
  | nil => cases member
  | cons first rest ih =>
    rw [List.foldl_cons]
    by_cases later : ∃ other, (id, other) ∈ rest
    · obtain ⟨other, found⟩ := later
      have same := single other (List.mem_cons_of_mem _ found)
      subst same
      exact ih _ found fun more member => single more (List.mem_cons_of_mem _ member)
    · rw [lookup_restoreAll rest _ fun other found => later ⟨other, found⟩]
      rcases List.mem_cons.mp member with here | found
      · rw [← here]
        simp [ConcurrentTxn.restorePage, ConcurrentTxn.noteDirty]
      · exact absurd ⟨bytes, found⟩ later

theorem lookup_removeAll (entries : List (Nat × Bytes size)) (txn : ConcurrentTxn size) (id : Nat) :
    (entries.foldl (fun txn entry => txn.removeShadow entry.1) txn).shadows.lookup id =
      if id ∈ entries.map Prod.fst then none else txn.shadows.lookup id := by
  induction entries generalizing txn with
  | nil => simp
  | cons first rest ih =>
    rw [List.foldl_cons, ih, List.map_cons]
    by_cases later : id ∈ rest.map Prod.fst
    · simp [later]
    · by_cases same : id = first.1
      · subst same
        simp [later, ConcurrentTxn.removeShadow]
      · simp [later, same, ConcurrentTxn.removeShadow]

theorem mem_restored (level : ConcurrentSavepoint size) (txn : ConcurrentTxn size) (id : Nat)
    (bytes : Bytes size) : (id, bytes) ∈ Writer.restored level txn ↔
      level.undo.lookup id = some bytes ∧ id ∉ txn.allocated.drop level.allocatedMark := by
  rw [← Option.mem_def, AList.mem_lookup_iff]
  simp [Writer.restored]

/-- The copy a rollback leaves of a page, before pages without a net write are dropped. -/
def restoredCopy (level : ConcurrentSavepoint size) (txn : ConcurrentTxn size) (id : Nat) :
    Option (Bytes size) :=
  if id ∈ txn.allocated.drop level.allocatedMark then none
  else (level.undo.lookup id).or (txn.shadows.lookup id)

theorem lookup_restoredAll (level : ConcurrentSavepoint size) (txn : ConcurrentTxn size)
    (id : Nat) : ((Writer.restored level txn).foldl (fun txn entry =>
      txn.restorePage entry.1 entry.2) (txn.cutBack level)).shadows.lookup id =
        restoredCopy level txn id := by
  have erased : (txn.cutBack level).shadows.lookup id =
      if id ∈ txn.allocated.drop level.allocatedMark then none else txn.shadows.lookup id :=
    lookup_eraseAll _ txn.shadows id
  unfold restoredCopy
  by_cases junk : id ∈ txn.allocated.drop level.allocatedMark
  · rw [if_pos junk] at erased ⊢
    rw [lookup_restoreAll _ _ fun bytes member =>
      ((mem_restored level txn id bytes).mp member).2 junk, erased]
  · rw [if_neg junk] at erased ⊢
    cases found : level.undo.lookup id with
    | none =>
      have absent (bytes : Bytes size) : (id, bytes) ∉ Writer.restored level txn := by
        intro member
        have held := ((mem_restored level txn id bytes).mp member).1
        rw [found] at held
        cases held
      rw [lookup_restoreAll _ _ absent, erased, Option.none_or]
    | some bytes =>
      rw [Option.some_or]
      refine lookup_restored _ _ ((mem_restored level txn id bytes).mpr ⟨found, junk⟩) ?_
      intro other member
      have held := ((mem_restored level txn id other).mp member).1
      rw [found] at held
      exact (Option.some.inj held).symm

variable (below : List (ConcurrentSavepoint size)) (level : ConcurrentSavepoint size)
  (writer : Writer size)

theorem rollbackTo_shadows (id : Nat) :
    (writer.rollbackTo below level).txn.shadows.lookup id =
      if id ∈ ((Writer.restored level writer.txn).filter writer.netZero).map Prod.fst then none
      else restoredCopy level writer.txn id := by
  unfold Writer.rollbackTo
  rw [lookup_removeAll]
  split
  · rfl
  · exact lookup_restoredAll level writer.txn id

/-- A page without a net write is one whose restored bytes are committed. -/
theorem rollbackTo_view (id : Nat) : (writer.rollbackTo below level).view id =
    (restoredCopy level writer.txn id).or (writer.committed id) := by
  unfold Writer.view
  rw [rollbackTo_shadows]
  split
  · rename_i dropped
    obtain ⟨⟨other, bytes⟩, member, same⟩ := List.mem_map.mp dropped
    have same : other = id := same
    subst same
    obtain ⟨listed, zero⟩ := List.mem_filter.mp member
    obtain ⟨found, kept⟩ := (mem_restored level writer.txn other bytes).mp listed
    have held : restoredCopy level writer.txn other = some bytes := by
      rw [restoredCopy, if_neg kept, found, Option.some_or]
    have fetched : writer.fetchCommittedBytes other writer.txn.beginNPages = some bytes := by
      rw [Writer.netZero, Bool.and_eq_true] at zero
      exact of_decide_eq_true zero.2
    have committed : writer.committed other = some bytes := by
      unfold Writer.fetchCommittedBytes at fetched
      split at fetched
      · cases fetched
      · exact fetched
    rw [held, Option.none_or, Option.some_or]
    exact committed
  · rfl

theorem restoreAll_lists (entries : List (Nat × Bytes size)) (txn : ConcurrentTxn size) :
    entries.foldl (fun txn entry => txn.restorePage entry.1 entry.2) txn =
      { txn with
        shadows := (entries.foldl (fun txn entry => txn.restorePage entry.1 entry.2) txn).shadows
        dirtied := (entries.foldl (fun txn entry => txn.restorePage entry.1 entry.2) txn).dirtied
      } := by
  induction entries generalizing txn with
  | nil => rfl
  | cons first rest ih =>
    rw [List.foldl_cons, ih]
    rfl

theorem removeAll_lists (entries : List (Nat × Bytes size)) (txn : ConcurrentTxn size) :
    entries.foldl (fun txn entry => txn.removeShadow entry.1) txn =
      { txn with
        shadows := (entries.foldl (fun txn entry => txn.removeShadow entry.1) txn).shadows
        dirtied := (entries.foldl (fun txn entry => txn.removeShadow entry.1) txn).dirtied } := by
  induction entries generalizing txn with
  | nil => rfl
  | cons first rest ih =>
    rw [List.foldl_cons, ih]
    rfl

/-- A rollback cuts the lists back and empties the level's log. -/
theorem rollbackTo_lists : ∃ shadows dirtied, (writer.rollbackTo below level).txn =
    { writer.txn.cutBack level with
      shadows := shadows
      dirtied := dirtied
      savepoints := below ++ [{ level with undo := ∅ }] } := by
  simp only [Writer.rollbackTo, ConcurrentTxn.dropStale]
  rw [removeAll_lists, restoreAll_lists]
  exact ⟨_, _, rfl⟩

variable {below level writer}

variable {mark : TxnMark size}

/-- What the level recorded is enough to bring the marked state back. -/
theorem rollbackTo_state (numbered : Numbered writer)
    (tracks : Tracks writer.committed writer.state level mark) :
    (writer.rollbackTo below level).state = mark.state := by
  obtain ⟨shadows, dirtied, lists⟩ := rollbackTo_lists below level writer
  have junk := mem_drop_iff tracks.marks tracks.extended numbered.ascending
  have view : (writer.rollbackTo below level).view = mark.state.view := by
    funext id
    rw [rollbackTo_view, restoredCopy]
    by_cases since : Since mark.state writer.state id
    · rw [if_pos ((junk id).mpr since), Option.none_or]
      exact (tracks.fresh id since).symm
    · rw [if_neg fun member => since ((junk id).mp member)]
      cases found : level.undo.lookup id with
      | some bytes =>
        rw [Option.some_or, Option.some_or]
        exact (tracks.logged id bytes found).symm
      | none =>
        rw [Option.none_or]
        exact tracks.untouched id found since
  have allocated : writer.txn.allocated.take level.allocatedMark = mark.state.allocated := by
    rw [tracks.marks.allocated]
    exact (List.prefix_iff_eq_take.mp tracks.extended.allocated).symm
  have freed : writer.txn.freed.take level.freedMark = mark.state.freed := by
    rw [tracks.marks.freed]
    exact (List.prefix_iff_eq_take.mp tracks.extended.freed).symm
  have journal : writer.txn.rowJournal.take level.journalMark = mark.state.rowJournal := by
    rw [tracks.marks.journal]
    exact (List.prefix_iff_eq_take.mp tracks.extended.journal).symm
  have outcomes : writer.txn.opOk.take level.journalMark = mark.state.opOk := by
    rw [tracks.marks.journal, ← tracks.marks.parallel]
    exact (List.prefix_iff_eq_take.mp tracks.extended.outcomes).symm
  unfold Writer.state
  rw [view, lists]
  simp only [ConcurrentTxn.cutBack, allocated, freed, journal, outcomes, tracks.marks.lineage]

theorem rollbackTo_numbered (numbered : Numbered writer)
    (known : ∀ other ∈ below, other ∈ writer.txn.savepoints)
    (member : level ∈ writer.txn.savepoints)
    (tracks : Tracks writer.committed writer.state level mark) :
    Numbered (writer.rollbackTo below level) := by
  have state : (writer.rollbackTo below level).state = mark.state :=
    rollbackTo_state numbered tracks
  obtain ⟨shadows, dirtied, lists⟩ := rollbackTo_lists below level writer
  have allocated : (writer.rollbackTo below level).txn.allocated = mark.state.allocated :=
    congrArg TxnState.allocated state
  have begun : (writer.rollbackTo below level).txn.beginNPages = writer.txn.beginNPages := by
    rw [lists]
    rfl
  refine ⟨?_, ?_, ?_, ?_, ?_, numbered.committed, ?_⟩
  · rw [allocated]
    exact numbered.ascending.sublist tracks.extended.allocated.sublist
  · intro id held
    rw [allocated] at held
    rw [begun]
    exact numbered.allocated id (tracks.extended.allocated.subset held)
  · intro id held
    rw [rollbackTo_shadows] at held
    split at held
    · cases held
    · rw [restoredCopy] at held
      split at held
      · cases held
      · rw [Option.isSome_or, Bool.or_eq_true] at held
        rcases held with logged | shadowed
        · exact numbered.undo level member id logged
        · exact numbered.shadows id shadowed
  · intro other listed id held
    rw [lists] at listed
    rcases List.mem_append.mp listed with lower | top
    · exact numbered.undo other (known other lower) id held
    · rw [List.mem_singleton.mp top] at held
      cases held
  · rw [begun]
    exact numbered.begun
  · have outcomes : (writer.rollbackTo below level).txn.opOk = mark.state.opOk :=
      congrArg TxnState.opOk state
    have journal : (writer.rollbackTo below level).txn.rowJournal = mark.state.rowJournal :=
      congrArg TxnState.rowJournal state
    rw [outcomes, journal]
    exact tracks.marks.parallel

/-- A rollback brings the marked state back and keeps the older savepoints and this one. -/
theorem rollbackTo_tracked {lower upper : List (ConcurrentSavepoint size × TxnMark size)}
    (numbered : Numbered writer) (stack : Stack writer (lower ++ (level, mark) :: upper)) :
    (writer.rollbackTo (lower.map Prod.fst) level).state = mark.state ∧
      Tracked (writer.rollbackTo (lower.map Prod.fst) level) (lower.map Prod.snd ++ [mark]) := by
  have tracks := stack.tracks (level, mark) (by simp)
  have state : (writer.rollbackTo (lower.map Prod.fst) level).state = mark.state :=
    rollbackTo_state numbered tracks
  obtain ⟨shadows, dirtied, lists⟩ := rollbackTo_lists (lower.map Prod.fst) level writer
  have older (pair : ConcurrentSavepoint size × TxnMark size) (member : pair ∈ lower) :
      Nested writer.txn.beginNPages pair (level, mark) :=
    (List.pairwise_append.mp stack.nested).2.2 pair member (level, mark) (by simp)
  refine ⟨state, rollbackTo_numbered numbered ?_ ?_ tracks,
    lower ++ [({ level with undo := ∅ }, mark)], by simp, ?_, ?_, ?_⟩
  · intro other listed
    rw [stack.levels, List.map_append]
    exact List.mem_append_left _ listed
  · rw [stack.levels]
    simp
  · rw [lists]
    simp
  · intro pair member
    rw [state]
    rcases List.mem_append.mp member with known | top
    · have before := stack.tracks pair (List.mem_append_left _ known)
      have nested := older pair known
      exact ⟨before.marks, nested.extended, before.logged, nested.untouched, fun id since =>
        before.fresh id ⟨tracks.extended.allocated.subset since.1, since.2⟩⟩
    · rw [List.mem_singleton.mp top]
      have marks := tracks.marks
      exact ⟨⟨marks.name, marks.lineage, marks.allocated, marks.freed, marks.journal,
        marks.parallel⟩, Extends.refl _, fun _ _ found => (by cases found), fun _ _ _ => rfl,
        fun _ since => absurd since.1 since.2⟩
  · have begun : (writer.rollbackTo (lower.map Prod.fst) level).txn.beginNPages
        = writer.txn.beginNPages := by
      rw [lists]
      rfl
    rw [begun]
    refine List.pairwise_append.mpr ⟨(List.pairwise_append.mp stack.nested).1,
      List.pairwise_singleton _ _, ?_⟩
    intro pair member other top
    rw [List.mem_singleton.mp top]
    have nested := older pair member
    exact ⟨nested.extended, fun _ held => (by cases held), nested.untouched⟩

end Rollback

end RustSql.Storage.Concurrent
