import RustSql.Storage.WalHistory

/-! Runs of the log's calls in which the file is closed and opened again at any point. A reopened
log may keep frames of the transaction that was open, behind its commits. -/

namespace RustSql.Storage

open RustSql.Foundation

/-- A call on the log, or a restart on the bytes of its file. -/
inductive WalEvent (size : Nat) where
  | call (call : WalCall size)
  | restart (fresh : Salts) (truncateTorn : Bool)

def WalEvent.Allowed (client : WalClient size) : WalEvent size → Prop
  | .call made => made.Allowed client
  | .restart _ _ => True

/-- What is not committed is gone behind a restart. -/
def WalClient.Event (crc : Crc) (before : WalClient size) (event : WalEvent size) (_ : Unit)
    (after : WalClient size) : Prop :=
  match event with
  | .call call => after = before.next crc call
  | .restart fresh truncateTorn => ∃ wal : Wal size,
      Wal.openImpl crc fresh size before.wal.file.encode truncateTorn = .ok ⟨size, wal⟩ ∧
      after = ⟨wal, { before.history with opened := [] }, fresh :: before.used⟩

section Calls

variable {crc : Crc} {most : Nat} {client : WalClient size}

theorem Recorded.restart (recorded : Recorded crc most client) (fresh : Salts) (truncateTorn : Bool) :
    (∃ committed, Visible crc (Wal.recover crc fresh client.wal.file truncateTorn) committed ∧
      frameEntries committed = client.history.committed) ∧
    ∃ most, Recorded crc most ⟨Wal.recover crc fresh client.wal.file truncateTorn,
      { client.history with opened := [] }, fresh :: client.used⟩ := by
  obtain ⟨⟨torn, committed, opened, stale, chronicle, _, plain, committedSame, _⟩, written, known⟩ :=
    recorded
  have kept := chronicle.header
  have frames := chronicle.frames
  generalize client.wal.file = file at kept frames written ⊢
  obtain ⟨header, held⟩ := file
  by_cases deferred : client.wal.headerDirty = true
  · rw [if_pos deferred] at kept
    obtain ⟨rfl, rfl⟩ := kept
    rw [List.append_assoc] at frames
    obtain rfl := (List.append_eq_nil_iff.mp frames.symm).1
    obtain ⟨torn, front, back, rest, start, few, plain, first, second⟩ :=
      (fresh_recorded crc 0 fresh : Recorded crc 0 (.fresh crc fresh : WalClient size)).log
    exact ⟨⟨[], ⟨rfl, rfl, rfl, nofun⟩, committedSame⟩, 0,
      ⟨torn, front, back, rest, start, few, plain, first.trans committedSame, second⟩, nofun, .head _⟩
  · rw [if_neg deferred] at kept
    simp only at kept frames
    rw [kept, frames] at written ⊢
    have split : committed ++ opened ++ stale =
        committed ++ (opened ++ stale.take torn) ++ stale.drop torn := by simp [List.append_assoc]
    have bare : ∀ frame ∈ opened ++ stale.take torn, frame.commit = 0 :=
      List.forall_mem_append.mpr ⟨chronicle.plain, plain⟩
    have salted : ∀ frame ∈ committed, frame.salts = client.wal.header.salts :=
      fun frame member => chronicle.salted frame (List.mem_append_left _ member)
    obtain ⟨visible, same⟩ := recover_visible chronicle.committed_chained salted chronicle.ended bare
      chronicle.foreign fresh truncateTorn
    rw [← split] at visible same
    have left : ∃ rest, (Wal.recover crc fresh ⟨some client.wal.header, committed ++ opened ++ stale⟩
        truncateTorn).file.frames = committed ++ rest ∧ (rest = [] ∨ rest = opened ++ stale) := by
      have count := visible.count
      simp only [Wal.recover] at count ⊢
      split
      · refine ⟨[], ?_, .inl rfl⟩
        rw [count, List.append_assoc, List.take_left, List.append_nil]
      · exact ⟨opened ++ stale, List.append_assoc .., .inr rfl⟩
    obtain ⟨rest, stored, either⟩ := left
    have behind : rest.drop (opened.length + torn) ⊆ stale.drop torn ∧
        rest.take (opened.length + torn) ⊆ opened ++ stale.take torn ∧ rest ⊆ opened ++ stale := by
      rcases either with rfl | rfl
      · simp
      · rw [List.drop_length_add_append, List.take_length_add_append]
        exact ⟨fun _ => id, fun _ => id, fun _ => id⟩
    refine ⟨⟨committed, visible, committedSame⟩, opened.length + torn,
      ⟨opened.length + torn, committed, [], rest,
      ⟨?_, visible.count, rfl, ?_, ?_, ?_, nofun, ?_, chronicle.ended, nofun, fun _ => rfl⟩, le_rfl,
      fun frame member => bare frame (behind.2.1 member), committedSame, rfl⟩, ?_, ?_⟩
    · rw [stored, List.append_nil]
    · rw [List.append_nil, same]
      exact salted
    · intro frame member
      rw [same]
      exact chronicle.foreign frame (behind.1 member)
    · rw [List.append_nil, same]
      exact chronicle.committed_chained.take _
    · intro _
      rw [List.append_nil]
      exact visible.checksum
    · intro frame member
      rw [stored] at member
      have there : frame ∈ committed ++ opened ++ stale := by
        rw [List.append_assoc]
        rcases List.mem_append.mp member with front | back
        · exact List.mem_append_left _ front
        · exact List.mem_append_right _ (behind.2.2 back)
      exact (written frame there).imp_right (.tail _)
    · rw [same]
      exact .tail _ known

theorem Recorded.reopened (recorded : Recorded crc most client) (small : size < 2 ^ 32) (fresh : Salts)
    (truncateTorn : Bool) :
    Wal.openImpl crc fresh size client.wal.file.encode truncateTorn =
      .ok ⟨size, Wal.recover crc fresh client.wal.file truncateTorn⟩ := by
  obtain ⟨_, _, _, _, chronicle, _⟩ := recorded.log
  exact openImpl_encode small client.wal.file (fun frame member =>
    (recorded.written frame member).1) chronicle.headerless truncateTorn

end Calls

/-- A commit outlives every later restart, and nothing uncommitted does. -/
theorem restarts_committed (crc : Crc) (small : size < 2 ^ 32) {salts : Salts}
    {events : List (WalEvent size)} {client : WalClient size}
    (run : Run (WalClient.Event crc) WalEvent.Allowed
      (WalClient.fresh crc salts) events client) (fresh : Salts) (truncateTorn : Bool) :
    ∃ wal : Wal size,
      Wal.openImpl crc fresh size client.wal.file.encode truncateTorn = .ok ⟨size, wal⟩ ∧
      wal.nFrames = client.history.committed.length ∧
      frameEntries (wal.file.frames.take wal.nFrames) = client.history.committed ∧
      ∀ id, wal.committedPage id = lastEntry client.history.committed id := by
  have recorded : ∃ most, Recorded crc most client := by
    refine run.invariant (fun client => ∃ most, Recorded crc most client) ?_
      ⟨0, fresh_recorded crc 0 salts⟩
    rintro before event _ _ ⟨most, recorded⟩ allowed step
    cases event with
    | call call =>
      cases step
      exact ⟨most, call_recorded recorded call allowed.1⟩
    | restart fresh truncateTorn =>
      obtain ⟨wal, found, rfl⟩ := step
      rw [recorded.reopened small] at found
      cases found
      exact (recorded.restart fresh truncateTorn).2
  obtain ⟨most, recorded⟩ := recorded
  obtain ⟨committed, visible, same⟩ := (recorded.restart fresh truncateTorn).1
  refine ⟨_, recorded.reopened small fresh truncateTorn, ?_, ?_, ?_⟩
  · rw [visible.count, ← same, frameEntries, List.length_map]
  · rw [visible.count, visible.front, same]
  · intro id
    rw [visible.committedPage id, ← lastEntry_entries, same]

/-- A commit, and a frame of the transaction that the crash left open. -/
def crashed : WalClient 512 :=
  ((WalClient.fresh crc32 (1, 1)).next crc32 (.append 1 (Bytes.zero 512) true)).next crc32
    (.append 2 (Bytes.zero 512) false)

def restarted : WalClient 512 :=
  ⟨Wal.recover crc32 (2, 2) crashed.wal.file false, { crashed.history with opened := [] },
    (2, 2) :: crashed.used⟩

def recommitted : WalClient 512 :=
  restarted.next crc32 (.append 3 (Bytes.zero 512) true)

theorem restarts_committed_twice : ∃ wal : Wal 512,
    Wal.openImpl crc32 (9, 9) 512 recommitted.wal.file.encode true = .ok ⟨512, wal⟩ ∧
    wal.nFrames = recommitted.history.committed.length ∧
    frameEntries (wal.file.frames.take wal.nFrames) = recommitted.history.committed ∧
    ∀ id, wal.committedPage id = lastEntry recommitted.history.committed id := by
  have recorded : Recorded crc32 0 crashed :=
    (call_recorded (fresh_recorded crc32 0 (1, 1)) (.append 1 _ true)
      (show 1 < 2 ^ 32 by decide)).append (show 2 < 2 ^ 32 by decide) _
  have one : restarted.wal.nFrames = 1 := by
    obtain ⟨committed, visible, same⟩ := (recorded.restart (2, 2) false).1
    have length := congrArg List.length same
    rw [frameEntries, List.length_map] at length
    exact visible.count.trans length
  have appended : ∀ (client : WalClient 512) (id : Nat) (commit : Bool), id < 2 ^ 32 →
      client.wal.nFrames < 2 → Run (WalClient.Event crc32) WalEvent.Allowed client
        [.call (.append id (Bytes.zero 512) commit)]
        (client.next crc32 (.append id (Bytes.zero 512) commit)) :=
    fun _ _ _ small few => @Run.single _ _ _ _ _ _ _ (WalEvent.call (.append _ _ _)) ()
      ⟨small, (Nat.succ_lt_succ few).trans (by decide)⟩ rfl
  have run : Run (WalClient.Event crc32) WalEvent.Allowed
      (WalClient.fresh crc32 (1, 1)) [_, _, .restart (2, 2) false, _] recommitted :=
    ((appended _ 1 true (by decide) (by decide)).trans
      (appended _ 2 false (by decide) (by decide))).trans
      ((@Run.single _ _ _ _ _ _ _ (WalEvent.restart (2, 2) false) () trivial
        ⟨_, recorded.reopened (by decide) (2, 2) false, rfl⟩).trans
        (appended restarted 3 true (by decide) (by rw [one]; decide)))
  exact restarts_committed crc32 (by decide) run (9, 9) true

end RustSql.Storage
