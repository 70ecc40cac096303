import RustSql.Storage.LockRuns

/-! What holds along every run of the lock bytes: what the callers hold by their results is
held in the kernel, and the holds that exclude each other never meet. -/

namespace RustSql.Storage.Xlock

open RustSql.Foundation

variable {H : Type}

/-- What the callers of a handle hold by their results, the handle holds. -/
structure Own (s : Handles H) (h : H) (held : Held) : Prop where
  live : (s.kernel h .live).Covers held.live
  write : (s.kernel h .write).Covers held.write
  counted : held.reads ≤ (s.mirror h).readHolds
  reading : 0 < (s.mirror h).readHolds → s.kernel h .read ≠ .none
  gated : held.gate = true → s.kernel h .read = .exclusive

@[simp] theorem covers_self (mode : Mode) : mode.Covers mode := by
  cases mode <;> simp [Mode.Covers]

@[simp] theorem covers_none (mode : Mode) : mode.Covers .none := by
  cases mode <;> simp [Mode.Covers]

theorem covers_shared {mode : Mode} : mode.Covers .shared ↔ mode ≠ .none := by
  cases mode <;> simp [Mode.Covers]

theorem covers_exclusive {mode : Mode} : mode.Covers .exclusive ↔ mode = .exclusive := by
  cases mode <;> simp [Mode.Covers]

theorem none_covers {wanted : Mode} (covers : Mode.none.Covers wanted) : wanted = .none := by
  cases wanted with
  | none => rfl
  | shared => exact covers.elim
  | exclusive => cases covers

/-- What a call does that is to take a byte in a mode; `room` is what its count needs. -/
structure Took [DecidableEq H] (s : Handles H) (h : H) (held : Held) (b : LockByte) (mode : Mode)
    (room : Prop) (r : Except Unit Bool) (s' : Handles H) : Prop where
  effect : Effect s h s'
  own : room → Own s' h (if r = .ok true then held.take b mode else held)
  covers : r = .ok true → (s'.kernel h b).Covers mode
  refused : r = .ok false → ¬ Grants s.kernel h b mode

section Takes

variable [DecidableEq H] {s s' : Handles H} {h : H} {held : Held} {room : Prop} {r : Except Unit Bool}

theorem Own.granted {b : LockByte} {mode : Mode} (own : Own s h held)
    (gate : b = .read → mode = .exclusive) : Own (s.record h b mode) h (held.take b mode) := by
  cases b with
  | live => exact ⟨by simp [Held.take], by simpa [Held.take] using own.write, by simpa [Held.take] using own.counted,
      by simpa using own.reading, by simpa [Held.take] using own.gated⟩
  | write => exact ⟨by simpa [Held.take] using own.live, by simp [Held.take], by simpa [Held.take] using own.counted,
      by simpa using own.reading, by simpa [Held.take] using own.gated⟩
  | read =>
    obtain rfl := gate rfl
    exact ⟨by simpa [Held.take] using own.live, by simpa [Held.take] using own.write,
      by simpa [Held.take] using own.counted, by simp, by simp⟩

omit [DecidableEq H] in
theorem Own.kept {b : LockByte} {mode : Mode} (own : Own s h held) (same : s.kernel h b = mode)
    (gate : b = .read → mode = .exclusive) : Own s h (held.take b mode) := by
  cases b with
  | live => exact ⟨by simp [Held.take, same], own.write, own.counted, own.reading, own.gated⟩
  | write => exact ⟨own.live, by simp [Held.take, same], own.counted, own.reading, own.gated⟩
  | read =>
    obtain rfl := gate rfl
    exact ⟨own.live, own.write, own.counted, own.reading, fun _ => same⟩

theorem Taken.took {b : LockByte} {mode : Mode} (taken : Taken s h b mode r s') (own : Own s h held)
    (gate : b = .read → mode = .exclusive) : Took s h held b mode room r s' := by
  cases taken with
  | held same =>
    refine ⟨.none, fun _ => ?_, fun _ => by simp [same], fun refused => by cases refused⟩
    rw [if_pos rfl]
    exact own.kept same gate
  | granted grants =>
    refine ⟨.granted .none grants, fun _ => ?_, fun _ => by simp, fun refused => by cases refused⟩
    rw [if_pos rfl]
    exact own.granted gate
  | failed => exact ⟨.none, fun _ => by simpa using own, by simp, by simp⟩
  | refused busy => exact ⟨.none, fun _ => by simpa using own, by simp, fun _ => busy⟩

/-- A take of the read byte is a shared one. -/
theorem ReadTaken.took (taken : ReadTaken s h r s') (own : Own s h held) :
    Took s h held .read .shared ((s.mirror h).readHolds + 1 < 2 ^ 32) r s' := by
  cases taken with
  | counted reading =>
    refine ⟨.holds .none _, fun room => ?_, fun _ => covers_shared.mpr reading,
      fun refused => by cases refused⟩
    rw [if_pos rfl]
    refine ⟨own.live, own.write, ?_, fun _ => reading, own.gated⟩
    rw [setHolds_readHolds, Nat.mod_eq_of_lt room]
    exact Nat.succ_le_succ own.counted
  | granted free grants =>
    refine ⟨.holds (.granted .none grants) _, fun _ => ?_, fun _ => by simp, fun refused => by cases refused⟩
    rw [if_pos rfl]
    have idle : held.reads = 0 := by
      by_contra reads
      exact own.reading (by have := own.counted; omega) free
    refine ⟨by simpa [Held.take] using own.live, by simpa [Held.take] using own.write, ?_, by simp, ?_⟩
    · rw [setHolds_readHolds]
      simp [Held.take, idle]
    · intro gate
      have exclusive := own.gated gate
      rw [free] at exclusive
      cases exclusive
  | failed => exact ⟨.none, fun _ => by simpa using own, by simp, by simp⟩
  | refused busy => exact ⟨.none, fun _ => by simpa using own, by simp, fun _ => busy⟩

/-- An exclusive take of the read byte is as it should be when the byte is held exclusively. -/
theorem ReadTaken.took_exclusive (recorded : Recorded s) (taken : ReadTaken s h r s') (own : Own s h held)
    (locked : ∃ x, s.kernel x .read = .exclusive) :
    Took s h held .read .exclusive ((s.mirror h).readHolds + 1 < 2 ^ 32) r s' := by
  obtain ⟨x, exclusive⟩ := locked
  by_cases mine : x = h
  · subst mine
    cases taken with
    | counted reading =>
      refine ⟨.holds .none _, fun room => ?_, fun _ => covers_exclusive.mpr exclusive,
        fun refused => by cases refused⟩
      rw [if_pos rfl]
      refine ⟨own.live, own.write, ?_, fun _ => reading, fun _ => exclusive⟩
      rw [setHolds_readHolds, Nat.mod_eq_of_lt room]
      exact Nat.le_succ_of_le own.counted
    | granted free _ =>
      rw [free] at exclusive
      cases exclusive
    | failed => exact ⟨.none, fun _ => by simpa using own, by simp, by simp⟩
    | refused busy =>
      refine absurd (fun other differ shared => ?_) busy
      rw [recorded.excludes x other .read differ exclusive] at shared
      cases shared
  · have free := recorded.excludes x h .read (Ne.symm mine) exclusive
    cases taken with
    | counted reading => exact absurd free reading
    | granted _ grants => exact absurd exclusive (grants x mine)
    | failed => exact ⟨.none, fun _ => by simpa using own, by simp, by simp⟩
    | refused _ =>
      refine ⟨.none, fun _ => by simpa using own, by simp, fun _ grants => ?_⟩
      rw [grants x mine] at exclusive
      cases exclusive

theorem ofNat?_read {byte : Nat} (named : LockByte.ofNat? byte = some .read) : byte = 2 := by
  unfold LockByte.ofNat? at named
  split at named <;> simp_all

end Takes

/-- What a call does that is to give something back. -/
structure Gave [DecidableEq H] (s : Handles H) (h : H) (left : Held) (s' : Handles H) : Prop where
  effect : Effect s h s'
  own : Own s' h left

section Calls

variable [DecidableEq H] {s s' : Handles H} {h : H} {held : Held} {fails : Bool} {r : Except Unit Bool}

theorem Freed.gave {b : LockByte} (freed : Freed s h b r s') (own : Own s h held) (two : b ≠ .read) :
    Gave s h (held.release b) s' := by
  have loses : Own s h (held.release b) := by
    cases b with
    | live => exact ⟨covers_none _, own.write, own.counted, own.reading, own.gated⟩
    | write => exact ⟨own.live, covers_none _, own.counted, own.reading, own.gated⟩
    | read => exact absurd rfl two
  cases freed with
  | already => exact ⟨.none, loses⟩
  | failed => exact ⟨.none, loses⟩
  | granted =>
    refine ⟨.granted .none trivial, ?_⟩
    cases b with
    | live => exact ⟨by simp [Held.release], by simpa using loses.write, by simpa using loses.counted,
        by simpa using loses.reading, by simpa using loses.gated⟩
    | write => exact ⟨by simpa using loses.live, by simp [Held.release], by simpa using loses.counted,
        by simpa using loses.reading, by simpa using loses.gated⟩
    | read => exact absurd rfl two

/-- The byte outlives all releases but the last. -/
theorem ReadFreed.gave (freed : ReadFreed s h r s') (own : Own s h held) :
    Gave s h (held.release .read) s' := by
  have fewer : Own (s.setHolds h ((s.mirror h).readHolds - 1)) h (held.release .read) := by
    refine ⟨own.live, own.write, ?_, ?_, own.gated⟩
    · rw [setHolds_readHolds]
      exact Nat.sub_le_sub_right own.counted 1
    · rw [setHolds_readHolds]
      exact fun reading => own.reading (by omega)
  cases freed with
  | counted => exact ⟨.holds .none _, fewer⟩
  | failed => exact ⟨.holds .none _, fewer⟩
  | granted last shared =>
    refine ⟨.granted (.holds .none _) trivial, ?_⟩
    refine ⟨by simpa using fewer.live, by simpa using fewer.write, by simpa using fewer.counted, ?_, ?_⟩
    · rw [record_readHolds, setHolds_readHolds, last]
      exact fun none => absurd none (lt_irrefl 0)
    · intro gate
      have exclusive := own.gated gate
      rw [shared] at exclusive
      cases exclusive

theorem GateFreed.gave (freed : GateFreed s h r s') (own : Own s h held) :
    Gave s h ⟨held.live, held.write, held.reads, false⟩ s' := by
  have loses : Own s h ⟨held.live, held.write, held.reads, false⟩ :=
    ⟨own.live, own.write, own.counted, own.reading, fun gate => by cases gate⟩
  cases freed with
  | already => exact ⟨.none, loses⟩
  | failed => exact ⟨.none, loses⟩
  | restored _ grants =>
    exact ⟨.granted .none grants, by simpa using loses.live, by simpa using loses.write,
      by simpa using loses.counted, by simp, fun gate => by cases gate⟩
  | released idle =>
    exact ⟨.granted .none trivial, by simpa using loses.live, by simpa using loses.write,
      by simpa using loses.counted, by simp [idle], fun gate => by cases gate⟩

/-- A statement more can be counted. -/
def HasRoom (s : Handles H) (h : H) : Call → Prop
  | .lockShared byte | .lockSharedWait byte | .tryLockExclusive byte | .lockExclusiveWait byte =>
    LockByte.ofNat? byte = some .read → (s.mirror h).readHolds + 1 < 2 ^ 32
  | _ => True

/-- What a call leaves: its effect on the records, what its caller holds, and what its
success says. -/
structure Called (s : Handles H) (h : H) (held : Held) (call : Call) (r : Except Unit Bool)
    (s' : Handles H) : Prop where
  effect : Effect s h s'
  own : HasRoom s h call → Own s' h (held.after call r)
  covers : ∀ b mode, call.wants = some (b, mode) → r = .ok true → (s'.kernel h b).Covers mode

theorem Took.unfolded {b : LockByte} {mode : Mode} {room : Prop} (took : Took s h held b mode room r s')
    (grants : Grants s.kernel h b mode) : (r.map fun _ => true) = r := by
  cases r with
  | error => rfl
  | ok value =>
    cases value with
    | true => rfl
    | false => exact absurd grants (took.refused rfl)

theorem Took.called {b : LockByte} {mode : Mode} {room : Prop} {call : Call}
    (took : Took s h held b mode room r s') (wants : call.wants = some (b, mode))
    (has : HasRoom s h call → room)
    (keeps : held.after call r = if r = .ok true then held.take b mode else held) :
    Called s h held call r s' := by
  refine ⟨took.effect, fun room => by rw [keeps]; exact took.own (has room), fun b' mode' wanted done => ?_⟩
  rw [wants] at wanted
  cases wanted
  exact took.covers done

/-- A call on a byte outside the protocol changes nothing. -/
theorem called_unknown {call : Call} (own : Own s h held) (wants : call.wants = none)
    (keeps : held.after call (.error ()) = held) : Called s h held call (.error ()) s :=
  ⟨.none, fun _ => by rw [keeps]; exact own, fun b mode wanted => by rw [wants] at wanted; cases wanted⟩

theorem Gave.called {left : Held} {call : Call} (gave : Gave s h left s') (wants : call.wants = none)
    (keeps : held.after call r = left) : Called s h held call r s' :=
  ⟨gave.effect, fun _ => by rw [keeps]; exact gave.own, fun b mode wanted => by rw [wants] at wanted; cases wanted⟩

variable [Fintype H]

/-- A byte taken through `ofd`. -/
theorem ofd_took (recorded : Recorded s) (own : Own s h held) {byte : Nat} {b : LockByte}
    (named : LockByte.ofNat? byte = some b) (shared : Bool)
    (locked : b = .read → shared = false → ∃ x, s.kernel x .read = .exclusive) :
    Took s h held b (if shared then .shared else .exclusive)
      (b = .read → (s.mirror h).readHolds + 1 < 2 ^ 32) (ofd s h byte shared false fails).1
      (ofd s h byte shared false fails).2 := by
  by_cases two : b = .read
  · subst two
    obtain rfl := ofNat?_read named
    have taken := @ofd_readTaken _ _ _ _ _ fails (recorded.mirrored h) shared
    cases shared with
    | true =>
      have took := taken.took own
      exact { took with own := fun room => took.own (room rfl) }
    | false =>
      have took := taken.took_exclusive recorded own (locked rfl rfl)
      exact { took with own := fun room => took.own (room rfl) }
  · exact (ofd_taken (recorded.mirrored h) named two shared).took own fun read => absurd read two

/-- A byte given back through `ofd`. -/
theorem ofd_gave (recorded : Recorded s) (own : Own s h held) {byte : Nat} {b : LockByte}
    (named : LockByte.ofNat? byte = some b) :
    Gave s h (held.release b) (ofd s h byte false true fails).2 := by
  by_cases two : b = .read
  · subst two
    obtain rfl := ofNat?_read named
    exact (ofd_readFreed (recorded.mirrored h)).gave own
  · exact (ofd_freed (recorded.mirrored h) named two).gave own two

theorem ofd_unknown {byte : Nat} (unknown : LockByte.ofNat? byte = none) (shared unlock : Bool) :
    ofd s h byte shared unlock fails = (.error (), s) := by
  unfold ofd
  rw [unknown]

/-- A call that folds a refusal into its success must not be refused, and the read byte is
not to be had exclusively by `ofd`. -/
def CallGuard (s : Handles H) (h : H) : Call → Prop
  | .lockShared byte => ∀ b, LockByte.ofNat? byte = some b → Grants s.kernel h b .shared
  | .restoreShared | .dropSoleGuard => Grants s.kernel h .live .shared
  | .tryLockExclusive byte | .lockExclusiveWait byte =>
    LockByte.ofNat? byte = some .read → ∃ x, s.kernel x .read = .exclusive
  | _ => True

/-- A call that takes a byte through `ofd`, on whatever byte. -/
theorem ofd_called (recorded : Recorded s) (own : Own s h held) {byte : Nat} (shared : Bool) {call : Call}
    (wants : call.wants = (LockByte.ofNat? byte).map (·, if shared then .shared else .exclusive))
    (keeps : ∀ r, held.after call r = match call.wants with
      | some (b, mode) => if r = .ok true then held.take b mode else held
      | none => held)
    (locked : LockByte.ofNat? byte = some .read → shared = false → ∃ x, s.kernel x .read = .exclusive)
    (has : HasRoom s h call → LockByte.ofNat? byte = some .read → (s.mirror h).readHolds + 1 < 2 ^ 32) :
    Called s h held call (ofd s h byte shared false fails).1 (ofd s h byte shared false fails).2 := by
  cases named : LockByte.ofNat? byte with
  | none =>
    rw [named] at wants
    rw [ofd_unknown named]
    exact called_unknown own wants (by rw [keeps, wants]; rfl)
  | some b =>
    have took := @ofd_took _ _ _ _ _ fails _ recorded own _ _ named shared fun read => locked (read ▸ named)
    rw [named] at wants
    exact took.called wants (fun room read => has room (read ▸ named)) (by rw [keeps, wants]; rfl)

theorem call_called (recorded : Recorded s) (own : Own s h held) (call : Call)
    (guarded : CallGuard s h call) :
    Called s h held call (s.call h call fails).1 (s.call h call fails).2 := by
  cases call with
  | lockShared byte =>
    have called := @ofd_called _ _ _ _ _ fails _ recorded own byte true (.lockShared byte) rfl
        (fun _ => rfl) (by simp) id
    cases named : LockByte.ofNat? byte with
    | none =>
      rw [ofd_unknown named] at called
      simp only [Handles.call, ofd_unknown named]
      exact called
    | some b =>
      have took := @ofd_took _ _ _ _ _ fails _ recorded own _ _ named true (by simp)
      simpa only [Handles.call, took.unfolded (guarded b named)] using called
  | lockSharedWait byte => exact ofd_called recorded own true rfl (fun _ => rfl) (by simp) id
  | tryLockExclusive byte =>
    exact ofd_called recorded own false rfl (fun _ => rfl) (fun read _ => guarded read) id
  | lockExclusiveWait byte =>
    exact ofd_called recorded own false rfl (fun _ => rfl) (fun read _ => guarded read) id
  | tryUpgradeSole =>
    exact ofd_called recorded own false rfl (fun _ => rfl) (by simp [LockByte.ofNat?])
      (by simp [LockByte.ofNat?])
  | restoreShared =>
    have took := @ofd_took _ _ _ _ _ fails _ recorded own 0 _ rfl true (by simp)
    simp only [Handles.call, took.unfolded guarded]
    exact took.called rfl (by simp) rfl
  | dropSoleGuard =>
    have took := @ofd_took _ _ _ _ _ fails _ recorded own 0 _ rfl true (by simp)
    simp only [Handles.call, took.unfolded guarded]
    exact took.called rfl (by simp) rfl
  | tryFoldGate =>
    exact ((tryFoldGate_taken (recorded.mirrored h)).took own fun _ => rfl).called rfl id rfl
  | releaseFoldGate => exact ((releaseFoldGate_freed recorded).gave own).called rfl rfl
  | dropFoldGuard => exact ((releaseFoldGate_freed recorded).gave own).called rfl rfl
  | unlock byte =>
    cases named : LockByte.ofNat? byte with
    | none =>
      simp only [Handles.call, ofd_unknown named]
      exact called_unknown own rfl (by simp [Held.after, named])
    | some b => exact (ofd_gave recorded own named).called rfl (by simp [Held.after, named])
  | dropReadGuard => exact (@ofd_gave _ _ _ _ _ _ _ recorded own 2 _ rfl).called rfl rfl

/-- The records are right, and what the callers of each handle hold it holds. -/
structure Inv (s : Sys H) : Prop where
  recorded : Recorded s.handles
  own : ∀ h, Own s.handles h (s.held h)

omit [DecidableEq H] [Fintype H] in
theorem opened_inv : Inv (Sys.opened : Sys H) where
  recorded := ⟨fun _ => rfl, fun _ _ _ _ _ => rfl⟩
  own _ := ⟨trivial, trivial, le_rfl, fun reading => absurd reading (lt_irrefl 0), fun gate => by cases gate⟩

def Guard (s : Sys H) (call : H × Call) : Prop := CallGuard s.handles call.1 call.2

/-- The guard of a call in a run: the `u32` count of its handle must not wrap either. -/
def Guarded (s : Sys H) (call : H × Call) : Prop := Guard s call ∧ HasRoom s.handles call.1 call.2

theorem Inv.step {before after : Sys H} {call : H × Call} (inv : Inv before) (guarded : Guard before call)
    (stepped : Step before call r after) :
    Called before.handles call.1 (before.held call.1) call.2 r after.handles ∧
      (HasRoom before.handles call.1 call.2 → Inv after) := by
  obtain ⟨fails, rfl, rfl⟩ : ∃ fails, (before.next call.1 call.2 fails).1 = r ∧
      (before.next call.1 call.2 fails).2 = after := by
    obtain ⟨fails, done⟩ := stepped
    exact ⟨fails, by rw [done], by rw [done]⟩
  have called := @call_called _ _ _ _ _ fails _ inv.recorded (inv.own call.1) call.2 guarded
  refine ⟨called, fun room => ⟨called.effect.recorded inv.recorded, fun other => ?_⟩⟩
  by_cases same : other = call.1
  · subst same
    simpa [Sys.next] using called.own room
  · obtain ⟨kernel, mirror⟩ := called.effect.others same
    obtain ⟨live, write, counted, reading, gated⟩ := inv.own other
    simp only [Sys.next, Function.update_of_ne same]
    exact ⟨by rw [kernel]; exact live, by rw [kernel]; exact write, by rw [mirror]; exact counted,
      by rw [mirror, kernel]; exact reading, by rw [kernel]; exact gated⟩

/-- What is to hold in every state: the mirrors are the kernel's record, the holds that
exclude each other do not meet, and a handle has its read byte while a statement counts on it. -/
structure Excludes (s : Sys H) : Prop where
  mirrored : ∀ h b, (s.handles.mirror h).modes b = s.handles.kernel h b
  gate : ∀ h other, other ≠ h → (s.held h).gate = true →
    s.handles.kernel h .read = .exclusive ∧ s.handles.kernel other .read = .none ∧ (s.held other).reads = 0
  sole : ∀ h other, other ≠ h → (s.held h).live = .exclusive →
    s.handles.kernel other .live = .none ∧ (s.held other).live = .none
  write : ∀ h other, other ≠ h → (s.held h).write = .exclusive → (s.held other).write = .none
  reading : ∀ h, 0 < (s.held h).reads → s.handles.kernel h .read ≠ .none

omit [DecidableEq H] [Fintype H] in
theorem Inv.excludes {s : Sys H} (inv : Inv s) : Excludes s where
  mirrored h b := by rw [inv.recorded.mirrored h]
  gate h other differ held := by
    have exclusive := (inv.own h).gated held
    have free := inv.recorded.excludes h other .read differ exclusive
    refine ⟨exclusive, free, ?_⟩
    by_contra reads
    have counted := (inv.own other).counted
    exact (inv.own other).reading (by omega) free
  sole h other differ held := by
    have exclusive := covers_exclusive.mp (held ▸ (inv.own h).live)
    have free := inv.recorded.excludes h other .live differ exclusive
    exact ⟨free, none_covers (free ▸ (inv.own other).live)⟩
  write h other differ held := by
    have exclusive := covers_exclusive.mp (held ▸ (inv.own h).write)
    have free := inv.recorded.excludes h other .write differ exclusive
    exact none_covers (free ▸ (inv.own other).write)
  reading h reads := (inv.own h).reading (lt_of_lt_of_le reads (inv.own h).counted)

/-- A call that reports success leaves its handle with what it asked for. -/
def Truthful (s : Sys H) (call : H × Call) : Prop :=
  ∀ r after, Step s call r after → ∀ b mode, call.2.wants = some (b, mode) →
    r = .ok true → (after.handles.kernel call.1 b).Covers mode

/-- A byte that another handle holds exclusively is refused. -/
theorem ofd_refused (recorded : Recorded s) {byte : Nat} {b : LockByte}
    (named : LockByte.ofNat? byte = some b) (busy : ¬ Grants s.kernel h b .shared) :
    s.kernel h b = .none ∧ ofd s h byte true false false = (.ok false, s) := by
  obtain ⟨other, differ, exclusive⟩ : ∃ other, other ≠ h ∧ s.kernel other b = .exclusive := by
    simpa [Grants] using busy
  have free := recorded.excludes other h b (Ne.symm differ) exclusive
  refine ⟨free, ?_⟩
  unfold ofd
  rw [named]
  cases b <;> simp [recorded.mirrored, free, rawOfd, busy]

/-- An exclusive take of the read byte that is not held exclusively is a shared one. -/
theorem ofd_shares (recorded : Recorded s) (shared : ∀ x, s.kernel x .read ≠ .exclusive) :
    (ofd s h 2 false false false).1 = .ok true ∧ (ofd s h 2 false false false).2.kernel h .read = .shared := by
  unfold ofd
  cases mode : s.kernel h .read with
  | exclusive => exact absurd mode (shared h)
  | shared => simp [LockByte.ofNat?, recorded.mirrored, mode]
  | none =>
    have grants : Grants s.kernel h .read .shared := fun other _ => shared other
    simp [LockByte.ofNat?, recorded.mirrored, mode, rawOfd, grants]

theorem next_result (s : Sys H) (call : Call) :
    (s.next h call fails).1 = (s.handles.call h call fails).1 := rfl

theorem next_handles (s : Sys H) (call : Call) :
    (s.next h call fails).2.handles = (s.handles.call h call fails).2 := rfl

theorem Inv.guard_of_truthful {before : Sys H} {call : H × Call} (inv : Inv before)
    (truthful : Truthful before call) : Guard before call := by
  obtain ⟨h, call⟩ := call
  have folded {byte : Nat} {b : LockByte} (named : LockByte.ofNat? byte = some b)
      (wants : call.wants = some (b, .shared))
      (folds : before.handles.call h call false =
        ((ofd before.handles h byte true false false).1.map fun _ => true,
          (ofd before.handles h byte true false false).2)) :
      Grants before.handles.kernel h b .shared := by
    by_contra busy
    obtain ⟨free, refused⟩ := ofd_refused inv.recorded named busy
    have covers := truthful (before.next h call false).1 (before.next h call false).2 ⟨false, rfl⟩ b .shared wants (by
      rw [next_result, folds, refused]
      rfl)
    rw [next_handles, folds, refused] at covers
    exact covers_shared.mp covers free
  have gated {byte : Nat} (named : LockByte.ofNat? byte = some .read)
      (wants : call.wants = some (.read, .exclusive))
      (passes : before.handles.call h call false = ofd before.handles h byte false false false) :
      ∃ x, before.handles.kernel x .read = .exclusive := by
    by_contra none
    obtain rfl := ofNat?_read named
    obtain ⟨done, shared⟩ := ofd_shares (h := h) inv.recorded (not_exists.mp none)
    have covers := truthful (before.next h call false).1 (before.next h call false).2 ⟨false, rfl⟩ .read .exclusive wants (by
      rw [next_result, passes, done])
    rw [next_handles, passes, shared] at covers
    cases covers_exclusive.mp covers
  cases call with
  | lockShared byte => exact fun b named => folded named (by simp [Call.wants, named]) rfl
  | restoreShared => exact @folded 0 _ rfl rfl rfl
  | dropSoleGuard => exact @folded 0 _ rfl rfl rfl
  | tryLockExclusive byte => exact fun named => gated named (by simp [Call.wants, named]) rfl
  | lockExclusiveWait byte => exact fun named => gated named (by simp [Call.wants, named]) rfl
  | lockSharedWait _ | tryUpgradeSole | tryFoldGate | releaseFoldGate | unlock _ | dropReadGuard
  | dropFoldGuard => trivial

/-- Along a run whose calls meet the guard the holds exclude each other, and the next call is
truthful whatever the kernel answers exactly when it meets the guard as well. -/
theorem lock_bytes_exclude {calls : List (H × Call)} {s : Sys H} (run : Run Step Guarded Sys.opened calls s) :
    Excludes s ∧ ∀ call, Guard s call ↔ Truthful s call := by
  have inv : Inv s := run.invariant Inv
    (fun _ _ _ _ inv guarded stepped => (inv.step guarded.1 stepped).2 guarded.2) opened_inv
  refine ⟨inv.excludes, fun call => ⟨fun guarded _ _ stepped => ?_, inv.guard_of_truthful⟩⟩
  exact (inv.step guarded stepped).1.covers

end Calls

/-- The first of two handles takes the live byte shared, and upgrades. -/
def upgradedHandles : Sys (Fin 2) :=
  ((Sys.opened.next 0 (.lockShared 0) false).2.next 0 .tryUpgradeSole false).2

theorem upgradedHandles_run {guard : Sys (Fin 2) → Fin 2 × Call → Prop}
    (first : guard Sys.opened (0, .lockShared 0))
    (second : guard (Sys.opened.next 0 (.lockShared 0) false).2 (0, .tryUpgradeSole)) :
    Run Step guard Sys.opened ([] ++ [(0, .lockShared 0)] ++ [(0, .tryUpgradeSole)]) upgradedHandles :=
  .next (.next .refl first ⟨false, rfl⟩) second ⟨false, rfl⟩

theorem lock_bytes_exclude_upgraded : Excludes upgradedHandles ∧
    ∀ call, Guard upgradedHandles call ↔ Truthful upgradedHandles call := by
  refine lock_bytes_exclude (upgradedHandles_run ⟨fun b named other differ => ?_, ?_⟩ ⟨trivial, trivial⟩)
  · exact fun exclusive => by cases exclusive
  · exact fun read => by cases read

/-- The second handle is told that it has the byte as well. -/
theorem lock_shared_refused : ¬ ∀ (calls : List (Fin 2 × Call)) (s : Sys (Fin 2)),
    Run Step (fun _ _ => True) Sys.opened calls s → Excludes s ∧ ∀ call, Truthful s call := by
  intro claimed
  have truthful := (claimed _ _ (upgradedHandles_run trivial trivial)).2 (1, .lockShared 0)
  have covers := truthful _ _ ⟨false, rfl⟩ .live .shared rfl (by decide)
  revert covers
  decide

end RustSql.Storage.Xlock
