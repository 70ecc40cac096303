import RustSql.Storage.LockBytes

/-! What holds along every run of the lock bytes: the mirrors are the kernel's record, what
the callers hold is held, and the holds that exclude each other never meet. -/

namespace RustSql.Storage.Xlock

open RustSql.Foundation

variable {H : Type}

section States

variable [DecidableEq H]

@[simp] theorem record_kernel (s : Handles H) (h : H) (b : LockByte) (mode : Mode) :
    (s.record h b mode).kernel = Function.update s.kernel h (Function.update (s.kernel h) b mode) := rfl

@[simp] theorem setHolds_kernel (s : Handles H) (h : H) (holds : Nat) :
    (s.setHolds h holds).kernel = s.kernel := rfl

@[simp] theorem record_modes (s : Handles H) (h : H) (b : LockByte) (mode : Mode) :
    ((s.record h b mode).mirror h).modes = Function.update (s.mirror h).modes b mode := by
  simp [Handles.record]

@[simp] theorem record_readHolds (s : Handles H) (h : H) (b : LockByte) (mode : Mode) :
    ((s.record h b mode).mirror h).readHolds = (s.mirror h).readHolds := by
  simp [Handles.record]

@[simp] theorem setHolds_modes (s : Handles H) (h : H) (holds : Nat) :
    ((s.setHolds h holds).mirror h).modes = (s.mirror h).modes := by
  simp [Handles.setHolds]

@[simp] theorem setHolds_readHolds (s : Handles H) (h : H) (holds : Nat) :
    ((s.setHolds h holds).mirror h).readHolds = holds := by
  simp [Handles.setHolds]

/-- All a call does to the records: it may set how many statements it counts, and it may
bring one of its bytes to a mode that is granted. -/
inductive Effect (s : Handles H) (h : H) : Handles H → Prop
  | none : Effect s h s
  | holds {s'} (before : Effect s h s') (n : Nat) : Effect s h (s'.setHolds h n)
  | granted {s'} (before : Effect s h s') {b : LockByte} {mode : Mode} (grants : Grants s'.kernel h b mode) :
      Effect s h (s'.record h b mode)

/-- The mirrors are right, and no byte is held against an exclusive hold. -/
structure Recorded (s : Handles H) : Prop where
  mirrored : ∀ h, (s.mirror h).modes = s.kernel h
  excludes : ∀ h other b, other ≠ h → s.kernel h b = .exclusive → s.kernel other b = .none

theorem Effect.recorded {s s' : Handles H} {h : H} (effect : Effect s h s') (recorded : Recorded s) :
    Recorded s' := by
  induction effect with
  | none => exact recorded
  | holds _ n ih =>
    refine ⟨fun other => ?_, ih.excludes⟩
    by_cases same : other = h
    · subst same
      rw [setHolds_modes]
      exact ih.mirrored other
    · simpa [Handles.setHolds, same] using ih.mirrored other
  | @granted s' _ b mode grants ih =>
    refine ⟨fun other => ?_, fun one other b' differ exclusive => ?_⟩
    · by_cases same : other = h
      · subst same
        rw [record_modes, record_kernel, Function.update_self, ih.mirrored other]
      · simpa [Handles.record, same] using ih.mirrored other
    · rw [record_kernel] at exclusive ⊢
      by_cases byte : b' = b
      · subst byte
        by_cases first : one = h
        · subst first
          rw [Function.update_self, Function.update_self] at exclusive
          subst exclusive
          rw [Function.update_of_ne differ]
          exact grants other differ
        · rw [Function.update_of_ne first] at exclusive
          by_cases second : other = h
          · subst second
            rw [Function.update_self, Function.update_self]
            -- the byte was granted beside an exclusive hold: it was released
            cases mode with
            | none => rfl
            | shared => exact absurd exclusive (grants one first)
            | exclusive =>
              have none := grants one first
              rw [exclusive] at none
              cases none
          · rw [Function.update_of_ne second]
            exact ih.excludes one other b' differ exclusive
      · have unchanged (x : H) : (Function.update s'.kernel h (Function.update (s'.kernel h) b mode)) x b' =
            s'.kernel x b' := by
          by_cases here : x = h
          · subst here
            rw [Function.update_self, Function.update_of_ne byte]
          · rw [Function.update_of_ne here]
        rw [unchanged] at exclusive ⊢
        exact ih.excludes one other b' differ exclusive

/-- A call leaves the other handles as they are. -/
theorem Effect.others {s s' : Handles H} {h other : H} (effect : Effect s h s') (differ : other ≠ h) :
    s'.kernel other = s.kernel other ∧ s'.mirror other = s.mirror other := by
  induction effect with
  | none => exact ⟨rfl, rfl⟩
  | holds _ n ih => simpa [Handles.setHolds, differ] using ih
  | granted _ _ ih => simpa [Handles.record, differ] using ih

end States

section Calls

variable [DecidableEq H] [Fintype H] {s s' : Handles H} {h : H} {fails : Bool} {r : Except Unit Bool}

/-- A request fails, is granted, or is refused. -/
theorem rawOfd_cases (s : Handles H) (h : H) (b : LockByte) (mode : Mode) (fails : Bool) :
    rawOfd s h b mode fails = (.error (), s) ∨
      (Grants s.kernel h b mode ∧ rawOfd s h b mode fails = (.ok true, s.record h b mode)) ∨
      (¬ Grants s.kernel h b mode ∧ rawOfd s h b mode fails = (.ok false, s)) := by
  unfold rawOfd
  cases fails with
  | true => exact .inl rfl
  | false =>
    by_cases grants : Grants s.kernel h b mode
    · exact .inr (.inl ⟨grants, by simp [grants]⟩)
    · exact .inr (.inr ⟨grants, by simp [grants]⟩)

/-- What a take of one of the first two bytes does. -/
inductive Taken (s : Handles H) (h : H) (b : LockByte) (mode : Mode) : Except Unit Bool → Handles H → Prop
  | held (same : s.kernel h b = mode) : Taken s h b mode (.ok true) s
  | granted (grants : Grants s.kernel h b mode) : Taken s h b mode (.ok true) (s.record h b mode)
  | failed : Taken s h b mode (.error ()) s
  | refused (busy : ¬ Grants s.kernel h b mode) : Taken s h b mode (.ok false) s

theorem rawOfd_taken (s : Handles H) (h : H) (b : LockByte) (mode : Mode) (fails : Bool) :
    Taken s h b mode (rawOfd s h b mode fails).1 (rawOfd s h b mode fails).2 := by
  rcases rawOfd_cases s h b mode fails with done | ⟨grants, done⟩ | ⟨busy, done⟩ <;> rw [done]
  · exact .failed
  · exact .granted grants
  · exact .refused busy

theorem ofd_taken (mirrored : (s.mirror h).modes = s.kernel h) {byte : Nat} {b : LockByte}
    (named : LockByte.ofNat? byte = some b) (two : b ≠ .read) (shared : Bool) :
    Taken s h b (if shared then .shared else .exclusive) (ofd s h byte shared false fails).1
      (ofd s h byte shared false fails).2 := by
  have unfolded : ofd s h byte shared false fails =
      if s.kernel h b = (if shared then .shared else .exclusive) then (.ok true, s)
      else rawOfd s h b (if shared then .shared else .exclusive) fails := by
    unfold ofd
    rw [named]
    cases b with
    | read => exact absurd rfl two
    | live | write => simp [mirrored]
  rw [unfolded]
  generalize (if shared then Mode.shared else Mode.exclusive) = mode
  split
  · next same => exact .held same
  · exact rawOfd_taken s h b mode fails

/-- What a release of one of the first two bytes does. -/
inductive Freed (s : Handles H) (h : H) (b : LockByte) : Except Unit Bool → Handles H → Prop
  | already (free : s.kernel h b = .none) : Freed s h b (.ok true) s
  | granted : Freed s h b (.ok true) (s.record h b .none)
  | failed : Freed s h b (.error ()) s

theorem ofd_freed (mirrored : (s.mirror h).modes = s.kernel h) {byte : Nat} {b : LockByte}
    (named : LockByte.ofNat? byte = some b) (two : b ≠ .read) :
    Freed s h b (ofd s h byte false true fails).1 (ofd s h byte false true fails).2 := by
  have unfolded : ofd s h byte false true fails =
      if s.kernel h b = .none then (.ok true, s)
      else ((rawOfd s h b .none fails).1.map fun _ => true, (rawOfd s h b .none fails).2) := by
    unfold ofd
    rw [named]
    cases b with
    | read => exact absurd rfl two
    | live | write => simp [mirrored]
  rw [unfolded]
  split
  · next free => exact .already free
  · rcases rawOfd_cases s h b .none fails with done | ⟨_, done⟩ | ⟨busy, _⟩
    · rw [done]
      exact .failed
    · rw [done]
      exact .granted
    · exact absurd trivial busy

/-- What a take of the read byte does. -/
inductive ReadTaken (s : Handles H) (h : H) : Except Unit Bool → Handles H → Prop
  | counted (held : s.kernel h .read ≠ .none) :
      ReadTaken s h (.ok true) (s.setHolds h (((s.mirror h).readHolds + 1) % 2 ^ 32))
  | granted (free : s.kernel h .read = .none) (grants : Grants s.kernel h .read .shared) :
      ReadTaken s h (.ok true) ((s.record h .read .shared).setHolds h 1)
  | failed : ReadTaken s h (.error ()) s
  | refused (busy : ¬ Grants s.kernel h .read .shared) : ReadTaken s h (.ok false) s

theorem ofd_readTaken (mirrored : (s.mirror h).modes = s.kernel h) (shared : Bool) :
    ReadTaken s h (ofd s h 2 shared false fails).1 (ofd s h 2 shared false fails).2 := by
  have unfolded : ofd s h 2 shared false fails =
      if s.kernel h .read ≠ .none then (.ok true, s.setHolds h (((s.mirror h).readHolds + 1) % 2 ^ 32))
      else ((rawOfd s h .read .shared fails).1, if (rawOfd s h .read .shared fails).1 = .ok true then
        (rawOfd s h .read .shared fails).2.setHolds h 1 else (rawOfd s h .read .shared fails).2) := by
    unfold ofd
    cases mode : s.kernel h .read <;> simp [LockByte.ofNat?, mirrored, mode]
  rw [unfolded]
  split
  · next held => exact .counted held
  · next free =>
    rcases rawOfd_cases s h .read .shared fails with done | ⟨grants, done⟩ | ⟨busy, done⟩ <;> rw [done]
    · exact .failed
    · exact .granted (not_not.mp free) grants
    · exact .refused busy

/-- What a release of the read byte does. -/
inductive ReadFreed (s : Handles H) (h : H) : Except Unit Bool → Handles H → Prop
  | counted : ReadFreed s h (.ok true) (s.setHolds h ((s.mirror h).readHolds - 1))
  | granted (last : (s.mirror h).readHolds - 1 = 0) (shared : s.kernel h .read = .shared) :
      ReadFreed s h (.ok true) ((s.setHolds h ((s.mirror h).readHolds - 1)).record h .read .none)
  | failed : ReadFreed s h (.error ()) (s.setHolds h ((s.mirror h).readHolds - 1))

theorem ofd_readFreed (mirrored : (s.mirror h).modes = s.kernel h) :
    ReadFreed s h (ofd s h 2 false true fails).1 (ofd s h 2 false true fails).2 := by
  have unfolded : ofd s h 2 false true fails =
      if (s.mirror h).readHolds - 1 = 0 ∧ s.kernel h .read = .shared then
        ((rawOfd (s.setHolds h ((s.mirror h).readHolds - 1)) h .read .none fails).1.map fun _ => true,
          (rawOfd (s.setHolds h ((s.mirror h).readHolds - 1)) h .read .none fails).2)
      else (.ok true, s.setHolds h ((s.mirror h).readHolds - 1)) := by
    unfold ofd
    simp [LockByte.ofNat?, mirrored]
  rw [unfolded]
  split
  · next last =>
    rcases rawOfd_cases (s.setHolds h ((s.mirror h).readHolds - 1)) h .read .none fails with
      done | ⟨_, done⟩ | ⟨busy, _⟩
    · rw [done]
      exact .failed
    · rw [done]
      exact .granted last.1 last.2
    · exact absurd trivial busy
  · exact .counted

theorem tryFoldGate_taken (mirrored : (s.mirror h).modes = s.kernel h) :
    Taken s h .read .exclusive (tryFoldGate s h fails).1 (tryFoldGate s h fails).2 := by
  unfold tryFoldGate
  rw [mirrored]
  split
  · next same => exact .held same
  · exact rawOfd_taken s h .read .exclusive fails

/-- What the end of a fold gate does. -/
inductive GateFreed (s : Handles H) (h : H) : Except Unit Bool → Handles H → Prop
  | already (free : s.kernel h .read ≠ .exclusive) : GateFreed s h (.ok true) s
  | restored (reading : 0 < (s.mirror h).readHolds) (grants : Grants s.kernel h .read .shared) :
      GateFreed s h (.ok true) (s.record h .read .shared)
  | released (idle : (s.mirror h).readHolds = 0) : GateFreed s h (.ok true) (s.record h .read .none)
  | failed : GateFreed s h (.error ()) s

theorem releaseFoldGate_freed (recorded : Recorded s) :
    GateFreed s h (releaseFoldGate s h fails).1 (releaseFoldGate s h fails).2 := by
  unfold releaseFoldGate
  rw [recorded.mirrored h]
  by_cases exclusive : s.kernel h .read = .exclusive
  · rw [if_neg (not_not.mpr exclusive)]
    by_cases reading : 0 < (s.mirror h).readHolds
    · rw [if_pos reading]
      have grants : Grants s.kernel h .read .shared := by
        intro other differ held
        rw [recorded.excludes h other .read differ exclusive] at held
        cases held
      rcases rawOfd_cases s h .read .shared fails with done | ⟨_, done⟩ | ⟨busy, _⟩
      · rw [done]
        exact .failed
      · rw [done]
        exact .restored reading grants
      · exact absurd grants busy
    · rw [if_neg reading]
      rcases rawOfd_cases s h .read .none fails with done | ⟨_, done⟩ | ⟨busy, _⟩
      · rw [done]
        exact .failed
      · rw [done]
        exact .released (by omega)
      · exact absurd trivial busy
  · rw [if_pos exclusive]
    exact .already exclusive

end Calls

end RustSql.Storage.Xlock
