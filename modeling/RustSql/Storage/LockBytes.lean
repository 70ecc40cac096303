import Mathlib.Algebra.Ring.Nat
import Mathlib.Data.Fintype.Basic
import Mathlib.Logic.Function.Basic
import RustSql.Foundation.GuardedRun

/-! The lock bytes of the cross-process lock file: the kernel's record of every handle, the
mirror each handle keeps, and the calls of a handle. A call makes at most one request to the
kernel, so that a call is one atomic step. -/

namespace RustSql.Storage.Xlock

open RustSql.Foundation

/-- The bytes of the protocol: `LIVE_BYTE`, `WRITE_BYTE` and `READ_BYTE`. -/
inductive LockByte where
  | live | write | read
deriving DecidableEq, Repr

def LockByte.ofNat? : Nat → Option LockByte
  | 0 => some .live
  | 1 => some .write
  | 2 => some .read
  | _ => none

inductive Mode where
  | none | shared | exclusive
deriving DecidableEq, Repr

/-- One mode allows what another does. -/
def Mode.Covers : (held wanted : Mode) → Prop
  | _, .none => True
  | .none, .shared => False
  | _, .shared => True
  | held, .exclusive => held = .exclusive

instance (held wanted : Mode) : Decidable (held.Covers wanted) := by
  cases held <;> cases wanted <;> unfold Mode.Covers <;> infer_instance

/-- `LockState`: what a handle knows of its own bytes. -/
structure LockState where
  modes : LockByte → Mode
  readHolds : Nat

variable {H : Type}

/-- The handles on one lock file: the kernel's record of them, and their mirrors. -/
structure Handles (H : Type) where
  kernel : H → LockByte → Mode
  mirror : H → LockState

/-- Before any call. -/
def Handles.opened : Handles H := ⟨fun _ _ => .none, fun _ => ⟨fun _ => .none, 0⟩⟩

/-- No descriptor but that of `h` stands in the way of a request. -/
def Grants (kernel : H → LockByte → Mode) (h : H) (b : LockByte) : Mode → Prop
  | .none => True
  | .shared => ∀ other, other ≠ h → kernel other b ≠ .exclusive
  | .exclusive => ∀ other, other ≠ h → kernel other b = .none

section Calls

variable [DecidableEq H] [Fintype H]

instance (kernel : H → LockByte → Mode) (h : H) (b : LockByte) (mode : Mode) :
    Decidable (Grants kernel h b mode) := by
  cases mode <;> unfold Grants <;> infer_instance

def Handles.record (s : Handles H) (h : H) (b : LockByte) (mode : Mode) : Handles H :=
  ⟨Function.update s.kernel h (Function.update (s.kernel h) b mode),
    Function.update s.mirror h
      ⟨Function.update (s.mirror h).modes b mode, (s.mirror h).readHolds⟩⟩

def Handles.setHolds (s : Handles H) (h : H) (holds : Nat) : Handles H :=
  ⟨s.kernel, Function.update s.mirror h ⟨(s.mirror h).modes, holds⟩⟩

/-- `raw_ofd`, and the mirror's update when it is granted. A request that fails changes
nothing. -/
def rawOfd (s : Handles H) (h : H) (b : LockByte) (mode : Mode) (fails : Bool) :
    Except Unit Bool × Handles H :=
  if fails then (.error (), s)
  else if Grants s.kernel h b mode then (.ok true, s.record h b mode)
  else (.ok false, s)

/-- `ofd`. The count of the read byte is a `u32`, which wraps. -/
def ofd (s : Handles H) (h : H) (byte : Nat) (shared unlock fails : Bool) :
    Except Unit Bool × Handles H :=
  match LockByte.ofNat? byte with
  | none => (.error (), s)
  | some .read =>
    let holds := (s.mirror h).readHolds
    let cur := (s.mirror h).modes .read
    if unlock then
      let s := s.setHolds h (holds - 1)
      if holds - 1 = 0 ∧ cur = .shared then
        let (r, s) := rawOfd s h .read .none fails
        (r.map fun _ => true, s)
      else (.ok true, s)
    else if cur = .shared ∨ cur = .exclusive then (.ok true, s.setHolds h ((holds + 1) % 2 ^ 32))
    else
      let (r, s) := rawOfd s h .read .shared fails
      (r, if r = .ok true then s.setHolds h 1 else s)
  | some b =>
    let want := if unlock then Mode.none else if shared then .shared else .exclusive
    let cur := (s.mirror h).modes b
    if unlock then
      if cur = .none then (.ok true, s)
      else
        let (r, s) := rawOfd s h b .none fails
        (r.map fun _ => true, s)
    else if cur = want then (.ok true, s)
    else rawOfd s h b want fails

def tryFoldGate (s : Handles H) (h : H) (fails : Bool) : Except Unit Bool × Handles H :=
  if (s.mirror h).modes .read = .exclusive then (.ok true, s)
  else rawOfd s h .read .exclusive fails

def releaseFoldGate (s : Handles H) (h : H) (fails : Bool) : Except Unit Bool × Handles H :=
  if (s.mirror h).modes .read ≠ .exclusive then (.ok true, s)
  else
    let (r, s) := rawOfd s h .read (if (s.mirror h).readHolds > 0 then .shared else .none) fails
    (r.map fun _ => true, s)

/-- The calls of a handle; those that wait are one attempt of their loop. -/
inductive Call where
  | lockShared (byte : Nat)
  | lockSharedWait (byte : Nat)
  | tryLockExclusive (byte : Nat)
  | lockExclusiveWait (byte : Nat)
  | tryUpgradeSole
  | restoreShared
  | tryFoldGate
  | releaseFoldGate
  | unlock (byte : Nat)
  | dropReadGuard
  | dropSoleGuard
  | dropFoldGuard
deriving DecidableEq, Repr

/-- What a call returns; a call without a value succeeds with `true`. -/
def Handles.call (s : Handles H) (h : H) (call : Call) (fails : Bool) :
    Except Unit Bool × Handles H :=
  match call with
  | .lockShared byte =>
    let (r, s) := ofd s h byte true false fails
    (r.map fun _ => true, s)
  | .lockSharedWait byte => ofd s h byte true false fails
  | .tryLockExclusive byte | .lockExclusiveWait byte => ofd s h byte false false fails
  | .tryUpgradeSole => ofd s h 0 false false fails
  | .restoreShared | .dropSoleGuard =>
    let (r, s) := ofd s h 0 true false fails
    (r.map fun _ => true, s)
  | .tryFoldGate => Xlock.tryFoldGate s h fails
  | .releaseFoldGate | .dropFoldGuard => Xlock.releaseFoldGate s h fails
  | .unlock byte => ofd s h byte false true fails
  | .dropReadGuard => ofd s h 2 false true fails

/-- What a call is to take. -/
def Call.wants : Call → Option (LockByte × Mode)
  | .lockShared byte | .lockSharedWait byte => (LockByte.ofNat? byte).map (·, .shared)
  | .tryLockExclusive byte | .lockExclusiveWait byte => (LockByte.ofNat? byte).map (·, .exclusive)
  | .tryUpgradeSole => some (.live, .exclusive)
  | .restoreShared | .dropSoleGuard => some (.live, .shared)
  | .tryFoldGate => some (.read, .exclusive)
  | .releaseFoldGate | .unlock _ | .dropReadGuard | .dropFoldGuard => none

end Calls

/-- What the callers of a handle hold by the results they got: the modes of the first two
bytes, the statements in progress, and the fold gate. -/
structure Held where
  live : Mode
  write : Mode
  reads : Nat
  gate : Bool
deriving DecidableEq, Repr

def Held.nothing : Held := ⟨.none, .none, 0, false⟩

/-- A byte is taken. -/
def Held.take (held : Held) : LockByte → Mode → Held
  | .live, mode => ⟨mode, held.write, held.reads, held.gate⟩
  | .write, mode => ⟨held.live, mode, held.reads, held.gate⟩
  | .read, .exclusive => ⟨held.live, held.write, held.reads, true⟩
  | .read, _ => ⟨held.live, held.write, held.reads + 1, held.gate⟩

/-- A byte is released. -/
def Held.release (held : Held) : LockByte → Held
  | .live => ⟨.none, held.write, held.reads, held.gate⟩
  | .write => ⟨held.live, .none, held.reads, held.gate⟩
  | .read => ⟨held.live, held.write, held.reads - 1, held.gate⟩

/-- What the caller holds after a call with this result; a guard is gone when it is dropped,
and a byte when it is unlocked, whatever the kernel says. -/
def Held.after (held : Held) (call : Call) (result : Except Unit Bool) : Held :=
  match call with
  | .releaseFoldGate | .dropFoldGuard => ⟨held.live, held.write, held.reads, false⟩
  | .unlock byte =>
    match LockByte.ofNat? byte with
    | some b => held.release b
    | none => held
  | .dropReadGuard => held.release .read
  | _ =>
    match call.wants with
    | some (b, mode) => if result = .ok true then held.take b mode else held
    | none => held

/-- The handles and what their callers hold. -/
structure Sys (H : Type) where
  handles : Handles H
  held : H → Held

def Sys.opened : Sys H := ⟨.opened, fun _ => .nothing⟩

variable [DecidableEq H] [Fintype H]

def Sys.next (s : Sys H) (h : H) (call : Call) (fails : Bool) : Except Unit Bool × Sys H :=
  let (result, handles) := s.handles.call h call fails
  (result, ⟨handles, Function.update s.held h ((s.held h).after call result)⟩)

/-- One call of one handle; whether its request fails is up to the kernel. -/
def Step (s : Sys H) (call : H × Call) (result : Except Unit Bool) (after : Sys H) : Prop :=
  ∃ fails, s.next call.1 call.2 fails = (result, after)

end RustSql.Storage.Xlock
