import Mathlib.Data.List.Basic
import Mathlib.Data.List.Forall2
import Mathlib.Data.Nat.Bitwise

/-! Computations over machine words and slices that report errors or panic. -/

namespace RustSql.Foundation

/-- Why a computation has no result: an error of its own, or a panic. -/
inductive Fault (ε : Type) where
  | reported (error : ε)
  | overflow
  | slice
  | assertion
deriving DecidableEq, Repr

abbrev Checked (ε α : Type) := Except (Fault ε) α

namespace Checked

variable {ε δ α β : Type}

def fail (error : ε) : Checked ε α := .error (.reported error)

/-- An addition of `usize`s. -/
def add (a b : Nat) : Checked ε Nat := if a + b < 2 ^ 64 then .ok (a + b) else .error .overflow

/-- A subtraction of `usize`s. -/
def sub (a b : Nat) : Checked ε Nat := if b ≤ a then .ok (a - b) else .error .overflow

/-- A debug assertion. -/
def assert (holds : Bool) : Checked ε Unit := if holds then .ok () else .error .assertion

/-- `&xs[start..]`. -/
def sliceFrom (xs : List α) (start : Nat) : Checked ε (List α) :=
  if start ≤ xs.length then .ok (xs.drop start) else .error .slice

/-- `&xs[start..stop]`. -/
def sliceRange (xs : List α) (start stop : Nat) : Checked ε (List α) :=
  if start ≤ stop ∧ stop ≤ xs.length then .ok ((xs.drop start).take (stop - start))
  else .error .slice

/-- `xs[i]`. -/
def get (xs : List α) (i : Nat) : Checked ε α :=
  match xs[i]? with
  | some x => .ok x
  | none => .error .slice

/-- `map_err`. -/
def mapError (f : ε → δ) : Checked ε α → Checked δ α
  | .ok a => .ok a
  | .error (.reported error) => .error (.reported (f error))
  | .error .overflow => .error .overflow
  | .error .slice => .error .slice
  | .error .assertion => .error .assertion

/-- `ok()`. -/
def attempt : Checked ε α → Checked δ (Option α)
  | .ok a => .ok (some a)
  | .error (.reported _) => .ok none
  | .error .overflow => .error .overflow
  | .error .slice => .error .slice
  | .error .assertion => .error .assertion

/-- A result that is no panic. -/
inductive Safe : Checked ε α → Prop
  | ok (a : α) : Safe (.ok a)
  | reported (error : ε) : Safe (.error (.reported error))

@[simp] theorem safe_ok (a : α) : @Safe ε α (.ok a) := .ok a

@[simp] theorem safe_fail (error : ε) : @Safe ε α (fail error) := .reported error

@[simp] theorem not_safe_overflow : ¬ @Safe ε α (.error .overflow) := nofun

@[simp] theorem not_safe_slice : ¬ @Safe ε α (.error .slice) := nofun

@[simp] theorem not_safe_assertion : ¬ @Safe ε α (.error .assertion) := nofun

variable {result : Checked ε α} {next : α → Checked ε β}

theorem safe_bind : Safe (result >>= next) ↔ Safe result ∧ ∀ a, result = .ok a → Safe (next a) := by
  cases result with
  | ok a => exact ⟨fun safe => ⟨.ok a, fun _ same => by cases same; exact safe⟩,
      fun both => both.2 a rfl⟩
  | error fault =>
    refine ⟨fun safe => ⟨?_, nofun⟩, fun both => ?_⟩
    · cases safe
      exact .reported _
    · obtain ⟨stopped, _⟩ := both
      cases stopped
      exact .reported _

theorem bind_ok_iff {b : β} : result >>= next = .ok b ↔ ∃ a, result = .ok a ∧ next a = .ok b := by
  cases result with
  | ok a => exact ⟨fun done => ⟨a, rfl, done⟩, fun ⟨_, same, done⟩ => by cases same; exact done⟩
  | error fault => exact ⟨nofun, fun ⟨_, same, _⟩ => by cases same⟩

theorem ok_bind {a : α} : (Except.ok a >>= next) = next a := rfl

@[simp] theorem safe_mapError {f : ε → δ} : Safe (mapError f result) ↔ Safe result := by
  match result with
  | .ok a => simp [mapError]
  | .error (.reported error) => exact ⟨fun _ => .reported error, fun _ => .reported (f error)⟩
  | .error .overflow => simp [mapError]
  | .error .slice => simp [mapError]
  | .error .assertion => simp [mapError]

@[simp] theorem mapError_eq_ok {f : ε → δ} {a : α} :
    mapError f result = .ok a ↔ result = .ok a := by
  match result with
  | .ok _ => simp [mapError]
  | .error (.reported _) | .error .overflow | .error .slice | .error .assertion => exact ⟨nofun, nofun⟩

@[simp] theorem safe_add {a b : Nat} : Safe (@add ε a b) ↔ a + b < 2 ^ 64 := by
  unfold add
  split <;> simp_all

@[simp] theorem add_eq_ok {a b c : Nat} : @add ε a b = .ok c ↔ a + b < 2 ^ 64 ∧ a + b = c := by
  unfold add
  split
  next inside => simp only [Except.ok.injEq, inside, true_and]
  next beyond => exact ⟨nofun, fun both => absurd both.1 beyond⟩

variable {xs : List α}

/-- A loop without a fault has each result of its body. -/
theorem forall₂_mapM {f : α → Checked ε β} {ys : List β} (done : xs.mapM f = .ok ys) :
    List.Forall₂ (fun x y => f x = .ok y) xs ys := by
  induction xs generalizing ys with
  | nil =>
    cases done
    exact .nil
  | cons x xs ih =>
    rw [List.mapM_cons] at done
    obtain ⟨y, head, done⟩ := bind_ok_iff.mp done
    obtain ⟨rest, tail, done⟩ := bind_ok_iff.mp done
    cases done
    exact .cons head (ih tail)

theorem add_ok {a b : Nat} (inside : a + b < 2 ^ 64) : @add ε a b = .ok (a + b) := if_pos inside

@[simp] theorem safe_sliceFrom {start : Nat} :
    Safe (@sliceFrom ε α xs start) ↔ start ≤ xs.length := by
  unfold sliceFrom
  split <;> simp_all

@[simp] theorem sliceFrom_eq_ok {xs ys : List α} {start : Nat} :
    @sliceFrom ε α xs start = .ok ys ↔ start ≤ xs.length ∧ xs.drop start = ys := by
  unfold sliceFrom
  split
  next inside => simp [inside]
  next beyond => exact ⟨nofun, fun both => absurd both.1 beyond⟩

theorem sliceFrom_ok {start : Nat} (inside : start ≤ xs.length) :
    @sliceFrom ε α xs start = .ok (xs.drop start) := if_pos inside

theorem sliceRange_ok {start stop : Nat} (forward : start ≤ stop) (inside : stop ≤ xs.length) :
    @sliceRange ε α xs start stop = .ok ((xs.drop start).take (stop - start)) :=
  if_pos ⟨forward, inside⟩

@[simp] theorem safe_get {i : Nat} : Safe (@get ε α xs i) ↔ i < xs.length := by
  unfold get
  split
  next x found =>
    obtain ⟨inside, _⟩ := List.getElem?_eq_some_iff.mp found
    simp [inside]
  next missing => simpa using List.getElem?_eq_none_iff.mp missing

@[simp] theorem get_eq_ok {i : Nat} {x : α} : @get ε α xs i = .ok x ↔ xs[i]? = some x := by
  unfold get
  split <;> simp_all

end Checked

end RustSql.Foundation
