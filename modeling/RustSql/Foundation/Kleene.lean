import Mathlib.Data.Bool.Basic

/-! Strong three-valued logic over `Option Bool`, with `none` the unknown, and the
two tests jump code makes of a condition: does it leave by its false exit, or by
its true exit, when the caller says where an unknown goes? -/

namespace RustSql.Foundation.Kleene

def and : Option Bool → Option Bool → Option Bool
  | some false, _ | _, some false => some false
  | some true, some true => some true
  | _, _ => none

def or : Option Bool → Option Bool → Option Bool
  | some true, _ | _, some true => some true
  | some false, some false => some false
  | _, _ => none

def not (truth : Option Bool) : Option Bool := truth.map (!·)

/-- The false exit is taken: the condition is false, or unknown and `onNull`. -/
def fails (truth : Option Bool) (onNull : Bool) : Bool := truth.elim onNull (!·)

/-- The true exit is taken: the condition is true, or unknown and `onNull`. -/
def holds (truth : Option Bool) (onNull : Bool) : Bool := truth.elim onNull id

theorem fails_eq_true_iff (truth : Option Bool) (onNull : Bool) :
    fails truth onNull = true ↔ truth = some false ∨ truth = none ∧ onNull = true := by
  rcases truth with _ | _ | _ <;> simp [fails]

theorem holds_eq_true_iff (truth : Option Bool) (onNull : Bool) :
    holds truth onNull = true ↔ truth = some true ∨ truth = none ∧ onNull = true := by
  rcases truth with _ | _ | _ <;> simp [holds]

theorem and_comm (a b : Option Bool) : and a b = and b a := by
  rcases a with _ | _ | _ <;> rcases b with _ | _ | _ <;> rfl

theorem or_comm (a b : Option Bool) : or a b = or b a := by
  rcases a with _ | _ | _ <;> rcases b with _ | _ | _ <;> rfl

theorem or_assoc (a b c : Option Bool) : or (or a b) c = or a (or b c) := by
  rcases a with _ | _ | _ <;> rcases b with _ | _ | _ <;> rcases c with _ | _ | _ <;> rfl

@[simp] theorem and_self (a : Option Bool) : and a a = a := by
  rcases a with _ | _ | _ <;> rfl

@[simp] theorem true_and (a : Option Bool) : and (some true) a = a := by
  rcases a with _ | _ | _ <;> rfl

@[simp] theorem and_true (a : Option Bool) : and a (some true) = a := by
  rw [and_comm, true_and]

@[simp] theorem false_and (a : Option Bool) : and (some false) a = some false := by
  rcases a with _ | _ | _ <;> rfl

@[simp] theorem and_false (a : Option Bool) : and a (some false) = some false := by
  rw [and_comm, false_and]

@[simp] theorem false_or (a : Option Bool) : or (some false) a = a := by
  rcases a with _ | _ | _ <;> rfl

@[simp] theorem or_false (a : Option Bool) : or a (some false) = a := by
  rw [or_comm, false_or]

@[simp] theorem true_or (a : Option Bool) : or (some true) a = some true := by
  rcases a with _ | _ | _ <;> rfl

@[simp] theorem or_true (a : Option Bool) : or a (some true) = some true := by
  rw [or_comm, true_or]

/-- A conjunction fails as soon as one operand does. -/
theorem fails_and (a b : Option Bool) (onNull : Bool) :
    fails (and a b) onNull = if fails a onNull then true else fails b onNull := by
  rcases a with _ | _ | _ <;> rcases b with _ | _ | _ <;> cases onNull <;> rfl

/-- A conjunction holds when its first operand does not fail, an unknown counting
the other way there, and its second holds. -/
theorem holds_and (a b : Option Bool) (onNull : Bool) :
    holds (and a b) onNull = if fails a !onNull then false else holds b onNull := by
  rcases a with _ | _ | _ <;> rcases b with _ | _ | _ <;> cases onNull <;> rfl

theorem fails_or (a b : Option Bool) (onNull : Bool) :
    fails (or a b) onNull = if holds a !onNull then false else fails b onNull := by
  rcases a with _ | _ | _ <;> rcases b with _ | _ | _ <;> cases onNull <;> rfl

theorem holds_or (a b : Option Bool) (onNull : Bool) :
    holds (or a b) onNull = if holds a onNull then true else holds b onNull := by
  rcases a with _ | _ | _ <;> rcases b with _ | _ | _ <;> cases onNull <;> rfl

@[simp] theorem fails_not (a : Option Bool) (onNull : Bool) :
    fails (not a) onNull = holds a onNull := by
  rcases a with _ | _ | _ <;> cases onNull <;> rfl

@[simp] theorem holds_not (a : Option Bool) (onNull : Bool) :
    holds (not a) onNull = fails a onNull := by
  rcases a with _ | _ | _ <;> cases onNull <;> rfl

end RustSql.Foundation.Kleene
