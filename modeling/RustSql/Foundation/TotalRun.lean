import Mathlib.Logic.Basic

/-! Correctness of computations with state and errors. A computation succeeds from a state
when it returns, and its result and final state satisfy the postcondition; it maintains a
property when the final state has it whether the computation returns or fails. -/

namespace RustSql.Foundation

universe u

variable {ε σ α β : Type u}

/-- The computation returns from `start`, in a state that satisfies `post`. -/
def Succeeds (computation : EStateM ε σ α) (start : σ) (post : α → σ → Prop) : Prop :=
  ∃ result final, computation start = .ok result final ∧ post result final

theorem ran_get (start : σ) : (EStateM.get : EStateM ε σ σ) start = .ok start start := rfl

theorem ran_modifyGet (change : σ → α × σ) (start : σ) :
    (EStateM.modifyGet change : EStateM ε σ α) start = .ok (change start).1 (change start).2 := rfl

namespace Succeeds

theorem mono {computation : EStateM ε σ α} {start : σ} {post weaker : α → σ → Prop}
    (run : Succeeds computation start post)
    (implies : ∀ result final, post result final → weaker result final) :
    Succeeds computation start weaker := by
  obtain ⟨result, final, returned, holds⟩ := run
  exact ⟨result, final, returned, implies result final holds⟩

@[simp]
theorem pure_iff (value : α) (start : σ) (post : α → σ → Prop) :
    Succeeds (pure value : EStateM ε σ α) start post ↔ post value start := by
  constructor
  · rintro ⟨_, _, returned, holds⟩
    cases returned
    exact holds
  · intro holds
    exact ⟨value, start, rfl, holds⟩

@[simp]
theorem get_iff (start : σ) (post : σ → σ → Prop) :
    Succeeds (get : EStateM ε σ σ) start post ↔ post start start := by
  constructor
  · rintro ⟨_, _, returned, holds⟩
    cases returned
    exact holds
  · intro holds
    exact ⟨start, start, rfl, holds⟩

@[simp]
theorem modify_iff (change : σ → σ) (start : σ) (post : PUnit → σ → Prop) :
    Succeeds (modify change : EStateM ε σ PUnit) start post ↔ post ⟨⟩ (change start) := by
  constructor
  · rintro ⟨_, _, returned, holds⟩
    cases returned
    exact holds
  · intro holds
    exact ⟨⟨⟩, change start, rfl, holds⟩

@[simp]
theorem throw_iff (error : ε) (start : σ) (post : α → σ → Prop) :
    Succeeds (throw error : EStateM ε σ α) start post ↔ False := by
  constructor
  · rintro ⟨_, _, returned, _⟩
    cases returned
  · exact False.elim

/-- Running two computations in sequence. -/
@[simp]
theorem bind_iff (first : EStateM ε σ α) (second : α → EStateM ε σ β) (start : σ)
    (post : β → σ → Prop) :
    Succeeds (first >>= second) start post ↔
      Succeeds first start (fun value middle => Succeeds (second value) middle post) := by
  constructor
  · rintro ⟨result, final, returned, holds⟩
    cases ran : first start with
    | ok value middle =>
      refine ⟨value, middle, ran, result, final, ?_, holds⟩
      simpa [bind, EStateM.bind, ran] using returned
    | error error middle => simp [bind, EStateM.bind, ran] at returned
  · rintro ⟨value, middle, ran, result, final, returned, holds⟩
    exact ⟨result, final, by simp [bind, EStateM.bind, ran, returned], holds⟩

@[simp]
theorem ite_iff (condition : Prop) [Decidable condition] (yes no : EStateM ε σ α) (start : σ)
    (post : α → σ → Prop) :
    Succeeds (if condition then yes else no) start post ↔
      (condition → Succeeds yes start post) ∧ (¬ condition → Succeeds no start post) := by
  by_cases holds : condition <;> simp [holds]

/-- Errors of another type. -/
theorem adaptExcept {δ : Type u} {f : ε → δ} {computation : EStateM ε σ α} {start : σ}
    {post : α → σ → Prop} (run : Succeeds computation start post) :
    Succeeds (EStateM.adaptExcept f computation) start post := by
  obtain ⟨result, final, returned, holds⟩ := run
  exact ⟨result, final, by simp [EStateM.adaptExcept, returned], holds⟩

end Succeeds

/-- Whether the computation returns or fails from `start`, its final state satisfies the
condition for that outcome. -/
def Meets (computation : EStateM ε σ α) (start : σ) (post : α → σ → Prop)
    (failed : σ → Prop) : Prop :=
  match computation start with
  | .ok result final => post result final
  | .error _ final => failed final

namespace Meets

variable {failed : σ → Prop}

theorem mono {computation : EStateM ε σ α} {start : σ} {post weaker : α → σ → Prop}
    {failed allowed : σ → Prop} (run : Meets computation start post failed)
    (implies : ∀ result final, post result final → weaker result final)
    (errors : ∀ final, failed final → allowed final) :
    Meets computation start weaker allowed := by
  unfold Meets at run ⊢
  cases ran : computation start with
  | ok result final =>
    rw [ran] at run
    exact implies result final run
  | error error final =>
    rw [ran] at run
    exact errors final run

theorem of_succeeds {computation : EStateM ε σ α} {start : σ} {post : α → σ → Prop}
    (run : Succeeds computation start post) : Meets computation start post failed := by
  obtain ⟨result, final, returned, holds⟩ := run
  unfold Meets
  rw [returned]
  exact holds

theorem returned {computation : EStateM ε σ α} {start final : σ} {result : α}
    {post : α → σ → Prop} (run : Meets computation start post failed)
    (ran : computation start = .ok result final) : post result final := by
  unfold Meets at run
  rwa [ran] at run

@[simp]
theorem pure_iff (value : α) (start : σ) (post : α → σ → Prop) :
    Meets (pure value : EStateM ε σ α) start post failed ↔ post value start := Iff.rfl

@[simp]
theorem get_iff (start : σ) (post : σ → σ → Prop) :
    Meets (get : EStateM ε σ σ) start post failed ↔ post start start := Iff.rfl

@[simp]
theorem modify_iff (change : σ → σ) (start : σ) (post : PUnit → σ → Prop) :
    Meets (modify change : EStateM ε σ PUnit) start post failed ↔ post ⟨⟩ (change start) :=
  Iff.rfl

@[simp]
theorem throw_iff (error : ε) (start : σ) (post : α → σ → Prop) :
    Meets (throw error : EStateM ε σ α) start post failed ↔ failed start := Iff.rfl

@[simp]
theorem bind_iff (first : EStateM ε σ α) (second : α → EStateM ε σ β) (start : σ)
    (post : β → σ → Prop) :
    Meets (first >>= second) start post failed ↔
      Meets first start (fun value middle => Meets (second value) middle post failed)
        failed := by
  unfold Meets
  simp only [bind, EStateM.bind]
  cases first start <;> rfl

@[simp]
theorem ite_iff (condition : Prop) [Decidable condition] (yes no : EStateM ε σ α) (start : σ)
    (post : α → σ → Prop) :
    Meets (if condition then yes else no) start post failed ↔
      (condition → Meets yes start post failed) ∧
        (¬ condition → Meets no start post failed) := by
  by_cases holds : condition <;> simp [holds]

end Meets

end RustSql.Foundation
