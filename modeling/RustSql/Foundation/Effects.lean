import Mathlib.Logic.Basic

/-! Computations on a state that can fail, and keep the state they fail in. -/

namespace RustSql.Foundation

abbrev Effect (σ ε α : Type) := EStateM ε σ α

namespace Effect

variable {σ ε α β γ : Type}

/-- The state at the end, of a success or a failure. -/
def final : EStateM.Result ε σ α → σ
  | .ok _ s => s
  | .error _ s => s

/-- The outcome as a value, for a caller that goes on after a failure. -/
def attempt (m : Effect σ ε α) : Effect σ ε (Except ε α) := fun s =>
  match m s with
  | .ok a s => .ok (.ok a) s
  | .error e s => .ok (.error e) s

/-- A call on the state that reports its outcome beside the new state. -/
def call (f : σ → Except ε α × σ) : Effect σ ε α := fun s =>
  match f s with
  | (.ok a, s) => .ok a s
  | (.error e, s) => .error e s

theorem final_call (f : σ → Except ε α × σ) (s : σ) : final (call f s) = (f s).2 := by
  rw [call]
  match f s with
  | (.ok a, s) => rfl
  | (.error e, s) => rfl

theorem bind_eq (m : Effect σ ε α) (next : α → Effect σ ε β) (s : σ) :
    (m >>= next) s = match m s with
      | .ok a s => next a s
      | .error e s => .error e s := by
  change EStateM.bind m next s = _
  rw [EStateM.bind]
  match m s with
  | .ok a s => rfl
  | .error e s => rfl

theorem bind_ok {m : Effect σ ε α} {next : α → Effect σ ε β} {s s' : σ} {b : β} :
    (m >>= next) s = .ok b s' ↔ ∃ a s₁, m s = .ok a s₁ ∧ next a s₁ = .ok b s' := by
  rw [bind_eq]
  constructor
  · intro done
    match first : m s with
    | .ok a s₁ =>
      rw [first] at done
      exact ⟨a, s₁, rfl, done⟩
    | .error e s₁ =>
      rw [first] at done
      cases done
  · rintro ⟨a, s₁, first, done⟩
    rw [first]
    exact done

/-- What a computation may do to the state, however many steps it takes. -/
structure Frame (rel : σ → σ → Prop) : Prop where
  refl (s : σ) : rel s s
  trans {s s₁ s₂ : σ} : rel s s₁ → rel s₁ s₂ → rel s s₂

/-- A computation stays in a frame, also when it fails. -/
def Within (rel : σ → σ → Prop) (m : Effect σ ε α) : Prop := ∀ s, rel s (final (m s))

section Rules

variable {rel : σ → σ → Prop} (frame : Frame rel)

include frame

theorem Frame.pure (a : α) : Within rel (pure a : Effect σ ε α) := fun s => frame.refl s

theorem Frame.throw (e : ε) : Within rel (throw e : Effect σ ε α) := fun s => frame.refl s

/-- What follows may rely on where its argument comes from. -/
theorem Frame.bind_from {m : Effect σ ε α} {next : α → Effect σ ε β} (first : Within rel m)
    (later : ∀ s a s₁, m s = .ok a s₁ → Within rel (next a)) : Within rel (m >>= next) := by
  intro s
  have before := first s
  rw [bind_eq]
  match done : m s with
  | .ok a s₁ =>
    rw [done] at before
    exact frame.trans before (later s a s₁ done s₁)
  | .error e s₁ =>
    rw [done] at before
    exact before

theorem Frame.bind {m : Effect σ ε α} {next : α → Effect σ ε β} (first : Within rel m)
    (later : ∀ a, Within rel (next a)) : Within rel (m >>= next) :=
  frame.bind_from first fun _ a _ _ => later a

omit frame in
theorem Within.modify {f : σ → σ} (step : ∀ s, rel s (f s)) :
    Within rel (modify f : Effect σ ε PUnit) := step

omit frame in
theorem Within.get {next : σ → Effect σ ε α} (later : ∀ s, Within rel (next s)) :
    Within rel (get >>= next : Effect σ ε α) := fun s => later s s

omit frame in
theorem Within.call {f : σ → Except ε α × σ} (step : ∀ s, rel s (f s).2) : Within rel (call f) := by
  intro s
  rw [final_call]
  exact step s

omit frame in
theorem Within.attempt {m : Effect σ ε α} (steps : Within rel m) : Within rel (attempt m) := by
  intro s
  have before := steps s
  unfold Effect.attempt
  match done : m s with
  | .ok a s₁ =>
    rw [done] at before
    exact before
  | .error e s₁ =>
    rw [done] at before
    exact before

theorem Frame.forM {xs : List α} {m : α → Effect σ ε PUnit} (each : ∀ x ∈ xs, Within rel (m x)) :
    Within rel (xs.forM m) := by
  induction xs with
  | nil => exact frame.pure _
  | cons x xs ih =>
    exact frame.bind (each x List.mem_cons_self) fun _ =>
      ih fun y member => each y (List.mem_cons_of_mem _ member)

end Rules

/-- A computation within a frame, at its end. -/
theorem Within.ok {rel : σ → σ → Prop} {m : Effect σ ε α} (steps : Within rel m) {s s' : σ} {a : α}
    (done : m s = .ok a s') : rel s s' := by
  have last := steps s
  rw [done] at last
  exact last

theorem Within.error {rel : σ → σ → Prop} {m : Effect σ ε α} (steps : Within rel m) {s s' : σ} {e : ε}
    (done : m s = .error e s') : rel s s' := by
  have last := steps s
  rw [done] at last
  exact last

end Effect

end RustSql.Foundation
