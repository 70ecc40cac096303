import Mathlib.Logic.Relation

/-! Runs of a component whose calls meet a condition in the state they start from. -/

namespace RustSql.Foundation

universe u v w

variable {State : Type u} {Call : Type v} {Result : Type w}

/-- `Run step guard start calls state`: the calls lead from `start` to `state`, and each
meets `guard` where it is made. -/
inductive Run (step : State → Call → Result → State → Prop) (guard : State → Call → Prop)
    (start : State) : List Call → State → Prop where
  | refl : Run step guard start [] start
  | next {calls : List Call} {call : Call} {result : Result} {middle after : State} :
      Run step guard start calls middle → guard middle call → step middle call result after →
        Run step guard start (calls ++ [call]) after

namespace Run

variable {step : State → Call → Result → State → Prop} {guard weaker : State → Call → Prop}

theorem mono {start state : State} {calls : List Call}
    (run : Run step guard start calls state)
    (implies : ∀ state call, guard state call → weaker state call) :
    Run step weaker start calls state := by
  induction run with
  | refl => exact .refl
  | next _ allowed stepped ih => exact ih.next (implies _ _ allowed) stepped

theorem trans {first second third : State} {calls more : List Call}
    (one : Run step guard first calls second) (two : Run step guard second more third) :
    Run step guard first (calls ++ more) third := by
  induction two with
  | refl => simpa using one
  | next _ allowed stepped ih =>
    rw [← List.append_assoc]
    exact ih.next allowed stepped

theorem single {start after : State} {call : Call} {result : Result}
    (allowed : guard start call) (stepped : step start call result after) :
    Run step guard start [call] after :=
  .next (Run.refl : Run step guard start [] start) allowed stepped

/-- What every guarded step preserves holds at the end of every guarded run. -/
theorem invariant {start state : State} {calls : List Call}
    (run : Run step guard start calls state) (inv : State → Prop)
    (preserved : ∀ before call result after, inv before → guard before call →
      step before call result after → inv after)
    (initial : inv start) : inv state := by
  induction run with
  | refl => exact initial
  | next _ allowed stepped ih => exact preserved _ _ _ _ ih allowed stepped

/-- Each call meets the guard where `next` has led. -/
def Along (guard : State → Call → Prop) (next : State → Call → State) : State → List Call → Prop
  | _, [] => True
  | state, call :: rest => guard state call ∧ Along guard next (next state call) rest

/-- A component that can always go on runs through every list of calls it may make. -/
theorem of_along {next : State → Call → State}
    (steps : ∀ state call, ∃ result, step state call result (next state call)) {start : State}
    {calls : List Call} (along : Along guard next start calls) :
    Run step guard start calls (calls.foldl next start) := by
  induction calls generalizing start with
  | nil => exact .refl
  | cons call rest ih =>
    obtain ⟨allowed, later⟩ := along
    obtain ⟨result, stepped⟩ := steps start call
    exact (single allowed stepped).trans (ih later)

end Run

end RustSql.Foundation
