import Mathlib

/-! Runs of a step relation whose steps all meet a condition on the state they are
taken from. A safety claim is an invariant: it holds at the start and every
permitted step keeps it. -/
namespace Dbsec

variable {State Event : Type}

/-- The states reached from `start` by steps that the condition permits. -/
inductive Reachable (step : State → Event → State → Prop) (permitted : State → Event → Prop)
    (start : State) : State → Prop where
  | start : Reachable step permitted start start
  | step {before after : State} {event : Event} : Reachable step permitted start before →
      permitted before event → step before event after → Reachable step permitted start after

variable {step : State → Event → State → Prop} {permitted : State → Event → Prop}
  {start state : State}

theorem Reachable.invariant {holds : State → Prop} (initially : holds start)
    (preserved : ∀ before event after, holds before → permitted before event →
      step before event after → holds after) (reached : Reachable step permitted start state) :
        holds state := by
  induction reached with
  | start => exact initially
  | step _ allowed taken ih => exact preserved _ _ _ ih allowed taken

/-- Every step permitted: all runs of the relation. -/
def unrestricted : State → Event → Prop := fun _ _ => True

theorem Reachable.anyRun (reached : Reachable step permitted start state) :
    Reachable step unrestricted start state := by
  induction reached with
  | start => exact .start
  | step _ _ taken ih => exact ih.step trivial taken

end Dbsec
