import Mathlib

/-! Loops that end. A loop is a step that goes on from a new state or stops with a result;
one that runs out of turns, or whose step fails, faults. A step that keeps an invariant
and a measure that it lowers are enough for the loop to stop where the goal says. -/
namespace Dbsec.Loops

inductive Fault where
  /-- An index or a slice outside what it is taken from, or a count below zero. -/
  | panic
  /-- The turns allowed to a loop were not enough for it. -/
  | spent
  deriving DecidableEq

inductive Turn (State Result : Type) where
  | again (state : State)
  | stop (result : Result)

variable {State Result : Type}

def loop (step : State → Except Fault (Turn State Result)) : Nat → State → Except Fault Result
  | 0, _ => .error .spent
  | turns + 1, state =>
    match step state with
    | .error fault => .error fault
    | .ok (.again next) => loop step turns next
    | .ok (.stop result) => .ok result

theorem loop_ends {step : State → Except Fault (Turn State Result)} (holds : State → Prop)
    (measure : State → Nat) {goal : Result → Prop}
    (body : ∀ state, holds state →
      (∃ next, step state = .ok (.again next) ∧ holds next ∧ measure next < measure state) ∨
        ∃ result, step state = .ok (.stop result) ∧ goal result)
    {turns : Nat} {state : State} (start : holds state) (enough : measure state < turns) :
    ∃ result, loop step turns state = .ok result ∧ goal result := by
  induction turns generalizing state with
  | zero => exact absurd enough (Nat.not_lt_zero _)
  | succ turns ih =>
    rcases body state start with ⟨next, taken, kept, lower⟩ | ⟨result, taken, reached⟩
    · obtain ⟨result, ran, reached⟩ := ih kept (by omega)
      exact ⟨result, by simp only [loop, taken, ran], reached⟩
    · exact ⟨result, by simp only [loop, taken], reached⟩

end Dbsec.Loops
