import Mathlib

/-! Machines that read one symbol at a time and write some for each. What is written for
an input is cut where the input is cut, so two inputs that differ in one place can be
compared from the mode in which that place is reached. -/
namespace Dbsec

structure Transducer (Mode Input Output : Type) where
  next : Mode → Input → Mode
  emit : Mode → Input → List Output

namespace Transducer
variable {Mode Input Output : Type} (machine : Transducer Mode Input Output)

def mode (start : Mode) (input : List Input) : Mode := input.foldl machine.next start

def output : Mode → List Input → List Output
  | _, [] => []
  | start, first :: rest => machine.emit start first ++ output (machine.next start first) rest

theorem mode_append (start : Mode) (left right : List Input) :
    machine.mode start (left ++ right) = machine.mode (machine.mode start left) right :=
  List.foldl_append

theorem output_append (start : Mode) (left right : List Input) :
    machine.output start (left ++ right) =
      machine.output start left ++ machine.output (machine.mode start left) right := by
  induction left generalizing start with
  | nil => rfl
  | cons first rest ih =>
    simp only [List.cons_append, output, ih, List.append_assoc]
    rfl

/-- Two inputs between the same surroundings are told apart when they are from the mode
they are met in and leave the same mode behind. -/
theorem output_apart {start : Mode} {before left right : List Input} (after : List Input)
    (same : machine.mode (machine.mode start before) left =
      machine.mode (machine.mode start before) right)
    (apart : machine.output (machine.mode start before) left ≠
      machine.output (machine.mode start before) right) :
    machine.output start (before ++ (left ++ after)) ≠
      machine.output start (before ++ (right ++ after)) := by
  simp only [output_append, same]
  intro equal
  exact apart (List.append_cancel_right (List.append_cancel_left equal))

theorem output_silent {start : Mode} {before hidden : List Input} (after : List Input)
    (kept : machine.mode (machine.mode start before) hidden = machine.mode start before)
    (silent : machine.output (machine.mode start before) hidden = []) :
    machine.output start (before ++ (hidden ++ after)) =
      machine.output start (before ++ after) := by
  simp only [output_append, kept, silent, List.nil_append]

end Transducer
end Dbsec
