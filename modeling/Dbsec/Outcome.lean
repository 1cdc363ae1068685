import Mathlib

/-! When a fallible computation succeeds. Each rule turns the success of a sequence
into the success of its steps, so a proof about an accepting run can name every
intermediate value, and its failure into the first failure among them. -/
namespace Dbsec.Outcome

variable {ε α β : Type}

@[simp]
theorem bind_ok_iff {first : Except ε α} {next : α → Except ε β} {result : β} :
    (first >>= next) = .ok result ↔ ∃ value, first = .ok value ∧ next value = .ok result := by
  cases first <;> simp [bind, Except.bind]

@[simp]
theorem pure_ok_iff {value result : α} :
    (pure value : Except ε α) = .ok result ↔ value = result := by
  simp [pure, Except.pure]

@[simp]
theorem throw_ok_iff {failure : ε} {result : α} :
    (throw failure : Except ε α) = .ok result ↔ False := by
  simp [throw, throwThe, MonadExceptOf.throw]

@[simp]
theorem map_ok_iff {first : Except ε α} {f : α → β} {result : β} :
    first.map f = .ok result ↔ ∃ value, first = .ok value ∧ f value = result := by
  cases first <;> simp [Except.map]

@[simp]
theorem fmap_ok_iff {first : Except ε α} {f : α → β} {result : β} :
    (f <$> first) = .ok result ↔ ∃ value, first = .ok value ∧ f value = result :=
  map_ok_iff

theorem toOption_eq_some_iff {step : Except ε α} {value : α} :
    step.toOption = some value ↔ step = .ok value := by
  cases step <;> simp [Except.toOption]

end Dbsec.Outcome
