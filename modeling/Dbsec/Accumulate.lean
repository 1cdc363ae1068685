import Mathlib

/-! Fallible passes that carry an accumulator. A pass rewrites a value in place and
says whether it changed it; the accumulator only ever grows. The rules here take a
successful pass apart into its steps and show growth step by step, over any
accumulator with a preorder. -/
namespace Dbsec.Accumulate

variable {State Failure Value Result : Type}

section Success
variable {start final : State}

@[simp]
theorem bind_run_iff {first : StateT State (Except Failure) Value}
    {next : Value → StateT State (Except Failure) Result} {result : Result} :
    (first >>= next) start = .ok (result, final) ↔
      ∃ value middle, first start = .ok (value, middle) ∧
        next value middle = .ok (result, final) := by
  simp only [bind, StateT.bind, Except.bind]
  cases first start with
  | error failure => simp
  | ok pair =>
    obtain ⟨value, middle⟩ := pair
    simp

@[simp]
theorem pure_run_iff {value result : Value} :
    (pure value : StateT State (Except Failure) Value) start = .ok (result, final) ↔
      value = result ∧ start = final := by
  simp [pure, StateT.pure, Except.pure]

theorem pure_pair {value result : Value} {flag changed : Result}
    (ran : (pure (value, flag) : StateT State (Except Failure) (Value × Result)) start =
      .ok ((result, changed), final)) :
    value = result ∧ flag = changed ∧ start = final := by
  obtain ⟨same, kept⟩ := pure_run_iff.mp ran
  obtain ⟨values, flags⟩ := Prod.mk.inj same
  exact ⟨values, flags, kept⟩

section Wrapped
variable {Other Out : Type} {out : Out}

theorem wrap_run {pass : StateT State (Except Failure) (Value × Result)} {wrap : Value → Out}
    {changed : Result}
    (ran : (do
      let (value, flag) ← pass
      return (wrap value, flag)) start = .ok ((out, changed), final)) :
    ∃ value, wrap value = out ∧ pass start = .ok ((value, changed), final) := by
  obtain ⟨⟨value, flag⟩, middle, here, done⟩ := bind_run_iff.mp ran
  obtain ⟨rfl, rfl, rfl⟩ := pure_pair done
  exact ⟨value, rfl, here⟩

theorem both_run {first : StateT State (Except Failure) (Value × Bool)}
    {second : StateT State (Except Failure) (Other × Bool)} {both : Value → Other → Out}
    {changed : Bool}
    (ran : (do
      let (value, flag) ← first
      let (other, later) ← second
      return (both value other, flag || later)) start = .ok ((out, changed), final)) :
    ∃ value flag other later middle, both value other = out ∧ (flag || later) = changed ∧
      first start = .ok ((value, flag), middle) ∧ second middle = .ok ((other, later), final) := by
  obtain ⟨⟨value, flag⟩, middle, here, more⟩ := bind_run_iff.mp ran
  obtain ⟨⟨other, later⟩, _, there, done⟩ := bind_run_iff.mp more
  obtain ⟨rfl, rfl, rfl⟩ := pure_pair done
  exact ⟨value, flag, other, later, middle, rfl, rfl, here, there⟩

end Wrapped

@[simp]
theorem lift_run_iff {step : Except Failure Value} {result : Value} :
    (StateT.lift step : StateT State (Except Failure) Value) start = .ok (result, final) ↔
      step = .ok result ∧ start = final := by
  simp only [StateT.lift, bind, Except.bind]
  cases step with
  | error failure => simp
  | ok value => simp [pure, Except.pure]

@[simp]
theorem monadLift_run_iff {step : Except Failure Value} {result : Value} :
    (monadLift step : StateT State (Except Failure) Value) start = .ok (result, final) ↔
      step = .ok result ∧ start = final :=
  lift_run_iff

end Success

/-- Every successful run leaves an accumulator at least as large. -/
def Grows [Preorder State] (run : StateT State (Except Failure) Value) : Prop :=
  ∀ start value final, run start = .ok (value, final) → start ≤ final

section Growth
variable [Preorder State]

theorem grows_pure (value : Value) : Grows (pure value : StateT State (Except Failure) Value) := by
  intro start result final ran
  obtain ⟨_, rfl⟩ := pure_run_iff.mp ran
  exact le_refl _

theorem grows_lift (step : Except Failure Value) :
    Grows (monadLift step : StateT State (Except Failure) Value) := by
  intro start result final ran
  obtain ⟨_, rfl⟩ := monadLift_run_iff.mp ran
  exact le_refl _

theorem Grows.bind {first : StateT State (Except Failure) Value}
    {next : Value → StateT State (Except Failure) Result} (before : Grows first)
    (after : ∀ value, Grows (next value)) : Grows (first >>= next) := by
  intro start result final ran
  obtain ⟨value, middle, led, followed⟩ := bind_run_iff.mp ran
  exact le_trans (before _ _ _ led) (after value _ _ _ followed)

end Growth

/-- Rewrites every element in order; the flag says whether any of them changed. -/
def rewriteEach (pass : Value → StateT State (Except Failure) (Value × Bool)) :
    List Value → StateT State (Except Failure) (List Value × Bool)
  | [] => pure ([], false)
  | value :: rest => do
      let (value, changed) ← pass value
      let (rest, later) ← rewriteEach pass rest
      return (value :: rest, changed || later)

def rewriteOption (pass : Value → StateT State (Except Failure) (Value × Bool)) :
    Option Value → StateT State (Except Failure) (Option Value × Bool)
  | none => pure (none, false)
  | some value => do
      let (value, changed) ← pass value
      return (some value, changed)

theorem rewriteOption_ok {pass : Value → StateT State (Except Failure) (Value × Bool)}
    {value rewritten : Option Value} {start final : State}
    {changed : Bool}
    (ran : rewriteOption pass value start = .ok ((rewritten, changed), final)) :
    (value = none ∧ rewritten = none ∧ changed = false ∧ start = final) ∨
      ∃ held result, value = some held ∧ rewritten = some result ∧
        pass held start = .ok ((result, changed), final) := by
  cases value with
  | none =>
    obtain ⟨rfl, rfl, rfl⟩ := pure_pair ran
    exact .inl ⟨rfl, rfl, rfl, rfl⟩
  | some held =>
    obtain ⟨result, rfl, here⟩ := wrap_run ran
    exact .inr ⟨held, result, rfl, rfl, here⟩

section Each
variable [Preorder State] {pass : Value → StateT State (Except Failure) (Value × Bool)}

theorem grows_rewriteEach (values : List Value) (each : ∀ value ∈ values, Grows (pass value)) :
    Grows (rewriteEach pass values) := by
  induction values with
  | nil => exact grows_pure _
  | cons value rest ih =>
    apply Grows.bind (each value (List.mem_cons_self ..))
    rintro ⟨rewritten, changed⟩
    apply Grows.bind (ih fun other listed => each other (List.mem_cons_of_mem _ listed))
    rintro ⟨tail, later⟩
    exact grows_pure _

theorem grows_rewriteOption (value : Option Value) (each : ∀ held ∈ value, Grows (pass held)) :
    Grows (rewriteOption pass value) := by
  cases value with
  | none => exact grows_pure _
  | some held =>
    apply Grows.bind (each held rfl)
    rintro ⟨rewritten, changed⟩
    exact grows_pure _

/-- What a pass over a list did, element by element: each was rewritten by the pass at
some accumulator, and an element that changed shows in the flag. -/
theorem rewriteEach_ok (grows : ∀ value, Grows (pass value)) {values rewritten : List Value}
    {start final : State} {changed : Bool}
    (ran : rewriteEach pass values start = .ok ((rewritten, changed), final)) :
    List.Forall₂ (fun value result => ∃ before flag after,
      pass value before = .ok ((result, flag), after) ∧ after ≤ final ∧
        (flag = true → changed = true)) values rewritten := by
  induction values generalizing rewritten start changed with
  | nil =>
    obtain ⟨rfl, rfl, _⟩ := pure_pair ran
    exact .nil
  | cons value rest ih =>
    obtain ⟨result, flag, tail, later, middle, rfl, rfl, here, there⟩ := both_run ran
    have tailGrows : middle ≤ final :=
      grows_rewriteEach rest (fun value _ => grows value) _ _ _ there
    refine .cons ⟨start, flag, middle, here, tailGrows, by simp +contextual⟩ ?_
    refine (ih there).imp ?_
    rintro _ _ ⟨before, flag', after, stepped, within, marked⟩
    exact ⟨before, flag', after, stepped, within, fun set => by simp [marked set]⟩

end Each

theorem forall₂_compose {First Second Third : Type} {left : First → Second → Prop}
    {right : Second → Third → Prop} {both : First → Third → Prop}
    (compose : ∀ first second third, left first second → right second third → both first third)
    {firsts : List First} {seconds : List Second} {thirds : List Third}
    (here : List.Forall₂ left firsts seconds) (there : List.Forall₂ right seconds thirds) :
    List.Forall₂ both firsts thirds := by
  induction here generalizing thirds with
  | nil => cases there; exact .nil
  | cons head _ ih =>
    cases there with
    | cons head' tail' => exact .cons (compose _ _ _ head head') (ih tail')

theorem forall₂_exists_right {First Second : Type} {relation : First → Second → Prop}
    {first : List First} {second : List Second} (each : List.Forall₂ relation first second)
    {left : First} (listed : left ∈ first) : ∃ right ∈ second, relation left right := by
  induction each with
  | nil => cases listed
  | cons related _ ih =>
    rcases List.mem_cons.mp listed with rfl | later
    · exact ⟨_, List.mem_cons_self, related⟩
    · obtain ⟨right, member, related⟩ := ih later
      exact ⟨right, List.mem_cons_of_mem _ member, related⟩

end Dbsec.Accumulate
