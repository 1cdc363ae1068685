import Dbsec.Reachable

/-! Programs that await calls on something shared, any number of them at once. What a
program has left to do is an answer, or one call and how it goes on after each reply.
Between two of its calls the others may do whatever a `rely` relation allows. A program
`Meets` a goal when its own calls stay within that relation, whatever the others do, and it
ends as the goal says; then so does every program of every interleaving. -/
namespace Dbsec.Calls

/-- The calls there are and what each is answered with. -/
structure Interface where
  Call : Type
  Reply : Call → Type

inductive Program (interface : Interface) (Result : Type) where
  | done (result : Result)
  | call (request : interface.Call) (next : interface.Reply request → Program interface Result)

variable {interface : Interface} {Result Next : Type}

def Program.bind : Program interface Result → (Result → Program interface Next) →
    Program interface Next
  | .done result, next => next result
  | .call request rest, next => .call request fun reply => (rest reply).bind next

instance : Monad (Program interface) where
  pure := .done
  bind := Program.bind

def Program.ask (request : interface.Call) : Program interface (interface.Reply request) :=
  .call request .done

structure Exchange (interface : Interface) where
  request : interface.Call
  reply : interface.Reply request

/-- One program at work: what it was started for, its calls so far and what is left. -/
structure Task (interface : Interface) (Label Result : Type) where
  label : Label
  history : List (Exchange interface)
  program : Program interface Result

/-- The tasks and what they share. `Fate` decides how a call turns out, `Drift` what
happens to the shared state between calls. -/
structure Machine (interface : Interface) (Label Result Shared Fate Drift : Type) where
  code : Label → Program interface Result
  serve : Shared → (request : interface.Call) → Fate → Shared × interface.Reply request
  drift : Shared → Drift → Shared

structure State (interface : Interface) (Label Result Shared : Type) where
  shared : Shared
  tasks : List (Task interface Label Result)

inductive Event (Label Fate Drift : Type) where
  | start (label : Label)
  | advance (task : Nat) (fate : Fate)
  | drift (drift : Drift)

variable {Label Shared Fate Drift : Type}

/-- A task's next call, carried out; a task that is done stays as it is. -/
def Task.served
    (serve : Shared → (request : interface.Call) → Fate → Shared × interface.Reply request)
    (shared : Shared) (fate : Fate) (task : Task interface Label Result) :
    Shared × Task interface Label Result :=
  match task.program with
  | .done _ => (shared, task)
  | .call request next =>
    let (shared, reply) := serve shared request fate
    (shared, ⟨task.label, task.history ++ [⟨request, reply⟩], next reply⟩)

def Machine.next (machine : Machine interface Label Result Shared Fate Drift)
    (state : State interface Label Result Shared) :
    Event Label Fate Drift → State interface Label Result Shared
  | .start label => { state with tasks := state.tasks ++ [⟨label, [], machine.code label⟩] }
  | .advance place fate =>
    match state.tasks[place]? with
    | none => state
    | some task =>
      let (shared, task) := task.served machine.serve state.shared fate
      ⟨shared, state.tasks.set place task⟩
  | .drift drift => { state with shared := machine.drift state.shared drift }

def Machine.Step (machine : Machine interface Label Result Shared Fate Drift)
    (before : State interface Label Result Shared) (event : Event Label Fate Drift)
    (after : State interface Label Result Shared) : Prop := after = machine.next before event

theorem reachable_events (machine : Machine interface Label Result Shared Fate Drift)
    (start : State interface Label Result Shared) (events : List (Event Label Fate Drift)) :
    Reachable machine.Step unrestricted start (events.foldl machine.next start) := by
  induction events using List.reverseRecOn with
  | nil => exact .start
  | append_singleton init event ih =>
    rw [List.foldl_append]
    exact ih.step trivial rfl

section Rely

variable (machine : Machine interface Label Result Shared Fate Drift)
  (rely : Shared → Shared → Prop) (holds : Shared → Prop)

def Meets {Result : Type} (goal : Shared → Result → Prop) : Program interface Result → Shared → Prop
  | .done result, shared => goal shared result
  | .call request next, shared => ∀ later, rely shared later → holds later → ∀ fate,
      rely later (machine.serve later request fate).1 ∧
        Meets goal (next (machine.serve later request fate).2) (machine.serve later request fate).1

variable {shared : Shared} {First Answer : Type}

theorem Meets.bind {machine : Machine interface Label Result Shared Fate Drift}
    {rely : Shared → Shared → Prop} {holds : Shared → Prop} {goal : Shared → Answer → Prop}
    {first : Program interface First} {rest : First → Program interface Answer}
    (meets : Meets machine rely holds
      (fun later value => Meets machine rely holds goal (rest value) later)
      first shared) : Meets machine rely holds goal (first.bind rest) shared := by
  induction first generalizing shared with
  | done value => exact meets
  | call request next ih =>
    intro later within sound fate
    obtain ⟨also, goes⟩ := meets later within sound fate
    exact ⟨also, ih _ goes⟩

theorem Meets.weaken {machine : Machine interface Label Result Shared Fate Drift}
    {rely : Shared → Shared → Prop} {holds : Shared → Prop} {goal weaker : Shared → Answer → Prop}
    (follows : ∀ shared result, goal shared result → weaker shared result)
    {program : Program interface Answer} (meets : Meets machine rely holds goal program shared) :
    Meets machine rely holds weaker program shared := by
  induction program generalizing shared with
  | done result => exact follows shared result meets
  | call request next ih =>
    intro later within sound fate
    obtain ⟨also, goes⟩ := meets later within sound fate
    exact ⟨also, ih _ goes⟩

theorem Meets.andThen {machine : Machine interface Label Result Shared Fate Drift}
    {rely : Shared → Shared → Prop} {holds : Shared → Prop} {Failure : Type}
    {goal : Shared → Except Failure Answer → Prop}
    {first : ExceptT Failure (Program interface) First}
    {rest : First → ExceptT Failure (Program interface) Answer}
    (meets : Meets machine rely holds (fun later reply =>
      match reply with
      | .ok value => Meets machine rely holds goal (rest value).run later
      | .error failure => goal later (.error failure)) first.run shared) :
    Meets machine rely holds goal (first >>= rest).run shared := by
  apply Meets.bind
  apply meets.weaken
  intro later reply goes
  cases reply with
  | ok value => exact goes
  | error failure => exact goes

/-- What makes the relation one that all tasks can rely on. -/
structure Reliable (goal : Label → Shared → Result → Prop) : Prop where
  reflexive : ∀ shared, rely shared shared
  transitive : ∀ {first second third}, rely first second → rely second third → rely first third
  keeps : ∀ {before after}, rely before after → holds before → holds after
  stable : ∀ {label before after result}, rely before after → goal label before result →
    goal label after result
  drifts : ∀ {shared} drift, holds shared → rely shared (machine.drift shared drift)
  starts : ∀ label shared, Meets machine rely holds (goal label) (machine.code label) shared

variable {machine rely holds} {goal : Label → Shared → Result → Prop}

theorem Meets.later (reliable : Reliable machine rely holds goal) {label : Label}
    {program : Program interface Result} {later : Shared} (allowed : rely shared later)
    (meets : Meets machine rely holds (goal label) program shared) :
    Meets machine rely holds (goal label) program later := by
  cases program with
  | done result => exact reliable.stable allowed meets
  | call request next =>
    intro after further
    exact meets after (reliable.transitive allowed further)

/-- Everything true of a state that the rule carries along a run. -/
def Met (machine : Machine interface Label Result Shared Fate Drift) (rely : Shared → Shared → Prop)
    (holds : Shared → Prop) (goal : Label → Shared → Result → Prop)
    (state : State interface Label Result Shared) : Prop :=
  holds state.shared ∧
    ∀ task ∈ state.tasks, Meets machine rely holds (goal task.label) task.program state.shared

theorem served_met (reliable : Reliable machine rely holds goal) (fate : Fate)
    {task : Task interface Label Result} (sound : holds shared)
    (meets : Meets machine rely holds (goal task.label) task.program shared) :
    rely shared (task.served machine.serve shared fate).1 ∧
      (task.served machine.serve shared fate).2.label = task.label ∧
      Meets machine rely holds (goal task.label) (task.served machine.serve shared fate).2.program
        (task.served machine.serve shared fate).1 := by
  obtain ⟨label, history, program⟩ := task
  cases program with
  | done result => exact ⟨reliable.reflexive shared, rfl, meets⟩
  | call request next =>
    obtain ⟨within, goes⟩ := meets shared (reliable.reflexive shared) sound fate
    exact ⟨within, rfl, goes⟩

theorem step_met (reliable : Reliable machine rely holds goal)
    {before after : State interface Label Result Shared} {event : Event Label Fate Drift}
    (met : Met machine rely holds goal before) (taken : machine.Step before event after) :
    rely before.shared after.shared ∧ Met machine rely holds goal after := by
  obtain ⟨sound, each⟩ := met
  obtain rfl := taken
  have others : ∀ {later : Shared}, rely before.shared later → ∀ task ∈ before.tasks,
      Meets machine rely holds (goal task.label) task.program later :=
    fun allowed task listed => Meets.later reliable allowed (each task listed)
  cases event with
  | start label =>
    refine ⟨reliable.reflexive _, sound, fun task listed => ?_⟩
    rcases List.mem_append.mp listed with old | new
    · exact each task old
    · obtain rfl := List.mem_singleton.mp new
      exact reliable.starts label _
  | advance place fate =>
    unfold Machine.next
    dsimp only
    cases found : before.tasks[place]? with
    | none => exact ⟨reliable.reflexive _, sound, each⟩
    | some task =>
      have listed := List.mem_of_getElem? found
      obtain ⟨within, same, goes⟩ := served_met reliable fate sound (each task listed)
      refine ⟨within, reliable.keeps within sound, fun other present => ?_⟩
      rcases List.mem_or_eq_of_mem_set present with old | rfl
      · exact others within other old
      · rw [same]
        exact goes
  | drift drift =>
    have within := reliable.drifts drift sound
    exact ⟨within, reliable.keeps within sound, others within⟩

/-- Every task of every interleaving meets its goal, and whatever happened since the start
is something all could rely on. -/
theorem run_met (reliable : Reliable machine rely holds goal) {start : Shared} (sound : holds start)
    {state : State interface Label Result Shared}
    (reached : Reachable machine.Step unrestricted ⟨start, []⟩ state) :
    rely start state.shared ∧ Met machine rely holds goal state := by
  apply reached.invariant
  · exact ⟨reliable.reflexive start, sound, nofun⟩
  · intro before event after carried _ taken
    obtain ⟨within, met⟩ := step_met reliable carried.2 taken
    exact ⟨reliable.transitive carried.1 within, met⟩

end Rely

section Guards

/-- No call is made but where its past allows it, and no end is reached but one its past
leads to. -/
def Guarded {Result : Type} (allowed : List (Exchange interface) → interface.Call → Prop)
    (ends : List (Exchange interface) → Result → Prop) :
    List (Exchange interface) → Program interface Result → Prop
  | past, .done result => ends past result
  | past, .call request next => allowed past request ∧
      ∀ reply, Guarded allowed ends (past ++ [⟨request, reply⟩]) (next reply)

variable {allowed : List (Exchange interface) → interface.Call → Prop}
  {past : List (Exchange interface)}

variable {First : Type} {ends : List (Exchange interface) → Result → Prop}

theorem Guarded.bind {first : Program interface First} {rest : First → Program interface Result}
    (guarded :
      Guarded allowed (fun past value => Guarded allowed ends past (rest value)) past first) :
    Guarded allowed ends past (first.bind rest) := by
  induction first generalizing past with
  | done value => exact guarded
  | call request next ih => exact ⟨guarded.1, fun reply => ih reply (guarded.2 reply)⟩

theorem Guarded.weaken {weaker : List (Exchange interface) → Result → Prop}
    (follows : ∀ past result, ends past result → weaker past result)
    {program : Program interface Result} (guarded : Guarded allowed ends past program) :
    Guarded allowed weaker past program := by
  induction program generalizing past with
  | done result => exact follows past result guarded
  | call request next ih => exact ⟨guarded.1, fun reply => ih reply (guarded.2 reply)⟩

theorem Guarded.andThen {Failure Answer : Type}
    {ends : List (Exchange interface) → Except Failure Answer → Prop}
    {first : ExceptT Failure (Program interface) First}
    {rest : First → ExceptT Failure (Program interface) Answer}
    (guarded : Guarded allowed (fun past reply =>
      match reply with
      | .ok value => Guarded allowed ends past (rest value).run
      | .error failure => ends past (.error failure)) past first.run) :
    Guarded allowed ends past (first >>= rest).run := by
  apply Guarded.bind
  apply guarded.weaken
  intro past reply goes
  cases reply with
  | ok value => exact goes
  | error failure => exact goes

def Allowed (allowed : List (Exchange interface) → interface.Call → Prop)
    (history : List (Exchange interface)) : Prop :=
  ∀ before exchange after, history = before ++ exchange :: after → allowed before exchange.request

theorem Allowed.snoc {allowed : List (Exchange interface) → interface.Call → Prop}
    {history : List (Exchange interface)} (so : Allowed allowed history) {request : interface.Call}
    (now : allowed history request) (reply : interface.Reply request) :
    Allowed allowed (history ++ [⟨request, reply⟩]) := by
  intro before exchange after split
  rcases List.eq_nil_or_concat after with rfl | ⟨init, last, rfl⟩
  · obtain ⟨rfl, same⟩ := List.append_inj' split rfl
    cases same
    exact now
  · rw [List.concat_eq_append, ← List.cons_append, ← List.append_assoc] at split
    exact so before exchange init (List.append_inj' split rfl).1

theorem run_guarded {machine : Machine interface Label Result Shared Fate Drift}
    {allowed : Label → List (Exchange interface) → interface.Call → Prop}
    {ends : Label → List (Exchange interface) → Result → Prop}
    (guarded : ∀ label, Guarded (allowed label) (ends label) [] (machine.code label))
    {start : Shared} {state : State interface Label Result Shared}
    (reached : Reachable machine.Step unrestricted ⟨start, []⟩ state) :
    ∀ task ∈ state.tasks, Allowed (allowed task.label) task.history ∧
      Guarded (allowed task.label) (ends task.label) task.history task.program := by
  apply reached.invariant
  · exact nofun
  · intro before event after each _ taken
    obtain rfl := taken
    cases event with
    | start label =>
      intro task listed
      rcases List.mem_append.mp listed with old | new
      · exact each task old
      · obtain rfl := List.mem_singleton.mp new
        refine ⟨fun before exchange after split => ?_, guarded label⟩
        exact absurd split (by simp)
    | advance place fate =>
      unfold Machine.next
      dsimp only
      cases found : before.tasks[place]? with
      | none => exact each
      | some task =>
        intro other present
        rcases List.mem_or_eq_of_mem_set present with old | rfl
        · exact each other old
        · have mine := each task (List.mem_of_getElem? found)
          obtain ⟨label, history, program⟩ := task
          cases program with
          | done result => exact mine
          | call request next =>
            obtain ⟨so, now, further⟩ := mine
            exact ⟨so.snoc now _, further _⟩
    | drift drift => exact each

end Guards

end Dbsec.Calls
