import Dbsec.Portal
import Dbsec.Reachable

/-! Which statement the rows in flight belong to. The proxy of proxy/src/portal.rs is
run against a backend that answers in order, never fails, and gives a portal the
statement incarnation it was bound to at Bind time. The backend numbers its Parses
itself, without end; the proxy's ids are 64 bits wide. Since it never fails, the
incarnation a frame meets is fixed by the frames in front of it, so it is resolved
when the frame is sent. NoData is an answer that describes nothing. Portals survive
the Close of their statement here; a backend that drops them has fewer runs. -/
namespace Dbsec.Attribution
open Framing Params Portal Outcome

/-- A response the backend owes, with the incarnation it is about. -/
inductive Job where
  | describe (incarnation : Nat)
  | execute (incarnation : Nat) (formats : ResultFormats)
  deriving DecidableEq

inductive Answer (Positions : Type) where
  | description (incarnation : Nat) (positions : Positions)
  | row (incarnation : Nat) (formats : ResultFormats)
  | complete (incarnation : Nat) (formats : ResultFormats)

structure State (Positions : Type) where
  proxy : Tracked Positions Unit UInt64
  /-- How many Parses the backend has served. -/
  parsed : Nat
  /-- The backend's prepared statements and portals, by incarnation. -/
  statements : Table Bytes Nat
  portals : Table Bytes (Nat × ResultFormats)
  jobs : List Job
  outbox : List (Answer Positions)
  /-- Every description the backend has given so far. -/
  given : List (Nat × Positions)

inductive Event (Positions : Type) where
  | parse (name : Bytes) (params : ParamTransforms)
  | bind (portal statement : Bytes) (formats : ResultFormats)
  | closeStatement (name : Bytes)
  | closePortal (name : Bytes)
  | describe (target : Target) (name : Bytes)
  | execute (portal : Bytes)
  | answerDescribe (positions : Positions)
  | answerRow
  | answerComplete
  | read

variable {Positions : Type}

def State.init : State Positions := ⟨.new, 0, .empty, .empty, [], [], []⟩

def State.meets (state : State Positions) : Target → Bytes → Option Nat
  | .statement, name => state.statements.get name
  | .portal, name => (state.portals.get name).map Prod.fst

inductive Step : State Positions → Event Positions → State Positions → Prop where
  | parse {state : State Positions} {name params proxy}
      (accepted : state.proxy.parse name params = .ok proxy) :
      Step state (.parse name params)
        { state with
          proxy := proxy
          parsed := state.parsed + 1
          statements := state.statements.put name state.parsed }
  | bind {state : State Positions} {portal statement formats proxy params incarnation}
      (accepted : state.proxy.bind portal statement formats = .ok (proxy, params))
      (held : state.statements.get statement = some incarnation) :
      Step state (.bind portal statement formats)
        { state with proxy := proxy, portals := state.portals.put portal (incarnation, formats) }
  | closeStatement {state : State Positions} {name} :
      Step state (.closeStatement name)
        { state with
          proxy := state.proxy.closeStatement name
          statements := state.statements.remove name }
  | closePortal {state : State Positions} {name} :
      Step state (.closePortal name)
        { state with
          proxy := state.proxy.closePortal name
          portals := state.portals.remove name }
  | describe {state : State Positions} {target name proxy incarnation}
      (accepted : state.proxy.expectDescribe target name = .ok proxy)
      (met : state.meets target name = some incarnation) :
      Step state (.describe target name)
        { state with proxy := proxy, jobs := state.jobs ++ [.describe incarnation] }
  | execute {state : State Positions} {portal proxy incarnation formats}
      (accepted : state.proxy.expectExecute portal = .ok proxy)
      (met : state.portals.get portal = some (incarnation, formats)) :
      Step state (.execute portal)
        { state with proxy := proxy, jobs := state.jobs ++ [.execute incarnation formats] }
  | answerDescribe {state : State Positions} {incarnation rest positions}
      (next : state.jobs = .describe incarnation :: rest) :
      Step state (.answerDescribe positions)
        { state with
          jobs := rest
          outbox := state.outbox ++ [.description incarnation positions]
          given := (incarnation, positions) :: state.given }
  | answerRow {state : State Positions} {incarnation formats rest}
      (next : state.jobs = .execute incarnation formats :: rest) :
      Step state .answerRow { state with outbox := state.outbox ++ [.row incarnation formats] }
  | answerComplete {state : State Positions} {incarnation formats rest}
      (next : state.jobs = .execute incarnation formats :: rest) :
      Step state .answerComplete
        { state with jobs := rest, outbox := state.outbox ++ [.complete incarnation formats] }
  | readDescription {state : State Positions} {incarnation positions rest}
      (next : state.outbox = .description incarnation positions :: rest) :
      Step state .read
        { state with proxy := state.proxy.describeAnswered positions, outbox := rest }
  | readRow {state : State Positions} {incarnation formats rest}
      (next : state.outbox = .row incarnation formats :: rest) :
      Step state .read { state with outbox := rest }
  | readComplete {state : State Positions} {incarnation formats rest}
      (next : state.outbox = .complete incarnation formats :: rest) :
      Step state .read { state with proxy := state.proxy.executeAnswered, outbox := rest }

/-- On the backend, the name a portal was bound under has not been parsed again since. -/
def StillBound (state : State Positions) (portal : Bytes) : Prop :=
  ∀ bound current incarnation formats, state.proxy.portals.get portal = some bound →
    state.statements.get bound.statement = some current →
    state.portals.get portal = some (incarnation, formats) → current = incarnation

/-- Execute and Describe reach a portal only while its statement still is the one it
was bound to, and the proxy has an id left for every Parse. -/
def Undisturbed (state : State Positions) : Event Positions → Prop
  | .parse _ _ => state.parsed < 2 ^ 64
  | .execute portal => StillBound state portal
  | .describe .portal portal => StillBound state portal
  | _ => True

def Answer.settles : Answer Positions → Option Job
  | .description incarnation _ => some (.describe incarnation)
  | .row _ _ => none
  | .complete incarnation formats => some (.execute incarnation formats)

def owed (outbox : List (Answer Positions)) (jobs : List Job) : List Job :=
  outbox.filterMap Answer.settles ++ jobs

/-- Every unread row comes before the completion of its own Execute. -/
def RowsLead (jobs : List Job) : List (Answer Positions) → Prop
  | [] => True
  | .row incarnation formats :: rest =>
    (owed rest jobs).head? = some (.execute incarnation formats) ∧ RowsLead jobs rest
  | _ :: rest => RowsLead jobs rest

/-- A queue entry speaks about the incarnation the backend will answer for. -/
def Link (given : List (Nat × Positions)) : Pending Positions Unit UInt64 → Job → Prop
  | .describe none, .describe _ => True
  | .describe (some asked), .describe incarnation => asked.id.toNat = incarnation
  | .execute _ statement positions resultFormats, .execute incarnation formats =>
    (∀ id, statement = some id → id.toNat = incarnation ∧ resultFormats = formats) ∧
      ∀ description, positions = some description →
        statement.isSome ∧ (incarnation, description) ∈ given
  | _, _ => False

structure Attributed (state : State Positions) : Prop where
  counted : state.proxy.nextStatementId = UInt64.ofNat state.parsed
  statements : ∀ name,
    state.statements.get name = (state.proxy.statements.get name).map (·.id.toNat)
  described : ∀ name entry positions, state.proxy.statements.get name = some entry →
    entry.described = some positions → (entry.id.toNat, positions) ∈ state.given
  portals : ∀ portal bound, state.proxy.portals.get portal = some bound →
    ∃ incarnation, state.portals.get portal = some (incarnation, bound.resultFormats)
  queued : List.Forall₂ (Link state.given) state.proxy.pending (owed state.outbox state.jobs)
  rows : RowsLead state.jobs state.outbox
  reported : ∀ incarnation positions, .description incarnation positions ∈ state.outbox →
    (incarnation, positions) ∈ state.given

theorem owed_append (outbox : List (Answer Positions)) (answer : Answer Positions)
    (jobs : List Job) :
    owed (outbox ++ [answer]) jobs = owed outbox (answer.settles.toList ++ jobs) := by
  cases settled : answer.settles <;>
    simp [owed, List.filterMap_append, settled]

variable {outbox : List (Answer Positions)} {answer : Answer Positions} {jobs : List Job}

theorem rowsLead_append (leads : RowsLead (answer.settles.toList ++ jobs) outbox)
    (own : ∀ incarnation formats, answer = .row incarnation formats →
      jobs.head? = some (.execute incarnation formats)) :
    RowsLead jobs (outbox ++ [answer]) := by
  induction outbox with
  | nil =>
    cases answer with
    | row incarnation formats => exact ⟨own incarnation formats rfl, trivial⟩
    | description _ _ => trivial
    | complete _ _ => trivial
  | cons first rest ih =>
    cases first with
    | row incarnation formats =>
      exact ⟨(congrArg List.head? (owed_append rest answer jobs)).trans leads.1, ih leads.2⟩
    | description _ _ => exact ih leads
    | complete _ _ => exact ih leads

theorem rowsLead_job (job : Job) (leads : RowsLead jobs outbox) :
    RowsLead (jobs ++ [job]) outbox := by
  induction outbox with
  | nil => trivial
  | cons first rest ih =>
    cases first with
    | row incarnation formats =>
      refine ⟨?_, ih leads.2⟩
      rw [owed, ← List.append_assoc, List.head?_append]
      rw [show rest.filterMap Answer.settles ++ jobs = owed rest jobs from rfl, leads.1]
      rfl
    | description _ _ => exact ih leads
    | complete _ _ => exact ih leads

variable {given : List (Nat × Positions)}

theorem link_mono {given' : List (Nat × Positions)} (grown : given ⊆ given')
    (pending : Pending Positions Unit UInt64) (job : Job) (linked : Link given pending job) :
    Link given' pending job := by
  cases pending with
  | describe asked => cases asked <;> cases job <;> exact linked
  | batch mark => cases job <;> exact linked
  | execute id statement positions formats =>
    cases job with
    | describe _ => exact linked
    | execute incarnation _ =>
      refine ⟨linked.1, ?_⟩
      intro description held
      exact ⟨(linked.2 description held).1, grown (linked.2 description held).2⟩

theorem attributed_init : Attributed (State.init : State Positions) where
  counted := rfl
  statements := by intro name; rfl
  described := by intro name entry positions held; cases held
  portals := by intro portal bound held; cases held
  queued := .nil
  rows := trivial
  reported := by intro incarnation positions listed; cases listed

variable {state : State Positions} {name : Bytes} {proxy : Tracked Positions Unit UInt64}

theorem attributed_parse {params : ParamTransforms} (inv : Attributed state)
    (fits : state.parsed < 2 ^ 64) (accepted : state.proxy.parse name params = .ok proxy) :
    Attributed { state with
      proxy := proxy
      parsed := state.parsed + 1
      statements := state.statements.put name state.parsed } := by
  obtain rfl := parse_ok accepted
  -- The id of this Parse is the backend's number for it.
  have minted : state.proxy.nextStatementId.toNat = state.parsed := by
    rw [inv.counted, UInt64.toNat_ofNat', Nat.mod_eq_of_lt fits]
  refine ⟨?_, ?_, ?_, inv.portals, inv.queued, inv.rows, inv.reported⟩
  · rw [inv.counted, UInt64.ofNat_add]
    rfl
  · intro asked
    by_cases same : name = asked
    · subst same; simp [minted]
    · simpa [Table.get_put_ne _ _ same] using inv.statements asked
  · intro asked entry positions held described
    by_cases same : name = asked
    · subst same
      -- A fresh incarnation has no description yet.
      simp only [Table.get_put_self, Option.some.injEq] at held
      subst held
      cases described
    · rw [Table.get_put_ne _ _ same] at held
      exact inv.described asked entry positions held described

variable {incarnation : Nat} {portal : Bytes} {formats : ResultFormats}

theorem attributed_bind {statement : Bytes} {params : Option ParamTransforms}
    (inv : Attributed state)
    (accepted : state.proxy.bind portal statement formats = .ok (proxy, params)) :
    Attributed { state with
      proxy := proxy
      portals := state.portals.put portal (incarnation, formats) } := by
  obtain ⟨rfl, _⟩ := bind_ok accepted
  refine ⟨inv.counted, inv.statements, inv.described, ?_, inv.queued, inv.rows, inv.reported⟩
  intro asked bound held
  by_cases same : portal = asked
  · subst same
    simp only [Table.get_put_self, Option.some.injEq] at held
    subst held
    exact ⟨incarnation, by simp⟩
  · simp only [Table.get_put_ne _ _ same] at held ⊢
    exact inv.portals asked bound held

theorem attributed_closeStatement (inv : Attributed state) (name : Bytes) : Attributed { state with
      proxy := state.proxy.closeStatement name
      statements := state.statements.remove name } := by
  refine ⟨inv.counted, ?_, ?_, ?_, inv.queued, inv.rows, inv.reported⟩
  · intro asked
    simp only [Tracked.closeStatement, Table.get_remove]
    by_cases same : asked = name
    · simp [same]
    · simpa [same] using inv.statements asked
  · intro asked entry positions held described
    simp only [Tracked.closeStatement, Table.get_remove] at held
    split at held
    · cases held
    · exact inv.described asked entry positions held described
  · intro asked bound held
    simp only [Tracked.closeStatement, Table.get_retain] at held
    exact inv.portals asked bound (Option.filter_eq_some_iff.mp held).1

theorem attributed_closePortal (inv : Attributed state) (name : Bytes) : Attributed { state with
      proxy := state.proxy.closePortal name
      portals := state.portals.remove name } := by
  refine ⟨inv.counted, inv.statements, inv.described, ?_, inv.queued, inv.rows, inv.reported⟩
  intro asked bound held
  simp only [Tracked.closePortal, Table.get_remove] at held ⊢
  split at held
  · cases held
  · rename_i other
    simpa [other] using inv.portals asked bound held

theorem attributed_expect {entry : Pending Positions Unit UInt64} {job : Job} (next : UInt64)
    (inv : Attributed state) (linked : Link state.given entry job) :
    Attributed { state with
      proxy := { state.proxy with
        nextExecuteId := next
        pending := state.proxy.pending ++ [entry] }
      jobs := state.jobs ++ [job] } := by
  refine ⟨inv.counted, inv.statements, inv.described, inv.portals, ?_, rowsLead_job job inv.rows,
    inv.reported⟩
  have extended := List.rel_append inv.queued (List.Forall₂.cons linked .nil)
  simpa only [owed, List.append_assoc] using extended

theorem link_describe {target : Target} (inv : Attributed state)
    (undisturbed : Undisturbed state (.describe target name))
    (met : state.meets target name = some incarnation) :
    Link state.given (.describe (state.proxy.describeRef target name)) (.describe incarnation) := by
  cases target with
  | statement =>
    rw [State.meets, inv.statements] at met
    cases found : state.proxy.statements.get name with
    | none => simp [found] at met
    | some entry =>
      simp only [found, Option.map_some, Option.some.injEq] at met
      simpa [Tracked.describeRef, found, Link] using met
  | portal =>
    cases bound : state.proxy.portals.get name with
    | none => simp [Tracked.describeRef, bound, Link]
    | some portal =>
      cases found : state.proxy.statements.get portal.statement with
      | none => simp [Tracked.describeRef, bound, found, Link]
      | some entry =>
        obtain ⟨held, backend⟩ := inv.portals name portal bound
        have current := undisturbed portal entry.id.toNat held _ bound
          (by rw [inv.statements, found]; rfl) backend
        simp only [State.meets, backend, Option.map_some, Option.some.injEq] at met
        simpa [Tracked.describeRef, bound, found, Link] using current.trans met

theorem link_execute (inv : Attributed state) (undisturbed : StillBound state portal)
    (met : state.portals.get portal = some (incarnation, formats)) :
    Link state.given (state.proxy.executeEntry portal) (.execute incarnation formats) := by
  cases bound : state.proxy.portals.get portal with
  | none => simp [Tracked.executeEntry, bound, Link]
  | some held =>
    cases found : state.proxy.statements.get held.statement with
    | none => simp [Tracked.executeEntry, bound, found, Link]
    | some entry =>
      obtain ⟨backend, sent⟩ := inv.portals portal held bound
      have pair := Option.some.inj (met.symm.trans sent)
      have current := undisturbed held entry.id.toNat incarnation formats bound
        (by rw [inv.statements, found]; rfl) met
      simp only [Tracked.executeEntry, bound, found, Option.bind_some, Option.map_some, Link]
      refine ⟨?_, ?_⟩
      · intro id named
        cases named
        exact ⟨current, (congrArg Prod.snd pair).symm⟩
      · intro description described
        exact ⟨rfl, current ▸ inv.described _ entry description found described⟩

variable {positions : Positions}

theorem link_backfill {id : UInt64} (listed : (id.toNat, positions) ∈ given)
    (entry : Pending Positions Unit UInt64) (job : Job) (linked : Link given entry job) :
    Link given (entry.backfill id positions) job := by
  cases entry with
  | describe asked => exact linked
  | batch mark => exact linked
  | execute execute statement description formats =>
    cases statement with
    | none => exact linked
    | some queued =>
      cases description with
      | some held => exact linked
      | none =>
        cases job with
        | describe _ => exact linked
        | execute incarnation' formats' =>
          refine ⟨linked.1, ?_⟩
          intro answered held
          refine ⟨rfl, ?_⟩
          by_cases same : queued = id
          · -- The description that fills the entry was given for its own incarnation.
            simp only [same, if_true, Option.some.injEq] at held
            rw [← held, ← (linked.1 queued rfl).1, same]
            exact listed
          · simp [same] at held

theorem attributed_describeAnswered {rest : List (Answer Positions)} (inv : Attributed state)
    (next : state.outbox = .description incarnation positions :: rest) :
    Attributed { state with
      proxy := state.proxy.describeAnswered positions
      outbox := rest } := by
  have listed := inv.reported incarnation positions (by simp [next])
  have reported : ∀ inner description, .description inner description ∈ rest →
      (inner, description) ∈ state.given := fun inner description later =>
    inv.reported inner description (by simp [next, later])
  have queued := inv.queued
  rw [next] at queued
  have rows := inv.rows
  rw [next] at rows
  simp only [owed, List.filterMap_cons, Answer.settles, List.cons_append] at queued
  cases pending : state.proxy.pending with
  | nil => rw [pending] at queued; cases queued
  | cons entry later =>
    rw [pending] at queued
    obtain ⟨head, tail⟩ := List.forall₂_cons.mp queued
    cases entry with
    | batch mark => exact absurd head id
    | execute _ _ _ _ => exact absurd head id
    | describe asked =>
      cases asked with
      | none =>
        simp only [Tracked.describeAnswered, pending]
        exact ⟨inv.counted, inv.statements, inv.described, inv.portals, tail, rows, reported⟩
      | some asked =>
        have same : asked.id.toNat = incarnation := head
        have filled : List.Forall₂ (Link state.given)
            (later.map (Pending.backfill asked.id positions)) (owed rest state.jobs) := by
          rw [List.forall₂_map_left_iff]
          rw [← same] at listed
          exact tail.imp fun entry job linked => link_backfill listed entry job linked
        simp only [Tracked.describeAnswered, pending]
        cases found : state.proxy.statements.get asked.name with
        | none =>
          exact ⟨inv.counted, inv.statements, inv.described, inv.portals, filled, rows, reported⟩
        | some entry =>
          -- The name may have been parsed again since; then only the queue is filled in.
          by_cases current : entry.id = asked.id
          · simp only [current, if_true]
            refine ⟨inv.counted, ?_, ?_, inv.portals, filled, rows, reported⟩
            · intro name
              by_cases here : asked.name = name
              · subst here
                simpa [found, current] using inv.statements asked.name
              · simpa [Table.get_put_ne _ _ here] using inv.statements name
            · intro name held description stored described
              by_cases here : asked.name = name
              · subst here
                simp only [Table.get_put_self, Option.some.injEq] at stored
                subst stored
                simp only [Option.some.injEq] at described
                subst described
                exact same ▸ listed
              · rw [Table.get_put_ne _ _ here] at stored
                exact inv.described name held description stored described
          · simp only [current, if_false]
            exact ⟨inv.counted, inv.statements, inv.described, inv.portals, filled, rows, reported⟩

theorem attributed_answer (given : List (Nat × Positions)) (grown : state.given ⊆ given)
    (inv : Attributed state) (next : state.jobs = answer.settles.toList ++ jobs)
    (own : ∀ incarnation formats, answer = .row incarnation formats →
      jobs.head? = some (.execute incarnation formats))
    (logged : ∀ incarnation positions, answer = .description incarnation positions →
      (incarnation, positions) ∈ given) :
    Attributed { state with
      jobs := jobs, outbox := state.outbox ++ [answer], given := given } := by
  refine ⟨inv.counted, inv.statements, ?_, inv.portals, ?_, ?_, ?_⟩
  · intro name entry positions held described
    exact grown (inv.described name entry positions held described)
  · rw [owed_append, ← next]
    exact inv.queued.imp fun entry job linked => link_mono grown entry job linked
  · exact rowsLead_append (next ▸ inv.rows) own
  · intro incarnation positions listed
    rcases List.mem_append.mp listed with earlier | last
    · exact grown (inv.reported incarnation positions earlier)
    · exact logged incarnation positions (List.mem_singleton.mp last).symm

theorem attributed_step {before after : State Positions} {event : Event Positions}
    (inv : Attributed before) (undisturbed : Undisturbed before event)
    (taken : Step before event after) : Attributed after := by
  cases taken with
  | parse accepted => exact attributed_parse inv undisturbed accepted
  | bind accepted held => exact attributed_bind inv accepted
  | closeStatement => exact attributed_closeStatement inv _
  | closePortal => exact attributed_closePortal inv _
  | describe accepted met =>
    obtain rfl := expectDescribe_ok accepted
    exact attributed_expect _ inv (link_describe inv undisturbed met)
  | execute accepted met =>
    obtain rfl := expectExecute_ok accepted
    exact attributed_expect _ inv (link_execute inv undisturbed met)
  | answerDescribe next =>
    refine attributed_answer _ (List.subset_cons_self _ _) inv next ?_ ?_
    · intro incarnation formats equal; cases equal
    · intro incarnation positions equal; cases equal; exact List.mem_cons_self
  | answerRow next =>
    refine attributed_answer _ (List.Subset.refl _) inv rfl ?_ ?_
    · intro incarnation formats equal; cases equal; rw [next]; rfl
    · intro incarnation positions equal; cases equal
  | answerComplete next =>
    refine attributed_answer _ (List.Subset.refl _) inv next ?_ ?_
    · intro incarnation formats equal; cases equal
    · intro incarnation positions equal; cases equal
  | readDescription next => exact attributed_describeAnswered inv next
  | readRow next =>
    have queued := inv.queued
    have rows := inv.rows
    rw [next] at queued rows
    exact ⟨inv.counted, inv.statements, inv.described, inv.portals, queued, rows.2,
      fun inner description later => inv.reported inner description (by simp [next, later])⟩
  | readComplete next =>
    have queued := inv.queued
    have rows := inv.rows
    rw [next] at queued rows
    have reported : ∀ inner description, _ → (inner, description) ∈ before.given :=
      fun inner description later =>
        inv.reported inner description (by rw [next]; exact List.mem_cons_of_mem _ later)
    simp only [owed, List.filterMap_cons, Answer.settles, List.cons_append] at queued
    cases pending : before.proxy.pending with
    | nil => rw [pending] at queued; cases queued
    | cons entry later =>
      rw [pending] at queued
      obtain ⟨head, tail⟩ := List.forall₂_cons.mp queued
      cases entry with
      | batch mark => exact absurd head id
      | describe asked => cases asked <;> exact absurd head id
      | execute _ _ _ _ =>
        simp only [Tracked.executeAnswered, pending]
        exact ⟨inv.counted, inv.statements, inv.described, inv.portals, tail, rows, reported⟩

/-- Whenever a row is attributed to a portal, its positions were given for the very
incarnation the portal was bound to and its formats are those of the Bind, as long as
no portal is used after its statement's name was parsed again and there are no more than
`2^64` Parses. -/
theorem row_source_attributed {state : State Positions}
    (reached : Reachable Step Undisturbed State.init state) (incarnation : Nat)
    (formats : ResultFormats) (rest : List (Answer Positions))
    (arriving : state.outbox = .row incarnation formats :: rest) (positions : Positions)
    (resultFormats : ResultFormats)
    (source : state.proxy.rowSource = .portal positions resultFormats) :
    (incarnation, positions) ∈ state.given ∧ resultFormats = formats := by
  have inv := reached.invariant attributed_init fun _ _ _ => attributed_step
  have queued := inv.queued
  have rows := inv.rows
  rw [arriving] at queued rows
  have front : (owed (.row incarnation formats :: rest) state.jobs).head? =
      some (.execute incarnation formats) := rows.1
  cases pending : state.proxy.pending with
  | nil =>
    rw [pending] at queued
    rw [List.forall₂_nil_left_iff.mp queued] at front
    cases front
  | cons entry later =>
    rw [pending] at queued
    cases listed : owed (.row incarnation formats :: rest) state.jobs with
    | nil => rw [listed] at queued; cases queued
    | cons job jobs =>
      rw [listed] at queued front
      obtain ⟨head, _⟩ := List.forall₂_cons.mp queued
      cases Option.some.inj front
      cases entry with
      | batch mark => exact absurd head id
      | describe asked => cases asked <;> exact absurd head id
      | execute id statement held captured =>
        cases held with
        | none => simp [Tracked.rowSource, pending] at source
        | some description =>
          simp only [Tracked.rowSource, pending, RowSource.portal.injEq] at source
          obtain ⟨rfl, rfl⟩ := source
          obtain ⟨described, listed⟩ := head.2 description rfl
          obtain ⟨named, statement⟩ := Option.isSome_iff_exists.mp described
          exact ⟨listed, (head.1 named statement).2⟩

theorem described_portal_attributed :
    ∃ state : State Nat, state.proxy.rowSource = .portal 10 none ∧
      (0, 10) ∈ state.given ∧ (none : ResultFormats) = none := by
  have parsed := Reachable.step
    (.start : Reachable Step Undisturbed (State.init : State Nat) State.init)
    (show Undisturbed State.init (.parse [] .empty) from Nat.two_pow_pos 64)
    (.parse rfl : Step _ (.parse [] .empty) _)
  have asked :=
    Reachable.step parsed (by trivial) (.describe rfl rfl : Step _ (.describe .statement []) _)
  have answered :=
    Reachable.step asked (by trivial) (.answerDescribe rfl : Step _ (.answerDescribe 10) _)
  have described := Reachable.step answered (by trivial) (.readDescription rfl)
  have bound :=
    Reachable.step described (by trivial) (.bind rfl rfl : Step _ (.bind [112] [] none) _)
  have executed := Reachable.step bound
    (by intro held entry incarnation formats portal statement backend
        cases portal; cases statement; cases backend; rfl)
    (.execute rfl rfl : Step _ (.execute [112]) _)
  have arriving := Reachable.step executed (by trivial) (.answerRow rfl)
  exact ⟨_, rfl, row_source_attributed arriving 0 none [] rfl 10 none rfl⟩

/-- Parse, Bind a portal, Parse the unnamed statement again: the rows of the portal,
which run the first statement, are decrypted with the second one's positions. -/
theorem re_parsed_portal_misattributed :
    ∃ state : State Nat, Reachable Step unrestricted State.init state ∧
      (∃ rest, state.outbox = .row 0 none :: rest) ∧
      state.proxy.rowSource = .portal 20 none ∧ (0, 20) ∉ state.given := by
  have parsed := Reachable.step
    (.start : Reachable Step unrestricted (State.init : State Nat) State.init) trivial
    (.parse rfl : Step _ (.parse [] .empty) _)
  have asked :=
    Reachable.step parsed trivial (.describe rfl rfl : Step _ (.describe .statement []) _)
  have answered :=
    Reachable.step asked trivial (.answerDescribe rfl : Step _ (.answerDescribe 10) _)
  have described := Reachable.step answered trivial (.readDescription rfl)
  have bound := Reachable.step described trivial (.bind rfl rfl : Step _ (.bind [112] [] none) _)
  have again := Reachable.step bound trivial (.parse rfl : Step _ (.parse [] .empty) _)
  have asked' :=
    Reachable.step again trivial (.describe rfl rfl : Step _ (.describe .statement []) _)
  have answered' :=
    Reachable.step asked' trivial (.answerDescribe rfl : Step _ (.answerDescribe 20) _)
  have described' := Reachable.step answered' trivial (.readDescription rfl)
  have executed := Reachable.step described' trivial (.execute rfl rfl : Step _ (.execute [112]) _)
  have arriving := Reachable.step executed trivial (.answerRow rfl)
  exact ⟨_, arriving, ⟨_, rfl⟩, rfl, by decide⟩
end Dbsec.Attribution
