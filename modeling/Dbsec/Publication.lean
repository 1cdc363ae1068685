import Dbsec.ReadPath
import Dbsec.Reachable

/-! How a new resolution reaches the statements a session has cached: `RowContext::publish`
swaps the resolution and then stores its generation, `RowDecryptor::current` loads the
generation and, where a description is behind it, reads the resolution and derives the
description again. One publisher and any number of sessions interleave at these steps.
The history of resolutions and the descriptions each DataRow was read with are kept
beside the real state. -/
namespace Dbsec.Publication
open Framing Params Resolve ReadPath Portal

/-- The generation is a saturating 64-bit counter. -/
def maxGeneration : Nat := 2 ^ 64 - 1

structure Shared where
  resolved : Resolved
  generation : Nat
  /-- A publish between its two steps, with the generation it is about to store. -/
  storing : Option Nat
  /-- Every resolution so far, the first one first. -/
  history : List Resolved
  /-- How many publishes are complete. -/
  completed : Nat

def Shared.new (resolved : Resolved) : Shared :=
  let first := { resolved with generation := 0 }
  ⟨first, 0, none, [first], 0⟩

/-- The first step of a publish, under the write lock. -/
def Shared.swap (shared : Shared) (resolved : Resolved) : Shared :=
  let next := { resolved with generation := min (shared.resolved.generation + 1) maxGeneration }
  { shared with
    resolved := next, storing := some next.generation, history := shared.history ++ [next] }

/-- The second step: the generation is stored after the swap. -/
def Shared.store (shared : Shared) (generation : Nat) : Shared :=
  { shared with generation := generation, storing := none, completed := shared.completed + 1 }

def noDescription : Described := ⟨0, [], []⟩

inductive Phase where
  | idle
  /-- A RowDescription has been mapped and is about to be recorded. -/
  | describing (fresh : Described)
  /-- `current` found these positions behind the generation it loaded. -/
  | reading (completed : Nat) (positions : Described)

/-- The description one DataRow was read with, and how many publishes were complete when
`current` was called for it. -/
structure Use where
  completed : Nat
  positions : Described

structure Session where
  tracked : Tracked Described Unit UInt64
  phase : Phase
  used : List Use

def Session.new : Session := ⟨.new, .idle, []⟩

structure State where
  shared : Shared
  sessions : Nat → Session

def State.init (resolved : Resolved) : State := ⟨.new resolved, fun _ => .new⟩

/-- What the client half does to the tracked statements and portals. -/
inductive ClientFrame where
  | parse (statement : Bytes) (params : ParamTransforms)
  | bind (portal statement : Bytes) (formats : ResultFormats)
  | closeStatement (statement : Bytes)
  | closePortal (portal : Bytes)
  | describe (target : Target) (name : Bytes)
  | execute (portal : Bytes)
  | batch
  | copy (frame : CopyFrame)

def ClientFrame.track (tracked : Tracked Described Unit UInt64) :
    ClientFrame → Except SessionError (Tracked Described Unit UInt64)
  | .parse statement params => tracked.parse statement params
  | .bind portal statement formats => (tracked.bind portal statement formats).map Prod.fst
  | .closeStatement statement => .ok (tracked.closeStatement statement)
  | .closePortal portal => .ok (tracked.closePortal portal)
  | .describe target name => tracked.expectDescribe target name
  | .execute portal => tracked.expectExecute portal
  | .batch => tracked.expectBatch ()
  | .copy frame => .ok (tracked.copyData frame)

/-- What the backend half does on its own: NoData, the end of a result set, ReadyForQuery
and the start of a copy. -/
inductive BackendFrame where
  | noData
  | complete
  | ready
  | copyIn

def BackendFrame.track (tracked : Tracked Described Unit UInt64) :
    BackendFrame → Tracked Described Unit UInt64
  | .noData => tracked.describeAnswered noDescription
  | .complete => tracked.executeAnswered
  | .ready => tracked.batchAnswered
  | .copyIn => tracked.copyInStarted

inductive Event where
  | swap (resolved : Resolved)
  | store
  | client (session : Nat) (frame : ClientFrame)
  | backend (session : Nat) (frame : BackendFrame)
  | rowDescription (session : Nat) (fields : List FieldId)
  | record (session : Nat)
  | dataRow (session : Nat)
  | read (session : Nat)

/-- One atomic step of one session. The backend half takes its frames one at a time. -/
def Session.next (session : Session) (shared : Shared) : Event → Option Session
  | .client _ frame =>
    (frame.track session.tracked).toOption.map fun tracked => { session with tracked := tracked }
  | .backend _ frame =>
    match session.phase with
    | .idle => some { session with tracked := frame.track session.tracked }
    | _ => none
  | .rowDescription _ fields =>
    match session.phase with
    | .idle => some { session with phase := .describing (.new shared.resolved fields) }
    | _ => none
  | .record _ =>
    match session.phase with
    | .describing fresh =>
      some { session with phase := .idle, tracked := session.tracked.describeAnswered fresh }
    | _ => none
  | .dataRow _ =>
    match session.phase, session.tracked.rowSource with
    | .idle, .portal positions _ =>
      if positions.generation = shared.generation then
        some { session with used := session.used ++ [⟨shared.completed, positions⟩] }
      else some { session with phase := .reading shared.completed positions }
    | _, _ => none
  | .read _ =>
    match session.phase with
    | .reading completed positions =>
      let refreshed := positions.rederived shared.resolved
      some ⟨session.tracked.rederived refreshed, .idle, session.used ++ [⟨completed, refreshed⟩]⟩
    | _ => none
  | _ => none

def Event.session : Event → Option Nat
  | .swap _ => none
  | .store => none
  | .client session _ => some session
  | .backend session _ => some session
  | .rowDescription session _ => some session
  | .record session => some session
  | .dataRow session => some session
  | .read session => some session

def State.next (state : State) : Event → Option State
  | .swap resolved =>
    if state.shared.storing.isNone then some { state with shared := state.shared.swap resolved }
    else none
  | .store => state.shared.storing.map fun generation =>
    { state with shared := state.shared.store generation }
  | event =>
    event.session.bind fun session =>
      ((state.sessions session).next state.shared event).map fun after =>
        { state with sessions := Function.update state.sessions session after }

def Step (before : State) (event : Event) (after : State) : Prop := before.next event = some after

section Held

variable {tracked after : Tracked Described Unit UInt64} {described fresh : Described}

/-- A description a session keeps, for a statement or for a queued Execute. -/
def Holds (tracked : Tracked Described Unit UInt64) (described : Described) : Prop :=
  (∃ name entry, tracked.statements.get name = some entry ∧ entry.described = some described) ∨
    ∃ id statement formats, .execute id statement (some described) formats ∈ tracked.pending

theorem holds_mono (held : Holds after described)
    (statements : ∀ name entry, after.statements.get name = some entry →
      entry.described = some described → tracked.statements.get name = some entry)
    (pending :
      ∀ id statement formats, .execute id statement (some described) formats ∈ after.pending →
      .execute id statement (some described) formats ∈ tracked.pending) :
    Holds tracked described := by
  rcases held with ⟨name, entry, found, kept⟩ | ⟨id, statement, formats, listed⟩
  · exact .inl ⟨name, entry, statements name entry found kept, kept⟩
  · exact .inr ⟨id, statement, formats, pending id statement formats listed⟩

theorem mem_dropMarkers {id : UInt64} {pending : List (Pending Described Unit UInt64)}
    {entry : Pending Described Unit UInt64} (listed : entry ∈ dropMarkers id pending) :
    entry ∈ pending := by
  induction pending with
  | nil => cases listed
  | cons first rest ih =>
    cases first with
    | execute queued statement positions formats =>
      rw [dropMarkers] at listed
      split at listed
      · rcases List.mem_cons.mp listed with rfl | later
        · exact List.mem_cons_self
        · exact List.mem_cons_of_mem _ ((List.dropWhile_sublist _).mem later)
      · rcases List.mem_cons.mp listed with rfl | later
        · exact List.mem_cons_self
        · exact List.mem_cons_of_mem _ (ih later)
    | describe statement =>
      rcases List.mem_cons.mp listed with rfl | later
      · exact List.mem_cons_self
      · exact List.mem_cons_of_mem _ (ih later)
    | batch mark =>
      rcases List.mem_cons.mp listed with rfl | later
      · exact List.mem_cons_self
      · exact List.mem_cons_of_mem _ (ih later)

variable {formats : ResultFormats}

theorem holds_executeEntry {portal : Bytes} {id : UInt64} {statement : Option UInt64}
    (entry : tracked.executeEntry portal = .execute id statement (some described) formats) :
    Holds tracked described := by
  simp only [Tracked.executeEntry, Pending.execute.injEq] at entry
  obtain ⟨_, _, captured, _⟩ := entry
  obtain ⟨found, looked, kept⟩ := Option.bind_eq_some_iff.mp captured
  obtain ⟨bound, _, get⟩ := Option.bind_eq_some_iff.mp looked
  exact .inl ⟨bound.statement, found, get, kept⟩

theorem copyData_keeps (tracked : Tracked Described Unit UInt64) (frame : CopyFrame) :
    (tracked.copyData frame).statements = tracked.statements ∧
      ∀ entry ∈ (tracked.copyData frame).pending, entry ∈ tracked.pending := by
  unfold Tracked.copyData
  cases tracked.copyIn with
  | idle => exact ⟨rfl, fun _ => id⟩
  | started execute =>
    cases execute with
    | none => exact ⟨rfl, fun _ => id⟩
    | some id => exact ⟨rfl, fun _ listed => mem_dropMarkers listed⟩

theorem holds_client {frame : ClientFrame} (ran : frame.track tracked = .ok after)
    (held : Holds after described) : Holds tracked described := by
  cases frame with
  | parse statement params =>
    cases parse_ok ran
    refine holds_mono held ?_ fun _ _ _ => id
    intro name entry found kept
    rw [Table.get_put] at found
    split at found
    · cases found
      cases kept
    · exact found
  | bind portal statement formats =>
    obtain ⟨⟨middle, params⟩, bound, same⟩ := Outcome.map_ok_iff.mp ran
    cases same
    cases (bind_ok bound).1
    exact holds_mono held (fun _ _ found _ => found) fun _ _ _ => id
  | closeStatement statement =>
    cases ran
    refine holds_mono held ?_ fun _ _ _ => id
    intro name entry found _
    simp only [Tracked.closeStatement, Table.get_remove] at found
    split at found
    · cases found
    · exact found
  | closePortal portal =>
    cases ran
    exact holds_mono held (fun _ _ found _ => found) fun _ _ _ => id
  | describe target name =>
    cases expectDescribe_ok ran
    refine holds_mono held (fun _ _ found _ => found) ?_
    intro id statement formats listed
    rcases List.mem_append.mp listed with early | new
    · exact early
    · cases List.mem_singleton.mp new
  | execute portal =>
    -- An Execute starts from what its statement was described with.
    cases expectExecute_ok ran
    rcases held with kept | ⟨id, statement, formats, listed⟩
    · exact .inl kept
    · rcases List.mem_append.mp listed with early | new
      · exact .inr ⟨id, statement, formats, early⟩
      · exact holds_executeEntry (List.mem_singleton.mp new).symm
  | batch =>
    cases expectBatch_ok ran
    refine holds_mono held (fun _ _ found _ => found) ?_
    intro id statement formats listed
    rcases List.mem_append.mp listed with early | new
    · exact early
    · cases List.mem_singleton.mp new
  | copy frame =>
    cases ran
    obtain ⟨same, fewer⟩ := copyData_keeps tracked frame
    refine holds_mono held ?_ fun _ _ _ listed => fewer _ listed
    intro name entry found _
    rwa [same] at found

theorem holds_describeAnswered (held : Holds (tracked.describeAnswered fresh) described) :
    Holds tracked described ∨ described = fresh := by
  unfold Tracked.describeAnswered at held
  split at held
  · rename_i rest queue
    left
    refine holds_mono held (fun _ _ found _ => found) ?_
    intro id statement formats listed
    rw [queue]
    exact List.mem_cons_of_mem _ listed
  · rename_i asked rest queue
    rcases held with ⟨name, entry, found, kept⟩ | ⟨id, statement, formats, listed⟩
    · simp only at found
      split at found
      · rename_i stored _
        split at found
        · rw [Table.get_put] at found
          split at found
          · cases found
            exact .inr (Option.some.inj kept).symm
          · exact .inl (.inl ⟨name, entry, found, kept⟩)
        · exact .inl (.inl ⟨name, entry, found, kept⟩)
      · exact .inl (.inl ⟨name, entry, found, kept⟩)
    · obtain ⟨queued, member, filled⟩ := List.mem_map.mp listed
      have before : queued ∈ tracked.pending := by
        rw [queue]
        exact List.mem_cons_of_mem _ member
      unfold Pending.backfill at filled
      split at filled
      · simp only [Pending.execute.injEq] at filled
        obtain ⟨_, _, given, _⟩ := filled
        split at given
        · exact .inr (Option.some.inj given).symm
        · cases given
      · subst filled
        exact .inl (.inr ⟨id, statement, formats, before⟩)
  · exact .inl held

theorem holds_rederived (held : Holds (tracked.rederived fresh) described) :
    Holds tracked described ∨ described = fresh := by
  unfold Tracked.rederived at held
  split at held
  · rename_i id statement old formats rest queue
    rcases held with kept | ⟨id', statement', formats', listed⟩
    · exact .inl (.inl kept)
    · rcases List.mem_cons.mp listed with here | later
      · cases here
        exact .inr rfl
      · refine .inl (.inr ⟨id', statement', formats', ?_⟩)
        rw [queue]
        exact List.mem_cons_of_mem _ later
  · exact .inl held

theorem holds_backend {frame : BackendFrame} (held : Holds (frame.track tracked) described) :
    Holds tracked described ∨ described = noDescription := by
  cases frame with
  | noData => exact holds_describeAnswered held
  | complete =>
    left
    change Holds tracked.executeAnswered described at held
    unfold Tracked.executeAnswered at held
    split at held
    · rename_i rest queue
      refine holds_mono held (fun _ _ found _ => found) ?_
      intro id statement formats listed
      rw [queue]
      exact List.mem_cons_of_mem _ listed
    · exact held
  | ready =>
    left
    refine holds_mono held (fun _ _ found _ => found) ?_
    intro id statement formats listed
    exact (List.dropWhile_sublist _).mem (List.mem_of_mem_drop listed)
  | copyIn => exact .inl held

theorem holds_rowSource (source : tracked.rowSource = .portal described formats) :
    Holds tracked described := by
  unfold Tracked.rowSource at source
  split at source
  · rename_i id statement positions chosen rest queue
    cases source
    refine .inr ⟨id, statement, formats, ?_⟩
    rw [queue]
    exact List.mem_cons_self
  · cases source
  · cases source

end Held

def LastDerived (resolved : Resolved) (described : Described) : Prop :=
  (∃ fields, described = .new resolved fields) ∨
    ∃ earlier : Described, described = earlier.rederived resolved

variable {described : Described}

theorem LastDerived.generation {resolved : Resolved} (derived : LastDerived resolved described) :
    described.generation = resolved.generation := by
  rcases derived with ⟨fields, rfl⟩ | ⟨earlier, rfl⟩
  · rfl
  · rfl

def Stamped (shared : Shared) (described : Described) : Prop :=
  ∃ (place : Nat) (resolved : Resolved), shared.history[place]? = some resolved ∧
    LastDerived resolved described

/-- The two fields of `RowContext` agree with the history: each resolution carries its
number, and the stored generation is that of the last complete publish. -/
structure Shared.Sound (shared : Shared) : Prop where
  latest : shared.history[shared.history.length - 1]? = some shared.resolved
  numbered : ∀ (place : Nat) (resolved : Resolved), shared.history[place]? = some resolved →
    resolved.generation = min place maxGeneration
  stored : shared.generation = min shared.completed maxGeneration
  between : shared.history.length = shared.completed + if shared.storing.isSome then 2 else 1
  next : ∀ generation, shared.storing = some generation →
    generation = min (shared.completed + 1) maxGeneration
  -- NoData needs a resolution to stand for the empty description.
  first : ∃ resolved, shared.history[0]? = some resolved ∧ resolved.generation = 0

theorem sound_new (resolved : Resolved) : (Shared.new resolved).Sound where
  latest := rfl
  numbered := by
    intro place held found
    match place with
    | 0 =>
      cases found
      rfl
  stored := rfl
  between := rfl
  next := nofun
  first := ⟨_, rfl, rfl⟩

variable {shared : Shared}

theorem Shared.Sound.latest_generation (sound : shared.Sound) :
    shared.resolved.generation = min (shared.history.length - 1) maxGeneration :=
  sound.numbered _ _ sound.latest

theorem sound_swap (sound : shared.Sound) (free : shared.storing = none) (resolved : Resolved) :
    (shared.swap resolved).Sound := by
  have count : shared.history.length = shared.completed + 1 := by
    have between := sound.between
    rwa [free] at between
  have generation := sound.latest_generation
  have number : min (shared.resolved.generation + 1) maxGeneration =
      min (shared.completed + 1) maxGeneration := by omega
  refine ⟨?_, ?_, sound.stored, ?_, ?_, ?_⟩
  · simp [Shared.swap]
  · intro place held found
    rcases Nat.lt_or_ge place shared.history.length with old | new
    · rw [Shared.swap, List.getElem?_append_left old] at found
      exact sound.numbered place held found
    · rw [Shared.swap, List.getElem?_append_right new] at found
      obtain ⟨here, same⟩ := List.getElem?_eq_some_iff.mp found
      have place' : place = shared.completed + 1 := by
        simp only [List.length_singleton] at here
        omega
      simp only [List.getElem_singleton] at same
      subst same place'
      exact number
  · simp [Shared.swap, count]
  · intro stored storing
    cases storing
    exact number
  · obtain ⟨initial, found, zero⟩ := sound.first
    refine ⟨initial, ?_, zero⟩
    have inside := (List.getElem?_eq_some_iff.mp found).1
    rw [Shared.swap, List.getElem?_append_left inside]
    exact found

theorem sound_store (sound : shared.Sound) {generation : Nat}
    (storing : shared.storing = some generation) : (shared.store generation).Sound where
  latest := sound.latest
  numbered := sound.numbered
  stored := sound.next generation storing
  between := by
    have between := sound.between
    rw [storing] at between
    simpa [Shared.store] using between
  next := nofun
  first := sound.first

theorem stamped_swap (stamped : Stamped shared described) (resolved : Resolved) :
    Stamped (shared.swap resolved) described := by
  obtain ⟨place, held, found, derived⟩ := stamped
  refine ⟨place, held, ?_, derived⟩
  have inside := (List.getElem?_eq_some_iff.mp found).1
  rw [Shared.swap, List.getElem?_append_left inside]
  exact found

theorem stamped_new (sound : shared.Sound) (fields : List FieldId) :
    Stamped shared (.new shared.resolved fields) :=
  ⟨_, _, sound.latest, .inl ⟨fields, rfl⟩⟩

theorem stamped_rederived (sound : shared.Sound) (described : Described) :
    Stamped shared (described.rederived shared.resolved) :=
  ⟨_, _, sound.latest, .inr ⟨described, rfl⟩⟩

theorem stamped_noDescription (sound : shared.Sound) : Stamped shared noDescription := by
  obtain ⟨initial, found, zero⟩ := sound.first
  refine ⟨0, initial, found, .inl ⟨[], ?_⟩⟩
  rw [Described.new, zero]
  rfl

/-- What one step does to the descriptions of a session. -/
inductive Moves (shared : Shared) (session : Session) : Event → Session → Prop where
  /-- Descriptions are only copied or dropped, or a NoData reply was recorded. -/
  | tracked {event : Event} (after : Tracked Described Unit UInt64) :
      (∀ described, Holds after described →
        Holds session.tracked described ∨ described = noDescription) →
      Moves shared session event { session with tracked := after }
  | described {number : Nat} (fields : List FieldId) : session.phase = .idle →
      Moves shared session (.rowDescription number fields)
        { session with phase := .describing (.new shared.resolved fields) }
  | recorded {number : Nat} (fresh : Described) : session.phase = .describing fresh →
      Moves shared session (.record number)
        { session with phase := .idle, tracked := session.tracked.describeAnswered fresh }
  | current {number : Nat} (positions : Described) : session.phase = .idle →
      Holds session.tracked positions → positions.generation = shared.generation →
      Moves shared session (.dataRow number)
        { session with used := session.used ++ [⟨shared.completed, positions⟩] }
  | behind {number : Nat} (positions : Described) : session.phase = .idle →
      Holds session.tracked positions → positions.generation ≠ shared.generation →
      Moves shared session (.dataRow number)
        { session with phase := .reading shared.completed positions }
  | refreshed {number : Nat} (completed : Nat) (positions : Described) :
      session.phase = .reading completed positions →
      Moves shared session (.read number)
        ⟨session.tracked.rederived (positions.rederived shared.resolved), .idle,
          session.used ++ [⟨completed, positions.rederived shared.resolved⟩]⟩

variable {event : Event}

theorem next_moves {session after : Session} (ran : session.next shared event = some after) :
    Moves shared session event after := by
  cases event with
  | swap resolved => cases ran
  | store => cases ran
  | client number frame =>
    obtain ⟨tracked, accepted, rfl⟩ := Option.map_eq_some_iff.mp ran
    refine .tracked tracked ?_
    intro described held
    refine .inl (@holds_client _ _ _ frame ?_ held)
    cases outcome : frame.track session.tracked with
    | error cause =>
      rw [outcome] at accepted
      cases accepted
    | ok result =>
      rw [outcome] at accepted
      cases accepted
      rfl
  | backend number frame =>
    simp only [Session.next] at ran
    split at ran
    · cases ran
      exact .tracked _ fun _ held => holds_backend held
    · cases ran
  | rowDescription number fields =>
    simp only [Session.next] at ran
    split at ran
    · rename_i idle
      cases ran
      exact .described fields idle
    · cases ran
  | record number =>
    simp only [Session.next] at ran
    split at ran
    · rename_i fresh describing
      cases ran
      exact .recorded fresh describing
    · cases ran
  | dataRow number =>
    simp only [Session.next] at ran
    split at ran
    · rename_i positions formats idle source
      -- Of the stored generation, or the resolution is read in a step of its own.
      split at ran
      · rename_i same
        cases ran
        exact .current positions idle (holds_rowSource source) same
      · rename_i behind
        cases ran
        exact .behind positions idle (holds_rowSource source) behind
    · cases ran
  | read number =>
    simp only [Session.next] at ran
    split at ran
    · rename_i completed positions reading
      cases ran
      exact .refreshed completed positions reading
    · cases ran

theorem step_cases {before after : State} (taken : Step before event after) :
    (∃ resolved, event = .swap resolved ∧ before.shared.storing = none ∧
        after = { before with shared := before.shared.swap resolved }) ∨
      (∃ generation, event = .store ∧ before.shared.storing = some generation ∧
        after = { before with shared := before.shared.store generation }) ∨
      ∃ number moved, Moves before.shared (before.sessions number) event moved ∧
        after = { before with sessions := Function.update before.sessions number moved } := by
  have moves : ∀ {event : Event}, (event.session.bind fun session =>
      ((before.sessions session).next before.shared event).map fun after =>
        { before with sessions := Function.update before.sessions session after }) = some after →
      ∃ number moved, Moves before.shared (before.sessions number) event moved ∧
        after = { before with sessions := Function.update before.sessions number moved } := by
    intro event ran
    obtain ⟨number, _, ran⟩ := Option.bind_eq_some_iff.mp ran
    obtain ⟨moved, step, rfl⟩ := Option.map_eq_some_iff.mp ran
    exact ⟨number, moved, next_moves step, rfl⟩
  unfold Step at taken
  cases event with
  | swap resolved =>
    simp only [State.next] at taken
    split at taken
    · rename_i free
      cases taken
      exact .inl ⟨resolved, rfl, by simpa using free, rfl⟩
    · cases taken
  | store =>
    obtain ⟨generation, storing, rfl⟩ := Option.map_eq_some_iff.mp taken
    exact .inr (.inl ⟨generation, rfl, storing, rfl⟩)
  | client number frame => exact .inr (.inr (moves taken))
  | backend number frame => exact .inr (.inr (moves taken))
  | rowDescription number fields => exact .inr (.inr (moves taken))
  | record number => exact .inr (.inr (moves taken))
  | dataRow number => exact .inr (.inr (moves taken))
  | read number => exact .inr (.inr (moves taken))

end Dbsec.Publication
