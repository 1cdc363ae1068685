import Dbsec.Portal

/-! The state invariant of `SessionPortals`, proxy/src/portal.rs, over every sequence of its
operations from both relay directions. An operation that fails leaves the state as the
source does. What descriptions were answered for which statement, and which were derived
anew for the Execute at the front, is kept beside the state; no operation reads it. -/
namespace Dbsec.PortalState
open Framing Params Portal

variable {Positions Mark : Type}

inductive Operation (Positions Mark : Type) where
  | parse (statement : Bytes) (params : ParamTransforms)
  | bind (portal statement : Bytes) (formats : ResultFormats)
  | closeStatement (statement : Bytes)
  | closePortal (portal : Bytes)
  | expectDescribe (target : Target) (name : Bytes)
  | expectExecute (portal : Bytes)
  | expectBatch (mark : Mark)
  | copyInStarted
  | copyData (frame : CopyFrame)
  | describeAnswered (positions : Positions)
  | noData
  | rederived (positions : Positions)
  | rowSource
  | executeAnswered
  | batchAnswered

structure State (Positions Mark : Type) where
  tracked : Tracked Positions Mark UInt64
  /-- Statement ids with the descriptions answered for them. -/
  answered : List (UInt64 × Positions)
  /-- Execute ids with the descriptions derived anew for them. -/
  derived : List (UInt64 × Positions)

def State.new : State Positions Mark := ⟨.new, [], []⟩

def State.asked (state : State Positions Mark) : Option UInt64 :=
  match state.tracked.pending with
  | .describe (some statement) :: _ => some statement.id
  | _ => none

def State.settled (state : State Positions Mark) : Option UInt64 :=
  match state.tracked.pending with
  | .execute id _ (some _) _ :: _ => some id
  | _ => none

def State.describe (state : State Positions Mark) (positions : Positions) : State Positions Mark :=
  { state with
    tracked := state.tracked.describeAnswered positions
    answered := (state.asked.map (·, positions)).toList ++ state.answered }

def State.rederive (state : State Positions Mark) (positions : Positions) : State Positions Mark :=
  { state with
    tracked := state.tracked.rederived positions
    derived := (state.settled.map (·, positions)).toList ++ state.derived }

def State.apply [Inhabited Positions] (state : State Positions Mark) :
    Operation Positions Mark → State Positions Mark
  | .parse statement params =>
    match state.tracked.parse statement params with
    | .ok tracked => { state with tracked }
    | .error _ => state
  | .bind portal statement formats =>
    match state.tracked.bind portal statement formats with
    | .ok (tracked, _) => { state with tracked }
    | .error _ => state
  | .closeStatement statement => { state with tracked := state.tracked.closeStatement statement }
  | .closePortal portal => { state with tracked := state.tracked.closePortal portal }
  | .expectDescribe target name =>
    match state.tracked.expectDescribe target name with
    | .ok tracked => { state with tracked }
    | .error _ => state
  | .expectExecute portal =>
    match state.tracked.expectExecute portal with
    | .ok tracked => { state with tracked }
    -- the id is minted before the queue turns out to be full
    | .error _ =>
      { state with tracked := { state.tracked with
          nextExecuteId := state.tracked.nextExecuteId + 1 } }
  | .expectBatch mark =>
    match state.tracked.expectBatch mark with
    | .ok tracked => { state with tracked }
    | .error _ => state
  | .copyInStarted => { state with tracked := state.tracked.copyInStarted }
  | .copyData frame => { state with tracked := state.tracked.copyData frame }
  | .describeAnswered positions => state.describe positions
  | .noData => state.describe default
  | .rederived positions => state.rederive positions
  | .rowSource => state
  | .executeAnswered => { state with tracked := state.tracked.executeAnswered }
  | .batchAnswered => { state with tracked := state.tracked.batchAnswered }

def State.run [Inhabited Positions] (state : State Positions Mark)
    (operations : List (Operation Positions Mark)) : State Positions Mark :=
  operations.foldl State.apply state

section Invariant

def executeId : Pending Positions Mark UInt64 → Option UInt64
  | .execute id .. => some id
  | _ => none

/-- Where a queued Execute has its positions from: a description answered for its
statement, or one derived anew for this Execute after that. -/
def Origin (state : State Positions Mark) (id : UInt64) (statement : UInt64)
    (positions : Positions) : Prop :=
  ∃ first, (statement, first) ∈ state.answered ∧
    (positions = first ∨ (id, positions) ∈ state.derived)

structure Statements (state : State Positions Mark) : Prop where
  few : state.tracked.statements.size ≤ maxPreparedStatements
  short : ∀ name entry, state.tracked.statements.get name = some entry → name.length ≤ maxNameLen
  below : ∀ name entry, state.tracked.statements.get name = some entry →
    entry.id < state.tracked.nextStatementId
  distinct : ∀ left right entry other, state.tracked.statements.get left = some entry →
    state.tracked.statements.get right = some other → entry.id = other.id → left = right
  described : ∀ name entry positions, state.tracked.statements.get name = some entry →
    entry.described = some positions → (entry.id, positions) ∈ state.answered

structure Portals (state : State Positions Mark) : Prop where
  few : state.tracked.portals.size ≤ maxPortals
  short : ∀ name bound, state.tracked.portals.get name = some bound →
    name.length ≤ maxNameLen ∧ bound.statement.length ≤ maxNameLen

structure Queue (state : State Positions Mark) : Prop where
  few : state.tracked.pending.length ≤ maxPendingResponses
  describes : ∀ statement : StatementRef UInt64,
    .describe (some statement) ∈ state.tracked.pending →
    statement.name.length ≤ maxNameLen ∧ statement.id < state.tracked.nextStatementId
  executes : ∀ id statement positions formats,
    .execute id statement positions formats ∈ state.tracked.pending →
    id < state.tracked.nextExecuteId ∧
      (∀ incarnation, statement = some incarnation → incarnation < state.tracked.nextStatementId)
  origins : ∀ id statement positions formats,
    .execute id statement (some positions) formats ∈ state.tracked.pending →
      ∃ incarnation, statement = some incarnation ∧ Origin state id incarnation positions
  increasing : (state.tracked.pending.filterMap executeId).Pairwise (· < ·)

structure Sound (state : State Positions Mark) : Prop where
  statements : Statements state
  portals : Portals state
  queue : Queue state

/-- The positions of a queued Execute stay through an operation once they are set, unless
it stands at the front and they are derived anew. -/
def Kept [Inhabited Positions] (state : State Positions Mark)
    (operation : Operation Positions Mark) : Prop :=
  ∀ id statement positions formats,
    .execute id statement (some positions) formats ∈ state.tracked.pending →
    ∀ statement' positions' formats',
      .execute id statement' positions' formats' ∈ (state.apply operation).tracked.pending →
        statement' = statement ∧ formats' = formats ∧
          (positions' = some positions ∨ ∃ fresh rest, operation = .rederived fresh ∧
            state.tracked.pending = .execute id statement (some positions) formats :: rest ∧
            positions' = some fresh)

end Invariant

section Parts

variable {state after : State Positions Mark}

theorem Origin.grow {id : UInt64} {statement : UInt64} {positions : Positions}
    (origin : Origin state id statement positions) (answered : state.answered ⊆ after.answered)
    (derived : state.derived ⊆ after.derived) :
    Origin after id statement positions := by
  obtain ⟨first, told, same | again⟩ := origin
  · exact ⟨first, answered told, .inl same⟩
  · exact ⟨first, answered told, .inr (derived again)⟩

theorem Statements.shrink (sound : Statements state)
    (few : after.tracked.statements.size ≤ state.tracked.statements.size)
    (held : ∀ name entry, after.tracked.statements.get name = some entry →
      state.tracked.statements.get name = some entry)
    (ids : state.tracked.nextStatementId ≤ after.tracked.nextStatementId)
    (answered : state.answered ⊆ after.answered) : Statements after where
  few := Nat.le_trans few sound.few
  short name entry found := sound.short name entry (held name entry found)
  below name entry found :=
    UInt64.lt_of_lt_of_le (sound.below name entry (held name entry found)) ids
  distinct left right entry other here there :=
    sound.distinct left right entry other (held left entry here) (held right other there)
  described name entry positions found given :=
    answered (sound.described name entry positions (held name entry found) given)

theorem Portals.shrink (sound : Portals state)
    (few : after.tracked.portals.size ≤ state.tracked.portals.size)
    (held : ∀ name bound, after.tracked.portals.get name = some bound →
      state.tracked.portals.get name = some bound) : Portals after where
  few := Nat.le_trans few sound.few
  short name bound found := sound.short name bound (held name bound found)

theorem Queue.shrink (sound : Queue state)
    (fewer : after.tracked.pending.Sublist state.tracked.pending)
    (statementIds : state.tracked.nextStatementId ≤ after.tracked.nextStatementId)
    (executeIds : state.tracked.nextExecuteId ≤ after.tracked.nextExecuteId)
    (answered : state.answered ⊆ after.answered) (derived : state.derived ⊆ after.derived) :
    Queue after where
  few := Nat.le_trans fewer.length_le sound.few
  describes statement listed := by
    obtain ⟨short, below⟩ := sound.describes statement (fewer.mem listed)
    exact ⟨short, UInt64.lt_of_lt_of_le below statementIds⟩
  executes id statement positions formats listed := by
    obtain ⟨below, incarnations⟩ := sound.executes id statement positions formats (fewer.mem listed)
    exact ⟨UInt64.lt_of_lt_of_le below executeIds,
      fun incarnation same => UInt64.lt_of_lt_of_le (incarnations incarnation same) statementIds⟩
  origins id statement positions formats listed := by
    obtain ⟨incarnation, same, origin⟩ :=
      sound.origins id statement positions formats (fewer.mem listed)
    exact ⟨incarnation, same, origin.grow answered derived⟩
  increasing := sound.increasing.sublist (fewer.filterMap executeId)

def Admitted (state : State Positions Mark) : Pending Positions Mark UInt64 → Prop
  | .describe none => True
  | .describe (some statement) =>
    statement.name.length ≤ maxNameLen ∧ statement.id < state.tracked.nextStatementId
  | .execute id statement positions _ =>
    id = state.tracked.nextExecuteId ∧
      (∀ incarnation, statement = some incarnation → incarnation < state.tracked.nextStatementId) ∧
      ∀ given, positions = some given →
        ∃ incarnation, statement = some incarnation ∧ (incarnation, given) ∈ state.answered
  | .batch _ => True

theorem Queue.push (sound : Queue state) {entry : Pending Positions Mark UInt64}
    (admitted : Admitted state entry) (room : state.tracked.pending.length < maxPendingResponses)
    (queued : after.tracked.pending = state.tracked.pending ++ [entry])
    (statementIds : after.tracked.nextStatementId = state.tracked.nextStatementId)
    (executeIds : ∀ id, id < state.tracked.nextExecuteId ∨ executeId entry = some id →
      id < after.tracked.nextExecuteId)
    (answered : after.answered = state.answered) (derived : after.derived = state.derived) :
    Queue after where
  few := by
    rw [queued, List.length_append]
    exact room
  describes statement listed := by
    rw [queued, List.mem_append, List.mem_singleton] at listed
    rw [statementIds]
    rcases listed with earlier | rfl
    · exact sound.describes statement earlier
    · exact admitted
  executes id statement positions formats listed := by
    rw [queued, List.mem_append, List.mem_singleton] at listed
    rw [statementIds]
    rcases listed with earlier | rfl
    · obtain ⟨below, incarnations⟩ := sound.executes id statement positions formats earlier
      exact ⟨executeIds id (.inl below), incarnations⟩
    · exact ⟨executeIds id (.inr rfl), admitted.2.1⟩
  origins id statement positions formats listed := by
    rw [queued, List.mem_append, List.mem_singleton] at listed
    rcases listed with earlier | rfl
    · obtain ⟨incarnation, same, origin⟩ := sound.origins id statement positions formats earlier
      exact ⟨incarnation, same,
        origin.grow (answered ▸ List.Subset.refl _) (derived ▸ List.Subset.refl _)⟩
    · obtain ⟨_, _, given⟩ := admitted
      obtain ⟨incarnation, same, told⟩ := given positions rfl
      exact ⟨incarnation, same, positions, answered ▸ told, .inl rfl⟩
  increasing := by
    rw [queued, List.filterMap_append]
    refine List.pairwise_append.mpr ⟨sound.increasing, ?_, ?_⟩
    · cases entry with
      | execute => exact List.pairwise_singleton _ _
      | describe => exact .nil
      | batch => exact .nil
    · -- every id that is queued lies below the one minted now
      intro earlier listed later last
      obtain ⟨old, oldListed, oldId⟩ := List.mem_filterMap.mp listed
      obtain ⟨new, newListed, newId⟩ := List.mem_filterMap.mp last
      rw [List.mem_singleton] at newListed
      subst newListed
      cases old with
      | execute id statement positions formats =>
        cases oldId
        cases new with
        | execute =>
          cases newId
          exact admitted.1 ▸ (sound.executes _ _ _ _ oldListed).1
        | describe => cases newId
        | batch => cases newId
      | describe => cases oldId
      | batch => cases oldId

theorem dropMarkers_sublist (id : UInt64) (pending : List (Pending Positions Mark UInt64)) :
    (dropMarkers id pending).Sublist pending := by
  induction pending with
  | nil => exact .slnil
  | cons first rest ih =>
    cases first with
    | execute queued statement positions formats =>
      rw [dropMarkers]
      split
      · exact (List.dropWhile_sublist _).cons_cons _
      · exact ih.cons_cons _
    | describe => exact ih.cons_cons _
    | batch => exact ih.cons_cons _

end Parts

section Operations

variable {state : State Positions Mark} {tracked : Tracked Positions Mark UInt64} {name : Bytes}

theorem checkName_short {what : String} (checked : checkName what name = .ok ()) :
    name.length ≤ maxNameLen := by
  unfold checkName at checked
  split at checked
  · cases checked
  · exact Nat.le_of_not_lt ‹_›

variable {params : ParamTransforms}

theorem parse_guard (accepted : state.tracked.parse name params = .ok tracked) :
    name.length ≤ maxNameLen ∧
      ((state.tracked.statements.get name).isNone = true →
        state.tracked.statements.size < maxPreparedStatements) := by
  simp only [Tracked.parse, Outcome.bind_ok_iff] at accepted
  obtain ⟨_, checked, written⟩ := accepted
  refine ⟨checkName_short checked, fun absent => ?_⟩
  split at written
  · simp at written
  · rename_i room
    simpa [absent] using room

variable {formats : ResultFormats} {portal statement : Bytes}

theorem bind_guard {params : Option ParamTransforms}
    (accepted : state.tracked.bind portal statement formats = .ok (tracked, params)) :
    portal.length ≤ maxNameLen ∧ statement.length ≤ maxNameLen ∧
      ((state.tracked.portals.get portal).isNone = true →
        state.tracked.portals.size < maxPortals) := by
  simp only [Tracked.bind, Outcome.bind_ok_iff] at accepted
  obtain ⟨_, first, _, second, written⟩ := accepted
  refine ⟨checkName_short first, checkName_short second, fun absent => ?_⟩
  split at written
  · simp at written
  · rename_i room
    simpa [absent] using room

variable {entry : Pending Positions Mark UInt64}

theorem push_room {before : Tracked Positions Mark UInt64}
    (accepted : before.push entry = .ok tracked) :
    before.pending.length < maxPendingResponses := by
  unfold Tracked.push at accepted
  split at accepted
  · cases accepted
  · exact Nat.lt_of_not_le ‹_›

variable {after : State Positions Mark}

theorem Sound.shrink (sound : Sound state)
    (statements : after.tracked.statements = state.tracked.statements)
    (portals : after.tracked.portals = state.tracked.portals)
    (pending : after.tracked.pending.Sublist state.tracked.pending)
    (statementIds : state.tracked.nextStatementId ≤ after.tracked.nextStatementId)
    (executeIds : state.tracked.nextExecuteId ≤ after.tracked.nextExecuteId)
    (answered : state.answered ⊆ after.answered) (derived : state.derived ⊆ after.derived) :
    Sound after where
  statements :=
    sound.statements.shrink (by rw [statements]) (by rw [statements]; exact fun _ _ => id)
    statementIds answered
  portals := sound.portals.shrink (by rw [portals]) (by rw [portals]; exact fun _ _ => id)
  queue := sound.queue.shrink pending statementIds executeIds answered derived

theorem Sound.push {next : UInt64} (sound : Sound state) (admitted : Admitted state entry)
    (room : state.tracked.pending.length < maxPendingResponses)
    (above : ∀ id, id < state.tracked.nextExecuteId ∨ executeId entry = some id → id < next) :
    Sound { state with tracked := { state.tracked with
      pending := state.tracked.pending ++ [entry], nextExecuteId := next } } where
  statements := sound.statements.shrink (Nat.le_refl _) (fun _ _ => id) (UInt64.le_refl _)
    (List.Subset.refl _)
  portals := sound.portals.shrink (Nat.le_refl _) (fun _ _ => id)
  queue := sound.queue.push admitted room rfl rfl above rfl rfl

/-- As long as the counter does not wrap around, the next id lies above this one. -/
theorem lt_next {id : UInt64} (fits : id.toNat + 1 < 2 ^ 64) : id < id + 1 := by
  rw [UInt64.lt_iff_toNat_lt, UInt64.toNat_add, show (1 : UInt64).toNat = 1 from rfl,
    Nat.mod_eq_of_lt fits]
  exact Nat.lt_succ_self _

theorem sound_parse (sound : Sound state)
    (fits : state.tracked.nextStatementId.toNat + 1 < 2 ^ 64)
    (accepted : state.tracked.parse name params = .ok tracked) :
    Sound { state with tracked } := by
  obtain ⟨short, room⟩ := parse_guard accepted
  cases parse_ok accepted
  refine ⟨⟨?_, ?_, ?_, ?_, ?_⟩, ⟨sound.portals.few, sound.portals.short⟩,
    sound.queue.shrink (List.Sublist.refl _) (UInt64.le_of_lt (lt_next fits)) (UInt64.le_refl _)
      (List.Subset.refl _) (List.Subset.refl _)⟩
  · simp only [Table.size_put]
    split
    · exact room ‹_›
    · exact sound.statements.few
  · intro asked entry found
    rw [Table.get_put] at found
    split at found
    · rename_i same
      exact same ▸ short
    · exact sound.statements.short asked entry found
  · intro asked entry found
    rw [Table.get_put] at found
    split at found
    · cases found
      exact lt_next fits
    · exact UInt64.lt_trans (sound.statements.below asked entry found) (lt_next fits)
  · -- the id is new, so it is no other statement's
    intro left right entry other here there same
    rw [Table.get_put] at here there
    split at here
    · rename_i atLeft
      split at there
      · rename_i atRight
        exact atLeft.symm.trans atRight
      · cases here
        exact absurd (same ▸ sound.statements.below right other there) (UInt64.lt_irrefl _)
    · split at there
      · cases there
        exact absurd (same ▸ sound.statements.below left entry here) (UInt64.lt_irrefl _)
      · exact sound.statements.distinct left right entry other here there same
  · intro asked entry positions found given
    rw [Table.get_put] at found
    split at found
    · cases found
      cases given
    · exact sound.statements.described asked entry positions found given

theorem sound_bind {params : Option ParamTransforms} (sound : Sound state)
    (accepted : state.tracked.bind portal statement formats = .ok (tracked, params)) :
    Sound { state with tracked } := by
  obtain ⟨portalShort, statementShort, room⟩ := bind_guard accepted
  obtain ⟨rfl, _⟩ := bind_ok accepted
  refine ⟨⟨sound.statements.few, sound.statements.short, sound.statements.below,
    sound.statements.distinct, sound.statements.described⟩, ⟨?_, ?_⟩,
      sound.queue.shrink (List.Sublist.refl _) (UInt64.le_refl _)
      (UInt64.le_refl _) (List.Subset.refl _) (List.Subset.refl _)⟩
  · simp only [Table.size_put]
    split
    · exact room ‹_›
    · exact sound.portals.few
  · intro name bound found
    rw [Table.get_put] at found
    split at found
    · rename_i same
      cases found
      exact ⟨same ▸ portalShort, statementShort⟩
    · exact sound.portals.short name bound found

theorem sound_closeStatement (sound : Sound state) (name : Bytes) :
    Sound { state with tracked := state.tracked.closeStatement name } where
  statements := sound.statements.shrink (Table.size_retain _ _) (by
    intro asked entry found
    rw [Tracked.closeStatement, Table.get_remove] at found
    split at found
    · cases found
    · exact found) (UInt64.le_refl _) (List.Subset.refl _)
  portals := sound.portals.shrink (Table.size_retain _ _) (by
    intro asked bound found
    rw [Tracked.closeStatement, Table.get_retain] at found
    exact (Option.filter_eq_some_iff.mp found).1)
  queue := sound.queue.shrink (List.Sublist.refl _) (UInt64.le_refl _) (UInt64.le_refl _)
    (List.Subset.refl _) (List.Subset.refl _)

theorem sound_closePortal (sound : Sound state) (name : Bytes) :
    Sound { state with tracked := state.tracked.closePortal name } where
  statements := sound.statements.shrink (Nat.le_refl _) (fun _ _ => id) (UInt64.le_refl _)
    (List.Subset.refl _)
  portals := sound.portals.shrink (Table.size_retain _ _) (by
    intro asked bound found
    rw [Tracked.closePortal, Table.get_remove] at found
    split at found
    · cases found
    · exact found)
  queue := sound.queue.shrink (List.Sublist.refl _) (UInt64.le_refl _) (UInt64.le_refl _)
    (List.Subset.refl _) (List.Subset.refl _)

theorem admitted_describe (sound : Sound state) (target : Target) (name : Bytes) :
    Admitted state (.describe (state.tracked.describeRef target name)) := by
  cases asked : state.tracked.describeRef target name with
  | none => trivial
  | some statement =>
    -- a statement is only referred to by the name it is held under
    have held : ∃ entry, state.tracked.statements.get statement.name = some entry ∧
        entry.id = statement.id := by
      simp only [Tracked.describeRef, Option.bind_eq_bind, Option.bind_some] at asked
      cases target with
      | statement =>
        obtain ⟨entry, found, same⟩ := Option.bind_eq_some_iff.mp asked
        cases same
        exact ⟨entry, found, rfl⟩
      | portal =>
        obtain ⟨_, _, rest⟩ := Option.bind_eq_some_iff.mp asked
        obtain ⟨entry, found, same⟩ := Option.bind_eq_some_iff.mp rest
        cases same
        exact ⟨entry, found, rfl⟩
    obtain ⟨entry, found, same⟩ := held
    exact ⟨sound.statements.short _ entry found, same ▸ sound.statements.below _ entry found⟩

theorem admitted_execute (sound : Sound state) (portal : Bytes) :
    Admitted state (state.tracked.executeEntry portal) := by
  refine ⟨rfl, ?_, ?_⟩
  · intro incarnation named
    obtain ⟨entry, looked, same⟩ := Option.map_eq_some_iff.mp named
    obtain ⟨bound, _, found⟩ := Option.bind_eq_some_iff.mp looked
    exact same ▸ sound.statements.below bound.statement entry found
  · intro given captured
    obtain ⟨entry, looked, described⟩ := Option.bind_eq_some_iff.mp captured
    obtain ⟨bound, _, found⟩ := Option.bind_eq_some_iff.mp looked
    exact ⟨entry.id, by rw [looked]; rfl,
      sound.statements.described bound.statement entry given found described⟩

theorem backfill_executeId (id : UInt64) (positions : Positions)
    (entry : Pending Positions Mark UInt64) :
    executeId (entry.backfill id positions) = executeId entry := by
  fun_cases Pending.backfill id positions entry with
  | case1 => rfl
  | case2 => rfl

variable {id : UInt64} {positions : Positions}

/-- An entry of a back-filled queue: one that was there, or an Execute of the described
statement that had no positions. -/
theorem mem_backfill {queue : List (Pending Positions Mark UInt64)}
    (listed : entry ∈ queue.map (Pending.backfill id positions)) :
    entry ∈ queue ∨ ∃ execute formats, entry = .execute execute (some id) (some positions) formats ∧
      .execute execute (some id) none formats ∈ queue := by
  obtain ⟨old, held, filled⟩ := List.mem_map.mp listed
  fun_cases Pending.backfill id positions old with
  | case1 execute queued formats =>
    simp only [Pending.backfill] at filled
    by_cases same : queued = id
    · subst same
      rw [if_pos rfl] at filled
      exact .inr ⟨execute, formats, filled.symm, held⟩
    · rw [if_neg same] at filled
      exact .inl (filled ▸ held)
  | case2 other =>
    rw [Pending.backfill] at filled
    · exact .inl (filled ▸ held)
    · assumption

variable {asked : StatementRef UInt64}

theorem statements_described (sound : Statements state)
    (held : after.tracked.statements = match state.tracked.statements.get asked.name with
      | some entry =>
        if entry.id = asked.id then
          state.tracked.statements.put asked.name { entry with described := some positions }
        else state.tracked.statements
      | none => state.tracked.statements)
    (ids : after.tracked.nextStatementId = state.tracked.nextStatementId)
    (answered : after.answered = (asked.id, positions) :: state.answered) : Statements after := by
  have kept (same : after.tracked.statements = state.tracked.statements) : Statements after :=
    sound.shrink (by rw [same]) (by rw [same]; exact fun _ _ => id)
      (ids ▸ UInt64.le_refl _) (by rw [answered]; exact List.subset_cons_self _ _)
  cases found : state.tracked.statements.get asked.name with
  | none =>
    simp only [found] at held
    exact kept held
  | some entry =>
    simp only [found] at held
    by_cases current : entry.id = asked.id
    · rw [if_pos current] at held
      -- every entry has the id it had under its name
      have before : ∀ name found, after.tracked.statements.get name = some found →
          ∃ old, state.tracked.statements.get name = some old ∧ old.id = found.id ∧
            (found.described = old.described ∨
              found.id = asked.id ∧ found.described = some positions) := by
        intro name read got
        rw [held, Table.get_put] at got
        split at got
        · rename_i same
          cases got
          exact ⟨entry, same ▸ found, rfl, .inr ⟨current, rfl⟩⟩
        · exact ⟨read, got, rfl, .inl rfl⟩
      refine ⟨?_, ?_, ?_, ?_, ?_⟩
      · rw [held, Table.size_put, found]
        exact sound.few
      · intro name read got
        obtain ⟨old, there, _⟩ := before name read got
        exact sound.short name old there
      · intro name read got
        obtain ⟨old, there, same, _⟩ := before name read got
        rw [ids, ← same]
        exact sound.below name old there
      · intro left right read other here there same
        obtain ⟨oldLeft, atLeft, leftId, _⟩ := before left read here
        obtain ⟨oldRight, atRight, rightId, _⟩ := before right other there
        exact sound.distinct left right oldLeft oldRight atLeft atRight
          (by rw [leftId, rightId, same])
      · intro name read given got described
        obtain ⟨old, there, same, unchanged | ⟨named, fresh⟩⟩ := before name read got
        · rw [answered, ← same]
          exact List.mem_cons_of_mem _
            (sound.described name old given there (unchanged ▸ described))
        · rw [fresh] at described
          cases described
          rw [answered, named]
          exact List.mem_cons_self
    · rw [if_neg current] at held
      exact kept held

theorem queue_described {rest : List (Pending Positions Mark UInt64)} (sound : Queue state)
    (front : state.tracked.pending = .describe (some asked) :: rest)
    (queued : after.tracked.pending = rest.map (Pending.backfill asked.id positions))
    (statementIds : after.tracked.nextStatementId = state.tracked.nextStatementId)
    (executeIds : after.tracked.nextExecuteId = state.tracked.nextExecuteId)
    (answered : after.answered = (asked.id, positions) :: state.answered)
    (derived : after.derived = state.derived) : Queue after := by
  have behind {entry : Pending Positions Mark UInt64} (listed : entry ∈ rest) :
      entry ∈ state.tracked.pending :=
    front ▸ List.mem_cons_of_mem _ listed
  have named := (sound.describes asked (front ▸ List.mem_cons_self)).2
  refine ⟨?_, ?_, ?_, ?_, ?_⟩
  · have few := sound.few
    rw [front, List.length_cons] at few
    rw [queued, List.length_map]
    omega
  · intro statement listed
    rw [queued] at listed
    rw [statementIds]
    rcases mem_backfill listed with held | ⟨_, _, other, _⟩
    · exact sound.describes statement (behind held)
    · cases other
  · intro id statement given formats listed
    rw [queued] at listed
    rw [statementIds, executeIds]
    rcases mem_backfill listed with held | ⟨_, _, filled, held⟩
    · exact sound.executes id statement given formats (behind held)
    · cases filled
      refine ⟨(sound.executes _ _ _ _ (behind held)).1, ?_⟩
      rintro incarnation ⟨⟩
      exact named
  · intro id statement given formats listed
    rw [queued] at listed
    rcases mem_backfill listed with held | ⟨_, _, filled, held⟩
    · obtain ⟨incarnation, same, origin⟩ := sound.origins id statement given formats (behind held)
      exact ⟨incarnation, same, origin.grow (by rw [answered]; exact List.subset_cons_self _ _)
        (by rw [derived]; exact List.Subset.refl _)⟩
    · cases filled
      exact ⟨asked.id, rfl, positions, answered ▸ List.mem_cons_self, .inl rfl⟩
  · rw [queued, List.filterMap_map]
    have same : executeId ∘ Pending.backfill asked.id positions =
        (executeId : Pending Positions Mark UInt64 → Option UInt64) :=
      funext (backfill_executeId asked.id positions)
    rw [same]
    have increasing := sound.increasing
    rw [front] at increasing
    exact increasing

theorem sound_describe (sound : Sound state) (positions : Positions) :
    Sound (state.describe positions) := by
  cases queue : state.tracked.pending with
  | nil =>
    simpa [State.describe, State.asked, Tracked.describeAnswered, queue] using sound
  | cons first rest =>
    cases first with
    | describe asked =>
      cases asked with
      | none =>
        have popped : state.describe positions =
            { state with tracked := { state.tracked with pending := rest } } := by
          simp [State.describe, State.asked, Tracked.describeAnswered, queue]
        rw [popped]
        exact sound.shrink rfl rfl (queue ▸ List.sublist_cons_self _ _) (UInt64.le_refl _)
          (UInt64.le_refl _) (List.Subset.refl _) (List.Subset.refl _)
      | some asked =>
        have answered : (state.describe positions).answered =
            (asked.id, positions) :: state.answered := by
          simp [State.describe, State.asked, queue]
        have tracked : (state.describe positions).tracked =
            state.tracked.describeAnswered positions := rfl
        simp only [Tracked.describeAnswered, queue] at tracked
        refine ⟨?_, ?_, ?_⟩
        · refine statements_described sound.statements ?_ (by rw [tracked]) answered
          rw [tracked]
          cases state.tracked.statements.get asked.name <;> rfl
        · exact sound.portals.shrink (by rw [tracked]) (by rw [tracked]; exact fun _ _ => id)
        · exact queue_described sound.queue queue (by rw [tracked]) (by rw [tracked])
            (by rw [tracked]) answered rfl
    | execute id statement given formats =>
      simpa [State.describe, State.asked, Tracked.describeAnswered, queue] using sound
    | batch mark =>
      simpa [State.describe, State.asked, Tracked.describeAnswered, queue] using sound

theorem sound_rederive (sound : Sound state) (positions : Positions) :
    Sound (state.rederive positions) := by
  cases queue : state.tracked.pending with
  | nil =>
    simpa [State.rederive, State.settled, Tracked.rederived, queue] using sound
  | cons first rest =>
    cases first with
    | execute id statement given formats =>
      cases given with
      | none =>
        simpa [State.rederive, State.settled, Tracked.rederived, queue] using sound
      | some old =>
        -- Only the Execute in front changes: its origin is now what was derived for it.
        have changed : state.rederive positions =
            { state with
              tracked := { state.tracked with
                pending := .execute id statement (some positions) formats :: rest }
              derived := (id, positions) :: state.derived } := by
          simp [State.rederive, State.settled, Tracked.rederived, queue]
        rw [changed]
        have front : .execute id statement (some old) formats ∈ state.tracked.pending :=
          queue ▸ List.mem_cons_self
        have behind {entry : Pending Positions Mark UInt64} (listed : entry ∈ rest) :
            entry ∈ state.tracked.pending := queue ▸ List.mem_cons_of_mem _ listed
        refine ⟨⟨sound.statements.few, sound.statements.short, sound.statements.below,
          sound.statements.distinct, sound.statements.described⟩, ⟨sound.portals.few,
          sound.portals.short⟩, ⟨?_, ?_, ?_, ?_, ?_⟩⟩
        · have few := sound.queue.few
          rw [queue] at few
          exact few
        · intro asked listed
          rcases List.mem_cons.mp listed with here | later
          · cases here
          · exact sound.queue.describes asked (behind later)
        · intro id' statement' positions' formats' listed
          rcases List.mem_cons.mp listed with here | later
          · cases here
            exact sound.queue.executes _ _ _ _ front
          · exact sound.queue.executes _ _ _ _ (behind later)
        · intro id' statement' positions' formats' listed
          rcases List.mem_cons.mp listed with here | later
          · cases here
            obtain ⟨incarnation, same, first, told, _⟩ := sound.queue.origins _ _ _ _ front
            exact ⟨incarnation, same, first, told, .inr List.mem_cons_self⟩
          · obtain ⟨incarnation, same, origin⟩ := sound.queue.origins _ _ _ _ (behind later)
            exact ⟨incarnation, same, origin.grow (List.Subset.refl _) (List.subset_cons_self _ _)⟩
        · have increasing := sound.queue.increasing
          rw [queue] at increasing
          exact increasing
    | describe statement =>
      simpa [State.rederive, State.settled, Tracked.rederived, queue] using sound
    | batch mark =>
      simpa [State.rederive, State.settled, Tracked.rederived, queue] using sound

theorem copyData_shrinks (tracked : Tracked Positions Mark UInt64) (frame : CopyFrame) :
    ∃ pending copyIn, tracked.copyData frame = { tracked with pending, copyIn } ∧
      pending.Sublist tracked.pending := by
  unfold Tracked.copyData
  cases tracked.copyIn with
  | idle => exact ⟨_, _, rfl, List.Sublist.refl _⟩
  | started execute =>
    cases execute with
    | none => exact ⟨_, _, rfl, List.Sublist.refl _⟩
    | some id => exact ⟨_, _, rfl, dropMarkers_sublist id _⟩

theorem executeAnswered_shrinks (tracked : Tracked Positions Mark UInt64) :
    ∃ pending, tracked.executeAnswered = { tracked with pending } ∧
      pending.Sublist tracked.pending := by
  unfold Tracked.executeAnswered
  split
  · rename_i queue
    exact ⟨_, rfl, queue ▸ List.sublist_cons_self _ _⟩
  · exact ⟨_, rfl, List.Sublist.refl _⟩

theorem batchAnswered_shrinks (tracked : Tracked Positions Mark UInt64) :
    (tracked.batchAnswered).pending.Sublist tracked.pending :=
  (List.drop_sublist _ _).trans (List.dropWhile_sublist _)

/-- What an operation mints does not wrap the counter around. -/
def Mints (state : State Positions Mark) : Operation Positions Mark → Prop
  | .parse .. => state.tracked.nextStatementId.toNat + 1 < 2 ^ 64
  | .expectExecute _ => state.tracked.nextExecuteId.toNat + 1 < 2 ^ 64
  | _ => True

theorem sound_apply [Inhabited Positions] (sound : Sound state)
    (operation : Operation Positions Mark) (fits : Mints state operation) :
    Sound (state.apply operation) := by
  have unminted {entry : Pending Positions Mark UInt64} (plain : executeId entry = none)
      (id : UInt64) (queued : id < state.tracked.nextExecuteId ∨ executeId entry = some id) :
      id < state.tracked.nextExecuteId := by
    rcases queued with below | minted
    · exact below
    · cases plain.symm.trans minted
  cases operation with
  | parse statement params =>
    rw [State.apply]
    cases ran : state.tracked.parse statement params with
    | ok tracked => exact sound_parse sound fits ran
    | error _ => exact sound
  | bind portal statement formats =>
    rw [State.apply]
    cases ran : state.tracked.bind portal statement formats with
    | ok reached => exact sound_bind sound ran
    | error _ => exact sound
  | closeStatement statement => exact sound_closeStatement sound statement
  | closePortal portal => exact sound_closePortal sound portal
  | expectDescribe target name =>
    rw [State.apply]
    cases ran : state.tracked.expectDescribe target name with
    | ok tracked =>
      have pushed := ran
      simp only [Tracked.expectDescribe, Outcome.bind_ok_iff] at pushed
      obtain ⟨_, _, pushed⟩ := pushed
      cases expectDescribe_ok ran
      exact sound.push (admitted_describe sound target name) (push_room pushed) (unminted rfl)
    | error _ => exact sound
  | expectExecute portal =>
    rw [State.apply]
    cases ran : state.tracked.expectExecute portal with
    | ok tracked =>
      have pushed := ran
      rw [Tracked.expectExecute] at pushed
      have room := push_room pushed
      cases expectExecute_ok ran
      refine sound.push (admitted_execute sound portal) room ?_
      rintro id (below | minted)
      · exact UInt64.lt_trans below (lt_next fits)
      · cases minted
        exact lt_next fits
    | error _ =>
      -- The id of a refused Execute is used up.
      exact sound.shrink rfl rfl (List.Sublist.refl _) (UInt64.le_refl _)
        (UInt64.le_of_lt (lt_next fits)) (List.Subset.refl _) (List.Subset.refl _)
  | expectBatch mark =>
    rw [State.apply]
    cases ran : state.tracked.expectBatch mark with
    | ok tracked =>
      cases expectBatch_ok ran
      have admitted : Admitted state (.batch mark) := trivial
      exact sound.push admitted (push_room ran) (unminted rfl)
    | error _ => exact sound
  | copyInStarted =>
    exact sound.shrink rfl rfl (List.Sublist.refl _) (UInt64.le_refl _) (UInt64.le_refl _)
      (List.Subset.refl _) (List.Subset.refl _)
  | copyData frame =>
    obtain ⟨pending, copyIn, ran, fewer⟩ := copyData_shrinks state.tracked frame
    rw [State.apply, ran]
    exact sound.shrink rfl rfl fewer (UInt64.le_refl _) (UInt64.le_refl _)
      (List.Subset.refl _) (List.Subset.refl _)
  | describeAnswered positions => exact sound_describe sound positions
  | noData => exact sound_describe sound default
  | rederived positions => exact sound_rederive sound positions
  | rowSource => exact sound
  | executeAnswered =>
    obtain ⟨pending, ran, fewer⟩ := executeAnswered_shrinks state.tracked
    rw [State.apply, ran]
    exact sound.shrink rfl rfl fewer (UInt64.le_refl _) (UInt64.le_refl _)
      (List.Subset.refl _) (List.Subset.refl _)
  | batchAnswered =>
    exact sound.shrink rfl rfl (batchAnswered_shrinks _) (UInt64.le_refl _) (UInt64.le_refl _)
      (List.Subset.refl _) (List.Subset.refl _)

theorem sound_new : Sound (State.new : State Positions Mark) := by
  refine ⟨⟨Nat.zero_le _, ?_, ?_, ?_, ?_⟩, ⟨Nat.zero_le _, ?_⟩, ⟨Nat.zero_le _, ?_, ?_, ?_, .nil⟩⟩
    <;> exact nofun

variable {statement : Option UInt64} {positions : Option Positions}

theorem Queue.execute_unique (sound : Queue state) {statement' : Option UInt64}
    {positions' : Option Positions} {formats' : ResultFormats}
    (left : .execute id statement positions formats ∈ state.tracked.pending)
    (right : .execute id statement' positions' formats' ∈ state.tracked.pending) :
    statement = statement' ∧ positions = positions' ∧ formats = formats' := by
  have increasing := sound.increasing
  revert left right increasing
  induction state.tracked.pending with
  | nil => exact nofun
  | cons first rest ih =>
    intro left right increasing
    -- an id at the front lies below every id behind it
    have apart {queued : Option UInt64} {given : Option Positions} {chosen : ResultFormats}
        (front : executeId first = some id) (behind : .execute id queued given chosen ∈ rest) :
        False := by
      rw [List.filterMap_cons, front] at increasing
      have listed : id ∈ rest.filterMap executeId := List.mem_filterMap.mpr ⟨_, behind, rfl⟩
      exact UInt64.lt_irrefl id ((List.pairwise_cons.mp increasing).1 id listed)
    have later : (rest.filterMap executeId).Pairwise (· < ·) := by
      rw [List.filterMap_cons] at increasing
      split at increasing
      · exact increasing
      · exact (List.pairwise_cons.mp increasing).2
    rcases List.mem_cons.mp left with here | there
    · rcases List.mem_cons.mp right with here' | there'
      · rw [← here] at here'
        cases here'
        exact ⟨rfl, rfl, rfl⟩
      · exact (apart (by rw [← here]; rfl) there').elim
    · rcases List.mem_cons.mp right with here' | there'
      · exact (apart (by rw [← here']; rfl) there).elim
      · exact ih there there' later

def Came (state : State Positions Mark) (operation : Operation Positions Mark) (id : UInt64)
    (statement : Option UInt64) (positions : Option Positions) (formats : ResultFormats) :
    Prop :=
  .execute id statement positions formats ∈ state.tracked.pending ∨
    id = state.tracked.nextExecuteId ∨ .execute id statement none formats ∈ state.tracked.pending ∨
    ∃ fresh old rest, operation = .rederived fresh ∧ positions = some fresh ∧
      state.tracked.pending = .execute id statement (some old) formats :: rest

variable {operation : Operation Positions Mark}

theorem came_pushed
    (fresh : ∀ minted, executeId entry = some minted → minted = state.tracked.nextExecuteId)
    (queued : .execute id statement positions formats ∈ state.tracked.pending ++ [entry]) :
    Came state operation id statement positions formats := by
  rcases List.mem_append.mp queued with earlier | last
  · exact .inl earlier
  · exact .inr (.inl (fresh id (List.mem_singleton.mp last ▸ rfl)))

theorem came_described {described : Positions}
    (queued : .execute id statement positions formats ∈
      (state.tracked.describeAnswered described).pending) :
    Came state operation id statement positions formats := by
  unfold Tracked.describeAnswered at queued
  split at queued
  · rename_i rest queue
    exact .inl (queue ▸ List.mem_cons_of_mem _ queued)
  · rename_i asked rest queue
    rcases mem_backfill queued with held | ⟨_, _, filled, held⟩
    · exact .inl (queue ▸ List.mem_cons_of_mem _ held)
    · cases filled
      exact .inr (.inr (.inl (queue ▸ List.mem_cons_of_mem _ held)))
  · exact .inl queued

theorem came_rederived {fresh : Positions}
    (queued : .execute id statement positions formats ∈ (state.tracked.rederived fresh).pending) :
    Came state (.rederived fresh) id statement positions formats := by
  unfold Tracked.rederived at queued
  split at queued
  · rename_i front named old chosen rest queue
    rcases List.mem_cons.mp queued with here | later
    · cases here
      exact .inr (.inr (.inr ⟨fresh, old, rest, rfl, rfl, queue⟩))
    · exact .inl (queue ▸ List.mem_cons_of_mem _ later)
  · exact .inl queued

theorem came_applied [Inhabited Positions] (operation : Operation Positions Mark)
    (queued : .execute id statement positions formats ∈ (state.apply operation).tracked.pending) :
    Came state operation id statement positions formats := by
  cases operation with
  | parse name params =>
    rw [State.apply] at queued
    cases ran : state.tracked.parse name params with
    | ok tracked =>
      rw [ran] at queued
      cases parse_ok ran
      exact .inl queued
    | error _ =>
      rw [ran] at queued
      exact .inl queued
  | bind portal name chosen =>
    rw [State.apply] at queued
    cases ran : state.tracked.bind portal name chosen with
    | ok reached =>
      rw [ran] at queued
      obtain ⟨tracked, params⟩ := reached
      obtain ⟨rfl, _⟩ := bind_ok ran
      exact .inl queued
    | error _ =>
      rw [ran] at queued
      exact .inl queued
  | closeStatement name => exact .inl queued
  | closePortal name => exact .inl queued
  | expectDescribe target name =>
    rw [State.apply] at queued
    cases ran : state.tracked.expectDescribe target name with
    | ok tracked =>
      rw [ran] at queued
      cases expectDescribe_ok ran
      exact came_pushed (by intro minted same; cases same) queued
    | error _ =>
      rw [ran] at queued
      exact .inl queued
  | expectExecute portal =>
    rw [State.apply] at queued
    cases ran : state.tracked.expectExecute portal with
    | ok tracked =>
      rw [ran] at queued
      cases expectExecute_ok ran
      exact came_pushed (by intro minted same; cases same; rfl) queued
    | error _ =>
      rw [ran] at queued
      exact .inl queued
  | expectBatch mark =>
    rw [State.apply] at queued
    cases ran : state.tracked.expectBatch mark with
    | ok tracked =>
      rw [ran] at queued
      cases expectBatch_ok ran
      exact came_pushed (by intro minted same; cases same) queued
    | error _ =>
      rw [ran] at queued
      exact .inl queued
  | copyInStarted => exact .inl queued
  | copyData frame =>
    obtain ⟨pending, copyIn, ran, fewer⟩ := copyData_shrinks state.tracked frame
    rw [State.apply, ran] at queued
    exact .inl (fewer.mem queued)
  -- What a queued Execute carries changes here and with a re-derivation, nowhere else.
  | describeAnswered described => exact came_described queued
  | noData => exact came_described queued
  | rederived fresh => exact came_rederived queued
  | rowSource => exact .inl queued
  | executeAnswered =>
    obtain ⟨pending, ran, fewer⟩ := executeAnswered_shrinks state.tracked
    rw [State.apply, ran] at queued
    exact .inl (fewer.mem queued)
  | batchAnswered => exact .inl ((batchAnswered_shrinks _).mem queued)

theorem kept_applied [Inhabited Positions] (sound : Queue state)
    (operation : Operation Positions Mark) :
    Kept state operation := by
  intro id statement positions formats held statement' positions' formats' queued
  rcases came_applied operation queued
    with same | minted | unset | ⟨fresh, old, rest, rfl, rfl, queue⟩
  · obtain ⟨rfl, rfl, rfl⟩ := sound.execute_unique held same
    exact ⟨rfl, rfl, .inl rfl⟩
  · exact absurd (minted ▸ (sound.executes _ _ _ _ held).1) (UInt64.lt_irrefl _)
  · obtain ⟨_, other, _⟩ := sound.execute_unique held unset
    cases other
  · obtain ⟨rfl, same, rfl⟩ := sound.execute_unique held (queue ▸ List.mem_cons_self)
    cases same
    exact ⟨rfl, rfl, .inr ⟨fresh, rest, rfl, queue, rfl⟩⟩

def Operation.parses : Operation Positions Mark → Bool
  | .parse .. => true
  | _ => false

def Operation.executes : Operation Positions Mark → Bool
  | .expectExecute _ => true
  | _ => false

theorem describeAnswered_next (tracked : Tracked Positions Mark UInt64) (positions : Positions) :
    (tracked.describeAnswered positions).nextStatementId = tracked.nextStatementId ∧
      (tracked.describeAnswered positions).nextExecuteId = tracked.nextExecuteId := by
  unfold Tracked.describeAnswered
  split <;> exact ⟨rfl, rfl⟩

theorem apply_next [Inhabited Positions] (state : State Positions Mark)
    (operation : Operation Positions Mark) :
    ((state.apply operation).tracked.nextStatementId = state.tracked.nextStatementId ∨
        operation.parses = true ∧
          (state.apply operation).tracked.nextStatementId = state.tracked.nextStatementId + 1) ∧
      ((state.apply operation).tracked.nextExecuteId = state.tracked.nextExecuteId ∨
        operation.executes = true ∧
          (state.apply operation).tracked.nextExecuteId = state.tracked.nextExecuteId + 1) := by
  cases operation with
  | parse name params =>
    rw [State.apply]
    cases ran : state.tracked.parse name params with
    | ok tracked =>
      cases parse_ok ran
      exact ⟨.inr ⟨rfl, rfl⟩, .inl rfl⟩
    | error _ => exact ⟨.inl rfl, .inl rfl⟩
  | bind portal name chosen =>
    rw [State.apply]
    cases ran : state.tracked.bind portal name chosen with
    | ok reached =>
      obtain ⟨tracked, params⟩ := reached
      obtain ⟨rfl, _⟩ := bind_ok ran
      exact ⟨.inl rfl, .inl rfl⟩
    | error _ => exact ⟨.inl rfl, .inl rfl⟩
  | expectDescribe target name =>
    rw [State.apply]
    cases ran : state.tracked.expectDescribe target name with
    | ok tracked =>
      cases expectDescribe_ok ran
      exact ⟨.inl rfl, .inl rfl⟩
    | error _ => exact ⟨.inl rfl, .inl rfl⟩
  | expectExecute portal =>
    rw [State.apply]
    cases ran : state.tracked.expectExecute portal with
    | ok tracked =>
      cases expectExecute_ok ran
      exact ⟨.inl rfl, .inr ⟨rfl, rfl⟩⟩
    | error _ => exact ⟨.inl rfl, .inr ⟨rfl, rfl⟩⟩
  | expectBatch mark =>
    rw [State.apply]
    cases ran : state.tracked.expectBatch mark with
    | ok tracked =>
      cases expectBatch_ok ran
      exact ⟨.inl rfl, .inl rfl⟩
    | error _ => exact ⟨.inl rfl, .inl rfl⟩
  | copyData frame =>
    obtain ⟨pending, copyIn, ran, _⟩ := copyData_shrinks state.tracked frame
    rw [State.apply, ran]
    exact ⟨.inl rfl, .inl rfl⟩
  | describeAnswered described =>
    obtain ⟨statements, executes⟩ := describeAnswered_next state.tracked described
    exact ⟨.inl statements, .inl executes⟩
  | noData =>
    obtain ⟨statements, executes⟩ := describeAnswered_next state.tracked (default : Positions)
    exact ⟨.inl statements, .inl executes⟩
  | rederived fresh =>
    change (Tracked.nextStatementId (state.tracked.rederived fresh) = _ ∨ _) ∧
      (Tracked.nextExecuteId (state.tracked.rederived fresh) = _ ∨ _)
    unfold Tracked.rederived
    split <;> exact ⟨.inl rfl, .inl rfl⟩
  | executeAnswered =>
    obtain ⟨pending, ran, _⟩ := executeAnswered_shrinks state.tracked
    rw [State.apply, ran]
    exact ⟨.inl rfl, .inl rfl⟩
  | closeStatement name => exact ⟨.inl rfl, .inl rfl⟩
  | closePortal name => exact ⟨.inl rfl, .inl rfl⟩
  | copyInStarted => exact ⟨.inl rfl, .inl rfl⟩
  | rowSource => exact ⟨.inl rfl, .inl rfl⟩
  | batchAnswered => exact ⟨.inl rfl, .inl rfl⟩

/-- A counter that is moved by one at most stays below what is left of its bound. -/
theorem counted_below {before after : UInt64} {moves : Bool} {left : Nat}
    (moved : after = before ∨ moves = true ∧ after = before + 1)
    (bound : before.toNat + (left + if moves then 1 else 0) < 2 ^ 64) :
    after.toNat + left < 2 ^ 64 := by
  rcases moved with rfl | ⟨rfl, rfl⟩
  · omega
  · rw [if_pos rfl] at bound
    rw [UInt64.toNat_add, show (1 : UInt64).toNat = 1 from rfl, Nat.mod_eq_of_lt (by omega)]
    omega

theorem run_sound [Inhabited Positions] {operations : List (Operation Positions Mark)}
    (sound : Sound state)
    (parses : state.tracked.nextStatementId.toNat + operations.countP Operation.parses < 2 ^ 64)
    (executes : state.tracked.nextExecuteId.toNat + operations.countP Operation.executes < 2 ^ 64) :
    Sound (state.run operations) := by
  induction operations generalizing state with
  | nil => exact sound
  | cons operation rest ih =>
    rw [List.countP_cons] at parses executes
    have fits : Mints state operation := by
      cases operation with
      | parse name params => exact Nat.lt_of_le_of_lt (by simp [Operation.parses]) parses
      | expectExecute portal => exact Nat.lt_of_le_of_lt (by simp [Operation.executes]) executes
      | _ => trivial
    obtain ⟨statements, queued⟩ := apply_next state operation
    exact ih (sound_apply sound operation fits) (counted_below statements parses)
      (counted_below queued executes)

/-- Whatever both directions do in whatever order, with fewer than `2^64` Parses and as many
Executes, the maps and the queue stay within their caps, no name and no id is shared, and a
queued Execute keeps the description that was answered for its own statement until one is
derived anew for it at the front. -/
theorem portals_sound [Inhabited Positions] (operations : List (Operation Positions Mark))
    (parses : operations.countP Operation.parses < 2 ^ 64)
    (executes : operations.countP Operation.executes < 2 ^ 64) :
    Sound (State.new.run operations) ∧ ∀ operation, Kept (State.new.run operations) operation := by
  have sound : Sound ((State.new : State Positions Mark).run operations) :=
    run_sound sound_new (by simpa [State.new, Tracked.new] using parses)
      (by simpa [State.new, Tracked.new] using executes)
  exact ⟨sound, kept_applied sound.queue⟩

/-- A statement is described and its two Executes are queued: one before the answer, which is
back-filled, and one behind it. -/
theorem described_executes_sound :
    let state := (State.new : State Nat Unit).run
      [.parse [] .empty, .bind [] [] none, .expectDescribe .statement [], .expectExecute [],
        .describeAnswered 10, .expectExecute []]
    state.tracked.pending =
      [.execute 0 (some 0) (some 10) none, .execute 1 (some 0) (some 10) none] ∧
      Sound state :=
  ⟨rfl, (portals_sound _ (by decide) (by decide)).1⟩

end Operations

section Wrapping

/-- The statement parsed first still has its id, and so many ids have been minted. -/
structure Minted (state : State Nat Unit) (count : Nat) : Prop where
  first : ∃ params described, state.tracked.statements.get [97] = some ⟨0, params, described⟩
  few : state.tracked.statements.size ≤ 2
  alone : (state.tracked.statements.get [98]).isNone = true → state.tracked.statements.size ≤ 1
  next : state.tracked.nextStatementId = UInt64.ofNat count

theorem parse_accepted {state : State Nat Unit} {name : Bytes} (short : name.length ≤ maxNameLen)
    (few : state.tracked.statements.size ≤ 2) :
    state.apply (.parse name .empty) = { state with tracked := { state.tracked with
      nextStatementId := state.tracked.nextStatementId + 1
      statements := state.tracked.statements.put name
        ⟨state.tracked.nextStatementId, .empty, none⟩ } } := by
  have room : ¬ state.tracked.statements.size ≥ maxPreparedStatements := by
    have cap : maxPreparedStatements = 1024 := rfl
    omega
  simp [State.apply, Tracked.parse, checkName, Nat.not_lt.mpr short, room, bind, Except.bind, pure,
    Except.pure]

theorem parsed_again {state : State Nat Unit} {count : Nat} (minted : Minted state count) :
    Minted (state.apply (.parse [98] .empty)) (count + 1) := by
  rw [parse_accepted (by decide) minted.few]
  refine ⟨?_, ?_, ?_, ?_⟩
  · simpa [Table.get_put] using minted.first
  · have held := minted.few
    have alone := minted.alone
    simp only [Table.size_put]
    split
    · have := alone ‹_›
      omega
    · exact held
  · intro absent
    simp at absent
  · rw [minted.next, UInt64.ofNat_add]
    rfl

theorem run_snoc (state : State Nat Unit) (operations : List (Operation Nat Unit))
    (last : Operation Nat Unit) :
    state.run (operations ++ [last]) = (state.run operations).apply last := by
  simp [State.run]

theorem parsed_often (count : Nat) :
    Minted (State.new.run (.parse [97] .empty :: List.replicate count (.parse [98] .empty)))
      (count + 1) := by
  induction count with
  | zero => exact ⟨⟨_, _, rfl⟩, by decide, by decide, rfl⟩
  | succ count ih =>
    rw [List.replicate_succ', ← List.cons_append, run_snoc]
    exact parsed_again ih

/-- Two statements have the same id. -/
def SharesId (state : State Nat Unit) : Prop :=
  ∃ left right entry other, left ≠ right ∧ state.tracked.statements.get left = some entry ∧
    state.tracked.statements.get right = some other ∧ entry.id = other.id

theorem sharesId_of_minted {state : State Nat Unit} {count : Nat} (minted : Minted state count)
    (whole : UInt64.ofNat count = 0) : SharesId (state.apply (.parse [99] .empty)) := by
  obtain ⟨params, described, first⟩ := minted.first
  rw [parse_accepted (by decide) minted.few]
  refine ⟨[97], [99], ⟨0, params, described⟩, _, by decide, ?_, Table.get_put_self _ _ _, ?_⟩
  · rw [Table.get_put_ne _ _ (by decide)]
    exact first
  · rw [minted.next, whole]

/-- Behind `2^64` Parses the next one mints zero again, the id of the first statement, which
is still held. -/
theorem wrapped_id_shared :
    ∃ operations : List (Operation Nat Unit),
      SharesId (State.new.run operations) ∧ ¬ Sound (State.new.run operations) := by
  have shared : ∀ count, UInt64.ofNat (count + 1) = 0 → ∃ operations : List (Operation Nat Unit),
      SharesId (State.new.run operations) := by
    intro count whole
    refine ⟨(.parse [97] .empty :: List.replicate count (.parse [98] .empty)) ++
      [.parse [99] .empty], ?_⟩
    rw [run_snoc]
    exact sharesId_of_minted (parsed_often count) whole
  obtain ⟨operations, shares⟩ := shared (2 ^ 64 - 1) (by decide)
  refine ⟨operations, shares, fun sound => ?_⟩
  obtain ⟨left, right, entry, other, apart, here, there, same⟩ := shares
  exact apart (sound.statements.distinct left right entry other here there same)

end Wrapping

end Dbsec.PortalState
