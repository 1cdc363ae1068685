import Dbsec.Publication

/-! What holds of the descriptions of all sessions in every interleaving with the
publisher. The generation a description is stamped with is always that of its
resolution; that a session never falls behind a complete publish rests on the generation
not saturating. A statement keeps the description of its Describe, and each Execute
starts from that one again, so what an earlier Execute had added is not kept. -/
namespace Dbsec.Publication
open Framing Params Resolve ReadPath Portal

section Stamps

/-- Every description a session keeps, is about to use or has used carries the generation
of the resolution it was last derived from. -/
structure Session.Sound (shared : Shared) (session : Session) : Prop where
  held : ∀ described, Holds session.tracked described → Stamped shared described
  describing : ∀ fresh, session.phase = .describing fresh → Stamped shared fresh
  reading : ∀ completed positions, session.phase = .reading completed positions →
    Stamped shared positions ∧ completed ≤ shared.completed
  used : ∀ use ∈ session.used, Stamped shared use.positions

def State.Sound (state : State) : Prop :=
  state.shared.Sound ∧ ∀ number, (state.sessions number).Sound state.shared

variable {session : Session}

theorem session_publisher {before after : Shared} (sound : session.Sound before)
    (kept : ∀ described, Stamped before described → Stamped after described)
    (later : before.completed ≤ after.completed) : session.Sound after where
  held described held := kept described (sound.held described held)
  describing fresh phase := kept fresh (sound.describing fresh phase)
  reading completed positions phase :=
    ⟨kept positions (sound.reading completed positions phase).1,
      (sound.reading completed positions phase).2.trans later⟩
  used use listed := kept use.positions (sound.used use listed)

variable {event : Event}

theorem session_moves {shared : Shared} (agreed : shared.Sound) {after : Session}
    (sound : session.Sound shared) (moves : Moves shared session event after) :
    after.Sound shared := by
  cases moves with
  | tracked tracked copied =>
    refine ⟨?_, sound.describing, sound.reading, sound.used⟩
    intro described held
    rcases copied described held with before | rfl
    · exact sound.held described before
    · exact stamped_noDescription agreed
  | described fields idle =>
    refine ⟨sound.held, ?_, nofun, sound.used⟩
    rintro _ ⟨⟩
    exact stamped_new agreed fields
  | recorded fresh describing =>
    refine ⟨?_, nofun, nofun, sound.used⟩
    intro described held
    rcases holds_describeAnswered held with before | rfl
    · exact sound.held described before
    · exact sound.describing described describing
  | current positions idle held same =>
    refine ⟨sound.held, sound.describing, sound.reading, ?_⟩
    intro use listed
    rcases List.mem_append.mp listed with early | new
    · exact sound.used use early
    · cases List.mem_singleton.mp new
      exact sound.held positions held
  | behind positions idle held other =>
    refine ⟨sound.held, nofun, ?_, sound.used⟩
    rintro _ _ ⟨⟩
    exact ⟨sound.held positions held, Nat.le_refl _⟩
  | refreshed completed positions reading =>
    refine ⟨?_, nofun, nofun, ?_⟩
    · intro described held
      rcases holds_rederived held with before | rfl
      · exact sound.held described before
      · exact stamped_rederived agreed positions
    · intro use listed
      rcases List.mem_append.mp listed with early | new
      · exact sound.used use early
      · cases List.mem_singleton.mp new
        exact stamped_rederived agreed positions

/-- A property of sessions kept by every move of a session and by both steps of the
publisher is kept by every step. -/
theorem sessions_step {holds : Shared → Session → Prop} {before after : State} {event : Event}
    (taken : Step before event after)
    (each : ∀ number, holds before.shared (before.sessions number))
    (swapped : ∀ resolved session, event = .swap resolved → before.shared.storing = none →
      holds before.shared session → holds (before.shared.swap resolved) session)
    (stored : ∀ generation session, before.shared.storing = some generation →
      holds before.shared session → holds (before.shared.store generation) session)
    (moved : ∀ number session, Moves before.shared (before.sessions number) event session →
      holds before.shared (before.sessions number) → holds before.shared session) :
    ∀ number, holds after.shared (after.sessions number) := by
  intro number
  rcases step_cases taken with ⟨resolved, rfl, free, rfl⟩ | ⟨generation, rfl, storing, rfl⟩ |
    ⟨mover, session, moves, rfl⟩
  · exact swapped resolved _ rfl free (each number)
  · exact stored generation _ storing (each number)
  · by_cases own : number = mover
    · subst own
      simp only [Function.update_self]
      exact moved number session moves (each number)
    · simp only [Function.update_of_ne own]
      exact each number

variable {before after : State}

theorem shared_step (sound : before.shared.Sound) (taken : Step before event after) :
    after.shared.Sound := by
  rcases step_cases taken with ⟨resolved, rfl, free, rfl⟩ | ⟨generation, rfl, storing, rfl⟩ |
    ⟨mover, session, moves, rfl⟩
  · exact sound_swap sound free resolved
  · exact sound_store sound storing
  · exact sound

theorem sound_step (sound : before.Sound) (taken : Step before event after) : after.Sound := by
  refine ⟨shared_step sound.1 taken, sessions_step taken sound.2 ?_ ?_ ?_⟩
  · intro resolved session _ _ held
    exact session_publisher held (fun _ stamped => stamped_swap stamped resolved) (Nat.le_refl _)
  · intro generation session _ held
    exact session_publisher held (fun _ => id) (Nat.le_succ _)
  · intro number session moves held
    exact session_moves sound.1 held moves

theorem sound_init (resolved : Resolved) : (State.init resolved).Sound := by
  refine ⟨sound_new resolved, fun number => ⟨?_, nofun, nofun, nofun⟩⟩
  rintro described (⟨name, entry, found, _⟩ | ⟨id, statement, formats, listed⟩)
  · cases found
  · cases listed

end Stamps

section Freshness

/-- The generation does not saturate: at most 2^64 - 1 publishes. -/
def Counted (state : State) : Event → Prop
  | .swap _ => state.shared.history.length < 2 ^ 64
  | _ => True

variable {shared : Shared}

theorem stamped_place (sound : shared.Sound) (few : shared.history.length ≤ 2 ^ 64)
    {described : Described} (stamped : Stamped shared described) :
    ∃ resolved, shared.history[described.generation]? = some resolved ∧
      LastDerived resolved described := by
  obtain ⟨place, resolved, found, derived⟩ := stamped
  have inside := (List.getElem?_eq_some_iff.mp found).1
  have number := sound.numbered place resolved found
  have same : described.generation = place := by
    rw [derived.generation, number]
    have bound : maxGeneration = 2 ^ 64 - 1 := rfl
    omega
  exact ⟨resolved, same ▸ found, derived⟩

def Fresh (session : Session) : Prop :=
  ∀ use ∈ session.used, use.completed ≤ use.positions.generation

variable {event : Event}

theorem fresh_moves (agreed : shared.Sound) (few : shared.history.length ≤ 2 ^ 64)
    {session after : Session} (sound : session.Sound shared) (fresh : Fresh session)
    (moves : Moves shared session event after) : Fresh after := by
  have between := agreed.between
  have bound : maxGeneration = 2 ^ 64 - 1 := rfl
  cases moves with
  | tracked tracked copied => exact fresh
  | described fields idle => exact fresh
  | recorded described describing => exact fresh
  | behind positions idle held other => exact fresh
  | current positions idle held same =>
    intro use listed
    rcases List.mem_append.mp listed with early | new
    · exact fresh use early
    · cases List.mem_singleton.mp new
      change shared.completed ≤ positions.generation
      rw [same, agreed.stored]
      split at between <;> omega
  | refreshed completed positions reading =>
    intro use listed
    rcases List.mem_append.mp listed with early | new
    · exact fresh use early
    · cases List.mem_singleton.mp new
      have earlier := (sound.reading completed positions reading).2
      change completed ≤ shared.resolved.generation
      rw [agreed.latest_generation]
      split at between <;> omega

theorem fresh_step {before after : State} (sound : before.Sound)
    (few : before.shared.history.length ≤ 2 ^ 64) (fresh : ∀ number, Fresh (before.sessions number))
    (counted : Counted before event) (taken : Step before event after) :
    after.shared.history.length ≤ 2 ^ 64 ∧ ∀ number, Fresh (after.sessions number) := by
  constructor
  · rcases step_cases taken with ⟨resolved, rfl, free, rfl⟩ | ⟨generation, rfl, storing, rfl⟩ |
      ⟨mover, session, moves, rfl⟩
    · simp only [Shared.swap, List.length_append, List.length_singleton]
      exact counted
    · exact few
    · exact few
  · refine @sessions_step (fun _ session => Fresh session) _ _ _ taken fresh (fun _ _ _ _ => id)
      (fun _ _ _ => id) ?_
    intro number session moves held
    exact fresh_moves sound.1 few (sound.2 number) held moves

end Freshness

section Chains

def indices (described : Described) : List Nat := described.columns.map (·.index)

variable {described : Described}

theorem described_sorted {resolves : Resolved → Prop} (held : DescribedBy resolves described) :
    (indices described).Pairwise (· < ·) := by
  cases held with
  | new fields _ => exact protectedPositions_sorted _ fields
  | @rederived earlier resolved older known =>
    have distinct := (consistent_of_described (.rederived older known)).distinct
    have ordered : ((earlier.rederived resolved).columns.map (·.index)).Pairwise (· ≤ ·) := by
      rw [List.pairwise_map]
      have sorted := @List.pairwise_mergeSort Position
        (fun left right => decide (left.index ≤ right.index))
        (by intro a b c; simp; omega) (by intro a b; simp; omega)
        (protectedPositions resolved earlier.fields ++ earlier.columns.filter fun old =>
          !(protectedPositions resolved earlier.fields).any fun new => new.index == old.index)
      exact sorted.imp (by simp)
    exact List.Pairwise.imp₂ (fun _ _ le ne => Nat.lt_of_le_of_ne le ne) ordered distinct

variable {index : Nat}

theorem mem_indices :
    index ∈ indices described ↔ ∃ position ∈ described.columns, position.index = index :=
  List.mem_map

theorem rederived_grows (described : Described) (resolved : Resolved) :
    indices described ⊆ indices (described.rederived resolved) := by
  intro index listed
  obtain ⟨position, member, rfl⟩ := mem_indices.mp listed
  by_cases covered : ∃ new ∈ protectedPositions resolved described.fields,
      new.index = position.index
  · obtain ⟨new, there, same⟩ := covered
    exact mem_indices.mpr ⟨new, mem_rederived.mpr (.inl there), same⟩
  · refine mem_indices.mpr ⟨position, mem_rederived.mpr (.inr ⟨member, ?_⟩), rfl⟩
    intro new there same
    exact covered ⟨new, there, same⟩

variable {resolved : Resolved} {field : FieldId} {column : ReadColumn}

theorem protectedPositions_covers {fields : List FieldId} (listed : fields[index]? = some field)
    (covered : resolved.columns.get (field.tableOid, field.attnum) = some column) :
    (⟨index, column, rowKeyRef resolved field.tableOid fields⟩ : Position) ∈
      protectedPositions resolved fields := by
  refine List.mem_filterMap.mpr ⟨(field, index), List.mem_zipIdx_iff_getElem?.mpr listed, ?_⟩
  rw [protectedAt, covered]
  rfl

theorem rederived_latest (listed : described.fields[index]? = some field)
    (covered : resolved.columns.get (field.tableOid, field.attnum) = some column)
    (position : Position) (member : position ∈ (described.rederived resolved).columns)
    (here : position.index = index) :
    position = ⟨index, column, rowKeyRef resolved field.tableOid described.fields⟩ := by
  have latest := protectedPositions_covers listed covered
  rcases mem_rederived.mp member with new | ⟨_, apart⟩
  · exact position_eq_of_index (protectedPositions_nodup _ _) new latest here
  · exact absurd here.symm (apart _ latest)

end Chains

section Growth

def Covers (resolved : Resolved) (field : FieldId) : Prop :=
  (resolved.columns.get (field.tableOid, field.attnum)).isSome

/-- Publishes that never cover less than the one before, and DataRows that ask while no
publish is between its two steps. -/
def Orderly (state : State) : Event → Prop
  | .swap resolved => state.shared.history.length < 2 ^ 64 ∧
      ∀ field, Covers state.shared.resolved field → Covers resolved field
  | .dataRow _ => state.shared.storing = none
  | _ => True

/-- A description protects exactly what the resolution with its generation covers. -/
def Exact (shared : Shared) (described : Described) : Prop :=
  ∃ resolved, shared.history[described.generation]? = some resolved ∧
    ∀ index, index ∈ indices described ↔
      ∃ field, described.fields[index]? = some field ∧ Covers resolved field

variable {resolved : Resolved}

theorem mem_protected_indices {fields : List FieldId} {index : Nat} :
    (∃ position ∈ protectedPositions resolved fields, position.index = index) ↔
      ∃ field, fields[index]? = some field ∧ Covers resolved field := by
  constructor
  · rintro ⟨position, member, rfl⟩
    obtain ⟨field, listed, covered, _⟩ := mem_protectedPositions member
    exact ⟨field, listed, by rw [Covers, covered]; rfl⟩
  · rintro ⟨field, listed, covers⟩
    obtain ⟨column, covered⟩ := Option.isSome_iff_exists.mp covers
    exact ⟨_, protectedPositions_covers listed covered, rfl⟩

/-- The history only grows in what it covers, and is short enough to be counted. -/
structure Shared.Growing (shared : Shared) : Prop where
  few : shared.history.length ≤ 2 ^ 64
  covers : ∀ (place later : Nat) (resolved : Resolved) (newer : Resolved), place ≤ later →
    shared.history[place]? = some resolved → shared.history[later]? = some newer →
    ∀ field, Covers resolved field → Covers newer field

structure Session.Growing (shared : Shared) (session : Session) : Prop where
  held : ∀ described, Holds session.tracked described → Exact shared described
  describing : ∀ fresh, session.phase = .describing fresh → Exact shared fresh
  reading : ∀ completed positions, session.phase = .reading completed positions →
    Exact shared positions
  used : ∀ use ∈ session.used, Exact shared use.positions ∧
    use.positions.generation ≤ shared.resolved.generation
  ordered : session.used.Pairwise fun earlier later =>
    earlier.positions.generation ≤ later.positions.generation

variable {shared : Shared}

theorem Shared.Growing.latest_place (growing : shared.Growing) (sound : shared.Sound) :
    shared.resolved.generation = shared.history.length - 1 := by
  have few := growing.few
  have bound : maxGeneration = 2 ^ 64 - 1 := rfl
  rw [sound.latest_generation]
  omega

theorem exact_new (growing : shared.Growing) (sound : shared.Sound) (fields : List FieldId) :
    Exact shared (.new shared.resolved fields) := by
  refine ⟨shared.resolved, ?_, ?_⟩
  · change shared.history[shared.resolved.generation]? = _
    rw [growing.latest_place sound]
    exact sound.latest
  · intro index
    exact mem_indices.trans mem_protected_indices

theorem exact_noDescription (sound : shared.Sound) : Exact shared noDescription := by
  obtain ⟨initial, found, _⟩ := sound.first
  exact ⟨initial, found, by simp [indices, noDescription]⟩

variable {described : Described}

/-- Under a resolution that covers no less, re-derivation adds what is newly covered and
has nothing to keep. -/
theorem exact_rederived (growing : shared.Growing) (sound : shared.Sound)
    (known : Exact shared described) : Exact shared (described.rederived shared.resolved) := by
  obtain ⟨resolved, found, protects⟩ := known
  have place := (List.getElem?_eq_some_iff.mp found).1
  refine ⟨shared.resolved, ?_, ?_⟩
  · change shared.history[shared.resolved.generation]? = _
    rw [growing.latest_place sound]
    exact sound.latest
  · intro index
    constructor
    · intro listed
      obtain ⟨position, member, rfl⟩ := mem_indices.mp listed
      rcases mem_rederived.mp member with new | ⟨kept, _⟩
      · exact mem_protected_indices.mp ⟨position, new, rfl⟩
      · obtain ⟨field, there, covers⟩ := (protects _).mp (mem_indices.mpr ⟨position, kept, rfl⟩)
        refine ⟨field, there, ?_⟩
        exact growing.covers _ _ resolved shared.resolved (by omega) found sound.latest field covers
    · intro covered
      obtain ⟨position, member, here⟩ := mem_protected_indices.mpr covered
      exact mem_indices.mpr ⟨position, mem_rederived.mpr (.inl member), here⟩

variable {session : Session} {event : Event}

theorem growing_moves (growing : shared.Growing) (agreed : shared.Sound) {after : Session}
    (known : session.Growing shared)
    (still : ∀ number, event = .dataRow number → shared.storing = none)
    (moves : Moves shared session event after) : after.Growing shared := by
  cases moves with
  | tracked tracked copied =>
    refine ⟨?_, known.describing, known.reading, known.used, known.ordered⟩
    intro described held
    rcases copied described held with before | rfl
    · exact known.held described before
    · exact exact_noDescription agreed
  | described fields idle =>
    refine ⟨known.held, ?_, nofun, known.used, known.ordered⟩
    rintro _ ⟨⟩
    exact exact_new growing agreed fields
  | recorded fresh describing =>
    refine ⟨?_, nofun, nofun, known.used, known.ordered⟩
    intro described held
    rcases holds_describeAnswered held with before | rfl
    · exact known.held described before
    · exact known.describing described describing
  | behind positions idle held other =>
    refine ⟨known.held, nofun, ?_, known.used, known.ordered⟩
    rintro _ _ ⟨⟩
    exact known.held positions held
  | @current number positions idle held same =>
    -- No publish is under way, so the stored generation is the latest one.
    have latest : positions.generation = shared.resolved.generation := by
      have between := agreed.between
      rw [still number rfl] at between
      rw [same, agreed.stored, agreed.latest_generation, between]
      rfl
    refine ⟨known.held, known.describing, known.reading, ?_, ?_⟩
    · intro use listed
      rcases List.mem_append.mp listed with early | new
      · exact known.used use early
      · cases List.mem_singleton.mp new
        exact ⟨known.held positions held, latest.le⟩
    · refine List.pairwise_append.mpr ⟨known.ordered, List.pairwise_singleton _ _, ?_⟩
      intro earlier listed use new
      cases List.mem_singleton.mp new
      exact (known.used earlier listed).2.trans latest.ge
  | refreshed completed positions reading =>
    have fresh := exact_rederived growing agreed (known.reading completed positions reading)
    refine ⟨?_, nofun, nofun, ?_, ?_⟩
    · intro described held
      rcases holds_rederived held with before | rfl
      · exact known.held described before
      · exact fresh
    · intro use listed
      rcases List.mem_append.mp listed with early | new
      · exact known.used use early
      · cases List.mem_singleton.mp new
        exact ⟨fresh, Nat.le_refl _⟩
    · refine List.pairwise_append.mpr ⟨known.ordered, List.pairwise_singleton _ _, ?_⟩
      intro earlier listed use new
      cases List.mem_singleton.mp new
      exact (known.used earlier listed).2

theorem swap_history {place : Nat} {held : Resolved} (found : shared.history[place]? = some held) :
    (shared.swap resolved).history[place]? = some held := by
  have inside := (List.getElem?_eq_some_iff.mp found).1
  rw [Shared.swap, List.getElem?_append_left inside]
  exact found

theorem growing_swap (growing : shared.Growing) (sound : shared.Sound)
    (counted : shared.history.length < 2 ^ 64)
    (covers : ∀ field, Covers shared.resolved field → Covers resolved field) :
    (shared.swap resolved).Growing where
  few := by
    simp only [Shared.swap, List.length_append, List.length_singleton]
    exact counted
  covers := by
    intro place later old newer before found foundLater field covered
    rcases Nat.lt_or_ge later shared.history.length with early | late
    · rw [Shared.swap, List.getElem?_append_left (by omega)] at found
      rw [Shared.swap, List.getElem?_append_left early] at foundLater
      exact growing.covers place later old newer before found foundLater field covered
    · rw [Shared.swap, List.getElem?_append_right late] at foundLater
      obtain ⟨_, same⟩ := List.getElem?_eq_some_iff.mp foundLater
      simp only [List.getElem_singleton] at same
      subst same
      rcases Nat.lt_or_ge place shared.history.length with old' | new
      · rw [Shared.swap, List.getElem?_append_left old'] at found
        exact covers field (growing.covers place _ old shared.resolved (by omega) found sound.latest
          field covered)
      · rw [Shared.swap, List.getElem?_append_right new] at found
        obtain ⟨_, same⟩ := List.getElem?_eq_some_iff.mp found
        simp only [List.getElem_singleton] at same
        subst same
        exact covered

theorem exact_swap (known : Exact shared described) (resolved : Resolved) :
    Exact (shared.swap resolved) described := by
  obtain ⟨held, found, protects⟩ := known
  exact ⟨held, swap_history found, protects⟩

theorem session_growing_swap (growing : shared.Growing) (sound : shared.Sound)
    (counted : shared.history.length < 2 ^ 64) (known : session.Growing shared)
    (resolved : Resolved) : session.Growing (shared.swap resolved) where
  held described held := exact_swap (known.held described held) resolved
  describing fresh phase := exact_swap (known.describing fresh phase) resolved
  reading completed positions phase := exact_swap (known.reading completed positions phase) resolved
  used use listed := by
    obtain ⟨exact', older⟩ := known.used use listed
    refine ⟨exact_swap exact' resolved, older.trans ?_⟩
    have place := growing.latest_place sound
    have bound : maxGeneration = 2 ^ 64 - 1 := rfl
    simp only [Shared.swap]
    omega
  ordered := known.ordered

def State.Growing (state : State) : Prop :=
  state.shared.Growing ∧ ∀ number, (state.sessions number).Growing state.shared

theorem growing_step {before after : State} (sound : before.Sound) (growing : before.Growing)
    (orderly : Orderly before event) (taken : Step before event after) :
    after.Growing := by
  constructor
  · rcases step_cases taken with ⟨resolved, rfl, free, rfl⟩ | ⟨generation, rfl, storing, rfl⟩ |
      ⟨mover, session, moves, rfl⟩
    · exact growing_swap growing.1 sound.1 orderly.1 orderly.2
    · exact ⟨growing.1.few, growing.1.covers⟩
    · exact growing.1
  · refine sessions_step taken growing.2 ?_ ?_ ?_
    · rintro resolved session rfl _ known
      exact session_growing_swap growing.1 sound.1 orderly.1 known resolved
    · intro generation session _ known
      exact ⟨known.held, known.describing, known.reading, known.used, known.ordered⟩
    · intro number session moves known
      refine growing_moves growing.1 sound.1 known ?_ moves
      rintro asking rfl
      exact orderly

theorem growing_init (resolved : Resolved) : (State.init resolved).Growing := by
  refine ⟨⟨by simp [State.init, Shared.new], ?_⟩, fun number => ⟨?_, nofun, nofun, nofun, ?_⟩⟩
  · intro place later old newer before found foundLater field covered
    match place, later with
    | 0, 0 =>
      cases found
      cases foundLater
      exact covered
  · rintro described (⟨name, entry, found, _⟩ | ⟨id, statement, formats, listed⟩)
    · cases found
    · cases listed
  · exact List.Pairwise.nil

/-- Rows read later with descriptions of the same fields protect no fewer of them. -/
def OnlyGrows (session : Session) : Prop :=
  session.used.Pairwise fun earlier later =>
    earlier.positions.fields = later.positions.fields →
      indices earlier.positions ⊆ indices later.positions

theorem onlyGrows_of_growing (growing : shared.Growing) (known : session.Growing shared) :
    OnlyGrows session := by
  refine known.ordered.imp_of_mem ?_
  intro earlier later listed listedLater ordered fields index inside
  obtain ⟨⟨resolved, found, protects⟩, _⟩ := known.used earlier listed
  obtain ⟨⟨newer, foundLater, protectsLater⟩, _⟩ := known.used later listedLater
  obtain ⟨field, there, covers⟩ := (protects index).mp inside
  rw [protectsLater]
  exact ⟨field, fields ▸ there,
    growing.covers _ _ resolved newer ordered found foundLater field covers⟩

end Growth

section Runs

variable {resolved : Resolved} {state : State}

theorem sound_run {permitted : State → Event → Prop}
    (reached : Reachable Step permitted (State.init resolved) state) : state.Sound :=
  reached.invariant (sound_init resolved) fun _ _ _ sound _ taken => sound_step sound taken

theorem counted_run (reached : Reachable Step Counted (State.init resolved) state) :
    state.shared.history.length ≤ 2 ^ 64 ∧ ∀ number, Fresh (state.sessions number) := by
  induction reached with
  | start => exact ⟨by simp [State.init, Shared.new], fun _ => nofun⟩
  | step earlier counted taken ih => exact fresh_step (sound_run earlier) ih.1 ih.2 counted taken

theorem growing_run (reached : Reachable Step Orderly (State.init resolved) state) :
    state.Growing := by
  induction reached with
  | start => exact growing_init resolved
  | step earlier orderly taken ih => exact growing_step (sound_run earlier) ih orderly taken

end Runs

/-- In every run a description carries the generation of the resolution it was last
derived from. While the generation counts, a DataRow is read with that of the last
publish complete when it asked, or a later one. Re-derivation adds positions, keeps them
in order and reads those the latest resolution covers as it says. Over all the rows of a
statement the protected positions only grow in runs whose publishes never cover less and
whose DataRows ask between publishes. -/
theorem publication_reaches_statements (resolved : Resolved) :
    (∀ state, Reachable Step unrestricted (State.init resolved) state → ∀ number described,
      (Holds (state.sessions number).tracked described ∨
        ∃ use ∈ (state.sessions number).used, use.positions = described) →
      ∃ (place : Nat) (source : Resolved), state.shared.history[place]? = some source ∧
        LastDerived source described ∧ described.generation = source.generation) ∧
    (∀ state, Reachable Step Counted (State.init resolved) state → ∀ number,
      ∀ use ∈ (state.sessions number).used, ∃ (place : Nat) (source : Resolved),
        use.completed ≤ place ∧ state.shared.history[place]? = some source ∧
          LastDerived source use.positions) ∧
    (∀ resolves described newer, DescribedBy resolves described → resolves newer →
      indices described ⊆ indices (described.rederived newer) ∧
      (indices (described.rederived newer)).Pairwise (· < ·) ∧
      ∀ (index : Nat) field column, described.fields[index]? = some field →
        newer.columns.get (field.tableOid, field.attnum) = some column →
        ∀ position ∈ (described.rederived newer).columns, position.index = index →
          position.column = column ∧
            position.key = rowKeyRef newer field.tableOid described.fields) ∧
    ∀ state, Reachable Step Orderly (State.init resolved) state →
      ∀ number, OnlyGrows (state.sessions number) := by
  refine ⟨?_, ?_, ?_, ?_⟩
  · intro state reached number described kept
    have sound := (sound_run reached).2 number
    have stamped : Stamped state.shared described := by
      rcases kept with held | ⟨use, listed, rfl⟩
      · exact sound.held described held
      · exact sound.used use listed
    obtain ⟨place, source, found, derived⟩ := stamped
    exact ⟨place, source, found, derived, derived.generation⟩
  · intro state reached number use listed
    have sound := sound_run reached
    have counted := counted_run reached
    obtain ⟨source, found, derived⟩ :=
      stamped_place sound.1 counted.1 ((sound.2 number).used use listed)
    exact ⟨_, source, counted.2 number use listed, found, derived⟩
  · intro resolves described newer held known
    refine ⟨rederived_grows described newer, described_sorted (.rederived held known), ?_⟩
    intro index field column listed covered position member here
    rw [rederived_latest listed covered position member here]
    exact ⟨rfl, rfl⟩
  · intro state reached number
    have growing := growing_run reached
    exact onlyGrows_of_growing growing.1 (growing.2 number)

section Losses

/-- The events one after the other, each only where the guard lets it happen. -/
def runEvents (guard : State → Event → Bool) (state : State) (events : List Event) : Option State :=
  events.foldlM (fun state event => if guard state event then state.next event else none) state

variable {state : State} {guard : State → Event → Bool} {permitted : State → Event → Prop}

theorem reachable_run {start : State} {events : List Event}
    (permits : ∀ state event, guard state event = true → permitted state event)
    (ran : runEvents guard start events = some state) : Reachable Step permitted start state := by
  induction events using List.reverseRecOn generalizing state with
  | nil =>
    cases ran
    exact .start
  | append_singleton events event ih =>
    rw [runEvents, List.foldlM_append] at ran
    obtain ⟨middle, earlier, last⟩ := Option.bind_eq_some_iff.mp ran
    obtain ⟨after, taken, done⟩ := Option.bind_eq_some_iff.mp last
    cases done
    obtain ⟨allowed, moved⟩ := Option.ite_none_right_eq_some.mp taken
    exact (ih earlier).step (permits middle event allowed) moved

def maskedEmail : Resolved :=
  { Resolved.default with
    columns := Table.empty.put (1, 2) ⟨"public.users.email", none, some ⟨0, 0, '*'⟩⟩ }

/-- `SELECT email FROM users`, prepared and bound. -/
def preparedSelect : List Event :=
  [.client 0 (.parse [] .empty), .client 0 (.bind [] [] none), .client 0 (.describe .statement [])]

def describedSelect : List Event := [.rowDescription 0 [⟨1, 2, 17⟩], .record 0]

/-- Described before the column is covered, executed while it is and once it is not. -/
def coveredBetween : List Event :=
  preparedSelect ++ describedSelect ++
    [.client 0 (.execute []), .swap maskedEmail, .store, .dataRow 0, .read 0, .backend 0 .complete,
      .swap .default, .store, .client 0 (.execute []), .dataRow 0, .read 0]

/-- Described before the column is covered, executed twice once it is. -/
def coveredSince : List Event :=
  preparedSelect ++ describedSelect ++
    [.swap maskedEmail, .store, .client 0 (.execute []), .dataRow 0, .read 0, .backend 0 .complete,
      .client 0 (.execute []), .dataRow 0, .read 0]

/-- Described between the steps of one publish, executed once across the next and again
between its steps. -/
def askedBetween : List Event :=
  preparedSelect ++ .swap .default :: describedSelect ++
    [.client 0 (.execute []), .dataRow 0, .store, .swap maskedEmail, .read 0, .backend 0 .complete,
      .client 0 (.execute []), .dataRow 0]

/-- The protected positions and the fields each row of the session was read with. -/
def usedRows (state : State) : List (List Nat × List FieldId) :=
  (state.sessions 0).used.map fun use => (indices use.positions, use.positions.fields)

/-- A first publish, and DataRows outside of it. -/
def firstPublish (state : State) : Event → Bool
  | .swap _ => state.shared.history.length < 2 ^ 64 && state.shared.resolved.columns.size == 0
  | .dataRow _ => state.shared.storing.isNone
  | _ => true

theorem orderly_firstPublish (state : State) (event : Event)
    (permits : firstPublish state event = true) : Orderly state event := by
  cases event with
  | swap resolved =>
    obtain ⟨few, nothing⟩ := Bool.and_eq_true_iff.mp permits
    refine ⟨of_decide_eq_true few, ?_⟩
    intro field covered
    have empty : state.shared.resolved.columns.entries = [] :=
      List.length_eq_zero_iff.mp (eq_of_beq nothing)
    rw [Covers, Table.get, empty] at covered
    cases covered
  | dataRow session => exact Option.isNone_iff_eq_none.mp permits
  | _ => trivial

theorem second_execute_keeps_position :
    ∃ state, Reachable Step Orderly (State.init .default) state ∧
      usedRows state = [([0], [⟨1, 2, 17⟩]), ([0], [⟨1, 2, 17⟩])] ∧
      OnlyGrows (state.sessions 0) := by
  have covered : (runEvents firstPublish (State.init .default) coveredSince).map usedRows =
      some [([0], [⟨1, 2, 17⟩]), ([0], [⟨1, 2, 17⟩])] := by decide +kernel
  obtain ⟨state, ran, rows⟩ := Option.map_eq_some_iff.mp covered
  have reached := reachable_run orderly_firstPublish ran
  exact ⟨state, reached, rows, (publication_reaches_statements .default).2.2.2 state reached 0⟩

theorem not_onlyGrows {fields : List FieldId}
    (rows : usedRows state = [([0], fields), ([], fields)]) : ¬ OnlyGrows (state.sessions 0) := by
  intro grows
  obtain ⟨first, others, used, here, rest⟩ := List.map_eq_cons_iff.mp rows
  obtain ⟨second, last, others', there, _⟩ := List.map_eq_cons_iff.mp rest
  rw [OnlyGrows, used, others'] at grows
  obtain ⟨firstIndices, firstFields⟩ := Prod.mk.inj here
  obtain ⟨secondIndices, secondFields⟩ := Prod.mk.inj there
  have subset := (List.pairwise_cons.mp grows).1 second List.mem_cons_self
    (firstFields.trans secondFields.symm)
  rw [firstIndices, secondIndices] at subset
  exact List.not_mem_nil (subset (List.mem_singleton_self 0))

/-- A cached statement loses a protected position between two Executes: where a publish
stops covering it, and, with nothing uncovered, where the second Execute asks between
the two steps of a publish that the first already read. -/
theorem second_execute_loses_position :
    (∃ state, Reachable Step unrestricted (State.init .default) state ∧
      usedRows state = [([0], [⟨1, 2, 17⟩]), ([], [⟨1, 2, 17⟩])] ∧
      ¬ OnlyGrows (state.sessions 0)) ∧
    ∃ state, Reachable Step unrestricted (State.init .default) state ∧
      usedRows state = [([0], [⟨1, 2, 17⟩]), ([], [⟨1, 2, 17⟩])] ∧
      ¬ OnlyGrows (state.sessions 0) ∧ Covers state.shared.resolved ⟨1, 2, 17⟩ := by
  have uncovered : (runEvents (fun _ _ => true) (State.init .default) coveredBetween).map usedRows =
      some [([0], [⟨1, 2, 17⟩]), ([], [⟨1, 2, 17⟩])] := by decide +kernel
  have asked : (runEvents (fun _ _ => true) (State.init .default) askedBetween).map
      (fun state => (usedRows state, (state.shared.resolved.columns.get (1, 2)).isSome)) =
        some ([([0], [⟨1, 2, 17⟩]), ([], [⟨1, 2, 17⟩])], true) := by decide +kernel
  obtain ⟨state, ran, rows⟩ := Option.map_eq_some_iff.mp uncovered
  obtain ⟨state', ran', both⟩ := Option.map_eq_some_iff.mp asked
  obtain ⟨rows', covers⟩ := Prod.mk.inj both
  exact ⟨⟨state, reachable_run (fun _ _ _ => trivial) ran, rows, not_onlyGrows rows⟩,
    state', reachable_run (fun _ _ _ => trivial) ran', rows', not_onlyGrows rows', covers⟩

end Losses

end Dbsec.Publication
