import Dbsec.QueueRuns

/-! What an aligned queue is for. A row that arrives finds its own Execute at the front, or
belongs to the simple Query described last; a ReadyForQuery settles the marker of the frame
it answers. Both need the runs to be paced: a Query discarded behind a failed message leaves
a marker that nothing will answer, and so does a Sync passed over in a copy whose end was
sent before the proxy saw it start. -/
namespace Dbsec.QueueSafety
open Framing Params Catalog Rewrite Lexer Messages Portal BindFrames Frames Conversation
  QueueAlignment QueueRuns

variable {Positions : Type}

/-- The row now arriving is the front Execute's, or the last described Query's. -/
def RowsAttributed (state : State Positions) : Prop :=
  ∀ request source rest, state.backend.outbox = ⟨request, .row source⟩ :: rest →
    (∃ id statement positions formats behind, source = .execute id ∧
      state.line.portals.pending = .execute id statement positions formats :: behind) ∨
    (∀ id statement positions formats behind,
      state.line.portals.pending ≠ .execute id statement positions formats :: behind) ∧
      ∃ mark result, source = .query mark result ∧ state.described = some (some (mark, result))

/-- The frames of the extended and the simple protocol, no copies. -/
def Copyless : Event Positions → Prop
  | .client message _ => (∀ copy, message ≠ .copy copy) ∧ message ≠ .terminate
  | .copyStarts => False
  | _ => True

/-- The backend does not discard a Query or FunctionCall behind a failed message. -/
def Undiscarded (state : State Positions) : Event Positions → Prop
  | .serve => ∀ frame rest, state.backend.inbox = frame :: rest →
      state.backend.mode = .skipping → frame.message.closes = true → frame.message = .sync
  | _ => True

section Rows

structure AlignedUncopied (state : State Positions) : Prop where
  aligned : Aligned state
  idle : ∀ id request, state.backend.mode ≠ .copying id request

theorem shape_execute {entry : Pending Positions Nat Nat} {id : Nat}
    (same : shape entry = .execute id) :
    ∃ statement positions formats, entry = .execute id statement positions formats := by
  cases entry with
  | describe _ => cases same
  | batch _ => cases same
  | execute queued statement positions formats =>
    cases same
    exact ⟨statement, positions, formats, rfl⟩

theorem rows_attributed {state : State Positions} (holds : Aligned state) :
    RowsAttributed state := by
  intro request source rest outbox
  obtain ⟨skipping, follows⟩ := holds.follows
  rw [outbox] at follows
  cases source with
  | execute id =>
    obtain ⟨_, _, ⟨behind, queue⟩, _⟩ := follows
    obtain ⟨entry, left, pending, front, _⟩ := List.map_eq_cons_iff.mp queue
    obtain ⟨statement, positions, formats, rfl⟩ := shape_execute front
    exact .inl ⟨id, statement, positions, formats, left, rfl, pending⟩
  | query mark result =>
    obtain ⟨_, _, ⟨behind, queue⟩, described, _⟩ := follows
    refine .inr ⟨?_, mark, result, rfl, described⟩
    intro id statement positions formats left pending
    simp only [viewOf, queueOf, pending, List.map_cons, shape] at queue
    cases queue

theorem uncopied_step {Statement : Type} [DecidableEq Statement] [Inhabited Positions]
    {frontend : Frontend Statement} {rewrite : Context → Statement → Pass (Statement × Bool)}
    {state after : State Positions} {event : Event Positions}
    (idle : ∀ id request, state.backend.mode ≠ .copying id request) (plain : Copyless event)
    (step : Step frontend rewrite state event after) :
    ∀ id request, after.backend.mode ≠ .copying id request := by
  intro id request copying
  cases step with
  | client ran => exact idle id request copying
  | serve inbox serves =>
    cases serves with
    | passOver other asked already => exact idle other asked already
    | executeRow serving => exact idle id request copying
    | queryDescribe _ serving => exact idle id request copying
    | queryRow _ serving => exact idle id request copying
    | queryDone serving => exact idle id request copying
    | functionResult serving => exact idle id request copying
    | _ => cases copying
  | copyStarts inbox serving asks => exact plain
  | notice => exact idle id request copying
  | read outbox =>
    simp only [take_backend] at copying
    exact idle id request copying

end Rows

section Markers

def isReady : Answer Positions → Bool
  | .ready _ _ => true
  | _ => false

def markers (tracked : Tracked Positions Nat Nat) : Nat :=
  tracked.pending.countP Pending.isBatch

/-- The ReadyForQuery messages still to come: on their way, or owed for a frame the backend
has not taken up. -/
def owed (backend : Backend Positions) : Nat :=
  backend.outbox.countP (fun response => isReady response.answer) +
    backend.inbox.countP (fun frame => frame.message.closes)

/-- The ReadyForQuery now arriving settles the marker of the frame it answers, and leaves
as many markers as are still to be answered. -/
def ReadySettlesOwn (state : State Positions) : Prop :=
  ∀ request mark status rest, state.backend.outbox = ⟨request, .ready mark status⟩ :: rest →
    (∃ settled behind, state.line.portals.pending = settled ++ .batch mark :: behind ∧
      ∀ entry ∈ settled, entry.isBatch = false) ∧
    markers state.line.portals.batchAnswered = owed { state.backend with outbox := rest }

/-- Paced, and no ReadyForQuery is on its way when a copy starts. -/
def PacedCopies (state : State Positions) : Event Positions → Prop
  | .serve => Paced state.backend
  | .copyStarts => ∀ response ∈ state.backend.outbox, isReady response.answer = false
  | _ => True

def batches (queue : List Shape) : Nat := queue.countP Shape.isBatch

theorem batches_queueOf (tracked : Tracked Positions Nat Nat) :
    batches (queueOf tracked) = markers tracked := by
  rw [batches, queueOf, markers, List.countP_map]
  apply List.countP_congr
  intro entry _
  rw [Function.comp_apply, isBatch_shape]

theorem batches_answeredDescribe (queue : List Shape) :
    batches (answeredDescribe queue) = batches queue := by
  cases queue with
  | nil => rfl
  | cons entry rest => cases entry <;> simp [answeredDescribe, batches, Shape.isBatch]

theorem batches_answeredExecute (queue : List Shape) :
    batches (answeredExecute queue) = batches queue := by
  cases queue with
  | nil => rfl
  | cons entry rest => cases entry <;> simp [answeredExecute, batches, Shape.isBatch]

theorem batches_unmarked {skipped : List Shape} (none : ∀ entry ∈ skipped, entry.isBatch = false) :
    batches skipped = 0 := by
  rw [batches, List.countP_eq_zero]
  intro entry listed
  rw [none entry listed]
  exact Bool.false_ne_true

theorem batches_follows {after : View → Prop} {left : Nat}
    (counted : ∀ view, after view → batches view.queue = left)
    (responses : List (Response Positions)) {view : View} (holds : Follows after responses view) :
    batches view.queue = responses.countP (fun response => isReady response.answer) + left := by
  induction responses generalizing view with
  | nil => rw [counted view holds, List.countP_nil, Nat.zero_add]
  | cons response rest ih =>
    obtain ⟨request, answer⟩ := response
    rw [List.countP_cons]
    cases answer with
    | ready mark status =>
      -- The first batch leaves the queue, with what stands before it.
      obtain ⟨_, ⟨skipped, behind, queue, none, _⟩, next⟩ := holds
      have fewer := ih next
      simp only [View.read, queue, answeredBatch_first none] at fewer
      have one : batches view.queue = batches skipped + (batches behind + 1) := by
        rw [queue, batches, List.countP_append, List.countP_cons]
        rfl
      rw [one, batches_unmarked none, fewer, isReady, if_pos rfl]
      omega
    | other => exact ih holds
    | notice => exact ih holds
    | error =>
      obtain ⟨_, _, skips | ⟨_, stays⟩⟩ := holds
      · have same := ih skips
        exact same
      · have same := ih stays
        exact same
    | description source positions =>
      cases source with
      | none => exact (batches_answeredDescribe view.queue).symm.trans (ih holds.2.2.2)
      | some source => exact (batches_answeredDescribe view.queue).symm.trans (ih holds.2.2.2)
    | noData => exact (batches_answeredDescribe view.queue).symm.trans (ih holds.2.2.2)
    | row source =>
      cases source with
      | execute id => exact ih holds.2.2.2
      | query mark result => exact ih holds.2.2.2.2
    | complete => exact (batches_answeredExecute view.queue).symm.trans (ih holds.2.2.2)
    | copyIn =>
      have same := ih holds.2.2.2
      exact same

theorem batches_expectedAll (inbox : List Sent) :
    batches (expectedAll inbox) = inbox.countP (fun frame => frame.message.closes) := by
  induction inbox with
  | nil => rfl
  | cons frame rest ih =>
    rw [List.countP_cons, ← ih, expectedAll, List.filterMap_cons]
    cases closes : frame.message.closes with
    | true =>
      rw [expected_closes closes, if_pos rfl]
      exact List.countP_cons_of_pos rfl
    | false =>
      rw [if_neg Bool.false_ne_true]
      cases queued : expected frame with
      | none => rfl
      | some entry =>
        apply List.countP_cons_of_neg
        rw [expected_open closes queued]
        exact Bool.false_ne_true

theorem batches_settled {backend : Backend Positions} {view : View}
    (idle : ∀ id request, backend.mode ≠ .copying id request) (holds : Settled backend view) :
    batches view.queue = backend.inbox.countP (fun frame => frame.message.closes) := by
  unfold Settled at holds
  split at holds
  · rw [holds.2.2.1, batches_expectedAll]
  · obtain ⟨_, _, skipped, queue, none⟩ := holds
    have ahead : (backend.inbox.takeWhile fun frame => !frame.message.closes).countP
        (fun frame => frame.message.closes) = 0 := by
      rw [List.countP_eq_zero]
      intro frame taken
      simpa using List.mem_takeWhile_imp taken
    have split := congrArg (List.countP fun frame : Sent => frame.message.closes)
      (@List.takeWhile_append_dropWhile _ (fun frame : Sent => !frame.message.closes) backend.inbox)
    rw [List.countP_append, ahead, Nat.zero_add] at split
    rw [queue, batches, List.countP_append, ← split, ← batches_expectedAll]
    change batches skipped + _ = _
    rw [batches_unmarked none, Nat.zero_add]
    rfl
  · rename_i id request copying
    exact absurd copying (idle id request)

/-- The queue is aligned, and no ReadyForQuery is unread while a copy is in progress. -/
structure AlignedCopies (state : State Positions) : Prop where
  aligned : Aligned state
  unread : ∀ id request, state.backend.mode = .copying id request →
    ∀ response ∈ state.backend.outbox, isReady response.answer = false

theorem ready_settles {state : State Positions} (holds : AlignedCopies state) :
    ReadySettlesOwn state := by
  intro request mark status rest outbox
  obtain ⟨skipping, follows⟩ := holds.aligned.follows
  rw [outbox] at follows
  obtain ⟨_, ⟨skipped, behind, queue, none, _⟩, next⟩ := follows
  have idle : ∀ id asked, state.backend.mode ≠ .copying id asked := by
    intro id asked copying
    have silent := holds.unread id asked copying ⟨request, .ready mark status⟩
      (by rw [outbox]; exact List.mem_cons_self)
    cases silent
  constructor
  · obtain ⟨settled, later, pending, first, second⟩ := List.map_eq_append_iff.mp queue
    obtain ⟨entry, left, same, front, _⟩ := List.map_eq_cons_iff.mp second
    have marker : entry = .batch mark := by
      cases entry with
      | batch queued =>
        cases front
        rfl
      | describe _ => cases front
      | execute _ _ _ _ => cases front
    refine ⟨settled, left, by rw [pending, same, marker], ?_⟩
    intro early listed
    rw [← isBatch_shape]
    apply none
    rw [← first]
    exact List.mem_map_of_mem listed
  · have count := batches_follows (fun view => batches_settled idle) rest next
    rw [← batches_queueOf, (batchAnswered_queue state.line.portals).1]
    exact count

theorem unread_step {Statement : Type} [DecidableEq Statement] [Inhabited Positions]
    {frontend : Frontend Statement} {rewrite : Context → Statement → Pass (Statement × Bool)}
    {state after : State Positions} {event : Event Positions}
    (unread : ∀ id request, state.backend.mode = .copying id request →
      ∀ response ∈ state.backend.outbox, isReady response.answer = false)
    (paced : PacedCopies state event) (step : Step frontend rewrite state event after) :
    ∀ id request, after.backend.mode = .copying id request →
      ∀ response ∈ after.backend.outbox, isReady response.answer = false := by
  intro id request copying response listed
  cases step with
  | client ran => exact unread id request copying response listed
  | serve inbox serves =>
    cases serves with
    | passOver other asked already =>
      rw [Backend.next, List.append_nil] at listed
      exact unread other asked already response listed
    | executeRow serving => cases serving.symm.trans copying
    | queryDescribe _ serving => cases serving.symm.trans copying
    | queryRow _ serving => cases serving.symm.trans copying
    | queryDone serving => cases serving.symm.trans copying
    | functionResult serving => cases serving.symm.trans copying
    | _ => cases copying
  | copyStarts inbox serving asks =>
    rcases List.mem_append.mp listed with old | new
    · exact paced response old
    · cases List.mem_singleton.mp new
      rfl
  | notice =>
    rcases List.mem_append.mp listed with old | new
    · exact unread id request copying response old
    · cases List.mem_singleton.mp new
      rfl
  | read outbox =>
    simp only [take_backend] at copying
    apply unread id request copying
    rw [outbox]
    exact List.mem_cons_of_mem _ listed

end Markers

variable {Statement : Type} [DecidableEq Statement] [Inhabited Positions]

/-- In every paced run each ReadyForQuery settles the marker of the Sync, Query or
FunctionCall it answers. -/
theorem ready_settles_own_when_paced (frontend : Frontend Statement)
    (rewrite : Context → Statement → Pass (Statement × Bool)) (rewriter : Batch.Rewriter)
    (state : State Positions) (reached : Runs frontend rewrite PacedCopies rewriter state) :
    ReadySettlesOwn state := by
  apply ready_settles
  refine Reachable.invariant ⟨aligned_init rewriter, nofun⟩ ?_ reached
  rintro before event after ⟨aligned, unread⟩ paced step
  refine ⟨aligned_step aligned ?_ step, unread_step unread paced step⟩
  rintro rfl
  exact paced

/-- In every run whose backend discards no Query or FunctionCall, each row is attributed to
what produced it. -/
theorem rows_attributed_when_undiscarded (frontend : Frontend Statement)
    (rewrite : Context → Statement → Pass (Statement × Bool)) (rewriter : Batch.Rewriter)
    (state : State Positions)
    (reached : Runs frontend rewrite
      (fun before event => Copyless event ∧ Undiscarded before event) rewriter state) :
    RowsAttributed state := by
  have kept : AlignedUncopied state := by
    refine Reachable.invariant ⟨aligned_init rewriter, nofun⟩ ?_ reached
    rintro before event after ⟨aligned, idle⟩ ⟨plain, undiscarded⟩ step
    refine ⟨aligned_step aligned ?_ step, uncopied_step idle plain step⟩
    rintro rfl frame rest inbox
    exact ⟨undiscarded frame rest inbox, fun id request copying => absurd copying (idle id request)⟩
  exact rows_attributed kept.aligned

section Examples

def anyText : Frontend Unit := ⟨fun _ => [], fun _ => .ok [], fun _ _ => .ok [()]⟩

def untouched (_ : Context) (statement : Unit) : Pass (Unit × Bool) := pure (statement, false)

def freshRewriter : Batch.Rewriter := ⟨Statements.plainContext [] .reject, []⟩

def bindBare : Bytes := bindBody ⟨[], [], [], [], [0, 0]⟩

/-- A failed Parse, a Query the backend discards behind it and a Sync; then a statement is
parsed, bound, described and executed. Its row arrives with a batch marker at the front. -/
theorem row_behind_stale_marker :
    ∃ state : State Unit,
      Runs anyText untouched (fun _ event => Copyless event) freshRewriter state ∧
      ¬ RowsAttributed state := by
  have fresh : Runs anyText untouched (fun (_ : State Unit) event => Copyless event) freshRewriter
    (State.init freshRewriter) := .start
  have parsed := run_client fresh .parse [0, 0, 0, 0] ⟨nofun, nofun⟩ rfl
  have queried := run_client parsed .query [0] ⟨nofun, nofun⟩ rfl
  have synced := run_client queried .sync [] ⟨nofun, nofun⟩ rfl
  have failed := run_serve synced trivial rfl (.fail rfl rfl)
  have skipped := run_serve failed trivial rfl (.skip rfl nofun)
  have resumed := run_serve skipped trivial rfl (.resume 0x49 rfl rfl)
  have ready := run_read (run_read resumed trivial rfl) trivial rfl
  have again := run_client ready .parse [0, 0, 0, 0] ⟨nofun, nofun⟩ rfl
  have bound := run_client again .bind bindBare ⟨nofun, nofun⟩ rfl
  have asked := run_client bound .describe [0x53, 0] ⟨nofun, nofun⟩ rfl
  have executed := run_client asked .execute [0, 0, 0, 0, 0] ⟨nofun, nofun⟩ rfl
  have accepted := run_serve (run_serve executed trivial rfl (.accept rfl rfl)) trivial rfl
    (.accept rfl rfl)
  have described := run_serve accepted trivial rfl (.describe () rfl rfl)
  have sent := run_serve described trivial rfl (.executeRow rfl rfl)
  have read := run_read (run_read (run_read sent trivial rfl) trivial rfl) trivial rfl
  refine ⟨_, read, ?_⟩
  intro attributed
  rcases attributed _ _ _ rfl with ⟨_, _, _, _, _, _, front⟩ | ⟨_, _, _, same, _⟩
  · cases front
  · cases same

/-- A row of an Execute, behind a Parse, a Bind and a Describe that went well. -/
theorem row_attributed_to_execute :
    ∃ (state : State Unit) (rest : List (Response Unit)),
      state.backend.outbox = ⟨3, .row (.execute 0)⟩ :: rest ∧ RowsAttributed state := by
  have fresh : Runs anyText untouched
      (fun (before : State Unit) event => Copyless event ∧ Undiscarded before event) freshRewriter
      (State.init freshRewriter) := .start
  have parsed := run_client fresh .parse [0, 0, 0, 0] ⟨⟨nofun, nofun⟩, trivial⟩ rfl
  have bound := run_client parsed .bind bindBare ⟨⟨nofun, nofun⟩, trivial⟩ rfl
  have asked := run_client bound .describe [0x53, 0] ⟨⟨nofun, nofun⟩, trivial⟩ rfl
  have executed := run_client asked .execute [0, 0, 0, 0, 0] ⟨⟨nofun, nofun⟩, trivial⟩ rfl
  have accepted := run_serve executed ⟨trivial, fun _ _ _ => nofun⟩ rfl (.accept rfl rfl)
  have again := run_serve accepted ⟨trivial, fun _ _ _ => nofun⟩ rfl (.accept rfl rfl)
  have described := run_serve again ⟨trivial, fun _ _ _ => nofun⟩ rfl (.describe () rfl rfl)
  have sent := run_serve described ⟨trivial, fun _ _ _ => nofun⟩ rfl (.executeRow rfl rfl)
  have once := run_read sent ⟨trivial, trivial⟩ rfl
  have twice := run_read once ⟨trivial, trivial⟩ rfl
  have read := run_read twice ⟨trivial, trivial⟩ rfl
  exact ⟨_, _, rfl, rows_attributed_when_undiscarded anyText untouched freshRewriter _ read⟩

/-- Execute, Sync, CopyData, CopyDone and Sync sent in one go. The ReadyForQuery for the
second Sync arrives with the marker of the first in front, and one marker is left over. -/
theorem pipelined_copy_misaligned :
    ∃ state : State Unit, Runs anyText untouched unrestricted freshRewriter state ∧
      ¬ ReadySettlesOwn state ∧
      (∃ request rest, state.backend.outbox = ⟨request, .ready 4 0x49⟩ :: rest ∧
        state.line.portals.pending.head? = some (.batch 1) ∧
        markers state.line.portals.batchAnswered = 1 ∧
        owed { state.backend with outbox := rest } = 0) := by
  have fresh : Runs anyText untouched (@unrestricted (State Unit) _) freshRewriter
    (State.init freshRewriter) := .start
  have executed := run_client fresh .execute [0, 0, 0, 0, 0] trivial rfl
  have synced := run_client executed .sync [] trivial rfl
  have filled := run_client synced (.copy .data) [] trivial rfl
  have ended := run_client filled (.copy .done) [] trivial rfl
  have again := run_client ended .sync [] trivial rfl
  have copying := run_copyStarts again trivial rfl rfl rfl
  have passed := run_serve copying trivial rfl (.passOver _ _ rfl rfl)
  have taken := run_serve passed trivial rfl (.passOver _ _ rfl rfl)
  have copied := run_serve taken trivial rfl (.copyDone _ _ rfl rfl)
  have closed := run_serve copied trivial rfl (.close false 0x49 rfl rfl)
  have read := run_read (run_read closed trivial rfl) trivial rfl
  refine ⟨_, read, ?_, _, _, rfl, rfl, rfl, rfl⟩
  intro settles
  obtain ⟨⟨settled, behind, pending, none⟩, _⟩ := settles _ _ _ _ rfl
  cases settled with
  | nil =>
    have front : some (Pending.batch 1) = some (.batch 4) := congrArg List.head? pending
    cases front
  | cons entry rest =>
    have front : some (Pending.batch 1) = some entry := congrArg List.head? pending
    cases front
    cases none _ List.mem_cons_self

/-- The same copy by a client that sends the payload once it has seen the copy start. -/
theorem awaited_copy_aligned :
    ∃ (state : State Unit) (rest : List (Response Unit)),
      state.backend.outbox = ⟨4, .ready 4 0x49⟩ :: rest ∧ ReadySettlesOwn state := by
  have fresh : Runs anyText untouched (@PacedCopies Unit) freshRewriter
    (State.init freshRewriter) := .start
  have executed := run_client fresh .execute [0, 0, 0, 0, 0] trivial rfl
  have synced := run_client executed .sync [] trivial rfl
  have copying := run_copyStarts synced nofun rfl rfl rfl
  have known := run_read copying trivial rfl
  have filled := run_client known (.copy .data) [] trivial rfl
  have ended := run_client filled (.copy .done) [] trivial rfl
  have again := run_client ended .sync [] trivial rfl
  have passed := run_serve again
    (fun _ _ inbox => ⟨nofun, fun _ _ _ => by cases inbox; exact .inl rfl⟩) rfl
    (.passOver _ _ rfl rfl)
  have taken := run_serve passed
    (fun _ _ inbox => ⟨nofun, fun _ _ _ => by cases inbox; exact .inl rfl⟩) rfl
    (.passOver _ _ rfl rfl)
  have copied := run_serve taken
    (fun _ _ inbox => ⟨nofun, fun _ _ mode => by
      cases inbox; cases mode; exact .inr ⟨.inl rfl, rfl⟩⟩) rfl (.copyDone _ _ rfl rfl)
  have closed := run_serve copied (fun _ _ _ => ⟨nofun, nofun⟩) rfl (.close false 0x49 rfl rfl)
  have read := run_read closed trivial rfl
  exact ⟨_, _, rfl, ready_settles_own_when_paced anyText untouched freshRewriter _ read⟩

end Examples

end Dbsec.QueueSafety
