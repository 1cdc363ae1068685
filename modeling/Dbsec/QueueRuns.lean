import Dbsec.QueueAlignment

/-! The pending queue over whole conversations. Each frame that goes on and each thing the
backend does keeps the queue aligned with what is still to be answered, as long as no
Query or FunctionCall is discarded behind a failed message and a copy is ended only by a
frame the proxy passed on after it had seen the copy start. -/
namespace Dbsec.QueueRuns
open Framing Params Catalog Rewrite Lexer Portal BindFrames Frames Conversation QueueAlignment

section Client

variable {Positions : Type} {copyIn : CopyIn Nat} {rest : List Shape} {inbox : List Sent}
  {frame : Sent}

theorem copyTail_push {id : Nat} (early : ¬ Ends id frame) (holds : CopyTail id copyIn rest inbox) :
    CopyTail id copyIn (rest ++ (expected frame).toList) (inbox ++ [frame]) := by
  unfold CopyTail at holds ⊢
  rw [List.dropWhile_append]
  split at holds
  · rename_i nothing
    rw [nothing, List.isEmpty_nil, if_pos rfl]
    cases passed : passedOver frame.message with
    | true =>
      rw [List.dropWhile_cons, passed, if_pos rfl, List.dropWhile_nil]
      refine ⟨holds.1, ?_⟩
      intro entry listed
      rcases List.mem_append.mp listed with queued | new
      · exact holds.2 entry queued
      · exact expected_passed passed (Option.mem_toList.mp new)
    | false =>
      rw [List.dropWhile_cons, passed, if_neg Bool.false_ne_true]
      exact ⟨fun ends => absurd ends early, fun _ => .inr holds.1⟩
  · rename_i first later found
    rw [found, List.isEmpty_cons, if_neg Bool.false_ne_true, List.cons_append]
    refine ⟨?_, holds.2⟩
    intro ends
    obtain ⟨idle, rfl⟩ := holds.1 ends
    refine ⟨idle, ?_⟩
    rw [expectedAll_append, expectedAll_single]

variable {backend : Backend Positions}

theorem settled_push (early : ∀ id, ¬ Ends id frame) {view : View} (holds : Settled backend view) :
    Settled { backend with inbox := backend.inbox ++ [frame] }
      (view.push (expected frame).toList) := by
  unfold Settled at holds ⊢
  split at holds
  · rename_i serving
    obtain ⟨reads, idle, queue, open'⟩ := holds
    simp only [serving]
    refine ⟨reads, idle, ?_, ?_⟩
    · rw [View.push, queue, expectedAll_append, expectedAll_single]
    · intro result shown
      obtain ⟨first, rest, inbox, asked, described⟩ := open' result shown
      exact ⟨first, rest ++ [frame], by rw [inbox, List.cons_append], asked, described⟩
  · rename_i skipping
    obtain ⟨skips, idle, skipped, queue, none⟩ := holds
    simp only [skipping]
    refine ⟨skips, idle, ?_⟩
    rw [View.push, queue, List.dropWhile_append]
    cases left : backend.inbox.dropWhile fun frame => !frame.message.closes with
    | cons first later =>
      refine ⟨skipped, ?_, none⟩
      rw [List.isEmpty_cons, if_neg Bool.false_ne_true, expectedAll_append, expectedAll_single,
        List.append_assoc]
    | nil =>
      -- All that is queued is skipped; the new frame ends that or is skipped too.
      rw [List.isEmpty_nil, if_pos rfl]
      cases closes : frame.message.closes with
      | true =>
        refine ⟨skipped, ?_, none⟩
        rw [List.dropWhile_cons, closes, Bool.not_true, if_neg Bool.false_ne_true,
          expectedAll_single]
        simp [expectedAll]
      | false =>
        refine ⟨skipped ++ (expected frame).toList, ?_, ?_⟩
        · simp [closes, expectedAll]
        · intro entry listed
          rcases List.mem_append.mp listed with queued | new
          · exact none entry queued
          · exact expected_open closes (Option.mem_toList.mp new)
  · rename_i id request copying
    obtain ⟨reads, rest, queue, tail⟩ := holds
    simp only [copying]
    refine ⟨reads, rest ++ (expected frame).toList, ?_, copyTail_push (early id) tail⟩
    rw [View.push, queue, List.cons_append]

theorem settled_of_started {responses : List (Response Positions)} {view : View}
    (started : view.copyIn ≠ .idle) (holds : Follows (Settled backend) responses view) :
    (∀ after : View → Prop, ∀ other, after other → Follows after responses other) ∧
      Settled backend view := by
  induction responses with
  | nil => exact ⟨fun _ _ => id, holds⟩
  | cons response rest ih =>
    obtain ⟨request, answer⟩ := response
    cases answer with
    | other =>
      obtain ⟨silent, settled⟩ := ih holds
      exact ⟨silent, settled⟩
    | notice =>
      obtain ⟨silent, settled⟩ := ih holds
      exact ⟨silent, settled⟩
    | ready mark status => exact absurd holds.1 started
    | description source positions => cases source <;> exact absurd holds.2.1 started
    | row source => cases source <;> exact absurd holds.2.1 started
    | _ => exact absurd holds.2.1 started

theorem copyTail_started {id : Nat} (holds : CopyTail id copyIn rest inbox)
    (busy : copyIn ≠ .idle) :
    copyIn = .started (some id) := by
  unfold CopyTail at holds
  split at holds
  · exact holds.1
  · rename_i first later _
    by_cases ends : Ends id first
    · exact absurd (holds.1 ends).1 busy
    · exact (holds.2 ends).resolve_left busy

/-- A copy frame that passes while the copy is known drops the markers behind its Execute,
and the frame that ends the copy leaves none. -/
theorem settled_copy {backend : Backend Positions} {view : View} {execute : Option Nat}
    {copy : CopyFrame} {frame : Sent} (known : view.copyIn = .started execute)
    (carries : frame.message = .copy copy) (seen : frame.seen = view.copyIn)
    (holds : Settled backend view) :
    ∃ id, execute = some id ∧
      Settled { backend with inbox := backend.inbox ++ [frame] }
        { view with
          copyIn := if copy = .data then view.copyIn else .idle
          queue := droppedMarkers id view.queue } := by
  unfold Settled at holds ⊢
  split at holds
  · cases known.symm.trans holds.2.1
  · cases known.symm.trans holds.2.1
  · rename_i id request copying
    obtain ⟨reads, rest, queue, tail⟩ := holds
    have begun := copyTail_started tail (by rw [known]; simp)
    cases known.symm.trans begun
    refine ⟨id, rfl, ?_⟩
    simp only [copying]
    refine ⟨reads, rest.dropWhile Shape.isBatch, ?_, ?_⟩
    · rw [queue, droppedMarkers, if_pos rfl]
    · unfold CopyTail at tail ⊢
      rw [List.dropWhile_append]
      split at tail
      · rename_i nothing
        have dropped : rest.dropWhile Shape.isBatch = [] := List.dropWhile_eq_nil_iff.mpr tail.2
        rw [nothing, List.isEmpty_nil, if_pos rfl, dropped, List.dropWhile_cons, carries]
        cases copy with
        | data => exact ⟨begun, List.forall_mem_nil _⟩
        | done =>
          exact ⟨fun _ => ⟨rfl, rfl⟩, fun late => absurd ⟨.inl carries, seen.trans begun⟩ late⟩
        | fail =>
          exact ⟨fun _ => ⟨rfl, rfl⟩, fun late => absurd ⟨.inr carries, seen.trans begun⟩ late⟩
      · rename_i first later found
        rw [found, List.isEmpty_cons, if_neg Bool.false_ne_true, List.cons_append]
        constructor
        · intro ends
          cases begun.symm.trans (tail.1 ends).1
        · intro _
          cases copy with
          | data => exact .inr begun
          | done => exact .inl rfl
          | fail => exact .inl rfl

end Client

/-- What the run keeps to: nothing that closes a batch is discarded, a backend in a copy
gets only what belongs there, and the end of a copy passed the proxy after its start. -/
def Paced {Positions : Type} (backend : Backend Positions) : Prop :=
  ∀ frame rest, backend.inbox = frame :: rest →
    (backend.mode = .skipping → frame.message.closes = true → frame.message = .sync) ∧
      ∀ id request, backend.mode = .copying id request →
        passedOver frame.message = true ∨ Ends id frame

section Backend

variable {Positions : Type} {backend : Backend Positions} {frame : Sent} {rest : List Sent}
  {view : View}

theorem settled_serving (serving : backend.mode = .serving) (inbox : backend.inbox = frame :: rest)
    (holds : Settled backend view) :
    view.skipping = false ∧ view.copyIn = .idle ∧
      view.queue = (expected frame).toList ++ expectedAll rest ∧
      ∀ result, backend.result = some result →
        view.described = some (some (frame.mark, result)) := by
  simp only [Settled, serving] at holds
  obtain ⟨reads, idle, queue, open'⟩ := holds
  refine ⟨reads, idle, ?_, ?_⟩
  · rw [queue, inbox, ← expectedAll_single, ← expectedAll_append]
    rfl
  · intro result shown
    obtain ⟨first, others, same, _, described⟩ := open' result shown
    cases inbox.symm.trans same
    exact described

theorem settled_next (outbox : List (Response Positions)) (results : Nat)
    (reads : view.skipping = false) (idle : view.copyIn = .idle)
    (queue : view.queue = expectedAll rest) :
    Settled ⟨rest, outbox, .serving, none, results⟩ view :=
  ⟨reads, idle, queue, by simp⟩

theorem settled_failed (outbox : List (Response Positions)) (results : Nat) {ahead : List Shape}
    (reads : view.skipping = true) (idle : view.copyIn = .idle)
    (queue : view.queue = ahead ++ expectedAll rest)
    (none : ∀ entry ∈ ahead, entry.isBatch = false) :
    Settled ⟨rest, outbox, .skipping, Option.none, results⟩ view := by
  obtain ⟨skipped, split, unmarked⟩ := expectedAll_split rest
  refine ⟨reads, idle, ahead ++ skipped, ?_, ?_⟩
  · rw [queue, split, List.append_assoc]
  · intro entry listed
    rcases List.mem_append.mp listed with early | late
    · exact none entry early
    · exact unmarked entry late

theorem expected_quiet (silent : quiet frame.message = true) : expected frame = none := by
  obtain ⟨message, body, mark, id, seen⟩ := frame
  cases message <;> first | rfl | cases silent

theorem expected_describe (asks : frame.message = .describe) : expected frame = some .describe := by
  obtain ⟨message, body, mark, id, seen⟩ := frame
  cases asks
  rfl

theorem expected_execute (asks : frame.message = .execute) :
    expected frame = some (.execute frame.execute) := by
  obtain ⟨message, body, mark, id, seen⟩ := frame
  cases asks
  rfl

theorem expected_copy {copy : CopyFrame} (carries : frame.message = .copy copy) :
    expected frame = none := by
  obtain ⟨message, body, mark, id, seen⟩ := frame
  cases carries
  rfl

theorem extended_open (extended : frame.message.extended = true) :
    frame.message.closes = false := by
  cases message : frame.message <;> rw [message] at extended <;> first | rfl | cases extended

/-- The answers of a step leave the proxy's view of the queue settled once they are read. -/
def Answered (backend after : Backend Positions) (view : View) : Prop :=
  ∃ answers, after.outbox = backend.outbox ++ answers ∧ Follows (Settled after) answers view

section Serving

variable (serving : backend.mode = .serving) (inbox : backend.inbox = frame :: rest)
  (holds : Settled backend view)
include serving inbox holds

theorem answered_failure (extended : frame.message.extended = true) :
    Answered backend (backend.next rest .skipping [⟨frame.mark, .error⟩]) view := by
  obtain ⟨reads, idle, queue, _⟩ := settled_serving serving inbox holds
  refine ⟨_, rfl, reads, idle, .inl (settled_failed _ _ rfl idle queue ?_)⟩
  intro entry listed
  exact expected_open (extended_open extended) (Option.mem_toList.mp listed)

theorem answered_describe (asks : frame.message = .describe) {answer : Answer Positions}
    (answers : answer = .noData ∨ ∃ positions, answer = .description none positions) :
    Answered backend (backend.next rest .serving [⟨frame.mark, answer⟩]) view := by
  obtain ⟨reads, idle, queue, _⟩ := settled_serving serving inbox holds
  rw [expected_describe asks] at queue
  have popped : answeredDescribe view.queue = expectedAll rest := by
    rw [queue]
    rfl
  rcases answers with rfl | ⟨positions, rfl⟩
  · exact ⟨_, rfl, reads, idle, ⟨_, queue⟩, settled_next _ _ rfl idle popped⟩
  · exact ⟨_, rfl, reads, idle, ⟨_, queue⟩, settled_next _ _ rfl idle popped⟩

theorem answered_execute (asks : frame.message = .execute) :
    Answered backend (backend.next rest .serving [⟨frame.mark, .complete⟩]) view := by
  obtain ⟨reads, idle, queue, _⟩ := settled_serving serving inbox holds
  rw [expected_execute asks] at queue
  refine ⟨_, rfl, reads, idle, .inl ⟨_, _, queue⟩, settled_next _ _ rfl idle ?_⟩
  rw [View.read, queue]
  rfl

omit inbox in
theorem settled_stay {later : View} (response : Response Positions)
    (reads : later.skipping = false) (idle : later.copyIn = .idle)
    (queue : later.queue = view.queue) : Settled (backend.stay none response) later := by
  simp only [Settled, serving] at holds
  simp only [Settled, Backend.stay, serving]
  exact ⟨reads, idle, queue.trans holds.2.2.1, by simp⟩

theorem answered_executeRow (asks : frame.message = .execute) :
    Answered backend (backend.stay none ⟨frame.mark, .row (.execute frame.execute)⟩) view := by
  obtain ⟨reads, idle, queue, _⟩ := settled_serving serving inbox holds
  rw [expected_execute asks] at queue
  exact ⟨_, rfl, reads, idle, ⟨_, queue⟩, settled_stay serving holds _ reads idle rfl⟩

theorem batch_first (closes : frame.message.closes = true) :
    view.queue = .batch frame.mark :: expectedAll rest := by
  obtain ⟨_, _, queue, _⟩ := settled_serving serving inbox holds
  rw [queue, expected_closes closes]
  rfl

theorem answered_queryDescribe (positions : Positions) (asks : frame.message = .query) :
    Answered backend
      { backend.stay (some backend.results)
          ⟨frame.mark, .description (some (frame.mark, backend.results)) positions⟩ with
        results := backend.results + 1 } view := by
  have queue := batch_first serving inbox holds (by rw [asks]; rfl)
  simp only [Settled, serving] at holds
  obtain ⟨reads, idle, whole, _⟩ := holds
  refine ⟨_, rfl, reads, idle, ⟨_, queue⟩, ?_⟩
  simp only [Follows, Settled, Backend.stay, serving]
  refine ⟨rfl, idle, ?_, ?_⟩
  · rw [View.read, ← whole, queue]
    rfl
  · intro result same
    cases same
    exact ⟨frame, rest, inbox, asks, rfl⟩

theorem answered_queryRow {result : Nat} (asks : frame.message = .query)
    (shown : backend.result = some result) :
    Answered backend (backend.stay (some result) ⟨frame.mark, .row (.query frame.mark result)⟩)
      view := by
  have queue := batch_first serving inbox holds (by rw [asks]; rfl)
  obtain ⟨reads, idle, _, described⟩ := settled_serving serving inbox holds
  refine ⟨_, rfl, reads, idle, ⟨_, queue⟩, described result shown, ?_⟩
  simp only [Settled, serving] at holds
  simp only [Follows, Settled, Backend.stay, serving]
  rw [← shown]
  exact holds

theorem answered_queryDone (asks : frame.message = .query) :
    Answered backend (backend.stay none ⟨frame.mark, .complete⟩) view := by
  have queue := batch_first serving inbox holds (by rw [asks]; rfl)
  obtain ⟨reads, idle, _, _⟩ := settled_serving serving inbox holds
  refine ⟨_, rfl, reads, idle, .inr ⟨_, _, queue⟩, settled_stay serving holds _ rfl idle ?_⟩
  rw [View.read, queue]
  rfl

theorem answered_close (failed : Bool) (status : UInt8) (closes : frame.message.closes = true) :
    Answered backend (backend.next rest .serving ((if failed then [⟨frame.mark, .error⟩] else []) ++
      [⟨frame.mark, .ready frame.mark status⟩])) view := by
  have queue := batch_first serving inbox holds closes
  obtain ⟨reads, idle, _, _⟩ := settled_serving serving inbox holds
  -- An error in front changes what is described and nothing else.
  have settles : ∀ described, Follows
      (Settled (backend.next rest .serving ((if failed then [⟨frame.mark, .error⟩] else []) ++
        [⟨frame.mark, .ready frame.mark status⟩])))
      [(⟨frame.mark, .ready frame.mark status⟩ : Response Positions)]
      { view with described := described } := by
    intro described
    refine ⟨idle, ⟨[], _, queue, List.forall_mem_nil _, fun _ => rfl⟩, settled_next _ _ rfl rfl ?_⟩
    rw [View.read, queue]
    exact @answeredBatch_first [] (expectedAll rest) frame.mark (List.forall_mem_nil _)
  refine ⟨_, rfl, ?_⟩
  cases failed with
  | false => exact settles view.described
  | true => exact ⟨reads, idle, .inr ⟨⟨_, _, queue⟩, settles none⟩⟩

end Serving

section Skipping

variable (skipping : backend.mode = .skipping) (inbox : backend.inbox = frame :: rest)
  (holds : Settled backend view)
include skipping inbox holds

theorem answered_resume (status : UInt8) (asks : frame.message = .sync) :
    Answered backend (backend.next rest .serving [⟨frame.mark, .ready frame.mark status⟩])
      view := by
  simp only [Settled, skipping] at holds
  obtain ⟨reads, idle, skipped, queue, none⟩ := holds
  have closes : frame.message.closes = true := by rw [asks]; rfl
  rw [inbox, List.dropWhile_cons, closes, Bool.not_true, if_neg Bool.false_ne_true, expectedAll,
    List.filterMap_cons, expected_closes closes] at queue
  refine ⟨_, rfl, idle, ⟨skipped, _, queue, none, ?_⟩, settled_next _ _ rfl rfl ?_⟩
  · intro serving
    cases reads.symm.trans serving
  · rw [View.read, queue]
    exact answeredBatch_first none

theorem answered_skip (paced : Paced backend) (asks : frame.message ≠ .sync) :
    Answered backend (backend.next rest .skipping []) view := by
  simp only [Settled, skipping] at holds
  obtain ⟨reads, idle, skipped, queue, none⟩ := holds
  have goesOn : frame.message.closes = false := by
    by_contra closes
    exact asks ((paced frame rest inbox).1 skipping (by simpa using closes))
  rw [inbox, List.dropWhile_cons, goesOn, Bool.not_false, if_pos rfl] at queue
  exact ⟨[], rfl, reads, idle, skipped, queue, none⟩

end Skipping

section Copying

variable {id request : Nat} (copying : backend.mode = .copying id request)
  (inbox : backend.inbox = frame :: rest) (holds : Settled backend view)
include copying inbox holds

theorem answered_passOver (passed : passedOver frame.message = true) :
    Answered backend (backend.next rest (.copying id request) []) view := by
  simp only [Settled, copying] at holds
  obtain ⟨reads, tail, queue, behind⟩ := holds
  refine ⟨[], rfl, reads, tail, queue, ?_⟩
  rw [CopyTail, inbox, List.dropWhile_cons, passed, if_pos rfl] at behind
  exact behind

/-- At the frame that ends a copy the proxy is done with it, and its Execute is in front. -/
theorem copy_over (paced : Paced backend) (ends : passedOver frame.message = false) :
    view.skipping = false ∧ view.copyIn = .idle ∧
      view.queue = .execute id :: expectedAll rest := by
  simp only [Settled, copying] at holds
  obtain ⟨reads, tail, queue, behind⟩ := holds
  have late : Ends id frame := ((paced frame rest inbox).2 id request copying).resolve_left
    (by rw [ends]; exact Bool.false_ne_true)
  rw [CopyTail, inbox, List.dropWhile_cons, ends, if_neg Bool.false_ne_true] at behind
  obtain ⟨idle, rfl⟩ := behind.1 late
  exact ⟨reads, idle, queue⟩

theorem answered_copyDone (paced : Paced backend) (ends : frame.message = .copy .done) :
    Answered backend (backend.next rest .serving [⟨request, .complete⟩]) view := by
  obtain ⟨reads, idle, queue⟩ := copy_over copying inbox holds paced (by rw [ends]; rfl)
  refine ⟨_, rfl, reads, idle, .inl ⟨id, _, queue⟩, settled_next _ _ rfl idle ?_⟩
  rw [View.read, queue]
  rfl

theorem answered_copyFail (paced : Paced backend) (ends : passedOver frame.message = false) :
    Answered backend (backend.next rest .skipping [⟨request, .error⟩]) view := by
  obtain ⟨reads, idle, queue⟩ := copy_over copying inbox holds paced ends
  refine ⟨_, rfl, reads, idle, .inl (@settled_failed _ _ _ _ _ [.execute id] rfl idle queue ?_)⟩
  intro entry listed
  cases List.mem_singleton.mp listed
  rfl

end Copying

theorem settled_serves {after : Backend Positions} (paced : Paced backend)
    (inbox : backend.inbox = frame :: rest) (serves : Serves backend frame rest after)
    (holds : Settled backend view) : Answered backend after view := by
  cases serves with
  | accept serving silent =>
    obtain ⟨reads, idle, queue, _⟩ := settled_serving serving inbox holds
    rw [expected_quiet silent] at queue
    exact ⟨_, rfl, settled_next _ _ reads idle queue⟩
  | fail serving extended => exact answered_failure serving inbox holds extended
  | describe positions serving asks =>
    exact answered_describe serving inbox holds asks (.inr ⟨positions, rfl⟩)
  | noData serving asks => exact answered_describe serving inbox holds asks (.inl rfl)
  | executeRow serving asks => exact answered_executeRow serving inbox holds asks
  | executeDone serving asks => exact answered_execute serving inbox holds asks
  | queryDescribe positions serving asks =>
    exact answered_queryDescribe serving inbox holds positions asks
  | queryRow result serving asks shown => exact answered_queryRow serving inbox holds asks shown
  | queryDone serving asks => exact answered_queryDone serving inbox holds asks
  | functionResult serving asks =>
    obtain ⟨reads, idle, _, _⟩ := settled_serving serving inbox holds
    exact ⟨_, rfl, settled_stay serving holds _ reads idle rfl⟩
  | close failed status serving closes =>
    exact answered_close serving inbox holds failed status closes
  | stray copy serving carries =>
    obtain ⟨reads, idle, queue, _⟩ := settled_serving serving inbox holds
    rw [expected_copy carries] at queue
    exact ⟨_, rfl, settled_next _ _ reads idle queue⟩
  | resume status skipping asks => exact answered_resume skipping inbox holds status asks
  | skip skipping asks => exact answered_skip skipping inbox holds paced asks
  | passOver id request copying passed => exact answered_passOver copying inbox holds passed
  | copyDone id request copying ends => exact answered_copyDone copying inbox holds paced ends
  | copyFail id request copying ends => exact answered_copyFail copying inbox holds paced ends

end Backend

section Numbers

variable {Positions : Type}

def executeId (frame : Sent) : Option Nat :=
  if frame.message = .execute then some frame.execute else none

/-- Executes are numbered in the order they are sent, and a copy the proxy has seen start
belongs to an Execute the backend has taken up. -/
structure Numbered (state : State Positions) : Prop where
  increasing : (state.backend.inbox.filterMap executeId).Pairwise (· < ·)
  below : ∀ id ∈ state.backend.inbox.filterMap executeId, id < state.line.portals.nextExecuteId
  copying : ∀ id request, state.backend.mode = .copying id request →
    id < state.line.portals.nextExecuteId ∧
      ∀ other ∈ state.backend.inbox.filterMap executeId, id < other
  seen : ∀ frame ∈ state.backend.inbox, ∀ id, frame.seen = .started (some id) →
    id < state.line.portals.nextExecuteId ∧
      ∀ other ∈ state.backend.inbox.filterMap executeId, id < other

theorem numbered_init (rewriter : Batch.Rewriter) :
    Numbered (State.init rewriter : State Positions) where
  increasing := .nil
  below := nofun
  copying := nofun
  seen := nofun

variable {state : State Positions} {frame : Sent}

theorem Numbered.shrink {backend : Backend Positions} (holds : Numbered state) {rest : List Sent}
    (inbox : state.backend.inbox = frame :: rest)
    (fewer : backend.inbox = rest ∨ backend.inbox = frame :: rest)
    (mode : ∀ id request, backend.mode = .copying id request →
      state.backend.mode = .copying id request ∨
        executeId frame = some id ∧ backend.inbox = rest) :
    Numbered { state with backend := backend } := by
  have part : (backend.inbox.filterMap executeId).Sublist
      (state.backend.inbox.filterMap executeId) := by
    apply List.Sublist.filterMap
    rw [inbox]
    rcases fewer with same | same
    · rw [same]
      exact List.sublist_cons_self _ _
    · rw [same]
  have frames : ∀ other ∈ backend.inbox, other ∈ state.backend.inbox := by
    intro other listed
    rw [inbox]
    rcases fewer with same | same
    · exact List.mem_cons_of_mem _ (same ▸ listed)
    · exact same ▸ listed
  refine ⟨holds.increasing.sublist part, fun id listed => holds.below id (part.mem listed), ?_, ?_⟩
  · intro id request copying
    rcases mode id request copying with already | ⟨starts, left⟩
    · obtain ⟨below, others⟩ := holds.copying id request already
      exact ⟨below, fun other listed => others other (part.mem listed)⟩
    · -- The Execute that starts a copy is numbered ahead of those behind it.
      have increasing := holds.increasing
      have below := holds.below
      rw [inbox, List.filterMap_cons, starts] at increasing below
      refine ⟨below id List.mem_cons_self, ?_⟩
      rw [left]
      exact (List.pairwise_cons.mp increasing).1
  · intro other listed id seen
    obtain ⟨below, others⟩ := holds.seen other (frames other listed) id seen
    exact ⟨below, fun later queued => others later (part.mem queued)⟩

theorem Numbered.push (holds : Numbered state) {line : Frontline Positions Nat}
    {requests : List ClientMessage} {delivered : List (Nat × Delivery Positions)}
    (grows : state.line.portals.nextExecuteId ≤ line.portals.nextExecuteId)
    (next : ∀ id, executeId frame = some id →
      id = state.line.portals.nextExecuteId ∧ id < line.portals.nextExecuteId)
    (known : ∀ id, frame.seen = .started (some id) →
      ∃ request, state.backend.mode = .copying id request) :
    Numbered { state with
      line := line
      backend.inbox := state.backend.inbox ++ [frame]
      requests := requests
      delivered := delivered } := by
  have listed : ∀ id ∈ (state.backend.inbox ++ [frame]).filterMap executeId,
      id ∈ state.backend.inbox.filterMap executeId ∨ executeId frame = some id := by
    intro id member
    rw [List.filterMap_append] at member
    rcases List.mem_append.mp member with old | new
    · exact .inl old
    · obtain ⟨only, here, same⟩ := List.mem_filterMap.mp new
      cases List.mem_singleton.mp here
      exact .inr same
  -- Ids are given out in order, so one below all that are queued stays below them.
  have ahead : ∀ early, early < state.line.portals.nextExecuteId →
      (∀ other ∈ state.backend.inbox.filterMap executeId, early < other) →
      early < line.portals.nextExecuteId ∧
        ∀ other ∈ (state.backend.inbox ++ [frame]).filterMap executeId, early < other := by
    intro early below others
    refine ⟨Nat.lt_of_lt_of_le below grows, ?_⟩
    intro other member
    rcases listed other member with old | new
    · exact others other old
    · rw [(next other new).1]
      exact below
  refine ⟨?_, ?_, ?_, ?_⟩
  · simp only [List.filterMap_append]
    refine List.pairwise_append.mpr ⟨holds.increasing, ?_, ?_⟩
    · rw [List.filterMap_cons]
      cases executeId frame with
      | none => exact .nil
      | some id => exact List.pairwise_singleton _ _
    · intro early member late new
      obtain ⟨only, here, same⟩ := List.mem_filterMap.mp new
      cases List.mem_singleton.mp here
      rw [(next late same).1]
      exact holds.below early member
  · intro id member
    rcases listed id member with old | new
    · exact Nat.lt_of_lt_of_le (holds.below id old) grows
    · exact (next id new).2
  · intro id request copying
    obtain ⟨below, others⟩ := holds.copying id request copying
    exact ahead id below others
  · intro other member id seen
    rcases List.mem_append.mp member with old | new
    · obtain ⟨below, others⟩ := holds.seen other old id seen
      exact ahead id below others
    · cases List.mem_singleton.mp new
      obtain ⟨request, copying⟩ := known id seen
      obtain ⟨below, others⟩ := holds.copying id request copying
      exact ahead id below others

end Numbers

section Runs

variable {Positions : Type}

def viewOf (state : State Positions) (skipping : Bool) : View :=
  ⟨skipping, state.line.portals.copyIn, state.described, queueOf state.line.portals⟩

/-- The queue and the backend agree on what is still to be answered. -/
structure Aligned (state : State Positions) : Prop where
  numbered : Numbered state
  follows : ∃ skipping, Follows (Settled state.backend) state.backend.outbox (viewOf state skipping)

theorem aligned_init (rewriter : Batch.Rewriter) :
    Aligned (State.init rewriter : State Positions) :=
  ⟨numbered_init rewriter, false, rfl, rfl, rfl, nofun⟩

variable {after : Tracked Positions Nat Nat} {message : ClientMessage}

variable {mark : Nat} {before : Tracked Positions Nat Nat}

theorem moves_queue (moves : Moves mark before message after) (plain : ∀ copy, message ≠ .copy copy)
    (body : Bytes) (seen : CopyIn Nat) :
    queueOf after = queueOf before ++
        (expected ⟨message, body, mark, before.nextExecuteId, seen⟩).toList ∧
      after.copyIn = before.copyIn := by
  cases moves with
  | batch message closes =>
    refine ⟨?_, rfl⟩
    rw [@expected_closes ⟨message, body, mark, before.nextExecuteId, seen⟩ closes]
    exact List.map_append
  | execute portal => exact ⟨List.map_append, rfl⟩
  | describe target name => exact ⟨List.map_append, rfl⟩
  | copy frame => exact absurd rfl (plain frame)
  | parse name params => exact ⟨(List.append_nil _).symm, rfl⟩
  | bind portal statement formats => exact ⟨(List.append_nil _).symm, rfl⟩
  | closeStatement name => exact ⟨(List.append_nil _).symm, rfl⟩
  | closePortal name => exact ⟨(List.append_nil _).symm, rfl⟩
  | none message last =>
    rcases last with rfl | rfl
    · exact ⟨(List.append_nil _).symm, rfl⟩
    · exact ⟨(List.append_nil _).symm, rfl⟩

theorem moves_number (moves : Moves mark before message after) :
    before.nextExecuteId ≤ after.nextExecuteId ∧
      (message = .execute → before.nextExecuteId < after.nextExecuteId) := by
  cases moves with
  | execute portal => exact ⟨Nat.le_succ _, fun _ => Nat.lt_succ_self _⟩
  | batch message closes =>
    refine ⟨Nat.le_refl _, ?_⟩
    rintro rfl
    cases closes
  | copy frame =>
    refine ⟨?_, nofun⟩
    unfold Tracked.copyData
    split
    · exact Nat.le_refl _
    · dsimp only
      split <;> exact Nat.le_refl _
  | none message last =>
    refine ⟨Nat.le_refl _, ?_⟩
    rintro rfl
    rcases last with same | same <;> cases same
  | _ => exact ⟨Nat.le_refl _, nofun⟩

variable {state : State Positions}

theorem copying_of_started (holds : Aligned state) {id : Nat}
    (started : state.line.portals.copyIn = .started (some id)) :
    ∃ request, state.backend.mode = .copying id request := by
  obtain ⟨skipping, follows⟩ := holds.follows
  have busy : (viewOf state skipping).copyIn ≠ .idle := by
    rw [viewOf, started]
    simp
  have settled := (settled_of_started busy follows).2
  unfold Settled at settled
  split at settled
  · exact absurd settled.2.1 busy
  · exact absurd settled.2.1 busy
  · rename_i other request copying
    obtain ⟨_, rest, _, tail⟩ := settled
    cases started.symm.trans (copyTail_started tail busy)
    exact ⟨request, copying⟩

theorem copyData_queue (tracked : Tracked Positions Nat Nat) (copy : CopyFrame) :
    queueOf (tracked.copyData copy) =
        (match tracked.copyIn with
          | .started (some id) => droppedMarkers id (queueOf tracked)
          | _ => queueOf tracked) ∧
      (tracked.copyData copy).copyIn =
        (match tracked.copyIn with
          | .idle => .idle
          | .started execute => if copy = .data then .started execute else .idle) := by
  unfold Tracked.copyData
  cases known : tracked.copyIn with
  | idle => exact ⟨rfl, known⟩
  | started execute =>
    cases execute with
    | none => exact ⟨rfl, rfl⟩
    | some id => exact ⟨dropMarkers_queue id tracked.pending, rfl⟩

variable {body : Bytes} {frame : Sent}

theorem follows_client (holds : Aligned state) (moves : Moves mark state.line.portals message after)
    (carried : frame = ⟨message, body, mark, state.line.portals.nextExecuteId,
      state.line.portals.copyIn⟩) :
    ∃ skipping, Follows (Settled { state.backend with inbox := state.backend.inbox ++ [frame] })
      state.backend.outbox ⟨skipping, after.copyIn, state.described, queueOf after⟩ := by
  obtain ⟨skipping, follows⟩ := holds.follows
  by_cases plain : ∀ copy, message ≠ .copy copy
  · obtain ⟨queue, copyIn⟩ := moves_queue moves plain body state.line.portals.copyIn
    have early : ∀ id, ¬ Ends id frame := by
      rintro id ⟨done | fail, _⟩
      · rw [carried] at done
        exact plain _ done
      · rw [carried] at fail
        exact plain _ fail
    refine ⟨skipping, ?_⟩
    rw [queue, copyIn, ← carried]
    exact follows_push (fun view => settled_push early) state.backend.outbox follows
  · rw [not_forall] at plain
    obtain ⟨copy, same⟩ := plain
    rw [not_not] at same
    subst same
    have copied : after = state.line.portals.copyData copy := by
      cases moves with
      | batch message closes => cases closes
      | copy frame => rfl
      | none message last => rcases last with same | same <;> cases same
    obtain ⟨queue, copyIn⟩ := copyData_queue state.line.portals copy
    refine ⟨skipping, ?_⟩
    rw [copied, queue, copyIn]
    cases known : state.line.portals.copyIn with
    | idle =>
      -- A stray frame: the backend discards it and nothing moves here.
      have early : ∀ id, ¬ Ends id frame := by
        rintro id ⟨_, seen⟩
        rw [carried] at seen
        cases known.symm.trans seen
      have unqueued : expected frame = none := @expected_copy frame copy (by rw [carried])
      have same : (viewOf state skipping).push (expected frame).toList =
          ⟨skipping, .idle, state.described, queueOf state.line.portals⟩ := by
        rw [unqueued, View.push, viewOf, known]
        exact congrArg _ (List.append_nil _)
      rw [← same]
      exact follows_push (fun view => settled_push early) state.backend.outbox follows
    | started execute =>
      have busy : (viewOf state skipping).copyIn ≠ .idle := by
        rw [viewOf, known]
        simp
      obtain ⟨silent, settled⟩ := settled_of_started busy follows
      obtain ⟨id, rfl, next⟩ := @settled_copy _ _ (viewOf state skipping) execute copy frame
        known (by rw [carried]) (by rw [carried]; rfl) settled
      apply silent
      rw [viewOf, known] at next
      exact next

variable {Statement : Type} [DecidableEq Statement]
  {frontend : Frontend Statement} {rewrite : Context → Statement → Pass (Statement × Bool)}

theorem aligned_client (holds : Aligned state) {line : Frontline Positions Nat}
    {action : FrameAction}
    (ran : state.line.onFrame frontend rewrite state.requests.length message body =
      (line, .ok action)) :
    Aligned { state with
      line := line
      backend.inbox := state.backend.inbox ++ state.sent message body action
      requests := state.requests ++ [message]
      delivered := state.delivered ++ state.replies action } := by
  cases goes : action.forwarded body with
  | none =>
    -- Answered here, so the backend gets nothing and nothing is queued.
    have replied : ∃ messages, action = .reply messages := by
      cases action with
      | relay => cases goes
      | replace changed => cases goes
      | reply messages => exact ⟨messages, rfl⟩
    obtain ⟨messages, rfl⟩ := replied
    obtain ⟨portals, same⟩ := onFrame_reply ran
    have unsent : state.sent message body (.reply messages) = [] := rfl
    rw [unsent, List.append_nil]
    obtain ⟨skipping, follows⟩ := holds.follows
    refine ⟨⟨holds.numbered.increasing, ?_, ?_, ?_⟩, skipping, ?_⟩
    · simp only [same]
      exact holds.numbered.below
    · simp only [same]
      exact holds.numbered.copying
    · simp only [same]
      exact holds.numbered.seen
    · simp only [viewOf, queueOf, same]
      exact follows
  | some changed =>
    have moves := onFrame_moves ran goes
    have sent : state.sent message body action = [⟨message, changed, state.requests.length,
        state.line.portals.nextExecuteId, state.line.portals.copyIn⟩] := by
      rw [State.sent, goes]
      rfl
    rw [sent]
    obtain ⟨grows, counts⟩ := moves_number moves
    constructor
    · apply holds.numbered.push grows
      · intro id numbered
        unfold executeId at numbered
        split at numbered
        · rename_i asks
          cases numbered
          exact ⟨rfl, counts asks⟩
        · cases numbered
      · intro id seen
        exact copying_of_started holds seen
    · exact follows_client holds moves rfl

variable {rest : List Sent}

omit [DecidableEq Statement] in
theorem aligned_serve (holds : Aligned state) (paced : Paced state.backend)
    {backend : Backend Positions} (inbox : state.backend.inbox = frame :: rest)
    (serves : Serves state.backend frame rest backend) :
    Aligned { state with backend := backend } := by
  constructor
  · apply holds.numbered.shrink inbox
    · cases serves <;> first | exact .inl rfl | exact .inr inbox
    · intro id request copying
      cases serves with
      | passOver other asked already =>
        cases copying
        exact .inl already
      | executeRow serving => cases serving.symm.trans copying
      | queryDescribe _ serving => cases serving.symm.trans copying
      | queryRow _ serving => cases serving.symm.trans copying
      | queryDone serving => cases serving.symm.trans copying
      | functionResult serving => cases serving.symm.trans copying
      | _ => cases copying
  · obtain ⟨skipping, follows⟩ := holds.follows
    refine ⟨skipping, ?_⟩
    -- The answers are the same whatever is still unread in front of them.
    obtain ⟨answers, outbox⟩ : ∃ answers, backend.outbox = state.backend.outbox ++ answers := by
      cases serves <;> exact ⟨_, rfl⟩
    simp only [outbox, follows_append]
    apply follows_mono _ state.backend.outbox follows
    intro view settled
    obtain ⟨given, same, next⟩ := settled_serves paced inbox serves settled
    rw [List.append_cancel_left (outbox.symm.trans same)]
    exact next

omit [DecidableEq Statement] in
theorem aligned_copyStarts (holds : Aligned state) (inbox : state.backend.inbox = frame :: rest)
    (serving : state.backend.mode = .serving) (asks : frame.message = .execute) :
    Aligned { state with
      backend := state.backend.next rest (.copying frame.execute frame.mark)
        [⟨frame.mark, .copyIn⟩] } := by
  have numbered : executeId frame = some frame.execute := by rw [executeId, if_pos asks]
  constructor
  · apply holds.numbered.shrink inbox (.inl rfl)
    intro id request copying
    cases copying
    exact .inr ⟨numbered, rfl⟩
  · obtain ⟨skipping, follows⟩ := holds.follows
    refine ⟨skipping, ?_⟩
    simp only [Backend.next, follows_append]
    apply follows_mono _ state.backend.outbox follows
    intro view settled
    obtain ⟨reads, idle, queue, _⟩ := settled_serving serving inbox settled
    rw [expected_execute asks] at queue
    have front : view.queue = .execute frame.execute :: expectedAll rest := queue
    refine ⟨reads, idle, ⟨_, _, front⟩, rfl, expectedAll rest, front, ?_⟩
    rw [View.read, front, startedBy]
    unfold CopyTail
    split
    · rename_i nothing
      refine ⟨rfl, ?_⟩
      intro entry listed
      obtain ⟨other, member, queued⟩ := List.mem_filterMap.mp listed
      exact expected_passed (List.dropWhile_eq_nil_iff.mp nothing other member) queued
    · rename_i first later found
      refine ⟨?_, fun _ => .inr rfl⟩
      rintro ⟨_, seen⟩
      -- No frame behind the Execute can have seen its copy start already.
      have member : first ∈ state.backend.inbox := by
        rw [inbox]
        apply List.mem_cons_of_mem
        apply (List.dropWhile_sublist _).mem
        rw [found]
        exact List.mem_cons_self
      have known : frame.execute ∈ state.backend.inbox.filterMap executeId := by
        rw [inbox, List.filterMap_cons, numbered]
        exact List.mem_cons_self
      have before := (holds.numbered.seen first member frame.execute seen).2 _ known
      exact absurd before (Nat.lt_irrefl _)

omit [DecidableEq Statement] in
theorem take_backend [Inhabited Positions] (state : State Positions) (rederived : Option Positions)
    (answer : Answer Positions) : (state.take rederived answer).backend = state.backend := by
  cases answer with
  | row source => cases rederived <;> rfl
  | _ => rfl

omit [DecidableEq Statement] in
theorem take_view [Inhabited Positions] (state : State Positions) (rederived : Option Positions)
    (answer : Answer Positions) (skipping after : Bool) :
    viewOf (state.take rederived answer) after = (viewOf state skipping).read after answer := by
  cases answer with
  | description source positions =>
    obtain ⟨queue, copyIn⟩ := describeAnswered_queue state.line.portals positions
    simp only [viewOf, State.take, View.read, queue, copyIn]
  | noData =>
    obtain ⟨queue, copyIn⟩ := describeAnswered_queue state.line.portals (default : Positions)
    simp only [viewOf, State.take, View.read, Tracked.noData, queue, copyIn]
  | row source =>
    cases rederived with
    | none => rfl
    | some positions =>
      obtain ⟨queue, copyIn⟩ := rederived_queue state.line.portals positions
      simp only [viewOf, State.take, View.read, queue, copyIn]
  | complete =>
    obtain ⟨queue, copyIn⟩ := executeAnswered_queue state.line.portals
    simp only [viewOf, State.take, View.read, queue, copyIn]
  | error =>
    obtain ⟨queue, copyIn⟩ := executeAnswered_queue state.line.portals
    simp only [viewOf, State.take, View.read, queue, copyIn]
  | ready mark status =>
    obtain ⟨queue, copyIn⟩ := batchAnswered_queue state.line.portals
    simp only [viewOf, State.take, View.read, queue, copyIn]
  | copyIn =>
    obtain ⟨queue, copyIn⟩ := copyInStarted_queue state.line.portals
    simp only [viewOf, State.take, View.read, queue, copyIn]
  | other => rfl
  | notice => rfl

omit [DecidableEq Statement] in
theorem take_number [Inhabited Positions] (state : State Positions) (rederived : Option Positions)
    (answer : Answer Positions) :
    (state.take rederived answer).line.portals.nextExecuteId =
      state.line.portals.nextExecuteId := by
  have describes :
      ∀ positions : Positions, (state.line.portals.describeAnswered positions).nextExecuteId =
      state.line.portals.nextExecuteId := by
    intro positions
    unfold Tracked.describeAnswered
    split <;> rfl
  cases answer with
  | description source positions => exact describes positions
  | noData => exact describes default
  | row source =>
    cases rederived with
    | none => rfl
    | some positions =>
      change (state.line.portals.rederived positions).nextExecuteId = _
      unfold Tracked.rederived
      split <;> rfl
  | complete =>
    change state.line.portals.executeAnswered.nextExecuteId = _
    unfold Tracked.executeAnswered
    split <;> rfl
  | error =>
    change state.line.portals.executeAnswered.nextExecuteId = _
    unfold Tracked.executeAnswered
    split <;> rfl
  | _ => rfl

omit [DecidableEq Statement] in
theorem aligned_read [Inhabited Positions] (holds : Aligned state) {rederived : Option Positions}
    {response : Response Positions} {rest : List (Response Positions)}
    {delivered : List (Nat × Delivery Positions)}
    (outbox : state.backend.outbox = response :: rest) :
    Aligned { state.take rederived response.answer with
      backend.outbox := rest
      delivered := delivered } := by
  have backend := take_backend state rederived response.answer
  have number := take_number state rederived response.answer
  obtain ⟨skipping, follows⟩ := holds.follows
  rw [outbox] at follows
  obtain ⟨after, next⟩ := before_read (closed_follows (closed_settled state.backend) rest) follows
  refine ⟨⟨?_, ?_, ?_, ?_⟩, after, ?_⟩
  · simp only [backend]
    exact holds.numbered.increasing
  · simp only [backend, number]
    exact holds.numbered.below
  · simp only [backend, number]
    exact holds.numbered.copying
  · simp only [backend, number]
    exact holds.numbered.seen
  · rw [← take_view state rederived response.answer skipping after] at next
    simp only [backend]
    exact next

theorem aligned_step [Inhabited Positions] {after : State Positions} {event : Event Positions}
    (holds : Aligned state) (paced : event = .serve → Paced state.backend)
    (step : Step frontend rewrite state event after) :
    Aligned after := by
  cases step with
  | client ran => exact aligned_client holds ran
  | serve inbox serves => exact aligned_serve holds (paced rfl) inbox serves
  | copyStarts inbox serving asks => exact aligned_copyStarts holds inbox serving asks
  | notice =>
    refine ⟨⟨holds.numbered.increasing, holds.numbered.below, holds.numbered.copying,
      holds.numbered.seen⟩, ?_⟩
    obtain ⟨skipping, follows⟩ := holds.follows
    refine ⟨skipping, ?_⟩
    simp only [follows_append]
    exact follows
  | read outbox => exact aligned_read holds outbox

end Runs

end Dbsec.QueueRuns
