import Dbsec.Conversation

/-! The pending queue against what the backend still has to answer. A queue is compared by
its shape, which descriptions filled in later do not change. What the unread answers make
of a queue is stated backwards, from what must hold once they are all read. -/
namespace Dbsec.QueueAlignment
open Framing Params Catalog Rewrite Lexer Portal BindFrames Frames Conversation

inductive Shape where
  | describe
  | execute (id : Nat)
  | batch (mark : Nat)
  deriving DecidableEq

def Shape.isBatch : Shape → Bool
  | .batch _ => true
  | _ => false

def expected : Sent → Option Shape
  | ⟨.describe, _, _, _, _⟩ => some .describe
  | ⟨.execute, _, _, id, _⟩ => some (.execute id)
  | ⟨.query, _, mark, _, _⟩ | ⟨.sync, _, mark, _, _⟩ | ⟨.functionCall, _, mark, _, _⟩ =>
    some (.batch mark)
  | _ => none

section Queue

def answeredDescribe : List Shape → List Shape
  | .describe :: rest => rest
  | queue => queue

def answeredExecute : List Shape → List Shape
  | .execute _ :: rest => rest
  | queue => queue

def answeredBatch (queue : List Shape) : List Shape :=
  (queue.dropWhile fun shape => !shape.isBatch).drop 1

def startedBy : List Shape → Option Nat
  | .execute id :: _ => some id
  | _ => none

def droppedMarkers (id : Nat) : List Shape → List Shape
  | [] => []
  | .execute queued :: rest =>
    if queued = id then .execute queued :: rest.dropWhile Shape.isBatch
    else .execute queued :: droppedMarkers id rest
  | other :: rest => other :: droppedMarkers id rest

variable {Positions : Type}

def shape : Pending Positions Nat Nat → Shape
  | .describe _ => .describe
  | .execute id _ _ _ => .execute id
  | .batch mark => .batch mark

@[simp]
theorem isBatch_shape (entry : Pending Positions Nat Nat) :
    (shape entry).isBatch = entry.isBatch := by
  cases entry <;> rfl

@[simp]
theorem shape_backfill (id : Nat) (positions : Positions) (entry : Pending Positions Nat Nat) :
    shape (entry.backfill id positions) = shape entry := by
  cases entry with
  | describe _ => rfl
  | batch _ => rfl
  | execute _ statement slot _ => cases statement <;> cases slot <;> rfl

def queueOf (tracked : Tracked Positions Nat Nat) : List Shape := tracked.pending.map shape

variable (tracked : Tracked Positions Nat Nat)

theorem describeAnswered_queue (positions : Positions) :
    queueOf (tracked.describeAnswered positions) = answeredDescribe (queueOf tracked) ∧
      (tracked.describeAnswered positions).copyIn = tracked.copyIn := by
  obtain ⟨statements, portals, pending, nextStatement, nextExecute, copyIn⟩ := tracked
  cases pending with
  | nil => exact ⟨rfl, rfl⟩
  | cons entry rest =>
    cases entry with
    | describe asked =>
      cases asked with
      | none => exact ⟨rfl, rfl⟩
      | some asked =>
        refine ⟨?_, rfl⟩
        change (rest.map (Pending.backfill asked.id positions)).map shape = rest.map shape
        rw [List.map_map]
        exact List.map_congr_left fun entry _ => shape_backfill asked.id positions entry
    | execute _ _ _ _ => exact ⟨rfl, rfl⟩
    | batch _ => exact ⟨rfl, rfl⟩

theorem rederived_queue (positions : Positions) :
    queueOf (tracked.rederived positions) = queueOf tracked ∧
      (tracked.rederived positions).copyIn = tracked.copyIn := by
  obtain ⟨statements, portals, pending, nextStatement, nextExecute, copyIn⟩ := tracked
  cases pending with
  | nil => exact ⟨rfl, rfl⟩
  | cons entry rest =>
    cases entry with
    | describe _ => exact ⟨rfl, rfl⟩
    | execute _ _ slot _ => cases slot <;> exact ⟨rfl, rfl⟩
    | batch _ => exact ⟨rfl, rfl⟩

theorem executeAnswered_queue :
    queueOf tracked.executeAnswered = answeredExecute (queueOf tracked) ∧
      tracked.executeAnswered.copyIn = tracked.copyIn := by
  obtain ⟨statements, portals, pending, nextStatement, nextExecute, copyIn⟩ := tracked
  cases pending with
  | nil => exact ⟨rfl, rfl⟩
  | cons entry rest => cases entry <;> exact ⟨rfl, rfl⟩

theorem dropWhile_shape (entries : List (Pending Positions Nat Nat)) (keep : Shape → Bool)
    (test : Pending Positions Nat Nat → Bool) (same : ∀ entry, keep (shape entry) = test entry) :
    (entries.dropWhile test).map shape = (entries.map shape).dropWhile keep := by
  induction entries with
  | nil => rfl
  | cons entry rest ih =>
    rw [List.map_cons, List.dropWhile_cons, List.dropWhile_cons, same]
    cases test entry with
    | false => rfl
    | true => simpa using ih

theorem batchAnswered_queue :
    queueOf tracked.batchAnswered = answeredBatch (queueOf tracked) ∧
      tracked.batchAnswered.copyIn = .idle := by
  refine ⟨?_, rfl⟩
  simp only [queueOf, Tracked.batchAnswered, answeredBatch, List.map_drop]
  rw [dropWhile_shape _ (fun shape => !shape.isBatch)]
  intro entry
  rw [isBatch_shape]

theorem copyInStarted_queue :
    queueOf tracked.copyInStarted = queueOf tracked ∧
      tracked.copyInStarted.copyIn = .started (startedBy (queueOf tracked)) := by
  refine ⟨rfl, ?_⟩
  simp only [Tracked.copyInStarted, queueOf]
  cases tracked.pending with
  | nil => rfl
  | cons entry rest => cases entry <;> rfl

theorem dropMarkers_queue (id : Nat) (entries : List (Pending Positions Nat Nat)) :
    (dropMarkers id entries).map shape = droppedMarkers id (entries.map shape) := by
  induction entries with
  | nil => rfl
  | cons entry rest ih =>
    cases entry with
    | describe _ => simp [dropMarkers, droppedMarkers, shape, ih]
    | batch _ => simp [dropMarkers, droppedMarkers, shape, ih]
    | execute queued statement positions formats =>
      simp only [dropMarkers, droppedMarkers, shape, List.map_cons]
      split
      · rw [List.map_cons, dropWhile_shape _ Shape.isBatch _ isBatch_shape]
        rfl
      · rw [List.map_cons, ih]
        rfl

end Queue

/-- Where the read path stands: whether the answers so far leave the backend skipping, and
what the proxy has made of them. -/
structure View where
  skipping : Bool
  copyIn : CopyIn Nat
  described : Option (Option (Nat × Nat))
  queue : List Shape

section Views

variable {Positions : Type}

def View.read (view : View) (skipping : Bool) : Answer Positions → View
  | .description source _ =>
    ⟨skipping, view.copyIn, some source, answeredDescribe view.queue⟩
  | .noData => ⟨skipping, view.copyIn, none, answeredDescribe view.queue⟩
  | .complete | .error => ⟨skipping, view.copyIn, none, answeredExecute view.queue⟩
  | .ready _ _ => ⟨skipping, .idle, none, answeredBatch view.queue⟩
  | .copyIn => ⟨skipping, .started (startedBy view.queue), view.described, view.queue⟩
  | .row _ | .other | .notice => { view with skipping := skipping }

def View.atBatch (view : View) (mark : Nat) : Prop := ∃ rest, view.queue = .batch mark :: rest

def View.atExecute (view : View) (id : Nat) : Prop := ∃ rest, view.queue = .execute id :: rest

/-- What must hold before an answer is read for something to hold after it. -/
def Before (after : View → Prop) (view : View) : Answer Positions → Prop
  | .other | .notice => after view
  | .ready mark status => view.copyIn = .idle ∧
      (∃ skipped rest, view.queue = skipped ++ .batch mark :: rest ∧
        (∀ entry ∈ skipped, entry.isBatch = false) ∧ (view.skipping = false → skipped = [])) ∧
      after (view.read false (.ready mark status : Answer Positions))
  | .error => view.skipping = false ∧ view.copyIn = .idle ∧
      (after { view with skipping := true, described := none } ∨
        (∃ mark, view.atBatch mark) ∧ after { view with described := none })
  | .description none positions => view.skipping = false ∧ view.copyIn = .idle ∧
      (∃ rest, view.queue = .describe :: rest) ∧
      after (view.read false (.description none positions))
  | .description (some source) positions => view.skipping = false ∧ view.copyIn = .idle ∧
      view.atBatch source.1 ∧ after (view.read false (.description (some source) positions))
  | .noData => view.skipping = false ∧ view.copyIn = .idle ∧
      (∃ rest, view.queue = .describe :: rest) ∧
        after (view.read false (.noData : Answer Positions))
  | .row (.execute id) => view.skipping = false ∧ view.copyIn = .idle ∧ view.atExecute id ∧
    after view
  | .row (.query mark result) => view.skipping = false ∧ view.copyIn = .idle ∧ view.atBatch mark ∧
      view.described = some (some (mark, result)) ∧ after view
  | .complete => view.skipping = false ∧ view.copyIn = .idle ∧
      ((∃ id, view.atExecute id) ∨ ∃ mark, view.atBatch mark) ∧
      after (view.read false (.complete : Answer Positions))
  | .copyIn => view.skipping = false ∧ view.copyIn = .idle ∧ (∃ id, view.atExecute id) ∧
      after (view.read false (.copyIn : Answer Positions))

def Follows (after : View → Prop) : List (Response Positions) → View → Prop
  | [], view => after view
  | response :: rest, view => Before (Follows after rest) view response.answer

def View.push (view : View) (entries : List Shape) : View :=
  { view with queue := view.queue ++ entries }

variable {view : View}

theorem View.atBatch.push {mark : Nat} (holds : view.atBatch mark) (entries : List Shape) :
    (view.push entries).atBatch mark := by
  obtain ⟨rest, same⟩ := holds
  exact ⟨rest ++ entries, by rw [View.push, same, List.cons_append]⟩

theorem View.atExecute.push {id : Nat} (holds : view.atExecute id) (entries : List Shape) :
    (view.push entries).atExecute id := by
  obtain ⟨rest, same⟩ := holds
  exact ⟨rest ++ entries, by rw [View.push, same, List.cons_append]⟩

theorem answeredBatch_first {skipped rest : List Shape} {mark : Nat}
    (none : ∀ entry ∈ skipped, entry.isBatch = false) :
    answeredBatch (skipped ++ .batch mark :: rest) = rest := by
  have passed : (skipped ++ .batch mark :: rest).dropWhile (fun shape => !shape.isBatch) =
      .batch mark :: rest := by
    rw [List.dropWhile_append_of_pos]
    · rfl
    · intro entry listed
      simp [none entry listed]
  rw [answeredBatch, passed]
  rfl

theorem answeredExecute_batch {mark : Nat} (stands : view.atBatch mark) :
    answeredExecute view.queue = view.queue := by
  obtain ⟨rest, same⟩ := stands
  rw [same]
  rfl

variable {after : View → Prop}

variable {later : View → Prop} {entries : List Shape} {answer : Answer Positions}

theorem before_push (pushed : ∀ view, after view → later (view.push entries))
    (holds : Before after view answer) :
    Before later (view.push entries) answer := by
  -- What is pushed goes behind the entry that an answer looks at.
  cases answer with
  | other => exact pushed view holds
  | notice => exact pushed view holds
  | ready mark status =>
    obtain ⟨idle, ⟨skipped, rest, queue, none, first⟩, next⟩ := holds
    have longer : (view.push entries).queue = skipped ++ .batch mark :: (rest ++ entries) := by
      rw [View.push, queue, List.append_assoc, List.cons_append]
    refine ⟨idle, ⟨skipped, rest ++ entries, longer, none, first⟩, ?_⟩
    have moved := pushed _ next
    simp only [View.read, View.push, queue, answeredBatch_first none] at moved
    simp only [View.read, longer, answeredBatch_first none]
    exact moved
  | error =>
    obtain ⟨serving, idle, skips | ⟨⟨mark, stands⟩, stays⟩⟩ := holds
    · exact ⟨serving, idle, .inl (pushed _ skips)⟩
    · exact ⟨serving, idle, .inr ⟨⟨mark, stands.push entries⟩, pushed _ stays⟩⟩
  | description source positions =>
    cases source with
    | none =>
      obtain ⟨serving, idle, ⟨rest, queue⟩, next⟩ := holds
      refine ⟨serving, idle, ⟨rest ++ entries, by rw [View.push, queue, List.cons_append]⟩, ?_⟩
      have moved := pushed _ next
      simp only [View.read, View.push, queue, List.cons_append, answeredDescribe] at moved ⊢
      exact moved
    | some source =>
      obtain ⟨serving, idle, stands, next⟩ := holds
      refine ⟨serving, idle, stands.push entries, ?_⟩
      have moved := pushed _ next
      obtain ⟨rest, queue⟩ := stands
      simp only [View.read, View.push, queue, List.cons_append, answeredDescribe] at moved ⊢
      exact moved
  | noData =>
    obtain ⟨serving, idle, ⟨rest, queue⟩, next⟩ := holds
    refine ⟨serving, idle, ⟨rest ++ entries, by rw [View.push, queue, List.cons_append]⟩, ?_⟩
    have moved := pushed _ next
    simp only [View.read, View.push, queue, List.cons_append, answeredDescribe] at moved ⊢
    exact moved
  | row source =>
    cases source with
    | execute id =>
      obtain ⟨serving, idle, stands, next⟩ := holds
      exact ⟨serving, idle, stands.push entries, pushed _ next⟩
    | query mark result =>
      obtain ⟨serving, idle, stands, described, next⟩ := holds
      exact ⟨serving, idle, stands.push entries, described, pushed _ next⟩
  | complete =>
    obtain ⟨serving, idle, front, next⟩ := holds
    have moved := pushed _ next
    rcases front with ⟨id, stands⟩ | ⟨mark, stands⟩
    · refine ⟨serving, idle, .inl ⟨id, stands.push entries⟩, ?_⟩
      obtain ⟨rest, queue⟩ := stands
      simp only [View.read, View.push, queue, List.cons_append, answeredExecute] at moved ⊢
      exact moved
    · refine ⟨serving, idle, .inr ⟨mark, stands.push entries⟩, ?_⟩
      obtain ⟨rest, queue⟩ := stands
      simp only [View.read, View.push, queue, List.cons_append, answeredExecute] at moved ⊢
      exact moved
  | copyIn =>
    obtain ⟨serving, idle, ⟨id, stands⟩, next⟩ := holds
    refine ⟨serving, idle, ⟨id, stands.push entries⟩, ?_⟩
    have moved := pushed _ next
    obtain ⟨rest, queue⟩ := stands
    simp only [View.read, View.push, queue, List.cons_append, startedBy] at moved ⊢
    exact moved

theorem follows_push (pushed : ∀ view, after view → later (view.push entries))
    (responses : List (Response Positions)) (holds : Follows after responses view) :
    Follows later responses (view.push entries) := by
  induction responses generalizing view with
  | nil => exact pushed view holds
  | cons response rest ih => exact before_push (fun _ => ih) holds

theorem follows_mono (weaker : ∀ view, after view → later view)
    (responses : List (Response Positions)) (holds : Follows after responses view) :
    Follows later responses view := by
  have unchanged : ∀ view : View, view.push [] = view := by
    intro view
    rw [View.push, List.append_nil]
  rw [← unchanged view]
  apply follows_push _ responses holds
  intro other now
  rw [unchanged]
  exact weaker other now

theorem follows_append (after : View → Prop) (first later : List (Response Positions)) :
    Follows after (first ++ later) = Follows (Follows after later) first := by
  induction first with
  | nil => rfl
  | cons response rest ih =>
    funext view
    rw [List.cons_append, Follows, Follows, ih]

/-- Skipping, the error that was answered may have settled the front Execute already. -/
def Closed (after : View → Prop) : Prop :=
  ∀ view, view.skipping = true → after view →
    after { view with queue := answeredExecute view.queue }

theorem skipped_pop (skipped later : List Shape) (none : ∀ entry ∈ skipped, entry.isBatch = false)
    (front : ∀ id rest, later ≠ .execute id :: rest) :
    ∃ left, answeredExecute (skipped ++ later) = left ++ later ∧
      ∀ entry ∈ left, entry.isBatch = false := by
  cases skipped with
  | nil =>
    refine ⟨[], ?_, nofun⟩
    cases later with
    | nil => rfl
    | cons entry rest =>
      cases entry with
      | execute id => exact absurd rfl (front id rest)
      | describe => rfl
      | batch _ => rfl
  | cons entry rest =>
    cases entry with
    | execute id =>
      exact ⟨rest, rfl, fun entry listed => none entry (List.mem_cons_of_mem _ listed)⟩
    | describe => exact ⟨.describe :: rest, rfl, none⟩
    | batch mark => exact absurd (none _ List.mem_cons_self) nofun

theorem closed_follows (closed : Closed after) (responses : List (Response Positions)) :
    Closed (Follows after responses) := by
  induction responses with
  | nil => exact closed
  | cons response rest ih =>
    intro view skipping holds
    obtain ⟨request, answer⟩ := response
    cases answer with
    | other => exact ih view skipping holds
    | notice => exact ih view skipping holds
    | ready mark status =>
      obtain ⟨idle, ⟨skipped, left, queue, none, _⟩, next⟩ := holds
      obtain ⟨fewer, popped, still⟩ := skipped_pop skipped (.batch mark :: left) none nofun
      rw [← queue] at popped
      refine ⟨idle, ⟨fewer, left, popped, still, ?_⟩, ?_⟩
      · intro serving
        exact absurd (skipping.symm.trans serving) nofun
      · simp only [View.read, queue, answeredBatch_first none] at next
        simp only [View.read, popped, answeredBatch_first still]
        exact next
    | description source positions =>
      cases source <;> exact absurd (skipping.symm.trans holds.1) nofun
    | row source => cases source <;> exact absurd (skipping.symm.trans holds.1) nofun
    | _ => exact absurd (skipping.symm.trans holds.1) nofun

theorem before_read (closed : Closed after) (holds : Before after view answer) :
    ∃ skipping, after (view.read skipping answer) := by
  cases answer with
  | other => exact ⟨view.skipping, holds⟩
  | notice => exact ⟨view.skipping, holds⟩
  | ready mark status => exact ⟨false, holds.2.2⟩
  | error =>
    obtain ⟨serving, idle, skips | ⟨⟨mark, stands⟩, stays⟩⟩ := holds
    · exact ⟨true, closed _ rfl skips⟩
    · refine ⟨false, ?_⟩
      rw [View.read, answeredExecute_batch stands, ← serving]
      exact stays
  | description source positions =>
    cases source with
    | none => exact ⟨false, holds.2.2.2⟩
    | some source => exact ⟨false, holds.2.2.2⟩
  | noData => exact ⟨false, holds.2.2.2⟩
  | row source =>
    cases source with
    | execute id => exact ⟨view.skipping, holds.2.2.2⟩
    | query mark result => exact ⟨view.skipping, holds.2.2.2.2⟩
  | complete => exact ⟨false, holds.2.2.2⟩
  | copyIn => exact ⟨false, holds.2.2.2⟩

end Views

section Settled

variable {Positions : Type}

def expectedAll (inbox : List Sent) : List Shape := inbox.filterMap expected

/-- The end of a copy, sent once the proxy had seen the copy start. -/
def Ends (id : Nat) (frame : Sent) : Prop :=
  (frame.message = .copy .done ∨ frame.message = .copy .fail) ∧ frame.seen = .started (some id)

/-- What stands behind the Execute of the copy in progress. Until the copy's end is on its
way these are markers of Syncs the backend passes over. -/
def CopyTail (id : Nat) (copyIn : CopyIn Nat) (rest : List Shape) (inbox : List Sent) : Prop :=
  match inbox.dropWhile fun frame => passedOver frame.message with
  | [] => copyIn = .started (some id) ∧ ∀ entry ∈ rest, entry.isBatch = true
  | frame :: later =>
    (Ends id frame → copyIn = .idle ∧ rest = expectedAll later) ∧
      (¬ Ends id frame → copyIn = .idle ∨ copyIn = .started (some id))

def Settled (backend : Backend Positions) (view : View) : Prop :=
  match backend.mode with
  | .serving => view.skipping = false ∧ view.copyIn = .idle ∧
      view.queue = expectedAll backend.inbox ∧
      ∀ result, backend.result = some result → ∃ frame rest, backend.inbox = frame :: rest ∧
        frame.message = .query ∧ view.described = some (some (frame.mark, result))
  | .skipping => view.skipping = true ∧ view.copyIn = .idle ∧
      ∃ skipped, view.queue = skipped ++
          expectedAll (backend.inbox.dropWhile fun frame => !frame.message.closes) ∧
        ∀ entry ∈ skipped, entry.isBatch = false
  | .copying id _ => view.skipping = false ∧
      ∃ rest, view.queue = .execute id :: rest ∧ CopyTail id view.copyIn rest backend.inbox

theorem expected_closes {frame : Sent} (closes : frame.message.closes = true) :
    expected frame = some (.batch frame.mark) := by
  obtain ⟨message, body, mark, id, seen⟩ := frame
  cases message <;> first | rfl | cases closes

variable {frame : Sent} {entry : Shape}

theorem expected_open (goesOn : frame.message.closes = false)
    (queued : expected frame = some entry) :
    entry.isBatch = false := by
  obtain ⟨message, body, mark, id, seen⟩ := frame
  cases message <;> cases queued <;> first | rfl | cases goesOn

theorem expected_passed (passed : passedOver frame.message = true)
    (queued : expected frame = some entry) : entry.isBatch = true := by
  obtain ⟨message, body, mark, id, seen⟩ := frame
  cases message <;> cases queued <;> first | rfl | cases passed

theorem expectedAll_append (first later : List Sent) :
    expectedAll (first ++ later) = expectedAll first ++ expectedAll later :=
  List.filterMap_append

theorem expectedAll_single (frame : Sent) : expectedAll [frame] = (expected frame).toList := by
  rw [expectedAll, List.filterMap_cons]
  cases expected frame <;> rfl

theorem expectedAll_split (inbox : List Sent) :
    ∃ skipped, expectedAll inbox = skipped ++
        expectedAll (inbox.dropWhile fun frame => !frame.message.closes) ∧
      ∀ entry ∈ skipped, entry.isBatch = false := by
  refine ⟨expectedAll (inbox.takeWhile fun frame => !frame.message.closes), ?_, ?_⟩
  · rw [← expectedAll_append, List.takeWhile_append_dropWhile]
  · intro entry listed
    obtain ⟨frame, taken, queued⟩ := List.mem_filterMap.mp listed
    have goesOn := List.mem_takeWhile_imp taken
    rw [Bool.not_eq_true'] at goesOn
    exact expected_open goesOn queued

theorem closed_settled (backend : Backend Positions) : Closed (Settled backend) := by
  intro view skipping holds
  unfold Settled at holds ⊢
  split at holds
  · exact absurd (skipping.symm.trans holds.1) nofun
  · obtain ⟨_, idle, skipped, queue, none⟩ := holds
    have front :
      ∀ id rest, expectedAll (backend.inbox.dropWhile fun frame => !frame.message.closes) ≠
        .execute id :: rest := by
      intro id rest same
      cases left : backend.inbox.dropWhile fun frame => !frame.message.closes with
      | nil =>
        rw [left] at same
        cases same
      | cons frame later =>
        have closes := List.head_dropWhile_not (fun frame : Sent => !frame.message.closes)
          (l := backend.inbox) (by rw [left]; exact List.cons_ne_nil _ _)
        simp only [left, List.head_cons, Bool.not_eq_false'] at closes
        rw [left, expectedAll, List.filterMap_cons, expected_closes closes] at same
        cases same
    obtain ⟨fewer, popped, still⟩ := skipped_pop skipped _ none front
    refine ⟨skipping, idle, fewer, ?_, still⟩
    rw [← popped, ← queue]
  · exact absurd (skipping.symm.trans holds.1) nofun

end Settled

end Dbsec.QueueAlignment
