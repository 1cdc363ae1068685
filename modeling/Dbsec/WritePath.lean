import Dbsec.Reachable
import Dbsec.Refusals

/-! The write path over a whole session: the frames the client sends one after another
through `on_frame` of proxy/src/encrypt/frame.rs, and between any two of them whatever the
read path does to the tracked portals and the transaction status. What becomes of every
frame is kept in order. -/
namespace Dbsec.WritePath
open Framing Catalog Rewrite Settings Lexer Batch SettingRuns Messages Portal BindFrames Frames
  Refusals

/-- A client frame and what was done with it: forwarded as it came, forwarded changed, or
kept back with the proxy's own messages for the client, none for a dropped frame. -/
structure Fate where
  msgType : UInt8
  body : Bytes
  action : FrameAction

def Fate.message (fate : Fate) : ClientMessage := .ofByte fate.msgType

structure State (Positions Mark : Type) where
  line : Frontline Positions Mark
  log : List Fate

inductive Event (Mark : Type) where
  | frame (mark : Mark) (msgType : UInt8) (body : Bytes)
  | backend

variable {Positions Mark Statement : Type} [DecidableEq Statement]
  (frontend : Frontend Statement) (rewrite : Context → Statement → Pass (Statement × Bool))

/-- One frame of a session that goes on, or one change made by the read path. -/
inductive Step : State Positions Mark → Event Mark → State Positions Mark → Prop where
  | frame {state : State Positions Mark} {after : Frontline Positions Mark}
      {action : FrameAction} (mark : Mark) (msgType : UInt8) (body : Bytes) :
      state.line.onFrame frontend rewrite mark (.ofByte msgType) body = (after, .ok action) →
      Step state (.frame mark msgType body) ⟨after, state.log ++ [⟨msgType, body, action⟩]⟩
  | backend {state : State Positions Mark} (portals : Tracked Positions Mark Nat) (status : UInt8) :
      Step state .backend
        { state with line := { state.line with portals := portals, txStatus := status } }

/-- What may become of a frame, and whether an ErrorResponse then still waits for its
ReadyForQuery. While it does, everything is dropped up to the Sync that is answered with
it; otherwise a frame is forwarded or refused, and only a text or a Bind is refused. -/
def settle : Bool → ClientMessage → FrameAction → Option Bool
  | true, .sync, action =>
    match action with
    | .reply [.readyForQuery _] => some false
    | _ => none
  | true, .terminate, action => if action = .relay then some false else none
  | true, _, action => if action = .reply [] then some true else none
  | false, message, action =>
    match action with
    | .relay => some false
    | .replace _ =>
      if message = .query ∨ message = .parse ∨ message = .bind then some false else none
    | .reply [.errorResponse _, .readyForQuery _] => if message = .query then some false else none
    | .reply [.errorResponse _] => if message = .parse ∨ message = .bind then some true else none
    | .reply _ => none

/-- Whether a ReadyForQuery is owed behind a log, which has none that is out of order. -/
def owedAfter (log : List Fate) : Option Bool :=
  log.foldlM (fun owed fate => settle owed fate.message fate.action) false

theorem settle_dropped_iff {owed after : Bool} {message : ClientMessage} {action : FrameAction}
    (settled : settle owed message action = some after) :
    action = .reply [] ↔ owed = true ∧ message ≠ .sync ∧ message ≠ .terminate := by
  cases owed with
  | true => cases message <;> grind [settle]
  | false =>
    refine iff_of_false ?_ (by simp)
    rintro rfl
    cases settled

variable {frontend rewrite} {line after : Frontline Positions Mark} {mark : Mark}
  {message : ClientMessage} {body : Bytes} {action : FrameAction}

omit [DecidableEq Statement] in
theorem bind_settles (ran : line.bind body = (after, .ok action)) :
    settle false .bind action = some after.awaitingSync := by
  unfold Frontline.bind at ran
  split at ran
  · cases ran
  · rename_i portals discards taken bound
    cases ran
    obtain ⟨_, _, bound⟩ := Outcome.bind_ok_iff.mp bound
    obtain ⟨_, _, bound⟩ := Outcome.bind_ok_iff.mp bound
    obtain ⟨_, _, bound⟩ := Outcome.bind_ok_iff.mp bound
    dsimp only at bound
    split at bound
    · cases bound
      rfl
    · split at bound
      · cases bound
        rfl
      · split at bound
        · cases bound
          rfl
        · cases bound
        · obtain ⟨_, _, done⟩ := Outcome.bind_ok_iff.mp bound
          cases done
          rfl

omit [DecidableEq Statement] in
theorem forwards_settle (text : message = .query ∨ message = .parse)
    (goes : ∀ messages, action ≠ .reply messages) : settle false message action = some false := by
  cases action with
  | relay => cases message <;> rfl
  | replace changed => rcases text with rfl | rfl <;> rfl
  | reply messages => exact absurd rfl (goes messages)

theorem onFrame_settles
    (ran : line.onFrame frontend rewrite mark message body = (after, .ok action)) :
    settle line.awaitingSync message action = some after.awaitingSync := by
  unfold Frontline.onFrame at ran
  split at ran
  · rename_i dropping
    rw [dropping]
    cases message with
    | sync =>
      cases ran
      rfl
    | terminate =>
      cases ran
      rfl
    | _ =>
      cases ran
      exact congrArg some dropping.symm
  · rename_i kept
    have served : line.awaitingSync = false := Bool.eq_false_iff.mpr kept
    rw [served]
    split at ran
    · rcases query_ok ran with ⟨reason, rfl, _, same⟩ | ⟨goes, same, _⟩
      · rw [same, served]
        rfl
      · rw [same, served]
        exact forwards_settle (.inl rfl) goes
    · rcases parse_ok ran with ⟨reason, rfl, _, dropping⟩ | ⟨goes, same, _⟩
      · rw [dropping]
        rfl
      · rw [same, served]
        exact forwards_settle (.inr rfl) goes
    · exact bind_settles ran
    · obtain ⟨rfl, _, _, rfl⟩ := tracking_ok ran
      cases message <;> exact congrArg some served.symm

theorem owedAfter_settled (start : Frontline Positions Mark) (fresh : start.awaitingSync = false)
    {state : State Positions Mark}
    (reached : Reachable (Step frontend rewrite) unrestricted ⟨start, []⟩ state) :
    owedAfter state.log = some state.line.awaitingSync := by
  induction reached with
  | start => exact congrArg some fresh.symm
  | step _ _ taken ih =>
    cases taken with
    | frame mark msgType body ran =>
      rw [owedAfter, List.foldlM_append, ← owedAfter, ih]
      simpa [Fate.message] using onFrame_settles ran
    | backend portals status => exact ih

/-- Whatever the client sends and whenever the backend answers, every frame's fate is in
order: it is forwarded or refused while no ReadyForQuery is owed, a refused Parse or Bind
owes one until the Sync that is answered with it, and a frame is dropped exactly while one
is owed. -/
theorem refusals_closed_in_order (start : Frontline Positions Mark)
    (fresh : start.awaitingSync = false) {state : State Positions Mark}
    (reached : Reachable (Step frontend rewrite) unrestricted ⟨start, []⟩ state) :
    owedAfter state.log = some state.line.awaitingSync ∧
      ∀ earlier fate later, state.log = earlier ++ fate :: later →
        (fate.action = .reply [] ↔
          owedAfter earlier = some true ∧ fate.message ≠ .sync ∧ fate.message ≠ .terminate) := by
  have whole := owedAfter_settled start fresh reached
  refine ⟨whole, ?_⟩
  intro earlier fate later parts
  rw [parts, owedAfter, List.foldlM_append, ← owedAfter] at whole
  obtain ⟨owed, before, rest⟩ := Option.bind_eq_some_iff.mp whole
  rw [List.foldlM_cons] at rest
  obtain ⟨_, settled, _⟩ := Option.bind_eq_some_iff.mp rest
  rw [before, settle_dropped_iff settled, Option.some.injEq]

omit [DecidableEq Statement] in
theorem tracking_rewriter (portals : Except FrameError (Tracked Positions Mark Nat)) :
    (line.tracking action portals).1.rewriter = line.rewriter := by
  cases portals <;> rfl

/-- Only a text moves the rewriter, whatever becomes of its frame. -/
theorem onFrame_rewriter : (line.onFrame frontend rewrite mark message body).1.rewriter =
      line.rewriter ∨
    ∃ query, (line.onFrame frontend rewrite mark message body).1.rewriter =
      (rewriteSql frontend rewrite line.rewriter query).1 := by
  unfold Frontline.onFrame
  split
  · cases message <;> exact .inl rfl
  · split
    · unfold Frontline.query
      split
      · exact .inl rfl
      · rename_i query _ _
        refine .inr ⟨query, ?_⟩
        dsimp only
        split <;> first | rfl | exact tracking_rewriter _
    · unfold Frontline.parse
      split
      · exact .inl rfl
      · rename_i sent _
        refine .inr ⟨sent.query, ?_⟩
        dsimp only
        split <;> first | rfl | exact tracking_rewriter _
    · unfold Frontline.bind
      split <;> exact .inl rfl
    · exact .inl (tracking_rewriter _)

/-- A setting a session has once been seen to move is never trusted in it again, whatever
frames follow, accepted or refused, and whatever the backend answers. -/
theorem moved_setting_stays_noted {start state : State Positions Mark}
    (reached : Reachable (Step frontend rewrite) unrestricted start state)
    (setting : SettingMoved) (noted : Noted start.line.rewriter.context setting) :
    Noted state.line.rewriter.context setting := by
  induction reached with
  | start => exact noted
  | @step before _ _ _ _ taken ih =>
    cases taken with
    | frame mark msgType body ran =>
      have moved := @onFrame_rewriter _ _ _ _ frontend rewrite before.line mark
        (.ofByte msgType) body
      rw [ran] at moved
      rcases moved with same | ⟨query, same⟩
      · rw [same]
        exact ih
      · rw [same]
        exact (rewriteSql_noted_iff before.line.rewriter query setting).mpr (.inl ih)
    | backend portals status => exact ih

section Examples

/-- A Parse of `SET search_path TO tenant7`, which the proxy refuses. -/
def parseTenantBody : Bytes :=
  encodeParse ⟨[], Text.encode "SET search_path TO tenant7".toList, []⟩

/-- The refused Parse is answered, the Bind behind it dropped, and the Sync answered with
the ReadyForQuery; the Sync behind that one is forwarded. -/
theorem refused_parse_closed :
    ∃ (state : State Unit Unit) (reason : String),
      state.log = [⟨0x50, parseTenantBody, .reply [.errorResponse reason]⟩,
        ⟨0x42, bindNullKey, .reply []⟩, ⟨0x53, [], .reply [.readyForQuery 0x49]⟩,
        ⟨0x53, [], .relay⟩] ∧
      owedAfter (state.log.take 2) = some true ∧ owedAfter state.log = some false := by
  have run : Reachable (Step setTenantFrontend untouched) unrestricted
      ⟨freshLine (Statements.plainContext [] .reject), []⟩ _ :=
    (((Reachable.start.step trivial (.frame () 0x50 parseTenantBody rfl)).step trivial
      (.frame () 0x42 bindNullKey rfl)).step trivial (.frame () 0x53 [] rfl)).step trivial
        (.frame () 0x53 [] rfl)
  exact ⟨_, _, rfl, rfl, (refusals_closed_in_order _ rfl run).1⟩

theorem refused_set_stays_noted :
    Noted ((freshLine (noteSetting (Statements.plainContext [] .reject) .searchPath)).onFrame
      setTenantFrontend untouched () .query setTenantBody).1.rewriter.context .searchPath := by
  have taken : Reachable (Step setTenantFrontend untouched) unrestricted
      ⟨freshLine (noteSetting (Statements.plainContext [] .reject) .searchPath), []⟩ _ :=
    Reachable.start.step trivial (.frame () 0x51 setTenantBody rfl)
  exact moved_setting_stays_noted taken .searchPath rfl

end Examples

end Dbsec.WritePath
