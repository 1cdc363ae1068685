import Dbsec.BindFrames
import Dbsec.SettingRuns

/-! One client frame through `QueryRewriter::on_frame` of proxy/src/encrypt/frame.rs, with
everything the write path keeps between frames: the rewriter's settings, the tracked
portals, whether the rest of a refused batch is being dropped, and the transaction status
the read path last saw. A frame that is refused is answered here and goes no further. -/
namespace Dbsec.Frames
open Framing Params Unprotected Catalog Rewrite Settings Lexer Batch SettingRuns ReadPath Messages
  Portal BindFrames

inductive ClientMessage where
  | query
  | parse
  | bind
  | describe
  | execute
  | sync
  | functionCall
  | copy (frame : CopyFrame)
  | close
  | terminate
  | other
  deriving DecidableEq

def ClientMessage.ofByte (byte : UInt8) : ClientMessage :=
  if byte = 0x51 then .query
  else if byte = 0x50 then .parse
  else if byte = 0x42 then .bind
  else if byte = 0x44 then .describe
  else if byte = 0x45 then .execute
  else if byte = 0x53 then .sync
  else if byte = 0x46 then .functionCall
  else if byte = 0x64 then .copy .data
  else if byte = 0x63 then .copy .done
  else if byte = 0x66 then .copy .fail
  else if byte = 0x43 then .close
  else if byte = 0x58 then .terminate
  else .other

/-- What the write path of one session keeps between frames. -/
structure Frontline (Positions Mark : Type) where
  rewriter : Rewriter
  portals : Tracked Positions Mark Nat
  awaitingSync : Bool
  /-- The status byte of the last ReadyForQuery the read path relayed. -/
  txStatus : UInt8

section Frame

variable {Positions Mark : Type}

/-- The status a refusal is answered with: an open block is reported as aborted. -/
def refusalStatus (txStatus : UInt8) : UInt8 :=
  if txStatus = 0x54 || txStatus = 0x45 then 0x45 else 0x49

def Frontline.readyForQuery (line : Frontline Positions Mark) : Reply :=
  .readyForQuery (refusalStatus line.txStatus)

def Frontline.discardUntilSync (line : Frontline Positions Mark) :
    ClientMessage → Frontline Positions Mark × FrameAction
  | .sync => ({ line with awaitingSync := false }, .reply [line.readyForQuery])
  | .terminate => ({ line with awaitingSync := false }, .relay)
  | _ => (line, .reply [])

def describeTarget (body : Bytes) : Except RowError (Target × Bytes) :=
  wellFormed do
    let kind ← body.head?
    let target ←
      if kind = 0x53 then some Target.statement
      else if kind = 0x50 then some Target.portal
      else none
    let (name, _) ← takeCstr body.tail
    return (target, name)

/-- Carries on with the tracked portals an operation leaves, or ends the session. -/
def Frontline.tracking (line : Frontline Positions Mark) (action : FrameAction) :
    Except FrameError (Tracked Positions Mark Nat) →
    Frontline Positions Mark × Except FrameError FrameAction
  | .ok portals => ({ line with portals := portals }, .ok action)
  | .error error => (line, .error error)

variable {Statement : Type} [DecidableEq Statement]
  (frontend : Frontend Statement) (rewrite : Context → Statement → Pass (Statement × Bool))

/-- A simple Query: its own batch when it goes on, answered in full when it is refused. -/
def Frontline.query (line : Frontline Positions Mark) (mark : Mark) (body : Bytes) :
    Frontline Positions Mark × Except FrameError FrameAction :=
  match pgwire (wellFormed (takeCstr body)) with
  | .error error => (line, .error error)
  | .ok (query, _) =>
    let (rewriter, outcome) := rewriteSql frontend rewrite line.rewriter query
    let line := { line with rewriter := rewriter }
    match outcome with
    | .error error => (line, .error (.session error))
    | .ok (.refuse message) => (line, .ok (.reply [.errorResponse message, line.readyForQuery]))
    | .ok (.rewrite none _) => line.tracking .relay (session (line.portals.expectBatch mark))
    | .ok (.rewrite (some text) _) =>
      line.tracking (.replace (text ++ [0])) (session (line.portals.expectBatch mark))

/-- A Parse: a refused one makes the proxy drop the batch up to its Sync. -/
def Frontline.parse (line : Frontline Positions Mark) (body : Bytes) :
    Frontline Positions Mark × Except FrameError FrameAction :=
  match pgwire (parseParse body) with
  | .error error => (line, .error error)
  | .ok message =>
    let (rewriter, outcome) := rewriteSql frontend rewrite line.rewriter message.query
    let line := { line with rewriter := rewriter }
    match outcome with
    | .error error => (line, .error (.session error))
    | .ok (.refuse reason) =>
      ({ line with awaitingSync := true }, .ok (.reply [.errorResponse reason]))
    | .ok (.rewrite none params) =>
      line.tracking .relay (session (line.portals.parse message.statement params))
    | .ok (.rewrite (some text) params) =>
      line.tracking (.replace (encodeParse { message with query := text }))
        (session (line.portals.parse message.statement params))

omit [DecidableEq Statement] in
def Frontline.bind (line : Frontline Positions Mark) (body : Bytes) :
    Frontline Positions Mark × Except FrameError FrameAction :=
  match bindFrame line.rewriter.context line.portals body with
  | .error error => (line, .error error)
  | .ok (portals, discards, action) =>
    ({ line with portals := portals, awaitingSync := discards }, .ok action)

def Frontline.track (line : Frontline Positions Mark) (mark : Mark) (body : Bytes) :
    ClientMessage → Except FrameError (Tracked Positions Mark Nat)
  | .describe => do
      let (target, name) ← pgwire (describeTarget body)
      session (line.portals.expectDescribe target name)
  | .execute => do
      let (portal, _) ← pgwire (wellFormed (takeCstr body))
      session (line.portals.expectExecute portal)
  | .sync | .functionCall => session (line.portals.expectBatch mark)
  | .copy frame => .ok (line.portals.copyData frame)
  | .close => do
      let (target, name) ← pgwire (describeTarget body)
      match target with
      | .statement => return line.portals.closeStatement name
      | .portal => return line.portals.closePortal name
  | _ => .ok line.portals

/-- `QueryRewriter::on_frame`. The mark names this frame should it queue a batch marker. -/
def Frontline.onFrame (line : Frontline Positions Mark) (mark : Mark) (message : ClientMessage)
    (body : Bytes) : Frontline Positions Mark × Except FrameError FrameAction :=
  if line.awaitingSync then
    let (after, action) := line.discardUntilSync message
    (after, .ok action)
  else
    match message with
    | .query => line.query frontend rewrite mark body
    | .parse => line.parse frontend rewrite body
    | .bind => line.bind body
    | message => line.tracking .relay (line.track mark body message)

end Frame

def ClientMessage.closes : ClientMessage → Bool
  | .query | .sync | .functionCall => true
  | _ => false

/-- The messages of the extended protocol whose failure the backend skips from. -/
def ClientMessage.extended : ClientMessage → Bool
  | .parse | .bind | .describe | .execute | .close => true
  | _ => false

section Moves

variable {Positions Mark : Type}

/-- What a frame that goes on does to the tracked portals. -/
inductive Moves (mark : Mark) (before : Tracked Positions Mark Nat) :
    ClientMessage → Tracked Positions Mark Nat → Prop where
  | batch (message : ClientMessage) : message.closes = true →
      Moves mark before message { before with pending := before.pending ++ [.batch mark] }
  | execute (portal : Bytes) :
      Moves mark before .execute { before with
        nextExecuteId := before.nextExecuteId + 1
        pending := before.pending ++ [before.executeEntry portal] }
  | describe (target : Target) (name : Bytes) :
      Moves mark before .describe { before with
        pending := before.pending ++ [.describe (before.describeRef target name)] }
  | copy (frame : CopyFrame) : Moves mark before (.copy frame) (before.copyData frame)
  | parse (name : Bytes) (params : ParamTransforms) :
      Moves mark before .parse { before with
        nextStatementId := before.nextStatementId + 1
        statements := before.statements.put name ⟨before.nextStatementId, params, none⟩ }
  | bind (portal statement : Bytes) (formats : ResultFormats) :
      Moves mark before .bind { before with
        portals := before.portals.put portal ⟨statement, formats⟩ }
  | closeStatement (name : Bytes) : Moves mark before .close (before.closeStatement name)
  | closePortal (name : Bytes) : Moves mark before .close (before.closePortal name)
  | none (message : ClientMessage) : message = .terminate ∨ message = .other →
      Moves mark before message before

variable {mark : Mark} {line after : Frontline Positions Mark} {message : ClientMessage}
  {body frame : Bytes} {action taken : FrameAction}

theorem tracking_ok {portals : Except FrameError (Tracked Positions Mark Nat)}
    (ran : line.tracking action portals = (after, .ok taken)) :
    action = taken ∧ ∃ tracked, portals = .ok tracked ∧
      after = { line with portals := tracked } := by
  cases portals with
  | error error => cases ran
  | ok tracked =>
    cases ran
    exact ⟨rfl, tracked, rfl, rfl⟩

theorem track_moves {tracked : Tracked Positions Mark Nat}
    (ran : line.track mark body message = .ok tracked) (plain : message ≠ .query)
    (unparsed : message ≠ .parse) (unbound : message ≠ .bind) :
    Moves mark line.portals message tracked := by
  cases message with
  | query => exact absurd rfl plain
  | parse => exact absurd rfl unparsed
  | bind => exact absurd rfl unbound
  | describe =>
    obtain ⟨⟨target, name⟩, _, pushed⟩ := Outcome.bind_ok_iff.mp ran
    rw [expectDescribe_ok (session_ok pushed)]
    exact .describe target name
  | execute =>
    obtain ⟨⟨portal, _⟩, _, pushed⟩ := Outcome.bind_ok_iff.mp ran
    rw [expectExecute_ok (session_ok pushed)]
    exact .execute portal
  | sync =>
    rw [expectBatch_ok (session_ok ran)]
    exact .batch .sync rfl
  | functionCall =>
    rw [expectBatch_ok (session_ok ran)]
    exact .batch .functionCall rfl
  | copy frame =>
    cases ran
    exact .copy frame
  | close =>
    obtain ⟨⟨target, name⟩, _, closed⟩ := Outcome.bind_ok_iff.mp ran
    cases target with
    | statement =>
      cases closed
      exact .closeStatement name
    | portal =>
      cases closed
      exact .closePortal name
  | terminate =>
    cases ran
    exact .none .terminate (.inl rfl)
  | other =>
    cases ran
    exact .none .other (.inr rfl)

theorem bindFrame_ok {context : Context} {tracked bound : Tracked Positions Mark Nat}
    {discards : Bool} (ran : bindFrame context tracked body = .ok (bound, discards, action)) :
    ∃ sent codes, parseBind body = .ok sent ∧ resultFormatCodes sent = .ok codes ∧
      bound = { tracked with
        portals := tracked.portals.put sent.portal ⟨sent.statement, some codes⟩ } := by
  obtain ⟨sent, parsed, ran⟩ := Outcome.bind_ok_iff.mp ran
  obtain ⟨codes, chosen, ran⟩ := Outcome.bind_ok_iff.mp ran
  obtain ⟨⟨middle, recorded⟩, entered, ran⟩ := Outcome.bind_ok_iff.mp ran
  refine ⟨sent, codes, pgwire_ok parsed, pgwire_ok chosen, ?_⟩
  rw [← (bind_ok (session_ok entered)).1]
  dsimp only at ran
  split at ran
  · cases ran
    rfl
  · split at ran
    · cases ran
      rfl
    · split at ran
      · cases ran
        rfl
      · cases ran
      · obtain ⟨_, _, done⟩ := Outcome.bind_ok_iff.mp ran
        cases done
        rfl

variable {Statement : Type} [DecidableEq Statement]
  {frontend : Frontend Statement} {rewrite : Context → Statement → Pass (Statement × Bool)}

theorem query_ok (ran : line.query frontend rewrite mark body = (after, .ok action)) :
    (∃ reason, action = .reply [.errorResponse reason, line.readyForQuery] ∧
        after.portals = line.portals ∧ after.awaitingSync = line.awaitingSync) ∨
      ((∀ messages, action ≠ .reply messages) ∧ after.awaitingSync = line.awaitingSync ∧
        after.portals =
          { line.portals with pending := line.portals.pending ++ [.batch mark] }) := by
  unfold Frontline.query at ran
  split at ran
  · cases ran
  · dsimp only at ran
    split at ran
    · cases ran
    · cases ran
      exact .inl ⟨_, rfl, rfl, rfl⟩
    · obtain ⟨rfl, tracked, pushed, rfl⟩ := tracking_ok ran
      exact .inr ⟨fun _ => nofun, rfl, expectBatch_ok (session_ok pushed)⟩
    · obtain ⟨rfl, tracked, pushed, rfl⟩ := tracking_ok ran
      exact .inr ⟨fun _ => nofun, rfl, expectBatch_ok (session_ok pushed)⟩

theorem parse_ok (ran : line.parse frontend rewrite body = (after, .ok action)) :
    (∃ reason, action = .reply [.errorResponse reason] ∧
        after.portals = line.portals ∧ after.awaitingSync = true) ∨
      ((∀ messages, action ≠ .reply messages) ∧ after.awaitingSync = line.awaitingSync ∧
        ∃ sent rewritten params, parseParse body = .ok sent ∧
          (rewriteSql frontend rewrite line.rewriter sent.query).2 =
            .ok (.rewrite rewritten params) ∧
          after.portals = { line.portals with
            nextStatementId := line.portals.nextStatementId + 1
            statements := line.portals.statements.put sent.statement
              ⟨line.portals.nextStatementId, params, none⟩ }) := by
  unfold Frontline.parse at ran
  split at ran
  · cases ran
  · rename_i sent read
    dsimp only at ran
    split at ran
    · cases ran
    · cases ran
      exact .inl ⟨_, rfl, rfl, rfl⟩
    · rename_i params outcome
      obtain ⟨rfl, tracked, pushed, rfl⟩ := tracking_ok ran
      exact .inr ⟨fun _ => nofun, rfl, sent, none, params, pgwire_ok read, outcome,
        Portal.parse_ok (session_ok pushed)⟩
    · rename_i text params outcome
      obtain ⟨rfl, tracked, pushed, rfl⟩ := tracking_ok ran
      exact .inr ⟨fun _ => nofun, rfl, sent, some text, params, pgwire_ok read, outcome,
        Portal.parse_ok (session_ok pushed)⟩

theorem onFrame_moves (ran : line.onFrame frontend rewrite mark message body = (after, .ok action))
    (sent : action.forwarded body = some frame) :
    Moves mark line.portals message after.portals := by
  have goes : ∀ messages, action ≠ .reply messages := by
    rintro messages rfl
    cases sent
  unfold Frontline.onFrame at ran
  split at ran
  · -- While a batch is dropped only Terminate gets through.
    cases message with
    | terminate =>
      cases ran
      exact .none .terminate (.inl rfl)
    | _ =>
      cases ran
      exact absurd rfl (goes _)
  · split at ran
    · rcases query_ok ran with ⟨reason, rfl, _⟩ | ⟨_, _, moved⟩
      · exact absurd rfl (goes _)
      · rw [moved]
        exact .batch .query rfl
    · rcases parse_ok ran with ⟨reason, rfl, _⟩ | ⟨_, _, parsed, _, params, _, _, moved⟩
      · exact absurd rfl (goes _)
      · rw [moved]
        exact .parse parsed.statement params
    · unfold Frontline.bind at ran
      split at ran
      · cases ran
      · rename_i bound
        cases ran
        obtain ⟨message, codes, _, _, rfl⟩ := bindFrame_ok bound
        exact .bind message.portal message.statement (some codes)
    · rename_i plain unparsed unbound
      obtain ⟨_, tracked, kept, rfl⟩ := tracking_ok ran
      exact track_moves kept plain unparsed unbound

theorem onFrame_reply {messages : List Reply}
    (ran : line.onFrame frontend rewrite mark message body = (after, .ok (.reply messages))) :
    ∃ portals, after.portals = { line.portals with portals := portals } := by
  unfold Frontline.onFrame at ran
  split at ran
  · cases message <;> cases ran <;> exact ⟨_, rfl⟩
  · split at ran
    · rcases query_ok ran with ⟨_, _, same, _⟩ | ⟨goes, _⟩
      · exact ⟨_, same⟩
      · exact absurd rfl (goes _)
    · rcases parse_ok ran with ⟨_, _, same, _⟩ | ⟨goes, _⟩
      · exact ⟨_, same⟩
      · exact absurd rfl (goes _)
    · unfold Frontline.bind at ran
      split at ran
      · cases ran
      · rename_i bound
        cases ran
        obtain ⟨_, _, _, _, rfl⟩ := bindFrame_ok bound
        exact ⟨_, rfl⟩
    · cases (tracking_ok ran).1

end Moves

end Dbsec.Frames
