import Dbsec.Frames
import Dbsec.Reachable

/-! Both relays of a session and the backend behind them. The client direction is
`on_frame` of proxy/src/encrypt/frame.rs, the backend direction what `note_backend_state`
of proxy/src/session.rs and `RowDecryptor::inspect` of proxy/src/rows.rs do to the shared
portals. The backend takes its frames one after the other, may fail any of them, and
after a failed extended-protocol message discards everything up to the next Sync. An
Execute may start a copy in. Frames and answers carry, for the proofs, the number of the
client frame they belong to. -/
namespace Dbsec.Conversation
open Framing Params Catalog Rewrite Lexer Portal BindFrames Frames

structure Sent where
  message : ClientMessage
  body : Bytes
  mark : Nat
  /-- The number the proxy queued an Execute under. -/
  execute : Nat
  /-- Where the proxy saw copies when the frame passed it. -/
  seen : CopyIn Nat

/-- Who a row is for: an Execute, or one result set of a simple Query. -/
inductive Source where
  | execute (id : Nat)
  | query (mark result : Nat)
  deriving DecidableEq

inductive Answer (Positions : Type) where
  /-- RowDescription, asked for by a Describe or in front of a Query's result set. -/
  | description (source : Option (Nat × Nat)) (positions : Positions)
  | noData
  | row (source : Source)
  /-- CommandComplete, EmptyQueryResponse or PortalSuspended. -/
  | complete
  | error
  | ready (mark : Nat) (status : UInt8)
  | copyIn
  | other
  /-- NoticeResponse and the like, sent whenever the backend pleases. -/
  | notice

/-- An answer with the number of the frame it answers. -/
structure Response (Positions : Type) where
  request : Nat
  answer : Answer Positions

/-- A copy keeps the number of its Execute and of the frame that carried it. -/
inductive Mode where
  | serving
  | skipping
  | copying (execute request : Nat)
  deriving DecidableEq

structure Backend (Positions : Type) where
  inbox : List Sent
  outbox : List (Response Positions)
  mode : Mode
  /-- The result set, of the Query being answered, whose RowDescription is out. -/
  result : Option Nat
  /-- How many result sets simple Queries have had. -/
  results : Nat

/-- What has reached the client, from the backend or from the proxy itself. -/
inductive Delivery (Positions : Type) where
  | relayed (answer : Answer Positions)
  | replied (message : Reply)

structure State (Positions : Type) where
  line : Frontline Positions Nat
  /-- Whose RowDescription the read path saw last; `none` inside for a Describe's. -/
  described : Option (Option (Nat × Nat))
  backend : Backend Positions
  /-- The client's frames so far, in order. -/
  requests : List ClientMessage
  delivered : List (Nat × Delivery Positions)

inductive Event (Positions : Type) where
  | client (message : ClientMessage) (body : Bytes)
  | serve
  | copyStarts
  | notice
  | read (rederived : Option Positions)

variable {Positions : Type}

def Backend.idle : Backend Positions := ⟨[], [], .serving, none, 0⟩

def State.init (rewriter : Batch.Rewriter) : State Positions :=
  ⟨⟨rewriter, .new, false, 0x49⟩, none, .idle, [], []⟩

section Backend

/-- The backend's next state when it is done with the frame at hand. -/
def Backend.next (backend : Backend Positions) (rest : List Sent) (mode : Mode)
    (answers : List (Response Positions)) : Backend Positions :=
  ⟨rest, backend.outbox ++ answers, mode, none, backend.results⟩

/-- The backend's next state while it is still at the frame at hand. -/
def Backend.stay (backend : Backend Positions) (result : Option Nat)
    (answer : Response Positions) : Backend Positions :=
  { backend with outbox := backend.outbox ++ [answer], result := result }

def quiet : ClientMessage → Bool
  | .parse | .bind | .close | .other => true
  | _ => false

/-- What a backend in copy-in mode passes over: Sync, Flush and the payload itself. -/
def passedOver : ClientMessage → Bool
  | .sync | .other | .copy .data => true
  | _ => false

/-- One thing the backend does with the frame at hand. -/
inductive Serves (backend : Backend Positions) (frame : Sent) (rest : List Sent) :
    Backend Positions → Prop where
  | accept : backend.mode = .serving → quiet frame.message = true →
      Serves backend frame rest (backend.next rest .serving [⟨frame.mark, .other⟩])
  | fail : backend.mode = .serving → frame.message.extended = true →
      Serves backend frame rest (backend.next rest .skipping [⟨frame.mark, .error⟩])
  | describe (positions : Positions) : backend.mode = .serving → frame.message = .describe →
      Serves backend frame rest
        (backend.next rest .serving [⟨frame.mark, .description none positions⟩])
  | noData : backend.mode = .serving → frame.message = .describe →
      Serves backend frame rest (backend.next rest .serving [⟨frame.mark, .noData⟩])
  | executeRow : backend.mode = .serving → frame.message = .execute →
      Serves backend frame rest (backend.stay none ⟨frame.mark, .row (.execute frame.execute)⟩)
  | executeDone : backend.mode = .serving → frame.message = .execute →
      Serves backend frame rest (backend.next rest .serving [⟨frame.mark, .complete⟩])
  | queryDescribe (positions : Positions) : backend.mode = .serving → frame.message = .query →
      Serves backend frame rest
        { backend.stay (some backend.results)
            ⟨frame.mark, .description (some (frame.mark, backend.results)) positions⟩ with
          results := backend.results + 1 }
  | queryRow (result : Nat) : backend.mode = .serving → frame.message = .query →
      backend.result = some result →
      Serves backend frame rest
        (backend.stay (some result) ⟨frame.mark, .row (.query frame.mark result)⟩)
  | queryDone : backend.mode = .serving → frame.message = .query →
      Serves backend frame rest (backend.stay none ⟨frame.mark, .complete⟩)
  | functionResult : backend.mode = .serving → frame.message = .functionCall →
      Serves backend frame rest (backend.stay none ⟨frame.mark, .other⟩)
  | close (failed : Bool) (status : UInt8) : backend.mode = .serving →
      frame.message.closes = true →
      Serves backend frame rest (backend.next rest .serving
        ((if failed then [⟨frame.mark, .error⟩] else []) ++
          [⟨frame.mark, .ready frame.mark status⟩]))
  | stray (copy : CopyFrame) : backend.mode = .serving → frame.message = .copy copy →
      Serves backend frame rest (backend.next rest .serving [])
  | resume (status : UInt8) : backend.mode = .skipping → frame.message = .sync →
      Serves backend frame rest
        (backend.next rest .serving [⟨frame.mark, .ready frame.mark status⟩])
  | skip : backend.mode = .skipping → frame.message ≠ .sync →
      Serves backend frame rest (backend.next rest .skipping [])
  | passOver (execute request : Nat) : backend.mode = .copying execute request →
      passedOver frame.message = true →
      Serves backend frame rest (backend.next rest (.copying execute request) [])
  | copyDone (execute request : Nat) : backend.mode = .copying execute request →
      frame.message = .copy .done →
      Serves backend frame rest (backend.next rest .serving [⟨request, .complete⟩])
  | copyFail (execute request : Nat) : backend.mode = .copying execute request →
      passedOver frame.message = false → frame.message ≠ .terminate →
      Serves backend frame rest (backend.next rest .skipping [⟨request, .error⟩])

end Backend

section Session

def State.take [Inhabited Positions] (state : State Positions) (rederived : Option Positions) :
    Answer Positions → State Positions
  | .description source positions =>
    { state with
      line.portals := state.line.portals.describeAnswered positions
      described := some source }
  | .noData => { state with line.portals := state.line.portals.noData, described := none }
  | .row _ =>
    match rederived with
    | none => state
    | some positions => { state with line.portals := state.line.portals.rederived positions }
  | .complete | .error =>
    { state with line.portals := state.line.portals.executeAnswered, described := none }
  | .ready _ status =>
    { state with
      line.portals := state.line.portals.batchAnswered
      line.txStatus := status
      described := none }
  | .copyIn => { state with line.portals := state.line.portals.copyInStarted }
  | .other | .notice => state

def State.sent (state : State Positions) (message : ClientMessage) (body : Bytes)
    (action : FrameAction) : List Sent :=
  ((action.forwarded body).map fun frame =>
    ⟨message, frame, state.requests.length, state.line.portals.nextExecuteId,
      state.line.portals.copyIn⟩).toList

def State.replies (state : State Positions) : FrameAction → List (Nat × Delivery Positions)
  | .reply messages => messages.map fun message => (state.requests.length, .replied message)
  | _ => []

variable {Statement : Type} [DecidableEq Statement] [Inhabited Positions]
  (frontend : Frontend Statement) (rewrite : Context → Statement → Pass (Statement × Bool))

inductive Step : State Positions → Event Positions → State Positions → Prop where
  | client {state : State Positions} {message : ClientMessage} {body : Bytes}
      {line : Frontline Positions Nat} {action : FrameAction} :
      state.line.onFrame frontend rewrite state.requests.length message body = (line, .ok action) →
      Step state (.client message body)
        { state with
          line := line
          backend.inbox := state.backend.inbox ++ state.sent message body action
          requests := state.requests ++ [message]
          delivered := state.delivered ++ state.replies action }
  | serve {state : State Positions} {frame : Sent} {rest : List Sent}
      {backend : Backend Positions} : state.backend.inbox = frame :: rest →
      Serves state.backend frame rest backend → Step state .serve { state with backend := backend }
  | copyStarts {state : State Positions} {frame : Sent} {rest : List Sent} :
      state.backend.inbox = frame :: rest → state.backend.mode = .serving →
      frame.message = .execute →
      Step state .copyStarts { state with
        backend := state.backend.next rest (.copying frame.execute frame.mark)
          [⟨frame.mark, .copyIn⟩] }
  | notice {state : State Positions} {request : Nat} :
      Step state .notice { state with
        backend.outbox := state.backend.outbox ++ [⟨request, .notice⟩] }
  | read {state : State Positions} {rederived : Option Positions} {response : Response Positions}
      {rest : List (Response Positions)} : state.backend.outbox = response :: rest →
      Step state (.read rederived)
        { state.take rederived response.answer with
          backend.outbox := rest
          delivered := state.delivered ++ [(response.request, .relayed response.answer)] }

abbrev Runs (allowed : State Positions → Event Positions → Prop) (rewriter : Batch.Rewriter)
    (state : State Positions) : Prop :=
  Reachable (Step frontend rewrite) allowed (State.init rewriter) state

variable {frontend rewrite} {allowed : State Positions → Event Positions → Prop}
  {rewriter : Batch.Rewriter} {state : State Positions}

theorem run_client (reached : Runs frontend rewrite allowed rewriter state)
    (message : ClientMessage) (body : Bytes) {line : Frontline Positions Nat}
    {action : FrameAction} (permitted : allowed state (.client message body))
    (ran : state.line.onFrame frontend rewrite state.requests.length message body =
      (line, .ok action)) :
    Runs frontend rewrite allowed rewriter
      { state with
        line := line
        backend.inbox := state.backend.inbox ++ state.sent message body action
        requests := state.requests ++ [message]
        delivered := state.delivered ++ state.replies action } :=
  reached.step permitted (.client ran)

variable {frame : Sent} {rest : List Sent}

theorem run_serve (reached : Runs frontend rewrite allowed rewriter state)
    (permitted : allowed state .serve) (inbox : state.backend.inbox = frame :: rest)
    {backend : Backend Positions} (serves : Serves state.backend frame rest backend) :
    Runs frontend rewrite allowed rewriter { state with backend := backend } :=
  reached.step permitted (.serve inbox serves)

theorem run_copyStarts (reached : Runs frontend rewrite allowed rewriter state)
    (permitted : allowed state .copyStarts) (inbox : state.backend.inbox = frame :: rest)
    (serving : state.backend.mode = .serving) (asks : frame.message = .execute) :
    Runs frontend rewrite allowed rewriter { state with
      backend := state.backend.next rest (.copying frame.execute frame.mark)
        [⟨frame.mark, .copyIn⟩] } :=
  reached.step permitted (.copyStarts inbox serving asks)

theorem run_read (reached : Runs frontend rewrite allowed rewriter state)
    {response : Response Positions} {rest : List (Response Positions)}
    (permitted : allowed state (.read none)) (outbox : state.backend.outbox = response :: rest) :
    Runs frontend rewrite allowed rewriter
      { state.take none response.answer with
        backend.outbox := rest
        delivered := state.delivered ++ [(response.request, .relayed response.answer)] } :=
  reached.step permitted (.read outbox)

end Session

end Dbsec.Conversation
