import Dbsec.Table
import Dbsec.Outcome
import Dbsec.Params

/-! The extended-protocol state both relay directions share, proxy/src/portal.rs.
Each operation runs under the session's lock and is modelled as one atomic step on
`Tracked`. What a RowDescription says is a parameter. A batch marker carries a mark
that no operation reads: it names, for the proofs, the frame that queued it. -/
namespace Dbsec.Portal
open Framing Params Outcome

def maxPreparedStatements : Nat := 1024
def maxPortals : Nat := 1024
def maxNameLen : Nat := 256
def maxPendingResponses : Nat := 4096

/-- The result format codes one Bind chose; absent in the simple protocol. -/
abbrev ResultFormats := Option (List Int)

inductive Target where
  | statement
  | portal
  deriving DecidableEq

inductive CopyFrame where
  | data
  | done
  | fail
  deriving DecidableEq

inductive CopyIn (Id : Type) where
  | idle
  | started (execute : Option Id)
  deriving DecidableEq

structure StatementRef (Id : Type) where
  name : Bytes
  id : Id
  deriving DecidableEq

structure Statement (Positions Id : Type) where
  id : Id
  params : ParamTransforms
  described : Option Positions

structure BoundPortal where
  statement : Bytes
  resultFormats : ResultFormats
  deriving DecidableEq

/-- A response the server still owes, in the order the client asked for it. -/
inductive Pending (Positions Mark Id : Type) where
  | describe (statement : Option (StatementRef Id))
  | execute (id : Id) (statement : Option Id) (positions : Option Positions)
      (resultFormats : ResultFormats)
  | batch (mark : Mark)

inductive RowSource (Positions : Type) where
  | portal (positions : Positions) (formats : ResultFormats)
  | lastDescription
  | undescribed
  deriving DecidableEq

/-- `StatementId` and `ExecuteId` are `u64`, where the id behind the largest is zero again.
They stay a parameter: a queue is shorter than any id is long, so what only depends on the
queue is proved over ids that never run out. -/
structure Tracked (Positions Mark Id : Type) where
  statements : Table Bytes (Statement Positions Id)
  portals : Table Bytes BoundPortal
  pending : List (Pending Positions Mark Id)
  nextStatementId : Id
  nextExecuteId : Id
  copyIn : CopyIn Id

variable {Positions Mark Id : Type}

def Tracked.new [OfNat Id 0] : Tracked Positions Mark Id := ⟨.empty, .empty, [], 0, 0, .idle⟩

def checkName (what : String) (name : Bytes) : Except SessionError Unit :=
  if name.length > maxNameLen then .error (.nameTooLong what name.length maxNameLen) else .ok ()

def Tracked.push (tracked : Tracked Positions Mark Id) (pending : Pending Positions Mark Id) :
    Except SessionError (Tracked Positions Mark Id) :=
  if tracked.pending.length ≥ maxPendingResponses then
    .error (.sessionLimit "outstanding responses" maxPendingResponses)
  else .ok { tracked with pending := tracked.pending ++ [pending] }

def Tracked.parse [Add Id] [OfNat Id 1] (tracked : Tracked Positions Mark Id)
    (statement : Bytes) (params : ParamTransforms) :
    Except SessionError (Tracked Positions Mark Id) := do
  checkName "prepared statement" statement
  if (tracked.statements.get statement).isNone &&
      tracked.statements.size ≥ maxPreparedStatements then
    throw (.sessionLimit "prepared statements" maxPreparedStatements)
  return { tracked with
    nextStatementId := tracked.nextStatementId + 1
    statements := tracked.statements.put statement ⟨tracked.nextStatementId, params, none⟩ }

/-- Binds a portal; the parameters are `none` for a statement never parsed here. -/
def Tracked.bind (tracked : Tracked Positions Mark Id) (portal statement : Bytes)
    (resultFormats : ResultFormats) :
    Except SessionError (Tracked Positions Mark Id × Option ParamTransforms) := do
  checkName "portal" portal
  checkName "prepared statement" statement
  if (tracked.portals.get portal).isNone && tracked.portals.size ≥ maxPortals then
    throw (.sessionLimit "portals" maxPortals)
  return ({ tracked with portals := tracked.portals.put portal ⟨statement, resultFormats⟩ },
    (tracked.statements.get statement).map (·.params))

def Tracked.closeStatement (tracked : Tracked Positions Mark Id) (statement : Bytes) :
    Tracked Positions Mark Id :=
  { tracked with
    statements := tracked.statements.remove statement
    portals := tracked.portals.retain fun _ bound => bound.statement ≠ statement }

def Tracked.closePortal (tracked : Tracked Positions Mark Id) (portal : Bytes) :
    Tracked Positions Mark Id :=
  { tracked with portals := tracked.portals.remove portal }

/-- The statement a Describe asks about: a portal names the statement it was bound to. -/
def Tracked.describeRef (tracked : Tracked Positions Mark Id) (target : Target) (name : Bytes) :
    Option (StatementRef Id) := do
  let statement ← match target with
    | .statement => some name
    | .portal => (tracked.portals.get name).map (·.statement)
  let entry ← tracked.statements.get statement
  return ⟨statement, entry.id⟩

def Tracked.expectDescribe (tracked : Tracked Positions Mark Id) (target : Target) (name : Bytes) :
    Except SessionError (Tracked Positions Mark Id) := do
  checkName "describe target" name
  tracked.push (.describe (tracked.describeRef target name))

def Tracked.executeEntry (tracked : Tracked Positions Mark Id) (portal : Bytes) :
    Pending Positions Mark Id :=
  let bound := tracked.portals.get portal
  let statement := bound.bind fun entry => tracked.statements.get entry.statement
  .execute tracked.nextExecuteId (statement.map (·.id)) (statement.bind (·.described))
    (bound.bind (·.resultFormats))

def Tracked.expectExecute [Add Id] [OfNat Id 1] (tracked : Tracked Positions Mark Id)
    (portal : Bytes) :
    Except SessionError (Tracked Positions Mark Id) :=
  { tracked with nextExecuteId := tracked.nextExecuteId + 1 }.push (tracked.executeEntry portal)

def Tracked.copyInStarted (tracked : Tracked Positions Mark Id) : Tracked Positions Mark Id :=
  let execute := match tracked.pending with
    | .execute id .. :: _ => some id
    | _ => none
  { tracked with copyIn := .started execute }

def Pending.isBatch : Pending Positions Mark Id → Bool
  | .batch _ => true
  | _ => false

/-- Removes the run of batch markers right behind the Execute with this id. -/
def dropMarkers [DecidableEq Id] (id : Id) :
    List (Pending Positions Mark Id) → List (Pending Positions Mark Id)
  | [] => []
  | .execute queued statement positions formats :: rest =>
    if queued = id then
      .execute queued statement positions formats :: rest.dropWhile Pending.isBatch
    else .execute queued statement positions formats :: dropMarkers id rest
  | other :: rest => other :: dropMarkers id rest

def Tracked.copyData [DecidableEq Id] (tracked : Tracked Positions Mark Id) (frame : CopyFrame) :
    Tracked Positions Mark Id :=
  match tracked.copyIn with
  -- Outside a copy PostgreSQL discards the frame silently, so nothing moves here.
  | .idle => tracked
  | .started execute =>
    let copyIn := if frame = .data then tracked.copyIn else .idle
    match execute with
    | none => { tracked with copyIn := copyIn }
    | some id => { tracked with copyIn := copyIn, pending := dropMarkers id tracked.pending }

def Tracked.expectBatch (tracked : Tracked Positions Mark Id) (mark : Mark) :
    Except SessionError (Tracked Positions Mark Id) :=
  tracked.push (.batch mark)

/-- Gives a queued Execute of this incarnation the description that has arrived. -/
def Pending.backfill [DecidableEq Id] (id : Id) (positions : Positions) :
    Pending Positions Mark Id → Pending Positions Mark Id
  | .execute entry (some queued) none formats =>
    .execute entry (some queued) (if queued = id then some positions else none) formats
  | other => other

def Tracked.describeAnswered [DecidableEq Id] (tracked : Tracked Positions Mark Id)
    (positions : Positions) :
    Tracked Positions Mark Id :=
  match tracked.pending with
  | .describe none :: rest => { tracked with pending := rest }
  | .describe (some asked) :: rest =>
    let statements := match tracked.statements.get asked.name with
      | some entry =>
        if entry.id = asked.id then
          tracked.statements.put asked.name { entry with described := some positions }
        else tracked.statements
      | none => tracked.statements
    { tracked with
      statements := statements
      pending := rest.map (Pending.backfill asked.id positions) }
  | _ => tracked

/-- NoData is still a description: the empty one. -/
def Tracked.noData [Inhabited Positions] [DecidableEq Id] (tracked : Tracked Positions Mark Id) :
    Tracked Positions Mark Id :=
  tracked.describeAnswered default

def Tracked.rowSource (tracked : Tracked Positions Mark Id) : RowSource Positions :=
  match tracked.pending with
  | .execute _ _ (some positions) formats :: _ => .portal positions formats
  | .execute _ _ none _ :: _ => .undescribed
  | _ => .lastDescription

/-- Gives the Execute being answered a description re-derived for it. The statement keeps
the one it was described with. -/
def Tracked.rederived (tracked : Tracked Positions Mark Id) (positions : Positions) :
    Tracked Positions Mark Id :=
  match tracked.pending with
  | .execute id statement (some _) formats :: rest =>
    { tracked with pending := .execute id statement (some positions) formats :: rest }
  | _ => tracked

def Tracked.executeAnswered (tracked : Tracked Positions Mark Id) : Tracked Positions Mark Id :=
  match tracked.pending with
  | .execute .. :: rest => { tracked with pending := rest }
  | _ => tracked

/-- ReadyForQuery settles everything through the next batch marker. -/
def Tracked.batchAnswered (tracked : Tracked Positions Mark Id) : Tracked Positions Mark Id :=
  { tracked with
    copyIn := .idle
    pending := (tracked.pending.dropWhile fun entry => !entry.isBatch).drop 1 }

section Accepted
variable {tracked after : Tracked Positions Mark Id}

theorem push_ok {entry : Pending Positions Mark Id} (accepted : tracked.push entry = .ok after) :
    after = { tracked with pending := tracked.pending ++ [entry] } := by
  unfold Tracked.push at accepted
  split at accepted
  · cases accepted
  · exact (Except.ok.inj accepted).symm

theorem parse_ok [Add Id] [OfNat Id 1] {statement : Bytes} {params : ParamTransforms}
    (accepted : tracked.parse statement params = .ok after) :
    after = { tracked with
      nextStatementId := tracked.nextStatementId + 1
      statements := tracked.statements.put statement ⟨tracked.nextStatementId, params, none⟩ } := by
  simp only [Tracked.parse, bind_ok_iff] at accepted
  obtain ⟨_, _, written⟩ := accepted
  split at written
  · simp at written
  · exact (pure_ok_iff.mp written).symm

theorem bind_ok {portal statement : Bytes} {formats : ResultFormats}
    {params : Option ParamTransforms}
    (accepted : tracked.bind portal statement formats = .ok (after, params)) :
    after = { tracked with portals := tracked.portals.put portal ⟨statement, formats⟩ } ∧
      params = (tracked.statements.get statement).map (·.params) := by
  simp only [Tracked.bind, bind_ok_iff] at accepted
  obtain ⟨_, _, _, _, written⟩ := accepted
  split at written
  · simp at written
  · have pair := pure_ok_iff.mp written
    exact ⟨(congrArg Prod.fst pair).symm, (congrArg Prod.snd pair).symm⟩

theorem expectDescribe_ok {target : Target} {name : Bytes}
    (accepted : tracked.expectDescribe target name = .ok after) :
    after = { tracked with
      pending := tracked.pending ++ [.describe (tracked.describeRef target name)] } := by
  simp only [Tracked.expectDescribe, bind_ok_iff] at accepted
  obtain ⟨_, _, pushed⟩ := accepted
  exact push_ok pushed

theorem expectExecute_ok [Add Id] [OfNat Id 1] {portal : Bytes}
    (accepted : tracked.expectExecute portal = .ok after) :
    after = { tracked with
      nextExecuteId := tracked.nextExecuteId + 1
      pending := tracked.pending ++ [tracked.executeEntry portal] } :=
  push_ok accepted

theorem expectBatch_ok {mark : Mark} (accepted : tracked.expectBatch mark = .ok after) :
    after = { tracked with pending := tracked.pending ++ [.batch mark] } :=
  push_ok accepted

end Accepted

end Dbsec.Portal
