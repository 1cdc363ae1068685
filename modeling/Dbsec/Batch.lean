import Dbsec.Reassembly
import Dbsec.Statements

/-! One SQL text in, the rewritten text or a refusal out: `rewrite_sql` and
`note_session_state` of proxy/src/encrypt/statement.rs. The rewriter keeps the two
tracked settings between texts, and what it noted before a refusal stays noted. -/
namespace Dbsec.Batch
open Framing Params Unprotected Catalog Rewrite Settings Lexer

structure Rewriter where
  context : Context
  /-- What the startup packet moved, reported with the first text. -/
  startupMoved : List SettingMoved

inductive SqlOutcome where
  | rewrite (rewritten : Option Bytes) (params : ParamTransforms)
  | refuse (message : String)

def noteSetting (context : Context) : SettingMoved → Context
  | .searchPath => { context with searchPathTrusted := false }
  | .escapeStrings => { context with escapeStrings := true }

def settingSite : SettingMoved → Site
  | .searchPath => .searchPathChanged
  | .escapeStrings => .escapeStringsChanged

/-- Records the settings a statement moved; each flag is set before its site is
decided. -/
def noteSessionState (context : Context) : List SettingMoved → Context × Except Rejection Unit
  | [] => (context, .ok ())
  | setting :: rest =>
    let noted := noteSetting context setting
    match noted.unprotected (settingSite setting) with
    | .ok () => noteSessionState noted rest
    | .error rejection => (noted, .error rejection)

variable {Statement : Type}

/-- The statements of a text in order, each behind the settings it moves. -/
def rewriteStatements (rewrite : Context → Statement → Pass (Statement × Bool)) (context : Context)
    (params : ParamTransforms) : List (Statement × List SettingMoved) →
    Context × Except Rejection (List (Statement × Bool) × ParamTransforms)
  | [] => (context, .ok ([], params))
  | (statement, moved) :: rest =>
    match noteSessionState context moved with
    | (noted, .error rejection) => (noted, .error rejection)
    | (noted, .ok ()) =>
      match rewrite noted statement params with
      | .error rejection => (noted, .error rejection)
      | .ok (result, grown) =>
        let (last, outcome) := rewriteStatements rewrite noted grown rest
        (last, outcome.map fun done => (result :: done.1, done.2))

def rejected : Rejection → Except SessionError SqlOutcome
  | .fatal error => .error error
  | .refused message => .ok (.refuse message)

def unprotectedSql (context : Context) (site : Site) : Except SessionError SqlOutcome :=
  match context.unprotected site with
  | .ok () => .ok (.rewrite none .empty)
  | .error rejection => rejected rejection

/-- The text sent in place of the original, if a statement changed. -/
def replacement [DecidableEq Statement] (frontend : Frontend Statement) (sql : SqlText)
    (done : List (Statement × Bool)) : Except SessionError (Option Bytes) :=
  if done.any (·.2) then
    some <$> Reassembly.reassembled frontend sql (done.map (·.1)) (done.map (·.2))
  else .ok none

/-- The moves of each statement, or none of its own where the tokens and the parser
disagree on the number of statements. -/
def perStatement (statements : List Statement) (moved : List (List SettingMoved)) :
    List (Statement × List SettingMoved) :=
  if statements.length = moved.length then statements.zip moved
  else statements.map fun statement => (statement, [])

def aligned (parsed : Except ParserError (List Statement))
    (moved : List (List SettingMoved)) : Bool :=
  match parsed with
  | .ok statements => statements.length = moved.length
  | .error _ => false

def rewriteParsed [DecidableEq Statement] (frontend : Frontend Statement)
    (rewrite : Context → Statement → Pass (Statement × Bool)) (context : Context) (sql : SqlText)
    (moved : List (List SettingMoved)) (statements : List Statement) :
    Context × Except SessionError SqlOutcome :=
  match rewriteStatements rewrite context .empty (perStatement statements moved) with
  | (last, .error rejection) => (last, rejected rejection)
  | (last, .ok (done, params)) =>
    (last, (replacement frontend sql done).map fun rewritten => .rewrite rewritten params)

/-- What the tokenizer and the parser make of a text: the settings each statement
moves, and the statements. -/
def readSql (frontend : Frontend Statement) (sql : SqlText) :
    List (List SettingMoved) × Except ParserError (List Statement) :=
  match frontend.tokenize sql with
  | .ok tokens => (settingsMoved tokens, frontend.parseTokens tokens sql)
  | .error error => ([], .error error)

/-- `QueryRewriter::rewrite_sql`. -/
def rewriteSql [DecidableEq Statement] (frontend : Frontend Statement)
    (rewrite : Context → Statement → Pass (Statement × Bool)) (rewriter : Rewriter)
    (query : Bytes) : Rewriter × Except SessionError SqlOutcome :=
  match Text.decode query with
  | none => (rewriter, unprotectedSql rewriter.context .nonUtf8)
  | some sql =>
    let (moved, parsed) := readSql frontend sql
    let upfront := rewriter.startupMoved ++ if aligned parsed moved then [] else moved.flatten
    match noteSessionState rewriter.context upfront with
    | (noted, .error rejection) => (⟨noted, []⟩, rejected rejection)
    | (noted, .ok ()) =>
      match parsed with
      | .error error => (⟨noted, []⟩, unprotectedSql noted (.unparseable error))
      | .ok statements =>
        let (last, outcome) := rewriteParsed frontend rewrite noted sql moved statements
        (⟨last, []⟩, outcome)

end Dbsec.Batch
