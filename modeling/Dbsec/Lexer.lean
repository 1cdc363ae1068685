import Dbsec.Settings
import Dbsec.Unprotected

/-! SQL texts and what sqlparser makes of them: reading a text, and printing a statement
with the check that it reads back (proxy/src/encrypt/lexer.rs). -/
namespace Dbsec.Lexer
open Params Settings Unprotected

abbrev SqlText := List Char

abbrev Range := Nat × Nat

variable {Statement : Type}

/-- What sqlparser does for the write path: print a statement, read a text into tokens
and the tokens into statements. -/
structure Frontend (Statement : Type) where
  render : Statement → SqlText
  tokenize : SqlText → Except ParserError (List Token)
  parseTokens : List Token → SqlText → Except ParserError (List Statement)

def Frontend.parseSql (frontend : Frontend Statement) (sql : SqlText) :
    Except ParserError (List Statement) := do
  frontend.parseTokens (← frontend.tokenize sql) sql

/-- Renders a statement and checks that the text parses back to it alone. -/
def renderValidated [DecidableEq Statement] (frontend : Frontend Statement)
    (statement : Statement) : Except SessionError SqlText :=
  match frontend.parseSql (frontend.render statement) with
  | .ok [reparsed] => if reparsed = statement then .ok (frontend.render statement)
    else .error .rerender
  | _ => .error .rerender

def joined (separator : SqlText) : List SqlText → SqlText
  | [] => []
  | [text] => text
  | text :: rest => text ++ separator ++ joined separator rest

end Dbsec.Lexer
