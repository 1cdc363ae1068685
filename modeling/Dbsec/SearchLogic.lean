import Dbsec.BoundParams
import Dbsec.Scope
import Dbsec.Subexpr

/-! What a search condition means to PostgreSQL, in three-valued logic. A searchable
column is BYTEA, whether it holds plaintext or the stored form, so a condition and what
it is rewritten to have the same types. Comparisons with a searchable column, or with a
leading part of it, are evaluated here; what any other condition evaluates to is a
parameter. -/
namespace Dbsec.SearchLogic
open Framing Sql Literals Scope Subexpr

abbrev Truth := Option Bool

def both : Truth → Truth → Truth
  | some false, _ => some false
  | _, some false => some false
  | some true, some true => some true
  | _, _ => none

def either : Truth → Truth → Truth
  | some true, _ => some true
  | _, some true => some true
  | some false, some false => some false
  | _, _ => none

def negate : Truth → Truth := Option.map not

def equals (left right : Option Bytes) : Truth := do
  return (← left) == (← right)

/-- What a condition is evaluated on: the values of the columns, the parameters in binary
format, how an array is received from its bytes, and every other condition. -/
structure World (Query : Type) where
  column : List Ident → Option Bytes
  param : Nat → Option Bytes
  receive : Bytes → Option (List (Option Bytes))
  other : Expr Query → Truth

def stringText : Value → Option (List Char)
  | .singleQuoted text => some text.toList
  | .escaped text => some text.toList
  | .unicode text => some text.toList
  | .national text => some text.toList
  | .dollarQuoted text _ => some text.toList
  | _ => none

/-- The bytes a string stands for as BYTEA; the escape format is not needed here. -/
def byteaInput : List Char → Option Bytes
  | '\\' :: 'x' :: digits => Text.hexDecode digits
  | text => if text.contains '\\' then none else some (Text.encode text)

section Evaluation
variable {Query : Type} (searched : List Ident → Bool) (world : World Query)

def columnValue (expr : Expr Query) : Option (Option Bytes) :=
  ((columnIdents expr).filter searched).map world.column

/-- The value of a literal or a placeholder compared with a searchable column. -/
def comparedValue : Expr Query → Option (Option Bytes)
  | .value (.placeholder text) => (placeholderIndex text).map world.param
  | .value held => (stringText held).bind fun text => (byteaInput text).map some
  | _ => none

end Evaluation

end Dbsec.SearchLogic
