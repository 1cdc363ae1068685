import Dbsec.Catalog
import Dbsec.Literals

/-! Resolving a column reference against the relations in scope:
proxy/src/encrypt/scope.rs. A scope carries both directions of the catalog, the
columns writes seal and the names reads protect. -/
namespace Dbsec.Scope
open Sql Params Catalog

structure ScopedTable where
  tableAlias : Option String
  name : List String
  columns : Columns
  readColumns : ReadColumns

abbrev TableScope := List ScopedTable

def ScopedTable.matches (table : ScopedTable) (qualifiers : List Ident) : Bool :=
  match qualifiers with
  | [] => true
  | [qualifier] =>
    table.tableAlias == some (normalize qualifier) ||
      table.name.getLast? == some (normalize qualifier)
  -- `schema.table` or longer: the trailing parts are compared.
  | _ =>
    let want := qualifiers.map normalize
    want.length ≤ table.name.length && table.name.drop (table.name.length - want.length) == want

inductive ColumnResolution where
  | one (transform : FieldTransform)
  | ambiguous
  | unknown

def resolve (scope : TableScope) (idents : List Ident) : ColumnResolution :=
  match idents.getLast? with
  | none => .unknown
  | some column =>
    let matching := scope.filter (·.matches idents.dropLast)
    match matching.filterMap (·.columns.get (normalize column)) with
    | [] => .unknown
    | [transform] => .one transform
    | _ => .ambiguous

def ColumnResolution.transform? : ColumnResolution → Option FieldTransform
  | .one transform => some transform
  | .ambiguous => none
  | .unknown => none

def transformOf (scope : TableScope) (idents : List Ident) : Option FieldTransform :=
  (resolve scope idents).transform?

def resolvesRead (scope : TableScope) (idents : List Ident) : Bool :=
  match idents.getLast? with
  | none => false
  | some column =>
    scope.any fun table =>
      table.matches idents.dropLast && table.readColumns.contains (normalize column)

variable {Query : Type}

def columnIdents : Expr Query → Option (List Ident)
  | .identifier ident => some [ident]
  | .compoundIdentifier idents => some idents
  | _ => none

def columnName (expr : Expr Query) : Option String := do
  let ident ← (← columnIdents expr).getLast?
  return normalize ident

def resolveColumn (scope : TableScope) (expr : Expr Query) : ColumnResolution :=
  match columnIdents expr with
  | some idents => resolve scope idents
  | none => .unknown

def columnRef (scope : TableScope) (expr : Expr Query) : Option FieldTransform :=
  (resolveColumn scope expr).transform?

def readColumnRef (scope : TableScope) (expr : Expr Query) : Bool :=
  (columnIdents expr).any (resolvesRead scope)

mutual
/-- The first read-protected column an expression references, at any depth short of a
query boundary. -/
def readProtectedReference (scope : TableScope) : Expr Query → Option String
  | .identifier ident =>
    if resolvesRead scope [ident] then some (normalize ident) else none
  | .compoundIdentifier idents =>
    if resolvesRead scope idents then idents.getLast?.map normalize else none
  | .unary _ inner => readProtectedReference scope inner
  | .binary _ left right =>
    readProtectedReference scope left <|> readProtectedReference scope right
  | .inList operand list _ =>
    readProtectedReference scope operand <|> readProtectedAny scope list
  | .between operand low high _ =>
    readProtectedReference scope operand <|> readProtectedReference scope low <|>
      readProtectedReference scope high
  | .pattern _ operand pattern _ =>
    readProtectedReference scope operand <|> readProtectedReference scope pattern
  | .tuple items => readProtectedAny scope items
  | .case operand conditions results elseResult =>
    readProtectedOption scope operand <|> readProtectedOption scope elseResult <|>
      readProtectedAny scope conditions <|> readProtectedAny scope results
  | .function _ args _ => readProtectedAny scope args
  | _ => none

def readProtectedAny (scope : TableScope) : List (Expr Query) → Option String
  | [] => none
  | expr :: rest => readProtectedReference scope expr <|> readProtectedAny scope rest

def readProtectedOption (scope : TableScope) : Option (Expr Query) → Option String
  | none => none
  | some expr => readProtectedReference scope expr
end

/-- A projection item that computes over a protected column instead of selecting it. -/
def computedProtectedColumn (scope : TableScope) :
    SelectItem Query → Option (String × Expr Query)
  | .unnamed expr | .aliased expr _ =>
    if readColumnRef scope expr then none
    else (readProtectedReference scope expr).map fun column => (column, expr)
  | .qualifiedWildcard _ | .wildcard => none

mutual
/-- The name of an operand that is ambiguous in scope, seen through a row constructor. -/
def ambiguousColumn (scope : TableScope) : Expr Query → Option String
  | .tuple items => ambiguousAny scope items
  | operand =>
    match resolveColumn scope operand with
    | .ambiguous => columnName operand
    | .one _ => none
    | .unknown => none

def ambiguousAny (scope : TableScope) : List (Expr Query) → Option String
  | [] => none
  | item :: rest => ambiguousColumn scope item <|> ambiguousAny scope rest
end

mutual
/-- The first protected column an operand names and whether it is searchable. -/
def protectedColumn (scope : TableScope) : Expr Query → Option (String × Bool)
  | .tuple items => protectedAny scope items
  | operand => do
      let transform ← columnRef scope operand
      return (← columnName operand, transform.supportsSearch)

def protectedAny (scope : TableScope) : List (Expr Query) → Option (String × Bool)
  | [] => none
  | item :: rest => protectedColumn scope item <|> protectedAny scope rest
end

/-- The operands a comparison is about; nullness survives sealing, so `IS NULL` has
none. -/
def predicateOperands : Expr Query → List (Expr Query)
  | .binary (.op _) left right => [left, right]
  | .binary (.any _) left right => [left, right]
  | .binary (.all _) left right => [left, right]
  | .binary .isDistinctFrom left _ => [left]
  | .binary .isNotDistinctFrom left _ => [left]
  | .inList operand _ _ => [operand]
  | .inSubquery operand _ _ => [operand]
  | .between operand _ _ _ => [operand]
  | .pattern _ operand _ _ => [operand]
  | _ => []

def protectedOperand (scope : TableScope) (expr : Expr Query) : Option (String × Bool) :=
  protectedAny scope (predicateOperands expr)

def ambiguousOperand (scope : TableScope) (expr : Expr Query) : Option String :=
  ambiguousAny scope (predicateOperands expr)

def exprShape : Expr Query → String
  | .identifier _ | .compoundIdentifier _ => "column reference"
  | .value _ => "literal"
  | .function .. | .functionQuery .. => "function call"
  | .unary (.cast _) _ => "cast"
  | .binary (.op _) _ _ => "binary operator"
  | .unary (.op _) _ => "unary operator"
  | .case .. => "CASE"
  | .subquery _ => "subquery"
  | .inSubquery .. => "IN subquery"
  | .inList .. => "IN list"
  | .binary (.any _) _ _ => "= ANY"
  | .binary (.all _) _ _ => "= ALL"
  | .pattern .. => "pattern match"
  | .between .. => "BETWEEN"
  | .unary .isNull _ | .unary .isNotNull _ => "IS NULL"
  | .binary .isDistinctFrom _ _ | .binary .isNotDistinctFrom _ _ => "IS DISTINCT FROM"
  | .array _ => "array"
  | .typedString .. => "typed literal"
  | .unary .nested _ => "parenthesized expression"
  | _ => "unsupported expression"

end Dbsec.Scope
