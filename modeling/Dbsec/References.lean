import Dbsec.Writes

/-! Which tables a statement refers to, as PostgreSQL resolves its names: the name of a
WITH entry hides the table of that name inside its scope, a call in FROM names a
function, and the target of a write is always a table. Every reference keeps how its
rows are used, so that the places the rewriter looks at can be told from those it does
not. -/
namespace Dbsec.References
open Sql Catalog

inductive Binding where
  | table
  | cte
  | call
  deriving DecidableEq

/-- What becomes of the rows behind a name: they flow into the result through FROM,
WITH and set operations alone, or are read inside an expression or a data-modifying
statement, or the name is the target of a write, with or without RETURNING. -/
inductive Use where
  | streamed
  | nested
  | target
  | returned
  deriving DecidableEq

structure Reference where
  name : ObjectName
  binding : Binding
  use : Use
  deriving DecidableEq

/-- A reference seen from outside the expression or write it stands in. -/
def Reference.enclosed (reference : Reference) : Reference :=
  match reference.use with
  | .streamed => { reference with use := .nested }
  | _ => reference

def bindingOf (ctes : List String) (name : ObjectName) : Binding :=
  match name with
  | [ident] => if normalize ident ∈ ctes then .cte else .table
  | _ => .table

section Expressions
variable {Query : Type}

mutual
def exprQueries : Expr Query → List Query
  | .identifier _ => []
  | .compoundIdentifier _ => []
  | .value _ => []
  | .typedString _ _ => []
  | .unary _ inner => exprQueries inner
  | .binary _ left right => exprQueries left ++ exprQueries right
  | .inList operand list _ => exprQueries operand ++ exprQueriesEach list
  | .inSubquery operand query _ => query :: exprQueries operand
  | .between operand low high _ => exprQueries operand ++ exprQueries low ++ exprQueries high
  | .pattern _ operand pattern _ => exprQueries operand ++ exprQueries pattern
  | .tuple items => exprQueriesEach items
  | .array items => exprQueriesEach items
  | .case operand conditions results elseResult =>
    exprQueriesOption operand ++ exprQueriesEach conditions ++ exprQueriesEach results ++
      exprQueriesOption elseResult
  | .function _ args filter => exprQueriesEach args ++ exprQueriesOption filter
  | .functionQuery _ query => [query]
  | .exists query _ => [query]
  | .subquery query => [query]
  | .substring operand start size =>
    exprQueries operand ++ exprQueriesOption start ++ exprQueriesOption size
  | .wildcard => []
  | .unwalked _ inner => exprQueriesEach inner

def exprQueriesEach : List (Expr Query) → List Query
  | [] => []
  | expr :: rest => exprQueries expr ++ exprQueriesEach rest

def exprQueriesOption : Option (Expr Query) → List Query
  | none => []
  | some expr => exprQueries expr
end

def itemExprs : SelectItem Query → List (Expr Query)
  | .unnamed expr => [expr]
  | .aliased expr _ => [expr]
  | .qualifiedWildcard _ => []
  | .wildcard => []

def groupExprs : GroupBy Query → List (Expr Query)
  | .expressions exprs => exprs
  | .all => []

def joinExprs : JoinOperator Query → List (Expr Query)
  | .constrained _ (.on condition) => [condition]
  | _ => []

def selectExprs (select : Select Query) : List (Expr Query) :=
  select.projection.flatMap itemExprs ++ select.selection.toList ++ groupExprs select.groupBy ++
    select.having.toList ++ select.unwalked

def onInsertExprs : OnInsert Query → List (Expr Query)
  | .onConflict _ (.doUpdate assignments selection) =>
    assignments.map (·.value) ++ selection.toList
  | .onConflict _ .doNothing => []
  | .duplicateKeyUpdate assignments => assignments.map (·.value)

end Expressions

section From
variable {Query : Type} (ofQuery : Query → List Reference) (ctes : List String)

def inExprs (exprs : List (Expr Query)) : List Reference :=
  ((exprs.flatMap exprQueries).flatMap ofQuery).map (·.enclosed)

mutual
def factorReferences : TableFactor Query → List Reference
  | .table name none _ => [⟨name, bindingOf ctes name, .streamed⟩]
  | .table name (some args) _ => ⟨name, .call, .streamed⟩ :: inExprs ofQuery args
  | .derived _ subquery _ => ofQuery subquery
  | .nestedJoin inner _ => tableReferences inner
  | .reshaped inner => factorReferences inner
  | .computed args _ => inExprs ofQuery args

def joinsReferences : List (Join Query) → List Reference
  | [] => []
  | .mk relation operator :: rest =>
    factorReferences relation ++ inExprs ofQuery (joinExprs operator) ++ joinsReferences rest

def tableReferences : TableWithJoins Query → List Reference
  | .mk relation joins => factorReferences relation ++ joinsReferences joins
end

/-- The target of an UPDATE or a DELETE and what is joined to it. -/
def targetReferences (use : Use) : TableWithJoins Query → List Reference
  | .mk (.table name _ _) joins =>
    ⟨name, .table, use⟩ :: (joinsReferences ofQuery ctes joins).map (·.enclosed)
  | other => (tableReferences ofQuery ctes other).map (·.enclosed)

end From

def targetUse {Query : Type} (returning : List (SelectItem Query)) : Use :=
  if returning.isEmpty then .target else .returned

/-- The references of the queries and statements one level down, inside the scope of
some WITH entries. -/
structure Lookups (Query Statement : Type) where
  ofQuery : List String → Query → List Reference
  ofStatement : List String → Statement → List Reference

section Nodes
variable {Query Statement : Type} (lookups : Lookups Query Statement) (ctes : List String)

def setExprReferences : SetExpr Query Statement → List Reference
  | .select select =>
    select.fromTables.flatMap (tableReferences (lookups.ofQuery ctes) ctes) ++
      inExprs (lookups.ofQuery ctes) (selectExprs select)
  | .query query => lookups.ofQuery ctes query
  | .setOperation left right => setExprReferences left ++ setExprReferences right
  | .values rows => rows.flatMap (inExprs (lookups.ofQuery ctes))
  | .insert statement => (lookups.ofStatement ctes statement).map (·.enclosed)
  | .update statement => (lookups.ofStatement ctes statement).map (·.enclosed)
  | .table schemaName (some tableName) =>
    let name := (schemaName.toList ++ [tableName]).map Ident.plain
    [⟨name, bindingOf ctes name, .streamed⟩]
  | .table _ none => []

def cteName (cte : Cte Query) : String := normalize cte.named.name

/-- The entries of a plain WITH list: each sees those before it. -/
def cteReferences : List String → List (Cte Query) → List Reference
  | _, [] => []
  | ctes, cte :: rest => lookups.ofQuery ctes cte.query ++ cteReferences (cteName cte :: ctes) rest

def visibleCtes (query : QueryNode Query Statement) : List String :=
  query.ctes.map cteName ++ ctes

def withReferences (query : QueryNode Query Statement) : List Reference :=
  if query.recursive then
    query.ctes.flatMap fun cte => lookups.ofQuery (visibleCtes ctes query) cte.query
  else cteReferences lookups ctes query.ctes

def queryReferences (query : QueryNode Query Statement) : List Reference :=
  withReferences lookups ctes query ++
    setExprReferences lookups (visibleCtes ctes query) query.body ++
      inExprs (lookups.ofQuery (visibleCtes ctes query)) (query.orderBy ++ query.limits)

def insertReferences (insert : Sql.Insert Query Statement) : List Reference :=
  ⟨insert.tableName, .table, targetUse insert.returning⟩ ::
    ((insert.source.toList.flatMap (queryReferences lookups ctes)).map (·.enclosed) ++
      inExprs (lookups.ofQuery ctes)
        (insert.on.toList.flatMap onInsertExprs ++ insert.returning.flatMap itemExprs))

def updateReferences (update : Update Query) : List Reference :=
  targetReferences (lookups.ofQuery ctes) ctes (targetUse update.returning) update.table ++
    (update.fromTable.toList.flatMap (tableReferences (lookups.ofQuery ctes) ctes)).map
      (·.enclosed) ++
      inExprs (lookups.ofQuery ctes)
        (update.assignments.map (·.value) ++ update.selection.toList ++
          update.returning.flatMap itemExprs)

def deleteReferences (delete : Delete Query) : List Reference :=
  delete.fromTables.flatMap
      (targetReferences (lookups.ofQuery ctes) ctes (targetUse delete.returning)) ++
    (delete.usingTables.flatMap (tableReferences (lookups.ofQuery ctes) ctes)).map (·.enclosed) ++
      inExprs (lookups.ofQuery ctes)
        (delete.selection.toList ++ delete.returning.flatMap itemExprs)

def mergeReferences (into : TableFactor Query) : List Reference :=
  (Statements.factorName into).toList.map fun name => ⟨name, .table, .target⟩

def statementReferences : StatementNode Query Statement → List Reference
  | .insert insert => insertReferences lookups ctes insert
  | .update update => updateReferences lookups ctes update
  | .query query => queryReferences lookups ctes query
  | .delete delete => deleteReferences lookups ctes delete
  | .copyTable name _ outward => [⟨name, .table, if outward then .streamed else .target⟩]
  | .copyQuery query _ => queryReferences lookups ctes query
  | .merge into _ => mergeReferences into
  | .prepare _ statement => lookups.ofStatement ctes statement
  | .explain _ statement => lookups.ofStatement ctes statement
  | .createTableAs name query => ⟨name, .table, .target⟩ :: queryReferences lookups ctes query
  | .unwalked _ => []

end Nodes

def lookups : (depth : Nat) → Lookups (Query depth) (Statement depth)
  | 0 => ⟨nofun, nofun⟩
  | depth + 1 => ⟨queryReferences (lookups depth), statementReferences (lookups depth)⟩

/-- Every table, WITH entry and function a statement names as a relation. -/
def references {depth : Nat} (statement : Statement depth) : List Reference :=
  (lookups depth).ofStatement [] statement

def ReadProtected (catalog : WriteCatalog) (schemaOf : String → String)
    (name : ObjectName) : Prop :=
  ∃ key, Writes.denotes schemaOf name = some key ∧ (catalog.readColumns.get key).isSome

end Dbsec.References
