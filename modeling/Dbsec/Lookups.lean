import Dbsec.CopyReads

/-! The names a statement makes the walk look up in the catalog, as long as none of them is
found: the relations that scopes are built from and the targets of writes, in the statement
and in every query the walk goes down into. What `rewrite_statement` relays without a look,
and the queries inside expressions it does not go into, contribute none. -/
namespace Dbsec.Lookups
open Sql Statements References CopyReads

section Expressions
variable {Query : Type}

mutual
/-- The queries `rewrite_nested_queries` finds in an expression. -/
def walkedQueries : Expr Query → List Query
  | .subquery query => [query]
  | .exists query _ => [query]
  | .inSubquery operand query _ => query :: walkedQueries operand
  | .binary _ left right => walkedQueries left ++ walkedQueries right
  | .unary _ inner => walkedQueries inner
  | .inList operand list _ => walkedQueries operand ++ walkedEach list
  | .between operand low high _ => walkedQueries operand ++ walkedQueries low ++ walkedQueries high
  | .pattern _ operand pattern _ => walkedQueries operand ++ walkedQueries pattern
  | .tuple items => walkedEach items
  | .case operand conditions results elseResult =>
    walkedOption operand ++ walkedOption elseResult ++ walkedEach conditions ++ walkedEach results
  | .function _ args _ => walkedEach args
  | _ => []

def walkedEach : List (Expr Query) → List Query
  | [] => []
  | expr :: rest => walkedQueries expr ++ walkedEach rest

def walkedOption : Option (Expr Query) → List Query
  | none => []
  | some expr => walkedQueries expr
end

def sweptConditions : Join Query → List (Expr Query)
  | .mk _ operator => joinExprs operator

end Expressions

section From
variable {Query : Type} (ofQuery : Query → List ObjectName)

def inWalked (exprs : List (Expr Query)) : List ObjectName :=
  (exprs.flatMap walkedQueries).flatMap ofQuery

mutual
def factorLookups : TableFactor Query → List ObjectName
  | .table name _ _ => [name]
  | .derived _ subquery _ => ofQuery subquery
  | .nestedJoin inner _ => tableLookups inner
  -- Neither brings anything into scope.
  | .reshaped _ => []
  | .computed _ _ => []

def joinsLookups : List (Join Query) → List ObjectName
  | [] => []
  | .mk relation _ :: rest => factorLookups relation ++ joinsLookups rest

def tableLookups : TableWithJoins Query → List ObjectName
  | .mk relation joins => factorLookups relation ++ joinsLookups joins
end

end From

/-- What the queries and statements one level down have looked up, and the target a
prepared statement is asked for. -/
structure Below (Query Statement : Type) where
  ofQuery : Query → List ObjectName
  ofStatement : Statement → List ObjectName
  target : Statement → Option ObjectName

section Nodes
variable {Query Statement : Type} (below : Below Query Statement)

def selectWalked (select : Select Query) : List (Expr Query) :=
  select.selection.toList ++ select.having.toList ++ select.projection.flatMap itemExprs ++
    groupExprs select.groupBy ++ select.fromTables.flatMap fun table =>
      table.joins.flatMap sweptConditions

def setExprLookups : SetExpr Query Statement → List ObjectName
  | .select select =>
    select.fromTables.flatMap (tableLookups below.ofQuery) ++
      inWalked below.ofQuery (selectWalked select)
  | .query query => below.ofQuery query
  | .setOperation left right => setExprLookups left ++ setExprLookups right
  | .values _ => []
  | .insert statement => below.ofStatement statement
  | .update statement => below.ofStatement statement
  | .table _ _ => []

def queryLookups (query : QueryNode Query Statement) : List ObjectName :=
  (query.ctes.flatMap fun cte => below.ofQuery cte.query) ++ setExprLookups below query.body ++
    inWalked below.ofQuery query.orderBy

def updateLookups (update : Update Query) : List ObjectName :=
  (update.table :: update.fromTable.toList).flatMap (tableLookups below.ofQuery) ++
    inWalked below.ofQuery (update.assignments.map (·.value) ++ update.selection.toList)

def deleteLookups (delete : Delete Query) : List ObjectName :=
  (delete.fromTables ++ delete.usingTables).flatMap (tableLookups below.ofQuery) ++
    inWalked below.ofQuery delete.selection.toList

def statementLookups (copied : QueryNode Query Statement → List ObjectName) :
    StatementNode Query Statement → List ObjectName
  -- A target that is not found ends an INSERT.
  | .insert insert => [insert.tableName]
  | .update update => updateLookups below update
  | .query query => queryLookups below query
  | .delete delete => deleteLookups below delete
  | .copyTable name _ _ => [name]
  | .copyQuery query outward =>
    copied query ++ if outward then queryLookups below query else []
  | .merge into _ => (factorName into).toList
  | .prepare _ statement => (below.target statement).toList
  -- The fallback of `rewrite_statement`.
  | .explain _ _ => []
  | .createTableAs _ _ => []
  | .unwalked _ => []

end Nodes

def lookups : (depth : Nat) → Below (Query depth) (Statement depth)
  | 0 => ⟨nofun, nofun, nofun⟩
  | depth + 1 =>
    { ofQuery := queryLookups (lookups depth)
      ofStatement := statementLookups (lookups depth) fun query =>
        streamedNames (queryReferences (References.lookups depth) [] query)
      target := writeTargetNode }

/-- Every name that `rewrite_statement` looks up, if it finds none. -/
def lookedUp {depth : Nat} (statement : Statement depth) : List ObjectName :=
  (lookups depth).ofStatement statement

end Dbsec.Lookups
