import Dbsec.Seal
import Dbsec.Predicate

/-! Query traversal: proxy/src/encrypt/query.rs. What a FROM clause brings into scope,
and the walk that visits the join conditions, predicates and nested queries of a
select. Each function is written over one node of the syntax; what it does with the
queries and statements inside that node is the `Walks` argument. -/
namespace Dbsec.QueryWalk
open Sql Params Unprotected Catalog Scope Accumulate Rewrite Predicate

/-- The walks of the queries and statements one level down. -/
structure Walks (Query Statement : Type) where
  rewriteQuery : Query → Pass (Query × Bool)
  rewriteStatement : Statement → Pass (Statement × Bool)
  derivedScope : Query → Option TableAlias → Except Rejection (Option ScopedTable)
  copiedTables : Query → List String → Except Rejection (List String)
  writeTarget : Statement → Option ObjectName

variable {Query Statement : Type} (context : Context)

section ScopeOf
variable (derivedScope : Query → Option TableAlias → Except Rejection (Option ScopedTable))

mutual
def scopeOfFactor : TableFactor Query → Except Rejection TableScope
  | .table name _ named => do
      match ← context.scopedTable name with
      | none => return []
      | some (columns, readColumns) =>
        return [⟨Seal.aliasName named, name.map normalize, columns, readColumns⟩]
  -- The parentheses only group the join: its names are in scope here.
  | .nestedJoin inner _ => scopeOf inner
  | .derived _ subquery named => do
      return (← derivedScope subquery named).toList
  | .reshaped _ => return []
  | .computed _ _ => return []

def scopeOfJoins : List (Join Query) → Except Rejection TableScope
  | [] => return []
  | .mk relation _ :: rest => do
      let here ← scopeOfFactor relation
      return here ++ (← scopeOfJoins rest)

def scopeOf : TableWithJoins Query → Except Rejection TableScope
  | .mk relation joins => do
      let here ← scopeOfFactor relation
      return here ++ (← scopeOfJoins joins)
end

def scope : List (TableWithJoins Query) → Except Rejection TableScope
  | [] => return []
  | table :: rest => do
      let here ← scopeOf context derivedScope table
      return here ++ (← scope rest)

/-- The columns and read-protected names a derived table exposes. -/
abbrev Exposed := Columns × ReadColumns

/-- Carries one bare reference out of a derived table, under the name it is given. -/
def carry (inner : TableScope) (name : String) (idents : List Ident) (exposed : Exposed) :
    Exposed :=
  (match transformOf inner idents with
    | some transform => exposed.1.put name transform
    | none => exposed.1,
   if resolvesRead inner idents then exposed.2 ++ [name] else exposed.2)

def carryTable (exposed : Exposed) (table : ScopedTable) : Exposed :=
  (table.columns.entries.foldl (fun columns entry => columns.put entry.1 entry.2) exposed.1,
    exposed.2 ++ table.readColumns)

def carryItem (inner : TableScope) (exposed : Exposed) : SelectItem Query → Exposed
  | .unnamed expr =>
    match columnIdents expr with
    | some idents =>
      match idents.getLast? with
      | some last => carry inner (normalize last) idents exposed
      | none => exposed
    | none => exposed
  | .aliased expr name =>
    match columnIdents expr with
    | some idents => carry inner (normalize name) idents exposed
    | none => exposed
  | .wildcard => inner.foldl carryTable exposed
  | .qualifiedWildcard name => (inner.filter (·.matches name)).foldl carryTable exposed

/-- The protected columns a derived table exposes to the query around it. -/
def derivedScopeNode (subquery : QueryNode Query Statement) (named : Option TableAlias) :
    Except Rejection (Option ScopedTable) :=
  match subquery.body with
  | .select select => do
      let inner ← scope context derivedScope select.fromTables
      let (columns, readColumns) := select.projection.foldl (carryItem inner) (.empty, [])
      if columns.entries.isEmpty && readColumns.isEmpty then return none
      return some ⟨Seal.aliasName named, (Seal.aliasName named).toList, columns, readColumns⟩
  | _ => return none

end ScopeOf

section Joins
variable (inScope : TableScope)

def rewriteJoinOperator (rewrite : Expr Query → Pass (Expr Query × Bool)) :
    JoinOperator Query → Pass (JoinOperator Query × Bool)
  | .constrained kind (.on condition) => do
      let (condition, changed) ← rewrite condition
      return (.constrained kind (.on condition), changed)
  | other => return (other, false)

mutual
def joinConditionsOfFactor : TableFactor Query → Pass (TableFactor Query × Bool)
  | .nestedJoin inner named => do
      let (inner, changed) ← joinConditionsOf inner
      return (.nestedJoin inner named, changed)
  | other => return (other, false)

def joinConditionsOfJoins : List (Join Query) → Pass (List (Join Query) × Bool)
  | [] => return ([], false)
  | .mk relation operator :: rest => do
      let (relation, first) ← joinConditionsOfFactor relation
      let (operator, second) ← rewriteJoinOperator (rewriteSelection context inScope) operator
      let (rest, third) ← joinConditionsOfJoins rest
      return (.mk relation operator :: rest, first || second || third)

def joinConditionsOf : TableWithJoins Query → Pass (TableWithJoins Query × Bool)
  | .mk relation joins => do
      let (relation, changed) ← joinConditionsOfFactor relation
      let (joins, later) ← joinConditionsOfJoins joins
      return (.mk relation joins, changed || later)
end

/-- The `ON` conditions of a relation list, parenthesised joins included. -/
def rewriteJoinConditions :
    List (TableWithJoins Query) → Pass (List (TableWithJoins Query) × Bool) :=
  rewriteEach (joinConditionsOf context inScope)

end Joins

section Derived
variable (rewriteQuery : Query → Pass (Query × Bool))

mutual
def derivedTablesOfFactor : TableFactor Query → Pass (TableFactor Query × Bool)
  | .derived lateral subquery named => do
      let (subquery, changed) ← rewriteQuery subquery
      return (.derived lateral subquery named, changed)
  | .nestedJoin inner named => do
      let (inner, changed) ← derivedTablesOf inner
      return (.nestedJoin inner named, changed)
  | other => return (other, false)

def derivedTablesOfJoins : List (Join Query) → Pass (List (Join Query) × Bool)
  | [] => return ([], false)
  | .mk relation operator :: rest => do
      let (relation, changed) ← derivedTablesOfFactor relation
      let (rest, later) ← derivedTablesOfJoins rest
      return (.mk relation operator :: rest, changed || later)

def derivedTablesOf : TableWithJoins Query → Pass (TableWithJoins Query × Bool)
  | .mk relation joins => do
      let (relation, changed) ← derivedTablesOfFactor relation
      let (joins, later) ← derivedTablesOfJoins joins
      return (.mk relation joins, changed || later)
end

/-- The derived tables of a relation list, each against its own scope. -/
def rewriteDerivedTables :
    List (TableWithJoins Query) → Pass (List (TableWithJoins Query) × Bool) :=
  rewriteEach (derivedTablesOf rewriteQuery)

def sweepJoin : Join Query → Pass (Join Query × Bool)
  | .mk relation operator => do
      let (operator, changed) ← rewriteJoinOperator (rewriteNestedQueries rewriteQuery) operator
      return (.mk relation operator, changed)

/-- Sweeps the join constraints of a select for nested queries: those of its own joins,
not of a parenthesised one. -/
def sweepTable : TableWithJoins Query → Pass (TableWithJoins Query × Bool)
  | .mk relation joins => do
      let (joins, changed) ← rewriteEach (sweepJoin rewriteQuery) joins
      return (.mk relation joins, changed)

def sweepItem : SelectItem Query → Pass (SelectItem Query × Bool)
  | .unnamed expr => do
      let (expr, changed) ← rewriteNestedQueries rewriteQuery expr
      return (.unnamed expr, changed)
  | .aliased expr name => do
      let (expr, changed) ← rewriteNestedQueries rewriteQuery expr
      return (.aliased expr name, changed)
  | other => return (other, false)

def sweepGroupBy : GroupBy Query → Pass (GroupBy Query × Bool)
  | .expressions exprs => do
      let (exprs, changed) ← rewriteEach (rewriteNestedQueries rewriteQuery) exprs
      return (.expressions exprs, changed)
  | .all => return (.all, false)

end Derived

def reportComputed (inScope : TableScope) (items : List (SelectItem Query)) :
    Except Rejection Unit :=
  items.forM fun item =>
    match computedProtectedColumn inScope item with
    | some (column, expr) => context.unprotected (.computedColumn column (exprShape expr))
    | none => .ok ()

section Nodes
variable (walks : Walks Query Statement)

def rewriteSelect (select : Select Query) : Pass (Select Query × Bool) := do
  let inScope ← scope context walks.derivedScope select.fromTables
  let (fromTables, joins) ← rewriteJoinConditions context inScope select.fromTables
  let (fromTables, derived) ← rewriteDerivedTables walks.rewriteQuery fromTables
  let (selection, filtered) ←
    rewriteOption (rewritePredicate walks.rewriteQuery context inScope) select.selection
  let (having, grouped) ←
    rewriteOption (rewritePredicate walks.rewriteQuery context inScope) select.having
  reportComputed context inScope select.projection
  let (projection, projected) ← rewriteEach (sweepItem walks.rewriteQuery) select.projection
  let (groupBy, keyed) ← sweepGroupBy walks.rewriteQuery select.groupBy
  let (fromTables, swept) ← rewriteEach (sweepTable walks.rewriteQuery) fromTables
  return ({ select with projection, fromTables, selection, groupBy, having },
    joins || derived || filtered || grouped || projected || keyed || swept)

def rewriteSetExpr : SetExpr Query Statement → Pass (SetExpr Query Statement × Bool)
  | .select select => do
      let (select, changed) ← rewriteSelect context walks select
      return (.select select, changed)
  | .query query => do
      let (query, changed) ← walks.rewriteQuery query
      return (.query query, changed)
  | .setOperation left right => do
      let (left, changed) ← rewriteSetExpr left
      let (right, later) ← rewriteSetExpr right
      return (.setOperation left right, changed || later)
  -- A data-modifying query.
  | .insert statement => do
      let (statement, changed) ← walks.rewriteStatement statement
      return (.insert statement, changed)
  | .update statement => do
      let (statement, changed) ← walks.rewriteStatement statement
      return (.update statement, changed)
  | .values rows => return (.values rows, false)
  | .table schemaName tableName => return (.table schemaName tableName, false)

def rewriteCte (cte : Cte Query) : Pass (Cte Query × Bool) := do
  let (query, changed) ← walks.rewriteQuery cte.query
  return ({ cte with query }, changed)

def rewriteQueryNode (query : QueryNode Query Statement) :
    Pass (QueryNode Query Statement × Bool) := do
  let (ctes, first) ← rewriteEach (rewriteCte walks) query.ctes
  let (body, second) ← rewriteSetExpr context walks query.body
  let (orderBy, third) ← rewriteEach (rewriteNestedQueries walks.rewriteQuery) query.orderBy
  return ({ query with ctes, body, orderBy }, first || second || third)

end Nodes

section Copied
variable (copiedTables : Query → List String → Except Rejection (List String))

/-- Adds a table to the ones reported, once however often the query mentions it. -/
def recordCopiedTable (name : ObjectName) (found : List String) :
    Except Rejection (List String) := do
  if ← context.readsProtected name then
    return if found.contains (context.display name) then found else found ++ [context.display name]
  return found

mutual
def copiedFromFactor : TableFactor Query → List String → Except Rejection (List String)
  | .table name _ _, found => recordCopiedTable context name found
  | .derived _ subquery _, found => copiedTables subquery found
  | .nestedJoin inner _, found => copiedFromTable inner found
  | .reshaped inner, found => copiedFromFactor inner found
  | .computed _ _, found => return found

def copiedFromJoins : List (Join Query) → List String → Except Rejection (List String)
  | [], found => return found
  | .mk relation _ :: rest, found => do copiedFromJoins rest (← copiedFromFactor relation found)

def copiedFromTable : TableWithJoins Query → List String → Except Rejection (List String)
  | .mk relation joins, found => do copiedFromJoins joins (← copiedFromFactor relation found)
end

def copiedInSetExpr : SetExpr Query Statement → List String → Except Rejection (List String)
  | .select select, found =>
    select.fromTables.foldlM (fun found table => copiedFromTable context copiedTables table found)
      found
  | .query query, found => copiedTables query found
  | .setOperation left right, found => do copiedInSetExpr right (← copiedInSetExpr left found)
  | .table schemaName (some tableName), found =>
    recordCopiedTable context ((schemaName.toList ++ [tableName]).map Ident.plain) found
  | .table _ none, found => return found
  -- Their rows are not what COPY streams.
  | .insert _, found => return found
  | .update _, found => return found
  | .values _, found => return found

def copiedTablesNode (query : QueryNode Query Statement) (found : List String) :
    Except Rejection (List String) := do
  let found ← query.ctes.foldlM (fun found cte => copiedTables cte.query found) found
  copiedInSetExpr context copiedTables query.body found

end Copied

section Growth
variable {context : Context} {inScope : TableScope} {rewriteQuery : Query → Pass (Query × Bool)}

theorem grows_rewriteJoinOperator {rewrite : Expr Query → Pass (Expr Query × Bool)}
    (conditions : ∀ condition, Grows (rewrite condition)) (operator : JoinOperator Query) :
    Grows (rewriteJoinOperator rewrite operator) := by
  unfold rewriteJoinOperator
  split
  · exact (conditions _).bind fun _ => grows_pure _
  · exact grows_pure _

mutual
theorem grows_joinConditionsOfFactor :
    ∀ factor : TableFactor Query, Grows (joinConditionsOfFactor context inScope factor)
  | .nestedJoin inner _ => (grows_joinConditionsOf inner).bind fun _ => grows_pure _
  | .table _ _ _ => grows_pure _
  | .derived _ _ _ => grows_pure _
  | .reshaped _ => grows_pure _
  | .computed _ _ => grows_pure _

theorem grows_joinConditionsOfJoins :
    ∀ joins : List (Join Query), Grows (joinConditionsOfJoins context inScope joins)
  | [] => grows_pure _
  | .mk relation operator :: rest =>
    (grows_joinConditionsOfFactor relation).bind fun _ =>
      (grows_rewriteJoinOperator grows_rewriteSelection operator).bind fun _ =>
        (grows_joinConditionsOfJoins rest).bind fun _ => grows_pure _

theorem grows_joinConditionsOf :
    ∀ table : TableWithJoins Query, Grows (joinConditionsOf context inScope table)
  | .mk relation joins =>
    (grows_joinConditionsOfFactor relation).bind fun _ =>
      (grows_joinConditionsOfJoins joins).bind fun _ => grows_pure _
end

mutual
theorem grows_derivedTablesOfFactor (queries : ∀ query, Grows (rewriteQuery query)) :
    ∀ factor : TableFactor Query, Grows (derivedTablesOfFactor rewriteQuery factor)
  | .derived _ subquery _ => (queries subquery).bind fun _ => grows_pure _
  | .nestedJoin inner _ => (grows_derivedTablesOf queries inner).bind fun _ => grows_pure _
  | .table _ _ _ => grows_pure _
  | .reshaped _ => grows_pure _
  | .computed _ _ => grows_pure _

theorem grows_derivedTablesOfJoins (queries : ∀ query, Grows (rewriteQuery query)) :
    ∀ joins : List (Join Query), Grows (derivedTablesOfJoins rewriteQuery joins)
  | [] => grows_pure _
  | .mk relation _ :: rest =>
    (grows_derivedTablesOfFactor queries relation).bind fun _ =>
      (grows_derivedTablesOfJoins queries rest).bind fun _ => grows_pure _

theorem grows_derivedTablesOf (queries : ∀ query, Grows (rewriteQuery query)) :
    ∀ table : TableWithJoins Query, Grows (derivedTablesOf rewriteQuery table)
  | .mk relation joins =>
    (grows_derivedTablesOfFactor queries relation).bind fun _ =>
      (grows_derivedTablesOfJoins queries joins).bind fun _ => grows_pure _
end

theorem grows_sweepTable (queries : ∀ query, Grows (rewriteQuery query)) :
    ∀ table : TableWithJoins Query, Grows (sweepTable rewriteQuery table)
  | .mk _ joins => by
      refine (grows_rewriteEach joins ?_).bind fun _ => grows_pure _
      rintro ⟨relation, operator⟩ _
      exact (grows_rewriteJoinOperator (grows_rewriteNestedQueries queries) operator).bind
        fun _ => grows_pure _

theorem grows_sweepItem (queries : ∀ query, Grows (rewriteQuery query)) (item : SelectItem Query) :
    Grows (sweepItem rewriteQuery item) := by
  cases item with
  | unnamed expr => exact (grows_rewriteNestedQueries queries expr).bind fun _ => grows_pure _
  | aliased expr name => exact (grows_rewriteNestedQueries queries expr).bind fun _ => grows_pure _
  | qualifiedWildcard name => exact grows_pure _
  | wildcard => exact grows_pure _

theorem grows_sweepGroupBy (queries : ∀ query, Grows (rewriteQuery query))
    (groupBy : GroupBy Query) : Grows (sweepGroupBy rewriteQuery groupBy) := by
  cases groupBy with
  | expressions exprs =>
    exact (grows_rewriteEach exprs fun expr _ => grows_rewriteNestedQueries queries expr).bind
      fun _ => grows_pure _
  | all => exact grows_pure _

variable {walks : Walks Query Statement}

theorem grows_rewriteSelect (queries : ∀ query, Grows (walks.rewriteQuery query))
    (select : Select Query) : Grows (rewriteSelect context walks select) :=
  (grows_lift _).bind fun _ =>
    (grows_rewriteEach _ fun table _ => grows_joinConditionsOf table).bind fun _ =>
      (grows_rewriteEach _ fun table _ => grows_derivedTablesOf queries table).bind fun _ =>
        (grows_rewriteOption _ fun expr _ => grows_rewritePredicate queries expr).bind fun _ =>
          (grows_rewriteOption _ fun expr _ => grows_rewritePredicate queries expr).bind fun _ =>
            (grows_lift _).bind fun _ =>
              (grows_rewriteEach _ fun item _ => grows_sweepItem queries item).bind fun _ =>
                (grows_sweepGroupBy queries _).bind fun _ =>
                  (grows_rewriteEach _ fun table _ => grows_sweepTable queries table).bind
                    fun _ => grows_pure _

theorem grows_rewriteSetExpr (queries : ∀ query, Grows (walks.rewriteQuery query))
    (statements : ∀ statement, Grows (walks.rewriteStatement statement))
    (body : SetExpr Query Statement) : Grows (rewriteSetExpr context walks body) := by
  induction body with
  | select select => exact (grows_rewriteSelect queries select).bind fun _ => grows_pure _
  | query query => exact (queries query).bind fun _ => grows_pure _
  | setOperation left right leftIH rightIH =>
    exact leftIH.bind fun _ => rightIH.bind fun _ => grows_pure _
  | values rows => exact grows_pure _
  | insert statement => exact (statements statement).bind fun _ => grows_pure _
  | update statement => exact (statements statement).bind fun _ => grows_pure _
  | table schemaName tableName => exact grows_pure _

theorem grows_rewriteQueryNode (queries : ∀ query, Grows (walks.rewriteQuery query))
    (statements : ∀ statement, Grows (walks.rewriteStatement statement))
    (query : QueryNode Query Statement) : Grows (rewriteQueryNode context walks query) :=
  (grows_rewriteEach _ fun cte _ => (queries cte.query).bind fun _ => grows_pure _).bind fun _ =>
    (grows_rewriteSetExpr queries statements _).bind fun _ =>
      (grows_rewriteEach _ fun expr _ => grows_rewriteNestedQueries queries expr).bind
        fun _ => grows_pure _

end Growth

end Dbsec.QueryWalk
