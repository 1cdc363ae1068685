import Dbsec.QueryWalk

/-! What each statement kind does about protected columns: `rewrite_statement` and the
functions it dispatches to in proxy/src/encrypt/statement.rs. The walks of one nesting
depth are tied to those of the depth below in `walks`. -/
namespace Dbsec.Statements
open Sql Params Unprotected Catalog Scope Accumulate Rewrite Predicate Seal QueryWalk

section Nodes
variable {Query Statement : Type} (context : Context) (walks : Walks Query Statement)

/-- The conflict action's own scope: the target under its alias. -/
def insertScope (insert : Sql.Insert Query Statement) (columns : Columns) : TableScope :=
  [⟨insert.tableAlias.map normalize, insert.tableName.map normalize, columns,
    context.catalog.readColumnsOf insert.tableName⟩]

def onInsertRow (insert : Sql.Insert Query Statement) : AssignmentRow :=
  match insert.on with
  | some (.onConflict target (.doUpdate assignments _)) =>
    conflictRow context insert target assignments
  | some (.duplicateKeyUpdate assignments) => conflictRow context insert none assignments
  | _ => .known .none

def rewriteOnInsert (scope : AssignmentScope) (inScope : TableScope) :
    OnInsert Query → Pass (OnInsert Query × Bool)
  | .onConflict target (.doUpdate assignments selection) => do
      let (assignments, changed) ← sealAssignments context scope assignments
      let (selection, later) ←
        rewriteOption (rewritePredicate walks.rewriteQuery context inScope) selection
      return (.onConflict target (.doUpdate assignments selection), changed || later)
  | .duplicateKeyUpdate assignments => do
      let (assignments, changed) ← sealAssignments context scope assignments
      return (.duplicateKeyUpdate assignments, changed)
  | .onConflict target .doNothing => return (.onConflict target .doNothing, false)

/-- The VALUES list of an INSERT into a protected table; without a column list its
values cannot be matched to columns. -/
def rewriteProposed (insert : Sql.Insert Query Statement) (columns : Columns) :
    Pass (Sql.Insert Query Statement × SealedValues) :=
  if insert.columns.isEmpty then do
    context.unprotected (.noColumnList insert.tableName)
    return (insert, .none)
  else rewriteInsertValues context insert columns

def rewriteInsert (insert : Sql.Insert Query Statement) :
    Pass (Sql.Insert Query Statement × Bool) := do
  match ← context.table insert.tableName with
  | none => return (insert, false)
  | some columns =>
    let (insert, sealedValues) ← rewriteProposed context insert columns
    let scope : AssignmentScope :=
      ⟨onInsertRow context insert, columns, sealedValues.columns⟩
    let (on, later) ←
      rewriteOption (rewriteOnInsert context walks scope (insertScope context insert columns))
        insert.on
    return ({ insert with on }, sealedValues.changed || later)

def updateColumns (table : TableWithJoins Query) : Except Rejection (Option Columns) :=
  match table.relation with
  | .table name _ _ => context.table name
  | _ => .ok none

def sealUpdate (update : Update Query) : Pass (List (Assignment Query) × Bool) := do
  match ← updateColumns context update.table with
  | none => return (update.assignments, false)
  | some columns =>
    sealAssignments context ⟨updateRow context update columns, columns, []⟩ update.assignments

def sweepAssignment (assignment : Assignment Query) : Pass (Assignment Query × Bool) := do
  let (value, changed) ← rewriteNestedQueries walks.rewriteQuery assignment.value
  return ({ assignment with value }, changed)

/-- Seals the assignments, then rewrites every predicate and nested query. -/
def rewriteUpdate (update : Update Query) : Pass (Update Query × Bool) := do
  let (assignments, assigned) ← sealUpdate context update
  let inScope ← scope context walks.derivedScope (update.table :: update.fromTable.toList)
  let (table, first) ← joinConditionsOf context inScope update.table
  let (fromTable, second) ← rewriteOption (joinConditionsOf context inScope) update.fromTable
  let (selection, filtered) ←
    rewriteOption (rewritePredicate walks.rewriteQuery context inScope) update.selection
  let (assignments, swept) ← rewriteEach (sweepAssignment walks) assignments
  let (table, third) ← derivedTablesOf walks.rewriteQuery table
  let (fromTable, fourth) ← rewriteOption (derivedTablesOf walks.rewriteQuery) fromTable
  return ({ update with table, assignments, fromTable, selection },
    assigned || first || second || filtered || swept || third || fourth)

def rewriteDelete (delete : Delete Query) : Pass (Delete Query × Bool) := do
  let inScope ← scope context walks.derivedScope (delete.fromTables ++ delete.usingTables)
  let (selection, filtered) ←
    rewriteOption (rewritePredicate walks.rewriteQuery context inScope) delete.selection
  let (fromTables, first) ← rewriteJoinConditions context inScope delete.fromTables
  let (usingTables, second) ← rewriteJoinConditions context inScope delete.usingTables
  let (fromTables, third) ← rewriteDerivedTables walks.rewriteQuery fromTables
  let (usingTables, fourth) ← rewriteDerivedTables walks.rewriteQuery usingTables
  return ({ delete with fromTables, usingTables, selection },
    filtered || first || second || third || fourth)

/-- `COPY table`: reading asks what the read path protects, writing what would have
needed sealing. -/
def refuseCopyTable (name : ObjectName) (outward : Bool) : Except Rejection Unit := do
  let isProtected ←
    if outward then context.readsProtected name else (·.isSome) <$> context.table name
  if isProtected then context.unprotected (.copy name outward)

def reportCopied (query : QueryNode Query Statement) : Except Rejection Unit := do
  let tables ← copiedTablesNode context walks.copiedTables query []
  tables.forM fun table => context.unprotected (.copyQuery table)

def rewriteCopyQuery (query : QueryNode Query Statement) (outward : Bool) :
    Pass (QueryNode Query Statement × Bool) := do
  reportCopied context walks query
  if outward then rewriteQueryNode context walks query else return (query, false)

/-- A write the rewrite declines to handle, into a table it would have to seal for. -/
def refuseWrite (name : ObjectName) (shape : String) : Except Rejection Unit := do
  if (← context.table name).isSome then context.unprotected (.unsupported name shape)

def factorName : TableFactor Query → Option ObjectName
  | .table name _ _ => some name
  | _ => none

def refuseMerge (into : TableFactor Query) : Except Rejection Unit :=
  match factorName into with
  | some name => refuseWrite context name "MERGE"
  | none => .ok ()

def writeTargetNode : StatementNode Query Statement → Option ObjectName
  | .insert insert => some insert.tableName
  | .update update => factorName update.table.relation
  | .merge into _ => factorName into
  | _ => none

def refusePrepare (statement : Statement) : Except Rejection Unit :=
  match walks.writeTarget statement with
  | some name => refuseWrite context name "PREPARE"
  | none => .ok ()

def rewriteStatementNode :
    StatementNode Query Statement → Pass (StatementNode Query Statement × Bool)
  | .insert insert => do
      let (insert, changed) ← rewriteInsert context walks insert
      return (.insert insert, changed)
  | .update update => do
      let (update, changed) ← rewriteUpdate context walks update
      return (.update update, changed)
  | .query query => do
      let (query, changed) ← rewriteQueryNode context walks query
      return (.query query, changed)
  | .delete delete => do
      let (delete, changed) ← rewriteDelete context walks delete
      return (.delete delete, changed)
  | .copyTable name columns outward => do
      refuseCopyTable context name outward
      return (.copyTable name columns outward, false)
  | .copyQuery query outward => do
      let (query, changed) ← rewriteCopyQuery context walks query outward
      return (.copyQuery query outward, changed)
  | .merge into actions => do
      refuseMerge context into
      return (.merge into actions, false)
  | .prepare name statement => do
      refusePrepare context walks statement
      return (.prepare name statement, false)
  -- The fallback arm: no rewrite and no signal.
  | .explain analyze statement => return (.explain analyze statement, false)
  | .createTableAs name query => return (.createTableAs name query, false)
  | .unwalked keyword => return (.unwalked keyword, false)

end Nodes

def walks (context : Context) : (depth : Nat) → Walks (Sql.Query depth) (Sql.Statement depth)
  | 0 => ⟨nofun, nofun, nofun, nofun, nofun⟩
  | depth + 1 =>
    { rewriteQuery := rewriteQueryNode context (walks context depth)
      rewriteStatement := rewriteStatementNode context (walks context depth)
      derivedScope := derivedScopeNode context (walks context depth).derivedScope
      copiedTables := copiedTablesNode context (walks context depth).copiedTables
      writeTarget := writeTargetNode }

/-- `QueryRewriter::rewrite_statement`. -/
def rewriteStatement (context : Context) {depth : Nat} (statement : Sql.Statement depth) :
    Pass (Sql.Statement depth × Bool) :=
  (walks context depth).rewriteStatement statement

section Growth
variable {Query Statement : Type} {context : Context} {walks : Walks Query Statement}

theorem grows_rewriteOnInsert (queries : ∀ query, Grows (walks.rewriteQuery query))
    (scope : AssignmentScope) (inScope : TableScope) (on : OnInsert Query) :
    Grows (rewriteOnInsert context walks scope inScope on) := by
  unfold rewriteOnInsert
  split
  · exact (grows_sealAssignments _).bind fun _ =>
      (grows_rewriteOption _ fun expr _ => grows_rewritePredicate queries expr).bind
        fun _ => grows_pure _
  · exact (grows_sealAssignments _).bind fun _ => grows_pure _
  · exact grows_pure _

theorem grows_rewriteProposed (insert : Sql.Insert Query Statement) (columns : Columns) :
    Grows (rewriteProposed context insert columns) := by
  unfold rewriteProposed
  split
  · exact (grows_lift _).bind fun _ => grows_pure _
  · exact grows_rewriteInsertValues _ _

theorem grows_rewriteInsert (queries : ∀ query, Grows (walks.rewriteQuery query))
    (insert : Sql.Insert Query Statement) : Grows (rewriteInsert context walks insert) := by
  apply Grows.bind (grows_lift _)
  intro found
  split
  · exact grows_pure _
  · exact (grows_rewriteProposed _ _).bind fun _ =>
      (grows_rewriteOption _ fun on _ => grows_rewriteOnInsert queries _ _ on).bind
        fun _ => grows_pure _

theorem grows_sealUpdate (update : Update Query) : Grows (sealUpdate context update) := by
  apply Grows.bind (grows_lift _)
  intro found
  split
  · exact grows_pure _
  · exact grows_sealAssignments _

theorem grows_rewriteUpdate (queries : ∀ query, Grows (walks.rewriteQuery query))
    (update : Update Query) : Grows (rewriteUpdate context walks update) :=
  (grows_sealUpdate _).bind fun _ =>
    (grows_lift _).bind fun _ =>
      (grows_joinConditionsOf _).bind fun _ =>
        (grows_rewriteOption _ fun table _ => grows_joinConditionsOf table).bind fun _ =>
          (grows_rewriteOption _ fun expr _ => grows_rewritePredicate queries expr).bind fun _ =>
            (grows_rewriteEach _ fun _ _ =>
              (grows_rewriteNestedQueries queries _).bind fun _ => grows_pure _).bind fun _ =>
              (grows_derivedTablesOf queries _).bind fun _ =>
                (grows_rewriteOption _ fun table _ => grows_derivedTablesOf queries table).bind
                  fun _ => grows_pure _

theorem grows_rewriteDelete (queries : ∀ query, Grows (walks.rewriteQuery query))
    (delete : Delete Query) : Grows (rewriteDelete context walks delete) :=
  (grows_lift _).bind fun _ =>
    (grows_rewriteOption _ fun expr _ => grows_rewritePredicate queries expr).bind fun _ =>
      (grows_rewriteEach _ fun table _ => grows_joinConditionsOf table).bind fun _ =>
        (grows_rewriteEach _ fun table _ => grows_joinConditionsOf table).bind fun _ =>
          (grows_rewriteEach _ fun table _ => grows_derivedTablesOf queries table).bind fun _ =>
            (grows_rewriteEach _ fun table _ => grows_derivedTablesOf queries table).bind
              fun _ => grows_pure _

theorem grows_rewriteCopyQuery (queries : ∀ query, Grows (walks.rewriteQuery query))
    (statements : ∀ statement, Grows (walks.rewriteStatement statement))
    (query : QueryNode Query Statement) (outward : Bool) :
    Grows (rewriteCopyQuery context walks query outward) := by
  apply Grows.bind (grows_lift _)
  intro _
  split
  · exact grows_rewriteQueryNode queries statements query
  · exact grows_pure _

theorem grows_rewriteStatementNode (queries : ∀ query, Grows (walks.rewriteQuery query))
    (statements : ∀ statement, Grows (walks.rewriteStatement statement))
    (statement : StatementNode Query Statement) :
    Grows (rewriteStatementNode context walks statement) := by
  cases statement with
  | insert insert => exact (grows_rewriteInsert queries insert).bind fun _ => grows_pure _
  | update update => exact (grows_rewriteUpdate queries update).bind fun _ => grows_pure _
  | query query =>
    exact (grows_rewriteQueryNode queries statements query).bind fun _ => grows_pure _
  | delete delete => exact (grows_rewriteDelete queries delete).bind fun _ => grows_pure _
  | copyTable name columns outward => exact (grows_lift _).bind fun _ => grows_pure _
  | copyQuery query outward =>
    exact (grows_rewriteCopyQuery queries statements query outward).bind fun _ => grows_pure _
  | merge into actions => exact (grows_lift _).bind fun _ => grows_pure _
  | prepare name statement => exact (grows_lift _).bind fun _ => grows_pure _
  | explain analyze statement => exact grows_pure _
  | createTableAs name query => exact grows_pure _
  | unwalked keyword => exact grows_pure _

end Growth

theorem walks_grow (context : Context) (depth : Nat) :
    (∀ query, Grows ((walks context depth).rewriteQuery query)) ∧
      ∀ statement, Grows ((walks context depth).rewriteStatement statement) := by
  induction depth with
  | zero => exact ⟨nofun, nofun⟩
  | succ depth ih =>
    exact ⟨grows_rewriteQueryNode ih.1 ih.2, grows_rewriteStatementNode ih.1 ih.2⟩

/-- A transform that marks what it seals and indexes, to evaluate walks with. -/
def markingTransform (identity : Nat) (supportsSearch : Bool) : FieldTransform :=
  ⟨identity, .bytea, fun plaintext row => .ok (0xAA :: ((row.map (·.bytes)).getD [] ++ plaintext)),
    fun plaintext => .ok (some (0xBB :: plaintext)), supportsSearch⟩

/-- A session with untouched settings over the given policy columns. -/
def plainContext (columns : List ProtectedColumn) (onUnprotected : OnUnprotected) : Context :=
  ⟨.new columns onUnprotected, none, fun name => ".".intercalate (name.map (·.value)), true, false⟩

/-- `public.users.email`, sealed and searchable. -/
def usersEmail : ProtectedColumn := ⟨"public", "users", "email", some (markingTransform 0 true)⟩

end Dbsec.Statements
