import Dbsec.Statements

/-! What executing a statement stores: the PostgreSQL side of the write path, stated
from its documented behaviour and not from the rewriter. A data-modifying query runs
where a WITH list, the body of a query, a branch of a set operation or a COPY source
puts it; PostgreSQL refuses one in a subquery, in a derived table and in the source of
an INSERT, so those positions store nothing. EXPLAIN runs its statement only under
ANALYZE, and a prepared statement is run by a later EXECUTE. -/
namespace Dbsec.Writes
open Sql Catalog Statements

/-- One value stored into one column. The column is absent where the statement leaves
the choice of columns to the table, the value where it is no expression of the
statement (a row of a query or of a COPY stream). In a conflict action `proposed` is
what the same INSERT proposes for the column, if it proposes anything. -/
structure Write where
  Query : Type
  table : ObjectName
  column : Option Ident
  value : Option (Expr Query)
  proposed : Option (List (Expr Query))

section Nodes
variable {Query Statement : Type}

def listedWrites (table : ObjectName) : List Ident → List (Expr Query) → List Write
  | ident :: idents, value :: rest =>
    ⟨Query, table, some ident, some value, none⟩ :: listedWrites table idents rest
  | _, _ => []

def rowWrites (table : ObjectName) (idents : List Ident) (row : List (Expr Query)) : List Write :=
  if idents.isEmpty then row.map fun value => ⟨Query, table, none, some value, none⟩
  else listedWrites table idents row

def streamedWrites (Query : Type) (table : ObjectName) (idents : List Ident) : List Write :=
  if idents.isEmpty then [⟨Query, table, none, none, none⟩]
  else idents.map fun ident => ⟨Query, table, some ident, none, none⟩

def sourceWrites (table : ObjectName) (idents : List Ident) :
    Option (QueryNode Query Statement) → List Write
  | none => []
  | some source =>
    match source.body with
    | .values rows => rows.flatMap (rowWrites table idents)
    | _ => streamedWrites Query table idents

def columnValues (name : String) : List Ident → List (Expr Query) → List (Expr Query)
  | ident :: idents, value :: rest =>
    if normalize ident = name then value :: columnValues name idents rest
    else columnValues name idents rest
  | _, _ => []

def proposedFor (insert : Sql.Insert Query Statement) (ident : Ident) :
    Option (List (Expr Query)) :=
  match insert.source with
  | none => none
  | some source =>
    match source.body with
    | .values rows =>
      if normalize ident ∈ insert.columns.map normalize then
        some (rows.flatMap (columnValues (normalize ident) insert.columns))
      else none
    | _ => none

/-- The value a row-wise assignment gives to its target at `position`. -/
def elementAt (arity : Nat) (value : Expr Query) (position : Nat) : Option (Expr Query) :=
  match value with
  | .tuple elements => if elements.length = arity then elements[position]? else none
  | .unary .nested inner => if arity = 1 then some inner else none
  | _ => none

def assigned (target : AssignmentTarget) (value : Expr Query) :
    List (Ident × Option (Expr Query)) :=
  match target with
  | .columnName name => name.getLast?.toList.map fun ident => (ident, some value)
  | .tuple names =>
    names.zipIdx.filterMap fun entry =>
      entry.1.getLast?.map fun ident => (ident, elementAt names.length value entry.2)

def assignmentWrites (table : ObjectName) (proposed : Ident → Option (List (Expr Query)))
    (assignment : Assignment Query) : List Write :=
  (assigned assignment.target assignment.value).map fun entry =>
    ⟨Query, table, some entry.1, entry.2, proposed entry.1⟩

def conflictAssignments : Option (OnInsert Query) → List (Assignment Query)
  | some (.onConflict _ (.doUpdate assignments _)) => assignments
  | some (.duplicateKeyUpdate assignments) => assignments
  | some (.onConflict _ .doNothing) => []
  | none => []

def conflictWrites (insert : Sql.Insert Query Statement) : List Write :=
  (conflictAssignments insert.on).flatMap (assignmentWrites insert.tableName (proposedFor insert))

def insertWrites (insert : Sql.Insert Query Statement) : List Write :=
  sourceWrites insert.tableName insert.columns insert.source ++ conflictWrites insert

def updateWrites (update : Update Query) : List Write :=
  match factorName update.table.relation with
  | some name => update.assignments.flatMap (assignmentWrites name fun _ => none)
  | none => []

def mergeWrites (into : TableFactor Query) (actions : List (MergeAction Query)) : List Write :=
  match factorName into with
  | some name => actions.flatMap fun
      | .update assignments => assignments.flatMap (assignmentWrites name fun _ => none)
      | .insert columns rows => rows.flatMap (rowWrites name columns)
      | .delete => []
  | none => []

/-- The writes of the queries and statements one level down. -/
structure Effects (Query Statement : Type) where
  ofQuery : Query → List Write
  /-- A statement as the body of a query, which is an INSERT or an UPDATE. -/
  ofBody : Statement → List Write
  ofStatement : Statement → List Write

variable (effects : Effects Query Statement)

def setExprWrites : SetExpr Query Statement → List Write
  | .query query => effects.ofQuery query
  | .setOperation left right => setExprWrites left ++ setExprWrites right
  | .insert statement => effects.ofBody statement
  | .update statement => effects.ofBody statement
  | .select _ => []
  | .values _ => []
  | .table _ _ => []

def queryWrites (query : QueryNode Query Statement) : List Write :=
  query.ctes.flatMap (fun cte => effects.ofQuery cte.query) ++ setExprWrites effects query.body

def bodyWrites : StatementNode Query Statement → List Write
  | .insert insert => insertWrites insert
  | .update update => updateWrites update
  | _ => []

def statementWrites : StatementNode Query Statement → List Write
  | .insert insert => insertWrites insert
  | .update update => updateWrites update
  | .query query => queryWrites effects query
  | .delete _ => []
  | .copyTable name columns outward => if outward then [] else streamedWrites Query name columns
  | .copyQuery query outward => if outward then queryWrites effects query else []
  | .merge into actions => mergeWrites into actions
  | .prepare _ statement => effects.ofStatement statement
  | .explain analyze statement => if analyze then effects.ofStatement statement else []
  | .createTableAs _ query => queryWrites effects query
  | .unwalked _ => []

/-- The writes a statement carries inside another kind of statement. -/
def wrappedWrites : StatementNode Query Statement → List Write
  | .prepare _ statement => effects.ofStatement statement
  | .explain analyze statement => if analyze then effects.ofStatement statement else []
  | .createTableAs _ query => queryWrites effects query
  | _ => []

end Nodes

def effects : (depth : Nat) → Effects (Query depth) (Statement depth)
  | 0 => ⟨nofun, nofun, nofun⟩
  | depth + 1 =>
    { ofQuery := queryWrites (effects depth)
      ofBody := bodyWrites
      ofStatement := statementWrites (effects depth) }

/-- Every value that executing the statement, or the statement it prepares, stores. -/
def writes {depth : Nat} (statement : Statement depth) : List Write :=
  (effects depth).ofStatement statement

/-- The writes under PREPARE, EXPLAIN ANALYZE and CREATE TABLE AS. -/
def wrapped : {depth : Nat} → Statement depth → List Write
  | 0, statement => nomatch statement
  | depth + 1, statement => wrappedWrites (effects depth) statement

/-- The table a name denotes on the server, where `schemaOf` is the schema in which the
session's `search_path` finds an unqualified name. -/
def denotes (schemaOf : String → String) (name : ObjectName) : Option (String × String) :=
  match name.reverse with
  | [] => none
  | [table] => some (schemaOf (normalize table), normalize table)
  | table :: schema :: _ => some (normalize schema, normalize table)

/-- The transform the catalog gives the written column, or any column of the table where
the statement names none. -/
def Protects (catalog : WriteCatalog) (schemaOf : String → String) (write : Write)
    (transform : Params.FieldTransform) : Prop :=
  ∃ key columns name, denotes schemaOf write.table = some key ∧
    catalog.tables.get key = some columns ∧ columns.get name = some transform ∧
      ∀ ident ∈ write.column, normalize ident = name

end Dbsec.Writes
