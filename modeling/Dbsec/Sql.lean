import Dbsec.Framing

/-! The part of sqlparser's PostgreSQL syntax tree the write path walks. Variants the
rewriter treats alike are one constructor with a kind; a variant none of its walks
opens is `unwalked` and keeps its expressions. Options of a clause that no modelled
function reads (locking, null treatment, row limits of a DELETE) are left out.

Queries and statements contain one another. `Query depth` and `Statement depth` are
the trees whose queries nest at most `depth` deep, so every walk is a recursion over
the depth and each node type is a plain inductive over the level below. -/
namespace Dbsec.Sql

structure Ident where
  value : String
  quoteStyle : Option Char
  deriving DecidableEq

def Ident.plain (value : String) : Ident := ⟨value, none⟩

abbrev ObjectName := List Ident

inductive Value where
  | number (text : String)
  | singleQuoted (text : String)
  | escaped (text : String)
  | unicode (text : String)
  | national (text : String)
  | dollarQuoted (text : String) (tag : Option String)
  | placeholder (text : String)
  | boolean (value : Bool)
  | null
  | unread (text : String)
  deriving DecidableEq

inductive BinaryOperator where
  | eq
  | and
  | or
  | other (symbol : String)
  deriving DecidableEq

inductive UnaryOperator where
  | not
  | minus
  | plus
  | other (symbol : String)
  deriving DecidableEq

inductive UnaryKind where
  | op (operator : UnaryOperator)
  | nested
  | cast (type : String)
  | isNull
  | isNotNull
  | isTrue
  | isNotTrue
  | isFalse
  | isNotFalse
  | collate (collation : ObjectName)
  deriving DecidableEq

/-- The variants with a left and a right operand. -/
inductive BinaryKind where
  | op (operator : BinaryOperator)
  | any (operator : BinaryOperator)
  | all (operator : BinaryOperator)
  | isDistinctFrom
  | isNotDistinctFrom
  deriving DecidableEq

inductive PatternKind where
  | like
  | ilike
  | similarTo
  deriving DecidableEq

inductive Expr (Query : Type) where
  | identifier (ident : Ident)
  | compoundIdentifier (idents : List Ident)
  | value (value : Value)
  | typedString (type text : String)
  | unary (kind : UnaryKind) (inner : Expr Query)
  | binary (kind : BinaryKind) (left right : Expr Query)
  | inList (operand : Expr Query) (list : List (Expr Query)) (negated : Bool)
  | inSubquery (operand : Expr Query) (subquery : Query) (negated : Bool)
  | between (operand low high : Expr Query) (negated : Bool)
  | pattern (kind : PatternKind) (operand pattern : Expr Query) (negated : Bool)
  | tuple (items : List (Expr Query))
  | array (items : List (Expr Query))
  | case (operand : Option (Expr Query)) (conditions results : List (Expr Query))
      (elseResult : Option (Expr Query))
  -- `filter` stands for every clause behind the argument list.
  | function (name : ObjectName) (args : List (Expr Query)) (filter : Option (Expr Query))
  -- `ARRAY(SELECT ...)` and its like: the argument list is a query.
  | functionQuery (name : ObjectName) (query : Query)
  | exists (subquery : Query) (negated : Bool)
  | subquery (query : Query)
  | substring (operand : Expr Query) (start size : Option (Expr Query))
  | wildcard
  | unwalked (shape : String) (inner : List (Expr Query))

structure TableAlias where
  name : Ident
  columns : List Ident
  deriving DecidableEq

inductive JoinConstraint (Query : Type) where
  | on (condition : Expr Query)
  | usingColumns (columns : List Ident)
  | natural
  | none

/-- `constrained` covers the inner, outer, semi, anti and as-of joins; a cross join or
an apply has no constraint to look at. -/
inductive JoinOperator (Query : Type) where
  | constrained (kind : String) (constraint : JoinConstraint Query)
  | crossed (kind : String)

mutual
inductive TableFactor (Query : Type) where
  -- With arguments it is a call, such as `FROM generate_series(1, 3)`.
  | table (name : ObjectName) (args : Option (List (Expr Query))) (named : Option TableAlias)
  | derived (lateral : Bool) (subquery : Query) (named : Option TableAlias)
  | nestedJoin (inner : TableWithJoins Query) (named : Option TableAlias)
  -- `PIVOT`, `UNPIVOT` and `MATCH_RECOGNIZE` around another factor.
  | reshaped (inner : TableFactor Query)
  -- `TABLE(f())`, `LATERAL f()`, `UNNEST`, `JSON_TABLE`.
  | computed (args : List (Expr Query)) (named : Option TableAlias)

inductive Join (Query : Type) where
  | mk (relation : TableFactor Query) (operator : JoinOperator Query)

inductive TableWithJoins (Query : Type) where
  | mk (relation : TableFactor Query) (joins : List (Join Query))
end

section Relations
variable {Query : Type}

def Join.relation : Join Query → TableFactor Query
  | .mk relation _ => relation

def Join.operator : Join Query → JoinOperator Query
  | .mk _ operator => operator

def TableWithJoins.relation : TableWithJoins Query → TableFactor Query
  | .mk relation _ => relation

def TableWithJoins.joins : TableWithJoins Query → List (Join Query)
  | .mk _ joins => joins

end Relations

inductive SelectItem (Query : Type) where
  | unnamed (expr : Expr Query)
  | aliased (expr : Expr Query) (name : Ident)
  | qualifiedWildcard (name : ObjectName)
  | wildcard

inductive GroupBy (Query : Type) where
  | expressions (exprs : List (Expr Query))
  | all

structure Select (Query : Type) where
  projection : List (SelectItem Query)
  fromTables : List (TableWithJoins Query)
  selection : Option (Expr Query)
  groupBy : GroupBy Query
  having : Option (Expr Query)
  /-- `DISTINCT ON`, named windows, `QUALIFY`. -/
  unwalked : List (Expr Query)

inductive SetExpr (Query Statement : Type) where
  | select (select : Select Query)
  | query (query : Query)
  | setOperation (left right : SetExpr Query Statement)
  | values (rows : List (List (Expr Query)))
  | insert (statement : Statement)
  | update (statement : Statement)
  | table (schemaName tableName : Option String)

structure Cte (Query : Type) where
  named : TableAlias
  query : Query

structure QueryNode (Query Statement : Type) where
  /-- `WITH RECURSIVE`. -/
  recursive : Bool
  ctes : List (Cte Query)
  body : SetExpr Query Statement
  orderBy : List (Expr Query)
  /-- `LIMIT`, `OFFSET` and `FETCH`. -/
  limits : List (Expr Query)

inductive AssignmentTarget where
  | columnName (name : ObjectName)
  | tuple (names : List ObjectName)
  deriving DecidableEq

structure Assignment (Query : Type) where
  target : AssignmentTarget
  value : Expr Query

inductive ConflictTarget where
  | columns (columns : List Ident)
  | onConstraint (name : ObjectName)
  deriving DecidableEq

inductive OnConflictAction (Query : Type) where
  | doNothing
  | doUpdate (assignments : List (Assignment Query)) (selection : Option (Expr Query))

inductive OnInsert (Query : Type) where
  | onConflict (target : Option ConflictTarget) (action : OnConflictAction Query)
  | duplicateKeyUpdate (assignments : List (Assignment Query))

structure Insert (Query Statement : Type) where
  tableName : ObjectName
  tableAlias : Option Ident
  columns : List Ident
  source : Option (QueryNode Query Statement)
  on : Option (OnInsert Query)
  returning : List (SelectItem Query)

structure Update (Query : Type) where
  table : TableWithJoins Query
  assignments : List (Assignment Query)
  fromTable : Option (TableWithJoins Query)
  selection : Option (Expr Query)
  returning : List (SelectItem Query)

structure Delete (Query : Type) where
  fromTables : List (TableWithJoins Query)
  usingTables : List (TableWithJoins Query)
  selection : Option (Expr Query)
  returning : List (SelectItem Query)

inductive MergeAction (Query : Type) where
  | update (assignments : List (Assignment Query))
  | insert (columns : List Ident) (rows : List (List (Expr Query)))
  | delete

inductive StatementNode (Query Statement : Type) where
  | insert (insert : Insert Query Statement)
  | update (update : Update Query)
  | query (query : QueryNode Query Statement)
  | delete (delete : Delete Query)
  | copyTable (name : ObjectName) (columns : List Ident) (outward : Bool)
  | copyQuery (query : QueryNode Query Statement) (outward : Bool)
  | merge (into : TableFactor Query) (actions : List (MergeAction Query))
  | prepare (name : Ident) (statement : Statement)
  | explain (analyze : Bool) (statement : Statement)
  | createTableAs (name : ObjectName) (query : QueryNode Query Statement)
  | unwalked (keyword : String)

/-- The query and statement types of one nesting depth. -/
structure Level where
  Query : Type
  Statement : Type

def level : Nat → Level
  | 0 => ⟨Empty, Empty⟩
  | depth + 1 =>
    ⟨QueryNode (level depth).Query (level depth).Statement,
      StatementNode (level depth).Query (level depth).Statement⟩

abbrev Query (depth : Nat) : Type := (level depth).Query
abbrev Statement (depth : Nat) : Type := (level depth).Statement

end Dbsec.Sql
