import Dbsec.RowKeys
import Dbsec.Rewrite

/-! Sealing a value into the cell it is written to: proxy/src/encrypt/seal.rs. Which
row a statement writes, how the values of an INSERT and an assignment list are walked,
and the one place where a plaintext becomes a stored form. The nonce a seal draws is
part of the transform. -/
namespace Dbsec.Seal
open Framing Sql Params Unprotected Catalog Literals Scope Accumulate Rewrite

structure SealTarget where
  transform : FieldTransform
  column : String
  row : RowKeySource

/-- Which row an assignment list writes; the gaps only matter once a protected value is
about to be sealed. -/
inductive AssignmentRow where
  | known (source : RowKeySource)
  | missing (table column shape : String)
  | reassigned (table column : String)
  deriving DecidableEq

/-- What an assignment list may write into, and the columns the VALUES list of the same
statement sealed. -/
structure AssignmentScope where
  row : AssignmentRow
  columns : Columns
  sealedColumns : List String

variable {Query Statement : Type}

/-- `EXCLUDED.<column>` naming the assigned column, which the VALUES list sealed. -/
def reStoresASealedValue (scope : AssignmentScope) (value : Expr Query) (column : String) : Bool :=
  match value with
  | .compoundIdentifier [qualifier, referenced] =>
    normalize qualifier == "excluded" && normalize referenced == column &&
      scope.sealedColumns.contains column
  | _ => false

/-- A stored form as SQL text. Digits and hex carry no backslash, so a text form is an
ordinary literal. -/
def storedLiteral (wire : WireForm) (stored : Bytes) : Expr Query :=
  match wire with
  | .bytea => byteaLiteral stored
  | .text => .value (.singleQuoted (String.ofList (Text.decodeLossy stored)))

def sealPlaintext (target : SealTarget) (plaintext : Bytes) (key : Option Envelope.RowKey) :
    Except Rejection (Expr Query × Bool) :=
  match target.transform.sealValue plaintext key with
  | .ok stored => .ok (storedLiteral target.transform.wire stored, true)
  | .error cause => .error (.fatal (.wire cause))

/-- Reports a site and, where the policy lets it through, leaves the value alone. -/
def leave (context : Context) (site : Site) (expr : Expr Query) :
    Except Rejection (Expr Query × Bool) := do
  context.unprotected site
  return (expr, false)

def sealLiteral (context : Context) (target : SealTarget) (expr : Expr Query) :
    Except Rejection (Expr Query × Bool) :=
  if literalAgreesWithServer context expr then
    match literalPlaintext expr target.transform.wire with
    | none => leave context (.unsupportedValue target.column (exprShape expr)) expr
    | some plaintext =>
      match target.row with
      | .literal key => sealPlaintext target plaintext (some key)
      -- The key does not exist until Bind and the value is written now.
      | .param .. =>
        leave context (.unsupportedValue target.column
          "literal in a row whose key is a bound parameter") expr
      | .none => sealPlaintext target plaintext none
  else leave context (.ambiguousLiteral target.column) expr

/-- A placeholder that names no bindable parameter is left to the server to refuse. -/
def sealAtBind (target : SealTarget) (text : String) : Pass Unit :=
  match placeholderIndex text with
  | some index => recordParam index (.sealWith target.transform target.row)
  | none => pure ()

/-- Seals one literal in place, or records the placeholder for Bind time. -/
def sealExpr (context : Context) (target : SealTarget) (expr : Expr Query) :
    Pass (Expr Query × Bool) :=
  match unwrapCasts expr with
  | .value (.placeholder text) => do
      sealAtBind target text
      return (expr, false)
  | .value .null => return (expr, false)
  | _ => monadLift (sealLiteral context target expr)

/-- The row a protected assignment seals against, reporting a statement that gives none. -/
def rowOf (context : Context) : AssignmentRow → Except Rejection RowKeySource
  | .known source => .ok source
  | .missing table column shape => do
      context.unprotected (.rowKeyMissing table column shape)
      return .none
  | .reassigned table column => do
      context.unprotected (.rowKeyReassigned table column)
      return .none

/-- One value of an assignment to the column `ident`, if that column is protected. -/
def sealAssigned (context : Context) (scope : AssignmentScope) (ident : Ident)
    (value : Expr Query) : Pass (Expr Query × Bool) :=
  match scope.columns.get (normalize ident) with
  | none => return (value, false)
  | some transform => do
      -- Before the `EXCLUDED` exception: the value it re-stores is bound to the
      -- inserted row, so the two rows must be known to share their key.
      let row ← rowOf context scope.row
      if reStoresASealedValue scope value (normalize ident) then return (value, false)
      sealExpr context ⟨transform, ident.value, row⟩ value

def sealNamed (context : Context) (scope : AssignmentScope) (name : ObjectName)
    (value : Expr Query) : Pass (Expr Query × Bool) :=
  match name.getLast? with
  | some ident => sealAssigned context scope ident value
  | none => return (value, false)

/-- The protected columns among the targets of a row-wise assignment. -/
def protectedTargets (columns : Columns) (names : List ObjectName) : List Ident :=
  names.filterMap fun name => do
    let ident ← name.getLast?
    let _ ← columns.get (normalize ident)
    return ident

def signalEach (context : Context) (idents : List Ident) (shape : String) : Except Rejection Unit :=
  idents.forM fun ident => context.unprotected (.unsupportedValue ident.value shape)

def sealElements (context : Context) (scope : AssignmentScope) :
    List ObjectName → List (Expr Query) → Pass (List (Expr Query) × Bool)
  | name :: names, element :: elements => do
      let (element, changed) ← sealNamed context scope name element
      let (elements, later) ← sealElements context scope names elements
      return (element :: elements, changed || later)
  | _, elements => return (elements, false)

def arityMismatch : String :=
  "row-wise assignment whose value list does not match the column list"

def signalTuple (context : Context) (columns : Columns) (names : List ObjectName)
    (value : Expr Query) (shape : String) : Pass (Expr Query × Bool) := do
  signalEach context (protectedTargets columns names) shape
  return (value, false)

/-- A row-wise value paired with its targets element by element. A one-element list is
indistinguishable from a parenthesised expression. -/
def sealTuple (context : Context) (scope : AssignmentScope) (names : List ObjectName)
    (value : Expr Query) : Pass (Expr Query × Bool) :=
  match value with
  | .tuple elements =>
    if elements.length = names.length then do
      let (elements, changed) ← sealElements context scope names elements
      return (.tuple elements, changed)
    else signalTuple context scope.columns names value arityMismatch
  | .unary .nested inner =>
    match names with
    | [name] => do
        let (inner, changed) ← sealNamed context scope name inner
        return (.unary .nested inner, changed)
    | _ => signalTuple context scope.columns names value arityMismatch
  | other => signalTuple context scope.columns names value (exprShape other)

def sealTupleAssignment (context : Context) (scope : AssignmentScope) (names : List ObjectName)
    (value : Expr Query) : Pass (Expr Query × Bool) :=
  if (protectedTargets scope.columns names).isEmpty then return (value, false)
  else sealTuple context scope names value

def sealAssignment (context : Context) (scope : AssignmentScope) (assignment : Assignment Query) :
    Pass (Assignment Query × Bool) :=
  match assignment.target with
  | .columnName name => do
      let (value, changed) ← sealNamed context scope name assignment.value
      return ({ assignment with value }, changed)
  | .tuple names => do
      let (value, changed) ← sealTupleAssignment context scope names assignment.value
      return ({ assignment with value }, changed)

def sealAssignments (context : Context) (scope : AssignmentScope)
    (assignments : List (Assignment Query)) : Pass (List (Assignment Query) × Bool) :=
  rewriteEach (sealAssignment context scope) assignments

section RowKey

/-- The source of a row key: a literal is canonicalised now, a placeholder at Bind. -/
def rowKeySource (spec : ResolvedRowKey) (expr : Expr Query) : Option RowKeySource :=
  match unwrapCasts expr with
  | .value (.placeholder text) =>
    (placeholderIndex text).map fun index => .param index spec.typeOid spec.name
  | other => do
      let text ← literalPlaintext other .text
      match RowKeys.canonical spec.typeOid .text (some text) with
      | .ok key => some (.literal key)
      | .error _ => none

/-- Whether the expression names the row key of the written relation; with another
relation joined, a bare name proves nothing. -/
def namesRowKey (wanted : String) (target : ScopedTable) (joined : Bool) : Expr Query → Bool
  | .identifier ident => !joined && normalize ident == wanted
  | .compoundIdentifier idents =>
    match idents.getLast? with
    | some column => normalize column == wanted && target.matches idents.dropLast
    | none => false
  | _ => false

/-- The row an UPDATE pins: an equality on the row key under ANDs and parentheses. -/
def rowKeyInPredicate (spec : ResolvedRowKey) (target : ScopedTable) (joined : Bool) :
    Expr Query → Option RowKeySource
  | .binary (.op .and) left right =>
    rowKeyInPredicate spec target joined left <|> rowKeyInPredicate spec target joined right
  | .unary .nested inner => rowKeyInPredicate spec target joined inner
  | .binary (.op .eq) left right =>
    if namesRowKey spec.name target joined left then rowKeySource spec right
    else if namesRowKey spec.name target joined right then rowKeySource spec left
    else none
  | _ => none

def assignsColumn (assignments : List (Assignment Query)) (wanted : String) : Bool :=
  let named := fun (name : ObjectName) => name.getLast?.any fun ident => normalize ident == wanted
  assignments.any fun assignment =>
    match assignment.target with
    | .columnName name => named name
    | .tuple names => names.any named

def aliasName : Option TableAlias → Option String := Option.map fun named => normalize named.name

def updateRow (context : Context) (update : Update Query) (columns : Columns) : AssignmentRow :=
  match update.table.relation with
  | .table name _ named =>
    match resolvedName name with
    | none => .known .none
    | some (schema, tableName) =>
      match context.rowKeySpec schema tableName with
      | none => .known .none
      | some spec =>
        let qualified := s!"{schema}.{tableName}"
        if assignsColumn update.assignments spec.name then .reassigned qualified spec.name
        else
          let target : ScopedTable :=
            ⟨aliasName named, name.map normalize, columns, context.catalog.readColumnsOf name⟩
          let joined := update.fromTable.isSome || !update.table.joins.isEmpty
          match update.selection.bind (rowKeyInPredicate spec target joined) with
          | some source => .known source
          | none =>
            .missing qualified spec.name
              "UPDATE whose WHERE does not pin one row by its row key"
  | _ => .known .none

/-- The row a conflict action writes: the proposed one, if the conflict is on the row
key itself and a single row is proposed. -/
def conflictRow (context : Context) (insert : Sql.Insert Query Statement)
    (conflictTarget : Option ConflictTarget) (assignments : List (Assignment Query)) :
    AssignmentRow :=
  match resolvedName insert.tableName with
  | none => .known .none
  | some (schema, tableName) =>
    match context.rowKeySpec schema tableName with
    | none => .known .none
    | some spec =>
      let qualified := s!"{schema}.{tableName}"
      let wanted := fun (ident : Ident) => normalize ident == spec.name
      let missing := AssignmentRow.missing qualified spec.name
      if assignsColumn assignments spec.name then .reassigned qualified spec.name
      else
        let onRowKey := match conflictTarget with
          | some (.columns columns) => columns.any wanted
          | _ => false
        if !onRowKey then
          missing "conflict action whose ON CONFLICT target is not the row key"
        else match insert.columns.findIdx? wanted with
          | none =>
            missing "conflict action of an INSERT without the row key in its column list"
          | some position =>
            match insert.source with
            | none => missing "conflict action of an INSERT with no VALUES list"
            | some source =>
              match source.body with
              | .values [row] =>
                match row[position]?.bind (rowKeySource spec) with
                | some source => .known source
                | none =>
                  missing
                    "conflict action whose row key is not a literal or a parameter"
              | .values _ => missing "conflict action of a multi-row INSERT"
              | _ => missing "conflict action of an INSERT ... SELECT"

end RowKey

/-- What sealing a VALUES list did: whether a value changed, and the protected columns
the rows carried. -/
structure SealedValues where
  changed : Bool
  columns : List String

def SealedValues.none : SealedValues := ⟨false, []⟩

def sealListed (context : Context) (columns : Columns) (row : RowKeySource) (ident : Ident)
    (expr : Expr Query) : Pass (Expr Query × Bool) :=
  match columns.get (normalize ident) with
  | some transform => sealExpr context ⟨transform, ident.value, row⟩ expr
  | none => return (expr, false)

/-- Seals the protected positions of one row, in the order of the column list. -/
def sealRow (context : Context) (columns : Columns) (row : RowKeySource) :
    List Ident → List (Expr Query) → Pass (List (Expr Query) × Bool)
  | ident :: idents, expr :: rest => do
      let (expr, changed) ← sealListed context columns row ident expr
      let (rest, later) ← sealRow context columns row idents rest
      return (expr :: rest, changed || later)
  | _, rest => return (rest, false)

/-- The key of one proposed row. A row without one is reported once per statement. -/
def proposedRow (context : Context) (qualified : String) (key : Option (ResolvedRowKey × Nat))
    (row : List (Expr Query)) (reported : Bool) : Except Rejection (RowKeySource × Bool) :=
  match key with
  | none => .ok (.none, reported)
  | some (spec, position) =>
    match row[position]?.bind (rowKeySource spec) with
    | some source => .ok (source, reported)
    | none => do
        if !reported then
          context.unprotected (.rowKeyMissing qualified spec.name
            "INSERT whose row key is not a literal or a parameter")
        return (.none, true)

def sealRows (context : Context) (columns : Columns) (idents : List Ident) (qualified : String)
    (key : Option (ResolvedRowKey × Nat)) (reported : Bool) :
    List (List (Expr Query)) → Pass (List (List (Expr Query)) × Bool)
  | [] => return ([], false)
  | row :: rows => do
      let (source, reported) ← proposedRow context qualified key row reported
      let (row, changed) ← sealRow context columns source idents row
      let (rows, later) ← sealRows context columns idents qualified key reported rows
      return (row :: rows, changed || later)

/-- The row key of an INSERT and its place in the column list; an INSERT that does not
list it is reported and sealed against its cell only. -/
def insertRowKey (context : Context) (schema tableName : String) (idents : List Ident) :
    Except Rejection (Option (ResolvedRowKey × Nat)) :=
  match context.rowKeySpec schema tableName with
  | none => .ok none
  | some spec =>
    match idents.findIdx? fun ident => normalize ident == spec.name with
    | some position => .ok (some (spec, position))
    | none => do
        context.unprotected (.rowKeyMissing s!"{schema}.{tableName}" spec.name
          "INSERT without the row key in its column list")
        return none

def protectedIdents (columns : Columns) (idents : List Ident) : List String :=
  (idents.map normalize).filter fun name => (columns.get name).isSome

def rewriteInsertValues (context : Context) (insert : Sql.Insert Query Statement)
    (columns : Columns) :
    Pass (Sql.Insert Query Statement × SealedValues) :=
  if (protectedIdents columns insert.columns).isEmpty then return (insert, .none)
  else match insert.source with
    | none => return (insert, .none)
    | some source =>
      match source.body with
      | .values rows =>
        match resolvedName insert.tableName with
        | none => return (insert, .none)
        | some (schema, tableName) => do
            let key ← insertRowKey context schema tableName insert.columns
            let (rows, changed) ← sealRows context columns insert.columns
              s!"{schema}.{tableName}" key false rows
            return ({ insert with source := some { source with body := .values rows } },
              ⟨changed, protectedIdents columns insert.columns⟩)
      | _ => do
          context.unprotected (.insertFromSelect insert.tableName)
          return (insert, .none)

section Growth
variable {context : Context} {scope : AssignmentScope}

theorem grows_sealAtBind (target : SealTarget) (text : String) :
    Grows (sealAtBind target text) := by
  unfold sealAtBind
  split
  · exact grows_recordParam _ _
  · exact grows_pure _

theorem grows_sealExpr (target : SealTarget) (expr : Expr Query) :
    Grows (sealExpr context target expr) := by
  unfold sealExpr
  split
  · exact (grows_sealAtBind _ _).bind fun _ => grows_pure _
  · exact grows_pure _
  · exact grows_lift _

theorem grows_sealAssigned (ident : Ident) (value : Expr Query) :
    Grows (sealAssigned context scope ident value) := by
  unfold sealAssigned
  split
  · exact grows_pure _
  · apply Grows.bind (grows_lift _)
    intro row
    split
    · exact grows_pure _
    · exact grows_sealExpr _ _

theorem grows_sealNamed (name : ObjectName) (value : Expr Query) :
    Grows (sealNamed context scope name value) := by
  unfold sealNamed
  split
  · exact grows_sealAssigned _ _
  · exact grows_pure _

theorem grows_sealElements (names : List ObjectName) (elements : List (Expr Query)) :
    Grows (sealElements context scope names elements) := by
  fun_induction sealElements context scope names elements with
  | case1 name names element elements ih =>
    exact (grows_sealNamed _ _).bind fun _ => ih.bind fun _ => grows_pure _
  | case2 => exact grows_pure _

theorem grows_signalTuple (columns : Columns) (names : List ObjectName) (value : Expr Query)
    (shape : String) : Grows (signalTuple context columns names value shape) :=
  (grows_lift _).bind fun _ => grows_pure _

theorem grows_sealTupleAssignment (names : List ObjectName) (value : Expr Query) :
    Grows (sealTupleAssignment context scope names value) := by
  unfold sealTupleAssignment sealTuple
  split
  · exact grows_pure _
  · split
    · split
      · exact (grows_sealElements _ _).bind fun _ => grows_pure _
      · exact grows_signalTuple _ _ _ _
    · split
      · exact (grows_sealNamed _ _).bind fun _ => grows_pure _
      · exact grows_signalTuple _ _ _ _
    · exact grows_signalTuple _ _ _ _

theorem grows_sealAssignment (assignment : Assignment Query) :
    Grows (sealAssignment context scope assignment) := by
  unfold sealAssignment
  split
  · exact (grows_sealNamed _ _).bind fun _ => grows_pure _
  · exact (grows_sealTupleAssignment _ _).bind fun _ => grows_pure _

theorem grows_sealAssignments (assignments : List (Assignment Query)) :
    Grows (sealAssignments context scope assignments) :=
  grows_rewriteEach assignments fun assignment _ => grows_sealAssignment assignment

theorem grows_sealListed (columns : Columns) (row : RowKeySource) (ident : Ident)
    (expr : Expr Query) : Grows (sealListed context columns row ident expr) := by
  unfold sealListed
  split
  · exact grows_sealExpr _ _
  · exact grows_pure _

theorem grows_sealRow (columns : Columns) (row : RowKeySource) (idents : List Ident)
    (values : List (Expr Query)) : Grows (sealRow context columns row idents values) := by
  fun_induction sealRow context columns row idents values with
  | case1 ident idents expr rest ih =>
    exact (grows_sealListed _ _ _ _).bind fun _ => ih.bind fun _ => grows_pure _
  | case2 => exact grows_pure _

theorem grows_sealRows (columns : Columns) (idents : List Ident) (qualified : String)
    (key : Option (ResolvedRowKey × Nat)) (reported : Bool) (rows : List (List (Expr Query))) :
    Grows (sealRows context columns idents qualified key reported rows) := by
  induction rows generalizing reported with
  | nil => exact grows_pure _
  | cons row rows ih =>
    exact (grows_lift _).bind fun _ =>
      (grows_sealRow _ _ _ _).bind fun _ => (ih _).bind fun _ => grows_pure _

theorem grows_rewriteInsertValues (insert : Sql.Insert Query Statement) (columns : Columns) :
    Grows (rewriteInsertValues context insert columns) := by
  unfold rewriteInsertValues
  split
  · exact grows_pure _
  · split
    · exact grows_pure _
    · split
      · split
        · exact grows_pure _
        · exact (grows_lift _).bind fun _ =>
            (grows_sealRows _ _ _ _ _ _).bind fun _ => grows_pure _
      · exact (grows_lift _).bind fun _ => grows_pure _

end Growth

end Dbsec.Seal
