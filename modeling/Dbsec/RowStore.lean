import Dbsec.KeptLiterals
import Dbsec.Writes

/-! How the server evaluates the values and conditions of an INSERT or UPDATE and which
rows they become: PostgreSQL's side, stated from its documented behaviour. A column
reference is resolved among the relations by the name each is visible under, so an alias
hides the table's own name. A literal for the row key is read by the rules of its type,
casts included. Expressions the rewriter neither makes nor reads, and what a cast does to
any other value, are parameters. -/
namespace Dbsec.RowStore
open Framing Sql Params Catalog Literals Scope RowKeys BoundParams StoredKeys KeyInputs KeptLiterals
  Writes

/-- One stored row: the value of every column, absent where it is NULL. A row key is in
its canonical text. -/
abbrev Row := String → Option Bytes

inductive ColumnKind where
  | key
  | sealed (wire : WireForm)
  | plain
  deriving DecidableEq

inductive Visible where
  | aliased (name : String)
  | table (path : List String)
  | unnamed
  deriving DecidableEq

def Visible.answersTo (visible : Visible) (qualifiers : List Ident) : Bool :=
  match visible with
  | .aliased name => qualifiers.map normalize == [name]
  | .table path => (qualifiers.map normalize).isSuffixOf path
  | .unnamed => false

def namedVisible (named : Option TableAlias) (otherwise : List Visible) : List Visible :=
  match named with
  | some held => [.aliased (normalize held.name)]
  | none => otherwise

section Visibles
variable {Query : Type}

mutual
def factorVisibles : TableFactor Query → List Visible
  | .table name _ named => namedVisible named [.table (name.map normalize)]
  | .derived _ _ named => namedVisible named [.unnamed]
  -- An alias on a parenthesised join hides the names inside it.
  | .nestedJoin inner named => namedVisible named (tableVisibles inner)
  | .reshaped inner => factorVisibles inner
  | .computed _ named => namedVisible named [.unnamed]

def joinsVisibles : List (Join Query) → List Visible
  | [] => []
  | .mk relation _ :: rest => factorVisibles relation ++ joinsVisibles rest

def tableVisibles : TableWithJoins Query → List Visible
  | .mk relation joins => factorVisibles relation ++ joinsVisibles joins
end

def otherVisibles (update : Update Query) : List Visible :=
  joinsVisibles update.table.joins ++ update.fromTable.toList.flatMap tableVisibles

def updateVisibles (update : Update Query) : List Visible :=
  factorVisibles update.table.relation ++ otherVisibles update

end Visibles

/-- The relations in scope with one row of each; `has` says which columns a relation
offers to an unqualified reference. -/
structure Frame where
  visibles : List Visible
  has : Nat → String → Bool
  rows : Nat → Row

def Frame.candidates (frame : Frame) (qualifiers : List Ident) (column : String) : List Nat :=
  (List.range frame.visibles.length).filter fun index =>
    if qualifiers.isEmpty then frame.has index column
    else (frame.visibles[index]?).any (·.answersTo qualifiers)

/-- The relation and column a reference means; a reference that means none or several is
an error. -/
def Frame.resolve (frame : Frame) (idents : List Ident) : Option (Nat × String) :=
  match idents.getLast? with
  | none => none
  | some column =>
    match frame.candidates idents.dropLast (normalize column) with
    | [index] => some (index, normalize column)
    | _ => none

/-- What an expression refers to, where it is a column reference. A compound one has a
qualifier. -/
def Frame.reference {Query : Type} (frame : Frame) : Expr Query → Option (Option (Nat × String))
  | .identifier ident => some (frame.resolve [ident])
  | .compoundIdentifier idents => some (if idents.length < 2 then none else frame.resolve idents)
  | _ => none

/-- The parameters of one execution as the server received them, and what is left open
about its evaluation. -/
structure Server (Query : Type) where
  pg : Pg
  /-- The declared type of the row key column. -/
  keyColumn : PgType
  escapeStrings : Bool
  formats : List Int
  values : List (Option Bytes)
  cast : ColumnKind → String → Bytes → Option Bytes
  other : ColumnKind → Frame → Expr Query → Option (Option Bytes)
  truth : Frame → Expr Query → Bool
  /-- The values a column left out of an INSERT may get. -/
  defaults : String → Option Bytes → Prop

section Reading

variable {Query : Type} (server : Server Query)

/-- What a column of the kind reads from a bound value. -/
def readBound (kind : ColumnKind) (format : Format) (bytes : Bytes) : Option Bytes :=
  match kind, format with
  | .key, format => do
    let held ← serverInput server.pg (← keyType server.keyColumn) format bytes
    return Text.encode held.output
  | .sealed wire, .text => (Text.decode bytes).map fun chars => textPlaintext chars wire
  | .sealed _, .binary => some bytes
  | .plain, _ => some bytes

/-- A bound parameter as its column reads it; `none` is an error, `some none` NULL. -/
def readParam (kind : ColumnKind) (index : Nat) : Option (Option Bytes) :=
  match (server.values[index]?).join with
  | none => some none
  | some bytes =>
    match valueFormat (formatCode server.formats index) with
    | .ok format => (readBound server kind format bytes).map some
    | .error _ => none

variable {index : Nat}

theorem readParam_key {spec : ResolvedRowKey} {format : Format} {bytes key : Bytes}
    {found : Option Bytes} (keyed : keyOid server.keyColumn = some spec.typeOid)
    (known : valueFormat (formatCode server.formats index) = .ok format)
    (sent : (server.values[index]?).join = some bytes)
    (canonical : canonicalBytes spec.typeOid format bytes = .ok key)
    (read : readParam server .key index = some found) : found = some key := by
  simp only [readParam, sent, known, readBound, Option.bind_eq_bind, Option.map_eq_some_iff,
    Option.bind_eq_some_iff, Option.pure_def, Option.some.injEq] at read
  obtain ⟨_, ⟨type, named, held, taken, rfl⟩, rfl⟩ := read
  rw [← keyType_oid keyed named] at canonical
  rw [(serverInput_key canonical taken).2]

/-- With escape strings on, an ordinary literal with a backslash is read otherwise than
the proxy reads it. -/
def readsAlike (expr : Expr Query) : Bool :=
  match expr with
  | .value (.singleQuoted text) => !(server.escapeStrings && text.toList.contains '\\')
  | _ => true

def value (kind : ColumnKind) (frame : Frame) : Expr Query → Option (Option Bytes)
  | .unary .nested inner => value kind frame inner
  | .unary (.cast type) inner =>
    match value kind frame inner with
    | some (some bytes) => (server.cast kind type bytes).map some
    | other => other
  | .value .null => some none
  | .value (.placeholder text) => (placeholderIndex text).bind (readParam server kind)
  | expr =>
    match frame.reference expr with
    | some found => found.map fun place => frame.rows place.1 place.2
    | none =>
      if readsAlike server expr then
        match literalPlaintext expr .text with
        | some text => (readBound server kind .text text).map some
        | none => server.other kind frame expr
      else server.other kind frame expr

variable {kind : ColumnKind} {frame : Frame} {expr : Expr Query}

theorem value_of_literal {text : Bytes} (bare : ∀ inner, expr ≠ .unary .nested inner)
    (uncast : ∀ type inner, expr ≠ .unary (.cast type) inner)
    (literal : literalPlaintext expr .text = some text) (alike : readsAlike server expr = true) :
    value server kind frame expr = (readBound server kind .text text).map some := by
  unfold value
  split
  · exact absurd rfl (bare _)
  · exact absurd rfl (uncast _ _)
  · cases literal
  · cases literal
  · split
    · rename_i found
      cases expr <;> first | cases literal | cases found
    · rw [if_pos alike, literal]

theorem value_byteaLiteral (stored : Bytes) :
    value server (.sealed .bytea) frame (byteaLiteral stored) = some (some stored) := by
  have ascii : ('\\' :: 'x' :: Text.hexEncode stored).all Text.isAscii = true :=
    Text.hexEncode_ascii stored
  have literal : literalPlaintext (byteaLiteral stored : Expr Query) .text =
      some (Text.encode ('\\' :: 'x' :: Text.hexEncode stored)) := by
    simp only [literalPlaintext, byteaLiteral, unwrapCasts, String.toList_ofList, textPlaintext]
  have shown : (byteaLiteral stored : Expr Query) =
    .value (.escaped (String.ofList ('\\' :: 'x' :: Text.hexEncode stored))) := rfl
  rw [value_of_literal server (by rw [shown]; nofun) (by rw [shown]; nofun) literal rfl]
  simp only [readBound, Text.decode_encode_of_ascii ascii, Option.map_some, textPlaintext,
    Text.hexDecode_hexEncode, Option.getD_some]

theorem readParam_encoded {stored out : Bytes} (sent : (server.values[index]?).join =
      some (encodeParam stored .bytea (formatCode server.formats index = 1)))
    (read : readParam server (.sealed .bytea) index = some (some out)) : out = stored := by
  simp only [readParam, sent] at read
  by_cases binary : formatCode server.formats index = 1
  · simpa [binary, valueFormat, encodeParam, readBound] using read.symm
  · by_cases text : formatCode server.formats index = 0
    · have ascii : ('\\' :: 'x' :: Text.hexEncode stored).all Text.isAscii = true :=
        Text.hexEncode_ascii stored
      simpa [text, valueFormat, encodeParam, readBound, Text.decode_encode_of_ascii ascii,
        textPlaintext, Text.hexDecode_hexEncode] using read.symm
    · simp [valueFormat, binary, text] at read

def CastsKeep (kind : ColumnKind) : Expr Query → Prop
  | .unary (.cast type) inner =>
    CastsKeep kind inner ∧ ∀ bytes cast, server.cast kind type bytes = some cast → cast = bytes
  | .unary .nested inner => CastsKeep kind inner
  | _ => True

theorem value_unwrapCasts {out : Option Bytes} (kept : CastsKeep server kind expr)
    (evaluated : value server kind frame expr = some out) :
    value server kind frame (unwrapCasts expr) = some out := by
  fun_induction unwrapCasts expr with
  | case1 type inner ih =>
    simp only [value] at evaluated
    split at evaluated
    · rename_i held heldValue
      obtain ⟨cast, casted, rfl⟩ := Option.map_eq_some_iff.mp evaluated
      obtain rfl := kept.2 held cast casted
      exact ih kept.1 heldValue
    · exact ih kept.1 evaluated
  | case2 inner ih => exact ih kept evaluated
  | case3 other => exact evaluated

def isDefault : Expr Query → Bool
  | .identifier ident =>
    ident.quoteStyle.isNone && Text.equalIgnoringCase ident.value.toList "default".toList
  | _ => false

/-- An assignment to a varchar column with a length. -/
def sizedKey (column : PgType) (key : Bytes) : Option Bytes :=
  match column with
  | .varchar (some limit) => ((Text.decode key).bind (within false limit)).map Text.encode
  | _ => some key

/-- What the row key column stores for an expression. -/
def storesKey (frame : Frame) (expr : Expr Query) : Option (Option Bytes) :=
  if (spelling expr).isSome then
    (stored server.pg server.escapeStrings server.keyColumn expr).map fun held =>
      some (Text.encode held.output)
  else
    match value server .key frame expr with
    | some (some key) => (sizedKey server.keyColumn key).map some
    | other => other

def given : ColumnKind → Frame → Expr Query → Option (Option Bytes)
  | .key, frame, expr => storesKey server frame expr
  | kind, frame, expr => value server kind frame expr

theorem given_sealed (wire : WireForm) :
    given server (.sealed wire) frame expr = value server (.sealed wire) frame expr := rfl

/-- What a VALUES entry or an assigned expression stores in a column. -/
def Gives (kind : ColumnKind) (frame : Frame) (column : String) (expr : Expr Query)
    (out : Option Bytes) : Prop :=
  if isDefault expr then server.defaults column out else given server kind frame expr = some out

end Reading

section Conditions
variable {Query : Type} (server : Server Query) (spec : ResolvedRowKey)

def refersToKey (frame : Frame) (expr : Expr Query) : Bool :=
  frame.reference expr == some (some (0, spec.name))

def unresolved (frame : Frame) (expr : Expr Query) : Bool := frame.reference expr == some none

/-- Whether a row key equals an operand. -/
def equalsAt (frame : Frame) (operand : Expr Query) (key : Bytes) : Bool :=
  if (spelling operand).isSome then
    (evaluate server.pg server.escapeStrings operand).any (equalsKey server.pg server.keyColumn key)
  else value server .key frame operand == some (some key)

/-- Whether a condition is true. A comparison with the row key compares values of its
type; one with a name that does not resolve is an error, so no row satisfies it. -/
def holds (frame : Frame) : Expr Query → Bool
  | .binary (.op .and) left right => holds frame left && holds frame right
  | .unary .nested inner => holds frame inner
  | .binary (.op .eq) left right =>
    if unresolved frame left || unresolved frame right then false
    else if refersToKey spec frame left then
      (frame.rows 0 spec.name).any (equalsAt server frame right)
    else if refersToKey spec frame right then
      (frame.rows 0 spec.name).any (equalsAt server frame left)
    else server.truth frame (.binary (.op .eq) left right)
  | other => server.truth frame other

end Conditions

section Rows
variable {Query Statement : Type}

/-- How each column of a table with this row key and these protected columns reads what is
stored in it. -/
def kindOf (spec : ResolvedRowKey) (columns : Columns) (name : String) : ColumnKind :=
  if name = spec.name then .key
  else match columns.get name with
    | some transform => .sealed transform.wire
    | none => .plain

def noRelation : Frame := ⟨[], fun _ _ => false, fun _ _ => none⟩

variable (server : Server Query) (kinds : String → ColumnKind)

/-- The row that one entry of a VALUES list proposes. A column listed twice, and an entry
of another length than the column list, is an error. -/
structure RowProposes (idents : List Ident) (values : List (Expr Query)) (proposal : Row) :
    Prop where
  once : (idents.map normalize).Nodup
  sized : idents.length = values.length
  listed : ∀ entry ∈ idents.zip values,
    Gives server (kinds (normalize entry.1)) noRelation (normalize entry.1) entry.2
      (proposal (normalize entry.1))
  omitted : ∀ column, column ∉ idents.map normalize → server.defaults column (proposal column)

/-- The row an INSERT proposes at `place`. What a query gives the listed columns, and
values without a column list, may be anything. -/
def Proposes (insert : Sql.Insert Query Statement) (place : Nat) (proposal : Row) : Prop :=
  match insert.source with
  | none => ∀ column, server.defaults column (proposal column)
  | some source =>
    match source.body with
    | .values rows =>
      insert.columns ≠ [] → ∃ values, rows[place]? = some values ∧
        RowProposes server kinds insert.columns values proposal
    | _ =>
      insert.columns ≠ [] → ∀ column, column ∉ insert.columns.map normalize →
        server.defaults column (proposal column)

/-- The rows may conflict: on a list of columns they agree and are not NULL. -/
def ConflictsOn (target : Option ConflictTarget) (existing proposal : Row) : Prop :=
  match target with
  | some (.columns idents) =>
    ∀ ident ∈ idents, existing (normalize ident) = proposal (normalize ident) ∧
      (existing (normalize ident)).isSome
  | _ => True

/-- A conflict action sees the existing row under the table's name and the proposed one as
`excluded`. -/
def conflictFrame (insert : Sql.Insert Query Statement) (has : Nat → String → Bool)
    (existing proposal : Row) : Frame where
  visibles :=
    [match insert.tableAlias with
      | some ident => .aliased (normalize ident)
      | none => .table (insert.tableName.map normalize),
      .aliased "excluded"]
  has := has
  rows := fun index => if index = 0 then existing else proposal

def updateFrame (update : Update Query) (has : Nat → String → Bool) (old : Row) : Frame :=
  ⟨updateVisibles update, has, fun _ => old⟩

def assignedNames (entries : List (Ident × Option (Expr Query))) : List String :=
  entries.map fun entry => normalize entry.1

/-- What assignments make of a row. A column assigned twice is an error, and an element
that cannot be matched to its column may be anything. -/
structure Assigns (frame : Frame) (entries : List (Ident × Option (Expr Query)))
    (before after : Row) : Prop where
  once : (assignedNames entries).Nodup
  assigned : ∀ entry ∈ entries, ∀ expr, entry.2 = some expr →
    Gives server (kinds (normalize entry.1)) frame (normalize entry.1) expr
      (after (normalize entry.1))
  kept : ∀ column, column ∉ assignedNames entries → after column = before column

end Rows

end Dbsec.RowStore
