import Dbsec.Text
import Dbsec.Table
import Dbsec.Unprotected

/-! Which tables and columns are protected, by name, and how a SQL name is folded to
one: core/src/ident.rs and proxy/src/encrypt/catalog.rs. A catalog is built from the
resolved policy one column at a time and carries how its parts agree. The row keys the
read path resolved (`row_key_by_table`) are a lookup by lower-cased name; Unicode
lower-casing itself is a parameter. -/
namespace Dbsec.Catalog
open Sql Params Unprotected

def maxIdentifierBytes : Nat := 63

def clip : Nat → List Char → List Char
  | _, [] => []
  | room, char :: rest =>
    if char.utf8Size ≤ room then char :: clip (room - char.utf8Size) rest else []

def foldIdentifier (value : String) (quoted : Bool) : String :=
  let clipped := clip maxIdentifierBytes value.toList
  String.ofList (if quoted then clipped else clipped.map Text.asciiLower)

def normalize (ident : Ident) : String := foldIdentifier ident.value ident.quoteStyle.isSome

/-- `(schema, table)`; an unqualified name is resolved against `public`. -/
def resolvedName (name : ObjectName) : Option (String × String) :=
  match name.reverse with
  | [] => none
  | [table] => some ("public", normalize table)
  | table :: schema :: _ => some (normalize schema, normalize table)

structure ProtectedColumn where
  schema : String
  table : String
  column : String
  /-- Absent for a mask-only column: its writes pass through. -/
  transform : Option FieldTransform

abbrev Columns := Table String FieldTransform
abbrev ReadColumns := List String

structure WriteCatalog where
  tables : Table (String × String) Columns
  bareNames : List String
  readColumns : Table (String × String) ReadColumns
  readBareNames : List String
  onUnprotected : OnUnprotected
  bare_of_table : ∀ key, (tables.get key).isSome → key.2 ∈ bareNames
  bare_of_read : ∀ key, (readColumns.get key).isSome → key.2 ∈ readBareNames
  read_of_table : ∀ key, (tables.get key).isSome → (readColumns.get key).isSome

namespace WriteCatalog

def empty (onUnprotected : OnUnprotected) : WriteCatalog where
  tables := .empty
  bareNames := []
  readColumns := .empty
  readBareNames := []
  onUnprotected := onUnprotected
  bare_of_table := nofun
  bare_of_read := nofun
  read_of_table := nofun

theorem isSome_put_iff {Value : Type} (table : Table (String × String) Value)
    (key asked : String × String) (value : Value) :
    ((table.put key value).get asked).isSome ↔ asked = key ∨ (table.get asked).isSome := by
  by_cases same : asked = key
  · subst same
    simp [Table.get_put_self]
  · simp [Table.get_put_ne table value (Ne.symm same), same]

/-- One column of the policy: every column protects reads, one with a transform also
seals writes. -/
def add (catalog : WriteCatalog) (column : ProtectedColumn) : WriteCatalog :=
  let key := (column.schema, column.table)
  let read := (catalog.readColumns.get key).getD []
  let readColumns := catalog.readColumns.put key (read ++ [column.column])
  let readBareNames := column.table :: catalog.readBareNames
  have bare_of_read : ∀ asked, (readColumns.get asked).isSome → asked.2 ∈ readBareNames := by
    intro asked held
    rcases (isSome_put_iff _ _ _ _).mp held with rfl | earlier
    · exact List.mem_cons_self ..
    · exact List.mem_cons_of_mem _ (catalog.bare_of_read asked earlier)
  match column.transform with
  | none =>
    { catalog with
      readColumns, readBareNames, bare_of_read
      read_of_table := fun asked held =>
        (isSome_put_iff _ _ _ _).mpr (.inr (catalog.read_of_table asked held)) }
  | some transform =>
    { catalog with
      tables := catalog.tables.put key
        (((catalog.tables.get key).getD .empty).put column.column transform)
      bareNames := column.table :: catalog.bareNames
      readColumns, readBareNames, bare_of_read
      bare_of_table := by
        intro asked held
        rcases (isSome_put_iff _ _ _ _).mp held with rfl | earlier
        · exact List.mem_cons_self ..
        · exact List.mem_cons_of_mem _ (catalog.bare_of_table asked earlier)
      read_of_table := by
        intro asked held
        rcases (isSome_put_iff _ _ _ _).mp held with rfl | earlier
        · exact (isSome_put_iff _ _ _ _).mpr (.inl rfl)
        · exact (isSome_put_iff _ _ _ _).mpr (.inr (catalog.read_of_table asked earlier)) }

def new (columns : List ProtectedColumn) (onUnprotected : OnUnprotected) : WriteCatalog :=
  columns.foldl add (empty onUnprotected)

def table (catalog : WriteCatalog) (name : ObjectName) : Option Columns :=
  (resolvedName name).bind catalog.tables.get

def mayBeProtected (catalog : WriteCatalog) (name : ObjectName) : Bool :=
  name.getLast?.any fun ident => catalog.bareNames.contains (normalize ident)

def protectsReads (catalog : WriteCatalog) (name : ObjectName) : Bool :=
  ((resolvedName name).bind catalog.readColumns.get).isSome

def readColumnsOf (catalog : WriteCatalog) (name : ObjectName) : ReadColumns :=
  ((resolvedName name).bind catalog.readColumns.get).getD []

def mayProtectReads (catalog : WriteCatalog) (name : ObjectName) : Bool :=
  name.getLast?.any fun ident => catalog.readBareNames.contains (normalize ident)

end WriteCatalog

/-- Both directions of one table; a mask-only table has nothing to seal. -/
def WriteCatalog.scoped (catalog : WriteCatalog) (name : ObjectName) :
    Option (Columns × ReadColumns) := do
  let key ← resolvedName name
  let read ← catalog.readColumns.get key
  return ((catalog.tables.get key).getD .empty, read)

structure ResolvedRowKey where
  name : String
  typeOid : Nat
  deriving DecidableEq

/-- What the write path reads of the live resolution. -/
structure RowContext where
  lowercase : String → String
  rowKeyByTable : Table (String × String) ResolvedRowKey

def RowContext.rowKey (rows : RowContext) (schema table : String) : Option ResolvedRowKey :=
  rows.rowKeyByTable.get (rows.lowercase schema, rows.lowercase table)

/-- What a rewrite reads: the catalog, the declared row keys and the session's two
tracked settings. -/
structure Context where
  catalog : WriteCatalog
  rows : Option RowContext
  display : ObjectName → String
  searchPathTrusted : Bool
  escapeStrings : Bool

namespace Context

def unprotected (context : Context) (site : Site) : Except Rejection Unit :=
  decideSite context.catalog.onUnprotected context.display site

def reportBare (context : Context) (name : ObjectName) (maybe : Bool) : Except Rejection Unit :=
  if maybe then context.unprotected (.searchPath name) else .ok ()

/-- The guard the three lookups share: an unqualified name is only looked up while
`search_path` is trusted, and reported when it may name a protected table. -/
def lookUp {Found : Type} (context : Context) (name : ObjectName) (maybe : Bool)
    (found missing : Found) : Except Rejection Found :=
  if context.searchPathTrusted || 1 < name.length then .ok found
  else do
    context.reportBare name maybe
    return missing

def table (context : Context) (name : ObjectName) : Except Rejection (Option Columns) :=
  context.lookUp name (context.catalog.mayBeProtected name) (context.catalog.table name) none

def readsProtected (context : Context) (name : ObjectName) : Except Rejection Bool :=
  context.lookUp name (context.catalog.mayProtectReads name) (context.catalog.protectsReads name)
    false

def scopedTable (context : Context) (name : ObjectName) :
    Except Rejection (Option (Columns × ReadColumns)) :=
  context.lookUp name (context.catalog.mayProtectReads name) (context.catalog.scoped name) none

def rowKeySpec (context : Context) (schema table : String) : Option ResolvedRowKey :=
  context.rows.bind fun rows => rows.rowKey schema table

end Context

end Dbsec.Catalog
