import Dbsec.Protection
import Dbsec.RowKeys

/-! Resolving the policy against the server's catalog, proxy/src/resolve.rs: the read path
gets its columns and row keys by OID, the write path its row keys by lower-cased name.
Rust's Unicode lower-casing is a parameter. The control connection, its deadlines and
the positions kept for the drift report are left out. -/
namespace Dbsec.Resolve
open Framing Envelope Params Transform Catalog Protection Outcome

/-- `pg_class` and `pg_attribute`, as the lookup joins them: names are exact. -/
structure PgCatalog where
  tableOid : String → String → Option Nat
  /-- A column's number and type. -/
  columnOf : Nat → String → Option (Int × Nat)
  tableOid_inj : ∀ {schema table schema' table' oid}, tableOid schema table = some oid →
    tableOid schema' table' = some oid → schema = schema' ∧ table = table'
  columnOf_inj : ∀ {oid column column' attnum type type'},
    columnOf oid column = some (attnum, type) → columnOf oid column' = some (attnum, type') →
    column = column'

structure ReadColumn where
  name : String
  transform : Option Wired
  mask : Option MaskSpec

/-- Where a table's row key lives: the write path reads its name and type, the read
path its number and type. -/
structure RowKeySpec extends ResolvedRowKey where
  attnum : Int
  table : String
  deriving DecidableEq

structure Resolved where
  columns : Table (Nat × Int) ReadColumn
  /-- The lower-cased names of the columns the read path rewrites. -/
  names : List String
  rowKeys : Table Nat RowKeySpec
  rowKeyByTable : Table (String × String) RowKeySpec
  generation : Nat

def Resolved.default : Resolved := ⟨.empty, [], .empty, .empty, 0⟩

inductive ResolveError where
  | columnNotFound (table column : String)
  | rowKeyType (reason : String)
  deriving DecidableEq

def readColumn (column : Protection.ProtectedColumn) : Option ReadColumn :=
  if !column.readable && column.mask.isNone then none
  else some ⟨column.qualifiedName, if column.readable then column.transform else none, column.mask⟩

theorem encrypt_wired {policy : Policy} {column : ColumnPolicy}
    (encrypted : column.transform = .encrypt) {read : ReadColumn}
    (joined : readColumn (policy.buildColumn column) = some read) :
    ∃ transform : EncryptTransform, read.transform = some (.encrypt transform) ∧
      transform.context.bytes = Text.encode column.qualifiedName.toList ∧
      transform.strict = policy.strictRowBinding column.schemaAndTable := by
  generalize keyed : Text.encode column.qualifiedName.toList = context
  simp only [readColumn, Policy.buildColumn, encrypted, keyed, Bool.not_true, Bool.false_and,
    Bool.false_eq_true, if_false, if_true, Option.some.injEq] at joined
  subst joined
  exact ⟨_, rfl, rfl, rfl⟩

def supported (typeOid : Nat) : Bool :=
  typeOid ∈ [RowKeys.Oid.int2, RowKeys.Oid.int4, RowKeys.Oid.int8, RowKeys.Oid.text,
    RowKeys.Oid.varchar, RowKeys.Oid.uuid]

section Resolution
variable (lowercase : String → String) (catalog : PgCatalog)

def lookup (schema table column : String) : Except ResolveError (Nat × Int × Nat) :=
  match catalog.tableOid schema table with
  | none => .error (.columnNotFound (tableName schema table) column)
  | some oid =>
    match catalog.columnOf oid column with
    | none => .error (.columnNotFound (tableName schema table) column)
    | some (attnum, type) => .ok (oid, attnum, type)

def resolveColumn (resolved : Resolved) (column : Protection.ProtectedColumn) :
    Except ResolveError Resolved := do
  let (oid, attnum, _) ← lookup catalog column.schema column.table column.column
  return match readColumn column with
    | none => resolved
    | some read =>
      { resolved with
        columns := resolved.columns.put (oid, attnum) read
        names := lowercase column.column :: resolved.names }

def resolveRowKey (resolved : Resolved) (decl : RowKeyDecl) : Except ResolveError Resolved := do
  let (oid, attnum, type) ← lookup catalog decl.schema decl.table decl.column
  if supported type then
    let spec : RowKeySpec := ⟨⟨decl.column, type⟩, attnum, tableName decl.schema decl.table⟩
    return { resolved with
      rowKeyByTable :=
        resolved.rowKeyByTable.put (lowercase decl.schema, lowercase decl.table) spec
      rowKeys := resolved.rowKeys.put oid spec }
  else
    let name := qualified decl.schema decl.table decl.column
    .error (.rowKeyType (s!"{name} has type oid {type}, which cannot be canonicalised as a row " ++
      "key; use an integer, text or uuid column"))

def resolveColumns (columns : List Protection.ProtectedColumn) (rowKeys : List RowKeyDecl) :
    Except ResolveError Resolved := do
  let resolved ← columns.foldlM (resolveColumn lowercase catalog) Resolved.default
  rowKeys.foldlM (resolveRowKey lowercase catalog) resolved

end Resolution

def Resolved.rowContext (resolved : Resolved) (lowercase : String → String) : RowContext :=
  ⟨lowercase, ⟨resolved.rowKeyByTable.entries.map fun entry => (entry.1, entry.2.toResolvedRowKey),
    by simpa [List.map_map, Function.comp_def] using resolved.rowKeyByTable.distinct⟩⟩

variable {catalog : PgCatalog}

theorem lookup_ok {schema table column : String} {oid type : Nat} {attnum : Int}
    (found : lookup catalog schema table column = .ok (oid, attnum, type)) :
    catalog.tableOid schema table = some oid ∧
      catalog.columnOf oid column = some (attnum, type) := by
  unfold lookup at found
  split at found
  · cases found
  · rename_i held tabled
    split at found
    · cases found
    · rename_i number kind listed
      cases found
      exact ⟨tabled, listed⟩

/-- The catalog places a declared row key at this table and column. -/
structure Declares (catalog : PgCatalog) (decl : RowKeyDecl) (oid : Nat) (spec : RowKeySpec) :
    Prop where
  table : catalog.tableOid decl.schema decl.table = some oid
  column : catalog.columnOf oid decl.column = some (spec.attnum, spec.typeOid)
  name : spec.name = decl.column
  tableName : spec.table = tableName decl.schema decl.table

theorem Declares.unique {decl : RowKeyDecl} {oid oid' : Nat} {spec spec' : RowKeySpec}
    (first : Declares catalog decl oid spec) (second : Declares catalog decl oid' spec') :
    oid = oid' ∧ spec = spec' := by
  have sameTable : oid = oid' := Option.some.inj (first.table.symm.trans second.table)
  subst sameTable
  have sameColumn := Option.some.inj (first.column.symm.trans second.column)
  obtain ⟨⟨name, type⟩, attnum, table⟩ := spec
  obtain ⟨⟨name', type'⟩, attnum', table'⟩ := spec'
  obtain ⟨rfl, rfl⟩ := Prod.mk.inj sameColumn
  have sameName : name = name' := first.name.trans second.name.symm
  have sameText : table = table' := first.tableName.trans second.tableName.symm
  subst sameName sameText
  exact ⟨rfl, rfl⟩

section Folds
variable {lowercase : String → String} {catalog : PgCatalog} {resolved after : Resolved}

theorem resolveRowKey_ok {decl : RowKeyDecl}
    (ran : resolveRowKey lowercase catalog resolved decl = .ok after) :
    ∃ oid spec, Declares catalog decl oid spec ∧
      after = { resolved with
        rowKeyByTable :=
          resolved.rowKeyByTable.put (lowercase decl.schema, lowercase decl.table) spec
        rowKeys := resolved.rowKeys.put oid spec } := by
  simp only [resolveRowKey, bind_ok_iff] at ran
  obtain ⟨⟨oid, attnum, type⟩, found, ran⟩ := ran
  obtain ⟨tabled, listed⟩ := lookup_ok found
  dsimp only at ran
  split at ran
  · simp only [pure_ok_iff] at ran
    exact ⟨oid, _, ⟨tabled, listed, rfl, rfl⟩, ran.symm⟩
  · cases ran

theorem filled_by {Key : Type} [DecidableEq Key] (mapOf : Resolved → Table Key RowKeySpec)
    (keyOf : RowKeyDecl → Nat → Key)
    (fills : ∀ resolved decl after oid spec, Declares catalog decl oid spec →
      after = { resolved with
        rowKeyByTable :=
          resolved.rowKeyByTable.put (lowercase decl.schema, lowercase decl.table) spec
        rowKeys := resolved.rowKeys.put oid spec } →
      mapOf after = (mapOf resolved).put (keyOf decl oid) spec)
    {decls : List RowKeyDecl} {start after : Resolved}
    (ran : decls.foldlM (resolveRowKey lowercase catalog) start = .ok after) (key : Key) :
    (∃ decl ∈ decls, ∃ oid spec, Declares catalog decl oid spec ∧ keyOf decl oid = key ∧
        (mapOf after).get key = some spec) ∨
      (∀ decl ∈ decls, ∀ oid spec, Declares catalog decl oid spec → keyOf decl oid ≠ key) ∧
        (mapOf after).get key = (mapOf start).get key := by
  induction decls generalizing start with
  | nil =>
    cases ran
    exact .inr ⟨by simp, rfl⟩
  | cons decl rest ih =>
    obtain ⟨middle, here, later⟩ := bind_ok_iff.mp ran
    obtain ⟨oid, spec, declared, shape⟩ := resolveRowKey_ok here
    have filled := fills _ _ _ _ _ declared shape
    rcases ih later with ⟨other, member, found⟩ | ⟨none, kept⟩
    · exact .inl ⟨other, List.mem_cons_of_mem _ member, found⟩
    · by_cases same : keyOf decl oid = key
      · refine .inl ⟨decl, List.mem_cons_self, oid, spec, declared, same, ?_⟩
        rw [kept, filled, same, Table.get_put_self]
      · refine .inr ⟨?_, ?_⟩
        · intro other member oid' spec' declared'
          rcases List.mem_cons.mp member with rfl | tail
          · obtain ⟨sameOid, _⟩ := declared.unique declared'
            rw [← sameOid]
            exact same
          · exact none other tail oid' spec' declared'
        · rw [kept, filled, Table.get_put_ne _ _ same]

variable {decls : List RowKeyDecl} {start : Resolved}

theorem declared_of_ran (ran : decls.foldlM (resolveRowKey lowercase catalog) start = .ok after) :
    ∀ decl ∈ decls, ∃ oid spec, Declares catalog decl oid spec := by
  induction decls generalizing start with
  | nil => simp
  | cons decl rest ih =>
    obtain ⟨middle, here, later⟩ := bind_ok_iff.mp ran
    obtain ⟨oid, spec, declared, _⟩ := resolveRowKey_ok here
    intro other member
    rcases List.mem_cons.mp member with rfl | tail
    · exact ⟨oid, spec, declared⟩
    · exact ih later other tail

theorem resolveColumn_ok {column : Protection.ProtectedColumn}
    (ran : resolveColumn lowercase catalog resolved column = .ok after) :
    ∃ oid attnum type, catalog.tableOid column.schema column.table = some oid ∧
      catalog.columnOf oid column.column = some (attnum, type) ∧
      after = match readColumn column with
        | none => resolved
        | some read =>
          { resolved with
            columns := resolved.columns.put (oid, attnum) read
            names := lowercase column.column :: resolved.names } := by
  simp only [resolveColumn, bind_ok_iff, pure_ok_iff] at ran
  obtain ⟨⟨oid, attnum, type⟩, found, rfl⟩ := ran
  obtain ⟨tabled, listed⟩ := lookup_ok found
  exact ⟨oid, attnum, type, tabled, listed, rfl⟩

variable {columns : List Protection.ProtectedColumn}

theorem columns_ok (ran : columns.foldlM (resolveColumn lowercase catalog) start = .ok after) :
    after.rowKeys = start.rowKeys ∧ after.rowKeyByTable = start.rowKeyByTable ∧
      ∀ column ∈ columns, ∃ oid, catalog.tableOid column.schema column.table = some oid := by
  induction columns generalizing start with
  | nil =>
    cases ran
    exact ⟨rfl, rfl, by simp⟩
  | cons column rest ih =>
    obtain ⟨middle, here, later⟩ := bind_ok_iff.mp ran
    obtain ⟨oid, attnum, type, tabled, _, shape⟩ := resolveColumn_ok here
    obtain ⟨keys, byTable, each⟩ := ih later
    have kept : middle.rowKeys = start.rowKeys ∧ middle.rowKeyByTable = start.rowKeyByTable := by
      rw [shape]
      cases readColumn column <;> exact ⟨rfl, rfl⟩
    refine ⟨keys.trans kept.1, byTable.trans kept.2, ?_⟩
    intro other member
    rcases List.mem_cons.mp member with rfl | tail
    · exact ⟨oid, tabled⟩
    · exact each other tail

theorem columns_get (ran : columns.foldlM (resolveColumn lowercase catalog) start = .ok after)
    {place : Nat × Int} {read : ReadColumn} (found : after.columns.get place = some read) :
    start.columns.get place = some read ∨
      ∃ column ∈ columns, readColumn column = some read ∧
        catalog.tableOid column.schema column.table = some place.1 ∧
        ∃ type, catalog.columnOf place.1 column.column = some (place.2, type) := by
  induction columns generalizing start with
  | nil =>
    cases ran
    exact .inl found
  | cons column rest ih =>
    obtain ⟨middle, here, later⟩ := bind_ok_iff.mp ran
    obtain ⟨oid, attnum, type, tabled, listed, shape⟩ := resolveColumn_ok here
    rcases ih later with held | ⟨other, member, placed⟩
    · cases joined : readColumn column with
      | none =>
        rw [joined] at shape
        subst shape
        exact .inl held
      | some own =>
        rw [joined] at shape
        rw [shape] at held
        simp only [Table.get_put] at held
        by_cases same : (oid, attnum) = place
        · rw [if_pos same] at held
          cases held
          subst same
          exact .inr ⟨column, List.mem_cons_self, joined, tabled, type, listed⟩
        · rw [if_neg same] at held
          exact .inl held
    · exact .inr ⟨other, List.mem_cons_of_mem _ member, placed⟩

theorem rowKeys_keep_columns
    (ran : decls.foldlM (resolveRowKey lowercase catalog) start = .ok after) :
    after.columns = start.columns := by
  induction decls generalizing start with
  | nil =>
    cases ran
    rfl
  | cons decl rest ih =>
    obtain ⟨middle, here, later⟩ := bind_ok_iff.mp ran
    obtain ⟨_, _, _, shape⟩ := resolveRowKey_ok here
    rw [ih later, shape]

end Folds

section WriteSide

/-- A column of the policy as the write path's catalog takes it. -/
def writeColumn (wire : Wired → FieldTransform) (column : Protection.ProtectedColumn) :
    Catalog.ProtectedColumn :=
  ⟨column.schema, column.table, column.column, column.transform.map wire⟩

theorem add_tables (catalog : WriteCatalog) (column : Catalog.ProtectedColumn)
    (key : String × String) :
    ((catalog.add column).tables.get key).isSome ↔
      ((column.schema, column.table) = key ∧ column.transform.isSome) ∨
        (catalog.tables.get key).isSome := by
  unfold WriteCatalog.add
  cases wired : column.transform with
  | none => simp
  | some transform =>
    simp only [WriteCatalog.isSome_put_iff, Option.isSome_some, and_true]
    exact or_congr_left eq_comm

theorem new_tables (columns : List Catalog.ProtectedColumn)
    (onUnprotected : Unprotected.OnUnprotected) (key : String × String) :
    ((WriteCatalog.new columns onUnprotected).tables.get key).isSome ↔
      ∃ column ∈ columns, (column.schema, column.table) = key ∧ column.transform.isSome := by
  have fold : ∀ (columns : List Catalog.ProtectedColumn) (start : WriteCatalog),
      ((columns.foldl WriteCatalog.add start).tables.get key).isSome ↔
        (∃ column ∈ columns, (column.schema, column.table) = key ∧ column.transform.isSome) ∨
          (start.tables.get key).isSome := by
    intro columns
    induction columns with
    | nil => simp
    | cons column rest ih =>
      intro start
      rw [List.foldl_cons, ih, add_tables]
      simp only [List.mem_cons, exists_eq_or_imp]
      rw [or_left_comm, or_assoc]
  rw [WriteCatalog.new, fold]
  simp [WriteCatalog.empty]

theorem sealed_iff {policy : Policy} (wire : Wired → FieldTransform)
    (onUnprotected : Unprotected.OnUnprotected) (key : String × String) :
    ((WriteCatalog.new (policy.build.map (writeColumn wire)) onUnprotected).tables.get key).isSome ↔
      ∃ column ∈ policy.columns, column.schemaAndTable = key ∧ column.transform ≠ .none := by
  rw [new_tables]
  simp only [Policy.build, List.map_map, List.mem_map, Function.comp_apply,
    exists_exists_and_eq_and]
  refine exists_congr fun column => and_congr_right fun _ => and_congr Iff.rfl ?_
  cases kind : column.transform <;> simp [writeColumn, Policy.buildColumn, kind]

end WriteSide

/-- Both directions find no row key, or the same column of the table with one type. -/
def KeysAgree (catalog : PgCatalog) (oid : Nat) : Option ResolvedRowKey → Option RowKeySpec → Prop
  | none, none => True
  | some written, some read =>
    written.typeOid = read.typeOid ∧
      catalog.columnOf oid written.name = some (read.attnum, read.typeOid)
  | _, _ => False

/-- The write path's row keys, found by name, are the read path's, found by OID, and
every declaration is the one its own table finds on either side. -/
structure Agrees (lowercase : String → String) (catalog : PgCatalog) (writes : WriteCatalog)
    (policy : Policy) (resolved : Resolved) : Prop where
  sameKey : ∀ {schema table oid}, catalog.tableOid schema table = some oid →
    (writes.tables.get (schema, table)).isSome →
    KeysAgree catalog oid ((resolved.rowContext lowercase).rowKey schema table)
      (resolved.rowKeys.get oid)
  own : ∀ {entry}, entry ∈ policy.tables →
    ∀ {oid spec}, Declares catalog entry.rowKeyDecl oid spec →
    resolved.rowKeyByTable.get
      (lowercase entry.schemaAndTable.1, lowercase entry.schemaAndTable.2) =
        some spec ∧
      resolved.rowKeys.get oid = some spec

/-- No table with sealed columns is spelled like a row-keyed table but for its case. -/
def NoCaseCollision (lowercase : String → String) (policy : Policy) : Prop :=
  ∀ entry ∈ policy.tables, ∀ column ∈ policy.columns, column.transform ≠ .none →
    lowercase column.schemaAndTable.1 = lowercase entry.schemaAndTable.1 →
    lowercase column.schemaAndTable.2 = lowercase entry.schemaAndTable.2 →
    column.schemaAndTable = entry.schemaAndTable

section Agreement
variable {lowercase : String → String} {catalog : PgCatalog} {policy : Policy}
  {resolved : Resolved}

theorem rowContext_rowKey (schema table : String) :
    (resolved.rowContext lowercase).rowKey schema table =
      (resolved.rowKeyByTable.get (lowercase schema, lowercase table)).map
        (·.toResolvedRowKey) := by
  have mapped : ∀ entries : List ((String × String) × RowKeySpec), ∀ key,
      Table.find (entries.map fun entry => (entry.1, entry.2.toResolvedRowKey)) key =
        (Table.find entries key).map (·.toResolvedRowKey) := by
    intro entries key
    induction entries with
    | nil => rfl
    | cons entry rest ih =>
      simp only [List.map_cons, Table.find]
      split
      · rfl
      · exact ih
  exact mapped resolved.rowKeyByTable.entries _

theorem decl_mem {decl : RowKeyDecl} (listed : decl ∈ policy.rowKeys) :
    ∃ entry ∈ policy.tables, entry.rowKeyDecl = decl := List.mem_map.mp listed

variable {entry : TablePolicy}

theorem entry_unique (distinct : (policy.tables.map (·.schemaAndTable)).Nodup) {other : TablePolicy}
    (member : entry ∈ policy.tables) (member' : other ∈ policy.tables)
    (same : entry.schemaAndTable = other.schemaAndTable) : entry = other :=
  List.inj_on_of_nodup_map distinct member member' same

theorem rowKeys_get (ran : resolveColumns lowercase catalog policy.build policy.rowKeys =
      .ok resolved) (oid : Nat) :
    (∃ entry ∈ policy.tables, ∃ spec, Declares catalog entry.rowKeyDecl oid spec ∧
        resolved.rowKeys.get oid = some spec) ∨
      (∀ entry ∈ policy.tables, ∀ spec, ¬ Declares catalog entry.rowKeyDecl oid spec) ∧
        resolved.rowKeys.get oid = none := by
  simp only [resolveColumns, bind_ok_iff] at ran
  obtain ⟨middle, columns, rowKeys⟩ := ran
  have filled := @filled_by lowercase catalog Nat _ (·.rowKeys) (fun _ oid => oid)
    (by rintro _ _ _ _ _ _ rfl; rfl) _ _ _ rowKeys oid
  rcases filled with ⟨decl, listed, oid', spec, declared, rfl, found⟩ | ⟨none, kept⟩
  · obtain ⟨entry, member, rfl⟩ := decl_mem listed
    exact .inl ⟨entry, member, spec, declared, found⟩
  · refine .inr ⟨?_, ?_⟩
    · intro entry member spec declared
      exact none _ (List.mem_map_of_mem member) oid spec declared rfl
    · rw [kept, (columns_ok columns).1]
      rfl

theorem rowKeyByTable_get (ran : resolveColumns lowercase catalog policy.build policy.rowKeys =
      .ok resolved) (key : String × String) :
    (∃ entry ∈ policy.tables, ∃ oid spec, Declares catalog entry.rowKeyDecl oid spec ∧
        (lowercase entry.schemaAndTable.1, lowercase entry.schemaAndTable.2) = key ∧
        resolved.rowKeyByTable.get key = some spec) ∨
      (∀ entry ∈ policy.tables,
          (lowercase entry.schemaAndTable.1, lowercase entry.schemaAndTable.2) ≠ key) ∧
        resolved.rowKeyByTable.get key = none := by
  simp only [resolveColumns, bind_ok_iff] at ran
  obtain ⟨middle, columns, rowKeys⟩ := ran
  have filled := @filled_by lowercase catalog (String × String) _ (·.rowKeyByTable)
    (fun decl _ => (lowercase decl.schema, lowercase decl.table))
    (by rintro _ _ _ _ _ _ rfl; rfl) _ _ _ rowKeys key
  rcases filled with ⟨decl, listed, oid, spec, declared, same, found⟩ | ⟨none, kept⟩
  · obtain ⟨entry, member, rfl⟩ := decl_mem listed
    exact .inl ⟨entry, member, oid, spec, declared, same, found⟩
  · refine .inr ⟨?_, ?_⟩
    · intro entry member
      obtain ⟨oid, spec, declared⟩ :=
        declared_of_ran rowKeys _ (List.mem_map_of_mem member)
      exact none _ (List.mem_map_of_mem member) oid spec declared
    · rw [kept, (columns_ok columns).2.1]
      rfl

theorem own_of_noCollision (valid : policy.validate = .ok ())
    (ran : resolveColumns lowercase catalog policy.build policy.rowKeys = .ok resolved)
    (apart : NoCaseCollision lowercase policy) (member : entry ∈ policy.tables) {oid : Nat}
    {spec : RowKeySpec} (declared : Declares catalog entry.rowKeyDecl oid spec) :
    resolved.rowKeyByTable.get
          (lowercase entry.schemaAndTable.1, lowercase entry.schemaAndTable.2) = some spec ∧
      resolved.rowKeys.get oid = some spec := by
  obtain ⟨distinct, bindable⟩ := validate_ok valid
  constructor
  · rcases rowKeyByTable_get ran (lowercase entry.schemaAndTable.1,
        lowercase entry.schemaAndTable.2) with
      ⟨other, member', oid', spec', declared', same, found⟩ | ⟨none, _⟩
    · obtain ⟨column, listed, named, encrypted⟩ := (bindable other member').encrypts
      obtain ⟨sameSchema, sameTable⟩ := Prod.mk.inj same
      have own := apart entry member column listed (by rw [encrypted]; decide)
        (by rw [named, sameSchema]) (by rw [named, sameTable])
      have sameEntry := entry_unique distinct member' member (named.symm.trans own)
      subst sameEntry
      obtain ⟨_, rfl⟩ := declared.unique declared'
      exact found
    · exact absurd rfl (none entry member)
  · rcases rowKeys_get ran oid with ⟨other, member', spec', declared', found⟩ | ⟨none, _⟩
    · have sameName := catalog.tableOid_inj declared'.table declared.table
      have sameEntry := entry_unique distinct member' member (Prod.ext sameName.1 sameName.2)
      subst sameEntry
      obtain ⟨_, rfl⟩ := declared.unique declared'
      exact found
    · exact absurd declared (none entry member spec)

theorem declared_of_member (ran : resolveColumns lowercase catalog policy.build policy.rowKeys =
      .ok resolved) (member : entry ∈ policy.tables) :
    ∃ oid spec, Declares catalog entry.rowKeyDecl oid spec := by
  simp only [resolveColumns, bind_ok_iff] at ran
  obtain ⟨_, _, rowKeys⟩ := ran
  exact declared_of_ran rowKeys _ (List.mem_map_of_mem member)

theorem tableOid_of_column (ran : resolveColumns lowercase catalog policy.build policy.rowKeys =
      .ok resolved) {column : ColumnPolicy} (member : column ∈ policy.columns) :
    ∃ oid, catalog.tableOid column.schemaAndTable.1 column.schemaAndTable.2 = some oid := by
  simp only [resolveColumns, bind_ok_iff] at ran
  obtain ⟨_, columns, _⟩ := ran
  exact (columns_ok columns).2.2 _ (List.mem_map_of_mem member)

/-- Writes and reads agree on row keys exactly when no sealed table shares its
lower-cased name with another table's declaration. -/
theorem row_keys_agree_iff (lowercase : String → String) (catalog : PgCatalog)
    (wire : Wired → FieldTransform) (onUnprotected : Unprotected.OnUnprotected) (policy : Policy)
    (resolved : Resolved) (valid : policy.validate = .ok ())
    (ran : resolveColumns lowercase catalog policy.build policy.rowKeys = .ok resolved) :
    Agrees lowercase catalog
        (WriteCatalog.new (policy.build.map (writeColumn wire)) onUnprotected) policy resolved ↔
      NoCaseCollision lowercase policy := by
  constructor
  · intro agrees entry member column listed transformed sameSchema sameTable
    obtain ⟨oid, spec, declared⟩ := declared_of_member ran member
    obtain ⟨held, tabled⟩ := tableOid_of_column ran listed
    have sealed := (sealed_iff wire onUnprotected _).mpr ⟨column, listed, rfl, transformed⟩
    have agree := agrees.sameKey tabled sealed
    rw [rowContext_rowKey, sameSchema, sameTable, (agrees.own member declared).1] at agree
    rcases rowKeys_get ran held with ⟨other, member', spec', declared', found⟩ | ⟨_, missing⟩
    · -- The table has a declaration of its own, in the same place as the other one.
      have sameName := catalog.tableOid_inj declared'.table tabled
      have owned := (agrees.own member' declared').1
      have place : other.schemaAndTable = column.schemaAndTable :=
        Prod.ext sameName.1 sameName.2
      rw [place, sameSchema, sameTable, (agrees.own member declared).1] at owned
      have sameText := congrArg RowKeySpec.table (Option.some.inj owned)
      rw [declared.tableName, declared'.tableName] at sameText
      obtain ⟨schemas, tables⟩ :=
        tableName_inj (splitTable_plain entry.table) (splitTable_plain other.table) sameText
      rw [← place]
      exact (Prod.ext schemas tables).symm
    · rw [missing] at agree
      exact agree.elim
  · intro apart
    refine ⟨?_, fun member => own_of_noCollision valid ran apart member⟩
    intro schema table oid tabled sealed
    obtain ⟨column, listed, named, transformed⟩ := (sealed_iff wire onUnprotected _).mp sealed
    rw [rowContext_rowKey]
    rcases rowKeyByTable_get ran (lowercase schema, lowercase table) with
      ⟨entry, member, oid', spec, declared, same, found⟩ | ⟨none, missing⟩
    · -- Whoever declared for the lowered name declared for this very table.
      obtain ⟨sameSchema, sameTable⟩ := Prod.mk.inj same
      have own := apart entry member column listed transformed (by rw [named, sameSchema])
        (by rw [named, sameTable])
      have place : entry.schemaAndTable = (schema, table) := own.symm.trans named
      have sameOid : oid' = oid := by
        have there := declared.table
        rw [show entry.rowKeyDecl.schema = schema from congrArg Prod.fst place,
          show entry.rowKeyDecl.table = table from congrArg Prod.snd place, tabled] at there
        exact (Option.some.inj there).symm
      subst sameOid
      rw [found, (own_of_noCollision valid ran apart member declared).2]
      refine ⟨rfl, ?_⟩
      rw [declared.name]
      exact declared.column
    · have unread : resolved.rowKeys.get oid = Option.none := by
        rcases rowKeys_get ran oid with ⟨entry, member, spec, declared, _⟩ | ⟨_, unread⟩
        · have sameName := catalog.tableOid_inj declared.table tabled
          exact absurd (by rw [← sameName.1, ← sameName.2]; rfl) (none entry member)
        · exact unread
      rw [missing, unread]
      trivial

variable {read : ReadColumn}

theorem covered_by_policy (ran : resolveColumns lowercase catalog policy.build policy.rowKeys =
      .ok resolved) {place : Nat × Int} (found : resolved.columns.get place = some read) :
    ∃ column ∈ policy.columns, readColumn (policy.buildColumn column) = some read ∧
      catalog.tableOid column.schemaAndTable.1 column.schemaAndTable.2 = some place.1 ∧
      ∃ type, catalog.columnOf place.1 column.column = some (place.2, type) := by
  simp only [resolveColumns, bind_ok_iff] at ran
  obtain ⟨middle, columns, rowKeys⟩ := ran
  rw [rowKeys_keep_columns rowKeys] at found
  rcases columns_get columns found with default | ⟨built, listed, placed⟩
  · cases default
  · obtain ⟨column, member, rfl⟩ := List.mem_map.mp listed
    exact ⟨column, member, placed⟩

theorem rowKey_not_opened (valid : policy.validate = .ok ())
    (ran : resolveColumns lowercase catalog policy.build policy.rowKeys = .ok resolved) {oid : Nat}
    {declared : RowKeySpec} (keyed : resolved.rowKeys.get oid = some declared)
    (found : resolved.columns.get (oid, declared.attnum) = some read) :
    read.transform = none := by
  obtain ⟨column, member, joined, tabled, type, listed⟩ := covered_by_policy ran found
  rcases rowKeys_get ran oid with ⟨entry, member', spec, places, held⟩ | ⟨_, missing⟩
  · rw [keyed] at held
    cases held
    have sameTable := catalog.tableOid_inj tabled places.table
    have sameColumn := catalog.columnOf_inj listed places.column
    have plain := ((validate_ok valid).2 entry member').plainKey column member
      (Prod.ext sameTable.1 sameTable.2) sameColumn
    unfold readColumn at joined
    split at joined
    · cases joined
    · cases joined
      simp [Policy.buildColumn, plain]
  · rw [keyed] at missing
    cases missing

end Agreement

section Spellings

def lowerAscii (name : String) : String := String.ofList (name.toList.map Text.asciiLower)

/-- `users (id int4, email bytea)` and `"Users" (id int4, email bytea)`. -/
def twoTables : PgCatalog where
  tableOid schema table :=
    if schema = "public" ∧ table = "users" then some 1
    else if schema = "public" ∧ table = "Users" then some 2
    else none
  columnOf _ column :=
    if column = "id" then some (1, 23) else if column = "email" then some (2, 17) else none
  tableOid_inj := by
    intro schema table schema' table' oid found found'
    grind
  columnOf_inj := by
    intro oid column column' attnum type type' found found'
    grind

def spelledTwice : Policy :=
  ⟨[.new "users" "email", .new "Users" "email"], [⟨"users", "id", false⟩]⟩

def emailWire : Wired → FieldTransform := fun _ =>
  ⟨0, .bytea, fun plaintext _ => .ok plaintext, fun _ => .ok none, false⟩

theorem only_users_declared_agree :
    let policy : Policy := ⟨[.new "users" "email"], [⟨"users", "id", false⟩]⟩
    policy.validate = .ok () ∧
      ∃ resolved, resolveColumns lowerAscii twoTables policy.build policy.rowKeys = .ok resolved ∧
        (Agrees lowerAscii twoTables
            (WriteCatalog.new (policy.build.map (writeColumn emailWire)) .reject) policy resolved ↔
          NoCaseCollision lowerAscii policy) :=
  ⟨rfl, _, rfl, row_keys_agree_iff lowerAscii twoTables emailWire .reject _ _ rfl rfl⟩

/-- With a row key declared for `users` only, values of `"Users"` are sealed against it
and opened without one. -/
theorem quoted_table_takes_other_row_key :
    spelledTwice.validate = .ok () ∧
      ∃ resolved, resolveColumns lowerAscii twoTables spelledTwice.build spelledTwice.rowKeys =
          .ok resolved ∧
        ((WriteCatalog.new (spelledTwice.build.map (writeColumn emailWire)) .reject).tables.get
            ("public", "Users")).isSome = true ∧
        (resolved.rowContext lowerAscii).rowKey "public" "Users" = some ⟨"id", 23⟩ ∧
        twoTables.tableOid "public" "Users" = some 2 ∧ resolved.rowKeys.get 2 = none :=
  ⟨rfl, _, rfl, rfl, rfl, rfl, rfl⟩

end Spellings

end Dbsec.Resolve
