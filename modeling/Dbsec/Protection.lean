import Dbsec.Transform
import Dbsec.Catalog

/-! The protection policy of core/src/policy.rs with the masks of core/src/mask.rs: what
it may declare, and the transforms it wires. A table name is split at its first dot. The
deterministic keys of FPE and token columns are named, their arithmetic is not modelled
here. Log lines are left out. -/
namespace Dbsec.Protection
open Framing Envelope Transform Catalog Outcome

/-- The two counts are machine words. -/
structure MaskSpec where
  keepFirst : UInt64
  keepLast : UInt64
  maskWith : Char
  deriving DecidableEq

/-- Masks characters, or every byte of a value that is not text. Sum and difference wrap,
as they do in a release build. -/
def MaskSpec.apply (mask : MaskSpec) (value : Bytes) : Bytes :=
  match Text.decode value with
  | some text =>
    if text.length ≤ (mask.keepFirst + mask.keepLast).toNat then
      Text.encode (List.replicate text.length mask.maskWith)
    else
      Text.encode (text.mapIdx fun place char =>
        if place < mask.keepFirst.toNat ∨
            (UInt64.ofNat text.length - mask.keepLast).toNat ≤ place then char
        else mask.maskWith)
  | none => Text.encode (List.replicate value.length mask.maskWith)

theorem MaskSpec.apply_length_le (mask : MaskSpec) (value : Bytes) :
    (mask.apply value).length ≤ 4 * value.length := by
  unfold MaskSpec.apply
  split
  · rename_i text read
    have fewer := Text.decode_length_le read
    split
    · have size := Text.encode_length_le (List.replicate text.length mask.maskWith)
      rw [List.length_replicate] at size
      omega
    · apply (Text.encode_length_le _).trans
      rw [List.length_mapIdx]
      omega
  · have size := Text.encode_length_le (List.replicate value.length mask.maskWith)
    rwa [List.length_replicate] at size

inductive TransformKind where
  | encrypt
  | fpe
  | token
  | none
  deriving DecidableEq

def defaultSchema : String := "public"

def splitTable (name : String) : String × String :=
  match name.toList.span (· ≠ '.') with
  | (_, []) => (defaultSchema, name)
  | (schema, _ :: table) => (String.ofList schema, String.ofList table)

structure ColumnPolicy where
  table : String
  column : String
  transform : TransformKind
  searchable : Bool
  detokenize : Bool
  mask : Option MaskSpec

def ColumnPolicy.new (table column : String) : ColumnPolicy :=
  ⟨table, column, .encrypt, false, true, none⟩

def qualified (schema table column : String) : String := s!"{schema}.{table}.{column}"

def tableName (schema table : String) : String := s!"{schema}.{table}"

def ColumnPolicy.schemaAndTable (column : ColumnPolicy) : String × String := splitTable column.table

def ColumnPolicy.qualifiedName (column : ColumnPolicy) : String :=
  qualified column.schemaAndTable.1 column.schemaAndTable.2 column.column

theorem ColumnPolicy.qualifiedName_ne_nil (column : ColumnPolicy) :
    Text.encode column.qualifiedName.toList ≠ [] := by
  have dot : '.' ∈ column.qualifiedName.toList := by
    change '.' ∈ (qualified _ _ _).toList
    simp only [qualified, String.toList_append, List.mem_append]
    exact .inl (.inl (.inl (.inr (by decide))))
  intro empty
  have none := List.flatMap_eq_nil_iff.mp empty '.' dot
  revert none
  decide

structure TablePolicy where
  table : String
  rowKey : String
  strictRowBinding : Bool

def TablePolicy.schemaAndTable (entry : TablePolicy) : String × String := splitTable entry.table

structure Policy where
  columns : List ColumnPolicy
  tables : List TablePolicy

def checkIdentifier (name kind ident : String) : Except String Unit :=
  if maxIdentifierBytes < ident.utf8ByteSize then
    let size := ident.utf8ByteSize
    .error (s!"{name}: {kind} name is {size} bytes, and PostgreSQL truncates identifiers to " ++
      s!"{maxIdentifierBytes}, so no table or column can carry it")
  else .ok ()

def checkIdentifiers (name schema table column : String) : Except String Unit := do
  checkIdentifier name "schema" schema
  checkIdentifier name "table" table
  checkIdentifier name "column" column

def ColumnPolicy.validate (column : ColumnPolicy) (seen : List String) : Except String Unit :=
  let (schema, table) := column.schemaAndTable
  let name := column.qualifiedName
  if name ∈ seen then .error s!"duplicate column entry for {name}"
  else if column.searchable && column.transform ≠ .encrypt then
    .error s!"{name}: searchable requires transform = \"encrypt\""
  else if !column.detokenize && column.transform ≠ .fpe then
    .error s!"{name}: detokenize = false is only meaningful for transform = \"fpe\""
  else if column.transform = .none && column.mask.isNone then
    .error s!"{name}: transform = \"none\" does nothing without a mask"
  else checkIdentifiers name schema table column.column

def validateColumns (seen : List String) : List ColumnPolicy → Except String Unit
  | [] => .ok ()
  | column :: rest => do
      column.validate seen
      validateColumns (column.qualifiedName :: seen) rest

/-- The columns of one table, by the name they are declared under. -/
def Policy.columnsOf (policy : Policy) (table : String × String) : List ColumnPolicy :=
  policy.columns.filter fun column => column.schemaAndTable == table

def Policy.validateRowKey (policy : Policy) (entry : TablePolicy) (seen : List String) :
    Except String Unit :=
  let (schema, table) := entry.schemaAndTable
  let qualified := tableName schema table
  let rowKey := entry.rowKey
  let columns := policy.columnsOf (schema, table)
  if qualified ∈ seen then .error s!"duplicate table entry for {qualified}"
  else do
    checkIdentifiers qualified schema table rowKey
    if columns.isEmpty then
      .error (s!"table {qualified} declares row_key = \"{rowKey}\" but has no protected " ++
        "columns, so there is nothing to bind")
    -- Only authenticated encryption has associated data to bind a row into.
    else if !columns.any (·.transform = .encrypt) then
      .error (s!"table {qualified} declares row_key = \"{rowKey}\", but none of its columns " ++
        "use transform = \"encrypt\"; fpe and token values are identical in every row by " ++
        "design, so a row key would bind nothing")
    else if columns.any fun column => column.column = rowKey ∧ column.transform ≠ .none then
      .error (s!"table {qualified} declares row_key = \"{rowKey}\", which is itself a " ++
        "transformed column; the row key must be readable to verify the row it names")
    else .ok ()

def Policy.validateRowKeys (policy : Policy) (seen : List String) :
    List TablePolicy → Except String Unit
  | [] => .ok ()
  | entry :: rest => do
      policy.validateRowKey entry seen
      let (schema, table) := entry.schemaAndTable
      policy.validateRowKeys (tableName schema table :: seen) rest

def Policy.validate (policy : Policy) : Except String Unit := do
  validateColumns [] policy.columns
  policy.validateRowKeys [] policy.tables

structure RowKeyDecl where
  schema : String
  table : String
  column : String

def TablePolicy.rowKeyDecl (entry : TablePolicy) : RowKeyDecl :=
  ⟨entry.schemaAndTable.1, entry.schemaAndTable.2, entry.rowKey⟩

def Policy.rowKeys (policy : Policy) : List RowKeyDecl := policy.tables.map (·.rowKeyDecl)

def Policy.strictRowBinding (policy : Policy) (table : String × String) : Bool :=
  (policy.tables.find? fun entry => entry.schemaAndTable == table).any (·.strictRowBinding)

/-- A wired transform: the envelope one binds its column's name. -/
inductive Wired where
  | encrypt (transform : EncryptTransform)
  | fpe (keyName : String) (detokenize : Bool)
  | token (keyName : String)

structure ProtectedColumn where
  schema : String
  table : String
  column : String
  transform : Option Wired
  searchable : Bool
  readable : Bool
  mask : Option MaskSpec

def ProtectedColumn.qualifiedName (column : ProtectedColumn) : String :=
  qualified column.schema column.table column.column

def Policy.buildColumn (policy : Policy) (column : ColumnPolicy) : ProtectedColumn :=
  let (schema, table) := column.schemaAndTable
  let keyName := column.qualifiedName
  let (transform, readable) : Option Wired × Bool := match column.transform with
    | .encrypt =>
      let context : CellContext := ⟨Text.encode keyName.toList⟩
      let indexKey := if column.searchable then some keyName else none
      (some (.encrypt ⟨context, indexKey, policy.strictRowBinding (schema, table)⟩), true)
    | .fpe => (some (.fpe keyName column.detokenize), column.detokenize)
    | .token => (some (.token keyName), false)
    | .none => (none, false)
  ⟨schema, table, column.column, transform, column.searchable, readable, column.mask⟩

def Policy.build (policy : Policy) : List ProtectedColumn := policy.columns.map policy.buildColumn

theorem splitTable_plain (name : String) : '.' ∉ (splitTable name).1.toList := by
  unfold splitTable
  split
  · change '.' ∉ defaultSchema.toList
    decide
  · rename_i schema dot table spanned
    rw [List.span_eq_takeWhile_dropWhile] at spanned
    rw [String.toList_ofList, ← (Prod.mk.inj spanned).1]
    intro listed
    simpa using List.mem_takeWhile_imp listed

theorem tableName_inj {schema table schema' table' : String} (plain : '.' ∉ schema.toList)
    (plain' : '.' ∉ schema'.toList) (equal : tableName schema table = tableName schema' table') :
    schema = schema' ∧ table = table' := by
  have text : schema.toList ++ '.' :: table.toList = schema'.toList ++ '.' :: table'.toList := by
    have texts := congrArg String.toList equal
    simp only [tableName, String.toList_append, List.append_assoc] at texts
    exact texts
  have front : ∀ name rest : List Char, '.' ∉ name →
      (name ++ '.' :: rest).takeWhile (· ≠ '.') = name := by
    intro name rest dotless
    rw [List.takeWhile_append_of_pos (by
      intro char listed
      simp only [ne_eq, decide_eq_true_eq]
      exact fun dot => dotless (dot ▸ listed))]
    simp
  have schemas : schema.toList = schema'.toList := by
    rw [← front schema.toList table.toList plain, text, front _ _ plain']
  refine ⟨String.toList_inj.mp schemas, ?_⟩
  rw [schemas] at text
  exact String.toList_inj.mp (List.cons.inj (List.append_cancel_left text)).2

/-- A row key that binds something and can be read back to verify it. -/
structure Bindable (policy : Policy) (entry : TablePolicy) : Prop where
  encrypts : ∃ column ∈ policy.columns, column.schemaAndTable = entry.schemaAndTable ∧
    column.transform = .encrypt
  plainKey : ∀ column ∈ policy.columns, column.schemaAndTable = entry.schemaAndTable →
    column.column = entry.rowKey → column.transform = .none

variable {policy : Policy}

theorem mem_columnsOf {table : String × String} {column : ColumnPolicy} :
    column ∈ policy.columnsOf table ↔ column ∈ policy.columns ∧ column.schemaAndTable = table := by
  simp [Policy.columnsOf]

variable {seen : List String}

theorem validateRowKey_ok {entry : TablePolicy}
    (valid : policy.validateRowKey entry seen = .ok ()) :
    tableName entry.schemaAndTable.1 entry.schemaAndTable.2 ∉ seen ∧ Bindable policy entry := by
  unfold Policy.validateRowKey at valid
  dsimp only at valid
  split at valid
  · cases valid
  · rename_i fresh
    simp only [bind_ok_iff] at valid
    obtain ⟨_, _, valid⟩ := valid
    split at valid
    · cases valid
    · split at valid
      · cases valid
      · rename_i encrypts
        split at valid
        · cases valid
        · rename_i plain
          refine ⟨fresh, ?_, ?_⟩
          · simp only [Bool.not_eq_true', Bool.not_eq_false, List.any_eq_true,
              decide_eq_true_eq] at encrypts
            obtain ⟨column, listed, encrypted⟩ := encrypts
            obtain ⟨member, same⟩ := mem_columnsOf.mp listed
            exact ⟨column, member, same, encrypted⟩
          · intro column member same named
            by_contra transformed
            apply plain
            rw [List.any_eq_true]
            exact ⟨column, mem_columnsOf.mpr ⟨member, same⟩, by simp [named, transformed]⟩

theorem validateRowKeys_ok {entries : List TablePolicy}
    (valid : policy.validateRowKeys seen entries = .ok ()) :
    (entries.map (·.schemaAndTable)).Nodup ∧ ∀ entry ∈ entries,
      tableName entry.schemaAndTable.1 entry.schemaAndTable.2 ∉ seen ∧ Bindable policy entry := by
  induction entries generalizing seen with
  | nil => simp
  | cons entry rest ih =>
    simp only [Policy.validateRowKeys, bind_ok_iff] at valid
    obtain ⟨_, here, later⟩ := valid
    obtain ⟨distinct, each⟩ := ih later
    constructor
    · rw [List.map_cons, List.nodup_cons]
      refine ⟨?_, distinct⟩
      intro listed
      obtain ⟨other, member, same⟩ := List.mem_map.mp listed
      have unseen := (each other member).1
      rw [same] at unseen
      exact unseen List.mem_cons_self
    · intro other member
      rcases List.mem_cons.mp member with rfl | later'
      · exact validateRowKey_ok here
      · obtain ⟨unseen, bindable⟩ := each other later'
        exact ⟨fun listed => unseen (List.mem_cons_of_mem _ listed), bindable⟩

theorem validate_ok (valid : policy.validate = .ok ()) :
    (policy.tables.map (·.schemaAndTable)).Nodup ∧
      ∀ entry ∈ policy.tables, Bindable policy entry := by
  simp only [Policy.validate, bind_ok_iff] at valid
  obtain ⟨_, _, rowKeys⟩ := valid
  obtain ⟨distinct, each⟩ := validateRowKeys_ok rowKeys
  exact ⟨distinct, fun entry member => (each entry member).2⟩

end Dbsec.Protection
