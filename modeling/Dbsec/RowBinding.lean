import Dbsec.KeyedWrites
import Dbsec.PinnedRow
import Dbsec.SealedForm

/-! Which row an encrypted value is bound to once the server has stored it: the sealing
decisions of proxy/src/encrypt/seal.rs followed through Bind into the stored row. Only
transforms with a BYTEA form encrypt; format-preserving and token values are the same in
every row. -/
namespace Dbsec.RowBinding
open Framing Sql Params Catalog Literals Scope Seal Writes SealedForm KeyedWrites BoundParams
open StoredKeys KeptLiterals RowStore PinnedRow

/-- The transforms a column may be sealed with: its own, whatever nonce each use draws. -/
abbrev Sealings := String → FieldTransform → Prop

/-- The value is what sealing some plaintext for the column and this row gives. -/
def SealedFor (sealings : Sealings) (column : String) (key : Option Envelope.RowKey)
    (stored : Bytes) : Prop :=
  ∃ transform plaintext, sealings column transform ∧ transform.sealValue plaintext key = .ok stored

def Encrypted (sealings : Sealings) (column : String) (stored : Bytes) : Prop :=
  ∃ key, SealedFor sealings column key stored

/-- A table whose encrypted values are bound to its rows. The policy admits no row key
that is itself transformed. -/
structure RowBound (context : Context) (name : ObjectName) (columns : Columns)
    (spec : ResolvedRowKey) : Prop where
  found : context.table name = .ok (some columns)
  declared : ∃ schema table, resolvedName name = some (schema, table) ∧
    context.rowKeySpec schema table = some spec
  plainKey : columns.get spec.name = none

section Values
variable {Query : Type} {server : Server Query} {context : Context} {bind : BindMessage}
  {params : ParamTransforms} {columns : Columns} {sealings : Sealings} {name : String}
  {transform : FieldTransform} {row : RowKeySource} {expr : Expr Query}

/-- A value for a protected column that is relayed as the client wrote it. -/
def Left (context : Context) (transform : FieldTransform) (row : RowKeySource)
    (expr : Expr Query) : Prop :=
  (∀ text, unwrapCasts expr ≠ .value (.placeholder text)) ∧ unwrapCasts expr ≠ .value .null ∧
    sealedLiteral context transform row expr = none

/-- The server executes with the parameters of a Bind the proxy rewrote. -/
structure Received (server : Server Query) (context : Context) (columns : Columns)
    (sealings : Sealings) (bind : BindMessage) (params : ParamTransforms) : Prop where
  formats : server.formats = bind.paramFormats
  values : bindParams context bind params = .ok server.values
  own : ∀ name transform, columns.get name = some transform → sealings name transform
  /-- A recorded transform with the identity of a column's transform is that column's. -/
  recorded : ∀ index held row, (index, ParamAction.sealWith held row) ∈ params.entries →
    ∀ name transform, columns.get name = some transform → held.identity = transform.identity →
      sealings name held ∧ held.wire = transform.wire

theorem placeholder_sealedFor (received : Received server context columns sealings bind params)
    (guarded : columns.get name = some transform) (encrypts : transform.wire = .bytea) {index : Nat}
    (recorded : RecordedFor params transform row index) {out : Bytes}
    (read : readParam server (.sealed .bytea) index = some (some out)) :
    ∃ key, bindRowKey row bind = .ok key ∧ SealedFor sealings name key out := by
  obtain ⟨held, listed, same⟩ := recorded
  obtain ⟨own, sameWire⟩ := received.recorded index held row listed name transform guarded same
  cases carried : (server.values[index]?).join with
  | none => simp [readParam, carried] at read
  | some sent =>
    obtain ⟨plaintext, key, stored, bound, produced, rfl⟩ :=
      bindParams_sealed received.values listed carried
    rw [sameWire, encrypts] at carried
    rw [BindMessage.paramFormat, ← received.formats] at carried
    rw [readParam_encoded server carried read]
    exact ⟨key, bound, held, plaintext, own, produced⟩

theorem literal_sealedFor {stored : Bytes} (own : sealings name transform)
    (sealedHere : sealedLiteral context transform row expr = some stored) :
    ∃ key, bindRowKey row bind = .ok key ∧ SealedFor sealings name key stored := by
  unfold sealedLiteral at sealedHere
  split at sealedHere
  · obtain ⟨plaintext, _, produced⟩ := Option.bind_eq_some_iff.mp sealedHere
    cases row with
    | literal key =>
      exact ⟨some key, rfl, transform, plaintext, own, Outcome.toOption_eq_some_iff.mp produced⟩
    | param index oid column => cases produced
    | none => exact ⟨none, rfl, transform, plaintext, own, Outcome.toOption_eq_some_iff.mp produced⟩
  · cases sealedHere

theorem not_default_of_unwrapCasts {value : Value} (unwrapped : unwrapCasts expr = .value value) :
    isDefault expr = false := by
  unfold isDefault
  split
  · cases unwrapped
  · rfl

/-- A protected value the rewrite did not leave as written is stored sealed against the
row it was rewritten for. -/
theorem stored_sealedFor (received : Received server context columns sealings bind params)
    (guarded : columns.get name = some transform) (encrypts : transform.wire = .bytea)
    (binds : BindsLater params transform row expr)
    (kept : CastsKeep server (.sealed .bytea) expr) (sealedHere : ¬ Left context transform row expr)
    {frame : Frame} {column : String} {out : Bytes}
    (gives : Gives server (.sealed .bytea) frame column (sealedForm context transform row expr)
      (some out)) :
    ∃ key, bindRowKey row bind = .ok key ∧ SealedFor sealings name key out := by
  unfold sealedForm at gives
  split at gives
  · rename_i text isPlaceholder
    rw [Gives, not_default_of_unwrapCasts isPlaceholder, if_neg Bool.false_ne_true] at gives
    have read := value_unwrapCasts server kept gives
    rw [isPlaceholder] at read
    obtain ⟨index, placed, read⟩ := Option.bind_eq_some_iff.mp read
    exact placeholder_sealedFor received guarded encrypts
      (binds text index isPlaceholder placed) read
  · rename_i isNull
    rw [Gives, not_default_of_unwrapCasts isNull, if_neg Bool.false_ne_true] at gives
    have read := value_unwrapCasts server kept gives
    rw [isNull] at read
    cases read
  · rename_i notPlaceholder notNull
    cases literal : sealedLiteral context transform row expr with
    | none => exact absurd ⟨notPlaceholder, notNull, literal⟩ sealedHere
    | some stored =>
      simp only [literal, encrypts] at gives
      rw [Gives, if_neg (by nofun)] at gives
      rw [storedLiteral, given_sealed, value_byteaLiteral] at gives
      obtain rfl := Option.some.inj (Option.some.inj gives)
      exact literal_sealedFor (received.own name transform guarded) literal

end Values

section Proposals
variable {Query Statement : Type} {server : Server Query} {context : Context} {bind : BindMessage}
  {params : ParamTransforms} {columns : Columns} {sealings : Sealings} {spec : ResolvedRowKey}
  {idents : List Ident} {values : List (Expr Query)} {proposal : Row}

theorem zip_rowForm (row : RowKeySource) (idents : List Ident) (values : List (Expr Query)) :
    idents.zip (rowForm context columns row idents values) =
      (idents.zip values).map fun entry =>
        (entry.1, listedForm context columns row entry.1 entry.2) := by
  induction idents generalizing values with
  | nil => rfl
  | cons ident idents ih =>
    cases values with
    | nil => rfl
    | cons value rest => simp only [rowForm, List.zip_cons_cons, List.map_cons, ih]

variable {expr : Expr Query}

theorem mem_zip_of_findIdx? {wanted : Ident → Bool} {position : Nat}
    (found : idents.findIdx? wanted = some position) (held : values[position]? = some expr) :
    ∃ ident, wanted ident = true ∧ (ident, expr) ∈ idents.zip values := by
  obtain ⟨inside, matched, _⟩ := List.findIdx?_eq_some_iff_getElem.mp found
  refine ⟨idents[position], matched, List.mem_of_getElem? (i := position) ?_⟩
  rw [List.getElem?_zip_eq_some]
  exact ⟨List.getElem?_eq_getElem inside, held⟩

theorem proposal_key (proposes : RowProposes server (kindOf spec columns) idents values proposal)
    {ident : Ident} (listed : (ident, expr) ∈ idents.zip values)
    (named : normalize ident = spec.name) (typed : keyOid server.keyColumn = some spec.typeOid)
    (written : KeyAsWritten server bind expr)
    {source : RowKeySource} (sourced : rowKeySource spec expr = some source) {key : Envelope.RowKey}
    (bound : bindRowKey source bind = .ok (some key)) :
    proposal spec.name = some key.bytes := by
  have given := proposes.listed _ listed
  have spelled : isDefault expr = false := by
    unfold isDefault
    split
    · cases sourced
    · rfl
  rw [named, kindOf, if_pos rfl, Gives, spelled, if_neg Bool.false_ne_true] at given
  exact (keySpelled_of_asWritten typed written sourced bound).stored _ given

/-- The client's entry for a column in the row at `place`, with the row it is sealed
against. -/
def ProposedAs (context : Context) (columns : Columns) (insert : Sql.Insert Query Statement)
    (place : Nat) (column : String) (row : RowKeySource) (expr : Expr Query) : Prop :=
  ∃ source rows key values ident, proposedRows context columns insert = some (source, rows, key) ∧
    rows[place]? = some values ∧ (ident, expr) ∈ insert.columns.zip values ∧
      normalize ident = column ∧ row = proposedSource key values

/-- The server reads what the sealing of an INSERT rests on as it is written: the keys the
proxy reads, and the casts around protected values. -/
structure ReadAsWritten (server : Server Query) (spec : ResolvedRowKey) (bind : BindMessage)
    (columns : Columns) (insert : Sql.Insert Query Statement) : Prop where
  typed : keyOid server.keyColumn = some spec.typeOid
  keys : ∀ values ∈ spelledRows insert, ∀ entry ∈ insert.columns.zip values,
    normalize entry.1 = spec.name → ∀ source, rowKeySource spec entry.2 = some source →
      KeyAsWritten server bind entry.2
  listed : ∀ values ∈ spelledRows insert, ∀ entry ∈ insert.columns.zip values,
    (columns.get (normalize entry.1)).isSome → CastsKeep server (.sealed .bytea) entry.2
  assigned : ∀ entry ∈ assignedEntries (conflictAssignments insert.on), ∀ expr,
    entry.2 = some expr → (columns.get (normalize entry.1)).isSome →
      CastsKeep server (.sealed .bytea) expr

variable {insert executed : Sql.Insert Query Statement} {on : Option (OnInsert Query)} {place : Nat}
  {source : QueryNode Query Statement} {rows : List (List (Expr Query))}
  {key : Option (ResolvedRowKey × Nat)}

theorem proposedRows_some
    (proposed : proposedRows context columns insert = some (source, rows, key)) :
    insert.columns ≠ [] ∧ spelledRows insert = rows ∧ insert.source = some source ∧
      source.body = .values rows ∧
      ∃ schema table, resolvedName insert.tableName = some (schema, table) ∧
        key = listedKey context schema table insert.columns := by
  unfold proposedRows at proposed
  split at proposed
  · cases proposed
  · rename_i listed
    obtain ⟨held, sourced, proposed⟩ := Option.bind_eq_some_iff.mp proposed
    split at proposed
    · rename_i values isValues
      obtain ⟨⟨schema, table⟩, resolved, same⟩ := Option.map_eq_some_iff.mp proposed
      cases same
      refine ⟨?_, by simp only [spelledRows, sourced, isValues], sourced, isValues, schema, table,
        resolved, rfl⟩
      intro empty
      simp [empty] at listed
    · cases proposed

theorem rowProposes_of_executed
    (form : executed = { (proposedForm context columns insert).1 with on })
    (proposes : Proposes server (kindOf spec columns) executed place proposal)
    (proposed : proposedRows context columns insert = some (source, rows, key))
    (held : rows[place]? = some values) :
    RowProposes server (kindOf spec columns) insert.columns
      (rowForm context columns (proposedSource key values) insert.columns values) proposal := by
  obtain ⟨listed, _⟩ := proposedRows_some proposed
  subst form
  simp only [proposedForm, proposed, Proposes] at proposes
  obtain ⟨sent, there, proposes⟩ := proposes listed
  rw [List.getElem?_map, held, Option.map_some, Option.some.injEq] at there
  rw [there]
  exact proposes

theorem proposedSource_key (bound : RowBound context insert.tableName columns spec)
    (written : ReadAsWritten server spec bind columns insert)
    (proposed : proposedRows context columns insert = some (source, rows, key))
    (held : rows[place]? = some values)
    (proposes : RowProposes server (kindOf spec columns) insert.columns
      (rowForm context columns (proposedSource key values) insert.columns values) proposal)
    {found : Envelope.RowKey}
    (read : bindRowKey (proposedSource key values) bind = .ok (some found)) :
    proposal spec.name = some found.bytes := by
  obtain ⟨_, spelled, _, _, schema, table, resolved, rfl⟩ := proposedRows_some proposed
  obtain ⟨schema', table', resolved', declared⟩ := bound.declared
  cases resolved.symm.trans resolved'
  simp only [listedKey, declared, Option.bind_some] at read proposes
  cases position : insert.columns.findIdx? (fun ident => normalize ident == spec.name) with
  | none => simp [position, proposedSource, bindRowKey] at read
  | some index =>
    simp only [position, Option.map_some, proposedSource] at read proposes
    cases sourced : values[index]?.bind (rowKeySource spec) with
    | none => simp [sourced, bindRowKey] at read
    | some row =>
      simp only [sourced, Option.getD_some] at read proposes
      obtain ⟨expr, there, sourced⟩ := Option.bind_eq_some_iff.mp sourced
      obtain ⟨ident, named, listed⟩ := mem_zip_of_findIdx? position there
      rw [beq_iff_eq] at named
      have kept : listedForm context columns row ident expr = expr := by
        simp only [listedForm, named, bound.plainKey]
      have relayed : (ident, expr) ∈
          insert.columns.zip (rowForm context columns row insert.columns values) := by
        rw [zip_rowForm]
        exact List.mem_map.mpr ⟨(ident, expr), listed, by rw [kept]⟩
      refine proposal_key proposes relayed named written.typed ?_ sourced read
      exact written.keys values (spelled ▸ List.mem_of_getElem? held) _ listed named row sourced

/-- An accepted INSERT on a row-bound table, what is executed for it, and a server that
received what the proxy bound. -/
structure Accepted (server : Server Query) (context : Context) (columns : Columns)
    (sealings : Sealings) (spec : ResolvedRowKey) (bind : BindMessage) (params : ParamTransforms)
    (insert executed : Sql.Insert Query Statement) : Prop where
  received : Received server context columns sealings bind params
  bound : RowBound context insert.tableName columns spec
  written : ReadAsWritten server spec bind columns insert
  binds : ProposalsBind context columns params insert
  form : ∃ on, executed = { (proposedForm context columns insert).1 with on }
  each : List.Forall₂ (AssignmentExact context (actionScope context columns insert) params)
    (conflictAssignments insert.on) (conflictAssignments executed.on)
  sameTarget : ∀ target assignments selection,
    executed.on = some (.onConflict target (.doUpdate assignments selection)) →
      ∃ assignments selection,
        insert.on = some (.onConflict target (.doUpdate assignments selection))

theorem proposal_sealedFor
    (accepted : Accepted server context columns sealings spec bind params insert executed)
    (proposes : Proposes server (kindOf spec columns) executed place proposal) {column : String}
    {row : RowKeySource} {transform : FieldTransform}
    (proposed : ProposedAs context columns insert place column row expr)
    (guarded : columns.get column = some transform) (encrypts : transform.wire = .bytea)
    (sealedHere : ¬ Left context transform row expr) {stored : Bytes}
    (there : proposal column = some stored) :
    ∃ found, bindRowKey row bind = .ok found ∧ SealedFor sealings column found stored ∧
      ∀ held, found = some held → proposal spec.name = some held.bytes := by
  obtain ⟨source, rows, key, values, ident, rowsFound, held, listed, rfl, rfl⟩ := proposed
  obtain ⟨received, bound, written, binds, ⟨on, form⟩, _, _⟩ := accepted
  have rowProposes := rowProposes_of_executed form proposes rowsFound held
  have spelled := (proposedRows_some rowsFound).2.1
  have apart : normalize ident ≠ spec.name := by
    intro same
    rw [same, bound.plainKey] at guarded
    cases guarded
  have given : Gives server (.sealed .bytea) noRelation (normalize ident)
      (sealedForm context transform (proposedSource key values) expr) (some stored) := by
    have entry := rowProposes.listed
      (ident, listedForm context columns (proposedSource key values) ident expr)
      (by rw [zip_rowForm]; exact List.mem_map.mpr ⟨(ident, expr), listed, rfl⟩)
    simpa only [kindOf, if_neg apart, guarded, encrypts, listedForm, there] using entry
  obtain ⟨found, read, sealedFor⟩ := stored_sealedFor received guarded encrypts
    (binds source rows key rowsFound values (List.mem_of_getElem? held) _ listed transform
      guarded).1
    (written.listed values (spelled ▸ List.mem_of_getElem? held) _ listed (by simp [guarded]))
    sealedHere given
  refine ⟨found, read, sealedFor, ?_⟩
  rintro key' rfl
  exact proposedSource_key bound written rowsFound held rowProposes read

end Proposals

end Dbsec.RowBinding
