import Dbsec.PinnedWrites

/-! One accepted INSERT, upsert or UPDATE of a row-bound table under `reject`: what its
proposals, its conflict action and its assignments store is sealed against the row it is
stored in. -/
namespace Dbsec.RowInvariant
open Framing Sql Params Unprotected Catalog Literals Scope Accumulate Rewrite Predicate Seal
open QueryWalk Statements Writes SealedForm KeyedWrites KeptValues BoundParams RowStore PinnedRow
open RowBinding Upserts PinnedWrites

def Encrypts (columns : Columns) (column : String) : Prop :=
  ∃ transform, columns.get column = some transform ∧ transform.wire = .bytea

/-- Every encrypted value of the row is sealed against the key the row has now. -/
def RowSealed (encrypts : String → Prop) (sealings : Sealings) (spec : ResolvedRowKey) (row : Row) :
    Prop :=
  ∀ column stored, encrypts column → row column = some stored → Encrypted sealings column stored →
    ∃ key : Envelope.RowKey, row spec.name = some key.bytes ∧
      SealedFor sealings column (some key) stored

/-- What the run takes for granted about the server: the row key column has the type it is
declared with, a cast of a value for a BYTEA column keeps it or fails, and no column default
is an encrypted value. -/
structure Conforms {Query : Type} (server : Server Query) (spec : ResolvedRowKey)
    (columns : Columns) (sealings : Sealings) : Prop where
  typed : StoredKeys.keyOid server.keyColumn = some spec.typeOid
  casts : ∀ type bytes cast, server.cast (.sealed .bytea) type bytes = some cast → cast = bytes
  defaults : ∀ column transform stored, columns.get column = some transform →
    server.defaults column (some stored) → ¬ Encrypted sealings column stored

section Rows
variable {Query Statement : Type} {server : Server Query} {context : Context} {columns : Columns}
  {sealings : Sealings} {spec : ResolvedRowKey} {bind : BindMessage} {params : ParamTransforms}
  {insert executed : Sql.Insert Query Statement} {on : Option (OnInsert Query)} {place : Nat}
  {proposal : Row}

theorem castsKeep (conforms : Conforms server spec columns sealings) (expr : Expr Query) :
    CastsKeep server (.sealed .bytea) expr := by
  fun_induction CastsKeep server (.sealed .bytea) expr with
  | case1 type inner ih => exact ⟨ih, conforms.casts type⟩
  | case2 inner ih => exact ih
  | case3 => trivial

variable {column : String}

theorem omitted_default (listed : insert.columns ≠ [])
    (proposes : Proposes server (kindOf spec columns) insert place proposal)
    (unlisted : column ∉ insert.columns.map normalize) :
    server.defaults column (proposal column) := by
  unfold Proposes at proposes
  split at proposes
  · exact proposes column
  · split at proposes
    · obtain ⟨_, _, rowProposes⟩ := proposes listed
      exact rowProposes.omitted column unlisted
    · exact proposes listed column unlisted

theorem proposedAs_of_listed {source : QueryNode Query Statement} {rows : List (List (Expr Query))}
    {key : Option (ResolvedRowKey × Nat)}
    (proposed : proposedRows context columns insert = some (source, rows, key))
    (form : executed = { (proposedForm context columns insert).1 with on })
    (proposes : Proposes server (kindOf spec columns) executed place proposal)
    (listed : column ∈ insert.columns.map normalize) :
    ∃ values ident expr, rows[place]? = some values ∧ (ident, expr) ∈ insert.columns.zip values ∧
      normalize ident = column := by
  obtain ⟨nonempty, _⟩ := proposedRows_some proposed
  have shown : ∃ values, rows[place]? = some values := by
    subst form
    simp only [proposedForm, proposed, Proposes] at proposes
    obtain ⟨sent, there, _⟩ := proposes nonempty
    rw [List.getElem?_map] at there
    obtain ⟨values, held, _⟩ := Option.map_eq_some_iff.mp there
    exact ⟨values, held⟩
  obtain ⟨values, held⟩ := shown
  have rowProposes := rowProposes_of_executed form proposes proposed held
  obtain ⟨ident, member, named⟩ := List.mem_map.mp listed
  rw [← List.map_fst_zip rowProposes.sized.le, zip_rowForm] at member
  obtain ⟨_, sent, rfl⟩ := List.mem_map.mp member
  obtain ⟨⟨ident, expr⟩, entry, rfl⟩ := List.mem_map.mp sent
  exact ⟨values, ident, expr, held, entry, named⟩

theorem proposal_sealed
    (accepted : Accepted server context columns sealings spec bind params insert executed)
    (conforms : Conforms server spec columns sealings)
    (listed : insert.columns ≠ []) (kept : ProposalsKept context columns insert)
    (proposes : Proposes server (kindOf spec columns) executed place proposal) :
    RowSealed (Encrypts columns) sealings spec proposal := by
  obtain ⟨on, form⟩ := accepted.form
  rintro column stored ⟨transform, guarded, encrypts⟩ there encrypted
  have sameColumns : executed.columns = insert.columns := by
    rw [form]
    exact (@proposedForm_fields Query Statement context columns insert).2.2
  by_cases named : column ∈ insert.columns.map normalize
  · cases kept with
    | unlisted bare =>
      have absent := List.isEmpty_iff.mp bare
      have member : column ∈ protectedIdents columns insert.columns :=
        List.mem_filter.mpr ⟨named, by simp [guarded]⟩
      rw [absent] at member
      cases member
    | defaults absent =>
      have default : server.defaults column (proposal column) := by
        have unsealed : proposedForm context columns insert = (insert, []) := by
          have missing : proposedRows context columns insert = none := by
            simp [proposedRows, absent]
          simp only [proposedForm, missing]
        rw [form, unsealed] at proposes
        simp only [Proposes, absent] at proposes
        exact proposes column
      rw [there] at default
      exact absurd encrypted (conforms.defaults column transform stored guarded default)
    | @rows source rows key found each =>
      -- A listed value is sealed for the key that its own row supplies.
      obtain ⟨values, ident, expr, held, entry, rfl⟩ :=
        proposedAs_of_listed found form proposes named
      obtain ⟨keyed, rowKept⟩ := each values (List.mem_of_getElem? held)
      obtain ⟨result, read, sealedFor, own⟩ := proposal_sealedFor accepted proposes
        ⟨source, rows, key, values, ident, found, held, entry, rfl, rfl⟩ guarded encrypts
        (rowKept _ entry transform guarded) there
      obtain ⟨rowKey, rfl⟩ := bindRowKey_some keyed read
      exact ⟨rowKey, own rowKey rfl, sealedFor⟩
  · have default := omitted_default (by rw [sameColumns]; exact listed) proposes
      (by rw [sameColumns]; exact named)
    rw [there] at default
    exact absurd encrypted (conforms.defaults column transform stored guarded default)

section Conflict
variable {target : Option ConflictTarget} {client assignments : List (Assignment Query)}
  {filter selection : Option (Expr Query)} {has : Nat → String → Bool} {existing final : Row}

theorem onInsertRow_keyed (bound : RowBound context insert.tableName columns spec)
    (acts : insert.on = some (.onConflict target (.doUpdate client filter))) {source : RowKeySource}
    (known : onInsertRow context (proposedForm context columns insert).1 = .known source) :
    source ≠ .none := by
  obtain ⟨sameOn, sameName, _⟩ := @proposedForm_fields Query Statement context columns insert
  obtain ⟨schema, table, resolved, declared⟩ := bound.declared
  simp only [onInsertRow, sameOn, acts] at known
  obtain ⟨_, _, _, _, _, expr, _, _, _, _, sourced⟩ :=
    conflictRow_known (by rw [sameName]; exact resolved) declared known
  rintro rfl
  exact rowKeySource_ne_none sourced

theorem conflict_sealed
    (accepted : Accepted server context columns sealings spec bind params insert executed)
    (each : List.Forall₂ (AssignmentExact context (actionScope context columns insert) params)
      client assignments)
    (entriesKept : ∀ entry ∈ assignedEntries client,
      EntryKept context (actionScope context columns insert) entry)
    (acts : insert.on = some (.onConflict target (.doUpdate client filter)))
    (keepsKey : assignsColumn client spec.name = false)
    (proposes : Proposes server (kindOf spec columns) executed place proposal)
    (proposed : RowSealed (Encrypts columns) sealings spec proposal)
    (conflicts : ConflictsOn target existing proposal)
    (assigns : Assigns server (kindOf spec columns) (conflictFrame executed has existing proposal)
      (assignedEntries assignments) existing final)
    (before : RowSealed (Encrypts columns) sealings spec existing) :
    RowSealed (Encrypts columns) sealings spec final := by
  have entries := entries_exact each
  have sameNames := assignedNames_exact entries
  have unassigned := not_assigned_of_assignsColumn keepsKey
  have sameKey : final spec.name = existing spec.name := assigns.kept _ (sameNames ▸ unassigned)
  rintro column stored ⟨transform, guarded, encrypts⟩ there encrypted
  by_cases named : column ∈ assignedNames (assignedEntries client)
  · obtain ⟨entry, listed, rfl⟩ := List.mem_map.mp named
    obtain ⟨sent, member, exactly⟩ := forall₂_exists_right entries listed
    obtain ⟨expr, held, keptHere⟩ := entriesKept entry listed transform guarded
    obtain ⟨source, known, kept⟩ := keptHere transform guarded
    cases restored : reStoresASealedValue (actionScope context columns insert) expr
        (normalize entry.1) with
    | true =>
      have moved := reStored_value exactly held restored member assigns accepted.bound.plainKey
        guarded encrypts there
      obtain ⟨key, inProposal, sealedFor⟩ :=
        proposed _ stored ⟨transform, guarded, encrypts⟩ moved encrypted
      refine ⟨key, ?_, sealedFor⟩
      rw [conflict_row_key accepted.bound acts known conflicts fun _ => sameKey, inProposal]
    | false =>
      rw [restored] at kept
      have sealedHere := kept.resolve_left Bool.false_ne_true
      obtain ⟨found, read, sealedFor, own⟩ := action_sealedFor accepted proposes acts sameNames
        conflicts assigns exactly listed member held restored (by rw [known]; exact sealedHere)
        guarded encrypts there
      rw [known] at read
      obtain ⟨key, rfl⟩ := bindRowKey_some (onInsertRow_keyed accepted.bound acts known) read
      exact ⟨key, own key rfl, sealedFor⟩
  · rw [assigns.kept column (sameNames ▸ named)] at there
    rw [sameKey]
    exact before column stored ⟨transform, guarded, encrypts⟩ there encrypted

end Conflict

section Update
variable {update sent : Update Query} {name : ObjectName} {args : Option (List (Expr Query))}
  {named : Option TableAlias} {has : Nat → String → Bool} {old new : Row}

/-- The server reads the key an UPDATE is pinned by as it is written. -/
def KeysAsWritten (server : Server Query) (context : Context) (columns : Columns)
    (spec : ResolvedRowKey) (bind : BindMessage) (update : Update Query) (name : ObjectName)
    (named : Option TableAlias) : Prop :=
  ∀ condition ∈ update.selection, ∀ column operand,
    pinned spec (searchedTarget context columns name named) (joinsOthers update) condition =
      some (column, operand) → KeyAsWritten server bind operand

variable {source : RowKeySource}

theorem updateRow_keyed (bound : RowBound context name columns spec)
    (target : update.table.relation = .table name args named)
    (known : updateRow context update columns = .known source) : source ≠ .none := by
  obtain ⟨schema, table, resolved, declared⟩ := bound.declared
  obtain ⟨condition, _, found⟩ := updateRow_known target resolved declared known
  obtain ⟨_, operand, part, _, _, pins⟩ := conjunct_of_search found
  rintro rfl
  exact rowKeySource_ne_none (sourced_of_pinsKey pins)

theorem updated_row_key (bound : RowBound context name columns spec)
    (typed : StoredKeys.keyOid server.keyColumn = some spec.typeOid)
    (table : update.table = .mk (.table name args named) []) (single : update.fromTable = none)
    (written : KeysAsWritten server context columns spec bind update name named)
    (pins : KeepsPins spec update sent) (selected : ∀ condition ∈ sent.selection,
      holds server spec (updateFrame sent has old) condition = true)
    (known : updateRow context update columns = .known source) {key : Envelope.RowKey}
    (read : bindRowKey source bind = .ok (some key)) :
    old spec.name = some key.bytes := by
  have target : update.table.relation = .table name args named := by
    rw [table]
    rfl
  obtain ⟨schema, place, resolved, declared⟩ := bound.declared
  obtain ⟨condition, there, found⟩ := updateRow_known target resolved declared known
  obtain ⟨column, operand, part, picked, conjunct, pinsHere⟩ := conjunct_of_search found
  obtain ⟨relayed, sentThere, keeps⟩ := pins.pinned condition there
  have sameVisibles : (updateFrame sent has old).visibles = updateVisibles update := by
    simp only [updateFrame, updateVisibles, otherVisibles, pins.table, pins.single, single]
  have alone : HiddenNameFree update named column := by
    have none : otherVisibles update = [] := by
      simp [otherVisibles, table, single, joinsVisibles, TableWithJoins.joins]
    cases column with
    | compoundIdentifier idents => simp [HiddenNameFree, none]
    | _ => trivial
  have row : (updateFrame sent has old).rows 0 spec.name = some key.bytes := by
    apply key_of_pinsKey (meansKey_of_update target sameVisibles alone) _ pinsHere
    · exact holds_of_conjunct (keeps _ _ _ _ _ _ pinsHere conjunct) (selected relayed sentThere)
    · exact keySpelled_of_asWritten typed (written condition there column operand picked)
        (sourced_of_pinsKey pinsHere) read
  exact row

theorem update_sealed (received : Received server context columns sealings bind params)
    (conforms : Conforms server spec columns sealings) (bound : RowBound context name columns spec)
    (table : update.table = .mk (.table name args named) []) (single : update.fromTable = none)
    (written : KeysAsWritten server context columns spec bind update name named)
    (each : List.Forall₂
      (AssignmentExact context ⟨updateRow context update columns, columns, []⟩ params)
      update.assignments sent.assignments)
    (entriesKept : ∀ entry ∈ assignedEntries update.assignments,
      EntryKept context ⟨updateRow context update columns, columns, []⟩ entry)
    (pins : KeepsPins spec update sent)
    (keepsKey : assignsColumn update.assignments spec.name = false)
    (selected : ∀ condition ∈ sent.selection,
      holds server spec (updateFrame sent has old) condition = true)
    (assigns : Assigns server (kindOf spec columns) (updateFrame sent has old)
      (assignedEntries sent.assignments) old new)
    (before : RowSealed (Encrypts columns) sealings spec old) :
    RowSealed (Encrypts columns) sealings spec new := by
  have entries := entries_exact each
  have sameNames := assignedNames_exact entries
  have unassigned := not_assigned_of_assignsColumn keepsKey
  have sameKey : new spec.name = old spec.name := assigns.kept _ (sameNames ▸ unassigned)
  rintro column stored ⟨transform, guarded, encrypts⟩ there encrypted
  by_cases wrote : column ∈ assignedNames (assignedEntries update.assignments)
  · obtain ⟨entry, listed, rfl⟩ := List.mem_map.mp wrote
    obtain ⟨relayed, member, exactly⟩ := forall₂_exists_right entries listed
    obtain ⟨expr, held, keptHere⟩ := entriesKept entry listed transform guarded
    obtain ⟨source, known, kept⟩ := keptHere transform guarded
    have fresh : reStoresASealedValue ⟨updateRow context update columns, columns, []⟩ expr
        (normalize entry.1) ≠ true := by
      intro restored
      obtain ⟨_, _, _, _, _, none⟩ := settled_of_reStores restored
      cases none
    have sealedHere := kept.resolve_left fresh
    have shown : assignedForm context ⟨updateRow context update columns, columns, []⟩ entry.1 expr =
        sealedForm context transform source expr := by
      simp only [assignedForm, guarded, if_neg fresh]
      rw [show updateRow context update columns = .known source from known]
      rfl
    have given := gives_of_exact exactly held (by rw [shown]; exact settled_sealedForm sealedHere)
      member assigns bound.plainKey guarded encrypts there
    rw [shown] at given
    have binds := ((exactly.2 expr held).2 transform guarded).1
    rw [show updateRow context update columns = .known source from known] at binds
    obtain ⟨found, read, sealedFor⟩ := stored_sealedFor received guarded encrypts binds
      (castsKeep conforms expr) sealedHere given
    obtain ⟨key, rfl⟩ := bindRowKey_some (updateRow_keyed bound (by rw [table]; rfl) known) read
    refine ⟨key, ?_, sealedFor⟩
    rw [sameKey]
    exact updated_row_key bound conforms.typed table single written pins selected known read
  · rw [assigns.kept column (sameNames ▸ wrote)] at there
    rw [sameKey]
    exact before column stored ⟨transform, guarded, encrypts⟩ there encrypted

end Update

end Rows

end Dbsec.RowInvariant
