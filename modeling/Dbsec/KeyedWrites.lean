import Dbsec.SealedForm

/-! Declaring a row key for a table, compared with not declaring one: which values of the
same INSERT, UPDATE or upsert are sealed in either case. A value position is sealed when
its literal is relayed in stored form or its placeholder is recorded for Bind. -/
namespace Dbsec.KeyedWrites
open Framing Sql Params Unprotected Catalog Literals Scope Accumulate Rewrite Predicate Seal
open QueryWalk Statements Writes SealedForm

section Positions
variable {Query Statement : Type}

/-- A client's value sealed inline or recorded for sealing at Bind. -/
inductive Sealed (transform : FieldTransform) (params : ParamTransforms)
    (client relayed : Expr Query) : Prop where
  | inline {plaintext stored : Bytes} {row : Option Envelope.RowKey} :
      literalPlaintext client transform.wire = some plaintext →
      transform.sealValue plaintext row = .ok stored →
      relayed = storedLiteral transform.wire stored → Sealed transform params client relayed
  | bound {text : String} {index : Nat} {row : RowKeySource} :
      unwrapCasts client = .value (.placeholder text) → placeholderIndex text = some index →
      relayed = client → RecordedFor params transform row index →
      Sealed transform params client relayed

/-- A written column with its value, and the row the value is sealed against. -/
abbrev Position (Query : Type) := (Ident × Option (Expr Query)) × RowKeySource

def rowEntries (idents : List Ident) (row : List (Expr Query)) :
    List (Ident × Option (Expr Query)) :=
  (idents.zip row).map fun entry => (entry.1, some entry.2)

def assignedEntries (assignments : List (Assignment Query)) : List (Ident × Option (Expr Query)) :=
  assignments.flatMap fun assignment => assigned assignment.target assignment.value

def spelledRows (insert : Sql.Insert Query Statement) : List (List (Expr Query)) :=
  match insert.source with
  | none => []
  | some source =>
    match source.body with
    | .values rows => rows
    | _ => []

/-- The values an INSERT, an upsert or an UPDATE spells out for its columns. -/
def entries : StatementNode Query Statement → List (Ident × Option (Expr Query))
  | .insert insert =>
    (spelledRows insert).flatMap (rowEntries insert.columns) ++
      assignedEntries (conflictAssignments insert.on)
  | .update update => assignedEntries update.assignments
  | _ => []

def insertKey (context : Context) (insert : Sql.Insert Query Statement) :
    Option (ResolvedRowKey × Nat) :=
  (resolvedName insert.tableName).bind fun name =>
    listedKey context name.1 name.2 insert.columns

/-- `entries`, each with the row key the statement supplies for it. -/
def positions (context : Context) (columns : Columns) :
    StatementNode Query Statement → List (Position Query)
  | .insert insert =>
    ((spelledRows insert).flatMap fun row =>
      (rowEntries insert.columns row).map fun entry =>
        (entry, proposedSource (insertKey context insert) row)) ++
    (assignedEntries (conflictAssignments insert.on)).map fun entry =>
      (entry, rowSource (onInsertRow context (proposedForm context columns insert).1))
  | .update update =>
    (assignedEntries update.assignments).map fun entry =>
      (entry, rowSource (updateRow context update columns))
  | _ => []

theorem positions_fst (context : Context) (columns : Columns)
    (statement : StatementNode Query Statement) :
    (positions context columns statement).map Prod.fst = entries statement := by
  cases statement with
  | insert insert =>
    simp only [positions, entries, List.map_append, List.map_flatMap, List.map_map,
      Function.comp_def, List.map_id']
  | update update => simp only [positions, entries, List.map_map, Function.comp_def, List.map_id']
  | _ => rfl

def Placed (context : Context) (columns : Columns) (params : ParamTransforms)
    (position : Position Query) (relayed : Ident × Option (Expr Query)) : Prop :=
  ∀ value transform, position.1.2 = some value →
    columns.get (normalize position.1.1) = some transform →
      (BindsLater params transform position.2 value ∧
        Readable context transform position.2 value) ∧
      (∀ plaintext, literalPlaintext value transform.wire = some plaintext →
        relayed.2 = some (sealedForm context transform position.2 value)) ∧
      ∀ text, unwrapCasts value = .value (.placeholder text) → relayed.2 = some value

variable {context : Context} {row : RowKeySource} {value : Expr Query}

theorem settled_sealedForm {transform : FieldTransform} (settled : Settled value) :
    Settled (sealedForm context transform row value) := by
  unfold sealedForm
  split
  · exact settled
  · exact settled
  · split
    · exact settled_storedLiteral _ _
    · exact settled

theorem sealedForm_placeholder (context : Context) (transform : FieldTransform) (row : RowKeySource)
    {text : String} (isPlaceholder : unwrapCasts value = .value (.placeholder text)) :
    sealedForm context transform row value = value := by
  simp only [sealedForm, isPlaceholder]

variable {params : ParamTransforms} {scope : AssignmentScope}

theorem EntryExact.placed {before after : Ident × Option (Expr Query)}
    (entry : EntryExact context scope params before after) :
    Placed context scope.columns params (before, rowSource scope.row) after := by
  intro value transform held guarded
  obtain ⟨form, owed⟩ := entry.2 value held
  have sealedHere : (∀ column, reStoresASealedValue scope value column = false) →
      assignedForm context scope before.1 value =
        sealedForm context transform (rowSource scope.row) value := by
    intro fresh
    simp only [assignedForm, guarded, fresh, Bool.false_eq_true, if_false]
  refine ⟨owed transform guarded, fun plaintext read => ?_, fun text isPlaceholder => ?_⟩
  · have same := sealedHere fun column => Bool.eq_false_iff.mpr fun restored => by
      rw [literalPlaintext_of_reStores restored] at read
      cases read
    rw [same] at form
    exact form (settled_sealedForm (settled_of_literalPlaintext read))
  · have same := sealedHere fun column => Bool.eq_false_iff.mpr fun restored =>
      not_placeholder_of_reStores restored text isPlaceholder
    rw [same, sealedForm_placeholder _ _ _ isPlaceholder] at form
    exact form (settled_of_unwrapCasts (isPlaceholder ▸ .value _))

variable {columns : Columns} {idents : List Ident}

theorem rowForm_placed {values : List (Expr Query)}
    (binds : RowBinds context columns row params idents values) :
    List.Forall₂ (Placed context columns params)
      ((rowEntries idents values).map fun entry => (entry, row))
      (rowEntries idents (rowForm context columns row idents values)) := by
  fun_induction rowForm context columns row idents values with
  | case1 ident idents value rest ih =>
    refine .cons ?_ (ih fun entry listed => binds entry (List.mem_cons_of_mem _ listed))
    intro held transform isHeld guarded
    cases isHeld
    refine ⟨binds (ident, value) (List.mem_cons_self ..) transform guarded,
      fun plaintext read => ?_, fun text isPlaceholder => ?_⟩
    · simp only [listedForm, guarded]
    · simp only [listedForm, guarded, sealedForm_placeholder _ _ _ isPlaceholder]
  | case2 idents rest mismatched =>
    cases idents with
    | nil => exact .nil
    | cons ident idents =>
      cases rest with
      | nil => exact .nil
      | cons value rest => exact absurd rfl (mismatched ident idents value rest rfl)

theorem placed_of_unguarded {position : Position Query} {relayed : Ident × Option (Expr Query)}
    (unguarded : columns.get (normalize position.1.1) = none) :
    Placed context columns params position relayed := by
  intro value transform _ guarded
  cases unguarded.symm.trans guarded

theorem get_none_of_no_idents (bare : (protectedIdents columns idents).isEmpty = true)
    {ident : Ident} (listed : ident ∈ idents) : columns.get (normalize ident) = none := by
  cases guarded : columns.get (normalize ident) with
  | none => rfl
  | some transform =>
    have shown : normalize ident ∈ protectedIdents columns idents := by
      simp only [protectedIdents, List.mem_filter, List.mem_map, guarded, Option.isSome_some,
        and_true]
      exact ⟨ident, listed, rfl⟩
    rw [List.isEmpty_iff.mp bare] at shown
    cases shown

variable {insert : Sql.Insert Query Statement}

theorem unguarded_of_unproposed (found : context.table insert.tableName = .ok (some columns))
    (unproposed : proposedRows context columns insert = none) :
    spelledRows insert = [] ∨ ∀ ident ∈ insert.columns, columns.get (normalize ident) = none := by
  unfold proposedRows at unproposed
  split at unproposed
  · rename_i neither
    rcases Bool.or_eq_true_iff.mp neither with noColumns | bare
    · rw [List.isEmpty_iff.mp noColumns]
      exact .inr nofun
    · exact .inr fun ident listed => get_none_of_no_idents bare listed
  · left
    unfold spelledRows
    cases held : insert.source with
    | none => rfl
    | some source =>
      rw [held, Option.bind_some] at unproposed
      split at unproposed
      · exact absurd (Option.map_eq_none_iff.mp unproposed) (resolvedName_of_table found)
      · rename_i notValues
        simp only

theorem spelledRows_placed (found : context.table insert.tableName = .ok (some columns))
    (binds : ProposalsBind context columns params insert) (on : Option (OnInsert Query)) :
    List.Forall₂ (Placed context columns params)
      ((spelledRows insert).flatMap fun row =>
        (rowEntries insert.columns row).map fun entry =>
          (entry, proposedSource (insertKey context insert) row))
      ((spelledRows { (proposedForm context columns insert).1 with on }).flatMap
        (rowEntries insert.columns)) := by
  cases proposed : proposedRows context columns insert with
  | some rewritten =>
    obtain ⟨source, rows, key⟩ := rewritten
    have each := binds source rows key proposed
    simp only [proposedForm, proposed, spelledRows]
    unfold proposedRows at proposed
    split at proposed
    · cases proposed
    · obtain ⟨held, present, proposed⟩ := Option.bind_eq_some_iff.mp proposed
      split at proposed
      · rename_i spelled isValues
        obtain ⟨name, resolved, same⟩ := Option.map_eq_some_iff.mp proposed
        cases same
        simp only [present, isValues, insertKey, resolved, Option.bind_some] at each ⊢
        rw [List.flatMap_map]
        have bound : List.Forall₂ (fun row row' => row = row' ∧ RowBinds context columns
            (proposedSource (listedKey context name.1 name.2 insert.columns) row) params
            insert.columns row) rows rows :=
          List.forall₂_same.mpr fun row listed => ⟨rfl, each row listed⟩
        refine List.rel_flatMap bound ?_
        rintro row _ ⟨rfl, binds⟩
        exact rowForm_placed binds
      · cases proposed
  | none =>
    simp only [proposedForm, proposed]
    change List.Forall₂ _ _ ((spelledRows insert).flatMap (rowEntries insert.columns))
    rcases unguarded_of_unproposed found proposed with nothing | unguarded
    · rw [nothing]
      exact .nil
    · refine List.rel_flatMap (List.forall₂_eq_eq_eq ▸ rfl) ?_
      rintro row _ rfl
      rw [List.forall₂_map_left_iff]
      refine List.forall₂_same.mpr fun entry listed => placed_of_unguarded ?_
      obtain ⟨pair, zipped, rfl⟩ := List.mem_map.mp listed
      exact unguarded _ (List.of_mem_zip zipped).1

theorem assignedEntries_placed {before after : List (Assignment Query)}
    (each : List.Forall₂ (AssignmentExact context scope params) before after) :
    List.Forall₂ (Placed context scope.columns params)
      ((assignedEntries before).map fun entry => (entry, rowSource scope.row))
      (assignedEntries after) := by
  rw [List.forall₂_map_left_iff]
  refine List.rel_flatMap each ?_
  rintro first last ⟨same, entries⟩
  simp only [same]
  exact entries.imp fun _ _ entry => EntryExact.placed entry

end Positions

section Runs
variable {Query Statement : Type} {context : Context} {walks : Walks Query Statement}

theorem rewriteStatementNode_placed (queries : ∀ query, Grows (walks.rewriteQuery query))
    {statement rewritten : StatementNode Query Statement} {name : ObjectName} {columns : Columns}
    (target : writeTargetNode statement = some name)
    (found : context.table name = .ok (some columns)) {changed : Bool}
    {before after : ParamTransforms}
    (ran : rewriteStatementNode context walks statement before =
      .ok ((rewritten, changed), after)) :
    List.Forall₂ (Placed context columns after) (positions context columns statement)
      (entries (if changed then rewritten else statement)) := by
  cases statement with
  | insert insert =>
    obtain ⟨result, rfl, here⟩ := wrap_run ran
    cases target
    obtain ⟨⟨on, form⟩, binds, conflicting⟩ := rewriteInsert_exact queries found here
    have relayed : (if changed then StatementNode.insert result else .insert insert) =
        .insert (if changed then result else insert) := by cases changed <;> rfl
    have sameColumns : (if changed then result else insert).columns = insert.columns := by
      rw [form]
      unfold proposedForm
      split <;> rfl
    rw [relayed]
    simp only [positions, entries, sameColumns]
    refine List.rel_append ?_ (assignedEntries_placed conflicting)
    rw [form]
    exact spelledRows_placed found binds on
  | update update =>
    obtain ⟨result, rfl, here⟩ := wrap_run ran
    have each := rewriteUpdate_exact queries target found here
    have relayed : (if changed then .update result else .update update :
        StatementNode Query Statement) = .update (if changed then result else update) := by
      cases changed <;> rfl
    rw [relayed]
    exact assignedEntries_placed each
  | merge into actions =>
    obtain ⟨_, middle, here, done⟩ := bind_run_iff.mp ran
    obtain ⟨rfl, rfl, rfl⟩ := pure_pair done
    exact .nil
  | _ => cases target

end Runs

/-- The relayed statement seals the client's value at this place. -/
def SealedAt {Query Statement : Type} (relayed : StatementNode Query Statement)
    (params : ParamTransforms) (transform : FieldTransform) (place : Nat) (value : Expr Query) :
    Prop :=
  ∃ ident result, (entries relayed)[place]? = some (ident, some result) ∧
    Sealed transform params value result

/-- A literal whose row key is a bound parameter, and which sealing would change. -/
def Exposed {Query : Type} (context : Context) (transform : FieldTransform) (row : RowKeySource)
    (value : Expr Query) : Prop :=
  (∃ index oid column, row = .param index oid column) ∧
    literalAgreesWithServer context value = true ∧
    ∃ plaintext, literalPlaintext value transform.wire = some plaintext ∧
      ∀ key stored, transform.sealValue plaintext key = .ok stored →
        value ≠ storedLiteral transform.wire stored

section Compare
variable {Query : Type} {keyed bare : Context} {columns : Columns} {transform : FieldTransform}
  {withKey without : ParamTransforms} {ident : Ident} {value : Expr Query} {row : RowKeySource}
  {relayed relayed' : Ident × Option (Expr Query)}

variable {context : Context}

theorem sealedForm_readable {params : ParamTransforms}
    (readable : Readable context transform row value)
    (agrees : literalAgreesWithServer context value = true) {plaintext : Bytes}
    (read : literalPlaintext value transform.wire = some plaintext)
    (known : ∀ index oid column, row ≠ .param index oid column) :
    Sealed transform params value (sealedForm context transform row value) := by
  obtain ⟨stored, produced⟩ := Option.isSome_iff_exists.mp (readable agrees plaintext read known)
  have form : sealedForm context transform row value = storedLiteral transform.wire stored := by
    unfold sealedForm
    split
    · rename_i text isPlaceholder
      simp only [literalPlaintext, isPlaceholder] at read
      cases read
    · rename_i isNull
      simp only [literalPlaintext, isNull] at read
      cases read
    · rw [produced]
  unfold sealedLiteral at produced
  rw [if_pos agrees, read, Option.bind_some] at produced
  split at produced
  · rename_i key
    cases ran : transform.sealValue plaintext (some key) with
    | error cause => rw [ran] at produced; cases produced
    | ok bytes =>
      rw [ran] at produced
      cases produced
      exact .inline read ran form
  · cases produced
  · cases ran : transform.sealValue plaintext none with
    | error cause => rw [ran] at produced; cases produced
    | ok bytes =>
      rw [ran] at produced
      cases produced
      exact .inline read ran form

theorem sealedForm_left (left : literalAgreesWithServer context value = false ∨
      ∃ index oid column, row = .param index oid column) :
    sealedForm context transform row value = value := by
  have nothing : sealedLiteral context transform row value = none := by
    unfold sealedLiteral
    rcases left with disagrees | ⟨index, oid, column, rfl⟩
    · rw [if_neg (by simp [disagrees])]
    · split
      · simp
      · rfl
  unfold sealedForm
  rw [nothing]
  split <;> rfl

theorem sealed_of_unexposed (sameReading : bare.escapeStrings = keyed.escapeStrings)
    (guarded : columns.get (normalize ident) = some transform)
    (placed : Placed keyed columns withKey ((ident, some value), row) relayed)
    (placed' : Placed bare columns without ((ident, some value), .none) relayed')
    (unexposed : ¬ Exposed keyed transform row value) {result' : Expr Query}
    (held' : relayed'.2 = some result') (sealed' : Sealed transform without value result') :
    ∃ result, relayed.2 = some result ∧ Sealed transform withKey value result := by
  obtain ⟨⟨binds, readable⟩, literal, placeholder⟩ := placed value transform rfl guarded
  obtain ⟨_, literal', _⟩ := placed' value transform rfl guarded
  cases sealed' with
  | bound isPlaceholder named same recorded =>
    exact ⟨value, placeholder _ isPlaceholder,
      .bound isPlaceholder named rfl (binds _ _ isPlaceholder named)⟩
  | inline read produced same =>
    refine ⟨_, literal _ read, ?_⟩
    have agree : literalAgreesWithServer bare value = literalAgreesWithServer keyed value := by
      simp only [literalAgreesWithServer, sameReading]
    cases agrees : literalAgreesWithServer keyed value with
    | false =>
      rw [literal' _ read, sealedForm_left (.inl (agree.trans agrees))] at held'
      cases held'
      rw [sealedForm_left (.inl agrees)]
      exact .inline read produced same
    | true =>
      by_cases bound : ∃ index oid column, row = .param index oid column
      · -- The literal is left alone; it is not exposed, so it is a stored form already.
        rw [sealedForm_left (.inr bound)]
        by_contra plain
        exact unexposed ⟨bound, agrees, _, read, fun key stored made same =>
          plain (.inline read made same)⟩
      · refine sealedForm_readable readable agrees read fun index oid column isParam => ?_
        exact bound ⟨index, oid, column, isParam⟩

theorem exposed_weakens (sameReading : bare.escapeStrings = keyed.escapeStrings)
    (guarded : columns.get (normalize ident) = some transform)
    (placed : Placed keyed columns withKey ((ident, some value), row) relayed)
    (placed' : Placed bare columns without ((ident, some value), .none) relayed')
    (exposed : Exposed keyed transform row value) :
    (∃ result', relayed'.2 = some result' ∧ Sealed transform without value result') ∧
      ∀ result, relayed.2 = some result → ¬ Sealed transform withKey value result := by
  obtain ⟨bound, agrees, plaintext, read, moves⟩ := exposed
  obtain ⟨_, literal, _⟩ := placed value transform rfl guarded
  obtain ⟨⟨_, readable'⟩, literal', _⟩ := placed' value transform rfl guarded
  have agrees' : literalAgreesWithServer bare value = true := by
    rw [← agrees]
    simp only [literalAgreesWithServer, sameReading]
  refine ⟨⟨_, literal' _ read, sealedForm_readable readable' agrees' read nofun⟩, ?_⟩
  intro result held sealedHere
  rw [literal _ read, sealedForm_left (.inr bound)] at held
  cases held
  cases sealedHere with
  | inline read' produced same =>
    cases read.symm.trans read'
    exact moves _ _ produced same
  | bound isPlaceholder _ _ _ =>
    simp only [literalPlaintext, isPlaceholder] at read
    cases read

end Compare

theorem getElem?_of_forall₂ {First Second : Type} {relation : First → Second → Prop}
    {firsts : List First} {seconds : List Second} (related : List.Forall₂ relation firsts seconds)
    {place : Nat} {first : First} (held : firsts[place]? = some first) :
    ∃ second, seconds[place]? = some second ∧ relation first second := by
  induction related generalizing place with
  | nil => cases held
  | cons here _ ih =>
    cases place with
    | zero =>
      cases held
      exact ⟨_, rfl, here⟩
    | succ place => exact ih held

section Undeclared
variable {Query Statement : Type} {context : Context}

theorem conflictRow_of_undeclared {insert : Sql.Insert Query Statement}
    (target : Option ConflictTarget) (assignments : List (Assignment Query))
    (undeclared : ∀ key, resolvedName insert.tableName = some key →
      context.rowKeySpec key.1 key.2 = none) :
    conflictRow context insert target assignments = .known .none := by
  unfold conflictRow
  split
  · rfl
  · rename_i schema tableName resolved
    have missing := undeclared _ resolved
    simp only [missing]

variable {columns : Columns} {name : ObjectName}

theorem updateRow_of_undeclared {update : Update Query}
    (target : factorName update.table.relation = some name)
    (undeclared : ∀ key, resolvedName name = some key → context.rowKeySpec key.1 key.2 = none) :
    updateRow context update columns = .known .none := by
  unfold updateRow
  unfold factorName at target
  split
  · rename_i named tableAlias isTable
    rw [isTable] at target
    cases target
    split
    · rfl
    · rename_i schema tableName resolved
      simp only [undeclared _ resolved]
  · rfl

theorem positions_of_undeclared {statement : StatementNode Query Statement}
    (target : writeTargetNode statement = some name)
    (undeclared : ∀ key, resolvedName name = some key → context.rowKeySpec key.1 key.2 = none)
    {position : Position Query} (listed : position ∈ positions context columns statement) :
    position.2 = .none := by
  cases statement with
  | insert insert =>
    cases target
    rcases List.mem_append.mp listed with spelled | conflicting
    · obtain ⟨row, _, inRow⟩ := List.mem_flatMap.mp spelled
      obtain ⟨entry, _, rfl⟩ := List.mem_map.mp inRow
      have noKey : insertKey context insert = none := by
        unfold insertKey listedKey
        cases resolved : resolvedName insert.tableName with
        | none => rfl
        | some key => simp [undeclared key resolved]
      simp only [proposedSource, noKey]
    · obtain ⟨entry, _, rfl⟩ := List.mem_map.mp conflicting
      have sameName : (proposedForm context columns insert).1.tableName = insert.tableName := by
        unfold proposedForm
        split <;> rfl
      rw [← sameName] at undeclared
      unfold onInsertRow
      split
      · rw [conflictRow_of_undeclared _ _ undeclared]
        rfl
      · rw [conflictRow_of_undeclared _ _ undeclared]
        rfl
      · rfl
  | update update =>
    obtain ⟨entry, _, rfl⟩ := List.mem_map.mp listed
    rw [updateRow_of_undeclared target undeclared]
    rfl
  | _ => cases listed

end Undeclared

/-- Declaring a row key keeps every sealed position sealed iff no literal stands for a
protected column in a row whose key is a placeholder. Both policies are covered: under
`reject` such a statement is refused. -/
theorem declared_key_never_weakens {depth : Nat} (keyed : Context) (rows : Option RowContext)
    (statement rewritten rewritten' : Statement (depth + 1)) (changed changed' : Bool)
    (withKey without : ParamTransforms) (name : ObjectName) (columns : Columns)
    (target : writeTargetNode statement = some name)
    (found : keyed.table name = .ok (some columns))
    (undeclared : ∀ key, resolvedName name = some key →
      Context.rowKeySpec { keyed with rows } key.1 key.2 = none)
    (accepted : rewriteStatement keyed statement .empty = .ok ((rewritten, changed), withKey))
    (accepted' : rewriteStatement { keyed with rows } statement .empty =
      .ok ((rewritten', changed'), without)) :
    (∀ (place : Nat) ident value transform, (entries statement)[place]? = some (ident, some value) →
      columns.get (normalize ident) = some transform →
      SealedAt (if changed' then rewritten' else statement) without transform place value →
        SealedAt (if changed then rewritten else statement) withKey transform place value) ↔
    ∀ position ∈ positions keyed columns statement, ∀ value transform,
      position.1.2 = some value → columns.get (normalize position.1.1) = some transform →
        ¬ Exposed keyed transform position.2 value := by
  have placed := rewriteStatementNode_placed (walks_grow keyed depth).1 target found accepted
  have found' : Context.table { keyed with rows } name = .ok (some columns) := found
  have placed' := rewriteStatementNode_placed (walks_grow { keyed with rows } depth).1 target found'
    accepted'
  -- Both runs see the same entries; without the key every row source is absent.
  have bareAt : ∀ (place : Nat) entry, (entries statement)[place]? = some entry →
      (positions { keyed with rows } columns statement)[place]? =
        some (entry, RowKeySource.none) := by
    intro place entry held
    rw [← positions_fst { keyed with rows } columns statement, List.getElem?_map] at held
    obtain ⟨⟨entry', row⟩, there, rfl⟩ := Option.map_eq_some_iff.mp held
    obtain rfl : row = .none :=
      positions_of_undeclared target undeclared (List.mem_of_getElem? there)
    exact there
  constructor
  · rintro never ⟨⟨ident, value'⟩, row⟩ listed value transform rfl guarded exposed
    obtain ⟨place, there⟩ := List.mem_iff_getElem?.mp listed
    have held : (entries statement)[place]? = some (ident, some value) := by
      rw [← positions_fst keyed columns statement, List.getElem?_map, there]
      rfl
    obtain ⟨⟨_, _⟩, at₁, first⟩ := getElem?_of_forall₂ placed there
    obtain ⟨⟨_, _⟩, at₂, second⟩ := getElem?_of_forall₂ placed' (bareAt _ _ held)
    obtain ⟨⟨result', rfl, sealed'⟩, plain⟩ := exposed_weakens rfl guarded first second exposed
    obtain ⟨_, result, at₃, sealedHere⟩ :=
      never place ident value transform held guarded ⟨_, result', at₂, sealed'⟩
    cases at₁.symm.trans at₃
    exact plain result rfl sealedHere
  · rintro unexposed place ident value transform held guarded ⟨_, result', at', sealed'⟩
    obtain ⟨⟨_, _⟩, at₂, second⟩ := getElem?_of_forall₂ placed' (bareAt _ _ held)
    cases at₂.symm.trans at'
    have there := held
    rw [← positions_fst keyed columns statement, List.getElem?_map] at there
    obtain ⟨⟨entry, row⟩, there, rfl⟩ := Option.map_eq_some_iff.mp there
    obtain ⟨⟨other, _⟩, at₁, first⟩ := getElem?_of_forall₂ placed there
    obtain ⟨result, rfl, sealedHere⟩ := sealed_of_unexposed rfl guarded first second
      (unexposed _ (List.mem_of_getElem? there) value transform rfl guarded) rfl sealed'
    exact ⟨other, result, at₁, sealedHere⟩

/-- `public.users` with its row key `id` declared, an `int4`. -/
def usersRows : RowContext := ⟨id, Table.empty.put ("public", "users") ⟨"id", 23⟩⟩

def keyedContext (onUnprotected : OnUnprotected) : Context :=
  { plainContext [usersEmail] onUnprotected with rows := some usersRows }

/-- `INSERT INTO users (id, email) VALUES (key, 'p')`. -/
def insertKeyed (key : Value) : Statement 1 :=
  .insert ⟨[.plain "users"], none, [.plain "id", .plain "email"],
    some ⟨false, [], .values [[.value key, .value (.singleQuoted "p")]], [], []⟩, none, []⟩

def emailColumns : Columns := Table.empty.put "email" (markingTransform 0 true)

theorem literal_key_never_weakens :
    ∃ rewritten rewritten' : Statement 1,
      rewriteStatement (keyedContext .warn) (insertKeyed (.number "1")) .empty =
        .ok ((rewritten, true), .empty) ∧
      rewriteStatement { keyedContext .warn with rows := none } (insertKeyed (.number "1")) .empty =
        .ok ((rewritten', true), .empty) ∧
      ∀ (place : Nat) ident value transform,
        (entries (insertKeyed (.number "1")))[place]? = some (ident, some value) →
        emailColumns.get (normalize ident) = some transform →
        SealedAt rewritten' .empty transform place value →
          SealedAt rewritten .empty transform place value := by
  refine ⟨_, _, rfl, rfl, ?_⟩
  refine (declared_key_never_weakens (keyedContext .warn) none (insertKeyed (.number "1")) _ _
    true true .empty .empty [.plain "users"] emailColumns rfl rfl (fun _ _ => rfl) rfl rfl).mpr ?_
  intro position listed value transform _ _ exposed
  obtain ⟨⟨index, oid, column, isParam⟩, _⟩ := exposed
  have literal : ∀ position ∈ positions (keyedContext .warn) emailColumns
      (insertKeyed (.number "1")), position.2 = .literal ⟨[0x31]⟩ := by decide
  rw [literal position listed] at isParam
  cases isParam

/-- `VALUES ($1, 'p')` under `warn`: sealed inline until the row key is declared, then
relayed as the client wrote it. -/
theorem placeholder_key_weakens :
    ∃ rewritten : Statement 1,
      rewriteStatement { keyedContext .warn with rows := none } (insertKeyed (.placeholder "$1"))
        .empty = .ok ((rewritten, true), .empty) ∧
      rewriteStatement (keyedContext .warn) (insertKeyed (.placeholder "$1")) .empty =
        .ok ((insertKeyed (.placeholder "$1"), false), .empty) ∧
      SealedAt rewritten .empty (markingTransform 0 true) 1 (.value (.singleQuoted "p")) ∧
      ¬ SealedAt (insertKeyed (.placeholder "$1")) .empty (markingTransform 0 true) 1
        (.value (.singleQuoted "p")) := by
  have produced : ∀ key, (markingTransform 0 true).sealValue [0x70] key =
      .ok (0xAA :: ((key.map (·.bytes)).getD [] ++ [0x70])) := fun _ => rfl
  refine ⟨_, rfl, rfl, ⟨_, _, rfl, .inline rfl (produced none) rfl⟩, ?_⟩
  rintro ⟨ident, result, held, sealedHere⟩
  cases held
  cases sealedHere with
  | inline read produced same => cases same
  | bound isPlaceholder _ _ _ => cases isPlaceholder

end Dbsec.KeyedWrites
