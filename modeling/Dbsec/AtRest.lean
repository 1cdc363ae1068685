import Dbsec.SealedWrites

/-! No plaintext at rest under `reject`: what an accepted statement stores into a
protected column is NULL, the sealed form of the client's literal, a placeholder that
Bind seals, or the EXCLUDED form of such a value. The rewriter reaches the writes of
INSERT, UPDATE and the queries around them; it does not open PREPARE, EXPLAIN ANALYZE
and CREATE TABLE AS. -/
namespace Dbsec.AtRest
open Framing Sql Params Unprotected Catalog Literals Scope Accumulate Rewrite Predicate Seal
open QueryWalk Statements Writes SealedForm SealedWrites

/-- The relayed statement stores what the client's would, sealed where it must be. -/
def NoPlaintext (context : Context) (schemaOf : String → String) (params : ParamTransforms)
    {depth : Nat} (client relayed : Statement depth) : Prop :=
  List.Forall₂ (Guarded context schemaOf params) (writes client) (writes relayed)

section Updates
variable {Query Statement : Type} {context : Context} {schemaOf : String → String}
  {walks : Walks Query Statement}

/-- The writes of a node before and after a pass, and what an unset flag means: relaying
the client's own text is then as good. -/
def Covered (context : Context) (schemaOf : String → String) (params : ParamTransforms)
    (changed : Bool) (before after : List Write) : Prop :=
  List.Forall₂ (Guarded context schemaOf params) before after ∧
    (changed = false → List.Forall₂ (Guarded context schemaOf params) before before)

variable {changed : Bool}

theorem Covered.mono {first last : ParamTransforms} (grown : first ≤ last) {flag : Bool}
    (marked : flag = true → changed = true) {before after : List Write}
    (holds : Covered context schemaOf first flag before after) :
    Covered context schemaOf last changed before after := by
  refine ⟨holds.1.imp fun _ _ guarded => guarded.mono grown, fun unset => ?_⟩
  refine (holds.2 ?_).imp fun _ _ guarded => guarded.mono grown
  by_contra set
  rw [marked (by simpa using set)] at unset
  cases unset

variable {update : Update Query} {before after : ParamTransforms}

/-- Sealing the assignments of an UPDATE of the table `name`: they are sealed in a scope
that knows every protected column the server may write. -/
theorem sealUpdate_ok (rejecting : context.catalog.onUnprotected = .reject)
    (agrees : Agrees context schemaOf) {name : ObjectName}
    (target : factorName update.table.relation = some name) {relayed : List (Assignment Query)}
    (ran : sealUpdate context update before = .ok ((relayed, changed), after)) :
    ∃ scope : AssignmentScope, scope.sealedColumns = [] ∧
      (∀ (write : Write) (ident : Ident) (transform : FieldTransform),
        write.table = name → write.column = some ident →
          Protects context.catalog schemaOf write transform →
            scope.columns.get (normalize ident) = some transform) ∧
      List.Forall₂ (AssignmentSealed scope after) update.assignments relayed ∧
      (changed = false → relayed = update.assignments) := by
  obtain ⟨found, middle, looked, next⟩ := bind_run_iff.mp ran
  obtain ⟨columnsFound, rfl⟩ := monadLift_run_iff.mp looked
  have table : context.table name = .ok found := by
    unfold updateColumns at columnsFound
    unfold factorName at target
    split at target
    · rename_i named isTable
      rw [isTable] at columnsFound
      cases target
      exact columnsFound
    · cases target
  cases found with
  | none =>
    obtain ⟨rfl, rfl, rfl⟩ := pure_pair next
    refine ⟨⟨.known .none, .empty, []⟩, rfl, fun write ident transform written column guards =>
      ?_, List.forall₂_same.mpr fun assignment _ => ⟨rfl, List.forall₂_same.mpr fun entry _ =>
        ⟨rfl, by simp⟩⟩, fun _ => rfl⟩
    exact absurd guards (not_protects_of_table_none rejecting agrees table written transform)
  | some columns =>
    obtain ⟨each, unchanged⟩ := sealAssignments_ok rejecting next
    exact ⟨_, rfl, fun write ident transform written column guards =>
      protects_of_table_some agrees table written column guards, each, unchanged⟩

theorem rewriteUpdate_ok (rejecting : context.catalog.onUnprotected = .reject)
    (agrees : Agrees context schemaOf) (queries : ∀ query, Grows (walks.rewriteQuery query))
    {relayed : Update Query}
    (ran : rewriteUpdate context walks update before = .ok ((relayed, changed), after)) :
    Covered context schemaOf after changed (updateWrites update) (updateWrites relayed) := by
  obtain ⟨sameTarget, middle, flag, first, sealedOnes, grown, marked, _, _, _, sweeping⟩ :=
    rewriteUpdate_runs queries ran
  simp only [updateWrites, sameTarget]
  cases target : factorName update.table.relation with
  | none => exact ⟨.nil, fun _ => .nil⟩
  | some name =>
    obtain ⟨scope, noneSealed, guards, each, unchanged⟩ :=
      sealUpdate_ok rejecting agrees target sealedOnes
    have proposals : ∀ (ident : Ident) (transform : FieldTransform),
        normalize ident ∈ scope.sealedColumns →
          scope.columns.get (normalize ident) = some transform →
            ∃ first last : List (Expr Query), (none : Option (List (Expr Query))) = some first ∧
              (none : Option (List (Expr Query))) = some last ∧
                List.Forall₂ (SealedValue transform after) first last := by
      intro ident transform listed
      rw [noneSealed] at listed
      cases listed
    have settle : ∀ {later : List (Assignment Query)},
        List.Forall₂ (AssignmentSealed scope first) update.assignments later →
          List.Forall₂ (Guarded context schemaOf after)
            (update.assignments.flatMap (assignmentWrites name fun _ => none))
            (later.flatMap (assignmentWrites name fun _ => none)) := by
      intro later each
      refine guarded_assignments guards proposals (each.imp ?_)
      rintro _ _ ⟨same, entries⟩
      exact ⟨same, entries.imp fun _ _ entry => entry.mono grown⟩
    refine ⟨settle (sweepAssignments_by queries Entry.sweep each sweeping), fun unset => settle ?_⟩
    rw [unchanged (marked unset)] at each
    exact each

end Updates

section Inserts
variable {Query Statement : Type} {context : Context} {schemaOf : String → String}
  {walks : Walks Query Statement} {table : ObjectName} {columns : Columns}

/-- A write to a listed column of the table, sealed if the column is protected. -/
def ListedSealed (table : ObjectName) (columns : Columns) (params : ParamTransforms)
    (client relayed : Write) : Prop :=
  client.table = table ∧ ∃ ident, client.column = some ident ∧
    ∀ transform, columns.get (normalize ident) = some transform →
      SealedWrite transform params client relayed

variable {params : ParamTransforms} {client relayed : Write}

theorem ListedSealed.guarded
    (guards : ∀ (write : Write) (ident : Ident) (transform : FieldTransform),
      write.table = table → write.column = some ident →
        Protects context.catalog schemaOf write transform →
          columns.get (normalize ident) = some transform)
    (listed : ListedSealed table columns params client relayed) :
    Guarded context schemaOf params client relayed := by
  obtain ⟨written, ident, column, holds⟩ := listed
  intro transform protects
  exact holds transform (guards client ident transform written column protects)

theorem ListedSealed.mono {first last : ParamTransforms} (grown : first ≤ last)
    (listed : ListedSealed table columns first client relayed) :
    ListedSealed table columns last client relayed := by
  obtain ⟨written, ident, column, holds⟩ := listed
  exact ⟨written, ident, column, fun transform guarded => (holds transform guarded).mono grown⟩

/-- What sealing did to rows of values: every listed write is covered and so is every
value proposed for a protected column. -/
structure RowsSealed (table : ObjectName) (columns : Columns) (idents : List Ident)
    (params : ParamTransforms) (before after : List (List (Expr Query))) : Prop where
  listed : List.Forall₂ (ListedSealed table columns params)
    (before.flatMap (listedWrites table idents)) (after.flatMap (listedWrites table idents))
  proposed : ∀ name transform, columns.get name = some transform →
    List.Forall₂ (SealedValue transform params)
      (before.flatMap (columnValues name idents)) (after.flatMap (columnValues name idents))

variable {changed : Bool} {before after : ParamTransforms} {row : RowKeySource}

theorem sealListed_ok (rejecting : context.catalog.onUnprotected = .reject) {ident : Ident}
    {client relayed : Expr Query}
    (ran : sealListed context columns row ident client before = .ok ((relayed, changed), after)) :
    (∀ transform, columns.get (normalize ident) = some transform →
      SealedValue transform after client relayed) ∧ (changed = false → relayed = client) := by
  cases guarded : columns.get (normalize ident) with
  | none =>
    simp only [sealListed, guarded] at ran
    obtain ⟨rfl, rfl, rfl⟩ := pure_pair ran
    exact ⟨by simp, fun _ => rfl⟩
  | some transform =>
    simp only [sealListed, guarded] at ran
    obtain ⟨sealedValue, unchanged⟩ := sealExpr_ok rejecting ran
    refine ⟨fun other same => ?_, unchanged⟩
    cases same
    exact sealedValue

variable {idents : List Ident}

theorem sealRow_ok (rejecting : context.catalog.onUnprotected = .reject)
    {client relayed : List (Expr Query)}
    (ran : sealRow context columns row idents client before = .ok ((relayed, changed), after)) :
    List.Forall₂ (ListedSealed table columns after) (listedWrites table idents client)
        (listedWrites table idents relayed) ∧
      (∀ name transform, columns.get name = some transform →
        List.Forall₂ (SealedValue transform after) (columnValues name idents client)
          (columnValues name idents relayed)) ∧ (changed = false → relayed = client) := by
  fun_induction sealRow context columns row idents client generalizing relayed changed before with
  | case1 ident idents value rest ih =>
    obtain ⟨result, flag, tail, later, middle, rfl, rfl, here, there⟩ := both_run ran
    obtain ⟨sealedHere, unchanged⟩ := sealListed_ok rejecting here
    obtain ⟨listed, proposed, tailUnchanged⟩ := ih there
    have grown := grows_sealRow _ _ _ _ _ _ _ there
    refine ⟨.cons ⟨rfl, ident, rfl, fun transform guarded => ?_⟩ listed, ?_, fun unset => ?_⟩
    · exact .inl ⟨value, result, rfl, rfl, (sealedHere transform guarded).mono grown⟩
    · intro name transform guarded
      by_cases named : normalize ident = name
      · subst named
        simp only [columnValues, if_true]
        exact .cons ((sealedHere transform guarded).mono grown) (proposed _ transform guarded)
      · simp only [columnValues, if_neg named]
        exact proposed name transform guarded
    · rw [Bool.or_eq_false_iff] at unset
      rw [unchanged unset.1, tailUnchanged unset.2]
  | case2 idents values mismatched =>
    obtain ⟨rfl, rfl, rfl⟩ := pure_pair ran
    -- One of the two lists is empty, so the row writes nothing.
    cases idents with
    | nil => exact ⟨.nil, fun _ _ _ => .nil, fun _ => rfl⟩
    | cons ident idents =>
      cases values with
      | nil => exact ⟨.nil, fun _ _ _ => .nil, fun _ => rfl⟩
      | cons value values => exact absurd rfl (mismatched ident idents value values rfl)

theorem sealRows_ok (rejecting : context.catalog.onUnprotected = .reject) {qualified : String}
    {key : Option (ResolvedRowKey × Nat)} {reported : Bool}
    {client relayed : List (List (Expr Query))}
    (ran : sealRows context columns idents qualified key reported client before =
      .ok ((relayed, changed), after)) :
    RowsSealed table columns idents after client relayed ∧
      (changed = false → relayed = client) := by
  induction client generalizing reported relayed changed before with
  | nil =>
    obtain ⟨rfl, rfl, rfl⟩ := pure_pair ran
    exact ⟨⟨.nil, fun _ _ _ => .nil⟩, fun _ => rfl⟩
  | cons row rows ih =>
    obtain ⟨⟨source, reported'⟩, first, _, ran⟩ := bind_run_iff.mp ran
    obtain ⟨result, flag, tail, later, middle, rfl, rfl, here, there⟩ := both_run ran
    obtain ⟨listed, proposed, unchanged⟩ := sealRow_ok rejecting here
    obtain ⟨rest, tailUnchanged⟩ := ih there
    have grown := grows_sealRows _ _ _ _ _ _ _ _ _ there
    refine ⟨⟨?_, fun name transform guarded => ?_⟩, fun unset => ?_⟩
    · exact List.rel_append (listed.imp fun _ _ one => one.mono grown) rest.listed
    · exact List.rel_append
        ((proposed name transform guarded).imp fun _ _ one => one.mono grown)
        (rest.proposed name transform guarded)
    · rw [Bool.or_eq_false_iff] at unset
      rw [unchanged unset.1, tailUnchanged unset.2]

/-- What the first half of `rewrite_insert` leaves: the rows are guarded and every column
it reports as sealed has sealed proposals. -/
structure Proposed (context : Context) (schemaOf : String → String) (columns : Columns)
    (sealedColumns : List String) (params : ParamTransforms)
    (before after : Sql.Insert Query Statement) : Prop where
  sameTable : after.tableName = before.tableName
  sameOn : after.on = before.on
  rows : List.Forall₂ (Guarded context schemaOf params)
    (sourceWrites before.tableName before.columns before.source)
    (sourceWrites after.tableName after.columns after.source)
  proposals : ∀ (ident : Ident) (transform : FieldTransform), normalize ident ∈ sealedColumns →
    columns.get (normalize ident) = some transform →
      ∃ first last, proposedFor before ident = some first ∧ proposedFor after ident = some last ∧
        List.Forall₂ (SealedValue transform params) first last

theorem rowWrites_of_listed (listed : idents.isEmpty = false) (rows : List (List (Expr Query))) :
    rows.flatMap (rowWrites table idents) = rows.flatMap (listedWrites table idents) := by
  refine List.flatMap_congr fun row _ => ?_
  simp only [rowWrites, listed, Bool.false_eq_true, if_false]

variable {write : Write}

theorem listedWrites_listed {row : List (Expr Query)}
    (stored : write ∈ listedWrites table idents row) :
    write.table = table ∧ ∃ ident ∈ idents, write.column = some ident := by
  fun_induction listedWrites table idents row with
  | case1 ident idents value rest ih =>
    rcases List.mem_cons.mp stored with rfl | later
    · exact ⟨rfl, ident, List.mem_cons_self .., rfl⟩
    · obtain ⟨same, other, among, column⟩ := ih later
      exact ⟨same, other, List.mem_cons_of_mem _ among, column⟩
  | case2 => cases stored

theorem sourceWrites_listed (listed : idents.isEmpty = false)
    (source : Option (QueryNode Query Statement))
    (stored : write ∈ sourceWrites table idents source) :
    write.table = table ∧ ∃ ident ∈ idents, write.column = some ident := by
  unfold sourceWrites at stored
  split at stored
  · cases stored
  · split at stored
    · rw [rowWrites_of_listed listed] at stored
      obtain ⟨row, _, stored⟩ := List.mem_flatMap.mp stored
      exact listedWrites_listed stored
    · simp only [streamedWrites, listed, Bool.false_eq_true, if_false, List.mem_map] at stored
      obtain ⟨ident, among, rfl⟩ := stored
      exact ⟨rfl, ident, among, rfl⟩

variable {insert : Sql.Insert Query Statement}

theorem proposed_of_no_idents (agrees : Agrees context schemaOf)
    (found : context.table insert.tableName = .ok (some columns))
    (listed : insert.columns.isEmpty = false)
    (bare : (protectedIdents columns insert.columns).isEmpty = true) (params : ParamTransforms) :
    Proposed context schemaOf columns [] params insert insert := by
  refine ⟨rfl, rfl, List.forall₂_same.mpr fun write stored => ?_, by simp⟩
  obtain ⟨written, ident, among, column⟩ := sourceWrites_listed listed _ stored
  intro transform protects
  have guarded := protects_of_table_some agrees found written column protects
  have shown : normalize ident ∈ protectedIdents columns insert.columns := by
    simp only [protectedIdents, List.mem_filter, List.mem_map, guarded, Option.isSome_some,
      and_true]
    exact ⟨ident, among, rfl⟩
  rw [List.isEmpty_iff.mp bare] at shown
  cases shown

variable {relayed : Sql.Insert Query Statement} {sealedValues : SealedValues}

theorem rewriteInsertValues_ok (rejecting : context.catalog.onUnprotected = .reject)
    (agrees : Agrees context schemaOf) (found : context.table insert.tableName = .ok (some columns))
    (listed : insert.columns.isEmpty = false)
    (ran : rewriteInsertValues context insert columns before =
      .ok ((relayed, sealedValues), after)) :
    Proposed context schemaOf columns sealedValues.columns after insert relayed ∧
      (sealedValues.changed = false → relayed = insert) := by
  generalize passes : rewriteInsertValues context insert columns = pass at ran
  unfold rewriteInsertValues at passes
  split at passes
  · rename_i bare
    subst passes
    obtain ⟨rfl, rfl, rfl⟩ := pure_pair ran
    exact ⟨proposed_of_no_idents agrees found listed bare _, fun _ => rfl⟩
  · split at passes
    · rename_i noSource
      subst passes
      obtain ⟨rfl, rfl, rfl⟩ := pure_pair ran
      refine ⟨⟨rfl, rfl, ?_, by simp [SealedValues.none]⟩, fun _ => rfl⟩
      rw [noSource]
      exact .nil
    · rename_i source held
      split at passes
      · rename_i rows isValues
        split at passes
        · rename_i unresolved
          exact absurd unresolved (resolvedName_of_table found)
        · subst passes
          obtain ⟨key, first, _, ran⟩ := bind_run_iff.mp ran
          obtain ⟨⟨result, changed⟩, second, sealing, done⟩ := bind_run_iff.mp ran
          obtain ⟨rfl, rfl, rfl⟩ := pure_pair done
          obtain ⟨sealedRows, unchanged⟩ := sealRows_ok rejecting sealing
          refine ⟨⟨rfl, rfl, ?_, fun ident transform among guarded => ?_⟩, fun unset => ?_⟩
          · simp only [sourceWrites, held, isValues, rowWrites_of_listed listed]
            exact sealedRows.listed.imp fun _ _ one => one.guarded
              fun write ident transform written column protects =>
                protects_of_table_some agrees found written column protects
          · have among' : normalize ident ∈ insert.columns.map normalize :=
              (List.mem_filter.mp among).1
            simp only [proposedFor, held, isValues, among', if_true]
            exact ⟨_, _, rfl, rfl, sealedRows.proposed _ transform guarded⟩
          · rw [unchanged unset, ← isValues, ← held]
      · subst passes
        obtain ⟨_, _, signalled, _⟩ := bind_run_iff.mp ran
        obtain ⟨passed, _⟩ := monadLift_run_iff.mp signalled
        exact absurd passed (unprotected_rejects rejecting _)

theorem rewriteProposed_ok (rejecting : context.catalog.onUnprotected = .reject)
    (agrees : Agrees context schemaOf) (found : context.table insert.tableName = .ok (some columns))
    (ran : rewriteProposed context insert columns before = .ok ((relayed, sealedValues), after)) :
    Proposed context schemaOf columns sealedValues.columns after insert relayed ∧
      (sealedValues.changed = false → relayed = insert) := by
  cases listed : insert.columns.isEmpty with
  | true =>
    simp only [rewriteProposed, listed, if_true] at ran
    obtain ⟨_, _, signalled, _⟩ := bind_run_iff.mp ran
    obtain ⟨passed, _⟩ := monadLift_run_iff.mp signalled
    exact absurd passed (unprotected_rejects rejecting _)
  | false =>
    simp only [rewriteProposed, listed, Bool.false_eq_true, if_false] at ran
    exact rewriteInsertValues_ok rejecting agrees found listed ran

theorem rewriteOnInsert_ok (rejecting : context.catalog.onUnprotected = .reject)
    (queries : ∀ query, Grows (walks.rewriteQuery query)) {scope : AssignmentScope}
    {inScope : TableScope} {on relayed : OnInsert Query}
    (ran : rewriteOnInsert context walks scope inScope on before =
      .ok ((relayed, changed), after)) :
    List.Forall₂ (AssignmentSealed scope after) (conflictAssignments (some on))
        (conflictAssignments (some relayed)) ∧
      (changed = false →
        conflictAssignments (some relayed) = conflictAssignments (some on)) := by
  obtain ⟨each, unchanged⟩ := rewriteOnInsert_lift (sealed_inherited rejecting) queries ran
  refine ⟨each.imp ?_, unchanged⟩
  rintro first last ⟨same, entries⟩
  exact ⟨same, entries.imp fun _ _ lifted => entry_of_lifted lifted⟩

theorem Proposed.conflict {sealedColumns : List String} {later : ParamTransforms}
    {before after : Sql.Insert Query Statement}
    (proposed : Proposed context schemaOf columns sealedColumns params before after)
    (grown : params ≤ later) (found : context.table before.tableName = .ok (some columns))
    (agrees : Agrees context schemaOf) {row : AssignmentRow} {on : Option (OnInsert Query)}
    (each : List.Forall₂ (AssignmentSealed ⟨row, columns, sealedColumns⟩ later)
      (conflictAssignments before.on) (conflictAssignments on)) :
    List.Forall₂ (Guarded context schemaOf later) (insertWrites before)
      (insertWrites { after with on }) := by
  refine List.rel_append (proposed.rows.imp fun _ _ guarded => guarded.mono grown) ?_
  simp only [conflictWrites, proposed.sameTable]
  refine guarded_assignments (fun write ident transform written column protects =>
    protects_of_table_some agrees found written column protects) ?_ each
  intro ident transform among guarded
  obtain ⟨first, last, had, has, values⟩ := proposed.proposals ident transform among guarded
  exact ⟨first, last, had, has, values.imp fun _ _ value => value.mono grown⟩

variable {name : ObjectName}

theorem streamedWrites_table (stored : write ∈ streamedWrites Query name idents) :
    write.table = name := by
  unfold streamedWrites at stored
  split at stored
  · rw [List.mem_singleton.mp stored]
  · obtain ⟨ident, _, rfl⟩ := List.mem_map.mp stored
    rfl

theorem rowWrites_table {row : List (Expr Query)} (stored : write ∈ rowWrites name idents row) :
    write.table = name := by
  unfold rowWrites at stored
  split at stored
  · obtain ⟨value, _, rfl⟩ := List.mem_map.mp stored
    rfl
  · exact (listedWrites_listed stored).1

theorem assignmentWrites_table {proposed : Ident → Option (List (Expr Query))}
    {assignments : List (Assignment Query)}
    (stored : write ∈ assignments.flatMap (assignmentWrites name proposed)) :
    write.table = name := by
  obtain ⟨assignment, _, stored⟩ := List.mem_flatMap.mp stored
  obtain ⟨entry, _, rfl⟩ := List.mem_map.mp stored
  rfl

theorem insertWrites_table (stored : write ∈ insertWrites insert) :
    write.table = insert.tableName := by
  rcases List.mem_append.mp stored with proposed | conflicting
  · unfold sourceWrites at proposed
    split at proposed
    · cases proposed
    · split at proposed
      · obtain ⟨row, _, stored⟩ := List.mem_flatMap.mp proposed
        exact rowWrites_table stored
      · exact streamedWrites_table proposed
  · exact assignmentWrites_table conflicting

theorem rewriteInsert_ok (rejecting : context.catalog.onUnprotected = .reject)
    (agrees : Agrees context schemaOf) (queries : ∀ query, Grows (walks.rewriteQuery query))
    (ran : rewriteInsert context walks insert before = .ok ((relayed, changed), after)) :
    Covered context schemaOf after changed (insertWrites insert) (insertWrites relayed) := by
  obtain ⟨found, first, looked, ran⟩ := bind_run_iff.mp ran
  obtain ⟨table, rfl⟩ := monadLift_run_iff.mp looked
  cases found with
  | none =>
    obtain ⟨rfl, rfl, rfl⟩ := pure_pair ran
    have unguarded : List.Forall₂ (Guarded context schemaOf before) (insertWrites insert)
        (insertWrites insert) := by
      refine List.forall₂_same.mpr fun write stored transform protects => ?_
      exact absurd protects (not_protects_of_table_none rejecting agrees table
        (insertWrites_table stored) transform)
    exact ⟨unguarded, fun _ => unguarded⟩
  | some columns =>
    obtain ⟨⟨middle, sealedValues⟩, second, proposing, ran⟩ := bind_run_iff.mp ran
    obtain ⟨⟨on, later⟩, third, conflicting, done⟩ := bind_run_iff.mp ran
    obtain ⟨rfl, rfl, rfl⟩ := pure_pair done
    obtain ⟨proposed, unchanged⟩ := rewriteProposed_ok rejecting agrees table proposing
    have grown := grows_rewriteOption _
      (fun on _ => grows_rewriteOnInsert queries _ _ on) _ _ _ conflicting
    have each : List.Forall₂ (AssignmentSealed
          ⟨onInsertRow context middle, columns, sealedValues.columns⟩ third)
        (conflictAssignments insert.on) (conflictAssignments on) ∧
        (later = false → conflictAssignments on = conflictAssignments insert.on) := by
      rw [← proposed.sameOn]
      rcases rewriteOption_ok conflicting with
        ⟨absent, rfl, rfl, rfl⟩ | ⟨held, result, present, rfl, here⟩
      · rw [absent]
        exact ⟨.nil, fun _ => rfl⟩
      · rw [present]
        exact rewriteOnInsert_ok rejecting queries here
    refine ⟨proposed.conflict grown table agrees each.1, fun unset => ?_⟩
    obtain ⟨unsealed, unassigned⟩ := Bool.or_eq_false_iff.mp unset
    obtain rfl := unchanged unsealed
    have same := each.1
    rw [each.2 unassigned] at same
    exact proposed.conflict grown table agrees same

end Inserts

section Nodes
variable {Query Statement : Type} {context : Context} {schemaOf : String → String}
  {walks : Walks Query Statement} {effects : Effects Query Statement}

/-- What the level below contributes: its queries, and its statements as the body of a
query, are covered whatever was recorded before. -/
structure Sound (context : Context) (schemaOf : String → String) (walks : Walks Query Statement)
    (effects : Effects Query Statement) : Prop where
  query : ∀ {query relayed changed before after},
    walks.rewriteQuery query before = .ok ((relayed, changed), after) →
      Covered context schemaOf after changed (effects.ofQuery query) (effects.ofQuery relayed)
  body : ∀ {statement relayed changed before after},
    walks.rewriteStatement statement before = .ok ((relayed, changed), after) →
      Covered context schemaOf after changed (effects.ofBody statement) (effects.ofBody relayed)
  queriesGrow : ∀ query, Grows (walks.rewriteQuery query)
  statementsGrow : ∀ statement, Grows (walks.rewriteStatement statement)

theorem Covered.nil (params : ParamTransforms) (changed : Bool) :
    Covered context schemaOf params changed [] [] := ⟨.nil, fun _ => .nil⟩

variable {changed : Bool} {params : ParamTransforms} {before : List Write}

theorem Covered.append {first second : Bool} {after before' after' : List Write}
    (marked : changed = false → first = false ∧ second = false)
    (here : Covered context schemaOf params first before after)
    (there : Covered context schemaOf params second before' after') :
    Covered context schemaOf params changed (before ++ before') (after ++ after') := by
  refine ⟨List.rel_append here.1 there.1, fun unset => ?_⟩
  obtain ⟨firstUnset, secondUnset⟩ := marked unset
  exact List.rel_append (here.2 firstUnset) (there.2 secondUnset)

theorem covered_of_unprotected (unguarded : ∀ write ∈ before, ∀ transform,
      ¬ Protects context.catalog schemaOf write transform) :
    Covered context schemaOf params changed before before := by
  have each : List.Forall₂ (Guarded context schemaOf params) before before :=
    List.forall₂_same.mpr fun write stored transform protects =>
      absurd protects (unguarded write stored transform)
  exact ⟨each, fun _ => each⟩

variable {before after : ParamTransforms}

theorem rewriteSetExpr_ok (sound : Sound context schemaOf walks effects)
    {body relayed : SetExpr Query Statement}
    (ran : rewriteSetExpr context walks body before = .ok ((relayed, changed), after)) :
    Covered context schemaOf after changed (setExprWrites effects body)
      (setExprWrites effects relayed) := by
  induction body generalizing relayed changed before after with
  | select select =>
    obtain ⟨result, rfl, here⟩ := wrap_run ran
    exact Covered.nil _ _
  | query query =>
    obtain ⟨result, rfl, here⟩ := wrap_run ran
    exact sound.query here
  | setOperation left right leftOk rightOk =>
    obtain ⟨first, flag, second, later, middle, rfl, rfl, here, there⟩ := both_run ran
    have grown := grows_rewriteSetExpr sound.queriesGrow sound.statementsGrow _ _ _ _ there
    exact ((leftOk here).mono grown id).append Bool.or_eq_false_iff.mp (rightOk there)
  | insert statement =>
    obtain ⟨result, rfl, here⟩ := wrap_run ran
    exact sound.body here
  | update statement =>
    obtain ⟨result, rfl, here⟩ := wrap_run ran
    exact sound.body here
  | values rows =>
    obtain ⟨rfl, rfl, rfl⟩ := pure_pair ran
    exact Covered.nil _ _
  | table schemaName tableName =>
    obtain ⟨rfl, rfl, rfl⟩ := pure_pair ran
    exact Covered.nil _ _

theorem rewriteCtes_ok (sound : Sound context schemaOf walks effects)
    {ctes relayed : List (Cte Query)}
    (ran : rewriteEach (rewriteCte walks) ctes before = .ok ((relayed, changed), after)) :
    Covered context schemaOf after changed
      (ctes.flatMap fun cte => effects.ofQuery cte.query)
      (relayed.flatMap fun cte => effects.ofQuery cte.query) := by
  have grows : ∀ cte, Grows (rewriteCte walks cte) :=
    fun cte => (sound.queriesGrow cte.query).bind fun _ => grows_pure _
  induction ctes generalizing relayed changed before with
  | nil =>
    obtain ⟨rfl, rfl, rfl⟩ := pure_pair ran
    exact Covered.nil _ _
  | cons cte rest ih =>
    obtain ⟨result, flag, tail, later, middle, rfl, rfl, here, there⟩ := both_run ran
    obtain ⟨⟨query, flag'⟩, middle', inner, done'⟩ := bind_run_iff.mp here
    obtain ⟨rfl, rfl, rfl⟩ := pure_pair done'
    have grown := grows_rewriteEach _ (fun cte _ => grows cte) _ _ _ there
    exact ((sound.query inner).mono grown id).append Bool.or_eq_false_iff.mp (ih there)

theorem rewriteQueryNode_ok (sound : Sound context schemaOf walks effects)
    {query relayed : QueryNode Query Statement}
    (ran : rewriteQueryNode context walks query before = .ok ((relayed, changed), after)) :
    Covered context schemaOf after changed (queryWrites effects query)
      (queryWrites effects relayed) := by
  obtain ⟨⟨ctes, first⟩, start, inCtes, ran⟩ := bind_run_iff.mp ran
  obtain ⟨⟨body, second⟩, middle, inBody, ran⟩ := bind_run_iff.mp ran
  obtain ⟨⟨orderBy, third⟩, last, ordered, done⟩ := bind_run_iff.mp ran
  obtain ⟨rfl, rfl, rfl⟩ := pure_pair done
  have toMiddle := grows_rewriteSetExpr sound.queriesGrow sound.statementsGrow _ _ _ _ inBody
  have toLast := grows_rewriteEach _
    (fun expr _ => grows_rewriteNestedQueries sound.queriesGrow expr) _ _ _ ordered
  refine ((rewriteCtes_ok sound inCtes).mono (toMiddle.trans toLast) id).append ?_
    ((rewriteSetExpr_ok sound inBody).mono toLast id)
  intro unset
  simp only [Bool.or_eq_false_iff] at unset
  exact unset.1

variable {name : ObjectName}

theorem mergeWrites_table {into : TableFactor Query} (target : factorName into = some name)
    {actions : List (MergeAction Query)} {write : Write}
    (stored : write ∈ mergeWrites into actions) :
    write.table = name := by
  simp only [mergeWrites, target] at stored
  obtain ⟨action, _, stored⟩ := List.mem_flatMap.mp stored
  cases action with
  | update assignments => exact assignmentWrites_table stored
  | insert columns rows =>
    obtain ⟨row, _, stored⟩ := List.mem_flatMap.mp stored
    exact rowWrites_table stored
  | delete => cases stored

theorem table_none_of_refuseCopyTable (rejecting : context.catalog.onUnprotected = .reject)
    (passed : refuseCopyTable context name false = .ok ()) :
    context.table name = .ok none := by
  obtain ⟨isProtected, looked, passed⟩ := Outcome.bind_ok_iff.mp passed
  cases found : context.table name with
  | error refusal =>
    simp only [found] at looked
    cases looked
  | ok columns =>
    simp only [found] at looked
    cases columns with
    | none => rfl
    | some columns =>
      cases looked
      exact absurd passed (unprotected_rejects rejecting _)

theorem table_none_of_refuseWrite (rejecting : context.catalog.onUnprotected = .reject)
    {shape : String} (passed : refuseWrite context name shape = .ok ()) :
    context.table name = .ok none := by
  obtain ⟨columns, found, passed⟩ := Outcome.bind_ok_iff.mp passed
  cases columns with
  | none => exact found
  | some columns => exact absurd passed (unprotected_rejects rejecting _)

def opened : StatementNode Query Statement → Bool
  | .prepare _ _ => false
  | .explain _ _ => false
  | .createTableAs _ _ => false
  | _ => true

variable {statement relayed : StatementNode Query Statement}

theorem rewriteStatementNode_opened (rejecting : context.catalog.onUnprotected = .reject)
    (agrees : Agrees context schemaOf) (sound : Sound context schemaOf walks effects)
    (walked : opened statement = true) (ran : rewriteStatementNode context walks statement before =
      .ok ((relayed, changed), after)) :
    Covered context schemaOf after changed (statementWrites effects statement)
        (statementWrites effects relayed) ∧
      Covered context schemaOf after changed (bodyWrites statement) (bodyWrites relayed) := by
  cases statement with
  | insert insert =>
    obtain ⟨result, rfl, here⟩ := wrap_run ran
    have covered := rewriteInsert_ok rejecting agrees sound.queriesGrow here
    exact ⟨covered, covered⟩
  | update update =>
    obtain ⟨result, rfl, here⟩ := wrap_run ran
    have covered := rewriteUpdate_ok rejecting agrees sound.queriesGrow here
    exact ⟨covered, covered⟩
  | query query =>
    obtain ⟨result, rfl, here⟩ := wrap_run ran
    exact ⟨rewriteQueryNode_ok sound here, Covered.nil _ _⟩
  | delete delete =>
    obtain ⟨result, rfl, here⟩ := wrap_run ran
    exact ⟨Covered.nil _ _, Covered.nil _ _⟩
  | copyTable name columns outward =>
    obtain ⟨_, middle, here, done⟩ := bind_run_iff.mp ran
    obtain ⟨passed, rfl⟩ := monadLift_run_iff.mp here
    obtain ⟨rfl, rfl, rfl⟩ := pure_pair done
    refine ⟨covered_of_unprotected fun write stored transform => ?_, Covered.nil _ _⟩
    -- COPY in is refused for a protected table, and COPY out stores nothing.
    cases outward with
    | true => cases stored
    | false =>
      exact not_protects_of_table_none rejecting agrees
        (table_none_of_refuseCopyTable rejecting passed) (streamedWrites_table stored) transform
  | copyQuery query outward =>
    obtain ⟨⟨result, flag⟩, middle, here, done⟩ := bind_run_iff.mp ran
    obtain ⟨rfl, rfl, rfl⟩ := pure_pair done
    refine ⟨?_, Covered.nil _ _⟩
    cases outward with
    | false => exact Covered.nil _ _
    | true =>
      obtain ⟨_, _, _, inner⟩ := bind_run_iff.mp here
      exact rewriteQueryNode_ok sound inner
  | merge into actions =>
    obtain ⟨_, middle, here, done⟩ := bind_run_iff.mp ran
    obtain ⟨passed, rfl⟩ := monadLift_run_iff.mp here
    obtain ⟨rfl, rfl, rfl⟩ := pure_pair done
    refine ⟨covered_of_unprotected fun write stored transform => ?_, Covered.nil _ _⟩
    cases target : factorName into with
    | none =>
      simp only [statementWrites, mergeWrites, target] at stored
      cases stored
    | some name =>
      simp only [refuseMerge, target] at passed
      exact not_protects_of_table_none rejecting agrees
        (table_none_of_refuseWrite rejecting passed) (mergeWrites_table target stored) transform
  | unwalked keyword =>
    obtain ⟨rfl, rfl, rfl⟩ := pure_pair ran
    exact ⟨Covered.nil _ _, Covered.nil _ _⟩
  | prepare name statement => cases walked
  | explain analyze statement => cases walked
  | createTableAs name query => cases walked

theorem rewriteStatementNode_unopened (effects : Effects Query Statement)
    (unwalked : opened statement = false)
    (ran : rewriteStatementNode context walks statement before =
      .ok ((relayed, changed), after)) :
    relayed = statement ∧ after = before ∧ bodyWrites statement = [] ∧
      statementWrites effects statement = wrappedWrites effects statement := by
  cases statement with
  | prepare name statement =>
    obtain ⟨_, middle, here, done⟩ := bind_run_iff.mp ran
    obtain ⟨passed, rfl⟩ := monadLift_run_iff.mp here
    obtain ⟨rfl, rfl, rfl⟩ := pure_pair done
    exact ⟨rfl, rfl, rfl, rfl⟩
  | explain analyze statement =>
    obtain ⟨rfl, rfl, rfl⟩ := pure_pair ran
    exact ⟨rfl, rfl, rfl, rfl⟩
  | createTableAs name query =>
    obtain ⟨rfl, rfl, rfl⟩ := pure_pair ran
    exact ⟨rfl, rfl, rfl, rfl⟩
  | _ => cases unwalked

theorem wrappedWrites_of_opened (walked : opened statement = true) :
    wrappedWrites effects statement = [] := by
  cases statement with
  | prepare name statement => cases walked
  | explain analyze statement => cases walked
  | createTableAs name query => cases walked
  | _ => rfl

theorem rewriteStatementNode_body (rejecting : context.catalog.onUnprotected = .reject)
    (agrees : Agrees context schemaOf) (sound : Sound context schemaOf walks effects)
    (ran : rewriteStatementNode context walks statement before =
      .ok ((relayed, changed), after)) :
    Covered context schemaOf after changed (bodyWrites statement) (bodyWrites relayed) := by
  cases walked : opened statement with
  | true => exact (rewriteStatementNode_opened rejecting agrees sound walked ran).2
  | false =>
    obtain ⟨rfl, _, none, _⟩ := rewriteStatementNode_unopened effects walked ran
    rw [none]
    exact Covered.nil _ _

end Nodes

theorem walks_sound {context : Context} {schemaOf : String → String}
    (rejecting : context.catalog.onUnprotected = .reject) (agrees : Agrees context schemaOf)
    (depth : Nat) : Sound context schemaOf (walks context depth) (effects depth) := by
  induction depth with
  | zero =>
    exact ⟨fun {query} => (nomatch query), fun {statement} => (nomatch statement), nofun, nofun⟩
  | succ depth ih =>
    exact ⟨fun ran => rewriteQueryNode_ok ih ran,
      fun ran => rewriteStatementNode_body rejecting agrees ih ran,
      (walks_grow context (depth + 1)).1, (walks_grow context (depth + 1)).2⟩

/-- Under `reject`, an accepted statement stores no plaintext in a protected column iff
the writes it carries under PREPARE, EXPLAIN ANALYZE or CREATE TABLE AS store none as
the client wrote them. -/
theorem accepted_stores_no_plaintext {depth : Nat} (context : Context)
    (schemaOf : String → String) (rejecting : context.catalog.onUnprotected = .reject)
    (agrees : Agrees context schemaOf) (client rewritten : Statement depth) (changed : Bool)
    (params : ParamTransforms)
    (accepted : rewriteStatement context client .empty = .ok ((rewritten, changed), params)) :
    NoPlaintext context schemaOf params client (if changed then rewritten else client) ↔
      ∀ write ∈ wrapped client, Guarded context schemaOf .empty write write := by
  cases depth with
  | zero => exact nomatch client
  | succ depth =>
    have sound := walks_sound rejecting agrees depth
    unfold NoPlaintext
    cases walked : opened client with
    | true =>
      have nothing : wrapped client = [] := wrappedWrites_of_opened walked
      rw [nothing]
      refine iff_of_true ?_ nofun
      have covered := (rewriteStatementNode_opened rejecting agrees sound walked accepted).1
      cases changed with
      | true => exact covered.1
      | false => exact covered.2 rfl
    | false =>
      obtain ⟨kept, rfl, _, all⟩ :=
        rewriteStatementNode_unopened (effects depth) walked accepted
      rw [kept, ite_self]
      have same : writes client = wrapped client := all
      rw [same]
      exact List.forall₂_same

/-- `INSERT INTO users (id, email) VALUES (1, 'p')`. -/
def insertEmail (depth : Nat) : Statement (depth + 1) :=
  .insert ⟨[.plain "users"], none, [.plain "id", .plain "email"],
    some ⟨false, [], .values [[.value (.number "1"), .value (.singleQuoted "p")]], [], []⟩,
    none, []⟩

theorem insert_stores_no_plaintext : ∃ rewritten params,
    rewriteStatement (plainContext [usersEmail] .reject) (insertEmail 0) .empty =
      .ok ((rewritten, true), params) ∧
    NoPlaintext (plainContext [usersEmail] .reject) (fun _ => "public") params (insertEmail 0)
      rewritten := by
  refine ⟨.insert ⟨[.plain "users"], none, [.plain "id", .plain "email"],
    some ⟨false, [], .values [[.value (.number "1"), .value (.escaped "\\xaa70")]], [], []⟩,
    none, []⟩, .empty, rfl, ?_⟩
  exact (accepted_stores_no_plaintext _ _ rfl (fun _ _ => rfl) _ _ true _ rfl).mpr nofun

/-- `EXPLAIN ANALYZE INSERT INTO users (id, email) VALUES (1, 'p')` is accepted and relayed
as it came, and runs the INSERT. -/
theorem explain_analyze_stores_plaintext :
    let client : Statement 2 := .explain true (insertEmail 0)
    rewriteStatement (plainContext [usersEmail] .reject) client .empty =
      .ok ((client, false), .empty) ∧
    ¬ NoPlaintext (plainContext [usersEmail] .reject) (fun _ => "public") .empty client client := by
  refine ⟨rfl, fun stores => ?_⟩
  obtain _ | ⟨_, _ | ⟨guarded, _⟩⟩ := stores
  have protects : Protects (plainContext [usersEmail] .reject).catalog (fun _ => "public")
      ⟨Sql.Query 0, [.plain "users"], some (.plain "email"),
        some (.value (.singleQuoted "p")), none⟩ (markingTransform 0 true) :=
    ⟨("public", "users"), _, "email", rfl, rfl, rfl, by rintro ident ⟨⟩; rfl⟩
  rcases guarded _ protects with ⟨value, stored, had, has, sealedValue⟩ | restored
  · cases had
    cases has
    cases sealedValue with
    | null isNull => cases isNull
    | literal read sealedAs same =>
      rename_i stored _
      cases same
    | placeholder isPlaceholder _ => cases isPlaceholder
  · obtain ⟨_, _, _, _, _, reference, _⟩ := restored
    cases reference

end Dbsec.AtRest
