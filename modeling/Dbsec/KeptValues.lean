import Dbsec.RowBinding
import Dbsec.SealedWrites

/-! What `reject` guarantees about the values seal.rs lets through: none for a protected
column is left as the client wrote it, and each is sealed for a row the statement names. -/
namespace Dbsec.KeptValues
open Framing Sql Params Unprotected Catalog Literals Scope Accumulate Rewrite Predicate Seal
open QueryWalk Statements Writes SealedForm SealedWrites KeyedWrites BoundParams RowStore PinnedRow
open RowBinding

section Values
variable {Query : Type} {context : Context} {result : Expr Query × Bool}

variable {target : SealTarget} {expr : Expr Query}

variable (rejecting : context.catalog.onUnprotected = .reject)
include rejecting

theorem sealLiteral_kept (ran : sealLiteral context target expr = .ok result) :
    sealedLiteral context target.transform target.row expr ≠ none := by
  unfold sealLiteral at ran
  unfold sealedLiteral
  split at ran
  · rename_i agrees
    rw [if_pos agrees]
    split at ran
    · exact absurd ran (leave_rejects rejecting _ _ _)
    · rename_i plaintext read
      rw [read, Option.bind_some]
      split at ran
      · rename_i key same
        obtain ⟨stored, produced, _⟩ := sealPlaintext_exact ran
        simp [same, produced, Except.toOption]
      · exact absurd ran (leave_rejects rejecting _ _ _)
      · rename_i same
        obtain ⟨stored, produced, _⟩ := sealPlaintext_exact ran
        simp [same, produced, Except.toOption]
  · exact absurd ran (leave_rejects rejecting _ _ _)

variable {before after : ParamTransforms}

theorem sealExpr_kept (ran : sealExpr context target expr before = .ok (result, after)) :
    ¬ Left context target.transform target.row expr := by
  rintro ⟨notPlaceholder, notNull, unsealed⟩
  generalize passes : sealExpr context target expr = pass at ran
  unfold sealExpr at passes
  split at passes <;> subst passes
  · rename_i text isPlaceholder
    exact notPlaceholder text isPlaceholder
  · rename_i isNull
    exact notNull isNull
  · obtain ⟨sealing, _⟩ := monadLift_run_iff.mp ran
    exact sealLiteral_kept rejecting sealing unsealed

theorem rowOf_kept {row : AssignmentRow}
    {source : RowKeySource} (found : rowOf context row = .ok source) : row = .known source := by
  cases row with
  | known held => rw [Except.ok.inj found]
  | missing table column shape =>
    obtain ⟨_, reported, _⟩ := Outcome.bind_ok_iff.mp found
    exact absurd reported (unprotected_rejects rejecting _)
  | reassigned table column =>
    obtain ⟨_, reported, _⟩ := Outcome.bind_ok_iff.mp found
    exact absurd reported (unprotected_rejects rejecting _)

/-- An assigned protected value has a known row, and is sealed for it or re-stored. -/
def Kept (context : Context) (scope : AssignmentScope) (ident : Ident)
    (value : Expr Query) : Prop :=
  ∀ transform, scope.columns.get (normalize ident) = some transform →
    ∃ source, scope.row = .known source ∧
      (reStoresASealedValue scope value (normalize ident) = true ∨
        ¬ Left context transform source value)

variable {scope : AssignmentScope}

theorem sealAssigned_kept {ident : Ident}
    {value : Expr Query}
    (ran : sealAssigned context scope ident value before = .ok (result, after)) :
    Kept context scope ident value := by
  intro transform guarded
  simp only [sealAssigned, guarded] at ran
  obtain ⟨row, middle, inRow, next⟩ := bind_run_iff.mp ran
  obtain ⟨found, rfl⟩ := monadLift_run_iff.mp inRow
  refine ⟨row, rowOf_kept rejecting found, ?_⟩
  by_cases restored : reStoresASealedValue scope value (normalize ident) = true
  · exact .inl restored
  · rw [if_neg restored] at next
    exact .inr (sealExpr_kept rejecting next)

theorem kept_inherited :
    Inherited context scope (fun _ ident (value _ : Expr Query) => Kept context scope ident value)
      fun ident => scope.columns.get (normalize ident) = none where
  mono _ kept := kept
  step ran := ⟨sealAssigned_kept rejecting ran, (sealAssigned_exact ran).2⟩
  bare unguarded := unguarded
  signalled targets ran := absurd ran (signalTuple_rejects rejecting (by simp [targets]))

def EntryKept (context : Context) (scope : AssignmentScope) (entry : Ident × Option (Expr Query)) :
    Prop :=
  ∀ transform, scope.columns.get (normalize entry.1) = some transform →
    ∃ value, entry.2 = some value ∧ Kept context scope entry.1 value

omit rejecting in
theorem entriesKept_of_lifted {params : ParamTransforms} {before after : List (Assignment Query)}
    (each : List.Forall₂ (AssignmentLifted
      (fun _ ident (value _ : Expr Query) => Kept context scope ident value)
      (fun ident => scope.columns.get (normalize ident) = none) params) before after) :
    ∀ entry ∈ assignedEntries before, EntryKept context scope entry := by
  intro entry listed transform guarded
  obtain ⟨assignment, held, listed⟩ := List.mem_flatMap.mp listed
  obtain ⟨other, _, _, entries⟩ := forall₂_exists_right each held
  obtain ⟨_, _, lifted⟩ := forall₂_exists_right entries listed
  rcases lifted.2 with ⟨value, _, had, _, kept⟩ | ⟨_, _, unguarded⟩
  · exact ⟨value, had, kept⟩
  · cases unguarded.symm.trans guarded

end Values

section Rows
variable {Query Statement : Type} {context : Context} {columns : Columns} {spec : ResolvedRowKey}

theorem rowKeySource_ne_none {expr : Expr Query} : rowKeySource spec expr ≠ some .none := by
  intro sourced
  unfold rowKeySource at sourced
  split at sourced
  · obtain ⟨index, _, same⟩ := Option.map_eq_some_iff.mp sourced
    cases same
  · obtain ⟨text, _, sourced⟩ := Option.bind_eq_some_iff.mp sourced
    split at sourced
    · cases sourced
    · cases sourced

/-- No value a row has for a protected column is left as written. -/
def RowKept (context : Context) (columns : Columns) (row : RowKeySource) (idents : List Ident)
    (values : List (Expr Query)) : Prop :=
  ∀ entry ∈ idents.zip values, ∀ transform, columns.get (normalize entry.1) = some transform →
    ¬ Left context transform row entry.2

variable {before after : ParamTransforms} {idents : List Ident}

variable (rejecting : context.catalog.onUnprotected = .reject)
include rejecting

theorem sealRow_kept {row : RowKeySource}
    {values : List (Expr Query)} {result : List (Expr Query) × Bool}
    (ran : sealRow context columns row idents values before = .ok (result, after)) :
    RowKept context columns row idents values := by
  fun_induction sealRow context columns row idents values generalizing result before after with
  | case1 ident idents value rest ih =>
    obtain ⟨⟨_, _⟩, _, here, more⟩ := bind_run_iff.mp ran
    obtain ⟨⟨_, _⟩, _, there, _⟩ := bind_run_iff.mp more
    intro entry listed transform guarded
    rcases List.mem_cons.mp listed with rfl | listed
    · simp only [sealListed, guarded] at here
      exact sealExpr_kept rejecting here
    · exact ih there entry listed transform guarded
  | case2 idents values mismatched =>
    intro entry listed
    cases idents with
    | nil => cases listed
    | cons ident idents =>
      cases values with
      | nil => cases listed
      | cons value values => exact absurd rfl (mismatched ident idents value values rfl)

variable {key : Option (ResolvedRowKey × Nat)} {qualified : String}

theorem proposedRow_kept {row : List (Expr Query)} {source : RowKeySource} {reported : Bool}
    (ran : proposedRow context qualified key row false = .ok (source, reported)) :
    reported = false ∧ source = proposedSource key row ∧ (key.isSome → source ≠ .none) := by
  unfold proposedRow at ran
  cases key with
  | none =>
    cases ran
    exact ⟨rfl, rfl, nofun⟩
  | some place =>
    simp only at ran
    split at ran
    · rename_i held found
      cases ran
      refine ⟨rfl, by simp only [proposedSource, found, Option.getD_some], fun _ missing => ?_⟩
      obtain ⟨expr, _, sourced⟩ := Option.bind_eq_some_iff.mp found
      rw [missing] at sourced
      exact rowKeySource_ne_none sourced
    · obtain ⟨_, signalled, _⟩ := Outcome.bind_ok_iff.mp ran
      exact absurd signalled (unprotected_rejects rejecting _)

theorem sealRows_kept {rows : List (List (Expr Query))} {result : List (List (Expr Query)) × Bool}
    (ran : sealRows context columns idents qualified key false rows before = .ok (result, after)) :
    ∀ values ∈ rows, RowKept context columns (proposedSource key values) idents values ∧
      (key.isSome → proposedSource key values ≠ .none) := by
  induction rows generalizing result before after with
  | nil => exact nofun
  | cons row rows ih =>
    obtain ⟨⟨source, reported⟩, _, inRow, ran⟩ := bind_run_iff.mp ran
    obtain ⟨found, rfl⟩ := monadLift_run_iff.mp inRow
    obtain ⟨⟨_, _⟩, _, here, ran⟩ := bind_run_iff.mp ran
    obtain ⟨⟨_, _⟩, _, there, _⟩ := bind_run_iff.mp ran
    obtain ⟨rfl, rfl, keyed⟩ := proposedRow_kept rejecting found
    intro values listed
    rcases List.mem_cons.mp listed with rfl | listed
    · exact ⟨sealRow_kept rejecting here, keyed⟩
    · exact ih there values listed

/-- What an accepted INSERT proposes for protected columns: nothing, or rows that spell
out their key and every value. -/
inductive ProposalsKept (context : Context) (columns : Columns)
    (insert : Sql.Insert Query Statement) : Prop where
  | unlisted : (protectedIdents columns insert.columns).isEmpty = true →
      ProposalsKept context columns insert
  | defaults : insert.source = none → ProposalsKept context columns insert
  | rows {source : QueryNode Query Statement} {rows : List (List (Expr Query))}
      {key : Option (ResolvedRowKey × Nat)} :
      proposedRows context columns insert = some (source, rows, key) →
      (∀ values ∈ rows, proposedSource key values ≠ .none ∧
        RowKept context columns (proposedSource key values) insert.columns values) →
      ProposalsKept context columns insert

theorem insertRowKey_kept
    {schema tableName : String} (declared : context.rowKeySpec schema tableName = some spec)
    (ran : insertRowKey context schema tableName idents = .ok key) : key.isSome = true := by
  simp only [insertRowKey, declared] at ran
  split at ran
  · cases ran
    rfl
  · obtain ⟨_, signalled, _⟩ := Outcome.bind_ok_iff.mp ran
    exact absurd signalled (unprotected_rejects rejecting _)

variable {insert : Sql.Insert Query Statement}

theorem rewriteProposed_kept (bound : RowBound context insert.tableName columns spec)
    {result : Sql.Insert Query Statement × SealedValues}
    (ran : rewriteProposed context insert columns before = .ok (result, after)) :
    insert.columns ≠ [] ∧ ProposalsKept context columns insert := by
  obtain ⟨schema, table, resolved, declared⟩ := bound.declared
  by_cases listed : insert.columns.isEmpty = true
  · simp only [rewriteProposed, listed, if_true] at ran
    obtain ⟨_, _, signalled, _⟩ := bind_run_iff.mp ran
    obtain ⟨signalled, _⟩ := monadLift_run_iff.mp signalled
    exact absurd signalled (unprotected_rejects rejecting _)
  · refine ⟨fun empty => listed (by rw [empty]; rfl), ?_⟩
    rw [rewriteProposed, if_neg listed] at ran
    by_cases bare : (protectedIdents columns insert.columns).isEmpty = true
    · exact .unlisted bare
    · generalize passes : rewriteInsertValues context insert columns = pass at ran
      rw [rewriteInsertValues, if_neg bare] at passes
      split at passes
      · rename_i absent
        exact .defaults absent
      · rename_i source sourced
        split at passes <;> subst passes
        · rename_i rows isValues
          simp only [resolved] at ran
          obtain ⟨key, _, inKey, ran⟩ := bind_run_iff.mp ran
          obtain ⟨found, rfl⟩ := monadLift_run_iff.mp inKey
          obtain ⟨⟨_, _⟩, _, sealing, _⟩ := bind_run_iff.mp ran
          have isKey := insertRowKey_kept rejecting declared found
          obtain rfl := insertRowKey_exact found
          have proposed : proposedRows context columns insert =
              some (source, rows, listedKey context schema table insert.columns) := by
            simp [proposedRows, listed, bare, sourced, isValues, resolved]
          refine .rows proposed fun values held => ?_
          obtain ⟨kept, keyed⟩ := sealRows_kept rejecting sealing values held
          exact ⟨keyed isKey, kept⟩
        · obtain ⟨_, _, signalled, _⟩ := bind_run_iff.mp ran
          obtain ⟨signalled, _⟩ := monadLift_run_iff.mp signalled
          exact absurd signalled (unprotected_rejects rejecting _)

variable {walks : Walks Query Statement} {changed : Bool}

theorem rewriteInsert_kept
    (queries : ∀ query, Grows (walks.rewriteQuery query)) {relayed : Sql.Insert Query Statement}
    (bound : RowBound context insert.tableName columns spec)
    (ran : rewriteInsert context walks insert before = .ok ((relayed, changed), after)) :
    insert.columns ≠ [] ∧ ProposalsKept context columns insert ∧
      ∀ entry ∈ assignedEntries (conflictAssignments insert.on),
        EntryKept context ⟨onInsertRow context (proposedForm context columns insert).1, columns,
          (proposedForm context columns insert).2⟩ entry := by
  obtain ⟨sealedValues, middle, on, later, proposing, _, conflicting, _⟩ :=
    rewriteInsert_runs bound.found ran
  obtain ⟨listed, kept⟩ := rewriteProposed_kept rejecting bound proposing
  refine ⟨listed, kept, ?_⟩
  rcases rewriteOption_ok conflicting with ⟨absent, _⟩ | ⟨held, result, present, _, here⟩
  · rw [absent]
    exact nofun
  · rw [present]
    exact entriesKept_of_lifted (rewriteOnInsert_lift (kept_inherited rejecting) queries here).1

theorem rewriteUpdate_kept
    (queries : ∀ query, Grows (walks.rewriteQuery query)) {update relayed : Update Query}
    {name : ObjectName} (target : factorName update.table.relation = some name)
    (found : context.table name = .ok (some columns))
    (ran : rewriteUpdate context walks update before = .ok ((relayed, changed), after)) :
    ∀ entry ∈ assignedEntries update.assignments,
      EntryKept context ⟨updateRow context update columns, columns, []⟩ entry := by
  obtain ⟨_, middle, flag, first, sealedOnes, _⟩ := rewriteUpdate_runs queries ran
  exact entriesKept_of_lifted (sealAssignments_lift (kept_inherited rejecting)
    (sealUpdate_run target found sealedOnes)).1

end Rows

end Dbsec.KeptValues
