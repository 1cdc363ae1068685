import Dbsec.KeptValues
import Dbsec.Upserts

/-! The WHERE clause of a relayed UPDATE still pins the row its values were sealed for: the
predicate pass of proxy/src/encrypt/predicate.rs touches comparisons of protected columns
only, and a row key is none. -/
namespace Dbsec.PinnedWrites
open Framing Sql Params Unprotected Catalog Literals Scope Accumulate Rewrite Predicate Seal
open QueryWalk Statements Writes SealedForm KeyedWrites BoundParams KeptLiterals RowStore PinnedRow
open RowBinding

section Condition
variable {Query : Type} {context : Context} {inScope : TableScope}
  {rewriteQuery : Query → Pass (Query × Bool)} {spec : ResolvedRowKey}

variable {expr : Expr Query} {source : RowKeySource}

theorem settled_of_rowKeySource (sourced : rowKeySource spec expr = some source) :
    Settled expr := by
  apply settled_of_unwrapCasts
  unfold rowKeySource at sourced
  split at sourced
  · rename_i text isPlaceholder
    rw [isPlaceholder]
    exact .value _
  · obtain ⟨text, literal, _⟩ := Option.bind_eq_some_iff.mp sourced
    exact settled_of_literalPlaintext literal

theorem columnRef_of_rowKeySource (sourced : rowKeySource spec expr = some source) :
    columnRef inScope expr = none := by
  cases expr with
  | identifier ident => cases sourced
  | compoundIdentifier idents => cases sourced
  | _ => rfl

def Unprotected (inScope : TableScope) (left right : Expr Query) : Prop :=
  columnRef inScope left = none ∧ columnRef inScope right = none

variable {left right condition relayed : Expr Query} {changed : Bool}
  {before after : ParamTransforms}

theorem rewriteSelection_conjunct (unprotected : Unprotected inScope left right)
    (conjunct : Conjunct (.binary (.op .eq) left right) condition)
    (ran : rewriteSelection context inScope condition before = .ok ((relayed, changed), after)) :
    Conjunct (.binary (.op .eq) left right) relayed := by
  induction conjunct generalizing relayed changed before after with
  | self =>
    simp only [rewriteSelection, unprotected.1, unprotected.2] at ran
    obtain ⟨_, _, _, done⟩ := bind_run_iff.mp ran
    cases (pure_run_iff.mp done).1
    exact .self
  | left _ ih =>
    obtain ⟨_, _, _, _, _, rfl, _, here, _⟩ := both_run ran
    exact .left (ih here)
  | right _ ih =>
    obtain ⟨_, _, _, _, _, rfl, _, _, there⟩ := both_run ran
    exact .right (ih there)
  | nested _ ih =>
    obtain ⟨_, rfl, here⟩ := wrap_run ran
    exact .nested (ih here)

def Swept (rewriteQuery : Query → Pass (Query × Bool)) (expr : Expr Query) : Prop :=
  ∀ before relayed changed after,
    rewriteNestedQueries rewriteQuery expr before = .ok ((relayed, changed), after) → relayed = expr

theorem swept_of_namesRowKey {wanted : String} {target : ScopedTable} {joined : Bool}
    (named : namesRowKey wanted target joined expr = true) :
    Swept rewriteQuery expr := by
  intro before relayed changed after ran
  cases expr with
  | identifier ident =>
    simp only [rewriteNestedQueries] at ran
    obtain ⟨same, _⟩ := pure_run_iff.mp ran
    exact (Prod.mk.inj same).1.symm
  | compoundIdentifier idents => exact sweep_settled (.compoundIdentifier idents) ran
  | _ => cases named

theorem sweep_conjunct (sweptLeft : Swept rewriteQuery left) (sweptRight : Swept rewriteQuery right)
    (conjunct : Conjunct (.binary (.op .eq) left right) condition)
    (ran : rewriteNestedQueries rewriteQuery condition before = .ok ((relayed, changed), after)) :
    Conjunct (.binary (.op .eq) left right) relayed := by
  induction conjunct generalizing relayed changed before after with
  | self =>
    obtain ⟨_, _, _, _, _, rfl, _, here, there⟩ := both_run ran
    rw [sweptLeft _ _ _ _ here, sweptRight _ _ _ _ there]
    exact .self
  | left _ ih =>
    obtain ⟨_, _, _, _, _, rfl, _, here, _⟩ := both_run ran
    exact .left (ih here)
  | right _ ih =>
    obtain ⟨_, _, _, _, _, rfl, _, _, there⟩ := both_run ran
    exact .right (ih there)
  | nested _ ih =>
    obtain ⟨_, rfl, here⟩ := wrap_run ran
    exact .nested (ih here)

end Condition

section Update
variable {Query Statement : Type} {context : Context} {walks : Walks Query Statement}
  {columns : Columns} {spec : ResolvedRowKey} {name : ObjectName}
  {args : Option (List (Expr Query))} {named : Option TableAlias}

theorem scopedTable_of_table (found : context.table name = .ok (some columns)) :
    ∃ read, context.scopedTable name = .ok (some (columns, read)) := by
  unfold Context.table Context.lookUp at found
  split at found
  · rename_i trusted
    obtain ⟨key, resolved, held⟩ := Option.bind_eq_some_iff.mp (Except.ok.inj found)
    obtain ⟨read, readable⟩ := Option.isSome_iff_exists.mp
      (context.catalog.read_of_table key (by rw [held]; rfl))
    refine ⟨read, ?_⟩
    simp [Context.scopedTable, Context.lookUp, trusted, WriteCatalog.scoped, resolved,
      readable, held]
  · obtain ⟨_, _, absent⟩ := Outcome.bind_ok_iff.mp found
    cases absent

variable {inScope : TableScope}

theorem scope_of_update
    {derivedScope : Query → Option TableAlias → Except Rejection (Option ScopedTable)}
    (found : context.table name = .ok (some columns))
    (inside : scope context derivedScope [.mk (.table name args named) []] = .ok inScope) :
    ∃ read, inScope = [⟨aliasName named, name.map normalize, columns, read⟩] := by
  obtain ⟨read, looked⟩ := scopedTable_of_table found
  have shown : scope context derivedScope [.mk (.table name args named) []] =
      .ok [⟨aliasName named, name.map normalize, columns, read⟩] := by
    simp only [scope, scopeOf, scopeOfFactor, scopeOfJoins, looked]
    rfl
  exact ⟨read, Except.ok.inj (inside.symm.trans shown)⟩

variable {target held : ScopedTable} {joined : Bool}

theorem columnRef_of_namesRowKey (plainKey : columns.get spec.name = none) {expr : Expr Query}
    (sameColumns : held.columns = columns)
    (named : namesRowKey spec.name target joined expr = true) :
    columnRef [held] expr = none := by
  have missed : ∀ idents : List Ident, ∀ column ∈ idents.getLast?, normalize column = spec.name →
      resolve [held] idents = .unknown := by
    intro idents column last spelled
    have none : ∀ table ∈ [held].filter (·.matches idents.dropLast),
        table.columns.get (normalize column) = none := by
      intro table listed
      obtain rfl := List.mem_singleton.mp (List.mem_filter.mp listed).1
      rw [sameColumns, spelled, plainKey]
    simp only [resolve, Option.mem_def.mp last, List.filterMap_eq_nil_iff.mpr none]
  cases expr with
  | identifier ident =>
    simp only [namesRowKey, Bool.and_eq_true, beq_iff_eq] at named
    simp only [columnRef, resolveColumn, columnIdents, missed [ident] ident rfl named.2,
      ColumnResolution.transform?]
  | compoundIdentifier idents =>
    simp only [namesRowKey] at named
    split at named
    · rename_i column last
      simp only [Bool.and_eq_true, beq_iff_eq] at named
      simp only [columnRef, resolveColumn, columnIdents, missed idents column last named.1,
        ColumnResolution.transform?]
    · cases named
  | _ => cases named

variable {relayed : TableWithJoins Query} {changed : Bool} {before after : ParamTransforms}

theorem joinConditionsOf_table
    (ran : joinConditionsOf context inScope (.mk (.table name args named) []) before =
      .ok ((relayed, changed), after)) : relayed = .mk (.table name args named) [] := by
  obtain ⟨_, _, _, _, _, rfl, _, first, second⟩ := both_run ran
  cases (pure_run_iff.mp first).1
  cases (pure_run_iff.mp second).1
  rfl

variable {rewriteQuery : Query → Pass (Query × Bool)}

theorem derivedTablesOf_table
    (ran : derivedTablesOf rewriteQuery (.mk (.table name args named) []) before =
      .ok ((relayed, changed), after)) : relayed = .mk (.table name args named) [] := by
  obtain ⟨_, _, _, _, _, rfl, _, first, second⟩ := both_run ran
  cases (pure_run_iff.mp first).1
  cases (pure_run_iff.mp second).1
  rfl

theorem rewritePredicate_pins (sameColumns : held.columns = columns)
    (plainKey : columns.get spec.name = none) {condition relayed : Expr Query}
    (ran : rewritePredicate rewriteQuery context [held] condition before =
      .ok ((relayed, changed), after)) {source : RowKeySource}
    {column operand part : Expr Query}
    (pins : PinsKey spec target joined source column operand part)
    (conjunct : Conjunct part condition) :
    Conjunct part relayed := by
  obtain ⟨⟨middle, _⟩, _, selecting, ran⟩ := bind_run_iff.mp ran
  obtain ⟨⟨_, _⟩, _, sweeping, done⟩ := bind_run_iff.mp ran
  cases (pure_run_iff.mp done).1
  cases pins with
  | left names sourced =>
    have column := columnRef_of_namesRowKey plainKey sameColumns names
    exact sweep_conjunct (swept_of_namesRowKey names)
      (fun _ _ _ _ ran => sweep_settled (settled_of_rowKeySource sourced) ran)
      (rewriteSelection_conjunct ⟨column, columnRef_of_rowKeySource sourced⟩ conjunct selecting)
      sweeping
  | right names sourced =>
    have column := columnRef_of_namesRowKey plainKey sameColumns names
    exact sweep_conjunct
      (fun _ _ _ _ ran => sweep_settled (settled_of_rowKeySource sourced) ran)
      (swept_of_namesRowKey names)
      (rewriteSelection_conjunct ⟨columnRef_of_rowKeySource sourced, column⟩ conjunct selecting)
      sweeping

/-- The relayed UPDATE is of the same single table and keeps every equality that pins its
row. -/
structure KeepsPins (spec : ResolvedRowKey) (update sent : Update Query) : Prop where
  table : sent.table = update.table
  single : sent.fromTable = none
  pinned : ∀ condition ∈ update.selection, ∃ relayed, sent.selection = some relayed ∧
    ∀ target joined source column operand part,
      PinsKey spec target joined source column operand part →
      Conjunct part condition → Conjunct part relayed

theorem rewriteUpdate_pins {update relayed : Update Query}
    (table : update.table = .mk (.table name args named) []) (single : update.fromTable = none)
    (found : context.table name = .ok (some columns)) (plainKey : columns.get spec.name = none)
    (ran : rewriteUpdate context walks update before = .ok ((relayed, changed), after)) :
    KeepsPins spec update (if changed then relayed else update) := by
  cases changed with
  | false =>
    exact ⟨rfl, single,
      fun condition selected => ⟨condition, selected, fun _ _ _ _ _ _ _ kept => kept⟩⟩
  | true =>
    obtain ⟨⟨assignments, assigned⟩, first, sealedOnes, ran⟩ := bind_run_iff.mp ran
    obtain ⟨inScope, second, inLift, ran⟩ := bind_run_iff.mp ran
    obtain ⟨⟨table₁, flag₁⟩, third, joined, ran⟩ := bind_run_iff.mp ran
    obtain ⟨⟨from₁, flag₂⟩, fourth, joined', ran⟩ := bind_run_iff.mp ran
    obtain ⟨⟨selection, flag₃⟩, fifth, filtered, ran⟩ := bind_run_iff.mp ran
    obtain ⟨⟨swept, flag₄⟩, sixth, sweeping, ran⟩ := bind_run_iff.mp ran
    obtain ⟨⟨table₂, flag₅⟩, seventh, derived, ran⟩ := bind_run_iff.mp ran
    obtain ⟨⟨from₂, flag₆⟩, eighth, derived', ran⟩ := bind_run_iff.mp ran
    obtain ⟨rfl, _, rfl⟩ := pure_pair ran
    rw [table] at joined
    obtain rfl := joinConditionsOf_table joined
    obtain rfl := derivedTablesOf_table derived
    rw [single] at joined'
    cases (pure_run_iff.mp joined').1
    cases (pure_run_iff.mp derived').1
    refine ⟨table.symm, rfl, fun condition selected => ?_⟩
    rw [table, single] at inLift
    obtain ⟨inside, rfl⟩ := monadLift_run_iff.mp inLift
    obtain ⟨read, rfl⟩ := scope_of_update found inside
    rcases rewriteOption_ok filtered with ⟨absent, _⟩ | ⟨held, sent, present, rfl, here⟩
    · cases absent.symm.trans selected
    · cases present.symm.trans selected
      exact ⟨sent, rfl, fun _ _ _ _ _ _ pins conjunct =>
        rewritePredicate_pins rfl plainKey here pins conjunct⟩

end Update

end Dbsec.PinnedWrites
