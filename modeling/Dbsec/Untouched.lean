import Dbsec.Batch
import Dbsec.Lookups

/-! Statements that name no protected table: every name the walk looks up is not found, so
every scope is empty, no comparison is taken for one over a protected column and
the statement is left as it was. -/
namespace Dbsec.Untouched
open Framing Sql Params Unprotected Catalog Scope Accumulate Rewrite Predicate Seal QueryWalk
  Statements References Lookups Settings Lexer Batch

def Steady {Value : Type} (pass : Pass Value) (value : Value) : Prop :=
  ∀ params, pass params = .ok (value, params)

section Steady
variable {Value Result : Type}

theorem steady_pure (value : Value) : Steady (pure value) value := fun _ => rfl

variable {value : Value}

theorem steady_lift {step : Except Rejection Value} (done : step = .ok value) :
    Steady (monadLift step) value := by
  subst done
  exact fun _ => rfl

theorem Steady.bind {first : Pass Value} {next : Value → Pass Result} {result : Result}
    (before : Steady first value) (after : Steady (next value) result) :
    Steady (first >>= next) result := by
  intro params
  rw [← after params]
  simp only [Bind.bind, StateT.bind, before params, Except.bind]

variable {pass : Value → Pass (Value × Bool)}

theorem steady_rewriteEach (values : List Value)
    (each : ∀ value ∈ values, Steady (pass value) (value, false)) :
    Steady (rewriteEach pass values) (values, false) := by
  induction values with
  | nil => exact steady_pure _
  | cons value rest ih =>
    apply Steady.bind (each value (List.mem_cons_self ..))
    exact (ih fun other listed => each other (List.mem_cons_of_mem _ listed)).bind (steady_pure _)

theorem steady_rewriteOption (value : Option Value)
    (each : ∀ held ∈ value, Steady (pass held) (held, false)) :
    Steady (rewriteOption pass value) (value, false) := by
  cases value with
  | none => exact steady_pure _
  | some held => exact (each held rfl).bind (steady_pure _)

end Steady

section EmptyScope
variable {Query : Type} {context : Context}

theorem resolveColumn_empty (expr : Expr Query) : resolveColumn [] expr = .unknown := by
  unfold resolveColumn resolve
  split
  · split <;> rfl
  · rfl

theorem columnRef_empty (expr : Expr Query) : columnRef [] expr = none := by
  rw [columnRef, resolveColumn_empty]
  rfl

theorem resolvesRead_empty (idents : List Ident) : resolvesRead [] idents = false := by
  unfold resolvesRead
  split <;> rfl

mutual
theorem ambiguousColumn_empty : ∀ expr : Expr Query, ambiguousColumn [] expr = none := by
  intro expr
  unfold ambiguousColumn
  split
  · exact ambiguousAny_empty _
  · rw [resolveColumn_empty]

theorem ambiguousAny_empty : ∀ list : List (Expr Query), ambiguousAny [] list = none
  | [] => rfl
  | expr :: rest => by
      rw [ambiguousAny, ambiguousColumn_empty expr, ambiguousAny_empty rest]
      rfl
end

mutual
theorem protectedColumn_empty : ∀ expr : Expr Query, protectedColumn [] expr = none := by
  intro expr
  unfold protectedColumn
  split
  · exact protectedAny_empty _
  · rw [columnRef_empty]
    rfl

theorem protectedAny_empty : ∀ list : List (Expr Query), protectedAny [] list = none
  | [] => rfl
  | expr :: rest => by
      rw [protectedAny, protectedColumn_empty expr, protectedAny_empty rest]
      rfl
end

mutual
theorem readProtectedReference_empty :
    ∀ expr : Expr Query, readProtectedReference [] expr = none
  | .identifier ident => by simp [readProtectedReference, resolvesRead_empty]
  | .compoundIdentifier idents => by simp [readProtectedReference, resolvesRead_empty]
  | .unary _ inner => readProtectedReference_empty inner
  | .binary _ left right => by
      simp [readProtectedReference, readProtectedReference_empty left,
        readProtectedReference_empty right]
  | .inList operand list _ => by
      simp [readProtectedReference, readProtectedReference_empty operand,
        readProtectedAny_empty list]
  | .between operand low high _ => by
      simp [readProtectedReference, readProtectedReference_empty operand,
        readProtectedReference_empty low, readProtectedReference_empty high]
  | .pattern _ operand pattern _ => by
      simp [readProtectedReference, readProtectedReference_empty operand,
        readProtectedReference_empty pattern]
  | .tuple items => readProtectedAny_empty items
  | .case operand conditions results elseResult => by
      simp [readProtectedReference, readProtectedOption_empty operand,
        readProtectedOption_empty elseResult, readProtectedAny_empty conditions,
        readProtectedAny_empty results]
  | .function _ args _ => readProtectedAny_empty args
  | .value _ => rfl
  | .typedString _ _ => rfl
  | .inSubquery _ _ _ => rfl
  | .array _ => rfl
  | .functionQuery _ _ => rfl
  | .exists _ _ => rfl
  | .subquery _ => rfl
  | .substring _ _ _ => rfl
  | .wildcard => rfl
  | .unwalked _ _ => rfl

theorem readProtectedAny_empty : ∀ list : List (Expr Query), readProtectedAny [] list = none
  | [] => rfl
  | expr :: rest => by
      rw [readProtectedAny, readProtectedReference_empty expr, readProtectedAny_empty rest]
      rfl

theorem readProtectedOption_empty :
    ∀ expr : Option (Expr Query), readProtectedOption [] expr = none
  | none => rfl
  | some expr => readProtectedReference_empty expr
end

theorem unsupported_empty (expr : Expr Query) :
    Steady (unsupported context [] expr) (expr, false) := by
  have silent : unsupportedPredicate context [] expr = .ok () := by
    unfold unsupportedPredicate ambiguousOperand protectedOperand
    rw [ambiguousAny_empty, protectedAny_empty]
  exact (steady_lift silent).bind (steady_pure _)

theorem rewriteInList_empty (column : Expr Query) (list : List (Expr Query)) :
    Steady (rewriteInList context [] column list) ((column, list), false) := by
  have silent : reportInList context [] column = .ok () := by
    unfold reportInList
    rw [ambiguousColumn_empty, protectedColumn_empty]
  unfold rewriteInList
  rw [columnRef_empty]
  exact (steady_lift silent).bind (steady_pure _)

theorem rewriteSelection_empty (expr : Expr Query) :
    Steady (rewriteSelection context [] expr) (expr, false) := by
  fun_induction rewriteSelection context [] expr with
  | case1 left right transform found => rw [columnRef_empty] at found; cases found
  | case2 left right _ transform found => rw [columnRef_empty] at found; cases found
  | case3 => exact unsupported_empty _
  | case4 left right leftIH rightIH => exact leftIH.bind (rightIH.bind (steady_pure _))
  | case5 left right leftIH rightIH => exact leftIH.bind (rightIH.bind (steady_pure _))
  | case6 inner ih => exact ih.bind (steady_pure _)
  | case7 inner ih => exact ih.bind (steady_pure _)
  | case8 => exact (rewriteInList_empty _ _).bind (steady_pure _)
  | case9 => exact (rewriteInList_empty _ _).bind (steady_pure _)
  | case10 left right _ index transform found =>
    simp [arrayParameter, columnRef_empty] at found
  | case11 => exact unsupported_empty _
  | case12 => exact unsupported_empty _

theorem reportComputed_empty (items : List (SelectItem Query)) :
    reportComputed context [] items = .ok () := by
  have silent : ∀ item : SelectItem Query, computedProtectedColumn [] item = none := by
    intro item
    unfold computedProtectedColumn
    split <;> simp [readProtectedReference_empty]
  unfold reportComputed
  induction items with
  | nil => rfl
  | cons item rest ih =>
    rw [List.forM, silent item]
    exact ih

end EmptyScope

section Sweep
variable {Query : Type} {rewriteQuery : Query → Pass (Query × Bool)}

abbrev Left (rewriteQuery : Query → Pass (Query × Bool)) (query : Query) : Prop :=
  Steady (rewriteQuery query) (query, false)

mutual
theorem rewriteNestedQueries_left :
    ∀ expr : Expr Query, (∀ query ∈ walkedQueries expr, Left rewriteQuery query) →
      Steady (rewriteNestedQueries rewriteQuery expr) (expr, false)
  | .subquery query, each => (each query (by simp [walkedQueries])).bind (steady_pure _)
  | .exists query _, each => (each query (by simp [walkedQueries])).bind (steady_pure _)
  | .inSubquery operand query _, each =>
    have here := each query (by simp [walkedQueries])
    have inside := rewriteNestedQueries_left operand fun other listed =>
      each other (by simp [walkedQueries, listed])
    here.bind (inside.bind (steady_pure _))
  | .binary _ left right, each =>
    have first := rewriteNestedQueries_left left fun other listed =>
      each other (by simp [walkedQueries, listed])
    have second := rewriteNestedQueries_left right fun other listed =>
      each other (by simp [walkedQueries, listed])
    first.bind (second.bind (steady_pure _))
  | .unary _ inner, each => (rewriteNestedQueries_left inner each).bind (steady_pure _)
  | .inList operand list _, each =>
    have first := rewriteNestedQueries_left operand fun other listed =>
      each other (by simp [walkedQueries, listed])
    have second := rewriteNestedEach_left list fun other listed =>
      each other (by simp [walkedQueries, listed])
    first.bind (second.bind (steady_pure _))
  | .between operand low high _, each =>
    have first := rewriteNestedQueries_left operand fun other listed =>
      each other (by simp [walkedQueries, listed])
    have second := rewriteNestedQueries_left low fun other listed =>
      each other (by simp [walkedQueries, listed])
    have third := rewriteNestedQueries_left high fun other listed =>
      each other (by simp [walkedQueries, listed])
    first.bind (second.bind (third.bind (steady_pure _)))
  | .pattern _ operand pattern _, each =>
    have first := rewriteNestedQueries_left operand fun other listed =>
      each other (by simp [walkedQueries, listed])
    have second := rewriteNestedQueries_left pattern fun other listed =>
      each other (by simp [walkedQueries, listed])
    first.bind (second.bind (steady_pure _))
  | .tuple items, each => (rewriteNestedEach_left items each).bind (steady_pure _)
  | .case operand conditions results elseResult, each =>
    have first := rewriteNestedOption_left operand fun other listed =>
      each other (by simp [walkedQueries, listed])
    have second := rewriteNestedOption_left elseResult fun other listed =>
      each other (by simp [walkedQueries, listed])
    have third := rewriteNestedEach_left conditions fun other listed =>
      each other (by simp [walkedQueries, listed])
    have fourth := rewriteNestedEach_left results fun other listed =>
      each other (by simp [walkedQueries, listed])
    first.bind (second.bind (third.bind (fourth.bind (steady_pure _))))
  | .function _ args _, each =>
    have inside := rewriteNestedEach_left args fun other listed =>
      each other (by simp [walkedQueries, listed])
    inside.bind (steady_pure _)
  | .identifier _, _ => steady_pure _
  | .compoundIdentifier _, _ => steady_pure _
  | .value _, _ => steady_pure _
  | .typedString _ _, _ => steady_pure _
  | .array _, _ => steady_pure _
  | .functionQuery _ _, _ => steady_pure _
  | .substring _ _ _, _ => steady_pure _
  | .wildcard, _ => steady_pure _
  | .unwalked _ _, _ => steady_pure _

theorem rewriteNestedEach_left :
    ∀ list : List (Expr Query), (∀ query ∈ walkedEach list, Left rewriteQuery query) →
      Steady (rewriteNestedEach rewriteQuery list) (list, false)
  | [], _ => steady_pure _
  | expr :: rest, each =>
    have first := rewriteNestedQueries_left expr fun other listed =>
      each other (by simp [walkedEach, listed])
    have second := rewriteNestedEach_left rest fun other listed =>
      each other (by simp [walkedEach, listed])
    first.bind (second.bind (steady_pure _))

theorem rewriteNestedOption_left :
    ∀ expr : Option (Expr Query), (∀ query ∈ walkedOption expr, Left rewriteQuery query) →
      Steady (rewriteNestedOption rewriteQuery expr) (expr, false)
  | none, _ => steady_pure _
  | some expr, each => (rewriteNestedQueries_left expr each).bind (steady_pure _)
end

theorem rewritePredicate_left {context : Context} (expr : Expr Query)
    (each : ∀ query ∈ walkedQueries expr, Left rewriteQuery query) :
    Steady (rewritePredicate rewriteQuery context [] expr) (expr, false) :=
  (rewriteSelection_empty expr).bind ((rewriteNestedQueries_left expr each).bind (steady_pure _))

end Sweep

/-- No name that is looked up is one of a read-protected table. -/
def Unmatched (context : Context) (names : List ObjectName) : Prop :=
  ∀ name ∈ names, context.catalog.protectsReads name = false

section Unmatched
variable {Query : Type} {context : Context}

theorem unmatched_append {first second : List ObjectName} :
    Unmatched context (first ++ second) ↔ Unmatched context first ∧ Unmatched context second := by
  simp [Unmatched, or_imp, forall_and]

theorem unmatched_flatMap {Item : Type} {items : List Item} {each : Item → List ObjectName} :
    Unmatched context (items.flatMap each) ↔ ∀ item ∈ items, Unmatched context (each item) := by
  constructor
  · intro all item listed name held
    exact all name (List.mem_flatMap.mpr ⟨item, listed, held⟩)
  · intro all name held
    obtain ⟨item, listed, inside⟩ := List.mem_flatMap.mp held
    exact all item listed name inside

theorem unmatched_inWalked {ofQuery : Query → List ObjectName} {exprs : List (Expr Query)} :
    Unmatched context (inWalked ofQuery exprs) ↔
      ∀ expr ∈ exprs, ∀ query ∈ walkedQueries expr, Unmatched context (ofQuery query) := by
  rw [inWalked, unmatched_flatMap]
  constructor
  · intro all expr listed query held
    exact all query (List.mem_flatMap.mpr ⟨expr, listed, held⟩)
  · intro all query held
    obtain ⟨expr, listed, inside⟩ := List.mem_flatMap.mp held
    exact all expr listed query inside

variable {name : ObjectName} (unmatched : context.catalog.protectsReads name = false)
include unmatched

theorem readColumns_unmatched {key : String × String} (resolved : resolvedName name = some key) :
    context.catalog.readColumns.get key = none := by
  simpa [WriteCatalog.protectsReads, resolved] using unmatched

variable (trusted : context.searchPathTrusted = true)
include trusted

theorem readsProtected_unmatched : context.readsProtected name = .ok false := by
  simp [Context.readsProtected, Context.lookUp, trusted, unmatched]

theorem scopedTable_unmatched : context.scopedTable name = .ok none := by
  have missed : context.catalog.scoped name = none := by
    unfold WriteCatalog.scoped
    cases resolved : resolvedName name with
    | none => rfl
    | some key => simp [readColumns_unmatched unmatched resolved]
  simp [Context.scopedTable, Context.lookUp, trusted, missed]

theorem table_unmatched : context.table name = .ok none := by
  have missed : context.catalog.table name = none := by
    unfold WriteCatalog.table
    cases resolved : resolvedName name with
    | none => rfl
    | some key =>
      rw [Option.bind_some, ← Option.not_isSome_iff_eq_none]
      intro held
      have read := context.catalog.read_of_table key held
      rw [readColumns_unmatched unmatched resolved] at read
      cases read
  simp [Context.table, Context.lookUp, trusted, missed]

end Unmatched

section From
variable {Query : Type} {context : Context} {ofQuery : Query → List ObjectName}

section Scopes
variable {derivedScope : Query → Option TableAlias → Except Rejection (Option ScopedTable)}

mutual
theorem scopeOfFactor_unmatched (trusted : context.searchPathTrusted = true)
    (derived : ∀ query named, Unmatched context (ofQuery query) →
      derivedScope query named = .ok none) :
    ∀ factor : TableFactor Query, Unmatched context (factorLookups ofQuery factor) →
      scopeOfFactor context derivedScope factor = .ok []
  | .table name args named, unmatched => by
      rw [scopeOfFactor, scopedTable_unmatched (unmatched name (List.mem_singleton_self _)) trusted]
      rfl
  | .derived _ subquery named, unmatched => by
      rw [scopeOfFactor, derived subquery named unmatched]
      rfl
  | .nestedJoin inner _, unmatched => scopeOf_unmatched trusted derived inner unmatched
  | .reshaped _, _ => rfl
  | .computed _ _, _ => rfl

theorem scopeOfJoins_unmatched (trusted : context.searchPathTrusted = true)
    (derived : ∀ query named, Unmatched context (ofQuery query) →
      derivedScope query named = .ok none) :
    ∀ joins : List (Join Query), Unmatched context (joinsLookups ofQuery joins) →
      scopeOfJoins context derivedScope joins = .ok []
  | [], _ => rfl
  | .mk relation operator :: rest, unmatched => by
      obtain ⟨here, tail⟩ := unmatched_append.mp unmatched
      rw [scopeOfJoins, scopeOfFactor_unmatched trusted derived relation here,
        scopeOfJoins_unmatched trusted derived rest tail]
      rfl

theorem scopeOf_unmatched (trusted : context.searchPathTrusted = true)
    (derived : ∀ query named, Unmatched context (ofQuery query) →
      derivedScope query named = .ok none) :
    ∀ table : TableWithJoins Query, Unmatched context (tableLookups ofQuery table) →
      scopeOf context derivedScope table = .ok []
  | .mk relation joins, unmatched => by
      obtain ⟨here, tail⟩ := unmatched_append.mp unmatched
      rw [scopeOf, scopeOfFactor_unmatched trusted derived relation here,
        scopeOfJoins_unmatched trusted derived joins tail]
      rfl
end

theorem scope_empty {tables : List (TableWithJoins Query)}
    (each : ∀ table ∈ tables, scopeOf context derivedScope table = .ok []) :
    scope context derivedScope tables = .ok [] := by
  induction tables with
  | nil => rfl
  | cons table rest ih =>
    rw [scope, each table (List.mem_cons_self ..),
      ih fun other listed => each other (List.mem_cons_of_mem _ listed)]
    rfl

end Scopes

theorem rewriteJoinOperator_left {rewrite : Expr Query → Pass (Expr Query × Bool)}
    (operator : JoinOperator Query)
    (each : ∀ expr ∈ joinExprs operator, Steady (rewrite expr) (expr, false)) :
    Steady (rewriteJoinOperator rewrite operator) (operator, false) := by
  unfold rewriteJoinOperator
  split
  · exact (each _ (List.mem_singleton_self _)).bind (steady_pure _)
  · exact steady_pure _

mutual
theorem joinConditionsOfFactor_empty : ∀ factor : TableFactor Query,
    Steady (joinConditionsOfFactor context [] factor) (factor, false)
  | .nestedJoin inner _ => (joinConditionsOf_empty inner).bind (steady_pure _)
  | .table _ _ _ => steady_pure _
  | .derived _ _ _ => steady_pure _
  | .reshaped _ => steady_pure _
  | .computed _ _ => steady_pure _

theorem joinConditionsOfJoins_empty : ∀ joins : List (Join Query),
    Steady (joinConditionsOfJoins context [] joins) (joins, false)
  | [] => steady_pure _
  | .mk relation operator :: rest =>
    (joinConditionsOfFactor_empty relation).bind
      ((rewriteJoinOperator_left operator fun expr _ => rewriteSelection_empty expr).bind
        ((joinConditionsOfJoins_empty rest).bind (steady_pure _)))

theorem joinConditionsOf_empty : ∀ table : TableWithJoins Query,
    Steady (joinConditionsOf context [] table) (table, false)
  | .mk relation joins =>
    (joinConditionsOfFactor_empty relation).bind
      ((joinConditionsOfJoins_empty joins).bind (steady_pure _))
end

variable {rewriteQuery : Query → Pass (Query × Bool)}

mutual
theorem derivedTablesOfFactor_left
    (queries : ∀ query, Unmatched context (ofQuery query) → Left rewriteQuery query) :
    ∀ factor : TableFactor Query, Unmatched context (factorLookups ofQuery factor) →
      Steady (derivedTablesOfFactor rewriteQuery factor) (factor, false)
  | .derived _ subquery _, unmatched => (queries subquery unmatched).bind (steady_pure _)
  | .nestedJoin inner _, unmatched =>
    (derivedTablesOf_left queries inner unmatched).bind (steady_pure _)
  | .table _ _ _, _ => steady_pure _
  | .reshaped _, _ => steady_pure _
  | .computed _ _, _ => steady_pure _

theorem derivedTablesOfJoins_left
    (queries : ∀ query, Unmatched context (ofQuery query) → Left rewriteQuery query) :
    ∀ joins : List (Join Query), Unmatched context (joinsLookups ofQuery joins) →
      Steady (derivedTablesOfJoins rewriteQuery joins) (joins, false)
  | [], _ => steady_pure _
  | .mk relation _ :: rest, unmatched =>
    have parts := unmatched_append.mp unmatched
    (derivedTablesOfFactor_left queries relation parts.1).bind
      ((derivedTablesOfJoins_left queries rest parts.2).bind (steady_pure _))

theorem derivedTablesOf_left
    (queries : ∀ query, Unmatched context (ofQuery query) → Left rewriteQuery query) :
    ∀ table : TableWithJoins Query, Unmatched context (tableLookups ofQuery table) →
      Steady (derivedTablesOf rewriteQuery table) (table, false)
  | .mk relation joins, unmatched =>
    have parts := unmatched_append.mp unmatched
    (derivedTablesOfFactor_left queries relation parts.1).bind
      ((derivedTablesOfJoins_left queries joins parts.2).bind (steady_pure _))
end

theorem sweepTable_left {table : TableWithJoins Query}
    (queries : ∀ query, Unmatched context (ofQuery query) → Left rewriteQuery query)
    (unmatched : Unmatched context (inWalked ofQuery (table.joins.flatMap sweptConditions))) :
    Steady (sweepTable rewriteQuery table) (table, false) := by
  obtain ⟨relation, joins⟩ := table
  have each : ∀ join ∈ joins, Steady (sweepJoin rewriteQuery join) (join, false) := by
    rintro ⟨joined, operator⟩ listed
    have swept := rewriteJoinOperator_left operator fun expr held =>
      rewriteNestedQueries_left expr fun query inside => queries query
        (unmatched_inWalked.mp unmatched expr
          (List.mem_flatMap.mpr ⟨.mk joined operator, listed, held⟩) query inside)
    exact swept.bind (steady_pure _)
  exact (steady_rewriteEach joins each).bind (steady_pure _)

end From

/-- What the walks of one level do with queries and statements whose lookups are all
unmatched. -/
structure Leaves {Query Statement : Type} (context : Context) (walks : Walks Query Statement)
    (below : Below Query Statement) : Prop where
  query : ∀ query, Unmatched context (below.ofQuery query) → Left walks.rewriteQuery query
  statement : ∀ statement, Unmatched context (below.ofStatement statement) →
    Steady (walks.rewriteStatement statement) (statement, false)
  derived : ∀ query named, Unmatched context (below.ofQuery query) →
    walks.derivedScope query named = .ok none
  target : ∀ statement, walks.writeTarget statement = below.target statement

section Nodes
variable {Query Statement : Type} {context : Context} {walks : Walks Query Statement}
  {below : Below Query Statement}

theorem swept (leaves : Leaves context walks below) {exprs : List (Expr Query)}
    (unmatched : Unmatched context (inWalked below.ofQuery exprs)) {expr : Expr Query}
    (listed : expr ∈ exprs) : ∀ query ∈ walkedQueries expr, Left walks.rewriteQuery query := by
  intro query inside
  exact leaves.query query (unmatched_inWalked.mp unmatched expr listed query inside)

theorem sweepItem_left (leaves : Leaves context walks below) {item : SelectItem Query}
    (unmatched : Unmatched context (inWalked below.ofQuery (itemExprs item))) :
    Steady (sweepItem walks.rewriteQuery item) (item, false) := by
  cases item with
  | unnamed expr =>
    exact (rewriteNestedQueries_left expr
      (swept leaves unmatched (List.mem_singleton_self _))).bind (steady_pure _)
  | aliased expr name =>
    exact (rewriteNestedQueries_left expr
      (swept leaves unmatched (List.mem_singleton_self _))).bind (steady_pure _)
  | qualifiedWildcard name => exact steady_pure _
  | wildcard => exact steady_pure _

theorem unmatched_inWalked_subset {some all : List (Expr Query)} (within : some ⊆ all)
    (unmatched : Unmatched context (inWalked below.ofQuery all)) :
    Unmatched context (inWalked below.ofQuery some) := by
  rw [unmatched_inWalked] at unmatched ⊢
  exact fun expr listed => unmatched expr (within listed)

theorem rewriteSelect_left (trusted : context.searchPathTrusted = true)
    (leaves : Leaves context walks below) (select : Select Query)
    (unmatched : Unmatched context (setExprLookups below (.select select))) :
    Steady (rewriteSelect context walks select) (select, false) := by
  obtain ⟨inFrom, inside⟩ := unmatched_append.mp unmatched
  rw [unmatched_flatMap] at inFrom
  -- No table of FROM is protected, so every pass runs on an empty scope.
  have empty : scope context walks.derivedScope select.fromTables = .ok [] :=
    scope_empty fun table listed =>
      scopeOf_unmatched trusted leaves.derived table (inFrom table listed)
  have joins : Steady (rewriteJoinConditions context [] select.fromTables)
      (select.fromTables, false) :=
    steady_rewriteEach _ fun table _ => joinConditionsOf_empty table
  have derived : Steady (rewriteDerivedTables walks.rewriteQuery select.fromTables)
      (select.fromTables, false) :=
    steady_rewriteEach _ fun table listed =>
      derivedTablesOf_left leaves.query table (inFrom table listed)
  have selection : Steady (rewriteOption (rewritePredicate walks.rewriteQuery context [])
      select.selection) (select.selection, false) :=
    steady_rewriteOption _ fun expr held =>
      rewritePredicate_left expr
        (swept leaves inside (by simp [selectWalked, Option.mem_def.mp held]))
  have having : Steady (rewriteOption (rewritePredicate walks.rewriteQuery context [])
      select.having) (select.having, false) :=
    steady_rewriteOption _ fun expr held =>
      rewritePredicate_left expr
        (swept leaves inside (by simp [selectWalked, Option.mem_def.mp held]))
  have projection : Steady (rewriteEach (sweepItem walks.rewriteQuery) select.projection)
      (select.projection, false) := by
    apply steady_rewriteEach
    intro item listed
    have unmatchedItem : Unmatched context (inWalked below.ofQuery (itemExprs item)) := by
      refine unmatched_inWalked_subset (fun expr held => ?_) inside
      simp only [selectWalked, List.mem_append, List.mem_flatMap]
      exact .inl (.inl (.inr ⟨item, listed, held⟩))
    exact sweepItem_left leaves unmatchedItem
  have grouping : Steady (sweepGroupBy walks.rewriteQuery select.groupBy)
      (select.groupBy, false) := by
    cases keys : select.groupBy with
    | all => exact steady_pure _
    | expressions exprs =>
      have each := steady_rewriteEach exprs fun expr listed =>
        rewriteNestedQueries_left expr
          (swept leaves inside (by simp [selectWalked, keys, groupExprs, listed]))
      exact each.bind (steady_pure _)
  have sweeping : Steady (rewriteEach (sweepTable walks.rewriteQuery) select.fromTables)
      (select.fromTables, false) :=
    steady_rewriteEach _ fun table listed => sweepTable_left leaves.query
      (unmatched_inWalked_subset (fun expr held => List.mem_append_right _
        (List.mem_flatMap.mpr ⟨table, listed, held⟩)) inside)
  exact (steady_lift empty).bind (joins.bind (derived.bind (selection.bind (having.bind
    ((steady_lift (reportComputed_empty _)).bind (projection.bind (grouping.bind
      (sweeping.bind (steady_pure _)))))))))

theorem rewriteSetExpr_left (trusted : context.searchPathTrusted = true)
    (leaves : Leaves context walks below) (body : SetExpr Query Statement)
    (unmatched : Unmatched context (setExprLookups below body)) :
    Steady (rewriteSetExpr context walks body) (body, false) := by
  induction body with
  | select select =>
    exact (rewriteSelect_left trusted leaves select unmatched).bind (steady_pure _)
  | query query => exact (leaves.query query unmatched).bind (steady_pure _)
  | setOperation left right leftIH rightIH =>
    obtain ⟨first, second⟩ := unmatched_append.mp unmatched
    exact (leftIH first).bind ((rightIH second).bind (steady_pure _))
  | values rows => exact steady_pure _
  | insert statement =>
    exact (leaves.statement statement unmatched).bind (steady_pure _)
  | update statement =>
    exact (leaves.statement statement unmatched).bind (steady_pure _)
  | table schemaName tableName => exact steady_pure _

theorem rewriteQueryNode_left (trusted : context.searchPathTrusted = true)
    (leaves : Leaves context walks below) (query : QueryNode Query Statement)
    (unmatched : Unmatched context (queryLookups below query)) :
    Steady (rewriteQueryNode context walks query) (query, false) := by
  obtain ⟨listed, ordered⟩ := unmatched_append.mp unmatched
  obtain ⟨inCtes, inBody⟩ := unmatched_append.mp listed
  have entries : Steady (rewriteEach (rewriteCte walks) query.ctes) (query.ctes, false) := by
    apply steady_rewriteEach
    intro cte held
    exact (leaves.query cte.query (unmatched_flatMap.mp inCtes cte held)).bind (steady_pure _)
  have body := rewriteSetExpr_left trusted leaves query.body inBody
  have order : Steady (rewriteEach (rewriteNestedQueries walks.rewriteQuery) query.orderBy)
      (query.orderBy, false) :=
    steady_rewriteEach _ fun expr held => rewriteNestedQueries_left expr
      (swept leaves ordered held)
  exact entries.bind (body.bind (order.bind (steady_pure _)))

theorem carryItem_empty (exposed : Exposed) (item : SelectItem Query) :
    carryItem [] exposed item = exposed := by
  have kept : ∀ name idents, carry [] name idents exposed = exposed := by
    intro name idents
    have missed : transformOf [] idents = none := by
      unfold transformOf resolve
      split <;> rfl
    simp [carry, missed, resolvesRead_empty]
  unfold carryItem
  split
  · split
    · split
      · exact kept _ _
      · rfl
    · rfl
  · split
    · exact kept _ _
    · rfl
  · rfl
  · rfl

theorem derivedScopeNode_left (trusted : context.searchPathTrusted = true)
    (leaves : Leaves context walks below) (query : QueryNode Query Statement)
    (named : Option TableAlias)
    (unmatched : Unmatched context (queryLookups below query)) :
    derivedScopeNode context walks.derivedScope query named = .ok none := by
  obtain ⟨listed, _⟩ := unmatched_append.mp unmatched
  obtain ⟨_, inBody⟩ := unmatched_append.mp listed
  unfold derivedScopeNode
  cases body : query.body with
  | select select =>
    rw [body] at inBody
    have inFrom := unmatched_flatMap.mp (unmatched_append.mp inBody).1
    have empty : scope context walks.derivedScope select.fromTables = .ok [] :=
      scope_empty fun table held =>
        scopeOf_unmatched trusted leaves.derived table (inFrom table held)
    have silent : select.projection.foldl (carryItem []) (Table.empty, []) = (Table.empty, []) := by
      induction select.projection with
      | nil => rfl
      | cons item rest ih => rw [List.foldl_cons, carryItem_empty, ih]
    simp only [empty, bind, Except.bind, silent]
    rfl
  | query query => rfl
  | setOperation left right => rfl
  | values rows => rfl
  | insert statement => rfl
  | update statement => rfl
  | table schemaName tableName => rfl

theorem rewriteInsert_left (trusted : context.searchPathTrusted = true)
    (insert : Sql.Insert Query Statement)
    (unmatched : context.catalog.protectsReads insert.tableName = false) :
    Steady (rewriteInsert context walks insert) (insert, false) :=
  (steady_lift (table_unmatched unmatched trusted)).bind (steady_pure _)

theorem updateColumns_left (trusted : context.searchPathTrusted = true)
    (table : TableWithJoins Query)
    (unmatched : Unmatched context (tableLookups below.ofQuery table)) :
    updateColumns context table = .ok none := by
  obtain ⟨relation, joins⟩ := table
  cases relation with
  | table name args named => exact table_unmatched (unmatched name (List.mem_cons_self ..)) trusted
  | derived lateral subquery named => rfl
  | nestedJoin inner named => rfl
  | reshaped inner => rfl
  | computed args named => rfl

theorem rewriteUpdate_left (trusted : context.searchPathTrusted = true)
    (leaves : Leaves context walks below) (update : Update Query)
    (unmatched : Unmatched context (updateLookups below update)) :
    Steady (rewriteUpdate context walks update) (update, false) := by
  obtain ⟨tables, inside⟩ := unmatched_append.mp unmatched
  have each := unmatched_flatMap.mp tables
  have target := each update.table (List.mem_cons_self ..)
  have sealing : Steady (sealUpdate context update) (update.assignments, false) :=
    (steady_lift (updateColumns_left trusted update.table target)).bind (steady_pure _)
  have empty : scope context walks.derivedScope (update.table :: update.fromTable.toList) =
      .ok [] :=
    scope_empty fun table listed =>
      scopeOf_unmatched trusted leaves.derived table (each table listed)
  have conditions : Steady (rewriteOption (joinConditionsOf context []) update.fromTable)
      (update.fromTable, false) :=
    steady_rewriteOption _ fun table _ => joinConditionsOf_empty table
  have selection : Steady (rewriteOption (rewritePredicate walks.rewriteQuery context [])
      update.selection) (update.selection, false) :=
    steady_rewriteOption _ fun expr held =>
      rewritePredicate_left expr (swept leaves inside (by simp [Option.mem_def.mp held]))
  have assignments : Steady (rewriteEach (sweepAssignment walks) update.assignments)
      (update.assignments, false) := by
    apply steady_rewriteEach
    intro assignment listed
    have alone := rewriteNestedQueries_left assignment.value
      (swept leaves inside (by simp [List.mem_map_of_mem listed]))
    exact alone.bind (steady_pure _)
  have targetTables := derivedTablesOf_left leaves.query update.table target
  have otherTables : Steady (rewriteOption (derivedTablesOf walks.rewriteQuery) update.fromTable)
      (update.fromTable, false) :=
    steady_rewriteOption _ fun table held =>
      derivedTablesOf_left leaves.query table
        (each table (by simp [Option.mem_def.mp held]))
  exact sealing.bind ((steady_lift empty).bind ((joinConditionsOf_empty _).bind
    (conditions.bind (selection.bind (assignments.bind (targetTables.bind
      (otherTables.bind (steady_pure _))))))))

theorem rewriteDelete_left (trusted : context.searchPathTrusted = true)
    (leaves : Leaves context walks below) (delete : Delete Query)
    (unmatched : Unmatched context (deleteLookups below delete)) :
    Steady (rewriteDelete context walks delete) (delete, false) := by
  obtain ⟨tables, inside⟩ := unmatched_append.mp unmatched
  have each := unmatched_flatMap.mp tables
  have empty : scope context walks.derivedScope (delete.fromTables ++ delete.usingTables) =
      .ok [] :=
    scope_empty fun table listed =>
      scopeOf_unmatched trusted leaves.derived table (each table listed)
  have selection : Steady (rewriteOption (rewritePredicate walks.rewriteQuery context [])
      delete.selection) (delete.selection, false) :=
    steady_rewriteOption _ fun expr held =>
      rewritePredicate_left expr (swept leaves inside (by simp [Option.mem_def.mp held]))
  have conditions : ∀ tables : List (TableWithJoins Query),
      Steady (rewriteJoinConditions context [] tables) (tables, false) := fun tables =>
    steady_rewriteEach tables fun table _ => joinConditionsOf_empty table
  have first : Steady (rewriteDerivedTables walks.rewriteQuery delete.fromTables)
      (delete.fromTables, false) :=
    steady_rewriteEach _ fun table listed =>
      derivedTablesOf_left leaves.query table (each table (List.mem_append_left _ listed))
  have second : Steady (rewriteDerivedTables walks.rewriteQuery delete.usingTables)
      (delete.usingTables, false) :=
    steady_rewriteEach _ fun table listed =>
      derivedTablesOf_left leaves.query table (each table (List.mem_append_right _ listed))
  exact (steady_lift empty).bind (selection.bind ((conditions _).bind ((conditions _).bind
    (first.bind (second.bind (steady_pure _))))))

variable {name : ObjectName}

theorem refuseWrite_left (trusted : context.searchPathTrusted = true)
    (unmatched : context.catalog.protectsReads name = false) (shape : String) :
    refuseWrite context name shape = .ok () := by
  unfold refuseWrite
  rw [table_unmatched unmatched trusted]
  rfl

theorem rewriteStatementNode_left (trusted : context.searchPathTrusted = true)
    (leaves : Leaves context walks below) (statement : StatementNode Query Statement)
    {copied : QueryNode Query Statement → List ObjectName}
    (silent : ∀ query, Unmatched context (copied query) →
      reportCopied context walks query = .ok ())
    (unmatched : Unmatched context (statementLookups below copied statement)) :
    Steady (rewriteStatementNode context walks statement) (statement, false) := by
  cases statement with
  | insert insert =>
    exact (rewriteInsert_left trusted insert (unmatched _ (List.mem_singleton_self _))).bind
      (steady_pure _)
  | update update => exact (rewriteUpdate_left trusted leaves update unmatched).bind (steady_pure _)
  | query query => exact (rewriteQueryNode_left trusted leaves query unmatched).bind (steady_pure _)
  | delete delete => exact (rewriteDelete_left trusted leaves delete unmatched).bind (steady_pure _)
  | copyTable name columns outward =>
    have alone := unmatched _ (List.mem_singleton_self _)
    have passed : refuseCopyTable context name outward = .ok () := by
      unfold refuseCopyTable
      cases outward with
      | true => simp [readsProtected_unmatched alone trusted, bind, Except.bind, pure, Except.pure]
      | false =>
        simp [table_unmatched alone trusted, bind, Except.bind, pure, Except.pure,
          Functor.map, Except.map]
    exact (steady_lift passed).bind (steady_pure _)
  | copyQuery query outward =>
    obtain ⟨streamed, written⟩ := unmatched_append.mp unmatched
    have inner : Steady (rewriteCopyQuery context walks query outward) (query, false) := by
      apply (steady_lift (silent query streamed)).bind
      cases outward with
      | true => exact rewriteQueryNode_left trusted leaves query written
      | false => exact steady_pure _
    exact inner.bind (steady_pure _)
  | merge into actions =>
    have passed : refuseMerge context into = .ok () := by
      unfold refuseMerge
      split
      · rename_i name found
        exact refuseWrite_left trusted
          (unmatched name (by simp [statementLookups, found])) _
      · rfl
    exact (steady_lift passed).bind (steady_pure _)
  | prepare name statement =>
    have passed : refusePrepare context walks statement = .ok () := by
      unfold refusePrepare
      split
      · rename_i target found
        rw [leaves.target] at found
        exact refuseWrite_left trusted (unmatched target (by simp [statementLookups, found])) _
      · rfl
    exact (steady_lift passed).bind (steady_pure _)
  | explain analyze statement => exact steady_pure _
  | createTableAs name query => exact steady_pure _
  | unwalked keyword => exact steady_pure _

end Nodes

section Walks
variable {context : Context}

theorem reportCopied_left (trusted : context.searchPathTrusted = true) {depth : Nat}
    (query : Sql.Query (depth + 1))
    (unmatched : Unmatched context
      (CopyReads.streamedNames (queryReferences (References.lookups depth) [] query))) :
    reportCopied context (walks context depth) query = .ok () := by
  have silent : ∀ names : List ObjectName,
      (∀ name ∈ names, context.catalog.protectsReads name = false) →
        CopyReads.record context names [] = .ok [] := by
    intro names each
    induction names with
    | nil => rfl
    | cons name rest ih =>
      have here : recordCopiedTable context name [] = .ok [] := by
        unfold recordCopiedTable
        rw [readsProtected_unmatched (each name (List.mem_cons_self ..)) trusted]
        rfl
      have step : CopyReads.record context (name :: rest) [] =
        recordCopiedTable context name [] >>= CopyReads.record context rest := rfl
      rw [step, here]
      exact ih fun other listed => each other (List.mem_cons_of_mem _ listed)
  have collected :
      copiedTablesNode context (walks context depth).copiedTables query [] = .ok [] := by
    exact (CopyReads.copiedTables_eq context (depth + 1) [] query []).trans (silent _ unmatched)
  unfold reportCopied
  rw [collected]
  rfl

theorem walks_leave (trusted : context.searchPathTrusted = true) (depth : Nat) :
    Leaves context (walks context depth) (Lookups.lookups depth) := by
  induction depth with
  | zero => exact ⟨nofun, nofun, nofun, nofun⟩
  | succ depth ih =>
    exact {
      query := fun query unmatched => rewriteQueryNode_left trusted ih query unmatched
      statement := fun statement unmatched =>
        rewriteStatementNode_left trusted ih statement (reportCopied_left trusted) unmatched
      derived := fun query named unmatched =>
        derivedScopeNode_left trusted ih query named unmatched
      target := fun _ => rfl }

end Walks

def Rewriter.under (rewriter : Rewriter) (policy : OnUnprotected) : Rewriter :=
  { rewriter with
    context := { rewriter.context with
      catalog := { rewriter.context.catalog with onUnprotected := policy } } }

theorem noteSessionState_nil (context : Context) :
    noteSessionState context [] = (context, .ok ()) :=
  rfl

section Text
variable {Statement : Type} [DecidableEq Statement]

theorem rewriteSql_left {frontend : Frontend Statement}
    {rewrite : Context → Statement → Pass (Statement × Bool)} {rewriter : Rewriter}
    {query : Bytes} {sql : SqlText} {tokens : List Token} {statement : Statement}
    (decoded : Text.decode query = some sql) (tokenized : frontend.tokenize sql = .ok tokens)
    (parsed : frontend.parseTokens tokens sql = .ok [statement])
    (moves : (settingsMoved tokens).flatten = []) (started : rewriter.startupMoved = [])
    (left : Steady (rewrite rewriter.context statement) (statement, false)) :
    rewriteSql frontend rewrite rewriter query = (rewriter, .ok (.rewrite none .empty)) := by
  have read : readSql frontend sql = (settingsMoved tokens, .ok [statement]) := by
    simp [readSql, tokenized, parsed]
  have upfront : (rewriter.startupMoved ++
      if aligned (.ok [statement]) (settingsMoved tokens) then []
        else (settingsMoved tokens).flatten) =
      [] := by
    rw [started, moves]
    simp
  have own : perStatement [statement] (settingsMoved tokens) = [(statement, [])] := by
    unfold perStatement
    split
    · rename_i same
      obtain ⟨only, spelled⟩ := List.length_eq_one_iff.mp same.symm
      rw [spelled] at moves ⊢
      simpa using moves
    · rfl
  have rewritten : rewriteParsed frontend rewrite rewriter.context sql (settingsMoved tokens)
      [statement] = (rewriter.context, .ok (.rewrite none .empty)) := by
    unfold rewriteParsed
    rw [own]
    simp only [rewriteStatements, noteSessionState_nil, left ParamTransforms.empty]
    rfl
  unfold rewriteSql
  simp only [decoded, read, upfront, noteSessionState_nil, rewritten]
  obtain ⟨context, startup⟩ := rewriter
  simp only at started
  rw [started]

end Text

theorem protectsReads_iff (catalog : WriteCatalog) (name : ObjectName) :
    catalog.protectsReads name = true ↔ ReadProtected catalog (fun _ => "public") name := by
  have resolved : Writes.denotes (fun _ => "public") name = resolvedName name := by
    unfold Writes.denotes resolvedName
    rcases name.reverse with _ | ⟨table, _ | ⟨schema, rest⟩⟩ <;> rfl
  unfold WriteCatalog.protectsReads ReadProtected
  rw [resolved]
  cases resolvedName name with
  | none => simp
  | some key => simp

/-- A text whose one statement refers to no protected table is relayed as it came under
either policy, unless the walk looks up a name that hides one: a WITH entry or a function
spelled like a protected table. A reported site would be a refusal under `reject`, so there
is none. -/
theorem unprotected_statement_relayed {depth : Nat} [DecidableEq (Statement depth)]
    {frontend : Frontend (Statement depth)} {rewriter : Rewriter} {query : Bytes} {sql : SqlText}
    {tokens : List Token} {statement : Statement depth}
    (decoded : Text.decode query = some sql) (tokenized : frontend.tokenize sql = .ok tokens)
    (parsed : frontend.parseTokens tokens sql = .ok [statement])
    (moves : (settingsMoved tokens).flatten = [])
    (trusted : rewriter.context.searchPathTrusted = true)
    (untouched : ∀ reference ∈ references statement, reference.binding = .table →
      ¬ ReadProtected rewriter.context.catalog (fun _ => "public") reference.name)
    (started : rewriter.startupMoved = [])
    (distinct : ∀ name ∈ lookedUp statement,
      (∀ reference ∈ references statement, reference.name = name → reference.binding ≠ .table) →
        rewriter.context.catalog.protectsReads name = false)
    (policy : OnUnprotected) :
    rewriteSql frontend (fun context => rewriteStatement context) (Rewriter.under rewriter policy)
      query = (Rewriter.under rewriter policy, .ok (.rewrite none .empty)) := by
  have unmatched : Unmatched (Rewriter.under rewriter policy).context
      ((Lookups.lookups depth).ofStatement statement) := by
    intro name looked
    by_cases hidden : ∀ reference ∈ references statement, reference.name = name →
        reference.binding ≠ .table
    · exact distinct name looked hidden
    · push Not at hidden
      obtain ⟨reference, held, rfl, bound⟩ := hidden
      rw [← Bool.not_eq_true]
      exact fun guarded => untouched reference held bound ((protectsReads_iff _ _).mp guarded)
  have left : Steady (rewriteStatement (Rewriter.under rewriter policy).context statement)
      (statement, false) :=
    (@walks_leave (Rewriter.under rewriter policy).context trusted depth).statement statement
      unmatched
  exact rewriteSql_left decoded tokenized parsed moves started left

section Samples

/-- `SELECT email FROM accounts`, where no policy column names the table. -/
def selectAccounts : Statement 1 :=
  .query ⟨false, [], .select ⟨[.unnamed (.identifier (.plain "email"))],
    [.mk (.table [.plain "accounts"] none none) []], none, .expressions [], none, []⟩, [], []⟩

/-- `WITH users AS (SELECT 'x' AS email) SELECT 1 FROM users WHERE email > 'a'`. -/
def shadowedUsers : Statement 2 :=
  .query ⟨false, [⟨⟨.plain "users", []⟩,
      (⟨false, [], .select ⟨[.aliased (.value (.singleQuoted "x")) (.plain "email")], [], none,
        .expressions [], none, []⟩, [], []⟩ : QueryNode Empty Empty)⟩],
    .select ⟨[.unnamed (.value (.number "1"))], [.mk (.table [.plain "users"] none none) []],
      some (.binary (.op (.other ">")) (.identifier (.plain "email"))
        (.value (.singleQuoted "a"))), .expressions [], none, []⟩, [], []⟩

def readingAs {Statement : Type} (statement : Statement) : Frontend Statement :=
  ⟨fun _ => [], fun _ => .ok [.other], fun _ _ => .ok [statement]⟩

/-- `EXPLAIN` of the same: the fallback of `rewrite_statement` relays it without a look. -/
def explainedUsers : Statement 3 := .explain false shadowedUsers

def emailRewriter : Rewriter := ⟨plainContext [usersEmail] .warn, []⟩

theorem explained_and_plain_relayed :
    @rewriteSql _ (Classical.decEq _) (readingAs selectAccounts)
        (fun context => rewriteStatement context) (Rewriter.under emailRewriter .reject) [] =
      (Rewriter.under emailRewriter .reject, .ok (.rewrite none .empty)) ∧
    @rewriteSql _ (Classical.decEq _) (readingAs explainedUsers)
        (fun context => rewriteStatement context) (Rewriter.under emailRewriter .reject) [] =
      (Rewriter.under emailRewriter .reject, .ok (.rewrite none .empty)) := by
  have named : references selectAccounts = [⟨[.plain "accounts"], .table, .streamed⟩] := by decide
  have looked : lookedUp selectAccounts = [[.plain "accounts"]] := by decide
  have hidden : references explainedUsers = [⟨[.plain "users"], .cte, .streamed⟩] := by decide
  have unnamed : emailRewriter.context.catalog.protectsReads [.plain "accounts"] = false := by
    decide
  constructor
  · refine @unprotected_statement_relayed 1 (Classical.decEq _) (readingAs selectAccounts)
      emailRewriter [] [] [.other] selectAccounts (by decide) rfl rfl (by decide) rfl ?_ rfl ?_
      .reject
    · intro reference held _ guarded
      rw [named, List.mem_singleton] at held
      subst held
      exact Bool.false_ne_true (unnamed.symm.trans ((protectsReads_iff _ _).mpr guarded))
    · intro name listed _
      rw [looked, List.mem_singleton] at listed
      subst listed
      exact unnamed
  · refine @unprotected_statement_relayed 3 (Classical.decEq _) (readingAs explainedUsers)
      emailRewriter [] [] [.other] explainedUsers (by decide) rfl rfl (by decide) rfl ?_ rfl ?_
      .reject
    · intro reference held bound
      rw [hidden, List.mem_singleton] at held
      subst held
      cases bound
    · intro name listed
      cases listed

theorem shadowed_table_name_refused :
    references shadowedUsers = [⟨[.plain "users"], .cte, .streamed⟩] ∧
      ∃ message, rewriteStatement (plainContext [usersEmail] .reject) shadowedUsers .empty =
        .error (.refused message) := by
  exact ⟨by decide, _, rfl⟩

end Samples

end Dbsec.Untouched
