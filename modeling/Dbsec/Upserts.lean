import Dbsec.RowBinding

/-! What an INSERT with a conflict action stores: seal.rs `conflict_row`, `row_of` and the
`EXCLUDED` exception of `re_stores_a_sealed_value`, under either policy. The row a conflict
action writes is the server's choice. -/
namespace Dbsec.Upserts
open Framing Sql Params Unprotected Catalog Literals Scope Accumulate Rewrite Predicate Seal
open QueryWalk Statements Writes SealedForm KeyedWrites BoundParams RowStore PinnedRow RowBinding

section Action
variable {Query Statement : Type} {server : Server Query} {context : Context}
  {walks : Walks Query Statement} {columns : Columns} {spec : ResolvedRowKey}

variable {target : Option ConflictTarget} {assignments : List (Assignment Query)}
  {selection : Option (Expr Query)}

variable {scope : AssignmentScope} {changed : Bool} {before after : ParamTransforms}

theorem rewriteOnInsert_target {inScope : TableScope} {on : OnInsert Query}
    (ran : rewriteOnInsert context walks scope inScope on before =
      .ok ((.onConflict target (.doUpdate assignments selection), changed), after)) :
    ∃ assignments selection, on = .onConflict target (.doUpdate assignments selection) := by
  cases on with
  | duplicateKeyUpdate held =>
    obtain ⟨⟨_, _⟩, _, _, done⟩ := bind_run_iff.mp ran
    cases (pure_run_iff.mp done).1
  | onConflict held action =>
    cases action with
    | doNothing =>
      cases (pure_run_iff.mp ran).1
    | doUpdate first second =>
      obtain ⟨⟨_, _⟩, _, _, ran⟩ := bind_run_iff.mp ran
      obtain ⟨⟨_, _⟩, _, _, done⟩ := bind_run_iff.mp ran
      cases (pure_run_iff.mp done).1
      exact ⟨first, second, rfl⟩

variable {insert : Sql.Insert Query Statement}

theorem rewriteInsert_target {relayed : Sql.Insert Query Statement}
    (found : context.table insert.tableName = .ok (some columns))
    (ran : rewriteInsert context walks insert before = .ok ((relayed, changed), after))
    (acts : (if changed then relayed else insert).on =
      some (.onConflict target (.doUpdate assignments selection))) :
    ∃ assignments selection,
      insert.on = some (.onConflict target (.doUpdate assignments selection)) := by
  cases changed with
  | false => exact ⟨assignments, selection, acts⟩
  | true =>
    obtain ⟨sealedValues, second, on, later, _, _, conflicting, rfl, _⟩ :=
      rewriteInsert_runs found ran
    rcases rewriteOption_ok conflicting with ⟨_, absent, _⟩ | ⟨held, result, present, sent, here⟩
    · cases absent.symm.trans acts
    · cases sent.symm.trans acts
      obtain ⟨assignments, selection, rfl⟩ := rewriteOnInsert_target here
      exact ⟨assignments, selection, present⟩

theorem accepted_of_rewriteInsert {sealings : Sealings} {bind : BindMessage}
    {relayed : Sql.Insert Query Statement} (queries : ∀ query, Grows (walks.rewriteQuery query))
    (bound : RowBound context insert.tableName columns spec)
    (received : Received server context columns sealings bind after)
    (written : ReadAsWritten server spec bind columns insert)
    (ran : rewriteInsert context walks insert before = .ok ((relayed, changed), after)) :
    Accepted server context columns sealings spec bind after insert
      (if changed then relayed else insert) := by
  obtain ⟨form, binds, each⟩ := rewriteInsert_exact queries bound.found ran
  exact ⟨received, bound, written, binds, form, each,
    fun _ _ _ acts => rewriteInsert_target bound.found ran acts⟩

variable {existing proposal : Row}

theorem value_excluded {has : Nat → String → Bool} {kind : ColumnKind}
    {qualifier referenced : Ident} {out : Option Bytes} (named : normalize qualifier = "excluded")
    (evaluated : value server kind (conflictFrame insert has existing proposal)
      (.compoundIdentifier [qualifier, referenced]) = some out) :
    out = proposal (normalize referenced) := by
  have shown : value server kind (conflictFrame insert has existing proposal)
      (.compoundIdentifier [qualifier, referenced]) =
        ((conflictFrame insert has existing proposal).resolve [qualifier, referenced]).map
          fun place => (conflictFrame insert has existing proposal).rows place.1 place.2 := rfl
  rw [shown] at evaluated
  rcases @resolve_cases (conflictFrame insert has existing proposal) [qualifier, referenced]
    referenced rfl with missing | ⟨index, listed, found⟩
  · rw [missing] at evaluated
    cases evaluated
  · have member : 1 ∈ (conflictFrame insert has existing proposal).candidates [qualifier]
        (normalize referenced) := by
      refine (mem_candidates (by nofun)).mpr ⟨.aliased "excluded", rfl, ?_⟩
      simp [Visible.answersTo, named]
    rw [show [qualifier] = [qualifier, referenced].dropLast from rfl, listed,
      List.mem_singleton] at member
    subst member
    rw [found] at evaluated
    exact (Option.some.inj evaluated).symm

variable {params : ParamTransforms}

theorem entries_exact {before after : List (Assignment Query)}
    (each : List.Forall₂ (AssignmentExact context scope params) before after) :
    List.Forall₂ (EntryExact context scope params) (assignedEntries before)
      (assignedEntries after) := by
  refine List.rel_flatMap each ?_
  rintro first last ⟨sameTarget, entries⟩
  simp only [sameTarget]
  exact entries

theorem assignedNames_exact {before after : List (Ident × Option (Expr Query))}
    (each : List.Forall₂ (EntryExact context scope params) before after) :
    assignedNames before = assignedNames after := by
  induction each with
  | nil => rfl
  | cons entry _ ih =>
    simp only [assignedNames, List.map_cons] at ih ⊢
    rw [ih, entry.1]

theorem assigned_named {assignment : Assignment Query} {entry : Ident × Option (Expr Query)}
    (listed : entry ∈ assigned assignment.target assignment.value) :
    assignsColumn [assignment] (normalize entry.1) = true := by
  cases target : assignment.target with
  | columnName name =>
    simp only [target, assigned, List.mem_map, Option.mem_toList] at listed
    obtain ⟨ident, last, rfl⟩ := listed
    simp only [assignsColumn, List.any_cons, List.any_nil, Bool.or_false, target]
    rw [last]
    exact beq_self_eq_true _
  | tuple names =>
    simp only [target, assigned, List.mem_filterMap, Option.map_eq_some_iff] at listed
    obtain ⟨⟨name, position⟩, held, ident, last, rfl⟩ := listed
    simp only [assignsColumn, List.any_cons, List.any_nil, Bool.or_false, target, List.any_eq_true]
    refine ⟨name, List.mem_of_getElem? (List.mem_zipIdx_iff_getElem?.mp held), ?_⟩
    rw [last]
    exact beq_self_eq_true _

theorem not_assigned_of_assignsColumn {wanted : String}
    (unassigned : assignsColumn assignments wanted = false) :
    wanted ∉ assignedNames (assignedEntries assignments) := by
  intro named
  obtain ⟨entry, listed, rfl⟩ := List.mem_map.mp named
  obtain ⟨assignment, held, listed⟩ := List.mem_flatMap.mp listed
  have found := assigned_named listed
  simp only [assignsColumn, List.any_cons, List.any_nil, Bool.or_false] at found
  simp only [assignsColumn, List.any_eq_false] at unassigned
  exact unassigned assignment held found

variable {source : RowKeySource}

/-- When the row of a conflict action is known: the conflict is on the row key, which the
action does not assign, and the one proposed row spells it out. -/
theorem conflictRow_known {schema table : String}
    (resolved : resolvedName insert.tableName = some (schema, table))
    (declared : context.rowKeySpec schema table = some spec)
    (known : conflictRow context insert target assignments = .known source) :
    assignsColumn assignments spec.name = false ∧
      (∃ idents, target = some (.columns idents) ∧
        idents.any (fun ident => normalize ident == spec.name) = true) ∧
      ∃ position query values expr,
        insert.columns.findIdx? (fun ident => normalize ident == spec.name) = some position ∧
          insert.source = some query ∧ query.body = .values [values] ∧
            values[position]? = some expr ∧ rowKeySource spec expr = some source := by
  simp only [conflictRow, resolved, declared] at known
  split at known
  · cases known
  · rename_i unassigned
    refine ⟨by simpa using unassigned, ?_⟩
    rcases target with _ | idents | name
    · simp at known
    · simp only [Bool.not_eq_true'] at known
      split at known
      · cases known
      · rename_i onKey
        rw [Bool.not_eq_false] at onKey
        refine ⟨⟨idents, rfl, onKey⟩, ?_⟩
        split at known
        · cases known
        · rename_i position placed
          split at known
          · cases known
          · rename_i query sourced
            split at known
            · rename_i values single
              split at known
              · rename_i held found
                cases known
                obtain ⟨expr, there, read⟩ := Option.bind_eq_some_iff.mp found
                exact ⟨position, query, values, expr, placed, sourced, single, there, read⟩
              · cases known
            · cases known
            · cases known
    · simp at known

theorem proposedForm_fields (insert : Sql.Insert Query Statement) :
    (proposedForm context columns insert).1.on = insert.on ∧
      (proposedForm context columns insert).1.tableName = insert.tableName ∧
      (proposedForm context columns insert).1.columns = insert.columns := by
  unfold proposedForm
  split
  · exact ⟨rfl, rfl, rfl⟩
  · exact ⟨rfl, rfl, rfl⟩

variable {bind : BindMessage}

theorem keys_of_proposedForm (plainKey : columns.get spec.name = none)
    (written : ReadAsWritten server spec bind columns insert) {values : List (Expr Query)}
    (sent : values ∈ spelledRows (proposedForm context columns insert).1)
    {entry : Ident × Expr Query} (listed : entry ∈ insert.columns.zip values)
    (named : normalize entry.1 = spec.name) (sourced : rowKeySource spec entry.2 = some source) :
    KeyAsWritten server bind entry.2 := by
  cases proposed : proposedRows context columns insert with
  | none =>
    simp only [proposedForm, proposed] at sent
    exact written.keys values sent entry listed named source sourced
  | some found =>
    obtain ⟨query, rows, key⟩ := found
    simp only [proposedForm, proposed, spelledRows, List.mem_map] at sent
    obtain ⟨client, held, rfl⟩ := sent
    rw [zip_rowForm, List.mem_map] at listed
    obtain ⟨original, listed, rfl⟩ := listed
    have kept : listedForm context columns (proposedSource key client) original.1 original.2 =
        original.2 := by
      simp only [listedForm, named, plainKey]
    rw [kept] at sourced ⊢
    exact written.keys client ((proposedRows_some proposed).2.1 ▸ held) original listed named
      _ sourced

theorem conflict_row_key (bound : RowBound context insert.tableName columns spec)
    (acts : insert.on = some (.onConflict target (.doUpdate assignments selection)))
    (known : onInsertRow context (proposedForm context columns insert).1 = .known source)
    {final : Row} (conflicts : ConflictsOn target existing proposal)
    (kept : spec.name ∉ assignedNames (assignedEntries assignments) →
      final spec.name = existing spec.name) : final spec.name = proposal spec.name := by
  obtain ⟨sameOn, sameName, _⟩ := @proposedForm_fields Query Statement context columns insert
  obtain ⟨schema, table, resolved, declared⟩ := bound.declared
  simp only [onInsertRow, sameOn, acts] at known
  obtain ⟨unassigned, ⟨idents, rfl, onKey⟩, _⟩ :=
    conflictRow_known (by rw [sameName]; exact resolved) declared known
  obtain ⟨other, member, spelled⟩ := List.any_eq_true.mp onKey
  rw [beq_iff_eq] at spelled
  have agreed := (conflicts other member).1
  rw [spelled] at agreed
  rw [kept (not_assigned_of_assignsColumn unassigned), agreed]

theorem conflict_proposal_key {executed : Sql.Insert Query Statement}
    (bound : RowBound context insert.tableName columns spec)
    (written : ReadAsWritten server spec bind columns insert) {on : Option (OnInsert Query)}
    (form : executed = { (proposedForm context columns insert).1 with on })
    (acts : insert.on = some (.onConflict target (.doUpdate assignments selection)))
    (known : onInsertRow context (proposedForm context columns insert).1 = .known source)
    {place : Nat} (proposes : Proposes server (kindOf spec columns) executed place proposal)
    {key : Envelope.RowKey} (read : bindRowKey source bind = .ok (some key)) :
    proposal spec.name = some key.bytes := by
  obtain ⟨sameOn, sameName, sameColumns⟩ :=
    @proposedForm_fields Query Statement context columns insert
  obtain ⟨schema, table, resolved, declared⟩ := bound.declared
  simp only [onInsertRow, sameOn, acts] at known
  obtain ⟨_, _, position, query, values, expr, placed, sourced, single, there, sources⟩ :=
    conflictRow_known (by rw [sameName]; exact resolved) declared known
  rw [sameColumns] at placed
  obtain ⟨ident, named, listed⟩ := mem_zip_of_findIdx? placed there
  rw [beq_iff_eq] at named
  have rowProposes : RowProposes server (kindOf spec columns) insert.columns values proposal := by
    subst form
    simp only [Proposes, sourced, single, sameColumns] at proposes
    obtain ⟨sent, here, proposes⟩ := proposes fun empty => by simp [empty] at listed
    rw [List.getElem?_singleton] at here
    split at here
    · cases here
      exact proposes
    · cases here
  have sent : values ∈ spelledRows (proposedForm context columns insert).1 := by
    simp [spelledRows, sourced, single]
  exact proposal_key rowProposes listed named written.typed
    (keys_of_proposedForm bound.plainKey written sent listed named sources) sources read

section Entries
variable {insert executed : Sql.Insert Query Statement} {bind : BindMessage}
  {params : ParamTransforms} {place : Nat} {existing proposal final : Row}
  {has : Nat → String → Bool} {entries : List (Ident × Option (Expr Query))}
  {before after : Ident × Option (Expr Query)} {transform : FieldTransform} {stored : Bytes}

variable {expr : Expr Query}

theorem settled_sealedForm {row : RowKeySource} (sealedHere : ¬ Left context transform row expr) :
    Settled (sealedForm context transform row expr) := by
  unfold sealedForm
  split
  · rename_i text isPlaceholder
    exact settled_of_unwrapCasts (isPlaceholder ▸ .value _)
  · rename_i isNull
    exact settled_of_unwrapCasts (isNull ▸ .value _)
  · rename_i notPlaceholder notNull
    split
    · exact settled_storedLiteral _ _
    · rename_i unsealed
      exact absurd ⟨notPlaceholder, notNull, unsealed⟩ sealedHere

theorem assignedForm_of_reStores {scope : AssignmentScope} {ident : Ident} {expr : Expr Query}
    (restored : reStoresASealedValue scope expr (normalize ident) = true) :
    assignedForm context scope ident expr = expr := by
  unfold assignedForm
  split
  · rfl
  · rw [if_pos restored]

theorem gives_of_exact {frame : Frame} (exactly : EntryExact context scope params before after)
    (held : before.2 = some expr) (settled : Settled (assignedForm context scope before.1 expr))
    (listed : after ∈ entries)
    (assigns : Assigns server (kindOf spec columns) frame entries existing final)
    (plainKey : columns.get spec.name = none)
    (guarded : columns.get (normalize before.1) = some transform)
    (encrypts : transform.wire = .bytea) (there : final (normalize before.1) = some stored) :
    Gives server (.sealed .bytea) frame (normalize before.1)
      (assignedForm context scope before.1 expr)
      (some stored) := by
  have given := assigns.assigned after listed _ ((exactly.2 expr held).1 settled)
  have apart : normalize before.1 ≠ spec.name := by
    intro same
    rw [same, plainKey] at guarded
    cases guarded
  rw [← exactly.1] at given
  simpa only [kindOf, if_neg apart, guarded, encrypts, there] using given

theorem reStored_value
    (exactly : EntryExact context (actionScope context columns insert) params before after)
    (held : before.2 = some expr)
    (restored : reStoresASealedValue (actionScope context columns insert) expr
      (normalize before.1) = true) (listed : after ∈ entries)
    (assigns : Assigns server (kindOf spec columns) (conflictFrame executed has existing proposal)
      entries existing final) (plainKey : columns.get spec.name = none)
    (guarded : columns.get (normalize before.1) = some transform)
    (encrypts : transform.wire = .bytea) (there : final (normalize before.1) = some stored) :
    proposal (normalize before.1) = some stored := by
  have form := @assignedForm_of_reStores _ context _ _ _ restored
  obtain ⟨qualifier, referenced, rfl, named, same, _⟩ := settled_of_reStores restored
  have given :=
    gives_of_exact exactly held (by rw [form]; exact .compoundIdentifier _) listed assigns
    plainKey guarded encrypts there
  rw [form, Gives, if_neg (by simp [isDefault]), given_sealed] at given
  rw [value_excluded named given, same]

end Entries

end Action

section Rows
variable {Query Statement : Type}

variable {server : Server Query} {context : Context} {bind : BindMessage} {params : ParamTransforms}
  {columns : Columns} {sealings : Sealings} {spec : ResolvedRowKey}
  {insert executed : Sql.Insert Query Statement} {place : Nat} {proposal : Row}

variable {column : String} {stored : Bytes}

variable {transform : FieldTransform}

section Updated
variable {target : Option ConflictTarget} {assignments : List (Assignment Query)}
  {selection : Option (Expr Query)} {has : Nat → String → Bool} {existing final : Row}
  {before after : Ident × Option (Expr Query)} {transform : FieldTransform} {stored : Bytes}
  (accepted : Accepted server context columns sealings spec bind params insert executed)
  (proposes : Proposes server (kindOf spec columns) executed place proposal)
include accepted proposes

theorem action_sealedFor
    {client : List (Assignment Query)} {filter : Option (Expr Query)}
    (acts : insert.on = some (.onConflict target (.doUpdate client filter)))
    (sameNames :
      assignedNames (assignedEntries client) = assignedNames (assignedEntries assignments))
    (conflicts : ConflictsOn target existing proposal)
    (assigns : Assigns server (kindOf spec columns) (conflictFrame executed has existing proposal)
      (assignedEntries assignments) existing final)
    (exactly : EntryExact context (actionScope context columns insert) params before after)
    (listed : before ∈ assignedEntries client) (sent : after ∈ assignedEntries assignments)
    {expr : Expr Query} (held : before.2 = some expr)
    (fresh : reStoresASealedValue (actionScope context columns insert) expr
      (normalize before.1) = false)
    (sealedHere :
      ¬ Left context transform (rowSource (actionScope context columns insert).row) expr)
    (guarded : columns.get (normalize before.1) = some transform)
    (encrypts : transform.wire = .bytea) (there : final (normalize before.1) = some stored) :
    ∃ found, bindRowKey (rowSource (actionScope context columns insert).row) bind = .ok found ∧
      SealedFor sealings (normalize before.1) found stored ∧
      ∀ key, found = some key → final spec.name = some key.bytes := by
  have shown : assignedForm context (actionScope context columns insert) before.1 expr =
      sealedForm context transform (rowSource (actionScope context columns insert).row) expr := by
    have guarded' : (actionScope context columns insert).columns.get (normalize before.1) =
      some transform := guarded
    simp only [assignedForm, guarded', fresh, Bool.false_eq_true, if_false]
  have given :=
    gives_of_exact exactly held (by rw [shown]; exact settled_sealedForm sealedHere) sent
    assigns accepted.bound.plainKey guarded encrypts there
  rw [shown] at given
  obtain ⟨found, read, sealedFor⟩ := stored_sealedFor accepted.received guarded encrypts
    ((exactly.2 expr held).2 transform guarded).1
    (accepted.written.assigned before (by rw [acts]; exact listed) expr held (by simp [guarded]))
    sealedHere given
  refine ⟨found, read, sealedFor, ?_⟩
  rintro key rfl
  cases known : (actionScope context columns insert).row with
  | known source =>
    rw [known] at read
    rw [conflict_row_key accepted.bound acts known conflicts fun unassigned =>
      assigns.kept _ (sameNames ▸ unassigned)]
    obtain ⟨on, form⟩ := accepted.form
    exact conflict_proposal_key accepted.bound accepted.written form acts known proposes read
  | missing table column shape =>
    rw [known] at read
    cases read
  | reassigned table column =>
    rw [known] at read
    cases read

variable {column : String} (guarded : columns.get column = some transform)
  (encrypts : transform.wire = .bytea) (there : proposal column = some stored)
include guarded encrypts there

end Updated

end Rows

/-- A transform whose stored form names the row it was sealed for. -/
def taggedTransform : FieldTransform :=
  ⟨0, .bytea,
    fun plaintext row =>
      .ok (match row with
        | none => 0 :: plaintext
        | some key => 1 :: UInt8.ofNat key.bytes.length :: (key.bytes ++ plaintext)),
    fun _ => .ok none, false⟩

def taggedColumns : Columns := Table.empty.put "email" taggedTransform

def taggedSealings : Sealings := fun column transform =>
  column = "email" ∧ transform = taggedTransform

/-- `public.users` with its encrypted column `email` and its row key `id`. -/
def taggedContext (onUnprotected : OnUnprotected) : Context :=
  { plainContext [⟨"public", "users", "email", some taggedTransform⟩] onUnprotected with
    rows := some usersRows }

/-- `INSERT INTO users (id, name, email) VALUES (6, 'n', 'p') ON CONFLICT (target) DO UPDATE
SET email = EXCLUDED.email`. -/
def upsertOn (target : String) : Sql.Insert (Sql.Query 0) (Sql.Statement 0) :=
  ⟨[.plain "users"], none, [.plain "id", .plain "name", .plain "email"],
    some ⟨false, [], .values [[.value (.number "6"), .value (.singleQuoted "n"),
      .value (.singleQuoted "p")]], [], []⟩,
    some (.onConflict (some (.columns [.plain target])) (.doUpdate
      [⟨.columnName [.plain "email"], .compoundIdentifier [.plain "EXCLUDED", .plain "email"]⟩]
        none)),
    []⟩

def upsertRelayed (target : String) : Sql.Insert (Sql.Query 0) (Sql.Statement 0) :=
  { upsertOn target with
    source := some ⟨false, [], .values [[.value (.number "6"), .value (.singleQuoted "n"),
      byteaLiteral [1, 1, 0x36, 0x70]]], [], []⟩ }

def userRow (id : UInt8) (email : Option Bytes) : Row := fun column =>
  if column = "id" then some [id] else if column = "name" then some [0x6E]
  else if column = "email" then email else none

theorem upsert_proposes (target : String) :
    Proposes comparingServer (kindOf ⟨"id", 23⟩ taggedColumns) (upsertRelayed target) 0
      (userRow 0x36 (some [1, 1, 0x36, 0x70])) := by
  have names : (upsertRelayed target).columns.map normalize = ["id", "name", "email"] := by
    simp only [upsertRelayed, upsertOn]
    decide
  refine fun _ => ⟨_, rfl, by rw [names]; decide, rfl, ?_, ?_⟩
  · intro entry listed
    simp only [upsertRelayed, upsertOn, List.zip_cons_cons, List.zip_nil_right, List.mem_cons,
      List.not_mem_nil, or_false] at listed
    rcases listed with rfl | rfl | rfl
    · rfl
    · rfl
    · rfl
  · intro column unlisted
    simp only [names, List.mem_cons, List.not_mem_nil, or_false, not_or] at unlisted
    simp only [comparingServer, userRow, if_neg unlisted.1, if_neg unlisted.2.1,
      if_neg unlisted.2.2]

theorem upsert_received (context : Context) :
    Received (comparingServer : Server (Sql.Query 0)) context taggedColumns taggedSealings
      emptyBind .empty where
  formats := rfl
  values := rfl
  own name transform held := by
    by_cases same : name = "email"
    · subst same
      exact ⟨rfl, (Option.some.inj held).symm⟩
    · rw [taggedColumns, Table.get_put_ne _ _ (Ne.symm same)] at held
      cases held
  recorded := nofun

end Dbsec.Upserts
