import Dbsec.RowInvariant

/-! Row binding over whole runs: the accepted INSERTs, upserts and UPDATEs of a row-bound
table, executed by the server one after the other. The server's side is stated from its
documented behaviour. -/
namespace Dbsec.RowRuns
open Framing Sql Params Unprotected Catalog Literals Scope Accumulate Rewrite Seal Statements Writes
open SealedForm KeyedWrites KeptValues BoundParams StoredKeys KeptLiterals RowStore PinnedRow
open RowBinding Upserts PinnedWrites RowInvariant

section Tables
variable {Query Statement : Type} (server : Server Query) (spec : ResolvedRowKey)
  (kinds : String → ColumnKind) (has : Nat → String → Bool)

/-- How many rows an INSERT proposes; a query may return any number. -/
def ProposesRows (insert : Sql.Insert Query Statement) (count : Nat) : Prop :=
  match insert.source with
  | none => count = 1
  | some source =>
    match source.body with
    | .values rows => count = rows.length
    | _ => True

/-- What an INSERT makes of the rows of its table, one proposal after the other. -/
inductive Inserts (insert : Sql.Insert Query Statement) :
    List Nat → List Row → List Row → Prop where
  | done (rows : List Row) : Inserts insert [] rows rows
  | stored {place : Nat} {places : List Nat} {rows after : List Row} (proposal : Row) :
      Proposes server kinds insert place proposal →
      Inserts insert places (proposal :: rows) after → Inserts insert (place :: places) rows after
  | skipped {place : Nat} {places : List Nat} {rows after : List Row} :
      insert.on.isSome → Inserts insert places rows after →
      Inserts insert (place :: places) rows after
  | updated {place : Nat} {places : List Nat} {front back after : List Row}
      {target : Option ConflictTarget} {assignments : List (Assignment Query)}
      {selection : Option (Expr Query)} (proposal existing final : Row) :
      Proposes server kinds insert place proposal →
      insert.on = some (.onConflict target (.doUpdate assignments selection)) →
      ConflictsOn target existing proposal →
      (∀ condition ∈ selection,
        holds server spec (conflictFrame insert has existing proposal) condition = true) →
      Assigns server kinds (conflictFrame insert has existing proposal)
        (assignedEntries assignments) existing final →
      Inserts insert places (front ++ final :: back) after →
      Inserts insert (place :: places) (front ++ existing :: back) after

/-- What an UPDATE without FROM makes of one row. -/
inductive UpdatesRow (update : Update Query) (old : Row) : Row → Prop where
  | left {condition : Expr Query} : update.selection = some condition →
      holds server spec (updateFrame update has old) condition = false →
      UpdatesRow update old old
  | updated {new : Row} :
      (∀ condition ∈ update.selection,
        holds server spec (updateFrame update has old) condition = true) →
      Assigns server kinds (updateFrame update has old) (assignedEntries update.assignments)
        old new →
      UpdatesRow update old new

/-- What a statement makes of the rows of its table. A statement that fails leaves them. -/
inductive Executes : StatementNode Query Statement → List Row → List Row → Prop where
  | failed (statement : StatementNode Query Statement) (rows : List Row) :
      Executes statement rows rows
  | insert {insert : Sql.Insert Query Statement} {count : Nat} {rows after : List Row} :
      ProposesRows insert count →
        Inserts server spec kinds has insert (List.range count) rows after →
      Executes (.insert insert) rows after
  | update {update : Update Query} {rows after : List Row} :
      List.Forall₂ (UpdatesRow server spec kinds has update) rows after →
      Executes (.update update) rows after

end Tables

/-- A number, signed or not, that PostgreSQL reads as an integer. -/
def integerLiteral {Query : Type} : Expr Query → Bool
  | .value (.number text) => text.toList.all Char.isDigit
  | .unary (.op .minus) (.value (.number text)) => text.toList.all Char.isDigit
  | .unary (.op .plus) (.value (.number text)) => text.toList.all Char.isDigit
  | .unary .nested inner => integerLiteral inner
  | _ => false

/-- An integer the row key column takes as it is spelled; an integer column takes any. -/
def IntegerKey {Query : Type} (server : Server Query) (expr : Expr Query) : Prop :=
  integerLiteral expr = true ∧ ((∀ width, server.keyColumn ≠ .integer width) →
    ReadAsSpelled server.pg server.escapeStrings server.keyColumn expr)

variable {spec : ResolvedRowKey}

theorem integerLiteral_spelled {Query : Type} {pg : Pg} {escapes : Bool} {width : Width}
    {expr : Expr Query} (integer : integerLiteral expr = true) :
    (spelling expr).isSome = true ∧ ReadAsSpelled pg escapes (.integer width) expr := by
  fun_induction integerLiteral expr with
  | case1 => exact ⟨rfl, fun _ _ => ⟨trivial, trivial⟩⟩
  | case2 => exact ⟨rfl, fun _ _ => ⟨⟨trivial, trivial⟩, trivial⟩⟩
  | case3 => exact ⟨rfl, fun _ _ => ⟨trivial, trivial⟩⟩
  | case4 inner ih => exact ih integer
  | case5 => cases integer

theorem keyAsWritten_of_integer {Query : Type} {server : Server Query} {bind : BindMessage}
    {expr : Expr Query} (integer : IntegerKey server expr) : KeyAsWritten server bind expr := by
  obtain ⟨literal, otherwise⟩ := integer
  rw [KeyAsWritten, if_pos (@integerLiteral_spelled _ server.pg false .int4 _ literal).1]
  by_cases typed : ∃ width, server.keyColumn = .integer width
  · obtain ⟨width, same⟩ := typed
    rw [same]
    exact (integerLiteral_spelled literal).2
  · exact otherwise fun width same => typed ⟨width, same⟩

section Statements
variable {Query Statement : Type} (context : Context) (columns : Columns) (spec : ResolvedRowKey)

/-- An INSERT into the row-bound table, or an UPDATE of it without FROM. -/
def OnTable : StatementNode Query Statement → Prop
  | .insert insert => RowBound context insert.tableName columns spec
  | .update update => update.fromTable = none ∧ ∃ name args named,
      update.table = .mk (.table name args named) [] ∧ RowBound context name columns spec
  | _ => False

/-- The row keys the proxy reads from a statement are integers. -/
def IntegerKeys (server : Server Query) : StatementNode Query Statement → Prop
  | .insert insert => ∀ values ∈ spelledRows insert, ∀ entry ∈ insert.columns.zip values,
      normalize entry.1 = spec.name → ∀ source, rowKeySource spec entry.2 = some source →
        IntegerKey server entry.2
  | .update update => ∀ name args named, update.table.relation = .table name args named →
      ∀ condition ∈ update.selection, ∀ column operand,
        pinned spec (searchedTarget context columns name named) (joinsOthers update) condition =
          some (column, operand) → IntegerKey server operand
  | _ => True

/-- The columns a statement assigns to existing rows do not include the row key. -/
def KeepsRowKey : StatementNode Query Statement → Prop
  | .insert insert => assignsColumn (conflictAssignments insert.on) spec.name = false
  | .update update => assignsColumn update.assignments spec.name = false
  | _ => True

end Statements

def TableSealed (encrypts : String → Prop) (sealings : Sealings) (spec : ResolvedRowKey)
    (rows : List Row) : Prop :=
  ∀ row ∈ rows, RowSealed encrypts sealings spec row

theorem tableSealed_replace {encrypts : String → Prop} {sealings : Sealings} {front back : List Row}
    {old new : Row} (before : TableSealed encrypts sealings spec (front ++ old :: back))
    (step : RowSealed encrypts sealings spec old → RowSealed encrypts sealings spec new) :
    TableSealed encrypts sealings spec (front ++ new :: back) := by
  intro row listed
  rcases List.mem_append.mp listed with inFront | inBack
  · exact before row (List.mem_append_left _ inFront)
  · rcases List.mem_cons.mp inBack with rfl | inBack
    · exact step (before old (List.mem_append_right _ List.mem_cons_self))
    · exact before row (List.mem_append_right _ (List.mem_cons_of_mem _ inBack))

section Steps
variable {Query Statement : Type} {server : Server Query} {context : Context} {columns : Columns}
  {sealings : Sealings} {spec : ResolvedRowKey} {bind : BindMessage} {params : ParamTransforms}
  {has : Nat → String → Bool} {rows after : List Row}

variable {insert : Sql.Insert Query Statement}

theorem readAsWritten_of_integerKeys (conforms : Conforms server spec columns sealings)
    (integers : IntegerKeys context columns spec server (.insert insert)) :
    ReadAsWritten server spec bind columns insert where
  typed := conforms.typed
  keys values sent entry listed named source sourced :=
    keyAsWritten_of_integer (integers values sent entry listed named source sourced)
  listed _ _ entry _ _ := castsKeep conforms entry.2
  assigned _ _ expr _ _ := castsKeep conforms expr

/-- The proposals of an accepted INSERT, stored or merged into rows they conflict with,
keep the table sealed. -/
theorem inserts_sealed {executed : Sql.Insert Query Statement}
    (accepted : Accepted server context columns sealings spec bind params insert executed)
    (conforms : Conforms server spec columns sealings)
    (listed : insert.columns ≠ []) (kept : ProposalsKept context columns insert)
    (entriesKept : ∀ entry ∈ assignedEntries (conflictAssignments insert.on),
      EntryKept context (actionScope context columns insert) entry)
    (keepsKey : KeepsRowKey spec (.insert insert)) {places : List Nat}
    (ran : Inserts server spec (kindOf spec columns) has executed places rows after)
    (before : TableSealed (Encrypts columns) sealings spec rows) :
    TableSealed (Encrypts columns) sealings spec after := by
  -- One proposal after the other; `before` is what the proposals so far have kept.
  induction ran with
  | done rows => exact before
  | stored proposal proposes _ ih =>
    apply ih
    intro row inRows
    rcases List.mem_cons.mp inRows with rfl | inRows
    · exact proposal_sealed accepted conforms listed kept proposes
    · exact before row inRows
  | skipped _ _ ih => exact ih before
  | @updated place places front back after target assignments selection proposal existing final
      proposes acts conflicts satisfied assigns _ ih =>
    apply ih
    refine tableSealed_replace before fun existingSealed => ?_
    obtain ⟨client, filter, clientActs⟩ := accepted.sameTarget target assignments selection acts
    have each := accepted.each
    rw [acts, clientActs] at each
    simp only [KeepsRowKey, clientActs] at keepsKey
    rw [clientActs] at entriesKept
    exact conflict_sealed accepted each entriesKept clientActs keepsKey proposes
      (proposal_sealed accepted conforms listed kept proposes) conflicts assigns existingSealed

theorem updates_sealed {sent : Update Query} {encrypts : String → Prop}
    (ran : List.Forall₂ (UpdatesRow server spec (kindOf spec columns) has sent) rows after)
    (step : ∀ {old new : Row}, (∀ condition ∈ sent.selection,
        holds server spec (updateFrame sent has old) condition = true) →
      Assigns server (kindOf spec columns) (updateFrame sent has old)
        (assignedEntries sent.assignments) old new →
      RowSealed encrypts sealings spec old → RowSealed encrypts sealings spec new)
    (before : TableSealed encrypts sealings spec rows) :
    TableSealed encrypts sealings spec after := by
  intro new listed
  obtain ⟨old, inRows, updates⟩ := forall₂_exists_right ran.flip listed
  cases updates with
  | left => exact before new inRows
  | updated selected assigns => exact step selected assigns (before old inRows)

end Steps

/-- A statement as a client sends it, with the Bind that carries its parameters and the
server that executes it. -/
structure Sent where
  depth : Nat
  context : Context
  columns : Columns
  statement : StatementNode (Sql.Query depth) (Sql.Statement depth)
  bind : BindMessage
  server : Server (Sql.Query depth)
  has : Nat → String → Bool

def statementOf {depth : Nat} (node : StatementNode (Sql.Query depth) (Sql.Statement depth)) :
    Sql.Statement (depth + 1) :=
  node

/-- One statement on the row-bound table: accepted under `reject`, and executed as it was
relayed. Statements may draw different nonces, so each has transforms of its own. -/
structure Step (encrypts : String → Prop) (sealings : Sealings) (spec : ResolvedRowKey)
    (sent : Sent) (rows after : List Row) : Prop where
  rejecting : sent.context.catalog.onUnprotected = .reject
  onTable : OnTable sent.context sent.columns spec sent.statement
  integers : IntegerKeys sent.context sent.columns spec sent.server sent.statement
  encrypted : ∀ column, Encrypts sent.columns column ↔ encrypts column
  conforms : Conforms sent.server spec sent.columns sealings
  executed : ∃ relayed changed params,
    rewriteStatement sent.context (statementOf sent.statement) .empty =
        .ok ((statementOf relayed, changed), params) ∧
      Received sent.server sent.context sent.columns sealings sent.bind params ∧
      Executes sent.server spec (kindOf spec sent.columns) sent.has
        (if changed then relayed else sent.statement) rows after

inductive Run (encrypts : String → Prop) (sealings : Sealings) (spec : ResolvedRowKey) :
    List Sent → List Row → List Row → Prop where
  | nil (rows : List Row) : Run encrypts sealings spec [] rows rows
  | cons {sent : Sent} {rest : List Sent} {rows between after : List Row} :
      Step encrypts sealings spec sent rows between →
        Run encrypts sealings spec rest between after →
      Run encrypts sealings spec (sent :: rest) rows after

section Runs
variable {encrypts : String → Prop} {sealings : Sealings} {spec : ResolvedRowKey} {sent : Sent}
  {rows after : List Row}

theorem tableSealed_congr {other : String → Prop}
    (same : ∀ column, encrypts column ↔ other column) :
    TableSealed encrypts sealings spec rows ↔ TableSealed other sealings spec rows := by
  have : encrypts = other := funext fun column => propext (same column)
  rw [this]

variable {depth : Nat} {context : Context} {columns : Columns} {bind : BindMessage}
  {params : ParamTransforms} {has : Nat → String → Bool} {changed : Bool}

variable {server : Server (Sql.Query depth)}

theorem insert_sealed {insert relayed : Sql.Insert (Sql.Query depth) (Sql.Statement depth)}
    (rejecting : context.catalog.onUnprotected = .reject)
    (bound : RowBound context insert.tableName columns spec)
    (integers : IntegerKeys context columns spec server (.insert insert))
    (conforms : Conforms server spec columns sealings)
    (ran : rewriteInsert context (walks context depth) insert .empty =
      .ok ((relayed, changed), params))
    (received : Received server context columns sealings bind params)
    (executes : Executes server spec (kindOf spec columns) has
      (.insert (if changed then relayed else insert)) rows after)
    (keepsKey : KeepsRowKey spec (.insert insert))
    (before : TableSealed (Encrypts columns) sealings spec rows) :
    TableSealed (Encrypts columns) sealings spec after := by
  obtain ⟨listed, kept, entriesKept⟩ :=
    rewriteInsert_kept rejecting (walks_grow context depth).1 bound ran
  cases executes with
  | failed => exact before
  | insert _ inserts =>
    have accepted := accepted_of_rewriteInsert (walks_grow context depth).1 bound received
      (readAsWritten_of_integerKeys conforms integers) ran
    exact inserts_sealed accepted conforms listed kept entriesKept keepsKey inserts before

theorem update_statement_sealed {update relayed : Update (Sql.Query depth)}
    (rejecting : context.catalog.onUnprotected = .reject)
    (onTable : OnTable context columns spec (statementOf (.update update)))
    (integers : IntegerKeys context columns spec server (statementOf (.update update)))
    (conforms : Conforms server spec columns sealings)
    (ran : rewriteUpdate context (walks context depth) update .empty =
      .ok ((relayed, changed), params))
    (received : Received server context columns sealings bind params)
    (executes : Executes server spec (kindOf spec columns) has
      (statementOf (.update (if changed then relayed else update))) rows after)
    (keepsKey : assignsColumn update.assignments spec.name = false)
    (before : TableSealed (Encrypts columns) sealings spec rows) :
    TableSealed (Encrypts columns) sealings spec after := by
  obtain ⟨single, name, args, named, table, bound⟩ := onTable
  have target : update.table.relation = .table name args named := by
    rw [table]
    rfl
  have factor : factorName update.table.relation = some name := by
    rw [target]
    rfl
  have each := rewriteUpdate_exact (walks_grow context depth).1 factor bound.found ran
  have entriesKept :=
    rewriteUpdate_kept rejecting (walks_grow context depth).1 factor bound.found ran
  have pins := rewriteUpdate_pins table single bound.found bound.plainKey ran
  have written : KeysAsWritten server context columns spec bind update name named :=
    fun condition selected column operand picked => keyAsWritten_of_integer
      (integers name args named target condition selected column operand picked)
  cases executes with
  | failed => exact before
  | update updates =>
    exact updates_sealed updates (update_sealed received conforms bound table single written each
      entriesKept pins keepsKey) before

theorem step_sealed (step : Step encrypts sealings spec sent rows after)
    (keepsKey : KeepsRowKey spec sent.statement)
    (before : TableSealed encrypts sealings spec rows) :
    TableSealed encrypts sealings spec after := by
  obtain ⟨depth, context, columns, statement, bind, server, has⟩ := sent
  obtain ⟨rejecting, onTable, integers, encrypted, conforms, relayed, changed, params, accepted,
    received, executes⟩ := step
  rw [← tableSealed_congr encrypted] at before ⊢
  cases statement with
  | insert insert =>
    obtain ⟨⟨result, flag⟩, middle, ran, done⟩ := bind_run_iff.mp accepted
    obtain ⟨rfl, rfl, rfl⟩ := pure_pair done
    have sentAs : Executes server spec (kindOf spec columns) has
        (.insert (if flag then result else insert)) rows after := by
      cases flag <;> exact executes
    exact insert_sealed rejecting onTable integers conforms ran received sentAs keepsKey before
  | update update =>
    obtain ⟨⟨result, flag⟩, middle, ran, done⟩ := bind_run_iff.mp accepted
    obtain ⟨rfl, rfl, rfl⟩ := pure_pair done
    have sentAs : Executes server spec (kindOf spec columns) has
        (statementOf (.update (if flag then result else update))) rows after := by
      cases flag <;> exact executes
    exact update_statement_sealed rejecting onTable integers conforms ran received sentAs keepsKey
      before
  | _ => exact onTable.elim

/-- Row binding survives every run of accepted statements that leave the row key of
existing rows alone. -/
theorem run_keeps_rows_sealed (encrypts : String → Prop) (sealings : Sealings)
    (spec : ResolvedRowKey) (sents : List Sent) (rows after : List Row)
    (run : Run encrypts sealings spec sents rows after)
    (keepsKey : ∀ sent ∈ sents, KeepsRowKey spec sent.statement)
    (before : TableSealed encrypts sealings spec rows) :
    TableSealed encrypts sealings spec after := by
  induction run with
  | nil rows => exact before
  | cons step _ ih =>
    apply ih
    · exact fun sent listed => keepsKey sent (List.mem_cons_of_mem _ listed)
    · exact step_sealed step (keepsKey _ List.mem_cons_self) before

end Runs

/-- `UPDATE users SET column = value WHERE id = key`. -/
def updateUser (column : String) (value : Expr (Sql.Query 0)) (key : String) :
    Update (Sql.Query 0) :=
  ⟨⟨.table [.plain "users"] none none, []⟩, [⟨.columnName [.plain column], value⟩], none,
    some (.binary (.op .eq) (.identifier (.plain "id")) (.value (.number key))), []⟩

def sentPlain (statement : StatementNode (Sql.Query 0) (Sql.Statement 0)) : Sent :=
  ⟨0, taggedContext .reject, taggedColumns, statement, emptyBind, comparingServer,
    fun _ _ => true⟩

theorem tagged_conforms :
    Conforms (comparingServer : Server (Sql.Query 0)) ⟨"id", 23⟩ taggedColumns taggedSealings where
  typed := rfl
  casts _ _ _ casted := (Option.some.inj casted).symm
  defaults _ _ _ _ default := nomatch default

theorem updateUser_onTable (column : String) (value : Expr (Sql.Query 0)) (key : String) :
    OnTable (taggedContext .reject) taggedColumns ⟨"id", 23⟩
      (statementOf (.update (updateUser column value key))) :=
  ⟨rfl, _, _, _, rfl, rfl, ⟨"public", "users", by decide, by decide⟩, rfl⟩

variable {key : String}

theorem updateUser_integerKeys (column : String) (value : Expr (Sql.Query 0))
    (digits : key.toList.all Char.isDigit = true) :
    IntegerKeys (taggedContext .reject) taggedColumns ⟨"id", 23⟩ comparingServer
      (statementOf (.update (updateUser column value key))) := by
  rintro name args named target condition ⟨⟩ reference operand picked
  cases target
  rw [pinned, if_pos (by rfl)] at picked
  obtain ⟨_, same⟩ := Option.ite_none_right_eq_some.mp picked
  cases same
  exact ⟨digits, fun apart => absurd rfl (apart .int4)⟩

theorem updateUser_executes {column : String} {value : Expr (Sql.Query 0)} {old new : Row}
    (selected : ∀ condition ∈ (updateUser column value key).selection,
      holds comparingServer ⟨"id", 23⟩
        (updateFrame (updateUser column value key) (fun _ _ => true) old) condition = true)
    (given : Gives comparingServer
      (kindOf ⟨"id", 23⟩ taggedColumns (normalize (Ident.plain column)))
      (updateFrame (updateUser column value key) (fun _ _ => true) old)
    (normalize (Ident.plain column))
      value (new (normalize (Ident.plain column))))
    (kept : ∀ other, other ≠ normalize (Ident.plain column) → new other = old other) :
    Executes comparingServer ⟨"id", 23⟩ (kindOf ⟨"id", 23⟩ taggedColumns) (fun _ _ => true)
      (statementOf (.update (updateUser column value key))) [old] [new] := by
  refine .update (.cons (.updated selected ⟨List.nodup_singleton _, ?_, ?_⟩) .nil)
  · intro entry listed expr held
    cases List.mem_singleton.mp listed
    cases held
    exact given
  · intro other unlisted
    exact kept other fun same => unlisted (List.mem_singleton.mpr same)

theorem upsert_integerKeys :
    IntegerKeys (taggedContext .reject) taggedColumns ⟨"id", 23⟩ comparingServer
      (.insert (upsertOn "id")) := by
  intro values held entry listed named _ _
  cases List.mem_singleton.mp held
  simp only [upsertOn, List.zip_cons_cons, List.zip_nil_right, List.mem_cons, List.not_mem_nil,
    or_false] at listed
  rcases listed with rfl | rfl | rfl
  · exact ⟨rfl, fun apart => absurd rfl (apart .int4)⟩
  · exact absurd named (by decide)
  · exact absurd named (by decide)

theorem upsert_step :
    Step (Encrypts taggedColumns) taggedSealings ⟨"id", 23⟩ (sentPlain (.insert (upsertOn "id"))) []
      [userRow 0x36 (some [1, 1, 0x36, 0x70])] where
  rejecting := rfl
  onTable := ⟨rfl, ⟨"public", "users", by decide, by decide⟩, rfl⟩
  integers := upsert_integerKeys
  encrypted _ := Iff.rfl
  conforms := tagged_conforms
  executed := ⟨.insert (upsertRelayed "id"), true, .empty, rfl, upsert_received _,
    .insert rfl (.stored _ (upsert_proposes "id") (.done _))⟩

theorem email_step :
    Step (Encrypts taggedColumns) taggedSealings ⟨"id", 23⟩
      (sentPlain (.update (updateUser "email" (.value (.singleQuoted "q")) "6")))
      [userRow 0x36 (some [1, 1, 0x36, 0x70])] [userRow 0x36 (some [1, 1, 0x36, 0x71])] where
  rejecting := rfl
  onTable := updateUser_onTable _ _ _
  integers := updateUser_integerKeys _ _ (by decide)
  encrypted _ := Iff.rfl
  conforms := tagged_conforms
  executed := by
    refine ⟨.update (updateUser "email" (byteaLiteral [1, 1, 0x36, 0x71]) "6"), true, .empty, rfl,
      upsert_received _, updateUser_executes ?_ ?_ ?_⟩
    · rintro condition ⟨⟩
      decide
    · rfl
    · intro other apart
      have apart : other ≠ "email" := apart
      simp only [userRow, if_neg apart]

theorem upsert_then_update_stays_sealed :
    Run (Encrypts taggedColumns) taggedSealings ⟨"id", 23⟩
        [sentPlain (.insert (upsertOn "id")),
          sentPlain (.update (updateUser "email" (.value (.singleQuoted "q")) "6"))] []
        [userRow 0x36 (some [1, 1, 0x36, 0x71])] ∧
      TableSealed (Encrypts taggedColumns) taggedSealings ⟨"id", 23⟩
        [userRow 0x36 (some [1, 1, 0x36, 0x71])] := by
  have run := Run.cons upsert_step (.cons email_step (.nil _))
  refine ⟨run, run_keeps_rows_sealed _ _ _ _ _ _ run ?_ nofun⟩
  intro sent listed
  simp only [List.mem_cons, List.not_mem_nil, or_false] at listed
  rcases listed with rfl | rfl
  · exact rfl
  · exact rfl

/-- `UPDATE users SET id = 6 WHERE id = 5` assigns no protected column, so it is relayed
as it is, and row 6 keeps a value that is sealed for row 5. -/
theorem row_key_assignment_leaves_value_behind :
    Run (Encrypts taggedColumns) taggedSealings ⟨"id", 23⟩
        [sentPlain (.update (updateUser "id" (.value (.number "6")) "5"))]
        [userRow 0x35 (some [1, 1, 0x35, 0x70])] [userRow 0x36 (some [1, 1, 0x35, 0x70])] ∧
      TableSealed (Encrypts taggedColumns) taggedSealings ⟨"id", 23⟩
        [userRow 0x35 (some [1, 1, 0x35, 0x70])] ∧
      ¬ TableSealed (Encrypts taggedColumns) taggedSealings ⟨"id", 23⟩
        [userRow 0x36 (some [1, 1, 0x35, 0x70])] := by
  have sealedFor : SealedFor taggedSealings "email" (some ⟨[0x35]⟩) [1, 1, 0x35, 0x70] :=
    ⟨taggedTransform, [0x70], ⟨rfl, rfl⟩, rfl⟩
  refine ⟨.cons ⟨rfl, updateUser_onTable _ _ _, updateUser_integerKeys _ _ (by decide),
    fun _ => Iff.rfl, tagged_conforms, .update (updateUser "id" (.value (.number "6")) "5"), false,
    .empty, rfl, upsert_received _, updateUser_executes ?_ ?_ ?_⟩ (.nil _), ?_, ?_⟩
  · rintro condition ⟨⟩
    decide
  · rfl
  · intro other apart
    have apart : other ≠ "id" := apart
    simp only [userRow, if_neg apart]
  · intro row listed column stored encrypts there _
    cases List.mem_singleton.mp listed
    obtain ⟨transform, guarded, _⟩ := encrypts
    by_cases same : column = "email"
    · subst same
      cases there
      exact ⟨⟨[0x35]⟩, rfl, sealedFor⟩
    · rw [taggedColumns, Table.get_put_ne _ _ (Ne.symm same)] at guarded
      cases guarded
  · intro after
    obtain ⟨key, held, _, plaintext, ⟨_, rfl⟩, sealedHere⟩ := after _ (List.mem_singleton.mpr rfl)
      "email" [1, 1, 0x35, 0x70] ⟨taggedTransform, rfl, rfl⟩ rfl ⟨_, sealedFor⟩
    obtain ⟨bytes⟩ := key
    cases Option.some.inj held
    cases sealedHere

end Dbsec.RowRuns
