import Dbsec.SealedWrites
import Dbsec.References

/-! `COPY (query) TO`: the tables the check of proxy/src/encrypt/query.rs collects against
the tables the query reads. The check visits exactly the names whose rows stream
through FROM, WITH and set operations. -/
namespace Dbsec.CopyReads
open Sql Params Unprotected Catalog Accumulate Rewrite QueryWalk Statements References SealedWrites

def streamedNames (references : List Reference) : List ObjectName :=
  (references.filter fun reference => reference.use = .streamed).map (·.name)

section Names

@[simp]
theorem streamedNames_append (first second : List Reference) :
    streamedNames (first ++ second) = streamedNames first ++ streamedNames second := by
  simp [streamedNames]

@[simp]
theorem streamedNames_flatMap {Item : Type} (items : List Item) (each : Item → List Reference) :
    streamedNames (items.flatMap each) = items.flatMap fun item => streamedNames (each item) := by
  induction items with
  | nil => rfl
  | cons item rest ih => simp [ih]

theorem enclosed_not_streamed (reference : Reference) : reference.enclosed.use ≠ .streamed := by
  unfold Reference.enclosed
  split
  · nofun
  · assumption

@[simp]
theorem streamedNames_enclosed (references : List Reference) :
    streamedNames (references.map (·.enclosed)) = [] := by
  unfold streamedNames
  rw [List.map_eq_nil_iff, List.filter_eq_nil_iff]
  intro reference listed
  obtain ⟨inner, _, rfl⟩ := List.mem_map.mp listed
  simpa using enclosed_not_streamed inner

@[simp]
theorem streamedNames_inExprs {Query : Type} (ofQuery : Query → List Reference)
    (exprs : List (Expr Query)) : streamedNames (inExprs ofQuery exprs) = [] :=
  streamedNames_enclosed _

theorem mem_streamedNames {references : List Reference} {name : ObjectName} :
    name ∈ streamedNames references ↔
      ∃ reference ∈ references, reference.use = .streamed ∧ reference.name = name := by
  simp [streamedNames, and_assoc]

end Names

section Collected
variable {Query Statement : Type} {context : Context}

/-- The tables reported for a list of names, in the order they are met. -/
def record (context : Context) (names : List ObjectName) (found : List String) :
    Except Rejection (List String) :=
  names.foldlM (fun found name => recordCopiedTable context name found) found

theorem record_append (first second : List ObjectName) (found : List String) :
    record context (first ++ second) found = record context first found >>=
      record context second := by
  unfold record
  rw [List.foldlM_append]

variable {copiedTables : Query → List String → Except Rejection (List String)}
  {ofQuery : Query → List Reference} {ctes : List String}

mutual
theorem copiedFromFactor_eq
    (queries : ∀ query found,
      copiedTables query found = record context (streamedNames (ofQuery query)) found) :
    ∀ (factor : TableFactor Query) (found : List String),
      copiedFromFactor context copiedTables factor found =
        record context (streamedNames (factorReferences ofQuery ctes factor)) found
  | .table name none named, found => by
      simp [copiedFromFactor, factorReferences, streamedNames, record]
  | .table name (some args) named, found => by
      have split : factorReferences ofQuery ctes (.table name (some args) named) =
        [⟨name, .call, .streamed⟩] ++ inExprs ofQuery args := rfl
      rw [split, streamedNames_append, streamedNames_inExprs]
      simp [copiedFromFactor, streamedNames, record]
  | .derived _ subquery _, found => queries subquery found
  | .nestedJoin inner _, found => copiedFromTable_eq queries inner found
  | .reshaped inner, found => copiedFromFactor_eq queries inner found
  | .computed args _, found => by
      simp [copiedFromFactor, factorReferences, record]

theorem copiedFromJoins_eq
    (queries : ∀ query found,
      copiedTables query found = record context (streamedNames (ofQuery query)) found) :
    ∀ (joins : List (Join Query)) (found : List String),
      copiedFromJoins context copiedTables joins found =
        record context (streamedNames (joinsReferences ofQuery ctes joins)) found
  | [], found => rfl
  | .mk relation operator :: rest, found => by
      have tail : copiedFromJoins context copiedTables rest =
          record context (streamedNames (joinsReferences ofQuery ctes rest)) :=
        funext (copiedFromJoins_eq queries rest)
      rw [copiedFromJoins, joinsReferences, streamedNames_append, streamedNames_append,
        streamedNames_inExprs, List.append_nil, record_append,
        copiedFromFactor_eq queries relation found, tail]

theorem copiedFromTable_eq
    (queries : ∀ query found,
      copiedTables query found = record context (streamedNames (ofQuery query)) found) :
    ∀ (table : TableWithJoins Query) (found : List String),
      copiedFromTable context copiedTables table found =
        record context (streamedNames (tableReferences ofQuery ctes table)) found
  | .mk relation joins, found => by
      have tail : copiedFromJoins context copiedTables joins =
          record context (streamedNames (joinsReferences ofQuery ctes joins)) :=
        funext (copiedFromJoins_eq queries joins)
      rw [copiedFromTable, tableReferences, streamedNames_append, record_append,
        copiedFromFactor_eq queries relation found, tail]
end

theorem foldlM_record {Item : Type} (items : List Item)
    {visit : List String → Item → Except Rejection (List String)} {names : Item → List ObjectName}
    (each : ∀ item found, visit found item = record context (names item) found)
    (found : List String) :
    items.foldlM visit found = record context (items.flatMap names) found := by
  induction items generalizing found with
  | nil => rfl
  | cons item rest ih =>
    rw [List.foldlM_cons, List.flatMap_cons, record_append, each item found]
    exact congrArg _ (funext ih)

variable {lookups : Lookups Query Statement}

theorem copiedInSetExpr_eq
    (queries : ∀ query found,
      copiedTables query found = record context (streamedNames (lookups.ofQuery ctes query)) found)
    (body : SetExpr Query Statement) (found : List String) :
    copiedInSetExpr context copiedTables body found =
      record context (streamedNames (setExprReferences lookups ctes body)) found := by
  induction body generalizing found with
  | select select =>
    rw [setExprReferences, streamedNames_append, streamedNames_inExprs, List.append_nil,
      streamedNames_flatMap]
    exact foldlM_record select.fromTables
      (fun table found => copiedFromTable_eq queries table found)
      found
  | query query => exact queries query found
  | setOperation left right leftIH rightIH =>
    rw [copiedInSetExpr, setExprReferences, streamedNames_append, record_append, leftIH found]
    exact congrArg _ (funext rightIH)
  | values rows =>
    have silent : streamedNames (setExprReferences lookups ctes (.values rows)) = [] := by
      rw [setExprReferences, streamedNames_flatMap, List.flatMap_eq_nil_iff]
      exact fun row _ => streamedNames_inExprs _ row
    rw [silent]
    rfl
  | insert statement => simp [copiedInSetExpr, setExprReferences, record]
  | update statement => simp [copiedInSetExpr, setExprReferences, record]
  | table schemaName tableName =>
    cases tableName with
    | none => rfl
    | some tableName => simp [copiedInSetExpr, setExprReferences, streamedNames, record]

theorem foldlM_ctes_eq
    (queries : ∀ ctes query found,
      copiedTables query found = record context (streamedNames (lookups.ofQuery ctes query)) found)
    (query : QueryNode Query Statement) (found : List String) :
    query.ctes.foldlM (fun found cte => copiedTables cte.query found) found =
      record context (streamedNames (withReferences lookups ctes query)) found := by
  unfold withReferences
  split
  · rw [streamedNames_flatMap]
    exact foldlM_record query.ctes (fun cte found => queries _ cte.query found) found
  · induction query.ctes generalizing ctes found with
    | nil => rfl
    | cons cte rest ih =>
      rw [List.foldlM_cons, cteReferences, streamedNames_append, record_append,
        queries ctes cte.query found]
      exact congrArg _ (funext fun found => ih found)

theorem copiedTablesNode_eq
    (queries : ∀ ctes query found,
      copiedTables query found = record context (streamedNames (lookups.ofQuery ctes query)) found)
    (query : QueryNode Query Statement) (found : List String) :
    copiedTablesNode context copiedTables query found =
      record context (streamedNames (queryReferences lookups ctes query)) found := by
  have body : copiedInSetExpr context copiedTables query.body =
      record context
        (streamedNames (setExprReferences lookups (visibleCtes ctes query) query.body)) :=
    funext (copiedInSetExpr_eq (queries _) query.body)
  rw [copiedTablesNode, queryReferences, streamedNames_append, streamedNames_inExprs,
    List.append_nil, streamedNames_append, record_append, foldlM_ctes_eq queries query found, body]

theorem copiedTables_eq (context : Context) (depth : Nat) (ctes : List String)
    (query : Sql.Query depth) (found : List String) :
    (walks context depth).copiedTables query found =
      record context (streamedNames ((References.lookups depth).ofQuery ctes query)) found := by
  induction depth generalizing ctes found with
  | zero => nomatch query
  | succ depth ih =>
    exact copiedTablesNode_eq (fun ctes query found => ih ctes query found) query found

end Collected

section Decision
variable {context : Context}

/-- Whether the proxy takes a name for a read-protected table, or for one that may be
once `search_path` was changed. -/
def takenForProtected (context : Context) (name : ObjectName) : Bool :=
  if context.searchPathTrusted || 1 < name.length then context.catalog.protectsReads name
  else context.catalog.mayProtectReads name

def Refused {Value : Type} (outcome : Except Rejection Value) : Prop :=
  ∃ message, outcome = .error (.refused message)

theorem refused_map_iff {Value Result : Type} (outcome : Except Rejection Value)
    (convert : Value → Result) : Refused (outcome.map convert) ↔ Refused outcome := by
  cases outcome with
  | error cause => simp [Refused, Except.map]
  | ok value => simp [Refused, Except.map]

theorem unprotected_refused (rejects : context.catalog.onUnprotected = .reject) (site : Site) :
    context.unprotected site = .error (.refused (site.message context.display)) := by
  unfold Context.unprotected
  rw [rejects]
  rfl

/-- One name under `reject`: the statement is refused on the spot or the name is
collected when it is taken for a protected table, and left alone otherwise. -/
theorem recordCopiedTable_reject (rejects : context.catalog.onUnprotected = .reject)
    (name : ObjectName) (found : List String) :
    (takenForProtected context name = false ∧ recordCopiedTable context name found = .ok found) ∨
      (takenForProtected context name = true ∧
        (Refused (recordCopiedTable context name found) ∨
          ∃ grown, recordCopiedTable context name found = .ok grown ∧ grown ≠ [])) := by
  unfold takenForProtected recordCopiedTable Context.readsProtected Context.lookUp
    Context.reportBare
  by_cases looked : (context.searchPathTrusted || decide (1 < name.length)) = true
  · simp only [looked, if_true]
    cases context.catalog.protectsReads name with
    | false => exact .inl ⟨rfl, rfl⟩
    | true =>
      refine .inr ⟨rfl, .inr ?_⟩
      by_cases listed : found.contains (context.display name) = true
      · refine ⟨found, congrArg Except.ok (if_pos listed), ?_⟩
        rintro rfl
        cases listed
      · exact ⟨found ++ [context.display name], congrArg Except.ok (if_neg listed), by simp⟩
  · simp only [looked]
    cases context.catalog.mayProtectReads name with
    | false => exact .inl ⟨rfl, rfl⟩
    | true =>
      refine .inr ⟨rfl, .inl ⟨(Site.searchPath name).message context.display, ?_⟩⟩
      simp only [if_true, unprotected_refused rejects]
      rfl

/-- The names of a query under `reject`: nothing is collected exactly when no name is
taken for a protected table. -/
theorem record_reject (rejects : context.catalog.onUnprotected = .reject)
    (names : List ObjectName) (found : List String) :
    Refused (record context names found) ∧ (∃ name ∈ names, takenForProtected context name = true) ∨
      ∃ grown, record context names found = .ok grown ∧
        (grown ≠ [] ↔ found ≠ [] ∨ ∃ name ∈ names, takenForProtected context name = true) := by
  induction names generalizing found with
  | nil => exact .inr ⟨found, rfl, by simp⟩
  | cons name rest ih =>
    have step : record context (name :: rest) found =
        recordCopiedTable context name found >>= record context rest := rfl
    rcases recordCopiedTable_reject rejects name found with
      ⟨passed, same⟩ | ⟨taken, ⟨message, stopped⟩ | ⟨middle, grew, some⟩⟩
    · rw [step, same]
      rcases ih found with ⟨refused, other, listed, matched⟩ | ⟨grown, done, iff⟩
      · exact .inl ⟨refused, other, List.mem_cons_of_mem _ listed, matched⟩
      · exact .inr ⟨grown, done, by simpa [passed] using iff⟩
    · rw [step, stopped]
      exact .inl ⟨⟨message, rfl⟩, name, List.mem_cons_self .., taken⟩
    · rw [step, grew]
      rcases ih middle with ⟨refused, other, listed, matched⟩ | ⟨grown, done, iff⟩
      · exact .inl ⟨refused, other, List.mem_cons_of_mem _ listed, matched⟩
      · exact .inr ⟨grown, done, by simpa [taken] using iff.mpr (.inl some)⟩

variable {depth : Nat}

theorem reportCopied_reject (rejects : context.catalog.onUnprotected = .reject)
    (query : Sql.Query (depth + 1)) :
    (Refused (reportCopied context (walks context depth) query) ∧
        ∃ name ∈ streamedNames ((References.lookups (depth + 1)).ofQuery [] query),
          takenForProtected context name = true) ∨
      (reportCopied context (walks context depth) query = .ok () ∧
        ¬ ∃ name ∈ streamedNames ((References.lookups (depth + 1)).ofQuery [] query),
          takenForProtected context name = true) := by
  have collected : copiedTablesNode context (walks context depth).copiedTables query [] =
      record context (streamedNames ((References.lookups (depth + 1)).ofQuery [] query)) [] :=
    copiedTables_eq context (depth + 1) [] query []
  unfold reportCopied
  rw [collected]
  rcases record_reject rejects _ [] with ⟨⟨message, stopped⟩, taken⟩ | ⟨grown, done, iff⟩
  · rw [stopped]
    exact .inl ⟨⟨message, rfl⟩, taken⟩
  · rw [done]
    cases grown with
    | nil => exact .inr ⟨rfl, fun taken => iff.mpr (.inr taken) rfl⟩
    | cons table rest =>
      have taken := (iff.mp (by simp)).resolve_left (by simp)
      refine .inl ⟨⟨(Site.copyQuery table).message context.display, ?_⟩, taken⟩
      simp only [unprotected_refused rejects]
      rfl

end Decision

section Reads
variable {context : Context} {schemaOf : String → String}

def Reference.Reads (reference : Reference) : Prop :=
  reference.binding = .table ∧ reference.use ≠ .target

def Reference.Hidden (reference : Reference) : Prop :=
  Reference.Reads reference ∧ reference.use ≠ .streamed

theorem takenForProtected_of_readProtected (agrees : Agrees context schemaOf) {name : ObjectName}
    (guarded : ReadProtected context.catalog schemaOf name) :
    takenForProtected context name = true := by
  obtain ⟨key, denoted, held⟩ := guarded
  unfold takenForProtected
  split
  · rename_i looked
    rw [denotes_eq_resolvedName agrees looked] at denoted
    simpa [WriteCatalog.protectsReads, denoted] using held
  · obtain ⟨ident, last, same⟩ := denotes_table denoted
    simpa [WriteCatalog.mayProtectReads, last, ← same] using context.catalog.bare_of_read key held

variable {depth : Nat}

/-- A COPY source is refused for what streams from it, or for what would have been
refused in the query on its own. -/
theorem copyQuery_refused_iff (rejects : context.catalog.onUnprotected = .reject)
    (query : Sql.Query (depth + 1)) (params : ParamTransforms) :
    Refused (@rewriteStatement context (depth + 1) (.copyQuery query true) params) ↔
      (∃ name ∈ streamedNames ((References.lookups (depth + 1)).ofQuery [] query),
        takenForProtected context name = true) ∨
        Refused (@rewriteStatement context (depth + 1) (.query query) params) := by
  have checked := reportCopied_reject rejects query
  have copied : rewriteCopyQuery context (walks context depth) query true params =
      (match reportCopied context (walks context depth) query with
        | .ok _ => rewriteQueryNode context (walks context depth) query params
        | .error cause => .error cause) := by
    simp only [rewriteCopyQuery, bind, StateT.bind, if_true]
    cases reportCopied context (walks context depth) query <;> rfl
  have outer : @rewriteStatement context (depth + 1) (.copyQuery query true) params =
      (rewriteCopyQuery context (walks context depth) query true params).map fun result =>
        ((.copyQuery result.1.1 true, result.1.2), result.2) := rfl
  have plain : @rewriteStatement context (depth + 1) (.query query) params =
      (rewriteQueryNode context (walks context depth) query params).map fun result =>
        ((.query result.1.1, result.1.2), result.2) := rfl
  rw [outer, plain, copied, refused_map_iff, refused_map_iff]
  rcases checked with ⟨⟨message, stopped⟩, taken⟩ | ⟨passed, none⟩
  · rw [stopped]
    exact ⟨fun _ => .inl taken, fun _ => ⟨message, rfl⟩⟩
  · rw [passed]
    exact ⟨.inr, fun either => either.resolve_left none⟩

theorem references_copyQuery (query : Sql.Query (depth + 1)) :
    @references (depth + 1) (.copyQuery query true) =
      (References.lookups (depth + 1)).ofQuery [] query := rfl

/-- COPY of a query that reads a protected table is refused exactly when, should it read
one out of the check's sight, it also streams a name taken for a protected table, or
is a query that is refused outside COPY as well. -/
theorem copied_reads_refused_iff (rejects : context.catalog.onUnprotected = .reject)
    (agrees : Agrees context schemaOf) (query : Sql.Query (depth + 1)) (params : ParamTransforms) :
    ((∃ reference ∈ @references (depth + 1) (.copyQuery query true),
        Reference.Reads reference ∧ ReadProtected context.catalog schemaOf reference.name) →
      Refused (@rewriteStatement context (depth + 1) (.copyQuery query true) params)) ↔
    ((∃ reference ∈ @references (depth + 1) (.copyQuery query true),
        Reference.Hidden reference ∧ ReadProtected context.catalog schemaOf reference.name) →
      (∃ reference ∈ @references (depth + 1) (.copyQuery query true),
        reference.use = .streamed ∧ takenForProtected context reference.name = true) ∨
      Refused (@rewriteStatement context (depth + 1) (.query query) params)) := by
  have streamed : (∃ name ∈ streamedNames ((References.lookups (depth + 1)).ofQuery [] query),
      takenForProtected context name = true) ↔
      ∃ reference ∈ @references (depth + 1) (.copyQuery query true),
        reference.use = .streamed ∧ takenForProtected context reference.name = true := by
    rw [references_copyQuery]
    constructor
    · rintro ⟨name, listed, taken⟩
      obtain ⟨reference, held, use, rfl⟩ := mem_streamedNames.mp listed
      exact ⟨reference, held, use, taken⟩
    · rintro ⟨reference, held, use, taken⟩
      exact ⟨reference.name, mem_streamedNames.mpr ⟨reference, held, use, rfl⟩, taken⟩
  rw [copyQuery_refused_iff rejects query params, streamed]
  constructor
  · rintro claim ⟨reference, held, ⟨reads, _⟩, guarded⟩
    exact claim ⟨reference, held, reads, guarded⟩
  · rintro condition ⟨reference, held, reads, guarded⟩
    by_cases use : reference.use = .streamed
    · exact .inl ⟨reference, held, use, takenForProtected_of_readProtected agrees guarded⟩
    · exact condition ⟨reference, held, ⟨reads, use⟩, guarded⟩

end Reads

section Samples

/-- `SELECT email FROM users`. -/
def selectEmail {Query Statement : Type} : QueryNode Query Statement :=
  ⟨false, [], .select ⟨[.unnamed (.identifier (.plain "email"))],
    [.mk (.table [.plain "users"] none none) []], none, .expressions [], none, []⟩, [], []⟩

/-- `SELECT (SELECT email FROM users)`. -/
def selectSubquery : Sql.Query 2 :=
  (⟨false, [], .select ⟨[.unnamed (.subquery selectEmail)], [], none, .expressions [], none, []⟩,
    [], []⟩ : QueryNode (Sql.Query 1) (Sql.Statement 1))

theorem copy_of_table_query_refused :
    Refused (@rewriteStatement (plainContext [usersEmail] .reject) 1 (.copyQuery selectEmail true)
      .empty) := by
  have reads : ∃ reference ∈ @references 1 (.copyQuery selectEmail true),
      Reference.Reads reference ∧ ReadProtected (plainContext [usersEmail] .reject).catalog
        (fun _ => "public") reference.name :=
    ⟨⟨[.plain "users"], .table, .streamed⟩, by decide, ⟨rfl, by decide⟩,
      ("public", "users"), by decide, by decide⟩
  refine (copied_reads_refused_iff rfl (fun _ _ => rfl) selectEmail .empty).mpr ?_ reads
  rintro ⟨reference, held, ⟨_, hidden⟩, _⟩
  simp [references, References.lookups, statementReferences, queryReferences, withReferences,
    cteReferences, setExprReferences, selectEmail, tableReferences, factorReferences,
    joinsReferences, inExprs, selectExprs, itemExprs, groupExprs, exprQueries] at held
  simp [held] at hidden

theorem copy_of_scalar_subquery_relayed :
    (∃ reference ∈ @references 2 (.copyQuery selectSubquery true),
      Reference.Reads reference ∧ ReadProtected (plainContext [usersEmail] .reject).catalog
        (fun _ => "public") reference.name) ∧
    (@rewriteStatement (plainContext [usersEmail] .reject) 2 (.copyQuery selectSubquery true)
      .empty) = .ok ((.copyQuery selectSubquery true, false), .empty) := by
  refine ⟨⟨⟨[.plain "users"], .table, .nested⟩, by decide, ⟨rfl, by decide⟩,
    ("public", "users"), by decide, by decide⟩, rfl⟩

end Samples

end Dbsec.CopyReads
