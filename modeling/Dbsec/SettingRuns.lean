import Dbsec.SettingMoves

/-! Runs of a session that moves its settings: each text goes through the rewriter and,
unless it is refused, on to the server. The rewriter's two flags follow the server's
settings as long as every assignment that is made is written so that the scan can read it,
and no text that goes on unread moves a setting. -/
namespace Dbsec.SettingRuns
open Framing Params Text Settings Lexer Batch Catalog Rewrite SettingMoves

section Statements

variable {token : Token}

theorem keyword_other {spelled : String} (other : String) (same : isKeyword token spelled = true)
    (apart : equalIgnoringCase spelled.toList other.toList = false) :
    isKeyword token other = false := by
  unfold isKeyword at same ⊢
  cases read : keyword token with
  | none => rfl
  | some word =>
    rw [read, Option.any_some] at same
    rw [Option.any_some, equal_known same, apart]

variable {scope : List Token}

theorem afterScope_scope {rest : List Token} (inScope : IsScope scope)
    (session : isKeyword token "session" = false) (locally : isKeyword token "local" = false) :
    afterScope (scope ++ token :: rest) = token :: rest := by
  rcases inScope with rfl | ⟨word, rfl, named⟩
  · rw [List.nil_append, afterScope, session, locally]
    rfl
  · rw [List.singleton_append, afterScope, if_pos (by simpa using named)]

variable {assigned : Assigned} {name : List Char} {values : List (List Char)}

theorem known_name (ran : assignList name values = some assigned) :
    equalIgnoringCase name searchPath = true ∨
      equalIgnoringCase name standardConformingStrings = true := by
  unfold assignList at ran
  split at ran
  · exact .inl ‹_›
  · split at ran
    · exact .inr ‹_›
    · cases ran

theorem known_not_word (ran : assignList name values = some assigned) {other : List Char}
    (apart : equalIgnoringCase searchPath other = false ∧
      equalIgnoringCase standardConformingStrings other = false) :
    equalIgnoringCase name other = false := by
  rcases known_name ran with same | same
  · rw [equal_known same, apart.1]
  · rw [equal_known same, apart.2]

theorem equal_lower (text other : List Char) :
    equalIgnoringCase (text.map asciiLower) other = equalIgnoringCase text other := by
  simp only [equalIgnoringCase, List.map_map, Function.comp_def, asciiLower_idem]

theorem assignList_lower (text : List Char) (values : List (List Char)) :
    assignList (text.map asciiLower) values = assignList text values := by
  simp only [assignList, equal_lower]

variable {statement : List Token} {setting : SettingMoved}

theorem set_reported {text : List Char} {items : List SetItem}
    (stands : (Site.set scope (.bare text) items).Within statement)
    (plain : equalIgnoringCase text searchPath = true → ∀ item ∈ items, item.Plain)
    (ran : assignList text (items.map SetItem.value) = some assigned)
    (moving : Moving assigned setting) : setting ∈ statementSettingsMoved statement := by
  obtain ⟨inScope, _, first, separator, opens, separates, rfl⟩ := stands
  apply @movedFrom_at []
  have passed : afterScope (scope ++ .word text false :: separator :: listTokens items) =
      .word text false :: separator :: listTokens items :=
    afterScope_scope inScope (known_not_word ran (by decide)) (known_not_word ran (by decide))
  have notSchema : equalIgnoringCase text "schema".toList = false :=
    known_not_word ran (by decide)
  have joined : (separator = .eq || isKeyword separator "to") = true := by
    simpa using separates
  simp only [Spelling.tokens, List.singleton_append, movedAt, List.isEmpty_nil, Bool.and_true,
    opens, if_true, setStatement, passed, keyword, Option.bind_eq_bind, Option.bind_some,
    notSchema, joined]
  exact list_moved plain ran moving

theorem schema_reported {item : SetItem} (stands : (Site.schema scope item).Within statement)
    (plain : item.Plain) (moving : Moving (.path [item.value]) setting) :
    setting ∈ statementSettingsMoved statement := by
  obtain ⟨inScope, _, first, schema, opens, named, rfl⟩ := stands
  apply @movedFrom_at []
  have passed : afterScope (scope ++ schema :: item.tokens) = schema :: item.tokens :=
    afterScope_scope inScope (keyword_other "session" named (by decide))
      (keyword_other "local" named (by decide))
  obtain ⟨word, read, spelled⟩ : ∃ word, keyword schema = some word ∧
      equalIgnoringCase word "schema".toList = true := by
    simpa [isKeyword, Option.any_eq_true] using named
  simp only [movedAt, List.isEmpty_nil, Bool.and_true, opens, if_true, setStatement, passed,
    read, Option.bind_eq_bind, Option.bind_some, spelled]
  exact @list_moved searchPath [item] _ _ (fun _ other listed => by
    rwa [List.mem_singleton.mp listed]) rfl moving

variable {value : StringExpr}

theorem call_unread {name : StringExpr} {after : List Token}
    (expression : ∀ text, name.tokens ≠ [.singleQuoted text]) :
    setConfigCall (.lParen :: (name.tokens ++ .comma :: (value.tokens ++ .comma :: after))) =
      some .searchPath := by
  cases shape : name.tokens with
  | nil => exact absurd shape name.nonempty
  | cons head tail =>
    cases head with
    | singleQuoted text =>
      cases tail with
      | nil => exact absurd shape (expression text)
      | cons next more =>
        cases next with
        | comma => exact absurd shape (name.single text more)
        | _ => rfl
    | _ => rfl

/-- What a call of `set_config` under its bare name is reported for. -/
theorem movedAt_call {text : List Char} {rest : List Token} {isStart : Bool}
    (named : text.map asciiLower = "set_config".toList) :
    movedAt isStart (.word text false) rest = setConfigCall rest := by
  have called : isKeyword (.word text false) "set_config" = true := by
    change equalIgnoringCase text "set_config".toList = true
    rw [← equal_lower, named]
    decide
  have notSet : isKeyword (.word text false) "set" = false :=
    keyword_other "set" called (by decide)
  rw [movedAt, notSet, Bool.and_false, if_neg (by decide), if_pos called]

theorem call_reported {text : List Char} {name : StringExpr}
    (stands : (Site.call (.bare text) name value).Within statement)
    (plain : (Site.call (.bare text) name value).Plain)
    (ran : assignText name.value value.value = some assigned) (moving : Moving assigned setting) :
    setting ∈ statementSettingsMoved statement := by
  obtain ⟨named, before, after, rfl⟩ := stands
  rw [Spelling.tokens, List.singleton_append]
  apply movedFrom_at
  rw [movedAt_call named]
  rcases plain.2 with ⟨⟨text, literal, unescaped⟩, valued⟩ | ⟨expression, notStrings⟩
  · cases shape : value.tokens with
    | nil => exact absurd shape value.nonempty
    | cons head tail =>
      rw [name.literal text literal unescaped] at ran
      rw [literal]
      exact text_moved valued shape ran moving
  · rw [call_unread expression]
    rcases assignText_moving ran moving with ⟨_, rfl, _⟩ | ⟨strings, _⟩
    · rfl
    · rw [notStrings] at strings
      cases strings

/-- A named argument begins with a word, so the call is reported as a move of `search_path`. -/
theorem namedCall_reported {text name value : List Char} {argument : Spelling}
    (stands : (Site.namedCall (.bare text) argument name value).Within statement)
    (notStrings : equalIgnoringCase name standardConformingStrings = false)
    (ran : assignText name value = some assigned) (moving : Moving assigned setting) :
    setting ∈ statementSettingsMoved statement := by
  obtain ⟨named, before, after, rfl⟩ := stands
  rw [Spelling.tokens, List.singleton_append]
  apply movedFrom_at
  rw [movedAt_call named]
  have unread : setConfigCall (.lParen :: (argument.tokens ++ after)) = some .searchPath := by
    cases argument <;> rfl
  rw [unread]
  rcases assignText_moving ran moving with ⟨_, rfl, _⟩ | ⟨strings, _⟩
  · rfl
  · rw [notStrings] at strings
    cases strings

theorem site_reported {site : Site} (stands : site.Within statement) (plain : site.Plain)
    (ran : site.assigned = some assigned) (moving : Moving assigned setting) :
    setting ∈ statementSettingsMoved statement := by
  cases site with
  | set scope name items =>
    obtain ⟨⟨text, rfl⟩, plainItems⟩ := plain
    rw [Spelling.name, equal_lower] at plainItems
    rw [Site.assigned, Spelling.name, assignList_lower] at ran
    exact set_reported stands plainItems ran moving
  | schema scope item =>
    cases ran
    exact schema_reported stands plain moving
  | call function name value =>
    obtain ⟨text, rfl⟩ := plain.1
    exact call_reported stands plain ran moving
  | namedCall function argument name value =>
    obtain ⟨⟨text, rfl⟩, notStrings⟩ := plain
    exact namedCall_reported stands notStrings ran moving

theorem executes_reported {server after : Server}
    (ran : Executes Site.Plain statement server after) (moved : after.Moved setting) :
    server.Moved setting ∨ setting ∈ statementSettingsMoved statement := by
  induction ran with
  | done => exact .inl moved
  | assign stands plain assigned _ ih =>
    rcases ih moved with before | reported
    · rcases Server.assign_moved before with held | moving
      · exact .inl held
      · exact .inr (site_reported stands plain assigned moving)
    · exact .inr reported

end Statements

section Flags

def Noted (context : Context) : SettingMoved → Prop
  | .searchPath => context.searchPathTrusted = false
  | .escapeStrings => context.escapeStrings = true

theorem noteSetting_noted (context : Context) (setting : SettingMoved) :
    Noted (noteSetting context setting) setting := by
  cases setting <;> rfl

variable {context : Context} {setting : SettingMoved}

theorem noteSetting_keeps (other : SettingMoved) (held : Noted context setting) :
    Noted (noteSetting context other) setting := by
  cases setting with
  | searchPath =>
    cases other with
    | searchPath => rfl
    | escapeStrings => exact held
  | escapeStrings =>
    cases other with
    | searchPath => exact held
    | escapeStrings => rfl

variable {noted : Context} {moved : List SettingMoved}

theorem noteSessionState_keeps {outcome : Except Unprotected.Rejection Unit}
    (held : Noted context setting) (ran : noteSessionState context moved = (noted, outcome)) :
    Noted noted setting := by
  induction moved generalizing context with
  | nil =>
    cases ran
    exact held
  | cons first rest ih =>
    rw [noteSessionState] at ran
    split at ran
    · exact ih (noteSetting_keeps first held) ran
    · cases ran
      exact noteSetting_keeps first held

theorem noteSessionState_noted (passed : noteSessionState context moved = (noted, .ok ()))
    (reported : setting ∈ moved) :
    Noted noted setting := by
  induction moved generalizing context with
  | nil => cases reported
  | cons first rest ih =>
    rw [noteSessionState] at passed
    split at passed
    · rcases List.mem_cons.mp reported with rfl | later
      · exact noteSessionState_keeps (noteSetting_noted context setting) passed
      · exact ih passed later
    · cases passed

variable {Statement : Type} {rewrite : Context → Statement → Pass (Statement × Bool)}

theorem rewriteStatements_keeps {context : Context} {params : ParamTransforms}
    {pairs : List (Statement × List SettingMoved)} {setting : SettingMoved}
    (held : Noted context setting) :
    Noted (rewriteStatements rewrite context params pairs).1 setting := by
  induction pairs generalizing context params with
  | nil => exact held
  | cons pair rest ih =>
    rw [rewriteStatements]
    split
    · rename_i noted rejection stopped
      exact noteSessionState_keeps held stopped
    · rename_i noted passed
      have kept := noteSessionState_keeps held passed
      split
      · exact kept
      · exact ih kept

theorem rewriteStatements_noted {last : Context} {params : ParamTransforms}
    {pairs : List (Statement × List SettingMoved)}
    {done : List (Statement × Bool) × ParamTransforms}
    (passed : rewriteStatements rewrite context params pairs = (last, .ok done))
    {pair : Statement × List SettingMoved} (listed : pair ∈ pairs) (reported : setting ∈ pair.2) :
    Noted last setting := by
  induction pairs generalizing context params done with
  | nil => cases listed
  | cons first rest ih =>
    rw [rewriteStatements] at passed
    split at passed
    · cases passed
    · rename_i noted here
      split at passed
      · cases passed
      · rename_i result grown _
        have ends : (rewriteStatements rewrite noted grown rest).1 = last :=
          congrArg Prod.fst passed
        rcases List.mem_cons.mp listed with rfl | later
        · rw [← ends]
          exact rewriteStatements_keeps (noteSessionState_noted here reported)
        · cases tail : rewriteStatements rewrite noted grown rest with
          | mk final outcome =>
            cases outcome with
            | error rejection =>
              rw [tail] at passed
              cases passed
            | ok others =>
              rw [tail] at ends
              cases ends
              exact ih tail later

end Flags

section Sessions

variable {Statement : Type} [DecidableEq Statement]
  (frontend : Frontend Statement) (rewrite : Context → Statement → Pass (Statement × Bool))

/-- Statement `index` of a text is rewritten under the context `seen`. -/
inductive Visits : Context → ParamTransforms → List (Statement × List SettingMoved) → Nat →
    Context →
    Prop where
  | here {context noted : Context} {params : ParamTransforms} {statement : Statement}
      {moved : List SettingMoved} {rest : List (Statement × List SettingMoved)} :
      noteSessionState context moved = (noted, .ok ()) →
      Visits context params ((statement, moved) :: rest) 0 noted
  | later {context noted seen : Context} {params grown : ParamTransforms} {statement : Statement}
      {moved : List SettingMoved} {rest : List (Statement × List SettingMoved)}
      {result : Statement × Bool} {index : Nat} :
      noteSessionState context moved = (noted, .ok ()) →
      rewrite noted statement params = .ok (result, grown) → Visits noted grown rest index seen →
      Visits context params ((statement, moved) :: rest) (index + 1) seen

def upfrontMoves (rewriter : Rewriter) (sql : SqlText) : List SettingMoved :=
  let (moved, parsed) := readSql frontend sql
  rewriter.startupMoved ++ if aligned parsed moved then [] else moved.flatten

structure Read (query : Bytes) (sql : SqlText) (tokens : List Token) : Prop where
  decoded : decode query = some sql
  tokenized : frontend.tokenize sql = .ok tokens

/-- What a session does beyond its texts: which of their assignments are made, and what
the server does with a text that goes on to it unread. -/
structure Conduct where
  makes : Site → Prop
  unread : Server → Server → Prop

def anything : Conduct := ⟨fun _ => True, fun _ _ => True⟩

/-- The scan can read every assignment that is made, and an unread text moves no setting. -/
def readable : Conduct :=
  ⟨Site.Plain, fun before after => ∀ setting, after.Moved setting → before.Moved setting⟩

/-- A session's texts in order: an accepted one runs on the server, a refused one only
leaves its mark on the rewriter. A text that is not UTF-8 or that the tokenizer refuses is
relayed as it came where the policy lets it pass. -/
inductive Session (conduct : Conduct) :
    List Bytes → Rewriter → Server → Rewriter → Server → Prop where
  | done {rewriter : Rewriter} {server : Server} :
      Session conduct [] rewriter server rewriter server
  | relayed {query : Bytes} {queries : List Bytes} {rewriter next last : Rewriter}
      {server middle after : Server} {sql : SqlText} {tokens : List Token}
      {rewritten : Option Bytes} {params : ParamTransforms} :
      Read frontend query sql tokens →
      rewriteSql frontend rewrite rewriter query = (next, .ok (.rewrite rewritten params)) →
      Runs conduct.makes (statementsOf tokens) server middle →
      Session conduct queries next middle last after →
      Session conduct (query :: queries) rewriter server last after
  | unread {query : Bytes} {queries : List Bytes} {rewriter next last : Rewriter}
      {server middle after : Server} {rewritten : Option Bytes} {params : ParamTransforms} :
      (∀ sql tokens, ¬ Read frontend query sql tokens) →
      rewriteSql frontend rewrite rewriter query = (next, .ok (.rewrite rewritten params)) →
      conduct.unread server middle → Session conduct queries next middle last after →
      Session conduct (query :: queries) rewriter server last after
  | refused {query : Bytes} {queries : List Bytes} {rewriter next last : Rewriter}
      {server after : Server} {message : String} :
      rewriteSql frontend rewrite rewriter query = (next, .ok (.refuse message)) →
      Session conduct queries next server last after →
      Session conduct (query :: queries) rewriter server last after

variable {frontend rewrite} {setting : SettingMoved}

variable {seen : Context} {params : ParamTransforms} {index : Nat}

omit [DecidableEq Statement] in
theorem Visits.noted {context : Context} {pairs : List (Statement × List SettingMoved)}
    (visits : Visits rewrite context params pairs index seen) (known : Noted context setting ∨
      ∃ (place : Nat) (pair : Statement × List SettingMoved), place ≤ index ∧
        pairs[place]? = some pair ∧ setting ∈ pair.2) : Noted seen setting := by
  induction visits with
  | here passed =>
    rcases known with held | ⟨place, pair, within, listed, reported⟩
    · exact noteSessionState_keeps held passed
    · rw [Nat.le_zero.mp within] at listed
      cases listed
      exact noteSessionState_noted passed reported
  | later passed _ _ ih =>
    rcases known with held | ⟨place, pair, within, listed, reported⟩
    · exact ih (.inl (noteSessionState_keeps held passed))
    · cases place with
      | zero =>
        cases listed
        exact ih (.inl (noteSessionState_noted passed reported))
      | succ place =>
        exact ih (.inr ⟨place, pair, Nat.le_of_succ_le_succ within, listed, reported⟩)

variable {rewriter : Rewriter} {next : Rewriter} {query : Bytes}

theorem rewriteSql_keeps {outcome : Except SessionError SqlOutcome}
    (held : Noted rewriter.context setting)
    (ran : rewriteSql frontend rewrite rewriter query = (next, outcome)) :
    Noted next.context setting := by
  have ended : (rewriteSql frontend rewrite rewriter query).1 = next := by rw [ran]
  rw [← ended]
  unfold rewriteSql
  split
  · exact held
  · rename_i sql decoded
    dsimp only
    split
    · rename_i noted rejection stopped
      exact noteSessionState_keeps held stopped
    · rename_i noted passed
      have kept := noteSessionState_keeps held passed
      split
      · exact kept
      · rename_i statements parsed
        have stays := @rewriteStatements_keeps _ rewrite _ .empty
          (perStatement statements (readSql frontend sql).1) _ kept
        dsimp only
        unfold rewriteParsed
        split
        · rename_i stopped
          rw [stopped] at stays
          exact stays
        · rename_i finished
          rw [finished] at stays
          exact stays

variable {sql : SqlText} {tokens : List Token} {moved : List SettingMoved}

theorem rewriteSql_noted {rewritten : Option Bytes} (read : Read frontend query sql tokens)
    (accepted :
      rewriteSql frontend rewrite rewriter query = (next, .ok (.rewrite rewritten params)))
    (listed : moved ∈ settingsMoved tokens) (reported : setting ∈ moved) :
    Noted next.context setting := by
  have scanned : (readSql frontend sql).1 = settingsMoved tokens := by
    rw [readSql, read.tokenized]
  unfold rewriteSql at accepted
  rw [read.decoded] at accepted
  dsimp only at accepted
  split at accepted
  · rename_i noted rejection stopped
    cases rejection <;> cases accepted
  · rename_i noted passed
    -- Moves that do not line up with the statements are noted ahead of all of them.
    have early : aligned (readSql frontend sql).2 (readSql frontend sql).1 = false →
        Noted noted setting := by
      intro crooked
      apply noteSessionState_noted passed
      rw [crooked, if_neg (by decide), scanned]
      exact List.mem_append_right _ (List.mem_flatten.mpr ⟨moved, listed, reported⟩)
    split at accepted
    · rename_i error unparsed
      have same : next = ⟨noted, []⟩ := (congrArg Prod.fst accepted).symm
      subst same
      exact early (by rw [unparsed]; rfl)
    · rename_i statements parsed
      unfold rewriteParsed at accepted
      split at accepted
      · rename_i last rejection ended
        cases rejection <;> cases accepted
      · rename_i last done grown ended
        have same : next = ⟨last, []⟩ := (congrArg Prod.fst accepted).symm
        subst same
        by_cases straight : aligned (readSql frontend sql).2 (readSql frontend sql).1 = true
        · have counts : statements.length = (readSql frontend sql).1.length := by
            rw [parsed] at straight
            simpa [aligned] using straight
          rw [perStatement, if_pos counts] at ended
          rw [← scanned, ← List.map_snd_zip (Nat.le_of_eq counts.symm)] at listed
          obtain ⟨pair, paired, rfl⟩ := List.mem_map.mp listed
          exact rewriteStatements_noted ended paired reported
        · have kept := early (by simpa using straight)
          have stays := @rewriteStatements_keeps _ rewrite _ .empty
            (perStatement statements (readSql frontend sql).1) _ kept
          rw [ended] at stays
          exact stays

def Moves (statement : List Token) (setting : SettingMoved) : Prop :=
  ∃ before after, Executes anything.makes statement before after ∧
    ¬ before.Moved setting ∧ after.Moved setting

variable {server after : Server}

theorem runs_reported {statements : List (List Token)}
    (ran : Runs Site.Plain statements server after) (moved : after.Moved setting) :
    server.Moved setting ∨ ∃ (index : Nat) (statement : List Token),
      statements[index]? = some statement ∧ Moves statement setting ∧
        setting ∈ statementSettingsMoved statement := by
  induction ran with
  | done => exact .inl moved
  | @next statement rest server middle after executed _ ih =>
    rcases ih moved with early | ⟨index, other, listed, makes, reported⟩
    · by_cases held : server.Moved setting
      · exact .inl held
      · have made := executed.weaken fun _ _ => trivial
        rcases executes_reported executed early with same | reported
        · exact absurd same held
        · exact .inr ⟨0, statement, rfl, ⟨server, middle, made, held, early⟩, reported⟩
    · exact .inr ⟨index + 1, other, listed, makes, reported⟩

variable {queries : List Bytes} {last : Rewriter}

theorem Session.keeps {conduct : Conduct}
    (run : Session frontend rewrite conduct queries rewriter server last after)
    (held : Noted rewriter.context setting) : Noted last.context setting := by
  induction run with
  | done => exact held
  | relayed _ accepted _ _ ih => exact ih (rewriteSql_keeps held accepted)
  | unread _ accepted _ _ ih => exact ih (rewriteSql_keeps held accepted)
  | refused turned _ ih => exact ih (rewriteSql_keeps held turned)

variable (frontend) in
/-- One of the texts holds a statement that moves the setting and is reported for it. -/
def Reported (queries : List Bytes) (setting : SettingMoved) : Prop :=
  ∃ query ∈ queries, ∃ sql tokens, ∃ index : Nat, ∃ statement, Read frontend query sql tokens ∧
    (statementsOf tokens)[index]? = some statement ∧ Moves statement setting ∧
    setting ∈ statementSettingsMoved statement

omit [DecidableEq Statement] in
theorem Reported.later (reported : Reported frontend queries setting) :
    Reported frontend (query :: queries) setting := by
  obtain ⟨other, asked, found⟩ := reported
  exact ⟨other, List.mem_cons_of_mem _ asked, found⟩

theorem Session.covered
    (run : Session frontend rewrite readable queries rewriter server last after)
    (start : ∀ setting, server.Moved setting → Noted rewriter.context setting)
    (moved : after.Moved setting) :
    Noted last.context setting ∧ (server.Moved setting ∨ Reported frontend queries setting) := by
  induction run with
  | done => exact ⟨start setting moved, .inl moved⟩
  | @relayed query queries rewriter next last server middle after sql tokens rewritten params
      read accepted ran _ ih =>
    have carried : ∀ other, middle.Moved other → Noted next.context other := by
      intro other shifted
      rcases runs_reported ran shifted with held | ⟨index, statement, listed, _, reported⟩
      · exact rewriteSql_keeps (start other held) accepted
      · exact rewriteSql_noted read accepted
          (List.mem_map_of_mem (List.mem_of_getElem? listed)) reported
    obtain ⟨noted, origin⟩ := ih carried moved
    refine ⟨noted, ?_⟩
    rcases origin with early | reported
    · rcases runs_reported ran early with held | ⟨index, statement, found⟩
      · exact .inl held
      · exact .inr ⟨query, List.mem_cons_self, sql, tokens, index, statement, read, found⟩
    · exact .inr reported.later
  | @unread query queries rewriter next last server middle after rewritten params _ accepted
      still _ ih =>
    have carried : ∀ other, middle.Moved other → Noted next.context other :=
      fun other shifted => rewriteSql_keeps (start other (still other shifted)) accepted
    obtain ⟨noted, origin⟩ := ih carried moved
    exact ⟨noted, origin.imp (still setting) Reported.later⟩
  | @refused query queries rewriter next last server after message turned _ ih =>
    have carried : ∀ other, server.Moved other → Noted next.context other :=
      fun other held => rewriteSql_keeps (start other held) turned
    obtain ⟨noted, origin⟩ := ih carried moved
    exact ⟨noted, origin.imp id Reported.later⟩

end Sessions

section Witnesses

/-- `SET search_path TO tenant7`. -/
def setTenant (quoted : Bool) : List Token :=
  [.word "SET".toList false, .word "search_path".toList quoted, .word "TO".toList false,
    .word "tenant7".toList false]

def setTenantFrontend : Frontend Unit :=
  ⟨fun _ => [], fun _ => .ok (setTenant false), fun _ _ => .ok [()]⟩

def joined (left right : String) : StringExpr where
  tokens := [.singleQuoted left.toList, .other, .singleQuoted right.toList]
  value := left.toList ++ right.toList
  nonempty := by simp
  single := by simp
  literal := by simp

end Witnesses

end Dbsec.SettingRuns
