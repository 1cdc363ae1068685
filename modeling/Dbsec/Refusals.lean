import Dbsec.Frames

/-! What a refused frame leaves behind. The settings a text moves are noted before the
statement that moves them is decided, and a Bind records its portal before its parameters
are looked at, so a refusal can come after the state has moved. -/
namespace Dbsec.Refusals
open Framing Params Unprotected Catalog Rewrite Settings Lexer Batch SettingRuns ReadPath Messages
  Portal BindFrames Frames

/-- The moves a list gets noted: a rejected move is noted too, but nothing behind it. -/
def reachedMoves (policy : OnUnprotected) (moved : List SettingMoved) : List SettingMoved :=
  match policy with
  | .warn => moved
  | .reject => moved.take 1

theorem noteSetting_noted_iff (context : Context) (moved setting : SettingMoved) :
    Noted (noteSetting context moved) setting ↔ Noted context setting ∨ setting = moved := by
  cases moved <;> cases setting <;> simp [noteSetting, Noted]

theorem noteSetting_catalog (context : Context) (moved : SettingMoved) :
    (noteSetting context moved).catalog = context.catalog := by
  cases moved <;> rfl

theorem noteSessionState_noted_iff (context : Context) (moved : List SettingMoved)
    (setting : SettingMoved) :
    Noted (noteSessionState context moved).1 setting ↔
      Noted context setting ∨ setting ∈ reachedMoves context.catalog.onUnprotected moved := by
  induction moved generalizing context with
  | nil =>
    cases policy : context.catalog.onUnprotected <;> simp [noteSessionState, reachedMoves]
  | cons first rest ih =>
    have same := noteSetting_catalog context first
    rw [noteSessionState, Context.unprotected, same]
    cases policy : context.catalog.onUnprotected with
    | warn =>
      have later := ih (noteSetting context first)
      rw [same, policy, noteSetting_noted_iff, or_assoc] at later
      rw [reachedMoves, List.mem_cons]
      exact later
    | reject =>
      rw [reachedMoves, List.take_succ_cons, List.take_zero, List.mem_singleton]
      exact noteSetting_noted_iff context first setting

section Texts

variable {Statement : Type} [DecidableEq Statement]
  (frontend : Frontend Statement) (rewrite : Context → Statement → Pass (Statement × Bool))

/-- A setting moved by a statement of the text, or by one in front of it, up to the
first that is refused. -/
inductive Reached : Context → ParamTransforms → List (Statement × List SettingMoved) →
    SettingMoved → Prop where
  | here {context : Context} {params : ParamTransforms} {statement : Statement}
      {moved : List SettingMoved} {rest : List (Statement × List SettingMoved)}
      {setting : SettingMoved} :
      setting ∈ reachedMoves context.catalog.onUnprotected moved →
      Reached context params ((statement, moved) :: rest) setting
  | later {context noted : Context} {params grown : ParamTransforms} {statement : Statement}
      {moved : List SettingMoved} {rest : List (Statement × List SettingMoved)}
      {result : Statement × Bool} {setting : SettingMoved} :
      noteSessionState context moved = (noted, .ok ()) →
      rewrite noted statement params = .ok (result, grown) → Reached noted grown rest setting →
      Reached context params ((statement, moved) :: rest) setting

/-- The settings that are moved by a text up to its first refused statement. -/
def TextReaches (rewriter : Rewriter) (query : Bytes) (setting : SettingMoved) : Prop :=
  ∃ sql, Text.decode query = some sql ∧
    (setting ∈ reachedMoves rewriter.context.catalog.onUnprotected
        (upfrontMoves frontend rewriter sql) ∨
      ∃ statements noted, (readSql frontend sql).2 = .ok statements ∧
        noteSessionState rewriter.context (upfrontMoves frontend rewriter sql) = (noted, .ok ()) ∧
        Reached rewrite noted .empty (perStatement statements (readSql frontend sql).1) setting)

variable {frontend rewrite}

omit [DecidableEq Statement] in
theorem reached_cons_iff {context : Context} {params : ParamTransforms} {statement : Statement}
    {moved : List SettingMoved} {rest : List (Statement × List SettingMoved)}
    {setting : SettingMoved} :
    Reached rewrite context params ((statement, moved) :: rest) setting ↔
      setting ∈ reachedMoves context.catalog.onUnprotected moved ∨
        ∃ noted result grown, noteSessionState context moved = (noted, .ok ()) ∧
          rewrite noted statement params = .ok (result, grown) ∧
          Reached rewrite noted grown rest setting := by
  constructor
  · intro reached
    cases reached with
    | here listed => exact .inl listed
    | later passed accepted reached => exact .inr ⟨_, _, _, passed, accepted, reached⟩
  · rintro (listed | ⟨noted, result, grown, passed, accepted, reached⟩)
    · exact .here listed
    · exact .later passed accepted reached

omit [DecidableEq Statement] in
theorem rewriteStatements_noted_iff (context : Context) (params : ParamTransforms)
    (pairs : List (Statement × List SettingMoved)) (setting : SettingMoved) :
    Noted (rewriteStatements rewrite context params pairs).1 setting ↔
      Noted context setting ∨ Reached rewrite context params pairs setting := by
  induction pairs generalizing context params with
  | nil =>
    have nothing : ¬ Reached rewrite context params [] setting := nofun
    rw [rewriteStatements, or_iff_left nothing]
  | cons pair rest ih =>
    obtain ⟨statement, moved⟩ := pair
    have first := noteSessionState_noted_iff context moved setting
    rw [rewriteStatements, reached_cons_iff, ← or_assoc, ← first]
    -- Only a statement that is accepted lets the ones behind it move anything.
    cases ran : noteSessionState context moved with
    | mk noted outcome =>
      cases outcome with
      | error rejection => simp
      | ok passed =>
        cases rewritten : rewrite noted statement params with
        | error rejection => simp [rewritten]
        | ok done =>
          obtain ⟨result, grown⟩ := done
          simp only [rewritten]
          rw [ih]
          apply or_congr Iff.rfl
          constructor
          · intro reached
            exact ⟨noted, result, grown, rfl, rewritten, reached⟩
          · rintro ⟨_, _, _, same, accepted, reached⟩
            cases same
            cases rewritten.symm.trans accepted
            exact reached

theorem rewriteSql_noted_iff (rewriter : Rewriter) (query : Bytes) (setting : SettingMoved) :
    Noted (rewriteSql frontend rewrite rewriter query).1.context setting ↔
      Noted rewriter.context setting ∨ TextReaches frontend rewrite rewriter query setting := by
  unfold TextReaches rewriteSql
  cases decoded : Text.decode query with
  | none => simp
  | some sql =>
    have first := noteSessionState_noted_iff rewriter.context (upfrontMoves frontend rewriter sql)
      setting
    simp only [Option.some.injEq, exists_eq_left']
    rw [← or_assoc, ← first]
    unfold upfrontMoves at first ⊢
    generalize noteSessionState rewriter.context _ = ran at first ⊢
    cases ran with
    | mk noted outcome =>
      cases outcome with
      | error rejection => simp
      | ok passed =>
        cases parsed : (readSql frontend sql).2 with
        | error error => simp
        | ok statements =>
          have later := @rewriteStatements_noted_iff _ rewrite noted .empty
            (perStatement statements (readSql frontend sql).1) setting
          have same : (rewriteParsed frontend rewrite noted sql (readSql frontend sql).1
              statements).1 = (rewriteStatements rewrite noted .empty
                (perStatement statements (readSql frontend sql).1)).1 := by
            unfold rewriteParsed
            split
            · rename_i stopped
              rw [stopped]
            · rename_i finished
              rw [finished]
          simp [same, later]

end Texts

section Frames

variable {Positions Mark : Type}

/-- What the proxy believes about the backend, apart from the flag that drops the rest of
a batch. -/
structure SameBeliefs (before after : Frontline Positions Mark) : Prop where
  statements : after.portals.statements = before.portals.statements
  portals : after.portals.portals = before.portals.portals
  pending : after.portals.pending = before.portals.pending
  searchPath : after.rewriter.context.searchPathTrusted =
    before.rewriter.context.searchPathTrusted
  escapes : after.rewriter.context.escapeStrings = before.rewriter.context.escapeStrings

variable {Statement : Type} [DecidableEq Statement]
  (frontend : Frontend Statement) (rewrite : Context → Statement → Pass (Statement × Bool))

/-- A text moves no setting that was still trusted, up to its first refused statement. -/
def AlreadyMoved (rewriter : Rewriter) (query : Bytes) : Prop :=
  ∀ setting, TextReaches frontend rewrite rewriter query setting → Noted rewriter.context setting

/-- A Bind of the portal to the statement and the formats it is already bound to. -/
def AlreadyBound (portals : Tracked Positions Mark Nat) (body : Bytes) : Prop :=
  ∀ sent codes, parseBind body = .ok sent → resultFormatCodes sent = .ok codes →
    portals.portals.get sent.portal = some ⟨sent.statement, some codes⟩

def NothingNew (line : Frontline Positions Mark) : ClientMessage → Bytes → Prop
  | .query, body => ∀ query rest, takeCstr body = some (query, rest) →
      AlreadyMoved frontend rewrite line.rewriter query
  | .parse, body => ∀ sent, parseParse body = .ok sent →
      AlreadyMoved frontend rewrite line.rewriter sent.query
  | .bind, body => AlreadyBound line.portals body
  | _, _ => True

variable {frontend rewrite}

theorem same_settings_iff (before after : Context) :
    (after.searchPathTrusted = before.searchPathTrusted ∧
        after.escapeStrings = before.escapeStrings) ↔
      ∀ setting, Noted after setting ↔ Noted before setting := by
  constructor
  · rintro ⟨path, escapes⟩ setting
    cases setting with
    | searchPath => rw [Noted, Noted, path]
    | escapeStrings => rw [Noted, Noted, escapes]
  · intro same
    have path := same .searchPath
    have escapes := same .escapeStrings
    rw [Noted, Noted, ← Bool.not_eq_true, ← Bool.not_eq_true, not_iff_not,
      ← Bool.eq_iff_iff] at path
    rw [Noted, Noted, ← Bool.eq_iff_iff] at escapes
    exact ⟨path, escapes⟩

theorem rewriteSql_same_iff (rewriter : Rewriter) (query : Bytes) :
    ((rewriteSql frontend rewrite rewriter query).1.context.searchPathTrusted =
          rewriter.context.searchPathTrusted ∧
        (rewriteSql frontend rewrite rewriter query).1.context.escapeStrings =
          rewriter.context.escapeStrings) ↔
      AlreadyMoved frontend rewrite rewriter query := by
  rw [same_settings_iff, AlreadyMoved]
  apply forall_congr'
  intro setting
  rw [rewriteSql_noted_iff]
  exact or_iff_left_iff_imp

theorem refused_text_iff (line : Frontline Positions Mark) (query : Bytes) (flag : Bool) :
    SameBeliefs line { line with
        rewriter := (rewriteSql frontend rewrite line.rewriter query).1, awaitingSync := flag } ↔
      AlreadyMoved frontend rewrite line.rewriter query := by
  rw [← rewriteSql_same_iff]
  constructor
  · intro same
    exact ⟨same.searchPath, same.escapes⟩
  · rintro ⟨path, escapes⟩
    exact ⟨rfl, rfl, rfl, path, escapes⟩

variable {line : Frontline Positions Mark} {body : Bytes} {messages : List Reply}

theorem refused_query_iff {mark : Mark}
    (refused : (line.query frontend rewrite mark body).2 = .ok (.reply messages)) :
    SameBeliefs line (line.query frontend rewrite mark body).1 ↔
      NothingNew frontend rewrite line .query body := by
  unfold Frontline.query at refused ⊢
  cases read : takeCstr body with
  | none =>
    rw [read] at refused
    cases refused
  | some pair =>
    obtain ⟨query, rest⟩ := pair
    have asked : NothingNew frontend rewrite line .query body ↔
        AlreadyMoved frontend rewrite line.rewriter query := by
      constructor
      · intro holds
        exact holds query rest read
      · intro moved other left same
        cases read.symm.trans same
        exact moved
    rw [read] at refused
    simp only [wellFormed, pgwire] at refused ⊢
    rw [asked, ← refused_text_iff line query line.awaitingSync]
    cases outcome : (rewriteSql frontend rewrite line.rewriter query).2 with
    | error error => simp [outcome] at refused
    | ok decided =>
      cases decided with
      | refuse message => exact Iff.rfl
      | rewrite text params =>
        simp only [outcome] at refused
        cases text with
        | none => cases (tracking_ok (Prod.ext rfl refused)).1
        | some text => cases (tracking_ok (Prod.ext rfl refused)).1

theorem refused_parse_iff (refused : (line.parse frontend rewrite body).2 = .ok (.reply messages)) :
    SameBeliefs line (line.parse frontend rewrite body).1 ↔
      NothingNew frontend rewrite line .parse body := by
  unfold Frontline.parse at refused ⊢
  cases read : parseParse body with
  | error error =>
    rw [read] at refused
    cases refused
  | ok sent =>
    have asked : NothingNew frontend rewrite line .parse body ↔
        AlreadyMoved frontend rewrite line.rewriter sent.query := by
      constructor
      · intro holds
        exact holds sent read
      · intro moved other same
        cases read.symm.trans same
        exact moved
    rw [read] at refused
    simp only [pgwire] at refused ⊢
    rw [asked, ← refused_text_iff line sent.query true]
    cases outcome : (rewriteSql frontend rewrite line.rewriter sent.query).2 with
    | error error => simp [outcome] at refused
    | ok decided =>
      cases decided with
      | refuse message => exact Iff.rfl
      | rewrite text params =>
        simp only [outcome] at refused
        cases text with
        | none => cases (tracking_ok (Prod.ext rfl refused)).1
        | some text => cases (tracking_ok (Prod.ext rfl refused)).1

omit [DecidableEq Statement] in
theorem refused_bind_iff (refused : (line.bind body).2 = .ok (.reply messages)) :
    SameBeliefs line (line.bind body).1 ↔ AlreadyBound line.portals body := by
  unfold Frontline.bind at refused ⊢
  cases ran : bindFrame line.rewriter.context line.portals body with
  | error error =>
    rw [ran] at refused
    cases refused
  | ok done =>
    obtain ⟨after, discards, action⟩ := done
    rw [ran] at refused
    cases refused
    obtain ⟨sent, codes, parsed, chosen, rfl⟩ := bindFrame_ok ran
    constructor
    · intro same other others read counted
      cases parsed.symm.trans read
      cases chosen.symm.trans counted
      have held := same.portals
      rw [← held]
      exact Table.get_put_self _ _ _
    · intro bound
      exact ⟨rfl, Table.put_of_get _ (bound sent codes parsed chosen), rfl, rfl, rfl⟩

/-- A refused frame leaves what the proxy believes exactly when the frame holds nothing
new: no setting moved by its text up to the refused statement was still trusted, and a
refused Bind names a portal that is already bound as it says. -/
theorem refused_frame_keeps_beliefs_iff (line : Frontline Positions Mark) (mark : Mark)
    (message : ClientMessage) (body : Bytes) (messages : List Reply)
    (refused : (line.onFrame frontend rewrite mark message body).2 = .ok (.reply messages)) :
    SameBeliefs line (line.onFrame frontend rewrite mark message body).1 ↔
      line.awaitingSync = true ∨ NothingNew frontend rewrite line message body := by
  unfold Frontline.onFrame at refused ⊢
  cases waiting : line.awaitingSync with
  | true =>
    -- Nothing but the flag moves while a batch is dropped.
    refine ⟨fun _ => .inl rfl, fun _ => ?_⟩
    rw [if_pos rfl]
    cases message <;> exact ⟨rfl, rfl, rfl, rfl, rfl⟩
  | false =>
    rw [waiting, if_neg Bool.false_ne_true] at refused
    rw [if_neg Bool.false_ne_true, or_iff_right Bool.false_ne_true]
    cases message with
    | query => exact refused_query_iff refused
    | parse => exact refused_parse_iff refused
    | bind => exact refused_bind_iff refused
    | _ => cases (tracking_ok (Prod.ext rfl refused)).1

end Frames

section Examples

def freshLine (context : Context) : Frontline Unit Unit := ⟨⟨context, []⟩, .new, false, 0x49⟩

def setTenantBody : Bytes := Text.encode "SET search_path TO tenant7".toList ++ [0]

def untouched (_ : Context) (statement : Unit) : Pass (Unit × Bool) := pure (statement, false)

/-- The unnamed statement seals its first parameter for the row its second one names. -/
def sealByRow : ParamTransforms := ⟨[(0, .sealWith marked (.param 1 23 "id"))], by decide⟩

def preparedByRow (context : Context) : Frontline Unit Unit :=
  { freshLine context with
    portals := { Tracked.new with statements := Table.empty.put [] ⟨0, sealByRow, none⟩ } }

def bindNullKey : Bytes := bindBody ⟨[0x70], [], [], [some [0x61], none], [0, 0]⟩

/-- A refused `SET search_path TO tenant7`, the first frame of a session, leaves the
search path distrusted although the backend never moved it. A refused Bind leaves a portal
the backend never got. -/
theorem refused_set_moves_beliefs :
    (∃ message,
      ((freshLine (Statements.plainContext [] .reject)).onFrame setTenantFrontend untouched
          () .query setTenantBody).2 =
        .ok (.reply [.errorResponse message, .readyForQuery 0x49]) ∧
      (freshLine (Statements.plainContext [] .reject)).rewriter.context.searchPathTrusted = true ∧
      ((freshLine (Statements.plainContext [] .reject)).onFrame setTenantFrontend untouched
          () .query setTenantBody).1.rewriter.context.searchPathTrusted = false) ∧
    ∃ message, ((preparedByRow (Statements.plainContext [] .reject)).onFrame setTenantFrontend
          untouched () .bind bindNullKey).2 = .ok (.reply [.errorResponse message]) ∧
      (preparedByRow (Statements.plainContext [] .reject)).portals.portals.get [0x70] = none ∧
      ((preparedByRow (Statements.plainContext [] .reject)).onFrame setTenantFrontend
          untouched () .bind bindNullKey).1.portals.portals.get [0x70] = some ⟨[], some []⟩ :=
  ⟨⟨_, rfl, rfl, rfl⟩, _, rfl, rfl, rfl⟩

/-- The same refused statement in a session that had given the search path up already. -/
theorem refused_set_keeps_beliefs :
    SameBeliefs
      (freshLine (noteSetting (Statements.plainContext [] .reject) .searchPath))
      ((freshLine (noteSetting (Statements.plainContext [] .reject) .searchPath)).onFrame
        setTenantFrontend untouched () .query setTenantBody).1 := by
  refine (refused_frame_keeps_beliefs_iff _ _ _ _ _ rfl).mpr (.inr ?_)
  intro query rest read setting reached
  cases setting with
  | searchPath => rfl
  | escapeStrings =>
    -- The text moves the search path and nothing else.
    obtain ⟨sql, _, upfront | ⟨statements, noted, parsed, passed, reached⟩⟩ := reached
    · exact absurd upfront (List.not_mem_nil : SettingMoved.escapeStrings ∉ [])
    · cases parsed
      cases passed
      cases reached with
      | here listed => exact absurd listed (by decide)
      | later stopped => cases stopped

end Examples

end Dbsec.Refusals
