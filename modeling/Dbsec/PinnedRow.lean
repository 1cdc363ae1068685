import Dbsec.KeyedWrites
import Dbsec.RowStore
import Dbsec.Seal

/-! The row an UPDATE pins: the search of proxy/src/encrypt/seal.rs for an equality on
the row key, against what the server makes of the same condition. -/
namespace Dbsec.PinnedRow
open Framing Sql Params Catalog Literals Scope Seal BoundParams StoredKeys KeptLiterals RowStore

variable {Query : Type} {server : Server Query} {spec : ResolvedRowKey} {frame : Frame}

/-- The equality on the row key that the search takes, as its column and its operand. -/
def pinned (spec : ResolvedRowKey) (target : ScopedTable) (joined : Bool) :
    Expr Query → Option (Expr Query × Expr Query)
  | .binary (.op .and) left right =>
    pinned spec target joined left <|> pinned spec target joined right
  | .unary .nested inner => pinned spec target joined inner
  | .binary (.op .eq) left right =>
    if namesRowKey spec.name target joined left then
      if (rowKeySource spec right).isSome then some (left, right) else none
    else if namesRowKey spec.name target joined right then
      if (rowKeySource spec left).isSome then some (right, left) else none
    else none
  | _ => none

/-- A placeholder of a key reaches the server as the client bound it, and fits the column. -/
structure ReceivedAsBound (server : Server Query) (bind : BindMessage) (index : Nat) : Prop where
  format : formatCode server.formats index = bind.paramFormat index
  value : (server.values[index]?).join = bind.param index
  fits : ∀ bytes ∈ bind.param index, ∀ chars, Text.decode bytes = some chars →
    Unclipped chars server.keyColumn

/-- The server reads a key as it is written: a literal as its characters spell it, a
placeholder as it was bound, and a cast around one keeps it. -/
def KeyAsWritten (server : Server Query) (bind : BindMessage) (expr : Expr Query) : Prop :=
  if (spelling expr).isSome then
    ReadAsSpelled server.pg server.escapeStrings server.keyColumn expr
  else CastsKeep server .key expr ∧ ∀ text, unwrapCasts expr = .value (.placeholder text) →
    ∀ index ∈ placeholderIndex text, ReceivedAsBound server bind index

variable {expr : Expr Query} {source : RowKeySource}

theorem rowKeySource_cases (sourced : rowKeySource spec expr = some source) :
    (∃ key, source = .literal key ∧ (spelling expr).isSome = true) ∨
      ∃ text index, unwrapCasts expr = .value (.placeholder text) ∧
        placeholderIndex text = some index ∧ source = .param index spec.typeOid spec.name := by
  cases source with
  | literal key =>
    obtain ⟨text, spelled, _⟩ := rowKeySource_literal sourced
    exact .inl ⟨key, rfl, by rw [spelled]; rfl⟩
  | _ =>
    unfold rowKeySource at sourced
    split at sourced
    · rename_i text isPlaceholder
      obtain ⟨index, placed, same⟩ := Option.map_eq_some_iff.mp sourced
      exact .inr ⟨text, index, isPlaceholder, placed, same.symm⟩
    · obtain ⟨_, _, sourced⟩ := Option.bind_eq_some_iff.mp sourced
      split at sourced <;> cases sourced

theorem spelling_placeholder {text : String}
    (written : unwrapCasts expr = .value (.placeholder text)) :
    spelling expr = none := by
  rw [spelling, written]

/-- The expression gives the key the proxy reads from it, stored or compared. -/
structure KeySpelled (server : Server Query) (frame : Frame) (key : Bytes) (expr : Expr Query) :
    Prop where
  stored : ∀ found, storesKey server frame expr = some found → found = some key
  compared : ∀ other, equalsAt server frame expr other = true → other = key

variable {bind : BindMessage} {key : Envelope.RowKey}

theorem keySpelled_literal (keyed : keyOid server.keyColumn = some spec.typeOid)
    (written : ReadAsSpelled server.pg server.escapeStrings server.keyColumn expr)
    (sourced : rowKeySource spec expr = some (.literal key)) :
    KeySpelled server frame key.bytes expr := by
  obtain ⟨text, spelled, read⟩ := rowKeySource_literal sourced
  have literal : (spelling expr).isSome = true := by
    rw [spelled]
    rfl
  constructor
  · intro found stores
    rw [storesKey, if_pos literal] at stores
    obtain ⟨held, stored, rfl⟩ := Option.map_eq_some_iff.mp stores
    rw [(canonical_spelled keyed (stored_typed stored) read).mpr
      (stored_spelled keyed read spelled written stored)]
  · intro other equal
    rw [equalsAt, if_pos literal] at equal
    obtain ⟨value, evaluated, same⟩ := (Option.any_eq_true _ _).mp equal
    exact compared_spelled keyed read spelled written evaluated same

theorem sizedKey_kept {column : PgType} {oid : Nat} {format : RowKeys.Format}
    {bytes held out : Bytes}
    (keyed : keyOid column = some oid) (read : RowKeys.canonicalBytes oid format bytes = .ok held)
    (fits : ∀ chars, Text.decode bytes = some chars → Unclipped chars column)
    (cut : sizedKey column held = some out) : out = held := by
  unfold sizedKey at cut
  split at cut
  · rename_i limit
    cases keyed
    obtain ⟨_, _, rfl⟩ : ∃ text, RowKeys.utf8 bytes = .ok text ∧ bytes = held := by
      simpa [RowKeys.canonicalBytes] using read
    obtain ⟨kept, shortened, rfl⟩ := Option.map_eq_some_iff.mp cut
    obtain ⟨chars, decoded, within⟩ := Option.bind_eq_some_iff.mp shortened
    rw [within_unclipped (fits chars decoded) within, Spellings.encode_decode decoded]
  · exact (Option.some.inj cut).symm

theorem keySpelled_placeholder {text : String} {index : Nat}
    (keyed : keyOid server.keyColumn = some spec.typeOid) (casts : CastsKeep server .key expr)
    (isPlaceholder : unwrapCasts expr = .value (.placeholder text))
    (placed : placeholderIndex text = some index) (received : ReceivedAsBound server bind index)
    (bound : bindRowKey (.param index spec.typeOid spec.name) bind = .ok (some key)) :
    KeySpelled server frame key.bytes expr := by
  obtain ⟨format, carried, known, sent, read⟩ := bindRowKey_param_iff.mp bound
  have literal : ¬ (spelling expr).isSome = true := by
    rw [spelling_placeholder isPlaceholder]
    exact Bool.false_ne_true
  have reads : ∀ found, value server .key frame expr = some found → found = some key.bytes := by
    intro found evaluated
    have reading := value_unwrapCasts server casts evaluated
    rw [isPlaceholder] at reading
    simp only [value, placed, Option.bind_some] at reading
    exact readParam_key server keyed (by rw [received.format]; exact known)
      (by rw [received.value]; exact sent) read reading
  constructor
  · intro found stores
    rw [storesKey, if_neg literal] at stores
    split at stores
    · rename_i held evaluated
      obtain ⟨out, cut, rfl⟩ := Option.map_eq_some_iff.mp stores
      obtain rfl := Option.some.inj (reads _ evaluated)
      rw [sizedKey_kept keyed read (received.fits carried sent) cut]
    · exact reads found stores
  · intro other equal
    rw [equalsAt, if_neg literal] at equal
    exact Option.some.inj (reads _ (beq_iff_eq.mp equal))

theorem keySpelled_of_asWritten (keyed : keyOid server.keyColumn = some spec.typeOid)
    (written : KeyAsWritten server bind expr) (sourced : rowKeySource spec expr = some source)
    (bound : bindRowKey source bind = .ok (some key)) : KeySpelled server frame key.bytes expr := by
  unfold KeyAsWritten at written
  rcases rowKeySource_cases sourced
    with ⟨held, rfl, literal⟩ | ⟨text, index, isPlaceholder, placed, rfl⟩
  · rw [if_pos literal] at written
    cases bound
    exact keySpelled_literal keyed written sourced
  · rw [spelling_placeholder isPlaceholder, if_neg (by simp)] at written
    exact keySpelled_placeholder keyed written.1 isPlaceholder placed
      (written.2 text isPlaceholder index placed) bound

/-- What the proxy takes for the row key means it, or means nothing. -/
def MeansKey (spec : ResolvedRowKey) (target : ScopedTable) (joined : Bool) (frame : Frame)
    (expr : Expr Query) : Prop :=
  namesRowKey spec.name target joined expr = true →
    frame.reference expr = some none ∨ frame.reference expr = some (some (0, spec.name))

variable {target : ScopedTable} {joined : Bool}

theorem refersToKey_of_named (means : MeansKey spec target joined frame expr)
    (named : namesRowKey spec.name target joined expr = true)
    (resolved : unresolved frame expr = false) :
    frame.reference expr = some (some (0, spec.name)) := by
  rcases means named with missing | found
  · simp [unresolved, missing] at resolved
  · exact found

theorem reference_of_sourced (sourced : rowKeySource spec expr = some source) :
    frame.reference expr = none := by
  cases expr with
  | identifier ident => cases sourced
  | compoundIdentifier idents => cases sourced
  | _ => rfl

/-- A part of a condition that has to hold for the condition to hold. -/
inductive Conjunct (part : Expr Query) : Expr Query → Prop where
  | self : Conjunct part part
  | left {left right : Expr Query} : Conjunct part left →
      Conjunct part (.binary (.op .and) left right)
  | right {left right : Expr Query} : Conjunct part right →
      Conjunct part (.binary (.op .and) left right)
  | nested {inner : Expr Query} : Conjunct part inner → Conjunct part (.unary .nested inner)

variable {part condition : Expr Query}

theorem holds_of_conjunct (conjunct : Conjunct part condition)
    (satisfied : holds server spec frame condition = true) :
    holds server spec frame part = true := by
  induction conjunct with
  | self => exact satisfied
  | left _ ih =>
    rw [holds, Bool.and_eq_true] at satisfied
    exact ih satisfied.1
  | right _ ih =>
    rw [holds, Bool.and_eq_true] at satisfied
    exact ih satisfied.2
  | nested _ ih => exact ih satisfied

/-- An equality of the row key with a value, in either order. -/
inductive PinsKey (spec : ResolvedRowKey) (target : ScopedTable) (joined : Bool)
    (source : RowKeySource) (column operand : Expr Query) : Expr Query → Prop where
  | left : namesRowKey spec.name target joined column = true →
      rowKeySource spec operand = some source →
      PinsKey spec target joined source column operand (.binary (.op .eq) column operand)
  | right : namesRowKey spec.name target joined column = true →
      rowKeySource spec operand = some source →
      PinsKey spec target joined source column operand (.binary (.op .eq) operand column)

theorem sourced_of_pinsKey {column operand : Expr Query}
    (pins : PinsKey spec target joined source column operand part) :
    rowKeySource spec operand = some source := by
  cases pins with
  | left _ sourced => exact sourced
  | right _ sourced => exact sourced

theorem pinned_none (absent : rowKeyInPredicate spec target joined condition = none) :
    pinned spec target joined condition = none := by
  fun_induction rowKeyInPredicate spec target joined condition with
  | case1 left right leftIH rightIH =>
    cases inLeft : rowKeyInPredicate spec target joined left with
    | some held => simp [inLeft] at absent
    | none =>
      rw [inLeft] at absent
      rw [pinned, leftIH inLeft, rightIH absent]
      rfl
  | case2 inner ih => exact ih absent
  | case3 left right named => simp [pinned, named, absent]
  | case4 left right unnamed named => simp [pinned, unnamed, named, absent]
  | case5 left right unnamed unnamedToo => simp [pinned, unnamed, unnamedToo]
  | case6 other notAnd notNested notEq =>
    unfold pinned
    split
    · exact absurd rfl (notAnd _ _)
    · exact absurd rfl (notNested _)
    · exact absurd rfl (notEq _ _)
    · rfl

theorem conjunct_of_search (found : rowKeyInPredicate spec target joined condition = some source) :
    ∃ column operand part, pinned spec target joined condition = some (column, operand) ∧
      Conjunct part condition ∧ PinsKey spec target joined source column operand part := by
  fun_induction rowKeyInPredicate spec target joined condition with
  | case1 left right leftIH rightIH =>
    cases inLeft : rowKeyInPredicate spec target joined left with
    | some held =>
      rw [inLeft] at found
      cases found
      obtain ⟨column, operand, part, picked, conjunct, pins⟩ := leftIH inLeft
      exact ⟨column, operand, part, by rw [pinned, picked]; rfl, .left conjunct, pins⟩
    | none =>
      rw [inLeft] at found
      obtain ⟨column, operand, part, picked, conjunct, pins⟩ := rightIH found
      exact ⟨column, operand, part, by rw [pinned, pinned_none inLeft, picked]; rfl,
        .right conjunct, pins⟩
  | case2 inner ih =>
    obtain ⟨column, operand, part, picked, conjunct, pins⟩ := ih found
    exact ⟨column, operand, part, picked, .nested conjunct, pins⟩
  | case3 left right named =>
    exact ⟨left, right, _, by simp [pinned, named, found], .self, .left named found⟩
  | case4 left right unnamed named =>
    exact ⟨right, left, _, by simp [pinned, unnamed, named, found], .self, .right named found⟩
  | case5 => cases found
  | case6 => cases found

theorem key_of_pinsKey {column operand : Expr Query}
    (means : MeansKey spec target joined frame column)
    (spelled : KeySpelled server frame key.bytes operand)
    (pins : PinsKey spec target joined source column operand part)
    (satisfied : holds server spec frame part = true) :
    frame.rows 0 spec.name = some key.bytes := by
  have known : (frame.rows 0 spec.name).any (equalsAt server frame operand) = true := by
    cases pins with
    | left named sourced =>
      unfold holds at satisfied
      split at satisfied
      · cases satisfied
      · rename_i resolved
        simp only [Bool.or_eq_true, not_or, Bool.not_eq_true] at resolved
        have about := refersToKey_of_named means named resolved.1
        rwa [if_pos (by simp [refersToKey, about])] at satisfied
    | right named sourced =>
      unfold holds at satisfied
      split at satisfied
      · cases satisfied
      · rename_i resolved
        simp only [Bool.or_eq_true, not_or, Bool.not_eq_true] at resolved
        have about := refersToKey_of_named means named resolved.2
        rwa [if_neg (by simp [refersToKey, reference_of_sourced sourced]),
          if_pos (by simp [refersToKey, about])] at satisfied
  obtain ⟨held, there, equal⟩ := (Option.any_eq_true _ _).mp known
  rw [there, spelled.compared held equal]

section Update
variable {update : Update Query} {name : ObjectName} {args : Option (List (Expr Query))}
  {named : Option TableAlias} {columns : Columns} {readColumns : ReadColumns}

variable {qualifiers : List Ident}

theorem matches_cases (qualified : qualifiers ≠ []) (matched : target.matches qualifiers = true) :
    (∃ held, target.tableAlias = some held ∧ qualifiers.map normalize = [held]) ∨
      qualifiers.map normalize <:+ target.name := by
  match qualifiers, qualified with
  | [qualifier], _ =>
    simp only [ScopedTable.matches, Bool.or_eq_true, beq_iff_eq] at matched
    rcases matched with aliased | own
    · exact .inl ⟨normalize qualifier, aliased, rfl⟩
    · obtain ⟨front, spelled⟩ := List.getLast?_eq_some_iff.mp own
      exact .inr ⟨front, spelled.symm⟩
  | first :: second :: rest, _ =>
    simp only [ScopedTable.matches, Bool.and_eq_true, decide_eq_true_eq, beq_iff_eq] at matched
    exact .inr (List.suffix_iff_eq_drop.mpr matched.2.symm)

/-- No other relation answers to a reference by the table name an aliased target hides. -/
def HiddenNameFree (update : Update Query) (named : Option TableAlias) : Expr Query → Prop
  | .compoundIdentifier idents =>
    ∀ held ∈ named, idents.dropLast.map normalize ≠ [normalize held.name] →
      ∀ visible ∈ otherVisibles update, visible.answersTo idents.dropLast = false
  | _ => True

def targetVisible (name : ObjectName) : Option TableAlias → Visible
  | some held => .aliased (normalize held.name)
  | none => .table (name.map normalize)

theorem updateVisibles_cons (target : update.table.relation = .table name args named) :
    updateVisibles update = targetVisible name named :: otherVisibles update := by
  unfold updateVisibles
  rw [target]
  cases named <;> rfl

theorem resolve_cases {idents : List Ident} {column : Ident}
    (last : idents.getLast? = some column) :
    frame.resolve idents = none ∨
      ∃ index, frame.candidates idents.dropLast (normalize column) = [index] ∧
        frame.resolve idents = some (index, normalize column) := by
  unfold Frame.resolve
  simp only [last]
  split
  · rename_i index listed
    exact .inr ⟨index, listed, rfl⟩
  · exact .inl rfl

theorem mem_candidates {column : String} {index : Nat} (qualified : qualifiers ≠ []) :
    index ∈ frame.candidates qualifiers column ↔
      ∃ visible, frame.visibles[index]? = some visible ∧ visible.answersTo qualifiers = true := by
  have asked : qualifiers.isEmpty = false := by
    cases qualifiers with
    | nil => exact absurd rfl qualified
    | cons first rest => rfl
  simp only [Frame.candidates, asked, Bool.false_eq_true, if_false, List.mem_filter, List.mem_range,
    Option.any_eq_true]
  constructor
  · rintro ⟨_, visible, found, answers⟩
    exact ⟨visible, found, answers⟩
  · rintro ⟨visible, found, answers⟩
    exact ⟨(List.getElem?_eq_some_iff.mp found).1, visible, found, answers⟩

theorem resolve_qualified (target : update.table.relation = .table name args named)
    (visibles : frame.visibles = updateVisibles update) {idents : List Ident}
    (free : HiddenNameFree update named (.compoundIdentifier idents))
    {column : Ident} (last : idents.getLast? = some column)
    (long : 2 ≤ idents.length)
    (matched : (⟨aliasName named, name.map normalize, columns, readColumns⟩ :
      ScopedTable).matches idents.dropLast = true) :
    frame.resolve idents = none ∨ frame.resolve idents = some (0, normalize column) := by
  have qualified : idents.dropLast ≠ [] := by
    intro bare
    have short := congrArg List.length bare
    simp only [List.length_dropLast, List.length_nil] at short
    omega
  rcases @resolve_cases frame _ _ last with missing | ⟨index, listed, found⟩
  · exact .inl missing
  refine .inr (found.trans ?_)
  suffices first : index = 0 by rw [first]
  have here : index ∈ frame.candidates idents.dropLast (normalize column) := by
    rw [listed]
    exact List.mem_singleton_self _
  obtain ⟨visible, place, answers⟩ := (mem_candidates qualified).mp here
  have only : (targetVisible name named).answersTo idents.dropLast = true → index = 0 := by
    intro answersToo
    have member : 0 ∈ frame.candidates idents.dropLast (normalize column) := by
      refine (mem_candidates qualified).mpr ⟨targetVisible name named, ?_, answersToo⟩
      rw [visibles, updateVisibles_cons target]
      rfl
    rw [listed] at member
    exact (List.mem_singleton.mp member).symm
  rcases matches_cases qualified matched with ⟨held, aliased, spelled⟩ | own
  · apply only
    cases named with
    | none => cases aliased
    | some given =>
      simp only [aliasName, Option.map_some, Option.some.injEq] at aliased
      simp [targetVisible, Visible.answersTo, spelled, aliased]
  · cases named with
    | none =>
      apply only
      simpa [targetVisible, Visible.answersTo, List.isSuffixOf_iff_suffix] using own
    | some given =>
      by_cases aliased : idents.dropLast.map normalize = [normalize given.name]
      · exact only (by simp [targetVisible, Visible.answersTo, aliased])
      · -- The own name is hidden, so whatever answers to it stands behind the target.
        by_contra later
        obtain ⟨before, rfl⟩ := Nat.exists_eq_succ_of_ne_zero later
        rw [visibles, updateVisibles_cons target, List.getElem?_cons_succ] at place
        have silent := free given rfl aliased visible (List.mem_of_getElem? place)
        rw [silent] at answers
        cases answers

theorem candidates_of_alone (target : update.table.relation = .table name args named)
    (visibles : frame.visibles = updateVisibles update)
    (alone : (update.fromTable.isSome || !update.table.joins.isEmpty) = false)
    (qualifiers : List Ident) (column : String) :
    ∀ index ∈ frame.candidates qualifiers column, index = 0 := by
  intro index listed
  simp only [Bool.or_eq_false_iff, Option.isSome_eq_false_iff, Option.isNone_iff_eq_none,
    Bool.not_eq_false', List.isEmpty_iff] at alone
  have others : otherVisibles update = [] := by
    simp [otherVisibles, alone.1, alone.2, joinsVisibles]
  have below := List.mem_range.mp (List.mem_filter.mp listed).1
  rw [visibles, updateVisibles_cons target, others] at below
  exact Nat.lt_one_iff.mp below

/-- What the search takes for the row key of the target is the row key of the row
written, or no column at all. -/
theorem meansKey_of_update (target : update.table.relation = .table name args named)
    (visibles : frame.visibles = updateVisibles update) {expr : Expr Query}
    (free : HiddenNameFree update named expr) :
    MeansKey spec ⟨aliasName named, name.map normalize, columns, readColumns⟩
      (update.fromTable.isSome || !update.table.joins.isEmpty) frame expr := by
  intro spelled
  cases expr with
  | identifier ident =>
    simp only [namesRowKey, Bool.and_eq_true, Bool.not_eq_true', beq_iff_eq] at spelled
    rcases @resolve_cases frame [ident] ident rfl with missing | ⟨index, listed, found⟩
    · exact .inl (congrArg some missing)
    · have first := candidates_of_alone target visibles spelled.1 _ _ index
        (by rw [listed]; exact List.mem_singleton_self _)
      rw [first, spelled.2] at found
      exact .inr (congrArg some found)
  | compoundIdentifier idents =>
    simp only [namesRowKey] at spelled
    split at spelled
    · rename_i column last
      simp only [Bool.and_eq_true, beq_iff_eq] at spelled
      simp only [Frame.reference]
      by_cases short : idents.length < 2
      · exact .inl (by rw [if_pos short])
      · rw [if_neg short, ← spelled.1]
        rcases resolve_qualified target visibles free last (not_lt.mp short) spelled.2 with
          missing | found
        · exact .inl (congrArg some missing)
        · exact .inr (congrArg some found)
    · cases spelled
  | _ => cases spelled

def searchedTarget (context : Context) (columns : Columns) (name : ObjectName)
    (named : Option TableAlias) : ScopedTable :=
  ⟨aliasName named, name.map normalize, columns, context.catalog.readColumnsOf name⟩

def joinsOthers (update : Update Query) : Bool :=
  update.fromTable.isSome || !update.table.joins.isEmpty

theorem updateRow_known {context : Context} {schema table : String}
    (target : update.table.relation = .table name args named)
    (resolved : resolvedName name = some (schema, table))
    (declared : context.rowKeySpec schema table = some spec)
    (known : updateRow context update columns = .known source) :
    ∃ condition, update.selection = some condition ∧
      rowKeyInPredicate spec (searchedTarget context columns name named) (joinsOthers update)
        condition = some source := by
  simp only [updateRow, target, resolved, declared] at known
  split at known
  · cases known
  · split at known
    · rename_i held found
      cases known
      exact Option.bind_eq_some_iff.mp found
    · cases known

end Update

def operandText (frame : Frame) (expr : Expr Query) : Option Bytes :=
  match frame.reference expr with
  | some found => found.bind fun place => frame.rows place.1 place.2
  | none => literalPlaintext expr .text

/-- A server that is sent no parameters and decides equalities by their operands. -/
def comparingServer : Server Query where
  pg := basicPg
  keyColumn := .integer .int4
  escapeStrings := false
  formats := []
  values := []
  cast := fun _ _ bytes => some bytes
  other := fun _ _ _ => none
  truth := fun frame condition =>
    match condition with
    | .binary (.op .eq) left right =>
      match operandText frame left, operandText frame right with
      | some first, some second => first == second
      | _, _ => false
    | _ => false
  defaults := fun _ stored => stored = none

def emptyBind : BindMessage := ⟨[], [], [], [], []⟩

end Dbsec.PinnedRow
