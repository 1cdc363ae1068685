import Dbsec.Outcome
import Dbsec.Writes

/-! What an accepted rewrite leaves of every value it may seal, as a function of the
client's statement alone and under either policy: seal.rs decides the stored form of a
value from the value and the row it goes to, and the policy only decides whether a value
it cannot seal is let through. -/
namespace Dbsec.SealedForm
open Framing Sql Params Unprotected Catalog Literals Scope Accumulate Rewrite Predicate Seal
open QueryWalk Statements Writes

section Values
variable {Query : Type} {context : Context}

/-- The stored form of a literal, if it can be sealed while the statement is rewritten. -/
def sealedLiteral (context : Context) (transform : FieldTransform) (row : RowKeySource)
    (expr : Expr Query) : Option Bytes :=
  if literalAgreesWithServer context expr then
    (literalPlaintext expr transform.wire).bind fun plaintext =>
      match row with
      | .literal key => (transform.sealValue plaintext (some key)).toOption
      | .param .. => none
      | .none => (transform.sealValue plaintext none).toOption
  else none

def sealedForm (context : Context) (transform : FieldTransform) (row : RowKeySource)
    (expr : Expr Query) : Expr Query :=
  match unwrapCasts expr with
  | .value (.placeholder _) => expr
  | .value .null => expr
  | _ =>
    match sealedLiteral context transform row expr with
    | some stored => storedLiteral transform.wire stored
    | none => expr

/-- Bind seals the parameter with the column's transform and this row's key. -/
def RecordedFor (params : ParamTransforms) (transform : FieldTransform) (row : RowKeySource)
    (index : Nat) : Prop :=
  ∃ held, (index, ParamAction.sealWith held row) ∈ params.entries ∧
    held.identity = transform.identity

def BindsLater (params : ParamTransforms) (transform : FieldTransform) (row : RowKeySource)
    (expr : Expr Query) : Prop :=
  ∀ text index, unwrapCasts expr = .value (.placeholder text) →
    placeholderIndex text = some index → RecordedFor params transform row index

/-- A literal the rewriter can read, in a row whose key it knows, does get sealed. -/
def Readable (context : Context) (transform : FieldTransform) (row : RowKeySource)
    (expr : Expr Query) : Prop :=
  literalAgreesWithServer context expr = true → ∀ plaintext,
    literalPlaintext expr transform.wire = some plaintext →
      (∀ index oid column, row ≠ .param index oid column) →
        (sealedLiteral context transform row expr).isSome

variable {before after : ParamTransforms}

variable {transform : FieldTransform} {row : RowKeySource} {index : Nat}

theorem RecordedFor.mono (grown : before ≤ after)
    (recorded : RecordedFor before transform row index) :
    RecordedFor after transform row index := by
  obtain ⟨held, listed, same⟩ := recorded
  exact ⟨held, mem_of_le grown listed, same⟩

variable {expr : Expr Query}

theorem BindsLater.mono (grown : before ≤ after) (later : BindsLater before transform row expr) :
    BindsLater after transform row expr :=
  fun text index isPlaceholder named => (later text index isPlaceholder named).mono grown

variable {relayed : Expr Query} {changed : Bool}

theorem leave_exact {site : Site} (left : leave context site expr = .ok (relayed, changed)) :
    relayed = expr ∧ changed = false := by
  obtain ⟨_, _, done⟩ := Outcome.bind_ok_iff.mp left
  exact Prod.mk.inj (Except.ok.inj done.symm)

variable {target : SealTarget}

theorem sealPlaintext_exact {plaintext : Bytes} {key : Option Envelope.RowKey}
    (ran : sealPlaintext target plaintext key = .ok (relayed, changed)) :
    ∃ stored, target.transform.sealValue plaintext key = .ok stored ∧
      relayed = storedLiteral target.transform.wire stored ∧ changed = true := by
  unfold sealPlaintext at ran
  split at ran
  · rename_i stored produced
    obtain ⟨rfl, rfl⟩ := Prod.mk.inj (Except.ok.inj ran)
    exact ⟨stored, produced, rfl, rfl⟩
  · cases ran

theorem sealLiteral_exact (ran : sealLiteral context target expr = .ok (relayed, changed)) :
    relayed = ((sealedLiteral context target.transform target.row expr).map
        (storedLiteral target.transform.wire)).getD expr ∧
      changed = (sealedLiteral context target.transform target.row expr).isSome ∧
      Readable context target.transform target.row expr := by
  unfold sealLiteral at ran
  unfold Readable sealedLiteral
  split at ran
  · rename_i agrees
    simp only [if_pos agrees]
    split at ran
    · rename_i unread
      obtain ⟨rfl, rfl⟩ := leave_exact ran
      simp [unread]
    · rename_i plaintext read
      simp only [read, Option.bind_some]
      split at ran
      · rename_i key same
        obtain ⟨stored, produced, rfl, rfl⟩ := sealPlaintext_exact ran
        simp [same, produced, Except.toOption]
      · rename_i index oid column same
        obtain ⟨rfl, rfl⟩ := leave_exact ran
        simp [same]
      · rename_i same
        obtain ⟨stored, produced, rfl, rfl⟩ := sealPlaintext_exact ran
        simp [same, produced, Except.toOption]
  · rename_i disagrees
    obtain ⟨rfl, rfl⟩ := leave_exact ran
    simp [disagrees]

theorem sealAtBind_exact {text : String} (ran : sealAtBind target text before = .ok ((), after))
    (named : placeholderIndex text = some index) :
    RecordedFor after target.transform target.row index := by
  unfold sealAtBind at ran
  rw [named] at ran
  obtain ⟨_, held, listed, rfl | agrees⟩ := recordParam_ok ran
  · exact ⟨_, listed, rfl⟩
  · cases held with
    | sealWith transform row =>
      simp only [ParamAction.agreesWith, Bool.and_eq_true, beq_iff_eq] at agrees
      obtain ⟨same, rfl⟩ := agrees
      exact ⟨transform, listed, same⟩
    | searchIndex transform => cases agrees
    | searchIndexArray transform column => cases agrees

theorem sealExpr_exact
    (ran : sealExpr context target expr before = .ok ((relayed, changed), after)) :
    relayed = sealedForm context target.transform target.row expr ∧
      (BindsLater after target.transform target.row expr ∧
        Readable context target.transform target.row expr) ∧
      (changed = false → relayed = expr) := by
  generalize passes : sealExpr context target expr = pass at ran
  unfold sealExpr at passes
  split at passes <;> subst passes
  · rename_i text isPlaceholder
    obtain ⟨_, middle, recording, done⟩ := bind_run_iff.mp ran
    obtain ⟨rfl, rfl, rfl⟩ := pure_pair done
    refine ⟨by simp only [sealedForm, isPlaceholder], ⟨fun other index isOther named => ?_,
      fun _ plaintext read => ?_⟩, fun _ => rfl⟩
    · rw [isPlaceholder] at isOther
      cases isOther
      exact sealAtBind_exact recording named
    · simp only [literalPlaintext, isPlaceholder] at read
      cases read
  · rename_i isNull
    obtain ⟨rfl, rfl, rfl⟩ := pure_pair ran
    refine ⟨by simp only [sealedForm, isNull], ⟨fun other index isOther _ => ?_,
      fun _ plaintext read => ?_⟩, fun _ => rfl⟩
    · rw [isNull] at isOther
      cases isOther
    · simp only [literalPlaintext, isNull] at read
      cases read
  · rename_i notPlaceholder notNull
    obtain ⟨sealing, rfl⟩ := monadLift_run_iff.mp ran
    obtain ⟨rfl, rfl, readable⟩ := sealLiteral_exact sealing
    refine ⟨?_, ⟨fun text index isPlaceholder _ => absurd isPlaceholder (notPlaceholder text),
      readable⟩, ?_⟩
    · unfold sealedForm
      split
      · rename_i text isPlaceholder
        exact absurd isPlaceholder (notPlaceholder text)
      · rename_i isNull
        exact absurd isNull notNull
      · cases sealedLiteral context target.transform target.row expr <;> rfl
    · intro unset
      rw [Option.isSome_eq_false_iff, Option.isNone_iff_eq_none] at unset
      rw [unset]
      rfl

end Values

section Lift
variable {Query : Type} {context : Context} {scope : AssignmentScope}

/-- A property of sealed values that assignment lists inherit element by element:
`holds` for a value that was looked at, `omitted` for a target whose value could not be
matched to it. -/
structure Inherited (context : Context) (scope : AssignmentScope)
    (holds : ParamTransforms → Ident → Expr Query → Expr Query → Prop)
    (omitted : Ident → Prop) : Prop where
  mono : ∀ {before after ident value relayed}, before ≤ after →
    holds before ident value relayed → holds after ident value relayed
  step : ∀ {ident value relayed changed before after},
    sealAssigned context scope ident value before = .ok ((relayed, changed), after) →
      holds after ident value relayed ∧ (changed = false → relayed = value)
  bare : ∀ {ident}, scope.columns.get (normalize ident) = none → omitted ident
  signalled : ∀ {names} {value : Expr Query} {shape before result},
    (protectedTargets scope.columns names).isEmpty = false →
    signalTuple context scope.columns names value shape before = .ok result →
      ∀ ident, omitted ident

def Lifted (holds : ParamTransforms → Ident → Expr Query → Expr Query → Prop)
    (omitted : Ident → Prop) (params : ParamTransforms)
    (before after : Ident × Option (Expr Query)) : Prop :=
  before.1 = after.1 ∧
    ((∃ value relayed, before.2 = some value ∧ after.2 = some relayed ∧
        holds params before.1 value relayed) ∨
      before.2 = none ∧ after.2 = none ∧ omitted before.1)

variable {holds : ParamTransforms → Ident → Expr Query → Expr Query → Prop}
  {omitted : Ident → Prop}

theorem Lifted.mono (inherited : Inherited context scope holds omitted)
    {first last : ParamTransforms} (grown : first ≤ last)
    {before after : Ident × Option (Expr Query)}
    (lifted : Lifted holds omitted first before after) :
    Lifted holds omitted last before after := by
  obtain ⟨same, ⟨value, relayed, had, has, held⟩ | missing⟩ := lifted
  · exact ⟨same, .inl ⟨value, relayed, had, has, inherited.mono grown held⟩⟩
  · exact ⟨same, .inr missing⟩

variable {ident : Ident}

theorem Inherited.unprotected (inherited : Inherited context scope holds omitted)
    (unguarded : scope.columns.get (normalize ident) = none) (params : ParamTransforms)
    (value : Option (Expr Query)) :
    Lifted holds omitted params (ident, value) (ident, value) := by
  cases value with
  | none => exact ⟨rfl, .inr ⟨rfl, rfl, inherited.bare unguarded⟩⟩
  | some value =>
    have ran : sealAssigned context scope ident value params = .ok ((value, false), params) := by
      simp only [sealAssigned, unguarded]
      rfl
    exact ⟨rfl, .inl ⟨value, value, rfl, rfl, (inherited.step ran).1⟩⟩

variable {relayed : Expr Query} {changed : Bool} {before after : ParamTransforms}

variable {name : ObjectName} {value : Expr Query}

theorem sealNamed_lift (inherited : Inherited context scope holds omitted)
    (ran : sealNamed context scope name value before = .ok ((relayed, changed), after)) :
    (∀ ident, name.getLast? = some ident → holds after ident value relayed) ∧
      (changed = false → relayed = value) := by
  cases last : name.getLast? with
  | none =>
    simp only [sealNamed, last] at ran
    obtain ⟨rfl, rfl, rfl⟩ := pure_pair ran
    exact ⟨by simp, fun _ => rfl⟩
  | some ident =>
    simp only [sealNamed, last] at ran
    obtain ⟨held, unchanged⟩ := inherited.step ran
    refine ⟨fun other same => ?_, unchanged⟩
    cases same
    exact held

variable {names : List ObjectName}

theorem sealElements_lift (inherited : Inherited context scope holds omitted)
    {client relayed : List (Expr Query)}
    (ran : sealElements context scope names client before = .ok ((relayed, changed), after)) :
    relayed.length = client.length ∧ (changed = false → relayed = client) ∧
      ∀ (position : Nat) (name : ObjectName) (value : Expr Query),
        names[position]? = some name → client[position]? = some value →
        ∃ result, relayed[position]? = some result ∧ ∀ ident, name.getLast? = some ident →
          holds after ident value result := by
  fun_induction sealElements context scope names client generalizing relayed changed before with
  | case1 name names element elements ih =>
    obtain ⟨result, flag, tail, later, middle, rfl, rfl, here, there⟩ := both_run ran
    obtain ⟨held, unchanged⟩ := sealNamed_lift inherited here
    obtain ⟨sameLength, tailUnchanged, each⟩ := ih there
    have grown := grows_sealElements _ _ _ _ _ there
    refine ⟨by simp [sameLength], fun unset => ?_, fun position => ?_⟩
    · rw [Bool.or_eq_false_iff] at unset
      rw [unchanged unset.1, tailUnchanged unset.2]
    · cases position with
      | zero =>
        intro other value named there
        cases Option.some.inj named
        cases Option.some.inj there
        exact ⟨result, rfl, fun ident last => inherited.mono grown (held ident last)⟩
      | succ position => exact each position
  | case2 names elements mismatched =>
    obtain ⟨rfl, rfl, rfl⟩ := pure_pair ran
    refine ⟨rfl, fun _ => rfl, fun position name value named held => ?_⟩
    -- One of the two lists is empty, so no position holds both.
    cases names with
    | nil => simp at named
    | cons first names =>
      cases elements with
      | nil => simp at held
      | cons element elements => exact absurd rfl (mismatched first names element elements rfl)

variable {client : Expr Query}

theorem forall₂_assigned_tuple
    {P : Ident × Option (Expr Query) → Ident × Option (Expr Query) → Prop}
    (each : ∀ (position : Nat) (name : ObjectName) (ident : Ident),
      names[position]? = some name → name.getLast? = some ident →
        P (ident, elementAt names.length client position)
          (ident, elementAt names.length relayed position)) :
    List.Forall₂ P (assigned (.tuple names) client) (assigned (.tuple names) relayed) := by
  have same : List.Forall₂ (fun left right => left = right ∧ left ∈ names.zipIdx)
      names.zipIdx names.zipIdx :=
    List.forall₂_same.mpr fun entry listed => ⟨rfl, listed⟩
  refine List.rel_filterMap ?_ same
  rintro ⟨name, position⟩ _ ⟨rfl, listed⟩
  have held : names[position]? = some name := List.mem_zipIdx_iff_getElem?.mp listed
  cases last : name.getLast? with
  | none => simp [last]
  | some ident => simpa [last] using each position name ident held last

theorem unprotected_of_no_targets {columns : Columns}
    (empty : (protectedTargets columns names).isEmpty = true) {position : Nat}
    (held : names[position]? = some name) (last : name.getLast? = some ident) :
    columns.get (normalize ident) = none := by
  rw [List.isEmpty_iff, protectedTargets, List.filterMap_eq_nil_iff] at empty
  have skipped := empty name (List.mem_of_getElem? held)
  cases found : columns.get (normalize ident) with
  | none => rfl
  | some transform => simp [last, found] at skipped

theorem signalTuple_lift (inherited : Inherited context scope holds omitted)
    (targets : (protectedTargets scope.columns names).isEmpty = false) {shape : String}
    (unmatched : ∀ position, position < names.length →
      elementAt names.length value position = none)
    (ran : signalTuple context scope.columns names value shape before =
      .ok ((relayed, changed), after)) :
    List.Forall₂ (Lifted holds omitted after) (assigned (.tuple names) value)
      (assigned (.tuple names) relayed) ∧ (changed = false → relayed = value) := by
  have omits := inherited.signalled targets ran
  obtain ⟨_, _, _, done⟩ := bind_run_iff.mp ran
  obtain ⟨rfl, rfl, rfl⟩ := pure_pair done
  refine ⟨forall₂_assigned_tuple fun position name ident held last => ?_, fun _ => rfl⟩
  rw [unmatched position (List.getElem?_eq_some_iff.mp held).1]
  exact ⟨rfl, .inr ⟨rfl, rfl, omits ident⟩⟩

theorem sealTuple_lift (inherited : Inherited context scope holds omitted)
    (targets : (protectedTargets scope.columns names).isEmpty = false)
    (ran : sealTuple context scope names client before = .ok ((relayed, changed), after)) :
    List.Forall₂ (Lifted holds omitted after) (assigned (.tuple names) client)
      (assigned (.tuple names) relayed) ∧ (changed = false → relayed = client) := by
  generalize passes : sealTuple context scope names client = pass at ran
  unfold sealTuple at passes
  split at passes
  · rename_i elements
    split at passes <;> subst passes
    · rename_i paired
      obtain ⟨results, rfl, sealedOnes⟩ := wrap_run ran
      obtain ⟨sameLength, unchanged, each⟩ := sealElements_lift inherited sealedOnes
      refine ⟨forall₂_assigned_tuple fun position name ident held last => ?_, fun unset => ?_⟩
      · have inside : position < elements.length := by
          rw [paired]
          exact (List.getElem?_eq_some_iff.mp held).1
        have value := List.getElem?_eq_getElem inside
        obtain ⟨result, found, holdsHere⟩ := each position name _ held value
        simp only [elementAt, paired, sameLength, if_true, value, found]
        exact ⟨rfl, .inl ⟨_, _, rfl, rfl, holdsHere ident last⟩⟩
      · rw [unchanged unset]
    · -- A row of another length is signalled and sent on as it is.
      rename_i unpaired
      exact signalTuple_lift inherited targets
        (fun position _ => by simp only [elementAt, if_neg unpaired]) ran
  · rename_i inner
    split at passes <;> subst passes
    · rename_i name
      obtain ⟨result, rfl, sealedOne⟩ := wrap_run ran
      obtain ⟨holdsHere, unchanged⟩ := sealNamed_lift inherited sealedOne
      refine ⟨forall₂_assigned_tuple fun position other ident held last => ?_, fun unset => ?_⟩
      · obtain rfl : name = other := by
          obtain ⟨inside, equal⟩ := List.getElem?_eq_some_iff.mp held
          simpa [Nat.lt_one_iff.mp inside] using equal
        exact ⟨rfl, .inl ⟨_, _, rfl, rfl, holdsHere ident last⟩⟩
      · rw [unchanged unset]
    · rename_i several
      refine signalTuple_lift inherited targets (fun position inside => ?_) ran
      have plural : names.length ≠ 1 := by
        intro one
        obtain ⟨name, rfl⟩ := List.length_eq_one_iff.mp one
        exact several name rfl
      simp only [elementAt, if_neg plural]
  · rename_i notTuple notNested
    subst passes
    refine signalTuple_lift inherited targets (fun position _ => ?_) ran
    unfold elementAt
    split
    · exact (notTuple _ rfl).elim
    · exact (notNested _ rfl).elim
    · rfl

theorem sealAssignment_lift (inherited : Inherited context scope holds omitted)
    {client relayed : Assignment Query}
    (ran : sealAssignment context scope client before = .ok ((relayed, changed), after)) :
    relayed.target = client.target ∧
      List.Forall₂ (Lifted holds omitted after) (assigned client.target client.value)
        (assigned client.target relayed.value) ∧ (changed = false → relayed = client) := by
  obtain ⟨target, value⟩ := client
  cases target with
  | columnName name =>
    obtain ⟨result, rfl, sealedOne⟩ := wrap_run ran
    obtain ⟨holdsHere, unchanged⟩ := sealNamed_lift inherited sealedOne
    refine ⟨rfl, ?_, fun unset => by rw [unchanged unset]⟩
    cases last : name.getLast? with
    | none => simp [assigned, last]
    | some ident =>
      simp only [assigned, last, Option.toList_some, List.map_cons, List.map_nil]
      exact .cons ⟨rfl, .inl ⟨_, _, rfl, rfl, holdsHere ident last⟩⟩ .nil
  | tuple names =>
    obtain ⟨result, rfl, sealedOne⟩ := wrap_run ran
    unfold sealTupleAssignment at sealedOne
    cases targets : (protectedTargets scope.columns names).isEmpty with
    | true =>
      rw [if_pos targets] at sealedOne
      obtain ⟨rfl, rfl, rfl⟩ := pure_pair sealedOne
      refine ⟨rfl, forall₂_assigned_tuple fun position name ident held last => ?_, fun _ => rfl⟩
      exact inherited.unprotected (unprotected_of_no_targets targets held last) _ _
    | false =>
      rw [if_neg (by simp [targets])] at sealedOne
      obtain ⟨entries, unchanged⟩ := sealTuple_lift inherited targets sealedOne
      exact ⟨rfl, entries, fun unset => by rw [unchanged unset]⟩

/-- One assignment before and after: the same targets, and something holds of each. -/
def AssignmentBy (entry : Ident × Option (Expr Query) → Ident × Option (Expr Query) → Prop)
    (before after : Assignment Query) : Prop :=
  after.target = before.target ∧ List.Forall₂ entry
    (assigned before.target before.value) (assigned before.target after.value)

def AssignmentLifted (holds : ParamTransforms → Ident → Expr Query → Expr Query → Prop)
    (omitted : Ident → Prop) (params : ParamTransforms) :
    Assignment Query → Assignment Query → Prop :=
  AssignmentBy (Lifted holds omitted params)

/-- Whatever `sealAssigned` guarantees of one value, an accepted assignment list
guarantees of each of its values. -/
theorem sealAssignments_lift (inherited : Inherited context scope holds omitted)
    {before after : List (Assignment Query)} {start final : ParamTransforms}
    (ran : sealAssignments context scope before start = .ok ((after, changed), final)) :
    List.Forall₂ (AssignmentLifted holds omitted final) before after ∧
      (changed = false → after = before) := by
  have each := rewriteEach_ok (fun assignment => grows_sealAssignment assignment) ran
  constructor
  · refine each.imp ?_
    rintro first last ⟨_, flag, middle, accepted, within, _⟩
    obtain ⟨same, entries, _⟩ := sealAssignment_lift inherited accepted
    exact ⟨same, entries.imp fun _ _ entry => entry.mono inherited within⟩
  · intro unset
    have equal : List.Forall₂ Eq before after := by
      refine each.imp ?_
      rintro first last ⟨_, flag, middle, accepted, _, marked⟩
      obtain ⟨_, _, unchanged⟩ := sealAssignment_lift inherited accepted
      refine (unchanged ?_).symm
      by_contra set
      rw [marked (by simpa using set)] at unset
      cases unset
    rw [List.forall₂_eq_eq_eq] at equal
    exact equal.symm

end Lift

section Sweep
variable {Query : Type} {rewriteQuery : Query → Pass (Query × Bool)}

/-- Values that hold no query, so the sweep for nested queries leaves them alone. -/
inductive Settled : Expr Query → Prop where
  | value (value : Value) : Settled (.value value)
  | compoundIdentifier (idents : List Ident) : Settled (.compoundIdentifier idents)
  | unary (kind : UnaryKind) {inner : Expr Query} : Settled inner → Settled (.unary kind inner)

variable {expr : Expr Query}

theorem settled_of_unwrapCasts (settled : Settled (unwrapCasts expr)) : Settled expr :=
  unwrapCasts_induction expr settled (fun _ _ inner => .unary _ inner) fun _ inner => .unary _ inner

theorem settled_storedLiteral (wire : WireForm) (stored : Bytes) :
    Settled (storedLiteral wire stored : Expr Query) := by
  cases wire with
  | bytea => exact .value _
  | text => exact .value _

theorem settled_of_numberText {text : List Char} (read : numberText expr = some text) :
    Settled expr := by
  apply settled_of_unwrapCasts
  unfold numberText at read
  split at read
  · rename_i number
    rw [number]
    exact .value _
  · cases read

theorem settled_of_literalPlaintext {wire : WireForm} {plaintext : Bytes}
    (read : literalPlaintext expr wire = some plaintext) : Settled expr := by
  apply settled_of_unwrapCasts
  unfold literalPlaintext at read
  split at read
  case h_7 inner minus =>
      obtain ⟨text, number, _⟩ := Option.map_eq_some_iff.mp read
      rw [minus]
      exact .unary _ (settled_of_numberText number)
  case h_8 inner plus =>
      obtain ⟨text, number, _⟩ := Option.map_eq_some_iff.mp read
      rw [plus]
      exact .unary _ (settled_of_numberText number)
  case h_9 => cases read
  all_goals
    rename_i text isText
    rw [isText]
    exact .value _

variable {value : Expr Query}

theorem settled_of_reStores {scope : AssignmentScope} {column : String}
    (restored : reStoresASealedValue scope value column = true) :
    ∃ qualifier referenced, value = .compoundIdentifier [qualifier, referenced] ∧
      normalize qualifier = "excluded" ∧ normalize referenced = column ∧
        column ∈ scope.sealedColumns := by
  unfold reStoresASealedValue at restored
  split at restored
  · rename_i qualifier referenced
    simp only [Bool.and_eq_true, beq_iff_eq, List.contains_iff_mem] at restored
    exact ⟨qualifier, referenced, rfl, restored.1.1, restored.1.2, restored.2⟩
  · cases restored

variable {relayed : Expr Query} {changed : Bool} {before after : ParamTransforms}

theorem sweep_settled (settled : Settled expr)
    (ran : rewriteNestedQueries rewriteQuery expr before = .ok ((relayed, changed), after)) :
    relayed = expr := by
  induction settled generalizing relayed changed after with
  | value value =>
    simp only [rewriteNestedQueries] at ran
    obtain ⟨same, rfl⟩ := pure_run_iff.mp ran
    exact (Prod.mk.inj same).1.symm
  | compoundIdentifier idents =>
    simp only [rewriteNestedQueries] at ran
    obtain ⟨same, rfl⟩ := pure_run_iff.mp ran
    exact (Prod.mk.inj same).1.symm
  | unary kind _ ih =>
    simp only [rewriteNestedQueries] at ran
    obtain ⟨result, rfl, here⟩ := wrap_run ran
    rw [ih here]

theorem sweepEach_settled {list relayed : List (Expr Query)}
    (ran : rewriteNestedEach rewriteQuery list before = .ok ((relayed, changed), after)) :
    relayed.length = list.length ∧ ∀ (position : Nat) (expr : Expr Query),
      list[position]? = some expr → Settled expr → relayed[position]? = some expr := by
  induction list generalizing relayed changed before with
  | nil =>
    simp only [rewriteNestedEach] at ran
    obtain ⟨rfl, rfl, rfl⟩ := pure_pair ran
    exact ⟨rfl, nofun⟩
  | cons first rest ih =>
    simp only [rewriteNestedEach] at ran
    obtain ⟨result, flag, tail, later, middle, rfl, rfl, here, there⟩ := both_run ran
    obtain ⟨sameLength, each⟩ := ih there
    refine ⟨by simp [sameLength], fun position => ?_⟩
    cases position with
    | zero =>
      intro expr held settled
      cases Option.some.inj held
      rw [sweep_settled settled here]
      rfl
    | succ position => exact each position

/-- The sweep leaves a settled value alone. -/
def SweptEntry (before after : Ident × Option (Expr Query)) : Prop :=
  before.1 = after.1 ∧ ∀ expr, before.2 = some expr → Settled expr → after.2 = some expr

theorem sweep_assigned (target : AssignmentTarget)
    (ran : rewriteNestedQueries rewriteQuery value before = .ok ((relayed, changed), after)) :
    List.Forall₂ SweptEntry (assigned target value) (assigned target relayed) := by
  cases target with
  | columnName name =>
    cases last : name.getLast? with
    | none => simp [assigned, last]
    | some ident =>
      simp only [assigned, last, Option.toList_some, List.map_cons, List.map_nil]
      refine .cons ⟨rfl, fun expr held settled => ?_⟩ .nil
      cases held
      rw [sweep_settled settled ran]
  | tuple names =>
    refine forall₂_assigned_tuple fun position name ident held last => ⟨rfl, ?_⟩
    intro expr found settled
    unfold elementAt at found
    split at found
    · rename_i elements
      split at found
      · rename_i paired
        simp only [rewriteNestedQueries] at ran
        obtain ⟨results, rfl, here⟩ := wrap_run ran
        obtain ⟨sameLength, each⟩ := sweepEach_settled here
        simp only [elementAt, sameLength, paired, if_true]
        exact each position expr found settled
      · cases found
    · rename_i inner
      split at found
      · rename_i single
        cases found
        simp only [rewriteNestedQueries] at ran
        obtain ⟨result, rfl, here⟩ := wrap_run ran
        simp only [elementAt, single, if_true]
        rw [sweep_settled settled here]
      · cases found
    · cases found

end Sweep

section Assignments
variable {Query : Type} {context : Context} {scope : AssignmentScope}

/-- The row a protected assignment is sealed against once its gaps were let through. -/
def rowSource : AssignmentRow → RowKeySource
  | .known source => source
  | .missing .. => .none
  | .reassigned .. => .none

/-- A value for the column `ident` as it is relayed in an assignment. -/
def assignedForm (context : Context) (scope : AssignmentScope) (ident : Ident)
    (value : Expr Query) : Expr Query :=
  match scope.columns.get (normalize ident) with
  | none => value
  | some transform =>
    if reStoresASealedValue scope value (normalize ident) then value
    else sealedForm context transform (rowSource scope.row) value

def Exact (context : Context) (scope : AssignmentScope) (params : ParamTransforms) (ident : Ident)
    (value relayed : Expr Query) : Prop :=
  relayed = assignedForm context scope ident value ∧
    ∀ transform, scope.columns.get (normalize ident) = some transform →
      BindsLater params transform (rowSource scope.row) value ∧
        Readable context transform (rowSource scope.row) value

theorem rowOf_exact {row : AssignmentRow} {source : RowKeySource}
    (found : rowOf context row = .ok source) : source = rowSource row := by
  cases row with
  | known held => exact (Except.ok.inj found).symm
  | missing table column shape =>
    obtain ⟨_, _, done⟩ := Outcome.bind_ok_iff.mp found
    exact (Except.ok.inj done).symm
  | reassigned table column =>
    obtain ⟨_, _, done⟩ := Outcome.bind_ok_iff.mp found
    exact (Except.ok.inj done).symm

variable {value : Expr Query} {column : String}

theorem not_placeholder_of_reStores (restored : reStoresASealedValue scope value column = true)
    (text : String) :
    unwrapCasts value ≠ .value (.placeholder text) := by
  unfold reStoresASealedValue at restored
  split at restored
  · nofun
  · cases restored

theorem literalPlaintext_of_reStores (restored : reStoresASealedValue scope value column = true)
    (wire : WireForm) :
    literalPlaintext value wire = none := by
  unfold reStoresASealedValue at restored
  split at restored
  · rfl
  · cases restored

theorem sealAssigned_exact {ident : Ident} {relayed : Expr Query} {changed : Bool}
    {before after : ParamTransforms}
    (ran : sealAssigned context scope ident value before = .ok ((relayed, changed), after)) :
    Exact context scope after ident value relayed ∧ (changed = false → relayed = value) := by
  cases guarded : scope.columns.get (normalize ident) with
  | none =>
    simp only [sealAssigned, guarded] at ran
    obtain ⟨rfl, rfl, rfl⟩ := pure_pair ran
    refine ⟨⟨by simp only [assignedForm, guarded], fun transform protects => ?_⟩, fun _ => rfl⟩
    cases guarded.symm.trans protects
  | some transform =>
    simp only [sealAssigned, guarded] at ran
    obtain ⟨row, first, inRow, ran⟩ := bind_run_iff.mp ran
    obtain ⟨found, rfl⟩ := monadLift_run_iff.mp inRow
    obtain rfl := rowOf_exact found
    cases restored : reStoresASealedValue scope value (normalize ident) with
    | true =>
      simp only [restored, if_true] at ran
      obtain ⟨rfl, rfl, rfl⟩ := pure_pair ran
      refine ⟨⟨by simp only [assignedForm, guarded, restored, if_true], ?_⟩, fun _ => rfl⟩
      exact fun _ _ => ⟨fun text _ isPlaceholder _ =>
        absurd isPlaceholder (not_placeholder_of_reStores restored text),
        fun _ _ read => by rw [literalPlaintext_of_reStores restored] at read; cases read⟩
    | false =>
      simp only [restored, Bool.false_eq_true, if_false] at ran
      obtain ⟨rfl, binds, unchanged⟩ := sealExpr_exact ran
      refine ⟨⟨?_, fun other protects => ?_⟩, unchanged⟩
      · simp only [assignedForm, guarded, restored, Bool.false_eq_true, if_false]
      · cases guarded.symm.trans protects
        exact binds

theorem exact_inherited (context : Context) (scope : AssignmentScope) :
    Inherited context scope (@Exact Query context scope) fun _ => True where
  mono grown exactly := ⟨exactly.1, fun transform guarded =>
    ⟨(exactly.2 transform guarded).1.mono grown, (exactly.2 transform guarded).2⟩⟩
  step ran := sealAssigned_exact ran
  bare _ := trivial
  signalled _ _ _ := trivial

end Assignments

section Rows
variable {Query Statement : Type} {context : Context} {columns : Columns}

def listedForm (context : Context) (columns : Columns) (row : RowKeySource) (ident : Ident)
    (value : Expr Query) : Expr Query :=
  match columns.get (normalize ident) with
  | some transform => sealedForm context transform row value
  | none => value

def rowForm (context : Context) (columns : Columns) (row : RowKeySource) :
    List Ident → List (Expr Query) → List (Expr Query)
  | ident :: idents, value :: rest =>
    listedForm context columns row ident value :: rowForm context columns row idents rest
  | _, rest => rest

/-- The key a VALUES row is sealed against once its gaps were let through. -/
def proposedSource (key : Option (ResolvedRowKey × Nat)) (row : List (Expr Query)) : RowKeySource :=
  match key with
  | none => .none
  | some (spec, position) => (row[position]?.bind (rowKeySource spec)).getD .none

/-- The declared row key of the table and its place in the column list. -/
def listedKey (context : Context) (schema tableName : String) (idents : List Ident) :
    Option (ResolvedRowKey × Nat) :=
  (context.rowKeySpec schema tableName).bind fun spec =>
    (idents.findIdx? fun ident => normalize ident == spec.name).map fun position => (spec, position)

/-- Every value a row holds for a protected column is sealed now if it can be read and by
Bind if it is a placeholder. -/
def RowBinds (context : Context) (columns : Columns) (row : RowKeySource)
    (params : ParamTransforms) (idents : List Ident) (values : List (Expr Query)) : Prop :=
  ∀ entry ∈ idents.zip values, ∀ transform, columns.get (normalize entry.1) = some transform →
    BindsLater params transform row entry.2 ∧ Readable context transform row entry.2

variable {before after : ParamTransforms} {idents : List Ident}

variable {row : RowKeySource} {values : List (Expr Query)}

theorem RowBinds.mono (grown : before ≤ after)
    (binds : RowBinds context columns row before idents values) :
    RowBinds context columns row after idents values :=
  fun entry listed transform guarded =>
    ⟨(binds entry listed transform guarded).1.mono grown, (binds entry listed transform guarded).2⟩

variable {changed : Bool}

theorem sealListed_exact {ident : Ident} {value relayed : Expr Query}
    (ran : sealListed context columns row ident value before = .ok ((relayed, changed), after)) :
    relayed = listedForm context columns row ident value ∧
      (∀ transform, columns.get (normalize ident) = some transform →
        BindsLater after transform row value ∧ Readable context transform row value) ∧
      (changed = false → relayed = value) := by
  cases guarded : columns.get (normalize ident) with
  | none =>
    simp only [sealListed, guarded] at ran
    obtain ⟨rfl, rfl, rfl⟩ := pure_pair ran
    exact ⟨by simp only [listedForm, guarded], by simp, fun _ => rfl⟩
  | some transform =>
    simp only [sealListed, guarded] at ran
    obtain ⟨rfl, binds, unchanged⟩ := sealExpr_exact ran
    refine ⟨by simp only [listedForm, guarded], fun other same => ?_, unchanged⟩
    cases same
    exact binds

theorem sealRow_exact {relayed : List (Expr Query)}
    (ran : sealRow context columns row idents values before = .ok ((relayed, changed), after)) :
    relayed = rowForm context columns row idents values ∧
      RowBinds context columns row after idents values ∧ (changed = false → relayed = values) := by
  fun_induction sealRow context columns row idents values generalizing relayed changed before with
  | case1 ident idents value rest ih =>
    obtain ⟨result, flag, tail, later, middle, rfl, rfl, here, there⟩ := both_run ran
    obtain ⟨rfl, binds, unchanged⟩ := sealListed_exact here
    obtain ⟨rfl, restBinds, restUnchanged⟩ := ih there
    have grown := grows_sealRow _ _ _ _ _ _ _ there
    refine ⟨rfl, ?_, fun unset => ?_⟩
    · intro entry listed transform guarded
      rcases List.mem_cons.mp listed with rfl | earlier
      · exact ⟨(binds transform guarded).1.mono grown, (binds transform guarded).2⟩
      · exact restBinds entry earlier transform guarded
    · rw [Bool.or_eq_false_iff] at unset
      rw [unchanged unset.1, restUnchanged unset.2]
  | case2 idents values mismatched =>
    obtain ⟨rfl, rfl, rfl⟩ := pure_pair ran
    -- One of the two lists is empty.
    cases idents with
    | nil => exact ⟨rfl, by simp [RowBinds], fun _ => rfl⟩
    | cons ident idents =>
      cases values with
      | nil => exact ⟨rfl, by simp [RowBinds], fun _ => rfl⟩
      | cons value values => exact absurd rfl (mismatched ident idents value values rfl)

variable {key : Option (ResolvedRowKey × Nat)} {qualified : String} {reported : Bool}

theorem proposedRow_exact {row : List (Expr Query)} {reported' : Bool} {source : RowKeySource}
    (found : proposedRow context qualified key row reported = .ok (source, reported')) :
    source = proposedSource key row := by
  unfold proposedRow at found
  unfold proposedSource
  split at found
  · exact (Prod.mk.inj (Except.ok.inj found)).1.symm
  · split at found
    · rename_i held present
      simp only [present]
      exact (Prod.mk.inj (Except.ok.inj found)).1.symm
    · rename_i absent
      simp only [absent]
      cases reported with
      | true => exact (Prod.mk.inj (Except.ok.inj found)).1.symm
      | false =>
        obtain ⟨_, _, done⟩ := Outcome.bind_ok_iff.mp found
        exact (Prod.mk.inj (Except.ok.inj done)).1.symm

theorem sealRows_exact {rows relayed : List (List (Expr Query))}
    (ran : sealRows context columns idents qualified key reported rows before =
      .ok ((relayed, changed), after)) :
    relayed = rows.map (fun row => rowForm context columns (proposedSource key row) idents row) ∧
      (∀ row ∈ rows, RowBinds context columns (proposedSource key row) after idents row) ∧
      (changed = false → relayed = rows) := by
  induction rows generalizing reported relayed changed before with
  | nil =>
    obtain ⟨rfl, rfl, rfl⟩ := pure_pair ran
    exact ⟨rfl, List.forall_mem_nil _, fun _ => rfl⟩
  | cons row rows ih =>
    obtain ⟨⟨source, reported'⟩, first, inRow, ran⟩ := bind_run_iff.mp ran
    obtain ⟨result, flag, tail, later, middle, rfl, rfl, here, there⟩ := both_run ran
    obtain ⟨found, rfl⟩ := monadLift_run_iff.mp inRow
    obtain rfl := proposedRow_exact found
    obtain ⟨rfl, binds, unchanged⟩ := sealRow_exact here
    obtain ⟨rfl, restBinds, restUnchanged⟩ := ih there
    have grown := grows_sealRows _ _ _ _ _ _ _ _ _ there
    refine ⟨rfl, fun other listed => ?_, fun unset => ?_⟩
    · rcases List.mem_cons.mp listed with rfl | earlier
      · exact binds.mono grown
      · exact restBinds other earlier
    · rw [Bool.or_eq_false_iff] at unset
      rw [unchanged unset.1, restUnchanged unset.2]

theorem insertRowKey_exact {schema tableName : String}
    (found : insertRowKey context schema tableName idents = .ok key) :
    key = listedKey context schema tableName idents := by
  unfold insertRowKey at found
  unfold listedKey
  split at found
  · rename_i undeclared
    rw [undeclared]
    exact (Except.ok.inj found).symm
  · rename_i spec declared
    rw [declared, Option.bind_some]
    split at found
    · rename_i position present
      rw [present]
      exact (Except.ok.inj found).symm
    · rename_i absent
      rw [absent]
      obtain ⟨_, _, done⟩ := Outcome.bind_ok_iff.mp found
      exact (Except.ok.inj done).symm

theorem resolvedName_of_table {name : ObjectName}
    (found : context.table name = .ok (some columns)) : resolvedName name ≠ none := by
  intro missing
  unfold Context.table Context.lookUp at found
  split at found
  · simp only [WriteCatalog.table, missing, Option.bind_none] at found
    cases found
  · obtain ⟨_, _, absent⟩ := Outcome.bind_ok_iff.mp found
    cases absent

def proposedRows (context : Context) (columns : Columns) (insert : Sql.Insert Query Statement) :
    Option (QueryNode Query Statement × List (List (Expr Query)) × Option (ResolvedRowKey × Nat)) :=
  if insert.columns.isEmpty || (protectedIdents columns insert.columns).isEmpty then none
  else insert.source.bind fun source =>
    match source.body with
    | .values rows => (resolvedName insert.tableName).map fun name =>
      (source, rows, listedKey context name.1 name.2 insert.columns)
    | _ => none

/-- The INSERT with its VALUES list sealed, and the columns that sealing covered. -/
def proposedForm (context : Context) (columns : Columns) (insert : Sql.Insert Query Statement) :
    Sql.Insert Query Statement × List String :=
  match proposedRows context columns insert with
  | none => (insert, [])
  | some (source, rows, key) =>
    ({ insert with
        source := some { source with
          body := .values (rows.map fun row =>
            rowForm context columns (proposedSource key row) insert.columns row) } },
      protectedIdents columns insert.columns)

def ProposalsBind (context : Context) (columns : Columns) (params : ParamTransforms)
    (insert : Sql.Insert Query Statement) : Prop :=
  ∀ source rows key, proposedRows context columns insert = some (source, rows, key) →
    ∀ row ∈ rows, RowBinds context columns (proposedSource key row) params insert.columns row

variable {insert : Sql.Insert Query Statement}

theorem unsealed_exact (unsealed : proposedRows context columns insert = none)
    (params : ParamTransforms) :
    (insert, SealedValues.none.columns) = proposedForm context columns insert ∧
      ProposalsBind context columns params insert ∧
      (SealedValues.none.changed = false → insert = insert) := by
  refine ⟨by simp only [proposedForm, unsealed]; rfl, fun source rows key found => ?_,
    fun _ => rfl⟩
  cases unsealed.symm.trans found

variable {relayed : Sql.Insert Query Statement} {sealedValues : SealedValues}

theorem rewriteInsertValues_exact (listed : insert.columns.isEmpty = false)
    (ran : rewriteInsertValues context insert columns before =
      .ok ((relayed, sealedValues), after)) :
    (relayed, sealedValues.columns) = proposedForm context columns insert ∧
      ProposalsBind context columns after insert ∧
      (sealedValues.changed = false → relayed = insert) := by
  generalize passes : rewriteInsertValues context insert columns = pass at ran
  unfold rewriteInsertValues at passes
  split at passes
  · rename_i bare
    subst passes
    obtain ⟨rfl, rfl, rfl⟩ := pure_pair ran
    exact unsealed_exact (by simp [proposedRows, bare]) _
  · rename_i guarded
    split at passes
    · rename_i noSource
      subst passes
      obtain ⟨rfl, rfl, rfl⟩ := pure_pair ran
      exact unsealed_exact (by simp [proposedRows, noSource]) _
    · rename_i source held
      split at passes
      · rename_i rows isValues
        split at passes
        · rename_i unresolved
          subst passes
          obtain ⟨rfl, rfl, rfl⟩ := pure_pair ran
          exact unsealed_exact (by simp [proposedRows, held, isValues, unresolved]) _
        · rename_i schema tableName resolved
          subst passes
          obtain ⟨key, first, inKey, ran⟩ := bind_run_iff.mp ran
          obtain ⟨⟨result, changed⟩, second, sealing, done⟩ := bind_run_iff.mp ran
          obtain ⟨rfl, rfl, rfl⟩ := pure_pair done
          obtain ⟨found, rfl⟩ := monadLift_run_iff.mp inKey
          obtain rfl := insertRowKey_exact found
          obtain ⟨rfl, binds, unchanged⟩ := sealRows_exact sealing
          have proposed : proposedRows context columns insert =
              some (source, rows, listedKey context schema tableName insert.columns) := by
            simp [proposedRows, listed, guarded, held, isValues, resolved]
          refine ⟨by simp only [proposedForm, proposed], fun other others key found => ?_,
            fun unset => ?_⟩
          · cases proposed.symm.trans found
            exact binds
          · rw [unchanged unset, ← isValues, ← held]
      · -- INSERT from a query is signalled, and nothing of it is sealed.
        rename_i notValues
        subst passes
        obtain ⟨_, middle, signalled, done⟩ := bind_run_iff.mp ran
        obtain ⟨_, rfl⟩ := monadLift_run_iff.mp signalled
        obtain ⟨rfl, rfl, rfl⟩ := pure_pair done
        have none : proposedRows context columns insert = none := by
          simp only [proposedRows, held, Option.bind_some, ite_self]
        exact unsealed_exact none _

theorem rewriteProposed_exact
    (ran : rewriteProposed context insert columns before = .ok ((relayed, sealedValues), after)) :
    (relayed, sealedValues.columns) = proposedForm context columns insert ∧
      ProposalsBind context columns after insert ∧
      (sealedValues.changed = false → relayed = insert) := by
  cases listed : insert.columns.isEmpty with
  | true =>
    simp only [rewriteProposed, listed, if_true] at ran
    obtain ⟨_, middle, signalled, done⟩ := bind_run_iff.mp ran
    obtain ⟨_, rfl⟩ := monadLift_run_iff.mp signalled
    obtain ⟨rfl, rfl, rfl⟩ := pure_pair done
    exact unsealed_exact (by simp [proposedRows, listed]) _
  | false =>
    simp only [rewriteProposed, listed, Bool.false_eq_true, if_false] at ran
    exact rewriteInsertValues_exact listed ran

end Rows

section Updates
variable {Query Statement : Type} {context : Context} {walks : Walks Query Statement}

variable {changed : Bool} {before after : ParamTransforms}

variable {table relayed : TableWithJoins Query}

theorem joinConditionsOf_factorName {inScope : TableScope}
    (ran : joinConditionsOf context inScope table before = .ok ((relayed, changed), after)) :
    factorName relayed.relation = factorName table.relation := by
  obtain ⟨relation, joins⟩ := table
  simp only [joinConditionsOf] at ran
  obtain ⟨result, flag, results, later, middle, rfl, rfl, here, _⟩ := both_run ran
  change factorName result = factorName relation
  cases relation with
  | nestedJoin inner named =>
    simp only [joinConditionsOfFactor] at here
    obtain ⟨⟨inner', flag'⟩, _, _, done'⟩ := bind_run_iff.mp here
    obtain ⟨rfl, rfl, rfl⟩ := pure_pair done'
    rfl
  | _ =>
    simp only [joinConditionsOfFactor] at here
    obtain ⟨same', rfl⟩ := pure_run_iff.mp here
    rw [(Prod.mk.inj same').1]

theorem derivedTablesOf_factorName {rewriteQuery : Query → Pass (Query × Bool)}
    (ran : derivedTablesOf rewriteQuery table before = .ok ((relayed, changed), after)) :
    factorName relayed.relation = factorName table.relation := by
  obtain ⟨relation, joins⟩ := table
  simp only [derivedTablesOf] at ran
  obtain ⟨result, flag, results, later, middle, rfl, rfl, here, _⟩ := both_run ran
  change factorName result = factorName relation
  cases relation with
  | nestedJoin inner named =>
    simp only [derivedTablesOfFactor] at here
    obtain ⟨⟨inner', flag'⟩, _, _, done'⟩ := bind_run_iff.mp here
    obtain ⟨rfl, rfl, rfl⟩ := pure_pair done'
    rfl
  | derived subquery named =>
    simp only [derivedTablesOfFactor] at here
    obtain ⟨⟨subquery', flag'⟩, _, _, done'⟩ := bind_run_iff.mp here
    obtain ⟨rfl, rfl, rfl⟩ := pure_pair done'
    rfl
  | _ =>
    simp only [derivedTablesOfFactor] at here
    obtain ⟨same', rfl⟩ := pure_run_iff.mp here
    rw [(Prod.mk.inj same').1]

variable {update : Update Query}

theorem rewriteUpdate_runs (queries : ∀ query, Grows (walks.rewriteQuery query))
    {relayed : Update Query}
    (ran : rewriteUpdate context walks update before = .ok ((relayed, changed), after)) :
    factorName relayed.table.relation = factorName update.table.relation ∧
      ∃ middle flag first, sealUpdate context update before = .ok ((middle, flag), first) ∧
        first ≤ after ∧ (changed = false → flag = false) ∧
        ∃ start flag' stop, rewriteEach (sweepAssignment walks) middle start =
          .ok ((relayed.assignments, flag'), stop) := by
  obtain ⟨⟨assignments, assigned⟩, first, sealedOnes, ran⟩ := bind_run_iff.mp ran
  obtain ⟨inScope, second, inLift, ran⟩ := bind_run_iff.mp ran
  obtain ⟨⟨table, flag₁⟩, third, joined, ran⟩ := bind_run_iff.mp ran
  obtain ⟨⟨fromTable, flag₂⟩, fourth, joined', ran⟩ := bind_run_iff.mp ran
  obtain ⟨⟨selection, flag₃⟩, fifth, filtered, ran⟩ := bind_run_iff.mp ran
  obtain ⟨⟨swept, flag₄⟩, sixth, sweeping, ran⟩ := bind_run_iff.mp ran
  obtain ⟨⟨table', flag₅⟩, seventh, derived, ran⟩ := bind_run_iff.mp ran
  obtain ⟨⟨fromTable', flag₆⟩, eighth, derived', ran⟩ := bind_run_iff.mp ran
  obtain ⟨rfl, rfl, rfl⟩ := pure_pair ran
  have grown : first ≤ eighth := by
    obtain ⟨_, rfl⟩ := monadLift_run_iff.mp inLift
    have toThird := grows_joinConditionsOf _ _ _ _ joined
    have toFourth :=
      grows_rewriteOption _ (fun table _ => grows_joinConditionsOf table) _ _ _ joined'
    have toFifth :=
      grows_rewriteOption _ (fun expr _ => grows_rewritePredicate queries expr) _ _ _ filtered
    have toSixth := grows_rewriteEach _ (fun _ _ =>
      (grows_rewriteNestedQueries queries _).bind fun _ => grows_pure _) _ _ _ sweeping
    have toSeventh := grows_derivedTablesOf queries _ _ _ _ derived
    have toEighth :=
      grows_rewriteOption _ (fun table _ => grows_derivedTablesOf queries table) _ _ _ derived'
    exact toThird.trans <| toFourth.trans <| toFifth.trans <| toSixth.trans <|
      toSeventh.trans toEighth
  refine ⟨(derivedTablesOf_factorName derived).trans (joinConditionsOf_factorName joined),
    assignments, assigned, first, sealedOnes, grown, fun unset => ?_, fifth, flag₄, sixth, sweeping⟩
  simp only [Bool.or_eq_false_iff] at unset
  exact unset.1.1.1.1.1.1

/-- One written column of an accepted statement: a value that holds no query has its
exact form, and what Bind and the literal reader owe it. -/
def EntryExact (context : Context) (scope : AssignmentScope) (params : ParamTransforms)
    (before after : Ident × Option (Expr Query)) : Prop :=
  before.1 = after.1 ∧ ∀ value, before.2 = some value →
    (Settled (assignedForm context scope before.1 value) →
      after.2 = some (assignedForm context scope before.1 value)) ∧
    ∀ transform, scope.columns.get (normalize before.1) = some transform →
      BindsLater params transform (rowSource scope.row) value ∧
        Readable context transform (rowSource scope.row) value

def AssignmentExact (context : Context) (scope : AssignmentScope) (params : ParamTransforms) :
    Assignment Query → Assignment Query → Prop :=
  AssignmentBy (EntryExact context scope params)

variable {scope : AssignmentScope} {first last : ParamTransforms}

theorem EntryExact.mono (grown : first ≤ last) {before after : Ident × Option (Expr Query)}
    (entry : EntryExact context scope first before after) :
    EntryExact context scope last before after := by
  refine ⟨entry.1, fun value held => ⟨(entry.2 value held).1, fun transform guarded => ?_⟩⟩
  obtain ⟨binds, readable⟩ := (entry.2 value held).2 transform guarded
  exact ⟨binds.mono grown, readable⟩

theorem AssignmentExact.mono (grown : first ≤ last) {before after : Assignment Query}
    (assignment : AssignmentExact context scope first before after) :
    AssignmentExact context scope last before after :=
  ⟨assignment.1, assignment.2.imp fun _ _ entry => entry.mono grown⟩

variable {params : ParamTransforms}

theorem entryExact_of_lifted {before after : Ident × Option (Expr Query)}
    (lifted : Lifted (Exact context scope) (fun _ => True) params before after) :
    EntryExact context scope params before after := by
  refine ⟨lifted.1, fun value held => ?_⟩
  rcases lifted.2 with ⟨value', relayed, had, has, exactly⟩ | ⟨missing, _⟩
  · cases held.symm.trans had
    exact ⟨fun _ => by rw [has, exactly.1], exactly.2⟩
  · cases held.symm.trans missing

theorem EntryExact.sweep {first second third : Ident × Option (Expr Query)}
    (lifted : Lifted (Exact context scope) (fun _ => True) params first second)
    (swept : SweptEntry second third) : EntryExact context scope params first third := by
  have entry := entryExact_of_lifted lifted
  refine ⟨entry.1.trans swept.1, fun value held => ⟨fun settled => ?_, (entry.2 value held).2⟩⟩
  exact swept.2 _ ((entry.2 value held).1 settled) settled

variable {start final : ParamTransforms}

theorem sweepAssignments_by (queries : ∀ query, Grows (walks.rewriteQuery query))
    {entry result : Ident × Option (Expr Query) → Ident × Option (Expr Query) → Prop}
    (sweep : ∀ {first second third}, entry first second → SweptEntry second third →
      result first third) {before middle after : List (Assignment Query)}
    (each : List.Forall₂ (AssignmentBy entry) before middle)
    (ran : rewriteEach (sweepAssignment walks) middle start = .ok ((after, changed), final)) :
    List.Forall₂ (AssignmentBy result) before after := by
  have swept := rewriteEach_ok
    (fun _ => (grows_rewriteNestedQueries queries _).bind fun _ => grows_pure _) ran
  refine forall₂_compose ?_ each swept
  rintro first second third ⟨same, entries⟩ ⟨_, flag, _, accepted, _, _⟩
  obtain ⟨⟨value, flag'⟩, _, here, done⟩ := bind_run_iff.mp accepted
  obtain ⟨rfl, rfl, rfl⟩ := pure_pair done
  refine ⟨same, forall₂_compose ?_ entries (sweep_assigned first.target here)⟩
  intro _ _ _ holds swept
  exact sweep holds swept

variable {name : ObjectName} {columns : Columns}

theorem sealUpdate_run (target : factorName update.table.relation = some name)
    (found : context.table name = .ok (some columns)) {relayed : List (Assignment Query)}
    (ran : sealUpdate context update before = .ok ((relayed, changed), after)) :
    sealAssignments context ⟨updateRow context update columns, columns, []⟩ update.assignments
      before = .ok ((relayed, changed), after) := by
  have lookUp : updateColumns context update.table = .ok (some columns) := by
    unfold updateColumns
    unfold factorName at target
    split at target
    · cases target
      exact found
    · cases target
  obtain ⟨held, middle, looked, next⟩ := bind_run_iff.mp ran
  obtain ⟨same, rfl⟩ := monadLift_run_iff.mp looked
  cases lookUp.symm.trans same
  exact next

theorem rewriteUpdate_exact (queries : ∀ query, Grows (walks.rewriteQuery query))
    {relayed : Update Query} (target : factorName update.table.relation = some name)
    (found : context.table name = .ok (some columns))
    (ran : rewriteUpdate context walks update before = .ok ((relayed, changed), after)) :
    List.Forall₂ (AssignmentExact context ⟨updateRow context update columns, columns, []⟩ after)
      update.assignments (if changed then relayed else update).assignments := by
  obtain ⟨_, middle, flag, first, sealedOnes, grown, marked, _, _, _, sweeping⟩ :=
    rewriteUpdate_runs queries ran
  obtain ⟨each, unchanged⟩ := sealAssignments_lift (exact_inherited _ _)
    (sealUpdate_run target found sealedOnes)
  cases changed with
  | true =>
    have exactly := sweepAssignments_by queries EntryExact.sweep each sweeping
    exact exactly.imp fun _ _ one => AssignmentExact.mono grown one
  | false =>
    rw [unchanged (marked rfl)] at each
    refine each.imp ?_
    rintro first last ⟨same, entries⟩
    exact ⟨same, entries.imp fun _ _ lifted => (entryExact_of_lifted lifted).mono grown⟩

end Updates

section Inserts
variable {Query Statement : Type} {context : Context} {walks : Walks Query Statement}
  {scope : AssignmentScope} {holds : ParamTransforms → Ident → Expr Query → Expr Query → Prop}
  {omitted : Ident → Prop}

variable {changed : Bool} {before after : ParamTransforms}

theorem rewriteOnInsert_lift (inherited : Inherited context scope holds omitted)
    (queries : ∀ query, Grows (walks.rewriteQuery query)) {inScope : TableScope}
    {on relayed : OnInsert Query} (ran : rewriteOnInsert context walks scope inScope on before =
      .ok ((relayed, changed), after)) :
    List.Forall₂ (AssignmentLifted holds omitted after) (conflictAssignments (some on))
        (conflictAssignments (some relayed)) ∧
      (changed = false →
        conflictAssignments (some relayed) = conflictAssignments (some on)) := by
  cases on with
  | duplicateKeyUpdate assignments =>
    obtain ⟨results, rfl, sealing⟩ := wrap_run ran
    exact sealAssignments_lift inherited sealing
  | onConflict target action =>
    cases action with
    | doNothing =>
      obtain ⟨rfl, rfl, rfl⟩ := pure_pair ran
      exact ⟨.nil, fun _ => rfl⟩
    | doUpdate assignments selection =>
      obtain ⟨⟨results, flag⟩, middle, sealing, ran⟩ := bind_run_iff.mp ran
      obtain ⟨⟨filter, later⟩, last, filtered, done⟩ := bind_run_iff.mp ran
      obtain ⟨rfl, rfl, rfl⟩ := pure_pair done
      obtain ⟨each, unchanged⟩ := sealAssignments_lift inherited sealing
      have grown := grows_rewriteOption _
        (fun expr _ => grows_rewritePredicate queries expr) _ _ _ filtered
      refine ⟨each.imp ?_, fun unset => unchanged (Bool.or_eq_false_iff.mp unset).1⟩
      rintro first last ⟨sameTarget, entries⟩
      exact ⟨sameTarget, entries.imp fun _ _ entry => entry.mono inherited grown⟩

variable {insert relayed : Sql.Insert Query Statement} {columns : Columns}

theorem rewriteInsert_runs (found : context.table insert.tableName = .ok (some columns))
    (ran : rewriteInsert context walks insert before = .ok ((relayed, changed), after)) :
    ∃ sealedValues middle on later,
      rewriteProposed context insert columns before =
        .ok (((proposedForm context columns insert).1, sealedValues), middle) ∧
      sealedValues.columns = (proposedForm context columns insert).2 ∧
      rewriteOption (rewriteOnInsert context walks
          ⟨onInsertRow context (proposedForm context columns insert).1, columns,
            (proposedForm context columns insert).2⟩
          (insertScope context (proposedForm context columns insert).1 columns)) insert.on middle =
        .ok ((on, later), after) ∧
      relayed = { (proposedForm context columns insert).1 with on } ∧
      changed = (sealedValues.changed || later) := by
  obtain ⟨held, first, looked, ran⟩ := bind_run_iff.mp ran
  obtain ⟨same, rfl⟩ := monadLift_run_iff.mp looked
  cases found.symm.trans same
  obtain ⟨⟨proposed, sealedValues⟩, middle, proposing, ran⟩ := bind_run_iff.mp ran
  obtain ⟨⟨on, later⟩, last, conflicting, done⟩ := bind_run_iff.mp ran
  obtain ⟨rfl, rfl, rfl⟩ := pure_pair done
  have form := (rewriteProposed_exact proposing).1
  obtain rfl : proposed = (proposedForm context columns insert).1 := congrArg Prod.fst form
  have sealedColumns : sealedValues.columns = (proposedForm context columns insert).2 :=
    congrArg Prod.snd form
  have sameOn : (proposedForm context columns insert).1.on = insert.on := by
    unfold proposedForm
    split <;> rfl
  rw [sealedColumns, sameOn] at conflicting
  exact ⟨sealedValues, middle, on, later, proposing, sealedColumns, conflicting, rfl, rfl⟩

/-- The scope of a conflict action. -/
def actionScope (context : Context) (columns : Columns) (insert : Sql.Insert Query Statement) :
    AssignmentScope :=
  ⟨onInsertRow context (proposedForm context columns insert).1, columns,
    (proposedForm context columns insert).2⟩

/-- An accepted INSERT into a table with protected columns, as relayed: its VALUES list and
the assignments of its conflict action. -/
theorem rewriteInsert_exact (queries : ∀ query, Grows (walks.rewriteQuery query))
    (found : context.table insert.tableName = .ok (some columns))
    (ran : rewriteInsert context walks insert before = .ok ((relayed, changed), after)) :
    (∃ on, (if changed then relayed else insert) =
        { (proposedForm context columns insert).1 with on }) ∧
      ProposalsBind context columns after insert ∧
      List.Forall₂ (AssignmentExact context (actionScope context columns insert) after)
        (conflictAssignments insert.on)
        (conflictAssignments (if changed then relayed else insert).on) := by
  obtain ⟨sealedValues, second, on, later, proposing, _, conflicting, rfl, rfl⟩ :=
    rewriteInsert_runs found ran
  obtain ⟨_, binds, unchanged⟩ := rewriteProposed_exact proposing
  have grown := grows_rewriteOption _
    (fun on _ => grows_rewriteOnInsert queries _ _ on) _ _ _ conflicting
  have each : List.Forall₂ (AssignmentExact context (actionScope context columns insert) after)
      (conflictAssignments insert.on) (conflictAssignments on) ∧
      (later = false → conflictAssignments on = conflictAssignments insert.on) := by
    rcases rewriteOption_ok conflicting with
      ⟨absent, rfl, rfl, rfl⟩ | ⟨held, result, present, rfl, here⟩
    · rw [absent]
      exact ⟨.nil, fun _ => rfl⟩
    · rw [present]
      obtain ⟨lifted, kept⟩ := rewriteOnInsert_lift (exact_inherited _ _) queries here
      refine ⟨lifted.imp ?_, kept⟩
      rintro first last ⟨same, entries⟩
      exact ⟨same, entries.imp fun _ _ one => entryExact_of_lifted one⟩
  have bindsLater : ProposalsBind context columns after insert :=
    fun source rows key found row listed => (binds source rows key found row listed).mono grown
  cases flag : (sealedValues.changed || later) with
  | true => exact ⟨⟨on, rfl⟩, bindsLater, each.1⟩
  | false =>
    obtain ⟨unsealed, unassigned⟩ := Bool.or_eq_false_iff.mp flag
    refine ⟨⟨insert.on, ?_⟩, bindsLater, ?_⟩
    · rw [unchanged unsealed]
      rfl
    · have same := each.1
      rw [each.2 unassigned] at same
      exact same

end Inserts

end Dbsec.SealedForm
