import Dbsec.SealedForm

/-! What the sealing functions of seal.rs do under `reject`, as facts about the values a
statement stores: an accepted value is NULL, the sealed form of the client's literal, a
placeholder that Bind seals, or re-stores what the same INSERT sealed. -/
namespace Dbsec.SealedWrites
open Framing Sql Params Unprotected Catalog Literals Scope Accumulate Rewrite Predicate Seal
open QueryWalk Statements Writes SealedForm

def Bindable (text : String) (number : Nat) : Prop :=
  ∃ digits, text.toList = '$' :: digits ∧ Text.parseDigits digits = some number ∧
    1 ≤ number ∧ number ≤ 65535

def Recorded (params : ParamTransforms) (transform : FieldTransform) (index : Nat) : Prop :=
  ∃ held row, (index, ParamAction.sealWith held row) ∈ params.entries ∧
    held.identity = transform.identity

section Values
variable {Query Query' : Type}

/-- The relayed value stores no plaintext of the client's value. -/
inductive SealedValue (transform : FieldTransform) (params : ParamTransforms)
    (client : Expr Query) (relayed : Expr Query') : Prop where
  | null : unwrapCasts relayed = .value .null → SealedValue transform params client relayed
  | literal {plaintext stored : Bytes} {row : Option Envelope.RowKey} :
      literalPlaintext client transform.wire = some plaintext →
      transform.sealValue plaintext row = .ok stored →
      relayed = storedLiteral transform.wire stored →
      SealedValue transform params client relayed
  | placeholder {text : String} : unwrapCasts relayed = .value (.placeholder text) →
      (∀ number, Bindable text number → Recorded params transform (number - 1)) →
      SealedValue transform params client relayed

end Values

/-- `EXCLUDED.c` for the assigned column, every proposal for which is sealed. -/
def ReStored (transform : FieldTransform) (params : ParamTransforms) (client relayed : Write) :
    Prop :=
  ∃ qualifier referenced ident before after,
    relayed.value = some (.compoundIdentifier [qualifier, referenced]) ∧
      normalize qualifier = "excluded" ∧ client.column = some ident ∧
      normalize referenced = normalize ident ∧ client.proposed = some before ∧
      relayed.proposed = some after ∧ List.Forall₂ (SealedValue transform params) before after

def SealedWrite (transform : FieldTransform) (params : ParamTransforms) (client relayed : Write) :
    Prop :=
  (∃ value stored, client.value = some value ∧ relayed.value = some stored ∧
    SealedValue transform params value stored) ∨ ReStored transform params client relayed

/-- Whatever transform protects the written column, the relayed value is sealed by it. -/
def Guarded (context : Context) (schemaOf : String → String) (params : ParamTransforms)
    (client relayed : Write) : Prop :=
  ∀ transform, Protects context.catalog schemaOf client transform →
    SealedWrite transform params client relayed

section Monotone
variable {Query Query' : Type} {before after : ParamTransforms} {transform : FieldTransform}

theorem SealedValue.mono (grown : before ≤ after) {client : Expr Query} {relayed : Expr Query'}
    (holds : SealedValue transform before client relayed) :
    SealedValue transform after client relayed := by
  cases holds with
  | null isNull => exact .null isNull
  | literal plaintext stored equal => exact .literal plaintext stored equal
  | placeholder isPlaceholder recorded =>
    refine .placeholder isPlaceholder fun number bindable => ?_
    obtain ⟨held, row, listed, same⟩ := recorded number bindable
    exact ⟨held, row, mem_of_le grown listed, same⟩

variable {client relayed : Write}

theorem SealedWrite.mono (grown : before ≤ after)
    (holds : SealedWrite transform before client relayed) :
    SealedWrite transform after client relayed := by
  rcases holds with ⟨value, stored, here, there, sealedValue⟩ |
    ⟨qualifier, referenced, ident, first, second, value, named, column, same, had, has, each⟩
  · exact .inl ⟨value, stored, here, there, sealedValue.mono grown⟩
  · exact .inr ⟨qualifier, referenced, ident, first, second, value, named, column, same, had, has,
      each.imp fun _ _ sealedValue => sealedValue.mono grown⟩

theorem Guarded.mono (grown : before ≤ after) {context : Context} {schemaOf : String → String}
    (holds : Guarded context schemaOf before client relayed) :
    Guarded context schemaOf after client relayed :=
  fun transform guards => (holds transform guards).mono grown

end Monotone

theorem placeholderIndex_of_bindable {text : String} {number : Nat}
    (bindable : Bindable text number) : placeholderIndex text = some (number - 1) := by
  obtain ⟨digits, spelled, parsed, positive, bounded⟩ := bindable
  have noSign : digits.head? ≠ some '+' := by
    intro plus
    unfold Text.parseDigits at parsed
    split at parsed
    · rename_i wellFormed
      cases digits with
      | nil => cases plus
      | cons first rest =>
        obtain rfl := Option.some.inj plus
        simp [Text.isDigit] at wellFormed
    · cases parsed
  have read : Text.parseUnsigned (2 ^ 64 - 1) digits = some number := by
    simp only [Text.parseUnsigned, noSign, if_false, parsed, Option.bind_eq_bind, Option.bind_some]
    rw [if_pos (by omega)]
  obtain ⟨index, rfl⟩ : ∃ index, number = index + 1 := ⟨number - 1, by omega⟩
  simp only [placeholderIndex, spelled, read, Nat.add_sub_cancel]

section Sealing
variable {Query : Type} {context : Context}

theorem unprotected_rejects (rejecting : context.catalog.onUnprotected = .reject) (site : Site) :
    context.unprotected site ≠ .ok () := by
  unfold Context.unprotected
  rw [rejecting]
  exact decideSite_reject _ _

theorem leave_rejects (rejecting : context.catalog.onUnprotected = .reject) (site : Site)
    (expr : Expr Query) (result : Expr Query × Bool) : leave context site expr ≠ .ok result := by
  intro left
  obtain ⟨done, passed, _⟩ := Outcome.bind_ok_iff.mp left
  exact unprotected_rejects rejecting site passed

variable {target : SealTarget} {relayed : Expr Query} {changed : Bool}

theorem sealPlaintext_ok {plaintext : Bytes} {key : Option Envelope.RowKey}
    (accepted : sealPlaintext target plaintext key = .ok (relayed, changed)) :
    changed = true ∧ ∃ stored, target.transform.sealValue plaintext key = .ok stored ∧
      relayed = storedLiteral target.transform.wire stored := by
  unfold sealPlaintext at accepted
  split at accepted
  · rename_i stored produced
    obtain ⟨rfl, rfl⟩ := Prod.mk.inj (Except.ok.inj accepted)
    exact ⟨rfl, stored, produced, rfl⟩
  · cases accepted

variable {client : Expr Query}

theorem sealLiteral_ok (rejecting : context.catalog.onUnprotected = .reject)
    (params : ParamTransforms)
    (accepted : sealLiteral context target client = .ok (relayed, changed)) :
    changed = true ∧ SealedValue target.transform params client relayed := by
  unfold sealLiteral at accepted
  split at accepted
  · split at accepted
    · exact absurd accepted (leave_rejects rejecting _ _ _)
    · rename_i plaintext read
      split at accepted
      · obtain ⟨set, stored, produced, rfl⟩ := sealPlaintext_ok accepted
        exact ⟨set, .literal read produced rfl⟩
      · exact absurd accepted (leave_rejects rejecting _ _ _)
      · obtain ⟨set, stored, produced, rfl⟩ := sealPlaintext_ok accepted
        exact ⟨set, .literal read produced rfl⟩
  · exact absurd accepted (leave_rejects rejecting _ _ _)

variable {before after : ParamTransforms}

theorem sealAtBind_ok {text : String} (accepted : sealAtBind target text before = .ok ((), after))
    (number : Nat) (bindable : Bindable text number) :
    Recorded after target.transform (number - 1) := by
  unfold sealAtBind at accepted
  rw [placeholderIndex_of_bindable bindable] at accepted
  obtain ⟨_, held, listed, agrees⟩ := recordParam_ok accepted
  rcases agrees with rfl | agrees
  · exact ⟨target.transform, target.row, listed, rfl⟩
  · cases held with
    | sealWith transform row =>
      simp only [ParamAction.agreesWith, Bool.and_eq_true, beq_iff_eq] at agrees
      exact ⟨transform, row, listed, agrees.1⟩
    | searchIndex transform => cases agrees
    | searchIndexArray transform column => cases agrees

theorem sealExpr_ok (rejecting : context.catalog.onUnprotected = .reject)
    (accepted : sealExpr context target client before = .ok ((relayed, changed), after)) :
    SealedValue target.transform after client relayed ∧ (changed = false → relayed = client) := by
  generalize ran : sealExpr context target client = pass at accepted
  unfold sealExpr at ran
  split at ran <;> subst ran
  · rename_i text isPlaceholder
    obtain ⟨done, middle, recorded, kept⟩ := bind_run_iff.mp accepted
    obtain ⟨rfl, rfl, rfl⟩ := pure_pair kept
    exact ⟨.placeholder isPlaceholder (sealAtBind_ok recorded), fun _ => rfl⟩
  · rename_i isNull
    obtain ⟨rfl, rfl, rfl⟩ := pure_pair accepted
    exact ⟨.null isNull, fun _ => rfl⟩
  · obtain ⟨produced, rfl⟩ := monadLift_run_iff.mp accepted
    obtain ⟨rfl, holds⟩ := sealLiteral_ok rejecting before produced
    exact ⟨holds, nofun⟩

end Sealing

section Assignments
variable {Query : Type} {context : Context} {scope : AssignmentScope}

/-- What sealing leaves of one assigned column: the value is sealed, or it re-stores a
value the VALUES list sealed. -/
def Entry (scope : AssignmentScope) (params : ParamTransforms)
    (before after : Ident × Option (Expr Query)) : Prop :=
  before.1 = after.1 ∧ ∀ transform, scope.columns.get (normalize before.1) = some transform →
    ∃ client relayed, before.2 = some client ∧ after.2 = some relayed ∧
      (SealedValue transform params client relayed ∨
        reStoresASealedValue scope client (normalize before.1) = true ∧ relayed = client)

variable {before after : Ident × Option (Expr Query)}

theorem Entry.mono {first last : ParamTransforms} (grown : first ≤ last)
    (holds : Entry scope first before after) :
    Entry scope last before after := by
  refine ⟨holds.1, fun transform guards => ?_⟩
  obtain ⟨client, relayed, had, has, sealedValue | kept⟩ := holds.2 transform guards
  · exact ⟨client, relayed, had, has, .inl (sealedValue.mono grown)⟩
  · exact ⟨client, relayed, had, has, .inr kept⟩

variable {client : Expr Query}

theorem sealAssigned_ok (rejecting : context.catalog.onUnprotected = .reject) {ident : Ident}
    {relayed : Expr Query} {changed : Bool} {before after : ParamTransforms}
    (accepted : sealAssigned context scope ident client before = .ok ((relayed, changed), after)) :
    Entry scope after (ident, some client) (ident, some relayed) ∧
      (changed = false → relayed = client) := by
  cases guarded : scope.columns.get (normalize ident) with
  | none =>
    simp only [sealAssigned, guarded] at accepted
    obtain ⟨rfl, rfl, rfl⟩ := pure_pair accepted
    refine ⟨⟨rfl, fun transform guards => ?_⟩, fun _ => rfl⟩
    cases guarded.symm.trans guards
  | some transform =>
    simp only [sealAssigned, guarded] at accepted
    obtain ⟨row, middle, _, next⟩ := bind_run_iff.mp accepted
    by_cases restored : reStoresASealedValue scope client (normalize ident) = true
    · rw [if_pos restored] at next
      obtain ⟨rfl, rfl, rfl⟩ := pure_pair next
      exact ⟨⟨rfl, fun _ _ => ⟨client, client, rfl, rfl, .inr ⟨restored, rfl⟩⟩⟩, fun _ => rfl⟩
    · rw [if_neg restored] at next
      obtain ⟨sealedValue, unchanged⟩ := sealExpr_ok rejecting next
      refine ⟨⟨rfl, fun other guards => ?_⟩, unchanged⟩
      obtain rfl : transform = other := Option.some.inj (guarded.symm.trans guards)
      exact ⟨client, relayed, rfl, rfl, .inl sealedValue⟩

theorem signalTuple_rejects (rejecting : context.catalog.onUnprotected = .reject)
    {columns : Columns} {names : List ObjectName}
    (targets : ¬ (protectedTargets columns names).isEmpty = true) {shape : String}
    {before : ParamTransforms} {result : (Expr Query × Bool) × ParamTransforms} :
    signalTuple context columns names client shape before ≠ .ok result := by
  intro accepted
  obtain ⟨done, middle, signalled, _⟩ := bind_run_iff.mp accepted
  obtain ⟨passed, _⟩ := monadLift_run_iff.mp signalled
  cases listed : protectedTargets columns names with
  | nil => exact targets (by rw [listed]; rfl)
  | cons first rest =>
    simp only [signalEach, listed] at passed
    obtain ⟨_, first, _⟩ := Outcome.bind_ok_iff.mp passed
    exact unprotected_rejects rejecting _ first

theorem sealed_inherited (rejecting : context.catalog.onUnprotected = .reject) :
    Inherited context scope
      (fun params ident (value relayed : Expr Query) =>
        Entry scope params (ident, some value) (ident, some relayed))
      fun ident => scope.columns.get (normalize ident) = none where
  mono grown entry := entry.mono grown
  step ran := sealAssigned_ok rejecting ran
  bare unguarded := unguarded
  signalled targets ran := absurd ran (signalTuple_rejects rejecting (by simp [targets]))

theorem entry_of_lifted {params : ParamTransforms}
    (lifted : Lifted (fun params ident (value relayed : Expr Query) =>
        Entry scope params (ident, some value) (ident, some relayed))
      (fun ident => scope.columns.get (normalize ident) = none) params before after) :
    Entry scope params before after := by
  obtain ⟨ident, value⟩ := before
  obtain ⟨other, relayed⟩ := after
  obtain ⟨rfl, ⟨client, result, rfl, rfl, entry⟩ | ⟨rfl, rfl, unguarded⟩⟩ := lifted
  · exact entry
  · refine ⟨rfl, fun transform guarded => ?_⟩
    cases unguarded.symm.trans guarded

end Assignments

theorem SealedValue.settled {Query Query' : Type} {transform : FieldTransform}
    {params : ParamTransforms} {client : Expr Query'} {relayed : Expr Query}
    (holds : SealedValue transform params client relayed) : Settled relayed := by
  cases holds with
  | null isNull => exact settled_of_unwrapCasts (isNull ▸ .value _)
  | literal _ _ equal => exact equal ▸ settled_storedLiteral _ _
  | placeholder isPlaceholder _ => exact settled_of_unwrapCasts (isPlaceholder ▸ .value _)

section Resolution
variable {context : Context} {schemaOf : String → String} {name : ObjectName}

/-- What the session's `search_path` does with an unqualified name while it is trusted. -/
def Agrees (context : Context) (schemaOf : String → String) : Prop :=
  context.searchPathTrusted = true → ∀ table, schemaOf table = "public"

theorem denotes_eq_resolvedName (agrees : Agrees context schemaOf)
    (looked : (context.searchPathTrusted || decide (1 < name.length)) = true) :
    denotes schemaOf name = resolvedName name := by
  unfold denotes resolvedName
  cases reversed : name.reverse with
  | nil => rfl
  | cons table rest =>
    cases rest with
    | nil =>
      have single : name.length = 1 := by rw [← List.length_reverse, reversed]; rfl
      have trusted : context.searchPathTrusted = true := by simpa [single] using looked
      simp only [agrees trusted]
    | cons schema rest => rfl

variable {write : Write}

theorem protects_of_table_some (agrees : Agrees context schemaOf) {columns : Columns}
    (found : context.table name = .ok (some columns)) (written : write.table = name) {ident : Ident}
    (column : write.column = some ident) {transform : FieldTransform}
    (guards : Protects context.catalog schemaOf write transform) :
    columns.get (normalize ident) = some transform := by
  obtain ⟨key, held, named, denoted, listed, guarded, each⟩ := guards
  unfold Context.table Context.lookUp at found
  split at found
  · rename_i looked
    rw [written, denotes_eq_resolvedName agrees looked] at denoted
    simp only [WriteCatalog.table, denoted, Option.bind_some, listed, Except.ok.injEq,
      Option.some.injEq] at found
    subst found
    rw [each ident column]
    exact guarded
  · obtain ⟨_, _, missing⟩ := Outcome.bind_ok_iff.mp found
    cases missing

theorem getLast?_of_reverse {rest : List Ident} {table : Ident}
    (reversed : name.reverse = table :: rest) : name.getLast? = some table := by
  rw [← List.head?_reverse, reversed]
  rfl

theorem denotes_table {key : String × String} (denoted : denotes schemaOf name = some key) :
    ∃ table, name.getLast? = some table ∧ key.2 = normalize table := by
  unfold denotes at denoted
  split at denoted
  · cases denoted
  · rename_i table reversed
    cases denoted
    exact ⟨table, getLast?_of_reverse reversed, rfl⟩
  · rename_i table schema rest reversed
    cases denoted
    exact ⟨table, getLast?_of_reverse reversed, rfl⟩

/-- Under `reject`, a name looked up without a refusal and without a result denotes no
protected table, whatever the session's `search_path` makes of it. -/
theorem not_protects_of_table_none (rejecting : context.catalog.onUnprotected = .reject)
    (agrees : Agrees context schemaOf) (missed : context.table name = .ok none)
    (written : write.table = name) (transform : FieldTransform) :
    ¬ Protects context.catalog schemaOf write transform := by
  rintro ⟨key, held, named, denoted, listed, guarded, each⟩
  rw [written] at denoted
  unfold Context.table Context.lookUp at missed
  split at missed
  · rename_i looked
    rw [denotes_eq_resolvedName agrees looked] at denoted
    simp only [WriteCatalog.table, denoted, Option.bind_some, listed] at missed
    cases missed
  · obtain ⟨table, last, same⟩ := denotes_table denoted
    have bare : key.2 ∈ context.catalog.bareNames :=
      context.catalog.bare_of_table key (by rw [listed]; rfl)
    have maybe : context.catalog.mayBeProtected name = true := by
      simpa [WriteCatalog.mayBeProtected, last, ← same] using bare
    obtain ⟨_, passed, _⟩ := Outcome.bind_ok_iff.mp missed
    rw [Context.reportBare, if_pos maybe] at passed
    exact unprotected_rejects rejecting _ passed

end Resolution

section Guards
variable {Query : Type} {context : Context} {schemaOf : String → String} {scope : AssignmentScope}
  {params : ParamTransforms} {table : ObjectName}

variable {proposed proposed' : Ident → Option (List (Expr Query))}

theorem Entry.sweep {first second third : Ident × Option (Expr Query)}
    (entry : Entry scope params first second) (swept : SweptEntry second third) :
    Entry scope params first third := by
  refine ⟨entry.1.trans swept.1, fun transform guarded => ?_⟩
  obtain ⟨client, relayed, had, has, sealedValue | ⟨restored, rfl⟩⟩ := entry.2 transform guarded
  · exact ⟨client, relayed, had, swept.2 relayed has sealedValue.settled, .inl sealedValue⟩
  · obtain ⟨qualifier, referenced, rfl, _⟩ := settled_of_reStores restored
    exact ⟨_, _, had, swept.2 _ has (.compoundIdentifier _), .inr ⟨restored, rfl⟩⟩

/-- One assignment before and after: the same targets, every protected one sealed. -/
def AssignmentSealed (scope : AssignmentScope) (params : ParamTransforms) :
    Assignment Query → Assignment Query → Prop :=
  AssignmentBy (Entry scope params)

variable {before after : List (Assignment Query)}

/-- The entries of an assignment are guarded writes, once the scope's columns are those
the written table denotes and every re-stored column has sealed proposals. -/
theorem guarded_assignments
    (guards : ∀ (write : Write) (ident : Ident) (transform : FieldTransform),
      write.table = table → write.column = some ident →
        Protects context.catalog schemaOf write transform →
          scope.columns.get (normalize ident) = some transform)
    (proposals : ∀ (ident : Ident) (transform : FieldTransform),
      normalize ident ∈ scope.sealedColumns → scope.columns.get (normalize ident) = some transform →
        ∃ first last, proposed ident = some first ∧ proposed' ident = some last ∧
          List.Forall₂ (SealedValue transform params) first last)
    (each : List.Forall₂ (AssignmentSealed scope params) before after) :
    List.Forall₂ (Guarded context schemaOf params)
      (before.flatMap (assignmentWrites table proposed))
      (after.flatMap (assignmentWrites table proposed')) := by
  refine List.rel_flatMap each ?_
  rintro first last ⟨same, entries⟩
  unfold assignmentWrites
  rw [same, List.forall₂_map_left_iff, List.forall₂_map_right_iff]
  refine entries.imp ?_
  rintro ⟨ident, held⟩ ⟨other, stored⟩ ⟨rfl, holds⟩ transform protects
  have guarded := guards _ ident transform rfl rfl protects
  obtain ⟨client, relayed, rfl, rfl, sealedValue | ⟨restored, rfl⟩⟩ := holds transform guarded
  · exact .inl ⟨client, relayed, rfl, rfl, sealedValue⟩
  · obtain ⟨qualifier, referenced, rfl, excluded, same, listed⟩ := settled_of_reStores restored
    obtain ⟨first, last, had, has, each⟩ := proposals ident transform listed guarded
    exact .inr ⟨qualifier, referenced, ident, first, last, rfl, excluded, rfl, same, had, has, each⟩

variable {changed : Bool} {start final : ParamTransforms}

theorem sealAssignments_ok (rejecting : context.catalog.onUnprotected = .reject)
    (ran : sealAssignments context scope before start = .ok ((after, changed), final)) :
    List.Forall₂ (AssignmentSealed scope final) before after ∧
      (changed = false → after = before) := by
  obtain ⟨each, unchanged⟩ := sealAssignments_lift (sealed_inherited rejecting) ran
  refine ⟨each.imp ?_, unchanged⟩
  rintro first last ⟨same, entries⟩
  exact ⟨same, entries.imp fun _ _ lifted => entry_of_lifted lifted⟩

end Guards

end Dbsec.SealedWrites
