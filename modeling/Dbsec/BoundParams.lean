import Dbsec.ArrayParam
import Dbsec.Catalog
import Dbsec.Outcome
import Dbsec.Rewrite

/-! What Bind does to the parameters the rewrite recorded: `bind_row_key`,
`encode_param` and the parameter loop of `QueryRewriter::bind` in
proxy/src/encrypt/frame.rs. A parameter the Bind does not carry, or carries as NULL, is
left as it is; the row key of a sealed parameter is read from the values the client
sent. -/
namespace Dbsec.BoundParams
open Framing Envelope Params Unprotected Catalog RowKeys

structure BindMessage where
  portal : Bytes
  statement : Bytes
  paramFormats : List Int
  params : List (Option Bytes)
  /-- The section as it arrived, relayed untouched. -/
  resultFormats : Bytes

/-- The format code of one value: none given is text, a single one is for all. -/
def formatCode (codes : List Int) (index : Nat) : Int :=
  match codes with
  | [] => 0
  | [only] => only
  | codes => (codes[index]?).getD 0

def BindMessage.paramFormat (bind : BindMessage) (index : Nat) : Int :=
  formatCode bind.paramFormats index

/-- The value of a parameter, absent where it is NULL or not carried. -/
def BindMessage.param (bind : BindMessage) (index : Nat) : Option Bytes :=
  (bind.params[index]?).join

def valueFormat (code : Int) : Except Error Format :=
  if code = 0 then .ok .text
  else if code = 1 then .ok .binary
  else .error (.rowKeyType s!"unknown wire format code {code}")

/-- The row key one sealed parameter binds to. A key that cannot be read refuses the
statement. -/
def bindRowKey (row : RowKeySource) (bind : BindMessage) : Except Rejection (Option RowKey) :=
  match row with
  | .none => .ok none
  | .literal key => .ok (some key)
  | .param index typeOid column =>
    match valueFormat (bind.paramFormat index) >>= fun format =>
        canonical typeOid format (bind.param index) with
    | .ok key => .ok (some key)
    | .error (.rowKeyType why) =>
      .error (.refused (s!"dbsec refused this statement: placeholder ${index + 1} supplies the " ++
        s!"row key {column} that this statement's protected values are sealed against, but " ++
        s!"{why}; bind a usable {column} for the row being written"))
    | .error other => .error (.fatal (.wire other))

variable {typeOid : Nat} {key : RowKey}

theorem canonical_ok_iff {format : Format} {value : Option Bytes} :
    canonical typeOid format value = .ok key ↔
      ∃ bytes, value = some bytes ∧ canonicalBytes typeOid format bytes = .ok key.bytes := by
  cases value with
  | none => simp [canonical]
  | some bytes =>
    cases key
    cases read : canonicalBytes typeOid format bytes <;> simp [canonical, read]

variable {message : BindMessage} {index : Nat}

theorem bindRowKey_param_iff {column : String} :
    bindRowKey (.param index typeOid column) message = .ok (some key) ↔
      ∃ format bytes, valueFormat (message.paramFormat index) = .ok format ∧
        message.param index = some bytes ∧ canonicalBytes typeOid format bytes = .ok key.bytes := by
  have computed : bindRowKey (.param index typeOid column) message = .ok (some key) ↔
      (valueFormat (message.paramFormat index) >>= fun format =>
        canonical typeOid format (message.param index)) = .ok key := by
    simp only [bindRowKey]
    generalize (valueFormat (message.paramFormat index) >>= fun format =>
      canonical typeOid format (message.param index)) = read
    cases read with
    | ok held => simp
    | error cause => cases cause <;> simp
  simp only [computed, Outcome.bind_ok_iff, canonical_ok_iff]
  constructor
  · rintro ⟨format, known, bytes, carried, read⟩
    exact ⟨format, bytes, known, carried, read⟩
  · rintro ⟨format, bytes, known, carried, read⟩
    exact ⟨format, known, bytes, carried, read⟩

variable {row : RowKeySource}

theorem bindRowKey_some {found : Option RowKey} (keyed : row ≠ .none)
    (read : bindRowKey row message = .ok found) :
    ∃ key, found = some key := by
  unfold bindRowKey at read
  split at read
  · exact absurd rfl keyed
  · rename_i key
    exact ⟨key, (Except.ok.inj read).symm⟩
  · split at read
    · rename_i key _
      exact ⟨key, (Except.ok.inj read).symm⟩
    · cases read
    · cases read

def encodeParam (value : Bytes) (wire : WireForm) (binary : Bool) : Bytes :=
  match wire with
  | .text => value
  | .bytea => if binary then value else Text.encode ('\\' :: 'x' :: Text.hexEncode value)

/-- What becomes of one parameter: a new value, or an array without an index. -/
inductive Handled where
  | replaced (value : Bytes)
  | unindexed (column : String)

def fatal {Value : Type} : Except Error Value → Except Rejection Value
  | .ok value => .ok value
  | .error cause => .error (.fatal (.wire cause))

def handleParam (bind : BindMessage) (index : Nat) (value : Bytes) :
    ParamAction → Except Rejection Handled
  | .sealWith transform row => do
      let key ← bindRowKey row bind
      let stored ← fatal (transform.sealValue value key)
      return .replaced (encodeParam stored transform.wire (bind.paramFormat index = 1))
  | .searchIndex transform => do
      match ← fatal (transform.searchIndex value) with
      | none => .error (.fatal (.wire .malformed))
      -- The index is BYTEA whatever the column's own form.
      | some token => return .replaced (encodeParam token .bytea (bind.paramFormat index = 1))
  | .searchIndexArray transform column => do
      match ← fatal (ArrayParam.indexArray value (bind.paramFormat index = 1) transform) with
      | none => return .unindexed column
      | some indexed => return .replaced indexed

def bindParam (bind : BindMessage) (index : Nat) (action : ParamAction)
    (done : List (Option Bytes) × List String) :
    Except Rejection (List (Option Bytes) × List String) :=
  match bind.param index with
  | none => .ok done
  | some value => do
      match ← handleParam bind index value action with
      | .replaced changed => return (done.1.set index (some changed), done.2)
      | .unindexed column => return (done.1, done.2 ++ [column])

def bindEach (bind : BindMessage) (entries : List (Nat × ParamAction))
    (done : List (Option Bytes) × List String) :
    Except Rejection (List (Option Bytes) × List String) :=
  entries.foldlM (fun done entry => bindParam bind entry.1 entry.2 done) done

/-- The parameter values the backend receives. Arrays without an index are reported
once all other parameters have been transformed. -/
def bindParams (context : Context) (bind : BindMessage) (params : ParamTransforms) :
    Except Rejection (List (Option Bytes)) := do
  let (values, unindexed) ← bindEach bind params.entries (bind.params, [])
  if !unindexed.isEmpty then
    context.unprotected (.predicate (", ".intercalate unindexed) "= ANY bound array")
  return values

def ParamDone (message : BindMessage) (index : Nat) (action : ParamAction)
    (before after : Option (Option Bytes)) : Prop :=
  match message.param index with
  | none => after = before
  | some value =>
    ∃ handled, handleParam message index value action = .ok handled ∧
      match handled with
      | .replaced changed => after = before.map fun _ => some changed
      | .unindexed _ => after = before

variable {action : ParamAction} {before after : List (Option Bytes) × List String}

theorem bindParam_ok (ran : bindParam message index action before = .ok after) :
    ParamDone message index action (before.1[index]?) (after.1[index]?) ∧
      ∀ other, other ≠ index → after.1[other]? = before.1[other]? := by
  unfold bindParam at ran
  unfold ParamDone
  cases carried : message.param index with
  | none =>
    rw [carried] at ran
    cases ran
    exact ⟨rfl, fun _ _ => rfl⟩
  | some value =>
    rw [carried] at ran
    obtain ⟨handled, done, ran⟩ := Outcome.bind_ok_iff.mp ran
    cases handled with
    | replaced changed =>
      cases ran
      refine ⟨⟨_, done, ?_⟩, fun other apart => List.getElem?_set_ne (Ne.symm apart)⟩
      exact List.getElem?_set_self'
    | unindexed column =>
      cases ran
      exact ⟨⟨_, done, rfl⟩, fun _ _ => rfl⟩

/-- The parameters of a Bind, one by one: those with a recorded action as it leaves them,
all others as they came. -/
theorem bindEach_ok {entries : List (Nat × ParamAction)} (distinct : (entries.map Prod.fst).Nodup)
    (ran : bindEach message entries before = .ok after) :
    (∀ entry ∈ entries,
        ParamDone message entry.1 entry.2 (before.1[entry.1]?) (after.1[entry.1]?)) ∧
      ∀ index, index ∉ entries.map Prod.fst → after.1[index]? = before.1[index]? := by
  induction entries generalizing before with
  | nil =>
    cases ran
    exact ⟨nofun, fun _ _ => rfl⟩
  | cons entry rest ih =>
    obtain ⟨middle, first, later⟩ := Outcome.bind_ok_iff.mp ran
    rw [List.map_cons, List.nodup_cons] at distinct
    obtain ⟨here, others⟩ := bindParam_ok first
    obtain ⟨each, kept⟩ := ih distinct.2 later
    constructor
    · intro held listed
      rcases List.mem_cons.mp listed with rfl | listed
      · rw [kept held.1 distinct.1]
        exact here
      · have apart : held.1 ≠ entry.1 :=
          fun same => distinct.1 (same ▸ List.mem_map_of_mem listed)
        rw [← others held.1 apart]
        exact each held listed
    · intro index unlisted
      rw [List.map_cons, List.mem_cons, not_or] at unlisted
      rw [kept index unlisted.2, others index unlisted.1]

variable {values : List (Option Bytes)} {context : Context} {params : ParamTransforms}

theorem bindParams_each (ran : bindParams context message params = .ok values) :
    ∃ unindexed, bindEach message params.entries (message.params, []) =
      .ok (values, unindexed) := by
  obtain ⟨⟨done, unindexed⟩, bound, ran⟩ := Outcome.bind_ok_iff.mp ran
  have same : done = values := by
    dsimp only at ran
    split at ran
    · obtain ⟨_, _, done⟩ := Outcome.bind_ok_iff.mp ran
      exact Except.ok.inj done
    · exact Except.ok.inj ran
  subst same
  exact ⟨unindexed, bound⟩

theorem bindParams_ok (ran : bindParams context message params = .ok values) :
    (∀ entry ∈ params.entries,
        ParamDone message entry.1 entry.2 (message.params[entry.1]?) (values[entry.1]?)) ∧
      ∀ index, index ∉ params.entries.map Prod.fst → values[index]? = message.params[index]? := by
  obtain ⟨_, bound⟩ := bindParams_each ran
  exact bindEach_ok params.distinct bound

theorem param_after
    (done : ParamDone message index action (message.params[index]?) (values[index]?)) :
    (message.param index = none ∧ (values[index]?).join = none) ∨
      ∃ value handled, message.param index = some value ∧
        handleParam message index value action = .ok handled ∧
        (values[index]?).join = match handled with
          | .replaced changed => some changed
          | .unindexed _ => some value := by
  unfold ParamDone at done
  cases carried : message.param index with
  | none =>
    rw [carried] at done
    exact .inl ⟨rfl, by rw [done]; exact carried⟩
  | some value =>
    rw [carried] at done
    obtain ⟨handled, ran, after⟩ := done
    refine .inr ⟨value, handled, rfl, ran, ?_⟩
    have there : message.params[index]? = some (some value) := by
      simpa [BindMessage.param, Option.join_eq_some_iff] using carried
    cases handled with
    | replaced changed => simp only [after, there, Option.map_some, Option.join_some]
    | unindexed column => simp only [after, there, Option.join_some]

theorem bindParams_sealed (ran : bindParams context message params = .ok values)
    {transform : FieldTransform}
    (recorded : (index, ParamAction.sealWith transform row) ∈ params.entries) {sent : Bytes}
    (carried : (values[index]?).join = some sent) :
    ∃ plaintext key stored, bindRowKey row message = .ok key ∧
      transform.sealValue plaintext key = .ok stored ∧
        sent = encodeParam stored transform.wire (message.paramFormat index = 1) := by
  rcases param_after ((bindParams_ok ran).1 _ recorded)
    with ⟨_, absent⟩ | ⟨plaintext, handled, _, handles, after⟩
  · cases absent.symm.trans carried
  · obtain ⟨key, read, handles⟩ := Outcome.bind_ok_iff.mp handles
    obtain ⟨stored, produced, handles⟩ := Outcome.bind_ok_iff.mp handles
    cases handles
    refine ⟨plaintext, key, stored, read, ?_, Option.some.inj (carried.symm.trans after)⟩
    unfold fatal at produced
    split at produced
    · rename_i result sealed'
      cases produced
      exact sealed'
    · cases produced

end Dbsec.BoundParams
