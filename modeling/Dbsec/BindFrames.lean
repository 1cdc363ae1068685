import Dbsec.Messages

/-! A Bind frame through `QueryRewriter::bind` of proxy/src/encrypt/frame.rs, from the
bytes the client sent to the bytes the server receives. The server counts formats and
parameters as unsigned 16-bit numbers, so a Bind carries up to 65535 of each; the proxy
reads the same bytes with signed counts. -/
namespace Dbsec.BindFrames
open Framing Params Unprotected Catalog RowKeys ArrayParam BoundParams ReadPath Messages Portal

inductive Reply where
  | errorResponse (message : String)
  | readyForQuery (status : UInt8)
  deriving DecidableEq

inductive FrameAction where
  | relay
  | replace (body : Bytes)
  | reply (messages : List Reply)
  deriving DecidableEq

inductive FrameError where
  | pgwire (cause : RowError)
  | session (cause : SessionError)
  deriving DecidableEq

def pgwire {Value : Type} : Except RowError Value → Except FrameError Value
  | .ok value => .ok value
  | .error cause => .error (.pgwire cause)

def session {Value : Type} : Except SessionError Value → Except FrameError Value
  | .ok value => .ok value
  | .error cause => .error (.session cause)

def resultFormatCodes (message : BindMessage) : Except RowError (List Int) :=
  wellFormed do
    let (count, raw) ← takeI16 message.resultFormats
    let (codes, _) ← takeFormats count.toNat raw
    return codes

section Frame

variable {Positions Mark : Type}

/-- What one Bind does: the tracked portals, whether the rest of the batch is now
discarded up to Sync, and what happens to the frame. -/
def bindFrame (context : Context) (tracked : Tracked Positions Mark Nat) (body : Bytes) :
    Except FrameError (Tracked Positions Mark Nat × Bool × FrameAction) := do
  let message ← pgwire (parseBind body)
  let codes ← pgwire (resultFormatCodes message)
  let (tracked, recorded) ← session (tracked.bind message.portal message.statement (some codes))
  match recorded with
  | none => return (tracked, false, .relay)
  | some params =>
    if params.isEmpty then return (tracked, false, .relay)
    else
      match bindParams context message params with
      | .error (.refused reason) => return (tracked, true, .reply [.errorResponse reason])
      | .error (.fatal error) => .error (.session error)
      | .ok values =>
        let body ← pgwire (encodeBind { message with params := values })
        return (tracked, false, .replace body)

def FrameAction.forwarded (body : Bytes) : FrameAction → Option Bytes
  | .relay => some body
  | .replace changed => some changed
  | .reply _ => none

def actionsFor (tracked : Tracked Positions Mark Nat) (message : BindMessage) : ParamTransforms :=
  ((tracked.statements.get message.statement).map (·.params)).getD .empty

end Frame

/-- A body that carries this Bind, as the protocol lays it out. -/
structure Carries (body : Bytes) (message : BindMessage) : Prop where
  portal : 0 ∉ message.portal
  statement : 0 ∉ message.statement
  fewFormats : message.paramFormats.length < 2 ^ 16
  fewParams : message.params.length < 2 ^ 16
  codes : ∀ code ∈ message.paramFormats, -2 ^ 15 ≤ code ∧ code < 2 ^ 15
  short : ∀ value ∈ message.params.flatMap Option.toList, value.length < 2 ^ 31
  spelled : body = bindBody message

/-- What an action leaves of a value: an array that has no index stays as it is. -/
def handledValue (original : Bytes) : Handled → Bytes
  | .replaced changed => changed
  | .unindexed _ => original

/-- A Bind changed at the recorded parameters only, each by its action on the values of
the message as it was sent. -/
structure Pointwise (sent : BindMessage) (actions : ParamTransforms) (received : BindMessage) :
    Prop where
  portal : received.portal = sent.portal
  statement : received.statement = sent.statement
  paramFormats : received.paramFormats = sent.paramFormats
  resultFormats : received.resultFormats = sent.resultFormats
  count : received.params.length = sent.params.length
  null : ∀ index : Nat, sent.params[index]? = some none → received.params[index]? = some none
  unrecorded : ∀ index : Nat, index ∉ actions.entries.map Prod.fst →
    received.params[index]? = sent.params[index]?
  recorded : ∀ (index : Nat) (action : ParamAction), (index, action) ∈ actions.entries → ∀ value,
    sent.params[index]? = some (some value) →
      ∃ handled, handleParam sent index value action = .ok handled ∧
        received.params[index]? = some (some (handledValue value handled))

section Counts

theorem be16_inj {left right : Nat} {before after : Bytes} (few : left < 2 ^ 16)
    (less : right < 2 ^ 16) (same : be16 left ++ before = be16 right ++ after) :
    left = right ∧ before = after := by
  simp only [be16, List.cons_append, List.nil_append, List.cons.injEq, ← UInt8.toNat_inj,
    UInt8.toNat_ofNat'] at same
  obtain ⟨high, low, rest⟩ := same
  exact ⟨by omega, rest⟩

theorem takeI16_many {count : Nat} (many : 2 ^ 15 ≤ count) (few : count < 2 ^ 16) (rest : Bytes) :
    takeI16 (be16 count ++ rest) = some ((count : Int) - 2 ^ 16, rest) := by
  have unsigned : be16 count = beShort ((count : Int) - 2 ^ 16) := by
    have same : (((count : Int) - 2 ^ 16) % 2 ^ 16).toNat = count := by omega
    rw [beShort, same]
  rw [unsigned, takeI16_beShort (by omega) (by omega)]

end Counts

variable {body : Bytes}

theorem carries_inj {left right : BindMessage} (one : Carries body left)
    (other : Carries body right) : left = right := by
  have same := one.spelled.symm.trans other.spelled
  simp only [bindBody] at same
  have portals := takeCstr_encode one.portal (left.statement ++ 0 ::
    (be16 left.paramFormats.length ++ (encodeFormats left.paramFormats ++
      (be16 left.params.length ++ (encodeElements left.params ++ left.resultFormats)))))
  rw [same, takeCstr_encode other.portal] at portals
  obtain ⟨portal, afterPortal⟩ := Prod.mk.inj (Option.some.inj portals)
  have statements := takeCstr_encode one.statement
    (be16 left.paramFormats.length ++ (encodeFormats left.paramFormats ++
      (be16 left.params.length ++ (encodeElements left.params ++ left.resultFormats))))
  rw [← afterPortal, takeCstr_encode other.statement] at statements
  obtain ⟨statement, sections⟩ := Prod.mk.inj (Option.some.inj statements)
  obtain ⟨formatCount, afterCount⟩ := be16_inj other.fewFormats one.fewFormats sections
  have formats := takeFormats_encode one.codes
    (be16 left.params.length ++ (encodeElements left.params ++ left.resultFormats))
  rw [← afterCount, ← formatCount, takeFormats_encode other.codes] at formats
  obtain ⟨paramFormats, afterFormats⟩ := Prod.mk.inj (Option.some.inj formats)
  obtain ⟨paramCount, values⟩ := be16_inj other.fewParams one.fewParams afterFormats
  have taken := takeElements_encode one.short left.resultFormats
  rw [← values, ← paramCount, takeElements_encode other.short] at taken
  obtain ⟨params, resultFormats⟩ := Prod.mk.inj (Option.some.inj taken)
  cases left
  cases right
  simp_all

variable {message : BindMessage}

theorem carries_of_encode (portal : 0 ∉ message.portal) (statement : 0 ∉ message.statement)
    (codes : ∀ code ∈ message.paramFormats, -2 ^ 15 ≤ code ∧ code < 2 ^ 15)
    (encoded : encodeBind message = .ok body) : Carries body message := by
  obtain ⟨spelled, fewFormats, fewParams, short⟩ := encodeBind_ok encoded
  exact ⟨portal, statement, by omega, by omega, codes, short, spelled⟩

variable {sent parsed : BindMessage}

theorem parsed_names (carries : Carries body sent) (read : parseBind body = .ok parsed) :
    parsed.portal = sent.portal ∧ parsed.statement = sent.statement := by
  rw [carries.spelled, parseBind, readBind, bindBody, takeCstr_encode carries.portal] at read
  simp only [Option.bind_eq_bind, Option.bind_some, takeCstr_encode carries.statement] at read
  have read := wellFormed_ok read
  obtain ⟨_, _, read⟩ := Option.bind_eq_some_iff.mp read
  obtain ⟨_, _, read⟩ := Option.bind_eq_some_iff.mp read
  obtain ⟨_, _, read⟩ := Option.bind_eq_some_iff.mp read
  obtain ⟨_, _, done⟩ := Option.bind_eq_some_iff.mp read
  cases done
  exact ⟨rfl, rfl⟩

/-- Neither section of a Bind has more entries than a signed count can say. -/
def SignedCounts (message : BindMessage) : Prop :=
  message.paramFormats.length < 2 ^ 15 ∧ message.params.length < 2 ^ 15

theorem parsed_whole (carries : Carries body sent) (counted : SignedCounts sent) :
    parseBind body = .ok sent := by
  have encoded : encodeBind sent = .ok body := by
    rw [encodeBind, if_pos ⟨counted.1, counted.2, carries.short⟩, carries.spelled]
  exact parseBind_encode carries.portal carries.statement carries.codes encoded

theorem parsed_short (carries : Carries body sent) (uncounted : ¬ SignedCounts sent)
    (read : parseBind body = .ok parsed) :
    parsed.paramFormats.length ≠ sent.paramFormats.length ∨
      parsed.params.length ≠ sent.params.length := by
  rw [carries.spelled, parseBind, readBind, bindBody, takeCstr_encode carries.portal] at read
  simp only [Option.bind_eq_bind, Option.bind_some, takeCstr_encode carries.statement] at read
  by_cases formats : sent.paramFormats.length < 2 ^ 15
  · have many : 2 ^ 15 ≤ sent.params.length := by
      rw [SignedCounts, not_and_or] at uncounted
      omega
    have none : ((sent.params.length : Int) - 2 ^ 16).toNat = 0 := by
      have few := carries.fewParams
      omega
    simp only [takeI16_be16 formats, Option.bind_some, Int.toNat_natCast,
      takeFormats_encode carries.codes, takeI16_many many carries.fewParams, none, takeElements,
      Option.pure_def] at read
    cases read
    right
    rw [List.length_nil]
    omega
  · have none : ((sent.paramFormats.length : Int) - 2 ^ 16).toNat = 0 := by
      have few := carries.fewFormats
      omega
    simp only [takeI16_many (Nat.le_of_not_lt formats) carries.fewFormats, Option.bind_some, none,
      takeFormats] at read
    have read := wellFormed_ok read
    obtain ⟨_, _, read⟩ := Option.bind_eq_some_iff.mp read
    obtain ⟨_, _, done⟩ := Option.bind_eq_some_iff.mp read
    cases done
    left
    rw [List.length_nil]
    omega

section Record

variable {calls : List (Nat × ParamAction)} {params : ParamTransforms}

def recordAll (calls : List (Nat × ParamAction)) : Except SessionError ParamTransforms :=
  calls.foldlM (fun params call => params.record call.1 call.2) .empty

theorem agreesWith_refl (action : ParamAction) : action.agreesWith action = true := by
  cases action <;> simp [ParamAction.agreesWith]

variable {before after : ParamTransforms}

theorem record_ok {index : Nat} {action : ParamAction}
    (ran : before.record index action = .ok after) :
    (∀ entry ∈ before.entries, entry ∈ after.entries) ∧
      (∀ entry ∈ after.entries, entry ∈ before.entries ∨ entry = (index, action)) ∧
      ∃ stored, (index, stored) ∈ after.entries ∧ stored.agreesWith action = true := by
  unfold ParamTransforms.record at ran
  split at ran
  · rename_i place existing found
    split at ran
    · rename_i agrees
      cases ran
      have at' := List.find?_some found
      simp only [decide_eq_true_eq] at at'
      subst at'
      exact ⟨fun _ => id, fun _ => .inl, existing, List.mem_of_find?_eq_some found, agrees⟩
    · cases ran
  · cases ran
    refine ⟨fun entry => List.mem_append_left _, ?_, action, by simp, agreesWith_refl action⟩
    intro entry listed
    rcases List.mem_append.mp listed with held | new
    · exact .inl held
    · exact .inr (List.mem_singleton.mp new)

theorem recordAll_ok
    (ran : calls.foldlM (fun params call => params.record call.1 call.2) before = .ok after) :
    (∀ entry ∈ before.entries, entry ∈ after.entries) ∧
      (∀ entry ∈ after.entries, entry ∈ before.entries ∨ entry ∈ calls) ∧
      ∀ call ∈ calls, ∃ stored, (call.1, stored) ∈ after.entries ∧
        stored.agreesWith call.2 = true := by
  induction calls generalizing before with
  | nil =>
    cases ran
    exact ⟨fun _ => id, fun _ => .inl, List.forall_mem_nil _⟩
  | cons call rest ih =>
    obtain ⟨middle, first, later⟩ := Outcome.bind_ok_iff.mp ran
    obtain ⟨kept, added, stored, held, agrees⟩ := record_ok first
    obtain ⟨keptLater, addedLater, each⟩ := ih later
    refine ⟨fun entry listed => keptLater entry (kept entry listed), ?_, ?_⟩
    · intro entry listed
      rcases addedLater entry listed with early | late
      · rcases added entry early with old | new
        · exact .inl old
        · exact .inr (List.mem_cons.mpr (.inl new))
      · exact .inr (List.mem_cons_of_mem _ late)
    · intro other listed
      rcases List.mem_cons.mp listed with rfl | listed
      · exact ⟨stored, keptLater _ held, agrees⟩
      · exact each other listed

end Record

variable {before after : List (Option Bytes) × List String}

theorem bindParam_length {index : Nat} {action : ParamAction}
    (ran : bindParam message index action before = .ok after) :
    after.1.length = before.1.length := by
  unfold bindParam at ran
  split at ran
  · cases ran
    rfl
  · obtain ⟨handled, _, done⟩ := Outcome.bind_ok_iff.mp ran
    cases handled with
    | replaced changed =>
      cases done
      exact List.length_set
    | unindexed column =>
      cases done
      rfl

theorem bindEach_length {entries : List (Nat × ParamAction)}
    (ran : bindEach message entries before = .ok after) : after.1.length = before.1.length := by
  induction entries generalizing before with
  | nil =>
    cases ran
    rfl
  | cons entry rest ih =>
    obtain ⟨middle, first, later⟩ := Outcome.bind_ok_iff.mp ran
    rw [ih later, bindParam_length first]

variable {params : ParamTransforms}

theorem bindParams_pointwise {context : Context} {values : List (Option Bytes)}
    (ran : bindParams context message params = .ok values) :
    Pointwise message params { message with params := values } := by
  obtain ⟨each, others⟩ := bindParams_ok ran
  obtain ⟨_, bound⟩ := bindParams_each ran
  refine ⟨rfl, rfl, rfl, rfl, bindEach_length bound, ?_, others, ?_⟩
  · intro index null
    by_cases listed : index ∈ params.entries.map Prod.fst
    · obtain ⟨entry, member, rfl⟩ := List.mem_map.mp listed
      have done := each entry member
      have absent : message.param entry.1 = none := by rw [BindMessage.param, null]; rfl
      rw [ParamDone, absent] at done
      exact done.trans null
    · exact (others index listed).trans null
  · intro index action recorded value carried
    have done := each (index, action) recorded
    have present : message.param index = some value := by rw [BindMessage.param, carried]; rfl
    rw [ParamDone, present] at done
    obtain ⟨handled, ran, after⟩ := done
    refine ⟨handled, ran, ?_⟩
    cases handled with
    | replaced changed => exact after.trans (by rw [carried]; rfl)
    | unindexed column => exact after.trans carried

theorem pointwise_unchanged (nothing : params.entries = []) : Pointwise message params message := by
  refine ⟨rfl, rfl, rfl, rfl, rfl, fun _ => id, fun _ _ => rfl, ?_⟩
  intro index action recorded
  rw [nothing] at recorded
  cases recorded

section Frame

variable {Positions Mark : Type} {context : Context} {tracked after : Tracked Positions Mark Nat}
  {body frame : Bytes} {discards : Bool} {action : FrameAction}

variable {Value : Type}

theorem pgwire_ok {read : Except RowError Value} {value : Value}
    (accepted : pgwire read = .ok value) : read = .ok value := by
  cases read with
  | error cause => cases accepted
  | ok held => cases accepted; rfl

theorem session_ok {read : Except SessionError Value} {value : Value}
    (accepted : session read = .ok value) : read = .ok value := by
  cases read with
  | error cause => cases accepted
  | ok held => cases accepted; rfl

/-- A Bind that goes on is relayed where nothing is recorded for its statement, and
encoded again from the transformed values otherwise. -/
theorem bindFrame_forwarded (ran : bindFrame context tracked body = .ok (after, discards, action))
    (forwarded : action.forwarded body = some frame) :
    ∃ message, parseBind body = .ok message ∧
      ((frame = body ∧ (actionsFor tracked message).entries = []) ∨
        (actionsFor tracked message).entries ≠ [] ∧
          ∃ values, bindParams context message (actionsFor tracked message) = .ok values ∧
            encodeBind { message with params := values } = .ok frame) := by
  obtain ⟨message, parsed, ran⟩ := Outcome.bind_ok_iff.mp ran
  obtain ⟨codes, _, ran⟩ := Outcome.bind_ok_iff.mp ran
  obtain ⟨⟨middle, recorded⟩, bound, ran⟩ := Outcome.bind_ok_iff.mp ran
  have found := (bind_ok (session_ok bound)).2
  refine ⟨message, pgwire_ok parsed, ?_⟩
  dsimp only at ran
  split at ran
  · cases ran
    have unknown : (actionsFor tracked message).entries = [] := by
      rw [actionsFor, ← found]
      rfl
    exact .inl ⟨(Option.some.inj forwarded).symm, unknown⟩
  · rename_i params
    have actions : actionsFor tracked message = params := by
      rw [actionsFor, ← found]
      rfl
    rw [actions]
    split at ran
    · rename_i empty
      cases ran
      exact .inl ⟨(Option.some.inj forwarded).symm, List.isEmpty_iff.mp empty⟩
    · rename_i some'
      split at ran
      · cases ran
        cases forwarded
      · cases ran
      · rename_i values handled
        obtain ⟨encoded, spelled, done⟩ := Outcome.bind_ok_iff.mp ran
        cases done
        cases forwarded
        refine .inr ⟨fun nothing => some' (List.isEmpty_iff.mpr nothing), values, handled, ?_⟩
        exact pgwire_ok spelled

theorem forwarded_carries {values : List (Option Bytes)} (parsed : parseBind body = .ok message)
    (encoded : encodeBind { message with params := values } = .ok frame) :
    Carries frame { message with params := values } := by
  obtain ⟨_, _, read⟩ := readFrom_of_parse parsed
  exact carries_of_encode read.named.1 read.named.2 read.codes encoded

end Frame

/-- Recorded actions are one to a placeholder and agree with every call that recorded
them. A Bind that goes on is changed pointwise by them, unless it has recorded actions
and more formats or parameters than a signed count can say. -/
theorem bind_pointwise_iff {Positions Mark : Type} (context : Context)
    (tracked : Tracked Positions Mark Nat) (body : Bytes) :
    (∀ calls params, recordAll calls = .ok params →
      (params.entries.map Prod.fst).Nodup ∧ (∀ entry ∈ params.entries, entry ∈ calls) ∧
        ∀ call ∈ calls, ∃ stored, (call.1, stored) ∈ params.entries ∧
          stored.agreesWith call.2 = true) ∧
    ∀ (after : Tracked Positions Mark Nat) (frame : Bytes) (discards : Bool) (action : FrameAction)
      (sent : BindMessage),
      Carries body sent → bindFrame context tracked body = .ok (after, discards, action) →
      action.forwarded body = some frame →
      ((∃ received, Carries frame received ∧
          Pointwise sent (actionsFor tracked sent) received) ↔
        (actionsFor tracked sent).entries = [] ∨ SignedCounts sent) := by
  constructor
  · intro calls params ran
    obtain ⟨_, added, each⟩ := recordAll_ok ran
    refine ⟨params.distinct, ?_, each⟩
    intro entry listed
    exact (added entry listed).resolve_left nofun
  · intro after frame discards action sent carries ran forwarded
    obtain ⟨message, parsed, handled⟩ := bindFrame_forwarded ran forwarded
    have names := parsed_names carries parsed
    have actions : actionsFor tracked message = actionsFor tracked sent := by
      rw [actionsFor, actionsFor, names.2]
    rw [actions] at handled
    rcases handled with ⟨rfl, nothing⟩ | ⟨something, values, bound, encoded⟩
    · exact ⟨fun _ => .inl nothing, fun _ => ⟨sent, carries, pointwise_unchanged nothing⟩⟩
    · have arrives := forwarded_carries parsed encoded
      constructor
      · rintro ⟨received, read, pointwise⟩
        right
        by_contra uncounted
        have same := carries_inj read arrives
        subst same
        -- The values are as many as the proxy read, not as many as were sent.
        have length := (bindParams_pointwise bound).count
        rcases parsed_short carries uncounted parsed with formats | params
        · exact formats (congrArg List.length pointwise.paramFormats)
        · exact params (length.symm.trans pointwise.count)
      · intro condition
        have whole := parsed_whole carries (condition.resolve_left something)
        cases parsed.symm.trans whole
        exact ⟨_, arrives, bindParams_pointwise bound⟩

section ManyParameters

def marked : FieldTransform where
  identity := 0
  wire := .bytea
  sealValue plaintext _ := .ok (0xEE :: plaintext)
  searchIndex _ := .ok none
  supportsSearch := false

def sealFirst : ParamTransforms := ⟨[(0, .sealWith marked .none)], by decide⟩

def preparedFirst : Tracked Unit Unit Nat :=
  { Tracked.new with statements := Table.empty.put [] ⟨0, sealFirst, none⟩ }

def twoSent : BindMessage := ⟨[], [], [], [some [0x61], none], [0, 0]⟩

/-- The value as `\xee61` and the NULL. -/
def twoReceived : BindMessage :=
  ⟨[], [], [], [some [0x5C, 0x78, 0x65, 0x65, 0x36, 0x31], none], [0, 0]⟩

theorem two_parameters_bound :
    (∃ after, bindFrame ⟨.new [] .warn, none, fun _ => "", true, false⟩ preparedFirst
        (bindBody twoSent) = .ok (after, false, .replace (bindBody twoReceived))) ∧
      Carries (bindBody twoReceived) twoReceived ∧
      Pointwise twoSent (actionsFor preparedFirst twoSent) twoReceived := by
  have sent : Carries (bindBody twoSent) twoSent :=
    ⟨by decide, by decide, by decide, by decide, by decide, by decide, rfl⟩
  have arrives : Carries (bindBody twoReceived) twoReceived :=
    ⟨by decide, by decide, by decide, by decide, by decide, by decide, rfl⟩
  obtain ⟨received, read, pointwise⟩ :=
    ((bind_pointwise_iff ⟨.new [] .warn, none, fun _ => "", true, false⟩ preparedFirst
      (bindBody twoSent)).2 _ (bindBody twoReceived) false _ twoSent sent rfl rfl).mpr
        (.inr ⟨by decide, by decide⟩)
  cases carries_inj read arrives
  exact ⟨⟨_, rfl⟩, arrives, pointwise⟩

def manyValues : List (Option Bytes) := List.replicate (2 ^ 15) (some [0x61])

def manySent : BindMessage := ⟨[], [], [], manyValues, [0, 0]⟩

theorem manySent_carried : Carries (bindBody manySent) manySent := by
  refine ⟨List.not_mem_nil, List.not_mem_nil, by decide, ?_, List.forall_mem_nil _, ?_, rfl⟩
  · change manyValues.length < 2 ^ 16
    rw [manyValues, List.length_replicate]
    decide
  · intro value listed
    obtain ⟨held, member, carried⟩ := List.mem_flatMap.mp listed
    cases List.eq_of_mem_replicate member
    cases List.mem_singleton.mp carried
    decide

theorem bindBody_nameless (values : List (Option Bytes)) (rest : Bytes) :
    bindBody ⟨[], [], [], values, rest⟩ =
      [0, 0, 0, 0] ++ (be16 values.length ++ (encodeElements values ++ rest)) := by
  simp [bindBody, be16, encodeFormats]

/-- Nothing is left of the parameters of a Bind whose count is negative, and the action
on the first is not applied. -/
theorem bindFrame_negative (context : Context) {raw rest : Bytes}
    (starts : raw = beShort 0 ++ rest) :
    ∃ after frame,
      bindFrame context preparedFirst ([0, 0, 0, 0] ++ (beShort (-2 ^ 15) ++ raw)) =
          .ok (after, false, .replace frame) ∧
        Carries frame ⟨[], [], [], [], raw⟩ := by
  have codes : resultFormatCodes ⟨[], [], [], [], raw⟩ = .ok [] := by
    rw [resultFormatCodes, starts, takeI16_beShort (by decide) (by decide)]
    rfl
  have encoded : encodeBind ⟨[], [], [], [], raw⟩ = .ok (bindBody ⟨[], [], [], [], raw⟩) := by
    rw [encodeBind, if_pos ⟨Nat.two_pow_pos 15, Nat.two_pow_pos 15, by simp⟩]
  obtain ⟨after, bound⟩ :
      ∃ after, preparedFirst.bind [] [] (some []) = .ok (after, some sealFirst) :=
    ⟨_, rfl⟩
  refine ⟨after, bindBody ⟨[], [], [], [], raw⟩, ?_,
    carries_of_encode List.not_mem_nil List.not_mem_nil (by simp) encoded⟩
  have recorded : sealFirst.isEmpty = false := rfl
  have values : bindParams context ⟨[], [], [], [], raw⟩ sealFirst = .ok [] := rfl
  rw [bindFrame, parseBind_negative]
  simp only [pgwire, codes, session, bound, recorded, values, encoded, bind, Except.bind, pure,
    Except.pure, Bool.false_eq_true, if_false]

/-- Of a Bind with 32768 parameters, the first of which is to be sealed, the server
receives no parameter at all. -/
theorem many_parameters_lost :
    Carries (bindBody manySent) manySent ∧ manySent.params.length = 2 ^ 15 ∧
      (actionsFor preparedFirst manySent).entries.length = 1 ∧
      ∀ context : Context, ∃ after frame,
        bindFrame context preparedFirst (bindBody manySent) = .ok (after, false, .replace frame) ∧
          Carries frame ⟨[], [], [], [], encodeElements manyValues ++ [0, 0]⟩ := by
  refine ⟨manySent_carried, List.length_replicate, rfl, ?_⟩
  intro context
  have count : be16 manyValues.length = beShort (-2 ^ 15) := by
    rw [manyValues, List.length_replicate]
    decide
  obtain ⟨rest, starts⟩ : ∃ rest, encodeElements manyValues ++ [0, 0] = beShort 0 ++ rest := by
    have more : manyValues = some [0x61] :: List.replicate (2 ^ 15 - 1) (some [0x61]) :=
      List.replicate_succ
    rw [more]
    exact ⟨_, rfl⟩
  rw [manySent, bindBody_nameless, count]
  exact bindFrame_negative context starts

end ManyParameters

end Dbsec.BindFrames
