import Dbsec.Messages
import Dbsec.StoredForms

/-! What `RowDecryptor::decrypt_row` does to a row as a whole: each protected value
becomes a function of itself and of the row key read from the row as it arrived,
whatever else is rewritten, and the running size is the length the row encodes to. -/
namespace Dbsec.RowRewrite
open Framing Envelope KeyCache Protection Resolve RowKeys ArrayParam ReadPath Messages
open Portal (ResultFormats)

variable {keys : KeySource}

/-- The row key a position opens against, where the row carries a usable one. -/
def keyAt (formats : ResultFormats) (values : List (Option Bytes)) : RowKeyRef → Option RowKey
  | .slot index typeOid => (readRowKey index typeOid formats values).toOption
  | _ => none

/-- What a client is shown for one stored value: the opened plaintext, masked, in the
rendering the value arrived in. `none` leaves the value as it is. -/
def shownCell (crypto : Crypto keys) (column : ReadColumn) (key : Option RowKey) (value : Bytes) :
    Except Error (Option Bytes) := do
  let (stored, isHex) := match column.transform with
    | some transform => decodeWire transform value
    | none => (value, false)
  let opened ← match column.transform with
    | some transform => openValue crypto stored key transform
    | none => pure none
  let masked := column.mask.map fun mask => mask.apply (opened.getD stored)
  return (masked.or opened).map fun shown => if isHex then hexTextForm shown else shown

section Cells

variable {crypto : Crypto keys} {rowKeys : List (Nat × Except Error RowKey)}
  {repeated : List String} {position : Position}

theorem attributed_ok_iff {Value : Type} {rowKey : Option RowKey} {again : Bool}
    {outcome : Except Error Value} {value : Value} :
    attributed position rowKey again outcome = .ok value ↔ outcome = .ok value := by
  cases outcome with
  | ok held => simp [attributed]
  | error failure => simp [attributed]

/-- A value opens exactly when it opens under the key of its slot. A slot whose key could
not be read counts as no key. -/
theorem openCell_ok_iff {transform : Wired} {stored : Bytes} {opened : Option Bytes} :
    openCell crypto rowKeys repeated position transform stored = .ok opened ↔
      openValue crypto stored ((slotOf rowKeys position).bind Except.toOption) transform =
        .ok opened := by
  unfold openCell
  cases slotOf rowKeys position with
  | none => exact attributed_ok_iff
  | some read =>
    cases read with
    | ok key => exact attributed_ok_iff
    | error why =>
      change _ ↔ openValue crypto stored none transform = .ok opened
      dsimp only
      split
      · rename_i missing
        rw [missing]
        simp
      · exact attributed_ok_iff

variable {value : Bytes}

theorem replacement_ok_iff {shown : Option Bytes} :
    replacement crypto rowKeys repeated position value = .ok shown ↔
      shownCell crypto position.column ((slotOf rowKeys position).bind Except.toOption) value =
        .ok shown := by
  unfold replacement shownCell
  cases position.column.transform with
  | none => simp only [Outcome.bind_ok_iff, Outcome.pure_ok_iff]
  | some transform => simp only [Outcome.bind_ok_iff, openCell_ok_iff, Outcome.pure_ok_iff]

theorem replacement_fails {failure : Error}
    (fails : shownCell crypto position.column
      ((slotOf rowKeys position).bind Except.toOption) value =
      .error failure) :
    ∃ refusal, replacement crypto rowKeys repeated position value = .error refusal := by
  cases replaced : replacement crypto rowKeys repeated position value with
  | error refusal => exact ⟨refusal, rfl⟩
  | ok shown =>
    rw [replacement_ok_iff, fails] at replaced
    cases replaced

end Cells

variable {described : Described}

theorem consistent_perm (consistent : described.Consistent) {positions : List Position}
    (ordered : positions.Perm described.columns) :
    Described.Consistent { described with columns := positions } where
  distinct := (ordered.map _).nodup_iff.mpr consistent.distinct
  typed := fun position member => consistent.typed position (ordered.mem_iff.mp member)

theorem slotOf_keyAt (consistent : described.Consistent) {position : Position}
    (member : position ∈ described.columns) (formats : ResultFormats)
    (values : List (Option Bytes)) :
    (slotOf (readRowKeys described.columns formats values) position).bind Except.toOption =
      keyAt formats values position.key := by
  cases key : position.key with
  | slot index typeOid =>
    rw [slotOf_readRowKeys consistent member key]
    rfl
  | absent =>
    rw [slotOf_unkeyed (by simp [key])]
    rfl
  | ambiguous table column =>
    rw [slotOf_unkeyed (by simp [key])]
    rfl
  | typeChanged table column wire resolved =>
    rw [slotOf_unkeyed (by simp [key])]
    rfl

section Runs

variable {crypto : Crypto keys} {rowKeys : List (Nat × Except Error RowKey)}
  {repeated : List String} {bounds : Bounds} {start done : Progress}

variable {progress after : Progress} {position : Position}

theorem rewritePosition_length
    (ran : rewritePosition crypto rowKeys repeated bounds progress position = .ok after) :
    after.values.length = progress.values.length := by
  rcases rewritePosition_ok ran with ⟨rfl, _⟩ | ⟨value, _, _, ⟨_, rfl⟩ | ⟨shown, _, _, rfl⟩⟩
  · rfl
  · rfl
  · exact List.length_set

theorem rewritePosition_null {place : Nat}
    (ran : rewritePosition crypto rowKeys repeated bounds progress position = .ok after)
    (null : progress.values[place]? = some none) : after.values[place]? = some none := by
  by_cases same : position.index = place
  · subst same
    rcases rewritePosition_ok ran with ⟨rfl, _⟩ | ⟨value, carried, _⟩
    · exact null
    · cases carried.symm.trans null
  · rw [rewritePosition_other ran same, null]

variable {positions : List Position}

theorem rewrite_shape
    (ran : positions.foldlM (rewritePosition crypto rowKeys repeated bounds) start = .ok done) :
    done.values.length = start.values.length ∧
      ∀ place : Nat, start.values[place]? = some none → done.values[place]? = some none := by
  induction positions generalizing start with
  | nil =>
    cases ran
    exact ⟨rfl, fun _ => id⟩
  | cons first rest ih =>
    obtain ⟨middle, step, later⟩ := Outcome.bind_ok_iff.mp ran
    obtain ⟨sized, nulls⟩ := ih later
    constructor
    · rw [sized, rewritePosition_length step]
    · intro place null
      exact nulls place (rewritePosition_null step null)

theorem rewrite_changed_iff (distinct : (positions.map (·.index)).Nodup)
    (fresh : start.changed = false)
    (ran : positions.foldlM (rewritePosition crypto rowKeys repeated bounds) start = .ok done) :
    done.changed = false ↔ ∀ position ∈ positions, ∀ value,
      start.values[position.index]? = some (some value) →
        replacement crypto rowKeys repeated position value = .ok none := by
  induction positions generalizing start with
  | nil =>
    cases ran
    simp [fresh]
  | cons first rest ih =>
    rw [List.map_cons, List.nodup_cons] at distinct
    obtain ⟨middle, step, later⟩ := Outcome.bind_ok_iff.mp ran
    -- The later positions see the values of the row as it arrived.
    have seen : ∀ position ∈ rest,
        middle.values[position.index]? = start.values[position.index]? := by
      intro position listed
      apply rewritePosition_other step
      intro same
      exact distinct.1 (same ▸ List.mem_map_of_mem listed)
    rcases rewritePosition_ok step with ⟨rfl, absent⟩ | ⟨value, carried, _, outcome⟩
    · rw [ih distinct.2 fresh later, List.forall_mem_cons]
      exact ⟨fun others => ⟨fun value held => absurd held (absent value), others⟩, And.right⟩
    · rcases outcome with ⟨kept, rfl⟩ | ⟨shown, replaced, _, rfl⟩
      · rw [ih distinct.2 fresh later, List.forall_mem_cons]
        refine ⟨fun others => ⟨?_, others⟩, And.right⟩
        intro held here
        cases carried.symm.trans here
        exact kept
      · constructor
        · intro same
          rw [changed_stays later rfl] at same
          cases same
        · intro every
          have kept := every first List.mem_cons_self value carried
          rw [replaced] at kept
          cases kept

variable {body : Bytes} {outcome : Option Bytes}

/-- A row that gets through: the positions were all rewritten, and the row is encoded
again where one of them changed it. -/
theorem decryptRow_ok {formats : ResultFormats}
    (ran : decryptRow crypto positions formats body bounds = .ok outcome) :
    ∃ values done, parseDataRow body = .ok values ∧
      positions.foldlM (rewritePosition crypto (readRowKeys positions formats values)
        (repeatedColumns positions) bounds) ⟨values, body.length, false⟩ = .ok done ∧
      ((done.changed = false ∧ outcome = none) ∨
        done.changed = true ∧ ∃ rewritten, encodeDataRow done.values = .ok rewritten ∧
          outcome = some rewritten) := by
  simp only [decryptRow, Outcome.bind_ok_iff] at ran
  obtain ⟨_, _, values, parsed, done, folded, finished⟩ := ran
  refine ⟨values, done, parsed, folded, ?_⟩
  split at finished
  · rename_i changed
    simp only [Outcome.bind_ok_iff, Outcome.pure_ok_iff] at finished
    obtain ⟨rewritten, encoded, rfl⟩ := finished
    exact .inr ⟨changed, rewritten, encoded, rfl⟩
  · rename_i same
    cases finished
    exact .inl ⟨by simpa using same, rfl⟩

theorem decryptRow_delivers {values : List (Option Bytes)} (parsed : parseDataRow body = .ok values)
    (folded : positions.foldlM (rewritePosition crypto rowKeys repeated bounds)
      ⟨values, body.length, false⟩ = .ok done) (finished : (done.changed = false ∧ outcome = none) ∨
      done.changed = true ∧ ∃ rewritten, encodeDataRow done.values = .ok rewritten ∧
        outcome = some rewritten) :
    parseDataRow (outcome.getD body) = .ok done.values ∧
      (outcome = none ↔ done.changed = false) := by
  rcases finished with ⟨same, rfl⟩ | ⟨changed, rewritten, encoded, rfl⟩
  · constructor
    · rw [unchanged_values folded same]
      exact parsed
    · simp [same]
  · constructor
    · exact encodeDataRow_ok encoded
    · simp [changed]

end Runs

/-- A row that arrives is delivered with the same values, except that each protected
value which is not NULL is what its column shows of it under the row key of the row as
it arrived. -/
structure DeliveredAs (crypto : Crypto keys) (described : Described) (formats : ResultFormats)
    (values delivered : List (Option Bytes)) : Prop where
  count : delivered.length = values.length
  unprotected : ∀ place, place ∉ described.columns.map (·.index) →
    delivered[place]? = values[place]?
  null : ∀ place : Nat, values[place]? = some none → delivered[place]? = some none
  shown : ∀ position ∈ described.columns, ∀ value, values[position.index]? = some (some value) →
    ∃ shown, shownCell crypto position.column (keyAt formats values position.key) value =
      .ok shown ∧
      delivered[position.index]? = some (some (shown.getD value))

/-- `decrypt_row` is pointwise on the row that arrived, in whatever order the positions
are taken: a row that gets through is delivered as described, re-encoded exactly when a
value was replaced, and a value that fails to open refuses the row. -/
theorem decryptRow_pointwise (crypto : Crypto keys) {resolves : Resolved → Prop}
    {described : Described} (held : DescribedBy resolves described) {positions : List Position}
    (ordered : positions.Perm described.columns) (formats : ResultFormats) (body : Bytes)
    (bounds : Bounds) :
    (∀ outcome, decryptRow crypto positions formats body bounds = .ok outcome →
      ∃ values delivered, parseDataRow body = .ok values ∧
        parseDataRow (outcome.getD body) = .ok delivered ∧
        DeliveredAs crypto described formats values delivered ∧
        (outcome = none ↔ ∀ position ∈ described.columns, ∀ value,
          values[position.index]? = some (some value) →
            shownCell crypto position.column (keyAt formats values position.key) value =
              .ok none)) ∧
    ∀ values, parseDataRow body = .ok values → ∀ position ∈ described.columns, ∀ value failure,
      values[position.index]? = some (some value) →
      shownCell crypto position.column (keyAt formats values position.key) value = .error failure →
        ∃ refusal, decryptRow crypto positions formats body bounds = .error refusal := by
  have consistent := consistent_perm (consistent_of_described held) ordered
  constructor
  · intro outcome ran
    obtain ⟨values, done, parsed, folded, finished⟩ := decryptRow_ok ran
    obtain ⟨arrives, none_iff⟩ := decryptRow_delivers parsed folded finished
    obtain ⟨sized, nulls⟩ := rewrite_shape folded
    refine ⟨values, done.values, parsed, arrives, ⟨sized, ?_, nulls, ?_⟩, ?_⟩
    · intro place untouched
      exact rewritten_elsewhere folded ((ordered.map _).mem_iff.not.mpr untouched)
    · intro position member value carried
      have listed := ordered.mem_iff.mpr member
      obtain ⟨shown, replaced, here⟩ := rewritten_at consistent.distinct listed carried folded
      rw [replacement_ok_iff, slotOf_keyAt consistent listed] at replaced
      exact ⟨shown, replaced, here⟩
    · rw [none_iff, rewrite_changed_iff consistent.distinct rfl folded]
      constructor
      · intro every position member value carried
        have listed := ordered.mem_iff.mpr member
        rw [← slotOf_keyAt consistent listed, ← replacement_ok_iff]
        exact every position listed value carried
      · intro every position listed value carried
        rw [replacement_ok_iff, slotOf_keyAt consistent listed]
        exact every position (ordered.mem_iff.mp listed) value carried
  · intro values parsed position member value failure carried fails
    have listed := ordered.mem_iff.mpr member
    rw [← slotOf_keyAt consistent listed] at fails
    exact decryptRow_refused consistent listed parsed carried (replacement_fails fails)

section Sizes

variable (crypto : Crypto keys) (rowKeys : List (Nat × Except Error RowKey))
  (repeated : List String) (bounds : Bounds)

def encodedLength (values : List (Option Bytes)) : Nat :=
  (be16 values.length ++ encodeElements values).length

/-- The loop of `decrypt_row` with the values decoded on the way, those of a row that is
refused in the end included. -/
def loggedRun : List Position → Progress → List Bytes × Except RowError Progress
  | [], progress => ([], .ok progress)
  | position :: rest, progress =>
    match loggedPosition crypto rowKeys repeated bounds progress position with
    | (decoded, .error failure) => (decoded, .error failure)
    | (decoded, .ok next) =>
      (decoded ++ (loggedRun rest next).1, (loggedRun rest next).2)

variable {crypto rowKeys repeated bounds}

theorem loggedRun_erases (positions : List Position) (start : Progress) :
    (loggedRun crypto rowKeys repeated bounds positions start).2 =
      positions.foldlM (rewritePosition crypto rowKeys repeated bounds) start := by
  induction positions generalizing start with
  | nil => rfl
  | cons position rest ih =>
    rw [List.foldlM_cons, rewritePosition, loggedRun]
    cases loggedPosition crypto rowKeys repeated bounds start position with
    | mk decoded outcome =>
      cases outcome with
      | error failure => rfl
      | ok next => exact ih next

theorem loggedPosition_short (progress : Progress) (position : Position) :
    ∀ value ∈ (loggedPosition crypto rowKeys repeated bounds progress position).1,
      value.length ≤ bounds.maxValue := by
  intro value listed
  unfold loggedPosition at listed
  split at listed
  · split at listed
    · cases listed
    · rename_i admitted
      cases List.mem_singleton.mp listed
      exact Nat.le_of_not_lt admitted
  · cases listed

theorem loggedRun_short (positions : List Position) (start : Progress) :
    ∀ value ∈ (loggedRun crypto rowKeys repeated bounds positions start).1,
      value.length ≤ bounds.maxValue := by
  induction positions generalizing start with
  | nil => exact nofun
  | cons position rest ih =>
    intro value listed
    have here := @loggedPosition_short _ crypto rowKeys repeated bounds start position
    rw [loggedRun] at listed
    cases step : loggedPosition crypto rowKeys repeated bounds start position with
    | mk decoded outcome =>
      rw [step] at listed here
      cases outcome with
      | error failure => exact here value listed
      | ok next =>
        rcases List.mem_append.mp listed with first | later
        · exact here value first
        · exact ih next value later

variable {values : List (Option Bytes)} {place : Nat} {value : Bytes}

theorem encodeElements_length_set (carried : values[place]? = some (some value)) (shown : Bytes) :
    (encodeElements (values.set place (some shown))).length + value.length =
      (encodeElements values).length + shown.length := by
  induction values generalizing place with
  | nil => cases carried
  | cons first rest ih =>
    cases place with
    | zero =>
      cases carried
      simp only [List.set_cons_zero, encodeElements, List.length_append, beInt_length]
      omega
    | succ place =>
      have later := ih carried
      cases first with
      | none =>
        simp only [List.set_cons_succ, encodeElements, List.length_append, beInt_length]
        omega
      | some held =>
        simp only [List.set_cons_succ, encodeElements, List.length_append, beInt_length]
        omega

theorem encodedLength_set (carried : values[place]? = some (some value)) (shown : Bytes) :
    encodedLength (values.set place (some shown)) + value.length =
      encodedLength values + shown.length := by
  have elements := encodeElements_length_set carried shown
  simp only [encodedLength, be16, List.length_append, List.length_cons, List.length_nil]
  omega

theorem length_le_encoded (carried : values[place]? = some (some value)) :
    value.length ≤ encodedLength values := by
  have emptied := encodedLength_set carried []
  simp only [List.length_nil] at emptied
  omega

theorem rewritePosition_projected {progress after : Progress} {position : Position}
    (exact' : progress.projected = encodedLength progress.values)
    (ran : rewritePosition crypto rowKeys repeated bounds progress position = .ok after) :
    after.projected = encodedLength after.values := by
  rcases rewritePosition_ok ran with ⟨rfl, _⟩ | ⟨value, carried, _, ⟨_, rfl⟩ | ⟨shown, _, _, rfl⟩⟩
  · exact exact'
  · exact exact'
  · have changed := encodedLength_set carried shown
    have inside := length_le_encoded carried
    simp only
    omega

variable {positions : List Position} {start done : Progress}

theorem rewrite_projected (exact' : start.projected = encodedLength start.values)
    (ran : positions.foldlM (rewritePosition crypto rowKeys repeated bounds) start = .ok done) :
    done.projected = encodedLength done.values := by
  induction positions generalizing start with
  | nil =>
    cases ran
    exact exact'
  | cons first rest ih =>
    obtain ⟨middle, step, later⟩ := Outcome.bind_ok_iff.mp ran
    exact ih (rewritePosition_projected exact' step) later

/-- Once a value has been replaced, the size is within the bound on the body: the last
replacement checked it. -/
theorem rewrite_bounded (within : start.changed = true → start.projected ≤ bounds.maxBody)
    (ran : positions.foldlM (rewritePosition crypto rowKeys repeated bounds) start = .ok done) :
    done.changed = true → done.projected ≤ bounds.maxBody := by
  induction positions generalizing start with
  | nil =>
    cases ran
    exact within
  | cons first rest ih =>
    obtain ⟨middle, step, later⟩ := Outcome.bind_ok_iff.mp ran
    apply ih _ later
    intro changed
    rcases rewritePosition_ok step with ⟨rfl, _⟩ | ⟨value, _, _, ⟨_, rfl⟩ | ⟨shown, _, fits, rfl⟩⟩
    · exact within changed
    · exact within changed
    · exact fits

variable {body : Bytes}

theorem parsed_length (parsed : parseDataRow body = .ok values) :
    body.length = encodedLength values := by
  obtain ⟨count, _, _, _, _, spelled, _⟩ := parseDataRow_ok parsed
  rw [spelled, encodedLength, List.length_append, List.length_append, beShort_length]
  rfl

theorem encoded_length (encoded : encodeDataRow values = .ok body) :
    body.length = encodedLength values := by
  unfold encodeDataRow at encoded
  split at encoded
  · cases encoded
    rfl
  · cases encoded

end Sizes

def maxMessageLen : Nat := 2 ^ 30

def encodeFrameHeader (msgType : UInt8) (bodyLen : Nat) : Except RowError Bytes :=
  if bodyLen + 4 ≤ maxMessageLen then .ok (msgType :: beInt (bodyLen + 4 : Nat))
  else .error (.frameTooLarge bodyLen maxMessageLen)

/-- While a row is rewritten its projected size is the length it encodes to, so no
subtraction underflows; no value over the bound is decoded; and a rewritten row fits its
bound and, with the bound in force, its frame header. None of this needs the positions
to be distinct, so it holds for those of every description. -/
theorem projected_exact_bounded (crypto : Crypto keys) (positions : List Position)
    (formats : ResultFormats) (body : Bytes) (bounds : Bounds) {values : List (Option Bytes)}
    (parsed : parseDataRow body = .ok values) :
    let rowKeys := readRowKeys positions formats values
    let repeated := repeatedColumns positions
    let start : Progress := ⟨values, body.length, false⟩
    (∀ front later progress, positions = front ++ later →
      front.foldlM (rewritePosition crypto rowKeys repeated bounds) start = .ok progress →
        progress.projected = encodedLength progress.values ∧
          ∀ (place : Nat) (value : Bytes), progress.values[place]? = some (some value) →
            value.length ≤ progress.projected) ∧
    ((loggedRun crypto rowKeys repeated bounds positions start).2 =
        positions.foldlM (rewritePosition crypto rowKeys repeated bounds) start ∧
      ∀ value ∈ (loggedRun crypto rowKeys repeated bounds positions start).1,
        value.length ≤ bounds.maxValue) ∧
    ∀ rewritten, decryptRow crypto positions formats body bounds = .ok (some rewritten) →
      rewritten.length ≤ bounds.maxBody ∧
        (bounds.maxBody ≤ maxMessageLen - 4 →
          ∃ header, encodeFrameHeader 0x44 rewritten.length = .ok header) := by
  intro rowKeys repeated start
  have exact' : start.projected = encodedLength start.values := parsed_length parsed
  refine ⟨?_, ⟨loggedRun_erases positions start, loggedRun_short positions start⟩, ?_⟩
  · intro front later progress _ ran
    have projected := rewrite_projected exact' ran
    refine ⟨projected, ?_⟩
    intro place value carried
    rw [projected]
    exact length_le_encoded carried
  · intro rewritten ran
    obtain ⟨values', done, parsed', folded, finished⟩ := decryptRow_ok ran
    cases parsed.symm.trans parsed'
    rcases finished with ⟨_, absent⟩ | ⟨changed, written, encoded, shown⟩
    · cases absent
    · cases shown
      have within := rewrite_bounded (fun fresh => absurd fresh Bool.false_ne_true) folded changed
      have sized : rewritten.length ≤ bounds.maxBody := by
        rw [encoded_length encoded, ← rewrite_projected exact' folded]
        exact within
      refine ⟨sized, ?_⟩
      intro bound
      refine ⟨_, if_pos ?_⟩
      have four : 4 ≤ maxMessageLen := by decide
      omega

section MaskedKey

def keyColumn : ReadColumn := ⟨"public.users.id", none, some ⟨0, 1, '*'⟩⟩

def sealedColumn : ReadColumn :=
  ⟨"public.users.email", some (.encrypt ⟨Transform.emailColumn.context, none, true⟩), none⟩

/-- `users (id, email)` with the row key itself masked. -/
def maskedKey : Resolved :=
  ⟨(Table.empty.put (1, 2) sealedColumn).put (1, 1) keyColumn, [],
    Table.empty.put 1 ⟨⟨"id", 23⟩, 1, "users"⟩, .empty, 0⟩

def rowCrypto : Crypto (Transform.soleSource (Transform.block 16 1) (Transform.block 32 7)) where
  aead := Transform.ledger (Transform.block 32 7) (Transform.block 12 9) CellBinding.rowAad [65]
    (List.replicate 17 0) (by decide)
  ciphers := .withBudget _ 4
  detokenize := fun _ _ => .ok none

def sealedValues : List (Option Bytes) :=
  [some [52, 50],
    some (assemble .v3 (Transform.block 16 1) (Transform.block 12 9) (List.replicate 17 0))]

def sealedRow : Bytes := be16 2 ++ encodeElements sealedValues

def maskedRow : Bytes := be16 2 ++ encodeElements [some [42, 50], some [65]]

/-- The email opens although the key in front of it is masked first. -/
theorem masked_key_row_pointwise :
    ∃ values delivered, parseDataRow sealedRow = .ok values ∧
      parseDataRow maskedRow = .ok delivered ∧
      DeliveredAs rowCrypto (.new maskedKey [⟨1, 1, 23⟩, ⟨1, 2, 17⟩]) none values delivered := by
  obtain ⟨values, delivered, parsed, arrives, pointwise, _⟩ := (decryptRow_pointwise rowCrypto
    (.new [⟨1, 1, 23⟩, ⟨1, 2, 17⟩] trivial :
      DescribedBy (fun _ => True) (.new maskedKey [⟨1, 1, 23⟩, ⟨1, 2, 17⟩])) (.refl _) none
    sealedRow ⟨1024, 1024⟩).1 (some maskedRow) (by decide +kernel)
  exact ⟨values, delivered, parsed, arrives, pointwise⟩

/-- The same row, its bound on the body in force. -/
theorem masked_key_row_fits :
    maskedRow.length ≤ maxMessageLen - 4 ∧
      ∃ header, encodeFrameHeader 0x44 maskedRow.length = .ok header := by
  obtain ⟨sized, fits⟩ := (projected_exact_bounded rowCrypto
    (Described.new maskedKey [⟨1, 1, 23⟩, ⟨1, 2, 17⟩]).columns none sealedRow
    ⟨1024, maxMessageLen - 4⟩
    (by decide +kernel : parseDataRow sealedRow = .ok sealedValues)).2.2 maskedRow
      (by decide +kernel)
  exact ⟨sized, fits (Nat.le_refl _)⟩

end MaskedKey

end Dbsec.RowRewrite
