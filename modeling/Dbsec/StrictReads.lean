import Dbsec.ReadPath

/-! Strict row binding on the read path. Whether a value without a row binding is refused
is decided by the row key the query happened to project, since the envelope layer only
sees a key that could be read. -/
namespace Dbsec.StrictReads
open Framing Envelope KeyCache Transform Params Protection Resolve RowKeys BoundParams ArrayParam
open ReadPath
open Portal (ResultFormats)

/-- A resolution of the policy, under whatever generation it was published. -/
def ResolvedFrom (policy : Policy) (resolved : Resolved) : Prop :=
  ∃ lowercase catalog found generation,
    resolveColumns lowercase catalog policy.build policy.rowKeys = .ok found ∧
      resolved = { found with generation }

/-- A stored value whose envelope names no row, as the column's transform finds it. -/
def Unbound (transform : EncryptTransform) (wire : Bytes) : Prop :=
  ∃ envelope, envelopeOf (decodeWire (.encrypt transform) wire).1 = some envelope ∧
    versionOf envelope ≠ .v3

/-- The result is refused before any row is read, or the row carries the table's key as a
value that can be canonicalised. -/
def KeyUsable (described : Described) (position : Position) (formats : ResultFormats)
    (values : List (Option Bytes)) : Prop :=
  (∃ other ∈ described.columns,
      (∃ table column, other.key = .ambiguous table column) ∨
        ∃ table column wire resolved, other.key = .typeChanged table column wire resolved) ∨
    ∃ index typeOid bytes format key, position.key = .slot index typeOid ∧
      values[index]? = some (some bytes) ∧ valueFormat (formatOf formats index) = .ok format ∧
      canonicalBytes typeOid format bytes = .ok key

def SameKey (position : Position) (values row : List (Option Bytes)) : Prop :=
  row.length = values.length ∧
    ∀ index typeOid, position.key = .slot index typeOid → row[index]? = values[index]?

/-- No row with this key and an unbound value at the position gets past the proxy. -/
def RefusesUnbound (described : Described) (position : Position) (transform : EncryptTransform)
    (formats : ResultFormats) (values : List (Option Bytes)) : Prop :=
  ∀ (keys : KeySource) (crypto : Crypto keys) (bounds : Bounds) (body wire : Bytes)
    (row : List (Option Bytes)), parseDataRow body = .ok row → SameKey position values row →
    row[position.index]? = some (some wire) → Unbound transform wire →
    ∃ failure, decryptRow crypto described.columns formats body bounds = .error failure

section Wiring
variable {policy : Policy}

theorem strict_of_entry (valid : policy.validate = .ok ()) {entry : TablePolicy}
    (member : entry ∈ policy.tables) (strict : entry.strictRowBinding = true) :
    policy.strictRowBinding entry.schemaAndTable = true := by
  unfold Policy.strictRowBinding
  cases search : policy.tables.find? fun other => other.schemaAndTable == entry.schemaAndTable with
  | none =>
    have missed := List.find?_eq_none.mp search entry member
    simp at missed
  | some other =>
    have same : other.schemaAndTable = entry.schemaAndTable := by
      simpa using List.find?_some search
    have only := entry_unique (validate_ok valid).1 (List.mem_of_find?_eq_some search) member same
    rw [Option.any_some, only, strict]

end Wiring

section Refusal
variable {keys : KeySource} {crypto : Crypto keys}

theorem strict_open_fails {transform : EncryptTransform} (strict : transform.strict = true)
    {stored envelope : Bytes} (found : envelopeOf stored = some envelope)
    (unbound : versionOf envelope ≠ .v3) (key : RowKey) :
    ∃ failure, openValue crypto stored (some key) (.encrypt transform) = .error failure := by
  have downgraded : ∀ id, (Binding.mk transform.context (some key) transform.strict).verifying id
      (versionOf envelope) = .error .rowBindingDowngraded := by
    intro id
    cases version : versionOf envelope with
    | v1 => simp [Binding.verifying, strict]
    | v2 => simp [Binding.verifying, strict]
    | v3 => exact absurd version unbound
  simp only [openValue, EncryptTransform.open, found]
  unfold Ciphers.open
  split
  · exact ⟨_, rfl⟩
  · split
    · exact ⟨_, rfl⟩
    · unfold Cipher.decrypt
      split
      · simp only [downgraded, bind, Except.bind]
        exact ⟨_, rfl⟩
      · exact ⟨_, rfl⟩

theorem refuseUnusable_iff {positions : List Position} :
    refuseUnusable positions = .ok () ↔
      ∀ position ∈ positions, (∀ table column, position.key ≠ .ambiguous table column) ∧
        ∀ table column wire resolved, position.key ≠ .typeChanged table column wire resolved := by
  induction positions with
  | nil => simp [refuseUnusable]
  | cons position rest ih =>
    rw [List.forall_mem_cons, ← ih]
    cases key : position.key <;> simp [refuseUnusable, key]

variable {formats : ResultFormats} {values : List (Option Bytes)}

theorem readRowKey_ok_iff {index typeOid : Nat} {key : RowKey} :
    readRowKey index typeOid formats values = .ok key ↔
      ∃ bytes format, values[index]? = some (some bytes) ∧
        valueFormat (formatOf formats index) = .ok format ∧
        canonicalBytes typeOid format bytes = .ok key.bytes := by
  unfold readRowKey
  cases cell : values[index]? with
  | none => simp
  | some raw =>
    simp only [Outcome.bind_ok_iff, canonical_ok_iff, Option.some.injEq]
    constructor
    · rintro ⟨format, known, bytes, rfl, read⟩
      exact ⟨bytes, format, rfl, known, read⟩
    · rintro ⟨bytes, format, rfl, known, read⟩
      exact ⟨format, known, bytes, rfl, read⟩

theorem usable_refuses {described : Described} (consistent : described.Consistent)
    {position : Position} (member : position ∈ described.columns) {transform : EncryptTransform}
    (wired : position.column.transform = some (.encrypt transform))
    (strict : transform.strict = true) (usable : KeyUsable described position formats values) :
    RefusesUnbound described position transform formats values := by
  intro keys crypto bounds body wire row parsed same carried unbound
  rcases usable with ⟨other, listed, unreadable⟩
    | ⟨index, typeOid, bytes, format, key, slot, cell, known, canonicalised⟩
  · cases upfront : refuseUnusable described.columns with
    | error failure => exact ⟨failure, by simp [decryptRow, upfront, bind, Except.bind]⟩
    | ok _ =>
      have clean := refuseUnusable_iff.mp upfront other listed
      rcases unreadable with ⟨table, column, key⟩ | ⟨table, column, wire, resolved, key⟩
      · exact absurd key (clean.1 _ _)
      · exact absurd key (clean.2 _ _ _ _)
  · obtain ⟨envelope, found, version⟩ := unbound
    have read : readRowKey index typeOid formats row = .ok ⟨key⟩ :=
      readRowKey_ok_iff.mpr ⟨bytes, format, (same.2 _ _ slot).trans cell, known, canonicalised⟩
    obtain ⟨failure, failed⟩ := @strict_open_fails _ crypto _ strict _ _ found version ⟨key⟩
    refine decryptRow_refused consistent member parsed carried
      ⟨attributeOpenFailure failure position (some ⟨key⟩)
        ((repeatedColumns described.columns).contains position.column.name), ?_⟩
    simp only [replacement, wired, openCell,
      slotOf_readRowKeys consistent member slot formats row, read, failed, attributed, bind,
      Except.bind]

end Refusal

section Delivery
variable (transform : EncryptTransform)

/-- An AEAD and a key source under which the column has one honest value, sealed before
its table declared a row key. -/
def oneValue : Crypto (soleSource (block 16 1) (block 32 7)) :=
  ⟨ledger (block 32 7) (block 12 9) (transform.context.aad (block 16 1)) [] (List.replicate 16 0)
    (by decide), .withBudget _ 4, fun _ _ => .ok none⟩

def unboundValue : Bytes := assemble .v2 (block 16 1) (block 12 9) (List.replicate 16 0)

theorem unboundValue_found : envelopeOf unboundValue = some unboundValue := by decide

theorem unboundValue_unbound : Unbound transform unboundValue :=
  ⟨unboundValue, unboundValue_found, by decide⟩

theorem unboundValue_opens :
    openValue (oneValue transform) unboundValue none (.encrypt transform) = .ok (some []) := by
  have opened : ((oneValue transform).ciphers.open (oneValue transform).aead
      ⟨transform.context, none, transform.strict⟩ unboundValue).1 = .ok [] := by
    have known : (soleSource (block 16 1) (block 32 7)).key (block 16 1) = .ok (block 32 7) := rfl
    rw [unboundValue, open_assemble _ _ known (by decide)]
    simp [Binding.verifying, Except.bind, oneValue, ledger]
  exact (open_of_envelopeOf unboundValue_found []).mpr opened

/-- The row that carries the unbound value and the key of a given row, and nothing else. -/
def keyRow (position : Position) (values : List (Option Bytes)) : List (Option Bytes) :=
  values.mapIdx fun place value =>
    if place = position.index then some unboundValue
    else match position.key with
      | .slot index _ => if place = index then value else none
      | _ => none

variable {position : Position} {values : List (Option Bytes)} {value : Bytes}

theorem keyRow_value {place : Nat}
    (carried : (keyRow position values)[place]? = some (some value)) :
    place = position.index ∧ value = unboundValue ∨
      place ≠ position.index ∧ values[place]? = some (some value) ∧
        ∃ typeOid, position.key = .slot place typeOid := by
  simp only [keyRow, List.getElem?_mapIdx, Option.map_eq_some_iff] at carried
  obtain ⟨held, listed, shown⟩ := carried
  by_cases own : place = position.index
  · rw [if_pos own] at shown
    exact .inl ⟨own, (Option.some.inj shown).symm⟩
  · rw [if_neg own] at shown
    split at shown
    · rename_i index typeOid key
      by_cases same : place = index
      · rw [if_pos same] at shown
        subst same shown
        exact .inr ⟨own, listed, typeOid, key⟩
      · rw [if_neg same] at shown
        cases shown
    · cases shown

theorem keyRow_sameKey
    (apart : ∀ index typeOid, position.key = .slot index typeOid → index ≠ position.index) :
    SameKey position values (keyRow position values) := by
  constructor
  · simp [keyRow]
  · intro index typeOid slot
    simp only [keyRow, List.getElem?_mapIdx, if_neg (apart _ _ slot), slot, if_true]
    exact Option.map_id'

theorem keyRow_short (small : ∀ index typeOid bytes, position.key = .slot index typeOid →
      values[index]? = some (some bytes) → bytes.length < 2 ^ 29)
    (listed : some value ∈ keyRow position values) : value.length < 2 ^ 29 := by
  obtain ⟨place, carried⟩ := List.mem_iff_getElem?.mp listed
  rcases keyRow_value carried with ⟨_, rfl⟩ | ⟨_, held, typeOid, slot⟩
  · decide
  · exact small _ _ _ slot held

theorem key_apart {positions : List Position} (member : position ∈ positions)
    (wired : position.column.transform = some (.encrypt transform))
    (plain : ∀ index typeOid, position.key = .slot index typeOid →
      ∀ other ∈ positions, other.index = index → other.column.transform = none)
    (index typeOid : Nat) (slot : position.key = .slot index typeOid) : index ≠ position.index := by
  intro same
  have unopened := plain _ _ slot position member same.symm
  rw [wired] at unopened
  cases unopened

section Unusable

variable {described : Described} {formats : ResultFormats}

theorem refuseUnusable_of_unusable (unusable : ¬ KeyUsable described position formats values) :
    refuseUnusable described.columns = .ok () := by
  rw [KeyUsable, not_or] at unusable
  rw [refuseUnusable_iff]
  intro other listed
  constructor
  · intro table column key
    exact unusable.1 ⟨other, listed, .inl ⟨table, column, key⟩⟩
  · intro table column wire resolved key
    exact unusable.1 ⟨other, listed, .inr ⟨table, column, wire, resolved, key⟩⟩

theorem keyRow_unread
    (apart : ∀ index typeOid, position.key = .slot index typeOid → index ≠ position.index)
    (unusable : ¬ KeyUsable described position formats values) {index typeOid : Nat}
    (slot : position.key = .slot index typeOid) :
    ∃ why, readRowKey index typeOid formats (keyRow position values) = .error why := by
  rw [KeyUsable, not_or] at unusable
  cases read : readRowKey index typeOid formats (keyRow position values) with
  | error why => exact ⟨why, rfl⟩
  | ok key =>
    obtain ⟨bytes, format, cell, known, canonicalised⟩ := readRowKey_ok_iff.mp read
    rw [(keyRow_sameKey apart).2 _ _ slot] at cell
    exact absurd ⟨index, typeOid, bytes, format, key.bytes, slot, cell, known, canonicalised⟩
      unusable.2

/-- Without a key that could be read, the unbound value is opened as one without a row. -/
theorem unbound_opened (consistent : described.Consistent) (member : position ∈ described.columns)
    (apart : ∀ index typeOid, position.key = .slot index typeOid → index ≠ position.index)
    (unusable : ¬ KeyUsable described position formats values) :
    openCell (oneValue transform) (readRowKeys described.columns formats (keyRow position values))
      (repeatedColumns described.columns) position (.encrypt transform) unboundValue =
        .ok (some []) := by
  by_cases keyed : ∃ index typeOid, position.key = .slot index typeOid
  · obtain ⟨index, typeOid, slot⟩ := keyed
    obtain ⟨why, failed⟩ := keyRow_unread apart unusable slot
    simp only [openCell, slotOf_readRowKeys consistent member slot, failed, unboundValue_opens,
      attributed]
  · have unkeyed : ∀ index typeOid, position.key ≠ .slot index typeOid :=
      fun index typeOid slot => keyed ⟨index, typeOid, slot⟩
    simp only [openCell, slotOf_unkeyed unkeyed, unboundValue_opens, attributed]

variable {keys : KeySource} {crypto : Crypto keys} {rowKeys : List (Nat × Except Error RowKey)}
  {repeated : List String} {bounds : Bounds}

theorem opened_clears (wired : position.column.transform = some (.encrypt transform))
    (opened : openCell crypto rowKeys repeated position (.encrypt transform) unboundValue =
      .ok (some [])) (room : unboundValue.length ≤ bounds.maxValue) :
    Clears crypto rowKeys repeated bounds position unboundValue := by
  have raw : decodeWire (.encrypt transform) unboundValue = (unboundValue, false) := rfl
  refine ⟨room, ?_⟩
  simp only [replacement, wired, raw, opened, bind, Except.bind, Option.getD_some]
  refine ⟨_, rfl, ?_⟩
  intro shown delivered
  cases mask : position.column.mask with
  | none =>
    rw [mask] at delivered
    cases delivered
    decide
  | some mask' =>
    rw [mask] at delivered
    cases delivered
    have size := mask'.apply_length_le []
    simp only [List.length_nil, Nat.mul_zero, Nat.le_zero] at size
    simp [size]

theorem unopened_clears (plain : position.column.transform = none)
    (short : value.length < 2 ^ 29) (room : value.length ≤ bounds.maxValue) :
    Clears crypto rowKeys repeated bounds position value := by
  refine ⟨room, ?_⟩
  simp only [replacement, plain, bind, Except.bind, pure, Except.pure, Option.getD_none]
  refine ⟨_, rfl, ?_⟩
  intro shown delivered
  cases mask : position.column.mask with
  | none =>
    rw [mask] at delivered
    cases delivered
  | some mask' =>
    rw [mask] at delivered
    cases delivered
    have grown := mask'.apply_length_le value
    simp only [Bool.false_eq_true, if_false]
    omega

end Unusable

theorem unusable_delivers {described : Described} (consistent : described.Consistent)
    (member : position ∈ described.columns)
    (wired : position.column.transform = some (.encrypt transform))
    (plain : ∀ index typeOid, position.key = .slot index typeOid →
      ∀ other ∈ described.columns, other.index = index → other.column.transform = none)
    {formats : ResultFormats} (few : values.length < 2 ^ 15)
    (small : ∀ index typeOid bytes, position.key = .slot index typeOid →
      values[index]? = some (some bytes) → bytes.length < 2 ^ 29)
    (unusable : ¬ KeyUsable described position formats values) :
    ∃ bounds outcome, decryptRow (oneValue transform) described.columns formats
      (be16 (keyRow position values).length ++ encodeElements (keyRow position values)) bounds =
        .ok outcome := by
  have short : ∀ value, some value ∈ keyRow position values → value.length < 2 ^ 29 :=
    fun _ listed => keyRow_short small listed
  refine ⟨⟨2 ^ 29, (be16 (keyRow position values).length ++
    encodeElements (keyRow position values)).length + described.columns.length * 2 ^ 31⟩, ?_⟩
  apply decryptRow_delivered consistent (refuseUnusable_of_unusable unusable)
    (by simpa [keyRow] using few) (fun value listed => (short value listed).trans (by decide))
    (Nat.le_refl _)
  intro other listed value carried
  have size := short value (List.mem_of_getElem? carried)
  rcases keyRow_value carried with ⟨here, rfl⟩ | ⟨_, held, typeOid, slot⟩
  · have only := position_eq_of_index consistent.distinct listed member here
    subst only
    exact opened_clears transform wired (unbound_opened transform consistent listed
      (key_apart transform listed wired plain) unusable) size.le
  · exact unopened_clears (plain _ _ slot other listed rfl) size size.le

end Delivery

section Strictness

def Reads (policy : Policy) (column : ColumnPolicy) (position : Position)
    (transform : EncryptTransform) : Prop :=
  readColumn (policy.buildColumn column) = some position.column ∧
    position.column.transform = some (.encrypt transform)

theorem plain_key {policy : Policy} (valid : policy.validate = .ok ()) {resolved : Resolved}
    (held : ResolvedFrom policy resolved) {fields : List FieldId} {position : Position}
    (member : position ∈ (Described.new resolved fields).columns) {index typeOid : Nat}
    (slot : position.key = .slot index typeOid) {other : Position}
    (listed : other ∈ (Described.new resolved fields).columns) (same : other.index = index) :
    other.column.transform = none := by
  obtain ⟨lowercase, catalog, found, generation, ran, rfl⟩ := held
  obtain ⟨field, _, _, key⟩ := mem_protectedPositions member
  rw [key] at slot
  obtain ⟨declared, keyField, keyed, here, isKey, _⟩ := rowKeyRef_slot slot
  obtain ⟨otherField, here', covered, _⟩ := mem_protectedPositions listed
  rw [same, here] at here'
  cases here'
  simp only [isKeyOf, Bool.and_eq_true, beq_iff_eq] at isKey
  rw [isKey.1, isKey.2] at covered
  exact rowKey_not_opened valid ran keyed covered

/-- A strict column is safe from values without a row binding exactly on the rows whose
key the query projected once, as the type it resolved to, and with a value that can be
canonicalised. Descriptions carried over to a newer resolution keep the safe direction. -/
theorem strict_refuses_unbound_iff (policy : Policy) (valid : policy.validate = .ok ())
    (entry : TablePolicy) (declared : entry ∈ policy.tables)
    (strict : entry.strictRowBinding = true) (column : ColumnPolicy)
    (encrypted : column.transform = .encrypt)
    (sameTable : column.schemaAndTable = entry.schemaAndTable) :
    (∀ described, DescribedBy (ResolvedFrom policy) described → ∀ position ∈ described.columns,
      ∀ transform, Reads policy column position transform → ∀ formats values,
        KeyUsable described position formats values →
          RefusesUnbound described position transform formats values) ∧
    (∀ resolved, ResolvedFrom policy resolved → ∀ fields,
      ∀ position ∈ (Described.new resolved fields).columns,
      ∀ transform, Reads policy column position transform → ∀ formats values,
        values.length < 2 ^ 15 → position.index < values.length →
        (∀ index typeOid bytes, position.key = .slot index typeOid →
          values[index]? = some (some bytes) → bytes.length < 2 ^ 29) →
        (RefusesUnbound (Described.new resolved fields) position transform formats values ↔
          KeyUsable (Described.new resolved fields) position formats values)) := by
  have bound : ∀ position transform, Reads policy column position transform →
      transform.strict = true := by
    rintro position transform ⟨joined, wired⟩
    obtain ⟨built, same, _, strictness⟩ := encrypt_wired encrypted joined
    rw [wired] at same
    cases same
    rw [strictness, sameTable, strict_of_entry valid declared strict]
  constructor
  · intro described held position member transform reads formats values usable
    exact usable_refuses (consistent_of_described held) member reads.2 (bound _ _ reads) usable
  · intro resolved held fields position member transform reads formats values few carries small
    have consistent := consistent_new resolved fields
    constructor
    · intro refuses
      by_contra unusable
      have plain :=
        fun index typeOid (slot : position.key = .slot index typeOid) other listed same =>
        @plain_key policy valid resolved held fields position member index typeOid slot other listed
          same
      obtain ⟨bounds, outcome, delivered⟩ :=
        unusable_delivers transform consistent member reads.2 plain few small unusable
      have apart := key_apart transform member reads.2 plain
      have parsed := parseDataRow_encode (by simpa [keyRow] using few)
        fun value listed => (keyRow_short small listed).trans (by decide)
      have here : (keyRow position values)[position.index]? = some (some unboundValue) := by
        simp [keyRow, List.getElem?_mapIdx, List.getElem?_eq_getElem carries]
      obtain ⟨failure, refused⟩ := refuses _ (oneValue transform) bounds _ unboundValue _ parsed
        (keyRow_sameKey apart) here (unboundValue_unbound transform)
      rw [delivered] at refused
      cases refused
    · intro usable
      exact usable_refuses consistent member reads.2 (bound _ _ reads) usable

/-- `users (id int4, email bytea)` with `strict_row_binding`. -/
def strictUsers : Policy := ⟨[.new "users" "email"], [⟨"users", "id", true⟩]⟩

def strictEmail : EncryptTransform := ⟨emailColumn.context, none, true⟩

theorem strict_users_refused_iff :
    ∃ resolved, resolveColumns lowerAscii twoTables strictUsers.build strictUsers.rowKeys =
        .ok resolved ∧
      let described := Described.new resolved [⟨1, 1, 23⟩, ⟨1, 2, 17⟩]
      let position : Position := ⟨1, ⟨"public.users.email", some (.encrypt strictEmail), none⟩,
        .slot 0 23⟩
      (RefusesUnbound described position strictEmail none [some [52, 50], some [1]] ↔
        KeyUsable described position none [some [52, 50], some [1]]) := by
  refine ⟨_, rfl, ?_⟩
  exact (strict_refuses_unbound_iff strictUsers rfl ⟨"users", "id", true⟩ (by simp [strictUsers])
    rfl (.new "users" "email") rfl rfl).2 _ ⟨lowerAscii, twoTables, _, 0, rfl, rfl⟩ _ _
    (List.mem_singleton_self _) strictEmail ⟨rfl, rfl⟩ none [some [52, 50], some [1]] (by decide)
    (by decide) (by
      intro index typeOid bytes slot carried
      cases slot
      cases carried
      decide)

set_option maxRecDepth 4000 in
/-- `SELECT email FROM users`: without `id` in the result nothing says that the table is
strict about rows, and a DBS2 value is handed out in the clear. -/
theorem unprojected_key_delivers_unbound :
    let aead := ledger (block 32 7) (block 12 9) (strictEmail.context.aad (block 16 1)) [104, 105]
      (List.replicate 18 0) (by decide)
    let crypto : Crypto (soleSource (block 16 1) (block 32 7)) :=
      ⟨aead, .withBudget _ 4, fun _ _ => .ok none⟩
    let stored := assemble .v2 (block 16 1) (block 12 9) (List.replicate 18 0)
    strictUsers.validate = .ok () ∧
      ∃ resolved, resolveColumns lowerAscii twoTables strictUsers.build strictUsers.rowKeys =
          .ok resolved ∧
        (Described.new resolved [⟨1, 2, 17⟩]).columns.map (·.key) = [.absent] ∧
        decryptRow crypto (Described.new resolved [⟨1, 2, 17⟩]).columns none
            (be16 1 ++ encodeElements [some stored]) ⟨1024, 1024⟩ =
          .ok (some (be16 1 ++ encodeElements [some [104, 105]])) :=
  ⟨rfl, _, rfl, rfl, rfl⟩

end Strictness

end Dbsec.StrictReads
