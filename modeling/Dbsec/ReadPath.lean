import Dbsec.Resolve
import Dbsec.BoundParams
import Dbsec.Portal

/-! The read path of proxy/src/rows.rs: which positions of a result set are protected,
where each one's row key sits, and what becomes of a DataRow. What a read leaves in the
cipher cache is not carried on: it spares later requests to the key source. FF1 decryption
is a parameter. The refresh machinery only shows as the resolution a description was made
against. -/
namespace Dbsec.ReadPath
open Framing Envelope KeyCache Transform Params Protection Resolve RowKeys BoundParams ArrayParam
open Portal (ResultFormats)

structure FieldId where
  tableOid : Nat
  attnum : Int
  typeOid : Nat
  deriving DecidableEq

inductive RowKeyRef where
  | absent
  | slot (index typeOid : Nat)
  | ambiguous (table column : String)
  | typeChanged (table column : String) (wire resolved : Nat)
  deriving DecidableEq

def isKeyOf (tableOid : Nat) (declared : RowKeySpec) (field : FieldId) : Bool :=
  field.tableOid == tableOid && field.attnum == declared.attnum

/-- Which field carries the row key of a table: a second match is not resolved to the
first. -/
def rowKeyRef (resolved : Resolved) (tableOid : Nat) (fields : List FieldId) : RowKeyRef :=
  match resolved.rowKeys.get tableOid with
  | none => .absent
  | some declared =>
    match fields.zipIdx.filter fun field => isKeyOf tableOid declared field.1 with
    | [] => .absent
    | [(field, index)] =>
      if field.typeOid ≠ declared.typeOid then
        .typeChanged declared.table declared.name field.typeOid declared.typeOid
      else .slot index field.typeOid
    | _ :: _ :: _ => .ambiguous declared.table declared.name

structure Position where
  index : Nat
  column : ReadColumn
  key : RowKeyRef

def protectedAt (resolved : Resolved) (fields : List FieldId) (field : FieldId × Nat) :
    Option Position :=
  (resolved.columns.get (field.1.tableOid, field.1.attnum)).map fun column =>
    ⟨field.2, column, rowKeyRef resolved field.1.tableOid fields⟩

def protectedPositions (resolved : Resolved) (fields : List FieldId) : List Position :=
  fields.zipIdx.filterMap (protectedAt resolved fields)

structure Described where
  generation : Nat
  fields : List FieldId
  columns : List Position

def Described.new (resolved : Resolved) (fields : List FieldId) : Described :=
  ⟨resolved.generation, fields, protectedPositions resolved fields⟩

/-- The positions against a newer resolution: a position once protected stays so. -/
def Described.rederived (described : Described) (resolved : Resolved) : Described :=
  let columns := protectedPositions resolved described.fields
  let kept := described.columns.filter fun old => !columns.any fun new => new.index == old.index
  ⟨resolved.generation, described.fields,
    (columns ++ kept).mergeSort fun left right => left.index ≤ right.index⟩

inductive RowError where
  | ambiguousRowKey (table column : String)
  | ambiguousRowInstance (table column : String)
  | rowBindingFailed (column rowKey : String) (position : Nat)
  | protectedValueTooLarge (position len max : Nat)
  | frameTooLarge (bodyLen max : Nat)
  | wire (cause : Error)
  | malformedBackend
  | wireFieldOverflow
  deriving DecidableEq

structure Bounds where
  maxValue : Nat
  maxBody : Nat

section Wire

def be16 (n : Nat) : Bytes := [UInt8.ofNat (n / 2 ^ 8), UInt8.ofNat n]

def takeI16 (raw : Bytes) : Option (Int × Bytes) :=
  if raw.length < 2 then none else some (signedBe (raw.take 2), raw.drop 2)

/-- A count, then each value as a length and its bytes, -1 for NULL. -/
def parseDataRow (body : Bytes) : Except RowError (List (Option Bytes)) :=
  match takeI16 body with
  | none => .error .malformedBackend
  | some (count, rest) =>
    match takeElements count.toNat rest with
    | some (values, []) => .ok values
    | _ => .error .malformedBackend

def encodeDataRow (values : List (Option Bytes)) : Except RowError Bytes :=
  if values.length < 2 ^ 15 ∧ ∀ value ∈ values.flatMap Option.toList, value.length < 2 ^ 31 then
    .ok (be16 values.length ++ encodeElements values)
  else .error .wireFieldOverflow

def formatOf (formats : ResultFormats) (index : Nat) : Int :=
  match formats with
  | some codes => formatCode codes index
  | none => 0

def unhex (raw : Bytes) : Option Bytes :=
  Text.hexDecode (raw.map fun byte => Char.ofNat byte.toNat)

def hexText : Bytes → Option Bytes
  | 0x5C :: 0x78 :: digits => unhex digits
  | _ => none

def hexTextForm (value : Bytes) : Bytes := 0x5C :: 0x78 :: Text.encode (Text.hexEncode value)

def wireForm : Wired → WireForm
  | .encrypt _ => .bytea
  | .fpe .. => .text
  | .token _ => .text

def decodeWire (transform : Wired) (raw : Bytes) : Bytes × Bool :=
  match wireForm transform with
  | .bytea =>
    match hexText raw with
    | some decoded => (decoded, true)
    | none => (raw, false)
  | .text => (raw, false)

end Wire

/-- What opening a value needs besides its column: the AEAD, the cipher cache and FF1. -/
structure Crypto (keys : KeySource) where
  aead : Aead
  ciphers : Ciphers keys
  detokenize : String → Bytes → Except Error (Option Bytes)

variable {keys : KeySource}

def openValue (crypto : Crypto keys) (stored : Bytes) (row : Option RowKey) :
    Wired → Except Error (Option Bytes)
  | .encrypt transform => (transform.open crypto.aead crypto.ciphers stored row).1
  | .fpe keyName detokenize => if detokenize then crypto.detokenize keyName stored else .ok none
  | .token _ => .ok none

section RowKeySlots

/-- The slots of a result set, each read once; the first mention decides the type. -/
def distinctSlots : List Position → List (Nat × Nat)
  | [] => []
  | position :: rest =>
    match position.key with
    | .slot index typeOid =>
      (index, typeOid) :: (distinctSlots rest).filter fun slot => slot.1 ≠ index
    | _ => distinctSlots rest

def readRowKey (index typeOid : Nat) (formats : ResultFormats) (values : List (Option Bytes)) :
    Except Error RowKey :=
  match values[index]? with
  | none =>
    .error (.rowKeyType
      s!"row key is described at result position {index} of a row carrying {values.length} values")
  | some raw => do
      let format ← valueFormat (formatOf formats index)
      canonical typeOid format raw

def readRowKeys (positions : List Position) (formats : ResultFormats)
    (values : List (Option Bytes)) : List (Nat × Except Error RowKey) :=
  (distinctSlots positions).map fun slot => (slot.1, readRowKey slot.1 slot.2 formats values)

end RowKeySlots

def tableOf (qualified : String) : String :=
  let reversed := qualified.toList.reverse
  match reversed.dropWhile (· ≠ '.') with
  | [] => qualified
  | _ :: table => String.ofList table.reverse

def attributeOpenFailure (failure : Error) (position : Position) (rowKey : Option RowKey)
    (repeated : Bool) : RowError :=
  match failure, rowKey with
  | .decrypt, some key =>
    if repeated then .ambiguousRowInstance (tableOf position.column.name) position.column.name
    else .rowBindingFailed position.column.name (String.ofList (Text.decodeLossy key.bytes))
      position.index
  | failure, _ => .wire failure

def attributed {Value : Type} (position : Position) (rowKey : Option RowKey) (repeated : Bool) :
    Except Error Value → Except RowError Value
  | .ok value => .ok value
  | .error failure => .error (attributeOpenFailure failure position rowKey repeated)

section Rows
variable (crypto : Crypto keys) (rowKeys : List (Nat × Except Error RowKey))
  (repeated : List String)

/-- The slot a position opens against, as it was read from the row. -/
def slotOf (position : Position) : Option (Except Error RowKey) :=
  match position.key with
  | .slot index _ => (rowKeys.find? fun slot => slot.1 == index).map Prod.snd
  | _ => none

def openCell (position : Position) (transform : Wired) (stored : Bytes) :
    Except RowError (Option Bytes) :=
  let again := repeated.contains position.column.name
  match slotOf rowKeys position with
  | some (.ok key) =>
    attributed position (some key) again (openValue crypto stored (some key) transform)
  | none => attributed position none again (openValue crypto stored none transform)
  | some (.error why) =>
    -- Whether the unreadable key matters is the stored value's call.
    match openValue crypto stored none transform with
    | .error .rowKeyMissing => .error (.wire why)
    | outcome => attributed position none again outcome

def replacement (position : Position) (value : Bytes) : Except RowError (Option Bytes) := do
  let (stored, isHex) := match position.column.transform with
    | some transform => decodeWire transform value
    | none => (value, false)
  let opened ← match position.column.transform with
    | some transform => openCell crypto rowKeys repeated position transform stored
    | none => pure none
  let masked := position.column.mask.map fun mask => mask.apply (opened.getD stored)
  return (masked.or opened).map fun shown => if isHex then hexTextForm shown else shown

structure Progress where
  values : List (Option Bytes)
  projected : Nat
  changed : Bool

/-- One position of the loop, and the value decoded for it where it comes to that. -/
def loggedPosition (bounds : Bounds) (progress : Progress) (position : Position) :
    List Bytes × Except RowError Progress :=
  match progress.values[position.index]? with
  | some (some value) =>
    if bounds.maxValue < value.length then
      ([], .error (.protectedValueTooLarge position.index value.length bounds.maxValue))
    else
      ([value], do
        match ← replacement crypto rowKeys repeated position value with
        | none => return progress
        | some shown =>
          let projected := progress.projected - value.length + shown.length
          if bounds.maxBody < projected then
            .error (.frameTooLarge projected bounds.maxBody)
          else
            return ⟨progress.values.set position.index (some shown), projected, true⟩)
  | _ => ([], .ok progress)

def rewritePosition (bounds : Bounds) (progress : Progress) (position : Position) :
    Except RowError Progress :=
  (loggedPosition crypto rowKeys repeated bounds progress position).2

end Rows

/-- A row key that is projected twice or came back as another type refuses the result. -/
def refuseUnusable : List Position → Except RowError Unit
  | [] => .ok ()
  | position :: rest =>
    match position.key with
    | .ambiguous table column => .error (.ambiguousRowKey table column)
    | .typeChanged table column wire resolved =>
      .error (.wire (.rowKeyType (s!"{table}.{column} came back as type oid {wire} but " ++
        s!"resolved as type oid {resolved}; re-resolve the proxy's columns, and re-encrypt " ++
        "the table if its key type really changed")))
    | _ => refuseUnusable rest

def repeatedColumns : List Position → List String
  | [] => []
  | position :: rest =>
    if rest.any fun other => other.column.name == position.column.name then
      position.column.name :: repeatedColumns rest
    else repeatedColumns rest

def decryptRow (crypto : Crypto keys) (positions : List Position) (formats : ResultFormats)
    (body : Bytes) (bounds : Bounds) : Except RowError (Option Bytes) := do
  refuseUnusable positions
  let values ← parseDataRow body
  -- Row keys are read before any value of the row is replaced.
  let rowKeys := readRowKeys positions formats values
  let done ← positions.foldlM
    (rewritePosition crypto rowKeys (repeatedColumns positions) bounds)
    ⟨values, body.length, false⟩
  if done.changed then
    let rewritten ← encodeDataRow done.values
    return some rewritten
  else return none

section Positions

variable {resolved : Resolved} {position : Position} {fields : List FieldId}

theorem protectedAt_some {field : FieldId × Nat}
    (found : protectedAt resolved fields field = some position) :
    position.index = field.2 ∧
      resolved.columns.get (field.1.tableOid, field.1.attnum) = some position.column ∧
      position.key = rowKeyRef resolved field.1.tableOid fields := by
  simp only [protectedAt, Option.map_eq_some_iff] at found
  obtain ⟨column, covered, rfl⟩ := found
  exact ⟨rfl, covered, rfl⟩

theorem mem_protectedPositions (member : position ∈ protectedPositions resolved fields) :
    ∃ field, fields[position.index]? = some field ∧
      resolved.columns.get (field.tableOid, field.attnum) = some position.column ∧
      position.key = rowKeyRef resolved field.tableOid fields := by
  obtain ⟨⟨field, index⟩, listed, found⟩ := List.mem_filterMap.mp member
  obtain ⟨rfl, covered, key⟩ := protectedAt_some found
  exact ⟨field, List.mem_zipIdx_iff_getElem?.mp listed, covered, key⟩

theorem protectedPositions_sorted (resolved : Resolved) (fields : List FieldId) :
    ((protectedPositions resolved fields).map (·.index)).Pairwise (· < ·) := by
  have sub : ∀ listed : List (FieldId × Nat),
      ((listed.filterMap (protectedAt resolved fields)).map (·.index)).Sublist
        (listed.map Prod.snd) := by
    intro listed
    induction listed with
    | nil => simp
    | cons field rest ih =>
      cases found : protectedAt resolved fields field with
      | none =>
        rw [List.filterMap_cons_none found, List.map_cons]
        exact ih.cons _
      | some position =>
        rw [List.filterMap_cons_some found, List.map_cons, List.map_cons,
          (protectedAt_some found).1]
        exact ih.cons_cons _
  refine List.Pairwise.sublist (sub fields.zipIdx) ?_
  rw [List.zipIdx_map_snd]
  exact List.pairwise_lt_range'

theorem protectedPositions_nodup (resolved : Resolved) (fields : List FieldId) :
    ((protectedPositions resolved fields).map (·.index)).Nodup :=
  (protectedPositions_sorted resolved fields).imp Nat.ne_of_lt

theorem rowKeyRef_slot {tableOid index typeOid : Nat}
    (slot : rowKeyRef resolved tableOid fields = .slot index typeOid) :
    ∃ declared field, resolved.rowKeys.get tableOid = some declared ∧
      fields[index]? = some field ∧ isKeyOf tableOid declared field = true ∧
      field.typeOid = typeOid := by
  unfold rowKeyRef at slot
  split at slot
  · cases slot
  · rename_i declared found
    split at slot
    · cases slot
    · rename_i field place only
      have listed : (field, place) ∈
          fields.zipIdx.filter fun field => isKeyOf tableOid declared field.1 := by
        rw [only]
        exact List.mem_singleton_self _
      rw [List.mem_filter] at listed
      split at slot
      · cases slot
      · cases slot
        exact ⟨declared, field, found, List.mem_zipIdx_iff_getElem?.mp listed.1, listed.2, rfl⟩
    · cases slot

/-- No position is listed twice, and a slot is read as the type its field came back as. -/
structure Described.Consistent (described : Described) : Prop where
  distinct : (described.columns.map (·.index)).Nodup
  typed : ∀ position ∈ described.columns, ∀ index typeOid, position.key = .slot index typeOid →
    ∃ field, described.fields[index]? = some field ∧ field.typeOid = typeOid

theorem consistent_new (resolved : Resolved) (fields : List FieldId) :
    (Described.new resolved fields).Consistent where
  distinct := protectedPositions_nodup resolved fields
  typed := by
    intro position member index typeOid slot
    obtain ⟨_, _, _, key⟩ := mem_protectedPositions member
    rw [key] at slot
    obtain ⟨_, field, _, listed, _, typed⟩ := rowKeyRef_slot slot
    exact ⟨field, listed, typed⟩

variable {described : Described}

theorem mem_rederived : position ∈ (described.rederived resolved).columns ↔
      position ∈ protectedPositions resolved described.fields ∨
        position ∈ described.columns ∧
          ∀ new ∈ protectedPositions resolved described.fields, new.index ≠ position.index := by
  simp only [Described.rederived, List.mem_mergeSort, List.mem_append, List.mem_filter,
    Bool.not_eq_true', List.any_eq_false, beq_iff_eq, ne_eq]

theorem consistent_rederived (consistent : described.Consistent) (resolved : Resolved) :
    (described.rederived resolved).Consistent where
  distinct := by
    have order := List.mergeSort_perm
      (protectedPositions resolved described.fields ++ described.columns.filter fun old =>
        !(protectedPositions resolved described.fields).any fun new => new.index == old.index)
      (fun left right => decide (left.index ≤ right.index))
    apply (order.map (·.index)).nodup_iff.mpr
    rw [List.map_append, List.nodup_append]
    refine ⟨protectedPositions_nodup _ _, ?_, ?_⟩
    · exact (List.filter_sublist.map _).nodup consistent.distinct
    · intro index covered other kept same
      obtain ⟨new, listed, rfl⟩ := List.mem_map.mp covered
      obtain ⟨old, held, rfl⟩ := List.mem_map.mp kept
      have apart := (List.mem_filter.mp held).2
      simp only [Bool.not_eq_true', List.any_eq_false, beq_iff_eq] at apart
      exact apart new listed same
  typed := by
    intro position member
    rcases mem_rederived.mp member with covered | ⟨kept, _⟩
    · exact (consistent_new resolved described.fields).typed position covered
    · exact consistent.typed position kept

/-- The descriptions a session can hold: of a RowDescription, or carried over to a newer
resolution. -/
inductive DescribedBy (resolves : Resolved → Prop) : Described → Prop where
  | new {resolved : Resolved} (fields : List FieldId) : resolves resolved →
      DescribedBy resolves (.new resolved fields)
  | rederived {described : Described} {resolved : Resolved} : DescribedBy resolves described →
      resolves resolved → DescribedBy resolves (described.rederived resolved)

theorem consistent_of_described {resolves : Resolved → Prop}
    (held : DescribedBy resolves described) :
    described.Consistent := by
  induction held with
  | new fields _ => exact consistent_new _ fields
  | rederived _ _ ih => exact consistent_rederived ih _

theorem position_eq_of_index {positions : List Position}
    (distinct : (positions.map (·.index)).Nodup) {other : Position} (member : position ∈ positions)
    (member' : other ∈ positions) (same : position.index = other.index) : position = other :=
  List.inj_on_of_nodup_map distinct member member' same

end Positions

section Slots

variable {positions : List Position}

theorem mem_distinctSlots {slot : Nat × Nat} (listed : slot ∈ distinctSlots positions) :
    ∃ position ∈ positions, position.key = .slot slot.1 slot.2 := by
  induction positions with
  | nil => cases listed
  | cons position rest ih =>
    unfold distinctSlots at listed
    split at listed
    · rename_i index typeOid key
      rcases List.mem_cons.mp listed with rfl | later
      · exact ⟨position, List.mem_cons_self, key⟩
      · obtain ⟨other, member, key'⟩ := ih (List.mem_filter.mp later).1
        exact ⟨other, List.mem_cons_of_mem _ member, key'⟩
    · obtain ⟨other, member, key'⟩ := ih listed
      exact ⟨other, List.mem_cons_of_mem _ member, key'⟩

variable {position : Position} {index typeOid : Nat}

theorem distinctSlots_covers (member : position ∈ positions)
    (key : position.key = .slot index typeOid) :
    ∃ slot ∈ distinctSlots positions, slot.1 = index := by
  induction positions with
  | nil => cases member
  | cons first rest ih =>
    unfold distinctSlots
    rcases List.mem_cons.mp member with rfl | later
    · rw [key]
      exact ⟨_, List.mem_cons_self, rfl⟩
    · obtain ⟨slot, listed, same⟩ := ih later
      split
      · rename_i seen _ _
        by_cases repeats : slot.1 = seen
        · exact ⟨_, List.mem_cons_self, repeats.symm.trans same⟩
        · exact ⟨slot,
            List.mem_cons_of_mem _ (List.mem_filter.mpr ⟨listed, by simp [repeats]⟩), same⟩
      · exact ⟨slot, listed, same⟩

theorem slotOf_readRowKeys {described : Described} (consistent : described.Consistent)
    (member : position ∈ described.columns) (key : position.key = .slot index typeOid)
    (formats : ResultFormats) (values : List (Option Bytes)) :
    slotOf (readRowKeys described.columns formats values) position =
      some (readRowKey index typeOid formats values) := by
  obtain ⟨slot, listed, same⟩ := distinctSlots_covers member key
  have each : ∀ entry ∈ readRowKeys described.columns formats values, entry.1 = index →
      entry.2 = readRowKey index typeOid formats values := by
    intro entry held at'
    obtain ⟨read, taken, rfl⟩ := List.mem_map.mp held
    obtain ⟨other, member', key'⟩ := mem_distinctSlots taken
    obtain ⟨field, here, typed⟩ := consistent.typed position member index typeOid key
    obtain ⟨field', here', typed'⟩ := consistent.typed other member' read.1 read.2 key'
    simp only at at'
    subst at'
    rw [here] at here'
    cases here'
    simp only [typed'.symm.trans typed]
  have found : ∃ entry ∈ readRowKeys described.columns formats values, entry.1 = index :=
    ⟨(slot.1, readRowKey slot.1 slot.2 formats values), List.mem_map_of_mem listed, same⟩
  simp only [slotOf, key]
  cases search : (readRowKeys described.columns formats values).find? (·.1 == index) with
  | none =>
    obtain ⟨entry, held, at'⟩ := found
    have missed := List.find?_eq_none.mp search entry held
    simp [at'] at missed
  | some entry =>
    have at' : entry.1 = index := by simpa using List.find?_some search
    simp only [Option.map_some, each entry (List.mem_of_find?_eq_some search) at']

theorem slotOf_unkeyed {rowKeys : List (Nat × Except Error RowKey)}
    (unkeyed : ∀ index typeOid, position.key ≠ .slot index typeOid) :
    slotOf rowKeys position = none := by
  unfold slotOf
  split
  · rename_i key
    exact absurd key (unkeyed _ _)
  · rfl

end Slots

section RowRuns
variable {crypto : Crypto keys} {rowKeys : List (Nat × Except Error RowKey)}
  {repeated : List String} {bounds : Bounds}

variable {progress : Progress} {position : Position} {after : Progress}

/-- What one position does to a row: nothing where it is NULL, not carried or not
replaced, and otherwise the replacement of the value within both bounds. -/
theorem rewritePosition_ok
    (ran : rewritePosition crypto rowKeys repeated bounds progress position = .ok after) :
    (after = progress ∧ ∀ value, progress.values[position.index]? ≠ some (some value)) ∨
      ∃ value, progress.values[position.index]? = some (some value) ∧
        value.length ≤ bounds.maxValue ∧
        ((replacement crypto rowKeys repeated position value = .ok none ∧ after = progress) ∨
          ∃ shown, replacement crypto rowKeys repeated position value = .ok (some shown) ∧
            progress.projected - value.length + shown.length ≤ bounds.maxBody ∧
            after = ⟨progress.values.set position.index (some shown),
              progress.projected - value.length + shown.length, true⟩) := by
  unfold rewritePosition loggedPosition at ran
  split at ran
  · rename_i value carried
    right
    split at ran
    · cases ran
    · rename_i admitted
      simp only [Outcome.bind_ok_iff] at ran
      obtain ⟨outcome, replaced, ran⟩ := ran
      refine ⟨value, carried, Nat.le_of_not_lt admitted, ?_⟩
      split at ran
      · cases ran
        exact .inl ⟨replaced, rfl⟩
      · rename_i shown
        split at ran
        · cases ran
        · rename_i inside
          cases ran
          exact .inr ⟨shown, replaced, Nat.le_of_not_lt inside, rfl⟩
  · rename_i absent
    cases ran
    exact .inl ⟨rfl, absent⟩

variable {place : Nat}

theorem rewritePosition_other
    (ran : rewritePosition crypto rowKeys repeated bounds progress position = .ok after)
    (other : position.index ≠ place) : after.values[place]? = progress.values[place]? := by
  rcases rewritePosition_ok ran with ⟨rfl, _⟩ | ⟨value, _, _, ⟨_, rfl⟩ | ⟨shown, _, _, rfl⟩⟩
  · rfl
  · rfl
  · exact List.getElem?_set_ne other

theorem rewritePosition_kept
    (ran : rewritePosition crypto rowKeys repeated bounds progress position = .ok after) :
    after = progress ∨ after.changed = true := by
  rcases rewritePosition_ok ran with ⟨rfl, _⟩ | ⟨value, _, _, ⟨_, rfl⟩ | ⟨shown, _, _, rfl⟩⟩
  · exact .inl rfl
  · exact .inl rfl
  · exact .inr rfl

variable {positions : List Position} {start done : Progress}

theorem changed_stays
    (ran : positions.foldlM (rewritePosition crypto rowKeys repeated bounds) start = .ok done)
    (changed : start.changed = true) : done.changed = true := by
  induction positions generalizing start with
  | nil =>
    cases ran
    exact changed
  | cons first rest ih =>
    obtain ⟨middle, step, later⟩ := Outcome.bind_ok_iff.mp ran
    rcases rewritePosition_kept step with rfl | here
    · exact ih later changed
    · exact ih later here

theorem rewritten_elsewhere
    (ran : positions.foldlM (rewritePosition crypto rowKeys repeated bounds) start = .ok done)
    (untouched : place ∉ positions.map (·.index)) : done.values[place]? = start.values[place]? := by
  induction positions generalizing start with
  | nil =>
    cases ran
    rfl
  | cons first rest ih =>
    rw [List.map_cons, List.mem_cons, not_or] at untouched
    obtain ⟨middle, step, later⟩ := Outcome.bind_ok_iff.mp ran
    exact (ih later untouched.2).trans (rewritePosition_other step (Ne.symm untouched.1))

variable {value : Bytes}

theorem rewritePosition_at (carried : progress.values[position.index]? = some (some value))
    (ran : rewritePosition crypto rowKeys repeated bounds progress position = .ok after) :
    ∃ shown, replacement crypto rowKeys repeated position value = .ok shown ∧
      after.values[position.index]? = some (some (shown.getD value)) := by
  rcases rewritePosition_ok ran with ⟨_, absent⟩ | ⟨held, here, _, outcome⟩
  · exact absurd carried (absent value)
  · cases carried.symm.trans here
    rcases outcome with ⟨kept, rfl⟩ | ⟨shown, replaced, _, rfl⟩
    · exact ⟨none, kept, carried⟩
    · have inside := (List.getElem?_eq_some_iff.mp carried).1
      exact ⟨some shown, replaced, List.getElem?_set_self inside⟩

theorem unchanged_values
    (ran : positions.foldlM (rewritePosition crypto rowKeys repeated bounds) start = .ok done)
    (same : done.changed = false) : done.values = start.values := by
  induction positions generalizing start with
  | nil =>
    cases ran
    rfl
  | cons first rest ih =>
    obtain ⟨middle, step, later⟩ := Outcome.bind_ok_iff.mp ran
    rcases rewritePosition_kept step with rfl | changed
    · exact ih later
    · rw [changed_stays later changed] at same
      cases same

/-- A row is refused once one of its positions fails on the value the row carries: no
other position touches that value. -/
theorem rewrite_refused {positions : List Position} (distinct : (positions.map (·.index)).Nodup)
    {position : Position} (member : position ∈ positions) {value : Bytes}
    (fails : ∀ progress : Progress, progress.values[position.index]? = some (some value) →
      ∃ failure, rewritePosition crypto rowKeys repeated bounds progress position = .error failure)
    {start : Progress} (carried : start.values[position.index]? = some (some value)) :
    ∃ failure, positions.foldlM (rewritePosition crypto rowKeys repeated bounds) start =
      .error failure := by
  induction positions generalizing start with
  | nil => cases member
  | cons first rest ih =>
    rw [List.map_cons, List.nodup_cons] at distinct
    rw [List.foldlM_cons]
    cases step : rewritePosition crypto rowKeys repeated bounds start first with
    | error failure => exact ⟨failure, rfl⟩
    | ok middle =>
      rcases List.mem_cons.mp member with rfl | later
      · obtain ⟨failure, failed⟩ := fails start carried
        rw [failed] at step
        cases step
      · have apart : first.index ≠ position.index := fun same =>
          distinct.1 (same ▸ List.mem_map_of_mem later)
        exact ih distinct.2 later ((rewritePosition_other step apart).trans carried)

/-- What a value may become without the row growing past a wire field. -/
structure Clears (crypto : Crypto keys) (rowKeys : List (Nat × Except Error RowKey))
    (repeated : List String) (bounds : Bounds) (position : Position) (value : Bytes) : Prop where
  admitted : value.length ≤ bounds.maxValue
  shown : ∃ outcome, replacement crypto rowKeys repeated position value = .ok outcome ∧
    ∀ shown, outcome = some shown → shown.length < 2 ^ 31

def Progress.Short (progress : Progress) : Prop :=
  ∀ value, some value ∈ progress.values → value.length < 2 ^ 31

theorem rewritePosition_clears (short : progress.Short)
    (room : progress.projected + 2 ^ 31 ≤ bounds.maxBody)
    (clears : ∀ value, progress.values[position.index]? = some (some value) →
      Clears crypto rowKeys repeated bounds position value) :
    ∃ after, rewritePosition crypto rowKeys repeated bounds progress position = .ok after ∧
      after.Short ∧ after.projected ≤ progress.projected + 2 ^ 31 ∧
      after.values.length = progress.values.length := by
  unfold rewritePosition loggedPosition
  split
  · rename_i value carried
    obtain ⟨admitted, outcome, replaced, fits⟩ := clears value carried
    rw [if_neg (by omega), replaced]
    cases outcome with
    | none => exact ⟨progress, rfl, short, by omega, rfl⟩
    | some shown =>
      have small := fits shown rfl
      have inside : ¬ bounds.maxBody < progress.projected - value.length + shown.length := by omega
      refine ⟨⟨progress.values.set position.index (some shown),
        progress.projected - value.length + shown.length, true⟩, ?_,
          ?_, by simp only; omega, by simp⟩
      · simp only [bind, Except.bind, if_neg inside]
        rfl
      · intro other listed
        rcases List.mem_or_eq_of_mem_set listed with held | new
        · exact short other held
        · cases new
          exact small
  · exact ⟨progress, rfl, short, by omega, rfl⟩

theorem rewrite_clears {positions : List Position} (distinct : (positions.map (·.index)).Nodup)
    {start : Progress} (short : start.Short)
    (room : start.projected + positions.length * 2 ^ 31 ≤ bounds.maxBody)
    (clears : ∀ position ∈ positions, ∀ value,
      start.values[position.index]? = some (some value) →
        Clears crypto rowKeys repeated bounds position value) :
    ∃ done, positions.foldlM (rewritePosition crypto rowKeys repeated bounds) start = .ok done ∧
      done.Short ∧ done.values.length = start.values.length := by
  induction positions generalizing start with
  | nil => exact ⟨start, rfl, short, rfl⟩
  | cons first rest ih =>
    rw [List.map_cons, List.nodup_cons] at distinct
    rw [List.length_cons] at room
    obtain ⟨middle, step, shorter, grown, same⟩ := rewritePosition_clears short (by omega)
      (clears first List.mem_cons_self)
    obtain ⟨done, ran, small, sized⟩ := ih distinct.2 shorter (by omega) (by
      intro position later value carried
      have apart : first.index ≠ position.index := fun same =>
        distinct.1 (same ▸ List.mem_map_of_mem later)
      exact clears position (List.mem_cons_of_mem _ later) value
        ((rewritePosition_other step apart).symm.trans carried))
    refine ⟨done, ?_, small, sized.trans same⟩
    rw [List.foldlM_cons, step]
    exact ran

variable {values : List (Option Bytes)}

theorem encodeDataRow_short (few : values.length < 2 ^ 15)
    (short : ∀ value, some value ∈ values → value.length < 2 ^ 31) :
    encodeDataRow values = .ok (be16 values.length ++ encodeElements values) := by
  rw [encodeDataRow, if_pos]
  refine ⟨few, ?_⟩
  intro value listed
  obtain ⟨held, member, carried⟩ := List.mem_flatMap.mp listed
  cases held with
  | none => cases carried
  | some bytes =>
    cases List.mem_singleton.mp carried
    exact short _ member

theorem takeI16_be16 {count : Nat} (few : count < 2 ^ 15) (rest : Bytes) :
    takeI16 (be16 count ++ rest) = some ((count : Int), rest) := by
  have bytes : ∀ n : Nat, (UInt8.ofNat n).toNat = n % 256 := fun n => UInt8.toNat_ofNat'
  have long : ¬ (be16 count ++ rest).length < 2 := by simp [be16]
  rw [takeI16, if_neg long, List.take_left' (by rfl), List.drop_left' (by rfl)]
  simp only [signedBe, be16, List.foldl_cons, List.foldl_nil, List.length_cons, List.length_nil,
    bytes, Option.some.injEq, Prod.mk.injEq, and_true]
  omega

theorem parseDataRow_encode (few : values.length < 2 ^ 15)
    (short : ∀ value, some value ∈ values → value.length < 2 ^ 31) :
    parseDataRow (be16 values.length ++ encodeElements values) = .ok values := by
  have fits : ∀ value ∈ values.flatMap Option.toList, value.length < 2 ^ 31 := by
    intro value listed
    obtain ⟨held, member, carried⟩ := List.mem_flatMap.mp listed
    cases held with
    | none => cases carried
    | some bytes =>
      cases List.mem_singleton.mp carried
      exact short _ member
  have read := takeElements_encode fits []
  rw [List.append_nil] at read
  simp only [parseDataRow, takeI16_be16 few, Int.toNat_natCast, read]

variable {described : Described} {formats : ResultFormats} {body : Bytes}

theorem decryptRow_refused (consistent : described.Consistent)
    (member : position ∈ described.columns) (parsed : parseDataRow body = .ok values)
    (carried : values[position.index]? = some (some value))
    (fails : ∃ failure, replacement crypto (readRowKeys described.columns formats values)
      (repeatedColumns described.columns) position value = .error failure) :
    ∃ failure, decryptRow crypto described.columns formats body bounds = .error failure := by
  obtain ⟨failure, failed⟩ := fails
  obtain ⟨refused, ran⟩ := @rewrite_refused _ crypto (readRowKeys described.columns formats values)
    (repeatedColumns described.columns) bounds _ consistent.distinct _ member value (by
      intro progress held
      unfold rewritePosition loggedPosition
      rw [held]
      dsimp only
      split
      · exact ⟨_, rfl⟩
      · exact ⟨failure, by rw [failed]; rfl⟩) ⟨values, body.length, false⟩ carried
  unfold decryptRow
  cases upfront : refuseUnusable described.columns with
  | error cause => exact ⟨cause, rfl⟩
  | ok _ => exact ⟨refused, by simp only [parsed, ran, bind, Except.bind]⟩

theorem rewritten_at (distinct : (positions.map (·.index)).Nodup) (member : position ∈ positions)
    (carried : start.values[position.index]? = some (some value))
    (ran : positions.foldlM (rewritePosition crypto rowKeys repeated bounds) start = .ok done) :
    ∃ shown, replacement crypto rowKeys repeated position value = .ok shown ∧
      done.values[position.index]? = some (some (shown.getD value)) := by
  induction positions generalizing start with
  | nil => cases member
  | cons first rest ih =>
    rw [List.map_cons, List.nodup_cons] at distinct
    obtain ⟨middle, step, later⟩ := Outcome.bind_ok_iff.mp ran
    rcases List.mem_cons.mp member with rfl | listed
    · obtain ⟨shown, replaced, here⟩ := rewritePosition_at carried step
      refine ⟨shown, replaced, ?_⟩
      rw [rewritten_elsewhere later distinct.1, here]
    · have apart : first.index ≠ position.index := fun same =>
        distinct.1 (same ▸ List.mem_map_of_mem listed)
      exact ih distinct.2 listed ((rewritePosition_other step apart).trans carried) later

theorem encodeDataRow_ok (encoded : encodeDataRow values = .ok body) :
    parseDataRow body = .ok values := by
  unfold encodeDataRow at encoded
  split at encoded
  · rename_i fits
    cases encoded
    apply parseDataRow_encode fits.1
    intro value listed
    exact fits.2 value (List.mem_flatMap.mpr ⟨some value, listed, List.mem_singleton_self _⟩)
  · cases encoded

theorem decryptRow_cell (consistent : described.Consistent) (member : position ∈ described.columns)
    (parsed : parseDataRow body = .ok values)
    (carried : values[position.index]? = some (some value)) {outcome : Option Bytes}
    (ran : decryptRow crypto described.columns formats body bounds = .ok outcome) :
    ∃ shown, replacement crypto (readRowKeys described.columns formats values)
        (repeatedColumns described.columns) position value = .ok shown ∧
      ∃ delivered, parseDataRow (outcome.getD body) = .ok delivered ∧
        delivered[position.index]? = some (some (shown.getD value)) := by
  simp only [decryptRow, Outcome.bind_ok_iff, parsed, Except.ok.injEq, exists_eq_left'] at ran
  obtain ⟨_, _, done, folded, finished⟩ := ran
  obtain ⟨shown, replaced, here⟩ := rewritten_at consistent.distinct member carried folded
  refine ⟨shown, replaced, done.values, ?_, here⟩
  split at finished
  · simp only [Outcome.bind_ok_iff, Outcome.pure_ok_iff] at finished
    obtain ⟨rewritten, encoded, rfl⟩ := finished
    exact encodeDataRow_ok encoded
  · rename_i same
    cases finished
    rw [unchanged_values folded (by simpa using same)]
    exact parsed

theorem decryptRow_delivered {described : Described} (consistent : described.Consistent)
    {formats : ResultFormats} {values : List (Option Bytes)}
    (usable : refuseUnusable described.columns = .ok ()) (few : values.length < 2 ^ 15)
    (short : ∀ value, some value ∈ values → value.length < 2 ^ 31)
    (room : (be16 values.length ++ encodeElements values).length +
      described.columns.length * 2 ^ 31 ≤ bounds.maxBody)
    (clears : ∀ position ∈ described.columns, ∀ value,
      values[position.index]? = some (some value) →
        Clears crypto (readRowKeys described.columns formats values)
          (repeatedColumns described.columns) bounds position value) :
    ∃ outcome, decryptRow crypto described.columns formats
      (be16 values.length ++ encodeElements values) bounds = .ok outcome := by
  obtain ⟨done, ran, small, sized⟩ := @rewrite_clears _ crypto
    (readRowKeys described.columns formats values) (repeatedColumns described.columns) bounds _
    consistent.distinct ⟨values, (be16 values.length ++ encodeElements values).length, false⟩ short
    room clears
  simp only at sized
  simp only [decryptRow, usable, parseDataRow_encode few short, ran, bind, Except.bind]
  cases done.changed with
  | false => exact ⟨none, rfl⟩
  | true =>
    refine ⟨some (be16 done.values.length ++ encodeElements done.values), ?_⟩
    simp only [if_true, encodeDataRow_short (by omega : done.values.length < 2 ^ 15) small]
    rfl

end RowRuns

end Dbsec.ReadPath
