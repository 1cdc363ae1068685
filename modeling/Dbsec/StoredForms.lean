import Dbsec.ReadPath
import Dbsec.CellBinding

/-! What the read path makes of a sealed value in each rendering of a bytea. Recognition
is by pattern on decoded bytes, and the decoder knows raw bytes and hex text only: under
`bytea_output = escape` the pattern is looked for in the escaped text. The server's two
text renderings are specified here. -/
namespace Dbsec.StoredForms
open Framing Envelope KeyCache Transform Params Protection Resolve RowKeys BoundParams ArrayParam
open ReadPath CellBinding
open Portal (ResultFormats)

inductive Rendering where
  | binary
  | hex
  | escape
  deriving DecidableEq

def escapeByte (byte : UInt8) : Bytes :=
  if byte = 0x5C then [0x5C, 0x5C]
  else if 0x20 ≤ byte ∧ byte ≤ 0x7E then [byte]
  else [0x5C, 48 + byte / 64, 48 + byte / 8 % 8, 48 + byte % 8]

def escapeText (value : Bytes) : Bytes := value.flatMap escapeByte

def render : Rendering → Bytes → Bytes
  | .binary, value => value
  | .hex, value => hexTextForm value
  | .escape, value => escapeText value

def searched : Rendering → Bytes → Bytes
  | .binary, value => value
  | .hex, value => value
  | .escape, value => escapeText value

variable {keys : KeySource}

/-- An honest value of a column: sealed by the AEAD under a known key and the associated
data its version calls for, behind a blind index or not. -/
structure SealedValue (crypto : Crypto keys) (transform : EncryptTransform) where
  version : Version
  id : KeyId
  key : Key
  nonce : Nonce
  row : Option RowKey
  aad : Bytes
  plaintext : Bytes
  ciphertext : Bytes
  index : Option (Block 32)
  known : keys.key id = .ok key
  bound : (Binding.mk transform.context row false).verifying id version = .ok aad
  produced : crypto.aead.encrypt key nonce aad plaintext = some ciphertext

namespace SealedValue
variable {crypto : Crypto keys} {transform : EncryptTransform}
  (value : SealedValue crypto transform)

def envelope : Bytes := assemble value.version value.id value.nonce value.ciphertext

def stored : Bytes :=
  match value.index with
  | some index => prepend index value.envelope
  | none => value.envelope

def sealing : Sealing := ⟨value.key, value.nonce, value.aad, value.ciphertext⟩

theorem ciphertext_nonempty : 0 < value.ciphertext.length := by
  have tagged := crypto.aead.encrypt_length value.produced
  omega

theorem envelope_carried : isEnveloped value.envelope = true :=
  isEnveloped_assemble _ _ _ value.ciphertext_nonempty

theorem recognised : ∃ found, envelopeOf value.stored = some found := by
  unfold stored
  split
  · exact ⟨_, envelopeOf_prepend _ value.envelope_carried⟩
  · cases inside : isEnveloped (value.envelope.drop 32) with
    | true => exact ⟨_, envelopeOf_misread inside⟩
    | false => exact ⟨_, envelopeOf_bare value.envelope_carried inside⟩

end SealedValue

section Renderings

theorem hexText_cons {first second : UInt8} {digits decoded : Bytes}
    (read : hexText (first :: second :: digits) = some decoded) :
    first = 0x5C ∧ second = 0x78 ∧ unhex digits = some decoded := by
  unfold hexText at read
  split at read
  · rename_i rest same
    cases same
    exact ⟨rfl, rfl, read⟩
  · cases read

theorem hexDecode_digits {chars : List Char} {bytes : Bytes}
    (read : Text.hexDecode chars = some bytes) : ∀ char ∈ chars, (Text.hexValue char).isSome := by
  induction chars using Text.hexDecode.induct generalizing bytes with
  | case1 => simp
  | case2 => cases read
  | case3 high low rest ih =>
    simp only [Text.hexDecode, Option.bind_eq_bind, Option.bind_eq_some_iff] at read
    obtain ⟨upper, highRead, lower, lowRead, tail, restRead, _⟩ := read
    intro char listed
    rcases List.mem_cons.mp listed with rfl | later
    · simp [highRead]
    · rcases List.mem_cons.mp later with rfl | last
      · simp [lowRead]
      · exact ih restRead char last

theorem hexText_none_of_letter {value : Bytes} (letter : (0x53 : UInt8) ∈ value) :
    hexText value = none := by
  by_contra some
  obtain ⟨decoded, read⟩ := Option.ne_none_iff_exists'.mp some
  match value, letter, read with
  | [], letter, _ => cases letter
  | [_], _, read => simp [hexText] at read
  | first :: second :: digits, letter, read =>
    obtain ⟨rfl, rfl, digitsRead⟩ := hexText_cons read
    have here : (0x53 : UInt8) ∈ digits := by simpa using letter
    have digit := hexDecode_digits digitsRead _ (List.mem_map_of_mem here)
    revert digit
    decide

theorem chars_of_ascii {text : List Char} (ascii : text.all Text.isAscii = true) :
    (Text.encode text).map (fun byte => Char.ofNat byte.toNat) = text := by
  induction text with
  | nil => rfl
  | cons char rest ih =>
    simp only [List.all_cons, Bool.and_eq_true] at ascii
    have small : char.toNat < 128 := by simpa [Text.isAscii] using ascii.1
    have byte : (UInt8.ofNat char.toNat).toNat = char.toNat := by
      rw [UInt8.toNat_ofNat']
      omega
    have tail := ih ascii.2
    simp only [Text.encode] at tail ⊢
    rw [List.flatMap_cons, Text.encodeChar_ascii ascii.1, List.map_append, tail]
    simp [byte]

theorem hexText_form (value : Bytes) : hexText (hexTextForm value) = some value := by
  simp only [hexTextForm, hexText, unhex, chars_of_ascii (Text.hexEncode_ascii value),
    Text.hexDecode_hexEncode]

theorem hexText_escape (value : Bytes) : hexText (escapeText value) = none := by
  cases value with
  | nil => rfl
  | cons byte rest =>
    have each : ∀ byte : UInt8, ∀ tail, hexText (escapeByte byte ++ tail) = none := by
      intro byte tail
      unfold escapeByte
      split
      · rfl
      · rename_i plain
        split
        · cases tail with
          | nil => simp [hexText]
          | cons next more =>
            by_contra some
            obtain ⟨decoded, read⟩ := Option.ne_none_iff_exists'.mp some
            exact plain (hexText_cons read).1
        · by_contra some
          obtain ⟨decoded, read⟩ := Option.ne_none_iff_exists'.mp some
          have digit := (hexText_cons read).2.1
          have bounded := byte.toNat_lt
          have number := congrArg UInt8.toNat digit
          simp at number
          omega
    exact each byte _

end Renderings

section Opening
variable {crypto : Crypto keys} {transform : EncryptTransform} {honest : Set Sealing}

theorem verifying_shape {binding : Binding} {id : KeyId} {version : Version} {aad : Bytes}
    (verified : binding.verifying id version = .ok aad) :
    ∃ tail, aad = id.val ++ tail ∧
      match version with
      | .v1 => tail.length = 0
      | .v2 => tail.length = binding.context.bytes.length
      | .v3 => binding.context.bytes.length < tail.length := by
  rcases verifying_cases verified with ⟨rfl, rfl⟩ | ⟨rfl, rfl⟩ | ⟨_, rfl, _, framed⟩
  · exact ⟨[], by simp, rfl⟩
  · exact ⟨_, rfl, rfl⟩
  · obtain ⟨_, _, rfl⟩ := aadWithRow_ok framed
    refine ⟨_, rfl, ?_⟩
    simp only [List.length_append, frame_length]
    omega

theorem verifying_same {first second : Binding} {id id' : KeyId} {version version' : Version}
    {aad : Bytes} (named : first.context.bytes ≠ []) (context : first.context = second.context)
    (verified : first.verifying id version = .ok aad)
    (verified' : second.verifying id' version' = .ok aad) : id = id' ∧ version = version' := by
  obtain ⟨tail, rfl, shape⟩ := verifying_shape verified
  obtain ⟨tail', same, shape'⟩ := verifying_shape verified'
  have split := List.append_inj same (id.property.trans id'.property.symm)
  have sized := congrArg List.length split.2
  have long : 0 < first.context.bytes.length := List.length_pos_iff.mpr named
  rw [← context] at shape'
  refine ⟨Subtype.ext split.1, ?_⟩
  cases version <;> cases version' <;> simp only at shape shape' <;> first | rfl | omega

/-- No honest ciphertext other than the value's own ends the bytes that are searched. -/
def Fresh (honest : Set Sealing) (value : SealedValue crypto transform) (bytes : Bytes) : Prop :=
  ∀ sealing ∈ honest, sealing.ciphertext <:+ bytes → sealing.ciphertext = value.ciphertext

variable {bytes found : Bytes}

theorem envelopeOf_suffix (search : envelopeOf bytes = some found) : found <:+ bytes := by
  unfold envelopeOf split at search
  split at search
  · rename_i index inner hit
    split at hit
    · cases hit
      cases search
      exact List.drop_suffix _ _
    · cases hit
  · split at search
    · cases search
      exact List.suffix_rfl
    · cases search

theorem opens_own (ideal : Ideal crypto.aead honest) {value : SealedValue crypto transform}
    (named : transform.context.bytes ≠ []) {opened : Bytes} {row : Option RowKey}
    (fresh : Fresh honest value bytes) (search : envelopeOf bytes = some found)
    (ran : openValue crypto bytes row (.encrypt transform) = .ok (some opened)) :
    opened = value.plaintext ∧ found = value.envelope := by
  rw [openValue, open_of_envelopeOf search] at ran
  obtain ⟨version, id, nonce, ciphertext, key, aad, rfl, _, verified, authentic⟩ := open_ok ran
  have listed := ideal.only_honest authentic
  have ending : ciphertext <:+ bytes := by
    apply List.IsSuffix.trans _ (envelopeOf_suffix search)
    rw [assemble]
    exact List.suffix_append _ _
  have own := ideal.only_honest (crypto.aead.decrypt_encrypt value.produced)
  have same := ideal.one_origin listed own (fresh _ listed ending)
  simp only [Sealing.mk.injEq] at same
  obtain ⟨rfl, rfl, rfl, rfl⟩ := same
  have labelled := @verifying_same ⟨_, row, transform.strict⟩ ⟨_, value.row, false⟩ _ _ _ _ _ named
    rfl verified value.bound
  obtain ⟨rfl, rfl⟩ := labelled
  rw [crypto.aead.decrypt_encrypt value.produced] at authentic
  exact ⟨(Option.some.inj authentic).symm, rfl⟩

theorem openCell_ok {rowKeys : List (Nat × Except Error RowKey)} {repeated : List String}
    {position : Position} {wired : Wired} {stored : Bytes} {opened : Option Bytes}
    (ran : openCell crypto rowKeys repeated position wired stored = .ok opened) :
    ∃ row, openValue crypto stored row wired = .ok opened := by
  have unattributed : ∀ row again (outcome : Except Error (Option Bytes)),
      attributed position row again outcome = .ok opened → outcome = .ok opened := by
    intro row again outcome attributedOk
    cases outcome with
    | ok value => exact congrArg Except.ok (Except.ok.inj attributedOk)
    | error failure => cases attributedOk
  unfold openCell at ran
  split at ran
  · exact ⟨_, unattributed _ _ _ ran⟩
  · exact ⟨_, unattributed _ _ _ ran⟩
  · split at ran
    · cases ran
    · exact ⟨none, unattributed _ _ _ ran⟩

end Opening

section Showing
variable {crypto : Crypto keys} {transform : EncryptTransform}

def maskOf (mask : Option MaskSpec) (value : Bytes) : Bytes :=
  match mask with
  | some mask => mask.apply value
  | none => value

theorem maskOf_length_le (mask : Option MaskSpec) (value : Bytes) :
    (maskOf mask value).length ≤ 4 * value.length := by
  cases mask with
  | none => simp only [maskOf]; omega
  | some mask => exact mask.apply_length_le value

theorem letter_stored (value : SealedValue crypto transform) : (0x53 : UInt8) ∈ value.stored := by
  have inside : (0x53 : UInt8) ∈ value.envelope := by
    simp only [SealedValue.envelope, assemble, List.mem_append]
    cases value.version <;> simp [Version.magic]
  unfold SealedValue.stored
  split
  · exact List.mem_append_right _ inside
  · exact inside

theorem decodeWire_render (value : SealedValue crypto transform) (rendering : Rendering) :
    decodeWire (.encrypt transform) (render rendering value.stored) =
      (searched rendering value.stored, decide (rendering = .hex)) := by
  cases rendering with
  | binary =>
    simp [decodeWire, wireForm, render, searched, hexText_none_of_letter (letter_stored value)]
  | hex => simp [decodeWire, wireForm, render, searched, hexText_form]
  | escape => simp [decodeWire, wireForm, render, searched, hexText_escape]

theorem replacement_shown {rowKeys : List (Nat × Except Error RowKey)} {repeated : List String}
    {position : Position} (wired : position.column.transform = some (.encrypt transform))
    {wire stored : Bytes} {isHex : Bool}
    (decoded : decodeWire (.encrypt transform) wire = (stored, isHex)) (shown : Option Bytes) :
    replacement crypto rowKeys repeated position wire = .ok shown ↔
      ∃ opened, openCell crypto rowKeys repeated position (.encrypt transform) stored =
          .ok opened ∧
        shown = ((position.column.mask.map fun mask => mask.apply (opened.getD stored)).or
          opened).map fun value => if isHex then hexTextForm value else value := by
  simp only [replacement, wired, decoded, Outcome.bind_ok_iff, Outcome.pure_ok_iff]
  exact exists_congr fun opened => and_congr_right fun _ => eq_comm

theorem shown_opened (mask : Option MaskSpec) (opened stored wire : Bytes) (isHex : Bool) :
    (((mask.map fun mask => mask.apply ((some opened).getD stored)).or (some opened)).map
        fun value => if isHex then hexTextForm value else value).getD wire =
      if isHex then hexTextForm (maskOf mask opened) else maskOf mask opened := by
  cases mask <;> rfl

theorem shown_raw (mask : Option MaskSpec) (opened : Option Bytes) (stored : Bytes) :
    (((mask.map fun mask => mask.apply (opened.getD stored)).or opened).map
        fun value => if false then hexTextForm value else value).getD stored =
      maskOf mask (opened.getD stored) := by
  cases mask <;> cases opened <;> rfl

end Showing

section Recovery
variable {crypto : Crypto keys} {transform : EncryptTransform} {honest : Set Sealing}

/-- Every row that carries the value in this rendering is refused, or delivered with the
plaintext, masked as the column asks, in the same rendering. -/
def Recovers (column : ReadColumn) (value : SealedValue crypto transform)
    (rendering : Rendering) : Prop :=
  ∀ described, DescribedBy (fun _ => True) described → ∀ position ∈ described.columns,
    position.column = column → ∀ formats bounds body values outcome,
    parseDataRow body = .ok values →
    values[position.index]? = some (some (render rendering value.stored)) →
    decryptRow crypto described.columns formats body bounds = .ok outcome →
    ∃ delivered, parseDataRow (outcome.getD body) = .ok delivered ∧
      delivered[position.index]? =
        some (some (render rendering (maskOf column.mask value.plaintext)))

/-- The escaped text still shows the value's own envelope only if the client's value
needs no escaping; it shows another one, which cannot open; or it shows none and the
mask happens to leave what masking the plaintext would. -/
def SurvivesEscape (column : ReadColumn) (value : SealedValue crypto transform) : Prop :=
  match envelopeOf (escapeText value.stored) with
  | some found => found = value.envelope →
      escapeText (maskOf column.mask value.plaintext) = maskOf column.mask value.plaintext
  | none => maskOf column.mask (escapeText value.stored) =
      escapeText (maskOf column.mask value.plaintext)

variable {column : ReadColumn} {value : SealedValue crypto transform}

theorem recovers_of_survives (ideal : Ideal crypto.aead honest)
    (wired : column.transform = some (.encrypt transform)) (named : transform.context.bytes ≠ [])
    {rendering : Rendering} (fresh : Fresh honest value (searched rendering value.stored))
    (survives : rendering = .escape → SurvivesEscape column value) :
    Recovers column value rendering := by
  intro described held position member own formats bounds body values outcome parsed carried ran
  obtain ⟨shown, replaced, delivered, reparsed, cell⟩ :=
    decryptRow_cell (consistent_of_described held) member parsed carried ran
  refine ⟨delivered, reparsed, ?_⟩
  rw [cell]
  rw [replacement_shown (own ▸ wired) (decodeWire_render value rendering)] at replaced
  obtain ⟨opened, openedOk, rfl⟩ := replaced
  obtain ⟨row, ranOpen⟩ := openCell_ok openedOk
  rw [own]
  cases search : envelopeOf (searched rendering value.stored) with
  | some found =>
    cases opened with
    | none => simp [openValue, EncryptTransform.open, search] at ranOpen
    | some opened =>
      obtain ⟨rfl, same⟩ := opens_own ideal named fresh search ranOpen
      rw [shown_opened]
      cases rendering with
      | binary => rfl
      | hex => rfl
      | escape =>
        have kept := survives rfl
        simp only [SurvivesEscape] at kept
        rw [show envelopeOf (escapeText value.stored) = some found from search] at kept
        simp only [render, kept same, reduceCtorEq, decide_false, Bool.false_eq_true,
          if_false]
  | none =>
    -- Nothing was found, which happens to the escape form alone: it is shown as it is.
    cases opened with
    | some opened => simp [openValue, EncryptTransform.open, search] at ranOpen
    | none =>
      cases rendering with
      | binary =>
        obtain ⟨found, seen⟩ := value.recognised
        rw [show envelopeOf value.stored = none from search] at seen
        cases seen
      | hex =>
        obtain ⟨found, seen⟩ := value.recognised
        rw [show envelopeOf value.stored = none from search] at seen
        cases seen
      | escape =>
        have kept := survives rfl
        simp only [SurvivesEscape] at kept
        rw [show envelopeOf (escapeText value.stored) = none from search] at kept
        simp only [render, searched, reduceCtorEq, decide_false, ← kept]
        exact congrArg (fun shown => some (some shown))
          (shown_raw column.mask none (escapeText value.stored))

/-- A resolution that protects one column of one table, with a declared row key. -/
def resolvedOne (column : ReadColumn) (typeOid : Nat) : Resolved :=
  ⟨Table.empty.put (1, 2) column, [], Table.empty.put 1 ⟨⟨"id", typeOid⟩, 1, "users"⟩, .empty, 0⟩

theorem unkeyed_columns (column : ReadColumn) (typeOid : Nat) :
    (Described.new (resolvedOne column typeOid) [⟨1, 2, 17⟩]).columns =
      [⟨0, column, .absent⟩] := rfl

theorem keyed_columns (column : ReadColumn) (typeOid : Nat) :
    (Described.new (resolvedOne column typeOid) [⟨1, 2, 17⟩, ⟨1, 1, typeOid⟩]).columns =
      [⟨0, column, .slot 1 typeOid⟩] := by
  have key : rowKeyRef (resolvedOne column typeOid) 1 [⟨1, 2, 17⟩, ⟨1, 1, typeOid⟩] =
      .slot 1 typeOid := by
    have found : (resolvedOne column typeOid).rowKeys.get 1 =
        some ⟨⟨"id", typeOid⟩, 1, "users"⟩ := rfl
    simp only [rowKeyRef, found, List.zipIdx_cons, List.zipIdx_nil, isKeyOf, List.filter_cons,
      List.filter_nil]
    simp
  change [Position.mk 0 column (rowKeyRef (resolvedOne column typeOid) 1
    [⟨1, 2, 17⟩, ⟨1, 1, typeOid⟩])] = _
  rw [key]

theorem escapeText_length_le (value : Bytes) : value.length ≤ (escapeText value).length := by
  induction value with
  | nil => simp [escapeText]
  | cons byte rest ih =>
    have grown : 1 ≤ (escapeByte byte).length := by
      unfold escapeByte
      split
      · simp
      · split <;> simp
    simp only [escapeText, List.flatMap_cons, List.length_append, List.length_cons] at ih ⊢
    omega

theorem plaintext_length_le (value : SealedValue crypto transform) :
    value.plaintext.length ≤ value.stored.length := by
  have tagged := crypto.aead.encrypt_length value.produced
  have inside : value.ciphertext.length ≤ value.envelope.length := by
    rw [SealedValue.envelope, assemble_length]
    omega
  unfold SealedValue.stored
  split
  · simp only [prepend, List.length_append]
    omega
  · omega

/-- A row with one protected value gets through once the value opens or passes as
unsealed, and the client sees that. -/
theorem sole_value_shown {described : Described} {column : ReadColumn} {key : RowKeyRef}
    (held : DescribedBy (fun _ => True) described) (sole : described.columns = [⟨0, column, key⟩])
    (usable : refuseUnusable described.columns = .ok ())
    (wired : column.transform = some (.encrypt transform)) {value : SealedValue crypto transform}
    (small : (escapeText value.stored).length < 2 ^ 29) {formats : ResultFormats}
    {rest : List (Option Bytes)} (few : rest.length < 2 ^ 14)
    (short : ∀ cell, some cell ∈ rest → cell.length < 2 ^ 29) {opened : Option Bytes}
    (fits : ∀ bytes, opened = some bytes → bytes.length < 2 ^ 29)
    (ran : openCell crypto (readRowKeys described.columns formats
        (some (escapeText value.stored) :: rest)) (repeatedColumns described.columns)
      ⟨0, column, key⟩ (.encrypt transform) (escapeText value.stored) = .ok opened)
    (recovers : Recovers column value .escape) :
    maskOf column.mask (opened.getD (escapeText value.stored)) =
      escapeText (maskOf column.mask value.plaintext) := by
  have consistent := consistent_of_described held
  have member : (⟨0, column, key⟩ : Position) ∈ described.columns := by
    rw [sole]
    exact List.mem_singleton_self _
  have decoded : decodeWire (.encrypt transform) (escapeText value.stored) =
      (escapeText value.stored, false) := decodeWire_render value .escape
  have bounded : ∀ cell, some cell ∈ some (escapeText value.stored) :: rest →
      cell.length < 2 ^ 31 := by
    intro cell listed
    rcases List.mem_cons.mp listed with here | later
    · cases here
      omega
    · exact (short cell later).trans (by decide)
  have sized : (opened.getD (escapeText value.stored)).length < 2 ^ 29 := by
    cases opened with
    | none => exact small
    | some bytes => exact fits bytes rfl
  -- The row with the value in front is delivered, and its first cell is what was opened.
  have replaced := (@replacement_shown _ crypto transform _ _ ⟨0, column, key⟩ wired _ _ _ decoded
    _).mpr ⟨opened, ran, rfl⟩
  obtain ⟨outcome, delivered⟩ := @decryptRow_delivered _ crypto ⟨2 ^ 29,
      (be16 (some (escapeText value.stored) :: rest).length ++
        encodeElements (some (escapeText value.stored) :: rest)).length +
        described.columns.length * 2 ^ 31⟩ _ consistent formats
    (some (escapeText value.stored) :: rest) usable (by rw [List.length_cons]; omega) bounded
    (Nat.le_refl _) (by
      intro position listed wire carried
      rw [sole, List.mem_singleton] at listed
      subst listed
      cases carried
      refine ⟨small.le, _, replaced, ?_⟩
      intro shown same
      have masked := maskOf_length_le column.mask (opened.getD (escapeText value.stored))
      have raw := shown_raw column.mask opened (escapeText value.stored)
      rw [same, Option.getD_some] at raw
      rw [raw]
      omega)
  have parsed := parseDataRow_encode (by rw [List.length_cons]; omega) bounded
  obtain ⟨cells, reparsed, expected⟩ := recovers described held _ member rfl formats _ _ _ _ parsed
    rfl delivered
  obtain ⟨shown, replaced', cells', reparsed', seen⟩ :=
    decryptRow_cell consistent member parsed rfl delivered
  rw [reparsed] at reparsed'
  cases reparsed'
  rw [replaced] at replaced'
  cases replaced'
  rw [expected] at seen
  have shows := Option.some.inj (Option.some.inj seen)
  exact (shown_raw column.mask opened (escapeText value.stored)).symm.trans shows.symm

theorem own_opens {bytes : Bytes} {row : Option RowKey}
    (search : envelopeOf bytes = some value.envelope)
    (verified : (Binding.mk transform.context row transform.strict).verifying value.id
      value.version = .ok value.aad) :
    openValue crypto bytes row (.encrypt transform) = .ok (some value.plaintext) := by
  apply (open_of_envelopeOf search value.plaintext).mpr
  rw [SealedValue.envelope, open_assemble _ _ value.known value.ciphertext_nonempty, verified]
  simp [Except.bind, crypto.aead.decrypt_encrypt value.produced]

/-- Some row opens the value: any without its table's key before it was bound to a row,
the row it is bound to after. -/
theorem some_row_verifies (value : SealedValue crypto transform) :
    (Binding.mk transform.context none transform.strict).verifying value.id value.version =
        .ok value.aad ∨
      ∃ key, value.row = some key ∧
        (Binding.mk transform.context (some key) transform.strict).verifying value.id
          value.version = .ok value.aad := by
  have bound := value.bound
  cases version : value.version with
  | v1 =>
    rw [version] at bound
    exact .inl (by simpa [Binding.verifying] using bound)
  | v2 =>
    rw [version] at bound
    exact .inl (by simpa [Binding.verifying] using bound)
  | v3 =>
    rw [version] at bound
    cases row : value.row with
    | none => simp [Binding.verifying, row] at bound
    | some key => exact .inr ⟨key, rfl, by simpa [Binding.verifying, row] using bound⟩

def codeOf : Format → Int
  | .text => 0
  | .binary => 1

theorem survives_of_recovers (wired : column.transform = some (.encrypt transform))
    (small : (escapeText value.stored).length < 2 ^ 29)
    (keyed : ∀ key, value.row = some key → ∃ typeOid format cell,
      canonicalBytes typeOid format cell = .ok key.bytes ∧ cell.length < 2 ^ 29)
    (recovers : Recovers column value .escape) : SurvivesEscape column value := by
  have sized : ∀ bytes, some value.plaintext = some bytes → bytes.length < 2 ^ 29 := by
    intro bytes same
    cases same
    have inside := plaintext_length_le value
    have grown := escapeText_length_le value.stored
    omega
  have unkeyed : ∀ opened, (∀ bytes, opened = some bytes → bytes.length < 2 ^ 29) →
      openValue crypto (escapeText value.stored) none (.encrypt transform) = .ok opened →
      maskOf column.mask (opened.getD (escapeText value.stored)) =
        escapeText (maskOf column.mask value.plaintext) := by
    intro opened fits ran
    refine @sole_value_shown _ crypto transform _ column .absent (.new [⟨1, 2, 17⟩] trivial)
      (unkeyed_columns column 25) rfl wired value small none [] (by decide) (by simp) opened fits ?_
      recovers
    simp only [openCell, slotOf, ran, attributed]
  unfold SurvivesEscape
  cases search : envelopeOf (escapeText value.stored) with
  | none =>
    exact unkeyed none (by simp) (by simp [openValue, EncryptTransform.open, search])
  | some found =>
    rintro rfl
    symm
    rcases some_row_verifies value with verified | ⟨key, bound, verified⟩
    · exact unkeyed (some value.plaintext) sized (own_opens search verified)
    · -- The row is described with its key column, whose cell canonicalises to the key.
      obtain ⟨typeOid, format, cell, canonicalised, short⟩ := keyed key bound
      have columns := keyed_columns column typeOid
      have held : DescribedBy (fun _ => True) (Described.new (resolvedOne column typeOid)
        [⟨1, 2, 17⟩, ⟨1, 1, typeOid⟩]) := .new _ trivial
      refine @sole_value_shown _ crypto transform _ column (.slot 1 typeOid) held columns
        (by rw [columns]; rfl) wired value small (some [0, codeOf format]) [some cell]
        (by simp) (by simpa using short) (some value.plaintext) sized ?_ recovers
      have member : (⟨0, column, .slot 1 typeOid⟩ : Position) ∈
          (Described.new (resolvedOne column typeOid) [⟨1, 2, 17⟩, ⟨1, 1, typeOid⟩]).columns := by
        rw [columns]
        exact List.mem_singleton_self _
      have read : readRowKey 1 typeOid (some [0, codeOf format])
          [some (escapeText value.stored), some cell] = .ok key := by
        have known : valueFormat (formatOf (some [0, codeOf format]) 1) = .ok format := by
          cases format <;> rfl
        simp only [readRowKey, List.getElem?_cons_succ, List.getElem?_cons_zero, known, bind,
          Except.bind, canonical, canonicalised]
        rfl
      simp only [openCell, slotOf_readRowKeys (consistent_of_described held) member rfl, read,
        own_opens search verified, attributed]

/-- The value of an encrypted column comes back as its plaintext, or not at all, in binary
and in hex; in escape format exactly when the escaped text survives the search. -/
theorem sealed_value_recovered_iff (policy : Policy) (declared : ColumnPolicy)
    (encrypted : declared.transform = .encrypt) (column : ReadColumn)
    (joined : readColumn (policy.buildColumn declared) = some column)
    (wired : column.transform = some (.encrypt transform)) (ideal : Ideal crypto.aead honest)
    (value : SealedValue crypto transform) (rendering : Rendering)
    (fresh : Fresh honest value (searched rendering value.stored)) :
    ((rendering = .escape → SurvivesEscape column value) → Recovers column value rendering) ∧
      ((escapeText value.stored).length < 2 ^ 29 →
        (∀ key, value.row = some key → ∃ typeOid format cell,
          canonicalBytes typeOid format cell = .ok key.bytes ∧ cell.length < 2 ^ 29) →
        (Recovers column value rendering ↔
          (rendering = .escape → SurvivesEscape column value))) := by
  have named : transform.context.bytes ≠ [] := by
    obtain ⟨built, same, context, _⟩ := encrypt_wired encrypted joined
    rw [wired] at same
    cases same
    rw [context]
    exact declared.qualifiedName_ne_nil
  have recovers := fun survives =>
    recovers_of_survives ideal wired named fresh survives
  refine ⟨recovers, ?_⟩
  intro small keyed
  constructor
  · rintro recovered rfl
    exact survives_of_recovers wired small keyed recovered
  · exact recovers

end Recovery

section Users

/-- `users.email`, encrypted and searchable. -/
def searchableUsers : Policy := ⟨[⟨"users", "email", .encrypt, true, true, none⟩], []⟩

def searchableEmail : EncryptTransform := ⟨emailColumn.context, some "public.users.email", false⟩

def emailCrypto : Crypto (soleSource (block 16 1) (block 32 7)) :=
  ⟨ledger (block 32 7) (block 12 9) emailAad [104, 105] (List.replicate 18 0) (by decide),
    .withBudget _ 4, fun _ _ => .ok none⟩

/-- A digest that tells keys and short messages apart. -/
def leadingBytes : Hmac := fun key message =>
  ⟨(message ++ key.val).take 32, by simp [key.property]⟩

/-- `hi`, with the index its column computes. -/
def indexedEmail : SealedValue emailCrypto searchableEmail where
  version := .v2
  id := block 16 1
  key := block 32 7
  nonce := block 12 9
  row := none
  aad := emailAad
  plaintext := [104, 105]
  ciphertext := List.replicate 18 0
  index := some (leadingBytes (block 32 7) [104, 105])
  known := rfl
  bound := rfl
  produced := rfl

theorem indexed_email_recovered_in_hex :
    Recovers ⟨"public.users.email", some (.encrypt searchableEmail), none⟩ indexedEmail .hex :=
  (sealed_value_recovered_iff searchableUsers ⟨"users", "email", .encrypt, true, true, none⟩ rfl _
    rfl rfl (ledger_ideal (block 32 7) (block 12 9) emailAad [104, 105] (List.replicate 18 0)
      (by decide)) indexedEmail .hex (by
        rintro sealing rfl _
        rfl)).1 (fun escaped => by cases escaped)

set_option maxRecDepth 8000 in
/-- Under `bytea_output = escape` the index is spelled out in octal, no envelope is found
where one is looked for, and the row is relayed as the server sent it. -/
theorem escaped_index_relayed :
    (searchableEmail.seal emailCrypto.aead leadingBytes emailCiphers (block 12 9) [104, 105]
        none).1 = .ok indexedEmail.stored ∧
    ∃ resolved, resolveColumns lowerAscii twoTables searchableUsers.build
          searchableUsers.rowKeys = .ok resolved ∧
      (Described.new resolved [⟨1, 2, 17⟩]).columns.map (·.index) = [0] ∧
      decryptRow emailCrypto (Described.new resolved [⟨1, 2, 17⟩]).columns none
          (be16 1 ++ encodeElements [some (escapeText indexedEmail.stored)]) ⟨1024, 1024⟩ =
        .ok none :=
  ⟨rfl, _, rfl, rfl, rfl⟩

end Users

end Dbsec.StoredForms
