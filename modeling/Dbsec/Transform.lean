import Dbsec.KeyCache

/-! The searchable encryption transform of core/src/transform.rs with the blind
index layout of core/src/blind_index.rs. HMAC-SHA-256 is a parameter. The index
key is looked up on every call: its per-transform cache only saves the lookup. -/
namespace Dbsec.Transform
open Framing Envelope KeyCache Outcome

abbrev Hmac := Key → Bytes → Block 32

def prepend (index : Block 32) (enveloped : Bytes) : Bytes := index.val ++ enveloped

def split (stored : Bytes) : Option (Bytes × Bytes) :=
  if 32 ≤ stored.length && isEnveloped (stored.drop 32) then
    some (stored.take 32, stored.drop 32)
  else none

structure EncryptTransform where
  context : CellContext
  indexKeyName : Option String
  strict : Bool

def EncryptTransform.searchable (transform : EncryptTransform) : Bool :=
  transform.indexKeyName.isSome

def EncryptTransform.blindIndex (hmac : Hmac) (keys : KeySource) (transform : EncryptTransform)
    (plaintext : Bytes) : Except Error (Option (Block 32)) :=
  match transform.indexKeyName with
  | none => .ok none
  | some name => (keys.indexKey name).map fun key => some (hmac key plaintext)

variable {keys : KeySource}

def EncryptTransform.seal (aead : Aead) (hmac : Hmac) (transform : EncryptTransform)
    (ciphers : Ciphers keys) (nonce : Nonce) (plaintext : Bytes) (row : Option RowKey) :
    Except Error Bytes × Ciphers keys :=
  -- Strictness is a read-path policy, deliberately not passed here.
  match ciphers.seal aead nonce ⟨transform.context, row, false⟩ plaintext with
  | (.error failure, held) => (.error failure, held)
  | (.ok sealed, held) =>
    ((transform.blindIndex hmac keys plaintext).map fun
      | some index => prepend index sealed
      | none => sealed, held)

/-- The envelope inside a stored value: behind an index, or the whole value, or none. -/
def envelopeOf (stored : Bytes) : Option Bytes :=
  match split stored with
  | some (_, enveloped) => some enveloped
  | none => if isEnveloped stored then some stored else none

def EncryptTransform.open (aead : Aead) (transform : EncryptTransform) (ciphers : Ciphers keys)
    (stored : Bytes) (row : Option RowKey) : Except Error (Option Bytes) × Ciphers keys :=
  match envelopeOf stored with
  | none => (.ok none, ciphers)
  | some enveloped =>
    let (result, held) := ciphers.open aead ⟨transform.context, row, transform.strict⟩ enveloped
    (result.map some, held)

variable {enveloped : Bytes}

theorem envelopeOf_prepend (index : Block 32) (carried : isEnveloped enveloped = true) :
    envelopeOf (prepend index enveloped) = some enveloped := by
  have behind : (prepend index enveloped).drop 32 = enveloped := by
    rw [prepend, List.drop_left' index.property]
  have long : 32 ≤ (prepend index enveloped).length := by
    simp [prepend, index.property]
  simp [envelopeOf, split, behind, carried, long]

variable {stored : Bytes}

theorem envelopeOf_misread (misread : isEnveloped (stored.drop 32) = true) :
    envelopeOf stored = some (stored.drop 32) := by
  have behind := length_of_isEnveloped misread
  rw [List.length_drop] at behind
  have long : 32 ≤ stored.length := by omega
  simp [envelopeOf, split, misread, long]

theorem envelopeOf_bare (carried : isEnveloped stored = true)
    (read : isEnveloped (stored.drop 32) = false) : envelopeOf stored = some stored := by
  simp [envelopeOf, split, read, carried]

variable {binding reader : Binding}

/-- What decrypts a value is chosen by its magic, what sealed it by its row key;
under one column and row the two agree, whatever the reader's strictness. -/
theorem verifying_of_sealed {id : KeyId} {version : Version} {aad : Bytes}
    (sameContext : reader.context = binding.context) (sameRow : reader.row = binding.row)
    (bound : binding.sealed id = .ok (version, aad)) :
    reader.verifying id version = .ok aad := by
  cases row : binding.row with
  | none =>
    rw [Binding.sealed, row] at bound
    cases bound
    simp [Binding.verifying, sameRow, row, sameContext]
  | some key =>
    simp only [Binding.sealed, row, map_ok_iff, Prod.mk.injEq] at bound
    obtain ⟨framed, computed, rfl, rfl⟩ := bound
    simpa [Binding.verifying, sameRow, row, sameContext] using computed

variable {aead : Aead} {nonce : Nonce} {plaintext envelope : Bytes}

theorem open_envelope {dek : Dek keys} (ciphers : Ciphers keys)
    (sameContext : reader.context = binding.context) (sameRow : reader.row = binding.row)
    (sealed : dek.cipher.sealWith aead nonce dek.id binding plaintext = .ok envelope) :
    (ciphers.open aead reader envelope).1 = .ok plaintext := by
  obtain ⟨version, aad, ciphertext, bound, produced, rfl⟩ := sealWith_ok sealed
  have tagged := aead.encrypt_length produced
  rw [open_assemble ciphers reader dek.known (by omega),
    verifying_of_sealed sameContext sameRow bound]
  simp [Except.bind, aead.decrypt_encrypt produced]

variable {transform : EncryptTransform} {ciphers : Ciphers keys} {row : Option RowKey}

theorem seal_stored {hmac : Hmac}
    (sealed : (transform.seal aead hmac ciphers nonce plaintext row).1 = .ok stored) :
    ∃ envelope,
      (ciphers.seal aead nonce ⟨transform.context, row, false⟩ plaintext).1 = .ok envelope ∧
      ((transform.searchable = true ∧ ∃ index, stored = prepend index envelope) ∨
        (transform.searchable = false ∧ stored = envelope)) := by
  unfold EncryptTransform.seal at sealed
  split at sealed
  · simp at sealed
  · rename_i envelope held outcome
    refine ⟨envelope, by rw [outcome], ?_⟩
    simp only [map_ok_iff] at sealed
    obtain ⟨index, computed, laidOut⟩ := sealed
    cases name : transform.indexKeyName with
    | none =>
      rw [EncryptTransform.blindIndex, name] at computed
      cases computed
      exact .inr ⟨by simp [EncryptTransform.searchable, name], laidOut.symm⟩
    | some keyName =>
      simp only [EncryptTransform.blindIndex, name, map_ok_iff] at computed
      obtain ⟨key, _, rfl⟩ := computed
      exact .inl ⟨by simp [EncryptTransform.searchable, name], _, laidOut.symm⟩

theorem open_of_envelopeOf (found : envelopeOf stored = some enveloped) (value : Bytes) :
    (transform.open aead ciphers stored row).1 = .ok (some value) ↔
      (ciphers.open aead ⟨transform.context, row, transform.strict⟩ enveloped).1 = .ok value := by
  simp only [EncryptTransform.open, found, map_ok_iff, Option.some.injEq, exists_eq_right]

theorem isEnveloped_of_sealWith {cipher : Cipher} {id : KeyId}
    (sealed : cipher.sealWith aead nonce id binding plaintext = .ok envelope) :
    isEnveloped envelope = true ∧ envelope.length = plaintext.length + 48 := by
  obtain ⟨version, aad, ciphertext, _, produced, rfl⟩ := sealWith_ok sealed
  have tagged := aead.encrypt_length produced
  exact ⟨isEnveloped_assemble version id nonce (by omega), by simp; omega⟩

/-- Opening with the same column and row gives the plaintext back exactly when
the value is not misread: a searchable value never is, a bare envelope is when the
AEAD's ciphertext, which starts where an index would end, looks like an envelope. -/
theorem open_seal_iff (aead : Aead) (hmac : Hmac) (sealer opener : EncryptTransform)
    (writer reader : Ciphers keys) (nonce : Nonce) (plaintext stored : Bytes)
    (row : Option RowKey) (sameColumn : opener.context = sealer.context)
    (sealed : (sealer.seal aead hmac writer nonce plaintext row).1 = .ok stored) :
    (opener.open aead reader stored row).1 = .ok (some plaintext) ↔
      (sealer.searchable = true ∨
        (writer.ciphertext aead nonce ⟨sealer.context, row, false⟩ plaintext).any isEnveloped =
          false) := by
  obtain ⟨envelope, written, layout⟩ := seal_stored sealed
  obtain ⟨dek, _, underDek⟩ := seal_ok written
  obtain ⟨carried, size⟩ := isEnveloped_of_sealWith underDek
  have recovers : (reader.open aead ⟨opener.context, row, opener.strict⟩ envelope).1 =
      .ok plaintext := open_envelope reader sameColumn (by rfl) underDek
  rw [seal_ciphertext written]
  rcases layout with ⟨searchable, index, rfl⟩ | ⟨bare, rfl⟩
  · rw [open_of_envelopeOf (envelopeOf_prepend index carried)]
    simp [recovers, searchable]
  · cases read : isEnveloped (stored.drop headerLen) with
    | false =>
      rw [open_of_envelopeOf (envelopeOf_bare carried read)]
      simp [recovers, read]
    | true =>
      rw [open_of_envelopeOf (envelopeOf_misread read)]
      simp only [bare, Option.any_some, read, Bool.false_eq_true, Bool.true_eq_false, or_self,
        iff_false]
      intro opened
      have misread := open_length opened
      rw [List.length_drop] at misread
      omega

/-- The AEAD of a process that has sealed one message: every other call fails. -/
def ledger (key : Key) (nonce : Nonce) (aad plaintext ciphertext : Bytes)
    (tagged : ciphertext.length = plaintext.length + 16) : Aead where
  encrypt k n a p :=
    if k = key ∧ n = nonce ∧ a = aad ∧ p = plaintext then some ciphertext else none
  decrypt k n a c :=
    if k = key ∧ n = nonce ∧ a = aad ∧ c = ciphertext then some plaintext else none
  encrypt_length := by
    intro k n a p c produced
    split at produced
    · rename_i entry
      cases produced
      rw [entry.2.2.2]; exact tagged
    · cases produced
  decrypt_length := by
    intro k n a c p opened
    split at opened
    · rename_i entry
      cases opened
      rw [entry.2.2.2]; exact tagged
    · cases opened
  decrypt_encrypt := by
    intro k n a p c produced
    split at produced
    · rename_i entry
      cases produced
      simp [entry]
    · cases produced

def block (size : Nat) (byte : UInt8) : Block size := ⟨List.replicate size byte, by simp⟩

/-- A key source with one DEK and one index key for every column. -/
def soleSource (id : KeyId) (key : Key) : KeySource where
  activeKey _ := .ok (id, key)
  key asked := if asked = id then .ok key else .error (.unknownKey "dek")
  indexKey _ := .ok key
  key_of_active := by
    intro turn id' key' answer
    cases answer
    simp

/-- `public.users.email` without a blind index. -/
def emailColumn : EncryptTransform :=
  ⟨⟨"public.users.email".toList.map fun char => UInt8.ofNat char.toNat⟩, none, false⟩

def emailAad : Bytes := emailColumn.context.aad (block 16 1)

def emailCiphers : Ciphers (soleSource (block 16 1) (block 32 7)) := .withBudget _ 4

theorem open_seal_zero_ciphertext :
    let aead := ledger (block 32 7) (block 12 9) emailAad (List.replicate 17 65)
      (List.replicate 33 0) (by decide)
    let stored := assemble .v2 (block 16 1) (block 12 9) (List.replicate 33 0)
    (emailColumn.open aead emailCiphers stored none).1 = .ok (some (List.replicate 17 65)) ↔
      (emailColumn.searchable = true ∨
        (emailCiphers.ciphertext aead (block 12 9) ⟨emailColumn.context, none, false⟩
          (List.replicate 17 65)).any isEnveloped = false) :=
  open_seal_iff _ (fun _ _ => block 32 0) emailColumn emailColumn emailCiphers emailCiphers
    (block 12 9) _ _ none rfl rfl

/-- The ciphertext `DBS2…` of a 17-byte value sits where an index would end, so the
bytes behind it are opened under a key id the source does not know. -/
theorem open_seal_misread :
    let ciphertext := Version.v2.magic ++ List.replicate 29 0
    let aead := ledger (block 32 7) (block 12 9) emailAad (List.replicate 17 65) ciphertext
      (by decide)
    let stored := assemble .v2 (block 16 1) (block 12 9) ciphertext
    (emailColumn.seal aead (fun _ _ => block 32 0) emailCiphers (block 12 9)
        (List.replicate 17 65) none).1 = .ok stored ∧
      (emailColumn.open aead emailCiphers stored none).1 = .error (.unknownKey "dek") :=
  ⟨rfl, rfl⟩

end Dbsec.Transform
