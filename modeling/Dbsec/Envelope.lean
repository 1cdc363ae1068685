import Dbsec.Framing

/-! Ciphertext envelopes and the per-process cipher cache of core/src/envelope.rs.
The AEAD is a parameter with its documented laws and the random nonce is an
argument of the call that draws it. Key zeroization and lock poisoning carry no
value and are left out; the cache is run by one thread at a time. -/
namespace Dbsec.Envelope
open Framing

abbrev KeyId := Block 16
abbrev Nonce := Block 12
abbrev Key := Block 32

inductive Error where
  | malformed
  | decrypt
  | rowKeyMissing
  | rowBindingDowngraded
  | rowBindingFieldTooLong (field : String) (len : Nat)
  | encrypt
  | rowKeyType (reason : String)
  | keyExhausted (id : KeyId)
  | unknownKey (name : String)
  | keySource (context : String)
  deriving DecidableEq

/-- AES-256-GCM as the envelope layer uses it: a 16-byte tag on top of the
plaintext's own length, and every ciphertext opens under what sealed it. -/
structure Aead where
  encrypt : Key → Nonce → (aad plaintext : Bytes) → Option Bytes
  decrypt : Key → Nonce → (aad ciphertext : Bytes) → Option Bytes
  encrypt_length : ∀ {key nonce aad plaintext ciphertext},
    encrypt key nonce aad plaintext = some ciphertext → ciphertext.length = plaintext.length + 16
  decrypt_length : ∀ {key nonce aad ciphertext plaintext},
    decrypt key nonce aad ciphertext = some plaintext → ciphertext.length = plaintext.length + 16
  decrypt_encrypt : ∀ {key nonce aad plaintext ciphertext},
    encrypt key nonce aad plaintext = some ciphertext →
      decrypt key nonce aad ciphertext = some plaintext

/-- `MAGIC_V1`, `MAGIC` and `MAGIC_V3`: only the last two are ever written. -/
inductive Version where
  | v1
  | v2
  | v3
  deriving DecidableEq

def Version.magic : Version → Bytes
  | .v1 => [0x44, 0x42, 0x53, 0x31]
  | .v2 => [0x44, 0x42, 0x53, 0x32]
  | .v3 => [0x44, 0x42, 0x53, 0x33]

def headerLen : Nat := 32

def startsWith (magic data : Bytes) : Bool := data.take magic.length == magic

def isEnveloped (data : Bytes) : Bool :=
  decide (headerLen < data.length) &&
    (startsWith Version.v2.magic data || startsWith Version.v1.magic data ||
      startsWith Version.v3.magic data)

theorem length_of_isEnveloped {data : Bytes} (enveloped : isEnveloped data = true) :
    32 < data.length := by
  simp only [isEnveloped, Bool.and_eq_true, decide_eq_true_eq] at enveloped
  exact enveloped.1

def slice (data : Bytes) (start size : Nat) (inside : start + size ≤ data.length) : Block size :=
  ⟨(data.drop start).take size, by rw [List.length_take, List.length_drop]; omega⟩

/-- The cell a ciphertext belongs to, `schema.table.column`, as bytes. -/
structure CellContext where
  bytes : Bytes
  deriving DecidableEq

/-- The canonical bytes of one row's declared key. -/
structure RowKey where
  bytes : Bytes
  deriving DecidableEq

def CellContext.aad (context : CellContext) (keyId : KeyId) : Bytes :=
  keyId.val ++ context.bytes

/-- `u32::try_from` on the length: a field the prefix cannot frame is refused. -/
def lengthPrefixed (field : String) (bytes : Bytes) : Except Error Bytes :=
  if bytes.length < 2 ^ 32 then .ok (frame bytes)
  else .error (.rowBindingFieldTooLong field bytes.length)

def CellContext.aadWithRow (context : CellContext) (keyId : KeyId) (row : RowKey) :
    Except Error Bytes := do
  let column ← lengthPrefixed "column context" context.bytes
  let key ← lengthPrefixed "row key" row.bytes
  return keyId.val ++ column ++ key

structure Binding where
  context : CellContext
  row : Option RowKey
  strict : Bool

/-- The version written and its associated data: decided by `row` alone. -/
def Binding.sealed (binding : Binding) (keyId : KeyId) : Except Error (Version × Bytes) :=
  match binding.row with
  | some row => (binding.context.aadWithRow keyId row).map (Version.v3, ·)
  | none => .ok (.v2, binding.context.aad keyId)

def versionOf (data : Bytes) : Version :=
  if startsWith Version.v1.magic data then .v1
  else if startsWith Version.v3.magic data then .v3
  else .v2

/-- The associated data that verifies a stored value of one version. -/
def Binding.verifying (binding : Binding) (keyId : KeyId) (version : Version) :
    Except Error Bytes :=
  let downgraded := binding.row.isSome && binding.strict
  match version with
  | .v1 => if downgraded then .error .rowBindingDowngraded else .ok keyId.val
  | .v3 =>
    match binding.row with
    | some row => binding.context.aadWithRow keyId row
    | none => .error .rowKeyMissing
  | .v2 => if downgraded then .error .rowBindingDowngraded else .ok (binding.context.aad keyId)

/-- One DEK with the encryptions charged against its invocation budget. -/
structure Cipher where
  key : Key
  used : UInt64
  budget : UInt64

def Cipher.withBudget (key : Key) (budget : UInt64) : Cipher := ⟨key, 0, budget⟩

def assemble (version : Version) (keyId : KeyId) (nonce : Nonce) (ciphertext : Bytes) : Bytes :=
  version.magic ++ keyId.val ++ nonce.val ++ ciphertext

def Cipher.sealWith (aead : Aead) (cipher : Cipher) (nonce : Nonce) (keyId : KeyId)
    (binding : Binding) (plaintext : Bytes) : Except Error Bytes := do
  let (version, aad) ← binding.sealed keyId
  match aead.encrypt cipher.key nonce aad plaintext with
  | some ciphertext => return assemble version keyId nonce ciphertext
  | none => throw .encrypt

/-- Charges one invocation, then seals; a spent budget fails before the nonce is drawn. -/
def Cipher.encrypt (aead : Aead) (cipher : Cipher) (nonce : Nonce) (keyId : KeyId)
    (binding : Binding) (plaintext : Bytes) : Except Error Bytes × Cipher :=
  let charged := { cipher with used := cipher.used + 1 }
  if cipher.budget ≤ cipher.used then (.error (.keyExhausted keyId), charged)
  else (cipher.sealWith aead nonce keyId binding plaintext, charged)

def Cipher.decrypt (aead : Aead) (cipher : Cipher) (binding : Binding) (data : Bytes) :
    Except Error Bytes :=
  if enveloped : isEnveloped data = true then do
    have inside := length_of_isEnveloped enveloped
    let aad ← binding.verifying (slice data 4 16 (by omega)) (versionOf data)
    match aead.decrypt cipher.key (slice data 20 12 (by omega)) aad (data.drop headerLen) with
    | some plaintext => return plaintext
    | none => throw .decrypt
  else .error .malformed

def keyId (data : Bytes) : Except Error KeyId :=
  if enveloped : isEnveloped data = true then
    .ok (slice data 4 16 (by have := length_of_isEnveloped enveloped; omega))
  else .error .malformed

section Layout
variable (version : Version) (id : KeyId) (nonce : Nonce) {ciphertext : Bytes}

@[simp]
theorem Version.magic_length : version.magic.length = 4 := by
  cases version <;> rfl

@[simp]
theorem assemble_length :
    (assemble version id nonce ciphertext).length = 32 + ciphertext.length := by
  simp [assemble, id.property, nonce.property]; omega

@[simp]
theorem startsWith_assemble (other : Version) :
    startsWith other.magic (assemble version id nonce ciphertext) = decide (version = other) := by
  have head : (assemble version id nonce ciphertext).take 4 = version.magic := by
    rw [assemble, List.append_assoc, List.append_assoc, List.take_left' (by simp)]
  simp only [startsWith, Version.magic_length, head]
  cases version <;> cases other <;> rfl

@[simp]
theorem versionOf_assemble : versionOf (assemble version id nonce ciphertext) = version := by
  cases version <;> simp [versionOf]

theorem isEnveloped_assemble (nonempty : 0 < ciphertext.length) :
    isEnveloped (assemble version id nonce ciphertext) = true := by
  cases version <;> simp [isEnveloped, headerLen, nonempty]

theorem drop_assemble : (assemble version id nonce ciphertext).drop 32 = ciphertext := by
  rw [assemble, List.drop_left' (by simp [id.property, nonce.property])]

theorem slice_id (inside : 4 + 16 ≤ (assemble version id nonce ciphertext).length) :
    slice (assemble version id nonce ciphertext) 4 16 inside = id := by
  apply Subtype.ext
  simp only [slice, assemble, List.append_assoc]
  rw [List.drop_left' (by simp), List.take_left' id.property]

theorem slice_nonce (inside : 20 + 12 ≤ (assemble version id nonce ciphertext).length) :
    slice (assemble version id nonce ciphertext) 20 12 inside = nonce := by
  apply Subtype.ext
  simp only [slice, assemble, List.append_assoc]
  rw [← List.append_assoc, List.drop_left' (by simp [id.property]), List.take_left' nonce.property]

theorem keyId_assemble (nonempty : 0 < ciphertext.length) :
    keyId (assemble version id nonce ciphertext) = .ok id := by
  rw [keyId, dif_pos (isEnveloped_assemble version id nonce nonempty), slice_id]

/-- An assembled envelope is decrypted under its own id, nonce and ciphertext,
with the associated data its version selects. -/
theorem decrypt_assemble (aead : Aead) (cipher : Cipher) (binding : Binding)
    (nonempty : 0 < ciphertext.length) :
    cipher.decrypt aead binding (assemble version id nonce ciphertext) =
      (binding.verifying id version).bind fun aad =>
        (aead.decrypt cipher.key nonce aad ciphertext).elim (.error .decrypt) .ok := by
  rw [Cipher.decrypt, dif_pos (isEnveloped_assemble version id nonce nonempty)]
  simp only [slice_id, slice_nonce, versionOf_assemble, headerLen, drop_assemble]
  cases binding.verifying id version with
  | error failure => rfl
  | ok aad =>
    simp only [bind, Except.bind]
    cases aead.decrypt cipher.key nonce aad ciphertext <;> rfl

end Layout

theorem assemble_slices {data : Bytes} (enveloped : isEnveloped data = true)
    (inside : 32 ≤ data.length) :
    data = assemble (versionOf data) (slice data 4 16 (by omega)) (slice data 20 12 (by omega))
      (data.drop 32) := by
  have head : data.take 4 = (versionOf data).magic := by
    simp only [isEnveloped, startsWith, Version.magic_length, Bool.and_eq_true, Bool.or_eq_true,
      beq_iff_eq] at enveloped
    unfold versionOf startsWith
    simp only [Version.magic_length, beq_iff_eq]
    split
    · assumption
    · split
      · assumption
      · rename_i notFirst notThird
        rcases enveloped.2 with (second | first) | third
        · exact second
        · exact absurd first notFirst
        · exact absurd third notThird
  have cut :
      ∀ start size, data.drop start = (data.drop start).take size ++ data.drop (start + size) := by
    intro start size
    rw [← List.drop_drop, List.take_append_drop]
  calc data = data.take 4 ++ data.drop 4 := (List.take_append_drop 4 data).symm
    _ = data.take 4 ++ ((data.drop 4).take 16 ++ ((data.drop 20).take 12 ++ data.drop 32)) := by
        rw [← cut 20 12, ← cut 4 16]
    _ = _ := by
        rw [head]
        simp only [assemble, slice, List.append_assoc]

end Dbsec.Envelope
