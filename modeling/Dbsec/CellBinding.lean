import Dbsec.Transform

/-! Where a sealed value opens. The associated data of the three envelope versions
is compared across every relabelling of the magic: against an ideal AEAD an
envelope opens only in the column it was sealed for and, once bound to a row, only
for that row. Column contexts are the validated ones; an unvalidated context with a
NUL byte could imitate a length prefix. -/
namespace Dbsec.CellBinding
open Framing Envelope KeyCache Transform Outcome

structure Sealing where
  key : Key
  nonce : Nonce
  aad : Bytes
  ciphertext : Bytes

/-- Decryption succeeds only on a ciphertext honestly produced under exactly the
key, nonce and associated data it is called with. -/
structure Ideal (aead : Aead) (honest : Set Sealing) : Prop where
  only_honest : ∀ {key nonce aad ciphertext plaintext},
    aead.decrypt key nonce aad ciphertext = some plaintext → ⟨key, nonce, aad, ciphertext⟩ ∈ honest
  one_origin : ∀ {first second}, first ∈ honest → second ∈ honest →
    first.ciphertext = second.ciphertext → first = second

def Validated (context : CellContext) : Prop :=
  0 < context.bytes.length ∧ context.bytes.length ≤ 191 ∧ 0 ∉ context.bytes

instance (context : CellContext) : Decidable (Validated context) :=
  inferInstanceAs (Decidable (_ ∧ _ ∧ _))

def relabel (version : Version) (envelope : Bytes) : Bytes := version.magic ++ envelope.drop 4

theorem relabel_assemble (version written : Version) (id : KeyId) (nonce : Nonce)
    (ciphertext : Bytes) :
    relabel version (assemble written id nonce ciphertext) =
      assemble version id nonce ciphertext := by
  simp only [relabel, assemble, List.append_assoc]
  rw [List.drop_left' (by simp)]

theorem aadWithRow_ok {context : CellContext} {id : KeyId} {row : RowKey} {aad : Bytes}
    (framed : context.aadWithRow id row = .ok aad) :
    context.bytes.length < 2 ^ 32 ∧ row.bytes.length < 2 ^ 32 ∧
      aad = id.val ++ (frame context.bytes ++ frame row.bytes) := by
  simp only [CellContext.aadWithRow, lengthPrefixed, bind_ok_iff, pure_ok_iff] at framed
  obtain ⟨column, columnFits, key, keyFits, rfl⟩ := framed
  split at columnFits
  · split at keyFits
    · rename_i short shortKey
      cases columnFits
      cases keyFits
      exact ⟨short, shortKey, List.append_assoc ..⟩
    · cases keyFits
  · cases columnFits

/-- What each version is verified against. -/
theorem verifying_cases {binding : Binding} {id : KeyId} {version : Version} {aad : Bytes}
    (verified : binding.verifying id version = .ok aad) :
    (version = .v1 ∧ aad = id.val) ∨ (version = .v2 ∧ aad = id.val ++ binding.context.bytes) ∨
      ∃ row, version = .v3 ∧ binding.row = some row ∧
        binding.context.aadWithRow id row = .ok aad := by
  cases version with
  | v1 =>
    simp only [Binding.verifying] at verified
    split at verified
    · cases verified
    · exact .inl ⟨rfl, (Except.ok.inj verified).symm⟩
  | v2 =>
    simp only [Binding.verifying] at verified
    split at verified
    · cases verified
    · exact .inr (.inl ⟨rfl, (Except.ok.inj verified).symm⟩)
  | v3 =>
    simp only [Binding.verifying] at verified
    split at verified
    · exact .inr (.inr ⟨_, rfl, ‹_›, verified⟩)
    · cases verified

/-- A cell-only context is never the framed form of another: the frame of a
validated context carries a zero byte. -/
theorem context_ne_frames {context other : CellContext} (valid : Validated context)
    (validOther : Validated other) (rest : Bytes) : context.bytes ≠ frame other.bytes ++ rest := by
  intro equal
  have short : other.bytes.length < 2 ^ 24 := by have := validOther.2.1; omega
  exact valid.2.2 (equal ▸ List.mem_append_left rest (zero_mem_frame short))

/-- The version a value is sealed at, which is all that says how it is bound. -/
def writtenVersion (binding : Binding) : Version := if binding.row.isSome then .v3 else .v2

/-- The associated data of a written version determines, over every version a
reader may take it for, that version, the column and any row it was bound to. -/
theorem verifying_determines {binding reader : Binding} {id : KeyId} {written read : Version}
    {aad : Bytes} (valid : Validated binding.context) (validReader : Validated reader.context)
    (bound : binding.sealed id = .ok (written, aad))
    (verified : reader.verifying id read = .ok aad) :
    reader.context = binding.context ∧ read = writtenVersion binding ∧
      ∀ row, binding.row = some row → reader.row = some row := by
  have sameContext : ∀ {a b : CellContext}, a.bytes = b.bytes → a = b := by
    rintro ⟨a⟩ ⟨b⟩ rfl; rfl
  cases row : binding.row with
  | none =>
    rw [Binding.sealed, row] at bound
    cases bound
    rcases verifying_cases verified with ⟨_, equal⟩ | ⟨rfl, equal⟩ | ⟨_, _, _, framed⟩
    · -- The shortened associated data misses the whole context.
      have lengths := congrArg List.length equal
      have nonempty := valid.1
      simp only [CellContext.aad, List.length_append] at lengths
      omega
    · have same := List.append_cancel_left equal
      exact ⟨sameContext same.symm, by simp [writtenVersion, row], by simp⟩
    · obtain ⟨_, _, equal⟩ := aadWithRow_ok framed
      exact absurd (List.append_cancel_left equal) (context_ne_frames valid validReader _)
  | some key =>
    simp only [Binding.sealed, row, map_ok_iff, Prod.mk.injEq] at bound
    obtain ⟨framed, computed, rfl, rfl⟩ := bound
    obtain ⟨fits, keyFits, rfl⟩ := aadWithRow_ok computed
    rcases verifying_cases verified with ⟨_, equal⟩ | ⟨_, equal⟩ | ⟨readerKey, rfl, readerRow, read⟩
    · have lengths := congrArg List.length equal
      simp only [List.length_append, frame_length] at lengths
      omega
    · exact absurd (List.append_cancel_left equal).symm (context_ne_frames validReader valid _)
    · obtain ⟨readerFits, readerKeyFits, equal⟩ := aadWithRow_ok read
      obtain ⟨columns, keys⟩ := frame_append_inj fits readerFits (List.append_cancel_left equal)
      have sameKey := frame_inj keyFits readerKeyFits keys
      refine ⟨sameContext columns.symm, by simp [writtenVersion, row], ?_⟩
      intro row' held
      cases held
      rw [readerRow]
      cases key
      cases readerKey
      exact congrArg some (congrArg RowKey.mk sameKey.symm)

variable {keys : KeySource}

/-- A reader is in place for what a writer sealed: same column, the version it was
sealed at, the sealing key's id in the header, and the same row once the value is
bound to one. -/
def InPlace (writer : Ciphers keys) (binding reader : Binding) (relabelled : Bytes) : Prop :=
  reader.context = binding.context ∧
    versionOf relabelled = writtenVersion binding ∧
    (∃ dek, writer.sealingDek = .ok dek ∧ keyId relabelled = .ok dek.id) ∧
    ∀ row, binding.row = some row → reader.row = some row

theorem open_in_place {aead : Aead} {honest : Set Sealing} (ideal : Ideal aead honest)
    {writer opener : Ciphers keys} {nonce : Nonce} {binding reader : Binding}
    {plaintext envelope value : Bytes} (version : Version) (valid : Validated binding.context)
    (validReader : Validated reader.context)
    (sealed : (writer.seal aead nonce binding plaintext).1 = .ok envelope)
    (opened : (opener.open aead reader (relabel version envelope)).1 = .ok value) :
    InPlace writer binding reader (relabel version envelope) := by
  obtain ⟨dek, chosen, underDek⟩ := seal_ok sealed
  obtain ⟨written, aad, ciphertext, bound, produced, rfl⟩ := sealWith_ok underDek
  have nonempty : 0 < ciphertext.length := by
    have := aead.encrypt_length produced; omega
  rw [relabel_assemble] at opened ⊢
  rw [open_assemble opener reader dek.known nonempty] at opened
  cases verified : reader.verifying dek.id version with
  | error failure => simp [verified, Except.bind] at opened
  | ok readAad =>
    simp only [verified, Except.bind] at opened
    cases recovered : aead.decrypt dek.cipher.key nonce readAad ciphertext with
    | none => simp [recovered] at opened
    | some plaintext' =>
      have origin := ideal.one_origin (ideal.only_honest recovered)
        (ideal.only_honest (aead.decrypt_encrypt produced)) rfl
      have sameAad : readAad = aad := congrArg Sealing.aad origin
      subst sameAad
      obtain ⟨column, sameVersion, row⟩ :=
        verifying_determines valid validReader bound verified
      have labelled : versionOf (assemble version dek.id nonce ciphertext) = version :=
        versionOf_assemble version dek.id nonce
      exact ⟨column, labelled.trans sameVersion,
        ⟨dek, chosen, keyId_assemble version dek.id nonce nonempty⟩, row⟩

/-- Relabelling an honest envelope moves it nowhere: whoever opens it, directly or
through a column's transform that finds it in a stored value, is in place for it. -/
theorem relabelled_opens_in_place {aead : Aead} {honest : Set Sealing} (ideal : Ideal aead honest)
    (writer opener : Ciphers keys) (nonce : Nonce) (binding : Binding)
    (plaintext envelope value : Bytes) (version : Version) (valid : Validated binding.context)
    (sealed : (writer.seal aead nonce binding plaintext).1 = .ok envelope) :
    (∀ reader : Binding, Validated reader.context →
      (opener.open aead reader (relabel version envelope)).1 = .ok value →
      InPlace writer binding reader (relabel version envelope)) ∧
    (∀ (transform : EncryptTransform) (stored : Bytes) (row : Option RowKey),
      Validated transform.context → envelopeOf stored = some (relabel version envelope) →
      (transform.open aead opener stored row).1 = .ok (some value) →
      InPlace writer binding ⟨transform.context, row, transform.strict⟩
        (relabel version envelope)) := by
  constructor
  · intro reader validReader opened
    exact open_in_place ideal version valid validReader sealed opened
  · intro transform stored row validReader found opened
    rw [open_of_envelopeOf found] at opened
    exact open_in_place ideal version valid validReader sealed opened

theorem ledger_ideal (key : Key) (nonce : Nonce) (aad plaintext ciphertext : Bytes)
    (tagged : ciphertext.length = plaintext.length + 16) :
    Ideal (ledger key nonce aad plaintext ciphertext tagged) {⟨key, nonce, aad, ciphertext⟩} where
  only_honest := by
    intro k n a c p opened
    simp only [ledger] at opened
    split at opened
    · rename_i entry
      obtain ⟨rfl, rfl, rfl, rfl⟩ := entry
      rfl
    · cases opened
  one_origin := by
    rintro first second rfl rfl _; rfl

def rowFortyTwo : Binding := ⟨emailColumn.context, some ⟨[52, 50]⟩, true⟩

def rowAad : Bytes :=
  (block 16 1).val ++ (frame emailColumn.context.bytes ++ frame [52, 50])

theorem row_bound_opens_in_place :
    let aead := ledger (block 32 7) (block 12 9) rowAad [65] (List.replicate 17 0) (by decide)
    let envelope := assemble .v3 (block 16 1) (block 12 9) (List.replicate 17 0)
    (emailCiphers.open aead rowFortyTwo (relabel .v3 envelope)).1 = .ok [65] ∧
      InPlace emailCiphers rowFortyTwo rowFortyTwo (relabel .v3 envelope) :=
  ⟨rfl, (relabelled_opens_in_place
    (ledger_ideal (block 32 7) (block 12 9) rowAad [65] (List.replicate 17 0) (by decide))
    emailCiphers emailCiphers (block 12 9) rowFortyTwo [65] _ [65] .v3 (by decide) rfl).1
    rowFortyTwo (by decide) rfl⟩

end Dbsec.CellBinding
