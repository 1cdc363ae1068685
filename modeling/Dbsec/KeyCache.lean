import Dbsec.Envelope
import Dbsec.Outcome

/-! The per-process cipher cache of core/src/envelope.rs over the key source of
core/src/keys.rs. Every cached cipher carries the proof that it holds the key the
source hands out under its id, so a cache of wrong keys cannot be built. The
source may answer each request for the active key differently. -/
namespace Dbsec.KeyCache
open Framing Envelope Outcome

/-- The `KeySource` contract: `key` answers with what `active_key` handed out.
`activeKey turn` is the answer to the request made at that turn. -/
structure KeySource where
  activeKey : Nat → Except Error (KeyId × Key)
  key : KeyId → Except Error Key
  indexKey : String → Except Error Key
  key_of_active : ∀ {turn id dek}, activeKey turn = .ok (id, dek) → key id = .ok dek

/-- A cipher resolved from the source under its key id. -/
structure Dek (keys : KeySource) where
  id : KeyId
  cipher : Cipher
  known : keys.key id = .ok cipher.key

structure Ciphers (keys : KeySource) where
  budget : UInt64
  active : Option (Dek keys)
  byId : List (Dek keys)
  /-- Requests for the active key made so far. -/
  turn : Nat

variable {keys : KeySource}

def Ciphers.withBudget (keys : KeySource) (budget : UInt64) : Ciphers keys :=
  ⟨budget, none, [], 0⟩

/-- `self.keys.active_key()`, wrapped in a cipher with an unspent budget. -/
def Ciphers.fresh (ciphers : Ciphers keys) : Except Error (Dek keys) × Ciphers keys :=
  let asked := { ciphers with turn := ciphers.turn + 1 }
  match answer : keys.activeKey ciphers.turn with
  | .ok (id, key) => (.ok ⟨id, .withBudget key ciphers.budget, keys.key_of_active answer⟩, asked)
  | .error failure => (.error failure, asked)

def Ciphers.activeDek (ciphers : Ciphers keys) : Except Error (Dek keys) × Ciphers keys :=
  match ciphers.active with
  | some dek => (.ok dek, ciphers)
  | none =>
    match ciphers.fresh with
    | (.ok dek, asked) => (.ok dek, { asked with active := some dek })
    | (.error failure, asked) => (.error failure, asked)

def Ciphers.rollActive (ciphers : Ciphers keys) (spent : KeyId) :
    Except Error (Dek keys) × Ciphers keys :=
  match ciphers.fresh with
  | (.error failure, asked) => (.error failure, asked)
  | (.ok dek, asked) =>
    if dek.id = spent then (.error (.keyExhausted spent), asked)
    else
      match asked.active with
      | some current =>
        -- Another thread may have rolled already; its key is just as fresh.
        if current.id ≠ spent then (.ok current, asked)
        else (.ok dek, { asked with active := some dek })
      | none => (.ok dek, { asked with active := some dek })

/-- The slot shares the cipher it handed out, so a charge shows there as long as
the slot still holds that id. -/
def Ciphers.charge (ciphers : Ciphers keys) (dek : Dek keys) : Ciphers keys :=
  { ciphers with
    active := ciphers.active.map fun current =>
      if current.id = dek.id then
        { current with cipher := { current.cipher with used := dek.cipher.used + 1 } }
      else current }

def Ciphers.encryptWith (aead : Aead) (ciphers : Ciphers keys) (dek : Dek keys) (nonce : Nonce)
    (binding : Binding) (plaintext : Bytes) : Except Error Bytes × Ciphers keys :=
  ((dek.cipher.encrypt aead nonce dek.id binding plaintext).1, ciphers.charge dek)

/-- `Ciphers::seal`: a spent key is rolled once, never reused. -/
def Ciphers.seal (aead : Aead) (ciphers : Ciphers keys) (nonce : Nonce) (binding : Binding)
    (plaintext : Bytes) : Except Error Bytes × Ciphers keys :=
  match ciphers.activeDek with
  | (.error failure, asked) => (.error failure, asked)
  | (.ok dek, held) =>
    match held.encryptWith aead dek nonce binding plaintext with
    | (.error (.keyExhausted _), charged) =>
      match charged.rollActive dek.id with
      | (.error failure, asked) => (.error failure, asked)
      | (.ok rolled, held) => held.encryptWith aead rolled nonce binding plaintext
    | (result, charged) => (result, charged)

/-- The key a seal is written under: the active one, or the one it rolls to when
that key's budget is spent. -/
def Ciphers.sealingDek (ciphers : Ciphers keys) : Except Error (Dek keys) :=
  match ciphers.activeDek with
  | (.error failure, _) => .error failure
  | (.ok dek, held) =>
    if dek.cipher.budget ≤ dek.cipher.used then ((held.charge dek).rollActive dek.id).1
    else .ok dek

/-- The AEAD's ciphertext for a value under the key that seals it. -/
def Ciphers.ciphertext (aead : Aead) (ciphers : Ciphers keys) (nonce : Nonce) (binding : Binding)
    (plaintext : Bytes) : Option Bytes := do
  let dek ← ciphers.sealingDek.toOption
  let (_, aad) ← (binding.sealed dek.id).toOption
  aead.encrypt dek.cipher.key nonce aad plaintext

def Ciphers.forId (ciphers : Ciphers keys) (id : KeyId) : Except Error (Dek keys) × Ciphers keys :=
  match ciphers.byId.find? (·.id = id) with
  | some dek => (.ok dek, ciphers)
  | none =>
    match answer : keys.key id with
    | .error failure => (.error failure, ciphers)
    | .ok key =>
      let dek : Dek keys := ⟨id, .withBudget key ciphers.budget, answer⟩
      (.ok dek, { ciphers with byId := dek :: ciphers.byId })

def Ciphers.open (aead : Aead) (ciphers : Ciphers keys) (binding : Binding) (enveloped : Bytes) :
    Except Error Bytes × Ciphers keys :=
  match keyId enveloped with
  | .error failure => (.error failure, ciphers)
  | .ok id =>
    match ciphers.forId id with
    | (.error failure, asked) => (.error failure, asked)
    | (.ok dek, held) => (dek.cipher.decrypt aead binding enveloped, held)

variable {aead : Aead} {cipher : Cipher} {nonce : Nonce} {id : KeyId} {binding : Binding}
  {plaintext envelope : Bytes}

theorem sealWith_ok (sealed : cipher.sealWith aead nonce id binding plaintext = .ok envelope) :
    ∃ version aad ciphertext, binding.sealed id = .ok (version, aad) ∧
      aead.encrypt cipher.key nonce aad plaintext = some ciphertext ∧
      envelope = assemble version id nonce ciphertext := by
  simp only [Cipher.sealWith, bind_ok_iff] at sealed
  obtain ⟨⟨version, aad⟩, bound, written⟩ := sealed
  cases produced : aead.encrypt cipher.key nonce aad plaintext with
  | none => simp [produced] at written
  | some ciphertext =>
    simp only [produced, pure_ok_iff] at written
    exact ⟨version, aad, ciphertext, bound, produced, written.symm⟩

variable {ciphers : Ciphers keys} {dek : Dek keys}

theorem encryptWith_ok
    (sealed : (ciphers.encryptWith aead dek nonce binding plaintext).1 = .ok envelope) :
    dek.cipher.used < dek.cipher.budget ∧
      dek.cipher.sealWith aead nonce dek.id binding plaintext = .ok envelope := by
  simp only [Ciphers.encryptWith, Cipher.encrypt] at sealed
  split at sealed
  · simp at sealed
  · rename_i unspent
    exact ⟨UInt64.not_le.mp unspent, sealed⟩

variable {keyId : KeyId}

theorem sealWith_never_exhausted :
    cipher.sealWith aead nonce keyId binding plaintext ≠ .error (.keyExhausted id) := by
  intro exhausted
  simp only [Cipher.sealWith, Binding.sealed] at exhausted
  cases row : binding.row with
  | none =>
    simp only [row, bind, Except.bind] at exhausted
    split at exhausted <;> cases exhausted
  | some key =>
    simp only [row, CellContext.aadWithRow, lengthPrefixed] at exhausted
    by_cases column : binding.context.bytes.length < 2 ^ 32 <;>
      by_cases framed : key.bytes.length < 2 ^ 32 <;>
      simp only [column, framed, if_true, if_false, bind, Except.bind, Except.map, pure,
        Except.pure] at exhausted
    · split at exhausted <;> cases exhausted
    all_goals cases exhausted

theorem encrypt_exhausted (exhausted : (cipher.encrypt aead nonce keyId binding plaintext).1 =
      .error (.keyExhausted id)) : cipher.budget ≤ cipher.used ∧ keyId = id := by
  simp only [Cipher.encrypt] at exhausted
  split at exhausted
  · rename_i spent
    cases exhausted
    exact ⟨spent, rfl⟩
  · exact absurd exhausted sealWith_never_exhausted

theorem encryptWith_exhausted
    (exhausted : (ciphers.encryptWith aead dek nonce binding plaintext).1 =
      .error (.keyExhausted id)) : dek.cipher.budget ≤ dek.cipher.used :=
  (encrypt_exhausted exhausted).1

/-- Whatever the cache held and however the active key rolled, a sealed envelope
was written under one key of the source. -/
theorem seal_ok (sealed : (ciphers.seal aead nonce binding plaintext).1 = .ok envelope) :
    ∃ dek : Dek keys, ciphers.sealingDek = .ok dek ∧
      dek.cipher.sealWith aead nonce dek.id binding plaintext = .ok envelope := by
  unfold Ciphers.seal at sealed
  split at sealed
  · simp at sealed
  · rename_i dek held active
    split at sealed
    · rename_i id charged attempt
      have spent := encryptWith_exhausted (congrArg Prod.fst attempt)
      have shared : held.charge dek = charged := congrArg Prod.snd attempt
      split at sealed
      · simp at sealed
      · rename_i rolled next renewed
        refine ⟨rolled, ?_, (encryptWith_ok sealed).2⟩
        rw [Ciphers.sealingDek, active]
        simp only [spent, if_true, shared, renewed]
    · rename_i result charged _ outcome
      obtain ⟨unspent, written⟩ := encryptWith_ok ((congrArg Prod.fst outcome).trans sealed)
      refine ⟨dek, ?_, written⟩
      rw [Ciphers.sealingDek, active]
      simp only [UInt64.not_le.mpr unspent, if_false]

theorem seal_ciphertext (sealed : (ciphers.seal aead nonce binding plaintext).1 = .ok envelope) :
    ciphers.ciphertext aead nonce binding plaintext = some (envelope.drop headerLen) := by
  obtain ⟨dek, chosen, written⟩ := seal_ok sealed
  obtain ⟨version, aad, ciphertext, bound, produced, rfl⟩ := sealWith_ok written
  simp [Ciphers.ciphertext, chosen, bound, Except.toOption, produced, headerLen, drop_assemble]

theorem forId_known (ciphers : Ciphers keys) {key : Key} (known : keys.key id = .ok key) :
    ∃ dek, (ciphers.forId id).1 = .ok dek ∧ dek.cipher.key = key := by
  unfold Ciphers.forId
  split
  · rename_i dek found
    have same : dek.id = id := by simpa using List.find?_some found
    have held := dek.known
    rw [same, known] at held
    exact ⟨dek, rfl, (Except.ok.inj held).symm⟩
  · split
    · rename_i failure answer
      rw [known] at answer
      cases answer
    · rename_i key' answer
      rw [known] at answer
      exact ⟨_, rfl, (Except.ok.inj answer).symm⟩

theorem open_assemble (ciphers : Ciphers keys) {version : Version} {ciphertext : Bytes} {key : Key}
    (binding : Binding) (known : keys.key id = .ok key) (nonempty : 0 < ciphertext.length) :
    (ciphers.open aead binding (assemble version id nonce ciphertext)).1 =
      (binding.verifying id version).bind fun aad =>
        (aead.decrypt key nonce aad ciphertext).elim (.error .decrypt) .ok := by
  obtain ⟨dek, resolved, same⟩ := forId_known ciphers known
  unfold Ciphers.open
  rw [keyId_assemble version id nonce nonempty]
  cases answer : ciphers.forId id with
  | mk result held =>
    rw [answer] at resolved
    simp only at resolved
    subst resolved
    simp only [answer, decrypt_assemble version id nonce aead dek.cipher binding nonempty, same]

variable {data value : Bytes}

theorem decrypt_length (opened : cipher.decrypt aead binding data = .ok value) :
    data.length = value.length + 48 := by
  unfold Cipher.decrypt at opened
  split at opened
  · rename_i enveloped
    have inside := length_of_isEnveloped enveloped
    simp only [bind_ok_iff] at opened
    obtain ⟨aad, _, recovered⟩ := opened
    split at recovered
    · rename_i plaintext verified
      have tagged := aead.decrypt_length verified
      simp only [pure_ok_iff] at recovered
      subst recovered
      simp only [List.length_drop, headerLen] at tagged
      omega
    · simp at recovered
  · simp at opened

theorem open_length (opened : (ciphers.open aead binding data).1 = .ok value) :
    data.length = value.length + 48 := by
  unfold Ciphers.open at opened
  split at opened
  · simp at opened
  · split at opened
    · simp at opened
    · exact decrypt_length opened

theorem decrypt_ok (opened : cipher.decrypt aead binding data = .ok value) :
    ∃ version id nonce ciphertext aad, data = assemble version id nonce ciphertext ∧
      binding.verifying id version = .ok aad ∧
      aead.decrypt cipher.key nonce aad ciphertext = some value := by
  unfold Cipher.decrypt at opened
  split at opened
  · rename_i enveloped
    have inside := length_of_isEnveloped enveloped
    simp only [bind_ok_iff] at opened
    obtain ⟨aad, verified, recovered⟩ := opened
    refine ⟨_, _, _, _, aad, assemble_slices enveloped inside.le, verified, ?_⟩
    split at recovered
    · rename_i plaintext authentic
      simp only [pure_ok_iff] at recovered
      subst recovered
      exact authentic
    · simp at recovered
  · simp at opened

theorem forId_ok {held : Ciphers keys} (found : ciphers.forId id = (.ok dek, held)) :
    keys.key id = .ok dek.cipher.key := by
  unfold Ciphers.forId at found
  split at found
  · rename_i cached hit
    cases found
    have same : dek.id = id := by simpa using List.find?_some hit
    rw [← same]
    exact dek.known
  · split at found
    · cases found
    · rename_i key answer
      cases found
      exact answer

/-- Whatever opens is an envelope that the AEAD authenticates under the source's key for
its id and the associated data its version selects. -/
theorem open_ok (opened : (ciphers.open aead binding data).1 = .ok value) :
    ∃ version id nonce ciphertext key aad, data = assemble version id nonce ciphertext ∧
      keys.key id = .ok key ∧ binding.verifying id version = .ok aad ∧
      aead.decrypt key nonce aad ciphertext = some value := by
  unfold Ciphers.open at opened
  split at opened
  · simp at opened
  · rename_i id named
    split at opened
    · simp at opened
    · rename_i dek held found
      obtain ⟨version, id', nonce, ciphertext, aad, rfl, verified, authentic⟩ := decrypt_ok opened
      have nonempty := aead.decrypt_length authentic
      rw [keyId_assemble _ _ _ (by omega)] at named
      cases named
      exact ⟨_, _, _, _, _, aad, rfl, forId_ok found, verified, authentic⟩

end Dbsec.KeyCache
