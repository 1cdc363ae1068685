import Dbsec.KeyCache

/-! The cipher cache of core/src/envelope.rs under any number of threads. A seal is a
sequence of atomic steps: the slot is read or written under its lock, the counter is
charged by one fetch-and-add, and the key source is asked between them. The ciphers
behind the slot are kept in the order they were put there, so a reference to one is
its place. Nothing here reads `by_id`: decryption draws no nonce and charges nothing. -/
namespace Dbsec.SharedCache
open Framing Envelope KeyCache

/-- The arguments of one `Ciphers::seal`, with the nonce its encryption draws. -/
structure Call where
  nonce : Nonce
  binding : Binding
  plaintext : Bytes

/-- What a thread does next. An offer is a key the source has answered with. -/
inductive Phase (keys : KeySource) where
  | idle
  | reading (call : Call)
  | asking (call : Call)
  | installing (call : Call) (offer : Dek keys)
  | charging (call : Call) (place : Nat)
  | rolling (call : Call) (spent : KeyId)
  | swapping (call : Call) (spent : KeyId) (offer : Dek keys)
  | recharging (call : Call) (place : Nat)
  | done (result : Except Error Bytes)

structure Shared (keys : KeySource) where
  budget : UInt64
  ciphers : List (Dek keys)
  slot : Option Nat
  /-- Requests for the active key made so far. -/
  turn : Nat
  /-- The key id of every value encrypted so far; no step reads it. -/
  written : List KeyId

variable {keys : KeySource}

def Dek.charged (dek : Dek keys) : Dek keys :=
  { dek with cipher := { dek.cipher with used := dek.cipher.used + 1 } }

/-- `self.keys.active_key()`, wrapped in a cipher with an unspent budget. -/
def Shared.ask (shared : Shared keys) : Except Error (Dek keys) × Shared keys :=
  let asked := { shared with turn := shared.turn + 1 }
  match answer : keys.activeKey shared.turn with
  | .ok (id, key) => (.ok ⟨id, .withBudget key shared.budget, keys.key_of_active answer⟩, asked)
  | .error failure => (.error failure, asked)

def Shared.install (shared : Shared keys) (offer : Dek keys) : Shared keys :=
  { shared with ciphers := shared.ciphers ++ [offer], slot := some shared.ciphers.length }

def Shared.idAt (shared : Shared keys) (place : Nat) : Option KeyId :=
  shared.ciphers[place]?.map (·.id)

/-- `Cipher::encrypt` on the cipher at a place: the charge is the only shared effect. -/
def Shared.encryptAt (aead : Aead) (shared : Shared keys) (call : Call) (place : Nat) :
    Except Error Bytes × Shared keys :=
  match shared.ciphers[place]? with
  -- No thread refers to a cipher that was never in the slot.
  | none => (.error .encrypt, shared)
  | some dek =>
    let result := (dek.cipher.encrypt aead call.nonce dek.id call.binding call.plaintext).1
    (result, { shared with
      ciphers := shared.ciphers.set place (Dek.charged dek)
      written := if result.isOk then dek.id :: shared.written else shared.written })

def Shared.next (aead : Aead) (shared : Shared keys) : Phase keys → Shared keys × Phase keys
  | .idle => (shared, .idle)
  | .done result => (shared, .done result)
  | .reading call =>
    match shared.slot with
    | some place => (shared, .charging call place)
    | none => (shared, .asking call)
  | .asking call =>
    match shared.ask with
    | (.ok offer, asked) => (asked, .installing call offer)
    | (.error failure, asked) => (asked, .done (.error failure))
  | .installing call offer =>
    match shared.slot with
    | some place => (shared, .charging call place)
    | none => (shared.install offer, .charging call shared.ciphers.length)
  | .charging call place =>
    match shared.encryptAt aead call place with
    | (.error (.keyExhausted spent), charged) => (charged, .rolling call spent)
    | (result, charged) => (charged, .done result)
  | .rolling call spent =>
    match shared.ask with
    | (.error failure, asked) => (asked, .done (.error failure))
    | (.ok offer, asked) =>
      if offer.id = spent then (asked, .done (.error (.keyExhausted spent)))
      else (asked, .swapping call spent offer)
  | .swapping call spent offer =>
    match shared.slot with
    | some place =>
      -- Another thread may have rolled already; its key is just as fresh.
      if shared.idAt place ≠ some spent then (shared, .recharging call place)
      else (shared.install offer, .recharging call shared.ciphers.length)
    | none => (shared.install offer, .recharging call shared.ciphers.length)
  | .recharging call place =>
    let (result, charged) := shared.encryptAt aead call place
    (charged, .done result)

structure State (keys : KeySource) where
  shared : Shared keys
  threads : Nat → Phase keys

def State.init (keys : KeySource) (budget : UInt64) : State keys :=
  ⟨⟨budget, [], none, 0, []⟩, fun _ => .idle⟩

def State.move (aead : Aead) (state : State keys) (thread : Nat) : State keys :=
  ⟨(state.shared.next aead (state.threads thread)).1,
    Function.update state.threads thread (state.shared.next aead (state.threads thread)).2⟩

inductive Event where
  | call (thread : Nat) (call : Call)
  | run (thread : Nat)

def Phase.isFree : Phase keys → Bool
  | .idle => true
  | .done _ => true
  | _ => false

/-- Any thread may move at any time; a thread makes its calls one after another. -/
inductive Step (aead : Aead) : State keys → Event → State keys → Prop where
  | call {state : State keys} {thread : Nat} {call : Call}
      (free : (state.threads thread).isFree = true) :
      Step aead state (.call thread call)
        { state with threads := Function.update state.threads thread (.reading call) }
  | run {state : State keys} {thread : Nat} :
      Step aead state (.run thread) (state.move aead thread)

variable {shared : Shared keys} {place : Nat}

theorem idAt_eq_some {id : KeyId} :
    shared.idAt place = some id ↔ ∃ dek, shared.ciphers[place]? = some dek ∧ dek.id = id := by
  simp [Shared.idAt]

theorem getElem?_install (shared : Shared keys) (offer : Dek keys) (place : Nat) :
    (shared.install offer).ciphers[place]? =
      if place = shared.ciphers.length then some offer else shared.ciphers[place]? := by
  by_cases here : place = shared.ciphers.length
  · simp [Shared.install, here]
  · by_cases inside : place < shared.ciphers.length
    · simp [Shared.install, here, List.getElem?_append_left inside]
    · rw [if_neg here, List.getElem?_eq_none (Nat.not_lt.mp inside)]
      apply List.getElem?_eq_none
      simp only [Shared.install, List.length_append, List.length_singleton]
      omega

theorem ask_shared (shared : Shared keys) :
    shared.ask.2 = { shared with turn := shared.turn + 1 } := by
  unfold Shared.ask
  split <;> rfl

theorem ask_of_answer {id : KeyId} {key : Key}
    (answer : keys.activeKey shared.turn = .ok (id, key)) :
    ∃ offer : Dek keys, shared.ask = (.ok offer, { shared with turn := shared.turn + 1 }) ∧
      offer.id = id := by
  unfold Shared.ask
  split
  · rename_i id' key' answered
    rw [answer] at answered
    cases answered
    exact ⟨_, rfl, rfl⟩
  · rename_i failure answered
    rw [answer] at answered
    cases answered

theorem encryptAt_shared {aead : Aead} {shared : Shared keys} {call : Call} {place : Nat}
    {dek : Dek keys} (held : shared.ciphers[place]? = some dek) :
    shared.encryptAt aead call place =
      let result := (dek.cipher.encrypt aead call.nonce dek.id call.binding call.plaintext).1
      (result, { shared with
        ciphers := shared.ciphers.set place (Dek.charged dek)
        written := if result.isOk then dek.id :: shared.written else shared.written }) := by
  simp only [Shared.encryptAt, held]

theorem getElem?_charged {dek : Dek keys} (held : shared.ciphers[place]? = some dek) (other : Nat) :
    (shared.ciphers.set place (Dek.charged dek))[other]? =
      if place = other then some (Dek.charged dek) else shared.ciphers[other]? := by
  have inside := (List.getElem?_eq_some_iff.mp held).1
  by_cases same : place = other
  · subst same
    simp [inside]
  · simp [same]

theorem next_reoffered {aead : Aead} {call : Call} {spent : KeyId} {key : Key}
    (answer : keys.activeKey shared.turn = .ok (spent, key)) :
    shared.next aead (.rolling call spent) =
      ({ shared with turn := shared.turn + 1 }, .done (.error (.keyExhausted spent))) := by
  obtain ⟨offer, asked, same⟩ := ask_of_answer answer
  simp only [Shared.next, asked, same, if_true]

def alone (aead : Aead) (moved : Shared keys × Phase keys) : Shared keys × Phase keys :=
  moved.1.next aead moved.2

section Alone
variable {aead : Aead} {shared : Shared keys} {call : Call}

def Shared.cache (shared : Shared keys) : Ciphers keys :=
  ⟨shared.budget, shared.slot.bind (shared.ciphers[·]?), [], shared.turn⟩

theorem ask_cache (shared : Shared keys) :
    shared.cache.fresh = (shared.ask.1, shared.ask.2.cache) := by
  unfold Ciphers.fresh Shared.ask
  split
  · rename_i id key answer
    have same : keys.activeKey shared.turn = .ok (id, key) := answer
    split
    · rename_i id' key' answer'
      rw [same] at answer'
      cases answer'
      rfl
    · rename_i failure answer'
      rw [same] at answer'
      cases answer'
  · rename_i failure answer
    have same : keys.activeKey shared.turn = .error failure := answer
    split
    · rename_i id key answer'
      rw [same] at answer'
      cases answer'
    · rename_i failure' answer'
      rw [same] at answer'
      cases answer'
      rfl

theorem install_cache (shared : Shared keys) (offer : Dek keys) :
    (shared.install offer).cache = { shared.cache with active := some offer } := by
  simp [Shared.cache, Shared.install]

variable {place : Nat} {dek : Dek keys}

theorem encryptAt_cache (last : shared.slot = some place)
    (held : shared.ciphers[place]? = some dek) :
    shared.cache.encryptWith aead dek call.nonce call.binding call.plaintext =
      ((shared.encryptAt aead call place).1, (shared.encryptAt aead call place).2.cache) := by
  rw [encryptAt_shared held]
  simp only [Ciphers.encryptWith, Ciphers.charge, Shared.cache, last, Option.bind_some, held,
    getElem?_charged held, if_true, Option.map_some]
  rfl

theorem cache_active (last : shared.slot = some place) (held : shared.ciphers[place]? = some dek) :
    shared.cache.active = some dek := by
  simp [Shared.cache, last, held]

/-- Alone, a thread in this phase ends within so many steps with this outcome. -/
def Finishes (aead : Aead) (count : Nat) (shared : Shared keys) (phase : Phase keys)
    (outcome : Except Error Bytes × Ciphers keys) : Prop :=
  ∃ after, (alone aead)^[count] (shared, phase) = (after, .done outcome.1) ∧
    after.cache = outcome.2

theorem finishes_done (count : Nat) (result : Except Error Bytes) :
    Finishes aead count shared (.done result) (result, shared.cache) :=
  ⟨shared, Function.iterate_fixed rfl count, rfl⟩

theorem Finishes.before {count : Nat} {after : Shared keys} {phase later : Phase keys}
    {outcome : Except Error Bytes × Ciphers keys}
    (finishes : Finishes aead count after later outcome)
    (step : shared.next aead phase = (after, later)) :
    Finishes aead (count + 1) shared phase outcome := by
  obtain ⟨final, moved, cached⟩ := finishes
  refine ⟨final, ?_, cached⟩
  rw [Function.iterate_succ_apply]
  simpa only [alone, step] using moved

theorem finishes_recharging (count : Nat) (last : shared.slot = some place)
    (held : shared.ciphers[place]? = some dek) :
    Finishes aead (count + 1) shared (.recharging call place)
      (shared.cache.encryptWith aead dek call.nonce call.binding call.plaintext) := by
  rw [encryptAt_cache last held]
  exact (finishes_done count _).before rfl

/-- What `Ciphers::seal` does once the first key turned out to be spent. -/
def retried (aead : Aead) (cache : Ciphers keys) (spent : KeyId) (call : Call) :
    Except Error Bytes × Ciphers keys :=
  match cache.rollActive spent with
  | (.error failure, asked) => (.error failure, asked)
  | (.ok rolled, held) => held.encryptWith aead rolled call.nonce call.binding call.plaintext

theorem finishes_rolling (count : Nat) (last : shared.slot = some place)
    (held : shared.ciphers[place]? = some dek) :
    Finishes aead (count + 3) shared (.rolling call dek.id)
      (retried aead shared.cache dek.id call) := by
  cases answer : shared.ask with
  | mk result asked =>
    have shape := ask_shared shared
    rw [answer] at shape
    simp only at shape
    subst shape
    cases result with
    | error failure =>
      simp only [retried, Ciphers.rollActive, ask_cache, answer]
      refine (finishes_done (count + 2) _).before ?_
      simp only [Shared.next, answer]
    | ok offer =>
      by_cases again : offer.id = dek.id
      · simp only [retried, Ciphers.rollActive, ask_cache, answer, again, if_true]
        refine (finishes_done (count + 2) _).before ?_
        simp only [Shared.next, answer, again, if_true]
      · -- Nobody else rolls, so the slot still holds the spent key.
        generalize asking : { shared with turn := shared.turn + 1 } = asked at answer
        have stillLast : asked.slot = some place := by rw [← asking]; exact last
        have stillHeld : asked.ciphers[place]? = some dek := by rw [← asking]; exact held
        have active := cache_active stillLast stillHeld
        have rolled : retried aead shared.cache dek.id call =
            (asked.install offer).cache.encryptWith aead offer call.nonce call.binding
              call.plaintext := by
          simp only [retried, Ciphers.rollActive, ask_cache, answer, again, if_false, active,
            ne_eq, not_true_eq_false, install_cache]
        have swapping : Finishes aead (count + 2) asked (.swapping call dek.id offer)
            (retried aead shared.cache dek.id call) := by
          rw [rolled]
          have there : (asked.install offer).ciphers[asked.ciphers.length]? = some offer := by
            rw [getElem?_install, if_pos rfl]
          refine (finishes_recharging count rfl there).before ?_
          have spentThere : asked.idAt place = some dek.id :=
            idAt_eq_some.mpr ⟨dek, stillHeld, rfl⟩
          simp only [Shared.next, stillLast, spentThere, ne_eq, not_true_eq_false, if_false]
        refine swapping.before ?_
        simp only [Shared.next, answer, again, if_false]

theorem finishes_charging {place : Nat} {dek : Dek keys} (count : Nat)
    (last : shared.slot = some place) (held : shared.ciphers[place]? = some dek) :
    Finishes aead (count + 4) shared (.charging call place)
      (match shared.cache.encryptWith aead dek call.nonce call.binding call.plaintext with
        | (.error (.keyExhausted _), charged) => retried aead charged dek.id call
        | (result, charged) => (result, charged)) := by
  rw [encryptAt_cache last held]
  have charge := @encryptAt_shared _ aead _ call _ _ held
  cases attempt : shared.encryptAt aead call place with
  | mk result charged =>
    rw [attempt] at charge
    obtain ⟨outcome, charge⟩ := Prod.mk.inj charge
    split
    · rename_i spent cached exhausted
      obtain ⟨failed, rfl⟩ := Prod.mk.inj exhausted
      simp only at failed
      have same : dek.id = spent := (encrypt_exhausted (outcome.symm.trans failed)).2
      have stillLast : charged.slot = some place := by rw [charge]; exact last
      have there : charged.ciphers[place]? = some (Dek.charged dek) := by
        rw [charge]
        simp only [getElem?_charged held, if_true]
      refine (finishes_rolling count stillLast there).before ?_
      simp only [Shared.next, attempt, failed, ← same]
      rfl
    · rename_i finished cached notExhausted ended
      obtain ⟨rfl, rfl⟩ := Prod.mk.inj ended
      refine (finishes_done (count + 3) _).before ?_
      simp only [Shared.next, attempt]

theorem alone_seals (known : ∀ place, shared.slot = some place →
      ∃ dek, shared.ciphers[place]? = some dek) :
    Finishes aead 7 shared (.reading call)
      (shared.cache.seal aead call.nonce call.binding call.plaintext) := by
  cases last : shared.slot with
  | some place =>
    obtain ⟨dek, held⟩ := known place last
    have active : shared.cache.activeDek = (.ok dek, shared.cache) := by
      simp only [Ciphers.activeDek, cache_active last held]
    have charging := @finishes_charging _ aead _ call _ _ 2 last held
    unfold Ciphers.seal
    rw [active]
    refine charging.before ?_
    simp only [Shared.next, last]
  | none =>
    -- Reading, asking, installing and charging, with no other thread in between.
    have inactive : shared.cache.active = none := by simp [Shared.cache, last]
    have reading : shared.next aead (.reading call) = (shared, .asking call) := by
      simp only [Shared.next, last]
    cases answer : shared.ask with
    | mk result asked =>
      have stillEmpty : asked.slot = none := by
        have shape := ask_shared shared
        rw [answer] at shape
        simp only at shape
        rw [shape]
        exact last
      unfold Ciphers.seal
      simp only [Ciphers.activeDek, inactive, ask_cache, answer]
      cases result with
      | error failure =>
        refine ((finishes_done 5 _).before ?_).before reading
        simp only [Shared.next, answer]
      | ok offer =>
        have there : (asked.install offer).ciphers[asked.ciphers.length]? = some offer := by
          rw [getElem?_install, if_pos rfl]
        have charging := @finishes_charging _ aead _ call _ _ 0 rfl there
        rw [install_cache] at charging
        have installing : asked.next aead (.installing call offer) =
            (asked.install offer, .charging call asked.ciphers.length) := by
          simp only [Shared.next, stillEmpty]
        refine ((charging.before installing).before ?_).before reading
        simp only [Shared.next, answer]

end Alone

end Dbsec.SharedCache
