import Dbsec.SharedCache
import Dbsec.Transform
import Dbsec.Reachable

/-! No key exceeds its encryption budget, whatever the threads that share the cache do.
The ciphers reach the slot in the order the source offered them, so a source that never
goes back to an id never has two counters for one; each counter then bounds what is
written under its id, as long as the 64-bit count does not wrap around. -/
namespace Dbsec.KeyBudget
open Framing Envelope KeyCache Transform SharedCache

variable {keys : KeySource}

/-- The source never offers an id again after having offered a different one. -/
def NeverReoffers (keys : KeySource) : Prop :=
  ∀ {first second third id other key key' key''}, first < second → second < third →
    keys.activeKey first = .ok (id, key) → keys.activeKey second = .ok (other, key') →
    keys.activeKey third = .ok (id, key'') → other = id

/-- Every charge leaves the 64-bit counter short of wrapping around. -/
def CounterFits (state : State keys) : Event → Prop
  | .call .. => True
  | .run thread =>
    ∀ call place dek, (state.threads thread = .charging call place ∨
        state.threads thread = .recharging call place) →
      state.shared.ciphers[place]? = some dek → dek.cipher.used.toNat + 1 < 2 ^ 64

section Invariant

/-- The source answered this turn's request with the offered key. -/
structure OfferedAt (shared : Shared keys) (offer : Dek keys) (turn : Nat) : Prop where
  past : turn < shared.turn
  answered : ∃ key, keys.activeKey turn = .ok (offer.id, key)
  budget : offer.cipher.budget = shared.budget

def lastPlace : Nat → Option Nat
  | 0 => none
  | count + 1 => some count

/-- The ciphers were offered in the order they reached the slot, each under an id
of its own, and the slot holds the latest. -/
structure Ordered (shared : Shared keys) (offeredAt : Nat → Nat) : Prop where
  slot : shared.slot = lastPlace shared.ciphers.length
  rising : ∀ {earlier later}, earlier < later → later < shared.ciphers.length →
    offeredAt earlier < offeredAt later
  offered : ∀ {place dek}, shared.ciphers[place]? = some dek →
    OfferedAt shared dek (offeredAt place)
  distinct : ∀ {place other id}, shared.idAt place = some id → shared.idAt other = some id →
    place = other

/-- No id has more values written under it than its one cipher was charged for. -/
structure Accounted (shared : Shared keys) : Prop where
  counted : ∀ {place : Nat} {dek : Dek keys}, shared.ciphers[place]? = some dek →
    shared.written.count dek.id ≤ dek.cipher.used.toNat ∧
      shared.written.count dek.id ≤ shared.budget.toNat
  held : ∀ {id}, id ∈ shared.written → ∃ place, shared.idAt place = some id

/-- What a thread has in hand is still what the cache knows it as. -/
def Sound (shared : Shared keys) (offeredAt : Nat → Nat) : Phase keys → Prop
  | .installing _ offer => ∃ turn, OfferedAt shared offer turn
  | .charging _ place => place < shared.ciphers.length
  | .recharging _ place => place < shared.ciphers.length
  | .rolling _ spent => ∃ place, shared.idAt place = some spent
  | .swapping _ spent offer =>
    offer.id ≠ spent ∧ ∃ place, shared.idAt place = some spent ∧
      ∃ turn, OfferedAt shared offer turn ∧ offeredAt place < turn
  | _ => True

variable {shared : Shared keys} {place : Nat}

theorem lt_of_idAt {id : KeyId} (found : shared.idAt place = some id) :
    place < shared.ciphers.length := by
  obtain ⟨dek, held, _⟩ := idAt_eq_some.mp found
  exact (List.getElem?_eq_some_iff.mp held).1

/-- Later states know every cipher an earlier one knew, at its place. -/
structure Extends (before after : Shared keys) (offeredAt offeredAt' : Nat → Nat) : Prop where
  turn : before.turn ≤ after.turn
  budget : after.budget = before.budget
  idAt : ∀ {place id}, before.idAt place = some id → after.idAt place = some id
  offeredAt : ∀ {place}, place < before.ciphers.length → offeredAt' place = offeredAt place
  length : before.ciphers.length ≤ after.ciphers.length

variable {offer : Dek keys} {before after : Shared keys} {turn : Nat}

theorem OfferedAt.later (offered : OfferedAt before offer turn) (passed : before.turn ≤ after.turn)
    (same : after.budget = before.budget) : OfferedAt after offer turn :=
  ⟨Nat.lt_of_lt_of_le offered.past passed, offered.answered, offered.budget.trans same.symm⟩

variable {offeredAt : Nat → Nat}

theorem sound_later {offeredAt' : Nat → Nat} {phase : Phase keys}
    (sound : Sound before offeredAt phase) (grown : Extends before after offeredAt offeredAt') :
    Sound after offeredAt' phase := by
  cases phase with
  | idle => trivial
  | reading call => trivial
  | asking call => trivial
  | done result => trivial
  | installing call offer =>
    obtain ⟨turn, offered⟩ := sound
    exact ⟨turn, offered.later grown.turn grown.budget⟩
  | charging call place => exact Nat.lt_of_lt_of_le sound grown.length
  | recharging call place => exact Nat.lt_of_lt_of_le sound grown.length
  | rolling call spent =>
    obtain ⟨place, found⟩ := sound
    exact ⟨place, grown.idAt found⟩
  | swapping call spent offer =>
    obtain ⟨other, place, found, turn, offered, after⟩ := sound
    refine ⟨other, place, grown.idAt found, turn, offered.later grown.turn grown.budget, ?_⟩
    rw [grown.offeredAt (lt_of_idAt found)]
    exact after

theorem Extends.refl (shared : Shared keys) (offeredAt : Nat → Nat) :
    Extends shared shared offeredAt offeredAt :=
  ⟨Nat.le_refl _, rfl, id, fun _ => rfl, Nat.le_refl _⟩

theorem slot_inside (ordered : Ordered shared offeredAt) (last : shared.slot = some place) :
    place + 1 = shared.ciphers.length := by
  rw [ordered.slot] at last
  cases count : shared.ciphers.length with
  | zero => rw [count] at last; cases last
  | succ below => rw [count] at last; exact congrArg (· + 1) (Option.some.inj last).symm

/-- Under the slot's last cipher, an offer made after that cipher's own bears an id
that was never in the slot. -/
theorem fresh_of_offered {spent : KeyId} (stable : NeverReoffers keys)
    (ordered : Ordered shared offeredAt) (last : shared.slot = some place)
    (found : shared.idAt place = some spent) (offered : OfferedAt shared offer turn)
    (after : offeredAt place < turn) (other : offer.id ≠ spent) (earlier : Nat) :
    shared.idAt earlier ≠ some offer.id := by
  intro reused
  obtain ⟨held, atPlace, rfl⟩ := idAt_eq_some.mp found
  obtain ⟨again, atEarlier, sameId⟩ := idAt_eq_some.mp reused
  have inside := lt_of_idAt reused
  have top := slot_inside ordered last
  have before : earlier < place := by
    by_contra notBefore
    have same : earlier = place := by omega
    rw [same, atPlace] at atEarlier
    cases atEarlier
    exact other sameId.symm
  obtain ⟨firstKey, first⟩ := (ordered.offered atEarlier).answered
  obtain ⟨secondKey, second⟩ := (ordered.offered atPlace).answered
  obtain ⟨thirdKey, third⟩ := offered.answered
  rw [sameId] at first
  exact other (stable (ordered.rising before (by omega)) after first second third).symm

theorem idAt_install (shared : Shared keys) (offer : Dek keys) (place : Nat) :
    (shared.install offer).idAt place =
      if place = shared.ciphers.length then some offer.id else shared.idAt place := by
  rw [Shared.idAt, getElem?_install]
  split <;> rfl

theorem install_extends (shared : Shared keys) (offer : Dek keys) (offeredAt : Nat → Nat)
    (turn : Nat) :
    Extends shared (shared.install offer) offeredAt
      (Function.update offeredAt shared.ciphers.length turn) where
  turn := Nat.le_refl _
  budget := rfl
  idAt := by
    intro place id found
    rw [idAt_install, if_neg (Nat.ne_of_lt (lt_of_idAt found))]
    exact found
  offeredAt := fun inside => Function.update_of_ne (Nat.ne_of_lt inside) _ _
  length := by simp [Shared.install]

theorem install_ordered (ordered : Ordered shared offeredAt) (offered : OfferedAt shared offer turn)
    (latest : ∀ place, place < shared.ciphers.length → offeredAt place < turn)
    (fresh : ∀ place, shared.idAt place ≠ some offer.id) :
    Ordered (shared.install offer)
      (Function.update offeredAt shared.ciphers.length turn) where
  slot := by simp [Shared.install, lastPlace]
  rising := by
    intro earlier later before inside
    have bound : later < shared.ciphers.length + 1 := by simpa [Shared.install] using inside
    rw [Function.update_of_ne (by omega)]
    by_cases top : later = shared.ciphers.length
    · subst top
      rw [Function.update_self]
      exact latest earlier before
    · rw [Function.update_of_ne top]
      exact ordered.rising before (by omega)
  offered := by
    intro place dek found
    rw [getElem?_install] at found
    by_cases top : place = shared.ciphers.length
    · subst top
      rw [if_pos rfl] at found
      cases found
      rw [Function.update_self]
      exact offered.later (Nat.le_refl _) rfl
    · rw [if_neg top] at found
      rw [Function.update_of_ne top]
      exact (ordered.offered found).later (Nat.le_refl _) rfl
  distinct := by
    intro place other id here there
    rw [idAt_install] at here there
    by_cases top : place = shared.ciphers.length
      <;> by_cases topOther : other = shared.ciphers.length
    · rw [top, topOther]
    · rw [if_pos top] at here
      rw [if_neg topOther, ← here] at there
      exact absurd there (fresh other)
    · rw [if_pos topOther] at there
      rw [if_neg top, ← there] at here
      exact absurd here (fresh place)
    · rw [if_neg top] at here
      rw [if_neg topOther] at there
      exact ordered.distinct here there

theorem install_accounted (accounted : Accounted shared)
    (fresh : ∀ place, shared.idAt place ≠ some offer.id) : Accounted (shared.install offer) where
  counted := by
    intro place dek found
    rw [getElem?_install] at found
    by_cases top : place = shared.ciphers.length
    · rw [if_pos top] at found
      cases found
      have unused : offer.id ∉ shared.written := fun listed => by
        obtain ⟨place, found⟩ := accounted.held listed
        exact fresh place found
      have none : (shared.install offer).written.count offer.id = 0 := List.count_eq_zero.mpr unused
      rw [none]
      exact ⟨Nat.zero_le _, Nat.zero_le _⟩
    · rw [if_neg top] at found
      exact accounted.counted found
  held := by
    intro id listed
    obtain ⟨place, found⟩ := accounted.held listed
    exact ⟨place, (install_extends shared offer (fun _ => 0) 0).idAt found⟩

theorem ask_extends (shared : Shared keys) (offeredAt : Nat → Nat) :
    Extends shared shared.ask.2 offeredAt offeredAt := by
  unfold Shared.ask
  split <;> exact ⟨Nat.le_succ _, rfl, id, fun _ => rfl, Nat.le_refl _⟩

theorem ask_offered {asked : Shared keys} (answer : shared.ask = (.ok offer, asked)) :
    OfferedAt asked offer shared.turn := by
  have after := ask_shared shared
  rw [answer] at after
  subst after
  unfold Shared.ask at answer
  split at answer
  · rename_i id key answered
    cases answer
    exact ⟨Nat.lt_succ_self _, ⟨key, answered⟩, rfl⟩
  · cases answer

theorem ask_ordered (ordered : Ordered shared offeredAt) : Ordered shared.ask.2 offeredAt := by
  rw [ask_shared]
  exact ⟨ordered.slot, ordered.rising,
    fun found => (ordered.offered found).later (Nat.le_succ _) rfl, ordered.distinct⟩

theorem ask_accounted (accounted : Accounted shared) : Accounted shared.ask.2 := by
  rw [ask_shared]
  exact ⟨accounted.counted, accounted.held⟩

variable {aead : Aead} {call : Call}

theorem idAt_encryptAt (other : Nat) :
    (shared.encryptAt aead call place).2.idAt other = shared.idAt other := by
  cases held : shared.ciphers[place]? with
  | none => simp only [Shared.encryptAt, held]
  | some dek =>
    rw [encryptAt_shared held]
    simp only [Shared.idAt, getElem?_charged held]
    by_cases same : place = other
    · subst same
      simp [held, Dek.charged]
    · simp [same]

theorem encryptAt_extends (aead : Aead) (shared : Shared keys) (call : Call) (place : Nat)
    (offeredAt : Nat → Nat) :
    Extends shared (shared.encryptAt aead call place).2 offeredAt offeredAt := by
  have sameIds : ∀ {other id}, shared.idAt other = some id →
      (shared.encryptAt aead call place).2.idAt other = some id := by
    intro other id found
    rw [idAt_encryptAt]
    exact found
  cases held : shared.ciphers[place]? with
  | none =>
    simp only [Shared.encryptAt, held]
    exact .refl shared offeredAt
  | some dek =>
    rw [encryptAt_shared held] at sameIds ⊢
    exact ⟨Nat.le_refl _, rfl, sameIds, fun _ => rfl, by simp⟩

theorem encryptAt_ordered (ordered : Ordered shared offeredAt) :
    Ordered (shared.encryptAt aead call place).2 offeredAt := by
  have distinct : ∀ {here there id}, (shared.encryptAt aead call place).2.idAt here = some id →
      (shared.encryptAt aead call place).2.idAt there = some id → here = there := by
    intro here there id found foundThere
    rw [idAt_encryptAt] at found foundThere
    exact ordered.distinct found foundThere
  cases held : shared.ciphers[place]? with
  | none =>
    simp only [Shared.encryptAt, held]
    exact ordered
  | some dek =>
    rw [encryptAt_shared held] at distinct ⊢
    refine ⟨?_, ?_, ?_, distinct⟩
    · simpa using ordered.slot
    · intro earlier later before inside
      exact ordered.rising before (by simpa using inside)
    · intro other found foundAt
      simp only [getElem?_charged held] at foundAt
      by_cases same : place = other
      · subst same
        rw [if_pos rfl] at foundAt
        cases foundAt
        obtain ⟨past, answered, budget⟩ := ordered.offered held
        exact ⟨past, answered, budget⟩
      · rw [if_neg same] at foundAt
        obtain ⟨past, answered, budget⟩ := ordered.offered foundAt
        exact ⟨past, answered, budget⟩

theorem unspent_of_ok {cipher : Cipher} {nonce : Nonce} {id : KeyId} {binding : Binding}
    {plaintext : Bytes}
    (encrypted : (cipher.encrypt aead nonce id binding plaintext).1.isOk = true) :
    cipher.used < cipher.budget := by
  unfold Cipher.encrypt at encrypted
  split at encrypted
  · cases encrypted
  · rename_i unspent
    exact UInt64.not_le.mp unspent

theorem encryptAt_accounted (ordered : Ordered shared offeredAt) (accounted : Accounted shared)
    (fits : ∀ dek, shared.ciphers[place]? = some dek → dek.cipher.used.toNat + 1 < 2 ^ 64) :
    Accounted (shared.encryptAt aead call place).2 := by
  cases held : shared.ciphers[place]? with
  | none =>
    simp only [Shared.encryptAt, held]
    exact accounted
  | some dek =>
    have heldIds : ∀ {id}, id ∈ shared.written →
        ∃ other, (shared.encryptAt aead call place).2.idAt other = some id := by
      intro id listed
      obtain ⟨other, found⟩ := accounted.held listed
      exact ⟨other, by rw [idAt_encryptAt]; exact found⟩
    have ownId : (shared.encryptAt aead call place).2.idAt place = some dek.id := by
      rw [idAt_encryptAt]
      exact idAt_eq_some.mpr ⟨dek, held, rfl⟩
    have charged : (Dek.charged dek).cipher.used.toNat = dek.cipher.used.toNat + 1 := by
      have small := fits dek held
      simp only [Dek.charged, UInt64.toNat_add, UInt64.reduceToNat]
      exact Nat.mod_eq_of_lt small
    obtain ⟨used, budgeted⟩ := accounted.counted held
    have budget := (ordered.offered held).budget
    rw [encryptAt_shared held] at heldIds ownId ⊢
    -- The record only grows when the counter was still below the budget.
    cases outcome : (dek.cipher.encrypt aead call.nonce dek.id call.binding
        call.plaintext).1.isOk with
    | false =>
      simp only [outcome, Bool.false_eq_true, if_false] at heldIds ⊢
      refine ⟨?_, heldIds⟩
      intro other found foundAt
      simp only [getElem?_charged held] at foundAt
      by_cases same : place = other
      · rw [if_pos same] at foundAt
        cases foundAt
        exact ⟨by rw [charged]; exact Nat.le_succ_of_le used, budgeted⟩
      · rw [if_neg same] at foundAt
        exact accounted.counted foundAt
    | true =>
      have below : dek.cipher.used.toNat < shared.budget.toNat := by
        rw [← budget]
        exact UInt64.lt_iff_toNat_lt.mp (unspent_of_ok outcome)
      simp only [outcome, if_true] at heldIds ownId ⊢
      constructor
      · intro other found foundAt
        simp only [getElem?_charged held] at foundAt
        by_cases same : place = other
        · rw [if_pos same] at foundAt
          cases foundAt
          have one : (dek.id :: shared.written).count (Dek.charged dek).id =
              shared.written.count dek.id + 1 := List.count_cons_self
          rw [one, charged]
          exact ⟨Nat.succ_le_succ used, Nat.le_trans (Nat.succ_le_succ used) below⟩
        · rw [if_neg same] at foundAt
          have otherId : found.id ≠ dek.id := fun equal =>
            same (ordered.distinct (idAt_eq_some.mpr ⟨dek, held, rfl⟩)
              (idAt_eq_some.mpr ⟨found, foundAt, equal⟩))
          rw [List.count_cons_of_ne otherId.symm]
          exact accounted.counted foundAt
      · intro id listed
        rcases List.mem_cons.mp listed with own | earlier
        · exact ⟨place, by rw [own]; exact ownId⟩
        · exact heldIds earlier

/-- The cache is in order and no thread has anything in hand that it does not know. -/
structure Consistent (shared : Shared keys) (offeredAt : Nat → Nat) (phase : Phase keys) :
    Prop where
  ordered : Ordered shared offeredAt
  accounted : Accounted shared
  sound : Sound shared offeredAt phase

/-- One step of a thread leaves everything in order and takes nothing from what the
other threads rely on. -/
def Continues (shared : Shared keys) (offeredAt : Nat → Nat) (after : Shared keys × Phase keys) :
    Prop :=
  ∃ offeredAt', Extends shared after.1 offeredAt offeredAt' ∧
    Consistent after.1 offeredAt' after.2

section Steps
variable {aead : Aead} {shared : Shared keys} {offeredAt : Nat → Nat} {phase after : Phase keys}

theorem Continues.unchanged (consistent : Consistent shared offeredAt phase)
    (sound : Sound shared offeredAt after) :
    Continues shared offeredAt (shared, after) :=
  ⟨offeredAt, .refl shared offeredAt, consistent.ordered, consistent.accounted, sound⟩

theorem Continues.asked (consistent : Consistent shared offeredAt phase)
    (sound : Sound shared.ask.2 offeredAt after) :
    Continues shared offeredAt (shared.ask.2, after) :=
  ⟨offeredAt, ask_extends shared offeredAt, ask_ordered consistent.ordered,
    ask_accounted consistent.accounted, sound⟩

variable {call : Call}

theorem Continues.charged (consistent : Consistent shared offeredAt phase)
    (fits : ∀ dek, shared.ciphers[place]? = some dek → dek.cipher.used.toNat + 1 < 2 ^ 64)
    (sound : Sound (shared.encryptAt aead call place).2 offeredAt after) :
    Continues shared offeredAt ((shared.encryptAt aead call place).2, after) :=
  ⟨offeredAt, encryptAt_extends aead shared call place offeredAt,
    encryptAt_ordered consistent.ordered,
    encryptAt_accounted consistent.ordered consistent.accounted fits, sound⟩

theorem Continues.installed {turn : Nat} (consistent : Consistent shared offeredAt phase)
    (offered : OfferedAt shared offer turn)
    (latest : ∀ place, place < shared.ciphers.length → offeredAt place < turn)
    (fresh : ∀ place, shared.idAt place ≠ some offer.id)
    (sound : ∀ offeredAt', Sound (shared.install offer) offeredAt' after) :
    Continues shared offeredAt (shared.install offer, after) :=
  ⟨_, install_extends shared offer offeredAt turn,
    install_ordered consistent.ordered offered latest fresh,
    install_accounted consistent.accounted fresh, sound _⟩

theorem next_swapping (stable : NeverReoffers keys) {spent : KeyId}
    (consistent : Consistent shared offeredAt (.swapping call spent offer)) :
    Continues shared offeredAt (shared.next aead (.swapping call spent offer)) := by
  obtain ⟨other, held, found, turn, offered, after⟩ := consistent.sound
  have slot := consistent.ordered.slot
  have inside := lt_of_idAt found
  cases last : shared.slot with
  | none =>
    -- A slot once filled is never empty again.
    rw [last] at slot
    cases count : shared.ciphers.length with
    | zero => omega
    | succ below => rw [count] at slot; cases slot
  | some place =>
    have top := slot_inside consistent.ordered last
    simp only [Shared.next, last]
    split
    · exact Continues.unchanged consistent (show place < _ by omega)
    · rename_i atSpent
      have spentThere : shared.idAt place = some spent := not_not.mp atSpent
      have same : held = place := consistent.ordered.distinct found spentThere
      subst same
      refine Continues.installed consistent offered ?_ ?_ ?_
      · intro earlier bound
        by_cases here : earlier = held
        · rw [here]; exact after
        · exact Nat.lt_trans (consistent.ordered.rising (show earlier < held by omega) inside) after
      · exact fresh_of_offered stable consistent.ordered last found offered after other
      · intro _
        simp [Sound, Shared.install]

theorem next_installing (consistent : Consistent shared offeredAt (.installing call offer)) :
    Continues shared offeredAt (shared.next aead (.installing call offer)) := by
  obtain ⟨turn, offered⟩ := consistent.sound
  cases last : shared.slot with
  | some place =>
    have top := slot_inside consistent.ordered last
    simp only [Shared.next, last]
    exact Continues.unchanged consistent (show place < _ by omega)
  | none =>
    have empty : shared.ciphers.length = 0 := by
      have slot := consistent.ordered.slot
      rw [last] at slot
      cases count : shared.ciphers.length with
      | zero => rfl
      | succ below => rw [count] at slot; cases slot
    simp only [Shared.next, last]
    refine Continues.installed consistent offered ?_ ?_ ?_
    · intro place inside
      omega
    · intro place found
      have inside := lt_of_idAt found
      omega
    · intro _
      simp [Sound, Shared.install]

theorem next_charging (consistent : Consistent shared offeredAt (.charging call place))
    (fits : ∀ dek, shared.ciphers[place]? = some dek → dek.cipher.used.toNat + 1 < 2 ^ 64) :
    Continues shared offeredAt (shared.next aead (.charging call place)) := by
  obtain ⟨dek, held⟩ : ∃ dek, shared.ciphers[place]? = some dek :=
    ⟨_, List.getElem?_eq_getElem consistent.sound⟩
  cases attempt : shared.encryptAt aead call place with
  | mk result charged =>
    have shape : charged = (shared.encryptAt aead call place).2 := by rw [attempt]
    simp only [Shared.next, attempt]
    split
    · rename_i spent after exhausted
      obtain ⟨failed, rfl⟩ := Prod.mk.inj exhausted
      rw [shape]
      refine Continues.charged consistent fits ⟨place, ?_⟩
      rw [idAt_encryptAt, idAt_eq_some]
      refine ⟨dek, held, ?_⟩
      rw [encryptAt_shared held] at attempt
      have reported := congrArg Prod.fst attempt
      simp only [failed] at reported
      exact (encrypt_exhausted reported).2
    · rename_i outcome after _ finished
      obtain ⟨_, rfl⟩ := Prod.mk.inj finished
      rw [shape]
      exact Continues.charged consistent fits trivial

theorem next_continues (stable : NeverReoffers keys) {phase : Phase keys}
    (consistent : Consistent shared offeredAt phase)
    (fits : ∀ call place dek, (phase = .charging call place ∨ phase = .recharging call place) →
      shared.ciphers[place]? = some dek → dek.cipher.used.toNat + 1 < 2 ^ 64) :
    Continues shared offeredAt (shared.next aead phase) := by
  cases phase with
  | idle => exact Continues.unchanged consistent trivial
  | done result => exact Continues.unchanged consistent trivial
  | reading call =>
    cases last : shared.slot with
    | none =>
      simp only [Shared.next, last]
      exact Continues.unchanged consistent trivial
    | some place =>
      have top := slot_inside consistent.ordered last
      simp only [Shared.next, last]
      exact Continues.unchanged consistent (show place < _ by omega)
  | asking call =>
    cases answer : shared.ask with
    | mk result asked =>
      have shape : asked = shared.ask.2 := by rw [answer]
      cases result with
      | ok offer =>
        have offered := ask_offered answer
        simp only [Shared.next, answer]
        rw [shape] at offered ⊢
        exact Continues.asked consistent ⟨_, offered⟩
      | error failure =>
        simp only [Shared.next, answer]
        rw [shape]
        exact Continues.asked consistent trivial
  | installing call offer => exact next_installing consistent
  | charging call place =>
    exact next_charging consistent fun dek held => fits call place dek (.inl rfl) held
  | rolling call spent =>
    obtain ⟨place, found⟩ := consistent.sound
    obtain ⟨dek, held, _⟩ := idAt_eq_some.mp found
    cases answer : shared.ask with
    | mk result asked =>
      have shape : asked = shared.ask.2 := by rw [answer]
      cases result with
      | error failure =>
        simp only [Shared.next, answer]
        rw [shape]
        exact Continues.asked consistent trivial
      | ok offer =>
        have offered := ask_offered answer
        have earlier := (consistent.ordered.offered held).past
        simp only [Shared.next, answer]
        rw [shape] at offered ⊢
        split
        · exact Continues.asked consistent trivial
        · rename_i other
          -- The request was made while the spent cipher was already in the slot.
          refine Continues.asked consistent ⟨other, place, ?_, _, offered, earlier⟩
          exact (ask_extends shared offeredAt).idAt found
  | swapping call spent offer => exact next_swapping stable consistent
  | recharging call place =>
    exact Continues.charged consistent
      (fun dek held => fits call place dek (.inr rfl) held) trivial

end Steps

/-- The cache is in order and every thread's next step rests on what it knows. -/
def InOrder (budget : UInt64) (state : State keys) : Prop :=
  state.shared.budget = budget ∧
    ∃ offeredAt, ∀ thread, Consistent state.shared offeredAt (state.threads thread)

theorem init_inOrder (budget : UInt64) : InOrder budget (State.init keys budget) := by
  refine ⟨rfl, fun _ => 0, fun thread => ⟨⟨rfl, ?_, ?_, ?_⟩, ⟨?_, ?_⟩, trivial⟩⟩
  all_goals simp [State.init, Shared.idAt]

theorem step_inOrder (stable : NeverReoffers keys) {budget : UInt64} {before after : State keys}
    {event : Event} (inOrder : InOrder budget before) (fits : CounterFits before event)
    (taken : Step aead before event after) :
    InOrder budget after := by
  obtain ⟨same, offeredAt, consistent⟩ := inOrder
  cases taken with
  | @call thread call free =>
    refine ⟨same, offeredAt, fun other => ?_⟩
    have here := consistent other
    by_cases own : other = thread
    · simp only [own, Function.update_self]
      exact ⟨here.ordered, here.accounted, trivial⟩
    · simp only [Function.update_of_ne own]
      exact here
  | @run thread =>
    obtain ⟨offeredAt', grown, next⟩ :=
      @next_continues _ aead _ _ stable _ (consistent thread) fits
    refine ⟨grown.budget.trans same, offeredAt', fun other => ?_⟩
    by_cases own : other = thread
    · simp only [State.move, own, Function.update_self]
      exact next
    · simp only [State.move, Function.update_of_ne own]
      exact ⟨next.ordered, next.accounted, sound_later (consistent other).sound grown⟩

end Invariant

/-- Along any interleaving whose counters do not wrap around, no key id has more
values encrypted under it than the budget, and a roll that is offered the spent id
again ends the call without encrypting. -/
theorem budget_bounds_encryptions (aead : Aead) (stable : NeverReoffers keys) (budget : UInt64)
    (state : State keys)
    (reached : Reachable (Step aead) CounterFits (State.init keys budget) state) :
    (∀ id, state.shared.written.count id ≤ budget.toNat) ∧
      ∀ thread call spent key after, state.threads thread = .rolling call spent →
        keys.activeKey state.shared.turn = .ok (spent, key) →
        Step aead state (.run thread) after →
        after.threads thread = .done (.error (.keyExhausted spent)) ∧
          after.shared.written = state.shared.written := by
  have kept : InOrder budget state := reached.invariant (init_inOrder budget)
    fun _ _ _ inOrder fits taken => step_inOrder stable inOrder fits taken
  obtain ⟨sameBudget, offeredAt, consistent⟩ := kept
  constructor
  · intro id
    by_cases listed : id ∈ state.shared.written
    · obtain ⟨place, found⟩ := (consistent 0).accounted.held listed
      obtain ⟨dek, held, rfl⟩ := idAt_eq_some.mp found
      rw [← sameBudget]
      exact ((consistent 0).accounted.counted held).2
    · rw [List.count_eq_zero.mpr listed]
      exact Nat.zero_le _
  · intro thread call spent key after rolling answer taken
    cases taken with
    | run =>
      have failed : state.shared.next aead (.rolling call spent) =
          ({ state.shared with turn := state.shared.turn + 1 },
            .done (.error (.keyExhausted spent))) := next_reoffered answer
      rw [State.move, rolling, failed]
      exact ⟨Function.update_self _ _ _, rfl⟩

section Wrapping

/-- The state in which a thread has made so many moves of its call on its own. -/
def afterAlone (aead : Aead) (state : State keys) (thread : Nat) (call : Call) (count : Nat) :
    State keys :=
  ⟨((alone aead)^[count] (state.shared, .reading call)).1,
    Function.update state.threads thread ((alone aead)^[count] (state.shared, .reading call)).2⟩

theorem reached_alone {permitted : State keys → Event → Prop} {start state : State keys}
    {thread : Nat} (reached : Reachable (Step aead) permitted start state)
    (free : (state.threads thread).isFree = true) (called : permitted state (.call thread call))
    {count : Nat}
    (moved : ∀ below < count, permitted (afterAlone aead state thread call below) (.run thread)) :
    Reachable (Step aead) permitted start (afterAlone aead state thread call count) := by
  induction count with
  | zero => exact reached.step called (.call free)
  | succ count ih =>
    have before := ih fun below less => moved below (Nat.lt_succ_of_lt less)
    have step := before.step (moved count (Nat.lt_succ_self count)) .run
    unfold afterAlone at step ⊢
    rw [Function.iterate_succ_apply']
    simpa only [State.move, alone, Function.update_self, Function.update_idem] using step

theorem alone_exhausted {place : Nat} {dek : Dek keys} {key : Key}
    (last : shared.slot = some place) (held : shared.ciphers[place]? = some dek)
    (spent : dek.cipher.budget ≤ dek.cipher.used)
    (answer : keys.activeKey shared.turn = .ok (dek.id, key)) :
    (alone aead)^[3] (shared, .reading call) =
      ({ shared with
          ciphers := shared.ciphers.set place (Dek.charged dek), turn := shared.turn + 1 },
        .done (.error (.keyExhausted dek.id))) := by
  have refused : (dek.cipher.encrypt aead call.nonce dek.id call.binding call.plaintext).1 =
      .error (.keyExhausted dek.id) := by
    simp only [Cipher.encrypt, spent, if_true]
  have charging : shared.next aead (.reading call) = (shared, .charging call place) := by
    simp only [Shared.next, last]
  have rolling : shared.next aead (.charging call place) =
      ({ shared with ciphers := shared.ciphers.set place (Dek.charged dek) },
        .rolling call dek.id) := by
    simp only [Shared.next, encryptAt_shared held, refused, Except.isOk, Except.toBool,
      Bool.false_eq_true, if_false]
  simp only [Function.iterate_succ, Function.comp_apply, Function.iterate_zero, id_eq, alone,
    charging, rolling]
  exact next_reoffered answer

theorem alone_encrypts {place : Nat} {dek : Dek keys} {envelope : Bytes}
    (last : shared.slot = some place) (held : shared.ciphers[place]? = some dek)
    (encrypted : (dek.cipher.encrypt aead call.nonce dek.id call.binding call.plaintext).1 =
      .ok envelope) :
    (alone aead)^[2] (shared, .reading call) =
      ({ shared with
          ciphers := shared.ciphers.set place (Dek.charged dek)
          written := dek.id :: shared.written },
        .done (.ok envelope)) := by
  have charging : shared.next aead (.reading call) = (shared, .charging call place) := by
    simp only [Shared.next, last]
  simp only [Function.iterate_succ, Function.comp_apply, Function.iterate_zero, id_eq, alone,
    charging]
  simp only [Shared.next, encryptAt_shared held, encrypted, Except.isOk, Except.toBool, if_true]


def repeatedCall : Call := ⟨block 12 9, ⟨emailColumn.context, none, false⟩, List.replicate 17 65⟩

def repeatedAead : Aead :=
  ledger (block 32 7) (block 12 9) emailAad (List.replicate 17 65) (List.replicate 33 0) (by decide)

abbrev sole : KeySource := soleSource (block 16 1) (block 32 7)

theorem sole_neverReoffers : NeverReoffers sole := by
  intro first second third id other key key' key'' _ _ offered offeredOther _
  cases offered
  cases offeredOther
  rfl

def soleDek (used : UInt64) : Dek sole := ⟨block 16 1, ⟨block 32 7, used, 1⟩, rfl⟩

/-- The sole key has encrypted `count` values and its counter stands at `used`. -/
structure Stands (state : State sole) (used : UInt64) (count : Nat) : Prop where
  slot : state.shared.slot = some 0
  ciphers : state.shared.ciphers = [soleDek used]
  written : state.shared.written = List.replicate count (block 16 1)
  free : (state.threads 0).isFree = true

theorem first_call :
    Reachable (Step repeatedAead) CounterFits (State.init sole 1)
        (afterAlone repeatedAead (State.init sole 1) 0 repeatedCall 4) ∧
      Stands (afterAlone repeatedAead (State.init sole 1) 0 repeatedCall 4) 1 1 := by
  refine ⟨reached_alone .start rfl trivial ?_, rfl, rfl, rfl, rfl⟩
  intro below less call place dek phase held
  have cases : below = 0 ∨ below = 1 ∨ below = 2 ∨ below = 3 := by omega
  rcases cases with rfl | rfl | rfl | rfl
  · rcases phase with phase | phase <;> cases phase
  · rcases phase with phase | phase <;> cases phase
  · rcases phase with phase | phase <;> cases phase
  · rcases phase with phase | phase
    · cases phase
      cases held
      decide
    · cases phase

theorem refused_calls (count : Nat) (below : count < 2 ^ 64) :
    ∃ state, Reachable (Step repeatedAead) unrestricted (State.init sole 1) state ∧
      Stands state (UInt64.ofNat (count + 1)) 1 := by
  induction count with
  | zero => exact ⟨_, first_call.1.anyRun, first_call.2⟩
  | succ count ih =>
    obtain ⟨state, reached, stands⟩ := ih (by omega)
    have spent : (soleDek (UInt64.ofNat (count + 1))).cipher.budget ≤
        (soleDek (UInt64.ofNat (count + 1))).cipher.used := by
      rw [UInt64.le_iff_toNat_le]
      simp only [soleDek, UInt64.toNat_ofNat']
      rw [Nat.mod_eq_of_lt (by omega)]
      exact Nat.succ_le_succ (Nat.zero_le count)
    have held : state.shared.ciphers[0]? = some (soleDek (UInt64.ofNat (count + 1))) := by
      rw [stands.ciphers]
      rfl
    have failed := @alone_exhausted _ repeatedAead _ repeatedCall _ _ (block 32 7) stands.slot
      held spent rfl
    have after := @reached_alone _ _ repeatedCall _ _ _ _ reached stands.free trivial 3
      fun _ _ => trivial
    rw [afterAlone, failed] at after
    refine ⟨_, after, stands.slot, ?_, stands.written, ?_⟩
    · simp only [stands.ciphers, List.set_cons_zero]
      rw [UInt64.ofNat_add (count + 1) 1]
      rfl
    · simp [Phase.isFree]

/-- After `2^64` charges the counter stands at zero and the sole key, whose budget is
one, encrypts a second value. -/
theorem wrapped_counter_exceeds_budget :
    NeverReoffers sole ∧
      ∃ state, Reachable (Step repeatedAead) unrestricted (State.init sole 1) state ∧
        (1 : UInt64).toNat < state.shared.written.count (block 16 1) := by
  refine ⟨sole_neverReoffers, ?_⟩
  obtain ⟨state, reached, stands⟩ := refused_calls (2 ^ 64 - 1) (by decide)
  have held : state.shared.ciphers[0]? = some (soleDek 0) := by
    rw [stands.ciphers]
    rfl
  have encrypted := @alone_encrypts _ repeatedAead _ repeatedCall _ _ _ stands.slot held rfl
  have after := @reached_alone _ _ repeatedCall _ _ _ _ reached stands.free trivial 2
    fun _ _ => trivial
  rw [afterAlone, encrypted] at after
  refine ⟨_, after, ?_⟩
  simp only [stands.written]
  decide

end Wrapping

section Solo
variable {aead : Aead} {shared : Shared keys} {call : Call}

def Filled (shared : Shared keys) : Prop :=
  ∀ place, shared.slot = some place → ∃ dek, shared.ciphers[place]? = some dek

theorem filled_ask (filled : Filled shared) : Filled shared.ask.2 := by
  rw [ask_shared]
  exact filled

theorem filled_install (offer : Dek keys) : Filled (shared.install offer) := by
  intro place last
  cases last
  exact ⟨offer, by simp [Shared.install]⟩

theorem filled_encryptAt (filled : Filled shared) (place : Nat) :
    Filled (shared.encryptAt aead call place).2 := by
  unfold Shared.encryptAt
  split
  · exact filled
  · rename_i dek held
    intro other last
    obtain ⟨kept, found⟩ := filled other last
    rw [getElem?_charged held other]
    split
    · exact ⟨_, rfl⟩
    · exact ⟨kept, found⟩

theorem filled_next (filled : Filled shared) (phase : Phase keys) :
    Filled (shared.next aead phase).1 := by
  have asked := filled_ask filled
  cases phase with
  | idle => exact filled
  | done result => exact filled
  | reading call =>
    simp only [Shared.next]
    split <;> exact filled
  | asking call =>
    simp only [Shared.next]
    split <;> simp_all
  | installing call offer =>
    simp only [Shared.next]
    split
    · exact filled
    · exact filled_install offer
  | charging call place =>
    have charged := @filled_encryptAt _ aead _ call filled place
    simp only [Shared.next]
    split <;> simp_all
  | rolling call spent =>
    simp only [Shared.next]
    split
    · simp_all
    · split <;> simp_all
  | swapping call spent offer =>
    simp only [Shared.next]
    split
    · split
      · exact filled
      · exact filled_install offer
    · exact filled_install offer
  | recharging call place => exact filled_encryptAt filled place

theorem filled_run {budget : UInt64} {state : State keys}
    (reached : Reachable (Step aead) unrestricted (State.init keys budget) state) :
    Filled state.shared := by
  induction reached with
  | start => simp [Filled, State.init]
  | step _ _ taken ih =>
    cases taken with
    | call free => exact ih
    | run => exact filled_next ih _

/-- Between the calls of other threads, in any state they can lead to, the seven next moves
of a free thread, if they are all its own, end its call as the cache does when one thread at
a time uses it: with that result, that cache, and the other threads where they were. -/
theorem uninterrupted_call_agrees (aead : Aead) (budget : UInt64) {state : State keys}
    (reached : Reachable (Step aead) unrestricted (State.init keys budget) state) (thread : Nat)
    (free : (state.threads thread).isFree = true) (call : Call) :
    let outcome := state.shared.cache.seal aead call.nonce call.binding call.plaintext
    let last := afterAlone aead state thread call 7
    Reachable (Step aead) unrestricted state last ∧
      last.threads thread = .done outcome.1 ∧ last.shared.cache = outcome.2 ∧
      ∀ other ≠ thread, last.threads other = state.threads other := by
  obtain ⟨after, ended, same⟩ := @alone_seals _ aead _ call (filled_run reached)
  refine ⟨reached_alone .start free trivial fun _ _ => trivial, ?_, ?_,
    fun other apart => Function.update_of_ne apart _ _⟩
  · rw [afterAlone, ended]
    exact Function.update_self _ _ _
  · rw [afterAlone, ended]
    exact same

end Solo

section Rolled

/-- A source that rolls its key after the first request. -/
def rollsOnce : KeySource where
  activeKey turn := .ok (if turn = 0 then (block 16 1, block 32 7) else (block 16 2, block 32 8))
  key id :=
    if id = block 16 1 then .ok (block 32 7)
    else if id = block 16 2 then .ok (block 32 8)
    else .error (.unknownKey "dek")
  indexKey _ := .ok (block 32 7)
  key_of_active := by
    intro turn id dek answer
    split at answer
    · cases answer
      rfl
    · cases answer
      rfl

theorem rollsOnce_neverReoffers : NeverReoffers rollsOnce := by
  intro first second third id other key key' key'' before after offered offeredOther again
  have later : second ≠ 0 ∧ third ≠ 0 := by omega
  simp only [rollsOnce, later, if_false] at offeredOther again
  cases offeredOther
  cases again
  rfl

/-- Appends a tag of zeros. -/
def padded : Aead where
  encrypt _ _ _ plaintext := some (plaintext ++ List.replicate 16 0)
  decrypt _ _ _ ciphertext :=
    if 16 ≤ ciphertext.length then some (ciphertext.take (ciphertext.length - 16)) else none
  encrypt_length := by
    intro key nonce aad plaintext ciphertext encrypted
    cases encrypted
    simp
  decrypt_length := by
    intro key nonce aad ciphertext plaintext decrypted
    split at decrypted
    · cases decrypted
      simp only [List.length_take]
      omega
    · cases decrypted
  decrypt_encrypt := by
    intro key nonce aad plaintext ciphertext encrypted
    cases encrypted
    simp

theorem counterFits_of_used {state : State keys} (event : Event)
    (short : ∀ dek ∈ state.shared.ciphers, dek.cipher.used.toNat + 1 < 2 ^ 64) :
    CounterFits state event := by
  cases event with
  | call thread call => trivial
  | run thread =>
    intro call place dek _ held
    exact short dek (List.mem_of_getElem? held)

/-- Thread 0 has spent the only encryption of the first key, and thread 1 is about to charge
that same key. -/
def crossing : State rollsOnce :=
  let spent := afterAlone padded (State.init rollsOnce 1) 0 repeatedCall 4
  State.move padded ⟨spent.shared, Function.update spent.threads 1 (.reading repeatedCall)⟩ 1

theorem crossing_reached :
    Reachable (Step padded) CounterFits (State.init rollsOnce 1) crossing := by
  have spent : Reachable (Step padded) CounterFits (State.init rollsOnce 1)
      (afterAlone padded (State.init rollsOnce 1) 0 repeatedCall 4) := by
    refine reached_alone .start rfl trivial fun below less => counterFits_of_used _ ?_
    interval_cases below <;> decide
  have called : Step padded (afterAlone padded (State.init rollsOnce 1) 0 repeatedCall 4)
      (.call 1 repeatedCall) _ := .call rfl
  have reading := spent.step (counterFits_of_used _ (by decide)) called
  exact reading.step (counterFits_of_used (.run 1) (by decide)) .run

/-- Thread 0 finds the key spent, rolls it and seals under the next one; thread 1 is left
with the spent key in hand. -/
theorem rolled_call_agrees :
    let last := afterAlone padded crossing 0 repeatedCall 7
    last.threads 1 = .charging repeatedCall 0 ∧
      last.threads 0 = .done (.ok (assemble .v2 (block 16 2) (block 12 9)
        (List.replicate 17 65 ++ List.replicate 16 0))) ∧
      last.shared.cache = (crossing.shared.cache.seal padded repeatedCall.nonce
        repeatedCall.binding repeatedCall.plaintext).2 := by
  obtain ⟨_, ended, cached, others⟩ :=
    uninterrupted_call_agrees padded 1 crossing_reached.anyRun 0 rfl repeatedCall
  exact ⟨others 1 (by decide), ended, cached⟩

theorem rolled_call_within_budget :
    let state := afterAlone padded crossing 0 repeatedCall 7
    state.shared.written = [block 16 2, block 16 1] ∧
      (∀ id, state.shared.written.count id ≤ (1 : UInt64).toNat) ∧
      ∀ thread call spent key after, state.threads thread = .rolling call spent →
        rollsOnce.activeKey state.shared.turn = .ok (spent, key) →
        Step padded state (.run thread) after →
        after.threads thread = .done (.error (.keyExhausted spent)) ∧
          after.shared.written = state.shared.written := by
  refine ⟨rfl, budget_bounds_encryptions padded rollsOnce_neverReoffers 1 _ ?_⟩
  refine reached_alone crossing_reached rfl trivial fun below less => counterFits_of_used _ ?_
  interval_cases below <;> decide

end Rolled

end Dbsec.KeyBudget
