import Dbsec.IndexKeys

/-! All processes agree on a deterministic key, vault/src/source.rs. What everyone relies on
is that a record is never replaced, and that one created for a name of the shared map holds
that map's key. Whoever finds no record creates one of that kind or takes the one that won,
so every resolution ends with the key of the record that is there. -/
namespace Dbsec.IndexKeys
open Framing Calls Envelope

section Keys

theorem decodeKeyHex_hexEncode (key : Key) : decodeKeyHex (Text.hexEncode key.1) = .ok key := by
  rw [decodeKeyHex, Text.hexDecode_hexEncode]
  exact dif_pos key.2

theorem currentKey_first (key : Key) :
    (IndexKeyRecord.first (Text.hexEncode key.1)).currentKey = .ok key := by
  rw [IndexKeyRecord.currentKey, IndexKeyRecord.first]
  simp only [Table.get_put_self]
  exact decodeKeyHex_hexEncode key

theorem indexKeyPath_inj {path name other place : String}
    (here : indexKeyPath path name = .ok place)
    (there : indexKeyPath path other = .ok place) : name = other := by
  unfold indexKeyPath at here there
  split at here
  · cases here
  · split at there
    · cases there
    · have same := (Except.ok.inj here).trans (Except.ok.inj there).symm
      have texts := congrArg String.toList same
      simp only [String.toList_append] at texts
      exact String.toList_inj.mp (List.append_cancel_left texts)

end Keys

section Relied

/-- A record for a name is one the processes may create: if the shared map has the name,
it holds that key. -/
def Permitted (legacy : Option LegacyIndexKeys) (name : String) (record : IndexKeyRecord) : Prop :=
  ∀ keys hexKey, legacy = some keys → keys.get name = some hexKey →
    ∃ key, decodeKeyHex hexKey = .ok key ∧ record.currentKey = .ok key

def Shared.record (shared : Shared) (name : String) : Option IndexKeyRecord :=
  match indexKeyPath shared.path name with
  | .error _ => none
  | .ok place => shared.records.get place

def Held (shared : Shared) (name : String) (key : Key) : Prop :=
  ∃ record, shared.record name = some record ∧ record.currentKey = .ok key

/-- Whatever record there is for the name was created in the run. -/
def Adopted (shared : Shared) (name : String) : Prop :=
  ∀ record, shared.record name = some record → Permitted shared.legacy name record

structure Grows (before after : Shared) : Prop where
  path : after.path = before.path
  legacy : after.legacy = before.legacy
  kept : ∀ {name record}, before.record name = some record → after.record name = some record
  created : ∀ {name}, before.record name = none → Adopted after name
  pending : ∀ entry ∈ after.pending, entry ∈ before.pending ∨
    Permitted before.legacy entry.1 entry.2
  cached : ∀ {process name key}, after.caches.get (process, name) = some key →
    before.caches.get (process, name) = some key ∨ Held after name key

/-- What is cached is stored, and what may still arrive is permitted. -/
structure Sound (shared : Shared) : Prop where
  pending : ∀ entry ∈ shared.pending, Permitted shared.legacy entry.1 entry.2
  cached : ∀ {process name key}, shared.caches.get (process, name) = some key → Held shared name key

variable {before after : Shared} {name : String}

theorem Held.grows (grows : Grows before after) {key : Key} (held : Held before name key) :
    Held after name key := by
  obtain ⟨record, stored, read⟩ := held
  exact ⟨record, grows.kept stored, read⟩

theorem Adopted.grows (grows : Grows before after) (adopted : Adopted before name) :
    Adopted after name := by
  cases found : before.record name with
  | none => exact grows.created found
  | some record =>
    intro other stored
    rw [grows.kept found] at stored
    cases stored
    rw [grows.legacy]
    exact adopted record found

theorem Grows.refl (shared : Shared) : Grows shared shared where
  path := rfl
  legacy := rfl
  kept := id
  created := by
    intro name none record stored
    rw [none] at stored
    cases stored
  pending := fun _ => .inl
  cached := .inl

theorem Grows.trans {first second third : Shared} (one : Grows first second)
    (two : Grows second third) :
    Grows first third where
  path := two.path.trans one.path
  legacy := two.legacy.trans one.legacy
  kept := fun stored => two.kept (one.kept stored)
  created := fun none => (one.created none).grows two
  pending := by
    intro entry listed
    rcases two.pending entry listed with old | new
    · exact one.pending entry old
    · rw [one.legacy] at new
      exact .inr new
  cached := by
    intro process name key found
    rcases two.cached found with old | new
    · rcases one.cached old with older | held
      · exact .inl older
      · exact .inr (held.grows two)
    · exact .inr new

theorem Sound.grows (grows : Grows before after) (sound : Sound before) : Sound after where
  pending := by
    intro entry listed
    rw [grows.legacy]
    rcases grows.pending entry listed with old | new
    · exact sound.pending entry old
    · exact new
  cached := by
    intro process name key found
    rcases grows.cached found with old | new
    · exact (sound.cached old).grows grows
    · exact new

end Relied

section Creating

variable {shared : Shared} {name place : String} {record : IndexKeyRecord}

theorem record_at (usable : indexKeyPath shared.path name = .ok place) :
    shared.record name = shared.records.get place := by
  simp only [Shared.record, usable]

theorem create_won (usable : indexKeyPath shared.path name = .ok place)
    (absent : shared.record name = none) :
    (shared.create place record).record name = some record := by
  rw [record_at usable] at absent
  simp only [Shared.create, absent, Shared.record, usable, Table.get_put_self]

theorem create_lost (usable : indexKeyPath shared.path name = .ok place) {held : IndexKeyRecord}
    (present : shared.record name = some held) : shared.create place record = shared := by
  rw [record_at usable] at present
  simp only [Shared.create, present]

theorem create_other (usable : indexKeyPath shared.path name = .ok place) {other : String}
    (different : other ≠ name) :
    (shared.create place record).record other = shared.record other := by
  have same : (shared.create place record).path = shared.path := rfl
  unfold Shared.record
  rw [same]
  cases elsewhere : indexKeyPath shared.path other with
  | error _ => rfl
  | ok there =>
    have apart : place ≠ there := by
      rintro rfl
      exact different (indexKeyPath_inj elsewhere usable)
    dsimp only [Shared.create]
    split
    · exact Table.get_put_ne _ _ apart
    · rfl

theorem create_grows (usable : indexKeyPath shared.path name = .ok place)
    (permitted : Permitted shared.legacy name record) :
    Grows shared (shared.create place record) where
  path := rfl
  legacy := rfl
  kept := by
    intro other held stored
    by_cases same : other = name
    · subst same
      rw [create_lost usable stored]
      exact stored
    · rw [create_other usable same]
      exact stored
  created := by
    intro other absent found stored
    by_cases same : other = name
    · subst same
      rw [create_won usable absent] at stored
      cases stored
      exact permitted
    · rw [create_other usable same, absent] at stored
      cases stored
  pending := fun _ => .inl
  cached := .inl

theorem postpone_grows (permitted : Permitted shared.legacy name record) :
    Grows shared { shared with pending := shared.pending ++ [(name, record)] } where
  path := rfl
  legacy := rfl
  kept := id
  created := (Grows.refl shared).created
  pending := by
    intro entry listed
    rcases List.mem_append.mp listed with old | new
    · exact .inl old
    · obtain rfl := List.mem_singleton.mp new
      exact .inr permitted
  cached := .inl

theorem arrive_grows (sound : Sound shared) (index : Nat) : Grows shared (arrive shared index) := by
  unfold arrive
  split
  · exact Grows.refl shared
  · rename_i name record found
    have permitted := sound.pending _ (List.mem_of_getElem? found)
    split
    · exact Grows.refl shared
    · rename_i path usable
      have grows := create_grows usable permitted
      exact
        { path := grows.path
          legacy := grows.legacy
          kept := grows.kept
          created := grows.created
          pending := fun entry listed => .inl (List.mem_of_mem_eraseIdx listed)
          cached := grows.cached }

theorem remember_grows {process : Nat} {key : Key} (held : Held shared name key) :
    Grows shared { shared with caches := shared.caches.put (process, name) key } where
  path := rfl
  legacy := rfl
  kept := id
  created := (Grows.refl shared).created
  pending := fun _ => .inl
  cached := by
    intro other asked value found
    rw [Table.get_put] at found
    split at found
    · rename_i same
      cases found
      cases same
      exact .inr held
    · exact .inl found

end Creating

section Resolving

def Unlisted (shared : Shared) (name : String) : Prop :=
  ∀ keys, shared.legacy = some keys → keys.get name = none

abbrev Does {α : Type} (goal : Shared → α → Prop) (program : Program store α)
    (shared : Shared) : Prop :=
  Meets processes Grows Sound goal program shared

theorem Fate.reply_ok {α : Type} {fate : Fate} {answer found : α}
    (replied : fate.reply answer = .ok found) :
    found = answer := by
  unfold Fate.reply at replied
  split at replied
  · exact (Except.ok.inj replied).symm
  · cases replied

variable {shared : Shared}

theorem attempt_does {α : Type} {goal : Shared → Except KeyError α → Prop}
    {result : Except KeyError α} (ends : goal shared result) :
    Does goal (attempt result).run shared := ends

theorem read_does (name : String) (shared : Shared) :
    Does (fun after reply => ∀ found, reply = .ok found → after.record name = found)
      (readIndexKey name).run shared := by
  intro later within sound fate
  refine ⟨Grows.refl later, fun found replied => ?_⟩
  change later.readIndexKey name fate = .ok found at replied
  change later.record name = found
  unfold Shared.readIndexKey at replied
  split at replied
  · cases replied
  · rename_i place usable
    rw [record_at usable]
    exact (Fate.reply_ok replied).symm

theorem legacy_does (shared : Shared) :
    Does (fun after reply => Grows shared after ∧ ∀ found, reply = .ok found → after.legacy = found)
      readLegacyIndexKeys.run shared := by
  intro later within sound fate
  exact ⟨Grows.refl later, within, fun found replied => (Fate.reply_ok replied).symm⟩

theorem fill_does (shared : Shared) :
    Does (fun after _ => Grows shared after) tryFillBytes.run shared := by
  intro later within sound fate
  exact ⟨Grows.refl later, within⟩

variable {name : String}

theorem create_does {record : IndexKeyRecord} (permitted : Permitted shared.legacy name record) :
    Does (fun after reply => Grows shared after ∧ ∀ won, reply = .ok won →
        ∃ held, after.record name = some held ∧ (won = true → held = record))
      (createIndexKey name record).run shared := by
  intro later within sound fate
  rw [← within.legacy] at permitted
  change Grows later (later.createIndexKey name record fate).1 ∧
    Grows shared (later.createIndexKey name record fate).1 ∧ ∀ won,
      (later.createIndexKey name record fate).2 = .ok won → ∃ held,
        (later.createIndexKey name record fate).1.record name = some held ∧
          (won = true → held = record)
  unfold Shared.createIndexKey
  cases usable : indexKeyPath later.path name with
  | error error => exact ⟨Grows.refl later, within, nofun⟩
  | ok place =>
    have grows := create_grows usable permitted
    have postponed := postpone_grows permitted
    dsimp only
    split
    · refine ⟨grows, within.trans grows, fun won replied => ?_⟩
      cases replied
      cases present : later.record name with
      | none => exact ⟨record, create_won usable present, fun _ => rfl⟩
      | some held =>
        refine ⟨held, grows.kept present, fun won => ?_⟩
        rw [record_at usable] at present
        rw [present] at won
        cases won
    · exact ⟨Grows.refl later, within, nofun⟩
    · exact ⟨grows, within.trans grows, nofun⟩
    · exact ⟨postponed, within.trans postponed, nofun⟩

theorem adopt_does (adopted : Adopted shared name) :
    Does (fun after reply => (∀ key, reply = .ok (some key) → Held after name key) ∧
        (reply = .ok none → Unlisted after name))
      (adoptLegacyIndexKey name).run shared := by
  unfold adoptLegacyIndexKey
  apply Meets.andThen
  apply (legacy_does shared).weaken
  rintro after reply ⟨within, read⟩
  cases reply with
  | error error => exact ⟨nofun, nofun⟩
  | ok found =>
    have legacy := read found rfl
    cases found with
    | none =>
      refine ⟨nofun, fun _ keys listed => ?_⟩
      rw [legacy] at listed
      cases listed
    | some keys =>
      dsimp only
      cases listed : keys.get name with
      | none =>
        refine ⟨nofun, fun _ others same => ?_⟩
        rw [legacy] at same
        cases same
        exact listed
      | some hexKey =>
        refine Meets.andThen (attempt_does ?_)
        cases decoded : decodeKeyHex hexKey with
        | error error => exact ⟨nofun, nofun⟩
        | ok key =>
          have permitted : Permitted after.legacy name
              (IndexKeyRecord.first (Text.hexEncode key.1)) := by
            intro others other same found
            rw [legacy] at same
            cases same
            rw [listed] at found
            cases found
            exact ⟨key, decoded, currentKey_first key⟩
          refine Meets.andThen ((create_does permitted).weaken ?_)
          rintro last reply ⟨further, answered⟩
          cases reply with
          | error error => exact ⟨nofun, nofun⟩
          | ok won =>
            -- Won or lost: what is stored was permitted, so it is the map's key.
            refine ⟨fun found same => ?_, nofun⟩
            cases same
            obtain ⟨held, stored, -⟩ := answered won rfl
            have mine := (adopted.grows (within.trans further)) held stored
            rw [further.legacy, legacy] at mine
            obtain ⟨other, again, current⟩ := mine keys hexKey rfl listed
            rw [decoded] at again
            cases again
            exact ⟨held, stored, current⟩

theorem resolve_does (name : String) (shared : Shared) :
    Does (fun after reply => ∀ key, reply = .ok key → Held after name key)
      (resolveIndexKey name).run shared := by
  unfold resolveIndexKey
  refine Meets.andThen ((read_does name shared).weaken ?_)
  intro after reply read
  cases reply with
  | error error => exact nofun
  | ok found =>
    have stored := read found rfl
    cases found with
    | some record =>
      exact attempt_does fun key current => ⟨record, stored, current⟩
    | none =>
      have adopted : Adopted after name := by
        intro record present
        rw [stored] at present
        cases present
      refine Meets.andThen ((adopt_does adopted).weaken ?_)
      rintro middle reply ⟨taken, unlisted⟩
      cases reply with
      | error error => exact nofun
      | ok found =>
        cases found with
        | some key =>
          intro other same
          cases same
          exact taken key rfl
        | none =>
          -- Nothing to adopt, so any key is permitted.
          refine Meets.andThen ((fill_does middle).weaken ?_)
          intro drawn reply further
          cases reply with
          | error error => exact nofun
          | ok fresh =>
            have permitted : Permitted drawn.legacy name
                (IndexKeyRecord.first (Text.hexEncode fresh.1)) := by
              intro keys hexKey listed found
              rw [further.legacy] at listed
              rw [unlisted rfl keys listed] at found
              cases found
            refine Meets.andThen ((create_does permitted).weaken ?_)
            rintro last reply ⟨-, answered⟩
            cases reply with
            | error error => exact nofun
            | ok won =>
              obtain ⟨held, present, mine⟩ := answered won rfl
              cases won with
              | true =>
                intro key same
                cases same
                cases mine rfl
                exact ⟨_, present, currentKey_first fresh⟩
              | false =>
                refine Meets.andThen ((read_does name last).weaken ?_)
                intro again reply read
                cases reply with
                | error error => exact nofun
                | ok found =>
                  have winner := read found rfl
                  cases found with
                  | none => exact nofun
                  | some record =>
                    exact attempt_does fun key current => ⟨record, winner, current⟩

/-- However it ends, a key that comes out is the stored record's. -/
def Resolved (request : Request) (shared : Shared) (result : Except KeyError Key) : Prop :=
  ∀ key, result = .ok key → Held shared request.name key

theorem cached_does (process : Nat) (name : String) (shared : Shared) :
    Does (fun after reply => ∀ key, reply = .ok (some key) → Held after name key)
      (cachedIndexKey process name).run shared := by
  intro later within sound fate
  refine ⟨Grows.refl later, fun key found => ?_⟩
  exact sound.cached (Except.ok.inj found)

theorem remember_does {process : Nat} {key : Key} (held : Held shared name key) :
    Does (fun after _ => Held after name key) (rememberIndexKey process name key).run shared := by
  intro later within sound fate
  have stored := @remember_grows later name process key (held.grows within)
  exact ⟨stored, (held.grows within).grows stored⟩

theorem indexKey_does (request : Request) (shared : Shared) :
    Does (Resolved request) (indexKey request).run shared := by
  unfold indexKey
  refine Meets.andThen ((cached_does request.process request.name shared).weaken ?_)
  intro after reply cached
  cases reply with
  | error error => exact nofun
  | ok found =>
    cases found with
    | some key =>
      intro other same
      cases same
      exact cached key rfl
    | none =>
      dsimp only
      split
      · exact nofun
      · refine Meets.andThen ((resolve_does request.name after).weaken ?_)
        intro last reply held
        cases reply with
        | error error => exact nofun
        | ok key =>
          refine Meets.andThen ((remember_does (held key rfl)).weaken ?_)
          intro final reply stored
          cases reply with
          | error error => exact nofun
          | ok _ =>
            intro other same
            cases same
            exact stored

end Resolving

section Calling

def Failed : Exchange store → Prop
  | ⟨.readIndexKey _, reply⟩ => ∃ error, reply = .error error
  | ⟨.createIndexKey _ _, reply⟩ => ∃ error, reply = .error error
  | ⟨.readLegacyIndexKeys, reply⟩ => ∃ error, reply = .error error
  | ⟨.fillBytes, reply⟩ => ∃ error, reply = .error error
  | ⟨.cached _ _, _⟩ => False
  | ⟨.remember _ _ _, _⟩ => False

def Clean (past : List (Exchange store)) : Prop := ∀ exchange ∈ past, ¬ Failed exchange

def ReadAbsent (past : List (Exchange store)) (name : String) : Prop :=
  ⟨.readIndexKey name, .ok none⟩ ∈ past

/-- Where a created record's key comes from: the shared map as it was read, or the entropy
source once that map was read and does not name the key. -/
def Sourced (past : List (Exchange store)) (name : String) (record : IndexKeyRecord) : Prop :=
  ∃ legacy : Option LegacyIndexKeys, ⟨.readLegacyIndexKeys, .ok legacy⟩ ∈ past ∧ ∃ key : Key,
    record = IndexKeyRecord.first (Text.hexEncode key.1) ∧
      ((∃ keys hexKey, legacy = some keys ∧ keys.get name = some hexKey ∧
        decodeKeyHex hexKey = .ok key) ∨
        (∀ keys, legacy = some keys → keys.get name = none) ∧ ⟨.fillBytes, .ok key⟩ ∈ past)

/-- A resolution calls on its own name only, never after a failure, and creates nothing
but where the store confirmed there is no record. -/
def MayCall (request : Request) (past : List (Exchange store)) (call : Call) : Prop :=
  Clean past ∧
    match call with
    | .cached process name => process = request.process ∧ name = request.name
    | .remember process name _ => process = request.process ∧ name = request.name
    | .readIndexKey name => name = request.name
    | .createIndexKey name record =>
      name = request.name ∧ ReadAbsent past name ∧ Sourced past name record
    | .readLegacyIndexKeys => ReadAbsent past request.name
    | .fillBytes => ReadAbsent past request.name

def Ended {α : Type} (past : List (Exchange store)) (result : Except KeyError α) : Prop :=
  Clean past ∨ ∃ error, result = .error error

theorem clean_nil : Clean [] := fun _ listed => absurd listed List.not_mem_nil

theorem Clean.snoc {past : List (Exchange store)} (clean : Clean past) {exchange : Exchange store}
    (answered : ¬ Failed exchange) : Clean (past ++ [exchange]) := by
  intro other listed
  rcases List.mem_append.mp listed with old | new
  · exact clean other old
  · obtain rfl := List.mem_singleton.mp new
    exact answered

variable {request : Request} {past : List (Exchange store)}

theorem ask_guarded (call : Call) {ends : List (Exchange store) → Reply call → Prop}
    (may : MayCall request past call) (goes : ∀ reply, ends (past ++ [⟨call, reply⟩]) reply) :
    Guarded (MayCall request) ends past (@Program.ask store call) := ⟨may, goes⟩

theorem attempt_guarded {α : Type} {ends : List (Exchange store) → Except KeyError α → Prop}
    {result : Except KeyError α} (goes : ends past result) :
    Guarded (MayCall request) ends past (attempt result).run := goes

theorem adopt_guarded (request : Request) (clean : Clean past)
    (absent : ReadAbsent past request.name) :
    Guarded (MayCall request) (fun after reply =>
        (∃ error, reply = .error error) ∨ Clean after ∧ ReadAbsent after request.name ∧
          (reply = .ok none → ∃ legacy : Option LegacyIndexKeys,
            ⟨.readLegacyIndexKeys, .ok legacy⟩ ∈ after ∧
              ∀ keys, legacy = some keys → keys.get request.name = none))
      past (adoptLegacyIndexKey request.name).run := by
  unfold adoptLegacyIndexKey
  refine Guarded.andThen (ask_guarded .readLegacyIndexKeys ⟨clean, absent⟩ fun reply => ?_)
  cases reply with
  | error error => exact .inl ⟨error, rfl⟩
  | ok found =>
    have read : (⟨.readLegacyIndexKeys, .ok found⟩ : Exchange store) ∈
        past ++ [⟨.readLegacyIndexKeys, .ok found⟩] := List.mem_append_right _ List.mem_cons_self
    have still : Clean (past ++ [⟨.readLegacyIndexKeys, .ok found⟩]) := clean.snoc nofun
    have unheld : ReadAbsent (past ++ [⟨.readLegacyIndexKeys, .ok found⟩]) request.name :=
      List.mem_append_left _ absent
    cases found with
    | none => exact .inr ⟨still, unheld, fun _ => ⟨none, read, nofun⟩⟩
    | some keys =>
      dsimp only
      cases listed : keys.get request.name with
      | none =>
        refine .inr ⟨still, unheld, fun _ => ⟨some keys, read, fun others same => ?_⟩⟩
        cases same
        exact listed
      | some hexKey =>
        refine Guarded.andThen (attempt_guarded ?_)
        cases decoded : decodeKeyHex hexKey with
        | error error => exact .inl ⟨error, rfl⟩
        | ok key =>
          refine Guarded.andThen (ask_guarded (.createIndexKey _ _) ⟨still, rfl, unheld, some keys,
            read, key, rfl, .inl ⟨keys, hexKey, rfl, listed, decoded⟩⟩ fun reply => ?_)
          cases reply with
          | error error => exact .inl ⟨error, rfl⟩
          | ok won => exact .inr ⟨still.snoc nofun, List.mem_append_left _ unheld, nofun⟩

theorem resolve_guarded (request : Request) (clean : Clean past) :
    Guarded (MayCall request) Ended past (resolveIndexKey request.name).run := by
  unfold resolveIndexKey
  refine Guarded.andThen (ask_guarded (.readIndexKey _) ⟨clean, rfl⟩ fun reply => ?_)
  cases reply with
  | error error => exact .inr ⟨error, rfl⟩
  | ok found =>
    have still : Clean (past ++ [⟨.readIndexKey request.name, .ok found⟩]) := clean.snoc nofun
    cases found with
    | some record => exact .inl still
    | none =>
      apply Guarded.andThen
      apply (adopt_guarded request still (List.mem_append_right _ List.mem_cons_self)).weaken
      rintro after reply (⟨error, rfl⟩ | ⟨clean, absent, unlisted⟩)
      · exact .inr ⟨error, rfl⟩
      · cases reply with
        | error error => exact .inr ⟨error, rfl⟩
        | ok found =>
          cases found with
          | some key => exact .inl clean
          | none =>
            obtain ⟨legacy, read, unlisted⟩ := unlisted rfl
            refine Guarded.andThen (ask_guarded .fillBytes ⟨clean, absent⟩ fun reply => ?_)
            cases reply with
            | error error => exact .inr ⟨error, rfl⟩
            | ok fresh =>
              have drawn : Clean (after ++ [⟨.fillBytes, .ok fresh⟩]) := clean.snoc nofun
              refine Guarded.andThen (ask_guarded (.createIndexKey _ _) ⟨drawn, rfl,
                List.mem_append_left _ absent, legacy, List.mem_append_left _ read, fresh, rfl,
                .inr ⟨unlisted, List.mem_append_right _ List.mem_cons_self⟩⟩ fun reply => ?_)
              cases reply with
              | error error => exact .inr ⟨error, rfl⟩
              | ok won =>
                have created := @Clean.snoc _ drawn ⟨.createIndexKey request.name
                  (IndexKeyRecord.first (Text.hexEncode fresh.1)), .ok won⟩ nofun
                cases won with
                | true => exact .inl created
                | false =>
                  -- Another process was first, and its record is read.
                  refine Guarded.andThen
                    (ask_guarded (.readIndexKey _) ⟨created, rfl⟩ fun reply => ?_)
                  cases reply with
                  | error error => exact .inr ⟨error, rfl⟩
                  | ok found =>
                    cases found with
                    | none => exact .inr ⟨_, rfl⟩
                    | some record => exact .inl (created.snoc nofun)

theorem indexKey_guarded (request : Request) :
    Guarded (MayCall request) Ended [] (indexKey request).run := by
  unfold indexKey
  apply Guarded.andThen
  refine ⟨⟨clean_nil, rfl, rfl⟩, fun held => ?_⟩
  change Guarded (MayCall request) Ended ([] ++ [⟨.cached request.process request.name, held⟩])
    (ExceptT.run _)
  have clean : Clean ([] ++ [⟨.cached request.process request.name, held⟩]) :=
    clean_nil.snoc nofun
  cases held with
  | some key => exact .inl clean
  | none =>
    dsimp only
    split
    · exact .inr ⟨_, rfl⟩
    · apply Guarded.andThen
      apply (resolve_guarded request clean).weaken
      intro after reply ended
      cases reply with
      | error error => exact .inr ⟨error, rfl⟩
      | ok key =>
        have clean : Clean after := by
          rcases ended with clean | ⟨error, same⟩
          · exact clean
          · cases same
        apply Guarded.andThen
        exact ⟨⟨clean, rfl, rfl⟩, fun _ => .inl (clean.snoc nofun)⟩

end Calling

section Agreement

/-- A store as the processes find it, nothing cached and nothing under way. -/
def Shared.opened (path : String) (records : Table String IndexKeyRecord)
    (legacy : Option LegacyIndexKeys) : Shared := ⟨path, records, legacy, Table.empty, []⟩

theorem processes_reliable : Reliable processes Grows Sound Resolved where
  reflexive := Grows.refl
  transitive := Grows.trans
  keeps := Sound.grows
  stable := fun grows resolved key same => (resolved key same).grows grows
  drifts := fun index sound => arrive_grows sound index
  starts := indexKey_does

theorem opened_sound (path : String) (records : Table String IndexKeyRecord)
    (legacy : Option LegacyIndexKeys) : Sound (Shared.opened path records legacy) where
  pending := nofun
  cached := by
    intro process name key found
    cases found

abbrev Processes := Calls.State store Request (Except KeyError Key) Shared

variable {shared : Shared} {name : String}

theorem serve_other {request : Request} {past : List (Exchange store)} {call : Call} (fate : Fate)
    (may : MayCall request past call) (other : name ≠ request.name) :
    (serve shared call fate).1.record name = shared.record name := by
  cases call with
  | createIndexKey asked record =>
    obtain ⟨-, rfl, -⟩ := may
    change (shared.createIndexKey request.name record fate).1.record name = shared.record name
    unfold Shared.createIndexKey
    split
    · rfl
    · rename_i place usable
      split
      · exact create_other usable other
      · rfl
      · exact create_other usable other
      · rfl
  | cached process asked => rfl
  | remember process asked key => rfl
  | readIndexKey asked => rfl
  | readLegacyIndexKeys => rfl
  | fillBytes => rfl

theorem arrive_other {index : Nat} {owner : String} {record : IndexKeyRecord}
    (found : shared.pending[index]? = some (owner, record)) (other : name ≠ owner) :
    (arrive shared index).record name = shared.record name := by
  unfold arrive
  rw [found]
  dsimp only
  split
  · rfl
  · rename_i place usable
    exact create_other usable other

/-- The name an event resolves: a task's own, or that of a create that arrives late. -/
def Concerns (state : Processes) : Event Request Fate Nat → String → Prop
  | .start _, _ => False
  | .advance place _, name => ∃ task, state.tasks[place]? = some task ∧ task.label.name = name
  | .drift index, name => ∃ record, state.shared.pending[index]? = some (name, record)

theorem step_other {state after : Processes} {event : Event Request Fate Nat}
    (guarded : ∀ task ∈ state.tasks, Guarded (MayCall task.label) Ended task.history task.program)
    (taken : processes.Step state event after) (other : ¬ Concerns state event name) :
    after.shared.record name = state.shared.record name := by
  obtain rfl := taken
  cases event with
  | start request => rfl
  | advance place fate =>
    unfold Machine.next
    dsimp only
    cases found : state.tasks[place]? with
    | none => rfl
    | some task =>
      have mine := guarded task (List.mem_of_getElem? found)
      have apart : name ≠ task.label.name := fun same => other ⟨task, found, same.symm⟩
      obtain ⟨label, history, program⟩ := task
      cases program with
      | done result => rfl
      | call request next => exact serve_other fate mine.1 apart
  | drift index =>
    cases found : state.shared.pending[index]? with
    | none =>
      change (arrive state.shared index).record name = state.shared.record name
      rw [arrive, found]
    | some entry =>
      exact arrive_other found fun same => other ⟨entry.2, by rw [found, same]⟩

theorem failure_ends {task : Task store Request (Except KeyError Key)}
    (allowed : Allowed (MayCall task.label) task.history)
    (guarded : Guarded (MayCall task.label) Ended task.history task.program)
    {before after : List (Exchange store)} {exchange : Exchange store}
    (split : task.history = before ++ exchange :: after) (failed : Failed exchange) :
    after = [] ∧ ∃ error, task.program = .done (.error error) := by
  have unclean : ¬ Clean task.history := by
    intro clean
    rw [split] at clean
    exact clean exchange (List.mem_append_right _ List.mem_cons_self) failed
  constructor
  · cases after with
    | nil => rfl
    | cons next rest =>
      exfalso
      have may := allowed (before ++ [exchange]) next rest (by rw [split]; simp)
      exact may.1 exchange (List.mem_append_right _ List.mem_cons_self) failed
  · cases left : task.program with
    | done result =>
      rw [left] at guarded
      rcases guarded with clean | ⟨error, rfl⟩
      · exact absurd clean unclean
      · exact ⟨error, rfl⟩
    | call request next =>
      rw [left] at guarded
      exact absurd guarded.1.1 unclean

/-- All processes agree. In every interleaving, with any failures, a resolution that
succeeds has the key of its name's stored record, so all that succeed for one name have the
same key: the shared map's, if it names one and there was no record. No record is ever
replaced, no step touches another name's, and a key is created only where the store
confirmed there is none, never after a call that failed. -/
theorem index_keys_agree (path : String) (records : Table String IndexKeyRecord)
    (legacy : Option LegacyIndexKeys) {state : Processes}
    (reached :
      Reachable processes.Step unrestricted ⟨Shared.opened path records legacy, []⟩ state) :
    (∀ task ∈ state.tasks, ∀ key, task.program = .done (.ok key) →
        Held state.shared task.label.name key ∧
        (∀ other ∈ state.tasks, ∀ otherKey, other.label.name = task.label.name →
          other.program = .done (.ok otherKey) → otherKey = key) ∧
        ∀ keys hexKey, (Shared.opened path records legacy).record task.label.name = none →
          legacy = some keys → keys.get task.label.name = some hexKey →
            decodeKeyHex hexKey = .ok key) ∧
      (∀ task ∈ state.tasks, ∀ before after : List (Exchange store),
        (∀ exchange, task.history = before ++ exchange :: after → Failed exchange →
          after = [] ∧ ∃ error, task.program = .done (.error error)) ∧
        ∀ name record reply,
          task.history = before ++ ⟨.createIndexKey name record, reply⟩ :: after →
          Clean before ∧ ReadAbsent before name ∧ Sourced before name record) ∧
      ∀ event after, processes.Step state event after → ∀ name,
        (∀ record, state.shared.record name = some record →
          after.shared.record name = some record) ∧
        (¬ Concerns state event name → after.shared.record name = state.shared.record name) := by
  have sound := opened_sound path records legacy
  obtain ⟨grown, met⟩ := run_met processes_reliable sound reached
  have called := run_guarded (fun request => indexKey_guarded request) reached
  have held : ∀ task ∈ state.tasks, ∀ key, task.program = .done (.ok key) →
      Held state.shared task.label.name key := by
    intro task listed key ended
    have meets := met.2 task listed
    rw [ended] at meets
    exact meets key rfl
  refine ⟨?_, ?_, ?_⟩
  · intro task listed key ended
    obtain ⟨record, stored, current⟩ := held task listed key ended
    refine ⟨⟨record, stored, current⟩, ?_, ?_⟩
    · intro other present otherKey same finished
      obtain ⟨again, found, read⟩ := held other present otherKey finished
      rw [same, stored] at found
      cases found
      rw [current] at read
      exact (Except.ok.inj read).symm
    · intro keys hexKey absent shared named
      obtain ⟨mapped, decoded, read⟩ := grown.created absent record stored keys hexKey
        (grown.legacy.trans shared) named
      rw [current] at read
      cases read
      exact decoded
  · intro task listed before after
    obtain ⟨allowed, guarded⟩ := called task listed
    refine ⟨fun exchange split failed => failure_ends allowed guarded split failed, ?_⟩
    intro name record reply split
    obtain ⟨clean, -, absent, sourced⟩ := allowed before _ after split
    exact ⟨clean, absent, sourced⟩
  · intro event after taken name
    refine ⟨fun record stored => (step_met processes_reliable met taken).1.kept stored, ?_⟩
    exact step_other (fun task listed => (called task listed).2) taken

def repeatedKey (byte : UInt8) : Key := ⟨List.replicate 32 byte, by simp⟩

def calm (byte : UInt8) : Fate := ⟨none, .never, repeatedKey byte⟩

/-- Two processes find no record and draw a key each; the second creates its record first. -/
def race : List (Event Request Fate Nat) :=
  [.start ⟨0, .multiThread, "email"⟩, .start ⟨1, .multiThread, "email"⟩] ++
    List.replicate 4 (.advance 0 (calm 9)) ++ List.replicate 6 (.advance 1 (calm 7)) ++
    List.replicate 3 (.advance 0 (calm 9))

def raced : Processes := race.foldl processes.next ⟨Shared.opened "kv" Table.empty none, []⟩

theorem race_agrees : raced.tasks.map Task.program =
      [.done (.ok (repeatedKey 7)), .done (.ok (repeatedKey 7))] ∧
    ∃ task ∈ raced.tasks, task.label.name = "email" ∧
      Held raced.shared "email" (repeatedKey 7) := by
  have agreed := index_keys_agree "kv" Table.empty none (reachable_events processes _ race)
  obtain ⟨task, rest, listed⟩ : ∃ task rest, raced.tasks = task :: rest := ⟨_, _, rfl⟩
  have member : task ∈ raced.tasks := by
    rw [listed]
    exact List.mem_cons_self
  have programs : raced.tasks.map Task.program =
      [.done (.ok (repeatedKey 7)), .done (.ok (repeatedKey 7))] := rfl
  have labels : raced.tasks.map Task.label =
      [⟨0, .multiThread, "email"⟩, ⟨1, .multiThread, "email"⟩] := rfl
  rw [listed, List.map_cons] at programs labels
  have named : task.label.name = "email" := congrArg Request.name (List.cons.inj labels).1
  have held := (agreed.1 task member (repeatedKey 7) (List.cons.inj programs).1).1
  rw [named] at held
  exact ⟨rfl, task, member, named, held⟩

end Agreement

end Dbsec.IndexKeys
