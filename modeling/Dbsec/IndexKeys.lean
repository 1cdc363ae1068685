import Dbsec.Calls
import Dbsec.Table
import Dbsec.Envelope
import Dbsec.Text

/-! Deterministic index keys, vault/src/source.rs: one record per name, created only when
the store confirms there is none, or copied out of the older map shared by all names. Each
await of the source is a call here, and a call may fail before or after it took effect, or
take effect only later, when its caller has long given up. -/
namespace Dbsec.IndexKeys
open Framing Calls Envelope

inductive KeyError where
  | keySource (message : String)
  /-- A failure of the backend, or of decoding what it stored, with its cause. -/
  | keyBackend (context cause : String)
  | entropy (cause : String)
  | unusableName (name : String)
  deriving DecidableEq

def decodeKeyHex (encoded : List Char) : Except KeyError Key :=
  match Text.hexDecode encoded with
  | none => .error (.keyBackend "stored index key is not valid hex" "hex")
  | some raw =>
    if size : raw.length = 32 then .ok ⟨raw, size⟩
    else .error (.keySource "stored index key must be 32 bytes")

structure IndexKeyRecord where
  current : Nat
  versions : Table Nat (List Char)

namespace IndexKeyRecord

def first (hexKey : List Char) : IndexKeyRecord := ⟨1, Table.empty.put 1 hexKey⟩

def currentKey (record : IndexKeyRecord) : Except KeyError Key :=
  let version := record.current
  match record.versions.get version with
  | none => .error (.keySource s!"stored index key names version {version} but does not carry it")
  | some hexKey => decodeKeyHex hexKey

end IndexKeyRecord

abbrev LegacyIndexKeys := Table String (List Char)

def indexKeyPath (path name : String) : Except KeyError String :=
  if name = "" ∨ '/' ∈ name.toList ∨ name = "." ∨ name = ".." then .error (.unusableName name)
  else .ok (path ++ "/index_keys/" ++ name)

section Store

/-- The store's calls, the entropy source and the process's own cache. -/
inductive Call where
  | cached (process : Nat) (name : String)
  | remember (process : Nat) (name : String) (key : Key)
  | readIndexKey (name : String)
  | createIndexKey (name : String) (record : IndexKeyRecord)
  | readLegacyIndexKeys
  | fillBytes

def Reply : Call → Type
  | .cached _ _ => Option Key
  | .remember _ _ _ => Unit
  | .readIndexKey _ => Except KeyError (Option IndexKeyRecord)
  | .createIndexKey _ _ => Except KeyError Bool
  | .readLegacyIndexKeys => Except KeyError (Option LegacyIndexKeys)
  | .fillBytes => Except KeyError Key

abbrev store : Interface := ⟨Call, Reply⟩

/-- When a create whose caller is told of a failure takes effect. -/
inductive Effect where
  | never
  | now
  | later
  deriving DecidableEq

/-- How a call turns out. A timeout is a failure like any other. -/
structure Fate where
  failure : Option KeyError
  effect : Effect
  fresh : Key

structure Shared where
  path : String
  records : Table String IndexKeyRecord
  /-- The map shared by all names; nothing here writes to it. -/
  legacy : Option LegacyIndexKeys
  caches : Table (Nat × String) Key
  /-- Creates that were given up but may still arrive. -/
  pending : List (String × IndexKeyRecord)

def Shared.create (shared : Shared) (place : String) (record : IndexKeyRecord) : Shared :=
  { shared with
    records :=
      match shared.records.get place with
      | none => shared.records.put place record
      | some _ => shared.records }

def Fate.reply {α : Type} (fate : Fate) (answer : α) : Except KeyError α :=
  match fate.failure with
  | none => .ok answer
  | some error => .error error

def Shared.readIndexKey (shared : Shared) (name : String) (fate : Fate) :
    Except KeyError (Option IndexKeyRecord) :=
  match indexKeyPath shared.path name with
  | .error error => .error error
  | .ok place => fate.reply (shared.records.get place)

/-- Told of a conflict, the caller gets `false`; told of a failure, it cannot know more. -/
def Shared.createIndexKey (shared : Shared) (name : String) (record : IndexKeyRecord)
    (fate : Fate) :
    Shared × Except KeyError Bool :=
  match indexKeyPath shared.path name with
  | .error error => (shared, .error error)
  | .ok place =>
    match fate.failure, fate.effect with
    | none, _ => (shared.create place record, .ok (shared.records.get place).isNone)
    | some error, .never => (shared, .error error)
    | some error, .now => (shared.create place record, .error error)
    | some error, .later =>
      ({ shared with pending := shared.pending ++ [(name, record)] }, .error error)

def serve (shared : Shared) : (request : Call) → Fate → Shared × Reply request
  | .cached process name, _ => (shared, shared.caches.get (process, name))
  | .remember process name key, _ =>
    ({ shared with caches := shared.caches.put (process, name) key }, ())
  | .readIndexKey name, fate => (shared, shared.readIndexKey name fate)
  | .createIndexKey name record, fate => shared.createIndexKey name record fate
  | .readLegacyIndexKeys, fate => (shared, fate.reply shared.legacy)
  | .fillBytes, fate => (shared, fate.reply fate.fresh)

/-- A create that was given up arrives after all. -/
def arrive (shared : Shared) (place : Nat) : Shared :=
  match shared.pending[place]? with
  | none => shared
  | some (name, record) =>
    match indexKeyPath shared.path name with
    | .error _ => shared
    | .ok path => { shared.create path record with pending := shared.pending.eraseIdx place }

end Store

section Resolution

/-- Each `await?` of the source: a failure ends the whole resolution. -/
abbrev Attempt := ExceptT KeyError (Program store)

def attempt {α : Type} (result : Except KeyError α) : Attempt α := ExceptT.mk (.done result)

def readIndexKey (name : String) : Attempt (Option IndexKeyRecord) :=
  ExceptT.mk (@Program.ask store (.readIndexKey name))

def createIndexKey (name : String) (record : IndexKeyRecord) : Attempt Bool :=
  ExceptT.mk (@Program.ask store (.createIndexKey name record))

def readLegacyIndexKeys : Attempt (Option LegacyIndexKeys) :=
  ExceptT.mk (@Program.ask store .readLegacyIndexKeys)

def tryFillBytes : Attempt Key := ExceptT.mk (@Program.ask store .fillBytes)

/-- Copies a key out of the shared map. Whether the create won is not looked at: whoever
was first copied the same key. -/
def adoptLegacyIndexKey (name : String) : Attempt (Option Key) := do
  let some legacy ← readLegacyIndexKeys | return none
  let some hexKey := legacy.get name | return none
  let key ← attempt (decodeKeyHex hexKey)
  let _ ← createIndexKey name (IndexKeyRecord.first (Text.hexEncode key.1))
  return some key

def resolveIndexKey (name : String) : Attempt Key := do
  if let some record ← readIndexKey name then
    return ← attempt record.currentKey
  if let some key ← adoptLegacyIndexKey name then
    return key
  let fresh ← tryFillBytes
  if ← createIndexKey name (IndexKeyRecord.first (Text.hexEncode fresh.1)) then
    return fresh
  -- The create was lost to another writer, whose key is in use already.
  let some record ← readIndexKey name
    | throw (.keySource s!"index key {name} disappeared after a create conflict")
  attempt record.currentKey

inductive RuntimeFlavor where
  | currentThread
  | multiThread
  deriving DecidableEq

structure Request where
  process : Nat
  flavor : RuntimeFlavor
  name : String

def cachedIndexKey (process : Nat) (name : String) : Attempt (Option Key) :=
  ExceptT.mk (@Program.call store _ (.cached process name) fun held => .done (.ok held))

def rememberIndexKey (process : Nat) (name : String) (key : Key) : Attempt Unit :=
  ExceptT.mk (@Program.call store _ (.remember process name key) fun _ => .done (.ok ()))

def indexKey (request : Request) : Attempt Key := do
  match ← cachedIndexKey request.process request.name with
  | some key => return key
  | none =>
    if request.flavor = .currentThread then
      throw (.keySource "resolving index key: VaultKeySource needs a multi-thread tokio runtime")
    else
      let key ← resolveIndexKey request.name
      rememberIndexKey request.process request.name key
      return key

def processes : Machine store Request (Except KeyError Key) Shared Fate Nat :=
  ⟨fun request => (indexKey request).run, serve, arrive⟩

end Resolution

end Dbsec.IndexKeys
