import SendSelf.Library.Interrupt
import SendSelf.Lock.AtRest

/-!
# What a device stores

The registry has the list of spaces and the sealed envelope, and each space has a
database of its own: credentials and keys in its `meta` store, and rows of
messages, events, device names and cached files. The view of a device is what the
app can decode of all this when it starts and the user unlocks it.
-/
namespace SendSelf

abbrev SpaceName := ℕ

inductive StoredName where
  | plain (name : Option SpaceName)
  | sealed (s : Sealed ContentKey AtRestIv SpaceId SpaceName)
deriving DecidableEq, Repr

structure StoredSpace where
  id : SpaceId
  createdAt : ℕ
  name : StoredName
  nameUpdatedAt : ℕ
  namePending : Bool
deriving DecidableEq, Repr

/-- The keys of a space's `meta` store that hold secrets. `groupKey` is what a device
stored before keys were rotated. -/
structure SpaceMeta where
  session : Option Session
  groupKey : Option GroupKey
  keyring : Option Keyring
  deviceKeyPair : Option KeyPair
  signingKeyPair : Option KeyPair
deriving DecidableEq, Repr

inductive MetaKey where
  | session | groupKey | keyring | deviceKeyPair | signingKeyPair
deriving DecidableEq, Repr

/-- A value for one of the keys. -/
inductive MetaEntry where
  | session (value : Session)
  | groupKey (value : GroupKey)
  | keyring (value : Keyring)
  | deviceKeyPair (value : KeyPair)
  | signingKeyPair (value : KeyPair)
deriving DecidableEq, Repr

def MetaEntry.key : MetaEntry → MetaKey
  | .session _ => .session
  | .groupKey _ => .groupKey
  | .keyring _ => .keyring
  | .deviceKeyPair _ => .deviceKeyPair
  | .signingKeyPair _ => .signingKeyPair

namespace SpaceMeta

def get (m : SpaceMeta) : MetaKey → Option MetaEntry
  | .session => m.session.map .session
  | .groupKey => m.groupKey.map .groupKey
  | .keyring => m.keyring.map .keyring
  | .deviceKeyPair => m.deviceKeyPair.map .deviceKeyPair
  | .signingKeyPair => m.signingKeyPair.map .signingKeyPair

def set (m : SpaceMeta) : MetaEntry → SpaceMeta
  | .session value => { m with session := some value }
  | .groupKey value => { m with groupKey := some value }
  | .keyring value => { m with keyring := some value }
  | .deviceKeyPair value => { m with deviceKeyPair := some value }
  | .signingKeyPair value => { m with signingKeyPair := some value }

def delete (m : SpaceMeta) : MetaKey → SpaceMeta
  | .session => { m with session := none }
  | .groupKey => { m with groupKey := none }
  | .keyring => { m with keyring := none }
  | .deviceKeyPair => { m with deviceKeyPair := none }
  | .signingKeyPair => { m with signingKeyPair := none }

theorem get_set (m : SpaceMeta) (entry : MetaEntry) (key : MetaKey) :
    (m.set entry).get key = if key = entry.key then some entry else m.get key := by
  cases entry <;> cases key <;> rfl

theorem get_delete (m : SpaceMeta) (gone key : MetaKey) :
    (m.delete gone).get key = if key = gone then none else m.get key := by
  cases gone <;> cases key <;> rfl

variable {m m' : SpaceMeta}

theorem deviceKeyPair_eq (h : m'.get .deviceKeyPair = m.get .deviceKeyPair) :
    m'.deviceKeyPair = m.deviceKeyPair :=
  Option.map_injective (fun _ _ he => MetaEntry.deviceKeyPair.inj he) h

theorem signingKeyPair_eq (h : m'.get .signingKeyPair = m.get .signingKeyPair) :
    m'.signingKeyPair = m.signingKeyPair :=
  Option.map_injective (fun _ _ he => MetaEntry.signingKeyPair.inj he) h

end SpaceMeta

structure DeviceStorage (α : Type) where
  vault : Option VaultEnvelope
  spaces : Table StoredSpace.id
  «meta» : SpaceId → SpaceMeta
  rows : Table (LocalRow.id : LocalRow α → RowId)

/-- One write of the registry or of a space's database. -/
inductive StorageWrite (α : Type) where
  | putRow (row : LocalRow α)
  | putSpace (space : StoredSpace)
  | setVault (envelope : VaultEnvelope)
  | deleteVault
  | metaSet (space : SpaceId) (entry : MetaEntry)
  | metaDelete (space : SpaceId) (key : MetaKey)

variable {α : Type}

namespace DeviceStorage

def setMeta (s : DeviceStorage α) (space : SpaceId) (m : SpaceMeta) : DeviceStorage α :=
  { s with «meta» := Function.update s.meta space m }

def write : StorageWrite α → DeviceStorage α → DeviceStorage α
  | .putRow row, s => { s with rows := s.rows.put row }
  | .putSpace space, s => { s with spaces := s.spaces.put space }
  | .setVault envelope, s => { s with vault := some envelope }
  | .deleteVault, s => { s with vault := none }
  | .metaSet space entry, s => s.setMeta space ((s.meta space).set entry)
  | .metaDelete space key, s => s.setMeta space ((s.meta space).delete key)

theorem meta_setMeta (s : DeviceStorage α) (space q : SpaceId) (m : SpaceMeta) :
    (s.setMeta space m).meta q = if q = space then m else s.meta q := by
  simp only [setMeta, Function.update_apply]

end DeviceStorage

/-- What an app that has started holds in memory. -/
structure DeviceMemory where
  contentKey : Option ContentKey
  unlocked : Option (Table SpaceSecrets.spaceId)
  locked : Bool

/-- `loadLockState`, and the unlock by the user if there is an envelope. -/
def startUp (user : User) (s : DeviceStorage α) : DeviceMemory :=
  match s.vault with
  | none => ⟨none, none, false⟩
  | some envelope =>
      match (unlockKeys user envelope).bind fun keys =>
          (openVault keys.vaultKey envelope).map fun stored =>
            (keys.contentKey, normalize stored) with
      | some (contentKey, unlocked) => ⟨some contentKey, some unlocked, false⟩
      | none => ⟨none, none, true⟩

/-- A sealed name that cannot be opened right now reads as unnamed. -/
def StoredSpace.readName (key : Option ContentKey) (space : StoredSpace) : Option SpaceName :=
  match space.name with
  | .plain name => name
  | .sealed s => key.bind fun key => s.openWith key s.iv space.id

/-- The keyring that a space's database holds, from before rotations if need be. -/
def SpaceMeta.loadKeyring (m : SpaceMeta) : Option Keyring :=
  m.keyring.or (m.groupKey.map fun key => createKeyring key INITIAL_KEY_EPOCH)

/-- The secrets of the space that is open. -/
structure OpenSecrets where
  session : Option Session
  keyring : Option Keyring
  deviceKeyPair : Option KeyPair
  signingKeyPair : Option KeyPair
deriving DecidableEq, Repr

def OpenSecrets.none : OpenSecrets := ⟨.none, .none, .none, .none⟩

/-- `bridge.load`. -/
def SpaceSecrets.load (secrets : SpaceSecrets) (m : SpaceMeta) : OpenSecrets where
  session := some secrets.session
  keyring := some secrets.keyring
  deviceKeyPair := (secrets.deviceKeyPair.map importKeyPair).or m.deviceKeyPair
  signingKeyPair := (secrets.signingKeyPair.map importKeyPair).or m.signingKeyPair

/-- `loadSession`. -/
def SpaceMeta.load (m : SpaceMeta) : OpenSecrets :=
  match m.session, m.loadKeyring, m.deviceKeyPair with
  | some session, some keyring,
      some pair => ⟨some session, some keyring, some pair, m.signingKeyPair⟩
  | _, _, _ => .none

namespace DeviceStorage

def readRow (s : DeviceStorage α) (memory : DeviceMemory) (id : RowId) : Option α :=
  (s.rows.get? id).bind fun row =>
    match fromStored memory.contentKey id row.body with
    | .ok value => value
    | .error _ => none

def readName (s : DeviceStorage α) (memory : DeviceMemory) (space : SpaceId) : Option SpaceName :=
  (s.spaces.get? space).bind (StoredSpace.readName memory.contentKey)

/-- `openSpace`, on a device whose lock is off or open. -/
def openSpace (s : DeviceStorage α) (memory : DeviceMemory) (space : SpaceId) : OpenSecrets :=
  if memory.locked ∨ s.spaces.get? space = none then .none
  else match memory.unlocked.bind fun unlocked => unlocked.get? space with
    | some secrets => secrets.load (s.meta space)
    | none => (s.meta space).load

/-- What can be decoded, by what it is. -/
structure View (α : Type) where
  row : RowId → Option α
  name : SpaceId → Option SpaceName
  session : SpaceId → Option Session
  keyring : SpaceId → Option Keyring
  deviceKeyPair : SpaceId → Option KeyPair
  signingKeyPair : SpaceId → Option KeyPair

def viewWith (memory : DeviceMemory) (s : DeviceStorage α) : View α where
  row := s.readRow memory
  name := s.readName memory
  session := fun space => (s.openSpace memory space).session
  keyring := fun space => (s.openSpace memory space).keyring
  deviceKeyPair := fun space => (s.openSpace memory space).deviceKeyPair
  signingKeyPair := fun space => (s.openSpace memory space).signingKeyPair

/-- What the user's next start of the app decodes. -/
def view (user : User) (s : DeviceStorage α) : View α := s.viewWith (startUp user s)

open WriteOnce

/-- All that could be decoded still can. -/
structure View.Kept (v v' : View α) : Prop where
  row : Below v.row v'.row
  name : Below v.name v'.name
  session : Below v.session v'.session
  keyring : Below v.keyring v'.keyring
  deviceKeyPair : Below v.deviceKeyPair v'.deviceKeyPair
  signingKeyPair : Below v.signingKeyPair v'.signingKeyPair

end DeviceStorage

end SendSelf
