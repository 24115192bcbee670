import SendSelf.Library.Tasks
import SendSelf.Lock.Switching

/-!
# The lock at run time

The operations of the lock, those that open and forget a space, and the adoption of a key run
next to each other on one page. Each goes on by itself up to its next `await`; what it awaits
there (a call on the registry or on a space's database, a request, a computation) takes effect
when it goes on, together with what it does then, and what it holds meanwhile is what it captured
before. A restart drops what was under way, and starts from the storage.

Rows and names are not part of this: rewriting them is one turn.
-/
namespace SendSelf.Lock
open DeviceStorage (LockOptions)

/-- The map that an unlock made: `set` and `delete` change it, and another unlock makes another
one. -/
structure Unlocked where
  id : ℕ
  spaces : Table SpaceSecrets.spaceId

/-- A key that the server has been acked for, or accepted in a rotation, with the space it is of. -/
structure Taken where
  space : SpaceId
  epoch : ℕ
  key : GroupKey
deriving DecidableEq, Repr

/-- What is stored, what the page holds in memory, and how many maps there have been. `forgotten`
and `taken` are history: the spaces that are to be forgotten, and the keys that the server has
dropped. -/
structure Core where
  registered : List SpaceId
  «meta» : SpaceId → SpaceMeta
  vault : Option VaultEnvelope
  active : Option SpaceId
  secrets : OpenSecrets
  envelope : Option VaultEnvelope
  vaultKey : Option VaultKey
  contentKey : Option ContentKey
  unlocked : Option Unlocked
  locked : Bool
  maps : ℕ
  forgotten : List SpaceId
  taken : List Taken

/-- Where `reseal` returns to. -/
inductive AfterSeal where
  | refresh (space : SpaceId)
  | forget (space : SpaceId)

/-- Where an operation is, with what it has captured. -/
inductive Pc where
  -- enableLock
  | listing (options : LockOptions) (keys : UnlockedKeys)
  | collecting (options : LockOptions) (keys : UnlockedKeys) (left : List SpaceId)
      (collected : Table SpaceSecrets.spaceId)
  | rewriting (options : LockOptions) (keys : UnlockedKeys) (collected : Table SpaceSecrets.spaceId)
  | sealing (options : LockOptions) (keys : UnlockedKeys) (collected : Table SpaceSecrets.spaceId)
  | writing (envelope : VaultEnvelope) (drops : List (SpaceId × MetaKey))
  | dropping (envelope : VaultEnvelope) (drops : List (SpaceId × MetaKey))
  -- unlockWithPassphrase and unlockWithPasskey
  | opening (user : User) (envelope : VaultEnvelope)
  -- refreshVault
  | serializingKeyring (space : SpaceId) (map : ℕ) (session : Session) (keyring : Keyring)
  | serializingDevice (space : SpaceId) (map : ℕ) (session : Session) (keyring : Keyring)
      (pair : KeyPair)
  | serializingSigning (space : SpaceId) (map : ℕ) (session : Session) (keyring : Keyring)
      (device : Option SerializedKeyPair) (pair : KeyPair)
  | clearing (space : SpaceId) (keys : List MetaKey)
  -- reseal
  | exporting (vaultKey : VaultKey) (spaces : Table SpaceSecrets.spaceId) (contentKey : ContentKey)
      (after : AfterSeal)
  | resealing (vaultKey : VaultKey) (spaces : Table SpaceSecrets.spaceId) (contentKey : ContentKey)
      (parameters : VaultEnvelope) (after : AfterSeal)
  | storing (envelope : VaultEnvelope) (after : AfterSeal)
  -- disableLock
  | restoring (left : List (SpaceId × MetaEntry))
  | opened
  | removing
  -- forgetSpace
  | unnaming (space : SpaceId)
  | unvaulting (space : SpaceId)
  | erasing (space : SpaceId)
  | unregistering (space : SpaceId)
  -- openSpace
  | looking (space : SpaceId)
  | remembering (space : SpaceId)
  | loadingKeyring (space : SpaceId) (secrets : SpaceSecrets)
  | loadingDevice (space : SpaceId) (secrets : SpaceSecrets)
  | loadingSigning (space : SpaceId) (secrets : SpaceSecrets)
  | reading (space : SpaceId)
  -- adoptPendingKeys and rotateGroupKey
  | unwrapping (owner : SpaceId) (keyring : Keyring) (keys : List (ℕ × GroupKey))
  | rotating (owner : SpaceId) (keyring : Keyring) (epoch : ℕ) (key : GroupKey)
  | saving (owner space : SpaceId) (keyring : Keyring) (acks : List ℕ)
  | acking (owner : SpaceId) (keyring : Keyring) (epochs : List ℕ)
  | noting (owner : SpaceId) (keyring : Keyring)

/-- The vector of an encryption, whether a request takes effect on the server, and whether its
answer arrives. -/
structure Input where
  iv : AtRestIv
  sent : Bool
  arrives : Bool
deriving DecidableEq, Repr

namespace Core

def setMeta (c : Core) (space : SpaceId) (m : SpaceMeta) : Core :=
  { c with «meta» := Function.update c.meta space m }

def setSecrets (c : Core) (secrets : OpenSecrets) : Core := { c with secrets }

/-- `unlocked = new Map(…)`. -/
def newMap (c : Core) (spaces : Table SpaceSecrets.spaceId) : Core :=
  { c with unlocked := some ⟨c.maps, spaces⟩, maps := c.maps + 1 }

/-- `clearSessionState`. -/
def clearSessionState (c : Core) : Core := c.setSecrets .none

def closeSpace (c : Core) : Core := { c.clearSessionState with active := none }

def forgetLock (c : Core) : Core :=
  { c with
    envelope := none, vaultKey := none, unlocked := none, contentKey := none, locked := false }

/-- What `loadKeyring` leaves of a key store from before rotations. -/
def upgraded (m : SpaceMeta) : SpaceMeta :=
  match m.keyring, m.groupKey with
  | none, some key =>
      { m with keyring := some (createKeyring key INITIAL_KEY_EPOCH), groupKey := none }
  | _, _ => m

def secretsFromStorage (space : SpaceId) (m : SpaceMeta) : Option SpaceSecrets :=
  match m.session, m.loadKeyring with
  | some session, some keyring => some
      ⟨space, session, keyring, m.deviceKeyPair.bind serializeKeyPair,
        m.signingKeyPair.bind serializeKeyPair⟩
  | _, _ => none

/-- What goes when the envelope is written: a key pair only if it could be sealed. -/
def plaintext (collected : Table SpaceSecrets.spaceId) : List (SpaceId × MetaKey) :=
  collected.rows.flatMap fun secrets => secrets.entries.map fun entry =>
    (secrets.spaceId, entry.key)

/-- What follows a `reseal`. Everything in the open goes, whether it was sealed or not. -/
def afterSeal : AfterSeal → Pc
  | .refresh space => .clearing space [.session, .keyring, .deviceKeyPair, .signingKeyPair]
  | .forget space => .erasing space

/-- A no-op unless the device is unlocked. -/
def reseal (c : Core) (after : AfterSeal) : Pc :=
  match c.contentKey, c.envelope, c.vaultKey, c.unlocked with
  | some contentKey, some _, some vaultKey,
      some unlocked => .exporting vaultKey unlocked.spaces contentKey after
  | _, _, _, _ => afterSeal after

/-- `unlocked.set`, on the map that was there when `refreshVault` was called. -/
def put (c : Core) (map : ℕ) (secrets : SpaceSecrets) : Core :=
  { c with unlocked := c.unlocked.map fun unlocked =>
      if unlocked.id = map then { unlocked with spaces := unlocked.spaces.put secrets }
      else unlocked }

def putSecrets (c : Core) (map : ℕ) (secrets : SpaceSecrets) : Core × Pc :=
  (c.put map secrets, (c.put map secrets).reseal (.refresh secrets.spaceId))

/-- The signing key pair is read when the device key pair has been serialised. -/
def readSigning (c : Core) (space : SpaceId) (map : ℕ) (session : Session) (keyring : Keyring)
    (device : Option SerializedKeyPair) : Core × Pc :=
  match c.secrets.signingKeyPair with
  | some pair => (c, .serializingSigning space map session keyring device pair)
  | none => c.putSecrets map ⟨space, session, keyring, device, none⟩

def readDevice (c : Core) (space : SpaceId) (map : ℕ) (session : Session) (keyring : Keyring) :
    Core × Pc :=
  match c.secrets.deviceKeyPair with
  | some pair => (c, .serializingDevice space map session keyring pair)
  | none => c.readSigning space map session keyring none

def refreshVault (c : Core) : Option Pc :=
  match c.envelope, c.vaultKey, c.unlocked, c.active, c.secrets.session, c.secrets.keyring with
  | some _, some _, some unlocked, some space, some session, some keyring =>
      if c.locked then none else some (.serializingKeyring space unlocked.id session keyring)
  | _, _, _, _, _, _ => none

def lockNow (c : Core) : Core :=
  if c.envelope.isSome then
    { c.clearSessionState with
      contentKey := none, vaultKey := none, unlocked := none, locked := true }
  else c

/-- None is a throw. -/
def disableLock (c : Core) : Option Pc :=
  if c.locked then none
  else c.unlocked.map fun unlocked =>
    .restoring (unlocked.spaces.rows.flatMap fun secrets => secrets.entries.map fun entry =>
      (secrets.spaceId, entry))

def removeFromMap (c : Core) (space : SpaceId) : Core :=
  { c with unlocked := c.unlocked.map fun unlocked =>
      { unlocked with
        spaces := unlocked.spaces.delete fun secrets => decide (secrets.spaceId = space) } }

/-- `forgetSpace`, from `vault.forget` on. -/
def forgetSpace (c : Core) (space : SpaceId) : Core × Pc :=
  let c := { c with forgotten := space :: c.forgotten }
  match c.unlocked.bind fun unlocked => unlocked.spaces.get? space with
  | none => (c, .erasing space)
  | some _ =>
      let c := c.removeFromMap space
      (c, if c.unlocked.any fun unlocked => decide (unlocked.spaces.rows = []) then .unnaming space
        else c.reseal (.forget space))

/-- `applyRoute`, as the address points to a space. -/
def applyRoute (c : Core) (space : SpaceId) : Option (Core × Pc) :=
  if c.locked ∨ c.active = some space then none
  else some (c.closeSpace, .looking space)

/-- `loadLockState`, on a page that has just started. -/
def restart (c : Core) : Core :=
  { c with
    active := none, secrets := .none, envelope := c.vault, vaultKey := none, contentKey := none,
           unlocked := none, locked := c.vault.isSome }

/-- What `adoptPendingKeys` makes of a keyring: the epochs that it lacks are added. -/
def adopted (keyring : Keyring) (keys : List (ℕ × GroupKey)) : Keyring :=
  keys.foldl (fun keyring p =>
    if (keyForEpoch keyring p.1).isSome then keyring else withEpoch keyring p.1 p.2) keyring

/-- The keys of these epochs are taken: the server does not keep them. -/
def take (c : Core) (owner : SpaceId) (keyring : Keyring) (epochs : List ℕ) : Core :=
  { c with
    taken := epochs.filterMap (fun epoch => (keyForEpoch keyring epoch).map fun key =>
      ⟨owner, epoch, key⟩) ++ c.taken }

/-- `applyKeyring`, and the refresh that it sets going. -/
def applyKeyring (c : Core) (keyring : Keyring) : Core × Option Pc :=
  let c := c.setSecrets { c.secrets with keyring := some keyring }
  (c, c.refreshVault)

/-- Where an operation goes on with a list of deletions, or ends. -/
def dropOn (c : Core) (envelope : VaultEnvelope) : List (SpaceId × MetaKey) → Core × Option Pc
  | [] => ({ c with envelope := some envelope, locked := false }, none)
  | drops => (c, some (.dropping envelope drops))

def collectOn (options : LockOptions) (keys : UnlockedKeys)
    (collected : Table SpaceSecrets.spaceId) :
    List SpaceId → Pc
  | [] => .rewriting options keys collected
  | left => .collecting options keys left collected

def restoreOn : List (SpaceId × MetaEntry) → Pc
  | [] => .opened
  | left => .restoring left

/-- One step of an operation, and what is left of it. An operation that throws ends. -/
def advance (c : Core) (input : Input) : Pc → Core × Option Pc
  | .listing options keys => (c, some (collectOn options keys .empty c.registered))
  | .collecting options keys left collected => match left with
      | [] => (c, some (.rewriting options keys collected))
      | space :: left =>
          (c.setMeta space (upgraded (c.meta space)), some (collectOn options keys
            (match secretsFromStorage space (c.meta space) with
              | some secrets => collected.put secrets
              | none => collected) left))
  | .rewriting options keys collected =>
      ({ c with
        contentKey := some keys.contentKey, vaultKey := some keys.vaultKey }.newMap collected,
        some (.sealing options keys collected))
  | .sealing options keys collected =>
      (c, some (.writing
        (options.envelope ⟨keys.vaultKey, input.iv, .current, .v2 collected keys.contentKey⟩)
        (plaintext collected)))
  | .writing envelope drops => { c with vault := some envelope }.dropOn envelope drops
  | .dropping envelope drops => match drops with
      | [] => c.dropOn envelope []
      | (space, key) :: drops => (c.setMeta space ((c.meta space).delete key)).dropOn envelope drops
  | .opening user envelope =>
      match (unlockKeys user envelope).bind fun keys =>
          (openVault keys.vaultKey envelope).map fun stored => (keys, normalize stored) with
      | some (keys, spaces) =>
          ({ c with
            contentKey := some keys.contentKey, vaultKey := some keys.vaultKey,
            locked := false }.newMap spaces, none)
      | none => (c, none)
  | .serializingKeyring space map session keyring =>
      (c.readDevice space map session keyring).map id some
  | .serializingDevice space map session keyring pair =>
      (c.readSigning space map session keyring (serializeKeyPair pair)).map id some
  | .serializingSigning space map session keyring device pair =>
      (c.putSecrets map ⟨space, session, keyring, device, serializeKeyPair pair⟩).map id some
  | .clearing space keys => match keys with
      | [] => (c, none)
      | key :: keys =>
          (c.setMeta space ((c.meta space).delete key),
            if keys = [] then none else some (.clearing space keys))
  | .exporting vaultKey spaces contentKey after =>
      (c, c.envelope.map fun parameters => .resealing vaultKey spaces contentKey parameters after)
  | .resealing vaultKey spaces contentKey parameters after =>
      let envelope : VaultEnvelope :=
        { parameters with sealed := ⟨vaultKey, input.iv, .current, .v2 spaces contentKey⟩ }
      ({ c with envelope := some envelope }, some (.storing envelope after))
  | .storing envelope after => ({ c with vault := some envelope }, some (afterSeal after))
  | .restoring left => match left with
      | [] => (c, some .opened)
      | (space, entry) :: left =>
          (c.setMeta space ((c.meta space).set entry), some (restoreOn left))
  | .opened => ({ c with contentKey := none, vaultKey := none }, some .removing)
  | .removing => ({ c with vault := none, envelope := none, locked := false }, none)
  | .unnaming space => (c, some (.unvaulting space))
  | .unvaulting space => ({ c with vault := none }.forgetLock, some (.erasing space))
  | .erasing space => (c.setMeta space ⟨none, none, none, none, none⟩, some (.unregistering space))
  | .unregistering space =>
      let c := { c with registered := c.registered.filter fun id => decide (id ≠ space) }
      (if c.active = some space then c.closeSpace else c, none)
  | .looking space =>
      if space ∈ c.registered then ({ c with active := some space }, some (.remembering space))
          else (c, none)
  | .remembering space => match c.unlocked.bind fun unlocked => unlocked.spaces.get? space with
      | some secrets => (c.setSecrets { c.secrets with session := some secrets.session },
          some (.loadingKeyring space secrets))
      | none => (c, c.active.map .reading)
  | .loadingKeyring space secrets =>
      (c.setSecrets { c.secrets with keyring := some secrets.keyring },
      some (.loadingDevice space secrets))
  | .loadingDevice space secrets =>
      (c.setSecrets { c.secrets with
          deviceKeyPair := (secrets.deviceKeyPair.map importKeyPair).or
            (c.meta space).deviceKeyPair },
        some (.loadingSigning space secrets))
  | .loadingSigning space secrets =>
      (c.setSecrets { c.secrets with
          signingKeyPair := (secrets.signingKeyPair.map importKeyPair).or
            (c.meta space).signingKeyPair }, none)
  | .reading space =>
      let loaded := (c.meta space).load
      let c := c.setMeta space (upgraded (c.meta space))
      (if loaded.session.isSome then c.setSecrets loaded else c, none)
  | .unwrapping owner keyring keys =>
      (c, c.active.map fun space => .saving owner space (adopted keyring keys) (keys.map Prod.fst))
  | .rotating owner keyring epoch key =>
      (if input.sent then c.take owner (withEpoch keyring epoch key) [epoch] else c,
        if input.sent ∧ input.arrives then
          c.active.map fun space => .saving owner space (withEpoch keyring epoch key) []
        else none)
  | .saving owner space keyring acks =>
      (c.setMeta space ((c.meta space).set (.keyring keyring)),
        some (if acks = [] then .noting owner keyring else .acking owner keyring acks))
  | .acking owner keyring epochs =>
      (if input.sent then c.take owner keyring epochs else c,
        if input.sent ∧ input.arrives then some (.noting owner keyring) else none)
  | .noting _ keyring => c.applyKeyring keyring

end Core

/-- An operation, and what there was when it last stopped at an await. -/
structure Task where
  seen : Core
  pc : Pc

structure Page where
  core : Core
  tasks : List Task

inductive Event where
  | enableLock (options : LockOptions) (user : User)
  | unlock (user : User)
  | lockNow
  | refreshVault
  | disableLock
  | forgetSpace (space : SpaceId)
  | applyRoute (space : SpaceId)
  | closeSpace
  | adoptPendingKeys (keys : List (ℕ × GroupKey))
  | rotateGroupKey (epoch : ℕ) (key : GroupKey)
  | restart
  | task (k : ℕ) (input : Input)

/-- An operation starts, and runs up to its first await. -/
def Page.begin (p : Page) (core : Core) (pc : Pc) : Page := ⟨core, p.tasks ++ [⟨core, pc⟩]⟩

/-- It goes on to its next await, or ends. -/
def Page.goOn (p : Page) (k : ℕ) (next : Core × Option Pc) : Page where
  core := next.1
  tasks := Tasks.goOn p.tasks k (next.2.map (Task.mk next.1))

def step (p : Page) : Event → Option Page
  | .enableLock options user =>
      -- offered on a device without a lock
      if p.core.envelope = none then
        some (p.begin p.core (.listing options (options.keys user)))
      else none
  | .unlock user => p.core.envelope.map fun envelope => p.begin p.core (.opening user envelope)
  | .lockNow => some { p with core := p.core.lockNow }
  | .refreshVault => p.core.refreshVault.map (p.begin p.core)
  | .disableLock => p.core.disableLock.map (p.begin p.core)
  | .forgetSpace space => some (p.begin (p.core.forgetSpace space).1 (p.core.forgetSpace space).2)
  | .applyRoute space => (p.core.applyRoute space).map fun next => p.begin next.1 next.2
  | .closeSpace => some { p with core := p.core.closeSpace }
  | .adoptPendingKeys keys => do
      let space ← p.core.active
      let keyring ← p.core.secrets.keyring
      some (p.begin p.core (.unwrapping space keyring keys))
  | .rotateGroupKey epoch key => do
      let space ← p.core.active
      let keyring ← p.core.secrets.keyring
      some (p.begin p.core (.rotating space keyring epoch key))
  | .restart => some ⟨p.core.restart, []⟩
  | .task k input => p.tasks[k]?.map fun task => p.goOn k (p.core.advance input task.pc)

/-- A device without a lock, at the start of the app. -/
def start (registered : List SpaceId) («meta» : SpaceId → SpaceMeta) : Page :=
  ⟨⟨registered, «meta», none, none, .none, none, none, none, none, false, 0, [], []⟩, []⟩

end SendSelf.Lock
