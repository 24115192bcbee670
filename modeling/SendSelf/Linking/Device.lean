import SendSelf.Library.Runs
import SendSelf.Library.Tasks
import SendSelf.Lock.Storage
import SendSelf.Pins.Identities

/-!
# Linking a device

The joining device polls for its pairing package on a timer that does not wait for the poll
before. A poll that gets the package registers a space, stores what it takes to use it, and
deletes the pending record; every `await` in between is a place where another poll, a change of
space, a failing write or the end of the page can come. The package stays on the server.
-/
namespace SendSelf.Linking

/-- What a pairing package holds. -/
structure PairingPackage where
  payload : PairingPayload
  spaceName : Option SpaceName
  roster : Option (List DeviceKeyBundle)
deriving DecidableEq, Repr

abbrev WrappedPackage := Box PublicKey Context PairingPackage

def unwrapPairingPackage (key : PublicKey) (package : WrappedPackage) (pairingId : PairingId) :
    Option PairingPackage :=
  package.openWith key (.pairing pairingId)

/-- The signing key pair is missing for a link that was in flight before devices signed. -/
structure PendingPairing where
  keyPair : KeyPair
  signingKeyPair : Option KeyPair
  payload : PairingQrPayload
deriving DecidableEq, Repr

inductive LinkingStatus where
  | waiting | error
deriving DecidableEq, Repr

structure LinkingState where
  pairingId : PairingId
  deviceId : DeviceId
  status : LinkingStatus
deriving DecidableEq, Repr

structure SpaceRecord where
  id : SpaceId
  name : Option SpaceName
deriving DecidableEq, Repr

/-- A space's own database, as far as linking writes to it. -/
structure SpaceData where
  «meta» : SpaceMeta
  signingKeyPublished : Bool
  identities : DeviceIdentities
  added : List DeviceId

/-- A poll that has registered its space. -/
structure Joining where
  pending : PendingPairing
  package : PairingPackage
  space : SpaceId
deriving DecidableEq, Repr

/-- `newSession`. -/
def Joining.session (j : Joining) : Session :=
  ⟨j.pending.payload.deviceId, j.package.payload.deviceAuthToken, j.package.payload.groupId⟩

/-- What `persistSession` stores. -/
def Joining.entries (j : Joining) : List MetaEntry :=
  [.session j.session,
    .keyring (createKeyring j.package.payload.groupKey j.package.payload.keyEpoch),
    .deviceKeyPair j.pending.keyPair] ++ j.pending.signingKeyPair.toList.map .signingKeyPair

/-- What is stored and what the page holds. `begun` and `failed` are history: the polls that have
registered a space, and those of them that ended in an error. -/
structure Core where
  registry : List SpaceRecord
  lastSpace : Option SpaceId
  pendingPairing : Option PendingPairing
  data : SpaceId → SpaceData
  linking : Option LinkingState
  linkTimer : Option PendingPairing
  active : Option SpaceId
  begun : List Joining
  failed : List Joining

/-- The answer to `pairingPoll`. The error is one that a retry does not cure. -/
inductive PollAnswer where
  | notReady
  | package (wrapped : WrappedPackage)
  | networkError
  | error

inductive Pc where
  -- startLinking, resumeLinking and cancelLinking
  | storing (pending : PendingPairing)
  | resuming
  | cancelling
  -- pollLink
  | polling (pending : PendingPairing)
  | unwrapping (pending : PendingPairing) (wrapped : WrappedPackage)
  | importing (pending : PendingPairing) (package : PairingPackage)
  | registering (pending : PendingPairing) (package : PairingPackage)
  | remembering (j : Joining)
  | persisting (j : Joining) (target : SpaceId) (left : List MetaEntry)
  | publishing (j : Joining) (target : SpaceId)
  | seeding (j : Joining) (target : SpaceId)
  | seeded (j : Joining) (target : SpaceId) (identities : DeviceIdentities)
  | pinning (j : Joining) (target : SpaceId)
  | pinned (j : Joining) (target : SpaceId) (identities : DeviceIdentities)
  | noting (j : Joining)
  | clearing (j : Joining)
  | starting (j : Joining)

/-- What a step is given: the answer of the server, the id that is drawn, and whether the step
fails. -/
structure Input where
  answer : PollAnswer
  drawn : SpaceId
  fails : Bool

namespace Core

def setData (c : Core) (space : SpaceId) (d : SpaceData) : Core :=
  { c with data := Function.update c.data space d }

def startLinkPolling (c : Core) (pending : PendingPairing) : Core :=
  { c with
    linking := some ⟨pending.payload.pairingId, pending.payload.deviceId, .waiting⟩
    linkTimer := some pending }

/-- `pauseLinking`. -/
def pauseLinking (c : Core) : Core := { c with linkTimer := none, linking := none }

/-- The end of `pollLink` in an error that is not one of the network. -/
def caught (c : Core) : Core :=
  { c with linkTimer := none, linking := c.linking.map fun state =>
    { state with status := .error } }

/-- The same, of a poll that has registered its space. The space stays. -/
def abandoned (c : Core) (j : Joining) : Core × Option Pc :=
  ({ c.caught with failed := j :: c.failed }, none)

/-- A call that works on the space that is open; without one it throws. -/
def onActive (c : Core) (j : Joining) (call : SpaceId → Pc) : Core × Option Pc :=
  match c.active with
  | some target => (c, some (call target))
  | none => c.abandoned j

/-- `beginSpace`, up to where it remembers the space. -/
def beginSpace (c : Core) (j : Joining) : Core :=
  { c with
    registry := c.registry ++ [⟨j.space, j.package.spaceName⟩]
    active := some j.space
    begun := j :: c.begun }

/-- After the session is stored. -/
def published (c : Core) (j : Joining) : Core × Option Pc :=
  if j.package.roster.isSome then c.onActive j (.seeding j) else c.onActive j (.pinning j)

def persisted (c : Core) (j : Joining) : Core × Option Pc :=
  if j.pending.signingKeyPair.isSome then c.onActive j (.publishing j) else c.published j

/-- What this device scanned of itself. -/
def bundle (j : Joining) : DeviceKeyBundle :=
  ⟨j.pending.payload.deviceId, j.pending.payload.publicKey, j.pending.payload.signingPublicKey⟩

/-- One step of `pollLink` past `beginSpace`, where nothing fails. -/
def join (c : Core) : Pc → Core × Option Pc
  | .remembering j =>
      { c with lastSpace := some j.space }.onActive j fun target => .persisting j target j.entries
  | .persisting j target left => match left with
      | [] => c.persisted j
      | entry :: left =>
          let c := c.setData target { c.data target with «meta» := (c.data target).meta.set entry }
          if left = [] then c.persisted j else (c, some (.persisting j target left))
  | .publishing j target =>
      (c.setData target { c.data target with signingKeyPublished := true }).published j
  | .seeding j target => c.onActive j fun next =>
      .seeded j next ((c.data target).identities.seeded (j.package.roster.getD []))
  | .seeded j target identities =>
      (c.setData target { c.data target with identities }).onActive j (.pinning j)
  | .pinning j target => c.onActive j fun next =>
      .pinned j next ((c.data target).identities.pinned (bundle j))
  | .pinned j target identities =>
      (c.setData target { c.data target with identities }, some (.noting j))
  | .noting j =>
      -- a notice never fails the link
      (match c.active with
        | some target =>
            c.setData target { c.data target with
              added := j.pending.payload.deviceId :: (c.data target).added }
        | none => c, some (.clearing j))
  | .clearing j => ({ c with pendingPairing := none }, some (.starting j))
  | .starting _ => ({ c with linking := none }, none)
  | pc => (c, some pc)

end Core

/-- The space that a poll has registered. -/
def Pc.joining : Pc → Option Joining
  | .remembering j | .persisting j _ _ | .publishing j _ | .seeding j _ | .seeded j _ _ |
    .pinning j _ | .pinned j _ _
  | .noting j | .clearing j | .starting j => some j
  | .storing _ | .resuming | .cancelling | .polling _ | .unwrapping _ _ | .importing _ _ |
      .registering _ _ => none

namespace Core

/-- One step of an operation, and what is left of it. -/
def advance (c : Core) (input : Input) : Pc → Core × Option Pc
  | .storing pending =>
      if input.fails then (c,
        none) else ({ c with pendingPairing := some pending }.startLinkPolling pending, none)
  | .resuming =>
      if input.fails then (c, none)
      else (c.pendingPairing.elim c c.startLinkPolling, none)
  | .cancelling => (if input.fails then c else { c with pendingPairing := none }, none)
  | .polling pending => match input.answer with
      | .notReady | .networkError => (c, none)
      | .error => (c.caught, none)
      | .package wrapped => ({ c with linkTimer := none }, some (.unwrapping pending wrapped))
  | .unwrapping pending wrapped =>
      match unwrapPairingPackage pending.payload.publicKey wrapped pending.payload.pairingId with
      | some package => (c, some (.importing pending package))
      | none => (c.caught, none)
  | .importing pending package =>
      if input.fails then (c.caught, none) else (c, some (.registering pending package))
  | .registering pending package =>
      if input.fails then (c.caught, none)
      else (c.beginSpace ⟨pending, package, input.drawn⟩,
        some (.remembering ⟨pending, package, input.drawn⟩))
  | pc => match pc.joining with
      | some j => if input.fails then c.abandoned j else c.join pc
      | none => (c, none)

end Core

structure Page where
  core : Core
  tasks : List Pc

inductive Event where
  | startLinking (pending : PendingPairing)
  | resumeLinking
  | pauseLinking
  | cancelLinking
  | tick
  | openSpace (space : SpaceId)
  | closeSpace
  | restart
  | task (k : ℕ) (input : Input)

/-- An operation starts, and runs up to its first await. -/
def Page.begin (p : Page) (core : Core) (pc : Pc) : Page := ⟨core, p.tasks ++ [pc]⟩

def Page.goOn (p : Page) (k : ℕ) (next : Core × Option Pc) : Page :=
  ⟨next.1, Tasks.goOn p.tasks k next.2⟩

/-- An id that is drawn is new. -/
def Core.draws (c : Core) (input : Input) : Pc → Bool
  | .registering _ _ => decide (input.drawn ∉ c.registry.map SpaceRecord.id)
  | _ => true

def step (p : Page) : Event → Option Page
  -- the request that publishes the pairing has been answered
  | .startLinking pending => some (p.begin p.core (.storing pending))
  | .resumeLinking => if p.core.linking.isSome then none else some (p.begin p.core .resuming)
  | .pauseLinking => some { p with core := p.core.pauseLinking }
  | .cancelLinking => some (p.begin p.core.pauseLinking .cancelling)
  | .tick => p.core.linkTimer.map fun pending => p.begin p.core (.polling pending)
  | .openSpace space =>
      if space ∈ p.core.registry.map SpaceRecord.id ∧ p.core.active ≠ some space then
        some { p with core := { p.core.pauseLinking with active := some space } }
      else none
  | .closeSpace => some { p with core := { p.core with active := none } }
  | .restart => some ⟨{ p.core with linking := none, linkTimer := none, active := none }, []⟩
  | .task k input => p.tasks[k]?.bind fun pc =>
      if p.core.draws input pc then some (p.goOn k (p.core.advance input pc)) else none

/-- The app has started. -/
def start (registry : List SpaceRecord) (lastSpace : Option SpaceId)
    (pending : Option PendingPairing) (data : SpaceId → SpaceData) : Page :=
  ⟨⟨registry, lastSpace, pending, data, none, none, none, [], []⟩, []⟩

end SendSelf.Linking
