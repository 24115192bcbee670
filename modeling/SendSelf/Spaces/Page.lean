import SendSelf.Library.Coroutine
import SendSelf.Linking.Device

/-!
# The page and its spaces

Everything the page does belongs to the space that is open: a storage call that
names no space is made against whichever one is open at that moment. Entering a
space takes several awaits, and every change of the address starts another run of
`applyRoute`, whatever the earlier ones are waiting for. So does everything that a
session sets going and nobody awaits: the passes of the sync loop, the signing
identity, the envelope that is sealed again, the polls for a pairing package.
-/
namespace SendSelf

/-- Where the address points. -/
inductive Route where
  | other | spaces | space (id : SpaceId)
deriving DecidableEq, Repr

/-- One secret of a space; a keyring is the keys on it. -/
inductive Secret where
  | session (value : Session)
  | groupKey (value : GroupKey)
  | deviceKeyPair (value : KeyPair)
  | signingKeyPair (value : KeyPair)
deriving DecidableEq, Repr

/-- Where a secret comes from that the device did not have when the page started: a
pairing brings it to the space it registers, or it is unwrapped or generated under a
session. -/
inductive Arrival where
  | joined (space : SpaceId) (secrets : OpenSecrets)
  | under (session : Session) (secret : Secret)
deriving DecidableEq, Repr

/-- `active` is what the store resolves its calls against, `activeSpace` the signal
that the page shows, and `unlocked` what an unlock left in memory. `arrivals` is a
record of the model. -/
structure Page where
  route : Route
  locked : Bool
  registered : List SpaceId
  unlocked : Option (Table SpaceSecrets.spaceId)
  «meta» : SpaceId → SpaceMeta
  pendingPairing : Option Linking.PendingPairing
  active : Option SpaceId
  activeSpace : Option SpaceId
  secrets : OpenSecrets
  running : Bool
  signingKeyPublished : Bool
  linking : Bool
  linkTimer : Option Linking.PendingPairing
  arrivals : List Arrival

/-- What is decided by data that is not modelled here. -/
inductive Question where
  | signingKeyPublished (space : SpaceId)
  | outboxRemaining
  | rosterChanged
deriving DecidableEq, Repr

/-- What a poll for messages brings of the keys. -/
structure PendingAnswer where
  keys : List PendingKeyDelivery
  rotationPending : Bool

structure DeviceListing where
  rotationPending : Bool
  keyEpoch : ℕ

/-- What the page awaits. A storage call names the space it was resolved to when it
was made; a `turn` is an await for nothing of all this. -/
inductive PageOp where
  | turn
  | draw
  | ask (question : Question)
  | getSpace (id : SpaceId)
  | addSpace
  | metaGet (space : SpaceId) (key : MetaKey)
  | metaSet (space : SpaceId) (entry : MetaEntry)
  | metaDelete (space : SpaceId) (key : MetaKey)
  | pendingPairing
  | forgetPairing
  | pairingPoll (pairingId : PairingId)
  | pendingMessages (session : Session)
  | listDevices (session : Session)
  | rotateKey (session : Session) (epoch : ℕ)

def PageOp.Result : PageOp → Type
  | .turn | .forgetPairing | .metaSet _ _ | .metaDelete _ _ => Unit
  | .draw => ℕ
  | .ask _ | .getSpace _ => Bool
  | .addSpace => SpaceId
  | .metaGet _ _ => Option MetaEntry
  | .pendingPairing => Option Linking.PendingPairing
  | .pairingPoll _ => Linking.PollAnswer
  | .pendingMessages _ => PendingAnswer
  | .listDevices _ => DeviceListing
  | .rotateKey _ _ => Option ℕ

/-- `none` is a rejected promise. -/
abbrev PageOp.Answer (op : PageOp) : Type := Option op.Result

/-- What the rest of the world answers. -/
structure PageInput where
  fails : Bool
  drawn : ℕ
  yes : Bool
  poll : Linking.PollAnswer
  messages : PendingAnswer
  listing : DeviceListing
  rotated : Option ℕ

namespace Page

def setMeta (p : Page) (space : SpaceId) (m : SpaceMeta) : Page :=
  { p with «meta» := Function.update p.meta space m }

def perform : (op : PageOp) → PageInput → Page → Page × op.Result
  | .turn, _, p => (p, ())
  | .draw, input, p => (p, input.drawn)
  | .ask _, input, p => (p, input.yes)
  | .getSpace id, _, p => (p, decide (id ∈ p.registered))
  | .addSpace, input, p => ({ p with registered := p.registered ++ [input.drawn] }, input.drawn)
  | .metaGet space key, _, p => (p, (p.meta space).get key)
  | .metaSet space entry, _, p => (p.setMeta space ((p.meta space).set entry), ())
  | .metaDelete space key, _, p => (p.setMeta space ((p.meta space).delete key), ())
  | .pendingPairing, _, p => (p, p.pendingPairing)
  | .forgetPairing, _, p => ({ p with pendingPairing := none }, ())
  | .pairingPoll _, input, p => (p, input.poll)
  | .pendingMessages _, input, p => (p, input.messages)
  | .listDevices _, input, p => (p, input.listing)
  | .rotateKey _ _, input, p => (p, input.rotated)

def exec (op : PageOp) (input : PageInput) (p : Page) : Page × op.Answer :=
  if input.fails then (p, none) else ((p.perform op input).1, some (p.perform op input).2)

end Page

abbrev Prog (α : Type) := Coroutine Page PageOp.Answer α

namespace Prog

open Coroutine

def await (op : PageOp) : Prog op.Result := do
  match ← call op with
  | some result => pure result
  | none => throw

def turn : Prog Unit := await .turn

def ask (question : Question) : Prog Bool := await (.ask question)

def getSpace (id : SpaceId) : Prog Bool := await (.getSpace id)

def metaGet (space : SpaceId) (key : MetaKey) : Prog (Option MetaEntry) :=
  await (.metaGet space key)

def metaSet (space : SpaceId) (entry : MetaEntry) : Prog Unit := await (.metaSet space entry)

def metaDelete (space : SpaceId) (key : MetaKey) : Prog Unit := await (.metaDelete space key)

/-- The space a call without one is made against. -/
def db : Prog SpaceId := do
  match (← read).active with
  | some space => pure space
  | none => throw

def setActive (space : Option SpaceId) : Prog Unit :=
  write fun p => { p with active := space, activeSpace := space }

def setSession (value : Option Session) : Prog Unit :=
  write fun p => { p with secrets := { p.secrets with session := value } }

def setKeyring (value : Option Keyring) : Prog Unit :=
  write fun p => { p with secrets := { p.secrets with keyring := value } }

def setDeviceKeyPair (value : Option KeyPair) : Prog Unit :=
  write fun p => { p with secrets := { p.secrets with deviceKeyPair := value } }

def setSigningKeyPair (value : Option KeyPair) : Prog Unit :=
  write fun p => { p with secrets := { p.secrets with signingKeyPair := value } }

def arrive (arrival : Arrival) : Prog Unit :=
  write fun p => { p with arrivals := arrival :: p.arrivals }

def asSession : Option MetaEntry → Option Session
  | some (.session value) => some value
  | _ => none

def asGroupKey : Option MetaEntry → Option GroupKey
  | some (.groupKey value) => some value
  | _ => none

def asKeyring : Option MetaEntry → Option Keyring
  | some (.keyring value) => some value
  | _ => none

def asKeyPair : Option MetaEntry → Option KeyPair
  | some (.deviceKeyPair value) => some value
  | some (.signingKeyPair value) => some value
  | _ => none

def saveKeyring (ring : Keyring) : Prog Unit := do metaSet (← db) (.keyring ring)

/-- The old key becomes a keyring. Each call after the first is made against the space
that is open by then. -/
def upgradeGroupKey : Prog (Option Keyring) := do
  match asGroupKey (← metaGet (← db) .groupKey) with
  | none => pure none
  | some legacy =>
      let keyring := createKeyring legacy INITIAL_KEY_EPOCH
      saveKeyring keyring
      metaDelete (← db) .groupKey
      pure (some keyring)

/-- `space` is what the first call was resolved to. -/
def loadKeyring (space : SpaceId) : Prog (Option Keyring) := do
  match asKeyring (← metaGet space .keyring) with
  | some stored => pure (some stored)
  | none => upgradeGroupKey

/-- The four reads are asked for at once, against the space that is open then. -/
def loadSession : Prog Unit := do
  let space ← db
  let storedSession := asSession (← metaGet space .session)
  let storedKeyring ← loadKeyring space
  let storedKeyPair := asKeyPair (← metaGet space .deviceKeyPair)
  let storedSigningKeyPair := asKeyPair (← metaGet space .signingKeyPair)
  match storedSession, storedKeyring, storedKeyPair with
  | some session, some keyring, some pair =>
      write fun p =>
        { p with secrets := ⟨some session, some keyring, some pair, storedSigningKeyPair⟩ }
  | _, _, _ => pure ()

/-- A pair that could not be sealed is still where the browser put it. -/
def loadKeyPair (space : SpaceId) (sealed : Option SerializedKeyPair) (key : MetaKey) :
    Prog (Option KeyPair) := do
  match sealed with
  | some pair =>
      turn
      pure (some (importKeyPair pair))
  | none => pure (asKeyPair (← metaGet space key))

/-- `bridge.load`: whether the space is among those that were unlocked. -/
def load (space : SpaceId) : Prog Bool := do
  match (← read).unlocked.bind fun unlocked => unlocked.get? space with
  | none => pure false
  | some secrets =>
      setSession (some secrets.session)
      turn
      setKeyring (some secrets.keyring)
      setDeviceKeyPair (← loadKeyPair space secrets.deviceKeyPair .deviceKeyPair)
      setSigningKeyPair (← loadKeyPair space secrets.signingKeyPair .signingKeyPair)
      pure true

def openSpace (space : SpaceId) : Prog Bool := do
  match ← getSpace space with
  | false => pure false
  | true =>
      setActive (some space)
      turn
      let loaded ← load space
      turn
      if loaded then pure true
      else
        loadSession
        pure true

/-- Nothing of the space that was open stays in memory. -/
def closeSpace : Prog Unit :=
  write fun p => { p with active := none, activeSpace := none, secrets := .none }

end Prog
end SendSelf
