import SendSelf.Spaces.Page

/-!
# What runs on the page

`applyRoute` for every change of the address, and what goes on by itself once a
session is open or a pairing is under way. A job that the source starts without
awaiting it is a job of its own here, and so is each call that a timer, a socket or an
event makes: any of them may start at any time.
-/
namespace SendSelf
namespace Prog

open Coroutine

/-- The pass over the outbox. It looks up the session and the keyring of the space that
is open, and never fails. -/
def flushOutbox : Prog Bool :=
  (do
    turn
    let space ← db
    let _ ← metaGet space .session
    let _ ← loadKeyring space
    ask .outboxRemaining).catching (pure false)

/-- An await that is made on a condition. -/
def turnIf (c : Bool) : Prog Unit := if c then turn else pure ()

/-- One delivery: a key the ring lacks is unwrapped and added, and the highest epoch seen
is remembered for the ack. -/
def adoptOne (pair : KeyPair) (session : Session) (acc : Keyring × ℕ) (d : PendingKeyDelivery) :
    Prog (Keyring × ℕ) := do
  if (keyForEpoch acc.1 d.epoch).isSome then pure (acc.1, max acc.2 d.epoch)
  else
    turn
    match unwrapRotatedKey pair.id d session.groupId session.deviceId with
    | none => throw
    | some key =>
        arrive (.under session (.groupKey key))
        pure (withEpoch acc.1 d.epoch key, max acc.2 d.epoch)

def adoptPendingKeys (ring : Keyring) (deliveries : List PendingKeyDelivery) (pair : KeyPair)
    (session : Session) : Prog Keyring := do
  let updated ←
    (deliveries.insertionSort fun a b => a.epoch ≤ b.epoch).foldlM (adoptOne pair session) (ring, 0)
  saveKeyring updated.1
  -- the ack and the notice
  turnIf (0 < updated.2)
  turnIf (updated.1 ≠ ring)
  pure updated.1

def generateGroupKey (session : Session) : Prog GroupKey := do
  let key ← await .draw
  arrive (.under session (.groupKey key))
  pure key

/-- `none` when there is nothing to rotate, or another device was first. -/
def rotateGroupKey (ring : Keyring) (session : Session) : Prog (Option Keyring) := do
  let listing ← await (.listDevices session)
  if listing.rotationPending then
    if ← ask .rosterChanged then throw
    else
      let newKey ← generateGroupKey session
      turn
      match ← await (.rotateKey session (listing.keyEpoch + 1)) with
      | none => pure none
      | some epoch =>
          let updated := withEpoch ring epoch newKey
          saveKeyring updated
          turn
          pure (some updated)
  else pure none

/-- `secretsChanged` starts a `refreshVault`, which is a job of its own. -/
def applyKeyring (updated : Keyring) : Prog Unit := setKeyring (some updated)

def applySigningKeyPair (pair : KeyPair) : Prog Unit := setSigningKeyPair (some pair)

def adoptKeys (ring : Keyring) (keys : List PendingKeyDelivery) (session : Session) :
    Prog Keyring := do
  match keys, (← read).secrets.deviceKeyPair with
  | _ :: _, some pair =>
      let updated ← adoptPendingKeys ring keys pair session
      applyKeyring updated
      pure updated
  | _, _ => pure ring

def completeDueRotation (ring : Keyring) (session : Session) : Prog Keyring :=
  (do
    match ← rotateGroupKey ring session with
    | none => pure ring
    | some updated =>
        applyKeyring updated
        pure updated).catching (pure ring)

def rotateIfDue (due : Bool) (ring : Keyring) (session : Session) : Prog Keyring :=
  if due then completeDueRotation ring session else pure ring

/-- A send that was turned away for its key goes out under the new one. -/
def flushAgain (again : Bool) : Prog Unit :=
  if again then do
    let _ ← flushOutbox
  else pure ()

/-- What `syncNow` tries. The name, the vault, the roster and the messages come after the
keys, and set no secret. -/
def syncPass (session : Session) (ring : Keyring) : Prog Unit := do
  let remaining ← flushOutbox
  let answer ← await (.pendingMessages session)
  let adopted ← adoptKeys ring answer.keys session
  let updated ← rotateIfDue answer.rotationPending adopted session
  flushAgain (remaining ∧ updated.current ≠ ring.current)
  turn

/-- One pass at a time, whichever space it is for. -/
def syncNow : Prog Unit := do
  let page ← read
  match page.running, page.secrets.session, page.secrets.keyring with
  | false, some session, some ring =>
      write fun p => { p with running := true }
      (syncPass session ring).catching (pure ())
      write fun p => { p with running := false }
  | _, _, _ => pure ()

/-- A rotation that the user asks for. -/
def rotateNow : Prog Unit := do
  let page ← read
  match page.secrets.session, page.secrets.keyring with
  | some session, some ring =>
      match ← rotateGroupKey ring session with
      | none => pure ()
      | some updated => applyKeyring updated
  | _, _ => pure ()

/-- The pair that is held, or a new one, which is stored first. -/
def ownSigningKeyPair (session : Session) : Prog KeyPair := do
  match (← read).secrets.signingKeyPair with
  | some pair => pure pair
  | none =>
      let pair := KeyPair.mk (← await .draw) true
      arrive (.under session (.signingKeyPair pair))
      metaSet (← db) (.signingKeyPair pair)
      applySigningKeyPair pair
      pure pair

/-- The device pins itself, under the id that is in memory by then. -/
def pinOwnKeys : Prog Unit := do
  let page ← read
  match page.secrets.deviceKeyPair, page.secrets.session with
  | none, _ => pure ()
  | some _, none => throw
  | some _, some _ => turn

def ensureSigningIdentity : Prog Unit := do
  let page ← read
  match page.signingKeyPublished, page.secrets.session with
  | false, some session =>
      if ← ask (.signingKeyPublished (← db)) then
        write fun p => { p with signingKeyPublished := true }
      else
        let _ ← ownSigningKeyPair session
        turn
        pinOwnKeys
        turn
        turn
        write fun p => { p with signingKeyPublished := true }
  | _, _ => pure ()

/-- A key that cannot be exported is left out. -/
def serializePair : Option KeyPair → Prog (Option SerializedKeyPair)
  | none => pure none
  | some pair => do
      turn
      pure (serializeKeyPair pair)

/-- The key pairs are those in memory by the time each is reached. -/
def activeSpaceSecrets (space : SpaceId) : Prog SpaceSecrets := do
  let page ← read
  match page.secrets.session, page.secrets.keyring with
  | some session, some ring =>
      turn
      let deviceKeyPair ← serializePair (← read).secrets.deviceKeyPair
      let signingKeyPair ← serializePair (← read).secrets.signingKeyPair
      pure ⟨space, session, ring, deviceKeyPair, signingKeyPair⟩
  | _, _ => throw

/-- `unlocked.set`. -/
def setUnlocked (secrets : SpaceSecrets) : Prog Unit := do
  match (← read).unlocked with
  | none => throw
  | some unlocked => write fun p => { p with unlocked := some (unlocked.put secrets) }

/-- The secrets of the space move into the envelope, which is sealed again. -/
def refreshVault : Prog Unit := do
  let page ← read
  if page.locked ∨ page.unlocked.isNone ∨ page.secrets.session.isNone ∨
    page.secrets.keyring.isNone then pure ()
  else match page.active with
    | none => pure ()
    | some space =>
        setUnlocked (← activeSpaceSecrets space)
        turn
        turn
        forEach (metaDelete space) [.session, .keyring, .deviceKeyPair, .signingKeyPair]

/-- The loads. What `startSync` and `ensureSigningIdentity` set going is not awaited. -/
def startSession : Prog Unit := do
  turn
  let _ ← db
  turn

def beginSpace : Prog SpaceId := do
  let id ← await .addSpace
  setActive (some id)
  turn
  pure id

/-- What a pairing brings to the space it has registered. -/
def joinedSecrets (j : Linking.Joining) : OpenSecrets :=
  ⟨some j.session, some (createKeyring j.package.payload.groupKey j.package.payload.keyEpoch),
    some j.pending.keyPair, j.pending.signingKeyPair⟩

/-- The writes are made against the space that is open when they are asked for. -/
def persistSession (j : Linking.Joining) : Prog Unit := do
  let space ← db
  forEach (metaSet space) j.entries
  write fun p => { p with secrets := joinedSecrets j }

def forgetPairing : Prog Unit := await .forgetPairing

/-- The rest of `pollLink`, with the package. The roster, the pins and the notice set no
secret. -/
def completeLinking (pending : Linking.PendingPairing) (package : Linking.PairingPackage) :
    Prog Unit := do
  turn
  let space ← beginSpace
  let j : Linking.Joining := ⟨pending, package, space⟩
  arrive (.joined space (joinedSecrets j))
  persistSession j
  turn
  forgetPairing
  startSession
  write fun p => { p with linking := false }

def stopLinkPolling : Prog Unit := write fun p => { p with linkTimer := none }

/-- One tick of the timer. An error of the network leaves the timer on. -/
def pollLink : Prog Unit := do
  match (← read).linkTimer with
  | none => pure ()
  | some pending =>
      (do
        match ← await (.pairingPoll pending.payload.pairingId) with
        | .notReady | .networkError => pure ()
        | .error => throw
        | .package wrapped =>
            stopLinkPolling
            turn
            match Linking.unwrapPairingPackage pending.payload.publicKey wrapped
              pending.payload.pairingId with
            | none => throw
            | some package => completeLinking pending package).catching stopLinkPolling

def resumeLinking : Prog Unit := do
  let page ← read
  if page.linking ∨ page.locked then pure ()
  else match ← await .pendingPairing with
    | none => pure ()
    | some pending => write fun p => { p with linking := true, linkTimer := some pending }

def pauseLinking : Prog Unit := write fun p => { p with linking := false, linkTimer := none }

/-- A space that is open is left. -/
def leaveOpen : Prog Unit := do
  if (← read).activeSpace.isSome then closeSpace else pure ()

def startSignedIn : Prog Unit := do
  if (← read).secrets.session.isSome then startSession else pure ()

def leave (current : Route) : Prog Unit := do
  leaveOpen
  if current = .spaces then
    turn
    resumeLinking
  else pure ()

def enter (space : SpaceId) : Prog Unit := do
  leaveOpen
  pauseLinking
  match ← openSpace space with
  | false => write fun p => { p with route := .spaces }
  | true =>
      startSignedIn
      turn

/-- Bring the app in line with the address. -/
def applyRoute : Prog Unit := do
  let page ← read
  if page.locked then pure ()
  else match page.route with
    | .space space => if page.activeSpace = some space then pure () else enter space
    | current => leave current

/-- The address changes, and `applyRoute` runs. -/
def navigate (route : Route) : Prog Unit := do
  write fun p => { p with route }
  applyRoute

end Prog

inductive PageJob where
  | navigate (route : Route)
  | syncNow
  | rotateNow
  | ensureSigningIdentity
  | refreshVault
  | pollLink
deriving DecidableEq, Repr

def PageJob.program : PageJob → Prog Unit
  | .navigate route => Prog.navigate route
  | .syncNow => Prog.syncNow
  | .rotateNow => Prog.rotateNow
  | .ensureSigningIdentity => Prog.ensureSigningIdentity
  | .refreshVault => Prog.refreshVault
  | .pollLink => Prog.pollLink

namespace Page

open Coroutine

/-- A suspended run remembers which space was open. -/
def routing : Loop Page PageInput (Option SpaceId) PageJob PageOp.Answer where
  exec := exec
  key := active
  program := PageJob.program

/-- A run goes on in the space, or on the list, that it went to wait in. -/
def Undisturbed (_ : PageJob) (left : Option SpaceId) (p : Page) : Prop := p.active = left

/-- A poll for a pairing package starts where no space is open. -/
def OnTheList (job : PageJob) (p : Page) : Prop := job = .pollLink → p.active = none

instance (job : PageJob) (left : Option SpaceId) (p : Page) : Decidable (Undisturbed job left p) :=
  inferInstanceAs (Decidable (_ = _))

instance (job : PageJob) (p : Page) : Decidable (OnTheList job p) :=
  inferInstanceAs (Decidable (_ → _))

end Page
end SendSelf
