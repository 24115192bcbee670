import SendSelf.Keys.Client
import SendSelf.Worker.Effects

/-!
# Devices, their requests and the server

The server together with the devices of a space. A device runs tasks: a sync
pass, a revocation with the rotation that follows it, the linking of another
device. A task sends one request at a time and waits for its answer. The answer
of any try may be lost, and the HTTP layer then sends the same request again
while the earlier try may still be on its way to the server, or already
committed there.

Six fields are history and not state of the program: what was sent for which task,
the key whose rotation took the group to an epoch, what a random key or token was
minted for, which identities have joined, and which device was handed which key.
-/
namespace SendSelf

abbrev TaskId := ℕ

/-- Where a task waits. -/
inductive Pc where
  | polling
  | acking (epoch : ℕ) (rotationPending : Bool)
  | listing
  | rotating (epoch : ℕ) (newKey : GroupKey) (wraps : List KeyWrap)
  | revoking (deviceId : DeviceId)
  | linking (pairingId : PairingId) (body : PairingCompleteBody)
deriving DecidableEq, Repr

namespace Pc

def request : Pc → ApiRequest
  | .polling => .pendingMessages
  | .acking epoch _ => .ackKey epoch
  | .listing => .listDevices
  | .rotating epoch _ wraps => .rotateKey ⟨epoch, wraps⟩
  | .revoking deviceId => .revokeDevice deviceId
  | .linking pairingId body => .completePairing pairingId body

/-- `retries` of the call: a poll is sent once, the others up to three times. -/
def retries : Pc → ℕ
  | .polling => 0
  | _ => 2

theorem eq_polling {pc : Pc} (h : pc.request = .pendingMessages) : pc = .polling := by
  cases pc <;> simp_all [request]

theorem eq_rotating {pc : Pc} {body : RotateKeyRequest} (h : pc.request = .rotateKey body) :
    ∃ newKey, pc = .rotating body.epoch newKey body.wraps := by
  cases pc with
  | rotating epoch newKey wraps =>
    obtain rfl : _ = body := ApiRequest.rotateKey.inj h
    exact ⟨newKey, rfl⟩
  | _ => cases h

theorem eq_acking {pc : Pc} {epoch : ℕ} (h : pc.request = .ackKey epoch) :
    ∃ rotationPending, pc = .acking epoch rotationPending := by
  cases pc with
  | acking e rotationPending =>
    obtain rfl : e = epoch := ApiRequest.ackKey.inj h
    exact ⟨rotationPending, rfl⟩
  | _ => cases h

theorem eq_linking {pc : Pc} {pairingId : PairingId} {body : PairingCompleteBody}
    (h : pc.request = .completePairing pairingId body) : pc = .linking pairingId body := by
  cases pc with
  | linking p b =>
    obtain ⟨rfl, rfl⟩ := ApiRequest.completePairing.inj h
    rfl
  | _ => cases h

end Pc

/-- A task, with the copy of the keyring it captured and carries along. -/
structure Task where
  publicKey : PublicKey
  session : Session
  ring : Keyring
  /-- Started by `syncNow`, which runs one pass at a time. -/
  sync : Bool
  pc : Pc
  attempt : ℕ
  awaiting : RequestId
deriving DecidableEq, Repr

/-- A device's own side. The session and the keyring arrive with the package of
the pairing; `memory` is the keyring signal, and `saved` what is persisted. -/
structure Client where
  deviceId : DeviceId
  pairingId : PairingId
  signingPublicKey : Option SigningKey
  session : Option Session
  saved : Option Keyring
  memory : Option Keyring
  running : Bool
deriving DecidableEq, Repr

def Client.payload (c : Client) (publicKey : PublicKey) : PairingQrPayload :=
  ⟨c.pairingId, publicKey, c.signingPublicKey, c.deviceId⟩

structure World where
  server : Server
  clients : PublicKey → Option Client
  tasks : TaskId → Option Task
  sent : RequestId → Option Task
  keyOf : ℕ → Option GroupKey
  minted : GroupKey → Option ℕ
  owner : Token → Option PublicKey
  joined : List (DeviceId × PairingId)
  handed : List (DeviceId × GroupKey)

inductive Label where
  | join (publicKey : PublicKey) (device : SlotDevice) (pairingId : PairingId)
  | openPackage (publicKey : PublicKey)
  | dropSlot (pairingId : PairingId)
  | syncNow (t : TaskId) (publicKey : PublicKey) (r : RequestId)
  | revoke (t : TaskId) (publicKey : PublicKey) (deviceId : DeviceId) (r : RequestId)
  | addDevice (t : TaskId) (publicKey joiner : PublicKey) (token : Token) (r : RequestId)
  | serve (r : RequestId) (now : ℕ) (limited : Bool)
  | resend (t : TaskId) (r : RequestId)
  | giveUp (t : TaskId)
  | receive (t : TaskId) (r : RequestId) (trusted : Bool) (newKey : GroupKey)
  | restart (publicKey : PublicKey)
deriving DecidableEq, Repr

namespace World

def db (s : World) : SpaceDb := s.server.db

def setClient (s : World) (publicKey : PublicKey) (c : Client) : World :=
  { s with clients := Function.update s.clients publicKey (some c) }

def mintToken (s : World) (token : Token) (joiner : PublicKey) : World :=
  { s with owner := WriteOnce.record s.owner token joiner }

def mintKey (s : World) (newKey : GroupKey) (epoch : ℕ) : World :=
  { s with minted := WriteOnce.record s.minted newKey epoch }

/-- Put the task's next request on its way. -/
def send (s : World) (t : TaskId) (task : Task) (r : RequestId) : Option World :=
  (s.server.receive r task.session.token task.pc.request).map fun server =>
    let task := { task with awaiting := r }
    { s with
      server
      tasks := Function.update s.tasks t (some task)
      sent := Function.update s.sent r (some task) }

/-- A task is over; a sync pass lets the next one run. -/
def finish (s : World) (t : TaskId) (task : Task) : World :=
  let s' := { s with tasks := Function.update s.tasks t none }
  match task.sync, s.clients task.publicKey with
  | true, some c => s'.setClient task.publicKey { c with running := false }
  | _, _ => s'

/-- A joining device mints its identity and publishes it in a slot of its own. -/
def join (s : World) (publicKey : PublicKey) (device : SlotDevice) (pairingId : PairingId) :
    Option World :=
  match s.clients publicKey with
  | some _ => none
  | none =>
      if device.publicKey = publicKey ∧
        ¬ s.db.pairing.exist (fun p => decide (p.pairingId = pairingId))
      then
        let c : Client := ⟨device.id, pairingId, device.signingPublicKey, none, none, none, false⟩
        some ({ s with
          server := s.server.reserve pairingId device
          joined := (device.id, pairingId) :: s.joined }.setClient publicKey c)
      else none

/-- The joining device finds its package, unwraps and persists it. -/
def openPackage (s : World) (publicKey : PublicKey) : Option World := do
  let c ← s.clients publicKey
  let slot ← s.db.pairing.get? c.pairingId
  let package ← slot.wrappedPackage
  let payload ← unwrapPairingPackage publicKey package c.pairingId
  if c.session.isSome then none
  else
    let ring := createKeyring payload.groupKey payload.keyEpoch
    let session : Session := ⟨c.deviceId, payload.deviceAuthToken, payload.groupId⟩
    some (s.setClient publicKey
      { c with session := some session, saved := some ring, memory := some ring })

def syncNow (s : World) (t : TaskId) (publicKey : PublicKey) (r : RequestId) : Option World := do
  let c ← s.clients publicKey
  let session ← c.session
  let ring ← c.memory
  if c.running ∨ (s.tasks t).isSome then none
  else
    (s.setClient publicKey { c with running := true }).send t
      { publicKey, session, ring, sync := true, pc := .polling, attempt := 0, awaiting := r } r

def revoke (s : World) (t : TaskId) (publicKey : PublicKey) (deviceId : DeviceId) (r : RequestId) :
    Option World := do
  let c ← s.clients publicKey
  let session ← c.session
  let ring ← c.memory
  if (s.tasks t).isSome then none
  else
    s.send t { publicKey, session, ring, sync := false, pc := .revoking deviceId, attempt := 0,
               awaiting := r } r

/-- Link a device whose code was scanned. The token is fresh. -/
def addDevice (s : World) (t : TaskId) (publicKey joiner : PublicKey) (token : Token)
    (r : RequestId) : Option World := do
  let c ← s.clients publicKey
  let session ← c.session
  let ring ← c.memory
  let j ← s.clients joiner
  let body ← SendSelf.addDevice.body session ring (j.payload joiner) token
  if (s.tasks t).isSome ∨ (s.owner token).isSome then none
  else
    (s.mintToken token joiner).send t
      { publicKey, session, ring, sync := false, pc := .linking j.pairingId body, attempt := 0,
        awaiting := r } r

/-- The try failed on the network, or with a 5xx: the same request goes out again. -/
def resend (s : World) (t : TaskId) (r : RequestId) : Option World := do
  let task ← s.tasks t
  if task.attempt < task.pc.retries then s.send t { task with attempt := task.attempt + 1 } r
  else none

/-- The last try failed on the network. -/
def giveUp (s : World) (t : TaskId) : Option World := do
  let task ← s.tasks t
  if task.attempt < task.pc.retries then none else some (s.finish t task)

/-- The app is closed and opened again: its tasks are gone and the persisted
keyring is loaded. -/
def restart (s : World) (publicKey : PublicKey) : Option World :=
  (s.clients publicKey).map fun c =>
    { s with tasks := fun t =>
      (s.tasks t).filter fun task => decide (task.publicKey ≠ publicKey) }.setClient
      publicKey { c with memory := c.saved, running := false }

/-- After the keys are in place: a pass goes on to the rotation if one is due. -/
def afterAdopting (s : World) (t : TaskId) (task : Task) (rotationPending : Bool) (r : RequestId) :
    Option World :=
  if rotationPending then s.send t { task with pc := .listing, attempt := 0 } r
  else some (s.finish t task)

/-- `adoptPendingKeys` as far as the save. -/
def adopt (s : World) (t : TaskId) (task : Task) (c : Client) (resp : PendingMessagesResponse)
    (r : RequestId) : Option World :=
  if resp.keys = [] then s.afterAdopting t task resp.rotationPending r
  else
    match adoptPendingKeys.updated task.publicKey task.session task.ring resp.keys with
    | none => some (s.finish t task)
    | some (ring, highest) =>
        let s := s.setClient task.publicKey { c with saved := some ring }
        if 0 < highest then
          s.send t { task with ring, pc := .acking highest resp.rotationPending, attempt := 0 } r
        else
          (s.setClient task.publicKey { c with
            saved := some ring, memory := some ring }).afterAdopting
            t { task with ring } resp.rotationPending r

/-- The wraps for a listing; the roster check may stop the rotation. -/
def rotate (s : World) (t : TaskId) (task : Task) (resp : DevicesListResponse) (trusted : Bool)
    (newKey : GroupKey) (r : RequestId) : Option World :=
  if ¬ resp.rotationPending ∨ ¬ trusted then some (s.finish t task)
  else if (s.minted newKey).isSome then none
  else
    let epoch := resp.keyEpoch + 1
    let wraps := rotateGroupKey.wraps task.session resp.devices epoch newKey
    (s.mintKey newKey epoch).send t
      { task with pc := .rotating epoch newKey wraps, attempt := 0 } r

/-- A task gets the answer it waits for. A 5xx is an answer only to the last try. -/
def receive (s : World) (t : TaskId) (r : RequestId) (trusted : Bool) (newKey : GroupKey) :
    Option World := do
  let task ← s.tasks t
  let c ← s.clients task.publicKey
  let f ← s.server.flights task.awaiting
  match task.pc, f.stage with
  | pc, .answered (.error e) =>
      if e.code = .internal ∧ task.attempt < pc.retries then none else some (s.finish t task)
  | .polling, .answered (.pending resp) => s.adopt t task c resp r
  | .acking _ rotationPending, .answered .ok =>
      (s.setClient task.publicKey { c with memory := some task.ring }).afterAdopting t task
        rotationPending r
  | .listing, .answered (.listing resp) => s.rotate t task resp trusted newKey r
  | .rotating _ key _, .answered (.rotated resp) =>
      let ring := withEpoch task.ring resp.epoch key
      some ((s.setClient task.publicKey { c with saved := some ring, memory := some ring }).finish t
        task)
  | .revoking _, .answered .ok =>
      match c.memory with
      | none => some (s.finish t task)
      | some ring => s.send t { task with ring, pc := .listing, attempt := 0 } r
  | .linking _ _, .answered .ok => some (s.finish t task)
  | _, _ => none

/-- The key a rotation takes the group to its epoch with. -/
def keyOfAfter (keyOf : ℕ → Option GroupKey) : Pc → Stage → Stage → ℕ → Option GroupKey
  | .rotating epoch newKey _, .ready _, .answered (.rotated _) =>
    WriteOnce.record keyOf epoch newKey
  | _, _, _ => keyOf

/-- The keys a step hands out: to the device that reads its rows, to the one a
package is left for, and to the one whose rotation goes through. -/
def handedBy : Pc → Stage → Stage → List (DeviceId × GroupKey)
  | .rotating _ newKey _, .ready auth, .answered (.rotated _) => [(auth.deviceId, newKey)]
  | .polling, .authed auth, .answered (.pending resp) =>
      resp.keys.map fun d => (auth.deviceId, d.wrappedKey.payload.groupKey)
  | .linking _ body, .readyToPair device, .answered .ok =>
      [(device.id, body.wrappedPackage.payload.groupKey)]
  | _, _, _ => []

theorem keyOfAfter_eq {keyOf : ℕ → Option GroupKey} {pc : Pc} {stage stage' : Stage}
    (h : ∀ resp, stage' ≠ .answered (.rotated resp)) :
    keyOfAfter keyOf pc stage stage' = keyOf := by
  unfold keyOfAfter
  split
  · next resp => exact absurd rfl (h resp)
  · rfl

@[simp] theorem keyOfAfter_same {keyOf : ℕ → Option GroupKey} {pc : Pc} {stage : Stage} :
    keyOfAfter keyOf pc stage stage = keyOf := by
  cases stage <;> cases pc <;> rfl

def serve (s : World) (r : RequestId) (now : ℕ) (limited : Bool) : Option World := do
  let task ← s.sent r
  let f ← s.server.flights r
  let server ← s.server.advance r now limited
  let stage := (f.request.advance now limited f.token s.db f.stage).2
  some { s with
    server
    keyOf := keyOfAfter s.keyOf task.pc f.stage stage
    handed := handedBy task.pc f.stage stage ++ s.handed }

def step (s : World) : Label → Option World
  | .join publicKey device pairingId => s.join publicKey device pairingId
  | .openPackage publicKey => s.openPackage publicKey
  | .dropSlot pairingId => some { s with server := s.server.release pairingId }
  | .syncNow t publicKey r => s.syncNow t publicKey r
  | .revoke t publicKey deviceId r => s.revoke t publicKey deviceId r
  | .addDevice t publicKey joiner token r => s.addDevice t publicKey joiner token r
  | .serve r now limited => s.serve r now limited
  | .resend t r => s.resend t r
  | .giveUp t => s.giveUp t
  | .receive t r trusted newKey => s.receive t r trusted newKey
  | .restart publicKey => s.restart publicKey

end World

def Client.founding (groupId : GroupId) (founder : SlotDevice) (pairingId : PairingId)
    (token : Token) (key : GroupKey) : Client where
  deviceId := founder.id
  pairingId := pairingId
  signingPublicKey := founder.signingPublicKey
  session := some ⟨founder.id, token, groupId⟩
  saved := some (createKeyring key INITIAL_KEY_EPOCH)
  memory := some (createKeyring key INITIAL_KEY_EPOCH)
  running := false

/-- A new space: its founder holds the first key. -/
def World.created (groupId : GroupId) (founder : SlotDevice) (pairingId : PairingId) (token : Token)
    (key : GroupKey) (elsewhere : List DeviceId) : World where
  server := .founded groupId founder token elsewhere
  clients := WriteOnce.record (fun _ => none) founder.publicKey
    (.founding groupId founder pairingId token key)
  tasks := fun _ => none
  sent := fun _ => none
  keyOf := WriteOnce.record (fun _ => none) INITIAL_KEY_EPOCH key
  minted := WriteOnce.record (fun _ => none) key INITIAL_KEY_EPOCH
  owner := WriteOnce.record (fun _ => none) token founder.publicKey
  joined := [(founder.id, pairingId)]
  handed := [(founder.id, key)]

end SendSelf
