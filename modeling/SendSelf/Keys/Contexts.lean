import SendSelf.Keys.Delivery

/-!
# One device in several contexts

Every tab of the app, and every process of the CLI, has its own copy of the keyring, and
all of them write the one that is stored: a tab's `syncNow` and `revokeDevice` the space's
`META_KEYRING`, a process's `syncKeys` the device file. The server is the one of the space,
and the other devices' requests arrive there in any order. A keyring is stored in a step of
its own, between the answer it was made from and the request that follows it.

`sent` is history: what each request of this device was sent for.
-/
namespace SendSelf

abbrev ContextId := ℕ

inductive ContextKind where
  | tab
  /-- A command of the CLI, which never rotates a key. -/
  | process
deriving DecidableEq, Repr

/-- Where a pass is: it waits for an answer, or it is about to store a keyring. -/
inductive PassPc where
  | waiting (pc : Pc)
  /-- `adoptPendingKeys` and `syncKeys`, before the keyring is stored and the keys are acked. -/
  | adopting (updated : Keyring) (highest : ℕ) (rotationPending : Bool)
  /-- `rotateGroupKey`, with the server's acceptance. -/
  | accepted (updated : Keyring)
deriving DecidableEq, Repr

def PassPc.storing : PassPc → Option Keyring
  | .adopting updated _ _ => some updated
  | .accepted updated => some updated
  | .waiting _ => none

/-- A call of `syncNow`, `revokeDevice` or `syncKeys`, with its own copy of the keyring. -/
structure Pass where
  context : ContextId
  ring : Keyring
  sync : Bool
  pc : PassPc
  attempt : ℕ
  awaiting : RequestId
deriving DecidableEq, Repr

/-- `memory` is the keyring signal, or the device that a command has loaded. -/
structure KeyContext where
  kind : ContextKind
  memory : Keyring
  running : Bool
deriving DecidableEq, Repr

structure SharedDevice where
  server : Server
  publicKey : PublicKey
  session : Session
  stored : Keyring
  contexts : ContextId → Option KeyContext
  passes : TaskId → Option Pass
  sent : RequestId → Option Pass

inductive ContextEvent where
  | server (event : ServerEvent)
  | open (c : ContextId) (kind : ContextKind)
  | close (c : ContextId)
  | sync (t : TaskId) (c : ContextId) (r : RequestId)
  | revoke (t : TaskId) (c : ContextId) (deviceId : DeviceId) (r : RequestId)
  | resend (t : TaskId) (r : RequestId)
  | giveUp (t : TaskId)
  | receive (t : TaskId) (r : RequestId) (trusted : Bool) (newKey : GroupKey)
  | save (t : TaskId) (r : RequestId)
deriving DecidableEq, Repr

namespace SharedDevice

def setContext (w : SharedDevice) (c : ContextId) (x : Option KeyContext) : SharedDevice :=
  { w with contexts := Function.update w.contexts c x }

def setPass (w : SharedDevice) (t : TaskId) (x : Option Pass) : SharedDevice :=
  { w with passes := Function.update w.passes t x }

def send (w : SharedDevice) (t : TaskId) (pass : Pass) (pc : Pc) (attempt : ℕ) (r : RequestId) :
    Option SharedDevice :=
  (w.server.receive r w.session.token pc.request).map fun server =>
    let pass := { pass with pc := .waiting pc, attempt, awaiting := r }
    { w with
      server, passes := Function.update w.passes t (some pass),
      sent := Function.update w.sent r (some pass) }

/-- A pass is over; one that was started by `syncNow` lets the next one run. -/
def finish (w : SharedDevice) (t : TaskId) (pass : Pass) : SharedDevice :=
  let w' := w.setPass t none
  match pass.sync, w.contexts pass.context with
  | true, some x => w'.setContext pass.context (some { x with running := false })
  | _, _ => w'

/-- `applyKeyring`, or what the command goes on with. -/
def remember (w : SharedDevice) (c : ContextId) (ring : Keyring) : SharedDevice :=
  match w.contexts c with
  | some x => w.setContext c (some { x with memory := ring })
  | none => w

/-- The keys are in place: a tab goes on to the rotation if one is due. -/
def afterAdopting (w : SharedDevice) (t : TaskId) (pass : Pass) (kind : ContextKind)
    (rotationPending : Bool) (r : RequestId) : Option SharedDevice :=
  if rotationPending ∧ kind = .tab then w.send t pass .listing 0 r else some (w.finish t pass)

def ackKeys (w : SharedDevice) (t : TaskId) (pass : Pass) (kind : ContextKind) (highest : ℕ)
    (rotationPending : Bool) (r : RequestId) : Option SharedDevice :=
  if 0 < highest then w.send t pass (.acking highest rotationPending) 0 r
  else (w.remember pass.context pass.ring).afterAdopting t pass kind rotationPending r

/-- What a pass makes of a poll. A command stores its keyring only if it has changed. -/
def adopt (w : SharedDevice) (t : TaskId) (pass : Pass) (kind : ContextKind)
    (resp : PendingMessagesResponse) (r : RequestId) : Option SharedDevice :=
  if resp.keys = [] then w.afterAdopting t pass kind resp.rotationPending r
  else match adoptPendingKeys.updated w.publicKey w.session pass.ring resp.keys with
    | none => some (w.finish t pass)
    | some (updated, highest) =>
        if kind = .process ∧ updated = pass.ring then
          w.ackKeys t pass kind highest resp.rotationPending r
        else
          some (w.setPass t (some
            { pass with pc := .adopting updated highest resp.rotationPending }))

def rotate (w : SharedDevice) (t : TaskId) (pass : Pass) (resp : DevicesListResponse)
    (trusted : Bool) (newKey : GroupKey) (r : RequestId) : Option SharedDevice :=
  if ¬ resp.rotationPending ∨ ¬ trusted then some (w.finish t pass)
  else
    let epoch := resp.keyEpoch + 1
    w.send t pass
      (.rotating epoch newKey (rotateGroupKey.wraps w.session resp.devices epoch newKey)) 0 r

/-- A pass gets the answer it waits for. A 5xx is an answer only to the last try. -/
def receive (w : SharedDevice) (t : TaskId) (r : RequestId) (trusted : Bool) (newKey : GroupKey) :
    Option SharedDevice := do
  let pass ← w.passes t
  let x ← w.contexts pass.context
  let f ← w.server.flights pass.awaiting
  match pass.pc, f.stage with
  | .waiting pc, .answered (.error e) =>
      if e.code = .internal ∧ pass.attempt < pc.retries then none else some (w.finish t pass)
  | .waiting .polling, .answered (.pending resp) => w.adopt t pass x.kind resp r
  | .waiting (.acking _ rotationPending), .answered .ok =>
      (w.remember pass.context pass.ring).afterAdopting t pass x.kind rotationPending r
  | .waiting .listing, .answered (.listing resp) => w.rotate t pass resp trusted newKey r
  | .waiting (.rotating _ key _), .answered (.rotated resp) =>
      some (w.setPass t (some { pass with pc := .accepted (withEpoch pass.ring resp.epoch key) }))
  | .waiting (.revoking _), .answered .ok => w.send t { pass with ring := x.memory } .listing 0 r
  | _, _ => none

/-- `saveKeyring` or `saveDevice`, and what comes after it. -/
def save (w : SharedDevice) (t : TaskId) (r : RequestId) : Option SharedDevice := do
  let pass ← w.passes t
  let x ← w.contexts pass.context
  match pass.pc with
  | .adopting updated highest rotationPending =>
      ({ w with stored := updated }).ackKeys t { pass with ring := updated } x.kind highest
        rotationPending r
  | .accepted updated =>
      some ((({ w with stored := updated }).remember pass.context updated).finish t pass)
  | .waiting _ => none

def step (w : SharedDevice) : ContextEvent → Option SharedDevice
  | .server (.receive r token request) =>
      if token = w.session.token then none
      else (w.server.receive r token request).map fun server => { w with server }
  | .server event => (w.server.step event).map fun server => { w with server }
  | .open c kind =>
      match w.contexts c with
      | none => some (w.setContext c (some ⟨kind, w.stored, false⟩))
      | some _ => none
  | .close c => some ({ w with
      passes := fun t => (w.passes t).filter fun pass =>
        decide (pass.context ≠ c) }.setContext c none)
  | .sync t c r =>
      match w.contexts c, w.passes t with
      | some x, none =>
          if x.running then none
          else (w.setContext c (some { x with running := true })).send t ⟨c, x.memory, true,
            .waiting .polling, 0, r⟩
            .polling 0 r
      | _, _ => none
  | .revoke t c deviceId r =>
      match w.contexts c, w.passes t with
      | some x, none =>
          if x.kind = .tab then
            w.send t ⟨c, x.memory, false, .waiting .polling, 0, r⟩ (.revoking deviceId) 0 r
          else none
      | _, _ => none
  | .resend t r => do
      let pass ← w.passes t
      match pass.pc with
      | .waiting pc =>
          if pass.attempt < pc.retries then w.send t pass pc (pass.attempt + 1) r else none
      | _ => none
  | .giveUp t => do
      let pass ← w.passes t
      match pass.pc with
      | .waiting pc => if pass.attempt < pc.retries then none else some (w.finish t pass)
      | _ => none
  | .receive t r trusted newKey => w.receive t r trusted newKey
  | .save t r => w.save t r

def Landed (w : SharedDevice) (r : RequestId) : Prop :=
  ∃ f resp, w.server.flights r = some f ∧ f.stage = .answered (.rotated resp)

/-- The pass is about to store the key of the rotation that the request asked for. -/
def AdoptsAt (w : SharedDevice) (t : TaskId) (r : RequestId) (epoch : ℕ)
    (newKey : GroupKey) : Prop :=
  ∃ pass, w.passes t = some pass ∧ pass.awaiting = r ∧
    ((∃ wraps, pass.pc = .waiting (.rotating epoch newKey wraps)) ∨
      ∃ updated, pass.pc = .accepted updated ∧ keyForEpoch updated epoch = some newKey)

/-- Every key whose epoch a context has acked, or has rotated to, is stored, from the
moment on at which the ack is sent and at which the rotating context has stored it. -/
structure Kept (w : SharedDevice) : Prop where
  acked : ∀ r pass epoch rotationPending, w.sent r = some pass →
    pass.pc = .waiting (.acking epoch rotationPending) →
    ∃ key, keyForEpoch pass.ring epoch = some key ∧ keyForEpoch w.stored epoch = some key
  rotated : ∀ r pass epoch newKey wraps, w.sent r = some pass →
    pass.pc = .waiting (.rotating epoch newKey wraps) →
    w.Landed r → keyForEpoch w.stored epoch = some newKey ∨ ∃ t, w.AdoptsAt t r epoch newKey

structure Start (w : SharedDevice) : Prop where
  server : w.server.Sound
  flights : ∀ r, w.server.flights r = none
  contexts : ∀ c, w.contexts c = none
  passes : ∀ t, w.passes t = none
  sent : ∀ r, w.sent r = none

/-- The pass waits for the acceptance of its rotation, which went through, or has got it. -/
def Won (w : SharedDevice) (pass : Pass) : Prop :=
  ((∃ epoch newKey wraps, pass.pc = .waiting (.rotating epoch newKey wraps)) ∧
    w.Landed pass.awaiting) ∨
    ∃ updated, pass.pc = .accepted updated

/-- A keyring is stored only over the one that the pass started from, a rotation is asked for
only under an epoch that is new to its context, and no context walks away from a rotation
that went through. -/
def Careful (w : SharedDevice) : ContextEvent → Prop
  | .save t _ => ∀ pass ∈ w.passes t, w.stored = pass.ring ∨ pass.pc.storing = some w.stored
  | .receive t _ _ _ => ∀ pass ∈ w.passes t, ∀ f ∈ w.server.flights pass.awaiting, ∀ resp,
      f.stage = .answered (.listing resp) → keyForEpoch pass.ring (resp.keyEpoch + 1) = none
  | .resend t _ => ∀ pass ∈ w.passes t, ¬ w.Won pass
  | .giveUp t => ∀ pass ∈ w.passes t, ¬ w.Won pass
  | .close c => ∀ t, ∀ pass ∈ w.passes t, pass.context = c → ¬ w.Won pass
  | .server (.advance r _ _) => ∀ f ∈ w.server.flights r, f.token = w.session.token →
      World.WinningBatch w.server.db f →
      ∃ t, ∃ pass ∈ w.passes t, pass.awaiting = r ∧ ∃ pc, pass.pc = .waiting pc
  | _ => True

end SharedDevice
end SendSelf
