import SendSelf.Outbox.Sender

/-!
# Senders and the server

Every honest sender of a space next to the server that keeps its messages and
files. A delivery uploads the file and then sends the message, one request at a
time; the answer of any try may be lost while the request itself is still on its
way. The parties choose ids and object keys at random, so a new message has an id
and a key of its own.
-/
namespace SendSelf

structure OutboxWorld where
  server : FileServer
  entries : MessageId → Option Entry
  /-- History: the ids and keys that were chosen. -/
  composed : List (MessageId × FileKey)

inductive OutboxLabel where
  | compose (id : MessageId) (cli : Bool) (token : Token) (r2Key : FileKey)
      (file : Plaintext) (size : ℕ)
  | begin (id : MessageId) (ring : Keyring)
  | upload (id : MessageId) (iv : Iv) (r : RequestId)
  | resend (id : MessageId) (r : RequestId)
  | receive (id : MessageId) (e : Envelope) (r : RequestId)
  | giveUp (id : MessageId)
  | kill (id : MessageId)
  | retry (id : MessageId)
  | delete (id : MessageId)
  | other (e : FileEvent)
deriving Repr

namespace OutboxWorld

def setEntry (s : OutboxWorld) (id : MessageId) (entry : Entry) : OutboxWorld :=
  { s with entries := Function.update s.entries id (some entry) }

/-- Put a request on its way to the server. -/
def start (s : OutboxWorld) (r : RequestId) (job : Job) : Option OutboxWorld :=
  (s.server.step (.start r job)).map fun server => { s with server }

def compose (s : OutboxWorld) (id : MessageId) (cli : Bool) (token : Token) (r2Key : FileKey)
    (file : Plaintext) (size : ℕ) : Option OutboxWorld :=
  if ∀ q ∈ s.composed, q.1 ≠ id ∧ q.2 ≠ r2Key then
    let entry : Entry :=
      { origin := if cli then .cli 0 false else .pwa, token, r2Key, file, size, keyEpoch := none,
        iv := none, status := .queued, pc := none, used := none }
    some ({ s with composed := (id, r2Key) :: s.composed }.setEntry id entry)
  else none

/-- The keyring that is loaded has the keys of the space. -/
def agrees (keyOf : ℕ → GroupKey) (ring : Keyring) : Bool :=
  ring.keys.all fun p => decide (p.2 = keyOf p.1)

/-- A pass or a delivery takes up the message and settles on an epoch. -/
def begin (keyOf : ℕ → GroupKey) (s : OutboxWorld) (id : MessageId) (ring : Keyring) :
    Option OutboxWorld := do
  let entry ← s.entries id
  let (epoch, key) ← entry.pinEpoch ring
  if entry.isQueued ∧ entry.pc = none ∧ agrees keyOf ring then
    some (s.setEntry id { entry.pin epoch entry.iv with pc := some (.sealing epoch key) })
  else none

/-- The file is encrypted, under the pinned vector if there is one, and uploaded. -/
def upload (s : OutboxWorld) (id : MessageId) (iv : Iv) (r : RequestId) : Option OutboxWorld := do
  let entry ← s.entries id
  match entry.pc with
  | some (.sealing epoch key) =>
      let fileIv := entry.iv.getD iv
      let content := entry.encryptMessageFile id key fileIv
      let pinned := (entry.pin epoch (some fileIv)).withStatus .uploading
      (s.setEntry id
        { pinned with
          pc := some (.uploading epoch fileIv content 0 r), used := some (epoch, fileIv) }).start r
          (.upload entry.token (entry.uploadRequest content) .received)
  | _ => none

/-- The try failed on the network, or with a 5xx: the same request goes out again. -/
def resend (s : OutboxWorld) (id : MessageId) (r : RequestId) : Option OutboxWorld := do
  let entry ← s.entries id
  match entry.pc with
  | some (.uploading epoch iv content attempt _) =>
      if attempt < SEND_RETRIES then
        (s.setEntry id { entry with
          pc := some (.uploading epoch iv content (attempt + 1) r) }).start r
          (.upload entry.token (entry.uploadRequest content) .received)
      else none
  | some (.sending body attempt _) =>
      if attempt < SEND_RETRIES then
        (s.setEntry id { entry with pc := some (.sending body (attempt + 1) r) }).start r
          (.send entry.token body .received)
      else none
  | _ => none

/-- The delivery gets the answer it waits for. -/
def receive (s : OutboxWorld) (id : MessageId) (e : Envelope) (r : RequestId) :
    Option OutboxWorld := do
  let entry ← s.entries id
  match entry.pc with
  | some (.uploading epoch iv _ attempt awaiting) =>
      match s.server.jobs awaiting with
      | some (.upload _ _ (.answered (.ok ()))) =>
          let body := entry.sendRequest id epoch iv e
          (s.setEntry id { entry with pc := some (.sending body 0 r) }).start r
            (.send entry.token body .received)
      | some (.upload _ _ (.answered (.error error))) =>
          if error.code = .internal ∧ attempt < SEND_RETRIES then none
          else some (s.setEntry id (entry.afterError error.code))
      | _ => none
  | some (.sending _ attempt awaiting) =>
      match s.server.jobs awaiting with
      | some (.send _ _ (.answered (.ok ()))) =>
          some (s.setEntry id ({ entry with pc := none }.withStatus .sent))
      | some (.send _ _ (.answered (.error error))) =>
          -- our own id: an earlier try of this very request landed
          if error.code = .conflict then
            some (s.setEntry id ({ entry with pc := none }.withStatus .sent))
          else if error.code = .internal ∧ attempt < SEND_RETRIES then none
          else some (s.setEntry id (entry.afterError error.code))
      | _ => none
  | _ => none

def change (s : OutboxWorld) (id : MessageId) (f : Entry → Option Entry) : Option OutboxWorld := do
  let entry ← s.entries id
  let entry ← f entry
  some (s.setEntry id entry)

def retry (entry : Entry) : Option Entry :=
  if entry.origin = .pwa ∧
  entry.status = .failed then some { entry with status := .queued } else none

/-- What happens on the server besides: the steps of every request, those of the key
protocol, acknowledgements and cleanups, and messages without a file. -/
def allowed : FileEvent → Bool
  | .start _ (.upload _ _ _) => false
  | .start _ (.send _ body _) => body.fileR2Key.isNone
  | _ => true

def step (keyOf : ℕ → GroupKey) (s : OutboxWorld) : OutboxLabel → Option OutboxWorld
  | .compose id cli token r2Key file size => s.compose id cli token r2Key file size
  | .begin id ring => s.begin keyOf id ring
  | .upload id iv r => s.upload id iv r
  | .resend id r => s.resend id r
  | .receive id e r => s.receive id e r
  | .giveUp id => s.change id fun entry =>
      if entry.pc = none then none else some entry.afterGivingUp
  | .kill id => s.change id fun entry => some entry.afterKill
  | .retry id => s.change id retry
  | .delete id => s.change id fun entry => some { entry with status := .deleted }
  | .other e => if allowed e then (s.server.step e).map fun server => { s with server } else none

end OutboxWorld

/-- A new group, in which nothing was written yet. -/
def OutboxWorld.founded (groupId : GroupId) (founder : SlotDevice) (token : Token)
    (elsewhere : List DeviceId) (foreign : List MessageId) : OutboxWorld where
  server := .founded groupId founder token elsewhere foreign
  entries := fun _ => none
  composed := []

end SendSelf
