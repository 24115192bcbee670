import SendSelf.Deletions.History
import SendSelf.Library.Rely
import SendSelf.Outbox.Sender

/-!
# A pass of the outbox

One pass of `doFlush` next to the user, who may delete messages on the device while it waits,
put the app away, or lose the network. The pass reads and writes the rows one call at a time,
and it is suspended at each call. `deleted` and `log` are history: the messages the user
deleted since the pass began, and what the calls on behalf of a message came to. So are
`checked`, the message whose row `update` has just found, and `counted`, the rows still owed
that the last count has read.
-/
namespace SendSelf.Flush

/-- No vector is the source's empty string. -/
structure FileRef where
  r2Key : FileKey
  name : Opaque
  size : ℕ
  mime : Opaque
  iv : Option Iv
deriving DecidableEq, Repr

structure RetrySchedule where
  attempts : ℕ
  notBefore : ℕ
deriving DecidableEq, Repr

structure Batch where
  id : Opaque
  index : ℕ
  count : ℕ
deriving DecidableEq, Repr

structure LocalMessage where
  id : MessageId
  direction : Direction
  text : Option Opaque
  file : Option FileRef
  createdAt : ℕ
  keyEpoch : Option ℕ
  deletes : Option MessageId
  batch : Option Batch
  viewOnce : Bool
  status : MessageStatus
  retry : Option RetrySchedule
deriving DecidableEq, Repr

namespace LocalMessage

def isQueuedOutgoing (message : LocalMessage) : Bool :=
  decide (message.direction = .outgoing ∧ (message.status = .queued ∨ message.status = .uploading))

def fileIv (message : LocalMessage) : Option Iv := message.file.bind FileRef.iv

end LocalMessage

structure Session where
  groupId : GroupId
  deviceId : DeviceId
  deviceAuthToken : Token
deriving DecidableEq, Repr

structure MessageMeta where
  file : Option (Opaque × ℕ × Opaque)
  batch : Option Batch
  viewOnce : Bool
deriving DecidableEq, Repr

inductive Failure where
  | api (code : ApiErrorCode)
  | network
  | abort
  /-- Thrown on the device. -/
  | thrown (message : String)
deriving DecidableEq, Repr

def Failure.isThrown : Failure → Bool
  | .thrown _ => true
  | _ => false

def isAlreadySent (error : Failure) : Bool := decide (error = .api .conflict)

def isRetriable : Failure → Bool
  | .abort | .network => true
  | .api code => Entry.isRetriable code
  | .thrown _ => false

def isKeyRotated (error : Failure) : Bool := decide (error = .api .key_rotated)

def FIRST_WAIT_MS : ℕ := 5000

def MAX_WAIT_MS : ℕ := 5 * 60000

def backOff (previous : Option RetrySchedule) (now : ℕ) : RetrySchedule :=
  let attempts := (previous.map RetrySchedule.attempts).getD 0 + 1
  ⟨attempts, now + min (FIRST_WAIT_MS * 2 ^ (attempts - 1)) MAX_WAIT_MS⟩

def retryDue (schedule : Option RetrySchedule) (now : ℕ) : Bool :=
  schedule.all fun schedule => decide (schedule.notBefore ≤ now)

def isDue (message : LocalMessage) (now : ℕ) : Bool :=
  message.isQueuedOutgoing && retryDue message.retry now

inductive Content where
  | text (text : Opaque)
  | metadata (plain : MessageMeta)
deriving DecidableEq, Repr

/-- What is done for a message and can fail. -/
inductive Work where
  | encryptFile (key : GroupKey) (blob : Plaintext) (iv : Iv)
  | encrypt (key : GroupKey) (content : Content)
  | sign (session : Session) (body : SendMessageRequest)
  | uploadFile (r2Key : FileKey) (content : FileCiphertext) (auth : Token)
  | sendMessage (body : SendMessageRequest) (auth : Token)
  /-- A step of the pass that throws by itself. -/
  | own
deriving DecidableEq, Repr

structure Event where
  id : MessageId
  work : Work
  failure : Option Failure
deriving DecidableEq, Repr

structure Phone where
  messages : Table LocalMessage.id
  session : Option Session
  keyring : Option Keyring
  hasSigningKey : Bool
  aborted : Bool
  onLine : Bool
  clock : ℕ
  deleted : List MessageId
  log : List Event
  checked : Option MessageId
  counted : List MessageId

/-- The device when a pass begins. -/
def Phone.start (messages : Table LocalMessage.id) (session : Option Session)
    (keyring : Option Keyring) (hasSigningKey aborted onLine : Bool) (clock : ℕ) : Phone where
  messages := messages
  session := session
  keyring := keyring
  hasSigningKey := hasSigningKey
  aborted := aborted
  onLine := onLine
  clock := clock
  deleted := []
  log := []
  checked := none
  counted := []

/-- What a row is read for. -/
inductive Reading where
  | list | look | check | count
deriving DecidableEq, Repr

inductive Op where
  | load
  /-- The ids that the index of the outbox lists. -/
  | listed
  | getMessage (id : MessageId) (reading : Reading)
  | putMessage (message : LocalMessage)
  | getFile (r2Key : FileKey)
  | randomIv
  | perform (id : MessageId) (work : Work)

def Work.Result : Work → Type
  | .encryptFile _ _ _ => FileCiphertext
  | .encrypt _ _ => Opaque × Opaque
  | .sign _ _ => Opaque
  | _ => Unit

def Op.Answer : Op → Type
  | .load => Option Session × Option Keyring × Bool
  | .listed => List MessageId
  | .getMessage _ _ => Option LocalMessage
  | .putMessage _ => Unit
  | .getFile _ => Option Plaintext
  | .randomIv => Iv
  | .perform _ work => Except Failure work.Result

/-- What a call comes to that neither the device nor the pass decides. -/
structure Chance where
  ids : List MessageId
  blob : Option Plaintext
  iv : Iv
  ciphertext : Opaque × Opaque
  signature : Opaque
  failure : Option Failure

namespace Phone

/-- The index may hold more ids than are owed, but none twice. -/
def Lists (s : Phone) (ids : List MessageId) : Prop :=
  ids.Nodup ∧ ∀ row ∈ s.messages, row.isQueuedOutgoing = true → row.id ∈ ids

instance {s : Phone} {ids : List MessageId} : Decidable (s.Lists ids) := by
  unfold Lists
  infer_instance

def listed (s : Phone) (chance : Chance) : List MessageId :=
  if s.Lists chance.ids then chance.ids else (s.messages.select LocalMessage.isQueuedOutgoing).map
    LocalMessage.id

/-- What reading a row leaves in the history. -/
def noteReading (s : Phone) (id : MessageId) (reading : Reading) : Phone :=
  match reading, s.messages.get? id with
  | .check, some _ => { s with checked := some id }
  | .count,
      some row => { s with counted := if row.isQueuedOutgoing then id :: s.counted else s.counted }
  | _, _ => s

def note (s : Phone) (id : MessageId) (work : Work) (failure : Option Failure) : Phone :=
  { s with log := s.log ++ [⟨id, work, failure⟩] }

end Phone

def Work.result (chance : Chance) (id : MessageId) : (work : Work) → work.Result
  | .encryptFile key blob iv => (⟨key, iv, id, blob⟩ : FileCiphertext)
  | .encrypt _ _ => chance.ciphertext
  | .sign _ _ => chance.signature
  | .uploadFile _ _ _ => ()
  | .sendMessage _ _ => ()
  | .own => ()

/-- A request can fail in any way; what is done on the device only throws. -/
def Work.failure (chance : Chance) : Work → Option Failure
  | .uploadFile _ _ _ | .sendMessage _ _ => chance.failure
  | _ => chance.failure.filter Failure.isThrown

def Phone.exec : (op : Op) → Chance → Phone → Phone × op.Answer
  | .load, _, s => (s, s.session, s.keyring, s.hasSigningKey)
  | .listed, chance, s => (s, s.listed chance)
  | .getMessage id reading, _, s => (s.noteReading id reading, s.messages.get? id)
  | .putMessage message, _,
      s => ({ s with messages := s.messages.put message, checked := none }, ())
  | .getFile _, chance, s => (s, chance.blob)
  | .randomIv, chance, s => (s, chance.iv)
  | .perform id work, chance, s =>
      (s.note id work (work.failure chance),
        match work.failure chance with
        | some failure => .error failure
        | none => .ok (work.result chance id))

abbrev Prog (α : Type) := ExceptT Failure (Coroutine Phone Op.Answer) α

open Coroutine

namespace Prog

def ask (op : Op) : Prog op.Answer := ExceptT.lift (call op)

def getMessage (id : MessageId) (reading : Reading) : Prog (Option LocalMessage) :=
  ask (Op.getMessage id reading)

def putMessage (message : LocalMessage) : Prog Unit := ask (Op.putMessage message)

def perform (id : MessageId) (work : Work) : Prog work.Result :=
  ExceptT.mk (call (Op.perform id work))

def phone : Prog Phone := ExceptT.lift Coroutine.read

/-- Throw, on behalf of a message. -/
def raise {α : Type} (id : MessageId) (failure : Failure) : Prog α := do
  ExceptT.lift (write fun s => s.note id .own (some failure))
  throwThe Failure failure

def throwIfAborted (id : MessageId) : Prog Unit := do
  let s ← phone
  if s.aborted then raise id .abort else pure ()

end Prog

open Flush.Prog

structure FlushResult where
  sent : ℕ
  failed : ℕ
  remaining : ℕ
deriving DecidableEq, Repr

structure FlushContext where
  keyring : Keyring
  session : Session
  hasSigningKey : Bool

def readRows (reading : Reading) : List MessageId → Prog (List LocalMessage)
  | [] => pure []
  | id :: ids => do
      let row ← getMessage id reading
      let rows ← readRows reading ids
      pure (row.toList ++ rows)

/-- `list` or `count` tells the two calls of a pass apart. -/
def queuedMessages (reading : Reading) : Prog (List LocalMessage) := do
  let ids ← ask Op.listed
  let rows ← readRows reading ids
  pure ((rows.filter LocalMessage.isQueuedOutgoing).insertionSort fun a b =>
    a.createdAt ≤ b.createdAt)

/-- A message that was deleted meanwhile is not written back. -/
def update (message : LocalMessage) : Prog Unit := do
  let found ← getMessage message.id .check
  match found with
  | none => pure ()
  | some _ => putMessage message

/-- Clear a pinned file IV. -/
def repinFile (message : LocalMessage) : Option FileRef :=
  message.file.map fun file => { file with iv := none }

/-- Pin the epoch this message is encrypted under, on the first attempt. -/
def pinEpoch (message : LocalMessage) (context : FlushContext) : Prog (ℕ × GroupKey) :=
  match message.keyEpoch.bind fun pinned => (keyForEpoch context.keyring pinned).map fun key =>
    (pinned, key) with
  | some pinned => pure pinned
  | none => do
      let epoch := context.keyring.current
      update { message with keyEpoch := some epoch }
      match currentKey context.keyring with
      | some key => pure (epoch, key)
      | none => raise message.id (.thrown "Keyring has no key for its current epoch")

/-- The request with its signature, where the device has a key to sign with. -/
def signed (context : FlushContext) (body : SendMessageRequest) : Prog SendMessageRequest := do
  if context.hasSigningKey then
    let signature ← perform body.id (.sign context.session body)
    pure { body with signature := some signature }
  else pure body

/-- `api.sendMessage`, where an id that is taken counts as sent. -/
def deliver (context : FlushContext) (body : SendMessageRequest) : Prog Unit :=
  tryCatch (do
    let body ← signed context body
    perform body.id (.sendMessage body context.session.deviceAuthToken)) fun error =>
      if isAlreadySent error then pure () else throwThe Failure error

/-- A request with nothing in it yet. -/
def request (id : MessageId) (keyEpoch : ℕ) : SendMessageRequest where
  id := id
  keyEpoch := keyEpoch
  encryptedPayload := none
  iv := none
  fileR2Key := none
  fileIv := none
  fileMeta := none
  fileMetaIv := none
  signature := none
  deletesMessageId := none

/-- Deliver a "delete for everyone" order. -/
def sendQueuedDeletion (message : LocalMessage) (deletesMessageId : MessageId)
    (context : FlushContext) :
    Prog Unit := do
  throwIfAborted message.id
  let (epoch, _) ← pinEpoch message context
  deliver context { request message.id epoch with deletesMessageId := some deletesMessageId }
  update { message with keyEpoch := some epoch, retry := none, status := .sent }

/-- The message's encrypted metadata, or nothing when there is nothing to say about it. -/
def metaFor (message : LocalMessage) : Option MessageMeta :=
  if message.file.isSome ∨ message.batch.isSome ∨ message.viewOnce then
    some ⟨message.file.map fun file => (file.name, file.size, file.mime), message.batch,
      message.viewOnce⟩
  else none

/-- Pin the vector, then encrypt and upload under it. -/
def uploadUnder (iv : Iv) (message : LocalMessage) (file : FileRef) (blob : Plaintext) (epoch : ℕ)
    (key : GroupKey) (context : FlushContext) : Prog (FileRef × Iv) := do
  let file := { file with iv := some iv }
  update { message with file := some file, keyEpoch := some epoch, status := .uploading }
  throwIfAborted message.id
  let encrypted ← perform message.id (.encryptFile key blob iv)
  throwIfAborted message.id
  perform message.id (.uploadFile file.r2Key encrypted context.session.deviceAuthToken)
  throwIfAborted message.id
  pure (file, iv)

/-- Upload the file of a message, under its vector if it has one. -/
def uploadFile (message : LocalMessage) (file : FileRef) (epoch : ℕ) (key : GroupKey)
    (context : FlushContext) :
    Prog (FileRef × Iv) := do
  let blob ← ask (Op.getFile file.r2Key)
  match blob with
  | none => raise message.id (.thrown "Local upload source is missing")
  | some blob =>
      match file.iv with
      | some iv => uploadUnder iv message file blob epoch key context
      | none => do
          let iv ← ask Op.randomIv
          uploadUnder iv message file blob epoch key context

def uploadIfAny (message : LocalMessage) (epoch : ℕ) (key : GroupKey) (context : FlushContext) :
    Prog (Option (FileRef × Iv)) :=
  match message.file with
  | none => pure none
  | some file => do
      let uploaded ← uploadFile message file epoch key context
      pure (some uploaded)

def encryptIfAny (message : LocalMessage) (key : GroupKey) :
    Option Content → Prog (Option (Opaque × Opaque))
  | none => pure none
  | some content => do
      let encrypted ← perform message.id (.encrypt key content)
      pure (some encrypted)

/-- Deliver a message's content: text, a file, or both in one message. -/
def sendQueuedContent (message : LocalMessage) (context : FlushContext) : Prog Unit := do
  throwIfAborted message.id
  let (epoch, key) ← pinEpoch message context
  let file ← uploadIfAny message epoch key context
  let text ← encryptIfAny message key (message.text.map .text)
  throwIfAborted message.id
  let fileMeta ← encryptIfAny message key ((metaFor message).map .metadata)
  throwIfAborted message.id
  deliver context { request message.id epoch with
    encryptedPayload := text.map Prod.fst
    iv := text.map Prod.snd
    fileR2Key := file.map fun file => file.1.r2Key
    fileIv := file.map Prod.snd
    fileMeta := fileMeta.map Prod.fst
    fileMetaIv := fileMeta.map Prod.snd }
  update { message with
    file := (file.map Prod.fst).or message.file
    keyEpoch := some epoch
    retry := none
    status := .sent }

/-- Send what a message is; one that is nothing is passed over. -/
def sendQueued (message : LocalMessage) (context : FlushContext) : Prog Bool :=
  match message.deletes with
  | some deletesMessageId => do
      sendQueuedDeletion message deletesMessageId context
      pure true
  | none =>
      if message.file.isSome ∨ message.text.isSome then do
        sendQueuedContent message context
        pure true
      else pure false

/-- The wait before the next attempt. Neither a pass that is put away nor a device without a network
buys one. -/
def nextRetry (current : Option RetrySchedule) (s : Phone) : Option RetrySchedule :=
  let retry := if s.aborted ∨ ¬ s.onLine then current else some (backOff current s.clock)
  retry.or current

/-- What becomes of a message whose delivery failed. -/
def putBack (current : LocalMessage) (s : Phone) (error : Failure) (result : FlushResult) :
    Prog FlushResult :=
  if isKeyRotated error then do
    update { current with keyEpoch := none, file := repinFile current, status := .queued }
    pure { result with remaining := result.remaining + 1 }
  else if isRetriable error ∨ s.aborted then do
    update { current with status := .queued, retry := nextRetry current.retry s }
    pure { result with remaining := result.remaining + 1 }
  else do
    update { current with status := .failed }
    pure { result with failed := result.failed + 1 }

/-- The row is read again, for the pins it has got meanwhile. -/
def recover (message : LocalMessage) (result : FlushResult) (error : Failure) :
    Prog FlushResult := do
  let found ← getMessage message.id .look
  let s ← phone
  putBack (found.getD message) s error result

/-- Try to send one message. -/
def attempt (message : LocalMessage) (context : FlushContext) (result : FlushResult) :
    Prog FlushResult :=
  tryCatch (do
    let sent ← sendQueued message context
    pure (if sent then { result with sent := result.sent + 1 } else result)) (recover
      message result)

/-- The loop over what is due. A pass that was put away stops: it looks before each message, which
is also where it is after a delivery that failed. -/
def passOver (now : ℕ) (context : FlushContext) : List LocalMessage → FlushResult → Prog FlushResult
  | [], result => pure result
  | stale :: due, result => do
      let s ← phone
      if s.aborted then pure result
      else
        let found ← getMessage stale.id .look
        match found.filter fun message => isDue message now with
        | none => passOver now context due result
        | some message =>
            let result ← attempt message context result
            passOver now context due result

def doFlush (maxMessages : Option ℕ) : Prog FlushResult := do
  let (session, keyring, hasSigningKey) ← ask Op.load
  match session, keyring with
  | some session, some keyring => do
      let s ← phone
      let queued ← queuedMessages .list
      let due := queued.filter fun message => isDue message s.clock
      let due := (maxMessages.map due.take).getD due
      let result ← passOver s.clock ⟨keyring, session, hasSigningKey⟩ due ⟨0, 0, 0⟩
      let rows ← queuedMessages .count
      pure { result with remaining := rows.length }
  | _, _ => pure ⟨0, 0, 0⟩

inductive UserAct where
  | delete (id : MessageId)
  | abort
  | connect (onLine : Bool)
  | wait (ms : ℕ)

def userStep (s : Phone) : UserAct → Option Phone
  | .delete id => some { s with
      messages := s.messages.delete fun message => decide (message.id = id)
      deleted := id :: s.deleted }
  | .abort => some { s with aborted := true }
  | .connect onLine => some { s with onLine := onLine }
  | .wait ms => some { s with clock := s.clock + ms }

/-- No deletion lands between the check of `update` and its write, nor after the last count has
read the row. -/
def Undisturbed (s : Phone) : UserAct → Prop
  | .delete id => s.checked ≠ some id ∧ id ∉ s.counted
  | _ => True

def device : Loop Phone Chance Unit (Option ℕ) Op.Answer where
  exec op chance s := Phone.exec op chance s
  key _ := ()
  program maxMessages := (doFlush maxMessages).run >>= fun _ => pure ()

/-- The server took the message, or had it already. -/
def Answered (log : List Event) (id : MessageId) : Prop :=
  ∃ e ∈ log, e.id = id ∧ (∃ body auth, e.work = .sendMessage body auth) ∧
    (e.failure = none ∨ e.failure = some (.api .conflict))

def Rotated (log : List Event) (id : MessageId) : Prop :=
  ∃ e ∈ log, e.id = id ∧ e.failure = some (.api .key_rotated)

/-- Something failed in a way that waiting does not help. -/
def Refused (log : List Event) (id : MessageId) : Prop :=
  ∃ e ∈ log, e.id = id ∧
  (∃ error, e.failure = some error ∧ isRetriable error = false ∧ isKeyRotated error = false) ∧
    ¬ ((∃ body auth, e.work = .sendMessage body auth) ∧ e.failure = some (.api .conflict))

/-- What was requested under the pins of a row. -/
def Event.Uses (e : Event) (row : LocalMessage) : Prop :=
  match e.work with
  | .uploadFile _ content _ => row.fileIv = some content.iv
  | .sendMessage body _ => row.keyEpoch = some body.keyEpoch ∧ ∀ iv, body.fileIv = some iv →
      row.fileIv = some iv
  | _ => True

namespace LocalMessage

structure PinsKept (row row' : LocalMessage) : Prop where
  keyEpoch : ∀ epoch, row.keyEpoch = some epoch → row'.keyEpoch = some epoch
  fileIv : ∀ iv, row.fileIv = some iv → row'.fileIv = some iv

/-- A message without what a pass may change. -/
def unpinned (row : LocalMessage) : LocalMessage :=
  { row with file := repinFile row, keyEpoch := none, retry := none, status := .queued }

end LocalMessage

/-- What may become of a row. -/
structure Becomes (log : List Event) (row row' : LocalMessage) : Prop where
  content : row'.unpinned = row.unpinned
  untouched : row.isQueuedOutgoing = false → row' = row
  sent : row.isQueuedOutgoing = true → row'.status = .sent → Answered log row.id
  failed : row.isQueuedOutgoing = true → row'.status = .failed → Refused log row.id
  owed : row.isQueuedOutgoing = true → row'.status ≠ .sent → row'.status ≠ .failed →
    row'.isQueuedOutgoing = true
  cleared : row.isQueuedOutgoing = true → row'.isQueuedOutgoing = true → Rotated log row.id →
    row'.keyEpoch = none ∧ row'.fileIv = none
  pinned : row.isQueuedOutgoing = true → row'.isQueuedOutgoing = true → ¬ Rotated log row.id →
    row.PinsKept row' ∧ ∀ e ∈ log, e.id = row.id → e.Uses row'

/-- A pass resurrects, loses and mislabels nothing, and counts what is left. -/
structure Flushed (s : Phone) (result : FlushResult) (t : Phone) : Prop where
  deleted : ∀ id ∈ t.deleted, t.messages.get? id = none
  known : ∀ id, s.messages.get? id = none → t.messages.get? id = none
  becomes : ∀ id row, s.messages.get? id = some row → id ∉ t.deleted →
    ∃ row', t.messages.get? id = some row' ∧ Becomes t.log row row'
  remaining : result.remaining = (t.messages.select LocalMessage.isQueuedOutgoing).length

end SendSelf.Flush
