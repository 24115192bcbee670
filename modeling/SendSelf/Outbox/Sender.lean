import SendSelf.Files.FileServer

/-!
# Sending a file

What a sender decides: under which epoch and initialisation vector a file is
encrypted, what the requests carry, and what an answer means. The app's outbox
pins both choices in the message it keeps, so that a retry produces the same
bytes; the command line makes them anew for each delivery.
-/
namespace SendSelf

/-- `cli` counts the deliveries refused for their rate, and remembers whether a
key rotation was caught up with. -/
inductive Origin where
  | pwa
  | cli (limited : ℕ) (rotated : Bool)
deriving DecidableEq, Repr

inductive Status where
  | queued | uploading | sent | failed | deleted
deriving DecidableEq, Repr

/-- The ciphertexts of a request that are sealed anew on each try: the caption, the
metadata and the signature. -/
structure Envelope where
  text : Option (Opaque × Opaque)
  fileMeta : Opaque × Opaque
  signature : Option Opaque
deriving DecidableEq, Repr

/-- Where the delivery of a message waits. -/
inductive SendPc where
  | sealing (epoch : ℕ) (key : GroupKey)
  | uploading (epoch : ℕ) (iv : Iv) (content : FileCiphertext) (attempt : ℕ) (awaiting : RequestId)
  | sending (body : SendMessageRequest) (attempt : ℕ) (awaiting : RequestId)
deriving DecidableEq, Repr

/-- A message with a file, as its sender keeps it. `used` is history: the epoch and
the vector its file was last encrypted under. -/
structure Entry where
  origin : Origin
  token : Token
  r2Key : FileKey
  file : Plaintext
  size : ℕ
  keyEpoch : Option ℕ
  iv : Option Iv
  status : Status
  pc : Option SendPc
  used : Option (ℕ × Iv)
deriving DecidableEq, Repr

/-- `retries` of the upload and of the send. -/
def SEND_RETRIES : ℕ := 2

def RATE_LIMIT_ATTEMPTS : ℕ := 5

namespace Entry

/-- Still owed to the server. -/
def isQueued (entry : Entry) : Bool := decide (entry.status = .queued ∨ entry.status = .uploading)

/-- A message that was deleted meanwhile is not written back. -/
def withStatus (entry : Entry) (status : Status) : Entry :=
  if entry.status = .deleted then entry else { entry with status }

/-- The epoch to encrypt under: the pinned one if the ring has it, else the current
one. `none` is the throw of `currentKey`. -/
def pinEpoch (entry : Entry) (ring : Keyring) : Option (ℕ × GroupKey) :=
  match entry.keyEpoch.bind fun pinned => (keyForEpoch ring pinned).map fun key =>
    (pinned, key) with
  | some pinned => some pinned
  | none => (currentKey ring).map fun key => (ring.current, key)

/-- The outbox keeps its choices in the message. -/
def pin (entry : Entry) (keyEpoch : ℕ) (iv : Option Iv) : Entry :=
  match entry.origin with
  | .pwa => { entry with keyEpoch := some keyEpoch, iv }
  | .cli _ _ => entry

def encryptMessageFile (entry : Entry) (id : MessageId) (key : GroupKey) (iv : Iv) :
    FileCiphertext :=
  ⟨key, iv, id, entry.file⟩

def uploadRequest (entry : Entry) (content : FileCiphertext) : UploadRequest :=
  ⟨entry.r2Key, some entry.size, some content⟩

def sendRequest (entry : Entry) (id : MessageId) (keyEpoch : ℕ) (fileIv : Iv) (e : Envelope) :
    SendMessageRequest where
  id := id
  keyEpoch := keyEpoch
  encryptedPayload := e.text.map Prod.fst
  iv := e.text.map Prod.snd
  fileR2Key := some entry.r2Key
  fileIv := some fileIv
  fileMeta := some e.fileMeta.1
  fileMetaIv := some e.fileMeta.2
  signature := e.signature
  deletesMessageId := none

def isRetriable (code : ApiErrorCode) : Bool :=
  match code with
  | .rate_limited | .internal | .quota_exceeded => true
  | _ => false

/-- What an error of the server means for the message. -/
def afterError (entry : Entry) (code : ApiErrorCode) : Entry :=
  let ended := { entry with pc := none }
  match entry.origin with
  | .pwa =>
      if code = .key_rotated then { ended with keyEpoch := none, iv := none }.withStatus .queued
      else if isRetriable code then ended.withStatus .queued
      else ended.withStatus .failed
  | .cli limited rotated =>
      if code = .rate_limited ∧ limited + 1 < RATE_LIMIT_ATTEMPTS then
        { ended with origin := .cli (limited + 1) rotated, status := .queued }
      else if code = .key_rotated ∧ ¬ rotated then
        { ended with origin := .cli 0 true, status := .queued }
      else { ended with status := .failed }

/-- The pass is over without an answer: no network, or the page was put away. -/
def afterGivingUp (entry : Entry) : Entry :=
  let ended := { entry with pc := none }
  match entry.origin with
  | .pwa => ended.withStatus .queued
  | .cli _ _ => { ended with status := .failed }

/-- The app or the command was killed. -/
def afterKill (entry : Entry) : Entry :=
  match entry.origin with
  | .pwa => { entry with pc := none }
  | .cli _ _ => { entry with pc := none, status := .failed }

end Entry
end SendSelf
