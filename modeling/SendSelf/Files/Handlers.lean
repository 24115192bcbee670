import SendSelf.Files.Blobs

/-!
# Uploading, sending, acknowledging and cleaning up

The handlers that touch attachments, one stage for each await on D1 or R2, and
the two cleanups of the cron job. Deleting messages is the same in all of them:
one batch drops the rows with their accounting, and the objects go afterwards.
-/
namespace SendSelf

/-- What became of an upload's body: the copy into the bucket's stream and the
put are awaited together, and either may fail with or without an object stored. -/
inductive Transfer where
  | stored (reported : ℕ)
  | copyFailed (exceeded stored : Bool)
  | putFailed (stored : Bool)
deriving DecidableEq, Repr

/-- The upload is not accepted, and is to be discarded. -/
def Transfer.fails : Transfer → Bool
  | .stored reported => decide (MAX_UPLOAD_SIZE < reported)
  | _ => true

/-- What a step gets from outside the worker's state. -/
structure Moment where
  now : ℕ
  limited : Bool
  transfer : Transfer
  share : ℕ
deriving DecidableEq, Repr

/-- A check that throws ends the handler with its error. -/
def orAnswer {σ : Type} (answer : ApiError → σ) : Except ApiError σ → σ
  | .ok stage => stage
  | .error e => answer e

theorem orAnswer_cases {σ : Type} {P : σ → Prop} {answer : ApiError → σ} {c : Except ApiError σ}
    (herr : ∀ e, P (answer e)) (hok : ∀ stage, c = .ok stage → P stage) :
    P (orAnswer answer c) := by
  cases c with
  | error e => exact herr e
  | ok stage => exact hok stage rfl

/-- A stage that is no error is what the check came to. -/
theorem ok_of_orAnswer {σ : Type} {answer : ApiError → σ} {c : Except ApiError σ} {stage : σ}
    (h : orAnswer answer c = stage) (hne : ∀ e, answer e ≠ stage) : c = .ok stage := by
  cases c with
  | error e => exact absurd h (hne e)
  | ok stage' => exact congrArg Except.ok h

structure UploadRequest where
  r2Key : FileKey
  contentLength : Option ℕ
  body : Option FileCiphertext
deriving DecidableEq, Repr

inductive UploadStage where
  | received
  | admitted (length : ℕ) (body : FileCiphertext)
  | writing (body : FileCiphertext)
  | discarding (error : ApiError)
  | discarded (error : ApiError)
  | recording (size : ℕ)
  | answered (a : Except ApiError Unit)
deriving Repr

namespace uploadFile

def tooLarge : ApiError := ⟨.payload_too_large, "File exceeds the 50 MB limit"⟩

def quotaExceeded : ApiError := ⟨.quota_exceeded,
  "This space is holding too many undelivered files; it will send once your devices catch up"⟩

def checkHeaders (req : UploadRequest) : Except ApiError (ℕ × FileCiphertext) :=
  match req.contentLength with
  | none => .error ⟨.bad_request, "Missing Content-Length"⟩
  | some length =>
      if length = 0 then .error ⟨.bad_request, "Invalid Content-Length"⟩
      else if MAX_UPLOAD_SIZE < length then .error tooLarge
      else match req.body with
        | none => .error ⟨.bad_request, "Empty request body"⟩
        | some body => .ok (length, body)

/-- What the transfer leaves in the bucket. -/
def transferred (key : FileKey) (body : FileCiphertext) (t : Transfer) (db : FileDb) : FileDb :=
  match t with
  | .stored _ | .copyFailed _ true | .putFailed true => putObject key body db
  | .copyFailed _ false | .putFailed false => db

def afterTransfer : Transfer → UploadStage
  | .copyFailed true _ => .discarding tooLarge
  | .copyFailed false _ => .discarding ⟨.bad_request, "Request body does not match Content-Length"⟩
  | .putFailed _ => .discarding .internalError
  | .stored reported =>
      if MAX_UPLOAD_SIZE < reported then .discarding tooLarge else .recording reported

def next (m : Moment) (token : Token) (req : UploadRequest) (space : SpaceDb) (db : FileDb) :
    UploadStage → FileDb × UploadStage
  | .received => (db, orAnswer (.answered ∘ .error) do
      let _ ← authenticate space token
      rateLimit m.limited
      let (length, body) ← checkHeaders req
      return .admitted length body)
  | .admitted length body =>
      match reserveBlob req.r2Key length SPACE_PENDING_BYTES_QUOTA m.now db with
      | none => (db, .answered (.error quotaExceeded))
      | some db' => (db', .writing body)
  | .writing body => (transferred req.r2Key body m.transfer db, afterTransfer m.transfer)
  | .discarding e => (forgetBlob req.r2Key db, .discarded e)
  | .discarded e => (deleteObjects [req.r2Key] db, .answered (.error e))
  | .recording size => (recordBlob req.r2Key size m.now db, .answered (.ok ()))
  | .answered a => (db, .answered a)

end uploadFile

/-- A message found for deletion. -/
structure FoundMessage where
  id : MessageId
  fileKey : Option FileKey
deriving DecidableEq, Repr

def MessageRow.found (m : MessageRow) : FoundMessage := ⟨m.id, m.fileR2Key⟩

def fileKeys (found : List FoundMessage) : List FileKey := found.filterMap FoundMessage.fileKey

/-- The batch of `deleteMessages`. -/
def deleteMessages (found : List FoundMessage) (db : FileDb) : FileDb :=
  { db with
    deliveryStatus := db.deliveryStatus.delete fun r =>
      decide (r.messageId ∈ found.map FoundMessage.id)
    messages := db.messages.delete fun m => decide (m.id ∈ found.map FoundMessage.id)
    uploads := db.uploads.delete fun u => decide (u.r2Key ∈ fileKeys found) }

theorem mem_deleteMessages {found : List FoundMessage} {db : FileDb} {m : MessageRow} :
    m ∈ (deleteMessages found db).messages ↔ m ∈ db.messages ∧
    m.id ∉ found.map FoundMessage.id := by
  simp only [deleteMessages, Table.mem_delete, decide_eq_false_iff_not]

theorem accounted_deleteMessages {found : List FoundMessage} {db : FileDb} {k : FileKey} :
    Accounted (deleteMessages found db).uploads k ↔ Accounted db.uploads k ∧
    k ∉ fileKeys found := by
  simp only [Accounted, deleteMessages, Table.mem_delete, decide_eq_false_iff_not]
  constructor
  · intro ⟨u, ⟨hu, hne⟩, hk⟩
    exact ⟨⟨u, hu, hk⟩, hk ▸ hne⟩
  · intro ⟨⟨u, hu, hk⟩, hne⟩
    exact ⟨u, ⟨hu, hk.symm ▸ hne⟩, hk⟩

structure SendMessageRequest where
  id : MessageId
  keyEpoch : ℕ
  encryptedPayload : Option Opaque
  iv : Option Opaque
  fileR2Key : Option FileKey
  fileIv : Option Iv
  fileMeta : Option Opaque
  fileMetaIv : Option Opaque
  signature : Option Opaque
  deletesMessageId : Option MessageId
deriving DecidableEq, Repr

inductive SendStage where
  | received
  | authed (auth : AuthContext)
  | targeting (auth : AuthContext) (target : MessageId)
  | destroying (auth : AuthContext) (found : List FoundMessage)
  | clearing (auth : AuthContext) (keys : List FileKey)
  | listing (auth : AuthContext)
  | dropping (key : FileKey)
  | dropped (key : FileKey)
  | heading (auth : AuthContext) (recipients : List DeviceId)
  | inserting (auth : AuthContext) (recipients : List DeviceId)
  | answered (a : Except ApiError Unit)
deriving Repr

namespace sendMessage

def checkBody (auth : AuthContext) (body : SendMessageRequest) : Except ApiError Unit :=
  if body.keyEpoch < 1 then .error ⟨.bad_request, "Missing or invalid integer field: keyEpoch"⟩
  else if body.encryptedPayload = none ∧ body.iv ≠ none then
    .error ⟨.bad_request, "iv requires encryptedPayload"⟩
  else if body.fileR2Key = none ∧ body.fileIv ≠ none then
    .error ⟨.bad_request, "fileIv requires fileR2Key"⟩
  else if body.fileMeta.isNone ≠ body.fileMetaIv.isNone then
    .error ⟨.bad_request, "fileMeta and fileMetaIv must travel together"⟩
  else if body.fileR2Key ≠ none ∧
    (body.fileIv = none ∨ body.fileMeta = none ∨ body.fileMetaIv = none) then
    .error ⟨.bad_request, "A file requires iv and encrypted metadata"⟩
  else if auth.hasSigningKey ∧ body.signature = none then
    .error ⟨.bad_request, "This device must sign its messages"⟩
  else if body.deletesMessageId ≠ none ∧
      (body.encryptedPayload ≠ none ∨ body.fileR2Key ≠ none ∨ body.fileMeta ≠ none) then
    .error ⟨.bad_request, "A deletion cannot carry text, a file or metadata"⟩
  else if body.deletesMessageId = some body.id then
    .error ⟨.bad_request, "A deletion cannot target itself"⟩
  else if body.encryptedPayload = none ∧ body.fileR2Key = none ∧ body.deletesMessageId = none then
    .error ⟨.bad_request, "Message must contain text and/or a file"⟩
  else if body.encryptedPayload ≠ none ∧ body.iv = none then
    .error ⟨.bad_request, "Missing iv for text payload"⟩
  else if body.fileR2Key ≠ none ∧ body.fileIv = none then
    .error ⟨.bad_request, "Missing fileIv for file payload"⟩
  else .ok ()

def duplicate : ApiError := ⟨.conflict, "Message id already exists"⟩

def keyRotated : ApiError :=
  ⟨.key_rotated, "The space key has rotated; encrypt this message with the new key"⟩

def exists? (id : MessageId) (db : FileDb) : Bool :=
  db.messages.exist (fun m => decide (m.id = id)) || decide (id ∈ db.foreign)

/-- The checks on what the duplicate SELECT found, and where they lead. -/
def checkDuplicate (auth : AuthContext) (body : SendMessageRequest) (db : FileDb) :
    Except ApiError SendStage :=
  if exists? body.id db then .error duplicate
  else if body.keyEpoch ≠ auth.groupKeyEpoch then .error keyRotated
  else match body.deletesMessageId with
    | some target => .ok (.targeting auth target)
    | none => .ok (.listing auth)

def messageRecipients (space : SpaceDb) (sender : DeviceId) : List DeviceId :=
  (space.devices.select fun d => d.active && !d.sendOnly && decide (d.id ≠ sender)).map Device.id

def afterListing (auth : AuthContext) (body : SendMessageRequest) (recipients : List DeviceId) :
    SendStage :=
  match recipients, body.fileR2Key with
  | [], some key => .dropping key
  | [], none => .answered (.ok ())
  | _, some _ => .heading auth recipients
  | _, none => .inserting auth recipients

def row (auth : AuthContext) (body : SendMessageRequest) (now : ℕ) : MessageRow where
  id := body.id
  senderDeviceId := auth.deviceId
  encryptedPayload := body.encryptedPayload
  iv := body.iv
  fileR2Key := body.fileR2Key
  fileIv := body.fileIv
  fileMeta := body.fileMeta
  fileMetaIv := body.fileMetaIv
  keyEpoch := body.keyEpoch
  signature := body.signature
  deletesMessageId := body.deletesMessageId
  createdAt := now

def insertMessage (m : MessageRow) : Statement FileDb SqlError := fun db =>
  if m.id ∈ db.foreign then .error .uniqueConstraint
  else match db.messages.insert m with
    | none => .error .uniqueConstraint
    | some messages => .ok ({ db with messages }, 1)

def insertDelivery (id : MessageId) (recipient : DeviceId) : Statement FileDb SqlError := fun db =>
  match db.deliveryStatus.insert ⟨id, recipient, none⟩ with
  | none => .error .uniqueConstraint
  | some deliveryStatus => .ok ({ db with deliveryStatus }, 1)

def finish (auth : AuthContext) (body : SendMessageRequest) (recipients : List DeviceId) (now : ℕ)
    (db : FileDb) : FileDb × Except ApiError Unit :=
  match commit
    (insertMessage (row auth body now) :: recipients.map (insertDelivery body.id)) db with
  | (db', .error _) => (db', .error duplicate)
  | (db', .ok _) => (db', .ok ())

def next (m : Moment) (token : Token) (body : SendMessageRequest) (space : SpaceDb) (db : FileDb) :
    SendStage → FileDb × SendStage
  | .received => (db, orAnswer (.answered ∘ .error) do
      let auth ← authenticate space token
      rateLimit m.limited
      checkBody auth body
      return .authed auth)
  | .authed auth => (db, orAnswer (.answered ∘ .error) (checkDuplicate auth body db))
  | .targeting auth target =>
      match db.messages.get? target with
      | none => (db, .listing auth)
      | some row => (db, .destroying auth [row.found])
  | .destroying auth found =>
      (deleteMessages found db,
        if fileKeys found = [] then .listing auth else .clearing auth (fileKeys found))
  | .clearing auth keys => (deleteObjects keys db, .listing auth)
  | .listing auth => (db, afterListing auth body (messageRecipients space auth.deviceId))
  | .dropping key => (forgetBlob key db, .dropped key)
  | .dropped key => (deleteObjects [key] db, .answered (.ok ()))
  | .heading auth recipients =>
      (db, if (body.fileR2Key.bind db.objects).isSome then .inserting auth recipients
      else .answered (.error ⟨.bad_request, "Referenced file has not been uploaded"⟩))
  | .inserting auth recipients =>
      let (db', a) := finish auth body recipients m.now db
      (db', .answered a)
  | .answered a => (db, .answered a)

/-- The batch adds the message with its deliveries, or nothing. -/
theorem finish_spec {auth : AuthContext} {body : SendMessageRequest} {recipients : List DeviceId}
    {now : ℕ} {db : FileDb} :
    finish auth body recipients now db = (db, .error duplicate) ∨
      ∃ messages deliveryStatus, db.messages.insert (row auth body now) = some messages ∧
        finish auth body recipients now db = ({ db with messages, deliveryStatus }, .ok ()) := by
  have hdel : ∀ (ids : List DeviceId) (db db' : FileDb) (ns : List ℕ),
      batch (ids.map (insertDelivery body.id)) db = .ok (db', ns) →
      ∃ deliveryStatus, db' = { db with deliveryStatus } := by
    intro ids
    induction ids with
    | nil =>
      intro db db' ns h
      obtain ⟨rfl, _⟩ := (Prod.mk.injEq ..).mp (Except.ok.inj h)
      exact ⟨db.deliveryStatus, rfl⟩
    | cons i ids ih =>
      intro db db' ns h
      obtain ⟨d₁, n, ms, h₁, h₂, _⟩ := batch_cons_ok.mp h
      unfold insertDelivery at h₁
      split at h₁
      · cases h₁
      · obtain ⟨rfl, _⟩ := (Prod.mk.injEq ..).mp (Except.ok.inj h₁)
        obtain ⟨t, rfl⟩ := ih _ db' ms h₂
        exact ⟨t, rfl⟩
  cases hb :
    batch (insertMessage (row auth body now) :: recipients.map (insertDelivery body.id)) db with
  | error e =>
    left
    simp [finish, commit_error hb]
  | ok p =>
    right
    obtain ⟨db', ns⟩ := p
    obtain ⟨d₁, n, ms, h₁, h₂, _⟩ := batch_cons_ok.mp hb
    unfold insertMessage at h₁
    split_ifs at h₁
    split at h₁
    · cases h₁
    · next messages hins =>
      obtain ⟨rfl, _⟩ := (Prod.mk.injEq ..).mp (Except.ok.inj h₁)
      obtain ⟨t, rfl⟩ := hdel _ _ db' ms h₂
      exact ⟨messages, t, hins, by simp [finish, commit_ok hb]⟩

end sendMessage

inductive AckStage where
  | received
  | authed (auth : AuthContext)
  | owned (auth : AuthContext)
  | marked
  | selecting
  | destroying (found : List FoundMessage)
  | clearing (keys : List FileKey)
  | answered (deleted : Except ApiError Bool)
deriving Repr

namespace ackMessage

def mark (id : MessageId) (deviceId : DeviceId) (now : ℕ) (db : FileDb) : FileDb :=
  let deliveryStatus := db.deliveryStatus.update
    (fun r => decide (r.messageId = id) && decide (r.deviceId = deviceId) && r.downloadedAt.isNone)
    (fun r => { r with downloadedAt := some now }) (fun _ => rfl)
  { db with deliveryStatus }

def pending (id : MessageId) (db : FileDb) : ℕ :=
  (db.deliveryStatus.select fun r => decide (r.messageId = id) && r.downloadedAt.isNone).length

def next (m : Moment) (token : Token) (id : MessageId) (space : SpaceDb) (db : FileDb) :
    AckStage → FileDb × AckStage
  | .received => (db, orAnswer (.answered ∘ .error) do
      let auth ← authenticate space token
      return .authed auth)
  | .authed auth => (db, if db.messages.exist fun row => decide (row.id = id) then .owned auth
      else .answered (.error ⟨.not_found, "Message not found"⟩))
  | .owned auth => (mark id auth.deviceId m.now db, .marked)
  | .marked => (db, if pending id db = 0 then .selecting else .answered (.ok false))
  | .selecting =>
      match db.messages.get? id with
      | none => (db, .answered (.ok false))
      | some row => (db, .destroying [row.found])
  | .destroying found =>
      (deleteMessages found db,
        if fileKeys found = [] then .answered (.ok true) else .clearing (fileKeys found))
  | .clearing keys => (deleteObjects keys db, .answered (.ok true))
  | .answered a => (db, .answered a)

end ackMessage

/-- Which messages a purge is after. -/
inductive Selection where
  | delivered
  | expired (olderThan : ℕ)
deriving DecidableEq, Repr

def Selection.picks (db : FileDb) : Selection → MessageRow → Bool
  | .delivered, m => !db.deliveryStatus.exist fun r =>
    decide (r.messageId = m.id) && r.downloadedAt.isNone
  | .expired olderThan, m => decide (m.createdAt < olderThan)

/-- One round of a purge, oldest first. -/
def Selection.rows (selection : Selection) (share : ℕ) (db : FileDb) : List FoundMessage :=
  (((db.messages.select (selection.picks db)).insertionSort fun a b =>
    a.createdAt < b.createdAt ∨
      (a.createdAt = b.createdAt ∧ a.id ≤ b.id)).map MessageRow.found).take
      (min share DELETE_BATCH_SIZE)

inductive PurgeStage where
  | selecting
  | destroying (found : List FoundMessage)
  | clearing (keys : List FileKey)
  | done
deriving Repr

def purgeMessages.next (m : Moment) (selection : Selection) (db : FileDb) :
    PurgeStage → FileDb × PurgeStage
  | .selecting =>
      match selection.rows m.share db with
      | [] => (db, .done)
      | found => (db, .destroying found)
  | .destroying found =>
      (deleteMessages found db,
        if fileKeys found = [] then .selecting else .clearing (fileKeys found))
  | .clearing keys => (deleteObjects keys db, .selecting)
  | .done => (db, .done)

inductive SweepStage where
  | claiming
  | clearing (keys : List FileKey)
  | done
deriving Repr

def purgeOrphanBlobs.next (m : Moment) (olderThan : ℕ) (db : FileDb) :
    SweepStage → FileDb × SweepStage
  | .claiming =>
      match orphans olderThan m.share db with
      | [] => (db, .done)
      | keys => (claimOrphans keys db, .clearing keys)
  | .clearing keys => (deleteObjects keys db, .claiming)
  | .done => (db, .done)

end SendSelf
