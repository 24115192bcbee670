import SendSelf.Vault.Server

/-!
# Blob stores

A store keeps objects in a bucket and a row for each of them in a table. There are
two, and they differ in what claims a blob and in whether the bucket expires its
objects. If it does, a deletion drops the row first and the object after it; if it
does not, the row is reserved, the object goes, and the row goes last.

Uploads, deletions and sweeps run as jobs, one await at a time, and any await of D1 or R2
may throw. That ends a deletion or a sweep; an upload that is being discarded answers with
the error that it was discarded for. What else happens to the database of the owners is
left open here, as long as it leaves the rows alone.
-/
namespace SendSelf

/-- The accounting rows of a store in a database, and what claims its blobs. -/
structure BlobStore (δ : Type) where
  rows : δ → Table UploadRow.r2Key
  withRows : δ → Table UploadRow.r2Key → δ
  claimed : δ → FileKey → Bool
  expires : Bool
  rows_withRows : ∀ db t, rows (withRows db t) = t
  claimed_withRows : ∀ db t, claimed (withRows db t) = claimed db

/-- Message attachments. -/
def MESSAGE_FILES : BlobStore FileDb where
  rows := FileDb.uploads
  withRows db uploads := { db with uploads }
  claimed := SendSelf.claimed
  expires := true
  rows_withRows _ _ := rfl
  claimed_withRows _ _ := rfl

/-- Vault notes and files. -/
def VAULT_BLOBS : BlobStore VaultDb where
  rows := VaultDb.blobs
  withRows db blobs := { db with blobs }
  claimed db key := db.items.exist fun r => decide (r.blobKey = some key) && r.live
  expires := false
  rows_withRows _ _ := rfl
  claimed_withRows _ _ := rfl

/-- A database and the sizes of the objects in the bucket. -/
structure BlobDb (δ : Type) where
  db : δ
  bucket : FileKey → Option ℕ

namespace BlobStore

variable {δ : Type} (store : BlobStore δ)

/-- `none` is the answer `false`: nothing was recorded. -/
def reserveBlob (key : FileKey) (size quota now : ℕ) (s : BlobDb δ) : Option (BlobDb δ) :=
  if bytesWith key size (store.rows s.db) ≤ quota ∧ writable key (store.rows s.db) then
    some { s with db := store.withRows s.db (upsertUpload key size now (store.rows s.db)) }
  else none

def recordBlob (key : FileKey) (size now : ℕ) (s : BlobDb δ) : BlobDb δ :=
  { s with db := store.withRows s.db (upsertUpload key size now (store.rows s.db)) }

/-- `forgetBlob`, of each key. -/
def forgetBlobs (keys : List FileKey) (s : BlobDb δ) : BlobDb δ :=
  { s with db := store.withRows s.db ((store.rows s.db).delete fun u => decide (u.r2Key ∈ keys)) }

/-- What may be reserved for deletion: there is a row, and nothing claims it. -/
def reservable (db : δ) (keys : List FileKey) : List FileKey :=
  keys.filter fun key => (store.rows db).exist (fun u => decide (u.r2Key = key)) &&
    !store.claimed db key

/-- The reserving batch of `deleteUnclaimedBlobs`. -/
def reserveForDeletion (keys : List FileKey) (s : BlobDb δ) : BlobDb δ :=
  let rows :=
    (store.rows s.db).update (fun u => decide (u.r2Key ∈ keys) && !store.claimed s.db u.r2Key)
    (fun u => { u with createdAt := RESERVED_FOR_DELETION }) fun _ => rfl
  { s with db := store.withRows s.db rows }

/-- Its last batch: a row that is not reserved any more is left alone. -/
def dropReserved (keys : List FileKey) (s : BlobDb δ) : BlobDb δ :=
  let rows := (store.rows s.db).delete fun u =>
    decide (u.r2Key ∈ keys) && decide (u.createdAt = RESERVED_FOR_DELETION)
  { s with db := store.withRows s.db rows }

/-- The candidates of one round of `purgeOrphanBlobs`; `share` of them are of this group. -/
def orphans (olderThan share : ℕ) (db : δ) : List FileKey :=
  ((((store.rows db).select fun u =>
    decide (u.createdAt < olderThan) && !store.claimed db u.r2Key).insertionSort
    fun a b => a.createdAt ≤ b.createdAt).map UploadRow.r2Key).take (min share SWEEP_BATCH_SIZE)

end BlobStore

namespace BlobDb

variable {δ : Type}

/-- `bucket.put`. -/
def put (key : FileKey) (size : ℕ) (s : BlobDb δ) : BlobDb δ :=
  { s with bucket := Function.update s.bucket key (some size) }

/-- `bucket.delete`. -/
def deleteObjects (keys : List FileKey) (s : BlobDb δ) : BlobDb δ :=
  { s with bucket := fun key => if key ∈ keys then none else s.bucket key }

end BlobDb

/-- A store of attachments over the rows of `db`, whose bucket is known by the sizes of its
objects only. -/
structure FileDb.KeptBy (size : FileCiphertext → ℕ) (db : FileDb) (s : BlobDb FileDb) : Prop where
  rows : s.db = { db with objects := s.db.objects }
  bucket : s.bucket = fun key => (db.objects key).map size

namespace FileDb.KeptBy

variable {size : FileCiphertext → ℕ} {db : FileDb} {s : BlobDb FileDb}

theorem uploads_eq (h : db.KeptBy size s) : s.db.uploads = db.uploads := by
  rw [h.rows]

theorem claimed_eq (h : db.KeptBy size s) : MESSAGE_FILES.claimed s.db = claimed db := by
  have hmessages : s.db.messages = db.messages := by rw [h.rows]
  funext key
  simp only [MESSAGE_FILES, claimed, hmessages]

/-- Writing the same rows into both keeps them together. -/
theorem withRows (h : db.KeptBy size s) (uploads : Table UploadRow.r2Key) :
    { db with uploads }.KeptBy size { s with db := MESSAGE_FILES.withRows s.db uploads } :=
  ⟨congrArg (fun d : FileDb => { d with uploads }) h.rows, h.bucket⟩

theorem recordBlob (h : db.KeptBy size s) (key : FileKey) (n now : ℕ) :
    (recordBlob key n now db).KeptBy size (MESSAGE_FILES.recordBlob key n now s) := by
  rw [SendSelf.recordBlob, ← h.uploads_eq]
  exact h.withRows _

/-- Either both refuse the upload or both reserve it. -/
theorem reserveBlob (h : db.KeptBy size s) (key : FileKey) (n quota now : ℕ) :
    Option.Rel (KeptBy size) (reserveBlob key n quota now db)
      (MESSAGE_FILES.reserveBlob key n quota now s) := by
  rw [SendSelf.reserveBlob, BlobStore.reserveBlob, ← h.uploads_eq]
  change Option.Rel _ (if bytesWith key n s.db.uploads ≤ quota ∧
    writable key s.db.uploads then _ else _)
    (if bytesWith key n s.db.uploads ≤ quota ∧ writable key s.db.uploads then _ else _)
  split_ifs
  · exact .some (h.withRows _)
  · exact .none

theorem claimOrphans (h : db.KeptBy size s) (keys : List FileKey) :
    (claimOrphans keys db).KeptBy size (MESSAGE_FILES.forgetBlobs keys s) := by
  rw [SendSelf.claimOrphans, ← h.uploads_eq]
  exact h.withRows _

theorem forgetBlob (h : db.KeptBy size s) (key : FileKey) :
    (forgetBlob key db).KeptBy size (MESSAGE_FILES.forgetBlobs [key] s) := by
  simpa [SendSelf.forgetBlob, SendSelf.claimOrphans] using h.claimOrphans [key]

theorem orphans_eq (h : db.KeptBy size s) (olderThan share : ℕ) :
    MESSAGE_FILES.orphans olderThan share s.db = orphans olderThan share db := by
  simp only [BlobStore.orphans, orphans, h.claimed_eq, ← h.uploads_eq]
  rfl

theorem put (h : db.KeptBy size s) (key : FileKey) (content : FileCiphertext) :
    (putObject key content db).KeptBy size (s.put key (size content)) := by
  refine ⟨h.rows, ?_⟩
  rw [BlobDb.put, h.bucket]
  funext k
  by_cases hk : k = key
  · simp [putObject, hk]
  · simp [putObject, Function.update_of_ne hk]

theorem deleteObjects (h : db.KeptBy size s) (keys : List FileKey) :
    (deleteObjects keys db).KeptBy size (s.deleteObjects keys) := by
  refine ⟨h.rows, ?_⟩
  rw [BlobDb.deleteObjects, h.bucket]
  funext k
  by_cases hk : k ∈ keys <;> simp [SendSelf.deleteObjects, hk]

end FileDb.KeptBy

/-- What a step gets from outside: the clock, what became of a transfer, the size of what a
failed one left in the bucket, a group's share of a sweep, and whether the await throws. A
statement that throws has committed nothing. -/
structure BlobMoment where
  now : ℕ
  transfer : Transfer
  left : ℕ
  share : ℕ
  /-- The keys that a deletion in R2 got to before it threw. -/
  thrown : Option (List FileKey)
deriving DecidableEq, Repr

def BlobMoment.throws (m : BlobMoment) : Bool := m.thrown.isSome

/-- Those of the keys whose objects are deleted. -/
def BlobMoment.cleared (m : BlobMoment) (keys : List FileKey) : List FileKey :=
  m.thrown.elim keys fun gone => keys.filter fun key => decide (key ∈ gone)

/-- How far a deletion has come: `deleteBlob`, `deleteForgottenBlobs` after the batch
that forgot the blobs, or `deleteUnclaimedBlobs` with what is left for later batches. -/
inductive Removal where
  | starting (keys : List FileKey)
  | objects (keys rest : List FileKey)
  | rows (keys rest : List FileKey)
  | done
deriving DecidableEq, Repr

/-- The next batch, if anything is left. -/
def Removal.again : List FileKey → Removal
  | [] => .done
  | keys => .starting keys

namespace deleteBlobs

variable {δ : Type} (store : BlobStore δ)

/-- Once a batch of a store that does not expire is reserved. -/
def afterReserving (reserved rest : List FileKey) : Removal :=
  if reserved = [] then .again rest else .objects reserved rest

/-- An await that throws ends the deletion. -/
def next (m : BlobMoment) (s : BlobDb δ) : Removal → BlobDb δ × Removal
  | .starting keys =>
      if m.throws then (s, .done)
      else if store.expires then (store.forgetBlobs keys s, .objects keys [])
      else (store.reserveForDeletion (keys.take SWEEP_BATCH_SIZE) s,
        afterReserving (store.reservable s.db (keys.take SWEEP_BATCH_SIZE))
          (keys.drop SWEEP_BATCH_SIZE))
  | .objects keys rest =>
      (s.deleteObjects (m.cleared keys),
        if m.throws || store.expires then .done else .rows keys rest)
  | .rows keys rest => if m.throws then (s, .done) else (store.dropReserved keys s, .again rest)
  | .done => (s, .done)

end deleteBlobs

structure BlobUpload where
  key : FileKey
  length : ℕ
deriving DecidableEq, Repr

/-- From the reservation on: what comes before it has looked at nothing but the request. -/
inductive BlobUploadStage where
  | admitted
  | writing
  /-- What is answered once the upload is discarded, and what if that throws. -/
  | discarding (removal : Removal) (error thrown : ApiError)
  | recording (size : ℕ)
  | answered (a : Except ApiError Unit)
deriving Repr

namespace receiveBlob

variable {δ : Type} (store : BlobStore δ)

/-- What the transfer leaves in the bucket. -/
def transferred (key : FileKey) (m : BlobMoment) (s : BlobDb δ) : BlobDb δ :=
  match m.transfer with
  | .stored reported => s.put key reported
  | .copyFailed _ true | .putFailed true => s.put key m.left
  | .copyFailed _ false | .putFailed false => s

def afterTransfer (key : FileKey) : Transfer → BlobUploadStage
  | .copyFailed true _ => discardUpload uploadFile.tooLarge
  | .copyFailed false _ =>
      discardUpload ⟨.bad_request, "Request body does not match Content-Length"⟩
  | .putFailed _ => discardUpload .internalError
  | .stored reported =>
      if MAX_UPLOAD_SIZE < reported then
        .discarding (.starting [key]) uploadFile.tooLarge .internalError
      else .recording reported
where
  /-- It catches whatever the deletion throws. -/
  discardUpload (error : ApiError) : BlobUploadStage := .discarding (.starting [key]) error error

/-- The error is thrown once the upload is discarded. -/
def discard (error thrown : ApiError) : Removal → BlobUploadStage
  | .done => .answered (.error error)
  | removal => .discarding removal error thrown

def next (quota : ℕ) (quotaExceeded : ApiError) (m : BlobMoment) (request : BlobUpload)
    (s : BlobDb δ) :
    BlobUploadStage → BlobDb δ × BlobUploadStage
  | .admitted =>
      if m.throws then (s, .answered (.error .internalError))
      else match store.reserveBlob request.key request.length quota m.now s with
        | none => (s, .answered (.error quotaExceeded))
        | some s => (s, .writing)
  | .writing => (transferred request.key m s, afterTransfer request.key m.transfer)
  | .discarding removal error thrown =>
      let r := deleteBlobs.next store m s removal
      (r.1, if m.throws then .answered (.error thrown) else discard error thrown r.2)
  | .recording size =>
      if m.throws then (s, .answered (.error .internalError))
      else (store.recordBlob request.key size m.now s, .answered (.ok ()))
  | .answered a => (s, .answered a)

end receiveBlob

inductive OrphanStage where
  | selecting
  | removing (removal : Removal)
  | done
deriving Repr

namespace purgeOrphans

variable {δ : Type} (store : BlobStore δ)

/-- The next round begins once a round's blobs are gone. -/
def afterRemoval : Removal → OrphanStage
  | .done => .selecting
  | removal => .removing removal

/-- In an expiring bucket the selection deletes the rows that it returns. -/
def next (olderThan : ℕ) (m : BlobMoment) (s : BlobDb δ) : OrphanStage → BlobDb δ × OrphanStage
  | .selecting =>
      if m.throws then (s, .done)
      else match store.orphans olderThan m.share s.db with
        | [] => (s, .done)
        | keys =>
            if store.expires then (store.forgetBlobs keys s, .removing (.objects keys []))
            else (s, .removing (.starting keys))
  | .removing removal =>
      let r := deleteBlobs.next store m s removal
      (r.1, if m.throws then .done else afterRemoval r.2)
  | .done => (s, .done)

end purgeOrphans

inductive BlobJob where
  | upload (request : BlobUpload) (stage : BlobUploadStage)
  | delete (removal : Removal)
  | sweep (olderThan : ℕ) (stage : OrphanStage)
deriving Repr

namespace BlobJob

/-- A job that has just begun. -/
def isNew : BlobJob → Bool
  | .upload _ .admitted | .delete (.starting _) | .sweep _ .selecting => true
  | _ => false

/-- The deletion that the job is at. -/
def removal : BlobJob → Option Removal
  | .upload _ (.discarding removal _ _) | .delete removal | .sweep _ (.removing removal) =>
    some removal
  | _ => none

/-- Nothing of the job is left to do. -/
def isDone : BlobJob → Bool
  | .upload _ (.answered _) | .delete .done | .sweep _ .done => true
  | _ => false

variable {δ : Type} (store : BlobStore δ)

/-- Run a job from one await to the next. -/
def next (quota : ℕ) (quotaExceeded : ApiError) (m : BlobMoment) (s : BlobDb δ) :
    BlobJob → BlobDb δ × BlobJob
  | .upload request stage =>
      let r := receiveBlob.next store quota quotaExceeded m request s stage
      (r.1, .upload request r.2)
  | .delete removal =>
      let r := deleteBlobs.next store m s removal
      (r.1, .delete r.2)
  | .sweep olderThan stage =>
      let r := purgeOrphans.next store olderThan m s stage
      (r.1, .sweep olderThan r.2)

end BlobJob

structure BlobServer (δ : Type) where
  data : BlobDb δ
  jobs : RequestId → Option BlobJob

inductive BlobEvent (δ : Type) where
  | start (r : RequestId) (job : BlobJob)
  | run (r : RequestId) (m : BlobMoment)
  /-- Any other statement: what it leaves of the database. -/
  | write (db : δ)

/-- A store with its quota, and what a device that hit it is told. -/
structure BlobQuota where
  bytes : ℕ
  message : String
deriving DecidableEq, Repr

namespace BlobServer

variable {δ : Type} (store : BlobStore δ) (quota : BlobQuota)

def start (s : BlobServer δ) (r : RequestId) (job : BlobJob) : Option (BlobServer δ) :=
  if job.isNew ∧
  (s.jobs r).isNone then some { s with jobs := Function.update s.jobs r (some job) } else none

/-- The clock never shows the time that marks a reserved row. -/
def run (s : BlobServer δ) (r : RequestId) (m : BlobMoment) : Option (BlobServer δ) :=
  if m.now = RESERVED_FOR_DELETION then none
  else (s.jobs r).map fun job =>
    let next := job.next store quota.bytes ⟨.quota_exceeded, quota.message⟩ m s.data
    { data := next.1, jobs := Function.update s.jobs r (some next.2) }

def step (s : BlobServer δ) : BlobEvent δ → Option (BlobServer δ)
  | .start r job => s.start r job
  | .run r m => s.run store quota r m
  | .write db =>
      if store.rows db = store.rows s.data.db then some { s with data := { s.data with db } }
      else none

/-- An empty bucket. -/
def new (db : δ) : BlobServer δ := ⟨⟨db, fun _ => none⟩, fun _ => none⟩

/-- No upload, deletion or sweep is in progress. -/
def Quiet (s : BlobServer δ) : Prop := ∀ r job, s.jobs r = some job → job.isDone = true

end BlobServer
end SendSelf
