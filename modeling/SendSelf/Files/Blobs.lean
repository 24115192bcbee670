import SendSelf.Worker.Requests
import Mathlib.Algebra.GroupWithZero.Nat

/-!
# Message attachments: the bucket and its accounting

Attachments live in a bucket that expires its objects; the table `uploads` has a
row for each of them. Objects are namespaced by group, so what is modelled is the
slice of one group: its rows of `messages`, `delivery_status` and `uploads` and
the objects under its prefix. Message ids are unique across all groups, so the
ids of other groups' messages are kept as a list.
-/
namespace SendSelf

abbrev MessageId := ℕ
abbrev FileKey := ℕ
abbrev Iv := ℕ
abbrev Plaintext := ℕ

/-- A string of the request that the server stores without looking into it. -/
abbrev Opaque := ℕ

/-- What a client uploads: the file under a GroupKey, bound to the message's id. -/
abbrev FileCiphertext := Sealed GroupKey Iv MessageId Plaintext

structure UploadRow where
  r2Key : FileKey
  size : ℕ
  createdAt : ℕ
deriving DecidableEq, Repr

structure MessageRow where
  id : MessageId
  senderDeviceId : DeviceId
  encryptedPayload : Option Opaque
  iv : Option Opaque
  fileR2Key : Option FileKey
  fileIv : Option Iv
  fileMeta : Option Opaque
  fileMetaIv : Option Opaque
  keyEpoch : ℕ
  signature : Option Opaque
  deletesMessageId : Option MessageId
  createdAt : ℕ
deriving DecidableEq, Repr

structure DeliveryRow where
  messageId : MessageId
  deviceId : DeviceId
  downloadedAt : Option ℕ
deriving DecidableEq, Repr

def DeliveryRow.primaryKey (r : DeliveryRow) : MessageId × DeviceId := (r.messageId, r.deviceId)

structure FileDb where
  messages : Table MessageRow.id
  deliveryStatus : Table DeliveryRow.primaryKey
  uploads : Table UploadRow.r2Key
  /-- The objects in the `FILES` bucket. -/
  objects : FileKey → Option FileCiphertext
  /-- Ids of messages of other groups. -/
  foreign : List MessageId

def MAX_UPLOAD_SIZE : ℕ := 50 * 1024 * 1024 + 1024
def SPACE_PENDING_BYTES_QUOTA : ℕ := 2 * 1024 * 1024 * 1024
def MESSAGE_TTL_MS : ℕ := 24 * 60 * 60 * 1000
def SWEEP_BATCH_SIZE : ℕ := 100
def DELETE_BATCH_SIZE : ℕ := 100

/-- The `created_at` of a row that is being deleted from a bucket that does not
expire. -/
def RESERVED_FOR_DELETION : ℕ := 0

/-- Some row of `uploads` accounts for the key. -/
def Accounted (uploads : Table UploadRow.r2Key) (key : FileKey) : Prop :=
  ∃ u ∈ uploads, u.r2Key = key

instance {uploads : Table UploadRow.r2Key} {key : FileKey} : Decidable (Accounted uploads key) :=
  inferInstanceAs (Decidable (∃ u ∈ uploads, u.r2Key = key))

/-- The upsert behind `reserveBlob` and `recordBlob`: a key that has a row keeps
the larger size. -/
def upsertUpload (key : FileKey) (size now : ℕ) (uploads : Table UploadRow.r2Key) :
    Table UploadRow.r2Key :=
  uploads.upsert ⟨key, size, now⟩ (fun u => decide (u.createdAt ≠ RESERVED_FOR_DELETION))
    (fun u => { u with size := max u.size size, createdAt := now }) (fun _ => rfl)

/-- The row may be written: it is new, or not reserved for deletion. -/
def writable (key : FileKey) (uploads : Table UploadRow.r2Key) : Bool :=
  uploads.every fun u => decide (u.r2Key ≠ key) || decide (u.createdAt ≠ RESERVED_FOR_DELETION)

/-- The bytes the space would hold with this upload counted. -/
def bytesWith (key : FileKey) (size : ℕ) (uploads : Table UploadRow.r2Key) : ℕ :=
  ((uploads.select fun u => decide (u.r2Key ≠ key)).map UploadRow.size).sum +
    max size (((uploads.get? key).map UploadRow.size).getD 0)

/-- `none` is the answer `false`: nothing was recorded. -/
def reserveBlob (key : FileKey) (size quota now : ℕ) (db : FileDb) : Option FileDb :=
  if bytesWith key size db.uploads ≤ quota ∧ writable key db.uploads then
    some { db with uploads := upsertUpload key size now db.uploads }
  else none

def recordBlob (key : FileKey) (size now : ℕ) (db : FileDb) : FileDb :=
  { db with uploads := upsertUpload key size now db.uploads }

/-- `bucket.put`. -/
def putObject (key : FileKey) (content : FileCiphertext) (db : FileDb) : FileDb :=
  { db with objects := Function.update db.objects key (some content) }

/-- Drop the accounting row of a blob. -/
def forgetBlob (key : FileKey) (db : FileDb) : FileDb :=
  { db with uploads := db.uploads.delete fun u => decide (u.r2Key = key) }

/-- `bucket.delete`. -/
def deleteObjects (keys : List FileKey) (db : FileDb) : FileDb :=
  { db with objects := fun key => if key ∈ keys then none else db.objects key }

/-- Something owns the blob: `MESSAGE_FILES.claimed`. -/
def claimed (db : FileDb) (key : FileKey) : Bool :=
  db.messages.exist fun m => decide (m.fileR2Key = some key)

/-- What one round of `purgeOrphanBlobs` claims. Its limit is for all groups
together, and `share` of the batch belongs to this one. -/
def orphans (olderThan share : ℕ) (db : FileDb) : List FileKey :=
  (((db.uploads.select fun u =>
    decide (u.createdAt < olderThan) && !claimed db u.r2Key).insertionSort
    fun a b => a.createdAt ≤ b.createdAt).map UploadRow.r2Key).take (min share SWEEP_BATCH_SIZE)

def claimOrphans (keys : List FileKey) (db : FileDb) : FileDb :=
  { db with uploads := db.uploads.delete fun u => decide (u.r2Key ∈ keys) }

/-- Writing a key's row keeps every row, and the key has one afterwards. -/
theorem accounted_upsertUpload {key k : FileKey} {size now : ℕ} {uploads : Table UploadRow.r2Key} :
    Accounted (upsertUpload key size now uploads) k ↔ k = key ∨ Accounted uploads k := by
  simp only [Accounted, upsertUpload, Table.mem_upsert]
  constructor
  · rintro ⟨u, h, hk⟩
    rcases h with ⟨_, hu | rfl⟩ | ⟨_, q, hq, rfl⟩
    · exact Or.inr ⟨u, hu, hk⟩
    · exact Or.inl hk.symm
    · refine Or.inr ⟨q, hq, ?_⟩
      split_ifs at hk <;> exact hk
  · intro h
    by_cases hex : ∃ q ∈ uploads, q.r2Key = key
    · obtain ⟨q, hq, hk⟩ : Accounted uploads k := by
        rcases h with rfl | h
        · exact hex
        · exact h
      refine ⟨_, Or.inr ⟨hex, q, hq, rfl⟩, ?_⟩
      split_ifs <;> exact hk
    · push Not at hex
      rcases h with rfl | ⟨q, hq, hk⟩
      · exact ⟨⟨k, size, now⟩, Or.inl ⟨hex, Or.inr rfl⟩, rfl⟩
      · exact ⟨q, Or.inl ⟨hex, Or.inl hq⟩, hk⟩

theorem accounted_forgetBlob {key k : FileKey} {db : FileDb} :
    Accounted (forgetBlob key db).uploads k ↔ Accounted db.uploads k ∧ k ≠ key := by
  simp only [Accounted, forgetBlob, Table.mem_delete, decide_eq_false_iff_not]
  constructor
  · rintro ⟨u, ⟨hu, hne⟩, hk⟩
    exact ⟨⟨u, hu, hk⟩, hk ▸ hne⟩
  · rintro ⟨⟨u, hu, hk⟩, hne⟩
    exact ⟨u, ⟨hu, hk.symm ▸ hne⟩, hk⟩

theorem accounted_claimOrphans {keys : List FileKey} {k : FileKey} {db : FileDb} :
    Accounted (claimOrphans keys db).uploads k ↔ Accounted db.uploads k ∧ k ∉ keys := by
  simp only [Accounted, claimOrphans, Table.mem_delete, decide_eq_false_iff_not]
  constructor
  · rintro ⟨u, ⟨hu, hne⟩, hk⟩
    exact ⟨⟨u, hu, hk⟩, hk ▸ hne⟩
  · rintro ⟨⟨u, hu, hk⟩, hne⟩
    exact ⟨u, ⟨hu, hk.symm ▸ hne⟩, hk⟩

theorem objects_deleteObjects {keys : List FileKey} {key : FileKey} {db : FileDb} (h : key ∉ keys) :
    (deleteObjects keys db).objects key = db.objects key := by
  simp [deleteObjects, h]

end SendSelf
