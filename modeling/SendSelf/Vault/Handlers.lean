import SendSelf.Files.Handlers
import SendSelf.Vault.Numbering

/-!
# Creating, editing, re-sealing, purging and cleaning up

The handlers that write the vault, one stage for each await on D1. Deleting the
content that a write leaves unclaimed is not among the stages: it changes nothing of
`vault_items`, and `VaultBatch.content` stands for what it does to `vault_blobs`.
-/
namespace SendSelf

/-- What a step gets from outside the vault: the answer of `authenticate`, the clock
and the rate limiter. -/
structure VaultMoment where
  groupKeyEpoch : ℕ
  now : ℕ
  limited : Bool
deriving DecidableEq, Repr

def badField (message : String) : ApiError := ⟨.bad_request, message⟩

/-- A present field. -/
def requireField {α : Type} (message : String) (value : Option α) : Except ApiError α :=
  match value with
  | some a => .ok a
  | none => .error (badField message)

/-- `requireCurrentEpoch`. -/
def requireCurrentEpoch (groupKeyEpoch : ℕ) (value : Option ℕ) : Except ApiError ℕ := do
  let epoch ← requireField "Missing or invalid integer field: keyEpoch" value
  if epoch ≠ groupKeyEpoch then
    .error ⟨.key_rotated, "The space key has rotated; seal it with the new key"⟩
  else .ok epoch

/-- `requireFolder`, of what it read. -/
def requireFolder (parent : Option VaultItem) : Except ApiError Unit :=
  if parent.any (fun p => decide (p.kind = .folder)) then .ok ()
  else .error ⟨.not_found, "That folder no longer exists"⟩

/-- The first half of `requireFreeBlob`. -/
def requireBlobSize (row : Option UploadRow) : Except ApiError ℕ :=
  match row with
  | some row => .ok row.size
  | none => .error ⟨.bad_request, "Referenced content has not been uploaded"⟩

/-- The second half of `requireFreeBlob`. -/
def requireNoOwner (db : VaultDb) (key : FileKey) : Except ApiError Unit :=
  if db.items.exist fun r => decide (r.blobKey = some key) && r.live then
    .error ⟨.conflict, "That content already belongs to another item"⟩
  else .ok ()

structure CreateVaultItemRequest where
  id : ItemId
  kind : ItemKind
  parentId : Option ItemId
  keyEpoch : Option ℕ
  «meta» : MetaCiphertext
  metaIv : Iv
  blobKey : Option FileKey
deriving DecidableEq, Repr

inductive CreateStage where
  | received
  | authed (keyEpoch : ℕ)
  | unused (keyEpoch : ℕ)
  | placed (keyEpoch : ℕ)
  | sized (keyEpoch size : ℕ)
  | ready (keyEpoch size : ℕ)
  | refused
  | answered (a : Except ApiError VaultItem)
deriving Repr

namespace createVaultItem

def checkBody (req : CreateVaultItemRequest) (groupKeyEpoch : ℕ) : Except ApiError ℕ := do
  let keyEpoch ← requireCurrentEpoch groupKeyEpoch req.keyEpoch
  if req.kind ≠ .folder then let _ ← requireField "Missing or invalid field: blobKey" req.blobKey
  else if req.blobKey.isSome then .error ⟨.bad_request, "A folder has no content"⟩
  return keyEpoch

/-- The same id with the same sealed metadata is this very request again. -/
def retried (req : CreateVaultItemRequest) (existing : VaultItem) : Bool :=
  decide (existing.meta = some req.meta ∧ existing.metaIv = some req.metaIv ∧
    existing.kind = req.kind)

def item (req : CreateVaultItemRequest) (keyEpoch size : ℕ) : VaultDb.NewItem where
  id := req.id
  parentId := req.parentId
  kind := req.kind
  keyEpoch := keyEpoch
  «meta» := req.meta
  metaIv := req.metaIv
  blobKey := if req.kind = .folder then none else req.blobKey
  blobSize := size

/-- Once the place is checked: the content, or nothing to check. -/
def afterPlace (req : CreateVaultItemRequest) (keyEpoch : ℕ) : CreateStage :=
  if req.kind = .folder then .ready keyEpoch 0 else .placed keyEpoch

def full : ApiError := ⟨.quota_exceeded, "The vault holds the most items it can (10,000)"⟩

def next (req : CreateVaultItemRequest) (m : VaultMoment) (db : VaultDb) :
    CreateStage → VaultDb × CreateStage
  | .received => (db, orAnswer (.answered <| .error ·) do
      rateLimit m.limited
      return .authed (← checkBody req m.groupKeyEpoch))
  | .authed keyEpoch =>
      (db, match db.vaultItem req.id with
        | some existing =>
            if retried req existing then .answered (.ok existing)
            else .answered (.error ⟨.conflict, "An item with this id already exists"⟩)
        | none => if req.parentId.isSome then .unused keyEpoch else afterPlace req keyEpoch)
  | .unused keyEpoch => (db, orAnswer (.answered <| .error ·) do
      requireFolder (req.parentId.bind db.vaultItem)
      return afterPlace req keyEpoch)
  | .placed keyEpoch => (db, orAnswer (.answered <| .error ·) do
      return .sized keyEpoch (← requireBlobSize (req.blobKey.bind db.blobs.get?)))
  | .sized keyEpoch size => (db, orAnswer (.answered <| .error ·) do
      if let some key := req.blobKey then requireNoOwner db key
      return .ready keyEpoch size)
  | .ready keyEpoch size =>
      let write := db.create (item req keyEpoch size) m.now
      (write.1, match write.2 with
        | some row => .answered (.ok row)
        | none => .refused)
  | .refused =>
      (db, .answered (.error (if VAULT_MAX_ITEMS ≤ db.liveCount then full
        else ⟨.conflict, "The vault changed while saving; try again"⟩)))
  | stage => (db, stage)

end createVaultItem

/-- `parentId` is `none` where the body does not name one, and `some none` for the top level. -/
structure UpdateVaultItemRequest where
  revision : ℕ
  parentId : Option (Option ItemId)
  keyEpoch : Option ℕ
  «meta» : Option MetaCiphertext
  metaIv : Option Iv
  blobKey : Option FileKey
  trashed : Option Bool
deriving DecidableEq, Repr

inductive UpdateStage where
  | received
  | authed (groupKeyEpoch : ℕ)
  /-- The new parent is to be read. -/
  | moving (groupKeyEpoch : ℕ) (item : VaultItem) (parent : ItemId)
  /-- The new content is to be read. -/
  | claiming (item : VaultItem) (sealing : Option (ℕ × MetaCiphertext × Iv)) (key : FileKey)
  | sized (item : VaultItem) (sealing : Option (ℕ × MetaCiphertext × Iv)) (key : FileKey) (size : ℕ)
  | ready (changes : VaultDb.ItemChanges)
  | answered (a : Except ApiError VaultItem)

namespace updateVaultItem

/-- The columns of the body's metadata. -/
def checkSealing (req : UpdateVaultItemRequest) (groupKeyEpoch : ℕ) :
    Except ApiError (Option (ℕ × MetaCiphertext × Iv)) := do
  if req.meta.isSome ∨ req.metaIv.isSome ∨ req.keyEpoch.isSome then
    let keyEpoch ← requireCurrentEpoch groupKeyEpoch req.keyEpoch
    let sealedMeta ← requireField "Missing or invalid field: meta" req.meta
    let metaIv ← requireField "Missing or invalid field: metaIv" req.metaIv
    return some (keyEpoch, sealedMeta, metaIv)
  else return none

/-- The content that is to be claimed, if it is another one. -/
def checkContent (req : UpdateVaultItemRequest) (item : VaultItem) :
    Except ApiError (Option FileKey) :=
  match req.blobKey with
  | none => .ok none
  | some key =>
      if item.kind = .folder then .error ⟨.bad_request, "A folder has no content"⟩
      else if req.meta.isNone ∧ req.metaIv.isNone then
        .error ⟨.bad_request, "New content needs its metadata"⟩
      else .ok (if item.blobKey = some key then none else some key)

/-- The parent that is set, if it is another one. -/
def newParent (req : UpdateVaultItemRequest) (item : VaultItem) : Option (Option ItemId) :=
  req.parentId.filter fun parent => decide (parent ≠ item.parentId)

def changes (req : UpdateVaultItemRequest) (item : VaultItem)
    (sealing : Option (ℕ × MetaCiphertext × Iv))
    (blob : Option (FileKey × ℕ)) (now : ℕ) : VaultDb.ItemChanges where
  parentId := newParent req item
  sealing := sealing
  blob := blob
  trashedAt :=
    req.trashed.map fun trashed => if trashed then some (item.trashedAt.getD now) else none

def nothing : VaultDb.ItemChanges := ⟨none, none, none, none⟩

/-- The batch, unless there is nothing to set. -/
def prepare (item : VaultItem) (c : VaultDb.ItemChanges) : UpdateStage :=
  if c = nothing then .answered (.ok item) else .ready c

/-- Once the place is checked. -/
def afterPlace (req : UpdateVaultItemRequest) (groupKeyEpoch now : ℕ) (item : VaultItem) :
    UpdateStage :=
  orAnswer (.answered <| .error ·) do
    let sealing ← checkSealing req groupKeyEpoch
    match ← checkContent req item with
    | some key => return .claiming item sealing key
    | none => return prepare item (changes req item sealing none now)

def stale : ApiError := ⟨.conflict, "The item was changed on another device"⟩

def afterRead (id : ItemId) (req : UpdateVaultItemRequest) (groupKeyEpoch now : ℕ)
    (item : VaultItem) :
    UpdateStage :=
  if item.revision ≠ req.revision then .answered (.error stale)
  else match newParent req item with
    | some (some parent) =>
        if parent = id then .answered (.error ⟨.bad_request, "A folder cannot hold itself"⟩)
        else .moving groupKeyEpoch item parent
    | _ => afterPlace req groupKeyEpoch now item

def next (id : ItemId) (req : UpdateVaultItemRequest) (m : VaultMoment) (db : VaultDb) :
    UpdateStage → VaultDb × UpdateStage
  | .received => (db, orAnswer (.answered <| .error ·) do
      rateLimit m.limited
      return .authed m.groupKeyEpoch)
  | .authed groupKeyEpoch =>
      (db, match db.vaultItem id with
        | none => .answered (.error ⟨.not_found, "That item no longer exists"⟩)
        | some item => afterRead id req groupKeyEpoch m.now item)
  | .moving groupKeyEpoch item parent => (db, orAnswer (.answered <| .error ·) do
      requireFolder (db.vaultItem parent)
      return afterPlace req groupKeyEpoch m.now item)
  | .claiming item sealing key => (db, orAnswer (.answered <| .error ·) do
      return .sized item sealing key (← requireBlobSize (db.blobs.get? key)))
  | .sized item sealing key size => (db, orAnswer (.answered <| .error ·) do
      requireNoOwner db key
      return prepare item (changes req item sealing (some (key, size)) m.now))
  | .ready c =>
      let write := db.update id req.revision c m.now
      (write.1, .answered (match write.2 with
        | some row => .ok row
        | none => .error stale))
  | stage => (db, stage)

end updateVaultItem

structure VaultResealRequest where
  keyEpoch : Option ℕ
  items : List VaultDb.ResealedItem
deriving DecidableEq

inductive ResealStage where
  | received
  | ready (keyEpoch : ℕ)
  | answered (a : Except ApiError Unit)
deriving Repr

namespace resealVaultItems

def next (req : VaultResealRequest) (m : VaultMoment) (db : VaultDb) :
    ResealStage → VaultDb × ResealStage
  | .received => (db, orAnswer (.answered <| .error ·) do
      rateLimit m.limited
      let keyEpoch ← requireCurrentEpoch m.groupKeyEpoch req.keyEpoch
      if VAULT_RESEAL_BATCH < req.items.length then
        .error ⟨.bad_request, "Send between 0 and 100 items"⟩
      else if req.items = [] then return .answered (.ok ())
      else return .ready keyEpoch)
  | .ready keyEpoch => (db.reseal keyEpoch req.items m.now, .answered (.ok ()))
  | stage => (db, stage)

end resealVaultItems

namespace VaultDb

/-- What the walk returns: the live items of the tree below a row. -/
def alive (db : VaultDb) (root : ItemId) : List ItemId :=
  (db.items.select fun r => r.live && ((db.items.get? root).isSome && db.subtree root r.id)).map
    VaultItem.id

end VaultDb

inductive TreePurge where
  /-- The tree is to be walked. -/
  | walking (purged : List ItemId)
  /-- These of a walk are still to be purged. -/
  | purging (now : ℕ) (rows purged : List ItemId)
  | done (purged : List ItemId)
deriving DecidableEq, Repr

namespace purgeVaultItem

/-- `rows` is the order in which the walk returns what it finds. -/
def next (root : ItemId) (now : ℕ) (rows : List ItemId) (db : VaultDb) :
    TreePurge → Option (VaultDb × TreePurge)
  | .walking purged =>
      if rows.Perm (db.alive root) then
        some (db, if rows = [] then .done purged else .purging now rows purged)
      else none
  | .purging now found purged =>
      let batch := db.purgeBatch root now (found.take PURGE_BATCH_SIZE)
      let rest := found.drop PURGE_BATCH_SIZE
      some (batch.1,
        if rest = [] then .walking (purged ++ batch.2) else .purging now rest (purged ++ batch.2))
  | .done _ => none

end purgeVaultItem

inductive DeleteStage where
  | received
  | authed
  | purging (stage : TreePurge)
  | answered (a : Except ApiError (List ItemId))
deriving Repr

/-- The caller goes on where the purge has returned. -/
def TreePurge.orElse {σ : Type} (stage : TreePurge) (purging : TreePurge → σ)
    (done : List ItemId → σ) : σ :=
  match stage with
  | .done purged => done purged
  | stage => purging stage

namespace deleteVaultItem

def next (id : ItemId) (m : VaultMoment) (rows : List ItemId) (db : VaultDb) :
    DeleteStage → Option (VaultDb × DeleteStage)
  | .received => some (db, orAnswer (.answered <| .error ·) do
      rateLimit m.limited
      return .authed)
  | .authed =>
      some (db, if (db.vaultItem id).isSome then .purging (.walking [])
        else .answered (.error ⟨.not_found, "That item no longer exists"⟩))
  | .purging stage =>
      (purgeVaultItem.next id m.now rows db stage).map fun r =>
        (r.1, r.2.orElse .purging fun removed => .answered (.ok removed))
  | .answered _ => none

end deleteVaultItem

inductive CleanUpStage where
  | selecting
  /-- `purgeExpiredVaultItem` of the first of these. -/
  | reading (id : ItemId) (rest : List ItemId)
  | claiming (id : ItemId) (blobKey : Option FileKey) (rest : List ItemId)
  | purging (id : ItemId) (stage : TreePurge) (rest : List ItemId)
  | forgetting
  | done
deriving Repr

namespace cleanUpVault

def SELECTED : ℕ := 50

def isExpired (now : ℕ) (r : VaultItem) : Bool :=
  r.live && r.trashedAt.any fun at_ => decide (at_ < now - VAULT_TRASH_TTL_MS)

def expired (now : ℕ) (db : VaultDb) : List ItemId :=
  (db.items.select (isExpired now)).map VaultItem.id

/-- The next of the selected items, or the next selection. -/
def purgeNext : List ItemId → CleanUpStage
  | [] => .selecting
  | id :: rest => .reading id rest

/-- The selection is over all groups: `rows` is what it returns of this one, and the
loop goes on as long as it returns anything. -/
def next (started : ℕ) (m : VaultMoment) (rows : List ItemId) (db : VaultDb) :
    CleanUpStage → Option (VaultDb × CleanUpStage)
  | .selecting =>
      if rows.Nodup ∧ rows ⊆ expired started db ∧ rows.length ≤ SELECTED then
        some (db, if rows = [] ∧ expired started db = [] then .forgetting else purgeNext rows)
      else none
  | .reading id rest =>
      some (db, match (db.vaultItem id).filter (isExpired started) with
        | none => purgeNext rest
        | some root => .claiming id root.blobKey rest)
  | .claiming id blobKey rest =>
      let claim := db.claimExpired id (started - VAULT_TRASH_TTL_MS) blobKey m.now
      some (claim.1, if claim.2.isSome then .purging id (.walking []) rest else purgeNext rest)
  | .purging id stage rest =>
      (purgeVaultItem.next id m.now rows db stage).map fun r =>
        (r.1, r.2.orElse (.purging id · rest) fun _ => purgeNext rest)
  | .forgetting => some (db.forget (started - VAULT_TOMBSTONE_TTL_MS), .done)
  | .done => none

end cleanUpVault
end SendSelf
