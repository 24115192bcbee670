import SendSelf.Files.Blobs
import SendSelf.Library.Forest

/-!
# The vault's table

A space's folders, notes and files are rows of `vault_items`, and a row that was
purged stays behind as a tombstone. Every write takes the space's next change number
in the batch that makes it and stamps the row with it. What is modelled is the slice
of one group: its items, its rows of `vault_blobs` and its two counters.
-/
namespace SendSelf

abbrev ItemId := ℕ

inductive ItemKind where
  | folder | note | file
deriving DecidableEq, Repr

/-- What the server never sees of an item; notes and files have content under a key of their own. -/
structure VaultItemMeta where
  name : String
  contentKey : Option GroupKey
  contentIv : Option Iv
  size : Option ℕ
  mime : Option String
  excerpt : Option String
deriving DecidableEq, Repr

/-- `{ name }`. -/
def VaultItemMeta.named (name : String) : VaultItemMeta := ⟨name, none, none, none, none, none⟩

/-- An item's metadata under a GroupKey, bound to the item and its kind. -/
abbrev MetaCiphertext := Sealed GroupKey Iv (ItemId × ItemKind) VaultItemMeta

structure VaultItem where
  id : ItemId
  parentId : Option ItemId
  kind : ItemKind
  keyEpoch : Option ℕ
  «meta» : Option MetaCiphertext
  metaIv : Option Iv
  blobKey : Option FileKey
  blobSize : ℕ
  revision : ℕ
  seq : ℕ
  createdAt : ℕ
  updatedAt : ℕ
  trashedAt : Option ℕ
  removedAt : Option ℕ
deriving DecidableEq, Repr

/-- `removed_at IS NULL`. -/
def VaultItem.live (r : VaultItem) : Bool := r.removedAt.isNone

structure VaultDb where
  items : Table VaultItem.id
  blobs : Table UploadRow.r2Key
  /-- `vault_seq` of the group. -/
  seq : ℕ
  /-- `vault_floor` of the group. -/
  floor : ℕ

def VAULT_MAX_ITEMS : ℕ := 10000
def VAULT_TRASH_TTL_MS : ℕ := 30 * 24 * 60 * 60 * 1000
def VAULT_TOMBSTONE_TTL_MS : ℕ := 90 * 24 * 60 * 60 * 1000
def VAULT_PAGE_SIZE : ℕ := 500
def VAULT_RESEAL_BATCH : ℕ := 100
def PURGE_BATCH_SIZE : ℕ := 40

namespace VaultDb

/-- One live item. -/
def vaultItem (db : VaultDb) (id : ItemId) : Option VaultItem :=
  (db.items.get? id).filter VaultItem.live

def liveCount (db : VaultDb) : ℕ := (db.items.select VaultItem.live).length

/-- `LIVE_FOLDER`. -/
def liveFolder (db : VaultDb) (id : ItemId) : Bool :=
  db.items.exist fun r => decide (r.id = id ∧ r.kind = .folder) && r.live

/-- `BLOB_CLAIMABLE`. -/
def blobClaimable (db : VaultDb) (key : FileKey) : Bool :=
  !(db.items.exist fun r => decide (r.blobKey = some key) && r.live) &&
    db.blobs.exist fun b => decide (b.r2Key = key ∧ b.createdAt ≠ RESERVED_FOR_DELETION)

def parentOf (db : VaultDb) (id : ItemId) : Option ItemId :=
  (db.items.get? id).bind VaultItem.parentId

/-- `SUBTREE`: an item and everything under it, tombstones included. -/
def subtree (db : VaultDb) (root id : ItemId) : Bool :=
  Forest.climbs db.parentOf root db.items.rows.length id

theorem subtree_iff {db : VaultDb} {root id : ItemId} :
    db.subtree root id = true ↔ Forest.Above db.parentOf root id := by
  classical
  have hnodes : ∀ x y, db.parentOf x = some y → x ∈ (db.items.rows.map VaultItem.id).toFinset := by
    intro x y h
    obtain ⟨r, hr, _⟩ := Option.bind_eq_some_iff.mp h
    obtain ⟨hmem, rfl⟩ := Table.get?_eq_some.mp hr
    exact List.mem_toFinset.mpr (List.mem_map.mpr ⟨r, hmem, rfl⟩)
  refine Forest.climbs_iff hnodes ?_
  calc ((db.items.rows.map VaultItem.id).toFinset).card ≤ (db.items.rows.map VaultItem.id).length :=
        List.toFinset_card_le _
    _ = db.items.rows.length := List.length_map ..

def nextVaultSeq (db : VaultDb) : VaultDb := { db with seq := db.seq + 1 }

/-- The row as a write leaves it. -/
def stamp (seq : ℕ) (f : VaultItem → VaultItem) (r : VaultItem) : VaultItem :=
  { f r with id := r.id, seq }

/-- Take the next number, and change one live item if it meets the guard. The answer
is the row the statement returned. -/
def change (db : VaultDb) (id : ItemId) (guard : VaultItem → Bool) (f : VaultItem → VaultItem) :
    VaultDb × Option VaultItem :=
  let db := db.nextVaultSeq
  ({ db with
    items := db.items.update (fun r => decide (r.id = id) && r.live && guard r) (stamp db.seq f)
      fun _ => rfl },
    ((db.vaultItem id).filter guard).map (stamp db.seq f))

/-- What `createVaultItem` inserts. -/
structure NewItem where
  id : ItemId
  parentId : Option ItemId
  kind : ItemKind
  keyEpoch : ℕ
  «meta» : MetaCiphertext
  metaIv : Iv
  blobKey : Option FileKey
  blobSize : ℕ

def NewItem.row (item : NewItem) (seq now : ℕ) : VaultItem where
  id := item.id
  parentId := item.parentId
  kind := item.kind
  keyEpoch := some item.keyEpoch
  «meta» := some item.meta
  metaIv := some item.metaIv
  blobKey := item.blobKey
  blobSize := item.blobSize
  revision := 1
  seq := seq
  createdAt := now
  updatedAt := now
  trashedAt := none
  removedAt := none

/-- The batch of `createVaultItem`. -/
def create (item : NewItem) (now : ℕ) (db : VaultDb) : VaultDb × Option VaultItem :=
  let db := db.nextVaultSeq
  if db.liveCount < VAULT_MAX_ITEMS ∧ item.parentId.all db.liveFolder ∧
    item.blobKey.all db.blobClaimable then
    match db.items.insert (item.row db.seq now) with
    | some items => ({ db with items }, some (item.row db.seq now))
    | none => (db, none)
  else (db, none)

/-- The columns `updateVaultItem` sets. -/
structure ItemChanges where
  parentId : Option (Option ItemId)
  sealing : Option (ℕ × MetaCiphertext × Iv)
  blob : Option (FileKey × ℕ)
  trashedAt : Option (Option ℕ)
deriving DecidableEq

def ItemChanges.apply (changes : ItemChanges) (now : ℕ) (r : VaultItem) : VaultItem :=
  { r with
    parentId := changes.parentId.getD r.parentId
    keyEpoch := changes.sealing.elim r.keyEpoch fun s => some s.1
    «meta» := changes.sealing.elim r.meta fun s => some s.2.1
    metaIv := changes.sealing.elim r.metaIv fun s => some s.2.2
    blobKey := changes.blob.elim r.blobKey fun b => some b.1
    blobSize := changes.blob.elim r.blobSize Prod.snd
    trashedAt := changes.trashedAt.getD r.trashedAt
    revision := r.revision + 1
    updatedAt := now }

/-- The conditions that the statement checks again: the new parent is a live folder
that is not inside the item, and the new content is nobody's. -/
def ItemChanges.guard (changes : ItemChanges) (id : ItemId) (db : VaultDb) : Bool :=
  (changes.parentId.all fun parent => parent.all fun p => db.liveFolder p && !db.subtree id p) &&
    changes.blob.all fun b => db.blobClaimable b.1

/-- The batch of `updateVaultItem`. -/
def update (id : ItemId) (revision : ℕ) (changes : ItemChanges) (now : ℕ) (db : VaultDb) :
    VaultDb × Option VaultItem :=
  db.change id (fun r => decide (r.revision = revision) && changes.guard id db) (changes.apply now)

/-- One item of `resealVaultItems`. -/
structure ResealedItem where
  id : ItemId
  revision : ℕ
  «meta» : MetaCiphertext
  metaIv : Iv
deriving DecidableEq

def resealOne (keyEpoch now : ℕ) (db : VaultDb) (item : ResealedItem) : VaultDb :=
  (db.change item.id
    (fun r => decide (r.revision = item.revision) && r.keyEpoch.any fun epoch =>
      decide (epoch < keyEpoch))
    fun r =>
      { r with keyEpoch := some keyEpoch, «meta» := some item.meta, metaIv := some item.metaIv,
                      updatedAt := now }).1

/-- The batch of `resealVaultItems`. -/
def reseal (keyEpoch : ℕ) (items : List ResealedItem) (now : ℕ) (db : VaultDb) : VaultDb :=
  items.foldl (resealOne keyEpoch now) db

/-- What a purge leaves of an item. -/
def buried (now : ℕ) (r : VaultItem) : VaultItem :=
  { r with
    removedAt := some now, trashedAt := none, keyEpoch := none, «meta» := none, metaIv := none,
           blobKey := none, blobSize := 0, updatedAt := now }

def tombstone (now : ℕ) (id : ItemId) (guard : VaultItem → Bool) (db : VaultDb) :
    VaultDb × Option VaultItem :=
  db.change id guard (buried now)

/-- One batch of `purgeVaultItem`: an item that is not inside `root` any more is left
alone. The answer is what was purged. -/
def purgeBatch (root : ItemId) (now : ℕ) : List ItemId → VaultDb → VaultDb × List ItemId
  | [], db => (db, [])
  | id :: ids, db =>
      let one := db.tombstone now id fun _ => db.subtree root id
      let rest := purgeBatch root now ids one.1
      (rest.1, (one.2.map VaultItem.id).toList ++ rest.2)

/-- The claiming batch of `purgeExpiredVaultItem`. -/
def claimExpired (id : ItemId) (expiredBefore : ℕ) (blobKey : Option FileKey) (now : ℕ)
    (db : VaultDb) :
    VaultDb × Option VaultItem :=
  db.tombstone now id fun r => (r.trashedAt.any fun at_ => decide (at_ < expiredBefore)) &&
    decide (r.blobKey = blobKey)

def forgettable (forgottenBefore : ℕ) (r : VaultItem) : Bool :=
  r.removedAt.any fun at_ => decide (at_ < forgottenBefore)

/-- The last batch of `cleanUpVault`: the floor is raised over what is forgotten. -/
def forget (forgottenBefore : ℕ) (db : VaultDb) : VaultDb :=
  { db with
    floor := ((db.items.select (forgettable forgottenBefore)).map VaultItem.seq).foldl max db.floor
    items := db.items.delete (forgettable forgottenBefore) }

end VaultDb

/-- A batch of one of the handlers, with what it was bound to. -/
inductive VaultBatch where
  | create (item : VaultDb.NewItem) (now : ℕ)
  | update (id : ItemId) (revision : ℕ) (changes : VaultDb.ItemChanges) (now : ℕ)
  | reseal (keyEpoch : ℕ) (items : List VaultDb.ResealedItem) (now : ℕ)
  | purge (root : ItemId) (ids : List ItemId) (now : ℕ)
  | claimExpired (id : ItemId) (expiredBefore : ℕ) (blobKey : Option FileKey) (now : ℕ)
  | forget (forgottenBefore : ℕ)
  /-- An upload, or a deletion of content: what it leaves of `vault_blobs`. -/
  | content (blobs : Table UploadRow.r2Key)

def VaultBatch.commit : VaultBatch → VaultDb → VaultDb
  | .create item now, db => (db.create item now).1
  | .update id revision changes now, db => (db.update id revision changes now).1
  | .reseal keyEpoch items now, db => db.reseal keyEpoch items now
  | .purge root ids now, db => (db.purgeBatch root now ids).1
  | .claimExpired id expiredBefore blobKey now,
      db => (db.claimExpired id expiredBefore blobKey now).1
  | .forget forgottenBefore, db => db.forget forgottenBefore
  | .content blobs, db => { db with blobs }

/-- The vault of a new space. -/
def VaultDb.new : VaultDb := ⟨.empty, .empty, 0, 0⟩

/-- Any history of batches. -/
def VaultDb.write (db : VaultDb) (batch : VaultBatch) : Option VaultDb := some (batch.commit db)

end SendSelf
