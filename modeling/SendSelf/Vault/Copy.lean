import SendSelf.Library.Replica
import SendSelf.Vault.Changes

/-!
# A device's copy of the vault

A device keeps the vault's records in IndexedDB, with the cursor they are current to, and
opened in memory, with a cursor of its own. A sync pass pulls what changed and takes it
over in both, one after the other. The device's own writes go to the server, and what they
are answered with is put into both copies whenever the answer arrives.
-/
namespace SendSelf

/-- The copy in IndexedDB; `cursor` is `META_VAULT_CURSOR`. -/
structure VaultCopy where
  records : Table VaultItem.id
  cursor : ℕ

def isNewer (records : Table VaultItem.id) (item : VaultItem) : Bool :=
  (records.get? item.id).all fun known => decide (known.seq < item.seq)

def putNewer (records : Table VaultItem.id) (item : VaultItem) : Table VaultItem.id :=
  if isNewer records item then records.put item else records

def storeVaultChanges (items : List VaultItem) (removed : List ItemId) (reset : Bool)
    (cursor : Option ℕ) (copy : VaultCopy) : VaultCopy where
  records :=
    items.foldl putNewer ((if reset then .empty else copy.records).delete fun r =>
      decide (r.id ∈ removed))
  cursor := cursor.getD copy.cursor

/-- What a write of this device is answered with. -/
inductive VaultAnswer where
  | item (record : VaultItem)
  | removed (ids : List ItemId)

namespace VaultAnswer

/-- The first half of `remember` and of `forget`. -/
def store : VaultAnswer → VaultCopy → VaultCopy
  | .item record => storeVaultChanges [record] [] false none
  | .removed ids => storeVaultChanges [] ids false none

def «show» : VaultAnswer → Table VaultItem.id → Table VaultItem.id
  | .item record, entries => putNewer entries record
  | .removed ids, entries => entries.delete fun r => decide (r.id ∈ ids)

def written (answer : VaultAnswer) (entries : Table VaultItem.id) : List ItemId :=
  match answer with
  | .item record => if isNewer entries record then [record.id] else []
  | .removed _ => []

end VaultAnswer

inductive OwnWrite where
  | deleting (root : ItemId) (removed : List ItemId)
  | answered (answer : VaultAnswer)
  | stored (answer : VaultAnswer)

/-- How far a pass of `runSync` has come. -/
inductive SyncPhase where
  | idle
  | pulling (started : ℕ) (pull : VaultPull) (phase : PullPhase)
  | storing (changes : VaultChanges)
  | applying (changes : VaultChanges)
  /-- The records are being opened; these entries were replaced meanwhile. -/
  | opening (records : Table VaultItem.id) (written : List ItemId)

structure VaultDevice where
  db : VaultDb
  copy : VaultCopy
  entries : Table VaultItem.id
  cursor : ℕ
  fetched : Bool
  phase : SyncPhase
  writes : List OwnWrite
  /-- History: the last version of every item that ever was. -/
  last : ItemId → Option VaultItem

inductive VaultDeviceEvent where
  /-- A batch of another device, or of the clean-up, or one that seals items again. -/
  | commit (batch : VaultBatch)
  | write (batch : VaultBatch)
  /-- It is answered with the item as it is: nothing was to be set, or the creation was
  carried out before. -/
  | reread (id : ItemId)
  | delete (root : ItemId)
  | purge (i : ℕ) (ids : List ItemId) (now : ℕ)
  | respond (i : ℕ)
  | lose (i : ℕ)
  | store (i : ℕ)
  | «show» (i : ℕ)
  | sync (vaultSeq : Option ℕ) (keyChanged : Bool)
  | pull (event : PullEvent)
  | keep
  | apply
  | publish
  | fail
  | reload

def VaultBatch.returned : VaultBatch → VaultDb → Option VaultItem
  | .create item now, db => (db.create item now).2
  | .update id revision changes now, db => (db.update id revision changes now).2
  | _, _ => none

/-- What was replaced while the records were opened is kept if it is newer. -/
def mergeEntries (entries : Table VaultItem.id) (written : List ItemId)
    (records : Table VaultItem.id) :
    Table VaultItem.id :=
  written.foldl (fun opened id => (entries.get? id).elim opened (putNewer opened)) records

namespace VaultDevice

def new : VaultDevice := ⟨.new, ⟨.empty, 0⟩, .empty, 0, false, .idle, [], fun _ => none⟩

def commit (w : VaultDevice) (batch : VaultBatch) : VaultDevice :=
  { w with db := batch.commit w.db, last := fun id =>
    ((batch.commit w.db).items.get? id).or (w.last id) }

def pulled (w : VaultDevice) (started : ℕ) (call : PullCall) : VaultDevice :=
  match call.phase with
  | .done changes => { w with phase := .storing changes }
  | phase => { w with phase := .pulling started call.pull phase }

def step (w : VaultDevice) : VaultDeviceEvent → Option VaultDevice
  | .commit batch => some (w.commit batch)
  | .write batch => some { w.commit batch with
      writes := w.writes ++
        ((batch.returned w.db).map fun row => OwnWrite.answered (.item row)).toList }
  | .reread id => (w.db.vaultItem id).map fun row =>
      { w with writes := w.writes ++ [.answered (.item row)] }
  | .delete root => some { w with writes := w.writes ++ [.deleting root []] }
  | .purge i ids now =>
      match w.writes[i]? with
      | some (.deleting root removed) => some { w.commit (.purge root ids now) with
          writes := w.writes.set i (.deleting root (removed ++ (w.db.purgeBatch root now ids).2)) }
      | _ => none
  | .respond i =>
      match w.writes[i]? with
      | some (.deleting _ removed) =>
          some { w with writes := w.writes.set i (.answered (.removed removed)) }
      | _ => none
  | .lose i => some { w with writes := w.writes.eraseIdx i }
  | .store i =>
      match w.writes[i]? with
      | some (.answered answer) =>
          some { w with copy := answer.store w.copy, writes := w.writes.set i (.stored answer) }
      | _ => none
  | .show i =>
      match w.writes[i]? with
      | some (.stored answer) => some { w with
          entries := answer.show w.entries
          phase := match w.phase with
            | .opening records written => .opening records (answer.written w.entries ++ written)
            | phase => phase
          writes := w.writes.eraseIdx i }
      | _ => none
  | .sync vaultSeq keyChanged =>
      match w.phase with
      | .idle =>
          if vaultSeq ≠ some w.cursor ∨ w.fetched = false then
            some { w with phase := .pulling w.db.seq (.begin w.cursor) .asking }
          else if keyChanged then some { w with phase := .opening w.entries [] }
          else some w
      | _ => none
  | .pull event =>
      match w.phase, event with
      | .pulling _ _ _, .commit _ => none
      | .pulling started pull phase,
          event => (PullCall.step ⟨w.db, pull, phase⟩ event).map (w.pulled started)
      | _, _ => none
  | .keep =>
      match w.phase with
      | .storing changes => some { w with
          copy := storeVaultChanges changes.items changes.removed changes.reset
            (some changes.cursor) w.copy
          phase := .applying changes }
      | _ => none
  | .apply =>
      match w.phase with
      | .applying changes => some { w with
          cursor := changes.cursor, fetched := true,
          phase := .opening (applyVaultChanges w.entries changes) [] }
      | _ => none
  | .publish =>
      match w.phase with
      | .opening records written =>
          some { w with entries := mergeEntries w.entries written records, phase := .idle }
      | _ => none
  | .fail =>
      match w.phase with
      | .pulling _ _ _ => some { w with phase := .idle }
      | .storing _ => some { w with phase := .idle }
      | _ => none
  | .reload => some { w with
      entries := w.copy.records, cursor := w.copy.cursor, fetched := false, phase := .idle,
      writes := [] }

end VaultDevice

/-- The answer does not come after the purge, or the re-use, of its item in a copy that is
current to `k`. -/
def VaultAnswer.Fits (last : ItemId → Option VaultItem) (k : ℕ) : VaultAnswer → Prop
  | .item record => ∀ q ∈ last record.id, q.seq ≤ k → q.live = true
  | .removed ids => ∀ id ∈ ids, ∀ q ∈ last id, q.seq ≤ k → q.live = false

namespace VaultDevice

/-- No tombstone is forgotten that was made since the pass began to pull. -/
def Remembers (w : VaultDevice) (batch : VaultBatch) : Prop :=
  match w.phase with
  | .pulling started pull phase => PullCall.Remembers started ⟨w.db, pull, phase⟩ (.commit batch)
  | _ => True

/-- No answer arrives in a copy that the purge of its item has already been pulled into. -/
def InOrder (w : VaultDevice) : VaultDeviceEvent → Prop
  | .commit batch => w.Remembers batch
  | .write batch => w.Remembers batch
  | .store i => match w.writes[i]? with
      | some (.answered answer) => answer.Fits w.last w.copy.cursor
      | _ => True
  | .show i => match w.writes[i]? with
      | some (.stored answer) => answer.Fits w.last w.cursor
      | _ => True
  | _ => True

/-- A pass has finished, current to the server, and no answer is outstanding. -/
structure Settled (w : VaultDevice) : Prop where
  idle : w.phase = .idle
  fetched : w.fetched = true
  current : w.cursor = w.db.seq
  answered : w.writes = []

/-- Both copies hold exactly the live items. -/
structure Converged (w : VaultDevice) : Prop where
  copy : ∀ id, w.copy.records.get? id = w.db.vaultItem id
  entries : ∀ id, w.entries.get? id = w.db.vaultItem id

end VaultDevice
end SendSelf
