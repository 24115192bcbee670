import SendSelf.Lock.Storage

/-!
# Turning the lock on and off

Both are loops of independent writes over the registry and every space's database,
listed here in the order in which they are made. Nothing else writes meanwhile, so
what a step reads is what the storage held at the start. A step that throws ends
the operation.
-/
namespace SendSelf

variable {α : Type}

/-- The vectors that are drawn. -/
structure Ivs where
  row : RowId → AtRestIv
  name : SpaceId → AtRestIv
  vault : AtRestIv

/-- What the secrets stand for in the space's own storage. A key pair is among them if
it could be sealed. -/
def SpaceSecrets.entries (secrets : SpaceSecrets) : List MetaEntry :=
  [.session secrets.session, .keyring secrets.keyring] ++
    (secrets.deviceKeyPair.toList.map fun pair => .deviceKeyPair (importKeyPair pair)) ++
    (secrets.signingKeyPair.toList.map fun pair => .signingKeyPair (importKeyPair pair))

theorem SpaceSecrets.mem_entries {secrets : SpaceSecrets} {entry : MetaEntry} :
    entry ∈ secrets.entries ↔
    entry = .session secrets.session ∨ entry = .keyring secrets.keyring ∨
      (∃ pair, secrets.deviceKeyPair = some pair ∧ entry = .deviceKeyPair (importKeyPair pair)) ∨
        ∃ pair, secrets.signingKeyPair = some pair ∧
          entry = .signingKeyPair (importKeyPair pair) := by
  simp only [entries, List.mem_append, List.mem_cons, List.not_mem_nil, or_false, List.mem_map,
    Option.mem_toList, or_assoc, eq_comm (a := entry)]

/-- A key stands for one secret. -/
theorem SpaceSecrets.entries_inj {secrets : SpaceSecrets} {a b : MetaEntry}
    (ha : a ∈ secrets.entries) (hb : b ∈ secrets.entries) (h : a.key = b.key) : a = b := by
  rcases mem_entries.mp ha with rfl | rfl | ⟨p, hp, rfl⟩ | ⟨p, hp, rfl⟩ <;>
    rcases mem_entries.mp hb with rfl | rfl | ⟨q, hq, rfl⟩ | ⟨q, hq, rfl⟩
  all_goals first
    | rfl
    | (obtain rfl := Option.some.inj (hp.symm.trans hq); rfl)
    | cases h

namespace DeviceStorage

/-- `listSpaces`, oldest first. -/
def listSpaces (s : DeviceStorage α) : Table StoredSpace.id :=
  (s.spaces.sortBy fun a b => a.id ≤ b.id).sortBy fun a b => a.createdAt ≤ b.createdAt

/-- `getAllKeys` of a store, with what is under the keys. -/
def storeRows (s : DeviceStorage α) (space : SpaceId) (store : LocalStore) : List (LocalRow α) :=
  (s.rows.select fun row => decide (row.id.space = space ∧ row.id.store = store)).insertionSort
    fun a b => a.id.key ≤ b.id.key

/-- Re-encrypt one row under `target`. A row that cannot be opened for want of a key
is left untouched. -/
def rewriteRow (key target : Option ContentKey) (ivs : Ivs) (row : LocalRow α) :
    List (Option (StorageWrite α)) :=
  match fromStored key row.id row.body with
  | .ok (some value) => [some (.putRow ⟨row.id, toStored target (ivs.row row.id) row.id value⟩)]
  | .ok none => []
  | .error () => [none]

def rewriteStore (key target : Option ContentKey) (ivs : Ivs) (space : SpaceId) (store : LocalStore)
    (s : DeviceStorage α) : List (Option (StorageWrite α)) :=
  (s.storeRows space store).flatMap (rewriteRow key target ivs)

def rewriteLocalContent (key target : Option ContentKey) (ivs : Ivs) (space : SpaceId)
    (s : DeviceStorage α) : List (Option (StorageWrite α)) :=
  [.messages, .events, .directory, .files].flatMap fun store =>
    s.rewriteStore key target ivs space store

/-- A name goes back sealed under the target; an unnamed space stays unnamed. -/
def rewriteName (key target : Option ContentKey) (ivs : Ivs) (space : StoredSpace) : StoredSpace :=
  { space with
    name := match space.readName key, target with
      | none, _ => .plain none
      | some name, none => .plain (some name)
      | some name, some target => .sealed ⟨target, ivs.name space.id, space.id, name⟩ }

def rewriteSpaceNames (key target : Option ContentKey) (ivs : Ivs) (s : DeviceStorage α) :
    List (Option (StorageWrite α)) :=
  (s.spaces.sortBy fun a b => a.id ≤ b.id).rows.map fun space =>
    some (.putSpace (rewriteName key target ivs space))

/-- The writes that bring a key store from before rotations up to date. -/
def upgradeKeyring (space : SpaceId) (m : SpaceMeta) : List (StorageWrite α) :=
  match m.keyring, m.groupKey with
  | none, some key =>
      [.metaSet space (.keyring (createKeyring key INITIAL_KEY_EPOCH)), .metaDelete space .groupKey]
  | _, _ => []

/-- One space's secrets, out of its own storage. -/
def secretsFromStorage (s : DeviceStorage α) (space : StoredSpace) : Option SpaceSecrets :=
  match (s.meta space.id).session, (s.meta space.id).loadKeyring with
  | some session, some keyring =>
      some ⟨space.id, session, keyring, (s.meta space.id).deviceKeyPair.bind serializeKeyPair,
        (s.meta space.id).signingKeyPair.bind serializeKeyPair⟩
  | _, _ => none

theorem secretsFromStorage_spaceId {s : DeviceStorage α} {space : StoredSpace}
    {secrets : SpaceSecrets}
    (h : s.secretsFromStorage space = some secrets) : secrets.spaceId = space.id := by
  unfold secretsFromStorage at h
  split at h
  · obtain rfl := Option.some.inj h
    rfl
  · cases h

/-- The secrets of every space that holds any. -/
def collected (s : DeviceStorage α) : Table SpaceSecrets.spaceId :=
  s.listSpaces.collect s.secretsFromStorage fun _ _ => secretsFromStorage_spaceId

/-- The plaintext copies go. -/
def dropPlaintext (secrets : SpaceSecrets) : List (StorageWrite α) :=
  secrets.entries.map fun entry => .metaDelete secrets.spaceId entry.key

/-- How the user is to unlock: the salt is fresh, and so is the credential. -/
structure LockOptions where
  method : LockMethod
  salt : Salt
  credentialId : CredentialId

def LockOptions.envelope (options : LockOptions)
    (vault : Sealed VaultKey AtRestIv VaultContext StoredVaultSecrets) :
    VaultEnvelope where
  method := options.method
  salt := options.salt
  iterations := PBKDF2_ITERATIONS
  credentialId := match options.method with
    | .passkey => some options.credentialId
    | .passphrase => none
  sealed := vault

/-- The keys that the secret given for the new lock derives. -/
def LockOptions.keys (options : LockOptions) (user : User) : UnlockedKeys :=
  match options.method with
  | .passkey => keysFromSecret (user.evaluatePrf options.credentialId options.salt) options.salt
  | .passphrase => deriveKeys (.pbkdf2 user.passphrase options.salt PBKDF2_ITERATIONS)

def newEnvelope (options : LockOptions) (user : User) (ivs : Ivs) (s : DeviceStorage α) :
    VaultEnvelope :=
  let keys := options.keys user
  options.envelope ⟨keys.vaultKey, ivs.vault, .current, .v2 s.collected keys.contentKey⟩

/-- Every row and every name, sealed under the new key. -/
def enableLock.sealing (contentKey : ContentKey) (ivs : Ivs) (s : DeviceStorage α) :
    List (Option (StorageWrite α)) :=
  s.listSpaces.rows.flatMap (fun space =>
    s.rewriteLocalContent none (some contentKey) ivs space.id) ++
    s.rewriteSpaceNames none (some contentKey) ivs

/-- The writes of `enableLock`, on a device without a lock. -/
def enableLock (options : LockOptions) (user : User) (ivs : Ivs) (s : DeviceStorage α) :
    List (StorageWrite α) :=
  s.listSpaces.rows.flatMap (fun space => upgradeKeyring space.id (s.meta space.id)) ++
    Interrupt.upTo (enableLock.sealing (options.keys user).contentKey ivs s ++
      (.setVault (newEnvelope options user ivs s) :: s.collected.rows.flatMap dropPlaintext).map
        some)

/-- Put one space's rows and secrets back in the clear. -/
def disableLock.restoring (contentKey : Option ContentKey) (ivs : Ivs) (s : DeviceStorage α)
    (secrets : SpaceSecrets) : List (Option (StorageWrite α)) :=
  s.rewriteLocalContent contentKey none ivs secrets.spaceId ++
    secrets.entries.map fun entry => some (.metaSet secrets.spaceId entry)

/-- The writes of `disableLock`, on an unlocked device that holds these secrets. -/
def disableLock (contentKey : Option ContentKey) (held : Table SpaceSecrets.spaceId) (ivs : Ivs)
    (s : DeviceStorage α) : List (StorageWrite α) :=
  Interrupt.upTo (held.rows.flatMap (disableLock.restoring contentKey ivs s) ++
    s.rewriteSpaceNames contentKey none ivs ++ [some .deleteVault])

end DeviceStorage
end SendSelf
