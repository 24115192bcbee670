import SendSelf.Keys.Client
import SendSelf.Library.Table

/-!
# Secrets at rest

Two keys come out of one unlock: the vault key seals the envelope with every
space's secrets, and the content key encrypts local rows in place. Both are
derived from what the user supplies together with the salt in the envelope, and
are kept nowhere.
-/
namespace SendSelf

abbrev SpaceId := ℕ
abbrev Salt := ℕ
abbrev CredentialId := ℕ
abbrev Passphrase := ℕ
abbrev AtRestIv := ℕ

/-- The space of a device that was set up before spaces were plural. -/
def LEGACY_SPACE_ID : SpaceId := 0

inductive LockMethod where
  | passphrase | passkey
deriving DecidableEq, Repr

/-- What the two keys are derived from. -/
inductive KeyMaterial where
  | pbkdf2 (passphrase : Passphrase) (salt : Salt) (iterations : ℕ)
  | prf (secret : ℕ) (salt : Salt)
deriving DecidableEq, Repr

structure VaultKey where
  material : KeyMaterial
deriving DecidableEq, Repr

structure ContentKey where
  material : KeyMaterial
deriving DecidableEq, Repr

structure UnlockedKeys where
  vaultKey : VaultKey
  contentKey : ContentKey
deriving DecidableEq, Repr

def deriveKeys (material : KeyMaterial) : UnlockedKeys := ⟨⟨material⟩, ⟨material⟩⟩

def PBKDF2_ITERATIONS : ℕ := 600000
def MAX_PBKDF2_ITERATIONS : ℕ := PBKDF2_ITERATIONS * 4

/-- `none` is the throw of `validatePbkdf2Iterations`. -/
def keysFromPassphrase (passphrase : Passphrase) (salt : Salt) (iterations : ℕ) :
    Option UnlockedKeys :=
  if 1 ≤ iterations ∧ iterations ≤ MAX_PBKDF2_ITERATIONS then
    some (deriveKeys (.pbkdf2 passphrase salt iterations))
  else none

def keysFromSecret (secret : ℕ) (salt : Salt) : UnlockedKeys := deriveKeys (.prf secret salt)

/-- What the user brings to an unlock: a passphrase, and an authenticator that
answers the same bytes for the same credential and salt. -/
structure User where
  passphrase : Passphrase
  evaluatePrf : CredentialId → Salt → ℕ

/-- A key made before keys could be exported stays where the browser put it. -/
structure KeyPair where
  id : ℕ
  exportable : Bool
deriving DecidableEq, Repr

structure SerializedKeyPair where
  id : ℕ
deriving DecidableEq, Repr

def serializeKeyPair (pair : KeyPair) : Option SerializedKeyPair :=
  if pair.exportable then some ⟨pair.id⟩ else none

def importKeyPair (pair : SerializedKeyPair) : KeyPair := ⟨pair.id, true⟩

theorem importKeyPair_of_serialize {pair : KeyPair} {stored : SerializedKeyPair}
    (h : serializeKeyPair pair = some stored) : importKeyPair stored = pair := by
  unfold serializeKeyPair at h
  split_ifs at h with he
  obtain rfl := Option.some.inj h
  obtain ⟨id, exportable⟩ := pair
  obtain rfl : exportable = true := he
  rfl

/-- One space's secrets, with the raw bytes of its keys. -/
structure SpaceSecrets where
  spaceId : SpaceId
  session : Session
  keyring : Keyring
  deviceKeyPair : Option SerializedKeyPair
  signingKeyPair : Option SerializedKeyPair
deriving DecidableEq, Repr

/-- A `v1` envelope held one space's secrets, from when a device had only one. -/
inductive StoredVaultSecrets where
  | v1 (session : Session) (keyring : Keyring)
      (deviceKeyPair signingKeyPair : Option SerializedKeyPair)
      (contentKey : ContentKey)
  | v2 (spaces : Table SpaceSecrets.spaceId) (contentKey : ContentKey)

def normalize : StoredVaultSecrets → Table SpaceSecrets.spaceId
  | .v1 session keyring deviceKeyPair signingKeyPair _ =>
      .singleton ⟨LEGACY_SPACE_ID, session, keyring, deviceKeyPair, signingKeyPair⟩
  | .v2 spaces _ => spaces

/-- `VAULT_AAD` and `LEGACY_VAULT_AAD`. -/
inductive VaultContext where
  | current | legacy
deriving DecidableEq, Repr

structure VaultEnvelope where
  method : LockMethod
  salt : Salt
  iterations : ℕ
  credentialId : Option CredentialId
  sealed : Sealed VaultKey AtRestIv VaultContext StoredVaultSecrets

def openVault (key : VaultKey) (envelope : VaultEnvelope) : Option StoredVaultSecrets :=
  (envelope.sealed.openWith key envelope.sealed.iv .current).or
    (envelope.sealed.openWith key envelope.sealed.iv .legacy)

/-- The keys an unlock derives for an envelope; `none` is a throw. -/
def unlockKeys (user : User) (envelope : VaultEnvelope) : Option UnlockedKeys :=
  match envelope.method with
  | .passphrase => keysFromPassphrase user.passphrase envelope.salt envelope.iterations
  | .passkey => envelope.credentialId.map fun credentialId =>
      keysFromSecret (user.evaluatePrf credentialId envelope.salt) envelope.salt

inductive LocalStore where
  | messages | events | directory | files
deriving DecidableEq, Repr

/-- A row of one of a space's object stores. -/
structure RowId where
  space : SpaceId
  store : LocalStore
  key : ℕ
deriving DecidableEq, Repr

/-- What a sealed row is bound to: its store and key. -/
def RowId.context (id : RowId) : LocalStore × ℕ := (id.store, id.key)

/-- A row is in the clear, or sealed under a content key. -/
inductive StoredBody (α : Type) where
  | plain (value : α)
  | sealed (s : Sealed ContentKey AtRestIv (LocalStore × ℕ) α)
deriving DecidableEq, Repr

structure LocalRow (α : Type) where
  id : RowId
  body : StoredBody α
deriving DecidableEq, Repr

variable {α : Type}

def StoredBody.isSealed : StoredBody α → Bool
  | .plain _ => false
  | .sealed _ => true

/-- Encode a value for storage: in the clear without a key. -/
def toStored (key : Option ContentKey) (iv : AtRestIv) (id : RowId) (value : α) : StoredBody α :=
  match key with
  | none => .plain value
  | some key => .sealed ⟨key, iv, id.context, value⟩

/-- Decode a stored row: nothing without the key it takes. The error is the throw of
a decryption that fails. -/
def fromStored (key : Option ContentKey) (id : RowId) : StoredBody α → Except Unit (Option α)
  | .plain value => .ok (some value)
  | .sealed s =>
      match key with
      | none => .ok none
      | some key =>
          match s.openWith key s.iv id.context with
          | some value => .ok (some value)
          | none => .error ()

theorem fromStored_toStored (key : Option ContentKey) (iv : AtRestIv) (id : RowId) (value : α) :
    fromStored key id (toStored key iv id value) = .ok (some value) := by
  cases key with
  | none => rfl
  | some key => simp [toStored, fromStored]

/-- Without a key only a row in the clear is readable. -/
theorem fromStored_none_eq {id : RowId} {body : StoredBody α} {value : α} :
    fromStored none id body = .ok (some value) ↔ body = .plain value := by
  cases body <;> simp [fromStored]

end SendSelf
