import SendSelf.Keys.Keyring
import SendSelf.Library.Batch
import SendSelf.Library.Table
import Mathlib.Data.List.Sort

/-!
# The server's tables of one space

Every statement of the handlers modelled here is scoped to one group, so the
state is the slice of the D1 tables which belongs to that group: its row of
`groups`, its rows of `devices` and `key_distribution`, and the pairing slots.
The device ids registered to other groups are kept as a list, because a joining
device chooses its id before anything ties it to a group.
-/
namespace SendSelf

inductive ApiErrorCode where
  | bad_request | unauthorized | forbidden | device_revoked | not_found | conflict | key_rotated
  | payload_too_large | quota_exceeded | challenge_failed | rate_limited | internal
deriving DecidableEq, Repr

structure ApiError where
  code : ApiErrorCode
  message : String
deriving DecidableEq, Repr

/-- What a database error turns into: an untyped exception is answered 500. -/
def ApiError.internalError : ApiError := ⟨.internal, "Internal server error"⟩

inductive SqlError where
  | uniqueConstraint
deriving DecidableEq, Repr

inductive DeviceRole where
  | owner | admin | member
deriving DecidableEq, Repr

structure Device where
  id : DeviceId
  publicKey : PublicKey
  signingPublicKey : Option SigningKey
  authTokenHash : TokenHash
  role : DeviceRole
  /-- Highest epoch the server believes this device adopted. -/
  keyEpoch : ℕ
  /-- Epoch of the key that encrypts the name: the one the device was added at. -/
  nameKeyEpoch : ℕ
  sendOnly : Bool
  revokedAt : Option ℕ
deriving DecidableEq, Repr

/-- `revoked_at IS NULL`. -/
def Device.active (d : Device) : Bool := d.revokedAt.isNone

/-- A device stays itself when its epoch moves on. -/
theorem Device.id_adopted (epoch : ℕ) (d : Device) :
    Device.id { d with keyEpoch := epoch } = d.id := rfl

/-- A row of `key_distribution`. -/
structure KeyRow where
  epoch : ℕ
  deviceId : DeviceId
  wrappedKey : WrappedKey
deriving DecidableEq, Repr

def KeyRow.primaryKey (r : KeyRow) : ℕ × DeviceId := (r.epoch, r.deviceId)

/-- What a slot remembers about the joining device (`pairing.new_device`). -/
structure SlotDevice where
  id : DeviceId
  publicKey : PublicKey
  signingPublicKey : Option SigningKey
  sendOnly : Bool
deriving DecidableEq, Repr

structure PairingSlot where
  pairingId : PairingId
  newDevice : SlotDevice
  wrappedPackage : Option WrappedPackage
deriving DecidableEq, Repr

structure SpaceDb where
  groupId : GroupId
  keyEpoch : ℕ
  rotationPending : Bool
  devices : Table Device.id
  keyDistribution : Table KeyRow.primaryKey
  pairing : Table PairingSlot.pairingId
  /-- Device ids registered to another group. -/
  elsewhere : List DeviceId

/-- An active device with this id: `SELECT 1 FROM devices WHERE id = ? AND
group_id = ? AND revoked_at IS NULL`. -/
def SpaceDb.isActive (db : SpaceDb) (id : DeviceId) : Bool :=
  db.devices.exist fun d => decide (d.id = id) && d.active

@[simp] theorem SpaceDb.isActive_iff {db : SpaceDb} {id : DeviceId} :
    db.isActive id = true ↔ ∃ d ∈ db.devices, d.id = id ∧ d.active = true := by
  simp [isActive]

/-- The devices a rotation must reach. -/
def activeDevices (db : SpaceDb) : List Device := db.devices.select Device.active

@[simp] theorem mem_activeDevices {db : SpaceDb} {d : Device} :
    d ∈ activeDevices db ↔ d ∈ db.devices ∧ d.active = true := Table.mem_select

/-- The keys this device has not adopted yet, oldest first. -/
def pendingKeysFor (db : SpaceDb) (deviceId : DeviceId) : List PendingKeyDelivery :=
  ((db.keyDistribution.select fun r => decide (r.deviceId = deviceId)).map
    fun r => ⟨r.epoch, r.wrappedKey⟩).insertionSort fun a b => a.epoch ≤ b.epoch

theorem mem_pendingKeysFor {db : SpaceDb} {i : DeviceId} {d : PendingKeyDelivery} :
    d ∈ pendingKeysFor db i ↔ ⟨d.epoch, i, d.wrappedKey⟩ ∈ db.keyDistribution := by
  simp only [pendingKeysFor, List.mem_insertionSort, List.mem_map, Table.mem_select,
    decide_eq_true_eq]
  constructor
  · rintro ⟨r, ⟨hr, hi⟩, hd⟩
    subst hi hd
    exact hr
  · exact fun h => ⟨_, ⟨h, rfl⟩, rfl⟩

structure AuthContext where
  deviceId : DeviceId
  role : DeviceRole
  keyEpoch : ℕ
  groupKeyEpoch : ℕ
  rotationPending : Bool
  hasSigningKey : Bool
deriving DecidableEq, Repr

/-- One row of `devices` joined with its group, looked up by the token's hash. -/
def authenticate (db : SpaceDb) (token : Token) : Except ApiError AuthContext :=
  match db.devices.first fun d => decide (d.authTokenHash = sha256Hex token) with
  | none => .error ⟨.unauthorized, "Invalid token"⟩
  | some d =>
      if d.active then
        .ok { deviceId := d.id, role := d.role, keyEpoch := d.keyEpoch,
              groupKeyEpoch := db.keyEpoch, rotationPending := db.rotationPending,
              hasSigningKey := d.signingPublicKey.isSome }
      else .error ⟨.device_revoked, "This device has been revoked. Link it again to reconnect."⟩

theorem authenticate_eq_ok {db : SpaceDb} {t : Token} {a : AuthContext}
    (h : authenticate db t = .ok a) :
    ∃ d ∈ db.devices, d.authTokenHash = sha256Hex t ∧ d.active = true ∧ a.deviceId = d.id ∧
      a.role = d.role ∧ a.keyEpoch = d.keyEpoch ∧ a.groupKeyEpoch = db.keyEpoch ∧
      a.rotationPending = db.rotationPending := by
  unfold authenticate at h
  split at h
  · cases h
  · next d hd =>
    obtain ⟨hm, hp⟩ := Table.first_some hd
    split_ifs at h with hact
    obtain rfl := Except.ok.inj h
    exact ⟨d, hm, of_decide_eq_true hp, hact, rfl, rfl, rfl, rfl, rfl⟩

def requireAdmin (auth : AuthContext) : Except ApiError Unit :=
  if auth.role ≠ .owner ∧ auth.role ≠ .admin then
    .error ⟨.forbidden, "Only space administrators can do that"⟩
  else .ok ()

def requireOwner (auth : AuthContext) : Except ApiError Unit :=
  if auth.role ≠ .owner then .error ⟨.forbidden, "Only the space owner can do that"⟩ else .ok ()

end SendSelf
