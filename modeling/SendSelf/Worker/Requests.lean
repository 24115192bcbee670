import SendSelf.Library.Runs
import SendSelf.Worker.Membership

/-!
# Requests in flight

A handler gives up control at every await, and the statements of other requests
commit in between. A request in flight therefore has a stage, which is what its
handler has computed so far, and `advance` runs the handler from one await to
the next. All of a request's writes are in its last stage: a request that has not
been answered has changed nothing.
-/
namespace SendSelf

/-- What a listing says of an active device. -/
structure DeviceInfo where
  id : DeviceId
  role : DeviceRole
  publicKey : PublicKey
  signingPublicKey : Option SigningKey
  keyEpoch : ℕ
  nameKeyEpoch : ℕ
  sendOnly : Bool
deriving DecidableEq, Repr

def Device.info (d : Device) : DeviceInfo where
  id := d.id
  role := d.role
  publicKey := d.publicKey
  signingPublicKey := d.signingPublicKey
  keyEpoch := d.keyEpoch
  nameKeyEpoch := d.nameKeyEpoch
  sendOnly := d.sendOnly

structure DevicesListResponse where
  devices : List DeviceInfo
  currentRole : DeviceRole
  keyEpoch : ℕ
  rotationPending : Bool
deriving DecidableEq, Repr

structure PendingMessagesResponse where
  keys : List PendingKeyDelivery
  keyEpoch : ℕ
  rotationPending : Bool
deriving DecidableEq, Repr

inductive Answer where
  | pending (r : PendingMessagesResponse)
  | listing (r : DevicesListResponse)
  | rotated (r : RotateKeyResponse)
  | ok
  | error (e : ApiError)
deriving DecidableEq, Repr

/-- How far a handler has come: the last value it computed before an await. -/
inductive Stage where
  | received
  | authed (auth : AuthContext)
  | slotRead (auth : AuthContext) (device : SlotDevice)
  | ready (auth : AuthContext)
  | readyToPair (device : SlotDevice)
  | answered (a : Answer)
deriving DecidableEq, Repr

inductive ApiRequest where
  | pendingMessages
  | listDevices
  | rotateKey (body : RotateKeyRequest)
  | ackKey (epoch : ℕ)
  | revokeDevice (deviceId : DeviceId)
  | completePairing (pairingId : PairingId) (body : PairingCompleteBody)
deriving DecidableEq, Repr

/-- A check that throws ends the request with its error. -/
def Stage.ofCheck : Except ApiError Stage → Stage
  | .ok stage => stage
  | .error e => .answered (.error e)

/-- The limiter is outside the worker, so its verdict is an input. -/
def rateLimit (limited : Bool) : Except ApiError Unit :=
  if limited then .error ⟨.rate_limited, "Too many requests, slow down"⟩ else .ok ()

def pendingMessages.next (token : Token) (db : SpaceDb) : Stage → Stage
  | .received => .ofCheck ((authenticate db token).map .authed)
  | .authed auth => .answered (.pending ⟨pendingKeysFor db auth.deviceId, auth.groupKeyEpoch,
      auth.rotationPending⟩)
  | stage => stage

def listDevices.next (token : Token) (db : SpaceDb) : Stage → Stage
  | .received => .ofCheck ((authenticate db token).map .authed)
  | .authed auth => .answered (.listing ⟨(activeDevices db).map Device.info, auth.role,
      auth.groupKeyEpoch, auth.rotationPending⟩)
  | stage => stage

def rotateKey.next (limited : Bool) (token : Token) (body : RotateKeyRequest) (db : SpaceDb) :
    Stage → SpaceDb × Stage
  | .received => (db, .ofCheck do
      let auth ← authenticate db token
      rateLimit limited
      rotateKey.checkRequest auth body
      return .authed auth)
  | .authed auth => (db, .ofCheck do
      rotateKey.checkRecipients auth body (activeDevices db)
      return .ready auth)
  | .ready auth =>
      match rotateKey.finish auth body db with
      | (db', .ok r) => (db', .answered (.rotated r))
      | (db', .error e) => (db', .answered (.error e))
  | stage => (db, stage)

def ackKey.next (token : Token) (epoch : ℕ) (db : SpaceDb) : Stage → SpaceDb × Stage
  | .received => (db, .ofCheck do
      let auth ← authenticate db token
      ackKey.checkEpoch auth epoch
      return .ready auth)
  | .ready auth => (ackKey.run auth.deviceId epoch db, .answered .ok)
  | stage => (db, stage)

def revokeDevice.next (now : ℕ) (token : Token) (deviceId : DeviceId) (db : SpaceDb) :
    Stage → SpaceDb × Stage
  | .received => (db, .ofCheck do
      let auth ← authenticate db token
      requireAdmin auth
      revokeDevice.checkSelf auth deviceId
      return .authed auth)
  | .authed auth => (db, .ofCheck do
      revokeDevice.checkTarget auth (revokeDevice.target db deviceId)
      return .ready auth)
  | .ready _ => (revokeDevice.run deviceId now db, .answered .ok)
  | stage => (db, stage)

def completePairing.next (token : Token) (pairingId : PairingId) (body : PairingCompleteBody)
    (db : SpaceDb) : Stage → SpaceDb × Stage
  | .received => (db, .ofCheck do
      let auth ← authenticate db token
      requireAdmin auth
      completePairing.checkEpoch auth body
      return .authed auth)
  | .authed auth => (db, .ofCheck do
      let device ← completePairing.checkSlot body (db.pairing.get? pairingId)
      return .slotRead auth device)
  | .slotRead _ device => (db, .ofCheck do
      completePairing.checkGroup db device
      return .readyToPair device)
  | .readyToPair device =>
      match completePairing.finish pairingId device body db with
      | (db', .ok ()) => (db', .answered .ok)
      | (db', .error e) => (db', .answered (.error e))
  | stage => (db, stage)

/-- Run a handler from one await to the next. -/
def ApiRequest.advance (now : ℕ) (limited : Bool) (token : Token) (request : ApiRequest)
    (db : SpaceDb) (stage : Stage) : SpaceDb × Stage :=
  match request with
  | .pendingMessages => (db, pendingMessages.next token db stage)
  | .listDevices => (db, listDevices.next token db stage)
  | .rotateKey body => rotateKey.next limited token body db stage
  | .ackKey epoch => ackKey.next token epoch db stage
  | .revokeDevice deviceId => revokeDevice.next now token deviceId db stage
  | .completePairing pairingId body => completePairing.next token pairingId body db stage

theorem Stage.ofCheck_cases {P : Stage → Prop} {c : Except ApiError Stage}
    (herr : ∀ e, P (.answered (.error e))) (hok : ∀ stage, c = .ok stage → P stage) :
    P (.ofCheck c) := by
  cases c with
  | error e => exact herr e
  | ok stage => exact hok stage rfl

def Stage.isAnswered : Stage → Bool
  | .answered _ => true
  | _ => false

theorem Stage.answered_of_isAnswered {stage : Stage} (h : stage.isAnswered = true) :
    ∃ a, stage = .answered a := by
  cases stage with
  | answered a => exact ⟨a, rfl⟩
  | _ => cases h

/-- A request writes nothing before its last step. -/
theorem ApiRequest.advance_db {now : ℕ} {limited : Bool} {token : Token} {request : ApiRequest}
    {db : SpaceDb} {stage : Stage}
    (h : (request.advance now limited token db stage).2.isAnswered = false) :
    (request.advance now limited token db stage).1 = db := by
  cases request with
  | pendingMessages => rfl
  | listDevices => rfl
  | rotateKey body =>
    cases stage with
    | ready auth =>
      simp only [advance, rotateKey.next] at h ⊢
      split at h <;> cases h
    | _ => rfl
  | ackKey epoch =>
    cases stage with
    | ready auth => cases h
    | _ => rfl
  | revokeDevice deviceId =>
    cases stage with
    | ready auth => cases h
    | _ => rfl
  | completePairing pairingId body =>
    cases stage with
    | readyToPair device =>
      simp only [advance, completePairing.next] at h ⊢
      split at h <;> cases h
    | _ => rfl

/-- An answered request does nothing any more. -/
theorem ApiRequest.advance_answered (now : ℕ) (limited : Bool) (token : Token)
    (request : ApiRequest) (db : SpaceDb) (a : Answer) :
    request.advance now limited token db (.answered a) = (db, .answered a) := by
  cases request <;> rfl

abbrev RequestId := ℕ

structure Flight where
  token : Token
  request : ApiRequest
  stage : Stage
deriving DecidableEq, Repr

structure Server where
  db : SpaceDb
  flights : RequestId → Option Flight

/-- Requests of the group's devices, and the two anonymous ones that make and
drop a pairing slot (`requestPairing`, `deletePairing` and its cron job). -/
inductive ServerEvent where
  | receive (r : RequestId) (token : Token) (request : ApiRequest)
  | advance (r : RequestId) (now : ℕ) (limited : Bool)
  | reserve (pairingId : PairingId) (device : SlotDevice)
  | release (pairingId : PairingId)
deriving DecidableEq, Repr

/-- The request an event belongs to. -/
def ServerEvent.requestId : ServerEvent → Option RequestId
  | .receive r _ _ => some r
  | .advance r _ _ => some r
  | _ => none

namespace Server

def receive (s : Server) (r : RequestId) (token : Token) (request : ApiRequest) : Option Server :=
  match s.flights r with
  | none =>
      some { s with flights := Function.update s.flights r (some ⟨token, request, .received⟩) }
  | some _ => none

def advance (s : Server) (r : RequestId) (now : ℕ) (limited : Bool) : Option Server :=
  (s.flights r).map fun f =>
    let next := f.request.advance now limited f.token s.db f.stage
    { db := next.1, flights := Function.update s.flights r (some { f with stage := next.2 }) }

def reserve (s : Server) (pairingId : PairingId) (device : SlotDevice) : Server :=
  let pairing := s.db.pairing.upsert ⟨pairingId, device, none⟩ (fun _ => false) id (fun _ => rfl)
  { s with db := { s.db with pairing } }

def release (s : Server) (pairingId : PairingId) : Server :=
  let pairing := s.db.pairing.delete fun p => decide (p.pairingId = pairingId)
  { s with db := { s.db with pairing } }

def step (s : Server) : ServerEvent → Option Server
  | .receive r token request => s.receive r token request
  | .advance r now limited => s.advance r now limited
  | .reserve pairingId device => some (s.reserve pairingId device)
  | .release pairingId => some (s.release pairingId)

end Server

/-- The group as `createGroup` leaves it: one owner, at the initial epoch. -/
def SpaceDb.founded (groupId : GroupId) (founder : SlotDevice) (token : Token)
    (elsewhere : List DeviceId) : SpaceDb where
  groupId := groupId
  keyEpoch := INITIAL_KEY_EPOCH
  rotationPending := false
  devices := .singleton
    { id := founder.id, publicKey := founder.publicKey,
      signingPublicKey := founder.signingPublicKey,
      authTokenHash := sha256Hex token, role := .owner, keyEpoch := INITIAL_KEY_EPOCH,
      nameKeyEpoch := INITIAL_KEY_EPOCH, sendOnly := false, revokedAt := none }
  keyDistribution := .empty
  pairing := .empty
  elsewhere := elsewhere

def Server.founded (groupId : GroupId) (founder : SlotDevice) (token : Token)
    (elsewhere : List DeviceId) : Server :=
  ⟨.founded groupId founder token elsewhere, fun _ => none⟩

end SendSelf
