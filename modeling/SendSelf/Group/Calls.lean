import SendSelf.Files.FileServer
import SendSelf.Vault.Batches

/-!
# Founding a group, changing roles, naming the space

The handlers that write a group's rows beside those of the key protocol, one stage for
each await. A call of the vault's handlers authenticates first, as every handler does,
so a call keeps the caller that its first SELECT found.
-/
namespace SendSelf

/-- What the check of a Turnstile token came to. -/
inductive Challenge where
  | passed | missing | unreachable | failed
deriving DecidableEq, Repr

/-- What a step gets from outside the tables. -/
structure GroupMoment where
  now : ℕ
  limited : Bool
  challenge : Challenge
deriving DecidableEq, Repr

/-- The columns of `groups` that hold the space's name. -/
structure SpaceNameRecord where
  encryptedName : Option Opaque
  nameIv : Option Opaque
  nameKeyEpoch : Option ℕ
  updatedAt : Option ℕ
deriving DecidableEq, Repr

/-- The tables that the calls write. `groups` are the other groups' ids. -/
structure GroupDb where
  space : SpaceDb
  vault : VaultDb
  name : SpaceNameRecord
  groups : List GroupId

structure CreateGroupRequest where
  groupId : GroupId
  deviceAuthTokenHash : TokenHash
  deviceId : DeviceId
  publicKey : PublicKey
  signingPublicKey : Option SigningKey
deriving DecidableEq, Repr

inductive CreateGroupStage where
  | received
  | checking
  | inserting
  | answered (a : Except ApiError Unit)
deriving Repr

namespace createGroup

def verifySpaceChallenge : Challenge → Except ApiError Unit
  | .passed => .ok ()
  | .missing => .error ⟨.challenge_failed, "Complete the verification to create a space"⟩
  | .unreachable => .error ⟨.internal, "Could not verify the challenge, try again"⟩
  | .failed => .error ⟨.challenge_failed, "Verification failed, please try again"⟩

def groupExists (groupId : GroupId) (db : GroupDb) : Bool :=
  decide (groupId = db.space.groupId) || decide (groupId ∈ db.groups)

/-- The batch raises on a group, a device or a token that is there already. -/
def refused (req : CreateGroupRequest) (db : GroupDb) : Bool :=
  groupExists req.groupId db || decide (req.deviceId ∈ db.space.elsewhere) ||
    db.space.devices.exist fun d =>
      decide (d.id = req.deviceId) || decide (d.authTokenHash = req.deviceAuthTokenHash)

/-- The batch makes another group, with its owner. -/
def inserted (req : CreateGroupRequest) (db : GroupDb) : GroupDb :=
  { db with
    space := { db.space with elsewhere := req.deviceId :: db.space.elsewhere }
    groups := req.groupId :: db.groups }

def next (m : GroupMoment) (req : CreateGroupRequest) (db : GroupDb) :
    CreateGroupStage → GroupDb × CreateGroupStage
  | .received => (db, orAnswer (.answered <| .error ·) do
      rateLimit m.limited
      verifySpaceChallenge m.challenge
      return .checking)
  | .checking =>
      (db, if groupExists req.groupId db then .answered (.error ⟨.conflict, "Group already exists"⟩)
      else .inserting)
  | .inserting =>
      if refused req db then (db, .answered (.error .internalError)) else (inserted req db,
        .answered (.ok ()))
  | .answered a => (db, .answered a)

theorem free_of_not_refused {req : CreateGroupRequest} {db : GroupDb} (h : refused req db = false) :
    req.deviceId ∉ db.space.elsewhere ∧
      ∀ d ∈ db.space.devices, d.id ≠ req.deviceId ∧ d.authTokenHash ≠ req.deviceAuthTokenHash := by
  simp only [refused, Bool.or_eq_false_iff, decide_eq_false_iff_not] at h
  have hnone := h.2
  rw [Bool.eq_false_iff, ne_eq, Table.exist_iff] at hnone
  refine ⟨h.1.2,
    fun d hd =>
      ⟨fun hid => hnone ⟨d, hd, by simp [hid]⟩, fun htoken => hnone ⟨d, hd, by simp [htoken]⟩⟩⟩

end createGroup

inductive AssignableDeviceRole where
  | admin | member
deriving DecidableEq, Repr

def AssignableDeviceRole.role : AssignableDeviceRole → DeviceRole
  | .admin => .admin
  | .member => .member

inductive RoleStage where
  | received
  | authed (auth : AuthContext) (role : AssignableDeviceRole)
  | writing (auth : AuthContext) (role : AssignableDeviceRole)
  | answered (a : Except ApiError Unit)
deriving Repr

namespace updateDeviceRole

def checkSelf (auth : AuthContext) (deviceId : DeviceId) : Except ApiError Unit :=
  if deviceId = auth.deviceId then
    .error ⟨.bad_request, "Transfer ownership before changing your own role"⟩
  else .ok ()

/-- `none` is a body whose role is no role. -/
def checkRole : Option DeviceRole → Except ApiError AssignableDeviceRole
  | some .admin => .ok .admin
  | some .member => .ok .member
  | _ => .error ⟨.bad_request, "Role must be admin or member"⟩

/-- `id = ? AND group_id = ? AND revoked_at IS NULL AND role != 'owner'`. -/
def assignable (deviceId : DeviceId) (d : Device) : Bool :=
  decide (d.id = deviceId) && d.active && decide (d.role ≠ .owner)

def notFound : ApiError := ⟨.not_found, "Active device not found"⟩

def checkTarget (role : AssignableDeviceRole) : Option Device → Except ApiError Unit
  | none => .error notFound
  | some target =>
      if role = .admin ∧ target.sendOnly = true then
        .error ⟨.bad_request, "A send-only device cannot be an administrator"⟩
      else .ok ()

/-- The UPDATE. -/
def run (deviceId : DeviceId) (role : AssignableDeviceRole) (db : SpaceDb) : SpaceDb :=
  let devices :=
    db.devices.update (assignable deviceId) (fun d => { d with role := role.role }) (fun _ => rfl)
  { db with devices }

def next (token : Token) (deviceId : DeviceId) (role : Option DeviceRole) (db : SpaceDb) :
    RoleStage → SpaceDb × RoleStage
  | .received => (db, orAnswer (.answered <| .error ·) do
      let auth ← authenticate db token
      requireOwner auth
      checkSelf auth deviceId
      return .authed auth (← checkRole role))
  | .authed auth role => (db, orAnswer (.answered <| .error ·) do
      checkTarget role (db.devices.first (assignable deviceId))
      return .writing auth role)
  | .writing _ role =>
      (run deviceId role db,
        .answered (if db.devices.exist (assignable deviceId) then .ok () else .error notFound))
  | .answered a => (db, .answered a)

theorem mem_run {deviceId : DeviceId} {role : AssignableDeviceRole} {db : SpaceDb} {d : Device} :
    d ∈ (run deviceId role db).devices ↔
      ∃ c ∈ db.devices, d = if assignable deviceId c then { c with role := role.role } else c := by
  rw [run, Table.mem_update]

theorem isActive_run {deviceId i : DeviceId} {role : AssignableDeviceRole} {db : SpaceDb} :
    (run deviceId role db).isActive i = db.isActive i := by
  refine Table.exist_update ?_ fun _ => rfl
  exact fun _ => rfl

end updateDeviceRole

structure UpdateSpaceNameRequest where
  encryptedName : Option Opaque
  nameIv : Option Opaque
  nameKeyEpoch : ℕ
deriving DecidableEq, Repr

inductive NameStage where
  | received
  | ready (auth : AuthContext) (updatedAt : ℕ)
  | answered (updatedAt : Except ApiError ℕ)
deriving Repr

namespace updateSpaceName

def checkBody (auth : AuthContext) (req : UpdateSpaceNameRequest) : Except ApiError Unit :=
  if req.nameKeyEpoch < 1 then
    .error ⟨.bad_request, "Missing or invalid integer field: nameKeyEpoch"⟩
  else if req.encryptedName.isSome ≠ req.nameIv.isSome then
    .error ⟨.bad_request, "encryptedName and nameIv go together"⟩
  else if req.nameKeyEpoch ≠ auth.groupKeyEpoch then
    .error ⟨.key_rotated, "The space key has rotated; encrypt the name with the new key"⟩
  else .ok ()

def record (req : UpdateSpaceNameRequest) (updatedAt : ℕ) : SpaceNameRecord :=
  ⟨req.encryptedName, req.nameIv, some req.nameKeyEpoch, some updatedAt⟩

def next (m : GroupMoment) (token : Token) (req : UpdateSpaceNameRequest) (db : SpaceDb)
    (name : SpaceNameRecord) :
    NameStage → SpaceNameRecord × NameStage
  | .received => (name, orAnswer (.answered <| .error ·) do
      let auth ← authenticate db token
      rateLimit m.limited
      checkBody auth req
      return .ready auth m.now)
  | .ready _ updatedAt => (record req updatedAt, .answered (.ok updatedAt))
  | .answered a => (name, .answered a)

end updateSpaceName

/-- A handler has not yet reached the database. -/
def VaultJob.isReceived : VaultJob → Bool
  | .create _ .received | .update _ _ .received | .reseal _ .received | .delete _ .received => true
  | _ => false

/-- A call whose caller is turned away. -/
def VaultJob.refuse (e : ApiError) : VaultJob → VaultJob
  | .create req _ => .create req (.answered (.error e))
  | .update id req _ => .update id req (.answered (.error e))
  | .reseal req _ => .reseal req (.answered (.error e))
  | .delete id _ => .delete id (.answered (.error e))
  | .cleanUp stage => .cleanUp stage

inductive GroupCall where
  | createGroup (req : CreateGroupRequest) (stage : CreateGroupStage)
  | role (token : Token) (deviceId : DeviceId) (body : Option DeviceRole) (stage : RoleStage)
  | name (token : Token) (req : UpdateSpaceNameRequest) (stage : NameStage)
  /-- `auth` is what authenticating found, once it has. -/
  | vault (token : Token) (started : ℕ) (auth : Option AuthContext) (job : VaultJob)
  | cleanUp (started : ℕ) (stage : CleanUpStage)

namespace GroupCall

/-- A call that has just come in. -/
def isNew : GroupCall → Bool
  | .createGroup _ .received | .role _ _ _ .received | .name _ _ .received |
    .cleanUp _ .selecting => true
  | .vault _ _ none job => job.isReceived
  | _ => false

/-- The caller that a call has found, while it is on its way. -/
def auth : GroupCall → Option AuthContext
  | .role _ _ _ (.authed auth _) | .role _ _ _ (.writing auth _) |
    .name _ _ (.ready auth _) => some auth
  | .vault _ _ auth _ => auth
  | _ => none

/-- What a handler of the vault gets from outside it. -/
def moment (m : GroupMoment) (groupKeyEpoch : ℕ) : VaultMoment := ⟨groupKeyEpoch, m.now, m.limited⟩

/-- The first step of a call to the vault, and the others. -/
def nextVault (m : GroupMoment) (rows : List ItemId) (db : GroupDb) (token : Token) (started : ℕ)
    (auth : Option AuthContext) (job : VaultJob) :
    Option (VaultDb × Option AuthContext × VaultJob) :=
  match auth with
  | none =>
      if job.isReceived then
        match authenticate db.space token with
        | .error e => some (db.vault, none, job.refuse e)
        | .ok auth => (job.next started (moment m auth.groupKeyEpoch) rows db.vault).map fun r =>
            (r.1, some auth, r.2)
      else some (db.vault, none, job)
  | some auth => (job.next started (moment m auth.groupKeyEpoch) rows db.vault).map fun r =>
      (r.1, some auth, r.2)

/-- Run a call from one await to the next. -/
def next (m : GroupMoment) (rows : List ItemId) (db : GroupDb) :
    GroupCall → Option (GroupDb × GroupCall)
  | .createGroup req stage =>
      let r := SendSelf.createGroup.next m req db stage
      some (r.1, .createGroup req r.2)
  | .role token deviceId body stage =>
      let r := updateDeviceRole.next token deviceId body db.space stage
      some ({ db with space := r.1 }, .role token deviceId body r.2)
  | .name token req stage =>
      let r := updateSpaceName.next m token req db.space db.name stage
      some ({ db with name := r.1 }, .name token req r.2)
  | .vault token started auth job =>
      (nextVault m rows db token started auth job).map fun r =>
        ({ db with vault := r.1 }, .vault token started r.2.1 r.2.2)
  | .cleanUp started stage =>
      (cleanUpVault.next started (moment m 0) rows db.vault stage).map fun r =>
        ({ db with vault := r.1 }, .cleanUp started r.2)

theorem auth_of_isNew {call : GroupCall} (h : call.isNew = true) : call.auth = none := by
  unfold isNew at h
  split at h
  · rfl
  · rfl
  · rfl
  · rfl
  · rfl
  · cases h

theorem next_role {m : GroupMoment} {rows : List ItemId} {db db' : GroupDb} {call : GroupCall}
    {token : Token} {deviceId : DeviceId} {body : Option DeviceRole} {stage : RoleStage}
    (h : call.next m rows db = some (db', .role token deviceId body stage)) :
    ∃ stage₀, call = .role token deviceId body stage₀ ∧
      stage = (updateDeviceRole.next token deviceId body db.space stage₀).2 := by
  cases call with
  | role token' deviceId' body' stage₀ =>
    obtain ⟨_, heq⟩ := Prod.mk.inj (Option.some.inj h)
    obtain ⟨rfl, rfl, rfl, rfl⟩ := GroupCall.role.inj heq
    exact ⟨stage₀, rfl, rfl⟩
  | createGroup req stage₀ => cases (Prod.mk.inj (Option.some.inj h)).2
  | name token' req stage₀ => cases (Prod.mk.inj (Option.some.inj h)).2
  | vault token' started auth job =>
    obtain ⟨_, _, heq⟩ := Option.map_eq_some_iff.mp h
    cases (Prod.mk.inj heq).2
  | cleanUp started stage₀ =>
    obtain ⟨_, _, heq⟩ := Option.map_eq_some_iff.mp h
    cases (Prod.mk.inj heq).2

theorem next_name {m : GroupMoment} {rows : List ItemId} {db db' : GroupDb} {call : GroupCall}
    {token : Token} {req : UpdateSpaceNameRequest} {stage : NameStage}
    (h : call.next m rows db = some (db', .name token req stage)) :
    ∃ stage₀, call = .name token req stage₀ ∧
      stage = (updateSpaceName.next m token req db.space db.name stage₀).2 := by
  cases call with
  | name token' req' stage₀ =>
    obtain ⟨_, heq⟩ := Prod.mk.inj (Option.some.inj h)
    obtain ⟨rfl, rfl, rfl⟩ := GroupCall.name.inj heq
    exact ⟨stage₀, rfl, rfl⟩
  | createGroup req' stage₀ => cases (Prod.mk.inj (Option.some.inj h)).2
  | role token' deviceId body stage₀ => cases (Prod.mk.inj (Option.some.inj h)).2
  | vault token' started auth job =>
    obtain ⟨_, _, heq⟩ := Option.map_eq_some_iff.mp h
    cases (Prod.mk.inj heq).2
  | cleanUp started stage₀ =>
    obtain ⟨_, _, heq⟩ := Option.map_eq_some_iff.mp h
    cases (Prod.mk.inj heq).2

/-- A call of the vault that has authenticated is what a step of its handler has made of it. -/
theorem next_vaultJob {m : GroupMoment} {rows : List ItemId} {db db' : GroupDb} {call : GroupCall}
    {token : Token} {started : ℕ} {auth : AuthContext} {job : VaultJob}
    (h : call.next m rows db = some (db', .vault token started (some auth) job)) :
    ∃ auth₀ job₀ vault, call = .vault token started auth₀ job₀ ∧
      (auth₀ = some auth ∨
        (auth₀ = none ∧ job₀.isReceived = true ∧ authenticate db.space token = .ok auth)) ∧
      job₀.next started (moment m auth.groupKeyEpoch) rows db.vault = some (vault, job) := by
  cases call with
  | vault token' started' auth₀ job₀ =>
    obtain ⟨r, hr, heq⟩ := Option.map_eq_some_iff.mp h
    obtain ⟨_, heq⟩ := Prod.mk.inj heq
    obtain ⟨rfl, rfl, hauth, rfl⟩ := GroupCall.vault.inj heq
    cases auth₀ with
    | some auth' =>
      obtain ⟨q, hq, rfl⟩ := Option.map_eq_some_iff.mp hr
      obtain rfl := Option.some.inj hauth
      exact ⟨_, job₀, q.1, rfl, Or.inl rfl, hq⟩
    | none =>
      simp only [nextVault] at hr
      split_ifs at hr with hnew
      · cases ha : authenticate db.space token' with
        | error e =>
          rw [ha] at hr
          obtain rfl := Option.some.inj hr
          cases hauth
        | ok auth' =>
          rw [ha] at hr
          obtain ⟨q, hq, rfl⟩ := Option.map_eq_some_iff.mp hr
          obtain rfl := Option.some.inj hauth
          exact ⟨_, job₀, q.1, rfl, Or.inr ⟨rfl, hnew, rfl⟩, hq⟩
      · obtain rfl := Option.some.inj hr
        cases hauth
  | createGroup req' stage₀ => cases (Prod.mk.inj (Option.some.inj h)).2
  | role token' deviceId body stage₀ => cases (Prod.mk.inj (Option.some.inj h)).2
  | name token' req stage₀ => cases (Prod.mk.inj (Option.some.inj h)).2
  | cleanUp started stage₀ =>
    obtain ⟨_, _, heq⟩ := Option.map_eq_some_iff.mp h
    cases (Prod.mk.inj heq).2

/-- The batch of the vault that a call commits at its next await. -/
def vaultBatch (m : GroupMoment) : GroupCall → Option VaultBatch
  | .vault _ started (some auth) job => job.batch started (moment m auth.groupKeyEpoch)
  | .cleanUp started stage => (VaultJob.cleanUp stage).batch started (moment m 0)
  | _ => none

theorem next_vault {m : GroupMoment} {rows : List ItemId} {db : GroupDb} {call : GroupCall}
    {after : GroupDb × GroupCall} (h : call.next m rows db = some after) :
    after.1.vault = VaultBatch.commit? (call.vaultBatch m) db.vault := by
  cases call with
  | createGroup req stage =>
    obtain rfl := Option.some.inj h
    cases stage with
    | inserting =>
      simp only [SendSelf.createGroup.next]
      split_ifs <;> rfl
    | _ => rfl
  | role token deviceId body stage =>
    obtain rfl := Option.some.inj h
    rfl
  | name token req stage =>
    obtain rfl := Option.some.inj h
    rfl
  | vault token started auth job =>
    obtain ⟨next, hnext, rfl⟩ := Option.map_eq_some_iff.mp h
    cases auth with
    | some auth =>
      obtain ⟨r, hr, rfl⟩ := Option.map_eq_some_iff.mp hnext
      exact VaultJob.next_batch hr
    | none =>
      simp only [nextVault] at hnext
      split_ifs at hnext with hnew
      · split at hnext
        · obtain rfl := Option.some.inj hnext
          rfl
        · obtain ⟨r, hr, rfl⟩ := Option.map_eq_some_iff.mp hnext
          have hbatch := VaultJob.next_batch hr
          unfold VaultJob.isReceived at hnew
          split at hnew
          · exact hbatch
          · exact hbatch
          · exact hbatch
          · exact hbatch
          · cases hnew
      · obtain rfl := Option.some.inj hnext
        rfl
  | cleanUp started stage =>
    obtain ⟨r, hr, rfl⟩ := Option.map_eq_some_iff.mp h
    have hjob : (VaultJob.cleanUp stage).next started (moment m 0) rows db.vault =
        some (r.1, .cleanUp r.2) := by
      simp only [VaultJob.next, hr, Option.map_some]
    exact VaultJob.next_batch hjob

end GroupCall
end SendSelf
