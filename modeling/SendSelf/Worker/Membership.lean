import SendSelf.Worker.Rotation

/-!
# Adopting keys, revoking devices and completing pairings

The remaining requests which touch the devices of a space or the keys waiting
for them. Each handler is split where it awaits the database: the checks on what
was read are functions of what was read, and its writes are one batch.
-/
namespace SendSelf

namespace ackKey

def checkEpoch (auth : AuthContext) (epoch : ℕ) : Except ApiError Unit :=
  if epoch < 1 then .error ⟨.bad_request, "Invalid epoch"⟩
  else if auth.groupKeyEpoch < epoch then .error ⟨.bad_request, "Unknown epoch"⟩
  else .ok ()

/-- The device's epoch moves forward and every key up to the acked one is dropped. -/
def run (deviceId : DeviceId) (epoch : ℕ) (db : SpaceDb) : SpaceDb :=
  let devices := db.devices.update
    (fun d => decide (d.id = deviceId) && decide (d.keyEpoch < epoch))
    (fun d => { d with keyEpoch := epoch }) (Device.id_adopted epoch)
  let keyDistribution := db.keyDistribution.delete
    fun r => decide (r.deviceId = deviceId) && decide (r.epoch ≤ epoch)
  { db with devices, keyDistribution }

theorem mem_run_keyDistribution {i : DeviceId} {e : ℕ} {db : SpaceDb} {r : KeyRow} :
    r ∈ (run i e db).keyDistribution ↔ r ∈ db.keyDistribution ∧ (r.deviceId = i → e < r.epoch) := by
  simp only [run, Table.mem_delete, Bool.and_eq_false_iff, decide_eq_false_iff_not]
  refine and_congr_right fun _ => ⟨fun h hi => ?_, fun h => ?_⟩
  · rcases h with h | h
    · exact absurd hi h
    · omega
  · by_cases hi : r.deviceId = i
    · have := h hi
      omega
    · exact Or.inl hi

theorem mem_run {i : DeviceId} {e : ℕ} {db : SpaceDb} {d : Device} :
    d ∈ (run i e db).devices ↔ ∃ c ∈ db.devices,
      d = if decide (c.id = i) && decide (c.keyEpoch < e) then { c with keyEpoch := e } else c := by
  rw [run, Table.mem_update]

theorem mem_run_devices {i : DeviceId} {e : ℕ} {db : SpaceDb} {d : Device}
    (h : d ∈ (run i e db).devices) : ∃ c ∈ db.devices, ∃ k, d = { c with keyEpoch := k } := by
  obtain ⟨c, hc, rfl⟩ := mem_run.mp h
  split_ifs
  · exact ⟨c, hc, e, rfl⟩
  · exact ⟨c, hc, c.keyEpoch, rfl⟩

theorem mem_run_of_mem {i : DeviceId} {e : ℕ} {db : SpaceDb} {d : Device} (h : d ∈ db.devices) :
    ∃ d' ∈ (run i e db).devices, d'.id = d.id ∧ d'.publicKey = d.publicKey ∧
      d'.active = d.active := by
  refine ⟨_, mem_run.mpr ⟨d, h, rfl⟩, ?_⟩
  split_ifs <;> exact ⟨rfl, rfl, rfl⟩

theorem isActive_run {i j : DeviceId} {e : ℕ} {db : SpaceDb} :
    (run i e db).isActive j = db.isActive j := by
  refine Table.exist_update ?_ fun _ => rfl
  exact fun _ => rfl

end ackKey

namespace revokeDevice

def checkSelf (auth : AuthContext) (deviceId : DeviceId) : Except ApiError Unit :=
  if deviceId = auth.deviceId then
    .error ⟨.bad_request, "You cannot revoke the device you are currently using"⟩
  else .ok ()

/-- The target must be active, and only the owner may revoke an administrator. -/
def checkTarget (auth : AuthContext) (target : Option Device) : Except ApiError Unit :=
  match target with
  | none => .error ⟨.not_found, "Active device not found"⟩
  | some d =>
      if d.role = .owner then .error ⟨.forbidden, "The space owner cannot be revoked"⟩
      else if d.role = .admin ∧ auth.role ≠ .owner then
        .error ⟨.forbidden, "Only the space owner can revoke an administrator"⟩
      else .ok ()

def target (db : SpaceDb) (deviceId : DeviceId) : Option Device :=
  db.devices.first fun d => decide (d.id = deviceId) && d.active

/-- The device is marked, its waiting keys go, and the group owes a rotation. -/
def run (deviceId : DeviceId) (now : ℕ) (db : SpaceDb) : SpaceDb :=
  let devices := db.devices.update (fun d => decide (d.id = deviceId))
    (fun d => { d with revokedAt := some now }) (fun _ => rfl)
  let keyDistribution := db.keyDistribution.delete fun r => decide (r.deviceId = deviceId)
  { db with devices, keyDistribution, rotationPending := true }

theorem mem_run_keyDistribution {i : DeviceId} {now : ℕ} {db : SpaceDb} {r : KeyRow} :
    r ∈ (run i now db).keyDistribution ↔ r ∈ db.keyDistribution ∧ r.deviceId ≠ i := by
  simp [run]

theorem mem_run_devices {i : DeviceId} {now : ℕ} {db : SpaceDb} {d : Device} :
    d ∈ (run i now db).devices ↔
      (d ∈ db.devices ∧ d.id ≠ i) ∨ ∃ c ∈ db.devices, c.id = i ∧
      d = { c with revokedAt := some now } := by
  rw [run, Table.mem_update]
  simp only [decide_eq_true_eq]
  constructor
  · intro ⟨c, hc, he⟩
    split_ifs at he with hi
    · exact Or.inr ⟨c, hc, hi, he⟩
    · exact Or.inl ⟨he ▸ hc, he ▸ hi⟩
  · intro h
    rcases h with ⟨hd, hi⟩ | ⟨c, hc, hi, he⟩
    · exact ⟨d, hd, by simp [hi]⟩
    · exact ⟨c, hc, by simp [hi, he]⟩

/-- A device that is active after a revocation is another one, and unchanged. -/
theorem active_of_mem_run {i : DeviceId} {now : ℕ} {db : SpaceDb} {d : Device}
    (h : d ∈ (run i now db).devices) (ha : d.active = true) : d ∈ db.devices ∧ d.id ≠ i := by
  rcases mem_run_devices.mp h with h | ⟨c, _, _, rfl⟩
  · exact h
  · simp [Device.active] at ha

theorem isActive_run {i j : DeviceId} {now : ℕ} {db : SpaceDb} (h : db.isActive j = true)
    (hj : j ≠ i) :
    (run i now db).isActive j = true := by
  obtain ⟨d, hd, hid, ha⟩ := SpaceDb.isActive_iff.mp h
  exact SpaceDb.isActive_iff.mpr ⟨d, mem_run_devices.mpr (Or.inl ⟨hd, hid ▸ hj⟩), hid, ha⟩

end revokeDevice

structure PairingCompleteBody where
  wrappedPackage : WrappedPackage
  scannedPublicKey : PublicKey
  scannedSigningPublicKey : Option SigningKey
  deviceAuthTokenHash : TokenHash
  keyEpoch : ℕ
deriving DecidableEq, Repr

namespace completePairing

def checkEpoch (auth : AuthContext) (body : PairingCompleteBody) : Except ApiError Unit :=
  if body.keyEpoch < 1 then
    .error ⟨.bad_request, "Missing or invalid integer field: keyEpoch"⟩
  else if body.keyEpoch ≠ auth.groupKeyEpoch then
    .error ⟨.key_rotated, "The space key has rotated; sync this device before adding another"⟩
  else .ok ()

/-- The keys in the slot must be the ones that were scanned. -/
def checkSlot (body : PairingCompleteBody) (slot : Option PairingSlot) :
    Except ApiError SlotDevice :=
  match slot with
  | none => .error ⟨.not_found, "Pairing slot not found or expired"⟩
  | some s =>
      if s.wrappedPackage.isSome then .error ⟨.conflict, "Pairing already completed"⟩
      else if s.newDevice.publicKey ≠ body.scannedPublicKey then
        .error ⟨.conflict, "Pairing slot public key does not match the scanned device"⟩
      else if s.newDevice.signingPublicKey ≠ body.scannedSigningPublicKey then
        .error ⟨.conflict, "Pairing slot signing key does not match the scanned device"⟩
      else .ok s.newDevice

def checkGroup (db : SpaceDb) (device : SlotDevice) : Except ApiError Unit :=
  if device.id ∈ db.elsewhere then
    .error ⟨.conflict, "Device id already registered to another group"⟩
  else .ok ()

def newRow (device : SlotDevice) (body : PairingCompleteBody) : Device where
  id := device.id
  publicKey := device.publicKey
  signingPublicKey := device.signingPublicKey
  authTokenHash := body.deviceAuthTokenHash
  role := .member
  keyEpoch := body.keyEpoch
  nameKeyEpoch := body.keyEpoch
  sendOnly := device.sendOnly
  revokedAt := none

def slotOpen (pairingId : PairingId) (db : SpaceDb) : Bool :=
  db.pairing.exist fun s => decide (s.pairingId = pairingId) && s.wrappedPackage.isNone

def registerGuard (pairingId : PairingId) (device : SlotDevice) (body : PairingCompleteBody)
    (db : SpaceDb) : Bool :=
  decide (db.keyEpoch = body.keyEpoch) && slotOpen pairingId db && decide (device.id ∉ db.elsewhere)

def tokenTaken (device : SlotDevice) (body : PairingCompleteBody) (db : SpaceDb) : Bool :=
  db.devices.exist fun d =>
    decide (d.id ≠ device.id) && decide (d.authTokenHash = body.deviceAuthTokenHash)

def registered (device : SlotDevice) (body : PairingCompleteBody) (db : SpaceDb) : SpaceDb :=
  let devices := db.devices.upsert (newRow device body) (fun _ => true)
    (fun d => { newRow device body with id := d.id }) (fun _ => rfl)
  { db with devices }

/-- The upsert of the joining device. A row of another group with this id is left
alone, and a token hash held by another row raises. -/
def registerDevice (pairingId : PairingId) (device : SlotDevice) (body : PairingCompleteBody) :
    Statement SpaceDb SqlError := fun db =>
  if registerGuard pairingId device body db then
    if tokenTaken device body db then .error .uniqueConstraint
    else .ok (registered device body db, 1)
  else .ok (db, 0)

def depositGuard (pairingId : PairingId) (device : SlotDevice) (body : PairingCompleteBody)
    (db : SpaceDb) : Bool :=
  slotOpen pairingId db && decide (db.keyEpoch = body.keyEpoch) && db.isActive device.id

def deposited (pairingId : PairingId) (body : PairingCompleteBody) (db : SpaceDb) : SpaceDb :=
  let pairing := db.pairing.update (fun s => decide (s.pairingId = pairingId))
    (fun s => { s with wrappedPackage := some body.wrappedPackage }) (fun _ => rfl)
  { db with pairing }

def depositPackage (pairingId : PairingId) (device : SlotDevice) (body : PairingCompleteBody) :
    Statement SpaceDb SqlError := fun db =>
  if depositGuard pairingId device body db then .ok (deposited pairingId body db, 1)
  else .ok (db, 0)

def stale : ApiError := ⟨.conflict, "Pairing became stale; start pairing again"⟩

def finish (pairingId : PairingId) (device : SlotDevice) (body : PairingCompleteBody)
    (db : SpaceDb) : SpaceDb × Except ApiError Unit :=
  match commit [registerDevice pairingId device body, depositPackage pairingId device body] db with
  | (db', .error _) => (db', .error .internalError)
  | (db', .ok results) => if results ≠ [1, 1] then (db', .error stale) else (db', .ok ())

theorem checkSlot_ok {body : PairingCompleteBody} {slot : Option PairingSlot} {d : SlotDevice}
    (h : checkSlot body slot = .ok d) : ∃ s, slot = some s ∧ s.newDevice = d ∧
      d.publicKey = body.scannedPublicKey ∧ d.signingPublicKey = body.scannedSigningPublicKey := by
  unfold checkSlot at h
  split at h
  · cases h
  · next s =>
    split_ifs at h with h₁ h₂ h₃
    obtain rfl := Except.ok.inj h
    exact ⟨s, rfl, rfl, not_not.mp h₂, not_not.mp h₃⟩

/-- The rows after registering: the joining device's, and the others as they were. -/
theorem mem_registered {device : SlotDevice} {body : PairingCompleteBody} {db : SpaceDb}
    {d : Device} :
    d ∈ (registered device body db).devices ↔
      d = newRow device body ∨ (d ∈ db.devices ∧ d.id ≠ device.id) := by
  have hid : (newRow device body).id = device.id := rfl
  have hrow : ∀ q : Device, q.id = device.id → ({ newRow device body with id := q.id } : Device) =
      newRow device body := fun q hq => by rw [hq]; rfl
  rw [registered, Table.mem_upsert, hid]
  constructor
  · intro h
    rcases h with ⟨hfree, hd | hd⟩ | ⟨_, q, hq, he⟩
    · exact Or.inr ⟨hd, hfree d hd⟩
    · exact Or.inl hd
    · split_ifs at he with hk
      · exact Or.inl (he.trans (hrow q hk.1))
      · exact Or.inr ⟨he ▸ hq, by simpa [← he] using hk⟩
  · intro h
    by_cases hex : ∃ q ∈ db.devices, q.id = device.id
    · right
      refine ⟨hex, ?_⟩
      rcases h with hd | ⟨hd, hne⟩
      · obtain ⟨q, hq, hk⟩ := hex
        exact ⟨q, hq, by simp only [hk, true_and, if_true]; rw [hd]; rfl⟩
      · exact ⟨d, hd, by simp [hne]⟩
    · left
      push Not at hex
      refine ⟨hex, ?_⟩
      rcases h with hd | ⟨hd, _⟩
      · exact Or.inr hd
      · exact Or.inl hd

theorem mem_deposited {pairingId : PairingId} {body : PairingCompleteBody} {db : SpaceDb}
    {slot : PairingSlot} : slot ∈ (deposited pairingId body db).pairing ↔ ∃ old ∈ db.pairing,
      slot = if old.pairingId = pairingId then
          { old with wrappedPackage := some body.wrappedPackage }
        else old := by
  rw [deposited, Table.mem_update]
  simp only [decide_eq_true_eq]

theorem isActive_registered {device : SlotDevice} {body : PairingCompleteBody} {db : SpaceDb}
    {j : DeviceId} (h : j = device.id ∨ db.isActive j = true) :
    (registered device body db).isActive j = true := by
  by_cases hj : j = device.id
  · exact SpaceDb.isActive_iff.mpr ⟨newRow device body, mem_registered.mpr (Or.inl rfl),
      hj.symm, rfl⟩
  · obtain ⟨d, hd, hid, ha⟩ := SpaceDb.isActive_iff.mp (h.resolve_left hj)
    exact SpaceDb.isActive_iff.mpr ⟨d, mem_registered.mpr (Or.inr ⟨hd, hid ▸ hj⟩), hid, ha⟩

/-- A completion either leaves everything as it was, or registers the device and
deposits the package, in a slot that was open and at the group's own epoch. -/
theorem finish_spec {pairingId : PairingId} {device : SlotDevice} {body : PairingCompleteBody}
    {db : SpaceDb} (home : ∀ d ∈ db.devices, d.id ∉ db.elsewhere) :
    (∃ e, finish pairingId device body db = (db, .error e)) ∨
      (registerGuard pairingId device body db = true ∧ tokenTaken device body db = false ∧
        finish pairingId device body db =
          (deposited pairingId body (registered device body db), .ok ())) := by
  by_cases hg : registerGuard pairingId device body db = true
  · by_cases ht : tokenTaken device body db = true
    · left
      refine ⟨.internalError, ?_⟩
      simp [finish, commit, batch, registerDevice, hg, ht, Except.bind]
    · right
      refine ⟨hg, by simpa using ht, ?_⟩
      have hdep : depositGuard pairingId device body (registered device body db) = true := by
        simp only [registerGuard, Bool.and_eq_true, decide_eq_true_eq] at hg
        simp only [depositGuard, Bool.and_eq_true, decide_eq_true_eq, SpaceDb.isActive_iff]
        exact ⟨⟨hg.1.2, hg.1.1⟩, newRow device body, mem_registered.mpr (Or.inl rfl), rfl, rfl⟩
      simp [finish, commit, batch, registerDevice, depositPackage, hg, ht, hdep, Except.bind,
        Except.map]
  · left
    refine ⟨stale, ?_⟩
    by_cases hd : depositGuard pairingId device body db = true
    · simp only [depositGuard, Bool.and_eq_true, decide_eq_true_eq] at hd
      simp only [registerGuard, hd.1.1, hd.1.2, decide_true, Bool.and_self, Bool.true_and,
        decide_eq_true_eq, not_not] at hg
      obtain ⟨d, hd, hid, _⟩ := SpaceDb.isActive_iff.mp hd.2
      exact absurd (hid ▸ hg) (home d hd)
    · simp [finish, commit, batch, registerDevice, depositPackage, hg, hd, Except.bind, Except.map]

end completePairing
end SendSelf
