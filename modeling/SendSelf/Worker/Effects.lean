import SendSelf.Worker.Atomicity

/-!
# What one step of a request can do

`Effect` lists everything a step of a handler can do to the database, together
with what the handler has checked when it does it. Every fact about the server
that holds along runs is proved by cases on it.
-/
namespace SendSelf

/-- The caller a handler has authenticated, while it still needs it. -/
def Stage.auth : Stage → Option AuthContext
  | .authed auth | .slotRead auth _ | .ready auth => some auth
  | _ => none

/-- The joining device a handler has read from the slot. -/
def Stage.device : Stage → Option SlotDevice
  | .slotRead _ device | .readyToPair device => some device
  | _ => none

/-- The stage delivers nothing: the handler goes on, or has thrown. -/
def Stage.isQuiet : Stage → Prop
  | .answered (.error _) => True
  | .answered _ => False
  | _ => True

/-- Where the caller known to a stage comes from. -/
def AuthFrom (token : Token) (db : SpaceDb) (stage stage' : Stage) : Prop :=
  ∀ auth, stage'.auth = some auth → stage.auth = some auth ∨ authenticate db token = .ok auth

/-- Where the joining device known to a stage comes from. -/
def DeviceFrom (db : SpaceDb) (request : ApiRequest) (stage stage' : Stage) : Prop :=
  ∀ device, stage'.device = some device → stage.device = some device ∨
    ∃ pairingId body slot, request = .completePairing pairingId body ∧ slot ∈ db.pairing ∧
      slot.pairingId = pairingId ∧ slot.newDevice = device ∧
      device.publicKey = body.scannedPublicKey

inductive Effect (token : Token) (db : SpaceDb) : ApiRequest → Stage → SpaceDb → Stage → Prop
  | same {request : ApiRequest} {stage : Stage} : Effect token db request stage db stage
  | checked {request : ApiRequest} {stage stage' : Stage} (quiet : stage'.isQuiet)
      (auth : AuthFrom token db stage stage') (device : DeviceFrom db request stage stage') :
      Effect token db request stage db stage'
  | served {auth : AuthContext} :
      Effect token db .pendingMessages (.authed auth) db (.answered (.pending
        ⟨pendingKeysFor db auth.deviceId, auth.groupKeyEpoch, auth.rotationPending⟩))
  | listed {auth : AuthContext} :
      Effect token db .listDevices (.authed auth) db (.answered (.listing
        ⟨(activeDevices db).map Device.info, auth.role, auth.groupKeyEpoch, auth.rotationPending⟩))
  | rotated {body : RotateKeyRequest} {auth : AuthContext} {db₁ : SpaceDb}
      (inserted : rotateKey.Inserted body.epoch auth.groupKeyEpoch body.wraps db db₁)
      (prepared : rotateKey.Prepared auth body db) (next : body.epoch = auth.groupKeyEpoch + 1) :
      Effect token db (.rotateKey body) (.ready auth)
        { rotateKey.ownAdopted auth.deviceId body.epoch auth.groupKeyEpoch db₁ with
          keyEpoch := body.epoch, rotationPending := false }
        (.answered (.rotated ⟨body.epoch, body.wraps.length⟩))
  | refused {body : RotateKeyRequest} {auth : AuthContext} {db' : SpaceDb} {e : ApiError}
      (nodup : (body.wraps.map KeyWrap.deviceId).Nodup)
      (finished : rotateKey.finish auth body db = (db', .error e)) :
      Effect token db (.rotateKey body) (.ready auth) db' (.answered (.error e))
  | acked {epoch : ℕ} {auth : AuthContext} :
      Effect token db (.ackKey epoch) (.ready auth) (ackKey.run auth.deviceId epoch db)
        (.answered .ok)
  | revoked {deviceId : DeviceId} {auth : AuthContext} {now : ℕ} :
      Effect token db (.revokeDevice deviceId) (.ready auth) (revokeDevice.run deviceId now db)
        (.answered .ok)
  | paired {pairingId : PairingId} {body : PairingCompleteBody} {device : SlotDevice}
      (guard : completePairing.registerGuard pairingId device body db = true)
      (free : completePairing.tokenTaken device body db = false) :
      Effect token db (.completePairing pairingId body) (.readyToPair device)
        (completePairing.deposited pairingId body (completePairing.registered device body db))
        (.answered .ok)

theorem AuthFrom.of_none {token : Token} {db : SpaceDb} {stage stage' : Stage}
    (h : stage'.auth = none) : AuthFrom token db stage stage' := fun auth ha => by simp [h] at ha

theorem DeviceFrom.of_none {db : SpaceDb} {request : ApiRequest} {stage stage' : Stage}
    (h : stage'.device = none) : DeviceFrom db request stage stage' := fun d hd => by simp [h] at hd

/-- A check that throws has no effect, so only its success needs a look. -/
theorem Effect.ofCheck {token : Token} {db : SpaceDb} {request : ApiRequest} {stage : Stage}
    {c : Except ApiError Stage}
    (h : ∀ stage', c = .ok stage' → Effect token db request stage db stage') :
    Effect token db request stage db (.ofCheck c) :=
  Stage.ofCheck_cases (P := Effect token db request stage db)
    (fun _ => .checked trivial (.of_none rfl) (.of_none rfl)) h

/-- After authentication alone. -/
theorem Effect.authenticated {token : Token} {db : SpaceDb} {request : ApiRequest} {stage : Stage}
    {auth : AuthContext} (h : authenticate db token = .ok auth) :
    Effect token db request stage db (.authed auth) :=
  .checked trivial (fun _ ha => Or.inr (Option.some.inj ha ▸ h)) (.of_none rfl)

theorem rotateKey.effect {limited : Bool} {token : Token} {body : RotateKeyRequest} {db : SpaceDb}
    {stage : Stage} (h : Checked body stage) :
    Effect token db (.rotateKey body) stage (next limited token body db stage).1
      (next limited token body db stage).2 := by
  cases stage with
  | received =>
    apply Effect.ofCheck
    intro stage hs
    simp only [bind_eq_ok, pure_eq_ok] at hs
    obtain ⟨auth, ha, _, _, _, _, rfl⟩ := hs
    exact .authenticated ha
  | authed auth =>
    apply Effect.ofCheck
    intro stage hs
    simp only [bind_eq_ok, pure_eq_ok] at hs
    obtain ⟨_, _, rfl⟩ := hs
    exact .checked trivial (fun a ha => Or.inl ha) (.of_none rfl)
  | ready auth =>
    simp only [next]
    rcases @finish_spec auth body db h.2 with ⟨_, hf⟩ | ⟨db₁, hin, ⟨hs, hf⟩ | ⟨_, hf⟩⟩
    · rw [hf]
      exact .refused h.2 hf
    · rw [hf]
      exact .rotated hin ((swapGuard_iff hin).mp hs) h.1
    · rw [hf]
      exact .refused h.2 hf
  | slotRead auth device => exact .same
  | readyToPair device => exact .same
  | answered a => exact .same

theorem ackKey.effect {token : Token} {epoch : ℕ} {db : SpaceDb} {stage : Stage} :
    Effect token db (.ackKey epoch) stage (next token epoch db stage).1
      (next token epoch db stage).2 := by
  cases stage with
  | received =>
    apply Effect.ofCheck
    intro stage hs
    simp only [bind_eq_ok, pure_eq_ok] at hs
    obtain ⟨auth, ha, _, _, rfl⟩ := hs
    exact .checked trivial (fun a h => Or.inr (Option.some.inj h ▸ ha)) (.of_none rfl)
  | ready auth => exact .acked
  | authed auth => exact .same
  | slotRead auth device => exact .same
  | readyToPair device => exact .same
  | answered a => exact .same

theorem revokeDevice.effect {now : ℕ} {token : Token} {deviceId : DeviceId} {db : SpaceDb}
    {stage : Stage} : Effect token db (.revokeDevice deviceId) stage
      (next now token deviceId db stage).1 (next now token deviceId db stage).2 := by
  cases stage with
  | received =>
    apply Effect.ofCheck
    intro stage hs
    simp only [bind_eq_ok, pure_eq_ok] at hs
    obtain ⟨auth, ha, _, _, _, _, rfl⟩ := hs
    exact .authenticated ha
  | authed auth =>
    apply Effect.ofCheck
    intro stage hs
    simp only [bind_eq_ok, pure_eq_ok] at hs
    obtain ⟨_, _, rfl⟩ := hs
    exact .checked trivial (fun a ha => Or.inl ha) (.of_none rfl)
  | ready auth => exact .revoked
  | slotRead auth device => exact .same
  | readyToPair device => exact .same
  | answered a => exact .same

theorem completePairing.effect {token : Token} {pairingId : PairingId} {body : PairingCompleteBody}
    {db : SpaceDb} {stage : Stage} (home : ∀ d ∈ db.devices, d.id ∉ db.elsewhere) :
    Effect token db (.completePairing pairingId body) stage (next token pairingId body db stage).1
      (next token pairingId body db stage).2 := by
  cases stage with
  | received =>
    apply Effect.ofCheck
    intro stage hs
    simp only [bind_eq_ok, pure_eq_ok] at hs
    obtain ⟨auth, ha, _, _, _, _, rfl⟩ := hs
    exact .authenticated ha
  | authed auth =>
    apply Effect.ofCheck
    intro stage hs
    simp only [bind_eq_ok, pure_eq_ok] at hs
    obtain ⟨device, hd, rfl⟩ := hs
    obtain ⟨slot, hslot, hdev, hkey, _⟩ := checkSlot_ok hd
    have hs := Table.get?_eq_some.mp hslot
    refine .checked trivial (fun a ha => Or.inl ha) fun device' hd' => Or.inr ?_
    obtain rfl : device = device' := Option.some.inj hd'
    exact ⟨pairingId, body, slot, rfl, hs.1, hs.2, hdev, hkey⟩
  | slotRead auth device =>
    apply Effect.ofCheck
    intro stage hs
    simp only [bind_eq_ok, pure_eq_ok] at hs
    obtain ⟨_, _, rfl⟩ := hs
    exact .checked trivial (.of_none rfl) (fun d hd => Or.inl hd)
  | readyToPair device =>
    simp only [next]
    rcases @finish_spec pairingId device body db home with ⟨e, hf⟩ | ⟨hg, ht, hf⟩
    · rw [hf]
      exact .checked trivial (.of_none rfl) (.of_none rfl)
    · rw [hf]
      exact .paired hg ht
  | ready auth => exact .same
  | answered a => exact .same

/-- Every step of a request is one of the effects. -/
theorem ApiRequest.advance_effect {now : ℕ} {limited : Bool} {token : Token} {request : ApiRequest}
    {db : SpaceDb} {stage : Stage} (home : ∀ d ∈ db.devices, d.id ∉ db.elsewhere)
    (hchk : ∀ body, request = .rotateKey body → rotateKey.Checked body stage) :
    Effect token db request stage (request.advance now limited token db stage).1
      (request.advance now limited token db stage).2 := by
  cases request with
  | pendingMessages =>
    cases stage with
    | received =>
      simp only [advance, pendingMessages.next]
      apply Effect.ofCheck
      intro stage hs
      cases ha : authenticate db token with
      | error e => simp [ha, Except.map] at hs
      | ok auth =>
        obtain rfl : Stage.authed auth = stage := by simpa [ha, Except.map] using hs
        exact .authenticated ha
    | authed auth => exact .served
    | _ => exact .same
  | listDevices =>
    cases stage with
    | received =>
      simp only [advance, listDevices.next]
      apply Effect.ofCheck
      intro stage hs
      cases ha : authenticate db token with
      | error e => simp [ha, Except.map] at hs
      | ok auth =>
        obtain rfl : Stage.authed auth = stage := by simpa [ha, Except.map] using hs
        exact .authenticated ha
    | authed auth => exact .listed
    | _ => exact .same
  | rotateKey body => exact rotateKey.effect (hchk body rfl)
  | ackKey epoch => exact ackKey.effect
  | revokeDevice deviceId => exact revokeDevice.effect
  | completePairing pairingId body => exact completePairing.effect home

namespace rotateKey

/-- A refused batch was rolled back, or leaves its inserts and the caller's move. -/
theorem refused_cases {auth : AuthContext} {body : RotateKeyRequest} {db db' : SpaceDb}
    {e : ApiError} (hnd : (body.wraps.map KeyWrap.deviceId).Nodup)
    (hf : finish auth body db = (db', .error e)) :
    db' = db ∨ ∃ db₁, Inserted body.epoch auth.groupKeyEpoch body.wraps db db₁ ∧
      ¬ Prepared auth body db ∧
      db' = ownAdopted auth.deviceId body.epoch auth.groupKeyEpoch db₁ := by
  rcases @finish_spec auth body db hnd with ⟨_, hc⟩ | ⟨db₁, hin, ⟨_, hc⟩ | ⟨hs, hc⟩⟩
  · rw [hf, Prod.mk.injEq] at hc
    exact Or.inl hc.1
  · simp [hf] at hc
  · rw [hf, Prod.mk.injEq] at hc
    refine Or.inr ⟨db₁, hin, fun hp => ?_, hc.1⟩
    simp [(swapGuard_iff hin).mpr hp] at hs

/-- A wrap lands only in a batch that goes through or is rolled back. -/
def Whole (auth : AuthContext) (body : RotateKeyRequest) (db : SpaceDb) : Prop :=
  landing auth.groupKeyEpoch db body.wraps = [] ∨
  Clash body.epoch auth.groupKeyEpoch db body.wraps ∨
    Prepared auth body db

instance {auth : AuthContext} {body : RotateKeyRequest} {db : SpaceDb} :
    Decidable (Whole auth body db) :=
  inferInstanceAs (Decidable (landing auth.groupKeyEpoch db body.wraps = [] ∨
    Clash body.epoch auth.groupKeyEpoch db body.wraps ∨ Prepared auth body db))

theorem AllOrNothing.whole {auth : AuthContext} {body : RotateKeyRequest} {db : SpaceDb}
    (h : AllOrNothing auth body db) : Whole auth body db := by
  rcases h with h | h | h
  · exact Or.inr (Or.inl h)
  · exact Or.inr (Or.inr h)
  · exact Or.inl h.wraps

/-- A batch like that changes at most the caller's own row when it is refused. -/
theorem refused_of_whole {auth : AuthContext} {body : RotateKeyRequest} {db db' : SpaceDb}
    {e : ApiError} (hnd : (body.wraps.map KeyWrap.deviceId).Nodup)
    (hf : finish auth body db = (db', .error e)) (hw : Whole auth body db) :
    db' = db ∨ db' = ownAdopted auth.deviceId body.epoch auth.groupKeyEpoch db := by
  rcases refused_cases hnd hf with hdb | ⟨db₁, hin, hnp, hdb⟩
  · exact Or.inl hdb
  · right
    rcases hw with hl | hcl | hp
    · rw [hdb, hin.eq_self hl]
    · exact absurd hcl hin.clear
    · exact absurd hp hnp

end rotateKey

/-- The parts of a device's row that only its registration sets. -/
structure SameIdentity (d d' : Device) : Prop where
  id : d'.id = d.id
  publicKey : d'.publicKey = d.publicKey
  authTokenHash : d'.authTokenHash = d.authTokenHash
  nameKeyEpoch : d'.nameKeyEpoch = d.nameKeyEpoch
  active : d'.active = true → d.active = true

theorem SameIdentity.refl (d : Device) : SameIdentity d d := ⟨rfl, rfl, rfl, rfl, fun h => h⟩

/-- A step registers a device and leaves its package, or leaves the slots alone and
adds no device. -/
theorem Effect.membership {token : Token} {db db' : SpaceDb} {request : ApiRequest}
    {stage stage' : Stage} (h : Effect token db request stage db' stage') :
    (db'.pairing = db.pairing ∧ ∀ d' ∈ db'.devices, ∃ d ∈ db.devices, SameIdentity d d') ∨
      ∃ pairingId body device, request = .completePairing pairingId body ∧
        stage = .readyToPair device ∧
        completePairing.registerGuard pairingId device body db = true ∧
        db' = completePairing.deposited pairingId body
          (completePairing.registered device body db) := by
  have hown : ∀ {i e p} {db₁ : SpaceDb}, db₁.devices = db.devices →
      ∀ d' ∈ (rotateKey.ownAdopted i e p db₁).devices, ∃ d ∈ db.devices, SameIdentity d d' := by
    intro i e p db₁ hdev d' hmem
    obtain ⟨c, hc, rfl⟩ := rotateKey.mem_ownAdopted.mp hmem
    refine ⟨c, hdev ▸ hc, ?_⟩
    split_ifs
    · exact ⟨rfl, rfl, rfl, rfl, fun ha => ha⟩
    · exact .refl c
  have hsame : ∀ d' ∈ db.devices, ∃ d ∈ db.devices, SameIdentity d d' :=
    fun d hd => ⟨d, hd, .refl d⟩
  cases h with
  | rotated hin _ _ =>
    refine Or.inl ⟨?_, hown hin.devices⟩
    simp only [rotateKey.ownAdopted]
    rw [hin.frame]
  | refused hnd hf =>
    left
    rcases rotateKey.refused_cases hnd hf with rfl | ⟨db₁, hin, _, rfl⟩
    · exact ⟨rfl, hsame⟩
    · refine ⟨?_, hown hin.devices⟩
      simp only [rotateKey.ownAdopted]
      rw [hin.frame]
  | acked =>
    refine Or.inl ⟨rfl, fun d' hd => ?_⟩
    obtain ⟨c, hc, k, rfl⟩ := ackKey.mem_run_devices hd
    exact ⟨c, hc, ⟨rfl, rfl, rfl, rfl, fun ha => ha⟩⟩
  | revoked =>
    refine Or.inl ⟨rfl, fun d' hd => ?_⟩
    rcases revokeDevice.mem_run_devices.mp hd with ⟨hmem, _⟩ | ⟨c, hc, _, rfl⟩
    · exact hsame d' hmem
    · exact ⟨c, hc, ⟨rfl, rfl, rfl, rfl, fun ha => by simp [Device.active] at ha⟩⟩
  | @paired pairingId body device hg _ => exact Or.inr ⟨pairingId, body, device, rfl, rfl, hg, rfl⟩
  | _ => exact Or.inl ⟨rfl, hsame⟩

theorem Effect.groupId {token : Token} {db db' : SpaceDb} {request : ApiRequest}
    {stage stage' : Stage}
    (h : Effect token db request stage db' stage') : db'.groupId = db.groupId := by
  cases h with
  | rotated hin _ _ =>
    simp only [rotateKey.ownAdopted]
    rw [hin.frame]
  | refused hnd hf =>
    rcases rotateKey.refused_cases hnd hf with rfl | ⟨db₁, hin, _, rfl⟩
    · rfl
    · simp only [rotateKey.ownAdopted]
      rw [hin.frame]
  | _ => rfl

/-- Device ids stay apart from those of other groups. -/
theorem Effect.home {token : Token} {db db' : SpaceDb} {request : ApiRequest} {stage stage' : Stage}
    (h : Effect token db request stage db' stage') (hd : ∀ d ∈ db.devices, d.id ∉ db.elsewhere) :
    ∀ d ∈ db'.devices, d.id ∉ db'.elsewhere := by
  have hown : ∀ {i e p} {db₁ : SpaceDb}, db₁.devices = db.devices → db₁.elsewhere = db.elsewhere →
      ∀ d ∈ (rotateKey.ownAdopted i e p db₁).devices, d.id ∉ db₁.elsewhere := by
    intro i e p db₁ hdev helse d hmem
    obtain ⟨c, hc, rfl⟩ := rotateKey.mem_ownAdopted.mp hmem
    rw [hdev] at hc
    rw [helse]
    split_ifs <;> exact hd c hc
  cases h with
  | rotated hin _ _ => exact hown hin.devices (by rw [hin.frame])
  | refused hnd hf =>
    rcases rotateKey.refused_cases hnd hf with rfl | ⟨db₁, hin, _, rfl⟩
    · exact hd
    · exact hown hin.devices (by rw [hin.frame])
  | acked =>
    intro d hmem
    obtain ⟨c, hc, k, rfl⟩ := ackKey.mem_run_devices hmem
    exact hd c hc
  | revoked =>
    intro d hmem
    rcases revokeDevice.mem_run_devices.mp hmem with ⟨hmem, _⟩ | ⟨c, hc, _, rfl⟩
    · exact hd d hmem
    · exact hd c hc
  | paired hg _ =>
    intro d hmem
    simp only [completePairing.registerGuard, Bool.and_eq_true, decide_eq_true_eq] at hg
    rcases completePairing.mem_registered.mp hmem with rfl | ⟨hmem, _⟩
    · exact hg.2
    · exact hd d hmem
  | _ => exact hd

theorem Effect.keyEpoch_le {token : Token} {db db' : SpaceDb} {request : ApiRequest}
    {stage stage' : Stage} (h : Effect token db request stage db' stage') :
    db.keyEpoch ≤ db'.keyEpoch := by
  cases h with
  | @rotated body auth db₁ hin hp hnext =>
    have hep := hp.epoch
    show db.keyEpoch ≤ body.epoch
    omega
  | refused hnd hf =>
    rcases rotateKey.refused_cases hnd hf with rfl | ⟨db₁, hin, _, rfl⟩
    · exact le_refl _
    · simp only [rotateKey.ownAdopted]
      rw [hin.frame]
  | _ => exact le_refl _

/-- The devices are as they were, but for their key epochs. -/
def SameDevices (db db' : SpaceDb) : Prop :=
  ∃ f : Device → ℕ, ∀ d', d' ∈ db'.devices ↔ ∃ d ∈ db.devices, d' = { d with keyEpoch := f d }

theorem SameDevices.of_eq {db db' : SpaceDb} (h : db'.devices = db.devices) : SameDevices db db' :=
  ⟨Device.keyEpoch, fun d' => by
    rw [h]; exact ⟨fun hd => ⟨d', hd, rfl⟩, fun ⟨d, hd, he⟩ => he ▸ hd⟩⟩

theorem sameDevices_ownAdopted {i : DeviceId} {epoch p : ℕ} {db db₁ : SpaceDb}
    (h : db₁.devices = db.devices) :
    SameDevices db (rotateKey.ownAdopted i epoch p db₁) := by
  refine ⟨fun d => if rotateKey.ownRow i p d then epoch else d.keyEpoch, fun d' => ?_⟩
  rw [rotateKey.mem_ownAdopted, h]
  refine exists_congr fun d => and_congr_right fun _ => ?_
  dsimp only
  split_ifs <;> rfl

/-- A request revokes a device, links one, or leaves them as they were. -/
theorem Effect.devices {token : Token} {db db' : SpaceDb} {request : ApiRequest}
    {stage stage' : Stage} (h : Effect token db request stage db' stage') : SameDevices db db' ∨
      (∃ deviceId auth now, request = .revokeDevice deviceId ∧ stage = .ready auth ∧
        db' = revokeDevice.run deviceId now db) ∨
      ∃ pairingId body device, request = .completePairing pairingId body ∧
        stage = .readyToPair device ∧
        completePairing.registerGuard pairingId device body db = true ∧
        completePairing.tokenTaken device body db = false ∧
        db' = completePairing.deposited pairingId body
          (completePairing.registered device body db) := by
  cases h with
  | rotated hin _ _ => exact Or.inl (sameDevices_ownAdopted hin.devices)
  | refused hnd hf =>
    left
    rcases rotateKey.refused_cases hnd hf with rfl | ⟨db₁, hin, _, rfl⟩
    · exact .of_eq rfl
    · exact sameDevices_ownAdopted hin.devices
  | @acked epoch auth =>
    refine Or.inl ⟨fun d =>
      if decide (d.id = auth.deviceId) && decide (d.keyEpoch < epoch) then epoch else d.keyEpoch,
      fun d' => ?_⟩
    rw [ackKey.mem_run]
    refine exists_congr fun d => and_congr_right fun _ => ?_
    dsimp only
    split_ifs <;> rfl
  | @revoked deviceId auth now => exact Or.inr (Or.inl ⟨deviceId, auth, now, rfl, rfl, rfl⟩)
  | @paired pairingId body device hg ht =>
    exact Or.inr (Or.inr ⟨pairingId, body, device, rfl, rfl, hg, ht, rfl⟩)
  | _ => exact Or.inl (.of_eq rfl)

/-- What holds of the server whoever sends it what. -/
structure Server.Sound (s : Server) : Prop where
  checked : s.Checked
  home : ∀ d ∈ s.db.devices, d.id ∉ s.db.elsewhere

/-- A step of a request on its way has one of the effects. -/
theorem Server.Sound.effect {s : Server} (h : s.Sound) {r : RequestId} {f : Flight} {now : ℕ}
    {limited : Bool} (hf : s.flights r = some f) :
    Effect f.token s.db f.request f.stage (f.request.advance now limited f.token s.db f.stage).1
      (f.request.advance now limited f.token s.db f.stage).2 :=
  ApiRequest.advance_effect h.home fun body hb => h.checked r f body hf hb

theorem Server.Sound.step {s s' : Server} {e : ServerEvent} (h : s.Sound)
    (hs : s.step e = some s') :
    s'.Sound ∧ s.db.keyEpoch ≤ s'.db.keyEpoch := by
  have hchecked := h.checked.step hs
  cases e with
  | receive r token request =>
    simp only [Server.step, receive] at hs
    split at hs
    · obtain rfl := Option.some.inj hs
      exact ⟨⟨hchecked, h.home⟩, le_refl _⟩
    · cases hs
  | advance r now limited =>
    obtain ⟨f, hf, rfl⟩ := Option.map_eq_some_iff.mp hs
    have heff := @Server.Sound.effect s h r f now limited hf
    exact ⟨⟨hchecked, heff.home h.home⟩, heff.keyEpoch_le⟩
  | reserve p device =>
    obtain rfl := Option.some.inj hs
    exact ⟨⟨hchecked, h.home⟩, le_refl _⟩
  | release p =>
    obtain rfl := Option.some.inj hs
    exact ⟨⟨hchecked, h.home⟩, le_refl _⟩

theorem Server.sound_founded {groupId : GroupId} {founder : SlotDevice} {token : Token}
    {elsewhere : List DeviceId} (hid : founder.id ∉ elsewhere) :
    (Server.founded groupId founder token elsewhere).Sound := by
  refine ⟨fun _ _ _ h => (nomatch h), fun d hd => ?_⟩
  obtain rfl := Table.mem_singleton.mp hd
  exact hid

end SendSelf
