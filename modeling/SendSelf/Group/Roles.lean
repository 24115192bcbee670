import SendSelf.Group.Server

/-!
# Who owns and who administers a space

No statement moves the ownership, and the role of a device is changed only for the owner,
as long as two things hold when a statement commits that was checked before: the device
that joins is not by its id the owner or an administrator, and the device that becomes an
administrator may still read the space.
-/
namespace SendSelf

/-- The founder is the owner, with the keys and the token it founded the space with. -/
structure Owned (founder : SlotDevice) (token : Token) (db : SpaceDb) : Prop where
  owner : ∃ d ∈ db.devices, d.id = founder.id ∧ d.active = true ∧ d.role = .owner ∧
    d.publicKey = founder.publicKey ∧ d.signingPublicKey = founder.signingPublicKey ∧
      d.authTokenHash = sha256Hex token
  only : ∀ d ∈ db.devices, d.role = .owner → d.id = founder.id
  sendOnly : ∀ d ∈ db.devices, d.sendOnly = true → d.role = .member

namespace Owned

variable {founder : SlotDevice} {token : Token} {db db' : SpaceDb}

/-- Any device that owns the space is the founder's. -/
theorem unique (h : Owned founder token db) :
    ∃ d ∈ db.devices, d.active = true ∧ d.role = .owner ∧ d.id = founder.id ∧
    d.publicKey = founder.publicKey ∧ d.signingPublicKey = founder.signingPublicKey ∧
    d.authTokenHash = sha256Hex token ∧
    ∀ d' ∈ db.devices, d'.role = .owner → d' = d := by
  obtain ⟨d, hd, hid, hactive, hrole, hkey, hsign, htoken⟩ := h.owner
  refine ⟨d, hd, hactive, hrole, hid, hkey, hsign, htoken, fun d' hd' hrole' => ?_⟩
  exact Table.eq_of_key hd' hd ((h.only d' hd' hrole').trans hid.symm)

/-- The caller that a handler takes for the owner is the founder. -/
theorem of_requireOwner (h : Owned founder token db) {t : Token} {auth : AuthContext}
    (hauth : authenticate db t = .ok auth) (howner : requireOwner auth = .ok ()) :
    auth.deviceId = founder.id := by
  obtain ⟨d, hd, _, _, hid, hrole, _⟩ := authenticate_eq_ok hauth
  unfold requireOwner at howner
  split_ifs at howner with hne
  rw [hid]
  exact h.only d hd (hrole ▸ not_not.mp hne)

/-- No revocation of the founder passes the check. -/
theorem ne_of_checkTarget (h : Owned founder token db) {auth : AuthContext} {i : DeviceId}
    (hok : revokeDevice.checkTarget auth (revokeDevice.target db i) = .ok ()) : i ≠ founder.id := by
  intro hi
  unfold revokeDevice.checkTarget at hok
  split at hok
  · cases hok
  · next target htarget =>
    obtain ⟨hmem, hp⟩ := Table.first_some htarget
    simp only [Bool.and_eq_true, decide_eq_true_eq] at hp
    obtain ⟨d, hd, hid, _, hrole, _⟩ := h.owner
    have htd : target = d := Table.eq_of_key hmem hd (hp.1.trans (hi.trans hid.symm))
    rw [htd, if_pos hrole] at hok
    cases hok

theorem founded {groupId : GroupId} {elsewhere : List DeviceId} :
    Owned founder token (.founded groupId founder token elsewhere) where
  owner := ⟨_, Table.mem_singleton.mpr rfl, rfl, rfl, rfl, rfl, rfl, rfl⟩
  only := fun d hd _ => by rw [Table.mem_singleton.mp hd]
  sendOnly := fun d hd h => by
    rw [Table.mem_singleton.mp hd] at h
    cases h

theorem same (h : Owned founder token db) (hsame : SameDevices db db') :
    Owned founder token db' := by
  obtain ⟨f, hf⟩ := hsame
  refine ⟨?_, fun d' hd' hrole => ?_, fun d' hd' hsend => ?_⟩
  · obtain ⟨d, hd, hrest⟩ := h.owner
    exact ⟨_, (hf _).mpr ⟨d, hd, rfl⟩, hrest⟩
  · obtain ⟨d, hd, rfl⟩ := (hf d').mp hd'
    exact h.only d hd hrole
  · obtain ⟨d, hd, rfl⟩ := (hf d').mp hd'
    exact h.sendOnly d hd hsend

theorem revoked (h : Owned founder token db) {i : DeviceId} {now : ℕ} (hi : i ≠ founder.id) :
    Owned founder token (revokeDevice.run i now db) := by
  refine ⟨?_, fun d' hd' hrole => ?_, fun d' hd' hsend => ?_⟩
  · obtain ⟨d, hd, hid, hrest⟩ := h.owner
    exact ⟨d,
      revokeDevice.mem_run_devices.mpr (Or.inl ⟨hd, fun he => hi (he.symm.trans hid)⟩), hid, hrest⟩
  · rcases revokeDevice.mem_run_devices.mp hd' with ⟨hd, _⟩ | ⟨d, hd, _, rfl⟩
    · exact h.only d' hd hrole
    · exact h.only d hd hrole
  · rcases revokeDevice.mem_run_devices.mp hd' with ⟨hd, _⟩ | ⟨d, hd, _, rfl⟩
    · exact h.sendOnly d' hd hsend
    · exact h.sendOnly d hd hsend

theorem linked (h : Owned founder token db) {pairingId : PairingId} {body : PairingCompleteBody}
    {device : SlotDevice} (hne : device.id ≠ founder.id) :
    Owned founder token
      (completePairing.deposited pairingId body (completePairing.registered device body db)) := by
  refine ⟨?_, fun d' hd' hrole => ?_, fun d' hd' hsend => ?_⟩
  · obtain ⟨d, hd, hid, hrest⟩ := h.owner
    exact ⟨d,
      completePairing.mem_registered.mpr (Or.inr ⟨hd, fun he => hne (he.symm.trans hid)⟩), hid,
      hrest⟩
  · rcases completePairing.mem_registered.mp hd' with rfl | ⟨hd, _⟩
    · cases hrole
    · exact h.only d' hd hrole
  · rcases completePairing.mem_registered.mp hd' with rfl | ⟨hd, _⟩
    · rfl
    · exact h.sendOnly d' hd hsend

theorem assigned (h : Owned founder token db) {i : DeviceId} {role : AssignableDeviceRole}
    (hsend : role = .admin → ∀ d ∈ db.devices, updateDeviceRole.assignable i d = true →
      d.sendOnly = false) :
    Owned founder token (updateDeviceRole.run i role db) := by
  refine ⟨?_, fun d' hd' hrole => ?_, fun d' hd' hs => ?_⟩
  · obtain ⟨d, hd, hid, hactive, hrole, hrest⟩ := h.owner
    refine ⟨d, updateDeviceRole.mem_run.mpr ⟨d, hd, ?_⟩, hid, hactive, hrole, hrest⟩
    rw [if_neg (by simp [updateDeviceRole.assignable, hrole])]
  · obtain ⟨d, hd, rfl⟩ := updateDeviceRole.mem_run.mp hd'
    split_ifs at hrole ⊢
    · cases role <;> cases hrole
    · exact h.only d hd hrole
  · obtain ⟨d, hd, rfl⟩ := updateDeviceRole.mem_run.mp hd'
    split_ifs at hs ⊢ with hp
    · cases role with
      | admin => exact absurd (hsend rfl d hd hp) (by simp [show d.sendOnly = true from hs])
      | member => rfl
    · exact h.sendOnly d hd hs

end Owned

namespace GroupServer

/-- The device administers the space without owning it. -/
def IsAdmin (s : GroupServer) (i : DeviceId) : Prop :=
  ∃ d ∈ s.space.devices, d.id = i ∧ d.active = true ∧ d.role = .admin

instance (s : GroupServer) (i : DeviceId) : Decidable (s.IsAdmin i) :=
  inferInstanceAs (Decidable (∃ d ∈ s.space.devices, d.id = i ∧ d.active = true ∧ d.role = .admin))

/-- When the batch of a pairing goes through, the joining device is by its id not an active
device above a member. -/
def flightKeepsRoles (db : SpaceDb) : Flight → Prop
  | ⟨_, .completePairing pairingId body, .readyToPair device⟩ =>
      completePairing.registerGuard pairingId device body db = true →
        completePairing.tokenTaken device body db = false →
        ∀ d ∈ db.devices, d.id = device.id → d.active = true → d.role = .member
  | _ => True

/-- When a device becomes an administrator, it is not send-only. -/
def callKeepsRoles (db : SpaceDb) : GroupCall → Prop
  | .role _ deviceId _ (.writing _ .admin) =>
      ∀ d ∈ db.devices, updateDeviceRole.assignable deviceId d = true → d.sendOnly = false
  | _ => True

def KeepsRoles (s : GroupServer) : GroupEvent → Prop
  | .files (.server (.advance r _ _)) => ∀ f ∈ s.flights r, flightKeepsRoles s.space f
  | .run r _ _ => ∀ c ∈ s.calls r, callKeepsRoles s.space c
  | _ => True

instance {db : SpaceDb} : DecidablePred (flightKeepsRoles db)
  | ⟨_, .completePairing pairingId body, .readyToPair device⟩ =>
      inferInstanceAs (Decidable (completePairing.registerGuard pairingId device body db = true →
        completePairing.tokenTaken device body db = false →
          ∀ d ∈ db.devices, d.id = device.id → d.active = true → d.role = .member))
  | ⟨_, .completePairing _ _, .received⟩ | ⟨_, .completePairing _ _, .authed _⟩ |
      ⟨_, .completePairing _ _, .slotRead _ _⟩
  | ⟨_, .completePairing _ _, .ready _⟩ | ⟨_, .completePairing _ _, .answered _⟩ |
      ⟨_, .pendingMessages, _⟩
  | ⟨_, .listDevices, _⟩ | ⟨_, .rotateKey _, _⟩ | ⟨_, .ackKey _, _⟩ | ⟨_, .revokeDevice _, _⟩ =>
      inferInstanceAs (Decidable True)

instance {db : SpaceDb} : DecidablePred (callKeepsRoles db) := fun c => by
  unfold callKeepsRoles
  split <;> infer_instance

instance (s : GroupServer) : (e : GroupEvent) → Decidable (s.KeepsRoles e)
  | .files (.server (.advance r _ _)) =>
    inferInstanceAs (Decidable (∀ f ∈ s.flights r, flightKeepsRoles s.space f))
  | .run r _ _ => inferInstanceAs (Decidable (∀ c ∈ s.calls r, callKeepsRoles s.space c))
  | .files (.server (.receive _ _ _)) | .files (.server (.reserve _ _)) |
      .files (.server (.release _))
  | .files (.start _ _) | .files (.run _ _) | .purge _ _ | .receive _ _ | .content _ |
      .registerElsewhere _
  | .storeElsewhere _ | .pairElsewhere _ _ _ => inferInstanceAs (Decidable True)

/-- What the requests on their way have checked. -/
structure Ruled (founder : SlotDevice) (token : Token) (s : GroupServer) : Prop where
  sound : s.Sound
  owned : Owned founder token s.space
  targets : ∀ r t i auth, s.flights r = some ⟨t, .revokeDevice i, .ready auth⟩ → i ≠ founder.id
  callers : ∀ r t i body stage auth, s.calls r = some (.role t i body stage) →
    (GroupCall.role t i body stage).auth = some auth → auth.deviceId = founder.id

end GroupServer

/-- A revocation that has passed its checks has found the device it is after. -/
theorem revokeDevice.next_ready {now : ℕ} {token : Token} {i : DeviceId} {db : SpaceDb}
    {stage : Stage} {auth : AuthContext} (h : (next now token i db stage).2 = .ready auth) :
    stage = .authed auth ∧ checkTarget auth (target db i) = .ok () := by
  cases stage with
  | received =>
    have hcheck : ∀ c : Except ApiError Stage, Stage.ofCheck c = .ready auth →
        c = .ok (.ready auth) := fun c hc => by
      cases c with
      | ok stage => exact congrArg Except.ok hc
      | error e => cases hc
    have hok := hcheck _ h
    simp only [bind_eq_ok, pure_eq_ok] at hok
    obtain ⟨_, _, _, _, _, _, heq⟩ := hok
    cases heq
  | authed auth' =>
    simp only [next] at h
    cases hc : checkTarget auth' (target db i) with
    | error e =>
      rw [hc] at h
      cases h
    | ok u =>
      rw [hc] at h
      obtain rfl := Stage.ready.inj h
      exact ⟨rfl, hc⟩
  | slotRead auth' device => cases h
  | ready auth' => cases h
  | readyToPair device => cases h
  | answered a => cases h

/-- The caller that a change of a role has found. -/
theorem updateDeviceRole.next_auth {token : Token} {i : DeviceId} {body : Option DeviceRole}
    {db : SpaceDb} {stage : RoleStage} {auth : AuthContext}
    (h : (GroupCall.role token i body (next token i body db stage).2).auth = some auth) :
    (GroupCall.role token i body stage).auth = some auth ∨
      (authenticate db token = .ok auth ∧ requireOwner auth = .ok ()) := by
  cases stage with
  | received =>
    simp only [next] at h
    revert h
    refine orAnswer_cases (P := fun stage => (GroupCall.role token i body stage).auth =
      some auth → _)
      (fun e h => (nomatch h)) fun stage hok h => ?_
    simp only [bind_eq_ok, pure_eq_ok] at hok
    obtain ⟨auth', hauth, _, howner, _, _, _, _, rfl⟩ := hok
    obtain rfl := Option.some.inj h
    exact Or.inr ⟨hauth, howner⟩
  | authed auth' role =>
    simp only [next] at h
    revert h
    refine orAnswer_cases (P := fun stage => (GroupCall.role token i body stage).auth =
      some auth → _)
      (fun e h => (nomatch h)) fun stage hok h => ?_
    simp only [bind_eq_ok, pure_eq_ok] at hok
    obtain ⟨_, _, rfl⟩ := hok
    exact Or.inl h
  | writing auth' role => cases h
  | answered a => cases h

namespace GroupServer

variable {founder : SlotDevice} {token : Token} {s t : GroupServer} {e : GroupEvent}

theorem Ruled.owned_step (h : s.Ruled founder token) (hok : s.KeepsRoles e)
    (hs : s.step e = some t) :
    Owned founder token t.space := by
  have hstep := (step_space h.sound hs).devices
  generalize t.space = db at hstep
  cases hstep with
  | same hsame => exact h.owned.same hsame
  | revoked hf => exact h.owned.revoked (h.targets _ _ _ _ hf)
  | linked hf hg hfree =>
    refine h.owned.linked fun hid => ?_
    obtain ⟨d, hd, hdid, hactive, hrole, _⟩ := h.owned.owner
    have hmember := hok _ hf hg hfree d hd (hdid.trans hid.symm) hactive
    rw [hrole] at hmember
    cases hmember
  | assigned hcall =>
    refine h.owned.assigned fun hadmin => ?_
    subst hadmin
    exact hok _ hcall

theorem Ruled.step (h : s.Ruled founder token) (hok : s.KeepsRoles e) (hs : s.step e = some t) :
    t.Ruled founder token := by
  refine ⟨h.sound.step hs, h.owned_step hok hs, fun r tok i auth hf => ?_,
    fun r tok i body stage auth hc hauth => ?_⟩
  · rcases step_flight hs r with hold | ⟨_, _, _, _, hnew⟩ |
      ⟨now, limited, ⟨tok', request, stage⟩, rfl, hf', hnew⟩
    · exact h.targets r tok i auth (hold ▸ hf)
    · cases hnew.symm.trans hf
    · have heq := Flight.mk.inj (Option.some.inj (hnew.symm.trans hf))
      obtain ⟨rfl, rfl, hst⟩ := heq
      exact h.owned.ne_of_checkTarget (revokeDevice.next_ready hst).2
  · rcases step_call hs r with hold | ⟨call, _, hnew, _, hcall⟩ |
      ⟨m, rows, call, next, rfl, hcall, hnext, ht⟩
    · exact h.callers r tok i body stage auth (hold ▸ hc) hauth
    · obtain rfl := Option.some.inj (hcall.symm.trans hc)
      exact absurd ((GroupCall.auth_of_isNew hnew).symm.trans hauth) (Option.some_ne_none _).symm
    · obtain ⟨db', call'⟩ := next
      obtain rfl : call' = .role tok i body stage := Option.some.inj (ht.symm.trans hc)
      obtain ⟨stage₀, rfl, rfl⟩ := GroupCall.next_role hnext
      rcases updateDeviceRole.next_auth hauth with hold | ⟨hok, howner⟩
      · exact h.callers r tok i body stage₀ auth hcall hold
      · exact h.owned.of_requireOwner hok howner

/-- What a step does to who administers the space. -/
theorem Ruled.isAdmin_step (h : s.Ruled founder token) (hok : s.KeepsRoles e)
    (hs : s.step e = some t) {i : DeviceId} (hchange : ¬ (s.IsAdmin i ↔ t.IsAdmin i)) :
    (∃ r m rows tok body auth role, e = .run r m rows ∧
      s.calls r = some (.role tok i body (.writing auth role)) ∧
      auth.deviceId = founder.id) ∨
    (s.IsAdmin i ∧ ∃ r now limited tok auth, e = .files (.server (.advance r now limited)) ∧
      s.flights r = some ⟨tok, .revokeDevice i, .ready auth⟩) := by
  have hstep := (step_space h.sound hs).devices
  unfold IsAdmin at hchange ⊢
  generalize t.space = db at hstep hchange
  cases hstep with
  | same hsame =>
    obtain ⟨f, hf⟩ := hsame
    refine absurd ⟨fun ⟨d, hd, hrest⟩ => ⟨_, (hf _).mpr ⟨d, hd, rfl⟩, hrest⟩,
      fun ⟨d', hd', hrest⟩ => ?_⟩ hchange
    obtain ⟨d, hd, rfl⟩ := (hf d').mp hd'
    exact ⟨d, hd, hrest⟩
  | @revoked r now at_ limited tok j auth hf =>
    by_cases hij : i = j
    · subst hij
      refine Or.inr ⟨?_, r, now, limited, tok, auth, rfl, hf⟩
      by_contra hnot
      refine hchange ⟨fun hadmin => absurd hadmin hnot, fun ⟨d, hd, hid, hactive, _⟩ => ?_⟩
      exact absurd hid (revokeDevice.active_of_mem_run hd hactive).2
    · refine absurd ⟨fun ⟨d, hd, hid, hrest⟩ => ?_, fun ⟨d, hd, hid, hactive, hrole⟩ => ?_⟩ hchange
      · exact ⟨d, revokeDevice.mem_run_devices.mpr (Or.inl ⟨hd, hid ▸ hij⟩), hid, hrest⟩
      · exact ⟨d, (revokeDevice.active_of_mem_run hd hactive).1, hid, hactive, hrole⟩
  | @linked r now limited tok pairingId body device hf hg hfree =>
    have hmember := hok _ hf hg hfree
    refine absurd ⟨fun ⟨d, hd, hid, hactive, hrole⟩ => ?_,
      fun ⟨d, hd, hid, hactive, hrole⟩ => ?_⟩ hchange
    · refine ⟨d, completePairing.mem_registered.mpr (Or.inr ⟨hd, fun he => ?_⟩), hid,
        hactive, hrole⟩
      have hm := hmember d hd he hactive
      rw [hrole] at hm
      cases hm
    · rcases completePairing.mem_registered.mp hd with rfl | ⟨hd, _⟩
      · cases hrole
      · exact ⟨d, hd, hid, hactive, hrole⟩
  | @assigned r m rows tok j body auth role hcall =>
    by_cases hij : i = j
    · subst hij
      exact Or.inl ⟨r, m, rows, tok, body, auth, role, rfl, hcall,
        h.callers r tok i body _ auth hcall rfl⟩
    · refine absurd ⟨fun ⟨d, hd, hid, hrest⟩ => ?_, fun ⟨d', hd', hid, hrest⟩ => ?_⟩ hchange
      · refine ⟨d, updateDeviceRole.mem_run.mpr ⟨d, hd, ?_⟩, hid, hrest⟩
        rw [if_neg (by simp [updateDeviceRole.assignable, hid, hij])]
      · obtain ⟨d, hd, rfl⟩ := updateDeviceRole.mem_run.mp hd'
        split_ifs at hid hrest with hp
        · simp only [updateDeviceRole.assignable, Bool.and_eq_true, decide_eq_true_eq] at hp
          exact absurd (hid.symm.trans hp.1.1) hij
        · exact ⟨d, hd, hid, hrest⟩

/-- In every run in which no pairing goes through for the id of the owner or of an
administrator, and no send-only device is made an administrator, the founder owns the space
with its founding keys and token, nobody else ever does, no send-only device is above a
member, and administrators come and go only by the owner's changes and by revocations. -/
theorem roles_stable {groupId : GroupId} {elsewhere : List DeviceId} {foreign : List MessageId}
    {groups : List GroupId} {rivals : RequestId → Option (CreateGroupRequest × CreateGroupStage)}
    (hfounder : founder.id ∉ elsewhere) (hr : Runs.ReachableVia step KeepsRoles
      (.founded groupId founder token elsewhere foreign groups rivals) s) :
    (∃ d ∈ s.space.devices, d.active = true ∧ d.role = .owner ∧ d.id = founder.id ∧
      d.publicKey = founder.publicKey ∧
      d.signingPublicKey = founder.signingPublicKey ∧ d.authTokenHash = sha256Hex token ∧
      ∀ d' ∈ s.space.devices, d'.role = .owner → d' = d) ∧
    (∀ d ∈ s.space.devices, d.sendOnly = true → d.role = .member) ∧
    ∀ e t i, s.KeepsRoles e → s.step e = some t → ¬ (s.IsAdmin i ↔ t.IsAdmin i) →
      (∃ r m rows tok body auth role, e = .run r m rows ∧
        s.calls r = some (.role tok i body (.writing auth role)) ∧
        auth.deviceId = founder.id) ∨
      (s.IsAdmin i ∧ ∃ r now limited tok auth, e = .files (.server (.advance r now limited)) ∧
        s.flights r = some ⟨tok, .revokeDevice i, .ready auth⟩) := by
  have hstart :
      Ruled founder token (.founded groupId founder token elsewhere foreign groups rivals) := by
    refine ⟨sound_founded hfounder, .founded,
      fun _ _ _ _ hf => (Option.some_ne_none _ hf.symm).elim,
      fun r _ _ _ _ _ hc => ?_⟩
    obtain ⟨c, _, hc⟩ := Option.map_eq_some_iff.mp hc
    cases hc
  have hruled : Ruled founder token s := hr.invariant hstart fun s e t h hok hs => h.step hok hs
  exact ⟨hruled.owned.unique, hruled.owned.sendOnly, fun e t i hok hs hchange =>
    hruled.isAdmin_step hok hs hchange⟩

/-- A change of a role, run to its end. -/
def assigning (r : RequestId) (deviceId : DeviceId) (role : DeviceRole) : List GroupEvent :=
  [.receive r (.role 11 deviceId (some role) .received)] ++
    List.replicate 3 (.run r ⟨9, false, .passed⟩ [])

theorem roles_stable_assigning :
    ∃ s : GroupServer, s.IsAdmin 2 ∧ ∃ d ∈ s.space.devices, d.active = true ∧ d.role = .owner ∧
    d.id = 1 := by
  have hrun :
      (Runs.replayVia step KeepsRoles start (linking 1 52 ⟨2, 102, none, false⟩ 12 ++
        assigning 1 2 .admin)).any
      (fun s => decide (s.IsAdmin 2)) = true := by decide +kernel
  obtain ⟨s, hs, hadmin⟩ := (Option.any_eq_true _ _).mp hrun
  have hnew : (1 : DeviceId) ∉ ([] : List DeviceId) := List.not_mem_nil
  have hreach : Runs.ReachableVia step KeepsRoles start s := Runs.reachableVia_of_replayVia hs
  obtain ⟨⟨d, hd, hactive, hrole, hid, _⟩, _⟩ :=
    @roles_stable ⟨1, 101, none, false⟩ 11 s 7 [] [] [] (fun _ => none) hnew hreach
  exact ⟨s, of_decide_eq_true hadmin, d, hd, hactive, hrole, hid⟩

/-- A joining device takes the owner's id, and the owner links it. Or device 2 joins again as
a send-only device between the check of its new role and the write. -/
theorem roles_broken :
    (∃ s, Runs.Reachable step start s ∧ ¬ ∃ d ∈ s.space.devices, d.active = true ∧
      d.role = .owner) ∧
    ∃ s, Runs.Reachable step start s ∧ ∃ d ∈ s.space.devices, d.sendOnly = true ∧
      d.role = .admin := by
  constructor
  · exact Runs.exists_reachable_of_replay (by decide +kernel : (Runs.replay step start
      (linking 1 52 ⟨1, 166, none, false⟩ 12)).any
        (fun s => decide (¬ ∃ d ∈ s.space.devices, d.active = true ∧ d.role = .owner)) = true)
  · exact Runs.exists_reachable_of_replay (by decide +kernel : (Runs.replay step start
      (linking 1 52 ⟨2, 102, none, false⟩ 12 ++ (assigning 1 2 .admin).take 3 ++
        linking 2 53 ⟨2, 103, none, true⟩ 13 ++
        [.run 1 ⟨9, false, .passed⟩ []])).any
        (fun s => decide (∃ d ∈ s.space.devices, d.sendOnly = true ∧ d.role = .admin)) = true)

end GroupServer
end SendSelf
