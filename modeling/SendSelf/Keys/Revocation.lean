import SendSelf.Keys.Agreement

/-!
# What a revoked device was handed

Every key that was ever handed to a device is the key of some epoch, and keys wait
only for active devices. While no rotation is owed, whoever was handed the key of
the group's epoch is active: a revocation owes a rotation, and the rotation that
settles it brings a key nobody was handed before.
-/
namespace SendSelf.World

open WriteOnce

/-- The rows of the key distribution are those of active devices, and unless a rotation is due only
active devices were handed the current key. -/
structure Confined (s : World) : Prop where
  known : ∀ i k, (i, k) ∈ s.handed → ∃ e, s.keyOf e = some k
  rows : ∀ row ∈ s.db.keyDistribution, s.db.isActive row.deviceId = true
  holders : s.db.rotationPending = false → ∀ i k, (i, k) ∈ s.handed →
    s.keyOf s.db.keyEpoch = some k → s.db.isActive i = true

variable {s s' : World} {t : TaskId} {r : RequestId} {task : Task}

/-- The steps of the devices leave the server's tables alone, but for the slots. -/
structure Apart (s s' : World) : Prop where
  handed : s'.handed = s.handed
  keyOf : s'.keyOf = s.keyOf
  db : ∃ pairing, s'.db = { s.db with pairing }

theorem Apart.of_setClient {p : PublicKey} {c : Client} (h : Apart (s.setClient p c) s') :
    Apart s s' :=
  ⟨h.handed, h.keyOf, h.db⟩

theorem apart_send (h : s.send t task r = some s') : Apart s s' := by
  obtain ⟨_, rfl⟩ := send_eq_some h
  exact ⟨rfl, rfl, _, rfl⟩

theorem apart_finish (s : World) (t : TaskId) (task : Task) : Apart s (s.finish t task) := by
  rcases finish_cases s t task with he | ⟨c, _, he⟩ <;>
  · rw [he]
    exact ⟨rfl, rfl, _, rfl⟩

theorem apart_continues (h : Continues s t task r s') : Apart s s' := by
  cases h with
  | ends => exact apart_finish s t task
  | lists h => exact apart_send h

theorem apart_received {c : Client} {stage : Stage} {newKey : GroupKey}
    (h : Received s t task c stage newKey r s') : Apart s s' := by
  cases h with
  | ended => exact apart_finish s t task
  | empty _ h => exact apart_continues h
  | adopted _ _ _ _ _ h => exact (apart_send h).of_setClient
  | adoptedNone _ _ _ _ h => exact (apart_continues h).of_setClient.of_setClient
  | acked _ h => exact (apart_continues h).of_setClient
  | listed _ _ _ h =>
    have hs := apart_send h
    exact ⟨hs.handed, hs.keyOf, hs.db⟩
  | won => exact (apart_finish _ t task).of_setClient
  | revoked _ _ h => exact apart_send h

/-- Only a step of the server hands out keys or revokes a device. -/
theorem apart_step {l : Label} (hl : ∀ r now limited, l ≠ .serve r now limited)
    (h : s.step l = some s') : Apart s s' := by
  cases l with
  | join publicKey device pairingId =>
    obtain ⟨_, _, _, rfl⟩ := join_cases h
    exact ⟨rfl, rfl, _, rfl⟩
  | openPackage publicKey =>
    obtain ⟨_, _, _, _, _, _, _, _, _, _, rfl⟩ := openPackage_cases h
    exact ⟨rfl, rfl, _, rfl⟩
  | dropSlot pairingId =>
    obtain rfl := Option.some.inj h
    exact ⟨rfl, rfl, _, rfl⟩
  | syncNow t publicKey r =>
    obtain ⟨_, _, _, _, _, _, _, h⟩ := syncNow_cases h
    exact (apart_send h).of_setClient
  | revoke t publicKey deviceId r =>
    obtain ⟨_, _, _, _, _, _, _, h⟩ := revoke_cases h
    exact apart_send h
  | addDevice t publicKey joiner token r =>
    obtain ⟨_, _, _, _, _, _, _, _, _, _, _, _, h⟩ := addDevice_cases h
    have hs := apart_send h
    exact ⟨hs.handed, hs.keyOf, hs.db⟩
  | serve r now limited => exact absurd rfl (hl r now limited)
  | resend t r =>
    obtain ⟨_, _, h⟩ := resend_cases h
    exact apart_send h
  | giveUp t =>
    obtain ⟨_, _, rfl⟩ := giveUp_cases h
    exact apart_finish s t _
  | receive t r trusted newKey =>
    obtain ⟨_, _, _, _, _, _, _, _, h⟩ := receive_cases h
    exact apart_received h
  | restart publicKey =>
    obtain ⟨c, _, rfl⟩ := restart_cases h
    exact ⟨rfl, rfl, _, rfl⟩

theorem Confined.apart (h : Confined s) (ha : Apart s s') : Confined s' := by
  obtain ⟨pairing, hdb⟩ := ha.db
  constructor
  · rw [ha.handed, ha.keyOf]
    exact h.known
  · rw [hdb]
    exact h.rows
  · rw [ha.handed, ha.keyOf, hdb]
    exact h.holders

@[simp] theorem handedBy_same {pc : Pc} {stage : Stage} : handedBy pc stage stage = [] := by
  cases stage <;> cases pc <;> rfl

theorem handedBy_listing {pc : Pc} {auth : AuthContext} {resp : DevicesListResponse} :
    handedBy pc (.authed auth) (.answered (.listing resp)) = [] := by cases pc <;> rfl

theorem handedBy_ready_ok {pc : Pc} {auth : AuthContext} :
    handedBy pc (.ready auth) (.answered .ok) = [] := by cases pc <;> rfl

theorem handedBy_of_isQuiet {pc : Pc} {stage stage' : Stage} (h : stage'.isQuiet) :
    handedBy pc stage stage' = [] := by
  unfold handedBy
  split
  · cases h
  · cases h
  · cases h
  · rfl

/-- A step that leaves the epoch, the flag and everybody's standing alone, and hands
keys of the space to active devices only. -/
theorem Confined.keep (h : Confined s) {server : Server} {keys : List (DeviceId × GroupKey)}
    (hep : server.db.keyEpoch = s.db.keyEpoch)
    (hpe : server.db.rotationPending = false → s.db.rotationPending = false)
    (hact : ∀ i, s.db.isActive i = true → server.db.isActive i = true)
    (hrows : ∀ row ∈ server.db.keyDistribution, row ∈ s.db.keyDistribution)
    (hkeys : ∀ q ∈ keys, server.db.isActive q.1 = true ∧ ∃ e, s.keyOf e = some q.2) :
    Confined { s with server, handed := keys ++ s.handed } := by
  refine ⟨?_, fun row hr => hact _ (h.rows row (hrows row hr)), ?_⟩
  · intro i k hk
    rcases List.mem_append.mp hk with hk | hk
    · exact (hkeys _ hk).2
    · exact h.known i k hk
  · intro hp i k hh hk
    have hk' : s.keyOf s.db.keyEpoch = some k := hep ▸ hk
    rcases List.mem_append.mp hh with hh | hh
    · exact (hkeys _ hh).1
    · exact hact i (h.holders (hpe hp) i k hh hk')

/-- A rotation that goes through seals the new key to the devices that are active. -/
theorem Confined.rotated (ha : Agreed s) (h : Confined s) {body : RotateKeyRequest}
    {auth : AuthContext} {db₁ : SpaceDb} {newKey : GroupKey} {flights : RequestId → Option Flight}
    (hsent : s.sent r = some task) (hpc : task.pc = .rotating body.epoch newKey body.wraps)
    (hin : rotateKey.Inserted body.epoch auth.groupKeyEpoch body.wraps s.db db₁)
    (hp : rotateKey.Prepared auth body s.db) (hnext : body.epoch = auth.groupKeyEpoch + 1) :
    Confined { s with
      server := ⟨{ rotateKey.ownAdopted auth.deviceId body.epoch auth.groupKeyEpoch db₁ with
        keyEpoch := body.epoch, rotationPending := false }, flights⟩
      keyOf := record s.keyOf body.epoch newKey
      handed := [(auth.deviceId, newKey)] ++ s.handed } := by
  have hep := hp.epoch
  have hmint := (ha.sent r task hsent).2
  rw [hpc] at hmint
  have hunknown : ∀ e, s.keyOf e ≠ some newKey := by
    intro e he
    have hee : e = body.epoch := Option.some.inj ((ha.minted e newKey he).symm.trans hmint.1)
    have hle := ha.reached e newKey he
    omega
  have hact : ∀ i, s.db.isActive i = true →
      (rotateKey.ownAdopted auth.deviceId body.epoch auth.groupKeyEpoch db₁).isActive i = true := by
    intro i hi
    rw [rotateKey.isActive_ownAdopted, SpaceDb.isActive, hin.devices]
    exact hi
  refine ⟨?_, ?_, ?_⟩
  · intro i k hk
    rcases List.mem_append.mp hk with hk | hk
    · obtain ⟨rfl, rfl⟩ := Prod.mk.inj (List.mem_singleton.mp hk)
      exact ⟨body.epoch, record_self⟩
    · obtain ⟨e, he⟩ := h.known i k hk
      have hle := ha.reached e k he
      have hne : e ≠ body.epoch := by omega
      exact ⟨e, (record_ne hne).trans he⟩
  · intro row hrow
    rcases (hin.mem row).mp hrow with hrow | ⟨w, hw, rfl⟩
    · exact hact _ (h.rows row hrow)
    · exact hact _ (rotateKey.mem_landing.mp hw).2.2
  · intro _ i k hh hk
    have hkey : newKey = k := Option.some.inj (record_self.symm.trans hk)
    rcases List.mem_append.mp hh with hh | hh
    · obtain ⟨rfl, -⟩ := Prod.mk.inj (List.mem_singleton.mp hh)
      obtain ⟨d, hd, hid, hda, _⟩ := hp.caller
      exact hact _ (SpaceDb.isActive_iff.mpr ⟨d, hd, hid, hda⟩)
    · obtain ⟨e, he⟩ := h.known i k hh
      exact absurd (hkey ▸ he) (hunknown e)

theorem Confined.serve (hw : Wired s) (ha : Agreed s) (h : Confined s) {now : ℕ} {limited : Bool}
    (hok : WholeBatch s (.serve r now limited)) (hs : s.serve r now limited = some s') :
    Confined s' := by
  obtain ⟨task, request, stage, db', stage', hsent, hreq, hf, heff, _, rfl⟩ := hw.served hs
  have hnokeys : ∀ {db₁ : SpaceDb}, ∀ q ∈ ([] : List (DeviceId × GroupKey)),
      db₁.isActive q.1 = true ∧ ∃ e, s.keyOf e = some q.2 := fun q hq => nomatch hq
  cases heff with
  | same =>
    rw [keyOfAfter_same, handedBy_same]
    exact h.keep rfl id (fun _ => id) (fun _ => id) hnokeys
  | checked hq _ _ =>
    rw [keyOfAfter_eq (fun resp he => by simp [he, Stage.isQuiet] at hq), handedBy_of_isQuiet hq]
    exact h.keep rfl id (fun _ => id) (fun _ => id) hnokeys
  | @served auth =>
    rw [keyOfAfter_eq (by simp), Pc.eq_polling hreq]
    refine h.keep rfl id (fun _ => id) (fun _ => id) ?_
    intro q hq
    obtain ⟨d, hd, rfl⟩ := List.mem_map.mp hq
    have hrow := mem_pendingKeysFor.mp hd
    exact ⟨h.rows _ hrow, _, ha.rows _ hrow⟩
  | listed =>
    rw [keyOfAfter_eq (by simp), handedBy_listing]
    exact h.keep rfl id (fun _ => id) (fun _ => id) hnokeys
  | rotated hin hp hnext =>
    obtain ⟨newKey, hpc⟩ := Pc.eq_rotating hreq
    simp only [hpc, keyOfAfter, handedBy]
    exact h.rotated ha hsent hpc hin hp hnext
  | @refused body auth db' e hnd hfin =>
    have hquiet : Stage.isQuiet (.answered (.error e)) := trivial
    rw [keyOfAfter_eq (by simp), handedBy_of_isQuiet hquiet]
    rcases rotateKey.refused_of_whole hnd hfin (hok _ hf) with rfl | rfl
    · exact h.keep rfl id (fun _ => id) (fun _ => id) hnokeys
    · exact h.keep rfl id (fun i hi => by rwa [rotateKey.isActive_ownAdopted]) (fun _ => id) hnokeys
  | acked =>
    rw [keyOfAfter_eq (by simp), handedBy_ready_ok]
    exact h.keep rfl id (fun i hi => by rwa [ackKey.isActive_run])
      (fun _ hr => (ackKey.mem_run_keyDistribution.mp hr).1) hnokeys
  | revoked =>
    rw [keyOfAfter_eq (by simp), handedBy_ready_ok]
    refine ⟨h.known, fun row hr => ?_, fun hp => ?_⟩
    · have hrow := revokeDevice.mem_run_keyDistribution.mp hr
      exact revokeDevice.isActive_run (h.rows row hrow.1) hrow.2
    · cases hp
  | @paired pairingId body device hg ht =>
    rw [keyOfAfter_eq (by simp), Pc.eq_linking hreq]
    have hbody := (ha.sent r task hsent).2
    rw [Pc.eq_linking hreq] at hbody
    refine h.keep rfl id (fun i hi => ?_) (fun _ => id) ?_
    · exact completePairing.isActive_registered (Or.inr hi)
    · intro q hq
      obtain rfl := List.mem_singleton.mp hq
      exact ⟨completePairing.isActive_registered (Or.inl rfl), _, hbody⟩

theorem confined_created {groupId : GroupId} {founder : SlotDevice} {pairingId : PairingId}
    {token : Token} {key : GroupKey} {elsewhere : List DeviceId} :
    Confined (World.created groupId founder pairingId token key elsewhere) := by
  refine ⟨?_, fun _ h => (nomatch h), ?_⟩
  · intro i k hk
    obtain ⟨rfl, rfl⟩ := Prod.mk.inj (List.mem_singleton.mp hk)
    have hkey : record (fun _ => none) INITIAL_KEY_EPOCH k INITIAL_KEY_EPOCH = some k := record_self
    exact ⟨INITIAL_KEY_EPOCH, hkey⟩
  · intro _ i k hk _
    obtain ⟨rfl, rfl⟩ := Prod.mk.inj (List.mem_singleton.mp hk)
    exact SpaceDb.isActive_iff.mpr ⟨_, Table.mem_singleton.mpr rfl, rfl, rfl⟩

/-- A step whose batch goes through as a whole keeps the keys confined. -/
theorem confined_step {l : Label} (hw : Wired s) (ha : Agreed s) (h : Confined s)
    (hok : WholeBatch s l) (hs : s.step l = some s') : Confined s' := by
  cases l with
  | serve r now limited => exact h.serve hw ha hok hs
  | _ => exact h.apart (apart_step (by intros; simp) hs)

/-- In every run whose rotation batches land no wrap without going through: while no
rotation is owed, no keyring holds for the group's epoch a key that a revoked device
was ever handed. -/
theorem revocation_ends_key_access {groupId : GroupId} {founder : SlotDevice}
    {pairingId : PairingId}
    {token : Token} {key : GroupKey} {elsewhere : List DeviceId} (hid : founder.id ∉ elsewhere)
    (h : Runs.ReachableVia step WholeBatch
      (World.created groupId founder pairingId token key elsewhere) s)
    (hp : s.db.rotationPending = false) :
    ∀ d ∈ s.db.devices, d.active = false → ∀ k, (d.id, k) ∈ s.handed →
      ∀ p, ¬ Holds s p s.db.keyEpoch k := by
  have hw := wired_of_reachableVia hid h
  have ha := agreed_of_reachableVia hid h
  have hc : Confined s := by
    apply h.invariant_with (I := fun s => Wired s ∧ Agreed s)
      (fun s hs => ⟨wired_of_reachableVia hid hs, agreed_of_reachableVia hid hs⟩) confined_created
    intro s l t hI hc hok hs
    exact confined_step hI.1 hI.2 hc hok hs
  intro d hd hrev k hk p hholds
  have hact := hc.holders hp d.id k hk (ha.holds hw hholds)
  obtain ⟨d', hd', hid', ha'⟩ := SpaceDb.isActive_iff.mp hact
  obtain rfl := Table.eq_of_key hd' hd hid'
  simp [ha'] at hrev

theorem revocation_ends_key_access_wholeRun :
    ∃ s, Runs.replayVia step WholeBatch splitStart wholeRun = some s ∧
      ∀ d ∈ s.db.devices, d.active = false → ∀ k, (d.id, k) ∈ s.handed →
        ∀ p, ¬ Holds s p s.db.keyEpoch k := by
  have hend : (Runs.replayVia step WholeBatch splitStart wholeRun).any
      (fun s => decide (s.db.rotationPending = false)) = true := by decide +kernel
  obtain ⟨s, hs, hp⟩ := (Option.any_eq_true ..).mp hend
  exact ⟨s, hs, revocation_ends_key_access (by decide) (Runs.reachableVia_of_replayVia hs)
    (of_decide_eq_true hp)⟩

/-- Device 3 was handed the wrap of a rotation that lost, and was then revoked. The
owner adopted the same wrap, and no rotation is owed. -/
theorem revoked_device_was_handed_current_key :
    ∃ s, Runs.Reachable step splitStart s ∧ s.db.rotationPending = false ∧
      (∃ d ∈ s.db.devices, d.id = 3 ∧ d.active = false) ∧ (3, 2002) ∈ s.handed ∧
      s.db.isActive 1 = true ∧ s.db.keyEpoch = 2 ∧ Holds s 101 2 2002 := by
  obtain ⟨s, hs, hp, hd, hh, ha, he, hk⟩ :=
    @Runs.exists_reachable_of_replay _ _ step splitStart splitRun
    (fun s => s.db.rotationPending = false ∧ (∃ d ∈ s.db.devices, d.id = 3 ∧ d.active = false) ∧
      (3, 2002) ∈ s.handed ∧ s.db.isActive 1 = true ∧ s.db.keyEpoch = 2 ∧
        savedHolds s 101 2 2002 = true) _ (by decide +kernel)
  exact ⟨s, hs, hp, hd, hh, ha, he, holds_of_savedHolds hk⟩

end SendSelf.World
