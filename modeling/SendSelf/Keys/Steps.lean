import SendSelf.Keys.World

/-!
# What each step of the system does

One inversion lemma for each label that has cases. A step of a task changes the
record of its own device and then either ends the task or puts its next request
on its way, so an invariant is checked for these few changes and for the effects
of the server's steps.
-/
namespace SendSelf.World

variable {s s' : World} {t : TaskId} {r : RequestId} {task : Task}

theorem send_eq_some (h : s.send t task r = some s') : s.server.flights r = none ∧
    s' = { s with
      server := ⟨s.db, Function.update s.server.flights r
        (some ⟨task.session.token, task.pc.request, .received⟩)⟩
      tasks := Function.update s.tasks t (some { task with awaiting := r })
      sent := Function.update s.sent r (some { task with awaiting := r }) } := by
  obtain ⟨server, hs, rfl⟩ := Option.map_eq_some_iff.mp h
  unfold Server.receive at hs
  split at hs
  · next hf =>
    obtain rfl := Option.some.inj hs
    exact ⟨hf, rfl⟩
  · cases hs

/-- How a task of device `c` ends or goes on after a change of the device's record. -/
inductive Continues (s : World) (t : TaskId) (task : Task) (r : RequestId) : World → Prop
  | ends : Continues s t task r (s.finish t task)
  | lists {s' : World} (h : s.send t { task with pc := .listing, attempt := 0 } r = some s') :
      Continues s t task r s'

theorem afterAdopting_continues {rotationPending : Bool}
    (h : s.afterAdopting t task rotationPending r = some s') : Continues s t task r s' := by
  unfold afterAdopting at h
  split_ifs at h
  · exact .lists h
  · obtain rfl := Option.some.inj h
    exact .ends

/-- What a task does with the answer it gets, for the device's record `c` and the
stage `stage` of its request. -/
inductive Received (s : World) (t : TaskId) (task : Task) (c : Client) (stage : Stage)
    (newKey : GroupKey) (r : RequestId) : World → Prop
  | ended (lost : ∀ e k ws resp, task.pc = .rotating e k ws → stage ≠ .answered (.rotated resp)) :
      Received s t task c stage newKey r (s.finish t task)
  | empty {s' : World} (pc : task.pc = .polling) (h : Continues s t task r s') :
      Received s t task c stage newKey r s'
  | adopted {s' : World} {resp : PendingMessagesResponse} {ring : Keyring} {highest : ℕ}
      (pc : task.pc = .polling) (answer : stage = .answered (.pending resp)) (keys : resp.keys ≠ [])
      (pos : 0 < highest)
      (updated : adoptPendingKeys.updated task.publicKey task.session task.ring resp.keys =
        some (ring, highest))
      (h : (s.setClient task.publicKey { c with saved := some ring }).send t
        { task with ring, pc := .acking highest resp.rotationPending, attempt := 0 } r = some s') :
      Received s t task c stage newKey r s'
  | adoptedNone {s' : World} {resp : PendingMessagesResponse} {ring : Keyring} {highest : ℕ}
      (pc : task.pc = .polling) (answer : stage = .answered (.pending resp)) (keys : resp.keys ≠ [])
      (updated : adoptPendingKeys.updated task.publicKey task.session task.ring resp.keys =
        some (ring, highest))
      (h : Continues ((s.setClient task.publicKey { c with saved := some ring }).setClient
        task.publicKey { c with saved := some ring, memory := some ring }) t { task with
          ring } r s') :
      Received s t task c stage newKey r s'
  | acked {s' : World} {epoch : ℕ} {rotationPending : Bool}
      (pc : task.pc = .acking epoch rotationPending)
      (h : Continues (s.setClient task.publicKey { c with memory := some task.ring }) t task r s') :
      Received s t task c stage newKey r s'
  | listed {s' : World} {resp : DevicesListResponse} (pc : task.pc = .listing)
      (answer : stage = .answered (.listing resp)) (fresh : s.minted newKey = none)
      (h : (s.mintKey newKey (resp.keyEpoch + 1)).send t
        { task with
          pc := .rotating (resp.keyEpoch + 1) newKey
            (rotateGroupKey.wraps task.session resp.devices (resp.keyEpoch + 1) newKey)
          attempt := 0 } r = some s') :
      Received s t task c stage newKey r s'
  | won {resp : RotateKeyResponse} {epoch : ℕ} {key : GroupKey} {wraps : List KeyWrap}
      (pc : task.pc = .rotating epoch key wraps) (answer : stage = .answered (.rotated resp)) :
      Received s t task c stage newKey r ((s.setClient task.publicKey
        { c with saved := some (withEpoch task.ring resp.epoch key),
                 memory := some (withEpoch task.ring resp.epoch key) }).finish t task)
  | revoked {s' : World} {ring : Keyring} {deviceId : DeviceId} (pc : task.pc = .revoking deviceId)
      (memory : c.memory = some ring)
      (h : s.send t { task with ring, pc := .listing, attempt := 0 } r = some s') :
      Received s t task c stage newKey r s'

theorem receive_cases {trusted : Bool} {newKey : GroupKey}
    (h : s.receive t r trusted newKey = some s') :
    ∃ task c f a, s.tasks t = some task ∧ s.clients task.publicKey = some c ∧
      s.server.flights task.awaiting = some f ∧ f.stage = .answered a ∧
      Received s t task c f.stage newKey r s' := by
  simp only [receive, Option.bind_eq_bind, Option.bind_eq_some_iff] at h
  obtain ⟨task, ht, c, hc, f, hf, h⟩ := h
  split at h
  · next e hst =>
    split_ifs at h
    obtain rfl := Option.some.inj h
    refine ⟨task, c, f, .error e, ht, hc, hf, hst, .ended fun _ _ _ resp _ hr => ?_⟩
    simp [hst] at hr
  · next resp hpc hst =>
    refine ⟨task, c, f, .pending resp, ht, hc, hf, hst, ?_⟩
    unfold adopt at h
    split_ifs at h with hk
    · exact .empty hpc (afterAdopting_continues h)
    · split at h
      · obtain rfl := Option.some.inj h
        refine .ended fun _ _ _ _ hp _ => ?_
        simp [hpc] at hp
      · next ring highest hu =>
        dsimp only at h
        split_ifs at h with hpos
        · exact .adopted hpc hst hk hpos hu h
        · exact .adoptedNone hpc hst hk hu (afterAdopting_continues h)
  · next epoch rotationPending hpc hst =>
    exact ⟨task, c, f, .ok, ht, hc, hf, hst, .acked hpc (afterAdopting_continues h)⟩
  · next resp hpc hst =>
    refine ⟨task, c, f, .listing resp, ht, hc, hf, hst, ?_⟩
    unfold rotate at h
    split_ifs at h with h₁ h₂
    · obtain rfl := Option.some.inj h
      refine .ended fun _ _ _ _ hp _ => ?_
      simp [hpc] at hp
    · exact .listed hpc hst (by simpa using h₂) h
  · next epoch key wraps resp hpc hst =>
    obtain rfl := Option.some.inj h
    exact ⟨task, c, f, .rotated resp, ht, hc, hf, hst, .won hpc hst⟩
  · next deviceId hpc hst =>
    refine ⟨task, c, f, .ok, ht, hc, hf, hst, ?_⟩
    split at h
    · obtain rfl := Option.some.inj h
      refine .ended fun _ _ _ _ hp _ => ?_
      simp [hpc] at hp
    · next ring hm => exact .revoked hpc hm h
  · next hpc hst =>
    obtain rfl := Option.some.inj h
    refine ⟨task, c, f, .ok, ht, hc, hf, hst, .ended fun _ _ _ _ hp _ => ?_⟩
    simp [hpc] at hp
  · cases h

/-- A request on its way goes on by itself; the server learns of no task. -/
theorem serve_cases {now : ℕ} {limited : Bool} (h : s.serve r now limited = some s') :
    ∃ task f, s.sent r = some task ∧ s.server.flights r = some f ∧
      ∃ next, next = f.request.advance now limited f.token s.db f.stage ∧
        s' = { s with
          server := ⟨next.1, Function.update s.server.flights r (some { f with stage := next.2 })⟩
          keyOf := keyOfAfter s.keyOf task.pc f.stage next.2
          handed := handedBy task.pc f.stage next.2 ++ s.handed } := by
  simp only [serve, Option.bind_eq_bind, Option.bind_eq_some_iff] at h
  obtain ⟨task, ht, f, hf, server, hs, h⟩ := h
  simp only [Server.advance, hf, Option.map_some, Option.some.injEq] at hs
  subst hs
  exact ⟨task, f, ht, hf, _, rfl, (Option.some.inj h).symm⟩

theorem syncNow_cases {publicKey : PublicKey} (h : s.syncNow t publicKey r = some s') :
    ∃ c session ring, s.clients publicKey = some c ∧ c.session = some session ∧
      c.memory = some ring ∧ s.tasks t = none ∧
      (s.setClient publicKey { c with running := true }).send t
        { publicKey, session, ring, sync := true, pc := .polling, attempt := 0, awaiting := r } r =
          some s' := by
  simp only [syncNow, Option.bind_eq_bind, Option.bind_eq_some_iff] at h
  obtain ⟨c, hc, session, hsess, ring, hring, h⟩ := h
  split_ifs at h with hb
  push Not at hb
  exact ⟨c, session, ring, hc, hsess, hring, by simpa using hb.2, h⟩

theorem revoke_cases {publicKey : PublicKey} {deviceId : DeviceId}
    (h : s.revoke t publicKey deviceId r = some s') :
    ∃ c session ring, s.clients publicKey = some c ∧ c.session = some session ∧
      c.memory = some ring ∧ s.tasks t = none ∧ s.send t
        { publicKey, session, ring, sync := false, pc := .revoking deviceId, attempt := 0,
          awaiting := r } r = some s' := by
  simp only [revoke, Option.bind_eq_bind, Option.bind_eq_some_iff] at h
  obtain ⟨c, hc, session, hsess, ring, hring, h⟩ := h
  split_ifs at h with hb
  exact ⟨c, session, ring, hc, hsess, hring, by simpa using hb, h⟩

theorem addDevice_cases {publicKey joiner : PublicKey} {token : Token}
    (h : s.addDevice t publicKey joiner token r = some s') :
    ∃ c session ring j key, s.clients publicKey = some c ∧ c.session = some session ∧
      c.memory = some ring ∧ s.clients joiner = some j ∧ keyForEpoch ring ring.current = some key ∧
      s.owner token = none ∧ s.tasks t = none ∧ (s.mintToken token joiner).send t
        { publicKey, session, ring, sync := false,
          pc := .linking j.pairingId
            { wrappedPackage := wrapPairingPackage joiner
                ⟨key, ring.current, token, session.groupId⟩ j.pairingId
              scannedPublicKey := joiner
              scannedSigningPublicKey := j.signingPublicKey
              deviceAuthTokenHash := sha256Hex token
              keyEpoch := ring.current },
          attempt := 0, awaiting := r } r = some s' := by
  simp only [addDevice, Option.bind_eq_bind, Option.bind_eq_some_iff] at h
  obtain ⟨c, hc, session, hsess, ring, hring, j, hj, body, hb, h⟩ := h
  split_ifs at h with hfree
  obtain ⟨key, hkey, rfl⟩ := Option.map_eq_some_iff.mp hb
  push Not at hfree
  exact ⟨c, session, ring, j, key, hc, hsess, hring, hj, hkey, by simpa using hfree.2,
    by simpa using hfree.1, h⟩

theorem resend_cases (h : s.resend t r = some s') : ∃ task, s.tasks t = some task ∧
    s.send t { task with attempt := task.attempt + 1 } r = some s' := by
  simp only [resend, Option.bind_eq_bind, Option.bind_eq_some_iff] at h
  obtain ⟨task, ht, h⟩ := h
  split_ifs at h
  exact ⟨task, ht, h⟩

theorem giveUp_cases (h : s.giveUp t = some s') :
    ∃ task, s.tasks t = some task ∧ s' = s.finish t task := by
  simp only [giveUp, Option.bind_eq_bind, Option.bind_eq_some_iff] at h
  obtain ⟨task, ht, h⟩ := h
  split_ifs at h
  exact ⟨task, ht, (Option.some.inj h).symm⟩

theorem restart_cases {publicKey : PublicKey} (h : s.restart publicKey = some s') :
    ∃ c, s.clients publicKey = some c ∧ s' = { s with
      tasks := fun t => (s.tasks t).filter fun task => decide (task.publicKey ≠ publicKey)
      clients := Function.update s.clients publicKey
        (some { c with memory := c.saved, running := false }) } := by
  obtain ⟨c, hc, rfl⟩ := Option.map_eq_some_iff.mp h
  exact ⟨c, hc, rfl⟩

/-- A joining client has a slot of its own, and no session yet. -/
theorem join_cases {publicKey : PublicKey} {device : SlotDevice} {pairingId : PairingId}
    (h : s.join publicKey device pairingId = some s') :
    s.clients publicKey = none ∧ device.publicKey = publicKey ∧
      (∀ p ∈ s.db.pairing, p.pairingId ≠ pairingId) ∧
      s' = { s with
        server := s.server.reserve pairingId device
        joined := (device.id, pairingId) :: s.joined }.setClient publicKey
          ⟨device.id, pairingId, device.signingPublicKey, none, none, none, false⟩ := by
  unfold join at h
  split at h
  · cases h
  · next hc =>
    split_ifs at h with hg
    refine ⟨hc, hg.1, ?_, (Option.some.inj h).symm⟩
    intro p hp he
    exact hg.2 (Table.exist_iff.mpr ⟨p, hp, by simpa using he⟩)

/-- A package opens for the client that it was wrapped for. -/
theorem openPackage_cases {publicKey : PublicKey} (h : s.openPackage publicKey = some s') :
    ∃ c slot package payload, s.clients publicKey = some c ∧ slot ∈ s.db.pairing ∧
      slot.pairingId = c.pairingId ∧ slot.wrappedPackage = some package ∧
      package = wrapPairingPackage publicKey payload c.pairingId ∧ c.session = none ∧
      s' = s.setClient publicKey
        { c with session := some ⟨c.deviceId, payload.deviceAuthToken, payload.groupId⟩
                 saved := some (createKeyring payload.groupKey payload.keyEpoch)
                 memory := some (createKeyring payload.groupKey payload.keyEpoch) } := by
  simp only [openPackage, Option.bind_eq_bind, Option.bind_eq_some_iff] at h
  obtain ⟨c, hc, slot, hslot, package, hp, payload, hpl, h⟩ := h
  split_ifs at h with hs
  have hmem := Table.get?_eq_some.mp hslot
  have hopen := Box.openWith_eq_some.mp hpl
  refine ⟨c, slot, package, payload, hc, hmem.1, hmem.2, hp, ?_, by simpa using hs,
    (Option.some.inj h).symm⟩
  rw [wrapPairingPackage, ← hopen.1, ← hopen.2.1, ← hopen.2.2]

/-- Ending a task touches the record of its device only in the flag of the sync loop. -/
theorem finish_cases (s : World) (t : TaskId) (task : Task) :
    s.finish t task = { s with tasks := Function.update s.tasks t none } ∨
      ∃ c, s.clients task.publicKey = some c ∧ s.finish t task =
        { s with tasks := Function.update s.tasks t none }.setClient task.publicKey
          { c with running := false } := by
  unfold finish
  split
  · next c _ hc => exact Or.inr ⟨c, hc, rfl⟩
  · exact Or.inl rfl

end SendSelf.World
