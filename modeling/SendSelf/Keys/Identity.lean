import SendSelf.Keys.Agreement

/-!
# Who is who

When every joining device mints an id and a slot of its own, a device's row, its
slot, its token and its keys all belong to one client: a token authenticates the
client it was minted for, a wrap for a device id is sealed to that device's key,
and the package in a slot opens for the client that made the slot.
-/
namespace SendSelf.World

open WriteOnce

/-- What a request carries is addressed to the devices it names. -/
def PcAddressed (s : World) : Pc → Prop
  | .rotating epoch newKey wraps => ∀ w ∈ wraps, ∃ p c, s.clients p = some c ∧
      c.deviceId = w.deviceId ∧
        w.wrappedKey = wrapRotatedKey p newKey s.db.groupId epoch w.deviceId
  | .linking pairingId body => ∃ c key token, s.clients body.scannedPublicKey = some c ∧
      c.pairingId = pairingId ∧ body.wrappedPackage = wrapPairingPackage body.scannedPublicKey
        ⟨key, body.keyEpoch, token, s.db.groupId⟩ pairingId ∧
      body.deviceAuthTokenHash = sha256Hex token ∧ s.owner token = some body.scannedPublicKey
  | _ => True

/-- The caller, the joining device and the listed devices a handler has read. -/
structure StageIdentified (s : World) (task : Task) (stage : Stage) : Prop where
  auth : ∀ auth, stage.auth = some auth →
    ∃ c, s.clients task.publicKey = some c ∧ auth.deviceId = c.deviceId
  device : ∀ device, stage.device = some device → ∃ pairingId body c,
    task.pc = .linking pairingId body ∧ s.clients device.publicKey = some c ∧
      c.deviceId = device.id ∧ c.pairingId = pairingId ∧ device.publicKey = body.scannedPublicKey
  listing : ∀ resp, stage = .answered (.listing resp) → ∀ i ∈ resp.devices,
    ∃ c, s.clients i.publicKey = some c ∧ c.deviceId = i.id

structure Identified (s : World) : Prop where
  ids : ∀ p q c c', s.clients p = some c → s.clients q = some c' → c.deviceId = c'.deviceId → p = q
  pids : ∀ p q c c', s.clients p = some c → s.clients q = some c' →
    c.pairingId = c'.pairingId → p = q
  joined : ∀ p c, s.clients p = some c → (c.deviceId, c.pairingId) ∈ s.joined
  unopened : ∀ p c, s.clients p = some c → c.session = none → c.saved = none
  session : ∀ p c session, s.clients p = some c → c.session = some session →
    s.owner session.token = some p ∧ session.deviceId = c.deviceId ∧ session.groupId = s.db.groupId
  devices : ∀ d ∈ s.db.devices, (∃ c, s.clients d.publicKey = some c ∧ c.deviceId = d.id) ∧
    s.owner d.authTokenHash.preimage = some d.publicKey
  slots : ∀ slot ∈ s.db.pairing, ∃ c, s.clients slot.newDevice.publicKey = some c ∧
    c.deviceId = slot.newDevice.id ∧ c.pairingId = slot.pairingId
  vacant : ∀ slot ∈ s.db.pairing, slot.wrappedPackage = none →
    (∀ d ∈ s.db.devices, d.publicKey ≠ slot.newDevice.publicKey) ∧
      ∀ c, s.clients slot.newDevice.publicKey = some c → c.session = none
  packages : ∀ slot ∈ s.db.pairing, ∀ p, slot.wrappedPackage = some p →
    s.owner p.payload.deviceAuthToken = some slot.newDevice.publicKey ∧
      p.payload.groupId = s.db.groupId ∧ ∀ d ∈ s.db.devices,
        d.publicKey = slot.newDevice.publicKey → d.nameKeyEpoch = p.payload.keyEpoch
  sent : ∀ r task, s.sent r = some task →
    (∃ c, s.clients task.publicKey = some c ∧ c.session = some task.session) ∧ PcAddressed s task.pc
  stages : ∀ r task f, s.sent r = some task → s.server.flights r = some f →
    StageIdentified s task f.stage
  rows : ∀ row ∈ s.db.keyDistribution, ∃ d ∈ s.db.devices, d.id = row.deviceId ∧ d.active = true ∧
    ∃ key, row.wrappedKey = wrapRotatedKey d.publicKey key s.db.groupId row.epoch d.id

/-- The guard: a joining device mints an id and a slot nobody has used. -/
def FreshIdentity (s : World) : Label → Prop
  | .join _ device pairingId => ∀ q ∈ s.joined, q.1 ≠ device.id ∧ q.2 ≠ pairingId
  | _ => True

/-- What is known of the clients only grows: records keep their ids and sessions. -/
structure Knows (s s' : World) : Prop where
  clients : ∀ p c, s.clients p = some c → ∃ c', s'.clients p = some c' ∧ c'.deviceId = c.deviceId ∧
    c'.pairingId = c.pairingId ∧ ∀ session, c.session = some session → c'.session = some session
  owner : Below s.owner s'.owner
  groupId : s'.db.groupId = s.db.groupId

variable {s s' : World} {t : TaskId} {r : RequestId} {task : Task}

theorem Knows.refl (s : World) : Knows s s :=
  ⟨fun _ c hc => ⟨c, hc, rfl, rfl, fun _ h => h⟩, .refl _, rfl⟩

theorem PcAddressed.mono {pc : Pc} (h : PcAddressed s pc) (hk : Knows s s') :
    PcAddressed s' pc := by
  cases pc with
  | rotating epoch newKey wraps =>
    intro w hw
    obtain ⟨p, c, hc, hi, hwk⟩ := h w hw
    obtain ⟨c', hc', hi', _, _⟩ := hk.clients p c hc
    exact ⟨p, c', hc', hi'.trans hi, by rw [hk.groupId]; exact hwk⟩
  | linking pairingId body =>
    obtain ⟨c, key, token, hc, hp, hb, ht, ho⟩ := h
    obtain ⟨c', hc', _, hp', _⟩ := hk.clients _ c hc
    exact ⟨c', key, token, hc', hp'.trans hp, by rw [hk.groupId]; exact hb, ht, hk.owner _ _ ho⟩
  | _ => trivial

theorem StageIdentified.mono {stage : Stage} (h : StageIdentified s task stage) (hk : Knows s s') :
    StageIdentified s' task stage := by
  refine ⟨?_, ?_, ?_⟩
  · intro auth ha
    obtain ⟨c, hc, hi⟩ := h.auth auth ha
    obtain ⟨c', hc', hi', _, _⟩ := hk.clients _ c hc
    exact ⟨c', hc', hi.trans hi'.symm⟩
  · intro device hd
    obtain ⟨pairingId, body, c, hpc, hc, hi, hp, hpk⟩ := h.device device hd
    obtain ⟨c', hc', hi', hp', _⟩ := hk.clients _ c hc
    exact ⟨pairingId, body, c', hpc, hc', hi'.trans hi, hp'.trans hp, hpk⟩
  · intro resp hr i hi
    obtain ⟨c, hc, hci⟩ := h.listing resp hr i hi
    obtain ⟨c', hc', hi', _, _⟩ := hk.clients _ c hc
    exact ⟨c', hc', hi'.trans hci⟩

/-- A stage that knows nobody. -/
theorem StageIdentified.of_none {stage : Stage} (ha : stage.auth = none) (hd : stage.device = none)
    (hl : ∀ resp, stage ≠ .answered (.listing resp)) : StageIdentified s task stage :=
  ⟨fun auth h => by simp [ha] at h, fun device h => by simp [hd] at h,
    fun resp h => absurd h (hl resp)⟩

theorem knows_setClient {publicKey : PublicKey} {c c' : Client} (hc : s.clients publicKey = some c)
    (hi : c'.deviceId = c.deviceId) (hp : c'.pairingId = c.pairingId)
    (hs : ∀ session, c.session = some session → c'.session = some session) :
    Knows s (s.setClient publicKey c') := by
  refine ⟨?_, .refl _, rfl⟩
  intro p a ha
  by_cases he : p = publicKey
  · subst he
    obtain rfl : c = a := Option.some.inj (hc.symm.trans ha)
    exact ⟨c', by simp [World.setClient], hi, hp, hs⟩
  · exact ⟨a, by
      simpa [World.setClient, Function.update_of_ne he] using ha, rfl, rfl, fun _ hse => hse⟩

/-- A change of a client's record that keeps its ids. -/
theorem Identified.update (h : Identified s) {publicKey : PublicKey} {c c' : Client}
    (hc : s.clients publicKey = some c) (hi : c'.deviceId = c.deviceId)
    (hp : c'.pairingId = c.pairingId)
    (hkeep : ∀ session, c.session = some session → c'.session = some session)
    (hsess : ∀ session, c'.session = some session → s.owner session.token = some publicKey ∧
      session.deviceId = c'.deviceId ∧ session.groupId = s.db.groupId)
    (hnone : c'.session = none → c'.saved = none)
    (hvac : ∀ slot ∈ s.db.pairing, slot.wrappedPackage = none →
      slot.newDevice.publicKey = publicKey → c'.session = none) :
    Identified (s.setClient publicKey c') := by
  have hback : ∀ p a, (s.setClient publicKey c').clients p = some a → (p = publicKey ∧ a = c') ∨
      (p ≠ publicKey ∧ s.clients p = some a) := by
    intro p a ha
    by_cases he : p = publicKey
    · subst he
      exact Or.inl ⟨rfl, by simpa [World.setClient, eq_comm] using ha⟩
    · exact Or.inr ⟨he, by simpa [World.setClient, Function.update_of_ne he] using ha⟩
  have hids : ∀ p a, (s.setClient publicKey c').clients p = some a → ∃ b, s.clients p = some b ∧
      a.deviceId = b.deviceId ∧ a.pairingId = b.pairingId := by
    intro p a ha
    rcases hback p a ha with ⟨rfl, rfl⟩ | ⟨_, ha⟩
    · exact ⟨c, hc, hi, hp⟩
    · exact ⟨a, ha, rfl, rfl⟩
  have hk := knows_setClient hc hi hp hkeep
  refine ⟨?_, ?_, ?_, ?_, ?_, ?_, ?_, ?_, h.packages, ?_, ?_, h.rows⟩
  · intro p q a a' ha ha' he
    obtain ⟨b, hb, hbi, _⟩ := hids p a ha
    obtain ⟨b', hb', hbi', _⟩ := hids q a' ha'
    exact h.ids p q b b' hb hb' (hbi.symm.trans (he.trans hbi'))
  · intro p q a a' ha ha' he
    obtain ⟨b, hb, _, hbp⟩ := hids p a ha
    obtain ⟨b', hb', _, hbp'⟩ := hids q a' ha'
    exact h.pids p q b b' hb hb' (hbp.symm.trans (he.trans hbp'))
  · intro p a ha
    obtain ⟨b, hb, hbi, hbp⟩ := hids p a ha
    rw [hbi, hbp]
    exact h.joined p b hb
  · intro p a ha hse
    rcases hback p a ha with ⟨_, rfl⟩ | ⟨_, ha⟩
    · exact hnone hse
    · exact h.unopened p a ha hse
  · intro p a session ha hse
    rcases hback p a ha with ⟨rfl, rfl⟩ | ⟨_, ha⟩
    · exact hsess session hse
    · exact h.session p a session ha hse
  · intro d hd
    obtain ⟨⟨b, hb, hbi⟩, ho⟩ := h.devices d hd
    obtain ⟨a, ha, hai, _⟩ := hk.clients _ b hb
    exact ⟨⟨a, ha, hai.trans hbi⟩, ho⟩
  · intro slot hslot
    obtain ⟨b, hb, hbi, hbp⟩ := h.slots slot hslot
    obtain ⟨a, ha, hai, hap, _⟩ := hk.clients _ b hb
    exact ⟨a, ha, hai.trans hbi, hap.trans hbp⟩
  · intro slot hslot hw
    refine ⟨(h.vacant slot hslot hw).1, fun a ha => ?_⟩
    rcases hback _ a ha with ⟨he, rfl⟩ | ⟨_, ha⟩
    · exact hvac slot hslot hw he
    · exact (h.vacant slot hslot hw).2 a ha
  · intro q task' hq
    obtain ⟨⟨b, hb, hbs⟩, hpc⟩ := h.sent q task' hq
    obtain ⟨a, ha, _, _, has⟩ := hk.clients _ b hb
    exact ⟨⟨a, ha, has _ hbs⟩, hpc.mono hk⟩
  · intro q task' f hq hf
    exact (h.stages q task' f hq hf).mono hk

/-- A change that keeps the session too. -/
theorem Identified.setClient (h : Identified s) {publicKey : PublicKey} {c c' : Client}
    (hc : s.clients publicKey = some c) (hi : c'.deviceId = c.deviceId)
    (hp : c'.pairingId = c.pairingId) (hs : c'.session = c.session)
    (hn : c.session = none → c'.saved = none) : Identified (s.setClient publicKey c') := by
  apply h.update hc hi hp
  · exact fun session hse => hs.trans hse
  · intro session hse
    rw [hi]
    exact h.session publicKey c session hc (hs.symm.trans hse)
  · exact fun hse => hn (hs.symm.trans hse)
  · intro slot hslot hw he
    exact hs.trans ((h.vacant slot hslot hw).2 c (he ▸ hc))

theorem Identified.send (h : Identified s) (hs : s.send t task r = some s')
    (hc : ∃ c, s.clients task.publicKey = some c ∧ c.session = some task.session)
    (hpc : PcAddressed s task.pc) : Identified s' := by
  obtain ⟨_, rfl⟩ := send_eq_some hs
  refine ⟨h.ids, h.pids, h.joined, h.unopened, h.session, h.devices, h.slots, h.vacant,
    h.packages, ?_, ?_,
    h.rows⟩
  · intro q task' hq
    by_cases he : q = r
    · subst he
      simp only [Function.update_self, Option.some.injEq] at hq
      subst hq
      exact ⟨hc, hpc.mono ⟨(Knows.refl s).clients, .refl _, rfl⟩⟩
    · simp only [Function.update_of_ne he] at hq
      have hold := h.sent q task' hq
      exact ⟨hold.1, hold.2.mono ⟨(Knows.refl s).clients, .refl _, rfl⟩⟩
  · intro q task' f hq hf
    by_cases he : q = r
    · subst he
      simp only [Function.update_self, Option.some.injEq] at hf
      subst hf
      exact .of_none rfl rfl fun _ hl => nomatch hl
    · simp only [Function.update_of_ne he] at hq hf
      exact (h.stages q task' f hq hf).mono ⟨(Knows.refl s).clients, .refl _, rfl⟩

theorem Identified.endTask (h : Identified s) (tasks : TaskId → Option Task) :
    Identified { s with tasks } := by
  have hk : Knows s { s with tasks } := ⟨(Knows.refl s).clients, .refl _, rfl⟩
  exact ⟨h.ids, h.pids, h.joined, h.unopened, h.session, h.devices, h.slots, h.vacant, h.packages,
    fun q task' hq => ⟨(h.sent q task' hq).1, (h.sent q task' hq).2.mono hk⟩,
    fun q task' f hq hf => (h.stages q task' f hq hf).mono hk, h.rows⟩

theorem Identified.finish (h : Identified s) : Identified (s.finish t task) := by
  have hend := h.endTask (Function.update s.tasks t none)
  rcases finish_cases s t task with he | ⟨c, hc, he⟩
  · rw [he]
    exact hend
  · rw [he]
    exact hend.setClient hc rfl rfl rfl fun hn => h.unopened _ c hc hn

theorem Identified.mintKey (h : Identified s) {newKey : GroupKey} {epoch : ℕ} :
    Identified (s.mintKey newKey epoch) := by
  have hk : Knows s (s.mintKey newKey epoch) := ⟨(Knows.refl s).clients, .refl _, rfl⟩
  exact ⟨h.ids, h.pids, h.joined, h.unopened, h.session, h.devices, h.slots, h.vacant, h.packages,
    fun q task' hq => ⟨(h.sent q task' hq).1, (h.sent q task' hq).2.mono hk⟩,
    fun q task' f hq hf => (h.stages q task' f hq hf).mono hk, h.rows⟩

theorem knows_mintToken {token : Token} {joiner : PublicKey} (hfree : s.owner token = none) :
    Knows s (s.mintToken token joiner) :=
  ⟨(Knows.refl s).clients, below_record joiner hfree, rfl⟩

theorem Identified.mintToken (h : Identified s) {token : Token} {joiner : PublicKey}
    (hfree : s.owner token = none) : Identified (s.mintToken token joiner) := by
  have hk : Knows s (s.mintToken token joiner) := knows_mintToken hfree
  refine ⟨h.ids, h.pids, h.joined, h.unopened, ?_, ?_, h.slots, h.vacant, ?_, ?_, ?_, h.rows⟩
  · intro p c session hc hs
    have hold := h.session p c session hc hs
    exact ⟨hk.owner _ _ hold.1, hold.2⟩
  · intro d hd
    exact ⟨(h.devices d hd).1, hk.owner _ _ (h.devices d hd).2⟩
  · intro slot hslot p hp
    have hold := h.packages slot hslot p hp
    exact ⟨hk.owner _ _ hold.1, hold.2⟩
  · intro q task' hq
    exact ⟨(h.sent q task' hq).1, (h.sent q task' hq).2.mono hk⟩
  · intro q task' f hq hf
    exact (h.stages q task' f hq hf).mono hk

theorem Identified.continues (h : Identified s) (hcont : Continues s t task r s')
    (hc : ∃ c, s.clients task.publicKey = some c ∧ c.session = some task.session) :
    Identified s' := by
  cases hcont with
  | ends => exact h.finish
  | lists hs => exact h.send hs hc trivial

theorem setClient_self {p : PublicKey} {c : Client} :
    (s.setClient p c).clients p = some c := by simp [World.setClient]

theorem Identified.received (h : Identified s) {c : Client} {stage : Stage} {newKey : GroupKey}
    (hc : s.clients task.publicKey = some c) (hsess : c.session = some task.session)
    (hst : StageIdentified s task stage) (hr : Received s t task c stage newKey r s') :
    Identified s' := by
  have hopen : c.session = none → ∀ saved : Option Keyring, saved = none := by
    intro hn
    simp [hn] at hsess
  cases hr with
  | ended => exact h.finish
  | empty _ hs => exact h.continues hs ⟨c, hc, hsess⟩
  | @adopted s' resp ring highest hpc ha _ _ hu hs =>
    have hset : Identified (s.setClient task.publicKey { c with saved := some ring }) :=
      h.setClient hc rfl rfl rfl fun hn => hopen hn _
    exact hset.send hs ⟨_, setClient_self, hsess⟩ trivial
  | @adoptedNone s' resp ring highest hpc ha _ hu hs =>
    have hset : Identified (s.setClient task.publicKey { c with saved := some ring }) :=
      h.setClient hc rfl rfl rfl fun hn => hopen hn _
    have happly : Identified ((s.setClient task.publicKey { c with saved := some ring }).setClient
        task.publicKey { c with saved := some ring, memory := some ring }) :=
      hset.setClient setClient_self rfl rfl rfl fun hn => hopen hn _
    exact happly.continues hs ⟨_, setClient_self, hsess⟩
  | acked hpc hs =>
    have hset : Identified (s.setClient task.publicKey { c with memory := some task.ring }) :=
      h.setClient hc rfl rfl rfl fun hn => hopen hn _
    exact hset.continues hs ⟨_, setClient_self, hsess⟩
  | listed hpc ha hfresh hs =>
    refine h.mintKey.send hs ⟨c, hc, hsess⟩ ?_
    intro w hw
    obtain ⟨i, hi, hid, hwk⟩ := rotateGroupKey.mem_wraps hw
    obtain ⟨c', hc', hci⟩ := hst.listing _ ha i hi
    have hgroup := (h.session _ c _ hc hsess).2.2
    exact ⟨i.publicKey, c', hc', hci.trans hid.symm, by rw [hwk, hgroup, hid]; rfl⟩
  | @won resp epoch key wraps hpc ha =>
    have hset : Identified (s.setClient task.publicKey
        { c with saved := some (withEpoch task.ring resp.epoch key),
                 memory := some (withEpoch task.ring resp.epoch key) }) :=
      h.setClient hc rfl rfl rfl fun hn => hopen hn _
    exact hset.finish
  | revoked hpc hm hs => exact h.send hs ⟨c, hc, hsess⟩ trivial

/-- The package in a client's own slot opens to a token minted for that client. -/
theorem Identified.openPackage (h : Identified s) {publicKey : PublicKey}
    (hs : s.openPackage publicKey = some s') : Identified s' ∧ Knows s s' := by
  obtain ⟨c, slot, package, payload, hc, hslot, hid, hp, hpk, hnone, rfl⟩ := openPackage_cases hs
  obtain ⟨c₁, hc₁, _, hp₁⟩ := h.slots slot hslot
  have hkey : slot.newDevice.publicKey = publicKey := h.pids _ _ c₁ c hc₁ hc (hp₁.trans hid)
  have hpack := h.packages slot hslot package hp
  rw [hkey, hpk] at hpack
  have hkeep : ∀ session, c.session = some session →
      some (⟨c.deviceId, payload.deviceAuthToken, payload.groupId⟩ : Session) = some session := by
    intro session hse
    simp [hnone] at hse
  refine ⟨?_, knows_setClient hc rfl rfl hkeep⟩
  refine h.update hc rfl rfl hkeep ?_ ?_ ?_
  · intro session hse
    obtain rfl := Option.some.inj hse
    exact ⟨hpack.1, rfl, hpack.2.1⟩
  · intro hse
    cases hse
  · intro slot' hslot' hw he
    obtain ⟨c₂, hc₂, _, hp₂⟩ := h.slots slot' hslot'
    rw [he] at hc₂
    obtain rfl : c = c₂ := Option.some.inj (hc.symm.trans hc₂)
    obtain rfl := Table.eq_of_key hslot hslot' (hid.trans hp₂)
    simp [hp] at hw

theorem Identified.join (h : Identified s) {publicKey : PublicKey} {device : SlotDevice}
    {pairingId : PairingId} (hok : FreshIdentity s (.join publicKey device pairingId))
    (hs : s.join publicKey device pairingId = some s') : Identified s' ∧ Knows s s' := by
  obtain ⟨hfree, hdev, hslots, rfl⟩ := join_cases hs
  have hback : ∀ p a, Function.update s.clients publicKey
      (some ⟨device.id, pairingId, device.signingPublicKey, none, none, none, false⟩) p = some a →
      (p = publicKey ∧
        a = ⟨device.id, pairingId, device.signingPublicKey, none, none, none, false⟩) ∨
        (p ≠ publicKey ∧ s.clients p = some a) := by
    intro p a ha
    by_cases he : p = publicKey
    · subst he
      exact Or.inl ⟨rfl, by simpa [eq_comm] using ha⟩
    · exact Or.inr ⟨he, by simpa [Function.update_of_ne he] using ha⟩
  have hne : ∀ p a, s.clients p = some a → p ≠ publicKey := by
    intro p a ha he
    simp [he, hfree] at ha
  have hslot : ∀ slot, slot ∈ s.db.pairing.upsert ⟨pairingId, device, none⟩ (fun _ => false) id
      (fun _ => rfl) → slot ∈ s.db.pairing ∨ slot = ⟨pairingId, device, none⟩ := by
    intro slot hslot
    rcases Table.mem_upsert.mp hslot with ⟨_, hslot⟩ | ⟨_, slot', hslot', he⟩
    · exact hslot
    · simp only [Bool.false_eq_true, and_false, if_false] at he
      exact Or.inl (he ▸ hslot')
  have hk :
      Knows s (s.db.pairing.upsert ⟨pairingId, device, none⟩ (fun _ => false) id (fun _ => rfl) |>
      fun pairing => { s with
        server := ⟨{ s.db with pairing }, s.server.flights⟩
        joined := (device.id, pairingId) :: s.joined }.setClient publicKey
          ⟨device.id, pairingId, device.signingPublicKey, none, none, none, false⟩) := by
    refine ⟨fun p a ha => ⟨a, ?_, rfl, rfl, fun _ hse => hse⟩, .refl _, rfl⟩
    simpa [World.setClient, Function.update_of_ne (hne p a ha)] using ha
  refine ⟨⟨?_, ?_, ?_, ?_, ?_, ?_, ?_, ?_, ?_, ?_, ?_, h.rows⟩, hk⟩
  · intro p q a a' ha ha' he
    rcases hback p a ha with ⟨rfl, rfl⟩ | ⟨_, hb⟩ <;> rcases hback q a' ha' with
      ⟨rfl, rfl⟩ | ⟨_, hb'⟩
    · rfl
    · exact absurd he.symm (hok _ (h.joined q a' hb')).1
    · exact absurd he (hok _ (h.joined p a hb)).1
    · exact h.ids p q a a' hb hb' he
  · intro p q a a' ha ha' he
    rcases hback p a ha with ⟨rfl, rfl⟩ | ⟨_, hb⟩ <;> rcases hback q a' ha' with
      ⟨rfl, rfl⟩ | ⟨_, hb'⟩
    · rfl
    · exact absurd he.symm (hok _ (h.joined q a' hb')).2
    · exact absurd he (hok _ (h.joined p a hb)).2
    · exact h.pids p q a a' hb hb' he
  · intro p a ha
    rcases hback p a ha with ⟨rfl, rfl⟩ | ⟨_, hb⟩
    · exact List.mem_cons_self
    · exact List.mem_cons_of_mem _ (h.joined p a hb)
  · intro p a ha hse
    rcases hback p a ha with ⟨rfl, rfl⟩ | ⟨_, hb⟩
    · rfl
    · exact h.unopened p a hb hse
  · intro p a session ha hse
    rcases hback p a ha with ⟨rfl, rfl⟩ | ⟨_, hb⟩
    · cases hse
    · exact h.session p a session hb hse
  · intro d hd
    obtain ⟨⟨b, hb, hbi⟩, ho⟩ := h.devices d hd
    obtain ⟨a, ha, hai, _⟩ := hk.clients _ b hb
    exact ⟨⟨a, ha, hai.trans hbi⟩, ho⟩
  · intro slot hs'
    rcases hslot slot hs' with hs' | rfl
    · obtain ⟨b, hb, hbi, hbp⟩ := h.slots slot hs'
      obtain ⟨a, ha, hai, hap, _⟩ := hk.clients _ b hb
      exact ⟨a, ha, hai.trans hbi, hap.trans hbp⟩
    · exact ⟨_, by rw [hdev]; exact setClient_self, rfl, rfl⟩
  · intro slot hs' hw
    rcases hslot slot hs' with hs' | rfl
    · refine ⟨(h.vacant slot hs' hw).1, fun a ha => ?_⟩
      rcases hback _ a ha with ⟨_, rfl⟩ | ⟨_, hb⟩
      · rfl
      · exact (h.vacant slot hs' hw).2 a hb
    · refine ⟨fun d hd he => ?_, fun a ha => ?_⟩
      · obtain ⟨⟨b, hb, _⟩, _⟩ := h.devices d hd
        exact hne _ b hb (he.trans hdev)
      · rcases hback _ a ha with ⟨_, rfl⟩ | ⟨hn, _⟩
        · rfl
        · exact absurd hdev hn
  · intro slot hs' p hp
    rcases hslot slot hs' with hs' | rfl
    · exact h.packages slot hs' p hp
    · cases hp
  · intro q task' hq
    obtain ⟨⟨b, hb, hbs⟩, hpc⟩ := h.sent q task' hq
    obtain ⟨a, ha, _, _, has⟩ := hk.clients _ b hb
    exact ⟨⟨a, ha, has _ hbs⟩, hpc.mono hk⟩
  · intro q task' f hq hf
    exact (h.stages q task' f hq hf).mono hk

/-- The caller a token authenticates is the client the token was minted for. -/
theorem Identified.authenticated (h : Identified s) {c : Client} {auth : AuthContext}
    (hc : s.clients task.publicKey = some c) (hsess : c.session = some task.session)
    (ha : authenticate s.db task.session.token = .ok auth) :
    ∃ d ∈ s.db.devices, d.publicKey = task.publicKey ∧ auth.deviceId = d.id ∧
      auth.deviceId = c.deviceId := by
  obtain ⟨d, hd, hash, _, hid, _⟩ := authenticate_eq_ok ha
  obtain ⟨⟨b, hb, hbi⟩, ho⟩ := h.devices d hd
  rw [hash] at ho
  have hkey : task.publicKey = d.publicKey :=
    Option.some.inj ((h.session _ c _ hc hsess).1.symm.trans ho)
  obtain rfl : c = b := by
    rw [← hkey] at hb
    exact Option.some.inj (hc.symm.trans hb)
  exact ⟨d, hd, hkey.symm, hid, hid.trans hbi.symm⟩

theorem Identified.stageAfter (h : Identified s) {request : ApiRequest} {stage stage' : Stage}
    {db' : SpaceDb} (hsent : s.sent r = some task) (hreq : task.pc.request = request)
    (hst : StageIdentified s task stage)
    (heff : Effect task.session.token s.db request stage db' stage') :
    StageIdentified s task stage' := by
  obtain ⟨c, hc, hsess⟩ := (h.sent r task hsent).1
  cases heff with
  | same => exact hst
  | checked hq hauth hdev =>
    refine ⟨?_, ?_, ?_⟩
    · intro auth ha
      rcases hauth auth ha with ha | ha
      · exact hst.auth auth ha
      · obtain ⟨_, _, _, _, hid⟩ := h.authenticated hc hsess ha
        exact ⟨c, hc, hid⟩
    · intro device hd
      rcases hdev device hd with hd | ⟨pairingId, body, slot, hr, hslot, hpid, rfl, hkey⟩
      · exact hst.device device hd
      · obtain ⟨b, hb, hbi, hbp⟩ := h.slots slot hslot
        exact ⟨pairingId, body, b, Pc.eq_linking (hreq.trans hr), hb, hbi, hbp.trans hpid, hkey⟩
    · intro resp hr
      rw [hr] at hq
      cases hq
  | listed =>
    refine ⟨fun _ ha => (nomatch ha), fun _ hd => (nomatch hd), ?_⟩
    intro resp hr i hi
    obtain rfl := Answer.listing.inj (Stage.answered.inj hr)
    obtain ⟨d, hd, rfl⟩ := List.mem_map.mp hi
    exact (h.devices d (mem_activeDevices.mp hd).1).1
  | _ => exact .of_none rfl rfl fun _ hl => nomatch hl

/-- What a completion that goes through finds: a slot which is the joining client's
own, and a client that neither is registered nor has a session. -/
structure Opening (s : World) (pairingId : PairingId) (device : SlotDevice)
    (body : PairingCompleteBody) :
    Prop where
  own : ∀ slot ∈ s.db.pairing, slot.pairingId = pairingId ↔
    slot.newDevice.publicKey = device.publicKey
  slot : ∃ slot ∈ s.db.pairing, slot.pairingId = pairingId
  fresh : ∀ d ∈ s.db.devices, d.publicKey ≠ device.publicKey
  unopened : ∀ c, s.clients device.publicKey = some c → c.session = none
  epoch : s.db.keyEpoch = body.keyEpoch

theorem Identified.opening (h : Identified s) {pairingId : PairingId} {body : PairingCompleteBody}
    {device : SlotDevice} (hst : StageIdentified s task (.readyToPair device))
    (hpc : task.pc = .linking pairingId body)
    (hg : completePairing.registerGuard pairingId device body s.db = true) :
    Opening s pairingId device body := by
  obtain ⟨p, b, c, hpc', hc, _, hpid, _⟩ := hst.device device rfl
  obtain ⟨rfl, rfl⟩ := Pc.linking.inj (hpc.symm.trans hpc')
  have hiff : ∀ slot ∈ s.db.pairing,
      slot.pairingId = pairingId ↔ slot.newDevice.publicKey = device.publicKey := by
    intro slot hslot
    obtain ⟨a, ha, _, hap⟩ := h.slots slot hslot
    constructor
    · intro he
      exact h.pids _ _ a c ha hc (hap.trans (he.trans hpid.symm))
    · intro he
      rw [he] at ha
      obtain rfl : a = c := Option.some.inj (ha.symm.trans hc)
      exact hap.symm.trans hpid
  simp only [completePairing.registerGuard, completePairing.slotOpen, Bool.and_eq_true,
    decide_eq_true_eq, Table.exist_iff, Option.isNone_iff_eq_none] at hg
  obtain ⟨⟨hep, slot, hslot, he, hopen⟩, _⟩ := hg
  have hvacant := h.vacant slot hslot hopen
  rw [(hiff slot hslot).mp he] at hvacant
  exact ⟨hiff, ⟨slot, hslot, he⟩, hvacant.1, hvacant.2, hep⟩

/-- Every device after a step of the server is an old one, or the client of the
completed pairing. -/
theorem Identified.devicesAfter (h : Identified s) {request : ApiRequest} {stage stage' : Stage}
    {db' : SpaceDb} (hsent : s.sent r = some task) (hreq : task.pc.request = request)
    (hst : StageIdentified s task stage)
    (heff : Effect task.session.token s.db request stage db' stage') :
    ∀ d' ∈ db'.devices, (∃ c, s.clients d'.publicKey = some c ∧ c.deviceId = d'.id) ∧
      s.owner d'.authTokenHash.preimage = some d'.publicKey := by
  intro d' hd'
  rcases heff.membership with ⟨_, hold⟩ | ⟨p, b, device, hr, rfl, hg, rfl⟩
  · obtain ⟨d, hd, hsame⟩ := hold d' hd'
    rw [hsame.publicKey, hsame.id, hsame.authTokenHash]
    exact h.devices d hd
  · rcases completePairing.mem_registered.mp hd' with rfl | ⟨hd, _⟩
    · have hpc := Pc.eq_linking (hreq.trans hr)
      obtain ⟨p', b', c, hpc', hc, hid, _, hkey⟩ := hst.device device rfl
      obtain ⟨rfl, rfl⟩ := Pc.linking.inj (hpc.symm.trans hpc')
      have hbody := (h.sent r task hsent).2
      rw [hpc] at hbody
      obtain ⟨_, _, token, _, _, _, hhash, ho⟩ := hbody
      refine ⟨⟨c, hc, hid⟩, ?_⟩
      rw [completePairing.newRow, hhash, hkey]
      exact ho
    · exact h.devices d' hd

/-- The slots after a step: whose they are, which are vacant and what the packages
in them open to. -/
theorem Identified.slotsAfter (h : Identified s) {request : ApiRequest} {stage stage' : Stage}
    {db' : SpaceDb} (hsent : s.sent r = some task) (hreq : task.pc.request = request)
    (hst : StageIdentified s task stage)
    (heff : Effect task.session.token s.db request stage db' stage') {slot : PairingSlot}
    (hslot : slot ∈ db'.pairing) :
    (∃ c, s.clients slot.newDevice.publicKey = some c ∧ c.deviceId = slot.newDevice.id ∧
      c.pairingId = slot.pairingId) ∧
    (slot.wrappedPackage = none → (∀ d ∈ db'.devices, d.publicKey ≠ slot.newDevice.publicKey) ∧
      ∀ c, s.clients slot.newDevice.publicKey = some c → c.session = none) ∧
    ∀ p, slot.wrappedPackage = some p →
      s.owner p.payload.deviceAuthToken = some slot.newDevice.publicKey ∧
        p.payload.groupId = s.db.groupId ∧ ∀ d ∈ db'.devices,
          d.publicKey = slot.newDevice.publicKey → d.nameKeyEpoch = p.payload.keyEpoch := by
  rcases heff.membership with ⟨hpair, hold⟩ | ⟨pid, b, device, hr, rfl, hg, rfl⟩
  · rw [hpair] at hslot
    refine ⟨h.slots slot hslot, fun hopen => ⟨?_, (h.vacant slot hslot hopen).2⟩, fun p hp => ?_⟩
    · intro d' hd' he
      obtain ⟨d, hd, hsame⟩ := hold d' hd'
      exact (h.vacant slot hslot hopen).1 d hd (hsame.publicKey.symm.trans he)
    · have hpack := h.packages slot hslot p hp
      refine ⟨hpack.1, hpack.2.1, fun d' hd' he => ?_⟩
      obtain ⟨d, hd, hsame⟩ := hold d' hd'
      rw [hsame.nameKeyEpoch]
      exact hpack.2.2 d hd (hsame.publicKey.symm.trans he)
  · have hpc := Pc.eq_linking (hreq.trans hr)
    have hopen := h.opening hst hpc hg
    obtain ⟨p', b', c, hpc', _, _, _, hkey⟩ := hst.device device rfl
    obtain ⟨rfl, rfl⟩ := Pc.linking.inj (hpc.symm.trans hpc')
    obtain ⟨old, hmem, rfl⟩ := completePairing.mem_deposited.mp hslot
    by_cases hpid : old.pairingId = pid
    · rw [if_pos hpid]
      have hown := (hopen.own old hmem).mp hpid
      refine ⟨h.slots old hmem, fun hn => (nomatch hn), fun p hp => ?_⟩
      obtain rfl := Option.some.inj hp
      have hbody := (h.sent r task hsent).2
      rw [hpc] at hbody
      obtain ⟨_, key, token, _, _, hpackage, _, ho⟩ := hbody
      rw [hpackage]
      refine ⟨?_, rfl, fun d' hd' he => ?_⟩
      · rw [hown, hkey]
        exact ho
      · rcases completePairing.mem_registered.mp hd' with rfl | ⟨hd, _⟩
        · rfl
        · exact absurd (he.trans hown) (hopen.fresh d' hd)
    · rw [if_neg hpid]
      have hother : old.newDevice.publicKey ≠ device.publicKey :=
        fun he => hpid ((hopen.own old hmem).mpr he)
      refine ⟨h.slots old hmem, fun hn => ⟨?_, (h.vacant old hmem hn).2⟩, fun p hp => ?_⟩
      · intro d' hd' he
        rcases completePairing.mem_registered.mp hd' with rfl | ⟨hd, _⟩
        · exact hother he.symm
        · exact (h.vacant old hmem hn).1 d' hd he
      · have hpack := h.packages old hmem p hp
        refine ⟨hpack.1, hpack.2.1, fun d' hd' he => ?_⟩
        rcases completePairing.mem_registered.mp hd' with rfl | ⟨hd, _⟩
        · exact absurd he.symm hother
        · exact hpack.2.2 d' hd he

/-- A row of a device is sealed to the device that has it. -/
def RowAddressed (groupId : GroupId) (devices : Table Device.id) (row : KeyRow) : Prop :=
  ∃ d ∈ devices, d.id = row.deviceId ∧ d.active = true ∧
    ∃ key, row.wrappedKey = wrapRotatedKey d.publicKey key groupId row.epoch d.id

theorem RowAddressed.of_same {g : GroupId} {devices devices' : Table Device.id} {row : KeyRow}
    (h : RowAddressed g devices row)
    (hsame : ∀ d ∈ devices, d.active = true → d.id = row.deviceId →
      ∃ d' ∈ devices', d'.id = d.id ∧ d'.publicKey = d.publicKey ∧ d'.active = true) :
    RowAddressed g devices' row := by
  obtain ⟨d, hd, hid, ha, key, hrow⟩ := h
  obtain ⟨d', hd', hid', hkey, ha'⟩ := hsame d hd ha hid
  exact ⟨d', hd', hid'.trans hid, ha', key, by rw [hkey, hid']; exact hrow⟩

theorem Identified.rowsAfter (h : Identified s) {request : ApiRequest} {stage stage' : Stage}
    {db' : SpaceDb} (hsent : s.sent r = some task) (hreq : task.pc.request = request)
    (hst : StageIdentified s task stage)
    (heff : Effect task.session.token s.db request stage db' stage') {row : KeyRow}
    (hrow : row ∈ db'.keyDistribution) : RowAddressed s.db.groupId db'.devices row := by
  have hown : ∀ {i e p} {db₁ : SpaceDb}, db₁.devices = s.db.devices →
      ∀ d ∈ s.db.devices, ∃ d' ∈ (rotateKey.ownAdopted i e p db₁).devices, d'.id = d.id ∧
        d'.publicKey = d.publicKey ∧ d'.active = d.active := by
    intro i e p db₁ hdev d hd
    refine ⟨_, rotateKey.mem_ownAdopted.mpr ⟨d, hdev ▸ hd, rfl⟩, ?_⟩
    split_ifs <;> exact ⟨rfl, rfl, rfl⟩
  have hland : ∀ {body : RotateKeyRequest} {auth : AuthContext} {db₁ : SpaceDb} {i e p},
      task.pc.request = .rotateKey body →
      rotateKey.Inserted body.epoch auth.groupKeyEpoch body.wraps s.db db₁ →
      ∀ row ∈ db₁.keyDistribution,
        RowAddressed s.db.groupId (rotateKey.ownAdopted i e p db₁).devices row := by
    intro body auth db₁ i e p hr hin row hrow
    have hbase : RowAddressed s.db.groupId s.db.devices row := by
      rcases (hin.mem row).mp hrow with hrow | ⟨w, hw, rfl⟩
      · exact h.rows row hrow
      · obtain ⟨newKey, hpc⟩ := Pc.eq_rotating hr
        have hwraps := (h.sent r task hsent).2
        rw [hpc] at hwraps
        obtain ⟨hmem, _, hact⟩ := rotateKey.mem_landing.mp hw
        obtain ⟨d, hd, hid, ha⟩ := SpaceDb.isActive_iff.mp hact
        obtain ⟨q, c, hc, hci, hwk⟩ := hwraps w hmem
        obtain ⟨⟨b, hb, hbi⟩, _⟩ := h.devices d hd
        have hq : q = d.publicKey := h.ids _ _ c b hc hb (hci.trans (hid.symm.trans hbi.symm))
        exact ⟨d, hd, hid, ha, newKey, by rw [← hq, hid]; exact hwk⟩
    refine hbase.of_same fun d hd ha _ => ?_
    obtain ⟨d', hd', hid', hkey', ha'⟩ := @hown i e p db₁ hin.devices d hd
    exact ⟨d', hd', hid', hkey', ha'.trans ha⟩
  cases heff with
  | rotated hin _ _ => exact hland hreq hin row hrow
  | refused hnd hf =>
    rcases rotateKey.refused_cases hnd hf with rfl | ⟨db₁, hin, _, rfl⟩
    · exact h.rows row hrow
    · exact hland hreq hin row hrow
  | acked =>
    refine RowAddressed.of_same (h.rows row (ackKey.mem_run_keyDistribution.mp hrow).1) ?_
    intro d hd ha _
    obtain ⟨d', hd', hid', hkey', ha'⟩ := ackKey.mem_run_of_mem hd
    exact ⟨d', hd', hid', hkey', ha'.trans ha⟩
  | revoked =>
    have hmem := revokeDevice.mem_run_keyDistribution.mp hrow
    refine RowAddressed.of_same (h.rows row hmem.1) fun d hd ha hid => ?_
    exact ⟨d, revokeDevice.mem_run_devices.mpr (Or.inl ⟨hd, hid ▸ hmem.2⟩), rfl, rfl, ha⟩
  | @paired pairingId body device hg _ =>
    have hopen := h.opening hst (Pc.eq_linking hreq) hg
    obtain ⟨_, _, c, _, hc, hci, _⟩ := hst.device device rfl
    refine RowAddressed.of_same (h.rows row hrow) fun d hd ha _ => ?_
    refine ⟨d, completePairing.mem_registered.mpr (Or.inr ⟨hd, fun he => ?_⟩), rfl, rfl, ha⟩
    obtain ⟨⟨b, hb, hbi⟩, _⟩ := h.devices d hd
    exact hopen.fresh d hd (h.ids _ _ b c hb hc (hbi.trans (he.trans hci.symm)))
  | _ => exact h.rows row hrow

theorem Identified.serve (hw : Wired s) (h : Identified s) {now : ℕ} {limited : Bool}
    (hs : s.serve r now limited = some s') : Identified s' ∧ Knows s s' := by
  obtain ⟨task, request, stage, db', stage', hsent, hreq, hf, heff, _, rfl⟩ := hw.served hs
  have hst := h.stages r task _ hsent hf
  have hst' := h.stageAfter hsent hreq hst heff
  have hgroup := heff.groupId
  set s₁ : World := { s with
    server := ⟨db', Function.update s.server.flights r (some ⟨task.session.token, request, stage'⟩)⟩
    keyOf := keyOfAfter s.keyOf task.pc stage stage'
    handed := handedBy task.pc stage stage' ++ s.handed } with hs₁
  have hk : Knows s s₁ := ⟨(Knows.refl s).clients, .refl _, hgroup⟩
  have hslots : ∀ slot ∈ s₁.db.pairing, _ :=
    fun slot hslot => h.slotsAfter hsent hreq hst heff hslot
  refine ⟨⟨h.ids, h.pids, h.joined, h.unopened, ?_, h.devicesAfter hsent hreq hst heff,
    fun slot hslot => (hslots slot hslot).1, fun slot hslot => (hslots slot hslot).2.1, ?_,
    ?_, ?_, ?_⟩,
    hk⟩
  · intro p c session hc hse
    have hold := h.session p c session hc hse
    exact ⟨hold.1, hold.2.1, hold.2.2.trans hgroup.symm⟩
  · intro slot hslot p hp
    obtain ⟨ho, hg, hn⟩ := (hslots slot hslot).2.2 p hp
    exact ⟨ho, hg.trans hgroup.symm, hn⟩
  · intro q task' hq
    exact ⟨(h.sent q task' hq).1, (h.sent q task' hq).2.mono hk⟩
  · intro q task' f hq hf'
    by_cases he : q = r
    · subst he
      obtain rfl : task = task' := Option.some.inj (hsent.symm.trans hq)
      simp only [hs₁, Function.update_self, Option.some.injEq] at hf'
      subst hf'
      exact hst'.mono hk
    · simp only [hs₁, Function.update_of_ne he] at hf'
      exact (h.stages q task' f hq hf').mono hk
  · intro row hrow
    have hrow' := h.rowsAfter hsent hreq hst heff hrow
    rw [← hgroup] at hrow'
    exact hrow'

theorem identified_created {groupId : GroupId} {founder : SlotDevice} {pairingId : PairingId}
    {token : Token} {key : GroupKey} {elsewhere : List DeviceId} :
    Identified (World.created groupId founder pairingId token key elsewhere) := by
  have hclient : ∀ p c,
      (World.created groupId founder pairingId token key elsewhere).clients p = some c →
      p = founder.publicKey ∧ c.deviceId = founder.id ∧ c.pairingId = pairingId ∧
        c.session = some ⟨founder.id, token, groupId⟩ := by
    intro p c hc
    simp only [World.created] at hc
    rcases record_eq_some.mp hc with ⟨rfl, rfl⟩ | ⟨_, hc⟩
    · exact ⟨rfl, rfl, rfl, rfl⟩
    · cases hc
  have howner : record (fun _ => none) token founder.publicKey token = some founder.publicKey :=
    record_self
  refine ⟨?_, ?_, ?_, ?_, ?_, ?_, fun _ h => (by cases h), fun _ h => (by cases h),
    fun _ h => (by cases h), fun _ _ h => (by cases h), fun _ _ _ h => (by cases h),
    fun _ h => (by cases h)⟩
  · intro p q c c' hc hc' _
    exact (hclient p c hc).1.trans (hclient q c' hc').1.symm
  · intro p q c c' hc hc' _
    exact (hclient p c hc).1.trans (hclient q c' hc').1.symm
  · intro p c hc
    obtain ⟨_, hi, hp, _⟩ := hclient p c hc
    rw [hi, hp]
    exact List.mem_cons_self
  · intro p c hc hn
    simp [(hclient p c hc).2.2.2] at hn
  · intro p c session hc hse
    obtain ⟨rfl, hi, _, hs⟩ := hclient p c hc
    obtain rfl := Option.some.inj (hs.symm.trans hse)
    exact ⟨howner, hi.symm, rfl⟩
  · intro d hd
    obtain rfl := Table.mem_singleton.mp hd
    have hself : (World.created groupId founder pairingId token key elsewhere).clients
        founder.publicKey = some (.founding groupId founder pairingId token key) := by
      simp [World.created]
    exact ⟨⟨_, hself, rfl⟩, howner⟩

theorem identified_step {l : Label} (hw : Wired s) (h : Identified s) (hok : FreshIdentity s l)
    (hs : s.step l = some s') : Identified s' := by
  cases l with
  | join publicKey device pairingId => exact (h.join hok hs).1
  | openPackage publicKey => exact (h.openPackage hs).1
  | dropSlot pairingId =>
    obtain rfl := Option.some.inj hs
    have hk : Knows s { s with server := s.server.release pairingId } :=
      ⟨(Knows.refl s).clients, .refl _, rfl⟩
    have hmem : ∀ slot ∈ s.db.pairing.delete fun p => decide (p.pairingId = pairingId),
        slot ∈ s.db.pairing := fun slot hslot => (Table.mem_delete.mp hslot).1
    exact ⟨h.ids, h.pids, h.joined, h.unopened, h.session, h.devices,
      fun slot hslot => h.slots slot (hmem slot hslot),
      fun slot hslot => h.vacant slot (hmem slot hslot),
      fun slot hslot => h.packages slot (hmem slot hslot),
      fun q task' hq => ⟨(h.sent q task' hq).1, (h.sent q task' hq).2.mono hk⟩,
      fun q task' f hq hf => (h.stages q task' f hq hf).mono hk, h.rows⟩
  | syncNow t publicKey r =>
    obtain ⟨c, session, ring, hc, hse, _, _, hs⟩ := syncNow_cases hs
    have hrun : Identified (s.setClient publicKey { c with running := true }) :=
      h.setClient hc rfl rfl rfl fun hn => h.unopened _ c hc hn
    exact hrun.send hs ⟨_, setClient_self, hse⟩ trivial
  | revoke t publicKey deviceId r =>
    obtain ⟨c, session, ring, hc, hse, _, _, hs⟩ := revoke_cases hs
    exact h.send hs ⟨c, hc, hse⟩ trivial
  | addDevice t publicKey joiner token r =>
    obtain ⟨c, session, ring, j, key, hc, hse, _, hj, _, hfree, _, hs⟩ := addDevice_cases hs
    refine (h.mintToken hfree).send hs ⟨c, hc, hse⟩ ?_
    have hgroup := (h.session _ c session hc hse).2.2
    exact ⟨j, key, token, hj, rfl, by rw [hgroup]; rfl, rfl, record_self⟩
  | serve r now limited => exact (h.serve hw hs).1
  | resend t r =>
    obtain ⟨task, ht, hs⟩ := resend_cases hs
    have htask := h.sent _ task (hw.task_sent t task ht)
    exact h.send hs htask.1 htask.2
  | giveUp t =>
    obtain ⟨_, _, rfl⟩ := giveUp_cases hs
    exact h.finish
  | receive t r trusted newKey =>
    obtain ⟨task, c, f, a, ht, hc, hf, _, hr⟩ := receive_cases hs
    have hsent := hw.task_sent t task ht
    obtain ⟨c', hc', hse⟩ := (h.sent _ task hsent).1
    obtain rfl : c = c' := Option.some.inj (hc.symm.trans hc')
    exact h.received hc hse (h.stages _ task f hsent hf) hr
  | restart publicKey =>
    obtain ⟨c, hc, rfl⟩ := restart_cases hs
    have hload :
        Identified (s.setClient publicKey { c with memory := c.saved, running := false }) :=
      h.setClient hc rfl rfl rfl fun hn => h.unopened _ c hc hn
    exact hload.endTask _

end SendSelf.World
