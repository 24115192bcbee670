import SendSelf.Worker.Requests

/-!
# What the clients do with keys

The parts of a client which decide what a device holds and hands on: adopting
the keys a poll delivered, wrapping a fresh key for the devices of a listing,
and sealing the current key for a device that is being added. The calls they
make are steps of the system around them.
-/
namespace SendSelf

/-- The device's credentials for one space (`META_SESSION`). -/
structure Session where
  deviceId : DeviceId
  token : Token
  groupId : GroupId
deriving DecidableEq, Repr

namespace adoptPendingKeys

/-- One delivery: a key the ring lacks is unwrapped and added, and the highest
epoch seen is remembered for the ack. -/
def adoptOne (key : PublicKey) (session : Session) (acc : Keyring × ℕ) (d : PendingKeyDelivery) :
    Option (Keyring × ℕ) :=
  if (keyForEpoch acc.1 d.epoch).isSome then some (acc.1, max acc.2 d.epoch)
  else (unwrapRotatedKey key d session.groupId session.deviceId).map fun k =>
    (withEpoch acc.1 d.epoch k, max acc.2 d.epoch)

/-- The ring to persist and the epoch to ack; `none` when a delivery does not unwrap. -/
def updated (key : PublicKey) (session : Session) (ring : Keyring)
    (deliveries : List PendingKeyDelivery) : Option (Keyring × ℕ) :=
  (deliveries.insertionSort fun a b => a.epoch ≤ b.epoch).foldlM (adoptOne key session) (ring, 0)

open WriteOnce

theorem adoptOne_below {key : PublicKey} {session : Session} {acc acc' : Keyring × ℕ}
    {d : PendingKeyDelivery} (h : adoptOne key session acc d = some acc') :
    Below (keyForEpoch acc.1) (keyForEpoch acc'.1) := by
  unfold adoptOne at h
  split_ifs at h with hd
  · obtain rfl := Option.some.inj h
    exact .refl _
  · obtain ⟨k, _, rfl⟩ := Option.map_eq_some_iff.mp h
    rw [keyForEpoch_withEpoch]
    exact below_record k (by simpa using hd)

/-- Nothing but the delivered keys gets into the ring. -/
theorem adoptOne_within {key : PublicKey} {session : Session} {acc acc' : Keyring × ℕ}
    {d : PendingKeyDelivery} {G : ℕ → Option GroupKey} (h : adoptOne key session acc d = some acc')
    (hacc : Below (keyForEpoch acc.1) G) (hd : G d.epoch = some d.wrappedKey.payload.groupKey) :
    Below (keyForEpoch acc'.1) G := by
  unfold adoptOne at h
  split_ifs at h with hs
  · obtain rfl := Option.some.inj h
    exact hacc
  · obtain ⟨k, hk, rfl⟩ := Option.map_eq_some_iff.mp h
    have hkey := (unwrapRotatedKey_eq_some hk).2
    rw [keyForEpoch_withEpoch]
    exact hacc.record (hkey ▸ hd)

theorem adoptOne_holds {key : PublicKey} {session : Session} {acc acc' : Keyring × ℕ}
    {d : PendingKeyDelivery} (h : adoptOne key session acc d = some acc') :
    (keyForEpoch acc'.1 d.epoch).isSome ∧ acc'.2 = max acc.2 d.epoch := by
  unfold adoptOne at h
  split_ifs at h with hs
  · obtain rfl := Option.some.inj h
    exact ⟨hs, rfl⟩
  · obtain ⟨k, _, rfl⟩ := Option.map_eq_some_iff.mp h
    rw [keyForEpoch_withEpoch]
    exact ⟨by simp, rfl⟩

theorem foldlM_below {key : PublicKey} {session : Session} {ds : List PendingKeyDelivery}
    {acc acc' : Keyring × ℕ} (h : ds.foldlM (adoptOne key session) acc = some acc') :
    Below (keyForEpoch acc.1) (keyForEpoch acc'.1) := by
  induction ds generalizing acc with
  | nil =>
    obtain rfl := Option.some.inj h
    exact .refl _
  | cons d ds ih =>
    simp only [List.foldlM_cons, Option.bind_eq_bind, Option.bind_eq_some_iff] at h
    obtain ⟨acc₁, h₁, h₂⟩ := h
    exact (adoptOne_below h₁).trans (ih h₂)

theorem foldlM_within {key : PublicKey} {session : Session} {ds : List PendingKeyDelivery}
    {acc acc' : Keyring × ℕ} {G : ℕ → Option GroupKey}
    (h : ds.foldlM (adoptOne key session) acc = some acc') (hacc : Below (keyForEpoch acc.1) G)
    (hds : ∀ d ∈ ds, G d.epoch = some d.wrappedKey.payload.groupKey) :
    Below (keyForEpoch acc'.1) G := by
  induction ds generalizing acc with
  | nil =>
    obtain rfl := Option.some.inj h
    exact hacc
  | cons d ds ih =>
    simp only [List.foldlM_cons, Option.bind_eq_bind, Option.bind_eq_some_iff] at h
    obtain ⟨acc₁, h₁, h₂⟩ := h
    have hone := adoptOne_within h₁ hacc (hds d List.mem_cons_self)
    exact ih h₂ hone fun d' hd' => hds d' (List.mem_cons_of_mem _ hd')

/-- Every delivered epoch is in the ring afterwards, and the acked epoch is the
highest of them. -/
theorem foldlM_holds {key : PublicKey} {session : Session} {ds : List PendingKeyDelivery}
    {acc acc' : Keyring × ℕ} (h : ds.foldlM (adoptOne key session) acc = some acc') :
    (∀ d ∈ ds, (keyForEpoch acc'.1 d.epoch).isSome) ∧
      (acc'.2 = acc.2 ∨ ∃ d ∈ ds, acc'.2 = d.epoch) := by
  induction ds generalizing acc with
  | nil =>
    obtain rfl := Option.some.inj h
    exact ⟨fun d hd => absurd hd List.not_mem_nil, Or.inl rfl⟩
  | cons d ds ih =>
    simp only [List.foldlM_cons, Option.bind_eq_bind, Option.bind_eq_some_iff] at h
    obtain ⟨acc₁, h₁, h₂⟩ := h
    have hone := adoptOne_holds h₁
    have hrest := ih h₂
    constructor
    · intro d' hd'
      rcases List.mem_cons.mp hd' with rfl | hd'
      · obtain ⟨k, hk⟩ := Option.isSome_iff_exists.mp hone.1
        exact Option.isSome_iff_exists.mpr ⟨k, foldlM_below h₂ _ _ hk⟩
      · exact hrest.1 d' hd'
    · rcases hrest.2 with he | ⟨d', hd', he⟩
      · rw [hone.2] at he
        rcases Nat.le_total acc.2 d.epoch with hm | hm
        · exact Or.inr ⟨d, List.mem_cons_self, he.trans (Nat.max_eq_right hm)⟩
        · exact Or.inl (he.trans (Nat.max_eq_left hm))
      · exact Or.inr ⟨d', List.mem_cons_of_mem _ hd', he⟩

theorem updated_below {key : PublicKey} {session : Session} {ring ring' : Keyring}
    {ds : List PendingKeyDelivery} {e : ℕ} (h : updated key session ring ds = some (ring', e)) :
    Below (keyForEpoch ring) (keyForEpoch ring') := foldlM_below h

theorem updated_within {key : PublicKey} {session : Session} {ring ring' : Keyring}
    {ds : List PendingKeyDelivery} {e : ℕ} {G : ℕ → Option GroupKey}
    (h : updated key session ring ds = some (ring', e)) (hr : Below (keyForEpoch ring) G)
    (hds : ∀ d ∈ ds, G d.epoch = some d.wrappedKey.payload.groupKey) :
    Below (keyForEpoch ring') G :=
  foldlM_within h hr fun d hd => hds d ((List.mem_insertionSort _).mp hd)

theorem updated_holds {key : PublicKey} {session : Session} {ring ring' : Keyring}
    {ds : List PendingKeyDelivery} {e : ℕ} (h : updated key session ring ds = some (ring', e)) :
    (∀ d ∈ ds, (keyForEpoch ring' d.epoch).isSome) ∧ (e = 0 ∨ ∃ d ∈ ds, e = d.epoch) := by
  have hf := foldlM_holds h
  constructor
  · intro d hd
    exact hf.1 d ((List.mem_insertionSort _).mpr hd)
  · rcases hf.2 with he | ⟨d, hd, he⟩
    · exact Or.inl he
    · exact Or.inr ⟨d, (List.mem_insertionSort _).mp hd, he⟩

end adoptPendingKeys

/-- The wraps of a rotation: one for every listed device but the caller. -/
def rotateGroupKey.wraps (session : Session) (devices : List DeviceInfo) (epoch : ℕ)
    (newKey : GroupKey) : List KeyWrap :=
  (devices.filter fun d => d.id ≠ session.deviceId).map fun d =>
    ⟨d.id, wrapRotatedKey d.publicKey newKey session.groupId epoch d.id⟩

theorem rotateGroupKey.mem_wraps {session : Session} {devices : List DeviceInfo} {epoch : ℕ}
    {newKey : GroupKey} {w : KeyWrap} (h : w ∈ wraps session devices epoch newKey) :
    ∃ d ∈ devices, w.deviceId = d.id ∧
      w.wrappedKey = wrapRotatedKey d.publicKey newKey session.groupId epoch d.id := by
  obtain ⟨d, hd, rfl⟩ := List.mem_map.mp h
  exact ⟨d, (List.mem_filter.mp hd).1, rfl, rfl⟩

/-- What the adding device reads off the joining one: the keys it scanned and the
slot they were published in. -/
structure PairingQrPayload where
  pairingId : PairingId
  publicKey : PublicKey
  signingPublicKey : Option SigningKey
  deviceId : DeviceId
deriving DecidableEq, Repr

/-- The request that links a scanned device; `none` is the throw of `currentKey`. -/
def addDevice.body (session : Session) (ring : Keyring) (payload : PairingQrPayload)
    (deviceAuthToken : Token) : Option PairingCompleteBody :=
  (currentKey ring).map fun currentGroupKey =>
    { wrappedPackage := wrapPairingPackage payload.publicKey
        { groupKey := currentGroupKey, keyEpoch := ring.current, deviceAuthToken,
          groupId := session.groupId } payload.pairingId
      scannedPublicKey := payload.publicKey
      scannedSigningPublicKey := payload.signingPublicKey
      deviceAuthTokenHash := sha256Hex deviceAuthToken
      keyEpoch := ring.current }

end SendSelf
