import SendSelf.Worker.Schema

/-!
# What a device believes about the others' keys

The server hands out the roster, so a device keeps what it has learned of the others'
public keys: what it scanned, what it inherited from the device that added it, what a
device with a known signing key vouches for, and what it took on first sight. A roster
never replaces a key that is held: a device that is not in it is forgotten, and anything
else is reported.
-/
namespace SendSelf

inductive IdentityTrust where
  | scanned | inherited | attested | tofu
deriving DecidableEq, Repr

/-- A signing key is absent for a device that has not published one yet. -/
structure DeviceIdentity where
  id : DeviceId
  publicKey : PublicKey
  signingPublicKey : Option SigningKey
  trust : IdentityTrust
deriving DecidableEq, Repr

abbrev DeviceIdentities := Table DeviceIdentity.id

/-- A pin of before signing. -/
structure DevicePin where
  id : DeviceId
  publicKey : PublicKey
deriving DecidableEq, Repr

structure DeviceKeyBundle where
  deviceId : DeviceId
  publicKey : PublicKey
  signingPublicKey : Option SigningKey
deriving DecidableEq, Repr

/-- What an attestation's signature is over. -/
structure AttestedFields where
  groupId : GroupId
  deviceId : DeviceId
  publicKey : PublicKey
  signingPublicKey : SigningKey
  signerDeviceId : DeviceId
  issuedAt : ℕ
deriving DecidableEq, Repr

structure DeviceAttestation where
  fields : AttestedFields
  signature : ℕ
deriving DecidableEq, Repr

/-- A roster entry as the server serves it. -/
structure RosterDevice where
  id : DeviceId
  publicKey : PublicKey
  signingPublicKey : Option SigningKey
  attestation : Option DeviceAttestation
deriving DecidableEq, Repr

/-- The browser's check of a signature; `none` when the key cannot be imported. -/
abbrev VerifyStatement := SigningKey → AttestedFields → ℕ → Option Bool

def DeviceKeyBundle.identity (bundle : DeviceKeyBundle) (trust : IdentityTrust) : DeviceIdentity :=
  ⟨bundle.deviceId, bundle.publicKey, bundle.signingPublicKey, trust⟩

namespace DeviceIdentities

/-- Pins of before signing become `tofu`. -/
def upgraded (legacy : Table DevicePin.id) : DeviceIdentities :=
  legacy.collect (fun pin => some ⟨pin.id, pin.publicKey, none, .tofu⟩) fun _ _ h => by
    obtain rfl := Option.some.inj h
    rfl

/-- What `pinScannedDevice` saves. -/
def pinned (bundle : DeviceKeyBundle) (identities : DeviceIdentities) : DeviceIdentities :=
  identities.put (bundle.identity .scanned)

/-- What was scanned is never downgraded. -/
def seedOne (identities : DeviceIdentities) (bundle : DeviceKeyBundle) : DeviceIdentities :=
  if (identities.get? bundle.deviceId).any fun e => decide (e.trust = .scanned) then identities
  else identities.put (bundle.identity .inherited)

/-- What `seedInheritedIdentities` saves. -/
def seeded (bundles : List DeviceKeyBundle) (identities : DeviceIdentities) : DeviceIdentities :=
  bundles.foldl seedOne identities

end DeviceIdentities

namespace reconcileDevices

/-- The roster shows another key than `existing` has. It may well show no signing key. -/
def differs (existing : DeviceIdentity) (device : RosterDevice) : Bool :=
  decide (existing.publicKey ≠ device.publicKey) ||
    (existing.signingPublicKey.isSome && device.signingPublicKey.isSome &&
      decide (existing.signingPublicKey ≠ device.signingPublicKey))

section

-- the names that every object answers to, such as `constructor`: under an id that is one of
-- them `next[device.id]` finds something, and that has no keys
variable (inherited : DeviceId → Bool)

/-- The roster shows another key than what is found has. -/
def conflicts (known : DeviceIdentities) (device : RosterDevice) : Bool :=
  match known.get? device.id with
  | none => inherited device.id
  | some existing => differs existing device

/-- There is something to adopt: the device, or the first signing key of a known one. -/
def unresolved (known : DeviceIdentities) (device : RosterDevice) : Bool :=
  match known.get? device.id with
  | none => !inherited device.id
  | some existing =>
      decide (existing.publicKey = device.publicKey) && existing.signingPublicKey.isNone &&
        device.signingPublicKey.isSome

end

def attestationHolds (verify : VerifyStatement) (attestation : DeviceAttestation)
    (device : RosterDevice) (signerSigningKey : SigningKey) : Option Bool :=
  if attestation.fields.deviceId ≠ device.id ∨ attestation.fields.publicKey ≠ device.publicKey ∨
      some attestation.fields.signingPublicKey ≠ device.signingPublicKey then some false
  else verify signerSigningKey attestation.fields attestation.signature

/-- The keys under which a roster entry says it is attested. -/
def signing (groupId : GroupId) (next : DeviceIdentities) (device : RosterDevice) :
    Option (DeviceAttestation × DeviceIdentity × SigningKey × SigningKey) := do
  let attestation ← device.attestation
  let signer ← next.get? attestation.fields.signerDeviceId
  let signerSigningKey ← signer.signingPublicKey
  let signingPublicKey ← device.signingPublicKey
  if attestation.fields.groupId = groupId then
    some (attestation, signer, signerSigningKey, signingPublicKey)
  else none

/-- One entry of a round: it is adopted, or stays pending. -/
def attest (verify : VerifyStatement) (groupId : GroupId)
    (state : DeviceIdentities × List RosterDevice)
    (device : RosterDevice) : Option (DeviceIdentities × List RosterDevice) :=
  match signing groupId state.1 device with
  | none => some (state.1, state.2 ++ [device])
  | some (attestation, signer, signerSigningKey, signingPublicKey) =>
      (attestationHolds verify attestation device signerSigningKey).map fun holds =>
        if holds then
          (state.1.put ⟨device.id, device.publicKey, some signingPublicKey,
            if signer.trust = .tofu then .tofu else .attested⟩, state.2)
        else (state.1, state.2 ++ [device])

def round (verify : VerifyStatement) (groupId : GroupId) (next : DeviceIdentities)
    (pending : List RosterDevice) :
    Option (DeviceIdentities × List RosterDevice) :=
  pending.foldlM (attest verify groupId) (next, [])

/-- Rounds until one makes no progress. Each that does leaves fewer pending. -/
def rounds (verify : VerifyStatement) (groupId : GroupId) :
    ℕ → DeviceIdentities → List RosterDevice →
    Option (DeviceIdentities × List RosterDevice)
  | 0, next, pending => some (next, pending)
  | n + 1, next, pending => do
      let (next', stillPending) ← round verify groupId next pending
      if stillPending.length = pending.length then some (next', stillPending)
      else rounds verify groupId n next' stillPending

/-- What nobody vouches for is taken on first sight. -/
def adoptPending (next : DeviceIdentities) (device : RosterDevice) : DeviceIdentities :=
  next.put ⟨device.id, device.publicKey, device.signingPublicKey,
    ((next.get? device.id).map DeviceIdentity.trust).getD .tofu⟩

/-- Devices that left the space are dropped. -/
def dropAbsent (devices : List RosterDevice) (next : DeviceIdentities) : DeviceIdentities :=
  next.delete fun e => decide (e.id ∉ devices.map RosterDevice.id)

/-- What `reconcileDevices` saves, and the devices it reports; `none` when it throws. -/
def run (inherited : DeviceId → Bool) (verify : VerifyStatement) (devices : List RosterDevice)
    (groupId : GroupId) (known : DeviceIdentities) :
    Option (DeviceIdentities × List DeviceId) := do
  let pending := devices.filter (unresolved inherited known)
  let (next, pending) ← rounds verify groupId pending.length known pending
  some (dropAbsent devices (pending.foldl adoptPending next),
    (devices.filter (conflicts inherited known)).map RosterDevice.id)

end reconcileDevices

/-- The keys that are held stay: the public one, and the signing one if there is one. -/
structure SameKeys (e e' : DeviceIdentity) : Prop where
  publicKey : e'.publicKey = e.publicKey
  signingPublicKey : ∀ k, e.signingPublicKey = some k → e'.signingPublicKey = some k

theorem SameKeys.refl (e : DeviceIdentity) : SameKeys e e := ⟨rfl, fun _ h => h⟩

theorem SameKeys.trans {e₁ e₂ e₃ : DeviceIdentity} (h : SameKeys e₁ e₂) (h' : SameKeys e₂ e₃) :
    SameKeys e₁ e₃ :=
  ⟨h'.publicKey.trans h.publicKey, fun k hk => h'.signingPublicKey k (h.signingPublicKey k hk)⟩

/-- Whatever is held of a device is held with the same keys afterwards. -/
def KeepsKeys (i : DeviceId) (known next : DeviceIdentities) : Prop :=
  ∀ e, known.get? i = some e → ∃ e', next.get? i = some e' ∧ SameKeys e e'

theorem KeepsKeys.refl (i : DeviceId) (known : DeviceIdentities) : KeepsKeys i known known :=
  fun e he => ⟨e, he, .refl e⟩

theorem KeepsKeys.put {i : DeviceId} {known next : DeviceIdentities} {e' : DeviceIdentity}
    (h : KeepsKeys i known next) (he : e'.id = i → ∀ e, known.get? i = some e → SameKeys e e') :
    KeepsKeys i known (next.put e') := fun e hk => by
  rw [Table.get?_put]
  split_ifs with hid
  · exact ⟨e', rfl, he hid.symm e hk⟩
  · exact h e hk

namespace reconcileDevices

/-- An entry that differs from a key differs from whatever keeps it. -/
theorem differs_of_sameKeys {e e' : DeviceIdentity} (hsame : SameKeys e e') {device : RosterDevice}
    (h : differs e device = true) : differs e' device = true := by
  simp only [differs, Bool.or_eq_true, Bool.and_eq_true, decide_eq_true_eq] at h ⊢
  rcases h with h | ⟨⟨hsome, hdevice⟩, hne⟩
  · exact Or.inl (by rwa [hsame.publicKey])
  · obtain ⟨k, hk⟩ := Option.isSome_iff_exists.mp hsome
    have hk' := hsame.signingPublicKey k hk
    exact Or.inr ⟨⟨by rw [hk']; rfl, hdevice⟩, by rwa [hk', ← hk]⟩

theorem publicKey_of_not_differs {e : DeviceIdentity} {device : RosterDevice}
    (h : ¬ differs e device = true) :
    device.publicKey = e.publicKey := by
  by_contra hne
  exact h (by simp [differs, Ne.symm hne])

end reconcileDevices

namespace DeviceIdentities

theorem keeps_pinned {bundle : DeviceKeyBundle} {known : DeviceIdentities} {i : DeviceId}
    (h : bundle.deviceId ≠ i) :
    KeepsKeys i known (pinned bundle known) :=
  (KeepsKeys.refl i known).put fun hid => absurd hid h

/-- A seed that brings no other keys for a device, unless the device was scanned. -/
theorem keeps_seeded {bundles : List DeviceKeyBundle} {known : DeviceIdentities} {i : DeviceId}
    (h : ∀ e, known.get? i = some e → e.trust ≠ .scanned →
      ∀ bundle ∈ bundles, bundle.deviceId = i →
        SameKeys e (bundle.identity .inherited)) : KeepsKeys i known (seeded bundles known) := by
  have hfold : ∀ e, known.get? i = some e → ∀ (bs : List DeviceKeyBundle) (cur : DeviceIdentities),
      (∀ b ∈ bs, b ∈ bundles) →
      (∃ e', cur.get? i = some e' ∧ SameKeys e e' ∧ (e.trust = .scanned → e'.trust = .scanned)) →
      ∃ e', (bs.foldl seedOne cur).get? i = some e' ∧ SameKeys e e' := by
    intro e he bs
    induction bs with
    | nil => exact fun cur _ ⟨e', he', hsame, _⟩ => ⟨e', he', hsame⟩
    | cons b bs ih =>
      intro cur hbs ⟨e', he', hsame, htrust⟩
      refine ih (seedOne cur b) (fun c hc => hbs c (List.mem_cons_of_mem _ hc)) ?_
      unfold seedOne
      split_ifs with hscanned
      · exact ⟨e', he', hsame, htrust⟩
      · rw [Table.get?_put]
        split_ifs with hid
        · have hb : b.deviceId = i := hid.symm
          have hnot : e.trust ≠ .scanned := fun hs => hscanned (by
            rw [hb, he', Option.any_some, htrust hs]
            rfl)
          exact ⟨_, rfl, h e he hnot b (hbs b (List.mem_cons_self ..)) hb, fun hs => absurd hs hnot⟩
        · exact ⟨e', he', hsame, htrust⟩
  exact fun e he => hfold e he bundles known (fun _ hb => hb) ⟨e, he, .refl e, fun hs => hs⟩

end DeviceIdentities

namespace reconcileDevices

variable {inherited : DeviceId → Bool} {verify : VerifyStatement} {groupId : GroupId}
    {known next : DeviceIdentities} {devices pending : List RosterDevice}
  {i : DeviceId}

/-- An entry that has something to adopt shows the public key held, and no signing key is held. -/
theorem sameKeys_of_unresolved {device : RosterDevice}
    (h : unresolved inherited known device = true) {e : DeviceIdentity}
    (he : known.get? device.id = some e) {e' : DeviceIdentity}
    (hkey : e'.publicKey = device.publicKey) : SameKeys e e' := by
  simp only [unresolved, he, Bool.and_eq_true, decide_eq_true_eq, Option.isNone_iff_eq_none] at h
  exact ⟨hkey.trans h.1.1.symm, fun k hk => by rw [h.1.2] at hk; cases hk⟩

theorem attest_spec {state state' : DeviceIdentities × List RosterDevice} {device : RosterDevice}
    (h : attest verify groupId state device = some state') (hkeeps : KeepsKeys i known state.1)
    (hun : unresolved inherited known device = true) :
    KeepsKeys i known state'.1 ∧ ∀ d ∈ state'.2, d ∈ state.2 ∨ d = device := by
  have hstay : ∀ d ∈ state.2 ++ [device], d ∈ state.2 ∨ d = device := fun d hd => by
    simpa using hd
  unfold attest at h
  split at h
  · obtain rfl := Option.some.inj h
    exact ⟨hkeeps, hstay⟩
  · obtain ⟨holds, _, rfl⟩ := Option.map_eq_some_iff.mp h
    cases holds with
    | true =>
      refine ⟨hkeeps.put fun hid e he => ?_, fun d hd => Or.inl hd⟩
      have hdevice : device.id = i := hid
      exact sameKeys_of_unresolved hun (hdevice ▸ he) rfl
    | false => exact ⟨hkeeps, hstay⟩

theorem foldlM_attest_spec {state state' : DeviceIdentities × List RosterDevice}
    (h : pending.foldlM (attest verify groupId) state = some state')
    (hkeeps : KeepsKeys i known state.1)
    (hun : ∀ d ∈ pending, unresolved inherited known d = true) :
    KeepsKeys i known state'.1 ∧ ∀ d ∈ state'.2, d ∈ state.2 ∨ d ∈ pending := by
  induction pending generalizing state with
  | nil =>
    obtain rfl := Option.some.inj h
    exact ⟨hkeeps, fun d hd => Or.inl hd⟩
  | cons device pending ih =>
    rw [List.foldlM_cons] at h
    obtain ⟨mid, hmid, hrest⟩ := Option.bind_eq_some_iff.mp h
    obtain ⟨hkeeps', hmem⟩ := attest_spec hmid hkeeps (hun device (List.mem_cons_self ..))
    obtain ⟨hkeeps'', hmem'⟩ := ih hrest hkeeps' fun d hd => hun d (List.mem_cons_of_mem _ hd)
    refine ⟨hkeeps'', fun d hd => ?_⟩
    rcases hmem' d hd with hd | hd
    · rcases hmem d hd with hd | rfl
      · exact Or.inl hd
      · exact Or.inr (List.mem_cons_self ..)
    · exact Or.inr (List.mem_cons_of_mem _ hd)

theorem rounds_spec {n : ℕ} {result : DeviceIdentities × List RosterDevice}
    (h : rounds verify groupId n next pending = some result) (hkeeps : KeepsKeys i known next)
    (hun : ∀ d ∈ pending, unresolved inherited known d = true) :
    KeepsKeys i known result.1 ∧ ∀ d ∈ result.2, unresolved inherited known d = true := by
  induction n generalizing next pending with
  | zero =>
    obtain rfl := Option.some.inj h
    exact ⟨hkeeps, hun⟩
  | succ n ih =>
    obtain ⟨⟨next', still⟩, hround, hrest⟩ := Option.bind_eq_some_iff.mp h
    obtain ⟨hkeeps', hmem⟩ := foldlM_attest_spec hround hkeeps hun
    have hun' : ∀ d ∈ still, unresolved inherited known d = true := fun d hd => by
      rcases hmem d hd with hd | hd
      · cases hd
      · exact hun d hd
    dsimp only at hrest
    split_ifs at hrest
    · obtain rfl := Option.some.inj hrest
      exact ⟨hkeeps', hun'⟩
    · exact ih hrest hkeeps' hun'

theorem foldlM_attest_length {state state' : DeviceIdentities × List RosterDevice}
    (h : pending.foldlM (attest verify groupId) state = some state') :
    state'.2.length ≤ state.2.length + pending.length := by
  induction pending generalizing state with
  | nil =>
    obtain rfl := Option.some.inj h
    exact le_rfl
  | cons device pending ih =>
    rw [List.foldlM_cons] at h
    obtain ⟨mid, hmid, hrest⟩ := Option.bind_eq_some_iff.mp h
    have hone : mid.2.length ≤ state.2.length + 1 := by
      unfold attest at hmid
      split at hmid
      · obtain rfl := Option.some.inj hmid
        simp
      · obtain ⟨holds, _, rfl⟩ := Option.map_eq_some_iff.mp hmid
        cases holds <;> simp
    have := ih hrest
    rw [List.length_cons]
    omega

theorem keeps_adoptPending (hkeeps : KeepsKeys i known next)
    (hun : ∀ d ∈ pending, unresolved inherited known d = true) :
    KeepsKeys i known (pending.foldl adoptPending next) := by
  induction pending generalizing next with
  | nil => exact hkeeps
  | cons device pending ih =>
    refine ih (hkeeps.put fun hid e he => ?_) fun d hd => hun d (List.mem_cons_of_mem _ hd)
    have hdevice : device.id = i := hid
    exact sameKeys_of_unresolved (hun device (List.mem_cons_self ..)) (hdevice ▸ he) rfl

/-- Reconciling a roster keeps the keys of every device in it, whatever the roster says of
the others, and reports every device that it shows with another key. -/
theorem run_spec {result : DeviceIdentities × List DeviceId}
    (h : run inherited verify devices groupId known = some result) :
    (i ∈ devices.map RosterDevice.id → KeepsKeys i known result.1) ∧
      ∀ device ∈ devices, conflicts inherited known device = true → device.id ∈ result.2 := by
  obtain ⟨⟨next, still⟩, hrounds, heq⟩ := Option.bind_eq_some_iff.mp h
  obtain rfl := Option.some.inj heq
  obtain ⟨hkeeps, hun⟩ :=
    rounds_spec (i := i) hrounds (.refl i known) fun d hd => (List.mem_filter.mp hd).2
  refine ⟨fun hi e he => ?_,
    fun device hd hc => List.mem_map.mpr ⟨device, List.mem_filter.mpr ⟨hd, hc⟩, rfl⟩⟩
  obtain ⟨e', he', hsame⟩ := keeps_adoptPending hkeeps hun e he
  refine ⟨e', ?_, hsame⟩
  rw [dropAbsent, Table.get?_delete, he', Option.filter_eq_some_iff]
  refine ⟨rfl, ?_⟩
  simp [(Table.get?_eq_some.mp he').2, hi]

end reconcileDevices
end SendSelf
