import SendSelf.Library.Recording
import SendSelf.Pins.Identities

/-!
# What a label says

An entry is labelled with how its keys were learned. Calls are made one after the other on
what the one before has saved. Beside the store it is noted which bundles were scanned and
which were handed over, and an entry is trusted when it is one of them, or when a trusted
entry's signing key verifies an attestation of its keys for this space. A label other than
`tofu` says that the entry is trusted.

`reconcileDevices` gives no label of its own to what it takes on first sight: an entry that
is held keeps the one it has. So it has to be told no first signing key of a device held
under a better label unless the key is vouched for, and no device twice with different keys
when one of the two is.
-/
namespace SendSelf.Labels
open Runs

inductive Call where
  | pinScannedDevice (bundle : DeviceKeyBundle)
  | seedInheritedIdentities (bundles : List DeviceKeyBundle)
  | reconcileDevices (devices : List RosterDevice)
deriving DecidableEq, Repr

section

variable (inherited : DeviceId → Bool) (verify : VerifyStatement) (groupId : GroupId)

/-- What a call saves; a `reconcileDevices` that throws saves nothing. -/
def step (store : DeviceIdentities) : Call → Option DeviceIdentities
  | .pinScannedDevice bundle => some (store.pinned bundle)
  | .seedInheritedIdentities bundles => some (store.seeded bundles)
  | .reconcileDevices devices =>
      some (((reconcileDevices.run inherited verify devices groupId store).map Prod.fst).getD store)

structure Learned where
  scanned : List DeviceKeyBundle
  handedOver : List DeviceKeyBundle
deriving DecidableEq, Repr

/-- What was handed over of a device that is held as scanned is not taken. -/
def note (store : DeviceIdentities) (call : Call) (_ : DeviceIdentities)
    (past : Learned) : Learned :=
  match call with
  | .pinScannedDevice bundle => { past with scanned := bundle :: past.scanned }
  | .seedInheritedIdentities bundles =>
      { past with handedOver := bundles.filter (fun b =>
          !(store.get? b.deviceId).any fun e => decide (e.trust = .scanned)) ++ past.handedOver }
  | .reconcileDevices _ => past

/-- Scanned, inherited, or attested by an entry that is itself one of these. -/
inductive Trusted (past : Learned) : DeviceIdentity → Prop
  | scanned {bundle : DeviceKeyBundle} : bundle ∈ past.scanned →
      Trusted past (bundle.identity .scanned)
  | inherited {bundle : DeviceKeyBundle} : bundle ∈ past.handedOver →
      Trusted past (bundle.identity .inherited)
  | attested {signer : DeviceIdentity} {key : SigningKey} {attestation : DeviceAttestation} :
      Trusted past signer → signer.signingPublicKey = some key →
      attestation.fields.signerDeviceId = signer.id → attestation.fields.groupId = groupId →
      verify key attestation.fields attestation.signature = some true →
      Trusted past ⟨attestation.fields.deviceId, attestation.fields.publicKey,
        some attestation.fields.signingPublicKey, .attested⟩

/-- Every label but the weakest is earned. -/
def Sound (past : Learned) (store : DeviceIdentities) : Prop :=
  ∀ i e, store.get? i = some e → e.trust = .tofu ∨ Trusted verify groupId past e

/-- The roster entry comes with an attestation of this group over the keys it shows. -/
structure Attests (device : RosterDevice) (attestation : DeviceAttestation) : Prop where
  shown : device.attestation = some attestation
  groupId : attestation.fields.groupId = groupId
  deviceId : attestation.fields.deviceId = device.id
  publicKey : attestation.fields.publicKey = device.publicKey
  signingPublicKey : some attestation.fields.signingPublicKey = device.signingPublicKey

/-- An entry of `entries` whose attestation verifies under a key that is held, or under one
that a vouched entry brings. -/
inductive Vouched (known : DeviceIdentities) (entries : List RosterDevice) : RosterDevice → Prop
  | known {device : RosterDevice} {attestation : DeviceAttestation} {signer : DeviceIdentity}
      {key : SigningKey} :
      device ∈ entries → Attests groupId device attestation →
      known.get? attestation.fields.signerDeviceId = some signer →
        signer.signingPublicKey = some key →
      verify key attestation.fields attestation.signature = some true → Vouched known entries device
  | chain {device signer : RosterDevice} {attestation : DeviceAttestation} {key : SigningKey} :
      device ∈ entries → Attests groupId device attestation →
      Vouched known entries signer → signer.id = attestation.fields.signerDeviceId →
      signer.signingPublicKey = some key →
      verify key attestation.fields attestation.signature = some true → Vouched known entries device

/-- Two entries show the same keys. -/
def SameShown (d d' : RosterDevice) : Prop :=
  d'.publicKey = d.publicKey ∧ d'.signingPublicKey = d.signingPublicKey

/-- A roster from which nothing is taken under a label it has not earned. -/
structure Plain (known : DeviceIdentities) (devices : List RosterDevice) : Prop where
  /-- A device that is vouched for is not listed with other keys as well. -/
  single : ∀ d ∈ devices.filter (reconcileDevices.unresolved inherited known),
    ∀ d' ∈ devices.filter (reconcileDevices.unresolved inherited known),
    d'.id = d.id →
      Vouched verify groupId known (devices.filter (reconcileDevices.unresolved inherited known))
        d → SameShown d d'
  /-- The first signing key of a device that is more than `tofu` is vouched for. -/
  first : ∀ d ∈ devices.filter (reconcileDevices.unresolved inherited known), ∀ e,
    known.get? d.id = some e → e.trust ≠ .tofu →
    ∃ d' ∈ devices.filter (reconcileDevices.unresolved inherited known), d'.id = d.id ∧
      Vouched verify groupId known (devices.filter (reconcileDevices.unresolved inherited known)) d'

/-- The guard on a call: only what a roster shows can do harm. -/
def Earned (s : DeviceIdentities × Learned) : Call → Prop
  | .reconcileDevices devices => Plain inherited verify groupId s.1 devices
  | _ => True

end

variable {inherited : DeviceId → Bool} {verify : VerifyStatement} {groupId : GroupId}
    {past : Learned} {known next : DeviceIdentities}
  {devices entries pending : List RosterDevice}

theorem Trusted.mono {past' : Learned} (hs : ∀ b ∈ past.scanned, b ∈ past'.scanned)
    (hh : ∀ b ∈ past.handedOver, b ∈ past'.handedOver) {e : DeviceIdentity}
    (h : Trusted verify groupId past e) :
    Trusted verify groupId past' e := by
  induction h with
  | scanned hb => exact .scanned (hs _ hb)
  | inherited hb => exact .inherited (hh _ hb)
  | attested _ hk hid hg hv ih => exact .attested ih hk hid hg hv

theorem Sound.mono {past' : Learned} (hs : ∀ b ∈ past.scanned, b ∈ past'.scanned)
    (hh : ∀ b ∈ past.handedOver, b ∈ past'.handedOver) (h : Sound verify groupId past known) :
    Sound verify groupId past' known := fun i e he => (h i e he).imp_right (Trusted.mono hs hh)

theorem Sound.put {e : DeviceIdentity} (h : Sound verify groupId past known)
    (he : e.trust = .tofu ∨ Trusted verify groupId past e) :
    Sound verify groupId past (known.put e) := by
  intro i e' he'
  rw [Table.get?_put] at he'
  split_ifs at he' with hi
  · obtain rfl := Option.some.inj he'
    exact he
  · exact h i e' he'

theorem sound_pinned {bundle : DeviceKeyBundle} (h : Sound verify groupId past known)
    (hb : bundle ∈ past.scanned) :
    Sound verify groupId past (known.pinned bundle) := h.put (Or.inr (.scanned hb))

/-- Seeding takes a bundle only for a device that is not scanned, and no bundle makes one so. -/
theorem sound_seeded {bundles : List DeviceKeyBundle} (h : Sound verify groupId past known)
    (hb : ∀ b ∈ bundles, (¬ (known.get? b.deviceId).any fun e => decide (e.trust = .scanned)) →
      b ∈ past.handedOver) :
    Sound verify groupId past (known.seeded bundles) := by
  have hfold : ∀ (bs : List DeviceKeyBundle) (cur : DeviceIdentities), (∀ b ∈ bs, b ∈ bundles) →
      (∀ i, (known.get? i).any (fun e => decide (e.trust = .scanned)) = true →
        (cur.get? i).any (fun e => decide (e.trust = .scanned)) = true) →
      Sound verify groupId past cur →
        Sound verify groupId past (bs.foldl DeviceIdentities.seedOne cur) := by
    intro bs
    induction bs with
    | nil => exact fun cur _ _ hcur => hcur
    | cons b bs ih =>
      intro cur hbs hscanned hcur
      rw [List.foldl_cons]
      refine ih _ (fun c hc => hbs c (List.mem_cons_of_mem _ hc)) ?_ ?_
      · intro i hi
        unfold DeviceIdentities.seedOne
        split_ifs with hskip
        · exact hscanned i hi
        · rw [Table.get?_put]
          split_ifs with hid
          · have hdevice : i = b.deviceId := hid
            exact absurd (hdevice ▸ hscanned i hi) hskip
          · exact hscanned i hi
      · unfold DeviceIdentities.seedOne
        split_ifs with hskip
        · exact hcur
        · refine hcur.put (Or.inr (.inherited (hb b (hbs b List.mem_cons_self) ?_)))
          exact fun hk => hskip (hscanned _ hk)
  exact hfold bundles known (fun _ hb => hb) (fun _ hi => hi) h

/-- The loop adopts an entry. -/
def Adopts (verify : VerifyStatement) (groupId : GroupId) (next : DeviceIdentities)
    (device : RosterDevice) (signer : DeviceIdentity) : Prop :=
  ∃ attestation key, Attests groupId device attestation ∧
    next.get? attestation.fields.signerDeviceId = some signer ∧
    signer.signingPublicKey = some key ∧
    verify key attestation.fields attestation.signature = some true

/-- What the loop puts for an entry it adopts. -/
def adopted (device : RosterDevice) (signer : DeviceIdentity) : DeviceIdentity :=
  ⟨device.id, device.publicKey, device.signingPublicKey,
    if signer.trust = .tofu then .tofu else .attested⟩

theorem signing_eq_some {device : RosterDevice} {attestation : DeviceAttestation}
    {signer : DeviceIdentity} {key signingPublicKey : SigningKey} :
    reconcileDevices.signing groupId next device =
      some (attestation, signer, key, signingPublicKey) ↔
      device.attestation = some attestation ∧
      next.get? attestation.fields.signerDeviceId = some signer ∧
        signer.signingPublicKey = some key ∧ device.signingPublicKey = some signingPublicKey ∧
        attestation.fields.groupId = groupId := by
  simp only [reconcileDevices.signing, Option.bind_eq_bind, Option.bind_eq_some_iff,
    Option.ite_none_right_eq_some,
    Option.some.injEq, Prod.mk.injEq]
  constructor
  · rintro ⟨_, ha, _, hs, _, hk, _, hd, hg, rfl, rfl, rfl, rfl⟩
    exact ⟨ha, hs, hk, hd, hg⟩
  · rintro ⟨ha, hs, hk, hd, hg⟩
    exact ⟨_, ha, _, hs, _, hk, _, hd, hg, rfl, rfl, rfl, rfl⟩

theorem attestationHolds_eq_true {attestation : DeviceAttestation} {device : RosterDevice}
    {key : SigningKey} :
    reconcileDevices.attestationHolds verify attestation device key = some true ↔
      attestation.fields.deviceId = device.id ∧ attestation.fields.publicKey = device.publicKey ∧
        some attestation.fields.signingPublicKey = device.signingPublicKey ∧
        verify key attestation.fields attestation.signature = some true := by
  unfold reconcileDevices.attestationHolds
  split_ifs with h
  · simp only [Option.some.injEq, Bool.false_eq_true, false_iff]
    rintro ⟨hd, hp, hs, -⟩
    rcases h with h | h | h
    · exact h hd
    · exact h hp
    · exact h hs
  · push Not at h
    exact ⟨fun hv => ⟨h.1, h.2.1, h.2.2, hv⟩, fun hv => hv.2.2.2⟩

/-- One entry of a round is adopted, or nothing changes and it cannot be. -/
theorem attest_cases {state state' : DeviceIdentities × List RosterDevice} {device : RosterDevice}
    (h : reconcileDevices.attest verify groupId state device = some state') :
    (state' = (state.1, state.2 ++ [device]) ∧ ∀ signer,
      ¬ Adopts verify groupId state.1 device signer) ∨
    ∃ signer, Adopts verify groupId state.1 device signer ∧
      state' = (state.1.put (adopted device signer), state.2) := by
  unfold reconcileDevices.attest at h
  cases hs : reconcileDevices.signing groupId state.1 device with
  | none =>
    rw [hs] at h
    refine Or.inl ⟨(Option.some.inj h).symm, ?_⟩
    rintro signer ⟨attestation, key, hatt, hget, hkey, -⟩
    have hsome :=
      signing_eq_some.mpr ⟨hatt.shown, hget, hkey, hatt.signingPublicKey.symm, hatt.groupId⟩
    rw [hs] at hsome
    cases hsome
  | some found =>
    obtain ⟨attestation, signer, key, signingPublicKey⟩ := found
    rw [hs] at h
    obtain ⟨hshown, hget, hkey, hsigning, hgroup⟩ := signing_eq_some.mp hs
    obtain ⟨holds, hholds, rfl⟩ := Option.map_eq_some_iff.mp h
    cases holds with
    | false =>
      refine Or.inl ⟨rfl, ?_⟩
      rintro signer' ⟨attestation', key', hatt, hget', hkey', hverify⟩
      obtain rfl := Option.some.inj (hshown.symm.trans hatt.shown)
      obtain rfl := Option.some.inj (hget.symm.trans hget')
      obtain rfl := Option.some.inj (hkey.symm.trans hkey')
      have htrue :=
        attestationHolds_eq_true.mpr ⟨hatt.deviceId, hatt.publicKey, hatt.signingPublicKey, hverify⟩
      rw [hholds] at htrue
      cases htrue
    | true =>
      obtain ⟨hid, hpub, hsign, hverify⟩ := attestationHolds_eq_true.mp hholds
      refine Or.inr ⟨signer,
        ⟨attestation, key, ⟨hshown, hgroup, hid, hpub, hsign⟩, hget, hkey, hverify⟩, ?_⟩
      rw [adopted, hsigning]
      rfl

/-- Where a call stands: what it holds by now, and the entries it has not adopted. -/
structure Adopting (verify : VerifyStatement) (groupId : GroupId) (past : Learned)
    (known : DeviceIdentities) (entries : List RosterDevice) (next : DeviceIdentities)
    (unadopted : List RosterDevice) : Prop where
  sound : Sound verify groupId past next
  entry : ∀ d ∈ unadopted, d ∈ entries
  /-- An entry that was not held before has the keys of one that is vouched for. -/
  held : ∀ i e, next.get? i = some e → known.get? i = some e ∨ ∃ d ∈ entries, d.id = i ∧
    Vouched verify groupId known entries d ∧ e.publicKey = d.publicKey ∧
      e.signingPublicKey = d.signingPublicKey
  done : ∀ d ∈ entries, d ∈ unadopted ∨ ∃ e, next.get? d.id = some e ∧ e.publicKey = d.publicKey ∧
    e.signingPublicKey = d.signingPublicKey
  kept : ∀ i, (∀ d ∈ entries, d.id ≠ i) → next.get? i = known.get? i

/-- No device is listed with other keys than the ones it is vouched for with. -/
def Single (verify : VerifyStatement) (groupId : GroupId) (known : DeviceIdentities)
    (entries : List RosterDevice) : Prop :=
  ∀ d ∈ entries, ∀ d' ∈ entries, d'.id = d.id → Vouched verify groupId known entries d →
  SameShown d d'

namespace Adopting

variable {unadopted : List RosterDevice}

theorem start (h : Sound verify groupId past known) :
    Adopting verify groupId past known entries known entries where
  sound := h
  entry := fun _ hd => hd
  held := fun _ _ he => Or.inl he
  done := fun _ hd => Or.inl hd
  kept := fun _ _ => rfl

/-- What is adopted is vouched for, by a key that was held or by one adopted before. -/
theorem vouched (h : Adopting verify groupId past known entries next unadopted) {d : RosterDevice}
    (hd : d ∈ entries) {signer : DeviceIdentity} (ha : Adopts verify groupId next d signer) :
    Vouched verify groupId known entries d := by
  obtain ⟨attestation, key, hatt, hget, hkey, hverify⟩ := ha
  rcases h.held _ _ hget with hk | ⟨s, -, hid, hs, -, hsign⟩
  · exact .known hd hatt hk hkey hverify
  · exact .chain hd hatt hs hid (hsign.symm.trans hkey) hverify

/-- Its label is earned: the chain is as strong as the signer's. -/
theorem adopted_sound (h : Adopting verify groupId past known entries next unadopted)
    {d : RosterDevice} {signer : DeviceIdentity} (ha : Adopts verify groupId next d signer) :
    (adopted d signer).trust = .tofu ∨ Trusted verify groupId past (adopted d signer) := by
  obtain ⟨attestation, key, hatt, hget, hkey, hverify⟩ := ha
  rcases h.sound _ _ hget with htofu | htrusted
  · exact Or.inl (if_pos htofu)
  · by_cases htofu : signer.trust = .tofu
    · exact Or.inl (if_pos htofu)
    · have hsigner : signer.id = attestation.fields.signerDeviceId := (Table.get?_eq_some.mp hget).2
      have hadopted : adopted d signer = ⟨attestation.fields.deviceId, attestation.fields.publicKey,
          some attestation.fields.signingPublicKey, .attested⟩ := by
        rw [adopted, if_neg htofu, hatt.deviceId, hatt.publicKey, hatt.signingPublicKey]
      rw [hadopted]
      exact Or.inr (.attested htrusted hkey hsigner.symm hatt.groupId hverify)

theorem adopt (hsingle : Single verify groupId known entries) {d : RosterDevice}
    {still rest : List RosterDevice}
    (h : Adopting verify groupId past known entries next (still ++ d :: rest))
    {signer : DeviceIdentity} (ha : Adopts verify groupId next d signer) :
    Adopting verify groupId past known entries (next.put (adopted d signer)) (still ++ rest) := by
  have hd : d ∈ entries := h.entry d (by simp)
  have hv := h.vouched hd ha
  have hput : ∀ k,
      (next.put (adopted d signer)).get? k =
        if k = d.id then some (adopted d signer) else next.get? k :=
    fun k => Table.get?_put
  refine ⟨h.sound.put (h.adopted_sound ha), ?_, ?_, ?_, ?_⟩
  · intro d' hd'
    refine h.entry d' ?_
    simp only [List.mem_append, List.mem_cons] at hd' ⊢
    exact hd'.imp_right Or.inr
  · intro i e he
    rw [hput] at he
    split_ifs at he with hi
    · obtain rfl := Option.some.inj he
      exact Or.inr ⟨d, hd, hi.symm, hv, rfl, rfl⟩
    · exact h.held i e he
  · intro d' hd'
    rw [hput]
    by_cases hi : d'.id = d.id
    · obtain ⟨hpub, hsign⟩ := hsingle d hd d' hd' hi hv
      exact Or.inr ⟨adopted d signer, if_pos hi, hpub.symm, hsign.symm⟩
    · rw [if_neg hi]
      refine (h.done d' hd').imp_left fun hmem => ?_
      simp only [List.mem_append, List.mem_cons] at hmem ⊢
      exact hmem.imp_right fun hrest => hrest.resolve_left fun heq => hi (congrArg _ heq)
  · intro i hi
    rw [hput, if_neg fun heq => hi d hd heq.symm]
    exact h.kept i hi

theorem round {state : DeviceIdentities × List RosterDevice}
    (hsingle : Single verify groupId known entries)
    (h : Adopting verify groupId past known entries state.1 (state.2 ++ pending))
    {state' : DeviceIdentities × List RosterDevice}
    (hround : pending.foldlM (reconcileDevices.attest verify groupId) state = some state') :
    Adopting verify groupId past known entries state'.1 state'.2 := by
  induction pending generalizing state with
  | nil =>
    obtain rfl := Option.some.inj hround
    simpa using h
  | cons d pending ih =>
    rw [List.foldlM_cons] at hround
    obtain ⟨mid, hmid, hrest⟩ := Option.bind_eq_some_iff.mp hround
    rcases attest_cases hmid with ⟨rfl, -⟩ | ⟨signer, ha, rfl⟩
    · refine ih ?_ hrest
      rw [List.append_assoc]
      exact h
    · exact ih (h.adopt hsingle ha) hrest

end Adopting

/-- A round that adopts nothing leaves everything as it was, and nothing could be adopted. -/
theorem foldlM_attest_stuck {state state' : DeviceIdentities × List RosterDevice}
    (h : pending.foldlM (reconcileDevices.attest verify groupId) state = some state')
    (hlen : state'.2.length = state.2.length + pending.length) :
    state' = (state.1, state.2 ++ pending) ∧ ∀ d ∈ pending, ∀ signer,
    ¬ Adopts verify groupId state.1 d signer := by
  induction pending generalizing state with
  | nil =>
    obtain rfl := Option.some.inj h
    exact ⟨by simp, by simp⟩
  | cons d pending ih =>
    rw [List.foldlM_cons] at h
    obtain ⟨mid, hmid, hrest⟩ := Option.bind_eq_some_iff.mp h
    have hle := reconcileDevices.foldlM_attest_length hrest
    rw [List.length_cons] at hlen
    rcases attest_cases hmid with ⟨rfl, hstuck⟩ | ⟨signer, -, rfl⟩
    · obtain ⟨hstate, hall⟩ := ih hrest (by simp; omega)
      refine ⟨by rw [hstate]; simp, List.forall_mem_cons.mpr ⟨hstuck, hall⟩⟩
    · exact absurd hlen (by dsimp only at hle; omega)

theorem Adopting.rounds {n : ℕ} (hsingle : Single verify groupId known entries)
    (h : Adopting verify groupId past known entries next pending) (hn : pending.length ≤ n)
    {result : DeviceIdentities × List RosterDevice}
    (hrounds : reconcileDevices.rounds verify groupId n next pending = some result) :
    Adopting verify groupId past known entries result.1 result.2 ∧
      ∀ d ∈ result.2, ∀ signer, ¬ Adopts verify groupId result.1 d signer := by
  induction n generalizing next pending with
  | zero =>
    obtain rfl := Option.some.inj hrounds
    have hnil : pending = [] := List.length_eq_zero_iff.mp (Nat.le_zero.mp hn)
    subst hnil
    exact ⟨h, by simp⟩
  | succ n ih =>
    obtain ⟨⟨mid, still⟩, hround, hrest⟩ := Option.bind_eq_some_iff.mp hrounds
    have hmid : Adopting verify groupId past known entries mid still :=
      @Adopting.round _ _ _ _ _ _ (next, []) hsingle h _ hround
    dsimp only at hrest
    split_ifs at hrest with hstuck
    · obtain rfl := Option.some.inj hrest
      obtain ⟨hstate, hall⟩ := foldlM_attest_stuck hround (by simpa using hstuck)
      obtain ⟨rfl, rfl⟩ := Prod.mk.inj hstate
      exact ⟨hmid, by simpa using hall⟩
    · have hle : still.length ≤ pending.length := by
        simpa using reconcileDevices.foldlM_attest_length hround
      exact ih hmid (by omega) hrest

/-- Where the loop is stuck, all that is vouched for has been adopted. -/
theorem Adopting.done_of_vouched {unadopted : List RosterDevice}
    (hun : ∀ d ∈ entries, reconcileDevices.unresolved inherited known d = true)
    (h : Adopting verify groupId past known entries next unadopted)
    (hstuck : ∀ d ∈ unadopted, ∀ signer, ¬ Adopts verify groupId next d signer) {d : RosterDevice}
    (hd : Vouched verify groupId known entries d) :
    ∃ e, next.get? d.id = some e ∧ e.publicKey = d.publicKey ∧
      e.signingPublicKey = d.signingPublicKey := by
  induction hd with
  | known hd hatt hget hkey hverify =>
    refine (h.done _ hd).resolve_left fun hleft => hstuck _ hleft _ ⟨_, _, hatt, ?_, hkey, hverify⟩
    rw [h.kept _ ?_, hget]
    intro d' hd' hid
    have hun' := hun d' hd'
    simp [reconcileDevices.unresolved, hid, hget, hkey] at hun'
  | chain hd hatt _ hid hkey hverify ih =>
    obtain ⟨e, he, -, hsign⟩ := ih
    exact (h.done _ hd).resolve_left fun hleft =>
      hstuck _ hleft e ⟨_, _, hatt, hid ▸ he, hsign.trans hkey, hverify⟩

/-- What is left over changes no entry but to `tofu`, when every device held under another
label is listed with the keys that are held. -/
theorem sound_adoptPending (h : Sound verify groupId past next)
    (hkeys : ∀ d ∈ pending, ∀ e, next.get? d.id = some e →
      e.trust = .tofu ∨ e.publicKey = d.publicKey ∧ e.signingPublicKey = d.signingPublicKey) :
    Sound verify groupId past (pending.foldl reconcileDevices.adoptPending next) := by
  induction pending generalizing next with
  | nil => exact h
  | cons d pending ih =>
    obtain ⟨hd, hrest⟩ := List.forall_mem_cons.mp hkeys
    have hput : ∀ k e, (reconcileDevices.adoptPending next d).get? k = some e → e.trust = .tofu ∨
        next.get? k = some e := by
      intro k e he
      rw [reconcileDevices.adoptPending, Table.get?_put] at he
      split_ifs at he with hk
      · have hk' : k = d.id := hk
        subst hk'
        obtain rfl := Option.some.inj he
        cases hget : next.get? d.id with
        | none => exact Or.inl rfl
        | some held =>
          rcases hd held hget with htofu | ⟨hpub, hsign⟩
          · exact Or.inl htofu
          · have hid : held.id = d.id := (Table.get?_eq_some.mp hget).2
            exact Or.inr (by rw [← hid, ← hpub, ← hsign]; rfl)
      · exact Or.inr he
    refine ih ?_ ?_
    · intro k e he
      exact (hput k e he).elim Or.inl (h k e)
    · intro d' hd' e he
      exact (hput d'.id e he).elim Or.inl (hrest d' hd' e)

/-- Reconciling a plain roster keeps every label earned. -/
theorem sound_run (h : Sound verify groupId past known)
    (hplain : Plain inherited verify groupId known devices)
    {result : DeviceIdentities × List DeviceId}
    (hrun : reconcileDevices.run inherited verify devices groupId known = some result) :
    Sound verify groupId past result.1 := by
  obtain ⟨⟨next, left⟩, hrounds, heq⟩ := Option.bind_eq_some_iff.mp hrun
  obtain rfl := Option.some.inj heq
  have hun : ∀ d ∈ devices.filter (reconcileDevices.unresolved inherited known),
      reconcileDevices.unresolved inherited known d = true :=
    fun d hd => (List.mem_filter.mp hd).2
  obtain ⟨hadopting, hstuck⟩ := (Adopting.start h).rounds hplain.single le_rfl hrounds
  have hdone := fun d => hadopting.done_of_vouched (d := d) hun hstuck
  have hkeys : ∀ d ∈ left, ∀ e, next.get? d.id = some e →
      e.trust = .tofu ∨ e.publicKey = d.publicKey ∧ e.signingPublicKey = d.signingPublicKey := by
    intro d hd e he
    have hmem := hadopting.entry d hd
    have hsame : ∀ d', d' ∈ devices.filter (reconcileDevices.unresolved inherited known) →
        d'.id = d.id →
        Vouched verify groupId known
          (devices.filter (reconcileDevices.unresolved inherited known)) d' →
        e.publicKey = d'.publicKey → e.signingPublicKey = d'.signingPublicKey →
        e.publicKey = d.publicKey ∧ e.signingPublicKey = d.signingPublicKey := by
      intro d' hd' hid hv hpub hsign
      obtain ⟨hpub', hsign'⟩ := hplain.single d' hd' d hmem hid.symm hv
      exact ⟨hpub.trans hpub'.symm, hsign.trans hsign'.symm⟩
    rcases hadopting.held _ _ he with hk | ⟨d', hd', hid, hv, hpub, hsign⟩
    · by_cases htofu : e.trust = .tofu
      · exact Or.inl htofu
      · obtain ⟨d', hd', hid, hv⟩ := hplain.first d hmem e hk htofu
        obtain ⟨e', he', hpub, hsign⟩ := hdone d' hv
        obtain rfl : e = e' := Option.some.inj (he.symm.trans (hid ▸ he'))
        exact Or.inr (hsame d' hd' hid hv hpub hsign)
    · exact Or.inr (hsame d' hd' hid hv hpub hsign)
  intro i e he
  rw [reconcileDevices.dropAbsent, Table.get?_delete, Option.filter_eq_some_iff] at he
  exact sound_adoptPending hadopting.sound hkeys i e he.1

theorem sound_step {s : DeviceIdentities} {call : Call} {t : DeviceIdentities}
    (h : Sound verify groupId past s) (hearned : Earned inherited verify groupId (s, past) call)
    (hs : step inherited verify groupId s call = some t) :
    Sound verify groupId (note s call t past) t := by
  cases call with
  | pinScannedDevice bundle =>
    obtain rfl := Option.some.inj hs
    exact sound_pinned (h.mono (fun b hb => List.mem_cons_of_mem _ hb) fun b hb => hb)
      List.mem_cons_self
  | seedInheritedIdentities bundles =>
    obtain rfl := Option.some.inj hs
    have hpast :
        Sound verify groupId
          (note s (.seedInheritedIdentities bundles) (s.seeded bundles) past) s := by
      refine h.mono ?_ ?_
      · exact fun b hb => hb
      · exact fun b hb => List.mem_append_right _ hb
    refine sound_seeded hpast fun b hb hnot => ?_
    exact List.mem_append_left _ (List.mem_filter.mpr ⟨hb, by simpa using hnot⟩)
  | reconcileDevices devices =>
    obtain rfl := Option.some.inj hs
    cases hrun : reconcileDevices.run inherited verify devices groupId s with
    | none => exact h
    | some result => exact sound_run h hearned hrun

/-- Nothing but pins of before signing at the start. -/
theorem sound_upgraded (legacy : Table DevicePin.id) :
    Sound verify groupId past (DeviceIdentities.upgraded legacy) := by
  intro i e he
  obtain ⟨pin, -, hpin⟩ := Table.mem_collect.mp (Table.mem_of_get? he)
  obtain rfl := Option.some.inj hpin
  exact Or.inl rfl

/-- Every label is earned in every state that calls lead to, when every roster is plain. -/
theorem labels_sound (inherited : DeviceId → Bool) (verify : VerifyStatement) (groupId : GroupId)
    (legacy : Table DevicePin.id) {s : DeviceIdentities × Learned}
    (h : ReachableVia (recorded (step inherited verify groupId) note)
      (Earned inherited verify groupId) (.upgraded legacy, ⟨[], []⟩) s) :
    ∀ i e, s.1.get? i = some e → e.trust = .tofu ∨ Trusted verify groupId s.2 e :=
  h.recorded_invariant (I := fun store past => Sound verify groupId past store)
    (sound_upgraded legacy)
    fun _ _ _ _ hI hok hs => sound_step hI hok hs

/-- Device 1 has signed one attestation with its key 41. -/
def signed : DeviceAttestation := ⟨⟨7, 2, 25, 45, 1, 0⟩, 41⟩

def verifyOne : VerifyStatement := fun key fields signature =>
  some (decide (key = 41 ∧ fields = signed.fields ∧ signature = signed.signature))

abbrev nothing : DeviceIdentities × Learned := (.upgraded .empty, ⟨[], []⟩)

abbrev first : DeviceKeyBundle := ⟨1, 24, some 41⟩

abbrev second : RosterDevice := ⟨2, 25, some 45, some signed⟩

/-- Device 2 was scanned before it had a signing key, and device 1 vouches for the one it
publishes. -/
theorem labels_sound_attested :
    ∃ s : DeviceIdentities × Learned, s.1.get? 2 = some ⟨2, 25, some 45, .attested⟩ ∧
    ∀ i e, s.1.get? i = some e → e.trust = .tofu ∨ Trusted verifyOne 7 s.2 e := by
  let known := ((DeviceIdentities.upgraded .empty).pinned first).pinned ⟨2, 25, none⟩
  let devices := [⟨1, 24, some 41, none⟩, second]
  have hfilter : devices.filter (reconcileDevices.unresolved (fun _ => false) known) =
      [second] := by decide +kernel
  have hvouched : Vouched verifyOne 7 known [second] second := by
    have hget : known.get? signed.fields.signerDeviceId = some (first.identity .scanned) := by
      decide +kernel
    exact .known (List.mem_singleton.mpr rfl) ⟨rfl, rfl, rfl, rfl, rfl⟩ hget rfl (by decide +kernel)
  have hplain : Plain (fun _ => false) verifyOne 7 known devices := by
    constructor
    · rw [hfilter]
      intro d hd d' hd' _ _
      rw [List.mem_singleton.mp hd, List.mem_singleton.mp hd']
      exact ⟨rfl, rfl⟩
    · rw [hfilter]
      intro d hd _ _ _
      exact ⟨second, List.mem_singleton.mpr rfl, by rw [List.mem_singleton.mp hd], hvouched⟩
  have hpinned :
      ReachableVia (recorded (step (fun _ => false) verifyOne 7) note)
        (Earned (fun _ => false) verifyOne 7) nothing
      (known, ⟨[⟨2, 25, none⟩, first], []⟩) :=
    (ReachableVia.start.next (e := .pinScannedDevice first) trivial rfl).next
      (e := .pinScannedDevice ⟨2, 25, none⟩) trivial rfl
  have hearned :
      Earned (fun _ => false) verifyOne 7 (known, ⟨[⟨2, 25, none⟩, first], []⟩)
        (.reconcileDevices devices) := hplain
  have hrun := hpinned.next hearned rfl
  exact ⟨_, by decide +kernel, labels_sound (fun _ => false) verifyOne 7 .empty hrun⟩

theorem Trusted.inv {e : DeviceIdentity} (h : Trusted verify groupId past e) :
    (∃ bundle ∈ past.scanned, e = bundle.identity .scanned) ∨
    (∃ bundle ∈ past.handedOver, e = bundle.identity .inherited) ∨
      ∃ key fields signature, verify key fields signature = some true ∧
        e = ⟨fields.deviceId, fields.publicKey, some fields.signingPublicKey, .attested⟩ := by
  cases h with
  | scanned hb => exact Or.inl ⟨_, hb, rfl⟩
  | inherited hb => exact Or.inr (Or.inl ⟨_, hb, rfl⟩)
  | attested _ _ _ _ hv => exact Or.inr (Or.inr ⟨_, _, _, hv, rfl⟩)

/-- What calls from nothing make of device 2. -/
def becomes (calls : List Call) (e : DeviceIdentity) : Prop :=
  (replay (recorded (step (fun _ => false) verifyOne 7) note) nothing calls).any (fun s =>
    decide (s.1.get? 2 = some e ∧ (∀ b ∈ s.2.scanned, e ≠ b.identity .scanned) ∧
      (∀ b ∈ s.2.handedOver, e ≠ b.identity .inherited) ∧
      e ≠ ⟨signed.fields.deviceId, signed.fields.publicKey, some signed.fields.signingPublicKey,
        .attested⟩)) = true

theorem unearned_of_becomes {calls : List Call} {e : DeviceIdentity} (h : becomes calls e) :
    ∃ s, Reachable (recorded (step (fun _ => false) verifyOne 7) note) nothing s ∧
      s.1.get? 2 = some e ∧ ¬ Trusted verifyOne 7 s.2 e := by
  obtain ⟨s, hr, hget, hscanned, hhanded, hattested⟩ := exists_reachable_of_replay h
  refine ⟨s, hr, hget, fun ht => ?_⟩
  rcases ht.inv with ⟨b, hb, he⟩ | ⟨b, hb, he⟩ | ⟨key, fields, signature, hv, he⟩
  · exact hscanned b hb he
  · exact hhanded b hb he
  · obtain ⟨-, hfields, -⟩ := of_decide_eq_true (Option.some.inj hv)
    exact hattested (by rw [he, hfields])

/-- A device that was scanned without a signing key keeps its label with the one the roster
shows. A device that is vouched for is listed once more with other keys, and keeps the label. -/
theorem labels_unearned :
    (∃ s, Reachable (recorded (step (fun _ => false) verifyOne 7) note) nothing s ∧
      s.1.get? 2 = some ⟨2, 25, some 46, .scanned⟩ ∧
      ¬ Trusted verifyOne 7 s.2 ⟨2, 25, some 46, .scanned⟩) ∧
    ∃ s, Reachable (recorded (step (fun _ => false) verifyOne 7) note) nothing s ∧
      s.1.get? 2 = some ⟨2, 26, some 46, .attested⟩ ∧
      ¬ Trusted verifyOne 7 s.2 ⟨2, 26, some 46, .attested⟩ :=
  ⟨unearned_of_becomes
    (show becomes [.pinScannedDevice ⟨2, 25, none⟩, .reconcileDevices [⟨2, 25, some 46, none⟩]] _ by
      unfold becomes
      decide +kernel),
    unearned_of_becomes (show becomes [.pinScannedDevice first,
      .reconcileDevices [⟨1, 24, some 41, none⟩, second, ⟨2, 26, some 46, none⟩]] _ by
      unfold becomes
      decide +kernel)⟩

end SendSelf.Labels
