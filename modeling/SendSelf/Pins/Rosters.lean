import SendSelf.Pins.Labels

/-!
# A roster in any order

The loop of `reconcileDevices` goes over a list and changes the store as it goes, so a chain
of attestations is found in one round or in several. What it adopts does not depend on that:
the entries that are vouched for, each with the label that the signers above it give. Nor
does whether it throws, since in the end every signature is checked under the only key that
its signer is ever held with.
-/
namespace SendSelf.Rosters
open Labels

/-- A chain is as strong as its weakest link. -/
def chainTrust (trust : IdentityTrust) : IdentityTrust := if trust = .tofu then .tofu else .attested

section
variable (verify : VerifyStatement) (groupId : GroupId) (known : DeviceIdentities)
    (entries : List RosterDevice)

/-- Vouched for, with the label that the chain gives. -/
inductive Labelled : RosterDevice → IdentityTrust → Prop
  | known {device : RosterDevice} {attestation : DeviceAttestation} {signer : DeviceIdentity}
      {key : SigningKey} :
      device ∈ entries → Attests groupId device attestation →
      known.get? attestation.fields.signerDeviceId = some signer →
        signer.signingPublicKey = some key →
      verify key attestation.fields attestation.signature = some true →
        Labelled device (chainTrust signer.trust)
  | chain {device signer : RosterDevice} {attestation : DeviceAttestation} {key : SigningKey}
      {trust : IdentityTrust} :
      device ∈ entries → Attests groupId device attestation → Labelled signer trust →
      signer.id = attestation.fields.signerDeviceId → signer.signingPublicKey = some key →
      verify key attestation.fields attestation.signature = some true →
        Labelled device (chainTrust trust)

/-- An entry of the chain of signers of a device, as it is held: the signer, or one above it. -/
inductive OnChain (store : DeviceIdentities) : RosterDevice → DeviceIdentity → Prop
  | known {device : RosterDevice} {attestation : DeviceAttestation} {signer : DeviceIdentity}
      {key : SigningKey} :
      Attests groupId device attestation →
        known.get? attestation.fields.signerDeviceId = some signer →
      signer.signingPublicKey = some key → OnChain store device signer
  | signer {device signer : RosterDevice} {attestation : DeviceAttestation}
      {held : DeviceIdentity} :
      Attests groupId device attestation → Vouched verify groupId known entries signer →
      signer.id = attestation.fields.signerDeviceId → store.get? signer.id = some held →
        OnChain store device held
  | above {device signer : RosterDevice} {attestation : DeviceAttestation} {held : DeviceIdentity} :
      Attests groupId device attestation → Vouched verify groupId known entries signer →
      signer.id = attestation.fields.signerDeviceId → OnChain store signer held →
        OnChain store device held

/-- A signature over the keys of an entry that cannot be checked: its signer is held with a key
that cannot be imported. -/
def Unchecked : Prop :=
  ∃ device ∈ entries, ∃ attestation key, Attests groupId device attestation ∧
    ((∃ signer, known.get? attestation.fields.signerDeviceId = some signer ∧
      signer.signingPublicKey = some key) ∨
      ∃ signer, Vouched verify groupId known entries signer ∧
      signer.id = attestation.fields.signerDeviceId ∧
        signer.signingPublicKey = some key) ∧
    verify key attestation.fields attestation.signature = none

/-- Each entry has an id of its own, and no signing key is held of it. -/
structure Entries : Prop where
  ids : (entries.map RosterDevice.id).Nodup
  unsigned : ∀ d ∈ entries, ∀ e, known.get? d.id = some e → e.signingPublicKey = none

end

variable {inherited : DeviceId → Bool} {verify : VerifyStatement} {groupId : GroupId}
  {known next : DeviceIdentities} {entries pending unadopted : List RosterDevice}

theorem chainTrust_cases (trust : IdentityTrust) :
    chainTrust trust = .attested ∨ chainTrust trust = .tofu := by
  rw [chainTrust]
  split_ifs
  · exact Or.inr rfl
  · exact Or.inl rfl

theorem chainTrust_tofu {trust : IdentityTrust} : chainTrust trust = .tofu ↔ trust = .tofu := by
  rw [chainTrust]
  split_ifs with h <;> simp [h]

theorem Labelled.mem {d : RosterDevice} {t : IdentityTrust}
    (h : Labelled verify groupId known entries d t) : d ∈ entries := by
  cases h with
  | known hd => exact hd
  | chain hd => exact hd

theorem vouched_iff {d : RosterDevice} :
    Vouched verify groupId known entries d ↔ ∃ t, Labelled verify groupId known entries d t := by
  constructor
  · intro h
    induction h with
    | known hd hatt hget hkey hverify => exact ⟨_, .known hd hatt hget hkey hverify⟩
    | chain hd hatt _ hid hkey hverify ih =>
        obtain ⟨t, ht⟩ := ih
        exact ⟨_, .chain hd hatt ht hid hkey hverify⟩
  · rintro ⟨t, h⟩
    induction h with
    | known hd hatt hget hkey hverify => exact .known hd hatt hget hkey hverify
    | chain hd hatt _ hid hkey hverify ih => exact .chain hd hatt ih hid hkey hverify

namespace Entries

theorem eq_of_id (h : Entries known entries) {d d' : RosterDevice} (hd : d ∈ entries)
    (hd' : d' ∈ entries) (hid : d.id = d'.id) : d = d' := List.inj_on_of_nodup_map h.ids hd hd' hid

theorem keyless (h : Entries known entries) {d : RosterDevice} (hd : d ∈ entries)
    {e : DeviceIdentity} {key : SigningKey}
    (he : known.get? d.id = some e) (hkey : e.signingPublicKey = some key) : False :=
  absurd (hkey.symm.trans (h.unsigned d hd e he)) (Option.some_ne_none _)

/-- An entry has one signer, and so one label. -/
theorem unique (h : Entries known entries) {d : RosterDevice} {t t' : IdentityTrust}
    (ht : Labelled verify groupId known entries d t)
    (ht' : Labelled verify groupId known entries d t') : t = t' := by
  induction ht generalizing t' with
  | known hd hatt hget hkey _ =>
      cases ht' with
      | known _ hatt' hget' _ _ =>
          obtain rfl := Option.some.inj (hatt.shown.symm.trans hatt'.shown)
          rw [Option.some.inj (hget.symm.trans hget')]
      | chain _ hatt' hsigner hid _ _ =>
          obtain rfl := Option.some.inj (hatt.shown.symm.trans hatt'.shown)
          exact (h.keyless hsigner.mem (hid ▸ hget) hkey).elim
  | chain hd hatt hsigner hid _ _ ih =>
      cases ht' with
      | known _ hatt' hget hkey _ =>
          obtain rfl := Option.some.inj (hatt.shown.symm.trans hatt'.shown)
          exact (h.keyless hsigner.mem (hid ▸ hget) hkey).elim
      | chain _ hatt' hsigner' hid' _ _ =>
          obtain rfl := Option.some.inj (hatt.shown.symm.trans hatt'.shown)
          obtain rfl := h.eq_of_id hsigner.mem hsigner'.mem (hid.trans hid'.symm)
          rw [ih hsigner']

end Entries

/-- What an entry is held as, once adopted. -/
def heldAs (d : RosterDevice) (trust : IdentityTrust) : DeviceIdentity :=
  ⟨d.id, d.publicKey, d.signingPublicKey, trust⟩

/-- Where the loop stands: what it has adopted has the label of its chain. -/
structure Stage (verify : VerifyStatement) (groupId : GroupId) (known : DeviceIdentities)
    (entries : List RosterDevice)
    (next : DeviceIdentities) (unadopted : List RosterDevice) : Prop where
  entry : ∀ d ∈ unadopted, d ∈ entries
  nodup : unadopted.Nodup
  done : ∀ d ∈ entries, d ∉ unadopted →
    ∃ t, Labelled verify groupId known entries d t ∧ next.get? d.id = some (heldAs d t)
  kept : ∀ i, (∀ d ∈ entries, d.id = i → d ∈ unadopted) → next.get? i = known.get? i

/-- The signature of an entry is checked under this key. -/
def Attempts (groupId : GroupId) (next : DeviceIdentities) (d : RosterDevice)
    (attestation : DeviceAttestation) (key : SigningKey) : Prop :=
  Attests groupId d attestation ∧ ∃ signer,
    next.get? attestation.fields.signerDeviceId = some signer ∧
    signer.signingPublicKey = some key

/-- Nothing is to be done for an entry: it is not adopted, and its signature could be checked. -/
def Settled (verify : VerifyStatement) (groupId : GroupId) (next : DeviceIdentities)
    (d : RosterDevice) : Prop :=
  ∀ attestation key, Attempts groupId next d attestation key →
    verify key attestation.fields attestation.signature = some false

theorem attest_none {state : DeviceIdentities × List RosterDevice} {d : RosterDevice}
    (h : reconcileDevices.attest verify groupId state d = none) :
    ∃ attestation key, Attempts groupId state.1 d attestation key ∧
      verify key attestation.fields attestation.signature = none := by
  unfold reconcileDevices.attest at h
  cases hs : reconcileDevices.signing groupId state.1 d with
  | none =>
      rw [hs] at h
      exact absurd h (Option.some_ne_none _)
  | some found =>
      obtain ⟨attestation, signer, key, signingPublicKey⟩ := found
      rw [hs] at h
      obtain ⟨hshown, hget, hkey, hsigning, hgroup⟩ := signing_eq_some.mp hs
      have hholds : reconcileDevices.attestationHolds verify attestation d key = none :=
        Option.map_eq_none_iff.mp h
      unfold reconcileDevices.attestationHolds at hholds
      split_ifs at hholds with hother
      push Not at hother
      exact ⟨attestation, key,
        ⟨⟨hshown, hgroup, hother.1, hother.2.1, hother.2.2⟩, signer, hget, hkey⟩, hholds⟩

/-- An entry that stays pending is settled as things stand. -/
theorem settled_of_attest {state state' : DeviceIdentities × List RosterDevice} {d : RosterDevice}
    (h : reconcileDevices.attest verify groupId state d = some state')
    (hstuck : ∀ signer, ¬ Adopts verify groupId state.1 d signer) :
    Settled verify groupId state.1 d := by
  rintro attestation key ⟨hatt, signer, hget, hkey⟩
  cases hverify : verify key attestation.fields attestation.signature with
  | some holds =>
      cases holds with
      | false => rfl
      | true => exact absurd ⟨attestation, key, hatt, hget, hkey, hverify⟩ (hstuck signer)
  | none =>
      have hsigning :=
        signing_eq_some.mpr ⟨hatt.shown, hget, hkey, hatt.signingPublicKey.symm, hatt.groupId⟩
      have hholds : reconcileDevices.attestationHolds verify attestation d key = none := by
        rw [reconcileDevices.attestationHolds, if_neg, hverify]
        simp [hatt.deviceId, hatt.publicKey, hatt.signingPublicKey]
      unfold reconcileDevices.attest at h
      rw [hsigning] at h
      dsimp only at h
      rw [hholds] at h
      exact absurd h.symm (Option.some_ne_none _)

/-- After a round that adopts nothing, nothing is to be done. -/
theorem settled_of_stuck {state state' : DeviceIdentities × List RosterDevice}
    (h : pending.foldlM (reconcileDevices.attest verify groupId) state = some state')
    (hlen : state'.2.length = state.2.length + pending.length) :
    ∀ d ∈ pending, Settled verify groupId state.1 d := by
  induction pending generalizing state with
  | nil => exact fun d hd => absurd hd List.not_mem_nil
  | cons d pending ih =>
      rw [List.foldlM_cons] at h
      obtain ⟨mid, hmid, hrest⟩ := Option.bind_eq_some_iff.mp h
      have hle := reconcileDevices.foldlM_attest_length hrest
      rw [List.length_cons] at hlen
      rcases attest_cases hmid with ⟨rfl, hstuck⟩ | ⟨signer, -, rfl⟩
      · have hall := ih hrest (by simp; omega)
        exact List.forall_mem_cons.mpr ⟨settled_of_attest hmid hstuck, hall⟩
      · exact absurd hlen (by dsimp only at hle; omega)

namespace Stage

theorem start (h : Entries known entries) : Stage verify groupId known entries known entries where
  entry := fun _ hd => hd
  nodup := h.ids.of_map _
  done := fun _ hd hnot => absurd hd hnot
  kept := fun _ _ => rfl

/-- An entry as it is held: from before, or adopted by now. -/
theorem held (h : Stage verify groupId known entries next unadopted) {i : DeviceId}
    {e : DeviceIdentity}
    (he : next.get? i = some e) : known.get? i = some e ∨ ∃ d ∈ entries, d ∉ unadopted ∧ d.id = i ∧
      ∃ t, Labelled verify groupId known entries d t ∧ e = heldAs d t := by
  by_cases hall : ∀ d ∈ entries, d.id = i → d ∈ unadopted
  · exact Or.inl ((h.kept i hall).symm.trans he)
  · push Not at hall
    obtain ⟨d, hd, rfl, hnot⟩ := hall
    obtain ⟨t, ht, hget⟩ := h.done d hd hnot
    exact Or.inr ⟨d, hd, hnot, rfl, t, ht, Option.some.inj (he.symm.trans hget)⟩

/-- What can be adopted has a label: the one of its signer. -/
theorem labelled (h : Stage verify groupId known entries next unadopted) {d : RosterDevice}
    (hd : d ∈ entries) {signer : DeviceIdentity} (ha : Adopts verify groupId next d signer) :
    Labelled verify groupId known entries d (chainTrust signer.trust) := by
  obtain ⟨attestation, key, hatt, hget, hkey, hverify⟩ := ha
  rcases h.held hget with hk | ⟨s, _, _, hid, t, ht, rfl⟩
  · exact .known hd hatt hk hkey hverify
  · exact .chain hd hatt ht hid hkey hverify

theorem adopt (hentries : Entries known entries) {d : RosterDevice} {still rest : List RosterDevice}
    (h : Stage verify groupId known entries next (still ++ d :: rest)) {signer : DeviceIdentity}
    (ha : Adopts verify groupId next d signer) :
    Stage verify groupId known entries (next.put (adopted d signer)) (still ++ rest) := by
  have hd : d ∈ entries := h.entry d (by simp)
  have hput : ∀ k, (next.put (adopted d signer)).get? k =
      if k = d.id then some (adopted d signer) else next.get? k := fun k => Table.get?_put
  have hmem : ∀ x, x ∈ still ++ d :: rest ↔ x = d ∨ x ∈ still ++ rest := fun x => by
    simp only [List.mem_append, List.mem_cons]
    tauto
  refine ⟨fun x hx => h.entry x ((hmem x).mpr (Or.inr hx)), (List.nodup_middle.mp h.nodup).of_cons,
    fun x hx hnot => ?_,
    fun i hi => ?_⟩
  · rw [hput]
    by_cases hid : x.id = d.id
    · obtain rfl := hentries.eq_of_id hx hd hid
      exact ⟨_, h.labelled hd ha, if_pos rfl⟩
    · rw [if_neg hid]
      refine h.done x hx fun hin => ?_
      rcases (hmem x).mp hin with rfl | hin
      · exact hid rfl
      · exact hnot hin
  · have hne : i ≠ d.id :=
      fun heq => (List.nodup_cons.mp (List.nodup_middle.mp h.nodup)).1 (hi d hd heq.symm)
    rw [hput, if_neg hne]
    exact h.kept i fun x hx hid => (hmem x).mpr (Or.inr (hi x hx hid))

theorem round (hentries : Entries known entries)
    {state state' : DeviceIdentities × List RosterDevice}
    (h : Stage verify groupId known entries state.1 (state.2 ++ pending))
    (hround : pending.foldlM (reconcileDevices.attest verify groupId) state = some state') :
    Stage verify groupId known entries state'.1 state'.2 := by
  induction pending generalizing state with
  | nil =>
      obtain rfl := Option.some.inj hround
      simpa using h
  | cons d pending ih =>
      rw [List.foldlM_cons] at hround
      obtain ⟨mid, hmid, hrest⟩ := Option.bind_eq_some_iff.mp hround
      rcases attest_cases hmid with ⟨rfl, -⟩ | ⟨signer, ha, rfl⟩
      · refine ih ?_ hrest
        rw [List.append_assoc]
        exact h
      · exact ih (h.adopt hentries ha) hrest

theorem rounds {n : ℕ} (hentries : Entries known entries)
    (h : Stage verify groupId known entries next pending)
    (hn : pending.length ≤ n) {result : DeviceIdentities × List RosterDevice}
    (hrounds : reconcileDevices.rounds verify groupId n next pending = some result) :
    Stage verify groupId known entries result.1 result.2 ∧
      ∀ d ∈ result.2, Settled verify groupId result.1 d := by
  induction n generalizing next pending with
  | zero =>
      obtain rfl := Option.some.inj hrounds
      obtain rfl := List.length_eq_zero_iff.mp (Nat.le_zero.mp hn)
      exact ⟨h, fun d hd => absurd hd List.not_mem_nil⟩
  | succ n ih =>
      obtain ⟨⟨mid, still⟩, hround, hrest⟩ := Option.bind_eq_some_iff.mp hrounds
      have hmid : Stage verify groupId known entries mid still :=
        @Stage.round _ _ _ _ _ hentries (next, []) _ h hround
      dsimp only at hrest
      split_ifs at hrest with hstuck
      · obtain rfl := Option.some.inj hrest
        have hlength : still.length = ([] : List RosterDevice).length + pending.length := by
          simpa using hstuck
        have hsettled := settled_of_stuck hround hlength
        obtain ⟨rfl, rfl⟩ := Prod.mk.inj (foldlM_attest_stuck hround hlength).1
        exact ⟨hmid, hsettled⟩
      · have hle : still.length ≤ pending.length := by
          simpa using reconcileDevices.foldlM_attest_length hround
        exact ih hmid (by omega) hrest

/-- A signature that cannot be checked is one of a signer that is vouched for, or held with its
key. -/
theorem unchecked (h : Stage verify groupId known entries next unadopted) {d : RosterDevice}
    (hd : d ∈ entries) {attestation : DeviceAttestation} {key : SigningKey}
    (hattempt : Attempts groupId next d attestation key)
    (hverify : verify key attestation.fields attestation.signature = none) :
    Unchecked verify groupId known entries := by
  obtain ⟨hatt, signer, hget, hkey⟩ := hattempt
  refine ⟨d, hd, attestation, key, hatt, ?_, hverify⟩
  rcases h.held hget with hk | ⟨s, _, _, hid, t, ht, rfl⟩
  · exact Or.inl ⟨signer, hk, hkey⟩
  · exact Or.inr ⟨s, vouched_iff.mpr ⟨t, ht⟩, hid, hkey⟩

theorem round_none (hentries : Entries known entries) {state : DeviceIdentities × List RosterDevice}
    (h : Stage verify groupId known entries state.1 (state.2 ++ pending))
    (hround : pending.foldlM (reconcileDevices.attest verify groupId) state = none) :
    Unchecked verify groupId known entries := by
  induction pending generalizing state with
  | nil => exact absurd hround (Option.some_ne_none _)
  | cons d pending ih =>
      rw [List.foldlM_cons] at hround
      cases hmid : reconcileDevices.attest verify groupId state d with
      | none =>
          obtain ⟨attestation, key, hattempt, hverify⟩ := attest_none hmid
          exact h.unchecked (h.entry d (by simp)) hattempt hverify
      | some mid =>
          rw [hmid] at hround
          rcases attest_cases hmid with ⟨rfl, -⟩ | ⟨signer, ha, rfl⟩
          · refine ih ?_ hround
            rw [List.append_assoc]
            exact h
          · exact ih (h.adopt hentries ha) hround

theorem rounds_none {n : ℕ} (hentries : Entries known entries)
    (h : Stage verify groupId known entries next pending)
    (hrounds : reconcileDevices.rounds verify groupId n next pending = none) :
    Unchecked verify groupId known entries := by
  induction n generalizing next pending with
  | zero => exact absurd hrounds (Option.some_ne_none _)
  | succ n ih =>
      cases hround : reconcileDevices.round verify groupId next pending with
      | none => exact @round_none _ _ _ _ _ hentries (next, []) h hround
      | some result =>
          obtain ⟨mid, still⟩ := result
          have hmid : Stage verify groupId known entries mid still :=
            @Stage.round _ _ _ _ _ hentries (next, []) _ h hround
          rw [reconcileDevices.rounds, hround] at hrounds
          dsimp only [Option.bind_eq_bind, Option.bind_some] at hrounds
          split_ifs at hrounds
          exact ih hmid hrounds

/-- The key that a vouched entry brings is the one it is held with. -/
theorem get?_labelled (hentries : Entries known entries)
    (h : Stage verify groupId known entries next unadopted)
    {d : RosterDevice} {t : IdentityTrust} (ht : Labelled verify groupId known entries d t)
    (hd : d ∉ unadopted) :
    next.get? d.id = some (heldAs d t) := by
  obtain ⟨t', ht', hget⟩ := h.done d ht.mem hd
  rw [hget, hentries.unique ht ht']

/-- Once nothing is to be done, what is vouched for has been adopted. -/
theorem complete (hentries : Entries known entries)
    (h : Stage verify groupId known entries next unadopted)
    (hsettled : ∀ d ∈ unadopted, Settled verify groupId next d) {d : RosterDevice}
    {t : IdentityTrust} (ht : Labelled verify groupId known entries d t) : d ∉ unadopted := by
  induction ht with
  | @known d attestation signer key hd hatt hget hkey hverify =>
      intro hin
      have hkept :=
        h.kept attestation.fields.signerDeviceId fun x hx hid =>
          (hentries.keyless hx (hid ▸ hget) hkey).elim
      have hfalse := hsettled d hin attestation key ⟨hatt, signer, hkept.trans hget, hkey⟩
      exact absurd (hverify.symm.trans hfalse) (by simp)
  | @chain d signer attestation key trust hd hatt hsigner hid hkey hverify ih =>
      intro hin
      have hget := h.get?_labelled hentries hsigner ih
      have hfalse := hsettled d hin attestation key ⟨hatt, heldAs signer trust, hid ▸ hget, hkey⟩
      exact absurd (hverify.symm.trans hfalse) (by simp)

/-- Nor is there a signature that could not be checked. -/
theorem not_unchecked (hentries : Entries known entries)
    (h : Stage verify groupId known entries next unadopted)
    (hsettled : ∀ d ∈ unadopted, Settled verify groupId next d) :
    ¬ Unchecked verify groupId known entries := by
  rintro ⟨d, hd, attestation, key, hatt, hsigner, hverify⟩
  by_cases hin : d ∈ unadopted
  · have hattempt : Attempts groupId next d attestation key := by
      refine ⟨hatt, ?_⟩
      rcases hsigner with ⟨signer, hget, hkey⟩ | ⟨signer, hv, hid, hkey⟩
      · have hkept :=
          h.kept attestation.fields.signerDeviceId fun x hx hid =>
            (hentries.keyless hx (hid ▸ hget) hkey).elim
        exact ⟨signer, hkept.trans hget, hkey⟩
      · obtain ⟨t, ht⟩ := vouched_iff.mp hv
        exact ⟨heldAs signer t,
          hid ▸ h.get?_labelled hentries ht (h.complete hentries hsettled ht), hkey⟩
    exact absurd (hverify.symm.trans (hsettled d hin attestation key hattempt)) (by simp)
  · obtain ⟨t, ht, _⟩ := h.done d hd hin
    have hsame : verify key attestation.fields attestation.signature = some true := by
      cases ht with
      | known _ hatt' hget' hkey' hverify' =>
          obtain rfl := Option.some.inj (hatt.shown.symm.trans hatt'.shown)
          rcases hsigner with ⟨signer, hget, hkey⟩ | ⟨signer, hv, hid, _⟩
          · obtain rfl := Option.some.inj (hget.symm.trans hget')
            rwa [Option.some.inj (hkey.symm.trans hkey')]
          · obtain ⟨t, ht⟩ := vouched_iff.mp hv
            exact (hentries.keyless ht.mem (hid ▸ hget') hkey').elim
      | chain _ hatt' hlabelled hid' hkey' hverify' =>
          obtain rfl := Option.some.inj (hatt.shown.symm.trans hatt'.shown)
          rcases hsigner with ⟨signer, hget, hkey⟩ | ⟨signer, hv, hid, hkey⟩
          · exact (hentries.keyless hlabelled.mem (hid' ▸ hget) hkey).elim
          · obtain ⟨t, ht⟩ := vouched_iff.mp hv
            obtain rfl := hentries.eq_of_id ht.mem hlabelled.mem (hid.trans hid'.symm)
            rwa [Option.some.inj (hkey.symm.trans hkey')]
    exact absurd (hverify.symm.trans hsame) (by simp)

end Stage

theorem get?_adoptPending {left : List RosterDevice} (hids : (left.map RosterDevice.id).Nodup)
    (next : DeviceIdentities)
    (i : DeviceId) : (left.foldl reconcileDevices.adoptPending next).get? i =
      match left.find? (fun d => decide (d.id = i)) with
      | some d => some (heldAs d (((next.get? i).map DeviceIdentity.trust).getD .tofu))
      | none => next.get? i := by
  induction left generalizing next with
  | nil => rfl
  | cons d left ih =>
      rw [List.map_cons, List.nodup_cons] at hids
      have hput : ∀ k, (reconcileDevices.adoptPending next d).get? k =
          if k = d.id then some (heldAs d (((next.get? d.id).map DeviceIdentity.trust).getD .tofu))
            else next.get? k :=
        fun k => Table.get?_put
      rw [List.foldl_cons, ih hids.2]
      by_cases hid : d.id = i
      · have hnone : left.find? (fun x => decide (x.id = i)) = none := by
          refine List.find?_eq_none.mpr fun x hx hxi => hids.1 (List.mem_map.mpr ⟨x, hx, ?_⟩)
          exact (of_decide_eq_true hxi).trans hid.symm
        rw [hnone, List.find?_cons_of_pos (by simpa using hid)]
        dsimp only
        rw [hput, if_pos hid.symm, hid]
      · rw [List.find?_cons_of_neg (by simpa using hid), hput, if_neg (Ne.symm hid)]

/-- What a device is held as after a roster. -/
def Outcome (inherited : DeviceId → Bool) (verify : VerifyStatement) (groupId : GroupId)
    (known : DeviceIdentities) (devices : List RosterDevice)
    (i : DeviceId) (e : DeviceIdentity) : Prop :=
  let entries := devices.filter (reconcileDevices.unresolved inherited known)
  (∃ d ∈ entries, d.id = i ∧ ((∃ t, Labelled verify groupId known entries d t ∧ e = heldAs d t) ∨
      ¬ Vouched verify groupId known entries d ∧
      e = heldAs d (((known.get? i).map DeviceIdentity.trust).getD .tofu))) ∨
    (i ∈ devices.map RosterDevice.id ∧ (∀ d ∈ entries, d.id ≠ i) ∧ known.get? i = some e)

/-- A device with something to adopt has no signing key held. -/
theorem unsigned_of_unresolved {d : RosterDevice}
    (h : reconcileDevices.unresolved inherited known d = true)
    {e : DeviceIdentity} (he : known.get? d.id = some e) : e.signingPublicKey = none := by
  simp only [reconcileDevices.unresolved, he, Bool.and_eq_true, Option.isNone_iff_eq_none] at h
  exact h.1.2

theorem entries_of_roster (inherited : DeviceId → Bool) (known : DeviceIdentities)
    {devices : List RosterDevice} (hids : (devices.map RosterDevice.id).Nodup) :
    Entries known (devices.filter (reconcileDevices.unresolved inherited known)) where
  ids := hids.sublist (List.filter_sublist.map _)
  unsigned := fun _ hd _ he => unsigned_of_unresolved (List.mem_filter.mp hd).2 he

namespace Stage

variable {left : List RosterDevice}

/-- What is left over is taken on first sight, under the label it had. -/
theorem get?_left (hentries : Entries known entries)
    (h : Stage verify groupId known entries next left) {d : RosterDevice}
    (hd : d ∈ left) : (left.foldl reconcileDevices.adoptPending next).get? d.id =
      some (heldAs d (((known.get? d.id).map DeviceIdentity.trust).getD .tofu)) := by
  have hids : (left.map RosterDevice.id).Nodup :=
    h.nodup.map_on fun x hx y hy hxy => hentries.eq_of_id (h.entry x hx) (h.entry y hy) hxy
  have hfind : left.find? (fun x => decide (x.id = d.id)) = some d := by
    cases hx : left.find? (fun x => decide (x.id = d.id)) with
    | none => exact absurd (decide_eq_true rfl) (List.find?_eq_none.mp hx d hd)
    | some x =>
        have hid : x.id = d.id := by simpa using List.find?_some hx
        rw [hentries.eq_of_id (h.entry x (List.mem_of_find?_eq_some hx)) (h.entry d hd) hid]
  have hkept : next.get? d.id = known.get? d.id :=
    h.kept d.id fun x hx hid => hentries.eq_of_id hx (h.entry d hd) hid ▸ hd
  rw [get?_adoptPending hids, hfind]
  dsimp only
  rw [hkept]

/-- And nothing else changes. -/
theorem get?_not_left (hentries : Entries known entries)
    (h : Stage verify groupId known entries next left) {i : DeviceId} (hi : ∀ d ∈ left, d.id ≠ i) :
    (left.foldl reconcileDevices.adoptPending next).get? i = next.get? i := by
  have hids : (left.map RosterDevice.id).Nodup :=
    h.nodup.map_on fun x hx y hy hxy => hentries.eq_of_id (h.entry x hx) (h.entry y hy) hxy
  have hfind : left.find? (fun x => decide (x.id = i)) = none :=
    List.find?_eq_none.mpr fun x hx hxi => hi x hx (of_decide_eq_true hxi)
  rw [get?_adoptPending hids, hfind]

theorem outcome {devices : List RosterDevice}
    (hentries : Entries known (devices.filter (reconcileDevices.unresolved inherited known)))
    (h : Stage verify groupId known
      (devices.filter (reconcileDevices.unresolved inherited known)) next left)
    (hsettled : ∀ d ∈ left, Settled verify groupId next d) (i : DeviceId) (e : DeviceIdentity) :
    (left.foldl reconcileDevices.adoptPending next).get? i = some e ∧
    i ∈ devices.map RosterDevice.id ↔
      Outcome inherited verify groupId known devices i e := by
  by_cases hentry : ∃ d ∈ devices.filter (reconcileDevices.unresolved inherited known), d.id = i
  · obtain ⟨d, hd, rfl⟩ := hentry
    have hlisted : d.id ∈ devices.map RosterDevice.id :=
      List.mem_map.mpr ⟨d, (List.mem_filter.mp hd).1, rfl⟩
    have honly : ∀ x ∈ devices.filter (reconcileDevices.unresolved inherited known),
        x.id = d.id → x = d :=
      fun x hx hid => hentries.eq_of_id hx hd hid
    by_cases hleft : d ∈ left
    · have hnot :
          ¬ Vouched verify groupId known
            (devices.filter (reconcileDevices.unresolved inherited known)) d := by
        intro hv
        obtain ⟨t, ht⟩ := vouched_iff.mp hv
        exact h.complete hentries hsettled ht hleft
      rw [h.get?_left hentries hleft]
      constructor
      · rintro ⟨he, _⟩
        exact Or.inl ⟨d, hd, rfl, Or.inr ⟨hnot, (Option.some.inj he).symm⟩⟩
      · rintro (⟨x, hx, hid, ⟨t, ht, _⟩ | ⟨_, rfl⟩⟩ | ⟨_, hno, _⟩)
        · obtain rfl := honly x hx hid
          exact absurd (vouched_iff.mpr ⟨t, ht⟩) hnot
        · obtain rfl := honly x hx hid
          exact ⟨rfl, hlisted⟩
        · exact absurd rfl (hno d hd)
    · obtain ⟨t, ht, hget⟩ := h.done d hd hleft
      rw [h.get?_not_left hentries fun x hx hid => hleft (honly x (h.entry x hx) hid ▸ hx), hget]
      constructor
      · rintro ⟨he, _⟩
        exact Or.inl ⟨d, hd, rfl, Or.inl ⟨t, ht, (Option.some.inj he).symm⟩⟩
      · rintro (⟨x, hx, hid, ⟨t', ht', rfl⟩ | ⟨hnot, _⟩⟩ | ⟨_, hno, _⟩)
        · obtain rfl := honly x hx hid
          rw [hentries.unique ht ht']
          exact ⟨rfl, hlisted⟩
        · obtain rfl := honly x hx hid
          exact absurd (vouched_iff.mpr ⟨t, ht⟩) hnot
        · exact absurd rfl (hno d hd)
  · push Not at hentry
    rw [h.get?_not_left hentries fun x hx hid => hentry x (h.entry x hx) hid,
      h.kept i fun x hx hid => absurd hid (hentry x hx)]
    constructor
    · rintro ⟨he, hlisted⟩
      exact Or.inr ⟨hlisted, hentry, he⟩
    · rintro (⟨x, hx, hid, _⟩ | ⟨hlisted, _, he⟩)
      · exact absurd hid (hentry x hx)
      · exact ⟨he, hlisted⟩

end Stage

/-- A roster that is taken. -/
theorem run_some {devices : List RosterDevice} (hids : (devices.map RosterDevice.id).Nodup)
    {result : DeviceIdentities × List DeviceId}
    (h : reconcileDevices.run inherited verify devices groupId known = some result) :
    ¬ Unchecked verify groupId known
      (devices.filter (reconcileDevices.unresolved inherited known)) ∧
      (∀ i e, result.1.get? i = some e ↔ Outcome inherited verify groupId known devices i e) ∧
      result.2 =
        (devices.filter (reconcileDevices.conflicts inherited known)).map RosterDevice.id := by
  obtain ⟨⟨next, left⟩, hrounds, heq⟩ := Option.bind_eq_some_iff.mp h
  obtain rfl := Option.some.inj heq
  have hentries := entries_of_roster inherited known hids
  obtain ⟨hstage, hsettled⟩ := Stage.rounds hentries (.start hentries) le_rfl hrounds
  refine ⟨hstage.not_unchecked hentries hsettled, fun i e => ?_, rfl⟩
  rw [← hstage.outcome hentries hsettled, reconcileDevices.dropAbsent, Table.get?_delete,
    Option.filter_eq_some_iff]
  refine and_congr_right fun he => ?_
  obtain ⟨_, hid⟩ := Table.get?_eq_some.mp he
  simp [← hid]

/-- A roster that makes it throw. -/
theorem run_none {devices : List RosterDevice} (hids : (devices.map RosterDevice.id).Nodup)
    (h : reconcileDevices.run inherited verify devices groupId known = none) :
    Unchecked verify groupId known
      (devices.filter (reconcileDevices.unresolved inherited known)) := by
  have hentries := entries_of_roster inherited known hids
  cases hrounds :
    reconcileDevices.rounds verify groupId
      (devices.filter (reconcileDevices.unresolved inherited known)).length known
      (devices.filter (reconcileDevices.unresolved inherited known)) with
  | none => exact (Stage.start hentries).rounds_none hentries hrounds
  | some result =>
      rw [reconcileDevices.run] at h
      dsimp only at h
      rw [hrounds] at h
      exact absurd h (Option.some_ne_none _)

section Perm
variable {entries' : List RosterDevice}

theorem Labelled.mono (hsub : ∀ d ∈ entries, d ∈ entries') {d : RosterDevice} {t : IdentityTrust}
    (h : Labelled verify groupId known entries d t) :
    Labelled verify groupId known entries' d t := by
  induction h with
  | known hd hatt hget hkey hverify => exact .known (hsub _ hd) hatt hget hkey hverify
  | chain hd hatt _ hid hkey hverify ih => exact .chain (hsub _ hd) hatt ih hid hkey hverify

theorem vouched_mono (hsub : ∀ d ∈ entries, d ∈ entries') {d : RosterDevice}
    (h : Vouched verify groupId known entries d) : Vouched verify groupId known entries' d := by
  obtain ⟨t, ht⟩ := vouched_iff.mp h
  exact vouched_iff.mpr ⟨t, ht.mono hsub⟩

theorem Unchecked.mono (hsub : ∀ d ∈ entries, d ∈ entries')
    (h : Unchecked verify groupId known entries) :
    Unchecked verify groupId known entries' := by
  obtain ⟨d, hd, attestation, key, hatt, hsigner, hverify⟩ := h
  refine ⟨d, hsub d hd, attestation, key, hatt, hsigner.imp_right fun hv => ?_, hverify⟩
  obtain ⟨signer, hv, hid, hkey⟩ := hv
  exact ⟨signer, vouched_mono hsub hv, hid, hkey⟩

/-- What a device is held as depends only on what is in the roster. -/
theorem Outcome.perm {devices devices' : List RosterDevice} (hperm : devices.Perm devices')
    {i : DeviceId} {e : DeviceIdentity} (h : Outcome inherited verify groupId known devices i e) :
    Outcome inherited verify groupId known devices' i e := by
  have hmem : ∀ d, d ∈ devices.filter (reconcileDevices.unresolved inherited known) ↔
      d ∈ devices'.filter (reconcileDevices.unresolved inherited known) :=
        fun d => (hperm.filter _).mem_iff
  have hsub : ∀ d ∈ devices.filter (reconcileDevices.unresolved inherited known),
      d ∈ devices'.filter (reconcileDevices.unresolved inherited known) := fun d => (hmem d).mp
  rcases h with ⟨d, hd, hid, hlabel⟩ | ⟨hlisted, hno, hget⟩
  · refine Or.inl ⟨d, hsub d hd, hid, hlabel.imp (fun ht => ?_) fun hnot =>
      ⟨fun hv => hnot.1 ?_, hnot.2⟩⟩
    · obtain ⟨t, ht, he⟩ := ht
      exact ⟨t, ht.mono hsub, he⟩
    · exact vouched_mono (fun d => (hmem d).mpr) hv
  · exact Or.inr ⟨(hperm.map _).mem_iff.mp hlisted, fun d hd => hno d ((hmem d).mpr hd), hget⟩

end Perm

/-- The same store and the same devices reported, or both throw. -/
def SameResult (result result' : Option (DeviceIdentities × List DeviceId)) : Prop :=
  match result, result' with
  | none, none => True
  | some r, some r' => (∀ i, r.1.get? i = r'.1.get? i) ∧ r.2.Perm r'.2
  | _, _ => False

theorem sameResult_of_perm {devices devices' : List RosterDevice}
    (hids : (devices.map RosterDevice.id).Nodup) (hperm : devices.Perm devices') :
    SameResult (reconcileDevices.run inherited verify devices groupId known)
      (reconcileDevices.run inherited verify devices' groupId known) := by
  have hids' : (devices'.map RosterDevice.id).Nodup := (hperm.map _).nodup_iff.mp hids
  have hsub :=
    fun d => ((hperm.filter (reconcileDevices.unresolved inherited known)).mem_iff (a := d)).mp
  have hsub' :=
    fun d => ((hperm.filter (reconcileDevices.unresolved inherited known)).mem_iff (a := d)).mpr
  cases h : reconcileDevices.run inherited verify devices groupId known with
  | none =>
      cases h' : reconcileDevices.run inherited verify devices' groupId known with
      | none => trivial
      | some result' => exact ((run_some hids' h').1 ((run_none hids h).mono hsub)).elim
  | some result =>
      cases h' : reconcileDevices.run inherited verify devices' groupId known with
      | none => exact ((run_some hids h).1 ((run_none hids' h').mono hsub')).elim
      | some result' =>
          obtain ⟨_, hstore, hchanged⟩ := run_some hids h
          obtain ⟨_, hstore', hchanged'⟩ := run_some hids' h'
          refine ⟨fun i => Option.ext fun e => ?_, ?_⟩
          · rw [hstore, hstore']
            exact ⟨Outcome.perm hperm, Outcome.perm hperm.symm⟩
          · rw [hchanged, hchanged']
            exact (hperm.filter _).map _

/-- The devices that are adopted because of an attestation. -/
def adoptedByChain (inherited : DeviceId → Bool) (verify : VerifyStatement)
    (devices : List RosterDevice) (groupId : GroupId) (known : DeviceIdentities) :
    Option (List RosterDevice) :=
  let pending := devices.filter (reconcileDevices.unresolved inherited known)
  (reconcileDevices.rounds verify groupId pending.length known pending).map fun result =>
    pending.filter fun d => decide (d ∉ result.2)

/-- A label is `tofu` exactly when an entry above it on the chain is. -/
theorem tofu_iff (hentries : Entries known entries) {store : DeviceIdentities}
    (hstore : ∀ d t, Labelled verify groupId known entries d t →
      store.get? d.id = some (heldAs d t)) {d : RosterDevice}
    {t : IdentityTrust} (ht : Labelled verify groupId known entries d t) :
    t = .tofu ↔ ∃ s, OnChain verify groupId known entries store d s ∧ s.trust = .tofu := by
  constructor
  · intro htofu
    cases ht with
    | known _ hatt hget hkey _ => exact ⟨_, .known hatt hget hkey, chainTrust_tofu.mp htofu⟩
    | chain _ hatt hsigner hid _ _ =>
        exact ⟨_, .signer hatt (vouched_iff.mpr ⟨_, hsigner⟩) hid (hstore _ _ hsigner),
          chainTrust_tofu.mp htofu⟩
  · rintro ⟨s, hs, htofu⟩
    induction hs generalizing t with
    | @known d attestation s key hatt hget hkey =>
        cases ht with
        | known _ hatt' hget' _ _ =>
            obtain rfl := Option.some.inj (hatt.shown.symm.trans hatt'.shown)
            obtain rfl := Option.some.inj (hget.symm.trans hget')
            exact chainTrust_tofu.mpr htofu
        | chain _ hatt' hsigner hid _ _ =>
            obtain rfl := Option.some.inj (hatt.shown.symm.trans hatt'.shown)
            exact (hentries.keyless hsigner.mem (hid ▸ hget) hkey).elim
    | @signer d s' attestation held hatt hv hid hget =>
        obtain ⟨t', ht'⟩ := vouched_iff.mp hv
        cases ht with
        | known _ hatt' hget' hkey' _ =>
            obtain rfl := Option.some.inj (hatt.shown.symm.trans hatt'.shown)
            exact (hentries.keyless ht'.mem (hid ▸ hget') hkey').elim
        | chain _ hatt' hsigner hid' _ _ =>
            obtain rfl := Option.some.inj (hatt.shown.symm.trans hatt'.shown)
            obtain rfl := hentries.eq_of_id ht'.mem hsigner.mem (hid.trans hid'.symm)
            obtain rfl := Option.some.inj (hget.symm.trans (hstore _ _ hsigner))
            exact chainTrust_tofu.mpr htofu
    | @above d s' attestation held hatt hv hid _ ih =>
        obtain ⟨t', ht'⟩ := vouched_iff.mp hv
        cases ht with
        | known _ hatt' hget' hkey' _ =>
            obtain rfl := Option.some.inj (hatt.shown.symm.trans hatt'.shown)
            exact (hentries.keyless ht'.mem (hid ▸ hget') hkey').elim
        | chain _ hatt' hsigner hid' _ _ =>
            obtain rfl := Option.some.inj (hatt.shown.symm.trans hatt'.shown)
            obtain rfl := hentries.eq_of_id ht'.mem hsigner.mem (hid.trans hid'.symm)
            exact chainTrust_tofu.mpr (ih hsigner htofu)

theorem Labelled.trust_cases {d : RosterDevice} {t : IdentityTrust}
    (h : Labelled verify groupId known entries d t) :
    t = .attested ∨ t = .tofu := by
  cases h with
  | known => exact chainTrust_cases _
  | chain => exact chainTrust_cases _

/-- The devices of a roster there is something to adopt of, when only what is held is looked at. -/
def toAdopt (known : DeviceIdentities) (devices : List RosterDevice) : List RosterDevice :=
  devices.filter (reconcileDevices.unresolved (fun _ => false) known)

/-- The label a device had, or the one for a first sight. -/
def formerTrust (known : DeviceIdentities) (i : DeviceId) : IdentityTrust :=
  ((known.get? i).map DeviceIdentity.trust).getD .tofu

/-- What a roster gives by attestations: the devices adopted through a chain are the least set
that is closed under them, each with the label of its chain, and no other label changes. -/
structure Chained (verify : VerifyStatement) (groupId : GroupId) (known : DeviceIdentities)
    (devices : List RosterDevice) (store : DeviceIdentities) (adopted : List RosterDevice) :
    Prop where
  least : ∀ d, d ∈ adopted ↔ Vouched verify groupId known (toAdopt known devices) d
  label : ∀ d ∈ adopted, ∃ e, store.get? d.id = some e ∧ e.publicKey = d.publicKey ∧
    e.signingPublicKey = d.signingPublicKey ∧ (e.trust = .attested ∨ e.trust = .tofu) ∧
    (e.trust = .attested ↔
      ∀ s, OnChain verify groupId known (toAdopt known devices) store d s → s.trust ≠ .tofu)
  others : ∀ d ∈ devices, d ∉ adopted → ∀ e, store.get? d.id = some e →
    e.trust = formerTrust known d.id
  only : ∀ i e, store.get? i = some e → i ∈ devices.map RosterDevice.id

/-- No device that is vouched for, and of which nothing is held, goes by a name that every
object answers to. -/
def OwnNames (inherited : DeviceId → Bool) (verify : VerifyStatement) (groupId : GroupId)
    (known : DeviceIdentities) (devices : List RosterDevice) : Prop :=
  ∀ d, Vouched verify groupId known (toAdopt known devices) d → known.get? d.id = none →
    inherited d.id = false

section Names
variable {devices : List RosterDevice}

theorem mem_toAdopt_of_unresolved {d : RosterDevice}
    (h : d ∈ devices.filter (reconcileDevices.unresolved inherited known)) :
    d ∈ toAdopt known devices := by
  obtain ⟨hd, hun⟩ := List.mem_filter.mp h
  refine List.mem_filter.mpr ⟨hd, ?_⟩
  unfold reconcileDevices.unresolved at hun ⊢
  cases hget : known.get? d.id with
  | none => rfl
  | some e =>
      rw [hget] at hun
      exact hun

theorem unresolved_of_mem_toAdopt {d : RosterDevice} (h : d ∈ toAdopt known devices)
    (hname : known.get? d.id = none → inherited d.id = false) :
    d ∈ devices.filter (reconcileDevices.unresolved inherited known) := by
  obtain ⟨hd, hun⟩ := List.mem_filter.mp h
  refine List.mem_filter.mpr ⟨hd, ?_⟩
  unfold reconcileDevices.unresolved at hun ⊢
  cases hget : known.get? d.id with
  | none => exact congrArg (!·) (hname hget)
  | some e =>
      rw [hget] at hun
      exact hun

/-- With names of their own, nothing that is vouched for is passed over. -/
theorem vouched_toAdopt (hnames : OwnNames inherited verify groupId known devices)
    {d : RosterDevice} :
    Vouched verify groupId known (toAdopt known devices) d ↔
      Vouched verify groupId known
        (devices.filter (reconcileDevices.unresolved inherited known)) d := by
  constructor
  · intro h
    have hmem : ∀ x, Vouched verify groupId known (toAdopt known devices) x →
        x ∈ devices.filter (reconcileDevices.unresolved inherited known) := by
      intro x hx
      obtain ⟨t, ht⟩ := vouched_iff.mp hx
      exact unresolved_of_mem_toAdopt ht.mem (hnames x hx)
    induction h with
    | known hd hatt hget hkey hverify =>
        exact .known (hmem _ (.known hd hatt hget hkey hverify)) hatt hget hkey hverify
    | chain hd hatt hsigner hid hkey hverify ih =>
        exact .chain (hmem _ (.chain hd hatt hsigner hid hkey hverify)) hatt ih hid hkey hverify
  · exact vouched_mono fun _ => mem_toAdopt_of_unresolved

theorem OnChain.mono {entries' : List RosterDevice} {store : DeviceIdentities}
    (hsub : ∀ d, Vouched verify groupId known entries d → Vouched verify groupId known entries' d)
    {d : RosterDevice} {s : DeviceIdentity} (h : OnChain verify groupId known entries store d s) :
    OnChain verify groupId known entries' store d s := by
  induction h with
  | known hatt hget hkey => exact .known hatt hget hkey
  | signer hatt hv hid hget => exact .signer hatt (hsub _ hv) hid hget
  | above hatt hv hid _ ih => exact .above hatt (hsub _ hv) hid ih

end Names

/-- The label of an adopted device is `attested` exactly when no entry of its chain is `tofu`. -/
theorem attested_iff (hentries : Entries known entries) {store : DeviceIdentities}
    (hstore : ∀ d t, Labelled verify groupId known entries d t →
      store.get? d.id = some (heldAs d t)) {d : RosterDevice} {t : IdentityTrust}
    (ht : Labelled verify groupId known entries d t) :
    t = .attested ↔ ∀ s, OnChain verify groupId known entries store d s → s.trust ≠ .tofu := by
  have htofu := tofu_iff hentries hstore ht
  constructor
  · intro hattested s hs hst
    have htrust : t = .tofu := htofu.mpr ⟨s, hs, hst⟩
    exact absurd (htrust.symm.trans hattested) (by decide)
  · intro hall
    refine ht.trust_cases.resolve_right fun htrust => ?_
    obtain ⟨s, hs, hst⟩ := htofu.mp htrust
    exact hall s hs hst

theorem chained_of_run {devices : List RosterDevice} (hids : (devices.map RosterDevice.id).Nodup)
    (hnames : OwnNames inherited verify groupId known devices)
    {result : DeviceIdentities × List DeviceId}
    (h : reconcileDevices.run inherited verify devices groupId known = some result) :
    ∃ adopted, adoptedByChain inherited verify devices groupId known = some adopted ∧
      Chained verify groupId known devices result.1 adopted := by
  have hentries := entries_of_roster inherited known hids
  have hstore := (run_some hids h).2.1
  have hlabelled : ∀ d t, Labelled verify groupId known
      (devices.filter (reconcileDevices.unresolved inherited known)) d t →
      result.1.get? d.id = some (heldAs d t) := fun d t ht =>
    (hstore d.id _).mpr (Or.inl ⟨d, ht.mem, rfl, Or.inl ⟨t, ht, rfl⟩⟩)
  obtain ⟨⟨next, left⟩, hrounds, _⟩ := Option.bind_eq_some_iff.mp h
  obtain ⟨hstage, hsettled⟩ := Stage.rounds hentries (.start hentries) le_rfl hrounds
  have hadopted : ∀ d, d ∈ (devices.filter (reconcileDevices.unresolved inherited known)).filter
      (fun d => decide (d ∉ left)) ↔ ∃ t, Labelled verify groupId known
        (devices.filter (reconcileDevices.unresolved inherited known)) d t := by
    intro d
    rw [List.mem_filter, decide_eq_true_eq]
    constructor
    · rintro ⟨hd, hnot⟩
      obtain ⟨t, ht, _⟩ := hstage.done d hd hnot
      exact ⟨t, ht⟩
    · rintro ⟨t, ht⟩
      exact ⟨ht.mem, hstage.complete hentries hsettled ht⟩
  refine ⟨_, by rw [adoptedByChain, hrounds, Option.map_some], ?_, ?_, ?_, ?_⟩
  · intro d
    rw [hadopted, ← vouched_iff, vouched_toAdopt hnames]
  · intro d hd
    obtain ⟨t, ht⟩ := (hadopted d).mp hd
    refine ⟨heldAs d t, hlabelled d t ht, rfl, rfl, ht.trust_cases, ?_⟩
    refine (attested_iff hentries hlabelled ht).trans (forall_congr' fun s => ?_)
    have hchain := fun x => vouched_toAdopt hnames (d := x)
    exact imp_congr_left ⟨OnChain.mono fun x => (hchain x).mpr, OnChain.mono fun x => (hchain x).mp⟩
  · intro d hd hnot e he
    rcases (hstore d.id e).mp he with ⟨x, hx, hid, ⟨t, ht, _⟩ | ⟨_, rfl⟩⟩ | ⟨_, _, hget⟩
    · have hsame : x = d := List.inj_on_of_nodup_map hids (List.mem_filter.mp hx).1 hd hid
      exact absurd ((hadopted d).mpr ⟨t, hsame ▸ ht⟩) hnot
    · rfl
    · rw [formerTrust, hget]
      rfl
  · intro i e he
    rcases (hstore i e).mp he with ⟨x, hx, rfl, _⟩ | ⟨hlisted, _, _⟩
    · exact List.mem_map.mpr ⟨x, (List.mem_filter.mp hx).1, rfl⟩
    · exact hlisted

/-- What is adopted through a chain was found to be something to adopt. -/
theorem ownNames_of_chained {devices : List RosterDevice} {store : DeviceIdentities}
    {adopted : List RosterDevice}
    (hadopted : adoptedByChain inherited verify devices groupId known = some adopted)
    (h : Chained verify groupId known devices store adopted) :
    OwnNames inherited verify groupId known devices := by
  intro d hv hnone
  obtain ⟨result, _, rfl⟩ := Option.map_eq_some_iff.mp hadopted
  have hun := (List.mem_filter.mp (List.mem_filter.mp ((h.least d).mpr hv)).1).2
  rw [reconcileDevices.unresolved, hnone] at hun
  simpa using hun

/-- Reconciling a roster does not depend on its order. What it adopts by attestations is the
least set that these give, with the labels that they give and no other new one, exactly when
no device in that set goes by a name that is found without being held. -/
theorem reconcile_any_order (inherited : DeviceId → Bool) (verify : VerifyStatement)
    (groupId : GroupId) (known : DeviceIdentities) {devices devices' : List RosterDevice}
    (hids : (devices.map RosterDevice.id).Nodup) (hperm : devices.Perm devices') :
    SameResult (reconcileDevices.run inherited verify devices groupId known)
        (reconcileDevices.run inherited verify devices' groupId known) ∧
      ∀ result, reconcileDevices.run inherited verify devices groupId known = some result →
        ((∃ adopted, adoptedByChain inherited verify devices groupId known = some adopted ∧
            Chained verify groupId known devices result.1 adopted) ↔
          OwnNames inherited verify groupId known devices) := by
  refine ⟨sameResult_of_perm hids hperm, fun result h => ⟨?_, fun hnames => ?_⟩⟩
  · rintro ⟨adopted, hadopted, hchained⟩
    exact ownNames_of_chained hadopted hchained
  · exact chained_of_run hids hnames h

/-- Device 3 is vouched for by device 2, which device 1 vouches for. -/
def third : DeviceAttestation := ⟨⟨7, 3, 26, 46, 2, 0⟩, 45⟩

/-- A signature is the key it was made with. -/
def verifySame : VerifyStatement := fun key _ signature => some (decide (key = signature))

def roster : List RosterDevice := [⟨3, 26, some 46, some third⟩, second, ⟨1, 24, some 41, none⟩]

abbrev firstHeld : DeviceIdentities := (DeviceIdentities.upgraded .empty).pinned Labels.first

/-- The id 9 stands for `constructor`. -/
def constructorOnly (i : DeviceId) : Bool := decide (i = 9)

theorem reconcile_chain : ∃ result,
    reconcileDevices.run constructorOnly verifySame roster 7 firstHeld = some result ∧
      result.1.get? 3 = some ⟨3, 26, some 46, .attested⟩ ∧
      SameResult (some result)
        (reconcileDevices.run constructorOnly verifySame roster.reverse 7 firstHeld) ∧
      ∃ adopted, adoptedByChain constructorOnly verifySame roster 7 firstHeld = some adopted ∧
        Chained verifySame 7 firstHeld roster result.1 adopted := by
  have hrun : (reconcileDevices.run constructorOnly verifySame roster 7 firstHeld).any
      (fun result => decide (result.1.get? 3 = some ⟨3, 26, some 46, .attested⟩)) = true := by
    decide +kernel
  obtain ⟨result, hresult, hthree⟩ := (Option.any_eq_true _ _).mp hrun
  obtain ⟨hsame, hchained⟩ := reconcile_any_order constructorOnly verifySame 7 firstHeld
    (by decide) (List.reverse_perm roster).symm
  have hnames : OwnNames constructorOnly verifySame 7 firstHeld roster := by
    intro d hv _
    obtain ⟨t, ht⟩ := vouched_iff.mp hv
    have hall : ∀ x ∈ roster, constructorOnly x.id = false := by decide
    exact hall d (List.mem_filter.mp ht.mem).1
  exact ⟨result, hresult, of_decide_eq_true hthree, hresult ▸ hsame,
    (hchained result hresult).mpr hnames⟩

/-- Device 1 vouches for a device whose id is `constructor`: what is found under it has other
keys, so it is reported as changed and never adopted, whatever else is in the roster. -/
theorem named_passed_over :
    let attestation : DeviceAttestation := ⟨⟨7, 9, 26, 46, 1, 0⟩, 41⟩
    let device : RosterDevice := ⟨9, 26, some 46, some attestation⟩
    Vouched verifySame 7 firstHeld (toAdopt firstHeld [device, ⟨1, 24, some 41, none⟩]) device ∧
      ∃ result, reconcileDevices.run constructorOnly verifySame [device, ⟨1, 24, some 41, none⟩] 7
          firstHeld = some result ∧
        result.1.get? 9 = none ∧ result.2 = [9] ∧
        adoptedByChain constructorOnly verifySame [device, ⟨1, 24, some 41, none⟩] 7 firstHeld =
          some [] := by
  intro attestation device
  have hget : firstHeld.get? 1 = some (Labels.first.identity .scanned) := by decide +kernel
  have hmem : device ∈ toAdopt firstHeld [device, ⟨1, 24, some 41, none⟩] := by decide +kernel
  refine ⟨.known hmem ⟨rfl, rfl, rfl, rfl, rfl⟩ hget rfl (by decide), ?_⟩
  have hrun : (reconcileDevices.run constructorOnly verifySame
      [device, ⟨1, 24, some 41, none⟩] 7 firstHeld).any
      (fun result => decide (result.1.get? 9 = none ∧ result.2 = [9])) = true := by
    decide +kernel
  obtain ⟨result, hresult, hend⟩ := (Option.any_eq_true _ _).mp hrun
  obtain ⟨hnine, hchanged⟩ := of_decide_eq_true hend
  exact ⟨result, hresult, hnine, hchanged, by decide +kernel⟩

end SendSelf.Rosters
