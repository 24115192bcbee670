import SendSelf.EndToEnd.Secrecy
import SendSelf.Vault.Clients

/-!
# What each operation keeps

Each operation of a client that is sound leaves it sound and asks the server for something that
is. The one that lets a device in by an invitation is sound because of what opened: only a
device that holds the code can have sealed it, and the keys it sealed it over are its own.
-/
namespace SendSelf.EndToEnd
open Intruder Statements Framing Utf16 Runs

variable {E : Encoding} {r : ℕ} {w w' : World} {c : Client}

theorem setUpNewSpace_sound {s : Session} {groupKey : Name} {token iv : Text} {now : ℤ}
    {deviceName : Msg} {spaceName : Option Msg}
    (h : w.Trusted E r (.createSpace s groupKey token iv now deviceName spaceName)) :
    (setUpNewSpace s groupKey token iv now deviceName spaceName).1.Sound E r w ∧
      (setUpNewSpace s groupKey token iv now deviceName spaceName).2.Sound E r w := by
  obtain ⟨hkey, -, hgroup, hg, hd, hname, hspace⟩ := h
  constructor
  · exact ⟨hkey, hg, hd, createKeyring_sound hgroup, hspace, List.forall_mem_nil _,
      List.forall_mem_nil _⟩
  · refine ⟨?_, List.forall_mem_nil _, ?_, fun p hs => ?_⟩
    · exact List.forall_mem_singleton.mpr (Seal.sound hgroup hname trivial)
    · exact List.forall_mem_singleton.mpr ⟨groupKey, rfl⟩
    · obtain rfl := Option.some.inj hs
      trivial

theorem inviteKey_safe {invite : Invite} :
    Safe Guarded (inviteKey invite) ↔ ¬ Guarded invite.secret := by
  simp only [inviteKey, bytes, Safe, and_true]

/-- A device that links itself is sound, and so is the request that it begins with. -/
theorem createJoiningDevice_sound {pairingId deviceId : Text} {keyPair signingKeyPair : Name}
    {sendOnly : Bool} {invite : Option Invite} {deviceName : Msg} {iv : Text} (h : w.Trusted E r
      (.startLinking pairingId deviceId keyPair signingKeyPair sendOnly invite deviceName iv)) :
    (createJoiningDevice E pairingId deviceId keyPair signingKeyPair sendOnly invite deviceName
      iv).1.Sound ∧
      (createJoiningDevice E pairingId deviceId keyPair signingKeyPair sendOnly invite deviceName
        iv).2.Sound E r w := by
  obtain ⟨hkey, hsign, hp, hd, hinvite, hname⟩ := h
  refine ⟨⟨hkey, hd⟩, ?_, List.forall_mem_nil _, ?_, fun _ hs => ?_⟩
  · intro s hs
    obtain ⟨i, rfl, rfl⟩ := Option.map_eq_some_iff.mp (Option.mem_toList.mp hs)
    obtain ⟨hi, hsafe⟩ := hinvite i rfl
    refine ⟨fun hk => ?_, ?_, fun u hu => not_occurs_inviteKey hu i, ?_⟩
    · exact ⟨⟨trivial, hsafe (inviteKey_safe.mp hk)⟩, trivial⟩
    · intro u hu ho
      cases ho with
      | self => exact hu.elim
      | fst ho =>
        cases ho with
        | self => exact hu.elim
        | fst ho => exact absurd ho (not_occurs_data hu _)
        | snd ho => exact hname u hu ho
      | snd ho => exact absurd ho (not_occurs_data hu _)
    · simp only [sealInvite, Place.Fixed, Statement.strings, JoiningDevice.fields, Option.map_some,
        Option.getD_some,
        List.forall_mem_cons, List.not_mem_nil, false_implies, implies_true, and_true]
      exact ⟨hi.colon_notMem, hd.colon_notMem, (E.base64Url_export _).colon_notMem,
        (E.base64Url_export _).colon_notMem⟩
  · refine ⟨hkey, hsign, ?_, hd, fun s hs => ?_⟩
    · cases invite with
      | none => exact hp
      | some i => exact (hinvite i rfl).1
    · obtain ⟨i, -, rfl⟩ := Option.map_eq_some_iff.mp hs
      exact ⟨i, deviceName, iv, rfl⟩
  · exact absurd hs (Option.not_mem_none _)

/-- A device that has joined holds what a client may hold. -/
theorem pollLink_sound (h : w.Sound E r) {j : JoiningDevice} (hj : j.Sound) {wrapped : Text}
    (hd : w.Deposited E wrapped) (hc : pollLink E j wrapped = some c) : c.Sound E r w := by
  simp only [pollLink, Option.bind_eq_bind, Option.bind_eq_some_iff, Option.some.injEq] at hc
  obtain ⟨recovered, hopen, groupKey, ⟨m, hm, hgk⟩, keyEpoch, ⟨m', hm', hke⟩, groupId,
    ⟨m'', hm'', hgi⟩, rfl⟩ := hc
  obtain ⟨b, hb, hctx, rfl⟩ := h.unwrapped hd hopen
  rcases hb.opens with ⟨-, payload, -, hp, hk, hg, hn⟩ | ⟨g, e, d, -, hctx', hg, -⟩
  · rw [hp] at hm hm' hm''
    obtain rfl : Term.name payload.groupKey = m := by
      simpa [PairingPayload.json, object, field] using hm
    obtain rfl : Msg.number payload.keyEpoch = m' := by
      have h₁ : literal "groupKey" ≠ literal "keyEpoch" := by decide
      simpa [PairingPayload.json, object, field, h₁] using hm'
    obtain rfl : Msg.text payload.groupId = m'' := by
      have h₁ : literal "groupKey" ≠ literal "groupId" := by decide
      have h₂ : literal "keyEpoch" ≠ literal "groupId" := by decide
      have h₃ : literal "deviceAuthToken" ≠ literal "groupId" := by decide
      simpa [PairingPayload.json, object, field, h₁, h₂, h₃] using hm''
    obtain rfl := Option.some.inj hgk
    obtain rfl : payload.keyEpoch = keyEpoch := Option.some.inj hke
    obtain rfl := Option.some.inj hgi
    refine ⟨hj.keyPair, hg, hj.deviceId, createKeyring_sound hk, fun name hname => ?_,
      List.forall_mem_nil _,
      List.forall_mem_nil _⟩
    have hname' : field (literal "spaceName") b.payload = some name := hname
    rw [hp] at hname'
    exact (World.Written.package hk hn).field hname'
  · exact absurd (hctx.symm.trans (congrArg bytes hctx')) (pairingContext_ne_rekeyContext hg)

/-- A device is let in under a name that may be held at the current epoch, and from epoch `r` on
with the key of a device of the space. -/
theorem addDevice_sound (hc : c.Sound E r w) {payload : PairingQrPayload}
    {token iv : Text} {now : ℤ} {bundles : List DeviceKeyBundle} {q : Request}
    (hm : r ≤ c.ring.current → World.Member E payload.publicKey)
    (hn : w.Written E r c.ring.current payload.deviceName)
    (hq : addDevice E c payload token iv now bundles = some q) :
    q.Sound E r w := by
  simp only [addDevice, Option.bind_eq_bind, Option.bind_eq_some_iff, Option.some.injEq] at hq
  obtain ⟨key, hkey, recipient, hrecipient, rfl⟩ := hq
  have hk := hc.ring.currentKey hkey
  refine ⟨List.forall_mem_singleton.mpr (Seal.sound hk hn trivial),
    List.forall_mem_singleton.mpr ?_,
    List.forall_mem_singleton.mpr ⟨key, rfl⟩, fun p hs => ?_⟩
  · let package : PairingPayload :=
      ⟨key, c.ring.current, token, c.session.groupId, bundles, c.spaceName⟩
    have hpackage : w.Written E r c.ring.current package.json :=
      @World.Written.package _ _ _ package hk hc.name
    refine Wrap.sound (fun hr => ?_) hpackage (.inl ⟨_, package, rfl, rfl, hk, hc.groupId, hc.name⟩)
    obtain ⟨n, hn, hg⟩ := hm hr
    exact Option.some.inj (hrecipient.symm.trans hn) ▸ hg
  · obtain ⟨_, -, rfl⟩ := Option.map_eq_some_iff.mp hs
    trivial

/-- What opens as an answer to an invitation that nobody else can have sealed. -/
theorem World.Sound.invited (h : w.Sound E r) {invite : Invite} (hs : Guarded invite.secret)
    {ciphertext iv : Text} {fields : InviteSealFields} (hd : w.Delivers E ciphertext) {p : Msg}
    (hp : decrypt E (inviteKey invite) ciphertext iv (inviteSealStatement fields) = some p) :
    ∃ j i name iv', Request.pairingRequest j (some (sealInvite i name (j.fields E) iv')) ∈ w.sent ∧
      Guarded j.keyPair ∧ Guarded j.signingKeyPair ∧ inviteKey i = inviteKey invite ∧
      object [(literal "deviceName", name)] = p ∧ fields = j.fields E := by
  obtain ⟨m, hread, hopen⟩ := Option.bind_eq_some_iff.mp hp
  obtain rfl := openCipher_eq_some hopen
  have hprot : Protected Guarded
      (encrypt E (inviteKey invite) p (inviteSealStatement fields) iv) := by
    simpa only [encrypt, Protected, inviteKey_safe, not_not] using hs
  obtain ⟨q, hq, hmade⟩ := h.vouched (hd _ hread) _ hprot .self
  have hkeyed := (h.sent q hq).keyed
  rcases List.mem_append.mp hmade with hmade | hmade
  · obtain ⟨s, hs, heq⟩ := List.mem_map.mp hmade
    simp only [Seal.ciphertext, encrypt, aad, Term.cipher.injEq, Term.pair.injEq, bytes_eq_iff]
      at heq
    obtain ⟨hkey, ⟨-, hctx⟩, hpayload⟩ := heq
    cases q with
    | pairingRequest j answer =>
      obtain ⟨hj, hj', hpairing, hdevice, hanswer⟩ := hkeyed
      obtain rfl := Option.mem_toList.mp hs
      obtain ⟨i, name, iv', rfl⟩ := hanswer s rfl
      refine ⟨j, i, name, iv', hq, hj, hj', hkey, hpayload, ?_⟩
      have hown : ∀ v ∈ (Statement.inviteSeal (j.fields E)).strings, Plain v ∧ colon ∉ v := by
        have hb : ∀ {v : Text}, Base64Url v → Plain v ∧ colon ∉ v :=
          fun hv => ⟨hv.plain, hv.colon_notMem⟩
        simp only [Statement.strings, JoiningDevice.fields, List.forall_mem_cons,
          List.not_mem_nil, false_implies, implies_true, and_true]
        exact ⟨hb hpairing, hb hdevice, hb (E.base64Url_export _), hb (E.base64Url_export _)⟩
      exact (Statement.inviteSeal.inj (read_eq_of_plain (t := .inviteSeal fields) hown hctx)).symm
    | _ =>
      obtain ⟨key, hk⟩ := hkeyed s hs
      rw [hk] at hkey
      cases hkey
  · obtain ⟨p', -, heq⟩ := Option.map_eq_some_iff.mp (Option.mem_toList.mp hmade)
    cases heq

theorem openInvite_eq_some {invite : Invite} {ciphertext iv : Text} {fields : InviteSealFields}
    {shown : Msg} (h : openInvite E invite ciphertext iv fields = some shown) :
    ∃ p name, decrypt E (inviteKey invite) ciphertext iv (inviteSealStatement fields) = some p ∧
      field (literal "deviceName") p = some name ∧ shownName name = some shown := by
  unfold openInvite at h
  split at h
  · cases h
  · obtain ⟨name, hname, hshown⟩ := Option.bind_eq_some_iff.mp h
    obtain ⟨p, hp, hfield⟩ := Option.bind_eq_some_iff.mp hname
    exact ⟨p, name, hp, hfield, hshown⟩

/-- A name is shown no further than it is known. -/
theorem shownName_written {epoch : ℕ} {name shown : Msg} (h : w.Written E r epoch name)
    (hs : shownName name = some shown) : w.Written E r epoch shown := by
  unfold shownName at hs
  split at hs
  · split at hs
    · cases hs
    · exact Option.some.inj hs ▸ .data _
  · exact Option.some.inj hs ▸ h
  · cases hs

theorem approveInvitedDevice_sound (h : w.Sound E r) (hc : c.Sound E r w) {invite : Invite}
    {answer : JoinerAnswer}
    {token iv : Text} {now : ℤ} {bundles : List DeviceKeyBundle} {payload : PairingQrPayload}
    {q : Request} (ht : w.Trusted E r (.approveInvitedDevice c invite answer token iv now bundles))
    (hp : checkDeviceInvite E invite answer = some payload)
    (hq : addDevice E c payload token iv now bundles = some q) : q.Sound E r w := by
  obtain ⟨hsecret, hd, hsafe⟩ := ht
  have hsafe := hsafe payload hp
  obtain ⟨shown, hname, rfl⟩ := Option.map_eq_some_iff.mp hp
  obtain ⟨opened, name, hopened, hfield, hshown⟩ := openInvite_eq_some hname
  refine addDevice_sound hc (fun hr => ?_) ⟨hsafe, ?_⟩ hq
  · obtain ⟨j, -, -, -, -, hj, -, -, -, hfields⟩ := h.invited (hsecret hr) hd hopened
    have hpk : answer.publicKey = E.exportPublicKey j.keyPair :=
      congrArg InviteSealFields.publicKey hfields
    exact ⟨j.keyPair, by rw [hpk, E.import_export], hj⟩
  · obtain ⟨m, hread, hopen⟩ := Option.bind_eq_some_iff.mp hopened
    obtain rfl := openCipher_eq_some hopen
    have hv : w.Written E (0 : ℕ) 0 opened :=
      ⟨fun hr => absurd hr (Nat.not_lt_zero _),
        fun u hu ho => h.vouched (hd _ hread) u hu (.sealed ho)⟩
    exact (shownName_written (hv.field hfield) hshown).2

/-- A rotation gives its key away to no device but those of the roster. -/
theorem rotateGroupKey_sound (hc : c.Sound E r w) {keyEpoch : ℕ} {devices : List (Text × Text)}
    {newKey : Name}
    {p : Client × Request} (ht : w.Trusted E r (.rotateGroupKey c keyEpoch devices newKey))
    (hp : rotateGroupKey E c keyEpoch devices newKey = some p) :
    p.1.Sound E r w ∧ p.2.Sound E r w := by
  obtain ⟨hdraws, hmembers⟩ := ht
  simp only [rotateGroupKey, Option.bind_eq_bind, Option.bind_eq_some_iff, Option.some.injEq] at hp
  obtain ⟨wraps, hwraps, rfl⟩ := hp
  refine ⟨{ hc with rotations := List.forall_mem_cons.mpr ⟨hdraws, hc.rotations⟩ }, ?_⟩
  refine ⟨List.forall_mem_nil _, fun b hb => ?_, List.forall_mem_nil _, fun _ hs => ?_⟩
  · obtain ⟨p, hp, rfl⟩ := List.mem_map.mp hb
    obtain ⟨d, hd, hpd⟩ := mem_mapM hwraps hp
    obtain ⟨recipient, hrecipient, rfl⟩ := Option.map_eq_some_iff.mp hpd
    obtain ⟨hdev, hne⟩ := List.mem_filter.mp hd
    have hpayload : w.Written E r (keyEpoch + 1)
        (object [(literal "groupKey", .name newKey),
          (literal "epoch", Msg.number (keyEpoch + 1))]) := by
      refine .object ?_
      simp only [List.forall_mem_cons, List.not_mem_nil, false_implies, implies_true, and_true]
      exact ⟨.name hdraws, .data _⟩
    refine Wrap.sound (fun hr => ?_) hpayload (.inr ⟨_, _, _, newKey, rfl, hc.groupId, rfl, hdraws⟩)
    obtain ⟨n, hn, hg⟩ := hmembers hr d hdev (of_decide_eq_true hne)
    exact Option.some.inj (hrecipient.symm.trans hn) ▸ hg
  · exact absurd hs (Option.not_mem_none _)

theorem rotationAccepted_sound (hc : c.Sound E r w) {epoch : ℕ} {newKey : Name}
    (hr : (epoch, newKey) ∈ c.rotations) :
    (rotationAccepted c epoch newKey).Sound E r w :=
  hc.withRing (hc.ring.withEpoch (hc.rotations _ hr)) (le_max_left _ _)

/-- The key that a delivery opens to is one of its epoch. -/
theorem unwrapRotatedKey_draws (h : w.Sound E r) {key : Name} {epoch : ℕ}
    {wrapped groupId deviceId : Text}
    {groupKey : Name} (hd : w.Deposited E wrapped) (hg : Base64Url groupId)
    (hk : unwrapRotatedKey E key epoch wrapped groupId deviceId = some groupKey) :
    World.Draws r epoch groupKey := by
  obtain ⟨m, hm, himport⟩ := Option.bind_eq_some_iff.mp hk
  obtain ⟨p, hopen, hfield⟩ := Option.bind_eq_some_iff.mp hm
  obtain ⟨b, hb, hctx, rfl⟩ := h.unwrapped hd hopen
  rcases hb.opens with ⟨pairingId, -, hctx', -⟩ | ⟨g, e, d, k, hctx', hg', hp, hdraws⟩
  · exact absurd ((congrArg bytes hctx').symm.trans hctx) (pairingContext_ne_rekeyContext hg)
  · obtain rfl : epoch = e := rekeyContext_epoch hg hg' (hctx.symm.trans (congrArg bytes hctx'))
    rw [hp] at hfield
    obtain rfl : Term.name k = m := by simpa [object, field] using hfield
    exact Option.some.inj himport ▸ hdraws

/-- A ring that has adopted a key is as sound as before, and its epoch does not go back. -/
theorem adoptOne_sound (h : w.Sound E r) (hc : c.Sound E r w) {p p' : Keyring × ℕ} {d : ℕ × Text}
    (ht : w.Deposited E d.2) (hp : p.1.Sound r) (hone : adoptOne E c p d = some p') :
    p'.1.Sound r ∧ p.1.current ≤ p'.1.current := by
  unfold adoptOne at hone
  split at hone
  · obtain rfl := Option.some.inj hone
    exact ⟨hp, le_rfl⟩
  · obtain ⟨key, hkey, rfl⟩ := Option.map_eq_some_iff.mp hone
    exact ⟨hp.withEpoch (unwrapRotatedKey_draws h ht hc.groupId hkey), le_max_left _ _⟩

theorem adoptPendingKeys_sound (h : w.Sound E r) (hc : c.Sound E r w)
    {deliveries : List (ℕ × Text)} {succeeds : AdoptCall → Bool} {ring : Keyring}
    (ht : ∀ d ∈ deliveries, w.Deposited E d.2)
    (hs : (adoptPendingKeys E c deliveries succeeds).saved = some ring) :
    Client.Sound E r w { c with ring } := by
  have hrun : ∀ (ds : List (ℕ × Text)) (p p' : Keyring × ℕ), (∀ d ∈ ds, w.Deposited E d.2) →
      p.1.Sound r → ds.foldlM (adoptOne E c) p = some p' →
      p'.1.Sound r ∧ p.1.current ≤ p'.1.current := by
    intro ds
    induction ds with
    | nil =>
      intro p p' _ hp hr
      obtain rfl := Option.some.inj hr
      exact ⟨hp, le_rfl⟩
    | cons d ds ih =>
      intro p p' hds hp hr
      obtain ⟨hd, hds⟩ := List.forall_mem_cons.mp hds
      obtain ⟨p₁, hone, hrest⟩ := Option.bind_eq_some_iff.mp hr
      obtain ⟨hp₁, hle⟩ := adoptOne_sound h hc hd hp hone
      obtain ⟨hp', hle'⟩ := ih p₁ p' hds hp₁ hrest
      exact ⟨hp', hle.trans hle'⟩
  obtain ⟨highest, hring⟩ := adoptPendingKeys_saved hs
  obtain ⟨hsound, hle⟩ := hrun _ _ _ (fun d hd => ht d (List.mem_mergeSort.mp hd)) hc.ring hring
  exact hc.withRing hsound hle

theorem nullable_read {value : Option Text} : (nullable value).read = value := by
  cases value <;> rfl

theorem metaFor_written {m : OutgoingMessage} {epoch : ℕ}
    (h : ∀ f ∈ m.file, w.Written E r epoch f.name) {meta' : Msg}
    (hm : metaFor m = some meta') : w.Written E r epoch meta' := by
  unfold metaFor at hm
  split at hm
  · cases hm
  · obtain rfl := Option.some.inj hm
    refine .object fun f hf => ?_
    rcases List.mem_append.mp hf with hf | hf
    · rcases List.mem_append.mp hf with hf | hf
      · cases hfile : m.file with
        | none => simp only [hfile, Option.map_none, Option.getD_none, List.not_mem_nil] at hf
        | some file =>
          simp only [hfile, Option.map_some, Option.getD_some, List.mem_cons, List.not_mem_nil,
            or_false] at hf
          rcases hf with rfl | rfl | rfl
          · exact h file hfile
          · exact .data _
          · exact .data _
      · cases hbatch : m.batch with
        | none => simp only [hbatch, Option.map_none, Option.getD_none, List.not_mem_nil] at hf
        | some b =>
          simp only [hbatch, Option.map_some, Option.getD_some, List.mem_cons, List.not_mem_nil,
            or_false] at hf
          rcases hf with rfl | rfl | rfl <;> exact .data _
    · obtain ⟨v, hv, rfl⟩ := mem_optional.mp hf
      split at hv
      · exact Option.some.inj hv ▸ .data _
      · cases hv

/-- What a queued message is sent as gives nothing away. -/
theorem sendQueuedContent_sound (hc : c.Sound E r w) {m : OutgoingMessage} {textIv metaIv : Text}
    {qs : List Request} (ht : w.Trusted E r (.sendQueuedContent c m textIv metaIv))
    (hq : sendQueuedContent c m textIv metaIv = some qs) :
    ∀ q ∈ qs, q.Sound E r w := by
  obtain ⟨hid, htext, hmeta, hfile, hwritten⟩ := ht
  simp only [sendQueuedContent, Option.bind_eq_bind, Option.bind_eq_some_iff,
    Option.some.injEq] at hq
  obtain ⟨p, hp, rfl⟩ := hq
  have hk := hc.ring.pinEpoch hp
  obtain ⟨hwtext, hwfile⟩ := hwritten p hp
  intro q hq
  rcases List.mem_append.mp hq with hq | hq
  · obtain ⟨f, hf, rfl⟩ := Option.map_eq_some_iff.mp (Option.mem_toList.mp hq)
    refine ⟨List.forall_mem_singleton.mpr (Seal.sound hk (hwfile f hf).2 trivial),
      List.forall_mem_nil _,
      List.forall_mem_singleton.mpr ⟨_, rfl⟩, fun _ hs => ?_⟩
    exact absurd hs (Option.not_mem_none _)
  · obtain rfl := List.mem_singleton.mp hq
    refine ⟨fun s hs => ?_, List.forall_mem_nil _, fun s hs => ?_, fun signed hs => ?_⟩
    · rcases List.mem_append.mp hs with hs | hs
      · obtain ⟨text, htext', rfl⟩ := Option.map_eq_some_iff.mp (Option.mem_toList.mp hs)
        exact Seal.sound hk (hwtext text htext') trivial
      · obtain ⟨meta', hmeta', rfl⟩ := Option.map_eq_some_iff.mp (Option.mem_toList.mp hs)
        exact Seal.sound hk (metaFor_written (fun f hf => (hwfile f hf).1) hmeta') trivial
    · rcases List.mem_append.mp hs with hs | hs
      · obtain ⟨text, -, rfl⟩ := Option.map_eq_some_iff.mp (Option.mem_toList.mp hs)
        exact ⟨_, rfl⟩
      · obtain ⟨meta', -, rfl⟩ := Option.map_eq_some_iff.mp (Option.mem_toList.mp hs)
        exact ⟨_, rfl⟩
    · obtain rfl := Option.some.inj hs
      constructor
      · simp only [MessageSignatureFields.ids, messageFields, List.forall_mem_cons,
          List.not_mem_nil, false_implies,
          implies_true, and_true]
        exact ⟨hc.groupId, hid, hc.deviceId⟩
      · intro t ht
        obtain ⟨v, hv, hread⟩ := List.mem_filterMap.mp ht
        have hwrite : ∀ {s : Option Seal}, 
            t ∈ s.map (fun c => E.write (c.ciphertext E)) → World.Drawn t := by
          intro s hs
          obtain ⟨a, -, rfl⟩ := Option.map_eq_some_iff.mp hs
          exact ⟨E.base64Url_write _, E.write_ne_nil _⟩
        simp only [MessageSignatureFields.ciphertexts, messageFields, List.mem_cons,
          List.not_mem_nil, or_false] at hv
        rcases hv with rfl | rfl | rfl | rfl | rfl | rfl
        · exact hwrite (nullable_read ▸ hread)
        · simp only [nullable_read, Option.map_map, Option.map_eq_some_iff] at hread
          obtain ⟨text, -, rfl⟩ := hread
          exact htext
        · simp only [nullable_read, Option.map_map, Option.map_eq_some_iff] at hread
          obtain ⟨f, hf, rfl⟩ := hread
          exact (hfile f hf).1
        · simp only [nullable_read, Option.map_map, Option.map_eq_some_iff] at hread
          obtain ⟨f, hf, rfl⟩ := hread
          exact (hfile f hf).2
        · exact hwrite (nullable_read ▸ hread)
        · simp only [nullable_read, Option.map_map, Option.map_eq_some_iff] at hread
          obtain ⟨meta', -, rfl⟩ := hread
          exact hmeta

theorem sendQueuedDeletion_sound (hc : c.Sound E r w) {id : Text} {keyEpoch : Option ℕ}
    {deletesMessageId : Text} {q : Request} (hid : Base64Url id)
    (hq : sendQueuedDeletion c id keyEpoch deletesMessageId = some q) : q.Sound E r w := by
  obtain ⟨p, -, rfl⟩ := Option.map_eq_some_iff.mp hq
  refine ⟨List.forall_mem_nil _, List.forall_mem_nil _, List.forall_mem_nil _, fun signed hs => ?_⟩
  obtain rfl := Option.some.inj hs
  exact ⟨hc.groupId, hid, hc.deviceId⟩

theorem publishSpaceName_sound (hc : c.Sound E r w) {iv : Text} {q : Request}
    (hq : publishSpaceName c iv = some q) :
    q.Sound E r w := by
  obtain ⟨key, hkey, rfl⟩ := Option.map_eq_some_iff.mp hq
  refine ⟨fun s hs => ?_, List.forall_mem_nil _, fun s hs => ?_, fun _ hs => ?_⟩
  · obtain ⟨name, hname, rfl⟩ := Option.map_eq_some_iff.mp (Option.mem_toList.mp hs)
    exact Seal.sound (hc.ring.currentKey hkey) (hc.name name hname) trivial
  · obtain ⟨name, -, rfl⟩ := Option.map_eq_some_iff.mp (Option.mem_toList.mp hs)
    exact ⟨key, rfl⟩
  · exact absurd hs (Option.not_mem_none _)

theorem readSpaceName_written (h : w.Sound E r) (hc : c.Sound E r w)
    {record : Option (Text × Text)} {epoch : ℕ}
    {name : Option Msg} (ht : ∀ p ∈ record, w.Delivers E p.1)
    (hn : readSpaceName E c record epoch = some name) :
    ∀ text ∈ name, w.Written E r c.ring.current text := by
  cases record with
  | none =>
    obtain rfl := Option.some.inj hn
    exact fun _ hm => absurd hm (Option.not_mem_none _)
  | some p =>
    obtain ⟨key, hkey, hn⟩ := Option.bind_eq_some_iff.mp hn
    obtain ⟨text, htext, rfl⟩ := Option.map_eq_some_iff.mp hn
    obtain ⟨hdraws, hle⟩ := hc.ring.keyForEpoch hkey
    intro text' htext'
    obtain rfl := Option.some.inj htext'
    exact (h.decrypted hdraws (ht p rfl) htext).later hle

theorem sealMeta_sound (hc : c.Sound E r w) {id kind : Text} {meta' : Msg} {iv : Text} {s : Seal}
    (hm : w.Written E r c.ring.current meta') (hs : sealMeta c id kind meta' iv = some s) :
    s.Sound E w ∧ ∃ key, s.key = .name key := by
  obtain ⟨key, hkey, rfl⟩ := Option.map_eq_some_iff.mp hs
  exact ⟨Seal.sound (hc.ring.currentKey hkey) hm hc.groupId.colon_notMem, key, rfl⟩

theorem uploadContent_sound (hc : c.Sound E r w) {content : Content}
    (ht : World.Content.Trusted E r w c.ring.current content) :
    (uploadContent c content).Sound E r w := by
  refine ⟨List.forall_mem_singleton.mpr (Seal.sound ht.1 ht.2 hc.groupId.colon_notMem),
    List.forall_mem_nil _, List.forall_mem_singleton.mpr ⟨_, rfl⟩, fun _ hs => ?_⟩
  exact absurd hs (Option.not_mem_none _)

theorem Content.written {content : Content} {epoch : ℕ}
    (ht : World.Content.Trusted E r w epoch content) :
    ∀ f ∈ content.json, w.Written E r epoch f.2 := by
  simp only [Content.json, List.forall_mem_cons, List.not_mem_nil, false_implies,
    implies_true, and_true]
  exact ⟨.name ht.1, .data _, .data _⟩

theorem noteMeta_written {title excerpt : Msg} {content : Content} {epoch : ℕ}
    (ht : w.Written E r epoch title)
    (he : w.Written E r epoch excerpt) (hc : World.Content.Trusted E r w epoch content) :
    w.Written E r epoch (noteMeta title excerpt content) :=
  .object (List.forall_mem_append.mpr
    ⟨List.forall_mem_cons.mpr ⟨ht, Content.written hc⟩, List.forall_mem_singleton.mpr he⟩)

theorem fileMeta_written {name : Msg} {mime : Text} {content : Content} {epoch : ℕ}
    (hn : w.Written E r epoch name) (hc : World.Content.Trusted E r w epoch content) :
    w.Written E r epoch (fileMeta name mime content) :=
  .object (List.forall_mem_cons.mpr ⟨hn, List.forall_mem_cons.mpr ⟨.data _, Content.written hc⟩⟩)

/-- What a vault operation asks for and what it leaves in the entries. -/
def SavesSoundly (E : Encoding) (r : ℕ) (w : World) (c : Client)
    (result : Option (Msg × List Request)) : Prop :=
  ∀ p ∈ result, w.Written E r c.ring.current p.1 ∧ ∀ q ∈ p.2, q.Sound E r w

/-- The item, and its content if it comes with a new version. -/
theorem savesSoundly_of_sealMeta (hc : c.Sound E r w) {id kind : Text} {meta' : Msg} {iv : Text}
    (uploads : List Request) {item : Seal → Request} (hm : w.Written E r c.ring.current meta')
    (hu : ∀ q ∈ uploads, q.Sound E r w)
    (hi : ∀ s, s.Sound E w → (∃ key, s.key = .name key) → (item s).Sound E r w) :
    SavesSoundly E r w c ((sealMeta c id kind meta' iv).map fun s =>
      (meta', uploads ++ [item s])) := by
  intro p hp
  obtain ⟨s, hs, rfl⟩ := Option.map_eq_some_iff.mp hp
  obtain ⟨hsound, hkey⟩ := sealMeta_sound hc hm hs
  exact ⟨hm, List.forall_mem_append.mpr ⟨hu, List.forall_mem_singleton.mpr (hi s hsound hkey)⟩⟩

/-- A request with one seal. -/
theorem Request.sound_of_seal {q : Request} {s : Seal} (hs : q.seals = [s]) (hb : q.wraps = [])
    (hst : q.statement E = none) (hk : q.Keyed E) (hsound : s.Sound E w) : q.Sound E r w where
  seals := by rw [hs]; exact List.forall_mem_singleton.mpr hsound
  wraps := by rw [hb]; exact List.forall_mem_nil _
  keyed := hk
  signed _ h := by rw [hst] at h; cases h

theorem createVaultItem_sound {s : Session} {id : Text} {parentId : Option Text}
    {kind : VaultItemKind}
    {blobKey : Option Text} {keyEpoch : ℕ} (sealed : Seal) (hs : sealed.Sound E w)
    (hk : ∃ key, sealed.key = .name key) :
    (Request.createVaultItem s id parentId kind blobKey keyEpoch sealed).Sound E r w :=
  Request.sound_of_seal rfl rfl rfl (List.forall_mem_singleton.mpr hk) hs

theorem updateVaultItem_sound {s : Session} {id : Text} {revision : ℕ} {blobKey : Option Text}
    {keyEpoch : ℕ} (sealed : Seal) (hs : sealed.Sound E w) (hk : ∃ key, sealed.key = .name key) :
    (Request.updateVaultItem s id revision blobKey keyEpoch sealed).Sound E r w :=
  Request.sound_of_seal rfl rfl rfl (List.forall_mem_singleton.mpr hk) hs

/-- Sealing items again gives nothing away. -/
theorem resealVault_sound (hc : c.Sound E r w) {batch : List (VaultEntry × Text)} {q : Request}
    (hb : ∀ p ∈ batch, p.1 ∈ c.entries) (hq : resealVault c batch = some q) : q.Sound E r w := by
  obtain ⟨items, hitems, rfl⟩ := Option.map_eq_some_iff.mp hq
  have hitem : ∀ item ∈ items, item.2.2.Sound E w ∧ ∃ key, item.2.2.key = .name key := by
    intro item hitem
    obtain ⟨p, hp, hmap⟩ := mem_mapM hitems hitem
    obtain ⟨s, hseal, rfl⟩ := Option.map_eq_some_iff.mp hmap
    exact sealMeta_sound hc (hc.entries p.1 (hb p (List.mem_of_mem_filter hp))) hseal
  refine ⟨fun s hs => ?_, List.forall_mem_nil _, fun s hs => ?_, fun _ hs => ?_⟩
  · obtain ⟨item, hi, rfl⟩ := List.mem_map.mp hs
    exact (hitem item hi).1
  · obtain ⟨item, hi, rfl⟩ := List.mem_map.mp hs
    exact (hitem item hi).2
  · exact absurd hs (Option.not_mem_none _)

theorem World.Sound.addOne (h : w.Sound E r) {q : Request} (hq : q.Sound E r w) :
    (w.add [] [q]).Sound E r :=
  h.add (List.forall_mem_nil _) (List.forall_mem_singleton.mpr hq)

theorem World.Sound.goOn (h : w.Sound E r) (hc : c.Sound E r w) : (w.add [c] []).Sound E r :=
  h.add (List.forall_mem_singleton.mpr hc) (List.forall_mem_nil _)

theorem World.Sound.save (h : w.Sound E r) (hc : c.Sound E r w) {item : VaultItemRecord}
    {result : Option (Msg × List Request)} (hs : SavesSoundly E r w c result)
    (hw : w.saved c item result = some w') :
    w'.Sound E r := by
  obtain ⟨p, hp, rfl⟩ := Option.map_eq_some_iff.mp hw
  obtain ⟨hm, hq⟩ := hs p hp
  exact h.add
    (List.forall_mem_singleton.mpr { hc with entries := List.forall_mem_cons.mpr ⟨hm, hc.entries⟩ })
      hq

/-- What one step keeps. -/
theorem World.Sound.step (h : w.Sound E r) {e : Event} (ht : w.Trusted E r e)
    (hw : w.step E e = some w') :
    w'.Sound E r := by
  cases e with
  | createSpace s groupKey token iv now deviceName spaceName =>
    obtain rfl := Option.some.inj hw
    obtain ⟨hc, hq⟩ := setUpNewSpace_sound ht
    exact h.add (List.forall_mem_singleton.mpr hc) (List.forall_mem_singleton.mpr hq)
  | startLinking pairingId deviceId keyPair signingKeyPair sendOnly invite deviceName iv =>
    obtain rfl := Option.some.inj hw
    obtain ⟨hj, hq⟩ := createJoiningDevice_sound ht
    have hadd := h.addOne hq
    exact ⟨fun c hc => (hadd.clients c hc).mono (List.Subset.refl _),
      List.forall_mem_cons.mpr ⟨hj, h.joining⟩,
      fun q hq => (hadd.sent q hq).mono (List.Subset.refl _)⟩
  | pollLink j wrapped =>
    obtain ⟨hj, hw⟩ := Option.ite_none_right_eq_some.mp hw
    obtain ⟨c, hc, rfl⟩ := Option.map_eq_some_iff.mp hw
    exact h.goOn (pollLink_sound h (h.joining j hj) ht hc)
  | addDeviceFromQr c payload token iv now bundles =>
    obtain ⟨hc, hw⟩ := Option.ite_none_right_eq_some.mp hw
    obtain ⟨q, hq, rfl⟩ := Option.map_eq_some_iff.mp hw
    exact h.addOne (addDevice_sound (h.clients c hc) ht.1 ht.2 hq)
  | approveInvitedDevice c invite answer token iv now bundles =>
    obtain ⟨hc, hw⟩ := Option.ite_none_right_eq_some.mp hw
    obtain ⟨payload, hp, hw⟩ := Option.bind_eq_some_iff.mp hw
    obtain ⟨q, hq, rfl⟩ := Option.map_eq_some_iff.mp hw
    exact h.addOne (approveInvitedDevice_sound h (h.clients c hc) ht hp hq)
  | rotateGroupKey c keyEpoch devices newKey =>
    obtain ⟨hc, hw⟩ := Option.ite_none_right_eq_some.mp hw
    obtain ⟨p, hp, rfl⟩ := Option.map_eq_some_iff.mp hw
    obtain ⟨hc', hq⟩ := rotateGroupKey_sound (h.clients c hc) ht hp
    exact h.add (List.forall_mem_singleton.mpr hc') (List.forall_mem_singleton.mpr hq)
  | rotationAccepted c asked epoch newKey =>
    obtain ⟨⟨hc, hr⟩, hw⟩ := Option.ite_none_right_eq_some.mp hw
    obtain rfl := Option.some.inj hw
    obtain rfl : epoch = asked := ht
    exact h.goOn (rotationAccepted_sound (h.clients c hc) hr)
  | adoptPendingKeys c deliveries succeeds =>
    obtain ⟨hc, hw⟩ := Option.ite_none_right_eq_some.mp hw
    obtain rfl := Option.some.inj hw
    refine h.add (fun c' hc' => ?_) (List.forall_mem_nil _)
    obtain ⟨ring, hring, rfl⟩ := Option.map_eq_some_iff.mp (Option.mem_toList.mp hc')
    exact adoptPendingKeys_sound h (h.clients c hc) ht hring
  | sendQueuedContent c m textIv metaIv =>
    obtain ⟨hc, hw⟩ := Option.ite_none_right_eq_some.mp hw
    obtain ⟨qs, hqs, rfl⟩ := Option.map_eq_some_iff.mp hw
    exact h.add (List.forall_mem_nil _) (sendQueuedContent_sound (h.clients c hc) ht hqs)
  | sendQueuedDeletion c id keyEpoch deletesMessageId =>
    obtain ⟨hc, hw⟩ := Option.ite_none_right_eq_some.mp hw
    obtain ⟨q, hq, rfl⟩ := Option.map_eq_some_iff.mp hw
    exact h.addOne (sendQueuedDeletion_sound (h.clients c hc) ht hq)
  | renameSpace c name =>
    obtain ⟨hc, hw⟩ := Option.ite_none_right_eq_some.mp hw
    obtain rfl := Option.some.inj hw
    exact h.goOn { h.clients c hc with name := ht }
  | publishSpaceName c iv =>
    obtain ⟨hc, hw⟩ := Option.ite_none_right_eq_some.mp hw
    obtain ⟨q, hq, rfl⟩ := Option.map_eq_some_iff.mp hw
    exact h.addOne (publishSpaceName_sound (h.clients c hc) hq)
  | adoptSpaceName c record nameKeyEpoch =>
    obtain ⟨hc, hw⟩ := Option.ite_none_right_eq_some.mp hw
    obtain ⟨name, hname, rfl⟩ := Option.map_eq_some_iff.mp hw
    exact h.goOn { h.clients c hc with name := readSpaceName_written h (h.clients c hc) ht hname }
  | openVaultMeta c record =>
    obtain ⟨hc, hw⟩ := Option.ite_none_right_eq_some.mp hw
    obtain ⟨meta', hmeta, rfl⟩ := Option.map_eq_some_iff.mp hw
    obtain ⟨key, hkey, hopen⟩ := Option.bind_eq_some_iff.mp hmeta
    have hsound := h.clients c hc
    obtain ⟨hdraws, hle⟩ := hsound.ring.keyForEpoch hkey
    have hm := (h.decrypted hdraws ht hopen).later hle
    exact h.goOn { hsound with entries := List.forall_mem_cons.mpr ⟨hm, hsound.entries⟩ }
  | createVaultFolder c id parentId name iv item =>
    obtain ⟨hc, hw⟩ := Option.ite_none_right_eq_some.mp hw
    refine h.save (h.clients c hc) (savesSoundly_of_sealMeta (h.clients c hc) [] ?_
      (List.forall_mem_nil _) createVaultItem_sound) hw
    exact .object (List.forall_mem_singleton.mpr ht)
  | createVaultNote c id parentId title excerpt content iv item =>
    obtain ⟨hc, hw⟩ := Option.ite_none_right_eq_some.mp hw
    obtain ⟨htitle, hexcerpt, hcontent⟩ := ht
    have hup := List.forall_mem_singleton.mpr (uploadContent_sound (h.clients c hc) hcontent)
    exact h.save (h.clients c hc) (savesSoundly_of_sealMeta (h.clients c hc) _
      (noteMeta_written htitle hexcerpt hcontent) hup createVaultItem_sound) hw
  | createVaultFile c id parentId name mime content iv item =>
    obtain ⟨hc, hw⟩ := Option.ite_none_right_eq_some.mp hw
    obtain ⟨hname, hcontent⟩ := ht
    have hup := List.forall_mem_singleton.mpr (uploadContent_sound (h.clients c hc) hcontent)
    exact h.save (h.clients c hc)
      (savesSoundly_of_sealMeta (h.clients c hc) _ (fileMeta_written hname hcontent) hup
      createVaultItem_sound) hw
  | updateVaultNote c entry title excerpt content iv item =>
    obtain ⟨⟨hc, -⟩, hw⟩ := Option.ite_none_right_eq_some.mp hw
    obtain ⟨htitle, hexcerpt, hcontent⟩ := ht
    have hup := List.forall_mem_singleton.mpr (uploadContent_sound (h.clients c hc) hcontent)
    exact h.save (h.clients c hc) (savesSoundly_of_sealMeta (h.clients c hc) _
      (noteMeta_written htitle hexcerpt hcontent) hup updateVaultItem_sound) hw
  | renameVaultItem c entry name iv item =>
    obtain ⟨⟨hc, hentry⟩, hw⟩ := Option.ite_none_right_eq_some.mp hw
    exact h.save (h.clients c hc) (savesSoundly_of_sealMeta (h.clients c hc) []
      (ht.setField ((h.clients c hc).entries entry hentry)) (List.forall_mem_nil _)
        updateVaultItem_sound) hw
  | resealVault c batch =>
    obtain ⟨⟨hc, hbatch⟩, hw⟩ := Option.ite_none_right_eq_some.mp hw
    obtain ⟨q, hq, rfl⟩ := Option.map_eq_some_iff.mp hw
    exact h.addOne (resealVault_sound (h.clients c hc) hbatch hq)

/-- The invariant holds in every world that a trusted run leads to. -/
theorem World.Reached.sound (h : w.Reached E r) : w.Sound E r :=
  h.invariant ⟨List.forall_mem_nil _, List.forall_mem_nil _, List.forall_mem_nil _⟩
    fun _ _ _ hs ht hw =>
    World.Sound.step hs ht hw

namespace Sample

def session : Session := ⟨literal "space", literal "phone", ⟨0, true⟩, ⟨1, true⟩⟩

def groupKey : Name := ⟨2, true⟩

def client : Client := ⟨session, createKeyring groupKey 1, none, [], []⟩

def invite : Invite := ⟨literal "slot", ⟨3, true⟩⟩

def joiner : JoiningDevice := ⟨literal "slot", literal "script", ⟨4, true⟩, ⟨5, true⟩, true⟩

def answer (E : Encoding) : Seal :=
  sealInvite invite (Msg.text (literal "Script")) (joiner.fields E) (literal "iv")

/-- What is written in it is not to be known. -/
def message : OutgoingMessage :=
  ⟨literal "message", some (.name ⟨6, true⟩), none, none, false, none⟩

def sealedText : Seal :=
  ⟨.name groupKey, .messageText (literal "message"), literal "iv", .name ⟨6, true⟩⟩

def founding : Request :=
  .createGroup session (literal "token") ⟨.name groupKey, .deviceName (literal "phone"),
    literal "iv", Msg.text []⟩ 0

def sending : Request := .sendMessage session (literal "message") 1 (some sealedText) none none

def deleting : Request := .sendDeletion session (literal "order") 1 (literal "message")

def founded : World := ⟨[client], [], [founding]⟩

def answered (E : Encoding) : World :=
  ⟨[client], [joiner], [.pairingRequest joiner (some (answer E)), founding]⟩

def sent (E : Encoding) : World :=
  ⟨[client], [joiner], [sending, .pairingRequest joiner (some (answer E)), founding]⟩

def world (E : Encoding) : World :=
  ⟨[client], [joiner], [deleting, sending, .pairingRequest joiner (some (answer E)), founding]⟩

theorem reached (E : Encoding) : (world E).Reached E 1 := by
  have draws : World.Draws 1 1 groupKey := iff_of_true rfl le_rfl
  have drawn : World.Drawn (literal "iv") := ⟨by decide, by decide⟩
  have order : Base64Url (literal "order") := by decide
  have h₁ : founded.Reached E 1 := by
    refine .next .start
      (e := .createSpace session groupKey (literal "token") (literal "iv") 0 (Msg.text []) none) ?_
        rfl
    exact ⟨rfl, rfl, draws, by decide, by decide, .data _,
      fun _ hm => absurd hm (Option.not_mem_none _)⟩
  have h₂ : (answered E).Reached E 1 := by
    refine h₁.next (e := .startLinking [] (literal "script") ⟨4, true⟩ ⟨5, true⟩ true (some invite)
      (Msg.text (literal "Script")) (literal "iv")) ⟨rfl, rfl, by
        decide, by decide, fun i hi => ?_, ?_⟩ rfl
    · obtain rfl := Option.some.inj hi
      exact ⟨by decide, fun _ => trivial⟩
    · exact fun u hu ho => absurd ho (not_occurs_data hu _)
  have h₃ : (sent E).Reached E 1 := by
    refine h₂.next (e := .sendQueuedContent client message (literal "iv") (literal "iv"))
      ⟨by decide, drawn, drawn,
      fun _ hm => absurd hm (Option.not_mem_none _),
      fun p hp => ⟨fun text ht => ?_, fun _ hm => ?_⟩⟩ rfl
    · obtain rfl := Option.some.inj ht
      obtain rfl := Option.some.inj hp
      exact ⟨fun hr => absurd hr (by decide), fun u hu ho => absurd ho (not_occurs_name hu _)⟩
    · exact absurd hm (Option.not_mem_none _)
  exact h₃.next
    (e := .sendQueuedDeletion client (literal "order") none (literal "message")) order rfl

end Sample

/-- The server can read the fields of what it knows. -/
theorem World.Knows.field {fs : List (Text × Msg)} {f : Text × Msg} (h : w.Knows E (object fs))
    (hf : f ∈ fs) :
    w.Knows E f.2 := by
  induction fs with
  | nil => exact absurd hf List.not_mem_nil
  | cons g fs ih =>
    rcases List.mem_cons.mp hf with rfl | hf
    · exact .snd (.fst h)
    · exact ih (.snd h) hf

theorem World.Knows.sent {q : Request} (h : q ∈ w.sent) : w.Knows E (q.body E) := .seen ⟨q, h, rfl⟩

theorem World.Knows.delivers {m : Msg} (h : w.Knows E m) : w.Delivers E (E.write m) := by
  intro m' hm'
  rw [E.read_write] at hm'
  exact Option.some.inj hm' ▸ h

/-- Whatever the server answers, it never comes to know a key, a secret or a text that is guarded,
nor any key that a client holds for an epoch from `r` on. -/
theorem guarded_never_known (h : w.Reached E r) :
    (∀ n, Guarded n → ¬ w.Knows E (.name n)) ∧
    ∀ c ∈ w.clients, ∀ epoch key, r ≤ epoch → keyForEpoch c.ring epoch = some key →
      ¬ w.Knows E (.name key) := by
  have hname : ∀ n, Guarded n → ¬ w.Knows E (.name n) :=
    fun n hn => Derives.not_name h.sound.seen hn
  refine ⟨hname, fun c hc epoch key hr hk => ?_⟩
  exact hname key ((((h.sound.clients c hc).ring.keyForEpoch hk).1).mpr hr)

theorem guarded_never_known_sample :
    Guarded ⟨6, true⟩ ∧ ¬ (Sample.world .numbered).Knows .numbered (.name ⟨6, true⟩) :=
  ⟨rfl, (guarded_never_known (Sample.reached .numbered)).1 _ rfl⟩

end SendSelf.EndToEnd
