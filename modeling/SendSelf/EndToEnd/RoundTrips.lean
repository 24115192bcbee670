import SendSelf.EndToEnd.Authenticity

/-!
# What is handed over arrives

A device that is let in comes to hold the group key, its epoch and the space's name. A rotated key
reaches every device it was wrapped for, and costs none of them a key it had. A note or a file
can be read by every client that holds the key its item is sealed with at the time, however often
the item has been renamed and sealed again since it was written, because its content keeps the key
it was sealed with.
-/
namespace SendSelf.EndToEnd
open Intruder Statements Framing

variable {E : Encoding} {c d : Client}

theorem unwrapSecret_write (key : Name) (payload : Msg) (context : Text) :
    unwrapSecret E key (E.write (wrapSecret key payload context)) context = some payload := by
  rw [unwrapSecret, E.read_write, wrapSecret, Option.bind_some, openBox, if_pos ⟨rfl, rfl⟩]

theorem decrypt_write (key plaintext : Msg) (context iv : Text) :
    decrypt E key (E.write (encrypt E key plaintext context iv)) iv context = some plaintext := by
  rw [decrypt, E.read_write, encrypt, Option.bind_some, openCipher, if_pos ⟨rfl, rfl⟩]

@[simp] theorem field_cons_self (key : Text) (value : Msg) (fields : List (Text × Msg)) :
    field key (object ((key, value) :: fields)) = some value := by
  rw [object, field, if_pos rfl]

theorem field_cons_ne {key k : Text} (h : k ≠ key) (value : Msg) (fields : List (Text × Msg)) :
    field key (object ((k, value) :: fields)) = field key (object fields) := by
  rw [object, field, if_neg h]

theorem field_setField_ne {key k : Text} (h : k ≠ key) {m : Msg} {v : Msg}
    (hv : field key m = some v) (value : Msg) :
    field key (setField k value m) = some v := by
  induction m using field.induct key with
  | case1 v' rest =>
    rw [setField, if_neg (Ne.symm h), field, if_pos rfl]
    rwa [field, if_pos rfl] at hv
  | case2 k' v' rest hk ih =>
    rw [field, if_neg hk] at hv
    rw [setField]
    split
    · rw [field, if_neg hk]
      exact hv
    · rw [field, if_neg hk]
      exact ih hv
  | case3 m hm =>
    rw [field.eq_2 key m hm] at hv
    cases hv

/-- The package a device is let in with makes it a client of the space, with the key in use. -/
theorem linked_device_holds_the_key {j : JoiningDevice} {payload : PairingQrPayload}
    {token iv : Text} {now : ℤ}
    {bundles : List DeviceKeyBundle} {q : Request} (hid : payload.pairingId = j.pairingId)
    (hkey : payload.publicKey = E.exportPublicKey j.keyPair)
    (hq : addDevice E c payload token iv now bundles = some q) :
    ∃ key, currentKey c.ring = some key ∧ ∃ b ∈ q.wraps, pollLink E j (E.write b.wrapped) =
      some ⟨⟨c.session.groupId, j.deviceId, j.keyPair, j.signingKeyPair⟩,
        createKeyring key c.ring.current,
        c.spaceName, [], []⟩ := by
  simp only [addDevice, Option.bind_eq_bind, Option.bind_eq_some_iff, Option.some.injEq, hkey,
    E.import_export] at hq
  obtain ⟨key, hcurrent, recipient, rfl, rfl⟩ := hq
  refine ⟨key, hcurrent, _, List.mem_cons_self, ?_⟩
  have h₁ : literal "groupKey" ≠ literal "keyEpoch" := by decide
  have h₂ : literal "groupKey" ≠ literal "groupId" := by decide
  have h₃ : literal "keyEpoch" ≠ literal "groupId" := by decide
  have h₄ : literal "deviceAuthToken" ≠ literal "groupId" := by decide
  have hname :
      ∀ k ∈ [literal "groupKey", literal "keyEpoch", literal "deviceAuthToken", literal "groupId",
      literal "roster"], k ≠ literal "spaceName" := by decide
  simp only [List.forall_mem_cons] at hname
  have hspace : field (literal "spaceName") (object (optional (literal "spaceName") c.spaceName)) =
      c.spaceName := by
    cases c.spaceName with
    | none => rfl
    | some name => exact field_cons_self _ _ _
  simp only [pollLink, Wrap.wrapped, hid, unwrapSecret_write, PairingPayload.json, List.cons_append,
    List.nil_append,
    Option.bind_eq_bind, Option.bind_some, field_cons_self, field_cons_ne h₁, field_cons_ne h₂,
    field_cons_ne h₃,
    field_cons_ne h₄, field_cons_ne hname.1, field_cons_ne hname.2.1, field_cons_ne hname.2.2.1,
    field_cons_ne hname.2.2.2.1, field_cons_ne hname.2.2.2.2.1, hspace, importGroupKey, asText]
  rfl

namespace Sample

def scanned (E : Encoding) : PairingQrPayload :=
  ⟨literal "slot", literal "script", Msg.text (literal "Script"), E.exportPublicKey ⟨4, true⟩, none⟩

/-- Another device of the space, before it has the second key. -/
def tablet : Client :=
  ⟨⟨literal "space", literal "tablet", ⟨7, true⟩, ⟨8, true⟩⟩, createKeyring groupKey 1,
    none, [], []⟩

def rotation : Wrap := ⟨⟨7, true⟩, rekeyContext (literal "space") 2 (literal "tablet"),
  object [(literal "groupKey", .name ⟨9, true⟩), (literal "epoch", Msg.number 2)]⟩

def handed (E : Encoding) : ℕ × Text := (2, E.write rotation.wrapped)

end Sample

theorem linked_device_holds_the_key_sample :
    ∃ q, addDevice .numbered Sample.client (Sample.scanned .numbered) (literal "token")
      (literal "iv") 0 [] = some q ∧ ∃ key, currentKey Sample.client.ring = some key ∧
      ∃ b ∈ q.wraps,
    pollLink .numbered Sample.joiner (Encoding.numbered.write b.wrapped) =
      some ⟨⟨literal "space", literal "script",
      ⟨4, true⟩, ⟨5, true⟩⟩, createKeyring key 1, none, [], []⟩ := by
  obtain ⟨q, hq⟩ : ∃ q,
    addDevice .numbered Sample.client (Sample.scanned .numbered) (literal "token") (literal "iv") 0
      [] = some q := by
    simp only [addDevice, Sample.scanned, Encoding.import_export]
    exact ⟨_, rfl⟩
  exact ⟨q, hq, linked_device_holds_the_key (j := Sample.joiner) rfl rfl hq⟩

/-- A run over deliveries that all open: what the ring has it keeps, and it has a key for each of
their epochs, from a delivery for this epoch where it had none. -/
theorem adoptOne_foldlM (p : Keyring × ℕ) {ds : List (ℕ × Text)} (h : ∀ x ∈ ds, ∃ key,
      unwrapRotatedKey E d.session.keyPair x.1 x.2 d.session.groupId d.session.deviceId =
        some key) :
    ∃ p', ds.foldlM (adoptOne E d) p = some p' ∧ p.1.current ≤ p'.1.current ∧ p.2 ≤ p'.2 ∧
      (∀ e k, keyForEpoch p.1 e = some k → keyForEpoch p'.1 e = some k) ∧
      (∀ x ∈ ds, x.1 ≤ p'.2 ∧ (keyForEpoch p'.1 x.1).isSome) ∧
      (∀ x ∈ ds, keyForEpoch p.1 x.1 = none → x.1 ≤ p'.1.current ∧ ∃ y ∈ ds, y.1 = x.1 ∧
        keyForEpoch p'.1 x.1 =
          unwrapRotatedKey E d.session.keyPair y.1 y.2 d.session.groupId d.session.deviceId) := by
  induction ds generalizing p with
  | nil =>
    exact ⟨p, rfl, le_rfl, le_rfl, fun _ _ h => h, fun _ hx => absurd hx List.not_mem_nil,
      fun _ hx => absurd hx List.not_mem_nil⟩
  | cons x ds ih =>
    obtain ⟨⟨key, hkey⟩, hds⟩ := List.forall_mem_cons.mp h
    rw [List.foldlM_cons]
    by_cases hsome : (keyForEpoch p.1 x.1).isSome
    · obtain ⟨p', hp', hcur, hhigh, hold, hall, hnew⟩ := ih (p.1, max p.2 x.1) hds
      have hone : adoptOne E d p x = some (p.1, max p.2 x.1) := by rw [adoptOne, if_pos hsome]
      obtain ⟨k, hk⟩ := Option.isSome_iff_exists.mp hsome
      refine ⟨p', by rw [hone]; exact hp', hcur, (le_max_left _ _).trans hhigh, hold,
        List.forall_mem_cons.mpr ⟨⟨(le_max_right _ _).trans hhigh, ?_⟩, hall⟩,
        List.forall_mem_cons.mpr ⟨fun hnone => ?_, fun y hy hnone => ?_⟩⟩
      · rw [hold _ _ hk]
        rfl
      · rw [hnone] at hk
        cases hk
      · obtain ⟨hle, z, hz, heq, hz'⟩ := hnew y hy hnone
        exact ⟨hle, z, List.mem_cons_of_mem _ hz, heq, hz'⟩
    · have hnone : keyForEpoch p.1 x.1 = none := Option.not_isSome_iff_eq_none.mp hsome
      have hone : adoptOne E d p x = some (withEpoch p.1 x.1 key, max p.2 x.1) := by
        rw [adoptOne, if_neg hsome, hkey, Option.map_some]
      obtain ⟨p', hp', hcur, hhigh, hold, hall, hnew⟩ :=
        ih (withEpoch p.1 x.1 key, max p.2 x.1) hds
      have hring : ∀ e, keyForEpoch (withEpoch p.1 x.1 key) e =
          WriteOnce.record (keyForEpoch p.1) x.1 key e := fun e =>
        congrFun (keyForEpoch_withEpoch _ _ _) e
      have hthis : keyForEpoch p'.1 x.1 = some key :=
        hold _ _ ((hring _).trans WriteOnce.record_self)
      have hle : x.1 ≤ p'.1.current := (le_max_right _ _).trans hcur
      refine ⟨p', by rw [hone]; exact hp', (le_max_left _ _).trans hcur,
        (le_max_left _ _).trans hhigh, fun e k he => hold _ _ ?_,
        List.forall_mem_cons.mpr ⟨⟨(le_max_right _ _).trans hhigh, by rw [hthis]; rfl⟩, hall⟩,
        fun y hy hy' => ?_⟩
      · have hne : e ≠ x.1 := by
          rintro rfl
          rw [hnone] at he
          cases he
        rw [hring, WriteOnce.record_ne hne]
        exact he
      · by_cases hepoch : y.1 = x.1
        · exact ⟨hepoch ▸ hle, x, List.mem_cons_self, hepoch.symm, by rw [hepoch, hthis, hkey]⟩
        · rcases List.mem_cons.mp hy with rfl | hy
          · exact absurd rfl hepoch
          · obtain ⟨hle, z, hz, heq, hz'⟩ :=
              hnew y hy ((hring _).trans ((WriteOnce.record_ne hepoch).trans hy'))
            exact ⟨hle, z, List.mem_cons_of_mem _ hz, heq, hz'⟩

theorem keepAdopted_acked {ring updated : Keyring} {highest epoch : ℕ}
    {succeeds : AdoptCall → Bool}
    (h : (keepAdopted ring updated highest succeeds).acked = some epoch) :
    (keepAdopted ring updated highest succeeds).saved = some updated ∧ highest = epoch := by
  rw [keepAdopted_saved]
  simp only [keepAdopted] at h
  split at h
  · next hsave =>
    rw [if_pos hsave]
    refine ⟨rfl, ?_⟩
    split_ifs at h <;> exact Option.some.inj h
  · cases h

theorem keepAdopted_returned {ring updated ring' : Keyring} {highest : ℕ}
    {succeeds : AdoptCall → Bool}
    (h : (keepAdopted ring updated highest succeeds).returned = some ring') : updated = ring' := by
  simp only [keepAdopted] at h
  split_ifs at h <;> exact Option.some.inj h

theorem keepAdopted_of_succeeds (ring updated : Keyring) (highest : ℕ)
    {succeeds : AdoptCall → Bool} (h : ∀ call, succeeds call = true) :
    (keepAdopted ring updated highest succeeds).returned = some updated := by
  simp only [keepAdopted, h, Bool.not_true, Bool.and_false, Bool.false_eq_true, ↓reduceIte]
  split <;> rfl

theorem unwrapRotatedKey_write (key groupKey : Name) (groupId : Text) (epoch : ℕ)
    (deviceId : Text) :
    unwrapRotatedKey E key epoch (E.write (wrapRotatedKey key groupKey groupId epoch deviceId))
      groupId deviceId =
      some groupKey := by
  rw [unwrapRotatedKey, wrapRotatedKey, unwrapSecret_write, Option.bind_some, field_cons_self,
    Option.bind_some,
    importGroupKey]

/-- A delivery to `d` of the key that a rotation has wrapped for it, the rotating client having been
shown `d`'s own public key. -/
def Handed (E : Encoding) (d : Client) (delivery : ℕ × Text) (key : Name) : Prop :=
  ∃ c keyEpoch devices c' wraps w, rotateGroupKey E c keyEpoch devices key =
      some (c', .rotateKey c.session delivery.1 wraps) ∧ c.session.groupId = d.session.groupId ∧
    (∀ p ∈ devices, p.1 = d.session.deviceId → p.2 = E.exportPublicKey d.session.keyPair) ∧
    (d.session.deviceId, w) ∈ wraps ∧ delivery.2 = E.write (Wrap.wrapped w)

theorem Handed.unwraps {delivery : ℕ × Text} {key : Name} (h : Handed E d delivery key) :
    unwrapRotatedKey E d.session.keyPair delivery.1 delivery.2 d.session.groupId
      d.session.deviceId = some key := by
  obtain ⟨c, keyEpoch, devices, c', wraps, w, hq, hgroup, hlisted, hw, hdelivery⟩ := h
  simp only [rotateGroupKey, Option.bind_eq_bind, Option.bind_eq_some_iff, Option.some.injEq,
    Prod.mk.injEq,
    Request.rotateKey.injEq, true_and] at hq
  obtain ⟨ws, hws, -, hepoch, rfl⟩ := hq
  obtain ⟨p, hp, hpw⟩ := mem_mapM hws hw
  obtain ⟨recipient, hrecipient, heq⟩ := Option.map_eq_some_iff.mp hpw
  obtain ⟨hid, rfl⟩ := Prod.mk.injEq .. ▸ heq
  rw [hlisted p (List.mem_filter.mp hp).1 hid, E.import_export, Option.some.injEq] at hrecipient
  rw [hdelivery, Wrap.wrapped, ← hepoch, ← hrecipient, hgroup, hid]
  exact unwrapRotatedKey_write ..

/-- A device catches up on the rotations it has missed, whoever made them and in whatever order
their keys are handed over. The ring it stores and goes on with has every key of the one it started
with and every key that was handed over; the server is told only when this ring is stored; and
unless storing, telling or noting fails, it goes on. -/
theorem missed_rotations_are_adopted {deliveries : List (ℕ × Text)}
    (hepochs : (deliveries.map Prod.fst).Nodup) (h : ∀ x ∈ deliveries, ∃ key, Handed E d x key)
    (succeeds : AdoptCall → Bool) :
    (∀ ring, (adoptPendingKeys E d deliveries succeeds).saved = some ring ∨
        (adoptPendingKeys E d deliveries succeeds).returned = some ring →
      (∀ e k, keyForEpoch d.ring e = some k → keyForEpoch ring e = some k) ∧
      ∀ x ∈ deliveries, ∀ key, Handed E d x key → keyForEpoch d.ring x.1 = none →
        keyForEpoch ring x.1 = some key ∧ x.1 ≤ ring.current) ∧
    (∀ epoch, (adoptPendingKeys E d deliveries succeeds).acked = some epoch →
      ∃ ring, (adoptPendingKeys E d deliveries succeeds).saved = some ring ∧
        ∀ x ∈ deliveries, x.1 ≤ epoch ∧ (keyForEpoch ring x.1).isSome) ∧
    ((∀ call, succeeds call = true) →
      ∃ ring, (adoptPendingKeys E d deliveries succeeds).returned = some ring ∧
        (deliveries ≠ [] → (adoptPendingKeys E d deliveries succeeds).saved = some ring)) := by
  by_cases hnil : deliveries = []
  · subst hnil
    refine ⟨fun ring hring => ?_, fun epoch he => ?_,
      fun _ => ⟨d.ring, rfl, fun hne => absurd rfl hne⟩⟩
    · obtain rfl : d.ring = ring := hring.elim (fun h => by cases h) Option.some.inj
      exact ⟨fun _ _ h => h, fun _ hx => absurd hx List.not_mem_nil⟩
    · cases he
  have hperm := List.mergeSort_perm deliveries fun a b => decide (a.1 ≤ b.1)
  have hunwraps : ∀ x ∈ deliveries.mergeSort fun a b => decide (a.1 ≤ b.1), ∃ key,
      unwrapRotatedKey E d.session.keyPair x.1 x.2 d.session.groupId d.session.deviceId =
        some key :=
    fun x hx => (h x (hperm.mem_iff.mp hx)).imp fun _ hkey => hkey.unwraps
  obtain ⟨p, hp, -, -, hold, hall, hnew⟩ := adoptOne_foldlM (d.ring, 0) hunwraps
  have hadopt : adoptPendingKeys E d deliveries succeeds = keepAdopted d.ring p.1 p.2 succeeds := by
    rw [adoptPendingKeys, if_neg hnil, hp]
  have hring : (∀ e k, keyForEpoch d.ring e = some k → keyForEpoch p.1 e = some k) ∧
      ∀ x ∈ deliveries, ∀ key, Handed E d x key → keyForEpoch d.ring x.1 = none →
        keyForEpoch p.1 x.1 = some key ∧ x.1 ≤ p.1.current := by
    refine ⟨hold, fun x hx key hkey hnone => ?_⟩
    obtain ⟨hle, y, hy, heq, hk⟩ := hnew x (hperm.mem_iff.mpr hx) hnone
    have hxy : y = x := List.inj_on_of_nodup_map hepochs (hperm.mem_iff.mp hy) hx heq
    exact ⟨by rw [hk, hxy, hkey.unwraps], hle⟩
  rw [hadopt]
  refine ⟨fun ring hr => ?_, fun epoch he => ?_, fun hs => ⟨p.1, ?_, fun _ => ?_⟩⟩
  · have heq : p.1 = ring := by
      rcases hr with hr | hr
      · rw [keepAdopted_saved] at hr
        exact Option.some.inj (Option.ite_none_right_eq_some.mp hr).2
      · exact keepAdopted_returned hr
    exact heq ▸ hring
  · obtain ⟨hsaved, rfl⟩ := keepAdopted_acked he
    exact ⟨p.1, hsaved, fun x hx => hall x (hperm.mem_iff.mpr hx)⟩
  · exact keepAdopted_of_succeeds _ _ _ hs
  · rw [keepAdopted_saved, if_pos (hs _)]

theorem Sample.isHanded (E : Encoding) : Handed E tablet (handed E) ⟨9, true⟩ := by
  refine ⟨client, 1, [(literal "tablet", E.exportPublicKey ⟨7, true⟩)],
    { client with rotations := [(2, ⟨9, true⟩)] },
    [(literal "tablet", rotation)], rotation, ?_, rfl, List.forall_mem_singleton.mpr fun _ => rfl,
    List.mem_cons_self, rfl⟩
  rw [rotateGroupKey, List.filter_cons_of_pos (by rfl), List.filter_nil, List.mapM_cons,
    E.import_export]
  rfl

theorem missed_rotations_are_adopted_sample :
    Handed .numbered Sample.tablet (Sample.handed .numbered) ⟨9, true⟩ ∧
    ∃ ring, (adoptPendingKeys .numbered Sample.tablet [Sample.handed .numbered] fun _ =>
      true).saved =
        some ring ∧
      keyForEpoch ring 1 = some Sample.groupKey ∧ keyForEpoch ring 2 = some ⟨9, true⟩ := by
  have hhanded := Sample.isHanded .numbered
  have hall : ∀ x ∈ [Sample.handed .numbered], ∃ key, Handed .numbered Sample.tablet x key :=
    List.forall_mem_singleton.mpr ⟨_, hhanded⟩
  have hepochs : ([Sample.handed .numbered].map Prod.fst).Nodup := List.nodup_singleton _
  obtain ⟨hring, -, hreturns⟩ := missed_rotations_are_adopted hepochs hall fun _ => true
  obtain ⟨ring, -, hsaved⟩ := hreturns fun _ => rfl
  have hsaved := hsaved (List.cons_ne_nil _ _)
  obtain ⟨hold, hnew⟩ := hring ring (.inl hsaved)
  exact ⟨hhanded, ring, hsaved, hold 1 _ rfl, (hnew _ List.mem_cons_self _ hhanded rfl).1⟩

/-- The row of an item after a request, if it is about this version of it. -/
def VaultItemRecord.written (E : Encoding) (r : VaultItemRecord) : Request → VaultItemRecord
  | .updateVaultItem _ id revision blobKey keyEpoch meta' =>
      if id = r.id ∧ revision = r.revision then
        { r with
          blobKey := blobKey.or r.blobKey, keyEpoch, meta' := E.write (meta'.ciphertext E),
          metaIv := meta'.iv,
                 revision := r.revision + 1 }
      else r
  | .resealVault _ keyEpoch items => items.foldl (fun r item =>
      if item.1 = r.id ∧ item.2.1 = r.revision ∧ r.keyEpoch < keyEpoch then
        { r with keyEpoch, meta' := E.write (item.2.2.ciphertext E), metaIv := item.2.2.iv }
      else r) r
  | _ => r

/-- What a client does to items whose metadata it has opened. -/
inductive Edit where
  | rename (c : Client) (entry : VaultEntry) (name : Msg) (iv : Text)
  | updateNote (c : Client) (entry : VaultEntry) (title excerpt : Msg)
      (content : Content) (iv : Text)
  | reseal (c : Client) (batch : List (VaultEntry × Text))

namespace Edit

def client : Edit → Client
  | .rename c _ _ _ => c
  | .updateNote c _ _ _ _ _ => c
  | .reseal c _ => c

def entries : Edit → List VaultEntry
  | .rename _ entry _ _ => [entry]
  | .updateNote _ entry _ _ _ _ => [entry]
  | .reseal _ batch => batch.map Prod.fst

/-- The request that changes the items, after the upload of new content. -/
def request : Edit → Option Request
  | .rename c entry name iv => (renameVaultItem c entry name iv).bind fun p => p.2.getLast?
  | .updateNote c entry title excerpt content iv =>
      (updateVaultNote c entry title excerpt content iv).bind fun p => p.2.getLast?
  | .reseal c batch => resealVault c batch

/-- Whether the edit is about the present version of an item. -/
def About (entry : VaultEntry) (r : VaultItemRecord) : Prop :=
  entry.record.id = r.id ∧ entry.record.revision = r.revision

instance (entry : VaultEntry) (r : VaultItemRecord) : Decidable (About entry r) :=
  inferInstanceAs (Decidable (_ ∧ _))

end Edit

/-- A version of an item, with what it is to say: the key its metadata is sealed with, its name and
its content. -/
structure Version where
  record : VaultItemRecord
  key : Name
  title : Msg
  content : Content
deriving DecidableEq, Repr

def Version.after (E : Encoding) (v : Version) (edit : Edit) (q : Request) : Version :=
  let key := (currentKey edit.client.ring).getD v.key
  let record := v.record.written E q
  match edit with
  | .rename _ entry name _ =>
      if Edit.About entry v.record then { v with record, key, title := name } else { v with record }
  | .updateNote _ entry title _ content _ =>
      if Edit.About entry v.record then { v with record, key, title, content }
        else { v with record }
  | .reseal _ _ =>
      if record.keyEpoch = v.record.keyEpoch then { v with record } else { v with record, key }

/-- The versions of a note or a file, newest first. An entry that an edit starts from is any version
of the item that the client can open, or one of another item. -/
inductive Versions (E : Encoding) (groupId : Text) : List Version → Prop
  | note {c : Client} {id : Text} {parentId : Option Text} {title excerpt : Msg} {content : Content}
      {iv : Text} {key : Name}
      {m : Msg} {upload : Request} {s : Session} {epoch : ℕ} {sealed : Seal}
        (hgroup : c.session.groupId = groupId)
      (hkey : currentKey c.ring = some key)
      (hcreate : createVaultNote c id parentId title excerpt content iv =
        some (m,
          [upload, .createVaultItem s id parentId .note (some content.blobKey) epoch sealed])) :
      Versions E groupId
        [⟨⟨id, VaultItemKind.note.text, some content.blobKey, epoch, E.write (sealed.ciphertext E),
          sealed.iv, 1⟩, key, title, content⟩]
  | file {c : Client} {id : Text} {parentId : Option Text} {name : Msg} {mime : Text}
      {content : Content} {iv : Text}
      {key : Name} {m : Msg} {upload : Request} {s : Session} {epoch : ℕ} {sealed : Seal}
      (hgroup : c.session.groupId = groupId) (hkey : currentKey c.ring = some key)
      (hcreate : createVaultFile c id parentId name mime content iv =
        some (m,
          [upload, .createVaultItem s id parentId .file (some content.blobKey) epoch sealed])) :
      Versions E groupId
        [⟨⟨id, VaultItemKind.file.text, some content.blobKey, epoch, E.write (sealed.ciphertext E),
          sealed.iv, 1⟩, key, name, content⟩]
  | edited {v : Version} {vs : List Version} {edit : Edit} {q : Request}
      (h : Versions E groupId (v :: vs))
      (hgroup : edit.client.session.groupId = groupId)
      (hopened : ∀ entry ∈ edit.entries,
        openVaultMeta E edit.client entry.record = some entry.meta')
      (hknown : ∀ entry ∈ edit.entries, entry.record.id = v.record.id → ∃ u ∈ v :: vs,
        entry.record = u.record)
      (hq : edit.request = some q) : Versions E groupId (v.after E edit q :: v :: vs)

/-- Metadata that names an item and its content, sealed as the row says. -/
structure Version.Holds (E : Encoding) (groupId : Text) (v : Version) (meta' : Msg) : Prop where
  sealed : v.record.meta' = E.write
    (encrypt E (.name v.key) meta' (Place.vaultMeta groupId v.record.id v.record.kind).context
      v.record.metaIv)
  title : field (literal "name") meta' = some v.title
  contentKey : field (literal "contentKey") meta' = some (.name v.content.contentKey)
  contentIv : field (literal "contentIv") meta' = some (Msg.text v.content.iv)
  blobKey : v.record.blobKey = some v.content.blobKey

theorem sealMeta_eq {id kind : Text} {m : Msg} {iv : Text} {key : Name}
    (h : currentKey c.ring = some key) :
    sealMeta c id kind m iv = some ⟨.name key, .vaultMeta c.session.groupId id kind, iv, m⟩ := by
  rw [sealMeta, h, Option.map_some]

/-- What a client opens is what was sealed. -/
theorem Version.Holds.opened {v : Version} {m m' : Msg} (h : v.Holds E c.session.groupId m)
    (hm : openVaultMeta E c v.record = some m') : m' = m := by
  obtain ⟨key, -, hkey⟩ := Option.bind_eq_some_iff.mp hm
  rw [decrypt, h.sealed, E.read_write, Option.bind_some, encrypt, openCipher] at hkey
  split at hkey
  · exact (Option.some.inj hkey).symm
  · cases hkey

theorem noteMeta_fields (title excerpt : Msg) (content : Content) :
    field (literal "name") (noteMeta title excerpt content) = some title ∧
      field (literal "contentKey") (noteMeta title excerpt content) =
        some (.name content.contentKey) ∧
      field (literal "contentIv") (noteMeta title excerpt content) =
        some (Msg.text content.iv) := by
  have h₁ : literal "name" ≠ literal "contentKey" := by decide
  have h₂ : literal "name" ≠ literal "contentIv" := by decide
  have h₃ : literal "contentKey" ≠ literal "contentIv" := by decide
  simp only [noteMeta, Content.json, List.cons_append, field_cons_self, field_cons_ne h₁,
    field_cons_ne h₂,
    field_cons_ne h₃, and_self]

theorem fileMeta_fields (name : Msg) (mime : Text) (content : Content) :
    field (literal "name") (fileMeta name mime content) = some name ∧
      field (literal "contentKey") (fileMeta name mime content) = some (.name content.contentKey) ∧
      field (literal "contentIv") (fileMeta name mime content) = some (Msg.text content.iv) := by
  have h₁ : literal "name" ≠ literal "contentKey" := by decide
  have h₂ : literal "name" ≠ literal "contentIv" := by decide
  have h₃ : literal "contentKey" ≠ literal "contentIv" := by decide
  have h₄ : literal "mime" ≠ literal "contentKey" := by decide
  have h₅ : literal "mime" ≠ literal "contentIv" := by decide
  simp only [fileMeta, Content.json, field_cons_self, field_cons_ne h₁, field_cons_ne h₂,
    field_cons_ne h₃,
    field_cons_ne h₄, field_cons_ne h₅, and_self]

theorem field_setField_self (key : Text) (value m : Msg) :
    field key (setField key value m) = some value := by
  induction m using field.induct key with
  | case1 v rest => rw [setField, if_pos rfl, field, if_pos rfl]
  | case2 k v rest hk ih =>
    rw [setField, if_neg hk, field, if_neg hk]
    exact ih
  | case3 m hm =>
    rw [setField.eq_2 key value m hm]
    exact field_cons_self _ _ _

/-- A reseal leaves a row alone or seals the same metadata again, under the key that is current. -/
theorem written_reseal {batch : List (VaultEntry × Text)} {q : Request}
    (hq : resealVault c batch = some q) (r : VaultItemRecord) :
    r.written E q = r ∨ r.keyEpoch < c.ring.current ∧ ∃ p ∈ batch, ∃ key,
    currentKey c.ring = some key ∧
      Edit.About p.1 r ∧ r.written E q = { r with
        keyEpoch := c.ring.current,
        meta' := E.write (encrypt E (.name key) p.1.meta'
          (Place.vaultMeta c.session.groupId p.1.record.id p.1.record.kind).context p.2),
        metaIv := p.2 } := by
  obtain ⟨items, hitems, rfl⟩ := Option.map_eq_some_iff.mp hq
  have hall : ∀ item ∈ items, ∃ p ∈ batch, ∃ key, currentKey c.ring = some key ∧
      item = (p.1.record.id,
      p.1.record.revision, ⟨.name key, .vaultMeta c.session.groupId p.1.record.id
        p.1.record.kind, p.2, p.1.meta'⟩) := by
    intro item hitem
    obtain ⟨p, hp, hitem⟩ := mem_mapM hitems hitem
    obtain ⟨sealed, hsealed, hitem⟩ := Option.map_eq_some_iff.mp hitem
    obtain ⟨key, hkey, rfl⟩ := Option.map_eq_some_iff.mp hsealed
    exact ⟨p, (List.mem_filter.mp hp).1, key, hkey, hitem.symm⟩
  rw [VaultItemRecord.written]
  clear hitems hq
  induction items generalizing r with
  | nil => exact .inl rfl
  | cons item items ih =>
    obtain ⟨⟨p, hp, key, hkey, rfl⟩, hrest⟩ := List.forall_mem_cons.mp hall
    rw [List.foldl_cons]
    split
    · next hlands =>
      refine .inr ⟨hlands.2.2, p, hp, key, hkey, ⟨hlands.1, hlands.2.1⟩, ?_⟩
      rcases ih { r with
          keyEpoch := c.ring.current
          meta' := E.write (encrypt E (.name key) p.1.meta'
            (Place.vaultMeta c.session.groupId p.1.record.id p.1.record.kind).context p.2)
          metaIv := p.2 } hrest with hsame | ⟨hlt, -⟩
      · exact hsame
      · exact absurd hlt (lt_irrefl _)
    · exact ih r hrest

/-- What the versions of an item have in common, `v` being the newest. -/
structure Version.Newest (E : Encoding) (groupId : Text) (v : Version)
    (vs : List Version) : Prop where
  holds : ∀ u ∈ v :: vs, ∃ m, u.Holds E groupId m
  item : ∀ u ∈ v :: vs, u.record.id = v.record.id ∧ u.record.kind = v.record.kind
  revision : ∀ u ∈ v :: vs, u.record.revision ≤ v.record.revision
  /-- A revision has one name and one content, under whatever key it is sealed. -/
  same : ∀ u ∈ v :: vs, u.record.revision = v.record.revision → ∀ m, u.Holds E groupId m →
    v.Holds E groupId m

variable {groupId : Text} {v : Version} {vs : List Version} {m : Msg}

/-- A change that seals other metadata makes a new revision. -/
theorem Version.Newest.change (h : v.Newest E groupId vs) {v' : Version}
    (hid : v'.record.id = v.record.id) (hkind : v'.record.kind = v.record.kind)
    (hrevision : v'.record.revision = v.record.revision + 1) {m : Msg}
    (hm : v'.Holds E groupId m) : v'.Newest E groupId (v :: vs) where
  holds := List.forall_mem_cons.mpr ⟨⟨m, hm⟩, h.holds⟩
  item := List.forall_mem_cons.mpr ⟨⟨rfl, rfl⟩, fun u hu =>
    ⟨(h.item u hu).1.trans hid.symm, (h.item u hu).2.trans hkind.symm⟩⟩
  revision := List.forall_mem_cons.mpr ⟨le_rfl, fun u hu => by
    have := h.revision u hu
    omega⟩
  same := List.forall_mem_cons.mpr ⟨fun _ _ h => h, fun u hu heq => by
    have := h.revision u hu
    omega⟩

/-- Sealing the same metadata again does not. -/
theorem Version.Newest.again (h : v.Newest E groupId vs) {v' : Version}
    (hid : v'.record.id = v.record.id)
    (hkind : v'.record.kind = v.record.kind) (hrevision : v'.record.revision = v.record.revision)
    (hm : ∀ m, v.Holds E groupId m → v'.Holds E groupId m) : v'.Newest E groupId (v :: vs) where
  holds := List.forall_mem_cons.mpr ⟨(h.holds v List.mem_cons_self).imp hm, h.holds⟩
  item := List.forall_mem_cons.mpr ⟨⟨rfl, rfl⟩, fun u hu =>
    ⟨(h.item u hu).1.trans hid.symm, (h.item u hu).2.trans hkind.symm⟩⟩
  revision := List.forall_mem_cons.mpr ⟨le_rfl, fun u hu => hrevision ▸ h.revision u hu⟩
  same := List.forall_mem_cons.mpr ⟨fun _ _ h => h, fun u hu heq m hu' =>
    hm m (h.same u hu (heq.trans hrevision) m hu')⟩

/-- What an edit of the present version has opened is what the present version says. -/
theorem Version.Newest.opened (h : v.Newest E c.session.groupId vs) {entry : VaultEntry}
    (hopened : openVaultMeta E c entry.record = some entry.meta')
    (hknown : entry.record.id = v.record.id → ∃ u ∈ v :: vs, entry.record = u.record)
    (habout : Edit.About entry v.record) :
    v.Holds E c.session.groupId entry.meta' ∧ entry.record.kind = v.record.kind := by
  obtain ⟨u, hu, heq⟩ := hknown habout.1
  obtain ⟨m, hm⟩ := h.holds u hu
  rw [heq] at hopened ⊢
  have hsame := hm.opened hopened
  exact ⟨h.same u hu (heq ▸ habout.2) _ (hsame ▸ hm), (h.item u hu).2⟩

theorem Version.Newest.rename (h : v.Newest E c.session.groupId vs) {entry : VaultEntry}
    {name : Msg} {iv : Text}
    {q : Request} (hopened : openVaultMeta E c entry.record = some entry.meta')
    (hknown : entry.record.id = v.record.id → ∃ u ∈ v :: vs, entry.record = u.record)
    (hq : (Edit.rename c entry name iv).request = some q) :
    (v.after E (.rename c entry name iv) q).Newest E c.session.groupId (v :: vs) := by
  simp only [Edit.request, renameVaultItem, Option.bind_eq_some_iff, Option.map_eq_some_iff] at hq
  obtain ⟨_, ⟨sealed, hsealed, rfl⟩, hq⟩ := hq
  obtain ⟨key, hkey, rfl⟩ := Option.map_eq_some_iff.mp hsealed
  obtain rfl := Option.some.inj (List.getLast?_singleton ▸ hq)
  rw [Version.after]
  simp only [Edit.client, hkey, Option.getD_some, VaultItemRecord.written, Edit.About]
  by_cases habout : entry.record.id = v.record.id ∧ entry.record.revision = v.record.revision
  · obtain ⟨hv, hkind⟩ := h.opened hopened hknown habout
    rw [if_pos habout, if_pos habout, Option.none_or]
    refine h.change rfl rfl
      rfl (m := setField (literal "name") name entry.meta') ⟨?_, field_setField_self _ _ _, ?_,
        ?_, hv.blobKey⟩
    · simp only [Seal.ciphertext, hkind, habout.1]
    · exact field_setField_ne (by decide) hv.contentKey _
    · exact field_setField_ne (by decide) hv.contentIv _
  · rw [if_neg habout, if_neg habout]
    exact h.again rfl rfl rfl fun _ hm => hm

theorem Version.Newest.updateNote (h : v.Newest E c.session.groupId vs) {entry : VaultEntry}
    {title excerpt : Msg} {content : Content} {iv : Text} {q : Request}
    (hknown : entry.record.id = v.record.id → ∃ u ∈ v :: vs, entry.record = u.record)
    (hq : (Edit.updateNote c entry title excerpt content iv).request = some q) :
    (v.after E (.updateNote c entry title excerpt content iv) q).Newest E c.session.groupId
      (v :: vs) := by
  simp only [Edit.request, updateVaultNote, Option.bind_eq_some_iff, Option.map_eq_some_iff] at hq
  obtain ⟨_, ⟨sealed, hsealed, rfl⟩, hq⟩ := hq
  obtain ⟨key, hkey, rfl⟩ := Option.map_eq_some_iff.mp hsealed
  obtain rfl := Option.some.inj (List.getLast?_singleton ▸ List.getLast?_cons_cons ▸ hq)
  rw [Version.after]
  simp only [Edit.client, hkey, Option.getD_some, VaultItemRecord.written, Edit.About]
  by_cases habout : entry.record.id = v.record.id ∧ entry.record.revision = v.record.revision
  · obtain ⟨u, hu, heq⟩ := hknown habout.1
    have hkind : entry.record.kind = v.record.kind := heq ▸ (h.item u hu).2
    obtain ⟨htitle, hcontentKey, hcontentIv⟩ := noteMeta_fields title excerpt content
    rw [if_pos habout, if_pos habout, Option.some_or]
    refine h.change rfl rfl rfl (m := noteMeta title excerpt content)
      ⟨?_, htitle, hcontentKey, hcontentIv, rfl⟩
    simp only [Seal.ciphertext, hkind, habout.1]
  · rw [if_neg habout, if_neg habout]
    exact h.again rfl rfl rfl fun _ hm => hm

theorem Version.Newest.reseal (h : v.Newest E c.session.groupId vs) {batch : List
    (VaultEntry × Text)} {q : Request}
    (hopened : ∀ p ∈ batch, openVaultMeta E c p.1.record = some p.1.meta')
    (hknown : ∀ p ∈ batch, p.1.record.id = v.record.id → ∃ u ∈ v :: vs, p.1.record = u.record)
    (hq : resealVault c batch = some q) :
    (v.after E (.reseal c batch) q).Newest E c.session.groupId (v :: vs) := by
  rw [Version.after]
  rcases written_reseal (E := E) hq v.record with hsame | ⟨hlt, p, hp, key, hkey, habout, hlands⟩
  · simp only [hsame, if_true]
    exact h.again rfl rfl rfl fun _ hm => hm
  · obtain ⟨hv, hkind⟩ := h.opened (hopened p hp) (hknown p hp) habout
    simp only [hlands, if_neg (Nat.ne_of_gt hlt), Edit.client, hkey, Option.getD_some]
    refine h.again rfl rfl rfl fun m hm => ?_
    have hm' : m = p.1.meta' := by
      have heq := E.read_write _ ▸ congrArg E.read (hm.sealed.symm.trans hv.sealed)
      rw [E.read_write, Option.some.injEq, encrypt, encrypt, Term.cipher.injEq] at heq
      exact heq.2.2
    refine ⟨?_, hm.title, hm.contentKey, hm.contentIv, hm.blobKey⟩
    simp only [hm', hkind, habout.1]

theorem Version.Holds.first (h : v.Holds E groupId m) : v.Newest E groupId [] where
  holds := List.forall_mem_singleton.mpr ⟨m, h⟩
  item := List.forall_mem_singleton.mpr ⟨rfl, rfl⟩
  revision := List.forall_mem_singleton.mpr le_rfl
  same := List.forall_mem_singleton.mpr fun _ _ h => h

theorem Versions.newest {l : List Version} (h : Versions E groupId l) :
    ∃ v vs, l = v :: vs ∧ v.Newest E groupId vs := by
  induction h with
  | @note c id parentId title excerpt content iv key m upload s epoch sealed hgroup hkey hcreate =>
    simp only [createVaultNote, sealMeta_eq hkey, Option.map_some, Option.some.injEq, Prod.mk.injEq,
      List.cons.injEq,
      Request.createVaultItem.injEq, true_and, and_true] at hcreate
    obtain ⟨-, -, -, -, rfl⟩ := hcreate
    obtain ⟨htitle, hcontentKey, hcontentIv⟩ := noteMeta_fields title excerpt content
    exact ⟨_, _, rfl, Version.Holds.first (m := noteMeta title excerpt content)
      ⟨hgroup ▸ rfl, htitle, hcontentKey, hcontentIv, rfl⟩⟩
  | @file c id parentId name mime content iv key m upload s epoch sealed hgroup hkey hcreate =>
    simp only [createVaultFile, sealMeta_eq hkey, Option.map_some, Option.some.injEq, Prod.mk.injEq,
      List.cons.injEq,
      Request.createVaultItem.injEq, true_and, and_true] at hcreate
    obtain ⟨-, -, -, -, rfl⟩ := hcreate
    obtain ⟨htitle, hcontentKey, hcontentIv⟩ := fileMeta_fields name mime content
    exact ⟨_, _, rfl, Version.Holds.first (m := fileMeta name mime content)
      ⟨hgroup ▸ rfl, htitle, hcontentKey, hcontentIv, rfl⟩⟩
  | @edited v vs edit q h hgroup hopened hknown hq ih =>
    obtain ⟨_, _, heq, hnewest⟩ := ih
    obtain ⟨rfl, rfl⟩ := List.cons.inj heq
    subst hgroup
    refine ⟨_, _, rfl, ?_⟩
    cases edit with
    | rename c entry name iv =>
      exact hnewest.rename (hopened entry List.mem_cons_self) (hknown entry List.mem_cons_self) hq
    | updateNote c entry title excerpt content iv =>
      exact hnewest.updateNote (hknown entry List.mem_cons_self) hq
    | reseal c batch =>
      exact hnewest.reseal (fun p hp => hopened p.1 (List.mem_map_of_mem hp))
        (fun p hp => hknown p.1 (List.mem_map_of_mem hp)) hq

/-- A blob as it is stored, in whichever way its item has come to have it. -/
def Content.stored (E : Encoding) (groupId : Text) (content : Content) : Text :=
  E.write (encrypt E (.name content.contentKey) content.data
    (Place.vaultBlob groupId content.blobKey).context content.iv)

/-- However often a note or a file has been renamed, edited and sealed again, by whichever clients
and from whichever versions, a client with the key of its newest seal reads the newest name and
content. -/
theorem newest_version_is_readable (h : Versions E groupId (v :: vs))
    (hgroup : c.session.groupId = groupId)
    (hk : keyForEpoch c.ring v.record.keyEpoch = some v.key) :
    ∃ m, openVaultMeta E c v.record = some m ∧ field (literal "name") m = some v.title ∧
      readVaultContent E c ⟨v.record, m⟩ (v.content.stored E groupId) = some v.content.data := by
  obtain ⟨_, _, heq, hnewest⟩ := h.newest
  obtain ⟨rfl, rfl⟩ := List.cons.inj heq
  obtain ⟨m, hm⟩ := hnewest.holds v List.mem_cons_self
  subst hgroup
  refine ⟨m, ?_, hm.title, ?_⟩
  · rw [openVaultMeta, hk, Option.bind_some, hm.sealed, decrypt_write]
  · simp only [readVaultContent, hm.blobKey, hm.contentKey, hm.contentIv, Option.bind_eq_bind,
      Option.bind_some,
      importGroupKey, asText, Content.stored, decrypt_write]

namespace Sample

def content : Content := ⟨literal "blob", ⟨10, true⟩, literal "iv", .name ⟨11, true⟩, 5⟩

def noted : Msg := noteMeta (Msg.text (literal "Old")) (Msg.text []) content

def note (E : Encoding) : VaultItemRecord :=
  ⟨literal "item", literal "note", some (literal "blob"), 1,
    E.write (encrypt E (.name groupKey) noted
    (Place.vaultMeta (literal "space") (literal "item") (literal "note")).context (literal "iv")),
    literal "iv", 1⟩

def retitle (E : Encoding) : Edit :=
  .rename client ⟨note E, noted⟩ (Msg.text (literal "New")) (literal "iv")

def written (E : Encoding) : Version := ⟨note E, groupKey, Msg.text (literal "Old"), content⟩

def renamed : Request := .updateVaultItem session (literal "item") 1 none 1 ⟨.name groupKey,
  .vaultMeta (literal "space") (literal "item") (literal "note"), literal "iv",
  setField (literal "name") (Msg.text (literal "New")) noted⟩

theorem versions (E : Encoding) :
    Versions E (literal "space") [(written E).after E (retitle E) renamed, written E] := by
  have hfirst : Versions E (literal "space") [written E] :=
    Versions.note (c := client) rfl rfl
      (show createVaultNote client (literal "item") none (Msg.text (literal "Old"))
      (Msg.text []) content (literal "iv") = some (_, [_, _]) from rfl)
  refine hfirst.edited rfl (List.forall_mem_singleton.mpr ?_)
    (List.forall_mem_singleton.mpr fun _ => ?_) rfl
  · have hk : keyForEpoch client.ring (note E).keyEpoch = some groupKey := rfl
    rw [retitle, Edit.client, openVaultMeta, hk, Option.bind_some, note]
    exact decrypt_write ..
  · exact ⟨written E, List.mem_cons_self, rfl⟩

end Sample

theorem newest_version_is_readable_sample : ∃ m,
    openVaultMeta .numbered Sample.tablet
      ((Sample.note .numbered).written .numbered Sample.renamed) = some m ∧
    field (literal "name") m = some (Msg.text (literal "New")) ∧
    readVaultContent .numbered Sample.tablet
      ⟨(Sample.note .numbered).written .numbered Sample.renamed, m⟩
      (Sample.content.stored .numbered (literal "space")) = some (.name ⟨11, true⟩) :=
  newest_version_is_readable (Sample.versions .numbered) (c := Sample.tablet) rfl rfl

end SendSelf.EndToEnd
