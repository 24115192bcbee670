import SendSelf.EndToEnd.Operations

/-!
# What opens and what verifies comes from the space

A ciphertext that opens in some place with a key of epoch `r` or later was sealed for that place,
with that key and vector, by a client of the space. A statement that verifies with the key of a
device of the space was signed by that device, and a message that is verified and opens says
what the device sent, whoever else knows the group key. A device that answers an invitation
which nobody else knows is let in with the keys and the name it answered with.
-/
namespace SendSelf.EndToEnd
open Intruder Statements Framing Utf16 Runs

variable {E : Encoding} {r : ℕ} {w : World} {c : Client}

inductive Role where
  | messageText | messageFile | messageMeta | deviceName | spaceName | vaultMeta |
      vaultBlob | invite
deriving DecidableEq, Repr

/-- The heading of a context, which is followed by a colon. -/
def Role.heading : Role → Text
  | .messageText => literal "text"
  | .messageFile => literal "file"
  | .messageMeta => literal "meta"
  | .deviceName => literal "name"
  | .spaceName => literal "space-name"
  | .vaultMeta => literal "vault-meta"
  | .vaultBlob => literal "vault-blob"
  | .invite => literal "fs-pairing-invite"

theorem Role.heading_injective : Function.Injective Role.heading := by
  intro k l h
  cases k <;> cases l <;> first | rfl | exact absurd h (by decide)

theorem Role.colon_notMem_heading (k : Role) : colon ∉ k.heading := by
  cases k <;> decide

def Place.role : Place → Role
  | .messageText _ => .messageText
  | .messageFile _ => .messageFile
  | .messageMeta _ => .messageMeta
  | .deviceName _ => .deviceName
  | .spaceName _ => .spaceName
  | .vaultMeta _ _ _ => .vaultMeta
  | .vaultBlob _ _ => .vaultBlob
  | .invite _ => .invite

def Place.rest : Place → Text
  | .messageText messageId => messageId
  | .messageFile messageId => messageId
  | .messageMeta messageId => messageId
  | .deviceName deviceId => deviceId
  | .spaceName groupId => groupId
  | .vaultMeta groupId itemId kind => groupId ++ colon :: (itemId ++ colon :: kind)
  | .vaultBlob groupId blobKey => groupId ++ colon :: blobKey
  | .invite fields => join colon (Statement.inviteSeal fields).fields

theorem Place.context_eq (p : Place) : p.context = p.role.heading ++ colon :: p.rest := by
  cases p with
  | invite fields => exact (Statement.inviteSeal fields).text_eq
  | _ => simp [context, role, Role.heading, rest, join, List.intercalate]

def Place.wellFormed : Place → Place
  | .messageText messageId => .messageText (toWellFormed messageId)
  | .messageFile messageId => .messageFile (toWellFormed messageId)
  | .messageMeta messageId => .messageMeta (toWellFormed messageId)
  | .deviceName deviceId => .deviceName (toWellFormed deviceId)
  | .spaceName groupId => .spaceName (toWellFormed groupId)
  | .vaultMeta groupId itemId kind =>
      .vaultMeta (toWellFormed groupId) (toWellFormed itemId) (toWellFormed kind)
  | .vaultBlob groupId blobKey => .vaultBlob (toWellFormed groupId) (toWellFormed blobKey)
  | .invite fields => .invite fields.wellFormed

/-- Places that a ciphertext can stand in alike: those that differ in lone surrogates only, and of
items of which one has a kind with a colon those whose id and kind read the same together. -/
inductive Place.Alike : Place → Place → Prop
  | same {p q : Place} (h : p.wellFormed = q.wellFormed) : Alike p q
  | shifted {g g' i i' k k' : Text} (hgroup : toWellFormed g = toWellFormed g')
      (h : toWellFormed (i ++ colon :: k) = toWellFormed (i' ++ colon :: k'))
      (hk : colon ∈ k ∨ colon ∈ k') : Alike (.vaultMeta g i k) (.vaultMeta g' i' k')

theorem colon_notMem_toWellFormed {text : Text} (h : colon ∉ text) : colon ∉ toWellFormed text :=
  fun hm => h (colon_mem_toWellFormed.mp hm)

theorem cut_bytes {x y r s : Text} (hx : colon ∉ x) (hy : colon ∉ y)
    (h : toWellFormed (x ++ colon :: r) = toWellFormed (y ++ colon :: s)) :
    toWellFormed x = toWellFormed y ∧ toWellFormed r = toWellFormed s := by
  rw [toWellFormed_append_cons _ isSurrogate_colon, toWellFormed_append_cons _ isSurrogate_colon]
    at h
  exact cut (colon_notMem_toWellFormed hx) (colon_notMem_toWellFormed hy) h

/-- A context tells the place, as far as its bytes can. -/
theorem Place.alike_of_context {p q : Place} (hp : p.Fixed) (hq : q.Fixed)
    (h : toWellFormed p.context = toWellFormed q.context) : p.Alike q := by
  have hj := h
  rw [p.context_eq, q.context_eq] at hj
  obtain ⟨hheading, hr⟩ := cut_bytes p.role.colon_notMem_heading q.role.colon_notMem_heading hj
  have hplain : ∀ k : Role, toWellFormed k.heading = k.heading := by
    intro k
    cases k <;> exact Plain.toWellFormed (by decide)
  rw [hplain, hplain] at hheading
  have hrole := Role.heading_injective hheading
  cases p with
  | messageText | messageFile | messageMeta | deviceName | spaceName =>
    cases q <;> first | exact .same (by simpa [wellFormed, rest] using hr) | cases hrole
  | vaultMeta g i k =>
    cases q with
    | vaultMeta g' i' k' =>
      obtain ⟨hgroup, hrest⟩ := cut_bytes hp hq hr
      by_cases hk : colon ∈ k ∨ colon ∈ k'
      · exact .shifted hgroup hrest hk
      · obtain ⟨hk, hk'⟩ := not_or.mp hk
        rw [toWellFormed_append_cons _ isSurrogate_colon,
          toWellFormed_append_cons _ isSurrogate_colon] at hrest
        obtain ⟨hid, hkind⟩ :=
          cut_last (colon_notMem_toWellFormed hk) (colon_notMem_toWellFormed hk') hrest
        exact .same (by simp only [wellFormed, hgroup, hid, hkind])
    | _ => cases hrole
  | vaultBlob g b =>
    cases q with
    | vaultBlob g' b' =>
      obtain ⟨hgroup, hblob⟩ := cut_bytes hp hq hr
      exact .same (by simp only [wellFormed, hgroup, hblob])
    | _ => cases hrole
  | invite f =>
    cases q with
    | invite g =>
      have hread := read_eq_of_bytes (s := .inviteSeal f) (t := .inviteSeal g) hp h
      exact .same (congrArg Place.invite (Statement.inviteSeal.inj hread))
    | _ => cases hrole

/-- What opens with a key that is guarded was sealed so. -/
theorem World.Sound.sealed (h : w.Sound E r) {key : Name} (hk : Guarded key) {place : Place}
    (hp : place.Fixed) {ciphertext iv : Text} (hd : w.Delivers E ciphertext) {m : Msg}
    (hm : decrypt E (.name key) ciphertext iv place.context = some m) :
    ∃ q ∈ w.sent, ∃ s ∈ q.seals, s.key = .name key ∧ E.vector s.iv = E.vector iv ∧
      s.payload = m ∧ s.place.Alike place := by
  obtain ⟨t, hread, hopen⟩ := Option.bind_eq_some_iff.mp hm
  obtain rfl := openCipher_eq_some hopen
  have hprot : Protected Guarded (encrypt E (.name key) m place.context iv) := by
    simpa only [encrypt, Protected, Safe, not_not] using hk
  obtain ⟨q, hq, hmade⟩ := h.vouched (hd _ hread) _ hprot .self
  rcases List.mem_append.mp hmade with hmade | hmade
  · obtain ⟨s, hs, heq⟩ := List.mem_map.mp hmade
    simp only [Seal.ciphertext, encrypt, aad, Term.cipher.injEq, Term.pair.injEq, Term.data.injEq,
      Datum.text.injEq, bytes_eq_iff] at heq
    obtain ⟨hkey, ⟨hiv, hctx⟩, hpayload⟩ := heq
    exact ⟨q, hq, s, hs, hkey, hiv, hpayload,
      Place.alike_of_context ((h.sent q hq).seals s hs).fixed hp hctx⟩
  · obtain ⟨p', -, heq⟩ := Option.map_eq_some_iff.mp (Option.mem_toList.mp hmade)
    cases heq

/-- What a client opens, in any place of its space and with its key for an epoch from `r` on, a
client of the space has sealed for this place, or one alike, with this key and vector. -/
theorem opens_where_it_was_sealed (h : w.Reached E r) (hc : c ∈ w.clients) {epoch : ℕ}
    (hr : r ≤ epoch) {key : Name} (hk : keyForEpoch c.ring epoch = some key) {place : Place}
    (hp : place.Fixed) {ciphertext iv : Text} (hd : w.Delivers E ciphertext) {m : Msg}
    (hm : decrypt E (.name key) ciphertext iv place.context = some m) :
    ∃ q ∈ w.sent, ∃ s ∈ q.seals, s.key = .name key ∧ E.vector s.iv = E.vector iv ∧
      s.payload = m ∧ s.place.Alike place :=
  h.sound.sealed ((((h.sound.clients c hc).ring.keyForEpoch hk).1).mpr hr) hp hd hm

theorem opens_where_it_was_sealed_sample : ∃ q ∈ (Sample.world .numbered).sent, ∃ s ∈ q.seals,
    s.key = .name Sample.groupKey ∧ s.iv = literal "iv" ∧ s.payload = .name ⟨6, true⟩ ∧
      s.place.Alike (.messageText (literal "message")) := by
  have hbody : (Sample.world .numbered).Knows .numbered (Sample.sending.body .numbered) :=
    .sent (by simp [Sample.world])
  have hd := (World.Knows.field
    (f := (literal "encryptedPayload", Sample.sealedText.ciphertext .numbered)) hbody (by
      simp [optional])).delivers
  have hk : keyForEpoch Sample.client.ring 1 = some Sample.groupKey := rfl
  have hm : decrypt .numbered (.name Sample.groupKey)
      (Encoding.numbered.write (Sample.sealedText.ciphertext .numbered)) (literal "iv")
      (Place.messageText (literal "message")).context = some (.name ⟨6, true⟩) := by
    rw [decrypt, Encoding.read_write]
    simp [openCipher, Seal.ciphertext, encrypt, Sample.sealedText]
  have hp : (Place.messageText (literal "message")).Fixed := trivial
  exact opens_where_it_was_sealed (Sample.reached _) (c := Sample.client) List.mem_cons_self le_rfl
    hk hp hd hm

/-- A statement that verifies has the bytes of one made by the holder of the key. -/
theorem World.Sound.signed (h : w.Sound E r) {publicKey : Text} {key : Name}
    (hk : E.importPublicKey publicKey = some key) (hg : Guarded key)
    {statement : Statements.Statement Nullable} {signature : Text} (hd : w.Delivers E signature)
    (hv : verifyStatement E publicKey statement signature = true) :
    ∃ q ∈ w.sent, ∃ made, q.statement E = some (key, made) ∧
      toWellFormed made.text = toWellFormed statement.text := by
  simp only [verifyStatement, hk] at hv
  split at hv
  · next n m hn hread =>
    obtain rfl := Option.some.inj hn
    obtain rfl := of_decide_eq_true hv
    have hprot : Protected Guarded (signStatement key statement) := hg
    obtain ⟨q, hq, hmade⟩ := h.vouched (hd _ hread) _ hprot .self
    rcases List.mem_append.mp hmade with hmade | hmade
    · obtain ⟨s, -, heq⟩ := List.mem_map.mp hmade
      cases heq
    · obtain ⟨p, hp, heq⟩ := Option.map_eq_some_iff.mp (Option.mem_toList.mp hmade)
      simp only [signStatement, Term.sign.injEq, bytes_eq_iff] at heq
      exact ⟨q, hq, p.2, by rw [hp, ← heq.1], heq.2⟩
  · cases hv

/-- What the founding device says of its own keys. -/
def Sample.founder (E : Encoding) : Statements.Statement Nullable :=
  .attestation
    (Sample.session.attests (literal "phone") (E.exportPublicKey ⟨0, true⟩)
      (E.exportPublicKey ⟨1, true⟩) 0)

theorem verifyDeviceSignature_eq_verified {signingPublicKey : Option Text}
    {statement : Statements.Statement Nullable} {signature : Option Text}
    (h : verifyDeviceSignature E signingPublicKey statement signature = .verified) :
    ∃ publicKey s, signingPublicKey = some publicKey ∧ signature = some s ∧
      verifyStatement E publicKey statement s = true := by
  unfold verifyDeviceSignature at h
  split at h
  · cases h
  · cases h
  · next publicKey s hkey hs =>
    split at h
    · next hv =>
        exact ⟨publicKey, s, (Option.filter_eq_some_iff.mp hkey).1,
          (Option.filter_eq_some_iff.mp hs).1, hv⟩
    · cases h

theorem orNull_read {value : Option Text} : (orNull value).read = value := by
  cases value <;> rfl

theorem given_eq {value : Option Text} (h : ∀ t ∈ value, t ≠ []) : given value = value := by
  cases value with
  | none => rfl
  | some t => exact Option.filter_some_pos (decide_eq_true (h t rfl))

/-- A part that was sealed and is not given up opens to what was sealed. -/
theorem openPart_eq {key : Name} {place : Place} {exhausted : Bool} {sealed : Option Seal}
    {opened : Option Msg} (hiv : ∀ s ∈ sealed, s.iv ≠ [])
    (h : openPart E key (sealed.map fun s => E.write (s.ciphertext E)) (sealed.map Seal.iv)
      place exhausted =
      some (opened, false)) : opened = sealed.map Seal.payload := by
  unfold openPart at h
  cases sealed with
  | none =>
    simp only [Option.map_none, given, Option.filter_none, Option.some.injEq, Prod.mk.injEq,
      and_true] at h
    exact h.symm
  | some s =>
    simp only [Option.map_some] at h
    rw [given_eq (fun t ht => Option.some.inj ht ▸ E.write_ne_nil _),
      given_eq (fun t ht => Option.some.inj ht ▸ hiv s rfl)] at h
    simp only [decrypt, E.read_write, Option.bind_some] at h
    split at h
    · next p hp =>
      have heq := openCipher_eq_some hp
      simp only [Seal.ciphertext, encrypt, aad, Term.cipher.injEq] at heq
      simp only [Option.some.injEq, Prod.mk.injEq, and_true] at h
      rw [← h, ← heq.2.2]
      rfl
    · split at h
      · simp only [Option.some.injEq, Prod.mk.injEq, Bool.true_eq_false, and_false] at h
      · cases h

/-- Only a message carries the signature of one. -/
theorem Request.eq_sendMessage {q : Request} {key : Name} {fields : MessageSignatureFields Nullable}
    (h : q.statement E = some (key, .message fields)) : ∃ s id keyEpoch text file meta',
      q = .sendMessage s id keyEpoch text file meta' ∧ s.signingKeyPair = key ∧
        fields = messageFields E s id keyEpoch text file meta' := by
  cases q with
  | sendMessage s id keyEpoch text file meta' =>
    simp only [statement, Option.some.injEq, Prod.mk.injEq, Statement.message.injEq] at h
    exact ⟨s, id, keyEpoch, text, file, meta', rfl, h.1, h.2.symm⟩
  | pairingComplete s payload package token name keyEpoch issuedAt =>
    obtain ⟨key', -, hp⟩ := Option.map_eq_some_iff.mp h
    cases hp
  | _ => cases h

theorem World.Sound.message (h : w.Sound E r) {publicKey : Text} {key : Name}
    (hk : E.importPublicKey publicKey = some key) (hg : Guarded key)
    {fields : MessageSignatureFields Nullable} {signature : Text} (hd : w.Delivers E signature)
    (hv : verifyStatement E publicKey (.message fields) signature = true) :
    ∃ s id keyEpoch text file meta', Request.sendMessage s id keyEpoch text file meta' ∈ w.sent ∧
      s.signingKeyPair = key ∧
      (messageFields E s id keyEpoch text file meta').map Nullable.read = fields.map Nullable.read ∧
      (∀ c ∈ text, c.iv ≠ []) ∧ ∀ c ∈ meta', c.iv ≠ [] := by
  obtain ⟨q, hq, made, hmade, hbytes⟩ := h.signed hk hg hd hv
  have hkind : made.kind = .message := kind_eq_of_bytes hbytes
  cases made with
  | message f =>
    obtain ⟨s, id, keyEpoch, text, file, meta', rfl, hs, rfl⟩ := Request.eq_sendMessage hmade
    obtain ⟨hids, hdrawn⟩ := (h.sent _ hq).signed _ hmade
    have hown := List.forall_mem_append.mpr
      ⟨fun t ht => (⟨(hids t ht).plain, (hids t ht).colon_notMem⟩ : Plain t ∧ colon ∉ t),
        fun t ht => ⟨(hdrawn t ht).1.plain, (hdrawn t ht).1.colon_notMem⟩⟩
    have hread := read_eq_of_plain
      (s := .message (messageFields E s id keyEpoch text file meta')) hown hbytes
    refine ⟨s, id, keyEpoch, text, file, meta', hq, hs, Statement.message.inj hread, fun c hc => ?_,
      fun c hc => ?_⟩
    · refine (hdrawn c.iv
        (List.mem_filterMap.mpr ⟨(messageFields E s id keyEpoch text file meta').iv, ?_, ?_⟩)).2
      · simp only [MessageSignatureFields.ciphertexts, List.mem_cons, true_or, or_true]
      · rw [messageFields, nullable_read, Option.mem_def.mp hc, Option.map_some]
    · refine (hdrawn c.iv
        (List.mem_filterMap.mpr
          ⟨(messageFields E s id keyEpoch text file meta').fileMetaIv, ?_, ?_⟩)).2
      · simp only [MessageSignatureFields.ciphertexts, List.mem_cons, true_or, or_true]
      · rw [messageFields, nullable_read, Option.mem_def.mp hc, Option.map_some]
  | _ => cases hkind

/-- A message that is verified by the pinned key of a device, and not corrupted, is one that this
device has sent to this space under this id and epoch, and says what the device sent. The group
key need not be secret for it. -/
theorem verified_message_says_what_was_sent (h : w.Reached E r) {publicKey : Text} {key : Name}
    (hk : E.importPublicKey publicKey = some key) (hg : Guarded key) {m : PendingMessage}
    (hd : ∀ s ∈ m.signature, w.Delivers E s) {textExhausted metaExhausted : Bool}
    {shown : LocalMessage}
    (hm : registerIncoming E c (some publicKey) m textExhausted metaExhausted = some shown)
    (hv : shown.senderVerified = .verified) (hcorrupted : shown.corrupted = false) :
    ∃ s text file meta', Request.sendMessage s m.id m.keyEpoch text file meta' ∈ w.sent ∧
      s.signingKeyPair = key ∧
      s.groupId = c.session.groupId ∧ s.deviceId = m.senderDeviceId ∧
      shown.text = text.map Seal.payload ∧
      shown.meta' = meta'.map Seal.payload ∧ ∀ f ∈ shown.file, file = some f := by
  simp only [registerIncoming, Option.bind_eq_bind, Option.bind_eq_some_iff,
    Option.some.injEq] at hm
  obtain ⟨groupKey, hgroup, ⟨opened, gaveUp⟩, htext, ⟨opened', gaveUp'⟩, hmeta, rfl⟩ := hm
  obtain ⟨publicKey', signature, hpk, hs, hverify⟩ := verifyDeviceSignature_eq_verified hv
  obtain rfl := Option.some.inj hpk
  obtain ⟨s, id, keyEpoch, text, file, meta', hq, hkey, hfields, hiv, hiv'⟩ :=
    h.sound.message hk hg (hd signature hs) hverify
  simp only [MessageSignatureFields.map, messageFields, PendingMessage.fields, nullable_read,
    orNull_read,
    MessageSignatureFields.mk.injEq, Nat.cast_inj] at hfields
  obtain ⟨hgroupId, rfl, hsender, rfl, hp, hpiv, hfk, hfiv, hfm, hfmiv⟩ := hfields
  obtain ⟨rfl, rfl⟩ : gaveUp = false ∧ gaveUp' = false := by simpa using hcorrupted
  rw [← hp, ← hpiv] at htext
  rw [← hfm, ← hfmiv] at hmeta
  refine ⟨s, text, file, meta', hq, hkey, hgroupId, hsender, openPart_eq hiv htext,
    openPart_eq hiv' hmeta, ?_⟩
  intro f hf
  obtain ⟨-, -, hf⟩ := Option.bind_eq_some_iff.mp hf
  obtain ⟨r2Key, hr2, hf⟩ := Option.bind_eq_some_iff.mp hf
  obtain ⟨fileIv, hfi, rfl⟩ := Option.map_eq_some_iff.mp hf
  have hr2' := (Option.filter_eq_some_iff.mp hr2).1
  have hfi' := (Option.filter_eq_some_iff.mp hfi).1
  rw [← hfk] at hr2'
  rw [← hfiv] at hfi'
  obtain ⟨p, hp', rfl⟩ := Option.map_eq_some_iff.mp hr2'
  obtain ⟨p', hp'', rfl⟩ := Option.map_eq_some_iff.mp hfi'
  rw [hp'] at hp'' ⊢
  obtain rfl := Option.some.inj hp''
  rfl

theorem part_orNull {value : Option Text} : part (orNull value) = part (nullable value) := by
  cases value <;> rfl

/-- The receiver checks the statement that the sender has signed. -/
theorem delivered_statement (s : Session) (id : Text) (keyEpoch : ℕ) (text : Option Seal)
    (file : Option (Text × Text)) (meta' : Option Seal) :
    messageSignatureStatement ((delivered E s id keyEpoch text file meta').fields s.groupId) =
      messageSignatureStatement (messageFields E s id keyEpoch text file meta') := by
  simp only [messageSignatureStatement, PendingMessage.fields, delivered, messageFields,
    part_orNull]

theorem openPart_sealed (key : Name) (place : Place) (exhausted : Bool) {iv : Text} (hiv : iv ≠ [])
    (plain : Option Msg) :
    openPart E key ((plain.map fun m => (⟨.name key, place, iv, m⟩ : Seal)).map
        fun s => E.write (s.ciphertext E))
      ((plain.map fun m => (⟨.name key, place, iv, m⟩ : Seal)).map Seal.iv) place exhausted =
        some (plain, false) := by
  cases plain with
  | none => rfl
  | some m =>
    simp only [openPart, Option.map_some]
    rw [given_eq (fun t ht => Option.some.inj ht ▸ E.write_ne_nil _),
      given_eq (fun t ht => Option.some.inj ht ▸ hiv)]
    simp only [decrypt, E.read_write, Option.bind_some, Seal.ciphertext, encrypt, openCipher,
      and_self, ↓reduceIte]

theorem verifyDeviceSignature_verified (key : Name)
    (statement signed : Statements.Statement Nullable) (h : statement.text = signed.text) :
    verifyDeviceSignature E (some (E.exportPublicKey key)) statement
      (some (E.write (signStatement key signed))) =
      .verified := by
  rw [verifyDeviceSignature, given_eq (fun t ht => Option.some.inj ht ▸ E.export_ne_nil _),
    given_eq (fun t ht => Option.some.inj ht ▸ E.write_ne_nil _)]
  simp only [verifyStatement, E.import_export, E.read_write, signStatement, h,
    decide_true, ↓reduceIte]

/-- What a device sends, a client of the space that holds the key of its epoch and the device's
signing key reads back as it was written, verified, with its file if it has one. -/
theorem sent_message_is_received {sender receiver : Client} {m : OutgoingMessage}
    {textIv metaIv : Text} (htext : World.Drawn textIv) (hmeta : World.Drawn metaIv)
    (hfile : ∀ f ∈ m.file, World.Drawn f.r2Key ∧ World.Drawn f.iv)
    (hgroup : receiver.session.groupId = sender.session.groupId) {epoch : ℕ} {key : Name}
    (hpin : pinEpoch sender.ring m.keyEpoch = some (epoch, key))
    (hkey : keyForEpoch receiver.ring epoch = some key) (textExhausted metaExhausted : Bool) :
    ∃ uploads text file meta', sendQueuedContent sender m textIv metaIv =
      some (uploads ++ [.sendMessage sender.session m.id epoch text file meta']) ∧
      registerIncoming E receiver (some (E.exportPublicKey sender.session.signingKeyPair))
        (delivered E sender.session m.id epoch text file meta') textExhausted metaExhausted =
      some ⟨epoch, sender.session.deviceId, .verified, m.text, metaFor m,
        m.file.map fun f => (f.r2Key, f.iv), false⟩ := by
  refine ⟨_, _, _, _, by rw [sendQueuedContent, hpin]; rfl, ?_⟩
  have hverified :=
    verifyDeviceSignature_verified (E := E) sender.session.signingKeyPair (.message _) (.message _)
    (delivered_statement (E := E) sender.session m.id epoch
      (m.text.map fun text => ⟨.name key, .messageText m.id, textIv, text⟩)
      (m.file.map fun f => (f.r2Key, f.iv))
      ((metaFor m).map fun meta' => ⟨.name key, .messageMeta m.id, metaIv, meta'⟩))
  have hshown : ((metaFor m).bind fun _ => (given (m.file.map OutgoingFile.r2Key)).bind fun r2Key =>
      (given (m.file.map OutgoingFile.iv)).map fun iv => (r2Key, iv)) = m.file.map fun f =>
        (f.r2Key, f.iv) := by
    cases hf : m.file with
    | none =>
      cases metaFor m <;> rfl
    | some f =>
      have hsome : metaFor m = some (object (metaFields m)) := by
        rw [metaFor, if_neg]
        simp only [metaFields, hf, Option.map_some, Option.getD_some, List.append_assoc,
          List.cons_append]
        exact List.cons_ne_nil _ _
      obtain ⟨hr2, hiv⟩ := hfile f hf
      rw [hsome, Option.map_some, Option.map_some,
        given_eq (fun t ht => Option.some.inj ht ▸ hr2.2),
        given_eq (fun t ht => Option.some.inj ht ▸ hiv.2)]
      rfl
  simp only [registerIncoming, delivered, hkey, Option.bind_eq_bind, Option.bind_some,
    openPart_sealed _ _ _ htext.2,
    openPart_sealed _ _ _ hmeta.2, Bool.or_self, hgroup]
  refine congrArg some ?_
  rw [LocalMessage.mk.injEq]
  refine ⟨rfl, rfl, hverified, rfl, rfl, ?_, rfl⟩
  simpa only [Option.map_map, Function.comp_def] using hshown

theorem sent_message_is_received_sample :
    ∃ uploads text file meta', sendQueuedContent Sample.client Sample.message
      (literal "iv") (literal "iv") =
        some (uploads ++ [.sendMessage Sample.session (literal "message") 1 text file meta']) ∧
    registerIncoming .numbered Sample.client (some (Encoding.numbered.exportPublicKey ⟨1, true⟩))
      (delivered .numbered Sample.session (literal "message") 1 text file meta') false false =
    some ⟨1, literal "phone", .verified, some (.name ⟨6, true⟩), metaFor Sample.message,
      none, false⟩ :=
  have hk : keyForEpoch Sample.client.ring 1 = some Sample.groupKey := rfl
  sent_message_is_received (m := Sample.message) ⟨by decide, by decide⟩ ⟨by decide, by decide⟩
    (fun _ hf => absurd hf (Option.not_mem_none _)) rfl rfl hk false false

theorem verified_message_says_what_was_sent_sample :
    ∃ shown, registerIncoming .numbered Sample.client
      (some (Encoding.numbered.exportPublicKey ⟨1, true⟩))
      (delivered .numbered Sample.session (literal "message") 1 (some Sample.sealedText) none none)
        false false =
        some shown ∧
    ∃ s text file meta', Request.sendMessage s (literal "message") 1 text file meta' ∈
      (Sample.world .numbered).sent ∧
      s.signingKeyPair = ⟨1, true⟩ ∧ s.groupId = literal "space" ∧ s.deviceId = literal "phone" ∧
      shown.text = text.map Seal.payload ∧ shown.meta' = meta'.map Seal.payload ∧ ∀ f ∈ shown.file,
      file = some f := by
  have hr :
      registerIncoming .numbered Sample.client (some (Encoding.numbered.exportPublicKey ⟨1, true⟩))
      (delivered .numbered Sample.session (literal "message") 1 (some Sample.sealedText) none none)
        false false =
      some ⟨1, literal "phone", .verified, some (.name ⟨6, true⟩), none, none, false⟩ := by
    have hiv : literal "iv" ≠ [] := by decide
    have hpart :=
      openPart_sealed (E := .numbered) Sample.groupKey (.messageText (literal "message")) false hiv
      (some (.name ⟨6, true⟩))
    have hv := verifyDeviceSignature_verified (E := .numbered) ⟨1, true⟩ (.message _) (.message _)
      (delivered_statement (E := .numbered) Sample.session (literal "message") 1
        (some Sample.sealedText) none none)
    have hk : keyForEpoch Sample.client.ring 1 = some Sample.groupKey := rfl
    simp only [registerIncoming, delivered, hk, Option.bind_eq_bind, Option.bind_some]
    exact (congrArg (fun o => Option.bind o _) hpart).trans
      (congrArg some ((LocalMessage.mk.injEq ..).mpr ⟨rfl, rfl, hv, rfl, rfl, rfl, rfl⟩))
  refine ⟨_, hr, ?_⟩
  have hbody : (Sample.world .numbered).Knows .numbered (Sample.sending.body .numbered) :=
    .sent (by simp [Sample.world])
  refine verified_message_says_what_was_sent (Sample.reached _) (Encoding.import_export _ ⟨1, true⟩)
    rfl (fun s hs => ?_)
    hr rfl rfl
  obtain rfl := Option.some.inj hs
  refine (World.Knows.field
    (f := (literal "signature", signStatement ⟨1, true⟩ (.message (messageFields .numbered
    Sample.session (literal "message") 1 (some Sample.sealedText) none none)))) hbody ?_).delivers
  simp [Request.signature, Request.statement, optional, Sample.session]

/-- What a statement of deletion says after its group. -/
def orderText (id senderDeviceId : Text) (keyEpoch : ℤ) (deletesMessageId : Text) : Text :=
  join colon [id, senderDeviceId, string keyEpoch, deletesMessageId]

theorem deleteSignatureStatement_eq (f : DeleteSignatureFields) :
    deleteSignatureStatement f = literal "fs-message-delete:1" ++ colon :: (f.groupId ++
      colon :: orderText f.messageId f.senderDeviceId f.keyEpoch f.deletesMessageId) := by
  rw [deleteSignatureStatement, join_cons (List.cons_ne_nil _ _), join_cons (List.cons_ne_nil _ _)]
  rfl

/-- Two orders that say the same, the ids of the first and of the second having no colon. -/
theorem orderText_inj {id id' sender sender' target target' : Text} {epoch epoch' : ℤ}
    (hid : colon ∉ id) (hid' : colon ∉ id') (hsender : colon ∉ sender) (hsender' : colon ∉ sender')
    (h : toWellFormed (orderText id sender epoch target) =
      toWellFormed (orderText id' sender' epoch' target')) :
    toWellFormed id = toWellFormed id' ∧ toWellFormed sender = toWellFormed sender' ∧
      epoch = epoch' ∧ toWellFormed target = toWellFormed target' := by
  have hcons : ∀ id sender (epoch : ℤ) target, orderText id sender epoch target =
      id ++ colon :: (sender ++ colon :: (string epoch ++ colon :: target)) := by
    intro id sender epoch target
    simp [orderText, join, List.intercalate]
  rw [hcons, hcons] at h
  obtain ⟨h₁, h⟩ := cut_bytes hid hid' h
  obtain ⟨h₂, h⟩ := cut_bytes hsender hsender' h
  obtain ⟨h₃, h₄⟩ := cut_bytes (colon_notMem_string _) (colon_notMem_string _) h
  rw [(base64Url_string _).plain.toWellFormed, (base64Url_string _).plain.toWellFormed] at h₃
  exact ⟨h₁, h₂, string_injective h₃, h₄⟩

/-- Only an order to delete carries the signature of one. -/
theorem Request.eq_sendDeletion {q : Request} {key : Name} {fields : DeleteSignatureFields}
    (h : q.statement E = some (key, .delete fields)) : ∃ s id keyEpoch target,
      q = .sendDeletion s id keyEpoch target ∧ s.signingKeyPair = key ∧
        fields = ⟨s.groupId, id, s.deviceId, keyEpoch, target⟩ := by
  cases q with
  | sendDeletion s id keyEpoch target =>
    simp only [statement, Option.some.injEq, Prod.mk.injEq, Statement.delete.injEq] at h
    exact ⟨s, id, keyEpoch, target, rfl, h.1, h.2.symm⟩
  | pairingComplete s payload package token name keyEpoch issuedAt =>
    obtain ⟨key', -, hp⟩ := Option.map_eq_some_iff.mp h
    cases hp
  | _ => cases h

theorem World.Sound.order (h : w.Sound E r) {publicKey : Text} {key : Name}
    (hk : E.importPublicKey publicKey = some key) (hg : Guarded key) {f : DeleteSignatureFields}
    (hgroup : colon ∉ f.groupId) {signature : Text} (hd : w.Delivers E signature)
    (hv : verifyStatement E publicKey (.delete f) signature = true) :
    ∃ s id keyEpoch target, Request.sendDeletion s id keyEpoch target ∈ w.sent ∧
      s.signingKeyPair = key ∧ Base64Url s.groupId ∧ Base64Url id ∧ Base64Url s.deviceId ∧
      toWellFormed s.groupId = toWellFormed f.groupId ∧
      toWellFormed (orderText id s.deviceId keyEpoch target) =
        toWellFormed (orderText f.messageId f.senderDeviceId f.keyEpoch f.deletesMessageId) := by
  obtain ⟨q, hq, made, hmade, hbytes⟩ := h.signed hk hg hd hv
  have hkind : made.kind = .delete := kind_eq_of_bytes hbytes
  cases made with
  | delete f' =>
    obtain ⟨s, id, keyEpoch, target, rfl, hs, rfl⟩ := Request.eq_sendDeletion hmade
    obtain ⟨hgroup', hid, hsender⟩ := (h.sent _ hq).signed _ hmade
    simp only [Statement.text, deleteSignatureStatement_eq,
      toWellFormed_append_cons (literal "fs-message-delete:1") isSurrogate_colon] at hbytes
    obtain ⟨hgroups, horder⟩ := cut_bytes hgroup'.colon_notMem hgroup
      (List.cons.inj (List.append_cancel_left hbytes)).2
    exact ⟨s, id, keyEpoch, target, hq, hs, hgroup', hid, hsender, hgroups, horder⟩
  | _ => cases hkind

/-- The order as the server hands it out. -/
def Sample.order (E : Encoding) : PendingMessage where
  id := literal "order"
  senderDeviceId := literal "phone"
  keyEpoch := 1
  encryptedPayload := none
  iv := none
  fileR2Key := none
  fileIv := none
  fileMeta := none
  fileMetaIv := none
  signature := some (E.write (signStatement ⟨1, true⟩
    (.delete ⟨literal "space", literal "order", literal "phone", 1, literal "message"⟩)))

/-- The device that is let in by an invitation which nobody else knows has answered it, with these
keys, under this id, and under the name that is shown, trimmed and cut. -/
theorem invited_device_answered (h : w.Reached E r) {invite : Invite} (hs : Guarded invite.secret)
    {answer : JoinerAnswer} (hd : w.Delivers E answer.ciphertext) {payload : PairingQrPayload}
    (hp : checkDeviceInvite E invite answer = some payload) :
    ∃ j i name iv, Request.pairingRequest j (some (sealInvite i name (j.fields E) iv)) ∈ w.sent ∧
      Guarded j.keyPair ∧ Guarded j.signingKeyPair ∧ inviteKey i = inviteKey invite ∧
      shownName name = some payload.deviceName ∧ payload.pairingId = j.pairingId ∧
      payload.deviceId = j.deviceId ∧ answer.sendOnly = j.sendOnly ∧
      payload.publicKey = E.exportPublicKey j.keyPair ∧
      payload.signingPublicKey = some (E.exportPublicKey j.signingKeyPair) := by
  obtain ⟨shown, hname, rfl⟩ := Option.map_eq_some_iff.mp hp
  obtain ⟨opened, name, hopened, hfield, hshown⟩ := openInvite_eq_some hname
  obtain ⟨j, i, name', iv, hq, hj, hj', hkey, rfl, hfields⟩ := h.sound.invited hs hd hopened
  obtain rfl : name' = name := by simpa [object, field] using hfield
  simp only [JoinerAnswer.fields, JoiningDevice.fields, InviteSealFields.mk.injEq] at hfields
  obtain ⟨hpairing, hdevice, hpk, hspk, hsend⟩ := hfields
  exact ⟨j, i, name', iv, hq, hj, hj', hkey, hshown, hpairing, hdevice, hsend, hpk,
    congrArg some hspk⟩

/-- The answer as the server hands it out. -/
def Sample.shownAnswer (E : Encoding) : JoinerAnswer :=
  ⟨literal "script", E.exportPublicKey ⟨4, true⟩, E.exportPublicKey ⟨5, true⟩, true, literal "iv",
    E.write ((Sample.answer E).ciphertext E)⟩

theorem invited_device_answered_sample : ∃ payload,
    checkDeviceInvite .numbered Sample.invite (Sample.shownAnswer .numbered) = some payload ∧
    ∃ j i name iv, Request.pairingRequest j (some (sealInvite i name (j.fields .numbered) iv)) ∈
        (Sample.world .numbered).sent ∧
      Guarded j.keyPair ∧ Guarded j.signingKeyPair ∧ inviteKey i = inviteKey Sample.invite ∧
      shownName name = some payload.deviceName ∧ payload.pairingId = j.pairingId ∧
      payload.deviceId = j.deviceId ∧ true = j.sendOnly ∧
      payload.publicKey = Encoding.numbered.exportPublicKey j.keyPair ∧
      payload.signingPublicKey = some (Encoding.numbered.exportPublicKey j.signingKeyPair) := by
  have hp : checkDeviceInvite .numbered Sample.invite (Sample.shownAnswer .numbered) = some
      ⟨literal "slot", literal "script", Msg.text (literal "Script"),
        Encoding.numbered.exportPublicKey ⟨4, true⟩,
        some (Encoding.numbered.exportPublicKey ⟨5, true⟩)⟩ := by
    have hiv : literal "iv" ≠ [] := by decide
    have hshown : shownName (Msg.text (literal "Script")) = some (Msg.text (literal "Script")) := by
      decide
    simp only [checkDeviceInvite, openInvite, Sample.shownAnswer, hiv, Encoding.write_ne_nil,
      or_self, decrypt, Encoding.read_write, Option.bind_some]
    simp only [Seal.ciphertext, Sample.answer, sealInvite, encrypt, openCipher, Place.context,
      JoiningDevice.fields, JoinerAnswer.fields, Sample.joiner, Sample.invite, and_self, ↓reduceIte,
      Option.bind_some, object, field, hshown, Option.map_some]
  have hsecret : Guarded Sample.invite.secret := rfl
  refine ⟨_, hp, invited_device_answered (Sample.reached _) hsecret ?_ hp⟩
  have hbody : (Sample.world .numbered).Knows .numbered
      ((Request.pairingRequest Sample.joiner (some (Sample.answer .numbered))).body .numbered) :=
    .sent (by simp [Sample.world])
  have hpair := World.Knows.field (f := (literal "invite",
    .pair (Msg.text (Sample.answer .numbered).iv) ((Sample.answer .numbered).ciphertext .numbered)))
    hbody (by simp [optional])
  exact World.Knows.delivers (.snd hpair)

end SendSelf.EndToEnd
