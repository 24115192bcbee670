import SendSelf.EndToEnd.Parts

/-!
# Nothing guarded leaves the space

From epoch `r` on the group keys are known to devices of the space only. A key's epoch tells
whether it is guarded, in every keyring of every client; what a client holds in the clear may be
sealed under any key it comes to hold, since its current epoch only ever grows; and a package
that opens as the delivery of an epoch was wrapped as the delivery of that epoch.
-/
namespace SendSelf.EndToEnd
open Intruder Statements Framing Utf16 Runs

variable {E : Encoding} {r : ℕ} {w w' : World} {u m : Msg}

theorem bytes_eq_iff {a b : Text} : bytes a = bytes b ↔ toWellFormed a = toWellFormed b := by
  rw [bytes, bytes, Term.data.injEq, Datum.text.injEq]

theorem toWellFormed_rekeyContext {groupId : Text} (h : Base64Url groupId) (epoch : ℕ)
    (deviceId : Text) : toWellFormed (rekeyContext groupId epoch deviceId) = literal "rekey" ++
      colon :: (groupId ++ colon :: (string epoch ++ colon :: toWellFormed deviceId)) := by
  have hrekey : toWellFormed (literal "rekey") = literal "rekey" := Plain.toWellFormed (by decide)
  rw [rekeyContext, toWellFormed_join isSurrogate_colon]
  simp only [List.map_cons, List.map_nil, hrekey, h.plain.toWellFormed,
    (base64Url_string _).plain.toWellFormed]
  simp [join, List.intercalate]

/-- The epoch of a rotated key can be read off its context. -/
theorem rekeyContext_epoch {g g' d d' : Text} {e e' : ℕ} (hg : Base64Url g) (hg' : Base64Url g')
    (h : bytes (rekeyContext g e d) = bytes (rekeyContext g' e' d')) : e = e' := by
  rw [bytes_eq_iff, toWellFormed_rekeyContext hg, toWellFormed_rekeyContext hg'] at h
  obtain ⟨-, h₁⟩ := cut (by decide) (by decide) h
  obtain ⟨-, h₂⟩ := cut hg.colon_notMem hg'.colon_notMem h₁
  obtain ⟨he, -⟩ := cut (colon_notMem_string _) (colon_notMem_string _) h₂
  exact Int.ofNat.inj (string_injective he)

theorem pairingContext_ne_rekeyContext {pairingId g d : Text} {e : ℕ} (hg : Base64Url g) :
    bytes (pairingContext pairingId) ≠ bytes (rekeyContext g e d) := by
  have hpairing : toWellFormed (literal "pairing") = literal "pairing" :=
    Plain.toWellFormed (by decide)
  rw [Ne, bytes_eq_iff, toWellFormed_rekeyContext hg, pairingContext]
  split
  · exact fun h => List.cons_ne_nil _ _ h.symm
  · rw [toWellFormed_join isSurrogate_colon, List.map_cons, List.map_cons, List.map_nil, hpairing,
      join_cons (List.cons_ne_nil _ _)]
    intro h
    exact absurd (cut (by decide) (by decide) h).1 (by decide)

namespace World

theorem Vouched.mono (h : w.Vouched E m) (hw : w.sent ⊆ w'.sent) : w'.Vouched E m := by
  intro u hu ho
  obtain ⟨q, hq, hm⟩ := h u hu ho
  exact ⟨q, hw hq, hm⟩

theorem Written.mono {e : ℕ} (h : w.Written E r e m) (hw : w.sent ⊆ w'.sent) : w'.Written E r e m :=
  ⟨h.1, h.2.mono hw⟩

theorem Written.later {e e' : ℕ} (h : w.Written E r e m) (he : e ≤ e') : w.Written E r e' m :=
  ⟨fun hr => h.1 (he.trans_lt hr), h.2⟩

theorem Written.data {e : ℕ} (x : Datum) : w.Written E r e (.data x) :=
  ⟨fun _ => trivial, fun _ hu ho => absurd ho (not_occurs_data hu x)⟩

theorem Written.name {e : ℕ} {key : Name} (h : Draws r e key) : w.Written E r e (.name key) :=
  ⟨fun hr hg => absurd (h.mp hg) (not_le_of_gt hr),
    fun _ hu ho => absurd ho (not_occurs_name hu key)⟩

theorem Written.pair {e : ℕ} {a b : Msg} (ha : w.Written E r e a) (hb : w.Written E r e b) :
    w.Written E r e (.pair a b) := by
  refine ⟨fun hr => ⟨ha.1 hr, hb.1 hr⟩, fun u hu ho => ?_⟩
  cases ho with
  | self => exact hu.elim
  | fst ho => exact ha.2 u hu ho
  | snd ho => exact hb.2 u hu ho

theorem Written.fst {e : ℕ} {a b : Msg} (h : w.Written E r e (.pair a b)) : w.Written E r e a :=
  ⟨fun hr => (h.1 hr).1, fun u hu ho => h.2 u hu (.fst ho)⟩

theorem Written.snd {e : ℕ} {a b : Msg} (h : w.Written E r e (.pair a b)) : w.Written E r e b :=
  ⟨fun hr => (h.1 hr).2, fun u hu ho => h.2 u hu (.snd ho)⟩

theorem Written.object {e : ℕ} {fs : List (Text × Msg)} (h : ∀ f ∈ fs, w.Written E r e f.2) :
    w.Written E r e (object fs) := by
  induction fs with
  | nil => exact .data _
  | cons f fs ih =>
    obtain ⟨hf, hfs⟩ := List.forall_mem_cons.mp h
    exact .pair (.pair (.data _) hf) (ih hfs)

theorem Written.array {e : ℕ} {ms : List Msg} (h : ∀ m ∈ ms, w.Written E r e m) :
    w.Written E r e (array ms) := by
  induction ms with
  | nil => exact .data _
  | cons m ms ih =>
    obtain ⟨hm, hms⟩ := List.forall_mem_cons.mp h
    exact .pair hm (ih hms)

theorem Written.optional {e : ℕ} {key : Text} {value : Option Msg}
    (h : ∀ m ∈ value, w.Written E r e m) :
    ∀ f ∈ optional key value, w.Written E r e f.2 := by
  intro f hf
  obtain ⟨m, hm, rfl⟩ := mem_optional.mp hf
  exact h m hm

/-- What was written by a client holds only fields that were. -/
theorem Written.field {e : ℕ} {key : Text} {v : Msg} (h : w.Written E r e m)
    (hv : field key m = some v) :
    w.Written E r e v := by
  induction m using field.induct key with
  | case1 v' rest =>
    simp only [EndToEnd.field, ↓reduceIte, Option.some.injEq] at hv
    exact hv ▸ h.fst.snd
  | case2 k v' rest hk ih =>
    simp only [EndToEnd.field, if_neg hk] at hv
    exact ih h.snd hv
  | case3 m hm =>
    rw [EndToEnd.field.eq_2 key m hm] at hv
    exact absurd hv (by simp)

theorem Written.setField {e : ℕ} {key : Text} {v : Msg} (hv : w.Written E r e v)
    (h : w.Written E r e m) :
    w.Written E r e (setField key v m) := by
  induction m using setField.induct key with
  | case1 v' rest =>
    simp only [EndToEnd.setField, ↓reduceIte]
    exact .pair (.pair (.data _) hv) h.snd
  | case2 k v' rest hk ih =>
    simp only [EndToEnd.setField, if_neg hk]
    exact .pair h.fst (ih h.snd)
  | case3 m hm =>
    rw [EndToEnd.setField.eq_2 key v m hm]
    exact .object (by simpa using hv)

end World

/-- The group of a vault ciphertext has no colon; nor have the fields of an answer to an
invitation. -/
def Place.Fixed : Place → Prop
  | .vaultMeta groupId _ _ => colon ∉ groupId
  | .vaultBlob groupId _ => colon ∉ groupId
  | .invite fields => ∀ t ∈ (Statement.inviteSeal fields).strings, colon ∉ t
  | _ => True

/-- A seal hides its payload, and what takes something guarded to make stands in that only if a
device has made it. -/
structure Seal.Sound (E : Encoding) (w : World) (s : Seal) : Prop where
  safe : Safe Guarded s.key → Safe Guarded s.payload
  vouched : w.Vouched E s.payload
  atomic : s.Atomic
  fixed : s.place.Fixed

/-- What a package is, by the context it opens with. -/
def Wrap.Opens (E : Encoding) (r : ℕ) (w : World) (b : Wrap) : Prop :=
  (∃ pairingId, ∃ payload : PairingPayload, b.context = pairingContext pairingId ∧
    b.payload = payload.json ∧
    World.Draws r payload.keyEpoch payload.groupKey ∧ Base64Url payload.groupId ∧
      ∀ name ∈ payload.spaceName, w.Written E r payload.keyEpoch name) ∨
  ∃ groupId epoch deviceId key, b.context = rekeyContext groupId epoch deviceId ∧
    Base64Url groupId ∧
    b.payload = object [(literal "groupKey", .name key), (literal "epoch", Msg.number epoch)] ∧
    World.Draws r epoch key

structure Wrap.Sound (E : Encoding) (r : ℕ) (w : World) (b : Wrap) : Prop where
  safe : ¬ Guarded b.recipient → Safe Guarded b.payload
  vouched : w.Vouched E b.payload
  opens : b.Opens E r w

/-- What a request is sealed with: an answer to an invitation by a device of the space, anything
else with a key. -/
def Request.Keyed (E : Encoding) : Request → Prop
  | .pairingRequest j invite => Guarded j.keyPair ∧ Guarded j.signingKeyPair ∧
      Base64Url j.pairingId ∧ Base64Url j.deviceId ∧
      ∀ s ∈ invite, ∃ i name iv, s = sealInvite i name (j.fields E) iv
  | q => ∀ s ∈ q.seals, ∃ key, s.key = .name key

/-- The ids and ciphertexts of what a device signs on its own behalf are its own. -/
def Own : Statements.Statement Nullable → Prop
  | .message fields => (∀ t ∈ fields.ids, Base64Url t) ∧
      ∀ t ∈ fields.ciphertexts.filterMap Nullable.read, World.Drawn t
  | .delete fields =>
      Base64Url fields.groupId ∧ Base64Url fields.messageId ∧ Base64Url fields.senderDeviceId
  | _ => True

structure Request.Sound (E : Encoding) (r : ℕ) (w : World) (q : Request) : Prop where
  seals : ∀ s ∈ q.seals, s.Sound E w
  wraps : ∀ b ∈ q.wraps, b.Sound E r w
  keyed : q.Keyed E
  signed : ∀ p ∈ q.statement E, Own p.2

def Keyring.Sound (r : ℕ) (ring : Keyring) : Prop :=
  ∀ p ∈ ring.keys, World.Draws r p.1 p.2 ∧ p.1 ≤ ring.current

structure Client.Sound (E : Encoding) (r : ℕ) (w : World) (c : Client) : Prop where
  keyPair : Guarded c.session.keyPair
  groupId : Base64Url c.session.groupId
  deviceId : Base64Url c.session.deviceId
  ring : c.ring.Sound r
  name : ∀ name ∈ c.spaceName, w.Written E r c.ring.current name
  entries : ∀ e ∈ c.entries, w.Written E r c.ring.current e.meta'
  rotations : ∀ p ∈ c.rotations, World.Draws r p.1 p.2

structure JoiningDevice.Sound (j : JoiningDevice) : Prop where
  keyPair : Guarded j.keyPair
  deviceId : Base64Url j.deviceId

/-- What all parties hold and have sent is as the operations leave it. -/
structure World.Sound (E : Encoding) (r : ℕ) (w : World) : Prop where
  clients : ∀ c ∈ w.clients, c.Sound E r w
  joining : ∀ j ∈ w.joining, j.Sound
  sent : ∀ q ∈ w.sent, q.Sound E r w

theorem Seal.Sound.mono {s : Seal} (h : s.Sound E w) (hw : w.sent ⊆ w'.sent) : s.Sound E w' :=
  { h with vouched := h.vouched.mono hw }

theorem Wrap.Opens.mono {b : Wrap} (h : b.Opens E r w) (hw : w.sent ⊆ w'.sent) :
    b.Opens E r w' := by
  rcases h with ⟨id, payload, hc, hp, hk, hg, hn⟩ | h
  · exact .inl ⟨id, payload, hc, hp, hk, hg, fun name hname => (hn name hname).mono hw⟩
  · exact .inr h

theorem Request.Sound.mono {q : Request} (h : q.Sound E r w) (hw : w.sent ⊆ w'.sent) :
    q.Sound E r w' where
  seals s hs := (h.seals s hs).mono hw
  wraps b hb := ⟨(h.wraps b hb).safe, (h.wraps b hb).vouched.mono hw, (h.wraps b hb).opens.mono hw⟩
  keyed := h.keyed
  signed := h.signed

theorem Client.Sound.mono {c : Client} (h : c.Sound E r w) (hw : w.sent ⊆ w'.sent) :
    c.Sound E r w' :=
  { h with
    name := fun name hname => (h.name name hname).mono hw
    entries := fun e he => (h.entries e he).mono hw }

theorem World.Sound.add (h : w.Sound E r) {clients : List Client} {requests : List Request}
    (hc : ∀ c ∈ clients, c.Sound E r w) (hq : ∀ q ∈ requests, q.Sound E r w) :
    (w.add clients requests).Sound E r := by
  have hw : w.sent ⊆ (w.add clients requests).sent := List.subset_append_right _ _
  refine ⟨fun c hc' => ?_, h.joining, fun q hq' => ?_⟩
  · exact ((List.mem_append.mp hc').elim (hc c) (h.clients c)).mono hw
  · exact ((List.mem_append.mp hq').elim (hq q) (h.sent q)).mono hw

theorem World.Sound.seen (h : w.Sound E r) (t : Msg) (ht : w.Seen E t) : Safe Guarded t := by
  obtain ⟨q, hq, rfl⟩ := ht
  exact (q.built E).safe (fun s hs => safe_ciphertext.mpr ((h.sent q hq).seals s hs).safe)
    fun b hb => safe_wrapped.mpr ((h.sent q hq).wraps b hb).safe

/-- The server can put together only what gives nothing away. -/
theorem World.Sound.known (h : w.Sound E r) (hm : w.Knows E m) : Safe Guarded m := hm.safe h.seen

/-- What takes something guarded to make stands in what the server knows only if a device has made
it. -/
theorem World.Sound.vouched (h : w.Sound E r) (hm : w.Knows E m) : w.Vouched E m := by
  intro u hu ho
  obtain ⟨t, ⟨q, hq, rfl⟩, ho'⟩ := hm.origin h.seen hu ho
  rcases (q.built E).occurs (fun s hs => ((h.sent q hq).seals s hs).atomic) hu ho' with hmade |
    ⟨s, hs, ho⟩ | ⟨b, hb, ho⟩
  · exact ⟨q, hq, hmade⟩
  · exact ((h.sent q hq).seals s hs).vouched u hu ho
  · exact ((h.sent q hq).wraps b hb).vouched u hu ho

theorem openCipher_eq_some {key c p : Msg} {context iv : Text}
    (h : openCipher E key context iv c = some p) : c = encrypt E key p context iv := by
  cases c with
  | cipher k a p' =>
    simp only [openCipher, Option.ite_none_right_eq_some, Option.some.injEq] at h
    obtain ⟨⟨rfl, rfl⟩, rfl⟩ := h
    rfl
  | _ => cases h

theorem openBox_eq_some {key : Name} {context : Text} {c p : Msg}
    (h : openBox key context c = some p) :
    c = wrapSecret key p context := by
  cases c with
  | box n a p' =>
    simp only [openBox, Option.ite_none_right_eq_some, Option.some.injEq] at h
    obtain ⟨⟨rfl, rfl⟩, rfl⟩ := h
    rfl
  | _ => cases h

/-- What opens with a key of the space's epoch may be held at that epoch. -/
theorem World.Sound.decrypted (h : w.Sound E r) {key : Name} {epoch : ℕ}
    {ciphertext iv context : Text} {p : Msg}
    (hk : World.Draws r epoch key) (hc : w.Delivers E ciphertext)
    (hp : decrypt E (.name key) ciphertext iv context = some p) : w.Written E r epoch p := by
  obtain ⟨c, hread, hopen⟩ := Option.bind_eq_some_iff.mp hp
  obtain rfl := openCipher_eq_some hopen
  have hknown := hc _ hread
  refine ⟨fun hr => ?_, fun u hu ho => h.vouched hknown u hu (.sealed ho)⟩
  exact (h.known hknown).2 fun hg => absurd (hk.mp hg) (not_le_of_gt hr)

/-- A package that opens is one of those that have been wrapped. -/
theorem World.Sound.unwrapped (h : w.Sound E r) {key : Name} {wrapped context : Text} {p : Msg}
    (hd : w.Deposited E wrapped) (hp : unwrapSecret E key wrapped context = some p) :
    ∃ b : Wrap, b.Sound E r w ∧ bytes b.context = bytes context ∧ b.payload = p := by
  obtain ⟨c, hread, hopen⟩ := Option.bind_eq_some_iff.mp hp
  obtain ⟨q, hq, b, hb, hbc⟩ := hd c hread
  have hbox := hbc.trans (openBox_eq_some hopen)
  simp only [Wrap.wrapped, wrapSecret, Term.box.injEq] at hbox
  exact ⟨b, (h.sent q hq).wraps b hb, hbox.2.1, hbox.2.2⟩

theorem Keyring.Sound.keyForEpoch {ring : Keyring} (h : ring.Sound r) {epoch : ℕ} {key : Name}
    (hk : keyForEpoch ring epoch = some key) : World.Draws r epoch key ∧ epoch ≤ ring.current := by
  obtain ⟨l₁, l₂, hl, -⟩ := List.lookup_eq_some_iff.mp hk
  exact h (epoch, key) (hl ▸ List.mem_append_right _ List.mem_cons_self)

theorem Keyring.Sound.currentKey {ring : Keyring} (h : ring.Sound r) {key : Name}
    (hk : currentKey ring = some key) :
    World.Draws r ring.current key := (h.keyForEpoch hk).1

theorem Keyring.Sound.pinEpoch {ring : Keyring} (h : ring.Sound r) {pinned : Option ℕ}
    {p : ℕ × Name} (hp : pinEpoch ring pinned = some p) : World.Draws r p.1 p.2 := by
  unfold EndToEnd.pinEpoch at hp
  split at hp
  · next p' hp' =>
    obtain rfl := Option.some.inj hp
    obtain ⟨epoch, -, hk⟩ := Option.bind_eq_some_iff.mp hp'
    obtain ⟨key, hkey, rfl⟩ := Option.map_eq_some_iff.mp hk
    exact (h.keyForEpoch hkey).1
  · obtain ⟨key, hkey, rfl⟩ := Option.map_eq_some_iff.mp hp
    exact h.currentKey hkey

theorem createKeyring_sound {key : Name} {epoch : ℕ} (h : World.Draws r epoch key) :
    Keyring.Sound r (createKeyring key epoch) := by
  intro p hp
  obtain rfl := List.mem_singleton.mp hp
  exact ⟨h, le_rfl⟩

/-- A ring stays sound when it takes on a key that was drawn for its epoch. -/
theorem Keyring.Sound.withEpoch {ring : Keyring} (h : ring.Sound r) {epoch : ℕ} {key : Name}
    (hk : World.Draws r epoch key) : Keyring.Sound r (withEpoch ring epoch key) := by
  intro p hp
  rcases List.mem_cons.mp hp with rfl | hp
  · exact ⟨hk, le_max_right _ _⟩
  · obtain ⟨hd, hle⟩ := h p (List.mem_of_mem_filter hp)
    exact ⟨hd, hle.trans (le_max_left _ _)⟩

/-- A client may go on with a later keyring. -/
theorem Client.Sound.withRing {c : Client} (h : c.Sound E r w) {ring : Keyring} (hr : ring.Sound r)
    (hle : c.ring.current ≤ ring.current) : Client.Sound E r w { c with ring } :=
  { h with
    ring := hr
    name := fun name hname => (h.name name hname).later hle
    entries := fun e he => (h.entries e he).later hle }

theorem Seal.sound {key : Name} {epoch : ℕ} {place : Place} {iv : Text} {payload : Msg}
    (hk : World.Draws r epoch key) (hp : w.Written E r epoch payload) (hf : place.Fixed) :
    Seal.Sound E w ⟨.name key, place, iv, payload⟩ where
  safe hs := hp.1 (not_le.mp fun hle => hs (hk.mpr hle))
  vouched := hp.2
  atomic _ hu ho := not_occurs_name hu key ho
  fixed := hf

/-- A package for a recipient that is of the space from epoch `r` on. -/
theorem Wrap.sound {b : Wrap} {epoch : ℕ} (hr : r ≤ epoch → Guarded b.recipient)
    (hp : w.Written E r epoch b.payload) (ho : b.Opens E r w) : b.Sound E r w where
  safe hg := hp.1 (not_le.mp fun hle => hg (hr hle))
  vouched := hp.2
  opens := ho

theorem World.Written.package {payload : PairingPayload}
    (hk : World.Draws r payload.keyEpoch payload.groupKey)
    (hn : ∀ name ∈ payload.spaceName, w.Written E r payload.keyEpoch name) :
    w.Written E r payload.keyEpoch payload.json := by
  refine .object (List.forall_mem_append.mpr ⟨?_, .optional hn⟩)
  simp only [List.forall_mem_cons, List.not_mem_nil, false_implies, implies_true, and_true]
  refine ⟨.name hk, .data _, .data _, .data _, .array fun m hm => ?_⟩
  obtain ⟨b, -, rfl⟩ := List.mem_map.mp hm
  refine .object (List.forall_mem_append.mpr ⟨?_, .optional fun m hm => ?_⟩)
  · simp only [List.forall_mem_cons, List.not_mem_nil, false_implies, implies_true, and_true]
    exact ⟨.data _, .data _⟩
  · obtain ⟨key, -, rfl⟩ := Option.map_eq_some_iff.mp hm
    exact .data _

end SendSelf.EndToEnd
