import SendSelf.Library.Utf16
import SendSelf.Statements.Signed

/-!
# The bytes of a statement

A statement is signed as its bytes, which say nothing of a surrogate without its partner. The
encoder goes through the fields one by one and a ciphertext keeps its length, so the bytes of a call
are those of the call with its strings encoded. Ids, keys and vectors that a client has drawn are in
base64url and are what they were.
-/
namespace SendSelf.Statements
open Framing Utf16

instance plain_decidable (text : Text) : Decidable (Plain text) :=
  List.decidableBAll _ text

/-- The letters, the digits, `-` and `_`. -/
def isBase64Url (c : UInt16) : Bool :=
  decide (65 ≤ c ∧ c ≤ 90 ∨ 97 ≤ c ∧ c ≤ 122 ∨ 48 ≤ c ∧ c ≤ 57 ∨ c = 45 ∨ c = 95)

def Base64Url (text : Text) : Prop := ∀ c ∈ text, isBase64Url c = true

instance base64Url_decidable (text : Text) : Decidable (Base64Url text) :=
  List.decidableBAll _ text

/-- Nothing in base64url is lost when it is encoded. -/
theorem Base64Url.plain {text : Text} (h : Base64Url text) : Plain text := by
  intro c hc
  have hb := h c hc
  simp only [isBase64Url, decide_eq_true_eq, UInt16.le_iff_toNat_le, ← UInt16.toNat_inj] at hb
  simp only [isSurrogate, isHigh, isLow, replacement, Bool.or_eq_false_iff, decide_eq_false_iff_not,
    UInt16.le_iff_toNat_le, UInt16.lt_iff_toNat_lt, ne_eq, ← UInt16.toNat_inj]
  simp only [UInt16.reduceToNat] at hb ⊢
  omega

theorem Base64Url.colon_notMem {text : Text} (h : Base64Url text) : colon ∉ text :=
  fun hm => absurd (h colon hm) (by decide)

theorem isSurrogate_colon : isSurrogate colon = false := by decide

theorem colon_mem_toWellFormed {text : Text} : colon ∈ toWellFormed text ↔ colon ∈ text :=
  mem_toWellFormed isSurrogate_colon (by decide)

theorem base64Url_digits (n : ℕ) : Base64Url (digits n) := by
  intro c hc
  obtain ⟨d, hd, rfl⟩ := List.mem_map.mp hc
  have hdigit : ∀ d < 10, isBase64Url ((48 : UInt16) + d.toUInt16) = true := by decide
  exact hdigit d (lt_of_mem_decimal hd)

theorem base64Url_string (n : ℤ) : Base64Url (string n) := by
  cases n with
  | ofNat n => exact base64Url_digits n
  | negSucc n => exact List.forall_mem_cons.mpr ⟨by decide, base64Url_digits _⟩

def Nullable.wellFormed : Nullable → Nullable
  | .undefined => .undefined
  | .null => .null
  | .is value => .is (toWellFormed value)

def InviteSealFields.wellFormed (f : InviteSealFields) : InviteSealFields :=
  ⟨toWellFormed f.pairingId, toWellFormed f.deviceId, toWellFormed f.publicKey,
    toWellFormed f.signingPublicKey, f.sendOnly⟩

def MessageSignatureFields.wellFormed (f : MessageSignatureFields Nullable) :
    MessageSignatureFields Nullable :=
  { f.map Nullable.wellFormed with
    groupId := toWellFormed f.groupId
    messageId := toWellFormed f.messageId
    senderDeviceId := toWellFormed f.senderDeviceId }

namespace Statement

/-- The call whose strings are what the encoder makes of them. -/
def wellFormed : Statement Nullable → Statement Nullable
  | .attestation f => .attestation ⟨toWellFormed f.groupId, toWellFormed f.deviceId,
      toWellFormed f.publicKey, toWellFormed f.signingPublicKey, toWellFormed f.signerDeviceId,
      f.issuedAt⟩
  | .delete f => .delete ⟨toWellFormed f.groupId, toWellFormed f.messageId,
      toWellFormed f.senderDeviceId, f.keyEpoch, toWellFormed f.deletesMessageId⟩
  | .message f => .message f.wellFormed
  | .inviteSeal f => .inviteSeal f.wellFormed

theorem wellFormed_kind (s : Statement Nullable) : s.wellFormed.kind = s.kind := by
  cases s <;> rfl

end Statement

/-- The length in front of a ciphertext stays right. -/
theorem part_wellFormed (v : Nullable) : part v.wellFormed = toWellFormed (part v) := by
  have hdash : toWellFormed (literal "-") = literal "-" := Plain.toWellFormed (by decide)
  cases v with
  | undefined => exact hdash.symm
  | null => exact hdash.symm
  | is value =>
    have hdot : isSurrogate dot = false := by decide
    rw [part, toWellFormed_append_cons _ hdot, (base64Url_digits _).plain.toWellFormed,
      Nullable.wellFormed, part, length_toWellFormed]

namespace Statement

theorem fields_wellFormed (s : Statement Nullable) :
    s.wellFormed.fields = s.fields.map toWellFormed := by
  have hone : toWellFormed (literal "1") = literal "1" := Plain.toWellFormed (by decide)
  have hstring : ∀ n, toWellFormed (string n) = string n :=
    fun n => (base64Url_string n).plain.toWellFormed
  cases s with
  | attestation f => simp only [wellFormed, fields, List.map_cons, List.map_nil, hone, hstring]
  | delete f => simp only [wellFormed, fields, List.map_cons, List.map_nil, hone, hstring]
  | message f =>
    simp only [wellFormed, fields, MessageSignatureFields.ids, MessageSignatureFields.ciphertexts,
      MessageSignatureFields.wellFormed, MessageSignatureFields.map, List.map_cons, List.map_nil,
      List.map_append, part_wellFormed, hone, hstring]
  | inviteSeal f =>
    have hside : toWellFormed (if f.sendOnly then literal "send-only" else literal "full") =
        if f.sendOnly then literal "send-only" else literal "full" := by
      cases f.sendOnly <;> exact Plain.toWellFormed (by decide)
    simp only [wellFormed, InviteSealFields.wellFormed, fields, List.map_cons, List.map_nil, hone,
      hside]

theorem plain_name (k : Kind) : Plain k.name := by
  cases k <;> decide

/-- Encoding the text of a call is writing the call with its strings encoded. -/
theorem text_wellFormed (s : Statement Nullable) :
    s.wellFormed.text = toWellFormed s.text := by
  rw [text_eq, text_eq, toWellFormed_append_cons _ isSurrogate_colon,
    toWellFormed_join isSurrogate_colon, ← fields_wellFormed, wellFormed_kind,
    (plain_name _).toWellFormed]

/-- The encoder puts no colon where there was none. -/
theorem colon_notMem_wellFormed {s : Statement Nullable} (h : ∀ v ∈ s.strings, colon ∉ v) :
    ∀ v ∈ s.wellFormed.strings, colon ∉ v := by
  have hstrings : s.wellFormed.strings = s.strings.map toWellFormed := by
    cases s with
    | message f =>
      obtain ⟨g, m, d, epoch, p, iv, key, fiv, fm, fmiv⟩ := f
      cases p <;> cases iv <;> cases key <;> cases fiv <;> cases fm <;> cases fmiv <;> rfl
    | _ => rfl
  intro v hv
  rw [hstrings] at hv
  obtain ⟨u, hu, rfl⟩ := List.mem_map.mp hv
  exact fun hm => h u hu (colon_mem_toWellFormed.mp hm)

end Statement

/-- The function that was called shows in the bytes, whatever it was given. -/
theorem kind_eq_of_bytes {s t : Statement Nullable}
    (h : toWellFormed s.text = toWellFormed t.text) :
    s.kind = t.kind := by
  rw [← Statement.text_wellFormed, ← Statement.text_wellFormed, Statement.text_eq,
    Statement.text_eq, Statement.wellFormed_kind, Statement.wellFormed_kind] at h
  exact Kind.name_injective (cut s.kind.colon_notMem_name t.kind.colon_notMem_name h).1

/-- What a call without colons says, given its string. -/
theorem read_eq_of_text {s t : Statement Nullable} (hs : ∀ v ∈ s.strings, colon ∉ v)
    (h : s.text = t.text) : s.read = t.read := by
  rw [Statement.text_eq, Statement.text_eq] at h
  obtain ⟨hname, hjoin⟩ := cut s.kind.colon_notMem_name t.kind.colon_notMem_name h
  have hk : s.kind = t.kind := Kind.name_injective hname
  have hl : s.fields.length = t.fields.length := by rw [s.length_fields, t.length_fields, hk]
  exact Statement.read_eq_of_fields hk
    (join_inj_of_free hl (Statement.colon_notMem_fields hs) hjoin)

/-- And given its bytes. -/
theorem read_eq_of_bytes {s t : Statement Nullable} (hs : ∀ v ∈ s.strings, colon ∉ v)
    (h : toWellFormed s.text = toWellFormed t.text) : s.wellFormed.read = t.wellFormed.read := by
  rw [← Statement.text_wellFormed, ← Statement.text_wellFormed] at h
  exact read_eq_of_text (Statement.colon_notMem_wellFormed hs) h

theorem plain_part {v : Nullable} (h : ∀ t, v.read = some t → Plain t) : Plain (part v) := by
  have hdash : Plain (literal "-") := by decide
  cases v with
  | undefined => exact hdash
  | null => exact hdash
  | is value =>
    exact (base64Url_digits _).plain.append (List.forall_mem_cons.mpr ⟨by decide, h value rfl⟩)

theorem Statement.plain_fields {s : Statement Nullable} (h : ∀ v ∈ s.strings, Plain v) :
    ∀ v ∈ s.fields, Plain v := by
  have hone : Plain (literal "1") := by decide
  have hnum : ∀ n, Plain (string n) := fun n => (base64Url_string n).plain
  cases s with
  | attestation f =>
    simp only [strings, List.forall_mem_cons, List.not_mem_nil, false_implies, implies_true,
      and_true] at h
    simp only [fields, List.forall_mem_cons, List.not_mem_nil, false_implies,
      implies_true, and_true]
    exact ⟨hone, h.1, h.2.1, h.2.2.1, h.2.2.2.1, h.2.2.2.2, hnum _⟩
  | delete f =>
    simp only [strings, List.forall_mem_cons, List.not_mem_nil, false_implies, implies_true,
      and_true] at h
    simp only [fields, List.forall_mem_cons, List.not_mem_nil, false_implies,
      implies_true, and_true]
    exact ⟨hone, h.1, h.2.1, h.2.2.1, hnum _, h.2.2.2⟩
  | message f =>
    obtain ⟨hids, hc⟩ := List.forall_mem_append.mp h
    refine List.forall_mem_cons.mpr ⟨hone, List.forall_mem_append.mpr ⟨hids, ?_⟩⟩
    refine List.forall_mem_cons.mpr ⟨hnum _, fun w hw => ?_⟩
    obtain ⟨v, hv, rfl⟩ := List.mem_map.mp hw
    exact plain_part fun t ht => hc t (List.mem_filterMap.mpr ⟨v, hv, ht⟩)
  | inviteSeal f =>
    have hside : Plain (if f.sendOnly then literal "send-only" else literal "full") := by
      cases f.sendOnly <;> decide
    simp only [strings, List.forall_mem_cons, List.not_mem_nil, false_implies, implies_true,
      and_true] at h
    simp only [fields, List.forall_mem_cons, List.not_mem_nil, false_implies,
      implies_true, and_true]
    exact ⟨hone, h.1, h.2.1, h.2.2.1, h.2.2.2, hside⟩

/-- No other call has the bytes of one in plain strings without colons. -/
theorem read_eq_of_plain {s t : Statement Nullable} (hs : ∀ v ∈ s.strings, Plain v ∧ colon ∉ v)
    (h : toWellFormed s.text = toWellFormed t.text) : s.read = t.read := by
  have hplain : Plain s.text := by
    rw [Statement.text_eq]
    refine (Statement.plain_name _).append (List.forall_mem_cons.mpr ⟨by decide, ?_⟩)
    exact Plain.join (by decide) (Statement.plain_fields fun v hv => (hs v hv).1)
  exact read_eq_of_text (fun v hv => (hs v hv).2) (hplain.eq_of_toWellFormed h)

end SendSelf.Statements
