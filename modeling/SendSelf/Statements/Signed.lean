import Mathlib.Tactic.Common
import SendSelf.Library.Framing

/-!
# The strings a signature covers

Four kinds of statement are signed or sealed to: a device's attestation, a request to delete a
message, a message, and the answer to an invitation. Each is a string of fields with a colon
between them, after a heading of its own. Ids, keys and ciphertexts are written as they are,
numbers in base ten, and the ciphertexts of a message with their length in front, an absent one
as a dash. A string is its UTF-16 code units, which is also what its length counts.
-/
namespace SendSelf.Statements
open Framing

abbrev Text := List UInt16

/-- A literal of the source, whose characters are one code unit each. -/
def literal (s : String) : Text := s.toList.map fun c => c.toNat.toUInt16

abbrev colon : UInt16 := 58
abbrev dot : UInt16 := 46
abbrev minus : UInt16 := 45

def digits (n : ℕ) : Text := (decimal n).map fun d => 48 + d.toUInt16

/-- `String(n)` of an integer. -/
def string : ℤ → Text
  | .ofNat n => digits n
  | .negSucc n => minus :: digits (n + 1)

/-- A field `?: string | null`. -/
inductive Nullable where
  | undefined
  | null
  | is (value : Text)
deriving DecidableEq, Repr

/-- What the field says, whichever way it says that there is nothing. -/
def Nullable.read : Nullable → Option Text
  | .undefined => none
  | .null => none
  | .is value => some value

@[ext] structure AttestationFields where
  groupId : Text
  deviceId : Text
  publicKey : Text
  signingPublicKey : Text
  signerDeviceId : Text
  issuedAt : ℤ
deriving DecidableEq, Repr

@[ext] structure DeleteSignatureFields where
  groupId : Text
  messageId : Text
  senderDeviceId : Text
  keyEpoch : ℤ
  deletesMessageId : Text
deriving DecidableEq, Repr

/-- The fields of a message, `γ` being what a ciphertext is. -/
structure MessageSignatureFields (γ : Type) where
  groupId : Text
  messageId : Text
  senderDeviceId : Text
  keyEpoch : ℤ
  encryptedPayload : γ
  iv : γ
  fileR2Key : γ
  fileIv : γ
  fileMeta : γ
  fileMetaIv : γ
deriving DecidableEq, Repr

@[ext] structure InviteSealFields where
  pairingId : Text
  deviceId : Text
  publicKey : Text
  signingPublicKey : Text
  sendOnly : Bool
deriving DecidableEq, Repr

def attestationStatement (fields : AttestationFields) : Text :=
  join colon [literal "fs-device-attestation:1", fields.groupId, fields.deviceId, fields.publicKey,
    fields.signingPublicKey, fields.signerDeviceId, string fields.issuedAt]

def deleteSignatureStatement (fields : DeleteSignatureFields) : Text :=
  join colon [literal "fs-message-delete:1", fields.groupId, fields.messageId,
    fields.senderDeviceId,
    string fields.keyEpoch, fields.deletesMessageId]

def part : Nullable → Text
  | .undefined => literal "-"
  | .null => literal "-"
  | .is value => digits value.length ++ dot :: value

def messageSignatureStatement (fields : MessageSignatureFields Nullable) : Text :=
  join colon [literal "fs-message:1", fields.groupId, fields.messageId, fields.senderDeviceId,
    string fields.keyEpoch, part fields.encryptedPayload, part fields.iv, part fields.fileR2Key,
    part fields.fileIv,
    part fields.fileMeta, part fields.fileMetaIv]

def inviteSealStatement (fields : InviteSealFields) : Text :=
  join colon [literal "fs-pairing-invite:1", fields.pairingId, fields.deviceId, fields.publicKey,
    fields.signingPublicKey, if fields.sendOnly then literal "send-only" else literal "full"]

inductive Kind where
  | attestation | delete | message | inviteSeal
deriving DecidableEq, Repr

/-- The heading of a statement up to its own colon. -/
def Kind.name : Kind → Text
  | .attestation => literal "fs-device-attestation"
  | .delete => literal "fs-message-delete"
  | .message => literal "fs-message"
  | .inviteSeal => literal "fs-pairing-invite"

/-- How many fields follow the heading's colon. -/
def Kind.size : Kind → ℕ
  | .attestation => 7
  | .delete => 6
  | .message => 11
  | .inviteSeal => 6

theorem Kind.name_injective : Function.Injective Kind.name := by
  intro k l h
  cases k <;> cases l <;> first | rfl | exact absurd h (by decide)

theorem Kind.colon_notMem_name (k : Kind) : colon ∉ k.name := by
  cases k <;> decide

inductive Statement (γ : Type) where
  | attestation (fields : AttestationFields)
  | delete (fields : DeleteSignatureFields)
  | message (fields : MessageSignatureFields γ)
  | inviteSeal (fields : InviteSealFields)
deriving DecidableEq, Repr

namespace MessageSignatureFields

variable {γ δ : Type}

def map (f : γ → δ) (m : MessageSignatureFields γ) : MessageSignatureFields δ :=
  ⟨m.groupId, m.messageId, m.senderDeviceId, m.keyEpoch, f m.encryptedPayload, f m.iv,
    f m.fileR2Key, f m.fileIv,
    f m.fileMeta, f m.fileMetaIv⟩

def ids (m : MessageSignatureFields γ) : List Text := [m.groupId, m.messageId, m.senderDeviceId]

def ciphertexts (m : MessageSignatureFields γ) : List γ :=
  [m.encryptedPayload, m.iv, m.fileR2Key, m.fileIv, m.fileMeta, m.fileMetaIv]

end MessageSignatureFields

namespace Statement

/-- The string a call returns. -/
def text : Statement Nullable → Text
  | .attestation fields => attestationStatement fields
  | .delete fields => deleteSignatureStatement fields
  | .message fields => messageSignatureStatement fields
  | .inviteSeal fields => inviteSealStatement fields

/-- The call, an absent ciphertext and a null one being the same. -/
def read : Statement Nullable → Statement (Option Text)
  | .attestation fields => .attestation fields
  | .delete fields => .delete fields
  | .message fields => .message (fields.map Nullable.read)
  | .inviteSeal fields => .inviteSeal fields

/-- The ids, keys and ciphertexts of a call. -/
def strings : Statement Nullable → List Text
  | .attestation f => [f.groupId, f.deviceId, f.publicKey, f.signingPublicKey, f.signerDeviceId]
  | .delete f => [f.groupId, f.messageId, f.senderDeviceId, f.deletesMessageId]
  | .message f => f.ids ++ f.ciphertexts.filterMap Nullable.read
  | .inviteSeal f => [f.pairingId, f.deviceId, f.publicKey, f.signingPublicKey]

def kind {γ : Type} : Statement γ → Kind
  | .attestation _ => .attestation
  | .delete _ => .delete
  | .message _ => .message
  | .inviteSeal _ => .inviteSeal

/-- What follows the heading's colon. -/
def fields : Statement Nullable → List Text
  | .attestation f =>
    [literal "1", f.groupId, f.deviceId, f.publicKey, f.signingPublicKey, f.signerDeviceId,
      string f.issuedAt]
  | .delete f =>
      [literal "1", f.groupId, f.messageId, f.senderDeviceId, string f.keyEpoch, f.deletesMessageId]
  | .message f => literal "1" :: (f.ids ++ string f.keyEpoch :: f.ciphertexts.map part)
  | .inviteSeal f => [literal "1", f.pairingId, f.deviceId, f.publicKey, f.signingPublicKey,
      if f.sendOnly then literal "send-only" else literal "full"]

theorem text_eq (s : Statement Nullable) :
    s.text = s.kind.name ++ colon :: join colon s.fields := by
  have hcons : ∀ (k : Kind) heading (ps : List Text),
      heading = k.name ++ colon :: literal "1" → ps ≠ [] →
      join colon (heading :: ps) = k.name ++ colon :: join colon (literal "1" :: ps) := by
    intro k heading ps hh hps
    rw [join_cons hps, join_cons hps, hh, List.append_assoc, List.cons_append]
  cases s with
  | attestation f => exact hcons .attestation _ _ (by decide) (List.cons_ne_nil _ _)
  | delete f => exact hcons .delete _ _ (by decide) (List.cons_ne_nil _ _)
  | message f => exact hcons .message _ _ (by decide) (List.cons_ne_nil _ _)
  | inviteSeal f => exact hcons .inviteSeal _ _ (by decide) (List.cons_ne_nil _ _)

end Statement

theorem digits_injective : Function.Injective digits := by
  have hback : ∀ n, (digits n).map (fun u => u.toNat - 48) = decimal n := by
    intro n
    rw [digits, List.map_map]
    have hid : ∀ d < 10, ((48 : UInt16) + d.toUInt16).toNat - 48 = d := by decide
    exact (List.map_congr_left fun d hd => hid d (lt_of_mem_decimal hd)).trans (List.map_id _)
  intro m n h
  exact decimal_injective ((hback m).symm.trans ((congrArg _ h).trans (hback n)))

/-- Digits are none of the marks that stand beside them. -/
theorem notMem_digits {c : UInt16} (hc : ∀ d < 10, (48 : UInt16) + d.toUInt16 ≠ c) (n : ℕ) :
    c ∉ digits n := by
  intro h
  obtain ⟨d, hd, he⟩ := List.mem_map.mp h
  exact hc d (lt_of_mem_decimal hd) he

theorem minus_notMem_digits (n : ℕ) : minus ∉ digits n := notMem_digits (by decide) n

theorem string_injective : Function.Injective string := by
  intro m n h
  cases m with
  | ofNat m =>
    cases n with
    | ofNat n => exact congrArg _ (digits_injective h)
    | negSucc n =>
      have hm : minus ∈ digits m :=
        (show digits m = minus :: digits (n + 1) from h) ▸ List.mem_cons_self
      exact absurd hm (minus_notMem_digits m)
  | negSucc m =>
    cases n with
    | ofNat n =>
      have hn : minus ∈ digits n :=
        (show minus :: digits (m + 1) = digits n from h) ▸ List.mem_cons_self
      exact absurd hn (minus_notMem_digits n)
    | negSucc n =>
      have hmn : m + 1 = n + 1 := digits_injective (List.cons.inj h).2
      exact congrArg _ (Nat.succ.inj hmn)

theorem colon_notMem_string (n : ℤ) : colon ∉ string n := by
  cases n with
  | ofNat n => exact notMem_digits (by decide) n
  | negSucc n => exact List.not_mem_cons_of_ne_of_not_mem (by decide) (notMem_digits (by decide) _)

/-- A part by what its ciphertext says. -/
def partOf : Option Text → Text
  | none => literal "-"
  | some value => digits value.length ++ dot :: value

theorem part_eq (v : Nullable) : part v = partOf v.read := by
  cases v <;> rfl

/-- A part says where it ends: a dash does not start a length. -/
theorem partOf_selfDelimiting : SelfDelimiting partOf := by
  have hdash : ∀ (value r s : Text),
      literal "-" ++ r ≠ (digits value.length ++ dot :: value) ++ s := by
    intro value r s h
    cases hd : digits value.length with
    | nil =>
      rw [hd] at h
      exact absurd (List.cons.inj h).1 (by decide)
    | cons d ds =>
      rw [hd] at h
      have hm : minus ∈ digits value.length := by
        rw [hd, ← (List.cons.inj h).1]
        exact List.mem_cons_self
      exact minus_notMem_digits _ hm
  intro v w r s h
  cases v with
  | none =>
    cases w with
    | none => exact ⟨rfl, List.append_cancel_left h⟩
    | some w => exact absurd h (hdash w r s)
  | some v =>
    cases w with
    | none => exact absurd h.symm (hdash v s r)
    | some w =>
      obtain ⟨hvw, hrs⟩ :=
        SelfDelimiting.prefixed digits_injective (notMem_digits (by decide)) v w r s h
      exact ⟨congrArg _ hvw, hrs⟩

theorem colon_notMem_part {v : Nullable} (h : ∀ t, v.read = some t → colon ∉ t) :
    colon ∉ part v := by
  rw [part_eq]
  cases hv : v.read with
  | none => decide
  | some t =>
    intro hm
    rcases List.mem_append.mp hm with hd | ht
    · exact notMem_digits (by decide) _ hd
    · exact (List.mem_cons.mp ht).elim (by decide) (h t hv)

namespace MessageSignatureFields

theorem colon_notMem_ciphertexts {f : MessageSignatureFields Nullable}
    (h : ∀ w ∈ f.ciphertexts.filterMap Nullable.read, colon ∉ w) :
    ∀ w ∈ f.ciphertexts.map part, colon ∉ w := by
  intro w hw
  obtain ⟨v, hv, rfl⟩ := List.mem_map.mp hw
  exact colon_notMem_part fun t ht => h t (List.mem_filterMap.mpr ⟨v, hv, ht⟩)

/-- The parts tell the ciphertexts, also when they are not read one by one. -/
theorem ciphertexts_eq {f g : MessageSignatureFields Nullable}
    (h : join colon (f.ciphertexts.map part) = join colon (g.ciphertexts.map part)) :
    f.ciphertexts.map Nullable.read = g.ciphertexts.map Nullable.read := by
  have hpart : ∀ cs : List Nullable, cs.map part = (cs.map Nullable.read).map partOf := by
    intro cs
    rw [List.map_map]
    exact List.map_congr_left fun v _ => part_eq v
  rw [hpart, hpart] at h
  exact partOf_selfDelimiting.join_inj rfl h

theorem map_read_eq {f g : MessageSignatureFields Nullable} (hids : f.ids = g.ids)
    (hepoch : f.keyEpoch = g.keyEpoch)
    (hc : f.ciphertexts.map Nullable.read = g.ciphertexts.map Nullable.read) :
    f.map Nullable.read = g.map Nullable.read := by
  simp only [ids, List.cons.injEq, and_true] at hids
  simp only [ciphertexts, List.map_cons, List.map_nil, List.cons.injEq, and_true] at hc
  obtain ⟨h1, h2, h3⟩ := hids
  obtain ⟨c1, c2, c3, c4, c5, c6⟩ := hc
  simp only [map, h1, h2, h3, hepoch, c1, c2, c3, c4, c5, c6]

end MessageSignatureFields

namespace Statement

/-- Where no string of a call has the colon, nothing written after the heading has. -/
theorem colon_notMem_fields {s : Statement Nullable} (h : ∀ w ∈ s.strings, colon ∉ w) :
    ∀ w ∈ s.fields, colon ∉ w := by
  have hone : colon ∉ literal "1" := by decide
  have hnum := colon_notMem_string
  cases s with
  | attestation f =>
    simp only [strings, List.forall_mem_cons, List.not_mem_nil, false_implies, implies_true,
      and_true] at h
    simp only [fields, List.forall_mem_cons, List.not_mem_nil, false_implies,
      implies_true, and_true]
    exact ⟨hone, h.1, h.2.1, h.2.2.1, h.2.2.2.1, h.2.2.2.2, hnum _⟩
  | delete f =>
    simp only [strings, List.forall_mem_cons, List.not_mem_nil, false_implies, implies_true,
      and_true] at h
    simp only [fields, List.forall_mem_cons, List.not_mem_nil, false_implies,
      implies_true, and_true]
    exact ⟨hone, h.1, h.2.1, h.2.2.1, hnum _, h.2.2.2⟩
  | message f =>
    obtain ⟨hids, hc⟩ := List.forall_mem_append.mp h
    refine List.forall_mem_cons.mpr ⟨hone, List.forall_mem_append.mpr ⟨hids, ?_⟩⟩
    exact List.forall_mem_cons.mpr ⟨hnum _, MessageSignatureFields.colon_notMem_ciphertexts hc⟩
  | inviteSeal f =>
    have hside : colon ∉ (if f.sendOnly then literal "send-only" else literal "full") := by
      cases f.sendOnly <;> decide
    simp only [strings, List.forall_mem_cons, List.not_mem_nil, false_implies, implies_true,
      and_true] at h
    simp only [fields, List.forall_mem_cons, List.not_mem_nil, false_implies,
      implies_true, and_true]
    exact ⟨hone, h.1, h.2.1, h.2.2.1, h.2.2.2, hside⟩

theorem length_fields (s : Statement Nullable) : s.fields.length = s.kind.size := by
  cases s <;> rfl

/-- The fields of a call tell it, given the function. -/
theorem read_eq_of_fields {s t : Statement Nullable} (hk : s.kind = t.kind)
    (h : s.fields = t.fields) : s.read = t.read := by
  cases s with
  | attestation f =>
    cases t with
    | attestation g =>
      simp only [fields, List.cons.injEq, and_true, true_and] at h
      obtain ⟨h1, h2, h3, h4, h5, h6⟩ := h
      have hfg : f = g := AttestationFields.ext h1 h2 h3 h4 h5 (string_injective h6)
      rw [hfg]
    | _ => simp only [kind, reduceCtorEq] at hk
  | delete f =>
    cases t with
    | delete g =>
      simp only [fields, List.cons.injEq, and_true, true_and] at h
      obtain ⟨h1, h2, h3, h4, h5⟩ := h
      have hfg : f = g := DeleteSignatureFields.ext h1 h2 h3 (string_injective h4) h5
      rw [hfg]
    | _ => simp only [kind, reduceCtorEq] at hk
  | message f =>
    cases t with
    | message g =>
      obtain ⟨hids, hrest⟩ := List.append_inj (List.cons.inj h).2 rfl
      obtain ⟨hepoch, hparts⟩ := List.cons.inj hrest
      have hfg : f.map Nullable.read = g.map Nullable.read :=
        MessageSignatureFields.map_read_eq hids (string_injective hepoch)
          (MessageSignatureFields.ciphertexts_eq (congrArg _ hparts))
      rw [read, read, hfg]
    | _ => simp only [kind, reduceCtorEq] at hk
  | inviteSeal f =>
    cases t with
    | inviteSeal g =>
      simp only [fields, List.cons.injEq, and_true, true_and] at h
      obtain ⟨h1, h2, h3, h4, h5⟩ := h
      have hside : f.sendOnly = g.sendOnly := by
        revert h5
        cases f.sendOnly <;> cases g.sendOnly <;> decide
      have hfg : f = g := InviteSealFields.ext h1 h2 h3 h4 hside
      rw [hfg]
    | _ => simp only [kind, reduceCtorEq] at hk

end Statement

/-- Two calls that give one string are one call, when the strings of the first have no colon,
whatever the second is given; and of two messages also when only their ids have none. -/
theorem statements_unambiguous :
    (∀ s t : Statement Nullable, (∀ w ∈ s.strings, colon ∉ w) → s.text = t.text → s.read = t.read) ∧
    ∀ f g : MessageSignatureFields Nullable, (∀ w ∈ f.ids, colon ∉ w) → (∀ w ∈ g.ids, colon ∉ w) →
      messageSignatureStatement f = messageSignatureStatement g →
      f.map Nullable.read = g.map Nullable.read := by
  constructor
  · intro s t hs h
    rw [Statement.text_eq, Statement.text_eq] at h
    obtain ⟨hname, hjoin⟩ := cut s.kind.colon_notMem_name t.kind.colon_notMem_name h
    have hk : s.kind = t.kind := Kind.name_injective hname
    have hl : s.fields.length = t.fields.length := by rw [s.length_fields, t.length_fields, hk]
    exact Statement.read_eq_of_fields hk
      (join_inj_of_free hl (Statement.colon_notMem_fields hs) hjoin)
  · intro f g hf hg h
    have hcut : ∀ f : MessageSignatureFields Nullable, messageSignatureStatement f =
        literal "fs-message:1" ++
          colon :: (f.groupId ++ colon :: (f.messageId ++ colon :: (f.senderDeviceId ++ colon ::
          (string f.keyEpoch ++ colon :: join colon (f.ciphertexts.map part))))) := by
      intro f
      simp [messageSignatureStatement, MessageSignatureFields.ciphertexts, join, List.intercalate]
    rw [hcut, hcut] at h
    simp only [MessageSignatureFields.ids, List.forall_mem_cons] at hf hg
    obtain ⟨hg1, hr1⟩ := cut hf.1 hg.1 (List.cons.inj (List.append_cancel_left h)).2
    obtain ⟨hm2, hr2⟩ := cut hf.2.1 hg.2.1 hr1
    obtain ⟨hs3, hr3⟩ := cut hf.2.2.1 hg.2.2.1 hr2
    obtain ⟨hk4, hr4⟩ := cut (colon_notMem_string _) (colon_notMem_string _) hr3
    exact MessageSignatureFields.map_read_eq
      (by simp only [MessageSignatureFields.ids, hg1, hm2, hs3])
      (string_injective hk4) (MessageSignatureFields.ciphertexts_eq hr4)

/-- A message of the space `g`, all of it absent but a payload and its file's meta data. -/
def bare (payload fileMeta : Nullable) : MessageSignatureFields Nullable :=
  ⟨literal "g", literal "m", literal "a", 1, payload, .undefined, .undefined, .undefined,
    fileMeta, .undefined⟩

theorem statements_unambiguous_null :
    Statement.read (.message (bare (.is []) .null)) =
      Statement.read (.message (bare (.is []) .undefined)) ∧
    (bare (.is (literal "1.:")) .undefined).map Nullable.read =
      (bare (.is (literal "1.:")) .null).map Nullable.read :=
  ⟨statements_unambiguous.1 _ _ (by decide) (by decide),
    statements_unambiguous.2 _ _ (by decide) (by decide) (by decide)⟩

end SendSelf.Statements
