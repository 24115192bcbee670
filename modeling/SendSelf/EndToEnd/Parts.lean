import SendSelf.EndToEnd.World

/-!
# What a request is made of

Every request is put together from public data, ciphertexts and a signature that its sender has
made for it, and packages that it has wrapped. So a request gives nothing away when no part of
it does, and what takes something guarded to make stands in it only as one of its own parts or
inside what they hold.
-/
namespace SendSelf.EndToEnd
open Intruder Statements Framing

variable {E : Encoding} {q : Request} {u : Msg}

/-- What a request puts together out of public data, its ciphertexts, its packages and its
signature. -/
inductive Built (E : Encoding) (q : Request) : Msg → Prop
  | data (x) : Built E q (.data x)
  | hash (value) : Built E q (.hash (Msg.text value))
  | pair {a b} (ha : Built E q a) (hb : Built E q b) : Built E q (.pair a b)
  | sealed {s} (h : s ∈ q.seals) : Built E q (s.ciphertext E)
  | wrapped {b} (h : b ∈ q.wraps) : Built E q b.wrapped
  | signed {p} (h : q.statement E = some p) : Built E q (signStatement p.1 p.2)

theorem Built.object {fs : List (Text × Msg)} (h : ∀ f ∈ fs, Built E q f.2) :
    Built E q (object fs) := by
  induction fs with
  | nil => exact .data _
  | cons f fs ih =>
    obtain ⟨hf, hfs⟩ := List.forall_mem_cons.mp h
    exact .pair (.pair (.data _) hf) (ih hfs)

theorem Built.array {ms : List Msg} (h : ∀ m ∈ ms, Built E q m) : Built E q (array ms) := by
  induction ms with
  | nil => exact .data _
  | cons m ms ih =>
    obtain ⟨hm, hms⟩ := List.forall_mem_cons.mp h
    exact .pair hm (ih hms)

theorem mem_optional {key : Text} {value : Option Msg} {f : Text × Msg} :
    f ∈ optional key value ↔ ∃ m, value = some m ∧ (key, m) = f := by
  simp [optional]

theorem Built.attestation {key : Name} {fields : AttestationFields}
    (h : q.statement E = some (key, .attestation fields)) : Built E q (attestation key fields) := by
  refine .object ?_
  simp only [List.forall_mem_cons, List.not_mem_nil, false_implies, implies_true, and_true]
  exact ⟨.data _, .data _, .data _, .data _, .data _, .data _, .signed h⟩

theorem Built.deviceJson (id : Text) (k l : Name) : Built E q (deviceJson E id k l) := by
  refine .object ?_
  simp only [List.forall_mem_cons, List.not_mem_nil, false_implies, implies_true, and_true]
  exact ⟨.data _, .data _, .data _⟩

theorem Built.optional {key : Text} {value : Option Msg} (h : ∀ m ∈ value, Built E q m) :
    ∀ f ∈ optional key value, Built E q f.2 := by
  intro f hf
  obtain ⟨m, hm, rfl⟩ := mem_optional.mp hf
  exact h m hm

theorem Built.optionalText {α : Type} {key : Text} {value : Option α} {g : α → Text} :
    ∀ f ∈ EndToEnd.optional key (value.map fun a => Msg.text (g a)), Built E q f.2 := by
  refine .optional fun m hm => ?_
  obtain ⟨a, -, rfl⟩ := Option.map_eq_some_iff.mp hm
  exact .data _

theorem Built.optionalSeal {key : Text} {value : Option Seal} (h : ∀ s ∈ value, s ∈ q.seals) :
    ∀ f ∈ EndToEnd.optional key (value.map (Seal.ciphertext E)), Built E q f.2 := by
  refine .optional fun m hm => ?_
  obtain ⟨s, hs, rfl⟩ := Option.map_eq_some_iff.mp hm
  exact .sealed (h s hs)

theorem Built.signature : ∀ f ∈ q.signature E, Built E q f.2 := by
  refine .optional fun m hm => ?_
  obtain ⟨p, hp, rfl⟩ := Option.map_eq_some_iff.mp hm
  exact .signed hp

/-- Every request is built of its own parts, whichever it is. -/
theorem Request.built (E : Encoding) (q : Request) : Built E q (q.body E) := by
  cases q with
  | createGroup s token name issuedAt =>
    refine .object ?_
    simp only [List.forall_mem_cons, List.not_mem_nil, false_implies, implies_true, and_true]
    exact ⟨.data _, .hash _, .deviceJson _ _ _, .sealed List.mem_cons_self, .data _,
      .attestation rfl⟩
  | pairingRequest j invite =>
    refine .object ?_
    simp only [List.forall_mem_append, List.forall_mem_cons, List.not_mem_nil, false_implies,
      implies_true, and_true]
    refine ⟨⟨⟨.data _, .deviceJson _ _ _⟩, .optional fun m hm => ?_⟩, .optional fun m hm => ?_⟩
    · split at hm
      · obtain rfl := Option.some.inj hm
        exact .data _
      · exact absurd hm (Option.not_mem_none _)
    · obtain ⟨s, hs, rfl⟩ := Option.map_eq_some_iff.mp hm
      exact .pair (.data _) (.sealed (Option.mem_toList.mpr hs))
  | pairingComplete s payload package token name keyEpoch issuedAt =>
    refine .object ?_
    simp only [List.forall_mem_append, List.forall_mem_cons, List.not_mem_nil, false_implies,
      implies_true, and_true]
    refine ⟨⟨⟨⟨.data _, .wrapped List.mem_cons_self, .data _⟩, .optionalText⟩,
      .optional fun m hm => ?_⟩,
      .sealed List.mem_cons_self, .data _, .hash _, .data _⟩
    obtain ⟨key, hkey, rfl⟩ := Option.map_eq_some_iff.mp hm
    exact .attestation (by simp only [Request.statement, hkey, Option.map_some])
  | rotateKey s epoch wraps =>
    refine .object ?_
    simp only [List.forall_mem_cons, List.not_mem_nil, false_implies, implies_true, and_true]
    refine ⟨.data _, .array fun m hm => ?_⟩
    obtain ⟨p, hp, rfl⟩ := List.mem_map.mp hm
    refine .object ?_
    simp only [List.forall_mem_cons, List.not_mem_nil, false_implies, implies_true, and_true]
    exact ⟨.data _, .wrapped (List.mem_map.mpr ⟨p, hp, rfl⟩)⟩
  | uploadFile s key file =>
    refine .object ?_
    simp only [List.forall_mem_cons, List.not_mem_nil, false_implies, implies_true, and_true]
    exact ⟨.data _, .sealed List.mem_cons_self⟩
  | sendMessage s id keyEpoch text file meta' =>
    refine .object ?_
    simp only [List.forall_mem_append, List.forall_mem_cons, List.not_mem_nil, false_implies,
      implies_true, and_true]
    exact ⟨⟨⟨⟨⟨⟨⟨⟨.data _, .data _⟩,
      .optionalSeal fun c hc => List.mem_append_left _ (Option.mem_toList.mpr hc)⟩, .optionalText⟩,
      .optionalText⟩,
      .optionalText⟩, .optionalSeal fun c hc => List.mem_append_right _ (Option.mem_toList.mpr hc)⟩,
      .optionalText⟩,
      .signature⟩
  | sendDeletion s id keyEpoch deletesMessageId =>
    refine .object ?_
    simp only [List.forall_mem_append, List.forall_mem_cons, List.not_mem_nil, false_implies,
      implies_true, and_true]
    exact ⟨⟨.data _, .data _, .data _⟩, .signature⟩
  | updateSpaceName s name keyEpoch =>
    refine .object ?_
    simp only [List.forall_mem_append, List.forall_mem_cons, List.not_mem_nil, false_implies,
      implies_true, and_true]
    exact ⟨⟨.optionalSeal fun c hc => Option.mem_toList.mpr hc, .optionalText⟩, .data _⟩
  | uploadVaultBlob s blobKey content =>
    refine .object ?_
    simp only [List.forall_mem_cons, List.not_mem_nil, false_implies, implies_true, and_true]
    exact ⟨.data _, .sealed List.mem_cons_self⟩
  | createVaultItem s id parentId kind blobKey keyEpoch meta' =>
    refine .object ?_
    simp only [List.forall_mem_append, List.forall_mem_cons, List.not_mem_nil, false_implies,
      implies_true, and_true]
    exact ⟨⟨⟨⟨.data _, .optionalText⟩, .data _⟩, .optionalText⟩, .data _,
      .sealed List.mem_cons_self, .data _⟩
  | updateVaultItem s id revision blobKey keyEpoch meta' =>
    refine .object ?_
    simp only [List.forall_mem_append, List.forall_mem_cons, List.not_mem_nil, false_implies,
      implies_true, and_true]
    exact ⟨⟨⟨.data _, .data _⟩, .optionalText⟩, .data _, .sealed List.mem_cons_self, .data _⟩
  | resealVault s keyEpoch items =>
    refine .object ?_
    simp only [List.forall_mem_cons, List.not_mem_nil, false_implies, implies_true, and_true]
    refine ⟨.data _, .array fun m hm => ?_⟩
    obtain ⟨item, hitem, rfl⟩ := List.mem_map.mp hm
    refine .object ?_
    simp only [List.forall_mem_cons, List.not_mem_nil, false_implies, implies_true, and_true]
    exact ⟨.data _, .data _, .sealed (List.mem_map.mpr ⟨item, hitem, rfl⟩), .data _⟩

/-- A ciphertext gives away its payload, to whoever is given its key. -/
theorem safe_ciphertext {s : Seal} :
    Safe Guarded (s.ciphertext E) ↔ (Safe Guarded s.key → Safe Guarded s.payload) := by
  simp only [Seal.ciphertext, encrypt, aad, bytes, Safe, true_and]

/-- A package gives away its payload, unless its recipient is guarded. -/
theorem safe_wrapped {b : Wrap} :
    Safe Guarded b.wrapped ↔ (¬ Guarded b.recipient → Safe Guarded b.payload) := by
  simp only [Wrap.wrapped, wrapSecret, bytes, Safe, true_and]

/-- A request gives nothing away when none of its ciphertexts and packages does. -/
theorem Built.safe {m : Msg} (hs : ∀ s ∈ q.seals, Safe Guarded (s.ciphertext E))
    (hb : ∀ b ∈ q.wraps, Safe Guarded b.wrapped) (h : Built E q m) : Safe Guarded m := by
  induction h with
  | data | hash | signed => trivial
  | pair _ _ ha hb => exact ⟨ha, hb⟩
  | sealed h => exact hs _ h
  | wrapped h => exact hb _ h

/-- Nothing that takes something guarded to make stands in plain data. -/
theorem not_occurs_data (hu : Protected Guarded u) (x : Datum) : ¬ Occurs u (.data x) := by
  intro h
  cases h with
  | self => exact hu

theorem not_occurs_name (hu : Protected Guarded u) (n : Name) : ¬ Occurs u (.name n) := by
  intro h
  cases h with
  | self => exact hu

theorem not_occurs_inviteKey (hu : Protected Guarded u) (invite : Invite) :
    ¬ Occurs u (inviteKey invite) := by
  intro h
  cases h with
  | self => exact hu
  | secret h => exact not_occurs_name hu _ h
  | salt h => exact not_occurs_data hu _ h

/-- The key of a seal is not itself made of anything. -/
def Seal.Atomic (s : Seal) : Prop := ∀ u, Protected Guarded u → ¬ Occurs u s.key

theorem Built.occurs {m : Msg} (hk : ∀ s ∈ q.seals, s.Atomic) (hu : Protected Guarded u)
    (h : Built E q m) (ho : Occurs u m) :
    u ∈ q.made E ∨ (∃ s ∈ q.seals, Occurs u s.payload) ∨ ∃ b ∈ q.wraps, Occurs u b.payload := by
  induction h with
  | data x => exact absurd ho (not_occurs_data hu x)
  | hash value =>
    cases ho with
    | self => exact hu.elim
    | hashed ho => exact absurd ho (not_occurs_data hu _)
  | pair _ _ iha ihb =>
    cases ho with
    | self => exact hu.elim
    | fst ho => exact iha ho
    | snd ho => exact ihb ho
  | @sealed s h =>
    cases ho with
    | self => exact .inl (List.mem_append_left _ (List.mem_map_of_mem h))
    | key ho => exact absurd ho (hk s h u hu)
    | context ho =>
      cases ho with
      | self => exact hu.elim
      | fst ho => exact absurd ho (not_occurs_data hu _)
      | snd ho => exact absurd ho (not_occurs_data hu _)
    | sealed ho => exact .inr (.inl ⟨s, h, ho⟩)
  | @wrapped b h =>
    cases ho with
    | self => exact hu.elim
    | label ho => exact absurd ho (not_occurs_data hu _)
    | boxed ho => exact .inr (.inr ⟨b, h, ho⟩)
  | @signed p h =>
    cases ho with
    | self =>
      refine .inl (List.mem_append_right _ ?_)
      rw [h]
      exact List.mem_cons_self
    | statement ho => exact absurd ho (not_occurs_data hu _)

end SendSelf.EndToEnd
