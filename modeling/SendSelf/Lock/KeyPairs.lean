import SendSelf.Library.Runs
import SendSelf.Lock.Runtime

/-!
# Key pairs under the lock

A key pair that can be exported moves into the envelope and back; one that cannot stays where
the browser put it. What the operations of the lock do to the pairs is right as long as each of
them, when it goes on, finds the pairs and the lock as it left them, and as long as no refresh
is asked for with pairs that cannot be sealed: it deletes them all the same.
-/
namespace SendSelf.Lock
open Runs

inductive PairKind where
  | device | signing
deriving DecidableEq, Repr

def PairKind.key : PairKind → MetaKey
  | .device => .deviceKeyPair
  | .signing => .signingKeyPair

theorem PairKind.forall_iff {p : PairKind → Prop} : p .device ∧ p .signing ↔ ∀ k, p k := by
  constructor
  · intro h k
    cases k
    · exact h.1
    · exact h.2
  · intro h
    exact ⟨h .device, h .signing⟩

instance PairKind.decidableForall {p : PairKind → Prop} [∀ k, Decidable (p k)] :
    Decidable (∀ k, p k) :=
  decidable_of_iff _ PairKind.forall_iff

def metaPair (m : SpaceMeta) : PairKind → Option KeyPair
  | .device => m.deviceKeyPair
  | .signing => m.signingKeyPair

def openPair (secrets : OpenSecrets) : PairKind → Option KeyPair
  | .device => secrets.deviceKeyPair
  | .signing => secrets.signingKeyPair

/-- A pair as it would be imported. -/
def sealedPair (secrets : SpaceSecrets) : PairKind → Option KeyPair
  | .device => secrets.deviceKeyPair.map importKeyPair
  | .signing => secrets.signingKeyPair.map importKeyPair

def entryPair (entry : MetaEntry) : PairKind → Option KeyPair
  | .device => match entry with
    | .deviceKeyPair pair => some pair
    | _ => none
  | .signing => match entry with
    | .signingKeyPair pair => some pair
    | _ => none

def pairIn (spaces : Table SpaceSecrets.spaceId) (space : SpaceId) (k : PairKind) :
    Option KeyPair :=
  (spaces.get? space).bind fun secrets => sealedPair secrets k

def sealedSpaces (envelope : VaultEnvelope) : Table SpaceSecrets.spaceId :=
  normalize envelope.sealed.payload

namespace Core

def metaPair (c : Core) (space : SpaceId) (k : PairKind) : Option KeyPair :=
  Lock.metaPair (c.meta space) k

def vaultPair (c : Core) (space : SpaceId) (k : PairKind) : Option KeyPair :=
  c.vault.bind fun envelope => pairIn (sealedSpaces envelope) space k

def envelopePair (c : Core) (space : SpaceId) (k : PairKind) : Option KeyPair :=
  c.envelope.bind fun envelope => pairIn (sealedSpaces envelope) space k

def mapPair (c : Core) (space : SpaceId) (k : PairKind) : Option KeyPair :=
  c.unlocked.bind fun unlocked => pairIn unlocked.spaces space k

/-- A space that is on the device and is not to be forgotten. -/
def Live (c : Core) (space : SpaceId) : Prop := space ∈ c.registered ∧ space ∉ c.forgotten

instance (c : Core) (space : SpaceId) : Decidable (c.Live space) :=
  inferInstanceAs (Decidable (_ ∧ _))

/-- The pairs of the open space are loaded, and can be exported. -/
def Ready (c : Core) : Prop :=
  ∀ x ∈ c.active, c.Live x → ∀ k, ∀ p ∈ (c.metaPair x k).toList ++ (c.vaultPair x k).toList,
    openPair c.secrets k = some p ∧ p.exportable = true

instance (c : Core) : Decidable c.Ready := inferInstanceAs (Decidable (∀ x ∈ c.active, c.Live x →
  ∀ k, ∀ p ∈ (c.metaPair x k).toList ++ (c.vaultPair x k).toList, openPair c.secrets k = some p ∧
  p.exportable = true))

end Core

/-- What an operation may rely on across an `await`. -/
inductive Part where
  | active | opened | map | unlocked | vaultKey | envelope | envelopePairs | vaultPairs |
      metaPairs | mapPairs
deriving DecidableEq, Repr

/-- That part is as it was, for the spaces that stay. -/
def Part.Same (c seen : Core) : Part → Prop
  | .active => c.active = seen.active
  | .opened => ∀ k, openPair c.secrets k = openPair seen.secrets k
  | .map => c.unlocked.map Unlocked.id = seen.unlocked.map Unlocked.id
  | .unlocked => c.unlocked.isSome = seen.unlocked.isSome
  | .vaultKey => c.vaultKey = seen.vaultKey
  | .envelope => c.envelope.isSome = seen.envelope.isSome
  | .envelopePairs => ∀ x ∈ c.registered, c.Live x → ∀ k, c.envelopePair x k = seen.envelopePair x k
  | .vaultPairs => ∀ x ∈ c.registered, c.Live x → ∀ k, c.vaultPair x k = seen.vaultPair x k
  | .metaPairs => ∀ x ∈ c.registered, c.Live x → ∀ k, c.metaPair x k = seen.metaPair x k
  | .mapPairs => ∀ x ∈ c.registered, c.Live x → ∀ k, c.mapPair x k = seen.mapPair x k

instance (c seen : Core) : (part : Part) → Decidable (part.Same c seen)
  | .active => inferInstanceAs (Decidable (c.active = seen.active))
  | .opened => inferInstanceAs (Decidable (∀ k, openPair c.secrets k = openPair seen.secrets k))
  | .map => inferInstanceAs (Decidable (c.unlocked.map Unlocked.id = seen.unlocked.map Unlocked.id))
  | .unlocked => inferInstanceAs (Decidable (c.unlocked.isSome = seen.unlocked.isSome))
  | .vaultKey => inferInstanceAs (Decidable (c.vaultKey = seen.vaultKey))
  | .envelope => inferInstanceAs (Decidable (c.envelope.isSome = seen.envelope.isSome))
  | .envelopePairs =>
      inferInstanceAs
        (Decidable (∀ x ∈ c.registered, c.Live x → ∀ k, c.envelopePair x k = seen.envelopePair x k))
  | .vaultPairs =>
      inferInstanceAs
        (Decidable (∀ x ∈ c.registered, c.Live x → ∀ k, c.vaultPair x k = seen.vaultPair x k))
  | .metaPairs =>
      inferInstanceAs
        (Decidable (∀ x ∈ c.registered, c.Live x → ∀ k, c.metaPair x k = seen.metaPair x k))
  | .mapPairs =>
      inferInstanceAs
        (Decidable (∀ x ∈ c.registered, c.Live x → ∀ k, c.mapPair x k = seen.mapPair x k))

/-- What the source takes for unchanged where an operation goes on. -/
def Pc.relies : Pc → List Part
  | .listing _ _ | .collecting _ _ _ _ | .rewriting _ _ _ => [.envelope, .vaultPairs, .metaPairs]
  | .sealing _ _ _ | .writing _ _ => [.envelope, .vaultPairs, .unlocked, .mapPairs]
  | .dropping _ _ | .opening _ _ | .clearing _ _ | .unnaming _ | .unvaulting _ => [.vaultPairs]
  | .serializingKeyring _ _ _ _ | .serializingDevice _ _ _ _ _ | .serializingSigning _ _ _ _ _ _ =>
      [.active, .opened, .map, .vaultKey, .envelope]
  | .exporting _ _ _ _ | .resealing _ _ _ _ _ => [.unlocked, .mapPairs]
  | .storing _ _ => [.unlocked, .mapPairs, .envelopePairs]
  | .restoring _ | .opened | .removing => [.vaultPairs, .metaPairs]
  | .looking _ => [.opened]
  | .remembering _ | .reading _ | .loadingKeyring _ _ | .loadingDevice _ _ |
      .loadingSigning _ _ => [.active]
  | .erasing _ | .unregistering _ | .unwrapping _ _ _ | .rotating _ _ _ _ | .saving _ _ _ _ |
      .acking _ _ _
  | .noting _ _ => []

/-- The keyring that this step takes into use sets a refresh going. -/
def Pc.refreshes (c : Core) : Pc → Bool
  | .noting _ keyring => (c.applyKeyring keyring).2.isSome
  | _ => false

/-- The lock is turned on where no envelope is stored, a refresh is asked for where the pairs of
the open space are loaded and can be exported, and what goes on finds what it relies on as it
left it. -/
def Careful (p : Page) : Event → Prop
  | .enableLock _ _ => p.core.vault = none
  | .refreshVault => p.core.Ready
  | .task k _ => ∀ task ∈ p.tasks[k]?, (∀ part ∈ task.pc.relies, part.Same p.core task.seen) ∧
      (task.pc.refreshes p.core = true → p.core.Ready)
  | _ => True

instance (p : Page) : (e : Event) → Decidable (Careful p e)
  | .enableLock _ _ => inferInstanceAs (Decidable (p.core.vault = none))
  | .refreshVault => inferInstanceAs (Decidable p.core.Ready)
  | .task k _ =>
      inferInstanceAs
        (Decidable (∀ task ∈ p.tasks[k]?, (∀ part ∈ task.pc.relies, part.Same p.core task.seen) ∧
      (task.pc.refreshes p.core = true → p.core.Ready)))
  | .unlock _ | .lockNow | .disableLock | .forgetSpace _ | .applyRoute _ | .closeSpace |
      .adoptPendingKeys _
  | .rotateGroupKey _ _ | .restart => .isTrue trivial

variable (had : SpaceId → PairKind → Option KeyPair)

/-- Each pair that a space had is in its own store or under its name in the envelope, and no other
space's is; the envelope in memory and the map of an unlocked device have what the stored envelope
has. -/
structure Kept (c : Core) : Prop where
  held : ∀ x, c.Live x → ∀ k p, had x k = some p → c.metaPair x k = some p ∨
    c.vaultPair x k = some p
  «meta» : ∀ x, c.Live x → ∀ k p, c.metaPair x k = some p → had x k = some p
  vault : ∀ x, c.Live x → ∀ k p, c.vaultPair x k = some p → had x k = some p
  envelope : ∀ x, c.Live x → ∀ k p, c.envelopePair x k = some p → had x k = some p
  map : ∀ x, c.Live x → ∀ k p, c.mapPair x k = some p → had x k = some p
  opened : ∀ x, c.Live x → c.active = some x → ∀ k p, openPair c.secrets k = some p →
    had x k = some p
  covers : c.unlocked.isSome = true → ∀ x, c.Live x → ∀ k p, c.vaultPair x k = some p →
    c.mapPair x k = some p
  newer : c.envelope.isSome = true → ∀ x, c.Live x → ∀ k p, c.vaultPair x k = some p →
    c.envelopePair x k = some p
  keys : c.vaultKey.isSome = true → c.contentKey.isSome = true

/-- The pairs that were collected are those in the stores. -/
def Collected (s : Core) (collected : Table SpaceSecrets.spaceId) : Prop :=
  ∀ x, s.Live x → ∀ k p, pairIn collected x k = some p → s.metaPair x k = some p

def NoVault (s : Core) : Prop := ∀ x, s.Live x → ∀ k, s.vaultPair x k = none

/-- No envelope has any pair, and the page knows of none. -/
def Unsealed (s : Core) : Prop := s.envelope.isSome = false ∧ NoVault s

/-- The map has these spaces' pairs. -/
def Mapped (s : Core) (spaces : Table SpaceSecrets.spaceId) : Prop :=
  s.unlocked.isSome = true ∧ ∀ x, s.Live x → ∀ k, s.mapPair x k = pairIn spaces x k

/-- The refresh of this space finds its pairs. -/
structure Refreshing (s : Core) (x : SpaceId) (map : ℕ) : Prop where
  active : s.active = some x
  map : s.unlocked.map Unlocked.id = some map
  vaultKey : s.vaultKey.isSome = true
  envelope : s.envelope.isSome = true
  ready : s.Live x → ∀ k p, had x k = some p → openPair s.secrets k = some p ∧ p.exportable = true

def AfterFact (s : Core) : AfterSeal → Prop
  | .refresh x => s.Live x → ∀ k p, had x k = some p → s.mapPair x k = some p
  | .forget x => x ∈ s.forgotten

/-- What is left to delete stands in the envelope. -/
def Drops (envelope : VaultEnvelope) (drops : List (SpaceId × MetaKey)) : Prop :=
  ∀ x k, (x, PairKind.key k) ∈ drops → (pairIn (sealedSpaces envelope) x k).isSome = true

/-- What an operation knows when it stops at an await. -/
def Fact (s : Core) : Pc → Prop
  | .listing _ _ => Unsealed s
  | .collecting _ _ _ collected | .rewriting _ _ collected => Unsealed s ∧ Collected s collected
  | .sealing _ _ collected => Unsealed s ∧ Mapped s collected
  | .writing envelope drops => Unsealed s ∧ Mapped s (sealedSpaces envelope) ∧ Drops envelope drops
  | .dropping envelope drops =>
      (∀ x, s.Live x → ∀ k, s.vaultPair x k = pairIn (sealedSpaces envelope) x k) ∧
        Drops envelope drops
  | .opening _ envelope => ∀ x, s.Live x → ∀ k p,
      (s.vaultPair x k = some p → pairIn (sealedSpaces envelope) x k = some p) ∧
      (pairIn (sealedSpaces envelope) x k = some p → had x k = some p)
  | .serializingKeyring x map _ _ => Refreshing had s x map
  | .serializingDevice x map _ _ pair => Refreshing had s x map ∧
      openPair s.secrets .device = some pair
  | .serializingSigning x map _ _ device pair => Refreshing had s x map ∧
      device = (openPair s.secrets .device).bind serializeKeyPair ∧
      openPair s.secrets .signing = some pair
  | .clearing x _ => s.Live x → ∀ k p, had x k = some p → s.vaultPair x k = some p
  | .exporting _ spaces _ after | .resealing _ spaces _ _ after => Mapped s spaces ∧
      AfterFact had s after
  | .storing envelope after => Mapped s (sealedSpaces envelope) ∧ AfterFact had s after ∧
      ∀ x, s.Live x → ∀ k, s.envelopePair x k = pairIn (sealedSpaces envelope) x k
  | .restoring left => (∀ x, s.Live x → ∀ k p, s.vaultPair x k = some p →
        s.metaPair x k = some p ∨ ∃ entry, (x, entry) ∈ left ∧ entryPair entry k = some p) ∧
      ∀ x, s.Live x → ∀ entry, (x, entry) ∈ left → ∀ k p, entryPair entry k = some p →
        had x k = some p
  | .opened | .removing => ∀ x, s.Live x → ∀ k p, s.vaultPair x k = some p → s.metaPair x k = some p
  | .unnaming x | .unvaulting x => NoVault s ∧ x ∈ s.forgotten
  | .erasing x | .unregistering x => x ∈ s.forgotten
  | .looking _ => ∀ k, openPair s.secrets k = none
  | .remembering x | .reading x => s.active = some x
  | .loadingKeyring x secrets | .loadingDevice x secrets | .loadingSigning x secrets =>
      s.active = some x ∧ (s.Live x → ∀ k p, sealedPair secrets k = some p → had x k = some p)
  | .unwrapping _ _ _ | .rotating _ _ _ _ | .saving _ _ _ _ | .acking _ _ _ | .noting _ _ => True

theorem metaPair_set (m : SpaceMeta) (entry : MetaEntry) (k : PairKind) :
    metaPair (m.set entry) k = (entryPair entry k).or (metaPair m k) := by
  cases entry <;> cases k <;> rfl

theorem metaPair_delete (m : SpaceMeta) (key : MetaKey) (k : PairKind) :
    metaPair (m.delete key) k = if key = k.key then none else metaPair m k := by
  cases key <;> cases k <;> rfl

theorem metaPair_upgraded (m : SpaceMeta) (k : PairKind) :
    metaPair (Core.upgraded m) k = metaPair m k := by
  unfold Core.upgraded
  split <;> cases k <;> rfl

theorem Core.metaPair_setMeta (c : Core) (x q : SpaceId) (m : SpaceMeta) (k : PairKind) :
    (c.setMeta x m).metaPair q k = if q = x then Lock.metaPair m k else c.metaPair q k := by
  have hmeta : (c.setMeta x m).meta q = if q = x then m else c.meta q := Function.update_apply ..
  unfold Core.metaPair
  rw [hmeta]
  split_ifs <;> rfl

/-- What is loaded from a store is what the store has. -/
theorem openPair_load {m : SpaceMeta} (h : m.load.session.isSome = true) (k : PairKind) :
    openPair m.load k = metaPair m k := by
  unfold SpaceMeta.load at h ⊢
  split at h
  · next hpair => cases k <;> simp [openPair, metaPair, hpair]
  · cases h

theorem import_serialize {pair : Option KeyPair} {p : KeyPair}
    (h : (pair.bind serializeKeyPair).map importKeyPair = some p) : pair = some p := by
  obtain ⟨stored, hstored, rfl⟩ := Option.map_eq_some_iff.mp h
  obtain ⟨pair, rfl, hpair⟩ := Option.bind_eq_some_iff.mp hstored
  rw [importKeyPair_of_serialize hpair]

theorem serialize_import {p : KeyPair} (h : p.exportable = true) :
    ((some p).bind serializeKeyPair).map importKeyPair = some p := by
  simp [serializeKeyPair, importKeyPair, h]
  cases p
  simp_all

theorem pairIn_put (t : Table SpaceSecrets.spaceId) (secrets : SpaceSecrets) (x : SpaceId)
    (k : PairKind) :
    pairIn (t.put secrets) x k =
      if x = secrets.spaceId then sealedPair secrets k else pairIn t x k := by
  unfold pairIn
  rw [Table.get?_put]
  split_ifs <;> rfl

theorem pairIn_delete (t : Table SpaceSecrets.spaceId) {x y : SpaceId} (hne : y ≠ x)
    (k : PairKind) :
    pairIn (t.delete fun secrets => decide (secrets.spaceId = x)) y k = pairIn t y k := by
  unfold pairIn
  rw [Table.get?_delete]
  cases h : t.get? y with
  | none => rfl
  | some secrets =>
    have hy : secrets.spaceId = y := (Table.get?_eq_some.mp h).2
    simp [Option.filter, hy, hne]

/-- The pairs among the entries are those that were sealed. -/
theorem sealedPair_eq_some {secrets : SpaceSecrets} {k : PairKind} {p : KeyPair} :
    sealedPair secrets k = some p ↔ ∃ entry ∈ secrets.entries, entryPair entry k = some p := by
  constructor
  · intro h
    cases k with
    | device =>
      obtain ⟨pair, hpair, rfl⟩ := Option.map_eq_some_iff.mp h
      exact ⟨.deviceKeyPair (importKeyPair pair),
        SpaceSecrets.mem_entries.mpr (.inr (.inr (.inl ⟨pair, hpair, rfl⟩))), rfl⟩
    | signing =>
      obtain ⟨pair, hpair, rfl⟩ := Option.map_eq_some_iff.mp h
      exact ⟨.signingKeyPair (importKeyPair pair),
        SpaceSecrets.mem_entries.mpr (.inr (.inr (.inr ⟨pair, hpair, rfl⟩))), rfl⟩
  · rintro ⟨entry, hentry, hp⟩
    rcases SpaceSecrets.mem_entries.mp hentry with rfl | rfl | ⟨pair, hpair, rfl⟩ |
      ⟨pair, hpair, rfl⟩ <;>
      cases k <;> simp_all [entryPair, sealedPair]

theorem sealedPair_isSome {secrets : SpaceSecrets} {entry : MetaEntry} {k : PairKind}
    (hentry : entry ∈ secrets.entries) (hk : entry.key = k.key) :
    (sealedPair secrets k).isSome = true := by
  rcases SpaceSecrets.mem_entries.mp hentry with rfl | rfl | ⟨pair, hpair, rfl⟩ |
    ⟨pair, hpair, rfl⟩ <;>
    cases k <;> simp_all [MetaEntry.key, PairKind.key, sealedPair]

theorem get?_of_mem_rows {spaces : Table SpaceSecrets.spaceId} {secrets : SpaceSecrets}
    (h : secrets ∈ spaces.rows) : spaces.get? secrets.spaceId = some secrets :=
  Table.get?_of_mem (Table.mem_def.mpr h)

theorem drops_plaintext (envelope : VaultEnvelope) :
    Drops envelope (Core.plaintext (sealedSpaces envelope)) := by
  intro x k h
  obtain ⟨secrets, hmem, h⟩ := List.mem_flatMap.mp h
  obtain ⟨entry, hentry, h⟩ := List.mem_map.mp h
  obtain ⟨rfl, hk⟩ := Prod.mk.inj h
  rw [pairIn, get?_of_mem_rows hmem]
  exact sealedPair_isSome hentry hk

theorem Drops.tail {envelope : VaultEnvelope} {drop : SpaceId × MetaKey}
    {drops : List (SpaceId × MetaKey)}
    (h : Drops envelope (drop :: drops)) : Drops envelope drops :=
  fun x k hmem => h x k (List.mem_cons_of_mem _ hmem)

end SendSelf.Lock
