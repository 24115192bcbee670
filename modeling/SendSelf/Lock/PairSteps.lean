import SendSelf.Lock.KeyPairs

/-!
# What a step does to the pairs

What an operation knows at an `await` still holds where it goes on, if what it relies on is as it
was; and from what it knows, its next step keeps every pair.
-/
namespace SendSelf.Lock
open Runs
open DeviceStorage (LockOptions)

variable {had : SpaceId → PairKind → Option KeyPair} {c seen : Core}

/-- The history between the two states. -/
structure Since (seen c : Core) : Prop where
  registered : ∀ x ∈ c.registered, x ∈ seen.registered
  forgotten : ∀ x ∈ seen.forgotten, x ∈ c.forgotten

theorem Since.refl (c : Core) : Since c c := ⟨fun _ h => h, fun _ h => h⟩

theorem Since.trans {a b d : Core} (h : Since a b) (h' : Since b d) : Since a d :=
  ⟨fun x hx => h.registered x (h'.registered x hx), fun x hx => h'.forgotten x (h.forgotten x hx)⟩

theorem Since.live (h : Since seen c) {x : SpaceId} (hx : c.Live x) : seen.Live x :=
  ⟨h.registered x hx.1, fun hf => hx.2 (h.forgotten x hf)⟩

theorem NoVault.now (h : NoVault seen) (hs : Since seen c) (hv : Part.vaultPairs.Same c seen) :
    NoVault c :=
  fun x hx k => (hv x hx.1 hx k).trans (h x (hs.live hx) k)

theorem Unsealed.now (h : Unsealed seen) (hs : Since seen c) (he : Part.envelope.Same c seen)
    (hv : Part.vaultPairs.Same c seen) : Unsealed c :=
  ⟨Eq.trans he h.1, h.2.now hs hv⟩

theorem Collected.now {collected : Table SpaceSecrets.spaceId} (h : Collected seen collected)
    (hs : Since seen c) (hm : Part.metaPairs.Same c seen) : Collected c collected :=
  fun x hx k p hp => (hm x hx.1 hx k).trans (h x (hs.live hx) k p hp)

/-- The map has these spaces' pairs as long as it is the one that is unlocked. -/
theorem Mapped.now {spaces : Table SpaceSecrets.spaceId} (h : Mapped seen spaces)
    (hs : Since seen c)
    (hu : Part.unlocked.Same c seen) (hm : Part.mapPairs.Same c seen) : Mapped c spaces :=
  ⟨Eq.trans hu h.1, fun x hx k => (hm x hx.1 hx k).trans (h.2 x (hs.live hx) k)⟩

theorem AfterFact.now {after : AfterSeal} (h : AfterFact had seen after) (hs : Since seen c)
    (hm : Part.mapPairs.Same c seen) : AfterFact had c after := by
  cases after with
  | refresh x => exact fun hx k p hp => (hm x hx.1 hx k).trans (h (hs.live hx) k p hp)
  | forget x => exact hs.forgotten x h

theorem Refreshing.now {x : SpaceId} {map : ℕ} (h : Refreshing had seen x map) (hs : Since seen c)
    (ha : Part.active.Same c seen) (ho : Part.opened.Same c seen) (hm : Part.map.Same c seen)
    (hk : Part.vaultKey.Same c seen) (he : Part.envelope.Same c seen) : Refreshing had c x map where
  active := Eq.trans ha h.active
  map := Eq.trans hm h.map
  vaultKey := (congrArg Option.isSome hk).trans h.vaultKey
  envelope := Eq.trans he h.envelope
  ready := fun hx k p hhad => by
    rw [ho k]
    exact h.ready (hs.live hx) k p hhad

/-- What was known is still known where nothing that is relied on has changed. -/
theorem Fact.now {pc : Pc} (h : Fact had seen pc) (hs : Since seen c)
    (hp : ∀ part ∈ pc.relies, part.Same c seen) :
    Fact had c pc := by
  cases pc with
  | listing =>
    simp only [Pc.relies, List.forall_mem_cons] at hp
    exact Unsealed.now h hs hp.1 hp.2.1
  | collecting | rewriting =>
    simp only [Pc.relies, List.forall_mem_cons] at hp
    exact ⟨h.1.now hs hp.1 hp.2.1, h.2.now hs hp.2.2.1⟩
  | «sealing» =>
    simp only [Pc.relies, List.forall_mem_cons] at hp
    exact ⟨h.1.now hs hp.1 hp.2.1, h.2.now hs hp.2.2.1 hp.2.2.2.1⟩
  | writing =>
    simp only [Pc.relies, List.forall_mem_cons] at hp
    exact ⟨h.1.now hs hp.1 hp.2.1, h.2.1.now hs hp.2.2.1 hp.2.2.2.1, h.2.2⟩
  | dropping =>
    simp only [Pc.relies, List.forall_mem_cons] at hp
    exact ⟨fun x hx k => (hp.1 x hx.1 hx k).trans (h.1 x (hs.live hx) k), h.2⟩
  | opening =>
    simp only [Pc.relies, List.forall_mem_cons] at hp
    intro x hx k p
    rw [hp.1 x hx.1 hx k]
    exact h x (hs.live hx) k p
  | serializingKeyring =>
    simp only [Pc.relies, List.forall_mem_cons] at hp
    exact Refreshing.now h hs hp.1 hp.2.1 hp.2.2.1 hp.2.2.2.1 hp.2.2.2.2.1
  | serializingDevice =>
    simp only [Pc.relies, List.forall_mem_cons] at hp
    exact ⟨h.1.now hs hp.1 hp.2.1 hp.2.2.1 hp.2.2.2.1 hp.2.2.2.2.1, (hp.2.1 .device).trans h.2⟩
  | serializingSigning =>
    simp only [Pc.relies, List.forall_mem_cons] at hp
    refine ⟨h.1.now hs hp.1 hp.2.1 hp.2.2.1 hp.2.2.2.1 hp.2.2.2.2.1, ?_,
      (hp.2.1 .signing).trans h.2.2⟩
    rw [hp.2.1 .device]
    exact h.2.1
  | clearing x keys =>
    simp only [Pc.relies, List.forall_mem_cons] at hp
    intro hx k p hhad
    rw [hp.1 x hx.1 hx k]
    exact h (hs.live hx) k p hhad
  | exporting | resealing =>
    simp only [Pc.relies, List.forall_mem_cons] at hp
    exact ⟨h.1.now hs hp.1 hp.2.1, h.2.now hs hp.2.1⟩
  | storing =>
    simp only [Pc.relies, List.forall_mem_cons] at hp
    exact ⟨h.1.now hs hp.1 hp.2.1, h.2.1.now hs hp.2.1,
      fun x hx k => (hp.2.2.1 x hx.1 hx k).trans (h.2.2 x (hs.live hx) k)⟩
  | restoring =>
    simp only [Pc.relies, List.forall_mem_cons] at hp
    refine ⟨fun x hx k p => ?_, fun x hx => h.2 x (hs.live hx)⟩
    rw [hp.1 x hx.1 hx k, hp.2.1 x hx.1 hx k]
    exact h.1 x (hs.live hx) k p
  | opened | removing =>
    simp only [Pc.relies, List.forall_mem_cons] at hp
    intro x hx k p
    rw [hp.1 x hx.1 hx k, hp.2.1 x hx.1 hx k]
    exact h x (hs.live hx) k p
  | unnaming x | unvaulting x =>
    simp only [Pc.relies, List.forall_mem_cons] at hp
    exact ⟨h.1.now hs hp.1, hs.forgotten x h.2⟩
  | erasing x | unregistering x => exact hs.forgotten x h
  | looking =>
    simp only [Pc.relies, List.forall_mem_cons] at hp
    exact fun k => (hp.1 k).trans (h k)
  | remembering | reading =>
    simp only [Pc.relies, List.forall_mem_cons] at hp
    exact Eq.trans hp.1 h
  | loadingKeyring | loadingDevice | loadingSigning =>
    simp only [Pc.relies, List.forall_mem_cons] at hp
    exact ⟨Eq.trans hp.1 h.1, fun hx => h.2 (hs.live hx)⟩
  | unwrapping | rotating | saving | acking | noting => trivial

/-- A write to a store keeps the pairs if those it takes away are in the envelope. -/
theorem Kept.setMeta (h : Kept had c) {x : SpaceId} {m : SpaceMeta}
    (hm : c.Live x → ∀ k p, metaPair m k = some p → had x k = some p)
    (hheld : c.Live x → ∀ k p, had x k = some p → metaPair m k = some p ∨
      c.vaultPair x k = some p) :
    Kept had (c.setMeta x m) :=
  { h with
    held := fun q hq k p hp => by
      rw [Core.metaPair_setMeta]
      split_ifs with he
      · exact he ▸ hheld (he ▸ hq) k p (he ▸ hp)
      · exact h.held q hq k p hp
    «meta» := fun q hq k p hp => by
      rw [Core.metaPair_setMeta] at hp
      split_ifs at hp with he
      · exact he ▸ hm (he ▸ hq) k p hp
      · exact h.meta q hq k p hp }

/-- A store that keeps its pairs. -/
theorem Kept.setMeta_same (h : Kept had c) {x : SpaceId} {m : SpaceMeta}
    (hm : ∀ k, metaPair m k = c.metaPair x k) : Kept had (c.setMeta x m) :=
  h.setMeta (fun hx k p hp => h.meta x hx k p (hm k ▸ hp)) fun hx k p hp => by
    rw [hm k]
    exact h.held x hx k p hp

/-- What goes from a store is in the envelope. -/
theorem Kept.delete (h : Kept had c) {x : SpaceId} {key : MetaKey}
    (hkey : c.Live x → ∀ k, key = k.key → ∀ p, had x k = some p → c.vaultPair x k = some p) :
    Kept had (c.setMeta x ((c.meta x).delete key)) := by
  refine h.setMeta (fun hx k p hp => ?_) fun hx k p hp => ?_
  · rw [metaPair_delete] at hp
    split_ifs at hp
    exact h.meta x hx k p hp
  · rw [metaPair_delete]
    split_ifs with he
    · exact .inr (hkey hx k he p hp)
    · exact h.held x hx k p hp

theorem Kept.opens (h : Kept had c) {active : Option SpaceId} {secrets : OpenSecrets}
    (ho : ∀ x, c.Live x → active = some x → ∀ k p, openPair secrets k = some p → had x k = some p) :
    Kept had { c with active, secrets } :=
  { h with opened := ho }

theorem Kept.vault_none (h : Kept had c)
    (hv : ∀ x, c.Live x → ∀ k p, c.vaultPair x k = some p → c.metaPair x k = some p) :
    Kept had { c with vault := none } where
  held x hx k p hp := (h.held x hx k p hp).elim .inl fun hvault => .inl (hv x hx k p hvault)
  «meta» := h.meta
  vault _ _ _ _ hp := by cases hp
  envelope := h.envelope
  map := h.map
  opened := h.opened
  covers _ _ _ _ _ hp := by cases hp
  newer _ _ _ _ _ hp := by cases hp
  keys := h.keys

/-- The envelope that is stored has what the map has. -/
theorem Kept.vault_some (h : Kept had c) {envelope : VaultEnvelope}
    (hm : Mapped c (sealedSpaces envelope)) (he : c.envelope.isSome = true → ∀ x, c.Live x → ∀ k,
      c.envelopePair x k = pairIn (sealedSpaces envelope) x k) :
    Kept had { c with vault := some envelope } where
  held x hx k p hp := (h.held x hx k p hp).elim .inl fun hvault =>
    .inr ((hm.2 x hx k).symm.trans (h.covers hm.1 x hx k p hvault))
  «meta» := h.meta
  vault x hx k p hp := h.map x hx k p ((hm.2 x hx k).trans hp)
  envelope := h.envelope
  map := h.map
  opened := h.opened
  covers _ x hx k _ hp := (hm.2 x hx k).trans hp
  newer hsome x hx k _ hp := (he hsome x hx k).trans hp
  keys := h.keys

theorem Kept.envelope_some (h : Kept had c) {envelope : VaultEnvelope}
    (hhad : ∀ x, c.Live x → ∀ k p, pairIn (sealedSpaces envelope) x k = some p → had x k = some p)
    (hv : ∀ x, c.Live x → ∀ k p, c.vaultPair x k = some p →
      pairIn (sealedSpaces envelope) x k = some p) :
    Kept had { c with envelope := some envelope } :=
  { h with envelope := hhad, newer := fun _ => hv }

/-- The keys and the spaces of an unlock. -/
theorem Kept.newMap (h : Kept had c) {keys : UnlockedKeys} {spaces : Table SpaceSecrets.spaceId}
    (hhad : ∀ x, c.Live x → ∀ k p, pairIn spaces x k = some p → had x k = some p)
    (hv : ∀ x, c.Live x → ∀ k p, c.vaultPair x k = some p → pairIn spaces x k = some p) :
    Kept had (Core.newMap { c with
      contentKey := some keys.contentKey, vaultKey := some keys.vaultKey } spaces) :=
  { h with map := hhad, covers := fun _ => hv, keys := fun _ => rfl }

theorem Kept.forgetLock (h : Kept had c) (hv : NoVault c) :
    Kept had { c with vault := none }.forgetLock := by
  have hnone : Kept had { c with vault := none } :=
    h.vault_none fun x hx k p hp => by
      rw [hv x hx k] at hp
      cases hp
  exact
    { hnone with
      envelope := fun _ _ _ _ hp => by cases hp
      map := fun _ _ _ _ hp => by cases hp
      covers := fun hsome => by cases hsome
      newer := fun hsome => by cases hsome
      keys := fun hsome => by cases hsome }

/-- Fewer spaces stay. -/
theorem Kept.fewer (h : Kept had c) {c' : Core} (hs : Since c c')
    (hsame : c' = { c with registered := c'.registered, forgotten := c'.forgotten }) :
    Kept had c' := by
  rw [hsame] at hs ⊢
  exact
    { held := fun x hx => h.held x (hs.live hx)
      «meta» := fun x hx => h.meta x (hs.live hx)
      vault := fun x hx => h.vault x (hs.live hx)
      envelope := fun x hx => h.envelope x (hs.live hx)
      map := fun x hx => h.map x (hs.live hx)
      opened := fun x hx => h.opened x (hs.live hx)
      covers := fun hsome x hx => h.covers hsome x (hs.live hx)
      newer := fun hsome x hx => h.newer hsome x (hs.live hx)
      keys := h.keys }

/-- Every pair is kept, and the operation knows what it needs for its next step. -/
def Goes (had : SpaceId → PairKind → Option KeyPair) (next : Core × Option Pc) : Prop :=
  Kept had next.1 ∧ ∀ pc ∈ next.2, Fact had next.1 pc

theorem Goes.on (h : Kept had c) {pc : Pc} (hf : Fact had c pc) : Goes had (c, some pc) :=
  ⟨h, fun next hnext => by
    obtain rfl := Option.some.inj hnext
    exact hf⟩

theorem Goes.stop (h : Kept had c) : Goes had (c, none) := ⟨h, fun _ hnext => by cases hnext⟩

theorem fact_collectOn {options : LockOptions} {keys : UnlockedKeys}
    {collected : Table SpaceSecrets.spaceId}
    (hu : Unsealed c) (hc : Collected c collected) (left : List SpaceId) :
    Fact had c (Core.collectOn options keys collected left) := by
  cases left <;> exact ⟨hu, hc⟩

theorem collected_put {collected : Table SpaceSecrets.spaceId} (hc : Collected c collected)
    {x : SpaceId}
    {secrets : SpaceSecrets} (h : Core.secretsFromStorage x (c.meta x) = some secrets) :
    Collected c (collected.put secrets) := by
  unfold Core.secretsFromStorage at h
  split at h
  · obtain rfl := Option.some.inj h
    intro y hy k p hp
    rw [pairIn_put] at hp
    split_ifs at hp with he
    · obtain rfl : y = x := he
      cases k <;> exact import_serialize hp
    · exact hc y hy k p hp
  · cases h

/-- Collecting the secrets only reads. -/
theorem goes_collecting (h : Kept had c) (input : Input) (options : LockOptions)
    (keys : UnlockedKeys)
    (left : List SpaceId) {collected : Table SpaceSecrets.spaceId} (hu : Unsealed c)
    (hc : Collected c collected) :
    Goes had (c.advance input (.collecting options keys left collected)) := by
  cases left with
  | nil => exact .on h ⟨hu, hc⟩
  | cons x left =>
    have hsame := metaPair_upgraded (c.meta x)
    have hmeta : ∀ q k,
        (c.setMeta x (Core.upgraded (c.meta x))).metaPair q k = c.metaPair q k := fun q k => by
      rw [Core.metaPair_setMeta]
      split_ifs with he
      · rw [he, hsame]; rfl
      · rfl
    refine .on (h.setMeta_same hsame)
      (fact_collectOn (c := c.setMeta x (Core.upgraded (c.meta x))) hu ?_ left)
    have hcollected : ∀ {spaces}, Collected c spaces →
        Collected (c.setMeta x (Core.upgraded (c.meta x))) spaces :=
      fun hs q hq k p hp => (hmeta q k).trans (hs q hq k p hp)
    split
    · next secrets hsecrets => exact hcollected (collected_put hc hsecrets)
    · exact hcollected hc

theorem goes_rewriting (h : Kept had c) (input : Input) (options : LockOptions)
    (keys : UnlockedKeys)
    {collected : Table SpaceSecrets.spaceId} (hu : Unsealed c) (hc : Collected c collected) :
    Goes had (c.advance input (.rewriting options keys collected)) :=
  .on (h.newMap (fun x hx k p hp => h.meta x hx k p (hc x hx k p hp)) fun x hx k p hp => by
    rw [hu.2 x hx k] at hp
    cases hp) ⟨hu, rfl, fun _ _ _ => rfl⟩

theorem goes_dropOn (h : Kept had c) {envelope : VaultEnvelope} {drops : List (SpaceId × MetaKey)}
    (hv : ∀ x, c.Live x → ∀ k, c.vaultPair x k = pairIn (sealedSpaces envelope) x k)
    (hd : Drops envelope drops) :
    Goes had (c.dropOn envelope drops) := by
  cases drops with
  | nil =>
    have hkept : Kept had { c with envelope := some envelope } :=
      h.envelope_some (fun x hx k p hp => h.vault x hx k p ((hv x hx k).trans hp))
        fun x hx k p hp => (hv x hx k).symm.trans hp
    exact .stop { hkept with }
  | cons drop drops => exact .on h ⟨hv, hd⟩

/-- The envelope that is written has the pairs that were collected. -/
theorem goes_writing (h : Kept had c) (input : Input) {envelope : VaultEnvelope}
    {drops : List (SpaceId × MetaKey)}
    (hu : Unsealed c) (hm : Mapped c (sealedSpaces envelope)) (hd : Drops envelope drops) :
    Goes had (c.advance input (.writing envelope drops)) := by
  refine goes_dropOn (h.vault_some hm fun hsome => ?_) (fun _ _ _ => rfl) hd
  rw [hu.1] at hsome
  cases hsome

theorem goes_dropping (h : Kept had c) (input : Input) {envelope : VaultEnvelope}
    {drops : List (SpaceId × MetaKey)}
    (hv : ∀ x, c.Live x → ∀ k, c.vaultPair x k = pairIn (sealedSpaces envelope) x k)
    (hd : Drops envelope drops) : Goes had (c.advance input (.dropping envelope drops)) := by
  cases drops with
  | nil => exact goes_dropOn h hv hd
  | cons drop drops =>
    refine goes_dropOn (h.delete fun hx k hk p hp => ?_) hv hd.tail
    have hsome := hd drop.1 k (by rw [← hk]; exact List.mem_cons_self)
    rw [← hv drop.1 hx k] at hsome
    obtain ⟨q, hq⟩ := Option.isSome_iff_exists.mp hsome
    rwa [Option.some.inj (hp.symm.trans (h.vault _ hx k q hq))]

/-- The map that an unlock makes has the pairs of the envelope. -/
theorem goes_opening (h : Kept had c) (input : Input) (user : User) {envelope : VaultEnvelope}
    (hf : Fact had c (.opening user envelope)) :
    Goes had (c.advance input (.opening user envelope)) := by
  simp only [Core.advance]
  split
  · next keys spaces hopen =>
    obtain ⟨keys', _, hopen⟩ := Option.bind_eq_some_iff.mp hopen
    obtain ⟨stored, hstored, he⟩ := Option.map_eq_some_iff.mp hopen
    obtain ⟨rfl, rfl⟩ := Prod.mk.inj he
    have hpayload : normalize stored = sealedSpaces envelope := by
      rcases Option.or_eq_some_iff.mp hstored with hstored | ⟨_, hstored⟩ <;>
        exact congrArg (fun sealed => normalize (Sealed.payload sealed))
          (Sealed.openWith_eq_some.mp hstored).symm
    rw [hpayload]
    have hkept : Kept had (Core.newMap
        { c with contentKey := some keys'.contentKey, vaultKey := some keys'.vaultKey }
          (sealedSpaces envelope)) :=
      h.newMap (fun x hx k p => (hf x hx k p).2) fun x hx k p => (hf x hx k p).1
    exact .stop { hkept with }
  · exact .stop h

theorem fact_refreshVault (h : Kept had c) (hr : c.Ready) {pc : Pc}
    (hpc : c.refreshVault = some pc) :
    Fact had c pc := by
  unfold Core.refreshVault at hpc
  split at hpc
  · next envelope vaultKey unlocked x session keyring he hk hu ha hs hring =>
    split_ifs at hpc
    obtain rfl := Option.some.inj hpc
    refine ⟨ha, by rw [hu]; rfl, by rw [hk]; rfl, by rw [he]; rfl, fun hx k p hp => ?_⟩
    refine hr x ha hx k p (List.mem_append.mpr ?_)
    exact (h.held x hx k p hp).imp (fun hm => Option.mem_toList.mpr hm) fun hv =>
      Option.mem_toList.mpr hv
  · cases hpc

theorem fact_reseal {after : AfterSeal} (hu : c.unlocked.isSome = true) (hf : AfterFact had c after)
    (hskip : c.contentKey = none ∨ c.envelope = none ∨ c.vaultKey = none →
      Fact had c (Core.afterSeal after)) :
    Fact had c (c.reseal after) := by
  unfold Core.reseal
  split
  · next contentKey envelope vaultKey unlocked hck he hk hunlocked =>
    refine ⟨⟨hu, fun x _ k => ?_⟩, hf⟩
    rw [Core.mapPair, hunlocked]
    rfl
  · next hnone =>
    obtain ⟨unlocked, hunlocked⟩ := Option.isSome_iff_exists.mp hu
    refine hskip ?_
    by_contra hall
    push Not at hall
    obtain ⟨hck, he, hk⟩ := hall
    obtain ⟨contentKey, hck⟩ := Option.ne_none_iff_exists'.mp hck
    obtain ⟨envelope, he⟩ := Option.ne_none_iff_exists'.mp he
    obtain ⟨vaultKey, hk⟩ := Option.ne_none_iff_exists'.mp hk
    exact hnone _ _ _ _ hck he hk hunlocked

theorem mapPair_put {map : ℕ} (hmap : c.unlocked.map Unlocked.id = some map)
    (secrets : SpaceSecrets) (x : SpaceId) (k : PairKind) : (c.put map secrets).mapPair x k =
      if x = secrets.spaceId then sealedPair secrets k else c.mapPair x k := by
  obtain ⟨unlocked, hunlocked, hid⟩ := Option.map_eq_some_iff.mp hmap
  have hput : (c.put map secrets).unlocked =
      some { unlocked with spaces := unlocked.spaces.put secrets } := by
    simp only [Core.put, hunlocked, Option.map_some, if_pos hid]
  simp only [Core.mapPair, hput, hunlocked, Option.bind_some, pairIn_put]

/-- The open space goes into the map with the pairs that it is open with. -/
theorem goes_putSecrets (h : Kept had c) {map : ℕ} {secrets : SpaceSecrets}
    (hr : Refreshing had c secrets.spaceId map)
    (hs : ∀ k,
      sealedPair secrets k = ((openPair c.secrets k).bind serializeKeyPair).map importKeyPair) :
    Goes had (Prod.map id some (c.putSecrets map secrets)) := by
  have hmap := mapPair_put hr.map secrets
  have hu : (c.put map secrets).unlocked.isSome = true := by
    obtain ⟨unlocked, hunlocked, _⟩ := Option.map_eq_some_iff.mp hr.map
    simp only [Core.put, hunlocked, Option.map_some, Option.isSome_some]
  have hall : c.Live secrets.spaceId → ∀ k p, had secrets.spaceId k = some p →
      sealedPair secrets k = some p := by
    intro hx k p hp
    obtain ⟨hopen, hexport⟩ := hr.ready hx k p hp
    rw [hs k, hopen]
    exact serialize_import hexport
  have hkept : Kept had (c.put map secrets) :=
    { h with
      map := fun x hx k p hp => by
        rw [hmap] at hp
        split_ifs at hp with he
        · exact h.opened x hx (by rw [he]; exact hr.active) k p
            (import_serialize (by rw [← hs k]; exact hp))
        · exact h.map x hx k p hp
      covers := fun _ x hx k p hp => by
        rw [hmap]
        split_ifs with he
        · exact hall (he ▸ hx) k p (he ▸ h.vault x hx k p hp)
        · refine h.covers ?_ x hx k p hp
          rw [← Option.isSome_map, hr.map]
          rfl }
  refine .on hkept (fact_reseal hu ?_ fun hskip => ?_)
  · intro hx k p hp
    rw [hmap, if_pos rfl]
    exact hall hx k p hp
  · have hck := h.keys hr.vaultKey
    rcases hskip with hnone | hnone | hnone
    · rw [show c.contentKey = none from hnone] at hck
      cases hck
    · have he := hr.envelope
      rw [show c.envelope = none from hnone] at he
      cases he
    · have hk := hr.vaultKey
      rw [show c.vaultKey = none from hnone] at hk
      cases hk

theorem goes_readSigning (h : Kept had c) {x : SpaceId} {map : ℕ} (hr : Refreshing had c x map)
    (session : Session) (keyring : Keyring) :
    Goes had (Prod.map id some (c.readSigning x map session keyring
        ((openPair c.secrets .device).bind serializeKeyPair))) := by
  unfold Core.readSigning
  split
  · next pair hpair => exact .on h ⟨hr, rfl, hpair⟩
  · next hnone =>
    refine goes_putSecrets h hr fun k => ?_
    cases k with
    | device => rfl
    | signing => simp [sealedPair, openPair, hnone]

theorem goes_readDevice (h : Kept had c) {x : SpaceId} {map : ℕ} (hr : Refreshing had c x map)
    (session : Session)
    (keyring : Keyring) : Goes had (Prod.map id some (c.readDevice x map session keyring)) := by
  unfold Core.readDevice
  split
  · next pair hpair => exact .on h ⟨hr, hpair⟩
  · next hnone =>
    have hread := goes_readSigning h hr session keyring
    rwa [show openPair c.secrets .device = none from hnone] at hread

theorem goes_serializingDevice (h : Kept had c) (input : Input) {x : SpaceId} {map : ℕ}
    {pair : KeyPair}
    (hr : Refreshing had c x map) (hp : openPair c.secrets .device = some pair) (session : Session)
    (keyring : Keyring) :
    Goes had (c.advance input (.serializingDevice x map session keyring pair)) := by
  have hread := goes_readSigning h hr session keyring
  rwa [hp] at hread

theorem goes_serializingSigning (h : Kept had c) (input : Input) {x : SpaceId} {map : ℕ}
    {pair : KeyPair}
    (hr : Refreshing had c x map) (hp : openPair c.secrets .signing = some pair) (session : Session)
    (keyring : Keyring) : Goes had (c.advance input (.serializingSigning x map session keyring
      ((openPair c.secrets .device).bind serializeKeyPair) pair)) := by
  refine goes_putSecrets h hr fun k => ?_
  cases k with
  | device => rfl
  | signing =>
    rw [hp]
    rfl

theorem goes_clearing (h : Kept had c) (input : Input) {x : SpaceId} (keys : List MetaKey)
    (hf : Fact had c (.clearing x keys)) : Goes had (c.advance input (.clearing x keys)) := by
  cases keys with
  | nil => exact .stop h
  | cons key keys =>
    have hkept : Kept had (c.setMeta x ((c.meta x).delete key)) :=
      h.delete fun hx k _ p hp => hf hx k p hp
    by_cases hkeys : keys = []
    · simpa only [Core.advance, if_pos hkeys] using Goes.stop hkept
    · have hon : Goes had (c.setMeta x ((c.meta x).delete key), some (.clearing x keys)) :=
        .on hkept hf
      simpa only [Core.advance, if_neg hkeys] using hon

theorem goes_exporting (h : Kept had c) (input : Input) {vaultKey : VaultKey}
    {spaces : Table SpaceSecrets.spaceId}
    {contentKey : ContentKey} {after : AfterSeal} (hm : Mapped c spaces)
    (ha : AfterFact had c after) :
    Goes had (c.advance input (.exporting vaultKey spaces contentKey after)) := by
  refine ⟨h, fun pc hpc => ?_⟩
  obtain ⟨parameters, _, rfl⟩ := Option.map_eq_some_iff.mp hpc
  exact ⟨hm, ha⟩

theorem goes_resealing (h : Kept had c) (input : Input) {vaultKey : VaultKey}
    {spaces : Table SpaceSecrets.spaceId}
    {contentKey : ContentKey} {parameters : VaultEnvelope} {after : AfterSeal}
    (hm : Mapped c spaces) (ha : AfterFact had c after) :
    Goes had (c.advance input (.resealing vaultKey spaces contentKey parameters after)) := by
  refine .on (h.envelope_some (fun x hx k p hp => ?_) fun x hx k p hp => ?_) ⟨hm, ha,
    fun _ _ _ => rfl⟩
  · exact h.map x hx k p ((hm.2 x hx k).trans hp)
  · exact (hm.2 x hx k).symm.trans (h.covers hm.1 x hx k p hp)

/-- The envelope of a refresh is stored before the pairs are deleted from their store. -/
theorem goes_storing (h : Kept had c) (input : Input) {envelope : VaultEnvelope} {after : AfterSeal}
    (hm : Mapped c (sealedSpaces envelope)) (ha : AfterFact had c after)
    (he : ∀ x, c.Live x → ∀ k, c.envelopePair x k = pairIn (sealedSpaces envelope) x k) :
    Goes had (c.advance input (.storing envelope after)) := by
  refine .on (h.vault_some hm fun _ => he) ?_
  cases after with
  | refresh x => exact fun hx k p hp => (hm.2 x hx k).symm.trans (ha hx k p hp)
  | forget x => exact ha

theorem fact_disableLock (h : Kept had c) {pc : Pc} (hpc : c.disableLock = some pc) :
    Fact had c pc := by
  unfold Core.disableLock at hpc
  split_ifs at hpc
  obtain ⟨unlocked, hunlocked, rfl⟩ := Option.map_eq_some_iff.mp hpc
  have hmap : ∀ x k, c.mapPair x k = pairIn unlocked.spaces x k := fun x k => by
    rw [Core.mapPair, hunlocked]
    rfl
  refine ⟨fun x hx k p hp => .inr ?_, fun x hx entry hentry k p hp => ?_⟩
  · have hpair := h.covers (by rw [hunlocked]; rfl) x hx k p hp
    rw [hmap] at hpair
    obtain ⟨secrets, hget, hsealed⟩ := Option.bind_eq_some_iff.mp hpair
    obtain ⟨entry, hentry, he⟩ := sealedPair_eq_some.mp hsealed
    obtain ⟨hmem, rfl⟩ := Table.get?_eq_some.mp hget
    exact ⟨entry, List.mem_flatMap.mpr ⟨secrets, hmem, List.mem_map.mpr ⟨entry, hentry, rfl⟩⟩, he⟩
  · obtain ⟨secrets, hmem, hin⟩ := List.mem_flatMap.mp hentry
    obtain ⟨entry', hentry', he⟩ := List.mem_map.mp hin
    obtain ⟨rfl, rfl⟩ := Prod.mk.inj he
    refine h.map _ hx k p ?_
    rw [hmap, pairIn, get?_of_mem_rows hmem]
    exact sealedPair_eq_some.mpr ⟨entry', hentry', hp⟩

/-- Turning the lock off writes every pair back before the envelope goes. -/
theorem goes_restoring (h : Kept had c) (input : Input) (left : List (SpaceId × MetaEntry))
    (hf : Fact had c (.restoring left)) : Goes had (c.advance input (.restoring left)) := by
  cases left with
  | nil =>
    refine .on h fun x hx k p hp => (hf.1 x hx k p hp).elim id ?_
    rintro ⟨entry, hentry, _⟩
    cases hentry
  | cons first left =>
    obtain ⟨x, entry⟩ := first
    have hentry : c.Live x → ∀ k p, entryPair entry k = some p → had x k = some p := fun hx =>
      hf.2 x hx entry List.mem_cons_self
    have hset : c.Live x → ∀ k p, c.metaPair x k = some p ∨ entryPair entry k = some p →
        metaPair ((c.meta x).set entry) k = some p := by
      intro hx k p hp
      rw [metaPair_set]
      cases he : entryPair entry k with
      | none => exact hp.elim id fun hp => by rw [he] at hp; cases hp
      | some q =>
        rcases hp with hp | hp
        · rw [Option.some.inj ((hentry hx k q he).symm.trans (h.meta x hx k p hp))]
          rfl
        · exact he.symm.trans hp
    have hkept : Kept had (c.setMeta x ((c.meta x).set entry)) := by
      refine h.setMeta (fun hx k p hp => ?_) fun hx k p hp => ?_
      · rw [metaPair_set] at hp
        rcases Option.or_eq_some_iff.mp hp with hp | ⟨_, hp⟩
        · exact hentry hx k p hp
        · exact h.meta x hx k p hp
      · exact (h.held x hx k p hp).imp_left fun hm => hset hx k p (.inl hm)
    have hrest : Fact had (c.setMeta x ((c.meta x).set entry)) (.restoring left) := by
      refine ⟨fun y hy k p hp => ?_, fun y hy e he => hf.2 y hy e (List.mem_cons_of_mem _ he)⟩
      rw [Core.metaPair_setMeta]
      rcases hf.1 y hy k p hp with hm | ⟨e, he, hpair⟩
      · left
        split_ifs with hyx
        · exact hset (hyx ▸ hy) k p (.inl (hyx ▸ hm))
        · exact hm
      · rcases List.mem_cons.mp he with heq | he
        · obtain ⟨rfl, rfl⟩ := Prod.mk.inj heq
          rw [if_pos rfl]
          exact .inl (hset hy k p (.inr hpair))
        · exact .inr ⟨e, he, hpair⟩
    cases left with
    | nil =>
      refine .on hkept fun y hy k p hp => (hrest.1 y hy k p hp).elim id ?_
      rintro ⟨e, he, _⟩
      cases he
    | cons next left => exact .on hkept hrest

theorem goes_opened (h : Kept had c) (input : Input) (hf : Fact had c .opened) :
    Goes had (c.advance input .opened) := by
  have hkept : Kept had { c with contentKey := none, vaultKey := none } :=
    { h with keys := fun hsome => by cases hsome }
  exact .on hkept hf

theorem goes_removing (h : Kept had c) (input : Input) (hf : Fact had c .removing) :
    Goes had (c.advance input .removing) := by
  have hnone := h.vault_none hf
  have hkept : Kept had { c with vault := none, envelope := none, locked := false } :=
    { hnone with
      envelope := fun _ _ _ _ hp => by cases hp
      newer := fun hsome => by cases hsome }
  exact .stop hkept

theorem goes_unvaulting (h : Kept had c) (input : Input) {x : SpaceId} (hv : NoVault c)
    (hx : x ∈ c.forgotten) :
    Goes had (c.advance input (.unvaulting x)) :=
  .on (h.forgetLock hv) hx

theorem goes_erasing (h : Kept had c) (input : Input) {x : SpaceId} (hx : x ∈ c.forgotten) :
    Goes had (c.advance input (.erasing x)) :=
  .on (h.setMeta (fun hlive => absurd hx hlive.2) fun hlive => absurd hx hlive.2) hx

theorem Kept.closeSpace (h : Kept had c) : Kept had c.closeSpace :=
  { h with opened := fun _ _ ha => by cases ha }

theorem goes_unregistering (h : Kept had c) (input : Input) (x : SpaceId) :
    Goes had (c.advance input (.unregistering x)) := by
  have hfewer : Kept had { c with registered := c.registered.filter fun id => decide (id ≠ x) } :=
    h.fewer ⟨fun y hy => (List.mem_filter.mp hy).1, fun _ hy => hy⟩ rfl
  simp only [Core.advance]
  split_ifs
  · exact .stop hfewer.closeSpace
  · exact .stop hfewer

theorem mapPair_removeFromMap {x y : SpaceId} (hne : y ≠ x) (k : PairKind) :
    (c.removeFromMap x).mapPair y k = c.mapPair y k := by
  unfold Core.mapPair Core.removeFromMap
  cases c.unlocked with
  | none => rfl
  | some unlocked => exact pairIn_delete unlocked.spaces hne k

theorem Kept.removeFromMap (h : Kept had c) {x : SpaceId} (hx : x ∈ c.forgotten) :
    Kept had (c.removeFromMap x) := by
  have hne : ∀ y, c.Live y → y ≠ x := fun y hy he => hy.2 (he ▸ hx)
  exact
    { h with
      map := fun y hy k p hp => h.map y hy k p ((mapPair_removeFromMap (hne y hy) k).symm.trans hp)
      covers := fun hu y hy k p hp => by
        rw [mapPair_removeFromMap (hne y hy)]
        exact h.covers (by rwa [Core.removeFromMap, Option.isSome_map] at hu) y hy k p hp }

/-- Without a space in the map there is no pair in the envelope. -/
theorem noVault_of_empty (h : Kept had c)
    (hempty : (c.unlocked.any fun unlocked => decide (unlocked.spaces.rows = [])) = true) :
    NoVault c := by
  obtain ⟨unlocked, hu, hrows⟩ := (Option.any_eq_true _ _).mp hempty
  intro x hx k
  cases hv : c.vaultPair x k with
  | none => rfl
  | some p =>
    have hmap := h.covers (by rw [hu]; rfl) x hx k p hv
    obtain ⟨unlocked', hu', hpair⟩ := Option.bind_eq_some_iff.mp hmap
    obtain rfl := Option.some.inj (hu.symm.trans hu')
    obtain ⟨secrets, hget, _⟩ := Option.bind_eq_some_iff.mp hpair
    have hmem : secrets ∈ unlocked.spaces.rows := Table.mem_of_get? hget
    rw [of_decide_eq_true hrows] at hmem
    cases hmem

/-- A space that is forgotten owes nobody its pairs. -/
theorem goes_forgetSpace (h : Kept had c) (x : SpaceId) :
    Goes had (Prod.map id some (c.forgetSpace x)) := by
  have hforgotten : Kept had { c with forgotten := x :: c.forgotten } :=
    h.fewer ⟨fun _ hy => hy, fun _ hy => List.mem_cons_of_mem _ hy⟩ rfl
  have hx : x ∈ x :: c.forgotten := List.mem_cons_self
  simp only [Core.forgetSpace]
  split
  · exact .on hforgotten hx
  · next secrets hsecrets =>
    have hkept := hforgotten.removeFromMap hx
    obtain ⟨unlocked, hu, _⟩ := Option.bind_eq_some_iff.mp hsecrets
    refine .on hkept ?_
    split_ifs with hempty
    · exact ⟨noVault_of_empty hkept hempty, hx⟩
    · refine fact_reseal ?_ hx fun _ => hx
      rw [Core.removeFromMap, Option.isSome_map]
      exact Option.isSome_iff_exists.mpr ⟨unlocked, hu⟩

theorem Kept.lockNow (h : Kept had c) : Kept had c.lockNow := by
  unfold Core.lockNow
  split_ifs
  · exact
      { h with
        map := fun _ _ _ _ hp => by cases hp
        opened := fun _ _ _ k _ hp => by cases k <;> cases hp
        covers := fun hsome => by cases hsome
        keys := fun hsome => by cases hsome }
  · exact h

theorem Kept.restart (h : Kept had c) : Kept had c.restart :=
  { h with
    envelope := h.vault
    map := fun _ _ _ _ hp => by cases hp
    opened := fun _ _ ha => by cases ha
    covers := fun hsome => by cases hsome
    newer := fun _ _ _ _ _ hp => hp
    keys := fun hsome => by cases hsome }

theorem goes_applyRoute (h : Kept had c) {x : SpaceId} {next : Core × Pc}
    (hnext : c.applyRoute x = some next) :
    Goes had (Prod.map id some next) := by
  unfold Core.applyRoute at hnext
  split_ifs at hnext
  obtain rfl := Option.some.inj hnext
  exact .on h.closeSpace fun k => by cases k <;> rfl

theorem goes_looking (h : Kept had c) (input : Input) {x : SpaceId}
    (hf : ∀ k, openPair c.secrets k = none) :
    Goes had (c.advance input (.looking x)) := by
  simp only [Core.advance]
  split_ifs
  · have hkept : Kept had { c with active := some x } := h.opens fun y hy _ k p hp => by
      cases (hf k).symm.trans hp
    exact .on hkept rfl
  · exact .stop h

theorem goes_remembering (h : Kept had c) (input : Input) {x : SpaceId} (ha : c.active = some x) :
    Goes had (c.advance input (.remembering x)) := by
  simp only [Core.advance]
  split
  · next secrets hsecrets =>
    have hkept : Kept had (c.setSecrets { c.secrets with session := some secrets.session }) :=
      h.opens fun y hy hay k p hp => h.opened y hy hay k p (by cases k <;> exact hp)
    refine .on hkept ⟨ha, fun hx k p hp => h.map x hx k p ?_⟩
    obtain ⟨unlocked, hu, hget⟩ := Option.bind_eq_some_iff.mp hsecrets
    have hpair : pairIn unlocked.spaces x k = some p :=
      Option.bind_eq_some_iff.mpr ⟨secrets, hget, hp⟩
    rw [Core.mapPair, hu]
    exact hpair
  · rw [ha]
    exact .on h ha

theorem goes_loadingKeyring (h : Kept had c) (input : Input) {x : SpaceId} {secrets : SpaceSecrets}
    (ha : c.active = some x)
    (hp : c.Live x → ∀ k p, sealedPair secrets k = some p → had x k = some p) :
    Goes had (c.advance input (.loadingKeyring x secrets)) := by
  have hkept : Kept had (c.setSecrets { c.secrets with keyring := some secrets.keyring }) :=
    h.opens fun y hy hay k p hp => h.opened y hy hay k p (by cases k <;> exact hp)
  exact .on hkept ⟨ha, hp⟩

/-- A pair that is loaded from the map, or from the store where the map has none. -/
theorem had_of_loaded (h : Kept had c) {x : SpaceId} {secrets : SpaceSecrets}
    (hs : c.Live x → ∀ k p, sealedPair secrets k = some p → had x k = some p) (hx : c.Live x)
    {k : PairKind} {p : KeyPair} (hp : (sealedPair secrets k).or (c.metaPair x k) = some p) :
    had x k = some p := by
  rcases Option.or_eq_some_iff.mp hp with hp | ⟨_, hp⟩
  · exact hs hx k p hp
  · exact h.meta x hx k p hp

theorem goes_loadingDevice (h : Kept had c) (input : Input) {x : SpaceId} {secrets : SpaceSecrets}
    (ha : c.active = some x)
    (hs : c.Live x → ∀ k p, sealedPair secrets k = some p → had x k = some p) :
    Goes had (c.advance input (.loadingDevice x secrets)) := by
  have hkept : Kept had (c.setSecrets { c.secrets with
      deviceKeyPair := (secrets.deviceKeyPair.map importKeyPair).or
        (c.meta x).deviceKeyPair }) := by
    refine h.opens fun y hy hay k p hp => ?_
    obtain rfl := Option.some.inj (ha.symm.trans hay)
    cases k with
    | device => exact had_of_loaded h hs hy hp
    | signing => exact h.opened x hy hay .signing p hp
  exact .on hkept ⟨ha, hs⟩

theorem goes_loadingSigning (h : Kept had c) (input : Input) {x : SpaceId} {secrets : SpaceSecrets}
    (ha : c.active = some x)
    (hs : c.Live x → ∀ k p, sealedPair secrets k = some p → had x k = some p) :
    Goes had (c.advance input (.loadingSigning x secrets)) := by
  have hkept : Kept had (c.setSecrets { c.secrets with
      signingKeyPair := (secrets.signingKeyPair.map importKeyPair).or
        (c.meta x).signingKeyPair }) := by
    refine h.opens fun y hy hay k p hp => ?_
    obtain rfl := Option.some.inj (ha.symm.trans hay)
    cases k with
    | device => exact h.opened x hy hay .device p hp
    | signing => exact had_of_loaded h hs hy hp
  exact .stop hkept

theorem goes_reading (h : Kept had c) (input : Input) {x : SpaceId} (ha : c.active = some x) :
    Goes had (c.advance input (.reading x)) := by
  have hkept : Kept had (c.setMeta x (Core.upgraded (c.meta x))) :=
    h.setMeta_same (metaPair_upgraded (c.meta x))
  simp only [Core.advance]
  split_ifs with hload
  · refine .stop (hkept.opens fun y hy hay k p hp => ?_)
    obtain rfl := Option.some.inj (ha.symm.trans hay)
    rw [openPair_load hload] at hp
    exact h.meta x hy k p hp
  · exact .stop hkept

theorem goes_saving (h : Kept had c) (input : Input) (owner x : SpaceId) (keyring : Keyring)
    (acks : List ℕ) :
    Goes had (c.advance input (.saving owner x keyring acks)) := by
  have hkept :
      Kept had (c.setMeta x ((c.meta x).set (.keyring keyring))) := h.setMeta_same fun k => by
    cases k <;> rfl
  simp only [Core.advance]
  split_ifs
  · exact .on hkept trivial
  · exact .on hkept trivial

theorem goes_noting (h : Kept had c) (input : Input) (owner : SpaceId) (keyring : Keyring)
    (hr : (Pc.noting owner keyring).refreshes c = true → c.Ready) :
    Goes had (c.advance input (.noting owner keyring)) := by
  have hopen : ∀ k,
      openPair { c.secrets with keyring := some keyring } k = openPair c.secrets k := fun k => by
    cases k <;> rfl
  have hkept : Kept had (c.setSecrets { c.secrets with keyring := some keyring }) :=
    h.opens fun y hy hay k p hp => h.opened y hy hay k p ((hopen k).symm.trans hp)
  refine ⟨hkept, fun pc hpc => fact_refreshVault hkept (fun x hx hlive k p hp => ?_) hpc⟩
  have hready := hr (Option.isSome_iff_exists.mpr ⟨pc, hpc⟩) x hx hlive k p hp
  exact ⟨(hopen k).trans hready.1, hready.2⟩

/-- Every task of the page keeps the pairs in each of its steps. -/
theorem goes_advance (h : Kept had c) (input : Input) {pc : Pc} (hf : Fact had c pc)
    (hr : pc.refreshes c = true → c.Ready) : Goes had (c.advance input pc) := by
  cases pc with
  | listing options keys =>
    exact .on h (fact_collectOn hf (fun _ _ _ _ hp => by cases hp) c.registered)
  | collecting options keys left collected =>
    exact goes_collecting h input options keys left hf.1 hf.2
  | rewriting options keys collected => exact goes_rewriting h input options keys hf.1 hf.2
  | «sealing» options keys collected => exact .on h ⟨hf.1, hf.2, drops_plaintext _⟩
  | writing envelope drops => exact goes_writing h input hf.1 hf.2.1 hf.2.2
  | dropping envelope drops => exact goes_dropping h input hf.1 hf.2
  | opening user envelope => exact goes_opening h input user hf
  | serializingKeyring x map session keyring => exact goes_readDevice h hf session keyring
  | serializingDevice x map session keyring pair =>
    exact goes_serializingDevice h input hf.1 hf.2 session keyring
  | serializingSigning x map session keyring device pair =>
    obtain ⟨hrefreshing, rfl, hpair⟩ := hf
    exact goes_serializingSigning h input hrefreshing hpair session keyring
  | clearing x keys => exact goes_clearing h input keys hf
  | exporting vaultKey spaces contentKey after => exact goes_exporting h input hf.1 hf.2
  | resealing vaultKey spaces contentKey parameters after => exact goes_resealing h input hf.1 hf.2
  | storing envelope after => exact goes_storing h input hf.1 hf.2.1 hf.2.2
  | restoring left => exact goes_restoring h input left hf
  | opened => exact goes_opened h input hf
  | removing => exact goes_removing h input hf
  | unnaming x => exact .on h hf
  | unvaulting x => exact goes_unvaulting h input hf.1 hf.2
  | erasing x => exact goes_erasing h input hf
  | unregistering x => exact goes_unregistering h input x
  | looking x => exact goes_looking h input hf
  | remembering x => exact goes_remembering h input hf
  | loadingKeyring x secrets => exact goes_loadingKeyring h input hf.1 hf.2
  | loadingDevice x secrets => exact goes_loadingDevice h input hf.1 hf.2
  | loadingSigning x secrets => exact goes_loadingSigning h input hf.1 hf.2
  | reading x => exact goes_reading h input hf
  | unwrapping owner keyring keys =>
    refine ⟨h, fun pc hpc => ?_⟩
    obtain ⟨x, _, rfl⟩ := Option.map_eq_some_iff.mp hpc
    trivial
  | rotating owner keyring epoch key =>
    refine ⟨?_, fun pc hpc => ?_⟩
    · simp only [Core.advance]
      split_ifs
      · exact { h with }
      · exact h
    · simp only [Core.advance] at hpc
      split_ifs at hpc
      · obtain ⟨x, _, rfl⟩ := Option.map_eq_some_iff.mp hpc
        trivial
      · cases hpc
  | saving owner x keyring acks => exact goes_saving h input owner x keyring acks
  | acking owner keyring epochs =>
    refine ⟨?_, fun pc hpc => ?_⟩
    · simp only [Core.advance]
      split_ifs
      · exact { h with }
      · exact h
    · simp only [Core.advance] at hpc
      split_ifs at hpc
      · obtain rfl := Option.some.inj hpc
        trivial
      · cases hpc
  | noting owner keyring => exact goes_noting h input owner keyring hr

theorem Since.of_eq (hr : c.registered = seen.registered) (hf : c.forgotten = seen.forgotten) :
    Since seen c :=
  ⟨fun _ hx => hr ▸ hx, fun _ hx => hf ▸ hx⟩

theorem since_dropOn (c : Core) (envelope : VaultEnvelope) (drops : List (SpaceId × MetaKey)) :
    Since c (c.dropOn envelope drops).1 := by
  cases drops <;> exact .of_eq rfl rfl

theorem since_readSigning (c : Core) (x : SpaceId) (map : ℕ) (session : Session) (keyring : Keyring)
    (device : Option SerializedKeyPair) :
    Since c (c.readSigning x map session keyring device).1 := by
  unfold Core.readSigning
  split <;> exact .of_eq rfl rfl

theorem since_readDevice (c : Core) (x : SpaceId) (map : ℕ) (session : Session)
    (keyring : Keyring) :
    Since c (c.readDevice x map session keyring).1 := by
  unfold Core.readDevice
  split
  · exact .of_eq rfl rfl
  · exact since_readSigning ..

theorem since_advance (c : Core) (input : Input) (pc : Pc) : Since c (c.advance input pc).1 := by
  cases pc with
  | writing envelope drops =>
    have h := since_dropOn { c with vault := some envelope } envelope drops
    exact ⟨h.registered, h.forgotten⟩
  | dropping envelope drops =>
    cases drops with
    | nil => exact since_dropOn c envelope []
    | cons drop drops =>
      have h := since_dropOn (c.setMeta drop.1 ((c.meta drop.1).delete drop.2)) envelope drops
      exact ⟨h.registered, h.forgotten⟩
  | serializingKeyring x map session keyring => exact since_readDevice c x map session keyring
  | serializingDevice x map session keyring pair =>
    exact since_readSigning c x map session keyring _
  | unregistering x =>
    simp only [Core.advance]
    split_ifs <;> exact ⟨fun _ hy => (List.mem_filter.mp hy).1, fun _ hy => hy⟩
  | collecting _ _ left _ | clearing _ left | restoring left => cases left <;> exact .of_eq rfl rfl
  | opening | remembering =>
    simp only [Core.advance]
    split <;> exact .of_eq rfl rfl
  | looking | reading | rotating | acking =>
    simp only [Core.advance]
    split_ifs <;> exact .of_eq rfl rfl
  | _ => exact .of_eq rfl rfl

end SendSelf.Lock
