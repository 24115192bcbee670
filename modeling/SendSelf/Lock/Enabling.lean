import SendSelf.Lock.Rewriting

/-!
# Enabling the lock, interrupted

Rows and names are sealed first, and the salt that their key is derived from is
stored with the envelope at the end. An interruption in between leaves what was
sealed without a way in; every other interruption loses nothing.
-/
namespace SendSelf

/-- The write leaves a row or a name sealed. -/
def StorageWrite.seals {α : Type} : StorageWrite α → Bool
  | .putRow row => row.body.isSealed
  | .putSpace space =>
      match space.name with
      | .plain _ => false
      | .sealed _ => true
  | _ => false

def StorageWrite.isEnvelope {α : Type} : StorageWrite α → Bool
  | .setVault _ => true
  | _ => false

/-- The same secrets can be read out of a space's `meta` store. -/
structure SameSecrets (m m' : SpaceMeta) : Prop where
  session : m'.session = m.session
  keyring : m'.loadKeyring = m.loadKeyring
  deviceKeyPair : m'.deviceKeyPair = m.deviceKeyPair
  signingKeyPair : m'.signingKeyPair = m.signingKeyPair

theorem SameSecrets.refl (m : SpaceMeta) : SameSecrets m m := ⟨rfl, rfl, rfl, rfl⟩

theorem SameSecrets.load {m m' : SpaceMeta} (h : SameSecrets m m') : m'.load = m.load := by
  simp only [SpaceMeta.load, h.session, h.keyring, h.deviceKeyPair, h.signingKeyPair]

namespace DeviceStorage

open Interrupt

variable {α : Type} {ck : ContentKey} {ivs : Ivs} {s t : DeviceStorage α}

/-- What the storage is like before the envelope is written. -/
structure Sealing (ck : ContentKey) (ivs : Ivs) (s t : DeviceStorage α) : Prop
    extends Rewritten none (some ck) ivs s t where
  vault : t.vault = s.vault
  secrets : ∀ space, SameSecrets (s.meta space) (t.meta space)

theorem sealing_upgrade (space : SpaceId) (j : ℕ) (h : Sealing ck ivs s t) :
    Sealing ck ivs s (after write (upgradeKeyring space (s.meta space)) j t) := by
  have hset : ∀ {t : DeviceStorage α} {m : SpaceMeta}, Sealing ck ivs s t →
      SameSecrets (s.meta space) m →
      Sealing ck ivs s (t.setMeta space m) := by
    intro t m ht hm
    refine ⟨ht.toRewritten.congr rfl rfl, ht.vault, fun q => ?_⟩
    rw [meta_setMeta]
    split_ifs with hq
    · exact hq ▸ hm
    · exact ht.secrets q
  unfold upgradeKeyring
  split
  · next key hring hgroup =>
    have hload : (s.meta space).loadKeyring = some (createKeyring key INITIAL_KEY_EPOCH) := by
      simp [SpaceMeta.loadKeyring, hring, hgroup]
    have hold := h.secrets space
    have hone :
        Sealing ck ivs s
          (write (.metaSet space (.keyring (createKeyring key INITIAL_KEY_EPOCH))) t) :=
      hset h ⟨hold.session, by rw [hload]; rfl, hold.deviceKeyPair, hold.signingKeyPair⟩
    have htwo : Sealing ck ivs s (write (.metaDelete space .groupKey)
        (write (.metaSet space (.keyring (createKeyring key INITIAL_KEY_EPOCH))) t)) :=
      hset hone ⟨(hone.secrets space).session,
        by rw [hload];
             simp [write, meta_setMeta, SpaceMeta.set, SpaceMeta.delete, SpaceMeta.loadKeyring],
        (hone.secrets space).deviceKeyPair, (hone.secrets space).signingKeyPair⟩
    rcases j with _ | _ | j
    · exact h
    · exact hone
    · rw [after, List.take_of_length_le (by simp)]
      exact htwo
  · simpa [after, run] using h

theorem rewrites_of_sealing {w : StorageWrite α} (h : some w ∈ enableLock.sealing ck ivs s) :
    Rewrites none (some ck) ivs s w := by
  rcases List.mem_append.mp h with h | h
  · obtain ⟨space, _, h⟩ := List.mem_flatMap.mp h
    obtain ⟨row, hrow, _, h⟩ := mem_rewriteLocalContent.mp h
    exact (rewriteRow_rewrites hrow h).1
  · exact rewriteSpaceNames_rewrites h

/-- Without a key a row is skipped, never refused. -/
theorem none_not_mem_sealing : none ∉ enableLock.sealing ck ivs s := by
  intro h
  rcases List.mem_append.mp h with h | h
  · obtain ⟨space, _, h⟩ := List.mem_flatMap.mp h
    obtain ⟨row, _, _, h⟩ := mem_rewriteLocalContent.mp h
    unfold rewriteRow at h
    cases hbody : row.body with
    | plain value => simp [fromStored, hbody] at h
    | «sealed» b => simp [fromStored, hbody] at h
  · obtain ⟨space, _, h⟩ := mem_rewriteSpaceNames.mp h
    cases h

/-- The writes of `enableLock` before the envelope. -/
def beforeEnvelope (ck : ContentKey) (ivs : Ivs) (s : DeviceStorage α) : List (StorageWrite α) :=
  s.listSpaces.rows.flatMap (fun space => upgradeKeyring space.id (s.meta space.id)) ++
    upTo (enableLock.sealing ck ivs s)

theorem enableLock_eq (options : LockOptions) (user : User) : enableLock options user ivs s =
    beforeEnvelope (options.keys user).contentKey ivs s ++
      .setVault (newEnvelope options user ivs s) :: s.collected.rows.flatMap dropPlaintext := by
  unfold enableLock beforeEnvelope
  obtain ⟨hnone, _⟩ | ⟨_, heq⟩ :=
    upTo_append (enableLock.sealing (options.keys user).contentKey ivs s)
    ((.setVault (newEnvelope options user ivs s) :: s.collected.rows.flatMap dropPlaintext).map
      some)
  · exact absurd hnone none_not_mem_sealing
  · rw [heq, upTo_map_some, List.append_assoc]

theorem mem_beforeEnvelope {w : StorageWrite α} (h : w ∈ beforeEnvelope ck ivs s) :
    Rewrites none (some ck) ivs s w ∨ (SparesContent w ∧ w.isEnvelope = false) := by
  rcases List.mem_append.mp h with h | h
  · obtain ⟨space, _, h⟩ := List.mem_flatMap.mp h
    unfold upgradeKeyring at h
    split at h
    · rcases List.mem_cons.mp h with rfl | h
      · exact Or.inr ⟨trivial, rfl⟩
      · obtain rfl := List.mem_singleton.mp h
        exact Or.inr ⟨trivial, rfl⟩
    · cases h
  · exact Or.inl (rewrites_of_sealing (mem_upTo h))

theorem Sealing.rewrites {w : StorageWrite α} (h : Sealing ck ivs s t)
    (hw : Rewrites none (some ck) ivs s w) :
    Sealing ck ivs s (write w t) := by
  refine ⟨h.toRewritten.write (Or.inl hw), ?_, ?_⟩
  · cases w with
    | putRow _ => exact h.vault
    | putSpace _ => exact h.vault
    | _ => cases hw
  · cases w with
    | putRow _ => exact h.secrets
    | putSpace _ => exact h.secrets
    | _ => cases hw

/-- However far the writes before the envelope got. -/
theorem sealing_after (k : ℕ) : Sealing ck ivs s (after write (beforeEnvelope ck ivs s) k s) := by
  unfold after beforeEnvelope
  rw [List.take_append, run_append]
  refine run_invariant ?_ fun w hw t ht =>
    ht.rewrites (rewrites_of_sealing (mem_upTo (List.mem_of_mem_take hw)))
  exact after_flatMap_invariant ⟨.refl s, rfl, fun space => .refl (s.meta space)⟩
    fun space _ j t ht => sealing_upgrade space.id j ht

theorem startUp_of_none {user : User} (h : s.vault = none) :
    startUp user s = ⟨none, none, false⟩ := by
  rw [startUp, h]

theorem Sealing.openSpace (h : Sealing ck ivs s t) (space : SpaceId) :
    t.openSpace ⟨none, none, false⟩ space = s.openSpace ⟨none, none, false⟩ space := by
  simp only [DeviceStorage.openSpace, h.registered, Option.bind_none, (h.secrets space).load]

/-- While nothing is sealed, all reads as before. -/
theorem kept_of_nothing_sealed {user : User} {ws : List (StorageWrite α)} (hvault : s.vault = none)
    (hsub : ∀ w ∈ ws, w ∈ beforeEnvelope ck ivs s) (hseals : ∀ w ∈ ws, w.seals = false)
    (h : Sealing ck ivs s (run write ws s)) : (s.view user).Kept ((run write ws s).view user) := by
  have hcontent : ∀ id, (run write ws s).rows.get? id = s.rows.get? id ∧
      ((run write ws s).spaces.get? id.space = s.spaces.get? id.space ∨
        ∃ old, s.spaces.get? id.space = some old ∧ old.readName none = none) := by
    intro id
    refine run_invariant (P := fun t : DeviceStorage α => t.rows.get? id = s.rows.get? id ∧
      (t.spaces.get? id.space = s.spaces.get? id.space ∨
        ∃ old, s.spaces.get? id.space = some old ∧ old.readName none = none)) ⟨rfl, Or.inl rfl⟩ ?_
    intro w hw t ht
    rcases mem_beforeEnvelope (hsub w hw) with hre | ⟨hspare, _⟩
    · cases w with
      | putRow row =>
        obtain ⟨old, value, _, _, hrow⟩ := hre
        have hsealed := hseals _ hw
        rw [hrow] at hsealed
        cases hsealed
      | putSpace space =>
        refine ⟨ht.1, ?_⟩
        obtain ⟨old, hold, hspace⟩ := hre
        simp only [write, Table.get?_put]
        split_ifs with he
        · refine Or.inr ⟨old, he ▸ hold, ?_⟩
          have hsealed := hseals _ hw
          cases hname : old.readName none with
          | none => rfl
          | some name =>
            rw [hspace, StorageWrite.seals, name_rewriteName_some hname] at hsealed
            cases hsealed
        · exact ht.2
      | _ => cases hre
    · obtain ⟨hr, hsp⟩ := @write_content _ t w hspare
      rw [hr, hsp]
      exact ht
  have hview : startUp user (run write ws s) = startUp user s := by
    rw [startUp_of_none hvault, startUp_of_none (h.vault.trans hvault)]
  unfold view
  rw [hview, startUp_of_none hvault]
  refine View.kept_of_open (fun id value hread => ?_) (fun space name hread => ?_)
    fun space => Or.inr (h.openSpace space)
  · obtain ⟨row, hrow, hbody⟩ := readRow_eq_some.mp hread
    exact readRow_eq_some.mpr ⟨row, (hcontent id).1.trans hrow, hbody⟩
  · obtain ⟨old, hold, hname⟩ := Option.bind_eq_some_iff.mp hread
    rcases (hcontent ⟨space, .messages, 0⟩).2 with hsame | ⟨old', hold', hnone⟩
    · exact Option.bind_eq_some_iff.mpr ⟨old, hsame.trans hold, hname⟩
    · obtain rfl := Option.some.inj (hold'.symm.trans hold)
      simp [hnone] at hname

/-- What was sealed before the envelope is written cannot be read. -/
theorem not_kept_of_sealed {user : User} {ws : List (StorageWrite α)} {w : StorageWrite α}
    (hvault : s.vault = none) (hsub : ∀ w ∈ ws, w ∈ beforeEnvelope ck ivs s) (hw : w ∈ ws)
    (hseals : w.seals = true) (h : Sealing ck ivs s (run write ws s)) :
    ¬ (s.view user).Kept ((run write ws s).view user) := by
  intro hkept
  unfold view at hkept
  rw [startUp_of_none hvault, startUp_of_none (h.vault.trans hvault)] at hkept
  rcases mem_beforeEnvelope (hsub w hw) with hre | ⟨hspare, _⟩
  · cases w with
    | putRow row =>
      obtain ⟨old, value, hold, hvalue, _⟩ := hre
      have hread := hkept.row row.id value (readRow_eq_some.mpr ⟨old, hold, hvalue⟩)
      have hsealed : ∃ new, (run write ws s).rows.get? row.id = some new ∧
          new.body.isSealed = true := by
        refine run_of_mem (P := fun t : DeviceStorage α => ∃ new, t.rows.get? row.id = some new ∧
          new.body.isSealed = true) hw
          (fun t => ⟨row, by simp [write, Table.get?_put], hseals⟩) fun w' hw' t ht => ?_
        rcases mem_beforeEnvelope (hsub w' hw') with hre' | ⟨hspare', _⟩
        · cases w' with
          | putRow row' =>
            obtain ⟨_, _, _, _, hrow'⟩ := hre'
            simp only [write, Table.get?_put]
            split_ifs
            · exact ⟨row', rfl, by rw [hrow']; rfl⟩
            · exact ht
          | putSpace _ => exact ht
          | _ => cases hre'
        · rw [(@write_content _ t w' hspare').1]
          exact ht
      obtain ⟨new, hnew, hs⟩ := hsealed
      obtain ⟨new', hnew', hopen⟩ := readRow_eq_some.mp hread
      obtain rfl := Option.some.inj (hnew'.symm.trans hnew)
      rw [fromStored_none_eq.mp hopen] at hs
      cases hs
    | putSpace space =>
      obtain ⟨old, hold, hspace⟩ := hre
      obtain ⟨name, hname⟩ : ∃ name, old.readName none = some name := by
        cases hname : old.readName none with
        | none =>
          rw [hspace, StorageWrite.seals, name_rewriteName_none hname] at hseals
          cases hseals
        | some name => exact ⟨name, rfl⟩
      have hread := hkept.name space.id name (Option.bind_eq_some_iff.mpr ⟨old, hold, hname⟩)
      have hsealed : (run write ws s).spaces.get? space.id = some space := by
        refine run_of_mem (P := fun t : DeviceStorage α => t.spaces.get? space.id = some space) hw
          (fun t => by simp [write, Table.get?_put]) fun w' hw' t ht => ?_
        rcases mem_beforeEnvelope (hsub w' hw') with hre' | ⟨hspare', _⟩
        · cases w' with
          | putRow _ => exact ht
          | putSpace space' =>
            obtain ⟨old', hold', hspace'⟩ := hre'
            simp only [write, Table.get?_put]
            split_ifs with he
            · rw [← he] at hold'
              obtain rfl := Option.some.inj (hold'.symm.trans hold)
              exact congrArg some (hspace'.trans hspace.symm)
            · exact ht
          | _ => cases hre'
        · rw [(@write_content _ t w' hspare').2]
          exact ht
      obtain ⟨new, hnew, hopen⟩ := Option.bind_eq_some_iff.mp hread
      obtain rfl := Option.some.inj (hnew.symm.trans hsealed)
      rw [hspace, StoredSpace.readName, name_rewriteName_some hname] at hopen
      cases hopen
    | _ => cases hre
  · cases w with
    | putRow _ => cases hspare
    | putSpace _ => cases hspare
    | _ => cases hseals

/-- The envelope opens to what it was sealed with. -/
theorem startUp_newEnvelope {options : LockOptions} {user : User}
    (h : t.vault = some (newEnvelope options user ivs s)) :
    startUp user t = ⟨some (options.keys user).contentKey, some s.collected, false⟩ := by
  have hkeys : unlockKeys user (newEnvelope options user ivs s) = some (options.keys user) := by
    obtain ⟨method, salt, credentialId⟩ := options
    cases method with
    | passphrase =>
      have hrounds : 1 ≤ PBKDF2_ITERATIONS ∧ PBKDF2_ITERATIONS ≤ MAX_PBKDF2_ITERATIONS := by decide
      simp [unlockKeys, newEnvelope, LockOptions.envelope, LockOptions.keys,
        keysFromPassphrase, hrounds]
    | passkey => rfl
  have hopen : openVault (options.keys user).vaultKey (newEnvelope options user ivs s) =
      some (.v2 s.collected (options.keys user).contentKey) := by
    simp [openVault, newEnvelope, LockOptions.envelope]
  simp [startUp, h, hkeys, hopen, normalize]

/-- The storage while the plaintext copies are being dropped. -/
structure Dropping (envelope : VaultEnvelope) (s t₁ t : DeviceStorage α) : Prop where
  rows : t.rows = t₁.rows
  spaces : t.spaces = t₁.spaces
  vault : t.vault = some envelope
  others : ∀ space, s.collected.get? space = none → t.meta space = t₁.meta space
  untouched : ∀ space secrets key, s.collected.get? space = some secrets →
    (∀ entry ∈ secrets.entries, entry.key ≠ key) → (t.meta space).get key = (t₁.meta space).get key

theorem Dropping.drop {envelope : VaultEnvelope} {t₁ : DeviceStorage α} {w : StorageWrite α}
    (h : Dropping envelope s t₁ t) (hw : w ∈ s.collected.rows.flatMap dropPlaintext) :
    Dropping envelope s t₁ (write w t) := by
  obtain ⟨secrets, hmem, hw⟩ := List.mem_flatMap.mp hw
  obtain ⟨entry, hentry, rfl⟩ := List.mem_map.mp hw
  have hget := Table.get?_of_mem (t := s.collected) hmem
  refine ⟨h.rows, h.spaces, h.vault, fun space hnone => ?_, fun space found key hfound hkey => ?_⟩
  · have hne : space ≠ secrets.spaceId := fun he => by simp [he, hget] at hnone
    simpa only [write, meta_setMeta, if_neg hne] using h.others space hnone
  · rw [← h.untouched space found key hfound hkey]
    simp only [write, meta_setMeta]
    split_ifs with he
    · subst he
      obtain rfl := Option.some.inj (hget.symm.trans hfound)
      rw [SpaceMeta.get_delete, if_neg (hkey entry hentry).symm]
    · rfl

/-- A space that loads from its own storage is in the envelope, with the secrets it loads. -/
theorem Dropping.openSpace {envelope : VaultEnvelope} {t₁ : DeviceStorage α}
    (h : Dropping envelope s t₁ t)
    (hsealing : Sealing ck ivs s t₁) {key : Option ContentKey} (space : SpaceId) :
    s.openSpace ⟨none, none, false⟩ space = .none ∨
      t.openSpace ⟨key, some s.collected, false⟩ space = s.openSpace ⟨none, none, false⟩ space := by
  have hreg : t.spaces.get? space = none ↔ s.spaces.get? space = none := by
    rw [h.spaces]
    exact hsealing.registered space
  simp only [DeviceStorage.openSpace, hreg, Option.bind_none, Option.bind_some]
  by_cases hnone : s.spaces.get? space = none
  · simp [hnone]
  · simp only [hnone, Bool.false_eq_true, or_self, if_false]
    cases hget : s.collected.get? space with
    | none =>
      exact Or.inr
        ((congrArg SpaceMeta.load (h.others space hget)).trans (hsealing.secrets space).load)
    | some secrets =>
      obtain ⟨record, hrecord, hsecrets⟩ := Table.mem_collect.mp (Table.mem_of_get? hget)
      have hid : record.id = space :=
        (secretsFromStorage_spaceId hsecrets).symm.trans (Table.get?_eq_some.mp hget).2
      unfold secretsFromStorage at hsecrets
      rw [hid] at hsecrets
      split at hsecrets
      · next session keyring hsession hkeyring =>
        obtain rfl := Option.some.inj hsecrets
        have hdevice : (s.meta space).deviceKeyPair.bind serializeKeyPair = none →
            (t.meta space).deviceKeyPair = (s.meta space).deviceKeyPair := by
          intro hn
          refine (SpaceMeta.deviceKeyPair_eq (h.untouched space _ .deviceKeyPair hget ?_)).trans
            (hsealing.secrets space).deviceKeyPair
          intro entry hentry
          rcases SpaceSecrets.mem_entries.mp hentry with rfl | rfl | ⟨pair, hpair, _⟩ | ⟨_, _, rfl⟩
          · exact fun h => by cases h
          · exact fun h => by cases h
          · simp [hn] at hpair
          · exact fun h => by cases h
        have hsigning : (s.meta space).signingKeyPair.bind serializeKeyPair = none →
            (t.meta space).signingKeyPair = (s.meta space).signingKeyPair := by
          intro hn
          refine (SpaceMeta.signingKeyPair_eq (h.untouched space _ .signingKeyPair hget ?_)).trans
            (hsealing.secrets space).signingKeyPair
          intro entry hentry
          rcases SpaceSecrets.mem_entries.mp hentry with rfl | rfl | ⟨_, _, rfl⟩ | ⟨pair, hpair, _⟩
          · exact fun h => by cases h
          · exact fun h => by cases h
          · exact fun h => by cases h
          · simp [hn] at hpair
        have hback : ∀ {pair held : Option KeyPair},
            (pair.bind serializeKeyPair = none → held = pair) →
            ((pair.bind serializeKeyPair).map importKeyPair).or held = pair := by
          intro pair held hheld
          cases hser : pair.bind serializeKeyPair with
          | none => simp [hheld hser]
          | some stored =>
            obtain ⟨p, rfl, hp⟩ := Option.bind_eq_some_iff.mp hser
            simp [importKeyPair_of_serialize hp]
        simp only [SpaceSecrets.load, SpaceMeta.load, hsession, hkeyring, hback hdevice,
          hback hsigning]
        cases hpair : (s.meta space).deviceKeyPair with
        | none => exact Or.inl rfl
        | some pair => exact Or.inr rfl
      · cases hsecrets

theorem kept_from_envelope {options : LockOptions} {user : User} (hvault : s.vault = none) (j : ℕ) :
    (s.view user).Kept ((run write ((s.collected.rows.flatMap dropPlaintext).take j)
      (write (.setVault (newEnvelope options user ivs s))
        (run write (beforeEnvelope (options.keys user).contentKey ivs s) s))).view user) := by
  have hsealing : Sealing (options.keys user).contentKey ivs s
      (run write (beforeEnvelope (options.keys user).contentKey ivs s) s) := by
    have hall := @sealing_after _ (options.keys user).contentKey ivs s
      (beforeEnvelope (options.keys user).contentKey ivs s).length
    rwa [after, List.take_length] at hall
  generalize run write (beforeEnvelope (options.keys user).contentKey ivs s) s = t₁ at hsealing ⊢
  have hdrop : Dropping (newEnvelope options user ivs s) s t₁
      (run write ((s.collected.rows.flatMap dropPlaintext).take j)
        (write (.setVault (newEnvelope options user ivs s)) t₁)) := by
    refine run_invariant ?_ fun w hw t ht => ht.drop (List.mem_of_mem_take hw)
    exact ⟨rfl, rfl, rfl, fun _ _ => rfl, fun _ _ _ _ _ => rfl⟩
  generalize run write ((s.collected.rows.flatMap dropPlaintext).take j)
    (write (.setVault (newEnvelope options user ivs s)) t₁) = t at hdrop ⊢
  have hrewritten : Rewritten (DeviceMemory.mk none none false).contentKey
      (some (options.keys user).contentKey) ivs s t :=
    hsealing.toRewritten.congr hdrop.rows hdrop.spaces
  unfold view
  rw [startUp_newEnvelope hdrop.vault, startUp_of_none hvault]
  refine View.kept_of_open (fun id value hread => ?_) (fun space name hread => ?_)
    (hdrop.openSpace hsealing)
  · refine hrewritten.readRow hread (fun hsame => ?_) fun iv => fromStored_toStored ..
    obtain ⟨row, hrow, hbody⟩ := readRow_eq_some.mp hread
    exact readRow_eq_some.mpr ⟨row, hsame.trans hrow, by rw [fromStored_none_eq.mp hbody]; rfl⟩
  · obtain ⟨old, hold, hname⟩ := Option.bind_eq_some_iff.mp hread
    rcases hrewritten.spaces space with hsame | ⟨old', hold', hnew⟩
    · refine Option.bind_eq_some_iff.mpr ⟨old, hsame.trans hold, ?_⟩
      unfold StoredSpace.readName at hname ⊢
      cases hstored : old.name with
      | plain n => simpa [hstored] using hname
      | «sealed» b => simp [hstored] at hname
    · obtain rfl := Option.some.inj (hold'.symm.trans hold)
      exact Option.bind_eq_some_iff.mpr ⟨_, hnew, readName_rewriteName hname (Or.inl rfl)⟩

end DeviceStorage
end SendSelf
