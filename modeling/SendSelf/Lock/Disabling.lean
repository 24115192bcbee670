import SendSelf.Lock.Rewriting

/-!
# Disabling the lock, interrupted

The envelope is deleted last, so every interruption before that leaves a device
that still unlocks. Deleting it loses what only the unlock could read and was not
put back: sealed rows of a space that the envelope does not have, and the session
of a space for which no device key pair is stored.
-/
namespace SendSelf

def StorageWrite.endsLock {α : Type} : StorageWrite α → Bool
  | .deleteVault => true
  | _ => false

namespace DeviceStorage

open Interrupt

variable {α : Type} {ck : ContentKey} {held : Table SpaceSecrets.spaceId} {ivs : Ivs}
    {s t : DeviceStorage α}

/-- A write of `disableLock` before the envelope goes. -/
def Restores (ck : ContentKey) (held : Table SpaceSecrets.spaceId) (ivs : Ivs)
    (s : DeviceStorage α) :
    StorageWrite α → Prop
  | .putRow row => Rewrites (some ck) none ivs s (.putRow row) ∧ (held.get? row.id.space).isSome
  | .putSpace space => Rewrites (some ck) none ivs s (.putSpace space)
  | .metaSet space entry => ∃ secrets, held.get? space = some secrets ∧ entry ∈ secrets.entries
  | _ => False

/-- The steps of `disableLock` before the envelope goes. -/
def beforeEnd (ck : ContentKey) (held : Table SpaceSecrets.spaceId) (ivs : Ivs)
    (s : DeviceStorage α) :
    List (Option (StorageWrite α)) :=
  held.rows.flatMap (disableLock.restoring (some ck) ivs s) ++
    s.rewriteSpaceNames (some ck) none ivs

theorem mem_restoring {secrets : SpaceSecrets} {step : Option (StorageWrite α)} :
    step ∈ disableLock.restoring (some ck) ivs s secrets ↔
      (∃ row ∈ s.rows, row.id.space = secrets.spaceId ∧ step ∈ rewriteRow (some ck) none ivs row) ∨
        ∃ entry ∈ secrets.entries, step = some (.metaSet secrets.spaceId entry) := by
  simp only [disableLock.restoring, List.mem_append, mem_rewriteLocalContent, List.mem_map,
    eq_comm (a := step)]

theorem restores_of_mem {w : StorageWrite α} (h : some w ∈ beforeEnd ck held ivs s) :
    Restores ck held ivs s w := by
  rcases List.mem_append.mp h with h | h
  · obtain ⟨secrets, hmem, h⟩ := List.mem_flatMap.mp h
    have hget := Table.get?_of_mem (t := held) hmem
    rcases mem_restoring.mp h with ⟨row, hrow, hspace, h⟩ | ⟨entry, hentry, h⟩
    · obtain ⟨hre, new, rfl, hid⟩ := rewriteRow_rewrites hrow h
      exact ⟨hre, by rw [hid, hspace, hget]; rfl⟩
    · obtain rfl := Option.some.inj h
      exact ⟨secrets, hget, hentry⟩
  · have hre := rewriteSpaceNames_rewrites h
    obtain ⟨space, _, hw⟩ := mem_rewriteSpaceNames.mp h
    obtain rfl := Option.some.inj hw
    exact hre

/-- What the storage is like before the envelope goes. -/
structure Restoring (ck : ContentKey) (held : Table SpaceSecrets.spaceId) (ivs : Ivs)
    (s t : DeviceStorage α) :
    Prop extends Rewritten (some ck) none ivs s t where
  vault : t.vault = s.vault
  elsewhere : ∀ id : RowId, held.get? id.space = none → t.rows.get? id = s.rows.get? id
  others : ∀ space, held.get? space = none → t.meta space = s.meta space
  untouched : ∀ space secrets key, held.get? space = some secrets →
    (∀ entry ∈ secrets.entries, entry.key ≠ key) → (t.meta space).get key = (s.meta space).get key

theorem Restoring.refl (s : DeviceStorage α) : Restoring ck held ivs s s :=
  ⟨.refl s, rfl, fun _ _ => rfl, fun _ _ => rfl, fun _ _ _ _ _ => rfl⟩

theorem Restoring.write {w : StorageWrite α} (h : Restoring ck held ivs s t)
    (hw : Restores ck held ivs s w) :
    Restoring ck held ivs s (DeviceStorage.write w t) := by
  cases w with
  | putRow row =>
    refine ⟨h.toRewritten.write (Or.inl hw.1), h.vault, fun id hid => ?_, h.others, h.untouched⟩
    have hne : id ≠ row.id := by
      intro he
      have hsome := hw.2
      rw [← he, hid] at hsome
      cases hsome
    simpa only [DeviceStorage.write, Table.get?_put, if_neg hne] using h.elsewhere id hid
  | putSpace space =>
    exact ⟨h.toRewritten.write (Or.inl hw), h.vault, h.elsewhere, h.others, h.untouched⟩
  | metaSet space entry =>
    obtain ⟨secrets, hget, hentry⟩ := hw
    refine ⟨h.toRewritten.congr rfl rfl, h.vault, h.elsewhere, fun q hq => ?_,
      fun q found key hfound hkey => ?_⟩
    · have hne : q ≠ space := fun he => by simp [he, hget] at hq
      simpa only [DeviceStorage.write, meta_setMeta, if_neg hne] using h.others q hq
    · rw [← h.untouched q found key hfound hkey]
      simp only [DeviceStorage.write, meta_setMeta]
      split_ifs with he
      · subst he
        obtain rfl := Option.some.inj (hget.symm.trans hfound)
        rw [SpaceMeta.get_set, if_neg (hkey entry hentry).symm]
      · rfl
  | _ => cases hw

theorem restoring_run {ws : List (StorageWrite α)} (hws : ∀ w ∈ ws, Restores ck held ivs s w) :
    Restoring ck held ivs s (run DeviceStorage.write ws s) :=
  run_invariant (.refl s) fun w hw _ ht => ht.write (hws w hw)

/-- A key pair that was not sealed is where it was. -/
theorem Restoring.deviceKeyPair (h : Restoring ck held ivs s t) {space : SpaceId}
    {secrets : SpaceSecrets}
    (hget : held.get? space = some secrets) (hnone : secrets.deviceKeyPair = none) :
    (t.meta space).deviceKeyPair = (s.meta space).deviceKeyPair := by
  refine SpaceMeta.deviceKeyPair_eq
    (h.untouched space secrets .deviceKeyPair hget fun entry hentry => ?_)
  rcases SpaceSecrets.mem_entries.mp hentry with rfl | rfl | ⟨pair, hpair, _⟩ | ⟨_, _, rfl⟩
  · exact nofun
  · exact nofun
  · simp [hnone] at hpair
  · exact nofun

theorem Restoring.signingKeyPair (h : Restoring ck held ivs s t) {space : SpaceId}
    {secrets : SpaceSecrets}
    (hget : held.get? space = some secrets) (hnone : secrets.signingKeyPair = none) :
    (t.meta space).signingKeyPair = (s.meta space).signingKeyPair := by
  refine SpaceMeta.signingKeyPair_eq
    (h.untouched space secrets .signingKeyPair hget fun entry hentry => ?_)
  rcases SpaceSecrets.mem_entries.mp hentry with rfl | rfl | ⟨_, _, rfl⟩ | ⟨pair, hpair, _⟩
  · exact nofun
  · exact nofun
  · exact nofun
  · simp [hnone] at hpair

theorem Restoring.openSpace (h : Restoring ck held ivs s t) (space : SpaceId) :
    t.openSpace ⟨some ck, some held, false⟩ space =
      s.openSpace ⟨some ck, some held, false⟩ space := by
  simp only [DeviceStorage.openSpace, h.registered, Option.bind_some]
  cases hget : held.get? space with
  | none => simp only [h.others space hget]
  | some secrets =>
    have hkeep : ∀ {stored : Option SerializedKeyPair} {p q : Option KeyPair},
        (stored = none → p = q) →
        (stored.map importKeyPair).or p = (stored.map importKeyPair).or q := by
      intro stored p q hpq
      cases stored with
      | none => simp [hpq rfl]
      | some st => simp
    simp only [SpaceSecrets.load, hkeep (h.deviceKeyPair hget), hkeep (h.signingKeyPair hget)]

theorem kept_before_end {user : User} (hstart : startUp user s = ⟨some ck, some held, false⟩)
    (h : Restoring ck held ivs s t) : (s.view user).Kept (t.view user) := by
  have hsame : startUp user t = startUp user s := by
    simp only [startUp, h.vault]
  have hrewritten :
      Rewritten (DeviceMemory.mk (some ck) (some held) false).contentKey none ivs s t :=
    h.toRewritten
  unfold view
  rw [hsame, hstart]
  refine View.kept_of_open (fun id value hread => ?_) (fun space name hread => ?_)
    fun space => Or.inr (h.openSpace space)
  · refine hrewritten.readRow hread (fun hsame => ?_) fun _ => rfl
    obtain ⟨row, hrow, hbody⟩ := readRow_eq_some.mp hread
    exact readRow_eq_some.mpr ⟨row, hsame.trans hrow, hbody⟩
  · obtain ⟨old, hold, hname⟩ := Option.bind_eq_some_iff.mp hread
    rcases h.spaces space with hsame | ⟨old', hold', hnew⟩
    · exact Option.bind_eq_some_iff.mpr ⟨old, hsame.trans hold, hname⟩
    · obtain rfl := Option.some.inj (hold'.symm.trans hold)
      exact Option.bind_eq_some_iff.mpr ⟨_, hnew, readName_rewriteName hname (Or.inr rfl)⟩

/-- What is needed to do without the envelope: every row that only the content key
opens is in a space that is put back, and such a space has a device key pair. -/
structure Restorable (ck : ContentKey) (held : Table SpaceSecrets.spaceId)
    (s : DeviceStorage α) : Prop where
  rows : ∀ id row value, s.rows.get? id = some row → row.body.isSealed = true →
    fromStored (some ck) id row.body = .ok (some value) → (held.get? id.space).isSome
  pairs : ∀ space secrets, held.get? space = some secrets → s.spaces.get? space ≠ none →
    secrets.deviceKeyPair.isSome ∨ (s.meta space).deviceKeyPair.isSome

/-- The storage when every step has run. -/
structure Restored (ck : ContentKey) (held : Table SpaceSecrets.spaceId) (ivs : Ivs)
    (s t : DeviceStorage α) :
    Prop extends Restoring ck held ivs s t where
  plain : ∀ id row value, s.rows.get? id = some row → (held.get? id.space).isSome →
    fromStored (some ck) id row.body = .ok (some value) → t.rows.get? id = some ⟨id, .plain value⟩
  names : ∀ id space, s.spaces.get? id = some space →
    t.spaces.get? id = some (rewriteName (some ck) none ivs space)
  entries : ∀ space secrets entry, held.get? space = some secrets → entry ∈ secrets.entries →
    (t.meta space).get entry.key = some entry

theorem restored_run (hnone : none ∉ beforeEnd ck held ivs s) :
    Restored ck held ivs s (run DeviceStorage.write (upTo (beforeEnd ck held ivs s)) s) := by
  have hrestores : ∀ w ∈ upTo (beforeEnd ck held ivs s), Restores ck held ivs s w :=
    fun w hw => restores_of_mem (mem_upTo hw)
  refine ⟨restoring_run hrestores, fun id row value hrow hspace hvalue => ?_,
    fun id space hspace => ?_,
    fun space secrets entry hget hentry => ?_⟩
  · obtain ⟨hmem, hid⟩ := Table.get?_eq_some.mp hrow
    subst hid
    obtain ⟨secrets, hget⟩ := Option.isSome_iff_exists.mp hspace
    obtain ⟨hheld, hkey⟩ := Table.get?_eq_some.mp hget
    have hw : StorageWrite.putRow ⟨row.id, .plain value⟩ ∈ upTo (beforeEnd ck held ivs s) := by
      refine (mem_upTo_iff hnone).mpr
        (List.mem_append_left _ (List.mem_flatMap.mpr ⟨secrets, hheld, ?_⟩))
      refine mem_restoring.mpr (Or.inl ⟨row, hmem, hkey.symm, ?_⟩)
      simp [rewriteRow, hvalue, toStored]
    refine run_of_mem (P := fun t : DeviceStorage α =>
      t.rows.get? row.id = some ⟨row.id, .plain value⟩) hw
      (fun t => by simp [DeviceStorage.write, Table.get?_put]) fun w' hw' t ht => ?_
    cases w' with
    | putRow row' =>
      obtain ⟨old, value', hold, hvalue', hrow'⟩ := (hrestores _ hw').1
      simp only [DeviceStorage.write, Table.get?_put]
      split_ifs with he
      · rw [← he] at hold hvalue' hrow'
        obtain rfl := Option.some.inj (hold.symm.trans hrow)
        obtain rfl : value' = value := Option.some.inj (Except.ok.inj (hvalue'.symm.trans hvalue))
        exact congrArg some hrow'
      · exact ht
    | _ => exact ht
  · obtain ⟨hmem, hid⟩ := Table.get?_eq_some.mp hspace
    subst hid
    have hw : StorageWrite.putSpace (rewriteName (some ck) none ivs space) ∈
        upTo (beforeEnd ck held ivs s) :=
      (mem_upTo_iff hnone).mpr
        (List.mem_append_right _ (mem_rewriteSpaceNames.mpr ⟨space, hmem, rfl⟩))
    have hkey : (rewriteName (some ck) none ivs space).id = space.id := rfl
    refine run_of_mem (P := fun t : DeviceStorage α =>
      t.spaces.get? space.id = some (rewriteName (some ck) none ivs space)) hw
      (fun t => by simp [DeviceStorage.write, Table.get?_put, hkey]) fun w' hw' t ht => ?_
    cases w' with
    | putSpace space' =>
      obtain ⟨old, hold, hspace'⟩ := hrestores _ hw'
      simp only [DeviceStorage.write, Table.get?_put]
      split_ifs with he
      · rw [← he] at hold
        obtain rfl := Option.some.inj (hold.symm.trans hspace)
        exact congrArg some hspace'
      · exact ht
    | _ => exact ht
  · obtain ⟨hheld, hkey⟩ := Table.get?_eq_some.mp hget
    have hw : StorageWrite.metaSet space entry ∈ upTo (beforeEnd ck held ivs s) := by
      refine (mem_upTo_iff hnone).mpr
        (List.mem_append_left _ (List.mem_flatMap.mpr ⟨secrets, hheld, ?_⟩))
      exact mem_restoring.mpr (Or.inr ⟨entry, hentry, by rw [hkey]⟩)
    refine run_of_mem (P := fun t : DeviceStorage α => (t.meta space).get entry.key = some entry) hw
      (fun t => by simp [DeviceStorage.write, meta_setMeta, SpaceMeta.get_set])
        fun w' hw' t ht => ?_
    cases w' with
    | metaSet space' entry' =>
      obtain ⟨secrets', hget', hentry'⟩ := hrestores _ hw'
      simp only [DeviceStorage.write, meta_setMeta]
      split_ifs with he
      · subst he
        obtain rfl := Option.some.inj (hget.symm.trans hget')
        rw [SpaceMeta.get_set]
        split_ifs with hk
        · rw [SpaceSecrets.entries_inj hentry hentry' hk]
        · exact ht
      · exact ht
    | metaDelete space' key => cases hrestores _ hw'
    | _ => exact ht

/-- What a held space loads from its own storage again. -/
theorem Restored.meta (h : Restored ck held ivs s t) {space : SpaceId} {secrets : SpaceSecrets}
    (hget : held.get? space = some secrets) : (t.meta space).session = some secrets.session ∧
      (t.meta space).loadKeyring = some secrets.keyring ∧
      (t.meta space).deviceKeyPair =
        (secrets.deviceKeyPair.map importKeyPair).or (s.meta space).deviceKeyPair ∧
      (t.meta space).signingKeyPair =
        (secrets.signingKeyPair.map importKeyPair).or (s.meta space).signingKeyPair := by
  refine ⟨?_, ?_, ?_, ?_⟩
  · simpa [SpaceMeta.get, MetaEntry.key] using
      h.entries space secrets _ hget (SpaceSecrets.mem_entries.mpr (Or.inl rfl))
  · have hring : (t.meta space).keyring = some secrets.keyring := by
      simpa [SpaceMeta.get, MetaEntry.key] using
        h.entries space secrets _ hget (SpaceSecrets.mem_entries.mpr (Or.inr (Or.inl rfl)))
    simp [SpaceMeta.loadKeyring, hring]
  · cases hpair : secrets.deviceKeyPair with
    | none => simpa using h.deviceKeyPair hget hpair
    | some pair =>
      simpa [SpaceMeta.get, MetaEntry.key] using
        h.entries space secrets _ hget
          (SpaceSecrets.mem_entries.mpr (Or.inr (Or.inr (Or.inl ⟨pair, hpair, rfl⟩))))
  · cases hpair : secrets.signingKeyPair with
    | none => simpa using h.signingKeyPair hget hpair
    | some pair =>
      simpa [SpaceMeta.get, MetaEntry.key] using
        h.entries space secrets _ hget
          (SpaceSecrets.mem_entries.mpr (Or.inr (Or.inr (Or.inr ⟨pair, hpair, rfl⟩))))

theorem startUp_deleteVault {user : User} :
    startUp user (DeviceStorage.write .deleteVault t) = ⟨none, none, false⟩ := rfl

theorem Restored.openSpace (h : Restored ck held ivs s t) (hpairs : Restorable ck held s)
    (space : SpaceId) :
    (DeviceStorage.write .deleteVault t).openSpace ⟨none, none, false⟩ space =
      s.openSpace ⟨some ck, some held, false⟩ space := by
  have hreg : (DeviceStorage.write .deleteVault t).spaces.get? space = none ↔
      s.spaces.get? space = none :=
    h.registered space
  have hmeta : (DeviceStorage.write .deleteVault t).meta = t.meta := rfl
  simp only [DeviceStorage.openSpace, hreg, hmeta, Option.bind_none, Option.bind_some]
  by_cases hnone : s.spaces.get? space = none
  · simp [hnone]
  · cases hget : held.get? space with
    | none => simp only [h.others space hget]
    | some secrets =>
      obtain ⟨hsession, hring, hdevice, hsigning⟩ := h.meta hget
      simp only [SpaceMeta.load, SpaceSecrets.load, hsession, hring, hdevice, hsigning]
      have hsome := hpairs.pairs space secrets hget hnone
      cases hstored : secrets.deviceKeyPair with
      | some pair => rfl
      | none =>
        obtain ⟨pair, hpair⟩ := Option.isSome_iff_exists.mp (hsome.resolve_left (by simp [hstored]))
        simp [hpair]

theorem kept_of_restorable {user : User} (hstart : startUp user s = ⟨some ck, some held, false⟩)
    (h : Restored ck held ivs s t) (hre : Restorable ck held s) :
    (s.view user).Kept ((DeviceStorage.write .deleteVault t).view user) := by
  unfold view
  rw [hstart, startUp_deleteVault]
  refine View.kept_of_open (fun id value hread => ?_) (fun space name hread => ?_)
    fun space => Or.inr (h.openSpace hre space)
  · obtain ⟨row, hrow, hbody⟩ := readRow_eq_some.mp hread
    cases hget : held.get? id.space with
    | some secrets =>
      exact readRow_eq_some.mpr ⟨_, h.plain id row value hrow (by simp [hget]) hbody, rfl⟩
    | none =>
      refine readRow_eq_some.mpr ⟨row, (h.elsewhere id hget).trans hrow, ?_⟩
      cases hstored : row.body with
      | plain v => simpa [hstored, fromStored] using hbody
      | «sealed» b =>
        have hheld := hre.rows id row value hrow (by rw [hstored]; rfl) hbody
        rw [hget] at hheld
        cases hheld
  · obtain ⟨old, hold, hname⟩ := Option.bind_eq_some_iff.mp hread
    exact Option.bind_eq_some_iff.mpr ⟨_, h.names space old hold,
      readName_rewriteName hname (Or.inr rfl)⟩

/-- A sealed row elsewhere is out of reach, and so is the session of a space without
a device key pair. -/
theorem restorable_of_kept {user : User} (hstart : startUp user s = ⟨some ck, some held, false⟩)
    (h : Restored ck held ivs s t)
    (hkept : (s.view user).Kept ((DeviceStorage.write .deleteVault t).view user)) :
    Restorable ck held s := by
  unfold view at hkept
  rw [hstart, startUp_deleteVault] at hkept
  refine ⟨fun id row value hrow hsealed hbody => ?_, fun space secrets hget hreg => ?_⟩
  · by_contra hheld
    have hget : held.get? id.space = none := by simpa using hheld
    have hread := hkept.row id value (readRow_eq_some.mpr ⟨row, hrow, hbody⟩)
    obtain ⟨row', hrow', hplain⟩ := readRow_eq_some.mp hread
    obtain rfl := Option.some.inj (hrow'.symm.trans ((h.elsewhere id hget).trans hrow))
    rw [fromStored_none_eq.mp hplain] at hsealed
    cases hsealed
  · have hopen : s.openSpace ⟨some ck, some held, false⟩ space = secrets.load (s.meta space) := by
      simp [DeviceStorage.openSpace, hreg, hget]
    have hsession :=
      hkept.session space secrets.session (by simp [viewWith, hopen, SpaceSecrets.load])
    obtain ⟨hs, hring, hdevice, _⟩ := h.meta hget
    have hreg' : (DeviceStorage.write .deleteVault t).spaces.get? space ≠ none :=
      fun hn => hreg ((h.registered space).mp hn)
    have hmeta : (DeviceStorage.write .deleteVault t).meta = t.meta := rfl
    simp only [viewWith, DeviceStorage.openSpace, hreg', hmeta, Option.bind_none,
      SpaceMeta.load, hs, hring,
      hdevice] at hsession
    cases hstored : secrets.deviceKeyPair with
    | some pair => exact Or.inl rfl
    | none =>
      cases hpair : (s.meta space).deviceKeyPair with
      | some pair => exact Or.inr rfl
      | none => simp [hstored, hpair, OpenSecrets.none] at hsession

/-- The end of the lock comes after everything else, unless a step threw. -/
theorem disableLock_eq : (none ∈ beforeEnd ck held ivs s ∧
      disableLock (some ck) held ivs s = upTo (beforeEnd ck held ivs s)) ∨
    (none ∉ beforeEnd ck held ivs s ∧
      disableLock (some ck) held ivs s = upTo (beforeEnd ck held ivs s) ++ [.deleteVault]) :=
  upTo_append (beforeEnd ck held ivs s) [some .deleteVault]

theorem endsLock_of_restores {w : StorageWrite α} (h : Restores ck held ivs s w) :
    w.endsLock = false := by
  cases w with
  | deleteVault => cases h
  | _ => rfl

end DeviceStorage
end SendSelf
