import SendSelf.Vault.Server

/-!
# What a call writes

Most awaits of a handler are reads. `VaultJob.batch` is the batch that a call commits at
its next await, if it commits one. A batch may claim content for an item, and it may
seal items: every other column that matters stays with a row as long as the row lives.
-/
namespace SendSelf

/-- The batch of a purge that is at work. -/
def TreePurge.batch (root : ItemId) : TreePurge → Option VaultBatch
  | .purging now found _ => some (.purge root (found.take PURGE_BATCH_SIZE) now)
  | _ => none

/-- The batch that a call commits at its next await. -/
def VaultJob.batch (started : ℕ) (m : VaultMoment) : VaultJob → Option VaultBatch
  | .create req (.ready keyEpoch size) =>
    some (.create (createVaultItem.item req keyEpoch size) m.now)
  | .update id req (.ready c) => some (.update id req.revision c m.now)
  | .reseal req (.ready keyEpoch) => some (.reseal keyEpoch req.items m.now)
  | .delete id (.purging stage) => stage.batch id
  | .cleanUp (.claiming id blobKey _) =>
      some (.claimExpired id (started - VAULT_TRASH_TTL_MS) blobKey m.now)
  | .cleanUp (.purging id stage _) => stage.batch id
  | .cleanUp .forgetting => some (.forget (started - VAULT_TOMBSTONE_TTL_MS))
  | _ => none

/-- What a database is after an optional batch. -/
def VaultBatch.commit? (batch : Option VaultBatch) (db : VaultDb) : VaultDb :=
  batch.elim db fun b => b.commit db

theorem purgeVaultItem.next_batch {root : ItemId} {now : ℕ} {rows : List ItemId} {db db' : VaultDb}
    {stage stage' : TreePurge} (h : next root now rows db stage = some (db', stage')) :
    db' = VaultBatch.commit? (stage.batch root) db := by
  cases stage with
  | walking purged =>
    simp only [next] at h
    split_ifs at h <;> exact (Prod.mk.inj (Option.some.inj h)).1.symm
  | purging at_ found purged => exact (Prod.mk.inj (Option.some.inj h)).1.symm
  | done purged => cases h

theorem VaultJob.next_batch {started : ℕ} {m : VaultMoment} {rows : List ItemId} {db db' : VaultDb}
    {job job' : VaultJob} (h : job.next started m rows db = some (db', job')) :
    db' = VaultBatch.commit? (job.batch started m) db := by
  cases job with
  | create req stage =>
    obtain ⟨rfl, _⟩ := Prod.mk.inj (Option.some.inj h)
    cases stage <;> rfl
  | update id req stage =>
    obtain ⟨rfl, _⟩ := Prod.mk.inj (Option.some.inj h)
    cases stage <;> rfl
  | reseal req stage =>
    obtain ⟨rfl, _⟩ := Prod.mk.inj (Option.some.inj h)
    cases stage <;> rfl
  | delete id stage =>
    obtain ⟨⟨db₁, stage'⟩, hstage, heq⟩ := Option.map_eq_some_iff.mp h
    obtain ⟨rfl, _⟩ := Prod.mk.inj heq
    cases stage with
    | received => exact (Prod.mk.inj (Option.some.inj hstage)).1.symm
    | authed => exact (Prod.mk.inj (Option.some.inj hstage)).1.symm
    | purging stage =>
      obtain ⟨⟨db₂, stage₂⟩, hpurge, heq⟩ := Option.map_eq_some_iff.mp hstage
      obtain ⟨rfl, _⟩ := Prod.mk.inj heq
      exact purgeVaultItem.next_batch hpurge
    | answered a => cases hstage
  | cleanUp stage =>
    obtain ⟨⟨db₁, stage'⟩, hstage, heq⟩ := Option.map_eq_some_iff.mp h
    obtain ⟨rfl, _⟩ := Prod.mk.inj heq
    cases stage with
    | selecting =>
      simp only [cleanUpVault.next] at hstage
      split_ifs at hstage <;> exact (Prod.mk.inj (Option.some.inj hstage)).1.symm
    | reading id rest => exact (Prod.mk.inj (Option.some.inj hstage)).1.symm
    | claiming id blobKey rest => exact (Prod.mk.inj (Option.some.inj hstage)).1.symm
    | purging id stage rest =>
      obtain ⟨⟨db₂, stage₂⟩, hpurge, heq⟩ := Option.map_eq_some_iff.mp hstage
      obtain ⟨rfl, _⟩ := Prod.mk.inj heq
      exact purgeVaultItem.next_batch hpurge
    | forgetting => exact (Prod.mk.inj (Option.some.inj hstage)).1.symm
    | done => cases hstage

namespace VaultDb

/-- A row after a statement is as it was, or it is the one that the statement changed. -/
theorem mem_change_cases {db : VaultDb} {id : ItemId} {guard : VaultItem → Bool}
    {f : VaultItem → VaultItem} {r : VaultItem} (h : r ∈ (db.change id guard f).1.items) :
    (r ∈ db.items ∧ (r.live = true → guard r = true → r.id ≠ id)) ∨
      ∃ q ∈ db.items, q.id = id ∧ q.live = true ∧ guard q = true ∧ r = stamp (db.seq + 1) f q := by
  obtain ⟨q, hq, hr⟩ := mem_change.mp h
  split_ifs at hr with hhit
  · simp only [Bool.and_eq_true, decide_eq_true_eq] at hhit
    exact Or.inr ⟨q, hq, hhit.1.1, hhit.1.2, hhit.2, hr⟩
  · subst hr
    refine Or.inl ⟨hq, fun hlive hguard hid => hhit ?_⟩
    simp only [Bool.and_eq_true, decide_eq_true_eq]
    exact ⟨⟨hid, hlive⟩, hguard⟩

theorem mem_create_cases {db : VaultDb} {item : NewItem} {now : ℕ} {r : VaultItem}
    (h : r ∈ (db.create item now).1.items) :
    r ∈ db.items ∨ (r = item.row (db.seq + 1) now ∧ (db.liveCount < VAULT_MAX_ITEMS ∧
      item.parentId.all db.liveFolder = true ∧ item.blobKey.all db.blobClaimable = true) ∧
      db.items.get? item.id = none) := by
  unfold create at h
  dsimp only at h
  split_ifs at h with hguard
  · split at h
    · next items hinsert =>
      obtain ⟨hmem, hnew⟩ := Table.insert_eq_some hinsert
      rcases (hmem r).mp h with hold | rfl
      · exact Or.inl hold
      · exact Or.inr ⟨rfl, hguard, Table.get?_eq_none.mpr hnew⟩
    · exact Or.inl h
  · exact Or.inl h

/-- A row that a tombstoning statement leaves alive is as it was. -/
theorem mem_tombstone_live {db : VaultDb} {id : ItemId} {guard : VaultItem → Bool} {now : ℕ}
    {r : VaultItem}
    (h : r ∈ (db.tombstone now id guard).1.items) (hlive : r.live = true) : r ∈ db.items := by
  rcases mem_change_cases h with ⟨hr, _⟩ | ⟨q, _, _, _, _, rfl⟩
  · exact hr
  · simp [stamp, buried, VaultItem.live] at hlive

theorem mem_purgeBatch_live {root : ItemId} {now : ℕ} {ids : List ItemId} {db : VaultDb}
    {r : VaultItem}
    (h : r ∈ (db.purgeBatch root now ids).1.items) (hlive : r.live = true) : r ∈ db.items := by
  induction ids generalizing db with
  | nil => exact h
  | cons id ids ih => exact mem_tombstone_live (ih h) hlive

theorem blobs_create {db : VaultDb} {item : NewItem} {now : ℕ} :
    (db.create item now).1.blobs = db.blobs := by
  unfold create
  dsimp only
  split_ifs
  · split <;> rfl
  · rfl

theorem blobs_reseal {keyEpoch now : ℕ} {items : List ResealedItem} {db : VaultDb} :
    (db.reseal keyEpoch items now).blobs = db.blobs := by
  induction items generalizing db with
  | nil => rfl
  | cons item items ih => exact ih

theorem blobs_purgeBatch {root : ItemId} {now : ℕ} {ids : List ItemId} {db : VaultDb} :
    (db.purgeBatch root now ids).1.blobs = db.blobs := by
  induction ids generalizing db with
  | nil => rfl
  | cons id ids ih => exact ih

end VaultDb

namespace VaultBatch
open VaultDb

/-- The content that the batch claims, and the item it claims it for. -/
def claims : VaultBatch → Option (ItemId × FileKey)
  | .create item _ => item.blobKey.map fun key => (item.id, key)
  | .update id _ changes _ => changes.blob.map fun b => (id, b.1)
  | _ => none

/-- The epoch that the batch stores in some row. -/
def stores (db : VaultDb) : VaultBatch → Option ℕ
  | .create item _ =>
      if db.liveCount < VAULT_MAX_ITEMS ∧ item.parentId.all db.liveFolder ∧
        item.blobKey.all db.blobClaimable ∧
        (db.items.get? item.id).isNone then some item.keyEpoch else none
  | .update id revision changes _ =>
      if (db.vaultItem id).any fun r => decide (r.revision = revision) && changes.guard id db then
        changes.sealing.map Prod.fst else none
  | .reseal keyEpoch items _ =>
      if items.any fun item => (db.vaultItem item.id).any fun r =>
        decide (r.revision = item.revision) && r.keyEpoch.any fun epoch =>
          decide (epoch < keyEpoch) then
          some keyEpoch else none
  | _ => none

/-- Two rows are sealed alike. -/
structure SameSealing (q r : VaultItem) : Prop where
  id : q.id = r.id
  live : q.live = true
  keyEpoch : q.keyEpoch = r.keyEpoch
  sealedMeta : q.meta = r.meta
  metaIv : q.metaIv = r.metaIv

/-- A handler's batch leaves the accounting rows alone. -/
theorem blobs_commit {batch : VaultBatch} {db : VaultDb} (h : ∀ blobs, batch ≠ .content blobs) :
    (batch.commit db).blobs = db.blobs := by
  cases batch with
  | create item now => exact blobs_create
  | update id revision changes now => rfl
  | reseal keyEpoch items now => exact blobs_reseal
  | purge root ids now => exact blobs_purgeBatch
  | claimExpired id expiredBefore blobKey now => rfl
  | forget forgottenBefore => rfl
  | content blobs => exact absurd rfl (h blobs)

/-- An item's content was its content before, or the batch claimed it. -/
theorem content_of_commit {batch : VaultBatch} {db : VaultDb} {r : VaultItem}
    (h : r ∈ (batch.commit db).items)
    (hlive : r.live = true) {key : FileKey} (hkey : r.blobKey = some key) :
    (∃ q ∈ db.items, q.id = r.id ∧ q.live = true ∧ q.blobKey = some key) ∨
      (batch.claims = some (r.id, key) ∧ db.blobClaimable key = true) := by
  have hsame : r ∈ db.items → ∃ q ∈ db.items, q.id = r.id ∧ q.live = true ∧ q.blobKey = some key :=
    fun hr => ⟨r, hr, rfl, hlive, hkey⟩
  cases batch with
  | create item now =>
    rcases mem_create_cases h with hr | ⟨rfl, ⟨_, _, hfree⟩, _⟩
    · exact Or.inl (hsame hr)
    · have hitem : item.blobKey = some key := hkey
      refine Or.inr ⟨?_, ?_⟩
      · rw [claims, hitem]
        rfl
      · rwa [hitem] at hfree
  | update id revision changes now =>
    rcases mem_change_cases h with ⟨hr, _⟩ | ⟨q, hq, hid, hqlive, hguard, rfl⟩
    · exact Or.inl (hsame hr)
    · cases hblob : changes.blob with
      | none =>
        left
        refine ⟨q, hq, rfl, hqlive, ?_⟩
        simpa [stamp, ItemChanges.apply, hblob] using hkey
      | some b =>
        right
        have hb : b.1 = key := by simpa [stamp, ItemChanges.apply, hblob] using hkey
        simp only [ItemChanges.guard, hblob, Option.all_some, Bool.and_eq_true] at hguard
        refine ⟨?_, hb ▸ hguard.2.2⟩
        simp only [claims, hblob, Option.map_some, hb, ← hid]
        rfl
  | reseal keyEpoch items now =>
    left
    clear hsame
    simp only [commit] at h
    induction items generalizing db with
    | nil => exact ⟨r, h, rfl, hlive, hkey⟩
    | cons item items ih =>
      obtain ⟨q, hq, hid, hqlive, hqkey⟩ := ih h
      rcases mem_change_cases hq with ⟨hq, _⟩ | ⟨p, hp, _, hplive, _, rfl⟩
      · exact ⟨q, hq, hid, hqlive, hqkey⟩
      · exact ⟨p, hp, hid, hplive, hqkey⟩
  | purge root ids now => exact Or.inl (hsame (mem_purgeBatch_live h hlive))
  | claimExpired id expiredBefore blobKey now => exact Or.inl (hsame (mem_tombstone_live h hlive))
  | forget forgottenBefore => exact Or.inl (hsame (Table.mem_delete.mp h).1)
  | content blobs => exact Or.inl (hsame h)

theorem SameSealing.refl {r : VaultItem} (h : r.live = true) : SameSealing r r :=
  ⟨rfl, h, rfl, rfl, rfl⟩

theorem SameSealing.trans {p q r : VaultItem} (h : SameSealing p q) (h' : SameSealing q r) :
    SameSealing p r :=
  ⟨h.id.trans h'.id, h.live, h.keyEpoch.trans h'.keyEpoch, h.sealedMeta.trans h'.sealedMeta,
    h.metaIv.trans h'.metaIv⟩

theorem sealing_of_reseal {keyEpoch now : ℕ} {items : List ResealedItem} {db : VaultDb}
    {r : VaultItem} (h : r ∈ (db.reseal keyEpoch items now).items) (hlive : r.live = true) :
    (∃ q ∈ db.items, SameSealing q r) ∨
      (r.keyEpoch = some keyEpoch ∧ ∃ item ∈ items, ∃ q, db.vaultItem item.id = some q ∧
        q.revision = item.revision ∧ ∃ epoch, q.keyEpoch = some epoch ∧ epoch < keyEpoch) := by
  induction items generalizing db with
  | nil => exact Or.inl ⟨r, h, .refl hlive⟩
  | cons item items ih =>
    have hone : ∀ q ∈ (db.resealOne keyEpoch now item).items, q.live = true →
        (∃ p ∈ db.items, SameSealing p q ∧ p.revision = q.revision) ∨
          (q.keyEpoch = some keyEpoch ∧ ∃ p, db.vaultItem item.id = some p ∧
            p.revision = item.revision ∧ ∃ epoch, p.keyEpoch = some epoch ∧ epoch < keyEpoch) := by
      intro q hq hqlive
      rcases mem_change_cases hq with ⟨hq, _⟩ | ⟨p, hp, hid, hplive, hguard, rfl⟩
      · exact Or.inl ⟨q, hq, .refl hqlive, rfl⟩
      · simp only [Bool.and_eq_true, decide_eq_true_eq, Option.any_eq_true] at hguard
        obtain ⟨hrev, epoch, hepoch, hlt⟩ := hguard
        exact Or.inr ⟨rfl, p, mem_vaultItem.mpr ⟨hp, hid, hplive⟩, hrev, epoch, hepoch, hlt⟩
    rcases ih h with ⟨q, hq, hsame⟩ | ⟨hepoch, item', hitem, q, hq, hrev, epoch, hqe, hlt⟩
    · rcases hone q hq hsame.live with ⟨p, hp, hpq, _⟩ | ⟨hqepoch, p, hp⟩
      · exact Or.inl ⟨p, hp, hpq.trans hsame⟩
      · exact Or.inr ⟨hsame.keyEpoch.symm.trans hqepoch, item, List.mem_cons_self, p, hp⟩
    · obtain ⟨hqm, hqid, hqlive⟩ := mem_vaultItem.mp hq
      rcases hone q hqm hqlive with ⟨p, hp, hpq, hprev⟩ | ⟨hqepoch, _⟩
      · exact Or.inr ⟨hepoch, item', List.mem_cons_of_mem _ hitem, p,
          mem_vaultItem.mpr ⟨hp, hpq.id.trans hqid, hpq.live⟩, hprev.trans hrev, epoch,
          hpq.keyEpoch.trans hqe, hlt⟩
      · rw [hqe] at hqepoch
        exact absurd (Option.some.inj hqepoch) hlt.ne

/-- An item is sealed as it was before, or the batch sealed it. -/
theorem sealing_of_commit {batch : VaultBatch} {db : VaultDb} {r : VaultItem}
    (h : r ∈ (batch.commit db).items) (hlive : r.live = true) : (∃ q ∈ db.items, SameSealing q r) ∨
      (batch.stores db).isSome = true ∧ batch.stores db = r.keyEpoch := by
  have hsame : r ∈ db.items → ∃ q ∈ db.items, SameSealing q r := fun hr => ⟨r, hr, .refl hlive⟩
  cases batch with
  | create item now =>
    rcases mem_create_cases h with hr | ⟨rfl, hguard, hnone⟩
    · exact Or.inl (hsame hr)
    · have hall : db.liveCount < VAULT_MAX_ITEMS ∧ item.parentId.all db.liveFolder ∧
          item.blobKey.all db.blobClaimable ∧
          (db.items.get? item.id).isNone := ⟨hguard.1, hguard.2.1, hguard.2.2, by rw [hnone]; rfl⟩
      rw [stores, if_pos hall]
      exact Or.inr ⟨rfl, rfl⟩
  | update id revision changes now =>
    rcases mem_change_cases h with ⟨hr, _⟩ | ⟨q, hq, hid, hqlive, hguard, rfl⟩
    · exact Or.inl (hsame hr)
    · cases hseal : changes.sealing with
      | none =>
        left
        refine ⟨q, hq, rfl, hqlive, ?_, ?_, ?_⟩ <;> simp [stamp, ItemChanges.apply, hseal]
      | some sealing =>
        right
        have hany :
            ((db.vaultItem id).any fun r => decide (r.revision = revision) && changes.guard id db) =
              true := by
          rw [mem_vaultItem.mpr ⟨hq, hid, hqlive⟩]
          exact hguard
        rw [stores, if_pos hany]
        simp [stamp, ItemChanges.apply, hseal]
  | reseal keyEpoch items now =>
    rcases sealing_of_reseal h hlive with hold | ⟨hepoch, item, hitem, q, hq, hrev, epoch, hqe, hlt⟩
    · exact Or.inl hold
    · have hany : (items.any fun item => (db.vaultItem item.id).any fun r =>
          decide (r.revision = item.revision) && r.keyEpoch.any fun epoch =>
            decide (epoch < keyEpoch)) = true :=
        List.any_eq_true.mpr ⟨item, hitem, by simp [hq, hrev, hqe, hlt]⟩
      rw [stores, if_pos hany]
      exact Or.inr ⟨rfl, hepoch.symm⟩
  | purge root ids now => exact Or.inl (hsame (mem_purgeBatch_live h hlive))
  | claimExpired id expiredBefore blobKey now => exact Or.inl (hsame (mem_tombstone_live h hlive))
  | forget forgottenBefore => exact Or.inl (hsame (Table.mem_delete.mp h).1)
  | content blobs => exact Or.inl (hsame h)

end VaultBatch
end SendSelf
