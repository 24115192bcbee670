import SendSelf.Library.Changefeed
import SendSelf.Library.Runs
import SendSelf.Vault.Items

/-!
# The vault's change numbers

Every batch either stamps what it writes with fresh numbers or forgets tombstones
under a raised floor, so that the table is a changefeed whatever is written to it.
-/
namespace SendSelf

/-- `removed_at IS NOT NULL`. -/
def VaultItem.removed (r : VaultItem) : Bool := !r.live

namespace VaultDb

/-- The table as a feed of changes. -/
def feed (db : VaultDb) : Changefeed VaultItem.id := ⟨db.items, db.seq, db.floor⟩

def Numbered (db : VaultDb) : Prop := db.feed.Numbered VaultItem.seq

/-- What a batch that forgets nothing does to the numbers. -/
structure Advances (db db' : VaultDb) : Prop where
  stamped : db.feed.Stamped VaultItem.seq db'.feed
  numbered : db.Numbered → db'.Numbered

theorem Advances.refl (db : VaultDb) : db.Advances db := ⟨.refl _, id⟩

theorem Advances.trans {db db' db'' : VaultDb} (h : db.Advances db') (h' : db'.Advances db'') :
    db.Advances db'' := ⟨h.stamped.trans h'.stamped, fun hn => h'.numbered (h.numbered hn)⟩

theorem mem_vaultItem {db : VaultDb} {id : ItemId} {r : VaultItem} :
    db.vaultItem id = some r ↔ r ∈ db.items ∧ r.id = id ∧ r.live = true := by
  rw [vaultItem, Option.filter_eq_some_iff, Table.get?_eq_some, and_assoc]

theorem mem_change {db : VaultDb} {id : ItemId} {guard : VaultItem → Bool}
    {f : VaultItem → VaultItem} {r : VaultItem} : r ∈ (db.change id guard f).1.items ↔
      ∃ q ∈ db.items,
        r = if (decide (q.id = id) && q.live && guard q) = true then stamp (db.seq + 1) f q
          else q := by
  simp only [change, nextVaultSeq, Table.mem_update]

theorem change_answer (db : VaultDb) (id : ItemId) (guard : VaultItem → Bool)
    (f : VaultItem → VaultItem) :
    (db.change id guard f).2 = ((db.vaultItem id).filter guard).map (stamp (db.seq + 1) f) := rfl

theorem change_advances (db : VaultDb) (id : ItemId) (guard : VaultItem → Bool)
    (f : VaultItem → VaultItem) :
    db.Advances (db.change id guard f).1 where
  stamped := {
    top := Nat.le_succ _
    floor := rfl
    rows := fun r hr => by
      obtain ⟨q, hq, rfl⟩ := mem_change.mp hr
      split_ifs
      · exact Or.inr (Nat.lt_succ_self _)
      · exact Or.inl hq
    kept := fun r hr => by
      refine ⟨_, mem_change.mpr ⟨r, hr, rfl⟩, ?_⟩
      split_ifs <;> rfl }
  numbered := fun hn => {
    distinct := fun r hr s hs he => by
      obtain ⟨q, hq, rfl⟩ := mem_change.mp hr
      obtain ⟨p, hp, rfl⟩ := mem_change.mp hs
      have hq' : q.seq ≤ db.seq := hn.le_top q hq
      have hp' : p.seq ≤ db.seq := hn.le_top p hp
      split_ifs at he ⊢ with h₁ h₂ h₃
      · simp only [Bool.and_eq_true, decide_eq_true_eq] at h₁ h₂
        rw [Table.eq_of_key hq hp (h₁.1.1.trans h₂.1.1.symm)]
      · simp only [stamp] at he
        omega
      · simp only [stamp] at he
        omega
      · exact hn.distinct q hq p hp he
    pos := fun r hr => by
      obtain ⟨q, hq, rfl⟩ := mem_change.mp hr
      split_ifs
      · exact Nat.succ_pos _
      · exact hn.pos q hq
    le_top := fun r hr => by
      obtain ⟨q, hq, rfl⟩ := mem_change.mp hr
      split_ifs
      · exact le_rfl
      · exact (hn.le_top q hq).trans (Nat.le_succ _)
    floor_le := hn.floor_le.trans (Nat.le_succ _) }

theorem nextVaultSeq_advances (db : VaultDb) : db.Advances db.nextVaultSeq where
  stamped := ⟨Nat.le_succ _, rfl, fun _ hr => Or.inl hr, fun r hr => ⟨r, hr, rfl⟩⟩
  numbered := fun hn => ⟨hn.distinct, hn.pos, fun r hr => (hn.le_top r hr).trans (Nat.le_succ _),
    hn.floor_le.trans (Nat.le_succ _)⟩

/-- A creation stamps the new row; one that was carried out before changes nothing. -/
theorem create_advances (db : VaultDb) (item : NewItem) (now : ℕ) :
    db.Advances (db.create item now).1 := by
  unfold create
  dsimp only
  split_ifs with hguard
  · split
    · rename_i items hinsert
      obtain ⟨hmem, hfresh⟩ := Table.insert_eq_some hinsert
      refine ⟨⟨Nat.le_succ _, rfl, fun r hr => ?_, fun r hr => ⟨r, (hmem r).mpr (Or.inl hr), rfl⟩⟩,
        fun hn => ?_⟩
      · rcases (hmem r).mp hr with hold | rfl
        · exact Or.inl hold
        · exact Or.inr (Nat.lt_succ_self _)
      · have hold : ∀ r ∈ db.items, r.seq < db.seq + 1 :=
          fun r hr => Nat.lt_succ_of_le (hn.le_top r hr)
        refine ⟨fun r hr s hs he => ?_, fun r hr => ?_, fun r hr => ?_,
          hn.floor_le.trans (Nat.le_succ _)⟩
        · rcases (hmem r).mp hr with hr | rfl <;> rcases (hmem s).mp hs with hs | rfl
          · exact hn.distinct r hr s hs he
          · exact absurd he (hold r hr).ne
          · exact absurd he.symm (hold s hs).ne
          · rfl
        · rcases (hmem r).mp hr with hr | rfl
          · exact hn.pos r hr
          · exact Nat.succ_pos _
        · rcases (hmem r).mp hr with hr | rfl
          · exact (hold r hr).le
          · exact le_rfl
    · exact db.nextVaultSeq_advances
  · exact db.nextVaultSeq_advances

/-- Every row that is sealed again gets a number of its own. -/
theorem reseal_advances (keyEpoch now : ℕ) (items : List ResealedItem) (db : VaultDb) :
    db.Advances (db.reseal keyEpoch items now) := by
  induction items generalizing db with
  | nil => exact .refl db
  | cons item items ih => exact (db.change_advances ..).trans (ih _)

theorem purgeBatch_advances (root : ItemId) (now : ℕ) (ids : List ItemId) (db : VaultDb) :
    db.Advances (db.purgeBatch root now ids).1 := by
  induction ids generalizing db with
  | nil => exact .refl db
  | cons id ids ih => exact (db.change_advances ..).trans (ih _)

theorem le_foldl_max {l : List ℕ} {a b : ℕ} : b ≤ l.foldl max a ↔ b ≤ a ∨ ∃ x ∈ l, b ≤ x := by
  induction l generalizing a with
  | nil => simp
  | cons x l ih => simp [ih, or_assoc]

/-- Forgetting takes away old tombstones and raises the floor over them. -/
theorem forget_forgotten {db : VaultDb} (hn : db.Numbered) (forgottenBefore : ℕ) :
    db.feed.Forgotten VaultItem.seq VaultItem.removed (db.forget forgottenBefore).feed where
  top := rfl
  floor := le_foldl_max.mpr (Or.inl le_rfl)
  floor_le := by
    rcases le_foldl_max.mp (le_refl (db.forget forgottenBefore).floor) with hold | ⟨s, hs, hle⟩
    · exact hold.trans (le_max_left _ _)
    · obtain ⟨r, hr, rfl⟩ := List.mem_map.mp hs
      exact (hle.trans (hn.le_top r (Table.mem_select.mp hr).1)).trans (le_max_right _ _)
  rows := fun r hr => (Table.mem_delete.mp hr).1
  lost := fun r hr => by
    cases hf : forgettable forgottenBefore r with
    | false => exact Or.inl (Table.mem_delete.mpr ⟨hr, hf⟩)
    | true =>
      refine Or.inr ⟨?_,
        le_foldl_max.mpr
          (Or.inr ⟨r.seq, List.mem_map.mpr ⟨r, Table.mem_select.mpr ⟨hr, hf⟩, rfl⟩, le_rfl⟩)⟩
      obtain ⟨at_, hat, _⟩ := Option.any_eq_true .. |>.mp hf
      simp [VaultItem.removed, VaultItem.live, hat]

end VaultDb

namespace VaultBatch
open VaultDb

/-- A batch forgets tombstones, or it stamps what it changes. -/
theorem commit_cases (batch : VaultBatch) (db : VaultDb) :
    (∃ forgottenBefore, batch = .forget forgottenBefore) ∨ db.Advances (batch.commit db) := by
  cases batch with
  | create item now => exact Or.inr (db.create_advances item now)
  | update id revision changes now => exact Or.inr (db.change_advances ..)
  | reseal keyEpoch items now => exact Or.inr (reseal_advances keyEpoch now items db)
  | purge root ids now => exact Or.inr (purgeBatch_advances root now ids db)
  | claimExpired id expiredBefore blobKey now => exact Or.inr (db.change_advances ..)
  | forget forgottenBefore => exact Or.inl ⟨_, rfl⟩
  | content blobs =>
    exact Or.inr ⟨⟨le_rfl, rfl, fun _ hr => Or.inl hr, fun r hr => ⟨r, hr, rfl⟩⟩,
      fun hn => ⟨hn.distinct, hn.pos, hn.le_top, hn.floor_le⟩⟩

theorem commit_numbered {db : VaultDb} (hn : db.Numbered) (batch : VaultBatch) :
    (batch.commit db).Numbered := by
  rcases batch.commit_cases db with ⟨forgottenBefore, rfl⟩ | hadvances
  · exact (forget_forgotten hn forgottenBefore).numbered hn
  · exact hadvances.numbered hn

theorem commit_later {db : VaultDb} (hn : db.Numbered) (batch : VaultBatch) :
    db.feed.Later VaultItem.seq VaultItem.removed (batch.commit db).feed := by
  rcases batch.commit_cases db with ⟨forgottenBefore, rfl⟩ | hadvances
  · exact (forget_forgotten hn forgottenBefore).later
  · exact hadvances.stamped.later

end VaultBatch

namespace VaultDb

theorem new_numbered : VaultDb.new.Numbered :=
  ⟨fun _ hr => (Table.not_mem_empty hr).elim, fun _ hr => (Table.not_mem_empty hr).elim,
    fun _ hr => (Table.not_mem_empty hr).elim, le_rfl⟩

theorem numbered_of_reachable {db : VaultDb} (h : Runs.Reachable VaultDb.write VaultDb.new db) :
    db.Numbered :=
  h.invariant new_numbered fun _ batch _ hn _ hstep =>
    Option.some.inj hstep ▸ batch.commit_numbered hn

end VaultDb
end SendSelf
