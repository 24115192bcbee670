import SendSelf.Vault.Server

/-!
# What purges leave of the rows

A batch of a purge turns live rows into tombstones and leaves all others as they are,
and a tombstone keeps its place in the tree.
-/
namespace SendSelf

namespace VaultDb

/-- What is below `gone` is not alive any more, and everything else is as it was. -/
structure Purged (gone : ItemId → Prop) (db db' : VaultDb) : Prop where
  parent : db'.parentOf = db.parentOf
  there : ∀ x, (db'.items.get? x).isSome = (db.items.get? x).isSome
  live : ∀ r, (r ∈ db'.items ∧ r.live = true) ↔ (r ∈ db.items ∧ r.live = true ∧ ¬ gone r.id)

theorem Purged.refl (db : VaultDb) : Purged (fun _ => False) db db :=
  ⟨rfl, fun _ => rfl, fun r => by simp⟩

theorem Purged.trans {gone gone' : ItemId → Prop} {db db' db'' : VaultDb} (h : Purged gone db db')
    (h' : Purged gone' db' db'') : Purged (fun x => gone x ∨ gone' x) db db'' where
  parent := h'.parent.trans h.parent
  there := fun x => (h'.there x).trans (h.there x)
  live := fun r => by rw [h'.live, ← and_assoc, h.live, and_assoc, and_assoc, not_or]

theorem Purged.congr {gone gone' : ItemId → Prop} {db db' : VaultDb} (h : Purged gone db db')
    (hiff : ∀ r ∈ db.items, r.live = true → (gone r.id ↔ gone' r.id)) : Purged gone' db db' where
  parent := h.parent
  there := h.there
  live := fun r => by
    rw [h.live]
    exact and_congr_right fun hr => and_congr_right fun hlive => not_congr (hiff r hr hlive)

/-- A tombstone. -/
theorem purged_tombstone (now : ℕ) (id : ItemId) (guard : VaultItem → Bool) (db : VaultDb) :
    Purged (fun x => ((db.vaultItem id).filter guard).isSome = true ∧
      x = id) db (db.tombstone now id guard).1 where
  parent := by
    funext x
    unfold parentOf tombstone
    rw [get?_change]
    cases db.items.get? x with
    | none => rfl
    | some r =>
      rw [Option.map_some, Option.bind_some, Option.bind_some]
      split_ifs <;> rfl
  there := fun x => by rw [tombstone, get?_change, Option.isSome_map]
  live := fun r => by
    rw [tombstone, mem_change]
    constructor
    · intro ⟨⟨q, hq, hr⟩, hlive⟩
      split_ifs at hr with hhit
      · subst hr
        exact absurd hlive Bool.noConfusion
      · subst hr
        refine ⟨hq, hlive, fun ⟨hsome, hid⟩ => hhit ?_⟩
        obtain ⟨p, hp⟩ := Option.isSome_iff_exists.mp hsome
        obtain ⟨hitem, hguard⟩ := Option.filter_eq_some_iff.mp hp
        obtain ⟨hmem, hpid, _⟩ := mem_vaultItem.mp hitem
        rw [Table.eq_of_key hmem hq (hpid.trans hid.symm)] at hguard
        simp only [Bool.and_eq_true, decide_eq_true_eq]
        exact ⟨⟨hid, hlive⟩, hguard⟩
    · intro ⟨hr, hlive, hnot⟩
      refine ⟨⟨r, hr, ?_⟩, hlive⟩
      rw [if_neg]
      intro hhit
      simp only [Bool.and_eq_true, decide_eq_true_eq] at hhit
      refine hnot ⟨?_, hhit.1.1⟩
      rw [Option.filter_eq_some_iff.mpr ⟨mem_vaultItem.mpr ⟨hr, hhit.1.1, hlive⟩, hhit.2⟩]
      rfl

/-- One batch purges those of its items that are alive below the root. -/
theorem purged_batch (root : ItemId) (now : ℕ) (ids : List ItemId) (db : VaultDb) :
    Purged (fun x => x ∈ ids ∧ Forest.Above db.parentOf root x) db
      (db.purgeBatch root now ids).1 := by
  induction ids generalizing db with
  | nil => exact (Purged.refl db).congr fun r _ _ => by simp
  | cons id ids ih =>
    have hone := purged_tombstone now id (fun _ => db.subtree root id) db
    refine (hone.trans (ih _)).congr fun r hr hlive => ?_
    rw [hone.parent, List.mem_cons]
    have hsome : r.id = id → (((db.vaultItem id).filter fun _ => db.subtree root id).isSome = true ↔
        Forest.Above db.parentOf root r.id) := by
      intro hid
      rw [mem_vaultItem.mpr ⟨hr, hid, hlive⟩, ← subtree_iff, hid]
      cases db.subtree root id <;> simp [Option.filter]
    constructor
    · intro h
      rcases h with ⟨hrow, hid⟩ | ⟨hmem, habove⟩
      · exact ⟨Or.inl hid, (hsome hid).mp hrow⟩
      · exact ⟨Or.inr hmem, habove⟩
    · intro ⟨hmem, habove⟩
      rcases hmem with hid | hmem
      · exact Or.inl ⟨(hsome hid).mpr habove, hid⟩
      · exact Or.inr ⟨hmem, habove⟩

/-- Only what is below `root` was purged. -/
def PurgedBelow (root : ItemId) (db db' : VaultDb) : Prop :=
  ∃ gone, db.Purged gone db' ∧ ∀ x, gone x → Forest.Above db.parentOf root x

theorem PurgedBelow.refl (db : VaultDb) (root : ItemId) : db.PurgedBelow root db :=
  ⟨_, .refl db, fun _ => False.elim⟩

theorem PurgedBelow.trans {root : ItemId} {db db' db'' : VaultDb} (h : db.PurgedBelow root db')
    (h' : db'.PurgedBelow root db'') : db.PurgedBelow root db'' := by
  obtain ⟨gone, hpurged, hgone⟩ := h
  obtain ⟨gone', hpurged', hgone'⟩ := h'
  refine ⟨_, hpurged.trans hpurged', fun x hx => ?_⟩
  rcases hx with hx | hx
  · exact hgone x hx
  · exact hpurged.parent ▸ hgone' x hx

/-- One step of a purge. -/
theorem purged_of_next {root : ItemId} {now : ℕ} {rows : List ItemId} {db : VaultDb}
    {stage : TreePurge}
    {next : VaultDb × TreePurge} (h : purgeVaultItem.next root now rows db stage = some next) :
    db.PurgedBelow root next.1 := by
  cases stage with
  | walking purged =>
    simp only [purgeVaultItem.next] at h
    split_ifs at h
    · obtain rfl := Option.some.inj h
      exact .refl db root
    · obtain rfl := Option.some.inj h
      exact .refl db root
  | purging now found purged =>
    obtain rfl := Option.some.inj h
    exact ⟨_, purged_batch root now _ db, fun x hx => hx.2⟩
  | done purged => cases h

end VaultDb
end SendSelf
