import SendSelf.Vault.Server

/-!
# The vault is a forest of live folders

What one step of a call does to the tree, and what every run keeps: parents form a
forest, nothing lives below an item whose purge has returned, and a live item has live
folders above it unless a purge is at work above them.
-/
namespace SendSelf

namespace VaultDb
open SendSelf.Tree

theorem buries_purgeBatch (root : ItemId) (now : ℕ) (ids : List ItemId) (db : VaultDb) :
    Buries root now db.tree (db.purgeBatch root now ids).1.tree := by
  suffices h : ∀ t : Tree ItemId, Buries root now t db.tree →
      Buries root now t (db.purgeBatch root now ids).1.tree from
    h db.tree .start
  intro t h
  induction ids generalizing db with
  | nil => exact h
  | cons id ids ih =>
    refine ih _ ?_
    unfold tombstone
    cases hrow : (db.vaultItem id).filter fun _ => db.subtree root id with
    | none => rwa [tree_change_none hrow]
    | some r =>
      obtain ⟨hitem, hsub⟩ := Option.filter_eq_some_iff.mp hrow
      obtain ⟨hmem, hid, hlive⟩ := mem_vaultItem.mp hitem
      rw [tree_change_some hrow]
      exact h.bury (tree_eq_some.mpr ⟨r, hmem, hid, rfl⟩) (live_iff.mp hlive)
        (subtree_iff_tree.mp hsub)

/-- The node that `createVaultItem` hangs. -/
def NewItem.node (item : NewItem) : Node ItemId :=
  ⟨item.parentId, decide (item.kind = .folder), none⟩

theorem tree_create (item : NewItem) (now : ℕ) (db : VaultDb) :
    (db.create item now).1.tree = db.tree ∨
    (db.tree item.id = none ∧ (∀ p, item.parentId = some p → db.tree.LiveFolder p) ∧
      (db.create item now).1.tree = db.tree.set item.id item.node) := by
  unfold create
  dsimp only
  split_ifs with hguard
  · split
    · rename_i items hinsert
      have hfree : db.items.get? item.id = none := by
        rw [Table.get?_eq_none]
        exact (Table.insert_eq_some hinsert).2
      refine Or.inr ⟨by rw [tree, hfree]; rfl, fun p hp => ?_, ?_⟩
      · refine tree_liveFolder.mpr ?_
        have hall := hguard.2.1
        rw [hp] at hall
        exact hall
      · funext x
        rw [tree]
        dsimp only
        rw [Table.get?_insert hinsert]
        split_ifs with hx
        · obtain rfl : x = item.id := hx
          exact (set_self _ _).symm
        · have hne : x ≠ item.id := hx
          rw [set_of_ne hne]
          rfl
    · exact Or.inl rfl
  · exact Or.inl rfl

/-- The row meets the conditions of the statement. -/
def accepts (db : VaultDb) (id : ItemId) (revision : ℕ) (changes : ItemChanges) : Bool :=
  (db.vaultItem id).any fun r => decide (r.revision = revision) && changes.guard id db

theorem tree_update (id : ItemId) (revision : ℕ) (changes : ItemChanges) (now : ℕ) (db : VaultDb) :
    (db.update id revision changes now).1.tree = db.tree ∨
      ∃ p n, changes.parentId = some p ∧ db.accepts id revision changes = true ∧
        Moves db.tree id n p ∧
        (db.update id revision changes now).1.tree = db.tree.moved id n p := by
  unfold update
  cases hrow : (db.vaultItem id).filter fun r =>
    decide (r.revision = revision) && changes.guard id db with
  | none => exact Or.inl (tree_change_none hrow)
  | some r =>
    obtain ⟨hitem, hguard⟩ := Option.filter_eq_some_iff.mp hrow
    obtain ⟨hmem, hid, hlive⟩ := mem_vaultItem.mp hitem
    cases hp : changes.parentId with
    | none =>
      refine Or.inl ?_
      have hnode : (changes.apply now r).node = r.node := by
        simp only [VaultItem.node, ItemChanges.apply, hp, Option.getD_none]
      rw [tree_change_some hrow, hnode, ← hid, set_node_self hmem]
    | some p =>
      simp only [Bool.and_eq_true, ItemChanges.guard, hp, Option.all_some] at hguard
      have hnode : (changes.apply now r).node = { r.node with parent := p } := by
        simp only [VaultItem.node, ItemChanges.apply, hp, Option.getD_some]
      have haccepts : db.accepts id revision changes = true := by
        rw [accepts, hitem, Option.any_some]
        simp only [Bool.and_eq_true, ItemChanges.guard, hp, Option.all_some]
        exact hguard
      refine Or.inr ⟨p, r.node, rfl, haccepts,
        ⟨tree_eq_some.mpr ⟨r, hmem, hid, rfl⟩, live_iff.mp hlive, fun q hq => ?_,
        fun q hq habove => ?_⟩, by rw [tree_change_some hrow, hnode]; rfl⟩
      · have hall := hguard.2.1
        rw [hq, Option.all_some, Bool.and_eq_true] at hall
        exact tree_liveFolder.mpr hall.1
      · have hall := hguard.2.1
        rw [hq, Option.all_some, Bool.and_eq_true, Bool.not_eq_true'] at hall
        exact absurd (subtree_iff_tree.mpr habove) (Bool.eq_false_iff.mp hall.2)

theorem tree_claimExpired (id : ItemId) (expiredBefore : ℕ) (blobKey : Option FileKey) (now : ℕ)
    (db : VaultDb) :
    ((db.claimExpired id expiredBefore blobKey now).2 = none ∧
        (db.claimExpired id expiredBefore blobKey now).1.tree = db.tree) ∨
      ∃ n, db.tree id = some n ∧ n.removedAt = none ∧
        (db.claimExpired id expiredBefore blobKey now).2.isSome = true ∧
        (db.claimExpired id expiredBefore blobKey now).1.tree = db.tree.buried id n now := by
  unfold claimExpired tombstone
  cases hrow : (db.vaultItem id).filter fun r =>
      (r.trashedAt.any fun at_ => decide (at_ < expiredBefore)) && decide (r.blobKey = blobKey) with
  | none => exact Or.inl ⟨by rw [change_answer, hrow, Option.map_none], tree_change_none hrow⟩
  | some r =>
    obtain ⟨hitem, _⟩ := Option.filter_eq_some_iff.mp hrow
    obtain ⟨hmem, hid, hlive⟩ := mem_vaultItem.mp hitem
    refine Or.inr ⟨r.node, tree_eq_some.mpr ⟨r, hmem, hid, rfl⟩, live_iff.mp hlive, ?_, by
      rw [tree_change_some hrow]; rfl⟩
    rw [change_answer, hrow, Option.map_some, Option.isSome_some]

theorem mem_alive {db : VaultDb} {root x : ItemId} : x ∈ db.alive root ↔
    db.tree.Live x ∧ (db.tree root).isSome = true ∧ Forest.Above db.tree.parent root x := by
  simp only [alive, List.mem_map, Table.mem_select, Bool.and_eq_true]
  constructor
  · rintro ⟨r, ⟨hr, hlive, hroot, hsub⟩, hx⟩
    subst hx
    exact ⟨tree_live.mpr ⟨r, hr, rfl, hlive⟩, by
      rw [tree, Option.isSome_map, hroot], subtree_iff_tree.mp hsub⟩
  · rintro ⟨hlive, hroot, habove⟩
    obtain ⟨r, hr, rfl, hr'⟩ := tree_live.mp hlive
    rw [tree, Option.isSome_map] at hroot
    exact ⟨r, ⟨hr, hr', hroot, subtree_iff_tree.mpr habove⟩, rfl⟩

/-- A walk that finds nothing. -/
theorem empty_of_alive {db : VaultDb} {root : ItemId} (h : db.alive root = [])
    (hroot : (db.tree root).isSome = true) :
    db.tree.Empty root := by
  intro y hy habove
  have hmem := mem_alive.mpr ⟨hy, hroot, habove⟩
  rw [h] at hmem
  exact List.not_mem_nil hmem

end VaultDb

/-- A purge at work walked the tree since its call came in. -/
def VaultJob.WalkedSince (started : ℕ) : VaultJob → Prop
  | .delete _ (.purging (.purging now _ _)) => started ≤ now
  | .cleanUp (.purging _ (.purging now _ _) _) => started ≤ now
  | _ => True

open SendSelf.Tree in
/-- What a call may have done to the tree when it reaches its next await. -/
inductive Ran (s : VaultServer) (call : VaultCall) (db' : VaultDb) (job' : VaultJob) : Prop
  | still (htree : db'.tree = s.db.tree) (hroot : job'.root = call.job.root)
  | created (req : CreateVaultItemRequest) (keyEpoch size : ℕ) (n : Node ItemId)
      (hjob : call.job = .create req (.ready keyEpoch size)) (hroot : job'.root = none)
      (hfree : s.db.tree req.id = none) (hlive : n.removedAt = none)
      (hplace : ∀ p, n.parent = some p → s.db.tree.LiveFolder p)
        (htree : db'.tree = s.db.tree.set req.id n)
  | moved (id : ItemId) (req : UpdateVaultItemRequest) (c : VaultDb.ItemChanges) (p : Option ItemId)
      (n : Node ItemId)
      (hjob : call.job = .update id req (.ready c)) (hroot : job'.root = none)
        (hp : c.parentId = some p)
      (haccepts : s.db.accepts id req.revision c = true) (hmoves : Moves s.db.tree id n p)
        (htree : db'.tree = s.db.tree.moved id n p)
  | began (x : ItemId) (hroot : call.job.root = none) (hroot' : job'.root = some x)
      (hlive : s.db.tree.Live x)
      (htree : db'.tree = s.db.tree)
  | claimed (x : ItemId) (n : Node ItemId) (hroot : call.job.root = none)
      (hroot' : job'.root = some x)
      (hx : s.db.tree x = some n) (hlive : n.removedAt = none)
        (htree : db'.tree = s.db.tree.buried x n s.clock)
  | buried (x : ItemId) (now : ℕ) (hroot : call.job.root = some x) (hroot' : job'.root = some x)
      (hsince : call.started ≤ now) (hburies : Buries x now s.db.tree db'.tree)
  | returned (x : ItemId) (hroot : call.job.root = some x) (hroot' : job'.root = none)
      (hempty : (s.db.tree x).isSome = true → s.db.tree.Empty x) (htree : db'.tree = s.db.tree)
  | forgot (hroot : call.job.root = none) (hroot' : job'.root = none)
      (hdb : db' = s.db.forget (call.started - VAULT_TOMBSTONE_TTL_MS))

/-- The root of a purge, until it has returned. -/
def TreePurge.root (x : ItemId) : TreePurge → Option ItemId
  | .done _ => none
  | _ => some x

section OneStep

variable {s : VaultServer} {call : VaultCall} {db' : VaultDb} {job' : VaultJob} {limited : Bool}
    {rows : List ItemId}

theorem ran_create {req : CreateVaultItemRequest} {stage : CreateStage}
    (hjob : call.job = .create req stage)
    (hdb : db' = (createVaultItem.next req (s.moment limited) s.db stage).1)
    (hjob' : job' = .create req (createVaultItem.next req (s.moment limited) s.db stage).2) :
    Ran s call db' job' := by
  have hroot : job'.root = none := by rw [hjob']; rfl
  have hroot₀ : call.job.root = none := by rw [hjob]; rfl
  cases stage with
  | ready keyEpoch size =>
    subst hdb
    rcases VaultDb.tree_create (createVaultItem.item req keyEpoch size) s.clock s.db with hsame |
      ⟨hfree, hplace, htree⟩
    · exact .still hsame (hroot.trans hroot₀.symm)
    · exact .created req keyEpoch size _ hjob hroot hfree rfl hplace htree
  | _ => exact .still (VaultDb.tree_of_items (congrArg VaultDb.items hdb)) (hroot.trans hroot₀.symm)

theorem ran_update {id : ItemId} {req : UpdateVaultItemRequest} {stage : UpdateStage}
    (hjob : call.job = .update id req stage)
    (hdb : db' = (updateVaultItem.next id req (s.moment limited) s.db stage).1)
    (hjob' : job' = .update id req (updateVaultItem.next id req (s.moment limited) s.db stage).2) :
    Ran s call db' job' := by
  have hroot : job'.root = none := by rw [hjob']; rfl
  have hroot₀ : call.job.root = none := by rw [hjob]; rfl
  cases stage with
  | ready c =>
    subst hdb
    rcases s.db.tree_update id req.revision c s.clock with hsame |
      ⟨p, n, hp, haccepts, hmoves, htree⟩
    · exact .still hsame (hroot.trans hroot₀.symm)
    · exact .moved id req c p n hjob hroot hp haccepts hmoves htree
  | _ => exact .still (VaultDb.tree_of_items (congrArg VaultDb.items hdb)) (hroot.trans hroot₀.symm)

theorem ran_reseal {req : VaultResealRequest} {stage : ResealStage}
    (hjob : call.job = .reseal req stage)
    (hdb : db' = (resealVaultItems.next req (s.moment limited) s.db stage).1)
    (hroot : job'.root = none) :
    Ran s call db' job' := by
  have hroot₀ : call.job.root = none := by rw [hjob]; rfl
  cases stage with
  | ready keyEpoch =>
    subst hdb
    exact .still (VaultDb.tree_reseal keyEpoch s.clock req.items s.db) (hroot.trans hroot₀.symm)
  | _ => exact .still (VaultDb.tree_of_items (congrArg VaultDb.items hdb)) (hroot.trans hroot₀.symm)

/-- A purge of `x` goes on, or has found nothing left. -/
theorem ran_purge {x : ItemId} {stage stage' : TreePurge} (hroot : call.job.root = some x)
    (hsince : ∀ now found purged, stage = .purging now found purged → call.started ≤ now)
    (hnext : purgeVaultItem.next x s.clock rows s.db stage = some (db', stage'))
    (hroot' : job'.root = stage'.root x) : Ran s call db' job' := by
  cases stage with
  | walking purged =>
    simp only [purgeVaultItem.next] at hnext
    split_ifs at hnext with hperm hrows
    · obtain ⟨rfl, rfl⟩ := Prod.mk.inj (Option.some.inj hnext)
      subst hrows
      exact .returned x hroot hroot' (VaultDb.empty_of_alive hperm.nil_eq.symm) rfl
    · obtain ⟨rfl, rfl⟩ := Prod.mk.inj (Option.some.inj hnext)
      exact .still rfl (hroot'.trans hroot.symm)
  | purging now found purged =>
    simp only [purgeVaultItem.next, Option.some.injEq, Prod.mk.injEq] at hnext
    obtain ⟨rfl, rfl⟩ := hnext
    refine .buried x now hroot ?_ (hsince now found purged rfl) (VaultDb.buries_purgeBatch ..)
    rw [hroot']
    split_ifs <;> rfl
  | done purged => cases hnext

/-- The stages of a purge that a walk or a batch leads to. -/
theorem purge_walkedSince {x : ItemId} {now started : ℕ} {db : VaultDb} {stage stage' : TreePurge}
    (hsince : ∀ at_ found purged, stage = .purging at_ found purged → started ≤ at_)
    (hnow : started ≤ now) (hnext : purgeVaultItem.next x now rows db stage = some (db', stage')) :
    ∀ at_ found purged, stage' = .purging at_ found purged → started ≤ at_ := by
  intro at_ found purged hstage'
  cases stage with
  | walking purged =>
    simp only [purgeVaultItem.next] at hnext
    split_ifs at hnext with hperm hrows <;> obtain ⟨_, rfl⟩ := Prod.mk.inj (Option.some.inj hnext)
    · cases hstage'
    · cases hstage'
      exact hnow
  | purging at_ found purged =>
    simp only [purgeVaultItem.next, Option.some.injEq, Prod.mk.injEq] at hnext
    obtain ⟨_, rfl⟩ := hnext
    split_ifs at hstage'
    cases hstage'
    exact hsince _ _ _ rfl
  | done purged => cases hnext

theorem ran_delete {id : ItemId} {stage stage' : DeleteStage} (hjob : call.job = .delete id stage)
    (hwalked : call.job.WalkedSince call.started) (hclock : call.started ≤ s.clock)
    (hnext : deleteVaultItem.next id (s.moment limited) rows s.db stage = some (db', stage')) :
    Ran s call db' (.delete id stage') ∧ (VaultJob.delete id stage').WalkedSince call.started := by
  cases stage with
  | received =>
    obtain ⟨rfl, rfl⟩ := Prod.mk.inj (Option.some.inj hnext)
    refine orAnswer_cases (P := fun stage' => Ran s call s.db (.delete id stage') ∧
      (VaultJob.delete id stage').WalkedSince call.started) (fun e => ?_) fun stage' hstage' => ?_
    · exact ⟨.still rfl (by rw [hjob]; rfl), trivial⟩
    · unfold rateLimit at hstage'
      split_ifs at hstage'
      · cases hstage'
      · cases hstage'
        exact ⟨.still rfl (by rw [hjob]; rfl), trivial⟩
  | authed =>
    obtain ⟨rfl, rfl⟩ := Prod.mk.inj (Option.some.inj hnext)
    split_ifs with hsome
    · obtain ⟨r, hr⟩ := Option.isSome_iff_exists.mp hsome
      obtain ⟨hmem, hid, hlive⟩ := VaultDb.mem_vaultItem.mp hr
      exact ⟨.began id (by rw [hjob]; rfl) rfl (VaultDb.tree_live.mpr ⟨r, hmem, hid, hlive⟩) rfl,
        trivial⟩
    · exact ⟨.still rfl (by rw [hjob]; rfl), trivial⟩
  | purging stage =>
    obtain ⟨⟨db₁, stage₁⟩, hpurge, heq⟩ := Option.map_eq_some_iff.mp hnext
    obtain ⟨rfl, rfl⟩ := Prod.mk.inj heq
    have hsince : ∀ at_ found purged, stage = .purging at_ found purged → call.started ≤ at_ := by
      intro at_ found purged hstage
      rw [hjob, hstage] at hwalked
      exact hwalked
    have hwalks := purge_walkedSince hsince hclock hpurge
    refine ⟨ran_purge (by rw [hjob]; rfl) hsince hpurge ?_, ?_⟩
    · cases stage₁ <;> rfl
    · cases stage₁ with
      | purging at_ found purged => exact hwalks at_ found purged rfl
      | walking purged => trivial
      | done purged => trivial
  | answered a => cases hnext

theorem root_purgeNext (rest : List ItemId) :
    (VaultJob.cleanUp (cleanUpVault.purgeNext rest)).root = none := by
  cases rest <;> rfl

theorem walkedSince_purgeNext (rest : List ItemId) (started : ℕ) :
    (VaultJob.cleanUp (cleanUpVault.purgeNext rest)).WalkedSince started := by
  cases rest <;> trivial

theorem ran_cleanUp {stage stage' : CleanUpStage} (hjob : call.job = .cleanUp stage)
    (hwalked : call.job.WalkedSince call.started) (hclock : call.started ≤ s.clock)
    (hnext : cleanUpVault.next call.started (s.moment limited) rows s.db stage =
      some (db', stage')) :
    Ran s call db' (.cleanUp stage') ∧ (VaultJob.cleanUp stage').WalkedSince call.started := by
  cases stage with
  | selecting =>
    have hroot : call.job.root = none := by rw [hjob]; rfl
    simp only [cleanUpVault.next] at hnext
    split_ifs at hnext <;> obtain ⟨rfl, rfl⟩ := Prod.mk.inj (Option.some.inj hnext)
    · exact ⟨.still rfl hroot.symm, trivial⟩
    · exact ⟨.still rfl ((root_purgeNext _).trans hroot.symm), walkedSince_purgeNext ..⟩
  | reading id rest =>
    have hroot : call.job.root = none := by rw [hjob]; rfl
    simp only [cleanUpVault.next, Option.some.injEq, Prod.mk.injEq] at hnext
    obtain ⟨rfl, rfl⟩ := hnext
    split
    · exact ⟨.still rfl ((root_purgeNext _).trans hroot.symm), walkedSince_purgeNext ..⟩
    · exact ⟨.still rfl hroot.symm, trivial⟩
  | claiming id blobKey rest =>
    have hroot : call.job.root = none := by rw [hjob]; rfl
    simp only [cleanUpVault.next, Option.some.injEq, Prod.mk.injEq] at hnext
    obtain ⟨rfl, rfl⟩ := hnext
    rcases s.db.tree_claimExpired id (call.started - VAULT_TRASH_TTL_MS) blobKey s.clock with
      ⟨hnone, htree⟩ | ⟨n, hn, hlive, hsome, htree⟩
    · rw [if_neg (by rw [VaultServer.moment, hnone]; exact Bool.noConfusion)]
      exact ⟨.still htree ((root_purgeNext _).trans hroot.symm), walkedSince_purgeNext ..⟩
    · rw [if_pos (by rw [VaultServer.moment]; exact hsome)]
      exact ⟨.claimed id n hroot rfl hn hlive htree, trivial⟩
  | purging id stage rest =>
    obtain ⟨⟨db₁, stage₁⟩, hpurge, heq⟩ := Option.map_eq_some_iff.mp hnext
    obtain ⟨rfl, rfl⟩ := Prod.mk.inj heq
    have hsince : ∀ at_ found purged, stage = .purging at_ found purged → call.started ≤ at_ := by
      intro at_ found purged hstage
      rw [hjob, hstage] at hwalked
      exact hwalked
    have hwalks := purge_walkedSince hsince hclock hpurge
    refine ⟨ran_purge (by rw [hjob]; rfl) hsince hpurge ?_, ?_⟩
    · cases stage₁ with
      | done purged => exact root_purgeNext rest
      | _ => rfl
    · cases stage₁ with
      | purging at_ found purged => exact hwalks at_ found purged rfl
      | walking purged => trivial
      | done purged => exact walkedSince_purgeNext rest _
  | forgetting =>
    obtain ⟨rfl, rfl⟩ := Prod.mk.inj (Option.some.inj hnext)
    exact ⟨.forgot (by rw [hjob]; rfl) rfl rfl, trivial⟩
  | done => cases hnext

/-- Everything that a step of a call can do to the tree. -/
theorem ran_of_next (hwalked : call.job.WalkedSince call.started) (hclock : call.started ≤ s.clock)
    (hnext : call.job.next call.started (s.moment limited) rows s.db = some (db', job')) :
    Ran s call db' job' ∧ job'.WalkedSince call.started := by
  cases hjob : call.job with
  | create req stage =>
    rw [hjob] at hnext
    obtain ⟨hdb, hjob'⟩ := Prod.mk.inj (Option.some.inj hnext)
    exact ⟨ran_create hjob hdb.symm hjob'.symm, by rw [← hjob']; trivial⟩
  | update id req stage =>
    rw [hjob] at hnext
    obtain ⟨hdb, hjob'⟩ := Prod.mk.inj (Option.some.inj hnext)
    exact ⟨ran_update hjob hdb.symm hjob'.symm, by rw [← hjob']; trivial⟩
  | reseal req stage =>
    rw [hjob] at hnext
    obtain ⟨hdb, hjob'⟩ := Prod.mk.inj (Option.some.inj hnext)
    exact ⟨ran_reseal hjob hdb.symm (by rw [← hjob']; rfl), by rw [← hjob']; trivial⟩
  | delete id stage =>
    rw [hjob] at hnext
    obtain ⟨⟨db₁, stage'⟩, hstage', heq⟩ := Option.map_eq_some_iff.mp hnext
    obtain ⟨rfl, rfl⟩ := Prod.mk.inj heq
    exact ran_delete hjob hwalked hclock hstage'
  | cleanUp stage =>
    rw [hjob] at hnext
    obtain ⟨⟨db₁, stage'⟩, hstage', heq⟩ := Option.map_eq_some_iff.mp hnext
    obtain ⟨rfl, rfl⟩ := Prod.mk.inj heq
    exact ran_cleanUp hjob hwalked hclock hstage'

end OneStep

namespace VaultServer
open SendSelf.Tree

/-- No purge has been at work for half the time that a tombstone is remembered. -/
def InTime (s : VaultServer) : Prop :=
  ∀ c ∈ s.calls, c.cut = false → c.job.root.isSome = true →
  s.clock ≤ c.started + VAULT_TOMBSTONE_TTL_MS / 2

/-- No purge at work loses a tombstone with something alive in it when `id` is moved
under `p`. -/
def KeepsPurges (s : VaultServer) (id : ItemId) (p : Option ItemId) : Prop :=
  ∀ a ∈ s.db.items, ∀ y ∈ s.db.items, a.live = false → y.live = true → s.db.subtree id a.id = true →
    s.db.subtree a.id y.id = true → ∀ c ∈ s.calls, c.cut = false → ∀ x ∈ c.job.root, x ≠ id →
      s.db.subtree x id = true → p.any (s.db.subtree x) = true

/-- The ids of forgotten items are not used again. -/
def FreshIds (s : VaultServer) : VaultEvent → Prop
  | .run i _ _ => match (s.calls[i]?).map VaultCall.job with
      | some (.create req (.ready _ _)) => req.id ∉ s.forgotten
      | _ => True
  | _ => True

/-- A folder is not moved out of a purge with a tombstone that something alive is still in. -/
def MovesKeep (s : VaultServer) : VaultEvent → Prop
  | .run i _ _ => match (s.calls[i]?).map VaultCall.job with
      | some (.update id req (.ready c)) =>
          s.db.accepts id req.revision c = true → ∀ p ∈ c.parentId, ¬ s.Interrupted →
            s.KeepsPurges id p
      | _ => True
  | _ => True

def Timely (s : VaultServer) : VaultEvent → Prop
  | .run _ _ _ => s.InTime
  | _ => True

/-- What a step finds. -/
structure Careful (s : VaultServer) (event : VaultEvent) : Prop where
  freshIds : s.FreshIds event
  timely : s.Timely event
  movesKeep : s.MovesKeep event

structure Sound (s : VaultServer) : Prop where
  grown : Grown (· ∈ s.forgotten) s.db.tree
  clock : ∀ c ∈ s.calls, c.started ≤ s.clock
  walked : ∀ c ∈ s.calls, c.job.WalkedSince c.started
  known : ∀ x ∈ s.purged, (s.db.tree x).isSome = true ∨ x ∈ s.forgotten
  empty : ∀ x ∈ s.purged, s.db.tree.Empty x
  roots : ∀ x t, s.Purging x t → ∃ n, s.db.tree x = some n ∧
    ∀ d, n.removedAt = some d → t ≤ d + VAULT_TOMBSTONE_TTL_MS / 2
  covered : ¬ s.Interrupted → Covered s.Purging s.db.tree

variable {s : VaultServer} {call : VaultCall} {db' : VaultDb} {job' : VaultJob} {i : ℕ}

/-- What a step of a call keeps of the tree. -/
structure Kept (s : VaultServer) (call : VaultCall) (db' : VaultDb) (job' : VaultJob) : Prop where
  grown : Grown (· ∈ dropped s.db db' ++ s.forgotten) db'.tree
  known : ∀ x, (s.db.tree x).isSome = true → (db'.tree x).isSome = true ∨
    x ∈ dropped s.db db' ++ s.forgotten
  empty : ∀ x ∈ s.purged, db'.tree.Empty x
  roots : ∀ x t, s.Purging x t → ∃ n, db'.tree x = some n ∧
    ∀ d, n.removedAt = some d → t ≤ d + VAULT_TOMBSTONE_TTL_MS / 2
  covered : ¬ s.Interrupted →
    Covered (fun x t => s.Purging x t ∨ (job'.root = some x ∧ t = call.started)) db'.tree

theorem Sound.kept_of_tree (h : Sound s) (htree : db'.tree = s.db.tree) : Kept s call db' job' where
  grown := by
    rw [htree]
    exact h.grown.mono fun _ hx => List.mem_append_right _ hx
  known := fun x hx => Or.inl (by rwa [htree])
  empty := fun x hx => htree ▸ h.empty x hx
  roots := fun x t hx => htree ▸ h.roots x t hx
  covered := fun hnot => by
    rw [htree]
    exact (h.covered hnot).mono fun _ _ => Or.inl

theorem Sound.kept_created (h : Sound s) {x : ItemId} {n : Node ItemId}
    (hhangs : Hangs (· ∈ s.forgotten) s.db.tree x n)
    (htree : db'.tree = s.db.tree.set x n) : Kept s call db' job' where
  grown := by
    rw [htree]
    exact (hhangs.grown h.grown).mono fun _ hx => List.mem_append_right _ hx
  known := fun y hy => Or.inl <| by
    rw [htree]
    by_cases hyx : y = x
    · rw [hyx, set_self]
      rfl
    · rwa [set_of_ne hyx]
  empty := fun y hy => by
    rw [htree]
    refine hhangs.empty h.grown (h.empty y hy) fun he => ?_
    rcases h.known y hy with hsome | hforgotten
    · rw [he, hhangs.free] at hsome
      exact absurd hsome Bool.noConfusion
    · exact hhangs.unused (he ▸ hforgotten)
  roots := fun y t hy => by
    obtain ⟨m, hm, htime⟩ := h.roots y t hy
    have hyx : y ≠ x :=
      fun he => absurd (hhangs.free.symm.trans (he ▸ hm)) (Option.some_ne_none m).symm
    exact ⟨m, by rw [htree, set_of_ne hyx, hm], htime⟩
  covered := fun hnot => by
    rw [htree]
    exact (hhangs.covered h.grown (h.covered hnot)).mono fun _ _ => Or.inl

theorem keeps_of_keepsPurges {id : ItemId} {p : Option ItemId} (h : s.KeepsPurges id p) :
    Keeps s.Purging s.db.tree id p := by
  intro a y n d ha hd hia hy hay z t hz hzi hne
  obtain ⟨ra, hra, rfl, rfl⟩ := VaultDb.tree_eq_some.mp ha
  obtain ⟨ry, hry, rfl, hlive⟩ := VaultDb.tree_live.mp hy
  obtain ⟨c, hc, hcut, hroot, _⟩ := hz
  have hdead : ra.live = false := by
    rw [Bool.eq_false_iff]
    intro hlive'
    exact absurd ((VaultDb.live_iff.mp hlive').symm.trans hd) (Option.some_ne_none d).symm
  have hany :=
    h ra hra ry hry hdead hlive (VaultDb.subtree_iff_tree.mpr hia)
      (VaultDb.subtree_iff_tree.mpr hay)
    c hc hcut z hroot hne (VaultDb.subtree_iff_tree.mpr hzi)
  obtain ⟨q, hq, hsub⟩ := (Option.any_eq_true _ _).mp hany
  exact ⟨q, hq, VaultDb.subtree_iff_tree.mp hsub⟩

theorem Sound.kept_moved (h : Sound s) {id : ItemId} {n : Node ItemId} {p : Option ItemId}
    (hmoves : Moves s.db.tree id n p) (hkeeps : ¬ s.Interrupted → s.KeepsPurges id p)
    (htree : db'.tree = s.db.tree.moved id n p) : Kept s call db' job' where
  grown := by
    rw [htree]
    exact (hmoves.grown h.grown).mono fun _ hx => List.mem_append_right _ hx
  known := fun y hy => Or.inl <| by
    rw [htree, moved_node hmoves.here, Option.isSome_map]
    exact hy
  empty := fun y hy => htree ▸ hmoves.empty (h.empty y hy)
  roots := fun y t hy => by
    obtain ⟨m, hm, htime⟩ := h.roots y t hy
    rw [htree, moved_node hmoves.here, hm]
    refine ⟨_, rfl, fun d hd => htime d ?_⟩
    split_ifs at hd
    · exact hd
    · exact hd
  covered := fun hnot => by
    rw [htree]
    exact (hmoves.covered h.grown (h.covered hnot) (keeps_of_keepsPurges (hkeeps hnot))).mono
      fun _ _ => Or.inl

/-- A purge buries what is below its root, at a time since it came in. -/
theorem Sound.kept_buried (h : Sound s) {root : ItemId} {d : ℕ}
    (hburies : Buries root d s.db.tree db'.tree)
    (hroot' : job'.root = some root) (hsince : call.started ≤ d)
    (hrecent : s.clock ≤ d + VAULT_TOMBSTONE_TTL_MS / 2) :
    Kept s call db' job' where
  grown := (hburies.grown h.grown).mono fun _ hx => List.mem_append_right _ hx
  known := fun y hy => by
    obtain ⟨m, hm⟩ := Option.isSome_iff_exists.mp hy
    obtain ⟨m', hm', _⟩ := hburies.node hm
    exact Or.inl (by rw [hm']; rfl)
  empty := fun y hy => hburies.empty (h.empty y hy)
  roots := fun y t hy => by
    obtain ⟨m, hm, htime⟩ := h.roots y t hy
    obtain ⟨m', hm', _, _, hremoved⟩ := hburies.node hm
    refine ⟨m', hm', fun d' hd' => ?_⟩
    rcases hremoved with hsame | hnew
    · exact htime d' (hsame ▸ hd')
    · obtain rfl := Option.some.inj (hnew.symm.trans hd')
      obtain ⟨c, hc, _, _, rfl⟩ := hy
      exact (h.clock c hc).trans hrecent
  covered := fun hnot =>
    hburies.covered ((h.covered hnot).mono fun _ _ => Or.inl) (Or.inr ⟨hroot', rfl⟩) hsince

/-- Only what was buried before every call at work came in is forgotten. -/
theorem Sound.kept_forgot (h : Sound s) (htime : s.InTime) {started : ℕ}
    (hstarted : started ≤ s.clock) :
    Kept s call (s.db.forget (started - VAULT_TOMBSTONE_TTL_MS)) job' := by
  have htree := s.db.tree_forget (started - VAULT_TOMBSTONE_TTL_MS)
  have hage : ∀ n : Node ItemId,
      (n.removedAt.any fun d => decide (d < started - VAULT_TOMBSTONE_TTL_MS)) = true →
      ∃ d, n.removedAt = some d ∧ ∀ x t, s.Purging x t → d + VAULT_TOMBSTONE_TTL_MS / 2 < t := by
    intro n hn
    obtain ⟨d, hd, hold⟩ := (Option.any_eq_true _ _).mp hn
    refine ⟨d, hd, fun x t ⟨c, hc, hcut, hroot, ht⟩ => ?_⟩
    have hyoung := htime c hc hcut (by rw [hroot]; rfl)
    have hold := of_decide_eq_true hold
    rw [ht] at hyoung
    unfold VAULT_TOMBSTONE_TTL_MS at *
    omega
  have hdropped : ∀ x n, s.db.tree x = some n →
      (n.removedAt.any fun d => decide (d < started - VAULT_TOMBSTONE_TTL_MS)) = true →
        x ∈ dropped s.db (s.db.forget (started - VAULT_TOMBSTONE_TTL_MS)) ++ s.forgotten := by
    intro x n hx hgone
    obtain ⟨r, hr, rfl, rfl⟩ := VaultDb.tree_eq_some.mp hx
    refine List.mem_append_left _ (List.mem_map.mpr ⟨r, Table.mem_select.mpr ⟨hr, ?_⟩, rfl⟩)
    rw [Option.isNone_iff_eq_none, ← Option.map_eq_none_iff (f := VaultItem.node)]
    have hnone := congrFun htree r.id
    rw [VaultDb.tree, Tree.forgotten, hx] at hnone
    rw [hnone]
    simp [Option.filter, hgone]
  refine ⟨?_, fun x hx => ?_, fun x hx => htree ▸ (h.empty x hx).forgotten, fun x t hx => ?_,
    fun hnot => ?_⟩
  · rw [htree]
    exact h.grown.forgotten (fun x hx => List.mem_append_right _ hx) hdropped
  · obtain ⟨n, hn⟩ := Option.isSome_iff_exists.mp hx
    cases hgone : n.removedAt.any fun d => decide (d < started - VAULT_TOMBSTONE_TTL_MS) with
    | true => exact Or.inr (hdropped x n hn hgone)
    | false =>
      refine Or.inl ?_
      rw [htree, forgotten_eq_some.mpr ⟨hn, hgone⟩]
      rfl
  · obtain ⟨n, hn, hroot⟩ := h.roots x t hx
    refine ⟨n, ?_, hroot⟩
    rw [htree]
    refine forgotten_eq_some.mpr ⟨hn, Bool.eq_false_iff.mpr fun hgone => ?_⟩
    obtain ⟨d, hd, hbefore⟩ := hage n hgone
    exact absurd (hbefore x t hx) (not_lt.mpr (hroot d hd))
  · rw [htree]
    refine ((h.covered hnot).forgotten fun x n hn hgone => ?_).mono fun _ _ => Or.inl
    obtain ⟨d, hd, hbefore⟩ := hage n hgone
    exact ⟨d, hd, fun z t hz => lt_of_le_of_lt (Nat.le_add_right _ _) (hbefore z t hz)⟩

/-- The state after a step of a call. -/
def after (s : VaultServer) (i : ℕ) (call : VaultCall) (db' : VaultDb) (job' : VaultJob) :
    VaultServer :=
  { s with
    db := db'
    calls := s.calls.set i { call with job := job' }
    purged := returned call.job job' ++ s.purged
    forgotten := dropped s.db db' ++ s.forgotten }

section OneCall

variable (hget : s.calls[i]? = some call) (hcut : call.cut = false)

theorem Sound.kept (h : Sound s) (hget : s.calls[i]? = some call) (hcut : call.cut = false)
    {rows : List ItemId}
    {limited : Bool} (hok : s.Careful (.run i rows limited)) (hran : Ran s call db' job') :
    Kept s call db' job' := by
  have hmem : call ∈ s.calls := List.mem_of_getElem? hget
  have hclock := h.clock call hmem
  obtain ⟨hfresh, htime, hmoves⟩ := hok
  have htime : s.InTime := htime
  simp only [FreshIds, MovesKeep, hget, Option.map_some] at hfresh hmoves
  cases hran with
  | still htree hroot => exact h.kept_of_tree htree
  | created req keyEpoch size n hjob hroot hfree hlive hplace htree =>
    simp only [hjob] at hfresh
    exact h.kept_created ⟨hfree, hfresh, hlive, hplace⟩ htree
  | moved id req c p n hjob hroot hp haccepts hmove htree =>
    simp only [hjob] at hmoves
    exact h.kept_moved hmove (hmoves haccepts p hp) htree
  | began x hroot hroot' hlive htree => exact h.kept_of_tree htree
  | claimed x n hroot hroot' hx hlive htree =>
    have hburies : Buries x s.clock s.db.tree db'.tree := by
      rw [htree]
      exact .bury .start hx hlive (Forest.above_refl x)
    exact h.kept_buried hburies hroot' hclock (Nat.le_add_right _ _)
  | buried x now hroot hroot' hsince hburies =>
    have hyoung := htime call hmem hcut (by rw [hroot]; rfl)
    exact h.kept_buried hburies hroot' hsince (by omega)
  | returned x hroot hroot' hempty htree => exact h.kept_of_tree htree
  | forgot hroot hroot' hdb => exact hdb ▸ h.kept_forgot htime hclock

/-- The calls after a step. -/
theorem mem_after {c : VaultCall} (hc : c ∈ (after s i call db' job').calls) :
    c ∈ s.calls ∨ c = { call with job := job' } := List.mem_or_eq_of_mem_set hc

theorem purging_of_after {x : ItemId} {t : ℕ} (h : (after s i call db' job').Purging x t) :
    s.Purging x t ∨ (job'.root = some x ∧ t = call.started) := by
  obtain ⟨c, hc, hcut', hroot, ht⟩ := h
  rcases mem_after hc with hold | rfl
  · exact Or.inl ⟨c, hold, hcut', hroot, ht⟩
  · exact Or.inr ⟨hroot, ht.symm⟩

include hget in
theorem mem_after_of_ne {c : VaultCall} (hc : c ∈ s.calls) (hne : c ≠ call) :
    c ∈ (after s i call db' job').calls := by
  obtain ⟨j, hj⟩ := List.mem_iff_getElem?.mp hc
  have hij : i ≠ j := fun he => hne (Option.some.inj (hj.symm.trans (he ▸ hget)))
  exact List.mem_iff_getElem?.mpr ⟨j, by rw [after, List.getElem?_set_ne hij, hj]⟩

include hget hcut in
theorem purging_after {x : ItemId} {t : ℕ} (h : s.Purging x t) :
    (after s i call db' job').Purging x t ∨ (call.job.root = some x ∧ t = call.started) := by
  obtain ⟨c, hc, hcut', hroot, ht⟩ := h
  by_cases hne : c = call
  · subst hne
    exact Or.inr ⟨hroot, ht.symm⟩
  · exact Or.inl ⟨c, mem_after_of_ne hget hc hne, hcut', hroot, ht⟩

include hget in
theorem purging_after_self (hcut : call.cut = false) {x : ItemId} (h : job'.root = some x) :
    (after s i call db' job').Purging x call.started := by
  refine ⟨{ call with job := job' }, List.mem_iff_getElem?.mpr ⟨i, ?_⟩, hcut, h, rfl⟩
  rw [after, List.getElem?_set_self (List.getElem?_eq_some_iff.mp hget).1]

include hget hcut in
theorem interrupted_after (h : ¬ (after s i call db' job').Interrupted) : ¬ s.Interrupted := by
  intro ⟨c, hc, hcut', hroot⟩
  have hne : c ≠ call := fun he => absurd (he ▸ hcut') (by simp [hcut])
  exact h ⟨c, mem_after_of_ne hget hc hne, hcut', hroot⟩

/-- A purge at work goes on, or returns with nothing alive below its root. -/
theorem leaves_of_ran (hran : Ran s call db' job') {x : ItemId} (hroot : call.job.root = some x) :
    job'.root = some x ∨
      (job'.root = none ∧ db'.tree = s.db.tree ∧
        ((s.db.tree x).isSome = true → s.db.tree.Empty x)) := by
  have hother : call.job.root ≠ none := by simp [hroot]
  cases hran with
  | still htree hsame => exact Or.inl (hsame.trans hroot)
  | created req keyEpoch size n hjob => exact absurd (by rw [hjob]; rfl) hother
  | moved id req c p n hjob => exact absurd (by rw [hjob]; rfl) hother
  | began y hnone => exact absurd hnone hother
  | claimed y n hnone => exact absurd hnone hother
  | buried y now hy hy' => exact Or.inl (hy'.trans (hy.symm.trans hroot))
  | returned y hy hy' hempty htree =>
    obtain rfl := Option.some.inj (hy.symm.trans hroot)
    exact Or.inr ⟨hy', htree, hempty⟩
  | forgot hnone => exact absurd hnone hother

/-- A purge at work was so before, or it begins on a node that is there. -/
theorem enters_of_ran (hran : Ran s call db' job') {x : ItemId} (hroot' : job'.root = some x) :
    call.job.root = some x ∨ ∃ n, db'.tree x = some n ∧ ∀ d, n.removedAt = some d →
    d = s.clock := by
  have hother : job'.root ≠ none := by simp [hroot']
  cases hran with
  | still htree hsame => exact Or.inl (hsame.symm.trans hroot')
  | created req keyEpoch size n hjob hnone => exact absurd hnone hother
  | moved id req c p n hjob hnone => exact absurd hnone hother
  | began y hy hy' hlive htree =>
    obtain rfl := Option.some.inj (hy'.symm.trans hroot')
    obtain ⟨n, hn, hnone⟩ := hlive
    exact Or.inr ⟨n, (congrFun htree y).trans hn,
      fun d hd => absurd (hnone.symm.trans hd) (Option.some_ne_none d).symm⟩
  | claimed y n hy hy' hn hlive htree =>
    obtain rfl := Option.some.inj (hy'.symm.trans hroot')
    exact Or.inr ⟨_, (congrFun htree y).trans (set_self y _), fun d hd => (Option.some.inj hd).symm⟩
  | buried y now hy hy' => exact Or.inl (hy.trans (hy'.symm.trans hroot'))
  | returned y hy hnone => exact absurd hnone hother
  | forgot hy hnone => exact absurd hnone hother

theorem Sound.returned (h : Sound s) (hget : s.calls[i]? = some call) (hcut : call.cut = false)
    (hran : Ran s call db' job') {x : ItemId} (hx : x ∈ returned call.job job') :
    (s.db.tree x).isSome = true ∧ db'.tree.Empty x := by
  unfold VaultServer.returned at hx
  split_ifs at hx with hnone
  · have hroot := Option.mem_toList.mp hx
    obtain ⟨n, hn, _⟩ := h.roots x call.started ⟨call, List.mem_of_getElem? hget, hcut, hroot, rfl⟩
    have hsome : (s.db.tree x).isSome = true := by rw [hn]; rfl
    obtain ⟨_, htree, hempty⟩ := (leaves_of_ran hran hroot).resolve_left (by simp [hnone])
    exact ⟨hsome, htree ▸ hempty hsome⟩
  · exact absurd hx List.not_mem_nil

/-- A step of a call keeps what the tree is to keep. -/
theorem Sound.after (h : Sound s) (hget : s.calls[i]? = some call) (hcut : call.cut = false)
    (hkept : Kept s call db' job') (hran : Ran s call db' job')
    (hwalked : job'.WalkedSince call.started) :
    Sound (after s i call db' job') := by
  have hmem : call ∈ s.calls := List.mem_of_getElem? hget
  refine ⟨hkept.grown, fun c hc => ?_, fun c hc => ?_, fun x hx => ?_, fun x hx => ?_,
    fun x t hx => ?_, fun hnot => ?_⟩
  · rcases mem_after hc with hold | rfl
    · exact h.clock c hold
    · exact h.clock call hmem
  · rcases mem_after hc with hold | rfl
    · exact h.walked c hold
    · exact hwalked
  · rcases List.mem_append.mp hx with hnew | hold
    · exact hkept.known x (h.returned hget hcut hran hnew).1
    · exact (h.known x hold).elim (hkept.known x) fun hx => Or.inr (List.mem_append_right _ hx)
  · rcases List.mem_append.mp hx with hnew | hold
    · exact (h.returned hget hcut hran hnew).2
    · exact hkept.empty x hold
  · rcases purging_of_after hx with hold | ⟨hroot', rfl⟩
    · exact hkept.roots x t hold
    · rcases enters_of_ran hran hroot' with hroot | ⟨n, hn, hnow⟩
      · exact hkept.roots x _ ⟨call, hmem, hcut, hroot, rfl⟩
      · refine ⟨n, hn, fun d hd => ?_⟩
        rw [hnow d hd]
        exact (h.clock call hmem).trans (Nat.le_add_right _ _)
  · have hcovered := hkept.covered (interrupted_after hget hcut hnot)
    cases hroot : call.job.root with
    | none =>
      refine hcovered.mono fun x t hx => ?_
      rcases hx with hold | ⟨hroot', rfl⟩
      · refine (purging_after hget hcut hold).elim id fun hx => ?_
        exact absurd (hroot.symm.trans hx.1) (Option.some_ne_none x).symm
      · exact purging_after_self hget hcut hroot'
    | some y =>
      rcases leaves_of_ran hran hroot with hsame | ⟨hnone, htree, hempty⟩
      · refine hcovered.mono fun x t hx => ?_
        rcases hx with hold | ⟨hroot', rfl⟩
        · rcases purging_after hget hcut hold with hnew | ⟨hx, rfl⟩
          · exact hnew
          · exact purging_after_self hget hcut (hsame.trans (hroot.symm.trans hx))
        · exact purging_after_self hget hcut hroot'
      · have hy : y ∈ VaultServer.returned call.job job' := by
          rw [VaultServer.returned, if_pos hnone, hroot]
          exact List.mem_singleton_self y
        refine hcovered.leave (h.returned hget hcut hran hy).2 fun x t hx hne => ?_
        rcases hx with hold | ⟨hroot', _⟩
        · exact (purging_after hget hcut hold).elim id fun hx =>
            absurd (Option.some.inj (hx.1.symm.trans hroot)) hne
        · exact absurd (hnone.symm.trans hroot') (Option.some_ne_none x).symm

end OneCall

theorem tree_new (x : ItemId) : new.db.tree x = none := rfl

theorem parent_new (x : ItemId) : new.db.tree.parent x = none := rfl

theorem sound_new : Sound new where
  grown :=
    ⟨fun x y hxy => absurd hxy (by simp [parent_new]),
      fun x p hp => absurd hp (by simp [parent_new])⟩
  clock := fun _ hc => absurd hc List.not_mem_nil
  walked := fun _ hc => absurd hc List.not_mem_nil
  known := fun _ hx => absurd hx List.not_mem_nil
  empty := fun _ hx => absurd hx List.not_mem_nil
  roots := fun _ _ ⟨_, hc, _⟩ => absurd hc List.not_mem_nil
  covered := fun _ y ⟨n, hn, _⟩ => absurd hn (by simp [tree_new])

/-- Where neither the tree nor the purges at work change. -/
theorem Sound.of_calls (h : Sound s) {s' : VaultServer} (htree : s'.db.tree = s.db.tree)
    (hpurged : s'.purged = s.purged)
    (hforgotten : s'.forgotten = s.forgotten) (hclock : ∀ c ∈ s'.calls, c.started ≤ s'.clock)
    (hwalked : ∀ c ∈ s'.calls, c.job.WalkedSince c.started)
    (hpurging : ∀ x t, s'.Purging x t → s.Purging x t)
    (hcovered : ¬ s'.Interrupted → ¬ s.Interrupted ∧ ∀ x t, s.Purging x t → s'.Purging x t) :
    Sound s' where
  grown := by rw [htree, hforgotten]; exact h.grown
  clock := hclock
  walked := hwalked
  known := by rw [htree, hpurged, hforgotten]; exact h.known
  empty := by rw [htree, hpurged]; exact h.empty
  roots := fun x t hx => htree ▸ h.roots x t (hpurging x t hx)
  covered := fun hnot => by
    rw [htree]
    exact (h.covered (hcovered hnot).1).mono (hcovered hnot).2

theorem root_job (request : VaultRequest) : request.job.root = none := by cases request <;> rfl

theorem Sound.received (h : Sound s) (request : VaultRequest) :
    Sound { s with calls := s.calls ++ [⟨request.job, s.clock, false⟩] } := by
  have hmem : ∀ {c}, c ∈ s.calls ++ [⟨request.job, s.clock, false⟩] → c ∈ s.calls ∨
      c = ⟨request.job, s.clock, false⟩ :=
    fun hc => (List.mem_append.mp hc).imp_right List.mem_singleton.mp
  refine h.of_calls rfl rfl rfl (fun c hc => ?_) (fun c hc => ?_)
    (fun x t ⟨c, hc, hcut, hroot, ht⟩ => ?_)
    fun hnot => ⟨fun ⟨c, hc, hcut⟩ => hnot ⟨c, List.mem_append_left _ hc, hcut⟩,
      fun x t ⟨c, hc, hrest⟩ => ⟨c, List.mem_append_left _ hc, hrest⟩⟩
  · rcases hmem hc with hold | rfl
    · exact h.clock c hold
    · exact le_rfl
  · rcases hmem hc with hold | rfl
    · exact h.walked c hold
    · cases request <;> trivial
  · rcases hmem hc with hold | rfl
    · exact ⟨c, hold, hcut, hroot, ht⟩
    · exact absurd ((root_job request).symm.trans hroot) (Option.some_ne_none x).symm

theorem Sound.cutOff (h : Sound s) (hget : s.calls[i]? = some call) :
    Sound { s with calls := s.calls.set i { call with cut := true } } := by
  have hmem := List.mem_of_getElem? hget
  have hstays : ∀ c ∈ s.calls, c ≠ call → c ∈ s.calls.set i { call with cut := true } := by
    intro c hc hne
    obtain ⟨j, hj⟩ := List.mem_iff_getElem?.mp hc
    have hij : i ≠ j := fun he => hne (Option.some.inj (hj.symm.trans (he ▸ hget)))
    exact List.mem_iff_getElem?.mpr ⟨j, by rw [List.getElem?_set_ne hij, hj]⟩
  have hself : { call with cut := true } ∈ s.calls.set i { call with cut := true } :=
    List.mem_iff_getElem?.mpr ⟨i, List.getElem?_set_self (List.getElem?_eq_some_iff.mp hget).1⟩
  refine h.of_calls rfl rfl rfl (fun c hc => ?_) (fun c hc => ?_)
    (fun x t ⟨c, hc, hcut, hroot, ht⟩ => ?_) fun hnot => ?_
  · rcases List.mem_or_eq_of_mem_set hc with hold | rfl
    · exact h.clock c hold
    · exact h.clock call hmem
  · rcases List.mem_or_eq_of_mem_set hc with hold | rfl
    · exact h.walked c hold
    · exact h.walked call hmem
  · rcases List.mem_or_eq_of_mem_set hc with hold | rfl
    · exact ⟨c, hold, hcut, hroot, ht⟩
    · cases hcut
  · have hnone : call.job.root = none := by
      cases hroot : call.job.root with
      | none => rfl
      | some x => exact absurd ⟨_, hself, rfl, by rw [hroot]; rfl⟩ hnot
    refine ⟨fun ⟨c, hc, hcut, hroot⟩ => hnot ?_, fun x t ⟨c, hc, hcut, hroot, ht⟩ => ?_⟩
    · by_cases hne : c = call
      · rw [hne, hnone] at hroot
        exact absurd hroot Bool.noConfusion
      · exact ⟨c, hstays c hc hne, hcut, hroot⟩
    · by_cases hne : c = call
      · rw [hne, hnone] at hroot
        exact absurd hroot (Option.some_ne_none x).symm
      · exact ⟨c, hstays c hc hne, hcut, hroot, ht⟩

theorem Sound.step (h : Sound s) {event : VaultEvent} {s' : VaultServer} (hok : s.Careful event)
    (hstep : s.step event = some s') : Sound s' := by
  cases event with
  | receive request =>
    obtain rfl := Option.some.inj hstep
    exact h.received request
  | run i rows limited =>
    obtain ⟨call, hcall, hstep⟩ := Option.bind_eq_some_iff.mp hstep
    obtain ⟨⟨db', job'⟩, hnext, hstep⟩ := Option.bind_eq_some_iff.mp hstep
    obtain rfl := Option.some.inj hstep
    obtain ⟨hget, hcut⟩ := Option.filter_eq_some_iff.mp hcall
    rw [Bool.not_eq_true'] at hcut
    have hmem := List.mem_of_getElem? hget
    obtain ⟨hran, hwalked⟩ := ran_of_next (h.walked call hmem) (h.clock call hmem) hnext
    exact h.after hget hcut (h.kept hget hcut hok hran) hran hwalked
  | cut i =>
    obtain ⟨call, hget, rfl⟩ := Option.map_eq_some_iff.mp hstep
    exact h.cutOff hget
  | tick =>
    obtain rfl := Option.some.inj hstep
    exact h.of_calls rfl rfl rfl (fun c hc => (h.clock c hc).trans (Nat.le_succ _)) h.walked
      (fun _ _ => id)
      fun hnot => ⟨hnot, fun _ _ => id⟩
  | rotate =>
    obtain rfl := Option.some.inj hstep
    exact h.of_calls rfl rfl rfl h.clock h.walked (fun _ _ => id) fun hnot => ⟨hnot, fun _ _ => id⟩
  | content blobs =>
    obtain rfl := Option.some.inj hstep
    exact h.of_calls rfl rfl rfl h.clock h.walked (fun _ _ => id) fun hnot => ⟨hnot, fun _ _ => id⟩

end VaultServer

/-- The item's parents are live folders, up to the top level. -/
def VaultDb.Rooted (db : VaultDb) (id : ItemId) : Prop :=
  (∀ a, Forest.Above db.parentOf a id → a ≠ id → db.liveFolder a = true) ∧
    ∃ a, Forest.Above db.parentOf a id ∧ db.parentOf a = none

structure VaultServer.LiveForest (s : VaultServer) : Prop where
  acyclic : Forest.Acyclic s.db.parentOf
  rooted : s.Quiet → ∀ r ∈ s.db.items, r.live = true → s.db.Rooted r.id
  purged : ∀ x ∈ s.purged, ∀ r ∈ s.db.items, Forest.Above s.db.parentOf x r.id → r.live = false

namespace VaultServer

/-- In every run whose steps are careful, the vault is a forest of live folders. -/
theorem live_forest {s : VaultServer} (h : Runs.ReachableVia step Careful new s) :
    s.LiveForest := by
  have hsound : Sound s := h.invariant sound_new fun _ _ _ hs hok hstep => hs.step hok hstep
  have hacyclic : Forest.Acyclic s.db.parentOf := s.db.parent_tree ▸ hsound.grown.acyclic
  refine ⟨hacyclic, fun hquiet r hr hlive => ⟨fun a ha hne => ?_, ?_⟩, fun x hx r hr habove => ?_⟩
  · have hcovered : Tree.Covered s.Purging s.db.tree := by
      refine hsound.covered fun ⟨c, hc, _, hroot⟩ => ?_
      rw [hquiet c hc] at hroot
      exact absurd hroot Bool.noConfusion
    have hnone : ∀ x t, ¬ s.Purging x t := fun x t ⟨c, hc, _, hroot, _⟩ =>
      absurd ((hquiet c hc).symm.trans hroot) (Option.some_ne_none x).symm
    rw [← s.db.parent_tree] at ha
    obtain ⟨n, hn, hnlive⟩ := hcovered.all_live hnone (VaultDb.tree_live.mpr ⟨r, hr, rfl, hlive⟩) ha
    exact VaultDb.tree_liveFolder.mp ⟨n, hn, hnlive, hsound.grown.folder ha hne hn⟩
  · have hnodes : ∀ x y, s.db.parentOf x = some y →
        x ∈ (s.db.items.rows.map VaultItem.id).toFinset := by
      intro x y hxy
      obtain ⟨q, hq, _⟩ := Option.bind_eq_some_iff.mp hxy
      obtain ⟨hmem, rfl⟩ := Table.get?_eq_some.mp hq
      exact List.mem_toFinset.mpr (List.mem_map.mpr ⟨q, hmem, rfl⟩)
    exact hacyclic.exists_top hnodes r.id
  · rw [Bool.eq_false_iff]
    intro hlive
    rw [← s.db.parent_tree] at habove
    exact hsound.empty x hx r.id (VaultDb.tree_live.mpr ⟨r, hr, rfl, hlive⟩) habove

instance (s : VaultServer) : Decidable s.InTime := by unfold InTime; infer_instance

instance (s : VaultServer) : Decidable s.Interrupted := by unfold Interrupted; infer_instance

instance (s : VaultServer) : Decidable s.Quiet := by unfold Quiet; infer_instance

instance (s : VaultServer) (id : ItemId) (p : Option ItemId) : Decidable (s.KeepsPurges id p) := by
  unfold KeepsPurges
  infer_instance

instance (s : VaultServer) (event : VaultEvent) : Decidable (s.FreshIds event) := by
  unfold FreshIds
  repeat' split
  all_goals infer_instance

instance (s : VaultServer) (event : VaultEvent) : Decidable (s.MovesKeep event) := by
  unfold MovesKeep
  repeat' split
  all_goals infer_instance

instance (s : VaultServer) (event : VaultEvent) : Decidable (s.Timely event) := by
  unfold Timely
  split <;> infer_instance

instance (s : VaultServer) (event : VaultEvent) : Decidable (s.Careful event) :=
  decidable_of_iff (s.FreshIds event ∧ s.Timely event ∧ s.MovesKeep event)
    ⟨fun h => ⟨h.1, h.2.1, h.2.2⟩, fun h => ⟨h.freshIds, h.timely, h.movesKeep⟩⟩

/-- A request for a folder. -/
def newFolder (id : ItemId) (parentId : Option ItemId) : VaultRequest :=
  .create ⟨id, .folder, parentId, some INITIAL_KEY_EPOCH, ⟨0, 0, (id, .folder), .named ""⟩, 0, none⟩

/-- A request to move an item that was not edited yet. -/
def moveTo (id : ItemId) (parentId : Option ItemId) : VaultRequest :=
  .update id ⟨1, some parentId, none, none, none, none, none⟩

/-- Receive a request and run its handler so many times. -/
def whole (i : ℕ) (request : VaultRequest) (awaits : ℕ) : List VaultEvent :=
  .receive request :: List.replicate awaits (.run i [] false)

/-- A folder in a folder, and the outer one is purged. -/
def purgedFolder : List VaultEvent :=
  whole 0 (newFolder 1 none) 3 ++ whole 1 (newFolder 2 (some 1)) 4 ++ whole 2 (.delete 1) 2 ++
    [.run 2 [1, 2] false, .run 2 [] false, .run 2 [] false]

theorem live_forest_purged : ∃ s, Runs.ReachableVia step Careful new s ∧ s.purged = [1] ∧
    s.LiveForest := by
  have hrun :
      (Runs.replayVia step Careful new purgedFolder).any (fun s => decide (s.purged = [1])) =
        true := by decide
  obtain ⟨s, hs, hpurged⟩ := (Option.any_eq_true _ _).mp hrun
  have hreach := Runs.reachableVia_of_replayVia hs
  exact ⟨s, hreach, of_decide_eq_true hpurged, live_forest hreach⟩

/-- Folder 2 is moved into a folder that was made in 1 after the walk, and gets a folder
of its own; once both are purged, the new one is moved out. -/
def strandedFolder : List VaultEvent :=
  whole 0 (newFolder 1 none) 3 ++ whole 1 (newFolder 2 (some 1)) 4 ++ whole 2 (.delete 1) 2 ++
    [.run 2 [1, 2] false] ++ whole 3 (newFolder 3 (some 1)) 4 ++ whole 4 (moveTo 2 (some 3)) 4 ++
    whole 5 (newFolder 4 (some 2)) 4 ++ [.run 2 [] false] ++ whole 6 (moveTo 3 none) 3 ++
      [.run 2 [] false]

theorem live_forest_stranded :
    ∃ s, Runs.ReachableVia step FreshIds new s ∧ s.Quiet ∧ ¬ s.LiveForest := by
  have hrun : (Runs.replayVia step FreshIds new strandedFolder).any (fun s =>
      decide (s.Quiet ∧ (s.db.vaultItem 4).any (fun r => decide (r.parentId = some 2)) = true ∧
        s.db.liveFolder 2 = false)) = true := by decide
  obtain ⟨s, hs, hstate⟩ := (Option.any_eq_true _ _).mp hrun
  obtain ⟨hquiet, hitem, hdead⟩ := of_decide_eq_true hstate
  refine ⟨s, Runs.reachableVia_of_replayVia hs, hquiet, fun hforest => ?_⟩
  obtain ⟨r, hr, hparent⟩ := (Option.any_eq_true _ _).mp hitem
  obtain ⟨hmem, hid, hlive⟩ := VaultDb.mem_vaultItem.mp hr
  have habove : Forest.Above s.db.parentOf 2 r.id := by
    refine Forest.above_of_parent ?_
    rw [VaultDb.parentOf, Table.get?_of_mem hmem]
    exact of_decide_eq_true hparent
  have hfolder := (hforest.rooted hquiet r hmem hlive).1 2 habove (by simp [hid])
  exact absurd (hdead.symm.trans hfolder) Bool.noConfusion

end VaultServer
end SendSelf
