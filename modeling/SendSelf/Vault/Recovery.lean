import SendSelf.Library.Completion
import SendSelf.Vault.Purging
import SendSelf.Vault.Trees

/-!
# Completing a purge that was cut off

A call runs by itself, and may be cut off at any await. What its purge buried until then
stays buried, and the next call finds the tree as it was left.
-/
namespace SendSelf

namespace VaultDb

/-- What was below `root` is not alive any more. -/
def Cleared (root : ItemId) (db₀ db : VaultDb) : Prop :=
  ∀ r ∈ db.items, db₀.subtree root r.id = true → r.live = false

theorem mem_alive_rows {db : VaultDb} {root x : ItemId}
    (hroot : (db.items.get? root).isSome = true) :
    x ∈ db.alive root ↔ ∃ r ∈ db.items, r.live = true ∧ r.id = x ∧
    Forest.Above db.parentOf root x := by
  simp only [alive, List.mem_map, Table.mem_select, Bool.and_eq_true, hroot, true_and]
  constructor
  · rintro ⟨r, ⟨hr, hlive, hsub⟩, hx⟩
    exact ⟨r, hr, hlive, hx, hx ▸ subtree_iff.mp hsub⟩
  · rintro ⟨r, hr, hlive, hx, habove⟩
    exact ⟨r, ⟨hr, hlive, subtree_iff.mpr (hx ▸ habove)⟩, hx⟩

end VaultDb

/-- The database and the stage of a purge. -/
abbrev PurgeState : Type := VaultDb × TreePurge

def PurgeState.Step (root : ItemId) (a b : PurgeState) : Prop :=
  ∃ now rows, purgeVaultItem.next root now rows a.1 a.2 = some b

/-- The purge has returned, and nothing below its root is alive. -/
def PurgeState.Done (root : ItemId) (db : VaultDb) (a : PurgeState) : Prop :=
  (∃ purged, a.2 = .done purged) ∧ db.Purged (fun x => Forest.Above db.parentOf root x) a.1

section Purging

variable {root : ItemId} {db db' : VaultDb}

/-- Nothing alive is found any more. -/
theorem purge_ends (hempty : db'.alive root = []) {goal : PurgeState → Prop} {purged : List ItemId}
    (hgoal : goal (db', .done purged)) :
    Inevitable (PurgeState.Step root) goal (db', .walking purged) := by
  refine .of_step (t := (db', .done purged)) ⟨0, [], ?_⟩ (fun u ⟨now, rows, hnext⟩ => ?_)
    (.here hgoal)
  · simp [purgeVaultItem.next, hempty]
  · simp only [purgeVaultItem.next, hempty] at hnext
    split_ifs at hnext with hperm hrows
    · exact (Option.some.inj hnext).symm
    · exact absurd hperm.eq_nil hrows

/-- The batches of a walk, one after the other, and the walk that finds nothing left. -/
theorem purge_batches {now : ℕ} (hroot : (db.items.get? root).isSome = true) (n : ℕ)
    {found purged : List ItemId}
    (hn : found.length ≤ n) {gone : ItemId → Prop} (hpurged : db.Purged gone db')
    (hgone : ∀ x, gone x → Forest.Above db.parentOf root x)
    (hfound : ∀ x ∈ db'.alive root, x ∈ found) :
    Inevitable (PurgeState.Step root) (PurgeState.Done root db) (db',
      .purging now found purged) := by
  induction n generalizing found purged gone db' with
  | zero =>
    obtain rfl : found = [] := List.eq_nil_of_length_eq_zero (Nat.le_zero.mp hn)
    have hempty : db'.alive root = [] :=
      List.eq_nil_iff_forall_not_mem.mpr fun x hx => absurd (hfound x hx) List.not_mem_nil
    refine .of_step ⟨0, [], rfl⟩ (fun u ⟨_, _, hnext⟩ => (Option.some.inj hnext).symm) ?_
    refine purge_ends hempty ⟨⟨_, rfl⟩, hpurged.congr fun r hr hlive =>
      ⟨hgone r.id, fun habove => ?_⟩⟩
    by_contra hnot
    have hlives := (hpurged.live r).mpr ⟨hr, hlive, hnot⟩
    have hthere : (db'.items.get? root).isSome = true := (hpurged.there root).trans hroot
    have hmem :=
      (VaultDb.mem_alive_rows hthere).mpr ⟨r, hlives.1, hlive, rfl, hpurged.parent ▸ habove⟩
    rw [hempty] at hmem
    exact List.not_mem_nil hmem
  | succ n ih =>
    have hbatch := VaultDb.purged_batch root now (found.take PURGE_BATCH_SIZE) db'
    have hafter := hpurged.trans hbatch
    have hthere : (db'.items.get? root).isSome = true := (hpurged.there root).trans hroot
    have hthere' :
        (((db'.purgeBatch root now (found.take PURGE_BATCH_SIZE)).1).items.get? root).isSome =
          true :=
      (hbatch.there root).trans hthere
    have hgone' : ∀ x,
        (gone x ∨ (x ∈ found.take PURGE_BATCH_SIZE ∧ Forest.Above db'.parentOf root x)) →
        Forest.Above db.parentOf root x := by
      intro x hx
      rcases hx with hx | ⟨_, hx⟩
      · exact hgone x hx
      · exact hpurged.parent ▸ hx
    have hrest : ∀ x ∈ (db'.purgeBatch root now (found.take PURGE_BATCH_SIZE)).1.alive root,
        x ∈ found.drop PURGE_BATCH_SIZE := by
      intro x hx
      obtain ⟨r, hr, hlive, rfl, habove⟩ := (VaultDb.mem_alive_rows hthere').mp hx
      rw [hbatch.parent] at habove
      obtain ⟨hr, hlive, hnot⟩ := (hbatch.live r).mp ⟨hr, hlive⟩
      have hmem := hfound r.id ((VaultDb.mem_alive_rows hthere).mpr ⟨r, hr, hlive, rfl, habove⟩)
      rw [← List.take_append_drop PURGE_BATCH_SIZE found] at hmem
      exact (List.mem_append.mp hmem).resolve_left fun htake => hnot ⟨htake, habove⟩
    have hlength : (found.drop PURGE_BATCH_SIZE).length ≤ n := by
      rw [List.length_drop]
      unfold PURGE_BATCH_SIZE
      omega
    refine .of_step ⟨0, [], rfl⟩ (fun u ⟨_, _, hnext⟩ => (Option.some.inj hnext).symm) ?_
    split_ifs with hnone
    · have hempty : (db'.purgeBatch root now (found.take PURGE_BATCH_SIZE)).1.alive root = [] :=
        List.eq_nil_iff_forall_not_mem.mpr fun x hx => absurd (hrest x hx) (by simp [hnone])
      refine purge_ends hempty ⟨⟨_, rfl⟩, hafter.congr fun r hr hlive =>
        ⟨hgone' r.id, fun habove => ?_⟩⟩
      by_contra hnot
      have hlives := (hafter.live r).mpr ⟨hr, hlive, hnot⟩
      have hmem :=
        (VaultDb.mem_alive_rows hthere').mpr ⟨r, hlives.1, hlive, rfl, hafter.parent ▸ habove⟩
      rw [hempty] at hmem
      exact List.not_mem_nil hmem
    · exact ih hlength hafter hgone' hrest

/-- A purge that is not disturbed returns, and leaves nothing alive below its root. -/
theorem purge_completes (hroot : (db.items.get? root).isSome = true) {purged : List ItemId} :
    Inevitable (PurgeState.Step root) (PurgeState.Done root db) (db, .walking purged) := by
  refine .next
    (t := if db.alive root = [] then (db, .done purged)
      else (db, .purging 0 (db.alive root) purged))
    ⟨0, db.alive root, ?_⟩ fun u ⟨now, rows, hnext⟩ => ?_
  · simp only [purgeVaultItem.next, List.Perm.refl, if_true]
    split_ifs <;> rfl
  · simp only [purgeVaultItem.next] at hnext
    split_ifs at hnext with hperm hrows
    · obtain rfl := Option.some.inj hnext
      subst hrows
      refine .here ⟨⟨purged, rfl⟩, (VaultDb.Purged.refl db).congr fun r hr hlive =>
        iff_of_false id fun habove => ?_⟩
      have hmem := (VaultDb.mem_alive_rows hroot).mpr ⟨r, hr, hlive, rfl, habove⟩
      rw [← hperm.nil_eq] at hmem
      exact List.not_mem_nil hmem
    · obtain rfl := Option.some.inj hnext
      exact purge_batches hroot rows.length le_rfl (.refl db) (fun _ => False.elim) fun x hx =>
        hperm.symm.subset hx

end Purging

structure SoloCall where
  db : VaultDb
  job : VaultJob
  /-- Expired items of other groups that a clean-up finds as well. -/
  elsewhere : ℕ

namespace SoloCall

/-- A selection that returns nothing of this group although there is something returned
items of others, and uses them up. -/
def Step (started : ℕ) (a b : SoloCall) : Prop :=
  ∃ groupKeyEpoch now rows,
  a.job.next started ⟨groupKeyEpoch, now, false⟩ rows a.db = some (b.db, b.job) ∧
    b.elsewhere ≤ a.elsewhere ∧
    (a.job = .cleanUp .selecting → rows = [] → cleanUpVault.expired started a.db ≠ [] →
      b.elsewhere < a.elsewhere)

def Runs (started : ℕ) : SoloCall → SoloCall → Prop := Relation.ReflTransGen (Step started)

variable {started : ℕ} {db db' : VaultDb} {root : ItemId}

/-- Where there is one way to go on. -/
theorem inevitable_only {goal : SoloCall → Prop} {a : SoloCall} {job : VaultJob}
    (hnext : ∀ groupKeyEpoch now rows,
      a.job.next started ⟨groupKeyEpoch, now, false⟩ rows a.db = some (db, job))
    (hbusy : a.job ≠ .cleanUp .selecting) (h : ∀ e, Inevitable (Step started) goal ⟨db, job, e⟩) :
    Inevitable (Step started) goal a := by
  refine .next (t := ⟨db, job, a.elsewhere⟩) ⟨0, 0, [], hnext 0 0 [], le_rfl,
    fun he => absurd he hbusy⟩
    fun u ⟨groupKeyEpoch, now, rows, hu, _⟩ => ?_
  obtain ⟨db', job', e⟩ := u
  obtain ⟨rfl, rfl⟩ := Prod.mk.inj (Option.some.inj ((hnext groupKeyEpoch now rows).symm.trans hu))
  exact h e

/-- Carried out as a part of a call, a purge reaches what it reaches by itself. -/
theorem inevitable_purge {wrap : TreePurge → VaultJob} {after : List ItemId → VaultJob}
    {reached : PurgeState → Prop}
    {goal : SoloCall → Prop} (hnext : ∀ m rows db stage, (wrap stage).next started m rows db =
      (purgeVaultItem.next root m.now rows db stage).map fun r => (r.1, r.2.orElse wrap after))
    (hbusy : ∀ stage, wrap stage ≠ .cleanUp .selecting)
    (hdone : ∀ a, reached a → ∃ purged, a.2 = .done purged)
    (hafter : ∀ db purged, reached (db, .done purged) → ∀ e,
      Inevitable (Step started) goal ⟨db, after purged, e⟩)
    {a : PurgeState} (h : Inevitable (PurgeState.Step root) reached a) :
    ∀ e, Inevitable (Step started) goal ⟨a.1, a.2.orElse wrap after, e⟩ := by
  induction h with
  | @here a ha =>
    intro e
    obtain ⟨db, stage⟩ := a
    obtain ⟨purged, rfl⟩ := hdone _ ha
    exact hafter db purged ha e
  | @next a t hstep hall ih =>
    intro e
    obtain ⟨db, stage⟩ := a
    have hwrap : stage.orElse wrap after = wrap stage := by
      cases stage with
      | done purged =>
        obtain ⟨now, rows, hnext'⟩ := hstep
        cases hnext'
      | _ => rfl
    simp only [hwrap]
    obtain ⟨now, rows, hpurge⟩ := hstep
    refine .next (t := ⟨t.1, t.2.orElse wrap after, e⟩) ⟨0, now, rows, ?_, le_rfl,
      fun he => absurd he (hbusy stage)⟩
      fun u ⟨epoch, now', rows', hu, _, _⟩ => ?_
    · simp only [hnext, hpurge, Option.map_some]
    · simp only [hnext] at hu
      obtain ⟨next, hpurge', heq⟩ := Option.map_eq_some_iff.mp hu
      obtain ⟨hdb, hjob⟩ := Prod.mk.inj heq
      have hu' := ih next ⟨now', rows', hpurge'⟩ u.elsewhere
      rw [hdb, hjob] at hu'
      exact hu'

/-- The first steps: the request is let in, and its item is looked up. -/
theorem delete_begins {goal : SoloCall → Prop} {e : ℕ}
    (h : ∀ e',
      Inevitable (Step started) goal ⟨db,
        .delete root (if (db.vaultItem root).isSome then .purging (.walking [])
      else .answered (.error ⟨.not_found, "That item no longer exists"⟩)), e'⟩) :
    Inevitable (Step started) goal ⟨db, .delete root .received, e⟩ := by
  have hauthed : ∀ e', Inevitable (Step started) goal ⟨db, .delete root .authed, e'⟩ :=
    fun e' => inevitable_only (fun _ _ _ => rfl) (by simp) h
  exact inevitable_only (fun _ _ _ => rfl) (by simp) hauthed

/-- A deletion that is not disturbed purges everything below its item. -/
theorem delete_completes (hlive : (db.vaultItem root).isSome = true) (e : ℕ) :
    Inevitable (Step started)
    (fun t => (∃ removed, t.job = .delete root (.answered (.ok removed))) ∧
      db.Purged (fun x => Forest.Above db.parentOf root x) t.db) ⟨db,
      .delete root .received, e⟩ := by
  have hroot : (db.items.get? root).isSome = true := by
    obtain ⟨r, hr⟩ := Option.isSome_iff_exists.mp hlive
    rw [(Option.filter_eq_some_iff.mp hr).1]
    rfl
  refine delete_begins fun e' => ?_
  rw [if_pos hlive]
  have hnext : ∀ m rows db stage, (VaultJob.delete root (.purging stage)).next started m rows db =
      (purgeVaultItem.next root m.now rows db stage).map fun r =>
        (r.1, r.2.orElse (fun stage => .delete root (.purging stage)) fun removed =>
          .delete root (.answered (.ok removed))) := by
    intro m rows db stage
    simp only [VaultJob.next, deleteVaultItem.next, Option.map_map]
    congr 1
    funext r
    obtain ⟨db', stage'⟩ := r
    cases stage' <;> rfl
  exact inevitable_purge hnext (fun stage => by simp) (fun a ha => ha.1)
    (fun db₁ purged ha e => .here ⟨⟨purged, rfl⟩, ha.2⟩) (purge_completes hroot) e'

/-- One step of a deletion. -/
theorem purged_of_delete {m : VaultMoment} {rows : List ItemId} {stage : DeleteStage}
    {next : VaultDb × DeleteStage}
    (h : deleteVaultItem.next root m rows db stage = some next) : db.PurgedBelow root next.1 := by
  cases stage with
  | received =>
    obtain rfl := Option.some.inj h
    exact .refl db root
  | authed =>
    obtain rfl := Option.some.inj h
    exact .refl db root
  | answered a => cases h
  | purging stage =>
    obtain ⟨next', hpurge, rfl⟩ := Option.map_eq_some_iff.mp h
    exact VaultDb.purged_of_next hpurge

/-- What a deletion that was cut off did. -/
theorem delete_prefix {t : SoloCall} {e : ℕ} (h : Runs started ⟨db, .delete root .received, e⟩ t) :
    (∃ stage, t.job = .delete root stage) ∧ db.PurgedBelow root t.db := by
  induction h with
  | refl => exact ⟨⟨_, rfl⟩, .refl db root⟩
  | tail _ hstep ih =>
    obtain ⟨⟨stage, hjob⟩, hpurged⟩ := ih
    obtain ⟨epoch, now, rows, hnext, _⟩ := hstep
    rw [hjob] at hnext
    obtain ⟨next, hdelete, heq⟩ := Option.map_eq_some_iff.mp hnext
    obtain ⟨hdb, hjob'⟩ := Prod.mk.inj heq
    exact ⟨⟨_, hjob'.symm⟩, hdb ▸ hpurged.trans (purged_of_delete hdelete)⟩

/-- A deletion of an item that is no more answers, and changes nothing. -/
theorem delete_missing (hdead : (db.vaultItem root).isSome = false) (e : ℕ) :
    Inevitable (Step started)
    (fun t => (∃ a, t.job = .delete root (.answered a)) ∧ t.db = db) ⟨db,
      .delete root .received, e⟩ := by
  refine delete_begins fun e' => ?_
  rw [hdead]
  exact .here ⟨⟨_, rfl⟩, rfl⟩

theorem answered_final {t u : SoloCall} (h : ∃ a, t.job = .delete root (.answered a)) :
    ¬ Step started t u := by
  intro ⟨epoch, now, rows, hnext, _⟩
  obtain ⟨a, hjob⟩ := h
  rw [hjob] at hnext
  cases hnext

/-- Sending the request again completes a purge as long as its root is alive. -/
theorem delete_retry_iff {started' e e' : ℕ} {t : SoloCall}
    (h : Runs started ⟨db, .delete root .received, e⟩ t) :
    Inevitable (Step started') (fun u => (∃ a, u.job = .delete root (.answered a)) ∧
      db.Cleared root u.db)
        ⟨t.db, .delete root .received, e'⟩ ↔
      (t.db.vaultItem root).isSome = true ∨ db.Cleared root t.db := by
  obtain ⟨_, gone, hpurged, hgone⟩ := delete_prefix h
  cases hlive : (t.db.vaultItem root).isSome with
  | true =>
    refine iff_of_true ((delete_completes hlive e').mono fun u ⟨⟨removed, hjob⟩, hdone⟩ =>
      ⟨⟨_, hjob⟩, fun r hr hsub => ?_⟩)
      (Or.inl rfl)
    rw [Bool.eq_false_iff]
    intro hrlive
    exact ((hdone.live r).mp ⟨hr, hrlive⟩).2.2 (hpurged.parent ▸ VaultDb.subtree_iff.mp hsub)
  | false =>
    constructor
    · intro hretry
      have hboth := hretry.and_final (delete_missing hlive e') (fun u v hu => answered_final hu.1)
        fun u v hu => answered_final hu.1
      obtain ⟨u, _, ⟨_, hcleared⟩, _, hdb⟩ := hboth.exists_run
      exact Or.inr (hdb ▸ hcleared)
    · intro hcleared
      have hcleared := hcleared.resolve_left Bool.noConfusion
      exact (delete_missing hlive e').mono fun u ⟨hanswered, hdb⟩ => ⟨hanswered, hdb ▸ hcleared⟩

end SoloCall

namespace VaultDb
open cleanUpVault

variable {started : ℕ} {gone : ItemId → Prop} {db₀ db db' : VaultDb}

theorem mem_expired {x : ItemId} :
    x ∈ expired started db ↔ ∃ r ∈ db.items, r.live = true ∧ isExpired started r = true ∧
    r.id = x := by
  simp only [expired, List.mem_map, Table.mem_select]
  constructor
  · rintro ⟨r, ⟨hr, hexpired⟩, hx⟩
    exact ⟨r, hr, (Bool.and_eq_true _ _ ▸ hexpired).1, hexpired, hx⟩
  · rintro ⟨r, hr, _, hexpired, hx⟩
    exact ⟨r, ⟨hr, hexpired⟩, hx⟩

theorem nodup_expired : (expired started db).Nodup :=
  (List.filter_sublist.map VaultItem.id).nodup db.items.nodup

theorem Purged.mem_expired (h : db.Purged gone db') {x : ItemId} :
    x ∈ expired started db' ↔ x ∈ expired started db ∧ ¬ gone x := by
  rw [VaultDb.mem_expired, VaultDb.mem_expired]
  constructor
  · intro ⟨r, hr, hlive, hexpired, hx⟩
    obtain ⟨hr, _, hnot⟩ := (h.live r).mp ⟨hr, hlive⟩
    exact ⟨⟨r, hr, hlive, hexpired, hx⟩, hx ▸ hnot⟩
  · intro ⟨⟨r, hr, hlive, hexpired, hx⟩, hnot⟩
    exact ⟨r, ((h.live r).mpr ⟨hr, hlive, hx ▸ hnot⟩).1, hlive, hexpired, hx⟩

theorem Purged.expired_le (h : db.Purged gone db') :
    (expired started db').length ≤ (expired started db).length :=
  (nodup_expired.subperm fun _ hx => (h.mem_expired.mp hx).1).length_le

theorem Purged.expired_lt (h : db.Purged gone db') {x : ItemId} (hx : x ∈ expired started db)
    (hgone : gone x) :
    (expired started db').length < (expired started db).length := by
  have hnot : x ∉ expired started db' := fun hx' => (h.mem_expired.mp hx').2 hgone
  have hsub : x :: expired started db' ⊆ expired started db :=
    List.cons_subset.mpr ⟨hx, fun _ hy => (h.mem_expired.mp hy).1⟩
  exact ((List.nodup_cons.mpr ⟨hnot, nodup_expired⟩).subperm hsub).length_le

/-- Whole trees were purged. -/
def Settled (db db' : VaultDb) : Prop :=
  ∃ gone, db.Purged gone db' ∧ ∀ x y, gone x → Forest.Above db.parentOf x y → gone y

theorem Settled.refl (db : VaultDb) : db.Settled db := ⟨_, .refl db, fun _ _ => False.elim⟩

theorem Settled.purge (h : db₀.Settled db) {id : ItemId}
    (hpurged : db.Purged (fun x => Forest.Above db.parentOf id x) db') :
    db₀.Settled db' := by
  obtain ⟨gone, hgone, hclosed⟩ := h
  refine ⟨_, hgone.trans hpurged, fun x y hx hxy => ?_⟩
  rw [hgone.parent] at hx ⊢
  rcases hx with hx | hx
  · exact Or.inl (hclosed x y hx hxy)
  · exact Or.inr (hx.trans hxy)

/-- Once nothing is expired any more, nothing is alive below what was. -/
theorem Settled.cleared (h : db₀.Settled db) (hempty : expired started db = []) {x : ItemId}
    (hx : x ∈ expired started db₀) {r : VaultItem} (hr : r ∈ db.items) (hlive : r.live = true) :
    db₀.subtree x r.id = false := by
  obtain ⟨gone, hgone, hclosed⟩ := h
  rw [Bool.eq_false_iff]
  intro hsub
  have hxgone : gone x := by
    by_contra hnot
    have hmem := hgone.mem_expired.mpr ⟨hx, hnot⟩
    rw [hempty] at hmem
    exact List.not_mem_nil hmem
  exact ((hgone.live r).mp ⟨hr, hlive⟩).2.2 (hclosed x r.id hxgone (subtree_iff.mp hsub))

end VaultDb

namespace SoloCall
open cleanUpVault

variable {started : ℕ} {db₀ db : VaultDb}

/-- An item is claimed as it was read. -/
theorem claim_of_read {id : ItemId} {root : VaultItem}
    (hread : (db.vaultItem id).filter (isExpired started) = some root)
    (rest : List ItemId) (now : ℕ) : ∃ db', db.Purged (fun x => x = id) db' ∧ ∀ epoch rows,
      (VaultJob.cleanUp (.claiming id root.blobKey rest)).next started ⟨epoch, now, false⟩ rows db =
        some (db', .cleanUp (.purging id (.walking []) rest)) := by
  obtain ⟨hitem, hexpired⟩ := Option.filter_eq_some_iff.mp hread
  have hguard : (db.vaultItem id).filter (fun r => (r.trashedAt.any fun at_ =>
      decide (at_ < started - VAULT_TRASH_TTL_MS)) && decide (r.blobKey = root.blobKey)) =
        some root := by
    rw [hitem, Option.filter_some, if_pos]
    simp only [isExpired, Bool.and_eq_true] at hexpired
    simp [hexpired.2]
  refine ⟨(db.claimExpired id (started - VAULT_TRASH_TTL_MS) root.blobKey now).1, ?_,
    fun epoch rows => ?_⟩
  · refine (VaultDb.purged_tombstone now id _ db).congr fun r _ _ => ?_
    rw [hguard]
    exact and_iff_right rfl
  · have hsome :
        (db.claimExpired id (started - VAULT_TRASH_TTL_MS) root.blobKey now).2.isSome = true :=
      (Option.isSome_map ..).trans (by exact hguard ▸ rfl)
    simp only [VaultJob.next, cleanUpVault.next, hsome, if_true, Option.map_some]

/-- The purge of a selected item. -/
theorem purging_goes_on {id : ItemId} (hroot : (db.items.get? id).isSome = true)
    (rest : List ItemId) (e : ℕ) :
    Inevitable (Step started) (fun t => t.job = .cleanUp (purgeNext rest) ∧
      db.Purged (fun x => Forest.Above db.parentOf id x) t.db) ⟨db,
      .cleanUp (.purging id (.walking []) rest), e⟩ := by
  have hnext : ∀ m rows db stage,
      (VaultJob.cleanUp (.purging id stage rest)).next started m rows db =
      (purgeVaultItem.next id m.now rows db stage).map fun r =>
        (r.1, r.2.orElse (fun stage => .cleanUp (.purging id stage rest)) fun _ =>
          .cleanUp (purgeNext rest)) := by
    intro m rows db stage
    simp only [VaultJob.next, cleanUpVault.next, Option.map_map]
    congr 1
    funext r
    obtain ⟨db', stage'⟩ := r
    cases stage' <;> rfl
  exact inevitable_purge hnext (fun stage => by simp) (fun a ha => ha.1) (fun db' purged ha e =>
    .here ⟨rfl, ha.2⟩)
    (purge_completes hroot) e

/-- One of the selected items: it is read, claimed and purged, unless it is not expired any more. -/
theorem reading_goes_on (id : ItemId) (rest : List ItemId) (e : ℕ) : Inevitable (Step started)
    (fun t => t.job = .cleanUp (purgeNext rest) ∧ (t.db = db ∧ id ∉ expired started db ∨
      db.Purged (fun x => Forest.Above db.parentOf id x) t.db))
    ⟨db, .cleanUp (.reading id rest), e⟩ := by
  cases hread : (db.vaultItem id).filter (isExpired started) with
  | none =>
    have hnext : ∀ epoch now rows,
        (VaultJob.cleanUp (.reading id rest)).next started ⟨epoch, now, false⟩ rows db =
        some (db, .cleanUp (purgeNext rest)) := by
      intro epoch now rows
      simp only [VaultJob.next, cleanUpVault.next, hread, Option.map_some]
    refine inevitable_only hnext (by simp) fun e' => .here ⟨rfl, Or.inl ⟨rfl, fun hmem => ?_⟩⟩
    obtain ⟨r, hr, hlive, hexpired, hid⟩ := VaultDb.mem_expired.mp hmem
    rw [VaultDb.mem_vaultItem.mpr ⟨hr, hid, hlive⟩, Option.filter_some, if_pos hexpired] at hread
    exact Option.some_ne_none r hread
  | some root =>
    have hnext : ∀ epoch now rows,
        (VaultJob.cleanUp (.reading id rest)).next started ⟨epoch, now, false⟩ rows db =
        some (db, .cleanUp (.claiming id root.blobKey rest)) := by
      intro epoch now rows
      simp only [VaultJob.next, cleanUpVault.next, hread, Option.map_some]
    refine inevitable_only hnext (by simp) fun e' => ?_
    obtain ⟨db', _, hclaim⟩ := claim_of_read hread rest 0
    refine .next (t := ⟨db', .cleanUp (.purging id (.walking []) rest), e'⟩) ⟨0, 0, [], hclaim 0 [],
      le_rfl, by simp⟩ ?_
    rintro ⟨db'', job, e''⟩ ⟨epoch, now, rows, hu, _⟩
    obtain ⟨db', hclaimed, hclaim⟩ := claim_of_read hread rest now
    obtain ⟨rfl, rfl⟩ := Prod.mk.inj (Option.some.inj ((hclaim epoch rows).symm.trans hu))
    have hroot : (db'.items.get? id).isSome = true := by
      obtain ⟨hitem, _⟩ := Option.filter_eq_some_iff.mp hread
      rw [hclaimed.there, (Option.filter_eq_some_iff.mp hitem).1]
      rfl
    refine (purging_goes_on hroot rest e'').mono fun t ht => ⟨ht.1, Or.inr ?_⟩
    refine (hclaimed.trans ht.2).congr fun r _ _ => ?_
    rw [hclaimed.parent]
    exact ⟨fun h => h.elim (fun hid => hid ▸ Forest.above_refl _) fun habove => habove, Or.inr⟩

/-- The rest of the selected items, and then the next selection. -/
theorem rest_goes_on {goal : SoloCall → Prop} {n : ℕ} (hselect : ∀ db e, db₀.Settled db →
      (expired started db).length < n → Inevitable (Step started) goal ⟨db, .cleanUp .selecting, e⟩)
    (rest : List ItemId) (hdb : db₀.Settled db) (hn : (expired started db).length < n) (e : ℕ) :
    Inevitable (Step started) goal ⟨db, .cleanUp (purgeNext rest), e⟩ := by
  induction rest generalizing db e with
  | nil => exact hselect db e hdb hn
  | cons id rest ih =>
    refine (reading_goes_on id rest e).bind fun ⟨db', job, e'⟩ ⟨hjob, hread⟩ => ?_
    obtain rfl : job = .cleanUp (purgeNext rest) := hjob
    rcases hread with ⟨rfl, _⟩ | hpurged
    · exact ih hdb hn e'
    · exact ih (hdb.purge hpurged) (hpurged.expired_le.trans_lt hn) e'

theorem selecting_next {m : VaultMoment} {rows : List ItemId} {u : VaultDb × VaultJob} :
    (VaultJob.cleanUp .selecting).next started m rows db = some u ↔
      rows.Nodup ∧ rows ⊆ expired started db ∧ rows.length ≤ SELECTED ∧
        u = (db,
          .cleanUp (if rows = [] ∧
            expired started db = [] then .forgetting else purgeNext rows)) := by
  simp only [VaultJob.next, cleanUpVault.next]
  by_cases h : rows.Nodup ∧ rows ⊆ expired started db ∧ rows.length ≤ SELECTED
  · rw [if_pos h, Option.map_some, Option.some_inj]
    exact ⟨fun hu => ⟨h.1, h.2.1, h.2.2, hu.symm⟩, fun hu => hu.2.2.2.symm⟩
  · rw [if_neg h]
    exact ⟨fun hu => absurd hu.symm (Option.some_ne_none u),
      fun hu => absurd ⟨hu.1, hu.2.1, hu.2.2.1⟩ h⟩

/-- What a clean-up is to reach. -/
def CleanedUp (started : ℕ) (db : VaultDb) (t : SoloCall) : Prop :=
  t.job = .cleanUp .done ∧ (∀ r ∈ t.db.items, r.live = true → r ∈ db.items) ∧
  ∀ x ∈ expired started db, db.Cleared x t.db

/-- Nothing is expired any more, and the tombstones are forgotten. -/
theorem forgetting_ends (hdb : db₀.Settled db) (hempty : expired started db = []) (e : ℕ) :
    Inevitable (Step started) (CleanedUp started db₀) ⟨db, .cleanUp .forgetting, e⟩ := by
  refine inevitable_only (fun _ _ _ => rfl) (by simp) fun e' =>
    .here ⟨rfl, fun r hr hlive => ?_, fun x hx r hr hsub => ?_⟩
  · obtain ⟨gone, hgone, _⟩ := hdb
    exact ((hgone.live r).mp ⟨(Table.mem_delete.mp hr).1, hlive⟩).1
  · rw [Bool.eq_false_iff]
    intro hlive
    exact absurd (hsub.symm.trans (hdb.cleared hempty hx (Table.mem_delete.mp hr).1 hlive))
      Bool.noConfusion

/-- A clean-up that is not disturbed purges everything below what was expired. -/
theorem cleanUp_completes (db : VaultDb) (e : ℕ) :
    Inevitable (Step started) (CleanedUp started db) ⟨db, .cleanUp .selecting, e⟩ := by
  suffices h : ∀ n db' e, db.Settled db' → (expired started db').length = n →
      Inevitable (Step started)
      (CleanedUp started db) ⟨db', .cleanUp .selecting, e⟩ from h _ db e (.refl db) rfl
  intro n
  induction n using Nat.strong_induction_on with
  | _ n ih =>
    intro db' e hdb hn
    induction e using Nat.strong_induction_on with
    | _ e ihe =>
      have hrows : ∀ {rows : List ItemId} {e' : ℕ}, rows ⊆ expired started db' → e' ≤ e →
          (rows = [] → expired started db' ≠ [] → e' < e) →
          Inevitable (Step started) (CleanedUp started db)
            ⟨db', .cleanUp (if rows = [] ∧
              expired started db' = [] then .forgetting else purgeNext rows), e'⟩ := by
        intro rows e' hsub hle hlt
        cases rows with
        | nil =>
          split_ifs with hempty
          · exact forgetting_ends hdb hempty.2 e'
          · exact ihe e' (hlt rfl fun h => hempty ⟨rfl, h⟩)
        | cons id rest =>
          rw [if_neg (by simp)]
          have hid := hsub List.mem_cons_self
          refine (reading_goes_on id rest e').bind fun ⟨db'', job, e''⟩ ⟨hjob, hread⟩ => ?_
          obtain rfl : job = .cleanUp (purgeNext rest) := hjob
          rcases hread with ⟨_, hnot⟩ | hpurged
          · exact absurd hid hnot
          · have hless := hpurged.expired_lt hid (Forest.above_refl id)
            exact rest_goes_on (fun db e hdb hlt => ih _ hlt db e hdb rfl) rest (hdb.purge hpurged)
              (hn ▸ hless) e''
      have hsome : (expired started db').take SELECTED = [] → expired started db' = [] := by
        intro h
        exact (List.take_eq_nil_iff.mp h).resolve_left (by decide)
      have hselect :=
        (selecting_next (m := ⟨0, 0, false⟩)).mpr
          ⟨(List.take_sublist ..).nodup VaultDb.nodup_expired,
        List.take_subset SELECTED (expired started db'), List.length_take_le .., rfl⟩
      refine .next (t := ⟨db', _, e⟩) ⟨0, 0, _, hselect, le_rfl,
        fun _ hnone hne => absurd (hsome hnone) hne⟩
        fun u ⟨epoch, now, rows, hu, hle, hlt⟩ => ?_
      obtain ⟨db'', job, e'⟩ := u
      obtain ⟨_, hsub, _, hu⟩ := selecting_next.mp hu
      dsimp only at hu hsub
      obtain ⟨rfl, rfl⟩ := Prod.mk.inj hu
      exact hrows hsub hle (hlt rfl)

end SoloCall

namespace VaultDb
open cleanUpVault

variable {started : ℕ} {db₀ db db' : VaultDb}

/-- The item is in an expired one. -/
def Expiring (started : ℕ) (db : VaultDb) (id : ItemId) : Prop :=
  ∃ x ∈ expired started db, db.subtree x id = true

theorem Expiring.below {x y : ItemId} (h : db.Expiring started x)
    (hxy : Forest.Above db.parentOf x y) :
    db.Expiring started y := by
  obtain ⟨a, ha, hax⟩ := h
  exact ⟨a, ha, subtree_iff.mpr ((subtree_iff.mp hax).trans hxy)⟩

theorem Expiring.of_mem {x : ItemId} (h : x ∈ expired started db) : db.Expiring started x :=
  ⟨x, h, subtree_iff.mpr (Forest.above_refl x)⟩

/-- Only what was expired is purged. -/
def Spared (started : ℕ) (db₀ db : VaultDb) : Prop :=
  ∃ gone, db₀.Purged gone db ∧ ∀ x, gone x → db₀.Expiring started x

theorem Spared.mem_expired (h : db₀.Spared started db) {x : ItemId} (hx : x ∈ expired started db) :
    x ∈ expired started db₀ := by
  obtain ⟨gone, hgone, _⟩ := h
  exact (hgone.mem_expired.mp hx).1

theorem Spared.purge (h : db₀.Spared started db) {gone : ItemId → Prop}
    (hpurged : db.Purged gone db') {id : ItemId} (hid : db₀.Expiring started id)
    (hsub : ∀ x, gone x → Forest.Above db.parentOf id x) :
    db₀.Spared started db' := by
  obtain ⟨gone₀, hgone₀, hexpiring⟩ := h
  refine ⟨_, hgone₀.trans hpurged, fun x hx => ?_⟩
  rcases hx with hx | hx
  · exact hexpiring x hx
  · exact hid.below (hgone₀.parent ▸ hsub x hx)

/-- The claim of an item that is not expired fails. -/
theorem Spared.claim (h : db₀.Spared started db) (id : ItemId)
    (blobKey : Option FileKey) (now : ℕ) :
    db₀.Spared started (db.claimExpired id (started - VAULT_TRASH_TTL_MS) blobKey now).1 ∧
      ((db.claimExpired id (started - VAULT_TRASH_TTL_MS) blobKey now).2.isSome = true →
        db₀.Expiring started id) := by
  have hclaimed : ((db.vaultItem id).filter fun r => (r.trashedAt.any fun at_ =>
      decide (at_ < started - VAULT_TRASH_TTL_MS)) && decide (r.blobKey = blobKey)).isSome = true →
      db₀.Expiring started id := by
    intro hsome
    obtain ⟨r, hr⟩ := Option.isSome_iff_exists.mp hsome
    obtain ⟨hitem, hguard⟩ := Option.filter_eq_some_iff.mp hr
    obtain ⟨hmem, hid, hlive⟩ := mem_vaultItem.mp hitem
    refine .of_mem (h.mem_expired (VaultDb.mem_expired.mpr ⟨r, hmem, hlive, ?_, hid⟩))
    rw [isExpired, hlive, Bool.true_and]
    exact (Bool.and_eq_true _ _ ▸ hguard).1
  refine ⟨?_, fun hsome => hclaimed ((Option.isSome_map ..).symm.trans hsome)⟩
  have hpurged := purged_tombstone now id (fun r => (r.trashedAt.any fun at_ =>
    decide (at_ < started - VAULT_TRASH_TTL_MS)) && decide (r.blobKey = blobKey)) db
  obtain ⟨gone, hgone, hexpiring⟩ := h
  refine ⟨_, hgone.trans hpurged, fun x hx => ?_⟩
  rcases hx with hx | ⟨hsome, rfl⟩
  · exact hexpiring x hx
  · exact hclaimed hsome

theorem Spared.mem (h : db₀.Spared started db) {r : VaultItem} (hr : r ∈ db₀.items)
    (hlive : r.live = true) (hnot : ¬ db₀.Expiring started r.id) : r ∈ db.items := by
  obtain ⟨gone, hgone, hexpiring⟩ := h
  exact ((hgone.live r).mpr ⟨hr, hlive, fun hx => hnot (hexpiring _ hx)⟩).1

end VaultDb

namespace SoloCall
open cleanUpVault

variable {started : ℕ} {db₀ db : VaultDb}

/-- What a clean-up keeps at each of its awaits. -/
inductive Spares (started : ℕ) (db₀ : VaultDb) : VaultDb → CleanUpStage → Prop
  | going {db : VaultDb} {stage : CleanUpStage} : db₀.Spared started db →
      (∀ id, (VaultJob.cleanUp stage).root = some id → db₀.Expiring started id) →
        Spares started db₀ db stage
  | done {db : VaultDb} :
      (∀ r ∈ db₀.items, r.live = true → ¬ db₀.Expiring started r.id → r ∈ db.items) →
      Spares started db₀ db .done

theorem root_purgeNext (rest : List ItemId) :
    (VaultJob.cleanUp (purgeNext rest)).root = none := by cases rest <;> rfl

theorem Spares.of_root (hspared : db₀.Spared started db) {stage : CleanUpStage}
    (hnone : (VaultJob.cleanUp stage).root = none) :
    Spares started db₀ db stage :=
  .going hspared fun id hid => absurd (hnone.symm.trans hid) (Option.some_ne_none id).symm

theorem Spares.mem {stage : CleanUpStage} (h : Spares started db₀ db stage) {r : VaultItem}
    (hr : r ∈ db₀.items)
    (hlive : r.live = true) (hnot : ¬ db₀.Expiring started r.id) : r ∈ db.items := by
  cases h with
  | going hspared _ => exact hspared.mem hr hlive hnot
  | done hkept => exact hkept r hr hlive hnot

theorem Spares.step {m : VaultMoment} {rows : List ItemId} {stage : CleanUpStage}
    (h : Spares started db₀ db stage) {next : VaultDb × CleanUpStage}
    (hnext : cleanUpVault.next started m rows db stage = some next) :
    Spares started db₀ next.1 next.2 := by
  cases h with
  | done hkept => cases hnext
  | going hspared hroot =>
    cases stage with
    | selecting =>
      simp only [cleanUpVault.next] at hnext
      split_ifs at hnext
      · obtain rfl := Option.some.inj hnext
        exact .of_root hspared rfl
      · obtain rfl := Option.some.inj hnext
        exact .of_root hspared (root_purgeNext rows)
    | reading id rest =>
      obtain rfl := Option.some.inj hnext
      dsimp only
      cases (db.vaultItem id).filter (isExpired started) with
      | none => exact .of_root hspared (root_purgeNext rest)
      | some root => exact .of_root hspared rfl
    | claiming id blobKey rest =>
      obtain rfl := Option.some.inj hnext
      obtain ⟨hafter, hclaimed⟩ := hspared.claim id blobKey m.now
      dsimp only
      split_ifs with hsome
      · exact .going hafter fun x hx => Option.some.inj hx ▸ hclaimed hsome
      · exact .of_root hafter (root_purgeNext rest)
    | purging id stage rest =>
      have hid := hroot id rfl
      obtain ⟨next', hpurge, rfl⟩ := Option.map_eq_some_iff.mp hnext
      obtain ⟨gone, hpurged, hgone⟩ := VaultDb.purged_of_next hpurge
      have hafter := hspared.purge hpurged hid hgone
      dsimp only
      cases next'.2 with
      | walking purged => exact .going hafter fun x hx => Option.some.inj hx ▸ hid
      | purging now found purged => exact .going hafter fun x hx => Option.some.inj hx ▸ hid
      | done purged => exact .of_root hafter (root_purgeNext rest)
    | forgetting =>
      obtain rfl := Option.some.inj hnext
      refine .done fun r hr hlive hnot => Table.mem_delete.mpr ⟨hspared.mem hr hlive hnot, ?_⟩
      rw [VaultDb.forgettable, VaultDb.live_iff.mp hlive]
      rfl
    | done => cases hnext

/-- What is not in an expired item is there after any part of a clean-up. -/
theorem cleanUp_spares {t : SoloCall} {e : ℕ} (h : Runs started ⟨db₀, .cleanUp .selecting, e⟩ t) :
    ∃ stage, t.job = .cleanUp stage ∧ Spares started db₀ t.db stage := by
  induction h with
  | refl => exact ⟨_, rfl, .of_root ⟨_, .refl db₀, fun _ => False.elim⟩ rfl⟩
  | tail _ hstep ih =>
    obtain ⟨stage, hjob, hspares⟩ := ih
    obtain ⟨epoch, now, rows, hnext, _⟩ := hstep
    rw [hjob] at hnext
    obtain ⟨next, hcleanUp, heq⟩ := Option.map_eq_some_iff.mp hnext
    obtain ⟨hdb, hjob'⟩ := Prod.mk.inj heq
    exact ⟨_, hjob'.symm, hdb ▸ hspares.step hcleanUp⟩

/-- The next clean-up completes those that were cut off where what they left is still
in an expired item. -/
theorem cleanUp_retry_iff (xs : List ItemId) (db₀ db : VaultDb) (e : ℕ) :
    Inevitable (Step started) (fun t => t.job = .cleanUp .done ∧ ∀ x ∈ xs, db₀.Cleared x t.db)
        ⟨db, .cleanUp .selecting, e⟩ ↔
      ∀ r ∈ db.items, r.live = true → (∃ x ∈ xs, db₀.subtree x r.id = true) →
        db.Expiring started r.id := by
  constructor
  · intro hends r hr hlive ⟨x, hx, hsub⟩
    obtain ⟨t, hrun, _, hcleared⟩ := hends.exists_run
    obtain ⟨stage, _, hspares⟩ := cleanUp_spares hrun
    by_contra hnot
    exact absurd (hlive.symm.trans (hcleared x hx r (hspares.mem hr hlive hnot) hsub))
      (Ne.symm Bool.false_ne_true)
  · intro hall
    refine (cleanUp_completes db e).mono fun t ⟨hjob, hkept, hcleared⟩ =>
      ⟨hjob, fun x hx r hr hsub => ?_⟩
    rw [Bool.eq_false_iff]
    intro hlive
    obtain ⟨x', hx', hsub'⟩ := hall r (hkept r hr hlive) hlive ⟨x, hx, hsub⟩
    exact absurd (hlive.symm.trans (hcleared x' hx' r hr hsub')) Bool.noConfusion

/-- Cut off anywhere, a deletion is completed by sending it again as long as its item is
alive, or if nothing was left; a clean-up is completed by the next one if what was left
is in an expired item still. What is alive can be deleted in any case. -/
theorem purge_completed_iff (db₀ : VaultDb) (started e : ℕ) (t : SoloCall) (started' e' : ℕ) :
    (∀ root, Runs started ⟨db₀, .delete root .received, e⟩ t →
      (Inevitable (Step started') (fun u => (∃ a, u.job = .delete root (.answered a)) ∧
        db₀.Cleared root u.db)
          ⟨t.db, .delete root .received, e'⟩ ↔
        (t.db.vaultItem root).isSome = true ∨ db₀.Cleared root t.db)) ∧
    (Runs started ⟨db₀, .cleanUp .selecting, e⟩ t →
      (Inevitable (Step started') (fun u => u.job = .cleanUp .done ∧ ∀ x ∈ expired started db₀,
        db₀.Cleared x u.db)
          ⟨t.db, .cleanUp .selecting, e'⟩ ↔
        ∀ r ∈ t.db.items, r.live = true → db₀.Expiring started r.id →
          t.db.Expiring started' r.id)) ∧
    ∀ r ∈ t.db.items, r.live = true →
      Inevitable (Step started') (fun u =>
        (∃ removed, u.job = .delete r.id (.answered (.ok removed))) ∧
        t.db.Cleared r.id u.db) ⟨t.db, .delete r.id .received, e'⟩ := by
  refine ⟨fun root h => delete_retry_iff h, fun _ => cleanUp_retry_iff .., fun r hr hlive => ?_⟩
  have hsome : (t.db.vaultItem r.id).isSome = true := by
    rw [VaultDb.mem_vaultItem.mpr ⟨hr, rfl, hlive⟩]
    rfl
  refine (delete_completes hsome e').mono fun u ⟨hjob, hpurged⟩ => ⟨hjob, fun q hq hsub => ?_⟩
  rw [Bool.eq_false_iff]
  intro hqlive
  exact ((hpurged.live q).mp ⟨hq, hqlive⟩).2.2 (VaultDb.subtree_iff.mp hsub)

/-- One step that finds something, if it is a selection. -/
def advance (started : ℕ) (a : SoloCall) (rows : List ItemId) : Option SoloCall :=
  match a.job, rows with
  | .cleanUp .selecting, [] => none
  | job, rows => (job.next started ⟨0, started, false⟩ rows a.db).map fun next =>
      ⟨next.1, next.2, a.elsewhere⟩

theorem step_of_advance {a b : SoloCall} {rows : List ItemId}
    (h : advance started a rows = some b) : Step started a b := by
  unfold advance at h
  split at h
  · cases h
  · rename_i hfinds
    obtain ⟨next, hnext, rfl⟩ := Option.map_eq_some_iff.mp h
    exact ⟨0, started, _, hnext, le_rfl, fun hjob hrows => (hfinds hjob hrows).elim⟩

theorem runs_of_reachable {a b : SoloCall} (h : Runs.Reachable (advance started) a b) :
    SoloCall.Runs started a b := by
  induction h with
  | start => exact .refl
  | next _ _ hstep ih => exact ih.tail (step_of_advance hstep)

instance (db : VaultDb) (id : ItemId) : Decidable (db.Expiring started id) := by
  unfold VaultDb.Expiring
  infer_instance

instance (db₀ db : VaultDb) (root : ItemId) : Decidable (VaultDb.Cleared root db₀ db) := by
  unfold VaultDb.Cleared
  infer_instance

/-- A folder, and so many others in it. -/
def folderOf (n : ℕ) : VaultDb :=
  ((List.range (n + 1)).map fun id =>
    VaultBatch.create ⟨id, if id = 0 then none else some 0, .folder, INITIAL_KEY_EPOCH,
    ⟨0, 0, (id, .folder), .named ""⟩, 0, none, 0⟩ 0).foldl (fun db batch => batch.commit db) .new

/-- The item is put into the trash. -/
def trashed (id : ItemId) (db : VaultDb) : VaultDb :=
  (VaultBatch.update id 1 ⟨none, none, none, some (some 0)⟩ 0).commit db

/-- When what was put into the trash at first is expired. -/
def late : ℕ := VAULT_TRASH_TTL_MS + 1

/-- A deletion that is cut off after its first batch, which left its item alone, and a
clean-up that is cut off once it claimed a folder with another expired one in it. -/
theorem purge_completed_again :
    (∃ t, SoloCall.Runs 0 ⟨folderOf 40, .delete 0 .received, 0⟩ t ∧ t.db.liveCount = 1 ∧
      Inevitable (Step 0) (fun u => (∃ a, u.job = .delete 0 (.answered a)) ∧
        (folderOf 40).Cleared 0 u.db)
        ⟨t.db, .delete 0 .received, 0⟩) ∧
    ∃ t, SoloCall.Runs late ⟨trashed 1 (trashed 0 (folderOf 1)), .cleanUp .selecting, 0⟩ t ∧
      t.db.liveCount = 1 ∧
      Inevitable (Step late) (fun u => u.job = .cleanUp .done ∧
        ∀ x ∈ expired late (trashed 1 (trashed 0 (folderOf 1))),
        (trashed 1 (trashed 0 (folderOf 1))).Cleared x u.db) ⟨t.db, .cleanUp .selecting, 0⟩ := by
  have hdelete : (Runs.replay (advance 0) ⟨folderOf 40, .delete 0 .received, 0⟩
      [[], [], (List.range 41).reverse, []]).any (fun t =>
      decide (t.db.liveCount = 1 ∧ (t.db.vaultItem 0).isSome = true)) = true := by decide +kernel
  have hcleanUp :
      (Runs.replay (advance late) ⟨trashed 1 (trashed 0 (folderOf 1)), .cleanUp .selecting, 0⟩
      [[0], [], []]).any (fun t => decide (t.db.liveCount = 1 ∧ ∀ r ∈ t.db.items, r.live = true →
        t.db.Expiring late r.id)) = true := by decide +kernel
  obtain ⟨t, hrun, hcount, hlive⟩ := Runs.exists_reachable_of_replay hdelete
  obtain ⟨t', hrun', hcount', hall⟩ := Runs.exists_reachable_of_replay hcleanUp
  have hruns := runs_of_reachable hrun
  have hruns' := runs_of_reachable hrun'
  exact ⟨⟨t, hruns, hcount, ((purge_completed_iff _ 0 0 t 0 0).1 0 hruns).mpr (Or.inl hlive)⟩,
    t', hruns', hcount',
    (purge_completed_iff _ late 0 t' late 0).2.1 hruns' |>.mpr fun r hr hrlive _ =>
      hall r hr hrlive⟩

/-- The item itself is in the first batch, or it is claimed, and what is in it is left. -/
theorem purge_not_completed :
    (∃ t, SoloCall.Runs 0 ⟨folderOf 40, .delete 0 .received, 0⟩ t ∧
      ¬ Inevitable (Step 0) (fun u => (∃ a, u.job = .delete 0 (.answered a)) ∧
        (folderOf 40).Cleared 0 u.db)
        ⟨t.db, .delete 0 .received, 0⟩) ∧
    ∃ t, SoloCall.Runs late ⟨trashed 0 (folderOf 1), .cleanUp .selecting, 0⟩ t ∧
      ¬ Inevitable (Step late) (fun u => u.job = .cleanUp .done ∧
        ∀ x ∈ expired late (trashed 0 (folderOf 1)),
        (trashed 0 (folderOf 1)).Cleared x u.db) ⟨t.db, .cleanUp .selecting, 0⟩ := by
  have hdelete : (Runs.replay (advance 0) ⟨folderOf 40, .delete 0 .received, 0⟩
      [[], [], List.range 41, []]).any (fun t =>
      decide (¬ ((t.db.vaultItem 0).isSome = true ∨ (folderOf 40).Cleared 0 t.db))) = true := by
        decide +kernel
  have hcleanUp : (Runs.replay (advance late) ⟨trashed 0 (folderOf 1), .cleanUp .selecting, 0⟩
      [[0], [], []]).any (fun t =>
        decide (∃ r ∈ t.db.items, r.live = true ∧ (trashed 0 (folderOf 1)).Expiring late r.id ∧
        ¬ t.db.Expiring late r.id)) = true := by decide +kernel
  obtain ⟨t, hrun, hleft⟩ := Runs.exists_reachable_of_replay hdelete
  obtain ⟨t', hrun', r, hr, hlive, hbefore, hafter⟩ := Runs.exists_reachable_of_replay hcleanUp
  have hruns := runs_of_reachable hrun
  refine ⟨⟨t, hruns, fun hends => hleft ((delete_retry_iff hruns).mp hends)⟩, t',
    runs_of_reachable hrun', fun hends => ?_⟩
  exact hafter ((cleanUp_retry_iff _ _ _ _).mp hends r hr hlive hbefore)

end SoloCall
end SendSelf
