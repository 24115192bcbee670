import SendSelf.Blobs.Content
import SendSelf.Vault.Purging
import SendSelf.Vault.Trees

/-!
# Moving a folder out of a purge

A purge tombstones what its walk has found a batch at a time, and asks of each row again
whether it is still inside. A folder that is moved out in the meantime is left alone, and
so is everything alive in it: nothing of it is inside the purged folder any more, and the
content that the purge cleans up is that of rows it has tombstoned.

What a batch has tombstoned before the move stays so. The rows of a walk come in no order
that the query asks for. Where a folder is listed before what is inside it, a batch never
takes the inside and spares the folder; where it is not, the move may save a folder that
has been emptied.
-/
namespace SendSelf

namespace VaultDb

/-- No row of a walk is listed after one that is inside it. -/
def FoldersFirst (db : VaultDb) (rows : List ItemId) : Prop :=
  rows.Pairwise fun x y => db.subtree y x = false

/-- An update of this item has been accepted. -/
def Edited (id : ItemId) (revision : ℕ) (db : VaultDb) : Prop :=
  ∃ r ∈ db.items, r.id = id ∧ revision < r.revision

theorem purged_of_items {db db' : VaultDb} (h : db'.items = db.items) :
    db.Purged (fun _ => False) db' := by
  refine ⟨?_, ?_, ?_⟩
  · funext y
    rw [parentOf, parentOf, h]
  · intro y
    rw [h]
  · intro r
    simp [h]

theorem Edited.of_items {id : ItemId} {revision : ℕ} {db db' : VaultDb} (h : db.Edited id revision)
    (hitems : db'.items = db.items) : db'.Edited id revision := by
  unfold Edited
  rw [hitems]
  exact h

/-- A statement that meets no row. -/
theorem purged_of_refused {id : ItemId} {guard : VaultItem → Bool} {f : VaultItem → VaultItem}
    {db : VaultDb} (h : (db.vaultItem id).filter guard = none) :
    db.Purged (fun _ => False) (db.change id guard f).1 := by
  have hmiss : ∀ r ∈ db.items, ¬ (decide (r.id = id) && r.live && guard r) = true := by
    intro r hr hhit
    simp only [Bool.and_eq_true, decide_eq_true_eq] at hhit
    have hsome : (db.vaultItem id).filter guard = some r :=
      Option.filter_eq_some_iff.mpr ⟨mem_vaultItem.mpr ⟨hr, hhit.1.1, hhit.1.2⟩, hhit.2⟩
    exact absurd (h.symm.trans hsome) (Option.some_ne_none r).symm
  refine ⟨?_, ?_, ?_⟩
  · rw [← parent_tree, ← parent_tree, tree_change_none h]
  · intro y
    rw [get?_change, Option.isSome_map]
  · intro r
    rw [mem_change]
    constructor
    · intro hr
      obtain ⟨⟨q, hq, rfl⟩, hlive⟩ := hr
      rw [if_neg (hmiss q hq)] at hlive ⊢
      exact ⟨hq, hlive, not_false⟩
    · intro hr
      exact ⟨⟨r, hr.1, (if_neg (hmiss r hr.1)).symm⟩, hr.2.1⟩

/-- Each revision is accepted once. -/
theorem Edited.refused {id : ItemId} {revision : ℕ} {db : VaultDb} (h : db.Edited id revision)
    (guard : VaultItem → Bool) :
    (db.vaultItem id).filter (fun r => decide (r.revision = revision) && guard r) = none := by
  obtain ⟨q, hq, hid, hlt⟩ := h
  rw [Option.filter_eq_none_iff]
  intro r hr hhit
  obtain ⟨hmem, hrid, _⟩ := mem_vaultItem.mp hr
  obtain rfl := Table.eq_of_key hmem hq (hrid.trans hid.symm)
  simp only [Bool.and_eq_true, decide_eq_true_eq] at hhit
  omega

theorem Edited.purgeBatch {id x : ItemId} {revision now : ℕ} {ids : List ItemId} {db : VaultDb}
    (h : db.Edited id revision) :
    (db.purgeBatch x now ids).1.Edited id revision := by
  induction ids generalizing db with
  | nil => exact h
  | cons y ids ih =>
    refine ih ?_
    obtain ⟨q, hq, hid, hlt⟩ := h
    refine ⟨_, mem_change.mpr ⟨q, hq, rfl⟩, ?_⟩
    split_ifs
    · exact ⟨hid, hlt⟩
    · exact ⟨hid, hlt⟩

/-- An accepted update. -/
theorem edited_of_accepted {id : ItemId} {revision now : ℕ} {changes : ItemChanges} {db : VaultDb}
    (h : ((db.vaultItem id).filter fun r =>
      decide (r.revision = revision) && changes.guard id db).isSome = true) :
    (db.update id revision changes now).1.Edited id revision := by
  obtain ⟨r, hr⟩ := Option.isSome_iff_exists.mp h
  obtain ⟨hitem, hguard⟩ := Option.filter_eq_some_iff.mp hr
  obtain ⟨hmem, hid, hlive⟩ := mem_vaultItem.mp hitem
  refine ⟨_, mem_change.mpr ⟨r, hmem, rfl⟩, ?_⟩
  simp only [Bool.and_eq_true, decide_eq_true_eq] at hguard
  rw [if_pos (by simp [hid, hlive, hguard.1, hguard.2])]
  refine ⟨hid, ?_⟩
  simp only [stamp, ItemChanges.apply]
  omega

theorem parentOf_update {id : ItemId} {revision now : ℕ} {changes : ItemChanges} {db : VaultDb}
    {p : Option ItemId}
    (h : db.accepts id revision changes = true) (hp : changes.parentId = some p) :
    (db.update id revision changes now).1.parentOf = Function.update db.parentOf id p := by
  obtain ⟨r, hitem, hguard⟩ := (Option.any_eq_true _ _).mp h
  have hrow :
      (db.vaultItem id).filter (fun r => decide (r.revision = revision) && changes.guard id db) =
        some r :=
    Option.filter_eq_some_iff.mpr ⟨hitem, hguard⟩
  rw [← parent_tree, update, tree_change_some hrow, Tree.parent_set, parent_tree]
  simp only [VaultItem.node, ItemChanges.apply, hp, Option.getD_some]

end VaultDb

/-- The batch moves `folder` from inside `x` to a place outside of it, and is accepted. -/
def VaultBatch.movesOut (x folder : ItemId) (db : VaultDb) : VaultBatch → Bool
  | .update id revision changes _ =>
      decide (id = folder ∧ folder ≠ x) && db.subtree x folder && db.accepts id revision changes &&
        changes.parentId.any fun p => p.all fun q => !db.subtree x q
  | _ => false

/-- The rows that a purge is still to ask for. -/
def VaultJob.found : VaultJob → List ItemId
  | .delete _ (.purging (.purging _ rows _)) => rows
  | _ => []

namespace ContentServer

/-- Purges of `x`, edits of `folder` as the request has them, and clean-ups of content. -/
def concerns (x folder : ItemId) (req : UpdateVaultItemRequest) : ContentEvent → Bool
  | .vault (.receive (.delete id)) => decide (id = x)
  | .vault (.receive (.update id r)) => decide (id = folder ∧ r = req)
  | .vault (.receive _) => false
  | .vault _ | .run _ _ => true
  | .start _ (.delete _) => true
  | .start _ _ => false

/-- Nothing is in progress, and the items are a forest. -/
structure Idle (s : ContentServer) : Prop where
  forest : Forest.Acyclic s.vault.db.parentOf
  calls : s.vault.calls = []
  jobs : ∀ r, s.jobs r = none

/-- A step commits an accepted move of `folder` out of `x`. -/
def MovesOut (x folder : ItemId) (s : ContentServer) : ContentEvent → Prop
  | .vault e => (s.vault.batch e).any (VaultBatch.movesOut x folder s.vault.db) = true
  | _ => False

/-- A walk lists folders before what is inside them. -/
def WalksInOrder (s : ContentServer) : ContentEvent → Prop
  | .vault (.run _ rows _) => s.vault.db.FoldersFirst rows
  | _ => True

/-- Only purges of `x`, edits of `folder` and deletions are in progress, and no key whose
object is about to go has a row that is not reserved. -/
structure Busy (x folder : ItemId) (req : UpdateVaultItemRequest) (s : ContentServer) : Prop where
  calls : ∀ c ∈ s.vault.calls, (∃ stage, c.job = .delete x stage) ∨ ∃ stage,
    c.job = .update folder req stage
  jobs : ∀ r job, s.jobs r = some job → ∃ removal, job = .delete removal ∧ ∀ key ∈ removal.doomed,
    ¬ s.Held key

variable {quota : ℕ} {x folder : ItemId} {req : UpdateVaultItemRequest} {s s' : ContentServer}

theorem Idle.busy (h : s.Idle) : s.Busy x folder req where
  calls := fun c hc => by
    rw [h.calls] at hc
    cases hc
  jobs := fun r job hjob => by
    rw [h.jobs] at hjob
    cases hjob

/-- What the steps of such calls do to the rows. -/
inductive Did (x folder : ItemId) (revision : ℕ) (db db' : VaultDb) : Prop
  | still (h : db'.items = db.items)
  | purged (ids : List ItemId) (now : ℕ) (h : db' = (db.purgeBatch x now ids).1)
  | edited (changes : VaultDb.ItemChanges) (now : ℕ)
      (h : db' = (db.update folder revision changes now).1)

theorem Busy.batch_cases (h : s.Busy x folder req) {e : VaultEvent} {b : VaultBatch}
    (hb : s.vault.batch e = some b) :
    (∃ ids now, b = .purge x ids now) ∨ ∃ changes now,
    b = .update folder req.revision changes now := by
  cases e with
  | run i rows limited =>
    obtain ⟨call, hcall, hb⟩ := Option.bind_eq_some_iff.mp hb
    have hmem : call ∈ s.vault.calls := List.mem_of_getElem? (Option.filter_eq_some_iff.mp hcall).1
    rcases h.calls call hmem with ⟨stage, hjob⟩ | ⟨stage, hjob⟩
    · rw [hjob] at hb
      cases stage with
      | purging stage =>
        cases stage with
        | purging now found purged => exact Or.inl ⟨_, _, (Option.some.inj hb).symm⟩
        | _ => cases hb
      | _ => cases hb
    · rw [hjob] at hb
      cases stage with
      | ready changes => exact Or.inr ⟨_, _, (Option.some.inj hb).symm⟩
      | _ => cases hb
  | _ => cases hb

theorem Busy.did (h : s.Busy x folder req) {e : ContentEvent} (hs : s.step quota e = some s') :
    Did x folder req.revision s.vault.db s'.vault.db := by
  cases e with
  | vault e =>
    obtain ⟨_, _, _, hdb⟩ := step_vault hs
    rw [hdb]
    cases hb : s.vault.batch e with
    | none => exact .still rfl
    | some b =>
      rcases h.batch_cases hb with ⟨ids, now, rfl⟩ | ⟨changes, now, rfl⟩
      · exact .purged ids now rfl
      · exact .edited changes now rfl
  | start r job =>
    obtain ⟨_, rfl⟩ := step_start hs
    exact .still rfl
  | run r m =>
    obtain ⟨job, _, _, rfl⟩ := step_run hs
    exact .still items_run

/-- A deletion makes no row one that is not reserved, and it is about to delete the
objects of reserved rows only. -/
theorem held_deleteBlobs {m : BlobMoment} {removal : Removal} {d : BlobDb VaultDb} {key : FileKey}
    (h : ∃ u ∈ (deleteBlobs.next VAULT_BLOBS m d removal).1.db.blobs, u.r2Key = key ∧
      u.createdAt ≠ RESERVED_FOR_DELETION) :
    (∃ u ∈ d.db.blobs, u.r2Key = key ∧ u.createdAt ≠ RESERVED_FOR_DELETION) ∧
      key ∉ (deleteBlobs.next VAULT_BLOBS m d removal).2.doomed := by
  obtain ⟨u, hu, hkey, hlive⟩ := h
  cases hm : m.throws with
  | true =>
    rw [deleteBlobs.next_of_throws hm]
    refine ⟨⟨u, ?_, hkey, hlive⟩, List.not_mem_nil⟩
    cases removal <;> simpa [deleteBlobs.next, hm, BlobDb.deleteObjects] using hu
  | false =>
    cases removal with
    | starting keys =>
      rw [deleteBlobs.next_starting rfl hm] at hu ⊢
      rw [deleteBlobs.doomed_afterReserving]
      have hrows : u ∈
          VAULT_BLOBS.rows (VAULT_BLOBS.reserveForDeletion (keys.take SWEEP_BATCH_SIZE) d).db := hu
      rw [BlobStore.rows_reserveForDeletion] at hrows
      obtain ⟨v, hv, huv⟩ := Table.mem_update.mp hrows
      split_ifs at huv with hhit
      · subst huv
        exact absurd rfl hlive
      · subst huv
        refine ⟨⟨u, hv, hkey, hlive⟩, fun hmem => hhit ?_⟩
        obtain ⟨htake, hfree⟩ := List.mem_filter.mp hmem
        rw [hkey]
        simp only [Bool.and_eq_true] at hfree ⊢
        exact ⟨decide_eq_true htake, hfree.2⟩
    | objects keys rest =>
      refine ⟨⟨u, hu, hkey, hlive⟩, ?_⟩
      simp only [deleteBlobs.next]
      split_ifs <;> exact List.not_mem_nil
    | rows keys rest =>
      have hnext : deleteBlobs.next VAULT_BLOBS m d (.rows keys rest) =
          (VAULT_BLOBS.dropReserved keys d, Removal.again rest) := by simp [deleteBlobs.next, hm]
      rw [hnext] at hu ⊢
      have hrows : u ∈ VAULT_BLOBS.rows (VAULT_BLOBS.dropReserved keys d).db := hu
      rw [BlobStore.rows_dropReserved] at hrows
      refine ⟨⟨u, (Table.mem_delete.mp hrows).1, hkey, hlive⟩, ?_⟩
      rw [Removal.doomed_again]
      exact List.not_mem_nil
    | done => exact ⟨⟨u, hu, hkey, hlive⟩, List.not_mem_nil⟩

/-- A call that goes on is still a purge of `x`, or an edit of `folder`. -/
theorem job_next {started : ℕ} {m : VaultMoment} {rows : List ItemId} {db : VaultDb}
    {job : VaultJob} {next : VaultDb × VaultJob}
    (h : (∃ stage, job = .delete x stage) ∨ ∃ stage, job = .update folder req stage)
    (hnext : job.next started m rows db = some next) :
    (∃ stage, next.2 = .delete x stage) ∨ ∃ stage, next.2 = .update folder req stage := by
  rcases h with ⟨stage, rfl⟩ | ⟨stage, rfl⟩
  · obtain ⟨r, _, rfl⟩ := Option.map_eq_some_iff.mp hnext
    exact Or.inl ⟨r.2, rfl⟩
  · obtain rfl := Option.some.inj hnext
    exact Or.inr ⟨_, rfl⟩

theorem vault_of_step {e : VaultEvent} (hs : s.step quota (.vault e) = some s') :
    ∃ vault, s.vault.step e = some vault ∧ s' = { s with vault } := by
  have hstep : (s.vault.step e).map (fun vault => { s with vault }) = some s' := by
    cases e with
    | content blobs => cases hs
    | _ => exact hs
  obtain ⟨vault, hvault, he⟩ := Option.map_eq_some_iff.mp hstep
  exact ⟨vault, hvault, he.symm⟩

theorem Busy.calls_step (h : s.Busy x folder req) {e : VaultEvent}
    (hc : concerns x folder req (.vault e) = true) (hs : s.step quota (.vault e) = some s') :
    ∀ c ∈ s'.vault.calls, (∃ stage, c.job = .delete x stage) ∨ ∃ stage,
      c.job = .update folder req stage := by
  obtain ⟨vault, hvault, rfl⟩ := vault_of_step hs
  have hset : ∀ {i : ℕ} {c : VaultCall},
      ((∃ stage, c.job = .delete x stage) ∨ ∃ stage, c.job = .update folder req stage) →
      ∀ d ∈ s.vault.calls.set i c, (∃ stage, d.job = .delete x stage) ∨ ∃ stage,
      d.job = .update folder req stage := by
    intro i c hc d hd
    rcases List.mem_or_eq_of_mem_set hd with hd | rfl
    · exact h.calls d hd
    · exact hc
  cases e with
  | receive request =>
    obtain rfl := Option.some.inj hvault
    intro c hmem
    rcases List.mem_append.mp hmem with hmem | hmem
    · exact h.calls c hmem
    · obtain rfl := List.mem_singleton.mp hmem
      cases request with
      | delete id =>
        obtain rfl : id = x := of_decide_eq_true hc
        exact Or.inl ⟨_, rfl⟩
      | update id r =>
        obtain ⟨rfl, rfl⟩ : id = folder ∧ r = req := of_decide_eq_true hc
        exact Or.inr ⟨_, rfl⟩
      | _ => cases hc
  | run i rows limited =>
    obtain ⟨call, hcall, hvault⟩ := Option.bind_eq_some_iff.mp hvault
    obtain ⟨next, hnext, hvault⟩ := Option.bind_eq_some_iff.mp hvault
    obtain rfl := Option.some.inj hvault
    have hmem : call ∈ s.vault.calls := List.mem_of_getElem? (Option.filter_eq_some_iff.mp hcall).1
    exact hset (job_next (h.calls call hmem) hnext)
  | cut i =>
    obtain ⟨call, hcall, rfl⟩ := Option.map_eq_some_iff.mp hvault
    exact hset (h.calls call (List.mem_of_getElem? hcall))
  | content blobs =>
    obtain rfl := Option.some.inj hvault
    exact h.calls
  | tick =>
    obtain rfl := Option.some.inj hvault
    exact h.calls
  | rotate =>
    obtain rfl := Option.some.inj hvault
    exact h.calls

theorem job_of_update {jobs : RequestId → Option BlobJob} {r r' : RequestId} {job job' : BlobJob}
    (h : Function.update jobs r (some job) r' = some job') : job' = job ∨ jobs r' = some job' := by
  by_cases hr : r' = r
  · subst hr
    rw [Function.update_self] at h
    exact Or.inl (Option.some.inj h).symm
  · rw [Function.update_of_ne hr] at h
    exact Or.inr h

theorem Busy.step (h : s.Busy x folder req) {e : ContentEvent} (hc : concerns x folder req e = true)
    (hs : s.step quota e = some s') : s'.Busy x folder req := by
  cases e with
  | vault e =>
    obtain ⟨_, hjobs, hblobs, _⟩ := step_vault hs
    refine ⟨h.calls_step hc hs, fun r job hjob => ?_⟩
    rw [hjobs] at hjob
    simp only [Held, hblobs]
    exact h.jobs r job hjob
  | start r job =>
    have hnew : job.isNew = true := by
      obtain ⟨b, hb, _⟩ := Option.map_eq_some_iff.mp hs
      simp only [BlobServer.start] at hb
      split_ifs at hb with hnew
      exact hnew.1
    obtain ⟨_, rfl⟩ := step_start hs
    refine ⟨h.calls, fun r' job' hjob' => ?_⟩
    rcases job_of_update hjob' with rfl | hjob'
    · cases job' with
      | delete removal =>
        cases removal with
        | starting keys => exact ⟨_, rfl, fun key hkey => absurd hkey List.not_mem_nil⟩
        | _ => cases hnew
      | _ => cases hc
    · exact h.jobs r' job' hjob'
  | run r m =>
    obtain ⟨job, hjob, _, rfl⟩ := step_run hs
    obtain ⟨removal, rfl, hdoomed⟩ := h.jobs r job hjob
    have hheld : ∀ {key : FileKey},
        (s.withBlobs
          ⟨((BlobJob.delete removal).action VAULT_BLOBS m s.vault.db).run VAULT_BLOBS quota m
        ⟨s.vault.db, s.bucket⟩,
        Function.update s.jobs r (some ((BlobJob.delete removal).next VAULT_BLOBS quota
          ⟨.quota_exceeded, (VAULT_FULL quota).message⟩ m ⟨s.vault.db, s.bucket⟩).2)⟩).Held key →
        s.Held key ∧
          key ∉ (deleteBlobs.next VAULT_BLOBS m ⟨s.vault.db, s.bucket⟩ removal).2.doomed := by
      intro key hkey
      refine held_deleteBlobs (d := ⟨s.vault.db, s.bucket⟩) ?_
      rw [@BlobJob.deleteBlobs.next_action _ VAULT_BLOBS quota m ⟨s.vault.db, s.bucket⟩ removal]
      exact hkey
    refine ⟨h.calls, fun r' job' hjob' => ?_⟩
    rcases job_of_update hjob' with rfl | hjob'
    · exact ⟨_, rfl, fun key hkey hk => (hheld hk).2 hkey⟩
    · obtain ⟨removal', rfl, hdoomed'⟩ := h.jobs r' job' hjob'
      exact ⟨removal', rfl, fun key hkey hk => hdoomed' key hkey (hheld hk).1⟩

/-- After an edit was accepted. -/
theorem Did.of_edited {revision : ℕ} {db db' : VaultDb} (h : Did x folder revision db db')
    (he : db.Edited folder revision) :
    db'.Edited folder revision ∧ db.PurgedBelow x db' := by
  cases h with
  | still h => exact ⟨he.of_items h, _, VaultDb.purged_of_items h, fun _ => False.elim⟩
  | purged ids now h =>
    subst h
    exact ⟨he.purgeBatch, _, VaultDb.purged_batch x now ids db, fun y hy => hy.2⟩
  | edited changes now h =>
    subst h
    refine ⟨?_, _, VaultDb.purged_of_refused (he.refused fun _ => changes.guard folder db),
      fun _ => False.elim⟩
    obtain ⟨q, hq, hid, hlt⟩ := he
    refine ⟨q, VaultDb.mem_change.mpr ⟨q, hq, (if_neg ?_).symm⟩, hid, hlt⟩
    simp only [Bool.and_eq_true, decide_eq_true_eq]
    omega

/-- An edit that is not accepted changes no row. -/
theorem edited_or_purged (folder : ItemId) (revision : ℕ) (changes : VaultDb.ItemChanges) (now : ℕ)
    (db : VaultDb) :
    (db.update folder revision changes now).1.Edited folder revision ∨
      db.Purged (fun _ => False) (db.update folder revision changes now).1 := by
  cases hrow : (db.vaultItem folder).filter fun r =>
    decide (r.revision = revision) && changes.guard folder db with
  | none => exact Or.inr (VaultDb.purged_of_refused hrow)
  | some r => exact Or.inl (VaultDb.edited_of_accepted (by rw [hrow]; rfl))

theorem Did.parent {revision : ℕ} {db db' : VaultDb} (h : Did x folder revision db db') :
    db'.Edited folder revision ∨ db'.parentOf = db.parentOf := by
  cases h with
  | still h => exact Or.inr (VaultDb.purged_of_items h).parent
  | purged ids now h =>
    subst h
    exact Or.inr (VaultDb.purged_batch x now ids db).parent
  | edited changes now h =>
    subst h
    exact (edited_or_purged folder revision changes now db).imp_right VaultDb.Purged.parent

/-- What was alive in `folder` is as it was, and so is its content. -/
structure Spared (folder : ItemId) (s t : ContentServer) : Prop where
  parent : t.vault.db.parentOf = s.vault.db.parentOf
  rows : ∀ r ∈ s.vault.db.items, r.live = true → Forest.Above s.vault.db.parentOf folder r.id →
    r ∈ t.vault.db.items
  content : ∀ r ∈ s.vault.db.items, r.live = true → Forest.Above s.vault.db.parentOf folder r.id →
    ∀ key, r.blobKey = some key → s.Held key → t.Held key ∧ t.bucket key = s.bucket key

theorem Spared.refl (folder : ItemId) (s : ContentServer) : Spared folder s s :=
  ⟨rfl, fun _ hr _ _ => hr, fun _ _ _ _ _ _ hheld => ⟨hheld, rfl⟩⟩

/-- What a claimed row's key holds stays. -/
theorem Busy.content_step (h : s.Busy x folder req) {e : ContentEvent}
    (hs : s.step quota e = some s') {key : FileKey}
    (hclaimed : s.Claimed key) (hheld : s.Held key) :
    s'.Held key ∧ s'.bucket key = s.bucket key := by
  cases e with
  | vault e =>
    obtain ⟨hbucket, _, hblobs, _⟩ := step_vault hs
    rw [Held, hblobs, hbucket]
    exact ⟨hheld, rfl⟩
  | start r job =>
    obtain ⟨_, rfl⟩ := step_start hs
    exact ⟨hheld, rfl⟩
  | run r m =>
    obtain ⟨job, hjob, hnow, rfl⟩ := step_run hs
    obtain ⟨removal, rfl, hdoomed⟩ := h.jobs r job hjob
    constructor
    · rcases @held_run quota m hnow ((BlobJob.delete removal).action VAULT_BLOBS m s.vault.db)
        (fun _ => action_ne_forget)
        s.vault.db s.bucket key hheld with hkept | ⟨keys, _, hmarked⟩
      · exact hkept
      · have hfree := (Bool.and_eq_true _ _ ▸ (List.mem_filter.mp hmarked).2).2
        rw [claimed_iff.mpr hclaimed] at hfree
        cases hfree
    · show (((BlobJob.delete removal).action VAULT_BLOBS m s.vault.db).run VAULT_BLOBS quota
        m ⟨s.vault.db, s.bucket⟩).bucket key = _
      cases removal with
      | starting keys => cases hm : m.throws <;>
        simp [BlobJob.action, Removal.action, hm, VAULT_BLOBS, BlobAction.run,
          BlobStore.reserveForDeletion]
      | objects keys rest =>
        exact if_neg fun hmem => hdoomed key (BlobMoment.mem_of_mem_cleared hmem) hheld
      | rows keys rest => cases hm : m.throws <;>
        simp [BlobJob.action, Removal.action, hm, BlobAction.run,
          BlobStore.dropReserved]
      | done => rfl

variable {s₀ t t' : ContentServer}

theorem Spared.step (h : Spared folder s t) (hb : t.Busy x folder req)
    (he : t.vault.db.Edited folder req.revision)
    (hout : ∀ y, Forest.Above s.vault.db.parentOf folder y → ¬ Forest.Above s.vault.db.parentOf x y)
    {e : ContentEvent} (hs : t.step quota e = some t') : Spared folder s t' := by
  obtain ⟨_, gone, hpurged, hgone⟩ := (hb.did hs).of_edited he
  refine ⟨hpurged.parent.trans h.parent, fun r hr hlive habove => ?_,
    fun r hr hlive habove key hkey hheld => ?_⟩
  · have hspared : ¬ gone r.id := fun hg => hout r.id habove (h.parent ▸ hgone r.id hg)
    exact ((hpurged.live r).mpr ⟨h.rows r hr hlive habove, hlive, hspared⟩).1
  · obtain ⟨hheld', hsame⟩ := h.content r hr hlive habove key hkey hheld
    obtain ⟨hheld', hsame'⟩ := hb.content_step hs ⟨r, h.rows r hr hlive habove, hlive, hkey⟩ hheld'
    exact ⟨hheld', hsame'.trans hsame⟩

theorem spared_of_run (hb : s.Busy x folder req) (he : s.vault.db.Edited folder req.revision)
    (hout : ∀ y, Forest.Above s.vault.db.parentOf folder y → ¬ Forest.Above s.vault.db.parentOf x y)
    (h : Runs.ReachableVia (step quota) (fun _ e => concerns x folder req e = true) s t) :
    Spared folder s t := by
  have hall : t.Busy x folder req ∧ t.vault.db.Edited folder req.revision ∧ Spared folder s t := by
    refine h.invariant (I := fun t => t.Busy x folder req ∧ t.vault.db.Edited folder req.revision ∧
      Spared folder s t)
      ⟨hb, he, .refl folder s⟩ fun t e t' hI hc hs => ?_
    obtain ⟨hb, he, hspared⟩ := hI
    exact ⟨hb.step hc hs, ((hb.did hs).of_edited he).1, hspared.step hb he hout hs⟩
  exact hall.2.2

/-- Until an edit is accepted, everything hangs where it did. -/
theorem parent_before (hidle : s₀.Idle)
    (h : Runs.ReachableVia (step quota) (fun _ e => concerns x folder req e = true) s₀ s) :
    s.Busy x folder req ∧
      (s.vault.db.Edited folder req.revision ∨ s.vault.db.parentOf = s₀.vault.db.parentOf) := by
  refine h.invariant (I := fun s => s.Busy x folder req ∧
    (s.vault.db.Edited folder req.revision ∨ s.vault.db.parentOf = s₀.vault.db.parentOf))
    ⟨hidle.busy, Or.inr rfl⟩ fun s e s' hI hc hs => ?_
  obtain ⟨hb, hparent⟩ := hI
  refine ⟨hb.step hc hs, ?_⟩
  rcases hparent with he | hparent
  · exact Or.inl ((hb.did hs).of_edited he).1
  · exact (hb.did hs).parent.imp_right fun hp => hp.trans hparent

/-- What a purge that walked in order is still to ask for: nothing of it before a folder
that it is inside of, and the folder too if that is alive. -/
structure InOrder (parent : ItemId → Option ItemId) (folder : ItemId) (live : Prop)
    (found : List ItemId) : Prop where
  order : found.Pairwise fun y z => ¬ Forest.Above parent z y
  listed : found ≠ [] → live → folder ∈ found

theorem InOrder.nil {parent : ItemId → Option ItemId} {live : Prop} :
    InOrder parent folder live [] :=
  ⟨List.Pairwise.nil, fun h => absurd rfl h⟩

/-- As long as the folder is alive, everything in it is. -/
structure Unharmed (folder : ItemId) (s₀ s : ContentServer) : Prop where
  parent : s.vault.db.parentOf = s₀.vault.db.parentOf
  rows : s.vault.db.tree.Live folder → ∀ r ∈ s₀.vault.db.items, r.live = true →
    Forest.Above s₀.vault.db.parentOf folder r.id → r ∈ s.vault.db.items
  found : ∀ c ∈ s.vault.calls,
    InOrder s₀.vault.db.parentOf folder (s.vault.db.tree.Live folder) c.job.found

theorem Idle.unharmed (h : s₀.Idle) : Unharmed folder s₀ s₀ where
  parent := rfl
  rows := fun _ _ hr _ _ => hr
  found := fun c hc => by
    rw [h.calls] at hc
    cases hc

theorem live_of_purged {gone : ItemId → Prop} {db db' : VaultDb} (h : db.Purged gone db')
    {y : ItemId} (hy : db'.tree.Live y) : db.tree.Live y ∧ ¬ gone y := by
  obtain ⟨r, hr, rfl, hlive⟩ := VaultDb.tree_live.mp hy
  obtain ⟨hr, hlive, hspared⟩ := (h.live r).mp ⟨hr, hlive⟩
  exact ⟨VaultDb.tree_live.mpr ⟨r, hr, rfl, hlive⟩, hspared⟩

theorem Unharmed.of_purged (h : Unharmed folder s₀ s) {gone : ItemId → Prop}
    (hp : s.vault.db.Purged gone s'.vault.db) (hspare : s'.vault.db.tree.Live folder → ∀ y, gone y →
      ¬ Forest.Above s₀.vault.db.parentOf folder y)
    (hcalls : ∀ c ∈ s'.vault.calls, (∃ d ∈ s.vault.calls, d.job.found = c.job.found) ∨
      InOrder s₀.vault.db.parentOf folder (s'.vault.db.tree.Live folder) c.job.found) :
      Unharmed folder s₀ s' where
  parent := hp.parent.trans h.parent
  rows := fun hlive r hr hrlive habove =>
    ((hp.live r).mpr ⟨h.rows (live_of_purged hp hlive).1 r hr hrlive habove, hrlive,
      fun hg => hspare hlive r.id hg habove⟩).1
  found := fun c hc => by
    rcases hcalls c hc with ⟨d, hd, hfound⟩ | hok
    · rw [← hfound]
      exact ⟨(h.found d hd).order,
        fun hne hlive => (h.found d hd).listed hne (live_of_purged hp hlive).1⟩
    · exact hok

/-- A purge of `x` goes on. -/
theorem Unharmed.purge (h : Unharmed folder s₀ s)
    (hin : Forest.Above s₀.vault.db.parentOf x folder) {now : ℕ}
    {rows : List ItemId} (horder : s.vault.db.FoldersFirst rows) {stage stage' : TreePurge}
    {db' : VaultDb} (hfound : InOrder s₀.vault.db.parentOf folder (s.vault.db.tree.Live folder)
      (VaultJob.delete x (.purging stage)).found)
    (hnext : purgeVaultItem.next x now rows s.vault.db stage = some (db', stage')) :
    ∃ gone, s.vault.db.Purged gone db' ∧
      (db'.tree.Live folder → ∀ y, gone y → ¬ Forest.Above s₀.vault.db.parentOf folder y) ∧
      InOrder s₀.vault.db.parentOf folder (db'.tree.Live folder)
        (VaultJob.delete x (.purging stage')).found := by
  cases stage with
  | walking purged =>
    simp only [purgeVaultItem.next] at hnext
    split_ifs at hnext with hperm hnone
    · obtain ⟨rfl, rfl⟩ := Prod.mk.inj (Option.some.inj hnext)
      exact ⟨_, .refl _, fun _ _ => False.elim, .nil⟩
    · obtain ⟨rfl, rfl⟩ := Prod.mk.inj (Option.some.inj hnext)
      refine ⟨_, .refl _, fun _ _ => False.elim, horder.imp fun {y z} hyz habove => ?_,
        fun hne hlive => ?_⟩
      · rw [← h.parent, ← VaultDb.subtree_iff, hyz] at habove
        cases habove
      · obtain ⟨y, hy⟩ := List.exists_mem_of_ne_nil _ hne
        have hroot := (VaultDb.mem_alive.mp (hperm.mem_iff.mp hy)).2.1
        refine hperm.mem_iff.mpr (VaultDb.mem_alive.mpr ⟨hlive, hroot, ?_⟩)
        rw [VaultDb.parent_tree, h.parent]
        exact hin
  | purging at_ found purged =>
    obtain ⟨hdb, hstage⟩ := Prod.mk.inj (Option.some.inj hnext)
    have hbatch := VaultDb.purged_batch x at_ (found.take PURGE_BATCH_SIZE) s.vault.db
    rw [hdb] at hbatch
    have hlater : db'.tree.Live folder → found ≠ [] → folder ∈ found.drop PURGE_BATCH_SIZE := by
      intro hlive hne
      obtain ⟨hlive, hspared⟩ := live_of_purged hbatch hlive
      have hmem : folder ∈ found.take PURGE_BATCH_SIZE ++ found.drop PURGE_BATCH_SIZE := by
        rw [List.take_append_drop]
        exact hfound.listed hne hlive
      refine (List.mem_append.mp hmem).resolve_left fun htake => hspared ⟨htake, ?_⟩
      rw [h.parent]
      exact hin
    refine ⟨_, hbatch, fun hlive y hy habove => ?_, ?_⟩
    · have hsplit : (found.take PURGE_BATCH_SIZE ++ found.drop PURGE_BATCH_SIZE).Pairwise
          fun y z => ¬ Forest.Above s₀.vault.db.parentOf z y := by
        rw [List.take_append_drop]
        exact hfound.order
      exact (List.pairwise_append.mp hsplit).2.2 y hy.1 folder
        (hlater hlive (List.ne_nil_of_mem (List.mem_of_mem_take hy.1))) habove
    · subst hstage
      split_ifs with hrest
      · exact .nil
      · exact ⟨hfound.order.drop, fun hne hlive => hlater hlive fun hnil =>
          hne (by simp [VaultJob.found, hnil])⟩
  | done purged => cases hnext

theorem Unharmed.step (h : Unharmed folder s₀ s) (hb : s.Busy x folder req)
    (hin : Forest.Above s₀.vault.db.parentOf x folder)
    {e : ContentEvent} (hc : concerns x folder req e = true) (horder : s.WalksInOrder e)
    (hs : s.step quota e = some s') :
    s'.vault.db.Edited folder req.revision ∨ Unharmed folder s₀ s' := by
  cases e with
  | vault e =>
    obtain ⟨vault, hvault, rfl⟩ := vault_of_step hs
    cases e with
    | receive request =>
      obtain rfl := Option.some.inj hvault
      refine Or.inr (h.of_purged (.refl _) (fun _ _ => False.elim) fun c hmem => ?_)
      rcases List.mem_append.mp hmem with hmem | hmem
      · exact Or.inl ⟨c, hmem, rfl⟩
      · obtain rfl := List.mem_singleton.mp hmem
        right
        cases request with
        | delete id => exact .nil
        | update id r => exact .nil
        | _ => cases hc
    | run i rows limited =>
      obtain ⟨call, hcall, hvault⟩ := Option.bind_eq_some_iff.mp hvault
      obtain ⟨next, hnext, hvault⟩ := Option.bind_eq_some_iff.mp hvault
      obtain rfl := Option.some.inj hvault
      have hmem : call ∈ s.vault.calls :=
        List.mem_of_getElem? (Option.filter_eq_some_iff.mp hcall).1
      have hrun : ∀ gone, s.vault.db.Purged gone next.1 →
          (next.1.tree.Live folder → ∀ y, gone y → ¬ Forest.Above s₀.vault.db.parentOf folder y) →
          InOrder s₀.vault.db.parentOf folder (next.1.tree.Live folder) next.2.found →
          Unharmed folder s₀ { s with vault := { s.vault with
            db := next.1, calls := s.vault.calls.set i { call with job := next.2 }
            purged := VaultServer.returned call.job next.2 ++ s.vault.purged
            forgotten := VaultServer.dropped s.vault.db next.1 ++ s.vault.forgotten } } := by
        intro gone hpurged hspare hfound
        refine h.of_purged hpurged hspare fun c hmem => ?_
        rcases List.mem_or_eq_of_mem_set hmem with hmem | rfl
        · exact Or.inl ⟨c, hmem, rfl⟩
        · exact Or.inr hfound
      rcases hb.calls call hmem with ⟨stage, hjob⟩ | ⟨stage, hjob⟩
      · rw [hjob] at hnext
        obtain ⟨⟨db', stage'⟩, hstage, rfl⟩ := Option.map_eq_some_iff.mp hnext
        right
        cases stage with
        | received =>
          obtain ⟨rfl, rfl⟩ := Prod.mk.inj (Option.some.inj hstage)
          refine hrun _ (.refl _) (fun _ _ => False.elim) ?_
          cases limited <;> exact .nil
        | authed =>
          obtain ⟨rfl, rfl⟩ := Prod.mk.inj (Option.some.inj hstage)
          refine hrun _ (.refl _) (fun _ _ => False.elim) ?_
          dsimp only
          split_ifs <;> exact .nil
        | purging stage =>
          obtain ⟨⟨db₂, stage₂⟩, hpurge, heq⟩ := Option.map_eq_some_iff.mp hstage
          obtain ⟨rfl, rfl⟩ := Prod.mk.inj heq
          have hfound := h.found call hmem
          rw [hjob] at hfound
          obtain ⟨gone, hpurged, hspare, hok⟩ := h.purge hin horder hfound hpurge
          refine hrun gone hpurged hspare ?_
          cases stage₂ <;> exact hok
        | answered a => cases hstage
      · rw [hjob] at hnext
        obtain rfl := Option.some.inj hnext
        cases stage with
        | ready changes =>
          refine (edited_or_purged folder req.revision changes s.vault.clock s.vault.db).imp_right
            fun hsame => ?_
          exact hrun _ hsame (fun _ _ => False.elim) .nil
        | _ => exact Or.inr (hrun _ (.refl _) (fun _ _ => False.elim) .nil)
    | cut i =>
      obtain ⟨call, hcall, rfl⟩ := Option.map_eq_some_iff.mp hvault
      refine Or.inr (h.of_purged (.refl _) (fun _ _ => False.elim) fun c hmem => Or.inl ?_)
      rcases List.mem_or_eq_of_mem_set hmem with hmem | rfl
      · exact ⟨c, hmem, rfl⟩
      · exact ⟨call, List.mem_of_getElem? hcall, rfl⟩
    | content blobs => cases hs
    | tick =>
      obtain rfl := Option.some.inj hvault
      exact Or.inr (h.of_purged (.refl _) (fun _ _ => False.elim) fun c hmem =>
        Or.inl ⟨c, hmem, rfl⟩)
    | rotate =>
      obtain rfl := Option.some.inj hvault
      exact Or.inr (h.of_purged (.refl _) (fun _ _ => False.elim) fun c hmem =>
        Or.inl ⟨c, hmem, rfl⟩)
  | start r job =>
    obtain ⟨_, rfl⟩ := step_start hs
    exact Or.inr (h.of_purged (.refl _) (fun _ _ => False.elim) fun c hmem => Or.inl ⟨c, hmem, rfl⟩)
  | run r m =>
    obtain ⟨job, _, _, rfl⟩ := step_run hs
    exact Or.inr
      (h.of_purged (VaultDb.purged_of_items items_run) (fun _ _ => False.elim) fun c hmem =>
      Or.inl ⟨c, hmem, rfl⟩)

theorem unharmed_before (hidle : s₀.Idle) (hin : Forest.Above s₀.vault.db.parentOf x folder)
    (h : Runs.ReachableVia (step quota) (fun s e => concerns x folder req e = true ∧
      s.WalksInOrder e) s₀ s) :
    s.Busy x folder req ∧ (s.vault.db.Edited folder req.revision ∨ Unharmed folder s₀ s) := by
  refine h.invariant (I := fun s => s.Busy x folder req ∧
    (s.vault.db.Edited folder req.revision ∨ Unharmed folder s₀ s))
    ⟨hidle.busy, Or.inr hidle.unharmed⟩ fun s e s' hI hok hs => ?_
  obtain ⟨hb, hcase⟩ := hI
  refine ⟨hb.step hok.1 hs, ?_⟩
  rcases hcase with he | hu
  · exact Or.inl ((hb.did hs).of_edited he).1
  · exact hu.step hb hin hok.1 hok.2 hs

theorem movesOut_iff {db : VaultDb} {b : VaultBatch} : b.movesOut x folder db = true ↔
    ∃ revision changes now p, b = .update folder revision changes now ∧ folder ≠ x ∧
      Forest.Above db.parentOf x folder ∧
      db.accepts folder revision changes = true ∧ changes.parentId = some p ∧
      ∀ q, p = some q → ¬ Forest.Above db.parentOf x q := by
  constructor
  · intro h
    cases b with
    | update id revision changes now =>
      simp only [VaultBatch.movesOut, Bool.and_eq_true, decide_eq_true_eq, Option.any_eq_true,
        VaultDb.subtree_iff] at h
      obtain ⟨⟨⟨⟨rfl, hne⟩, hin⟩, haccepts⟩, p, hp, hout⟩ := h
      refine ⟨revision, changes, now, p, rfl, hne, hin, haccepts, hp, fun q hq habove => ?_⟩
      subst hq
      rw [Option.all_some, VaultDb.subtree_iff.mpr habove] at hout
      cases hout
    | _ => cases h
  · rintro ⟨revision, changes, now, p, rfl, hne, hin, haccepts, hp, hout⟩
    simp only [VaultBatch.movesOut, Bool.and_eq_true, decide_eq_true_eq, Option.any_eq_true,
      VaultDb.subtree_iff]
    refine ⟨⟨⟨⟨trivial, hne⟩, hin⟩, haccepts⟩, p, hp, ?_⟩
    cases p with
    | none => rfl
    | some q =>
      rw [Option.all_some, Bool.not_eq_true', Bool.eq_false_iff]
      exact fun hsub => hout q rfl (VaultDb.subtree_iff.mp hsub)

/-- When the move of a folder out of `x` commits, what is alive in the folder stays as it is
for all that purges of `x` still do, and its content stays too. If all their walks have listed
folders before what is inside them, that is all that was alive in the folder to begin with. -/
theorem moved_whole (hidle : s₀.Idle)
    (h : Runs.ReachableVia (step quota) (fun _ e => concerns x folder req e = true) s₀ s)
    {e : ContentEvent} (hmove : s.MovesOut x folder e) (hs : s.step quota e = some s')
    (h' : Runs.ReachableVia (step quota) (fun _ e => concerns x folder req e = true) s' t) :
    (∀ r ∈ s'.vault.db.items, r.live = true → Forest.Above s'.vault.db.parentOf folder r.id →
      r ∈ t.vault.db.items ∧ ∀ key, r.blobKey = some key → s'.Held key → t.Held key ∧
      t.bucket key = s'.bucket key) ∧
    (Runs.ReachableVia (step quota) (fun s e => concerns x folder req e = true ∧
      s.WalksInOrder e) s₀ s →
      ∀ r ∈ s₀.vault.db.items, r.live = true → Forest.Above s'.vault.db.parentOf folder r.id →
        ∃ q ∈ s'.vault.db.items, q.id = r.id ∧ q.live = true ∧ (r.id ≠ folder → q = r)) := by
  cases e with
  | vault e =>
    obtain ⟨b, hbatch, hmoves⟩ := (Option.any_eq_true _ _).mp hmove
    obtain ⟨revision, changes, now, p, rfl, hne, hin, haccepts, hp, hout⟩ := movesOut_iff.mp hmoves
    obtain ⟨hb, hparent⟩ := parent_before hidle h
    obtain rfl : revision = req.revision := by
      rcases hb.batch_cases hbatch with ⟨ids, at_, heq⟩ | ⟨changes', at_, heq⟩
      · cases heq
      · exact (VaultBatch.update.inj heq).2.1
    obtain ⟨r, hitem, hguard⟩ := (Option.any_eq_true _ _).mp haccepts
    have hrow : (s.vault.db.vaultItem folder).filter
        (fun r => decide (r.revision = req.revision) && changes.guard folder s.vault.db) = some r :=
      Option.filter_eq_some_iff.mpr ⟨hitem, hguard⟩
    obtain ⟨_, _, _, hdb⟩ := step_vault hs
    rw [hbatch] at hdb
    have hfresh : ¬ s.vault.db.Edited folder req.revision := fun he =>
      absurd (hrow.symm.trans (he.refused fun _ => changes.guard folder s.vault.db))
        (Option.some_ne_none r)
    have hforest : Forest.Acyclic s.vault.db.parentOf := hparent.resolve_left hfresh ▸ hidle.forest
    have hmoved : s'.vault.db.parentOf = Function.update s.vault.db.parentOf folder p := by
      rw [hdb]
      exact VaultDb.parentOf_update haccepts hp
    have hc : concerns x folder req (.vault e) = true := by
      cases e with
      | run i rows limited => rfl
      | _ => cases hbatch
    have hleft : ∀ y, Forest.Above s'.vault.db.parentOf folder y →
        ¬ Forest.Above s'.vault.db.parentOf x y := by
      intro y hy
      rw [hmoved] at hy ⊢
      exact hforest.moved_out hin hne hout hy
    have hedited : s'.vault.db.Edited folder req.revision := by
      rw [hdb]
      exact VaultDb.edited_of_accepted (Option.isSome_iff_exists.mpr ⟨r, hrow⟩)
    have hspared := spared_of_run (hb.step hc hs) hedited hleft h'
    refine ⟨fun q hq hlive habove =>
      ⟨hspared.rows q hq hlive habove, hspared.content q hq hlive habove⟩, ?_⟩
    intro horder q hq hlive habove
    have hin₀ : Forest.Above s₀.vault.db.parentOf x folder := hparent.resolve_left hfresh ▸ hin
    have hunharmed := (unharmed_before hidle hin₀ horder).2.resolve_left hfresh
    have habove₀ : Forest.Above s₀.vault.db.parentOf folder q.id := by
      rw [hmoved] at habove
      rw [← hunharmed.parent]
      rcases Forest.above_update_cases habove with hold | ⟨hold, _⟩
      · exact hold
      · exact hold
    have hfolder : s.vault.db.tree.Live folder := by
      obtain ⟨hmem, hid, hrlive⟩ := VaultDb.mem_vaultItem.mp hitem
      exact VaultDb.tree_live.mpr ⟨r, hmem, hid, hrlive⟩
    have hchange : s'.vault.db = (s.vault.db.change folder
        (fun r => decide (r.revision = req.revision) && changes.guard folder s.vault.db)
          (changes.apply now)).1 := hdb
    rw [hchange]
    refine ⟨_, VaultDb.mem_change.mpr ⟨q, hunharmed.rows hfolder q hq hlive habove₀, rfl⟩, ?_⟩
    split_ifs with hhit
    · refine ⟨rfl, hlive, fun hother => absurd ?_ hother⟩
      simp only [Bool.and_eq_true, decide_eq_true_eq] at hhit
      exact hhit.1.1
    · exact ⟨rfl, hlive, fun _ => rfl⟩
  | start r job => exact hmove.elim
  | run r m => exact hmove.elim

/-- Folder 2 is in folder 1, and the files are in folder 2. -/
def nestedItem (id : ItemId) : VaultItem :=
  VaultDb.NewItem.row ⟨id, if id = 1 then none else if id = 2 then some 1 else some 2,
    if id ≤ 2 then .folder else .file,
    INITIAL_KEY_EPOCH, ⟨0, 0, (id, .file), .named ""⟩, 0, if id ≤ 2 then none else some id, 6⟩ id 0

/-- So many items, and their content. -/
def nested (n : ℕ) : ContentServer where
  vault := { VaultServer.new with db := ⟨
    ⟨(List.range' 1 n).map nestedItem, by
      rw [List.map_map]
      exact (List.nodup_range').map fun a b hab => hab⟩,
    ⟨(List.range' 1 n).map fun key => ⟨key, 6, 12⟩, by
      rw [List.map_map]
      exact (List.nodup_range').map fun a b hab => hab⟩, n, 0⟩ }
  bucket := fun key => if key ≤ n then some 6 else none
  jobs := fun _ => none

theorem acyclic_of_rows {db : VaultDb}
    (h : ∀ r ∈ db.items, ∀ y ∈ r.parentId, db.subtree r.id y = false) :
    Forest.Acyclic db.parentOf := by
  intro x y hxy habove
  obtain ⟨r, hr, hy⟩ := Option.bind_eq_some_iff.mp hxy
  obtain ⟨hmem, rfl⟩ := Table.get?_eq_some.mp hr
  rw [← VaultDb.subtree_iff, h r hmem y hy] at habove
  cases habove

theorem idle_nested (n : ℕ)
    (h : ∀ r ∈ (nested n).vault.db.items, ∀ y ∈ r.parentId,
      (nested n).vault.db.subtree r.id y = false) :
    (nested n).Idle := ⟨acyclic_of_rows h, rfl, fun _ => rfl⟩

/-- Move folder 2 to the top. -/
def toTop : UpdateVaultItemRequest := ⟨1, some none, none, none, none, none, none⟩

/-- Folder 1 is being purged, its tree was walked, and so many batches of that are through; the
move of folder 2 is about to be committed. -/
def walked (rows : List ItemId) (batches : ℕ) : List ContentEvent :=
  [.vault (.receive (.delete 1)), .vault (.run 0 [] false), .vault (.run 0 [] false),
    .vault (.run 0 rows false)] ++
    List.replicate batches (.vault (.run 0 [] false)) ++
    [.vault (.receive (.update 2 toTop)), .vault (.run 1 [] false), .vault (.run 1 [] false)]

def commits : ContentEvent := .vault (.run 1 [] false)

/-- The purge ends, and cleans up. -/
def ended (batches : ℕ) (keys : List FileKey) : List ContentEvent :=
  List.replicate batches (.vault (.run 0 [] false)) ++ [.vault (.run 0 [] false)] ++
    [.start 0 (.delete (.starting keys)), .run 0 ⟨12, .stored 6, 0, 1, none⟩,
      .run 0 ⟨12, .stored 6, 0, 1, none⟩, .run 0 ⟨12, .stored 6, 0, 1, none⟩]

/-- The purge has answered. -/
def Answered (s : ContentServer) : Prop :=
  ((s.vault.calls[0]?).any fun c => match c.job with
    | .delete _ (.answered _) => true
    | _ => false) = true

theorem moved_whole_walked : ∃ s₀ s s' t : ContentServer, s₀.Idle ∧ s.MovesOut 1 2 commits ∧
    t.Answered ∧
    ∃ r ∈ s'.vault.db.items, r.id = 3 ∧ r.live = true ∧ r ∈ t.vault.db.items ∧
      (r.blobKey = some 3 → s'.Held 3 → t.Held 3 ∧ t.bucket 3 = s'.bucket 3) := by
  have hidle : (nested 3).Idle := idle_nested 3 (by decide +kernel)
  have hrun :
      ((Runs.replayVia (step 100) (fun _ e => concerns 1 2 toTop e = true) (nested 3)
        (walked [1, 2, 3] 0)).any fun s =>
      (s.vault.batch (.run 1 [] false)).any (VaultBatch.movesOut 1 2 s.vault.db) &&
        (step 100 s commits).any fun s' =>
        (s'.vault.db.vaultItem 3).isSome && s'.vault.db.subtree 2 3 &&
        (Runs.replayVia (step 100) (fun _ e => concerns 1 2 toTop e = true) s' (ended 1 [])).any
          fun t =>
          (t.vault.calls[0]?).any fun c => match c.job with
            | .delete _ (.answered _) => true
            | _ => false) = true := by decide +kernel
  obtain ⟨s, hs, hrun⟩ := (Option.any_eq_true _ _).mp hrun
  rw [Bool.and_eq_true] at hrun
  obtain ⟨hmove, hrun⟩ := hrun
  obtain ⟨s', hs', hrun⟩ := (Option.any_eq_true _ _).mp hrun
  simp only [Bool.and_eq_true] at hrun
  obtain ⟨⟨hitem, hinside⟩, hrun⟩ := hrun
  obtain ⟨t, ht, hanswered⟩ := (Option.any_eq_true _ _).mp hrun
  obtain ⟨r, hr⟩ := Option.isSome_iff_exists.mp hitem
  obtain ⟨hmem, hid, hlive⟩ := VaultDb.mem_vaultItem.mp hr
  have hkept :=
    (moved_whole (e := commits) hidle (Runs.reachableVia_of_replayVia hs) hmove hs'
      (Runs.reachableVia_of_replayVia ht)).1 r hmem hlive
    (hid ▸ VaultDb.subtree_iff.mp hinside)
  exact ⟨nested 3, s, s', t, hidle, hmove, hanswered, r, hmem, hid, hlive, hkept.1, hkept.2 3⟩

/-- The walk returns the files first, and with them folder 1: they are the first batch. -/
def torn : List ItemId := List.range' 3 39 ++ [1, 2]

theorem moved_torn : ∃ s₀ s s' t : ContentServer, s₀.Idle ∧
    Runs.ReachableVia (step 100) (fun _ e => concerns 1 2 toTop e = true) s₀ s ∧
    s.MovesOut 1 2 commits ∧
    step 100 s commits = some s' ∧
    Runs.ReachableVia (step 100) (fun _ e => concerns 1 2 toTop e = true) s' t ∧
    t.Answered ∧ (t.vault.db.vaultItem 2).isSome = true ∧
    ∀ id ∈ List.range' 3 39, (s₀.vault.db.vaultItem id).isSome = true ∧
      s₀.vault.db.subtree 2 id = true ∧
      s'.vault.db.subtree 2 id = true ∧ t.vault.db.vaultItem id = none := by
  have hidle : (nested 41).Idle := idle_nested 41 (by decide +kernel)
  have hrun :
      ((Runs.replayVia (step 100) (fun _ e => concerns 1 2 toTop e = true) (nested 41)
        (walked torn 1)).any fun s =>
      (s.vault.batch (.run 1 [] false)).any (VaultBatch.movesOut 1 2 s.vault.db) &&
        (step 100 s commits).any fun s' =>
        (Runs.replayVia (step 100) (fun _ e => concerns 1 2 toTop e = true) s' (ended 1 [])).any
          fun t =>
          ((t.vault.calls[0]?).any fun c => match c.job with
            | .delete _ (.answered _) => true
            | _ => false) && (t.vault.db.vaultItem 2).isSome &&
          decide (∀ id ∈ List.range' 3 39, ((nested 41).vault.db.vaultItem id).isSome = true ∧
            (nested 41).vault.db.subtree 2 id = true ∧ s'.vault.db.subtree 2 id = true ∧
            t.vault.db.vaultItem id = none)) = true := by decide +kernel
  obtain ⟨s, hs, hrun⟩ := (Option.any_eq_true _ _).mp hrun
  rw [Bool.and_eq_true] at hrun
  obtain ⟨hmove, hrun⟩ := hrun
  obtain ⟨s', hs', hrun⟩ := (Option.any_eq_true _ _).mp hrun
  obtain ⟨t, ht, hend⟩ := (Option.any_eq_true _ _).mp hrun
  simp only [Bool.and_eq_true] at hend
  obtain ⟨⟨hanswered, hfolder⟩, hitems⟩ := hend
  exact ⟨nested 41, s, s', t, hidle, Runs.reachableVia_of_replayVia hs, hmove, hs',
    Runs.reachableVia_of_replayVia ht,
    hanswered, hfolder, of_decide_eq_true hitems⟩

end ContentServer
end SendSelf
