import SendSelf.Blobs.Content

/-!
# Objects without a row

An object is there for a reason: its row is there to stay, or an upload is about to record
it, or a clean-up is about to delete it. A row stays as long as it is not reserved, and a
reserved one as long as no clean-up that has deleted the object is about to drop it. The
reason goes with an upload that records nothing because its row is reserved, with one that
is discarded when its row is gone by then, and with an await that throws.
-/
namespace SendSelf
namespace BlobJob

variable {s : BlobDb VaultDb} {quota : ℕ} {e : ApiError} {m : BlobMoment}

/-- What is left after a step of a deletion. -/
theorem left_next (hm : m.throws = false) {removal : Removal} {key : FileKey}
    (h : key ∈ removal.left) :
    key ∈ (deleteBlobs.next VAULT_BLOBS m s removal).2.left ∨
      (∃ keys, removal.action VAULT_BLOBS m = .clear keys ∧ key ∈ keys) ∨
      ∃ keys, removal.action VAULT_BLOBS m = .mark keys ∧ key ∈ keys ∧
        key ∉ VAULT_BLOBS.reservable s.db keys := by
  cases removal with
  | starting keys =>
    rw [deleteBlobs.next_starting rfl hm, deleteBlobs.left_afterReserving, List.mem_append]
    rw [Removal.left, ← List.take_append_drop SWEEP_BATCH_SIZE keys, List.mem_append] at h
    by_cases hreserved : key ∈ VAULT_BLOBS.reservable s.db (keys.take SWEEP_BATCH_SIZE)
    · exact Or.inl (Or.inl hreserved)
    · rcases h with htake | hdrop
      · exact Or.inr (Or.inr ⟨_, deleteBlobs.action_starting rfl hm, htake, hreserved⟩)
      · exact Or.inl (Or.inr hdrop)
  | objects keys rest =>
    rcases List.mem_append.mp h with hmem | hrest
    · exact Or.inr (Or.inl ⟨_, rfl, (BlobMoment.cleared_of_returns hm keys).symm ▸ hmem⟩)
    · left
      simp only [deleteBlobs.next, hm]
      exact hrest
  | rows keys rest =>
    left
    simp only [deleteBlobs.next, hm]
    show key ∈ (Removal.again rest).left
    rw [Removal.left_again]
    exact h
  | done => exact absurd h List.not_mem_nil

theorem mem_left_of_doomed {removal : Removal} {key : FileKey} (h : key ∈ removal.doomed) :
    key ∈ removal.left := by
  cases removal with
  | objects keys rest => exact List.mem_append_left _ h
  | _ => exact absurd h List.not_mem_nil

theorem clear_of_doomed (hm : m.throws = false) {removal : Removal} {key : FileKey}
    (h : key ∈ removal.doomed) :
    ∃ keys, removal.action VAULT_BLOBS m = .clear keys ∧ key ∈ keys := by
  cases removal with
  | objects keys rest => exact ⟨_, rfl, (BlobMoment.cleared_of_returns hm keys).symm ▸ h⟩
  | _ => exact absurd h List.not_mem_nil

theorem mark_cases {removal : Removal} {keys : List FileKey}
    (hact : removal.action VAULT_BLOBS m = .mark keys) :
    m.throws = false ∧ ∃ all, removal = .starting all ∧ all.take SWEEP_BATCH_SIZE = keys := by
  cases removal with
  | starting all =>
    cases hm : m.throws with
    | true => simp [Removal.action, hm] at hact
    | false =>
      rw [deleteBlobs.action_starting rfl hm] at hact
      exact ⟨rfl, all, rfl, BlobAction.mark.inj hact⟩
  | objects all rest => cases hact
  | rows all rest => cases hm : m.throws <;> simp [Removal.action, hm] at hact
  | done => cases hact

/-- What a clean-up has reserved is what it deletes next. -/
theorem doomed_next {removal : Removal} {key : FileKey} {keys : List FileKey}
    (hact : removal.action VAULT_BLOBS m = .mark keys)
    (h : key ∈ VAULT_BLOBS.reservable s.db keys) :
    key ∈ (deleteBlobs.next VAULT_BLOBS m s removal).2.doomed := by
  obtain ⟨hm, all, rfl, rfl⟩ := mark_cases hact
  rw [deleteBlobs.next_starting rfl hm, deleteBlobs.doomed_afterReserving]
  exact h

theorem covers_discard {request : BlobUpload} {error thrown : ApiError} {removal : Removal} :
    (BlobJob.upload request (receiveBlob.discard error thrown removal)).covers = removal.left := by
  cases removal <;> rfl

theorem covers_afterRemoval {olderThan : ℕ} {removal : Removal} :
    (BlobJob.sweep olderThan (purgeOrphans.afterRemoval removal)).covers = removal.doomed := by
  cases removal <;> rfl

theorem next_discarding (hm : m.throws = false) {request : BlobUpload} {removal : Removal}
    {error thrown : ApiError} :
    ((BlobJob.upload request (.discarding removal error thrown)).next VAULT_BLOBS quota e m s).2 =
      .upload request
        (receiveBlob.discard error thrown (deleteBlobs.next VAULT_BLOBS m s removal).2) := by
  simp [next, receiveBlob.next, hm]

theorem next_removing (hm : m.throws = false) {olderThan : ℕ} {removal : Removal} :
    ((BlobJob.sweep olderThan (.removing removal)).next VAULT_BLOBS quota e m s).2 =
      .sweep olderThan
        (purgeOrphans.afterRemoval (deleteBlobs.next VAULT_BLOBS m s removal).2) := by
  simp [next, purgeOrphans.next, hm]

/-- A key is covered until it is recorded or deleted, unless a discarded upload finds
nothing to reserve. -/
theorem covers_next (hm : m.throws = false) {job : BlobJob} {key : FileKey} (h : key ∈ job.covers) :
    key ∈ (job.next VAULT_BLOBS quota e m s).2.covers ∨
      (∃ request size, job = .upload request (.recording size) ∧ key = request.key) ∨
      (∃ keys, job.action VAULT_BLOBS m s.db = .clear keys ∧ key ∈ keys) ∨
      ∃ request all error thrown, job = .upload request (.discarding (.starting all) error thrown) ∧
        key ∈ all ∧ key ∉ VAULT_BLOBS.reservable s.db (all.take SWEEP_BATCH_SIZE) ∧
        key ∈ all.take SWEEP_BATCH_SIZE := by
  cases job with
  | upload request stage =>
    cases stage with
    | recording size => exact Or.inr (Or.inl ⟨request, size, rfl, List.mem_singleton.mp h⟩)
    | discarding removal error thrown =>
      rcases left_next (s := s) hm h with hleft | hclears | ⟨keys, hmark, hmem, hnot⟩
      · left
        rw [next_discarding hm, covers_discard]
        exact hleft
      · exact Or.inr (Or.inr (Or.inl hclears))
      · obtain ⟨_, all, rfl, rfl⟩ := mark_cases hmark
        exact Or.inr
          (Or.inr (Or.inr ⟨request, all, error, thrown, rfl, List.mem_of_mem_take hmem,
            hnot, hmem⟩))
    | _ => exact absurd h List.not_mem_nil
  | delete removal => exact Or.inr (Or.inr (Or.inl (clear_of_doomed hm h)))
  | sweep olderThan stage =>
    cases stage with
    | removing removal => exact Or.inr (Or.inr (Or.inl (clear_of_doomed hm h)))
    | _ => exact absurd h List.not_mem_nil

/-- What is reserved is covered. -/
theorem covers_mark {job : BlobJob} {key : FileKey} {keys : List FileKey}
    (hact : job.action VAULT_BLOBS m s.db = .mark keys)
    (h : key ∈ VAULT_BLOBS.reservable s.db keys) :
    key ∈ (job.next VAULT_BLOBS quota e m s).2.covers := by
  cases job with
  | upload request stage =>
    cases stage with
    | discarding removal error thrown =>
      rw [next_discarding (mark_cases hact).1, covers_discard]
      exact mem_left_of_doomed (doomed_next hact h)
    | admitted =>
      simp only [action] at hact
      split_ifs at hact
    | recording size =>
      simp only [action] at hact
      split_ifs at hact
    | _ => cases hact
  | delete removal => exact doomed_next hact h
  | sweep olderThan stage =>
    cases stage with
    | removing removal =>
      rw [next_removing (mark_cases hact).1, covers_afterRemoval]
      exact doomed_next hact h
    | selecting =>
      simp only [action] at hact
      split_ifs at hact
    | done => cases hact

/-- An upload covers its key once its transfer is over. -/
theorem covers_transfer {job : BlobJob} {request : BlobUpload}
    (hact : job.action VAULT_BLOBS m s.db = .transfer request) :
    request.key ∈ (job.next VAULT_BLOBS quota e m s).2.covers := by
  have hremoval : ∀ removal : Removal, removal.action VAULT_BLOBS m ≠ .transfer request := by
    intro removal h
    cases removal <;> simp only [Removal.action] at h <;> (try split_ifs at h) <;> cases h
  cases job with
  | upload request' stage =>
    cases stage with
    | writing =>
      obtain rfl : request' = request := BlobAction.transfer.inj hact
      show request'.key ∈
        (BlobJob.upload request' (receiveBlob.afterTransfer request'.key m.transfer)).covers
      unfold receiveBlob.afterTransfer
      split
      · exact List.mem_singleton_self _
      · exact List.mem_singleton_self _
      · exact List.mem_singleton_self _
      · split_ifs <;> exact List.mem_singleton_self _
    | discarding removal error thrown => exact absurd hact (hremoval removal)
    | admitted =>
      simp only [action] at hact
      split_ifs at hact
    | recording size =>
      simp only [action] at hact
      split_ifs at hact
    | answered a => cases hact
  | delete removal => exact absurd hact (hremoval removal)
  | sweep olderThan stage =>
    cases stage with
    | removing removal => exact absurd hact (hremoval removal)
    | selecting =>
      simp only [action] at hact
      split_ifs at hact
    | done => cases hact

theorem dropped_of_isNew {job : BlobJob} (h : job.isNew = true) : job.dropped = [] := by
  unfold isNew at h
  split at h
  · rfl
  · rfl
  · rfl
  · cases h

/-- A row is dropped only after the job deleted its object. -/
theorem mem_dropped_next {job : BlobJob} {key : FileKey}
    (h : key ∈ (job.next VAULT_BLOBS quota e m s).2.dropped) :
    ∃ keys, job.action VAULT_BLOBS m s.db = .clear keys ∧ key ∈ keys := by
  cases job with
  | upload request stage =>
    cases stage with
    | admitted =>
      simp only [next, receiveBlob.next] at h
      split_ifs at h
      · cases h
      · split at h <;> cases h
    | writing =>
      simp only [next, receiveBlob.next, receiveBlob.afterTransfer] at h
      split at h
      · cases h
      · cases h
      · cases h
      · split_ifs at h <;> cases h
    | discarding removal error thrown =>
      cases hm : m.throws with
      | true =>
        simp only [next, receiveBlob.next, hm] at h
        cases h
      | false =>
        rw [next_discarding hm] at h
        refine deleteBlobs.mem_dropped_next (s := s) ?_
        cases hnext : (deleteBlobs.next VAULT_BLOBS m s removal).2 with
        | done =>
          rw [hnext] at h
          cases h
        | _ =>
          rw [hnext] at h
          exact h
    | recording size =>
      simp only [next, receiveBlob.next] at h
      split_ifs at h <;> cases h
    | answered a => cases h
  | delete removal => exact deleteBlobs.mem_dropped_next h
  | sweep olderThan stage =>
    cases stage with
    | selecting =>
      simp only [next, purgeOrphans.next] at h
      split_ifs at h
      · cases h
      · split at h <;> cases h
      · split at h <;> cases h
    | removing removal =>
      cases hm : m.throws with
      | true =>
        simp only [next, purgeOrphans.next, hm] at h
        cases h
      | false =>
        rw [next_removing hm] at h
        refine deleteBlobs.mem_dropped_next (s := s) ?_
        cases hnext : (deleteBlobs.next VAULT_BLOBS m s removal).2 with
        | done =>
          rw [hnext] at h
          cases h
        | _ =>
          rw [hnext] at h
          exact h
    | done => cases h

end BlobJob

namespace ContentServer

variable {quota : ℕ} {s s' : ContentServer}

/-- Some job is still to count or to delete the key's object. -/
def Covered (s : ContentServer) (key : FileKey) : Prop :=
  ∃ r job, s.jobs r = some job ∧ key ∈ job.covers

/-- Some job has deleted the key's object, and drops its row next. -/
def Dropping (s : ContentServer) (key : FileKey) : Prop :=
  ∃ r job, s.jobs r = some job ∧ key ∈ job.dropped

/-- The key's row is there to stay: where one is to be dropped, it is not reserved. -/
def Retained (s : ContentServer) (key : FileKey) : Prop :=
  Accounted s.vault.db.blobs key ∧ (s.Dropping key → s.Held key)

/-- An upload that records an object which is there finds its row not reserved, or nobody
about to drop it; a failed one that left an object finds a row when it discards it; and
where an await throws, what it leaves in the bucket has a row that stays. -/
def Recorded (s : ContentServer) : ContentEvent → Prop
  | .run r m =>
      match m.throws, s.jobs r with
      | true, some job => ∀ key ∈ job.covers, (s.bucket key).isSome = true →
          (∀ keys ∈ (job.action VAULT_BLOBS m s.vault.db).clears, key ∉ keys) → s.Retained key
      | false, some (.upload request (.recording _)) => (s.bucket request.key).isSome = true →
          writable request.key s.vault.db.blobs = true ∨ ¬ s.Dropping request.key
      | false, some (.upload _ (.discarding (.starting keys) _ _)) => ∀ key ∈ keys,
          (s.bucket key).isSome = true →
          Accounted s.vault.db.blobs key
      | _, _ => True
  | _ => True

/-- Every object has a reason to be there. -/
def Justified (s : ContentServer) : Prop :=
  ∀ key, (s.bucket key).isSome = true → s.Covered key ∨ s.Retained key

theorem Retained.of_held {key : FileKey} (h : s.Held key) : s.Retained key :=
  ⟨h.imp fun _ hu => ⟨hu.1, hu.2.1⟩, fun _ => h⟩

/-- A row that a key has is reserved if it may not be written. -/
theorem accounted_of_not_writable {key : FileKey} (h : ¬ writable key s.vault.db.blobs = true) :
    Accounted s.vault.db.blobs key := by
  by_contra hnone
  refine h (Table.every_iff.mpr fun u hu => ?_)
  rw [Bool.or_eq_true, decide_eq_true_eq]
  exact Or.inl fun hk => hnone ⟨u, hu, hk⟩

theorem held_of_recorded (quota : ℕ) {request : BlobUpload} {size : ℕ} {m : BlobMoment}
    {s : BlobDb VaultDb}
    (hnow : m.now ≠ RESERVED_FOR_DELETION) (hw : writable request.key s.db.blobs = true) :
    ∃ u ∈ ((BlobAction.record request size).run VAULT_BLOBS quota m s).db.blobs,
      u.r2Key = request.key ∧ u.createdAt ≠ RESERVED_FOR_DELETION := by
  obtain ⟨hmem, hk⟩ := Table.get?_eq_some.mp (get?_upsertUpload size m.now hw)
  exact ⟨_, hmem, hk, hnow⟩

/-- The key has a row after an action, unless the action drops it. -/
theorem accounted_run {m : BlobMoment} (hnow : m.now ≠ RESERVED_FOR_DELETION) {action : BlobAction}
    (hforget : ∀ keys, action ≠ .forget keys) {db : VaultDb} {bucket : FileKey → Option ℕ}
    {key : FileKey} (h : Accounted db.blobs key) :
    Accounted (action.run VAULT_BLOBS quota m ⟨db, bucket⟩).db.blobs key ∨ ∃ keys,
    action = .drop keys ∧ key ∈ keys := by
  obtain ⟨u, hu, hk⟩ := h
  have hupsert : ∀ {k : FileKey} {size : ℕ},
      Accounted (upsertUpload k size m.now db.blobs) key := by
    intro k size
    obtain ⟨v, hv, hvk, _⟩ := upsertUpload_keeps hnow hu
    exact ⟨v, hv, hvk.trans hk⟩
  cases action with
  | nothing => exact Or.inl ⟨u, hu, hk⟩
  | reserve request =>
    left
    have hrows : (BlobAction.run VAULT_BLOBS quota m ⟨db, bucket⟩ (.reserve request)).db.blobs =
      if bytesWith request.key request.length db.blobs ≤ quota ∧
      writable request.key db.blobs = true then
        upsertUpload request.key request.length m.now db.blobs
      else db.blobs :=
        @BlobStore.rows_reserveBlob _ VAULT_BLOBS quota ⟨db,
          bucket⟩ request.key request.length m.now
    rw [hrows]
    split_ifs
    · exact hupsert
    · exact ⟨u, hu, hk⟩
  | transfer request =>
    left
    rw [BlobAction.run, BlobStore.db_transferred]
    exact ⟨u, hu, hk⟩
  | record request size => exact Or.inl hupsert
  | forget keys => exact absurd rfl (hforget keys)
  | mark keys =>
    left
    have hrows : (BlobAction.run VAULT_BLOBS quota m ⟨db, bucket⟩ (.mark keys)).db.blobs =
        db.blobs.update (fun u => decide (u.r2Key ∈ keys) && !VAULT_BLOBS.claimed db u.r2Key)
          (fun u => { u with createdAt := RESERVED_FOR_DELETION }) (fun _ => rfl) :=
      @BlobStore.rows_reserveForDeletion _ VAULT_BLOBS ⟨db, bucket⟩ keys
    rw [hrows]
    refine ⟨_, Table.update_mem hu, ?_⟩
    split_ifs <;> exact hk
  | clear keys => exact Or.inl ⟨u, hu, hk⟩
  | drop keys =>
    by_cases hmem : key ∈ keys
    · exact Or.inr ⟨keys, rfl, hmem⟩
    · exact Or.inl ⟨u, Table.mem_delete.mpr ⟨hu, by simp [hk, hmem]⟩, hk⟩

/-- Rows are dropped by the job that deleted the objects. -/
theorem dropped_of_drop {job : BlobJob} {m : BlobMoment} {db : VaultDb} {keys : List FileKey}
    (h : job.action VAULT_BLOBS m db = .drop keys) : job.dropped = keys := by
  have hremoval : ∀ removal : Removal, removal.action VAULT_BLOBS m = .drop keys →
      removal.dropped = keys := by
    intro removal h
    cases removal with
    | starting all => cases hm : m.throws <;> simp [Removal.action, hm, VAULT_BLOBS] at h
    | objects all rest => cases h
    | rows all rest =>
      cases hm : m.throws with
      | true => simp [Removal.action, hm] at h
      | false =>
        simp only [Removal.action, hm] at h
        exact BlobAction.drop.inj h
    | done => cases h
  cases job with
  | upload request stage =>
    cases stage with
    | discarding removal error thrown => exact hremoval removal h
    | admitted =>
      simp only [BlobJob.action] at h
      split_ifs at h
    | recording size =>
      simp only [BlobJob.action] at h
      split_ifs at h
    | _ => cases h
  | delete removal => exact hremoval removal h
  | sweep olderThan stage =>
    cases stage with
    | removing removal => exact hremoval removal h
    | selecting =>
      simp only [BlobJob.action] at h
      split_ifs at h
    | done => cases h

/-- The state after a job's step. -/
def ran (quota : ℕ) (s : ContentServer) (r : RequestId) (m : BlobMoment) (job : BlobJob) :
    ContentServer :=
  s.withBlobs ⟨(job.action VAULT_BLOBS m s.vault.db).run VAULT_BLOBS quota m ⟨s.vault.db, s.bucket⟩,
    Function.update s.jobs r
      (some (job.next VAULT_BLOBS quota ⟨.quota_exceeded, (VAULT_FULL quota).message⟩ m ⟨s.vault.db,
        s.bucket⟩).2)⟩

/-- An object that is still there after a job's step, and that the job does not cover, was
there before, and the job did not delete it. -/
theorem bucket_of_ran {r : RequestId} {m : BlobMoment} {job : BlobJob} {key : FileKey}
    (hnew : key ∉ (job.next VAULT_BLOBS quota ⟨.quota_exceeded, (VAULT_FULL quota).message⟩ m
      ⟨s.vault.db, s.bucket⟩).2.covers) (h : ((s.ran quota r m job).bucket key).isSome = true) :
    (s.bucket key).isSome = true ∧ ∀ keys ∈ (job.action VAULT_BLOBS m s.vault.db).clears,
    key ∉ keys := by
  have hkey :
      (((job.action VAULT_BLOBS m s.vault.db).run VAULT_BLOBS quota m ⟨s.vault.db, s.bucket⟩).bucket
    key).isSome = true := h
  cases hact : job.action VAULT_BLOBS m s.vault.db with
  | transfer request =>
    have hne : key ≠ request.key := fun h => hnew (h ▸ BlobJob.covers_transfer hact)
    rw [hact, BlobAction.run, BlobStore.bucket_transferred hne] at hkey
    exact ⟨hkey, fun _ hk => by cases hk⟩
  | clear keys =>
    rw [hact] at hkey
    simp only [BlobAction.run, BlobDb.deleteObjects] at hkey
    split_ifs at hkey with hmem
    · cases hkey
    · exact ⟨hkey, fun keys' hk => Option.some.inj hk ▸ hmem⟩
  | reserve request =>
    rw [hact] at hkey
    refine ⟨?_, fun _ hk => by cases hk⟩
    simp only [BlobAction.run, BlobStore.reserveBlob] at hkey
    split_ifs at hkey <;> exact hkey
  | _ =>
    rw [hact] at hkey
    exact ⟨hkey, fun _ hk => by cases hk⟩

/-- A row that stays still does after a job's step, unless the job takes over the key. -/
theorem Retained.ran {r : RequestId} {m : BlobMoment} {job : BlobJob} {key : FileKey}
    (h : s.Retained key) (hjob : s.jobs r = some job) (hnow : m.now ≠ RESERVED_FOR_DELETION)
    (hnew : key ∉ (job.next VAULT_BLOBS quota ⟨.quota_exceeded, (VAULT_FULL quota).message⟩ m
      ⟨s.vault.db, s.bucket⟩).2.covers) (hkey : ((s.ran quota r m job).bucket key).isSome = true) :
    (s.ran quota r m job).Retained key := by
  have hheld : s.Held key → (s.ran quota r m job).Held key := by
    intro hheld
    rcases @held_run quota m hnow (job.action VAULT_BLOBS m s.vault.db) (fun _ =>
      action_ne_forget) s.vault.db
      s.bucket key hheld with hheld | ⟨keys, hmark, hreserved⟩
    · exact hheld
    · exact absurd (BlobJob.covers_mark hmark hreserved) hnew
  refine ⟨?_, fun hdropping => ?_⟩
  · rcases @accounted_run quota m hnow (job.action VAULT_BLOBS m s.vault.db) (fun _ =>
      action_ne_forget)
      s.vault.db s.bucket key h.1 with hrow | ⟨keys, hdrop, hmem⟩
    · exact hrow
    · obtain ⟨u, hu, hk, _⟩ := hheld (h.2 ⟨r, job, hjob, (dropped_of_drop hdrop).symm ▸ hmem⟩)
      exact ⟨u, hu, hk⟩
  · obtain ⟨i, other, hother, hdropped⟩ := hdropping
    by_cases hi : i = r
    · subst hi
      have hnext : other =
          (job.next VAULT_BLOBS quota ⟨.quota_exceeded, (VAULT_FULL quota).message⟩ m
          ⟨s.vault.db, s.bucket⟩).2 := Option.some.inj (hother.symm.trans (Function.update_self ..))
      obtain ⟨keys, hclear, hmem⟩ := BlobJob.mem_dropped_next (hnext ▸ hdropped)
      exact absurd hmem ((bucket_of_ran hnew hkey).2 keys (by rw [hclear]; rfl))
    · exact hheld (h.2 ⟨i, other, (Function.update_of_ne hi _ _).symm.trans hother, hdropped⟩)

/-- A job that begins covers what its place covered, since the place was empty. -/
theorem Justified.started (hj : s.Justified) {r : RequestId} {job : BlobJob}
    (hisNew : job.isNew = true) (hfree : s.jobs r = none) :
    ({ s with jobs := Function.update s.jobs r (some job) } : ContentServer).Justified := by
  intro key hkey
  rcases hj key hkey with ⟨i, old, hold, hcovers⟩ | hretained
  · refine Or.inl ⟨i, old, ?_, hcovers⟩
    have hne : i ≠ r := fun h => by simp [h, hfree] at hold
    exact (Function.update_of_ne hne _ _).trans hold
  · refine Or.inr ⟨hretained.1, fun hdropping => hretained.2 ?_⟩
    obtain ⟨i, other, hother, hdropped⟩ := hdropping
    by_cases hi : i = r
    · subst hi
      obtain rfl : other = job := Option.some.inj (hother.symm.trans (Function.update_self ..))
      rw [BlobJob.dropped_of_isNew hisNew] at hdropped
      cases hdropped
    · exact ⟨i, other, (Function.update_of_ne hi _ _).symm.trans hother, hdropped⟩

/-- What a job stops covering is recorded, gone, or retained by a row. -/
theorem Justified.ran (hsound : s.Sound) (hj : s.Justified) {r : RequestId} {m : BlobMoment}
    {job : BlobJob} (hok : s.Recorded (.run r m)) (hjob : s.jobs r = some job)
    (hnow : m.now ≠ RESERVED_FOR_DELETION) : (s.ran quota r m job).Justified := by
  intro key hkey
  by_cases hnew : key ∈
    (job.next VAULT_BLOBS quota ⟨.quota_exceeded, (VAULT_FULL quota).message⟩ m
      ⟨s.vault.db, s.bucket⟩).2.covers
  · exact Or.inl ⟨r, _, Function.update_self .., hnew⟩
  obtain ⟨hold, hnotCleared⟩ := bucket_of_ran hnew hkey
  have hstays : s.Retained key → (s.ran quota r m job).Retained key :=
    fun h => h.ran hjob hnow hnew hkey
  rcases hj key hold with ⟨i, other, hother, hcovers⟩ | hretained
  · by_cases hi : i = r
    · obtain rfl : job = other := Option.some.inj (hjob.symm.trans (hi ▸ hother))
      right
      cases hm : m.throws with
      | true =>
        simp only [Recorded, hm, hjob] at hok
        exact hstays (hok key hcovers hold hnotCleared)
      | false =>
        rcases BlobJob.covers_next hm hcovers with hstill | ⟨request, size, rfl, rfl⟩ |
          ⟨keys, hclear, hmem⟩ |
          ⟨request, all, error, thrown, rfl, hmem, hnot, htake⟩
        · exact absurd hstill hnew
        · simp only [Recorded, hm, hjob] at hok
          by_cases hw : writable request.key s.vault.db.blobs = true
          · refine Retained.of_held ?_
            have hrecord :
                (BlobJob.upload request (.recording size)).action VAULT_BLOBS m s.vault.db =
                  .record request size := by simp [BlobJob.action, hm]
            show ∃ u ∈ (((BlobJob.upload request (.recording size)).action VAULT_BLOBS m
              s.vault.db).run VAULT_BLOBS quota m ⟨s.vault.db, s.bucket⟩).db.blobs, _
            rw [hrecord]
            exact held_of_recorded quota hnow hw
          · exact hstays ⟨accounted_of_not_writable hw,
              fun h => absurd h ((hok hold).resolve_left hw)⟩
        · exact absurd hmem (hnotCleared keys (by rw [hclear]; rfl))
        · simp only [Recorded, hm, hjob] at hok
          obtain ⟨u, hu, hk⟩ := hok key hmem hold
          refine hstays (Retained.of_held (hsound.held key (claimed_iff.mp ?_)))
          by_contra hfree
          refine hnot (List.mem_filter.mpr ⟨htake, ?_⟩)
          rw [Bool.and_eq_true, Table.exist_iff, Bool.not_eq_true', Bool.eq_false_iff]
          exact ⟨⟨u, hu, decide_eq_true hk⟩, hfree⟩
    · exact Or.inl ⟨i, other, (Function.update_of_ne hi _ _).trans hother, hcovers⟩
  · exact Or.inr (hstays hretained)

theorem justified_step (hsound : s.Sound) (hj : s.Justified) {e : ContentEvent} (hok : s.Recorded e)
    (hs : s.step quota e = some s') : s'.Justified := by
  cases e with
  | start r job =>
    have hisNew : job.isNew = true := by
      obtain ⟨b, hb, _⟩ := Option.map_eq_some_iff.mp hs
      simp only [BlobServer.start] at hb
      split_ifs at hb with hnew
      exact hnew.1
    obtain ⟨hfree, rfl⟩ := step_start hs
    exact hj.started hisNew hfree
  | vault e =>
    obtain ⟨hbucket, hjobs, hblobs, _⟩ := step_vault hs
    intro key hkey
    rw [Covered, Retained, Dropping, Held, hjobs, hblobs]
    exact hj key (hbucket ▸ hkey)
  | run r m =>
    obtain ⟨job, hjob, hnow, rfl⟩ := step_run hs
    exact Justified.ran hsound hj hok hjob hnow

/-- In every such run, where no upload, deletion or sweep is in progress, each object in the
bucket has a row. -/
theorem object_accounted (h : Runs.ReachableVia (step quota) Recorded new s)
    (hquiet : s.blobs.Quiet) {key : FileKey}
    (hkey : (s.bucket key).isSome = true) : Accounted s.vault.db.blobs key := by
  have hall : s.Sound ∧ s.Justified := by
    refine h.invariant (I := fun s => s.Sound ∧ s.Justified) ⟨sound_new, fun _ hk => (nomatch hk)⟩
      fun s e t hI hok hs => ?_
    exact ⟨hI.1.step hs, justified_step hI.1 hI.2 hok hs⟩
  rcases hall.2 key hkey with ⟨r, job, hjob, hcovers⟩ | hretained
  · have hdone := hquiet r job hjob
    unfold BlobJob.isDone at hdone
    split at hdone
    · exact absurd hcovers List.not_mem_nil
    · exact absurd hcovers List.not_mem_nil
    · exact absurd hcovers List.not_mem_nil
    · cases hdone
  · exact hretained.1

/-- The job that the event is about. -/
def requestOf : ContentEvent → Option RequestId
  | .start r _ | .run r _ => some r
  | .vault _ => none

theorem jobs_step {e : ContentEvent} (h : s.step quota e = some s') {r : RequestId}
    (hr : requestOf e ≠ some r) :
    s'.jobs r = s.jobs r := by
  cases e with
  | start i job =>
    obtain ⟨_, rfl⟩ := step_start h
    exact Function.update_of_ne (fun hi => hr (congrArg some hi.symm)) _ _
  | vault e => rw [(step_vault h).2.1]
  | run i m =>
    obtain ⟨job, _, _, rfl⟩ := step_run h
    exact Function.update_of_ne (fun hi => hr (congrArg some hi.symm)) _ _

def allDone (s : ContentServer) (requests : List RequestId) : Bool :=
  requests.all fun r => (s.jobs r).all BlobJob.isDone

/-- A run that no job begins in but these is at rest when they are done. -/
theorem quiet_of_replay {requests : List RequestId} {es : List ContentEvent}
    (h : Runs.replay (step quota) s es = some s') (hs : ∀ r ∉ requests, s.jobs r = none)
    (hes : ∀ e ∈ es, (requestOf e).all (fun r => decide (r ∈ requests)) = true)
    (hdone : s'.allDone requests = true) : s'.blobs.Quiet := by
  have hnone : ∀ r ∉ requests, s'.jobs r = none := by
    clear hdone
    induction es generalizing s with
    | nil => exact Option.some.inj h ▸ hs
    | cons e es ih =>
      obtain ⟨t, ht, hrest⟩ := Option.bind_eq_some_iff.mp h
      refine ih hrest (fun r hr => ?_) fun e he => hes e (List.mem_cons_of_mem _ he)
      rw [jobs_step ht fun he => ?_]
      · exact hs r hr
      · have hmem := hes e List.mem_cons_self
        rw [he] at hmem
        exact hr (of_decide_eq_true hmem)
  intro r job hjob
  by_cases hr : r ∈ requests
  · have hall := List.all_eq_true.mp hdone r hr
    rw [show s'.jobs r = some job from hjob] at hall
    exact hall
  · exact absurd ((hnone r hr).symm.trans hjob) (Option.some_ne_none job).symm

/-- Nothing throws, nothing is discarded, and what an upload records is not reserved. -/
def Calm (s : ContentServer) : ContentEvent → Prop
  | .run r m => m.throws = false ∧
      match s.jobs r with
      | some (.upload request (.recording _)) => writable request.key s.vault.db.blobs = true
      | some (.upload _ (.discarding _ _ _)) => False
      | _ => True
  | _ => True

instance (s : ContentServer) (e : ContentEvent) : Decidable (s.Calm e) := by
  unfold Calm
  split
  · refine @instDecidableAnd _ _ _ ?_
    split <;> infer_instance
  · infer_instance

theorem Calm.recorded {e : ContentEvent} (h : s.Calm e) : s.Recorded e := by
  cases e with
  | run r m =>
    obtain ⟨hm, hcalm⟩ := h
    simp only [Recorded, hm]
    split
    · exact absurd ‹false = true› Bool.false_ne_true
    · rename_i hjob
      rw [hjob] at hcalm
      exact fun _ => Or.inl hcalm
    · rename_i hjob
      rw [hjob] at hcalm
      exact hcalm.elim
    · trivial
  | _ => trivial

theorem object_accounted_uploaded :
    ∃ s : ContentServer, s.blobs.Quiet ∧ (s.bucket 1).isSome = true ∧
    Accounted s.vault.db.blobs 1 := by
  have hrun :
      (Runs.replay (step 100) new (uploads 0 1)).any (fun s : ContentServer =>
        decide ((s.bucket 1).isSome = true ∧
      s.allDone [0] = true)) = true := by decide +kernel
  have hvia : Runs.replayVia (step 100) Calm new (uploads 0 1) =
      Runs.replay (step 100) new (uploads 0 1) := rfl
  obtain ⟨s, hs, hstate⟩ := (Option.any_eq_true _ _).mp hrun
  obtain ⟨hobject, hdone⟩ := of_decide_eq_true hstate
  have hquiet : s.blobs.Quiet := quiet_of_replay hs (fun _ _ => rfl) (by decide) hdone
  have hreached := (Runs.reachableVia_of_replayVia (hvia.trans hs)).mono fun _ _ => Calm.recorded
  exact ⟨s, hquiet, hobject, object_accounted hreached hquiet hobject⟩

/-- An upload is discarded while another of the same key is being written. The other finds
the row reserved once its object is there, and answers that all is well. -/
def recordedNothing : List ContentEvent :=
  [.start 0 (.upload ⟨1, 6⟩ .admitted), .run 0 ⟨12, .stored 6, 0, 1, none⟩,
    .start 1 (.upload ⟨1, 6⟩ .admitted),
    .run 1 ⟨12, .stored 6, 0, 1, none⟩,
    .run 1 ⟨12, .copyFailed false false, 0, 1, none⟩] ++ cleans 1 2 ++ cleans 0 2 ++ cleans 1 1

theorem object_leaked :
    ∃ s, Runs.Reachable (step 100) new s ∧ s.blobs.Quiet ∧ (s.bucket 1).isSome = true ∧
    ¬ Accounted s.vault.db.blobs 1 := by
  have hrun :
      (Runs.replay (step 100) new recordedNothing).any (fun s : ContentServer =>
        decide ((s.bucket 1).isSome = true ∧
      ¬ Accounted s.vault.db.blobs 1 ∧ s.allDone [0, 1] = true)) = true := by decide +kernel
  obtain ⟨s, hs, hstate⟩ := (Option.any_eq_true _ _).mp hrun
  obtain ⟨hobject, hrow, hdone⟩ := of_decide_eq_true hstate
  exact ⟨s, Runs.reachable_of_replay hs, quiet_of_replay hs (fun _ _ => rfl) (by decide) hdone,
    hobject, hrow⟩

end ContentServer
end SendSelf
