import SendSelf.Blobs.Actions
import SendSelf.Library.Runs
import SendSelf.Vault.Batches

/-!
# The content of the vault

The vault's handlers and the jobs of its store run on one database. A handler claims
content in the batch that writes its item, and asks for the accounting row there: the
row is to be one that no clean-up has reserved, and no other live item may have the
content. A clean-up reserves a row only while nothing claims it, in one statement. So a
claimed row stays, whatever runs.

The object is another matter. The row of an upload is there before its object is, and a
clean-up that has reserved a row deletes the object later: by then another clean-up may
have finished with the row, and the key been uploaded again.
-/
namespace SendSelf

/-- What an upload that hits the vault's quota is told. -/
def VAULT_FULL (bytes : ℕ) : BlobQuota :=
  ⟨bytes, "The vault is full. Delete something or empty the trash to make room"⟩

structure ContentServer where
  vault : VaultServer
  bucket : FileKey → Option ℕ
  jobs : RequestId → Option BlobJob

inductive ContentEvent where
  | vault (e : VaultEvent)
  | start (r : RequestId) (job : BlobJob)
  | run (r : RequestId) (m : BlobMoment)

/-- What a call commits at this event. -/
def VaultServer.batch (s : VaultServer) : VaultEvent → Option VaultBatch
  | .run i _ limited => ((s.calls[i]?).filter fun call => !call.cut).bind fun call =>
      call.job.batch call.started (s.moment limited)
  | _ => none

namespace ContentServer

/-- The store's side. -/
def blobs (s : ContentServer) : BlobServer VaultDb := ⟨⟨s.vault.db, s.bucket⟩, s.jobs⟩

def withBlobs (s : ContentServer) (b : BlobServer VaultDb) : ContentServer :=
  { vault := { s.vault with db := b.data.db }, bucket := b.data.bucket, jobs := b.jobs }

/-- The accounting rows are written by the store's own jobs only. -/
def step (quota : ℕ) (s : ContentServer) : ContentEvent → Option ContentServer
  | .vault (.content _) => none
  | .vault e => (s.vault.step e).map fun vault => { s with vault }
  | .start r job => (s.blobs.start r job).map s.withBlobs
  | .run r m => (s.blobs.run VAULT_BLOBS (VAULT_FULL quota) r m).map s.withBlobs

/-- A new space. -/
def new : ContentServer := ⟨.new, fun _ => none, fun _ => none⟩

/-- What the job does at its next await. -/
def action (s : ContentServer) (r : RequestId) (m : BlobMoment) : Option BlobAction :=
  (s.jobs r).map fun job => job.action VAULT_BLOBS m s.vault.db

/-- The key has a row that is not reserved for deletion. -/
def Held (s : ContentServer) (key : FileKey) : Prop :=
  ∃ u ∈ s.vault.db.blobs, u.r2Key = key ∧ u.createdAt ≠ RESERVED_FOR_DELETION

instance (s : ContentServer) (key : FileKey) : Decidable (s.Held key) :=
  inferInstanceAs
    (Decidable (∃ u ∈ s.vault.db.blobs, u.r2Key = key ∧ u.createdAt ≠ RESERVED_FOR_DELETION))

/-- A live item has this content. -/
def Claimed (s : ContentServer) (key : FileKey) : Prop :=
  ∃ r ∈ s.vault.db.items, r.live = true ∧ r.blobKey = some key

theorem claimed_iff {s : ContentServer} {key : FileKey} :
    VAULT_BLOBS.claimed s.vault.db key = true ↔ s.Claimed key := by
  simp only [VAULT_BLOBS, Table.exist_iff, Bool.and_eq_true, decide_eq_true_eq, Claimed]
  exact exists_congr fun r => and_congr_right fun _ => and_comm

end ContentServer

theorem VaultServer.step_batch {s s' : VaultServer} {e : VaultEvent}
    (he : ∀ blobs, e ≠ .content blobs)
    (h : s.step e = some s') : s'.db = VaultBatch.commit? (s.batch e) s.db := by
  cases e with
  | run i rows limited =>
    obtain ⟨call, hcall, hs⟩ := Option.bind_eq_some_iff.mp h
    obtain ⟨⟨db', job'⟩, hnext, hs⟩ := Option.bind_eq_some_iff.mp hs
    obtain rfl := Option.some.inj hs
    rw [batch, hcall]
    exact VaultJob.next_batch hnext
  | content blobs => exact absurd rfl (he blobs)
  | receive request => exact Option.some.inj h ▸ rfl
  | cut i =>
    obtain ⟨call, _, rfl⟩ := Option.map_eq_some_iff.mp h
    rfl
  | tick => exact Option.some.inj h ▸ rfl
  | rotate => exact Option.some.inj h ▸ rfl

theorem VaultJob.batch_ne_content {started : ℕ} {m : VaultMoment} {job : VaultJob}
    {batch : VaultBatch}
    (h : job.batch started m = some batch) : ∀ blobs, batch ≠ .content blobs := by
  intro blobs hb
  subst hb
  cases job with
  | create req stage => cases stage <;> cases h
  | update id req stage => cases stage <;> cases h
  | reseal req stage => cases stage <;> cases h
  | delete id stage =>
    cases stage with
    | purging stage => cases stage <;> cases h
    | _ => cases h
  | cleanUp stage =>
    cases stage with
    | purging id stage rest => cases stage <;> cases h
    | _ => cases h

namespace ContentServer

variable {quota : ℕ} {s s' : ContentServer}

/-- A handler's step leaves the store alone, and writes at most one batch. -/
theorem step_vault {e : VaultEvent} (h : s.step quota (.vault e) = some s') :
    s'.bucket = s.bucket ∧ s'.jobs = s.jobs ∧ s'.vault.db.blobs = s.vault.db.blobs ∧
      s'.vault.db = VaultBatch.commit? (s.vault.batch e) s.vault.db := by
  have hne : ∀ blobs, e ≠ .content blobs := by
    intro blobs he
    subst he
    cases h
  have hstep : (s.vault.step e).map (fun vault => { s with vault }) = some s' := by
    cases e with
    | content blobs => exact absurd rfl (hne blobs)
    | _ => exact h
  obtain ⟨vault, hvault, rfl⟩ := Option.map_eq_some_iff.mp hstep
  have hdb := VaultServer.step_batch hne hvault
  refine ⟨rfl, rfl, ?_, hdb⟩
  show vault.db.blobs = s.vault.db.blobs
  rw [hdb]
  cases hb : s.vault.batch e with
  | none => rfl
  | some batch =>
    refine VaultBatch.blobs_commit ?_
    cases e with
    | run i rows limited =>
      obtain ⟨call, _, hcall⟩ := Option.bind_eq_some_iff.mp hb
      exact VaultJob.batch_ne_content hcall
    | _ => cases hb

/-- A job's step is its action. -/
theorem step_run {r : RequestId} {m : BlobMoment} (h : s.step quota (.run r m) = some s') :
    ∃ job, s.jobs r = some job ∧ m.now ≠ RESERVED_FOR_DELETION ∧
      s' = s.withBlobs
        ⟨(job.action VAULT_BLOBS m s.vault.db).run VAULT_BLOBS quota m ⟨s.vault.db, s.bucket⟩,
        Function.update s.jobs r
          (some (job.next VAULT_BLOBS quota ⟨.quota_exceeded, (VAULT_FULL quota).message⟩ m
            ⟨s.vault.db, s.bucket⟩).2)⟩ := by
  obtain ⟨b, hb, rfl⟩ := Option.map_eq_some_iff.mp h
  simp only [BlobServer.run] at hb
  split_ifs at hb with hnow
  obtain ⟨job, hjob, rfl⟩ := Option.map_eq_some_iff.mp hb
  refine ⟨job, hjob, hnow, ?_⟩
  rw [← BlobJob.next_action]
  rfl

theorem step_start {r : RequestId} {job : BlobJob} (h : s.step quota (.start r job) = some s') :
    s.jobs r = none ∧ s' = { s with jobs := Function.update s.jobs r (some job) } := by
  obtain ⟨b, hb, rfl⟩ := Option.map_eq_some_iff.mp h
  simp only [BlobServer.start] at hb
  split_ifs at hb with hnew
  obtain rfl := Option.some.inj hb
  exact ⟨Option.isNone_iff_eq_none.mp hnew.2, rfl⟩

/-- A vault's store never drops a row at once. -/
theorem action_ne_forget {job : BlobJob} {m : BlobMoment} {db : VaultDb} {keys : List FileKey} :
    job.action VAULT_BLOBS m db ≠ .forget keys := by
  have hkept : VAULT_BLOBS.expires = false := rfl
  have hremoval : ∀ removal : Removal, removal.action VAULT_BLOBS m ≠ .forget keys := by
    intro removal h
    cases removal with
    | starting all =>
      cases hthrows : m.throws <;> simp [Removal.action, hthrows, hkept] at h
    | objects all rest => cases h
    | rows all rest =>
      simp only [Removal.action] at h
      split_ifs at h
    | done => cases h
  intro h
  cases job with
  | upload request stage =>
    cases stage with
    | discarding removal error thrown => exact hremoval removal h
    | admitted =>
      simp only [BlobJob.action] at h
      split_ifs at h
    | recording size =>
      simp only [BlobJob.action] at h
      split_ifs at h
    | _ => cases h
  | delete removal => exact hremoval removal h
  | sweep olderThan stage =>
    cases stage with
    | removing removal => exact hremoval removal h
    | selecting =>
      simp [BlobJob.action, hkept] at h
    | done => cases h

/-- A row that is not reserved stays, unless the statement reserves it. -/
theorem held_run {m : BlobMoment} (hnow : m.now ≠ RESERVED_FOR_DELETION) {action : BlobAction}
    (hforget : ∀ keys, action ≠ .forget keys) {db : VaultDb} {bucket : FileKey → Option ℕ}
    {key : FileKey} (h : ∃ u ∈ db.blobs, u.r2Key = key ∧ u.createdAt ≠ RESERVED_FOR_DELETION) :
    (∃ u ∈ (action.run VAULT_BLOBS quota m ⟨db, bucket⟩).db.blobs, u.r2Key = key ∧
      u.createdAt ≠ RESERVED_FOR_DELETION) ∨
      ∃ keys, action = .mark keys ∧ key ∈ VAULT_BLOBS.reservable db keys := by
  obtain ⟨u, hu, hk, hlive⟩ := h
  have hupsert : ∀ {k : FileKey} {size : ℕ}, ∃ v ∈ upsertUpload k size m.now db.blobs,
      v.r2Key = key ∧
      v.createdAt ≠ RESERVED_FOR_DELETION := by
    intro k size
    obtain ⟨v, hv, hvk, _, hvlive⟩ := upsertUpload_keeps hnow hu
    exact ⟨v, hv, hvk.trans hk, hvlive hlive⟩
  cases action with
  | nothing => exact Or.inl ⟨u, hu, hk, hlive⟩
  | reserve request =>
    left
    have hrows : (BlobAction.run VAULT_BLOBS quota m ⟨db, bucket⟩ (.reserve request)).db.blobs =
      if bytesWith request.key request.length db.blobs ≤ quota ∧
      writable request.key db.blobs = true then
        upsertUpload request.key request.length m.now db.blobs
      else db.blobs :=
        @BlobStore.rows_reserveBlob _ VAULT_BLOBS quota ⟨db,
          bucket⟩ request.key request.length m.now
    rw [hrows]
    split_ifs
    · exact hupsert
    · exact ⟨u, hu, hk, hlive⟩
  | transfer request =>
    left
    rw [BlobAction.run, BlobStore.db_transferred]
    exact ⟨u, hu, hk, hlive⟩
  | record request size => exact Or.inl hupsert
  | forget keys => exact absurd rfl (hforget keys)
  | mark keys =>
    by_cases hmarked : key ∈ VAULT_BLOBS.reservable db keys
    · exact Or.inr ⟨keys, rfl, hmarked⟩
    · exact Or.inl ⟨u,
        @BlobStore.mem_reserveForDeletion _ VAULT_BLOBS ⟨db, bucket⟩ keys u hu (hk ▸ hmarked), hk,
        hlive⟩
  | clear keys => exact Or.inl ⟨u, hu, hk, hlive⟩
  | drop keys =>
    refine Or.inl ⟨u, Table.mem_delete.mpr ⟨hu, ?_⟩, hk, hlive⟩
    simp [hlive]

/-- Live items have rows that are not reserved, and no two of them the same content. -/
structure Sound (s : ContentServer) : Prop where
  held : ∀ key, s.Claimed key → s.Held key
  unshared : ∀ r ∈ s.vault.db.items, ∀ q ∈ s.vault.db.items, r.live = true → q.live = true →
    ∀ key, r.blobKey = some key → q.blobKey = some key → r = q

/-- What a handler's batch claims for an item was nobody's, and has its row. -/
theorem claimed_commit {batch : Option VaultBatch} {db : VaultDb} {r : VaultItem}
    (h : r ∈ (VaultBatch.commit? batch db).items)
    (hlive : r.live = true) {key : FileKey} (hkey : r.blobKey = some key) :
    (∃ q ∈ db.items, q.id = r.id ∧ q.live = true ∧ q.blobKey = some key) ∨
      ((∃ b, batch = some b ∧ b.claims = some (r.id, key)) ∧ db.blobClaimable key = true) := by
  cases batch with
  | none => exact Or.inl ⟨r, h, rfl, hlive, hkey⟩
  | some batch =>
    rcases VaultBatch.content_of_commit h hlive hkey with hold | ⟨hclaims, hfree⟩
    · exact Or.inl hold
    · exact Or.inr ⟨⟨batch, rfl, hclaims⟩, hfree⟩

theorem blobClaimable_iff {db : VaultDb} {key : FileKey} : db.blobClaimable key = true ↔
    (∀ r ∈ db.items, r.live = true → r.blobKey ≠ some key) ∧
      ∃ u ∈ db.blobs, u.r2Key = key ∧ u.createdAt ≠ RESERVED_FOR_DELETION := by
  simp only [VaultDb.blobClaimable, Bool.and_eq_true, Bool.not_eq_true', Bool.eq_false_iff, ne_eq,
    Table.exist_iff,
    decide_eq_true_eq]
  refine and_congr ⟨fun h r hr hlive hkey => h ⟨r, hr, hkey, hlive⟩, fun h => ?_⟩ Iff.rfl
  rintro ⟨r, hr, hkey, hlive⟩
  exact h r hr hlive hkey

theorem Sound.vault (h : s.Sound) {e : VaultEvent} (hs : s.step quota (.vault e) = some s') :
    s'.Sound := by
  obtain ⟨_, _, hblobs, hdb⟩ := step_vault hs
  constructor
  · intro key ⟨r, hr, hlive, hkey⟩
    rw [Held, hblobs]
    rw [hdb] at hr
    rcases claimed_commit hr hlive hkey with ⟨q, hq, _, hqlive, hqkey⟩ | ⟨_, hfree⟩
    · exact h.held key ⟨q, hq, hqlive, hqkey⟩
    · exact (blobClaimable_iff.mp hfree).2
  · intro r hr q hq hrlive hqlive key hrkey hqkey
    have hr' := hr
    have hq' := hq
    rw [hdb] at hr' hq'
    suffices hid : r.id = q.id from Table.eq_of_key hr hq hid
    rcases claimed_commit hr' hrlive hrkey with ⟨r₀, hr₀, hrid, hrlive₀, hrkey₀⟩ |
      ⟨⟨b, hb, hrclaims⟩, hrfree⟩
    · rcases claimed_commit hq' hqlive hqkey with ⟨q₀, hq₀, hqid, hqlive₀, hqkey₀⟩ | ⟨_, hqfree⟩
      · rw [← hrid, ← hqid, h.unshared r₀ hr₀ q₀ hq₀ hrlive₀ hqlive₀ key hrkey₀ hqkey₀]
      · exact absurd hrkey₀ ((blobClaimable_iff.mp hqfree).1 r₀ hr₀ hrlive₀)
    · rcases claimed_commit hq' hqlive hqkey with ⟨q₀, hq₀, _, hqlive₀, hqkey₀⟩ |
        ⟨⟨b', hb', hqclaims⟩, _⟩
      · exact absurd hqkey₀ ((blobClaimable_iff.mp hrfree).1 q₀ hq₀ hqlive₀)
      · obtain rfl : b = b' := Option.some.inj (hb.symm.trans hb')
        exact (Prod.mk.inj (Option.some.inj (hrclaims.symm.trans hqclaims))).1

theorem items_run {action : BlobAction} {m : BlobMoment} {db : VaultDb}
    {bucket : FileKey → Option ℕ} :
    (action.run VAULT_BLOBS quota m ⟨db, bucket⟩).db.items = db.items := by
  cases action with
  | reserve request =>
    simp only [BlobAction.run, BlobStore.reserveBlob]
    split_ifs <;> rfl
  | transfer request => rw [BlobAction.run, BlobStore.db_transferred]
  | _ => rfl

theorem Sound.run (h : s.Sound) {r : RequestId} {m : BlobMoment}
    (hs : s.step quota (.run r m) = some s') : s'.Sound := by
  obtain ⟨job, hjob, hnow, rfl⟩ := step_run hs
  have hitems := @items_run quota (job.action VAULT_BLOBS m s.vault.db) m s.vault.db s.bucket
  constructor
  · intro key ⟨q, hq, hlive, hkey⟩
    have hclaimed : s.Claimed key := ⟨q, hitems ▸ hq, hlive, hkey⟩
    rcases held_run hnow (fun _ => action_ne_forget) (h.held key hclaimed) with hheld |
      ⟨keys, _, hmarked⟩
    · exact hheld
    · have hfree := (Bool.and_eq_true _ _ ▸ (List.mem_filter.mp hmarked).2).2
      rw [claimed_iff.mpr hclaimed] at hfree
      cases hfree
  · intro q hq p hp
    exact h.unshared q (hitems ▸ hq) p (hitems ▸ hp)

theorem Sound.step (h : s.Sound) {e : ContentEvent} (hs : s.step quota e = some s') : s'.Sound := by
  cases e with
  | vault e => exact h.vault hs
  | start r job =>
    obtain ⟨_, rfl⟩ := step_start hs
    exact ⟨h.held, h.unshared⟩
  | run r m => exact h.run hs

theorem sound_new : new.Sound :=
  ⟨fun _ ⟨_, hr, _⟩ => (Table.not_mem_empty hr).elim, fun _ hr => (Table.not_mem_empty hr).elim⟩

/-- A clean-up deletes no object whose row was written anew since it was reserved, and
content that an item is about to claim is in the bucket. -/
def InStep (s : ContentServer) : ContentEvent → Prop
  | .run r m => ∀ keys ∈ (s.action r m).bind BlobAction.clears, ∀ u ∈ s.vault.db.blobs,
  u.r2Key ∈ keys →
      (s.bucket u.r2Key).isSome = true → u.createdAt = RESERVED_FOR_DELETION
  | .vault e => ∀ claim ∈ (s.vault.batch e).bind VaultBatch.claims,
      s.vault.db.blobClaimable claim.2 = true →
      (s.bucket claim.2).isSome = true
  | .start _ _ => True

instance (s : ContentServer) : (e : ContentEvent) → Decidable (s.InStep e)
  | .run r m =>
    inferInstanceAs
      (Decidable (∀ keys ∈ (s.action r m).bind BlobAction.clears, ∀ u ∈ s.vault.db.blobs,
      u.r2Key ∈ keys → (s.bucket u.r2Key).isSome = true → u.createdAt = RESERVED_FOR_DELETION))
  | .vault e => inferInstanceAs (Decidable (∀ claim ∈ (s.vault.batch e).bind VaultBatch.claims,
      s.vault.db.blobClaimable claim.2 = true → (s.bucket claim.2).isSome = true))
  | .start _ _ => inferInstanceAs (Decidable True)

/-- What a live item has content under is in the bucket. -/
def Present (s : ContentServer) : Prop := ∀ key, s.Claimed key → (s.bucket key).isSome = true

theorem present_step (hsound : s.Sound) (hp : s.Present) {e : ContentEvent} (hok : s.InStep e)
    (hs : s.step quota e = some s') : s'.Present := by
  cases e with
  | start r job =>
    obtain ⟨_, rfl⟩ := step_start hs
    exact hp
  | vault e =>
    obtain ⟨hbucket, _, _, hdb⟩ := step_vault hs
    intro key ⟨r, hr, hlive, hkey⟩
    rw [hbucket]
    rw [hdb] at hr
    rcases claimed_commit hr hlive hkey with ⟨q, hq, _, hqlive, hqkey⟩ | ⟨⟨b, hb, hclaims⟩, hfree⟩
    · exact hp key ⟨q, hq, hqlive, hqkey⟩
    · exact hok (r.id, key) (Option.bind_eq_some_iff.mpr ⟨b, hb, hclaims⟩) hfree
  | run r m =>
    obtain ⟨job, hjob, _, rfl⟩ := step_run hs
    have haction : s.action r m = some (job.action VAULT_BLOBS m s.vault.db) := by
      rw [action, hjob]; rfl
    have hitems := @items_run quota (job.action VAULT_BLOBS m s.vault.db) m s.vault.db s.bucket
    intro key ⟨q, hq, hlive, hkey⟩
    have hclaimed : s.Claimed key := ⟨q, hitems ▸ hq, hlive, hkey⟩
    have hthere := hp key hclaimed
    rw [InStep, haction] at hok
    show (((job.action VAULT_BLOBS m s.vault.db).run VAULT_BLOBS quota m ⟨s.vault.db,
      s.bucket⟩).bucket key).isSome = true
    cases hact : job.action VAULT_BLOBS m s.vault.db with
    | clear keys =>
      obtain ⟨u, hu, hk, hulive⟩ := hsound.held key hclaimed
      rw [hact] at hok
      have hnot : key ∉ keys := fun hmem => hulive (hok keys rfl u hu (hk ▸ hmem) (hk ▸ hthere))
      simpa [BlobAction.run, BlobDb.deleteObjects, hnot] using hthere
    | transfer request => exact BlobStore.isSome_transferred hthere
    | reserve request =>
      simp only [BlobAction.run, BlobStore.reserveBlob]
      split_ifs <;> exact hthere
    | _ => exact hthere

/-- In every such run each live item with content has a row that is not reserved and an
object, and no two live items have the same content. -/
theorem content_kept (h : Runs.ReachableVia (step quota) InStep new s) :
    (∀ r ∈ s.vault.db.items, r.live = true → ∀ key, r.blobKey = some key → s.Held key ∧
      (s.bucket key).isSome = true) ∧
      ∀ r ∈ s.vault.db.items, ∀ q ∈ s.vault.db.items, r.live = true → q.live = true →
        ∀ key, r.blobKey = some key → q.blobKey = some key → r = q := by
  have hall : s.Sound ∧ s.Present := by
    refine h.invariant (I := fun s => s.Sound ∧ s.Present) ⟨sound_new, ?_⟩ fun s e t hI hok hs => ?_
    · exact fun _ ⟨_, hr, _⟩ => (Table.not_mem_empty hr).elim
    · exact ⟨hI.1.step hs, present_step hI.1 hI.2 hok hs⟩
  refine ⟨fun r hr hlive key hkey => ?_, hall.1.unshared⟩
  have hclaimed : s.Claimed key := ⟨r, hr, hlive, hkey⟩
  exact ⟨hall.1.held key hclaimed, hall.2 key hclaimed⟩

/-- A whole upload. -/
def uploads (r : RequestId) (key : FileKey) : List ContentEvent :=
  .start r (.upload ⟨key, 6⟩ .admitted) :: List.replicate 3 (.run r ⟨12, .stored 6, 0, 1, none⟩)

/-- So many awaits of a clean-up. -/
def cleans (r : RequestId) (awaits : ℕ) : List ContentEvent :=
  List.replicate awaits (.run r ⟨12, .stored 6, 0, 1, none⟩)

/-- A whole request for a file with this content. -/
def creates (key : FileKey) : List ContentEvent :=
  .vault (.receive
    (.create ⟨7, .file, none, some INITIAL_KEY_EPOCH, ⟨0, 0, (7, .file), .named ""⟩, 0,
      some key⟩)) ::
    List.replicate 5 (.vault (.run 0 [] false))

theorem content_kept_created :
    ∃ s : ContentServer,
    s.vault.db.items.exist (fun r => decide (r.blobKey = some 1) && r.live) = true ∧
    s.Held 1 ∧ (s.bucket 1).isSome = true := by
  have hrun : (Runs.replayVia (step 100) InStep new (uploads 0 1 ++ creates 1)).any (fun s =>
      s.vault.db.items.exist fun r => decide (r.blobKey = some 1) && r.live) = true := by
        decide +kernel
  obtain ⟨s, hs, hitem⟩ := (Option.any_eq_true _ _).mp hrun
  obtain ⟨r, hr, hcontent⟩ := Table.exist_iff.mp hitem
  simp only [Bool.and_eq_true, decide_eq_true_eq] at hcontent
  exact ⟨s, hitem,
    (content_kept (Runs.reachableVia_of_replayVia hs)).1 r hr hcontent.2 1 hcontent.1⟩

/-- Both have reserved the row when one deletes object and row. The key is uploaded again
and claimed, and then the other deletes the object. -/
def deletedLate : List ContentEvent :=
  uploads 0 1 ++ [.start 1 (.delete (.starting [1])), .start 2 (.delete (.starting [1]))] ++
    cleans 1 1 ++ cleans 2 1 ++
    cleans 1 2 ++ uploads 3 1 ++ creates 1 ++ cleans 2 1

theorem content_lost : ∃ s, Runs.Reachable (step 100) new s ∧
    (∃ r ∈ s.vault.db.items, r.live = true ∧ r.blobKey = some 1) ∧ s.bucket 1 = none := by
  have hrun : (Runs.replay (step 100) new deletedLate).any (fun s => decide
      ((∃ r ∈ s.vault.db.items, r.live = true ∧ r.blobKey = some 1) ∧ s.bucket 1 = none)) =
        true := by decide +kernel
  exact Runs.exists_reachable_of_replay hrun

end ContentServer
end SendSelf
