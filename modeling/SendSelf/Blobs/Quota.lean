import SendSelf.Blobs.Actions
import SendSelf.Files.FileServer
import SendSelf.Library.Recording
import Mathlib.Algebra.Order.BigOperators.Group.List
import Mathlib.Algebra.Order.Group.Nat

/-!
# What a space is charged for

`reserveBlob` counts a key at its largest size, and compares what all keys come to with
the quota. `recordBlob` counts a blob again without comparing anything: its bytes were
admitted once, and the row may have gone while they were being written. The rows that
reservations wrote never come to more than the quota, and what was uploaded stays
counted until a deletion of it begins.
-/
namespace SendSelf

/-- What the rows of these keys come to. -/
def weight (p : FileKey → Bool) (rows : Table UploadRow.r2Key) : ℕ :=
  ((rows.select fun u => p u.r2Key).map UploadRow.size).sum

theorem weight_mono {p q : FileKey → Bool} (rows : Table UploadRow.r2Key)
    (h : ∀ key, p key = true → q key = true) :
    weight p rows ≤ weight q rows := by
  have hsub : (rows.select fun u => p u.r2Key).Sublist (rows.select fun u => q u.r2Key) :=
    List.monotone_filter_right rows.rows fun u hu => h u.r2Key hu
  exact (hsub.map UploadRow.size).sum_le_sum fun _ _ => Nat.zero_le _

theorem weight_delete_le {p : FileKey → Bool} {rows : Table UploadRow.r2Key}
    {q : UploadRow → Bool} :
    weight p (rows.delete q) ≤ weight p rows := by
  have hsub :
      ((rows.delete q).select fun u => p u.r2Key).Sublist (rows.select fun u => p u.r2Key) :=
    List.Sublist.filter _ List.filter_sublist
  exact (hsub.map UploadRow.size).sum_le_sum fun _ _ => Nat.zero_le _

/-- An update that keeps the sizes keeps the sum. -/
theorem weight_update {p : FileKey → Bool} {rows : Table UploadRow.r2Key} {q : UploadRow → Bool}
    {f : UploadRow → UploadRow} (hf : ∀ u, (f u).r2Key = u.r2Key)
    (hsize : ∀ u ∈ rows, q u = true → p u.r2Key = true → (f u).size = u.size) :
    weight p (rows.update q f hf) = weight p rows := by
  obtain ⟨us, hnodup⟩ := rows
  simp only [weight, Table.select, Table.update, Table.mem_def] at hsize ⊢
  clear hnodup
  induction us with
  | nil => rfl
  | cons u us ih =>
    have hkey : (if q u = true then f u else u).r2Key = u.r2Key := by split_ifs <;> simp [hf]
    have htail := ih fun v hv => hsize v (List.mem_cons_of_mem _ hv)
    simp only [List.map_cons, List.filter_cons, hkey]
    by_cases hp : p u.r2Key = true
    · have hhead : (if q u = true then f u else u).size = u.size := by
        split_ifs with hq
        · exact hsize u List.mem_cons_self hq hp
        · rfl
      simp only [hp, if_true, List.map_cons, List.sum_cons, hhead, htail]
    · simp only [hp, Bool.false_eq_true, if_false, htail]

/-- All the rows come to those of the other keys and the key's own. -/
theorem weight_split (key : FileKey) (rows : Table UploadRow.r2Key) :
    weight (fun _ => true) rows = weight (fun k => decide (k ≠ key)) rows + counted key rows := by
  obtain ⟨us, hnodup⟩ := rows
  simp only [weight, counted, Table.select, Table.get?, Table.first]
  induction us with
  | nil => rfl
  | cons u us ih =>
    obtain ⟨hnew, htail⟩ := List.nodup_cons.mp hnodup
    have hrest := ih htail
    by_cases hk : u.r2Key = key
    · have hnone : us.find? (fun v => decide (v.r2Key = key)) = none := by
        refine List.find?_eq_none.mpr fun v hv he => hnew ?_
        exact List.mem_map.mpr ⟨v, hv, (of_decide_eq_true he).trans hk.symm⟩
      simp only [hnone, Option.map_none, Option.getD_none] at hrest
      simp only [List.filter_cons, List.find?_cons, hk, List.map_cons, List.sum_cons, decide_true,
        if_true, hrest,
        Option.map_some, Option.getD_some]
      simp
      omega
    · simp only [List.filter_cons, List.find?_cons, hk, List.map_cons, List.sum_cons, decide_false,
        if_true, hrest]
      simp [hk]
      omega

theorem bytesWith_eq (key : FileKey) (size : ℕ) (rows : Table UploadRow.r2Key) :
    bytesWith key size rows = weight (fun k => decide (k ≠ key)) rows +
      max size (counted key rows) := rfl

/-- Writing a key's row leaves what the others come to. -/
theorem weight_upsertUpload {p : FileKey → Bool} {key : FileKey} {size now : ℕ}
    {rows : Table UploadRow.r2Key}
    (hp : p key = false) : weight p (upsertUpload key size now rows) = weight p rows := by
  unfold upsertUpload Table.upsert
  cases h : rows.insert ⟨key, size, now⟩ with
  | none =>
    rw [Option.getD_none, weight_update]
    intro u _ hu hpu
    simp only [Bool.and_eq_true, decide_eq_true_eq] at hu
    rw [hu.1, hp] at hpu
    cases hpu
  | some rows' =>
    simp [weight, Table.select, Table.insert_rows h, hp]

/-- What has been charged without a check, and what is to stay charged. -/
structure Charges where
  /-- Keys that `recordBlob` counted when it found no row of that size. -/
  restored : List FileKey
  /-- What was uploaded and recorded, and no deletion of it has begun since. -/
  kept : List (FileKey × ℕ)

namespace Charges

def none : Charges := ⟨[], []⟩

variable {δ : Type} (store : BlobStore δ) (quota : ℕ) (m : BlobMoment) (s : BlobDb δ)

/-- A deletion begins where it drops the rows of a store that expires, and where it
reserves those of one that does not. -/
def after (h : Charges) : BlobAction → Charges
  | .reserve request =>
      if (store.reserveBlob request.key request.length quota m.now s).isSome then
        { h with restored := h.restored.filter fun key => decide (key ≠ request.key) }
      else h
  | .record request size => {
      restored := if size ≤ counted request.key (store.rows s.db) then h.restored
        else request.key :: h.restored
      kept := if writable request.key (store.rows s.db) then (request.key,
        size) :: h.kept else h.kept }
  | .forget keys => { h with kept := h.kept.filter fun b => decide (b.1 ∉ keys) }
  | .mark keys =>
      { h with kept := h.kept.filter fun b => decide (b.1 ∉ store.reservable s.db keys) }
  | _ => h

/-- Every size in `rows` that was admitted, and every upload that is to be counted. -/
structure Hold (rows : Table UploadRow.r2Key) (h : Charges) : Prop where
  admitted : weight (fun key => decide (key ∉ h.restored)) rows ≤ quota
  kept : ∀ b ∈ h.kept, ∃ u ∈ rows, u.r2Key = b.1 ∧ b.2 ≤ u.size ∧
    u.createdAt ≠ RESERVED_FOR_DELETION

end Charges

def BlobServer.charge {δ : Type} (store : BlobStore δ) (quota : BlobQuota) (s : BlobServer δ)
    (e : BlobEvent δ) (_ : BlobServer δ) (h : Charges) : Charges :=
  match e with
  | .run r m => (s.jobs r).elim h fun job =>
      h.after store quota.bytes m s.data (job.action store m s.data.db)
  | _ => h

namespace Charges

variable {δ : Type} {store : BlobStore δ} {quota : ℕ} {m : BlobMoment} {s : BlobDb δ} {h : Charges}
  {rows : Table UploadRow.r2Key}

theorem Hold.mono (hh : Hold quota rows h) {p : FileKey → Bool}
    (hp : ∀ key, p key = true → key ∉ h.restored) :
    weight p rows ≤ quota :=
  (weight_mono rows fun key hk => decide_eq_true (hp key hk)).trans hh.admitted

theorem Hold.reserved (hh : Hold quota rows h) {key : FileKey} {size now : ℕ}
    (hnow : now ≠ RESERVED_FOR_DELETION)
    (hfit : bytesWith key size rows ≤ quota) (hw : writable key rows = true) :
    Hold quota (upsertUpload key size now rows) { h with
      restored := h.restored.filter fun k => decide (k ≠ key) } where
  admitted := calc
    weight _ (upsertUpload key size now rows) ≤
      weight (fun _ => true) (upsertUpload key size now rows) :=
      weight_mono _ fun _ _ => rfl
    _ = weight (fun k => decide (k ≠ key)) rows + max size (counted key rows) := by
      rw [weight_split key, weight_upsertUpload (by simp)]
      rw [counted, get?_upsertUpload size now hw]
      rfl
    _ ≤ quota := (bytesWith_eq key size rows) ▸ hfit
  kept := by
    intro b hb
    obtain ⟨u, hu, hk, hsize, hlive⟩ := hh.kept b hb
    obtain ⟨v, hv, hvk, hvsize, hvlive⟩ := upsertUpload_keeps hnow hu
    exact ⟨v, hv, hvk.trans hk, hsize.trans hvsize, hvlive hlive⟩

/-- A key that has a row of the size stays as it is charged; any other is restored. -/
theorem Hold.recorded (hh : Hold quota rows h) {key : FileKey} {size now : ℕ}
    (hnow : now ≠ RESERVED_FOR_DELETION) :
    Hold quota (upsertUpload key size now rows) {
      restored := if size ≤ counted key rows then h.restored else key :: h.restored
      kept := if writable key rows then (key, size) :: h.kept else h.kept } where
  admitted := by
    dsimp only
    split_ifs with hfits
    · suffices hsame : weight (fun k => decide (k ∉ h.restored)) (upsertUpload key size now rows) =
          weight (fun k => decide (k ∉ h.restored)) rows from hsame ▸ hh.admitted
      unfold upsertUpload Table.upsert
      cases hins : rows.insert ⟨key, size, now⟩ with
      | none =>
        rw [Option.getD_none, weight_update]
        intro u hu hhit _
        simp only [Bool.and_eq_true, decide_eq_true_eq] at hhit
        have hget : rows.get? key = some u := Table.get?_eq_some.mpr ⟨hu, hhit.1⟩
        rw [counted, hget] at hfits
        exact max_eq_left hfits
      | some rows' =>
        have hfree : rows.get? key = .none := Table.get?_eq_none.mpr (Table.insert_eq_some hins).2
        rw [counted, hfree] at hfits
        have hzero : size = 0 := Nat.le_zero.mp hfits
        simp only [Option.getD_some, weight, Table.select, Table.insert_rows hins, hzero,
          List.filter_append,
          List.map_append, List.sum_append, List.filter_cons, List.filter_nil]
        split_ifs <;> simp
    · rw [weight_upsertUpload (by simp)]
      exact hh.mono fun k hk hmem =>
        (of_decide_eq_true hk : k ∉ key :: h.restored) (List.mem_cons_of_mem _ hmem)
  kept := by
    have hold : ∀ b ∈ h.kept, ∃ u ∈ upsertUpload key size now rows, u.r2Key = b.1 ∧ b.2 ≤ u.size ∧
        u.createdAt ≠ RESERVED_FOR_DELETION := by
      intro b hb
      obtain ⟨u, hu, hk, hsize, hlive⟩ := hh.kept b hb
      obtain ⟨v, hv, hvk, hvsize, hvlive⟩ := upsertUpload_keeps hnow hu
      exact ⟨v, hv, hvk.trans hk, hsize.trans hvsize, hvlive hlive⟩
    intro b hb
    dsimp only at hb
    split_ifs at hb with hw
    · rcases List.mem_cons.mp hb with rfl | hb
      · obtain ⟨hmem, hkey⟩ := Table.get?_eq_some.mp (get?_upsertUpload size now hw)
        exact ⟨_, hmem, hkey, le_max_left _ _, hnow⟩
      · exact hold b hb
    · exact hold b hb

/-- Rows go, and what is kept is not among them. -/
theorem Hold.deleted (hh : Hold quota rows h) {q : UploadRow → Bool} {kept : List (FileKey × ℕ)}
    (hsub : kept ⊆ h.kept)
    (hq : ∀ b ∈ kept, ∀ u ∈ rows, u.r2Key = b.1 → u.createdAt ≠ RESERVED_FOR_DELETION →
      q u = false) :
    Hold quota (rows.delete q) { h with kept } where
  admitted := weight_delete_le.trans hh.admitted
  kept := by
    intro b hb
    obtain ⟨u, hu, hk, hsize, hlive⟩ := hh.kept b (hsub hb)
    exact ⟨u, Table.mem_delete.mpr ⟨hu, hq b hb u hu hk hlive⟩, hk, hsize, hlive⟩

theorem Hold.run (hh : Hold quota (store.rows s.db) h) (hnow : m.now ≠ RESERVED_FOR_DELETION)
    (action : BlobAction) :
    Hold quota (store.rows (action.run store quota m s).db) (h.after store quota m s action) := by
  cases action with
  | nothing => exact hh
  | reserve request =>
    rw [BlobAction.run, BlobStore.rows_reserveBlob, after]
    split_ifs with hfit hsome hsome
    · exact hh.reserved hnow hfit.1 hfit.2
    · simp [BlobStore.reserveBlob, hfit] at hsome
    · simp [BlobStore.reserveBlob, hfit] at hsome
    · exact hh
  | transfer request =>
    rw [BlobAction.run, BlobStore.db_transferred]
    exact hh
  | record request size =>
    rw [BlobAction.run, BlobStore.rows_recordBlob]
    exact hh.recorded hnow
  | forget keys =>
    rw [BlobAction.run, BlobStore.rows_forgetBlobs]
    refine hh.deleted (List.filter_subset_self _) fun b hb u _ hk _ => ?_
    have hnot := of_decide_eq_true (List.mem_filter.mp hb).2
    exact decide_eq_false (hk ▸ hnot)
  | mark keys =>
    refine ⟨?_, fun b hb => ?_⟩
    · rw [BlobAction.run, BlobStore.rows_reserveForDeletion, weight_update]
      · exact hh.admitted
      · exact fun _ _ _ _ => rfl
    · obtain ⟨hb, hnot⟩ := List.mem_filter.mp hb
      obtain ⟨u, hu, hk, hsize, hlive⟩ := hh.kept b hb
      exact ⟨u, BlobStore.mem_reserveForDeletion hu (hk ▸ of_decide_eq_true hnot), hk, hsize, hlive⟩
  | clear keys => exact hh
  | drop keys =>
    rw [BlobAction.run, BlobStore.rows_dropReserved]
    exact hh.deleted (fun _ hb => hb) fun b _ u _ _ hlive => by simp [hlive]

end Charges

section Runs

variable {δ : Type} {store : BlobStore δ} {quota : BlobQuota}

theorem Charges.Hold.step {s t : BlobServer δ} {h : Charges} {e : BlobEvent δ}
    (hh : Hold quota.bytes (store.rows s.data.db) h) (hs : s.step store quota e = some t) :
    Hold quota.bytes (store.rows t.data.db) (s.charge store quota e t h) := by
  cases e with
  | start r job =>
    simp only [BlobServer.step, BlobServer.start] at hs
    split_ifs at hs
    obtain rfl := Option.some.inj hs
    exact hh
  | run r m =>
    simp only [BlobServer.step, BlobServer.run] at hs
    split_ifs at hs with hnow
    obtain ⟨job, hjob, rfl⟩ := Option.map_eq_some_iff.mp hs
    simp only [BlobServer.charge, hjob, Option.elim_some, BlobJob.next_action]
    exact hh.run hnow _
  | write db =>
    simp only [BlobServer.step] at hs
    split_ifs at hs with hrows
    obtain rfl := Option.some.inj hs
    show Hold quota.bytes (store.rows db) h
    rw [hrows]
    exact hh

/-- In every run of a store, the rows that reservations wrote come to at most the quota, and
what was uploaded and recorded is counted with its size until a deletion of it begins. -/
theorem quota_kept (store : BlobStore δ) (quota : BlobQuota) (db : δ) {s : BlobServer δ × Charges}
    (h : Runs.Reachable
      (Runs.recorded (BlobServer.step store quota) (BlobServer.charge store quota))
      (.new (store.withRows db .empty), .none) s) :
    (((store.rows s.1.data.db).select fun u => decide (u.r2Key ∉ s.2.restored)).map
      UploadRow.size).sum ≤ quota.bytes ∧
      ∀ b ∈ s.2.kept, ∃ u ∈ store.rows s.1.data.db, u.r2Key = b.1 ∧ b.2 ≤ u.size := by
  have hnew : Charges.Hold quota.bytes (store.rows (store.withRows db .empty)) .none := by
    rw [store.rows_withRows]
    exact ⟨Nat.zero_le _, fun _ hb => (nomatch hb)⟩
  have hhold :=
    h.recorded_invariant (I := fun s h => Charges.Hold quota.bytes (store.rows s.data.db) h) hnew
    fun s h e t hh _ hs => hh.step hs
  refine ⟨hhold.admitted, fun b hb => ?_⟩
  obtain ⟨u, hu, hk, hsize, _⟩ := hhold.kept b hb
  exact ⟨u, hu, hk, hsize⟩

end Runs

/-- A step at noon, with this end of a transfer. -/
def atNoon (transfer : Transfer) : BlobMoment := ⟨12, transfer, 0, 1, none⟩

/-- An upload of a key, run to its end. -/
def uploaded (r : RequestId) (key : FileKey) (size : ℕ) : List (BlobEvent FileDb) :=
  [.start r (.upload ⟨key, size⟩ .admitted), .run r (atNoon (.stored size)),
    .run r (atNoon (.stored size)),
    .run r (atNoon (.stored size))]

theorem quota_kept_uploaded : ∃ s : BlobServer FileDb × Charges, (1, 6) ∈ s.2.kept ∧
    ∃ u ∈ s.1.data.db.uploads, u.r2Key = 1 ∧ 6 ≤ u.size := by
  have hrun :
      (Runs.replay
        (Runs.recorded (BlobServer.step MESSAGE_FILES ⟨10, ""⟩)
          (BlobServer.charge MESSAGE_FILES ⟨10, ""⟩))
      (.new (MESSAGE_FILES.withRows FileDb.empty .empty), .none) (uploaded 0 1 6)).any
      (fun s => decide ((1, 6) ∈ s.2.kept)) = true := by decide +kernel
  obtain ⟨s, hs, hkept⟩ := Runs.exists_reachable_of_replay hrun
  exact ⟨s, hkept, (quota_kept MESSAGE_FILES ⟨10, ""⟩ FileDb.empty hs).2 (1, 6) hkept⟩

/-- Two uploads of one key; the second fails and is discarded while the first is being
written, and another key takes the room that this leaves. -/
def restoredLate : List (BlobEvent FileDb) :=
  [.start 0 (.upload ⟨1, 6⟩ .admitted), .run 0 (atNoon (.stored 6)),
    .start 1 (.upload ⟨1, 6⟩ .admitted), .run 1 (atNoon (.stored 6)),
    .run 1 (atNoon (.copyFailed false false)),
    .run 1 (atNoon (.stored 6)), .start 2 (.upload ⟨2, 10⟩ .admitted), .run 2 (atNoon (.stored 10)),
    .run 0 (atNoon (.stored 6)), .run 0 (atNoon (.stored 6))]

/-- An upload, and a deletion that has dropped the row so far. -/
def deletedHalf : List (BlobEvent FileDb) :=
  uploaded 0 1 6 ++ [.start 1 (.delete (.starting [1])), .run 1 (atNoon (.stored 6))]

theorem quota_exceeded_restored :
    (∃ s : BlobServer FileDb,
      Runs.Reachable (BlobServer.step MESSAGE_FILES ⟨10, ""⟩) (.new FileDb.empty) s ∧
      10 < (s.data.db.uploads.rows.map UploadRow.size).sum) ∧
    ∃ s : BlobServer FileDb,
      Runs.Reachable (BlobServer.step MESSAGE_FILES ⟨10, ""⟩) (.new FileDb.empty) s ∧
      s.data.bucket 1 = some 6 ∧ ¬ Accounted s.data.db.uploads 1 := by
  have hrestored :
      (Runs.replay (BlobServer.step MESSAGE_FILES ⟨10, ""⟩) (.new FileDb.empty) restoredLate).any
      (fun s => decide (10 < (s.data.db.uploads.rows.map UploadRow.size).sum)) = true := by
        decide +kernel
  have hdeleted :
      (Runs.replay (BlobServer.step MESSAGE_FILES ⟨10, ""⟩) (.new FileDb.empty) deletedHalf).any
      (fun s => decide (s.data.bucket 1 = some 6 ∧ ¬ Accounted s.data.db.uploads 1)) = true := by
        decide +kernel
  exact ⟨Runs.exists_reachable_of_replay hrestored, Runs.exists_reachable_of_replay hdeleted⟩

end SendSelf
