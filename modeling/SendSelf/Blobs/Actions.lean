import SendSelf.Blobs.Store

/-!
# What a job of a store does next

The deletions of an upload that is discarded, of a call and of a sweep are the same three
statements, so a job's next await is told by one action, and every fact about the store
goes by cases on it. A job covers a key as long as it is still to count its object or to
delete it.
-/
namespace SendSelf

inductive BlobAction where
  | nothing
  | reserve (request : BlobUpload)
  | transfer (request : BlobUpload)
  | record (request : BlobUpload) (size : ℕ)
  | forget (keys : List FileKey)
  | mark (keys : List FileKey)
  | clear (keys : List FileKey)
  | drop (keys : List FileKey)
deriving DecidableEq, Repr

namespace BlobAction

variable {δ : Type} (store : BlobStore δ)

def run (quota : ℕ) (m : BlobMoment) (s : BlobDb δ) : BlobAction → BlobDb δ
  | .nothing => s
  | .reserve request => (store.reserveBlob request.key request.length quota m.now s).getD s
  | .transfer request => receiveBlob.transferred request.key m s
  | .record request size => store.recordBlob request.key size m.now s
  | .forget keys => store.forgetBlobs keys s
  | .mark keys => store.reserveForDeletion keys s
  | .clear keys => s.deleteObjects keys
  | .drop keys => store.dropReserved keys s

end BlobAction

/-- The objects that the action deletes. -/
def BlobAction.clears : BlobAction → Option (List FileKey)
  | .clear keys => some keys
  | _ => none

def Removal.action {δ : Type} (store : BlobStore δ) (m : BlobMoment) : Removal → BlobAction
  | .starting keys =>
      if m.throws then .nothing else if store.expires then .forget keys else .mark
        (keys.take SWEEP_BATCH_SIZE)
  | .objects keys _ => .clear (m.cleared keys)
  | .rows keys _ => if m.throws then .nothing else .drop keys
  | .done => .nothing

/-- The keys whose object is still there, as far as the deletion knows. -/
def Removal.left : Removal → List FileKey
  | .starting keys => keys
  | .objects keys rest => keys ++ rest
  | .rows _ rest => rest
  | .done => []

/-- The keys whose object goes next. -/
def Removal.doomed : Removal → List FileKey
  | .objects keys _ => keys
  | _ => []

/-- The keys whose object it has deleted, and whose row goes next. -/
def Removal.dropped : Removal → List FileKey
  | .rows keys _ => keys
  | _ => []

namespace BlobJob

variable {δ : Type} (store : BlobStore δ)

def action (m : BlobMoment) (db : δ) : BlobJob → BlobAction
  | .upload request .admitted => if m.throws then .nothing else .reserve request
  | .upload request .writing => .transfer request
  | .upload _ (.discarding removal _ _) => removal.action store m
  | .upload request (.recording size) => if m.throws then .nothing else .record request size
  | .upload _ (.answered _) => .nothing
  | .delete removal => removal.action store m
  | .sweep olderThan .selecting =>
      if m.throws = false ∧ store.expires = true ∧ store.orphans olderThan m.share db ≠ [] then
        .forget (store.orphans olderThan m.share db)
      else .nothing
  | .sweep _ (.removing removal) => removal.action store m
  | .sweep _ .done => .nothing

/-- The keys whose object the job is still to count or to delete. A discarded upload may
have left its object behind; the object of any other key that is to be deleted is no
concern of the job's before its row is reserved. -/
def covers : BlobJob → List FileKey
  | .upload request (.recording _) => [request.key]
  | .upload _ (.discarding removal _ _) => removal.left
  | .delete removal | .sweep _ (.removing removal) => removal.doomed
  | _ => []

/-- The keys whose object a deletion of the job's has deleted, and whose row goes next. -/
def dropped (job : BlobJob) : List FileKey := job.removal.elim [] Removal.dropped

variable {store} {quota : ℕ} {e : ApiError} {m : BlobMoment} {s : BlobDb δ}

theorem deleteBlobs.next_action (removal : Removal) :
    (deleteBlobs.next store m s removal).1 = (removal.action store m).run store quota m s := by
  cases removal with
  | starting keys =>
    simp only [deleteBlobs.next, Removal.action]
    split_ifs <;> rfl
  | objects keys rest => rfl
  | rows keys rest =>
    simp only [deleteBlobs.next, Removal.action]
    split_ifs <;> rfl
  | done => rfl

/-- The job's next step is its action. -/
theorem next_action (job : BlobJob) :
    (job.next store quota e m s).1 = (job.action store m s.db).run store quota m s := by
  cases job with
  | upload request stage =>
    cases stage with
    | admitted =>
      simp only [next, receiveBlob.next, action]
      split_ifs
      · rfl
      · simp only [BlobAction.run]
        cases store.reserveBlob request.key request.length quota m.now s <;> rfl
    | discarding removal error thrown => exact deleteBlobs.next_action removal
    | writing => rfl
    | recording size =>
      simp only [next, receiveBlob.next, action]
      split_ifs <;> rfl
    | answered a => rfl
  | delete removal => exact deleteBlobs.next_action removal
  | sweep olderThan stage =>
    cases stage with
    | selecting =>
      simp only [next, purgeOrphans.next, action]
      cases hthrows : m.throws with
      | true => simp [BlobAction.run]
      | false =>
        cases h : store.orphans olderThan m.share s.db with
        | nil => simp [BlobAction.run]
        | cons key keys => cases hexp : store.expires <;> simp [BlobAction.run]
    | removing removal => exact deleteBlobs.next_action removal
    | done => rfl

end BlobJob

theorem BlobMoment.cleared_of_returns {m : BlobMoment} (hm : m.throws = false)
    (keys : List FileKey) :
    m.cleared keys = keys := by
  have hnone : m.thrown = none := by simpa [BlobMoment.throws] using hm
  rw [BlobMoment.cleared, hnone]
  rfl

theorem BlobMoment.mem_of_mem_cleared {m : BlobMoment} {keys : List FileKey} {key : FileKey}
    (h : key ∈ m.cleared keys) : key ∈ keys := by
  unfold BlobMoment.cleared at h
  cases hm : m.thrown with
  | none =>
    rw [hm] at h
    exact h
  | some gone =>
    rw [hm] at h
    exact (List.mem_filter.mp h).1

theorem Removal.left_again (keys : List FileKey) :
    (Removal.again keys).left = keys := by cases keys <;> rfl

theorem Removal.doomed_again (keys : List FileKey) :
    (Removal.again keys).doomed = [] := by cases keys <;> rfl

theorem Removal.dropped_again (keys : List FileKey) :
    (Removal.again keys).dropped = [] := by cases keys <;> rfl

namespace deleteBlobs

variable {reserved rest : List FileKey}

theorem left_afterReserving : (afterReserving reserved rest).left = reserved ++ rest := by
  unfold afterReserving
  split_ifs with hnone
  · rw [hnone, Removal.left_again]
    rfl
  · rfl

theorem doomed_afterReserving : (afterReserving reserved rest).doomed = reserved := by
  unfold afterReserving
  split_ifs with hnone
  · rw [hnone, Removal.doomed_again]
  · rfl

theorem dropped_afterReserving : (afterReserving reserved rest).dropped = [] := by
  unfold afterReserving
  split_ifs
  · exact Removal.dropped_again _
  · rfl

variable {δ : Type} {store : BlobStore δ} {m : BlobMoment} {s : BlobDb δ} {keys : List FileKey}

/-- A batch is reserved, unless that throws. -/
theorem next_starting (hstore : store.expires = false) (hm : m.throws = false) :
    next store m s (.starting keys) = (store.reserveForDeletion (keys.take SWEEP_BATCH_SIZE) s,
      afterReserving (store.reservable s.db (keys.take SWEEP_BATCH_SIZE))
        (keys.drop SWEEP_BATCH_SIZE)) := by
  simp [next, hm, hstore]

theorem action_starting (hstore : store.expires = false) (hm : m.throws = false) :
    (Removal.starting keys).action store m = .mark (keys.take SWEEP_BATCH_SIZE) := by
  simp [Removal.action, hm, hstore]

/-- What throws is over. -/
theorem next_of_throws (hm : m.throws = true) (removal : Removal) :
    (next store m s removal).2 = .done := by
  cases removal <;> simp [next, hm]

/-- A row is dropped only after its object was deleted. -/
theorem mem_dropped_next {removal : Removal} {key : FileKey}
    (h : key ∈ (next store m s removal).2.dropped) :
    ∃ keys, removal.action store m = .clear keys ∧ key ∈ keys := by
  cases removal with
  | starting keys =>
    simp only [next] at h
    split_ifs at h
    · cases h
    · cases h
    · rw [dropped_afterReserving] at h
      cases h
  | objects keys rest =>
    simp only [next] at h
    split_ifs at h with hends
    · cases h
    · simp only [Bool.or_eq_true, not_or, Bool.not_eq_true] at hends
      refine ⟨_, rfl, ?_⟩
      rw [BlobMoment.cleared_of_returns hends.1]
      exact h
  | rows keys rest =>
    simp only [next] at h
    split_ifs at h
    · cases h
    · rw [Removal.dropped_again] at h
      cases h
  | done => cases h

end deleteBlobs

/-- The size a key is counted with. -/
def counted (key : FileKey) (rows : Table UploadRow.r2Key) : ℕ :=
  ((rows.get? key).map UploadRow.size).getD 0

/-- A writable row ends up with the larger size. -/
theorem get?_upsertUpload {key : FileKey} (size now : ℕ) {rows : Table UploadRow.r2Key}
    (hw : writable key rows = true) :
    (upsertUpload key size now rows).get? key = some ⟨key, max size (counted key rows), now⟩ := by
  simp only [writable, Table.every_iff, Bool.or_eq_true, decide_eq_true_eq] at hw
  unfold upsertUpload Table.upsert
  cases h : rows.insert ⟨key, size, now⟩ with
  | none =>
    obtain ⟨u, hu, hk⟩ := Table.insert_eq_none.mp h
    have hget : rows.get? key = some u := Table.get?_eq_some.mpr ⟨hu, hk⟩
    have hlive : u.createdAt ≠ RESERVED_FOR_DELETION := (hw u hu).resolve_left (absurd hk)
    have hk' : u.r2Key = key := hk
    simp [Table.get?_update, hget, hk', hlive, counted, max_comm]
  | some rows' =>
    have hfree : rows.get? key = none := Table.get?_eq_none.mpr (Table.insert_eq_some h).2
    simp [Table.get?_insert h, hfree, counted]

/-- Rows that a write of a key keeps, or raises. -/
theorem upsertUpload_keeps {rows : Table UploadRow.r2Key} {key : FileKey} {size now : ℕ}
    {u : UploadRow} (hnow : now ≠ RESERVED_FOR_DELETION)
    (hu : u ∈ rows) : ∃ v ∈ upsertUpload key size now rows, v.r2Key = u.r2Key ∧ u.size ≤ v.size ∧
      (u.createdAt ≠ RESERVED_FOR_DELETION → v.createdAt ≠ RESERVED_FOR_DELETION) := by
  unfold upsertUpload Table.upsert
  cases h : rows.insert ⟨key, size, now⟩ with
  | none =>
    rw [Option.getD_none]
    refine ⟨_, Table.update_mem hu, ?_⟩
    split_ifs
    · exact ⟨rfl, le_max_left _ _, fun _ => hnow⟩
    · exact ⟨rfl, le_rfl, fun hlive => hlive⟩
  | some rows' =>
    exact ⟨u, ((Table.insert_eq_some h).1 u).mpr (Or.inl hu), rfl, le_rfl, fun hlive => hlive⟩

namespace BlobStore

variable {δ : Type} {store : BlobStore δ} {quota : ℕ} {m : BlobMoment} {s : BlobDb δ}

theorem rows_reserveBlob {key : FileKey} {size now : ℕ} :
    store.rows ((store.reserveBlob key size quota now s).getD s).db =
      if bytesWith key size (store.rows s.db) ≤ quota ∧ writable key (store.rows s.db) = true then
        upsertUpload key size now (store.rows s.db)
      else store.rows s.db := by
  unfold reserveBlob
  split_ifs
  · exact store.rows_withRows _ _
  · rfl

theorem rows_recordBlob {key : FileKey} {size now : ℕ} :
    store.rows (store.recordBlob key size now s).db = upsertUpload key size now (store.rows s.db) :=
  store.rows_withRows _ _

theorem rows_forgetBlobs {keys : List FileKey} : store.rows (store.forgetBlobs keys s).db =
    (store.rows s.db).delete fun u => decide (u.r2Key ∈ keys) := store.rows_withRows _ _

theorem rows_reserveForDeletion {keys : List FileKey} :
    store.rows (store.reserveForDeletion keys s).db =
    (store.rows s.db).update (fun u => decide (u.r2Key ∈ keys) && !store.claimed s.db u.r2Key)
      (fun u => { u with createdAt := RESERVED_FOR_DELETION }) (fun _ => rfl) :=
  store.rows_withRows _ _

/-- The statement returns every row that it reserves. -/
theorem mem_reserveForDeletion {keys : List FileKey} {u : UploadRow} (hu : u ∈ store.rows s.db)
    (h : u.r2Key ∉ store.reservable s.db keys) :
    u ∈ store.rows (store.reserveForDeletion keys s).db := by
  rw [rows_reserveForDeletion]
  refine Table.mem_update.mpr ⟨u, hu, (if_neg fun hhit => h ?_).symm⟩
  simp only [Bool.and_eq_true, decide_eq_true_eq, Bool.not_eq_true'] at hhit
  refine List.mem_filter.mpr ⟨hhit.1, ?_⟩
  rw [Bool.and_eq_true, Table.exist_iff, Bool.not_eq_true']
  exact ⟨⟨u, hu, decide_eq_true rfl⟩, hhit.2⟩

theorem rows_dropReserved {keys : List FileKey} : store.rows (store.dropReserved keys s).db =
    (store.rows s.db).delete fun u =>
      decide (u.r2Key ∈ keys) && decide (u.createdAt = RESERVED_FOR_DELETION) :=
  store.rows_withRows _ _

theorem db_transferred {key : FileKey} : (receiveBlob.transferred key m s).db = s.db := by
  unfold receiveBlob.transferred
  split <;> rfl

theorem isSome_transferred {key k : FileKey} (h : (s.bucket k).isSome = true) :
    ((receiveBlob.transferred key m s).bucket k).isSome = true := by
  have hput : ∀ size, ((s.put key size).bucket k).isSome = true := by
    intro size
    by_cases hk : k = key
    · simp [BlobDb.put, hk]
    · simpa [BlobDb.put, Function.update_of_ne hk] using h
  unfold receiveBlob.transferred
  split
  · exact hput _
  · exact hput _
  · exact hput _
  · exact h
  · exact h

theorem bucket_transferred {key k : FileKey} (h : k ≠ key) :
    (receiveBlob.transferred key m s).bucket k = s.bucket k := by
  unfold receiveBlob.transferred
  split
  · exact Function.update_of_ne h _ _
  · exact Function.update_of_ne h _ _
  · exact Function.update_of_ne h _ _
  · rfl
  · rfl

end BlobStore
end SendSelf
