import SendSelf.Files.FileServer

/-!
# Messages and what is still to be delivered

Most awaits of the handlers leave `messages` and `delivery_status` alone. A batch that
writes them stores a message with a row for each recipient, marks one delivery, or deletes
messages with all their rows.
-/
namespace SendSelf

inductive MessageBatch where
  | insert (auth : AuthContext) (body : SendMessageRequest) (recipients : List DeviceId)
  | mark (id : MessageId) (deviceId : DeviceId)
  | delete (found : List FoundMessage)
deriving DecidableEq, Repr

def MessageBatch.commit (now : ℕ) (batch : MessageBatch) (db : FileDb) : FileDb :=
  match batch with
  | .insert auth body recipients => (sendMessage.finish auth body recipients now db).1
  | .mark id deviceId => ackMessage.mark id deviceId now db
  | .delete found => deleteMessages found db

/-- What the tables are after an optional batch. -/
def MessageBatch.commit? (now : ℕ) (batch : Option MessageBatch) (db : FileDb) : FileDb :=
  batch.elim db fun b => b.commit now db

/-- The batch that a purge commits at its next await. -/
def PurgeStage.messageBatch : PurgeStage → Option MessageBatch
  | .destroying found => some (.delete found)
  | _ => none

/-- The batch that a job commits at its next await. -/
def Job.messageBatch : Job → Option MessageBatch
  | .send _ body (.inserting auth recipients) => some (.insert auth body recipients)
  | .send _ _ (.destroying _ found) | .ack _ _ (.destroying found) => some (.delete found)
  | .ack _ id (.owned auth) => some (.mark id auth.deviceId)
  | .purge _ stage => stage.messageBatch
  | _ => none

/-- Two databases with the same messages and deliveries. -/
structure SameMessages (db db' : FileDb) : Prop where
  messages : db'.messages = db.messages
  deliveryStatus : db'.deliveryStatus = db.deliveryStatus

theorem SameMessages.refl (db : FileDb) : SameMessages db db := ⟨rfl, rfl⟩

theorem purgeMessages.next_messages {m : Moment} {selection : Selection} {db : FileDb}
    {stage : PurgeStage} :
    SameMessages (MessageBatch.commit? m.now stage.messageBatch db)
      (next m selection db stage).1 := by
  cases stage with
  | selecting =>
    simp only [next]
    split <;> exact .refl db
  | destroying found => exact .refl _
  | clearing keys => exact ⟨rfl, rfl⟩
  | done => exact .refl db

/-- A step of a job writes its batch and nothing else. -/
theorem Job.next_messages {m : Moment} {space : SpaceDb} {db : FileDb} {job : Job} :
    SameMessages (MessageBatch.commit? m.now job.messageBatch db) (job.next m space db).1 := by
  cases job with
  | upload token req stage =>
    cases stage with
    | admitted length body =>
      simp only [next, uploadFile.next]
      cases hr : reserveBlob req.r2Key length SPACE_PENDING_BYTES_QUOTA m.now db with
      | none => exact .refl db
      | some db' =>
        unfold reserveBlob at hr
        split_ifs at hr
        obtain rfl := Option.some.inj hr
        exact ⟨rfl, rfl⟩
    | writing body =>
      simp only [next, uploadFile.next, uploadFile.transferred]
      split <;> exact ⟨rfl, rfl⟩
    | _ => exact ⟨rfl, rfl⟩
  | send token body stage =>
    cases stage with
    | targeting auth target =>
      simp only [next, sendMessage.next]
      split <;> exact .refl db
    | _ => exact ⟨rfl, rfl⟩
  | ack token id stage =>
    cases stage with
    | selecting =>
      simp only [next, ackMessage.next]
      split <;> exact .refl db
    | _ => exact ⟨rfl, rfl⟩
  | purge selection stage => exact purgeMessages.next_messages
  | sweep olderThan stage =>
    cases stage with
    | claiming =>
      simp only [next, purgeOrphanBlobs.next]
      split <;> exact ⟨rfl, rfl⟩
    | _ => exact ⟨rfl, rfl⟩

namespace sendMessage

/-- The deliveries that a batch inserts. -/
theorem insertDeliveries_ok {id : MessageId} {ids : List DeviceId} {db db' : FileDb} {ns : List ℕ}
    (h : batch (ids.map (insertDelivery id)) db = .ok (db', ns)) : db'.messages = db.messages ∧
      ∀ r, r ∈ db'.deliveryStatus ↔ r ∈ db.deliveryStatus ∨ ∃ d ∈ ids, r = ⟨id, d, none⟩ := by
  induction ids generalizing db ns with
  | nil =>
    obtain ⟨rfl, _⟩ := (Prod.mk.injEq ..).mp (Except.ok.inj h)
    simp
  | cons i ids ih =>
    obtain ⟨d₁, n, ms, h₁, h₂, _⟩ := batch_cons_ok.mp h
    obtain ⟨hmessages, hrows⟩ := ih h₂
    unfold insertDelivery at h₁
    split at h₁
    · cases h₁
    · next t hins =>
      obtain ⟨rfl, _⟩ := (Prod.mk.injEq ..).mp (Except.ok.inj h₁)
      refine ⟨hmessages, fun r => ?_⟩
      simp only [hrows r, (Table.insert_eq_some hins).1 r, List.exists_mem_cons_iff, or_assoc]

theorem exists?_iff {id : MessageId} {db : FileDb} :
    exists? id db = true ↔ (∃ m ∈ db.messages, m.id = id) ∨ id ∈ db.foreign := by
  simp [exists?]

/-- The batch of a send: the message is new, and is stored with its deliveries; or nothing is. -/
theorem finish_cases {auth : AuthContext} {body : SendMessageRequest}
    {recipients : List DeviceId} {now : ℕ}
    {db : FileDb} : finish auth body recipients now db = (db, .error duplicate) ∨
      ∃ db', finish auth body recipients now db = (db', .ok ()) ∧ exists? body.id db = false ∧
        (∀ m, m ∈ db'.messages ↔ m ∈ db.messages ∨ m = row auth body now) ∧
        ∀ r, r ∈ db'.deliveryStatus ↔ r ∈ db.deliveryStatus ∨ ∃ d ∈ recipients,
          r = ⟨body.id, d, none⟩ := by
  cases hb :
    batch (insertMessage (row auth body now) :: recipients.map (insertDelivery body.id)) db with
  | error e =>
    left
    simp [finish, commit_error hb]
  | ok p =>
    right
    obtain ⟨db', ns⟩ := p
    obtain ⟨d₁, n, ms, h₁, h₂, _⟩ := batch_cons_ok.mp hb
    obtain ⟨hmessages, hrows⟩ := insertDeliveries_ok h₂
    unfold insertMessage at h₁
    split_ifs at h₁ with hforeign
    split at h₁
    · cases h₁
    · next messages hins =>
      obtain ⟨rfl, _⟩ := (Prod.mk.injEq ..).mp (Except.ok.inj h₁)
      obtain ⟨hmem, hnew⟩ := Table.insert_eq_some hins
      refine ⟨db', by
        simp [finish, commit_ok hb], ?_, fun m => by rw [hmessages]; exact hmem m, hrows⟩
      rw [Bool.eq_false_iff, ne_eq, exists?_iff]
      intro hex
      rcases hex with ⟨m, hm, hid⟩ | hid
      · exact hnew m hm hid
      · exact hforeign hid

end sendMessage

theorem mem_deliveries_deleteMessages {found : List FoundMessage} {db : FileDb} {r : DeliveryRow} :
    r ∈ (deleteMessages found db).deliveryStatus ↔ r ∈ db.deliveryStatus ∧
    r.messageId ∉ found.map FoundMessage.id := by
  simp only [deleteMessages, Table.mem_delete, decide_eq_false_iff_not]

theorem ackMessage.mem_mark {id : MessageId} {deviceId : DeviceId} {now : ℕ} {db : FileDb}
    {r : DeliveryRow} :
    r ∈ (mark id deviceId now db).deliveryStatus ↔ ∃ q ∈ db.deliveryStatus, r =
      if (decide (q.messageId = id) && decide (q.deviceId = deviceId) &&
        q.downloadedAt.isNone) = true then
        { q with downloadedAt := some now } else q :=
  @Table.mem_update _ _ DeliveryRow.primaryKey db.deliveryStatus
    (fun r => decide (r.messageId = id) && decide (r.deviceId = deviceId) && r.downloadedAt.isNone)
    (fun r => { r with downloadedAt := some now }) (fun _ => rfl) r

end SendSelf
