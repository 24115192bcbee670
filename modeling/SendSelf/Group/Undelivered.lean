import SendSelf.Group.Revoked

/-!
# Messages that somebody is still to receive

A row of `delivery_status` waits until its device acknowledges the message or is revoked.
The messages that nothing waits for any more are found by a count or a selection, and
deleted by id at a later await. So a message is dropped too early only when its id has been
stored a second time in between. The log keeps who was to receive each message that was
stored, who has had it or was revoked since, and the ids that were stored since each
deletion was decided.
-/
namespace SendSelf
namespace GroupServer

variable {s t : GroupServer} {e : GroupEvent}

theorem mem_afterRevocation {deviceId : Option DeviceId} {rows : Table DeliveryRow.primaryKey}
    {q : DeliveryRow} :
    q ∈ afterRevocation deviceId rows ↔ q ∈ rows ∧
    (some q.deviceId = deviceId → q.downloadedAt ≠ none) := by
  simp only [afterRevocation, Table.mem_delete, Bool.and_eq_false_imp, decide_eq_true_eq,
    Option.isNone_eq_false_iff,
    Option.isSome_iff_ne_none]

/-- A row stays, or its device has had the message or is revoked, or the message is deleted. -/
theorem delivery_kept (hs : s.step e = some t) {q : DeliveryRow}
    (hq : q ∈ s.files.files.deliveryStatus) :
    q ∈ t.files.files.deliveryStatus ∨ s.messageBatch e = some (.mark q.messageId q.deviceId) ∨
      s.revokes e = some q.deviceId ∨
      ∃ found, s.messageBatch e = some (.delete found) ∧
        q.messageId ∈ found.map FoundMessage.id := by
  rw [(step_messages hs).2, mem_afterRevocation]
  by_cases hrev : some q.deviceId = s.revokes e
  · exact Or.inr (Or.inr (Or.inl hrev.symm))
  · cases hb : s.messageBatch e with
    | none => exact Or.inl ⟨hq, fun h => absurd h hrev⟩
    | some batch =>
      cases batch with
      | insert auth body recipients =>
        refine Or.inl ⟨?_, fun h => absurd h hrev⟩
        show q ∈ (sendMessage.finish auth body recipients (clock e) s.files.files).1.deliveryStatus
        rcases @sendMessage.finish_cases auth body recipients (clock e) s.files.files with hf |
          ⟨db', hf, _, _, hrows⟩
        · rw [hf]
          exact hq
        · rw [hf]
          exact (hrows q).mpr (Or.inl hq)
      | mark id deviceId =>
        by_cases hmark : q.messageId = id ∧ q.deviceId = deviceId
        · obtain ⟨rfl, rfl⟩ := hmark
          exact Or.inr (Or.inl rfl)
        · refine Or.inl ⟨ackMessage.mem_mark.mpr ⟨q, hq, ?_⟩, fun h => absurd h hrev⟩
          rw [if_neg]
          simp only [Bool.and_eq_true, decide_eq_true_eq, not_and]
          exact fun hboth => absurd hboth hmark
      | delete found =>
        by_cases hfound : q.messageId ∈ found.map FoundMessage.id
        · exact Or.inr (Or.inr (Or.inr ⟨found, rfl, hfound⟩))
        · exact Or.inl ⟨mem_deliveries_deleteMessages.mpr ⟨hq, hfound⟩, fun h => absurd h hrev⟩

/-- A pending row was pending before, or a send has stored it with its message. -/
theorem pending_new (hs : s.step e = some t) {q : DeliveryRow}
    (hq : q ∈ t.files.files.deliveryStatus)
    (hp : q.downloadedAt = none) : q ∈ s.files.files.deliveryStatus ∨
      ∃ auth body recipients, s.messageBatch e = some (.insert auth body recipients) ∧
        q.messageId = body.id ∧
        q.deviceId ∈ recipients ∧
        (sendMessage.finish auth body recipients (clock e) s.files.files).2 = .ok () := by
  rw [(step_messages hs).2, mem_afterRevocation] at hq
  replace hq := hq.1
  cases hb : s.messageBatch e with
  | none =>
    rw [hb] at hq
    exact Or.inl hq
  | some batch =>
    rw [hb] at hq
    cases batch with
    | insert auth body recipients =>
      replace hq : q ∈
        (sendMessage.finish auth body recipients (clock e) s.files.files).1.deliveryStatus := hq
      rcases @sendMessage.finish_cases auth body recipients (clock e) s.files.files with hf |
        ⟨db', hf, _, _, hrows⟩
      · rw [hf] at hq
        exact Or.inl hq
      · rw [hf] at hq
        rcases (hrows q).mp hq with hold | ⟨d, hd, rfl⟩
        · exact Or.inl hold
        · exact Or.inr ⟨auth, body, recipients, rfl, rfl, hd, congrArg Prod.snd hf⟩
    | mark id deviceId =>
      obtain ⟨q', hq', rfl⟩ := ackMessage.mem_mark.mp hq
      split_ifs at hp ⊢
      exact Or.inl hq'
    | delete found => exact Or.inl (mem_deliveries_deleteMessages.mp hq).1

/-- A message is there still, or the step has deleted it. -/
theorem message_kept (hs : s.step e = some t) {m : MessageRow} (hm : m ∈ s.files.files.messages) :
    m ∈ t.files.files.messages ∨ ∃ found, s.messageBatch e = some (.delete found) ∧
    m.id ∈ found.map FoundMessage.id := by
  rw [(step_messages hs).1]
  cases hb : s.messageBatch e with
  | none => exact Or.inl hm
  | some batch =>
    cases batch with
    | insert auth body recipients =>
      left
      show m ∈ (sendMessage.finish auth body recipients (clock e) s.files.files).1.messages
      rcases @sendMessage.finish_cases auth body recipients (clock e) s.files.files with hf |
        ⟨db', hf, _, hrows, _⟩
      · rw [hf]
        exact hm
      · rw [hf]
        exact (hrows m).mpr (Or.inl hm)
    | mark id deviceId => exact Or.inl hm
    | delete found =>
      by_cases hfound : m.id ∈ found.map FoundMessage.id
      · exact Or.inr ⟨found, rfl, hfound⟩
      · exact Or.inl (mem_deleteMessages.mpr ⟨hm, hfound⟩)

/-- A send that stores its message leaves it with a pending row for each recipient. -/
theorem stored_of_insert (hs : s.step e = some t) {auth : AuthContext} {body : SendMessageRequest}
    {recipients : List DeviceId} (hb : s.messageBatch e = some (.insert auth body recipients)) :
    (sendMessage.finish auth body recipients (clock e) s.files.files).2 =
      .error sendMessage.duplicate ∨
      (sendMessage.exists? body.id s.files.files = false ∧
        (∀ m, m ∈ t.files.files.messages ↔ m ∈ s.files.files.messages ∨
          m = sendMessage.row auth body (clock e)) ∧
        ∀ d ∈ recipients, ⟨body.id, d, none⟩ ∈ t.files.files.deliveryStatus) := by
  obtain ⟨r, m, token, rfl, _⟩ := send_of_insert hb
  obtain ⟨hmessages, hrows⟩ := step_messages hs
  rw [hb] at hmessages hrows
  replace hmessages : t.files.files.messages =
    (sendMessage.finish auth body recipients m.now s.files.files).1.messages := hmessages
  replace hrows : t.files.files.deliveryStatus =
    afterRevocation none
      (sendMessage.finish auth body recipients m.now s.files.files).1.deliveryStatus := hrows
  rcases @sendMessage.finish_cases auth body recipients m.now s.files.files with hf |
    ⟨db', hf, hnew, hmem, hdel⟩
  · exact Or.inl (congrArg Prod.snd hf)
  · rw [hf] at hmessages hrows
    refine Or.inr ⟨hnew, fun row => by rw [hmessages]; exact hmem row, fun d hd => ?_⟩
    rw [hrows, mem_afterRevocation]
    exact ⟨(hdel _).mpr (Or.inr ⟨d, hd, rfl⟩), nofun⟩

end GroupServer

/-- A message that a send has stored. -/
structure StoredMessage where
  request : RequestId
  id : MessageId
  recipients : List DeviceId
  /-- The recipients whose row has been marked since. -/
  acked : List DeviceId
  /-- The devices revoked since. -/
  revoked : List DeviceId
deriving DecidableEq, Repr

structure DeliveryLog where
  stored : List StoredMessage
  /-- The ids stored since a request has counted or selected what it is to delete. -/
  restored : RequestKey → List MessageId

/-- A job deletes for nobody but because a message is delivered. -/
def Job.Plain : Job → Prop
  | .send _ _ (.targeting _ _) | .send _ _ (.destroying _ _) => False
  | .send _ body _ => body.deletesMessageId = none
  | .purge selection _ => selection = .delivered
  | _ => True

instance : DecidablePred Job.Plain
  | .send _ _ (.targeting _ _) | .send _ _ (.destroying _ _) => inferInstanceAs (Decidable False)
  | .send _ body .received | .send _ body (.authed _) | .send _ body (.clearing _ _) |
      .send _ body (.listing _)
  | .send _ body (.dropping _) | .send _ body (.dropped _) | .send _ body (.heading _ _) |
      .send _ body (.inserting _ _)
  | .send _ body (.answered _) => inferInstanceAs (Decidable (body.deletesMessageId = none))
  | .purge selection _ => inferInstanceAs (Decidable (selection = .delivered))
  | .upload _ _ _ | .ack _ _ _ | .sweep _ _ => inferInstanceAs (Decidable True)

/-- The ids that a job has found to be delivered. -/
def Job.holds : Job → List MessageId
  | .ack _ id .selecting => [id]
  | .ack _ _ (.destroying found) | .purge _ (.destroying found) => found.map FoundMessage.id
  | _ => []

def PurgeStage.holds : PurgeStage → List MessageId
  | .destroying found => found.map FoundMessage.id
  | _ => []

namespace GroupServer

def holds (s : GroupServer) : RequestKey → List MessageId
  | .job r => (s.jobs r).elim [] Job.holds
  | .flight r => (s.purges r).elim [] PurgeStage.holds
  | .call _ => []

/-- The request that counts or selects in this step. -/
def decides (s : GroupServer) : GroupEvent → Option RequestKey
  | .files (.run r _) =>
      match s.jobs r with
      | some (.ack _ _ .marked) | some (.purge _ .selecting) => some (.job r)
      | _ => none
  | .purge r _ =>
      match s.purges r with
      | some .selecting => some (.flight r)
      | _ => none
  | _ => none

/-- The request whose batch deletes messages in this step. -/
def deleter : GroupEvent → Option RequestKey
  | .files (.run r _) => some (.job r)
  | .purge r _ => some (.flight r)
  | _ => none

/-- The job that starts in this step. -/
def started : GroupEvent → Option Job
  | .files (.start _ job) => some job
  | _ => none

/-- What a send stores in this step. -/
def storesMessage (s : GroupServer) (e : GroupEvent) : Option StoredMessage :=
  match e with
  | .files (.run r m) =>
      match s.jobs r with
      | some (.send _ body (.inserting auth recipients)) =>
          match (sendMessage.finish auth body recipients m.now s.files.files).2 with
          | .ok _ => some ⟨r, body.id, recipients, [], []⟩
          | .error _ => none
      | _ => none
  | _ => none

/-- The pending row that an acknowledgement marks in this step. -/
def acks (s : GroupServer) (e : GroupEvent) : Option (MessageId × DeviceId) :=
  match s.messageBatch e with
  | some (.mark id deviceId) =>
      if s.files.files.deliveryStatus.exist (fun q => decide (q = ⟨id, deviceId, none⟩)) then
        some (id, deviceId) else none
  | _ => none

end GroupServer

namespace DeliveryLog
open GroupServer

def empty : DeliveryLog := ⟨[], fun _ => []⟩

def settle (s : GroupServer) (e : GroupEvent) (x : StoredMessage) : StoredMessage :=
  { x with
    acked := ((s.acks e).filter fun p => decide (p.1 = x.id)).toList.map Prod.snd ++ x.acked
    revoked := (s.revokes e).toList ++ x.revoked }

def note (s : GroupServer) (e : GroupEvent) (_ : GroupServer) (h : DeliveryLog) : DeliveryLog where
  stored := h.stored.map (settle s e) ++ (s.storesMessage e).toList
  restored := fun key => if s.decides e = some key then []
    else ((s.storesMessage e).map StoredMessage.id).toList ++ h.restored key

/-- Nothing but delivered messages is deleted, and no id that has been stored again since
this was found out. -/
def DeletesDelivered (p : GroupServer × DeliveryLog) (e : GroupEvent) : Prop :=
  (∀ job ∈ started e, job.Plain) ∧
    match p.1.messageBatch e with
    | some (.delete found) => ∀ key ∈ deleter e, ∀ m ∈ found, m.id ∉ p.2.restored key
    | _ => True

instance (p : GroupServer × DeliveryLog) (e : GroupEvent) : Decidable (DeletesDelivered p e) := by
  unfold DeletesDelivered
  split <;> infer_instance

/-- A recipient of a stored message has had it, was revoked since, or is still to have it. -/
def Kept (db : FileDb) (x : StoredMessage) : Prop :=
  ∀ d ∈ x.recipients, d ∈ x.acked ∨ d ∈ x.revoked ∨
    ((∃ m ∈ db.messages, m.id = x.id) ∧ ⟨x.id, d, none⟩ ∈ db.deliveryStatus)

instance (db : FileDb) (x : StoredMessage) : Decidable (Kept db x) :=
  inferInstanceAs (Decidable (∀ d ∈ x.recipients, d ∈ x.acked ∨ d ∈ x.revoked ∨
    ((∃ m ∈ db.messages, m.id = x.id) ∧ (⟨x.id, d, none⟩ : DeliveryRow) ∈ db.deliveryStatus.rows)))

end DeliveryLog

theorem Job.Plain.next {m : Moment} {space : SpaceDb} {db : FileDb} {job : Job} (h : job.Plain) :
    (job.next m space db).2.Plain := by
  cases job with
  | send token body stage =>
    have hnone : stage = .received ∨ (∃ auth, stage = .authed auth) →
        body.deletesMessageId = none := fun hstage => by
      rcases hstage with rfl | ⟨auth, rfl⟩
      · exact h
      · exact h
    cases stage with
    | received =>
      refine orAnswer_cases (P := fun stage => (Job.send token body stage).Plain) (fun e => h)
        fun stage hok => ?_
      simp only [bind_eq_ok, pure_eq_ok] at hok
      obtain ⟨_, _, _, _, _, _, rfl⟩ := hok
      exact h
    | authed auth =>
      refine orAnswer_cases (P := fun stage => (Job.send token body stage).Plain) (fun e => h)
        fun stage hok => ?_
      unfold sendMessage.checkDuplicate at hok
      rw [hnone (Or.inr ⟨auth, rfl⟩)] at hok
      split_ifs at hok
      obtain rfl := Except.ok.inj hok
      exact h
    | targeting auth target => cases h
    | destroying auth found => cases h
    | listing auth =>
      simp only [Job.next, sendMessage.next, sendMessage.afterListing]
      split <;> exact h
    | heading auth recipients =>
      simp only [Job.next, sendMessage.next]
      split_ifs <;> exact h
    | _ => exact h
  | purge selection stage => exact h
  | _ => exact trivial

theorem Job.holds_of_isNew {job : Job} (h : job.isNew = true) : job.holds = [] := by
  unfold isNew at h
  split at h
  · rfl
  · rfl
  · rfl
  · rfl
  · rfl
  · cases h

theorem ackMessage.pending_eq_zero {id : MessageId} {db : FileDb} (h : pending id db = 0)
    {q : DeliveryRow}
    (hq : q ∈ db.deliveryStatus) (hid : q.messageId = id) : q.downloadedAt ≠ none := by
  intro hnone
  have hmem : q ∈ db.deliveryStatus.select fun r =>
      decide (r.messageId = id) && r.downloadedAt.isNone :=
    Table.mem_select.mpr ⟨hq, by simp [hid, hnone]⟩
  rw [pending, List.length_eq_zero_iff] at h
  rw [h] at hmem
  cases hmem

/-- What a purge selects is there, and delivered. -/
theorem Selection.mem_rows {share : ℕ} {db : FileDb} {id : MessageId}
    (h : id ∈ (rows .delivered share db).map FoundMessage.id) :
    ∀ q ∈ db.deliveryStatus, q.messageId = id → q.downloadedAt ≠ none := by
  obtain ⟨f, hf, rfl⟩ := List.mem_map.mp h
  obtain ⟨m, hm, rfl⟩ := List.mem_map.mp (List.mem_of_mem_take hf)
  have hpick := (Table.mem_select.mp ((List.mem_insertionSort _).mp hm)).2
  intro q hq hid hnone
  simp only [picks, Bool.not_eq_true', Bool.eq_false_iff, ne_eq, Table.exist_iff] at hpick
  exact hpick ⟨q, hq, by simp [show q.messageId = m.id from hid, hnone]⟩

namespace GroupServer

variable {s t : GroupServer} {e : GroupEvent}

/-- A request that counts or selects holds nothing yet. -/
theorem holds_of_decides {key : RequestKey} (h : s.decides e = some key) : s.holds key = [] := by
  unfold decides at h
  split at h
  · next r m =>
    split at h
    · next hjob =>
      obtain rfl := Option.some.inj h
      simp only [holds, hjob, Option.elim_some]
      rfl
    · next hjob =>
      obtain rfl := Option.some.inj h
      simp only [holds, hjob, Option.elim_some]
      rfl
    · cases h
  · next r m =>
    split at h
    · next hstage =>
      obtain rfl := Option.some.inj h
      simp only [holds, hstage, Option.elim_some]
      rfl
    · cases h
  · cases h

/-- A request that is to delete a message was to do so before, or has just seen that nothing
waits for it. -/
theorem holds_step (hs : s.step e = some t) (hplain : ∀ r job, s.jobs r = some job → job.Plain)
    {key : RequestKey} {id : MessageId} (h : id ∈ t.holds key) :
    id ∈ s.holds key ∨ (s.decides e = some key ∧ s.messageBatch e = none ∧
      ∀ q ∈ s.files.files.deliveryStatus, q.messageId = id → q.downloadedAt ≠ none) := by
  cases key with
  | job r =>
    rcases step_job hs r with hold | ⟨job, _, hnew, _, hjob⟩ | ⟨m, job, rfl, hjob, hnext⟩
    · left
      simp only [holds, hold] at h
      exact h
    · simp only [holds, hjob, Option.elim_some, Job.holds_of_isNew hnew] at h
      cases h
    · simp only [holds, hnext, Option.elim_some] at h
      simp only [holds, decides, messageBatch, hjob, Option.elim_some, Option.bind_some]
      cases job with
      | ack token id' stage =>
        cases stage with
        | marked =>
          simp only [Job.next, ackMessage.next] at h
          split_ifs at h with hzero
          · obtain rfl := List.mem_singleton.mp h
            exact Or.inr ⟨rfl, rfl, fun q hq hid => ackMessage.pending_eq_zero hzero hq hid⟩
          · cases h
        | selecting =>
          left
          simp only [Job.next, ackMessage.next] at h
          split at h
          · cases h
          · next row hrow =>
            obtain rfl := List.mem_singleton.mp h
            exact List.mem_singleton.mpr (Table.get?_eq_some.mp hrow).2
        | received =>
          simp only [Job.next, ackMessage.next] at h
          revert h
          refine orAnswer_cases (P := fun stage => id ∈ (Job.ack token id' stage).holds →
            _) (fun e h => (by cases h))
            fun stage hok h => ?_
          simp only [bind_eq_ok, pure_eq_ok] at hok
          obtain ⟨_, _, rfl⟩ := hok
          cases h
        | authed auth =>
          simp only [Job.next, ackMessage.next] at h
          split_ifs at h <;> cases h
        | destroying found =>
          simp only [Job.next, ackMessage.next] at h
          split_ifs at h <;> cases h
        | _ => cases h
      | purge selection stage =>
        obtain rfl : selection = .delivered := hplain r _ hjob
        cases stage with
        | selecting =>
          right
          simp only [Job.next, purgeMessages.next] at h
          split at h
          · cases h
          · exact ⟨rfl, rfl, Selection.mem_rows h⟩
        | destroying found =>
          simp only [Job.next, purgeMessages.next] at h
          split_ifs at h <;> cases h
        | _ => cases h
      | _ => cases h
  | flight r =>
    rcases step_purge hs r with hold | ⟨_, _, _, _, _, _, _, hnew⟩ | ⟨m, stage, rfl, hstage, hnext⟩
    · left
      simp only [holds, hold] at h
      exact h
    · simp only [holds, hnew, Option.elim_some] at h
      cases h
    · simp only [holds, hnext, Option.elim_some] at h
      simp only [holds, decides, messageBatch, hstage, Option.elim_some, Option.bind_some]
      cases stage with
      | selecting =>
        right
        simp only [purgeMessages.next] at h
        split at h
        · cases h
        · exact ⟨rfl, rfl, Selection.mem_rows h⟩
      | destroying found =>
        simp only [purgeMessages.next] at h
        split_ifs at h <;> cases h
      | _ => cases h
  | call r => cases h

/-- What a step deletes its request has held. -/
theorem holds_of_delete (hplain : ∀ r job, s.jobs r = some job → job.Plain)
    {found : List FoundMessage} (h : s.messageBatch e = some (.delete found)) :
    ∃ key, deleter e = some key ∧ s.holds key = found.map FoundMessage.id := by
  unfold messageBatch at h
  split at h
  · next r m =>
    obtain ⟨job, hjob, hbatch⟩ := Option.bind_eq_some_iff.mp h
    refine ⟨.job r, rfl, ?_⟩
    have hp := hplain r job hjob
    simp only [holds, hjob, Option.elim_some]
    unfold Job.messageBatch at hbatch
    split at hbatch
    · cases hbatch
    · cases hp
    · obtain rfl := MessageBatch.delete.inj (Option.some.inj hbatch)
      rfl
    · cases hbatch
    · next selection stage =>
      cases stage with
      | destroying found' =>
        obtain rfl := MessageBatch.delete.inj (Option.some.inj hbatch)
        rfl
      | _ => cases hbatch
    · cases hbatch
  · next r m =>
    obtain ⟨stage, hstage, hbatch⟩ := Option.bind_eq_some_iff.mp h
    refine ⟨.flight r, rfl, ?_⟩
    simp only [holds, hstage, Option.elim_some]
    cases stage with
    | destroying found' =>
      obtain rfl := MessageBatch.delete.inj (Option.some.inj hbatch)
      rfl
    | _ => cases hbatch
  · cases h

theorem storesMessage_eq {x : StoredMessage} (h : s.storesMessage e = some x) : ∃ auth body,
    s.messageBatch e = some (.insert auth body x.recipients) ∧ x.id = body.id ∧
      (sendMessage.finish auth body x.recipients (clock e) s.files.files).2 = .ok () := by
  unfold storesMessage at h
  split at h
  · next r m =>
    split at h
    · next token body auth recipients hjob =>
      split at h
      · next u hok =>
        obtain rfl := Option.some.inj h
        refine ⟨auth, body, ?_, rfl, hok⟩
        rw [messageBatch, hjob]
        rfl
      · cases h
    · cases h
  · cases h

theorem storesMessage_of_insert {auth : AuthContext} {body : SendMessageRequest}
    {recipients : List DeviceId} (h : s.messageBatch e = some (.insert auth body recipients))
    (hok : (sendMessage.finish auth body recipients (clock e) s.files.files).2 = .ok ()) :
    ∃ x, s.storesMessage e = some x ∧ x.id = body.id := by
  obtain ⟨r, m, token, rfl, hjob⟩ := send_of_insert h
  have hfinish : (sendMessage.finish auth body recipients m.now s.files.files).2 = .ok () := hok
  refine ⟨⟨r, body.id, recipients, [], []⟩, ?_, rfl⟩
  simp only [storesMessage, hjob, hfinish]

end GroupServer

namespace DeliveryLog
open GroupServer

variable {s t : GroupServer} {e : GroupEvent} {h : DeliveryLog}

/-- Every deletion decided comes to messages that nothing waits for, every stored message is
kept. -/
structure Delivering (s : GroupServer) (h : DeliveryLog) : Prop where
  plain : ∀ r job, s.jobs r = some job → job.Plain
  delivered : ∀ key, ∀ id ∈ s.holds key, id ∉ h.restored key →
    ∀ q ∈ s.files.files.deliveryStatus, q.messageId = id → q.downloadedAt ≠ none
  kept : ∀ x ∈ h.stored, Kept s.files.files x

theorem Delivering.plain_step (hd : Delivering s h) (hok : DeletesDelivered (s, h) e)
    (hs : s.step e = some t) :
    ∀ r job, t.jobs r = some job → job.Plain := by
  intro r job hjob
  rcases step_job hs r with hold | ⟨job', rfl, _, _, hnew⟩ | ⟨m, job', rfl, hjob', hnext⟩
  · exact hd.plain r job (hold ▸ hjob)
  · obtain rfl := Option.some.inj (hnew.symm.trans hjob)
    exact hok.1 _ rfl
  · obtain rfl := Option.some.inj (hnext.symm.trans hjob)
    exact (hd.plain r job' hjob').next

/-- What a step deletes nothing waits for. -/
theorem Delivering.of_delete (hd : Delivering s h) (hok : DeletesDelivered (s, h) e)
    {found : List FoundMessage} (hb : s.messageBatch e = some (.delete found)) {id : MessageId}
    (hid : id ∈ found.map FoundMessage.id) :
    ∀ q ∈ s.files.files.deliveryStatus, q.messageId = id → q.downloadedAt ≠ none := by
  obtain ⟨key, hkey, hholds⟩ := holds_of_delete hd.plain hb
  have hguard := hok.2
  simp only [hb] at hguard
  obtain ⟨m, hm, rfl⟩ := List.mem_map.mp hid
  exact hd.delivered key _ (hholds ▸ hid) (hguard key hkey m hm)

theorem Delivering.delivered_step (hd : Delivering s h) (hs : s.step e = some t) :
    ∀ key, ∀ id ∈ t.holds key,
    id ∉ (note s e t h).restored key → ∀ q ∈ t.files.files.deliveryStatus, q.messageId = id →
    q.downloadedAt ≠ none := by
  intro key id hid hnew q hq hqid hnone
  rcases holds_step hs hd.plain hid with hold | ⟨_, hbatch, hdelivered⟩
  · have hundecided : s.decides e ≠ some key := fun hdec => by
      rw [holds_of_decides hdec] at hold
      cases hold
    simp only [note, if_neg hundecided, List.mem_append, not_or] at hnew
    rcases pending_new hs hq hnone with hq | ⟨auth, body, recipients, hinsert, hbody, _, hok⟩
    · exact hd.delivered key id hold hnew.2 q hq hqid hnone
    · obtain ⟨x, hx, hxid⟩ := storesMessage_of_insert hinsert hok
      refine hnew.1 ?_
      rw [hx, ← hqid, hbody, ← hxid]
      exact List.mem_singleton_self _
  · rcases pending_new hs hq hnone with hq | ⟨_, _, _, hinsert, _⟩
    · exact hdelivered q hq hqid hnone
    · cases hbatch.symm.trans hinsert

theorem Delivering.kept_step (hd : Delivering s h) (hok : DeletesDelivered (s, h) e)
    (hs : s.step e = some t)
    {x : StoredMessage} (hx : x ∈ h.stored) : Kept t.files.files (settle s e x) := by
  intro d hdev
  rcases hd.kept x hx d hdev with hacked | hrevoked | ⟨⟨m, hm, hmid⟩, hrow⟩
  · exact Or.inl (List.mem_append_right _ hacked)
  · exact Or.inr (Or.inl (List.mem_append_right _ hrevoked))
  · have hpending : ∀ found, s.messageBatch e = some (.delete found) →
        x.id ∉ found.map FoundMessage.id :=
      fun found hb hid => hd.of_delete hok hb hid _ hrow rfl rfl
    rcases delivery_kept hs hrow with hrow' | hmark | hrev | ⟨found, hb, hid⟩
    · rcases message_kept hs hm with hm' | ⟨found, hb, hid⟩
      · exact Or.inr (Or.inr ⟨⟨m, hm', hmid⟩, hrow'⟩)
      · exact absurd (hmid ▸ hid) (hpending found hb)
    · have hacks : s.acks e = some (x.id, d) := by
        simp only [acks, hmark]
        rw [if_pos (Table.exist_iff.mpr ⟨_, hrow, decide_eq_true rfl⟩)]
      refine Or.inl (List.mem_append_left _ ?_)
      simp [hacks]
    · refine Or.inr (Or.inl (List.mem_append_left _ ?_))
      simp [hrev]
    · exact absurd hid (hpending found hb)

theorem kept_of_stores (hs : s.step e = some t) {x : StoredMessage}
    (hx : s.storesMessage e = some x) :
    Kept t.files.files x := by
  obtain ⟨auth, body, hinsert, hid, hok⟩ := storesMessage_eq hx
  intro d hd
  rcases stored_of_insert hs hinsert with herror | ⟨_, hmessages, hrows⟩
  · cases hok.symm.trans herror
  · rw [hid]
    exact Or.inr (Or.inr ⟨⟨_, (hmessages _).mpr (Or.inr rfl), rfl⟩, hrows d hd⟩)

theorem Delivering.step (hd : Delivering s h) (hok : DeletesDelivered (s, h) e)
    (hs : s.step e = some t) :
    Delivering t (note s e t h) := by
  refine ⟨hd.plain_step hok hs, hd.delivered_step hs, fun x hx => ?_⟩
  rcases List.mem_append.mp hx with hx | hx
  · obtain ⟨y, hy, rfl⟩ := List.mem_map.mp hx
    exact hd.kept_step hok hs hy
  · exact kept_of_stores hs (Option.mem_toList.mp hx)

end DeliveryLog

namespace GroupServer
open DeliveryLog

variable {s : GroupServer}

/-- In every run without deletions for everyone and without expiry, in which no id is stored
a second time between the count or the selection that finds it delivered and the deletion,
each recipient of a stored message has acknowledged it since, or was revoked since, or the
message is there with its row still pending. -/
theorem undelivered_kept {groupId : GroupId} {founder : SlotDevice} {token : Token}
    {elsewhere : List DeviceId} {foreign : List MessageId} {groups : List GroupId}
    {rivals : RequestId → Option (CreateGroupRequest × CreateGroupStage)} {h : DeliveryLog}
    (hr : Runs.ReachableVia (Runs.recorded step note) DeletesDelivered
      (.founded groupId founder token elsewhere foreign groups rivals, .empty) (s, h)) :
    ∀ x ∈ h.stored, Kept s.files.files x := by
  have hstart :
      Delivering (.founded groupId founder token elsewhere foreign groups rivals) .empty := by
    refine ⟨fun _ _ hj => (Option.some_ne_none _ hj.symm).elim, fun key id hid => ?_,
      fun x hx => absurd hx List.not_mem_nil⟩
    cases key <;> cases hid
  have hd : Delivering s h :=
    hr.recorded_invariant hstart fun (s : GroupServer) h (e : GroupEvent) t hk hok hstep =>
      hk.step hok hstep
  exact hd.kept

/-- A device acknowledges a message, in so many steps. -/
def acking (r : RequestId) (token : Token) (id : MessageId) (n : ℕ) : List GroupEvent :=
  [.files (.start r (.ack token id .received))] ++ List.replicate n (inserts r)

theorem undelivered_kept_acking : ∃ s : GroupServer × DeliveryLog, ∃ x ∈ s.2.stored, x.id = 31 ∧
    x.acked = [2] ∧
    Kept s.1.files.files x := by
  have hrun : (Runs.replayVia (Runs.recorded step note) DeletesDelivered (start, DeliveryLog.empty)
      (linking 1 52 ⟨2, 102, none, false⟩ 12 ++ linking 2 53 ⟨3, 103, none, false⟩ 13 ++
        sending 5 11 31 ++ [inserts 5] ++
        acking 6 12 31 4)).any (fun s => decide (∃ x ∈ s.2.stored, x.id = 31 ∧
        x.acked = [2])) = true := by decide +kernel
  obtain ⟨s, hs, hx⟩ := (Option.any_eq_true _ _).mp hrun
  obtain ⟨x, hx, hid, hacked⟩ := of_decide_eq_true hx
  have hreach := Runs.reachableVia_of_replayVia hs
  exact ⟨s, x, hx, hid, hacked,
    @undelivered_kept s.1 7 ⟨1, 101, none, false⟩ 11 [] [] [] (fun _ => none) s.2 hreach x hx⟩

/-- Two acknowledgements of device 2 have found a message delivered. The first deletes it,
device 3 joins, the message is sent again, and the second deletes what waits for device 3. -/
theorem undelivered_dropped :
    ∃ p, Runs.Reachable (Runs.recorded step note) (start, DeliveryLog.empty) p ∧
    ∃ x ∈ p.2.stored, 3 ∈ x.recipients ∧ 3 ∉ x.acked ∧ 3 ∉ x.revoked ∧ p.1.space.isActive 3 = true ∧
      ∀ q ∈ p.1.files.files.deliveryStatus, q.messageId = x.id → q.deviceId ≠ 3 := by
  exact Runs.exists_reachable_of_replay
    (by decide +kernel : (Runs.replay (Runs.recorded step note) (start, DeliveryLog.empty)
    (linking 1 52 ⟨2, 102, none, false⟩ 12 ++ sending 5 11 31 ++ [inserts 5] ++ acking 6 12 31 5 ++
      acking 7 12 31 6 ++
      linking 2 53 ⟨3, 103, none, false⟩ 13 ++ sending 8 11 31 ++ [inserts 8, inserts 6])).any
        (fun p => decide (∃ x ∈ p.2.stored, 3 ∈ x.recipients ∧ 3 ∉ x.acked ∧ 3 ∉ x.revoked ∧
          p.1.space.isActive 3 = true ∧ ∀ q ∈ p.1.files.files.deliveryStatus, q.messageId = x.id →
          q.deviceId ≠ 3)) = true)

end GroupServer
end SendSelf
