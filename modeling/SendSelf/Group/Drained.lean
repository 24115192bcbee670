import SendSelf.Group.Undelivered

/-!
# Messages that nobody is still to receive

An acknowledgement that finds nothing pending deletes its message, and a revocation purges
what it has freed. So when nothing is on its way every message waits for somebody who can
still come for it, provided that a send reaches its recipients: one that was revoked between
the listing and the batch leaves a row behind that nobody will ever mark.
-/
namespace SendSelf

/-- A send knows somebody to send to. -/
def Job.Addressed : Job → Prop
  | .send _ _ (.heading _ recipients) | .send _ _ (.inserting _ recipients) => recipients ≠ []
  | _ => True

theorem Job.Addressed.next {m : Moment} {space : SpaceDb} {db : FileDb} {job : Job}
    (h : job.Addressed) :
    (job.next m space db).2.Addressed := by
  cases job with
  | send token body stage =>
    cases stage with
    | received =>
      refine orAnswer_cases (P := fun stage => (Job.send token body stage).Addressed) (fun e =>
        trivial) fun stage hok => ?_
      simp only [bind_eq_ok, pure_eq_ok] at hok
      obtain ⟨_, _, _, _, _, _, rfl⟩ := hok
      trivial
    | authed auth =>
      refine orAnswer_cases (P := fun stage => (Job.send token body stage).Addressed) (fun e =>
        trivial) fun stage hok => ?_
      unfold sendMessage.checkDuplicate at hok
      split_ifs at hok
      split at hok <;> obtain rfl := Except.ok.inj hok <;> trivial
    | targeting auth target =>
      simp only [Job.next, sendMessage.next]
      split <;> trivial
    | destroying auth found =>
      simp only [Job.next, sendMessage.next]
      split_ifs <;> trivial
    | listing auth =>
      simp only [Job.next, sendMessage.next]
      cases sendMessage.messageRecipients space auth.deviceId with
      | nil => unfold sendMessage.afterListing; split <;> trivial
      | cons d ids =>
        unfold sendMessage.afterListing
        split
        · trivial
        · trivial
        · exact List.cons_ne_nil d ids
        · exact List.cons_ne_nil d ids
    | heading auth recipients =>
      simp only [Job.next, sendMessage.next]
      split_ifs
      · exact h
      · trivial
    | _ => trivial
  | _ => trivial

def PurgeStage.isDone : PurgeStage → Bool
  | .done => true
  | _ => false

/-- The acknowledgement goes on to look after the message. -/
def AckStage.Attends (id : MessageId) : AckStage → Prop
  | .marked | .selecting => True
  | .destroying found => id ∈ found.map FoundMessage.id
  | _ => False

def Job.isOver : Job → Bool
  | .upload _ _ (.answered _) | .send _ _ (.answered _) | .ack _ _ (.answered _) | .purge _ .done |
    .sweep _ .done => true
  | _ => false

namespace GroupServer

/-- No job and no purge is on its way. -/
structure Quiet (s : GroupServer) : Prop where
  jobs : ∀ r job, s.jobs r = some job → job.isOver = true
  purges : ∀ r stage, s.purges r = some stage → stage.isDone = true

/-- A row of the message is pending. -/
def Waiting (db : FileDb) (id : MessageId) : Prop :=
  ∃ q ∈ db.deliveryStatus, q.messageId = id ∧ q.downloadedAt = none

/-- Somebody is on the way to delete the message if nothing waits for it. -/
def Attended (s : GroupServer) (id : MessageId) : Prop :=
  (∃ r stage, s.purges r = some stage ∧ stage.isDone = false) ∨
    ∃ r token stage, s.jobs r = some (.ack token id stage) ∧ stage.Attends id

/-- The recipients of a message that is stored can still come for it. -/
def ReachesRecipients (s : GroupServer) (e : GroupEvent) : Prop :=
  ∀ x ∈ s.storesMessage e, ∀ d ∈ x.recipients, s.space.isActive d = true

structure Drained (s : GroupServer) : Prop where
  sound : s.Sound
  addressed : ∀ r job, s.jobs r = some job → job.Addressed
  active : ∀ q ∈ s.files.files.deliveryStatus, q.downloadedAt = none →
    s.space.isActive q.deviceId = true
  attended : ∀ m ∈ s.files.files.messages, Waiting s.files.files m.id ∨ s.Attended m.id

variable {s t : GroupServer} {e : GroupEvent}

/-- An active device stays so until it is revoked. -/
theorem isActive_step (hsound : s.Sound) (hs : s.step e = some t) {i : DeviceId}
    (h : s.space.isActive i = true) :
    t.space.isActive i = true ∨ s.revokes e = some i := by
  have hstep := (step_space hsound hs).devices
  generalize t.space = db at hstep ⊢
  obtain ⟨d, hd, hid, hactive⟩ := SpaceDb.isActive_iff.mp h
  cases hstep with
  | same hsame =>
    obtain ⟨f, hf⟩ := hsame
    exact Or.inl (SpaceDb.isActive_iff.mpr ⟨_, (hf _).mpr ⟨d, hd, rfl⟩, hid, hactive⟩)
  | @revoked r now at_ limited token j auth hf =>
    by_cases hij : i = j
    · right
      simp only [revokes, hf, hij]
    · exact Or.inl (revokeDevice.isActive_run h hij)
  | @linked r now limited token pairingId body device hf hg hfree =>
    left
    refine SpaceDb.isActive_iff.mpr ?_
    by_cases hdev : d.id = device.id
    · exact ⟨_, completePairing.mem_registered.mpr (Or.inl rfl), hdev.symm.trans hid, rfl⟩
    · exact ⟨d, completePairing.mem_registered.mpr (Or.inr ⟨hd, hdev⟩), hid, hactive⟩
  | assigned hcall => exact Or.inl (updateDeviceRole.isActive_run.trans h)

/-- A message was there and is not deleted, or a send has stored it. -/
theorem message_new (hs : s.step e = some t) {m : MessageRow} (hm : m ∈ t.files.files.messages) :
    (m ∈ s.files.files.messages ∧ ∀ found, s.messageBatch e = some (.delete found) →
      m.id ∉ found.map FoundMessage.id) ∨
      ∃ x, s.storesMessage e = some x ∧ x.id = m.id := by
  cases hb : s.messageBatch e with
  | none =>
    rw [(step_messages hs).1, hb] at hm
    exact Or.inl ⟨hm, nofun⟩
  | some batch =>
    cases batch with
    | insert auth body recipients =>
      rw [(step_messages hs).1, hb] at hm
      replace hm : m ∈
        (sendMessage.finish auth body recipients (clock e) s.files.files).1.messages := hm
      rcases @sendMessage.finish_cases auth body recipients (clock e) s.files.files with hf |
        ⟨db', hf, _, hrows, _⟩
      · rw [hf] at hm
        exact Or.inl ⟨hm, nofun⟩
      · rw [hf] at hm
        rcases (hrows m).mp hm with hm | rfl
        · exact Or.inl ⟨hm, nofun⟩
        · exact Or.inr (storesMessage_of_insert hb (congrArg Prod.snd hf))
    | mark id deviceId =>
      rw [(step_messages hs).1, hb] at hm
      exact Or.inl ⟨hm, nofun⟩
    | delete found =>
      rw [(step_messages hs).1, hb] at hm
      obtain ⟨hm, hnot⟩ := mem_deleteMessages.mp hm
      refine Or.inl ⟨hm, fun found' heq => ?_⟩
      obtain rfl := MessageBatch.delete.inj (Option.some.inj heq)
      exact hnot

/-- A revocation goes on to its purge. -/
theorem purges_of_revokes (hs : s.step e = some t) {i : DeviceId} (h : s.revokes e = some i) :
    ∃ r, t.purges r = some .selecting := by
  unfold revokes at h
  split at h
  · next r now limited =>
    split at h
    · next token deviceId auth hf =>
      obtain ⟨files, _, rfl⟩ := Option.map_eq_some_iff.mp hs
      refine ⟨r, ?_⟩
      have hpurges : s.startPurge (.server (.advance r now limited)) =
          Function.update s.purges r (some .selecting) := by
        simp only [startPurge, hf]
      exact (congrFun hpurges r).trans (Function.update_self ..)
    · cases h
  · cases h

theorem jobs_of_mark (hs : s.step e = some t) {id : MessageId} {i : DeviceId}
    (h : s.messageBatch e = some (.mark id i)) :
    ∃ r token, t.jobs r = some (.ack token id .marked) := by
  unfold messageBatch at h
  split at h
  · next r m =>
    obtain ⟨job, hjob, hbatch⟩ := Option.bind_eq_some_iff.mp h
    unfold Job.messageBatch at hbatch
    split at hbatch
    · cases hbatch
    · cases hbatch
    · cases hbatch
    · next token id' auth =>
      obtain ⟨rfl, rfl⟩ := MessageBatch.mark.inj (Option.some.inj hbatch)
      obtain ⟨files, hfiles, rfl⟩ := Option.map_eq_some_iff.mp hs
      obtain ⟨job, hjob', rfl⟩ := Option.map_eq_some_iff.mp hfiles
      obtain rfl := Option.some.inj (hjob.symm.trans hjob')
      exact ⟨r, token, Function.update_self ..⟩
    · next stage => cases stage <;> cases hbatch
    · cases hbatch
  · obtain ⟨stage, _, hbatch⟩ := Option.bind_eq_some_iff.mp h
    cases stage <;> cases hbatch
  · cases h

/-- Something waits for every message that a purge does not select. -/
theorem waiting_of_rows_eq_nil {db : FileDb}
    (h : Selection.rows .delivered DELETE_BATCH_SIZE db = []) {m : MessageRow}
    (hm : m ∈ db.messages) : Waiting db m.id := by
  by_contra hnot
  have hpick : Selection.picks db .delivered m = true := by
    simp only [Selection.picks, Bool.not_eq_true', Bool.eq_false_iff, ne_eq, Table.exist_iff]
    rintro ⟨q, hq, hpending⟩
    simp only [Bool.and_eq_true, decide_eq_true_eq, Option.isNone_iff_eq_none] at hpending
    exact hnot ⟨q, hq, hpending⟩
  have hmem : m ∈ db.messages.select (Selection.picks db .delivered) :=
    Table.mem_select.mpr ⟨hm, hpick⟩
  rcases List.take_eq_nil_iff.mp h with hzero | hnil
  · simp [DELETE_BATCH_SIZE] at hzero
  · have hsorted := (List.mem_insertionSort fun a b : MessageRow =>
      a.createdAt < b.createdAt ∨ (a.createdAt = b.createdAt ∧ a.id ≤ b.id)).mpr hmem
    rw [List.map_eq_nil_iff.mp hnil] at hsorted
    cases hsorted

/-- Whoever looks after a message either goes on, or deletes it, or leaves it to somebody it waits
for. -/
theorem attended_step (hs : s.step e = some t) {m : MessageRow} (hm : m ∈ s.files.files.messages)
    (hkept : ∀ found, s.messageBatch e = some (.delete found) → m.id ∉ found.map FoundMessage.id)
    (h : s.Attended m.id) : Waiting s.files.files m.id ∨ t.Attended m.id := by
  rcases h with ⟨r, stage, hstage, hwork⟩ | ⟨r, token, stage, hjob, hattends⟩
  · rcases step_purge hs r with hold | ⟨_, _, _, _, _, _, _, hnew⟩ |
      ⟨mo, stage', rfl, hstage', hnext⟩
    · exact Or.inr (Or.inl ⟨r, stage, hold.trans hstage, hwork⟩)
    · exact Or.inr (Or.inl ⟨r, _, hnew, rfl⟩)
    · obtain rfl := Option.some.inj (hstage.symm.trans hstage')
      cases stage with
      | selecting =>
        cases hrows : Selection.rows .delivered DELETE_BATCH_SIZE s.files.files with
        | nil => exact Or.inl (waiting_of_rows_eq_nil hrows hm)
        | cons f found =>
          refine Or.inr (Or.inl ⟨r, _, hnext, ?_⟩)
          simp only [purgeMessages.next, hrows]
          rfl
      | destroying found =>
        refine Or.inr (Or.inl ⟨r, _, hnext, ?_⟩)
        simp only [purgeMessages.next]
        split_ifs <;> rfl
      | clearing keys => exact Or.inr (Or.inl ⟨r, _, hnext, rfl⟩)
      | done => cases hwork
  · rcases step_job hs r with hold | ⟨job, _, _, hnone, _⟩ | ⟨mo, job, rfl, hjob', hnext⟩
    · exact Or.inr (Or.inr ⟨r, token, stage, hold.trans hjob, hattends⟩)
    · cases hnone.symm.trans hjob
    · obtain rfl := Option.some.inj (hjob.symm.trans hjob')
      cases stage with
      | marked =>
        by_cases hzero : ackMessage.pending m.id s.files.files = 0
        · refine Or.inr (Or.inr ⟨r, token, .selecting, ?_, trivial⟩)
          rw [hnext]
          simp only [Job.next, ackMessage.next, if_pos hzero]
        · left
          obtain ⟨q, hq⟩ :=
            List.exists_mem_of_ne_nil _ fun hnil => hzero (List.length_eq_zero_iff.mpr hnil)
          obtain ⟨hq, hpending⟩ := Table.mem_select.mp hq
          simp only [Bool.and_eq_true, decide_eq_true_eq, Option.isNone_iff_eq_none] at hpending
          exact ⟨q, hq, hpending⟩
      | selecting =>
        refine Or.inr (Or.inr ⟨r, token, .destroying [m.found], ?_, List.mem_singleton_self _⟩)
        rw [hnext]
        simp only [Job.next, ackMessage.next, Table.get?_of_mem hm]
      | destroying found =>
        refine absurd hattends (hkept found ?_)
        rw [messageBatch, hjob]
        rfl
      | _ => cases hattends

theorem Drained.step (h : s.Drained) (hok : s.ReachesRecipients e) (hs : s.step e = some t) :
    t.Drained := by
  refine ⟨h.sound.step hs, fun r job hjob => ?_, fun q hq hpending => ?_, fun m hm => ?_⟩
  · rcases step_job hs r with hold | ⟨job', _, hnew, _, hjob'⟩ | ⟨mo, job', _, hjob', hnext⟩
    · exact h.addressed r job (hold ▸ hjob)
    · obtain rfl := Option.some.inj (hjob'.symm.trans hjob)
      cases job' with
      | send token body stage =>
        cases stage with
        | received => trivial
        | _ => cases hnew
      | _ => trivial
    · obtain rfl := Option.some.inj (hnext.symm.trans hjob)
      exact (h.addressed r job' hjob').next
  · have hactive : s.space.isActive q.deviceId = true := by
      rcases pending_new hs hq hpending with hold |
        ⟨auth, body, recipients, hinsert, _, hdev, hfinish⟩
      · exact h.active q hold hpending
      · obtain ⟨x, hx, _⟩ := storesMessage_of_insert hinsert hfinish
        obtain ⟨auth', body', hinsert', _⟩ := storesMessage_eq hx
        obtain ⟨_, _, rfl⟩ :=
          MessageBatch.insert.inj (Option.some.inj (hinsert.symm.trans hinsert'))
        exact hok x hx _ hdev
    rcases isActive_step h.sound hs hactive with hactive' | hrev
    · exact hactive'
    · rw [(step_messages hs).2, mem_afterRevocation] at hq
      exact absurd hpending (hq.2 hrev.symm)
  · rcases message_new hs hm with ⟨hold, hkept⟩ | ⟨x, hx, hid⟩
    · have hwaited : Waiting s.files.files m.id → Waiting t.files.files m.id ∨
          t.Attended m.id := fun ⟨q, hq, hqid, hpending⟩ => by
        rcases delivery_kept hs hq with hq' | hmark | hrev | ⟨found, hb, hmem⟩
        · exact Or.inl ⟨q, hq', hqid, hpending⟩
        · obtain ⟨r, token, hjob⟩ := jobs_of_mark hs hmark
          exact Or.inr (Or.inr ⟨r, token, .marked, hqid ▸ hjob, trivial⟩)
        · obtain ⟨r, hpurge⟩ := purges_of_revokes hs hrev
          exact Or.inr (Or.inl ⟨r, _, hpurge, rfl⟩)
        · exact absurd (hqid ▸ hmem) (hkept found hb)
      rcases h.attended m hold with hwait | hattended
      · exact hwaited hwait
      · rcases attended_step hs hold hkept hattended with hwait | hattended'
        · exact hwaited hwait
        · exact Or.inr hattended'
    · left
      obtain ⟨auth, body, hinsert, hxid, hfinish⟩ := storesMessage_eq hx
      obtain ⟨r, mo, token, rfl, hjob⟩ := send_of_insert hinsert
      obtain ⟨d, hd⟩ := List.exists_mem_of_ne_nil _ (h.addressed r _ hjob : x.recipients ≠ [])
      rcases stored_of_insert hs hinsert with herror | ⟨_, _, hrows⟩
      · cases hfinish.symm.trans herror
      · exact ⟨_, hrows d hd, hxid.symm.trans hid, rfl⟩

/-- In every run in which each send that stores a message finds its recipients active still,
whenever no job and no purge is on its way, what is pending is pending for an active device
and something is pending for every message. -/
theorem drained {groupId : GroupId} {founder : SlotDevice} {token : Token}
    {elsewhere : List DeviceId} {foreign : List MessageId} {groups : List GroupId}
    {rivals : RequestId → Option (CreateGroupRequest × CreateGroupStage)}
    (hfounder : founder.id ∉ elsewhere) (hr : Runs.ReachableVia step ReachesRecipients
      (.founded groupId founder token elsewhere foreign groups rivals) s)
    (hquiet : s.Quiet) :
    (∀ q ∈ s.files.files.deliveryStatus, q.downloadedAt = none →
      s.space.isActive q.deviceId = true) ∧
    ∀ m ∈ s.files.files.messages, ∃ q ∈ s.files.files.deliveryStatus, q.messageId = m.id ∧
      q.downloadedAt = none ∧
      s.space.isActive q.deviceId = true := by
  have hstart : Drained (.founded groupId founder token elsewhere foreign groups rivals) :=
    ⟨sound_founded hfounder, fun _ _ hj => (Option.some_ne_none _ hj.symm).elim,
      fun _ hq => (Table.not_mem_empty hq).elim,
      fun _ hm => (Table.not_mem_empty hm).elim⟩
  have h : s.Drained := hr.invariant hstart fun s e t h hok hs => h.step hok hs
  refine ⟨h.active, fun m hm => ?_⟩
  rcases h.attended m hm with ⟨q, hq, hid, hpending⟩ | ⟨r, stage, hstage, hwork⟩ |
    ⟨r, token, stage, hjob, hattends⟩
  · exact ⟨q, hq, hid, hpending, h.active q hq hpending⟩
  · rw [hquiet.purges r stage hstage] at hwork
    cases hwork
  · have hover := hquiet.jobs r _ hjob
    cases stage with
    | answered a => cases hattends
    | _ => cases hover

instance (s : GroupServer) (e : GroupEvent) : Decidable (s.ReachesRecipients e) :=
  inferInstanceAs
    (Decidable (∀ x ∈ s.storesMessage e, ∀ d ∈ x.recipients, s.space.isActive d = true))

/-- The requests that begin have small ids. -/
def begunBelow (n : ℕ) : GroupEvent → Bool
  | .files (.start r _) | .files (.server (.advance r _ _)) => decide (r < n)
  | _ => true

def overBelow (s : GroupServer) (n : ℕ) : Bool :=
  (List.range n).all fun r => (s.jobs r).all Job.isOver && (s.purges r).all PurgeStage.isDone

/-- Then it can be looked up whether any is on its way. -/
theorem quiet_of_below {n : ℕ}
    (hr : Runs.ReachableVia step (fun _ e => begunBelow n e = true) start s)
    (h : s.overBelow n = true) : s.Quiet := by
  have hover : ∀ r < n, (s.jobs r).all Job.isOver = true ∧
      (s.purges r).all PurgeStage.isDone = true := fun r hlt => by
    simpa using List.all_eq_true.mp h r (List.mem_range.mpr hlt)
  have hnone : ∀ r, n ≤ r → s.jobs r = none ∧ s.purges r = none := by
    refine hr.invariant (I := fun s : GroupServer => ∀ r, n ≤ r → s.jobs r = none ∧
      s.purges r = none)
      (fun _ _ => ⟨rfl, rfl⟩) fun s e t hn hok hs r hle => ⟨?_, ?_⟩
    · rcases step_job hs r with hold | ⟨job, rfl, _⟩ | ⟨m, job, _, hjob, _⟩
      · exact hold.trans (hn r hle).1
      · exact absurd (of_decide_eq_true hok) (Nat.not_lt.mpr hle)
      · cases (hn r hle).1.symm.trans hjob
    · rcases step_purge hs r with hold | ⟨_, _, _, _, _, rfl, _, _⟩ | ⟨m, stage, _, hstage, _⟩
      · exact hold.trans (hn r hle).2
      · exact absurd (of_decide_eq_true hok) (Nat.not_lt.mpr hle)
      · cases (hn r hle).2.symm.trans hstage
  constructor
  · intro r job hjob
    rcases Nat.lt_or_ge r n with hlt | hge
    · have hall := (hover r hlt).1
      rwa [hjob] at hall
    · cases (hnone r hge).1.symm.trans hjob
  · intro r stage hstage
    rcases Nat.lt_or_ge r n with hlt | hge
    · have hall := (hover r hlt).2
      rwa [hstage] at hall
    · cases (hnone r hge).2.symm.trans hstage

/-- Device 2 is revoked while a message waits for it and for device 3. -/
theorem drained_revoking : ∃ s : GroupServer, s.Quiet ∧ s.files.files.messages.rows ≠ [] ∧
    ∀ m ∈ s.files.files.messages, ∃ q ∈ s.files.files.deliveryStatus, q.messageId = m.id ∧
      q.downloadedAt = none ∧
      s.space.isActive q.deviceId = true := by
  have hrun : (Runs.replayVia step (fun s e => s.ReachesRecipients e ∧ begunBelow 10 e = true) start
      (linking 1 52 ⟨2, 102, none, false⟩ 12 ++ linking 3 53 ⟨3, 103, none, false⟩ 13 ++
        sending 5 11 31 ++ [inserts 5] ++
        revoking 2 ++ [.purge 2 ⟨9, false, .stored 0, 0⟩])).any
          (fun s => decide (s.overBelow 10 = true ∧
            s.files.files.messages.rows ≠ [])) = true := by decide +kernel
  obtain ⟨s, hs, hend⟩ := (Option.any_eq_true _ _).mp hrun
  obtain ⟨hover, hrows⟩ := of_decide_eq_true hend
  have hreach := Runs.reachableVia_of_replayVia hs
  have hquiet : s.Quiet := quiet_of_below (hreach.mono fun _ _ h => h.2) hover
  have hnew : (1 : DeviceId) ∉ ([] : List DeviceId) := List.not_mem_nil
  exact ⟨s, hquiet, hrows, (@drained s 7 ⟨1, 101, none, false⟩ 11 [] [] [] (fun _ => none) hnew
    (hreach.mono fun _ _ h => h.1) hquiet).2⟩

/-- Device 1 has listed device 2 as a recipient, revokes it, and its purge is over when the
message is stored. -/
theorem revoked_holds_up : ∃ s : GroupServer, Runs.Reachable step start s ∧ s.Quiet ∧
    ∃ q ∈ s.files.files.deliveryStatus, q.downloadedAt = none ∧ ∃ d ∈ s.space.devices,
      d.id = q.deviceId ∧ d.active = false := by
  have hrun : (Runs.replayVia step (fun _ e => begunBelow 10 e = true) start
      (linking 1 52 ⟨2, 102, none, false⟩ 12 ++ sending 5 11 31 ++ revoking 2 ++
        [.purge 2 ⟨9, false, .stored 0, 0⟩] ++
        [inserts 5])).any
          (fun s => decide (s.overBelow 10 = true ∧
            ∃ q ∈ s.files.files.deliveryStatus, q.downloadedAt = none ∧
              ∃ d ∈ s.space.devices, d.id = q.deviceId ∧ d.active = false)) = true := by
                decide +kernel
  obtain ⟨s, hs, hend⟩ := (Option.any_eq_true _ _).mp hrun
  obtain ⟨hover, hrow⟩ := of_decide_eq_true hend
  have hreach := Runs.reachableVia_of_replayVia hs
  exact ⟨s, hreach.reachable, quiet_of_below hreach hover, hrow⟩

end GroupServer
end SendSelf
