import SendSelf.Files.Handlers
import SendSelf.Worker.Effects

/-!
# The server with its attachments

The requests about attachments and the cleanups run as jobs next to the requests
of the key protocol, one await at a time. A revocation drops what its device was
still to collect in the batch that revokes it; the purge it runs afterwards is a
job like the others, and so is each half of the cron job.
-/
namespace SendSelf

inductive Job where
  | upload (token : Token) (req : UploadRequest) (stage : UploadStage)
  | send (token : Token) (body : SendMessageRequest) (stage : SendStage)
  | ack (token : Token) (messageId : MessageId) (stage : AckStage)
  | purge (selection : Selection) (stage : PurgeStage)
  | sweep (olderThan : ℕ) (stage : SweepStage)
deriving Repr

namespace Job

/-- A job that has just begun. -/
def isNew : Job → Bool
  | .upload _ _ .received | .send _ _ .received | .ack _ _ .received | .purge _ .selecting
  | .sweep _ .claiming => true
  | _ => false

/-- Run a job from one await to the next. -/
def next (m : Moment) (space : SpaceDb) (db : FileDb) : Job → FileDb × Job
  | .upload token req stage =>
      let (db', stage') := uploadFile.next m token req space db stage
      (db', .upload token req stage')
  | .send token body stage =>
      let (db', stage') := sendMessage.next m token body space db stage
      (db', .send token body stage')
  | .ack token id stage =>
      let (db', stage') := ackMessage.next m token id space db stage
      (db', .ack token id stage')
  | .purge selection stage =>
      let (db', stage') := purgeMessages.next m selection db stage
      (db', .purge selection stage')
  | .sweep olderThan stage =>
      let (db', stage') := purgeOrphanBlobs.next m olderThan db stage
      (db', .sweep olderThan stage')

/-- The keys whose row or object the job removes next, whatever it finds. -/
def cleaning : Job → List FileKey
  | .upload _ req (.discarding _) | .upload _ req (.discarded _) => [req.r2Key]
  | .send _ _ (.dropping key) | .send _ _ (.dropped key) => [key]
  | .send _ _ (.clearing _ keys) | .ack _ _ (.clearing keys) | .purge _ (.clearing keys)
  | .sweep _ (.clearing keys) => keys
  | _ => []

/-- The key whose object the job has found and is about to reference. -/
def expects : Job → Option FileKey
  | .send _ body (.inserting _ _) => body.fileR2Key
  | _ => none

/-- The keys whose cleaning the job's next step begins: an upload that failed, a
message that nobody is to receive, messages deleted, and orphans claimed. -/
def begins (m : Moment) (space : SpaceDb) (db : FileDb) : Job → List FileKey
  | .upload _ req (.writing _) => if m.transfer.fails then [req.r2Key] else []
  | .send _ body (.listing auth) =>
      if sendMessage.messageRecipients space auth.deviceId = [] then body.fileR2Key.toList else []
  | .send _ _ (.destroying _ found) | .ack _ _ (.destroying found) | .purge _ (.destroying found) =>
      fileKeys found
  | .sweep olderThan .claiming => orphans olderThan m.share db
  | _ => []

/-- The key whose object the job's next step finds. -/
def finds (db : FileDb) : Job → Option FileKey
  | .send _ body (.heading _ _) => body.fileR2Key.filter fun key => (db.objects key).isSome
  | _ => none

/-- The messages that the batch the job runs next deletes. -/
def deletes : Job → List FoundMessage
  | .send _ _ (.destroying _ found) | .ack _ _ (.destroying found) |
    .purge _ (.destroying found) => found
  | _ => []

theorem quiet_of_isNew {job : Job} (h : job.isNew = true) :
    job.expects = none ∧ job.cleaning = [] := by
  unfold isNew at h
  split at h
  · exact ⟨rfl, rfl⟩
  · exact ⟨rfl, rfl⟩
  · exact ⟨rfl, rfl⟩
  · exact ⟨rfl, rfl⟩
  · exact ⟨rfl, rfl⟩
  · cases h

end Job

structure FileServer where
  server : Server
  files : FileDb
  jobs : RequestId → Option Job

inductive FileEvent where
  | server (e : ServerEvent)
  | start (r : RequestId) (job : Job)
  | run (r : RequestId) (m : Moment)
deriving Repr

namespace FileServer

/-- What the device of a revocation that commits was still to collect. -/
def dropDeliveries (server : Server) : ServerEvent → FileDb → FileDb
  | .advance r _ _, db =>
      match server.flights r with
      | some ⟨_, .revokeDevice deviceId, .ready _⟩ =>
          { db with deliveryStatus := db.deliveryStatus.delete fun d =>
              decide (d.deviceId = deviceId) && d.downloadedAt.isNone }
      | _ => db
  | _, db => db

theorem dropDeliveries_eq (server : Server) (e : ServerEvent) (db : FileDb) :
    ∃ deliveryStatus, dropDeliveries server e db = { db with deliveryStatus } := by
  unfold dropDeliveries
  split
  · split
    · exact ⟨_, rfl⟩
    · exact ⟨db.deliveryStatus, rfl⟩
  · exact ⟨db.deliveryStatus, rfl⟩

def start (s : FileServer) (r : RequestId) (job : Job) : Option FileServer :=
  if job.isNew ∧ (s.jobs r).isNone then some { s with jobs := Function.update s.jobs r (some job) }
  else none

def run (s : FileServer) (r : RequestId) (m : Moment) : Option FileServer :=
  (s.jobs r).map fun job =>
    let (files, job) := job.next m s.server.db s.files
    { s with files, jobs := Function.update s.jobs r (some job) }

def step (s : FileServer) : FileEvent → Option FileServer
  | .server e => (s.server.step e).map fun server =>
      { s with server, files := dropDeliveries s.server e s.files }
  | .start r job => s.start r job
  | .run r m => s.run r m

end FileServer

def FileDb.empty : FileDb where
  messages := .empty
  deliveryStatus := .empty
  uploads := .empty
  objects := fun _ => none
  foreign := []

/-- A new group, with nothing sent yet. -/
def FileServer.founded (groupId : GroupId) (founder : SlotDevice) (token : Token)
    (elsewhere : List DeviceId) (foreign : List MessageId) : FileServer where
  server := .founded groupId founder token elsewhere
  files := { FileDb.empty with foreign }
  jobs := fun _ => none

/-- What a job's step does to the claims on a key and to what backs them. -/
structure JobStep (m : Moment) (space : SpaceDb) (db : FileDb) (job : Job) (db' : FileDb)
    (job' : Job) :
    Prop where
  /-- A message afterwards was there before and is not deleted, or is the one the job inserts. -/
  messages : ∀ row ∈ db'.messages, (row ∈ db.messages ∧ row.id ∉ job.deletes.map FoundMessage.id) ∨
    (row.fileR2Key = job.expects ∧ job'.cleaning = [])
  /-- Only a job that is cleaning a key removes its object. -/
  objects : ∀ key, (db.objects key).isSome → (db'.objects key).isSome ∨ key ∈ job.cleaning
  /-- A job that drops a key's row goes on to clean the key. -/
  uploads : ∀ key, Accounted db.uploads key → Accounted db'.uploads key ∨ key ∈ job'.cleaning
  cleaning : ∀ key ∈ job'.cleaning, key ∈ job.cleaning ∨ key ∈ job.begins m space db
  expects : ∀ key, job'.expects = some key → job.expects = some key ∨ job.finds db = some key
  single : job'.expects ≠ none → job'.cleaning = []

theorem Job.isSome_of_finds {db : FileDb} {job : Job} {key : FileKey}
    (h : job.finds db = some key) :
    (db.objects key).isSome := by
  unfold finds at h
  split at h
  · exact (Option.filter_eq_some_iff.mp h).2
  · cases h

namespace JobStep

variable {m : Moment} {space : SpaceDb} {db db' : FileDb} {job job' : Job}

/-- A step that keeps the messages and only adds objects and rows. -/
theorem of_grow (hm : db'.messages = db.messages) (hdel : job.deletes = [])
    (ho : ∀ key, (db.objects key).isSome → (db'.objects key).isSome)
    (hu : ∀ key, Accounted db.uploads key → Accounted db'.uploads key) (he : job'.expects = none)
    (hc : ∀ key ∈ job'.cleaning, key ∈ job.begins m space db) :
    JobStep m space db job db' job' := by
  refine ⟨fun row hmem => Or.inl ⟨hm ▸ hmem, by simp [hdel]⟩, fun key hk => Or.inl (ho key hk),
    fun key hk => Or.inl (hu key hk), fun key hk => Or.inr (hc key hk), fun key hk => ?_,
    fun hn => absurd he hn⟩
  simp [he] at hk

theorem of_same (hdel : job.deletes = []) (he : job'.expects = none) (hc : job'.cleaning = []) :
    JobStep m space db job db job' :=
  of_grow rfl hdel (fun _ h => h) (fun _ h => h) he fun key hk => by simp [hc] at hk

theorem of_deleteObjects {keys : List FileKey} (hdel : job.deletes = []) (hc : job.cleaning = keys)
    (he : job'.expects = none) (hc' : job'.cleaning = []) :
    JobStep m space db job (deleteObjects keys db) job' := by
  refine ⟨fun row hmem => Or.inl ⟨hmem, by simp [hdel]⟩, fun key hk => ?_, fun key hk => Or.inl hk,
    fun key hk => ?_, fun key hk => ?_, fun hn => absurd he hn⟩
  · by_cases hmem : key ∈ keys
    · exact Or.inr (hc ▸ hmem)
    · exact Or.inl (by rw [objects_deleteObjects hmem]; exact hk)
  · simp [hc'] at hk
  · simp [he] at hk

theorem of_deleteMessages {found : List FoundMessage} (hdel : job.deletes = found)
    (hb : job.begins m space db = fileKeys found) (hc : job'.cleaning = fileKeys found)
    (he : job'.expects = none) : JobStep m space db job (deleteMessages found db) job' := by
  refine ⟨fun row hmem => Or.inl (hdel ▸ mem_deleteMessages.mp hmem), fun key hk => Or.inl hk,
    fun key hk => ?_, fun key hk => ?_, fun key hk => ?_, fun hn => absurd he hn⟩
  · by_cases hmem : key ∈ fileKeys found
    · exact Or.inr (hc ▸ hmem)
    · exact Or.inl (accounted_deleteMessages.mpr ⟨hk, hmem⟩)
  · right
    rw [hb, ← hc]
    exact hk
  · simp [he] at hk

theorem of_forgetBlob {key : FileKey} (hdel : job.deletes = []) (hc : job.cleaning = [key])
    (hc' : job'.cleaning = [key]) (he : job'.expects = none) :
    JobStep m space db job (forgetBlob key db) job' := by
  refine ⟨fun row hmem => Or.inl ⟨hmem, by simp [hdel]⟩, fun k hk => Or.inl hk, fun k hk => ?_,
    fun k hk => Or.inl ?_, fun k hk => ?_, fun hn => absurd he hn⟩
  · by_cases hne : k = key
    · exact Or.inr (by simp [hc', hne])
    · exact Or.inl (accounted_forgetBlob.mpr ⟨hk, hne⟩)
  · rw [hc, ← hc']
    exact hk
  · simp [he] at hk

end JobStep

theorem uploadFile.jobStep {m : Moment} {token : Token} {req : UploadRequest} {space : SpaceDb}
    {db : FileDb} {stage : UploadStage} : JobStep m space db (.upload token req stage)
      (next m token req space db stage).1
        (.upload token req (next m token req space db stage).2) := by
  cases stage with
  | received =>
    simp only [next]
    refine orAnswer_cases (P := fun stage' => JobStep m space db _ db (.upload token req stage'))
      (fun _ => .of_same rfl rfl rfl) fun stage' hs => ?_
    simp only [bind_eq_ok, pure_eq_ok] at hs
    obtain ⟨_, _, _, _, ⟨length, body⟩, _, rfl⟩ := hs
    exact .of_same rfl rfl rfl
  | admitted length body =>
    simp only [next]
    cases hr : reserveBlob req.r2Key length SPACE_PENDING_BYTES_QUOTA m.now db with
    | none => exact .of_same rfl rfl rfl
    | some db' =>
      unfold reserveBlob at hr
      split_ifs at hr
      obtain rfl := Option.some.inj hr
      exact .of_grow rfl rfl (fun _ h => h) (fun _ h => accounted_upsertUpload.mpr (Or.inr h)) rfl
        fun _ hk => (nomatch hk)
  | writing body =>
    have hfail : ∀ key ∈ (Job.upload token req (afterTransfer m.transfer)).cleaning,
        key ∈ (Job.upload token req (.writing body)).begins m space db := by
      intro key hk
      cases ht : m.transfer with
      | stored reported =>
        rw [ht, afterTransfer] at hk
        split_ifs at hk with hbig
        · simpa [Job.begins, Job.cleaning, ht, Transfer.fails, hbig] using hk
        · cases hk
      | copyFailed exceeded stored =>
        rw [ht] at hk
        cases exceeded <;>
          simpa [Job.begins, Job.cleaning, afterTransfer, ht, Transfer.fails] using hk
      | putFailed stored =>
        rw [ht] at hk
        simpa [Job.begins, Job.cleaning, afterTransfer, ht, Transfer.fails] using hk
    have hnone : (Job.upload token req (afterTransfer m.transfer)).expects = none := rfl
    have hput : JobStep m space db (.upload token req (.writing body)) (putObject req.r2Key body db)
        (.upload token req (afterTransfer m.transfer)) := by
      refine .of_grow rfl rfl (fun key hk => ?_) (fun _ h => h) hnone hfail
      by_cases he : key = req.r2Key
      · simp [putObject, he]
      · simpa [putObject, Function.update_of_ne he] using hk
    have hkeep : JobStep m space db (.upload token req (.writing body)) db
        (.upload token req (afterTransfer m.transfer)) :=
      .of_grow rfl rfl (fun _ h => h) (fun _ h => h) hnone hfail
    simp only [next, transferred]
    split
    · exact hput
    · exact hput
    · exact hput
    · exact hkeep
    · exact hkeep
  | discarding e => exact .of_forgetBlob rfl rfl rfl rfl
  | discarded e => exact .of_deleteObjects rfl rfl rfl rfl
  | recording size =>
    exact .of_grow rfl rfl (fun _ h => h) (fun _ h => accounted_upsertUpload.mpr (Or.inr h)) rfl
      fun _ hk => (nomatch hk)
  | answered a => exact .of_same rfl rfl rfl

theorem sendMessage.jobStep {m : Moment} {token : Token} {body : SendMessageRequest}
    {space : SpaceDb}
    {db : FileDb} {stage : SendStage} : JobStep m space db (.send token body stage)
      (next m token body space db stage).1
        (.send token body (next m token body space db stage).2) := by
  cases stage with
  | received =>
    simp only [next]
    refine orAnswer_cases (P := fun stage' => JobStep m space db _ db (.send token body stage'))
      (fun _ => .of_same rfl rfl rfl) fun stage' hs => ?_
    simp only [bind_eq_ok, pure_eq_ok] at hs
    obtain ⟨_, _, _, _, _, _, rfl⟩ := hs
    exact .of_same rfl rfl rfl
  | authed auth =>
    simp only [next]
    refine orAnswer_cases (P := fun stage' => JobStep m space db _ db (.send token body stage'))
      (fun _ => .of_same rfl rfl rfl) fun stage' hs => ?_
    unfold checkDuplicate at hs
    split_ifs at hs
    split at hs <;> obtain rfl := Except.ok.inj hs <;> exact .of_same rfl rfl rfl
  | targeting auth target =>
    simp only [next]
    split <;> exact .of_same rfl rfl rfl
  | destroying auth found =>
    simp only [next]
    split_ifs with hk
    · exact .of_deleteMessages rfl rfl hk.symm rfl
    · exact .of_deleteMessages rfl rfl rfl rfl
  | clearing auth keys => exact .of_deleteObjects rfl rfl rfl rfl
  | listing auth =>
    simp only [next, afterListing]
    split
    · next key hr hb =>
      refine .of_grow rfl rfl (fun _ h => h) (fun _ h => h) rfl fun k hk => ?_
      simpa [Job.begins, Job.cleaning, hr, hb] using hk
    · exact .of_same rfl rfl rfl
    · exact .of_same rfl rfl rfl
    · next hnone _ => exact .of_same rfl hnone rfl
  | dropping key => exact .of_forgetBlob rfl rfl rfl rfl
  | dropped key => exact .of_deleteObjects rfl rfl rfl rfl
  | heading auth recipients =>
    simp only [next]
    split_ifs with hh
    · refine ⟨fun row hm => Or.inl ⟨hm, List.not_mem_nil⟩, fun _ hk => Or.inl hk,
        fun _ hk => Or.inl hk,
        fun _ hk => (by cases hk), fun key hk => Or.inr ?_, fun _ => rfl⟩
      have hkey : body.fileR2Key = some key := hk
      rw [hkey] at hh
      exact Option.filter_eq_some_iff.mpr ⟨hkey, hh⟩
    · exact .of_same rfl rfl rfl
  | inserting auth recipients =>
    simp only [next]
    rcases @finish_spec auth body recipients m.now db with hf | ⟨messages, deliveries, hins, hf⟩
    · rw [hf]
      exact .of_same rfl rfl rfl
    · rw [hf]
      refine ⟨fun row hm => ?_, fun _ hk => Or.inl hk, fun _ hk => Or.inl hk,
        fun _ hk => (by cases hk),
        fun _ hk => (by cases hk), fun hn => absurd rfl hn⟩
      rcases ((Table.insert_eq_some hins).1 row).mp hm with hm | rfl
      · exact Or.inl ⟨hm, List.not_mem_nil⟩
      · exact Or.inr ⟨rfl, rfl⟩
  | answered a => exact .of_same rfl rfl rfl

theorem ackMessage.jobStep {m : Moment} {token : Token} {id : MessageId} {space : SpaceDb}
    {db : FileDb} {stage : AckStage} : JobStep m space db (.ack token id stage)
      (next m token id space db stage).1 (.ack token id (next m token id space db stage).2) := by
  cases stage with
  | received =>
    simp only [next]
    refine orAnswer_cases (P := fun stage' => JobStep m space db _ db (.ack token id stage'))
      (fun _ => .of_same rfl rfl rfl) fun stage' hs => ?_
    simp only [bind_eq_ok, pure_eq_ok] at hs
    obtain ⟨_, _, rfl⟩ := hs
    exact .of_same rfl rfl rfl
  | authed auth =>
    simp only [next]
    split_ifs <;> exact .of_same rfl rfl rfl
  | owned auth => exact .of_grow rfl rfl (fun _ h => h) (fun _ h => h) rfl fun _ hk => (nomatch hk)
  | marked =>
    simp only [next]
    split_ifs <;> exact .of_same rfl rfl rfl
  | selecting =>
    simp only [next]
    split <;> exact .of_same rfl rfl rfl
  | destroying found =>
    simp only [next]
    split_ifs with hk
    · exact .of_deleteMessages rfl rfl hk.symm rfl
    · exact .of_deleteMessages rfl rfl rfl rfl
  | clearing keys => exact .of_deleteObjects rfl rfl rfl rfl
  | answered a => exact .of_same rfl rfl rfl

theorem purgeMessages.jobStep {m : Moment} {selection : Selection} {space : SpaceDb} {db : FileDb}
    {stage : PurgeStage} : JobStep m space db (.purge selection stage) (next m selection db stage).1
      (.purge selection (next m selection db stage).2) := by
  cases stage with
  | selecting =>
    simp only [next]
    split <;> exact .of_same rfl rfl rfl
  | destroying found =>
    simp only [next]
    split_ifs with hk
    · exact .of_deleteMessages rfl rfl hk.symm rfl
    · exact .of_deleteMessages rfl rfl rfl rfl
  | clearing keys => exact .of_deleteObjects rfl rfl rfl rfl
  | done => exact .of_same rfl rfl rfl

theorem purgeOrphanBlobs.jobStep {m : Moment} {olderThan : ℕ} {space : SpaceDb} {db : FileDb}
    {stage : SweepStage} : JobStep m space db (.sweep olderThan stage) (next m olderThan db stage).1
      (.sweep olderThan (next m olderThan db stage).2) := by
  cases stage with
  | claiming =>
    simp only [next]
    split
    · exact .of_same rfl rfl rfl
    · refine ⟨fun row hm => Or.inl ⟨hm, List.not_mem_nil⟩, fun _ hk => Or.inl hk,
        fun key hkey => ?_,
        fun _ hk => Or.inr hk, fun _ hk => (nomatch hk), fun hn => absurd rfl hn⟩
      by_cases hmem : key ∈ orphans olderThan m.share db
      · exact Or.inr hmem
      · exact Or.inl (accounted_claimOrphans.mpr ⟨hkey, hmem⟩)
  | clearing keys => exact .of_deleteObjects rfl rfl rfl rfl
  | done => exact .of_same rfl rfl rfl

theorem Job.next_jobStep {m : Moment} {space : SpaceDb} {db : FileDb} {job : Job} :
    JobStep m space db job (job.next m space db).1 (job.next m space db).2 := by
  cases job with
  | upload token req stage => exact uploadFile.jobStep
  | send token body stage => exact sendMessage.jobStep
  | ack token id stage => exact ackMessage.jobStep
  | purge selection stage => exact purgeMessages.jobStep
  | sweep olderThan stage => exact purgeOrphanBlobs.jobStep

end SendSelf
