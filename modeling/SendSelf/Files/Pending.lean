import SendSelf.Files.FileServer

/-!
# What a job may still write

An upload on its way will put the object it carries, and a send the row of its
message, unless the worker refuses them first. Neither changes while it runs: the
epoch check of a send passes only in the epoch the message was encrypted in, and
the space never goes back to it.
-/
namespace SendSelf
namespace Job

/-- The object the job may still put. -/
def pendingPut : Job → Option (FileKey × FileCiphertext)
  | .upload _ req .received => req.body.map fun body => (req.r2Key, body)
  | .upload _ req (.admitted _ body) | .upload _ req (.writing body) => some (req.r2Key, body)
  | _ => none

/-- The message whose row the job may still insert. -/
def pendingRow (space : SpaceDb) : Job → Option SendMessageRequest
  | .send _ body .received => if space.keyEpoch ≤ body.keyEpoch then some body else none
  | .send _ body (.authed auth) => if auth.groupKeyEpoch = body.keyEpoch then some body else none
  | .send _ body (.targeting _ _) | .send _ body (.destroying _ _) | .send _ body (.clearing _ _)
  | .send _ body (.listing _) | .send _ body (.heading _ _) |
      .send _ body (.inserting _ _) => some body
  | _ => none

/-- An upload that was stored and accepted. -/
def landed : Job → Bool
  | .upload _ _ (.recording _) | .upload _ _ (.answered (.ok ())) => true
  | _ => false

/-- The upload request that the job serves. -/
def uploads : Job → Option UploadRequest
  | .upload _ req _ => some req
  | _ => none

theorem pendingRow_mono {space space' : SpaceDb} {job : Job} {body : SendMessageRequest}
    (hle : space.keyEpoch ≤ space'.keyEpoch) (h : job.pendingRow space' = some body) :
    job.pendingRow space = some body := by
  unfold pendingRow at h
  split at h
  · split_ifs at h with hbody
    simpa [pendingRow, hle.trans hbody] using h
  · exact h
  · exact h
  · exact h
  · exact h
  · exact h
  · exact h
  · exact h
  · cases h

end Job

/-- What a job's step writes was pending before it. -/
structure JobWrites (space : SpaceDb) (db : FileDb) (job : Job) (db' : FileDb)
    (job' : Job) : Prop where
  objects : ∀ key c, db'.objects key = some c → db.objects key = some c ∨
    job.pendingPut = some (key, c)
  messages : ∀ row ∈ db'.messages, row ∈ db.messages ∨ ∃ auth body now,
    job.pendingRow space = some body ∧ row = sendMessage.row auth body now
  puts : ∀ p, job'.pendingPut = some p → job.pendingPut = some p
  rows : ∀ body, job'.pendingRow space = some body → job.pendingRow space = some body
  uploads : job'.uploads = job.uploads
  /-- An upload lands by putting the object it carries. -/
  lands : job'.landed → job.landed ∨ ∃ key c, job.pendingPut = some (key, c) ∧
    db'.objects key = some c ∧
    ∀ req, job.uploads = some req → req.r2Key = key

namespace JobWrites

variable {space : SpaceDb} {db db' : FileDb} {job job' : Job}

/-- A step that neither puts nor inserts. -/
theorem of_quiet (ho : ∀ key c, db'.objects key = some c → db.objects key = some c)
    (hm : ∀ row ∈ db'.messages, row ∈ db.messages)
    (hp : ∀ p, job'.pendingPut = some p → job.pendingPut = some p)
    (hr : ∀ body, job'.pendingRow space = some body → job.pendingRow space = some body)
    (hu : job'.uploads = job.uploads) (hl : job'.landed → job.landed) :
    JobWrites space db job db' job' :=
  ⟨fun key c h => Or.inl (ho key c h), fun row h => Or.inl (hm row h), hp, hr, hu,
    fun h => Or.inl (hl h)⟩

/-- A job that is no upload or send writes nothing. -/
theorem of_cleaner (ho : ∀ key c, db'.objects key = some c → db.objects key = some c)
    (hm : ∀ row ∈ db'.messages, row ∈ db.messages) (hp : job'.pendingPut = none)
    (hr : job'.pendingRow space = none) (hu : job'.uploads = job.uploads)
    (hl : job'.landed = false) :
    JobWrites space db job db' job' := by
  refine of_quiet ho hm (fun p h => ?_) (fun body h => ?_) hu fun h => ?_
  · simp [hp] at h
  · simp [hr] at h
  · simp [hl] at h

end JobWrites

theorem objects_of_deleteObjects {keys : List FileKey} {db : FileDb} {key : FileKey}
    {c : FileCiphertext}
    (h : (deleteObjects keys db).objects key = some c) : db.objects key = some c := by
  simp only [deleteObjects] at h
  split_ifs at h
  exact h

theorem uploadFile.jobWrites {m : Moment} {token : Token} {req : UploadRequest} {space : SpaceDb}
    {db : FileDb} {stage : UploadStage} : JobWrites space db (.upload token req stage)
      (next m token req space db stage).1
        (.upload token req (next m token req space db stage).2) := by
  have hkeep : ∀ {stage stage' : UploadStage} {db' : FileDb}, db'.objects = db.objects →
      db'.messages = db.messages → (Job.upload token req stage').pendingPut = none →
      ((Job.upload token req stage').landed → (Job.upload token req stage).landed) →
      JobWrites space db (.upload token req stage) db' (.upload token req stage') := by
    intro stage stage' db' ho hm hp hl
    refine .of_quiet (fun key c h => ho ▸ h) (fun row h => hm ▸ h) (fun p h => ?_)
      (fun body h => (by cases h)) rfl hl
    simp [hp] at h
  cases stage with
  | received =>
    simp only [next]
    refine orAnswer_cases (P := fun stage' => JobWrites space db _ db (.upload token req stage'))
      (fun _ => hkeep rfl rfl rfl fun h => (by cases h)) fun stage' hs => ?_
    simp only [bind_eq_ok, pure_eq_ok] at hs
    obtain ⟨_, _, _, _, ⟨length, body⟩, hcheck, rfl⟩ := hs
    have hbody : req.body = some body := by
      unfold checkHeaders at hcheck
      split at hcheck
      · cases hcheck
      · split_ifs at hcheck
        split at hcheck
        · cases hcheck
        · next hb =>
          obtain ⟨_, rfl⟩ := (Prod.mk.injEq ..).mp (Except.ok.inj hcheck)
          exact hb
    refine .of_quiet (fun _ _ h => h) (fun _ h => h) (fun p h => ?_) (fun _ h => h) rfl fun h =>
      (by cases h)
    simpa [Job.pendingPut, hbody] using h
  | admitted length body =>
    simp only [next]
    cases hr : reserveBlob req.r2Key length SPACE_PENDING_BYTES_QUOTA m.now db with
    | none => exact hkeep rfl rfl rfl fun h => (by cases h)
    | some db' =>
      unfold reserveBlob at hr
      split_ifs at hr
      obtain rfl := Option.some.inj hr
      exact .of_quiet (fun _ _ h => h) (fun _ h => h) (fun _ h => h) (fun _ h => h) rfl fun h =>
        (by cases h)
  | writing body =>
    have hstage : (Job.upload token req (afterTransfer m.transfer)).pendingPut = none ∧
        (Job.upload token req (afterTransfer m.transfer)).pendingRow space = none := by
      unfold afterTransfer
      split
      · exact ⟨rfl, rfl⟩
      · exact ⟨rfl, rfl⟩
      · exact ⟨rfl, rfl⟩
      · split_ifs <;> exact ⟨rfl, rfl⟩
    have hput : JobWrites space db (.upload token req (.writing body)) (putObject req.r2Key body db)
        (.upload token req (afterTransfer m.transfer)) := by
      refine ⟨fun key c h => ?_, fun row h => Or.inl h, fun p h => ?_, fun _ h => ?_, rfl,
        fun _ => Or.inr
        ⟨req.r2Key, body, rfl, Function.update_self .., fun _ h => by rw [← Option.some.inj h]⟩⟩
      · by_cases he : key = req.r2Key
        · subst he
          have hc : some body = some c := by simpa [putObject] using h
          exact Or.inr (by rw [Job.pendingPut, Option.some.inj hc])
        · exact Or.inl (by simpa [putObject, Function.update_of_ne he] using h)
      · simp [hstage.1] at h
      · simp [hstage.2] at h
    have hfail : m.transfer.fails = true → JobWrites space db (.upload token req (.writing body)) db
        (.upload token req (afterTransfer m.transfer)) := by
      intro hf
      refine hkeep rfl rfl hstage.1 fun h => ?_
      unfold afterTransfer at h
      split at h
      · cases h
      · cases h
      · cases h
      · next reported ht =>
        rw [ht, Transfer.fails, decide_eq_true_eq] at hf
        rw [if_pos hf] at h
        cases h
    simp only [next, transferred]
    split
    · exact hput
    · exact hput
    · exact hput
    · next ht => exact hfail (by rw [ht]; rfl)
    · next ht => exact hfail (by rw [ht]; rfl)
  | discarding e => exact hkeep rfl rfl rfl fun h => (by cases h)
  | discarded e =>
    exact .of_quiet (fun _ _ h => objects_of_deleteObjects h) (fun _ h => h) (fun _ h =>
      (by cases h))
      (fun _ h => (by cases h)) rfl fun h => (by cases h)
  | recording size => exact hkeep rfl rfl rfl fun _ => rfl
  | answered a => exact hkeep rfl rfl rfl fun h => h

theorem sendMessage.jobWrites {m : Moment} {token : Token} {body : SendMessageRequest}
    {space : SpaceDb}
    {db : FileDb} {stage : SendStage} : JobWrites space db (.send token body stage)
      (next m token body space db stage).1
        (.send token body (next m token body space db stage).2) := by
  have hkeep : ∀ {stage stage' : SendStage} {db' : FileDb},
      (∀ key c, db'.objects key = some c → db.objects key = some c) →
      (∀ row ∈ db'.messages, row ∈ db.messages) →
      ((Job.send token body stage).pendingRow space = some body ∨
        (Job.send token body stage').pendingRow space = none) →
      (Job.send token body stage').pendingRow space ∈ [none, some body] →
      JobWrites space db (.send token body stage) db' (.send token body stage') := by
    intro stage stage' db' ho hm hr hr'
    refine .of_quiet ho hm (fun p h => (by cases h)) (fun b h => ?_) rfl fun h => (by cases h)
    rcases hr with hr | hr
    · rcases List.mem_cons.mp hr' with hn | hs
      · simp [hn] at h
      · rw [hr, ← List.mem_singleton.mp hs]
        exact h
    · simp [hr] at h
  have hsame : ∀ (stage : SendStage) {stage' : SendStage},
      ((Job.send token body stage).pendingRow space = some body ∨
        (Job.send token body stage').pendingRow space = none) →
      (Job.send token body stage').pendingRow space ∈ [none, some body] →
      JobWrites space db (.send token body stage) db (.send token body stage') :=
    fun stage => hkeep (fun _ _ h => h) fun _ h => h
  cases stage with
  | received =>
    simp only [next]
    refine orAnswer_cases (P := fun stage' => JobWrites space db _ db (.send token body stage'))
      (fun _ => hsame _ (Or.inr rfl) (List.mem_cons_self ..)) fun stage' hs => ?_
    simp only [bind_eq_ok, pure_eq_ok] at hs
    obtain ⟨auth, hauth, _, _, _, _, rfl⟩ := hs
    obtain ⟨_, _, _, _, _, _, _, hepoch, _⟩ := authenticate_eq_ok hauth
    refine .of_quiet (fun _ _ h => h) (fun _ h => h) (fun _ h => (by cases h)) (fun b h => ?_) rfl
      fun h => (by cases h)
    simp only [Job.pendingRow, hepoch] at h ⊢
    split_ifs at h with heq
    rw [if_pos heq.le]
    exact h
  | authed auth =>
    simp only [next]
    refine orAnswer_cases (P := fun stage' => JobWrites space db _ db (.send token body stage'))
      (fun _ => hsame _ (Or.inr rfl) (List.mem_cons_self ..)) fun stage' hs => ?_
    unfold checkDuplicate at hs
    split_ifs at hs with _ hepoch
    have hpend : (Job.send token body (.authed auth)).pendingRow space = some body := by
      rw [Job.pendingRow, if_pos (not_not.mp hepoch).symm]
    split at hs <;> obtain rfl :=
      Except.ok.inj hs <;> exact hsame _ (Or.inl hpend) (by simp [Job.pendingRow])
  | targeting auth target =>
    simp only [next]
    split <;> exact hsame _ (Or.inl rfl) (by simp [Job.pendingRow])
  | destroying auth found =>
    have hdel : ∀ row ∈ (deleteMessages found db).messages, row ∈ db.messages :=
      fun row h => (mem_deleteMessages.mp h).1
    simp only [next]
    split_ifs
    · exact hkeep (fun _ _ h => h) hdel (Or.inl rfl) (by simp [Job.pendingRow])
    · exact hkeep (fun _ _ h => h) hdel (Or.inl rfl) (by simp [Job.pendingRow])
  | clearing auth keys =>
    exact hkeep (fun _ _ h => objects_of_deleteObjects h) (fun _ h => h) (Or.inl rfl)
      (by simp [Job.pendingRow, next])
  | listing auth =>
    simp only [next, afterListing]
    split <;> exact hsame _ (Or.inl rfl) (by simp [Job.pendingRow])
  | dropping key => exact hkeep (fun _ _ h => h) (fun _ h => h) (Or.inr rfl) (List.mem_cons_self ..)
  | dropped key =>
    exact hkeep (fun _ _ h => objects_of_deleteObjects h) (fun _ h => h) (Or.inr rfl)
      (List.mem_cons_self ..)
  | heading auth recipients =>
    simp only [next]
    split_ifs
    · exact hsame _ (Or.inl rfl) (by simp [Job.pendingRow])
    · exact hsame _ (Or.inr rfl) (List.mem_cons_self ..)
  | inserting auth recipients =>
    simp only [next]
    rcases @finish_spec auth body recipients m.now db with hf | ⟨messages, deliveries, hins, hf⟩
    · rw [hf]
      exact hsame _ (Or.inr rfl) (List.mem_cons_self ..)
    · rw [hf]
      refine ⟨fun _ _ h => Or.inl h, fun row hm => ?_, fun _ h => (by cases h),
        fun _ h => (by cases h), rfl,
        fun h => (by cases h)⟩
      rcases ((Table.insert_eq_some hins).1 row).mp hm with hm | rfl
      · exact Or.inl hm
      · exact Or.inr ⟨auth, body, m.now, rfl, rfl⟩
  | answered a => exact hsame (.answered a) (Or.inr rfl) (List.mem_cons_self ..)

theorem ackMessage.jobWrites {m : Moment} {token : Token} {id : MessageId} {space : SpaceDb}
    {db : FileDb} {stage : AckStage} : JobWrites space db (.ack token id stage)
      (next m token id space db stage).1 (.ack token id (next m token id space db stage).2) := by
  refine .of_cleaner (fun key c h => ?_) (fun row h => ?_) rfl rfl rfl rfl
  · cases stage with
    | clearing keys => exact objects_of_deleteObjects h
    | selecting =>
      simp only [next] at h
      split at h <;> exact h
    | _ => exact h
  · cases stage with
    | destroying found => exact (mem_deleteMessages.mp h).1
    | selecting =>
      simp only [next] at h
      split at h <;> exact h
    | _ => exact h

theorem purgeMessages.jobWrites {m : Moment} {selection : Selection} {space : SpaceDb} {db : FileDb}
    {stage : PurgeStage} : JobWrites space db (.purge selection stage) (next m selection db stage).1
      (.purge selection (next m selection db stage).2) := by
  refine .of_cleaner (fun key c h => ?_) (fun row h => ?_) rfl rfl rfl rfl
  · cases stage with
    | clearing keys => exact objects_of_deleteObjects h
    | selecting =>
      simp only [next] at h
      split at h <;> exact h
    | _ => exact h
  · cases stage with
    | destroying found => exact (mem_deleteMessages.mp h).1
    | selecting =>
      simp only [next] at h
      split at h <;> exact h
    | _ => exact h

theorem purgeOrphanBlobs.jobWrites {m : Moment} {olderThan : ℕ} {space : SpaceDb} {db : FileDb}
    {stage : SweepStage} : JobWrites space db (.sweep olderThan stage) (next m olderThan db stage).1
      (.sweep olderThan (next m olderThan db stage).2) := by
  refine .of_cleaner (fun key c h => ?_) (fun row h => ?_) rfl rfl rfl rfl
  · cases stage with
    | clearing keys => exact objects_of_deleteObjects h
    | claiming =>
      simp only [next] at h
      split at h <;> exact h
    | done => exact h
  · cases stage with
    | claiming =>
      simp only [next] at h
      split at h <;> exact h
    | _ => exact h

theorem Job.next_jobWrites {m : Moment} {space : SpaceDb} {db : FileDb} {job : Job} :
    JobWrites space db job (job.next m space db).1 (job.next m space db).2 := by
  cases job with
  | upload token req stage => exact uploadFile.jobWrites
  | send token body stage => exact sendMessage.jobWrites
  | ack token id stage => exact ackMessage.jobWrites
  | purge selection stage => exact purgeMessages.jobWrites
  | sweep olderThan stage => exact purgeOrphanBlobs.jobWrites

end SendSelf
