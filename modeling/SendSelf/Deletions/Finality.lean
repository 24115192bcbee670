import SendSelf.Deletions.History
import SendSelf.Library.Runs

/-!
# Deletions are final

While a deletion for everyone is applied, each of its stages has taken something of the
message away for good. A write brings a message back only from a copy that is in hand, and
the record loses a message only to a task that read it before. So what is in hand is not
being deleted, and the record that a task is about to write, if it was not written since,
has all that is in it.
-/
namespace SendSelf

namespace History

variable {h : History}

/-- What a deletion that has come so far has taken away. -/
structure Stage (h : History) (id : MessageId) (pc : DeletionPc) : Prop where
  writing : ∀ read deletions, pc = .writing read deletions → (deletions.get? id).isSome = true
  recorded : pc.recorded = true → (h.deletions.get? id).isSome = true
  unshown : pc.unshown = true → h.shown.get? id = none
  dropped : pc.dropped = true → h.messages.get? id = none

def drafts (h : History) : List (ℕ × Deletions) :=
  (h.pass.bind SyncPc.draft).toList ++ h.users.filterMap UserTask.draft

/-- A record that is to be written, and was not written since, has what is to stay in it. -/
structure Whole (h : History) (x : ℕ × Deletions) : Prop where
  read : x.1 ≤ h.writes
  kept : x.1 = h.writes → ∀ d ∈ h.deletions, h.Reached DeletionPc.recorded d.id →
    (x.2.get? d.id).isSome = true

structure Sound (h : History) : Prop where
  final : h.Final
  underway : ∀ x ∈ h.underway, h.Stage x.1 x.2
  drafts : ∀ x ∈ h.drafts, h.Whole x
  held : ∀ id ∈ h.held, ¬ h.Settled id

/-- The effect brings nothing back. -/
structure Harmless (h : History) (effect : Effect) : Prop where
  deletions : ∀ id, h.Reached DeletionPc.recorded id → (h.deletions.get? id).isSome = true →
    ((effect.run h).deletions.get? id).isSome = true
  shown : ∀ id, h.Reached DeletionPc.unshown id → h.shown.get? id = none →
    (effect.run h).shown.get? id = none
  messages : ∀ id, h.Reached DeletionPc.dropped id → h.messages.get? id = none →
    (effect.run h).messages.get? id = none

theorem get?_deleted {t : Table LocalMessage.id} {id k : MessageId} :
    (t.delete fun m => decide (m.id = id)).get? k = if k = id then none else t.get? k := by
  rw [Table.get?_delete]
  cases hget : t.get? k with
  | none => simp
  | some m =>
    have hm : m.id = k := (Table.get?_eq_some.mp hget).2
    by_cases hk : k = id <;> simp [Option.filter, hm, hk]

theorem get?_prune {deletions : Deletions} {now : ℕ} {d : Deletion} (hd : d ∈ deletions)
    (hlive : ¬ d.deletedAt + MESSAGE_TTL_MS ≤ now) :
    ((prune deletions now).get? d.id).isSome = true := by
  rw [prune, Table.get?_delete, Table.get?_of_mem hd]
  simp [Option.filter, hlive]

theorem get?_enter {proto : MessageId → Bool} {deletions : Deletions} {id now : ℕ}
    (h : proto id = false) :
    ((enter proto deletions id now).get? id).isSome = true := by
  simp [enter, h, Table.get?_put]

theorem get?_enter_of {proto : MessageId → Bool} {deletions : Deletions} {id k now : ℕ}
    (h : (deletions.get? k).isSome = true) :
    ((enter proto deletions id now).get? k).isSome = true := by
  unfold enter
  split_ifs
  · exact h
  · rw [Table.get?_put]
    split_ifs
    · rfl
    · exact h

/-- The row that a step writes or shows. -/
def Effect.written : Effect → Option LocalMessage
  | .putMessage m | .showMessage m => some m
  | _ => none

theorem Sound.recorded_of_reached (hs : h.Sound) {stage : DeletionPc → Bool}
    (hstage : ∀ pc, stage pc = true → pc.recorded = true) {id : MessageId}
    (hreached : h.Reached stage id) :
    (h.deletions.get? id).isSome = true := by
  rcases hreached with hsettled | ⟨x, hx, rfl, hx'⟩
  · exact (hs.final id hsettled).deletions
  · exact (hs.underway x hx).recorded (hstage _ hx')

/-- No copy is in hand of a message that is going or gone. -/
theorem Sound.not_reached (hs : h.Sound)
    (hapart : ∀ x ∈ h.underway, x.1 ∉ h.held ∧ h.proto x.1 = false)
    {stage : DeletionPc → Bool} {id : MessageId} (hid : id ∈ h.held) : ¬ h.Reached stage id := by
  rintro (hsettled | ⟨x, hx, rfl, -⟩)
  · exact hs.held id hid hsettled
  · exact (hapart x hx).1 hid

theorem harmless {effect : Effect} (hs : h.Sound)
    (hapart : ∀ x ∈ h.underway, x.1 ∉ h.held ∧ h.proto x.1 = false)
    (hwritten : ∀ m, effect.written = some m → m.id ∈ h.held ∨ h.unseen m.id = true)
    (hsets : ∀ deletions, effect = .setDeletions deletions → (h.writes, deletions) ∈ h.drafts) :
    h.Harmless effect := by
  have hother : ∀ {m : LocalMessage} {stage : DeletionPc → Bool} {id : MessageId},
      effect.written = some m →
      (∀ pc, stage pc = true → pc.recorded = true) → h.Reached stage id → id ≠ m.id := by
    rintro m stage id hm hstage hreached rfl
    rcases hwritten m hm with hheld | hunseen
    · exact hs.not_reached hapart hheld hreached
    · have hnone : h.deletions.get? m.id = none := by
        simp only [unseen, Bool.and_eq_true, Option.isNone_iff_eq_none] at hunseen
        exact hunseen.2
      have hsome := hs.recorded_of_reached hstage hreached
      rw [hnone] at hsome
      cases hsome
  cases effect with
  | nothing => exact ⟨fun _ _ => id, fun _ _ => id, fun _ _ => id⟩
  | putMessage m =>
    refine ⟨fun _ _ => id, fun _ _ => id, fun id hreached hnone => ?_⟩
    have hne : id ≠ m.id := hother rfl (fun _ => DeletionPc.recorded_of_dropped) hreached
    simp only [Effect.run, Table.get?_put, if_neg hne]
    exact hnone
  | showMessage m =>
    refine ⟨fun _ _ => id, fun id hreached hnone => ?_, fun _ _ => id⟩
    have hne : id ≠ m.id := hother rfl (fun _ => DeletionPc.recorded_of_unshown) hreached
    simp only [Effect.run, Table.get?_put, if_neg hne]
    exact hnone
  | deleteMessage target =>
    refine ⟨fun _ _ => id, fun _ _ => id, fun id _ hnone => ?_⟩
    simp only [Effect.run, get?_deleted, hnone, ite_self]
  | hideMessage target =>
    refine ⟨fun _ _ => id, fun id _ hnone => ?_, fun _ _ => id⟩
    simp only [Effect.run, get?_deleted, hnone, ite_self]
  | setDeletions deletions =>
    refine ⟨fun id hreached hsome => ?_, fun _ _ => id, fun _ _ => id⟩
    obtain ⟨d, hd⟩ := Option.isSome_iff_exists.mp hsome
    obtain ⟨hmem, rfl⟩ := Table.get?_eq_some.mp hd
    exact (hs.drafts _ (hsets deletions rfl)).kept rfl d hmem hreached

theorem reached_of_mem {stage : DeletionPc → Bool} {x : MessageId × DeletionPc}
    (hx : x ∈ h.underway)
    (hstage : stage x.2 = true) : h.Reached stage x.1 := Or.inr ⟨x, hx, rfl, hstage⟩

theorem Harmless.stage {effect : Effect} (hh : h.Harmless effect) {x : MessageId × DeletionPc}
    (hx : x ∈ h.underway) (hs : h.Stage x.1 x.2) : (effect.run h).Stage x.1 x.2 :=
  ⟨hs.writing, fun hr => hh.deletions _ (reached_of_mem hx hr) (hs.recorded hr),
    fun hu => hh.shown _ (reached_of_mem hx hu) (hs.unshown hu),
    fun hd => hh.messages _ (reached_of_mem hx hd) (hs.dropped hd)⟩

theorem Harmless.gone {effect : Effect} (hh : h.Harmless effect) {id : MessageId}
    (hs : h.Settled id) (hg : h.Gone id) : (effect.run h).Gone id :=
  ⟨hh.messages _ (Or.inl hs) hg.messages, hh.shown _ (Or.inl hs) hg.shown,
    hh.deletions _ (Or.inl hs) hg.deletions⟩

theorem stage_of_early {h : History} {id : MessageId} {pc : DeletionPc}
    (hrecorded : pc.recorded = false) (hwriting : ∀ read deletions, pc = .writing read deletions →
      (deletions.get? id).isSome = true) :
    h.Stage id pc := by
  have hnot : ¬ pc.recorded = true := by rw [hrecorded]; exact Bool.false_ne_true
  exact ⟨hwriting, fun h => absurd h hnot, fun h => absurd (DeletionPc.recorded_of_unshown h) hnot,
    fun h => absurd (DeletionPc.recorded_of_dropped h) hnot⟩

theorem stage_reading {h : History} {id : MessageId} : h.Stage id .reading :=
  stage_of_early rfl nofun

/-- What a deletion that is recorded has taken away so far. -/
theorem stage_of_recorded {h : History} {id : MessageId} {pc : DeletionPc}
    (hrecorded : pc.recorded = true) (hsome : (h.deletions.get? id).isSome = true)
    (hunshown : pc.unshown = true → h.shown.get? id = none)
    (hdropped : pc.dropped = true → h.messages.get? id = none) : h.Stage id pc := by
  refine ⟨fun read deletions he => ?_, fun _ => hsome, hunshown, hdropped⟩
  rw [he] at hrecorded
  cases hrecorded

/-- A deletion takes its next piece away, and at its end nothing is left. -/
theorem applyGlobalDeletion_stage {id : MessageId} {pc : DeletionPc} (hproto : h.proto id = false)
    (hs : h.Stage id pc) :
    (∀ pc', (applyGlobalDeletion h id pc).2 = some pc' →
      ((applyGlobalDeletion h id pc).1.run h).Stage id pc' ∧
      (pc'.recorded = true →
        (∃ deletions, (applyGlobalDeletion h id pc).1 = .setDeletions deletions) ∨
        pc.recorded = true)) ∧
      ((applyGlobalDeletion h id pc).2 = none →
        ((applyGlobalDeletion h id pc).1.run h).Gone id ∧ pc.recorded = true) := by
  have hwriting : ∀ {h' : History} {read : ℕ} {deletions : Deletions}, h'.Stage id
      (.writing read (enter h.proto deletions id h.now)) := by
    intro h' read deletions
    refine stage_of_early rfl fun r d he => ?_
    obtain ⟨-, rfl⟩ := DeletionPc.writing.inj he
    exact get?_enter hproto
  cases pc with
  | reading =>
    refine ⟨fun pc' hpc' => ?_, fun h => by cases h⟩
    obtain rfl := Option.some.inj hpc'
    split_ifs
    · exact ⟨stage_of_early rfl (fun _ _ h => by cases h), fun h => by cases h⟩
    · exact ⟨hwriting, fun h => by cases h⟩
  | pruning read pruned =>
    refine ⟨fun pc' hpc' => ?_, fun h => by cases h⟩
    obtain rfl := Option.some.inj hpc'
    exact ⟨hwriting, fun h => by cases h⟩
  | writing read deletions =>
    refine ⟨fun pc' hpc' => ?_, fun h => by cases h⟩
    obtain rfl := Option.some.inj hpc'
    exact ⟨stage_of_recorded rfl (hs.writing _ _ rfl) (fun h => by cases h) (fun h => by cases h),
      fun _ => Or.inl ⟨deletions, rfl⟩⟩
  | finding =>
    refine ⟨fun pc' hpc' => ?_, fun h => by cases h⟩
    obtain rfl := Option.some.inj hpc'
    refine ⟨?_, fun _ => Or.inr rfl⟩
    split_ifs with hshown
    · exact stage_of_recorded rfl (hs.recorded rfl) (fun h => by cases h) (fun h => by cases h)
    · exact stage_of_recorded rfl (hs.recorded rfl) (fun _ =>
        Option.not_isSome_iff_eq_none.mp hshown) (fun h => by cases h)
  | looking =>
    simp only [applyGlobalDeletion]
    split_ifs with hstored
    · refine ⟨fun pc' hpc' => ?_, fun h => by cases h⟩
      obtain rfl := Option.some.inj hpc'
      exact ⟨stage_of_recorded rfl (hs.recorded rfl) (fun h => by cases h) (fun h => by cases h),
        fun _ => Or.inr rfl⟩
    · exact ⟨fun _ h => (by cases h), fun _ =>
        ⟨⟨Option.not_isSome_iff_eq_none.mp hstored, hs.unshown rfl, hs.recorded rfl⟩, rfl⟩⟩
  | dropping =>
    refine ⟨fun pc' hpc' => ?_, fun h => by cases h⟩
    obtain rfl := Option.some.inj hpc'
    refine ⟨stage_of_recorded rfl (hs.recorded rfl) (fun h => by cases h) fun _ => ?_,
      fun _ => Or.inr rfl⟩
    simp [applyGlobalDeletion, Effect.run, get?_deleted]
  | filtering =>
    refine ⟨fun _ h => (by cases h), fun _ => ⟨⟨hs.dropped rfl, ?_, hs.recorded rfl⟩, rfl⟩⟩
    simp [applyGlobalDeletion, Effect.run, get?_deleted]

/-- A record that a step prepares has what is to stay in it, as it is after the step. -/
def Prepared (h : History) (effect : Effect) (x : ℕ × Deletions) : Prop :=
  (effect = .nothing ∧ x.1 = h.writes ∧
      ∀ d ∈ h.deletions, h.Reached DeletionPc.recorded d.id → (x.2.get? d.id).isSome = true) ∨
    ∃ deletions, effect = .setDeletions deletions ∧ x.1 = h.writes + 1 ∧
      ∀ d ∈ deletions, (x.2.get? d.id).isSome = true

/-- What is to stay does not expire when the record is read in time. -/
theorem kept_prune (hearly : ∀ d ∈ h.deletions, d.deletedAt + MESSAGE_TTL_MS ≤ h.now →
    ¬ h.Reached DeletionPc.recorded d.id) {d : Deletion} (hd : d ∈ h.deletions)
    (hreached : h.Reached DeletionPc.recorded d.id) :
    ((prune h.deletions h.now).get? d.id).isSome = true :=
  get?_prune hd fun hexpired => hearly d hd hexpired hreached

theorem applyGlobalDeletion_draft {id : MessageId} {pc pc' : DeletionPc} {x : ℕ × Deletions}
    (hearly : pc = .reading → ∀ d ∈ h.deletions, d.deletedAt + MESSAGE_TTL_MS ≤ h.now →
      ¬ h.Reached DeletionPc.recorded d.id)
    (hnext : (applyGlobalDeletion h id pc).2 = some pc') (hx : pc'.draft = some x) :
    h.Prepared (applyGlobalDeletion h id pc).1 x := by
  cases pc with
  | reading =>
    obtain rfl := Option.some.inj hnext
    left
    split_ifs at hx
    · obtain rfl := Option.some.inj hx
      exact ⟨rfl, rfl, fun d hd hreached => kept_prune (hearly rfl) hd hreached⟩
    · obtain rfl := Option.some.inj hx
      exact ⟨rfl, rfl, fun d hd hreached => get?_enter_of (kept_prune (hearly rfl) hd hreached)⟩
  | pruning read pruned =>
    obtain rfl := Option.some.inj hnext
    obtain rfl := Option.some.inj hx
    refine Or.inr ⟨pruned, rfl, rfl, fun d hd => get?_enter_of ?_⟩
    rw [Table.get?_of_mem hd]
    rfl
  | writing read deletions =>
    obtain rfl := Option.some.inj hnext
    cases hx
  | finding =>
    obtain rfl := Option.some.inj hnext
    split_ifs at hx <;> cases hx
  | looking =>
    simp only [applyGlobalDeletion] at hnext
    split_ifs at hnext
    obtain rfl := Option.some.inj hnext
    cases hx
  | dropping =>
    obtain rfl := Option.some.inj hnext
    cases hx
  | filtering => cases hnext

theorem applyGlobalDeletion_sets {id : MessageId} {pc : DeletionPc} {deletions : Deletions}
    (hset : (applyGlobalDeletion h id pc).1 = .setDeletions deletions) :
    ∃ read, pc.draft = some (read, deletions) := by
  cases pc with
  | pruning read pruned =>
    obtain rfl := Effect.setDeletions.inj hset
    exact ⟨read, rfl⟩
  | writing read deletions' =>
    obtain rfl := Effect.setDeletions.inj hset
    exact ⟨read, rfl⟩
  | _ => cases hset

theorem applyGlobalDeletion_written {id : MessageId} {pc : DeletionPc} :
    (applyGlobalDeletion h id pc).1.written = none := by
  cases pc <;> rfl

/-- A worker writes and keeps only copies of the messages it had copies of. -/
theorem downloadAndAck_held (input : WorkerInput) (w : WorkerPc) :
    (∀ m, (downloadAndAck input w).1.written = some m → m.id ∈ w.held) ∧
      ∀ w', (downloadAndAck input w).2 = some w' → w'.held ⊆ w.held := by
  cases w with
  | starting m =>
    simp only [downloadAndAck]
    split_ifs with hneeds hdue hacked
    · refine ⟨fun m' hm' => (nomatch hm'), fun w' hw' => ?_⟩
      obtain rfl := Option.some.inj hw'
      have hunfinished : m.unfinished = true := by simp [LocalMessage.unfinished, hneeds]
      simp [WorkerPc.held, hunfinished]
    · exact ⟨fun m' hm' => (nomatch hm'), fun w' hw' => (nomatch hw')⟩
    · exact ⟨fun m' hm' => (nomatch hm'), fun w' hw' => (nomatch hw')⟩
    · refine ⟨fun m' hm' => (nomatch hm'), fun w' hw' => ?_⟩
      obtain rfl := Option.some.inj hw'
      have hunfinished : m.unfinished = true := by simp [LocalMessage.unfinished, hacked]
      simp [WorkerPc.held, hunfinished]
  | putting row m next =>
    refine ⟨fun m' hm' => ?_, fun w' hw' => ?_⟩
    · obtain rfl := Option.some.inj hm'
      simp [WorkerPc.held]
    · obtain rfl := Option.some.inj hw'
      exact List.Subset.refl _
  | showing row m next =>
    refine ⟨fun m' hm' => ?_, fun w' hw' => ?_⟩
    · obtain rfl := Option.some.inj hm'
      simp [WorkerPc.held]
    · simp only [downloadAndAck] at hw'
      cases next with
      | fetch =>
        obtain rfl := Option.some.inj hw'
        simp [WorkerPc.held]
      | ack =>
        simp only at hw'
        split_ifs at hw'
        obtain rfl := Option.some.inj hw'
        simp [WorkerPc.held]
      | stop => cases hw'
  | fetching m =>
    simp only [downloadAndAck]
    refine ⟨fun m' hm' => (nomatch hm'), fun w' hw' => ?_⟩
    obtain rfl := Option.some.inj hw'
    cases hdownload : input.download <;> simp [afterDownload, WorkerPc.held]
  | acking m =>
    simp only [downloadAndAck]
    refine ⟨fun m' hm' => (nomatch hm'), fun w' hw' => ?_⟩
    split_ifs at hw'
    obtain rfl := Option.some.inj hw'
    simp [WorkerPc.held]

theorem held_append {sweep : Sweep} {m : LocalMessage} {id : MessageId}
    (hid : id ∈ ({ sweep with registered := sweep.registered ++ [m] } : Sweep).held) :
    id ∈ sweep.held ∨ id = m.id := by
  rw [Sweep.held, List.filter_append, List.map_append] at hid
  refine (List.mem_append.mp hid).imp_right fun hid => ?_
  obtain ⟨m', hm', rfl⟩ := List.mem_map.mp hid
  rw [List.mem_singleton.mp (List.mem_of_mem_filter hm')]

theorem held_downloading {sweep : Sweep} {workers : List WorkerPc} {pc : SyncPc}
    (h : downloading sweep workers = some pc) :
    pc.held = workers.flatMap WorkerPc.held ++ sweep.held := by
  unfold downloading at h
  split_ifs at h
  obtain rfl := Option.some.inj h
  rfl

/-- A message that a worker starts with was registered. -/
theorem held_starting {m : LocalMessage} {registered : List LocalMessage} {id : MessageId}
    (hm : m ∈ registered) (hid : id ∈ (WorkerPc.starting m).held) :
    id ∈ (registered.filter LocalMessage.unfinished).map LocalMessage.id := by
  simp only [WorkerPc.held] at hid
  split_ifs at hid with hunfinished
  · rw [List.mem_singleton.mp hid]
    exact List.mem_map_of_mem (List.mem_filter.mpr ⟨hm, hunfinished⟩)
  · cases hid

theorem held_of_subset {registered registered' : List LocalMessage}
    (hsub : registered' ⊆ registered) :
    (registered'.filter LocalMessage.unfinished).map LocalMessage.id ⊆
      (registered.filter LocalMessage.unfinished).map LocalMessage.id := by
  intro id hid
  obtain ⟨m, hm, rfl⟩ := List.mem_map.mp hid
  obtain ⟨hm, hunfinished⟩ := List.mem_filter.mp hm
  exact List.mem_map_of_mem (List.mem_filter.mpr ⟨hsub hm, hunfinished⟩)

theorem held_runWithConcurrency {sweep : Sweep} {pc : SyncPc}
    (h : runWithConcurrency sweep = some pc) :
    pc.held ⊆ sweep.held := by
  rw [held_downloading h]
  refine List.append_subset.mpr ⟨fun id hid => ?_, held_of_subset (List.drop_subset _ _)⟩
  obtain ⟨w, hw, hid⟩ := List.mem_flatMap.mp hid
  obtain ⟨m, hm, rfl⟩ := List.mem_map.mp hw
  exact held_starting (List.mem_of_mem_take hm) hid

theorem held_moveWorker {sweep : Sweep} {workers : List WorkerPc} {i : ℕ} {w : WorkerPc}
    {next : Option WorkerPc}
    {pc : SyncPc} (hw : w ∈ workers) (hnext : ∀ w', next = some w' → w'.held ⊆ w.held)
    (h : moveWorker sweep workers i next = some pc) :
    pc.held ⊆ (SyncPc.downloading sweep workers).held := by
  have hold : ∀ w ∈ workers, w.held ⊆ (SyncPc.downloading sweep workers).held := fun w hw id hid =>
    List.mem_append_left _ (List.mem_flatMap.mpr ⟨w, hw, hid⟩)
  have hset : ∀ {v : WorkerPc} {registered : List LocalMessage} {pc : SyncPc},
      v.held ⊆ (SyncPc.downloading sweep workers).held → registered ⊆ sweep.registered →
      downloading { sweep with registered } (workers.set i v) = some pc →
        pc.held ⊆ (SyncPc.downloading sweep workers).held := by
    intro v registered pc hv hsub hpc
    rw [held_downloading hpc]
    refine List.append_subset.mpr ⟨fun id hid => ?_,
      fun id hid => List.mem_append_right _ (held_of_subset hsub hid)⟩
    obtain ⟨v', hv', hidv⟩ := List.mem_flatMap.mp hid
    rcases List.mem_or_eq_of_mem_set hv' with hmem | heq
    · exact hold _ hmem hidv
    · exact hv (heq ▸ hidv)
  unfold moveWorker at h
  split at h
  · next w' => exact hset (fun id hid => hold w hw (hnext _ rfl hid)) (List.Subset.refl _) h
  · split at h
    · next m rest hrest =>
      refine hset (fun id hid => List.mem_append_right _ ?_) (fun m' hm' => ?_) h
      · exact held_starting (by rw [hrest]; exact List.mem_cons_self ..) hid
      · rw [hrest]
        exact List.mem_cons_of_mem _ hm'
    · rw [held_downloading h]
      refine List.append_subset.mpr ⟨fun id hid => ?_, fun id hid => List.mem_append_right _ hid⟩
      obtain ⟨v, hv, hid⟩ := List.mem_flatMap.mp hid
      exact hold v (List.mem_of_mem_eraseIdx hv) hid

/-- What a pass comes to hold is a message that it registers. -/
theorem held_nextPending {input : SyncInput} {m : MessageRow} {sweep : Sweep} {id : MessageId}
    (hid : id ∈ (nextPending h input m sweep).held) : id ∈ sweep.held ∨
      id = m.id ∧ m.deletesMessageId = none ∧ answers h.inherited sweep.deletions m.id = false := by
  unfold nextPending at hid
  split at hid
  · split_ifs at hid <;> exact Or.inl hid
  · next hnone =>
    split_ifs at hid with hdeleted
    · exact Or.inl hid
    · rw [Bool.not_eq_true] at hdeleted
      unfold registerIncoming at hid
      split at hid
      · next shown hshown =>
        refine (held_append hid).imp_right fun he => ⟨?_, hnone, hdeleted⟩
        rw [he]
        exact (Table.get?_eq_some.mp hshown).2
      · split at hid
        · refine (List.mem_cons.mp hid).symm.imp_right fun he => ⟨he, hnone, hdeleted⟩
        · exact Or.inl hid

theorem held_syncNow {input : SyncInput} {pc pc' : SyncPc} {effect : Effect}
    (h' : syncNow h input pc = some (effect, some pc')) {id : MessageId} (hid : id ∈ pc'.held) :
    id ∈ pc.held ∨ ∃ sweep m rest, pc = .reading sweep ∧ sweep.pending = m :: rest ∧ id = m.id ∧
      m.deletesMessageId = none ∧ answers h.inherited sweep.deletions m.id = false := by
  cases pc with
  | polling => cases h'
  | downloading sweep workers => cases h'
  | loading pending =>
    simp only [syncNow, Option.some.injEq, Prod.mk.injEq] at h'
    obtain ⟨-, rfl⟩ := h'
    split_ifs at hid <;> cases hid
  | pruning pending read pruned =>
    simp only [syncNow, Option.some.injEq, Prod.mk.injEq] at h'
    obtain ⟨-, rfl⟩ := h'
    cases hid
  | reading sweep =>
    simp only [syncNow, Option.some.injEq, Prod.mk.injEq] at h'
    obtain ⟨-, hnext⟩ := h'
    split at hnext
    · exact Or.inl (held_runWithConcurrency hnext hid)
    · next m rest hpending =>
      obtain rfl := Option.some.inj hnext
      exact (held_nextPending hid).imp_right fun hm => ⟨sweep, m, rest, rfl, hpending, hm⟩
  | deleting sweep row target pc =>
    simp only [syncNow, Option.some.injEq, Prod.mk.injEq] at h'
    obtain ⟨-, rfl⟩ := h'
    split at hid <;> exact Or.inl hid
  | acking sweep id' =>
    simp only [syncNow, Option.some.injEq, Prod.mk.injEq] at h'
    obtain ⟨-, rfl⟩ := h'
    exact Or.inl hid
  | putting sweep m =>
    simp only [syncNow, Option.some.injEq, Prod.mk.injEq] at h'
    obtain ⟨-, rfl⟩ := h'
    exact Or.inl hid
  | showing sweep m =>
    simp only [syncNow, Option.some.injEq, Prod.mk.injEq] at h'
    obtain ⟨-, rfl⟩ := h'
    rcases held_append hid with hid | rfl
    · exact Or.inl (List.mem_cons_of_mem _ hid)
    · exact Or.inl (List.mem_cons_self ..)

/-- What a pass writes on its way to the downloads is a copy it holds. -/
theorem written_syncNow {input : SyncInput} {pc : SyncPc} {effect : Effect} {next : Option SyncPc}
    (h' : syncNow h input pc = some (effect, next)) {m : LocalMessage}
    (hm : effect.written = some m) :
    m.id ∈ pc.held := by
  cases pc with
  | polling => cases h'
  | downloading sweep workers => cases h'
  | loading pending | pruning pending read pruned | reading sweep | acking sweep id =>
    simp only [syncNow, Option.some.injEq, Prod.mk.injEq] at h'
    obtain ⟨rfl, -⟩ := h'
    cases hm
  | deleting sweep row target pc =>
    simp only [syncNow, Option.some.injEq, Prod.mk.injEq] at h'
    obtain ⟨rfl, -⟩ := h'
    rw [applyGlobalDeletion_written] at hm
    cases hm
  | putting sweep m' | showing sweep m' =>
    simp only [syncNow, Option.some.injEq, Prod.mk.injEq] at h'
    obtain ⟨rfl, -⟩ := h'
    obtain rfl := Option.some.inj hm
    exact List.mem_cons_self ..

def Move.underway (m : Move) : List (MessageId × DeletionPc) :=
  (m.pass.bind SyncPc.erasure).toList ++ m.users.filterMap UserTask.erasure

def Move.drafts (m : Move) : List (ℕ × Deletions) :=
  (m.pass.bind SyncPc.draft).toList ++ m.users.filterMap UserTask.draft

def Move.held (m : Move) : List MessageId :=
  m.pass.elim [] SyncPc.held ++ m.users.flatMap UserTask.held

/-- A stage of a deletion after a step with this effect. -/
structure Ensues (h : History) (effect : Effect) (x : MessageId × DeletionPc) : Prop where
  stage : (effect.run h).Stage x.1 x.2
  before : x.2.recorded = true → (∃ deletions, effect = .setDeletions deletions) ∨
    ∃ pc, (x.1, pc) ∈ h.underway ∧ pc.recorded = true

/-- What a deletion that ends with the step leaves. -/
def Ends (h : History) (effect : Effect) (id : MessageId) : Prop :=
  (effect.run h).Gone id ∧ ∃ pc, (id, pc) ∈ h.underway ∧ pc.recorded = true

/-- What a move owes to the invariant. -/
structure Fits (h : History) (m : Move) : Prop where
  written : ∀ row, m.effect.written = some row → row.id ∈ h.held ∨ h.unseen row.id = true
  sets : ∀ deletions, m.effect = .setDeletions deletions → (h.writes, deletions) ∈ h.drafts
  underway : ∀ x ∈ m.underway, x ∈ h.underway ∨ h.Ensues m.effect x
  finished : ∀ id, m.finished = some id → h.Ends m.effect id
  drafts : ∀ x ∈ m.drafts, x ∈ h.drafts ∨ h.Prepared m.effect x
  held : ∀ id ∈ m.held, id ∈ h.held ∨ ¬ h.Settled id ∧ m.finished = none

theorem finishes_eq {erasure : Option (MessageId × DeletionPc)} {id : MessageId}
    (hf : h.finishes erasure = some id) :
    ∃ pc, erasure = some (id, pc) ∧ (applyGlobalDeletion h id pc).2 = none := by
  obtain ⟨⟨id', pc⟩, he, hif⟩ := Option.bind_eq_some_iff.mp hf
  simp only at hif
  split_ifs at hif with hnone
  obtain rfl := Option.some.inj hif
  exact ⟨pc, he, Option.isNone_iff_eq_none.mp hnone⟩

/-- A move of the pass alone. -/
theorem Fits.pass {effect : Effect} {finished : Option MessageId} {pass : Option SyncPc}
    (hwritten : ∀ row, effect.written = some row → row.id ∈ h.held)
    (hsets : ∀ deletions, effect = .setDeletions deletions → (h.writes, deletions) ∈ h.drafts)
    (herasure : ∀ pc, pass = some pc → ∀ x, pc.erasure = some x → h.Ensues effect x)
    (hfinished : ∀ id, finished = some id → h.Ends effect id)
    (hdraft : ∀ pc, pass = some pc → ∀ x, pc.draft = some x → x ∈ h.drafts ∨ h.Prepared effect x)
    (hheld : ∀ pc, pass = some pc → ∀ id ∈ pc.held, id ∈ h.held ∨ ¬ h.Settled id ∧
      finished = none) :
    h.Fits ⟨effect, finished, pass, h.users⟩ := by
  refine ⟨fun row hrow => Or.inl (hwritten row hrow), hsets, fun x hx => ?_, hfinished,
    fun x hx => ?_, fun id hid => ?_⟩
  · rcases List.mem_append.mp hx with hx | hx
    · obtain ⟨pc, hpc, he⟩ := Option.bind_eq_some_iff.mp (Option.mem_toList.mp hx)
      exact Or.inr (herasure pc hpc x he)
    · exact Or.inl (List.mem_append_right _ hx)
  · rcases List.mem_append.mp hx with hx | hx
    · obtain ⟨pc, hpc, hd⟩ := Option.bind_eq_some_iff.mp (Option.mem_toList.mp hx)
      exact hdraft pc hpc x hd
    · exact Or.inl (List.mem_append_right _ hx)
  · rcases List.mem_append.mp hid with hid | hid
    · cases pass with
      | none => cases hid
      | some pc => exact hheld pc rfl id hid
    · exact Or.inl (List.mem_append_right _ hid)

/-- A move of what the user asked for alone. -/
theorem Fits.users {effect : Effect} {finished : Option MessageId} {users : List UserTask}
    (hwritten : ∀ row, effect.written = some row → row.id ∈ h.held ∨ h.unseen row.id = true)
    (hsets : ∀ deletions, effect = .setDeletions deletions → (h.writes, deletions) ∈ h.drafts)
    (hfinished : ∀ id, finished = some id → h.Ends effect id)
    (htasks : ∀ task ∈ users, task ∈ h.users ∨ (∀ x, task.erasure = some x → h.Ensues effect x) ∧
      (∀ x, task.draft = some x → h.Prepared effect x) ∧
        ∀ id ∈ task.held, ¬ h.Settled id ∧ finished = none) :
    h.Fits ⟨effect, finished, h.pass, users⟩ := by
  refine ⟨hwritten, hsets, fun x hx => ?_, hfinished, fun x hx => ?_, fun id hid => ?_⟩
  · rcases List.mem_append.mp hx with hx | hx
    · exact Or.inl (List.mem_append_left _ hx)
    · obtain ⟨task, htask, he⟩ := List.mem_filterMap.mp hx
      exact (htasks task htask).imp (fun hold =>
        List.mem_append_right _ (List.mem_filterMap.mpr ⟨task, hold, he⟩))
        fun hnew => hnew.1 x he
  · rcases List.mem_append.mp hx with hx | hx
    · exact Or.inl (List.mem_append_left _ hx)
    · obtain ⟨task, htask, hd⟩ := List.mem_filterMap.mp hx
      exact (htasks task htask).imp (fun hold =>
        List.mem_append_right _ (List.mem_filterMap.mpr ⟨task, hold, hd⟩))
        fun hnew => hnew.2.1 x hd
  · rcases List.mem_append.mp hid with hid | hid
    · exact Or.inl (List.mem_append_left _ hid)
    · obtain ⟨task, htask, hid⟩ := List.mem_flatMap.mp hid
      exact (htasks task htask).imp (fun hold =>
        List.mem_append_right _ (List.mem_flatMap.mpr ⟨task, hold, hid⟩))
        fun hnew => hnew.2.2 id hid

theorem mem_underway_pass {pc : SyncPc} {x : MessageId × DeletionPc} (hpass : h.pass = some pc)
    (hx : pc.erasure = some x) : x ∈ h.underway := by
  refine List.mem_append_left _ (Option.mem_toList.mpr ?_)
  rw [hpass, Option.bind_some, hx]

theorem mem_underway_user {task : UserTask} {x : MessageId × DeletionPc} (htask : task ∈ h.users)
    (hx : task.erasure = some x) : x ∈ h.underway :=
  List.mem_append_right _ (List.mem_filterMap.mpr ⟨task, htask, hx⟩)

theorem mem_drafts_pass {pc : SyncPc} {x : ℕ × Deletions} (hpass : h.pass = some pc)
    (hx : pc.draft = some x) :
    x ∈ h.drafts := by
  refine List.mem_append_left _ (Option.mem_toList.mpr ?_)
  rw [hpass, Option.bind_some, hx]

theorem mem_held_pass {pc : SyncPc} {id : MessageId} (hpass : h.pass = some pc)
    (hid : id ∈ pc.held) : id ∈ h.held := by
  refine List.mem_append_left _ ?_
  rw [hpass]
  exact hid

/-- What a step of a deletion under way leaves. -/
theorem ensues_applyGlobalDeletion (hs : h.Sound) (hproto : ∀ x ∈ h.underway, h.proto x.1 = false)
    {id : MessageId} {pc : DeletionPc} (hx : (id, pc) ∈ h.underway) :
    (∀ pc', (applyGlobalDeletion h id pc).2 = some pc' →
      h.Ensues (applyGlobalDeletion h id pc).1 (id, pc')) ∧
      ((applyGlobalDeletion h id pc).2 = none → h.Ends (applyGlobalDeletion h id pc).1 id) := by
  obtain ⟨hnext, hend⟩ := applyGlobalDeletion_stage (hproto _ hx) (hs.underway _ hx)
  refine ⟨fun pc' hpc' => ⟨(hnext pc' hpc').1, fun hr => ?_⟩,
    fun hnone => ⟨(hend hnone).1, pc, hx, (hend hnone).2⟩⟩
  exact ((hnext pc' hpc').2 hr).imp_right fun hpc => ⟨pc, hx, hpc⟩

theorem ensues_reading {effect : Effect} {id : MessageId} : h.Ensues effect (id, .reading) :=
  ⟨stage_reading, fun hr => by cases hr⟩

/-- What a pass writes to the record is what it was about to write. -/
theorem sets_syncNow {input : SyncInput} {pc : SyncPc} {effect : Effect} {next : Option SyncPc}
    (h' : syncNow h input pc = some (effect, next)) {deletions : Deletions}
    (hset : effect = .setDeletions deletions) :
    ∃ read, pc.draft = some (read, deletions) := by
  subst hset
  cases pc with
  | polling => cases h'
  | downloading sweep workers => cases h'
  | pruning pending read pruned =>
    simp only [syncNow, Option.some.injEq, Prod.mk.injEq, Effect.setDeletions.injEq] at h'
    obtain ⟨rfl, -⟩ := h'
    exact ⟨read, rfl⟩
  | deleting sweep row target pc =>
    simp only [syncNow, Option.some.injEq, Prod.mk.injEq] at h'
    exact applyGlobalDeletion_sets h'.1
  | loading pending | reading sweep | acking sweep id | putting sweep m | showing sweep m =>
    simp only [syncNow, Option.some.injEq, Prod.mk.injEq] at h'
    cases h'.1

/-- Reading a row drafts no record, and begins a deletion at most. -/
theorem starts_reading {input : SyncInput} {sweep : Sweep} {pc' : SyncPc} {effect : Effect}
    (h' : syncNow h input (.reading sweep) = some (effect, some pc')) :
    pc'.draft = none ∧ ∀ x, pc'.erasure = some x → x.2 = .reading := by
  simp only [syncNow, Option.some.injEq, Prod.mk.injEq] at h'
  obtain ⟨-, hnext⟩ := h'
  split at hnext
  · unfold runWithConcurrency downloading at hnext
    split_ifs at hnext
    obtain rfl := Option.some.inj hnext
    exact ⟨rfl, fun x hx => by cases hx⟩
  · obtain rfl := Option.some.inj hnext
    unfold nextPending registerIncoming
    repeat' split
    all_goals refine ⟨rfl, fun x hx => ?_⟩
    all_goals cases hx
    rfl

theorem draft_syncNow {input : SyncInput} {pc pc' : SyncPc} {effect : Effect} {x : ℕ × Deletions}
    (hearly : pc.reads = true → ∀ d ∈ h.deletions, d.deletedAt + MESSAGE_TTL_MS ≤ h.now →
      ¬ h.Reached DeletionPc.recorded d.id)
    (h' : syncNow h input pc = some (effect, some pc')) (hx : pc'.draft = some x) :
    h.Prepared effect x := by
  cases pc with
  | polling => cases h'
  | downloading sweep workers => cases h'
  | loading pending =>
    simp only [syncNow, Option.some.injEq, Prod.mk.injEq] at h'
    obtain ⟨rfl, rfl⟩ := h'
    split_ifs at hx
    · obtain rfl := Option.some.inj hx
      exact Or.inl ⟨rfl, rfl, fun d hd hreached => kept_prune (hearly rfl) hd hreached⟩
    · cases hx
  | pruning pending read pruned | acking sweep id | putting sweep m | showing sweep m =>
    simp only [syncNow, Option.some.injEq, Prod.mk.injEq] at h'
    obtain ⟨-, rfl⟩ := h'
    cases hx
  | reading sweep => cases (starts_reading h').1.symm.trans hx
  | deleting sweep row target pc =>
    simp only [syncNow, Option.some.injEq, Prod.mk.injEq] at h'
    obtain ⟨rfl, rfl⟩ := h'
    split at hx
    · next pc' hpc' =>
      refine applyGlobalDeletion_draft (fun he => hearly ?_) hpc' hx
      rw [he]
      rfl
    · cases hx

/-- The deletion a pass goes on with after a step is at a stage that ensues. -/
theorem ensues_syncNow (hs : h.Sound) (hproto : ∀ x ∈ h.underway, h.proto x.1 = false)
    {input : SyncInput} {pc pc' : SyncPc} {effect : Effect} {x : MessageId × DeletionPc}
    (hpass : h.pass = some pc) (hnext : syncNow h input pc = some (effect, some pc'))
    (hx : pc'.erasure = some x) : h.Ensues effect x := by
  cases pc with
  | polling => cases hnext
  | downloading sweep workers => cases hnext
  | loading pending =>
    simp only [syncNow, Option.some.injEq, Prod.mk.injEq] at hnext
    obtain ⟨-, rfl⟩ := hnext
    split_ifs at hx <;> cases hx
  | pruning pending read pruned | acking sweep id | putting sweep m | showing sweep m =>
    simp only [syncNow, Option.some.injEq, Prod.mk.injEq] at hnext
    obtain ⟨-, rfl⟩ := hnext
    cases hx
  | reading sweep =>
    obtain ⟨id, pc⟩ := x
    obtain rfl : pc = .reading := (starts_reading hnext).2 _ hx
    exact ensues_reading
  | deleting sweep row target pc =>
    simp only [syncNow, Option.some.injEq, Prod.mk.injEq] at hnext
    obtain ⟨rfl, rfl⟩ := hnext
    have hensues := (ensues_applyGlobalDeletion hs hproto (mem_underway_pass hpass rfl)).1
    split at hx
    · next pc' hpc' =>
      obtain rfl := Option.some.inj hx
      exact hensues pc' hpc'
    · cases hx

/-- The deletion a pass finishes ends with its last step. -/
theorem ends_syncNow (hs : h.Sound) (hproto : ∀ x ∈ h.underway, h.proto x.1 = false)
    {input : SyncInput} {pc : SyncPc} {effect : Effect} {next : Option SyncPc} {id : MessageId}
    (hpass : h.pass = some pc) (hnext : syncNow h input pc = some (effect, next))
    (hid : id ∈ h.finishes pc.erasure) : h.Ends effect id := by
  obtain ⟨pc', he, hnone⟩ := finishes_eq hid
  have hends := (ensues_applyGlobalDeletion hs hproto (mem_underway_pass hpass he)).2 hnone
  cases pc with
  | deleting sweep row target pc =>
    obtain ⟨rfl, rfl⟩ := (Prod.mk.injEq ..).mp (Option.some.inj he)
    simp only [syncNow, Option.some.injEq, Prod.mk.injEq] at hnext
    obtain ⟨rfl, -⟩ := hnext
    exact hends
  | _ => cases he

theorem fits_pass (hs : h.Sound) {input : SyncInput} {pc : SyncPc} {effect : Effect}
    {next : Option SyncPc} (hc : h.Careful (.pass input)) (hpass : h.pass = some pc)
    (hnext : syncNow h input pc = some (effect, next)) :
    h.Fits ⟨effect, h.finishes pc.erasure, next, h.users⟩ := by
  have hproto : ∀ x ∈ h.underway, h.proto x.1 = false := fun x hx => (hc.apart x hx).2
  refine .pass (fun row hrow => mem_held_pass hpass (written_syncNow hnext hrow))
    (fun deletions hset => ?_)
    (fun pc' hpc' x hx => ?_) (fun id hid => ?_) (fun pc' hpc' x hx => Or.inr ?_)
      fun pc' hpc' id hid => ?_
  · obtain ⟨read, hdraft⟩ := sets_syncNow hnext hset
    obtain rfl : read = h.writes := hc.fresh (read, deletions) (by simp [draft, hpass, hdraft])
    exact mem_drafts_pass hpass hdraft
  · subst hpc'
    exact ensues_syncNow hs hproto hpass hnext hx
  · exact ends_syncNow hs hproto hpass hnext hid
  · subst hpc'
    exact draft_syncNow (fun hr => hc.early (by simp [reads, hpass, hr])) hnext hx
  · subst hpc'
    rcases held_syncNow hnext hid with hold | ⟨sweep, m, rest, rfl, hpending, rfl, hnone, hanswers⟩
    · exact Or.inl (mem_held_pass hpass hold)
    · refine Or.inr ⟨fun hsettled => ?_, rfl⟩
      have htaken : h.taken (.pass input) = some m := by
        simp [taken, hpass, hpending, hnone, hanswers, Option.filter]
      have hsome := (hs.final m.id hsettled).deletions
      rw [hc.current m htaken] at hsome
      cases hsome

theorem fits_worker {input : WorkerInput} {sweep : Sweep} {workers : List WorkerPc} {i : ℕ}
    {w : WorkerPc} (hpass : h.pass = some (.downloading sweep workers))
    (hw : workers[i]? = some w) :
    h.Fits ⟨(downloadAndAck input w).1, none, moveWorker sweep workers i (downloadAndAck input w).2,
      h.users⟩ := by
  have hmem : w ∈ workers := List.mem_of_getElem? hw
  have hcopies := downloadAndAck_held input w
  have hdownloading : ∀ pc, moveWorker sweep workers i (downloadAndAck input w).2 = some pc →
      ∃ sweep' workers', pc = .downloading sweep' workers' := by
    intro pc hpc
    unfold moveWorker downloading at hpc
    repeat' split at hpc
    all_goals cases hpc
    all_goals exact ⟨_, _, rfl⟩
  refine .pass (fun row hrow => mem_held_pass hpass ?_) (fun deletions hset => ?_)
    (fun pc hpc x hx => ?_) nofun
    (fun pc hpc x hx => ?_) fun pc hpc id hid =>
      Or.inl (mem_held_pass hpass (held_moveWorker hmem hcopies.2 hpc hid))
  · exact List.mem_append_left _ (List.mem_flatMap.mpr ⟨w, hmem, hcopies.1 row hrow⟩)
  · cases w with
    | starting m =>
      simp only [downloadAndAck] at hset
      split_ifs at hset
    | _ => cases hset
  · obtain ⟨sweep', workers', rfl⟩ := hdownloading pc hpc
    cases hx
  · obtain ⟨sweep', workers', rfl⟩ := hdownloading pc hpc
    cases hx

/-- What a step of a task of the user's writes. -/
theorem moveUser_writes {input : UserInput} {task : UserTask} (hmem : task ∈ h.users)
    (hunseen : h.unseen input.randomId = true) {row : LocalMessage}
    (hrow : (moveUser h input task).1.written = some row) :
    row.id ∈ h.held ∨ h.unseen row.id = true := by
  cases task with
  | deleting target pc =>
    simp only [moveUser, applyGlobalDeletion_written] at hrow
    cases hrow
  | queueing target =>
    obtain rfl := Option.some.inj hrow
    exact Or.inr hunseen
  | announcing row' =>
    obtain rfl := Option.some.inj hrow
    exact Or.inl
      (List.mem_append_right _ (List.mem_flatMap.mpr ⟨_, hmem, List.mem_singleton_self _⟩))
  | acking m | dropping id | filtering id => cases hrow

/-- What is left of a task of the user's. -/
theorem moveUser_spec (hs : h.Sound) {i : ℕ} {input : UserInput} (hc : h.Careful (.user i input))
    {task : UserTask}
    (htask : h.users[i]? = some task) (hunseen : h.unseen input.randomId = true) {task' : UserTask}
    (htask' : (moveUser h input task).2 = some task') :
    (∀ x, task'.erasure = some x → h.Ensues (moveUser h input task).1 x) ∧
      (∀ x, task'.draft = some x → h.Prepared (moveUser h input task).1 x) ∧
        ∀ id ∈ task'.held, ¬ h.Settled id ∧ h.finishes task.erasure = none := by
  cases task with
  | deleting target pc =>
    have hx : (target, pc) ∈ h.underway := mem_underway_user (List.mem_of_getElem? htask) rfl
    have hensues := (ensues_applyGlobalDeletion hs (fun x hx => (hc.apart x hx).2) hx).1
    simp only [moveUser, Option.some.injEq] at htask'
    subst htask'
    split
    · next pc' hpc' =>
      refine ⟨fun x hx => ?_, fun x hx => ?_, fun id hid => by cases hid⟩
      · obtain rfl := Option.some.inj hx
        exact hensues pc' hpc'
      · refine applyGlobalDeletion_draft (fun he => hc.early ?_) hpc' hx
        rw [he] at htask
        simp [reads, htask, UserTask.reads]
    · exact ⟨fun x hx => (by cases hx), fun x hx => (by cases hx), fun id hid => by cases hid⟩
  | queueing target =>
    obtain rfl := Option.some.inj htask'
    refine ⟨fun x hx => (by cases hx), fun x hx => (by cases hx),
      fun id hid => ⟨fun hsettled => ?_, rfl⟩⟩
    rw [List.mem_singleton.mp hid] at hsettled
    have hsome := (hs.final _ hsettled).deletions
    simp only [unseen, Bool.and_eq_true, Option.isNone_iff_eq_none] at hunseen
    rw [tombstone, hunseen.2] at hsome
    cases hsome
  | announcing row' => cases htask'
  | acking m =>
    simp only [moveUser] at htask'
    split_ifs at htask'
    obtain rfl := Option.some.inj htask'
    exact ⟨fun x hx => (by cases hx), fun x hx => (by cases hx), fun id hid => by cases hid⟩
  | dropping id =>
    obtain rfl := Option.some.inj htask'
    exact ⟨fun x hx => (by cases hx), fun x hx => (by cases hx), fun id hid => by cases hid⟩
  | filtering id => cases htask'

theorem fits_user (hs : h.Sound) {input : UserInput} {task : UserTask} {i : ℕ}
    (hc : h.Careful (.user i input))
    (htask : h.users[i]? = some task) (hunseen : h.unseen input.randomId = true) :
    h.Fits ⟨(moveUser h input task).1, h.finishes task.erasure, h.pass,
      match (moveUser h input task).2 with
      | some task' => h.users.set i task'
      | none => h.users.eraseIdx i⟩ := by
  have hmem : task ∈ h.users := List.mem_of_getElem? htask
  refine .users (fun row hrow => moveUser_writes hmem hunseen hrow) (fun deletions hset => ?_)
    (fun id hid => ?_)
    fun task' htask' => ?_
  · cases task with
    | deleting target pc =>
      obtain ⟨read, hdraft⟩ := applyGlobalDeletion_sets hset
      obtain rfl : read = h.writes :=
        hc.fresh (read, deletions) (by simp [draft, htask, UserTask.draft, hdraft])
      exact List.mem_append_right _ (List.mem_filterMap.mpr ⟨_, hmem, hdraft⟩)
    | _ => cases hset
  · obtain ⟨pc', he, hnone⟩ := finishes_eq hid
    have hends :=
      (ensues_applyGlobalDeletion hs (fun x hx => (hc.apart x hx).2) (mem_underway_user hmem he)).2
        hnone
    cases task with
    | deleting target pc =>
      obtain ⟨rfl, rfl⟩ := (Prod.mk.injEq ..).mp (Option.some.inj he)
      exact hends
    | _ => cases he
  · split at htask'
    · next left hleft =>
      rcases List.mem_or_eq_of_mem_set htask' with hold | rfl
      · exact Or.inl hold
      · exact Or.inr (moveUser_spec hs hc htask hunseen hleft)
    · exact Or.inl (List.mem_of_mem_eraseIdx htask')

theorem fits_startUser {task : UserTask} (hstart : ∀ x, task.erasure = some x → x.2 = .reading)
    (hdraft : task.draft = none) (hheld : task.held = []) : h.Fits (h.startUser task) := by
  refine .users (fun row hrow => ?_) (fun deletions hset => ?_) (fun id hid => ?_)
    fun task' htask' =>
    (List.mem_append.mp htask').imp_right fun hnew => ?_
  · cases hrow
  · cases hset
  · cases hid
  obtain rfl := List.mem_singleton.mp hnew
  refine ⟨fun x hx => ?_, fun x hx => ?_, fun id hid => ?_⟩
  · obtain ⟨id, pc⟩ := x
    obtain rfl : pc = .reading := hstart _ hx
    exact ensues_reading
  · rw [hdraft] at hx
    cases hx
  · rw [hheld] at hid
    cases hid

/-- The pass goes on without an effect, and has nothing in hand. -/
theorem fits_idle {pass : Option SyncPc}
    (hidle : ∀ pc, pass = some pc → pc.erasure = none ∧ pc.draft = none ∧ pc.held = []) :
    h.Fits ⟨.nothing, none, pass, h.users⟩ := by
  refine .pass (fun row hrow => ?_) (fun deletions hset => ?_) (fun pc hpc x hx => ?_)
    (fun id hid => ?_) (fun pc hpc x hx => ?_) fun pc hpc id hid => ?_
  · cases hrow
  · cases hset
  · rw [(hidle pc hpc).1] at hx
    cases hx
  · cases hid
  · rw [(hidle pc hpc).2.1] at hx
    cases hx
  · rw [(hidle pc hpc).2.2] at hid
    cases hid

theorem fits (hs : h.Sound) {e : Event} {m : Move} (hc : h.Careful e) (hmove : h.move e = some m) :
    h.Fits m := by
  cases e with
  | wait ms => cases hmove
  | sync =>
    simp only [move] at hmove
    split at hmove
    · obtain rfl := Option.some.inj hmove
      refine fits_idle fun pc hpc => ?_
      obtain rfl := Option.some.inj hpc
      exact ⟨rfl, rfl, rfl⟩
    · cases hmove
  | answer pending =>
    simp only [move] at hmove
    split at hmove
    · obtain rfl := Option.some.inj hmove
      refine fits_idle fun pc hpc => ?_
      obtain ⟨_, _, rfl⟩ := Option.map_eq_some_iff.mp hpc
      exact ⟨rfl, rfl, rfl⟩
    · cases hmove
  | pass input =>
    simp only [move, Option.bind_eq_bind, Option.bind_eq_some_iff] at hmove
    obtain ⟨pc, hpass, ⟨effect, next⟩, hnext, hmove⟩ := hmove
    obtain rfl := Option.some.inj hmove
    exact fits_pass hs hc hpass hnext
  | worker i input =>
    simp only [move] at hmove
    split at hmove
    · next sweep workers hpass =>
      simp only [Option.bind_eq_bind, Option.bind_eq_some_iff] at hmove
      obtain ⟨w, hw, hmove⟩ := hmove
      obtain rfl := Option.some.inj hmove
      exact fits_worker hpass hw
    · cases hmove
  | deleteMessageEverywhere id =>
    simp only [move, Option.bind_eq_bind, Option.bind_eq_some_iff] at hmove
    obtain ⟨m', -, hmove⟩ := hmove
    split_ifs at hmove
    obtain rfl := Option.some.inj hmove
    refine fits_startUser (fun x hx => ?_) rfl rfl
    obtain rfl := Option.some.inj hx
    rfl
  | deleteMessageLocally id =>
    simp only [move, Option.bind_eq_bind, Option.bind_eq_some_iff] at hmove
    obtain ⟨m', -, hmove⟩ := hmove
    obtain rfl := Option.some.inj hmove
    refine fits_startUser (fun x hx => ?_) ?_ ?_
    · split_ifs at hx <;> cases hx
    · split_ifs <;> rfl
    · split_ifs <;> rfl
  | user i input =>
    simp only [move, Option.bind_eq_bind, Option.bind_eq_some_iff] at hmove
    obtain ⟨task, htask, hmove⟩ := hmove
    split_ifs at hmove with hunseen
    obtain rfl := Option.some.inj hmove
    exact fits_user hs hc htask hunseen

theorem settled_close {now : ℕ} {s : Settlement}
    (hopen : (Settlement.close now s).deadline.all (fun u => decide (now < u)) = true) :
    s.deadline.all (fun u => decide (now < u)) = true := by
  cases hd : s.deadline with
  | none => rfl
  | some u => simpa [Settlement.close, hd] using hopen

/-- What is settled after a move was so before, or is what the move has finished. -/
theorem settled_make {m : Move} {id : MessageId} (hsettled : (h.make m).Settled id) :
    h.Settled id ∨ m.finished = some id := by
  have hnow : (m.effect.run h).now = h.now := by cases m.effect <;> rfl
  have hsame : (m.effect.run h).settled = h.settled := by cases m.effect <;> rfl
  have hplain : ∀ h' : History,
      h' = (m.finished.map (m.effect.run h).settle).getD (m.effect.run h) →
      h'.Settled id → h.Settled id ∨ m.finished = some id := by
    intro h' hh' hs
    cases hf : m.finished with
    | none =>
      rw [hf] at hh'
      subst hh'
      simp only [Settled, Option.map_none, Option.getD_none, hnow, hsame] at hs
      exact Or.inl hs
    | some done =>
      rw [hf] at hh'
      subst hh'
      obtain ⟨s, hs, hid, hopen⟩ := hs
      rcases List.mem_cons.mp hs with rfl | hs
      · exact Or.inr (congrArg some hid)
      · simp only [Option.map_some, Option.getD_some, settle, hnow] at hopen
        exact Or.inl ⟨s, hsame ▸ hs, hid, hopen⟩
  simp only [make, Settled] at hsettled
  obtain ⟨s, hs, hid, hopen⟩ := hsettled
  split_ifs at hs hopen
  · obtain ⟨s', hs', rfl⟩ := List.mem_map.mp hs
    exact hplain _ rfl ⟨s', hs', hid, settled_close hopen⟩
  · exact hplain _ rfl ⟨s, hs, hid, hopen⟩

theorem make_tables (h : History) (m : Move) : (h.make m).messages = (m.effect.run h).messages ∧
    (h.make m).shown = (m.effect.run h).shown ∧ (h.make m).deletions = (m.effect.run h).deletions ∧
      (h.make m).writes = (m.effect.run h).writes := by
  simp only [make]
  split_ifs <;> cases m.finished <;> exact ⟨rfl, rfl, rfl, rfl⟩

/-- A deletion gets into the record by a write of it only. -/
theorem reached_make {m : Move} (hf : h.Fits m)
    (hkept : ∀ deletions, m.effect ≠ .setDeletions deletions)
    {id : MessageId} (hreached : (h.make m).Reached DeletionPc.recorded id) :
    h.Reached DeletionPc.recorded id := by
  rcases hreached with hsettled | ⟨x, hx, rfl, hrecorded⟩
  · rcases settled_make hsettled with hold | hnew
    · exact Or.inl hold
    · obtain ⟨_, pc, hpc, hrecorded⟩ := hf.finished id hnew
      exact Or.inr ⟨_, hpc, rfl, hrecorded⟩
  · rcases hf.underway x hx with hold | hnew
    · exact Or.inr ⟨x, hold, rfl, hrecorded⟩
    · rcases hnew.before hrecorded with ⟨deletions, hset⟩ | ⟨pc, hpc, hpc'⟩
      · exact absurd hset (hkept deletions)
      · exact Or.inr ⟨_, hpc, rfl, hpc'⟩

theorem Whole.make {m : Move} (hs : h.Sound) (hf : h.Fits m) {x : ℕ × Deletions}
    (hx : x ∈ m.drafts) :
    (h.make m).Whole x := by
  obtain ⟨-, -, hdeletions, hwrites⟩ := make_tables h m
  by_cases hset : ∃ deletions, m.effect = .setDeletions deletions
  · obtain ⟨deletions, hset⟩ := hset
    have hafter : (h.make m).writes = h.writes + 1 := by rw [hwrites, hset]; rfl
    rcases hf.drafts x hx with hold | ⟨hnothing, -⟩ | ⟨deletions', hset', hread, hkept⟩
    · have hread := (hs.drafts x hold).read
      exact ⟨by omega, fun he => by omega⟩
    · rw [hset] at hnothing
      cases hnothing
    · obtain rfl := Effect.setDeletions.inj (hset.symm.trans hset')
      refine ⟨by omega, fun _ d hd _ => hkept d ?_⟩
      rw [hdeletions, hset] at hd
      exact hd
  · rw [not_exists] at hset
    have hafter : (h.make m).writes = h.writes ∧ (h.make m).deletions = h.deletions := by
      rw [hwrites, hdeletions]
      cases heffect : m.effect with
      | setDeletions deletions => exact absurd heffect (hset deletions)
      | _ => exact ⟨rfl, rfl⟩
    have hwhole : h.Whole x := by
      rcases hf.drafts x hx with hold | ⟨-, hread, hkept⟩ | ⟨deletions, hset', -⟩
      · exact hs.drafts x hold
      · exact ⟨hread.le, fun _ => hkept⟩
      · exact absurd hset' (hset deletions)
    refine ⟨hafter.1 ▸ hwhole.read, fun he d hd hreached => ?_⟩
    exact hwhole.kept (he.trans hafter.1) d (hafter.2 ▸ hd) (reached_make hf hset hreached)

theorem Sound.make (hs : h.Sound) {m : Move} (hf : h.Fits m)
    (hapart : ∀ x ∈ h.underway, x.1 ∉ h.held ∧ h.proto x.1 = false) : (h.make m).Sound := by
  have hharmless := harmless hs hapart hf.written hf.sets
  obtain ⟨hmessages, hshown, hdeletions, -⟩ := make_tables h m
  refine ⟨fun id hsettled => ?_, fun x hx => ?_, fun x hx => Whole.make hs hf hx,
    fun id hid hsettled => ?_⟩
  · have hgone : (m.effect.run h).Gone id := by
      rcases settled_make hsettled with hold | hnew
      · exact hharmless.gone hold (hs.final id hold)
      · exact (hf.finished id hnew).1
    exact ⟨hmessages ▸ hgone.messages, hshown ▸ hgone.shown, hdeletions ▸ hgone.deletions⟩
  · have hstage : (m.effect.run h).Stage x.1 x.2 := by
      rcases hf.underway x hx with hold | hnew
      · exact hharmless.stage hold (hs.underway x hold)
      · exact hnew.stage
    exact ⟨hstage.writing, hdeletions ▸ hstage.recorded, hshown ▸ hstage.unshown,
      hmessages ▸ hstage.dropped⟩
  · rcases settled_make hsettled with hold | hnew
    · rcases hf.held id hid with hheld | hfree
      · exact hs.held id hheld hold
      · exact hfree.1 hold
    · rcases hf.held id hid with hheld | hfree
      · obtain ⟨_, pc, hpc, _⟩ := hf.finished id hnew
        exact (hapart _ hpc).1 hheld
      · rw [hfree.2] at hnew
        cases hnew

theorem settled_of_wait {ms : ℕ} {id : MessageId}
    (hsettled : ({ h with now := h.now + ms } : History).Settled id) :
    h.Settled id := by
  obtain ⟨s, hmem, hid, hopen⟩ := hsettled
  refine ⟨s, hmem, hid, ?_⟩
  cases hd : s.deadline with
  | none => rfl
  | some u =>
    have : h.now + ms < u := by simpa [hd] using hopen
    simp only [Option.all_some, decide_eq_true_eq]
    omega

theorem Sound.wait (hs : h.Sound) (ms : ℕ) : ({ h with now := h.now + ms } : History).Sound := by
  refine ⟨fun id hsettled => ?_, fun x hx => ?_, fun x hx => ?_, fun id hid hsettled => ?_⟩
  · have hgone := hs.final id (settled_of_wait hsettled)
    exact ⟨hgone.messages, hgone.shown, hgone.deletions⟩
  · have hstage := hs.underway x hx
    exact ⟨hstage.writing, hstage.recorded, hstage.unshown, hstage.dropped⟩
  · have hwhole := hs.drafts x hx
    exact ⟨hwhole.read, fun he d hd hreached =>
      hwhole.kept he d hd (hreached.imp_left settled_of_wait)⟩
  · exact hs.held id hid (settled_of_wait hsettled)

theorem Sound.step (hs : h.Sound) {e : Event} {h' : History} (hcareful : h.Careful e)
    (hstep : h.step e = some h') :
    h'.Sound := by
  have hmake : ∀ {e : Event}, h.Careful e → (h.move e).map h.make = some h' → h'.Sound := by
    intro e hcareful hstep
    obtain ⟨m, hm, rfl⟩ := Option.map_eq_some_iff.mp hstep
    exact hs.make (fits hs hcareful hm) hcareful.apart
  cases e with
  | wait ms =>
    obtain rfl := Option.some.inj hstep
    exact hs.wait ms
  | _ => exact hmake hcareful hstep

/-- A page that has just loaded its history: nothing runs, and what is settled is so. -/
structure Loaded (h : History) : Prop where
  pass : h.pass = none
  users : h.users = []
  final : h.Final

theorem Loaded.sound (hl : h.Loaded) : h.Sound := by
  have hunderway : h.underway = [] := by simp [underway, hl.pass, hl.users]
  have hdrafts : h.drafts = [] := by simp [drafts, hl.pass, hl.users]
  have hheld : h.held = [] := by simp [held, hl.pass, hl.users]
  refine ⟨hl.final, fun x hx => ?_, fun x hx => ?_, fun id hid => ?_⟩
  · rw [hunderway] at hx
    cases hx
  · rw [hdrafts] at hx
    cases hx
  · rw [hheld] at hid
    cases hid

/-- In every run in which no copy is in hand of a message that is being deleted, and no stale record
is written or relied on, a deletion is final. -/
theorem deletion_final (h₀ : History) (hl : h₀.Loaded) (h : History)
    (hrun : Runs.ReachableVia step Careful h₀ h) : h.Final :=
  (hrun.invariant hl.sound fun _ _ _ hs hok hstep => hs.step hok hstep).final

/-- A device with nothing in its history. -/
def empty : History where
  inherited := fun _ => false
  proto := fun _ => false
  deviceId := 1
  knownDeviceIds := [1, 2]
  now := 1
  messages := .empty
  shown := .empty
  deletions := .empty
  writes := 0
  pass := none
  users := []
  settled := []

theorem empty_loaded : empty.Loaded := by
  refine ⟨rfl, rfl, fun id hsettled => ?_⟩
  obtain ⟨s, hs, -⟩ := hsettled
  cases hs

/-- A text from the other device. -/
def textRow : MessageRow where
  id := 7
  senderDeviceId := 2
  encryptedPayload := some 0
  iv := some 0
  fileR2Key := none
  fileIv := none
  fileMeta := none
  fileMetaIv := none
  keyEpoch := 1
  signature := none
  deletesMessageId := none
  createdAt := 0

def tombstoneRow : MessageRow :=
  { textRow with id := 8, encryptedPayload := none, iv := none, deletesMessageId := some 7 }

/-- `rounds` steps of a pass in which everything goes well. -/
def passSteps (rounds : ℕ) : List Event :=
  List.replicate rounds (.pass ⟨.verified, some ⟨some 0, false, false, .verified⟩⟩)

def workerSteps (rounds : ℕ) : List Event := List.replicate rounds (.worker 0 ⟨true, .stored, true⟩)

/-- One answer has the message and its tombstone, and the message is acked after it was deleted. -/
def bothAtOnce : List Event :=
  [.sync, .answer (some [textRow, tombstoneRow])] ++ passSteps 12 ++ workerSteps 3

theorem deletion_final_bothAtOnce :
    ¬ ∀ h₀ : History, h₀.Loaded → ∀ h, Runs.Reachable step h₀ h → h.Final := by
  intro hall
  have hrun : (Runs.replay step empty bothAtOnce).any (fun h => decide
      (h.Settled 7 ∧ (h.messages.get? 7).isSome = true)) = true := by decide +kernel
  obtain ⟨h, hreach, hsettled, hstored⟩ := Runs.exists_reachable_of_replay hrun
  rw [(hall empty empty_loaded h hreach 7 hsettled).messages] at hstored
  cases hstored

/-- The tombstone comes in a pass of its own, and the message in the next. -/
def oneByOne : List Event :=
  [.sync, .answer (some [tombstoneRow])] ++ passSteps 8 ++
    [.sync, .answer (some [textRow])] ++ passSteps 4

theorem deletion_final_oneByOne :
    ∃ h, Runs.ReachableVia step Careful empty h ∧ h.Settled 7 ∧ h.pass.isNone = true ∧
    h.Final := by
  have hrun : (Runs.replayVia step Careful empty oneByOne).any (fun h => decide
      (h.Settled 7 ∧ h.pass.isNone = true)) = true := by decide +kernel
  obtain ⟨h, hh, hp⟩ := (Option.any_eq_true _ _).mp hrun
  have hreach := Runs.reachableVia_of_replayVia hh
  obtain ⟨hsettled, hended⟩ := of_decide_eq_true hp
  exact ⟨h, hreach, hsettled, hended, deletion_final empty empty_loaded h hreach⟩

end History
end SendSelf
