import SendSelf.Receipts.Hands
import SendSelf.Library.Runs

/-!
# Receipt is confirmed for what is stored

No tab sees what another one does to a message it has a copy of. So a tab that does not know a
message registers it again over the row of another tab that has its file, and a transfer that
fails late says so over the row of one that did not. While a tab takes in hand only what it
knows as it is stored, and a file is stored only while no other task has the message in hand,
the rows never regress, nor does what a tab shows; and then, as ever, a worker acks only what
is stored, or gone, or given up.
-/
namespace SendSelf.Receipts
open Runs

variable {s : Shared} {tab : Tab} {m : LocalMessage}

theorem get?_named {row : MessageRow} (h : row ∈ s.sent) : s.named row.id = row.fileR2Key := by
  unfold Shared.named
  rw [Table.get?_of_mem h]
  rfl

/-- A message that is registered anew is still waiting for its file. -/
theorem draft_registered {row : MessageRow} {opened : Opened} (h : row ∈ s.sent) :
    Draft s (registered row opened) := by
  have hid : (registered row opened).id = row.id := rfl
  have hfile : (registered row opened).file = if opened.fileMeta ∧
      row.fileIv.isSome then row.fileR2Key else none := rfl
  have hstate : (registered row opened).fileState = (registered row opened).file.map fun _ =>
      .remote := rfl
  refine ⟨?_, ?_⟩
  · rw [hid, get?_named h, hfile]
    split_ifs
    · exact Or.inr rfl
    · exact Or.inl rfl
  · rcases Option.eq_none_or_eq_some (registered row opened).file with hnone | ⟨key, hkey⟩
    · exact Or.inl hnone
    · rw [hstate, hkey]
      exact Or.inr rfl

theorem SweepOk.registering {sweep : Sweep} (h : SweepOk s sweep) (hm : Copy s m) :
    SweepOk s { sweep with registered := sweep.registered ++ [m] } := by
  refine ⟨h.pending, h.deletions, fun m' hm' => ?_⟩
  rcases List.mem_append.mp hm' with hm' | hm'
  · exact h.registered m' hm'
  · rw [List.mem_singleton.mp hm']
    exact hm

theorem nextPending_ok {input : PassInput} {row : MessageRow} {sweep : Sweep}
    (hshown : ∀ m ∈ tab.shown, Copy s m) (hsweep : SweepOk s sweep) (hrow : row ∈ s.sent)
    (hplain : row.deletesMessageId = none → s.inherited row.id = false) :
    PassOk s (nextPending s tab input row sweep) := by
  unfold nextPending
  split
  · next target htomb =>
    have hdropped : Dropped s row := Or.inl (by rw [htomb]; rfl)
    split_ifs
    · exact ⟨hsweep, hdropped⟩
    · exact ⟨hsweep, hdropped⟩
  · next hnone =>
    split_ifs with hdel
    · refine ⟨hsweep, Or.inr ?_⟩
      rw [answers, hplain hnone, Bool.or_false] at hdel
      obtain ⟨d, hd⟩ := Option.isSome_iff_exists.mp hdel
      obtain ⟨hmem, hid⟩ := Table.get?_eq_some.mp hd
      rw [← hid]
      exact hsweep.deletions d hmem
    · unfold registerIncoming
      split
      · next shown hget => exact hsweep.registering (hshown shown (Table.mem_of_get? hget))
      · split
        · exact ⟨hsweep, draft_registered hrow⟩
        · exact hsweep

theorem downloading_ok {sweep : Sweep} {workers : List WorkerPc} {pc : PassPc}
    (hsweep : SweepOk s sweep)
    (hworkers : ∀ w ∈ workers, WorkerOk s w) (h : downloading sweep workers = some pc) :
    PassOk s pc := by
  unfold downloading at h
  split_ifs at h
  obtain rfl := Option.some.inj h
  exact ⟨hsweep, hworkers⟩

theorem runWithConcurrency_ok {sweep : Sweep} {pc : PassPc} (hsweep : SweepOk s sweep)
    (h : runWithConcurrency sweep = some pc) : PassOk s pc := by
  refine downloading_ok ?_ (fun w hw => ?_) h
  · exact ⟨hsweep.pending, hsweep.deletions,
      fun m hm => hsweep.registered m (List.mem_of_mem_drop hm)⟩
  · obtain ⟨m, hm, rfl⟩ := List.mem_map.mp hw
    exact hsweep.registered m (List.mem_of_mem_take hm)

theorem moveWorker_ok {sweep : Sweep} {workers : List WorkerPc} {k : ℕ} {next : Option WorkerPc}
    {pc : PassPc} (hsweep : SweepOk s sweep) (hworkers : ∀ w ∈ workers, WorkerOk s w)
    (hnext : ∀ w, next = some w → WorkerOk s w)
    (h : moveWorker sweep workers k next = some pc) : PassOk s pc := by
  have hset : ∀ w, WorkerOk s w → ∀ w' ∈ workers.set k w, WorkerOk s w' := by
    intro w hw w' hw'
    rcases List.mem_or_eq_of_mem_set hw' with hw' | rfl
    · exact hworkers w' hw'
    · exact hw
  unfold moveWorker at h
  split at h
  · next worker => exact downloading_ok hsweep (hset worker (hnext worker rfl)) h
  · split at h
    · next m rest hreg =>
      have hregistered : ∀ m' ∈ m :: rest, Copy s m' := by
        rw [← hreg]
        exact hsweep.registered
      refine downloading_ok ?_ (hset (.starting m) (hregistered m (List.mem_cons_self ..))) h
      exact ⟨hsweep.pending, hsweep.deletions,
        fun m' hm' => hregistered m' (List.mem_cons_of_mem _ hm')⟩
    · exact downloading_ok hsweep (fun w hw => hworkers w (List.mem_of_mem_eraseIdx hw)) h

/-- What a draft becomes when it is written. -/
theorem copy_put (h : Good s m) : Copy ((Effect.putMessage m).shared tab s) m :=
  ⟨⟨h.named, h.accounted⟩, Or.inl ⟨m, Table.mem_put.mpr (Or.inl rfl), rfl⟩⟩

theorem mem_prune {deletions : Deletions} {now : ℕ} {d : Deletion} (h : d ∈ prune deletions now) :
    d ∈ deletions :=
  (Table.mem_delete.mp h).1

/-- An erasure says nothing of a copy. -/
theorem erase_effect {written : Bool} {e : Erasure} : EffectOk s (erase s tab written e).1 := by
  cases e with
  | recording | dropping | clearing =>
    simp only [erase]
    split_ifs <;> trivial
  | finding | looking | filtering => trivial

theorem syncNow_ok {input : PassInput} {pc : PassPc} {move : Effect × Option PassPc}
    (hs : SharedOk s)
    (hshown : ∀ m ∈ tab.shown, Copy s m) (hpass : PassOk s pc) (hget : tab.pass = some pc)
    (hfresh : Fresh s tab (.pass input)) (h : syncNow s tab input pc = some move)
    (hok : Careful s move.1) :
    EffectOk s move.1 ∧ ∀ pc', move.2 = some pc' → PassOk (move.1.shared tab s) pc' := by
  have hlater := later_shared tab _ hok
  cases pc with
  | polling => cases h
  | downloading => cases h
  | loading pending =>
    obtain rfl := Option.some.inj h
    revert hlater
    split_ifs
    · refine fun hlater => ⟨fun d hd => hs.deletions d (mem_prune hd), fun pc' hpc => ?_⟩
      obtain rfl := Option.some.inj hpc
      exact ⟨hpass, fun d hd => hs.deletions d (mem_prune hd), fun m hm => by cases hm⟩
    · exact fun _ => ⟨trivial, fun pc' hpc => by cases hpc⟩
  | reading sweep =>
    obtain rfl := Option.some.inj h
    refine ⟨trivial, fun pc' hpc => ?_⟩
    cases hpending : sweep.pending with
    | nil =>
      simp only [hpending] at hpc
      exact runWithConcurrency_ok hpass hpc
    | cons row rest =>
      simp only [hpending] at hpc
      obtain rfl := Option.some.inj hpc
      have hsent : ∀ r ∈ row :: rest, r ∈ s.sent := by
        rw [← hpending]
        exact hpass.pending
      simp only [Fresh, hget, hpending, List.head?_cons, Option.mem_def, Option.some.injEq,
        forall_eq'] at hfresh
      exact nextPending_ok hshown ⟨fun r hr => hsent r (List.mem_cons_of_mem _ hr), hpass.deletions,
        hpass.registered⟩
        (hsent row (List.mem_cons_self ..)) fun hnone => (hfresh hnone).1
  | erasing sweep row e =>
    have heffect : EffectOk s (erase s tab input.written e).1 := erase_effect
    simp only [syncNow] at h
    generalize erase s tab input.written e = r at h heffect
    obtain rfl := Option.some.inj h
    refine ⟨heffect, fun pc' hpc => ?_⟩
    obtain rfl := Option.some.inj hpc
    rcases r with ⟨effect, _ | _ | e'⟩
    · exact hpass.1.later hlater
    · exact ⟨hpass.1.later hlater, hpass.2.later hlater⟩
    · exact ⟨hpass.1.later hlater, hpass.2.later hlater⟩
  | acking sweep row =>
    obtain rfl := Option.some.inj h
    refine ⟨trivial, fun pc' hpc => ?_⟩
    obtain rfl := Option.some.inj hpc
    exact hpass.1
  | putting sweep m =>
    obtain rfl := Option.some.inj h
    revert hlater
    split_ifs
    · refine fun hlater => ⟨hpass.2.good, fun pc' hpc => ?_⟩
      obtain rfl := Option.some.inj hpc
      exact ⟨hpass.1.later hlater, copy_put hpass.2.good⟩
    · refine fun _ => ⟨trivial, fun pc' hpc => ?_⟩
      obtain rfl := Option.some.inj hpc
      exact hpass.1
  | showing sweep m =>
    obtain rfl := Option.some.inj h
    refine ⟨hpass.2, fun pc' hpc => ?_⟩
    obtain rfl := Option.some.inj hpc
    exact (hpass.1.registering hpass.2).later hlater

theorem moveTask_ok {input : TaskInput} {task : Task} (htask : TaskOk s task)
    (hok : Careful s (moveTask s tab input task).1) : EffectOk s (moveTask s tab input task).1 ∧
      ∀ task', (moveTask s tab input task).2 = some task' →
        TaskOk ((moveTask s tab input task).1.shared tab s) task' := by
  have hlater := later_shared tab _ hok
  cases task with
  | erasing e =>
    refine ⟨erase_effect, fun task' ht => ?_⟩
    simp only [moveTask] at ht
    split at ht
    · obtain ⟨e', _, rfl⟩ := Option.map_eq_some_iff.mp ht
      trivial
    · cases ht
  | acking m =>
    refine ⟨trivial, fun task' ht => ?_⟩
    simp only [moveTask] at ht
    split_ifs at ht
    obtain rfl := Option.some.inj ht
    trivial
  | putting m =>
    revert hlater
    simp only [moveTask]
    split_ifs
    · refine fun hlater => ⟨htask.toGood, fun task' ht => ?_⟩
      obtain rfl := Option.some.inj ht
      exact hlater.copy m htask
    · exact fun _ => ⟨trivial, fun task' ht => by cases ht⟩
  | showing m => exact ⟨htask, fun task' ht => by cases ht⟩

def PassesOk (s : Shared) (pass : Option PassPc) : Prop := ∀ pc, pass = some pc → PassOk s pc

/-- What a step of a tab leaves. -/
structure MoveOk (s : Shared) (tab : Tab) (m : Move) : Prop where
  effect : EffectOk s m.effect
  pass : PassesOk (m.effect.shared tab s) m.pass
  tasks : ∀ task ∈ m.tasks, TaskOk (m.effect.shared tab s) task

theorem startTask_ok {task : Task} (h : TabOk s tab) (htask : TaskOk s task) :
    MoveOk s tab (tab.startTask task) := by
  refine ⟨trivial, h.pass, fun t ht => ?_⟩
  rcases List.mem_append.mp ht with ht | ht
  · exact h.tasks t ht
  · rw [List.mem_singleton.mp ht]
    exact htask

theorem move_ok {e : TabEvent} {move : Move} (hs : SharedOk s) (h : TabOk s tab)
    (hfresh : Fresh s tab e)
    (hmove : tab.move s e = some move) (hok : Careful s move.effect) : MoveOk s tab move := by
  have hlater := later_shared tab _ hok
  have hpass := h.pass
  cases e with
  | sync =>
    simp only [Tab.move] at hmove
    split at hmove
    · obtain rfl := Option.some.inj hmove
      refine ⟨trivial, fun pc hpc => ?_, h.tasks⟩
      obtain rfl := Option.some.inj hpc
      trivial
    · cases hmove
  | answer pending =>
    simp only [Tab.move] at hmove
    split at hmove
    · split_ifs at hmove with hsent
      obtain rfl := Option.some.inj hmove
      refine ⟨trivial, fun pc hpc => ?_, h.tasks⟩
      obtain ⟨rows, rfl, rfl⟩ := Option.map_eq_some_iff.mp hpc
      have hrows : ∀ row ∈ rows, row ∈ s.sent.rows := of_decide_eq_true hsent
      exact hrows
    · cases hmove
  | pass input =>
    obtain ⟨pc, hpc, hrest⟩ := Option.bind_eq_some_iff.mp hmove
    obtain ⟨⟨effect, next⟩, hsync, hmove⟩ := Option.bind_eq_some_iff.mp hrest
    obtain rfl := Option.some.inj hmove
    obtain ⟨heffect, hnext⟩ := syncNow_ok hs h.shown (hpass pc hpc) hpc hfresh hsync hok
    exact ⟨heffect, hnext, fun task ht => (h.tasks task ht).later hlater⟩
  | worker k input =>
    simp only [Tab.move] at hmove
    split at hmove
    · next sweep workers hget =>
      obtain ⟨w, hw, hmove⟩ := Option.bind_eq_some_iff.mp hmove
      obtain ⟨hsweep, hworkers⟩ := hpass _ hget
      obtain rfl := Option.some.inj hmove
      obtain ⟨heffect, hnext⟩ := downloadAndAck_ok (hworkers w (List.mem_of_getElem? hw)) hok
      refine ⟨heffect, fun pc hpc => ?_, fun task ht => (h.tasks task ht).later hlater⟩
      exact moveWorker_ok (hsweep.later hlater) (fun w hw => (hworkers w hw).later hlater) hnext hpc
    · cases hmove
  | retryFileDownload id =>
    obtain ⟨m, hm, hmove⟩ := Option.bind_eq_some_iff.mp hmove
    split_ifs at hmove
    obtain rfl := Option.some.inj hmove
    exact startTask_ok h ((h.shown m (Table.mem_of_get? hm)).with_state rfl rfl (Or.inl rfl))
  | deleteMessageEverywhere id peers =>
    obtain ⟨m, _, hmove⟩ := Option.bind_eq_some_iff.mp hmove
    split_ifs at hmove
    obtain rfl := Option.some.inj hmove
    exact startTask_ok h trivial
  | deleteMessageLocally id =>
    obtain ⟨m, _, hmove⟩ := Option.bind_eq_some_iff.mp hmove
    obtain rfl := Option.some.inj hmove
    refine startTask_ok h ?_
    split_ifs <;> trivial
  | task k input =>
    obtain ⟨task, htask, hmove⟩ := Option.bind_eq_some_iff.mp hmove
    obtain rfl := Option.some.inj hmove
    obtain ⟨heffect, hnext⟩ := moveTask_ok (h.tasks task (List.mem_of_getElem? htask)) hok
    refine ⟨heffect, fun pc hpc => (hpass pc hpc).later hlater, fun t ht => ?_⟩
    simp only at ht
    split at ht
    · next task' hsome =>
      rcases List.mem_or_eq_of_mem_set ht with ht | rfl
      · exact (h.tasks t ht).later hlater
      · exact hnext _ hsome
    · exact (h.tasks t (List.mem_of_mem_eraseIdx ht)).later hlater

/-- What an effect writes, or shows, without its file was never stored, or shown, with it. -/
def Keeps (s : Shared) (tab : Tab) : Effect → Prop
  | .putMessage m => lacksFile m.fileState = true → m.id ∉ s.log.stored
  | .showMessage m => lacksFile m.fileState = true → m.id ∉ tab.seen
  | _ => True

theorem mem_noteDownloaded {past : List MessageId} {id : MessageId} (h : id ∈ past) :
    id ∈ noteDownloaded m past := by
  unfold noteDownloaded
  split_ifs
  · exact List.mem_cons_of_mem _ h
  · exact h

theorem mem_noteDownloaded_self {past : List MessageId} (h : m.fileState = some .downloaded) :
    m.id ∈ noteDownloaded m past := by
  rw [noteDownloaded, if_pos h]
  exact List.mem_cons_self ..

theorem put_keeps {table : Table LocalMessage.id} {past : List MessageId}
    (h : ∀ row ∈ table, row.id ∈ past → lacksFile row.fileState = false)
    (hm : lacksFile m.fileState = true → m.id ∉ past) :
    ∀ row ∈ table.put m, row.id ∈ noteDownloaded m past → lacksFile row.fileState = false := by
  intro row hrow hpast
  unfold noteDownloaded at hpast
  rcases Table.mem_put.mp hrow with rfl | ⟨hold, hne⟩
  · split_ifs at hpast with hdown
    · rw [hdown]
      rfl
    · exact Bool.eq_false_iff.mpr fun hlacks => hm hlacks hpast
  · refine h row hold ?_
    split_ifs at hpast
    · exact (List.mem_cons.mp hpast).resolve_left hne
    · exact hpast

theorem tabOk_after {move : Move} (h : TabOk s tab) (hm : MoveOk s tab move)
    (hok : Careful s move.effect)
    (hkeeps : Keeps s tab move.effect) : TabOk (move.effect.shared tab s) (tab.after move) := by
  have hlater := later_shared tab _ hok
  have hshown : ∀ m ∈ (move.effect.tab tab).shown, Copy (move.effect.shared tab s) m ∧
      (m.id ∈ (move.effect.tab tab).seen → lacksFile m.fileState = false) := by
    have hold : ∀ m ∈ tab.shown, Copy (move.effect.shared tab s) m ∧
        (m.id ∈ tab.seen → lacksFile m.fileState = false) :=
      fun m hm => ⟨hlater.copy m (h.shown m hm), h.seen m hm⟩
    have heffect := hm.effect
    revert hlater hold
    cases heq : move.effect with
    | showMessage m =>
      rw [heq] at hkeeps heffect
      intro hlater hold m' hm'
      refine ⟨?_, put_keeps h.seen hkeeps m' hm'⟩
      rcases Table.mem_put.mp hm' with rfl | ⟨hm', _⟩
      · exact hlater.copy _ heffect
      · exact (hold m' hm').1
    | hideMessage id => exact fun _ hold m' hm' => hold m' (Table.mem_delete.mp hm').1
    | transfer m outcome => cases outcome <;> exact fun _ hold m' hm' => hold m' hm'
    | nothing | putMessage | deleteMessage | setDeletions | recordDeletion | deleteFile =>
      exact fun _ hold m' hm' => hold m' hm'
  exact ⟨fun m hm => (hshown m hm).1, hm.pass, hm.tasks, fun m hm => (hshown m hm).2⟩

theorem sharedOk_effect {e : Effect} (hs : SharedOk s) (he : EffectOk s e) (hok : Careful s e)
    (hkeeps : Keeps s tab e) : SharedOk (e.shared tab s) := by
  have hlater := later_shared tab _ hok
  have hrows : ∀ row ∈ s.messages, Copy (e.shared tab s) row :=
    fun row hrow => hlater.copy row (hs.rows row hrow)
  have hdel : ∀ d ∈ s.deletions, d.id ∈ (e.shared tab s).log.discarded :=
    fun d hd => hlater.discarded _ (hs.deletions d hd)
  cases e with
  | nothing | showMessage | hideMessage | deleteFile => exact ⟨hrows, hdel, hs.stored, hs.noted⟩
  | setDeletions => exact ⟨hrows, he, hs.stored, hs.noted⟩
  | putMessage m =>
    refine ⟨fun row hrow => ?_, hdel, put_keeps hs.stored hkeeps, fun row hrow hdown => ?_⟩
    · rcases Table.mem_put.mp hrow with rfl | ⟨hrow, _⟩
      · exact copy_put he
      · exact hrows row hrow
    · rcases Table.mem_put.mp hrow with rfl | ⟨hrow, _⟩
      · exact mem_noteDownloaded_self hdown
      · exact mem_noteDownloaded (hs.noted row hrow hdown)
  | deleteMessage id =>
    refine ⟨fun row hrow => hrows row (Table.mem_delete.mp hrow).1, hdel, fun row hrow hpast => ?_,
      fun row hrow => ?_⟩
    · exact hs.stored row (Table.mem_delete.mp hrow).1 hpast
    · exact hs.noted row (Table.mem_delete.mp hrow).1
  | recordDeletion id =>
    refine ⟨hrows, fun d hd => ?_, hs.stored, hs.noted⟩
    have hd : d ∈ enter s.proto (prune s.deletions s.now) id s.now := hd
    unfold enter at hd
    split_ifs at hd
    · exact hdel d (mem_prune hd)
    · rcases Table.mem_put.mp hd with rfl | ⟨hd, _⟩
      · exact List.mem_cons_self ..
      · exact hdel d (mem_prune hd)
  | transfer m outcome =>
    cases outcome with
    | undecryptable =>
      revert hrows hdel
      simp only [Effect.shared]
      split_ifs
      · exact fun hrows hdel => ⟨hrows, hdel, hs.stored, hs.noted⟩
      · exact fun hrows hdel => ⟨hrows, hdel, hs.stored, hs.noted⟩
    | failed | notFound | unstorable | stored => exact ⟨hrows, hdel, hs.stored, hs.noted⟩

/-- What the tab has in hand without its file was never stored with it; and what it has shown with
its file, or is about to, was stored. -/
structure HandsOk (s : Shared) (tab : Tab) : Prop where
  hands : ∀ c ∈ tab.hands, lacksFile c.fileState = true → c.id ∉ s.log.stored
  shows : ∀ c ∈ tab.shows, c.fileState = some .downloaded → c.id ∈ s.log.stored
  seen : ∀ id ∈ tab.seen, id ∈ s.log.stored

/-- What has been stored after an effect. -/
theorem stored_shared (tab : Tab) (s : Shared) (e : Effect) : (e.shared tab s).log.stored =
    match e with
    | .putMessage m => noteDownloaded m s.log.stored
    | _ => s.log.stored := by
  cases e with
  | transfer m outcome =>
    cases outcome with
    | undecryptable =>
      simp only [Effect.shared]
      split_ifs <;> rfl
    | failed | notFound | unstorable | stored => rfl
  | _ => rfl

theorem mem_stored_shared {e : Effect} {id : MessageId} (h : id ∈ s.log.stored) :
    id ∈ (e.shared tab s).log.stored := by
  rw [stored_shared]
  split
  · exact mem_noteDownloaded h
  · exact h

/-- A file is stored only while nobody has the message in hand without it. -/
theorem not_mem_stored_shared {t : Tab} {e : Effect} (hspares : t.Spares e) {c : LocalMessage}
    (hc : Stems t.hands c) (hlacks : lacksFile c.fileState = true) (h : c.id ∉ s.log.stored) :
    c.id ∉ (e.shared tab s).log.stored := by
  rw [stored_shared]
  split
  · next m =>
    unfold noteDownloaded
    split_ifs with hdown
    · obtain ⟨c₀, hmem, hid, hc₀⟩ := hc
      intro hstored
      rcases List.mem_cons.mp hstored with he | hold
      · have hfull := hspares hdown c₀ hmem (hid.trans he)
        rw [hc₀ hlacks] at hfull
        cases hfull
      · exact h hold
    · exact h
  · exact h

theorem HandsOk.later {e : Effect} (h : HandsOk s tab) (hspares : tab.Spares e) {t : Tab} :
    HandsOk (e.shared t s) tab :=
  ⟨fun c hc hlacks => not_mem_stored_shared hspares (.of_mem hc) hlacks (h.hands c hc hlacks),
    fun c hc hdown => mem_stored_shared (h.shows c hc hdown),
    fun id hid => mem_stored_shared (h.seen id hid)⟩

theorem Handles.keeps {move : Move} (hm : Handles s tab move) (h : HandsOk s tab) :
    Keeps s tab move.effect := by
  have hstems : ∀ {m : LocalMessage}, Stems tab.hands m → lacksFile m.fileState = true →
      m.id ∉ s.log.stored := by
    intro m hstem hlacks
    obtain ⟨c, hc, hid, hlacksC⟩ := hstem
    exact hid ▸ h.hands c hc (hlacksC hlacks)
  cases heffect : move.effect with
  | putMessage m => exact hstems (hm.puts m heffect)
  | showMessage m => exact fun hlacks hseen => hstems (hm.shown m heffect).1 hlacks (h.seen _ hseen)
  | _ => trivial

theorem HandsOk.after {move : Move} (h : HandsOk s tab) (hm : Handles s tab move)
    (hspares : tab.Spares move.effect) :
    HandsOk (move.effect.shared tab s) (tab.after move) := by
  have hstems : ∀ {m : LocalMessage}, Stems tab.hands m → lacksFile m.fileState = true →
      m.id ∉ s.log.stored := by
    intro m hstem hlacks
    obtain ⟨c, hc, hid, hlacksC⟩ := hstem
    exact hid ▸ h.hands c hc (hlacksC hlacks)
  refine ⟨fun c hc hlacks => ?_, fun c hc hdown => ?_, fun id hid => ?_⟩
  · rcases hm.hands c hc with hstem | ⟨hnothing, hfree⟩
    · exact not_mem_stored_shared hspares hstem hlacks (hstems hstem hlacks)
    · rw [hnothing]
      exact hfree hlacks
  · rcases hm.shows c hc with hold | hput
    · exact mem_stored_shared (h.shows c hold hdown)
    · rw [hput]
      exact mem_noteDownloaded_self hdown
  · have hseen : id ∈ tab.seen ∨
        ∃ m, move.effect = .showMessage m ∧ m.fileState = some .downloaded ∧ id = m.id := by
      revert hid
      cases heffect : move.effect with
      | showMessage m =>
        intro hid
        have hid : id ∈ noteDownloaded m tab.seen := by
          simpa [Tab.after, heffect, Effect.tab] using hid
        unfold noteDownloaded at hid
        split_ifs at hid with hdown
        · exact (List.mem_cons.mp hid).symm.imp_right fun he => ⟨m, rfl, hdown, he⟩
        · exact Or.inl hid
      | transfer m outcome =>
        cases outcome <;> exact fun hid =>
          Or.inl (by simpa [Tab.after, heffect, Effect.tab, Tab.setAttempts] using hid)
      | _ => exact fun hid => Or.inl (by simpa [Tab.after, heffect, Effect.tab] using hid)
    rcases hseen with hold | ⟨m, hshow, hdown, rfl⟩
    · exact mem_stored_shared (h.seen id hold)
    · exact mem_stored_shared (h.shows m (hm.shown m hshow).2 hdown)

structure Ok (d : Device) : Prop where
  shared : SharedOk d.shared
  tabs : ∀ i tab, d.tabs i = some tab → TabOk d.shared tab ∧ HandsOk d.shared tab

/-- A tab takes in hand what it knows as it is stored, no other message's file is deleted, and a
file is stored while no tab has the message in hand without it. -/
def Guarded (d : Device) : Event → Prop
  | .tab i e => ∀ tab ∈ d.tabs i, Fresh d.shared tab e ∧ ∀ move ∈ tab.move d.shared e,
      Careful d.shared move.effect ∧ ∀ j t, d.tabs j = some t → t.Spares move.effect
  | _ => True

theorem tabOk_load (hs : SharedOk s) : TabOk s (Tab.load s) ∧ HandsOk s (Tab.load s) := by
  refine ⟨⟨hs.rows, fun pc hpc => (by cases hpc), fun task ht => (by cases ht),
    fun m hm hseen => ?_⟩,
    fun c hc => (by cases hc), fun c hc => (by cases hc), fun id hid => ?_⟩
  · obtain ⟨row, hrow, hid⟩ := List.mem_map.mp hseen
    obtain ⟨hmem, hdown⟩ := Table.mem_select.mp hrow
    obtain rfl := Table.eq_of_key hmem hm hid
    rw [of_decide_eq_true hdown]
    rfl
  · obtain ⟨row, hrow, rfl⟩ := List.mem_map.mp hid
    obtain ⟨hmem, hdown⟩ := Table.mem_select.mp hrow
    exact hs.noted row hmem (of_decide_eq_true hdown)

theorem ok_setTab {d : Device} {i : TabId} {tab : Option Tab} (h : Ok d)
    (htab : ∀ t, tab = some t → TabOk d.shared t ∧ HandsOk d.shared t) : Ok (d.setTab i tab) := by
  refine ⟨h.shared, fun j t ht => ?_⟩
  by_cases hj : j = i
  · subst hj
    exact htab t (by simpa [Device.setTab] using ht)
  · exact h.tabs j t (by simpa [Device.setTab, hj] using ht)

theorem ok_step {d d' : Device} {e : Event} (h : Ok d) (hok : Guarded d e)
    (hstep : step d e = some d') : Ok d' := by
  cases e with
  | wait ms =>
    obtain rfl := Option.some.inj hstep
    have hlater : Later d.shared { d.shared with now := d.shared.now + ms } :=
      ⟨rfl, fun _ h => h, fun m hm => ⟨⟨hm.named, hm.accounted⟩, hm.kept⟩⟩
    refine ⟨⟨fun row hrow => hlater.copy row (h.shared.rows row hrow), h.shared.deletions,
      h.shared.stored,
      h.shared.noted⟩, fun i tab htab => ?_⟩
    obtain ⟨htabOk, hhands⟩ := h.tabs i tab htab
    exact ⟨htabOk.later hlater, hhands.hands, hhands.shows, hhands.seen⟩
  | «open» i =>
    simp only [step] at hstep
    split at hstep
    · obtain rfl := Option.some.inj hstep
      refine ok_setTab h fun t ht => ?_
      obtain rfl := Option.some.inj ht
      exact tabOk_load h.shared
    · cases hstep
  | close i =>
    obtain rfl := Option.some.inj hstep
    exact ok_setTab h fun t ht => by cases ht
  | tab i e =>
    obtain ⟨tab, htab, hstep⟩ := Option.bind_eq_some_iff.mp hstep
    obtain ⟨move, hmove, hstep⟩ := Option.bind_eq_some_iff.mp hstep
    obtain rfl := Option.some.inj hstep
    obtain ⟨hfresh, hmoves⟩ := hok tab htab
    obtain ⟨hcareful, hspares⟩ := hmoves move hmove
    obtain ⟨htabOk, hhands⟩ := h.tabs i tab htab
    have hm := move_ok h.shared htabOk hfresh hmove hcareful
    have hhandles := handles h.shared.stored hfresh hmove
    have hkeeps := hhandles.keeps hhands
    have hd : Ok { d with shared := move.effect.shared tab d.shared } := by
      refine ⟨sharedOk_effect h.shared hm.effect hcareful hkeeps, fun j t ht => ?_⟩
      exact ⟨(h.tabs j t ht).1.later (later_shared tab _ hcareful),
        (h.tabs j t ht).2.later (hspares j t ht)⟩
    refine ok_setTab hd fun t ht => ?_
    obtain rfl := Option.some.inj ht
    exact ⟨tabOk_after htabOk hm hcareful hkeeps, hhands.after hhandles (hspares i tab htab)⟩

theorem ok_start (inherited proto : MessageId → Bool) (sent : Table MessageRow.id) :
    Ok (start inherited proto sent) := by
  refine ⟨⟨fun row hrow => ?_, fun d hd => ?_, fun row hrow => ?_, fun row hrow => ?_⟩,
    fun i tab htab => by cases htab⟩
  · exact absurd hrow Table.not_mem_empty
  · exact absurd hd Table.not_mem_empty
  · exact absurd hrow Table.not_mem_empty
  · exact absurd hrow Table.not_mem_empty

/-- A worker that acks a message has its row, and its file, or knows that it will not have it;
unless the message has been deleted. -/
def Acks (d : Device) (tab : Tab) : Prop :=
  (∀ sweep row, tab.pass = some (.acking sweep row) → Dropped d.shared row) ∧
  ∀ sweep workers m, tab.pass = some (.downloading sweep workers) → WorkerPc.acking m ∈ workers →
    m.id ∈ d.shared.log.discarded ∨
    ((∃ row ∈ d.shared.messages, row.id = m.id) ∧ Resolved d.shared m)

/-- Nothing that has been stored as downloaded lacks its file again, and nothing that has been shown
so. -/
def Settled (d : Device) (tab : Tab) : Prop :=
  (∀ row ∈ d.shared.messages, row.id ∈ d.shared.log.stored → lacksFile row.fileState = false) ∧
  ∀ m ∈ tab.shown, m.id ∈ tab.seen → lacksFile m.fileState = false

/-- A message with a file. -/
def photo : MessageRow :=
  { id := 1, senderDeviceId := 2, encryptedPayload := none, iv := none, fileR2Key := some 7,
    fileIv := some 1,
    fileMeta := some 1, fileMetaIv := some 1, keyEpoch := 1, signature := none,
    deletesMessageId := none, createdAt := 0 }

def opening : PassInput := ⟨.verified, some ⟨none, true, false, .verified⟩, true⟩

/-- Tab `i` polls, and registers the message. -/
def registering (i : TabId) : List Event :=
  [.tab i .sync, .tab i (.answer (some [photo])), .tab i (.pass opening), .tab i (.pass opening),
    .tab i (.pass opening)]

/-- It shows the message, downloads its file and stores that. -/
def storing (i : TabId) : List Event :=
  [.tab i (.pass opening), .tab i (.pass opening)] ++
    List.replicate 5 (.tab i (.worker 0 ⟨true, .stored, true, true⟩))

/-- Nothing but the photo is sent, and no tab is open. -/
def unopened : Device := start (fun _ => false) (fun _ => false) (.singleton photo)

/-- Only the first tab is opened, and it goes by the condition. -/
def Alone (d : Device) : Event → Prop
  | .tab i e => i = 0 ∧ ∀ tab ∈ d.tabs 0, Fresh d.shared tab e ∧ ∀ move ∈ tab.move d.shared e,
      Careful d.shared move.effect ∧ tab.Spares move.effect
  | .open i => i = 0
  | _ => True

instance (d : Device) : (e : Event) → Decidable (Alone d e)
  | .tab i e => inferInstanceAs (Decidable (i = 0 ∧ ∀ tab ∈ d.tabs 0, Fresh d.shared tab e ∧
      ∀ move ∈ tab.move d.shared e, Careful d.shared move.effect ∧ tab.Spares move.effect))
  | .open i => inferInstanceAs (Decidable (i = 0))
  | .wait _ | .close _ => inferInstanceAs (Decidable True)

theorem tabs_of_alone {d d' : Device} {e : Event} (h : ∀ j, j ≠ 0 → d.tabs j = none)
    (hok : Alone d e) (hstep : step d e = some d') : ∀ j, j ≠ 0 → d'.tabs j = none := by
  intro j hj
  cases e with
  | wait ms => exact Option.some.inj hstep ▸ h j hj
  | «open» i =>
    obtain rfl : i = 0 := hok
    simp only [step] at hstep
    split at hstep
    · obtain rfl := Option.some.inj hstep
      exact (Function.update_of_ne hj _ _).trans (h j hj)
    · cases hstep
  | close i =>
    obtain rfl := Option.some.inj hstep
    by_cases hi : j = i
    · exact hi ▸ Function.update_self ..
    · exact (Function.update_of_ne hi _ _).trans (h j hj)
  | tab i e =>
    obtain ⟨rfl, -⟩ := hok
    obtain ⟨tab, _, hstep⟩ := Option.bind_eq_some_iff.mp hstep
    obtain ⟨move, _, hstep⟩ := Option.bind_eq_some_iff.mp hstep
    obtain rfl := Option.some.inj hstep
    exact (Function.update_of_ne hj _ _).trans (h j hj)

theorem guarded_of_alone {d : Device} {e : Event} (h : ∀ j, j ≠ 0 → d.tabs j = none)
    (hok : Alone d e) : Guarded d e := by
  cases e with
  | tab i e =>
    obtain ⟨rfl, hok⟩ := hok
    refine fun tab htab =>
      ⟨(hok tab htab).1, fun move hmove => ⟨((hok tab htab).2 move hmove).1, fun j t ht => ?_⟩⟩
    by_cases hj : j = 0
    · subst hj
      obtain rfl : t = tab := Option.some.inj (ht.symm.trans htab)
      exact ((hok t htab).2 move hmove).2
    · rw [h j hj] at ht
      cases ht
  | _ => trivial

end SendSelf.Receipts
