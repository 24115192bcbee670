import SendSelf.Receipts.Copies

/-!
# What is in hand

A task writes and shows copies of the messages that it has in hand. A copy that says that its
file is lacking is of a message whose file was never stored: so it was when the tab took it in
hand, if the tab knew of the message what was stored; and the file is stored by the task that
has the message in hand, if no other has.
-/
namespace SendSelf

/-- The copy that a worker has made of a message by the time it goes on. -/
def AfterUpsert.copy (m : LocalMessage) : AfterUpsert → LocalMessage
  | .fetch => { m with fileState := some .downloading }
  | .ack | .stop => m

def WorkerPc.hands : WorkerPc → List LocalMessage
  | .starting m | .acking m => [m]
  | .putting row m next | .showing row m next => [row, next.copy m]
  | .fetching m => [AfterUpsert.fetch.copy m]

/-- What has been written, and is about to be shown. -/
def WorkerPc.shows : WorkerPc → List LocalMessage
  | .showing row _ _ => [row]
  | _ => []

namespace Receipts

variable {s s' : Shared} {tab : Tab} {m c c₀ : LocalMessage}

def PassPc.hands : PassPc → List LocalMessage
  | .polling | .loading _ => []
  | .reading sweep | .erasing sweep _ _ | .acking sweep _ => sweep.registered
  | .putting sweep m | .showing sweep m => m :: sweep.registered
  | .downloading sweep workers => workers.flatMap WorkerPc.hands ++ sweep.registered

def PassPc.shows : PassPc → List LocalMessage
  | .showing _ m => [m]
  | .downloading _ workers => workers.flatMap WorkerPc.shows
  | _ => []

def Task.hands : Task → List LocalMessage
  | .erasing _ | .acking _ => []
  | .putting m | .showing m => [m]

def Task.shows : Task → List LocalMessage
  | .showing m => [m]
  | _ => []

def handsOf (pass : Option PassPc) (tasks : List Task) : List LocalMessage :=
  pass.elim [] PassPc.hands ++ tasks.flatMap Task.hands

def showsOf (pass : Option PassPc) (tasks : List Task) : List LocalMessage :=
  pass.elim [] PassPc.shows ++ tasks.flatMap Task.shows

def Tab.hands (tab : Tab) : List LocalMessage := handsOf tab.pass tab.tasks

def Tab.shows (tab : Tab) : List LocalMessage := showsOf tab.pass tab.tasks

/-- The tab knows of the message what is stored, and a message without a row never had its file. -/
def UpToDate (s : Shared) (tab : Tab) (id : MessageId) : Prop :=
  tab.shown.get? id = s.messages.get? id ∧ (s.messages.get? id = none → id ∉ s.log.stored)

instance (s : Shared) (tab : Tab) (id : MessageId) : Decidable (UpToDate s tab id) :=
  inferInstanceAs (Decidable (_ ∧ _))

/-- A message that is taken in hand, to be registered or tried again, is known as it is stored; and
no message has an id that every object answers to. -/
def Fresh (s : Shared) (tab : Tab) : TabEvent → Prop
  | .pass _ => match tab.pass with
    | some (.reading sweep) => ∀ row ∈ sweep.pending.head?, row.deletesMessageId = none →
        s.inherited row.id = false ∧
        (answers s.inherited sweep.deletions row.id = false → UpToDate s tab row.id)
    | _ => True
  | .retryFileDownload id => UpToDate s tab id
  | _ => True

instance (s : Shared) (tab : Tab) (e : TabEvent) : Decidable (Fresh s tab e) := by
  unfold Fresh
  split
  · split
    · infer_instance
    · infer_instance
  · infer_instance
  · infer_instance

/-- No copy in the tab's hands lacks the file that the effect says is stored. -/
def Tab.Spares (tab : Tab) : Effect → Prop
  | .putMessage m => m.fileState = some .downloaded → ∀ c ∈ tab.hands, c.id = m.id →
  lacksFile c.fileState = false
  | _ => True

instance (tab : Tab) : (e : Effect) → Decidable (tab.Spares e)
  | .putMessage m => inferInstanceAs (Decidable (_ → ∀ c ∈ tab.hands, _ → _))
  | .nothing | .showMessage _ | .deleteMessage _ | .hideMessage _ | .setDeletions _ |
      .recordDeletion _ | .transfer _ _
  | .deleteFile _ => inferInstanceAs (Decidable True)

/-- A copy made of one in hand: it lacks the file only if that one does. -/
def Stems (hands : List LocalMessage) (c : LocalMessage) : Prop :=
  ∃ c₀ ∈ hands, c₀.id = c.id ∧ (lacksFile c.fileState = true → lacksFile c₀.fileState = true)

theorem Stems.of_mem {hands : List LocalMessage} (h : c ∈ hands) : Stems hands c :=
  ⟨c, h, rfl, fun h => h⟩

theorem Stems.mono {hands hands' : List LocalMessage} (h : Stems hands c) (hsub : hands ⊆ hands') :
    Stems hands' c := by
  obtain ⟨c₀, hmem, hc⟩ := h
  exact ⟨c₀, hsub hmem, hc⟩

theorem lacksFile_of_needsDownload {state : Option FileState} (h : needsDownload state = true) :
    lacksFile state = true := by
  unfold needsDownload at h
  split at h <;> first | rfl | cases h

/-- What a worker writes, shows and keeps stems from what it had in hand, and it shows what it
wrote. -/
theorem downloadAndAck_hands {input : WorkerInput} {w : WorkerPc} :
    (∀ m, (downloadAndAck tab input w).1 = .putMessage m → Stems w.hands m) ∧
      (∀ m, (downloadAndAck tab input w).1 = .showMessage m → Stems w.hands m ∧ m ∈ w.shows) ∧
        ∀ w', (downloadAndAck tab input w).2 = some w' → (∀ c ∈ w'.hands, Stems w.hands c) ∧
          ∀ c ∈ w'.shows, (downloadAndAck tab input w).1 = .putMessage c := by
  cases w with
  | starting m =>
    simp only [downloadAndAck]
    split_ifs with hneeds
    · refine ⟨fun _ h => (by cases h), fun _ h => (by cases h), fun w' hw => ?_⟩
      obtain rfl := Option.some.inj hw
      refine ⟨fun c hc =>
        ⟨m, List.mem_singleton_self m, ?_, fun _ => lacksFile_of_needsDownload hneeds.2⟩,
        fun c hc => by cases hc⟩
      rcases List.mem_pair.mp hc with rfl | rfl <;> rfl
    · exact ⟨fun _ h => (by cases h), fun _ h => (by cases h), fun w' hw => by cases hw⟩
    · exact ⟨fun _ h => (by cases h), fun _ h => (by cases h), fun w' hw => by cases hw⟩
    · refine ⟨fun _ h => (by cases h), fun _ h => (by cases h), fun w' hw => ?_⟩
      obtain rfl := Option.some.inj hw
      exact ⟨fun c hc => .of_mem hc, fun c hc => by cases hc⟩
  | putting row m next =>
    simp only [downloadAndAck]
    split_ifs
    · refine ⟨fun m' h => ?_, fun _ h => (by cases h), fun w' hw => ?_⟩
      · obtain rfl := Effect.putMessage.inj h
        exact .of_mem (List.mem_cons_self ..)
      · obtain rfl := Option.some.inj hw
        refine ⟨fun c hc => .of_mem hc, fun c hc => ?_⟩
        rw [List.mem_singleton.mp hc]
    · exact ⟨fun _ h => (by cases h), fun _ h => (by cases h), fun w' hw => by cases hw⟩
  | showing row m next =>
    refine ⟨fun _ h => (by cases h), fun m' h => ?_, fun w' hw => ?_⟩
    · obtain rfl := Effect.showMessage.inj h
      exact ⟨.of_mem (List.mem_cons_self ..), List.mem_singleton_self _⟩
    · simp only [downloadAndAck] at hw
      cases next with
      | fetch =>
        obtain rfl := Option.some.inj hw
        exact ⟨fun c hc => .of_mem (List.mem_cons_of_mem _ hc), fun c hc => by cases hc⟩
      | ack =>
        simp only at hw
        split_ifs at hw
        obtain rfl := Option.some.inj hw
        exact ⟨fun c hc => .of_mem (List.mem_cons_of_mem _ hc), fun c hc => by cases hc⟩
      | stop => cases hw
  | fetching m =>
    refine ⟨fun _ h => (by cases h), fun _ h => (by cases h), fun w' hw => ?_⟩
    obtain rfl := Option.some.inj hw
    constructor
    · intro c hc
      refine ⟨_, List.mem_singleton_self _, ?_, fun _ => rfl⟩
      cases hend : tab.download m input.transfer <;> rw [hend] at hc <;>
        rcases List.mem_pair.mp hc with rfl | rfl <;> rfl
    · intro c hc
      cases hend : tab.download m input.transfer <;> rw [hend] at hc <;> cases hc
  | acking m =>
    simp only [downloadAndAck]
    refine ⟨fun _ h => (by cases h), fun _ h => (by cases h), fun w' hw => ?_⟩
    split_ifs at hw
    obtain rfl := Option.some.inj hw
    refine ⟨fun c hc => ⟨m, List.mem_singleton_self m, ?_, fun h => ?_⟩, fun c hc => by cases hc⟩
    · rcases List.mem_pair.mp hc with rfl | rfl <;> rfl
    · rcases List.mem_pair.mp hc with rfl | rfl <;> exact h

/-- What a step owes: it writes what stems from what is in hand, shows what it wrote, and takes in
hand only what was never stored with its file. -/
structure Handles (s : Shared) (tab : Tab) (move : Move) : Prop where
  puts : ∀ m, move.effect = .putMessage m → Stems tab.hands m
  shown : ∀ m, move.effect = .showMessage m → Stems tab.hands m ∧ m ∈ tab.shows
  hands : ∀ c ∈ handsOf move.pass move.tasks, Stems tab.hands c ∨
    move.effect = .nothing ∧ (lacksFile c.fileState = true → c.id ∉ s.log.stored)
  shows : ∀ c ∈ showsOf move.pass move.tasks, c ∈ tab.shows ∨ move.effect = .putMessage c

/-- A move of the pass alone. -/
theorem Handles.pass {effect : Effect} {pass : Option PassPc}
    (hputs : ∀ m, effect = .putMessage m → Stems tab.hands m)
    (hshown : ∀ m, effect = .showMessage m → Stems tab.hands m ∧ m ∈ tab.shows)
    (hpass : ∀ pc, pass = some pc → (∀ c ∈ pc.hands, Stems tab.hands c ∨
        effect = .nothing ∧ (lacksFile c.fileState = true → c.id ∉ s.log.stored)) ∧
      ∀ c ∈ pc.shows, c ∈ tab.shows ∨ effect = .putMessage c) : Handles s tab ⟨effect, pass,
        tab.tasks⟩ := by
  refine ⟨hputs, hshown, fun c hc => ?_, fun c hc => ?_⟩
  · rcases List.mem_append.mp hc with hc | hc
    · cases pass with
      | none => cases hc
      | some pc => exact (hpass pc rfl).1 c hc
    · exact Or.inl (.of_mem (List.mem_append_right _ hc))
  · rcases List.mem_append.mp hc with hc | hc
    · cases pass with
      | none => cases hc
      | some pc => exact (hpass pc rfl).2 c hc
    · exact Or.inl (List.mem_append_right _ hc)

/-- A move of what the user asked for alone. -/
theorem Handles.tasks {effect : Effect} {tasks : List Task}
    (hputs : ∀ m, effect = .putMessage m → Stems tab.hands m)
    (hshown : ∀ m, effect = .showMessage m → Stems tab.hands m ∧ m ∈ tab.shows)
    (htasks : ∀ task ∈ tasks, task ∈ tab.tasks ∨ (∀ c ∈ task.hands, Stems tab.hands c ∨
        effect = .nothing ∧ (lacksFile c.fileState = true → c.id ∉ s.log.stored)) ∧
      ∀ c ∈ task.shows, effect = .putMessage c) : Handles s tab ⟨effect, tab.pass, tasks⟩ := by
  refine ⟨hputs, hshown, fun c hc => ?_, fun c hc => ?_⟩
  · rcases List.mem_append.mp hc with hc | hc
    · exact Or.inl (.of_mem (List.mem_append_left _ hc))
    · obtain ⟨task, htask, hc⟩ := List.mem_flatMap.mp hc
      rcases htasks task htask with hold | hnew
      · exact Or.inl (.of_mem (List.mem_append_right _ (List.mem_flatMap.mpr ⟨task, hold, hc⟩)))
      · exact hnew.1 c hc
  · rcases List.mem_append.mp hc with hc | hc
    · exact Or.inl (List.mem_append_left _ hc)
    · obtain ⟨task, htask, hc⟩ := List.mem_flatMap.mp hc
      rcases htasks task htask with hold | hnew
      · exact Or.inl (List.mem_append_right _ (List.mem_flatMap.mpr ⟨task, hold, hc⟩))
      · exact Or.inr (hnew.2 c hc)

theorem hands_pass {pc : PassPc} (hpass : tab.pass = some pc) : pc.hands ⊆ tab.hands := by
  intro c hc
  refine List.mem_append_left _ ?_
  rw [hpass]
  exact hc

theorem shows_pass {pc : PassPc} (hpass : tab.pass = some pc) : pc.shows ⊆ tab.shows := by
  intro c hc
  refine List.mem_append_left _ ?_
  rw [hpass]
  exact hc

theorem hands_task {task : Task} (htask : task ∈ tab.tasks) : task.hands ⊆ tab.hands := fun c hc =>
  List.mem_append_right _ (List.mem_flatMap.mpr ⟨task, htask, hc⟩)

theorem hands_downloading {sweep : Sweep} {workers : List WorkerPc} {pc : PassPc}
    (h : downloading sweep workers = some pc) :
    pc.hands = workers.flatMap WorkerPc.hands ++ sweep.registered ∧
      pc.shows = workers.flatMap WorkerPc.shows := by
  unfold downloading at h
  split_ifs at h
  obtain rfl := Option.some.inj h
  exact ⟨rfl, rfl⟩

theorem hands_runWithConcurrency {sweep : Sweep} {pc : PassPc}
    (h : runWithConcurrency sweep = some pc) :
    pc.hands ⊆ sweep.registered ∧ pc.shows = [] := by
  obtain ⟨hhands, hshows⟩ := hands_downloading h
  constructor
  · rw [hhands]
    refine List.append_subset.mpr ⟨fun c hc => ?_, List.drop_subset _ _⟩
    obtain ⟨w, hw, hc⟩ := List.mem_flatMap.mp hc
    obtain ⟨m, hm, rfl⟩ := List.mem_map.mp hw
    obtain rfl := List.mem_singleton.mp hc
    exact List.mem_of_mem_take hm
  · rw [hshows]
    refine List.flatMap_eq_nil_iff.mpr fun w hw => ?_
    obtain ⟨m, _, rfl⟩ := List.mem_map.mp hw
    rfl

theorem hands_moveWorker {sweep : Sweep} {workers : List WorkerPc} {k : ℕ} {next : Option WorkerPc}
    {pc : PassPc} (h : moveWorker sweep workers k next = some pc) :
    (∀ c ∈ pc.hands, c ∈ (PassPc.downloading sweep workers).hands ∨ ∃ w, next = some w ∧
      c ∈ w.hands) ∧
      ∀ c ∈ pc.shows, c ∈ (PassPc.downloading sweep workers).shows ∨ ∃ w, next = some w ∧
        c ∈ w.shows := by
  have hset : ∀ {v : WorkerPc}, (∀ w ∈ workers.set k v, w ∈ workers ∨ w = v) := fun {v} w hw =>
    List.mem_or_eq_of_mem_set hw
  have hold : ∀ w ∈ workers, w.hands ⊆ (PassPc.downloading sweep workers).hands ∧
      w.shows ⊆ (PassPc.downloading sweep workers).shows := fun w hw =>
    ⟨fun c hc => List.mem_append_left _ (List.mem_flatMap.mpr ⟨w, hw, hc⟩),
      fun c hc => List.mem_flatMap.mpr ⟨w, hw, hc⟩⟩
  unfold moveWorker at h
  split at h
  · next v =>
    obtain ⟨hhands, hshows⟩ := hands_downloading h
    rw [hhands, hshows]
    refine ⟨fun c hc => ?_, fun c hc => ?_⟩
    · rcases List.mem_append.mp hc with hc | hc
      · obtain ⟨w, hw, hcw⟩ := List.mem_flatMap.mp hc
        rcases hset w hw with hw | heq
        · exact Or.inl ((hold w hw).1 hcw)
        · exact Or.inr ⟨v, rfl, heq ▸ hcw⟩
      · exact Or.inl (List.mem_append_right _ hc)
    · obtain ⟨w, hw, hcw⟩ := List.mem_flatMap.mp hc
      rcases hset w hw with hw | heq
      · exact Or.inl ((hold w hw).2 hcw)
      · exact Or.inr ⟨v, rfl, heq ▸ hcw⟩
  · split at h
    · next m rest hregistered =>
      obtain ⟨hhands, hshows⟩ := hands_downloading h
      rw [hhands, hshows]
      refine ⟨fun c hc => Or.inl ?_, fun c hc => Or.inl ?_⟩
      · rcases List.mem_append.mp hc with hc | hc
        · obtain ⟨w, hw, hc⟩ := List.mem_flatMap.mp hc
          rcases hset w hw with hw | rfl
          · exact (hold w hw).1 hc
          · obtain rfl := List.mem_singleton.mp hc
            refine List.mem_append_right _ ?_
            rw [hregistered]
            exact List.mem_cons_self ..
        · refine List.mem_append_right _ ?_
          rw [hregistered]
          exact List.mem_cons_of_mem _ hc
      · obtain ⟨w, hw, hc⟩ := List.mem_flatMap.mp hc
        rcases hset w hw with hw | rfl
        · exact (hold w hw).2 hc
        · cases hc
    · obtain ⟨hhands, hshows⟩ := hands_downloading h
      rw [hhands, hshows]
      refine ⟨fun c hc => Or.inl ?_, fun c hc => Or.inl ?_⟩
      · rcases List.mem_append.mp hc with hc | hc
        · obtain ⟨w, hw, hc⟩ := List.mem_flatMap.mp hc
          exact (hold w (List.mem_of_mem_eraseIdx hw)).1 hc
        · exact List.mem_append_right _ hc
      · obtain ⟨w, hw, hc⟩ := List.mem_flatMap.mp hc
        exact (hold w (List.mem_of_mem_eraseIdx hw)).2 hc

/-- What a tab shows of a message lacks the file only if it was never stored, when the tab knows
what is. -/
theorem UpToDate.unstored (h : UpToDate s tab c.id)
    (hrows : ∀ row ∈ s.messages, row.id ∈ s.log.stored → lacksFile row.fileState = false)
    (hc : tab.shown.get? c.id = some c ∨ tab.shown.get? c.id = none) :
    lacksFile c.fileState = true → c.id ∉ s.log.stored := by
  intro hlacks hstored
  rcases hc with hshown | hnone
  · obtain ⟨hmem, _⟩ := Table.get?_eq_some.mp (h.1 ▸ hshown)
    rw [hrows c hmem hstored] at hlacks
    cases hlacks
  · exact h.2 (h.1 ▸ hnone) hstored

/-- What is registered, or shown already, is taken in hand. -/
theorem hands_nextPending {input : PassInput} {row : MessageRow} {sweep : Sweep}
    (hrows : ∀ r ∈ s.messages, r.id ∈ s.log.stored → lacksFile r.fileState = false)
    (hfresh : row.deletesMessageId = none → answers s.inherited sweep.deletions row.id = false →
      UpToDate s tab row.id) :
    (∀ c ∈ (nextPending s tab input row sweep).hands, c ∈ sweep.registered ∨
        (lacksFile c.fileState = true → c.id ∉ s.log.stored)) ∧
        (nextPending s tab input row sweep).shows = [] := by
  unfold nextPending
  split
  · split_ifs
    · exact ⟨fun c hc => Or.inl hc, rfl⟩
    · exact ⟨fun c hc => Or.inl hc, rfl⟩
  · next hnone =>
    split_ifs with hanswers
    · exact ⟨fun c hc => Or.inl hc, rfl⟩
    · have hup := hfresh hnone (Bool.not_eq_true _ ▸ hanswers)
      unfold registerIncoming
      split
      · next shown hshown =>
        have hid : shown.id = row.id := (Table.get?_eq_some.mp hshown).2
        refine ⟨fun c hc => (List.mem_append.mp hc).imp_right fun hc => ?_, rfl⟩
        rw [List.mem_singleton.mp hc]
        rw [← hid] at hup hshown
        exact hup.unstored hrows (Or.inl hshown)
      · next hshown =>
        split
        · refine ⟨fun c hc => (List.mem_cons.mp hc).symm.imp_right fun hc => ?_, rfl⟩
          rw [hc]
          exact UpToDate.unstored (c := registered row _) hup hrows (Or.inr hshown)
        · exact ⟨fun c hc => Or.inl hc, rfl⟩

theorem erase_effects {written : Bool} {e : Erasure} :
    (∀ m, (erase s tab written e).1 ≠ .putMessage m) ∧ ∀ m,
    (erase s tab written e).1 ≠ .showMessage m := by
  cases e with
  | recording | dropping | clearing =>
    simp only [erase]
    split_ifs <;> exact ⟨fun _ h => (nomatch h), fun _ h => (nomatch h)⟩
  | finding | looking | filtering => exact ⟨fun _ h => (nomatch h), fun _ h => (nomatch h)⟩

theorem handles_pass {input : PassInput} {pc : PassPc} {effect : Effect} {next : Option PassPc}
    (hpass : tab.pass = some pc)
    (hrows : ∀ r ∈ s.messages, r.id ∈ s.log.stored → lacksFile r.fileState = false)
    (hfresh : Fresh s tab (.pass input)) (h : syncNow s tab input pc = some (effect, next)) :
    Handles s tab ⟨effect, next, tab.tasks⟩ := by
  have hsame : ∀ {c : LocalMessage}, c ∈ pc.hands → Stems tab.hands c :=
    fun hc => .of_mem (hands_pass hpass hc)
  cases pc with
  | polling => cases h
  | downloading => cases h
  | loading pending =>
    simp only [syncNow, Option.some.injEq] at h
    split_ifs at h
    · obtain ⟨rfl, rfl⟩ := Prod.mk.inj h
      refine .pass (fun _ h => (nomatch h)) (fun _ h => (nomatch h)) fun pc' hpc => ?_
      obtain rfl := Option.some.inj hpc
      exact ⟨fun c hc => (by cases hc), fun c hc => by cases hc⟩
    · obtain ⟨rfl, rfl⟩ := Prod.mk.inj h
      exact .pass (fun _ h => (nomatch h)) (fun _ h => (nomatch h)) fun pc' hpc => by cases hpc
  | reading sweep =>
    simp only [syncNow, Option.some.injEq, Prod.mk.injEq] at h
    obtain ⟨rfl, hnext⟩ := h
    refine .pass (fun _ h => (nomatch h)) (fun _ h => (nomatch h)) fun pc' hpc => ?_
    subst hpc
    split at hnext
    · obtain ⟨hhands, hshows⟩ := hands_runWithConcurrency hnext
      refine ⟨fun c hc => Or.inl (hsame (hhands hc)), fun c hc => ?_⟩
      rw [hshows] at hc
      cases hc
    · next row rest hpending =>
      obtain rfl := Option.some.inj hnext
      simp only [Fresh, hpass, hpending, List.head?_cons, Option.mem_def, Option.some.injEq,
        forall_eq'] at hfresh
      obtain ⟨hhands, hshows⟩ :=
        @hands_nextPending s tab input row { sweep with pending := rest } hrows
        fun hnone => (hfresh hnone).2
      refine ⟨fun c hc => (hhands c hc).imp hsame fun hc => ⟨rfl, hc⟩, fun c hc => ?_⟩
      rw [hshows] at hc
      cases hc
  | erasing sweep row e =>
    obtain ⟨hputs, hshown⟩ := @erase_effects s tab input.written e
    simp only [syncNow, Option.some.injEq, Prod.mk.injEq] at h
    obtain ⟨rfl, rfl⟩ := h
    refine .pass (fun m h => absurd h (hputs m)) (fun m h => absurd h (hshown m)) fun pc' hpc => ?_
    obtain rfl := Option.some.inj hpc
    split <;> exact ⟨fun c hc => Or.inl (hsame hc), fun c hc => by cases hc⟩
  | acking sweep row =>
    simp only [syncNow, Option.some.injEq, Prod.mk.injEq] at h
    obtain ⟨rfl, rfl⟩ := h
    refine .pass (fun _ h => (nomatch h)) (fun _ h => (nomatch h)) fun pc' hpc => ?_
    obtain rfl := Option.some.inj hpc
    exact ⟨fun c hc => Or.inl (hsame hc), fun c hc => by cases hc⟩
  | putting sweep m =>
    simp only [syncNow, Option.some.injEq] at h
    split_ifs at h
    · obtain ⟨rfl, rfl⟩ := Prod.mk.inj h
      refine .pass (fun m' h => ?_) (fun _ h => (nomatch h)) fun pc' hpc => ?_
      · obtain rfl := Effect.putMessage.inj h
        exact hsame (List.mem_cons_self ..)
      · obtain rfl := Option.some.inj hpc
        refine ⟨fun c hc => Or.inl (hsame hc), fun c hc => Or.inr ?_⟩
        rw [List.mem_singleton.mp hc]
    · obtain ⟨rfl, rfl⟩ := Prod.mk.inj h
      refine .pass (fun _ h => (nomatch h)) (fun _ h => (nomatch h)) fun pc' hpc => ?_
      obtain rfl := Option.some.inj hpc
      exact ⟨fun c hc => Or.inl (hsame (List.mem_cons_of_mem _ hc)), fun c hc => by cases hc⟩
  | showing sweep m =>
    simp only [syncNow, Option.some.injEq, Prod.mk.injEq] at h
    obtain ⟨rfl, rfl⟩ := h
    refine .pass (fun _ h => (nomatch h)) (fun m' h => ?_) fun pc' hpc => ?_
    · obtain rfl := Effect.showMessage.inj h
      exact ⟨hsame (List.mem_cons_self ..), shows_pass hpass (List.mem_singleton_self _)⟩
    · obtain rfl := Option.some.inj hpc
      refine ⟨fun c hc => Or.inl (hsame ?_), fun c hc => by cases hc⟩
      rcases List.mem_append.mp hc with hc | hc
      · exact List.mem_cons_of_mem _ hc
      · rw [List.mem_singleton.mp hc]
        exact List.mem_cons_self ..

theorem handles_worker {input : WorkerInput} {sweep : Sweep} {workers : List WorkerPc} {k : ℕ}
    {w : WorkerPc}
    (hpass : tab.pass = some (.downloading sweep workers)) (hw : workers[k]? = some w) :
    Handles s tab ⟨(downloadAndAck tab input w).1,
      moveWorker sweep workers k (downloadAndAck tab input w).2, tab.tasks⟩ := by
  obtain ⟨hputs, hshown, hnext⟩ := @downloadAndAck_hands tab input w
  have hmem : w ∈ workers := List.mem_of_getElem? hw
  have hhands : w.hands ⊆ tab.hands := fun c hc =>
    hands_pass hpass (List.mem_append_left _ (List.mem_flatMap.mpr ⟨w, hmem, hc⟩))
  have hshows : w.shows ⊆ tab.shows :=
    fun c hc => shows_pass hpass (List.mem_flatMap.mpr ⟨w, hmem, hc⟩)
  refine .pass (fun m h => (hputs m h).mono hhands) (fun m h =>
    ⟨(hshown m h).1.mono hhands, hshows (hshown m h).2⟩)
    fun pc hpc => ?_
  obtain ⟨hpcHands, hpcShows⟩ := hands_moveWorker hpc
  refine ⟨fun c hc => Or.inl ?_, fun c hc => ?_⟩
  · rcases hpcHands c hc with hold | ⟨w', hw', hc⟩
    · exact .of_mem (hands_pass hpass hold)
    · exact ((hnext w' hw').1 c hc).mono hhands
  · rcases hpcShows c hc with hold | ⟨w', hw', hc⟩
    · exact Or.inl (shows_pass hpass hold)
    · exact Or.inr ((hnext w' hw').2 c hc)

theorem handles_task {input : TaskInput} {task : Task} {k : ℕ} (htask : tab.tasks[k]? = some task) :
    Handles s tab ⟨(moveTask s tab input task).1, tab.pass, match (moveTask s tab input task).2 with
      | some task' => tab.tasks.set k task'
      | none => tab.tasks.eraseIdx k⟩ := by
  have hmem : task ∈ tab.tasks := List.mem_of_getElem? htask
  have hhands : ∀ {c : LocalMessage}, c ∈ task.hands → Stems tab.hands c :=
    fun hc => .of_mem (hands_task hmem hc)
  have hspec : (∀ m, (moveTask s tab input task).1 = .putMessage m → m ∈ task.hands) ∧
      (∀ m, (moveTask s tab input task).1 = .showMessage m → m ∈ task.hands ∧ m ∈ task.shows) ∧
        ∀ task', (moveTask s tab input task).2 = some task' → task'.hands ⊆ task.hands ∧
          ∀ c ∈ task'.shows, (moveTask s tab input task).1 = .putMessage c := by
    cases task with
    | erasing e =>
      obtain ⟨hputs, hshown⟩ := @erase_effects s tab input.written e
      refine ⟨fun m h => absurd h (hputs m), fun m h => absurd h (hshown m), fun task' ht => ?_⟩
      simp only [moveTask] at ht
      split at ht
      · obtain ⟨e', _, rfl⟩ := Option.map_eq_some_iff.mp ht
        exact ⟨fun c hc => (by cases hc), fun c hc => by cases hc⟩
      · cases ht
    | acking m =>
      refine ⟨fun _ h => (nomatch h), fun _ h => (nomatch h), fun task' ht => ?_⟩
      simp only [moveTask] at ht
      split_ifs at ht
      obtain rfl := Option.some.inj ht
      exact ⟨fun c hc => (by cases hc), fun c hc => by cases hc⟩
    | putting m =>
      simp only [moveTask]
      split_ifs
      · refine ⟨fun m' h => ?_, fun _ h => (nomatch h), fun task' ht => ?_⟩
        · obtain rfl := Effect.putMessage.inj h
          exact List.mem_singleton_self _
        · obtain rfl := Option.some.inj ht
          refine ⟨List.Subset.refl _, fun c hc => ?_⟩
          rw [List.mem_singleton.mp hc]
      · exact ⟨fun _ h => (nomatch h), fun _ h => (nomatch h), fun task' ht => by cases ht⟩
    | showing m =>
      refine ⟨fun _ h => (nomatch h), fun m' h => ?_, fun task' ht => by cases ht⟩
      obtain rfl := Effect.showMessage.inj h
      exact ⟨List.mem_singleton_self _, List.mem_singleton_self _⟩
  obtain ⟨hputs, hshown, hnext⟩ := hspec
  refine .tasks (fun m h => hhands (hputs m h)) (fun m h => ⟨hhands (hshown m h).1, ?_⟩)
    fun task' htask' => ?_
  · exact List.mem_append_right _ (List.mem_flatMap.mpr ⟨task, hmem, (hshown m h).2⟩)
  · split at htask'
    · next left hleft =>
      rcases List.mem_or_eq_of_mem_set htask' with hold | rfl
      · exact Or.inl hold
      · exact Or.inr ⟨fun c hc => Or.inl (hhands ((hnext _ hleft).1 hc)), (hnext _ hleft).2⟩
    · exact Or.inl (List.mem_of_mem_eraseIdx htask')

theorem handles_startTask {task : Task}
    (htask : ∀ c ∈ task.hands, lacksFile c.fileState = true → c.id ∉ s.log.stored)
    (hshows : task.shows = []) :
    Handles s tab (tab.startTask task) := by
  refine .tasks (fun _ h => (nomatch h)) (fun _ h => (nomatch h)) fun task' htask' => ?_
  refine (List.mem_append.mp htask').imp_right fun hnew => ?_
  obtain rfl := List.mem_singleton.mp hnew
  refine ⟨fun c hc => Or.inr ⟨rfl, htask c hc⟩, fun c hc => ?_⟩
  rw [hshows] at hc
  cases hc

theorem handles {e : TabEvent} {move : Move}
    (hrows : ∀ r ∈ s.messages, r.id ∈ s.log.stored → lacksFile r.fileState = false)
    (hfresh : Fresh s tab e) (hmove : tab.move s e = some move) : Handles s tab move := by
  have hidle : ∀ {pass : Option PassPc}, (∀ pc, pass = some pc → pc.hands = [] ∧ pc.shows = []) →
      Handles s tab ⟨.nothing, pass, tab.tasks⟩ := by
    intro pass hpass
    refine .pass (fun _ h => (nomatch h)) (fun _ h => (nomatch h)) fun pc hpc => ?_
    rw [(hpass pc hpc).1, (hpass pc hpc).2]
    exact ⟨fun c hc => (by cases hc), fun c hc => by cases hc⟩
  cases e with
  | sync =>
    simp only [Tab.move] at hmove
    split at hmove
    · obtain rfl := Option.some.inj hmove
      refine hidle fun pc hpc => ?_
      obtain rfl := Option.some.inj hpc
      exact ⟨rfl, rfl⟩
    · cases hmove
  | answer pending =>
    simp only [Tab.move] at hmove
    split at hmove
    · split_ifs at hmove
      obtain rfl := Option.some.inj hmove
      refine hidle fun pc hpc => ?_
      obtain ⟨_, _, rfl⟩ := Option.map_eq_some_iff.mp hpc
      exact ⟨rfl, rfl⟩
    · cases hmove
  | pass input =>
    obtain ⟨pc, hpc, hrest⟩ := Option.bind_eq_some_iff.mp hmove
    obtain ⟨⟨effect, next⟩, hsync, hmove⟩ := Option.bind_eq_some_iff.mp hrest
    obtain rfl := Option.some.inj hmove
    exact handles_pass hpc hrows hfresh hsync
  | worker k input =>
    simp only [Tab.move] at hmove
    split at hmove
    · next sweep workers hget =>
      obtain ⟨w, hw, hmove⟩ := Option.bind_eq_some_iff.mp hmove
      obtain rfl := Option.some.inj hmove
      exact handles_worker hget hw
    · cases hmove
  | retryFileDownload id =>
    obtain ⟨m, hm, hmove⟩ := Option.bind_eq_some_iff.mp hmove
    split_ifs at hmove with herror
    obtain rfl := Option.some.inj hmove
    have hid : m.id = id := (Table.get?_eq_some.mp hm).2
    subst hid
    have hfree : m.id ∉ s.log.stored :=
      UpToDate.unstored (c := m) hfresh hrows (Or.inl hm) (by rw [herror.2]; rfl)
    refine handles_startTask (fun c hc _ => ?_) rfl
    rw [List.mem_singleton.mp hc]
    exact hfree
  | deleteMessageEverywhere id peers =>
    obtain ⟨m, _, hmove⟩ := Option.bind_eq_some_iff.mp hmove
    split_ifs at hmove
    obtain rfl := Option.some.inj hmove
    exact handles_startTask (fun c hc => by cases hc) rfl
  | deleteMessageLocally id =>
    obtain ⟨m, _, hmove⟩ := Option.bind_eq_some_iff.mp hmove
    obtain rfl := Option.some.inj hmove
    refine handles_startTask (fun c hc => ?_) ?_
    · split_ifs at hc <;> cases hc
    · split_ifs <;> rfl
  | task k input =>
    obtain ⟨task, htask, hmove⟩ := Option.bind_eq_some_iff.mp hmove
    obtain rfl := Option.some.inj hmove
    exact handles_task htask

end Receipts
end SendSelf
