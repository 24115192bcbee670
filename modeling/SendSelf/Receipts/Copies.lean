import SendSelf.Receipts.Device

/-!
# Copies of a message

Every copy of a message that a tab has in hand is accounted for: its file is still wanted, is
stored, or will never be, or the message has been deleted. Its row is there, unless the message
has been deleted. That is so of what a tab shows, of what a pass has registered, of what its
workers and the user's tasks have captured, and of the rows; it stays so whatever the other
tabs do, as long as no file is deleted that a message of another id names.
-/
namespace SendSelf.Receipts

variable {s s' : Shared} {tab : Tab} {m : LocalMessage}

/-- The file that a message came with. -/
def Shared.named (s : Shared) (id : MessageId) : Option FileKey :=
  (s.sent.get? id).bind MessageRow.fileR2Key

/-- The file has come, or never will. -/
def Resolved (s : Shared) (m : LocalMessage) : Prop :=
  m.file = none ∨ (∃ key, m.file = some key ∧ key ∈ s.files) ∨ m.id ∈ s.log.notFound ∨
  m.id ∈ s.log.exhausted

structure Good (s : Shared) (m : LocalMessage) : Prop where
  named : m.file = none ∨ m.file = s.named m.id
  accounted : needsDownload m.fileState = true ∨ m.id ∈ s.log.discarded ∨ Resolved s m

structure Copy (s : Shared) (m : LocalMessage) : Prop extends Good s m where
  kept : (∃ row ∈ s.messages, row.id = m.id) ∨ m.id ∈ s.log.discarded

def lacksFile : Option FileState → Bool
  | some .remote | some .downloading | some .error | some .expired => true
  | _ => false

/-- A file is deleted only where no other message came with it that is not deleted. -/
def Careful (s : Shared) : Effect → Prop
  | .deleteFile m => ∀ row ∈ s.messages, s.named row.id = m.file → row.id ∈ s.log.discarded
  | _ => True

instance (s : Shared) : (e : Effect) → Decidable (Careful s e)
  | .deleteFile _ => inferInstanceAs (Decidable (∀ row ∈ s.messages, _ → _))
  | .nothing | .putMessage _ | .showMessage _ | .deleteMessage _ | .hideMessage _ | .setDeletions _
  | .recordDeletion _ | .transfer _ _ => inferInstanceAs (Decidable True)

structure Later (s s' : Shared) : Prop where
  sent : s'.sent = s.sent
  discarded : ∀ id ∈ s.log.discarded, id ∈ s'.log.discarded
  copy : ∀ m, Copy s m → Copy s' m

/-- A copy stays what it is while the files it needs and the rows are kept. -/
theorem Copy.of_kept (h : Copy s m) (hsent : s'.sent = s.sent)
    (hfiles : ∀ key, m.file = some key → key ∈ s.files → key ∈ s'.files ∨ m.id ∈ s'.log.discarded)
    (hnot : ∀ id ∈ s.log.notFound, id ∈ s'.log.notFound)
    (hexh : ∀ id ∈ s.log.exhausted, id ∈ s'.log.exhausted)
    (hdis : ∀ id ∈ s.log.discarded, id ∈ s'.log.discarded)
    (hrows : ∀ row ∈ s.messages, (∃ row' ∈ s'.messages, row'.id = row.id) ∨
      row.id ∈ s'.log.discarded) :
    Copy s' m := by
  refine ⟨⟨?_, ?_⟩, ?_⟩
  · unfold Shared.named
    rw [hsent]
    exact h.named
  · rcases h.accounted with hneeds | hd | hnone | ⟨key, hfile, hkey⟩ | hgone | hbudget
    · exact Or.inl hneeds
    · exact Or.inr (Or.inl (hdis _ hd))
    · exact Or.inr (Or.inr (Or.inl hnone))
    · rcases hfiles key hfile hkey with hkey' | hd
      · exact Or.inr (Or.inr (Or.inr (Or.inl ⟨key, hfile, hkey'⟩)))
      · exact Or.inr (Or.inl hd)
    · exact Or.inr (Or.inr (Or.inr (Or.inr (Or.inl (hnot _ hgone)))))
    · exact Or.inr (Or.inr (Or.inr (Or.inr (Or.inr (hexh _ hbudget)))))
  · rcases h.kept with ⟨row, hrow, hid⟩ | hd
    · rw [← hid]
      exact hrows row hrow
    · exact Or.inr (hdis _ hd)

theorem Later.refl (s : Shared) : Later s s := ⟨rfl, fun _ h => h, fun _ h => h⟩

theorem later_shared (tab : Tab) (e : Effect) (hok : Careful s e) : Later s (e.shared tab s) := by
  have hsame : ∀ {t : Shared}, t.sent = s.sent → (∀ key ∈ s.files, key ∈ t.files) →
      (∀ id ∈ s.log.notFound, id ∈ t.log.notFound) →
      (∀ id ∈ s.log.exhausted, id ∈ t.log.exhausted) →
      (∀ id ∈ s.log.discarded, id ∈ t.log.discarded) →
      (∀ row ∈ s.messages, (∃ row' ∈ t.messages, row'.id = row.id) ∨ row.id ∈ t.log.discarded) →
      Later s t :=
    fun hsent hfiles hnot hexh hdis hrows =>
      ⟨hsent, hdis,
        fun m h =>
          h.of_kept hsent (fun key _ hkey => Or.inl (hfiles key hkey)) hnot hexh hdis hrows⟩
  have hrows : ∀ {ids : List MessageId}, ∀ row ∈ s.messages,
      (∃ row' ∈ s.messages, row'.id = row.id) ∨ row.id ∈ ids :=
    fun row hrow => Or.inl ⟨row, hrow, rfl⟩
  cases e with
  | nothing | showMessage | hideMessage | setDeletions =>
    exact hsame rfl (fun _ h => h) (fun _ h => h) (fun _ h => h) (fun _ h => h) hrows
  | putMessage m =>
    refine hsame rfl (fun _ h => h) (fun _ h => h) (fun _ h => h) (fun _ h => h) fun row hrow =>
      Or.inl ?_
    by_cases hid : row.id = m.id
    · exact ⟨m, Table.mem_put.mpr (Or.inl rfl), hid.symm⟩
    · exact ⟨row, Table.mem_put.mpr (Or.inr ⟨hrow, hid⟩), rfl⟩
  | deleteMessage id =>
    refine hsame rfl (fun _ h => h) (fun _ h => h) (fun _ h => h) (fun _ h =>
      List.mem_cons_of_mem _ h) fun row hrow => ?_
    by_cases hid : row.id = id
    · exact Or.inr (List.mem_cons.mpr (Or.inl hid))
    · exact Or.inl ⟨row, Table.mem_delete.mpr ⟨hrow, decide_eq_false hid⟩, rfl⟩
  | recordDeletion id =>
    exact hsame rfl (fun _ h => h) (fun _ h => h) (fun _ h => h) (fun _ h =>
      List.mem_cons_of_mem _ h) hrows
  | transfer m outcome =>
    cases outcome with
    | failed | unstorable =>
      exact hsame rfl (fun _ h => h) (fun _ h => h) (fun _ h => h) (fun _ h => h) hrows
    | notFound =>
      exact hsame rfl (fun _ h => h) (fun _ h => List.mem_cons_of_mem _ h) (fun _ h => h)
        (fun _ h => h) hrows
    | undecryptable =>
      simp only [Effect.shared]
      split_ifs
      · exact hsame rfl (fun _ h => h) (fun _ h => h) (fun _ h => List.mem_cons_of_mem _ h)
          (fun _ h => h) hrows
      · exact Later.refl s
    | stored =>
      exact hsame rfl (fun _ h => List.mem_append_right _ h) (fun _ h => h) (fun _ h => h)
        (fun _ h => h) hrows
  | deleteFile gone =>
    refine ⟨rfl, fun _ h => h, fun m h => ?_⟩
    refine h.of_kept rfl (fun key hfile hkey => ?_) (fun _ h => h) (fun _ h => h)
      (fun _ h => h) hrows
    by_cases hgone : gone.file = some key
    · rcases h.kept with ⟨row, hrow, hid⟩ | hd
      · refine Or.inr (hid ▸ hok row hrow ?_)
        rw [hgone, hid]
        exact (h.named.resolve_left (by rw [hfile]; exact Option.some_ne_none key)).symm.trans hfile
      · exact Or.inr hd
    · exact Or.inl (List.mem_filter.mpr ⟨hkey, decide_eq_true hgone⟩)

/-- The file's turn is over. -/
def Through (m : LocalMessage) : Prop := m.file = none ∨ needsDownload m.fileState = false

def WorkerOk (s : Shared) : WorkerPc → Prop
  | .starting m | .fetching m => Copy s m
  | .putting row m next | .showing row m next => Copy s row ∧ Copy s m ∧ (next = .ack → Through m)
  | .acking m => Copy s m ∧ Through m

structure SweepOk (s : Shared) (sweep : Sweep) : Prop where
  pending : ∀ row ∈ sweep.pending, row ∈ s.sent
  deletions : ∀ d ∈ sweep.deletions, d.id ∈ s.log.discarded
  registered : ∀ m ∈ sweep.registered, Copy s m

/-- What a pass acks by itself: a tombstone, or a message that has been deleted. -/
def Dropped (s : Shared) (row : MessageRow) : Prop :=
  row.deletesMessageId.isSome = true ∨ row.id ∈ s.log.discarded

/-- A message that is about to be written for the first time. -/
structure Draft (s : Shared) (m : LocalMessage) : Prop where
  named : m.file = none ∨ m.file = s.named m.id
  waiting : m.file = none ∨ needsDownload m.fileState = true

def PassOk (s : Shared) : PassPc → Prop
  | .polling => True
  | .loading pending => ∀ row ∈ pending, row ∈ s.sent
  | .reading sweep => SweepOk s sweep
  | .erasing sweep row _ => SweepOk s sweep ∧ Dropped s row
  | .acking sweep row => SweepOk s sweep ∧ Dropped s row
  | .putting sweep m => SweepOk s sweep ∧ Draft s m
  | .showing sweep m => SweepOk s sweep ∧ Copy s m
  | .downloading sweep workers => SweepOk s sweep ∧ ∀ w ∈ workers, WorkerOk s w

def TaskOk (s : Shared) : Task → Prop
  | .erasing _ | .acking _ => True
  | .putting m | .showing m => Copy s m

structure TabOk (s : Shared) (tab : Tab) : Prop where
  shown : ∀ m ∈ tab.shown, Copy s m
  pass : ∀ pc, tab.pass = some pc → PassOk s pc
  tasks : ∀ task ∈ tab.tasks, TaskOk s task
  seen : ∀ m ∈ tab.shown, m.id ∈ tab.seen → lacksFile m.fileState = false

structure SharedOk (s : Shared) : Prop where
  rows : ∀ row ∈ s.messages, Copy s row
  deletions : ∀ d ∈ s.deletions, d.id ∈ s.log.discarded
  stored : ∀ row ∈ s.messages, row.id ∈ s.log.stored → lacksFile row.fileState = false
  noted : ∀ row ∈ s.messages, row.fileState = some .downloaded → row.id ∈ s.log.stored

theorem Draft.good (h : Draft s m) : Good s m := by
  refine ⟨h.named, ?_⟩
  rcases h.waiting with hnone | hneeds
  · exact Or.inr (Or.inr (Or.inl hnone))
  · exact Or.inl hneeds

theorem WorkerOk.later {w : WorkerPc} (hl : Later s s') (h : WorkerOk s w) : WorkerOk s' w := by
  cases w with
  | starting m | fetching m => exact hl.copy m h
  | putting row m next | showing row m next => exact ⟨hl.copy row h.1, hl.copy m h.2.1, h.2.2⟩
  | acking m => exact ⟨hl.copy m h.1, h.2⟩

theorem SweepOk.later {sweep : Sweep} (hl : Later s s') (h : SweepOk s sweep) :
    SweepOk s' sweep := by
  refine ⟨?_, fun d hd => hl.discarded _ (h.deletions d hd),
    fun m hm => hl.copy m (h.registered m hm)⟩
  rw [hl.sent]
  exact h.pending

theorem Draft.later (hl : Later s s') (h : Draft s m) : Draft s' m := by
  refine ⟨?_, h.waiting⟩
  unfold Shared.named
  rw [hl.sent]
  exact h.named

theorem Dropped.later {row : MessageRow} (hl : Later s s') (h : Dropped s row) : Dropped s' row :=
  h.imp_right (hl.discarded _)

theorem PassOk.later {pc : PassPc} (hl : Later s s') (h : PassOk s pc) : PassOk s' pc := by
  cases pc with
  | polling => trivial
  | loading pending =>
    intro row hrow
    rw [hl.sent]
    exact h row hrow
  | reading sweep => exact SweepOk.later hl h
  | erasing sweep row e => exact ⟨h.1.later hl, h.2.later hl⟩
  | acking sweep row => exact ⟨h.1.later hl, h.2.later hl⟩
  | putting sweep m => exact ⟨h.1.later hl, h.2.later hl⟩
  | showing sweep m => exact ⟨h.1.later hl, hl.copy m h.2⟩
  | downloading sweep workers => exact ⟨h.1.later hl, fun w hw => (h.2 w hw).later hl⟩

theorem TaskOk.later {task : Task} (hl : Later s s') (h : TaskOk s task) : TaskOk s' task := by
  cases task with
  | erasing | acking => trivial
  | putting m | showing m => exact hl.copy m h

theorem TabOk.later (hl : Later s s') (h : TabOk s tab) : TabOk s' tab :=
  ⟨fun m hm => hl.copy m (h.shown m hm), fun pc hpc => (h.pass pc hpc).later hl,
    fun task ht => (h.tasks task ht).later hl, h.seen⟩

/-- What an effect puts or shows is accounted for. -/
def EffectOk (s : Shared) : Effect → Prop
  | .putMessage m => Good s m
  | .showMessage m => Copy s m
  | .setDeletions deletions => ∀ d ∈ deletions, d.id ∈ s.log.discarded
  | _ => True

/-- A copy that differs in whether its file has come, or was acked. -/
theorem Copy.with_state {m' : LocalMessage} (h : Copy s m) (hid : m'.id = m.id)
    (hfile : m'.file = m.file)
    (hstate : needsDownload m'.fileState = true ∨ Resolved s m') : Copy s m' := by
  refine ⟨⟨by rw [hid, hfile]; exact h.named, ?_⟩, by rw [hid]; exact h.kept⟩
  exact hstate.imp_right Or.inr

theorem Copy.with_acked (h : Copy s m) (acked : Bool) : Copy s { m with acked } :=
  ⟨⟨h.named, h.accounted⟩, h.kept⟩

/-- After a transfer the worker writes how it has ended. -/
theorem workerOk_afterDownload (h : Copy s m) (outcome : Transfer)
    (hok : Careful s (.transfer m outcome)) :
    WorkerOk ((Effect.transfer m outcome).shared tab s)
      (History.afterDownload m (tab.download m outcome)) := by
  have hcopy := (later_shared tab _ hok).copy m h
  have herror : WorkerOk ((Effect.transfer m outcome).shared tab s)
      (.putting { m with fileState := some .error } m .stop) :=
    ⟨hcopy.with_state rfl rfl (Or.inl rfl), hcopy, fun h => by cases h⟩
  have hend : ∀ state, needsDownload state = false →
      Resolved ((Effect.transfer m outcome).shared tab s) { m with fileState := state } →
      WorkerOk ((Effect.transfer m outcome).shared tab s)
        (.putting { m with fileState := state } { m with fileState := state } .ack) :=
          fun state hneeds hres =>
    ⟨hcopy.with_state rfl rfl (Or.inr hres), hcopy.with_state rfl rfl (Or.inr hres),
      fun _ => Or.inr hneeds⟩
  cases outcome with
  | failed => exact herror
  | unstorable => exact herror
  | notFound => exact hend _ rfl (Or.inr (Or.inr (Or.inl (List.mem_cons_self ..))))
  | stored =>
    refine hend _ rfl ?_
    rcases Option.eq_none_or_eq_some m.file with hfile | ⟨key, hfile⟩
    · exact Or.inl hfile
    · refine Or.inr (Or.inl ⟨key, hfile, List.mem_append_left _ ?_⟩)
      rw [hfile]
      exact List.mem_singleton_self key
  | undecryptable =>
    unfold Tab.download
    by_cases hbudget : tab.decryptBudgetExhausted m.id = true
    · rw [if_pos hbudget]
      refine hend _ rfl (Or.inr (Or.inr (Or.inr ?_)))
      simp only [Effect.shared, hbudget, if_true]
      exact List.mem_cons_self ..
    · rw [if_neg hbudget]
      exact herror

theorem downloadAndAck_ok {input : WorkerInput} {w : WorkerPc} (h : WorkerOk s w)
    (hok : Careful s (downloadAndAck tab input w).1) : EffectOk s (downloadAndAck tab input w).1 ∧
      ∀ w', (downloadAndAck tab input w).2 = some w' →
        WorkerOk ((downloadAndAck tab input w).1.shared tab s) w' := by
  have hlater := later_shared tab _ hok
  cases w with
  | starting m =>
    revert hlater
    simp only [downloadAndAck]
    split_ifs with hneeds hdue hacked
    · refine fun hlater => ⟨trivial, fun w' hw => ?_⟩
      obtain rfl := Option.some.inj hw
      have hcopy := hlater.copy m h
      exact ⟨hcopy.with_state rfl rfl (Or.inl rfl), hcopy, fun h => by cases h⟩
    · exact fun _ => ⟨trivial, fun w' hw => by cases hw⟩
    · exact fun _ => ⟨trivial, fun w' hw => by cases hw⟩
    · refine fun hlater => ⟨trivial, fun w' hw => ?_⟩
      obtain rfl := Option.some.inj hw
      refine ⟨hlater.copy m h, ?_⟩
      rcases not_and_or.mp hneeds with hfile | hstate
      · exact Or.inl (Option.not_isSome_iff_eq_none.mp hfile)
      · exact Or.inr (Bool.eq_false_iff.mpr hstate)
  | putting row m next =>
    revert hlater
    simp only [downloadAndAck]
    split_ifs
    · refine fun hlater => ⟨h.1.toGood, fun w' hw => ?_⟩
      obtain rfl := Option.some.inj hw
      exact WorkerOk.later hlater h
    · exact fun _ => ⟨trivial, fun w' hw => by cases hw⟩
  | showing row m next =>
    refine ⟨h.1, fun w' hw => ?_⟩
    cases next with
    | fetch =>
      obtain rfl := Option.some.inj hw
      exact hlater.copy m h.2.1
    | ack =>
      simp only [downloadAndAck] at hw
      split_ifs at hw
      obtain rfl := Option.some.inj hw
      exact ⟨hlater.copy m h.2.1, h.2.2 rfl⟩
    | stop =>
      simp only [downloadAndAck, reduceCtorEq] at hw
  | fetching m =>
    refine ⟨trivial, fun w' hw => ?_⟩
    obtain rfl := Option.some.inj hw
    exact workerOk_afterDownload h input.transfer hok
  | acking m =>
    revert hlater
    simp only [downloadAndAck]
    refine fun hlater => ⟨trivial, fun w' hw => ?_⟩
    split_ifs at hw
    obtain rfl := Option.some.inj hw
    have hcopy := (hlater.copy m h.1).with_acked true
    exact ⟨hcopy, hcopy, fun h => by cases h⟩

end SendSelf.Receipts
