import SendSelf.Outbox.Flush

/-!
# What a pass leaves

A guarded run is a run on rows of its own: the pass changes them one at a time, and what is in
the store is these rows without the ones the user deleted. A message is tried under pins that
are in its row before anything is requested under them.
-/
namespace SendSelf.Flush
open Coroutine Flush.Prog Runs

/-- What the user does while the pass is suspended. -/
abbrev Moves : Phone → Phone → Prop := ReachableVia userStep Undisturbed

/-- The store shows these rows but for the deleted ones, and some of them cannot be deleted now. -/
structure Follows (rows : MessageId → Option LocalMessage) (log : List Event)
    (checked : Option MessageId) (counted : List MessageId) (s : Phone) : Prop where
  shows : ∀ id, s.messages.get? id = if id ∈ s.deleted then none else rows id
  logged : s.log = log
  checks : s.checked = checked
  counts : s.counted = counted
  kept : ∀ id, checked = some id ∨ id ∈ counted → id ∉ s.deleted

variable {rows : MessageId → Option LocalMessage} {log : List Event} {checked : Option MessageId}
  {counted : List MessageId} {s t : Phone} {id : MessageId}

theorem Follows.step {act : UserAct} (h : Follows rows log checked counted s)
    (hok : Undisturbed s act)
    (hstep : userStep s act = some t) : Follows rows log checked counted t := by
  cases act with
  | delete id =>
      obtain rfl := Option.some.inj hstep
      refine ⟨fun k => ?_, h.logged, h.checks, h.counts, fun k hk hmem => ?_⟩
      · change (s.messages.delete _).get? k = if k ∈ id :: s.deleted then none else rows k
        rw [Table.get?_delete, h.shows]
        by_cases hid : k = id
        · subst hid
          rw [if_pos (List.mem_cons_self ..), Option.filter_eq_none_iff]
          intro row hrow
          have hkey : row.id = k := (Table.get?_eq_some.mp ((h.shows k).trans hrow)).2
          simp [hkey]
        · have hmem : k ∈ id :: s.deleted ↔ k ∈ s.deleted := by simp [hid]
          rw [if_congr hmem rfl rfl, ← h.shows]
          cases hrow : s.messages.get? k with
          | none => rfl
          | some row =>
              have hkey : row.id = k := (Table.get?_eq_some.mp hrow).2
              simp [hkey, hid]
      · rcases List.mem_cons.mp hmem with rfl | hmem
        · rcases hk with hk | hk
          · exact hok.1 (h.checks.trans hk)
          · exact hok.2 (h.counts ▸ hk)
        · exact h.kept k hk hmem
  | abort =>
      obtain rfl := Option.some.inj hstep
      exact ⟨h.shows, h.logged, h.checks, h.counts, h.kept⟩
  | connect onLine =>
      obtain rfl := Option.some.inj hstep
      exact ⟨h.shows, h.logged, h.checks, h.counts, h.kept⟩
  | wait ms =>
      obtain rfl := Option.some.inj hstep
      exact ⟨h.shows, h.logged, h.checks, h.counts, h.kept⟩

theorem Follows.stable : Stable Moves (Follows rows log checked counted) :=
  .of_step fun _ _ _ h hok hstep => h.step hok hstep

theorem deleted_stable : Stable Moves fun s => id ∈ s.deleted := by
  refine .of_step fun s act t h _ hstep => ?_
  cases act with
  | delete k =>
      obtain rfl := Option.some.inj hstep
      exact List.mem_cons_of_mem k h
  | abort | connect | wait =>
      obtain rfl := Option.some.inj hstep
      exact h

/-- A message that is deleted stays so. -/
theorem gone_stable {gone : List MessageId} : Stable Moves fun s => ∀ k ∈ gone, k ∈ s.deleted :=
  fun s t h hmoves k hk => deleted_stable s t (h k hk) hmoves

namespace Follows

theorem get?_eq_some (h : Follows rows log checked counted s) {row : LocalMessage} :
    s.messages.get? id = some row ↔ rows id = some row ∧ id ∉ s.deleted := by
  rw [h.shows]
  split_ifs with hid <;> simp [hid]

/-- The row of a deleted message may be anything. -/
theorem of_deleted (h : Follows rows log checked counted s) (hid : id ∈ s.deleted)
    (row : Option LocalMessage) :
    Follows (Function.update rows id row) log checked counted s := by
  refine ⟨fun k => ?_, h.logged, h.checks, h.counts, h.kept⟩
  rw [h.shows]
  by_cases hk : k = id
  · rw [hk, if_pos hid, if_pos hid]
  · rw [Function.update_of_ne hk]

theorem put {message : LocalMessage} (h : Follows rows log (some message.id) [] s) :
    Follows (Function.update rows message.id (some message)) log none []
      { s with messages := s.messages.put message, checked := none } := by
  have hid : message.id ∉ s.deleted := h.kept _ (Or.inl rfl)
  refine ⟨fun k => ?_, h.logged, rfl, h.counts, by simp⟩
  change (s.messages.put message).get? k = _
  rw [Table.get?_put, h.shows]
  by_cases hk : k = message.id
  · rw [if_pos hk, hk, if_neg hid, Function.update_self]
  · rw [if_neg hk, Function.update_of_ne hk]

theorem note {work : Work} {failure : Option Failure} (h : Follows rows log checked counted s) :
    Follows rows (log ++ [⟨id, work, failure⟩]) checked counted (s.note id work failure) :=
  ⟨h.shows, congrArg (· ++ _) h.logged, h.checks, h.counts, h.kept⟩

end Follows

section Calls

variable {α : Type} {Q : Except Failure α → Phone → Prop}

/-- What is noted when a row is found. -/
def Reading.checks : Reading → MessageId → Option MessageId → Option MessageId
  | .check, id, _ => some id
  | _, _, checked => checked

def Reading.counts : Reading → LocalMessage → List MessageId → List MessageId
  | .count, row, counted => if row.isQueuedOutgoing then row.id :: counted else counted
  | _, _, counted => counted

theorem under_ask {op : Op} {Q : Except Failure op.Answer → Phone → Prop}
    (h : Follows rows log checked counted s) (hexec : ∀ chance s, (Phone.exec op chance s).1 = s)
    (hQ : ∀ a t, Follows rows log checked counted t → Q (.ok a) t) :
    device.under Moves (ask op).run Q s := by
  refine under_lift_run.mpr
    (under_mono (under_call (Q := fun _ => Follows rows log checked counted) h .stable
    (fun s chance h => ?_) fun _ => .stable) hQ)
  change Follows rows log checked counted (Phone.exec op chance s).1
  rw [hexec]
  exact h

/-- What a look at a row tells, as long as nothing but deletions comes in between. -/
def Looked (rows : MessageId → Option LocalMessage) (log : List Event) (checked : Option MessageId)
    (counted gone : List MessageId) (reading : Reading) (id : MessageId) :
    Option LocalMessage → Phone → Prop
  | some row, t => (rows id = some row ∧ row.id = id) ∧ (∀ k ∈ gone, k ∈ t.deleted) ∧
      Follows rows log (reading.checks id checked) (reading.counts row counted) t
  | none, t => (rows id = none ∨ id ∈ t.deleted) ∧ (∀ k ∈ gone, k ∈ t.deleted) ∧
      Follows rows log checked counted t

/-- What an answer to work on a message tells. -/
def Performed (rows : MessageId → Option LocalMessage) (log : List Event)
    (checked : Option MessageId) (counted : List MessageId) (id : MessageId) (work : Work) :
    Except Failure work.Result → Phone → Prop
  | .ok result, t => (∃ chance, result = work.result chance id) ∧
  Follows rows (log ++ [⟨id, work, none⟩]) checked counted t
  | .error error, t => (∃ chance, work.failure chance = some error) ∧
      Follows rows (log ++ [⟨id, work, some error⟩]) checked counted t

theorem under_getMessage {reading : Reading}
    {Q : Except Failure (Option LocalMessage) → Phone → Prop}
    (h : Follows rows log checked counted s)
    (hsome : ∀ row t, rows id = some row → row.id = id → (∀ k ∈ s.deleted, k ∈ t.deleted) →
      Follows rows log (reading.checks id checked) (reading.counts row counted) t →
      Q (.ok (some row)) t)
    (hnone : ∀ t, rows id = none ∨ id ∈ t.deleted → (∀ k ∈ s.deleted, k ∈ t.deleted) →
      Follows rows log checked counted t → Q (.ok none) t) :
    device.under Moves (getMessage id reading).run Q s := by
  have hbegin : (∀ k ∈ s.deleted, k ∈ s.deleted) ∧ Follows rows log checked counted s :=
    ⟨fun _ hk => hk, h⟩
  refine under_lift_run.mpr
    (under_mono (under_call (Q := Looked rows log checked counted s.deleted reading id)
    hbegin (gone_stable.and .stable)
    (fun s' chance hs' => ?_) fun a => ?_) fun a t ha => ?_)
  · obtain ⟨hgone, h⟩ := hs'
    change Looked rows log checked counted s.deleted reading id (s'.messages.get? id)
      (s'.noteReading id reading)
    cases hget : s'.messages.get? id with
    | none =>
        have hnote : s'.noteReading id reading = s' := by
          unfold Phone.noteReading
          rw [hget]
          cases reading <;> rfl
        rw [hnote]
        refine ⟨?_, hgone, h⟩
        by_cases hid : id ∈ s'.deleted
        · exact Or.inr hid
        · exact Or.inl (by rw [← hget, h.shows, if_neg hid])
    | some row =>
        obtain ⟨hrow, hid⟩ := h.get?_eq_some.mp hget
        have hkey : row.id = id := (Table.get?_eq_some.mp hget).2
        unfold Phone.noteReading
        rw [hget]
        cases reading with
        | list | look => exact ⟨⟨hrow, hkey⟩, hgone, h⟩
        | check =>
            refine ⟨⟨hrow, hkey⟩, hgone, h.shows, h.logged, rfl, h.counts, fun k hk => ?_⟩
            rcases hk with hk | hk
            · exact Option.some.inj hk ▸ hid
            · exact h.kept k (Or.inr hk)
        | count =>
            refine ⟨⟨hrow, hkey⟩, hgone, h.shows, h.logged, h.checks, ?_, fun k hk => ?_⟩
            · change (if row.isQueuedOutgoing then id :: s'.counted else s'.counted) = _
              rw [h.counts, ← hkey]
              rfl
            · rcases hk with hk | hk
              · exact h.kept k (Or.inl hk)
              · by_cases howed : row.isQueuedOutgoing = true
                · simp only [Reading.counts, howed, if_true, hkey] at hk
                  rcases List.mem_cons.mp hk with rfl | hk
                  · exact hid
                  · exact h.kept k (Or.inr hk)
                · simp only [Reading.counts, howed, if_false, Bool.false_eq_true] at hk
                  exact h.kept k (Or.inr hk)
  · cases a with
    | none =>
        refine Stable.and (fun s t hgone hmoves => ?_) (gone_stable.and .stable)
        exact hgone.imp_right fun hid => deleted_stable s t hid hmoves
    | some row => exact Stable.and (fun _ _ h _ => h) (gone_stable.and .stable)
  · cases a with
    | none => exact hnone t ha.1 ha.2.1 ha.2.2
    | some row => exact hsome row t ha.1.1 ha.1.2 ha.2.1 ha.2.2

theorem under_perform {work : Work} {Q : Except Failure work.Result → Phone → Prop}
    (h : Follows rows log checked counted s)
    (hok : ∀ chance t, Follows rows (log ++ [⟨id, work, none⟩]) checked counted t →
      Q (.ok (work.result chance id)) t)
    (herror : ∀ error t, (∃ chance, work.failure chance = some error) →
      Follows rows (log ++ [⟨id, work, some error⟩]) checked counted t → Q (.error error) t) :
    device.under Moves (perform id work).run Q s := by
  refine under_mono
    (under_call (Q := Performed rows log checked counted id work) h .stable (fun s chance h => ?_)
    fun a => ?_) fun a t ha => ?_
  · dsimp only [device, Phone.exec]
    cases hfailure : work.failure chance with
    | none => exact ⟨⟨chance, rfl⟩, h.note⟩
    | some error => exact ⟨⟨chance, hfailure⟩, h.note⟩
  · cases a with
    | ok result => exact Stable.and (fun _ _ h _ => h) .stable
    | error error => exact Stable.and (fun _ _ h _ => h) .stable
  · cases a with
    | ok result =>
        obtain ⟨⟨chance, rfl⟩, ht⟩ := ha
        exact hok chance t ht
    | error error => exact herror error t ha.1 ha.2

theorem under_raise {error : Failure} (h : Follows rows log checked counted s)
    (hQ : ∀ t, Follows rows (log ++ [⟨id, .own, some error⟩]) checked counted t →
      Q (.error error) t) :
    device.under Moves (raise id error).run Q s :=
  under_bind_run.mpr (under_lift_run.mpr (hQ _ h.note))

theorem under_throwIfAborted {Q : Except Failure Unit → Phone → Prop}
    (h : Follows rows log checked counted s) (hok : Q (.ok ()) s)
    (herror : ∀ t, Follows rows (log ++ [⟨id, .own, some .abort⟩]) checked counted t →
      Q (.error .abort) t) :
    device.under Moves (throwIfAborted id).run Q s := by
  refine under_bind_run.mpr (under_lift_run.mpr ?_)
  change device.under Moves (if s.aborted then raise id .abort else pure ()).run Q s
  split_ifs
  · exact under_raise h herror
  · exact hok

theorem under_putMessage {m : LocalMessage} {Q : Except Failure Unit → Phone → Prop}
    (h : Follows rows log (some m.id) [] s)
    (hQ : ∀ t, Follows (Function.update rows m.id (some m)) log none [] t → Q (.ok ()) t) :
    device.under Moves (putMessage m).run Q s :=
  under_lift_run.mpr
    (under_mono (under_call (Q := fun _ => Follows (Function.update rows m.id (some m)) log none [])
    h .stable (fun _ _ h => h.put) fun _ => .stable) fun _ t => hQ t)

/-- A row that is found is written. One that is not was deleted: whatever was to be written does not
show, so the rows may be taken to have `row`. -/
theorem under_update {m row : LocalMessage} {Q : Except Failure Unit → Phone → Prop}
    (h : Follows rows log none [] s) (hrow : (rows m.id).isSome) (hm : m = row ∨ m.id ∈ s.deleted)
    (hQ : ∀ t, Follows (Function.update rows m.id (some row)) log none [] t → Q (.ok ()) t) :
    device.under Moves (update m).run Q s := by
  refine under_bind_run.mpr
    (under_getMessage h (fun found t _ _ hgone ht => ?_) fun t hnone _ ht => ?_)
  · have hkept : m.id ∉ t.deleted := ht.kept _ (Or.inl rfl)
    obtain rfl : m = row := hm.resolve_right fun hid => hkept (hgone _ hid)
    exact under_putMessage ht hQ
  · have hid : m.id ∈ t.deleted := hnone.resolve_left fun hnone => by simp [hnone] at hrow
    exact hQ t (ht.of_deleted hid _)

end Calls

/-- The pass tries `m`: what it has done for it did not fail, and used the pins of its row. -/
structure Attempted (m cur : LocalMessage) (h : List Event) : Prop where
  content : cur.unpinned = m.unpinned
  owed : cur.isQueuedOutgoing = true
  pins : m.PinsKept cur
  clean : ∀ e ∈ h, e.id = m.id ∧ e.failure = none ∧ e.Uses cur

/-- It failed, and not because the server had the message already. -/
structure Missed (rows : MessageId → Option LocalMessage) (log : List Event) (m cur : LocalMessage)
    (h : List Event) (work : Work) (error : Failure) (s : Phone) : Prop where
  follows :
    Follows (Function.update rows m.id (some cur))
      (log ++ (h ++ [⟨m.id, work, some error⟩])) none [] s
  attempted : Attempted m cur h
  uses : (Event.mk m.id work (some error)).Uses cur
  unsent : ¬ ((∃ body auth, work = .sendMessage body auth) ∧ error = .api .conflict)

/-- The server took it, or had it already. -/
structure Delivered (rows : MessageId → Option LocalMessage) (log : List Event)
    (m row : LocalMessage) (h : List Event) (s : Phone) : Prop where
  follows : Follows (Function.update rows m.id (some row)) (log ++ h) none [] s
  content : row.unpinned = m.unpinned
  sent : row.status = .sent
  ids : ∀ e ∈ h, e.id = m.id
  answered : Answered h m.id

theorem Attempted.start {m : LocalMessage} (h : m.isQueuedOutgoing = true) : Attempted m m [] :=
  ⟨rfl, h, ⟨fun _ => id, fun _ => id⟩, by simp⟩

theorem id_of_unpinned {m row : LocalMessage} (h : row.unpinned = m.unpinned) : row.id = m.id := by
  have hid := congrArg LocalMessage.id h
  exact hid

section Message

variable {m cur : LocalMessage} {h : List Event} {context : FlushContext} {α : Type}

/-- A call on behalf of the message, other than sending it. -/
theorem under_work {work : Work} {Q : Except Failure work.Result → Phone → Prop} (hid : id = m.id)
    (hs : Follows (Function.update rows m.id (some cur)) (log ++ h) none [] s)
    (ha : Attempted m cur h) (hwork : ∀ body auth, work ≠ .sendMessage body auth)
    (huses : ∀ failure, (Event.mk m.id work failure).Uses cur)
    (hok : ∀ chance h t, Follows (Function.update rows m.id (some cur)) (log ++ h) none [] t →
      Attempted m cur h → Q (.ok (work.result chance m.id)) t)
    (herror : ∀ error t, (∃ chance, work.failure chance = some error) →
      (∃ h, Missed rows log m cur h work error t) →
      Q (.error error) t) :
    device.under Moves (perform id work).run Q s := by
  subst hid
  refine under_perform hs (fun chance t ht => ?_) fun error t hfailure ht => ?_
  · refine hok chance (h ++ [⟨m.id, work, none⟩]) t (List.append_assoc .. ▸ ht) ⟨ha.content,
      ha.owed, ha.pins, ?_⟩
    intro e he
    rcases List.mem_append.mp he with he | he
    · exact ha.clean e he
    · obtain rfl := List.mem_singleton.mp he
      exact ⟨rfl, rfl, huses _⟩
  · refine herror error t hfailure ⟨h, List.append_assoc .. ▸ ht, ha, huses _, ?_⟩
    rintro ⟨⟨body, auth, hsend⟩, _⟩
    exact hwork body auth hsend

theorem under_fail {error : Failure} {Q : Except Failure α → Phone → Prop}
    (hs : Follows (Function.update rows m.id (some cur)) (log ++ h) none [] s)
    (ha : Attempted m cur h)
    (herror : ∀ t, Missed rows log m cur h .own error t → Q (.error error) t) :
    device.under Moves (raise m.id error).run Q s := by
  refine under_raise hs fun t ht => herror t ⟨List.append_assoc .. ▸ ht, ha, trivial, ?_⟩
  rintro ⟨⟨body, auth, hsend⟩, _⟩
  cases hsend

theorem under_abort {Q : Except Failure Unit → Phone → Prop}
    (hs : Follows (Function.update rows m.id (some cur)) (log ++ h) none [] s)
    (ha : Attempted m cur h) (hok : Q (.ok ()) s)
    (herror : ∀ t, Missed rows log m cur h .own .abort t → Q (.error .abort) t) :
    device.under Moves (throwIfAborted m.id).run Q s := by
  refine under_throwIfAborted hs hok fun t ht =>
    herror t ⟨List.append_assoc .. ▸ ht, ha, trivial, ?_⟩
  rintro ⟨⟨body, auth, hsend⟩, _⟩
  cases hsend

/-- The row of the message is written over. -/
theorem under_rewrite {row : LocalMessage} {Q : Except Failure Unit → Phone → Prop}
    (hid : row.id = m.id) (hs : Follows (Function.update rows m.id (some cur)) log none [] s)
    (hQ : ∀ t, Follows (Function.update rows m.id (some row)) log none [] t → Q (.ok ()) t) :
    device.under Moves (update row).run Q s := by
  refine under_update hs (by rw [hid, Function.update_self]; rfl) (Or.inl rfl) fun t ht => hQ t ?_
  rwa [hid, Function.update_idem] at ht

/-- The epoch is in the row before it is used. -/
theorem under_pinEpoch {Q : Except Failure (ℕ × GroupKey) → Phone → Prop}
    (hs : Follows (Function.update rows m.id (some m)) (log ++ []) none [] s)
    (howed : m.isQueuedOutgoing = true)
    (hring : ∀ epoch, m.keyEpoch = some epoch → (keyForEpoch context.keyring epoch).isSome)
    (hok : ∀ epoch key t cur, Follows (Function.update rows m.id (some cur)) (log ++ []) none [] t →
      Attempted m cur [] → cur = { m with keyEpoch := some epoch } → Q (.ok (epoch, key)) t)
    (herror : ∀ error t, (∃ cur h work, Missed rows log m cur h work error t) →
      Q (.error error) t) :
    device.under Moves (pinEpoch m context).run Q s := by
  unfold pinEpoch
  cases hepoch : m.keyEpoch with
  | some pinned =>
      obtain ⟨key, hkey⟩ := Option.isSome_iff_exists.mp (hring pinned hepoch)
      simp only [Option.bind_some, hkey, Option.map_some]
      refine hok pinned key s m hs (.start howed) ?_
      rw [← hepoch]
  | none =>
      have ha : Attempted m { m with keyEpoch := some context.keyring.current } [] :=
        ⟨rfl, howed, ⟨by simp [hepoch], fun _ => id⟩, by simp⟩
      refine under_bind_run.mpr (under_rewrite (m := m) rfl hs fun t ht => ?_)
      dsimp only
      cases currentKey context.keyring with
      | some key => exact hok _ key t _ ht ha rfl
      | none => exact under_fail ht ha fun t hmissed => herror _ t ⟨_, _, _, hmissed⟩

/-- The vector is in the row before anything is uploaded under it. -/
theorem under_uploadUnder {file : FileRef} {epoch : ℕ} {key : GroupKey} {iv : Iv} {blob : Plaintext}
    {Q : Except Failure (FileRef × Iv) → Phone → Prop}
    (hs : Follows (Function.update rows m.id (some { m with keyEpoch := some epoch }))
      (log ++ []) none [] s)
    (ha : Attempted m { m with keyEpoch := some epoch } []) (hfile : m.file = some file)
    (hiv : ∀ iv', file.iv = some iv' → iv = iv')
    (hok : ∀ cur h t, Follows (Function.update rows m.id (some cur)) (log ++ h) none [] t →
      Attempted m cur h → cur.keyEpoch = some epoch → cur.fileIv = some iv →
      Q (.ok ({ file with iv := some iv }, iv)) t)
    (herror : ∀ error t, (∃ cur h work,
      Missed rows log m cur h work error t) → Q (.error error) t) :
    device.under Moves (uploadUnder iv m file blob epoch key context).run Q s := by
  let cur : LocalMessage :=
    { m with
      file := some { file with iv := some iv }, keyEpoch := some epoch, status := .uploading }
  have hcur : Attempted m cur [] := by
    refine ⟨?_, ?_, ⟨ha.pins.keyEpoch, fun iv' h => ?_⟩, by simp⟩
    · simp [cur, LocalMessage.unpinned, repinFile, hfile]
    · have howed := ha.owed
      simp only [LocalMessage.isQueuedOutgoing, decide_eq_true_eq] at howed ⊢
      exact ⟨howed.1, Or.inr rfl⟩
    · simp only [LocalMessage.fileIv, hfile, Option.bind_some] at h
      exact congrArg some (hiv iv' h)
  refine under_bind_run.mpr (under_rewrite rfl hs fun t ht => ?_)
  refine under_bind_run.mpr (under_abort ht hcur ?_ fun t hmissed => herror _ t ⟨_, _, _, hmissed⟩)
  refine under_bind_run.mpr
    (under_work rfl ht hcur (by simp) (fun _ => trivial) (fun chance h t ht ha => ?_)
    fun error t _ hmissed => herror _ t ⟨_, hmissed.choose, _, hmissed.choose_spec⟩)
  refine under_bind_run.mpr (under_abort ht ha ?_ fun t hmissed => herror _ t ⟨_, _, _, hmissed⟩)
  refine under_bind_run.mpr
    (under_work rfl ht ha (by simp) (fun _ => rfl) (fun chance h t ht ha => ?_)
    fun error t _ hmissed => herror _ t ⟨_, hmissed.choose, _, hmissed.choose_spec⟩)
  refine under_bind_run.mpr (under_abort ht ha ?_ fun t hmissed => herror _ t ⟨_, _, _, hmissed⟩)
  exact hok cur h t ht ha rfl rfl

theorem under_uploadFile {file : FileRef} {epoch : ℕ} {key : GroupKey}
    {Q : Except Failure (FileRef × Iv) → Phone → Prop}
    (hs : Follows (Function.update rows m.id (some { m with keyEpoch := some epoch }))
      (log ++ []) none [] s)
    (ha : Attempted m { m with keyEpoch := some epoch } []) (hfile : m.file = some file)
    (hok : ∀ iv cur h t, Follows (Function.update rows m.id (some cur)) (log ++ h) none [] t →
      Attempted m cur h → cur.keyEpoch = some epoch → cur.fileIv = some iv →
      Q (.ok ({ file with iv := some iv }, iv)) t)
    (herror : ∀ error t, (∃ cur h work, Missed rows log m cur h work error t) →
      Q (.error error) t) :
    device.under Moves (uploadFile m file epoch key context).run Q s := by
  refine under_bind_run.mpr (under_ask hs (fun _ _ => rfl) fun blob t ht => ?_)
  dsimp only
  cases blob with
  | none => exact under_fail ht ha fun t hmissed => herror _ t ⟨_, _, _, hmissed⟩
  | some blob =>
      cases hiv : file.iv with
      | some iv =>
        exact under_uploadUnder ht ha hfile (fun iv' h => Option.some.inj (hiv.symm.trans h))
          (hok iv) herror
      | none =>
          refine under_bind_run.mpr (under_ask ht (fun _ _ => rfl) fun iv t ht => ?_)
          exact under_uploadUnder ht ha hfile (fun iv' h => by simp [hiv] at h) (hok iv) herror

/-- A request that is signed where it can be. -/
theorem under_signed {body : SendMessageRequest}
    {Q : Except Failure SendMessageRequest → Phone → Prop} (hid : body.id = m.id)
    (hs : Follows (Function.update rows m.id (some cur)) (log ++ h) none [] s)
    (ha : Attempted m cur h)
    (hok : ∀ signature h t, Follows (Function.update rows m.id (some cur)) (log ++ h) none [] t →
      Attempted m cur h → Q (.ok { body with signature := signature }) t)
    (herror : ∀ error t, isAlreadySent error = false →
      (∃ h work, Missed rows log m cur h work error t) →
      Q (.error error) t) :
    device.under Moves (signed context body).run Q s := by
  unfold signed
  split_ifs
  · refine under_bind_run.mpr (under_work hid hs ha (by simp) (fun _ => trivial)
      (fun chance h t ht ha => hok _ h t ht ha) fun error t hfailure hmissed => ?_)
    refine herror error t ?_ ⟨hmissed.choose, _, hmissed.choose_spec⟩
    obtain ⟨chance, hfailure⟩ := hfailure
    have hthrown : error.isThrown = true := (Option.filter_eq_some_iff.mp hfailure).2
    cases error with
    | thrown message => rfl
    | api | network | abort => cases hthrown
  · exact hok body.signature h s hs ha

/-- Sent, whether the server took the message now or has it already. -/
theorem under_deliver {body : SendMessageRequest} {Q : Except Failure Unit → Phone → Prop}
    (hid : body.id = m.id)
    (hs : Follows (Function.update rows m.id (some cur)) (log ++ h) none [] s)
    (ha : Attempted m cur h) (hepoch : cur.keyEpoch = some body.keyEpoch)
    (hiv : ∀ iv, body.fileIv = some iv → cur.fileIv = some iv)
    (hok : ∀ h t, Follows (Function.update rows m.id (some cur)) (log ++ h) none [] t →
      (∀ e ∈ h, e.id = m.id) → Answered h m.id → Q (.ok ()) t)
    (herror : ∀ error t, (∃ cur h work, Missed rows log m cur h work error t) →
      Q (.error error) t) :
    device.under Moves (deliver context body).run Q s := by
  refine under_tryCatch_run.mpr
    (under_bind_run.mpr (under_signed hid hs ha (fun signature h t ht ha => ?_)
    fun error t hsent hmissed => ?_))
  · have hanswer : ∀ (failure : Option Failure) t, failure = none ∨
        failure = some (.api .conflict) →
        Follows (Function.update rows m.id (some cur)) ((log ++ h) ++ [⟨body.id,
          .sendMessage { body with signature } context.session.deviceAuthToken,
          failure⟩]) none [] t → Q (.ok ()) t := by
      intro failure t hfailure ht
      refine hok (h ++ [⟨body.id, _, failure⟩]) t (List.append_assoc .. ▸ ht) (fun e he => ?_)
        ⟨_, List.mem_append_right h (List.mem_singleton_self _), hid, ⟨_, _, rfl⟩, hfailure⟩
      rcases List.mem_append.mp he with he | he
      · exact (ha.clean e he).1
      · obtain rfl := List.mem_singleton.mp he
        exact hid
    refine under_perform ht (fun chance t ht => hanswer none t (Or.inl rfl) ht)
      fun error t _ ht => ?_
    dsimp only
    split_ifs with hsent
    · obtain rfl : error = .api .conflict := of_decide_eq_true hsent
      exact hanswer _ t (Or.inr rfl) ht
    · refine herror error t ⟨cur, h,
        .sendMessage { body with signature } context.session.deviceAuthToken, ?_, ha, ?_,
        fun hunsent => hsent (decide_eq_true hunsent.2)⟩
      · simpa only [hid, List.append_assoc] using ht
      · exact ⟨hepoch, hiv⟩
  · dsimp only
    rw [if_neg (by simp [hsent])]
    exact herror error t ⟨cur, hmissed⟩

/-- The last write of a message that was sent. -/
theorem under_sent {row : LocalMessage} {Q : Except Failure Unit → Phone → Prop}
    (hs : Follows (Function.update rows m.id (some cur)) (log ++ h) none [] s)
    (hids : ∀ e ∈ h, e.id = m.id)
    (hanswered : Answered h m.id) (hcontent : row.unpinned = m.unpinned)
    (hsent : row.status = .sent) (hok : ∀ t, Delivered rows log m row h t → Q (.ok ()) t) :
    device.under Moves (update row).run Q s :=
  under_rewrite (id_of_unpinned hcontent) hs fun t ht =>
    hok t ⟨ht, hcontent, hsent, hids, hanswered⟩

section Sending

variable (hs : Follows (Function.update rows m.id (some m)) (log ++ []) none [] s)
    (howed : m.isQueuedOutgoing = true)
  (hring : ∀ epoch, m.keyEpoch = some epoch → (keyForEpoch context.keyring epoch).isSome)

include hs howed hring

theorem under_sendQueuedDeletion {deletes : MessageId} {Q : Except Failure Unit → Phone → Prop}
    (hok : ∀ t, (∃ row h, Delivered rows log m row h t) → Q (.ok ()) t)
    (herror : ∀ error t, (∃ cur h work, Missed rows log m cur h work error t) →
      Q (.error error) t) :
    device.under Moves (sendQueuedDeletion m deletes context).run Q s := by
  refine under_bind_run.mpr (under_abort hs (.start howed) ?_ fun t hmissed =>
    herror _ t ⟨_, _, _, hmissed⟩)
  refine under_bind_run.mpr
    (under_pinEpoch hs howed hring (fun epoch key t cur ht ha hcur => ?_) herror)
  refine under_bind_run.mpr
    (under_deliver rfl ht ha (by rw [hcur]; rfl) (by simp [request]) (fun h t ht hids hans => ?_)
    herror)
  exact under_sent ht hids hans rfl rfl fun t hdone => hok t ⟨_, _, hdone⟩

omit hs howed hring in
/-- What was uploaded is the file of the message, under the vector of its row. -/
theorem under_uploadIfAny {epoch : ℕ} {key : GroupKey}
    {Q : Except Failure (Option (FileRef × Iv)) → Phone → Prop}
    (hs : Follows (Function.update rows m.id (some { m with keyEpoch := some epoch }))
      (log ++ []) none [] s)
    (ha : Attempted m { m with keyEpoch := some epoch } [])
    (hok : ∀ file cur h t, Follows (Function.update rows m.id (some cur)) (log ++ h) none [] t →
      Attempted m cur h → cur.keyEpoch = some epoch →
      (∀ iv, file.map Prod.snd = some iv → cur.fileIv = some iv) →
      ((file.map Prod.fst).or m.file).map (fun file => { file with iv := none }) = repinFile m →
      Q (.ok file) t)
    (herror : ∀ error t, (∃ cur h work, Missed rows log m cur h work error t) →
      Q (.error error) t) :
    device.under Moves (uploadIfAny m epoch key context).run Q s := by
  unfold uploadIfAny
  cases hfile : m.file with
  | none => exact hok none _ [] s hs ha rfl (by simp) (by simp [repinFile, hfile])
  | some file =>
      refine under_bind_run.mpr
        (under_uploadFile hs ha hfile (fun iv cur h t ht ha hepoch hiv => ?_) herror)
      refine hok _ cur h t ht ha hepoch (fun iv' h => ?_) (by simp [repinFile, hfile])
      obtain rfl : iv = iv' := Option.some.inj h
      exact hiv

omit hs howed hring in
theorem under_encryptIfAny {key : GroupKey} {content : Option Content}
    {Q : Except Failure (Option (Opaque × Opaque)) → Phone → Prop}
    (hs : Follows (Function.update rows m.id (some cur)) (log ++ h) none [] s)
    (ha : Attempted m cur h)
    (hok : ∀ sealed h t, Follows (Function.update rows m.id (some cur)) (log ++ h) none [] t →
      Attempted m cur h → Q (.ok sealed) t)
    (herror : ∀ error t, (∃ cur h work, Missed rows log m cur h work error t) →
      Q (.error error) t) :
    device.under Moves (encryptIfAny m key content).run Q s := by
  cases content with
  | none => exact hok none h s hs ha
  | some content =>
      exact under_bind_run.mpr
        (under_work rfl hs ha (by simp) (fun _ => trivial) (fun chance h t ht ha => hok _ h t ht ha)
        fun error t _ hmissed => herror _ t ⟨_, hmissed.choose, _, hmissed.choose_spec⟩)

theorem under_sendQueuedContent {Q : Except Failure Unit → Phone → Prop}
    (hok : ∀ t, (∃ row h, Delivered rows log m row h t) → Q (.ok ()) t)
    (herror : ∀ error t, (∃ cur h work, Missed rows log m cur h work error t) →
      Q (.error error) t) :
    device.under Moves (sendQueuedContent m context).run Q s := by
  refine under_bind_run.mpr (under_abort hs (.start howed) ?_ fun t hmissed =>
    herror _ t ⟨_, _, _, hmissed⟩)
  refine under_bind_run.mpr
    (under_pinEpoch hs howed hring (fun epoch key t cur ht ha hcur => ?_) herror)
  subst hcur
  refine under_bind_run.mpr
    (under_uploadIfAny ht ha (fun file cur h t ht ha hepoch hiv hfile => ?_) herror)
  refine under_bind_run.mpr (under_encryptIfAny ht ha (fun text h t ht ha => ?_) herror)
  refine under_bind_run.mpr (under_abort ht ha ?_ fun t hmissed => herror _ t ⟨_, _, _, hmissed⟩)
  refine under_bind_run.mpr (under_encryptIfAny ht ha (fun fileMeta h t ht ha => ?_) herror)
  refine under_bind_run.mpr (under_abort ht ha ?_ fun t hmissed => herror _ t ⟨_, _, _, hmissed⟩)
  refine under_bind_run.mpr (under_deliver rfl ht ha hepoch hiv (fun h t ht hids hans => ?_) herror)
  refine under_sent ht hids hans ?_ rfl fun t hdone => hok t ⟨_, _, hdone⟩
  simp only [LocalMessage.unpinned]
  rw [repinFile, hfile]

theorem under_sendQueued {Q : Except Failure Bool → Phone → Prop}
    (hok : ∀ t, (∃ row h, Delivered rows log m row h t) → Q (.ok true) t)
    (hnothing : Q (.ok false) s)
    (herror : ∀ error t, (∃ cur h work, Missed rows log m cur h work error t) →
      Q (.error error) t) :
    device.under Moves (sendQueued m context).run Q s := by
  unfold sendQueued
  cases m.deletes with
  | some deletes => exact under_bind_run.mpr (under_sendQueuedDeletion hs howed hring hok herror)
  | none =>
      dsimp only
      split_ifs
      · exact under_bind_run.mpr (under_sendQueuedContent hs howed hring hok herror)
      · exact hnothing

end Sending

/-- The message has been tried, and its row has become what it may. -/
structure Settled (rows : MessageId → Option LocalMessage) (log : List Event) (m row : LocalMessage)
    (h : List Event) (s : Phone) : Prop where
  follows : Follows (Function.update rows m.id (some row)) (log ++ h) none [] s
  ids : ∀ e ∈ h, e.id = m.id
  becomes : Becomes h m row

theorem not_owed_of_sent (h : m.status = .sent) : ¬ m.isQueuedOutgoing = true := by
  simp [LocalMessage.isQueuedOutgoing, h]

theorem Delivered.settled {row : LocalMessage} (hd : Delivered rows log m row h s)
    (howed : m.isQueuedOutgoing = true) :
    Settled rows log m row h s where
  follows := hd.follows
  ids := hd.ids
  becomes :=
    { content := hd.content
      untouched := fun hnot => by simp [howed] at hnot
      sent := fun _ _ => hd.answered
      failed := fun _ hfailed => by simp [hd.sent] at hfailed
      owed := fun _ hsent => absurd hd.sent hsent
      cleared := fun _ hqueued => absurd hqueued (not_owed_of_sent hd.sent)
      pinned := fun _ hqueued => absurd hqueued (not_owed_of_sent hd.sent) }

/-- Only the failure itself can be that the key rotated. -/
theorem Attempted.rotated_iff {work : Work} {error : Failure} (ha : Attempted m cur h) :
    Rotated (h ++ [⟨m.id, work, some error⟩]) m.id ↔ isKeyRotated error = true := by
  rw [isKeyRotated, decide_eq_true_eq]
  constructor
  · rintro ⟨e, he, _, hfailure⟩
    rcases List.mem_append.mp he with he | he
    · simp [(ha.clean e he).2.1] at hfailure
    · obtain rfl := List.mem_singleton.mp he
      exact Option.some.inj hfailure
  · rintro rfl
    exact ⟨_, List.mem_append_right h (List.mem_singleton_self _), rfl, rfl⟩

/-- The row is written over with what `f` makes of it, if it is still there. -/
theorem under_rewriteWith {f : LocalMessage → LocalMessage} {current : LocalMessage}
    {Q : Except Failure Unit → Phone → Prop} (hf : ∀ row, (f row).id = row.id)
    (hid : current.id = m.id) (hs : Follows (Function.update rows m.id (some cur)) log none [] s)
    (hcurrent : current = cur ∨ m.id ∈ s.deleted)
    (hQ : ∀ t, Follows (Function.update rows m.id (some (f cur))) log none [] t → Q (.ok ()) t) :
    device.under Moves (update (f current)).run Q s := by
  have hrow : (f current).id = m.id := (hf current).trans hid
  have hsame : f current = f cur ∨ (f current).id ∈ s.deleted := by
    rcases hcurrent with rfl | hgone
    · exact Or.inl rfl
    · exact Or.inr (hrow ▸ hgone)
  refine under_update hs (by rw [hrow, Function.update_self]; rfl) hsame fun t ht => hQ t ?_
  rwa [hrow, Function.update_idem] at ht

/-- Waiting for the next pass, with the pins it has been tried under. -/
theorem Missed.requeued {work : Work} {error : Failure} {retry : Option RetrySchedule}
    (hmissed : Missed rows log m cur h work error s) (howed : m.isQueuedOutgoing = true)
    (hrotated : isKeyRotated error = false) :
    Becomes (h ++ [⟨m.id, work, some error⟩]) m { cur with status := .queued, retry := retry } where
  content := hmissed.attempted.content
  untouched hnot := by simp [howed] at hnot
  sent _ hsent := by cases hsent
  failed _ hfailed := by cases hfailed
  owed _ _ _ := by
    have hqueued := hmissed.attempted.owed
    simp only [LocalMessage.isQueuedOutgoing, decide_eq_true_eq] at hqueued ⊢
    exact ⟨hqueued.1, Or.inl trivial⟩
  cleared _ _ h := by simp [hmissed.attempted.rotated_iff, hrotated] at h
  pinned _ _ _ := by
    refine ⟨⟨hmissed.attempted.pins.keyEpoch, hmissed.attempted.pins.fileIv⟩, fun e he _ => ?_⟩
    rcases List.mem_append.mp he with he | he
    · exact (hmissed.attempted.clean e he).2.2
    · obtain rfl := List.mem_singleton.mp he
      exact hmissed.uses

/-- Waiting for the next pass, which has to seal it anew. -/
theorem Missed.cleared {work : Work} {error : Failure}
    (hmissed : Missed rows log m cur h work error s)
    (howed : m.isQueuedOutgoing = true) (hrotated : isKeyRotated error = true) :
    Becomes (h ++ [⟨m.id, work, some error⟩]) m
      { cur with keyEpoch := none, file := repinFile cur, status := .queued } where
  content := by
    have hcontent := hmissed.attempted.content
    simp only [LocalMessage.unpinned, repinFile, Option.map_map, Function.comp_def] at hcontent ⊢
    exact hcontent
  untouched hnot := by simp [howed] at hnot
  sent _ hsent := by cases hsent
  failed _ hfailed := by cases hfailed
  owed _ _ _ := by
    have hqueued := hmissed.attempted.owed
    simp only [LocalMessage.isQueuedOutgoing, decide_eq_true_eq] at hqueued ⊢
    exact ⟨hqueued.1, Or.inl trivial⟩
  cleared _ _ _ := ⟨rfl, by simp [LocalMessage.fileIv, repinFile, Option.bind_map]⟩
  pinned _ _ h := by simp [hmissed.attempted.rotated_iff, hrotated] at h

/-- Shown as failed. -/
theorem Missed.refused {work : Work} {error : Failure}
    (hmissed : Missed rows log m cur h work error s)
    (howed : m.isQueuedOutgoing = true) (hrotated : isKeyRotated error = false)
    (hretriable : isRetriable error = false) :
    Becomes (h ++ [⟨m.id, work, some error⟩]) m { cur with status := .failed } where
  content := hmissed.attempted.content
  untouched hnot := by simp [howed] at hnot
  sent _ hsent := by cases hsent
  failed _ _ := by
    refine ⟨_, List.mem_append_right h (List.mem_singleton_self _), rfl,
      ⟨error, rfl, hretriable, hrotated⟩, ?_⟩
    exact fun hsent => hmissed.unsent ⟨hsent.1, Option.some.inj hsent.2⟩
  owed _ _ hfailed := absurd rfl hfailed
  cleared _ hqueued := by simp [LocalMessage.isQueuedOutgoing] at hqueued
  pinned _ hqueued := by simp [LocalMessage.isQueuedOutgoing] at hqueued

/-- The events of a message that failed. -/
theorem Missed.ids {work : Work} {error : Failure}
    (hmissed : Missed rows log m cur h work error s) :
    ∀ e ∈ h ++ [⟨m.id, work, some error⟩], e.id = m.id := by
  intro e he
  rcases List.mem_append.mp he with he | he
  · exact (hmissed.attempted.clean e he).1
  · obtain rfl := List.mem_singleton.mp he
    rfl

theorem under_putBack {work : Work} {error : Failure} {result : FlushResult}
    {current : LocalMessage} {s₀ : Phone}
    {Q : Except Failure FlushResult → Phone → Prop} (howed : m.isQueuedOutgoing = true)
    (hmissed : Missed rows log m cur h work error s) (hid : current.id = m.id)
    (hcurrent : current = cur ∨ m.id ∈ s.deleted)
    (hok : ∀ result t, (∃ row h, Settled rows log m row h t) → Q (.ok result) t) :
    device.under Moves (putBack current s₀ error result).run Q s := by
  unfold putBack
  split_ifs with hrotated hretriable
  · refine under_bind_run.mpr (under_rewriteWith
      (f := fun row => { row with keyEpoch := none, file := repinFile row, status := .queued })
      (fun _ => rfl) hid hmissed.follows hcurrent fun t ht => ?_)
    exact hok _ t ⟨_, _, ht, hmissed.ids, hmissed.cleared howed hrotated⟩
  · refine under_bind_run.mpr (under_rewriteWith
      (f := fun row => { row with status := .queued, retry := nextRetry row.retry s₀ })
      (fun _ => rfl) hid hmissed.follows hcurrent fun t ht => ?_)
    exact hok _ t ⟨_, _, ht, hmissed.ids, hmissed.requeued howed (Bool.not_eq_true _ ▸ hrotated)⟩
  · push Not at hretriable
    refine under_bind_run.mpr (under_rewriteWith (f := fun row => { row with status := .failed })
      (fun _ => rfl) hid hmissed.follows hcurrent fun t ht => ?_)
    exact hok _ t ⟨_, _, ht, hmissed.ids, hmissed.refused howed (Bool.not_eq_true _ ▸ hrotated)
      (Bool.not_eq_true _ ▸ hretriable.1)⟩

theorem under_recover {work : Work} {error : Failure} {result : FlushResult}
    {Q : Except Failure FlushResult → Phone → Prop} (howed : m.isQueuedOutgoing = true)
    (hmissed : Missed rows log m cur h work error s)
    (hok : ∀ result t, (∃ row h, Settled rows log m row h t) → Q (.ok result) t) :
    device.under Moves (recover m result error).run Q s := by
  have hlater : ∀ t,
      Follows (Function.update rows m.id (some cur))
        (log ++ (h ++ [⟨m.id, work, some error⟩])) none [] t →
      Missed rows log m cur h work error t :=
        fun t ht => ⟨ht, hmissed.attempted, hmissed.uses, hmissed.unsent⟩
  refine under_bind_run.mpr
    (under_getMessage hmissed.follows (fun row t hrow hid _ ht => ?_) fun t hgone _ ht => ?_)
  · obtain rfl : cur = row :=
      Option.some.inj ((Function.update_self m.id (some cur) rows).symm.trans hrow)
    exact under_bind_run.mpr
      (under_lift_run.mpr (under_putBack howed (hlater t ht) hid (Or.inl rfl) hok))
  · have hdeleted : m.id ∈ t.deleted := hgone.resolve_left (by simp)
    exact under_bind_run.mpr
      (under_lift_run.mpr (under_putBack howed (hlater t ht) rfl (Or.inr hdeleted) hok))

/-- One message, tried once. -/
theorem under_attempt {result : FlushResult} {Q : Except Failure FlushResult → Phone → Prop}
    (hs : Follows rows log none [] s) (hm : rows m.id = some m) (howed : m.isQueuedOutgoing = true)
    (hring : ∀ epoch, m.keyEpoch = some epoch → (keyForEpoch context.keyring epoch).isSome)
    (hok : ∀ result t, (∃ row h, Settled rows log m row h t) → Q (.ok result) t) :
    device.under Moves (attempt m context result).run Q s := by
  have hself : Follows (Function.update rows m.id (some m)) (log ++ []) none [] s := by
    rw [← hm, Function.update_eq_self, List.append_nil]
    exact hs
  refine under_tryCatch_run.mpr
    (under_bind_run.mpr (under_sendQueued hself howed hring (fun t hdone => ?_) ?_
    fun error t hmissed => ?_))
  · obtain ⟨row, h, hd⟩ := hdone
    exact hok _ t ⟨row, h, hd.settled howed⟩
  · refine hok _ s ⟨m, [], hself, by simp, ?_⟩
    exact ⟨rfl, fun _ => rfl, fun _ hsent => absurd howed (not_owed_of_sent hsent),
      fun _ hfailed => by
      simp [LocalMessage.isQueuedOutgoing, hfailed] at howed, fun _ _ _ => howed, fun _ _ h => by
        simp [Rotated] at h,
      fun _ _ _ => ⟨⟨fun _ => id, fun _ => id⟩, by simp⟩⟩
  · obtain ⟨cur, h, work, hmissed⟩ := hmissed
    exact under_recover howed hmissed hok

end Message

/-- What a row became is told by what was done for its message. -/
theorem Becomes.congr {log log' : List Event} {row row' : LocalMessage} (h : Becomes log row row')
    (hlog : ∀ e, e.id = row.id → (e ∈ log ↔ e ∈ log')) : Becomes log' row row' where
  content := h.content
  untouched := h.untouched
  sent howed hsent := by
    obtain ⟨e, he, hid, hans⟩ := h.sent howed hsent
    exact ⟨e, (hlog e hid).mp he, hid, hans⟩
  failed howed hfailed := by
    obtain ⟨e, he, hid, hrefused⟩ := h.failed howed hfailed
    exact ⟨e, (hlog e hid).mp he, hid, hrefused⟩
  owed := h.owed
  cleared howed howed' := by
    rintro ⟨e, he, hid, hrotated⟩
    exact h.cleared howed howed' ⟨e, (hlog e hid).mpr he, hid, hrotated⟩
  pinned howed howed' hnot := by
    obtain ⟨hpins, huses⟩ := h.pinned howed howed' fun hrotated => hnot (by
      obtain ⟨e, he, hid, hrotated⟩ := hrotated
      exact ⟨e, (hlog e hid).mp he, hid, hrotated⟩)
    exact ⟨hpins, fun e he hid => huses e ((hlog e hid).mpr he) hid⟩

theorem Becomes.refl {row : LocalMessage} (hlog : ∀ e ∈ log, e.id ≠ row.id) :
    Becomes log row row where
  content := rfl
  untouched _ := rfl
  sent howed hsent := absurd howed (not_owed_of_sent hsent)
  failed howed hfailed := by simp [LocalMessage.isQueuedOutgoing, hfailed] at howed
  owed howed _ _ := howed
  cleared _ _ := by
    rintro ⟨e, he, hid, _⟩
    exact absurd hid (hlog e he)
  pinned _ _ _ := ⟨⟨fun _ => id, fun _ => id⟩, fun e he hid => absurd hid (hlog e he)⟩

/-- How far the pass is: some messages have been tried, each once. -/
structure Passing (start : MessageId → Option LocalMessage) (tried : List MessageId)
    (rows : MessageId → Option LocalMessage) (log : List Event) : Prop where
  untried : ∀ id, id ∉ tried → rows id = start id
  becomes : ∀ id ∈ tried, ∃ row row', start id = some row ∧ rows id = some row' ∧ row.id = id ∧
    Becomes log row row'
  log : ∀ e ∈ log, e.id ∈ tried

variable {start : MessageId → Option LocalMessage} {tried : List MessageId}

theorem Passing.next {m row : LocalMessage} {h : List Event} (hp : Passing start tried rows log)
    (hm : start m.id = some m) (hnew : m.id ∉ tried) (hs : Settled rows log m row h s) :
    Passing start (m.id :: tried) (Function.update rows m.id (some row)) (log ++ h) where
  untried id hid := by
    obtain ⟨hne, hid⟩ := not_or.mp (mt List.mem_cons.mpr hid)
    rw [Function.update_of_ne hne]
    exact hp.untried id hid
  becomes id hid := by
    rcases List.mem_cons.mp hid with rfl | hid
    · refine ⟨m, row, hm, Function.update_self .., rfl, hs.becomes.congr fun e he => ?_⟩
      rw [List.mem_append]
      exact (or_iff_right fun hlog => hnew (he ▸ hp.log e hlog)).symm
    · obtain ⟨before, after, hbefore, hafter, hkey, hbecomes⟩ := hp.becomes id hid
      have hne : id ≠ m.id := fun heq => hnew (heq ▸ hid)
      refine ⟨before, after, hbefore, by
        rwa [Function.update_of_ne hne], hkey, hbecomes.congr fun e he => ?_⟩
      rw [List.mem_append]
      exact (or_iff_left fun hevent => hne (hkey.symm.trans (he.symm.trans (hs.ids e hevent)))).symm
  log e he := by
    rcases List.mem_append.mp he with he | he
    · exact List.mem_cons_of_mem _ (hp.log e he)
    · exact hs.ids e he ▸ List.mem_cons_self ..

theorem Passing.becomes_of {row : LocalMessage} (hp : Passing start tried rows log)
    (hstart : start id = some row)
    (hkey : row.id = id) : ∃ row', rows id = some row' ∧ Becomes log row row' := by
  by_cases hid : id ∈ tried
  · obtain ⟨before, after, hbefore, hafter, _, hbecomes⟩ := hp.becomes id hid
    obtain rfl : row = before := Option.some.inj (hstart.symm.trans hbefore)
    exact ⟨after, hafter, hbecomes⟩
  · refine ⟨row, (hp.untried id hid).trans hstart, .refl fun e he heq => hid ?_⟩
    exact (heq.trans hkey) ▸ hp.log e he

theorem under_passOver {now : ℕ} {context : FlushContext} {due : List LocalMessage}
    {result : FlushResult}
    {Q : Except Failure FlushResult → Phone → Prop} (hs : Follows rows log none [] s)
    (hp : Passing start tried rows log) (hnodup : (due.map LocalMessage.id).Nodup)
    (hnew : ∀ d ∈ due, d.id ∉ tried)
    (hring : ∀ id row, start id = some row → row.isQueuedOutgoing = true → ∀ epoch,
      row.keyEpoch = some epoch →
      (keyForEpoch context.keyring epoch).isSome)
    (hQ : ∀ result t tried rows log, Follows rows log none [] t → Passing start tried rows log →
      Q (.ok result) t) :
    device.under Moves (passOver now context due result).run Q s := by
  induction due generalizing tried rows log result s with
  | nil => exact hQ result s tried rows log hs hp
  | cons stale due ih =>
      obtain ⟨hfresh, hnodup⟩ := List.nodup_cons.mp hnodup
      have hlater : ∀ d ∈ due, d.id ∉ tried := fun d hd => hnew d (List.mem_cons_of_mem _ hd)
      refine under_bind_run.mpr (under_lift_run.mpr ?_)
      change device.under Moves (if s.aborted then pure result else _ : Prog FlushResult).run Q s
      split_ifs
      · exact hQ result s tried rows log hs hp
      refine under_bind_run.mpr (under_getMessage hs (fun m t hm hid _ ht => ?_) fun t _ _ ht =>
        ih ht hp hnodup hlater)
      dsimp only
      cases hdue : isDue m now with
      | false =>
          rw [Option.filter_some_neg (p := fun m => isDue m now) hdue]
          exact ih ht hp hnodup hlater
      | true =>
          rw [Option.filter_some_pos (p := fun m => isDue m now) hdue]
          have howed : m.isQueuedOutgoing = true := (Bool.and_eq_true_iff.mp hdue).1
          have htried : m.id ∉ tried := hid ▸ hnew stale (List.mem_cons_self ..)
          have hstart : start m.id = some m := by rw [← hp.untried m.id htried, hid, hm]
          refine under_bind_run.mpr
            (under_attempt ht (hid ▸ hm) howed (hring m.id m hstart howed) fun result t hdone => ?_)
          obtain ⟨row, h, hsettled⟩ := hdone
          refine ih hsettled.follows (hp.next hstart htried hsettled) hnodup fun d hd hmem => ?_
          rcases List.mem_cons.mp hmem with heq | hmem
          · exact hfresh (List.mem_map.mpr ⟨d, hd, heq.trans hid⟩)
          · exact hlater d hd hmem

theorem lists_listed (s : Phone) (chance : Chance) : s.Lists (s.listed chance) := by
  unfold Phone.listed
  split_ifs with h
  · exact h
  · refine ⟨s.messages.nodup.sublist (List.filter_sublist.map _), fun row hrow howed => ?_⟩
    exact List.mem_map.mpr ⟨row, Table.mem_select.mpr ⟨hrow, howed⟩, rfl⟩

/-- The index does not miss a message. -/
theorem under_listed {Q : Except Failure (List MessageId) → Phone → Prop}
    (h : Follows rows log none [] s) (hQ : ∀ ids t, ids.Nodup →
      (∀ id, id ∉ ids → ∀ row, rows id = some row → row.isQueuedOutgoing = true → id ∈ t.deleted) →
      Follows rows log none [] t → Q (.ok ids) t) : device.under Moves (ask Op.listed).run Q s := by
  let After : List MessageId → Phone → Prop := fun ids t => ids.Nodup ∧
    (∀ id, id ∉ ids → ∀ row, rows id = some row → row.isQueuedOutgoing = true → id ∈ t.deleted) ∧
    Follows rows log none [] t
  refine under_lift_run.mpr
    (under_mono (under_call (Q := After) h .stable (fun s chance h => ?_) fun ids => ?_)
    fun ids t ht => hQ ids t ht.1 ht.2.1 ht.2.2)
  · change After (s.listed chance) s
    obtain ⟨hnodup, hlists⟩ := lists_listed s chance
    refine ⟨hnodup, fun id hid row hrow howed => ?_, h⟩
    by_contra hkept
    have hget : s.messages.get? id = some row := h.get?_eq_some.mpr ⟨hrow, hkept⟩
    obtain ⟨hmem, hkey⟩ := Table.get?_eq_some.mp hget
    exact hid (hkey ▸ hlists row hmem howed)
  · refine Stable.and (fun _ _ h _ => h)
      (Stable.and (fun s t h hmoves id hid row hrow howed => ?_) .stable)
    exact deleted_stable s t (h id hid row hrow howed) hmoves

/-- The rows that reading these has counted. -/
def Reading.countAll (reading : Reading) (found : List LocalMessage) (counted : List MessageId) :
    List MessageId :=
  found.foldl (fun counted row => reading.counts row counted) counted

theorem countAll_list {found : List LocalMessage} :
    Reading.list.countAll found counted = counted := by
  induction found with
  | nil => rfl
  | cons row found ih => exact ih

theorem mem_countAll {found : List LocalMessage} : id ∈ Reading.count.countAll found counted ↔
    id ∈ counted ∨ ∃ row ∈ found, row.isQueuedOutgoing = true ∧ row.id = id := by
  induction found generalizing counted with
  | nil => simp [Reading.countAll]
  | cons row found ih =>
      have hstep : Reading.count.countAll (row :: found) counted =
        Reading.count.countAll found (Reading.count.counts row counted) := rfl
      rw [hstep, ih]
      by_cases howed : row.isQueuedOutgoing = true
      · simp only [Reading.counts, howed, if_true, List.mem_cons, exists_eq_or_imp, true_and]
        rw [or_assoc, or_left_comm, eq_comm]
      · simp [Reading.counts, howed]

theorem under_readRows {reading : Reading} {ids : List MessageId}
    {Q : Except Failure (List LocalMessage) → Phone → Prop}
    (hreading : ∀ id checked, reading.checks id checked = checked)
    (h : Follows rows log none counted s)
    (hQ : ∀ found t, Follows rows log none (reading.countAll found counted) t →
      (∀ k ∈ s.deleted, k ∈ t.deleted) →
      (found.map LocalMessage.id).Sublist ids → (∀ row ∈ found, rows row.id = some row) →
      (∀ id ∈ ids, id ∉ t.deleted → ∀ row, rows id = some row → row ∈ found) → Q (.ok found) t) :
    device.under Moves (readRows reading ids).run Q s := by
  induction ids generalizing counted s Q with
  | nil => exact hQ [] s h (fun _ hk => hk) (List.Sublist.refl _) (by simp) (by simp)
  | cons id ids ih =>
      refine under_bind_run.mpr
        (under_getMessage h (fun row t hrow hid hgone ht => ?_) fun t hnone hgone ht => ?_)
      · rw [hreading] at ht
        refine under_bind_run.mpr (ih ht fun found t' ht' hgone' hsub hfound hall => ?_)
        refine hQ (row :: found) t' ht' (fun k hk => hgone' k (hgone k hk)) (hid ▸ hsub.cons_cons _)
          (fun r hr => ?_)
          fun k hk hkept r hr => ?_
        · rcases List.mem_cons.mp hr with rfl | hr
          · rw [hid, hrow]
          · exact hfound r hr
        · rcases List.mem_cons.mp hk with rfl | hk
          · exact List.mem_cons.mpr (Or.inl (Option.some.inj (hr.symm.trans hrow)))
          · exact List.mem_cons_of_mem _ (hall k hk hkept r hr)
      · refine under_bind_run.mpr (ih ht fun found t' ht' hgone' hsub hfound hall => ?_)
        refine hQ found t' ht' (fun k hk => hgone' k (hgone k hk)) (hsub.cons _) hfound
          fun k hk hkept r hr => ?_
        rcases List.mem_cons.mp hk with rfl | hk
        · exact absurd (hgone' k (hnone.resolve_left (by simp [hr]))) hkept
        · exact hall k hk hkept r hr

/-- The first of the two calls: each message is listed once. -/
theorem under_list {Q : Except Failure (List LocalMessage) → Phone → Prop}
    (h : Follows rows log none [] s)
    (hQ : ∀ queued t, (queued.map LocalMessage.id).Nodup → Follows rows log none [] t →
      Q (.ok queued) t) :
    device.under Moves (queuedMessages .list).run Q s := by
  refine under_bind_run.mpr (under_listed h fun ids t hnodup _ ht => ?_)
  refine under_bind_run.mpr (under_readRows (fun _ _ => rfl) ht fun found t ht _ hsub _ _ => ?_)
  rw [countAll_list] at ht
  refine hQ _ t ?_ ht
  have hperm := (List.perm_insertionSort (fun a b : LocalMessage => a.createdAt ≤ b.createdAt)
    (found.filter LocalMessage.isQueuedOutgoing)).map LocalMessage.id
  exact hperm.nodup_iff.mpr ((hnodup.sublist hsub).sublist (List.filter_sublist.map _))

/-- The second: as many as are still owed when it is over. -/
theorem under_count {Q : Except Failure (List LocalMessage) → Phone → Prop}
    (h : Follows rows log none [] s) (hQ : ∀ queued counted t,
      queued.length = (t.messages.select LocalMessage.isQueuedOutgoing).length →
      Follows rows log none counted t → Q (.ok queued) t) :
    device.under Moves (queuedMessages .count).run Q s := by
  refine under_bind_run.mpr (under_listed h fun ids t hnodup hlisted ht => ?_)
  refine under_bind_run.mpr
    (under_readRows (fun _ _ => rfl) ht fun found t' ht' hgone hsub hfound hall => ?_)
  refine hQ _ _ t' ?_ ht'
  rw [List.length_insertionSort]
  have hperm : (found.filter LocalMessage.isQueuedOutgoing).Perm
      (t'.messages.select LocalMessage.isQueuedOutgoing) := by
    refine (List.perm_ext_iff_of_nodup ?_ ?_).mpr fun row => ?_
    · exact ((hnodup.sublist hsub).of_map _).filter _
    · exact (t'.messages.nodup.of_map _).filter _
    · rw [List.mem_filter, Table.mem_select]
      refine and_congr_left fun howed => ⟨fun hrow => ?_, fun hrow => ?_⟩
      · have hcounted : row.id ∈ Reading.count.countAll found [] :=
          mem_countAll.mpr (Or.inr ⟨row, hrow, howed, rfl⟩)
        exact Table.mem_of_get?
          (ht'.get?_eq_some.mpr ⟨hfound row hrow, ht'.kept _ (Or.inr hcounted)⟩)
      · obtain ⟨hshown, hkept⟩ := ht'.get?_eq_some.mp (Table.get?_of_mem hrow)
        refine hall row.id ?_ hkept row hshown
        by_contra hid
        exact hkept (hgone _ (hlisted _ hid row hshown howed))
  exact hperm.length_eq

section Pass

variable {messages : Table LocalMessage.id} {session : Session} {keyring : Keyring}
  {hasSigningKey aborted onLine : Bool} {clock : ℕ} {maxMessages : Option ℕ} {result : FlushResult}

theorem load_stable {session : Option Session} {keyring : Option Keyring} :
    Stable Moves fun s => s.session = session ∧ s.keyring = keyring := by
  refine .of_step fun s act t h _ hstep => ?_
  cases act with
  | delete | abort | connect | wait =>
      obtain rfl := Option.some.inj hstep
      exact h

theorem under_load {Q : Except Failure (Option Session × Option Keyring × Bool) → Phone → Prop}
    (h : Follows rows log none [] s) (hsession : s.session = some session)
    (hkeyring : s.keyring = some keyring) (hQ : ∀ hasSigningKey t, Follows rows log none [] t →
      Q (.ok (some session, some keyring, hasSigningKey)) t) :
    device.under Moves (ask Op.load).run Q s := by
  let After : Option Session × Option Keyring × Bool → Phone → Prop := fun a t =>
    (a.1 = some session ∧ a.2.1 = some keyring) ∧ Follows rows log none [] t
  refine under_lift_run.mpr
    (under_mono (under_call (Q := After) ⟨⟨hsession, hkeyring⟩, h⟩ (load_stable.and .stable)
    (fun s _ hs => ⟨hs.1, hs.2⟩) fun _ => Stable.and (fun _ _ h _ => h) .stable) ?_)
  rintro ⟨session', keyring', hasSigningKey⟩ t ⟨⟨hs, hk⟩, ht⟩
  obtain rfl : session' = some session := hs
  obtain rfl : keyring' = some keyring := hk
  exact hQ hasSigningKey t ht

/-- The rows of a pass that is over are what it is to leave. -/
theorem Passing.flushed (hp : Passing messages.get? tried rows log)
    (ht : Follows rows log checked counted t)
    (hremaining : result.remaining = (t.messages.select LocalMessage.isQueuedOutgoing).length) :
    Flushed (.start messages (some session) (some keyring) hasSigningKey aborted onLine clock)
      result t where
  deleted id hid := by rw [ht.shows, if_pos hid]
  known id hnone := by
    have hrow : rows id = none := by
      by_cases hid : id ∈ tried
      · obtain ⟨row, _, hstart, _⟩ := hp.becomes id hid
        exact absurd (hstart.symm.trans hnone) (Option.some_ne_none _)
      · exact (hp.untried id hid).trans hnone
    rw [ht.shows, hrow, ite_self]
  becomes id row hstart hid := by
    obtain ⟨row', hrow', hbecomes⟩ := hp.becomes_of hstart (Table.get?_eq_some.mp hstart).2
    exact ⟨row', by rw [ht.shows, if_neg hid, hrow'], ht.logged ▸ hbecomes⟩
  remaining := hremaining

theorem under_doFlush
    (hring : ∀ row ∈ messages, row.isQueuedOutgoing = true → ∀ epoch, row.keyEpoch = some epoch →
      (keyForEpoch keyring epoch).isSome) :
    device.under Moves (doFlush maxMessages).run
      (fun r t => ∃ result, r = .ok result ∧
        Flushed (.start messages (some session) (some keyring) hasSigningKey aborted onLine clock)
          result t)
      (.start messages (some session) (some keyring) hasSigningKey aborted onLine clock) := by
  have hstart : Follows messages.get? [] none []
      (.start messages (some session) (some keyring) hasSigningKey aborted onLine clock) :=
    ⟨fun id => (if_neg List.not_mem_nil).symm, rfl, rfl, rfl, by simp⟩
  have hp : Passing messages.get? [] messages.get? [] := ⟨fun _ _ => rfl, by simp, by simp⟩
  refine under_bind_run.mpr (under_load hstart rfl rfl fun signs s hs => ?_)
  refine under_bind_run.mpr
    (under_lift_run.mpr (under_bind_run.mpr (under_list hs fun queued t hnodup ht => ?_)))
  have hdue : ((maxMessages.map (queued.filter fun m => isDue m s.clock).take).getD
      (queued.filter fun m => isDue m s.clock)).Sublist queued := by
    cases maxMessages with
    | none => exact List.filter_sublist
    | some n => exact (List.take_sublist ..).trans List.filter_sublist
  refine under_bind_run.mpr
    (under_passOver ht hp (hnodup.sublist (hdue.map _)) (by simp) (fun id row hrow howed => ?_)
    fun result t tried rows log ht hp => ?_)
  · exact hring row (Table.mem_of_get? hrow) howed
  · refine under_bind_run.mpr (under_count ht fun rows counted t hlength ht => ?_)
    exact ⟨_, rfl, hp.flushed ht hlength⟩

/-- A pass comes to an end. If no deletion lands between a check and the write it is for, nor on a
row that was counted, it resurrects, loses and mislabels nothing, and counts what is left. -/
theorem doFlush_flushed
    (hring : ∀ row ∈ messages, row.isQueuedOutgoing = true → ∀ epoch, row.keyEpoch = some epoch →
      (keyForEpoch keyring epoch).isSome) :
    let s := Phone.start messages (some session) (some keyring) hasSigningKey aborted onLine clock
    (∃ r t, device.Ends Moves (doFlush maxMessages).run s r t) ∧
      ∀ r t, device.Ends Moves (doFlush maxMessages).run s r t → ∃ result, r = some (.ok result) ∧
      Flushed s result t := by
  have hnonempty : Nonempty Chance := ⟨⟨[], none, 0, (0, 0), 0, none⟩⟩
  refine ⟨Loop.Ends.exists (fun _ => .start) _ _, fun r t hends => ?_⟩
  obtain ⟨r', rfl, result, rfl, hflushed⟩ := hends.of_under (under_doFlush hring)
  exact ⟨result, rfl, hflushed⟩

end Pass

/-- A text that waits to be sent, with its epoch pinned. -/
def queuedText (id : MessageId) : LocalMessage where
  id := id
  direction := .outgoing
  text := some 7
  file := none
  createdAt := 0
  keyEpoch := some 1
  deletes := none
  batch := none
  viewOnce := false
  status := .queued
  retry := none

/-- A device with one message in its queue. -/
def oneQueued : Phone :=
  .start (Table.singleton (queuedText 1)) (some ⟨1, 1, 1⟩) (some ⟨1, [(1, 5)]⟩) false false true 0

theorem oneQueued_flushed :
    (∃ r t, device.Ends Moves (doFlush none).run oneQueued r t) ∧
      ∀ r t, device.Ends Moves (doFlush none).run oneQueued r t →
        ∃ result, r = some (.ok result) ∧ Flushed oneQueued result t :=
  doFlush_flushed (by decide)

/-- An operation that goes well, and what the user does before its answer is there. -/
def quiet (after : List UserAct) : Turn UserAct Chance :=
  ⟨[], ⟨[], none, 0, (0, 0), 0, none⟩, after⟩

/-- The user deletes the message after `update` has found its row: it is written back. -/
theorem doFlush_resurrects :
    ∃ result t,
    device.Ends (Reachable userStep) (doFlush none).run oneQueued (some (.ok result)) t ∧
    (1 ∈ t.deleted ∧ t.messages.get? 1 = some { queuedText 1 with status := .sent }) ∧
    ¬ Flushed oneQueued result t := by
  have hplay : (device.play userStep (doFlush none).run oneQueued
      (List.replicate 6 (quiet []) ++
        quiet [.delete 1] :: List.replicate 2 (quiet []))).any (fun x =>
        (x.1.bind Except.toOption).isSome &&
          decide (1 ∈ x.2.deleted ∧
            x.2.messages.get? 1 = some { queuedText 1 with status := .sent })) = true := by
    decide +kernel
  obtain ⟨⟨r, t⟩, hplay, hafter⟩ := (Option.any_eq_true _ _).mp hplay
  obtain ⟨hreturned, hafter⟩ := Bool.and_eq_true_iff.mp hafter
  obtain ⟨hdeleted, hrow⟩ := of_decide_eq_true hafter
  obtain ⟨result, hresult⟩ := Option.isSome_iff_exists.mp hreturned
  obtain rfl : r = some (.ok result) := by
    cases r with
    | none => cases hresult
    | some r =>
        cases r with
        | error error => cases hresult
        | ok result' =>
          exact congrArg (fun result => some (Except.ok result)) (Option.some.inj hresult)
  refine ⟨result, t, .of_play hplay, ⟨hdeleted, hrow⟩, fun hflushed => ?_⟩
  exact absurd (hrow.symm.trans (hflushed.deleted 1 hdeleted)) (Option.some_ne_none _)

end SendSelf.Flush
