import SendSelf.Queue.Index

/-!
# What a complete index gives

Nothing is assumed of the rows a device starts with: there is just no index yet. While a
context asks for what is queued the others go on, as far as they can get from the states that
the device can be in; the context can open the rows all along, and some messages are owed all
along. With a complete index the call ends, and returns them.
-/
namespace SendSelf.Queue
open Coroutine Runs

/-- The device's states, with whatever its contexts have in flight. -/
abbrev Contexts := LoopState Store Unit Job StoreOp.Answer

def start (s : Store) : Contexts := ⟨s, []⟩

/-- What contexts that keep to the index do between two states of a run. -/
theorem run_tracks {s₀ : Store} (h₀ : s₀.outbox = none) {w w' : Contexts}
    (hrun : Reachable device.step (start s₀) w) (hrun' : Reachable device.step w w') :
    Covers w.state ∧ Covers w'.state ∧ Tracks w.state w'.state := by
  have hcovers : Covers s₀ := by
    intro hc
    simp [Store.complete, h₀] at hc
  have hjobs : ∀ job s, Covers s → True → _ := fun job s hs _ => keeps_program job s hs
  obtain ⟨⟨hi, _⟩, hthreads⟩ := loop_suspends (L := device) (H := fun _ _ _ => True) Tracks.refl
    (fun _ _ _ => Tracks.trans) hjobs hcovers (by simp [start]) (guarded_of_reachable hrun)
  obtain ⟨hi', hr⟩ := loop_invariant (L := device) (H := fun _ _ _ => True) Tracks.refl
    (fun _ _ _ => Tracks.trans) hjobs hi hthreads (guarded_of_reachable hrun')
  exact ⟨hi, hi', hr⟩

/-- A context with this content key, or a row that takes none. -/
def Opens (context : Context) (row : StoredMessage) : Prop :=
  ∀ box, row.sealed = some box → context.contentKey = some box.key

/-- The context can open the rows, and under each of these ids is a row with such a message. -/
structure Standing (x : ContextId) (context : Context) (ids : Set MessageId)
    (owed : LocalMessage → Prop) (s : Store) : Prop where
  held : s.contexts x = context
  opens : ∀ row ∈ s.messages, Opens context row
  owed : ∀ id ∈ ids, ∃ row ∈ s.messages, row.id = id ∧ owed row.message

/-- What the others can do meanwhile, so that it stays so. -/
structure Others (s₀ : Store) (stays : Store → Prop) (s t : Store) : Prop where
  moves : s = t ∨ ∃ threads w, Reachable device.step (start s₀) ⟨s, threads⟩ ∧
    Reachable device.step ⟨s, threads⟩ w ∧ w.state = t
  stays : stays t

section Call

variable {x : ContextId} {context : Context} {ids : Set MessageId} {owed : LocalMessage → Prop}
    {s s₀ : Store}

/-- What holds along a call of `queuedMessages`. -/
structure Along (x : ContextId) (context : Context) (ids : Set MessageId)
    (owed : LocalMessage → Prop) (s : Store) : Prop where
  covers : Covers s
  complete : s.complete = true
  standing : Standing x context ids owed s

theorem Others.along (h₀ : s₀.outbox = none) {t : Store} (h : Along x context ids owed s)
    (hothers : Others s₀ (Standing x context ids owed) s t) :
    Along x context ids owed t ∧ Tracks s t := by
  rcases hothers.moves with rfl | ⟨threads, w, hrun, hrun', rfl⟩
  · exact ⟨h, Tracks.refl s⟩
  · obtain ⟨_, hcovers, htracks⟩ := run_tracks h₀ hrun hrun'
    exact ⟨⟨hcovers, htracks.complete h.complete, hothers.stays⟩, htracks⟩

/-- A row that the context can open is opened. -/
theorem wp_fromStored_opens {row : StoredMessage} (hi : Along x context ids owed s)
    (hopen : Opens context row) :
    device.wp (Along x context ids owed) Tracks (fun _ _ => True) (Prog.fromStored x row)
      (fun m t => m = some row.message ∧ Along x context ids owed t) (fun _ => False) s := by
  unfold Prog.fromStored
  split
  · exact ⟨rfl, hi⟩
  · next box hbox =>
    simp only [wp_bind, wp_read, hi.standing.held, hopen box hbox]
    refine wp_turn hi fun t hi' => ?_
    rw [if_pos trivial]
    exact ⟨rfl, hi'⟩

/-- An entry comes to what the row it was read from says. -/
structure Reported (entry : MessageId × Option StoredMessage) (looked : Prog.Looked) : Prop where
  done : ∀ e, looked.entry = some e → Done e
  queued : ∀ row, entry.2 = some row → isQueuedOutgoing row.message = true →
    looked.message = some row.message

/-- An entry whose row the context can open is either owed or done. -/
theorem wp_look_opens {entry : MessageId × Option StoredMessage} (hi : Along x context ids owed s)
    (hopen : ∀ row, entry.2 = some row → Opens context row) :
    device.wp (Along x context ids owed) Tracks (fun _ _ => True) (Prog.look x entry)
      (fun looked t => Reported entry looked ∧ Along x context ids owed t) (fun _ => False) s := by
  unfold Prog.look
  split
  · next hnone =>
    refine ⟨⟨fun e he => ?_, fun row hrow => ?_⟩, hi⟩
    · obtain rfl := Option.some.inj he
      intro row hrow
      rw [hnone] at hrow
      cases hrow
    · rw [hnone] at hrow
      cases hrow
  · next row hrow =>
    simp only [wp_bind]
    refine wp_mono (wp_fromStored_opens hi (hopen row hrow)) (fun m t hm => ?_) fun _ h => h
    obtain ⟨rfl, hi'⟩ := hm
    simp only
    split_ifs with hq
    · refine ⟨⟨fun e he => (by cases he), fun r hr _ => ?_⟩, hi'⟩
      obtain rfl := Option.some.inj (hrow.symm.trans hr)
      rfl
    · refine ⟨⟨fun e he => ?_, fun r hr hqueued => ?_⟩, hi'⟩
      · obtain rfl := Option.some.inj he
        intro r hr
        obtain rfl := Option.some.inj hr
        exact Bool.eq_false_iff.mpr hq
      · obtain rfl := Option.some.inj (hrow.symm.trans hr)
        exact absurd hqueued hq

/-- A call returns what stays owed. -/
theorem wp_queuedMessages (howed : ∀ m, owed m → isQueuedOutgoing m = true)
    (hi : Along x context ids owed s) :
    device.wp (Along x context ids owed) Tracks (fun _ _ => True) (Prog.queuedMessages x)
      (fun ms _ => ∀ id ∈ ids, ∃ m ∈ ms, m.id = id ∧ owed m) (fun _ => False) s := by
  unfold Prog.queuedMessages
  simp only [wp_bind]
  refine wp_getOutbox hi fun s₁ s₂ hi₁ hi₂ => ?_
  have hindex : ∃ index, s₁.outbox = some ⟨true, index⟩ ∧ ∀ id ∈ ids, id ∈ index := by
    have hc := hi₁.complete
    cases hout : s₁.outbox with
    | none => simp [Store.complete, hout] at hc
    | some outbox =>
      obtain ⟨complete, index⟩ := outbox
      obtain rfl : complete = true := by simpa [Store.complete, hout] using hc
      refine ⟨index, rfl, fun id hid => ?_⟩
      obtain ⟨row, hrow, hkey, hm⟩ := hi₁.standing.owed id hid
      simpa [Store.tracked, hout] using hi₁.covers hi₁.complete id ⟨row, hrow, hkey, howed _ hm⟩
  obtain ⟨index, hout, hall⟩ := hindex
  rw [hout]
  simp only [wp_bind]
  refine wp_mono
    (wp_forAll (P := fun id entry => entry.1 = id ∧
      (∀ row, entry.2 = some row → Opens context row) ∧
    (id ∈ ids → ∃ row, entry.2 = some row ∧ row.id = id ∧ owed row.message)) hi₂
      fun id _ s hs => ?_)
    (fun rows s₃ hrows => ?_) fun _ h => h
  · simp only [wp_bind]
    refine wp_getMessage hs fun s₁ t hi₁ hi' => ⟨⟨rfl, fun row hrow => ?_, fun hid => ?_⟩, hi'⟩
    · exact hi₁.standing.opens row (Table.mem_of_get? hrow)
    · obtain ⟨row, hrow, rfl, hm⟩ := hi₁.standing.owed id hid
      exact ⟨row, Table.get?_of_mem hrow, rfl, hm⟩
  refine wp_mono (wp_forAll (P := Reported) hrows.2 fun entry hentry s hs => ?_)
    (fun looked s₄ hlooked => ?_) fun _ h => h
  · obtain ⟨_, _, hP⟩ := exists_of_forall₂ hrows.1.flip hentry
    exact wp_look_opens hs hP.2.1
  have hreturn : ∀ id ∈ ids, ∃ m ∈ Prog.sorted (looked.filterMap Prog.Looked.message), m.id = id ∧
      owed m := by
    intro id hid
    obtain ⟨entry, hentry, _, _, hread⟩ := exists_of_forall₂ hrows.1 (hall id hid)
    obtain ⟨row, hrow, rfl, hm⟩ := hread hid
    obtain ⟨l, hl, hreport⟩ := exists_of_forall₂ hlooked.1 hentry
    exact ⟨row.message,
      List.mem_mergeSort.mpr (List.mem_filterMap.mpr ⟨l, hl, hreport.queued row hrow (howed _ hm)⟩),
      rfl, hm⟩
  split_ifs
  · simp only [wp_bind]
    refine wp_writing hlooked.2 (fun s₁ _ hi₁ _ => ?_) fun _ _ _ _ => hreturn
    have htracks :
        Tracks s₁ (untrackOutbox (unchanged s₁ (looked.filterMap Prog.Looked.entry)) s₁) := by
      refine tracks_untrackUnchanged fun entry hentry => ?_
      obtain ⟨l, hl, he⟩ := List.mem_filterMap.mp hentry
      obtain ⟨_, _, hreport⟩ := exists_of_forall₂ hlooked.1.flip hl
      exact hreport.done entry he
    have hstanding :
        Standing x context ids owed
          (untrackOutbox (unchanged s₁ (looked.filterMap Prog.Looked.entry)) s₁) :=
      ⟨hi₁.standing.held, hi₁.standing.opens, hi₁.standing.owed⟩
    exact ⟨⟨hi₁.covers.step htracks complete_untrackOutbox, htracks.complete hi₁.complete,
      hstanding⟩, htracks⟩
  · exact hreturn

end Call

/-- The index misses nothing, and a context that can open the rows is given everything that
is owed. -/
theorem outbox_complete {s₀ : Store} (h₀ : s₀.outbox = none) {w : Contexts}
    (hrun : Reachable device.step (start s₀) w)
    {index : List MessageId} (hindex : w.state.outbox = some ⟨true, index⟩) :
    (∀ row ∈ w.state.messages, isQueuedOutgoing row.message = true → row.id ∈ index) ∧
      ∀ x context ids owed, (∀ m, owed m → isQueuedOutgoing m = true) →
        Standing x context ids owed w.state →
        (∃ r t, device.Ends (Others s₀ (Standing x context ids owed)) (Prog.queuedMessages x)
          w.state r t) ∧
        ∀ r t, device.Ends (Others s₀ (Standing x context ids owed)) (Prog.queuedMessages x)
          w.state r t →
          ∃ ms, r = some ms ∧ ∀ id ∈ ids, ∃ m ∈ ms, m.id = id ∧ owed m := by
  obtain ⟨hcovers, _, _⟩ := run_tracks h₀ hrun .start
  have hcomplete : w.state.complete = true := by simp [Store.complete, hindex]
  have htracked : w.state.tracked = index := by simp [Store.tracked, hindex]
  refine ⟨fun row hrow hqueued => ?_, fun x context ids owed howed hstanding => ?_⟩
  · rw [← htracked]
    exact hcovers hcomplete row.id ⟨row, hrow, rfl, hqueued⟩
  · have hwp := wp_queuedMessages howed ⟨hcovers, hcomplete, hstanding⟩
    refine ⟨?_, fun r t hends => ?_⟩
    · have : Nonempty AtRestIv := ⟨0⟩
      exact Loop.Ends.exists_of_wp (fun s hs => ⟨Or.inl rfl, hs.standing⟩) Tracks.refl (fun _ _ =>
        trivial) hwp
    · have hsound := hends.sound (fun s t hs ht => ht.along h₀ hs) (fun _ _ => trivial) hwp
      cases r with
      | none => exact hsound.elim
      | some ms => exact ⟨ms, rfl, hsound⟩

/-- A message queued while another context scans, with one from before the index. -/
def queued (id : MessageId) : LocalMessage :=
  { id, direction := .outgoing, senderDeviceId := 0, text := none, file := none, createdAt := id,
    keyEpoch := none,
    deletes := none, status := .queued, fileState := none, corrupted := false,
    senderVerified := none, acked := true }

def history : Store :=
  { messages := .singleton ⟨queued 1, none⟩, outbox := none, contexts := fun _ => ⟨none, false⟩ }

def scanned : List (LoopEvent AtRestIv Job) :=
  [.start (.queuedMessages 0), .perform 0 0, .resume 0, .perform 0 0,
    .start (.putMessage 1 (queued 2)), .perform 1 0,
    .resume 0, .perform 0 0, .resume 0]

/-- Both are in the index that the scan calls complete, and a call returns them. -/
theorem outbox_complete_overlapping : ∃ w, Reachable device.step (start history) w ∧
    w.state.outbox = some ⟨true, [2, 1]⟩ ∧
      (∀ row ∈ w.state.messages, isQueuedOutgoing row.message = true →
        row.id ∈ ([2, 1] : List MessageId)) ∧
      ∃ ms t, device.Ends
        (Others history (Standing 0 ⟨none, false⟩ {1, 2} fun m => isQueuedOutgoing m = true))
        (Prog.queuedMessages 0) w.state (some ms) t ∧ ∀ id ∈ ({1, 2} : Set MessageId), ∃ m ∈ ms,
        m.id = id := by
  have hreplay : (replay device.step (start history) scanned).any (fun w =>
      decide (w.state.outbox = some ⟨true, [2, 1]⟩ ∧
        w.state.messages.rows = [⟨queued 1, none⟩, ⟨queued 2, none⟩] ∧
        w.state.contexts 0 = ⟨none, false⟩)) = true := by
    decide +kernel
  obtain ⟨w, hrun, houtbox, hrows, hcontext⟩ := exists_reachable_of_replay hreplay
  obtain ⟨hindex, hcall⟩ := outbox_complete rfl hrun houtbox
  have hstanding :
      Standing 0 ⟨none, false⟩ {1, 2} (fun m => isQueuedOutgoing m = true) w.state := by
    refine ⟨hcontext, fun row hrow => ?_, fun id hid => ?_⟩
    · rw [Table.mem_def, hrows] at hrow
      rcases List.mem_pair.mp hrow with rfl | rfl <;> exact fun box h => by cases h
    · rcases hid with rfl | rfl
      · exact ⟨⟨queued 1, none⟩, by simp [Table.mem_def, hrows], rfl, rfl⟩
      · exact ⟨⟨queued 2, none⟩, by simp [Table.mem_def, hrows], rfl, rfl⟩
  obtain ⟨⟨r, t, hends⟩, hreturns⟩ := hcall 0 ⟨none, false⟩ {1, 2} _ (fun _ h => h) hstanding
  obtain ⟨ms, rfl, hms⟩ := hreturns r t hends
  refine ⟨w, hrun, houtbox, hindex, ms, t, hends, fun id hid => ?_⟩
  obtain ⟨m, hm, hkey, _⟩ := hms id hid
  exact ⟨m, hm, hkey⟩

end SendSelf.Queue
