import SendSelf.Queue.Store

/-!
# The index misses nothing that is owed

From one state to a later one, whatever is owed that was not owed before is in the index by
then, and what is owed and was in the index still is. Every transaction of every context
keeps to this, whatever it decided from rows it has read before. So a scan that could open
every row may call the index complete when it merges what it found: what is owed by then was
found, or has been recorded since.
-/
namespace SendSelf.Queue
open Coroutine

def Owed (s : Store) (id : MessageId) : Prop :=
  ∃ row ∈ s.messages, row.id = id ∧ isQueuedOutgoing row.message = true

/-- What the others may do between two segments of a program. -/
structure Tracks (s t : Store) : Prop where
  complete : s.complete = true → t.complete = true
  since : ∀ id, Owed t id → Owed s id ∨ id ∈ t.tracked
  kept : ∀ id, Owed t id → id ∈ s.tracked → id ∈ t.tracked

/-- A complete index has everything that is owed. -/
def Covers (s : Store) : Prop := s.complete = true → ∀ id, Owed s id → id ∈ s.tracked

theorem Tracks.refl (s : Store) : Tracks s s := ⟨fun h => h, fun _ h => Or.inl h, fun _ _ h => h⟩

theorem Tracks.trans {s t u : Store} (h : Tracks s t) (h' : Tracks t u) : Tracks s u := by
  refine ⟨fun hc => h'.complete (h.complete hc), fun id howed => ?_, fun id howed hs => ?_⟩
  · rcases h'.since id howed with ht | hu
    · exact (h.since id ht).imp_right (h'.kept id howed)
    · exact Or.inr hu
  · rcases h'.since id howed with ht | hu
    · exact h'.kept id howed (h.kept id ht hs)
    · exact hu

/-- A transaction that keeps to it keeps a complete index complete. -/
theorem Covers.step {s t : Store} (h : Covers s) (ht : Tracks s t) (hc : t.complete = s.complete) :
    Covers t := by
  intro hcomplete id howed
  rw [hc] at hcomplete
  exact (ht.since id howed).elim (fun hs => ht.kept id howed (h hcomplete id hs)) fun hid => hid

/-- Nothing more is owed, and the index loses only what is not. -/
theorem Tracks.of_owed {s t : Store} (hc : s.complete = true → t.complete = true)
    (howed : ∀ id, Owed t id → Owed s id)
    (htracked : ∀ id, Owed t id → id ∈ s.tracked → id ∈ t.tracked) :
    Tracks s t := ⟨hc, fun id h => Or.inl (howed id h), htracked⟩

section Transactions

variable {s : Store} {addOnly complete : Bool} {ids : List MessageId} {id : MessageId}
  {messages : List LocalMessage} {rows : List StoredMessage}

theorem tracked_untrackOutbox : id ∈ (untrackOutbox ids s).tracked ↔ id ∈ s.tracked ∧ id ∉ ids := by
  have h : (untrackOutbox ids s).tracked = s.tracked.filter fun id => decide (id ∉ ids) := by
    unfold untrackOutbox Store.tracked
    cases s.outbox <;> rfl
  rw [h, List.mem_filter, decide_eq_true_eq]

theorem complete_untrackOutbox : (untrackOutbox ids s).complete = s.complete := by
  unfold untrackOutbox Store.complete
  cases s.outbox <;> rfl

theorem tracked_mergeOutbox : id ∈ (mergeOutbox complete ids s).tracked ↔ id ∈ s.tracked ∨
    id ∈ ids := by
  have h : (mergeOutbox complete ids s).tracked = s.tracked ++ ids.filter fun id =>
      decide (id ∉ s.tracked) := rfl
  rw [h, List.mem_append, List.mem_filter, decide_eq_true_eq]
  by_cases hid : id ∈ s.tracked <;> simp [hid]

theorem owed_deleteRows : Owed (deleteRows ids s) id → Owed s id ∧ id ∉ ids := by
  rintro ⟨row, hrow, rfl, hqueued⟩
  obtain ⟨hmem, hkept⟩ := Table.mem_delete.mp hrow
  exact ⟨⟨row, hmem, rfl, hqueued⟩, of_decide_eq_false hkept⟩

/-- What tracking one message leaves in the index. -/
theorem mem_ids_singleton {tracked : List MessageId} {m : LocalMessage} :
    id ∈ trackOutbox.ids addOnly tracked [m] ↔
    if isQueuedOutgoing m then id ∈ tracked ∨ id = m.id
    else id ∈ tracked ∧ (addOnly = true ∨ id ≠ m.id) := by
  simp only [trackOutbox.ids, List.foldl_cons, List.foldl_nil]
  by_cases hq : isQueuedOutgoing m = true
  · by_cases hin : m.id ∈ tracked
    · simp only [hq, hin, if_true, iff_self_or]
      rintro rfl
      exact hin
    · simp [hq, hin]
  · cases addOnly <;> simp [hq]

/-- A row put together with its entry. -/
theorem tracks_put_one (row : StoredMessage) :
    Tracks s (trackOutbox addOnly [row.message] (putRows [row] s)) := by
  have htracked : ∀ id, id ∈ (trackOutbox addOnly [row.message] (putRows [row] s)).tracked ↔ _ :=
    fun id => mem_ids_singleton
  refine ⟨fun h => h, ?_, ?_⟩
  · rintro id ⟨r, hr, rfl, hqueued⟩
    rcases Table.mem_put.mp hr with rfl | ⟨hold, _⟩
    · rw [htracked, if_pos hqueued]
      exact Or.inr (Or.inr rfl)
    · exact Or.inl ⟨r, hold, rfl, hqueued⟩
  · rintro id ⟨r, hr, rfl, hqueued⟩ ht
    rw [htracked]
    split_ifs with hq
    · exact Or.inl ht
    · rcases Table.mem_put.mp hr with rfl | ⟨_, hne⟩
      · exact absurd hqueued hq
      · exact ⟨ht, Or.inr hne⟩

/-- Rows put together with their entries, one after the other. -/
theorem tracks_put (rows : List StoredMessage) :
    Tracks s (trackOutbox addOnly (rows.map StoredMessage.message) (putRows rows s)) := by
  induction rows generalizing s with
  | nil => exact Tracks.of_owed (fun h => h) (fun _ h => h) fun _ _ h => h
  | cons row rows ih => exact (tracks_put_one row).trans ih

theorem mem_ids_addOnly {tracked : List MessageId} (h : id ∈ tracked) :
    id ∈ trackOutbox.ids true tracked messages := by
  induction messages generalizing tracked with
  | nil => exact h
  | cons m messages ih =>
    refine ih (mem_ids_singleton.mpr ?_)
    split_ifs
    · exact Or.inl h
    · exact ⟨h, Or.inl rfl⟩

theorem tracks_addOnly : Tracks s (trackOutbox true messages s) :=
  Tracks.of_owed (fun h => h) (fun _ h => h) fun _ _ h => mem_ids_addOnly h

/-- A row that is not owed, put without a word to the index. -/
theorem tracks_put_incoming {row : StoredMessage} (h : isQueuedOutgoing row.message = false) :
    Tracks s (putRows [row] s) := by
  refine Tracks.of_owed (fun h => h) (fun id => ?_) fun _ _ h => h
  rintro ⟨r, hr, rfl, hqueued⟩
  rcases Table.mem_put.mp hr with rfl | ⟨hold, _⟩
  · rw [h] at hqueued
    cases hqueued
  · exact ⟨r, hold, rfl, hqueued⟩

theorem tracks_delete : Tracks s (untrackOutbox ids (deleteRows ids s)) := by
  refine Tracks.of_owed (fun h => complete_untrackOutbox.trans h) (fun id h =>
    (owed_deleteRows h).1) fun id h ht => ?_
  exact tracked_untrackOutbox.mpr ⟨ht, (owed_deleteRows h).2⟩

/-- What `dropStale` is given: no row, or a row that is not owed. -/
def Done (entry : MessageId × Option StoredMessage) : Prop :=
  ∀ row, entry.2 = some row → isQueuedOutgoing row.message = false

theorem tracks_untrackUnchanged {stale : List (MessageId × Option StoredMessage)}
    (h : ∀ entry ∈ stale, Done entry) :
    Tracks s (untrackOutbox (unchanged s stale) s) := by
  refine Tracks.of_owed (fun h => complete_untrackOutbox.trans h) (fun _ h => h) fun id howed ht =>
    tracked_untrackOutbox.mpr ⟨ht, fun hid => ?_⟩
  obtain ⟨entry, hentry, rfl⟩ := List.mem_map.mp hid
  obtain ⟨hstale, hsame⟩ := List.mem_filter.mp hentry
  obtain ⟨row, hrow, hkey, hqueued⟩ := howed
  have hread : entry.2 = some row := by
    rw [← of_decide_eq_true hsame, ← hkey]
    exact Table.get?_of_mem hrow
  rw [h entry hstale row hread] at hqueued
  cases hqueued

theorem tracks_merge : Tracks s (mergeOutbox complete ids s) :=
  Tracks.of_owed (fun h => Bool.or_eq_true_iff.mpr (Or.inr h)) (fun _ h => h) fun _ _ h =>
    tracked_mergeOutbox.mpr (Or.inl h)

/-- A scan may call the index complete, whatever has happened since. -/
theorem covers_merge {s₀ : Store} (h : Covers s) (hsince : Tracks s₀ s)
    (hscan : complete = true → ∀ id, Owed s₀ id → id ∈ ids) :
    Covers (mergeOutbox complete ids s) := by
  intro hcomplete id howed
  refine tracked_mergeOutbox.mpr ?_
  have hor : (complete || s.complete) = true := hcomplete
  rcases Bool.or_eq_true_iff.mp hor with hnew | hold
  · exact (hsince.since id howed).symm.imp_right (hscan hnew id)
  · exact Or.inl (h hold id howed)

end Transactions

section Programs

variable {I : Store → Prop} {s : Store} {x : ContextId}

/-- A call that writes nothing. -/
theorem wp_reading {op : StoreOp} {Q : op.Answer → Store → Prop} {E : Store → Prop}
    (hread : ∀ e s, (device.exec op e s).1 = s) (hi : I s)
    (hQ : ∀ s₁ e s₂, I s₁ → Tracks s s₁ → I s₂ → Tracks s₁ s₂ → Q (device.exec op e s₁).2 s₂) :
    device.wp I Tracks (fun _ _ => True) (call op) Q E s := by
  refine wp_call.mpr ⟨hi, fun s₁ e hi₁ hr => ?_⟩
  have hkeep := hread e s₁
  refine ⟨by rw [hkeep]; exact hi₁, by rw [hkeep]; exact Tracks.refl s₁, fun s₂ hi₂ hr₂ _ => ?_⟩
  rw [hkeep] at hr₂
  exact hQ s₁ e s₂ hi₁ hr hi₂ hr₂

theorem wp_turn {Q : Unit → Store → Prop} {E : Store → Prop} (hi : I s) (hQ : ∀ t, I t → Q () t) :
    device.wp I Tracks (fun _ _ => True) Prog.turn Q E s :=
  wp_reading (fun _ _ => rfl) hi fun _ _ t _ _ hi' _ => hQ t hi'

theorem wp_encrypt {Q : AtRestIv → Store → Prop} {E : Store → Prop} (hi : I s)
    (hQ : ∀ iv t, I t → Q iv t) :
    device.wp I Tracks (fun _ _ => True) Prog.encrypt Q E s :=
  wp_reading (fun _ _ => rfl) hi fun _ e t _ _ hi' _ => hQ e t hi'

theorem wp_getOutbox {Q : Option OutboxIndex → Store → Prop} {E : Store → Prop} (hi : I s)
    (hQ : ∀ s₁ t, I s₁ → I t → Q s₁.outbox t) :
    device.wp I Tracks (fun _ _ => True) Prog.getOutbox Q E s :=
  wp_reading (fun _ _ => rfl) hi fun s₁ _ t hi₁ _ hi' _ => hQ s₁ t hi₁ hi'

theorem wp_getMessage {id : MessageId} {Q : Option StoredMessage → Store → Prop}
    {E : Store → Prop} (hi : I s) (hQ : ∀ s₁ t, I s₁ → I t → Q (s₁.messages.get? id) t) :
    device.wp I Tracks (fun _ _ => True) (Prog.getMessage id) Q E s :=
  wp_reading (fun _ _ => rfl) hi fun s₁ _ t hi₁ _ hi' _ => hQ s₁ t hi₁ hi'

theorem wp_getAllMessages {Q : List StoredMessage → Store → Prop} {E : Store → Prop} (hi : I s)
    (hQ : ∀ s₁ t, I t → Tracks s₁ t → Q s₁.messages.rows t) :
    device.wp I Tracks (fun _ _ => True) Prog.getAllMessages Q E s :=
  wp_reading (fun _ _ => rfl) hi fun s₁ _ t _ _ hi' hsince => hQ s₁ t hi' hsince

theorem wp_getMessagesBefore {cutoff : ℕ} {Q : List StoredMessage → Store → Prop}
    {E : Store → Prop} (hi : I s) (hQ : ∀ rows t, I t → Q rows t) :
    device.wp I Tracks (fun _ _ => True) (Prog.getMessagesBefore cutoff) Q E s :=
  wp_reading (fun _ _ => rfl) hi fun _ _ t _ _ hi' _ => hQ _ t hi'

theorem wp_getAllKeys {Q : List MessageId → Store → Prop} {E : Store → Prop} (hi : I s)
    (hQ : ∀ keys t, I t → Q keys t) : device.wp I Tracks (fun _ _ => True) Prog.getAllKeys Q E s :=
  wp_reading (fun _ _ => rfl) hi fun _ _ t _ _ hi' _ => hQ _ t hi'

/-- A transaction that keeps to what the others rely on. -/
theorem wp_writing {op : StoreOp} {Q : op.Answer → Store → Prop} {E : Store → Prop} (hi : I s)
    (hwrite : ∀ s₁ e, I s₁ → Tracks s s₁ → I (device.exec op e s₁).1 ∧
      Tracks s₁ (device.exec op e s₁).1)
    (hQ : ∀ s₁ e s₂, I s₂ → Q (device.exec op e s₁).2 s₂) :
    device.wp I Tracks (fun _ _ => True) (call op) Q E s := by
  refine wp_call.mpr ⟨hi, fun s₁ e hi₁ hr => ?_⟩
  obtain ⟨hi', hr'⟩ := hwrite s₁ e hi₁ hr
  exact ⟨hi', hr', fun s₂ hi₂ _ _ => hQ s₁ e s₂ hi₂⟩

/-- An opened row gives its message. -/
theorem wp_fromStored {row : StoredMessage} (hi : I s) : device.wp I Tracks (fun _ _ => True)
    (Prog.fromStored x row) (fun m s => (∀ a, m = some a → a = row.message) ∧ I s) I s := by
  unfold Prog.fromStored
  split
  · exact ⟨fun a h => (Option.some.inj h).symm, hi⟩
  · simp only [wp_bind, wp_read]
    split
    · exact ⟨fun a h => (by cases h), hi⟩
    · simp only [wp_bind]
      refine wp_turn hi fun s₂ hi₂ => ?_
      split_ifs
      · exact ⟨fun a h => (Option.some.inj h).symm, hi₂⟩
      · exact hi₂

theorem wp_sealJson {target : Option (Option ContentKey)} (hi : I s) :
    device.wp I Tracks (fun _ _ => True) (Prog.sealJson x target) (fun _ => I) I s := by
  unfold Prog.sealJson
  simp only [wp_bind, wp_read]
  split
  · split_ifs
    · exact hi
    · exact hi
  · simp only [wp_bind]
    exact wp_encrypt hi fun _ _ hi₂ => hi₂

theorem wp_toStored {target : Option (Option ContentKey)} {message : LocalMessage} (hi : I s) :
    device.wp I Tracks (fun _ _ => True) (Prog.toStored x target message)
      (fun row s => row.message = message ∧ I s) I s := by
  unfold Prog.toStored
  simp only [wp_bind]
  exact wp_mono (wp_sealJson hi) (fun _ _ h => ⟨rfl, h⟩) fun _ h => h

/-- What an entry of the index comes to is right about the row it was read from. -/
theorem wp_look {entry : MessageId × Option StoredMessage} (hi : I s) :
    device.wp I Tracks (fun _ _ => True)
    (Prog.look x entry) (fun looked s => (∀ e, looked.entry = some e → Done e) ∧ I s) I s := by
  unfold Prog.look
  split
  · next hnone =>
    refine ⟨fun e he => ?_, hi⟩
    obtain rfl := Option.some.inj he
    intro row hrow
    rw [hnone] at hrow
    cases hrow
  · next row hrow =>
    simp only [wp_bind]
    refine wp_mono (wp_fromStored hi) (fun m s' hm => ?_) fun _ h => h
    split
    · exact ⟨fun e he => (by cases he), hm.2⟩
    · next message =>
      obtain rfl := hm.1 message rfl
      split_ifs with hq
      · exact ⟨fun e he => (by cases he), hm.2⟩
      · refine ⟨fun e he => ?_, hm.2⟩
        obtain rfl := Option.some.inj he
        intro r hr
        obtain rfl := Option.some.inj hr
        exact Bool.eq_false_iff.mpr hq

end Programs

/-- Run among others that keep a complete index complete, the program does so too. -/
def Keeps {α : Type} (p : Prog α) : Prop :=
  ∀ s, Covers s → device.wp Covers Tracks (fun _ _ => True) p (fun _ => Covers) Covers s

section Keeps

variable {x : ContextId}

/-- A transaction that leaves `complete` as it is. -/
theorem keeps_call {op : StoreOp} (htracks : ∀ e s, Tracks s (device.exec op e s).1)
    (hcomplete : ∀ e s, (device.exec op e s).1.complete = s.complete) : Keeps (call op) := by
  intro s hi
  refine wp_writing hi (fun s₁ e hi₁ _ => ?_) fun _ _ _ h => h
  exact ⟨hi₁.step (htracks e s₁) (hcomplete e s₁), htracks e s₁⟩

theorem keeps_put {row : StoredMessage} (h : isQueuedOutgoing row.message = false) :
    Keeps (Prog.put row) := by
  refine keeps_call (fun _ _ => tracks_put_incoming h) fun _ _ => ?_
  rfl

theorem keeps_putTracked (addOnly : Bool) {rows : List StoredMessage} {messages : List LocalMessage}
    (h : rows.map StoredMessage.message = messages) :
    Keeps (Prog.putTracked addOnly rows messages) := by
  subst h
  refine keeps_call (fun _ _ => tracks_put rows) fun _ _ => ?_
  rfl

theorem keeps_deleteUntracked (ids : List MessageId) : Keeps (Prog.deleteUntracked ids) :=
  keeps_call (fun _ _ => tracks_delete) fun _ _ => complete_untrackOutbox

theorem keeps_dropStale {stale : List (MessageId × Option StoredMessage)}
    (h : ∀ entry ∈ stale, Done entry) :
    Keeps (Prog.dropStale stale) :=
  keeps_call (fun _ _ => tracks_untrackUnchanged h) fun _ _ => complete_untrackOutbox

theorem keeps_putMessage (message : LocalMessage) : Keeps (Prog.putMessage x message) := by
  intro s hi
  unfold Prog.putMessage
  simp only [wp_bind]
  refine wp_mono (wp_toStored hi) (fun row s' hrow => ?_) fun _ h => h
  split_ifs with hdir
  · refine keeps_put ?_ s' hrow.2
    rw [hrow.1]
    exact decide_eq_false fun h => hdir h.1
  · exact keeps_putTracked false (by rw [List.map_singleton, hrow.1]) s' hrow.2

theorem keeps_putOutgoingFileMessages (messages : List LocalMessage) :
    Keeps (Prog.putOutgoingFileMessages x messages) := by
  intro s hi
  unfold Prog.putOutgoingFileMessages
  split_ifs
  · exact hi
  · simp only [wp_bind]
    refine wp_mono
      (wp_forAll (P := fun message row => row.message = message) hi fun message _ s hs =>
      wp_toStored hs) (fun rows s' hrows => ?_) fun _ h => h
    refine keeps_putTracked false ?_ s' hrows.2
    have hmap := List.forall₂_map_right_iff.mpr (hrows.1.imp fun _ _ h => h.symm)
    exact (List.forall₂_eq_eq_eq ▸ hmap : messages = rows.map StoredMessage.message).symm

/-- Rows opened one after the other, and what the others have done since. -/
theorem wp_openAll {rows : List StoredMessage} {s₀ s : Store} (hi : Covers s)
    (hsince : Tracks s₀ s) :
    device.wp Covers Tracks (fun _ _ => True) (forAll (Prog.fromStored x) rows)
      (fun opened s => List.Forall₂ (fun row m => ∀ a, m = some a → a = row.message) rows opened ∧
        Covers s ∧ Tracks s₀ s) Covers s := by
  refine wp_mono
    (wp_forAll (E := fun s => Covers s ∧ Tracks s₀ s) ⟨hi, hsince⟩ fun row _ s hs => ?_)
    (fun _ _ h => h) fun _ h => h.1
  have hopen :=
    wp_since (R := Tracks) (fun _ _ _ => Tracks.trans) hs.2 (@wp_fromStored Covers _ x row hs.1)
  exact wp_mono hopen (fun _ _ h => ⟨h.1.1, h.1.2, h.2⟩) fun _ h => h

/-- A scan that could open every row has found everything that is owed. -/
theorem scan_complete {s : Store} {opened : List (Option LocalMessage)} {id : MessageId}
    (hopened : List.Forall₂ (fun row m => ∀ a, m = some a → a = row.message) s.messages.rows opened)
    (hall : opened.all Option.isSome = true) (howed : Owed s id) :
    id ∈ (((opened.filterMap fun m => m).filter isQueuedOutgoing).map LocalMessage.id) := by
  obtain ⟨row, hrow, rfl, hqueued⟩ := howed
  obtain ⟨m, hm, hmessage⟩ := exists_of_forall₂ hopened hrow
  obtain ⟨message, rfl⟩ := Option.isSome_iff_exists.mp (List.all_eq_true.mp hall m hm)
  obtain rfl := hmessage message rfl
  exact List.mem_map_of_mem (List.mem_filter.mpr ⟨List.mem_filterMap.mpr ⟨_, hm, rfl⟩, hqueued⟩)

theorem keeps_rebuildOutboxIndex : Keeps (Prog.rebuildOutboxIndex x) := by
  intro s hi
  unfold Prog.rebuildOutboxIndex
  simp only [wp_bind]
  refine wp_getAllMessages hi fun s₁ s₂ hi₂ hsince => ?_
  refine wp_mono (wp_openAll hi₂ hsince) (fun opened s₃ hopened => ?_) fun _ h => h
  refine wp_writing hopened.2.1 (fun s₄ _ hi₄ hr₄ => ⟨?_, tracks_merge⟩) fun _ _ _ h => h
  exact covers_merge hi₄ (hopened.2.2.trans hr₄) fun hall id howed =>
    scan_complete hopened.1 hall howed

theorem keeps_queuedMessages : Keeps (Prog.queuedMessages x) := by
  intro s hi
  unfold Prog.queuedMessages
  simp only [wp_bind]
  refine wp_getOutbox hi fun s₁ s₂ _ hi₂ => ?_
  split
  · next ids _ =>
    simp only [wp_bind]
    refine wp_mono (wp_forAll (P := fun _ _ => True) hi₂ fun id _ s hs => ?_) (fun rows s₃ hrows =>
      ?_) fun _ h => h
    · simp only [wp_bind]
      exact wp_getMessage hs fun _ _ _ hs' => ⟨trivial, hs'⟩
    refine wp_mono (wp_forAll hrows.2 fun entry _ s hs => wp_look hs) (fun looked s₄ hlooked => ?_)
      fun _ h => h
    split_ifs
    · simp only [wp_bind]
      refine wp_mono (keeps_dropStale (fun entry hentry => ?_) s₄ hlooked.2) (fun _ _ h => h)
        fun _ h => h
      obtain ⟨l, hl, he⟩ := List.mem_filterMap.mp hentry
      obtain ⟨_, _, hdone⟩ := exists_of_forall₂ hlooked.1.flip hl
      exact hdone entry he
    · exact hlooked.2
  · exact keeps_rebuildOutboxIndex s₂ hi₂

theorem keeps_trackQueued (messages : List LocalMessage) : Keeps (Prog.trackQueued messages) := by
  intro s hi
  unfold Prog.trackQueued
  simp only
  split_ifs
  · exact hi
  · simp only [wp_bind]
    refine wp_getOutbox hi fun s₁ s₂ _ hi₂ => ?_
    split_ifs
    · exact hi₂
    · have hkeeps : Keeps (Prog.putTracked true [] (messages.filter isQueuedOutgoing)) := by
        refine keeps_call (fun _ _ => tracks_addOnly) fun _ _ => ?_
        rfl
      exact hkeeps s₂ hi₂

theorem keeps_pruneHistory (cutoff : ℕ) : Keeps (Prog.pruneHistory x cutoff) := by
  intro s hi
  unfold Prog.pruneHistory
  simp only [wp_bind]
  refine wp_getMessagesBefore hi fun rows s₂ hi₂ => ?_
  refine wp_mono (wp_openAll hi₂ (Tracks.refl s₂)) (fun opened s₃ hopened => ?_) fun _ h => h
  exact wp_forEach hopened.2.1 fun batch _ s hs => keeps_deleteUntracked _ s hs

theorem keeps_rewriteMessage (target : Option ContentKey) (key : MessageId) :
    Keeps (Prog.rewriteMessage x target key) := by
  intro s hi
  unfold Prog.rewriteMessage
  simp only [wp_bind]
  refine wp_getMessage hi fun _ s₂ _ hi₂ => ?_
  split
  · exact hi₂
  · simp only [wp_bind]
    refine wp_mono (wp_fromStored hi₂) (fun m s₃ hm => ?_) fun _ h => h
    split
    · exact hm.2
    · simp only [wp_bind]
      refine wp_mono (wp_toStored hm.2) (fun row s₄ hrow => ?_) fun _ h => h
      exact keeps_putTracked true (by rw [List.map_singleton, hrow.1]) s₄ hrow.2

theorem keeps_rewriteLocalContent (target : Option ContentKey) :
    Keeps (Prog.rewriteLocalContent x target) := by
  intro s hi
  unfold Prog.rewriteLocalContent
  simp only [wp_bind]
  refine wp_getAllKeys hi fun keys s₂ hi₂ => ?_
  exact wp_forEach hi₂ fun key _ s hs => keeps_rewriteMessage target key s hs

/-- Whatever a context does keeps a complete index complete. -/
theorem keeps_program (job : Job) : Keeps job.program := by
  cases job with
  | putMessage x message => exact keeps_putMessage message
  | putOutgoingFileMessages x messages => exact keeps_putOutgoingFileMessages messages
  | deleteMessage x id => exact keeps_deleteUntracked [id]
  | queuedMessages x =>
    intro s hi
    simp only [Job.program, wp_bind]
    exact keeps_queuedMessages s hi
  | trackQueued x messages => exact keeps_trackQueued messages
  | pruneHistory x cutoff => exact keeps_pruneHistory cutoff
  | rewriteLocalContent x target => exact keeps_rewriteLocalContent target
  | setContext x context =>
    intro s hi
    exact ⟨Tracks.of_owed (fun h => h) (fun _ h => h) fun _ _ h => h, hi⟩

end Keeps

end SendSelf.Queue
