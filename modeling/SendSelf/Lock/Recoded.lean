import SendSelf.Lock.Recoding

/-!
# What a rewrite changes

A rewrite that puts a row back where it still decodes as what was read leaves everything as it
decodes, and the other operations only look at what rows decode to. So a run in which every
write-back is of that kind comes to what the operations alone come to. Nothing in the code makes
it so: a write that lands between the reading and the putting back is lost, and a removal is
undone.
-/
namespace SendSelf.Recoding
open Coroutine

variable {α : Type} {contexts : ContextId → Context}

theorem opened_toStored {key : Option ContentKey} {iv : AtRestIv} {id : RowId} {value : α} :
    opened ⟨id, toStored key iv id value⟩ = some value := by
  cases key with
  | none => rfl
  | some key => simp [opened, toStored]

/-- A row that opens here opens to what it holds. -/
theorem opened_of_fromStored {key : Option ContentKey} {row : LocalRow α} {value : α}
    (h : fromStored key row.id row.body = .ok (some value)) : opened row = some value := by
  obtain ⟨id, body⟩ := row
  cases body with
  | plain stored =>
      obtain rfl := Option.some.inj (Except.ok.inj h)
      rfl
  | sealed box =>
      cases key with
      | none => cases Except.ok.inj h
      | some key =>
          simp only [fromStored] at h
          split at h
          · next value' hopen =>
            obtain rfl := Option.some.inj (Except.ok.inj h)
            obtain rfl : box.key = key := congrArg Sealed.key (Sealed.openWith_eq_some.mp hopen)
            exact hopen
          · cases h

theorem openedName_sealed {key : Option ContentKey} {iv : AtRestIv} {space : StoredSpace}
    {name : SpaceName} :
    openedName { space with name := sealedName key iv space.id name } = some name := by
  cases key with
  | none => rfl
  | some key => simp [openedName, sealedName]

namespace Disk

variable {s : Disk α}

theorem decoded_put {row : LocalRow α} : (s.put row).decoded =
    { s.decoded with rows := Function.update s.decoded.rows row.id (some (opened row)) } := by
  ext1
  · funext id
    change ((s.rows.put row).get? id).map opened =
      Function.update s.decoded.rows row.id (some (opened row)) id
    rw [Table.get?_put, Function.update_apply]
    split_ifs <;> rfl
  · rfl

theorem decoded_putSpace {space : StoredSpace} : (s.putSpace space).decoded =
    { s.decoded with
      spaces := Function.update s.decoded.spaces space.id (some (record space)) } := by
  ext1
  · rfl
  · funext id
    change ((s.spaces.put space).get? id).map record =
      Function.update s.decoded.spaces space.id (some (record space)) id
    rw [Table.get?_put, Function.update_apply]
    split_ifs <;> rfl

/-- The row under a key that is removed, and the others. -/
theorem get?_delete_key {κ ρ : Type} [DecidableEq κ] {key : ρ → κ} {t : Table key} {gone k : κ} :
    (t.delete fun r => decide (key r = gone)).get? k = if k = gone then none else t.get? k := by
  rw [Table.get?_delete]
  cases hget : t.get? k with
  | none => simp
  | some r =>
      have hk : key r = k := (Table.get?_eq_some.mp hget).2
      by_cases h : k = gone <;> simp [hk, h]

theorem decoded_delete {id : RowId} : (s.delete id).decoded =
    { s.decoded with rows := Function.update s.decoded.rows id none } := by
  ext1
  · funext k
    change ((s.rows.delete _).get? k).map opened = Function.update s.decoded.rows id none k
    rw [get?_delete_key, Function.update_apply]
    split_ifs <;> rfl
  · rfl

theorem decoded_deleteSpace {id : SpaceId} : (s.deleteSpace id).decoded =
    { s.decoded with spaces := Function.update s.decoded.spaces id none } := by
  ext1
  · rfl
  · funext k
    change ((s.spaces.delete _).get? k).map record = Function.update s.decoded.spaces id none k
    rw [get?_delete_key, Function.update_apply]
    split_ifs <;> rfl

end Disk

/-- Decoding to the same. -/
def Same (s t : Disk α) : Prop := s.decoded = t.decoded

theorem same_equivalence : Equivalence (Same (α := α)) := ⟨fun _ => rfl, Eq.symm, Eq.trans⟩

theorem quiet_call {op : Op α} {β : Type} {f : op.Answer → Prog α β}
    (h : ∀ s iv, Unchanged contexts op s → Same s (Disk.exec contexts op iv s).1 ∧
      (rewrites contexts).quiet Same (Unchanged contexts) (f (Disk.exec contexts op iv s).2)) :
    (rewrites contexts).quiet Same (Unchanged contexts) (call op >>= f) := h

theorem quiet_putBack {found row : LocalRow α} (hid : row.id = found.id)
    (h : opened row = opened found) :
    (rewrites contexts).quiet Same (Unchanged contexts) (Prog.putBack found row) := by
  refine fun s iv hok => ⟨?_, trivial⟩
  change s.decoded = (s.put row).decoded
  have hsame : some (opened row) = s.decoded.rows row.id := by rw [h, hid, ← hok]; rfl
  rw [Disk.decoded_put, hsame, Function.update_eq_self]

theorem quiet_putBackSpace {found space : StoredSpace} (h : record space = record found) :
    (rewrites contexts).quiet Same (Unchanged contexts)
      (Prog.putBackSpace found space : Prog α Unit) := by
  refine fun s iv hok => ⟨?_, trivial⟩
  change s.decoded = (s.putSpace space).decoded
  have hid : space.id = found.id := congrArg SpaceRecord.id h
  have hsame : some (record space) = s.decoded.spaces space.id := by rw [h, hid, ← hok]; rfl
  rw [Disk.decoded_putSpace, hsame, Function.update_eq_self]

theorem quiet_rewriteRow {x : ContextId} {target : Option ContentKey} {id : RowId} :
    (rewrites contexts).quiet Same (Unchanged contexts)
      (Prog.rewriteRow x target id : Prog α Unit) := by
  refine quiet_call fun s iv _ => ⟨rfl, ?_⟩
  dsimp only [Disk.exec]
  cases s.rows.get? id with
  | none => trivial
  | some row =>
      refine quiet_call fun s iv _ => ⟨rfl, ?_⟩
      dsimp only [Disk.exec]
      cases hopen : fromStored (contexts x).contentKey row.id row.body with
      | error e => trivial
      | ok value =>
          cases value with
          | none => trivial
          | some value =>
              refine quiet_call fun s iv _ => ⟨rfl, ?_⟩
              dsimp only [Disk.exec]
              cases (contexts x).writableKey (some target) with
              | none => trivial
              | some key =>
                exact quiet_putBack rfl (opened_toStored.trans (opened_of_fromStored hopen).symm)

theorem quiet_rewriteName {x : ContextId} {target : KeyChoice} {stored : StoredSpace} :
    (rewrites contexts).quiet Same (Unchanged contexts)
      (Prog.rewriteName x target stored : Prog α Unit) := by
  refine quiet_call fun s iv hok => ⟨rfl, ?_⟩
  change (rewrites contexts).quiet Same (Unchanged contexts)
    (Prog.toStoredSpace x target stored (stored.readName (contexts x).contentKey) >>= fun space =>
      (Prog.putBackSpace stored space : Prog α Unit))
  have hname : stored.readName (contexts x).contentKey = openedName stored := hok
  rw [hname]
  unfold Prog.toStoredSpace
  cases hopen : openedName stored with
  | none => exact quiet_putBackSpace (by simp [record, openedName, ← hopen])
  | some name =>
      refine quiet_call fun s iv _ => ⟨rfl, ?_⟩
      dsimp only [Disk.exec]
      cases (contexts x).writableKey target with
      | none => trivial
      | some key => exact quiet_putBackSpace (by simp [record, openedName_sealed, hopen])

theorem quiet_program (job : Rewrite) :
    (rewrites contexts).quiet Same (Unchanged contexts) (job.program : Prog α Unit) := by
  cases job with
  | rewriteLocalContent x target space =>
      refine quiet_forEach fun store _ => quiet_call fun s iv _ => ⟨rfl, ?_⟩
      exact quiet_forEach fun id _ => quiet_rewriteRow
  | rewriteSpaceNames x target =>
      refine quiet_call fun s iv _ => ⟨rfl, ?_⟩
      exact quiet_forEach fun stored _ => quiet_rewriteName

theorem alike_call {op op' : Op α} {β : Type} {f : op.Answer → Prog α β}
    {f' : op'.Answer → Prog α β}
    (h : ∀ iv s t, Same s t → Same (Disk.exec contexts op iv s).1 (Disk.exec contexts op' iv t).1 ∧
      (operations contexts).Alike Same (f (Disk.exec contexts op iv s).2)
        (f' (Disk.exec contexts op' iv t).2)) :
    (operations contexts).Alike Same (call op >>= f) (call op' >>= f') :=
  .await (fun iv s t hst => (h iv s t hst).1) fun iv s t hst => (h iv s t hst).2

theorem same_put {s t : Disk α} {row : LocalRow α} (h : Same s t) :
    Same (s.put row) (t.put row) := by
  have hdecoded : s.decoded = t.decoded := h
  rw [Same, Disk.decoded_put, Disk.decoded_put, hdecoded]

theorem alike_put {row : LocalRow α} :
    (operations contexts).Alike Same (Prog.put row) (Prog.put row) :=
  .await (fun _ _ _ => same_put) fun _ _ _ _ => .done ()

theorem alike_delete {id : RowId} :
    (operations contexts).Alike Same (Prog.delete id : Prog α Unit) (Prog.delete id) := by
  refine .await (fun _ s t (hst : s.decoded = t.decoded) => ?_) fun _ _ _ _ => .done ()
  change (s.delete id).decoded = (t.delete id).decoded
  rw [Disk.decoded_delete, Disk.decoded_delete, hst]

/-- Whether the key is taken shows in what is decoded. -/
theorem same_add {s t : Disk α} {row : LocalRow α} (h : Same s t) :
    Same (s.add row).1 (t.add row).1 ∧ (s.add row).2 = (t.add row).2 := by
  have htaken : (s.rows.get? row.id).isSome = (t.rows.get? row.id).isSome := by
    have hrow : (s.rows.get? row.id).map opened = (t.rows.get? row.id).map opened :=
      congrFun (congrArg Decoded.rows h) row.id
    simpa only [Option.isSome_map] using congrArg Option.isSome hrow
  unfold Disk.add
  rw [htaken]
  split_ifs
  · exact ⟨h, rfl⟩
  · exact ⟨same_put h, rfl⟩

theorem alike_putValue {x : ContextId} {id : RowId} {value : α} :
    (operations contexts).Alike Same (Prog.putValue x id value) (Prog.putValue x id value) := by
  refine alike_call fun iv s t hst => ⟨hst, ?_⟩
  dsimp only [Disk.exec]
  cases (contexts x).writableKey none with
  | none => exact .throw
  | some key => exact alike_put

theorem alike_putEvent {x : ContextId} {space : SpaceId} {id : ℕ} {event : α} :
    (operations contexts).Alike Same (Prog.putEvent x space id event)
      (Prog.putEvent x space id event) := by
  refine alike_call fun iv s t hst => ⟨hst, ?_⟩
  dsimp only [Disk.exec]
  cases (contexts x).writableKey none with
  | none => exact .throw
  | some key =>
      refine .await (fun _ s t hst => (same_add hst).1) fun iv' s t hst => ?_
      change (operations contexts).Alike Same (.done (s.add _).2) (.done (t.add _).2)
      rw [(same_add hst).2]
      exact .done _

/-- Two rows of the registry that differ in their names only. -/
structure SameButName (space space' : StoredSpace) : Prop where
  id : space.id = space'.id
  createdAt : space.createdAt = space'.createdAt
  nameUpdatedAt : space.nameUpdatedAt = space'.nameUpdatedAt
  namePending : space.namePending = space'.namePending

theorem same_putSpace {s t : Disk α} {space space' : StoredSpace} (hst : Same s t)
    (h : record space = record space') :
    Same (s.putSpace space) (t.putSpace space') := by
  have hdecoded : s.decoded = t.decoded := hst
  have hid : space.id = space'.id := congrArg SpaceRecord.id h
  rw [Same, Disk.decoded_putSpace, Disk.decoded_putSpace, hdecoded, h, hid]

/-- A registry row is written under a new name, whatever it was called. -/
theorem alike_writeSpace {x : ContextId} {space space' : StoredSpace} {name : Option SpaceName}
    (h : SameButName space space') : (operations contexts).Alike Same
      (Prog.toStoredSpace x none space name >>= fun space => (Prog.putSpace space : Prog α Unit))
      (Prog.toStoredSpace x none space' name >>= fun space => Prog.putSpace space) := by
  obtain ⟨id, createdAt, before, nameUpdatedAt, namePending⟩ := space
  obtain ⟨id', createdAt', before', nameUpdatedAt', namePending'⟩ := space'
  obtain ⟨rfl, rfl, rfl, rfl⟩ := h
  have hput : ∀ stored : StoredName, (operations contexts).Alike Same
      (Prog.putSpace ⟨id, createdAt, stored, nameUpdatedAt, namePending⟩ : Prog α Unit)
      (Prog.putSpace ⟨id, createdAt, stored, nameUpdatedAt, namePending⟩) :=
    fun stored => .await (fun _ _ _ hst => same_putSpace hst rfl) fun _ _ _ _ => .done ()
  unfold Prog.toStoredSpace
  cases name with
  | none => exact hput (.plain none)
  | some name =>
      refine alike_call fun iv s t hst => ⟨hst, ?_⟩
      dsimp only [Disk.exec]
      cases (contexts x).writableKey none with
      | none => exact .throw
      | some key => exact hput _

/-- An operation that reads a registry row and writes it back under a new name. -/
theorem alike_rename {x : ContextId} {id : SpaceId} {name : Option SpaceName}
    {change : StoredSpace → StoredSpace} (hchange : ∀ space space', SameButName space space' →
      SameButName (change space) (change space')) :
    (operations contexts).Alike Same
      (Prog.getSpace id >>= fun found => match found with
        | none => (pure () : Prog α Unit)
        | some current => do
            let _ ← Prog.openName x current
            Prog.putSpace (← Prog.toStoredSpace x none (change current) name))
      (Prog.getSpace id >>= fun found => match found with
        | none => pure ()
        | some current => do
            let _ ← Prog.openName x current
            Prog.putSpace (← Prog.toStoredSpace x none (change current) name)) := by
  refine alike_call fun iv s t hst => ⟨hst, ?_⟩
  have hrecord : (s.spaces.get? id).map record = (t.spaces.get? id).map record :=
    congrFun (congrArg Decoded.spaces hst) id
  dsimp only [Disk.exec]
  cases hs : s.spaces.get? id with
  | none =>
      rw [hs, Option.map_none, eq_comm, Option.map_eq_none_iff] at hrecord
      rw [hrecord]
      exact .done ()
  | some space =>
      rw [hs, Option.map_some, eq_comm, Option.map_eq_some_iff] at hrecord
      obtain ⟨space', ht, hrecord⟩ := hrecord
      rw [ht]
      have hsame : SameButName space space' := by
        obtain ⟨hid, hcreated, _, hupdated, hpending⟩ := SpaceRecord.mk.inj hrecord
        exact ⟨hid.symm, hcreated.symm, hupdated.symm, hpending.symm⟩
      exact alike_call fun iv s t hst => ⟨hst, alike_writeSpace (hchange space space' hsame)⟩

theorem alike_program (job : Operation α) :
    (operations contexts).Alike Same job.program job.program := by
  cases job with
  | putMessage | putFile | putDeviceName => exact alike_putValue
  | deleteMessage | deleteFile => exact alike_delete
  | putEvent => exact alike_putEvent.bind fun _ => .done ()
  | renameSpace x id name =>
      exact alike_rename fun space space' h => ⟨h.id, h.createdAt, h.nameUpdatedAt, rfl⟩
  | adoptSpaceName x id name updatedAt =>
      exact alike_rename fun space space' h => ⟨h.id, h.createdAt, rfl, rfl⟩
  | removeSpace id =>
      refine .await (fun _ s t (hst : s.decoded = t.decoded) => ?_) fun _ _ _ _ => .done ()
      change (s.deleteSpace id).decoded = (t.deleteSpace id).decoded
      rw [Disk.decoded_deleteSpace, Disk.decoded_deleteSpace, hst]

/-- A device with some rewrites and some operations in flight. -/
abbrev Busy (α : Type) := Company (Disk α) Unit (Operation α) Rewrite (Op.Answer : Op α → Type)

abbrev BusyMove (α : Type) := Move AtRestIv (Operation α) Rewrite

def busyStep (contexts : ContextId → Context) : Busy α → BusyMove α → Option (Busy α) :=
  Company.step (operations contexts) (rewrites contexts)

/-- The operations alone, in the same order, come to the same, and as far. -/
def Unseen (contexts : ContextId → Context) (s : Disk α) (moves : List (BusyMove α))
    (w : Busy α) : Prop :=
  ∃ v, Runs.replay (operations contexts).step ⟨s, []⟩ (moves.filterMap Move.shown?) = some v ∧
    v.state.decoded = w.state.decoded ∧
    v.threads.map Thread.isFinished = w.shown.map Thread.isFinished

/-- Where every write-back of a rewrite finds what it read, nothing but the encoding changes. -/
theorem rewrites_unseen [DecidableEq α] {s : Disk α} {moves : List (BusyMove α)} {w : Busy α}
    (h : Runs.replayVia (busyStep contexts) (Company.Allowed (Unchanged contexts)) ⟨s, [],
      []⟩ moves = some w) :
    Unseen contexts s moves w := by
  obtain ⟨v, hrun, halike⟩ := Company.alone same_equivalence alike_program quiet_program h
    ⟨same_equivalence.refl s, rfl, by simp⟩ (by simp)
  exact ⟨v, hrun, Eq.symm halike.state, halike.finished.symm⟩

def someKey : ContentKey := ⟨.prf 0 0⟩

/-- A device with one message in the clear, and no lock. -/
def oneMessage : Disk ℕ := ⟨.singleton ⟨⟨0, .messages, 1⟩, .plain 7⟩, .empty⟩

def unlocked : ContextId → Context := fun _ => ⟨none, false⟩

/-- Some steps of a rewrite, each with its resumption. -/
def turns (n : ℕ) : List (BusyMove ℕ) :=
  (List.replicate n [.hidden (.perform 0 0), .hidden (.resume 0)]).flatten

def rewriting : BusyMove ℕ := .hidden (.start (.rewriteLocalContent 0 (some someKey) 0))

def deletion : List (BusyMove ℕ) :=
  [.shown (.start (.deleteMessage 0 1)), .shown (.perform 0 0), .shown (.resume 0)]

def through (w : Busy ℕ) : Bool := w.shown.all Thread.isFinished && w.hidden.all Thread.isFinished

/-- The message is deleted once its row has been rewritten, before the rest is. -/
theorem rewrites_unseen_later : ∃ w, through w = true ∧
    Unseen unlocked oneMessage (rewriting :: turns 5 ++ deletion ++ turns 3) w := by
  have hrun :
      (Runs.replayVia (busyStep unlocked) (Company.Allowed (Unchanged unlocked))
        ⟨oneMessage, [], []⟩
      (rewriting :: turns 5 ++ deletion ++ turns 3)).any through = true := by decide +kernel
  obtain ⟨w, hrun, hthrough⟩ := (Option.any_eq_true _ _).mp hrun
  exact ⟨w, hthrough, rewrites_unseen hrun⟩

/-- The message is deleted while its row is being sealed, and is there again. -/
theorem rewrites_undo_deletion :
    ∃ moves w, Runs.replay (busyStep unlocked) ⟨oneMessage, [], []⟩ moves = some w ∧
    through w = true ∧ ¬ Unseen unlocked oneMessage moves w := by
  let moves := rewriting :: turns 4 ++ deletion ++ turns 4
  have hrun : (Runs.replay (busyStep unlocked) ⟨oneMessage, [], []⟩ moves).any (fun w =>
      through w && decide (w.state.decoded.rows ⟨0, .messages, 1⟩ = some (some 7))) = true := by
        decide +kernel
  have halone :
      (Runs.replay (operations unlocked).step ⟨oneMessage, []⟩ (moves.filterMap Move.shown?)).any
        (fun v =>
      decide (v.state.decoded.rows ⟨0, .messages, 1⟩ = none)) = true := by decide +kernel
  obtain ⟨w, hrun, hw⟩ := (Option.any_eq_true _ _).mp hrun
  obtain ⟨hthrough, hthere⟩ := Bool.and_eq_true_iff.mp hw
  refine ⟨moves, w, hrun, hthrough, ?_⟩
  rintro ⟨v, hv, hdecoded, _⟩
  rw [hv] at halone
  have hgone : v.state.decoded.rows ⟨0, .messages, 1⟩ = none := of_decide_eq_true halone
  rw [hdecoded, of_decide_eq_true hthere] at hgone
  exact absurd hgone (Option.some_ne_none _)

end SendSelf.Recoding
