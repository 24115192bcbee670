import SendSelf.Vault.Edits

/-!
# Where an item may be moved

The client finds what is inside a folder by going through its records until nothing is added
any more, the server with a recursive query over its rows, tombstones included. They agree on
the moves that are allowed as long as nothing live is inside an item only by way of a tombstone.
-/
namespace SendSelf.MoveRules

/-- One record of a round: it is added if its parent is there and it is not. -/
def growOne (state : List ItemId × Bool) (record : VaultItem) : List ItemId × Bool :=
  if record.parentId.any (fun p => decide (p ∈ state.1)) && decide (record.id ∉ state.1) then
    (state.1 ++ [record.id], true)
  else state

def growOnce (records : List VaultItem) (subtree : List ItemId) : List ItemId × Bool :=
  records.foldl growOne (subtree, false)

/-- A record is hung under an item. -/
def Hangs (records : List VaultItem) (x y : ItemId) : Prop :=
  ∃ r ∈ records, r.id = x ∧ r.parentId = some y

/-- The items that are not inside yet. -/
def outside (records : List VaultItem) (subtree : List ItemId) : List VaultItem :=
  records.filter fun r => decide (r.id ∉ subtree)

section Rounds
variable {records : List VaultItem} {state : List ItemId × Bool}

theorem subset_grow (rs : List VaultItem) (state : List ItemId × Bool) :
    state.1 ⊆ (rs.foldl growOne state).1 := by
  induction rs generalizing state with
  | nil => exact List.Subset.refl _
  | cons r rs ih =>
      refine List.Subset.trans ?_ (ih _)
      rw [growOne]
      split_ifs
      · exact List.subset_append_left _ _
      · exact List.Subset.refl _

/-- A round that adds nothing has nothing to add. -/
theorem grow_false {rs : List VaultItem} {state : List ItemId × Bool}
    (h : (rs.foldl growOne state).2 = false) :
    rs.foldl growOne state = state ∧ ∀ r ∈ rs, ∀ p, r.parentId = some p → p ∈ state.1 →
    r.id ∈ state.1 := by
  have hgrew : ∀ (rs : List VaultItem) (subtree : List ItemId),
      (rs.foldl growOne (subtree, true)).2 = true := by
    intro rs
    induction rs with
    | nil => exact fun _ => rfl
    | cons r rs ih =>
        intro subtree
        rw [List.foldl_cons, growOne]
        split_ifs
        · exact ih _
        · exact ih _
  induction rs with
  | nil => exact ⟨rfl, fun r hr => absurd hr List.not_mem_nil⟩
  | cons r rs ih =>
      rw [List.foldl_cons, growOne] at h ⊢
      split_ifs at h ⊢ with hadd
      · exact absurd ((hgrew rs _).symm.trans h) (by decide)
      · obtain ⟨heq, hclosed⟩ := ih h
        refine ⟨heq, fun q hq p hp hin => ?_⟩
        rcases List.mem_cons.mp hq with rfl | hq
        · by_contra hout
          exact hadd (by simp [hp, hin, hout])
        · exact hclosed q hq p hp hin

/-- A round that adds something adds a record that was not there. -/
theorem grow_true {rs : List VaultItem} {subtree : List ItemId}
    (h : (rs.foldl growOne (subtree, false)).2 = true) :
    ∃ r ∈ rs, r.id ∉ subtree ∧ r.id ∈ (rs.foldl growOne (subtree, false)).1 := by
  induction rs with
  | nil => exact absurd h Bool.false_ne_true
  | cons r rs ih =>
      rw [List.foldl_cons, growOne] at h ⊢
      split_ifs at h ⊢ with hadd
      · simp only [Bool.and_eq_true, decide_eq_true_eq] at hadd
        exact ⟨r, List.mem_cons_self, hadd.2,
          subset_grow rs _ (List.mem_append_right _ List.mem_cons_self)⟩
      · obtain ⟨q, hq, hout, hin⟩ := ih h
        exact ⟨q, List.mem_cons_of_mem _ hq, hout, hin⟩

/-- Whatever holds of the items and passes on to what hangs under them holds of what is added. -/
theorem grow_sound {P : ItemId → Prop} {rs : List VaultItem}
    (hpass : ∀ r ∈ rs, ∀ p, r.parentId = some p → P p → P r.id)
    (hstate : ∀ x ∈ state.1, P x) : ∀ x ∈ (rs.foldl growOne state).1, P x := by
  induction rs generalizing state with
  | nil => exact hstate
  | cons r rs ih =>
      refine ih (fun q hq => hpass q (List.mem_cons_of_mem _ hq)) ?_
      rw [growOne]
      split_ifs with hadd
      · simp only [Bool.and_eq_true, decide_eq_true_eq, Option.any_eq_true] at hadd
        obtain ⟨⟨p, hp, hin⟩, _⟩ := hadd
        intro x hx
        rcases List.mem_append.mp hx with hx | hx
        · exact hstate x hx
        · rw [List.mem_singleton.mp hx]
          exact hpass r List.mem_cons_self p hp (hstate p hin)
      · exact hstate

theorem outside_lt {subtree : List ItemId} (h : (growOnce records subtree).2 = true) :
    (outside records (growOnce records subtree).1).length < (outside records subtree).length := by
  obtain ⟨r, hr, hout, hin⟩ := grow_true h
  have hsub : (outside records (growOnce records subtree).1).Sublist (outside records subtree) := by
    refine List.monotone_filter_right _ fun q hq => ?_
    rw [decide_eq_true_eq] at hq ⊢
    exact fun hmem => hq (subset_grow records _ hmem)
  refine lt_of_le_of_ne hsub.length_le fun hlength => ?_
  have hmem : r ∈ outside records subtree := List.mem_filter.mpr ⟨hr, by simpa using hout⟩
  rw [← hsub.eq_of_length hlength] at hmem
  have hnot := (List.mem_filter.mp hmem).2
  rw [decide_eq_true_eq] at hnot
  exact hnot hin

end Rounds

/-- Rounds until one adds nothing: each that does leaves fewer records outside. -/
def grow (records : List VaultItem) (subtree : List ItemId) : List ItemId :=
  if (growOnce records subtree).2 then grow records (growOnce records subtree).1
    else (growOnce records subtree).1
termination_by (outside records subtree).length
decreasing_by
  exact outside_lt ‹_›

def vaultSubtree (records : List VaultItem) (folderId : ItemId) : List ItemId :=
  grow records [folderId]

theorem mem_grow {records : List VaultItem} {root : ItemId} {subtree : List ItemId}
    (hroot : root ∈ subtree)
    (hbelow : ∀ x ∈ subtree, Relation.ReflTransGen (Hangs records) x root) (x : ItemId) :
    x ∈ grow records subtree ↔ Relation.ReflTransGen (Hangs records) x root := by
  induction subtree using grow.induct records with
  | case1 subtree hgrew ih =>
      rw [grow, if_pos hgrew]
      refine ih (subset_grow records _ hroot) (grow_sound (fun r hr p hp hpass => ?_) hbelow)
      exact .head ⟨r, hr, rfl, hp⟩ hpass
  | case2 subtree hgrew =>
      obtain ⟨heq, hclosed⟩ := grow_false (Bool.eq_false_iff.mpr hgrew)
      rw [grow, if_neg hgrew, growOnce, heq]
      refine ⟨hbelow x, fun h => ?_⟩
      induction h using Relation.ReflTransGen.head_induction_on with
      | refl => exact hroot
      | head hstep _ ih =>
          obtain ⟨r, hr, rfl, hp⟩ := hstep
          exact hclosed r hr _ hp ih

/-- On every set of records, whatever cycles it has. -/
theorem mem_vaultSubtree {records : List VaultItem} {root x : ItemId} :
    x ∈ vaultSubtree records root ↔ Relation.ReflTransGen (Hangs records) x root :=
  mem_grow List.mem_cons_self (fun y hy => by rw [List.mem_singleton.mp hy]) x

def canMoveInto (entry : VaultEntry) (folderId : Option ItemId) (records : List VaultItem) : Bool :=
  if folderId = entry.record.parentId then false
  else match folderId with
    | none => true
    | some folder =>
        if entry.record.kind ≠ .folder then true
        else !decide (folder ∈ vaultSubtree records entry.record.id)

/-- A request that nothing comes between the stages of: four of them answer a move. -/
def undisturbed (id : ItemId) (req : UpdateVaultItemRequest) (m : VaultMoment) (db : VaultDb) :
    VaultDb × UpdateStage :=
  (fun s : VaultDb × UpdateStage => updateVaultItem.next id req m s.1 s.2)^[4] (db, .received)

/-- Moving the item there at its current revision is accepted and changes its parent. -/
def Accepted (s : VaultServer) (entry : VaultEntry) (folderId : Option ItemId) : Prop :=
  let after := undisturbed entry.record.id (moveVaultItem entry folderId).1 (s.moment false) s.db
  s.db.parentOf entry.record.id ≠ folderId ∧
    ∃ row, after.2 = .answered (.ok row) ∧ row.parentId = folderId ∧
    after.1.vaultItem entry.record.id = some row

/-- The live items of the server. -/
def LiveRecords (db : VaultDb) (records : List VaultItem) : Prop :=
  ∀ r, r ∈ records ↔ r ∈ db.items ∧ r.live = true

/-- Client and server agree on every move. -/
def Agree (s : VaultServer) : Prop :=
  ∀ records, LiveRecords s.db records → ∀ entry : VaultEntry, entry.record ∈ records →
  ∀ folderId : Option ItemId,
    (∀ p, folderId = some p → s.db.liveFolder p = true) →
    (canMoveInto entry folderId records = true ↔ Accepted s entry folderId)

/-- The parent of a live item. -/
def liveParentOf (db : VaultDb) (id : ItemId) : Option ItemId :=
  (db.vaultItem id).bind VaultItem.parentId

/-- A live folder is inside a live item only by way of a tombstone, or of an item that is not a
folder. -/
def Hidden (db : VaultDb) : Prop :=
  ∃ r ∈ db.items, r.live = true ∧ ∃ p, db.liveFolder p = true ∧ r.parentId ≠ some p ∧
  Forest.Above db.parentOf r.id p ∧
    ¬ (r.kind = .folder ∧ Forest.Above (liveParentOf db) r.id p)

variable {db : VaultDb} {records : List VaultItem} {entry : VaultEntry} {folderId : Option ItemId}

theorem hangs_iff (h : LiveRecords db records) (x y : ItemId) :
    Hangs records x y ↔ liveParentOf db x = some y := by
  rw [liveParentOf, Option.bind_eq_some_iff]
  constructor
  · rintro ⟨r, hr, rfl, hp⟩
    obtain ⟨hmem, hlive⟩ := (h r).mp hr
    exact ⟨r, VaultDb.mem_vaultItem.mpr ⟨hmem, rfl, hlive⟩, hp⟩
  · rintro ⟨r, hr, hp⟩
    obtain ⟨hmem, hid, hlive⟩ := VaultDb.mem_vaultItem.mp hr
    exact ⟨r, (h r).mpr ⟨hmem, hlive⟩, hid, hp⟩

theorem mem_vaultSubtree_live (h : LiveRecords db records) {root x : ItemId} :
    x ∈ vaultSubtree records root ↔ Forest.Above (liveParentOf db) root x := by
  have hrel : Hangs records = fun x y => liveParentOf db x = some y := by
    funext x y
    exact propext (hangs_iff h x y)
  rw [mem_vaultSubtree, hrel]
  rfl

/-- What is inside by way of live rows is inside. -/
theorem above_of_live {a x : ItemId} (h : Forest.Above (liveParentOf db) a x) :
    Forest.Above db.parentOf a x := by
  refine h.mono fun x y hxy => ?_
  obtain ⟨r, hr, hp⟩ := Option.bind_eq_some_iff.mp hxy
  rw [VaultDb.parentOf, (Option.filter_eq_some_iff.mp hr).1]
  exact hp

theorem canMoveInto_iff (h : LiveRecords db records) :
    canMoveInto entry folderId records = true ↔ folderId ≠ entry.record.parentId ∧
      ∀ p, folderId = some p →
        ¬ (entry.record.kind = .folder ∧ Forest.Above (liveParentOf db) entry.record.id p) := by
  unfold canMoveInto
  by_cases hsame : folderId = entry.record.parentId
  · simp [hsame]
  · rw [if_neg hsame]
    cases folderId with
    | none => simp [hsame]
    | some p =>
        by_cases hkind : entry.record.kind = .folder
        · simp [hsame, hkind, mem_vaultSubtree_live h]
        · simp [hsame, hkind]

section Answer
variable {m : VaultMoment} {e : VaultItem} {req : UpdateVaultItemRequest}

/-- A request that names a new parent and nothing else. -/
def moveRequest (e : VaultItem) (parentId : Option ItemId) : UpdateVaultItemRequest :=
  ⟨e.revision, some parentId, none, none, none, none, none⟩

theorem newParent_move {parentId : Option ItemId} (h : parentId ≠ e.parentId) :
    updateVaultItem.newParent (moveRequest e parentId) e = some parentId := by
  rw [updateVaultItem.newParent, moveRequest, Option.filter_some, if_pos (by simpa using h)]

theorem afterPlace_move {parentId : Option ItemId} (groupKeyEpoch now : ℕ)
    (h : parentId ≠ e.parentId) :
    updateVaultItem.afterPlace (moveRequest e parentId) groupKeyEpoch now e =
      .ready ⟨some parentId, none, none, none⟩ := by
  have hchanges : updateVaultItem.changes (moveRequest e parentId) e none none now =
      ⟨some parentId, none, none, none⟩ := by
    rw [updateVaultItem.changes, newParent_move h]
    rfl
  show updateVaultItem.prepare e (updateVaultItem.changes _ e none none now) = _
  rw [hchanges, updateVaultItem.prepare, if_neg (by simp [updateVaultItem.nothing])]

theorem next_received {id : ItemId} (hm : m.limited = false) :
    updateVaultItem.next id req m db .received = (db, .authed m.groupKeyEpoch) := by
  rw [updateVaultItem.next, rateLimit, hm]
  rfl

theorem next_ready {id : ItemId} (c : VaultDb.ItemChanges) :
    updateVaultItem.next id req m db (.ready c) =
    ((db.update id req.revision c m.now).1,
      .answered (match (db.update id req.revision c m.now).2 with
      | some row => .ok row
      | none => .error updateVaultItem.stale)) := rfl

theorem next_answered {id : ItemId} (a : Except ApiError VaultItem) :
    updateVaultItem.next id req m db (.answered a) = (db, .answered a) := rfl

/-- A move to the top level. -/
theorem undisturbed_top (hitem : db.vaultItem e.id = some e) (hm : m.limited = false)
    (hne : e.parentId ≠ none) :
    undisturbed e.id (moveRequest e none) m db =
      updateVaultItem.next e.id (moveRequest e none) m db
        (.ready ⟨some none, none, none, none⟩) := by
  have hauthed : updateVaultItem.next e.id (moveRequest e none) m db (.authed m.groupKeyEpoch) =
      (db, .ready ⟨some none, none, none, none⟩) := by
    rw [updateVaultItem.next, hitem]
    dsimp only
    rw [updateVaultItem.afterRead, if_neg (by simp [moveRequest]), newParent_move (Ne.symm hne)]
    dsimp only
    rw [afterPlace_move _ _ (Ne.symm hne)]
  simp only [undisturbed, Function.iterate_succ_apply, Function.iterate_zero_apply,
    next_received hm, hauthed, next_ready,
    next_answered]

/-- A move into another folder that is there. -/
theorem undisturbed_into {p : ItemId} (hitem : db.vaultItem e.id = some e) (hm : m.limited = false)
    (hne : e.parentId ≠ some p) (hself : p ≠ e.id) (hfolder : db.liveFolder p = true) :
    undisturbed e.id (moveRequest e (some p)) m db =
      updateVaultItem.next e.id (moveRequest e (some p)) m db
        (.ready ⟨some (some p), none, none, none⟩) := by
  have hauthed : updateVaultItem.next e.id (moveRequest e (some p)) m db (.authed m.groupKeyEpoch) =
      (db, .moving m.groupKeyEpoch e p) := by
    rw [updateVaultItem.next, hitem]
    dsimp only
    rw [updateVaultItem.afterRead, if_neg (by simp [moveRequest]), newParent_move (Ne.symm hne)]
    dsimp only
    rw [if_neg hself]
  have hmoving :
      updateVaultItem.next e.id (moveRequest e (some p)) m db (.moving m.groupKeyEpoch e p) =
      (db, .ready ⟨some (some p), none, none, none⟩) := by
    obtain ⟨folder, hmem, hcond⟩ := Table.exist_iff.mp hfolder
    simp only [Bool.and_eq_true, decide_eq_true_eq] at hcond
    have hread : db.vaultItem p = some folder :=
      VaultDb.mem_vaultItem.mpr ⟨hmem, hcond.1.1, hcond.2⟩
    rw [updateVaultItem.next, requireFolder, hread, Option.any_some,
      if_pos (decide_eq_true hcond.1.2)]
    show (db, updateVaultItem.afterPlace (moveRequest e (some p)) m.groupKeyEpoch m.now e) = _
    rw [afterPlace_move _ _ (Ne.symm hne)]
  simp only [undisturbed, Function.iterate_succ_apply, Function.iterate_zero_apply,
    next_received hm, hauthed, hmoving]

/-- A folder does not go into itself. -/
theorem undisturbed_self (hitem : db.vaultItem e.id = some e) (hm : m.limited = false)
    (hne : e.parentId ≠ some e.id) :
    (undisturbed e.id (moveRequest e (some e.id)) m db).2 =
      .answered (.error ⟨.bad_request, "A folder cannot hold itself"⟩) := by
  have hauthed :
      updateVaultItem.next e.id (moveRequest e (some e.id)) m db (.authed m.groupKeyEpoch) =
      (db, .answered (.error ⟨.bad_request, "A folder cannot hold itself"⟩)) := by
    rw [updateVaultItem.next, hitem]
    dsimp only
    rw [updateVaultItem.afterRead, if_neg (by simp [moveRequest]), newParent_move (Ne.symm hne)]
    dsimp only
    rw [if_pos rfl]
  simp only [undisturbed, Function.iterate_succ_apply, Function.iterate_zero_apply,
    next_received hm, hauthed, next_answered]

/-- The statement moves the item if the guard lets it. -/
theorem update_move (parentId : Option ItemId) (now : ℕ) (hitem : db.vaultItem e.id = some e) :
    (db.update e.id e.revision ⟨some parentId, none, none, none⟩ now).2.isSome =
        parentId.all (fun p => db.liveFolder p && !db.subtree e.id p) ∧
      ∀ row, (db.update e.id e.revision ⟨some parentId, none, none, none⟩ now).2 = some row →
        row.parentId = parentId ∧
          (db.update e.id e.revision ⟨some parentId, none, none, none⟩ now).1.vaultItem e.id =
            some row := by
  have hguard : (db.vaultItem e.id).filter (fun r => decide (r.revision = e.revision) &&
      (⟨some parentId, none, none, none⟩ : VaultDb.ItemChanges).guard e.id db) =
        if parentId.all (fun p => db.liveFolder p && !db.subtree e.id p) = true then some e
        else none := by
    rw [hitem, Option.filter_some]
    simp only [VaultDb.ItemChanges.guard, decide_true, Bool.true_and, Option.all_some,
      Option.all_none, Bool.and_true]
  rw [VaultDb.update, VaultDb.change_answer, hguard]
  split_ifs with hall
  · refine ⟨hall.symm, fun row hrow => ?_⟩
    obtain rfl := Option.some.inj hrow
    rw [if_pos hall] at hguard
    exact ⟨rfl, VaultDb.vaultItem_change_some hguard rfl⟩
  · refine ⟨(Bool.eq_false_iff.mpr hall).symm, fun row hrow => absurd hrow ?_⟩
    exact (Option.some_ne_none row).symm

end Answer

/-- What the statement answers is what the call answers. -/
theorem answered_iff {s : VaultServer} {e : VaultItem} (hitem : s.db.vaultItem e.id = some e)
    (hready : undisturbed e.id (moveRequest e folderId) (s.moment false) s.db =
      updateVaultItem.next e.id (moveRequest e folderId) (s.moment false) s.db
        (.ready ⟨some folderId, none, none, none⟩)) :
    (∃ row, (undisturbed e.id (moveRequest e folderId) (s.moment false) s.db).2 =
      .answered (.ok row) ∧
        row.parentId = folderId ∧
        (undisturbed e.id (moveRequest e folderId) (s.moment false) s.db).1.vaultItem e.id =
          some row) ↔
      folderId.all (fun p => s.db.liveFolder p && !s.db.subtree e.id p) = true := by
  obtain ⟨hsome, hrow⟩ := update_move folderId (s.moment false).now hitem
  rw [hready, next_ready, ← hsome, moveRequest]
  constructor
  · rintro ⟨row, hanswer, _, _⟩
    cases hwrite :
      (s.db.update e.id e.revision ⟨some folderId, none, none, none⟩ (s.moment false).now).2 with
    | some row => rfl
    | none =>
        rw [hwrite] at hanswer
        exact absurd hanswer (by simp)
  · intro hisSome
    obtain ⟨row, hwrite⟩ := Option.isSome_iff_exists.mp hisSome
    obtain ⟨hparent, hafter⟩ := hrow row hwrite
    exact ⟨row, by rw [hwrite], hparent, hafter⟩

/-- The server lets an item go anywhere else but inside itself. -/
theorem accepted_iff {s : VaultServer} (hmem : entry.record ∈ s.db.items)
    (hlive : entry.record.live = true)
    (hfolder : ∀ p, folderId = some p → s.db.liveFolder p = true) :
    Accepted s entry folderId ↔ folderId ≠ entry.record.parentId ∧
      ∀ p, folderId = some p → ¬ Forest.Above s.db.parentOf entry.record.id p := by
  have hitem : s.db.vaultItem entry.record.id = some entry.record :=
    VaultDb.mem_vaultItem.mpr ⟨hmem, rfl, hlive⟩
  have hparent : s.db.parentOf entry.record.id = entry.record.parentId := by
    rw [VaultDb.parentOf, Table.get?_of_mem hmem, Option.bind_some]
  have hrequest : (moveVaultItem entry folderId).1 = moveRequest entry.record folderId := rfl
  rw [Accepted, hparent, hrequest, ne_comm]
  refine and_congr_right fun hne => ?_
  cases folderId with
  | none => exact (answered_iff hitem (undisturbed_top hitem rfl (Ne.symm hne))).trans (by simp)
  | some p =>
      by_cases hself : p = entry.record.id
      · subst hself
        refine iff_of_false ?_ fun hnot => hnot _ rfl (Forest.above_refl _)
        rintro ⟨row, hanswer, _⟩
        rw [undisturbed_self hitem rfl (Ne.symm hne)] at hanswer
        exact absurd hanswer (by simp)
      · refine (answered_iff hitem
          (undisturbed_into hitem rfl (Ne.symm hne) hself (hfolder p rfl))).trans ?_
        rw [Option.all_some, hfolder p rfl, Bool.true_and, Bool.not_eq_true', ← Bool.not_eq_true,
          VaultDb.subtree_iff]
        simp

theorem agree_iff (s : VaultServer) : Agree s ↔ ¬ Hidden s.db := by
  constructor
  · rintro hagree ⟨r, hr, hlive, p, hp, hne, habove, hnot⟩
    have hrecords : LiveRecords s.db (s.db.items.select VaultItem.live) := fun q => Table.mem_select
    have hmem : r ∈ s.db.items.select VaultItem.live := Table.mem_select.mpr ⟨hr, hlive⟩
    have hfolder : ∀ q, some p = some q → s.db.liveFolder q = true :=
      fun q hq => Option.some.inj hq ▸ hp
    have hboth := hagree _ hrecords ⟨r, none⟩ hmem (some p) hfolder
    rw [canMoveInto_iff hrecords, accepted_iff hr hlive hfolder] at hboth
    refine (hboth.mp ⟨Ne.symm hne, fun q hq => ?_⟩).2 p rfl habove
    obtain rfl := Option.some.inj hq
    exact hnot
  · intro hhidden records hrecords entry hentry folderId hfolder
    obtain ⟨hmem, hlive⟩ := (hrecords entry.record).mp hentry
    rw [canMoveInto_iff hrecords, accepted_iff hmem hlive hfolder]
    refine and_congr_right fun hne => forall₂_congr fun p hp =>
      not_congr ⟨fun hin => above_of_live hin.2, fun habove => ?_⟩
    by_contra hnot
    subst hp
    exact hhidden ⟨entry.record, hmem, hlive, p, hfolder p rfl, Ne.symm hne, habove, hnot⟩

/-- In a forest of live folders nothing is hidden. -/
theorem not_hidden_of_forest {s : VaultServer} (h : s.LiveForest) (hquiet : s.Quiet) :
    ¬ Hidden s.db := by
  rintro ⟨r, hr, hlive, p, hp, _, habove, hnot⟩
  obtain ⟨folder, hfolder, hcond⟩ := Table.exist_iff.mp hp
  simp only [Bool.and_eq_true, decide_eq_true_eq] at hcond
  obtain ⟨⟨rfl, hkind⟩, hflive⟩ := hcond
  have hup := (h.rooted hquiet folder hfolder hflive).1
  have hlivefolder : ∀ a, Forest.Above s.db.parentOf a folder.id → s.db.liveFolder a = true := by
    intro a ha
    by_cases he : a = folder.id
    · rw [he]
      exact hp
    · exact hup a ha he
  refine hnot ⟨?_, habove.congr fun a ha => ?_⟩
  · obtain ⟨q, hq, hcond⟩ := Table.exist_iff.mp (hlivefolder r.id habove)
    simp only [Bool.and_eq_true, decide_eq_true_eq] at hcond
    rw [← Table.eq_of_key hq hr hcond.1.1]
    exact hcond.1.2
  · obtain ⟨q, hq, hcond⟩ := Table.exist_iff.mp (hlivefolder a ha)
    simp only [Bool.and_eq_true, decide_eq_true_eq] at hcond
    obtain ⟨⟨rfl, _⟩, hqlive⟩ := hcond
    rw [liveParentOf, VaultDb.mem_vaultItem.mpr ⟨hq, rfl, hqlive⟩, VaultDb.parentOf,
      Table.get?_of_mem hq]

/-- The closure on both sides, where they agree, and that they do in every run whose steps are
careful. -/
theorem moves_agree (s : VaultServer) :
    (∀ records root x, x ∈ vaultSubtree records root ↔
      Relation.ReflTransGen (Hangs records) x root) ∧
      (Agree s ↔ ¬ Hidden s.db) ∧
      (Runs.ReachableVia VaultServer.step VaultServer.Careful .new s → s.Quiet → Agree s) :=
  ⟨fun _ _ _ => mem_vaultSubtree, agree_iff s,
    fun hreach hquiet =>
      (agree_iff s).mpr (not_hidden_of_forest (VaultServer.live_forest hreach) hquiet)⟩

/-- A folder and what is in it are purged; then three folders are made, one in another, and the
innermost is moved to the top level. -/
theorem moves_agree_purged : ∃ s,
    Runs.ReachableVia VaultServer.step VaultServer.Careful .new s ∧ s.Quiet ∧
      s.db.liveCount = 3 ∧ Agree s := by
  have hrun : (Runs.replayVia VaultServer.step VaultServer.Careful .new
      (VaultServer.purgedFolder ++ VaultServer.whole 3 (VaultServer.newFolder 3 none) 3 ++
        VaultServer.whole 4 (VaultServer.newFolder 4 (some 3)) 4 ++
        VaultServer.whole 5 (VaultServer.newFolder 5 (some 4)) 4 ++
        VaultServer.whole 6 (VaultServer.moveTo 5 none) 3)).any
        (fun s => decide (s.Quiet ∧ s.db.liveCount = 3)) = true := by decide
  obtain ⟨s, hs, hstate⟩ := (Option.any_eq_true _ _).mp hrun
  obtain ⟨hquiet, hcount⟩ := of_decide_eq_true hstate
  have hreach := Runs.reachableVia_of_replayVia hs
  exact ⟨s, hreach, hquiet, hcount, (moves_agree s).2.2 hreach hquiet⟩

/-- Folder 4 was left behind in the purged folder 2, which is in folder 3: the client lets 3
go into 4, and the server does not. -/
theorem moves_disagree :
    ∃ s, Runs.ReachableVia VaultServer.step VaultServer.FreshIds .new s ∧ s.Quiet ∧
    ∃ entry : VaultEntry, s.db.vaultItem 3 = some entry.record ∧ s.db.liveFolder 4 = true ∧
      canMoveInto entry (some 4) (s.db.items.select VaultItem.live) = true ∧
      ¬ Accepted s entry (some 4) ∧ ¬ Agree s := by
  have hrun :
      (Runs.replayVia VaultServer.step VaultServer.FreshIds .new VaultServer.strandedFolder).any
        (fun s =>
      decide (s.Quiet ∧ (s.db.vaultItem 3).any (fun r => decide (r.parentId = none)) = true ∧
        s.db.liveFolder 4 = true ∧
        s.db.subtree 3 4 = true ∧ liveParentOf s.db 4 = some 2 ∧
        liveParentOf s.db 2 = none)) = true := by decide
  obtain ⟨s, hs, hstate⟩ := (Option.any_eq_true _ _).mp hrun
  obtain ⟨hquiet, hitem, hfolder, hinside, hfour, htwo⟩ := of_decide_eq_true hstate
  obtain ⟨r, hr, hparent⟩ := (Option.any_eq_true _ _).mp hitem
  obtain ⟨hmem, hid, hlive⟩ := VaultDb.mem_vaultItem.mp hr
  have htop : r.parentId = none := of_decide_eq_true hparent
  have hrecords : LiveRecords s.db (s.db.items.select VaultItem.live) := fun q => Table.mem_select
  have hfolders : ∀ p, some 4 = some p → s.db.liveFolder p = true :=
    fun p hp => Option.some.inj hp ▸ hfolder
  have hnot : ¬ Forest.Above (liveParentOf s.db) r.id 4 := by
    intro habove
    rcases Forest.above_iff.mp habove with he | ⟨y, hy, habove⟩
    · exact absurd (he.trans hid) (by decide)
    · obtain rfl := Option.some.inj (hfour.symm.trans hy)
      rcases Forest.above_iff.mp habove with he | ⟨z, hz, _⟩
      · exact absurd (he.trans hid) (by decide)
      · exact absurd (htwo.symm.trans hz) (Option.some_ne_none z).symm
  have hclient : canMoveInto ⟨r, none⟩ (some 4) (s.db.items.select VaultItem.live) = true := by
    refine (canMoveInto_iff hrecords).mpr ⟨by simp [htop], fun p hp hin => hnot ?_⟩
    rw [Option.some.inj hp]
    exact hin.2
  have hserver : ¬ Accepted s ⟨r, none⟩ (some 4) := by
    intro haccepted
    refine ((accepted_iff hmem hlive hfolders).mp haccepted).2 4 rfl ?_
    rw [hid]
    exact VaultDb.subtree_iff.mp hinside
  refine ⟨s, Runs.reachableVia_of_replayVia hs, hquiet, ⟨r, none⟩, hr, hfolder, hclient, hserver,
    fun hagree => hserver ?_⟩
  exact (hagree _ hrecords ⟨r, none⟩ (Table.mem_select.mpr ⟨hmem, hlive⟩) (some 4) hfolders).mp
    hclient

end SendSelf.MoveRules
