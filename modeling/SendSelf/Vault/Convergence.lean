import SendSelf.Vault.Copy

/-!
# The copies converge

What a pull tells of the table's history, what the two copies hold of it through every
interleaving of passes and late answers, and that they are the table whenever a pass is
current to it.
-/
namespace SendSelf
open Replica

namespace VaultPull

variable {pull : VaultPull} {base : ItemId → Option VaultItem} {x : ItemId}

/-- What the pages so far say of an item, if they say anything. -/
def told (pull : VaultPull) (x : ItemId) : Option (Option VaultItem) :=
  if x ∈ pull.removed then some none
  else match pull.items.get? x with
    | some item => some (some item)
    | none => if pull.rebuilding then some none else none

theorem view_eq_told (base : ItemId → Option VaultItem) (x : ItemId) :
    pull.view base x = (pull.told x).getD (base x) := by
  unfold view told
  split_ifs
  · rfl
  · cases pull.items.get? x <;> rfl
  · cases pull.items.get? x <;> rfl

/-- What does not depend on the copy is told. -/
theorem told_of_view {v : Option VaultItem} (r : VaultItem) (h : ∀ base, pull.view base x = v) :
    pull.told x = some v := by
  cases htold : pull.told x with
  | some w =>
    have hw := h fun _ => none
    rw [view_eq_told, htold] at hw
    exact congrArg some hw
  | none =>
    have hnone := h fun _ => none
    have hsome := h fun _ => some r
    rw [view_eq_told, htold] at hnone hsome
    exact absurd (hnone.trans hsome.symm) (Option.some_ne_none r).symm

theorem told_congr {pull' : VaultPull} (r : VaultItem)
    (h : ∀ base, pull'.view base x = pull.view base x) :
    pull'.told x = pull.told x := by
  cases htold : pull.told x with
  | some v => exact told_of_view r fun base => by rw [h, view_eq_told, htold]; rfl
  | none =>
    cases htold' : pull'.told x with
    | none => rfl
    | some v =>
      have hnone := h fun _ => none
      have hsome := h fun _ => some r
      rw [view_eq_told, view_eq_told, htold, htold'] at hnone hsome
      exact absurd (hnone.symm.trans hsome) (Option.some_ne_none r).symm

theorem told_of_rebuilding (h : pull.rebuilding = true) : pull.told x ≠ none := by
  unfold told
  split_ifs
  · exact Option.some_ne_none _
  · cases pull.items.get? x <;> simp

theorem told_item {c : VaultItem} (h : pull.told x = some (some c)) :
    c ∈ pull.items ∧ c.id = x := by
  unfold told at h
  split_ifs at h
  · cases Option.some.inj h
  · cases hget : pull.items.get? x with
    | none => simp [hget] at h
    | some item =>
      rw [hget] at h
      obtain rfl := Option.some.inj (Option.some.inj h)
      exact Table.get?_eq_some.mp hget
  · cases hget : pull.items.get? x with
    | none => simp [hget] at h
    | some item =>
      rw [hget] at h
      obtain rfl := Option.some.inj (Option.some.inj h)
      exact Table.get?_eq_some.mp hget

end VaultPull

/-- A record is put, or a known one that is not older is kept. -/
structure Stores (f : Table VaultItem.id → VaultItem → Table VaultItem.id) : Prop where
  other : ∀ t i y, y ≠ i.id → (f t i).get? y = t.get? y
  self : ∀ t i, (f t i).get? i.id = some i ∨
    ((f t i).get? i.id = t.get? i.id ∧ ∃ known, t.get? i.id = some known ∧ i.seq ≤ known.seq)

theorem stores_putNewer : Stores putNewer where
  other := fun t i y hy => by
    unfold putNewer
    split_ifs
    · rw [Table.get?_put, if_neg hy]
    · rfl
  self := fun t i => by
    unfold putNewer
    split_ifs with hnewer
    · exact Or.inl (by rw [Table.get?_put, if_pos rfl])
    · refine Or.inr ⟨rfl, ?_⟩
      unfold isNewer at hnewer
      cases hknown : t.get? i.id with
      | none => simp [hknown] at hnewer
      | some known =>
        rw [hknown, Option.all_some, decide_eq_true_eq] at hnewer
        exact ⟨known, rfl, not_lt.mp hnewer⟩

theorem stores_storeRecord : Stores storeRecord where
  other := fun t i y hy => by
    unfold storeRecord
    split_ifs
    · rw [Table.get?_put, if_neg hy]
    · rfl
  self := fun t i => by
    unfold storeRecord
    split_ifs with hnewer
    · exact Or.inl (by rw [Table.get?_put, if_pos rfl])
    · refine Or.inr ⟨rfl, ?_⟩
      cases hknown : t.get? i.id with
      | none => simp [hknown] at hnewer
      | some known =>
        rw [hknown, Option.all_some, decide_eq_true_eq] at hnewer
        exact ⟨known, rfl, (not_le.mp hnewer).le⟩

section Folding

variable {f : Table VaultItem.id → VaultItem → Table VaultItem.id} (hf : Stores f)
include hf

theorem Stores.fold_other {items : List VaultItem} {t : Table VaultItem.id} {x : ItemId}
    (hx : ∀ r ∈ items, r.id ≠ x) :
    (items.foldl f t).get? x = t.get? x := by
  induction items generalizing t with
  | nil => rfl
  | cons i items ih =>
    rw [List.foldl_cons, ih fun r hr => hx r (List.mem_cons_of_mem _ hr),
      hf.other t i x (hx i List.mem_cons_self).symm]

theorem Stores.fold_self {items : List VaultItem} (hnodup : (items.map VaultItem.id).Nodup)
    {t : Table VaultItem.id}
    {i : VaultItem} (hi : i ∈ items) : (items.foldl f t).get? i.id = some i ∨
      ((items.foldl f t).get? i.id = t.get? i.id ∧ ∃ known, t.get? i.id = some known ∧
        i.seq ≤ known.seq) := by
  induction items generalizing t with
  | nil => exact absurd hi List.not_mem_nil
  | cons j items ih =>
    obtain ⟨hj, hnodup⟩ := List.nodup_cons.mp hnodup
    rw [List.foldl_cons]
    rcases List.mem_cons.mp hi with rfl | hi
    · rw [hf.fold_other fun r hr he => hj (List.mem_map.mpr ⟨r, hr, he⟩)]
      exact hf.self t i
    · have hne : i.id ≠ j.id := fun he => hj (List.mem_map.mpr ⟨i, hi, he⟩)
      rw [← hf.other t j i.id hne]
      exact ih hnodup hi

/-- `storeVaultChanges` and `applyVaultChanges` take over what the pages told. -/
theorem Stores.applied {pull : VaultPull} (hapart : ∀ r ∈ pull.items, r.id ∉ pull.removed)
    (t : Table VaultItem.id) :
    Applied VaultItem.seq pull.told t.get?
      (pull.items.rows.foldl f ((if pull.rebuilding then .empty else t).delete
      fun r => decide (r.id ∈ pull.removed))).get? := by
  intro x
  have hbefore :
      ((if pull.rebuilding then Table.empty else t).delete fun r =>
        decide (r.id ∈ pull.removed)).get? x =
      if x ∈ pull.removed then none else if pull.rebuilding then none else t.get? x := by
    ext r
    rw [Table.get?_eq_some, Table.mem_delete, decide_eq_false_iff_not]
    split_ifs with hre hmem hmem
    · exact iff_of_false (fun h' => Table.not_mem_empty h'.1.1) fun h => by cases h
    · exact iff_of_false (fun h' => Table.not_mem_empty h'.1.1) fun h => by cases h
    · exact iff_of_false (fun h' => h'.1.2 (h'.2 ▸ hmem)) fun h => by cases h
    · rw [Table.get?_eq_some]
      exact ⟨fun h' => ⟨h'.1.1, h'.2⟩, fun h' => ⟨⟨h'.1, fun hr => hmem (h'.2 ▸ hr)⟩, h'.2⟩⟩
  have hrest : pull.items.get? x = none →
      (pull.items.rows.foldl f ((if pull.rebuilding then .empty else t).delete
      fun r => decide (r.id ∈ pull.removed))).get? x = if x ∈ pull.removed then none else
        if pull.rebuilding then none else t.get? x := by
    intro hnone
    rw [hf.fold_other (Table.get?_eq_none.mp hnone), hbefore]
  have hself : ∀ i,
      pull.items.get? x =
        some i → x ∉ pull.removed →
          (pull.items.rows.foldl f ((if pull.rebuilding then .empty else t).delete
            fun r => decide (r.id ∈ pull.removed))).get? x = some i ∨
        ((pull.items.rows.foldl f
        ((if pull.rebuilding then .empty else t).delete fun r => decide (r.id ∈ pull.removed))).get?
          x = t.get? x ∧
          ∃ known, t.get? x = some known ∧ i.seq ≤ known.seq) := by
    intro i hget hmem
    obtain ⟨hi, rfl⟩ := Table.get?_eq_some.mp hget
    refine (hf.fold_self pull.items.nodup hi).imp_right fun hold => ?_
    obtain ⟨hsame, known, hknown, hle⟩ := hold
    rw [hbefore, if_neg hmem] at hsame hknown
    by_cases hre : pull.rebuilding = true
    · rw [if_pos hre] at hknown
      cases hknown
    · rw [if_neg hre] at hknown
      exact ⟨hsame.trans (if_neg hre), known, hknown, hle⟩
  generalize (pull.items.rows.foldl f ((if pull.rebuilding then .empty else t).delete
    fun r => decide (r.id ∈ pull.removed))).get? x = v at hrest hself ⊢
  unfold VaultPull.told
  by_cases hmem : x ∈ pull.removed
  · have hnone : pull.items.get? x = none :=
      Table.get?_eq_none.mpr fun r hr he => hapart r hr (he ▸ hmem)
    rw [if_pos hmem]
    exact (hrest hnone).trans (if_pos hmem)
  · rw [if_neg hmem]
    cases hget : pull.items.get? x with
    | none =>
      have hx := (hrest hget).trans (if_neg hmem)
      by_cases hre : pull.rebuilding = true
      · rw [if_pos hre] at hx
        simp only [hre, if_true]
        exact hx
      · rw [if_neg hre] at hx
        simp only [Bool.eq_false_iff.mpr hre, Bool.false_eq_true, if_false]
        exact hx
    | some i => exact hself i hget hmem

end Folding

/-- `last` is the last version of every row that ever was. -/
structure VaultDb.History (db : VaultDb) (last : ItemId → Option VaultItem) : Prop where
  rows : ∀ r ∈ db.items, last r.id = some r
  known : ∀ x r, last x = some r → r.id = x ∧ 0 < r.seq ∧ r.seq ≤ db.seq
  lost : ∀ x r, last x = some r → r ∈ db.items ∨ (r.removed = true ∧ r.seq ≤ db.floor)

namespace VaultDb

variable {db : VaultDb} {last : ItemId → Option VaultItem}

/-- A live item is the last version of its row, and is shown. -/
theorem History.vaultItem (h : db.History last) (x : ItemId) :
    db.vaultItem x = (last x).bind (shown VaultItem.removed) := by
  cases hlast : last x with
  | none =>
    refine Option.eq_none_iff_forall_not_mem.mpr fun r hr => ?_
    obtain ⟨hmem, rfl, _⟩ := mem_vaultItem.mp hr
    exact absurd ((h.rows r hmem).symm.trans hlast) (Option.some_ne_none r)
  | some r =>
    rw [Option.bind_some]
    rcases h.lost x r hlast with hmem | ⟨hremoved, _⟩
    · obtain ⟨rfl, _⟩ := h.known x r hlast
      rw [VaultDb.vaultItem, Table.get?_of_mem hmem, Option.filter_some, shown, VaultItem.removed]
      cases r.live <;> rfl
    · rw [shown, if_pos hremoved]
      refine Option.eq_none_iff_forall_not_mem.mpr fun q hq => ?_
      obtain ⟨hmem, rfl, hlive⟩ := mem_vaultItem.mp hq
      obtain rfl := Option.some.inj (hlast.symm.trans (h.rows q hmem))
      rw [VaultItem.removed, hlive] at hremoved
      exact Bool.noConfusion hremoved

/-- The history after a batch. -/
def lastAfter (db' : VaultDb) (last : ItemId → Option VaultItem) (id : ItemId) : Option VaultItem :=
  (db'.items.get? id).or (last id)

theorem lastAfter_cases {db' : VaultDb} {x : ItemId} {r : VaultItem}
    (h : db'.lastAfter last x = some r) :
    (r ∈ db'.items ∧ r.id = x) ∨ ((∀ s ∈ db'.items, s.id ≠ x) ∧ last x = some r) := by
  unfold lastAfter at h
  cases hget : db'.items.get? x with
  | some s =>
    rw [hget, Option.some_or] at h
    obtain rfl := Option.some.inj h
    exact Or.inl (Table.get?_eq_some.mp hget)
  | none =>
    rw [hget, Option.none_or] at h
    exact Or.inr ⟨Table.get?_eq_none.mp hget, h⟩

theorem lastAfter_row {db' : VaultDb} {r : VaultItem} (h : r ∈ db'.items) :
    db'.lastAfter last r.id = some r := by
  rw [lastAfter, Table.get?_of_mem h, Option.some_or]

theorem History.grows (h : db.History last) (hn : db.Numbered) (batch : VaultBatch) :
    Grows VaultItem.seq last ((batch.commit db).lastAfter last) db.seq where
  changed := fun x r hr => by
    rcases lastAfter_cases hr with ⟨hmem, rfl⟩ | ⟨_, hold⟩
    · exact ((batch.commit_later hn).rows r hmem).imp_left (h.rows r)
    · exact Or.inl hold
  kept := fun x r hr => by
    by_cases hex : ∃ s ∈ (batch.commit db).items, s.id = x
    · obtain ⟨s, hs, rfl⟩ := hex
      refine ⟨s, lastAfter_row hs, ?_⟩
      rcases (batch.commit_later hn).rows s hs with hold | hnew
      · exact Or.inl (Option.some.inj ((h.rows s hold).symm.trans hr))
      · exact Or.inr ((h.known _ r hr).2.2.trans_lt hnew)
    · push Not at hex
      exact ⟨r, by rw [lastAfter, Table.get?_eq_none.mpr hex, Option.none_or, hr], Or.inl rfl⟩

theorem History.commit (h : db.History last) (hn : db.Numbered) (batch : VaultBatch) :
    (batch.commit db).History ((batch.commit db).lastAfter last) where
  rows := fun r hr => lastAfter_row hr
  known := fun x r hr => by
    rcases lastAfter_cases hr with ⟨hmem, rfl⟩ | ⟨_, hold⟩
    · have hn' := batch.commit_numbered hn
      exact ⟨rfl, hn'.pos r hmem, hn'.le_top r hmem⟩
    · obtain ⟨hid, hpos, hle⟩ := h.known x r hold
      exact ⟨hid, hpos, hle.trans (batch.commit_later hn).top⟩
  lost := fun x r hr => by
    rcases lastAfter_cases hr with ⟨hmem, rfl⟩ | ⟨hnone, hold⟩
    · exact Or.inl hmem
    · obtain ⟨rfl, _⟩ := h.known x r hold
      have hlater := batch.commit_later hn
      rcases h.lost _ r hold with hmem | ⟨hremoved, hle⟩
      · exact Or.inr ((hlater.lost r hmem).resolve_left fun ⟨s, hs, hid⟩ => hnone s hs hid)
      · exact Or.inr ⟨hremoved, hle.trans hlater.floor⟩

theorem history_new : VaultDb.new.History fun _ => none where
  rows := fun _ hr => (Table.not_mem_empty hr).elim
  known := fun _ _ hr => absurd hr (Option.some_ne_none _).symm
  lost := fun _ _ hr => absurd hr (Option.some_ne_none _).symm

end VaultDb

/-- What the pages of a pull tell that began at `since` when the space's number was `started`. -/
structure VaultPull.Tells (since started : ℕ) (db : VaultDb) (last : ItemId → Option VaultItem)
    (pull : VaultPull) :
    Prop where
  tidy : pull.Tidy since
  le : pull.cursor ≤ db.seq
  started_le : started ≤ db.seq
  since_le : pull.rebuilding = false → 0 < since ∧ since ≤ pull.cursor
  brings : Brings VaultItem.seq VaultItem.removed last since pull.cursor pull.told
  recent : ∀ r ∈ pull.items, ∀ q, last r.id = some q → q.removed = true → started < q.seq
  lost : ∀ x r, last x = some r → r ∈ db.items ∨ (r.removed = true ∧ r.seq ≤ started)

namespace VaultPull

variable {since started : ℕ} {db : VaultDb} {last : ItemId → Option VaultItem} {pull : VaultPull}

theorem tells_begin (h : db.History last) (hsince : since ≤ db.seq) :
    (VaultPull.begin since).Tells since db.seq db last where
  tidy := ⟨fun _ hr => (Table.not_mem_empty hr).elim, fun _ _ hr => (Table.not_mem_empty hr).elim⟩
  le := hsince
  started_le := le_rfl
  since_le := fun hre => ⟨Nat.pos_of_ne_zero (of_decide_eq_false hre), le_rfl⟩
  brings := by
    refine ⟨fun x r v hr hle htold => ?_, fun x r _ hle _ => hle,
      fun x c hc => (Table.not_mem_empty (told_item hc).1).elim⟩
    have hzero : since ≠ 0 := fun he => absurd (h.known x r hr).2.1 (not_lt.mpr (he ▸ hle))
    have hget : (Table.empty : Table VaultItem.id).get? x = none :=
      Table.get?_eq_none.mpr fun _ hq => (Table.not_mem_empty hq).elim
    simp [told, VaultPull.begin, hget, hzero] at htold
  recent := fun _ hr => (Table.not_mem_empty hr).elim
  lost := fun x r hr => (h.lost x r hr).imp_right fun hlost => ⟨hlost.1, (h.known x r hr).2.2⟩

/-- Between two pages. -/
theorem Tells.commit (h : pull.Tells since started db last) (hhistory : db.History last)
    (hn : db.Numbered) {batch : VaultBatch}
    (hkept : ∀ r ∈ db.items, started < r.seq → ∃ s ∈ (batch.commit db).items, s.id = r.id) :
    pull.Tells since started (batch.commit db) ((batch.commit db).lastAfter last) where
  tidy := h.tidy
  le := h.le.trans (batch.commit_later hn).top
  started_le := h.started_le.trans (batch.commit_later hn).top
  since_le := h.since_le
  brings := h.brings.grows (hhistory.grows hn batch) h.le
  recent := fun r hr q hq hremoved => by
    rcases (hhistory.grows hn batch).changed _ q hq with hold | hnew
    · exact h.recent r hr q hold hremoved
    · exact h.started_le.trans_lt hnew
  lost := fun x r hr => by
    rcases VaultDb.lastAfter_cases hr with ⟨hmem, _⟩ | ⟨hnone, hold⟩
    · exact Or.inl hmem
    · refine Or.inr ((h.lost x r hold).elim (fun hmem => ?_) id)
      obtain ⟨rfl, _⟩ := hhistory.known x r hold
      refine ⟨(((batch.commit_later hn).lost r hmem).resolve_left fun ⟨s, hs, hid⟩ =>
        hnone s hs hid).1, ?_⟩
      by_contra hlt
      obtain ⟨s, hs, hid⟩ := hkept r hmem (not_le.mp hlt)
      exact hnone s hs hid

theorem mem_removes {ids : List ItemId} {r : VaultItem} (h : r ∈ (ids.foldl remove pull).items) :
    r ∈ pull.items := by
  induction ids generalizing pull with
  | nil => exact h
  | cons id ids ih => exact (Table.mem_delete.mp (ih h)).1

theorem mem_sets {items : List VaultItem} {r : VaultItem} (h : r ∈ (items.foldl set pull).items) :
    r ∈ items ∨ r ∈ pull.items := by
  induction items generalizing pull with
  | nil => exact Or.inr h
  | cons item items ih =>
    rcases ih h with hmem | hmem
    · exact Or.inl (List.mem_cons_of_mem _ hmem)
    · rcases Table.mem_put.mp hmem with rfl | ⟨hold, _⟩
      · exact Or.inl List.mem_cons_self
      · exact Or.inr hold

/-- The items after a page. -/
theorem mem_fold {cursor : ℕ} {reset : Bool} {r : VaultItem}
    (h : r ∈ (pull.fold ((db.read cursor).answer cursor reset)).items) :
    (r ∈ (db.read cursor).page ∧ r.live = true) ∨ (reset = false ∧ r ∈ pull.items) := by
  have hcases := mem_sets h
  refine hcases.imp List.mem_filter.mp fun hold => ?_
  have hold := mem_removes hold
  cases reset with
  | true => exact (Table.not_mem_empty hold).elim
  | false => exact ⟨rfl, hold⟩

/-- What is told after a page. -/
theorem told_fold (pull : VaultPull) (hn : db.Numbered) {cursor : ℕ} (reset : Bool)
    (hcursor : cursor ≤ db.seq) (x : ItemId) :
    (∃ r ∈ (db.read cursor).page, r.id = x ∧
        (pull.fold ((db.read cursor).answer cursor reset)).told x =
          some (shown VaultItem.removed r)) ∨
      ((∀ r ∈ (db.read cursor).page, r.id ≠ x) ∧
        (pull.fold ((db.read cursor).answer cursor reset)).told x =
          (if reset then pull.clear else pull).told x) := by
  have hfold : ∀ base, Changefeed.Overlaid VaultItem.id VaultItem.removed (db.read cursor).page
      ((if reset then pull.clear else pull).view base)
        ((pull.fold ((db.read cursor).answer cursor reset)).view base) :=
    fun _ => PullCall.fold_page hn pull reset hcursor
  by_cases hex : ∃ r ∈ (db.read cursor).page, r.id = x
  · obtain ⟨r, hr, rfl⟩ := hex
    exact Or.inl ⟨r, hr, rfl, told_of_view r fun base => (hfold base).shown r hr⟩
  · push Not at hex
    have hrow : VaultItem :=
      (VaultDb.NewItem.mk 0 none .folder 0 ⟨0, 0, (0, .folder), .named ""⟩ 0 none 0).row 0 0
    exact Or.inr ⟨hex, told_congr hrow fun base => (hfold base).rest x hex⟩

/-- A page brings what it shows, and it shows all that is still there. -/
theorem brings_page (hhistory : db.History last) (hn : db.Numbered) {cursor : ℕ} {reset : Bool}
    (hcursor : cursor ≤ db.seq)
    (hlost : ∀ x r, last x = some r → r ∈ db.items ∨ (r.removed = true ∧ r.seq ≤ started))
    (hbrings : Brings VaultItem.seq VaultItem.removed last since cursor
      (if reset then pull.clear else pull).told)
    (hrecent : ∀ x c r, (if reset then pull.clear else pull).told x = some (some c) →
      last x = some r →
      r.removed = true → started < r.seq)
    (hfloor : ∀ x, (if reset then pull.clear else pull).told x = none → db.floor ≤ cursor) :
    Brings VaultItem.seq VaultItem.removed last since ((db.read cursor).answer cursor reset).cursor
      (pull.fold ((db.read cursor).answer cursor reset)).told := by
  have hpage := read_page hn hcursor reset
  have hnew : ∀ x r, last x = some r → r.seq ≤ ((db.read cursor).answer cursor reset).cursor →
      (∀ q ∈ (db.read cursor).page, q.id ≠ x) → cursor < r.seq → r ∉ db.items :=
        fun x r hr hle hrest hlt hmem =>
    hrest r ((hpage.mem r).mpr ⟨hmem, hlt, hle⟩) (hhistory.known x r hr).1
  refine ⟨fun x r v hr hle htold => ?_, fun x r hr hle htold => ?_, fun x c htold => ?_⟩
  · rcases told_fold pull hn reset hcursor x with ⟨q, hq, rfl, hshown⟩ | ⟨hrest, hsame⟩
    · obtain rfl := Option.some.inj ((hhistory.rows q ((hpage.mem q).mp hq).1).symm.trans hr)
      exact Option.some.inj (htold.symm.trans hshown)
    · rw [hsame] at htold
      by_cases hold : r.seq ≤ cursor
      · exact hbrings.said x r v hr hold htold
      · obtain ⟨hremoved, hstarted⟩ :=
          (hlost x r hr).resolve_left (hnew x r hr hle hrest (not_le.mp hold))
        rw [shown, if_pos hremoved]
        cases v with
        | none => rfl
        | some c => exact absurd (hrecent x c r htold hr hremoved) (not_lt.mpr hstarted)
  · rcases told_fold pull hn reset hcursor x with ⟨q, _, rfl, hshown⟩ | ⟨hrest, hsame⟩
    · exact absurd (htold.symm.trans hshown) (Option.some_ne_none _).symm
    · rw [hsame] at htold
      by_cases hold : r.seq ≤ cursor
      · exact hbrings.unsaid x r hr hold htold
      · obtain ⟨_, hfloored⟩ :=
          (hhistory.lost x r hr).resolve_left (hnew x r hr hle hrest (not_le.mp hold))
        exact absurd (hfloored.trans (hfloor x htold)) hold
  · rcases told_fold pull hn reset hcursor x with ⟨q, hq, rfl, hshown⟩ | ⟨_, hsame⟩
    · have hv := Option.some.inj (htold.symm.trans hshown)
      unfold shown at hv
      split_ifs at hv
      obtain rfl := Option.some.inj hv
      exact .of_last (hhistory.rows c ((hpage.mem c).mp hq).1)
    · exact hbrings.version x c (hsame ▸ htold)

theorem recent_page (hhistory : db.History last) (hn : db.Numbered) {cursor : ℕ} {reset : Bool}
    (hcursor : cursor ≤ db.seq)
    (hrecent : reset = false → ∀ r ∈ pull.items, ∀ q, last r.id = some q → q.removed = true →
      started < q.seq) :
    ∀ r ∈ (pull.fold ((db.read cursor).answer cursor reset)).items, ∀ q, last r.id = some q →
      q.removed = true →
      started < q.seq := by
  intro r hr q hq hremoved
  rcases mem_fold hr with ⟨hpage, hlive⟩ | ⟨hreset, hold⟩
  · have hmem := (((read_page hn hcursor reset).mem r).mp hpage).1
    obtain rfl := Option.some.inj ((hhistory.rows r hmem).symm.trans hq)
    rw [VaultItem.removed, hlive] at hremoved
    exact Bool.noConfusion hremoved
  · exact hrecent hreset r hold q hq hremoved

/-- The next page, when the cursor is not under the floor. -/
theorem Tells.next (h : pull.Tells since started db last) (hhistory : db.History last)
    (hn : db.Numbered) (hlive : (db.read pull.cursor).expired pull.cursor pull.continuing = false) :
    (pull.fold ((db.read pull.cursor).answer pull.cursor false)).Tells since started db last where
  tidy := PullCall.fold_tidy hn h.tidy h.le fun hre _ => (h.since_le hre).2
  le := (read_page hn h.le false).le_top
  started_le := h.started_le
  since_le := fun hre => by
    rw [PullCall.fold_rebuilding, VaultRead.answer, Bool.false_or] at hre
    exact ⟨(h.since_le hre).1, (h.since_le hre).2.trans (read_page hn h.le false).le⟩
  brings := by
    refine brings_page hhistory hn h.le h.lost h.brings (fun x c r htold hr hremoved => ?_)
      fun x htold => ?_
    · obtain ⟨hc, rfl⟩ := told_item htold
      exact h.recent c hc r hr hremoved
    · have hre : pull.rebuilding = false :=
        Bool.eq_false_iff.mpr fun hre => told_of_rebuilding hre htold
      have hpos := (h.since_le hre).1.trans_le (h.since_le hre).2
      refine not_lt.mp fun hlt => Bool.eq_false_iff.mp hlive ?_
      simp only [VaultRead.expired, VaultPull.continuing, Bool.and_eq_true, decide_eq_true_eq]
      exact ⟨⟨by simp [hre], hpos⟩, hlt⟩
  recent := recent_page hhistory hn h.le fun _ => h.recent
  lost := h.lost

/-- The first page of a listing that starts over. -/
theorem Tells.reset (h : pull.Tells since started db last) (hhistory : db.History last)
    (hn : db.Numbered) :
    (pull.fold ((db.read 0).answer 0 true)).Tells since started db last where
  tidy := PullCall.fold_tidy hn h.tidy (Nat.zero_le _) fun _ hre => absurd hre Bool.noConfusion
  le := (read_page hn (Nat.zero_le _) true).le_top
  started_le := h.started_le
  since_le := fun hre => by
    rw [PullCall.fold_rebuilding, VaultRead.answer, Bool.true_or] at hre
    exact absurd hre Bool.noConfusion
  brings := by
    have hnone : ∀ x c, pull.clear.told x ≠ some (some c) :=
      fun x c hc => Table.not_mem_empty (told_item hc).1
    refine brings_page hhistory hn (Nat.zero_le _) h.lost ?_ (fun x c _ htold =>
      absurd htold (hnone x c))
      fun x htold => absurd htold (told_of_rebuilding rfl)
    exact ⟨fun x r _ hr hle => absurd (hhistory.known x r hr).2.1 (not_lt.mpr hle),
      fun x _ _ _ htold => absurd htold (told_of_rebuilding rfl),
      fun x c htold => absurd htold (hnone x c)⟩
  recent := recent_page hhistory hn (Nat.zero_le _) fun hre => absurd hre Bool.noConfusion
  lost := h.lost

end VaultPull

/-- The row that a batch returns is in the table. -/
theorem VaultBatch.mem_of_returned {batch : VaultBatch} {db : VaultDb} {row : VaultItem}
    (h : batch.returned db = some row) : row ∈ (batch.commit db).items := by
  cases batch with
  | create item now =>
    simp only [VaultBatch.returned, VaultBatch.commit, VaultDb.create] at h ⊢
    split_ifs at h ⊢ with hguard
    cases hinsert : db.nextVaultSeq.items.insert (item.row db.nextVaultSeq.seq now) with
    | none => simp [hinsert] at h
    | some items =>
      simp only [hinsert, Option.some.injEq] at h ⊢
      exact ((Table.insert_eq_some hinsert).1 row).mpr (Or.inr h.symm)
  | update id revision changes now =>
    simp only [VaultBatch.returned, VaultBatch.commit, VaultDb.update] at h ⊢
    rw [VaultDb.change_answer, Option.map_eq_some_iff] at h
    obtain ⟨r, hr, rfl⟩ := h
    obtain ⟨hitem, hguard⟩ := Option.filter_eq_some_iff.mp hr
    obtain ⟨hmem, rfl, hlive⟩ := VaultDb.mem_vaultItem.mp hitem
    exact VaultDb.mem_change.mpr ⟨r, hmem, by rw [if_pos (by simp [hlive, hguard])]⟩
  | _ => cases h

/-- An item that an answer carries was the last version once. -/
def VaultAnswer.Known (last : ItemId → Option VaultItem) : VaultAnswer → Prop
  | .item record => Version VaultItem.seq last record.id record
  | .removed _ => True

def OwnWrite.Known (last : ItemId → Option VaultItem) : OwnWrite → Prop
  | .deleting _ _ => True
  | .answered answer => answer.Known last
  | .stored answer => answer.Known last

theorem OwnWrite.Known.grows {last last' : ItemId → Option VaultItem} {top : ℕ} {write : OwnWrite}
    (h : write.Known last) (hgrows : Grows VaultItem.seq last last' top) : write.Known last' := by
  have hanswer : ∀ answer : VaultAnswer, answer.Known last →
      answer.Known last' := fun answer ha => by
    cases answer with
    | item record => exact Version.grows ha hgrows
    | removed ids => trivial
  cases write with
  | deleting root removed => trivial
  | answered answer => exact hanswer answer h
  | stored answer => exact hanswer answer h

/-- The answer of a pull from `since`. -/
def VaultChanges.Pulled (since : ℕ) (db : VaultDb) (last : ItemId → Option VaultItem)
    (changes : VaultChanges) : Prop :=
  ∃ pull usage, changes = VaultPull.answer pull usage ∧ (∀ r ∈ pull.items, r.id ∉ pull.removed) ∧
    Brings VaultItem.seq VaultItem.removed last since pull.cursor pull.told ∧ pull.cursor ≤ db.seq

namespace VaultDevice

/-- The records in memory, or those that are being opened and what was written meanwhile. -/
def MemoryHolds (w : VaultDevice) : Prop :=
  match w.phase with
  | .opening records written => Holds VaultItem.seq VaultItem.removed w.last w.cursor records.get? ∧
      ∀ id ∈ written, ∀ e, w.entries.get? id = some e →
      Takes VaultItem.seq VaultItem.removed w.last w.cursor id e
  | _ => Holds VaultItem.seq VaultItem.removed w.last w.cursor w.entries.get?

/-- What a pass has pulled, and how far the two cursors are. -/
def PassHolds (w : VaultDevice) : Prop :=
  match w.phase with
  | .pulling started pull phase => w.copy.cursor = w.cursor ∧
      pull.Tells w.cursor started w.db w.last ∧
      ∀ changes, phase ≠ .done changes
  | .storing changes => w.copy.cursor = w.cursor ∧ changes.Pulled w.cursor w.db w.last
  | .applying changes => w.copy.cursor = changes.cursor ∧ changes.Pulled w.cursor w.db w.last
  | _ => w.copy.cursor = w.cursor

structure Sound (w : VaultDevice) : Prop where
  numbered : w.db.Numbered
  history : w.db.History w.last
  copy_le : w.copy.cursor ≤ w.db.seq
  cursor_le : w.cursor ≤ w.db.seq
  copy : Holds VaultItem.seq VaultItem.removed w.last w.copy.cursor w.copy.records.get?
  memory : w.MemoryHolds
  pass : w.PassHolds
  writes : ∀ write ∈ w.writes, write.Known w.last

end VaultDevice

section Answers

variable {last : ItemId → Option VaultItem} {k : ℕ} {records : Table VaultItem.id}

theorem holds_putNewer {item : VaultItem}
    (h : Holds VaultItem.seq VaultItem.removed last k records.get?)
    (htakes : Takes VaultItem.seq VaultItem.removed last k item.id item) :
    Holds VaultItem.seq VaultItem.removed last k (putNewer records item).get? := by
  refine h.learn fun x => ?_
  unfold putNewer
  split_ifs with hnewer
  · by_cases hx : x = item.id
    · subst hx
      refine Or.inr ⟨item, by rw [Table.get?_put, if_pos rfl], htakes, fun known hknown => ?_⟩
      rw [isNewer, hknown, Option.all_some, decide_eq_true_eq] at hnewer
      exact hnewer
    · exact Or.inl (by rw [Table.get?_put, if_neg hx])
  · exact Or.inl rfl

/-- An answer in order. -/
theorem VaultAnswer.show_holds {answer : VaultAnswer}
    (h : Holds VaultItem.seq VaultItem.removed last k records.get?)
    (hknown : answer.Known last) (hfits : answer.Fits last k) :
    Holds VaultItem.seq VaultItem.removed last k (answer.show records).get? := by
  cases answer with
  | item record =>
    exact holds_putNewer h ⟨hknown, fun r hr hle => by rw [VaultItem.removed, hfits r hr hle]; rfl⟩
  | removed ids =>
    have hcopy : ∀ x,
        (¬ x ∈ ids ∧ (VaultAnswer.show (.removed ids) records).get? x = records.get? x) ∨
        (x ∈ ids ∧ (VaultAnswer.show (.removed ids) records).get? x = none) := by
      intro x
      rw [VaultAnswer.show, Table.get?_delete]
      by_cases hx : x ∈ ids
      · refine Or.inr ⟨hx, Option.filter_eq_none_iff.mpr fun r hr => ?_⟩
        rw [(Table.get?_eq_some.mp hr).2]
        simp [hx]
      · refine Or.inl ⟨hx, ?_⟩
        cases hr : records.get? x with
        | none => rfl
        | some r => rw [Option.filter_some, if_pos (by simp [(Table.get?_eq_some.mp hr).2, hx])]
    exact h.drop hcopy fun x hx r hr hle => by rw [VaultItem.removed, hfits x hx r hr hle]; rfl

theorem VaultAnswer.store_records (answer : VaultAnswer) (copy : VaultCopy) :
    (answer.store copy).records.get? = (answer.show copy.records).get? := by
  cases answer with
  | item record =>
    have hsame : (copy.records.delete fun r => decide (r.id ∈ ([] : List ItemId))) = copy.records :=
      Table.ext (by simp [Table.delete])
    exact congrArg (fun t : Table VaultItem.id => (putNewer t record).get?) hsame
  | removed ids => rfl

/-- What was written meanwhile is laid over the records. -/
theorem mergeEntries_holds {entries : Table VaultItem.id} {written : List ItemId}
    (h : Holds VaultItem.seq VaultItem.removed last k records.get?)
    (hwritten : ∀ id ∈ written, ∀ e, entries.get? id = some e →
      Takes VaultItem.seq VaultItem.removed last k id e) :
    Holds VaultItem.seq VaultItem.removed last k (mergeEntries entries written records).get? := by
  unfold mergeEntries
  induction written generalizing records with
  | nil => exact h
  | cons id written ih =>
    refine ih ?_ fun x hx => hwritten x (List.mem_cons_of_mem _ hx)
    dsimp only
    cases hget : entries.get? id with
    | none => exact h
    | some e =>
      have htakes := hwritten id List.mem_cons_self e hget
      obtain rfl := (Table.get?_eq_some.mp hget).2
      exact holds_putNewer h htakes

end Answers

namespace VaultDevice

variable {w : VaultDevice}

theorem Sound.commit (h : Sound w) {batch : VaultBatch} (hok : w.Remembers batch) :
    Sound (w.commit batch) := by
  have hgrows : Grows VaultItem.seq w.last (w.commit batch).last w.db.seq :=
    h.history.grows h.numbered batch
  have htop : w.db.seq ≤ (w.commit batch).db.seq := (batch.commit_later h.numbered).top
  have hpulled : ∀ changes : VaultChanges, changes.Pulled w.cursor w.db w.last →
      changes.Pulled w.cursor (w.commit batch).db (w.commit batch).last :=
    fun changes ⟨pull, usage, hchanges, hapart, hbrings, hle⟩ =>
      ⟨pull, usage, hchanges, hapart, hbrings.grows hgrows hle, hle.trans htop⟩
  refine ⟨batch.commit_numbered h.numbered, h.history.commit h.numbered batch, h.copy_le.trans htop,
    h.cursor_le.trans htop, h.copy.grows hgrows h.copy_le, ?_, ?_,
    fun write hw => (h.writes write hw).grows hgrows⟩
  · have hmemory := h.memory
    have hentries : Holds VaultItem.seq VaultItem.removed w.last w.cursor w.entries.get? →
        Holds VaultItem.seq VaultItem.removed (w.commit batch).last w.cursor w.entries.get? :=
      fun hold => hold.grows hgrows h.cursor_le
    unfold MemoryHolds at hmemory ⊢
    unfold VaultDevice.commit at hentries ⊢
    dsimp only at hentries ⊢
    split at hmemory
    · exact ⟨hmemory.1.grows hgrows h.cursor_le,
        fun id hid e he => (hmemory.2 id hid e he).grows hgrows h.cursor_le⟩
    · exact hentries hmemory
  · have hpass := h.pass
    unfold Remembers at hok
    unfold PassHolds at hpass ⊢
    unfold VaultDevice.commit at hpulled ⊢
    dsimp only at hpulled ⊢
    cases hphase : w.phase with
    | idle => simpa only [hphase] using hpass
    | opening records written => simpa only [hphase] using hpass
    | pulling started pull phase =>
      simp only [hphase] at hpass hok ⊢
      exact ⟨hpass.1,
        hpass.2.1.commit h.history h.numbered (PullCall.kept_of_remembers rfl hok), hpass.2.2⟩
    | storing changes =>
      simp only [hphase] at hpass ⊢
      exact ⟨hpass.1, hpulled changes hpass.2⟩
    | applying changes =>
      simp only [hphase] at hpass ⊢
      exact ⟨hpass.1, hpulled changes hpass.2⟩

theorem Sound.withWrites (h : Sound w) {writes : List OwnWrite}
    (hknown : ∀ write ∈ writes, write.Known w.last) :
    Sound { w with writes } :=
  ⟨h.numbered, h.history, h.copy_le, h.cursor_le, h.copy, h.memory, h.pass, hknown⟩

/-- One write becomes another, and the others stay. -/
theorem Sound.setWrite (h : Sound w) (i : ℕ) {write : OwnWrite} (hknown : write.Known w.last) :
    Sound { w with writes := w.writes.set i write } :=
  h.withWrites fun x hx => (List.mem_or_eq_of_mem_set hx).elim (h.writes x) fun he => he ▸ hknown

theorem Sound.addWrite (h : Sound w) {row : VaultItem} (hrow : row ∈ w.db.items) :
    Sound { w with writes := w.writes ++ [.answered (.item row)] } :=
  h.withWrites fun x hx => (List.mem_append.mp hx).elim (h.writes x) fun hx => by
    obtain rfl := List.mem_singleton.mp hx
    exact Version.of_last (h.history.rows row hrow)

theorem Sound.store (h : Sound w) {i : ℕ} {answer : VaultAnswer}
    (hget : w.writes[i]? = some (.answered answer)) (hfits : answer.Fits w.last w.copy.cursor) :
    Sound { w with copy := answer.store w.copy, writes := w.writes.set i (.stored answer) } := by
  have hknown : answer.Known w.last := h.writes _ (List.mem_of_getElem? hget)
  have hcursor : (answer.store w.copy).cursor = w.copy.cursor := by cases answer <;> rfl
  refine Sound.setWrite (w := { w with copy := answer.store w.copy }) ⟨h.numbered, h.history,
    hcursor ▸ h.copy_le,
    h.cursor_le, ?_, h.memory, ?_, h.writes⟩ i hknown
  · dsimp only
    rw [answer.store_records, hcursor]
    exact VaultAnswer.show_holds h.copy hknown hfits
  · have hpass := h.pass
    unfold PassHolds at hpass ⊢
    dsimp only
    rw [hcursor]
    exact hpass

/-- While records are opened, an answer is one of those that were written meanwhile. -/
theorem written_takes {last : ItemId → Option VaultItem} {k : ℕ} {entries : Table VaultItem.id}
    {written : List ItemId} (hold : ∀ id ∈ written, ∀ e, entries.get? id = some e →
      Takes VaultItem.seq VaultItem.removed last k id e)
    {answer : VaultAnswer} (hknown : answer.Known last) (hfits : answer.Fits last k) :
    ∀ id ∈ answer.written entries ++ written, ∀ e, (answer.show entries).get? id = some e →
      Takes VaultItem.seq VaultItem.removed last k id e := by
  intro id hid e he
  cases answer with
  | removed ids =>
    obtain ⟨hmem, hkey⟩ := Table.get?_eq_some.mp he
    exact hold id hid e (Table.get?_eq_some.mpr ⟨(Table.mem_delete.mp hmem).1, hkey⟩)
  | item record =>
    simp only [VaultAnswer.show, putNewer] at he
    simp only [VaultAnswer.written, List.mem_append] at hid
    split_ifs at he hid with hnewer
    · rw [Table.get?_put] at he
      split_ifs at he with hkey
      · obtain rfl := Option.some.inj he
        exact hkey ▸ ⟨hknown, fun r hr hle => by rw [VaultItem.removed, hfits r hr hle]; rfl⟩
      · exact hold id (hid.resolve_left fun hmem => hkey (List.mem_singleton.mp hmem)) e he
    · exact hold id (hid.resolve_left List.not_mem_nil) e he

theorem Sound.show (h : Sound w) {i : ℕ} {w' : VaultDevice} (hok : w.InOrder (.show i))
    (hstep : w.step (.show i) = some w') : Sound w' := by
  simp only [VaultDevice.step] at hstep
  simp only [InOrder] at hok
  split at hstep
  · rename_i answer hget
    rw [hget] at hok
    obtain rfl := Option.some.inj hstep
    have hknown : answer.Known w.last := h.writes _ (List.mem_of_getElem? hget)
    refine ⟨h.numbered, h.history, h.copy_le, h.cursor_le, h.copy, ?_, ?_,
      fun write hw => h.writes write (List.mem_of_mem_eraseIdx hw)⟩
    · have hmemory := h.memory
      unfold MemoryHolds at hmemory ⊢
      dsimp only
      cases hphase : w.phase with
      | opening records written =>
        simp only [hphase] at hmemory ⊢
        exact ⟨hmemory.1, written_takes hmemory.2 hknown hok⟩
      | _ =>
        simp only [hphase] at hmemory ⊢
        exact VaultAnswer.show_holds hmemory hknown hok
    · have hpass := h.pass
      unfold PassHolds at hpass ⊢
      dsimp only
      cases hphase : w.phase <;> simp only [hphase] at hpass ⊢ <;> exact hpass
  · cases hstep

theorem Sound.sync (h : Sound w) {vaultSeq : Option ℕ} {keyChanged : Bool} {w' : VaultDevice}
    (hstep : w.step (.sync vaultSeq keyChanged) = some w') : Sound w' := by
  simp only [VaultDevice.step] at hstep
  cases hphase : w.phase with
  | idle =>
    have hmemory := h.memory
    have hpass := h.pass
    simp only [MemoryHolds, PassHolds, hphase] at hmemory hpass
    simp only [hphase] at hstep
    split_ifs at hstep <;> obtain rfl := Option.some.inj hstep
    · exact ⟨h.numbered, h.history, h.copy_le, h.cursor_le, h.copy, hmemory,
        ⟨hpass, VaultPull.tells_begin h.history h.cursor_le, fun _ h => by cases h⟩, h.writes⟩
    · exact ⟨h.numbered, h.history, h.copy_le, h.cursor_le, h.copy,
        ⟨hmemory, fun _ hid => absurd hid List.not_mem_nil⟩,
        hpass, h.writes⟩
    · exact h
  | _ => simp [hphase] at hstep

/-- A page, or the whole answer. -/
theorem Sound.received (h : Sound w) {started : ℕ} {pull : VaultPull} {phase : PullPhase}
    (hphase : w.phase = .pulling started pull phase) {page : VaultChanges}
    (htells : (pull.fold page).Tells w.cursor started w.db w.last) :
    Sound (w.pulled started (PullCall.receive ⟨w.db, pull, phase⟩ page)) := by
  have hmemory := h.memory
  have hpass := h.pass
  simp only [MemoryHolds, PassHolds, hphase] at hmemory hpass
  unfold PullCall.receive VaultDevice.pulled
  dsimp only
  by_cases hmore : page.more = true
  · rw [if_pos hmore]
    exact ⟨h.numbered, h.history, h.copy_le, h.cursor_le, h.copy, hmemory,
      ⟨hpass.1, htells, fun _ h => by cases h⟩, h.writes⟩
  · rw [if_neg hmore]
    exact ⟨h.numbered, h.history, h.copy_le, h.cursor_le, h.copy, hmemory,
      ⟨hpass.1, _, _, rfl, htells.tidy.apart, htells.brings, htells.le⟩, h.writes⟩

theorem Sound.pull (h : Sound w) {event : PullEvent} {w' : VaultDevice}
    (hstep : w.step (.pull event) = some w') :
    Sound w' := by
  simp only [VaultDevice.step] at hstep
  cases hphase : w.phase with
  | pulling started pull phase =>
    have hmemory := h.memory
    have hpass := h.pass
    simp only [MemoryHolds, PassHolds, hphase] at hmemory hpass
    have hsame : ∀ phase' : PullPhase, (∀ changes, phase' ≠ .done changes) →
        Sound { w with phase := .pulling started pull phase' } := fun phase' hdone =>
      ⟨h.numbered, h.history, h.copy_le, h.cursor_le, h.copy, hmemory,
        ⟨hpass.1, hpass.2.1, hdone⟩, h.writes⟩
    cases event with
    | commit batch => simp [hphase] at hstep
    | retry =>
      simp only [hphase, Option.map_eq_some_iff] at hstep
      obtain ⟨call, hcall, rfl⟩ := hstep
      unfold PullCall.step at hcall
      cases phase with
      | done changes => cases hcall
      | asking => exact Option.some.inj hcall ▸ hsame .asking fun _ h => by cases h
      | resetting => exact Option.some.inj hcall ▸ hsame .asking fun _ h => by cases h
    | read =>
      simp only [hphase, Option.map_eq_some_iff] at hstep
      obtain ⟨call, hcall, rfl⟩ := hstep
      unfold PullCall.step at hcall
      cases phase with
      | done changes => cases hcall
      | asking =>
        dsimp only at hcall
        split_ifs at hcall with hexpired <;> obtain rfl := Option.some.inj hcall
        · exact hsame .resetting fun _ h => by cases h
        · exact h.received hphase
            (hpass.2.1.next h.history h.numbered (Bool.eq_false_iff.mpr hexpired))
      | resetting =>
        obtain rfl := Option.some.inj hcall
        exact h.received hphase (hpass.2.1.reset h.history h.numbered)
  | _ => simp [hphase] at hstep

theorem Sound.keep (h : Sound w) {w' : VaultDevice} (hstep : w.step .keep = some w') :
    Sound w' := by
  simp only [VaultDevice.step] at hstep
  cases hphase : w.phase with
  | storing changes =>
    have hmemory := h.memory
    have hpass := h.pass
    simp only [MemoryHolds, PassHolds, hphase] at hmemory hpass hstep
    obtain rfl := Option.some.inj hstep
    obtain ⟨hcursor, pull, usage, rfl, hapart, hbrings, hle⟩ := hpass
    have hold := h.copy
    rw [hcursor] at hold
    exact ⟨h.numbered, h.history, hle, h.cursor_le,
      hold.bring hbrings (stores_putNewer.applied hapart w.copy.records), hmemory,
      ⟨rfl, pull, usage, rfl, hapart, hbrings, hle⟩, h.writes⟩
  | _ => simp [hphase] at hstep

theorem Sound.apply (h : Sound w) {w' : VaultDevice} (hstep : w.step .apply = some w') :
    Sound w' := by
  simp only [VaultDevice.step] at hstep
  cases hphase : w.phase with
  | applying changes =>
    have hmemory := h.memory
    have hpass := h.pass
    simp only [MemoryHolds, PassHolds, hphase] at hmemory hpass hstep
    obtain rfl := Option.some.inj hstep
    obtain ⟨hcursor, pull, usage, rfl, hapart, hbrings, hle⟩ := hpass
    exact ⟨h.numbered, h.history, h.copy_le, hle, h.copy,
      ⟨hmemory.bring hbrings (stores_storeRecord.applied hapart w.entries),
        fun _ hid => absurd hid List.not_mem_nil⟩,
      hcursor, h.writes⟩
  | _ => simp [hphase] at hstep

theorem Sound.publish (h : Sound w) {w' : VaultDevice} (hstep : w.step .publish = some w') :
    Sound w' := by
  simp only [VaultDevice.step] at hstep
  cases hphase : w.phase with
  | opening records written =>
    have hmemory := h.memory
    have hpass := h.pass
    simp only [MemoryHolds, PassHolds, hphase] at hmemory hpass hstep
    obtain rfl := Option.some.inj hstep
    exact ⟨h.numbered, h.history, h.copy_le, h.cursor_le, h.copy,
      mergeEntries_holds hmemory.1 hmemory.2, hpass,
      h.writes⟩
  | _ => simp [hphase] at hstep

theorem Sound.fail (h : Sound w) {w' : VaultDevice} (hstep : w.step .fail = some w') :
    Sound w' := by
  simp only [VaultDevice.step] at hstep
  cases hphase : w.phase <;> simp only [hphase, Option.some.injEq, reduceCtorEq] at hstep
  all_goals
    have hmemory := h.memory
    have hpass := h.pass
    simp only [MemoryHolds, PassHolds, hphase] at hmemory hpass
    exact hstep ▸
      ⟨h.numbered, h.history, h.copy_le, h.cursor_le, h.copy, hmemory, hpass.1, h.writes⟩

theorem Sound.step (h : Sound w) {event : VaultDeviceEvent} {w' : VaultDevice}
    (hok : w.InOrder event) (hstep : w.step event = some w') : Sound w' := by
  cases event with
  | commit batch => exact Option.some.inj hstep ▸ h.commit hok
  | write batch =>
    obtain rfl := Option.some.inj hstep
    have hcommitted : Sound (w.commit batch) := h.commit hok
    cases hrow : batch.returned w.db with
    | none =>
      exact hcommitted.withWrites fun write hw =>
        hcommitted.writes write ((List.mem_append.mp hw).resolve_right
        List.not_mem_nil)
    | some row => exact hcommitted.addWrite (VaultBatch.mem_of_returned hrow)
  | reread id =>
    obtain ⟨row, hrow, rfl⟩ := Option.map_eq_some_iff.mp hstep
    exact h.addWrite (VaultDb.mem_vaultItem.mp hrow).1
  | delete root =>
    obtain rfl := Option.some.inj hstep
    exact h.withWrites fun write hw => (List.mem_append.mp hw).elim (h.writes write) fun hw =>
      List.mem_singleton.mp hw ▸ trivial
  | purge i ids now =>
    simp only [VaultDevice.step] at hstep
    split at hstep
    · rename_i root removed _
      obtain rfl := Option.some.inj hstep
      have hremembers : w.Remembers (.purge root ids now) := by
        unfold Remembers
        split <;> trivial
      exact (h.commit hremembers).setWrite i trivial
    · cases hstep
  | respond i =>
    simp only [VaultDevice.step] at hstep
    split at hstep
    · obtain rfl := Option.some.inj hstep
      exact h.setWrite i trivial
    · cases hstep
  | lose i =>
    obtain rfl := Option.some.inj hstep
    exact h.withWrites fun write hw => h.writes write (List.mem_of_mem_eraseIdx hw)
  | store i =>
    simp only [VaultDevice.step] at hstep
    simp only [InOrder] at hok
    split at hstep
    · rename_i answer hget
      rw [hget] at hok
      obtain rfl := Option.some.inj hstep
      exact h.store hget hok
    · cases hstep
  | «show» i => exact h.show hok hstep
  | sync vaultSeq keyChanged => exact h.sync hstep
  | pull event => exact h.pull hstep
  | keep => exact h.keep hstep
  | apply => exact h.apply hstep
  | publish => exact h.publish hstep
  | fail => exact h.fail hstep
  | reload =>
    obtain rfl := Option.some.inj hstep
    exact ⟨h.numbered, h.history, h.copy_le, h.copy_le, h.copy, h.copy, rfl,
      fun _ hw => absurd hw List.not_mem_nil⟩

theorem sound_new : Sound new where
  numbered := VaultDb.new_numbered
  history := VaultDb.history_new
  copy_le := le_rfl
  cursor_le := le_rfl
  copy := ⟨fun _ _ hr => absurd hr (Option.some_ne_none _).symm,
    fun _ _ hc => absurd (Table.mem_of_get? hc) Table.not_mem_empty⟩
  memory :=
    ⟨fun _ _ hr => absurd hr (Option.some_ne_none _).symm,
      fun _ _ hc => absurd (Table.mem_of_get? hc) Table.not_mem_empty⟩
  pass := rfl
  writes := fun _ hw => absurd hw List.not_mem_nil

theorem Sound.converged (h : Sound w) (hsettled : w.Settled) : w.Converged := by
  have hmemory := h.memory
  have hpass := h.pass
  simp only [MemoryHolds, PassHolds, hsettled.idle] at hmemory hpass
  have hall : ∀ x r, w.last x = some r → r.seq ≤ w.cursor :=
    fun x r hr => hsettled.current ▸ (h.history.known x r hr).2.2
  have hcopy := h.copy
  rw [hpass] at hcopy
  exact ⟨fun id => (hcopy.exact hall id).trans (h.history.vaultItem id).symm,
    fun id => (hmemory.exact hall id).trans (h.history.vaultItem id).symm⟩

/-- In every run in which no answer comes after the purge of its item was pulled, the
copies are the table whenever the device has settled. -/
theorem converges {w : VaultDevice} (h : Runs.ReachableVia step InOrder new w)
    (hsettled : w.Settled) : w.Converged :=
  (h.invariant sound_new fun _ _ _ hs hok hstep => hs.step hok hstep : Sound w).converged hsettled

instance (w : VaultDevice) (batch : VaultBatch) : Decidable (w.Remembers batch) := by
  unfold Remembers
  split <;> infer_instance

instance (last : ItemId → Option VaultItem) (k : ℕ) (answer : VaultAnswer) :
    Decidable (answer.Fits last k) := by
  unfold VaultAnswer.Fits
  split <;> infer_instance

instance (w : VaultDevice) (event : VaultDeviceEvent) : Decidable (w.InOrder event) := by
  unfold InOrder
  repeat' split
  all_goals infer_instance

instance (w : VaultDevice) : Decidable w.Settled :=
  decidable_of_iff ((match w.phase with | .idle => true | _ => false) = true ∧ w.fetched = true ∧
    w.cursor = w.db.seq ∧
      w.writes.isEmpty = true) <| by
    refine ⟨fun ⟨hidle, hfetched, hcurrent, hwrites⟩ =>
      ⟨?_, hfetched, hcurrent, List.isEmpty_iff.mp hwrites⟩,
      fun h => ⟨by rw [h.idle], h.fetched, h.current, List.isEmpty_iff.mpr h.answered⟩⟩
    cases hphase : w.phase <;> simp_all

/-- A pass, when the server's answer is one page. -/
def onePass (vaultSeq : ℕ) : List VaultDeviceEvent :=
  [.sync (some vaultSeq) false, .pull .read, .keep, .apply, .publish]

/-- While a pass runs, folder 1 is made here and folder 2 comes and goes. -/
def lateFolder : List VaultDeviceEvent :=
  [.commit (.create (PullCall.aFolder 2) 0), .sync (some 1) false, .pull .read, .keep,
    .write (.create (PullCall.aFolder 1) 0),
    .store 0, .apply, .show 0, .publish, .commit (.purge 2 [2] 0)] ++ onePass 3

theorem converges_late :
    ∃ w, Runs.ReachableVia step InOrder new w ∧ w.entries.rows.map VaultItem.id = [1] ∧
    w.Settled ∧ w.Converged := by
  have hrun : (Runs.replayVia step InOrder new lateFolder).any (fun w =>
      decide (w.entries.rows.map VaultItem.id = [1] ∧ w.Settled)) = true := by decide +kernel
  obtain ⟨w, hw, hstate⟩ := (Option.any_eq_true _ _).mp hrun
  obtain ⟨hentries, hsettled⟩ := of_decide_eq_true hstate
  have hreach := Runs.reachableVia_of_replayVia hw
  exact ⟨w, hreach, hentries, hsettled, converges hreach hsettled⟩

/-- Folder 1 is made here; it is purged, and a pass is told so, before the answer arrives. -/
def purgedFirst : List VaultDeviceEvent :=
  [.write (.create (PullCall.aFolder 1) 0), .commit (.purge 1 [1] 0)] ++ onePass 2 ++
    [.store 0, .show 0]

theorem converges_not : ∃ w, Runs.Reachable step new w ∧ w.Settled ∧ ¬ w.Converged := by
  have hrun : (Runs.replay step new purgedFirst).any (fun w =>
      decide (w.Settled ∧ (w.entries.get? 1).isSome = true ∧ w.db.vaultItem 1 = none)) = true := by
        decide +kernel
  obtain ⟨w, hreach, hsettled, hentry, hitem⟩ := Runs.exists_reachable_of_replay hrun
  refine ⟨w, hreach, hsettled, fun hconverged => ?_⟩
  rw [hconverged.entries, hitem] at hentry
  exact Bool.noConfusion hentry

end VaultDevice
end SendSelf
