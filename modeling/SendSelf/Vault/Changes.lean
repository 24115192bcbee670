import SendSelf.Vault.Numbering

/-!
# Pulling the vault's changes

A client holds a copy and the number it is current to. It asks for what came after,
page by page, folds the pages into one answer and applies the answer to its copy. Any
batches are committed between the pages.
-/
namespace SendSelf

structure VaultUsage where
  bytes : ℕ
  items : ℕ
deriving DecidableEq, Repr

/-- A `VaultChangesResponse`. A record is a live row: it has no `removedAt`. -/
structure VaultChanges where
  items : List VaultItem
  removed : List ItemId
  cursor : ℕ
  more : Bool
  reset : Bool
  usage : VaultUsage

/-- What the statements of one transaction of `vaultChanges` return. -/
structure VaultRead where
  seq : ℕ
  floor : ℕ
  changed : List VaultItem
  usage : VaultUsage

/-- `ORDER BY seq ASC`. -/
def VaultItem.bySeq (r s : VaultItem) : Prop := r.seq ≤ s.seq

instance : DecidableRel VaultItem.bySeq := fun r s => inferInstanceAs (Decidable (r.seq ≤ s.seq))

def VaultDb.changedSince (db : VaultDb) (since : ℕ) : List VaultItem :=
  (db.items.select fun r => decide (since < r.seq)).insertionSort VaultItem.bySeq

/-- `read(since)`. -/
def VaultDb.read (db : VaultDb) (since : ℕ) : VaultRead where
  seq := db.seq
  floor := db.floor
  changed := (db.changedSince since).take (VAULT_PAGE_SIZE + 1)
  usage := ⟨(db.blobs.rows.map UploadRow.size).sum, db.liveCount⟩

def VaultRead.more (r : VaultRead) : Bool := decide (VAULT_PAGE_SIZE < r.changed.length)

def VaultRead.page (r : VaultRead) : List VaultItem :=
  if r.more then r.changed.take VAULT_PAGE_SIZE else r.changed

/-- The answer that `vaultChanges` makes of what it read. -/
def VaultRead.answer (since : ℕ) (reset : Bool) (r : VaultRead) : VaultChanges where
  items := r.page.filter VaultItem.live
  removed := (r.page.filter VaultItem.removed).map VaultItem.id
  cursor := if r.more then r.page.getLast?.elim since VaultItem.seq else max r.seq since
  more := r.more
  reset := reset
  usage := r.usage

/-- Whether what was read is not enough: the cursor is under the floor. -/
def VaultRead.expired (requested : ℕ) (continuing : Bool) (r : VaultRead) : Bool :=
  !continuing && decide (0 < requested) && decide (requested < r.floor)

/-- The variables of `pullVaultChanges`. -/
structure VaultPull where
  items : Table VaultItem.id
  removed : List ItemId
  rebuilding : Bool
  cursor : ℕ

namespace VaultPull

def begin (since : ℕ) : VaultPull := ⟨.empty, [], decide (since = 0), since⟩

/-- The `full` of the next request. -/
def continuing (pull : VaultPull) : Bool := pull.rebuilding && decide (0 < pull.cursor)

def clear (pull : VaultPull) : VaultPull :=
  { pull with rebuilding := true, items := .empty, removed := [] }

def remove (pull : VaultPull) (id : ItemId) : VaultPull :=
  { pull with
    items := pull.items.delete fun r => decide (r.id = id), removed := pull.removed.insert id }

def set (pull : VaultPull) (item : VaultItem) : VaultPull :=
  { pull with
    removed := pull.removed.filter fun id => decide (id ≠ item.id), items := pull.items.put item }

/-- What one page does. -/
def fold (pull : VaultPull) (page : VaultChanges) : VaultPull :=
  let pull := if page.reset then pull.clear else pull
  let pull := page.items.foldl set (page.removed.foldl remove pull)
  { pull with cursor := page.cursor }

def answer (pull : VaultPull) (usage : VaultUsage) : VaultChanges :=
  ⟨pull.items.rows, pull.removed, pull.cursor, false, pull.rebuilding, usage⟩

end VaultPull

/-- A record replaces one that is not newer. -/
def storeRecord (records : Table VaultItem.id) (item : VaultItem) : Table VaultItem.id :=
  if (records.get? item.id).all fun known => decide (known.seq ≤ item.seq) then records.put item
  else records

def applyVaultChanges (records : Table VaultItem.id) (changes : VaultChanges) :
    Table VaultItem.id :=
  let next := if changes.reset then .empty else records
  let next := next.delete fun r => decide (r.id ∈ changes.removed)
  changes.items.foldl storeRecord next

inductive PullPhase where
  /-- A request for the next page is on its way. -/
  | asking
  /-- The server reads again, from the beginning. -/
  | resetting
  | done (changes : VaultChanges)

structure PullCall where
  db : VaultDb
  pull : VaultPull
  phase : PullPhase

inductive PullEvent where
  | commit (batch : VaultBatch)
  /-- The transaction that the server is about to run. -/
  | read
  /-- The request failed, and is sent again. -/
  | retry

namespace PullCall

def begin (db : VaultDb) (since : ℕ) : PullCall := ⟨db, .begin since, .asking⟩

def receive (call : PullCall) (page : VaultChanges) : PullCall :=
  let pull := call.pull.fold page
  { call with pull, phase := if page.more then .asking else .done (pull.answer page.usage) }

def step (call : PullCall) : PullEvent → Option PullCall
  | .commit batch =>
      match call.phase with
      | .done _ => none
      | _ => some { call with db := batch.commit call.db }
  | .read =>
      match call.phase with
      | .asking =>
          let r := call.db.read call.pull.cursor
          if r.expired call.pull.cursor call.pull.continuing then
            some { call with phase := .resetting }
          else some (call.receive (r.answer call.pull.cursor false))
      | .resetting => some (call.receive ((call.db.read 0).answer 0 true))
      | .done _ => none
  | .retry =>
      match call.phase with
      | .done _ => none
      | _ => some { call with phase := .asking }

/-- No tombstone is forgotten that was made since the space's number was `started`. -/
def Remembers (started : ℕ) (call : PullCall) : PullEvent → Prop
  | .commit (.forget forgottenBefore) =>
      ∀ r ∈ call.db.items, VaultDb.forgettable forgottenBefore r = true → r.seq ≤ started
  | _ => True

end PullCall

section Pages

variable {db : VaultDb} {since : ℕ}

theorem mem_changedSince {r : VaultItem} :
    r ∈ db.changedSince since ↔ r ∈ db.items ∧ since < r.seq := by
  rw [VaultDb.changedSince, List.mem_insertionSort, Table.mem_select, decide_eq_true_eq]

theorem changedSince_sorted : (db.changedSince since).Pairwise fun r s => r.seq ≤ s.seq :=
  have : Std.Total VaultItem.bySeq := ⟨fun r s => Nat.le_total r.seq s.seq⟩
  have : IsTrans VaultItem VaultItem.bySeq := ⟨fun _ _ _ => Nat.le_trans⟩
  List.pairwise_insertionSort VaultItem.bySeq _

/-- The rows of a page are those between its two cursors. -/
theorem read_page (hn : db.Numbered) (hsince : since ≤ db.seq) (reset : Bool) :
    db.feed.Page VaultItem.seq since ((db.read since).answer since reset).cursor
      (db.read since).page := by
  have hlength : (db.read since).more =
      decide (VAULT_PAGE_SIZE < (db.changedSince since).length) := by
    simp [VaultRead.more, VaultDb.read]
  by_cases hmore : VAULT_PAGE_SIZE < (db.changedSince since).length
  · have hpage : (db.read since).page = (db.changedSince since).take VAULT_PAGE_SIZE := by
      rw [VaultRead.page, hlength, decide_eq_true hmore, if_pos rfl, VaultDb.read, List.take_take]
      rfl
    obtain ⟨a, ha⟩ : ∃ a, (db.read since).page.getLast? = some a := by
      rw [← Option.ne_none_iff_exists', ne_eq, List.getLast?_eq_none_iff, hpage]
      intro hnil
      have hzero := congrArg List.length hnil
      rw [List.length_take, min_eq_left hmore.le] at hzero
      exact absurd hzero (by decide)
    have hcursor : ((db.read since).answer since reset).cursor = a.seq := by
      simp [VaultRead.answer, hlength, hmore, ha]
    rw [hpage] at ha
    rw [hcursor, hpage]
    exact .of_split hn (fun r => mem_changedSince) changedSince_sorted
      (List.take_append_drop VAULT_PAGE_SIZE _).symm ha
  · have hpage : (db.read since).page = db.changedSince since := by
      rw [VaultRead.page, hlength, decide_eq_false hmore, if_neg Bool.noConfusion, VaultDb.read]
      exact List.take_of_length_le (by omega)
    have hcursor : ((db.read since).answer since reset).cursor = db.seq := by
      rw [VaultRead.answer, hlength, decide_eq_false hmore, if_neg Bool.noConfusion]
      exact max_eq_left hsince
    rw [hcursor, hpage]
    exact .of_all hn hsince fun r => mem_changedSince

theorem cursor_of_last {reset : Bool} (hsince : since ≤ db.seq)
    (hmore : (db.read since).more = false) :
    ((db.read since).answer since reset).cursor = db.seq := by
  rw [VaultRead.answer, hmore, if_neg Bool.noConfusion]
  exact max_eq_left hsince

end Pages

namespace VaultPull

/-- The copy that the pages so far make of the one the call started with. -/
def view (base : ItemId → Option VaultItem) (pull : VaultPull) (x : ItemId) : Option VaultItem :=
  if x ∈ pull.removed then none else (pull.items.get? x).or
    (if pull.rebuilding then none else base x)

variable {base : ItemId → Option VaultItem} {pull : VaultPull}

theorem view_remove (id x : ItemId) :
    (pull.remove id).view base x = if x = id then none else pull.view base x := by
  by_cases hx : x = id
  · simp [view, remove, hx]
  · have hget : ((pull.remove id).items.get? x) = pull.items.get? x := by
      ext r
      simp only [remove, Table.get?_eq_some, Table.mem_delete, decide_eq_false_iff_not, and_assoc]
      exact ⟨fun ⟨hr, _, hk⟩ => ⟨hr, hk⟩, fun ⟨hr, hk⟩ => ⟨hr, fun he => hx (hk.symm.trans he), hk⟩⟩
    have hmem : x ∈ (pull.remove id).removed ↔ x ∈ pull.removed := by simp [remove, hx]
    rw [if_neg hx, view, view, hget, if_congr hmem rfl rfl]
    rfl

theorem view_set (item : VaultItem) (x : ItemId) :
    (pull.set item).view base x = if x = item.id then some item else pull.view base x := by
  by_cases hx : x = item.id
  · simp [view, set, hx, Table.get?_put]
  · simp [view, set, hx, Table.get?_put]

theorem rebuilding_removes (ids : List ItemId) : (ids.foldl remove pull).rebuilding =
    pull.rebuilding := by
  induction ids generalizing pull with
  | nil => rfl
  | cons id ids ih => exact ih

theorem rebuilding_sets (items : List VaultItem) :
    (items.foldl set pull).rebuilding = pull.rebuilding := by
  induction items generalizing pull with
  | nil => rfl
  | cons item items ih => exact ih

theorem view_removes (ids : List ItemId) (x : ItemId) :
    (ids.foldl remove pull).view base x = if x ∈ ids then none else pull.view base x := by
  induction ids generalizing pull with
  | nil => rfl
  | cons id ids ih =>
    rw [List.foldl_cons, ih, view_remove]
    by_cases hx : x = id <;> simp [hx]

theorem view_sets_rest {items : List VaultItem} {x : ItemId} (hx : ∀ r ∈ items, r.id ≠ x) :
    (items.foldl set pull).view base x = pull.view base x := by
  induction items generalizing pull with
  | nil => rfl
  | cons item items ih =>
    rw [List.foldl_cons, ih fun r hr => hx r (List.mem_cons_of_mem _ hr), view_set,
      if_neg (hx item List.mem_cons_self).symm]

theorem view_sets {items : List VaultItem} (huniq : ∀ r ∈ items, ∀ s ∈ items, r.id = s.id → r = s)
    {r : VaultItem} (hr : r ∈ items) : (items.foldl set pull).view base r.id = some r := by
  induction items generalizing pull with
  | nil => exact absurd hr List.not_mem_nil
  | cons item items ih =>
    have hsub : ∀ q ∈ items, q ∈ item :: items := fun q hq => List.mem_cons_of_mem _ hq
    by_cases hmem : r ∈ items
    · exact ih (fun q hq s hs => huniq q (hsub q hq) s (hsub s hs)) hmem
    · obtain rfl : r = item := (List.mem_cons.mp hr).resolve_right hmem
      rw [List.foldl_cons, view_sets_rest, view_set, if_pos rfl]
      exact fun s hs he => hmem (huniq s (hsub s hs) r hr he ▸ hs)

/-- One page lays its rows over the copy. -/
theorem overlaid {page : List VaultItem} (huniq : ∀ r ∈ page, ∀ s ∈ page, r.id = s.id → r = s) :
    Changefeed.Overlaid VaultItem.id VaultItem.removed page (pull.view base)
      (((page.filter VaultItem.live).foldl set
        (((page.filter VaultItem.removed).map VaultItem.id).foldl remove pull)).view base) where
  shown := fun r hr => by
    cases hlive : r.live with
    | true =>
      rw [view_sets (fun q hq s hs => huniq q (List.mem_filter.mp hq).1 s (List.mem_filter.mp hs).1)
        (List.mem_filter.mpr ⟨hr, hlive⟩)]
      simp [VaultItem.removed, hlive]
    | false =>
      rw [view_sets_rest, view_removes, if_pos, VaultItem.removed, hlive]
      · rfl
      · exact List.mem_map.mpr ⟨r,
          List.mem_filter.mpr ⟨hr, by simp [VaultItem.removed, hlive]⟩, rfl⟩
      · intro s hs he
        obtain ⟨hs, hslive⟩ := List.mem_filter.mp hs
        rw [huniq s hs r hr he, hlive] at hslive
        exact absurd hslive Bool.noConfusion
  rest := fun x hx => by
    rw [view_sets_rest fun r hr => hx r (List.mem_filter.mp hr).1, view_removes, if_neg]
    intro hmem
    obtain ⟨r, hr, he⟩ := List.mem_map.mp hmem
    exact hx r (List.mem_filter.mp hr).1 he

/-- What a call that started from `since` has folded so far. -/
structure Tidy (since : ℕ) (pull : VaultPull) : Prop where
  apart : ∀ r ∈ pull.items, r.id ∉ pull.removed
  newer : pull.rebuilding = false → ∀ r ∈ pull.items, since < r.seq

variable {since : ℕ}

theorem Tidy.removes
    (h : pull.Tidy since) (ids : List ItemId) : (ids.foldl remove pull).Tidy since := by
  induction ids generalizing pull with
  | nil => exact h
  | cons id ids ih =>
    refine ih ⟨fun r hr => ?_, fun hre r hr => h.newer hre r (Table.mem_delete.mp hr).1⟩
    obtain ⟨hr, hne⟩ := Table.mem_delete.mp hr
    simp only [remove, List.mem_insert_iff, not_or]
    exact ⟨of_decide_eq_false hne, h.apart r hr⟩

theorem Tidy.sets {items : List VaultItem} (h : pull.Tidy since)
    (hnewer : pull.rebuilding = false → ∀ r ∈ items, since < r.seq) :
    (items.foldl set pull).Tidy since := by
  induction items generalizing pull with
  | nil => exact h
  | cons item items ih =>
    refine ih ⟨fun r hr => ?_, fun hre r hr => ?_⟩ fun hre r hr => hnewer hre
      r (List.mem_cons_of_mem _ hr)
    · simp only [set, List.mem_filter, decide_eq_true_eq, not_and, not_not]
      rcases Table.mem_put.mp hr with rfl | ⟨hr, _⟩
      · exact fun _ => rfl
      · exact fun hmem => absurd hmem (h.apart r hr)
    · rcases Table.mem_put.mp hr with rfl | ⟨hr, _⟩
      · exact hnewer hre r List.mem_cons_self
      · exact h.newer hre r hr

end VaultPull

theorem storeRecords_rest {items : List VaultItem} {records : Table VaultItem.id} {x : ItemId}
    (hx : ∀ r ∈ items, r.id ≠ x) : (items.foldl storeRecord records).get? x = records.get? x := by
  induction items generalizing records with
  | nil => rfl
  | cons item items ih =>
    rw [List.foldl_cons, ih fun r hr => hx r (List.mem_cons_of_mem _ hr), storeRecord]
    split_ifs
    · rw [Table.get?_put, if_neg (hx item List.mem_cons_self).symm]
    · rfl

theorem storeRecords_get {items : List VaultItem} {records : Table VaultItem.id}
    (huniq : ∀ r ∈ items, ∀ s ∈ items, r.id = s.id → r = s)
    (holder : ∀ r ∈ items, ∀ known, records.get? r.id = some known → known.seq ≤ r.seq)
    {r : VaultItem} (hr : r ∈ items) : (items.foldl storeRecord records).get? r.id = some r := by
  induction items generalizing records with
  | nil => exact absurd hr List.not_mem_nil
  | cons item items ih =>
    have hsub : ∀ q ∈ items, q ∈ item :: items := fun q hq => List.mem_cons_of_mem _ hq
    have hput : storeRecord records item = records.put item := by
      rw [storeRecord, if_pos]
      cases hknown : records.get? item.id with
      | none => rfl
      | some known => exact decide_eq_true (holder item List.mem_cons_self known hknown)
    rw [List.foldl_cons, hput]
    by_cases hmem : r ∈ items
    · refine ih (fun q hq s hs => huniq q (hsub q hq) s (hsub s hs))
        (fun q hq known hknown => ?_) hmem
      rw [Table.get?_put] at hknown
      split_ifs at hknown with he
      · obtain rfl := Option.some.inj hknown
        rw [huniq q (hsub q hq) item List.mem_cons_self he]
      · exact holder q (hsub q hq) known hknown
    · obtain rfl : r = item := (List.mem_cons.mp hr).resolve_right hmem
      rw [storeRecords_rest, Table.get?_put, if_pos rfl]
      exact fun s hs he => hmem (huniq s (hsub s hs) r hr he ▸ hs)

/-- The applied answer is the copy that the pages made. -/
theorem applyVaultChanges_get {pull : VaultPull} {since : ℕ} {copy : Table VaultItem.id}
    (h : pull.Tidy since)
    (hcopy : pull.rebuilding = false → ∀ known ∈ copy, known.seq ≤ since) (usage : VaultUsage)
    (x : ItemId) :
    (applyVaultChanges copy (pull.answer usage)).get? x = pull.view copy.get? x := by
  have hget : ∀ y, ((if pull.rebuilding then Table.empty else copy).delete
      fun r => decide (r.id ∈ pull.removed)).get? y =
        if y ∈ pull.removed then none else if pull.rebuilding then none else copy.get? y := by
    intro y
    ext r
    rw [Table.get?_eq_some, Table.mem_delete, decide_eq_false_iff_not]
    split_ifs with hre hmem hmem
    · exact iff_of_false (fun h' => Table.not_mem_empty h'.1.1) fun h => by cases h
    · exact iff_of_false (fun h' => Table.not_mem_empty h'.1.1) fun h => by cases h
    · exact iff_of_false (fun h' => h'.1.2 (h'.2 ▸ hmem)) fun h => by cases h
    · rw [Table.get?_eq_some]
      exact ⟨fun h' => ⟨h'.1.1, h'.2⟩, fun h' => ⟨⟨h'.1, fun hr => hmem (h'.2 ▸ hr)⟩, h'.2⟩⟩
  unfold applyVaultChanges VaultPull.view VaultPull.answer
  dsimp only
  by_cases hex : ∃ r ∈ pull.items, r.id = x
  · obtain ⟨r, hr, rfl⟩ := hex
    rw [storeRecords_get (fun q hq s hs => Table.eq_of_key hq hs) ?_ hr, if_neg (h.apart r hr),
      Table.get?_of_mem hr, Option.some_or]
    intro q hq known hknown
    rw [hget, if_neg (h.apart q hq)] at hknown
    split_ifs at hknown with hre
    have hre' := Bool.eq_false_iff.mpr hre
    exact (hcopy hre' known (Table.mem_of_get? hknown)).trans (h.newer hre' q hq).le
  · push Not at hex
    rw [storeRecords_rest hex, hget, Table.get?_eq_none.mpr hex, Option.none_or]

/-- The copy is the live items, as of the cursor. -/
def VaultDb.Current (db : VaultDb) (copy : Table VaultItem.id) (cursor : ℕ) : Prop :=
  cursor = db.seq ∧ ∀ id, copy.get? id = db.vaultItem id

theorem VaultDb.exact_iff {db : VaultDb} {copy : ItemId → Option VaultItem} :
    db.feed.Exact VaultItem.removed copy ↔ ∀ id, copy id = db.vaultItem id := by
  have hrow : ∀ id r, db.vaultItem id = some r ↔ r ∈ db.feed.rows ∧ r.id = id ∧
      r.removed = false := by
    intro id r
    rw [mem_vaultItem, VaultItem.removed, Bool.not_eq_false']
    exact Iff.rfl
  exact ⟨fun h id => Option.ext fun r => (h id r).trans (hrow id r).symm,
    fun h id r => by rw [h id, hrow]⟩

namespace PullCall

variable {base : ItemId → Option VaultItem} {since started : ℕ} {call : PullCall}

/-- The copy so far follows the table, or is being built from nothing. -/
def Follows (base : ItemId → Option VaultItem) (since started : ℕ) (db : VaultDb)
    (pull : VaultPull) : Prop :=
  if pull.rebuilding = true then
    Changefeed.Rebuilding VaultItem.seq VaultItem.removed started db.feed pull.cursor
      (pull.view base)
  else 0 < since ∧ since ≤ pull.cursor ∧
    Changefeed.Following VaultItem.seq VaultItem.removed db.feed pull.cursor (pull.view base)

structure Sound (base : ItemId → Option VaultItem) (since started : ℕ)
    (call : PullCall) : Prop where
  numbered : call.db.Numbered
  started_le : started ≤ call.db.seq
  tidy : call.pull.Tidy since
  follows : Follows base since started call.db call.pull
  done : ∀ changes, call.phase = .done changes →
    (∃ usage, changes = call.pull.answer usage) ∧ call.pull.cursor = call.db.seq

theorem Follows.le {db : VaultDb} {pull : VaultPull} (h : Follows base since started db pull) :
    pull.cursor ≤ db.seq := by
  unfold Follows at h
  split_ifs at h
  · exact h.mirrors.1
  · exact h.2.2.mirrors.1

theorem Follows.exact {db : VaultDb} {pull : VaultPull} (h : Follows base since started db pull)
    (hn : db.Numbered) (hcursor : pull.cursor = db.seq) :
    ∀ id, pull.view base id = db.vaultItem id := by
  refine VaultDb.exact_iff.mp ?_
  unfold Follows at h
  rw [hcursor] at h
  split_ifs at h
  · exact h.exact hn
  · exact h.2.2.exact hn

/-- A batch between two pages. -/
theorem Follows.commit {db : VaultDb} {pull : VaultPull} (h : Follows base since started db pull)
    (hn : db.Numbered) {batch : VaultBatch}
    (hkept : ∀ r ∈ db.items, started < r.seq → ∃ s ∈ (batch.commit db).items, s.id = r.id) :
    Follows base since started (batch.commit db) pull := by
  unfold Follows at h ⊢
  split_ifs at h ⊢
  · exact h.later (batch.commit_later hn) hkept
  · exact ⟨h.1, h.2.1, h.2.2.later (batch.commit_later hn)⟩

theorem kept_of_remembers {event : PullEvent} {batch : VaultBatch} (he : event = .commit batch)
    (hok : Remembers started call event) :
    ∀ r ∈ call.db.items, started < r.seq → ∃ s ∈ (batch.commit call.db).items, s.id = r.id := by
  subst he
  intro r hr hrecent
  rcases batch.commit_cases call.db with ⟨forgottenBefore, rfl⟩ | hadvances
  · refine ⟨r, Table.mem_delete.mpr ⟨hr, ?_⟩, rfl⟩
    rw [Bool.eq_false_iff]
    exact fun hforgotten => absurd (hok r hr hforgotten) (not_le.mpr hrecent)
  · exact hadvances.stamped.kept r hr

/-- The rows of a page, folded into the copy. -/
theorem fold_page {db : VaultDb} (hn : db.Numbered) (pull : VaultPull) {cursor : ℕ} (reset : Bool)
    (hcursor : cursor ≤ db.seq) :
    Changefeed.Overlaid VaultItem.id VaultItem.removed (db.read cursor).page
      ((if reset then pull.clear else pull).view base)
      ((pull.fold ((db.read cursor).answer cursor reset)).view base) := by
  have hpage := read_page hn hcursor reset
  have hover : Changefeed.Overlaid _ _ _ ((if reset then pull.clear else pull).view base) _ :=
    VaultPull.overlaid fun r hr s hs =>
      Table.eq_of_key ((hpage.mem r).mp hr).1 ((hpage.mem s).mp hs).1
  exact ⟨hover.shown, hover.rest⟩

theorem fold_rebuilding (pull : VaultPull) (page : VaultChanges) :
    (pull.fold page).rebuilding = (page.reset || pull.rebuilding) := by
  simp only [VaultPull.fold, VaultPull.rebuilding_sets, VaultPull.rebuilding_removes]
  split_ifs with h <;> simp [h, VaultPull.clear]

theorem fold_tidy {db : VaultDb} (hn : db.Numbered) {pull : VaultPull} (h : pull.Tidy since)
    {cursor : ℕ} (hcursor : cursor ≤ db.seq) {reset : Bool}
    (hsince : pull.rebuilding = false → reset = false → since ≤ cursor) :
    (pull.fold ((db.read cursor).answer cursor reset)).Tidy since := by
  have hclear : (if reset then pull.clear else pull).Tidy since := by
    split_ifs
    · exact ⟨fun _ hr => (Table.not_mem_empty hr).elim, fun _ _ hr => (Table.not_mem_empty hr).elim⟩
    · exact h
  have hpage := read_page hn hcursor reset
  have htidy : ((((db.read cursor).answer cursor reset).items).foldl VaultPull.set
      ((((db.read cursor).answer cursor reset).removed).foldl VaultPull.remove
        (if reset then pull.clear else pull))).Tidy since := by
    refine (hclear.removes _).sets fun hre r hr => ?_
    rw [VaultPull.rebuilding_removes] at hre
    have hseq := ((hpage.mem r).mp (List.mem_filter.mp hr).1).2.1
    cases reset with
    | true => exact absurd hre Bool.noConfusion
    | false => exact lt_of_le_of_lt (hsince hre rfl) hseq
  exact ⟨htidy.apart, htidy.newer⟩

/-- The next page of a listing, when the cursor is not under the floor. -/
theorem Follows.next {db : VaultDb} {pull : VaultPull} (h : Follows base since started db pull)
    (hn : db.Numbered) (hlive : (db.read pull.cursor).expired pull.cursor pull.continuing = false) :
    Follows base since started db (pull.fold ((db.read pull.cursor).answer pull.cursor false)) := by
  have hpage := read_page hn h.le false
  have hover : Changefeed.Overlaid _ _ _ (VaultPull.view base _) _ := fold_page hn pull false h.le
  unfold Follows at h ⊢
  rw [fold_rebuilding, VaultRead.answer, Bool.false_or]
  by_cases hre : pull.rebuilding = true
  · rw [if_pos hre] at h ⊢
    exact h.page hpage hover
  · rw [if_neg hre] at h ⊢
    have hfloor : db.feed.floor ≤ pull.cursor := by
      have hpos := lt_of_lt_of_le h.1 h.2.1
      refine not_lt.mp fun hlt => Bool.eq_false_iff.mp hlive ?_
      simp only [VaultRead.expired, VaultPull.continuing, Bool.and_eq_true, decide_eq_true_eq]
      exact ⟨⟨by simp [hre], hpos⟩, hlt⟩
    exact ⟨h.1, h.2.1.trans hpage.le, h.2.2.page hfloor hpage hover⟩

/-- The first page of a listing that starts over. -/
theorem follows_reset {db : VaultDb} (hn : db.Numbered) (hstarted : started ≤ db.seq)
    (pull : VaultPull) :
    Follows base since started db (pull.fold ((db.read 0).answer 0 true)) := by
  have hpage := read_page hn (Nat.zero_le db.seq) true
  have hover : Changefeed.Overlaid _ _ _ (VaultPull.view base _) _ :=
    fold_page hn pull true (Nat.zero_le db.seq)
  have hnothing : (pull.clear.view base) = fun _ => none := by
    funext x
    have hget : (Table.empty : Table VaultItem.id).get? x = none :=
      Table.get?_eq_none.mpr fun _ hr => (Table.not_mem_empty hr).elim
    simp [VaultPull.view, VaultPull.clear, hget]
  rw [if_pos rfl, hnothing] at hover
  unfold Follows
  rw [fold_rebuilding, VaultRead.answer, Bool.true_or, if_pos rfl]
  exact (Changefeed.Rebuilding.nothing hn hstarted).page hpage hover

/-- After a page. -/
theorem Sound.receive (h : Sound base since started call) {cursor : ℕ} {reset : Bool}
    (hcursor : cursor ≤ call.db.seq)
    (hsince : call.pull.rebuilding = false → reset = false → since ≤ cursor)
    (hfollows : Follows base since started call.db
      (call.pull.fold ((call.db.read cursor).answer cursor reset))) :
    Sound base since started (call.receive ((call.db.read cursor).answer cursor reset)) where
  numbered := h.numbered
  started_le := h.started_le
  tidy := fold_tidy h.numbered h.tidy hcursor hsince
  follows := hfollows
  done := fun changes hdone => by
    unfold PullCall.receive at hdone ⊢
    dsimp only at hdone ⊢
    split_ifs at hdone with hmore
    have hlast : ((call.db.read cursor).answer cursor reset).cursor = call.db.seq :=
      cursor_of_last hcursor (Bool.eq_false_iff.mpr hmore)
    exact ⟨⟨_, (PullPhase.done.inj hdone).symm⟩, hlast⟩

theorem Sound.step {call' : PullCall} {event : PullEvent} (h : Sound base since started call)
    (hok : Remembers started call event) (hstep : call.step event = some call') :
    Sound base since started call' := by
  cases event with
  | commit batch =>
    have hseq : started ≤ (batch.commit call.db).seq :=
      h.started_le.trans (batch.commit_later h.numbered).top
    have hcommitted : ∀ phase, (∀ changes, phase ≠ .done changes) →
        Sound base since started ⟨batch.commit call.db, call.pull, phase⟩ := fun phase hphase =>
      ⟨batch.commit_numbered h.numbered, hseq, h.tidy,
        h.follows.commit h.numbered (kept_of_remembers rfl hok),
        fun changes hdone => absurd hdone (hphase changes)⟩
    unfold PullCall.step at hstep
    cases hphase : call.phase <;> simp only [hphase, Option.some.injEq, reduceCtorEq] at hstep
    · exact hstep ▸ hcommitted .asking nofun
    · exact hstep ▸ hcommitted .resetting nofun
  | read =>
    unfold PullCall.step at hstep
    cases hphase : call.phase with
    | asking =>
      simp only [hphase] at hstep
      split_ifs at hstep with hexpired <;> obtain rfl := Option.some.inj hstep
      · exact ⟨h.numbered, h.started_le, h.tidy, h.follows, nofun⟩
      · refine h.receive h.follows.le (fun hre _ => ?_)
          (h.follows.next h.numbered (Bool.eq_false_iff.mpr hexpired))
        have hfollows := h.follows
        rw [Follows, hre, if_neg Bool.noConfusion] at hfollows
        exact hfollows.2.1
    | resetting =>
      simp only [hphase, Option.some.injEq] at hstep
      subst hstep
      exact h.receive (Nat.zero_le _) (fun _ hre => absurd hre Bool.noConfusion)
        (follows_reset h.numbered h.started_le call.pull)
    | done changes => simp [hphase] at hstep
  | retry =>
    unfold PullCall.step at hstep
    cases hphase : call.phase <;> simp only [hphase, Option.some.injEq, reduceCtorEq] at hstep
    all_goals exact hstep ▸ ⟨h.numbered, h.started_le, h.tidy, h.follows, nofun⟩

/-- Where a call starts: the copy was exact once, and batches were committed since. -/
theorem sound_begin {db₀ db₁ : VaultDb} {copy : Table VaultItem.id}
    (h₀ : Runs.Reachable VaultDb.write VaultDb.new db₀)
    (hcopy : since = 0 ∨ db₀.Current copy since) (h₁ : Runs.Reachable VaultDb.write db₀ db₁) :
    Sound copy.get? since db₁.seq (PullCall.begin db₁ since) := by
  have hn₁ := VaultDb.numbered_of_reachable (Runs.ReachableVia.trans h₀ h₁)
  refine ⟨hn₁, le_rfl,
    ⟨fun _ hr => (Table.not_mem_empty hr).elim, fun _ _ hr => (Table.not_mem_empty hr).elim⟩,
    ?_, nofun⟩
  have hget : ∀ x, (Table.empty : Table VaultItem.id).get? x = none := fun x =>
    Table.get?_eq_none.mpr fun _ hr => (Table.not_mem_empty hr).elim
  have hview : (VaultPull.begin since).view copy.get? = fun x =>
      if since = 0 then none else copy.get? x := by
    funext x
    simp [VaultPull.view, VaultPull.begin, hget]
  by_cases hzero : since = 0
  · subst hzero
    unfold Follows PullCall.begin
    rw [hview]
    exact Changefeed.Rebuilding.nothing hn₁ le_rfl
  · obtain ⟨hcursor, hexact⟩ := hcopy.resolve_left hzero
    have hfollowing : db₁.Numbered ∧
        Changefeed.Following VaultItem.seq VaultItem.removed db₁.feed since copy.get? := by
      refine h₁.invariant (I := fun db => db.Numbered ∧
        Changefeed.Following VaultItem.seq VaultItem.removed db.feed since copy.get?)
          ⟨VaultDb.numbered_of_reachable h₀, ?_⟩ ?_
      · rw [hcursor]
        exact (VaultDb.exact_iff.mpr hexact).following
      · intro db batch db' hdb _ hwrite
        obtain rfl := Option.some.inj hwrite
        exact ⟨batch.commit_numbered hdb.1, hdb.2.later (batch.commit_later hdb.1)⟩
    unfold Follows PullCall.begin
    rw [hview]
    simp only [VaultPull.begin, hzero, decide_false, Bool.false_eq_true, if_false]
    exact ⟨Nat.pos_of_ne_zero hzero, le_rfl, hfollowing.2⟩

/-- A call writes nothing: its batches are a history of the vault. -/
theorem reachable_db {db₁ : VaultDb} (h₁ : Runs.Reachable VaultDb.write VaultDb.new db₁)
    (hrun : Runs.ReachableVia PullCall.step (Remembers started) (PullCall.begin db₁ since) call) :
    Runs.Reachable VaultDb.write VaultDb.new call.db := by
  refine hrun.invariant (I := fun call => Runs.Reachable VaultDb.write VaultDb.new call.db) h₁
    fun call event call' hdb _ hstep => ?_
  have hcases : call'.db = call.db ∨ ∃ batch : VaultBatch, call'.db = batch.commit call.db := by
    cases event with
    | commit batch =>
      cases hphase : call.phase <;>
        simp only [PullCall.step, hphase, Option.some.injEq, reduceCtorEq] at hstep
      all_goals exact Or.inr ⟨batch, hstep ▸ rfl⟩
    | read =>
      cases hphase : call.phase <;>
        simp only [PullCall.step, hphase, Option.some.injEq, reduceCtorEq] at hstep
      · split_ifs at hstep <;> exact Or.inl (Option.some.inj hstep ▸ rfl)
      · exact Or.inl (hstep ▸ rfl)
    | retry =>
      cases hphase : call.phase <;>
        simp only [PullCall.step, hphase, Option.some.injEq, reduceCtorEq] at hstep
      all_goals exact Or.inl (hstep ▸ rfl)
  rcases hcases with heq | ⟨batch, heq⟩
  · rwa [heq]
  · rw [heq]
    exact .next hdb trivial rfl

/-- A call of `pullVaultChanges`, with any batches committed before it and between its
pages, ends with the live items and with a cursor that the next call can start from. -/
theorem pull_exact {db₀ db₁ : VaultDb} {copy : Table VaultItem.id} {changes : VaultChanges}
    (h₀ : Runs.Reachable VaultDb.write VaultDb.new db₀) (hcopy : since = 0 ∨ db₀.Current copy since)
    (h₁ : Runs.Reachable VaultDb.write db₀ db₁)
    (hrun : Runs.ReachableVia PullCall.step (Remembers db₁.seq) (PullCall.begin db₁ since) call)
    (hdone : call.phase = .done changes) :
    Runs.Reachable VaultDb.write VaultDb.new call.db ∧
      call.db.Current (applyVaultChanges copy changes) changes.cursor := by
  have hsound := hrun.invariant (sound_begin h₀ hcopy h₁) fun _ _ _ h hok hstep => h.step hok hstep
  obtain ⟨⟨usage, rfl⟩, hcursor⟩ := hsound.done changes hdone
  have hrecords : call.pull.rebuilding = false → ∀ known ∈ copy, known.seq ≤ since := by
    intro hre known hknown
    have hfollows := hsound.follows
    rw [Follows, hre, if_neg Bool.noConfusion] at hfollows
    obtain ⟨hseq, hexact⟩ := hcopy.resolve_left hfollows.1.ne'
    have hitem := VaultDb.mem_vaultItem.mp ((hexact known.id).symm.trans (Table.get?_of_mem hknown))
    rw [hseq]
    exact (VaultDb.numbered_of_reachable h₀).le_top known hitem.1
  refine ⟨reachable_db (Runs.ReachableVia.trans h₀ h₁) hrun, hcursor, fun id => ?_⟩
  rw [applyVaultChanges_get hsound.tidy hrecords]
  exact hsound.follows.exact hsound.numbered hcursor id

instance (started : ℕ) (call : PullCall) (event : PullEvent) :
    Decidable (Remembers started call event) := by
  unfold Remembers
  split <;> infer_instance

/-- A folder at the root. -/
def aFolder (id : ItemId) : VaultDb.NewItem where
  id := id
  parentId := none
  kind := .folder
  keyEpoch := 1
  «meta» := ⟨0, 0, (id, .folder), .named ""⟩
  metaIv := 0
  blobKey := none
  blobSize := 0

def oneFolder : VaultDb := (VaultBatch.create (aFolder 1) 0).commit VaultDb.new

theorem pull_exact_purged : ∃ call changes,
    Runs.ReachableVia PullCall.step (Remembers 1) (PullCall.begin oneFolder 1) call ∧
      call.phase = .done changes ∧ changes.removed = [1] ∧
        call.db.Current (applyVaultChanges oneFolder.items changes) changes.cursor := by
  have hrun : (Runs.replayVia PullCall.step (Remembers 1) (PullCall.begin oneFolder 1)
      [.commit (.create (aFolder 2) 0), .commit (.purge 1 [1] 0), .commit (.forget 0), .read]).any
        (fun call => match call.phase with
          | .done changes => decide (changes.removed = [1])
          | _ => false) = true := by decide
  obtain ⟨call, hcall, hdone⟩ := (Option.any_eq_true _ _).mp hrun
  have hreach := Runs.reachableVia_of_replayVia hcall
  cases hphase : call.phase with
  | asking => simp [hphase] at hdone
  | resetting => simp [hphase] at hdone
  | done changes =>
    have hremoved : changes.removed = [1] := by simpa [hphase] using hdone
    have hone : oneFolder.Current oneFolder.items 1 := by
      refine ⟨rfl, fun id => ?_⟩
      by_cases hid : id = 1
      · subst hid
        decide
      · rw [VaultDb.vaultItem, Table.get?_eq_none.mpr fun r hr he => hid ?_]
        · rfl
        · obtain rfl := List.mem_singleton.mp hr
          exact he.symm
    exact ⟨call, changes, hreach, hphase, hremoved,
      (pull_exact (.next .start trivial rfl) (Or.inr hone) .start hreach hphase).2⟩

end PullCall
end SendSelf
