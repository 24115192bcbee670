import SendSelf.Library.Levels
import SendSelf.Vault.Clients
import SendSelf.Vault.Trees

/-!
# The vault on screen

Three readings of one hierarchy: whether an item shows is found by walking up from it, its
folder's children are grouped by their parents, and the rows are listed by descending into
the open folders. The walk down stops below depth 64, so the readings agree exactly on the
vaults in which no item that is out of the trash has more folders above it.
-/
namespace SendSelf.VaultScreen

/-- The opened records of a vault, by their ids. -/
abbrev VaultEntries := Table fun e : VaultEntry => e.record.id

def recordsOf (entries : VaultEntries) (id : ItemId) : Option VaultItem :=
  (entries.get? id).map VaultEntry.record

/-- The loop of `isVaultItemVisible` with so many rounds left. -/
def visibleWithin (records : ItemId → Option VaultItem) : ℕ → Option VaultItem → Bool
  | 0, _ => false
  | _, none => false
  | rounds + 1, some current =>
      if current.trashedAt ≠ none then false
      else match current.parentId with
        | none => true
        | some parentId => visibleWithin records rounds (records parentId)

def isVaultItemVisible (records : ItemId → Option VaultItem) (record : VaultItem) : Bool :=
  visibleWithin records 256 (some record)

def visibleVaultEntries (entries : VaultEntries) : List VaultEntry :=
  entries.rows.filter fun e => isVaultItemVisible (recordsOf entries) e.record

inductive TreeRow where
  | item (entry : VaultEntry) (depth : ℕ) (expanded : Bool) (childCount : ℕ)
  | empty (parentId : ItemId) (depth : ℕ)
deriving DecidableEq, Repr

variable (localeCompare : String → String → ℤ)

def compareEntries (a b : VaultEntry) : ℤ :=
  let aFolder := decide (a.record.kind = .folder)
  let bFolder := decide (b.record.kind = .folder)
  if aFolder ≠ bFolder then if aFolder then -1 else 1
  else if aFolder then
    localeCompare ((a.meta.map VaultItemMeta.name).getD "\uffff")
      ((b.meta.map VaultItemMeta.name).getD "\uffff")
  else b.record.updatedAt - a.record.updatedAt

/-- The children of every folder, and of the top level. -/
abbrev Children := Option ItemId → List VaultEntry

def groupChildren (entries : List VaultEntry) : Children :=
  let children := entries.foldl
    (fun (children : Children) entry =>
      Function.update children entry.record.parentId (children entry.record.parentId ++ [entry]))
    fun _ => []
  fun parentId => (children parentId).mergeSort fun a b =>
    decide (compareEntries localeCompare a b ≤ 0)

variable (children : Children) (expanded : ItemId → Bool)

/-- An open folder. -/
def isOpen (entry : VaultEntry) : Bool :=
  decide (entry.record.kind = .folder) && entry.meta.isSome && expanded entry.record.id

def childCount (entry : VaultEntry) : ℕ :=
  if entry.record.kind = .folder then (children (some entry.record.id)).length else 0

def walk (parentId : Option ItemId) (depth : ℕ) : List TreeRow :=
  if 64 < depth then []
  else (children parentId).flatMap fun entry =>
    .item entry depth (isOpen expanded entry) (childCount children entry) ::
      if !isOpen expanded entry then []
      else if childCount children entry = 0 then [.empty entry.record.id (depth + 1)]
      else walk (some entry.record.id) (depth + 1)
termination_by 65 - depth

def flattenTree (rootId : Option ItemId) : List TreeRow := walk children expanded rootId 0

/-- The items that are listed, and how deep. -/
def itemsOf (rows : List TreeRow) : List (VaultEntry × ℕ) :=
  rows.filterMap fun
    | .item entry depth _ _ => some (entry, depth)
    | .empty _ _ => none

def emptiesOf (rows : List TreeRow) : List ItemId :=
  rows.filterMap fun
    | .item _ _ _ _ => none
    | .empty parentId _ => some parentId

def parentOf (entries : VaultEntries) (id : ItemId) : Option ItemId :=
  (entries.get? id).bind fun e => e.record.parentId

/-- A set of records that the server can hold, all opened. -/
structure OpenedForest (entries : VaultEntries) : Prop where
  acyclic : Forest.Acyclic (parentOf entries)
  parents : ∀ e ∈ entries, ∀ p, e.record.parentId = some p → ∃ folder ∈ entries,
    folder.record.id = p ∧ folder.record.kind = .folder
  opened : ∀ e ∈ entries, e.meta.isSome = true

/-- Neither the item nor any folder above it is trashed. -/
def Untrashed (entries : VaultEntries) (id : ItemId) : Prop :=
  ∀ e ∈ entries, Forest.Above (parentOf entries) e.record.id id → e.record.trashedAt = none

/-- The rows for a vault of which these folders are expanded. -/
def rowsOf (entries : VaultEntries) : List TreeRow :=
  flattenTree (groupChildren localeCompare (visibleVaultEntries entries)) expanded none

structure ShownOnce (entries : VaultEntries) : Prop where
  visible : ∀ e ∈ entries, isVaultItemVisible (recordsOf entries) e.record = true ↔
    Untrashed entries e.record.id
  all : ∀ expanded : ItemId → Bool,
    (∀ e ∈ entries, e.record.kind = .folder → expanded e.record.id = true) →
    ((itemsOf (rowsOf localeCompare expanded entries)).map Prod.fst).Perm
      (visibleVaultEntries entries)
  nodup : ∀ expanded, ((itemsOf (rowsOf localeCompare expanded entries)).map Prod.fst).Nodup
  listed : ∀ expanded e, e ∈ (itemsOf (rowsOf localeCompare expanded entries)).map Prod.fst ↔
    e ∈ visibleVaultEntries entries ∧ ∀ a ∈ Forest.ancestors (parentOf entries) e.record.id,
      expanded a = true
  depth : ∀ expanded, ∀ item ∈ itemsOf (rowsOf localeCompare expanded entries),
    item.2 = (Forest.ancestors (parentOf entries) item.1.record.id).ncard
  afterParent : ∀ expanded pre post e depth isOpen count p,
    rowsOf localeCompare expanded entries = pre ++ .item e depth isOpen count :: post →
      e.record.parentId = some p →
    ∃ folder ∈ (itemsOf pre).map Prod.fst, folder.record.id = p
  empties : ∀ expanded, emptiesOf (rowsOf localeCompare expanded entries) =
    (((itemsOf (rowsOf localeCompare expanded entries)).map Prod.fst).filter fun e =>
      decide (e.record.kind = .folder) && expanded e.record.id &&
        (visibleVaultEntries entries).all fun child =>
          decide (child.record.parentId ≠ some e.record.id)).map
      fun e => e.record.id

/-- No item out of the trash has more than 64 folders above it. -/
def Shallow (entries : VaultEntries) : Prop :=
  ∀ e ∈ entries, Untrashed entries e.record.id →
  (Forest.ancestors (parentOf entries) e.record.id).ncard ≤ 64

variable {entries : VaultEntries}

theorem get?_entry {e : VaultEntry} (he : e ∈ entries) : entries.get? e.record.id = some e :=
  Table.get?_of_mem he

theorem parentOf_entry {e : VaultEntry} (he : e ∈ entries) :
    parentOf entries e.record.id = e.record.parentId := by
  rw [parentOf, get?_entry he, Option.bind_some]

theorem exists_entry {x y : ItemId} (h : parentOf entries x = some y) :
    ∃ e ∈ entries, e.record.id = x := by
  obtain ⟨e, he, _⟩ := Option.bind_eq_some_iff.mp h
  obtain ⟨hmem, hid⟩ := Table.get?_eq_some.mp he
  exact ⟨e, hmem, hid⟩

theorem OpenedForest.exists_level (h : OpenedForest entries) (x : ItemId) :
    ∃ n, Forest.Level (parentOf entries) n x := by
  have hnodes : ∀ x y, parentOf entries x = some y →
      x ∈ (entries.rows.map fun e => e.record.id).toFinset := by
    intro x y hxy
    obtain ⟨e, he, rfl⟩ := exists_entry hxy
    exact List.mem_toFinset.mpr (List.mem_map.mpr ⟨e, he, rfl⟩)
  exact h.acyclic.exists_level hnodes x

/-- An item is out of the trash if it is not trashed itself and its folder is out of it. -/
theorem untrashed_iff {e : VaultEntry} (he : e ∈ entries) :
    Untrashed entries e.record.id ↔
      e.record.trashedAt = none ∧ ∀ p, e.record.parentId = some p → Untrashed entries p := by
  constructor
  · intro h
    refine ⟨h e he (Forest.above_refl _), fun p hp a ha habove => h a ha (habove.trans ?_)⟩
    exact Forest.above_of_parent ((parentOf_entry he).trans hp)
  · rintro ⟨hself, hparent⟩ a ha habove
    rcases Forest.above_iff.mp habove with hid | ⟨p, hp, habove⟩
    · rw [Table.eq_of_key ha he hid.symm]
      exact hself
    · exact hparent p ((parentOf_entry he).symm.trans hp) a ha habove

/-- So many rounds reach the top level from any smaller depth. -/
theorem visibleWithin_iff (h : OpenedForest entries) {rounds n : ℕ} {e : VaultEntry}
    (he : e ∈ entries) (hn : Forest.Level (parentOf entries) n e.record.id) :
    visibleWithin (recordsOf entries) rounds (some e.record) = true ↔ n < rounds ∧
    Untrashed entries e.record.id := by
  induction rounds generalizing n e with
  | zero => simp [visibleWithin]
  | succ rounds ih =>
      rw [visibleWithin, untrashed_iff he]
      by_cases htrashed : e.record.trashedAt = none
      · rw [if_neg (not_not.mpr htrashed)]
        cases hp : e.record.parentId with
        | none =>
            have hzero : n = 0 := hn.unique (.top ((parentOf_entry he).trans hp))
            simp [htrashed, hzero]
        | some p =>
            obtain ⟨folder, hfolder, rfl, _⟩ := h.parents e he p hp
            obtain ⟨m, rfl, hm⟩ := hn.of_parent ((parentOf_entry he).trans hp)
            have hrecord : recordsOf entries folder.record.id = some folder.record := by
              rw [recordsOf, get?_entry hfolder, Option.map_some]
            simp only [hrecord, ih hfolder hm, htrashed, Option.some.injEq, forall_eq', true_and]
            rw [Nat.add_lt_add_iff_right]
      · rw [if_pos htrashed]
        simp [htrashed]

theorem isVaultItemVisible_iff (h : OpenedForest entries) {n : ℕ} {e : VaultEntry}
    (he : e ∈ entries) (hn : Forest.Level (parentOf entries) n e.record.id) :
    isVaultItemVisible (recordsOf entries) e.record = true ↔ n < 256 ∧
    Untrashed entries e.record.id :=
  visibleWithin_iff h he hn

theorem mem_visible {e : VaultEntry} :
    e ∈ visibleVaultEntries entries ↔ e ∈ entries ∧
    isVaultItemVisible (recordsOf entries) e.record = true :=
  List.mem_filter

theorem nodup_visible : (visibleVaultEntries entries).Nodup :=
  (List.Nodup.of_map _ entries.nodup).filter _

variable {localeCompare}

theorem group_loop (es : List VaultEntry) (children : Children) (p : Option ItemId) :
    es.foldl (fun (children : Children) entry =>
      Function.update children entry.record.parentId (children entry.record.parentId ++ [entry]))
        children p =
      children p ++ es.filter fun e => decide (e.record.parentId = p) := by
  induction es generalizing children with
  | nil => simp
  | cons e es ih =>
      rw [List.foldl_cons, ih]
      by_cases hp : e.record.parentId = p
      · subst hp
        simp
      · rw [Function.update_of_ne (Ne.symm hp), List.filter_cons_of_neg (by simpa using hp)]

/-- A group is what has this parent, in some order. -/
theorem groupChildren_perm (es : List VaultEntry) (p : Option ItemId) :
    (groupChildren localeCompare es p).Perm (es.filter fun e =>
      decide (e.record.parentId = p)) := by
  simp only [groupChildren, group_loop, List.nil_append]
  exact List.mergeSort_perm _ _

theorem mem_groupChildren {es : List VaultEntry} {p : Option ItemId} {e : VaultEntry} :
    e ∈ groupChildren localeCompare es p ↔ e ∈ es ∧ e.record.parentId = p := by
  rw [(groupChildren_perm es p).mem_iff, List.mem_filter, decide_eq_true_eq]

variable {children expanded}

@[simp] theorem itemsOf_append (a b : List TreeRow) : itemsOf (a ++ b) = itemsOf a ++ itemsOf b :=
  List.filterMap_append

/-- The rows inside an item. -/
def inside (children : Children) (expanded : ItemId → Bool) (depth : ℕ) (entry : VaultEntry) :
    List TreeRow :=
  if !isOpen expanded entry then []
  else if childCount children entry = 0 then [.empty entry.record.id (depth + 1)]
  else walk children expanded (some entry.record.id) (depth + 1)

theorem walk_deep {p : Option ItemId} {depth : ℕ} (h : 64 < depth) :
    walk children expanded p depth = [] := by
  rw [walk, if_pos h]

theorem walk_eq {p : Option ItemId} {depth : ℕ} (h : depth ≤ 64) : walk children expanded p depth =
    (children p).flatMap fun entry =>
      .item entry depth (isOpen expanded entry) (childCount children entry) :: inside children
        expanded depth entry := by
  rw [walk, if_neg (Nat.not_lt.mpr h)]
  rfl

/-- Found by going down from `p` through open folders, so many levels deeper. -/
inductive Shown (children : Children) (expanded : ItemId → Bool) : Option ItemId →
    VaultEntry → ℕ → Prop
  | here {p : Option ItemId} {e : VaultEntry} (he : e ∈ children p) : Shown children expanded p e 0
  | under {p : Option ItemId} {e x : VaultEntry} {n : ℕ} (he : e ∈ children p)
      (hopen : isOpen expanded e = true)
      (hx : Shown children expanded (some e.record.id) x n) : Shown children expanded p x (n + 1)

theorem isOpen_folder {e : VaultEntry} (h : isOpen expanded e = true) :
    e.record.kind = .folder := by
  simp only [isOpen, Bool.and_eq_true, decide_eq_true_eq] at h
  exact h.1.1

theorem childCount_open {e : VaultEntry} (h : isOpen expanded e = true) :
    childCount children e = 0 ↔ children (some e.record.id) = [] := by
  rw [childCount, if_pos (isOpen_folder h), List.length_eq_zero_iff]

/-- What is listed inside an item, whether or not it has children. -/
theorem itemsOf_inside (depth : ℕ) (e : VaultEntry) : itemsOf (inside children expanded depth e) =
    if isOpen expanded e = true then
      itemsOf (walk children expanded (some e.record.id) (depth + 1))
    else [] := by
  rw [inside]
  by_cases hopen : isOpen expanded e = true
  · rw [if_neg (by simp [hopen]), if_pos hopen]
    split_ifs with hcount
    · rw [walk, (childCount_open hopen).mp hcount]
      split_ifs <;> rfl
    · rfl
  · rw [if_pos (by simp [hopen]), if_neg hopen]
    rfl

theorem itemsOf_walk {p : Option ItemId} {depth : ℕ} (h : depth ≤ 64) :
    itemsOf (walk children expanded p depth) =
    (children p).flatMap fun e => (e, depth) :: itemsOf (inside children expanded depth e) := by
  rw [walk_eq h, itemsOf, List.filterMap_flatMap]
  rfl

theorem mem_itemsOf_walk {p : Option ItemId} {depth m : ℕ} {x : VaultEntry} :
    (x, m) ∈ itemsOf (walk children expanded p depth) ↔
      m ≤ 64 ∧ ∃ n, m = depth + n ∧ Shown children expanded p x n := by
  induction hk : 65 - depth generalizing p depth with
  | zero =>
      rw [walk_deep (by omega)]
      refine iff_of_false List.not_mem_nil ?_
      rintro ⟨hm, n, rfl, _⟩
      omega
  | succ k ih =>
      have hdepth : depth ≤ 64 := by omega
      simp only [itemsOf_walk hdepth, List.mem_flatMap, List.mem_cons, Prod.mk.injEq]
      constructor
      · rintro ⟨e, he, ⟨rfl, rfl⟩ | hin⟩
        · exact ⟨hdepth, 0, rfl, .here he⟩
        · rw [itemsOf_inside] at hin
          split_ifs at hin with hopen
          · obtain ⟨hm, n, rfl, hx⟩ := (ih (by omega)).mp hin
            exact ⟨hm, n + 1, by omega, .under he hopen hx⟩
          · exact absurd hin List.not_mem_nil
      · rintro ⟨hm, n, rfl, hx⟩
        cases hx with
        | here he => exact ⟨x, he, Or.inl ⟨rfl, rfl⟩⟩
        | @under _ e _ n he hopen hx =>
            refine ⟨e, he, Or.inr ?_⟩
            rw [itemsOf_inside, if_pos hopen]
            exact (ih (by omega)).mpr ⟨hm, n, by omega, hx⟩

/-- Children under their parents, each of them once. -/
structure Grouped (entries : VaultEntries) (children : Children) : Prop where
  mem : ∀ {p e}, e ∈ children p → e ∈ entries ∧ e.record.parentId = p
  nodup : ∀ p, (children p).Nodup

section Grouped
variable (hg : Grouped entries children)
include hg

theorem Shown.ancestor {p : ItemId} {x : VaultEntry} {n : ℕ}
    (h : Shown children expanded (some p) x n) :
    Forest.ancestor (parentOf entries) (n + 1) x.record.id = some p := by
  generalize hq : some p = q at h
  induction h generalizing p with
  | here he =>
      obtain ⟨he, hp⟩ := hg.mem he
      rw [Forest.ancestor, parentOf_entry he, hp, ← hq]
      rfl
  | @under _ e x n he _ _ ih =>
      obtain ⟨he, hp⟩ := hg.mem he
      rw [Forest.ancestor_add, ih rfl, Option.bind_some, Forest.ancestor,
        parentOf_entry he, hp, ← hq]
      rfl

/-- Nothing is listed twice at one depth. -/
theorem nodup_itemsOf_walk (p : Option ItemId) (depth : ℕ) :
    (itemsOf (walk children expanded p depth)).Nodup := by
  induction hk : 65 - depth generalizing p depth with
  | zero =>
      rw [walk_deep (by omega)]
      exact List.nodup_nil
  | succ k ih =>
      rw [itemsOf_walk (by omega), List.nodup_flatMap]
      have hdeeper : ∀ e x m, (x, m) ∈ itemsOf (inside children expanded depth e) →
          ∃ n, m = depth + 1 + n ∧ Shown children expanded (some e.record.id) x n := by
        intro e x m hin
        rw [itemsOf_inside] at hin
        split_ifs at hin
        · exact (mem_itemsOf_walk.mp hin).2
        · exact absurd hin List.not_mem_nil
      refine ⟨fun e _ => List.nodup_cons.mpr ⟨fun hin => ?_, ?_⟩,
        (hg.nodup p).imp_of_mem fun {a b} ha hb hne => ?_⟩
      · obtain ⟨n, hn, _⟩ := hdeeper e e depth hin
        omega
      · rw [itemsOf_inside]
        split_ifs
        · exact ih _ (depth + 1) (by omega)
        · exact List.nodup_nil
      · rintro ⟨x, m⟩ hxa hxb
        rcases List.mem_cons.mp hxa with ha' | ha' <;> rcases List.mem_cons.mp hxb with hb' | hb'
        · exact hne ((congrArg Prod.fst ha').symm.trans (congrArg Prod.fst hb'))
        · obtain ⟨n, hn, _⟩ := hdeeper b x m hb'
          have hm : m = depth := congrArg Prod.snd ha'
          omega
        · obtain ⟨n, hn, _⟩ := hdeeper a x m ha'
          have hm : m = depth := congrArg Prod.snd hb'
          omega
        · obtain ⟨n, hn, hxa⟩ := hdeeper a x m ha'
          obtain ⟨n', hn', hxb⟩ := hdeeper b x m hb'
          obtain rfl : n = n' := by omega
          have hid : a.record.id = b.record.id :=
            Option.some.inj ((hxa.ancestor hg).symm.trans (hxb.ancestor hg))
          exact hne (Table.eq_of_key (hg.mem ha).1 (hg.mem hb).1 hid)

/-- From the top level, the depth is the level and every folder on the way is open. -/
theorem Shown.level {p : Option ItemId} {x : VaultEntry} {n : ℕ}
    (h : Shown children expanded p x n) :
    (p = none → Forest.Level (parentOf entries) n x.record.id) ∧
      ∀ q m, p = some q → Forest.Level (parentOf entries) m q →
        Forest.Level (parentOf entries) (m + 1 + n) x.record.id := by
  induction h with
  | @here p e he =>
      obtain ⟨he, hp⟩ := hg.mem he
      refine ⟨fun hnone => .top ((parentOf_entry he).trans (hp.trans hnone)), fun q m hq hm => ?_⟩
      exact .under ((parentOf_entry he).trans (hp.trans hq)) hm
  | @under p e x n he _ _ ih =>
      obtain ⟨he, hp⟩ := hg.mem he
      constructor
      · intro hnone
        have hlevel := ih.2 _ 0 rfl (.top ((parentOf_entry he).trans (hp.trans hnone)))
        rwa [Nat.zero_add, Nat.add_comm] at hlevel
      · intro q m hq hm
        have hlevel := ih.2 _ (m + 1) rfl (.under ((parentOf_entry he).trans (hp.trans hq)) hm)
        rwa [Nat.add_assoc, Nat.add_comm 1 n] at hlevel

theorem Shown.expanded_above {p : Option ItemId} {x : VaultEntry} {n : ℕ}
    (h : Shown children expanded p x n) {a : ItemId}
    (ha : a ∈ Forest.ancestors (parentOf entries) x.record.id) :
    expanded a = true ∨ ∃ q, p = some q ∧ Forest.Above (parentOf entries) a q := by
  induction h with
  | @here p e he =>
      obtain ⟨he, hp⟩ := hg.mem he
      rcases Forest.above_iff.mp ha.1 with hself | ⟨q, hq, habove⟩
      · exact absurd hself.symm ha.2
      · exact Or.inr ⟨q, hp.symm.trans ((parentOf_entry he).symm.trans hq), habove⟩
  | @under p e x n he hopen _ ih =>
      obtain ⟨he, hp⟩ := hg.mem he
      rcases ih ha with hexp | ⟨q, hq, habove⟩
      · exact Or.inl hexp
      · obtain rfl := Option.some.inj hq
        rcases Forest.above_iff.mp habove with hself | ⟨q, hq, habove⟩
        · simp only [isOpen, Bool.and_eq_true] at hopen
          exact Or.inl (hself ▸ hopen.2)
        · exact Or.inr ⟨q, hp.symm.trans ((parentOf_entry he).symm.trans hq), habove⟩

end Grouped

theorem Shown.child {p : Option ItemId} {x : VaultEntry} {n : ℕ}
    (h : Shown children expanded p x n) :
    ∃ q, x ∈ children q := by
  induction h with
  | @here p _ he => exact ⟨p, he⟩
  | under _ _ _ ih => exact ih

/-- One level further. -/
theorem Shown.snoc {p : Option ItemId} {e x : VaultEntry} {n : ℕ}
    (h : Shown children expanded p e n)
    (hopen : isOpen expanded e = true) (hx : x ∈ children (some e.record.id)) :
    Shown children expanded p x (n + 1) := by
  induction h with
  | here he => exact .under he hopen (.here hx)
  | under he hopen' _ ih => exact .under he hopen' (ih hopen hx)

/-- Every item comes after its parent, unless that is `p`. -/
def ParentFirst (p : Option ItemId) (rows : List TreeRow) : Prop :=
  ∀ pre post e depth isOpen count, rows = pre ++ .item e depth isOpen count :: post →
    e.record.parentId = p ∨ ∃ folder ∈ (itemsOf pre).map Prod.fst,
    e.record.parentId = some folder.record.id

theorem parentFirst_nil (p : Option ItemId) : ParentFirst p [] := by
  intro pre post e depth isOpen count h
  exact absurd h.symm (List.append_ne_nil_of_right_ne_nil pre (List.cons_ne_nil _ _))

theorem ParentFirst.append {p : Option ItemId} {a b : List TreeRow} (ha : ParentFirst p a)
    (hb : ParentFirst p b) :
    ParentFirst p (a ++ b) := by
  intro pre post e depth isOpen count h
  rcases List.append_eq_append_iff.mp h with ⟨rest, rfl, hrest⟩ | ⟨rest, rfl, hrest⟩
  · refine (hb rest post e depth isOpen count hrest).imp_right fun hfolder => ?_
    obtain ⟨folder, hmem, hid⟩ := hfolder
    rw [itemsOf_append, List.map_append]
    exact ⟨folder, List.mem_append_right _ hmem, hid⟩
  · cases rest with
    | nil =>
        refine (hb [] post e depth isOpen count hrest.symm).imp_right fun hfolder => ?_
        obtain ⟨folder, hmem, _⟩ := hfolder
        exact absurd hmem List.not_mem_nil
    | cons row rest =>
        rw [List.cons_append, List.cons.injEq] at hrest
        obtain ⟨rfl, _⟩ := hrest
        exact ha pre rest e depth isOpen count rfl

theorem ParentFirst.flatMap {p : Option ItemId} {es : List VaultEntry}
    {rows : VaultEntry → List TreeRow}
    (h : ∀ e ∈ es, ParentFirst p (rows e)) : ParentFirst p (es.flatMap rows) := by
  induction es with
  | nil => exact parentFirst_nil p
  | cons e es ih =>
      rw [List.flatMap_cons]
      exact (h e List.mem_cons_self).append (ih fun x hx => h x (List.mem_cons_of_mem _ hx))

theorem ParentFirst.under {e : VaultEntry} {depth count : ℕ} {isOpen : Bool} {rows : List TreeRow}
    (h : ParentFirst (some e.record.id) rows) :
    ParentFirst e.record.parentId (.item e depth isOpen count :: rows) := by
  intro pre post x depth' isOpen' count' heq
  cases pre with
  | nil =>
      rw [List.nil_append, List.cons.injEq, TreeRow.item.injEq] at heq
      exact Or.inl (heq.1.1 ▸ rfl)
  | cons row pre =>
      rw [List.cons_append, List.cons.injEq] at heq
      obtain ⟨rfl, heq⟩ := heq
      refine Or.inr ?_
      rcases h pre post x depth' isOpen' count' heq with hp | ⟨folder, hmem, hid⟩
      · exact ⟨e, List.mem_cons_self, hp⟩
      · exact ⟨folder, List.mem_cons_of_mem _ hmem, hid⟩

theorem parentFirst_walk (hg : Grouped entries children) (p : Option ItemId) (depth : ℕ) :
    ParentFirst p (walk children expanded p depth) := by
  induction hk : 65 - depth generalizing p depth with
  | zero =>
      rw [walk_deep (by omega)]
      exact parentFirst_nil p
  | succ k ih =>
      rw [walk_eq (by omega)]
      refine ParentFirst.flatMap fun e he => ?_
      have hinside : ParentFirst (some e.record.id) (inside children expanded depth e) := by
        rw [inside]
        split_ifs
        · exact parentFirst_nil _
        · intro pre post x depth' isOpen' count' heq
          have hmem : TreeRow.item x depth' isOpen' count' ∈
              [TreeRow.empty e.record.id (depth + 1)] := by
            rw [heq]
            exact List.mem_append_right _ List.mem_cons_self
          exact absurd (List.mem_singleton.mp hmem) (by simp)
        · exact ih _ (depth + 1) (by omega)
      obtain rfl := (hg.mem he).2
      exact hinside.under

/-- A folder with nothing in it has its empty row, wherever it is listed. -/
theorem emptiesOf_walk (p : Option ItemId) (depth : ℕ) :
    emptiesOf (walk children expanded p depth) =
    (((itemsOf (walk children expanded p depth)).map Prod.fst).filter fun e =>
      isOpen expanded e && decide (children (some e.record.id) = [])).map fun e => e.record.id := by
  induction hk : 65 - depth generalizing p depth with
  | zero =>
      rw [walk_deep (by omega)]
      rfl
  | succ k ih =>
      have hinside : ∀ e, emptiesOf (inside children expanded depth e) =
          ((((e, depth) :: itemsOf (inside children expanded depth e)).map Prod.fst).filter fun e =>
            isOpen expanded e && decide (children (some e.record.id) = [])).map fun e =>
              e.record.id := by
        intro e
        rw [itemsOf_inside, inside]
        by_cases hopen : isOpen expanded e = true
        · rw [if_neg (by simp [hopen]), if_pos hopen]
          by_cases hnone : children (some e.record.id) = []
          · have hwalk : walk children expanded (some e.record.id) (depth + 1) = [] := by
              rw [walk, hnone]
              split_ifs <;> rfl
            rw [if_pos ((childCount_open hopen).mpr hnone), hwalk]
            simp [emptiesOf, itemsOf, hopen, hnone]
          · rw [if_neg fun hcount => hnone ((childCount_open hopen).mp hcount),
              ih _ (depth + 1) (by omega),
              List.map_cons, List.filter_cons_of_neg (by simp [hnone])]
        · rw [if_pos (by simp [hopen]), if_neg hopen, List.map_cons,
            List.filter_cons_of_neg (by simp [hopen])]
          rfl
      rw [itemsOf_walk (by omega), walk_eq (by omega), emptiesOf, List.filterMap_flatMap,
        List.map_flatMap,
        List.filter_flatMap, List.map_flatMap]
      exact congrArg (List.flatMap · (children p)) (funext fun e => hinside e)

theorem grouped_visible :
    Grouped entries (groupChildren localeCompare (visibleVaultEntries entries)) where
  mem he := (mem_groupChildren.mp he).imp (fun hvisible => (mem_visible.mp hvisible).1) id
  nodup p := (groupChildren_perm _ p).nodup_iff.mpr (nodup_visible.filter _)

theorem ancestors_entry (h : OpenedForest entries) {a x : ItemId}
    (ha : a ∈ Forest.ancestors (parentOf entries) x) :
    ∃ folder ∈ entries, folder.record.id = a ∧ folder.record.kind = .folder := by
  rcases Relation.ReflTransGen.cases_tail ha.1 with he | ⟨y, _, hy⟩
  · exact absurd he ha.2
  · obtain ⟨e, he, rfl⟩ := exists_entry hy
    exact h.parents e he a ((parentOf_entry he).symm.trans hy)

/-- What is listed from the top level is what shows and has only open folders above it. -/
theorem shown_iff (h : OpenedForest entries) {x : VaultEntry} {n : ℕ} :
    Shown (groupChildren localeCompare (visibleVaultEntries entries)) expanded none x n ↔
      x ∈ visibleVaultEntries entries ∧ Forest.Level (parentOf entries) n x.record.id ∧
        ∀ a ∈ Forest.ancestors (parentOf entries) x.record.id, expanded a = true := by
  constructor
  · intro hx
    refine ⟨?_, (hx.level grouped_visible).1 rfl, fun a ha => ?_⟩
    · obtain ⟨q, hq⟩ := hx.child
      exact (mem_groupChildren.mp hq).1
    · rcases hx.expanded_above grouped_visible ha with hexp | ⟨q, hq, _⟩
      · exact hexp
      · exact absurd hq (Option.some_ne_none q).symm
  · rintro ⟨hx, hlevel, hexp⟩
    induction n generalizing x with
    | zero =>
        cases hlevel with
        | top hp =>
          exact .here
            (mem_groupChildren.mpr ⟨hx, (parentOf_entry (mem_visible.mp hx).1).symm.trans hp⟩)
    | succ n ih =>
        cases hlevel with
        | @under _ _ p hp hlevel =>
            obtain ⟨hmem, hshows⟩ := mem_visible.mp hx
            have hparent := (parentOf_entry hmem).symm.trans hp
            obtain ⟨hn, huntrashed⟩ := (isVaultItemVisible_iff h hmem (.under hp hlevel)).mp hshows
            obtain ⟨folder, hfolder, rfl, hkind⟩ := h.parents x hmem p hparent
            have hfolder' : folder ∈ visibleVaultEntries entries := by
              refine mem_visible.mpr ⟨hfolder,
                (isVaultItemVisible_iff h hfolder hlevel).mpr ⟨by omega, ?_⟩⟩
              exact ((untrashed_iff hmem).mp huntrashed).2 _ hparent
            have habove := (Forest.Level.under hp hlevel).ancestors_under hp
            have hshown := ih hfolder' hlevel fun a ha => hexp a (habove ▸ Or.inr ha)
            refine hshown.snoc ?_ (mem_groupChildren.mpr ⟨hx, hparent⟩)
            simp only [isOpen, hkind, h.opened folder hfolder, decide_true, Bool.true_and]
            exact hexp _ (habove ▸ Or.inl rfl)

theorem mem_itemsOf_rows (h : OpenedForest entries) {x : VaultEntry} {m : ℕ} :
    (x, m) ∈ itemsOf (rowsOf localeCompare expanded entries) ↔
      m ≤ 64 ∧ x ∈ visibleVaultEntries entries ∧ Forest.Level (parentOf entries) m x.record.id ∧
        ∀ a ∈ Forest.ancestors (parentOf entries) x.record.id, expanded a = true := by
  rw [rowsOf, flattenTree, mem_itemsOf_walk]
  simp only [Nat.zero_add, exists_eq_left', shown_iff h]

theorem shownOnce_of_shallow (h : OpenedForest entries) (hs : Shallow entries) :
    ShownOnce localeCompare entries := by
  have hdepth : ∀ x ∈ visibleVaultEntries entries, ∃ n ≤ 64,
      Forest.Level (parentOf entries) n x.record.id := by
    intro x hx
    obtain ⟨hmem, hshows⟩ := mem_visible.mp hx
    obtain ⟨n, hn⟩ := h.exists_level x.record.id
    refine ⟨n, ?_, hn⟩
    rw [← hn.ncard]
    exact hs x hmem ((isVaultItemVisible_iff h hmem hn).mp hshows).2
  have hlisted : ∀ expanded e, e ∈ (itemsOf (rowsOf localeCompare expanded entries)).map Prod.fst ↔
      e ∈ visibleVaultEntries entries ∧ ∀ a ∈ Forest.ancestors (parentOf entries) e.record.id,
      expanded a = true := by
    intro expanded e
    constructor
    · intro he
      obtain ⟨⟨e, m⟩, hm, rfl⟩ := List.mem_map.mp he
      obtain ⟨_, hvisible, _, hexp⟩ := (mem_itemsOf_rows h).mp hm
      exact ⟨hvisible, hexp⟩
    · rintro ⟨hvisible, hexp⟩
      obtain ⟨n, hn, hlevel⟩ := hdepth e hvisible
      exact List.mem_map.mpr ⟨(e, n), (mem_itemsOf_rows h).mpr ⟨hn, hvisible, hlevel, hexp⟩, rfl⟩
  have hnodup : ∀ expanded,
      ((itemsOf (rowsOf localeCompare expanded entries)).map Prod.fst).Nodup := by
    intro expanded
    refine (nodup_itemsOf_walk grouped_visible none 0).map_on ?_
    rintro ⟨x, m⟩ hm ⟨y, n⟩ hn rfl
    have hsame := ((mem_itemsOf_rows h).mp hm).2.2.1.unique ((mem_itemsOf_rows h).mp hn).2.2.1
    rw [hsame]
  refine ⟨fun e he => ?_, fun expanded hall => ?_, hnodup, hlisted, fun expanded item hitem => ?_,
    ?_, fun expanded => ?_⟩
  · obtain ⟨n, hn⟩ := h.exists_level e.record.id
    rw [isVaultItemVisible_iff h he hn]
    refine ⟨fun hboth => hboth.2, fun huntrashed => ⟨?_, huntrashed⟩⟩
    have hle := hs e he huntrashed
    rw [hn.ncard] at hle
    omega
  · refine (List.perm_ext_iff_of_nodup (hnodup expanded) nodup_visible).mpr fun e => ?_
    rw [hlisted]
    refine and_iff_left fun a ha => ?_
    obtain ⟨folder, hfolder, rfl, hkind⟩ := ancestors_entry h ha
    exact hall folder hfolder hkind
  · exact ((mem_itemsOf_rows h).mp hitem).2.2.1.ncard.symm
  · intro expanded pre post e depth isOpen count p heq hp
    rcases parentFirst_walk grouped_visible none 0 pre post e depth isOpen count heq with hnone |
      ⟨folder, hmem, hid⟩
    · exact absurd (hnone.symm.trans hp) (Option.some_ne_none p).symm
    · exact ⟨folder, hmem, Option.some.inj (hid.symm.trans hp)⟩
  · rw [rowsOf, flattenTree, emptiesOf_walk]
    refine congrArg _ (List.filter_congr fun e he => ?_)
    have hopened := h.opened e (mem_visible.mp ((hlisted expanded e).mp he).1).1
    have hnone : groupChildren localeCompare (visibleVaultEntries entries) (some e.record.id) = [] ↔
        ∀ child ∈ visibleVaultEntries entries, child.record.parentId ≠ some e.record.id := by
      rw [List.eq_nil_iff_forall_not_mem]
      simp only [mem_groupChildren, not_and]
    rw [isOpen, hopened, Bool.and_true, Bool.eq_iff_iff]
    simp only [Bool.and_eq_true, decide_eq_true_eq, hnone, List.all_eq_true]

theorem shallow_of_shownOnce (h : OpenedForest entries) (hs : ShownOnce localeCompare entries) :
    Shallow entries := by
  intro e he huntrashed
  have hvisible := mem_visible.mpr ⟨he, (hs.visible e he).mpr huntrashed⟩
  have hlisted := (hs.listed (fun _ => true) e).mpr ⟨hvisible, fun _ _ => rfl⟩
  obtain ⟨⟨e, m⟩, hm, rfl⟩ := List.mem_map.mp hlisted
  rw [← hs.depth _ _ hm]
  exact ((mem_itemsOf_rows h).mp hm).1

/-- Every item out of the trash is shown in one place exactly if none of them is too deep. -/
theorem shownOnce_iff {entries : VaultEntries} (h : OpenedForest entries) :
    ShownOnce localeCompare entries ↔ Shallow entries :=
  ⟨shallow_of_shownOnce h, shownOnce_of_shallow h⟩

/-- A device that has opened the live items of a server at rest holds such a forest. -/
theorem openedForest_of_server {s : VaultServer}
    (hreach : Runs.ReachableVia VaultServer.step VaultServer.Careful .new s)
    (hquiet : s.Quiet) (hopened : ∀ e ∈ entries, e.meta.isSome = true)
    (hrecords : ∀ r, (∃ e ∈ entries, e.record = r) ↔ r ∈ s.db.items ∧ r.live = true) :
    OpenedForest entries := by
  have hforest := VaultServer.live_forest hreach
  have hparent : ∀ x y, parentOf entries x = some y → s.db.parentOf x = some y := by
    intro x y hxy
    obtain ⟨e, he, rfl⟩ := exists_entry hxy
    obtain ⟨hrow, _⟩ := (hrecords e.record).mp ⟨e, he, rfl⟩
    rw [VaultDb.parentOf, Table.get?_of_mem hrow]
    exact (parentOf_entry he).symm.trans hxy
  refine ⟨hforest.acyclic.mono hparent, fun e he p hp => ?_, hopened⟩
  obtain ⟨hrow, hlive⟩ := (hrecords e.record).mp ⟨e, he, rfl⟩
  have hup := hparent _ _ ((parentOf_entry he).trans hp)
  have hne : p ≠ e.record.id := fun hself => hforest.acyclic _ _ hup (hself ▸ Forest.above_refl _)
  have hfolder := (hforest.rooted hquiet e.record hrow hlive).1 p (Forest.above_of_parent hup) hne
  obtain ⟨r, hr, hcond⟩ := Table.exist_iff.mp hfolder
  simp only [Bool.and_eq_true, decide_eq_true_eq] at hcond
  obtain ⟨folder, hmem, rfl⟩ := (hrecords r).mpr ⟨hr, hcond.2⟩
  exact ⟨folder, hmem, hcond.1.1, hcond.1.2⟩

/-- The `i`-th of folders each in the one before it. -/
def nestedFolder (i : ℕ) : VaultEntry where
  record :=
    { id := i, parentId := if i = 0 then none else some (i - 1), kind := .folder,
      keyEpoch := some 0,
      «meta» := some ⟨0, 0, (i, .folder), .named ""⟩, metaIv := some 0, blobKey := none,
      blobSize := 0, revision := 1,
      seq := i + 1, createdAt := 0, updatedAt := 0, trashedAt := none, removedAt := none }
  «meta» := some (.named "")

def nested (n : ℕ) : VaultEntries where
  rows := (List.range n).map nestedFolder
  nodup := by
    rw [List.map_map]
    exact (List.map_id _).symm ▸ List.nodup_range

theorem mem_nested {n : ℕ} {e : VaultEntry} : e ∈ nested n ↔ ∃ i < n, nestedFolder i = e := by
  simp [Table.mem_def, nested]

theorem parentOf_nested {n x y : ℕ} : parentOf (nested n) x = some y ↔ x < n ∧ x = y + 1 := by
  constructor
  · intro h
    obtain ⟨e, he, rfl⟩ := exists_entry h
    obtain ⟨i, hi, rfl⟩ := mem_nested.mp he
    rw [parentOf_entry he] at h
    simp only [nestedFolder] at h ⊢
    split_ifs at h with hzero
    have hy : i - 1 = y := Option.some.inj h
    omega
  · rintro ⟨hx, rfl⟩
    exact (parentOf_entry (mem_nested.mpr ⟨y + 1, hx, rfl⟩)).trans (by simp [nestedFolder])

theorem above_nested {n a x : ℕ} (h : Forest.Above (parentOf (nested n)) a x) : a ≤ x := by
  induction h with
  | refl => exact le_rfl
  | tail _ hstep ih =>
      have hparent := (parentOf_nested.mp hstep).2
      omega

theorem openedForest_nested (n : ℕ) : OpenedForest (nested n) where
  acyclic x y hxy habove := by
    have hparent := (parentOf_nested.mp hxy).2
    have hle := above_nested habove
    omega
  parents e he p hp := by
    obtain ⟨i, hi, rfl⟩ := mem_nested.mp he
    have hparent := parentOf_nested.mp ((parentOf_entry he).trans hp)
    exact ⟨nestedFolder p, mem_nested.mpr ⟨p, by omega, rfl⟩, rfl, rfl⟩
  opened e he := by
    obtain ⟨i, _, rfl⟩ := mem_nested.mp he
    rfl

theorem level_nested {n i : ℕ} (h : i < n) : Forest.Level (parentOf (nested n)) i i := by
  induction i with
  | zero =>
      refine .top (Option.eq_none_iff_forall_ne_some.mpr fun y hy => ?_)
      exact absurd (parentOf_nested.mp hy).2 (Nat.succ_ne_zero y).symm
  | succ i ih => exact .under (parentOf_nested.mpr ⟨h, rfl⟩) (ih (by omega))

theorem shallow_nested {n : ℕ} (h : n ≤ 65) : Shallow (nested n) := by
  intro e he _
  obtain ⟨i, hi, rfl⟩ := mem_nested.mp he
  have hlevel : Forest.Level (parentOf (nested n)) i (nestedFolder i).record.id := level_nested hi
  rw [hlevel.ncard]
  omega

theorem shownOnce_nested : ShownOnce (fun _ _ => 0) (nested 65) :=
  (shownOnce_iff (openedForest_nested 65)).mpr (shallow_nested le_rfl)

/-- Of 66 folders each in the one before, the innermost shows but is not listed. -/
theorem nested_not_listed :
    isVaultItemVisible (recordsOf (nested 66)) (nestedFolder 65).record = true ∧
      nestedFolder 65 ∉ (itemsOf (rowsOf (fun _ _ => 0) (fun _ => true) (nested 66))).map Prod.fst ∧
      ¬ ShownOnce (fun _ _ => 0) (nested 66) := by
  have hmem : nestedFolder 65 ∈ nested 66 := mem_nested.mpr ⟨65, by omega, rfl⟩
  have hvisible : isVaultItemVisible (recordsOf (nested 66)) (nestedFolder 65).record = true := by
    decide +kernel
  have hnot :
      nestedFolder 65 ∉ (itemsOf (rowsOf (fun _ _ => 0) (fun _ => true) (nested 66))).map
        Prod.fst := by
    intro hlisted
    obtain ⟨⟨e, m⟩, hm, he⟩ := List.mem_map.mp hlisted
    obtain ⟨hle, _, hlevel, _⟩ := (mem_itemsOf_rows (openedForest_nested 66)).mp hm
    obtain rfl : e = nestedFolder 65 := he
    have hdepth : m = 65 := hlevel.unique (level_nested (by omega))
    omega
  refine ⟨hvisible, hnot, fun hs => hnot ?_⟩
  exact ((hs.all (fun _ => true) fun _ _ _ => rfl).mem_iff).mpr (mem_visible.mpr ⟨hmem, hvisible⟩)

end SendSelf.VaultScreen
