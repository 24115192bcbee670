import SendSelf.Library.Burial
import SendSelf.Vault.Handlers

/-!
# The vault's server

Calls of the handlers, interleaved at their awaits. A call may fail or be cut off at any
of them, and what it wrote until then stays.
-/
namespace SendSelf

inductive VaultRequest where
  | create (req : CreateVaultItemRequest)
  | update (id : ItemId) (req : UpdateVaultItemRequest)
  | reseal (req : VaultResealRequest)
  | delete (id : ItemId)
  | cleanUp

/-- A request and how far its handler has come. -/
inductive VaultJob where
  | create (req : CreateVaultItemRequest) (stage : CreateStage)
  | update (id : ItemId) (req : UpdateVaultItemRequest) (stage : UpdateStage)
  | reseal (req : VaultResealRequest) (stage : ResealStage)
  | delete (id : ItemId) (stage : DeleteStage)
  | cleanUp (stage : CleanUpStage)

def VaultRequest.job : VaultRequest → VaultJob
  | .create req => .create req .received
  | .update id req => .update id req .received
  | .reseal req => .reseal req .received
  | .delete id => .delete id .received
  | .cleanUp => .cleanUp .selecting

namespace VaultJob

/-- Run a handler up to its next await. -/
def next (started : ℕ) (m : VaultMoment) (rows : List ItemId) (db : VaultDb) :
    VaultJob → Option (VaultDb × VaultJob)
  | .create req stage =>
      let r := createVaultItem.next req m db stage
      some (r.1, .create req r.2)
  | .update id req stage =>
      let r := updateVaultItem.next id req m db stage
      some (r.1, .update id req r.2)
  | .reseal req stage =>
      let r := resealVaultItems.next req m db stage
      some (r.1, .reseal req r.2)
  | .delete id stage => (deleteVaultItem.next id m rows db stage).map fun r => (r.1, .delete id r.2)
  | .cleanUp stage => (cleanUpVault.next started m rows db stage).map fun r => (r.1, .cleanUp r.2)

/-- The item whose purge has begun and has not returned. -/
def root : VaultJob → Option ItemId
  | .delete id (.purging _) => some id
  | .cleanUp (.purging id _ _) => some id
  | _ => none

end VaultJob

structure VaultCall where
  job : VaultJob
  started : ℕ
  /-- It failed, or was cut off. -/
  cut : Bool

structure VaultServer where
  db : VaultDb
  groupKeyEpoch : ℕ
  clock : ℕ
  calls : List VaultCall
  /-- History: the roots of the purges that have returned. -/
  purged : List ItemId
  /-- History: the items whose tombstones were forgotten. -/
  forgotten : List ItemId

inductive VaultEvent where
  | receive (request : VaultRequest)
  /-- `rows` is what an unordered query returns. -/
  | run (i : ℕ) (rows : List ItemId) (limited : Bool)
  | cut (i : ℕ)
  | tick
  | rotate
  | content (blobs : Table UploadRow.r2Key)

namespace VaultServer

def moment (s : VaultServer) (limited : Bool) : VaultMoment := ⟨s.groupKeyEpoch, s.clock, limited⟩

/-- The root of a purge that this step returned from. -/
def returned (before after : VaultJob) : List ItemId :=
  if after.root = none then before.root.toList else []

/-- The rows that a batch deleted. -/
def dropped (before after : VaultDb) : List ItemId :=
  (before.items.select fun r => (after.items.get? r.id).isNone).map VaultItem.id

def step (s : VaultServer) : VaultEvent → Option VaultServer
  | .receive request => some { s with calls := s.calls ++ [⟨request.job, s.clock, false⟩] }
  | .run i rows limited => do
      let call ← (s.calls[i]?).filter fun call => !call.cut
      let next ← call.job.next call.started (s.moment limited) rows s.db
      return { s with
        db := next.1
        calls := s.calls.set i { call with job := next.2 }
        purged := returned call.job next.2 ++ s.purged
        forgotten := dropped s.db next.1 ++ s.forgotten }
  | .cut i => (s.calls[i]?).map fun call =>
      { s with calls := s.calls.set i { call with cut := true } }
  | .tick => some { s with clock := s.clock + 1 }
  | .rotate => some { s with groupKeyEpoch := s.groupKeyEpoch + 1 }
  | .content blobs => some { s with db := { s.db with blobs } }

/-- The vault of a new space. -/
def new : VaultServer := ⟨.new, INITIAL_KEY_EPOCH, 0, [], [], []⟩

/-- A purge of `root` that came in at `started` is at work. -/
def Purging (s : VaultServer) (root : ItemId) (started : ℕ) : Prop :=
  ∃ c ∈ s.calls, c.cut = false ∧ c.job.root = some root ∧ c.started = started

/-- A purge failed or was cut off. -/
def Interrupted (s : VaultServer) : Prop := ∃ c ∈ s.calls, c.cut = true ∧ c.job.root.isSome = true

/-- No purge is in progress, and none was interrupted. -/
def Quiet (s : VaultServer) : Prop := ∀ c ∈ s.calls, c.job.root = none

end VaultServer

def VaultItem.node (r : VaultItem) : Node ItemId :=
  ⟨r.parentId, decide (r.kind = .folder), r.removedAt⟩

namespace VaultDb

/-- The tree of the rows, tombstones included. -/
def tree (db : VaultDb) : Tree ItemId := fun x => (db.items.get? x).map VaultItem.node

theorem parent_tree (db : VaultDb) : db.tree.parent = db.parentOf := by
  funext x
  rw [Tree.parent, tree, Option.bind_map]
  rfl

theorem tree_eq_some {db : VaultDb} {x : ItemId} {n : Node ItemId} :
    db.tree x = some n ↔ ∃ r ∈ db.items, r.id = x ∧ r.node = n := by
  rw [tree, Option.map_eq_some_iff]
  exact ⟨fun ⟨r, hr, hn⟩ => ⟨r, (Table.get?_eq_some.mp hr).1, (Table.get?_eq_some.mp hr).2, hn⟩,
    fun ⟨r, hr, hx, hn⟩ => ⟨r, Table.get?_eq_some.mpr ⟨hr, hx⟩, hn⟩⟩

theorem live_iff {r : VaultItem} : r.live = true ↔ r.removedAt = none := Option.isNone_iff_eq_none

theorem tree_live {db : VaultDb} {x : ItemId} :
    db.tree.Live x ↔ ∃ r ∈ db.items, r.id = x ∧ r.live = true := by
  constructor
  · intro ⟨n, hn, hlive⟩
    obtain ⟨r, hr, hx, rfl⟩ := tree_eq_some.mp hn
    exact ⟨r, hr, hx, live_iff.mpr hlive⟩
  · intro ⟨r, hr, hx, hlive⟩
    exact ⟨_, tree_eq_some.mpr ⟨r, hr, hx, rfl⟩, live_iff.mp hlive⟩

theorem tree_liveFolder {db : VaultDb} {x : ItemId} :
    db.tree.LiveFolder x ↔ db.liveFolder x = true := by
  rw [liveFolder, Table.exist_iff]
  constructor
  · intro ⟨n, hn, hlive, hfolder⟩
    obtain ⟨r, hr, hx, rfl⟩ := tree_eq_some.mp hn
    exact ⟨r, hr,
      Bool.and_eq_true _ _ ▸ ⟨decide_eq_true ⟨hx, of_decide_eq_true hfolder⟩, live_iff.mpr hlive⟩⟩
  · intro ⟨r, hr, h⟩
    simp only [Bool.and_eq_true, decide_eq_true_eq] at h
    exact ⟨_, tree_eq_some.mpr ⟨r, hr, h.1.1, rfl⟩, live_iff.mp h.2, decide_eq_true h.1.2⟩

theorem subtree_iff_tree {db : VaultDb} {root id : ItemId} :
    db.subtree root id = true ↔ Forest.Above db.tree.parent root id := by
      rw [parent_tree, subtree_iff]

theorem tree_of_items {db db' : VaultDb} (h : db'.items = db.items) : db'.tree = db.tree := by
  unfold tree
  rw [h]

theorem get?_change {db : VaultDb} {id : ItemId} {guard : VaultItem → Bool}
    {f : VaultItem → VaultItem} (x : ItemId) :
    (db.change id guard f).1.items.get? x = (db.items.get? x).map fun r =>
      if (decide (r.id = id) && r.live && guard r) = true then stamp (db.seq + 1) f r else r := by
  simp only [change, nextVaultSeq, Table.get?_update]

/-- A statement that changes nothing. -/
theorem tree_change_none {db : VaultDb} {id : ItemId} {guard : VaultItem → Bool}
    {f : VaultItem → VaultItem}
    (h : (db.vaultItem id).filter guard = none) : (db.change id guard f).1.tree = db.tree := by
  funext x
  rw [tree, tree, get?_change, Option.map_map]
  refine Option.map_congr fun r hr => ?_
  obtain ⟨hmem, rfl⟩ := Table.get?_eq_some.mp hr
  rw [Function.comp_apply, if_neg]
  intro hhit
  simp only [Bool.and_eq_true, decide_eq_true_eq] at hhit
  have hsome : (db.vaultItem id).filter guard = some r :=
    Option.filter_eq_some_iff.mpr ⟨mem_vaultItem.mpr ⟨hmem, hhit.1.1, hhit.1.2⟩, hhit.2⟩
  exact absurd (h.symm.trans hsome) (Option.some_ne_none r).symm

/-- A statement that changes a row. -/
theorem tree_change_some {db : VaultDb} {id : ItemId} {guard : VaultItem → Bool}
    {f : VaultItem → VaultItem} {r : VaultItem} (h : (db.vaultItem id).filter guard = some r) :
    (db.change id guard f).1.tree = db.tree.set id (f r).node := by
  obtain ⟨hitem, hguard⟩ := Option.filter_eq_some_iff.mp h
  obtain ⟨hmem, hid, hlive⟩ := mem_vaultItem.mp hitem
  funext x
  by_cases hx : x = id
  · subst hx
    have hget : db.items.get? x = some r := Table.get?_eq_some.mpr ⟨hmem, hid⟩
    rw [tree, get?_change, hget, Option.map_some, if_pos (by simp [hid, hlive, hguard]),
      Tree.set_self]
    rfl
  · rw [Tree.set_of_ne hx, tree, tree, get?_change, Option.map_map]
    refine Option.map_congr fun q hq => ?_
    rw [Function.comp_apply, if_neg]
    intro hhit
    simp only [Bool.and_eq_true, decide_eq_true_eq] at hhit
    exact hx ((Table.get?_eq_some.mp hq).2.symm.trans hhit.1.1)

theorem set_node_self {db : VaultDb} {r : VaultItem} (hr : r ∈ db.items) :
    db.tree.set r.id r.node = db.tree := by
  funext x
  by_cases hx : x = r.id
  · subst hx
    rw [Tree.set_self, tree, Table.get?_of_mem hr]
    rfl
  · exact Tree.set_of_ne hx _

/-- A statement that leaves the place and the life of a row alone. -/
theorem tree_change_node {db : VaultDb} {id : ItemId} {guard : VaultItem → Bool}
    {f : VaultItem → VaultItem}
    (hf : ∀ r, (f r).node = r.node) : (db.change id guard f).1.tree = db.tree := by
  cases h : (db.vaultItem id).filter guard with
  | none => exact tree_change_none h
  | some r =>
    obtain ⟨hmem, hid, _⟩ := mem_vaultItem.mp (Option.filter_eq_some_iff.mp h).1
    rw [tree_change_some h, hf, ← hid, set_node_self hmem]

theorem tree_reseal (keyEpoch now : ℕ) (items : List ResealedItem) (db : VaultDb) :
    (db.reseal keyEpoch items now).tree = db.tree := by
  induction items generalizing db with
  | nil => rfl
  | cons item items ih => exact (ih _).trans (tree_change_node fun _ => rfl)

theorem tree_forget (forgottenBefore : ℕ) (db : VaultDb) :
    (db.forget forgottenBefore).tree = db.tree.forgotten fun n => n.removedAt.any fun d =>
      decide (d < forgottenBefore) := by
  funext x
  simp only [tree, forget, Table.get?_delete, Tree.forgotten]
  cases db.items.get? x with
  | none => rfl
  | some r =>
    have hnode : (r.node.removedAt.any fun d => decide (d < forgottenBefore)) =
        forgettable forgottenBefore r := rfl
    cases h : forgettable forgottenBefore r <;> simp [Option.filter, hnode, h]

end VaultDb
end SendSelf
