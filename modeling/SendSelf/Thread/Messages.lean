import Mathlib.Algebra.Order.Ring.Unbundled.Rat
import Mathlib.Data.List.Nodup
import SendSelf.Library.BinarySearch

/-!
# The messages in memory

The page keeps its messages in a list sorted by time. An update of a message it has takes
the place of the older version, and any other message goes after those of its time.
-/
namespace SendSelf.Thread

structure Batch where
  id : String
  index : ℚ
  count : ℚ
deriving DecidableEq

/-- A row with what its place in the thread depends on, and the `rest` of it. -/
structure LocalMessage (β : Type) where
  id : String
  senderDeviceId : String
  createdAt : ℕ
  batch : Option Batch
  rest : β
deriving DecidableEq

variable {β : Type}

/-- `(lo + hi) >>> 1` is half of it for the indices of any array there is. -/
def insertSorted (list : List (LocalMessage β)) (message : LocalMessage β) :
    List (LocalMessage β) :=
  let lo :=
    BinarySearch.search (fun m => decide (m.createdAt ≤ message.createdAt)) list 0 list.length
  list.take lo ++ message :: list.drop lo

def applyMessageUpdate (current : List (LocalMessage β)) (message : LocalMessage β) :
    List (LocalMessage β) :=
  match current.findIdx? fun m => decide (m.id = message.id) with
  | some idx => current.set idx message
  | none => insertSorted current message

/-- The last version of a message in a history. -/
def latest (history : List (LocalMessage β)) (id : String) : Option (LocalMessage β) :=
  history.reverse.find? fun m => decide (m.id = id)

/-- The messages of one time. -/
def idsAt (t : ℕ) (list : List (LocalMessage β)) : List String :=
  (list.filter fun m => decide (m.createdAt = t)).map LocalMessage.id

/-- The list has the last version of each message of a history, sorted by time, and those
of one time in the order in which they came first. -/
structure Shows (history list : List (LocalMessage β)) : Prop where
  sorted : list.Pairwise fun a b => a.createdAt ≤ b.createdAt
  ids : (list.map LocalMessage.id).Nodup
  newest : ∀ m, m ∈ list ↔ latest history m.id = some m
  order : ∀ t, idsAt t list = (idsAt t history).eraseDups

/-- A message keeps its time. -/
def KeepsTimes (history : List (LocalMessage β)) : Prop :=
  ∀ a ∈ history, ∀ b ∈ history, a.id = b.id → a.createdAt = b.createdAt

variable {history list : List (LocalMessage β)} {message : LocalMessage β}

theorem idsAt_append (t : ℕ) (list list' : List (LocalMessage β)) :
    idsAt t (list ++ list') = idsAt t list ++ idsAt t list' := by
  rw [idsAt, List.filter_append, List.map_append]
  rfl

theorem idsAt_cons (t : ℕ) (m : LocalMessage β) (list : List (LocalMessage β)) :
    idsAt t (m :: list) = if m.createdAt = t then m.id :: idsAt t list else idsAt t list := by
  rw [idsAt, List.filter_cons]
  by_cases h : m.createdAt = t <;> simp [h, idsAt]

theorem mem_idsAt {t : ℕ} {list : List (LocalMessage β)} {id : String} :
    id ∈ idsAt t list ↔ ∃ m ∈ list, m.createdAt = t ∧ m.id = id := by
  simp only [idsAt, List.mem_map, List.mem_filter, decide_eq_true_eq, and_assoc]

theorem latest_append (id : String) : latest (history ++ [message]) id =
    if message.id = id then some message else latest history id := by
  rw [latest, List.reverse_append, List.reverse_singleton, List.singleton_append, List.find?_cons]
  by_cases h : message.id = id <;> simp [h, latest]

theorem mem_of_latest {id : String} {m : LocalMessage β} (h : latest history id = some m) :
    m ∈ history ∧ m.id = id :=
  ⟨List.mem_reverse.mp (List.mem_of_find?_eq_some h), by simpa using List.find?_some h⟩

theorem latest_eq_none {id : String} :
    latest history id = none ↔ id ∉ history.map LocalMessage.id := by
  simp only [latest, List.find?_eq_none, List.mem_reverse, decide_eq_true_eq, List.mem_map,
    not_exists, not_and]

/-- The ids of a history are those of the list. -/
theorem Shows.mem_ids (h : Shows history list) (id : String) :
    id ∈ list.map LocalMessage.id ↔ id ∈ history.map LocalMessage.id := by
  constructor
  · intro hid
    obtain ⟨m, hm, rfl⟩ := List.mem_map.mp hid
    exact List.mem_map.mpr ⟨m, (mem_of_latest ((h.newest m).mp hm)).1, rfl⟩
  · intro hid
    cases hlatest : latest history id with
    | none => exact absurd hid (latest_eq_none.mp hlatest)
    | some m =>
      obtain ⟨_, rfl⟩ := mem_of_latest hlatest
      exact List.mem_map.mpr ⟨m, (h.newest m).mpr hlatest, rfl⟩

theorem eraseDups_of_nodup {ids : List String} (h : ids.Nodup) : ids.eraseDups = ids := by
  induction ids with
  | nil => rfl
  | cons id ids ih =>
    obtain ⟨hnot, hrest⟩ := List.nodup_cons.mp h
    have hall : ids.filter (fun b => !b == id) = ids :=
      List.filter_eq_self.mpr fun b hb => by simpa using fun he : b = id => hnot (he ▸ hb)
    rw [List.eraseDups_cons, hall, ih hrest]

theorem eraseDups_concat (ids : List String) (id : String) :
    (ids ++ [id]).eraseDups = if id ∈ ids then ids.eraseDups else ids.eraseDups ++ [id] := by
  rw [List.eraseDups_append]
  by_cases h : id ∈ ids <;> simp [h, List.removeAll, List.eraseDups_cons]

/-- A sorted list shows itself. -/
theorem shows_self (hsorted : list.Pairwise fun a b => a.createdAt ≤ b.createdAt)
    (hids : (list.map LocalMessage.id).Nodup) :
    Shows list list where
  sorted := hsorted
  ids := hids
  newest := fun m => by
    constructor
    · intro hm
      cases hlatest : latest list m.id with
      | none => exact absurd (List.mem_map.mpr ⟨m, hm, rfl⟩) (latest_eq_none.mp hlatest)
      | some q =>
        obtain ⟨hq, hid⟩ := mem_of_latest hlatest
        rw [List.inj_on_of_nodup_map hids hq hm hid]
    · exact fun h => (mem_of_latest h).1
  order := fun t => (eraseDups_of_nodup (hids.sublist (List.filter_sublist.map _))).symm

theorem insertSorted_splits (hsorted : list.Pairwise fun a b => a.createdAt ≤ b.createdAt)
    (message : LocalMessage β) :
    ∃ before after, list = before ++ after ∧
      insertSorted list message = before ++ message :: after ∧
      (∀ m ∈ before, m.createdAt ≤ message.createdAt) ∧ ∀ m ∈ after,
      message.createdAt < m.createdAt := by
  have hbelow : list.Pairwise fun a b => decide (b.createdAt ≤ message.createdAt) = true →
      decide (a.createdAt ≤ message.createdAt) = true :=
    hsorted.imp fun hab hb => decide_eq_true (hab.trans (of_decide_eq_true hb))
  obtain ⟨hbefore, hafter⟩ := BinarySearch.search_splits hbelow
  refine ⟨_, _, (List.take_append_drop _ list).symm, rfl,
    fun m hm => of_decide_eq_true (hbefore m hm), fun m hm => ?_⟩
  exact not_le.mp (of_decide_eq_false (hafter m hm))

theorem Shows.inserted (h : Shows history list) (hnew : message.id ∉ list.map LocalMessage.id) :
    Shows (history ++ [message]) (insertSorted list message) := by
  obtain ⟨before, after, rfl, hinsert, hbefore, hafter⟩ := insertSorted_splits h.sorted message
  rw [hinsert]
  have hperm : (before ++ message :: after).Perm (message :: (before ++ after)) := List.perm_middle
  constructor
  · obtain ⟨hb, ha, hba⟩ := List.pairwise_append.mp h.sorted
    refine List.pairwise_append.mpr ⟨hb, List.pairwise_cons.mpr ⟨fun m hm => (hafter m hm).le, ha⟩,
      fun a ham b hbm => ?_⟩
    rcases List.mem_cons.mp hbm with rfl | hbm
    · exact hbefore a ham
    · exact hba a ham b hbm
  · exact ((hperm.map LocalMessage.id).nodup_iff).mpr (List.nodup_cons.mpr ⟨hnew, h.ids⟩)
  · intro m
    rw [hperm.mem_iff, List.mem_cons, latest_append, h.newest]
    split_ifs with hid
    · constructor
      · intro hm
        rcases hm with rfl | hm
        · rfl
        · exact absurd (hid ▸ List.mem_map.mpr ⟨m, (h.newest m).mpr hm, rfl⟩) hnew
      · exact fun hm => Or.inl (Option.some.inj hm).symm
    · constructor
      · exact fun hm => hm.resolve_left fun he => hid (he ▸ rfl)
      · exact Or.inr
  · intro t
    have hold := h.order t
    rw [idsAt_append] at hold
    rw [idsAt_append, idsAt_append, idsAt_cons, idsAt_cons]
    split_ifs with ht
    · have hnone : idsAt t after = [] := by
        rw [List.eq_nil_iff_forall_not_mem]
        intro id hid
        obtain ⟨m, hm, hmt, _⟩ := mem_idsAt.mp hid
        exact absurd (ht.trans hmt.symm) (hafter m hm).ne
      have hfresh : message.id ∉ idsAt t history := by
        intro hmem
        obtain ⟨m, hm, _, hid⟩ := mem_idsAt.mp hmem
        exact hnew ((h.mem_ids message.id).mpr (List.mem_map.mpr ⟨m, hm, hid⟩))
      rw [hnone, List.append_nil] at hold
      rw [hnone]
      exact hold ▸ (eraseDups_concat _ _).trans (if_neg hfresh) ▸ rfl
    · rw [hold]
      exact congrArg List.eraseDups (List.append_nil _).symm

theorem Shows.replaced (h : Shows history list)
    (htimes : KeepsTimes (history ++ [message])) {idx : ℕ}
    (hidx : list.findIdx? (fun m => decide (m.id = message.id)) = some idx) :
    Shows (history ++ [message]) (list.set idx message) := by
  obtain ⟨hlt, hmatch, _⟩ := List.findIdx?_eq_some_iff_getElem.mp hidx
  have hid : list[idx].id = message.id := of_decide_eq_true hmatch
  have hmem : list[idx] ∈ list := List.getElem_mem hlt
  have hseen : list[idx] ∈ history := (mem_of_latest ((h.newest _).mp hmem)).1
  have htime : list[idx].createdAt = message.createdAt :=
    htimes _ (List.mem_append_left _ hseen) message (List.mem_append_right _ List.mem_cons_self) hid
  have hset : ∀ {γ : Type} (f : LocalMessage β → γ), f list[idx] = f message →
      (list.set idx message).map f = list.map f := by
    intro γ f hf
    have hlt' : idx < (list.map f).length := by rwa [List.length_map]
    have hat : f message = (list.map f)[idx] := by rw [List.getElem_map, hf]
    rw [List.map_set, hat, List.set_getElem_self]
  constructor
  · have hsorted := h.sorted
    rw [← List.pairwise_map (R := (· ≤ ·))] at hsorted ⊢
    rwa [hset LocalMessage.createdAt htime]
  · rw [hset LocalMessage.id hid]
    exact h.ids
  · have hsplit : list = list.take idx ++ list[idx] :: list.drop (idx + 1) := by
      rw [← List.drop_eq_getElem_cons hlt, List.take_append_drop]
    have hnodup :
        (list[idx].id :: (list.take idx ++ list.drop (idx + 1)).map LocalMessage.id).Nodup := by
      have hids := h.ids
      rw [hsplit] at hids
      exact ((List.perm_middle.map LocalMessage.id).nodup_iff).mp hids
    have hother : ∀ m ∈ list.take idx ++ list.drop (idx + 1), m.id ≠ message.id := by
      intro m hm he
      exact (List.nodup_cons.mp hnodup).1 (List.mem_map.mpr ⟨m, hm, he.trans hid.symm⟩)
    intro m
    have hlist : m ∈ list ↔ m = list[idx] ∨ m ∈ list.take idx ++ list.drop (idx + 1) := by
      conv_lhs => rw [hsplit]
      rw [List.perm_middle.mem_iff, List.mem_cons]
    rw [List.set_eq_take_append_cons_drop, if_pos hlt, List.perm_middle.mem_iff, List.mem_cons,
      latest_append]
    split_ifs with hsame
    · constructor
      · intro hm
        rcases hm with rfl | hm
        · rfl
        · exact absurd hsame.symm (hother m hm)
      · exact fun hm => Or.inl (Option.some.inj hm).symm
    · rw [← h.newest, hlist]
      refine or_congr_left ⟨fun he => absurd (he ▸ rfl) hsame,
        fun he => absurd (he ▸ hid.symm) hsame⟩
  · intro t
    have hpairs := hset (fun m => (m.id, m.createdAt)) (by rw [hid, htime])
    have hkeys : ∀ l : List (LocalMessage β), idsAt t l =
        ((l.map fun m => (m.id, m.createdAt)).filter fun p => decide (p.2 = t)).map Prod.fst := by
      intro l
      rw [List.filter_map, List.map_map]
      rfl
    rw [hkeys, hpairs, ← hkeys, h.order, idsAt_append, idsAt_cons]
    split_ifs with ht
    · refine ((eraseDups_concat _ _).trans (if_pos ?_)).symm
      exact mem_idsAt.mpr ⟨_, hseen, htime.trans ht, hid⟩
    · exact congrArg List.eraseDups (List.append_nil _).symm

theorem Shows.updated (h : Shows history list) (htimes : KeepsTimes (history ++ [message])) :
    Shows (history ++ [message]) (applyMessageUpdate list message) := by
  unfold applyMessageUpdate
  split
  · next idx hidx => exact h.replaced htimes hidx
  · next hidx =>
    refine h.inserted fun hmem => ?_
    obtain ⟨m, hm, hid⟩ := List.mem_map.mp hmem
    exact absurd (decide_eq_true hid) (by simpa using List.findIdx?_eq_none_iff.mp hidx m hm)

theorem KeepsTimes.sub {history' : List (LocalMessage β)} (h : KeepsTimes history')
    (hsub : history ⊆ history') :
    KeepsTimes history := fun a ha b hb => h a (hsub ha) b (hsub hb)

theorem Shows.run (h : Shows history list) {updates : List (LocalMessage β)}
    (htimes : KeepsTimes (history ++ updates)) :
    Shows (history ++ updates) (updates.foldl applyMessageUpdate list) := by
  induction updates generalizing history list with
  | nil => rwa [List.append_nil]
  | cons message updates ih =>
    have hassoc : history ++ message :: updates = history ++ [message] ++ updates := by
      rw [List.append_assoc, List.singleton_append]
    rw [hassoc] at htimes ⊢
    exact ih (h.updated (htimes.sub (List.subset_append_left _ _))) htimes

/-- From a sorted list without repeated ids, the list shows what it began with and all
updates since. -/
theorem messages_in_order {initial updates : List (LocalMessage β)}
    (hsorted : initial.Pairwise fun a b => a.createdAt ≤ b.createdAt)
    (hids : (initial.map LocalMessage.id).Nodup) (htimes : KeepsTimes (initial ++ updates)) :
    Shows (initial ++ updates) (updates.foldl applyMessageUpdate initial) :=
  (shows_self hsorted hids).run htimes

def plain (id : String) (createdAt : ℕ) (text : String) : LocalMessage String :=
  ⟨id, "device", createdAt, none, text⟩

theorem messages_in_order_updated : Shows
    ([plain "a" 1 "one", plain "b" 3 "two"] ++
      [plain "c" 1 "three", plain "a" 1 "four", plain "d" 2 "five"])
    ([plain "c" 1 "three", plain "a" 1 "four", plain "d" 2 "five"].foldl applyMessageUpdate
      [plain "a" 1 "one", plain "b" 3 "two"]) := by
  refine messages_in_order ?_ ?_ ?_
  · decide
  · decide
  · unfold KeepsTimes
    decide

end SendSelf.Thread
