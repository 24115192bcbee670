import Mathlib.Data.List.TakeWhile
import Mathlib.Data.List.Perm.Basic
import SendSelf.Thread.Messages

/-!
# The thread as it is drawn

A run of consecutive messages of one batch is drawn as an album, in the order of their
indices, and every other message by itself. The notices are merged in by time after that.
An album is timed by its first message, whichever of the run that is: the times of a run
lie between those of the runs around it, so the merge leaves the runs in their order.
-/
namespace SendSelf.Thread

structure LocalEvent (γ : Type) where
  id : String
  createdAt : ℕ
  rest : γ
deriving DecidableEq

inductive ChatEntry (β γ : Type) where
  | single (key : String) (message : LocalMessage β)
  | album (key : String) (messages : List (LocalMessage β)) (expected : ℚ)
  | notice (key : String) (event : LocalEvent γ)
deriving DecidableEq

variable {β γ : Type}

namespace ChatEntry

def key : ChatEntry β γ → String
  | .single key _ | .album key _ _ | .notice key _ => key

def messages : ChatEntry β γ → List (LocalMessage β)
  | .single _ message => [message]
  | .album _ messages _ => messages
  | .notice _ _ => []

def event : ChatEntry β γ → Option (LocalEvent γ)
  | .notice _ event => some event
  | _ => none

end ChatEntry

def entryTime : ChatEntry β γ → ℕ
  | .notice _ event => event.createdAt
  | .album _ messages _ => (messages.head?.map LocalMessage.createdAt).getD 0
  | .single _ message => message.createdAt

def sameBatch (a b : LocalMessage β) : Bool :=
  match a.batch, b.batch with
  | some x, some y => decide (x.id = y.id ∧ a.senderDeviceId = b.senderDeviceId)
  | _, _ => false

def indexOf (m : LocalMessage β) : ℚ := (m.batch.map Batch.index).getD 0

/-- What a run is drawn as, given the batch of its first message. -/
def drawRun (first : LocalMessage β) (batch : Batch) (run : List (LocalMessage β)) :
    ChatEntry β γ :=
  if run.length = 1 then .single first.id first
  else .album ("batch:" ++ first.id) (run.mergeSort fun a b =>
    decide (indexOf a ≤ indexOf b)) batch.count

def groupMessages : List (LocalMessage β) → List (ChatEntry β γ)
  | [] => []
  | first :: list =>
      match first.batch with
      | none => .single first.id first :: groupMessages list
      | some batch =>
          drawRun first batch (first :: list.takeWhile (sameBatch first)) :: groupMessages
            (list.dropWhile (sameBatch first))
termination_by list => list.length
decreasing_by
  · simp
  · have hle := (List.dropWhile_sublist (l := list) (sameBatch first)).length_le
    simp only [List.length_cons]
    omega

def chatEntries (list : List (LocalMessage β)) (events : List (LocalEvent γ)) :
    List (ChatEntry β γ) :=
  let notices := events.map fun event => .notice ("event:" ++ event.id) event
  if notices = [] then groupMessages list
  else (groupMessages list ++ notices).mergeSort fun a b => decide (entryTime a ≤ entryTime b)

/-- The runs of a list, messages without a batch by themselves. -/
def runs : List (LocalMessage β) → List (List (LocalMessage β))
  | [] => []
  | first :: list =>
      (first :: list.takeWhile (sameBatch first)) :: runs (list.dropWhile (sameBatch first))
termination_by list => list.length
decreasing_by
  have hle := (List.dropWhile_sublist (l := list) (sameBatch first)).length_le
  simp only [List.length_cons]
  omega

/-- What a run is drawn as. -/
def drawn : List (LocalMessage β) → List (ChatEntry β γ)
  | [] => []
  | first :: run =>
      [(first.batch.map fun batch => drawRun first batch (first :: run)).getD
        (.single first.id first)]

theorem sameBatch_iff {a b : LocalMessage β} : sameBatch a b = true ↔
    ∃ x y, a.batch = some x ∧ b.batch = some y ∧ x.id = y.id ∧
      a.senderDeviceId = b.senderDeviceId := by
  unfold sameBatch
  cases ha : a.batch <;> cases hb : b.batch <;> simp

theorem sameBatch_trans {a b c : LocalMessage β} (hab : sameBatch a b = true)
    (hbc : sameBatch b c = true) :
    sameBatch a c = true := by
  obtain ⟨x, y, hx, hy, hxy, hs⟩ := sameBatch_iff.mp hab
  obtain ⟨y', z, hy', hz, hyz, hs'⟩ := sameBatch_iff.mp hbc
  obtain rfl := Option.some.inj (hy.symm.trans hy')
  exact sameBatch_iff.mpr ⟨x, z, hx, hz, hxy.trans hyz, hs.trans hs'⟩

theorem sameBatch_symm {a b : LocalMessage β} (hab : sameBatch a b = true) :
    sameBatch b a = true := by
  obtain ⟨x, y, hx, hy, hxy, hs⟩ := sameBatch_iff.mp hab
  exact sameBatch_iff.mpr ⟨y, x, hy, hx, hxy.symm, hs.symm⟩

theorem groupMessages_eq (list : List (LocalMessage β)) :
    (groupMessages list : List (ChatEntry β γ)) = (runs list).flatMap drawn := by
  fun_induction groupMessages list with
  | case1 => rw [runs, List.flatMap_nil]
  | case2 first list hbatch ih =>
    have hnone : sameBatch first = fun _ => false := by
      funext m
      rw [sameBatch, hbatch]
    have hrest : list.dropWhile (fun _ => false) = list := by cases list <;> rfl
    rw [runs, hnone, hrest, List.flatMap_cons, drawn, hbatch, ih]
    rfl
  | case3 first list batch hbatch ih =>
    rw [runs, List.flatMap_cons, drawn, hbatch, ih]
    rfl

theorem flatten_runs (list : List (LocalMessage β)) : (runs list).flatten = list := by
  fun_induction runs list with
  | case1 => rfl
  | case2 first list ih =>
    rw [List.flatten_cons, ih, List.cons_append, List.takeWhile_append_dropWhile]

theorem run_head {list run : List (LocalMessage β)} (h : run ∈ runs list) :
    ∃ first rest, run = first :: rest ∧ ∀ m ∈ rest, sameBatch first m = true := by
  fun_induction runs list with
  | case1 => cases h
  | case2 first list ih =>
    rcases List.mem_cons.mp h with rfl | h
    · exact ⟨first, _, rfl, fun m hm => List.mem_takeWhile_imp hm⟩
    · exact ih h

theorem sameBatch_of_run {first : LocalMessage β} {rest : List (LocalMessage β)}
    (h : ∀ m ∈ rest, sameBatch first m = true)
    {a b : LocalMessage β} (ha : a ∈ first :: rest) (hb : b ∈ rest) : sameBatch a b = true := by
  rcases List.mem_cons.mp ha with rfl | ha
  · exact h b hb
  · exact sameBatch_trans (sameBatch_symm (h a ha)) (h b hb)

/-- No message next to a run is of its batch. -/
theorem run_maximal {list run : List (LocalMessage β)} (h : run ∈ runs list) : ∃ before after,
    list = before ++ run ++ after ∧ (∀ m ∈ before.getLast?, ∀ q ∈ run, sameBatch m q = false) ∧
      ∀ m ∈ after.head?, ∀ q ∈ run, sameBatch q m = false := by
  fun_induction runs list with
  | case1 => cases h
  | case2 first list ih =>
    have hfirst : ∀ m ∈ list.takeWhile (sameBatch first), sameBatch first m = true :=
      fun m hm => List.mem_takeWhile_imp hm
    have hnext : ∀ m ∈ (list.dropWhile (sameBatch first)).head?,
        ∀ q ∈ first :: list.takeWhile (sameBatch first),
        sameBatch q m = false := by
      intro m hm q hq
      have hstop : sameBatch first m = false := by
        have hnot := List.head?_dropWhile_not (sameBatch first) list
        rw [Option.mem_def.mp hm] at hnot
        simpa using hnot
      refine Bool.eq_false_iff.mpr fun hqm => ?_
      rcases List.mem_cons.mp hq with rfl | hq
      · exact absurd (hstop.symm.trans hqm) Bool.false_ne_true
      · exact absurd (hstop.symm.trans (sameBatch_trans (hfirst q hq) hqm)) Bool.false_ne_true
    rcases List.mem_cons.mp h with rfl | h
    · refine ⟨[], _, ?_, fun m hm => ?_, hnext⟩
      · rw [List.nil_append, List.cons_append, List.takeWhile_append_dropWhile]
      · cases hm
    · obtain ⟨before, after, hlist, hbefore, hafter⟩ := ih h
      refine ⟨first :: list.takeWhile (sameBatch first) ++ before, after, ?_,
        fun m hm q hq => ?_, hafter⟩
      · rw [List.append_assoc, List.append_assoc, ← List.append_assoc before, ← hlist,
          List.cons_append,
          List.takeWhile_append_dropWhile]
      · cases hb : before.getLast? with
        | some last =>
          rw [List.getLast?_append, hb] at hm
          obtain rfl : last = m := Option.some.inj hm
          exact hbefore last hb q hq
        | none =>
          obtain rfl : before = [] := List.getLast?_eq_none_iff.mp hb
          rw [List.append_nil] at hm
          have hmem : m ∈ first :: list.takeWhile (sameBatch first) := List.mem_of_getLast? hm
          obtain ⟨head, rest, rfl, hrest⟩ := run_head h
          have hstop := hnext head (by rw [hlist]; rfl) m hmem
          refine Bool.eq_false_iff.mpr fun hmq => ?_
          rcases List.mem_cons.mp hq with rfl | hq
          · exact absurd (hstop.symm.trans hmq) Bool.false_ne_true
          · exact absurd (hstop.symm.trans (sameBatch_trans hmq (sameBatch_symm (hrest q hq))))
              Bool.false_ne_true

/-- A message by itself, or an album of several. -/
theorem drawn_cases {first : LocalMessage β} {rest : List (LocalMessage β)}
    (h : ∀ m ∈ rest, sameBatch first m = true) :
    (rest = [] ∧ (drawn (first :: rest) : List (ChatEntry β γ)) = [.single first.id first]) ∨
      ∃ batch, first.batch = some batch ∧ rest ≠ [] ∧
        (drawn (first :: rest) : List (ChatEntry β γ)) =
        [.album ("batch:" ++ first.id) ((first :: rest).mergeSort fun a b =>
          decide (indexOf a ≤ indexOf b)) batch.count] := by
  cases rest with
  | nil =>
    left
    refine ⟨rfl, ?_⟩
    cases hbatch : first.batch with
    | none =>
      rw [drawn, hbatch]
      rfl
    | some batch =>
      rw [drawn, hbatch]
      rfl
  | cons m rest =>
    right
    obtain ⟨batch, _, hbatch, _⟩ := sameBatch_iff.mp (h m List.mem_cons_self)
    refine ⟨batch, hbatch, List.cons_ne_nil _ _, ?_⟩
    rw [drawn, hbatch, Option.map_some, Option.getD_some, drawRun, if_neg (by simp)]

theorem messages_drawn {first : LocalMessage β} {rest : List (LocalMessage β)}
    (h : ∀ m ∈ rest, sameBatch first m = true) :
    ((drawn (first :: rest) : List (ChatEntry β γ)).flatMap ChatEntry.messages).Perm
      (first :: rest) := by
  rcases drawn_cases (γ := γ) h with ⟨rfl, hd⟩ | ⟨batch, _, _, hd⟩
  · rw [hd]
    exact .refl _
  · rw [hd, List.flatMap_singleton]
    exact List.mergeSort_perm _ _

theorem event_drawn {run : List (LocalMessage β)} {e : ChatEntry β γ} (h : e ∈ drawn run) :
    e.event = none := by
  cases run with
  | nil => cases h
  | cons first rest =>
    obtain rfl := List.mem_singleton.mp h
    cases first.batch with
    | none => rfl
    | some batch =>
      rw [Option.map_some, Option.getD_some, drawRun]
      split_ifs <;> rfl

/-- An entry is timed by one of its messages. -/
theorem time_drawn {first : LocalMessage β} {rest : List (LocalMessage β)}
    (h : ∀ m ∈ rest, sameBatch first m = true)
    {e : ChatEntry β γ} (he : e ∈ drawn (first :: rest)) :
    ∃ m ∈ first :: rest, entryTime e = m.createdAt := by
  rcases drawn_cases (γ := γ) h with ⟨rfl, hd⟩ | ⟨batch, _, _, hd⟩
  · rw [hd] at he
    obtain rfl := List.mem_singleton.mp he
    exact ⟨first, List.mem_cons_self, rfl⟩
  · rw [hd] at he
    obtain rfl := List.mem_singleton.mp he
    have hperm := List.mergeSort_perm (first :: rest) fun a b => decide (indexOf a ≤ indexOf b)
    cases hs : (first :: rest).mergeSort fun a b => decide (indexOf a ≤ indexOf b) with
    | nil =>
      rw [hs] at hperm
      exact absurd hperm.symm.eq_nil (List.cons_ne_nil _ _)
    | cons m ms =>
      rw [hs] at hperm
      exact ⟨m, hperm.mem_iff.mp List.mem_cons_self, rfl⟩

theorem key_drawn {first : LocalMessage β} {rest : List (LocalMessage β)}
    (h : ∀ m ∈ rest, sameBatch first m = true)
    {e : ChatEntry β γ} (he : e ∈ drawn (first :: rest)) :
    e.key = first.id ∨ e.key = "batch:" ++ first.id := by
  rcases drawn_cases (γ := γ) h with ⟨rfl, hd⟩ | ⟨batch, _, _, hd⟩
  · rw [hd] at he
    obtain rfl := List.mem_singleton.mp he
    exact Or.inl rfl
  · rw [hd] at he
    obtain rfl := List.mem_singleton.mp he
    exact Or.inr rfl

/-- Elements that are in order among themselves stay so. -/
theorem filter_mergeSort {α : Type} {le : α → α → Bool} (trans : ∀ a b c, le a b → le b c → le a c)
    (total : ∀ a b, le a b || le b a) {l : List α} {p : α → Bool}
    (h : (l.filter p).Pairwise fun a b => le a b = true) :
    (l.mergeSort le).filter p = l.filter p := by
  have hsub : (l.filter p).Sublist (l.mergeSort le) :=
    List.sublist_mergeSort trans total h List.filter_sublist
  have hsub' : (l.filter p).Sublist ((l.mergeSort le).filter p) := by
    have hf := hsub.filter p
    rwa [List.filter_filter, List.filter_congr (q := p) (by simp)] at hf
  exact (hsub'.eq_of_length ((List.mergeSort_perm l le).filter p).length_eq.symm).symm

theorem groupMessages_sorted {list : List (LocalMessage β)}
    (hsorted : list.Pairwise fun a b => a.createdAt ≤ b.createdAt) :
    (groupMessages list : List (ChatEntry β γ)).Pairwise fun a b => entryTime a ≤ entryTime b := by
  rw [groupMessages_eq, List.pairwise_flatMap]
  rw [← flatten_runs list, List.pairwise_flatten] at hsorted
  constructor
  · intro run hrun
    obtain ⟨first, rest, rfl, hrest⟩ := run_head hrun
    exact List.pairwise_singleton _ _
  · refine List.Pairwise.imp_of_mem ?_ hsorted.2
    intro run run' hrun hrun' hle e he e' he'
    obtain ⟨first, rest, rfl, hrest⟩ := run_head hrun
    obtain ⟨first', rest', rfl, hrest'⟩ := run_head hrun'
    obtain ⟨m, hm, ht⟩ := time_drawn hrest he
    obtain ⟨m', hm', ht'⟩ := time_drawn hrest' he'
    rw [ht, ht']
    exact hle m hm m' hm'

theorem le_trans_time (a b c : ChatEntry β γ) : decide (entryTime a ≤ entryTime b) = true →
    decide (entryTime b ≤ entryTime c) = true → decide (entryTime a ≤ entryTime c) = true := by
  simp only [decide_eq_true_eq]
  exact le_trans

theorem le_total_time (a b : ChatEntry β γ) :
    (decide (entryTime a ≤ entryTime b) || decide (entryTime b ≤ entryTime a)) = true := by
  simp only [Bool.or_eq_true, decide_eq_true_eq]
  exact le_total _ _

/-- The entries are the messages and the events rearranged. -/
structure Faithful (list : List (LocalMessage β)) (events : List (LocalEvent γ))
    (entries : List (ChatEntry β γ)) : Prop where
  messages : (entries.flatMap ChatEntry.messages).Perm list
  events : (entries.filterMap ChatEntry.event).Perm events
  keys : (entries.map ChatEntry.key).Nodup
  groups : entries.filter (fun e => e.event.isNone) = groupMessages list
  albums : ∀ key ms expected, ChatEntry.album key ms expected ∈ entries → 2 ≤ ms.length ∧
    ∃ before run after, list = before ++ run ++ after ∧
      (∀ a ∈ run, ∀ b ∈ run, sameBatch a b = true) ∧
      (∀ m ∈ before.getLast?, ∀ q ∈ run, sameBatch m q = false) ∧
        (∀ m ∈ after.head?, ∀ q ∈ run, sameBatch q m = false) ∧
      ms.Pairwise (fun a b => indexOf a ≤ indexOf b) ∧
      ∀ i, ms.filter (fun m => decide (indexOf m = i)) = run.filter fun m => decide (indexOf m = i)
  times : entries.Pairwise fun a b => entryTime a ≤ entryTime b

theorem messages_groupMessages (list : List (LocalMessage β)) :
    ((groupMessages list : List (ChatEntry β γ)).flatMap ChatEntry.messages).Perm list := by
  rw [groupMessages_eq, List.flatMap_assoc]
  have hruns :
      ((runs list).flatMap fun run =>
        (drawn run : List (ChatEntry β γ)).flatMap ChatEntry.messages).Perm
      ((runs list).flatMap id) := by
    refine List.Perm.flatMap_left _ fun run hrun => ?_
    obtain ⟨first, rest, rfl, hrest⟩ := run_head hrun
    exact messages_drawn hrest
  rw [List.flatMap_id, flatten_runs] at hruns
  exact hruns

theorem event_groupMessages {list : List (LocalMessage β)} {e : ChatEntry β γ}
    (h : e ∈ groupMessages list) :
    e.event = none := by
  rw [groupMessages_eq] at h
  obtain ⟨run, _, he⟩ := List.mem_flatMap.mp h
  exact event_drawn he

theorem keys_groupMessages {list : List (LocalMessage β)} (hids : (list.map LocalMessage.id).Nodup)
    (hcolons : ∀ m ∈ list, ':' ∉ m.id.toList) :
    ((groupMessages list : List (ChatEntry β γ)).map ChatEntry.key).Nodup := by
  have hcolon : ∀ x y : String, ':' ∉ x.toList → x ≠ "batch:" ++ y := by
    intro x y hx he
    rw [he, String.toList_append] at hx
    exact hx (List.mem_append_left _ (by decide))
  rw [List.Nodup, List.pairwise_map, ← flatten_runs list, List.pairwise_flatten] at hids
  rw [List.Nodup, List.pairwise_map, groupMessages_eq, List.pairwise_flatMap]
  constructor
  · intro run hrun
    obtain ⟨first, rest, rfl, hrest⟩ := run_head hrun
    exact List.pairwise_singleton _ _
  · refine List.Pairwise.imp_of_mem ?_ hids.2
    intro run run' hrun hrun' hne e he e' he'
    obtain ⟨first, rest, rfl, hrest⟩ := run_head hrun
    obtain ⟨first', rest', rfl, hrest'⟩ := run_head hrun'
    have hfirst := hne first List.mem_cons_self first' List.mem_cons_self
    have hmem : ∀ {m : LocalMessage β} {r : List (LocalMessage β)}, m :: r ∈ runs list →
        ':' ∉ m.id.toList := by
      intro m r hr
      refine hcolons m ?_
      rw [← flatten_runs list]
      exact List.mem_flatten.mpr ⟨_, hr, List.mem_cons_self⟩
    rcases key_drawn hrest he with hk | hk
    · rcases key_drawn hrest' he' with hk' | hk'
      · rw [hk, hk']
        exact hfirst
      · rw [hk, hk']
        exact hcolon _ _ (hmem hrun)
    · rcases key_drawn hrest' he' with hk' | hk'
      · rw [hk, hk']
        exact (hcolon _ _ (hmem hrun')).symm
      · rw [hk, hk']
        exact fun he => hfirst (String.append_right_inj _ |>.mp he)

/-- An album is a run in the order of the indices. -/
theorem album_groupMessages {list : List (LocalMessage β)} {key : String}
    {ms : List (LocalMessage β)} {expected : ℚ}
    (h : (.album key ms expected : ChatEntry β γ) ∈ groupMessages list) : 2 ≤ ms.length ∧
      ∃ before run after, list = before ++ run ++ after ∧
        (∀ a ∈ run, ∀ b ∈ run, sameBatch a b = true) ∧
        (∀ m ∈ before.getLast?, ∀ q ∈ run, sameBatch m q = false) ∧
        (∀ m ∈ after.head?, ∀ q ∈ run, sameBatch q m = false) ∧
        ms.Pairwise (fun a b => indexOf a ≤ indexOf b) ∧
        ∀ i, ms.filter (fun m => decide (indexOf m = i)) = run.filter fun m =>
          decide (indexOf m = i) := by
  rw [groupMessages_eq] at h
  obtain ⟨run, hrun, he⟩ := List.mem_flatMap.mp h
  obtain ⟨before, after, hlist, hbefore, hafter⟩ := run_maximal hrun
  obtain ⟨first, rest, rfl, hrest⟩ := run_head hrun
  have htrans : ∀ a b c : LocalMessage β, decide (indexOf a ≤ indexOf b) = true →
      decide (indexOf b ≤ indexOf c) = true →
      decide (indexOf a ≤ indexOf c) = true := by
    intro a b c
    simp only [decide_eq_true_eq]
    exact le_trans
  have htotal : ∀ a b : LocalMessage β,
      (decide (indexOf a ≤ indexOf b) || decide (indexOf b ≤ indexOf a)) = true := by
    intro a b
    simp only [Bool.or_eq_true, decide_eq_true_eq]
    exact le_total _ _
  rcases drawn_cases (γ := γ) hrest with ⟨_, hd⟩ | ⟨batch, hbatch, hne, hd⟩
  · rw [hd] at he
    cases List.mem_singleton.mp he
  · rw [hd] at he
    obtain ⟨_, rfl, _⟩ := ChatEntry.album.inj (List.mem_singleton.mp he)
    have hself : sameBatch first first = true :=
      sameBatch_iff.mpr ⟨batch, batch, hbatch, hbatch, rfl, rfl⟩
    refine ⟨?_, before, first :: rest, after, hlist, fun a ha b hb => ?_, hbefore, hafter, ?_,
      fun i => ?_⟩
    · rw [(List.mergeSort_perm _ _).length_eq, List.length_cons]
      exact Nat.succ_le_succ (List.length_pos_iff.mpr hne)
    · rcases List.mem_cons.mp hb with rfl | hb
      · rcases List.mem_cons.mp ha with rfl | ha
        · exact hself
        · exact sameBatch_symm (hrest a ha)
      · exact sameBatch_of_run hrest ha hb
    · exact (List.pairwise_mergeSort htrans htotal _).imp of_decide_eq_true
    · refine filter_mergeSort htrans htotal (List.pairwise_of_forall_mem_list fun a ha b hb => ?_)
      have hai : indexOf a = i := by simpa using (List.mem_filter.mp ha).2
      have hbi : indexOf b = i := by simpa using (List.mem_filter.mp hb).2
      exact decide_eq_true (hai.trans hbi.symm).le

/-- Before the notices are merged in. -/
theorem groupMessages_faithful {list : List (LocalMessage β)}
    (hsorted : list.Pairwise fun a b => a.createdAt ≤ b.createdAt)
    (hids : (list.map LocalMessage.id).Nodup) (hcolons : ∀ m ∈ list, ':' ∉ m.id.toList) :
    Faithful list ([] : List (LocalEvent γ)) (groupMessages list) where
  messages := messages_groupMessages list
  events := by
    rw [List.filterMap_eq_nil_iff.mpr fun e he => event_groupMessages he]
  keys := keys_groupMessages hids hcolons
  groups := List.filter_eq_self.mpr fun e he => by rw [event_groupMessages he]; rfl
  albums := fun _ _ _ h => album_groupMessages h
  times := groupMessages_sorted hsorted

def drawnNotices (events : List (LocalEvent γ)) : List (ChatEntry β γ) :=
  events.map fun event => .notice ("event:" ++ event.id) event

theorem mem_drawnNotices {events : List (LocalEvent γ)} {e : ChatEntry β γ}
    (h : e ∈ drawnNotices events) :
    ∃ event ∈ events, e = .notice ("event:" ++ event.id) event := by
  obtain ⟨event, hevent, rfl⟩ := List.mem_map.mp h
  exact ⟨event, hevent, rfl⟩

theorem key_ne_event {list : List (LocalMessage β)} (hcolons : ∀ m ∈ list, ':' ∉ m.id.toList)
    {e : ChatEntry β γ} (he : e ∈ groupMessages list) (id : String) : e.key ≠ "event:" ++ id := by
  rw [groupMessages_eq] at he
  obtain ⟨run, hrun, he⟩ := List.mem_flatMap.mp he
  obtain ⟨first, rest, rfl, hrest⟩ := run_head hrun
  have hcolon : ':' ∉ first.id.toList := by
    refine hcolons first ?_
    rw [← flatten_runs list]
    exact List.mem_flatten.mpr ⟨_, hrun, List.mem_cons_self⟩
  intro hkey
  rcases key_drawn hrest he with hk | hk
  · rw [hk] at hkey
    rw [hkey, String.toList_append] at hcolon
    exact hcolon (List.mem_append_left _ (by decide))
  · rw [hk] at hkey
    have hchars := congrArg String.toList hkey
    rw [String.toList_append, String.toList_append] at hchars
    exact absurd (List.cons.inj hchars).1 (by decide)

/-- The thread has every message and every event once, without its notices it is the
grouped messages, and it is in the order of time. -/
theorem chatEntries_faithful {list : List (LocalMessage β)} {events : List (LocalEvent γ)}
    (hsorted : list.Pairwise fun a b => a.createdAt ≤ b.createdAt)
    (hids : (list.map LocalMessage.id).Nodup)
    (hcolons : ∀ m ∈ list, ':' ∉ m.id.toList) (hevents : (events.map LocalEvent.id).Nodup) :
    Faithful list events (chatEntries list events) := by
  have hgroups := groupMessages_faithful (γ := γ) hsorted hids hcolons
  unfold chatEntries
  dsimp only
  split_ifs with hnone
  · rw [List.map_eq_nil_iff.mp hnone]
    exact hgroups
  · show Faithful list events
      ((groupMessages list ++ drawnNotices events).mergeSort fun a b =>
        decide (entryTime a ≤ entryTime b))
    have hperm :=
      List.mergeSort_perm (groupMessages list ++ drawnNotices events : List (ChatEntry β γ))
      fun a b => decide (entryTime a ≤ entryTime b)
    have hnotices :
        (drawnNotices events : List (ChatEntry β γ)).flatMap ChatEntry.messages = [] := by
      rw [List.flatMap_eq_nil_iff]
      intro e he
      obtain ⟨event, _, rfl⟩ := mem_drawnNotices he
      rfl
    have hfilter :
        (groupMessages list ++ drawnNotices events : List (ChatEntry β γ)).filter (fun e =>
          e.event.isNone) =
        groupMessages list := by
      rw [List.filter_append, hgroups.groups, List.filter_eq_nil_iff.mpr, List.append_nil]
      intro e he
      obtain ⟨event, _, rfl⟩ := mem_drawnNotices he
      exact Bool.false_ne_true
    constructor
    · refine (hperm.flatMap_right _).trans ?_
      rw [List.flatMap_append, hnotices, List.append_nil]
      exact hgroups.messages
    · refine (hperm.filterMap _).trans ?_
      rw [List.filterMap_append, List.filterMap_eq_nil_iff.mpr fun e he => event_groupMessages he,
        List.nil_append,
        drawnNotices, List.filterMap_map]
      exact .of_eq (List.filterMap_some ..)
    · refine ((hperm.map ChatEntry.key).nodup_iff).mpr ?_
      rw [List.map_append]
      refine List.nodup_append.mpr ⟨hgroups.keys, ?_, fun k hk k' hk' => ?_⟩
      · rw [drawnNotices, List.map_map]
        have hinj : Function.Injective fun id : String => "event:" ++ id :=
          fun x y h => String.append_right_inj _ |>.mp h
        have hkeys := hevents.map hinj
        rwa [List.map_map] at hkeys
      · obtain ⟨e, he, rfl⟩ := List.mem_map.mp hk
        obtain ⟨e', he', rfl⟩ := List.mem_map.mp hk'
        obtain ⟨event, _, rfl⟩ := mem_drawnNotices he'
        exact key_ne_event hcolons he event.id
    · rw [filter_mergeSort le_trans_time le_total_time, hfilter]
      rw [hfilter]
      exact (groupMessages_sorted hsorted).imp decide_eq_true
    · intro key ms expected h
      rcases List.mem_append.mp (hperm.mem_iff.mp h) with h | h
      · exact album_groupMessages h
      · obtain ⟨event, _, he⟩ := mem_drawnNotices h
        cases he
    · exact (List.pairwise_mergeSort le_trans_time le_total_time _).imp of_decide_eq_true

def picked (id : String) (createdAt : ℕ) (index : ℚ) : LocalMessage String :=
  ⟨id, "device", createdAt, some ⟨"batch", index, 2⟩, ""⟩

/-- Two files of a batch, sent in the other order, with a notice between them. -/
theorem chatEntries_faithful_album : Faithful [picked "b" 1 1, picked "a" 3 0, plain "c" 4 "text"]
    [⟨"joined", 2, ()⟩]
      (chatEntries [picked "b" 1 1, picked "a" 3 0, plain "c" 4 "text"] [⟨"joined", 2, ()⟩]) := by
  refine chatEntries_faithful ?_ ?_ ?_ ?_ <;> decide

end SendSelf.Thread
