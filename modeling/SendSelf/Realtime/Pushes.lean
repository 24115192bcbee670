import SendSelf.Library.Framing
import SendSelf.Statements.Signed
import SendSelf.Realtime.Hub

/-!
# Pushes

Each device has one subscription at most, for the space it belongs to. A push reads the
subscriptions of its devices in chunks, posts to each of them and deletes those that the push
service says are gone, while devices subscribe, unsubscribe and are revoked. `parse` is the URL
parser.
-/
namespace SendSelf.Realtime.Pushes
open Statements Framing

abbrev GroupId := ℕ

structure Url where
  protocol : Text
  hostname : Text
  port : Text
  username : Text
  password : Text
deriving DecidableEq, Repr

def pushServiceHosts : List Text := [literal "fcm.googleapis.com"]

def pushServiceSuffixes : List Text :=
  [literal ".push.services.mozilla.com", literal ".push.apple.com", literal ".notify.windows.com"]

def isPushServiceEndpoint (parse : Text → Option Url) (endpoint : Text) : Bool :=
  match parse endpoint with
  | none => false
  | some url =>
      if url.protocol ≠ literal "https:" ∨ url.port ≠ [] ∨ url.username ≠ [] ∨
        url.password ≠ [] then false
      else pushServiceHosts.contains url.hostname || pushServiceSuffixes.any fun suffix =>
        suffix.isSuffixOf url.hostname

structure StoredSubscription where
  deviceId : DeviceId
  groupId : GroupId
  endpoint : Text
  p256dh : Text
  auth : Text
deriving DecidableEq, Repr

inductive PushOutcome where
  | sent | gone | failed
deriving DecidableEq, Repr

/-- A request to a push service: the payload names the space. -/
structure Post where
  subscription : StoredSubscription
  groupId : GroupId
deriving DecidableEq, Repr

def maxDevicesPerQuery : ℕ := 90

/-- `deviceIds.slice(start, start + 90)` for all `start`. -/
def chunks : List DeviceId → List (List DeviceId)
  | [] => []
  | d :: deviceIds =>
      (d :: deviceIds).take maxDevicesPerQuery :: chunks ((d :: deviceIds).drop maxDevicesPerQuery)
termination_by deviceIds => deviceIds.length
decreasing_by
  rw [List.length_drop, List.length_cons, maxDevicesPerQuery]
  omega

/-- A call of `pushToDevices` that is under way. -/
structure Job where
  groupId : GroupId
  deviceIds : List DeviceId
  /-- Chunks that have not been read. -/
  remaining : List (List DeviceId)
  subscriptions : List StoredSubscription
  gone : List StoredSubscription
  sent : Bool
deriving DecidableEq, Repr

structure Service where
  /-- `push_subscriptions`. -/
  table : List StoredSubscription
  jobs : List Job
  posts : List Post
deriving DecidableEq, Repr

inductive Event where
  | subscribe (row : StoredSubscription)
  /-- By the device, or when it is revoked. -/
  | unsubscribe (deviceId : DeviceId) (groupId : GroupId)
  | push (groupId : GroupId) (deviceIds : List DeviceId)
  | read (k : ℕ)
  | send (k : ℕ) (outcome : StoredSubscription → PushOutcome)
  | delete (k : ℕ)

/-- `SELECT ... WHERE group_id = ? AND device_id IN (...)`. -/
def select (table : List StoredSubscription) (groupId : GroupId) (chunk : List DeviceId) :
    List StoredSubscription :=
  table.filter fun row => row.groupId = groupId && chunk.contains row.deviceId

/-- One round of the loop. -/
def Job.nextChunk (job : Job) (table : List StoredSubscription) : Option Job :=
  match job.remaining with
  | [] => none
  | chunk :: remaining =>
      some { job with
        remaining, subscriptions := job.subscriptions ++ select table job.groupId chunk }

def step (parse : Text → Option Url) (w : Service) : Event → Option Service
  | .subscribe row => if isPushServiceEndpoint parse row.endpoint then
      some { w with table := row :: w.table.filter fun r => r.deviceId ≠ row.deviceId } else none
  | .unsubscribe deviceId groupId =>
      some { w with table := w.table.filter fun r =>
        ¬ (r.deviceId = deviceId ∧ r.groupId = groupId) }
  | .push groupId deviceIds =>
      some { w with jobs := w.jobs ++ [⟨groupId, deviceIds, chunks deviceIds, [], [], false⟩] }
  | .read k => w.jobs[k]?.bind fun job => (job.nextChunk w.table).map fun job =>
      { w with jobs := w.jobs.set k job }
  | .send k outcome => w.jobs[k]?.bind fun job => if job.remaining ≠ [] ∨ job.sent then none else
      some { w with
        posts := w.posts ++ job.subscriptions.map (fun row => ⟨row, job.groupId⟩),
        jobs := w.jobs.set k { job with
          sent := true, gone := job.subscriptions.filter fun row => outcome row = .gone } }
  | .delete k => w.jobs[k]?.map fun job => { w with
      table := w.table.filter (fun r => ¬ ∃ row ∈ job.gone, r.deviceId = row.deviceId ∧
        r.endpoint = row.endpoint),
      jobs := w.jobs.set k { job with gone := [] } }

def Reached (parse : Text → Option Url) (w : Service) : Prop :=
  Runs.Reachable (step parse) ⟨[], [], []⟩ w

variable {parse : Text → Option Url} {w w' : Service} {row : StoredSubscription} {e : Event}

theorem flatten_chunks (deviceIds : List DeviceId) : (chunks deviceIds).flatten = deviceIds := by
  induction deviceIds using chunks.induct with
  | case1 => rw [chunks, List.flatten_nil]
  | case2 d deviceIds ih => rw [chunks, List.flatten_cons, ih, List.take_append_drop]

theorem mem_select {table : List StoredSubscription} {groupId : GroupId} {chunk : List DeviceId} :
    row ∈ select table groupId chunk ↔ row ∈ table ∧ row.groupId = groupId ∧
    row.deviceId ∈ chunk := by
  rw [select, List.mem_filter, Bool.and_eq_true, decide_eq_true_eq, List.contains_iff_mem]

/-- What a push has read is the subscriptions of its devices in its space, one for each. -/
structure Job.Sound (parse : Text → Option Url) (job : Job) : Prop where
  read : ∀ row ∈ job.subscriptions, isPushServiceEndpoint parse row.endpoint = true ∧
    row.groupId = job.groupId ∧
    row.deviceId ∈ job.deviceIds
  gone : job.gone ⊆ job.subscriptions
  once : job.deviceIds.Nodup →
    (job.subscriptions.map StoredSubscription.deviceId ++ job.remaining.flatten).Nodup
  devices : job.remaining.flatten ⊆ job.deviceIds

structure Service.Sound (parse : Text → Option Url) (w : Service) : Prop where
  valid : ∀ row ∈ w.table, isPushServiceEndpoint parse row.endpoint = true
  keys : (w.table.map StoredSubscription.deviceId).Nodup
  jobs : ∀ job ∈ w.jobs, job.Sound parse
  posts : ∀ post ∈ w.posts, isPushServiceEndpoint parse post.subscription.endpoint = true ∧
    post.subscription.groupId = post.groupId ∧
    ∃ job ∈ w.jobs, job.groupId = post.groupId ∧ post.subscription.deviceId ∈ job.deviceIds

/-- The devices and the space of a push do not change. -/
theorem exists_mem_set {jobs : List Job} {k : ℕ} {job job' : Job} (hk : jobs[k]? = some job)
    (hg : job'.groupId = job.groupId) (hd : job'.deviceIds = job.deviceIds) {groupId : GroupId}
    {d : DeviceId} (h : ∃ j ∈ jobs, j.groupId = groupId ∧ d ∈ j.deviceIds) :
    ∃ j ∈ jobs.set k job', j.groupId = groupId ∧ d ∈ j.deviceIds := by
  obtain ⟨j, hj, hgroup, hdevice⟩ := h
  obtain ⟨i, hi⟩ := List.mem_iff_getElem?.mp hj
  by_cases hik : k = i
  · subst hik
    obtain rfl := Option.some.inj (hk.symm.trans hi)
    exact ⟨job', List.mem_set (List.getElem?_eq_some_iff.mp hk).1 _, hg.trans hgroup, hd ▸ hdevice⟩
  · exact ⟨j, List.mem_of_getElem? (by rw [List.getElem?_set_ne hik, hi]), hgroup, hdevice⟩

theorem Job.Sound.read_chunk {job : Job} (h : job.Sound parse) (hw : w.Sound parse)
    {chunk : List DeviceId}
    {remaining : List (List DeviceId)} (hr : job.remaining = chunk :: remaining) :
    Job.Sound parse { job with
      remaining, subscriptions := job.subscriptions ++ select w.table job.groupId chunk } where
  read row hrow := by
    rcases List.mem_append.mp hrow with hrow | hrow
    · exact h.read row hrow
    · obtain ⟨htable, hgroup, hchunk⟩ := mem_select.mp hrow
      refine ⟨hw.valid row htable, hgroup, h.devices ?_⟩
      rw [hr, List.flatten_cons]
      exact List.mem_append_left _ hchunk
  gone := fun _ hr => List.mem_append_left _ (h.gone hr)
  once hnodup := by
    have honce := h.once hnodup
    rw [hr, List.flatten_cons, ← List.append_assoc] at honce
    have hsub : (select w.table job.groupId chunk).map StoredSubscription.deviceId ⊆ chunk := by
      intro d hd
      obtain ⟨row, hrow, rfl⟩ := List.mem_map.mp hd
      exact (mem_select.mp hrow).2.2
    have hself : ((select w.table job.groupId chunk).map StoredSubscription.deviceId).Nodup :=
      hw.keys.sublist (List.filter_sublist.map _)
    rw [List.nodup_append] at honce ⊢
    obtain ⟨hleft, hrest, hdisjoint⟩ := honce
    obtain ⟨hread, -, hchunk⟩ := List.nodup_append.mp hleft
    rw [List.map_append]
    refine ⟨List.nodup_append.mpr ⟨hread, hself, fun a ha b hb => hchunk a ha b (hsub hb)⟩, hrest,
      fun a ha b hb => ?_⟩
    rcases List.mem_append.mp ha with ha | ha
    · exact hdisjoint a (List.mem_append_left _ ha) b hb
    · exact hdisjoint a (List.mem_append_right _ (hsub ha)) b hb
  devices := fun d hd => h.devices (by
    rw [hr, List.flatten_cons]
    exact List.mem_append_right _ hd)

theorem Service.Sound.step (h : w.Sound parse) (hs : Pushes.step parse w e = some w') :
    w'.Sound parse := by
  have hset : ∀ {k : ℕ} {job' : Job}, job'.Sound parse → ∀ j ∈ w.jobs.set k job',
      j.Sound parse := by
    intro k job' hjob j hj
    rcases List.mem_or_eq_of_mem_set hj with hj | rfl
    · exact h.jobs j hj
    · exact hjob
  cases e with
  | subscribe row =>
    rw [Pushes.step] at hs
    split at hs
    · next hvalid =>
      obtain rfl := Option.some.inj hs
      refine ⟨List.forall_mem_cons.mpr ⟨hvalid, fun r hr => h.valid r (List.mem_filter.mp hr).1⟩,
        ?_, h.jobs, h.posts⟩
      refine List.nodup_cons.mpr ⟨fun hmem => ?_, h.keys.sublist (List.filter_sublist.map _)⟩
      obtain ⟨r, hr, heq⟩ := List.mem_map.mp hmem
      exact absurd heq (of_decide_eq_true (List.mem_filter.mp hr).2)
    · cases hs
  | unsubscribe deviceId groupId =>
    obtain rfl := Option.some.inj hs
    exact ⟨fun r hr => h.valid r (List.mem_filter.mp hr).1,
      h.keys.sublist (List.filter_sublist.map _), h.jobs, h.posts⟩
  | push groupId deviceIds =>
    obtain rfl := Option.some.inj hs
    refine ⟨h.valid, h.keys, fun job hjob => ?_, fun post hpost => ?_⟩
    · rcases List.mem_append.mp hjob with hjob | hjob
      · exact h.jobs job hjob
      · rw [List.mem_singleton.mp hjob]
        refine ⟨fun _ hr => absurd hr List.not_mem_nil, fun _ hr => hr,
          fun hnodup => ?_, fun d hd => ?_⟩
        · simpa [flatten_chunks] using hnodup
        · simpa [flatten_chunks] using hd
    · obtain ⟨hvalid, hgroup, job, hjob, hj⟩ := h.posts post hpost
      exact ⟨hvalid, hgroup, job, List.mem_append_left _ hjob, hj⟩
  | read k =>
    obtain ⟨job, hk, hs⟩ := Option.bind_eq_some_iff.mp hs
    have hjob := h.jobs job (List.mem_of_getElem? hk)
    obtain ⟨job', hjob', rfl⟩ := Option.map_eq_some_iff.mp hs
    rw [Job.nextChunk] at hjob'
    split at hjob'
    · cases hjob'
    · next chunk remaining hr =>
      obtain rfl := Option.some.inj hjob'
      refine ⟨h.valid, h.keys, hset (hjob.read_chunk h hr), fun post hpost => ?_⟩
      obtain ⟨hvalid, hgroup, hj⟩ := h.posts post hpost
      refine ⟨hvalid, hgroup, exists_mem_set hk ?_ ?_ hj⟩ <;> rfl
  | send k outcome =>
    obtain ⟨job, hk, hs⟩ := Option.bind_eq_some_iff.mp hs
    have hjob := h.jobs job (List.mem_of_getElem? hk)
    split at hs
    · cases hs
    · obtain rfl := Option.some.inj hs
      refine ⟨h.valid, h.keys, hset ?_, fun post hpost => ?_⟩
      · exact ⟨hjob.read, List.filter_subset_self _, hjob.once, hjob.devices⟩
      · rcases List.mem_append.mp hpost with hpost | hpost
        · obtain ⟨hvalid, hgroup, hj⟩ := h.posts post hpost
          refine ⟨hvalid, hgroup, exists_mem_set hk ?_ ?_ hj⟩ <;> rfl
        · obtain ⟨row, hrow, rfl⟩ := List.mem_map.mp hpost
          obtain ⟨hvalid, hgroup, hdevice⟩ := hjob.read row hrow
          refine ⟨hvalid, hgroup, exists_mem_set hk ?_ ?_ ⟨job, List.mem_of_getElem? hk, rfl,
            hdevice⟩⟩ <;> rfl
  | delete k =>
    obtain ⟨job, hk, rfl⟩ := Option.map_eq_some_iff.mp hs
    have hjob := h.jobs job (List.mem_of_getElem? hk)
    refine ⟨fun r hr => h.valid r (List.mem_filter.mp hr).1,
      h.keys.sublist (List.filter_sublist.map _),
      hset ⟨hjob.read, List.nil_subset _, hjob.once, hjob.devices⟩, fun post hpost => ?_⟩
    obtain ⟨hvalid, hgroup, hj⟩ := h.posts post hpost
    refine ⟨hvalid, hgroup, exists_mem_set hk ?_ ?_ hj⟩ <;> rfl

theorem Reached.sound (h : Reached parse w) : w.Sound parse := by
  refine Runs.ReachableVia.invariant (I := Service.Sound parse) ?_ (fun _ _ _ hI _ hs =>
    hI.step hs) h
  exact ⟨fun _ hr => absurd hr List.not_mem_nil, List.nodup_nil,
    fun _ hj => absurd hj List.not_mem_nil,
    fun _ hp => absurd hp List.not_mem_nil⟩

/-- A push is posted to push services only, and only to where a device it is for has subscribed to
its space; and not twice for one device. -/
theorem posted_where_subscribed (h : Reached parse w) :
    (∀ post ∈ w.posts, isPushServiceEndpoint parse post.subscription.endpoint = true ∧
      post.subscription.groupId = post.groupId ∧
      ∃ job ∈ w.jobs, job.groupId = post.groupId ∧ post.subscription.deviceId ∈ job.deviceIds) ∧
    ∀ job ∈ w.jobs, job.deviceIds.Nodup →
      (job.subscriptions.map StoredSubscription.deviceId).Nodup :=
  ⟨h.sound.posts, fun job hjob hnodup =>
    ((h.sound.jobs job hjob).once hnodup).sublist (List.sublist_append_left _ _)⟩

/-- The device does not change its subscription, nor is it gone. -/
def Event.Spares (row : StoredSubscription) : Event → Prop
  | .subscribe r => r.deviceId ≠ row.deviceId
  | .unsubscribe deviceId _ => deviceId ≠ row.deviceId
  | .send _ outcome => ∀ r : StoredSubscription, r.deviceId = row.deviceId →
      r.endpoint = row.endpoint → outcome r ≠ .gone
  | _ => True

namespace Sample

def readUrl (endpoint : Text) : Option Url :=
  if endpoint = literal "https://fcm.googleapis.com/old" ∨
      endpoint = literal "https://fcm.googleapis.com/new" then
    some ⟨literal "https:", literal "fcm.googleapis.com", [], [], []⟩
  else none

def old : StoredSubscription :=
  ⟨1, 5, literal "https://fcm.googleapis.com/old", literal "key", literal "auth"⟩

def new : StoredSubscription :=
  ⟨1, 5, literal "https://fcm.googleapis.com/new", literal "key", literal "auth"⟩

/-- A push has read the old subscription when the device makes a new one. -/
def renewed : Service := ⟨[new], [⟨5, [1], [], [old], [], false⟩], []⟩

theorem reached : Reached readUrl renewed := by
  have h : Runs.replay (step readUrl) ⟨[], [], []⟩ [.subscribe old, .push 5 [1],
      .read 0, .subscribe new] = some renewed := by
    decide +kernel
  exact Runs.reachable_of_replay h

/-- The push service says that the old one is gone. -/
def pushed : Service := ⟨[new], [⟨5, [1], [], [old], [], true⟩], [⟨old, 5⟩]⟩

theorem run : Runs.ReachableVia (step readUrl) (fun _ e => e.Spares new) renewed pushed := by
  have hsend :
      Event.Spares new (.send 0 fun r => if r = old then .gone else .sent) := fun r _ hend => by
    have hr : r ≠ old := by
      rintro rfl
      revert hend
      decide
    simp only [if_neg hr]
    decide
  have hsent : Runs.ReachableVia (step readUrl) (fun _ e => e.Spares new) renewed
      ⟨[new], [⟨5, [1], [], [old], [old], true⟩], [⟨old, 5⟩]⟩ := .next .start
        hsend (by decide +kernel)
  exact .next hsent (e := .delete 0) trivial (by decide +kernel)

end Sample

theorem posted_where_subscribed_sample :
    Reached Sample.readUrl Sample.pushed ∧ ∀ post ∈ Sample.pushed.posts,
    isPushServiceEndpoint Sample.readUrl post.subscription.endpoint = true ∧
    post.subscription.groupId = post.groupId ∧
      ∃ job ∈ Sample.pushed.jobs, job.groupId = post.groupId ∧
        post.subscription.deviceId ∈ job.deviceIds := by
  have h : Reached Sample.readUrl Sample.pushed := Sample.reached.trans Sample.run.reachable
  exact ⟨h, (posted_where_subscribed h).1⟩

/-- A push that has begun since there were `n` finds the subscription, and posts to it. -/
structure Service.Keeps (row : StoredSubscription) (n : ℕ) (w : Service) : Prop where
  table : row ∈ w.table
  gone : ∀ job ∈ w.jobs, ∀ r ∈ job.gone, r.deviceId = row.deviceId → r.endpoint ≠ row.endpoint
  found : ∀ k job, n ≤ k → w.jobs[k]? = some job → job.groupId = row.groupId →
    row.deviceId ∈ job.deviceIds →
    (row ∈ job.subscriptions ∨ row.deviceId ∈ job.remaining.flatten) ∧
      (job.sent = true → ⟨row, row.groupId⟩ ∈ w.posts)

theorem getElem?_set_eq_some {jobs : List Job} {k i : ℕ} {job j : Job}
    (h : (jobs.set k job)[i]? = some j) :
    k = i ∧ j = job ∨ jobs[i]? = some j := by
  rw [List.getElem?_set] at h
  split at h
  · next hki =>
    split at h
    · exact .inl ⟨hki, (Option.some.inj h).symm⟩
    · cases h
  · exact .inr h

theorem Service.Keeps.step {n : ℕ} (h : w.Keeps row n) (hn : n ≤ w.jobs.length) (he : e.Spares row)
    (hs : Pushes.step parse w e = some w') : w'.Keeps row n ∧ n ≤ w'.jobs.length := by
  cases e with
  | subscribe r =>
    rw [Pushes.step] at hs
    split at hs
    · obtain rfl := Option.some.inj hs
      exact ⟨⟨List.mem_cons_of_mem _ (List.mem_filter.mpr ⟨h.table, decide_eq_true (Ne.symm he)⟩),
        h.gone, h.found⟩, hn⟩
    · cases hs
  | unsubscribe deviceId groupId =>
    obtain rfl := Option.some.inj hs
    exact ⟨⟨List.mem_filter.mpr ⟨h.table, decide_eq_true fun heq =>
      he heq.1.symm⟩, h.gone, h.found⟩, hn⟩
  | push groupId deviceIds =>
    obtain rfl := Option.some.inj hs
    refine ⟨⟨h.table, fun job hjob => ?_, fun k job hk hj hg hd => ?_⟩, by simp; omega⟩
    · rcases List.mem_append.mp hjob with hjob | hjob
      · exact h.gone job hjob
      · rw [List.mem_singleton.mp hjob]
        exact fun _ hr => absurd hr List.not_mem_nil
    · rcases Page.getElem?_concat_eq_some hj with ⟨hj, -⟩ | ⟨-, rfl⟩
      · exact h.found k job hk hj hg hd
      · rw [flatten_chunks]
        exact ⟨.inr hd, fun hsent => Bool.noConfusion hsent⟩
  | read k =>
    obtain ⟨job, hk, hs⟩ := Option.bind_eq_some_iff.mp hs
    obtain ⟨job', hjob', rfl⟩ := Option.map_eq_some_iff.mp hs
    rw [Job.nextChunk] at hjob'
    split at hjob'
    · cases hjob'
    · next chunk remaining hr =>
      obtain rfl := Option.some.inj hjob'
      refine ⟨⟨h.table, fun j hj => ?_, fun i j hi hj hg hd => ?_⟩, by simpa using hn⟩
      · rcases List.mem_or_eq_of_mem_set hj with hj | rfl
        · exact h.gone j hj
        · exact h.gone job (List.mem_of_getElem? hk)
      · rcases getElem?_set_eq_some hj with ⟨rfl, rfl⟩ | hj
        · obtain ⟨hfound, hposted⟩ := h.found k job hi hk hg hd
          refine ⟨?_, hposted⟩
          rw [hr, List.flatten_cons, List.mem_append] at hfound
          rcases hfound with hfound | hchunk | hlater
          · exact .inl (List.mem_append_left _ hfound)
          · exact .inl (List.mem_append_right _ (mem_select.mpr ⟨h.table, hg.symm, hchunk⟩))
          · exact .inr hlater
        · exact h.found i j hi hj hg hd
  | send k outcome =>
    obtain ⟨job, hk, hs⟩ := Option.bind_eq_some_iff.mp hs
    split at hs
    · cases hs
    · next hif =>
      obtain rfl := Option.some.inj hs
      rw [not_or, not_not] at hif
      refine ⟨⟨h.table, fun j hj => ?_, fun i j hi hj hg hd => ?_⟩, by simpa using hn⟩
      · rcases List.mem_or_eq_of_mem_set hj with hj | rfl
        · exact h.gone j hj
        · intro r hr hdev hend
          exact he r hdev hend (of_decide_eq_true (List.mem_filter.mp hr).2)
      · rcases getElem?_set_eq_some hj with ⟨rfl, rfl⟩ | hj
        · obtain ⟨hfound, -⟩ := h.found k job hi hk hg hd
          refine ⟨hfound, fun _ => List.mem_append_right _ ?_⟩
          rw [hif.1, List.flatten_nil, or_iff_left List.not_mem_nil] at hfound
          exact List.mem_map.mpr ⟨row, hfound, by rw [← hg]⟩
        · obtain ⟨hfound, hposted⟩ := h.found i j hi hj hg hd
          exact ⟨hfound, fun hsent => List.mem_append_left _ (hposted hsent)⟩
  | delete k =>
    obtain ⟨job, hk, rfl⟩ := Option.map_eq_some_iff.mp hs
    refine ⟨⟨List.mem_filter.mpr ⟨h.table, decide_eq_true ?_⟩, fun j hj => ?_,
      fun i j hi hj hg hd => ?_⟩, by simpa using hn⟩
    · rintro ⟨r, hr, hdev, hend⟩
      exact h.gone job (List.mem_of_getElem? hk) r hr hdev.symm hend.symm
    · rcases List.mem_or_eq_of_mem_set hj with hj | rfl
      · exact h.gone j hj
      · exact fun _ hr => absurd hr List.not_mem_nil
    · rcases getElem?_set_eq_some hj with ⟨rfl, rfl⟩ | hj
      · exact h.found k job hi hk hg hd
      · exact h.found i j hi hj hg hd

/-- A subscription outlives every push that finds another one of its device gone, and every push to
its device that begins from now on is posted to it. -/
theorem subscription_survives (hrow : row ∈ w.table)
    (hgone : ∀ job ∈ w.jobs, ∀ r ∈ job.gone, r.deviceId = row.deviceId → r.endpoint ≠ row.endpoint)
    (hrun : Runs.ReachableVia (step parse) (fun _ e => e.Spares row) w w') :
    row ∈ w'.table ∧ ∀ k job, w.jobs.length ≤ k → w'.jobs[k]? = some job →
    job.groupId = row.groupId →
      row.deviceId ∈ job.deviceIds → job.sent = true → ⟨row, row.groupId⟩ ∈ w'.posts := by
  have h :=
    hrun.invariant (I := fun w' => w'.Keeps row w.jobs.length ∧ w.jobs.length ≤ w'.jobs.length)
    ⟨⟨hrow, hgone, fun k job hk hj => absurd (List.getElem?_eq_some_iff.mp hj).1 (by omega)⟩,
      le_rfl⟩
    fun _ _ _ hI he hs => hI.1.step hI.2 he hs
  exact ⟨h.1.table, fun k job hk hj hg hd hsent => (h.1.found k job hk hj hg hd).2 hsent⟩

theorem subscription_survives_sample : Sample.new ∈ Sample.pushed.table :=
  (subscription_survives (List.mem_singleton_self _) (by decide) Sample.run).1

end SendSelf.Realtime.Pushes
