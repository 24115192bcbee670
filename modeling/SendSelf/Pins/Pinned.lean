import SendSelf.Pins.Identities
import SendSelf.Library.Runs

/-!
# A key that is held stays, and no rotation wraps for another

Every call reads the store, works on what it read, and saves the whole of it. Calls
overlap: between the read and the save of one, others may save. A rotation reconciles the
roster it was served before it wraps the new key for anybody.
-/
namespace SendSelf

/-- The two rows of `meta` that the calls read. -/
structure IdentityStore where
  identities : Option DeviceIdentities
  pins : Option (Table DevicePin.id)

namespace loadIdentities

inductive Stage where
  | reading
  | legacy
  | upgrading (upgraded : DeviceIdentities)
  | returned (identities : DeviceIdentities)
deriving DecidableEq

/-- One await of `loadIdentities`. -/
def next (store : IdentityStore) : Stage → IdentityStore × Stage
  | .reading => (store, store.identities.elim .legacy .returned)
  | .legacy =>
      (store, store.pins.elim (.returned .empty) fun pins =>
        .upgrading (DeviceIdentities.upgraded pins))
  | .upgrading upgraded => ({ store with identities := some upgraded }, .returned upgraded)
  | .returned identities => (store, .returned identities)

end loadIdentities

inductive IdentityTask where
  | load
  | pin (bundle : DeviceKeyBundle)
  | seed (bundles : List DeviceKeyBundle)
  | reconcile (devices : List RosterDevice) (groupId : GroupId)
deriving DecidableEq

/-- What a task saves and returns for what it has loaded; `none` when it throws. -/
def IdentityTask.change (inherited : DeviceId → Bool) (verify : VerifyStatement)
    (loaded : DeviceIdentities) :
    IdentityTask → Option (DeviceIdentities × List DeviceId)
  | .load => some (loaded, [])
  | .pin bundle => some (.pinned bundle loaded, [])
  | .seed bundles => some (.seeded bundles loaded, [])
  | .reconcile devices groupId => reconcileDevices.run inherited verify devices groupId loaded

inductive TaskStage where
  | loading (stage : loadIdentities.Stage)
  | saving (loaded : DeviceIdentities)
  | returned (changed : List DeviceId)
  | thrown
deriving DecidableEq

/-- Where a task goes on when its load has come to `stage`. -/
def IdentityTask.loaded (task : IdentityTask) : loadIdentities.Stage → TaskStage
  | .returned identities =>
      match task with
      | .load => .returned []
      | _ => .saving identities
  | stage => .loading stage

/-- One await of a task. -/
def IdentityTask.next (inherited : DeviceId → Bool) (verify : VerifyStatement) (task : IdentityTask)
    (store : IdentityStore) :
    TaskStage → IdentityStore × TaskStage
  | .loading stage =>
    ((loadIdentities.next store stage).1, task.loaded (loadIdentities.next store stage).2)
  | .saving loaded =>
      match task.change inherited verify loaded with
      | some (identities, changed) =>
          ({ store with identities := some identities }, .returned changed)
      | none => (store, .thrown)
  | stage => (store, stage)

/-- A rotation that is due, with the roster the server has answered. -/
structure Rotation where
  devices : List RosterDevice
  groupId : GroupId
  deviceId : DeviceId
deriving DecidableEq

namespace rotateGroupKey

/-- `reconcileRoster` loads what it compares the roster with before it reconciles, and once
more for its notices, unless there was nothing to compare with. -/
inductive Stage where
  | before (stage : loadIdentities.Stage)
  | reconciling (before : DeviceIdentities) (stage : TaskStage)
  | noting (changed : List DeviceId) (stage : loadIdentities.Stage)
  | mismatch
  | wrapped (wraps : List (DeviceId × PublicKey))
  | thrown
deriving DecidableEq

/-- The roster is reconciled: the rotation stops, or wraps for the others. -/
def checked (r : Rotation) (changed : List DeviceId) : Stage :=
  if changed.length > 0 then .mismatch
  else .wrapped ((r.devices.filter fun device => decide (device.id ≠ r.deviceId)).map fun device =>
    (device.id, device.publicKey))

def reconciled (r : Rotation) (before : DeviceIdentities) : TaskStage → Stage
  | .returned changed => if before.rows = [] then checked r changed else .noting changed .reading
  | .thrown => .thrown
  | stage => .reconciling before stage

/-- One await of `rotateGroupKey`, from the answered roster to the wraps. -/
def next (inherited : DeviceId → Bool) (verify : VerifyStatement) (r : Rotation)
    (store : IdentityStore) : Stage → IdentityStore × Stage
  | .before stage =>
      ((loadIdentities.next store stage).1,
        match (loadIdentities.next store stage).2 with
        | .returned before => .reconciling before (.loading .reading)
        | stage => .before stage)
  | .reconciling before stage =>
      (((IdentityTask.reconcile r.devices r.groupId).next inherited verify store stage).1,
        reconciled r before
          ((IdentityTask.reconcile r.devices r.groupId).next inherited verify store stage).2)
  | .noting changed stage =>
      ((loadIdentities.next store stage).1,
        match (loadIdentities.next store stage).2 with
        | .returned _ => checked r changed
        | stage => .noting changed stage)
  | stage => (store, stage)

end rotateGroupKey

inductive IdentityCall where
  | task (task : IdentityTask) (stage : TaskStage)
  | rotation (r : Rotation) (stage : rotateGroupKey.Stage)
deriving DecidableEq

def IdentityCall.next (inherited : DeviceId → Bool) (verify : VerifyStatement)
    (store : IdentityStore) : IdentityCall → IdentityStore × IdentityCall
  | .task t stage =>
    ((t.next inherited verify store stage).1, .task t (t.next inherited verify store stage).2)
  | .rotation r stage =>
      ((rotateGroupKey.next inherited verify r store stage).1,
        .rotation r (rotateGroupKey.next inherited verify r store stage).2)

abbrev CallId := ℕ

/-- The store of a space, and the calls on it so far. -/
structure Identities where
  store : IdentityStore
  calls : CallId → Option IdentityCall

inductive IdentityEvent where
  | task (c : CallId) (task : IdentityTask)
  | rotate (c : CallId) (r : Rotation)
  | run (c : CallId)

namespace Identities

def step (inherited : DeviceId → Bool) (verify : VerifyStatement) (s : Identities) :
    IdentityEvent → Option Identities
  | .task c t =>
      if s.calls c = none then
        some { s with calls := Function.update s.calls c (some (.task t (.loading .reading))) }
      else none
  | .rotate c r =>
      if s.calls c = none then
        some { s with calls := Function.update s.calls c (some (.rotation r (.before .reading))) }
      else none
  | .run c => (s.calls c).map fun call =>
      ⟨(call.next inherited verify s.store).1,
        Function.update s.calls c (some (call.next inherited verify s.store).2)⟩

/-- What is held of a device. -/
def held (s : Identities) (d : DeviceId) : Option DeviceIdentity :=
  s.store.identities.bind fun known => known.get? d

end Identities

inductive IdentityWrite where
  | upgrade (upgraded : DeviceIdentities)
  | save (task : IdentityTask) (loaded : DeviceIdentities)

def IdentityWrite.commit (inherited : DeviceId → Bool) (verify : VerifyStatement)
    (store : IdentityStore) : IdentityWrite → IdentityStore
  | .upgrade upgraded => { store with identities := some upgraded }
  | .save task loaded =>
      (task.change inherited verify loaded).elim store fun result =>
        { store with identities := some result.1 }

def loadIdentities.Stage.write : loadIdentities.Stage → Option IdentityWrite
  | .upgrading upgraded => some (.upgrade upgraded)
  | _ => none

def TaskStage.write (task : IdentityTask) : TaskStage → Option IdentityWrite
  | .loading stage => stage.write
  | .saving loaded => some (.save task loaded)
  | _ => none

/-- The write that the call's next await makes. -/
def IdentityCall.write : IdentityCall → Option IdentityWrite
  | .task t stage => stage.write t
  | .rotation _ (.before stage) | .rotation _ (.noting _ stage) => stage.write
  | .rotation r (.reconciling _ stage) => stage.write (.reconcile r.devices r.groupId)
  | .rotation _ _ => none

theorem loadIdentities.next_store {store : IdentityStore} {stage : Stage}
    {inherited : DeviceId → Bool} {verify : VerifyStatement} :
    (next store stage).1 = stage.write.elim store fun w => w.commit inherited verify store := by
  cases stage <;> rfl

theorem IdentityTask.next_store {inherited : DeviceId → Bool} {verify : VerifyStatement}
    {task : IdentityTask} {store : IdentityStore} {stage : TaskStage} :
    (task.next inherited verify store stage).1 = (stage.write task).elim store fun w =>
      w.commit inherited verify store := by
  cases stage with
  | loading stage => exact loadIdentities.next_store
  | saving loaded =>
    simp only [next, TaskStage.write, Option.elim_some, IdentityWrite.commit]
    cases task.change inherited verify loaded <;> rfl
  | _ => rfl

theorem IdentityCall.next_store {inherited : DeviceId → Bool} {verify : VerifyStatement}
    {call : IdentityCall} {store : IdentityStore} :
    (call.next inherited verify store).1 = call.write.elim store fun w =>
      w.commit inherited verify store := by
  cases call with
  | task t stage => exact IdentityTask.next_store
  | rotation r stage =>
    cases stage with
    | before stage => exact loadIdentities.next_store
    | reconciling before stage => exact IdentityTask.next_store
    | noting changed stage => exact loadIdentities.next_store
    | _ => rfl

instance {e e' : DeviceIdentity} : Decidable (SameKeys e e') :=
  decidable_of_iff (e'.publicKey = e.publicKey ∧ ∀ k ∈ e.signingPublicKey,
    e'.signingPublicKey = some k)
    ⟨fun h => ⟨h.1, h.2⟩, fun h => ⟨h.1, h.2⟩⟩

/-- The task does not set out to change what is held of a device: it does not pin it, its
roster has it, and it does not seed other keys over ones that were not scanned. -/
def IdentityTask.Spares (d : DeviceId) (held : Option DeviceIdentity) : IdentityTask → Prop
  | .load => True
  | .pin bundle => bundle.deviceId ≠ d
  | .seed bundles => ∀ e ∈ held, e.trust ≠ .scanned →
      ∀ bundle ∈ bundles, bundle.deviceId = d → SameKeys e (bundle.identity .inherited)
  | .reconcile devices _ => d ∈ devices.map RosterDevice.id

/-- Nothing of the device was saved since the call that writes has loaded. -/
def IdentityWrite.Spares (d : DeviceId) (held : Option DeviceIdentity) : IdentityWrite → Prop
  | .upgrade _ => held = none
  | .save task loaded => loaded.get? d = held ∧ task.Spares d held

instance {d : DeviceId} {held : Option DeviceIdentity} : DecidablePred (IdentityTask.Spares d held)
  | .load => inferInstanceAs (Decidable True)
  | .pin bundle => inferInstanceAs (Decidable (bundle.deviceId ≠ d))
  | .seed bundles => inferInstanceAs (Decidable (∀ e ∈ held, e.trust ≠ .scanned →
      ∀ bundle ∈ bundles, bundle.deviceId = d → SameKeys e (bundle.identity .inherited)))
  | .reconcile devices _ => inferInstanceAs (Decidable (d ∈ devices.map RosterDevice.id))

instance {d : DeviceId} {held : Option DeviceIdentity} : DecidablePred (IdentityWrite.Spares d held)
  | .upgrade _ => inferInstanceAs (Decidable (held = none))
  | .save task loaded => inferInstanceAs (Decidable (loaded.get? d = held ∧ task.Spares d held))

variable {inherited : DeviceId → Bool} {verify : VerifyStatement} {d : DeviceId}
    {e e' : DeviceIdentity}

theorem IdentityTask.keeps_change {task : IdentityTask} {loaded : DeviceIdentities}
    {result : DeviceIdentities × List DeviceId}
    (h : task.change inherited verify loaded = some result)
    (hspares : task.Spares d (loaded.get? d)) : KeepsKeys d loaded result.1 := by
  cases task with
  | load =>
    obtain rfl := Option.some.inj h
    exact .refl d loaded
  | pin bundle =>
    obtain rfl := Option.some.inj h
    exact DeviceIdentities.keeps_pinned hspares
  | seed bundles =>
    obtain rfl := Option.some.inj h
    exact DeviceIdentities.keeps_seeded hspares
  | reconcile devices groupId => exact (reconcileDevices.run_spec h).1 hspares

namespace Identities

/-- The keys of a device stay through a write that spares it. -/
theorem held_commit {store : IdentityStore} {w : IdentityWrite}
    (hheld : (store.identities.bind fun known => known.get? d) = some e)
    (hspares : w.Spares d (some e)) :
    ∃ e', ((w.commit inherited verify store).identities.bind fun known => known.get? d) = some e' ∧
      SameKeys e e' := by
  cases w with
  | upgrade upgraded => cases hspares
  | save task loaded =>
    obtain ⟨hloaded, htask⟩ := hspares
    simp only [IdentityWrite.commit]
    cases hchange : task.change inherited verify loaded with
    | none => exact ⟨e, hheld, .refl e⟩
    | some result => exact IdentityTask.keeps_change hchange (hloaded ▸ htask) e hloaded

end Identities

/-- What differs from the keys held is reported. -/
def Reports (d : DeviceId) (e : DeviceIdentity) (devices : List RosterDevice)
    (changed : List DeviceId) : Prop :=
  ∀ device ∈ devices, device.id = d → reconcileDevices.differs e device = true → d ∈ changed

/-- A call that has not saved yet has nothing to show for itself. -/
def IdentityCall.unsaved : IdentityCall → Bool
  | .task _ (.loading _) | .task _ (.saving _) => true
  | .rotation _ (.before _) | .rotation _ (.reconciling _ (.loading _)) |
      .rotation _ (.reconciling _ (.saving _)) => true
  | _ => false

/-- A call that has reconciled a roster has reported what differs in it, and a rotation
wraps for a device under no other key than the one held. -/
def IdentityCall.Heeds (d : DeviceId) (e : DeviceIdentity) : IdentityCall → Prop
  | .task (.reconcile devices _) (.returned changed) => Reports d e devices changed
  | .rotation r (.reconciling _ (.returned changed)) | .rotation r (.noting changed _) =>
      Reports d e r.devices changed
  | .rotation _ (.wrapped wraps) => ∀ wrap ∈ wraps, wrap.1 = d → wrap.2 = e.publicKey
  | _ => True

theorem IdentityCall.heeds_of_unsaved {call : IdentityCall} (h : call.unsaved = true) :
    call.Heeds d e := by
  cases call with
  | task t stage =>
    cases stage with
    | loading | saving => cases t <;> trivial
    | returned | thrown => cases h
  | rotation r stage =>
    cases stage with
    | reconciling before stage =>
      cases stage with
      | loading | saving => trivial
      | returned | thrown => cases h
    | before => trivial
    | _ => cases h

theorem rotateGroupKey.heeds_checked {r : Rotation} {changed : List DeviceId}
    (h : Reports d e r.devices changed) :
    (IdentityCall.rotation r (checked r changed)).Heeds d e := by
  unfold checked
  split_ifs with hchanged
  · trivial
  · intro wrap hwrap hid
    obtain ⟨device, hdevice, rfl⟩ := List.mem_map.mp hwrap
    have hsame : ¬ reconcileDevices.differs e device = true := fun hdiffers =>
      hchanged (List.length_pos_of_mem (h device (List.mem_of_mem_filter hdevice) hid hdiffers))
    exact reconcileDevices.publicKey_of_not_differs hsame

theorem IdentityTask.heeds_next {task : IdentityTask} {store : IdentityStore} {stage : TaskStage}
    (h : (IdentityCall.task task stage).Heeds d e) (hsame : SameKeys e e')
    (hspares : ∀ w, stage.write task = some w → w.Spares d (some e')) :
    (IdentityCall.task task (task.next inherited verify store stage).2).Heeds d e := by
  cases stage with
  | loading stage =>
    simp only [next]
    generalize (loadIdentities.next store stage).2 = stage'
    cases task <;> cases stage' <;> trivial
  | saving loaded =>
    simp only [next]
    split
    next identities changed hchange =>
      cases task with
      | reconcile devices groupId =>
        obtain ⟨hloaded, _⟩ := hspares _ rfl
        intro device hdevice hid hdiffers
        have hconflict : reconcileDevices.conflicts inherited loaded device = true := by
          rw [reconcileDevices.conflicts, hid, hloaded]
          exact reconcileDevices.differs_of_sameKeys hsame hdiffers
        exact hid ▸ (reconcileDevices.run_spec (i := d) hchange).2 device hdevice hconflict
      | _ => trivial
    next => cases task <;> trivial
  | _ => exact h

theorem IdentityCall.heeds_next {call : IdentityCall} {store : IdentityStore} (h : call.Heeds d e)
    (hsame : SameKeys e e') (hspares : ∀ w, call.write = some w → w.Spares d (some e')) :
    (call.next inherited verify store).2.Heeds d e := by
  cases call with
  | task t stage => exact IdentityTask.heeds_next h hsame hspares
  | rotation r stage =>
    cases stage with
    | before stage =>
      simp only [next, rotateGroupKey.next]
      split <;> trivial
    | reconciling before stage =>
      have htask : (IdentityCall.task (.reconcile r.devices r.groupId)
          ((IdentityTask.reconcile r.devices r.groupId).next inherited verify store stage).2).Heeds
            d e :=
        IdentityTask.heeds_next (by cases stage <;> exact h) hsame hspares
      simp only [next, rotateGroupKey.next]
      generalize
        ((IdentityTask.reconcile r.devices r.groupId).next inherited verify store stage).2 =
          stage' at htask
      cases stage' with
      | returned changed =>
        simp only [rotateGroupKey.reconciled]
        split_ifs
        · exact rotateGroupKey.heeds_checked htask
        · exact htask
      | _ => trivial
    | noting changed stage =>
      simp only [next, rotateGroupKey.next]
      split
      · exact rotateGroupKey.heeds_checked h
      · exact h
    | _ => exact h

namespace Identities

/-- The step spares a device. -/
def Spares (d : DeviceId) (s : Identities) : IdentityEvent → Prop
  | .run c => ∀ w ∈ (s.calls c).bind IdentityCall.write, w.Spares d (s.held d)
  | _ => True

instance {s : Identities} : DecidablePred (Spares d s)
  | .run c =>
    inferInstanceAs (Decidable (∀ w ∈ (s.calls c).bind IdentityCall.write, w.Spares d (s.held d)))
  | .task _ _ | .rotate _ _ => inferInstanceAs (Decidable True)

theorem step_cases {s t : Identities} {event : IdentityEvent}
    (h : step inherited verify s event = some t) :
    (∃ c call, call.unsaved = true ∧
      t = { s with calls := Function.update s.calls c (some call) }) ∨
      ∃ c call, event = .run c ∧ s.calls c = some call ∧
        t = ⟨(call.next inherited verify s.store).1,
          Function.update s.calls c (some (call.next inherited verify s.store).2)⟩ := by
  cases event with
  | task c t =>
    simp only [step] at h
    split_ifs at h
    obtain rfl := Option.some.inj h
    exact Or.inl ⟨c, _, rfl, rfl⟩
  | rotate c r =>
    simp only [step] at h
    split_ifs at h
    obtain rfl := Option.some.inj h
    exact Or.inl ⟨c, _, rfl, rfl⟩
  | run c =>
    obtain ⟨call, hcall, rfl⟩ := Option.map_eq_some_iff.mp h
    exact Or.inr ⟨c, call, rfl, hcall, rfl⟩

theorem heeds_update {calls : CallId → Option IdentityCall} {c c' : CallId} {call : IdentityCall}
    (hcall : c' = c → call.Heeds d e) (h : ∀ call ∈ calls c', call.Heeds d e) :
    ∀ call' ∈ Function.update calls c (some call) c', call'.Heeds d e := by
  intro call' hcall'
  by_cases hc : c' = c
  · rw [hc, Function.update_self] at hcall'
    obtain rfl := Option.some.inj hcall'
    exact hcall hc
  · rw [Function.update_of_ne hc] at hcall'
    exact h call' hcall'

/-- What a step leaves of a device that it spares, and of a call that heeds its keys. -/
theorem heeds_step {s t : Identities} {event : IdentityEvent}
    (h : step inherited verify s event = some t) (hspares : s.Spares d event)
    (hheld : s.held d = some e') (hsame : SameKeys e e') :
    (∃ e'', t.held d = some e'' ∧ SameKeys e e'') ∧
      ∀ c, (∀ call ∈ s.calls c, call.Heeds d e) → ∀ call ∈ t.calls c, call.Heeds d e := by
  obtain ⟨c, call, hunsaved, rfl⟩ | ⟨c, call, rfl, hcall, rfl⟩ := step_cases h
  · exact ⟨⟨e', hheld, hsame⟩,
      fun c' hheeds => heeds_update (fun _ => IdentityCall.heeds_of_unsaved hunsaved) hheeds⟩
  · have hwrite : ∀ w, call.write = some w → w.Spares d (some e') := fun w hw => by
      rw [← hheld]
      exact hspares w (by rw [hcall]; exact hw)
    constructor
    · simp only [held, IdentityCall.next_store]
      cases hw : call.write with
      | none => exact ⟨e', hheld, hsame⟩
      | some w =>
        obtain ⟨e'', he'', hsame'⟩ :=
          @held_commit inherited verify d e' s.store w hheld (hwrite w hw)
        exact ⟨e'', he'', hsame.trans hsame'⟩
    · refine fun c' hheeds => heeds_update (fun hc => ?_) hheeds
      exact IdentityCall.heeds_next (hheeds call (hc ▸ hcall)) hsame hwrite

/-- While every write spares a device, the keys held of it stay. Every roster reconciled in
the meantime that shows another key for it is reported, and no rotation wraps for another. -/
theorem pinned_kept {s t : Identities} (hheld : s.held d = some e)
    (h : Runs.ReachableVia (step inherited verify) (fun s event => s.Spares d event) s t) :
    (∃ e', t.held d = some e' ∧ SameKeys e e') ∧
      ∀ c, (∀ call ∈ s.calls c, call.unsaved = true) → ∀ call ∈ t.calls c, call.Heeds d e := by
  have hkept : (∃ e', t.held d = some e' ∧ SameKeys e e') ∧
      ∀ c, (∀ call ∈ s.calls c, call.Heeds d e) → ∀ call ∈ t.calls c, call.Heeds d e := by
    refine h.invariant (I := fun t : Identities => (∃ e', t.held d = some e' ∧ SameKeys e e') ∧
      ∀ c, (∀ call ∈ s.calls c, call.Heeds d e) → ∀ call ∈ t.calls c, call.Heeds d e)
      ⟨⟨e, hheld, .refl e⟩, fun _ hcalls => hcalls⟩ fun u event v hI hspares hstep => ?_
    obtain ⟨⟨e', he', hsame⟩, hcalls⟩ := hI
    obtain ⟨hheld', hcalls'⟩ := heeds_step hstep hspares he' hsame
    exact ⟨hheld', fun c hc => hcalls' c (hcalls c hc)⟩
  exact ⟨hkept.1, fun c hunsaved => hkept.2 c fun call hcall =>
    IdentityCall.heeds_of_unsaved (hunsaved call hcall)⟩

/-- Nothing is stored yet. -/
def start : Identities := ⟨⟨none, none⟩, fun _ => none⟩

/-- A task that runs on its own. -/
def running (c : CallId) (task : IdentityTask) : List IdentityEvent :=
  .task c task :: List.replicate 4 (.run c)

def rotating (c : CallId) (r : Rotation) : List IdentityEvent :=
  .rotate c r :: List.replicate 8 (.run c)

/-- Device 2 is scanned. A roster has another key for it, and then its own; both times a
rotation is due. -/
theorem pinned_kept_swapping : ∃ s t : Identities, s.held 2 = some ⟨2, 25, none, .scanned⟩ ∧
    t.calls 3 = some (.rotation ⟨[⟨2, 26, none, none⟩], 7, 1⟩ .mismatch) ∧
    t.calls 4 = some (.rotation ⟨[⟨2, 25, some 45, none⟩], 7, 1⟩ (.wrapped [(2, 25)])) ∧
    ((∃ e', t.held 2 = some e' ∧ SameKeys ⟨2, 25, none, .scanned⟩ e') ∧
      ∀ c, (∀ call ∈ s.calls c, call.unsaved = true) → ∀ call ∈ t.calls c,
        call.Heeds 2 ⟨2, 25, none, .scanned⟩) := by
  have hrun :
      ((Runs.replay (step (fun _ => false) fun _ _ _ => some true) start
        (running 1 (.pin ⟨2, 25, none⟩))).any fun s =>
      decide (s.held 2 = some ⟨2, 25, none, .scanned⟩) &&
        (Runs.replayVia (step (fun _ => false) fun _ _ _ => some true) (fun s event =>
          s.Spares 2 event) s
          (rotating 3
            ⟨[⟨2, 26, none, none⟩], 7, 1⟩ ++
              rotating 4 ⟨[⟨2, 25, some 45, none⟩], 7, 1⟩)).any fun t =>
            decide (t.calls 3 = some (.rotation ⟨[⟨2, 26, none, none⟩], 7, 1⟩ .mismatch) ∧
              t.calls 4 = some (.rotation ⟨[⟨2, 25, some 45, none⟩], 7, 1⟩ (.wrapped [(2, 25)])))) =
                true := by decide +kernel
  obtain ⟨s, _, hend⟩ := (Option.any_eq_true _ _).mp hrun
  obtain ⟨hheld, hrest⟩ := Bool.and_eq_true_iff.mp hend
  obtain ⟨t, ht, hcalls⟩ := (Option.any_eq_true _ _).mp hrest
  obtain ⟨h3, h4⟩ := of_decide_eq_true hcalls
  exact ⟨s, t, of_decide_eq_true hheld, h3, h4,
    pinned_kept (of_decide_eq_true hheld) (Runs.reachableVia_of_replayVia ht)⟩

/-- What became of device 2 and of the calls after it was held with key 25. -/
def becomes (before after : List IdentityEvent) (e : DeviceIdentity)
    (calls : List (CallId × IdentityCall)) : Prop :=
  (Runs.replay (step (fun _ => false) fun _ _ _ => some true) start before).any (fun s =>
    decide (∃ e ∈ s.held 2, e.publicKey = 25 ∧ (e.trust = .scanned ∨ e.trust = .inherited)) &&
      (Runs.replay (step (fun _ => false) fun _ _ _ => some true) s after).any fun t =>
        decide (t.held 2 = some e ∧ ∀ call ∈ calls, t.calls call.1 = some call.2)) = true

/-- A device that was scanned is missing from one roster, and the next has another key for
it, which a rotation wraps for. What was inherited is seeded once more. A reconciliation
that has loaded before the scan saves after it. -/
theorem pins_replaced :
    becomes (running 1 (.pin ⟨2, 25, none⟩))
        (running 2 (.reconcile [] 7) ++ running 3 (.reconcile [⟨2, 26, none, none⟩] 7) ++
          rotating 4 ⟨[⟨2, 26, none, none⟩], 7, 1⟩)
        ⟨2, 26, none, .tofu⟩
        [(2, .task (.reconcile [] 7) (.returned [])),
          (3, .task (.reconcile [⟨2, 26, none, none⟩] 7) (.returned [])),
          (4, .rotation ⟨[⟨2, 26, none, none⟩], 7, 1⟩ (.wrapped [(2, 26)]))] ∧
      becomes (running 1 (.seed [⟨2, 25, none⟩])) (running 2 (.seed [⟨2, 26, none⟩])) ⟨2, 26, none,
        .inherited⟩ [] ∧
      becomes ([.task 2 (.reconcile [⟨2, 26, none, none⟩] 7), .run 2, .run 2] ++
        running 1 (.pin ⟨2, 25, none⟩)) [.run 2]
        ⟨2, 26, none, .tofu⟩ [(2, .task (.reconcile [⟨2, 26, none, none⟩] 7) (.returned []))] := by
  unfold becomes
  decide +kernel

end Identities
end SendSelf
