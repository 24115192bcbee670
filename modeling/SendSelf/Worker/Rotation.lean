import SendSelf.Worker.Schema
import Mathlib.Data.List.Dedup

/-!
# Rotating the GroupKey

`rotateKey` authenticates and checks the request, reads the active devices and
compares them with the wraps, and then runs one batch: an insert for each wrap,
an update of the caller's own device row and, last, the compare-and-swap on the
group. The three kinds of statement are guarded on different things. An insert
needs the previous epoch and an active recipient; the device update needs an
active caller still at the previous epoch, whatever the group's epoch is; the
compare-and-swap needs all of it and a row for every other active device. No
guard that fails raises an error, so a batch can go through in part.
-/
namespace SendSelf

structure KeyWrap where
  deviceId : DeviceId
  wrappedKey : WrappedKey
deriving DecidableEq, Repr

structure RotateKeyRequest where
  epoch : ℕ
  wraps : List KeyWrap
deriving DecidableEq, Repr

structure RotateKeyResponse where
  epoch : ℕ
  devices : ℕ
deriving DecidableEq, Repr

namespace rotateKey

def alreadyRotated : ApiError := ⟨.conflict, "The key was already rotated by another device"⟩

def checkRequest (auth : AuthContext) (body : RotateKeyRequest) : Except ApiError Unit :=
  if ¬ auth.rotationPending then
    .error ⟨.conflict, "No key rotation is due for this space"⟩
  else if auth.keyEpoch ≠ auth.groupKeyEpoch then
    .error ⟨.conflict, "This device has not adopted the current key yet"⟩
  else if body.epoch < 1 then
    .error ⟨.bad_request, "Missing or invalid integer field: epoch"⟩
  else if body.epoch ≠ auth.groupKeyEpoch + 1 then .error alreadyRotated
  else .ok ()

/-- The wraps must name every other active device, and nobody else. -/
def checkRecipients (auth : AuthContext) (body : RotateKeyRequest) (active : List Device) :
    Except ApiError Unit :=
  let recipients := (active.map Device.id).filter (· ≠ auth.deviceId)
  let wrapped := (body.wraps.map KeyWrap.deviceId).dedup
  if wrapped.length ≠ body.wraps.length then
    .error ⟨.bad_request, "Duplicate device in wraps"⟩
  else if wrapped.length ≠ recipients.length ∨ ∃ id ∈ recipients, id ∉ wrapped then
    .error ⟨.conflict, "Device list changed while rotating; try again"⟩
  else .ok ()

def keyRow (epoch : ℕ) (w : KeyWrap) : KeyRow := ⟨epoch, w.deviceId, w.wrappedKey⟩

def insertWrap (epoch previousEpoch : ℕ) (w : KeyWrap) : Statement SpaceDb SqlError := fun db =>
  if db.keyEpoch = previousEpoch ∧ db.isActive w.deviceId then
    match db.keyDistribution.insert (keyRow epoch w) with
    | none => .error .uniqueConstraint
    | some t => .ok ({ db with keyDistribution := t }, 1)
  else .ok (db, 0)

/-- The caller's own row: active and still at the previous epoch. -/
def ownRow (deviceId : DeviceId) (previousEpoch : ℕ) (d : Device) : Bool :=
  decide (d.id = deviceId) && d.active && decide (d.keyEpoch = previousEpoch)

/-- The database after the caller's row was moved to the new epoch. -/
def ownAdopted (deviceId : DeviceId) (epoch previousEpoch : ℕ) (db : SpaceDb) : SpaceDb :=
  let devices := db.devices.update (ownRow deviceId previousEpoch)
    (fun d => { d with keyEpoch := epoch }) (fun _ => rfl)
  { db with devices }

def adoptOwn (deviceId : DeviceId) (epoch previousEpoch : ℕ) :
    Statement SpaceDb SqlError := fun db =>
  .ok (ownAdopted deviceId epoch previousEpoch db,
    (db.devices.select (ownRow deviceId previousEpoch)).length)

/-- A row of the new epoch waits for every active device but the caller. -/
def everyoneCovered (deviceId : DeviceId) (epoch : ℕ) (db : SpaceDb) : Bool :=
  db.devices.every fun d => !d.active || decide (d.id = deviceId) ||
    db.keyDistribution.exist fun r => decide (r.epoch = epoch) && decide (r.deviceId = d.id)

def swapGuard (deviceId : DeviceId) (epoch previousEpoch : ℕ) (db : SpaceDb) : Bool :=
  decide (db.keyEpoch = previousEpoch) && db.rotationPending &&
    db.devices.exist (ownRow deviceId epoch) && everyoneCovered deviceId epoch db

def compareAndSwap (deviceId : DeviceId) (epoch previousEpoch : ℕ) : Statement SpaceDb SqlError :=
  fun db =>
    if swapGuard deviceId epoch previousEpoch db then
      .ok ({ db with keyEpoch := epoch, rotationPending := false }, 1)
    else .ok (db, 0)

def statements (auth : AuthContext) (body : RotateKeyRequest) : List (Statement SpaceDb SqlError) :=
  body.wraps.map (insertWrap body.epoch auth.groupKeyEpoch) ++
    [adoptOwn auth.deviceId body.epoch auth.groupKeyEpoch,
     compareAndSwap auth.deviceId body.epoch auth.groupKeyEpoch]

/-- The batch and the answer it leads to. -/
def finish (auth : AuthContext) (body : RotateKeyRequest) (db : SpaceDb) :
    SpaceDb × Except ApiError RotateKeyResponse :=
  match commit (statements auth body) db with
  | (db', .error _) => (db', .error .internalError)
  | (db', .ok results) =>
      if results.getLast? ≠ some 1 then (db', .error alreadyRotated)
      else (db', .ok ⟨body.epoch, body.wraps.length⟩)

theorem checkRequest_ok {auth : AuthContext} {body : RotateKeyRequest}
    (h : checkRequest auth body = .ok ()) :
    auth.rotationPending = true ∧ auth.keyEpoch = auth.groupKeyEpoch ∧
      body.epoch = auth.groupKeyEpoch + 1 := by
  unfold checkRequest at h
  split_ifs at h with h₁ h₂ h₃ h₄
  simp only [not_not, ne_eq] at h₁ h₂ h₄
  exact ⟨by simpa using h₁, h₂, h₄⟩

theorem checkRecipients_ok {auth : AuthContext} {body : RotateKeyRequest} {active : List Device}
    (h : checkRecipients auth body active = .ok ()) :
    (body.wraps.map KeyWrap.deviceId).Nodup ∧
      ∀ d ∈ active, d.id ≠ auth.deviceId → ∃ w ∈ body.wraps, w.deviceId = d.id := by
  unfold checkRecipients at h
  simp only at h
  split_ifs at h with h₁ h₂
  push Not at h₁ h₂
  have hlen : (body.wraps.map KeyWrap.deviceId).dedup.length =
      (body.wraps.map KeyWrap.deviceId).length := by rw [h₁, List.length_map]
  have hdedup := (List.dedup_sublist (body.wraps.map KeyWrap.deviceId)).eq_of_length hlen
  refine ⟨List.dedup_eq_self.mp hdedup, ?_⟩
  intro d hd hne
  have hrec : d.id ∈ (active.map Device.id).filter (· ≠ auth.deviceId) :=
    List.mem_filter.mpr ⟨List.mem_map_of_mem hd, by simpa using hne⟩
  have hmem := h₂.2 d.id hrec
  rw [hdedup] at hmem
  obtain ⟨w, hw, he⟩ := List.mem_map.mp hmem
  exact ⟨w, hw, he⟩

/-- The wraps whose insert is not skipped: the epoch has not moved and the
recipient is active. -/
def landing (previousEpoch : ℕ) (db : SpaceDb) (wraps : List KeyWrap) : List KeyWrap :=
  wraps.filter fun w => decide (db.keyEpoch = previousEpoch) && db.isActive w.deviceId

theorem mem_landing {p : ℕ} {db : SpaceDb} {ws : List KeyWrap} {w : KeyWrap} :
    w ∈ landing p db ws ↔ w ∈ ws ∧ db.keyEpoch = p ∧ db.isActive w.deviceId = true := by
  simp only [landing, List.mem_filter, Bool.and_eq_true, decide_eq_true_eq]

/-- A row with the key of a landing wrap makes the insert raise. -/
def Clash (epoch previousEpoch : ℕ) (db : SpaceDb) (wraps : List KeyWrap) : Prop :=
  ∃ w ∈ landing previousEpoch db wraps, ∃ r ∈ db.keyDistribution,
    r.epoch = epoch ∧ r.deviceId = w.deviceId

instance {epoch p : ℕ} {db : SpaceDb} {ws : List KeyWrap} : Decidable (Clash epoch p db ws) :=
  inferInstanceAs (Decidable (∃ w ∈ landing p db ws, ∃ r ∈ db.keyDistribution,
    r.epoch = epoch ∧ r.deviceId = w.deviceId))

/-- What the inserts do to the database: only `key_distribution` grows, by the
rows of the landing wraps. -/
structure Inserted (epoch previousEpoch : ℕ) (wraps : List KeyWrap) (db db' : SpaceDb) : Prop where
  frame : db' = { db with keyDistribution := db'.keyDistribution }
  rows : db'.keyDistribution.rows =
    db.keyDistribution.rows ++ (landing previousEpoch db wraps).map (keyRow epoch)
  clear : ¬ Clash epoch previousEpoch db wraps

theorem Inserted.mem {epoch p : ℕ} {ws : List KeyWrap} {db db' : SpaceDb}
    (h : Inserted epoch p ws db db') (r : KeyRow) : r ∈ db'.keyDistribution ↔
      r ∈ db.keyDistribution ∨ ∃ w ∈ landing p db ws, r = keyRow epoch w := by
  simp only [Table.mem_def, h.rows, List.mem_append, List.mem_map, eq_comm]

theorem Inserted.devices {epoch p : ℕ} {ws : List KeyWrap} {db db' : SpaceDb}
    (h : Inserted epoch p ws db db') : db'.devices = db.devices := by rw [h.frame]

/-- When no wrap lands, nothing is inserted. -/
theorem Inserted.eq_self {epoch p : ℕ} {ws : List KeyWrap} {db db' : SpaceDb}
    (h : Inserted epoch p ws db db') (hl : landing p db ws = []) : db' = db := by
  have ht : db'.keyDistribution = db.keyDistribution := by
    ext1
    simp [h.rows, hl]
  rw [h.frame, ht]

theorem landing_congr {p : ℕ} {db db' : SpaceDb} {t : Table KeyRow.primaryKey}
    (h : db' = { db with keyDistribution := t }) (ws : List KeyWrap) :
    landing p db' ws = landing p db ws := by subst h; rfl

theorem landing_cons (p : ℕ) (db : SpaceDb) (w : KeyWrap) (ws : List KeyWrap) :
    landing p db (w :: ws) = landing p db [w] ++ landing p db ws := by
  simp only [landing, ← List.filter_append, List.singleton_append]

theorem insertWrap_ok {epoch p : ℕ} {w : KeyWrap} {db db' : SpaceDb} {n : ℕ}
    (h : insertWrap epoch p w db = .ok (db', n)) : Inserted epoch p [w] db db' := by
  unfold insertWrap at h
  split_ifs at h with hg
  · cases hi : db.keyDistribution.insert (keyRow epoch w) with
    | none => simp [hi] at h
    | some t =>
      simp only [hi, Except.ok.injEq, Prod.mk.injEq] at h
      obtain ⟨rfl, -⟩ := h
      have hl : landing p db [w] = [w] := by simp [landing, hg.1, hg.2]
      refine ⟨rfl, by simpa [hl] using Table.insert_rows hi, ?_⟩
      intro ⟨v, hv, r, hr, he, hd⟩
      rw [hl, List.mem_singleton] at hv
      subst hv
      exact (Table.insert_eq_some hi).2 r hr (by simp [KeyRow.primaryKey, keyRow, he, hd])
  · obtain ⟨rfl, -⟩ := (Prod.mk.injEq ..).mp (Except.ok.inj h)
    have hl : landing p db [w] = [] := by
      simp only [landing, List.filter_cons, List.filter_nil]
      split_ifs with hc
      · simp only [Bool.and_eq_true, decide_eq_true_eq] at hc
        exact absurd hc hg
      · rfl
    exact ⟨rfl, by simp [hl], fun ⟨v, hv, _⟩ => by simp [hl] at hv⟩

theorem insertWrap_error {epoch p : ℕ} {w : KeyWrap} {db : SpaceDb} {e : SqlError}
    (h : insertWrap epoch p w db = .error e) : Clash epoch p db [w] := by
  unfold insertWrap at h
  split_ifs at h with hg
  cases hi : db.keyDistribution.insert (keyRow epoch w) with
  | some t => simp [hi] at h
  | none =>
    obtain ⟨r, hr, he⟩ := Table.insert_eq_none.mp hi
    simp only [KeyRow.primaryKey, keyRow, Prod.mk.injEq] at he
    exact ⟨w, mem_landing.mpr ⟨List.mem_singleton_self w, hg.1, hg.2⟩, r, hr, he.1, he.2⟩

/-- The inserts of a batch that is not rolled back. -/
theorem insertWraps_ok {epoch p : ℕ} {ws : List KeyWrap} {db db' : SpaceDb} {ns : List ℕ}
    (h : batch (ws.map (insertWrap epoch p)) db = .ok (db', ns)) : Inserted epoch p ws db db' := by
  induction ws generalizing db ns with
  | nil =>
    obtain ⟨rfl, -⟩ := (Prod.mk.injEq ..).mp (Except.ok.inj h)
    exact ⟨rfl, by simp [landing], fun ⟨w, hw, _⟩ => by simp [landing] at hw⟩
  | cons w ws ih =>
    obtain ⟨d₁, n, ms, h₁, h₂, -⟩ := batch_cons_ok.mp h
    have hw := insertWrap_ok h₁
    have hws := ih h₂
    have hl : ∀ vs, landing p d₁ vs = landing p db vs := landing_congr hw.frame
    refine ⟨?_, ?_, ?_⟩
    · rw [hws.frame, hw.frame]
    · rw [hws.rows, hw.rows, hl, landing_cons p db w ws, List.map_append, List.append_assoc]
    · intro ⟨v, hv, r, hr, he, hd⟩
      rw [landing_cons, List.mem_append] at hv
      rcases hv with hv | hv
      · exact hw.clear ⟨v, hv, r, hr, he, hd⟩
      · exact hws.clear ⟨v, by rwa [hl], r, (hw.mem r).mpr (Or.inl hr), he, hd⟩

/-- With one wrap for each device, only a row left from before makes the batch raise. -/
theorem insertWraps_error {epoch p : ℕ} {ws : List KeyWrap} {db : SpaceDb} {e : SqlError}
    (hnd : (ws.map KeyWrap.deviceId).Nodup)
    (h : batch (ws.map (insertWrap epoch p)) db = .error e) : Clash epoch p db ws := by
  induction ws generalizing db with
  | nil => cases h
  | cons w ws ih =>
    rw [List.map_cons, List.nodup_cons] at hnd
    simp only [List.map_cons, batch] at h
    cases h₁ : insertWrap epoch p w db with
    | error e' =>
      obtain ⟨v, hv, hr⟩ := insertWrap_error h₁
      rw [mem_landing] at hv
      exact ⟨v, mem_landing.mpr ⟨List.mem_cons.mpr (Or.inl (List.mem_singleton.mp hv.1)), hv.2⟩, hr⟩
    | ok q =>
      obtain ⟨d₁, n⟩ := q
      have hw := insertWrap_ok h₁
      have h₂ : batch (ws.map (insertWrap epoch p)) d₁ = .error e := by
        simp only [h₁, Except.bind] at h
        cases hb : batch (ws.map (insertWrap epoch p)) d₁ with
        | error e' => cases e; cases e'; rfl
        | ok q => simp [hb, Except.map] at h
      obtain ⟨v, hv, r, hr, he, hd⟩ := ih hnd.2 h₂
      rw [landing_congr hw.frame] at hv
      have hv' := mem_landing.mp hv
      rcases (hw.mem r).mp hr with hr | ⟨u, hu, rfl⟩
      · exact ⟨v, mem_landing.mpr ⟨List.mem_cons_of_mem _ hv'.1, hv'.2⟩, r, hr, he, hd⟩
      · have huw := List.mem_singleton.mp (mem_landing.mp hu).1
        subst huw
        exact absurd (List.mem_map.mpr ⟨v, hv'.1, hd.symm⟩) hnd.1

theorem mem_ownAdopted {i : DeviceId} {epoch p : ℕ} {db : SpaceDb} {d : Device} :
    d ∈ (ownAdopted i epoch p db).devices ↔
      ∃ c ∈ db.devices, d = if ownRow i p c then { c with keyEpoch := epoch } else c := by
  rw [ownAdopted, Table.mem_update]

theorem isActive_ownAdopted {i j : DeviceId} {epoch p : ℕ} {db : SpaceDb} :
    (ownAdopted i epoch p db).isActive j = db.isActive j := by
  refine Table.exist_update ?_ fun _ => rfl
  exact fun _ => rfl

/-- A batch is rolled back on a clash; otherwise the landing wraps are in and the
caller's row is moved, and the answer is a success exactly when the
compare-and-swap found its guard true. -/
theorem finish_spec {auth : AuthContext} {body : RotateKeyRequest} {db : SpaceDb}
    (hnd : (body.wraps.map KeyWrap.deviceId).Nodup) :
    (Clash body.epoch auth.groupKeyEpoch db body.wraps ∧
      finish auth body db = (db, .error .internalError)) ∨
    ∃ db₁, Inserted body.epoch auth.groupKeyEpoch body.wraps db db₁ ∧
      let db₂ := ownAdopted auth.deviceId body.epoch auth.groupKeyEpoch db₁
      (swapGuard auth.deviceId body.epoch auth.groupKeyEpoch db₂ = true ∧
        finish auth body db = ({ db₂ with keyEpoch := body.epoch, rotationPending := false },
          .ok ⟨body.epoch, body.wraps.length⟩)) ∨
      (swapGuard auth.deviceId body.epoch auth.groupKeyEpoch db₂ = false ∧
        finish auth body db = (db₂, .error alreadyRotated)) := by
  cases hb : batch (body.wraps.map (insertWrap body.epoch auth.groupKeyEpoch)) db with
  | error e =>
    left
    refine ⟨insertWraps_error hnd hb, ?_⟩
    have hall : batch (statements auth body) db = .error e := by
      rw [statements, batch_append, hb]
      rfl
    simp only [finish, commit_error hall]
  | ok q =>
    obtain ⟨db₁, ns⟩ := q
    right
    refine ⟨db₁, insertWraps_ok hb, ?_⟩
    have hall : batch (statements auth body) db =
        (batch [adoptOwn auth.deviceId body.epoch auth.groupKeyEpoch,
          compareAndSwap auth.deviceId body.epoch auth.groupKeyEpoch] db₁).map
          fun q => (q.1, ns ++ q.2) := by
      rw [statements, batch_append, hb]
      rfl
    cases hs : swapGuard auth.deviceId body.epoch auth.groupKeyEpoch
        (ownAdopted auth.deviceId body.epoch auth.groupKeyEpoch db₁) with
    | true =>
      left
      simp only [batch, adoptOwn, compareAndSwap, hs, if_true, Except.bind, Except.map] at hall
      exact ⟨hs, by simp [finish, commit_ok hall]⟩
    | false =>
      right
      simp only [batch, adoptOwn, compareAndSwap, hs, Bool.false_eq_true, if_false, Except.bind,
        Except.map] at hall
      exact ⟨hs, by simp [finish, commit_ok hall]⟩

/-- What the compare-and-swap asks for, said of the database before the batch. -/
structure Prepared (auth : AuthContext) (body : RotateKeyRequest) (db : SpaceDb) : Prop where
  epoch : db.keyEpoch = auth.groupKeyEpoch
  pending : db.rotationPending = true
  caller : ∃ d ∈ db.devices, d.id = auth.deviceId ∧ d.active = true ∧
    (d.keyEpoch = auth.groupKeyEpoch ∨ d.keyEpoch = body.epoch)
  covered : ∀ d ∈ db.devices, d.active = true → d.id ≠ auth.deviceId →
    (∃ w ∈ body.wraps, w.deviceId = d.id) ∨
      ∃ r ∈ db.keyDistribution, r.epoch = body.epoch ∧ r.deviceId = d.id

instance {auth : AuthContext} {body : RotateKeyRequest} {db : SpaceDb} :
    Decidable (Prepared auth body db) :=
  decidable_of_iff (db.keyEpoch = auth.groupKeyEpoch ∧ db.rotationPending = true ∧
      (∃ d ∈ db.devices, d.id = auth.deviceId ∧ d.active = true ∧
        (d.keyEpoch = auth.groupKeyEpoch ∨ d.keyEpoch = body.epoch)) ∧
      ∀ d ∈ db.devices, d.active = true → d.id ≠ auth.deviceId →
        (∃ w ∈ body.wraps, w.deviceId = d.id) ∨
          ∃ r ∈ db.keyDistribution, r.epoch = body.epoch ∧ r.deviceId = d.id)
    ⟨fun h => ⟨h.1, h.2.1, h.2.2.1, h.2.2.2⟩, fun h => ⟨h.epoch, h.pending, h.caller, h.covered⟩⟩

theorem everyoneCovered_iff {i : DeviceId} {epoch : ℕ} {db : SpaceDb} :
    everyoneCovered i epoch db = true ↔ ∀ d ∈ db.devices, d.active = true → d.id ≠ i →
      ∃ r ∈ db.keyDistribution, r.epoch = epoch ∧ r.deviceId = d.id := by
  simp only [everyoneCovered, Table.every_iff, Bool.or_eq_true, Bool.not_eq_true',
    decide_eq_true_eq,
    Table.exist_iff, Bool.and_eq_true]
  refine forall₂_congr fun d _ => ?_
  cases d.active with
  | false => simp
  | true => simp only [Bool.true_eq_false, false_or, forall_const, ne_eq]; tauto

theorem exist_ownRow_ownAdopted {i : DeviceId} {epoch p : ℕ} {db : SpaceDb} :
    (ownAdopted i epoch p db).devices.exist (ownRow i epoch) = true ↔
      ∃ d ∈ db.devices, d.id = i ∧ d.active = true ∧ (d.keyEpoch = p ∨ d.keyEpoch = epoch) := by
  simp only [Table.exist_iff, mem_ownAdopted, ownRow, Bool.and_eq_true, decide_eq_true_eq]
  constructor
  · rintro ⟨d, ⟨c, hc, he⟩, ⟨hi, ha⟩, hk⟩
    split_ifs at he with hg
    · exact ⟨c, hc, hg.1.1, hg.1.2, Or.inl hg.2⟩
    · exact ⟨c, hc, he ▸ hi, he ▸ ha, Or.inr (he ▸ hk)⟩
  · rintro ⟨c, hc, hi, ha, hk⟩
    by_cases hp : c.keyEpoch = p
    · have ha' : ({ c with keyEpoch := epoch } : Device).active = true := ha
      exact ⟨{ c with keyEpoch := epoch }, ⟨c, hc, by simp [hi, ha, hp]⟩, ⟨hi, ha'⟩, rfl⟩
    · rcases hk with hk | hk
      · exact absurd hk hp
      · exact ⟨c, ⟨c, hc, by simp [hp]⟩, ⟨hi, ha⟩, hk⟩

theorem swapGuard_iff {auth : AuthContext} {body : RotateKeyRequest} {db db₁ : SpaceDb}
    (h : Inserted body.epoch auth.groupKeyEpoch body.wraps db db₁) :
    swapGuard auth.deviceId body.epoch auth.groupKeyEpoch
      (ownAdopted auth.deviceId body.epoch auth.groupKeyEpoch db₁) = true ↔
      Prepared auth body db := by
  have hdev := h.devices
  have hep : db₁.keyEpoch = db.keyEpoch := by rw [h.frame]
  have hpe : db₁.rotationPending = db.rotationPending := by rw [h.frame]
  have hown := @exist_ownRow_ownAdopted auth.deviceId body.epoch auth.groupKeyEpoch db₁
  have hcov := @everyoneCovered_iff auth.deviceId body.epoch
    (ownAdopted auth.deviceId body.epoch auth.groupKeyEpoch db₁)
  simp only [swapGuard, Bool.and_eq_true, decide_eq_true_eq, hown, hcov]
  rw [hdev]
  constructor
  · intro ⟨⟨⟨he, hp⟩, hc⟩, hall⟩
    refine ⟨hep ▸ he, hpe ▸ hp, hc, ?_⟩
    intro d hd ha hne
    have hd₁ : d ∈ (ownAdopted auth.deviceId body.epoch auth.groupKeyEpoch db₁).devices := by
      refine mem_ownAdopted.mpr ⟨d, hdev ▸ hd, ?_⟩
      simp [ownRow, hne]
    obtain ⟨r, hr, hre, hrd⟩ := hall d hd₁ ha hne
    rcases (h.mem r).mp hr with hr | ⟨w, hw, rfl⟩
    · exact Or.inr ⟨r, hr, hre, hrd⟩
    · exact Or.inl ⟨w, (mem_landing.mp hw).1, hrd⟩
  · intro ⟨he, hp, hc, hall⟩
    refine ⟨⟨⟨hep.trans he, hpe.trans hp⟩, hc⟩, ?_⟩
    intro d hd ha hne
    obtain ⟨c, hcm, hcd⟩ := mem_ownAdopted.mp hd
    rw [hdev] at hcm
    have hdc : d = c := by
      split_ifs at hcd with hg
      · simp only [ownRow, Bool.and_eq_true, decide_eq_true_eq] at hg
        have hid : d.id = auth.deviceId := by rw [hcd]; exact hg.1.1
        exact absurd hid hne
      · exact hcd
    subst hdc
    rcases hall d hcm ha hne with ⟨w, hw, hwd⟩ | ⟨r, hr, hre, hrd⟩
    · have hact : db.isActive w.deviceId = true := by
        rw [SpaceDb.isActive_iff]
        exact ⟨d, hcm, hwd.symm, ha⟩
      exact ⟨keyRow body.epoch w, (h.mem _).mpr (Or.inr ⟨w, mem_landing.mpr ⟨hw, he, hact⟩, rfl⟩),
        rfl, hwd⟩
    · exact ⟨r, (h.mem r).mpr (Or.inl hr), hre, hrd⟩

end rotateKey
end SendSelf
