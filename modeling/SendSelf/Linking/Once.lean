import SendSelf.Linking.Device

/-!
# One pairing, one space

Where no two polls of a pairing get past its answer and nothing fails once a space is registered,
a pairing leads to one space, which has all that is needed to open it. Two polls that overlap
register two spaces, and a poll that fails leaves its space behind.
-/
namespace SendSelf.Linking
open Runs

def Joining.pairingId (j : Joining) : PairingId := j.pending.payload.pairingId

/-- The pairing of a poll whose answer had the package. -/
def Pc.recognised : Pc → Option PairingId
  | .unwrapping pending _ | .importing pending _ | .registering pending _ =>
    some pending.payload.pairingId
  | pc => pc.joining.map Joining.pairingId

/-- A poll that has registered its space and has yet to store its secrets. -/
def Pc.unpersisted : Pc → Option Joining
  | .remembering j | .persisting j _ _ => some j
  | _ => none

/-- The session, the keyring and the key pairs are stored in the space that was registered. -/
def Persisted (c : Core) (j : Joining) : Prop :=
  ∀ entry ∈ j.entries, (c.data j.space).meta.get entry.key = some entry

instance (c : Core) (j : Joining) : Decidable (Persisted c j) :=
  inferInstanceAs
    (Decidable (∀ entry ∈ j.entries, (c.data j.space).meta.get entry.key = some entry))

/-- A pairing has led to one space at most; it has its secrets, unless a poll is about to store
them; and no poll that ended in an error has left one. -/
structure Linked (p : Page) : Prop where
  once : ∀ i ∈ p.core.begun, ∀ j ∈ p.core.begun, i.pairingId = j.pairingId →
    i.space ∈ p.core.registry.map SpaceRecord.id → j.space ∈ p.core.registry.map SpaceRecord.id →
      i.space = j.space
  persisted : ∀ j ∈ p.core.begun, j.space ∈ p.core.registry.map SpaceRecord.id →
    (∀ pc ∈ p.tasks, pc.unpersisted ≠ some j) → Persisted p.core j
  failed : ∀ j ∈ p.core.failed, j.space ∉ p.core.registry.map SpaceRecord.id

/-- The space that a poll goes on with is still open, as far as the step takes it from there. -/
def Pc.finds (c : Core) : Pc → Prop
  | .remembering j => c.active = some j.space
  | .persisting _ _ _ | .publishing _ _ | .seeding _ _ | .seeded _ _ _ | .pinning _ _ =>
      c.active.isSome = true
  | _ => True

instance (c : Core) : (pc : Pc) → Decidable (pc.finds c)
  | .remembering j => inferInstanceAs (Decidable (c.active = some j.space))
  | .persisting _ _ _ | .publishing _ _ | .seeding _ _ | .seeded _ _ _ | .pinning _ _ =>
      inferInstanceAs (Decidable (c.active.isSome = true))
  | .storing _ | .resuming | .cancelling | .polling _ | .unwrapping _ _ | .importing _ _ |
      .registering _ _
  | .pinned _ _ _ | .noting _ | .clearing _ | .starting _ => .isTrue trivial

/-- No poll of the pairing is past its answer, and none has registered a space. -/
def Page.Free (p : Page) (pairingId : PairingId) : Prop :=
  (∀ pc ∈ p.tasks, pc.recognised ≠ some pairingId) ∧ ∀ j ∈ p.core.begun, j.pairingId ≠ pairingId

instance (p : Page) (pairingId : PairingId) : Decidable (p.Free pairingId) :=
  inferInstanceAs (Decidable
  ((∀ pc ∈ p.tasks, pc.recognised ≠ some pairingId) ∧ ∀ j ∈ p.core.begun, j.pairingId ≠ pairingId))

def PollAnswer.hasPackage : PollAnswer → Bool
  | .package _ => true
  | .notReady | .networkError | .error => false

/-- The poll that is waiting for its answer. -/
def Pc.polled : Pc → Option PendingPairing
  | .polling pending => some pending
  | _ => none

/-- The package arrives when the pairing is free; a poll that has registered a space finds it open,
and no step of it fails; and the page does not end before the secrets are stored. -/
def Careful (p : Page) : Event → Prop
  | .restart => ∀ pc ∈ p.tasks, pc.unpersisted = none
  | .task k input => ∀ pc ∈ p.tasks[k]?,
      (∀ pending ∈ pc.polled, input.answer.hasPackage = true → p.Free pending.payload.pairingId) ∧
        (pc.joining.isSome = true → input.fails = false ∧ pc.finds p.core)
  | _ => True

instance (p : Page) : (e : Event) → Decidable (Careful p e)
  | .restart => inferInstanceAs (Decidable (∀ pc ∈ p.tasks, pc.unpersisted = none))
  | .task k input => inferInstanceAs (Decidable (∀ pc ∈ p.tasks[k]?,
      (∀ pending ∈ pc.polled, input.answer.hasPackage = true → p.Free pending.payload.pairingId) ∧
        (pc.joining.isSome = true → input.fails = false ∧ pc.finds p.core)))
  | .startLinking _ | .resumeLinking | .pauseLinking | .cancelLinking | .tick | .openSpace _ |
      .closeSpace => .isTrue trivial

/-- A poll that is storing its secrets has stored all but those that are left. -/
def Writes (c : Core) : Pc → Prop
  | .persisting j target left => target = j.space ∧ (∀ entry ∈ left, entry ∈ j.entries) ∧
      ∀ entry ∈ j.entries, entry ∈ left ∨ (c.data j.space).meta.get entry.key = some entry
  | _ => True

structure Inv (p : Page) : Prop where
  apart : Tasks.Apart (fun s t => ∀ q, s.recognised = some q → t.recognised ≠ some q) p.tasks
  free : ∀ pc ∈ p.tasks, pc.joining = none → ∀ q, pc.recognised = some q → ∀ j ∈ p.core.begun,
    j.pairingId ≠ q
  begun : ∀ pc ∈ p.tasks, ∀ j, pc.joining = some j → j ∈ p.core.begun
  once : ∀ i ∈ p.core.begun, ∀ j ∈ p.core.begun, i.pairingId = j.pairingId → i = j
  spaces : ∀ i ∈ p.core.begun, ∀ j ∈ p.core.begun, i.space = j.space → i = j
  registered : ∀ j ∈ p.core.begun, j.space ∈ p.core.registry.map SpaceRecord.id
  writes : ∀ pc ∈ p.tasks, Writes p.core pc
  persisted : ∀ j ∈ p.core.begun, Persisted p.core j ∨ ∃ pc ∈ p.tasks, pc.unpersisted = some j
  failed : p.core.failed = []

theorem Inv.linked {p : Page} (h : Inv p) : Linked p where
  once i hi j hj hij _ _ := congrArg Joining.space (h.once i hi j hj hij)
  persisted j hj _ hnone := (h.persisted j hj).resolve_right fun hex => by
    obtain ⟨pc, hpc, he⟩ := hex
    exact hnone pc hpc he
  failed j hj := by
    rw [h.failed] at hj
    cases hj

theorem inv_start (registry : List SpaceRecord) (lastSpace : Option SpaceId)
    (pending : Option PendingPairing)
    (data : SpaceId → SpaceData) : Inv (start registry lastSpace pending data) where
  apart := .nil
  free _ hpc := by cases hpc
  begun _ hpc := by cases hpc
  once _ hi := by cases hi
  spaces _ hi := by cases hi
  registered _ hj := by cases hj
  writes _ hpc := by cases hpc
  persisted _ hj := by cases hj
  failed := rfl

variable {p : Page} {c : Core}

/-- Nothing that linking relies on has changed. -/
structure SameHistory (c c' : Core) : Prop where
  begun : c'.begun = c.begun
  registry : c'.registry = c.registry
  failed : c'.failed = c.failed

theorem SameHistory.refl (c : Core) : SameHistory c c := ⟨rfl, rfl, rfl⟩

/-- What a page does besides the tasks. -/
theorem Inv.core (h : Inv p) (hs : SameHistory p.core c) (hd : c.data = p.core.data) :
    Inv { p with core := c } where
  apart := h.apart
  free pc hpc hj q hq := by
    rw [hs.begun]
    exact h.free pc hpc hj q hq
  begun pc hpc j hj := by
    rw [hs.begun]
    exact h.begun pc hpc j hj
  once := by
    rw [hs.begun]
    exact h.once
  spaces := by
    rw [hs.begun]
    exact h.spaces
  registered := by
    rw [hs.begun, hs.registry]
    exact h.registered
  writes pc hpc := by
    have hw := h.writes pc hpc
    cases pc with
    | persisting => simpa only [Writes, hd] using hw
    | _ => trivial
  persisted j hj := by
    rw [hs.begun] at hj
    simpa only [Persisted, hd] using h.persisted j hj
  failed := hs.failed.trans h.failed

/-- An operation starts that is no poll past its answer. -/
theorem Inv.begin (h : Inv p) (hs : SameHistory p.core c) (hd : c.data = p.core.data) {pc : Pc}
    (hr : pc.recognised = none) (hj : pc.joining = none) (hw : Writes c pc) :
    Inv (p.begin c pc) := by
  have hcore := h.core hs hd
  have hmem : ∀ {other}, other ∈ p.tasks ++ [pc] → other ∈ p.tasks ∨ other = pc := fun hother =>
    (List.mem_append.mp hother).imp_right List.mem_singleton.mp
  exact
    { hcore with
      apart := hcore.apart.begin fun u _ =>
        ⟨fun q hq => by simp [hr] at hq, fun q _ hq => by simp [hr] at hq⟩
      free := fun other hother hjoining q hq => by
        rcases hmem hother with hold | rfl
        · exact hcore.free other hold hjoining q hq
        · rw [hr] at hq
          cases hq
      begun := fun other hother j hjoining => by
        rcases hmem hother with hold | rfl
        · exact hcore.begun other hold j hjoining
        · rw [hj] at hjoining
          cases hjoining
      writes := fun other hother => by
        rcases hmem hother with hold | rfl
        · exact hcore.writes other hold
        · exact hw
      persisted := fun j hbegun => (hcore.persisted j hbegun).imp_right fun hex => by
        obtain ⟨other, hother, he⟩ := hex
        exact ⟨other, List.mem_append_left _ hother, he⟩ }

/-- The pairing of a poll that has registered a space. -/
theorem recognised_of_joining {pc : Pc} {j : Joining} (h : pc.joining = some j) :
    pc.recognised = some j.pairingId := by
  cases pc <;> simp_all [Pc.joining, Pc.recognised]

theorem joining_of_unpersisted {pc : Pc} {j : Joining} (h : pc.unpersisted = some j) :
    pc.joining = some j := by
  cases pc <;> simp_all [Pc.joining, Pc.unpersisted]

theorem persisted_congr {c c' : Core} {j : Joining}
    (hmeta : (c'.data j.space).meta = (c.data j.space).meta) :
    Persisted c' j ↔ Persisted c j := by
  simp only [Persisted, hmeta]

/-- A poll goes on, or another operation does. -/
theorem Inv.goOn (h : Inv p) {k : ℕ} {pc : Pc} (hk : p.tasks[k]? = some pc)
    {next : Core × Option Pc} (hs : SameHistory p.core next.1)
    (hmeta : ∀ j ∈ p.core.begun, pc.joining ≠ some j →
      (next.1.data j.space).meta = (p.core.data j.space).meta)
    (hself : ∀ j, pc.joining = some j → Persisted p.core j → Persisted next.1 j)
    (hnext : ∀ pc' ∈ next.2, pc'.joining = pc.joining ∧ Writes next.1 pc' ∧
      ∀ q, pc'.recognised = some q → pc.recognised = some q ∨ p.Free q)
    (hpersist : ∀ j, pc.unpersisted = some j → Persisted next.1 j ∨ ∃ pc' ∈ next.2,
      pc'.unpersisted = some j) :
    Inv (p.goOn k next) := by
  have hpc := List.mem_of_getElem? hk
  have hother : ∀ {i : ℕ} {u : Pc} {j : Joining}, i ≠ k → p.tasks[i]? = some u →
      u.joining = some j →
      pc.joining ≠ some j := fun hne hu hj he =>
    h.apart _ _ hne _ hu _ hk _ (recognised_of_joining hj) (recognised_of_joining he)
  have hapart : ∀ pc' ∈ next.2, ∀ i : ℕ, i ≠ k → ∀ u ∈ p.tasks[i]?, ∀ q, pc'.recognised = some q →
      u.recognised ≠ some q := by
    intro pc' hpc' i hne u hu q hq
    rcases (hnext pc' hpc').2.2 q hq with hold | hfree
    · exact h.apart k i hne.symm pc hk u hu q hold
    · exact hfree.1 u (List.mem_of_getElem? hu)
  refine
    { apart := h.apart.goOn fun pc' hpc' i hne u hu =>
        ⟨hapart pc' hpc' i hne u hu, fun q hq hq' => hapart pc' hpc' i hne u hu q hq' hq⟩
      free := fun other hmem hjoining q hq => ?_
      begun := fun other hmem j hjoining => ?_
      once := hs.begun ▸ h.once
      spaces := hs.begun ▸ h.spaces
      registered := by rw [Page.goOn, hs.begun, hs.registry]; exact h.registered
      writes := fun other hmem => ?_
      persisted := fun j hj => ?_
      failed := hs.failed.trans h.failed }
  · rw [Page.goOn, hs.begun]
    rcases Tasks.mem_of_mem_goOn hmem with hnew | hold
    · obtain ⟨hsame, _, hfrom⟩ := hnext other hnew
      rcases hfrom q hq with hold | hfree
      · exact h.free pc hpc (hsame ▸ hjoining) q hold
      · exact hfree.2
    · exact h.free other hold hjoining q hq
  · rw [Page.goOn, hs.begun]
    rcases Tasks.mem_of_mem_goOn hmem with hnew | hold
    · exact h.begun pc hpc j ((hnext other hnew).1 ▸ hjoining)
    · exact h.begun other hold j hjoining
  · rcases Tasks.mem_goOn hmem with hnew | ⟨i, hne, hold⟩
    · exact (hnext other hnew).2.1
    · have hw := h.writes other (List.mem_of_getElem? hold)
      cases other with
      | persisting j target left =>
        have hj := h.begun _ (List.mem_of_getElem? hold) j rfl
        simpa only [Writes, Page.goOn, hmeta j hj (hother hne hold rfl)] using hw
      | _ => trivial
  · have hj' : j ∈ p.core.begun := hs.begun ▸ hj
    rcases h.persisted j hj' with hp | ⟨other, hmem, hun⟩
    · left
      by_cases hjoining : pc.joining = some j
      · exact hself j hjoining hp
      · exact (persisted_congr (hmeta j hj' hjoining)).mpr hp
    · obtain ⟨i, hi⟩ := List.mem_iff_getElem?.mp hmem
      by_cases hik : i = k
      · subst hik
        obtain rfl := Option.some.inj (hk.symm.trans hi)
        refine (hpersist j hun).imp_right fun hex => ?_
        obtain ⟨pc', hpc', he⟩ := hex
        exact ⟨pc', by
          rw [Page.goOn, show next.2 = some pc' from hpc']; exact Tasks.mem_goOn_self hi, he⟩
      · exact .inr ⟨other, Tasks.mem_goOn_of_ne hi hik, hun⟩

theorem data_setData (c : Core) (x y : SpaceId) (d : SpaceData) :
    (c.setData x d).data y = if y = x then d else c.data y := Function.update_apply ..

/-- The poll goes on with its space, and the secrets of every space are as they were. -/
structure Calm (c : Core) (j : Joining) (next : Core × Option Pc) : Prop where
  history : SameHistory c next.1
  «meta» : ∀ x, (next.1.data x).meta = (c.data x).meta
  next : ∀ pc ∈ next.2, pc.joining = some j ∧ pc.unpersisted = none

/-- Writes that leave the secrets alone come before. -/
theorem Calm.after {c c' : Core} {j : Joining} {next : Core × Option Pc} (h : Calm c' j next)
    (hs : SameHistory c c') (hm : ∀ x, (c'.data x).meta = (c.data x).meta) : Calm c j next where
  history :=
    ⟨h.history.begun.trans hs.begun, h.history.registry.trans hs.registry,
      h.history.failed.trans hs.failed⟩
  «meta» x := (h.meta x).trans (hm x)
  next := h.next

theorem meta_setData {c : Core} {x : SpaceId} {d : SpaceData} (hd : d.meta = (c.data x).meta)
    (y : SpaceId) :
    ((c.setData x d).data y).meta = (c.data y).meta := by
  rw [data_setData]
  split_ifs with hy
  · rw [hd, hy]
  · rfl

theorem calm_onActive {j : Joining} {call : SpaceId → Pc} (ha : c.active.isSome = true)
    (hcall : ∀ target, (call target).joining = some j ∧ (call target).unpersisted = none) :
    Calm c j (c.onActive j call) := by
  obtain ⟨target, ha⟩ := Option.isSome_iff_exists.mp ha
  unfold Core.onActive
  rw [ha]
  refine ⟨.refl c, fun _ => rfl, fun pc hpc => ?_⟩
  obtain rfl := Option.some.inj hpc
  exact hcall target

theorem calm_published {j : Joining} (ha : c.active.isSome = true) : Calm c j (c.published j) := by
  unfold Core.published
  split_ifs
  · exact calm_onActive ha fun _ => ⟨rfl, rfl⟩
  · exact calm_onActive ha fun _ => ⟨rfl, rfl⟩

theorem calm_persisted {j : Joining} (ha : c.active.isSome = true) : Calm c j (c.persisted j) := by
  unfold Core.persisted
  split_ifs
  · exact calm_onActive ha fun _ => ⟨rfl, rfl⟩
  · exact calm_published ha

/-- Past the secrets. -/
theorem calm_join {pc : Pc} {j : Joining} (hj : pc.joining = some j) (hun : pc.unpersisted = none)
    (hf : pc.finds c) : Calm c j (c.join pc) := by
  have hon : ∀ {c' : Core} {pc' : Pc}, SameHistory c c' →
      (∀ x, (c'.data x).meta = (c.data x).meta) →
      pc'.joining = some j → pc'.unpersisted = none → Calm c j (c', some pc') := by
    intro c' pc' hs hm hjoining hnone
    refine ⟨hs, hm, fun other hother => ?_⟩
    obtain rfl := Option.some.inj hother
    exact ⟨hjoining, hnone⟩
  cases pc with
  | publishing j' target =>
    obtain rfl := Option.some.inj hj
    exact Calm.after (calm_published hf) ⟨rfl, rfl, rfl⟩ (meta_setData rfl)
  | seeding j' target =>
    obtain rfl := Option.some.inj hj
    exact calm_onActive hf fun _ => ⟨rfl, rfl⟩
  | seeded j' target identities =>
    obtain rfl := Option.some.inj hj
    exact Calm.after (calm_onActive hf fun _ => ⟨rfl, rfl⟩) ⟨rfl, rfl, rfl⟩ (meta_setData rfl)
  | pinning j' target =>
    obtain rfl := Option.some.inj hj
    exact calm_onActive hf fun _ => ⟨rfl, rfl⟩
  | pinned j' target identities =>
    obtain rfl := Option.some.inj hj
    exact hon ⟨rfl, rfl, rfl⟩ (meta_setData rfl) rfl rfl
  | noting j' =>
    obtain rfl := Option.some.inj hj
    simp only [Core.join]
    split
    · exact hon ⟨rfl, rfl, rfl⟩ (meta_setData rfl) rfl rfl
    · exact hon (.refl c) (fun _ => rfl) rfl rfl
  | clearing j' =>
    obtain rfl := Option.some.inj hj
    exact hon ⟨rfl, rfl, rfl⟩ (fun _ => rfl) rfl rfl
  | starting j' =>
    exact ⟨⟨rfl, rfl, rfl⟩, fun _ => rfl, fun _ hnone => by cases hnone⟩
  | remembering | persisting => cases hun
  | storing | resuming | cancelling | polling | unwrapping | importing | registering => cases hj

theorem inv_calm (h : Inv p) {k : ℕ} {pc : Pc} (hk : p.tasks[k]? = some pc) {j : Joining}
    (hj : pc.joining = some j)
    (hun : pc.unpersisted = none) {next : Core × Option Pc} (hcalm : Calm p.core j next) :
    Inv (p.goOn k next) := by
  refine h.goOn hk hcalm.history (fun i _ _ => hcalm.meta i.space)
    (fun i _ hp => (persisted_congr (hcalm.meta i.space)).mpr hp) (fun pc' hpc' => ?_)
      fun i hi => ?_
  · obtain ⟨hjoining, hnone⟩ := hcalm.next pc' hpc'
    refine ⟨hjoining.trans hj.symm, ?_, fun q hq => .inl ?_⟩
    · cases pc' with
      | persisting => cases hnone
      | _ => trivial
    · rw [recognised_of_joining hj, ← recognised_of_joining hjoining]
      exact hq
  · rw [hun] at hi
    cases hi

/-- No two secrets are stored under one key. -/
theorem entries_inj {j : Joining} {a b : MetaEntry} (ha : a ∈ j.entries) (hb : b ∈ j.entries)
    (h : a.key = b.key) :
    a = b := by
  simp only [Joining.entries, List.mem_append, List.mem_cons, List.not_mem_nil, or_false,
    List.mem_map,
    Option.mem_toList] at ha hb
  rcases ha with (rfl | rfl | rfl) | ⟨x, hx, rfl⟩ <;> rcases hb with (rfl | rfl | rfl) |
    ⟨y, hy, rfl⟩ <;>
    first
      | rfl
      | (obtain rfl := Option.some.inj (hx.symm.trans hy); rfl)
      | cases h

theorem inv_remembering (h : Inv p) {k : ℕ} {j : Joining} (hk : p.tasks[k]? = some (.remembering j))
    (hf : p.core.active = some j.space) : Inv (p.goOn k (p.core.join (.remembering j))) := by
  have hjoin : p.core.join (.remembering j) =
      ({ p.core with lastSpace := some j.space }, some (.persisting j j.space j.entries)) := by
    simp only [Core.join, Core.onActive, hf]
  rw [hjoin]
  refine h.goOn hk ⟨rfl, rfl, rfl⟩ (fun _ _ _ => rfl) (fun _ _ hp => hp) (fun pc hpc => ?_)
    fun i hi => ?_
  · obtain rfl := Option.some.inj hpc
    exact ⟨rfl, ⟨rfl, fun _ he => he, fun _ he => .inl he⟩, fun q hq => .inl hq⟩
  · obtain rfl := Option.some.inj hi
    exact .inr ⟨_, rfl, rfl⟩

/-- The secret that is stored is the one under its key; the others stay. -/
theorem writes_set {j : Joining} {entry : MetaEntry} {left : List MetaEntry}
    (hw : Writes c (.persisting j j.space (entry :: left))) :
    Writes (c.setData j.space { c.data j.space with «meta» := (c.data j.space).meta.set entry })
      (.persisting j j.space left) := by
  refine ⟨rfl, fun e he => hw.2.1 e (List.mem_cons_of_mem _ he), fun e he => ?_⟩
  rw [data_setData, if_pos rfl, SpaceMeta.get_set]
  split_ifs with hkey
  · exact .inr (congrArg some (entries_inj (hw.2.1 entry List.mem_cons_self) he hkey.symm))
  · refine (hw.2.2 e he).imp_left fun hmem => (List.mem_cons.mp hmem).resolve_left fun heq =>
      hkey (by rw [heq])

theorem inv_persisting (h : Inv p) {k : ℕ} {j : Joining} {target : SpaceId} {left : List MetaEntry}
    (hk : p.tasks[k]? = some (.persisting j target left)) (hf : p.core.active.isSome = true) :
    Inv (p.goOn k (p.core.join (.persisting j target left))) := by
  have hpc := List.mem_of_getElem? hk
  have hj : j ∈ p.core.begun := h.begun _ hpc j rfl
  obtain rfl : target = j.space := (h.writes _ hpc).1
  have hdone : ∀ {c : Core}, SameHistory p.core c → c.active = p.core.active →
      (∀ i ∈ p.core.begun, i ≠ j → (c.data i.space).meta = (p.core.data i.space).meta) →
      Persisted c j →
      Inv (p.goOn k (c.persisted j)) := by
    intro c hs ha hm hp
    have hcalm : Calm c j (c.persisted j) := calm_persisted (by rw [ha]; exact hf)
    refine h.goOn hk ?_ (fun i hi hne => ?_) (fun i hi _ => ?_) (fun pc' hpc' => ?_) fun i hi => ?_
    · exact ⟨hcalm.history.begun.trans hs.begun, hcalm.history.registry.trans hs.registry,
        hcalm.history.failed.trans hs.failed⟩
    · exact (hcalm.meta _).trans (hm i hi fun he => hne (by rw [he]; rfl))
    · obtain rfl := Option.some.inj hi
      exact (persisted_congr (hcalm.meta _)).mpr hp
    · obtain ⟨hjoining, hnone⟩ := hcalm.next pc' hpc'
      refine ⟨hjoining, ?_, fun q hq => .inl ?_⟩
      · cases pc' with
        | persisting => cases hnone
        | _ => trivial
      · rw [← hq, recognised_of_joining hjoining]
        rfl
    · obtain rfl := Option.some.inj hi
      exact .inl ((persisted_congr (hcalm.meta _)).mpr hp)
  cases left with
  | nil =>
    refine hdone (.refl _) rfl (fun _ _ _ => rfl) fun e he => ?_
    exact ((h.writes _ hpc).2.2 e he).resolve_left List.not_mem_nil
  | cons entry left =>
    have hw := writes_set (h.writes _ hpc)
    have hm : ∀ i ∈ p.core.begun, i ≠ j → ((p.core.setData j.space { p.core.data j.space with
        «meta» := (p.core.data j.space).meta.set entry }).data i.space).meta =
          (p.core.data i.space).meta := by
      intro i hi hne
      rw [data_setData, if_neg fun hspace => hne (h.spaces i hi j hj hspace)]
    simp only [Core.join]
    split_ifs with hleft
    · subst hleft
      exact hdone ⟨rfl, rfl, rfl⟩ rfl hm fun e he => (hw.2.2 e he).resolve_left List.not_mem_nil
    · refine h.goOn hk ⟨rfl, rfl, rfl⟩ (fun i hi hne => hm i hi fun he => hne (by rw [he]; rfl))
        (fun i hi hp => ?_)
        (fun pc' hpc' => ?_) fun i hi => ?_
      · obtain rfl := Option.some.inj hi
        intro e he
        rw [data_setData, if_pos rfl, SpaceMeta.get_set]
        split_ifs with hkey
        · exact congrArg
            some (entries_inj ((h.writes _ hpc).2.1 entry List.mem_cons_self) he hkey.symm)
        · exact hp e he
      · obtain rfl := Option.some.inj hpc'
        exact ⟨rfl, hw, fun q hq => .inl hq⟩
      · obtain rfl := Option.some.inj hi
        exact .inr ⟨_, rfl, rfl⟩

/-- Before a space is registered. -/
theorem inv_early (h : Inv p) {k : ℕ} {pc : Pc} (hk : p.tasks[k]? = some pc)
    (hj : pc.joining = none)
    {next : Core × Option Pc} (hs : SameHistory p.core next.1) (hd : next.1.data = p.core.data)
    (hnext : ∀ pc' ∈ next.2, pc'.joining = none ∧
      ∀ q, pc'.recognised = some q → pc.recognised = some q ∨ p.Free q) : Inv (p.goOn k next) := by
  refine h.goOn hk hs (fun i _ _ => by rw [hd]) (fun i hi => ?_) (fun pc' hpc' => ?_) fun i hi => ?_
  · rw [hj] at hi
    cases hi
  · obtain ⟨hnone, hfrom⟩ := hnext pc' hpc'
    refine ⟨hnone.trans hj.symm, ?_, hfrom⟩
    cases pc' with
    | persisting => cases hnone
    | _ => trivial
  · rw [joining_of_unpersisted hi] at hj
    cases hj

theorem inv_registering (h : Inv p) {k : ℕ} {pending : PendingPairing} {package : PairingPackage}
    (hk : p.tasks[k]? = some (.registering pending package)) {space : SpaceId}
    (hnew : space ∉ p.core.registry.map SpaceRecord.id) :
    Inv (p.goOn k (p.core.beginSpace ⟨pending, package, space⟩,
      some (.remembering ⟨pending, package, space⟩))) := by
  have hpc := List.mem_of_getElem? hk
  have hfree : ∀ i ∈ p.core.begun, i.pairingId ≠ pending.payload.pairingId := h.free _ hpc rfl _ rfl
  have hspace : ∀ i ∈ p.core.begun, i.space ≠ space := fun i hi he => hnew (he ▸ h.registered i hi)
  change Inv ⟨p.core.beginSpace ⟨pending, package, space⟩,
    Tasks.goOn p.tasks k (some (.remembering ⟨pending, package, space⟩))⟩
  have hapart : Tasks.Apart (fun s t => ∀ q, s.recognised = some q → t.recognised ≠ some q)
      (Tasks.goOn p.tasks k (some (.remembering ⟨pending, package, space⟩))) := by
    refine h.apart.goOn fun pc' hpc' i hne u hu => ?_
    obtain rfl := Option.some.inj hpc'
    have hne' := h.apart k i hne.symm _ hk u hu pending.payload.pairingId rfl
    refine ⟨fun q hq => ?_, fun q hq hq' => ?_⟩
    · obtain rfl := Option.some.inj hq
      exact hne'
    · obtain rfl := Option.some.inj hq'
      exact hne' hq
  have hwas : ∀ {other},
      other ∈ Tasks.goOn p.tasks k (some (.remembering ⟨pending, package, space⟩)) →
      other = .remembering ⟨pending, package, space⟩ ∨ ∃ i ≠ k,
      p.tasks[i]? = some other := fun hmem =>
    (Tasks.mem_goOn hmem).imp_left fun he => (Option.some.inj he).symm
  have hstays : ∀ {other} {i : ℕ}, p.tasks[i]? = some other → i ≠ k →
      other ∈ Tasks.goOn p.tasks k (some (.remembering ⟨pending, package, space⟩)) := fun hi hne =>
    Tasks.mem_goOn_of_ne hi hne
  refine
    { apart := hapart
      free := fun other hmem hjoining q hq => ?_
      begun := fun other hmem j hjoining => ?_
      once := fun i hi j hj he => ?_
      spaces := fun i hi j hj he => ?_
      registered := fun j hj => ?_
      writes := fun other hmem => ?_
      persisted := fun j hj => ?_
      failed := h.failed }
  · rcases hwas hmem with rfl | ⟨i, hne, hold⟩
    · cases hjoining
    · intro j hj
      rcases List.mem_cons.mp hj with rfl | hj
      · exact fun he =>
          h.apart k i hne.symm _ hk other hold pending.payload.pairingId rfl (by rw [hq, ← he]; rfl)
      · exact h.free other (List.mem_of_getElem? hold) hjoining q hq j hj
  · rcases hwas hmem with rfl | ⟨i, _, hold⟩
    · obtain rfl := Option.some.inj hjoining
      exact List.mem_cons_self
    · exact List.mem_cons_of_mem _ (h.begun other (List.mem_of_getElem? hold) j hjoining)
  · rcases List.mem_cons.mp hi with rfl | hi <;> rcases List.mem_cons.mp hj with rfl | hj
    · rfl
    · exact absurd he.symm (hfree j hj)
    · exact absurd he (hfree i hi)
    · exact h.once i hi j hj he
  · rcases List.mem_cons.mp hi with rfl | hi <;> rcases List.mem_cons.mp hj with rfl | hj
    · rfl
    · exact absurd he.symm (hspace j hj)
    · exact absurd he (hspace i hi)
    · exact h.spaces i hi j hj he
  · simp only [Core.beginSpace, List.map_append, List.mem_append]
    rcases List.mem_cons.mp hj with rfl | hj
    · exact .inr List.mem_cons_self
    · exact .inl (h.registered j hj)
  · rcases hwas hmem with rfl | ⟨i, _, hold⟩
    · trivial
    · have hw := h.writes other (List.mem_of_getElem? hold)
      cases other with
      | persisting => exact hw
      | _ => trivial
  · rcases List.mem_cons.mp hj with rfl | hj
    · exact .inr ⟨_, Tasks.mem_goOn_self hk, rfl⟩
    · refine (h.persisted j hj).imp_right fun hex => ?_
      obtain ⟨other, hmem, hun⟩ := hex
      obtain ⟨i, hi⟩ := List.mem_iff_getElem?.mp hmem
      refine ⟨other, hstays hi fun hik => ?_, hun⟩
      subst hik
      obtain rfl := Option.some.inj (hk.symm.trans hi)
      cases hun

theorem inv_task (h : Inv p) {k : ℕ} {input : Input} {pc : Pc} (hk : p.tasks[k]? = some pc)
    (hdraws : p.core.draws input pc = true)
    (hpolled : ∀ pending ∈ pc.polled, input.answer.hasPackage = true →
      p.Free pending.payload.pairingId)
    (hsteady : pc.joining.isSome = true → input.fails = false ∧ pc.finds p.core) :
    Inv (p.goOn k (p.core.advance input pc)) := by
  have hstop : ∀ {c : Core}, SameHistory p.core c → c.data = p.core.data → pc.joining = none →
      Inv (p.goOn k (c, none)) := fun hs hd hj => inv_early h hk hj hs hd
        fun _ hnone => by cases hnone
  have hcalm : ∀ {j : Joining}, pc.joining = some j → pc.unpersisted = none → pc.finds p.core →
      Inv (p.goOn k (p.core.join pc)) := fun hj hun hf => inv_calm h hk hj hun (calm_join hj hun hf)
  have hadvance : ∀ {j : Joining}, pc.joining = some j →
      input.fails = false ∧ pc.finds p.core := fun hj => hsteady (by rw [hj]; rfl)
  cases pc with
  | storing pending =>
    simp only [Core.advance]
    split_ifs <;> exact hstop ⟨rfl, rfl, rfl⟩ rfl rfl
  | resuming =>
    simp only [Core.advance]
    split_ifs
    · exact hstop (.refl _) rfl rfl
    · cases p.core.pendingPairing <;> exact hstop ⟨rfl, rfl, rfl⟩ rfl rfl
  | cancelling =>
    simp only [Core.advance]
    split_ifs <;> exact hstop ⟨rfl, rfl, rfl⟩ rfl rfl
  | polling pending =>
    simp only [Core.advance]
    split
    · exact hstop (.refl _) rfl rfl
    · exact hstop (.refl _) rfl rfl
    · exact hstop ⟨rfl, rfl, rfl⟩ rfl rfl
    · next wrapped hanswer =>
      refine inv_early h hk rfl ⟨rfl, rfl, rfl⟩ rfl fun pc' hpc' => ?_
      obtain rfl := Option.some.inj hpc'
      refine ⟨rfl, fun q hq => .inr ?_⟩
      obtain rfl := Option.some.inj hq
      exact hpolled pending rfl (by rw [hanswer]; rfl)
  | unwrapping pending wrapped =>
    simp only [Core.advance]
    split
    · refine inv_early h hk rfl (.refl _) rfl fun pc' hpc' => ?_
      obtain rfl := Option.some.inj hpc'
      exact ⟨rfl, fun q hq => .inl hq⟩
    · exact hstop ⟨rfl, rfl, rfl⟩ rfl rfl
  | importing pending package =>
    simp only [Core.advance]
    split_ifs
    · exact hstop ⟨rfl, rfl, rfl⟩ rfl rfl
    · refine inv_early h hk rfl (.refl _) rfl fun pc' hpc' => ?_
      obtain rfl := Option.some.inj hpc'
      exact ⟨rfl, fun q hq => .inl hq⟩
  | registering pending package =>
    simp only [Core.advance]
    split_ifs
    · exact hstop ⟨rfl, rfl, rfl⟩ rfl rfl
    · exact inv_registering h hk (of_decide_eq_true hdraws)
  | remembering j =>
    obtain ⟨hfails, hf⟩ := hadvance rfl
    simpa only [Core.advance, Pc.joining, hfails, Bool.false_eq_true,
      if_false] using inv_remembering h hk hf
  | persisting j target left =>
    obtain ⟨hfails, hf⟩ := hadvance rfl
    simpa only [Core.advance, Pc.joining, hfails, Bool.false_eq_true,
      if_false] using inv_persisting h hk hf
  | publishing
    j | seeding j | seeded j | pinning j | pinned j | noting j | clearing j | starting j =>
    obtain ⟨hfails, hf⟩ := hadvance rfl
    simpa only [Core.advance, Pc.joining, hfails, Bool.false_eq_true,
      if_false] using hcalm rfl rfl hf

theorem inv_step (h : Inv p) {e : Event} {q : Page} (hok : Careful p e)
    (hstep : step p e = some q) : Inv q := by
  cases e with
  | startLinking pending =>
    obtain rfl := Option.some.inj hstep
    exact h.begin (.refl _) rfl rfl rfl trivial
  | resumeLinking =>
    simp only [step] at hstep
    split_ifs at hstep
    obtain rfl := Option.some.inj hstep
    exact h.begin (.refl _) rfl rfl rfl trivial
  | pauseLinking =>
    obtain rfl := Option.some.inj hstep
    exact h.core ⟨rfl, rfl, rfl⟩ rfl
  | cancelLinking =>
    obtain rfl := Option.some.inj hstep
    exact Inv.begin (c := p.core.pauseLinking) h ⟨rfl, rfl, rfl⟩ rfl rfl rfl trivial
  | tick =>
    obtain ⟨pending, _, rfl⟩ := Option.map_eq_some_iff.mp hstep
    exact h.begin (.refl _) rfl rfl rfl trivial
  | openSpace space =>
    simp only [step] at hstep
    split_ifs at hstep
    obtain rfl := Option.some.inj hstep
    exact h.core ⟨rfl, rfl, rfl⟩ rfl
  | closeSpace =>
    obtain rfl := Option.some.inj hstep
    exact h.core ⟨rfl, rfl, rfl⟩ rfl
  | restart =>
    obtain rfl := Option.some.inj hstep
    have hcore :=
      h.core (c := { p.core with linking := none, linkTimer := none, active := none }) ⟨rfl,
        rfl, rfl⟩ rfl
    exact
      { hcore with
        apart := .nil
        free := fun _ hpc => by cases hpc
        begun := fun _ hpc => by cases hpc
        writes := fun _ hpc => by cases hpc
        persisted := fun j hj => (h.persisted j hj).imp_right fun hex => by
          obtain ⟨pc, hpc, hun⟩ := hex
          rw [hok pc hpc] at hun
          cases hun }
  | task k input =>
    obtain ⟨pc, hk, hstep⟩ := Option.bind_eq_some_iff.mp hstep
    split_ifs at hstep with hdraws
    obtain rfl := Option.some.inj hstep
    obtain ⟨hpolled, hsteady⟩ := hok pc hk
    exact inv_task h hk hdraws hpolled hsteady

/-- In every careful run a pairing leads to one space at most, with its secrets. -/
theorem linked_once {registry : List SpaceRecord} {lastSpace : Option SpaceId}
    {pending : Option PendingPairing} {data : SpaceId → SpaceData} {p : Page}
    (h : ReachableVia step Careful (start registry lastSpace pending data) p) : Linked p :=
  (h.invariant (inv_start registry lastSpace pending data) fun _ _ _ hi hok hstep =>
    inv_step hi hok hstep).linked

def noSpaces : Page :=
  start [] none none fun _ => ⟨⟨none, none, none, none, none⟩, false, .empty, []⟩

def aPairing : PendingPairing := ⟨⟨1, true⟩, some ⟨2, true⟩, ⟨3, 9, some 10, 4⟩⟩

def aPackage : PairingPackage := ⟨⟨5, 1, 2, 7⟩, none, some []⟩

/-- The answer with the package, and then the steps up to the registration of this space. -/
def recognising (k : ℕ) (space : SpaceId) : List Event :=
  .task k ⟨.package ⟨9, .pairing 3, aPackage⟩, 0, false⟩ :: List.replicate 3
    (.task k ⟨.notReady, space, false⟩)

/-- Two polls in flight register two spaces for one pairing; and a poll that fails after it has
registered its space leaves it. -/
theorem linked_twice : (∃ p, Reachable step noSpaces p ∧ ∃ i ∈ p.core.begun, ∃ j ∈ p.core.begun,
      i.pairingId = j.pairingId ∧ i.space ∈ p.core.registry.map SpaceRecord.id ∧
        j.space ∈ p.core.registry.map SpaceRecord.id ∧ i.space ≠ j.space) ∧
    ∃ p, Reachable step noSpaces p ∧ ∃ j ∈ p.core.failed,
      j.space ∈ p.core.registry.map SpaceRecord.id := by
  constructor
  · have hreplay :
        (replay step noSpaces
          ([.startLinking aPairing, .task 0 ⟨.notReady, 0, false⟩, .tick, .tick] ++
        recognising 0 1 ++ recognising 1 2)).any (fun p => decide (∃ i ∈ p.core.begun,
        ∃ j ∈ p.core.begun,
          i.pairingId = j.pairingId ∧ i.space ∈ p.core.registry.map SpaceRecord.id ∧
            j.space ∈ p.core.registry.map SpaceRecord.id ∧ i.space ≠ j.space)) = true := by
      decide +kernel
    exact exists_reachable_of_replay hreplay
  · have hreplay :
        (replay step noSpaces ([.startLinking aPairing, .task 0 ⟨.notReady, 0, false⟩, .tick] ++
        recognising 0 1 ++ [.task 0 ⟨.notReady, 0, true⟩])).any (fun p =>
          decide (∃ j ∈ p.core.failed, j.space ∈ p.core.registry.map SpaceRecord.id)) = true := by
      decide +kernel
    exact exists_reachable_of_replay hreplay

/-- A pairing that is put on hold and taken up again. -/
theorem linked_once_resumed : ∃ p, ReachableVia step Careful noSpaces p ∧ ∃ j ∈ p.core.begun,
    j.space = 1 ∧ Persisted p.core j ∧ p.core.pendingPairing = none := by
  have hrun :
      ((replayVia step Careful noSpaces
        ([.startLinking aPairing, .task 0 ⟨.notReady, 0, false⟩, .tick,
      .task 0 ⟨.notReady, 0, false⟩, .pauseLinking, .resumeLinking,
      .task 0 ⟨.notReady, 0, false⟩, .tick] ++
        recognising 0 1 ++ List.replicate 13 (.task 0 ⟨.notReady, 0, false⟩))).any fun p =>
      decide (p.tasks.length = 0 ∧ p.core.pendingPairing = none ∧
        ∃ j ∈ p.core.begun, j.space = 1 ∧
        j.space ∈ p.core.registry.map SpaceRecord.id)) = true := by
    decide +kernel
  obtain ⟨p, hp, hstate⟩ := (Option.any_eq_true _ _).mp hrun
  obtain ⟨hidle, hpending, j, hj, hspace, hregistered⟩ := of_decide_eq_true hstate
  have hreach := reachableVia_of_replayVia hp
  refine ⟨p, hreach, j, hj, hspace, (linked_once hreach).persisted j hj hregistered fun pc hpc =>
    ?_, hpending⟩
  rw [List.length_eq_zero_iff.mp hidle] at hpc
  cases hpc

end SendSelf.Linking
