import SendSelf.Keys.Identity

/-!
# No device is left without a key

A device has a key when it is persisted, or when the device still waits for the
answer that makes it persist it. The key of every epoch since a device was paired
is then either had or waiting on the server: an ack drops only rows of keys its
sender has. Three things break this, and the runs below do without them: the
success of a rotation is lost, a task saves a keyring that lacks a key persisted
meanwhile, and a batch lands wraps without the rotation.
-/
namespace SendSelf.World

open WriteOnce

def SavedHas (c : Client) (e : ℕ) : Prop :=
  ∃ ring, c.saved = some ring ∧ (keyForEpoch ring e).isSome

/-- The task waits for an answer which says that its rotation to `e` went through. -/
def Wins (s : World) (task : Task) (e : ℕ) : Prop := ∃ newKey wraps f resp,
  task.pc = .rotating e newKey wraps ∧ s.server.flights task.awaiting = some f ∧
    f.stage = .answered (.rotated resp)

def Has (s : World) (p : PublicKey) (e : ℕ) : Prop :=
  (∃ c, s.clients p = some c ∧ SavedHas c e) ∨
    ∃ t task, s.tasks t = some task ∧ task.publicKey = p ∧ Wins s task e

/-- A row of the epoch waits for the device. -/
def Waits (db : SpaceDb) (deviceId : DeviceId) (e : ℕ) : Prop :=
  ∃ row ∈ db.keyDistribution, row.epoch = e ∧ row.deviceId = deviceId

/-- The client has not opened the package of its pairing yet. -/
def Unopened (s : World) (p : PublicKey) : Prop := ∀ c, s.clients p = some c → c.session = none

/-- A package that opens with this key is in a slot of the client. -/
def Packaged (s : World) (p : PublicKey) : Prop :=
  ∃ slot ∈ s.db.pairing, slot.newDevice.publicKey = p ∧
  ∃ package, slot.wrappedPackage = some package ∧ package.recipient = p ∧
    package.context = .pairing slot.pairingId

/-- The key of its pairing is still in the package of the device. -/
def Unclaimed (s : World) (p : PublicKey) : Prop := Unopened s p ∧ Packaged s p

/-- The batch of this request is about to go through. -/
def WinningBatch (db : SpaceDb) : Flight → Prop
  | ⟨_, .rotateKey body, .ready auth⟩ =>
      rotateKey.Prepared auth body db ∧
        ¬ rotateKey.Clash body.epoch auth.groupKeyEpoch db body.wraps
  | _ => False

/-- The answer the task waits for makes it persist a keyring. -/
def Stores (s : World) (task : Task) : Prop :=
  (∃ e, Wins s task e) ∨ task.pc = .polling ∧ ∃ f resp, s.server.flights task.awaiting = some f ∧
    f.stage = .answered (.pending resp) ∧ resp.keys ≠ []

/-- The answer hands out a key of the epoch once more. -/
def HandsOut (s : World) (task : Task) (e : ℕ) : Prop :=
  task.pc = .polling ∧ ∃ f resp, s.server.flights task.awaiting = some f ∧
    f.stage = .answered (.pending resp) ∧ ∃ d ∈ resp.keys, d.epoch = e

/-- The copy of the keyring the task carries has a key for every epoch that the device has persisted
one for, except for those it is about to be handed again. -/
def Current (s : World) (task : Task) : Prop := ∀ c ring, s.clients task.publicKey = some c →
  c.saved = some ring → ∀ e, (keyForEpoch ring e).isSome →
    (keyForEpoch task.ring e).isSome ∨ HandsOut s task e

/-- Nobody walks away from a rotation that went through, no keyring is persisted
from an outdated copy, and no package is dropped before it was opened. -/
def Undisturbed (s : World) : Label → Prop
  | .resend t _ | .giveUp t => ∀ task, s.tasks t = some task → ∀ e, ¬ Wins s task e
  | .restart p => ∀ t task, s.tasks t = some task → task.publicKey = p → ∀ e, ¬ Wins s task e
  | .serve r _ _ => ∀ f, s.server.flights r = some f → WinningBatch s.db f →
      ∃ t task, s.tasks t = some task ∧ task.awaiting = r
  | .receive t _ _ _ => ∀ task, s.tasks t = some task → Stores s task → Current s task
  | .dropSlot pairingId => ∀ slot ∈ s.db.pairing, slot.pairingId = pairingId →
      slot.wrappedPackage.isSome → ¬ Unopened s slot.newDevice.publicKey
  | _ => True

/-- The guard of the runs below. -/
structure Careful (s : World) (l : Label) : Prop where
  whole : WholeBatch s l
  fresh : FreshIdentity s l
  undisturbed : Undisturbed s l

/-- The device can still come to hold the key of the epoch, if it does not already. -/
def KeyLeft (s : World) (d : Device) (e : ℕ) : Prop :=
  (e = d.nameKeyEpoch ∧ Unclaimed s d.publicKey) ∨ Has s d.publicKey e ∨ Waits s.db d.id e

structure Delivered (s : World) : Prop where
  paired : ∀ d ∈ s.db.devices, d.nameKeyEpoch ≤ s.db.keyEpoch
  keys : ∀ d ∈ s.db.devices, d.active = true → ∀ e, d.nameKeyEpoch ≤ e → e ≤ s.db.keyEpoch →
    KeyLeft s d e
  acks : ∀ r task epoch b, s.sent r = some task → task.pc = .acking epoch b →
    ∀ d ∈ s.db.devices, d.active = true → d.publicKey = task.publicKey →
      ∀ e, d.nameKeyEpoch ≤ e → e ≤ epoch → Has s task.publicKey e
  polls : ∀ r task f resp, s.sent r = some task → s.server.flights r = some f →
    f.stage = .answered (.pending resp) → ∀ d ∈ s.db.devices, d.active = true →
      d.publicKey = task.publicKey → ∀ k ∈ resp.keys, ∀ e, d.nameKeyEpoch ≤ e → e ≤ k.epoch →
        Has s task.publicKey e ∨ ∃ k' ∈ resp.keys, k'.epoch = e

variable {s s' : World} {t : TaskId} {r : RequestId} {task : Task}

/-- A step of a device: the tables stay, nobody loses a key, and what is new on its
way is not an ack, or an ack of keys its sender has. -/
theorem Delivered.frame (h : Delivered s) (hdev : s'.db.devices = s.db.devices)
    (hep : s'.db.keyEpoch = s.db.keyEpoch) (hkd : s'.db.keyDistribution = s.db.keyDistribution)
    (hhas : ∀ p e, Has s p e → Has s' p e)
    (hun : ∀ d ∈ s.db.devices, Unclaimed s d.publicKey →
      Unclaimed s' d.publicKey ∨ Has s' d.publicKey d.nameKeyEpoch)
    (hsent : ∀ q task', s'.sent q = some task' →
      (s.sent q = some task' ∧ s'.server.flights q = s.server.flights q) ∨
      ((∀ f, s'.server.flights q = some f → f.stage = .received) ∧
        ∀ epoch b, task'.pc = .acking epoch b → ∀ d ∈ s.db.devices, d.active = true →
          d.publicKey = task'.publicKey → ∀ e, d.nameKeyEpoch ≤ e → e ≤ epoch →
            Has s task'.publicKey e)) : Delivered s' := by
  refine ⟨?_, ?_, ?_, ?_⟩
  · rw [hdev, hep]
    exact h.paired
  · intro d hd ha e h₁ h₂
    rw [hdev] at hd
    rw [hep] at h₂
    rcases h.keys d hd ha e h₁ h₂ with ⟨rfl, hu⟩ | hk | hw
    · rcases hun d hd hu with hu | hk
      · exact Or.inl ⟨rfl, hu⟩
      · exact Or.inr (Or.inl hk)
    · exact Or.inr (Or.inl (hhas _ _ hk))
    · refine Or.inr (Or.inr ?_)
      rw [Waits, hkd]
      exact hw
  · intro q task' epoch b hq hpc d hd ha hkey e h₁ h₂
    rw [hdev] at hd
    rcases hsent q task' hq with ⟨hq, _⟩ | ⟨_, hack⟩
    · exact hhas _ _ (h.acks q task' epoch b hq hpc d hd ha hkey e h₁ h₂)
    · exact hhas _ _ (hack epoch b hpc d hd ha hkey e h₁ h₂)
  · intro q task' f resp hq hf hst d hd ha hkey k hk e h₁ h₂
    rw [hdev] at hd
    rcases hsent q task' hq with ⟨hq, hfl⟩ | ⟨hrec, _⟩
    · rw [hfl] at hf
      exact (h.polls q task' f resp hq hf hst d hd ha hkey k hk e h₁ h₂).imp_left (hhas _ _)
    · simp [hrec f hf] at hst

theorem has_setClient {p : PublicKey} {c c' : Client} (hc : s.clients p = some c)
    (hs : ∀ e, SavedHas c e → SavedHas c' e) {q : PublicKey} {e : ℕ} (h : Has s q e) :
    Has (s.setClient p c') q e := by
  rcases h with ⟨a, ha, hse⟩ | h
  · by_cases he : q = p
    · subst he
      obtain rfl : c = a := Option.some.inj (hc.symm.trans ha)
      exact Or.inl ⟨c', setClient_self, hs e hse⟩
    · exact Or.inl ⟨a, by simpa [World.setClient, Function.update_of_ne he] using ha, hse⟩
  · exact Or.inr h

theorem unopened_setClient {p : PublicKey} {c c' : Client} (hc : s.clients p = some c)
    (hn : c.session = none → c'.session = none) {q : PublicKey} (h : Unopened s q) :
    Unopened (s.setClient p c') q := by
  intro a ha
  by_cases he : q = p
  · subst he
    obtain rfl : c' = a := Option.some.inj (setClient_self.symm.trans ha)
    exact hn (h c hc)
  · exact h a (by simpa [World.setClient, Function.update_of_ne he] using ha)

theorem Delivered.setClient (h : Delivered s) {p : PublicKey} {c c' : Client}
    (hc : s.clients p = some c) (hs : ∀ e, SavedHas c e → SavedHas c' e)
    (hn : c.session = none → c'.session = none) : Delivered (s.setClient p c') := by
  refine h.frame rfl rfl rfl (fun q e => has_setClient hc hs) ?_ ?_
  · exact fun d _ hu => Or.inl ⟨unopened_setClient hc hn hu.1, hu.2⟩
  · exact fun q task' hq => Or.inl ⟨hq, rfl⟩

/-- Whatever the task in slot `t` is winning is already persisted. -/
def Settled (s : World) (t : TaskId) : Prop := ∀ task, s.tasks t = some task → ∀ e, Wins s task e →
  ∃ c, s.clients task.publicKey = some c ∧ SavedHas c e

theorem settled_of_none (h : s.tasks t = none) : Settled s t := by
  intro task ht
  simp [h] at ht

theorem settled_of_pc (ht : s.tasks t = some task) (h : ∀ e, ¬ Wins s task e) : Settled s t := by
  intro task' ht' e hw
  obtain rfl : task = task' := Option.some.inj (ht.symm.trans ht')
  exact absurd hw (h e)

theorem has_dropTask (hset : Settled s t) {tasks : TaskId → Option Task}
    (hsame : ∀ u, u ≠ t → tasks u = s.tasks u) {p : PublicKey} {e : ℕ} (h : Has s p e) :
    Has { s with tasks } p e := by
  rcases h with h | ⟨u, task, hu, hkey, hw⟩
  · exact Or.inl h
  · by_cases he : u = t
    · subst he
      obtain ⟨c, hc, hse⟩ := hset task hu e hw
      exact Or.inl ⟨c, hkey ▸ hc, hse⟩
    · exact Or.inr ⟨u, task, (hsame u he).trans hu, hkey, hw⟩

theorem Delivered.finish (h : Delivered s) (hset : Settled s t) : Delivered (s.finish t task) := by
  have hend : Delivered { s with tasks := Function.update s.tasks t none } := by
    refine h.frame rfl rfl rfl ?_ (fun d _ hu => Or.inl hu) fun q task' hq => Or.inl ⟨hq, rfl⟩
    intro p e hh
    exact has_dropTask hset (fun u hu => Function.update_of_ne hu _ _) hh
  rcases finish_cases s t task with he | ⟨c, hc, he⟩
  · rw [he]
    exact hend
  · rw [he]
    exact hend.setClient hc (fun _ hse => hse) fun hn => hn

theorem Delivered.send (h : Delivered s) (hs : s.send t task r = some s') (hset : Settled s t)
    (hack : ∀ epoch b, task.pc = .acking epoch b → ∀ d ∈ s.db.devices, d.active = true →
      d.publicKey = task.publicKey → ∀ e, d.nameKeyEpoch ≤ e → e ≤ epoch → Has s task.publicKey e) :
    Delivered s' := by
  obtain ⟨hr, rfl⟩ := send_eq_some hs
  have hfree : ∀ q f, s.server.flights q = some f → q ≠ r := by
    intro q f hq he
    simp [he, hr] at hq
  refine h.frame rfl rfl rfl ?_ (fun d _ hu => Or.inl hu) ?_
  · intro p e hh
    have hdrop := has_dropTask hset
      (fun u hu => Function.update_of_ne hu (some { task with awaiting := r }) s.tasks) hh
    rcases hdrop with hdrop | ⟨u, task', hu, hkey, k, ws, f, resp, hpc, hf, hst⟩
    · exact Or.inl hdrop
    · refine Or.inr ⟨u, task', hu, hkey, k, ws, f, resp, hpc, ?_, hst⟩
      exact (Function.update_of_ne (hfree _ f hf) _ _).trans hf
  · intro q task' hq
    by_cases he : q = r
    · subst he
      simp only [Function.update_self, Option.some.injEq] at hq
      subst hq
      refine Or.inr ⟨fun f hf => ?_, hack⟩
      simp only [Function.update_self, Option.some.injEq] at hf
      rw [← hf]
    · simp only [Function.update_of_ne he] at hq
      exact Or.inl ⟨hq, Function.update_of_ne he _ _⟩

theorem Delivered.mintKey (h : Delivered s) {k : GroupKey} {e : ℕ} : Delivered (s.mintKey k e) :=
  h.frame rfl rfl rfl (fun _ _ hh => hh) (fun _ _ hu => Or.inl hu) fun _ _ hq => Or.inl ⟨hq, rfl⟩

theorem Delivered.mintToken (h : Delivered s) {token : Token} {p : PublicKey} :
    Delivered (s.mintToken token p) :=
  h.frame rfl rfl rfl (fun _ _ hh => hh) (fun _ _ hu => Or.inl hu) fun _ _ hq => Or.inl ⟨hq, rfl⟩

theorem Delivered.continues (h : Delivered s) (hset : Settled s t) (hc : Continues s t task r s') :
    Delivered s' := by
  cases hc with
  | ends => exact h.finish hset
  | lists hs => exact h.send hs hset fun _ _ hpc => nomatch hpc

theorem not_wins_of_pc (h : ∀ e k ws, task.pc ≠ .rotating e k ws) {e : ℕ} : ¬ Wins s task e := by
  intro ⟨k, ws, _, _, hpc, _⟩
  exact h e k ws hpc

theorem Delivered.received (ha : Agreed s) (h : Delivered s) {c : Client} {f : Flight}
    {newKey : GroupKey} (hsent : s.sent task.awaiting = some task) (ht : s.tasks t = some task)
    (hc : s.clients task.publicKey = some c) (hf : s.server.flights task.awaiting = some f)
    (hcur : Stores s task → Current s task) (hr : Received s t task c f.stage newKey r s') :
    Delivered s' := by
  have hkeep : ∀ {ring : Keyring} {m : Option Keyring}, Stores s task →
      Below (keyForEpoch task.ring) (keyForEpoch ring) →
      (∀ e, HandsOut s task e → (keyForEpoch ring e).isSome) →
      ∀ e, SavedHas c e → SavedHas { c with saved := some ring, memory := m } e := by
    intro ring m hstore hbelow hhanded e hsaved
    obtain ⟨old, hold, he⟩ := hsaved
    refine ⟨ring, rfl, ?_⟩
    rcases hcur hstore c old hc hold e he with hcopy | hcopy
    · obtain ⟨k, hk⟩ := Option.isSome_iff_exists.mp hcopy
      exact Option.isSome_iff_exists.mpr ⟨k, hbelow e k hk⟩
    · exact hhanded e hcopy
  have hhanded : ∀ {resp : PendingMessagesResponse} {ring : Keyring} {highest : ℕ},
      f.stage = .answered (.pending resp) →
      adoptPendingKeys.updated task.publicKey task.session task.ring resp.keys =
        some (ring, highest) → ∀ e, HandsOut s task e → (keyForEpoch ring e).isSome := by
    intro resp ring highest hans hu e hout
    obtain ⟨-, f', resp', hf', hans', d, hd, rfl⟩ := hout
    obtain rfl : f = f' := Option.some.inj (hf.symm.trans hf')
    obtain rfl : resp = resp' := by
      rw [hans] at hans'
      simpa using hans'
    exact (adoptPendingKeys.updated_holds hu).1 d hd
  have hadopt : ∀ {resp : PendingMessagesResponse}, task.pc = .polling →
      f.stage = .answered (.pending resp) → resp.keys ≠ [] → Stores s task :=
    fun hpc hans hkeys => Or.inr ⟨hpc, f, _, hf, hans, hkeys⟩
  cases hr with
  | ended lost =>
    refine h.finish (settled_of_pc ht ?_)
    intro e ⟨k, ws, f', resp, hpc, hf', hst⟩
    obtain rfl : f = f' := Option.some.inj (hf.symm.trans hf')
    exact lost e k ws resp hpc hst
  | empty hpc hs => exact h.continues (settled_of_pc ht fun e => not_wins_of_pc (by simp [hpc])) hs
  | @adopted s' resp ring highest hpc hans hkeys hpos hu hs =>
    have hset : Delivered (s.setClient task.publicKey { c with saved := some ring }) :=
      h.setClient hc (hkeep (hadopt hpc hans hkeys) (adoptPendingKeys.updated_below hu)
        (hhanded hans hu)) fun hn => hn
    refine hset.send hs (settled_of_pc ht fun e => not_wins_of_pc (by simp [hpc])) ?_
    intro epoch b hack d hd hact hkey e h₁ h₂
    obtain ⟨rfl, rfl⟩ := Pc.acking.inj hack
    obtain ⟨hin, hmax⟩ := adoptPendingKeys.updated_holds hu
    obtain ⟨top, htop, rfl⟩ := hmax.resolve_left (by omega)
    rcases h.polls _ task f resp hsent hf hans d hd hact hkey top htop e h₁ h₂ with hh |
      ⟨k, hk, rfl⟩
    · exact has_setClient hc (hkeep (hadopt hpc hans hkeys) (adoptPendingKeys.updated_below hu)
        (hhanded hans hu)) hh
    · exact Or.inl ⟨_, setClient_self, ring, rfl, hin k hk⟩
  | @adoptedNone s' resp ring highest hpc hans hkeys hu hs =>
    have hset : Delivered (s.setClient task.publicKey { c with saved := some ring }) :=
      h.setClient hc (hkeep (hadopt hpc hans hkeys) (adoptPendingKeys.updated_below hu)
        (hhanded hans hu)) fun hn => hn
    have hload : Delivered ((s.setClient task.publicKey { c with saved := some ring }).setClient
        task.publicKey { c with saved := some ring, memory := some ring }) :=
      hset.setClient setClient_self (fun _ hse => hse) fun hn => hn
    exact hload.continues (settled_of_pc ht fun e => not_wins_of_pc (by simp [hpc])) hs
  | acked hpc hs =>
    have hset : Delivered (s.setClient task.publicKey { c with memory := some task.ring }) :=
      h.setClient hc (fun _ hse => hse) fun hn => hn
    exact hset.continues (settled_of_pc ht fun e => not_wins_of_pc (by simp [hpc])) hs
  | listed hpc hans hfresh hs =>
    refine h.mintKey.send hs (settled_of_pc ht fun e => not_wins_of_pc (by simp [hpc])) ?_
    exact fun _ _ hack => nomatch hack
  | @won resp epoch key wraps hpc hans =>
    have hagree := ha.answers _ task f hsent hf
    rw [hpc, hans] at hagree
    have hring := keyForEpoch_withEpoch task.ring resp.epoch key
    have hstore : Stores s task := Or.inl ⟨epoch, key, wraps, f, resp, hpc, hf, hans⟩
    have hbelow :
        Below (keyForEpoch task.ring) (keyForEpoch (withEpoch task.ring resp.epoch key)) := by
      rw [hring, hagree.1]
      exact (ha.sent _ task hsent).1.below_record hagree.2
    have hset :=
      h.setClient hc (hkeep (m := some (withEpoch task.ring resp.epoch key)) hstore hbelow
      fun e hout => absurd (hpc.symm.trans hout.1) (by simp)) fun hn => hn
    refine hset.finish ?_
    intro task' ht' e ⟨k, ws, _, _, hpc', _⟩
    obtain rfl : task = task' := Option.some.inj (ht.symm.trans ht')
    obtain ⟨rfl, _, _⟩ := Pc.rotating.inj (hpc.symm.trans hpc')
    refine ⟨_, setClient_self, _, rfl, ?_⟩
    rw [hring, hagree.1, record_self]
    rfl
  | revoked hpc hm hs =>
    refine h.send hs (settled_of_pc ht fun e => not_wins_of_pc (by simp [hpc])) ?_
    exact fun _ _ hack => nomatch hack

theorem Delivered.openPackage (hi : Identified s) (h : Delivered s) {publicKey : PublicKey}
    (hs : s.openPackage publicKey = some s') : Delivered s' := by
  obtain ⟨c, slot, package, payload, hc, hslot, hid, hp, hpk, hnone, rfl⟩ := openPackage_cases hs
  refine h.frame rfl rfl rfl ?_ ?_ fun q task' hq => Or.inl ⟨hq, rfl⟩
  · intro p e hh
    refine has_setClient hc ?_ hh
    intro e ⟨ring, hring, _⟩
    simp [hi.unopened _ c hc hnone] at hring
  · intro d hd hu
    by_cases he : d.publicKey = publicKey
    · right
      obtain ⟨c₁, hc₁, _, hp₁⟩ := hi.slots slot hslot
      have hkey : slot.newDevice.publicKey = publicKey := hi.pids _ _ c₁ c hc₁ hc (hp₁.trans hid)
      have hepoch := (hi.packages slot hslot package hp).2.2 d hd (he.trans hkey.symm)
      refine Or.inl ⟨_, by rw [he]; exact setClient_self, _, rfl, ?_⟩
      rw [hepoch, hpk]
      exact Option.isSome_iff_exists.mpr ⟨_, keyForEpoch_createKeyring.mpr ⟨rfl, rfl⟩⟩
    · left
      refine ⟨fun a ha => hu.1 a ?_, hu.2⟩
      simpa [World.setClient, Function.update_of_ne he] using ha

theorem Delivered.join (hi : Identified s) (h : Delivered s) {publicKey : PublicKey}
    {device : SlotDevice} {pairingId : PairingId}
    (hs : s.join publicKey device pairingId = some s') : Delivered s' := by
  obtain ⟨hfree, hdev, hslots, rfl⟩ := join_cases hs
  have hne : ∀ p a, s.clients p = some a → p ≠ publicKey := by
    intro p a ha he
    simp [he, hfree] at ha
  refine h.frame rfl rfl rfl ?_ ?_ fun q task' hq => Or.inl ⟨hq, rfl⟩
  · intro p e hh
    rcases hh with ⟨a, ha, hse⟩ | hh
    · exact Or.inl ⟨a, by simpa [World.setClient, Function.update_of_ne (hne p a ha)] using ha, hse⟩
    · exact Or.inr hh
  · intro d hd hu
    left
    obtain ⟨⟨b, hb, _⟩, _⟩ := hi.devices d hd
    refine ⟨fun a ha => hu.1 a ?_, ?_⟩
    · simpa [World.setClient, Function.update_of_ne (hne _ b hb)] using ha
    · obtain ⟨slot, hslot, hkey, hpack⟩ := hu.2
      refine ⟨slot, ?_, hkey, hpack⟩
      refine Table.mem_upsert.mpr (Or.inl ⟨?_, Or.inl hslot⟩)
      exact fun q hq => hslots q hq

theorem Delivered.dropSlot (h : Delivered s) {pairingId : PairingId}
    (hok : Undisturbed s (.dropSlot pairingId)) :
    Delivered { s with server := s.server.release pairingId } := by
  refine h.frame rfl rfl rfl (fun _ _ hh => hh) ?_ fun q task' hq => Or.inl ⟨hq, rfl⟩
  intro d hd hu
  obtain ⟨slot, hslot, hkey, p, hp, hopen⟩ := hu.2
  refine Or.inl ⟨hu.1, slot, Table.mem_delete.mpr ⟨hslot, ?_⟩, hkey, p, hp, hopen⟩
  rw [decide_eq_false_iff_not]
  intro he
  exact hok slot hslot he (by simp [hp]) (hkey ▸ hu.1)

section
variable {request : ApiRequest} {stage stage' : Stage} {db' : SpaceDb}

/-- The state after a step of the request `r` on the server. -/
def servedState (s : World) (r : RequestId) (task : Task) (request : ApiRequest)
    (stage stage' : Stage) (db' : SpaceDb) : World :=
  { s with
    server := ⟨db', Function.update s.server.flights r (some ⟨task.session.token, request, stage'⟩)⟩
    keyOf := keyOfAfter s.keyOf task.pc stage stage'
    handed := handedBy task.pc stage stage' ++ s.handed }

theorem has_served (hf : s.server.flights r = some ⟨task.session.token, request, stage⟩)
    (hans : ∀ a, stage = .answered a → stage' = .answered a) {p : PublicKey} {e : ℕ}
    (h : Has s p e) : Has (s.servedState r task request stage stage' db') p e := by
  rcases h with h | ⟨u, task', hu, hkey, k, ws, f, resp, hpc, hf', hst⟩
  · exact Or.inl h
  · refine Or.inr ⟨u, task', hu, hkey, k, ws, ?_⟩
    by_cases he : task'.awaiting = r
    · rw [he] at hf' ⊢
      obtain rfl := Option.some.inj (hf.symm.trans hf')
      exact ⟨_, resp, hpc, Function.update_self .., hans _ hst⟩
    · exact ⟨f, resp, hpc, (Function.update_of_ne he _ _).trans hf', hst⟩

/-- A device of a client that has sent something was registered before the step. -/
theorem Identified.known (h : Identified s) (hreq : task.pc.request = request)
    (hst : StageIdentified s task stage)
    (heff : Effect task.session.token s.db request stage db' stage') {q : RequestId} {task' : Task}
    (hq : s.sent q = some task') {d' : Device} (hd' : d' ∈ db'.devices)
    (hkey : d'.publicKey = task'.publicKey) : ∃ d ∈ s.db.devices, SameIdentity d d' := by
  rcases heff.membership with ⟨_, hold⟩ | ⟨p, b, device, hr, rfl, hg, rfl⟩
  · exact hold d' hd'
  · rcases completePairing.mem_registered.mp hd' with rfl | ⟨hd, _⟩
    · have hopen := h.opening hst (Pc.eq_linking (hreq.trans hr)) hg
      obtain ⟨c, hc, hsess⟩ := (h.sent q task' hq).1
      rw [← hkey] at hc
      simp [hopen.unopened c hc] at hsess
    · exact ⟨d', hd, .refl d'⟩

/-- The device whose id a handler works for is the device of the client that asked. -/
theorem Identified.caller (h : Identified s) (hst : StageIdentified s task stage)
    {auth : AuthContext} (ha : stage.auth = some auth) {d : Device} (hd : d ∈ s.db.devices) :
    d.id = auth.deviceId ↔ d.publicKey = task.publicKey := by
  obtain ⟨c, hc, hid⟩ := hst.auth auth ha
  obtain ⟨⟨b, hb, hbi⟩, _⟩ := h.devices d hd
  constructor
  · intro he
    exact h.ids _ _ b c hb hc (hbi.trans (he.trans hid))
  · intro he
    rw [he] at hb
    obtain rfl : b = c := Option.some.inj (hb.symm.trans hc)
    exact hbi.symm.trans hid.symm

/-- What a poll is answered: the rows of the device that polls. -/
theorem Delivered.polled (ha : Agreed s) (hi : Identified s) (h : Delivered s)
    (hsent : s.sent r = some task) {auth : AuthContext}
    (hst : StageIdentified s task (.authed auth))
    {d : Device} (hd : d ∈ s.db.devices) (hact : d.active = true)
    (hkey : d.publicKey = task.publicKey)
    {k : PendingKeyDelivery} (hk : k ∈ pendingKeysFor s.db auth.deviceId) {e : ℕ}
    (h₁ : d.nameKeyEpoch ≤ e) (h₂ : e ≤ k.epoch) :
    Has s task.publicKey e ∨ ∃ k' ∈ pendingKeysFor s.db auth.deviceId, k'.epoch = e := by
  have hreached := ha.reached _ _ (ha.rows _ (mem_pendingKeysFor.mp hk))
  rcases h.keys d hd hact e h₁ (h₂.trans hreached) with ⟨_, hu, _⟩ | hh | ⟨row, hrow, he, hid⟩
  · obtain ⟨c, hc, hsess⟩ := (hi.sent r task hsent).1
    simp [hu c (hkey ▸ hc)] at hsess
  · exact Or.inl (hkey ▸ hh)
  · right
    refine ⟨⟨row.epoch, row.wrappedKey⟩, mem_pendingKeysFor.mpr ?_, he⟩
    have hcaller := (hi.caller hst rfl hd).mpr hkey
    rw [← hcaller, ← hid]
    exact hrow

/-- A device that was there before keeps what it had, as long as its rows and its
package stay. -/
theorem Delivered.kept (h : Delivered s)
    (hf : s.server.flights r = some ⟨task.session.token, request, stage⟩)
    (hans : ∀ a, stage = .answered a → stage' = .answered a) {d d' : Device} {e : ℕ}
    (hd : d ∈ s.db.devices) (hsame : SameIdentity d d') (hact : d'.active = true)
    (h₁ : d'.nameKeyEpoch ≤ e) (h₂ : e ≤ s.db.keyEpoch)
    (hpack : ∀ slot ∈ s.db.pairing, slot.newDevice.publicKey = d.publicKey → slot ∈ db'.pairing)
    (hrow : ∀ row ∈ s.db.keyDistribution, row.epoch = e → row.deviceId = d.id →
      row ∈ db'.keyDistribution ∨ Has s d.publicKey e) :
    KeyLeft (s.servedState r task request stage stage' db') d' e := by
  rw [KeyLeft, hsame.publicKey]
  rcases h.keys d hd (hsame.active hact) e (hsame.nameKeyEpoch ▸ h₁) h₂ with
    ⟨he, hu, slot, hslot, hkey, hsl⟩ | hh | ⟨row, hr, he, hid⟩
  · exact Or.inl ⟨he.trans hsame.nameKeyEpoch.symm, hu, slot, hpack slot hslot hkey, hkey, hsl⟩
  · exact Or.inr (Or.inl (has_served hf hans hh))
  · rcases hrow row hr he hid with hr | hh
    · exact Or.inr (Or.inr ⟨row, hr, he, hid.trans hsame.id.symm⟩)
    · exact Or.inr (Or.inl (has_served hf hans hh))

theorem sameIdentity_of_mem_ownAdopted {i : DeviceId} {e p : ℕ} {db db₁ : SpaceDb}
    (hdev : db₁.devices = db.devices) {d' : Device}
    (h : d' ∈ (rotateKey.ownAdopted i e p db₁).devices) : ∃ d ∈ db.devices, SameIdentity d d' := by
  obtain ⟨c, hc, rfl⟩ := rotateKey.mem_ownAdopted.mp h
  refine ⟨c, hdev ▸ hc, ?_⟩
  split_ifs
  · exact ⟨rfl, rfl, rfl, rfl, fun ha => ha⟩
  · exact .refl c

/-- After a rotation the key of the new epoch waits for everyone but the caller,
whose answer is on its way to a task that waits for it. -/
theorem Delivered.keys_rotated (hi : Identified s) (h : Delivered s) {body : RotateKeyRequest}
    {auth : AuthContext} {db₁ : SpaceDb} (hreq : task.pc.request = .rotateKey body)
    (hf : s.server.flights r = some ⟨task.session.token, .rotateKey body, .ready auth⟩)
    (hst : StageIdentified s task (.ready auth))
    (hwait : ∃ t, s.tasks t = some task ∧ task.awaiting = r)
    (hin : rotateKey.Inserted body.epoch auth.groupKeyEpoch body.wraps s.db db₁)
    (hp : rotateKey.Prepared auth body s.db) (hnext : body.epoch = auth.groupKeyEpoch + 1)
    (hdb : db' = { rotateKey.ownAdopted auth.deviceId body.epoch auth.groupKeyEpoch db₁ with
      keyEpoch := body.epoch, rotationPending := false })
    (hstage : stage' = .answered (.rotated ⟨body.epoch, body.wraps.length⟩)) {d' : Device}
    (hd' : d' ∈ db'.devices) (hact : d'.active = true) {e : ℕ} (h₁ : d'.nameKeyEpoch ≤ e)
    (h₂ : e ≤ db'.keyEpoch) :
    KeyLeft (s.servedState r task (.rotateKey body) (.ready auth) stage' db') d' e := by
  have hdev : db'.devices =
      (rotateKey.ownAdopted auth.deviceId body.epoch auth.groupKeyEpoch db₁).devices := by
    rw [hdb]
  obtain ⟨d, hd, hsame⟩ := sameIdentity_of_mem_ownAdopted hin.devices (hdev ▸ hd')
  have hrows : ∀ row, row ∈ db'.keyDistribution ↔ row ∈ db₁.keyDistribution := by
    intro row
    rw [hdb]
    rfl
  have hpair : db'.pairing = s.db.pairing := by
    rw [hdb]
    simp only [rotateKey.ownAdopted]
    rw [hin.frame]
  have hep := hp.epoch
  have hle : e ≤ body.epoch := by simpa [hdb] using h₂
  rcases Nat.lt_or_ge s.db.keyEpoch e with hnew | hold
  · obtain rfl : e = body.epoch := by omega
    right
    by_cases hid : d.id = auth.deviceId
    · left
      obtain ⟨t, ht, haw⟩ := hwait
      obtain ⟨newKey, hpc⟩ := Pc.eq_rotating hreq
      have hkey := (hi.caller hst rfl hd).mp hid
      refine Or.inr ⟨t, task, ht, (hsame.publicKey.trans hkey).symm, newKey, body.wraps,
        ⟨task.session.token, .rotateKey body, stage'⟩, _, hpc, ?_, hstage⟩
      rw [haw]
      exact Function.update_self ..
    · right
      rw [Waits, hsame.id]
      rcases hp.covered d hd (hsame.active hact) hid with ⟨w, hw, hwd⟩ | ⟨row, hrow, hre, hrd⟩
      · have hact_db : s.db.isActive w.deviceId = true :=
          SpaceDb.isActive_iff.mpr ⟨d, hd, hwd.symm, hsame.active hact⟩
        have hland := rotateKey.mem_landing.mpr ⟨hw, hep, hact_db⟩
        exact ⟨rotateKey.keyRow body.epoch w,
          (hrows _).mpr ((hin.mem _).mpr (Or.inr ⟨w, hland, rfl⟩)),
          rfl, hwd⟩
      · exact ⟨row, (hrows row).mpr ((hin.mem row).mpr (Or.inl hrow)), hre, hrd⟩
  · refine h.kept hf (fun _ ha => by cases ha) hd hsame hact h₁ hold ?_ ?_
    · exact fun slot hslot _ => hpair ▸ hslot
    · exact fun row hrow _ _ => Or.inl ((hrows row).mpr ((hin.mem row).mpr (Or.inl hrow)))

/-- An ack drops rows of keys its sender has. -/
theorem Delivered.keys_acked (hi : Identified s) (h : Delivered s) (hsent : s.sent r = some task)
    {epoch : ℕ} {auth : AuthContext} (hreq : task.pc.request = .ackKey epoch)
    (hf : s.server.flights r = some ⟨task.session.token, .ackKey epoch, .ready auth⟩)
    (hst : StageIdentified s task (.ready auth)) {d' : Device}
    (hd' : d' ∈ (ackKey.run auth.deviceId epoch s.db).devices) (hact : d'.active = true) {e : ℕ}
    (h₁ : d'.nameKeyEpoch ≤ e) (h₂ : e ≤ s.db.keyEpoch) :
    KeyLeft (s.servedState r task (.ackKey epoch) (.ready auth) stage'
      (ackKey.run auth.deviceId epoch s.db)) d' e := by
  obtain ⟨d, hd, k, rfl⟩ := ackKey.mem_run_devices hd'
  refine h.kept hf (fun _ ha => nomatch ha) hd ⟨rfl, rfl, rfl, rfl, fun ha => ha⟩ hact h₁ h₂
    (fun _ hslot _ => hslot) ?_
  intro row hrow he hid
  by_cases hdrop : d.id = auth.deviceId ∧ e ≤ epoch
  · right
    obtain ⟨b, hpc⟩ := Pc.eq_acking hreq
    have hkey := (hi.caller hst rfl hd).mp hdrop.1
    rw [hkey]
    exact h.acks r task epoch b hsent hpc d hd hact hkey e h₁ hdrop.2
  · left
    refine ackKey.mem_run_keyDistribution.mpr ⟨hrow, fun hra => ?_⟩
    by_contra hlt
    exact hdrop ⟨hid.symm.trans hra, by omega⟩

/-- A device that is paired has the key of its first epoch in its package. -/
theorem Delivered.keys_paired (hi : Identified s) (h : Delivered s) (hsent : s.sent r = some task)
    {pairingId : PairingId} {body : PairingCompleteBody} {device : SlotDevice}
    (hreq : task.pc.request = .completePairing pairingId body)
    (hf : s.server.flights r =
      some ⟨task.session.token, .completePairing pairingId body, .readyToPair device⟩)
    (hst : StageIdentified s task (.readyToPair device))
    (hg : completePairing.registerGuard pairingId device body s.db = true)
    (hdb : db' =
      completePairing.deposited pairingId body (completePairing.registered device body s.db))
    {d : Device} (hd : d ∈ db'.devices) (hact : d.active = true) {e : ℕ} (h₁ : d.nameKeyEpoch ≤ e)
    (h₂ : e ≤ db'.keyEpoch) :
    KeyLeft (s.servedState r task (.completePairing pairingId body)
      (.readyToPair device) stage' db')
      d e := by
  have hpc := Pc.eq_linking hreq
  have hopen := hi.opening hst hpc hg
  have hslots : ∀ slot, slot ∈ db'.pairing ↔ ∃ old ∈ s.db.pairing, slot =
      if old.pairingId = pairingId then { old with wrappedPackage := some body.wrappedPackage }
      else old := by
    rw [hdb]
    exact fun slot => completePairing.mem_deposited
  rw [hdb] at hd h₂
  rcases completePairing.mem_registered.mp hd with rfl | ⟨hmem, _⟩
  · left
    have he : e = body.keyEpoch := by
      have hup : e ≤ s.db.keyEpoch := h₂
      have hlow : body.keyEpoch ≤ e := h₁
      have hep := hopen.epoch
      omega
    refine ⟨he, hopen.unopened, ?_⟩
    obtain ⟨slot, hslot, hid⟩ := hopen.slot
    have hbody := (hi.sent r task hsent).2
    rw [hpc] at hbody
    obtain ⟨_, key, token, _, _, hpackage, _, _⟩ := hbody
    obtain ⟨_, _, _, hpc', _, _, _, hkey⟩ := hst.device device rfl
    obtain ⟨rfl, rfl⟩ := Pc.linking.inj (hpc.symm.trans hpc')
    refine ⟨{ slot with wrappedPackage := some body.wrappedPackage },
      (hslots _).mpr ⟨slot, hslot, by rw [if_pos hid]⟩, (hopen.own slot hslot).mp hid,
      body.wrappedPackage, rfl, ?_, ?_⟩
    · rw [hpackage]
      exact hkey.symm
    · rw [hpackage, hid]
      rfl
  · refine h.kept hf (fun _ ha => nomatch ha) hmem (.refl d) hact h₁ h₂ ?_ ?_
    · intro slot hslot hkey
      have hother : slot.pairingId ≠ pairingId := by
        intro he
        exact hopen.fresh d hmem (hkey.symm.trans ((hopen.own slot hslot).mp he))
      exact (hslots slot).mpr ⟨slot, hslot, by rw [if_neg hother]⟩
    · rw [hdb]
      exact fun row hrow _ _ => Or.inl hrow

theorem Delivered.keysAfter (hi : Identified s) (h : Delivered s) (hsent : s.sent r = some task)
    (hreq : task.pc.request = request)
    (hf : s.server.flights r = some ⟨task.session.token, request, stage⟩)
    (hst : StageIdentified s task stage)
    (heff : Effect task.session.token s.db request stage db' stage')
    (hans : ∀ a, stage = .answered a → stage' = .answered a)
    (hwhole : WholeFlight s.db ⟨task.session.token, request, stage⟩)
    (hwin : WinningBatch s.db ⟨task.session.token, request, stage⟩ → ∃ t, s.tasks t = some task ∧
      task.awaiting = r) {d : Device} (hd : d ∈ db'.devices) (hact : d.active = true) {e : ℕ}
    (h₁ : d.nameKeyEpoch ≤ e) (h₂ : e ≤ db'.keyEpoch) :
    KeyLeft (s.servedState r task request stage stage' db') d e := by
  have hkeep : ∀ {d' : Device}, d' ∈ s.db.devices → SameIdentity d' d → e ≤ s.db.keyEpoch →
      db'.pairing = s.db.pairing → db'.keyDistribution = s.db.keyDistribution →
      KeyLeft (s.servedState r task request stage stage' db') d e := by
    intro d' hd' hsame hle hp hk
    exact h.kept hf hans hd' hsame hact h₁ hle (fun _ hslot _ => hp ▸ hslot)
      fun _ hrow _ _ => Or.inl (hk ▸ hrow)
  cases heff with
  | rotated hin hp hnext =>
    exact h.keys_rotated hi hreq hf hst (hwin ⟨hp, hin.clear⟩) hin hp hnext rfl rfl hd hact h₁ h₂
  | refused hnd hfin =>
    rcases rotateKey.refused_of_whole hnd hfin hwhole with rfl | rfl
    · exact hkeep hd (.refl d) h₂ rfl rfl
    · obtain ⟨d', hd', hsame⟩ := sameIdentity_of_mem_ownAdopted rfl hd
      exact hkeep hd' hsame h₂ rfl rfl
  | acked => exact h.keys_acked hi hsent hreq hf hst hd hact h₁ h₂
  | revoked =>
    obtain ⟨hmem, hne⟩ := revokeDevice.active_of_mem_run hd hact
    refine h.kept hf (fun _ ha => nomatch ha) hmem (.refl d) hact h₁ h₂ (fun _ hslot _ => hslot) ?_
    intro row hrow _ hid
    exact Or.inl (revokeDevice.mem_run_keyDistribution.mpr ⟨hrow, hid ▸ hne⟩)
  | paired hg _ => exact h.keys_paired hi hsent hreq hf hst hg rfl hd hact h₁ h₂
  | _ => exact hkeep hd (.refl d) h₂ rfl rfl

end

theorem Delivered.serve (hw : Wired s) (ha : Agreed s) (hi : Identified s)
    (h : Delivered s) {now : ℕ} {limited : Bool} (hok : Careful s (.serve r now limited))
    (hs : s.serve r now limited = some s') : Delivered s' := by
  obtain ⟨task, request, stage, db', stage', hsent, hreq, hf, heff, hans, rfl⟩ := hw.served hs
  have hst := hi.stages r task _ hsent hf
  have hwin : WinningBatch s.db ⟨task.session.token, request, stage⟩ → ∃ t, s.tasks t = some task ∧
      task.awaiting = r := by
    intro hb
    obtain ⟨t, task', ht, haw⟩ := hok.undisturbed _ hf hb
    have hsent' := hw.task_sent t task' ht
    rw [haw] at hsent'
    obtain rfl : task = task' := Option.some.inj (hsent.symm.trans hsent')
    exact ⟨t, ht, haw⟩
  have hknown : ∀ {q : RequestId} {task' : Task} {d' : Device}, s.sent q = some task' →
      d' ∈ db'.devices → d'.active = true → d'.publicKey = task'.publicKey →
      ∃ d ∈ s.db.devices, d.active = true ∧ d.publicKey = task'.publicKey ∧
        d.nameKeyEpoch = d'.nameKeyEpoch := by
    intro q task' d' hq hd' hact hkey
    obtain ⟨d, hd, hsame⟩ := hi.known hreq hst heff hq hd' hkey
    exact ⟨d, hd, hsame.active hact, hsame.publicKey.symm.trans hkey, hsame.nameKeyEpoch.symm⟩
  refine ⟨?_, ?_, ?_, ?_⟩
  · intro d hd
    show d.nameKeyEpoch ≤ db'.keyEpoch
    rcases heff.membership with ⟨_, hold⟩ | ⟨p, b, device, hr, rfl, hg, rfl⟩
    · obtain ⟨d', hd', hsame⟩ := hold d hd
      rw [hsame.nameKeyEpoch]
      exact (h.paired d' hd').trans heff.keyEpoch_le
    · rcases completePairing.mem_registered.mp hd with rfl | ⟨hd, _⟩
      · exact (hi.opening hst (Pc.eq_linking (hreq.trans hr)) hg).epoch.ge
      · exact h.paired d hd
  · intro d hd hact e h₁ h₂
    exact h.keysAfter hi hsent hreq hf hst heff hans (hok.whole _ hf) hwin hd hact h₁ h₂
  · intro q task' epoch b hq hpc d' hd' hact hkey e h₁ h₂
    obtain ⟨d, hd, hda, hdk, hdn⟩ := hknown hq hd' hact hkey
    exact has_served hf hans (h.acks q task' epoch b hq hpc d hd hda hdk e (hdn ▸ h₁) h₂)
  · intro q task' g resp hq hg hstage d' hd' hact hkey k hk e h₁ h₂
    obtain ⟨d, hd, hda, hdk, hdn⟩ := hknown hq hd' hact hkey
    by_cases he : q = r
    · subst he
      obtain rfl : task = task' := Option.some.inj (hsent.symm.trans hq)
      simp only [Function.update_self, Option.some.injEq] at hg
      subst hg
      have hserved : Has s task.publicKey e →
          Has (s.servedState q task request stage stage' db') task.publicKey e :=
        has_served hf hans
      have hhas : ∀ {keys : List PendingKeyDelivery},
          (Has s task.publicKey e ∨ ∃ k' ∈ keys, k'.epoch = e) →
          _ ∨ ∃ k' ∈ keys, k'.epoch = e := fun hh => hh.imp_left hserved
      cases heff with
      | same => exact hhas (h.polls q task _ resp hsent hf hstage d hd hda hdk k hk e (hdn ▸ h₁) h₂)
      | checked quiet _ _ =>
        obtain rfl : stage' = _ := hstage
        cases quiet
      | served =>
        obtain rfl := Answer.pending.inj (Stage.answered.inj hstage)
        exact hhas (h.polled ha hi hsent hst hd hda hdk hk (hdn ▸ h₁) h₂)
      | _ => cases hstage
    · simp only [Function.update_of_ne he] at hg
      exact (h.polls q task' g resp hq hg hstage d hd hda hdk k hk e (hdn ▸ h₁) h₂).imp_left
        (has_served hf hans)

theorem delivered_created {groupId : GroupId} {founder : SlotDevice} {pairingId : PairingId}
    {token : Token} {key : GroupKey} {elsewhere : List DeviceId} :
    Delivered (World.created groupId founder pairingId token key elsewhere) := by
  refine ⟨?_, ?_, fun _ _ _ _ h => (nomatch h), fun _ _ _ _ h => (nomatch h)⟩
  · intro d hd
    obtain rfl := Table.mem_singleton.mp hd
    exact le_refl _
  · intro d hd _ e h₁ h₂
    obtain rfl := Table.mem_singleton.mp hd
    have he : e = INITIAL_KEY_EPOCH := Nat.le_antisymm h₂ h₁
    have hself : (World.created groupId founder pairingId token key elsewhere).clients
        founder.publicKey = some (.founding groupId founder pairingId token key) := by
      simp [World.created]
    refine Or.inr (Or.inl (Or.inl ⟨_, hself, _, rfl, ?_⟩))
    exact Option.isSome_iff_exists.mpr ⟨key, keyForEpoch_createKeyring.mpr ⟨he, rfl⟩⟩

theorem delivered_step {l : Label} (hw : Wired s) (ha : Agreed s) (hi : Identified s)
    (h : Delivered s) (hok : Careful s l) (hs : s.step l = some s') : Delivered s' := by
  cases l with
  | join publicKey device pairingId => exact h.join hi hs
  | openPackage publicKey => exact h.openPackage hi hs
  | dropSlot pairingId =>
    obtain rfl := Option.some.inj hs
    exact h.dropSlot hok.undisturbed
  | syncNow t publicKey r =>
    obtain ⟨c, session, ring, hc, _, _, hfree, hs⟩ := syncNow_cases hs
    have hrun : Delivered (s.setClient publicKey { c with running := true }) :=
      h.setClient hc (fun _ hse => hse) fun hn => hn
    exact hrun.send hs (settled_of_none hfree) fun _ _ hpc => nomatch hpc
  | revoke t publicKey deviceId r =>
    obtain ⟨_, _, _, _, _, _, hfree, hs⟩ := revoke_cases hs
    exact h.send hs (settled_of_none hfree) fun _ _ hpc => nomatch hpc
  | addDevice t publicKey joiner token r =>
    obtain ⟨_, _, _, _, _, _, _, _, _, _, _, hfree, hs⟩ := addDevice_cases hs
    exact h.mintToken.send hs (settled_of_none hfree) fun _ _ hpc => nomatch hpc
  | serve r now limited => exact h.serve hw ha hi hok hs
  | resend t r =>
    obtain ⟨task, ht, hs⟩ := resend_cases hs
    refine h.send hs (settled_of_pc ht (hok.undisturbed task ht)) ?_
    exact fun epoch b hpc => h.acks _ task epoch b (hw.task_sent t task ht) hpc
  | giveUp t =>
    obtain ⟨task, ht, rfl⟩ := giveUp_cases hs
    exact h.finish (settled_of_pc ht (hok.undisturbed task ht))
  | receive t r trusted newKey =>
    obtain ⟨task, c, f, a, ht, hc, hf, _, hr⟩ := receive_cases hs
    exact h.received ha (hw.task_sent t task ht) ht hc hf (hok.undisturbed task ht) hr
  | restart publicKey =>
    obtain ⟨c, hc, rfl⟩ := restart_cases hs
    have hload : Delivered (s.setClient publicKey { c with memory := c.saved, running := false }) :=
      h.setClient hc (fun _ hse => hse) fun hn => hn
    refine hload.frame rfl rfl rfl ?_ (fun _ _ hu => Or.inl hu) fun q task' hq => Or.inl ⟨hq, rfl⟩
    intro p e hh
    rcases hh with hh | ⟨u, task, hu, hkey, hwin⟩
    · exact Or.inl hh
    · refine Or.inr ⟨u, task, Option.filter_eq_some_iff.mpr ⟨hu, ?_⟩, hkey, hwin⟩
      rw [decide_eq_true_eq]
      intro he
      exact hok.undisturbed u task hu he e hwin

/-- The device has the key persisted, a row holds it sealed to the device, the
answer that makes the device persist it is on its way, or the device is still to
open the package that holds it. -/
inductive Obtainable (s : World) (d : Device) (e : ℕ) (key : GroupKey) : Prop
  | persisted {c : Client} {ring : Keyring} (client : s.clients d.publicKey = some c)
      (saved : c.saved = some ring) (holds : keyForEpoch ring e = some key)
  | waiting {row : KeyRow} (mem : row ∈ s.db.keyDistribution) (epoch : row.epoch = e)
      (unwraps : unwrapRotatedKey d.publicKey ⟨row.epoch, row.wrappedKey⟩ s.db.groupId d.id =
        some key)
      (own : row.deviceId = d.id)
  | awaited {t : TaskId} {task : Task} {wraps : List KeyWrap} {f : Flight}
      {resp : RotateKeyResponse}
      (running : s.tasks t = some task) (own : task.publicKey = d.publicKey)
      (pc : task.pc = .rotating e key wraps) (flight : s.server.flights task.awaiting = some f)
      (answer : f.stage = .answered (.rotated resp))
  | packaged {slot : PairingSlot} {package : WrappedPackage} {payload : PairingPayload}
      (epoch : e = d.nameKeyEpoch) (unopened : Unopened s d.publicKey) (mem : slot ∈ s.db.pairing)
      (left : slot.wrappedPackage = some package)
      (opens : unwrapPairingPackage d.publicKey package slot.pairingId = some payload)
      (holds : payload.groupKey = key)

theorem KeyLeft.obtainable (hw : Wired s) (ha : Agreed s) (hi : Identified s) {d : Device} {e : ℕ}
    (hd : d ∈ s.db.devices) (h : KeyLeft s d e) :
    ∃ key, s.keyOf e = some key ∧ Obtainable s d e key := by
  rcases h with ⟨rfl, hu, slot, hslot, hkey, p, hp, hrec, hctx⟩ | (⟨c, hc, ring, hring, hsome⟩ |
    ⟨t, task, ht, hkey, k, ws, f, resp, hpc, hf, hst⟩) | ⟨row, hrow, rfl, hid⟩
  · have hepoch := (hi.packages slot hslot p hp).2.2 d hd hkey.symm
    refine ⟨p.payload.groupKey, hepoch ▸ ha.packages slot hslot p hp, ?_⟩
    exact .packaged rfl hu hslot hp (Box.openWith_eq_some.mpr ⟨hrec, hctx, rfl⟩) rfl
  · obtain ⟨k, hk⟩ := Option.isSome_iff_exists.mp hsome
    exact ⟨k, ha.saved _ c ring hc hring e k hk, .persisted hc hring hk⟩
  · have hagree := ha.answers _ task f (hw.task_sent t task ht) hf
    rw [hpc, hst] at hagree
    exact ⟨k, hagree.2, .awaited ht hkey hpc hf hst⟩
  · obtain ⟨d', hd', hid', _, key, hwrap⟩ := hi.rows row hrow
    obtain rfl : d = d' := Table.eq_of_key hd hd' (hid.symm.trans hid'.symm)
    refine ⟨key, ?_, .waiting hrow rfl ?_ hid⟩
    · rw [ha.rows row hrow, hwrap]
      rfl
    · rw [hwrap, unwrapRotatedKey_wrap]

section
variable {groupId : GroupId} {founder : SlotDevice} {pairingId : PairingId} {token : Token}
  {key : GroupKey} {elsewhere : List DeviceId}

theorem identified_of_reachableVia {ok : World → Label → Prop} (hid : founder.id ∉ elsewhere)
    (hok : ∀ s l, ok s l → FreshIdentity s l)
    (h : Runs.ReachableVia step ok
      (World.created groupId founder pairingId token key elsewhere) s) :
    Identified s := by
  apply h.invariant_with (fun _ => wired_of_reachableVia hid) identified_created
  intro s l t hw hi hl hs
  exact identified_step hw hi (hok s l hl) hs

theorem delivered_of_reachableVia (hid : founder.id ∉ elsewhere)
    (h : Runs.ReachableVia step Careful
      (World.created groupId founder pairingId token key elsewhere) s) :
    (Wired s ∧ Agreed s ∧ Identified s) ∧ Delivered s := by
  have hbase : ∀ s, Runs.ReachableVia step Careful
      (World.created groupId founder pairingId token key elsewhere) s → Wired s ∧ Agreed s ∧
      Identified s :=
    fun s hs =>
      ⟨wired_of_reachableVia hid hs, agreed_of_reachableVia hid (hs.mono fun _ _ hl => hl.whole),
      identified_of_reachableVia hid (fun _ _ hl => hl.fresh) hs⟩
  refine ⟨hbase s h, h.invariant_with hbase delivered_created ?_⟩
  intro s l t hb hd hok hs
  exact delivered_step hb.1 hb.2.1 hb.2.2 hd hok hs

/-- In every careful run, every active device has or can still get the key of every
epoch from the one it was paired at up to the group's. -/
theorem no_device_stranded (hid : founder.id ∉ elsewhere)
    (h : Runs.ReachableVia step Careful
      (World.created groupId founder pairingId token key elsewhere) s) :
    ∀ d ∈ s.db.devices, d.active = true → ∀ e, d.nameKeyEpoch ≤ e → e ≤ s.db.keyEpoch →
      ∃ key, s.keyOf e = some key ∧ Obtainable s d e key := by
  obtain ⟨⟨hw, ha, hi⟩, hdel⟩ := delivered_of_reachableVia hid h
  intro d hd hact e h₁ h₂
  exact (hdel.keys d hd hact e h₁ h₂).obtainable hw ha hi hd

end

/-- A check that a step is careful, for runs in which nothing is lost. -/
def carefulStep (s : World) (l : Label) : Bool :=
  decide (WholeBatch s l) &&
    match l with
    | .join _ device pairingId => s.joined.all fun q => decide (q.1 ≠ device.id ∧ q.2 ≠ pairingId)
    | .serve r _ _ => (List.range 32).any fun t => (s.tasks t).any fun task =>
        decide (task.awaiting = r)
    | .receive t _ _ _ => (s.tasks t).all fun task => (s.clients task.publicKey).all fun c =>
        c.saved.all fun ring => ring.keys.all fun p => decide (keyForEpoch task.ring p.1 = some p.2)
    | .resend _ _ | .giveUp _ | .restart _ | .dropSlot _ => false
    | _ => true

theorem careful_of_carefulStep {l : Label} (h : carefulStep s l = true) : Careful s l := by
  simp only [carefulStep, Bool.and_eq_true, decide_eq_true_eq] at h
  obtain ⟨hwhole, h⟩ := h
  cases l with
  | join publicKey device pairingId =>
    refine ⟨hwhole, ?_, trivial⟩
    intro q hq
    simpa using List.all_eq_true.mp h q hq
  | serve r now limited =>
    refine ⟨hwhole, trivial, ?_⟩
    intro _ _ _
    obtain ⟨t, _, ht⟩ := List.any_eq_true.mp h
    obtain ⟨task, hts, haw⟩ := (Option.any_eq_true _ _).mp ht
    exact ⟨t, task, hts, of_decide_eq_true haw⟩
  | receive t r trusted newKey =>
    refine ⟨hwhole, trivial, ?_⟩
    intro task ht _ c ring hc hring e he
    simp only [ht, hc, hring, Option.all_some, List.all_eq_true, decide_eq_true_eq] at h
    obtain ⟨k, hk⟩ := Option.isSome_iff_exists.mp he
    obtain ⟨l₁, l₂, hl, _⟩ := List.lookup_eq_some_iff.mp hk
    exact .inl (Option.isSome_iff_exists.mpr ⟨k, h (e, k) (by rw [hl]; simp)⟩)
  | resend t r => cases h
  | giveUp t => cases h
  | restart p => cases h
  | dropSlot p => cases h
  | _ => exact ⟨hwhole, trivial, trivial⟩

theorem no_device_stranded_wholeRun :
    ∃ s, Runs.replayVia step (fun s l => carefulStep s l = true) splitStart wholeRun = some s ∧
      ∀ d ∈ s.db.devices, d.active = true → ∀ e, d.nameKeyEpoch ≤ e → e ≤ s.db.keyEpoch →
        ∃ key, s.keyOf e = some key ∧ Obtainable s d e key := by
  obtain ⟨s, hs⟩ := Option.isSome_iff_exists.mp (by decide +kernel : (Runs.replayVia step
    (fun s l => carefulStep s l = true) splitStart wholeRun).isSome = true)
  have hrun : Runs.ReachableVia step Careful splitStart s :=
    (Runs.reachableVia_of_replayVia hs).mono fun _ _ => careful_of_carefulStep
  exact ⟨s, hs, no_device_stranded (by decide) hrun⟩

def strandedRun : List Label :=
  linking 1 102 2 52 12 ++ linking 2 103 3 53 13 ++
  [.revoke 4 101 3 4, .serve 4 0 false, .serve 4 0 false, .serve 4 9 false, .receive 4 5 true 0,
   .serve 5 0 false, .serve 5 0 false, .receive 4 6 true 2001,
   .serve 6 0 false, .serve 6 0 false, .serve 6 0 false,
   .resend 4 7, .serve 7 0 false, .receive 4 0 true 0]

theorem device_stranded :
    ∃ s, Runs.Reachable step splitStart s ∧ ∃ d ∈ s.db.devices, d.active = true ∧
    d.nameKeyEpoch ≤ 2 ∧ 2 ≤ s.db.keyEpoch ∧ ∀ key, ¬ Obtainable s d 2 key := by
  obtain ⟨s, hs, ⟨d, hd, hid, hkey, hact, hname⟩, hep, hc, hrows⟩ :=
    @Runs.exists_reachable_of_replay _ _ step splitStart strandedRun
      (fun s =>
        (∃ d ∈ s.db.devices, d.id = 1 ∧ d.publicKey = 101 ∧ d.active = true ∧ d.nameKeyEpoch = 1) ∧
        s.db.keyEpoch = 2 ∧ ((s.clients 101).any fun c =>
          c.saved.all fun ring => decide (keyForEpoch ring 2 = none)) = true ∧
        ∀ row ∈ s.db.keyDistribution, row.deviceId ≠ 1) _ (by decide +kernel)
  obtain ⟨c, hc, hsaved⟩ := (Option.any_eq_true _ _).mp hc
  have hclose : s.step (.restart 101) = some ({ s with
      tasks := fun t => (s.tasks t).filter fun task => decide (task.publicKey ≠ 101) }.setClient 101
        { c with memory := c.saved, running := false }) := by
    simp only [step, restart, hc, Option.map_some]
  refine ⟨_, .next hs trivial hclose, d, hd, hact, by omega, hep.ge, fun key ho => ?_⟩
  cases ho with
  | @persisted c' ring client saved holds =>
    rw [hkey, setClient_self] at client
    obtain rfl := Option.some.inj client
    have hring : c.saved = some ring := saved
    rw [hring, Option.all_some, decide_eq_true_eq] at hsaved
    simp [hsaved] at holds
  | waiting mem epoch unwraps own => exact hrows _ mem (own.trans hid)
  | awaited running own =>
    obtain ⟨_, hne⟩ := Option.filter_eq_some_iff.mp running
    exact of_decide_eq_true hne (own.trans hkey)
  | packaged epoch => omega

end SendSelf.World
