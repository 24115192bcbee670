import SendSelf.Keys.Contexts

/-!
# No context loses another one's keys

As long as what is stored only grows, every copy of the keyring is part of it, and so is
every key that was acked or rotated to.
-/
namespace SendSelf.SharedDevice

open WriteOnce

/-- What a pass is about to store has all of its own copy, and the epoch it rotates to is new. -/
structure PassSound (pass : Pass) : Prop where
  storing : ∀ updated, pass.pc.storing = some updated →
    Below (keyForEpoch pass.ring) (keyForEpoch updated)
  adopting : ∀ updated highest rotationPending,
    pass.pc = .adopting updated highest rotationPending → 0 < highest →
      ∃ key, keyForEpoch updated highest = some key
  rotating : ∀ epoch newKey wraps, pass.pc = .waiting (.rotating epoch newKey wraps) →
    keyForEpoch pass.ring epoch = none

structure Sound (w : SharedDevice) : Prop where
  server : w.server.Sound
  memory : ∀ c x, w.contexts c = some x → Below (keyForEpoch x.memory) (keyForEpoch w.stored)
  ring : ∀ t pass, w.passes t = some pass → Below (keyForEpoch pass.ring) (keyForEpoch w.stored)
  pass_sent : ∀ t pass pc, w.passes t = some pass → pass.pc = .waiting pc →
    w.sent pass.awaiting = some pass
  sent_flight : ∀ r pass, w.sent r = some pass → ∃ pc stage, pass.pc = .waiting pc ∧
    w.server.flights r = some ⟨w.session.token, pc.request, stage⟩
  passes : ∀ t pass, w.passes t = some pass → PassSound pass
  epoch : ∀ r f body resp, w.server.flights r = some f → f.request = .rotateKey body →
    f.stage = .answered (.rotated resp) → resp.epoch = body.epoch
  kept : w.Kept

variable {w w' : SharedDevice} {t : TaskId} {r : RequestId} {pass : Pass} {c : ContextId}

/-- The pass may go on: what it is about to store is stored. -/
def Leaves (w : SharedDevice) (t : TaskId) : Prop :=
  ∀ r epoch newKey, w.AdoptsAt t r epoch newKey → w.Landed r →
  keyForEpoch w.stored epoch = some newKey

theorem leaves_of_none (h : w.passes t = none) : w.Leaves t :=
  fun _ _ _ ⟨_, hp, _⟩ => by simp [h] at hp

theorem leaves_of_not_won (h : ∀ pass, w.passes t = some pass → ¬ w.Won pass) : w.Leaves t := by
  intro r epoch newKey ⟨pass, hp, hr, hpc⟩ hlanded
  refine absurd ?_ (h pass hp)
  rcases hpc with ⟨wraps, hpc⟩ | ⟨updated, hpc, _⟩
  · exact Or.inl ⟨⟨epoch, newKey, wraps, hpc⟩, hr ▸ hlanded⟩
  · exact Or.inr ⟨updated, hpc⟩

theorem adoptsAt_setPass_ne {x : Option Pass} {u : TaskId} (hu : u ≠ t) {epoch : ℕ}
    {newKey : GroupKey} :
    (w.setPass t x).AdoptsAt u r epoch newKey ↔ w.AdoptsAt u r epoch newKey := by
  simp only [AdoptsAt, setPass, Function.update_of_ne hu]

theorem Sound.setContext (h : Sound w) {x : Option KeyContext}
    (hx : ∀ y ∈ x, Below (keyForEpoch y.memory) (keyForEpoch w.stored)) :
    Sound (w.setContext c x) where
  server := h.server
  memory := fun c' y hy => (update_eq_some.mp hy).elim (fun hnew => hx y hnew.2) fun hold =>
    h.memory c' y hold.2
  ring := h.ring
  pass_sent := h.pass_sent
  sent_flight := h.sent_flight
  passes := h.passes
  epoch := h.epoch
  kept := ⟨h.kept.acked, h.kept.rotated⟩

theorem Sound.remember (h : Sound w) {ring : Keyring}
    (hring : Below (keyForEpoch ring) (keyForEpoch w.stored)) :
    Sound (w.remember c ring) := by
  unfold SharedDevice.remember
  split
  · exact h.setContext fun y hy => Option.some.inj hy ▸ hring
  · exact h

/-- A pass is replaced. -/
theorem Sound.setPass (h : Sound w) {x : Option Pass}
    (hring : ∀ pass ∈ x, Below (keyForEpoch pass.ring) (keyForEpoch w.stored))
    (hsent : ∀ pass ∈ x, ∀ pc, pass.pc = .waiting pc → w.sent pass.awaiting = some pass)
    (hsound : ∀ pass ∈ x, PassSound pass)
    (hkeeps : ∀ r epoch newKey, w.AdoptsAt t r epoch newKey → w.Landed r →
      keyForEpoch w.stored epoch = some newKey ∨ (w.setPass t x).AdoptsAt t r epoch newKey) :
    Sound (w.setPass t x) := by
  have hcases : ∀ u pass, (w.setPass t x).passes u = some pass → (u = t ∧ pass ∈ x) ∨
      w.passes u = some pass :=
    fun u pass hu => (update_eq_some.mp hu).imp_right And.right
  refine ⟨h.server, h.memory, fun u pass hu => ?_, fun u pass pc hu hpc => ?_, h.sent_flight,
    fun u pass hu => ?_, h.epoch, h.kept.acked, fun r pass epoch newKey wraps hs hpc hlanded => ?_⟩
  · rcases hcases u pass hu with ⟨_, hx⟩ | hold
    · exact hring pass hx
    · exact h.ring u pass hold
  · rcases hcases u pass hu with ⟨_, hx⟩ | hold
    · exact hsent pass hx pc hpc
    · exact h.pass_sent u pass pc hold hpc
  · rcases hcases u pass hu with ⟨_, hx⟩ | hold
    · exact hsound pass hx
    · exact h.passes u pass hold
  · rcases h.kept.rotated r pass epoch newKey wraps hs hpc hlanded with hstored | ⟨u, hu⟩
    · exact Or.inl hstored
    · by_cases hut : u = t
      · subst hut
        exact (hkeeps r epoch newKey hu hlanded).imp_right fun hnew => ⟨u, hnew⟩
      · exact Or.inr ⟨u, (adoptsAt_setPass_ne hut).mpr hu⟩

theorem Sound.finish (h : Sound w) (hleaves : w.Leaves t) : Sound (w.finish t pass) := by
  have hend :
      Sound (w.setPass t none) := h.setPass nofun nofun nofun fun r epoch newKey hu hlanded =>
    Or.inl (hleaves r epoch newKey hu hlanded)
  unfold SharedDevice.finish
  dsimp only
  split
  · rename_i x _ hx
    exact hend.setContext fun y hy => Option.some.inj hy ▸ h.memory _ x hx
  · exact hend

/-- A request goes out. -/
theorem Sound.send (h : Sound w) {pc : Pc} {attempt : ℕ}
    (hsend : w.send t pass pc attempt r = some w')
    (hleaves : w.Leaves t) (hring : Below (keyForEpoch pass.ring) (keyForEpoch w.stored))
    (hack : ∀ epoch rotationPending, pc = .acking epoch rotationPending → ∃ key,
      keyForEpoch pass.ring epoch = some key)
    (hnew : ∀ epoch newKey wraps, pc = .rotating epoch newKey wraps →
      keyForEpoch pass.ring epoch = none) : Sound w' := by
  obtain ⟨server, hserver, rfl⟩ := Option.map_eq_some_iff.mp hsend
  have hstep : w.server.step (.receive r w.session.token pc.request) = some server := hserver
  unfold Server.receive at hserver
  split at hserver
  · rename_i hfree
    obtain rfl := Option.some.inj hserver
    have hother : ∀ q x, w.sent q = some x → q ≠ r := by
      intro q x hq he
      obtain ⟨_, _, _, hf⟩ := h.sent_flight q x hq
      simp [he, hfree] at hf
    have hsent : ∀ q x,
        Function.update w.sent r (some { pass with pc := .waiting pc, attempt, awaiting := r }) q =
          some x →
        (q = r ∧ { pass with pc := .waiting pc, attempt, awaiting := r } = x) ∨
        (q ≠ r ∧ w.sent q = some x) :=
      fun q x hq => (update_eq_some.mp hq).imp_left fun hnew => ⟨hnew.1, Option.some.inj hnew.2⟩
    have hpasses : ∀ u x,
        Function.update w.passes t (some { pass with pc := .waiting pc, attempt, awaiting := r })
          u = some x →
        (u = t ∧ { pass with pc := .waiting pc, attempt, awaiting := r } = x) ∨
        (u ≠ t ∧ w.passes u = some x) :=
      fun u x hu => (update_eq_some.mp hu).imp_left fun hnew => ⟨hnew.1, Option.some.inj hnew.2⟩
    refine ⟨(h.server.step hstep).1, h.memory, fun u x hu => ?_, fun u x pc' hu hpc => ?_,
      fun q x hq => ?_,
      fun u x hu => ?_, fun q f body resp hq hbody hst => ?_,
      fun q x epoch b hq hpc => ?_, fun q x epoch newKey wraps hq hpc hlanded => ?_⟩
    · rcases hpasses u x hu with ⟨_, rfl⟩ | ⟨_, hold⟩
      · exact hring
      · exact h.ring u x hold
    · rcases hpasses u x hu with ⟨_, rfl⟩ | ⟨_, hold⟩
      · exact Function.update_self ..
      · have hold := h.pass_sent u x pc' hold hpc
        exact (Function.update_of_ne (hother _ x hold) ..).trans hold
    · rcases hsent q x hq with ⟨rfl, rfl⟩ | ⟨hqr, hold⟩
      · exact ⟨pc, .received, rfl, Function.update_self ..⟩
      · obtain ⟨pc', stage, hpc, hf⟩ := h.sent_flight q x hold
        exact ⟨pc', stage, hpc, (Function.update_of_ne hqr ..).trans hf⟩
    · rcases hpasses u x hu with ⟨_, rfl⟩ | ⟨_, hold⟩
      · exact ⟨nofun, nofun, fun epoch k ws hpc => hnew epoch k ws (PassPc.waiting.inj hpc)⟩
      · exact h.passes u x hold
    · rcases update_eq_some.mp hq with ⟨_, hnew⟩ | ⟨_, hold⟩
      · obtain rfl := Option.some.inj hnew
        cases hst
      · exact h.epoch q f body resp hold hbody hst
    · rcases hsent q x hq with ⟨rfl, rfl⟩ | ⟨_, hold⟩
      · obtain ⟨key, hkey⟩ := hack epoch b (PassPc.waiting.inj hpc)
        exact ⟨key, hkey, hring epoch key hkey⟩
      · exact h.kept.acked q x epoch b hold hpc
    · obtain ⟨f, resp, hf, hst⟩ := hlanded
      rcases update_eq_some.mp hf with ⟨_, hnew⟩ | ⟨hqr, hf⟩
      · obtain rfl := Option.some.inj hnew
        cases hst
      · have hold := (hsent q x hq).resolve_left fun he => hqr he.1
        have hlanded : w.Landed q := ⟨f, resp, hf, hst⟩
        rcases h.kept.rotated q x epoch newKey wraps hold.2 hpc hlanded with hstored | ⟨u, hu⟩
        · exact Or.inl hstored
        · by_cases hut : u = t
          · subst hut
            exact Or.inl (hleaves q epoch newKey hu hlanded)
          · obtain ⟨y, hy, hrest⟩ := hu
            exact Or.inr ⟨u, y, (Function.update_of_ne hut ..).trans hy, hrest⟩
  · cases hserver

/-- A keyring that has all of the old one is stored. -/
theorem Sound.store (h : Sound w) {ring : Keyring}
    (hbelow : Below (keyForEpoch w.stored) (keyForEpoch ring)) :
    Sound { w with stored := ring } where
  server := h.server
  memory := fun c x hx => (h.memory c x hx).trans hbelow
  ring := fun u pass hu => (h.ring u pass hu).trans hbelow
  pass_sent := h.pass_sent
  sent_flight := h.sent_flight
  passes := h.passes
  epoch := h.epoch
  kept := ⟨fun q x epoch b hq hpc => by
      obtain ⟨key, hkey, hstored⟩ := h.kept.acked q x epoch b hq hpc
      exact ⟨key, hkey, hbelow epoch key hstored⟩,
    fun q x epoch newKey wraps hq hpc hlanded =>
      (h.kept.rotated q x epoch newKey wraps hq hpc hlanded).imp_left (hbelow epoch newKey)⟩

theorem Sound.afterAdopting (h : Sound w) {kind : ContextKind} {rotationPending : Bool}
    (hstep : w.afterAdopting t pass kind rotationPending r = some w') (hleaves : w.Leaves t)
    (hring : Below (keyForEpoch pass.ring) (keyForEpoch w.stored)) : Sound w' := by
  unfold SharedDevice.afterAdopting at hstep
  split_ifs at hstep
  · exact h.send hstep hleaves hring nofun nofun
  · exact Option.some.inj hstep ▸ h.finish hleaves

theorem leaves_remember {ring : Keyring} (h : w.Leaves t) : (w.remember c ring).Leaves t := by
  unfold SharedDevice.remember
  split <;> exact h

theorem remember_stored (ring : Keyring) : (w.remember c ring).stored = w.stored := by
  unfold SharedDevice.remember
  split <;> rfl

theorem Sound.ackKeys (h : Sound w) {kind : ContextKind} {highest : ℕ} {rotationPending : Bool}
    (hstep : w.ackKeys t pass kind highest rotationPending r = some w') (hleaves : w.Leaves t)
    (hring : Below (keyForEpoch pass.ring) (keyForEpoch w.stored))
    (hhighest : 0 < highest → ∃ key, keyForEpoch pass.ring highest = some key) : Sound w' := by
  unfold SharedDevice.ackKeys at hstep
  split_ifs at hstep with hpos
  · refine h.send hstep hleaves hring (fun epoch b hpc => ?_) nofun
    obtain ⟨rfl, _⟩ := Pc.acking.inj hpc
    exact hhighest hpos
  · exact (h.remember hring).afterAdopting hstep (leaves_remember hleaves)
      (by rwa [remember_stored])

theorem updated_highest {key : PublicKey} {session : Session} {ring updated : Keyring}
    {ds : List PendingKeyDelivery}
    {highest : ℕ} (h : adoptPendingKeys.updated key session ring ds = some (updated, highest))
    (hpos : 0 < highest) :
    ∃ k, keyForEpoch updated highest = some k := by
  obtain ⟨hholds, hhighest⟩ := adoptPendingKeys.updated_holds h
  obtain ⟨d, hd, rfl⟩ := hhighest.resolve_left hpos.ne'
  exact Option.isSome_iff_exists.mp (hholds d hd)

theorem leaves_of_pc (hp : w.passes t = some pass) {pc : Pc} (hpc : pass.pc = .waiting pc)
    (hno : ∀ epoch newKey wraps, pc ≠ .rotating epoch newKey wraps) : w.Leaves t := by
  refine leaves_of_not_won fun x hx hwon => ?_
  obtain rfl := Option.some.inj (hp.symm.trans hx)
  rcases hwon with ⟨⟨epoch, newKey, wraps, hrotating⟩, _⟩ | ⟨updated, haccepted⟩
  · exact hno epoch newKey wraps (PassPc.waiting.inj (hpc.symm.trans hrotating))
  · cases hpc.symm.trans haccepted

/-- The pass was answered, and not that its rotation went through. -/
theorem leaves_of_answer (hp : w.passes t = some pass) {pc : Pc} (hpc : pass.pc = .waiting pc)
    {f : Flight}
    (hf : w.server.flights pass.awaiting = some f) {a : Answer} (ha : f.stage = .answered a)
    (hno : ∀ resp, a ≠ .rotated resp) : w.Leaves t := by
  refine leaves_of_not_won fun x hx hwon => ?_
  obtain rfl := Option.some.inj (hp.symm.trans hx)
  rcases hwon with ⟨_, f', resp, hf', hst⟩ | ⟨updated, haccepted⟩
  · obtain rfl := Option.some.inj (hf.symm.trans hf')
    exact hno resp (Stage.answered.inj (ha.symm.trans hst))
  · cases hpc.symm.trans haccepted

theorem Sound.adopt (h : Sound w) (hp : w.passes t = some pass) (hpc : pass.pc = .waiting .polling)
    {kind : ContextKind}
    {resp : PendingMessagesResponse} (hstep : w.adopt t pass kind resp r = some w') : Sound w' := by
  have hleaves : w.Leaves t := leaves_of_pc hp hpc nofun
  have hring := h.ring t pass hp
  unfold SharedDevice.adopt at hstep
  split_ifs at hstep with hnone
  · exact h.afterAdopting hstep hleaves hring
  · split at hstep
    · exact Option.some.inj hstep ▸ h.finish hleaves
    · rename_i updated highest hupdated
      split_ifs at hstep with hsame
      · exact h.ackKeys hstep hleaves hring fun hpos => hsame.2 ▸ updated_highest hupdated hpos
      · obtain rfl := Option.some.inj hstep
        refine h.setPass (fun x hx => Option.some.inj hx ▸ hring) (fun x hx pc hpc => ?_)
          (fun x hx => ?_)
          fun r epoch newKey hu hlanded => Or.inl (hleaves r epoch newKey hu hlanded)
        · obtain rfl := Option.some.inj hx
          cases hpc
        · obtain rfl := Option.some.inj hx
          refine ⟨fun ring hring => ?_, fun ring e b hpc hpos => ?_, nofun⟩
          · obtain rfl := Option.some.inj hring
            exact adoptPendingKeys.updated_below hupdated
          · obtain ⟨rfl, rfl, _⟩ := PassPc.adopting.inj hpc
            exact updated_highest hupdated hpos

theorem Sound.receive (h : Sound w) {trusted : Bool} {newKey : GroupKey}
    (hok : w.Careful (.receive t r trusted newKey))
    (hstep : w.receive t r trusted newKey = some w') : Sound w' := by
  simp only [SharedDevice.receive, Option.bind_eq_bind, Option.bind_eq_some_iff] at hstep
  obtain ⟨pass, hp, x, hx, f, hf, hstep⟩ := hstep
  have hring := h.ring t pass hp
  split at hstep
  · rename_i pc e hpc hst
    split_ifs at hstep
    exact Option.some.inj hstep ▸ h.finish (leaves_of_answer hp hpc hf hst nofun)
  · rename_i resp hpc hst
    exact h.adopt hp hpc hstep
  · rename_i epoch rotationPending hpc hst
    exact (h.remember hring).afterAdopting hstep (leaves_remember (leaves_of_pc hp hpc nofun))
      (by rwa [remember_stored])
  · rename_i resp hpc hst
    unfold SharedDevice.rotate at hstep
    split_ifs at hstep
    · exact Option.some.inj hstep ▸ h.finish (leaves_of_pc hp hpc nofun)
    · refine h.send hstep (leaves_of_pc hp hpc nofun) hring nofun fun epoch k ws hrotating => ?_
      obtain ⟨rfl, _, _⟩ := Pc.rotating.inj hrotating
      exact hok pass hp f hf resp hst
  · rename_i epoch key wraps resp hpc hst
    obtain rfl := Option.some.inj hstep
    have hanswer : resp.epoch = epoch := by
      obtain ⟨pc, stage, hpc', hf'⟩ := h.sent_flight _ _ (h.pass_sent t pass _ hp hpc)
      obtain rfl := PassPc.waiting.inj (hpc.symm.trans hpc')
      obtain rfl := Option.some.inj (hf.symm.trans hf')
      exact h.epoch _ _ _ resp hf' rfl hst
    refine h.setPass (fun y hy => Option.some.inj hy ▸ hring) (fun y hy pc hpc => ?_)
      (fun y hy => ?_)
      fun q epoch' newKey' hu _ => ?_
    · obtain rfl := Option.some.inj hy
      cases hpc
    · obtain rfl := Option.some.inj hy
      refine ⟨fun updated hupdated => ?_, nofun, nofun⟩
      obtain rfl := Option.some.inj hupdated
      rw [hanswer, keyForEpoch_withEpoch]
      exact below_record key ((h.passes t pass hp).rotating epoch key wraps hpc)
    · obtain ⟨y, hy, hq, hcase⟩ := hu
      obtain rfl := Option.some.inj (hp.symm.trans hy)
      rcases hcase with ⟨wraps', hrotating⟩ | ⟨updated, haccepted, _⟩
      · obtain ⟨rfl, rfl, rfl⟩ := Pc.rotating.inj (PassPc.waiting.inj (hpc.symm.trans hrotating))
        refine Or.inr ⟨_, Function.update_self .., hq, Or.inr ⟨_, rfl, ?_⟩⟩
        rw [hanswer, keyForEpoch_withEpoch]
        exact record_self
      · cases hpc.symm.trans haccepted
  · rename_i deviceId hpc hst
    exact h.send hstep (leaves_of_pc hp hpc nofun) (h.memory _ x hx) nofun nofun
  · cases hstep

theorem Sound.save (h : Sound w) (hok : w.Careful (.save t r)) (hstep : w.save t r = some w') :
    Sound w' := by
  simp only [SharedDevice.save, Option.bind_eq_bind, Option.bind_eq_some_iff] at hstep
  obtain ⟨pass, hp, x, hx, hstep⟩ := hstep
  have hbelow : ∀ updated, pass.pc.storing = some updated →
      Below (keyForEpoch w.stored) (keyForEpoch updated) := by
    intro updated hupdated
    rcases hok pass hp with hcurrent | hsame
    · exact hcurrent ▸ (h.passes t pass hp).storing updated hupdated
    · exact Option.some.inj (hsame.symm.trans hupdated) ▸ Below.refl _
  split at hstep
  · rename_i updated highest rotationPending hpc
    have hstore := h.store (hbelow updated (congrArg PassPc.storing hpc))
    refine hstore.ackKeys hstep (leaves_of_not_won fun y hy hwon => ?_) (Below.refl _)
      ((h.passes t pass hp).adopting updated highest rotationPending hpc)
    obtain rfl := Option.some.inj (hp.symm.trans hy)
    rcases hwon with ⟨⟨_, _, _, hrotating⟩, _⟩ | ⟨_, haccepted⟩
    · cases hpc.symm.trans hrotating
    · cases hpc.symm.trans haccepted
  · rename_i updated hpc
    obtain rfl := Option.some.inj hstep
    have hstore := h.store (hbelow updated (congrArg PassPc.storing hpc))
    refine (hstore.remember (Below.refl _)).finish (leaves_remember fun q epoch newKey hu _ => ?_)
    obtain ⟨y, hy, _, hcase⟩ := hu
    obtain rfl := Option.some.inj (hp.symm.trans hy)
    rcases hcase with ⟨_, hrotating⟩ | ⟨_, haccepted, hkey⟩
    · cases hpc.symm.trans hrotating
    · obtain rfl := PassPc.accepted.inj (hpc.symm.trans haccepted)
      exact hkey
  · cases hstep

/-- What the server does apart from the requests on their way. -/
theorem Sound.withServer (h : Sound w) {server : Server} (hserver : server.Sound)
    (hflights : server.flights = w.server.flights) : Sound { w with server } where
  server := hserver
  memory := h.memory
  ring := h.ring
  pass_sent := h.pass_sent
  sent_flight := fun q x hq => hflights ▸ h.sent_flight q x hq
  passes := h.passes
  epoch := fun q f body resp hq => h.epoch q f body resp (hflights ▸ hq)
  kept := ⟨h.kept.acked, fun q x epoch newKey wraps hq hpc ⟨f, resp, hf, hst⟩ =>
    h.kept.rotated q x epoch newKey wraps hq hpc ⟨f, resp, hflights ▸ hf, hst⟩⟩

/-- A request of another device arrives. -/
theorem Sound.arrives (h : Sound w) {token : Token} {request : ApiRequest} {server : Server}
    (hstep : w.server.step (.receive r token request) = some server) : Sound { w with server } := by
  have hserver := (h.server.step hstep).1
  simp only [Server.step, Server.receive] at hstep
  split at hstep
  · rename_i hfree
    obtain rfl := Option.some.inj hstep
    have hne : ∀ q x, w.sent q = some x → q ≠ r := by
      intro q x hq he
      obtain ⟨_, _, _, hf⟩ := h.sent_flight q x hq
      simp [he, hfree] at hf
    refine ⟨hserver, h.memory, h.ring, h.pass_sent, fun q x hq => ?_, h.passes,
      fun q f body resp hq hbody hst => ?_,
      h.kept.acked, fun q x epoch newKey wraps hq hpc hans => ?_⟩
    · obtain ⟨pc, stage, hpc, hf⟩ := h.sent_flight q x hq
      exact ⟨pc, stage, hpc, (Function.update_of_ne (hne q x hq) ..).trans hf⟩
    · rcases update_eq_some.mp hq with ⟨_, hnew⟩ | ⟨_, hold⟩
      · obtain rfl := Option.some.inj hnew
        cases hst
      · exact h.epoch q f body resp hold hbody hst
    · obtain ⟨f, resp, hf, hst⟩ := hans
      rcases update_eq_some.mp hf with ⟨he, _⟩ | ⟨_, hold⟩
      · exact absurd he (hne q x hq)
      · exact h.kept.rotated q x epoch newKey wraps hq hpc ⟨f, resp, hold, hst⟩
  · cases hstep

/-- The server goes on with a request. -/
theorem Sound.advances (h : Sound w) {now : ℕ} {limited : Bool} {server : Server}
    (hok : w.Careful (.server (.advance r now limited)))
    (hstep : w.server.step (.advance r now limited) = some server) :
    Sound { w with server } := by
  have hserver := (h.server.step hstep).1
  obtain ⟨f, hf, rfl⟩ := Option.map_eq_some_iff.mp hstep
  have heff : Effect f.token w.server.db f.request f.stage
      (f.request.advance now limited f.token w.server.db f.stage).1
      (f.request.advance now limited f.token w.server.db f.stage).2 := h.server.effect hf
  have hans : ∀ a, f.stage = .answered a →
      (f.request.advance now limited f.token w.server.db f.stage).2 = .answered a :=
    fun a ha => by rw [ha, ApiRequest.advance_answered]
  generalize f.request.advance now limited f.token w.server.db f.stage = next at hserver heff hans ⊢
  obtain ⟨db', stage'⟩ := next
  have hrotated : ∀ resp, stage' = .answered (.rotated resp) →
      (∃ resp, f.stage = .answered (.rotated resp)) ∨
      World.WinningBatch w.server.db f := by
    intro resp hst
    by_cases hwas : ∃ a, f.stage = .answered a
    · obtain ⟨a, ha⟩ := hwas
      have hsame := (hans a ha).symm.trans hst
      exact Or.inl ⟨resp, ha.trans hsame⟩
    · refine Or.inr ?_
      obtain ⟨token, request, stage⟩ := f
      dsimp only at heff hwas hst
      subst hst
      cases heff with
      | same => exact absurd ⟨_, rfl⟩ hwas
      | checked quiet => exact quiet.elim
      | rotated inserted prepared next => exact ⟨prepared, inserted.clear⟩
  have hepoch : ∀ body resp, f.request = .rotateKey body → stage' = .answered (.rotated resp) →
      resp.epoch = body.epoch := by
    intro body resp hbody hst
    obtain ⟨token, request, stage⟩ := f
    dsimp only at heff hbody hst
    subst hbody hst
    cases heff with
    | same => exact h.epoch r _ body resp hf rfl rfl
    | checked quiet => exact quiet.elim
    | rotated => rfl
  refine ⟨hserver, h.memory, h.ring, h.pass_sent, fun q x hq => ?_, h.passes,
    fun q g body resp hq hbody hst => ?_,
    h.kept.acked, fun q x epoch newKey wraps hq hpc ⟨g, resp, hg, hst⟩ => ?_⟩
  · obtain ⟨pc, stage, hpc, hfq⟩ := h.sent_flight q x hq
    by_cases hqr : q = r
    · subst hqr
      obtain rfl := Option.some.inj (hf.symm.trans hfq)
      exact ⟨pc, stage', hpc, Function.update_self ..⟩
    · exact ⟨pc, stage, hpc, (Function.update_of_ne hqr ..).trans hfq⟩
  · rcases update_eq_some.mp hq with ⟨_, hnew⟩ | ⟨_, hold⟩
    · obtain rfl := Option.some.inj hnew
      exact hepoch body resp hbody hst
    · exact h.epoch q g body resp hold hbody hst
  · rcases update_eq_some.mp hg with ⟨rfl, hnew⟩ | ⟨_, hold⟩
    · obtain rfl := Option.some.inj hnew
      rcases hrotated resp hst with ⟨resp', hwas⟩ | hwinning
      · exact h.kept.rotated q x epoch newKey wraps hq hpc ⟨f, resp', hf, hwas⟩
      · obtain ⟨pc, stage, _, hfq⟩ := h.sent_flight q x hq
        obtain rfl := Option.some.inj (hf.symm.trans hfq)
        obtain ⟨u, y, hy, hyq, pc', hpc'⟩ := hok _ hf rfl hwinning
        have hsame := h.pass_sent u y pc' hy hpc'
        rw [hyq] at hsame
        obtain rfl := Option.some.inj (hq.symm.trans hsame)
        exact Or.inr ⟨u, x, hy, hyq, Or.inl ⟨wraps, hpc⟩⟩
    · exact h.kept.rotated q x epoch newKey wraps hq hpc ⟨g, resp, hold, hst⟩

theorem Sound.close (h : Sound w) (hok : w.Careful (.close c)) :
    Sound { w with passes := fun t =>
      (w.passes t).filter fun pass => decide (pass.context ≠ c) } := by
  have hcases : ∀ u x, (w.passes u).filter (fun pass => decide (pass.context ≠ c)) = some x →
      w.passes u = some x :=
    fun u x hu => (Option.filter_eq_some_iff.mp hu).1
  refine ⟨h.server, h.memory, fun u x hu => h.ring u x (hcases u x hu),
    fun u x pc hu => h.pass_sent u x pc (hcases u x hu),
    h.sent_flight, fun u x hu => h.passes u x (hcases u x hu), h.epoch, h.kept.acked,
    fun q x epoch newKey wraps hq hpc hlanded => ?_⟩
  rcases h.kept.rotated q x epoch newKey wraps hq hpc hlanded with hstored | ⟨u, y, hy, hyq, hcase⟩
  · exact Or.inl hstored
  · refine Or.inr ⟨u, y,
      Option.filter_eq_some_iff.mpr ⟨hy, decide_eq_true fun hc => hok u y hy hc ?_⟩, hyq, hcase⟩
    rcases hcase with ⟨wraps', hrotating⟩ | ⟨updated, haccepted, _⟩
    · exact Or.inl ⟨⟨epoch, newKey, wraps', hrotating⟩, hyq ▸ hlanded⟩
    · exact Or.inr ⟨updated, haccepted⟩

theorem Sound.step (h : Sound w) {event : ContextEvent} (hok : w.Careful event)
    (hstep : w.step event = some w') :
    Sound w' := by
  cases event with
  | server event =>
    cases event with
    | receive r token request =>
      simp only [SharedDevice.step] at hstep
      split_ifs at hstep
      obtain ⟨server, hserver, rfl⟩ := Option.map_eq_some_iff.mp hstep
      exact h.arrives hserver
    | advance r now limited =>
      obtain ⟨server, hserver, rfl⟩ := Option.map_eq_some_iff.mp hstep
      exact h.advances hok hserver
    | reserve pairingId device =>
      have hserver :
          w.server.step (.reserve pairingId device) = some (w.server.reserve pairingId device) :=
            rfl
      exact Option.some.inj hstep ▸ h.withServer (h.server.step hserver).1 rfl
    | release pairingId =>
      have hserver : w.server.step (.release pairingId) = some (w.server.release pairingId) := rfl
      exact Option.some.inj hstep ▸ h.withServer (h.server.step hserver).1 rfl
  | «open» c kind =>
    simp only [SharedDevice.step] at hstep
    split at hstep
    · obtain rfl := Option.some.inj hstep
      exact h.setContext fun y hy => Option.some.inj hy ▸ Below.refl _
    · cases hstep
  | close c =>
    obtain rfl := Option.some.inj hstep
    exact (h.close hok).setContext nofun
  | sync t c r =>
    simp only [SharedDevice.step] at hstep
    split at hstep
    · rename_i x hx hp
      split_ifs at hstep
      have hmemory := h.memory c x hx
      have hrunning : Sound (w.setContext c (some { x with running := true })) :=
        h.setContext fun y hy => Option.some.inj hy ▸ hmemory
      exact hrunning.send hstep (leaves_of_none hp) hmemory nofun nofun
    · cases hstep
  | revoke t c deviceId r =>
    simp only [SharedDevice.step] at hstep
    split at hstep
    · rename_i x hx hp
      split_ifs at hstep
      exact h.send hstep (leaves_of_none hp) (h.memory c x hx) nofun nofun
    · cases hstep
  | resend t r =>
    simp only [SharedDevice.step, Option.bind_eq_bind, Option.bind_eq_some_iff] at hstep
    obtain ⟨pass, hp, hstep⟩ := hstep
    split at hstep
    · rename_i pc hpc
      split_ifs at hstep
      refine h.send hstep (leaves_of_not_won fun x hx => hok x hx) (h.ring t pass hp)
        (fun epoch b he => ?_) fun epoch k ws he => ?_
      · obtain ⟨key, hkey, _⟩ :=
          h.kept.acked _ pass epoch b (h.pass_sent t pass pc hp hpc) (he ▸ hpc)
        exact ⟨key, hkey⟩
      · exact (h.passes t pass hp).rotating epoch k ws (he ▸ hpc)
    · cases hstep
  | giveUp t =>
    simp only [SharedDevice.step, Option.bind_eq_bind, Option.bind_eq_some_iff] at hstep
    obtain ⟨pass, hp, hstep⟩ := hstep
    split at hstep
    · split_ifs at hstep
      exact Option.some.inj hstep ▸ h.finish (leaves_of_not_won fun x hx => hok x hx)
    · cases hstep
  | receive t r trusted newKey => exact h.receive hok hstep
  | save t r => exact h.save hok hstep

theorem Start.sound (h : w.Start) : Sound w where
  server := h.server
  memory := fun c x hx => absurd ((h.contexts c).symm.trans hx) (Option.some_ne_none x).symm
  ring := fun u x hx => absurd ((h.passes u).symm.trans hx) (Option.some_ne_none x).symm
  pass_sent := fun u x _ hx => absurd ((h.passes u).symm.trans hx) (Option.some_ne_none x).symm
  sent_flight := fun q x hx => absurd ((h.sent q).symm.trans hx) (Option.some_ne_none x).symm
  passes := fun u x hx => absurd ((h.passes u).symm.trans hx) (Option.some_ne_none x).symm
  epoch := fun q f _ _ hf => absurd ((h.flights q).symm.trans hf) (Option.some_ne_none f).symm
  kept := ⟨fun q x _ _ hx => absurd ((h.sent q).symm.trans hx) (Option.some_ne_none x).symm,
    fun q x _ _ _ hx => absurd ((h.sent q).symm.trans hx) (Option.some_ne_none x).symm⟩

/-- In every run in which no outdated copy is stored and no accepted rotation is left behind,
every key that was acked or rotated to stays in the stored keyring. -/
theorem keys_kept {w₀ : SharedDevice} (h₀ : w₀.Start)
    (h : Runs.ReachableVia step Careful w₀ w) : w.Kept :=
  (h.invariant h₀.sound fun _ _ _ hs hok hstep => hs.step hok hstep : Sound w).kept

/-- A check that a step is careful, for runs in which no answer is lost and no tab rotates. -/
def carefulStep (w : SharedDevice) (event : ContextEvent) : Bool :=
  match event with
  | .save t _ => (w.passes t).all fun pass => decide (w.stored = pass.ring)
  | .receive t _ _ _ => (w.passes t).all fun pass =>
      (w.server.flights pass.awaiting).all fun f => match f.stage with
        | .answered (.listing _) => false
        | _ => true
  | .resend _ _ | .giveUp _ | .close _ => false
  | .server (.advance r _ _) => (w.server.flights r).all fun f =>
      decide (f.token ≠ w.session.token) || match f.request with
        | .rotateKey _ => false
        | _ => true
  | _ => true

theorem careful_of_carefulStep {event : ContextEvent} (h : w.carefulStep event = true) :
    w.Careful event := by
  cases event with
  | save t r =>
    intro pass hp
    exact Or.inl (of_decide_eq_true ((Option.all_eq_true _ _).mp h pass hp))
  | receive t r trusted newKey =>
    intro pass hp f hf resp hst
    have hflight := (Option.all_eq_true _ _).mp ((Option.all_eq_true _ _).mp h pass hp) f hf
    simp [hst] at hflight
  | server event =>
    cases event with
    | advance r now limited =>
      intro f hf htoken hwinning
      obtain ⟨token, request, stage⟩ := f
      have hserve := (Option.all_eq_true _ _).mp h _ hf
      cases request with
      | rotateKey body => exact absurd htoken (by simpa using hserve)
      | _ => exact hwinning.elim
    | _ => trivial
  | resend t r => cases h
  | giveUp t => cases h
  | close c => cases h
  | _ => trivial

/-- Device 1, with two others in its space. -/
def threeDevices : SharedDevice where
  server := {
    db := {
      groupId := 7
      keyEpoch := 1
      rotationPending := true
      devices := ⟨[⟨1, 101, none, sha256Hex 51, .owner, 1, 1, false, none⟩,
        ⟨2, 102, none, sha256Hex 52, .admin, 1, 1, false, none⟩,
        ⟨3, 103, none, sha256Hex 53, .member, 1, 1, false, none⟩], by decide⟩
      keyDistribution := .empty
      pairing := .empty
      elsewhere := [] }
    flights := fun _ => none }
  publicKey := 101
  session := ⟨1, 51, 7⟩
  stored := createKeyring 1000 INITIAL_KEY_EPOCH
  contexts := fun _ => none
  passes := fun _ => none
  sent := fun _ => none

theorem start_threeDevices : threeDevices.Start where
  server := ⟨fun _ _ _ hf => (nomatch hf), fun _ _ => List.not_mem_nil⟩
  flights := fun _ => rfl
  contexts := fun _ => rfl
  passes := fun _ => rfl
  sent := fun _ => rfl

/-- The server carries out a request. -/
def served (r : RequestId) (now : ℕ) : List ContextEvent :=
  List.replicate 3 (.server (.advance r now false))

/-- Device 2 rotates the key. -/
def rotates (r : RequestId) (epoch : ℕ) (key : GroupKey) (others : List (PublicKey × DeviceId)) :
    List ContextEvent :=
  .server (.receive r 52
    (.rotateKey ⟨epoch, others.map fun d => ⟨d.2, wrapRotatedKey d.1 key 7 epoch d.2⟩⟩)) ::
      served r 0

/-- A pass polls, stores what was delivered and acks it. -/
def adopts (t : TaskId) (c : ContextId) (r : RequestId) : List ContextEvent :=
  .sync t c r :: served r 0 ++ [.receive t 0 true 0, .save t (r + 1)] ++ served (r + 1) 0 ++
    [.receive t 0 true 0]

/-- Device 2 rotates, revokes device 3 and rotates again; a tab adopts each key. -/
def twoRotations (first second : List ContextEvent) : List ContextEvent :=
  rotates 100 2 2001 [(101, 1), (103, 3)] ++ first ++
    [.server (.receive 101 52 (.revokeDevice 3))] ++ served 101 9 ++
    rotates 102 3 2002 [(101, 1)] ++ second

/-- The second tab is opened when the first one is done. -/
theorem keys_kept_twoRotations : ∃ w, Runs.ReachableVia step Careful threeDevices w ∧
    w.stored.keys.map Prod.fst = [3, 2, 1] ∧ w.Kept := by
  have hrun : (Runs.replayVia step (fun w event => w.carefulStep event = true) threeDevices
      (twoRotations (.open 0 .tab :: adopts 0 0 0) (.open 1 .tab :: adopts 1 1 2))).any (fun w =>
        decide (w.stored.keys.map Prod.fst = [3, 2, 1])) = true := by decide +kernel
  obtain ⟨w, hw, hkeys⟩ := (Option.any_eq_true _ _).mp hrun
  have hreach : Runs.ReachableVia step Careful threeDevices w :=
    (Runs.reachableVia_of_replayVia hw).mono fun _ _ => careful_of_carefulStep
  exact ⟨w, hreach, of_decide_eq_true hkeys, keys_kept start_threeDevices hreach⟩

/-- The second tab was opened before, and its copy has only the first key. -/
theorem keys_not_kept : ∃ w, Runs.Reachable step threeDevices w ∧ ¬ w.Kept := by
  have hrun : (Runs.replay step threeDevices
      ([.open 0 .tab, .open 1 .tab] ++ twoRotations (adopts 0 0 0) (adopts 1 1 2))).any (fun w =>
        decide ((∃ pass ∈ w.sent 1, pass.pc = .waiting (.acking 2 false)) ∧
          keyForEpoch w.stored 2 = none)) = true := by
    decide +kernel
  obtain ⟨w, hreach, ⟨pass, hsent, hpc⟩, hlost⟩ := Runs.exists_reachable_of_replay hrun
  refine ⟨w, hreach, fun hkept => ?_⟩
  obtain ⟨key, _, hkey⟩ := hkept.acked 1 pass 2 false hsent hpc
  exact absurd (hlost.symm.trans hkey) (Option.some_ne_none key).symm

end SendSelf.SharedDevice
