import SendSelf.Group.Server

/-!
# What is stored is sealed under the current key

A handler that stores sealed content compares the epoch of the request with the one its
caller authenticated at, and writes at a later await. So what it stores is current when no
rotation has committed between the two. The group's epoch only grows, so that then nothing
in the vault and no name is ever replaced by something older.
-/
namespace SendSelf

/-- The caller of a send whose epoch has been compared with the request's. -/
def SendStage.checked : SendStage → Option AuthContext
  | .targeting auth
    _ | .destroying auth _ | .clearing auth _ | .listing auth | .heading auth _ |
      .inserting auth _ =>
      some auth
  | _ => none

theorem sendMessage.next_checked {m : Moment} {token : Token} {body : SendMessageRequest}
    {space : SpaceDb} {db : FileDb} {stage : SendStage} {auth : AuthContext}
    (h : (next m token body space db stage).2.checked = some auth) :
    stage.checked = some auth ∨ body.keyEpoch = auth.groupKeyEpoch := by
  cases stage with
  | received =>
    simp only [next] at h
    revert h
    refine orAnswer_cases (P := fun stage : SendStage => stage.checked = some auth →
      _) (fun e h => (by cases h)) fun stage hok h => ?_
    simp only [bind_eq_ok, pure_eq_ok] at hok
    obtain ⟨_, _, _, _, _, _, rfl⟩ := hok
    cases h
  | authed auth' =>
    simp only [next] at h
    revert h
    refine orAnswer_cases (P := fun stage : SendStage => stage.checked = some auth →
      _) (fun e h => (by cases h)) fun stage hok h => ?_
    unfold checkDuplicate at hok
    split_ifs at hok with hdup hepoch
    right
    split at hok
    · obtain rfl := Except.ok.inj hok
      obtain rfl := Option.some.inj h
      exact not_not.mp hepoch
    · obtain rfl := Except.ok.inj hok
      obtain rfl := Option.some.inj h
      exact not_not.mp hepoch
  | targeting auth' target =>
    simp only [next] at h
    split at h <;> exact Or.inl h
  | destroying auth' found =>
    simp only [next] at h
    split_ifs at h <;> exact Or.inl h
  | clearing auth' keys => exact Or.inl h
  | listing auth' =>
    simp only [next, afterListing] at h
    split at h
    · cases h
    · cases h
    · exact Or.inl h
    · exact Or.inl h
  | dropping key => cases h
  | dropped key => cases h
  | heading auth' recipients =>
    simp only [next] at h
    split_ifs at h
    · exact Or.inl h
    · cases h
  | inserting auth' recipients => cases h
  | answered a => cases h

theorem updateSpaceName.next_ready {m : GroupMoment} {token : Token} {req : UpdateSpaceNameRequest}
    {db : SpaceDb} {name : SpaceNameRecord} {stage : NameStage} {auth : AuthContext} {updatedAt : ℕ}
    (h : (next m token req db name stage).2 = .ready auth updatedAt) :
    req.nameKeyEpoch = auth.groupKeyEpoch := by
  cases stage with
  | received =>
    have hok := ok_of_orAnswer h fun _ he => (nomatch he)
    simp only [bind_eq_ok, pure_eq_ok] at hok
    obtain ⟨auth', _, _, _, _, hbody, heq⟩ := hok
    obtain ⟨rfl, _⟩ := NameStage.ready.inj heq
    unfold checkBody at hbody
    split_ifs at hbody with h₁ h₂ h₃
    exact not_not.mp h₃
  | ready auth' at_ => cases h
  | answered a => cases h

theorem requireCurrentEpoch_ok {groupKeyEpoch : ℕ} {value : Option ℕ} {k : ℕ}
    (h : requireCurrentEpoch groupKeyEpoch value = .ok k) : k = groupKeyEpoch := by
  unfold requireCurrentEpoch at h
  simp only [bind_eq_ok] at h
  obtain ⟨epoch, _, h⟩ := h
  split_ifs at h with hne
  obtain rfl := Except.ok.inj h
  exact not_not.mp hne

/-- What a handler of the vault is about to seal is of this epoch. -/
def CreateStage.SealsAt (epoch : ℕ) : CreateStage → Prop
  | .authed k | .unused k | .placed k | .sized k _ | .ready k _ => k = epoch
  | _ => True

def UpdateStage.SealsAt (epoch : ℕ) : UpdateStage → Prop
  | .authed k | .moving k _ _ => k = epoch
  | .claiming _ sealing _ | .sized _ sealing _ _ => ∀ s ∈ sealing, s.1 = epoch
  | .ready changes => ∀ s ∈ changes.sealing, s.1 = epoch
  | _ => True

def ResealStage.SealsAt (epoch : ℕ) : ResealStage → Prop
  | .ready k => k = epoch
  | _ => True

def VaultJob.SealsAt (epoch : ℕ) : VaultJob → Prop
  | .create _ stage => stage.SealsAt epoch
  | .update _ _ stage => stage.SealsAt epoch
  | .reseal _ stage => stage.SealsAt epoch
  | _ => True

namespace createVaultItem

theorem sealsAt_next {req : CreateVaultItemRequest} {m : VaultMoment} {db : VaultDb}
    {stage : CreateStage}
    (h : stage.SealsAt m.groupKeyEpoch) : (next req m db stage).2.SealsAt m.groupKeyEpoch := by
  have hplace : ∀ {k}, k = m.groupKeyEpoch →
      (afterPlace req k).SealsAt m.groupKeyEpoch := fun hk => by
    unfold afterPlace
    split_ifs <;> exact hk
  cases stage with
  | received =>
    refine orAnswer_cases (P := CreateStage.SealsAt m.groupKeyEpoch) (fun _ => trivial)
      fun stage hok => ?_
    simp only [bind_eq_ok, pure_eq_ok] at hok
    obtain ⟨_, _, k, hbody, rfl⟩ := hok
    simp only [checkBody, bind_eq_ok] at hbody
    obtain ⟨epoch, hepoch, hbody⟩ := hbody
    have hk : epoch = k := by
      split_ifs at hbody
      · simp only [bind_eq_ok, pure_eq_ok] at hbody
        obtain ⟨_, _, hk⟩ := hbody
        exact hk
      · obtain ⟨_, _, hk⟩ := bind_eq_ok.mp hbody
        exact pure_eq_ok.mp hk
      · exact pure_eq_ok.mp hbody
    exact hk ▸ requireCurrentEpoch_ok hepoch
  | authed k =>
    simp only [next]
    split
    · split_ifs <;> trivial
    · split_ifs
      · exact h
      · exact hplace h
  | unused k =>
    refine orAnswer_cases (P := CreateStage.SealsAt m.groupKeyEpoch) (fun _ => trivial)
      fun stage hok => ?_
    simp only [bind_eq_ok, pure_eq_ok] at hok
    obtain ⟨_, _, rfl⟩ := hok
    exact hplace h
  | placed k =>
    refine orAnswer_cases (P := CreateStage.SealsAt m.groupKeyEpoch) (fun _ => trivial)
      fun stage hok => ?_
    simp only [bind_eq_ok, pure_eq_ok] at hok
    obtain ⟨_, _, rfl⟩ := hok
    exact h
  | sized k size =>
    refine orAnswer_cases (P := CreateStage.SealsAt m.groupKeyEpoch) (fun _ => trivial)
      fun stage hok => ?_
    have hstage : stage = .ready k size := by
      split at hok
      · obtain ⟨_, _, hs⟩ := bind_eq_ok.mp hok
        exact (pure_eq_ok.mp hs).symm
      · exact (pure_eq_ok.mp hok).symm
    rw [hstage]
    exact h
  | ready k size =>
    simp only [next]
    split <;> trivial
  | refused => exact trivial
  | answered a => exact trivial

end createVaultItem

namespace updateVaultItem

theorem sealsAt_prepare {item : VaultItem} {changes : VaultDb.ItemChanges} {epoch : ℕ}
    (h : ∀ s ∈ changes.sealing, s.1 = epoch) : (prepare item changes).SealsAt epoch := by
  unfold prepare
  split_ifs
  · exact trivial
  · exact h

theorem checkSealing_ok {req : UpdateVaultItemRequest} {epoch : ℕ}
    {sealing : Option (ℕ × MetaCiphertext × Iv)}
    (h : checkSealing req epoch = .ok sealing) : ∀ s ∈ sealing, s.1 = epoch := by
  unfold checkSealing at h
  split_ifs at h
  · simp only [bind_eq_ok, pure_eq_ok] at h
    obtain ⟨k, hk, _, _, _, _, rfl⟩ := h
    intro s hs
    obtain rfl := Option.some.inj hs
    exact requireCurrentEpoch_ok hk
  · obtain rfl := pure_eq_ok.mp h
    exact fun _ hs => (nomatch hs)

theorem sealsAt_afterPlace {req : UpdateVaultItemRequest} {epoch now : ℕ} {item : VaultItem} :
    (afterPlace req epoch now item).SealsAt epoch := by
  refine orAnswer_cases (P := UpdateStage.SealsAt epoch) (fun _ => trivial) fun stage hok => ?_
  simp only [bind_eq_ok] at hok
  obtain ⟨sealing, hsealing, key, _, hok⟩ := hok
  split at hok
  · obtain rfl := pure_eq_ok.mp hok
    exact checkSealing_ok hsealing
  · obtain rfl := pure_eq_ok.mp hok
    exact sealsAt_prepare (checkSealing_ok hsealing)

theorem sealsAt_next {id : ItemId} {req : UpdateVaultItemRequest} {m : VaultMoment} {db : VaultDb}
    {stage : UpdateStage}
    (h : stage.SealsAt m.groupKeyEpoch) : (next id req m db stage).2.SealsAt m.groupKeyEpoch := by
  cases stage with
  | received =>
    refine orAnswer_cases (P := UpdateStage.SealsAt m.groupKeyEpoch) (fun _ => trivial)
      fun stage hok => ?_
    simp only [bind_eq_ok, pure_eq_ok] at hok
    obtain ⟨_, _, rfl⟩ := hok
    exact rfl
  | authed k =>
    obtain rfl : k = m.groupKeyEpoch := h
    simp only [next]
    split
    · trivial
    · unfold afterRead
      split_ifs
      · trivial
      · split
        · split_ifs
          · trivial
          · exact rfl
        · exact sealsAt_afterPlace
  | moving k item parent =>
    obtain rfl : k = m.groupKeyEpoch := h
    refine orAnswer_cases (P := UpdateStage.SealsAt m.groupKeyEpoch) (fun _ => trivial)
      fun stage hok => ?_
    simp only [bind_eq_ok, pure_eq_ok] at hok
    obtain ⟨_, _, rfl⟩ := hok
    exact sealsAt_afterPlace
  | claiming item sealing key =>
    refine orAnswer_cases (P := UpdateStage.SealsAt m.groupKeyEpoch) (fun _ => trivial)
      fun stage hok => ?_
    simp only [bind_eq_ok, pure_eq_ok] at hok
    obtain ⟨_, _, rfl⟩ := hok
    exact h
  | sized item sealing key size =>
    refine orAnswer_cases (P := UpdateStage.SealsAt m.groupKeyEpoch) (fun _ => trivial)
      fun stage hok => ?_
    simp only [bind_eq_ok, pure_eq_ok] at hok
    obtain ⟨_, _, rfl⟩ := hok
    exact sealsAt_prepare h
  | ready changes => exact trivial
  | answered a => exact trivial

end updateVaultItem

theorem resealVaultItems.sealsAt_next {req : VaultResealRequest} {m : VaultMoment} {db : VaultDb}
    {stage : ResealStage}
    (h : stage.SealsAt m.groupKeyEpoch) : (next req m db stage).2.SealsAt m.groupKeyEpoch := by
  cases stage with
  | received =>
    refine orAnswer_cases (P := ResealStage.SealsAt m.groupKeyEpoch) (fun _ => trivial)
      fun stage hok => ?_
    simp only [bind_eq_ok] at hok
    obtain ⟨_, _, k, hk, hok⟩ := hok
    split_ifs at hok
    · obtain rfl := pure_eq_ok.mp hok
      trivial
    · obtain rfl := pure_eq_ok.mp hok
      exact requireCurrentEpoch_ok hk
  | ready k => exact trivial
  | answered a => exact trivial

theorem VaultJob.sealsAt_next {started : ℕ} {m : VaultMoment} {rows : List ItemId} {db : VaultDb}
    {job : VaultJob} {after : VaultDb × VaultJob} (h : job.SealsAt m.groupKeyEpoch)
    (hnext : job.next started m rows db = some after) :
    after.2.SealsAt m.groupKeyEpoch := by
  cases job with
  | create req stage =>
    obtain rfl := Option.some.inj hnext
    exact createVaultItem.sealsAt_next h
  | update id req stage =>
    obtain rfl := Option.some.inj hnext
    exact updateVaultItem.sealsAt_next h
  | reseal req stage =>
    obtain rfl := Option.some.inj hnext
    exact resealVaultItems.sealsAt_next h
  | delete id stage =>
    obtain ⟨_, _, rfl⟩ := Option.map_eq_some_iff.mp hnext
    trivial
  | cleanUp stage =>
    obtain ⟨_, _, rfl⟩ := Option.map_eq_some_iff.mp hnext
    trivial

theorem TreePurge.stores_eq_none {root : ItemId} {stage : TreePurge} {db : VaultDb} {b : VaultBatch}
    (h : stage.batch root = some b) : b.stores db = none := by
  cases stage with
  | purging now found purged => rw [← Option.some.inj h]; rfl
  | walking purged => cases h
  | done purged => cases h

theorem VaultJob.stores_eq {epoch started k : ℕ} {m : VaultMoment} {db : VaultDb} {job : VaultJob}
    {b : VaultBatch}
    (h : job.SealsAt epoch) (hbatch : job.batch started m = some b) (hk : b.stores db = some k) :
    k = epoch := by
  unfold VaultJob.batch at hbatch
  split at hbatch
  · obtain rfl := Option.some.inj hbatch
    simp only [VaultBatch.stores] at hk
    split_ifs at hk
    obtain rfl := Option.some.inj hk
    exact h
  · obtain rfl := Option.some.inj hbatch
    simp only [VaultBatch.stores] at hk
    split_ifs at hk
    obtain ⟨s, hs, rfl⟩ := Option.map_eq_some_iff.mp hk
    exact h s hs
  · obtain rfl := Option.some.inj hbatch
    simp only [VaultBatch.stores] at hk
    split_ifs at hk
    obtain rfl := Option.some.inj hk
    exact h
  · rw [TreePurge.stores_eq_none hbatch] at hk
    cases hk
  · obtain rfl := Option.some.inj hbatch
    cases hk
  · rw [TreePurge.stores_eq_none hbatch] at hk
    cases hk
  · obtain rfl := Option.some.inj hbatch
    cases hk
  · cases hbatch

theorem VaultJob.sealsAt_of_isReceived {epoch : ℕ} {job : VaultJob} (h : job.isReceived = true) :
    job.SealsAt epoch := by
  unfold isReceived at h
  split at h
  · exact trivial
  · exact trivial
  · exact trivial
  · exact trivial
  · cases h

/-- The caller of a call that stores something sealed, and the epoch it stores. -/
def GroupCall.stores (m : GroupMoment) (vault : VaultDb) (call : GroupCall) :
    Option (AuthContext × ℕ) :=
  match call with
  | .name _ req (.ready auth _) => some (auth, req.nameKeyEpoch)
  | .vault _ _ (some auth) _ =>
      ((call.vaultBatch m).bind (VaultBatch.stores vault)).map fun epoch => (auth, epoch)
  | _ => none

/-- The same of a send. -/
def Job.stores (files : FileDb) : Job → Option (AuthContext × ℕ)
  | .send _ body (.inserting auth _) =>
    if sendMessage.exists? body.id files then none else some (auth, body.keyEpoch)
  | _ => none

namespace GroupServer

def stores (s : GroupServer) : GroupEvent → Option (AuthContext × ℕ)
  | .files (.run r _) => (s.jobs r).bind (Job.stores s.files.files)
  | .run r m _ => (s.calls r).bind (GroupCall.stores m s.vault)
  | _ => none

/-- No rotation has come between the caller's authentication and what the step stores. -/
def StoresInTime (s : GroupServer) (e : GroupEvent) : Prop :=
  ∀ p ∈ s.stores e, p.1.groupKeyEpoch = s.space.keyEpoch

instance (s : GroupServer) (e : GroupEvent) : Decidable (s.StoresInTime e) :=
  inferInstanceAs (Decidable (∀ p ∈ s.stores e, p.1.groupKeyEpoch = s.space.keyEpoch))

/-- Whatever is sealed anew in a step is sealed under the current key. -/
structure SealsCurrent (s t : GroupServer) : Prop where
  messages : ∀ m ∈ t.files.files.messages, m ∈ s.files.files.messages ∨
    m.keyEpoch = t.space.keyEpoch
  items : ∀ r ∈ t.vault.items, r.live = true → (∃ q ∈ s.vault.items, VaultBatch.SameSealing q r) ∨
    r.keyEpoch = some t.space.keyEpoch
  name : t.name = s.name ∨ t.name.nameKeyEpoch = some t.space.keyEpoch

/-- No live item and no name is sealed under an older key later on. -/
structure SealsForward (s t : GroupServer) : Prop where
  items : ∀ q ∈ s.vault.items, ∀ r ∈ t.vault.items, q.id = r.id → q.live = true → r.live = true →
    ∀ k k', q.keyEpoch = some k → r.keyEpoch = some k' → k ≤ k'
  name : ∀ k, s.name.nameKeyEpoch = some k → ∃ k', t.name.nameKeyEpoch = some k' ∧ k ≤ k'

/-- What the requests on their way have compared, and what is stored. -/
structure Sealed (s : GroupServer) : Prop where
  sound : s.Sound
  sends : ∀ r token body stage auth, s.jobs r = some (.send token body stage) →
    stage.checked = some auth →
    body.keyEpoch = auth.groupKeyEpoch
  names : ∀ r token req auth at_, s.calls r = some (.name token req (.ready auth at_)) →
    req.nameKeyEpoch = auth.groupKeyEpoch
  vaults : ∀ r token started auth job, s.calls r = some (.vault token started (some auth) job) →
    job.SealsAt auth.groupKeyEpoch
  items : ∀ r ∈ s.vault.items, r.live = true → ∀ k, r.keyEpoch = some k → k ≤ s.space.keyEpoch
  name : ∀ k, s.name.nameKeyEpoch = some k → k ≤ s.space.keyEpoch

variable {s t : GroupServer} {e : GroupEvent}

/-- What a step stores is of the epoch that its caller authenticated at. -/
theorem Sealed.stores_eq (h : s.Sealed) {auth : AuthContext} {k : ℕ}
    (hk : s.stores e = some (auth, k)) :
    k = auth.groupKeyEpoch := by
  unfold stores at hk
  split at hk
  · obtain ⟨job, hjob, hk⟩ := Option.bind_eq_some_iff.mp hk
    unfold Job.stores at hk
    split at hk
    · split_ifs at hk
      obtain ⟨rfl, rfl⟩ := Prod.mk.inj (Option.some.inj hk)
      exact h.sends _ _ _ _ _ hjob rfl
    · cases hk
  · next r m rows =>
    obtain ⟨call, hcall, hk⟩ := Option.bind_eq_some_iff.mp hk
    unfold GroupCall.stores at hk
    split at hk
    · obtain ⟨rfl, rfl⟩ := Prod.mk.inj (Option.some.inj hk)
      exact h.names _ _ _ _ _ hcall
    · next token started auth' job =>
      obtain ⟨epoch, hepoch, heq⟩ := Option.map_eq_some_iff.mp hk
      obtain ⟨rfl, rfl⟩ := Prod.mk.inj heq
      obtain ⟨b, hb, hstores⟩ := Option.bind_eq_some_iff.mp hepoch
      exact VaultJob.stores_eq (h.vaults _ _ _ _ _ hcall) hb hstores
    · cases hk
  · cases hk

/-- A step that stores something leaves the group's epoch alone. -/
theorem Sealed.keyEpoch_of_stores (h : s.Sealed) (hs : s.step e = some t)
    (hk : (s.stores e).isSome = true) :
    t.space.keyEpoch = s.space.keyEpoch := by
  refine (step_space h.sound hs).keyEpoch_eq fun r now limited he => ?_
  subst he
  cases hk

/-- What a step stores is sealed under the current key. -/
theorem Sealed.stores_current (h : s.Sealed) (hok : s.StoresInTime e) (hs : s.step e = some t)
    {auth : AuthContext} {k : ℕ} (hk : s.stores e = some (auth, k)) : k = t.space.keyEpoch := by
  rw [h.keyEpoch_of_stores hs (by rw [hk]; rfl), ← hok _ hk]
  exact h.stores_eq hk

theorem Sealed.messages_current (h : s.Sealed) (hok : s.StoresInTime e) (hs : s.step e = some t)
    {m : MessageRow} (hm : m ∈ t.files.files.messages) :
    m ∈ s.files.files.messages ∨ m.keyEpoch = t.space.keyEpoch := by
  rw [(step_messages hs).1] at hm
  cases hb : s.messageBatch e with
  | none =>
    rw [hb] at hm
    exact Or.inl hm
  | some batch =>
    rw [hb] at hm
    cases batch with
    | mark id deviceId => exact Or.inl hm
    | delete found => exact Or.inl (mem_deleteMessages.mp hm).1
    | insert auth body recipients =>
      obtain ⟨r, m', token, rfl, hjob⟩ := send_of_insert hb
      simp only [MessageBatch.commit?, Option.elim_some, MessageBatch.commit] at hm
      rcases @sendMessage.finish_cases auth body recipients (clock (.files (.run r m')))
        s.files.files with
        hf | ⟨db', hf, hnew, hrows, _⟩
      · rw [hf] at hm
        exact Or.inl hm
      · rw [hf] at hm
        rcases (hrows m).mp hm with hm | rfl
        · exact Or.inl hm
        · have hstores : s.stores (.files (.run r m')) = some (auth, body.keyEpoch) := by
            rw [stores, hjob, Option.bind_some, Job.stores, hnew]
            rfl
          exact Or.inr (h.stores_current hok hs hstores)

theorem Sealed.items_current (h : s.Sealed) (hok : s.StoresInTime e) (hs : s.step e = some t)
    {r : VaultItem} (hr : r ∈ t.vault.items) (hlive : r.live = true) :
    (∃ q ∈ s.vault.items, VaultBatch.SameSealing q r) ∨ r.keyEpoch = some t.space.keyEpoch := by
  rw [step_vault hs] at hr
  cases hb : s.vaultBatch e with
  | none =>
    rw [hb] at hr
    exact Or.inl ⟨r, hr, .refl hlive⟩
  | some batch =>
    rw [hb] at hr
    rcases VaultBatch.sealing_of_commit hr hlive with hsame | ⟨hsome, hstored⟩
    · exact Or.inl hsame
    · right
      obtain ⟨k, hk⟩ := Option.isSome_iff_exists.mp hsome
      unfold vaultBatch at hb
      split at hb
      · next q m rows =>
        obtain ⟨call, hcall, hbatch⟩ := Option.bind_eq_some_iff.mp hb
        have hcopy := hbatch
        unfold GroupCall.vaultBatch at hbatch
        split at hbatch
        · next token started auth job =>
          have hstores : s.stores (.run q m rows) = some (auth, k) := by
            rw [stores, hcall, Option.bind_some, GroupCall.stores, hcopy, Option.bind_some, hk]
            rfl
          rw [← hstored, hk, h.stores_current hok hs hstores]
        · next started stage =>
          have hseals : (VaultJob.cleanUp stage).SealsAt (k + 1) := trivial
          have hne := VaultJob.stores_eq hseals hbatch hk
          omega
        · cases hbatch
      · cases hb

theorem Sealed.name_current (h : s.Sealed) (hok : s.StoresInTime e) (hs : s.step e = some t) :
    t.name = s.name ∨ t.name.nameKeyEpoch = some t.space.keyEpoch := by
  rcases step_name hs with hsame | ⟨r, m, rows, token, req, auth, updatedAt, rfl, hcall, hname⟩
  · exact Or.inl hsame
  · have hstores : s.stores (.run r m rows) = some (auth, req.nameKeyEpoch) := by
      rw [stores, hcall]
      rfl
    rw [hname]
    exact Or.inr (congrArg some (h.stores_current hok hs hstores))

theorem Sealed.sealsCurrent (h : s.Sealed) (hok : s.StoresInTime e) (hs : s.step e = some t) :
    s.SealsCurrent t :=
  ⟨fun _ hm => h.messages_current hok hs hm, fun _ hr hlive => h.items_current hok hs hr hlive,
    h.name_current hok hs⟩

theorem Sealed.step (h : s.Sealed) (hok : s.StoresInTime e) (hs : s.step e = some t) :
    t.Sealed := by
  have hle := (step_space h.sound hs).keyEpoch_le
  refine ⟨h.sound.step hs, fun r token body stage auth hj hauth => ?_,
    fun r token req auth at_ hc => ?_,
    fun r token started auth job hc => ?_, fun r hr hlive k hk => ?_, fun k hk => ?_⟩
  · rcases step_job hs r with hold | ⟨job, _, hnew, _, hjob⟩ | ⟨m, job, _, hjob, hnext⟩
    · exact h.sends r token body stage auth (hold ▸ hj) hauth
    · obtain rfl := Option.some.inj (hjob.symm.trans hj)
      cases stage with
      | received => cases hauth
      | _ => cases hnew
    · have heq := Option.some.inj (hnext.symm.trans hj)
      cases job with
      | send token' body' stage' =>
        obtain ⟨rfl, rfl, rfl⟩ := Job.send.inj heq
        rcases sendMessage.next_checked hauth with hold | hepoch
        · exact h.sends r _ _ stage' auth hjob hold
        · exact hepoch
      | _ => cases heq
  · rcases step_call hs r with hold | ⟨call, _, hnew, _, hcall⟩ |
      ⟨m, rows, call, next, _, hcall, hnext, ht⟩
    · exact h.names r token req auth at_ (hold ▸ hc)
    · obtain rfl := Option.some.inj (hcall.symm.trans hc)
      cases hnew
    · obtain ⟨db', call'⟩ := next
      obtain rfl : call' = .name token req (.ready auth at_) := Option.some.inj (ht.symm.trans hc)
      obtain ⟨stage₀, _, hstage⟩ := GroupCall.next_name hnext
      exact updateSpaceName.next_ready hstage.symm
  · rcases step_call hs r with hold | ⟨call, _, hnew, _, hcall⟩ |
      ⟨m, rows, call, next, _, hcall, hnext, ht⟩
    · exact h.vaults r token started auth job (hold ▸ hc)
    · obtain rfl := Option.some.inj (hcall.symm.trans hc)
      cases hnew
    · obtain ⟨db', call'⟩ := next
      obtain rfl : call' = .vault token started (some auth) job :=
        Option.some.inj (ht.symm.trans hc)
      obtain ⟨auth₀, job₀, db₁, rfl, hauth, hjob⟩ := GroupCall.next_vaultJob hnext
      refine VaultJob.sealsAt_next ?_ hjob
      rcases hauth with rfl | ⟨rfl, hnew, _⟩
      · exact h.vaults r _ _ _ _ hcall
      · exact VaultJob.sealsAt_of_isReceived hnew
  · rcases h.items_current hok hs hr hlive with ⟨q, hq, hsame⟩ | hcurrent
    · exact (h.items q hq hsame.live k (hsame.keyEpoch.trans hk)).trans hle
    · exact (Option.some.inj (hcurrent.symm.trans hk)).ge
  · rcases h.name_current hok hs with hsame | hcurrent
    · exact (h.name k (hsame ▸ hk)).trans hle
    · exact (Option.some.inj (hcurrent.symm.trans hk)).ge

/-- What a later state has sealed: as it was, or not before the epoch of then. -/
structure SealedSince (s t : GroupServer) : Prop where
  keyEpoch : s.space.keyEpoch ≤ t.space.keyEpoch
  items : ∀ r ∈ t.vault.items, r.live = true →
    (∃ q ∈ s.vault.items, q.id = r.id ∧ q.live = true ∧ q.keyEpoch = r.keyEpoch) ∨
      ∃ k, r.keyEpoch = some k ∧ s.space.keyEpoch ≤ k
  name : t.name = s.name ∨ ∃ k, t.name.nameKeyEpoch = some k ∧ s.space.keyEpoch ≤ k

theorem SealedSince.refl (s : GroupServer) : s.SealedSince s :=
  ⟨le_rfl, fun r hr hlive => Or.inl ⟨r, hr, rfl, hlive, rfl⟩, Or.inl rfl⟩

theorem SealedSince.step {u : GroupServer} (h : s.SealedSince t) (ht : t.Sealed)
    (hok : t.StoresInTime e) (hs : t.step e = some u) : s.SealedSince u := by
  have hle := h.keyEpoch.trans (step_space ht.sound hs).keyEpoch_le
  refine ⟨hle, fun r hr hlive => ?_, ?_⟩
  · rcases ht.items_current hok hs hr hlive with ⟨q, hq, hsame⟩ | hcurrent
    · rcases h.items q hq hsame.live with ⟨p, hp, hid, hplive, hk⟩ | ⟨k, hk, hlek⟩
      · exact Or.inl ⟨p, hp, hid.trans hsame.id, hplive, hk.trans hsame.keyEpoch⟩
      · exact Or.inr ⟨k, hsame.keyEpoch.symm.trans hk, hlek⟩
    · exact Or.inr ⟨_, hcurrent, hle⟩
  · rcases ht.name_current hok hs with hsame | hcurrent
    · rw [hsame]
      exact h.name
    · exact Or.inr ⟨_, hcurrent, hle⟩

theorem Sealed.sealsForward (h : s.Sealed) (hsince : s.SealedSince t) : s.SealsForward t := by
  refine ⟨fun q hq r hr hid hqlive hrlive k k' hk hk' => ?_, fun k hk => ?_⟩
  · rcases hsince.items r hr hrlive with ⟨p, hp, hpid, _, hpk⟩ | ⟨k₁, hk₁, hle⟩
    · obtain rfl : p = q := Table.eq_of_key hp hq (hpid.trans hid.symm)
      rw [hk, hk'] at hpk
      exact (Option.some.inj hpk).le
    · obtain rfl : k₁ = k' := Option.some.inj (hk₁.symm.trans hk')
      exact (h.items q hq hqlive k hk).trans hle
  · rcases hsince.name with hsame | ⟨k', hk', hle⟩
    · exact ⟨k, hsame ▸ hk, le_rfl⟩
    · exact ⟨k', hk', (h.name k hk).trans hle⟩

/-- In every run in which no rotation comes between a caller's authentication and what it
stores, whatever is stored is sealed under the current key, and neither a live item nor the
name is ever sealed under an older one. -/
theorem seals_current {groupId : GroupId} {founder : SlotDevice} {token : Token}
    {elsewhere : List DeviceId} {foreign : List MessageId} {groups : List GroupId}
    {rivals : RequestId → Option (CreateGroupRequest × CreateGroupStage)}
    (hfounder : founder.id ∉ elsewhere) (hr : Runs.ReachableVia step StoresInTime
      (.founded groupId founder token elsewhere foreign groups rivals) s) :
    (∀ e t, s.StoresInTime e → s.step e = some t →
      (∀ auth k, s.stores e = some (auth, k) → k = t.space.keyEpoch) ∧ s.SealsCurrent t) ∧
    ∀ t, Runs.ReachableVia step StoresInTime s t → s.SealsForward t := by
  have hstart : Sealed (.founded groupId founder token elsewhere foreign groups rivals) := by
    have hrival : ∀ {r call},
        (GroupServer.founded groupId founder token elsewhere foreign groups rivals).calls r =
          some call →
        ∃ req stage, call = .createGroup req stage := fun hc => by
      obtain ⟨c, _, rfl⟩ := Option.map_eq_some_iff.mp hc
      exact ⟨c.1, c.2, rfl⟩
    refine ⟨sound_founded hfounder, fun _ _ _ _ _ hj => (Option.some_ne_none _ hj.symm).elim,
      fun _ _ _ _ _ hc => ?_,
      fun _ _ _ _ _ hc => ?_, fun r hr => (Table.not_mem_empty hr).elim,
      fun k hk => (Option.some_ne_none _ hk.symm).elim⟩
    · obtain ⟨_, _, hcall⟩ := hrival hc
      cases hcall
    · obtain ⟨_, _, hcall⟩ := hrival hc
      cases hcall
  have hsealed : s.Sealed := hr.invariant hstart fun s e t h hok hs => h.step hok hs
  refine ⟨fun e t hok hs =>
    ⟨fun auth k hk => hsealed.stores_current hok hs hk, hsealed.sealsCurrent hok hs⟩,
    fun t hrun => hsealed.sealsForward ?_⟩
  exact (hrun.invariant (I := fun u => u.Sealed ∧ s.SealedSince u) ⟨hsealed, .refl s⟩
    fun u e v h hok hs => ⟨h.1.step hok hs, h.2.step h.1 hok hs⟩).2

/-- A request to name the space, up to the write. -/
def naming (r : RequestId) (epoch : ℕ) : List GroupEvent :=
  [.receive r (.name 11 ⟨some 61, some 62, epoch⟩ .received), .run r ⟨9, false, .passed⟩ []]

/-- Device 1 links another one, revokes it, and rotates the key. -/
def rotating : List GroupEvent :=
  [receives 2 11 (.revokeDevice 2)] ++ advances 2 3 ++ [receives 3 11 (.rotateKey ⟨2, []⟩)] ++
    advances 3 3

theorem seals_current_naming : ∃ s : GroupServer, s.space.keyEpoch = 2 ∧
    ∀ e t, s.StoresInTime e → s.step e = some t → s.SealsCurrent t := by
  have hrun : (Runs.replayVia step StoresInTime start
      (linking 1 52 ⟨2, 102, none, false⟩ 12 ++ naming 1 1 ++ [.run 1 ⟨9, false, .passed⟩ []] ++
        rotating)).any
        (fun s => decide (s.space.keyEpoch = 2)) = true := by decide +kernel
  obtain ⟨s, hs, hepoch⟩ := (Option.any_eq_true _ _).mp hrun
  have hnew : (1 : DeviceId) ∉ ([] : List DeviceId) := List.not_mem_nil
  have hreach : Runs.ReachableVia step StoresInTime start s := Runs.reachableVia_of_replayVia hs
  obtain ⟨hstep, _⟩ :=
    @seals_current s 7 ⟨1, 101, none, false⟩ 11 [] [] [] (fun _ => none) hnew hreach
  exact ⟨s, of_decide_eq_true hepoch, fun e t hok hs => (hstep e t hok hs).2⟩

/-- A request for a name has its epoch compared, the key rotates, the space is named under
the new key, and the write of the first request comes last. -/
theorem seals_superseded : ∃ s t e, Runs.Reachable step start s ∧ s.step e = some t ∧
    s.name.nameKeyEpoch = some 2 ∧ t.space.keyEpoch = 2 ∧ t.name.nameKeyEpoch = some 1 := by
  have hrun : ((Runs.replay step start
      (linking 1 52 ⟨2, 102, none, false⟩ 12 ++ naming 1 1 ++ rotating ++ naming 2 2 ++
        [.run 2 ⟨9, false, .passed⟩ []])).bind
        fun s => (s.step (.run 1 ⟨9, false, .passed⟩ [])).map fun t => (s, t)).any
          (fun p =>
            decide (p.1.name.nameKeyEpoch = some 2 ∧ p.2.space.keyEpoch = 2 ∧
              p.2.name.nameKeyEpoch = some 1)) =
            true := by decide +kernel
  obtain ⟨p, hp, hepochs⟩ := (Option.any_eq_true _ _).mp hrun
  obtain ⟨s, hs, hp⟩ := Option.bind_eq_some_iff.mp hp
  obtain ⟨t, ht, rfl⟩ := Option.map_eq_some_iff.mp hp
  exact ⟨s, t, _, Runs.reachable_of_replay hs, ht, of_decide_eq_true hepochs⟩

end GroupServer
end SendSelf
