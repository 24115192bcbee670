import SendSelf.Keys.Wiring

/-!
# One key for each epoch

As long as every rotation batch lands its wraps only together with the rotation,
the keys of a space form one write-once map from epochs to keys, and every
keyring, waiting key, package and answer on its way lies below that map. Two
devices that hold an epoch then hold the same key for it, and nobody holds an
epoch the group has not reached.
-/
namespace SendSelf.World

open WriteOnce

/-- What a task carries agrees with the keys of the space. -/
def PcAgrees (keyOf : ℕ → Option GroupKey) (minted : GroupKey → Option ℕ) : Pc → Prop
  | .rotating epoch newKey wraps => minted newKey = some epoch ∧
      ∀ w ∈ wraps, w.wrappedKey.payload.groupKey = newKey
  | .linking _ body =>
      keyOf body.wrappedPackage.payload.keyEpoch = some body.wrappedPackage.payload.groupKey
  | _ => True

/-- The keys in an answer, and the success of a rotation, agree with the keys of
the space. -/
def AnswerAgrees (keyOf : ℕ → Option GroupKey) : Pc → Stage → Prop
  | _, .answered (.pending resp) => ∀ d ∈ resp.keys,
  keyOf d.epoch = some d.wrappedKey.payload.groupKey
  | .rotating epoch newKey _, .answered (.rotated resp) =>
      resp.epoch = epoch ∧ keyOf epoch = some newKey
  | _, _ => True

structure Agreed (s : World) : Prop where
  reached : ∀ e k, s.keyOf e = some k → e ≤ s.db.keyEpoch
  minted : ∀ e k, s.keyOf e = some k → s.minted k = some e
  saved : ∀ p c ring, s.clients p = some c → c.saved = some ring → Below (keyForEpoch ring) s.keyOf
  memory : ∀ p c ring, s.clients p = some c → c.memory = some ring →
    Below (keyForEpoch ring) s.keyOf
  sent : ∀ r task, s.sent r = some task →
    Below (keyForEpoch task.ring) s.keyOf ∧ PcAgrees s.keyOf s.minted task.pc
  rows : ∀ row ∈ s.db.keyDistribution, s.keyOf row.epoch = some row.wrappedKey.payload.groupKey
  packages : ∀ slot ∈ s.db.pairing, ∀ p, slot.wrappedPackage = some p →
    s.keyOf p.payload.keyEpoch = some p.payload.groupKey
  answers : ∀ r task f, s.sent r = some task → s.server.flights r = some f →
    AnswerAgrees s.keyOf task.pc f.stage

/-- A rotation that is about to run its batch lands no wrap unless it goes through. -/
def WholeFlight (db : SpaceDb) : Flight → Prop
  | ⟨_, .rotateKey body, .ready auth⟩ => rotateKey.Whole auth body db
  | _ => True

instance (db : SpaceDb) : DecidablePred (WholeFlight db)
  | ⟨_, .rotateKey body, .ready auth⟩ => inferInstanceAs (Decidable (rotateKey.Whole auth body db))
  | ⟨_, .rotateKey _, .received⟩ | ⟨_, .rotateKey _, .authed _⟩ | ⟨_, .rotateKey _, .slotRead _ _⟩
  | ⟨_, .rotateKey _, .readyToPair _⟩ | ⟨_, .rotateKey _, .answered _⟩ | ⟨_, .pendingMessages, _⟩
  | ⟨_, .listDevices, _⟩ | ⟨_, .ackKey _, _⟩ | ⟨_, .revokeDevice _, _⟩ |
      ⟨_, .completePairing _ _, _⟩ =>
    isTrue trivial

/-- The guard of the runs below. -/
def WholeBatch (s : World) : Label → Prop
  | .serve r _ _ => ∀ f ∈ s.server.flights r, WholeFlight s.db f
  | _ => True

instance : ∀ (s : World) (l : Label), Decidable (WholeBatch s l)
  | s, .serve r _ _ => inferInstanceAs (Decidable (∀ f ∈ s.server.flights r, WholeFlight s.db f))
  | _, .join .. | _, .openPackage .. | _, .dropSlot .. | _, .syncNow .. | _, .revoke ..
  | _, .addDevice .. | _, .resend .. | _, .giveUp .. | _, .receive .. | _,
      .restart .. => isTrue trivial

theorem PcAgrees.mono {G G' : ℕ → Option GroupKey} {M M' : GroupKey → Option ℕ} {pc : Pc}
    (h : PcAgrees G M pc) (hG : Below G G') (hM : Below M M') : PcAgrees G' M' pc := by
  cases pc with
  | rotating epoch newKey wraps => exact ⟨hM _ _ h.1, h.2⟩
  | linking p body => exact hG _ _ h
  | _ => trivial

theorem AnswerAgrees.mono {G G' : ℕ → Option GroupKey} {pc : Pc} {stage : Stage}
    (h : AnswerAgrees G pc stage) (hG : Below G G') : AnswerAgrees G' pc stage := by
  cases stage with
  | answered a =>
    cases a with
    | pending resp => exact fun d hd => hG _ _ (h d hd)
    | rotated resp =>
      cases pc with
      | rotating epoch newKey wraps => exact ⟨h.1, hG _ _ h.2⟩
      | _ => trivial
    | _ => trivial
  | _ => trivial

theorem AnswerAgrees.pending {G : ℕ → Option GroupKey} {pc : Pc} {resp : PendingMessagesResponse}
    (h : AnswerAgrees G pc (.answered (.pending resp))) :
    ∀ d ∈ resp.keys, G d.epoch = some d.wrappedKey.payload.groupKey := by
  cases pc <;> exact h

theorem answerAgrees_of_isQuiet {G : ℕ → Option GroupKey} {pc : Pc} {stage : Stage}
    (h : stage.isQuiet) : AnswerAgrees G pc stage := by
  cases stage with
  | answered a =>
    cases a with
    | error e => trivial
    | _ => cases h
  | _ => trivial

variable {s s' : World} {t : TaskId} {r : RequestId} {task : Task}

theorem Agreed.setClient (h : Agreed s) {publicKey : PublicKey} {c : Client}
    (hs : ∀ ring, c.saved = some ring → Below (keyForEpoch ring) s.keyOf)
    (hm : ∀ ring, c.memory = some ring → Below (keyForEpoch ring) s.keyOf) :
    Agreed (s.setClient publicKey c) := by
  refine ⟨h.reached, h.minted, ?_, ?_, h.sent, h.rows, h.packages, h.answers⟩
  · intro p c' ring hc hring
    by_cases he : p = publicKey
    · subst he
      obtain rfl : c = c' := by simpa [World.setClient] using hc
      exact hs ring hring
    · exact h.saved p c' ring (by simpa [World.setClient, Function.update_of_ne he] using hc) hring
  · intro p c' ring hc hring
    by_cases he : p = publicKey
    · subst he
      obtain rfl : c = c' := by simpa [World.setClient] using hc
      exact hm ring hring
    · exact h.memory p c' ring (by simpa [World.setClient, Function.update_of_ne he] using hc) hring

theorem Agreed.saveBoth (h : Agreed s) {publicKey : PublicKey} {c : Client} {ring : Keyring}
    (hs : c.saved = some ring) (hm : c.memory = some ring)
    (hring : Below (keyForEpoch ring) s.keyOf) : Agreed (s.setClient publicKey c) := by
  apply h.setClient
  · intro ring' hr
    obtain rfl := Option.some.inj (hs.symm.trans hr)
    exact hring
  · intro ring' hr
    obtain rfl := Option.some.inj (hm.symm.trans hr)
    exact hring

theorem Agreed.save (h : Agreed s) {publicKey : PublicKey} {c : Client} {ring : Keyring}
    (hc : s.clients publicKey = some c) (hring : Below (keyForEpoch ring) s.keyOf) :
    Agreed (s.setClient publicKey { c with saved := some ring }) := by
  apply h.setClient
  · intro ring' hr
    obtain rfl := Option.some.inj hr
    exact hring
  · exact fun ring' hr => h.memory _ c ring' hc hr

theorem Agreed.load (h : Agreed s) {publicKey : PublicKey} {c : Client} {ring : Keyring}
    (hc : s.clients publicKey = some c) (hring : Below (keyForEpoch ring) s.keyOf) :
    Agreed (s.setClient publicKey { c with memory := some ring }) := by
  apply h.setClient
  · exact fun ring' hr => h.saved _ c ring' hc hr
  · intro ring' hr
    obtain rfl := Option.some.inj hr
    exact hring

theorem Agreed.send (h : Agreed s) (hs : s.send t task r = some s')
    (hring : Below (keyForEpoch task.ring) s.keyOf) (hpc : PcAgrees s.keyOf s.minted task.pc) :
    Agreed s' := by
  obtain ⟨_, rfl⟩ := send_eq_some hs
  refine ⟨h.reached, h.minted, h.saved, h.memory, ?_, h.rows, h.packages, ?_⟩
  · intro q task' hq
    by_cases he : q = r
    · subst he
      simp only [Function.update_self, Option.some.injEq] at hq
      subst hq
      exact ⟨hring, hpc⟩
    · simp only [Function.update_of_ne he] at hq
      exact h.sent q task' hq
  · intro q task' f hq hf
    by_cases he : q = r
    · subst he
      simp only [Function.update_self, Option.some.injEq] at hq hf
      subst hq hf
      trivial
    · simp only [Function.update_of_ne he] at hq hf
      exact h.answers q task' f hq hf

theorem Agreed.finish (h : Agreed s) : Agreed (s.finish t task) := by
  have hend : Agreed { s with tasks := Function.update s.tasks t none } :=
    ⟨h.reached, h.minted, h.saved, h.memory, h.sent, h.rows, h.packages, h.answers⟩
  rcases finish_cases s t task with he | ⟨c, hc, he⟩
  · rw [he]
    exact hend
  · rw [he]
    exact hend.setClient (fun ring hr => h.saved _ c ring hc hr) fun ring hr =>
      h.memory _ c ring hc hr

theorem Agreed.mintKey (h : Agreed s) {newKey : GroupKey} {epoch : ℕ}
    (hf : s.minted newKey = none) :
    Agreed (s.mintKey newKey epoch) := by
  have hM : Below s.minted (record s.minted newKey epoch) := below_record epoch hf
  refine ⟨h.reached, fun e k hk => hM _ _ (h.minted e k hk), h.saved, h.memory, ?_,
    h.rows, h.packages,
    h.answers⟩
  intro q task' hq
  exact ⟨(h.sent q task' hq).1, (h.sent q task' hq).2.mono (.refl _) hM⟩

theorem Agreed.mintToken (h : Agreed s) {token : Token} {p : PublicKey} :
    Agreed (s.mintToken token p) :=
  ⟨h.reached, h.minted, h.saved, h.memory, h.sent, h.rows, h.packages, h.answers⟩

theorem Agreed.continues (h : Agreed s) (hring : Below (keyForEpoch task.ring) s.keyOf)
    (hc : Continues s t task r s') : Agreed s' := by
  cases hc with
  | ends => exact h.finish
  | lists hs => exact h.send hs hring trivial

theorem Agreed.received (h : Agreed s) {c : Client} {stage : Stage} {newKey : GroupKey}
    (hc : s.clients task.publicKey = some c) (hring : Below (keyForEpoch task.ring) s.keyOf)
    (hans : AnswerAgrees s.keyOf task.pc stage) (hr : Received s t task c stage newKey r s') :
    Agreed s' := by
  cases hr with
  | ended => exact h.finish
  | empty _ hc => exact h.continues hring hc
  | adopted hpc ha _ _ hu hs =>
    rw [ha] at hans
    have hnew := adoptPendingKeys.updated_within hu hring hans.pending
    exact (h.save hc hnew).send hs hnew trivial
  | adoptedNone hpc ha _ hu hs =>
    rw [ha] at hans
    have hnew := adoptPendingKeys.updated_within hu hring hans.pending
    exact ((h.save hc hnew).saveBoth rfl rfl hnew).continues hnew hs
  | acked hpc hs => exact (h.load hc hring).continues hring hs
  | listed hpc ha hfresh hs =>
    apply (h.mintKey hfresh).send hs hring
    refine ⟨record_self, fun w hw => ?_⟩
    obtain ⟨d, _, _, hwk⟩ := rotateGroupKey.mem_wraps hw
    rw [hwk]
    rfl
  | @won resp epoch key wraps hpc ha =>
    rw [ha, hpc] at hans
    have hnew : Below (keyForEpoch (withEpoch task.ring resp.epoch key)) s.keyOf := by
      rw [keyForEpoch_withEpoch, hans.1]
      exact hring.record hans.2
    exact (h.saveBoth rfl rfl hnew).finish
  | revoked hpc hm hs => exact h.send hs (h.memory _ c _ hc hm) trivial

/-- A server step that adds no key: the rows and packages stay among the old ones,
and the answer, if there is one, agrees. -/
theorem Agreed.keep (h : Agreed s) {db' : SpaceDb} {f : Flight} {keys : List (DeviceId × GroupKey)}
    (hep : db'.keyEpoch = s.db.keyEpoch)
    (hrows : ∀ row ∈ db'.keyDistribution, row ∈ s.db.keyDistribution)
    (hslots : ∀ slot ∈ db'.pairing, ∀ p, slot.wrappedPackage = some p →
      s.keyOf p.payload.keyEpoch = some p.payload.groupKey)
    (hans : ∀ task, s.sent r = some task → AnswerAgrees s.keyOf task.pc f.stage) :
    Agreed { s with
      server := ⟨db', Function.update s.server.flights r (some f)⟩, handed := keys } := by
  refine ⟨fun e k hk => ?_, h.minted, h.saved, h.memory, h.sent,
    fun row hr => h.rows row (hrows row hr),
    hslots, ?_⟩
  · have hle : db'.keyEpoch = s.db.keyEpoch := hep
    simp only [World.db] at hle ⊢
    rw [hle]
    exact h.reached e k hk
  · intro q task' g hq hg
    by_cases he : q = r
    · subst he
      simp only [Function.update_self, Option.some.injEq] at hg
      subst hg
      exact hans task' hq
    · simp only [Function.update_of_ne he] at hg
      exact h.answers q task' g hq hg

/-- A rotation goes through: its key becomes the key of the next epoch, and every
row it adds carries that key. -/
theorem Agreed.rotated (h : Agreed s) {body : RotateKeyRequest} {auth : AuthContext} {db₁ : SpaceDb}
    {newKey : GroupKey} {keys : List (DeviceId × GroupKey)} {f : Flight}
    (hsent : s.sent r = some task) (hpc : task.pc = .rotating body.epoch newKey body.wraps)
    (hin : rotateKey.Inserted body.epoch auth.groupKeyEpoch body.wraps s.db db₁)
    (hp : rotateKey.Prepared auth body s.db) (hnext : body.epoch = auth.groupKeyEpoch + 1)
    (hf : f.stage = .answered (.rotated ⟨body.epoch, body.wraps.length⟩)) :
    Agreed { s with
      server := ⟨{ rotateKey.ownAdopted auth.deviceId body.epoch auth.groupKeyEpoch db₁ with
        keyEpoch := body.epoch, rotationPending := false },
        Function.update s.server.flights r (some f)⟩
      keyOf := record s.keyOf body.epoch newKey
      handed := keys } := by
  have hfree : s.keyOf body.epoch = none := by
    cases hk : s.keyOf body.epoch with
    | none => rfl
    | some k =>
      have hle := h.reached _ _ hk
      have hep := hp.epoch
      omega
  have hG : Below s.keyOf (record s.keyOf body.epoch newKey) := below_record newKey hfree
  have hmint := (h.sent r task hsent).2
  rw [hpc] at hmint
  refine ⟨?_, ?_, fun p c ring hc hr => (h.saved p c ring hc hr).trans hG,
    fun p c ring hc hr => (h.memory p c ring hc hr).trans hG,
    fun q task' hq => ⟨(h.sent q task' hq).1.trans hG, (h.sent q task' hq).2.mono hG (.refl _)⟩, ?_,
    ?_, ?_⟩
  · intro e k hk
    rcases record_eq_some.mp hk with ⟨he, _⟩ | ⟨_, hk⟩
    · exact he.le
    · have hle := h.reached e k hk
      have hep := hp.epoch
      show e ≤ body.epoch
      omega
  · intro e k hk
    rcases record_eq_some.mp hk with ⟨rfl, rfl⟩ | ⟨_, hk⟩
    · exact hmint.1
    · exact h.minted e k hk
  · intro row hrow
    rcases (hin.mem row).mp hrow with hrow | ⟨w, hw, rfl⟩
    · exact hG _ _ (h.rows row hrow)
    · have hkey := hmint.2 w (rotateKey.mem_landing.mp hw).1
      show record s.keyOf body.epoch newKey body.epoch = some w.wrappedKey.payload.groupKey
      rw [record_self, hkey]
  · intro slot hslot p hsp
    have hframe : db₁.pairing = s.db.pairing := by rw [hin.frame]
    exact hG _ _ (h.packages slot (hframe ▸ hslot) p hsp)
  · intro q task' g hq hg
    by_cases he : q = r
    · subst he
      simp only [Function.update_self, Option.some.injEq] at hg
      subst hg
      obtain rfl : task = task' := Option.some.inj (hsent.symm.trans hq)
      rw [hf, hpc]
      exact ⟨rfl, record_self⟩
    · simp only [Function.update_of_ne he] at hg
      exact (h.answers q task' g hq hg).mono hG

theorem Agreed.serve (hw : Wired s) (h : Agreed s) {now : ℕ} {limited : Bool}
    (hok : WholeBatch s (.serve r now limited)) (hs : s.serve r now limited = some s') :
    Agreed s' := by
  obtain ⟨task, request, stage, db', stage', hsent, hreq, hf, heff, _, rfl⟩ := hw.served hs
  have hself : ∀ {P : Task → Prop}, P task → ∀ task', s.sent r = some task' → P task' :=
    fun hP task' hq => Option.some.inj (hsent.symm.trans hq) ▸ hP
  cases heff with
  | same =>
    rw [keyOfAfter_same]
    exact h.keep rfl (fun _ hr => hr) h.packages (hself (h.answers r task _ hsent hf))
  | checked hq _ _ =>
    rw [keyOfAfter_eq (by rintro resp rfl; exact hq)]
    exact h.keep rfl (fun _ hr => hr) h.packages (hself (answerAgrees_of_isQuiet hq))
  | served =>
    rw [keyOfAfter_eq (by simp)]
    refine h.keep rfl (fun _ hr => hr) h.packages (hself ?_)
    intro d hd
    exact h.rows _ (mem_pendingKeysFor.mp hd)
  | listed =>
    rw [keyOfAfter_eq (by simp)]
    exact h.keep rfl (fun _ hr => hr) h.packages (hself (by cases task.pc <;> trivial))
  | rotated hin hp hnext =>
    obtain ⟨newKey, hpc⟩ := Pc.eq_rotating hreq
    simp only [hpc, keyOfAfter]
    exact h.rotated hsent hpc hin hp hnext rfl
  | refused hnd hfin =>
    rw [keyOfAfter_eq (by simp)]
    rcases rotateKey.refused_of_whole hnd hfin (hok _ hf) with rfl | rfl <;>
      exact h.keep rfl (fun _ hr => hr) h.packages (hself (answerAgrees_of_isQuiet trivial))
  | acked =>
    rw [keyOfAfter_eq (by simp)]
    exact h.keep rfl (fun _ hr => (ackKey.mem_run_keyDistribution.mp hr).1) h.packages
      (hself (by cases task.pc <;> trivial))
  | revoked =>
    rw [keyOfAfter_eq (by simp)]
    exact h.keep rfl (fun _ hr => (revokeDevice.mem_run_keyDistribution.mp hr).1) h.packages
      (hself (by cases task.pc <;> trivial))
  | paired hg ht =>
    rw [keyOfAfter_eq (by simp)]
    refine h.keep rfl (fun _ hr => hr) ?_ (hself (by cases task.pc <;> trivial))
    intro slot hslot p hp
    have hbody := (h.sent r task hsent).2
    rw [Pc.eq_linking hreq] at hbody
    simp only [completePairing.deposited, completePairing.registered, Table.mem_update] at hslot
    obtain ⟨slot', hslot', rfl⟩ := hslot
    split_ifs at hp
    · obtain rfl := Option.some.inj hp
      exact hbody
    · exact h.packages slot' hslot' p hp

theorem agreed_created {groupId : GroupId} {founder : SlotDevice} {pairingId : PairingId}
    {token : Token} {key : GroupKey} {elsewhere : List DeviceId} :
    Agreed (World.created groupId founder pairingId token key elsewhere) := by
  have hring : Below (keyForEpoch (createKeyring key INITIAL_KEY_EPOCH))
      (record (fun _ => none) INITIAL_KEY_EPOCH key) := by
    intro e k hk
    obtain ⟨rfl, rfl⟩ := keyForEpoch_createKeyring.mp hk
    exact record_self
  have hclient : ∀ p c,
      (World.created groupId founder pairingId token key elsewhere).clients p = some c →
      c.saved = some (createKeyring key INITIAL_KEY_EPOCH) ∧
        c.memory = some (createKeyring key INITIAL_KEY_EPOCH) := by
    intro p c hc
    simp only [World.created] at hc
    rcases record_eq_some.mp hc with ⟨_, rfl⟩ | ⟨_, hc⟩
    · exact ⟨rfl, rfl⟩
    · cases hc
  refine ⟨?_, ?_, ?_, ?_, fun _ _ h => (by cases h), fun _ h => (by cases h),
    fun _ h => (by cases h),
    fun _ _ _ h => (by cases h)⟩
  · intro e k hk
    simp only [World.created] at hk
    rcases record_eq_some.mp hk with ⟨rfl, _⟩ | ⟨_, hk⟩
    · exact le_refl _
    · cases hk
  · intro e k hk
    simp only [World.created] at hk ⊢
    rcases record_eq_some.mp hk with ⟨rfl, rfl⟩ | ⟨_, hk⟩
    · exact record_self
    · cases hk
  · intro p c ring hc hr
    obtain rfl := Option.some.inj ((hclient p c hc).1.symm.trans hr)
    exact hring
  · intro p c ring hc hr
    obtain rfl := Option.some.inj ((hclient p c hc).2.symm.trans hr)
    exact hring

theorem agreed_step {l : Label} (hw : Wired s) (h : Agreed s) (hok : WholeBatch s l)
    (hs : s.step l = some s') : Agreed s' := by
  cases l with
  | join publicKey device pairingId =>
    obtain ⟨hfree, _, _, rfl⟩ := join_cases hs
    have hreserve : Agreed { s with
        server := s.server.reserve pairingId device
        joined := (device.id, pairingId) :: s.joined } := by
      refine ⟨h.reached, h.minted, h.saved, h.memory, h.sent, h.rows, ?_, h.answers⟩
      intro slot hslot p hp
      rcases Table.mem_upsert.mp hslot with ⟨_, hslot | rfl⟩ | ⟨_, slot', hslot', he⟩
      · exact h.packages slot hslot p hp
      · cases hp
      · simp only [Bool.false_eq_true, and_false, if_false] at he
        exact h.packages slot (he ▸ hslot') p hp
    exact hreserve.setClient (fun _ hr => nomatch hr) fun _ hr => nomatch hr
  | openPackage publicKey =>
    obtain ⟨c, slot, package, payload, hc, hslot, _, hp, rfl, _, rfl⟩ := openPackage_cases hs
    have hkey := h.packages slot hslot _ hp
    have hring : Below (keyForEpoch (createKeyring payload.groupKey payload.keyEpoch)) s.keyOf := by
      intro e k hk
      obtain ⟨rfl, rfl⟩ := keyForEpoch_createKeyring.mp hk
      exact hkey
    exact h.saveBoth rfl rfl hring
  | dropSlot pairingId =>
    obtain rfl := Option.some.inj hs
    refine ⟨h.reached, h.minted, h.saved, h.memory, h.sent, h.rows, ?_, h.answers⟩
    intro slot hslot
    exact h.packages slot (Table.mem_delete.mp hslot).1
  | syncNow t publicKey r =>
    obtain ⟨c, _, ring, hc, _, hm, _, hs⟩ := syncNow_cases hs
    have hrun : Agreed (s.setClient publicKey { c with running := true }) :=
      h.setClient (fun ring' hr => h.saved _ c ring' hc hr) fun ring' hr => h.memory _ c ring' hc hr
    exact hrun.send hs (h.memory _ c ring hc hm) trivial
  | revoke t publicKey deviceId r =>
    obtain ⟨c, _, ring, hc, _, hm, _, hs⟩ := revoke_cases hs
    exact h.send hs (h.memory _ c ring hc hm) trivial
  | addDevice t publicKey joiner token r =>
    obtain ⟨c, _, ring, _, key, hc, _, hm, _, hkey, _, _, hs⟩ := addDevice_cases hs
    have hring := h.memory _ c ring hc hm
    exact h.mintToken.send hs hring (hring _ _ hkey)
  | serve r now limited => exact h.serve hw hok hs
  | resend t r =>
    obtain ⟨task, ht, hs⟩ := resend_cases hs
    have htask := h.sent _ task (hw.task_sent t task ht)
    exact h.send hs htask.1 htask.2
  | giveUp t =>
    obtain ⟨_, _, rfl⟩ := giveUp_cases hs
    exact h.finish
  | receive t r trusted newKey =>
    obtain ⟨task, c, f, a, ht, hc, hf, _, hr⟩ := receive_cases hs
    have hsent := hw.task_sent t task ht
    exact h.received hc (h.sent _ task hsent).1 (h.answers _ task f hsent hf) hr
  | restart publicKey =>
    obtain ⟨c, hc, rfl⟩ := restart_cases hs
    have hload : Agreed (s.setClient publicKey { c with memory := c.saved, running := false }) :=
      h.setClient (fun ring hr => h.saved _ c ring hc hr) fun ring hr => h.saved _ c ring hc hr
    exact ⟨hload.reached, hload.minted, hload.saved, hload.memory, hload.sent, hload.rows,
      hload.packages, hload.answers⟩

/-- A keyring somewhere in the system holds `key` for an epoch: persisted, in
memory, or carried by a task. -/
def Holds (s : World) (publicKey : PublicKey) (epoch : ℕ) (key : GroupKey) : Prop :=
  (∃ c ring, s.clients publicKey = some c ∧ (c.saved = some ring ∨ c.memory = some ring) ∧
      keyForEpoch ring epoch = some key) ∨
    ∃ t task, s.tasks t = some task ∧ task.publicKey = publicKey ∧
      keyForEpoch task.ring epoch = some key

theorem Agreed.holds (hw : Wired s) (h : Agreed s) {p : PublicKey} {e : ℕ} {k : GroupKey}
    (hk : Holds s p e k) : s.keyOf e = some k := by
  rcases hk with ⟨c, ring, hc, hr | hr, hk⟩ | ⟨t, task, ht, _, hk⟩
  · exact h.saved p c ring hc hr e k hk
  · exact h.memory p c ring hc hr e k hk
  · exact (h.sent _ task (hw.task_sent t task ht)).1 e k hk

section
variable {groupId : GroupId} {founder : SlotDevice} {pairingId : PairingId} {token : Token}
  {key : GroupKey} {elsewhere : List DeviceId}

theorem wired_of_reachableVia {ok : World → Label → Prop} (hid : founder.id ∉ elsewhere)
    (h : Runs.ReachableVia step ok
      (World.created groupId founder pairingId token key elsewhere) s) :
    Wired s :=
  h.invariant (wired_created hid) fun _ _ _ hw _ hs => wired_step hw hs

theorem agreed_of_reachableVia (hid : founder.id ∉ elsewhere)
    (h : Runs.ReachableVia step WholeBatch
      (World.created groupId founder pairingId token key elsewhere) s) : Agreed s := by
  apply h.invariant_with (fun _ => wired_of_reachableVia hid) agreed_created
  intro s l t hw ha hok hs
  exact agreed_step hw ha hok hs

/-- In every run whose rotation batches land no wrap without going through, any two
keyrings agree on every epoch both hold, and none holds an epoch the group has not
reached. -/
theorem no_split_brain (hid : founder.id ∉ elsewhere)
    (h : Runs.ReachableVia step WholeBatch
      (World.created groupId founder pairingId token key elsewhere) s) :
    (∀ p q e k k', Holds s p e k → Holds s q e k' → k = k') ∧
      ∀ p e k, Holds s p e k → e ≤ s.db.keyEpoch := by
  have hw := wired_of_reachableVia hid h
  have ha := agreed_of_reachableVia hid h
  constructor
  · intro p q e k k' hk hk'
    exact Option.some.inj ((ha.holds hw hk).symm.trans (ha.holds hw hk'))
  · intro p e k hk
    exact ha.reached e k (ha.holds hw hk)

end

/-- The owner links a device which mints the given identity. -/
def linking (t : TaskId) (publicKey : PublicKey) (deviceId : DeviceId) (pairingId : PairingId)
    (token : Token) : List Label :=
  [.join publicKey ⟨deviceId, publicKey, none, false⟩ pairingId, .addDevice t 101 publicKey token t,
   .serve t 0 false, .serve t 0 false, .serve t 0 false, .serve t 0 false, .receive t 0 true 0,
   .openPackage publicKey]

def splitStart : World := .created 7 ⟨1, 101, none, false⟩ 51 11 1000 []

/-- A rotation that goes through meets the guard: device 3 is revoked, and the owner
rotates for itself and device 2. -/
def wholeRun : List Label :=
  linking 1 102 2 52 12 ++ linking 2 103 3 53 13 ++
  [.revoke 4 101 3 4, .serve 4 0 false, .serve 4 0 false, .serve 4 9 false, .receive 4 5 true 0,
   .serve 5 0 false, .serve 5 0 false, .receive 4 6 true 2001,
   .serve 6 0 false, .serve 6 0 false, .serve 6 0 false, .receive 4 0 true 0,
   .syncNow 7 102 7, .serve 7 0 false, .serve 7 0 false, .receive 7 8 true 0]

theorem no_split_brain_wholeRun :
    ∃ s, Runs.replayVia step WholeBatch splitStart wholeRun = some s ∧
      (∀ p q e k k', Holds s p e k → Holds s q e k' → k = k') ∧
        ∀ p e k, Holds s p e k → e ≤ s.db.keyEpoch := by
  obtain ⟨s, hs⟩ := Option.isSome_iff_exists.mp
    (by decide +kernel : (Runs.replayVia step WholeBatch splitStart wholeRun).isSome = true)
  exact ⟨s, hs, no_split_brain (by decide) (Runs.reachableVia_of_replayVia hs)⟩

/-- Up to the moment at which device 3 adopts a wrap of the rotation that lost. -/
def orphanRun : List Label :=
  linking 1 102 2 52 12 ++ linking 2 103 3 53 13 ++ linking 3 105 5 55 15 ++
  [.revoke 4 101 5 4, .serve 4 0 false, .serve 4 0 false, .serve 4 9 false,
   .syncNow 5 102 5, .serve 5 0 false, .serve 5 0 false, .receive 5 6 true 0,
   .serve 6 0 false, .serve 6 0 false, .receive 5 7 true 2002, .serve 7 0 false,
   .serve 7 0 false] ++
  linking 8 104 4 54 14 ++
  [.serve 7 0 false, .receive 5 0 true 0,
   .syncNow 9 103 9, .serve 9 0 false, .serve 9 0 false, .receive 9 10 true 0]

/-- The owner then rotates itself, while a sync pass of its own already carries
the wrap of the lost rotation. -/
def splitRun : List Label :=
  orphanRun ++
  [.syncNow 11 101 11, .serve 11 0 false, .serve 11 0 false,
   .revoke 12 101 3 12, .serve 12 0 false, .serve 12 0 false, .serve 12 10 false,
   .receive 12 13 true 0,
   .serve 13 0 false, .serve 13 0 false, .receive 12 14 true 2001,
   .serve 14 0 false, .serve 14 0 false, .serve 14 0 false, .receive 12 0 true 0,
   .syncNow 15 102 15, .serve 15 0 false, .serve 15 0 false, .receive 15 16 true 0,
   .receive 11 17 true 0]

/-- A persisted keyring of the device with this key holds `key` for the epoch. -/
def savedHolds (s : World) (publicKey : PublicKey) (epoch : ℕ) (key : GroupKey) : Bool :=
  (s.clients publicKey).any fun c => c.saved.any fun ring =>
    decide (keyForEpoch ring epoch = some key)

theorem holds_of_savedHolds {p : PublicKey} {e : ℕ} {k : GroupKey} (h : savedHolds s p e k = true) :
    Holds s p e k := by
  simp only [savedHolds, Option.any_eq_true, decide_eq_true_eq] at h
  obtain ⟨c, hc, ring, hr, hk⟩ := h
  exact Or.inl ⟨c, ring, hc, Or.inl hr, hk⟩

/-- A device holds a key for an epoch the group has not reached, and two active
devices hold different keys for the same epoch. -/
theorem split_brain :
    (∃ s, Runs.Reachable step splitStart s ∧ Holds s 103 2 2002 ∧ s.db.keyEpoch = 1) ∧
      ∃ s, Runs.Reachable step splitStart s ∧ Holds s 101 2 2002 ∧ Holds s 102 2 2001 ∧
        s.db.isActive 1 = true ∧ s.db.isActive 2 = true := by
  constructor
  · obtain ⟨s, hs, hk, he⟩ := @Runs.exists_reachable_of_replay _ _ step splitStart orphanRun
      (fun s => savedHolds s 103 2 2002 = true ∧ s.db.keyEpoch = 1) _ (by decide +kernel)
    exact ⟨s, hs, holds_of_savedHolds hk, he⟩
  · obtain ⟨s, hs, hk, hk', ha⟩ := @Runs.exists_reachable_of_replay _ _ step splitStart splitRun
      (fun s => savedHolds s 101 2 2002 = true ∧ savedHolds s 102 2 2001 = true ∧
        s.db.isActive 1 = true ∧ s.db.isActive 2 = true) _ (by decide +kernel)
    exact ⟨s, hs, holds_of_savedHolds hk, holds_of_savedHolds hk', ha⟩

end SendSelf.World
