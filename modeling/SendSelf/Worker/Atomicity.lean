import SendSelf.Worker.Requests

/-!
# When a rotation is all or nothing

A rotation that answers an error should leave the key state of the group as if
it had never been sent. Its batch does so in exactly four situations: it is
rolled back by a row that stands in the way, its compare-and-swap goes through,
or none of its statements has anything to change. This is compared with the run
in which the request's steps are left out, whatever other requests commit
between them.
-/
namespace SendSelf

/-- What a rotation writes: the group's epoch and flag, the devices' epochs and
the waiting keys. -/
structure KeyState where
  keyEpoch : ℕ
  rotationPending : Bool
  deviceEpochs : List (DeviceId × ℕ)
  keyDistribution : List KeyRow
deriving DecidableEq, Repr

def SpaceDb.keyState (db : SpaceDb) : KeyState where
  keyEpoch := db.keyEpoch
  rotationPending := db.rotationPending
  deviceEpochs := db.devices.rows.map fun d => (d.id, d.keyEpoch)
  keyDistribution := db.keyDistribution.rows

namespace rotateKey

/-- No statement of the batch has anything to change. -/
structure Idle (auth : AuthContext) (body : RotateKeyRequest) (db : SpaceDb) : Prop where
  wraps : landing auth.groupKeyEpoch db body.wraps = []
  caller : ∀ d ∈ db.devices, ownRow auth.deviceId auth.groupKeyEpoch d = false

/-- The batch is rolled back, goes through, or has nothing to change. -/
def AllOrNothing (auth : AuthContext) (body : RotateKeyRequest) (db : SpaceDb) : Prop :=
  Clash body.epoch auth.groupKeyEpoch db body.wraps ∨ Prepared auth body db ∨ Idle auth body db

theorem ownAdopted_idle {i : DeviceId} {e p : ℕ} {db : SpaceDb}
    (h : ∀ d ∈ db.devices, ownRow i p d = false) : ownAdopted i e p db = db := by
  rw [ownAdopted, Table.update_eq_self h]

/-- A caller's row that is still at the previous epoch is seen to move. -/
theorem deviceEpochs_ownAdopted {i : DeviceId} {e p : ℕ} {db : SpaceDb} (hne : e ≠ p)
    (h : (ownAdopted i e p db).keyState.deviceEpochs = db.keyState.deviceEpochs) :
    ∀ d ∈ db.devices, ownRow i p d = false := by
  intro d hd
  by_contra hown
  simp only [Bool.not_eq_false] at hown
  simp only [SpaceDb.keyState, ownAdopted, Table.update, List.map_map] at h
  have hpt := List.map_inj_left.mp h d hd
  simp only [Function.comp_apply, hown, if_true, Prod.mk.injEq, true_and] at hpt
  simp only [ownRow, Bool.and_eq_true, decide_eq_true_eq] at hown
  exact hne (hpt.trans hown.2)

/-- The batch keeps the key state whenever it answers an error exactly in the
situations of `AllOrNothing`. -/
theorem finish_keyState_iff {auth : AuthContext} {body : RotateKeyRequest} {db : SpaceDb}
    (hnd : (body.wraps.map KeyWrap.deviceId).Nodup) (hep : body.epoch = auth.groupKeyEpoch + 1) :
    (∀ e, (finish auth body db).2 = .error e → (finish auth body db).1.keyState = db.keyState) ↔
      AllOrNothing auth body db := by
  rcases @finish_spec auth body db hnd with ⟨hc, hf⟩ | ⟨db₁, hin, hend⟩
  · exact iff_of_true (fun e _ => by rw [hf]) (Or.inl hc)
  rcases hend with ⟨hs, hf⟩ | ⟨hs, hf⟩
  · exact iff_of_true (fun e he => by simp [hf] at he) (Or.inr (Or.inl ((swapGuard_iff hin).mp hs)))
  have hnp : ¬ Prepared auth body db := fun hp => by simp [(swapGuard_iff hin).mpr hp] at hs
  rw [hf]
  simp only [Except.error.injEq, AllOrNothing, hin.clear, hnp, false_or]
  constructor
  · intro h
    have hkey := h alreadyRotated rfl
    have hrows : db₁.keyDistribution.rows = db.keyDistribution.rows :=
      congrArg KeyState.keyDistribution hkey
    refine ⟨?_, ?_⟩
    · by_contra hne
      obtain ⟨w, hw⟩ := List.exists_mem_of_ne_nil _ hne
      have hrow : keyRow body.epoch w ∈ db₁.keyDistribution := (hin.mem _).mpr (Or.inr ⟨w, hw, rfl⟩)
      rw [Table.mem_def, hrows] at hrow
      exact hin.clear ⟨w, hw, _, hrow, rfl, rfl⟩
    · rw [← hin.devices]
      apply deviceEpochs_ownAdopted (e := body.epoch) (by omega)
      have hdev := congrArg KeyState.deviceEpochs hkey
      rw [hdev]
      simp only [SpaceDb.keyState, hin.devices]
  · intro hidle e _
    rw [hin.eq_self hidle.wraps, ownAdopted_idle hidle.caller]

/-- The checks a rotation has passed at each stage. -/
def Checked (body : RotateKeyRequest) : Stage → Prop
  | .authed auth => body.epoch = auth.groupKeyEpoch + 1
  | .ready auth => body.epoch = auth.groupKeyEpoch + 1 ∧ (body.wraps.map KeyWrap.deviceId).Nodup
  | _ => True

theorem checked_next {limited : Bool} {token : Token} {body : RotateKeyRequest} {db : SpaceDb}
    {stage : Stage} (h : Checked body stage) :
    Checked body (next limited token body db stage).2 := by
  cases stage with
  | received =>
    apply Stage.ofCheck_cases (fun _ => trivial)
    intro stage hs
    simp only [bind_eq_ok, pure_eq_ok] at hs
    obtain ⟨auth, _, _, _, _, hc, rfl⟩ := hs
    exact (checkRequest_ok hc).2.2
  | authed auth =>
    apply Stage.ofCheck_cases (fun _ => trivial)
    intro stage hs
    simp only [bind_eq_ok, pure_eq_ok] at hs
    obtain ⟨_, hc, rfl⟩ := hs
    exact ⟨h, (checkRecipients_ok hc).1⟩
  | ready auth =>
    simp only [next]
    split <;> trivial
  | slotRead auth device => exact h
  | readyToPair device => exact h
  | answered a => exact h

end rotateKey

/-- The events of a run which do not belong to request `r`. -/
def others (r : RequestId) (es : List ServerEvent) : List ServerEvent :=
  es.filter fun e => decide (e.requestId ≠ some r)

/-- Two servers that differ at most in what they know of request `r`. -/
structure SameBut (r : RequestId) (s t : Server) : Prop where
  db : s.db = t.db
  flights : ∀ q, q ≠ r → s.flights q = t.flights q

namespace Server

/-- A request that was answered stays answered. -/
theorem step_answered {s s' : Server} {e : ServerEvent} {r : RequestId} {f : Flight} {a : Answer}
    (h : s.step e = some s') (hr : s.flights r = some f) (ha : f.stage = .answered a) :
    s'.flights r = some f := by
  cases e with
  | receive q token request =>
    simp only [step, receive] at h
    cases hq : s.flights q with
    | some g => simp [hq] at h
    | none =>
      simp only [hq, Option.some.injEq] at h
      subst h
      have hne : r ≠ q := by
        intro he
        simp [he, hq] at hr
      simpa [Function.update_of_ne hne] using hr
  | advance q now limited =>
    simp only [step, advance, Option.map_eq_some_iff] at h
    obtain ⟨g, hg, rfl⟩ := h
    by_cases he : r = q
    · subst he
      obtain rfl : g = f := Option.some.inj (hg.symm.trans hr)
      have hstage := ApiRequest.advance_answered now limited g.token g.request s.db a
      simp only [ha, hstage, Function.update_self]
      rw [← ha]
    · simpa [Function.update_of_ne he] using hr
  | reserve p device =>
    obtain rfl := Option.some.inj h
    exact hr
  | release p =>
    obtain rfl := Option.some.inj h
    exact hr

theorem replay_answered {s s' : Server} {es : List ServerEvent} {r : RequestId} {f : Flight}
    {a : Answer} (h : Runs.replay step s es = some s') (hr : s.flights r = some f)
    (ha : f.stage = .answered a) : s'.flights r = some f := by
  induction es generalizing s with
  | nil =>
    obtain rfl := Option.some.inj h
    exact hr
  | cons e es ih =>
    simp only [Runs.replay, Option.bind_eq_some_iff] at h
    obtain ⟨u, hu, hrest⟩ := h
    exact ih hrest (step_answered hu hr ha)

/-- A step of another request goes the same way on both servers. -/
theorem step_other {r : RequestId} {s t u : Server} {e : ServerEvent} (h : SameBut r s t)
    (he : e.requestId ≠ some r) (hs : s.step e = some u) :
    ∃ v, t.step e = some v ∧ SameBut r u v := by
  have hupd : ∀ q, q ≠ r → ∀ g p, p ≠ r →
      Function.update s.flights q g p = Function.update t.flights q g p := by
    intro q _ g p hp
    by_cases hpq : p = q
    · simp [hpq]
    · simp only [Function.update_of_ne hpq, h.flights p hp]
  cases e with
  | receive q token request =>
    have hq : q ≠ r := fun hq => he (by rw [hq]; rfl)
    simp only [step, receive, ← h.flights q hq] at hs ⊢
    cases hf : s.flights q with
    | some g => simp [hf] at hs
    | none =>
      simp only [hf, Option.some.injEq] at hs
      exact ⟨_, rfl, hs ▸ ⟨h.db, hupd q hq _⟩⟩
  | advance q now limited =>
    have hq : q ≠ r := fun hq => he (by rw [hq]; rfl)
    simp only [step, advance, Option.map_eq_some_iff, ← h.flights q hq, ← h.db] at hs ⊢
    obtain ⟨g, hg, rfl⟩ := hs
    exact ⟨_, ⟨g, hg, rfl⟩, rfl, hupd q hq _⟩
  | reserve p device =>
    obtain rfl := Option.some.inj hs
    exact ⟨_, rfl, by simp only [reserve, h.db], h.flights⟩
  | release p =>
    obtain rfl := Option.some.inj hs
    exact ⟨_, rfl, by simp only [release, h.db], h.flights⟩

/-- A step of the request itself changes nothing else, unless it answers it. -/
theorem step_own {r : RequestId} {s u : Server} {e : ServerEvent} (he : e.requestId = some r)
    (hs : s.step e = some u) :
    SameBut r u s ∨ ∃ f a, u.flights r = some f ∧ f.stage = .answered a := by
  cases e with
  | receive q token request =>
    obtain rfl : q = r := Option.some.inj he
    simp only [step, receive] at hs
    cases hf : s.flights q with
    | some g => simp [hf] at hs
    | none =>
      simp only [hf, Option.some.injEq] at hs
      subst hs
      exact Or.inl ⟨rfl, fun p hp => Function.update_of_ne hp _ _⟩
  | advance q now limited =>
    obtain rfl : q = r := Option.some.inj he
    simp only [step, advance, Option.map_eq_some_iff] at hs
    obtain ⟨f, hf, rfl⟩ := hs
    cases hans : (f.request.advance now limited f.token s.db f.stage).2.isAnswered with
    | true =>
      obtain ⟨a, ha⟩ := Stage.answered_of_isAnswered hans
      exact Or.inr ⟨_, a, Function.update_self .., ha⟩
    | false =>
      exact Or.inl ⟨ApiRequest.advance_db hans, fun p hp => Function.update_of_ne hp _ _⟩
  | reserve p device => cases he
  | release p => cases he

/-- Without the steps of a request that is not answered yet, the rest of a run
goes the same way. -/
theorem replay_others {r : RequestId} {s t s' : Server} {es : List ServerEvent}
    (h : SameBut r s t) (hrun : Runs.replay step s es = some s')
    (hun : ∀ f, s'.flights r = some f → f.stage.isAnswered = false) :
    ∃ t', Runs.replay step t (others r es) = some t' ∧ SameBut r s' t' := by
  induction es generalizing s t with
  | nil =>
    obtain rfl := Option.some.inj hrun
    exact ⟨t, rfl, h⟩
  | cons e es ih =>
    simp only [Runs.replay, Option.bind_eq_some_iff] at hrun
    obtain ⟨u, hu, hrest⟩ := hrun
    by_cases he : e.requestId = some r
    · have hskip : others r (e :: es) = others r es := by simp [others, he]
      rw [hskip]
      rcases step_own he hu with hsame | ⟨f, a, hf, ha⟩
      · exact ih ⟨hsame.db.trans h.db,
          fun q hq => (hsame.flights q hq).trans (h.flights q hq)⟩ hrest
      · have hend := hun f (replay_answered hrest hf ha)
        simp [ha, Stage.isAnswered] at hend
    · have hkeep : others r (e :: es) = e :: others r es := by simp [others, he]
      obtain ⟨v, hv, hsame⟩ := step_other h he hu
      obtain ⟨t', ht', hs'⟩ := ih hsame hrest
      refine ⟨t', ?_, hs'⟩
      rw [hkeep, Runs.replay, hv]
      exact ht'

/-- Every rotation has passed the checks of its stage. -/
def Checked (s : Server) : Prop := ∀ r f body, s.flights r = some f → f.request = .rotateKey body →
  rotateKey.Checked body f.stage

theorem Checked.step {s s' : Server} {e : ServerEvent} (h : s.Checked) (hs : s.step e = some s') :
    s'.Checked := by
  intro r f body hf hb
  cases e with
  | receive q token request =>
    simp only [Server.step, receive] at hs
    split at hs
    · obtain rfl := Option.some.inj hs
      by_cases hq : r = q
      · subst hq
        simp only [Function.update_self, Option.some.injEq] at hf
        subst hf
        trivial
      · exact h r f body (by simpa [Function.update_of_ne hq] using hf) hb
    · cases hs
  | advance q now limited =>
    simp only [Server.step, advance, Option.map_eq_some_iff] at hs
    obtain ⟨g, hg, rfl⟩ := hs
    by_cases hq : r = q
    · subst hq
      simp only [Function.update_self, Option.some.injEq] at hf
      subst hf
      have hgb : g.request = .rotateKey body := hb
      simp only [hgb]
      exact rotateKey.checked_next (h r g body hg hgb)
    · exact h r f body (by simpa [Function.update_of_ne hq] using hf) hb
  | reserve p device =>
    obtain rfl := Option.some.inj hs
    exact h r f body hf hb
  | release p =>
    obtain rfl := Option.some.inj hs
    exact h r f body hf hb

theorem checked_of_reachable {s₀ s : Server} (h₀ : ∀ r, s₀.flights r = none)
    (h : Runs.Reachable step s₀ s) : s.Checked := by
  refine h.invariant ?_ fun _ _ _ hc _ hs => hc.step hs
  intro r f body hf
  simp [h₀ r] at hf

end Server

/-- A rotation that is about to answer, at the end of any run: an error leaves the
key state as the run without the request has it, exactly when the batch, if it
has come to its batch, is all or nothing in the database it finds. -/
theorem rotateKey_error_changes_nothing_iff {groupId : GroupId} {founder : SlotDevice}
    {founderToken : Token} {elsewhere : List DeviceId} {es : List ServerEvent} {s : Server}
    (hrun : Runs.replay Server.step (.founded groupId founder founderToken elsewhere) es = some s)
    {r : RequestId} {token : Token} {body : RotateKeyRequest} {stage : Stage}
    (hr : s.flights r = some ⟨token, .rotateKey body, stage⟩) (hun : stage.isAnswered = false)
    {now : ℕ} {limited : Bool} {db' : SpaceDb} {a : Answer}
    (hans : (ApiRequest.rotateKey body).advance now limited token s.db stage = (db', .answered a)) :
    ∃ t, Runs.replay Server.step (.founded groupId founder founderToken elsewhere) (others r es) =
        some t ∧
      ((∀ e, a = .error e → db'.keyState = t.db.keyState) ↔
        ∀ auth, stage = .ready auth → rotateKey.AllOrNothing auth body s.db) := by
  have hself : SameBut r (Server.founded groupId founder founderToken elsewhere)
      (Server.founded groupId founder founderToken elsewhere) := ⟨rfl, fun _ _ => rfl⟩
  obtain ⟨t, ht, hsame⟩ := Server.replay_others hself hrun fun f hf => by
    obtain rfl : _ = f := Option.some.inj (hr.symm.trans hf)
    exact hun
  refine ⟨t, ht, ?_⟩
  rw [← hsame.db]
  have hchk :=
    Server.checked_of_reachable (fun _ => rfl) (Runs.reachable_of_replay hrun) r _ _ hr rfl
  cases stage with
  | ready auth =>
    rw [show (∀ auth', Stage.ready auth = .ready auth' → rotateKey.AllOrNothing auth' body s.db) ↔
      rotateKey.AllOrNothing auth body s.db by simp, ← rotateKey.finish_keyState_iff hchk.2 hchk.1]
    simp only [ApiRequest.advance, rotateKey.next] at hans
    cases hfin : rotateKey.finish auth body s.db with
    | mk db₁ res =>
      cases res with
      | error e =>
        simp only [hfin, Prod.mk.injEq, Stage.answered.injEq] at hans
        obtain ⟨rfl, rfl⟩ := hans
        simp
      | ok resp =>
        simp only [hfin, Prod.mk.injEq, Stage.answered.injEq] at hans
        obtain ⟨rfl, rfl⟩ := hans
        simp
  | answered b => simp [Stage.isAnswered] at hun
  | _ =>
    simp only [ApiRequest.advance, rotateKey.next, Prod.mk.injEq] at hans
    refine iff_of_true (fun e _ => by rw [hans.1]) (fun auth hauth => by cases hauth)

def raceFounder : SlotDevice := ⟨1, 101, none, false⟩

def raceStart : Server := .founded 7 raceFounder 11 []

/-- The package a device with this slot, key and token is linked with. -/
def raceLink (pairingId : PairingId) (publicKey : PublicKey) (token : Token) : ApiRequest :=
  .completePairing pairingId
    { wrappedPackage := wrapPairingPackage publicKey ⟨1000, 1, token, 7⟩ pairingId
      scannedPublicKey := publicKey
      scannedSigningPublicKey := none
      deviceAuthTokenHash := sha256Hex token
      keyEpoch := 1 }

def raceRotation (recipient : DeviceId) (publicKey : PublicKey) (key : GroupKey) :
    RotateKeyRequest :=
  ⟨2, [⟨recipient, wrapRotatedKey publicKey key 7 2 recipient⟩]⟩

def raceEvents : List ServerEvent :=
  [.reserve 52 ⟨2, 102, none, false⟩, .receive 0 11 (raceLink 52 102 12),
   .advance 0 0 false, .advance 0 0 false, .advance 0 0 false, .advance 0 0 false,
   .reserve 53 ⟨3, 103, none, false⟩, .receive 1 11 (raceLink 53 103 13),
   .advance 1 0 false, .advance 1 0 false, .advance 1 0 false, .advance 1 0 false,
   .receive 2 11 (.revokeDevice 3), .advance 2 0 false, .advance 2 0 false, .advance 2 9 false,
   .receive 3 11 (.rotateKey (raceRotation 2 102 2001)), .advance 3 0 false, .advance 3 0 false,
   .receive 4 12 (.rotateKey (raceRotation 1 101 2002)), .advance 4 0 false, .advance 4 0 false,
   .advance 3 0 false]

def raceAuth (deviceId : DeviceId) (role : DeviceRole) : AuthContext :=
  ⟨deviceId, role, 1, 1, true, false⟩

/-- The criterion, read at the loser's batch. -/
theorem rotateKey_error_changes_nothing_race :
    ∃ (s t : Server) (db' : SpaceDb) (a : Answer),
      Runs.replay Server.step raceStart raceEvents = some s ∧
      Runs.replay Server.step raceStart (others 4 raceEvents) = some t ∧
      ((∀ e, a = .error e → db'.keyState = t.db.keyState) ↔
        ∀ auth, Stage.ready (raceAuth 2 .member) = .ready auth →
          rotateKey.AllOrNothing auth (raceRotation 1 101 2002) s.db) := by
  have hrun : Runs.replay Server.step raceStart raceEvents = some _ := rfl
  obtain ⟨t, ht, hiff⟩ := @rotateKey_error_changes_nothing_iff 7 raceFounder 11 [] raceEvents _ hrun
    4 12 (raceRotation 1 101 2002) (.ready (raceAuth 2 .member)) (by decide +kernel) rfl 0
      false _ _ rfl
  exact ⟨_, t, _, _, hrun, ht, hiff⟩

/-- The loser of the race is told of a conflict, and yet its own row of `devices`
has moved to the new epoch. -/
theorem rotateKey_conflict_moves_own_row :
    ∃ s t db' a, Runs.replay Server.step raceStart raceEvents = some s ∧
      s.flights 4 = some ⟨12, .rotateKey (raceRotation 1 101 2002), .ready (raceAuth 2 .member)⟩ ∧
      (ApiRequest.rotateKey (raceRotation 1 101 2002)).advance 0 false 12 s.db
        (.ready (raceAuth 2 .member)) = (db', .answered a) ∧
      Runs.replay Server.step raceStart (others 4 raceEvents) = some t ∧
      a = .error rotateKey.alreadyRotated ∧
      t.db.keyState.deviceEpochs = [(1, 2), (2, 1), (3, 1)] ∧
      db'.keyState.deviceEpochs = [(1, 2), (2, 2), (3, 1)] := by
  refine ⟨_, _, _, _, rfl, ?_, rfl, rfl, ?_, ?_, ?_⟩
  · decide +kernel
  · decide +kernel
  · decide +kernel
  · decide +kernel

end SendSelf
