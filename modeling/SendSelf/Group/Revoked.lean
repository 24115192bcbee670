import SendSelf.Group.Roles

/-!
# Requests that outlive their caller

A handler looks its caller up once. A revocation may commit between that and a later
statement, and most statements do not look again. The log keeps the caller of each request,
the requests whose caller has been revoked since, and the steps they have still made.
-/
namespace SendSelf

inductive RequestKey where
  | flight (r : RequestId)
  | job (r : RequestId)
  | call (r : RequestId)
deriving DecidableEq, Repr

/-- The caller of a send, while it is on its way. -/
def SendStage.auth : SendStage → Option AuthContext
  | .authed auth | .targeting auth _ | .destroying auth _ | .clearing auth _ | .listing auth |
    .heading auth _
  | .inserting auth _ => some auth
  | _ => none

def Job.auth : Job → Option AuthContext
  | .send _ _ stage => stage.auth
  | _ => none

theorem Job.auth_of_isNew {job : Job} (h : job.isNew = true) : job.auth = none := by
  unfold isNew at h
  split at h
  · rfl
  · rfl
  · rfl
  · rfl
  · rfl
  · cases h

namespace GroupServer

/-- The caller that a request has found. -/
def caller (s : GroupServer) : RequestKey → Option AuthContext
  | .flight r => (s.flights r).bind fun f => f.stage.auth
  | .job r => (s.jobs r).bind Job.auth
  | .call r => (s.calls r).bind GroupCall.auth

/-- The request that an event takes a step of, when it is one that writes for its caller. The
purge after a revocation belongs to the request for it. -/
def requestOf (s : GroupServer) : GroupEvent → Option RequestKey
  | .files (.server (.advance r _ _)) =>
      match s.flights r with
      | some ⟨_, .completePairing _ _, _⟩ | some ⟨_, .revokeDevice _, _⟩ |
          some ⟨_, .rotateKey _, _⟩ => some (.flight r)
      | _ => none
  | .purge r _ => some (.flight r)
  | .files (.run r _) =>
      match s.jobs r with
      | some (.send _ _ _) => some (.job r)
      | _ => none
  | .run r _ _ =>
      match s.calls r with
      | some (.role _ _ _ _) | some (.name _ _ _) | some (.vault _ _ _ _) => some (.call r)
      | _ => none
  | _ => none

/-- The rows of the group's tables are as they were. -/
structure SameRows (s t : GroupServer) : Prop where
  messages : t.files.files.messages = s.files.files.messages
  items : t.vault.items = s.vault.items
  devices : t.space.devices = s.space.devices
  pairing : t.space.pairing = s.space.pairing
  keyDistribution : t.space.keyDistribution = s.space.keyDistribution
  keyEpoch : t.space.keyEpoch = s.space.keyEpoch
  rotationPending : t.space.rotationPending = s.space.rotationPending
  name : t.name = s.name
  seq : t.vault.seq = s.vault.seq
  floor : t.vault.floor = s.vault.floor

end GroupServer

/-- What is left of the handler writes none of the group's rows. -/
def Flight.spent : Flight → Bool
  | ⟨_, .completePairing _ _, stage⟩ | ⟨_, .revokeDevice _, stage⟩ | ⟨_, .rotateKey _, stage⟩ =>
      stage.isAnswered
  | _ => true

def PurgeStage.spent : PurgeStage → Bool
  | .done => true
  | _ => false

/-- A send that nobody is to receive may still drop its object. -/
def SendStage.spent : SendStage → Bool
  | .dropping _ | .dropped _ | .answered _ => true
  | _ => false

def Job.spent : Job → Bool
  | .send _ _ stage => stage.spent
  | _ => true

/-- A refused creation still counts the items, for its answer. -/
def VaultJob.spent : VaultJob → Bool
  | .create _ .refused | .create _ (.answered _) | .update _ _ (.answered _)
  | .reseal _ (.answered _) | .delete _ (.answered _) => true
  | _ => false

def GroupCall.spent : GroupCall → Bool
  | .role _ _ _ (.answered _) | .name _ _ (.answered _) => true
  | .role _ _ _ _ | .name _ _ _ => false
  | .vault _ _ _ job => job.spent
  | .createGroup _ _ | .cleanUp _ _ => true

namespace GroupServer

/-- Nothing is left of a request that writes for its caller. -/
def spent (s : GroupServer) : RequestKey → Bool
  | .flight r => (s.flights r).all Flight.spent && (s.purges r).all PurgeStage.spent
  | .job r => (s.jobs r).all Job.spent
  | .call r => (s.calls r).all GroupCall.spent

/-- The request has come in. -/
def hasCome (s : GroupServer) : RequestKey → Bool
  | .flight r => (s.flights r).isSome
  | .job r => (s.jobs r).isSome
  | .call r => (s.calls r).isSome

theorem hasCome_of_caller {s : GroupServer} {key : RequestKey} {auth : AuthContext}
    (h : s.caller key = some auth) : s.hasCome key = true := by
  cases key with
  | flight r =>
    obtain ⟨f, hf, _⟩ := Option.bind_eq_some_iff.mp h
    exact Option.isSome_iff_exists.mpr ⟨f, hf⟩
  | job r =>
    obtain ⟨job, hjob, _⟩ := Option.bind_eq_some_iff.mp h
    exact Option.isSome_iff_exists.mpr ⟨job, hjob⟩
  | call r =>
    obtain ⟨call, hcall, _⟩ := Option.bind_eq_some_iff.mp h
    exact Option.isSome_iff_exists.mpr ⟨call, hcall⟩

end GroupServer

theorem Flight.spent_advance {f : Flight} (h : f.spent = true) (now : ℕ) (limited : Bool)
    (db : SpaceDb) :
    Flight.spent { f with stage := (f.request.advance now limited f.token db f.stage).2 } =
      true := by
  obtain ⟨token, request, stage⟩ := f
  cases request with
  | completePairing _ _ | revokeDevice _ | rotateKey _ =>
    obtain ⟨a, rfl⟩ := Stage.answered_of_isAnswered h
    dsimp only
    rw [ApiRequest.advance_answered]
    rfl
  | _ => rfl

theorem Job.spent_next {job : Job} (h : job.spent = true) (m : Moment) (space : SpaceDb)
    (db : FileDb) : (job.next m space db).2.spent = true := by
  cases job with
  | send token body stage =>
    cases stage with
    | dropping _ | dropped _ | answered _ => rfl
    | _ => cases h
  | _ => rfl

theorem PurgeStage.spent_next {stage : PurgeStage} (h : stage.spent = true) (m : Moment)
    (selection : Selection) (db : FileDb) :
    (purgeMessages.next m selection db stage).2.spent = true := by
  cases stage with
  | done => rfl
  | _ => cases h

/-- What a handler of the vault has left commits no batch. -/
theorem VaultJob.spent_next {job job' : VaultJob} {started : ℕ} {m : VaultMoment}
    {rows : List ItemId} {db db' : VaultDb} (h : job.spent = true)
    (hnext : job.next started m rows db = some (db', job')) :
    job'.spent = true ∧ job.batch started m = none := by
  cases job with
  | create req stage =>
    cases stage with
    | refused | answered _ =>
      obtain ⟨_, rfl⟩ := Prod.mk.inj (Option.some.inj hnext)
      exact ⟨rfl, rfl⟩
    | _ => cases h
  | update id req stage =>
    cases stage with
    | answered _ =>
      obtain ⟨_, rfl⟩ := Prod.mk.inj (Option.some.inj hnext)
      exact ⟨rfl, rfl⟩
    | _ => cases h
  | reseal req stage =>
    cases stage with
    | answered _ =>
      obtain ⟨_, rfl⟩ := Prod.mk.inj (Option.some.inj hnext)
      exact ⟨rfl, rfl⟩
    | _ => cases h
  | delete id stage =>
    cases stage with
    | answered _ => cases hnext
    | _ => cases h
  | cleanUp stage => cases h

theorem GroupCall.spent_next {call : GroupCall} {m : GroupMoment} {rows : List ItemId}
    {db : GroupDb} {after : GroupDb × GroupCall} (h : call.spent = true)
    (hnext : call.next m rows db = some after) :
    after.2.spent = true ∧ ((∀ started stage, call ≠ .cleanUp started stage) →
      call.vaultBatch m = none) := by
  cases call with
  | createGroup req stage =>
    obtain rfl := Option.some.inj hnext
    exact ⟨rfl, fun _ => rfl⟩
  | role token deviceId body stage =>
    cases stage with
    | answered _ =>
      obtain rfl := Option.some.inj hnext
      exact ⟨rfl, fun _ => rfl⟩
    | _ => cases h
  | name token req stage =>
    cases stage with
    | answered _ =>
      obtain rfl := Option.some.inj hnext
      exact ⟨rfl, fun _ => rfl⟩
    | _ => cases h
  | vault token started auth job =>
    obtain ⟨next, hjob, rfl⟩ := Option.map_eq_some_iff.mp hnext
    cases auth with
    | some auth =>
      obtain ⟨r, hr, rfl⟩ := Option.map_eq_some_iff.mp hjob
      obtain ⟨hspent, hbatch⟩ := VaultJob.spent_next h hr
      exact ⟨hspent, fun _ => hbatch⟩
    | none =>
      have hnew : job.isReceived = false := by
        unfold VaultJob.isReceived
        split
        · cases h
        · cases h
        · cases h
        · cases h
        · rfl
      simp only [nextVault, hnew, Bool.false_eq_true, if_false] at hjob
      obtain rfl := Option.some.inj hjob
      exact ⟨h, fun _ => rfl⟩
  | cleanUp started stage =>
    obtain ⟨next, _, rfl⟩ := Option.map_eq_some_iff.mp hnext
    exact ⟨rfl, fun hno => absurd rfl (hno started stage)⟩

namespace GroupServer

variable {s t : GroupServer} {e : GroupEvent} {key : RequestKey}

theorem hasCome_step (hs : s.step e = some t) (h : s.hasCome key = true) :
    t.hasCome key = true := by
  cases key with
  | flight r =>
    rcases step_flight hs r with hsame | ⟨_, _, _, _, hnew⟩ | ⟨_, _, _, _, _, hnext⟩
    · exact (congrArg Option.isSome hsame).trans h
    · exact congrArg Option.isSome hnew
    · exact congrArg Option.isSome hnext
  | job r =>
    rcases step_job hs r with hsame | ⟨_, _, _, _, hnew⟩ | ⟨_, _, _, _, hnext⟩
    · exact (congrArg Option.isSome hsame).trans h
    · exact congrArg Option.isSome hnew
    · exact congrArg Option.isSome hnext
  | call r =>
    rcases step_call hs r with hsame | ⟨_, _, _, _, hnew⟩ | ⟨_, _, _, _, _, _, _, hnext⟩
    · exact (congrArg Option.isSome hsame).trans h
    · exact congrArg Option.isSome hnew
    · exact congrArg Option.isSome hnext

/-- A request with nothing left to write gets no new purge, and no other takes its place. -/
theorem spent_step (hs : s.step e = some t) (hcome : s.hasCome key = true)
    (h : s.spent key = true) : t.spent key = true := by
  cases key with
  | flight r =>
    obtain ⟨f, hf⟩ := Option.isSome_iff_exists.mp hcome
    obtain ⟨hflight, hpurge⟩ := Bool.and_eq_true_iff.mp h
    have hfs : f.spent = true := (Option.all_eq_true _ _).mp hflight f hf
    refine Bool.and_eq_true_iff.mpr ⟨?_, ?_⟩
    · rcases step_flight hs r with hsame | ⟨_, _, _, hnone, _⟩ | ⟨now, limited, g, _, hg, hnext⟩
      · rw [hsame]
        exact hflight
      · cases hnone.symm.trans hf
      · obtain rfl := Option.some.inj (hf.symm.trans hg)
        rw [hnext, Option.all_some]
        exact Flight.spent_advance hfs now limited s.space
    · rcases step_purge hs r with hsame | ⟨_, _, _, _, _, _, hready, _⟩ |
        ⟨m, stage, _, hstage, hnext⟩
      · rw [hsame]
        exact hpurge
      · obtain rfl := Option.some.inj (hf.symm.trans hready)
        cases hfs
      · rw [hnext, Option.all_some]
        exact PurgeStage.spent_next ((Option.all_eq_true _ _).mp hpurge stage hstage) _ _ _
  | job r =>
    obtain ⟨job, hjob⟩ := Option.isSome_iff_exists.mp hcome
    rcases step_job hs r with hsame | ⟨_, _, _, hnone, _⟩ | ⟨m, job', _, hjob', hnext⟩
    · exact (congrArg (Option.all Job.spent) hsame).trans h
    · cases hnone.symm.trans hjob
    · rw [spent, hnext, Option.all_some]
      exact Job.spent_next ((Option.all_eq_true _ _).mp h job' hjob') m _ _
  | call r =>
    obtain ⟨call, hcall⟩ := Option.isSome_iff_exists.mp hcome
    rcases step_call hs r with
      hsame | ⟨_, _, _, hnone, _⟩ | ⟨m, rows, call', next, _, hcall', hnext, ht⟩
    · exact (congrArg (Option.all GroupCall.spent) hsame).trans h
    · cases hnone.symm.trans hcall
    · rw [spent, ht, Option.all_some]
      exact (GroupCall.spent_next ((Option.all_eq_true _ _).mp h call' hcall') hnext).1

/-- Outside the calls a step leaves the vault's rows and the name alone. -/
theorem sameRows_of_files (hs : s.step e = some t) (he : ∀ r m rows, e ≠ .run r m rows)
    (hspace : t.space = s.space)
    (hmessages : t.files.files.messages = s.files.files.messages) : s.SameRows t := by
  have hvault := step_vault hs
  have hbatch : s.vaultBatch e = none := by
    cases e with
    | run r m rows => exact absurd rfl (he r m rows)
    | _ => rfl
  rw [hbatch] at hvault
  have hname : t.name = s.name := by
    rcases step_name hs with hname | ⟨r, m, rows, _, _, _, _, rfl, _⟩
    · exact hname
    · exact absurd rfl (he r m rows)
  exact ⟨hmessages, (congrArg VaultDb.items hvault).trans rfl, congrArg SpaceDb.devices hspace,
    congrArg SpaceDb.pairing hspace, congrArg SpaceDb.keyDistribution hspace,
    congrArg SpaceDb.keyEpoch hspace,
    congrArg SpaceDb.rotationPending hspace, hname, (congrArg VaultDb.seq hvault).trans rfl,
    (congrArg VaultDb.floor hvault).trans rfl⟩

/-- What a step without a batch of messages leaves of them. -/
theorem messages_eq (hs : s.step e = some t) (h : s.messageBatch e = none) :
    t.files.files.messages = s.files.files.messages := by
  rw [(step_messages hs).1, h]
  rfl

/-- A call with nothing left to write leaves every row. -/
theorem sameRows_of_called (h : s.spent key = true) {r : RequestId} {m : GroupMoment}
    {rows : List ItemId} {call : GroupCall} {next : GroupDb × GroupCall}
    (hkey : s.requestOf (.run r m rows) = some key) (hcall : s.calls r = some call)
    (hnext : call.next m rows s.db = some next)
    (hs : s.step (.run r m rows) =
      some { s.setDb next.1 with calls := Function.update s.calls r (some next.2) }) :
    s.SameRows { s.setDb next.1 with calls := Function.update s.calls r (some next.2) } := by
  rw [requestOf, hcall] at hkey
  have hrequest : key = .call r ∧ (∀ started stage, call ≠ .cleanUp started stage) ∧
      ∀ req stage, call ≠ .createGroup req stage := by
    cases call with
    | role | name | vault =>
      exact ⟨(Option.some.inj hkey).symm, fun _ _ h => (by cases h), fun _ _ h => by cases h⟩
    | _ => cases hkey
  obtain ⟨rfl, hcleanUp, hfound⟩ := hrequest
  have hspent := (Option.all_eq_true _ _).mp h call hcall
  have hvault : next.1.vault = s.vault := by
    rw [GroupCall.next_vault hnext, (GroupCall.spent_next hspent hnext).2 hcleanUp]
    rfl
  have hspace : next.1.space = s.space := by
    rcases GroupCall.next_space hnext with hsame | ⟨_, _, _, _, _, rfl, _⟩ | ⟨req, rfl, _⟩
    · exact hsame
    · cases hspent
    · exact absurd rfl (hfound req .inserting)
  have hname : next.1.name = s.name := by
    rcases step_name hs with hname | ⟨r', m', rows', token, req, auth, updatedAt, heq, hcall', _⟩
    · exact hname
    · obtain ⟨rfl, rfl, rfl⟩ := GroupEvent.run.inj heq
      obtain rfl := Option.some.inj (hcall.symm.trans hcall')
      cases hspent
  exact ⟨rfl, congrArg VaultDb.items hvault, congrArg SpaceDb.devices hspace,
    congrArg SpaceDb.pairing hspace,
    congrArg SpaceDb.keyDistribution hspace, congrArg SpaceDb.keyEpoch hspace,
    congrArg SpaceDb.rotationPending hspace,
    hname, congrArg VaultDb.seq hvault, congrArg VaultDb.floor hvault⟩

theorem sameRows_of_spent (h : s.spent key = true) (hkey : s.requestOf e = some key)
    (hs : s.step e = some t) : s.SameRows t := by
  cases step_change hs with
  | @served e server hserver =>
    refine sameRows_of_files hs (fun _ _ _ h => by cases h) ?_ (messages_eq hs rfl)
    cases e with
    | advance r now limited =>
      obtain ⟨⟨token, request, stage⟩, hf, hspace, _⟩ := step_advance hs
      rw [hspace]
      rw [requestOf, hf] at hkey
      cases request with
      | completePairing _ _ | revokeDevice _ | rotateKey _ =>
        obtain rfl := Option.some.inj hkey
        have hflight := (Option.all_eq_true _ _).mp (Bool.and_eq_true_iff.mp h).1 _ hf
        obtain ⟨a, rfl⟩ := Stage.answered_of_isAnswered hflight
        dsimp only
        rw [ApiRequest.advance_answered]
      | _ => cases hkey
    | receive r token request => cases hkey
    | reserve p device => cases hkey
    | release p => cases hkey
  | started => cases hkey
  | @worked r m job hjob =>
    refine sameRows_of_files hs (fun _ _ _ h => by cases h) rfl (messages_eq hs ?_)
    rw [requestOf, hjob] at hkey
    rw [messageBatch, hjob, Option.bind_some]
    cases job with
    | send token body stage =>
      obtain rfl := Option.some.inj hkey
      have hjob := (Option.all_eq_true _ _).mp h _ hjob
      cases stage with
      | dropping _ | dropped _ | answered _ => rfl
      | _ => cases hjob
    | _ => cases hkey
  | @purged r m stage hstage =>
    refine sameRows_of_files hs (fun _ _ _ h => by cases h) rfl (messages_eq hs ?_)
    obtain rfl := Option.some.inj hkey
    have hpurge := (Option.all_eq_true _ _).mp (Bool.and_eq_true_iff.mp h).2 _ hstage
    rw [messageBatch, hstage, Option.bind_some]
    cases stage with
    | done => rfl
    | _ => cases hpurge
  | received => cases hkey
  | @called r m rows call next hcall hnext => exact sameRows_of_called h hkey hcall hnext hs
  | _ => cases hkey

end GroupServer

theorem Effect.auth {token : Token} {db db' : SpaceDb} {request : ApiRequest} {stage stage' : Stage}
    (h : Effect token db request stage db' stage') : AuthFrom token db stage stage' := by
  cases h with
  | same => exact fun _ hauth => Or.inl hauth
  | checked _ hauth _ => exact hauth
  | _ => exact .of_none rfl

theorem sendMessage.next_auth {m : Moment} {token : Token} {body : SendMessageRequest}
    {space : SpaceDb} {db : FileDb} {stage : SendStage} {auth : AuthContext}
    (h : (next m token body space db stage).2.auth = some auth) :
    stage.auth = some auth ∨ authenticate space token = .ok auth := by
  cases stage with
  | received =>
    simp only [next] at h
    revert h
    refine orAnswer_cases (P := fun stage : SendStage => stage.auth = some auth →
      _) (fun e h => (by cases h)) fun stage hok h => ?_
    simp only [bind_eq_ok, pure_eq_ok] at hok
    obtain ⟨auth', hauth, _, _, _, _, rfl⟩ := hok
    obtain rfl := Option.some.inj h
    exact Or.inr hauth
  | authed auth' =>
    simp only [next] at h
    revert h
    refine orAnswer_cases (P := fun stage : SendStage => stage.auth = some auth →
      _) (fun e h => (by cases h)) fun stage hok h => ?_
    unfold checkDuplicate at hok
    split_ifs at hok
    split at hok <;> obtain rfl := Except.ok.inj hok <;> exact Or.inl h
  | targeting auth' target =>
    simp only [next] at h
    split at h <;> exact Or.inl h
  | destroying auth' found =>
    simp only [next] at h
    split_ifs at h <;> exact Or.inl h
  | clearing auth' keys => exact Or.inl h
  | listing auth' =>
    simp only [next, afterListing] at h
    split at h
    · cases h
    · cases h
    · exact Or.inl h
    · exact Or.inl h
  | dropping key => cases h
  | dropped key => cases h
  | heading auth' recipients =>
    simp only [next] at h
    split_ifs at h
    · exact Or.inl h
    · cases h
  | inserting auth' recipients => cases h
  | answered a => cases h

theorem updateSpaceName.next_auth {m : GroupMoment} {token : Token} {req : UpdateSpaceNameRequest}
    {db : SpaceDb} {name : SpaceNameRecord} {stage : NameStage} {auth : AuthContext}
    (h : (GroupCall.name token req (next m token req db name stage).2).auth = some auth) :
    authenticate db token = .ok auth := by
  cases stage with
  | received =>
    simp only [next] at h
    revert h
    refine orAnswer_cases (P := fun stage => (GroupCall.name token req stage).auth = some auth → _)
      (fun e h => (nomatch h)) fun stage hok h => ?_
    simp only [bind_eq_ok, pure_eq_ok] at hok
    obtain ⟨auth', hauth, _, _, _, _, rfl⟩ := hok
    obtain rfl := Option.some.inj h
    exact hauth
  | ready auth' at_ => cases h
  | answered a => cases h

theorem GroupCall.next_auth {m : GroupMoment} {rows : List ItemId} {db db' : GroupDb}
    {call call' : GroupCall} {auth : AuthContext} (h : call.next m rows db = some (db', call'))
    (hauth : call'.auth = some auth) :
    call.auth = some auth ∨ ∃ token, authenticate db.space token = .ok auth := by
  cases call' with
  | createGroup req stage => cases hauth
  | role token deviceId body stage =>
    obtain ⟨stage₀, rfl, rfl⟩ := next_role h
    rcases updateDeviceRole.next_auth hauth with hold | ⟨hnew, _⟩
    · exact Or.inl hold
    · exact Or.inr ⟨token, hnew⟩
  | name token req stage =>
    obtain ⟨stage₀, rfl, rfl⟩ := next_name h
    exact Or.inr ⟨token, updateSpaceName.next_auth hauth⟩
  | vault token started auth' job =>
    obtain rfl : auth' = some auth := hauth
    obtain ⟨auth₀, job₀, vault, rfl, hfrom, _⟩ := next_vaultJob h
    rcases hfrom with rfl | ⟨_, _, hnew⟩
    · exact Or.inl rfl
    · exact Or.inr ⟨token, hnew⟩
  | cleanUp started stage => cases hauth

namespace GroupServer

variable {s t : GroupServer} {e : GroupEvent} {key : RequestKey}

/-- A caller that was not known before has authenticated. -/
theorem caller_step (hsound : s.Sound) (hs : s.step e = some t) {auth : AuthContext}
    (h : t.caller key = some auth) :
    s.caller key = some auth ∨ ∃ token, authenticate s.space token = .ok auth := by
  cases key with
  | flight r =>
    obtain ⟨f, hf, hauth⟩ := Option.bind_eq_some_iff.mp h
    rcases step_flight hs r with hold | ⟨token, request, _, _, hnew⟩ |
      ⟨now, limited, g, _, hg, hnew⟩
    · exact Or.inl (Option.bind_eq_some_iff.mpr ⟨f, hold ▸ hf, hauth⟩)
    · obtain rfl := Option.some.inj (hnew.symm.trans hf)
      cases hauth
    · obtain rfl := Option.some.inj (hnew.symm.trans hf)
      have heffect :
          Effect g.token s.space g.request g.stage
            (g.request.advance now limited g.token s.space g.stage).1
          (g.request.advance now limited g.token s.space g.stage).2 := Server.Sound.effect hsound hg
      rcases heffect.auth auth hauth with hold | hnew
      · exact Or.inl (Option.bind_eq_some_iff.mpr ⟨g, hg, hold⟩)
      · exact Or.inr ⟨g.token, hnew⟩
  | job r =>
    obtain ⟨job, hjob, hauth⟩ := Option.bind_eq_some_iff.mp h
    rcases step_job hs r with hold | ⟨job', _, hnew, _, hjob'⟩ | ⟨m, job', _, hjob', hnext⟩
    · exact Or.inl (Option.bind_eq_some_iff.mpr ⟨job, hold ▸ hjob, hauth⟩)
    · obtain rfl := Option.some.inj (hjob'.symm.trans hjob)
      rw [Job.auth_of_isNew hnew] at hauth
      cases hauth
    · obtain rfl := Option.some.inj (hnext.symm.trans hjob)
      cases job' with
      | send token body stage =>
        rcases sendMessage.next_auth hauth with hold | hnew
        · exact Or.inl (Option.bind_eq_some_iff.mpr ⟨_, hjob', hold⟩)
        · exact Or.inr ⟨token, hnew⟩
      | _ => cases hauth
  | call r =>
    obtain ⟨call, hcall, hauth⟩ := Option.bind_eq_some_iff.mp h
    rcases step_call hs r with hold | ⟨call', _, hnew, _, hcall'⟩ |
      ⟨m, rows, call', next, _, hcall', hnext, ht⟩
    · exact Or.inl (Option.bind_eq_some_iff.mpr ⟨call, hold ▸ hcall, hauth⟩)
    · obtain rfl := Option.some.inj (hcall'.symm.trans hcall)
      rw [GroupCall.auth_of_isNew hnew] at hauth
      cases hauth
    · obtain ⟨db', call''⟩ := next
      obtain rfl := Option.some.inj (ht.symm.trans hcall)
      rcases GroupCall.next_auth hnext hauth with hold | hnew
      · exact Or.inl (Option.bind_eq_some_iff.mpr ⟨call', hcall', hold⟩)
      · exact Or.inr hnew

end GroupServer

namespace GroupServer

/-- The request that an event belongs to. -/
def stepped : GroupEvent → Option RequestKey
  | .files (.server (.advance r _ _)) => some (.flight r)
  | .files (.run r _) => some (.job r)
  | .run r _ _ => some (.call r)
  | _ => none

/-- A request finds its caller in a step of its own. -/
theorem caller_of_not_stepped {s t : GroupServer} {e : GroupEvent} {key : RequestKey}
    {auth : AuthContext} (hs : s.step e = some t) (hkey : stepped e ≠ some key)
    (h : t.caller key = some auth) : s.caller key = some auth := by
  cases key with
  | flight r =>
    obtain ⟨f, hf, hauth⟩ := Option.bind_eq_some_iff.mp h
    rcases step_flight hs r with hsame | ⟨token, request, _, _, hnew⟩ | ⟨_, _, _, rfl, _, _⟩
    · exact Option.bind_eq_some_iff.mpr ⟨f, hsame ▸ hf, hauth⟩
    · obtain rfl := Option.some.inj (hnew.symm.trans hf)
      cases hauth
    · exact absurd rfl hkey
  | job r =>
    obtain ⟨job, hjob, hauth⟩ := Option.bind_eq_some_iff.mp h
    rcases step_job hs r with hsame | ⟨job', _, hnew, _, hjob'⟩ | ⟨_, _, rfl, _, _⟩
    · exact Option.bind_eq_some_iff.mpr ⟨job, hsame ▸ hjob, hauth⟩
    · obtain rfl := Option.some.inj (hjob'.symm.trans hjob)
      rw [Job.auth_of_isNew hnew] at hauth
      cases hauth
    · exact absurd rfl hkey
  | call r =>
    obtain ⟨call, hcall, hauth⟩ := Option.bind_eq_some_iff.mp h
    rcases step_call hs r with hsame | ⟨call', _, hnew, _, hcall'⟩ | ⟨_, _, _, _, rfl, _⟩
    · exact Option.bind_eq_some_iff.mpr ⟨call, hsame ▸ hcall, hauth⟩
    · obtain rfl := Option.some.inj (hcall'.symm.trans hcall)
      rw [GroupCall.auth_of_isNew hnew] at hauth
      cases hauth
    · exact absurd rfl hkey

end GroupServer

structure RevocationLog where
  /-- The caller that each request has found. -/
  callers : List (RequestKey × DeviceId)
  /-- The requests whose caller has been revoked since they found it. -/
  overtaken : List RequestKey
  /-- The steps that they have made since, by what was there before and after. -/
  late : List (GroupServer × GroupServer)

namespace RevocationLog

def empty : RevocationLog := ⟨[], [], []⟩

/-- The requests that have found this device. -/
def callsOf (h : RevocationLog) (deviceId : DeviceId) : List RequestKey :=
  (h.callers.filter fun c => decide (c.2 = deviceId)).map Prod.fst

def note (s : GroupServer) (e : GroupEvent) (t : GroupServer) (h : RevocationLog) :
    RevocationLog where
  callers := ((GroupServer.stepped e).bind fun key =>
    (t.caller key).map fun auth => (key, auth.deviceId)).toList ++ h.callers
  overtaken := (s.revokes e).elim [] h.callsOf ++ h.overtaken
  late := if (s.requestOf e).any fun key => decide (key ∈ h.overtaken) then h.late ++ [(s, t)]
    else h.late

/-- A revocation finds nothing left to write of the requests that have found its device. -/
def Finished (p : GroupServer × RevocationLog) (e : GroupEvent) : Prop :=
  ∀ deviceId ∈ p.1.revokes e, ∀ key ∈ p.2.callsOf deviceId, p.1.spent key = true

instance (p : GroupServer × RevocationLog) (e : GroupEvent) : Decidable (Finished p e) :=
  inferInstanceAs (Decidable (∀ _ ∈ _, _))

theorem mem_callsOf {h : RevocationLog} {deviceId : DeviceId} {key : RequestKey} :
    key ∈ h.callsOf deviceId ↔ (key, deviceId) ∈ h.callers := by
  simp only [callsOf, List.mem_map, List.mem_filter, decide_eq_true_eq]
  constructor
  · rintro ⟨⟨key, deviceId⟩, ⟨hmem, rfl⟩, rfl⟩
    exact hmem
  · exact fun hmem => ⟨(key, deviceId), ⟨hmem, rfl⟩, rfl⟩

/-- What the log keeps: every caller, and of the overtaken requests that nothing is left. -/
structure Kept (s : GroupServer) (h : RevocationLog) : Prop where
  sound : s.Sound
  callers : ∀ key auth, s.caller key = some auth → (key, auth.deviceId) ∈ h.callers
  come : ∀ c ∈ h.callers, s.hasCome c.1 = true
  overtaken : ∀ key ∈ h.overtaken, s.hasCome key = true ∧ s.spent key = true
  late : ∀ w ∈ h.late, w.1.SameRows w.2

theorem Kept.step {s t : GroupServer} {e : GroupEvent} {h : RevocationLog} (hk : Kept s h)
    (hok : Finished (s, h) e) (hs : s.step e = some t) : Kept t (note s e t h) where
  sound := hk.sound.step hs
  callers := by
    intro key auth hcaller
    by_cases hkey : GroupServer.stepped e = some key
    · refine List.mem_append_left _ (Option.mem_toList.mpr ?_)
      rw [hkey, Option.bind_some, hcaller]
      rfl
    · exact List.mem_append_right _
        (hk.callers key auth (GroupServer.caller_of_not_stepped hs hkey hcaller))
  come := by
    intro c hc
    rcases List.mem_append.mp hc with hnew | hold
    · obtain ⟨key, _, hmap⟩ := Option.bind_eq_some_iff.mp (Option.mem_toList.mp hnew)
      obtain ⟨auth, hauth, rfl⟩ := Option.map_eq_some_iff.mp hmap
      exact GroupServer.hasCome_of_caller hauth
    · exact GroupServer.hasCome_step hs (hk.come c hold)
  overtaken := by
    intro key hkey
    have hbefore : s.hasCome key = true ∧ s.spent key = true := by
      rcases List.mem_append.mp hkey with hnew | hold
      · cases hrevokes : s.revokes e with
        | none =>
          rw [hrevokes] at hnew
          cases hnew
        | some deviceId =>
          rw [hrevokes] at hnew
          exact ⟨hk.come _ (mem_callsOf.mp hnew), hok deviceId hrevokes key hnew⟩
      · exact hk.overtaken key hold
    exact ⟨GroupServer.hasCome_step hs hbefore.1,
      GroupServer.spent_step hs hbefore.1 hbefore.2⟩
  late := by
    intro w hw
    simp only [note] at hw
    split_ifs at hw with hlate
    · rcases List.mem_append.mp hw with hw | hw
      · exact hk.late w hw
      · obtain rfl := List.mem_singleton.mp hw
        obtain ⟨key, hkey, hmem⟩ := (Option.any_eq_true _ _).mp hlate
        have hspent := (hk.overtaken key (of_decide_eq_true hmem)).2
        exact GroupServer.sameRows_of_spent hspent hkey hs
    · exact hk.late w hw

end RevocationLog

namespace GroupServer
open RevocationLog

variable {s : GroupServer}

/-- In every run in which a revocation commits only once nothing is left to write of the
requests that have found its device, such requests change no row of the group's tables
afterwards; and a request finds its caller only while the device is active. -/
theorem revoked_changes_nothing {groupId : GroupId} {founder : SlotDevice} {token : Token}
    {elsewhere : List DeviceId} {foreign : List MessageId} {groups : List GroupId}
    {rivals : RequestId → Option (CreateGroupRequest × CreateGroupStage)} {h : RevocationLog}
    (hfounder : founder.id ∉ elsewhere)
    (hr : Runs.ReachableVia (Runs.recorded step note) Finished
      (.founded groupId founder token elsewhere foreign groups rivals, .empty) (s, h)) :
    (∀ w ∈ h.late, w.1.SameRows w.2) ∧
    (∀ key auth, s.caller key = some auth → (key, auth.deviceId) ∈ h.callers) ∧
    ∀ e t key auth, s.step e = some t → s.caller key = none → t.caller key = some auth →
      ∃ d ∈ s.space.devices, d.id = auth.deviceId ∧ d.active = true := by
  have hkept : Kept s h := by
    refine hr.recorded_invariant (I := Kept) ?_ fun s h e t hk hok hstep => hk.step hok hstep
    refine ⟨sound_founded hfounder, fun key auth hcaller => ?_,
      fun _ hc => absurd hc List.not_mem_nil,
      fun _ hk => absurd hk List.not_mem_nil, fun _ hw => absurd hw List.not_mem_nil⟩
    cases key with
    | flight r => cases hcaller
    | job r => cases hcaller
    | call r =>
      obtain ⟨call, hcall, hauth⟩ := Option.bind_eq_some_iff.mp hcaller
      obtain ⟨rival, _, rfl⟩ := Option.map_eq_some_iff.mp hcall
      cases hauth
  refine ⟨hkept.late, hkept.callers, fun e t key auth hs hnone hsome => ?_⟩
  rcases caller_step hkept.sound hs hsome with hold | ⟨token, hauth⟩
  · cases hnone.symm.trans hold
  · obtain ⟨d, hd, _, hactive, hid, _⟩ := authenticate_eq_ok hauth
    exact ⟨d, hd, hid.symm, hactive⟩

/-- A device sends a message, up to the batch that stores it. -/
def sending (r : RequestId) (token : Token) (id : MessageId) : List GroupEvent :=
  [.files (.start r
    (.send token ⟨id, 1, some 71, some 72, none, none, none, none, none, none⟩ .received))] ++
    List.replicate 3 (.files (.run r ⟨9, false, .stored 0, 0⟩))

def inserts (r : RequestId) : GroupEvent := .files (.run r ⟨9, false, .stored 0, 0⟩)

/-- Device 1 revokes device 2. -/
def revoking (r : RequestId) : List GroupEvent := [receives r 11 (.revokeDevice 2)] ++ advances r 3

/-- A device makes a folder, up to the batch that stores it. -/
def making (r : RequestId) (token : Token) (id : ItemId) : List GroupEvent :=
  .receive r (.vault token 9 none (.create
      ⟨id, .folder, none, some 1, ⟨1000, 72, (id, .folder), .named ""⟩, 72, none⟩ .received)) ::
    List.replicate 2 (.run r ⟨9, false, .passed⟩ [])

def writes (r : RequestId) : GroupEvent := .run r ⟨9, false, .passed⟩ []

/-- The second of two creations of one folder is refused before the revocation, and answered
after it. -/
theorem revoked_changes_nothing_refused : ∃ p : GroupServer × RevocationLog, p.2.late ≠ [] ∧
    ∀ w ∈ p.2.late, w.1.SameRows w.2 := by
  have hrun : (Runs.replayVia (Runs.recorded step note) Finished (start, RevocationLog.empty)
      (linking 1 52 ⟨2, 102, none, false⟩ 12 ++ making 5 12 31 ++ making 6 12 31 ++
        [writes 5, writes 6] ++ revoking 2 ++ [writes 6])).any
      (fun p => !p.2.late.isEmpty) = true := by decide +kernel
  obtain ⟨p, hp, hlate⟩ := (Option.any_eq_true _ _).mp hrun
  have hnew : (1 : DeviceId) ∉ ([] : List DeviceId) := List.not_mem_nil
  have hreach := Runs.reachableVia_of_replayVia hp
  obtain ⟨hsame, _⟩ :=
    @revoked_changes_nothing p.1 7 ⟨1, 101, none, false⟩ 11 [] [] [] (fun _ => none) p.2 hnew hreach
  refine ⟨p, fun hnil => ?_, hsame⟩
  rw [hnil] at hlate
  cases hlate

/-- Device 2 has listed the recipients of a message when it is revoked, and the message is
stored. -/
theorem revoked_stores_message :
    ∃ p, Runs.Reachable (Runs.recorded step note) (start, RevocationLog.empty) p ∧
    ∃ w ∈ p.2.late, ¬ w.1.SameRows w.2 := by
  have hrun : (Runs.replay (Runs.recorded step note) (start, RevocationLog.empty)
      (linking 1 52 ⟨2, 102, none, false⟩ 12 ++ sending 5 12 31 ++ revoking 2 ++ [inserts 5])).any
        (fun p => decide (∃ w ∈ p.2.late, w.2.files.files.messages ≠ w.1.files.files.messages)) =
          true := by decide +kernel
  obtain ⟨p, hp, w, hw, hne⟩ := Runs.exists_reachable_of_replay hrun
  exact ⟨p, hp, w, hw, fun hsame => hne hsame.messages⟩

end GroupServer
end SendSelf
