import SendSelf.Files.Deliveries
import SendSelf.Group.Calls
import SendSelf.Library.Recording

/-!
# The group's server

All requests of a group's devices side by side, interleaved at their awaits: those of
the key protocol, the messages with their attachments, the vault, the roles and the
name. A revocation goes on to purge the messages that it has freed. Other groups share
the server: they found themselves, register devices, store messages, and may complete a
pairing slot that a device of theirs has scanned.
-/
namespace SendSelf

structure GroupServer where
  files : FileServer
  vault : VaultDb
  name : SpaceNameRecord
  groups : List GroupId
  /-- The purges of the revocations that have committed their batch. -/
  purges : RequestId → Option PurgeStage
  calls : RequestId → Option GroupCall

inductive GroupEvent where
  | files (e : FileEvent)
  | purge (r : RequestId) (m : Moment)
  | receive (r : RequestId) (call : GroupCall)
  /-- `rows` is what an unordered query returns. -/
  | run (r : RequestId) (m : GroupMoment) (rows : List ItemId)
  /-- Uploads and deletions of the vault's content. -/
  | content (blobs : Table UploadRow.r2Key)
  | registerElsewhere (ids : List DeviceId)
  | storeElsewhere (ids : List MessageId)
  | pairElsewhere (pairingId : PairingId) (deviceId : DeviceId) (body : PairingCompleteBody)

namespace GroupServer

abbrev space (s : GroupServer) : SpaceDb := s.files.server.db

abbrev flights (s : GroupServer) : RequestId → Option Flight := s.files.server.flights

abbrev jobs (s : GroupServer) : RequestId → Option Job := s.files.jobs

/-- The tables that the calls write. -/
def db (s : GroupServer) : GroupDb := ⟨s.space, s.vault, s.name, s.groups⟩

def setSpace (s : GroupServer) (space : SpaceDb) : GroupServer :=
  { s with files := { s.files with server := { s.files.server with db := space } } }

def setDb (s : GroupServer) (db : GroupDb) : GroupServer :=
  { s.setSpace db.space with vault := db.vault, name := db.name, groups := db.groups }

/-- The purges after an event: a revocation's batch is followed by one. -/
def startPurge (s : GroupServer) : FileEvent → RequestId → Option PurgeStage
  | .server (.advance r _ _) =>
      match s.flights r with
      | some ⟨_, .revokeDevice _, .ready _⟩ => Function.update s.purges r (some .selecting)
      | _ => s.purges
  | _ => s.purges

def purge (s : GroupServer) (r : RequestId) (m : Moment) : Option GroupServer :=
  (s.purges r).map fun stage =>
    let next :=
      purgeMessages.next { m with share := DELETE_BATCH_SIZE } .delivered s.files.files stage
    { s with
      files := { s.files with files := next.1 },
      purges := Function.update s.purges r (some next.2) }

def receive (s : GroupServer) (r : RequestId) (call : GroupCall) : Option GroupServer :=
  if call.isNew = true ∧ (s.calls r).isNone = true then
    some { s with calls := Function.update s.calls r (some call) }
  else none

def run (s : GroupServer) (r : RequestId) (m : GroupMoment) (rows : List ItemId) :
    Option GroupServer :=
  (s.calls r).bind fun call => (call.next m rows s.db).map fun next =>
    { s.setDb next.1 with calls := Function.update s.calls r (some next.2) }

/-- Devices of other groups are never deleted, and no two groups have one of the same id. -/
def registerElsewhere (s : GroupServer) (ids : List DeviceId) : Option GroupServer :=
  if (∀ id ∈ s.space.elsewhere, id ∈ ids) ∧ ∀ d ∈ s.space.devices, d.id ∉ ids then
    some (s.setSpace { s.space with elsewhere := ids })
  else none

def storeElsewhere (s : GroupServer) (ids : List MessageId) : Option GroupServer :=
  if ∀ m ∈ s.files.files.messages, m.id ∉ ids then
    some { s with files := { s.files with files := { s.files.files with foreign := ids } } }
  else none

def pairElsewhere (s : GroupServer) (pairingId : PairingId) (deviceId : DeviceId)
    (body : PairingCompleteBody) :
    Option GroupServer :=
  if completePairing.slotOpen pairingId s.space = true ∧ ∀ d ∈ s.space.devices, d.id ≠ deviceId then
    some (s.setSpace (completePairing.deposited pairingId body
      { s.space with elsewhere := deviceId :: s.space.elsewhere }))
  else none

def step (s : GroupServer) : GroupEvent → Option GroupServer
  | .files e => (s.files.step e).map fun files => { s with files, purges := s.startPurge e }
  | .purge r m => s.purge r m
  | .receive r call => s.receive r call
  | .run r m rows => s.run r m rows
  | .content blobs => some { s with vault := { s.vault with blobs } }
  | .registerElsewhere ids => s.registerElsewhere ids
  | .storeElsewhere ids => s.storeElsewhere ids
  | .pairElsewhere pairingId deviceId body => s.pairElsewhere pairingId deviceId body

/-- A new group. Its id may be wanted by other requests to found it, on their way since before. -/
def founded (groupId : GroupId) (founder : SlotDevice) (token : Token) (elsewhere : List DeviceId)
    (foreign : List MessageId) (groups : List GroupId)
    (rivals : RequestId → Option (CreateGroupRequest × CreateGroupStage)) : GroupServer where
  files := .founded groupId founder token elsewhere foreign
  vault := .new
  name := ⟨none, none, none, none⟩
  groups := groups
  purges := fun _ => none
  calls := fun r => (rivals r).map fun c => .createGroup c.1 c.2

/-- What a step makes of the server, by what its event is. -/
inductive Change (s : GroupServer) : GroupEvent → GroupServer → Prop
  | served {e : ServerEvent} {server : Server} (step : s.files.server.step e = some server) :
      Change s (.files (.server e)) { s with
        files := { s.files with
          server, files := FileServer.dropDeliveries s.files.server e s.files.files }
        purges := s.startPurge (.server e) }
  | started {r : RequestId} {job : Job} (new : job.isNew = true) (free : s.jobs r = none) :
      Change s (.files (.start r job))
        { s with files := { s.files with jobs := Function.update s.jobs r (some job) } }
  | worked {r : RequestId} {m : Moment} {job : Job} (found : s.jobs r = some job) :
      Change s (.files (.run r m)) { s with
        files := { s.files with
          files := (job.next m s.space s.files.files).1
          jobs := Function.update s.jobs r (some (job.next m s.space s.files.files).2) } }
  | purged {r : RequestId} {m : Moment} {stage : PurgeStage} (found : s.purges r = some stage) :
      Change s (.purge r m) { s with
        files := { s.files with files := (purgeMessages.next
          { m with share := DELETE_BATCH_SIZE } .delivered s.files.files stage).1 }
        purges := Function.update s.purges r (some (purgeMessages.next
          { m with share := DELETE_BATCH_SIZE } .delivered s.files.files stage).2) }
  | received {r : RequestId} {call : GroupCall} (new : call.isNew = true)
      (free : s.calls r = none) :
      Change s (.receive r call) { s with calls := Function.update s.calls r (some call) }
  | called {r : RequestId} {m : GroupMoment} {rows : List ItemId} {call : GroupCall}
      {next : GroupDb × GroupCall} (found : s.calls r = some call)
      (ran : call.next m rows s.db = some next) :
      Change s (.run r m rows)
        { s.setDb next.1 with calls := Function.update s.calls r (some next.2) }
  | content {blobs : Table UploadRow.r2Key} :
      Change s (.content blobs) { s with vault := { s.vault with blobs } }
  | registered {ids : List DeviceId} (kept : ∀ id ∈ s.space.elsewhere, id ∈ ids)
      (free : ∀ d ∈ s.space.devices, d.id ∉ ids) :
      Change s (.registerElsewhere ids) (s.setSpace { s.space with elsewhere := ids })
  | stored {ids : List MessageId} :
      Change s (.storeElsewhere ids)
        { s with files := { s.files with files := { s.files.files with foreign := ids } } }
  | paired {pairingId : PairingId} {deviceId : DeviceId} {body : PairingCompleteBody}
      (slot : completePairing.slotOpen pairingId s.space = true)
      (free : ∀ d ∈ s.space.devices, d.id ≠ deviceId) :
      Change s (.pairElsewhere pairingId deviceId body) (s.setSpace (completePairing.deposited
        pairingId body { s.space with elsewhere := deviceId :: s.space.elsewhere }))

theorem step_change {s t : GroupServer} {e : GroupEvent} (h : s.step e = some t) :
    Change s e t := by
  cases e with
  | files e =>
    obtain ⟨files, hfiles, rfl⟩ := Option.map_eq_some_iff.mp h
    cases e with
    | server e =>
      obtain ⟨server, hserver, rfl⟩ := Option.map_eq_some_iff.mp hfiles
      exact .served hserver
    | start r job =>
      simp only [FileServer.step, FileServer.start] at hfiles
      split_ifs at hfiles with hnew
      obtain rfl := Option.some.inj hfiles
      exact .started hnew.1 (Option.isNone_iff_eq_none.mp hnew.2)
    | run r m =>
      obtain ⟨job, hjob, rfl⟩ := Option.map_eq_some_iff.mp hfiles
      exact .worked hjob
  | purge r m =>
    obtain ⟨stage, hstage, rfl⟩ := Option.map_eq_some_iff.mp h
    exact .purged hstage
  | receive r call =>
    simp only [step, receive] at h
    split_ifs at h with hnew
    obtain rfl := Option.some.inj h
    exact .received hnew.1 (Option.isNone_iff_eq_none.mp hnew.2)
  | run r m rows =>
    obtain ⟨call, hcall, hmap⟩ := Option.bind_eq_some_iff.mp h
    obtain ⟨next, hnext, rfl⟩ := Option.map_eq_some_iff.mp hmap
    exact .called hcall hnext
  | content blobs =>
    obtain rfl := Option.some.inj h
    exact .content
  | registerElsewhere ids =>
    simp only [step, registerElsewhere] at h
    split_ifs at h with hids
    obtain rfl := Option.some.inj h
    exact .registered hids.1 hids.2
  | storeElsewhere ids =>
    simp only [step, storeElsewhere] at h
    split_ifs at h
    obtain rfl := Option.some.inj h
    exact .stored
  | pairElsewhere pairingId deviceId body =>
    simp only [step, pairElsewhere] at h
    split_ifs at h with hslot
    obtain rfl := Option.some.inj h
    exact .paired hslot.1 hslot.2

theorem step_advance {s t : GroupServer} {r : RequestId} {now : ℕ} {limited : Bool}
    (h : s.step (.files (.server (.advance r now limited))) = some t) : ∃ f, s.flights r = some f ∧
      t.space = (f.request.advance now limited f.token s.space f.stage).1 ∧
      t.flights = Function.update s.flights r
        (some { f with stage := (f.request.advance now limited f.token s.space f.stage).2 }) := by
  cases step_change h with
  | served hserver =>
    obtain ⟨f, hf, rfl⟩ := Option.map_eq_some_iff.mp hserver
    exact ⟨f, hf, rfl, rfl⟩

/-- Everything that a step can do to the rows of the space. -/
inductive SpaceStep (s : GroupServer) : GroupEvent → SpaceDb → Prop
  | same {e : GroupEvent} : SpaceStep s e s.space
  | flight {r : RequestId} {now : ℕ} {limited : Bool} {f : Flight} {db : SpaceDb} {stage : Stage}
      (flight : s.flights r = some f) (effect : Effect f.token s.space f.request f.stage db stage)
      (next : f.request.advance now limited f.token s.space f.stage = (db, stage)) :
      SpaceStep s (.files (.server (.advance r now limited))) db
  | reserved {pairingId : PairingId} {device : SlotDevice} :
      SpaceStep s (.files (.server (.reserve pairingId device)))
        (s.files.server.reserve pairingId device).db
  | released {pairingId : PairingId} :
      SpaceStep s (.files (.server (.release pairingId))) (s.files.server.release pairingId).db
  | assigned {r : RequestId} {m : GroupMoment} {rows : List ItemId} {token : Token}
      {deviceId : DeviceId}
      {body : Option DeviceRole} {auth : AuthContext} {role : AssignableDeviceRole}
      (call : s.calls r = some (.role token deviceId body (.writing auth role))) :
      SpaceStep s (.run r m rows) (updateDeviceRole.run deviceId role s.space)
  | elsewhere {e : GroupEvent} {ids : List DeviceId} (kept : ∀ id ∈ s.space.elsewhere, id ∈ ids)
      (free : ∀ d ∈ s.space.devices, d.id ∉ ids) : SpaceStep s e { s.space with elsewhere := ids }
  | paired {pairingId : PairingId} {deviceId : DeviceId} {body : PairingCompleteBody}
      (slot : completePairing.slotOpen pairingId s.space = true) (free : ∀ d ∈ s.space.devices,
        d.id ≠ deviceId) :
      SpaceStep s (.pairElsewhere pairingId deviceId body)
        (completePairing.deposited pairingId body { s.space with
          elsewhere := deviceId :: s.space.elsewhere })

/-- What the server's own requests rely on. -/
def Sound (s : GroupServer) : Prop := s.files.server.Sound

theorem Sound.home {s : GroupServer} (h : s.Sound) :
    ∀ d ∈ s.space.devices, d.id ∉ s.space.elsewhere :=
  Server.Sound.home h

/-- A call changes a role, or registers the founder of another group, or none of the rows. -/
theorem GroupCall.next_space {m : GroupMoment} {rows : List ItemId} {db db' : GroupDb}
    {call call' : GroupCall} (h : call.next m rows db = some (db', call')) : db'.space = db.space ∨
      (∃ token deviceId body auth role, call = .role token deviceId body (.writing auth role) ∧
        db'.space = updateDeviceRole.run deviceId role db.space) ∨
      (∃ req, call = .createGroup req .inserting ∧ createGroup.refused req db = false ∧
        db'.space = { db.space with elsewhere := req.deviceId :: db.space.elsewhere }) := by
  cases call with
  | createGroup req stage =>
    obtain ⟨rfl, rfl⟩ := Prod.mk.inj (Option.some.inj h)
    cases stage with
    | received => exact Or.inl rfl
    | checking => exact Or.inl rfl
    | inserting =>
      simp only [createGroup.next]
      split_ifs with hrefused
      · exact Or.inl rfl
      · exact Or.inr (Or.inr ⟨req, rfl, by simpa using hrefused, rfl⟩)
    | answered a => exact Or.inl rfl
  | role token deviceId body stage =>
    obtain ⟨rfl, rfl⟩ := Prod.mk.inj (Option.some.inj h)
    cases stage with
    | received => exact Or.inl rfl
    | authed auth role => exact Or.inl rfl
    | writing auth role => exact Or.inr (Or.inl ⟨token, deviceId, body, auth, role, rfl, rfl⟩)
    | answered a => exact Or.inl rfl
  | name token req stage =>
    obtain ⟨rfl, rfl⟩ := Prod.mk.inj (Option.some.inj h)
    exact Or.inl rfl
  | vault token started auth job =>
    obtain ⟨next, _, heq⟩ := Option.map_eq_some_iff.mp h
    obtain ⟨rfl, rfl⟩ := Prod.mk.inj heq
    exact Or.inl rfl
  | cleanUp started stage =>
    obtain ⟨next, _, heq⟩ := Option.map_eq_some_iff.mp h
    obtain ⟨rfl, rfl⟩ := Prod.mk.inj heq
    exact Or.inl rfl

theorem step_space {s t : GroupServer} {e : GroupEvent} (hs : s.Sound) (h : s.step e = some t) :
    SpaceStep s e t.space := by
  cases step_change h with
  | @served e server hserver =>
    cases e with
    | receive r token request =>
      simp only [Server.step, Server.receive] at hserver
      split at hserver
      · obtain rfl := Option.some.inj hserver
        exact .same
      · cases hserver
    | advance r now limited =>
      obtain ⟨f, hf, rfl⟩ := Option.map_eq_some_iff.mp hserver
      exact .flight hf (Server.Sound.effect hs hf) rfl
    | reserve p device =>
      obtain rfl := Option.some.inj hserver
      exact .reserved
    | release p =>
      obtain rfl := Option.some.inj hserver
      exact .released
  | @called r m rows call next hcall hnext =>
    obtain ⟨db', call'⟩ := next
    show SpaceStep s _ db'.space
    rcases GroupCall.next_space hnext with hsame | ⟨token, deviceId, body, auth, role, rfl, hrole⟩ |
      ⟨req, rfl, hfree, helse⟩
    · rw [hsame]
      exact .same
    · rw [hrole]
      exact .assigned hcall
    · rw [helse]
      refine .elsewhere (fun id hid => List.mem_cons_of_mem _ hid) fun d hd hmem => ?_
      rcases List.mem_cons.mp hmem with hid | hid
      · exact ((createGroup.free_of_not_refused hfree).2 d hd).1 hid
      · exact hs.home d hd hid
  | registered hkept hfree => exact .elsewhere hkept hfree
  | paired hslot hfree => exact .paired hslot hfree
  | _ => exact .same

namespace SpaceStep

variable {s : GroupServer} {e : GroupEvent} {db : SpaceDb}

theorem keyEpoch_le (h : SpaceStep s e db) : s.space.keyEpoch ≤ db.keyEpoch := by
  cases h with
  | flight _ effect => exact effect.keyEpoch_le
  | _ => exact le_refl _

/-- Only a rotation moves the epoch. -/
theorem keyEpoch_eq (h : SpaceStep s e db)
    (he : ∀ r now limited, e ≠ .files (.server (.advance r now limited))) :
    db.keyEpoch = s.space.keyEpoch := by
  cases h with
  | flight => exact absurd rfl (he _ _ _)
  | _ => rfl

/-- Device ids stay apart from those of other groups. -/
theorem home (h : SpaceStep s e db) (hs : s.Sound) : ∀ d ∈ db.devices, d.id ∉ db.elsewhere := by
  cases h with
  | same => exact hs.home
  | flight _ effect => exact effect.home hs.home
  | reserved => exact hs.home
  | released => exact hs.home
  | assigned =>
    intro d hd
    obtain ⟨c, hc, rfl⟩ := updateDeviceRole.mem_run.mp hd
    split_ifs <;> exact hs.home c hc
  | elsewhere _ free => exact free
  | paired _ free =>
    intro d hd hmem
    rcases List.mem_cons.mp hmem with hid | hid
    · exact free d hd hid
    · exact hs.home d hd hid

end SpaceStep

/-- What a request does to them, or the change of a role. -/
inductive DeviceStep (s : GroupServer) : GroupEvent → SpaceDb → Prop
  | same {e : GroupEvent} {db : SpaceDb} (same : SameDevices s.space db) : DeviceStep s e db
  | revoked {r : RequestId} {now at_ : ℕ} {limited : Bool} {token : Token} {deviceId : DeviceId}
      {auth : AuthContext}
      (flight : s.flights r = some ⟨token, .revokeDevice deviceId, .ready auth⟩) :
      DeviceStep s (.files (.server (.advance r now limited)))
        (revokeDevice.run deviceId at_ s.space)
  | linked {r : RequestId} {now : ℕ} {limited : Bool} {token : Token} {pairingId : PairingId}
      {body : PairingCompleteBody} {device : SlotDevice}
      (flight : s.flights r = some ⟨token, .completePairing pairingId body, .readyToPair device⟩)
      (guard : completePairing.registerGuard pairingId device body s.space = true)
      (free : completePairing.tokenTaken device body s.space = false) :
      DeviceStep s (.files (.server (.advance r now limited)))
        (completePairing.deposited pairingId body (completePairing.registered device body s.space))
  | assigned {r : RequestId} {m : GroupMoment} {rows : List ItemId} {token : Token}
      {deviceId : DeviceId}
      {body : Option DeviceRole} {auth : AuthContext} {role : AssignableDeviceRole}
      (call : s.calls r = some (.role token deviceId body (.writing auth role))) :
      DeviceStep s (.run r m rows) (updateDeviceRole.run deviceId role s.space)

theorem SpaceStep.devices {s : GroupServer} {e : GroupEvent} {db : SpaceDb} (h : SpaceStep s e db) :
    DeviceStep s e db := by
  cases h with
  | @flight r now limited f _ stage hf heff _ =>
    obtain ⟨token, request, stage⟩ := f
    rcases heff.devices with hsame | ⟨deviceId, auth, now, rfl, rfl, rfl⟩ |
      ⟨pairingId, body, device, rfl, rfl, hg, ht, rfl⟩
    · exact .same hsame
    · exact .revoked hf
    · exact .linked hf hg ht
  | assigned hcall => exact .assigned hcall
  | _ => exact .same (.of_eq rfl)

/-- The requests of the key protocol go on only in the server's own steps. -/
theorem step_server {s t : GroupServer} {e : GroupEvent} (h : s.step e = some t) :
    (∃ e', e = .files (.server e') ∧ s.files.server.step e' = some t.files.server) ∨
    t.flights = s.flights := by
  cases step_change h with
  | served hserver => exact Or.inl ⟨_, rfl, hserver⟩
  | _ => exact Or.inr rfl

/-- A request of the key protocol waits, comes in, or runs to its next await. -/
theorem step_flight {s t : GroupServer} {e : GroupEvent} (h : s.step e = some t) (r : RequestId) :
    t.flights r = s.flights r ∨
      (∃ token request, e = .files (.server (.receive r token request)) ∧ s.flights r = none ∧
        t.flights r = some ⟨token, request, .received⟩) ∨
      ∃ now limited f, e = .files (.server (.advance r now limited)) ∧ s.flights r = some f ∧
        t.flights r =
          some { f with stage := (f.request.advance now limited f.token s.space f.stage).2 } := by
  rcases step_server h with ⟨e', rfl, hserver⟩ | hflights
  · cases e' with
    | receive r' token request =>
      simp only [Server.step, Server.receive] at hserver
      split at hserver
      · next hnone =>
        have ht : t.flights = Function.update s.flights r' (some ⟨token, request, .received⟩) :=
          (congrArg Server.flights (Option.some.inj hserver)).symm
        by_cases hr : r = r'
        · subst hr
          exact Or.inr (Or.inl ⟨token, request, rfl, hnone, by rw [ht, Function.update_self]⟩)
        · exact Or.inl (by rw [ht, Function.update_of_ne hr])
      · cases hserver
    | advance r' now limited =>
      obtain ⟨f, hf, _, ht⟩ := step_advance h
      by_cases hr : r = r'
      · subst hr
        exact Or.inr (Or.inr ⟨now, limited, f, rfl, hf, by rw [ht, Function.update_self]⟩)
      · exact Or.inl (by rw [ht, Function.update_of_ne hr])
    | reserve p device =>
      exact Or.inl (congrFun (congrArg Server.flights (Option.some.inj hserver)) r).symm
    | release p =>
      exact Or.inl (congrFun (congrArg Server.flights (Option.some.inj hserver)) r).symm
  · exact Or.inl (congrFun hflights r)

/-- A call waits, comes in, or runs to its next await. -/
theorem step_call {s t : GroupServer} {e : GroupEvent} (h : s.step e = some t) (r : RequestId) :
    t.calls r = s.calls r ∨
      (∃ call, e = .receive r call ∧ call.isNew = true ∧ s.calls r = none ∧ t.calls r = some call) ∨
      ∃ m rows call next, e = .run r m rows ∧ s.calls r = some call ∧
        call.next m rows s.db = some next ∧
        t.calls r = some next.2 := by
  cases step_change h with
  | @received r' call hnew hfree =>
    by_cases hr : r = r'
    · subst hr
      exact Or.inr (Or.inl ⟨call, rfl, hnew, hfree, Function.update_self ..⟩)
    · exact Or.inl (Function.update_of_ne hr ..)
  | @called r' m rows call next hcall hnext =>
    by_cases hr : r = r'
    · subst hr
      exact Or.inr (Or.inr ⟨m, rows, call, next, rfl, hcall, hnext, Function.update_self ..⟩)
    · exact Or.inl (Function.update_of_ne hr ..)
  | _ => exact Or.inl rfl

/-- A revocation that is ready runs its batch, and the purge begins. -/
theorem startPurge_cases (s : GroupServer) (e : ServerEvent) (r : RequestId) :
    s.startPurge (.server e) r = s.purges r ∨
      ∃ now limited token deviceId auth, e = .advance r now limited ∧
        s.flights r = some ⟨token, .revokeDevice deviceId, .ready auth⟩ ∧
        s.startPurge (.server e) r = some .selecting := by
  cases e with
  | advance r' now limited =>
    have hpurges : s.startPurge (.server (.advance r' now limited)) = s.purges ∨
        ∃ token deviceId auth, s.flights r' = some ⟨token, .revokeDevice deviceId, .ready auth⟩ ∧
          s.startPurge (.server (.advance r' now limited)) =
            Function.update s.purges r' (some .selecting) := by
      simp only [startPurge]
      split
      · next token deviceId auth hf => exact Or.inr ⟨token, deviceId, auth, hf, rfl⟩
      · exact Or.inl rfl
    rcases hpurges with hsame | ⟨token, deviceId, auth, hf, hnew⟩
    · exact Or.inl (congrFun hsame r)
    · by_cases hr : r = r'
      · subst hr
        have hselects := (congrFun hnew r).trans (Function.update_self ..)
        exact Or.inr ⟨now, limited, token, deviceId, auth, rfl, hf, hselects⟩
      · exact Or.inl ((congrFun hnew r).trans (Function.update_of_ne hr ..))
  | _ => exact Or.inl rfl

/-- The purge of a revocation waits, begins, or runs to its next await. -/
theorem step_purge {s t : GroupServer} {e : GroupEvent} (h : s.step e = some t) (r : RequestId) :
    t.purges r = s.purges r ∨
      (∃ now limited token deviceId auth, e = .files (.server (.advance r now limited)) ∧
        s.flights r = some ⟨token, .revokeDevice deviceId, .ready auth⟩ ∧
        t.purges r = some .selecting) ∨
      ∃ m stage, e = .purge r m ∧ s.purges r = some stage ∧ t.purges r = some (purgeMessages.next
        { m with share := DELETE_BATCH_SIZE } .delivered s.files.files stage).2 := by
  cases step_change h with
  | @served e server hserver =>
    refine (s.startPurge_cases e r).imp id fun hready => Or.inl ?_
    obtain ⟨now, limited, token, deviceId, auth, rfl, hf, hnew⟩ := hready
    exact ⟨now, limited, token, deviceId, auth, rfl, hf, hnew⟩
  | @purged r' m stage hstage =>
    by_cases hr : r = r'
    · subst hr
      exact Or.inr (Or.inr ⟨m, stage, rfl, hstage, Function.update_self ..⟩)
    · exact Or.inl (Function.update_of_ne hr ..)
  | _ => exact Or.inl rfl

theorem Sound.step {s t : GroupServer} {e : GroupEvent} (hs : s.Sound) (h : s.step e = some t) :
    t.Sound := by
  rcases step_server h with ⟨e', _, hserver⟩ | hflights
  · exact (Server.Sound.step hs hserver).1
  · have hchecked : ∀ r f, t.flights r = some f → s.flights r = some f :=
      fun r f hf => by rwa [← hflights]
    exact ⟨fun r f body hf hbody => hs.checked r f body (hchecked r f hf) hbody,
      (step_space hs h).home hs⟩

/-- The batch of messages and deliveries that an event commits. -/
def messageBatch (s : GroupServer) : GroupEvent → Option MessageBatch
  | .files (.run r _) => (s.jobs r).bind Job.messageBatch
  | .purge r _ => (s.purges r).bind PurgeStage.messageBatch
  | _ => none

def clock : GroupEvent → ℕ
  | .files (.run _ m) | .purge _ m => m.now
  | _ => 0

/-- The device that an event revokes. -/
def revokes (s : GroupServer) : GroupEvent → Option DeviceId
  | .files (.server (.advance r _ _)) =>
      match s.flights r with
      | some ⟨_, .revokeDevice deviceId, .ready _⟩ => some deviceId
      | _ => none
  | _ => none

/-- The rows of `delivery_status` that a revocation leaves. -/
def afterRevocation (deviceId : Option DeviceId) (deliveryStatus : Table DeliveryRow.primaryKey) :
    Table DeliveryRow.primaryKey :=
  deliveryStatus.delete fun r => decide (some r.deviceId = deviceId) && r.downloadedAt.isNone

theorem dropDeliveries_eq_afterRevocation {s : GroupServer} {e : ServerEvent} :
    (FileServer.dropDeliveries s.files.server e s.files.files).messages = s.files.files.messages ∧
      (FileServer.dropDeliveries s.files.server e s.files.files).deliveryStatus =
        afterRevocation (s.revokes (.files (.server e))) s.files.files.deliveryStatus := by
  have hnone : afterRevocation none s.files.files.deliveryStatus =
      s.files.files.deliveryStatus := by
    ext1
    simp [afterRevocation, Table.delete]
  cases e with
  | advance r now limited =>
    have hsame : s.flights r = s.files.server.flights r := rfl
    simp only [FileServer.dropDeliveries, revokes, hsame]
    cases s.files.server.flights r with
    | none => exact ⟨rfl, hnone.symm⟩
    | some f =>
      obtain ⟨token, request, stage⟩ := f
      cases request with
      | revokeDevice deviceId =>
        cases stage with
        | ready auth => simp [afterRevocation]
        | _ => exact ⟨rfl, hnone.symm⟩
      | _ => exact ⟨rfl, hnone.symm⟩
  | _ => exact ⟨rfl, hnone.symm⟩

/-- A step commits its batch, or what a revocation drops, and leaves the other rows alone. -/
theorem step_messages {s t : GroupServer} {e : GroupEvent} (h : s.step e = some t) :
    t.files.files.messages =
      (MessageBatch.commit? (clock e) (s.messageBatch e) s.files.files).messages ∧
      t.files.files.deliveryStatus = afterRevocation (s.revokes e)
        (MessageBatch.commit? (clock e) (s.messageBatch e) s.files.files).deliveryStatus := by
  have hnone : ∀ rows : Table DeliveryRow.primaryKey,
      afterRevocation none rows = rows := fun rows => by
    ext1
    simp [afterRevocation, Table.delete]
  cases step_change h with
  | served => exact dropDeliveries_eq_afterRevocation
  | @worked r m job hjob =>
    have hnext := @Job.next_messages m s.space s.files.files job
    have hbatch : s.messageBatch (.files (.run r m)) = job.messageBatch := by
      rw [messageBatch, hjob]
      rfl
    rw [hbatch]
    exact ⟨hnext.messages, hnext.deliveryStatus.trans (hnone _).symm⟩
  | @purged r m stage hstage =>
    have hnext :=
      @purgeMessages.next_messages { m with share := DELETE_BATCH_SIZE } .delivered
        s.files.files stage
    have hbatch : s.messageBatch (.purge r m) = stage.messageBatch := by
      rw [messageBatch, hstage]
      rfl
    rw [hbatch]
    exact ⟨hnext.messages, hnext.deliveryStatus.trans (hnone _).symm⟩
  | _ => exact ⟨rfl, (hnone _).symm⟩

/-- A job waits, comes in, or runs to its next await. -/
theorem step_job {s t : GroupServer} {e : GroupEvent} (h : s.step e = some t) (r : RequestId) :
    t.jobs r = s.jobs r ∨
      (∃ job, e = .files (.start r job) ∧ job.isNew = true ∧ s.jobs r = none ∧
        t.jobs r = some job) ∨
      ∃ m job, e = .files (.run r m) ∧ s.jobs r = some job ∧
        t.jobs r = some (job.next m s.space s.files.files).2 := by
  cases step_change h with
  | @started r' job hnew hfree =>
    by_cases hr : r = r'
    · subst hr
      exact Or.inr (Or.inl ⟨job, rfl, hnew, hfree, Function.update_self ..⟩)
    · exact Or.inl (Function.update_of_ne hr ..)
  | @worked r' m job hjob =>
    by_cases hr : r = r'
    · subst hr
      exact Or.inr (Or.inr ⟨m, job, rfl, hjob, Function.update_self ..⟩)
    · exact Or.inl (Function.update_of_ne hr ..)
  | _ => exact Or.inl rfl

/-- The batch of messages that stores one is a send's. -/
theorem send_of_insert {s : GroupServer} {e : GroupEvent} {auth : AuthContext}
    {body : SendMessageRequest}
    {recipients : List DeviceId} (h : s.messageBatch e = some (.insert auth body recipients)) :
    ∃ r m token, e = .files (.run r m) ∧
      s.jobs r = some (.send token body (.inserting auth recipients)) := by
  unfold messageBatch at h
  split at h
  · next r m =>
    obtain ⟨job, hjob, hbatch⟩ := Option.bind_eq_some_iff.mp h
    unfold Job.messageBatch at hbatch
    split at hbatch
    · next token body' auth' recipients' =>
      obtain ⟨rfl, rfl, rfl⟩ := MessageBatch.insert.inj (Option.some.inj hbatch)
      exact ⟨r, m, token, rfl, hjob⟩
    · cases hbatch
    · cases hbatch
    · cases hbatch
    · next stage => cases stage <;> cases hbatch
    · cases hbatch
  · obtain ⟨stage, _, hbatch⟩ := Option.bind_eq_some_iff.mp h
    cases stage <;> cases hbatch
  · cases h

/-- The batch of the vault that an event commits. -/
def vaultBatch (s : GroupServer) : GroupEvent → Option VaultBatch
  | .run r m _ => (s.calls r).bind (GroupCall.vaultBatch m)
  | _ => none

/-- A step commits its batch and leaves the rest of the vault alone, but for its content. -/
theorem step_vault {s t : GroupServer} {e : GroupEvent} (h : s.step e = some t) :
    t.vault = { VaultBatch.commit? (s.vaultBatch e) s.vault with blobs := t.vault.blobs } := by
  cases step_change h with
  | @called r m rows call next hcall hnext =>
    have hvault : next.1.vault = VaultBatch.commit? (s.vaultBatch (.run r m rows)) s.vault := by
      rw [vaultBatch, hcall]
      exact GroupCall.next_vault hnext
    show next.1.vault = { VaultBatch.commit? _ s.vault with blobs := next.1.vault.blobs }
    rw [hvault]
  | _ => rfl

/-- A step leaves the name alone, or is the write of a request for another. -/
theorem step_name {s t : GroupServer} {e : GroupEvent} (h : s.step e = some t) : t.name = s.name ∨
    ∃ r m rows token req auth updatedAt, e = .run r m rows ∧
      s.calls r = some (.name token req (.ready auth updatedAt)) ∧
      t.name = updateSpaceName.record req updatedAt := by
  cases step_change h with
  | @called r m rows call next hcall hnext =>
    cases call with
    | createGroup req stage =>
      obtain rfl := Option.some.inj hnext
      cases stage with
      | inserting =>
        simp only [setDb, SendSelf.createGroup.next]
        split_ifs <;> exact Or.inl rfl
      | _ => exact Or.inl rfl
    | role token deviceId body stage =>
      obtain rfl := Option.some.inj hnext
      exact Or.inl rfl
    | name token req stage =>
      obtain rfl := Option.some.inj hnext
      cases stage with
      | ready auth updatedAt =>
        exact Or.inr ⟨r, m, rows, token, req, auth, updatedAt, rfl, hcall, rfl⟩
      | _ => exact Or.inl rfl
    | vault token started auth job =>
      obtain ⟨_, _, rfl⟩ := Option.map_eq_some_iff.mp hnext
      exact Or.inl rfl
    | cleanUp started stage =>
      obtain ⟨_, _, rfl⟩ := Option.map_eq_some_iff.mp hnext
      exact Or.inl rfl
  | _ => exact Or.inl rfl

/-- A space that device 1 has founded. -/
def start : GroupServer := .founded 7 ⟨1, 101, none, false⟩ 11 [] [] [] fun _ => none

/-- The batch that links a device, as device 1 asks for it. -/
def linkBody (pairingId : PairingId) (device : SlotDevice) (token : Token) :
    PairingCompleteBody where
  wrappedPackage := wrapPairingPackage device.publicKey ⟨1000, 1, token, 7⟩ pairingId
  scannedPublicKey := device.publicKey
  scannedSigningPublicKey := device.signingPublicKey
  deviceAuthTokenHash := sha256Hex token
  keyEpoch := 1

def advances (r : RequestId) (n : ℕ) : List GroupEvent :=
  List.replicate n (.files (.server (.advance r 9 false)))

def receives (r : RequestId) (token : Token) (request : ApiRequest) : GroupEvent :=
  .files (.server (.receive r token request))

def linking (r : RequestId) (pairingId : PairingId) (device : SlotDevice) (token : Token) :
    List GroupEvent :=
  [.files (.server (.reserve pairingId device)),
    receives r 11 (.completePairing pairingId (linkBody pairingId device token))] ++ advances r 4

theorem sound_founded {groupId : GroupId} {founder : SlotDevice} {token : Token}
    {elsewhere : List DeviceId} {foreign : List MessageId} {groups : List GroupId}
    {rivals : RequestId → Option (CreateGroupRequest × CreateGroupStage)}
    (h : founder.id ∉ elsewhere) :
    (founded groupId founder token elsewhere foreign groups rivals).Sound := Server.sound_founded h

end GroupServer
end SendSelf
