import SendSelf.Keys.Keyring

/-!
# The name of a space

Every device of a space has the name in its own registry, and the server has a record of it,
sealed under a GroupKey and stamped with the time it was stored. A rename is written to the
registry and published from there. A sync pass publishes what is still owed, adopts a record
that is stamped later than what the registry has, and publishes the name again when the
record is sealed under a superseded key.

Every local change reads the registry's row, and writes it back after more awaits; every
publish is a request that the server handles in its own time, and whose answer may be lost.
All of them run side by side, one step at a time.
-/
namespace SendSelf.Names

/-- A name that has been trimmed. -/
abbrev SpaceName := ℕ

abbrev CallId := ℕ

structure SpaceRecord where
  name : Option SpaceName
  nameUpdatedAt : ℕ
  namePending : Bool
deriving DecidableEq, Repr

/-- A name sealed under a GroupKey. -/
structure SealedName where
  key : GroupKey
  name : SpaceName
deriving DecidableEq, Repr

def encryptText (key : GroupKey) (name : SpaceName) : SealedName := ⟨key, name⟩

/-- `none` is the throw of a decryption that fails. -/
def decryptText (key : GroupKey) (box : SealedName) : Option SpaceName :=
  if box.key = key then some box.name else none

structure SpaceNameRecord where
  encryptedName : Option SealedName
  nameKeyEpoch : ℕ
  updatedAt : ℕ
deriving DecidableEq, Repr

/-- The name a record was made from. -/
def SpaceNameRecord.plain (r : SpaceNameRecord) : Option SpaceName :=
  r.encryptedName.map SealedName.name

structure UpdateSpaceNameRequest where
  encryptedName : Option SealedName
  nameKeyEpoch : ℕ
deriving DecidableEq, Repr

def UpdateSpaceNameRequest.plain (r : UpdateSpaceNameRequest) : Option SpaceName :=
  r.encryptedName.map SealedName.name

/-- `typed` is none when nothing but blanks was typed. -/
def renameSpace (typed : Option SpaceName) (current : SpaceRecord) : SpaceRecord :=
  { current with name := typed, namePending := true }

def adoptSpaceName (name : Option SpaceName) (updatedAt : ℕ) (current : SpaceRecord) :
    SpaceRecord :=
  { current with name := name, nameUpdatedAt := updatedAt, namePending := false }

def markSpaceNamePublished (name : Option SpaceName) (updatedAt : ℕ) (current : SpaceRecord) :
    SpaceRecord :=
  { current with nameUpdatedAt := updatedAt, namePending := decide (current.name ≠ name) }

/-- The name inside a record; `none` when it cannot be read here. -/
def readSpaceName (record : SpaceNameRecord) (ring : Keyring) : Option (Option SpaceName) :=
  match record.encryptedName with
  | none => some none
  | some box =>
      ((keyForEpoch ring record.nameKeyEpoch).bind fun key => decryptText key box).map some

/-- The body of a publish; `none` when the keyring lacks its current key. -/
def publishSpaceName (name : Option SpaceName) (ring : Keyring) : Option UpdateSpaceNameRequest :=
  match name with
  | none => some ⟨none, ring.current⟩
  | some name => (currentKey ring).map fun key => ⟨some (encryptText key name), ring.current⟩

/-- What `syncSpaceName` decides to do. -/
inductive SyncStep where
  | publish | adopt (name : Option SpaceName) (updatedAt : ℕ) | unreadable | reseal | nothing
deriving DecidableEq, Repr

def syncSpaceName (record : Option SpaceNameRecord) (ring : Keyring)
    (space : SpaceRecord) : SyncStep :=
  if space.namePending then .publish
  else match record with
    | none => .nothing
    | some record =>
      if space.nameUpdatedAt < record.updatedAt then
        match readSpaceName record ring with
        | none => .unreadable
        | some name => .adopt name record.updatedAt
      else if record.updatedAt = space.nameUpdatedAt ∧ record.nameKeyEpoch < ring.current ∧
        space.name ≠ none then .reseal
      else .nothing

theorem plain_publishSpaceName {name : Option SpaceName} {ring : Keyring}
    {body : UpdateSpaceNameRequest}
    (h : publishSpaceName name ring = some body) : body.plain = name := by
  cases name with
  | none =>
    obtain rfl := Option.some.inj h
    rfl
  | some name =>
    obtain ⟨key, -, rfl⟩ := Option.map_eq_some_iff.mp h
    rfl

/-- What is read of a record is what it was made from. -/
theorem readSpaceName_eq_some {record : SpaceNameRecord} {ring : Keyring} {name : Option SpaceName}
    (h : readSpaceName record ring = some name) : name = record.plain := by
  unfold readSpaceName at h
  unfold SpaceNameRecord.plain
  cases hbox : record.encryptedName with
  | none =>
    rw [hbox] at h
    exact (Option.some.inj h).symm
  | some box =>
    rw [hbox] at h
    obtain ⟨name, hname, rfl⟩ := Option.map_eq_some_iff.mp h
    obtain ⟨key, -, hopen⟩ := Option.bind_eq_some_iff.mp hname
    unfold decryptText at hopen
    split_ifs at hopen
    exact hopen.symm

/-- A pass adopts what it has read of a record stamped later than the row. -/
theorem adopt_of_syncSpaceName {record : Option SpaceNameRecord} {ring : Keyring}
    {space : SpaceRecord} {name : Option SpaceName} {updatedAt : ℕ}
    (h : syncSpaceName record ring space = .adopt name updatedAt) :
    ∃ r, record = some r ∧ updatedAt = r.updatedAt ∧ name = r.plain := by
  unfold syncSpaceName at h
  split_ifs at h
  cases record with
  | none => cases h
  | some r =>
    dsimp only at h
    split_ifs at h
    cases hread : readSpaceName r ring with
    | none => simp only [hread, reduceCtorEq] at h
    | some read =>
      simp only [hread, SyncStep.adopt.injEq] at h
      obtain ⟨rfl, rfl⟩ := h
      exact ⟨r, rfl, rfl, readSpaceName_eq_some hread⟩

/-- A pass publishes what is owed. -/
theorem pending_of_syncSpaceName {record : Option SpaceNameRecord} {ring : Keyring}
    {space : SpaceRecord} (h : syncSpaceName record ring space = .publish) :
    space.namePending = true := by
  unfold syncSpaceName at h
  split_ifs at h with hpending
  · exact hpending
  · cases record with
    | none => cases h
    | some r =>
      dsimp only at h
      split_ifs at h
      cases hread : readSpaceName r ring with
      | none => simp only [hread, reduceCtorEq] at h
      | some read => simp only [hread, reduceCtorEq] at h

/-- A pass with nothing to do has a record that is no newer than the row. -/
theorem le_of_syncSpaceName {record : Option SpaceNameRecord} {ring : Keyring} {space : SpaceRecord}
    (h : syncSpaceName record ring space = .nothing) {r : SpaceNameRecord} (hr : record = some r) :
    r.updatedAt ≤ space.nameUpdatedAt := by
  subst hr
  unfold syncSpaceName at h
  split_ifs at h
  dsimp only at h
  split_ifs at h with hlt
  · cases hread : readSpaceName r ring with
    | none => simp only [hread, reduceCtorEq] at h
    | some read => simp only [hread, reduceCtorEq] at h
  · exact Nat.not_lt.mp hlt

/-- Between the awaits of a call. `space` is the row that a publish was begun with,
`current` the one that a change has read. -/
inductive Stage where
  | typing (typed : Option SpaceName) (current : SpaceRecord)
  | publishing (space : SpaceRecord) (ring : Keyring)
  | requested (space : SpaceRecord) (body : UpdateSpaceNameRequest)
  | authed (space : SpaceRecord) (body : UpdateSpaceNameRequest) (groupKeyEpoch : ℕ)
  | stamped (space : SpaceRecord) (body : UpdateSpaceNameRequest) (updatedAt : ℕ)
  | stored (space : SpaceRecord) (updatedAt : ℕ)
  | marking (space : SpaceRecord) (updatedAt : ℕ) (current : SpaceRecord)
  | polled (record : Option SpaceNameRecord)
  | accepting (record : SpaceNameRecord) (name : Option SpaceName)
  | adopting (record : SpaceNameRecord) (name : Option SpaceName) (current : SpaceRecord)
deriving DecidableEq, Repr

/-- What the server goes on with when nobody listens. -/
def Stage.server : Stage → Bool
  | .requested .. => true
  | .authed .. => true
  | .stamped .. => true
  | _ => false

/-- A page that is left hears of no answer any more. -/
structure Call where
  device : DeviceId
  listening : Bool
  stage : Stage
deriving DecidableEq, Repr

structure Device where
  space : SpaceRecord
  ring : Keyring
deriving DecidableEq, Repr

structure World where
  now : ℕ
  groupKeyEpoch : ℕ
  record : Option SpaceNameRecord
  devices : DeviceId → Device
  calls : CallId → Option Call

inductive Event where
  | rename (c : CallId) (d : DeviceId) (typed : Option SpaceName)
  | poll (c : CallId) (d : DeviceId)
  | run (c : CallId)
  /-- A request is lost on its way, or refused, or its answer is lost. -/
  | lose (c : CallId)
  /-- The page goes away, and what it awaits goes on without it. -/
  | leave (d : DeviceId)
  | tick
  | rotate
  | adoptKey (d : DeviceId) (epoch : ℕ) (key : GroupKey)
deriving DecidableEq, Repr

namespace World

def space (s : World) (d : DeviceId) : SpaceRecord := (s.devices d).space

def ring (s : World) (d : DeviceId) : Keyring := (s.devices d).ring

/-- The row is written, and the page shows what was written. -/
def write (s : World) (d : DeviceId) (space : SpaceRecord) : World :=
  { s with devices := Function.update s.devices d { s.devices d with space := space } }

def setRing (s : World) (d : DeviceId) (ring : Keyring) : World :=
  { s with devices := Function.update s.devices d { s.devices d with ring := ring } }

def setCall (s : World) (c : CallId) (call : Option Call) : World :=
  { s with calls := Function.update s.calls c call }

/-- The stage a pass is in when it has decided. -/
def decided (space : SpaceRecord) (ring : Keyring) (record : Option SpaceNameRecord) :
    Option Stage :=
  match syncSpaceName record ring space with
  | .publish => some (.publishing space ring)
  | .reseal => some (.publishing space ring)
  | .adopt name _ => record.map fun record => .accepting record name
  | .unreadable => none
  | .nothing => none

/-- One step of a call; the second part is the stage it is in afterwards. -/
def next (s : World) (d : DeviceId) : Stage → World × Option Stage
  | .typing typed current =>
      let renamed := renameSpace typed current
      (s.write d renamed, some (.publishing renamed (s.ring d)))
  | .publishing space ring => (s, (publishSpaceName space.name ring).map (.requested space))
  | .requested space body => (s, some (.authed space body s.groupKeyEpoch))
  | .authed space body groupKeyEpoch =>
      if body.nameKeyEpoch = groupKeyEpoch then (s, some (.stamped space body s.now))
      else (s, none)
  | .stamped space body updatedAt =>
      ({ s with record := some ⟨body.encryptedName, body.nameKeyEpoch, updatedAt⟩ },
        some (.stored space updatedAt))
  | .stored space updatedAt => (s, some (.marking space updatedAt (s.space d)))
  | .marking space updatedAt current =>
      (s.write d (markSpaceNamePublished space.name updatedAt current), none)
  | .polled record => (s, decided (s.space d) (s.ring d) record)
  | .accepting record name => (s, some (.adopting record name (s.space d)))
  | .adopting record name current =>
      (s.write d (adoptSpaceName name record.updatedAt current), none)

def step (s : World) : Event → Option World
  | .rename c d typed =>
      if s.calls c = none then some (s.setCall c (some ⟨d, true, .typing typed (s.space d)⟩))
      else none
  | .poll c d =>
      if s.calls c = none then some (s.setCall c (some ⟨d, true, .polled s.record⟩)) else none
  | .run c => (s.calls c).map fun call =>
      if call.listening || call.stage.server then
        let (t, stage) := s.next call.device call.stage
        t.setCall c (stage.map fun stage => { call with stage := stage })
      else s.setCall c none
  | .lose c => (s.calls c).bind fun call => match call.stage with
      | .requested .. => some (s.setCall c none)
      | .authed .. => some (s.setCall c none)
      | .stamped .. => some (s.setCall c (some { call with listening := false }))
      | .stored .. => some (s.setCall c none)
      | _ => none
  | .leave d => some { s with calls := fun c => (s.calls c).map fun call =>
      if call.device = d then { call with listening := false } else call }
  | .tick => some { s with now := s.now + 1 }
  | .rotate => some { s with groupKeyEpoch := s.groupKeyEpoch + 1 }
  | .adoptKey d epoch key => some (s.setRing d (withEpoch (s.ring d) epoch key))

variable {s : World}

@[simp] theorem space_write {d d' : DeviceId} {row : SpaceRecord} :
    (s.write d row).space d' = if d' = d then row else s.space d' := by
  unfold space write
  dsimp only
  split_ifs with h
  · subst h
    rw [Function.update_self]
  · rw [Function.update_of_ne h]

@[simp] theorem space_setRing {d d' : DeviceId} {ring : Keyring} :
    (s.setRing d ring).space d' = s.space d' := by
  unfold space setRing
  dsimp only
  by_cases h : d' = d
  · subst h
    rw [Function.update_self]
  · rw [Function.update_of_ne h]

theorem calls_setCall {c c' : CallId} {call : Option Call} :
    (s.setCall c call).calls c' = if c' = c then call else s.calls c' := by
  unfold setCall
  dsimp only
  split_ifs with h
  · subst h
    rw [Function.update_self]
  · rw [Function.update_of_ne h]

/-- What holds of every other call and of what one call becomes holds of every call. -/
theorem forall_calls_setCall {p : CallId → Call → Prop} {t : World} {c : CallId} {new : Option Call}
    (h : ∀ c' call, c' ≠ c → t.calls c' = some call → p c' call)
    (hnew : ∀ call, new = some call → p c call) :
    ∀ c' call, (t.setCall c new).calls c' = some call → p c' call := by
  intro c' call hc
  rw [calls_setCall] at hc
  split_ifs at hc with hne
  · subst hne
    exact hnew call hc
  · exact h c' call hne hc

/-- A call starts and ends no other. -/
theorem calls_next {d : DeviceId} {stage : Stage} : (s.next d stage).1.calls = s.calls := by
  cases stage with
  | authed space body groupKeyEpoch =>
    unfold next
    dsimp only
    split_ifs <;> rfl
  | _ => rfl

end World

def Event.call : Event → Option CallId
  | .rename c _ _ => some c
  | .poll c _ => some c
  | .run c => some c
  | .lose c => some c
  | _ => none

namespace World

/-- A connection that breaks ends the call, or leaves its request to the server. -/
theorem step_lose {s t : World} {c : CallId} (hs : s.step (.lose c) = some t) :
    ∃ call, s.calls c = some call ∧
      (t = s.setCall c none ∨ t = s.setCall c (some { call with listening := false })) := by
  obtain ⟨call, hcall, hlose⟩ := Option.bind_eq_some_iff.mp hs
  refine ⟨call, hcall, ?_⟩
  cases hst : call.stage with
  | requested | authed | stored =>
    simp only [hst, Option.some.injEq] at hlose
    exact Or.inl hlose.symm
  | stamped space body updatedAt =>
    simp only [hst, Option.some.injEq] at hlose
    exact Or.inr (hst ▸ hlose.symm)
  | _ => simp only [hst, reduceCtorEq] at hlose

/-- A pass goes on to publish its row, or to accept what it has read of the record. -/
theorem decided_eq {space : SpaceRecord} {ring : Keyring} {record : Option SpaceNameRecord}
    {stage : Stage} (h : decided space ring record = some stage) :
    (stage = .publishing space ring ∧ (syncSpaceName record ring space = .publish ∨
        syncSpaceName record ring space = .reseal)) ∨
      ∃ r, record = some r ∧ stage = .accepting r r.plain ∧
        syncSpaceName record ring space = .adopt r.plain r.updatedAt := by
  unfold decided at h
  cases hsync : syncSpaceName record ring space with
  | publish =>
    rw [hsync] at h
    exact Or.inl ⟨(Option.some.inj h).symm, Or.inl rfl⟩
  | reseal =>
    rw [hsync] at h
    exact Or.inl ⟨(Option.some.inj h).symm, Or.inr rfl⟩
  | adopt name updatedAt =>
    obtain ⟨r, rfl, rfl, rfl⟩ := adopt_of_syncSpaceName hsync
    rw [hsync] at h
    exact Or.inr ⟨r, rfl, (Option.some.inj h).symm, rfl⟩
  | unreadable => simp only [hsync, reduceCtorEq] at h
  | nothing => simp only [hsync, reduceCtorEq] at h

/-- Only a call's own events start it. -/
theorem calls_step {s t : World} {e : Event} {c : CallId} (hs : s.step e = some t)
    (hc : e.call ≠ some c) (h : s.calls c = none) : t.calls c = none := by
  have hother : ∀ (u : World) c' new, c' ≠ c → u.calls = s.calls →
      (u.setCall c' new).calls c = none := by
    intro u c' new hne hu
    rw [calls_setCall, if_neg hne.symm, hu, h]
  cases e with
  | rename c' d typed =>
    obtain ⟨-, heq⟩ := Option.ite_none_right_eq_some.mp hs
    obtain rfl := Option.some.inj heq
    exact hother s c' _ (fun he => hc (congrArg some he)) rfl
  | poll c' d =>
    obtain ⟨-, heq⟩ := Option.ite_none_right_eq_some.mp hs
    obtain rfl := Option.some.inj heq
    exact hother s c' _ (fun he => hc (congrArg some he)) rfl
  | run c' =>
    have hne : c' ≠ c := fun he => hc (congrArg some he)
    obtain ⟨call, hcall, rfl⟩ := Option.map_eq_some_iff.mp hs
    split_ifs
    · exact hother _ c' _ hne calls_next
    · exact hother s c' _ hne rfl
  | lose c' =>
    have hne : c' ≠ c := fun he => hc (congrArg some he)
    obtain ⟨call, -, rfl | rfl⟩ := step_lose hs
    · exact hother s c' _ hne rfl
    · exact hother s c' _ hne rfl
  | leave d =>
    obtain rfl := Option.some.inj hs
    simp only [h, Option.map_none]
  | tick =>
    obtain rfl := Option.some.inj hs
    exact h
  | rotate =>
    obtain rfl := Option.some.inj hs
    exact h
  | adoptKey d epoch key =>
    obtain rfl := Option.some.inj hs
    exact h

end World

/-- Nothing has been published, and every device has a name of its own. -/
def start (epoch : ℕ) (names : DeviceId → Option SpaceName) (rings : DeviceId → Keyring) : World :=
  ⟨1, epoch, none, fun d => ⟨⟨names d, 0, false⟩, rings d⟩, fun _ => none⟩

end SendSelf.Names
