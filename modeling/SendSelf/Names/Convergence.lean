import Mathlib.Data.Nat.Basic
import SendSelf.Library.Recording
import SendSelf.Library.Stamped
import SendSelf.Names.World

/-!
# Devices agree on the name

A device that has caught up with the stored record calls the space what the record says.
A stamp is all that a device compares, so this needs that a stamp says which name it is:
every write of the record is stamped after the one it replaces, or repeats it. The server
takes the stamp from its clock, in milliseconds, before it writes.

Beside a run it is noted what was written to the record, with which stamps, and for each
device the record of the last poll that it has processed since it last changed its row for
another reason.
-/
namespace SendSelf.Names
open Runs Stamped

structure History where
  writes : List (ℕ × Option SpaceName)
  caughtUp : DeviceId → Option SpaceNameRecord

def History.noteStage (h : History) (space : SpaceRecord) (ring : Keyring) (d : DeviceId) :
    Stage → History
  | .typing .. => { h with caughtUp := Function.update h.caughtUp d none }
  | .marking .. => { h with caughtUp := Function.update h.caughtUp d none }
  | .stamped _ body updatedAt => { h with writes := (updatedAt, body.plain) :: h.writes }
  | .polled record => if syncSpaceName record ring space = .nothing then
      { h with caughtUp := Function.update h.caughtUp d record } else h
  | .adopting record _ _ => { h with caughtUp := Function.update h.caughtUp d (some record) }
  | _ => h

/-- A call that runs is noted, unless its page has gone. -/
def note (s : World) (e : Event) (_ : World) (h : History) : History :=
  match e with
  | .run c => match s.calls c with
    | some call => if call.listening || call.stage.server then
        h.noteStage (s.space call.device) (s.ring call.device) call.device call.stage else h
    | none => h
  | _ => h

/-- What a stage is about to write to the record. -/
def Stage.commits : Stage → Option (ℕ × Option SpaceName)
  | .stamped _ body updatedAt => some (updatedAt, body.plain)
  | _ => none

/-- A write of the record is stamped after the one it replaces, or repeats it. -/
def Later (s : World) : Event → Prop
  | .run c => ∀ call ∈ s.calls c, ∀ w ∈ call.stage.commits, ∀ r ∈ s.record, r.updatedAt < w.1 ∨
  (r.updatedAt, r.plain) = w
  | _ => True

def start.history : History := ⟨[], fun _ => none⟩

/-- A row that is not owed has a name that was stored with its stamp, if it has a stamp. -/
def Backed (writes : List (ℕ × Option SpaceName)) (row : SpaceRecord) : Prop :=
  row.namePending = false → row.nameUpdatedAt = 0 ∨ (row.nameUpdatedAt, row.name) ∈ writes

/-- What a call brings to the row, or to the record, is what was or will be written. -/
def Stage.Backed (writes : List (ℕ × Option SpaceName)) : Stage → Prop
  | .typing .. => True
  | .publishing .. => True
  | .requested space body => body.plain = space.name
  | .authed space body _ => body.plain = space.name
  | .stamped space body updatedAt => body.plain = space.name ∧ 0 < updatedAt
  | .stored space updatedAt => (updatedAt, space.name) ∈ writes
  | .marking space updatedAt _ => (updatedAt, space.name) ∈ writes
  | .polled record => ∀ r ∈ record, (r.updatedAt, r.plain) ∈ writes
  | .accepting record name => (record.updatedAt, name) ∈ writes
  | .adopting record name _ => (record.updatedAt, name) ∈ writes

structure Kept (s : World) (h : History) : Prop where
  now_pos : 0 < s.now
  ordered : Ordered h.writes
  positive : ∀ w ∈ h.writes, 0 < w.1
  newest : h.writes.head? = s.record.map fun r => (r.updatedAt, r.plain)
  rows : ∀ d, Backed h.writes (s.space d)
  stages : ∀ c call, s.calls c = some call → call.stage.Backed h.writes
  caughtUp : ∀ d r, h.caughtUp d = some r → r.updatedAt ≤ (s.space d).nameUpdatedAt

theorem Backed.mono {writes writes' : List (ℕ × Option SpaceName)} (hw : ∀ w ∈ writes, w ∈ writes')
    {row : SpaceRecord}
    (h : Backed writes row) : Backed writes' row := fun hp => (h hp).imp_right (hw _)

theorem Stage.Backed.mono {writes writes' : List (ℕ × Option SpaceName)}
    (hw : ∀ w ∈ writes, w ∈ writes') {stage : Stage}
    (h : stage.Backed writes) : stage.Backed writes' := by
  cases stage with
  | typing => trivial
  | publishing => trivial
  | requested => exact h
  | authed => exact h
  | stamped => exact h
  | stored => exact hw _ h
  | marking => exact hw _ h
  | polled => exact fun r hr => hw _ (h r hr)
  | accepting => exact hw _ h
  | adopting => exact hw _ h

theorem Kept.withCall {s : World} {h : History} (hk : Kept s h) {c : CallId} {new : Option Call}
    (hnew : ∀ call, new = some call → call.stage.Backed h.writes) : Kept (s.setCall c new) h where
  now_pos := hk.now_pos
  ordered := hk.ordered
  positive := hk.positive
  newest := hk.newest
  rows := hk.rows
  stages := World.forall_calls_setCall (fun c call _ hc => hk.stages c call hc) hnew
  caughtUp := hk.caughtUp

/-- A row is written, and the device has caught up with nothing, or with a record that the
row is as new as. -/
theorem Kept.write {s : World} {h : History} (hk : Kept s h) {d : DeviceId} {row : SpaceRecord}
    (hrow : Backed h.writes row) {caught : Option SpaceNameRecord}
    (hcaught : ∀ r ∈ caught, r.updatedAt ≤ row.nameUpdatedAt) :
    Kept (s.write d row) { h with caughtUp := Function.update h.caughtUp d caught } where
  now_pos := hk.now_pos
  ordered := hk.ordered
  positive := hk.positive
  newest := hk.newest
  rows := by
    intro d'
    rw [World.space_write]
    split_ifs
    · exact hrow
    · exact hk.rows d'
  stages := hk.stages
  caughtUp := by
    intro d' r hr
    dsimp only at hr
    rw [World.space_write]
    by_cases hd : d' = d
    · subst hd
      rw [Function.update_self] at hr
      rw [if_pos rfl]
      exact hcaught r hr
    · rw [Function.update_of_ne hd] at hr
      rw [if_neg hd]
      exact hk.caughtUp d' r hr

theorem Kept.commit {s : World} {h : History} (hk : Kept s h) {space : SpaceRecord}
    {body : UpdateSpaceNameRequest} {updatedAt : ℕ}
    (hstage : (Stage.stamped space body updatedAt).Backed h.writes)
    (hlater : ∀ r ∈ s.record, r.updatedAt < updatedAt ∨
      (r.updatedAt, r.plain) = (updatedAt, body.plain)) :
    Kept { s with record := some ⟨body.encryptedName, body.nameKeyEpoch, updatedAt⟩ }
      { h with writes := (updatedAt, body.plain) :: h.writes } where
  now_pos := hk.now_pos
  ordered := by
    refine hk.ordered.cons fun v hv => ?_
    rw [hk.newest] at hv
    obtain ⟨r, hr, rfl⟩ := Option.map_eq_some_iff.mp hv
    exact hlater r hr
  positive := List.forall_mem_cons.mpr ⟨hstage.2, hk.positive⟩
  newest := rfl
  rows := fun d => (hk.rows d).mono fun w hw => List.mem_cons_of_mem _ hw
  stages := fun c call hc => (hk.stages c call hc).mono fun w hw => List.mem_cons_of_mem _ hw
  caughtUp := hk.caughtUp

/-- One step of a call, and what it goes on with. -/
theorem Kept.next {s : World} {h : History} (hk : Kept s h) {d : DeviceId} {stage : Stage}
    (hstage : stage.Backed h.writes)
    (hlater : ∀ w ∈ stage.commits, ∀ r ∈ s.record, r.updatedAt < w.1 ∨ (r.updatedAt, r.plain) = w) :
    Kept (s.next d stage).1 (h.noteStage (s.space d) (s.ring d) d stage) ∧
      ∀ stage', (s.next d stage).2 = some stage' →
        stage'.Backed (h.noteStage (s.space d) (s.ring d) d stage).writes := by
  cases stage with
  | typing typed current =>
    refine ⟨hk.write (fun hp => absurd hp (by simp [renameSpace])) (by simp), fun stage' h' => ?_⟩
    obtain rfl := Option.some.inj h'
    trivial
  | publishing space ring =>
    refine ⟨hk, fun stage' h' => ?_⟩
    obtain ⟨body, hbody, rfl⟩ := Option.map_eq_some_iff.mp h'
    exact plain_publishSpaceName hbody
  | requested space body =>
    refine ⟨hk, fun stage' h' => ?_⟩
    obtain rfl := Option.some.inj h'
    exact hstage
  | authed space body groupKeyEpoch =>
    by_cases hepoch : body.nameKeyEpoch = groupKeyEpoch
    · simp only [World.next, if_pos hepoch]
      refine ⟨hk, fun stage' h' => ?_⟩
      obtain rfl := Option.some.inj h'
      exact ⟨hstage, hk.now_pos⟩
    · simp only [World.next, if_neg hepoch]
      exact ⟨hk, fun stage' h' => by cases h'⟩
  | stamped space body updatedAt =>
    refine ⟨hk.commit hstage (hlater _ rfl), fun stage' h' => ?_⟩
    obtain rfl := Option.some.inj h'
    have hplain : body.plain = space.name := hstage.1
    show (updatedAt, space.name) ∈ (updatedAt, body.plain) :: h.writes
    rw [hplain]
    exact List.mem_cons_self
  | stored space updatedAt =>
    refine ⟨hk, fun stage' h' => ?_⟩
    obtain rfl := Option.some.inj h'
    exact hstage
  | marking space updatedAt current =>
    have hrow : Backed h.writes (markSpaceNamePublished space.name updatedAt current) := by
      intro hp
      have hname : current.name = space.name := by simpa [markSpaceNamePublished] using hp
      rw [markSpaceNamePublished, hname]
      exact Or.inr hstage
    exact ⟨hk.write hrow (by simp), fun stage' h' => by cases h'⟩
  | polled record =>
    have hdecided : ∀ stage', World.decided (s.space d) (s.ring d) record = some stage' →
        stage'.Backed h.writes := by
      intro stage' h'
      obtain ⟨rfl, -⟩ | ⟨r, rfl, rfl, -⟩ := World.decided_eq h'
      · trivial
      · exact hstage r rfl
    by_cases hsync : syncSpaceName record (s.ring d) (s.space d) = .nothing
    · have hnote : h.noteStage (s.space d) (s.ring d) d (.polled record) =
          { h with caughtUp := Function.update h.caughtUp d record } := if_pos hsync
      rw [hnote]
      refine ⟨{ hk with caughtUp := fun d' r hr => ?_ }, hdecided⟩
      dsimp only at hr
      by_cases hd : d' = d
      · subst hd
        rw [Function.update_self] at hr
        exact le_of_syncSpaceName hsync hr
      · rw [Function.update_of_ne hd] at hr
        exact hk.caughtUp d' r hr
    · have hnote : h.noteStage (s.space d) (s.ring d) d (.polled record) = h := if_neg hsync
      rw [hnote]
      exact ⟨hk, hdecided⟩
  | accepting record name =>
    refine ⟨hk, fun stage' h' => ?_⟩
    obtain rfl := Option.some.inj h'
    exact hstage
  | adopting record name current =>
    have hrow : Backed h.writes (adoptSpaceName name record.updatedAt current) :=
      fun _ => Or.inr hstage
    refine ⟨hk.write hrow ?_, fun stage' h' => by cases h'⟩
    intro r hr
    obtain rfl := Option.some.inj hr
    exact le_rfl

theorem Kept.step {s t : World} {h : History} {e : Event} (hk : Kept s h) (hlater : Later s e)
    (hs : s.step e = some t) :
    Kept t (note s e t h) := by
  cases e with
  | rename c d typed =>
    obtain ⟨-, heq⟩ := Option.ite_none_right_eq_some.mp hs
    obtain rfl := Option.some.inj heq
    refine hk.withCall fun call hcall => ?_
    obtain rfl := Option.some.inj hcall
    trivial
  | poll c d =>
    obtain ⟨-, heq⟩ := Option.ite_none_right_eq_some.mp hs
    obtain rfl := Option.some.inj heq
    refine hk.withCall fun call hcall => ?_
    obtain rfl := Option.some.inj hcall
    intro r hr
    have hnewest : (r.updatedAt, r.plain) ∈ h.writes.head? := by
      rw [hk.newest]
      exact Option.map_eq_some_iff.mpr ⟨r, hr, rfl⟩
    exact List.mem_of_mem_head? hnewest
  | run c =>
    obtain ⟨call, hcall, rfl⟩ := Option.map_eq_some_iff.mp hs
    by_cases hgoes : (call.listening || call.stage.server) = true
    · have hnote : ∀ t, note s (.run c) t h =
          h.noteStage (s.space call.device) (s.ring call.device) call.device call.stage :=
            fun t => by
        simp only [note, hcall, if_pos hgoes]
      obtain ⟨hnext, hstage⟩ :=
        hk.next (d := call.device) (hk.stages c call hcall) (hlater call hcall)
      rw [hnote, if_pos hgoes]
      refine hnext.withCall fun call' h' => ?_
      obtain ⟨stage', hstage', rfl⟩ := Option.map_eq_some_iff.mp h'
      exact hstage stage' hstage'
    · have hnote : ∀ t, note s (.run c) t h = h := fun t => by simp only [note, hcall, if_neg hgoes]
      rw [hnote, if_neg hgoes]
      exact hk.withCall fun call' h' => by cases h'
  | lose c =>
    obtain ⟨call, hcall, rfl | rfl⟩ := World.step_lose hs
    · exact hk.withCall fun call' h' => by cases h'
    · refine hk.withCall fun call' h' => ?_
      obtain rfl := Option.some.inj h'
      exact hk.stages c call hcall
  | leave d =>
    obtain rfl := Option.some.inj hs
    refine { hk with stages := fun c call hcall => ?_ }
    obtain ⟨call', hcall', rfl⟩ := Option.map_eq_some_iff.mp hcall
    have hstage := hk.stages c call' hcall'
    split_ifs
    · exact hstage
    · exact hstage
  | tick =>
    obtain rfl := Option.some.inj hs
    exact { hk with now_pos := Nat.succ_pos _ }
  | rotate =>
    obtain rfl := Option.some.inj hs
    exact { hk with }
  | adoptKey d epoch key =>
    obtain rfl := Option.some.inj hs
    refine { hk with rows := fun d' => ?_, caughtUp := fun d' r hr => ?_ }
    · rw [World.space_setRing]
      exact hk.rows d'
    · rw [World.space_setRing]
      exact hk.caughtUp d' r hr

theorem kept_start (epoch : ℕ) (names : DeviceId → Option SpaceName) (rings : DeviceId → Keyring) :
    Kept (start epoch names rings) start.history where
  now_pos := Nat.one_pos
  ordered := ordered_nil
  positive := fun w hw => by cases hw
  newest := rfl
  rows := fun d _ => Or.inl rfl
  stages := fun c call hc => by cases hc
  caughtUp := fun d r hr => by cases hr

/-- A device that owes no name and has caught up with the stored record has its name. -/
theorem Kept.agrees {s : World} {h : History} (hk : Kept s h) {d : DeviceId}
    (howed : (s.space d).namePending = false)
    {r : SpaceNameRecord} (hr : s.record = some r) (hcaught : h.caughtUp d = some r) :
    (s.space d).name = r.plain := by
  have hnewest : h.writes.head? = some (r.updatedAt, r.plain) := by rw [hk.newest, hr]; rfl
  obtain ⟨older, hwrites⟩ : ∃ older, h.writes = (r.updatedAt, r.plain) :: older := by
    cases hw : h.writes with
    | nil =>
      rw [hw] at hnewest
      cases hnewest
    | cons w older =>
      rw [hw] at hnewest
      obtain rfl := Option.some.inj hnewest
      exact ⟨older, rfl⟩
  have hmem : (r.updatedAt, r.plain) ∈ h.writes := by rw [hwrites]; exact List.mem_cons_self
  have hle := hk.caughtUp d r hcaught
  rcases hk.rows d howed with hzero | hbacked
  · have hpos := hk.positive _ hmem
    rw [hzero] at hle
    exact absurd hpos (not_lt.mpr hle)
  · have hge : (s.space d).nameUpdatedAt ≤ r.updatedAt :=
      (hwrites ▸ hk.ordered).le_newest (hwrites ▸ hbacked)
    exact congrArg Prod.snd (hk.ordered.unique hbacked hmem (le_antisymm hge hle))

/-- In every run whose writes are stamped one after the other, the devices that owe nothing
and have caught up with the stored record all have the name it was made from. -/
theorem names_converge {epoch : ℕ} {names : DeviceId → Option SpaceName}
    {rings : DeviceId → Keyring} {s : World} {h : History}
    (hrun : ReachableVia (recorded World.step note) (fun s e => Later s.1 e)
      (start epoch names rings, start.history) (s, h))
    {devices : List DeviceId} (howed : ∀ d ∈ devices, (s.space d).namePending = false)
    {r : SpaceNameRecord}
    (hr : s.record = some r) (hcaught : ∀ d ∈ devices, h.caughtUp d = some r) :
    ∀ d ∈ devices, (s.space d).name = r.plain := by
  have hk : Kept (s, h).1 (s, h).2 := by
    refine hrun.recorded_invariant (I := fun s h => Kept s h) (kept_start epoch names rings) ?_
    intro s h e t hI hok hs
    exact hI.step hok hs
  exact fun d hd => hk.agrees (howed d hd) hr (hcaught d hd)

instance (s : World) : (e : Event) → Decidable (Later s e)
  | .run c =>
    inferInstanceAs (Decidable (∀ call ∈ s.calls c, ∀ w ∈ call.stage.commits, ∀ r ∈ s.record,
      r.updatedAt < w.1 ∨ (r.updatedAt, r.plain) = w))
  | .rename .. => isTrue trivial
  | .poll .. => isTrue trivial
  | .lose .. => isTrue trivial
  | .leave .. => isTrue trivial
  | .tick => isTrue trivial
  | .rotate => isTrue trivial
  | .adoptKey .. => isTrue trivial

theorem calls_replay {s t : World × History} {es : List Event} {c : CallId}
    (h : replay (recorded World.step note) s es = some t)
    (hc : ∀ e ∈ es, e.call ≠ some c) (hs : s.1.calls c = none) : t.1.calls c = none := by
  induction es generalizing s with
  | nil =>
    obtain rfl := Option.some.inj h
    exact hs
  | cons e es ih =>
    obtain ⟨u, hu, hrest⟩ := Option.bind_eq_some_iff.mp h
    obtain ⟨v, hv, rfl⟩ := recorded_eq_some.mp hu
    exact ih hrest (fun e' he' => hc e' (List.mem_cons_of_mem _ he'))
      (World.calls_step hv (hc e List.mem_cons_self) hs)

/-- The devices 1 and 2, with one key and no names. -/
abbrev two : World × History := (start 1 (fun _ => none) fun _ => createKeyring 9 1, start.history)

/-- A rename that is published, and whose answer arrives. -/
def renamed (c : CallId) (d : DeviceId) (name : SpaceName) : List Event :=
  .rename c d (some name) :: List.replicate 7 (.run c)

/-- Device 2 renames a millisecond after device 1, which then adopts the name. -/
theorem names_converge_later : ∃ s : World, s.record = some ⟨some ⟨9, 6⟩, 1, 2⟩ ∧
    ∀ d ∈ ([1, 2] : List DeviceId), (s.space d).name = some 6 := by
  have hrun : (replayVia (recorded World.step note) (fun s e => Later s.1 e) two
      (renamed 1 1 5 ++
        .tick :: renamed 2 2 6 ++
          [.poll 3 1, .run 3, .run 3, .run 3, .poll 4 2, .run 4])).any (fun s =>
        decide (s.1.record = some ⟨some ⟨9, 6⟩, 1, 2⟩ ∧ ∀ d ∈ ([1, 2] : List DeviceId),
          (s.1.space d).namePending = false ∧
          s.2.caughtUp d = some ⟨some ⟨9, 6⟩, 1, 2⟩)) = true := by decide +kernel
  obtain ⟨⟨s, h⟩, hs, hend⟩ := (Option.any_eq_true _ _).mp hrun
  obtain ⟨hr, hdevices⟩ := of_decide_eq_true hend
  exact ⟨s, hr, names_converge (reachableVia_of_replayVia hs) (fun d hd => (hdevices d hd).1) hr
    fun d hd => (hdevices d hd).2⟩

/-- Both renames are stored in one millisecond. Nothing is owed or under way, both devices
have caught up with the record and can read it, and they differ. -/
theorem names_differ :
    ∃ (s : World) (h : History), Reachable (recorded World.step note) two (s, h) ∧
    (∀ c, s.calls c = none) ∧ s.record = some ⟨some ⟨9, 6⟩, 1, 1⟩ ∧
    (∀ d ∈ ([1, 2] : List DeviceId), (s.space d).namePending = false ∧
      h.caughtUp d = some ⟨some ⟨9, 6⟩, 1, 1⟩ ∧
      readSpaceName ⟨some ⟨9, 6⟩, 1, 1⟩ (s.ring d) = some (some 6)) ∧
    (s.space 1).name = some 5 ∧ (s.space 2).name = some 6 := by
  have hrun : (replay (recorded World.step note) two
      (renamed 1 1 5 ++ renamed 2 2 6 ++ [.poll 3 1, .run 3, .poll 4 2, .run 4])).any (fun s =>
        decide (s.1.record = some ⟨some ⟨9, 6⟩, 1, 1⟩ ∧
          (∀ c ∈ ([1, 2, 3, 4] : List CallId), s.1.calls c = none) ∧
          (∀ d ∈ ([1, 2] : List DeviceId), (s.1.space d).namePending = false ∧
            s.2.caughtUp d = some ⟨some ⟨9, 6⟩, 1, 1⟩ ∧
            readSpaceName ⟨some ⟨9, 6⟩, 1, 1⟩ (s.1.ring d) = some (some 6)) ∧
          (s.1.space 1).name = some 5 ∧ (s.1.space 2).name = some 6)) = true := by decide +kernel
  obtain ⟨⟨s, h⟩, hs, hend⟩ := (Option.any_eq_true _ _).mp hrun
  obtain ⟨hr, hcalls, hdevices, hone, htwo⟩ := of_decide_eq_true hend
  refine ⟨s, h, reachable_of_replay hs, fun c => ?_, hr, hdevices, hone, htwo⟩
  by_cases hc : c ∈ ([1, 2, 3, 4] : List CallId)
  · exact hcalls c hc
  · refine calls_replay hs (fun e he heq => hc ?_) rfl
    have hused : ∀ e ∈ renamed 1 1 5 ++ renamed 2 2 6 ++ [.poll 3 1, .run 3, .poll 4 2, .run 4],
        ∀ c ∈ e.call, c ∈ ([1, 2, 3, 4] : List CallId) := by decide +kernel
    exact hused e he c heq

end SendSelf.Names
