import Mathlib.Data.Nat.Basic
import SendSelf.Library.Recording
import SendSelf.Names.World

/-!
# What supersedes a rename

A rename that was typed on a device is owed there until the server has accepted it, and the
name in the record changes by nothing but renames that are owed.

Every change of a row is a read and a later write, and a publish is sent some time after it
was begun, so this needs that nothing gets in between that matters: nothing is typed and no
debt is cleared between the read of a row and the publish of the rename owed in it; a pass
that publishes a name again has the record's own name, and the record's name is not changed
before that is stored; nothing is typed between a pass's look at its row and the adoption it
decides on; and an answer finds the row as it was when it was read, owed or with the name that
was published, and owed for that name only if it was typed before the publish was stored.

Beside a run it is noted what was typed on each device, whether it was accepted since and how
often a write has left nothing owed there, how often the record's name has changed, and for
each call when it polled, looked at its row, was sent, was stored and has read the row.
-/
namespace SendSelf.Names.Renames
open Runs

/-- The last rename typed on a device, and how many writes have left nothing owed there. -/
structure Typed where
  number : ℕ
  name : Option (Option SpaceName)
  accepted : Bool
  cleared : ℕ
deriving DecidableEq, Repr

/-- Of a call: the changes of the record's name when it polled, the renames typed and the
debts cleared on its device when it looked at the row it goes by, whether it publishes a name
again, whether what it publishes was owed when it was sent, and the renames typed on its
device when it was stored and when it has read the row. -/
structure Note where
  polledAt : ℕ
  typedAt : ℕ
  clearedAt : ℕ
  reseal : Bool
  owed : Bool
  storedAt : ℕ
  readAt : ℕ
deriving DecidableEq, Repr

structure Ledger where
  typed : DeviceId → Typed
  changes : ℕ
  notes : CallId → Note

def Ledger.setTyped (h : Ledger) (d : DeviceId) (typed : Typed) : Ledger :=
  { h with typed := Function.update h.typed d typed }

def Ledger.setNote (h : Ledger) (c : CallId) (note : Note) : Ledger :=
  { h with notes := Function.update h.notes c note }

/-- What is noted of a call that begins. -/
def Ledger.begun (h : Ledger) : Note := ⟨h.changes, 0, 0, false, false, 0, 0⟩

/-- The name in the server's record. -/
def plain (s : World) : Option SpaceName := s.record.bind SpaceNameRecord.plain

/-- A write leaves nothing owed in a row. -/
def Ledger.clear (h : Ledger) (d : DeviceId) : Ledger :=
  h.setTyped d { h.typed d with cleared := (h.typed d).cleared + 1 }

/-- A call goes by the row as it is now. -/
def Ledger.look (h : Ledger) (c : CallId) (d : DeviceId) : Ledger :=
  h.setNote c { h.notes c with typedAt := (h.typed d).number, clearedAt := (h.typed d).cleared }

def Ledger.noteStage (h : Ledger) (s : World) (c : CallId) (d : DeviceId) : Stage → Ledger
  | .typing typed _ =>
      (h.setTyped d ⟨(h.typed d).number + 1, some typed, false, (h.typed d).cleared⟩).look c d
  | .polled record => (h.setNote c { h.notes c with
      reseal := decide (syncSpaceName record (s.ring d) (s.space d) = .reseal) }).look c d
  | .publishing space _ =>
      h.setNote c { h.notes c with owed := decide ((s.space d).namePending = true ∧
      (s.space d).name = space.name ∧ (h.typed d).name = some space.name) }
  | .stamped _ body _ =>
      { (h.setTyped d { h.typed d with
        accepted := (h.typed d).accepted || decide ((h.typed d).name = some body.plain) }).setNote c
          { h.notes c with storedAt := (h.typed d).number } with
        changes := if body.plain = plain s then h.changes else h.changes + 1 }
  | .stored .. => h.setNote c { h.notes c with readAt := (h.typed d).number }
  | .marking space _ current => if current.name = space.name then h.clear d else h
  | .adopting .. => h.clear d
  | _ => h

def note (s : World) (e : Event) (_ : World) (h : Ledger) : Ledger :=
  match e with
  | .rename c _ _ => h.setNote c h.begun
  | .poll c _ => h.setNote c h.begun
  | .run c => match s.calls c with
    | some call =>
        if call.listening || call.stage.server then h.noteStage s c call.device call.stage else h
    | none => h
  | _ => h

/-- Nothing gets in between that matters to the step. -/
def HeedsStage (s : World) (h : Ledger) (c : CallId) (d : DeviceId) : Stage → Prop
  | .publishing .. => (h.notes c).reseal = false →
      (h.notes c).typedAt = (h.typed d).number ∧ (h.notes c).clearedAt = (h.typed d).cleared
  | .polled record => syncSpaceName record (s.ring d) (s.space d) = .reseal →
      (s.space d).name = record.bind SpaceNameRecord.plain
  | .stamped .. => (h.notes c).reseal = true → h.changes = (h.notes c).polledAt
  | .adopting .. => (h.notes c).typedAt = (h.typed d).number
  | .marking space _ current => (h.notes c).readAt = (h.typed d).number ∧
      (current.name ≠ space.name → current.namePending = true) ∧
      (current.name = space.name → current.namePending = true →
        (h.notes c).storedAt = (h.typed d).number)
  | _ => True

def Heeds (s : World × Ledger) : Event → Prop
  | .run c => ∀ call ∈ s.1.calls c, (call.listening || call.stage.server) = true →
      HeedsStage s.1 s.2 c call.device call.stage
  | _ => True

def start.ledger : Ledger :=
  ⟨fun _ => ⟨0, none, true, 0⟩, 0, fun _ => ⟨0, 0, 0, false, false, 0, 0⟩⟩

/-- A name that is published again is the record's, unless that has changed since the poll. -/
def Again (name : Option SpaceName) (h : Ledger) (c : CallId) (space : SpaceRecord) : Prop :=
  (h.notes c).reseal = true → (h.notes c).polledAt ≤ h.changes ∧
  (h.changes = (h.notes c).polledAt → name = space.name)

/-- What was sent is a name that is published again, or was owed. -/
def Sent (name : Option SpaceName) (h : Ledger) (c : CallId) (space : SpaceRecord) : Prop :=
  Again name h c space ∧ ((h.notes c).reseal = false → (h.notes c).owed = true)

/-- If nothing was typed since the call was stored, what was typed has been accepted. -/
def Stored (h : Ledger) (c : CallId) (d : DeviceId) (space : SpaceRecord) : Prop :=
  (h.notes c).storedAt ≤ (h.typed d).number ∧
    ((h.notes c).storedAt = (h.typed d).number → (h.typed d).name = some space.name →
      (h.typed d).accepted = true)

/-- What is owed in a row is what was typed last. -/
def Owing (typed : Typed) (row : SpaceRecord) : Prop :=
  row.namePending = true → typed.name = some row.name

/-- What was typed last is owed in a row until it is accepted. -/
def Awaits (typed : Typed) (row : SpaceRecord) : Prop :=
  typed.accepted = false → row.namePending = true ∧ typed.name = some row.name

/-- A row that was read, if nothing was typed since. -/
def Read (h : Ledger) (c : CallId) (d : DeviceId) (current : SpaceRecord) : Prop :=
  (h.notes c).readAt ≤ (h.typed d).number ∧
    ((h.notes c).readAt = (h.typed d).number → Owing (h.typed d) current ∧
      Awaits (h.typed d) current)

/-- A row that a rename is published from: if nothing was typed since, that is its name, and
if nothing was cleared since, it is still owed. -/
def Carried (row : SpaceRecord) (h : Ledger) (c : CallId) (d : DeviceId) (space : SpaceRecord) :
    Prop :=
  (h.notes c).typedAt ≤ (h.typed d).number ∧ (h.notes c).clearedAt ≤ (h.typed d).cleared ∧
    ((h.notes c).typedAt = (h.typed d).number → (h.typed d).name = some space.name) ∧
    ((h.notes c).clearedAt = (h.typed d).cleared → row.namePending = true)

/-- A row in which nothing was owed: what had been typed was accepted. -/
def Quiet (h : Ledger) (c : CallId) (d : DeviceId) : Prop :=
  (h.notes c).typedAt ≤ (h.typed d).number ∧
    ((h.notes c).typedAt = (h.typed d).number → (h.typed d).accepted = true)

def StageKept (name : Option SpaceName) (row : SpaceRecord) (h : Ledger) (c : CallId)
    (d : DeviceId) : Stage → Prop
  | .typing .. => (h.notes c).reseal = false
  | .publishing space _ => Again name h c space ∧
      ((h.notes c).reseal = false → Carried row h c d space)
  | .requested space body => body.plain = space.name ∧ Sent name h c space
  | .authed space body _ => body.plain = space.name ∧ Sent name h c space
  | .stamped space body _ => body.plain = space.name ∧ Sent name h c space
  | .stored space _ => Stored h c d space
  | .marking space _ current => Stored h c d space ∧ Read h c d current
  | .polled record => (h.notes c).polledAt ≤ h.changes ∧
      (h.changes = (h.notes c).polledAt → name = record.bind SpaceNameRecord.plain)
  | .accepting .. => Quiet h c d
  | .adopting .. => Quiet h c d

structure Kept (s : World) (h : Ledger) : Prop where
  owing : ∀ d, Owing (h.typed d) (s.space d)
  awaits : ∀ d, Awaits (h.typed d) (s.space d)
  stages : ∀ c call, s.calls c = some call →
    StageKept (plain s) (s.space call.device) h c call.device call.stage

/-- The server accepts what was typed, or something else is typed. -/
def Typed.Later (t t' : Typed) : Prop :=
  (t'.number = t.number ∧ t'.name = t.name ∧ (t.accepted = true → t'.accepted = true)) ∨
  t.number < t'.number

theorem Typed.Later.refl (t : Typed) : t.Later t := Or.inl ⟨rfl, rfl, id⟩

/-- What is owed in a row stays owed, or has been cleared. -/
def Typed.Leaves (t t' : Typed) (row row' : SpaceRecord) : Prop :=
  (t'.cleared = t.cleared ∧ (row.namePending = true → row'.namePending = true)) ∨
    t.cleared < t'.cleared

theorem Typed.Leaves.refl (t : Typed) (row : SpaceRecord) : t.Leaves t row row :=
  Or.inl ⟨rfl, id⟩

section

variable {name name' : Option SpaceName} {row row' : SpaceRecord} {h h' : Ledger} {c : CallId}
  {d : DeviceId}

theorem Again.mono {space : SpaceRecord} (hn : h'.notes c = h.notes c)
    (hc : (name' = name ∧ h'.changes = h.changes) ∨ h.changes < h'.changes)
    (ha : Again name h c space) :
    Again name' h' c space := by
  unfold Again at ha ⊢
  rw [hn]
  intro hreseal
  obtain ⟨hle, heq⟩ := ha hreseal
  rcases hc with ⟨rfl, hc⟩ | hc
  · rw [hc]
    exact ⟨hle, heq⟩
  · exact ⟨by omega, fun hpolled => by omega⟩

theorem Sent.mono {space : SpaceRecord} (hn : h'.notes c = h.notes c)
    (hc : (name' = name ∧ h'.changes = h.changes) ∨ h.changes < h'.changes)
    (hs : Sent name h c space) :
    Sent name' h' c space := ⟨hs.1.mono hn hc, by rw [hn]; exact hs.2⟩

theorem Stored.mono {space : SpaceRecord} (hn : h'.notes c = h.notes c)
    (ht : (h.typed d).Later (h'.typed d)) (hs : Stored h c d space) : Stored h' c d space := by
  unfold Stored at hs ⊢
  rw [hn]
  rcases ht with ⟨hnumber, hname, haccepted⟩ | hlt
  · rw [hnumber, hname]
    exact ⟨hs.1, fun hstored htyped => haccepted (hs.2 hstored htyped)⟩
  · exact ⟨by omega, fun hstored => by omega⟩

theorem Read.mono {current : SpaceRecord} (hn : h'.notes c = h.notes c)
    (ht : (h.typed d).Later (h'.typed d)) (hr : Read h c d current) : Read h' c d current := by
  unfold Read Owing Awaits at hr ⊢
  rw [hn]
  rcases ht with ⟨hnumber, hname, haccepted⟩ | hlt
  · rw [hnumber, hname]
    refine ⟨hr.1, fun hread => ?_⟩
    obtain ⟨howing, hawaits⟩ := hr.2 hread
    refine ⟨howing, fun hnot => hawaits ?_⟩
    by_contra hacc
    rw [haccepted (by simpa using hacc)] at hnot
    cases hnot
  · exact ⟨by omega, fun hread => by omega⟩

theorem Carried.mono {space : SpaceRecord} (hn : h'.notes c = h.notes c)
    (ht : (h.typed d).Later (h'.typed d)) (hr : (h.typed d).Leaves (h'.typed d) row row')
    (hs : Carried row h c d space) : Carried row' h' c d space := by
  unfold Carried at hs ⊢
  rw [hn]
  obtain ⟨htyped, hcleared, hname, hpending⟩ := hs
  refine ⟨?_, ?_, fun hsame => ?_, fun hsame => ?_⟩
  · rcases ht with ⟨hnumber, -, -⟩ | hlt
    · omega
    · omega
  · rcases hr with ⟨heq, -⟩ | hlt
    · omega
    · omega
  · rcases ht with ⟨hnumber, hnames, -⟩ | hlt
    · exact hnames.trans (hname (hsame.trans hnumber))
    · omega
  · rcases hr with ⟨heq, hkeeps⟩ | hlt
    · exact hkeeps (hpending (hsame.trans heq))
    · omega

theorem Quiet.mono (hn : h'.notes c = h.notes c) (ht : (h.typed d).Later (h'.typed d))
    (hs : Quiet h c d) : Quiet h' c d := by
  unfold Quiet at hs ⊢
  rw [hn]
  rcases ht with ⟨hnumber, -, haccepted⟩ | hlt
  · rw [hnumber]
    exact ⟨hs.1, fun hsame => haccepted (hs.2 hsame)⟩
  · exact ⟨by omega, fun hsame => by omega⟩

theorem StageKept.mono {stage : Stage} (hn : h'.notes c = h.notes c)
    (hc : (name' = name ∧ h'.changes = h.changes) ∨ h.changes < h'.changes)
    (ht : (h.typed d).Later (h'.typed d)) (hr : (h.typed d).Leaves (h'.typed d) row row')
    (hs : StageKept name row h c d stage) : StageKept name' row' h' c d stage := by
  cases stage with
  | typing =>
    unfold StageKept at hs ⊢
    rw [hn]
    exact hs
  | publishing => exact ⟨hs.1.mono hn hc, fun hreseal => (hs.2 (hn ▸ hreseal)).mono hn ht hr⟩
  | requested => exact ⟨hs.1, hs.2.mono hn hc⟩
  | authed => exact ⟨hs.1, hs.2.mono hn hc⟩
  | stamped => exact ⟨hs.1, hs.2.mono hn hc⟩
  | stored => exact Stored.mono hn ht hs
  | marking => exact ⟨hs.1.mono hn ht, hs.2.mono hn ht⟩
  | polled =>
    unfold StageKept at hs ⊢
    rw [hn]
    rcases hc with ⟨rfl, hc⟩ | hc
    · rw [hc]
      exact hs
    · exact ⟨by omega, fun hpolled => by omega⟩
  | accepting => exact Quiet.mono hn ht hs
  | adopting => exact Quiet.mono hn ht hs

end

@[simp] theorem notes_setNote {h : Ledger} {c : CallId} {note : Note} :
    (h.setNote c note).notes c = note :=
  Function.update_self ..

theorem notes_setNote_of_ne {h : Ledger} {c c' : CallId} {note : Note} (hne : c' ≠ c) :
    (h.setNote c note).notes c' = h.notes c' := Function.update_of_ne hne ..

@[simp] theorem typed_setTyped {h : Ledger} {d : DeviceId} {typed : Typed} :
    (h.setTyped d typed).typed d = typed :=
  Function.update_self ..

theorem typed_setTyped_of_ne {h : Ledger} {d d' : DeviceId} {typed : Typed} (hne : d' ≠ d) :
    (h.setTyped d typed).typed d' = h.typed d' := Function.update_of_ne hne ..

/-- What a step of a call does to the rows, and to what was noted of the others. -/
structure Advances (s : World) (h : Ledger) (c : CallId) (t : World) (h' : Ledger) : Prop where
  owing : ∀ d, Owing (h'.typed d) (t.space d)
  awaits : ∀ d, Awaits (h'.typed d) (t.space d)
  notes : ∀ c', c' ≠ c → h'.notes c' = h.notes c'
  changes : (plain t = plain s ∧ h'.changes = h.changes) ∨ h.changes < h'.changes
  typed : ∀ d, (h.typed d).Later (h'.typed d)
  rows : ∀ d, (h.typed d).Leaves (h'.typed d) (s.space d) (t.space d)

/-- A step that writes no row and types nothing. -/
theorem Advances.of_eq {s : World} {h : Ledger} (hk : Kept s h) {c : CallId} {t : World}
    {h' : Ledger}
    (hspace : t.space = s.space) (hplain : plain t = plain s) (htyped : h'.typed = h.typed)
    (hchanges : h'.changes = h.changes) (hnotes : ∀ c', c' ≠ c → h'.notes c' = h.notes c') :
    Advances s h c t h' where
  owing := by
    rw [hspace, htyped]
    exact hk.owing
  awaits := by
    rw [hspace, htyped]
    exact hk.awaits
  notes := hnotes
  changes := Or.inl ⟨hplain, hchanges⟩
  typed := fun d => by
    rw [htyped]
    exact .refl _
  rows := fun d => by
    rw [htyped, hspace]
    exact .refl _ _

/-- A row is written that owes what was typed last, and something is owed in it if that has
not been accepted. -/
theorem Advances.of_write {s : World} {h : Ledger} (hk : Kept s h) {c : CallId} {d : DeviceId}
    {row : SpaceRecord} {typed : Typed} (hrow : Owing typed row) (hawaits : Awaits typed row)
    (htyped : (h.typed d).Later typed) (hleaves : (h.typed d).Leaves typed (s.space d) row) :
    Advances s h c (s.write d row) (h.setTyped d typed) where
  owing := by
    intro d'
    rw [World.space_write]
    split_ifs with hd
    · rw [hd, typed_setTyped]
      exact hrow
    · rw [typed_setTyped_of_ne hd]
      exact hk.owing d'
  awaits := by
    intro d'
    rw [World.space_write]
    split_ifs with hd
    · rw [hd, typed_setTyped]
      exact hawaits
    · rw [typed_setTyped_of_ne hd]
      exact hk.awaits d'
  notes := fun _ _ => rfl
  changes := Or.inl ⟨rfl, rfl⟩
  typed := by
    intro d'
    by_cases hd : d' = d
    · rw [hd, typed_setTyped]
      exact htyped
    · rw [typed_setTyped_of_ne hd]
      exact .refl _
  rows := by
    intro d'
    rw [World.space_write]
    by_cases hd : d' = d
    · rw [if_pos hd, hd, typed_setTyped]
      exact hleaves
    · rw [if_neg hd, typed_setTyped_of_ne hd]
      exact .refl _ _

/-- What is noted of the call itself stands beside what its step does. -/
theorem Advances.look {s t : World} {h h' : Ledger} {c : CallId} {d : DeviceId}
    (hadv : Advances s h c t h') : Advances s h c t (h'.look c d) :=
  ⟨hadv.owing, hadv.awaits, fun c' hne => (notes_setNote_of_ne hne).trans (hadv.notes c' hne),
    hadv.changes, hadv.typed, hadv.rows⟩

theorem setTyped_self {h : Ledger} {d : DeviceId} : h.setTyped d (h.typed d) = h := by
  unfold Ledger.setTyped
  rw [Function.update_eq_self]

/-- A request is stored: what it carries is the record's name, and has been accepted. -/
theorem Advances.of_commit {s : World} {h : Ledger} (hk : Kept s h) {c : CallId} {d : DeviceId}
    {space : SpaceRecord} {body : UpdateSpaceNameRequest} {updatedAt : ℕ} :
    Advances s h c (s.next d (.stamped space body updatedAt)).1
      (h.noteStage s c d (.stamped space body updatedAt)) where
  owing := by
    intro d'
    by_cases hd : d' = d
    · subst hd
      simp only [Ledger.noteStage, Ledger.setNote, typed_setTyped]
      exact hk.owing d'
    · simp only [Ledger.noteStage, Ledger.setNote, typed_setTyped_of_ne hd]
      exact hk.owing d'
  awaits := by
    intro d'
    by_cases hd : d' = d
    · subst hd
      simp only [Ledger.noteStage, Ledger.setNote, typed_setTyped]
      intro hnot
      exact hk.awaits d' (Bool.or_eq_false_iff.mp hnot).1
    · simp only [Ledger.noteStage, Ledger.setNote, typed_setTyped_of_ne hd]
      exact hk.awaits d'
  notes := fun c' hne => notes_setNote_of_ne hne
  changes := by
    have hplain : plain (s.next d (.stamped space body updatedAt)).1 = body.plain := rfl
    simp only [hplain, Ledger.noteStage]
    split_ifs with heq
    · exact Or.inl ⟨heq, rfl⟩
    · exact Or.inr (Nat.lt_succ_self _)
  typed := by
    intro d'
    by_cases hd : d' = d
    · subst hd
      simp only [Ledger.noteStage, Ledger.setNote, typed_setTyped]
      exact Or.inl ⟨rfl, rfl, fun hacc => Bool.or_eq_true_iff.mpr (Or.inl hacc)⟩
    · simp only [Ledger.noteStage, Ledger.setNote, typed_setTyped_of_ne hd]
      exact .refl _
  rows := by
    intro d'
    by_cases hd : d' = d
    · subst hd
      simp only [Ledger.noteStage, Ledger.setNote, typed_setTyped]
      exact Or.inl ⟨rfl, id⟩
    · simp only [Ledger.noteStage, Ledger.setNote, typed_setTyped_of_ne hd]
      exact .refl _ _

/-- What a step of one call leaves: the other calls alone, and this one at a stage that is kept. -/
def NextKept (s : World) (h : Ledger) (c : CallId) (d : DeviceId) (stage : Stage) : Prop :=
  Advances s h c (s.next d stage).1 (h.noteStage s c d stage) ∧
    ∀ stage', (s.next d stage).2 = some stage' →
      StageKept (plain (s.next d stage).1) ((s.next d stage).1.space d) (h.noteStage s c d stage)
        c d stage'

section

variable {s : World} {h : Ledger} {c : CallId} {d : DeviceId}

/-- Noting something of a call leaves the others alone. -/
theorem Kept.setNote (hk : Kept s h) (note : Note) : Advances s h c s (h.setNote c note) :=
  .of_eq hk rfl rfl rfl rfl fun _ hne => notes_setNote_of_ne hne

/-- A name is typed: the row owes it, and the call goes on to publish what it wrote. -/
theorem Kept.next_typing (hk : Kept s h) {typed : Option SpaceName} {current : SpaceRecord}
    (hstage : StageKept (plain s) (s.space d) h c d (.typing typed current)) :
    NextKept s h c d (.typing typed current) := by
  have hwrite : Advances s h c (s.write d (renameSpace typed current))
      (h.setTyped d ⟨(h.typed d).number + 1, some typed, false, (h.typed d).cleared⟩) :=
    .of_write hk (fun _ => rfl) (fun _ => ⟨rfl, rfl⟩) (Or.inr (Nat.lt_succ_self _))
      (Or.inl ⟨rfl, fun _ => rfl⟩)
  refine ⟨hwrite.look, fun stage' h' => ?_⟩
  obtain rfl := Option.some.inj h'
  have hfalse : (h.notes c).reseal = false := hstage
  refine ⟨?_, fun _ => ?_⟩
  · unfold Again
    simp only [Ledger.noteStage, Ledger.look, notes_setNote]
    exact fun hreseal => by cases hfalse.symm.trans hreseal
  · unfold Carried
    simp only [Ledger.noteStage, Ledger.look, notes_setNote, World.next, World.space_write]
    exact ⟨le_rfl, le_rfl, fun _ => congrArg Typed.name typed_setTyped, fun _ => rfl⟩

/-- A rename is published: what is sent is what the row still owes. -/
theorem Kept.next_publishing (hk : Kept s h) {space : SpaceRecord} {ring : Keyring}
    (hstage : StageKept (plain s) (s.space d) h c d (.publishing space ring))
    (hheeds : HeedsStage s h c d (.publishing space ring)) :
    NextKept s h c d (.publishing space ring) := by
  refine ⟨hk.setNote _, fun stage' h' => ?_⟩
  obtain ⟨body, hbody, rfl⟩ := Option.map_eq_some_iff.mp h'
  refine ⟨plain_publishSpaceName hbody, ?_, ?_⟩
  · have hagain := hstage.1
    unfold Again at hagain ⊢
    simp only [Ledger.noteStage, notes_setNote]
    exact hagain
  · simp only [Ledger.noteStage, notes_setNote, decide_eq_true_eq]
    intro hreseal
    obtain ⟨hnumber, hcleared⟩ := hheeds hreseal
    obtain ⟨-, -, hnamed, howed⟩ := hstage.2 hreseal
    have hpending := howed hcleared
    have htyped := hnamed hnumber
    exact ⟨hpending, Option.some.inj ((hk.owing d hpending).symm.trans htyped), htyped⟩

/-- A rename is marked as published: the row it is written from owes no other name. -/
theorem Kept.next_marking (hk : Kept s h) {space current : SpaceRecord} {updatedAt : ℕ}
    (hstage : StageKept (plain s) (s.space d) h c d (.marking space updatedAt current))
    (hheeds : HeedsStage s h c d (.marking space updatedAt current)) :
    NextKept s h c d (.marking space updatedAt current) := by
  obtain ⟨⟨-, hstored⟩, -, hread⟩ := hstage
  obtain ⟨hnumber, hadopted, htyped⟩ := hheeds
  obtain ⟨howing, hawaits⟩ := hread hnumber
  have hrow : Owing (h.typed d) (markSpaceNamePublished space.name updatedAt current) := by
    intro hp
    have hne : current.name ≠ space.name := by simpa [markSpaceNamePublished] using hp
    exact howing (hadopted hne)
  have hrow' : Awaits (h.typed d) (markSpaceNamePublished space.name updatedAt current) := by
    intro hnot
    obtain ⟨hpending, hname⟩ := hawaits hnot
    refine ⟨decide_eq_true fun heq => ?_, hname⟩
    have haccepted := hstored (htyped heq hpending) (hname.trans (congrArg some heq))
    cases hnot.symm.trans haccepted
  refine ⟨?_, fun stage' h' => by cases h'⟩
  simp only [Ledger.noteStage]
  split_ifs with hsame
  · exact .of_write hk hrow hrow' (Or.inl ⟨rfl, rfl, id⟩) (Or.inr (Nat.lt_succ_self _))
  · have hadv := Advances.of_write (c := c) hk hrow hrow' (.refl _)
      (Or.inl ⟨rfl, fun _ => decide_eq_true hsame⟩)
    rw [setTyped_self] at hadv
    exact hadv

/-- The record is decided about: what is published, adopted or sealed again is what is noted. -/
theorem Kept.next_polled (hk : Kept s h) {record : Option SpaceNameRecord}
    (hstage : StageKept (plain s) (s.space d) h c d (.polled record))
    (hheeds : HeedsStage s h c d (.polled record)) : NextKept s h c d (.polled record) := by
  refine ⟨(hk.setNote _).look, fun stage' h' => ?_⟩
  obtain ⟨hle, hpolled⟩ := hstage
  obtain ⟨rfl, hsync | hsync⟩ | ⟨r, rfl, rfl, hsync⟩ := World.decided_eq h'
  · have hpending := pending_of_syncSpaceName hsync
    unfold StageKept Again Carried
    simp only [Ledger.noteStage, Ledger.look, notes_setNote, hsync, reduceCtorEq, decide_false,
      Bool.false_eq_true, false_implies, true_and, true_implies]
    exact ⟨le_rfl, le_rfl, fun _ => hk.owing d hpending, fun _ => hpending⟩
  · unfold StageKept Again
    simp only [Ledger.noteStage, Ledger.look, notes_setNote, hsync, decide_true, true_implies,
      Bool.true_eq_false, false_implies, and_true]
    exact ⟨hle, fun heq => (hpolled heq).trans (hheeds hsync).symm⟩
  · unfold StageKept Quiet
    simp only [Ledger.noteStage, Ledger.look, notes_setNote]
    refine ⟨le_rfl, fun _ => ?_⟩
    by_contra hnot
    have hpending := (hk.awaits d (Bool.eq_false_iff.mpr hnot)).1
    rw [syncSpaceName, if_pos hpending] at hsync
    cases hsync

/-- A call takes a step, and so does what is noted of it. -/
theorem Kept.next (hk : Kept s h) {stage : Stage}
    (hstage : StageKept (plain s) (s.space d) h c d stage) (hheeds : HeedsStage s h c d stage) :
    NextKept s h c d stage := by
  have hsame : Advances s h c s h := .of_eq hk rfl rfl rfl rfl fun _ _ => rfl
  cases stage with
  | typing typed current => exact hk.next_typing hstage
  | publishing space ring => exact hk.next_publishing hstage hheeds
  | requested space body =>
    refine ⟨hsame, fun stage' h' => ?_⟩
    obtain rfl := Option.some.inj h'
    exact hstage
  | authed space body groupKeyEpoch =>
    by_cases hepoch : body.nameKeyEpoch = groupKeyEpoch
    · simp only [NextKept, World.next, if_pos hepoch]
      refine ⟨hsame, fun stage' h' => ?_⟩
      obtain rfl := Option.some.inj h'
      exact hstage
    · simp only [NextKept, World.next, if_neg hepoch]
      exact ⟨hsame, fun stage' h' => by cases h'⟩
  | stamped space body updatedAt =>
    obtain ⟨hbody, -⟩ := hstage
    refine ⟨.of_commit hk, fun stage' h' => ?_⟩
    obtain rfl := Option.some.inj h'
    unfold StageKept Stored
    simp only [Ledger.noteStage, Ledger.setNote, typed_setTyped, Function.update_self]
    exact ⟨le_rfl,
      fun _ hname =>
        Bool.or_eq_true_iff.mpr (Or.inr (decide_eq_true (hname.trans (congrArg some hbody.symm))))⟩
  | stored space updatedAt =>
    refine ⟨hk.setNote _, fun stage' h' => ?_⟩
    obtain rfl := Option.some.inj h'
    have hstored : Stored h c d space := hstage
    unfold StageKept Stored Read
    simp only [Ledger.noteStage, notes_setNote]
    exact ⟨hstored, le_rfl, fun _ => ⟨hk.owing d, hk.awaits d⟩⟩
  | marking space updatedAt current => exact hk.next_marking hstage hheeds
  | polled record => exact hk.next_polled hstage hheeds
  | accepting record name =>
    refine ⟨hsame, fun stage' h' => ?_⟩
    obtain rfl := Option.some.inj h'
    exact hstage
  | adopting record name current =>
    have haccepted : (h.typed d).accepted = true := hstage.2 hheeds
    have hrow' : Awaits (h.typed d) (adoptSpaceName name record.updatedAt current) := by
      intro hnot
      cases hnot.symm.trans haccepted
    refine ⟨.of_write hk (fun hp => by cases hp) hrow' (Or.inl ⟨rfl, rfl, id⟩)
      (Or.inr (Nat.lt_succ_self _)), fun stage' h' => by cases h'⟩

end

/-- A call moves on to another stage, or ends, after a step that leaves the others alone. -/
theorem Kept.advance {s t : World} {h h' : Ledger} (hk : Kept s h) {c : CallId}
    (hadv : Advances s h c t h') (hcalls : t.calls = s.calls) {new : Option Call}
    (hnew : ∀ call, new = some call →
      StageKept (plain t) (t.space call.device) h' c call.device call.stage) :
    Kept (t.setCall c new) h' where
  owing := hadv.owing
  awaits := hadv.awaits
  stages := by
    refine World.forall_calls_setCall (fun c' call hne hc => ?_) hnew
    rw [hcalls] at hc
    exact (hk.stages c' call hc).mono (hadv.notes c' hne) hadv.changes (hadv.typed _) (hadv.rows _)

/-- A call begins. -/
theorem Kept.begin {s : World} {h : Ledger} (hk : Kept s h) {c : CallId} {d : DeviceId}
    {stage : Stage} (hstage : StageKept (plain s) (s.space d) (h.setNote c h.begun) c d stage) :
    Kept (s.setCall c (some ⟨d, true, stage⟩)) (h.setNote c h.begun) := by
  have hadv : Advances s h c s (h.setNote c h.begun) :=
    .of_eq hk rfl rfl rfl rfl fun c' hne => notes_setNote_of_ne hne
  refine hk.advance hadv rfl fun call hcall => ?_
  obtain rfl := Option.some.inj hcall
  exact hstage

/-- Calls end, or nobody listens to them any more. -/
theorem Kept.quieter {s t : World} {h : Ledger} (hk : Kept s h) (hspace : t.space = s.space)
    (hplain : plain t = plain s)
    (hcalls : ∀ c call, t.calls c = some call → ∃ call', s.calls c = some call' ∧
      call'.device = call.device ∧
      call'.stage = call.stage) : Kept t h where
  owing := by
    rw [hspace]
    exact hk.owing
  awaits := by
    rw [hspace]
    exact hk.awaits
  stages := by
    intro c call hc
    obtain ⟨call', hc', hdevice, hstage⟩ := hcalls c call hc
    have hrow : t.space call.device = s.space call.device := congrFun hspace _
    rw [hplain, hrow, ← hdevice, ← hstage]
    exact hk.stages c call' hc'

theorem Kept.step {s t : World} {h : Ledger} {e : Event} (hk : Kept s h) (hheeds : Heeds (s, h) e)
    (hs : s.step e = some t) :
    Kept t (note s e t h) := by
  cases e with
  | rename c d typed =>
    obtain ⟨-, heq⟩ := Option.ite_none_right_eq_some.mp hs
    obtain rfl := Option.some.inj heq
    refine hk.begin ?_
    unfold StageKept
    rw [notes_setNote]
    rfl
  | poll c d =>
    obtain ⟨-, heq⟩ := Option.ite_none_right_eq_some.mp hs
    obtain rfl := Option.some.inj heq
    refine hk.begin ?_
    unfold StageKept
    rw [notes_setNote]
    exact ⟨le_rfl, fun _ => rfl⟩
  | run c =>
    obtain ⟨call, hcall, rfl⟩ := Option.map_eq_some_iff.mp hs
    by_cases hgoes : (call.listening || call.stage.server) = true
    · have hnote : ∀ t, note s (.run c) t h = h.noteStage s c call.device call.stage := fun t => by
        simp only [note, hcall, if_pos hgoes]
      obtain ⟨hadv, hstage⟩ := hk.next (hk.stages c call hcall) (hheeds call hcall hgoes)
      rw [hnote, if_pos hgoes]
      refine hk.advance hadv World.calls_next fun call' h' => ?_
      obtain ⟨stage', hstage', rfl⟩ := Option.map_eq_some_iff.mp h'
      exact hstage stage' hstage'
    · have hnote : ∀ t, note s (.run c) t h = h := fun t => by simp only [note, hcall, if_neg hgoes]
      rw [hnote, if_neg hgoes]
      exact hk.advance (.of_eq hk rfl rfl rfl rfl fun _ _ => rfl) rfl fun call' h' => by cases h'
  | lose c =>
    have hsame : Advances s h c s h := .of_eq hk rfl rfl rfl rfl fun _ _ => rfl
    obtain ⟨call, hcall, rfl | rfl⟩ := World.step_lose hs
    · exact hk.advance hsame rfl fun call' h' => by cases h'
    · refine hk.advance hsame rfl fun call' h' => ?_
      obtain rfl := Option.some.inj h'
      exact hk.stages c call hcall
  | leave d =>
    obtain rfl := Option.some.inj hs
    refine hk.quieter rfl rfl fun c call hcall => ?_
    obtain ⟨call', hcall', rfl⟩ := Option.map_eq_some_iff.mp hcall
    refine ⟨call', hcall', ?_⟩
    split_ifs
    · exact ⟨rfl, rfl⟩
    · exact ⟨rfl, rfl⟩
  | tick =>
    obtain rfl := Option.some.inj hs
    exact hk.quieter rfl rfl fun c call hcall => ⟨call, hcall, rfl, rfl⟩
  | rotate =>
    obtain rfl := Option.some.inj hs
    exact hk.quieter rfl rfl fun c call hcall => ⟨call, hcall, rfl, rfl⟩
  | adoptKey d epoch key =>
    obtain rfl := Option.some.inj hs
    exact hk.quieter (funext fun d' => World.space_setRing) rfl fun c call hcall =>
      ⟨call, hcall, rfl, rfl⟩

theorem kept_start (epoch : ℕ) (names : DeviceId → Option SpaceName) (rings : DeviceId → Keyring) :
    Kept (start epoch names rings) start.ledger where
  owing := fun d hp => by cases hp
  awaits := fun d hnot => by cases hnot
  stages := fun c call hc => by cases hc

/-- A step that changes the record's name stores a rename that was owed when it was sent. -/
theorem Kept.changed {s t : World} {h : Ledger} {e : Event} (hk : Kept s h)
    (hheeds : Heeds (s, h) e) (hs : s.step e = some t) (hchanged : plain t ≠ plain s) :
    ∃ c call, e = .run c ∧ s.calls c = some call ∧ (h.notes c).owed = true ∧
      (h.notes c).reseal = false := by
  cases e with
  | run c =>
    obtain ⟨call, hcall, rfl⟩ := Option.map_eq_some_iff.mp hs
    by_cases hgoes : (call.listening || call.stage.server) = true
    · rw [if_pos hgoes] at hchanged
      have hstage := hk.stages c call hcall
      have hheeds' := hheeds call hcall hgoes
      cases hst : call.stage with
      | stamped space body updatedAt =>
        rw [hst] at hstage hheeds' hchanged
        obtain ⟨hbody, hagain, hsent⟩ := hstage
        cases hreseal : (h.notes c).reseal with
        | false => exact ⟨c, call, rfl, hcall, hsent hreseal, hreseal⟩
        | true =>
          have hname : plain s = space.name := (hagain hreseal).2 (hheeds' hreseal)
          exact absurd (hbody.trans hname.symm) hchanged
      | authed space body groupKeyEpoch =>
        rw [hst] at hchanged
        refine absurd ?_ hchanged
        simp only [World.next]
        split_ifs <;> rfl
      | _ =>
        rw [hst] at hchanged
        exact absurd rfl hchanged
    · rw [if_neg hgoes] at hchanged
      exact absurd rfl hchanged
  | rename c d typed =>
    obtain ⟨-, heq⟩ := Option.ite_none_right_eq_some.mp hs
    obtain rfl := Option.some.inj heq
    exact absurd rfl hchanged
  | poll c d =>
    obtain ⟨-, heq⟩ := Option.ite_none_right_eq_some.mp hs
    obtain rfl := Option.some.inj heq
    exact absurd rfl hchanged
  | lose c =>
    obtain ⟨call, -, rfl | rfl⟩ := World.step_lose hs
    · exact absurd rfl hchanged
    · exact absurd rfl hchanged
  | leave d =>
    obtain rfl := Option.some.inj hs
    exact absurd rfl hchanged
  | tick =>
    obtain rfl := Option.some.inj hs
    exact absurd rfl hchanged
  | rotate =>
    obtain rfl := Option.some.inj hs
    exact absurd rfl hchanged
  | adoptKey d epoch key =>
    obtain rfl := Option.some.inj hs
    exact absurd rfl hchanged

/-- In every run in which nothing that matters gets in between: what was typed last on a
device and has not been accepted since is owed there, and whatever changes the record's name
publishes a rename that was owed when it was sent. -/
theorem renames_superseded {epoch : ℕ} {names : DeviceId → Option SpaceName}
    {rings : DeviceId → Keyring} {s : World} {h : Ledger}
    (hrun : ReachableVia (recorded World.step note) Heeds (start epoch names rings,
      start.ledger) (s, h)) :
    (∀ d, (h.typed d).accepted = false → (s.space d).namePending = true ∧
      (h.typed d).name = some (s.space d).name) ∧
    ∀ e t, Heeds (s, h) e → s.step e = some t → plain t ≠ plain s →
      ∃ c call, e = .run c ∧ s.calls c = some call ∧ (h.notes c).owed = true ∧
        (h.notes c).reseal = false := by
  have hk : Kept (s, h).1 (s, h).2 := by
    refine hrun.recorded_invariant (I := fun s h => Kept s h) (kept_start epoch names rings) ?_
    intro s h e t hI hok hs
    exact hI.step hok hs
  exact ⟨hk.awaits, fun e t hheeds hs hchanged => hk.changed hheeds hs hchanged⟩

instance (s : World) (h : Ledger) (c : CallId) (d : DeviceId) :
    (stage : Stage) → Decidable (HeedsStage s h c d stage)
  | .publishing .. => inferInstanceAs (Decidable ((h.notes c).reseal = false →
      (h.notes c).typedAt = (h.typed d).number ∧ (h.notes c).clearedAt = (h.typed d).cleared))
  | .polled record =>
      inferInstanceAs (Decidable (syncSpaceName record (s.ring d) (s.space d) = .reseal →
      (s.space d).name = record.bind SpaceNameRecord.plain))
  | .stamped .. =>
      inferInstanceAs (Decidable ((h.notes c).reseal = true → h.changes = (h.notes c).polledAt))
  | .adopting .. => inferInstanceAs (Decidable ((h.notes c).typedAt = (h.typed d).number))
  | .marking space _ current =>
      inferInstanceAs (Decidable ((h.notes c).readAt = (h.typed d).number ∧
      (current.name ≠ space.name → current.namePending = true) ∧
      (current.name = space.name → current.namePending = true →
        (h.notes c).storedAt = (h.typed d).number)))
  | .typing .. => isTrue trivial
  | .requested .. => isTrue trivial
  | .authed .. => isTrue trivial
  | .stored .. => isTrue trivial
  | .accepting .. => isTrue trivial

instance (s : World × Ledger) : (e : Event) → Decidable (Heeds s e)
  | .run c =>
    inferInstanceAs (Decidable (∀ call ∈ s.1.calls c, (call.listening || call.stage.server) = true →
      HeedsStage s.1 s.2 c call.device call.stage))
  | .rename .. => isTrue trivial
  | .poll .. => isTrue trivial
  | .lose .. => isTrue trivial
  | .leave .. => isTrue trivial
  | .tick => isTrue trivial
  | .rotate => isTrue trivial
  | .adoptKey .. => isTrue trivial

/-- The devices share one key and have no names. -/
abbrev fresh : World × Ledger := (start 1 (fun _ => none) fun _ => createKeyring 9 1, start.ledger)

def runs (c : CallId) (n : ℕ) : List Event := List.replicate n (.run c)

/-- A rename on device 1 that is published and adopted by device 2, which then polls with the
key of a rotation and is about to publish the name again. -/
def superseded : List Event :=
  .rename 1 1 (some 5) :: runs 1 7 ++ .poll 2 2 :: runs 2 3 ++
    [.rotate, .adoptKey 1 2 8, .adoptKey 2 2 8, .tick, .poll 3 2, .run 3]

/-- Device 1 renames once more, and its rename is about to be stored. -/
theorem renames_superseded_again : ∃ (s : World) (h : Ledger) (t : World),
    plain s = some 5 ∧ s.step (.run 5) = some t ∧ plain t = some 6 ∧
    ((∀ d, (h.typed d).accepted = false → (s.space d).namePending = true ∧
      (h.typed d).name = some (s.space d).name) ∧
    ∀ e t, Heeds (s, h) e → s.step e = some t → plain t ≠ plain s →
      ∃ c call, e = .run c ∧ s.calls c = some call ∧ (h.notes c).owed = true ∧
        (h.notes c).reseal = false) := by
  have hrun : (replayVia (recorded World.step note) Heeds fresh
      (superseded ++ runs 3 6 ++ .rename 5 1 (some 6) :: runs 5 4)).any (fun s =>
        decide (plain s.1 = some 5) && (s.1.step (.run 5)).any fun t =>
          decide (plain t = some 6)) = true := by decide +kernel
  obtain ⟨⟨s, h⟩, hs, hend⟩ := (Option.any_eq_true _ _).mp hrun
  obtain ⟨hplain, hstep⟩ := Bool.and_eq_true_iff.mp hend
  obtain ⟨t, ht, hafter⟩ := (Option.any_eq_true _ _).mp hstep
  exact ⟨s, h, t, of_decide_eq_true hplain, ht, of_decide_eq_true hafter,
    renames_superseded (reachableVia_of_replayVia hs)⟩

/-- Where a run from nothing ends. -/
def ends (es : List Event) (p : World × Ledger → Prop) [DecidablePred p] : Prop :=
  (replay (recorded World.step note) fresh es).any (fun s => decide (p s)) = true

/-- Device 2 publishes the name again, and a rename of device 1 is stored before that is. A
rename on device 1 is written between the read and the write that an answer causes, and one
on device 2 between those of an adoption; both are lost on their way, and nothing is owed. -/
theorem renames_lost :
    (∃ (s : World × Ledger) (t : World), Reachable (recorded World.step note) fresh s ∧
      s.1.step (.run 3) = some t ∧
      plain s.1 = some 6 ∧ plain t = some 5 ∧ (s.2.notes 3).reseal = true) ∧
    (∃ s : World × Ledger, Reachable (recorded World.step note) fresh s ∧
      (s.2.typed 1).name = some (some 6) ∧ (s.2.typed 1).accepted = false ∧
      s.1.space 1 = ⟨some 5, 1, false⟩) ∧
    ∃ s : World × Ledger, Reachable (recorded World.step note) fresh s ∧
      (s.2.typed 2).name = some (some 6) ∧ (s.2.typed 2).accepted = false ∧
      s.1.space 2 = ⟨some 5, 1, false⟩ := by
  refine ⟨?_, ?_, ?_⟩
  · have hrun : ends (superseded ++ .rename 5 1 (some 6) :: runs 5 7 ++ runs 3 3) fun s =>
        (s.1.step (.run 3)).any (fun t =>
          decide (plain s.1 = some 6 ∧ plain t = some 5 ∧ (s.2.notes 3).reseal = true)) = true := by
      unfold ends
      decide +kernel
    obtain ⟨s, hs, hend⟩ := exists_reachable_of_replay hrun
    obtain ⟨t, ht, hafter⟩ := (Option.any_eq_true _ _).mp hend
    exact ⟨s, t, hs, ht, of_decide_eq_true hafter⟩
  · have hrun :
        ends (.rename 1 1 (some 5) :: runs 1 6 ++ .rename 2 1 (some 6) :: runs 2 2 ++
          [.run 1, .lose 2]) fun s =>
        (s.2.typed 1).name = some (some 6) ∧ (s.2.typed 1).accepted = false ∧
          s.1.space 1 = ⟨some 5, 1, false⟩ := by
      unfold ends
      decide +kernel
    exact exists_reachable_of_replay hrun
  · have hrun :
        ends (.rename 1 1 (some 5) :: runs 1 7 ++ .poll 2 2 :: runs 2 2 ++
          .rename 3 2 (some 6) :: runs 3 2 ++
        [.run 2, .lose 3]) fun s =>
        (s.2.typed 2).name = some (some 6) ∧ (s.2.typed 2).accepted = false ∧
          s.1.space 2 = ⟨some 5, 1, false⟩ := by
      unfold ends
      decide +kernel
    exact exists_reachable_of_replay hrun

end SendSelf.Names.Renames
