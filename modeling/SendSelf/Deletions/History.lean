import SendSelf.Files.Blobs

/-!
# The history of a space on one device

A page keeps the messages of its space in the database, shows a copy of them, and keeps
a record of what was deleted for everyone. A pass of `syncNow` and any deletions the user
asks for run next to each other. A task runs by itself up to its next `await`, and what it
awaits there is one storage call, one request or one computation; every step of the model
is one of these, together with what the task does when it is resumed. What another device,
the server or the key ring has a say in is an input of the step.

The record of deletions is a plain object. It answers to the names of `Object.prototype`
without holding them, and one of these, `__proto__`, cannot be set.

The list on screen is kept without its order. History are `settled`, the messages for which
a deletion has run to its end, and until when nothing may be left of them; and `writes`, how
often the record has been written.
-/
namespace SendSelf

inductive Direction where
  | incoming | outgoing
deriving DecidableEq, Repr

inductive MessageStatus where
  | queued | uploading | sent | failed
deriving DecidableEq, Repr

inductive FileState where
  | remote | downloading | downloaded | error | expired | corrupted
deriving DecidableEq, Repr

inductive SignatureVerdict where
  | verified | unverified | invalid
deriving DecidableEq, Repr

structure LocalMessage where
  id : MessageId
  direction : Direction
  senderDeviceId : DeviceId
  text : Option Opaque
  file : Option FileKey
  createdAt : ℕ
  keyEpoch : Option ℕ
  deletes : Option MessageId
  status : MessageStatus
  fileState : Option FileState
  corrupted : Bool
  senderVerified : Option SignatureVerdict
  acked : Bool
deriving DecidableEq, Repr

/-- An entry of `META_DELETED_MESSAGES`. -/
structure Deletion where
  id : MessageId
  deletedAt : ℕ
deriving DecidableEq, Repr

abbrev Deletions := Table Deletion.id

/-- `deletions[id]`. -/
def answers (inherited : MessageId → Bool) (deletions : Deletions) (id : MessageId) : Bool :=
  (deletions.get? id).isSome || inherited id

/-- `deletions[id] = now`. -/
def enter (proto : MessageId → Bool) (deletions : Deletions) (id : MessageId) (now : ℕ) :
    Deletions :=
  if proto id then deletions else deletions.put ⟨id, now⟩

def prune (deletions : Deletions) (now : ℕ) : Deletions :=
  deletions.delete fun d => decide (d.deletedAt + MESSAGE_TTL_MS ≤ now)

/-- What decrypting a message gave, and what its signature is worth. -/
structure Opened where
  text : Option Opaque
  fileMeta : Bool
  corrupted : Bool
  senderVerified : SignatureVerdict
deriving DecidableEq, Repr

/-- What `registerIncoming` makes of a message that it has opened. -/
def registered (m : MessageRow) (opened : Opened) : LocalMessage :=
  let file := if opened.fileMeta ∧ m.fileIv.isSome then m.fileR2Key else none
  { id := m.id, direction := .incoming, senderDeviceId := m.senderDeviceId,
    text := opened.text, file,
    createdAt := m.createdAt, keyEpoch := some m.keyEpoch, deletes := none, status := .sent,
    fileState := file.map fun _ => .remote, corrupted := opened.corrupted,
    senderVerified := some opened.senderVerified, acked := false }

/-- The tombstone that `queueGlobalDeletion` leaves for the outbox. -/
def tombstone (id : MessageId) (deviceId : DeviceId) (target : MessageId) (now : ℕ) :
    LocalMessage :=
  { id, direction := .outgoing, senderDeviceId := deviceId, text := none, file := none,
    createdAt := now,
    keyEpoch := none, deletes := some target, status := .queued, fileState := none,
    corrupted := false,
    senderVerified := none, acked := false }

/-- File states that still want a download attempt on this pass. -/
def needsDownload : Option FileState → Bool
  | some .remote | some .downloading | some .error => true
  | _ => false

def MAX_PARALLEL_DOWNLOADS : ℕ := 4

/-- Where `applyGlobalDeletion` is. `recordDeletion` reads the record, writes it back if an entry
has expired, and writes it with the new one; then the message is looked for, among those
shown and in the database, and discarded. What is to be written goes with the number of
writes that it was read after. -/
inductive DeletionPc where
  | reading
  | pruning (read : ℕ) (pruned : Deletions)
  | writing (read : ℕ) (deletions : Deletions)
  | finding
  | looking
  | dropping
  | filtering

namespace DeletionPc

/-- The message has been entered in the record. -/
def recorded : DeletionPc → Bool
  | .finding | .looking | .dropping | .filtering => true
  | _ => false

/-- It was not among those shown. -/
def unshown : DeletionPc → Bool
  | .looking => true
  | _ => false

/-- Its row has been deleted. -/
def dropped : DeletionPc → Bool
  | .filtering => true
  | _ => false

theorem recorded_of_unshown {pc : DeletionPc} (h : pc.unshown = true) : pc.recorded = true := by
  cases pc <;> first | rfl | exact h

theorem recorded_of_dropped {pc : DeletionPc} (h : pc.dropped = true) : pc.recorded = true := by
  cases pc <;> first | rfl | exact h

/-- The record that is about to be written. -/
def draft : DeletionPc → Option (ℕ × Deletions)
  | .pruning read pruned => some (read, pruned)
  | .writing read deletions => some (read, deletions)
  | _ => none

end DeletionPc

/-- What a worker does after `upsertMessage`. -/
inductive AfterUpsert where
  | fetch | ack | stop
deriving DecidableEq, Repr

/-- Where `downloadAndAck` is with its copy of a message. An upsert writes a row and then shows
it. -/
inductive WorkerPc where
  | starting (m : LocalMessage)
  | putting (row m : LocalMessage) (next : AfterUpsert)
  | showing (row m : LocalMessage) (next : AfterUpsert)
  | fetching (m : LocalMessage)
  | acking (m : LocalMessage)
deriving DecidableEq, Repr

/-- A pass over an answer: what is left of it, the record of deletions as it was read at the start,
and the messages that were registered and no worker has taken yet. -/
structure Sweep where
  pending : List MessageRow
  deletions : Deletions
  registered : List LocalMessage

inductive SyncPc where
  | polling
  | loading (pending : List MessageRow)
  | pruning (pending : List MessageRow) (read : ℕ) (pruned : Deletions)
  | reading (sweep : Sweep)
  | deleting (sweep : Sweep) (row : MessageRow) (target : MessageId) (pc : DeletionPc)
  | acking (sweep : Sweep) (id : MessageId)
  | putting (sweep : Sweep) (m : LocalMessage)
  | showing (sweep : Sweep) (m : LocalMessage)
  | downloading (sweep : Sweep) (workers : List WorkerPc)

/-- What the user asked for: `deleteMessageEverywhere` and `deleteMessageLocally`. -/
inductive UserTask where
  | deleting (target : MessageId) (pc : DeletionPc)
  | queueing (target : MessageId)
  | announcing (row : LocalMessage)
  | acking (m : LocalMessage)
  | dropping (id : MessageId)
  | filtering (id : MessageId)

/-- The deletion for everyone that the task is applying. -/
def SyncPc.erasure : SyncPc → Option (MessageId × DeletionPc)
  | .deleting _ _ target pc => some (target, pc)
  | _ => none

def UserTask.erasure : UserTask → Option (MessageId × DeletionPc)
  | .deleting target pc => some (target, pc)
  | _ => none

def SyncPc.draft : SyncPc → Option (ℕ × Deletions)
  | .pruning _ read pruned => some (read, pruned)
  | .deleting _ _ _ pc => pc.draft
  | _ => none

def UserTask.draft : UserTask → Option (ℕ × Deletions)
  | .deleting _ pc => pc.draft
  | _ => none

/-- The task reads the record now. -/
def SyncPc.reads : SyncPc → Bool
  | .loading _ | .deleting _ _ _ .reading => true
  | _ => false

def UserTask.reads : UserTask → Bool
  | .deleting _ .reading => true
  | _ => false

/-- A worker writes such a copy: its file is wanted, or it has not been acked. -/
def LocalMessage.unfinished (m : LocalMessage) : Bool :=
  m.file.isSome && needsDownload m.fileState || !m.acked

def WorkerPc.held : WorkerPc → List MessageId
  | .starting m => if m.unfinished then [m.id] else []
  | .fetching m | .acking m => [m.id]
  | .putting row m _ | .showing row m _ => [row.id, m.id]

def Sweep.held (sweep : Sweep) : List MessageId :=
  (sweep.registered.filter LocalMessage.unfinished).map LocalMessage.id

def SyncPc.held : SyncPc → List MessageId
  | .reading sweep | .deleting sweep _ _ _ | .acking sweep _ => sweep.held
  | .putting sweep m | .showing sweep m => m.id :: sweep.held
  | .downloading sweep workers => workers.flatMap WorkerPc.held ++ sweep.held
  | _ => []

def UserTask.held : UserTask → List MessageId
  | .announcing row => [row.id]
  | _ => []

/-- Until the pass ends that runs when the deletion is done, the moment is not known. -/
structure Settlement where
  id : MessageId
  deadline : Option ℕ
deriving DecidableEq, Repr

structure History where
  /-- The message ids that are names of `Object.prototype`, and that of its setter. -/
  inherited : MessageId → Bool
  proto : MessageId → Bool
  deviceId : DeviceId
  knownDeviceIds : List DeviceId
  now : ℕ
  messages : Table LocalMessage.id
  shown : Table LocalMessage.id
  deletions : Deletions
  writes : ℕ
  pass : Option SyncPc
  users : List UserTask
  settled : List Settlement

namespace History

/-- The one thing that a step does to what is stored or shown. -/
inductive Effect where
  | nothing
  | putMessage (m : LocalMessage)
  | showMessage (m : LocalMessage)
  | deleteMessage (id : MessageId)
  | hideMessage (id : MessageId)
  | setDeletions (deletions : Deletions)

def Effect.run (h : History) : Effect → History
  | .nothing => h
  | .putMessage m => { h with messages := h.messages.put m }
  | .showMessage m => { h with shown := h.shown.put m }
  | .deleteMessage id => { h with messages := h.messages.delete fun m => decide (m.id = id) }
  | .hideMessage id => { h with shown := h.shown.delete fun m => decide (m.id = id) }
  | .setDeletions deletions => { h with deletions, writes := h.writes + 1 }

/-- A step of a task: its effect, and what is left of the task. -/
abbrev Step (α : Type) := Effect × Option α

/-- `applyGlobalDeletion`. -/
def applyGlobalDeletion (h : History) (id : MessageId) : DeletionPc → Step DeletionPc
  | .reading =>
      let pruned := prune h.deletions h.now
      (.nothing, some (if pruned.rows.length ≠ h.deletions.rows.length then .pruning h.writes pruned
        else .writing h.writes (enter h.proto pruned id h.now)))
  | .pruning _ pruned =>
      (.setDeletions pruned, some (.writing (h.writes + 1) (enter h.proto pruned id h.now)))
  | .writing _ deletions => (.setDeletions deletions, some .finding)
  | .finding => (.nothing, some (if (h.shown.get? id).isSome then .dropping else .looking))
  | .looking => (.nothing, if (h.messages.get? id).isSome then some .dropping else none)
  | .dropping => (.deleteMessage id, some .filtering)
  | .filtering => (.hideMessage id, none)

/-- How a transfer ends. -/
inductive Download where
  | failed | gone | undecryptable | poisoned | unstorable | stored
deriving DecidableEq, Repr

/-- Whether the file's turn has come and its key is held, how its transfer ends, and whether
the ack arrives. -/
structure WorkerInput where
  due : Bool
  download : Download
  acked : Bool
deriving DecidableEq, Repr

/-- The row that a transfer leaves, and where it leads. -/
def afterDownload (m : LocalMessage) : Download → WorkerPc
  | .failed | .undecryptable | .unstorable => .putting { m with fileState := some .error } m .stop
  | .gone =>
      .putting { m with fileState := some .expired } { m with fileState := some .expired } .ack
  | .poisoned =>
      .putting { m with fileState := some .corrupted } { m with fileState := some .corrupted } .ack
  | .stored =>
      .putting { m with fileState := some .downloaded } { m with
        fileState := some .downloaded } .ack

def downloadAndAck (input : WorkerInput) : WorkerPc → Step WorkerPc
  | .starting m =>
      if m.file.isSome ∧ needsDownload m.fileState then
        if input.due then
          (.nothing, some (.putting { m with fileState := some .downloading } m .fetch))
        else (.nothing, none)
      else if m.acked then (.nothing, none)
      else (.nothing, some (.acking m))
  | .putting row m next => (.putMessage row, some (.showing row m next))
  | .showing row m next => (.showMessage row, match next with
      | .fetch => some (.fetching m)
      | .ack => if m.acked then none else some (.acking m)
      | .stop => none)
  | .fetching m => (.nothing, some (afterDownload m input.download))
  | .acking m =>
      (.nothing,
        if input.acked then some (.putting { m with acked := true } { m with acked := true } .stop)
        else none)

/-- What is left of a pass when its workers move on: the next one starts as one ends, and the pass
is over when none is left. -/
def downloading (sweep : Sweep) (workers : List WorkerPc) : Option SyncPc :=
  if workers = [] then none else some (.downloading sweep workers)

/-- `runWithConcurrency`. -/
def runWithConcurrency (sweep : Sweep) : Option SyncPc :=
  downloading { sweep with registered := sweep.registered.drop MAX_PARALLEL_DOWNLOADS }
    ((sweep.registered.take MAX_PARALLEL_DOWNLOADS).map .starting)

def moveWorker (sweep : Sweep) (workers : List WorkerPc) (i : ℕ) : Option WorkerPc → Option SyncPc
  | some worker => downloading sweep (workers.set i worker)
  | none => match sweep.registered with
    | m :: rest => downloading { sweep with registered := rest } (workers.set i (.starting m))
    | [] => downloading sweep (workers.eraseIdx i)

/-- What comes of the message that the pass looks at: the verdict on a tombstone, or the opened
message. `none` is a throw: it stays pending. -/
structure SyncInput where
  verdict : SignatureVerdict
  opened : Option Opened
deriving DecidableEq, Repr

/-- `registerIncoming`, up to its upsert. A message that is shown is taken as it is. -/
def registerIncoming (h : History) (input : SyncInput) (m : MessageRow) (sweep : Sweep) : SyncPc :=
  match h.shown.get? m.id with
  | some shown => .reading { sweep with registered := sweep.registered ++ [shown] }
  | none => match input.opened with
    | some opened => .putting sweep (registered m opened)
    | none => .reading sweep

/-- The round of the loop of `syncNow` for one message. -/
def nextPending (h : History) (input : SyncInput) (m : MessageRow) (sweep : Sweep) : SyncPc :=
  match m.deletesMessageId with
  | some target =>
      if input.verdict = .invalid then .acking sweep m.id else .deleting sweep m target .reading
  | none =>
      if answers h.inherited sweep.deletions m.id then .acking sweep m.id
      else registerIncoming h input m sweep

/-- A step of `syncNow` after the poll and up to the downloads. -/
def syncNow (h : History) (input : SyncInput) : SyncPc → Option (Step SyncPc)
  | .loading pending =>
      let pruned := prune h.deletions h.now
      some (.nothing,
        some (if pruned.rows.length ≠ h.deletions.rows.length then .pruning pending h.writes pruned
        else .reading ⟨pending, pruned, []⟩))
  | .pruning pending _ pruned => some (.setDeletions pruned, some (.reading ⟨pending, pruned, []⟩))
  | .reading sweep => some (.nothing, match sweep.pending with
      | [] => runWithConcurrency sweep
      | m :: rest => some (nextPending h input m { sweep with pending := rest }))
  | .deleting sweep row target pc =>
      let (effect, next) := applyGlobalDeletion h target pc
      some (effect, some (match next with
        | some pc' => .deleting sweep row target pc'
        | none => .acking sweep row.id))
  | .acking sweep _ => some (.nothing, some (.reading sweep))
  | .putting sweep m => some (.putMessage m, some (.showing sweep m))
  | .showing sweep m =>
      some (.showMessage m, some (.reading { sweep with registered := sweep.registered ++ [m] }))
  | .polling | .downloading _ _ => none

/-- Whether the ack arrives, and the id that `randomId` gives the tombstone. -/
structure UserInput where
  acked : Bool
  randomId : MessageId
deriving DecidableEq, Repr

def moveUser (h : History) (input : UserInput) : UserTask → Step UserTask
  | .deleting target pc =>
      let (effect, next) := applyGlobalDeletion h target pc
      (effect, some (match next with
        | some pc' => .deleting target pc'
        | none => .queueing target))
  | .queueing target =>
      let row := tombstone input.randomId h.deviceId target h.now
      (.putMessage row, some (.announcing row))
  | .announcing row => (.showMessage row, none)
  | .acking m => (.nothing, if input.acked then some (.dropping m.id) else none)
  | .dropping id => (.deleteMessage id, some (.filtering id))
  | .filtering id => (.hideMessage id, none)

/-- The deletion that a task finishes with its step. -/
def finishes (h : History) (erasure : Option (MessageId × DeletionPc)) : Option MessageId :=
  erasure.bind fun (id, pc) => if (applyGlobalDeletion h id pc).2.isNone then some id else none

def canDeleteEverywhere (h : History) (m : LocalMessage) : Bool :=
  m.deletes.isNone && h.knownDeviceIds.any (fun id => decide (id ≠ h.deviceId)) &&
    decide (m.direction = .incoming ∨ m.status = .sent)

/-- `answer` is that of the poll, or its failure; `worker` and `user` name the task that goes on. -/
inductive Event where
  | wait (ms : ℕ)
  | sync
  | answer (pending : Option (List MessageRow))
  | pass (input : SyncInput)
  | worker (i : ℕ) (input : WorkerInput)
  | deleteMessageEverywhere (id : MessageId)
  | deleteMessageLocally (id : MessageId)
  | user (i : ℕ) (input : UserInput)
deriving Repr

/-- What a step makes of the page. -/
structure Move where
  effect : Effect
  finished : Option MessageId
  pass : Option SyncPc
  users : List UserTask

/-- A random id is one that the device has not seen. -/
def unseen (h : History) (id : MessageId) : Bool :=
  (h.messages.get? id).isNone && (h.shown.get? id).isNone && (h.deletions.get? id).isNone

def startUser (h : History) (task : UserTask) : Move := ⟨.nothing, none, h.pass, h.users ++ [task]⟩

def move (h : History) : Event → Option Move
  | .wait _ => none
  | .sync => match h.pass with
    | none => some ⟨.nothing, none, some .polling, h.users⟩
    | some _ => none
  | .answer pending => match h.pass with
    | some .polling => some ⟨.nothing, none, pending.map .loading, h.users⟩
    | _ => none
  | .pass input => do
      let pc ← h.pass
      let (effect, next) ← syncNow h input pc
      some ⟨effect, h.finishes pc.erasure, next, h.users⟩
  | .worker i input => match h.pass with
    | some (.downloading sweep workers) => do
        let worker ← workers[i]?
        let (effect, next) := downloadAndAck input worker
        some ⟨effect, none, moveWorker sweep workers i next, h.users⟩
    | _ => none
  | .deleteMessageEverywhere id => do
      let m ← h.shown.get? id
      if h.canDeleteEverywhere m then some (h.startUser (.deleting id .reading)) else none
  | .deleteMessageLocally id => do
      let m ← h.shown.get? id
      some (h.startUser (if m.direction = .incoming ∧
        m.acked = false then .acking m else .dropping id))
  | .user i input => do
      let task ← h.users[i]?
      let (effect, next) := moveUser h input task
      if h.unseen input.randomId then
        some ⟨effect, h.finishes task.erasure, h.pass, match next with
          | some task' => h.users.set i task'
          | none => h.users.eraseIdx i⟩
      else none

/-- The time that is left for the deletions of a pass runs from its end. -/
def Settlement.close (now : ℕ) (s : Settlement) : Settlement :=
  { s with deadline := some (s.deadline.getD (now + MESSAGE_TTL_MS)) }

/-- A deletion is done, in a pass or between two. -/
def settle (h : History) (id : MessageId) : History :=
  { h with
    settled := ⟨id, if h.pass.isSome then none else some (h.now + MESSAGE_TTL_MS)⟩ :: h.settled }

def endPass (h : History) : History := { h with settled := h.settled.map (Settlement.close h.now) }

def make (h : History) (m : Move) : History :=
  let h₁ := m.effect.run h
  let h₂ := (m.finished.map h₁.settle).getD h₁
  let h₃ := if m.pass.isNone then h₂.endPass else h₂
  { h₃ with pass := m.pass, users := m.users }

def step (h : History) : Event → Option History
  | .wait ms => some { h with now := h.now + ms }
  | e => (h.move e).map h.make

/-- A deletion of the message is done, and its time is not over. -/
def Settled (h : History) (id : MessageId) : Prop :=
  ∃ s ∈ h.settled, s.id = id ∧ s.deadline.all (fun u => decide (h.now < u)) = true

instance (h : History) (id : MessageId) : Decidable (h.Settled id) :=
  inferInstanceAs (Decidable (∃ s ∈ h.settled, _))

/-- Nothing is left of the message, and it is remembered. -/
structure Gone (h : History) (id : MessageId) : Prop where
  messages : h.messages.get? id = none
  shown : h.shown.get? id = none
  deletions : (h.deletions.get? id).isSome = true

def Final (h : History) : Prop := ∀ id, h.Settled id → h.Gone id

/-- The deletions for everyone that are being applied. -/
def underway (h : History) : List (MessageId × DeletionPc) :=
  (h.pass.bind SyncPc.erasure).toList ++ h.users.filterMap UserTask.erasure

/-- The deletion of the message is done, or it has come to a stage. -/
def Reached (h : History) (stage : DeletionPc → Bool) (id : MessageId) : Prop :=
  h.Settled id ∨ ∃ x ∈ h.underway, x.1 = id ∧ stage x.2 = true

instance (h : History) (stage : DeletionPc → Bool) (id : MessageId) :
    Decidable (h.Reached stage id) :=
  inferInstanceAs (Decidable (_ ∨ ∃ x ∈ h.underway, _))

/-- The messages of which a copy is in hand that is yet to be written. -/
def held (h : History) : List MessageId :=
  h.pass.elim [] SyncPc.held ++ h.users.flatMap UserTask.held

/-- The record that the task is about to write. -/
def draft (h : History) : Event → Option (ℕ × Deletions)
  | .pass _ => h.pass.bind SyncPc.draft
  | .user i _ => h.users[i]?.bind UserTask.draft
  | _ => none

/-- The task reads the record now. -/
def reads (h : History) : Event → Bool
  | .pass _ => h.pass.any SyncPc.reads
  | .user i _ => h.users[i]?.any UserTask.reads
  | _ => false

/-- The message that the pass takes in hand, as far as the record that it read has to say. -/
def taken (h : History) : Event → Option MessageRow
  | .pass _ => match h.pass with
    | some (.reading sweep) => sweep.pending.head?.filter fun m =>
        m.deletesMessageId.isNone && !answers h.inherited sweep.deletions m.id
    | _ => none
  | _ => none

/-- No copy of a message is in hand while it is being deleted, and no message is that the record
cannot hold. What is written is the record as it still is; none is read that has an entry which
expired before its time; and a message that a pass takes in hand has not been recorded since the
pass read the record. -/
structure Careful (h : History) (e : Event) : Prop where
  apart : ∀ x ∈ h.underway, x.1 ∉ h.held ∧ h.proto x.1 = false
  fresh : ∀ x ∈ h.draft e, x.1 = h.writes
  early : h.reads e = true → ∀ d ∈ h.deletions, d.deletedAt + MESSAGE_TTL_MS ≤ h.now →
    ¬ h.Reached DeletionPc.recorded d.id
  current : ∀ m ∈ h.taken e, h.deletions.get? m.id = none

instance (h : History) (e : Event) : Decidable (h.Careful e) :=
  decidable_of_iff ((∀ x ∈ h.underway, x.1 ∉ h.held ∧ h.proto x.1 = false) ∧
    (∀ x ∈ h.draft e, x.1 = h.writes) ∧
      (h.reads e = true → ∀ d ∈ h.deletions, d.deletedAt + MESSAGE_TTL_MS ≤ h.now →
        ¬ h.Reached DeletionPc.recorded d.id) ∧ ∀ m ∈ h.taken e,
        (h.deletions.get? m.id).isNone = true)
    ⟨fun hc => ⟨hc.1, hc.2.1, hc.2.2.1, fun m hm => Option.isNone_iff_eq_none.mp (hc.2.2.2 m hm)⟩,
      fun hc =>
        ⟨hc.apart, hc.fresh, hc.early, fun m hm => Option.isNone_iff_eq_none.mpr (hc.current m hm)⟩⟩

end History
end SendSelf
