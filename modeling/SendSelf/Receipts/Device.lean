import SendSelf.Deletions.History

/-!
# Receiving in several tabs

The tabs of a device share the messages of a space, their files and the record of what was
deleted for everyone. Each tab has a list of its own of what it shows, takes copies of messages
from there, and runs a pass of `syncNow` and whatever the user asks for next to each other. A
task runs by itself up to its next `await`; a write to the storage may fail, and then the task
throws. A tab can be closed at any time, and what it was doing is lost; one that is opened
loads the messages.

`Log` is history: what has happened to a message on this device.
-/
namespace SendSelf.Receipts

abbrev TabId := ℕ

/-- `discardMessage`, and before it `applyGlobalDeletion`. -/
inductive Erasure where
  | recording (id : MessageId)
  | finding (id : MessageId)
  | looking (id : MessageId)
  | dropping (m : LocalMessage)
  | filtering (m : LocalMessage)
  | clearing (m : LocalMessage)
deriving DecidableEq, Repr

inductive PassPc where
  | polling
  | loading (pending : List MessageRow)
  | reading (sweep : Sweep)
  | erasing (sweep : Sweep) (row : MessageRow) (erasure : Erasure)
  | acking (sweep : Sweep) (row : MessageRow)
  | putting (sweep : Sweep) (m : LocalMessage)
  | showing (sweep : Sweep) (m : LocalMessage)
  | downloading (sweep : Sweep) (workers : List WorkerPc)

/-- What the user asked for: a deletion, or a retry, which puts a message back into its
waiting state. -/
inductive Task where
  | erasing (erasure : Erasure)
  | acking (m : LocalMessage)
  | putting (m : LocalMessage)
  | showing (m : LocalMessage)

/-- `attempts` counts the failed decrypts of a message's file, and `seen` is history: what the
tab has shown as downloaded. -/
structure Tab where
  shown : Table LocalMessage.id
  attempts : MessageId → ℕ
  pass : Option PassPc
  tasks : List Task
  seen : List MessageId

structure Log where
  stored : List MessageId
  notFound : List MessageId
  exhausted : List MessageId
  discarded : List MessageId
deriving DecidableEq, Repr

/-- What the tabs share. `sent` are the messages for this device, with the content that each of
them has for good; the server offers some of them at a time. -/
structure Shared where
  /-- The message ids that are names of `Object.prototype`, and that of its setter. -/
  inherited : MessageId → Bool
  proto : MessageId → Bool
  sent : Table MessageRow.id
  now : ℕ
  messages : Table LocalMessage.id
  deletions : Deletions
  files : List FileKey
  log : Log

structure Device where
  shared : Shared
  tabs : TabId → Option Tab

def MAX_DECRYPT_ATTEMPTS : ℕ := 3

def Tab.decryptBudgetExhausted (tab : Tab) (id : MessageId) : Bool :=
  decide (MAX_DECRYPT_ATTEMPTS ≤ tab.attempts id + 1)

/-- How a transfer ends. -/
inductive Transfer where
  | failed | notFound | undecryptable | unstorable | stored
deriving DecidableEq, Repr

/-- A failed decrypt is given up when the budget is exhausted. -/
def Tab.download (tab : Tab) (m : LocalMessage) : Transfer → History.Download
  | .failed => .failed
  | .notFound => .gone
  | .undecryptable => if tab.decryptBudgetExhausted m.id then .poisoned else .undecryptable
  | .unstorable => .unstorable
  | .stored => .stored

inductive Effect where
  | nothing
  | putMessage (m : LocalMessage)
  | showMessage (m : LocalMessage)
  | deleteMessage (id : MessageId)
  | hideMessage (id : MessageId)
  | setDeletions (deletions : Deletions)
  | recordDeletion (id : MessageId)
  | transfer (m : LocalMessage) (outcome : Transfer)
  | deleteFile (m : LocalMessage)

/-- The ids after a message was put or shown. -/
def noteDownloaded (m : LocalMessage) (ids : List MessageId) : List MessageId :=
  if m.fileState = some .downloaded then m.id :: ids else ids

def Effect.shared (tab : Tab) (s : Shared) : Effect → Shared
  | .putMessage m =>
      { s with
        messages := s.messages.put m,
        log := { s.log with stored := noteDownloaded m s.log.stored } }
  | .deleteMessage id =>
      { s with messages := s.messages.delete fun m => decide (m.id = id),
               log := { s.log with discarded := id :: s.log.discarded } }
  | .setDeletions deletions => { s with deletions }
  | .recordDeletion id =>
      { s with deletions := enter s.proto (prune s.deletions s.now) id s.now,
               log := { s.log with discarded := id :: s.log.discarded } }
  | .transfer m .notFound => { s with log := { s.log with notFound := m.id :: s.log.notFound } }
  | .transfer m .undecryptable =>
      if tab.decryptBudgetExhausted m.id then
        { s with log := { s.log with exhausted := m.id :: s.log.exhausted } }
      else s
  | .transfer m .stored => { s with files := m.file.toList ++ s.files }
  | .deleteFile m => { s with files := s.files.filter fun key => decide (m.file ≠ some key) }
  | _ => s

def Tab.setAttempts (tab : Tab) (id : MessageId) (n : ℕ) : Tab :=
  { tab with attempts := Function.update tab.attempts id n }

def Effect.tab (tab : Tab) : Effect → Tab
  | .showMessage m => { tab with shown := tab.shown.put m, seen := noteDownloaded m tab.seen }
  | .hideMessage id => { tab with shown := tab.shown.delete fun m => decide (m.id = id) }
  | .transfer m .undecryptable =>
      tab.setAttempts m.id (if tab.decryptBudgetExhausted m.id then 0 else tab.attempts m.id + 1)
  | .transfer m .unstorable | .transfer m .stored => tab.setAttempts m.id 0
  | _ => tab

/-- One step of an erasure, and what is left of it; the error is a throw. Failing to delete the
file is not one. -/
def erase (s : Shared) (tab : Tab) (written : Bool) :
    Erasure → Effect × Except Unit (Option Erasure)
  | .recording id =>
    if written then (.recordDeletion id, .ok (some (.finding id))) else (.nothing, .error ())
  | .finding id => (.nothing, .ok (some (match tab.shown.get? id with
      | some m => .dropping m
      | none => .looking id)))
  | .looking id => (.nothing, .ok ((s.messages.get? id).map .dropping))
  | .dropping m =>
      if written then (.deleteMessage m.id, .ok (some (.filtering m))) else (.nothing, .error ())
  | .filtering m => (.hideMessage m.id, .ok (if m.file.isSome then some (.clearing m) else none))
  | .clearing m => (if written then .deleteFile m else .nothing, .ok none)

/-- Whether the file's turn has come and its key is held, how its transfer ends, whether the ack
arrives, and whether a row can be written. -/
structure WorkerInput where
  due : Bool
  transfer : Transfer
  acked : Bool
  written : Bool
deriving DecidableEq, Repr

def downloadAndAck (tab : Tab) (input : WorkerInput) : WorkerPc → Effect × Option WorkerPc
  | .starting m =>
      if m.file.isSome ∧ needsDownload m.fileState then
        if input.due then
          (.nothing, some (.putting { m with fileState := some .downloading } m .fetch))
        else (.nothing, none)
      else if m.acked then (.nothing, none)
      else (.nothing, some (.acking m))
  | .putting row m next =>
      if input.written then (.putMessage row, some (.showing row m next)) else (.nothing, none)
  | .showing row m next => (.showMessage row, match next with
      | .fetch => some (.fetching m)
      | .ack => if m.acked then none else some (.acking m)
      | .stop => none)
  | .fetching m =>
      (.transfer m input.transfer, some (History.afterDownload m (tab.download m input.transfer)))
  | .acking m =>
      (.nothing,
        if input.acked then some (.putting { m with acked := true } { m with acked := true } .stop)
        else none)

/-- A pass is over when no worker is left. -/
def downloading (sweep : Sweep) (workers : List WorkerPc) : Option PassPc :=
  if workers = [] then none else some (.downloading sweep workers)

/-- `runWithConcurrency`. -/
def runWithConcurrency (sweep : Sweep) : Option PassPc :=
  downloading { sweep with registered := sweep.registered.drop MAX_PARALLEL_DOWNLOADS }
    ((sweep.registered.take MAX_PARALLEL_DOWNLOADS).map .starting)

/-- The next message is taken as one is done. -/
def moveWorker (sweep : Sweep) (workers : List WorkerPc) (k : ℕ) : Option WorkerPc → Option PassPc
  | some worker => downloading sweep (workers.set k worker)
  | none => match sweep.registered with
    | m :: rest => downloading { sweep with registered := rest } (workers.set k (.starting m))
    | [] => downloading sweep (workers.eraseIdx k)

structure PassInput where
  verdict : SignatureVerdict
  opened : Option Opened
  written : Bool
deriving DecidableEq, Repr

/-- `registerIncoming`, up to its upsert. A message that the tab shows is taken as it is. -/
def registerIncoming (tab : Tab) (input : PassInput) (row : MessageRow) (sweep : Sweep) : PassPc :=
  match tab.shown.get? row.id with
  | some shown => .reading { sweep with registered := sweep.registered ++ [shown] }
  | none => match input.opened with
    | some opened => .putting sweep (registered row opened)
    | none => .reading sweep

def nextPending (s : Shared) (tab : Tab) (input : PassInput) (row : MessageRow)
    (sweep : Sweep) : PassPc :=
  match row.deletesMessageId with
  | some target =>
      if input.verdict = .invalid then .acking sweep row else .erasing sweep row (.recording target)
  | none =>
      if answers s.inherited sweep.deletions row.id then .acking sweep row
      else registerIncoming tab input row sweep

/-- A step of `syncNow` after the poll and up to the downloads. What throws leaves the message
pending. -/
def syncNow (s : Shared) (tab : Tab) (input : PassInput) : PassPc → Option (Effect × Option PassPc)
  | .loading pending =>
      let pruned := prune s.deletions s.now
      some (if input.written then (.setDeletions pruned, some (.reading ⟨pending, pruned, []⟩))
        else (.nothing, none))
  | .reading sweep => some (.nothing, match sweep.pending with
      | [] => runWithConcurrency sweep
      | row :: rest => some (nextPending s tab input row { sweep with pending := rest }))
  | .erasing sweep row erasure =>
      let (effect, next) := erase s tab input.written erasure
      some (effect, some (match next with
        | .ok (some erasure') => .erasing sweep row erasure'
        | .ok none => .acking sweep row
        | .error _ => .reading sweep))
  | .acking sweep _ => some (.nothing, some (.reading sweep))
  | .putting sweep m => some (if input.written then (.putMessage m, some (.showing sweep m))
      else (.nothing, some (.reading sweep)))
  | .showing sweep m =>
      some (.showMessage m, some (.reading { sweep with registered := sweep.registered ++ [m] }))
  | .polling | .downloading _ _ => none

structure TaskInput where
  acked : Bool
  written : Bool
deriving DecidableEq, Repr

def moveTask (s : Shared) (tab : Tab) (input : TaskInput) : Task → Effect × Option Task
  | .erasing erasure =>
      let (effect, next) := erase s tab input.written erasure
      (effect, match next with
        | .ok erasure' => erasure'.map .erasing
        | .error _ => none)
  | .acking m => (.nothing, if input.acked then some (.erasing (.dropping m)) else none)
  | .putting m => if input.written then (.putMessage m, some (.showing m)) else (.nothing, none)
  | .showing m => (.showMessage m, none)

/-- `worker` and `task` name what goes on; `peers` says whether another device is known. -/
inductive TabEvent where
  | sync
  | answer (pending : Option (List MessageRow))
  | pass (input : PassInput)
  | worker (k : ℕ) (input : WorkerInput)
  | retryFileDownload (id : MessageId)
  | deleteMessageEverywhere (id : MessageId) (peers : Bool)
  | deleteMessageLocally (id : MessageId)
  | task (k : ℕ) (input : TaskInput)
deriving Repr

inductive Event where
  | wait (ms : ℕ)
  | open (i : TabId)
  | close (i : TabId)
  | tab (i : TabId) (e : TabEvent)
deriving Repr

/-- What a step makes of a tab. -/
structure Move where
  effect : Effect
  pass : Option PassPc
  tasks : List Task

def Tab.startTask (tab : Tab) (task : Task) : Move := ⟨.nothing, tab.pass, tab.tasks ++ [task]⟩

def Tab.move (s : Shared) (tab : Tab) : TabEvent → Option Move
  | .sync => match tab.pass with
    | none => some ⟨.nothing, some .polling, tab.tasks⟩
    | some _ => none
  | .answer pending => match tab.pass with
    | some .polling =>
        if pending.all fun rows => decide (∀ row ∈ rows, row ∈ s.sent.rows) then
          some ⟨.nothing, pending.map .loading, tab.tasks⟩
        else none
    | _ => none
  | .pass input => do
      let (effect, next) ← syncNow s tab input (← tab.pass)
      some ⟨effect, next, tab.tasks⟩
  | .worker k input => match tab.pass with
    | some (.downloading sweep workers) => do
        let (effect, next) := downloadAndAck tab input (← workers[k]?)
        some ⟨effect, moveWorker sweep workers k next, tab.tasks⟩
    | _ => none
  | .retryFileDownload id => do
      let m ← tab.shown.get? id
      if m.direction = .incoming ∧ m.fileState = some .error then
        some (tab.startTask (.putting { m with fileState := some .remote }))
      else none
  | .deleteMessageEverywhere id peers => do
      let m ← tab.shown.get? id
      if m.deletes.isNone ∧ peers ∧ (m.direction = .incoming ∨ m.status = .sent) then
        some (tab.startTask (.erasing (.recording id))) else none
  | .deleteMessageLocally id => do
      let m ← tab.shown.get? id
      some (tab.startTask (if m.direction = .incoming ∧
        m.acked = false then .acking m else .erasing (.dropping m)))
  | .task k input => do
      let (effect, next) := moveTask s tab input (← tab.tasks[k]?)
      some ⟨effect, tab.pass, match next with
        | some task => tab.tasks.set k task
        | none => tab.tasks.eraseIdx k⟩

/-- What is shown is what the rows say. -/
def Tab.load (s : Shared) : Tab :=
  { shown := s.messages, attempts := fun _ => 0, pass := none, tasks := [],
    seen := (s.messages.select fun m => decide (m.fileState = some .downloaded)).map
      LocalMessage.id }

def Tab.after (tab : Tab) (m : Move) : Tab :=
  { m.effect.tab tab with pass := m.pass, tasks := m.tasks }

def Device.setTab (d : Device) (i : TabId) (tab : Option Tab) : Device :=
  { d with tabs := Function.update d.tabs i tab }

def step (d : Device) : Event → Option Device
  | .wait ms => some { d with shared := { d.shared with now := d.shared.now + ms } }
  | .open i => match d.tabs i with
    | none => some (d.setTab i (some (Tab.load d.shared)))
    | some _ => none
  | .close i => some (d.setTab i none)
  | .tab i e => do
      let tab ← d.tabs i
      let m ← tab.move d.shared e
      some ({ d with shared := m.effect.shared tab d.shared }.setTab i (some (tab.after m)))

/-- Nothing has been received, and no tab is open. -/
def start (inherited proto : MessageId → Bool) (sent : Table MessageRow.id) : Device :=
  ⟨⟨inherited, proto, sent, 0, .empty, .empty, [], ⟨[], [], [], []⟩⟩, fun _ => none⟩

end SendSelf.Receipts
