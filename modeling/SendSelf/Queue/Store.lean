import SendSelf.Deletions.History
import SendSelf.Library.Coroutine
import SendSelf.Lock.AtRest

/-!
# The message store and the index of what is owed

A space's messages are rows that may be sealed under the content key, so what is still owed
to the server cannot be looked up: an index beside the rows lists it. Every context of the
device (a page, another tab, the service worker) reads and writes the same store, with the
content key that it holds or without. A row is opened and sealed outside transactions, a
transaction takes effect at once, and everything is interleaved from one await to the next.
-/
namespace SendSelf.Queue

abbrev ContextId := ℕ

def isQueuedOutgoing (message : LocalMessage) : Bool :=
  decide (message.direction = .outgoing ∧ (message.status = .queued ∨ message.status = .uploading))

structure Seal where
  key : ContentKey
  iv : AtRestIv
deriving DecidableEq, Repr

/-- A row shows the id and the time of its message; the message is in the clear or sealed. -/
structure StoredMessage where
  message : LocalMessage
  sealed : Option Seal
deriving DecidableEq, Repr

def StoredMessage.id (row : StoredMessage) : MessageId := row.message.id

structure OutboxIndex where
  complete : Bool
  ids : List MessageId
deriving DecidableEq, Repr

/-- The content key a context holds, and whether it is locked without one. -/
structure Context where
  contentKey : Option ContentKey
  contentLocked : Bool
deriving DecidableEq, Repr

structure Store where
  messages : Table StoredMessage.id
  outbox : Option OutboxIndex
  contexts : ContextId → Context

/-- The ids in the index, if there is one. -/
def Store.tracked (s : Store) : List MessageId := (s.outbox.map OutboxIndex.ids).getD []

def Store.complete (s : Store) : Bool := (s.outbox.map OutboxIndex.complete).getD false

/-- The ids after `trackOutbox`. -/
def trackOutbox.ids (addOnly : Bool) (ids : List MessageId) (messages : List LocalMessage) :
    List MessageId :=
  messages.foldl (fun ids message =>
    if isQueuedOutgoing message then (if message.id ∈ ids then ids else ids ++ [message.id])
    else if addOnly then ids else ids.filter fun id => decide (id ≠ message.id)) ids

def trackOutbox (addOnly : Bool) (messages : List LocalMessage) (s : Store) : Store :=
  { s with outbox := some ⟨s.complete, trackOutbox.ids addOnly s.tracked messages⟩ }

def untrackOutbox (ids : List MessageId) (s : Store) : Store :=
  { s with outbox := s.outbox.map fun current =>
      { current with ids := current.ids.filter fun id => decide (id ∉ ids) } }

def putRows (rows : List StoredMessage) (s : Store) : Store :=
  { s with messages := rows.foldl Table.put s.messages }

def deleteRows (ids : List MessageId) (s : Store) : Store :=
  { s with messages := s.messages.delete fun row => decide (row.id ∈ ids) }

/-- The ids whose row is still what was read. -/
def unchanged (s : Store) (stale : List (MessageId × Option StoredMessage)) : List MessageId :=
  (stale.filter fun entry => decide (s.messages.get? entry.1 = entry.2)).map Prod.fst

/-- What `rebuildOutboxIndex` writes: it merges what it found. -/
def mergeOutbox (complete : Bool) (ids : List MessageId) (s : Store) : Store :=
  { s with
    outbox := some ⟨complete || s.complete, s.tracked ++ ids.filter fun id =>
      decide (id ∉ s.tracked)⟩ }

inductive StoreOp where
  | turn
  | encrypt
  | getOutbox
  | getMessage (id : MessageId)
  | getAllMessages
  /-- The rows from before `cutoff`. -/
  | getMessagesBefore (cutoff : ℕ)
  | getAllKeys
  | put (row : StoredMessage)
  | putTracked (addOnly : Bool) (rows : List StoredMessage) (messages : List LocalMessage)
  | deleteUntracked (ids : List MessageId)
  | untrackUnchanged (stale : List (MessageId × Option StoredMessage))
  | merge (complete : Bool) (ids : List MessageId)

def StoreOp.Answer : StoreOp → Type
  | .encrypt => AtRestIv
  | .getOutbox => Option OutboxIndex
  | .getMessage _ => Option StoredMessage
  | .getAllMessages => List StoredMessage
  | .getMessagesBefore _ => List StoredMessage
  | .getAllKeys => List MessageId
  | _ => Unit

/-- `iv` is what the browser draws at random for an encryption. -/
def Store.exec : (op : StoreOp) → AtRestIv → Store → Store × op.Answer
  | .turn, _, s => (s, ())
  | .encrypt, iv, s => (s, iv)
  | .getOutbox, _, s => (s, s.outbox)
  | .getMessage id, _, s => (s, s.messages.get? id)
  | .getAllMessages, _, s => (s, s.messages.rows)
  | .getMessagesBefore cutoff, _,
      s => (s, s.messages.select fun row => decide (row.message.createdAt < cutoff))
  | .getAllKeys, _, s => (s, s.messages.rows.map StoredMessage.id)
  | .put row, _, s => (putRows [row] s, ())
  | .putTracked addOnly rows messages, _, s => (trackOutbox addOnly messages (putRows rows s), ())
  | .deleteUntracked ids, _, s => (untrackOutbox ids (deleteRows ids s), ())
  | .untrackUnchanged stale, _, s => (untrackOutbox (unchanged s stale) s, ())
  | .merge complete ids, _, s => (mergeOutbox complete ids s, ())

abbrev Prog (α : Type) := Coroutine Store StoreOp.Answer α

namespace Prog

open Coroutine

def turn : Prog Unit := call StoreOp.turn

def encrypt : Prog AtRestIv := call StoreOp.encrypt

def getOutbox : Prog (Option OutboxIndex) := call StoreOp.getOutbox

def getMessage (id : MessageId) : Prog (Option StoredMessage) := call (StoreOp.getMessage id)

def getAllMessages : Prog (List StoredMessage) := call StoreOp.getAllMessages

def getMessagesBefore (cutoff : ℕ) : Prog (List StoredMessage) :=
  call (StoreOp.getMessagesBefore cutoff)

def getAllKeys : Prog (List MessageId) := call StoreOp.getAllKeys

def put (row : StoredMessage) : Prog Unit := call (StoreOp.put row)

def putTracked (addOnly : Bool) (rows : List StoredMessage) (messages : List LocalMessage) :
    Prog Unit :=
  call (StoreOp.putTracked addOnly rows messages)

def deleteUntracked (ids : List MessageId) : Prog Unit := call (StoreOp.deleteUntracked ids)

def dropStale (stale : List (MessageId × Option StoredMessage)) : Prog Unit :=
  call (StoreOp.untrackUnchanged stale)

def merge (complete : Bool) (ids : List MessageId) : Prog Unit := call (StoreOp.merge complete ids)

/-- `target` is none for whatever key the context holds, and `some none` for no key. -/
def sealJson (x : ContextId) (target : Option (Option ContentKey)) : Prog (Option Seal) := do
  let context := (← read).contexts x
  match target.getD context.contentKey with
  | none => if context.contentLocked then throw else pure none
  | some key => pure (some ⟨key, ← encrypt⟩)

def toStored (x : ContextId) (target : Option (Option ContentKey)) (message : LocalMessage) :
    Prog StoredMessage := do
  pure ⟨message, ← sealJson x target⟩

/-- Nothing without a key; a decryption under another key throws. -/
def fromStored (x : ContextId) (row : StoredMessage) : Prog (Option LocalMessage) := do
  match row.sealed with
  | none => pure (some row.message)
  | some box =>
      match ((← read).contexts x).contentKey with
      | none => pure none
      | some key =>
          turn
          if box.key = key then pure (some row.message) else throw

def putMessage (x : ContextId) (message : LocalMessage) : Prog Unit := do
  let stored ← toStored x none message
  if message.direction ≠ .outgoing then put stored
  else putTracked false [stored] [message]

def putOutgoingFileMessages (x : ContextId) (messages : List LocalMessage) : Prog Unit := do
  if messages = [] then pure ()
  else
    let prepared ← forAll (toStored x none) messages
    putTracked false prepared messages

def deleteMessage (id : MessageId) : Prog Unit := deleteUntracked [id]

def rebuildOutboxIndex (x : ContextId) : Prog (List LocalMessage) := do
  let rows ← getAllMessages
  let opened ← forAll (fromStored x) rows
  let queued := (opened.filterMap id).filter isQueuedOutgoing
  merge (opened.all Option.isSome) (queued.map LocalMessage.id)
  pure queued

/-- What an entry of the index turns out to be: owed, done with the row it was read from, or
not to be opened here. -/
inductive Looked where
  | queued (message : LocalMessage)
  | stale (entry : MessageId × Option StoredMessage)
  | closed

def look (x : ContextId) (entry : MessageId × Option StoredMessage) : Prog Looked := do
  match entry.2 with
  | none => pure (.stale entry)
  | some row =>
      match ← fromStored x row with
      | none => pure .closed
      | some message =>
          if isQueuedOutgoing message then pure (.queued message)
            else pure (.stale (message.id, some row))

def Looked.message : Looked → Option LocalMessage
  | .queued message => some message
  | _ => none

def Looked.entry : Looked → Option (MessageId × Option StoredMessage)
  | .stale entry => some entry
  | _ => none

/-- Sorted by time, oldest first. -/
def sorted (messages : List LocalMessage) : List LocalMessage :=
  messages.mergeSort fun a b => decide (a.createdAt ≤ b.createdAt)

def queuedMessages (x : ContextId) : Prog (List LocalMessage) := do
  match ← getOutbox with
  | some ⟨true, ids⟩ =>
      let rows ← forAll (fun id => do pure (id, ← getMessage id)) ids
      let looked ← forAll (look x) rows
      let stale := looked.filterMap Looked.entry
      if stale ≠ [] then dropStale stale
      pure (sorted (looked.filterMap Looked.message))
  | _ => rebuildOutboxIndex x

def trackQueued (messages : List LocalMessage) : Prog Unit := do
  let queued := messages.filter isQueuedOutgoing
  if queued = [] then pure ()
  else
    let index ← getOutbox
    if index.any fun index => queued.all fun message => decide (message.id ∈ index.ids) then pure ()
    else putTracked true [] queued

def PRUNE_BATCH : ℕ := 200

/-- Messages that were not delivered are kept, and what cannot be opened. -/
def doomed (opened : List (Option LocalMessage)) : List LocalMessage :=
  (opened.filterMap id).filter fun message =>
    !decide (message.direction = .outgoing ∧ message.status ≠ .sent)

def pruneHistory (x : ContextId) (cutoff : ℕ) : Prog Unit := do
  let rows ← getMessagesBefore cutoff
  let opened ← forAll (fromStored x) rows
  forEach (fun batch => deleteUntracked (batch.map LocalMessage.id))
    ((doomed opened).toChunks PRUNE_BATCH)

def rewriteMessage (x : ContextId) (target : Option ContentKey) (key : MessageId) : Prog Unit := do
  match ← getMessage key with
  | none => pure ()
  | some row =>
      match ← fromStored x row with
      | none => pure ()
      | some message =>
          let stored ← toStored x (some target) message
          putTracked true [stored] [message]

/-- The part of `rewriteLocalContent` that is about messages. -/
def rewriteLocalContent (x : ContextId) (target : Option ContentKey) : Prog Unit := do
  forEach (rewriteMessage x target) (← getAllKeys)

def setContext (x : ContextId) (context : Context) : Prog Unit :=
  write fun s => { s with contexts := Function.update s.contexts x context }

end Prog

/-- What a context sets going. -/
inductive Job where
  | putMessage (x : ContextId) (message : LocalMessage)
  | putOutgoingFileMessages (x : ContextId) (messages : List LocalMessage)
  | deleteMessage (x : ContextId) (id : MessageId)
  | queuedMessages (x : ContextId)
  | trackQueued (x : ContextId) (messages : List LocalMessage)
  | pruneHistory (x : ContextId) (cutoff : ℕ)
  | rewriteLocalContent (x : ContextId) (target : Option ContentKey)
  /-- The context is unlocked, locked or told that there is no lock any more. -/
  | setContext (x : ContextId) (context : Context)

def Job.program : Job → Prog Unit
  | .putMessage x message => Prog.putMessage x message
  | .putOutgoingFileMessages x messages => Prog.putOutgoingFileMessages x messages
  | .deleteMessage _ id => Prog.deleteMessage id
  | .queuedMessages x => do
      let _ ← Prog.queuedMessages x
  | .trackQueued _ messages => Prog.trackQueued messages
  | .pruneHistory x cutoff => Prog.pruneHistory x cutoff
  | .rewriteLocalContent x target => Prog.rewriteLocalContent x target
  | .setContext x context => Prog.setContext x context

def device : Coroutine.Loop Store AtRestIv Unit Job StoreOp.Answer where
  exec := Store.exec
  key := fun _ => ()
  program := Job.program

end SendSelf.Queue
