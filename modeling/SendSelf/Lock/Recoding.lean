import SendSelf.Library.Unseen
import SendSelf.Lock.Storage

/-!
# Rewriting what is stored while it is used

The rows of a device's spaces and its registry of spaces, in the clear or sealed. Contexts put,
remove and rename what is there, and some of them rewrite all of it under another key: every row
is read, opened, sealed again and put back whole, with an await at each of these. Everything is
interleaved from one await to the next. What is stored is looked at as it decodes, each row with
the key it was sealed under.

The row that a rewrite has read goes along with its write as a note, for a guard to look at.
-/
namespace SendSelf.Recoding
open Coroutine

abbrev ContextId := ℕ

structure Context where
  contentKey : Option ContentKey
  contentLocked : Bool
deriving DecidableEq, Repr

/-- None is whatever this context holds, and `some none` is explicitly no key. -/
abbrev KeyChoice := Option (Option ContentKey)

/-- No key to write with is the throw of `requireWritableKey`. -/
def Context.writableKey (context : Context) (key : KeyChoice) : Option (Option ContentKey) :=
  match key.getD context.contentKey with
  | none => if context.contentLocked then none else some none
  | some key => some (some key)

variable {α : Type}

structure Disk (α : Type) where
  rows : Table (LocalRow.id : LocalRow α → RowId)
  spaces : Table StoredSpace.id

namespace Disk

def put (s : Disk α) (row : LocalRow α) : Disk α := { s with rows := s.rows.put row }

def delete (s : Disk α) (id : RowId) : Disk α :=
  { s with rows := s.rows.delete fun row => decide (row.id = id) }

/-- `false` when the key is taken. -/
def add (s : Disk α) (row : LocalRow α) : Disk α × Bool :=
  if (s.rows.get? row.id).isSome then (s, false) else (s.put row, true)

def putSpace (s : Disk α) (space : StoredSpace) : Disk α := { s with spaces := s.spaces.put space }

def deleteSpace (s : Disk α) (id : SpaceId) : Disk α :=
  { s with spaces := s.spaces.delete fun space => decide (space.id = id) }

def getAllKeys (s : Disk α) (space : SpaceId) (store : LocalStore) : List RowId :=
  ((s.rows.select fun row => decide (row.id.space = space ∧ row.id.store = store)).map
    LocalRow.id).insertionSort
    fun a b => a.key ≤ b.key

end Disk

structure SpaceRecord where
  id : SpaceId
  createdAt : ℕ
  name : Option SpaceName
  nameUpdatedAt : ℕ
  namePending : Bool
deriving DecidableEq, Repr

/-- What a row opens to under its own key; nothing opens a row that was moved to another id. -/
def opened (row : LocalRow α) : Option α :=
  match row.body with
  | .plain value => some value
  | .sealed box => box.openWith box.key box.iv row.id.context

def openedName (space : StoredSpace) : Option SpaceName :=
  match space.name with
  | .plain name => name
  | .sealed box => box.openWith box.key box.iv space.id

def record (space : StoredSpace) : SpaceRecord :=
  ⟨space.id, space.createdAt, openedName space, space.nameUpdatedAt, space.namePending⟩

@[ext] structure Decoded (α : Type) where
  rows : RowId → Option (Option α)
  spaces : SpaceId → Option SpaceRecord

def Disk.decoded (s : Disk α) : Decoded α where
  rows id := (s.rows.get? id).map opened
  spaces id := (s.spaces.get? id).map record

inductive Op (α : Type) where
  | getRow (id : RowId)
  | getAllKeys (space : SpaceId) (store : LocalStore)
  | openRow (x : ContextId) (row : LocalRow α)
  | sealRow (x : ContextId) (key : KeyChoice) (id : RowId) (value : α)
  | put (row : LocalRow α)
  | add (row : LocalRow α)
  | delete (id : RowId)
  | putBack (found row : LocalRow α)
  | getSpace (id : SpaceId)
  | getAllSpaces
  | openName (x : ContextId) (space : StoredSpace)
  | sealName (x : ContextId) (key : KeyChoice) (id : SpaceId) (name : SpaceName)
  | putSpace (space : StoredSpace)
  | deleteSpace (id : SpaceId)
  | putBackSpace (found space : StoredSpace)

def Op.Answer : Op α → Type
  | .getRow _ => Option (LocalRow α)
  | .getAllKeys _ _ => List RowId
  | .openRow _ _ => Except Unit (Option α)
  | .sealRow _ _ _ _ => Option (StoredBody α)
  | .add _ => Bool
  | .getSpace _ => Option StoredSpace
  | .getAllSpaces => List StoredSpace
  | .openName _ _ => Option SpaceName
  | .sealName _ _ _ _ => Option StoredName
  | _ => Unit

def sealedName (key : Option ContentKey) (iv : AtRestIv) (id : SpaceId) (name : SpaceName) :
    StoredName :=
  match key with
  | none => .plain (some name)
  | some key => .sealed ⟨key, iv, id, name⟩

/-- `iv` is what the browser draws at random for an encryption. -/
def Disk.exec (contexts : ContextId → Context) :
    (op : Op α) → AtRestIv → Disk α → Disk α × op.Answer
  | .getRow id, _, s => (s, s.rows.get? id)
  | .getAllKeys space store, _, s => (s, s.getAllKeys space store)
  | .openRow x row, _, s => (s, fromStored (contexts x).contentKey row.id row.body)
  | .sealRow x key id value, iv,
      s => (s, ((contexts x).writableKey key).map fun key => toStored key iv id value)
  | .put row, _, s => (s.put row, ())
  | .add row, _, s => s.add row
  | .delete id, _, s => (s.delete id, ())
  | .putBack _ row, _, s => (s.put row, ())
  | .getSpace id, _, s => (s, s.spaces.get? id)
  | .getAllSpaces, _, s => (s, (s.spaces.sortBy fun a b => a.id ≤ b.id).rows)
  | .openName x space, _, s => (s, space.readName (contexts x).contentKey)
  | .sealName x key id name, iv,
      s => (s, ((contexts x).writableKey key).map fun key => sealedName key iv id name)
  | .putSpace space, _, s => (s.putSpace space, ())
  | .deleteSpace id, _, s => (s.deleteSpace id, ())
  | .putBackSpace _ space, _, s => (s.putSpace space, ())

abbrev Prog (α β : Type) := Coroutine (Disk α) (Op.Answer : Op α → Type) β

namespace Prog

def getRow (id : RowId) : Prog α (Option (LocalRow α)) := call (Op.getRow id)

def getAllKeys (space : SpaceId) (store : LocalStore) : Prog α (List RowId) :=
  call (Op.getAllKeys space store)

def openRow (x : ContextId) (row : LocalRow α) : Prog α (Except Unit (Option α)) :=
  call (Op.openRow x row)

def sealRow (x : ContextId) (key : KeyChoice) (id : RowId) (value : α) :
    Prog α (Option (StoredBody α)) :=
  call (Op.sealRow x key id value)

def put (row : LocalRow α) : Prog α Unit := call (Op.put row)

def add (row : LocalRow α) : Prog α Bool := call (Op.add row)

def delete (id : RowId) : Prog α Unit := call (Op.delete id)

def putBack (found row : LocalRow α) : Prog α Unit := call (Op.putBack found row)

def getSpace (id : SpaceId) : Prog α (Option StoredSpace) := call (Op.getSpace id)

def getAllSpaces : Prog α (List StoredSpace) := call Op.getAllSpaces

def openName (x : ContextId) (space : StoredSpace) : Prog α (Option SpaceName) :=
  call (Op.openName x space)

def sealName (x : ContextId) (key : KeyChoice) (id : SpaceId) (name : SpaceName) :
    Prog α (Option StoredName) :=
  call (Op.sealName x key id name)

def putSpace (space : StoredSpace) : Prog α Unit := call (Op.putSpace space)

def deleteSpace (id : SpaceId) : Prog α Unit := call (Op.deleteSpace id)

def putBackSpace (found space : StoredSpace) : Prog α Unit := call (Op.putBackSpace found space)

/-- Put a value under a key, encoded as this context encodes. -/
def putValue (x : ContextId) (id : RowId) (value : α) : Prog α Unit := do
  match ← sealRow x none id value with
  | none => throw
  | some body => put ⟨id, body⟩

def putMessage (x : ContextId) (space : SpaceId) (id : ℕ) (message : α) : Prog α Unit :=
  putValue x ⟨space, .messages, id⟩ message

def deleteMessage (space : SpaceId) (id : ℕ) : Prog α Unit := delete ⟨space, .messages, id⟩

def putFile (x : ContextId) (space : SpaceId) (r2Key : ℕ) (blob : α) : Prog α Unit :=
  putValue x ⟨space, .files, r2Key⟩ blob

def deleteFile (space : SpaceId) (r2Key : ℕ) : Prog α Unit := delete ⟨space, .files, r2Key⟩

def putDeviceName (x : ContextId) (space : SpaceId) (deviceId : ℕ) (name : α) : Prog α Unit :=
  putValue x ⟨space, .directory, deviceId⟩ name

/-- Keep the first observation. True when this call is the one that wrote it. -/
def putEvent (x : ContextId) (space : SpaceId) (id : ℕ) (event : α) : Prog α Bool := do
  match ← sealRow x none ⟨space, .events, id⟩ event with
  | none => throw
  | some body => add ⟨⟨space, .events, id⟩, body⟩

/-- A row that cannot be opened is left untouched. -/
def rewriteRow (x : ContextId) (target : Option ContentKey) (id : RowId) : Prog α Unit := do
  match ← getRow id with
  | none => pure ()
  | some row =>
      match ← openRow x row with
      | .error _ => throw
      | .ok none => pure ()
      | .ok (some value) =>
          match ← sealRow x (some target) row.id value with
          | none => throw
          | some body => putBack row ⟨row.id, body⟩

/-- Re-encrypt every message and file under `target`, reading through whatever key this context
holds. -/
def rewriteLocalContent (x : ContextId) (target : Option ContentKey) (space : SpaceId) :
    Prog α Unit :=
  forEach (fun store => do forEach (rewriteRow x target) (← getAllKeys space store))
    [.messages, .events, .directory, .files]

/-- Encode a record for storage, from the row it was read as and the name it is to have. -/
def toStoredSpace (x : ContextId) (key : KeyChoice) (space : StoredSpace)
    (name : Option SpaceName) :
    Prog α StoredSpace := do
  match name with
  | none => pure { space with name := .plain none }
  | some name =>
      match ← sealName x key space.id name with
      | none => throw
      | some name => pure { space with name := name }

/-- The name is read before it is replaced. -/
def renameSpace (x : ContextId) (id : SpaceId) (name : Option SpaceName) : Prog α Unit := do
  match ← getSpace id with
  | none => pure ()
  | some current =>
      let _ ← openName x current
      putSpace (← toStoredSpace x none { current with namePending := true } name)

/-- Take on the name another device published. -/
def adoptSpaceName (x : ContextId) (id : SpaceId) (name : Option SpaceName) (updatedAt : ℕ) :
    Prog α Unit := do
  match ← getSpace id with
  | none => pure ()
  | some current =>
      let _ ← openName x current
      putSpace (← toStoredSpace x none { current with
        nameUpdatedAt := updatedAt, namePending := false } name)

def removeSpace (id : SpaceId) : Prog α Unit := deleteSpace id

def rewriteName (x : ContextId) (target : KeyChoice) (stored : StoredSpace) : Prog α Unit := do
  let name ← openName x stored
  putBackSpace stored (← toStoredSpace x target stored name)

/-- Re-encrypt every space name under `target`. -/
def rewriteSpaceNames (x : ContextId) (target : KeyChoice) : Prog α Unit := do
  forEach (rewriteName x target) (← getAllSpaces)

end Prog

inductive Operation (α : Type) where
  | putMessage (x : ContextId) (space : SpaceId) (id : ℕ) (message : α)
  | deleteMessage (space : SpaceId) (id : ℕ)
  | putFile (x : ContextId) (space : SpaceId) (r2Key : ℕ) (blob : α)
  | deleteFile (space : SpaceId) (r2Key : ℕ)
  | putEvent (x : ContextId) (space : SpaceId) (id : ℕ) (event : α)
  | putDeviceName (x : ContextId) (space : SpaceId) (deviceId : ℕ) (name : α)
  | renameSpace (x : ContextId) (id : SpaceId) (name : Option SpaceName)
  | adoptSpaceName (x : ContextId) (id : SpaceId) (name : Option SpaceName) (updatedAt : ℕ)
  | removeSpace (id : SpaceId)

def Operation.program : Operation α → Prog α Unit
  | .putMessage x space id message => Prog.putMessage x space id message
  | .deleteMessage space id => Prog.deleteMessage space id
  | .putFile x space r2Key blob => Prog.putFile x space r2Key blob
  | .deleteFile space r2Key => Prog.deleteFile space r2Key
  | .putEvent x space id event => do
      let _ ← Prog.putEvent x space id event
  | .putDeviceName x space deviceId name => Prog.putDeviceName x space deviceId name
  | .renameSpace x id name => Prog.renameSpace x id name
  | .adoptSpaceName x id name updatedAt => Prog.adoptSpaceName x id name updatedAt
  | .removeSpace id => Prog.removeSpace id

inductive Rewrite where
  | rewriteLocalContent (x : ContextId) (target : Option ContentKey) (space : SpaceId)
  | rewriteSpaceNames (x : ContextId) (target : KeyChoice)
deriving DecidableEq, Repr

def Rewrite.program : Rewrite → Prog α Unit
  | .rewriteLocalContent x target space => Prog.rewriteLocalContent x target space
  | .rewriteSpaceNames x target => Prog.rewriteSpaceNames x target

def operations (contexts : ContextId → Context) :
    Loop (Disk α) AtRestIv Unit (Operation α) (Op.Answer : Op α → Type) where
  exec := Disk.exec contexts
  key _ := ()
  program := Operation.program

def rewrites (contexts : ContextId → Context) :
    Loop (Disk α) AtRestIv Unit Rewrite (Op.Answer : Op α → Type) where
  exec := Disk.exec contexts
  key _ := ()
  program := Rewrite.program

/-- Where a rewrite puts something back, what is there decodes as what it read; and the names that
it reads it can open. -/
def Unchanged (contexts : ContextId → Context) : Op α → Disk α → Prop
  | .putBack found _, s => (s.rows.get? found.id).map opened = some (opened found)
  | .openName x space, _ => space.readName (contexts x).contentKey = openedName space
  | .putBackSpace found _, s => (s.spaces.get? found.id).map record = some (record found)
  | _, _ => True

instance [DecidableEq α] (contexts : ContextId → Context) (op : Op α) (s : Disk α) :
    Decidable (Unchanged contexts op s) := by
  unfold Unchanged
  split <;> infer_instance

end SendSelf.Recoding
