import Mathlib.Logic.Equiv.List
import SendSelf.Library.Intruder
import SendSelf.Keys.Keyring
import SendSelf.Statements.Encoded

/-!
# What the clients seal, wrap and sign

A client works with symbolic messages: a ciphertext tells nothing but its context without the
key, a wrapped secret nothing without the recipient's private key. The wire carries strings, and
what a string reads as is all that is known of the encoding. What is bound to a ciphertext or
signed is the bytes of a text, which say nothing of a surrogate without its partner. A name stands
for anything random, keys and secrets as well as what a person writes, and says by itself whether
it is to be kept.
-/
namespace SendSelf.EndToEnd
open Intruder Statements Framing Utf16

structure Name where
  index : ℕ
  guarded : Bool
deriving DecidableEq, Repr, Countable

def Guarded (n : Name) : Prop := n.guarded = true

instance : DecidablePred Guarded := fun n => inferInstanceAs (Decidable (n.guarded = true))

instance codeUnit_countable : Countable UInt16 :=
  Function.Injective.countable (f := UInt16.toNat) fun _ _ h => UInt16.toNat_inj.mp h

inductive Datum where
  | text (value : Text)
  | number (value : ℤ)
deriving DecidableEq, Repr, Countable

abbrev Msg := Term Name Datum

abbrev Msg.text (value : Text) : Msg := .data (.text value)

abbrev Msg.number (value : ℤ) : Msg := .data (.number value)

/-- base64url of ciphertexts and signatures, and public keys as SPKI. What is written reads back and
is not empty; other strings may read as anything. `vector` is what an initialization vector decodes
to, written again. -/
structure Encoding where
  write : Msg → Text
  read : Text → Option Msg
  read_write : ∀ m, read (write m) = some m
  base64Url_write : ∀ m, Base64Url (write m)
  write_ne_nil : ∀ m, write m ≠ []
  vector : Text → Text
  exportPublicKey : Name → Text
  importPublicKey : Text → Option Name
  import_export : ∀ n, importPublicKey (exportPublicKey n) = some n
  base64Url_export : ∀ n, Base64Url (exportPublicKey n)
  export_ne_nil : ∀ n, exportPublicKey n ≠ []

theorem digits_ne_nil (n : ℕ) : digits n ≠ [] := by
  rw [digits, decimal]
  split
  · exact List.cons_ne_nil _ _
  · next h => simpa [Nat.digits_eq_nil_iff_eq_zero] using h

open Classical in
/-- Messages and keys written as numbers. -/
noncomputable def Encoding.numbered : Encoding :=
  let number : Msg → ℕ := (exists_injective_nat Msg).choose
  let key : Name → ℕ := (exists_injective_nat Name).choose
  have number_inj : Function.Injective number := (exists_injective_nat Msg).choose_spec
  have key_inj : Function.Injective key := (exists_injective_nat Name).choose_spec
  { write := fun m => digits (number m)
    read := Function.partialInv fun m => digits (number m)
    read_write := Function.partialInv_left (digits_injective.comp number_inj)
    base64Url_write := fun _ => base64Url_digits _
    write_ne_nil := fun _ => digits_ne_nil _
    vector := id
    exportPublicKey := fun n => digits (key n)
    importPublicKey := Function.partialInv fun n => digits (key n)
    import_export := Function.partialInv_left (digits_injective.comp key_inj)
    base64Url_export := fun _ => base64Url_digits _
    export_ne_nil := fun _ => digits_ne_nil _ }

def object : List (Text × Msg) → Msg
  | [] => Msg.text []
  | (key, value) :: fields => .pair (.pair (Msg.text key) value) (object fields)

def array : List Msg → Msg
  | [] => Msg.text []
  | item :: items => .pair item (array items)

def field (key : Text) : Msg → Option Msg
  | .pair (.pair (.data (.text k)) value) rest => if k = key then some value else field key rest
  | _ => none

/-- `{ ...object, [key]: value }`. -/
def setField (key : Text) (value : Msg) : Msg → Msg
  | .pair (.pair (.data (.text k)) v) rest =>
      if k = key then .pair (.pair (Msg.text k) value) rest
      else .pair (.pair (Msg.text k) v) (setField key value rest)
  | _ => object [(key, value)]

/-- A field that is left out when there is no value. -/
def optional (key : Text) (value : Option Msg) : List (Text × Msg) :=
  (value.map fun v => (key, v)).toList

inductive VaultItemKind where
  | folder | note | file
deriving DecidableEq, Repr

def VaultItemKind.text : VaultItemKind → Text
  | .folder => literal "folder"
  | .note => literal "note"
  | .file => literal "file"

/-- What a ciphertext under a symmetric key stands for. The kind of an item is whatever string the
server has given it. -/
inductive Place where
  | messageText (messageId : Text)
  | messageFile (messageId : Text)
  | messageMeta (messageId : Text)
  | deviceName (deviceId : Text)
  | spaceName (groupId : Text)
  | vaultMeta (groupId itemId kind : Text)
  | vaultBlob (groupId blobKey : Text)
  | invite (fields : InviteSealFields)
deriving DecidableEq, Repr

/-- `messageContext`, `vaultContext`, `nameContext`, the context of `encryptName`, and
`inviteSealStatement`. -/
def Place.context : Place → Text
  | .messageText messageId => join colon [literal "text", messageId]
  | .messageFile messageId => join colon [literal "file", messageId]
  | .messageMeta messageId => join colon [literal "meta", messageId]
  | .deviceName deviceId => join colon [literal "name", deviceId]
  | .spaceName groupId => join colon [literal "space-name", groupId]
  | .vaultMeta groupId itemId kind => join colon [literal "vault-meta", groupId, itemId, kind]
  | .vaultBlob groupId blobKey => join colon [literal "vault-blob", groupId, blobKey]
  | .invite fields => inviteSealStatement fields

def rekeyContext (groupId : Text) (epoch : ℕ) (deviceId : Text) : Text :=
  join colon [literal "rekey", groupId, string epoch, deviceId]

/-- `pairingId && ...`: an empty id gives an empty context. -/
def pairingContext (pairingId : Text) : Text :=
  if pairingId = [] then [] else join colon [literal "pairing", pairingId]

variable (E : Encoding)

/-- The bytes that `TextEncoder` makes of a text. -/
def bytes (text : Text) : Msg := Msg.text (toWellFormed text)

/-- A ciphertext opens with its vector and its context only. -/
def aad (iv context : Text) : Msg := .pair (Msg.text (E.vector iv)) (bytes context)

/-- `encryptText`, `encryptJson`, `encryptFile`, `encryptName` and the sealing of `sealInvite`. -/
def encrypt (key plaintext : Msg) (context iv : Text) : Msg :=
  .cipher key (aad E iv context) plaintext

def openCipher (key : Msg) (context iv : Text) : Msg → Option Msg
  | .cipher k c p => if k = key ∧ c = aad E iv context then some p else none
  | _ => none

/-- `decryptText`, `decryptJson` and `decryptFile`; `none` is a throw. -/
def decrypt (key : Msg) (ciphertext iv context : Text) : Option Msg :=
  (E.read ciphertext).bind (openCipher E key context iv)

/-- A ciphertext that a client has made, with the plaintext. -/
structure Seal where
  key : Msg
  place : Place
  iv : Text
  payload : Msg
deriving DecidableEq, Repr

def Seal.ciphertext (s : Seal) : Msg := encrypt E s.key s.payload s.place.context s.iv

/-- A raw key is 32 bytes, all of which are random. -/
def importGroupKey : Msg → Option Name
  | .name key => some key
  | _ => none

def wrapSecret (recipient : Name) (payload : Msg) (context : Text) : Msg :=
  .box recipient (bytes context) payload

def openBox (key : Name) (context : Text) : Msg → Option Msg
  | .box n c p => if n = key ∧ c = bytes context then some p else none
  | _ => none

def unwrapSecret (key : Name) (wrapped context : Text) : Option Msg :=
  (E.read wrapped).bind (openBox key context)

def wrapRotatedKey (recipient : Name) (groupKey : Name) (groupId : Text) (epoch : ℕ)
    (deviceId : Text) : Msg :=
  wrapSecret recipient
    (object [(literal "groupKey", .name groupKey), (literal "epoch", Msg.number epoch)])
    (rekeyContext groupId epoch deviceId)

def unwrapRotatedKey (key : Name) (epoch : ℕ) (wrapped groupId deviceId : Text) : Option Name :=
  ((unwrapSecret E key wrapped (rekeyContext groupId epoch deviceId)).bind
    (field (literal "groupKey"))).bind importGroupKey

structure DeviceKeyBundle where
  deviceId : Text
  publicKey : Text
  signingPublicKey : Option Text
deriving DecidableEq, Repr

def DeviceKeyBundle.json (b : DeviceKeyBundle) : Msg :=
  object ([(literal "deviceId", Msg.text b.deviceId),
    (literal "publicKey", Msg.text b.publicKey)] ++
    optional (literal "signingPublicKey") (b.signingPublicKey.map Msg.text))

structure PairingPayload where
  groupKey : Name
  keyEpoch : ℕ
  deviceAuthToken : Text
  groupId : Text
  roster : List DeviceKeyBundle
  spaceName : Option Msg
deriving DecidableEq, Repr

def PairingPayload.json (p : PairingPayload) : Msg :=
  object ([(literal "groupKey", .name p.groupKey), (literal "keyEpoch", Msg.number p.keyEpoch),
    (literal "deviceAuthToken", Msg.text p.deviceAuthToken),
    (literal "groupId", Msg.text p.groupId),
    (literal "roster", array (p.roster.map DeviceKeyBundle.json))] ++
    optional (literal "spaceName") p.spaceName)

abbrev Keyring := SendSelf.Keyring Name

/-- `secret` is 256 random bits. -/
structure Invite where
  pairingId : Text
  secret : Name
deriving DecidableEq, Repr

def inviteKey (invite : Invite) : Msg := .derived (.name invite.secret) (bytes invite.pairingId)

def sealInvite (invite : Invite) (deviceName : Msg) (fields : InviteSealFields)
    (iv : Text) : Seal :=
  ⟨inviteKey invite, .invite fields, iv, object [(literal "deviceName", deviceName)]⟩

/-- A name as it is shown: no text that is blank, nor anything but a text. A name of which nothing
is known but that someone wrote it is left alone. -/
def shownName : Msg → Option Msg
  | .data (.text name) => if trim name = [] then none else some (Msg.text ((trim name).take 80))
  | .name n => some (.name n)
  | _ => none

/-- The seal is what stands on either side of its dot; `none` is an `InviteMismatchError`. -/
def openInvite (invite : Invite) (ciphertext iv : Text) (fields : InviteSealFields) : Option Msg :=
  if iv = [] ∨ ciphertext = [] then none
  else ((decrypt E (inviteKey invite) ciphertext iv (inviteSealStatement fields)).bind
    (field (literal "deviceName"))).bind shownName

def signStatement (key : Name) (statement : Statements.Statement Nullable) : Msg :=
  .sign key (bytes statement.text)

/-- A key or a signature that is malformed verifies nothing. -/
def verifyStatement (publicKey : Text) (statement : Statements.Statement Nullable)
    (signature : Text) : Bool :=
  match E.importPublicKey publicKey, E.read signature with
  | some key, some m => decide (m = signStatement key statement)
  | _, _ => false

end SendSelf.EndToEnd
