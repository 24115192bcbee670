import Mathlib.Data.List.Sort
import SendSelf.Library.Runs
import SendSelf.EndToEnd.Crypto

/-!
# A space and the server it does not trust

The devices of a space, the devices about to join it, and everything they have asked the server.
Whatever the server answers is part of the event: it says what it likes, in any order and to
anyone, as long as it can put it together from what it has been sent. A client is one state of
one page of a device; nothing is ever taken out of a world, so that work that started from an
older state goes on from there.

The random values of an event are its own: ids, vectors, tokens and keys are what the device
has drawn.
-/
namespace SendSelf.EndToEnd
open Intruder Statements Framing Utf16

structure Session where
  groupId : Text
  deviceId : Text
  keyPair : Name
  signingKeyPair : Name
deriving DecidableEq, Repr

/-- What a new device waits with. -/
structure JoiningDevice where
  pairingId : Text
  deviceId : Text
  keyPair : Name
  signingKeyPair : Name
  sendOnly : Bool
deriving DecidableEq, Repr

/-- What is read from a QR code, or taken from an answer to an invitation. -/
structure PairingQrPayload where
  pairingId : Text
  deviceId : Text
  deviceName : Msg
  publicKey : Text
  signingPublicKey : Option Text
deriving DecidableEq, Repr

/-- A row as the server sends it; nothing about it has been checked. -/
structure VaultItemRecord where
  id : Text
  kind : Text
  blobKey : Option Text
  keyEpoch : ℕ
  meta' : Text
  metaIv : Text
  revision : ℕ
deriving DecidableEq, Repr

/-- An entry whose metadata has been opened. -/
structure VaultEntry where
  record : VaultItemRecord
  meta' : Msg
deriving DecidableEq, Repr

structure Client where
  session : Session
  ring : Keyring
  spaceName : Option Msg
  entries : List VaultEntry
  /-- Rotations that the server has been asked for: the epoch and the new key. -/
  rotations : List (ℕ × Name)
deriving DecidableEq, Repr

/-- A key that is wrapped for a device, with where it is to be opened. -/
structure Wrap where
  recipient : Name
  context : Text
  payload : Msg
deriving DecidableEq, Repr

def Wrap.wrapped (b : Wrap) : Msg := wrapSecret b.recipient b.payload b.context

inductive Request where
  | createGroup (s : Session) (token : Text) (name : Seal) (issuedAt : ℤ)
  | pairingRequest (j : JoiningDevice) (invite : Option Seal)
  | pairingComplete (s : Session) (payload : PairingQrPayload) (package : Wrap) (token : Text)
      (name : Seal)
      (keyEpoch : ℕ) (issuedAt : ℤ)
  | rotateKey (s : Session) (epoch : ℕ) (wraps : List (Text × Wrap))
  | uploadFile (s : Session) (key : Text) (file : Seal)
  | sendMessage (s : Session) (id : Text) (keyEpoch : ℕ) (text : Option Seal)
      (file : Option (Text × Text))
      (meta' : Option Seal)
  | sendDeletion (s : Session) (id : Text) (keyEpoch : ℕ) (deletesMessageId : Text)
  | updateSpaceName (s : Session) (name : Option Seal) (keyEpoch : ℕ)
  | uploadVaultBlob (s : Session) (blobKey : Text) (content : Seal)
  | createVaultItem (s : Session) (id : Text) (parentId : Option Text) (kind : VaultItemKind)
      (blobKey : Option Text)
      (keyEpoch : ℕ) (meta' : Seal)
  | updateVaultItem (s : Session) (id : Text) (revision : ℕ) (blobKey : Option Text) (keyEpoch : ℕ)
      (meta' : Seal)
  | resealVault (s : Session) (keyEpoch : ℕ) (items : List (Text × ℕ × Seal))
deriving DecidableEq, Repr

section Body

variable (E : Encoding)

def Session.attests (s : Session) (deviceId publicKey signingPublicKey : Text) (issuedAt : ℤ) :
    AttestationFields :=
  ⟨s.groupId, deviceId, publicKey, signingPublicKey, s.deviceId, issuedAt⟩

/-- `createAttestation`. -/
def attestation (key : Name) (fields : AttestationFields) : Msg :=
  object [(literal "groupId", Msg.text fields.groupId),
    (literal "deviceId", Msg.text fields.deviceId),
    (literal "publicKey", Msg.text fields.publicKey),
    (literal "signingPublicKey", Msg.text fields.signingPublicKey),
    (literal "signerDeviceId", Msg.text fields.signerDeviceId),
    (literal "issuedAt", Msg.number fields.issuedAt),
    (literal "signature", signStatement key (.attestation fields))]

def deviceJson (id : Text) (keyPair signingKeyPair : Name) : Msg :=
  object [(literal "id", Msg.text id), (literal "publicKey", Msg.text (E.exportPublicKey keyPair)),
    (literal "signingPublicKey", Msg.text (E.exportPublicKey signingKeyPair))]

def nullable : Option Text → Nullable
  | none => .undefined
  | some value => .is value

/-- The signature of a message covers its ciphertexts as they are sent. -/
def messageFields (s : Session) (id : Text) (keyEpoch : ℕ) (text : Option Seal)
    (file : Option (Text × Text)) (meta' : Option Seal) : MessageSignatureFields Nullable where
  groupId := s.groupId
  messageId := id
  senderDeviceId := s.deviceId
  keyEpoch := keyEpoch
  encryptedPayload := nullable (text.map fun c => E.write (c.ciphertext E))
  iv := nullable (text.map Seal.iv)
  fileR2Key := nullable (file.map Prod.fst)
  fileIv := nullable (file.map Prod.snd)
  fileMeta := nullable (meta'.map fun c => E.write (c.ciphertext E))
  fileMetaIv := nullable (meta'.map Seal.iv)

namespace Request

/-- What a request has had signed, and by which key. -/
def statement : Request → Option (Name × Statements.Statement Nullable)
  | .createGroup s _ _ issuedAt => some (s.signingKeyPair, .attestation
      (s.attests s.deviceId (E.exportPublicKey s.keyPair)
        (E.exportPublicKey s.signingKeyPair) issuedAt))
  | .pairingComplete s payload _ _ _ _ issuedAt =>
      payload.signingPublicKey.map fun signingPublicKey =>
      (s.signingKeyPair,
        .attestation (s.attests payload.deviceId payload.publicKey signingPublicKey issuedAt))
  | .sendMessage s id keyEpoch text file meta' =>
      some (s.signingKeyPair, .message (messageFields E s id keyEpoch text file meta'))
  | .sendDeletion s id keyEpoch deletesMessageId =>
      some (s.signingKeyPair, .delete ⟨s.groupId, id, s.deviceId, keyEpoch, deletesMessageId⟩)
  | _ => none

def seals : Request → List Seal
  | .createGroup _ _ name _ => [name]
  | .pairingRequest _ invite => invite.toList
  | .pairingComplete _ _ _ _ name _ _ => [name]
  | .rotateKey _ _ _ => []
  | .uploadFile _ _ file => [file]
  | .sendMessage _ _ _ text _ meta' => text.toList ++ meta'.toList
  | .sendDeletion _ _ _ _ => []
  | .updateSpaceName _ name _ => name.toList
  | .uploadVaultBlob _ _ content => [content]
  | .createVaultItem _ _ _ _ _ _ meta' => [meta']
  | .updateVaultItem _ _ _ _ _ meta' => [meta']
  | .resealVault _ _ items => items.map fun item => item.2.2

def wraps : Request → List Wrap
  | .pairingComplete _ _ package _ _ _ _ => [package]
  | .rotateKey _ _ wraps => wraps.map Prod.snd
  | _ => []

/-- A field for text, and one for what is signed. -/
def signature (q : Request) : List (Text × Msg) :=
  optional (literal "signature") ((q.statement E).map fun p => signStatement p.1 p.2)

/-- The body of the request, its path included. -/
def body : Request → Msg
  | .createGroup s token name issuedAt =>
      object [(literal "groupId", Msg.text s.groupId),
        (literal "deviceAuthTokenHash", .hash (bytes token)),
        (literal "device", deviceJson E s.deviceId s.keyPair s.signingKeyPair),
        (literal "encryptedName", name.ciphertext E), (literal "nameIv", Msg.text name.iv),
        (literal "attestation", attestation s.signingKeyPair
          (s.attests s.deviceId (E.exportPublicKey s.keyPair)
            (E.exportPublicKey s.signingKeyPair) issuedAt))]
  | .pairingRequest j invite =>
      object ([(literal "pairingId", Msg.text j.pairingId),
        (literal "device", deviceJson E j.deviceId j.keyPair j.signingKeyPair)] ++
        optional (literal "sendOnly")
          (if j.sendOnly then some (Msg.text (literal "true")) else none) ++
        optional (literal "invite") (invite.map fun c => .pair (Msg.text c.iv) (c.ciphertext E)))
  | .pairingComplete s payload package token name keyEpoch issuedAt =>
      object ([(literal "pairingId", Msg.text payload.pairingId),
        (literal "wrappedPackage", package.wrapped),
        (literal "scannedPublicKey", Msg.text payload.publicKey)] ++
        optional (literal "scannedSigningPublicKey") (payload.signingPublicKey.map Msg.text) ++
        optional (literal "attestation") (payload.signingPublicKey.map fun signingPublicKey =>
          attestation s.signingKeyPair
            (s.attests payload.deviceId payload.publicKey signingPublicKey issuedAt)) ++
        [(literal "encryptedName", name.ciphertext E), (literal "nameIv", Msg.text name.iv),
        (literal "deviceAuthTokenHash", .hash (bytes token)),
          (literal "keyEpoch", Msg.number keyEpoch)])
  | .rotateKey _ epoch wraps =>
      object [(literal "epoch", Msg.number epoch), (literal "wraps", array (wraps.map fun p =>
        object [(literal "deviceId", Msg.text p.1), (literal "wrappedKey", p.2.wrapped)]))]
  | .uploadFile _ key file =>
      object [(literal "key", Msg.text key), (literal "data", file.ciphertext E)]
  | .sendMessage s id keyEpoch text file meta' =>
      object ([(literal "id", Msg.text id), (literal "keyEpoch", Msg.number keyEpoch)] ++
        optional (literal "encryptedPayload") (text.map (Seal.ciphertext E)) ++
        optional (literal "iv") (text.map fun c => Msg.text c.iv) ++
        optional (literal "fileR2Key") (file.map fun f => Msg.text f.1) ++
        optional (literal "fileIv") (file.map fun f => Msg.text f.2) ++
        optional (literal "fileMeta") (meta'.map (Seal.ciphertext E)) ++
        optional (literal "fileMetaIv") (meta'.map fun c => Msg.text c.iv) ++
        signature E (.sendMessage s id keyEpoch text file meta'))
  | .sendDeletion s id keyEpoch deletesMessageId =>
      object ([(literal "id", Msg.text id), (literal "keyEpoch", Msg.number keyEpoch),
        (literal "deletesMessageId", Msg.text deletesMessageId)] ++
        signature E (.sendDeletion s id keyEpoch deletesMessageId))
  | .updateSpaceName _ name keyEpoch =>
      object (optional (literal "encryptedName") (name.map (Seal.ciphertext E)) ++
        optional (literal "nameIv") (name.map fun c => Msg.text c.iv) ++
        [(literal "nameKeyEpoch", Msg.number keyEpoch)])
  | .uploadVaultBlob _ blobKey content =>
      object [(literal "blobKey", Msg.text blobKey), (literal "data", content.ciphertext E)]
  | .createVaultItem _ id parentId kind blobKey keyEpoch meta' =>
      object ([(literal "id", Msg.text id)] ++
        optional (literal "parentId") (parentId.map Msg.text) ++
        [(literal "kind", Msg.text kind.text)] ++
          optional (literal "blobKey") (blobKey.map Msg.text) ++
        [(literal "keyEpoch", Msg.number keyEpoch), (literal "meta", meta'.ciphertext E),
        (literal "metaIv", Msg.text meta'.iv)])
  | .updateVaultItem _ id revision blobKey keyEpoch meta' =>
      object ([(literal "id", Msg.text id), (literal "revision", Msg.number revision)] ++
        optional (literal "blobKey") (blobKey.map Msg.text) ++
        [(literal "keyEpoch", Msg.number keyEpoch), (literal "meta", meta'.ciphertext E),
        (literal "metaIv", Msg.text meta'.iv)])
  | .resealVault _ keyEpoch items =>
      object [(literal "keyEpoch", Msg.number keyEpoch),
        (literal "items", array (items.map fun item =>
        object [(literal "id", Msg.text item.1), (literal "revision", Msg.number item.2.1),
          (literal "meta", item.2.2.ciphertext E), (literal "metaIv", Msg.text item.2.2.iv)]))]

/-- The ciphertexts and the signature that the sender has made for it. -/
def made (q : Request) : List Msg :=
  q.seals.map (Seal.ciphertext E) ++ ((q.statement E).map fun p => signStatement p.1 p.2).toList

end Request
end Body

section Joining

variable (E : Encoding)

/-- The founding device attests its own keys. -/
def setUpNewSpace (s : Session) (groupKey : Name) (token iv : Text) (now : ℤ) (deviceName : Msg)
    (spaceName : Option Msg) : Client × Request :=
  (⟨s, createKeyring groupKey 1, spaceName, [], []⟩,
    .createGroup s token ⟨.name groupKey, .deviceName s.deviceId, iv, deviceName⟩ now)

def JoiningDevice.fields (j : JoiningDevice) : InviteSealFields :=
  ⟨j.pairingId, j.deviceId, E.exportPublicKey j.keyPair,
    E.exportPublicKey j.signingKeyPair, j.sendOnly⟩

/-- With an invitation the slot is the invitation's. -/
def createJoiningDevice (pairingId deviceId : Text) (keyPair signingKeyPair : Name)
    (sendOnly : Bool)
    (invite : Option Invite) (deviceName : Msg) (iv : Text) : JoiningDevice × Request :=
  let j :=
    ⟨(invite.map Invite.pairingId).getD pairingId, deviceId, keyPair, signingKeyPair, sendOnly⟩
  (j, .pairingRequest j (invite.map fun i => sealInvite i deviceName (j.fields E) iv))

def asText : Msg → Option Text
  | .data (.text value) => some value
  | _ => none

def asEpoch : Msg → Option ℕ
  | .data (.number (.ofNat n)) => some n
  | _ => none

/-- What becomes of a joining device once the package opens. -/
def pollLink (j : JoiningDevice) (wrappedPackage : Text) : Option Client := do
  let recovered ← unwrapSecret E j.keyPair wrappedPackage (pairingContext j.pairingId)
  let groupKey ← (field (literal "groupKey") recovered).bind importGroupKey
  let keyEpoch ← (field (literal "keyEpoch") recovered).bind asEpoch
  let groupId ← (field (literal "groupId") recovered).bind asText
  some ⟨⟨groupId, j.deviceId, j.keyPair, j.signingKeyPair⟩, createKeyring groupKey keyEpoch,
    field (literal "spaceName") recovered, [], []⟩

def addDevice (c : Client) (payload : PairingQrPayload) (token iv : Text) (now : ℤ)
    (identityBundles : List DeviceKeyBundle) : Option Request := do
  let currentGroupKey ← currentKey c.ring
  let recipient ← E.importPublicKey payload.publicKey
  let package : PairingPayload :=
    ⟨currentGroupKey, c.ring.current, token, c.session.groupId, identityBundles, c.spaceName⟩
  some (.pairingComplete c.session payload ⟨recipient, pairingContext payload.pairingId,
    package.json⟩ token
    ⟨.name currentGroupKey, .deviceName payload.deviceId, iv,
      payload.deviceName⟩ c.ring.current now)

/-- The server's account of who answered an invitation. -/
structure JoinerAnswer where
  deviceId : Text
  publicKey : Text
  signingPublicKey : Text
  sendOnly : Bool
  iv : Text
  ciphertext : Text
deriving DecidableEq, Repr

def JoinerAnswer.fields (a : JoinerAnswer) (invite : Invite) : InviteSealFields :=
  ⟨invite.pairingId, a.deviceId, a.publicKey, a.signingPublicKey, a.sendOnly⟩

def checkDeviceInvite (invite : Invite) (a : JoinerAnswer) : Option PairingQrPayload :=
  (openInvite E invite a.ciphertext a.iv (a.fields invite)).map fun deviceName =>
    ⟨invite.pairingId, a.deviceId, deviceName, a.publicKey, some a.signingPublicKey⟩

end Joining

section Rotating

variable (E : Encoding)

/-- The wraps for a listing, an epoch above the listing's. -/
def rotateGroupKey (c : Client) (keyEpoch : ℕ) (devices : List (Text × Text)) (newKey : Name) :
    Option (Client × Request) := do
  let epoch := keyEpoch + 1
  let wraps ← (devices.filter fun d => d.1 ≠ c.session.deviceId).mapM fun d =>
    (E.importPublicKey d.2).map fun recipient =>
      (d.1, (⟨recipient, rekeyContext c.session.groupId epoch d.1,
      object [(literal "groupKey", .name newKey), (literal "epoch", Msg.number epoch)]⟩ : Wrap))
  some ({ c with rotations := (epoch, newKey) :: c.rotations }, .rotateKey c.session epoch wraps)

/-- The server has accepted a rotation, as the epoch it says. -/
def rotationAccepted (c : Client) (epoch : ℕ) (newKey : Name) : Client :=
  { c with ring := withEpoch c.ring epoch newKey }

/-- One delivery, the ring and the highest epoch so far being given. -/
def adoptOne (c : Client) (p : Keyring × ℕ) (d : ℕ × Text) : Option (Keyring × ℕ) :=
  if (keyForEpoch p.1 d.1).isSome then some (p.1, max p.2 d.1)
  else (unwrapRotatedKey E c.session.keyPair d.1 d.2 c.session.groupId c.session.deviceId).map
    fun key => (withEpoch p.1 d.1 key, max p.2 d.1)

/-- What `adoptPendingKeys` awaits when every delivery is open. -/
inductive AdoptCall where
  | saveKeyring | ackKey | noteKeyRotated
deriving DecidableEq, Repr

/-- The ring that is stored, the epoch the server is told, the one that is noted, and the ring that
is returned unless something is thrown. -/
structure Adoption where
  saved : Option Keyring
  acked : Option ℕ
  noted : Option ℕ
  returned : Option Keyring
deriving DecidableEq, Repr

/-- The calls after the last delivery. An epoch counts as acked also when no answer arrives. -/
def keepAdopted (ring updated : Keyring) (highest : ℕ) (succeeds : AdoptCall → Bool) : Adoption :=
  if succeeds .saveKeyring then
    let acked := if 0 < highest then some highest else none
    if acked.isSome && !succeeds .ackKey then ⟨some updated, acked, none, none⟩
    else if updated = ring then ⟨some updated, acked, none, some updated⟩
    else if succeeds .noteKeyRotated then
      ⟨some updated, acked, some updated.current, some updated⟩
    else ⟨some updated, acked, none, none⟩
  else ⟨none, none, none, none⟩

def adoptPendingKeys (c : Client) (deliveries : List (ℕ × Text)) (succeeds : AdoptCall → Bool) :
    Adoption :=
  if deliveries = [] then ⟨none, none, none, some c.ring⟩
  else match (deliveries.mergeSort fun a b => a.1 ≤ b.1).foldlM (adoptOne E c) (c.ring, 0) with
    | none => ⟨none, none, none, none⟩
    | some p => keepAdopted c.ring p.1 p.2 succeeds

theorem keepAdopted_saved (ring updated : Keyring) (highest : ℕ) (succeeds : AdoptCall → Bool) :
    (keepAdopted ring updated highest succeeds).saved =
      if succeeds .saveKeyring then some updated else none := by
  simp only [keepAdopted]
  split_ifs <;> rfl

variable {E} in
/-- Nothing is stored but the ring that all deliveries make. -/
theorem adoptPendingKeys_saved {c : Client} {deliveries : List (ℕ × Text)}
    {succeeds : AdoptCall → Bool} {ring : Keyring}
    (h : (adoptPendingKeys E c deliveries succeeds).saved = some ring) : ∃ highest,
      (deliveries.mergeSort fun a b => a.1 ≤ b.1).foldlM (adoptOne E c) (c.ring, 0) =
        some (ring, highest) := by
  unfold adoptPendingKeys at h
  split at h
  · cases h
  · split at h
    · cases h
    · next p hp =>
      rw [keepAdopted_saved] at h
      obtain ⟨-, h⟩ := Option.ite_none_right_eq_some.mp h
      exact ⟨p.2, hp.trans (by rw [← Option.some.inj h])⟩

end Rotating

section Sending

variable (E : Encoding)

structure OutgoingFile where
  r2Key : Text
  iv : Text
  name : Msg
  size : ℕ
  mime : Text
  data : Msg
deriving DecidableEq, Repr

structure OutgoingMessage where
  id : Text
  text : Option Msg
  file : Option OutgoingFile
  batch : Option (Text × ℕ × ℕ)
  viewOnce : Bool
  /-- The epoch of an earlier try. -/
  keyEpoch : Option ℕ
deriving DecidableEq, Repr

def pinEpoch (ring : Keyring) (keyEpoch : Option ℕ) : Option (ℕ × Name) :=
  match keyEpoch.bind fun pinned => (keyForEpoch ring pinned).map fun key => (pinned, key) with
  | some p => some p
  | none => (currentKey ring).map fun key => (ring.current, key)

def metaFields (m : OutgoingMessage) : List (Text × Msg) :=
  (m.file.map fun f => [(literal "name", f.name), (literal "size", Msg.number f.size),
    (literal "mime", Msg.text f.mime)]).getD [] ++
  (m.batch.map fun b =>
    [(literal "batchId", Msg.text b.1), (literal "batchIndex", Msg.number b.2.1),
    (literal "batchCount", Msg.number b.2.2)]).getD [] ++
  optional (literal "viewOnce") (if m.viewOnce then some (Msg.text (literal "true")) else none)

/-- Nothing when there is nothing to say. -/
def metaFor (m : OutgoingMessage) : Option Msg :=
  if metaFields m = [] then none else some (object (metaFields m))

/-- The file goes up first, its vector being pinned already. -/
def sendQueuedContent (c : Client) (m : OutgoingMessage) (textIv metaIv : Text) :
    Option (List Request) := do
  let (epoch, key) ← pinEpoch c.ring m.keyEpoch
  let uploads :=
    m.file.map fun f =>
      Request.uploadFile c.session f.r2Key ⟨.name key, .messageFile m.id, f.iv, f.data⟩
  some (uploads.toList ++ [.sendMessage c.session m.id epoch
    (m.text.map fun text => ⟨.name key, .messageText m.id, textIv, text⟩) (m.file.map fun f =>
      (f.r2Key, f.iv))
    ((metaFor m).map fun meta' => ⟨.name key, .messageMeta m.id, metaIv, meta'⟩)])

def sendQueuedDeletion (c : Client) (id : Text) (keyEpoch : Option ℕ) (deletesMessageId : Text) :
    Option Request :=
  (pinEpoch c.ring keyEpoch).map fun p => .sendDeletion c.session id p.1 deletesMessageId

def publishSpaceName (c : Client) (iv : Text) : Option Request :=
  (currentKey c.ring).map fun key => .updateSpaceName c.session
    (c.spaceName.map fun name => ⟨.name key, .spaceName c.session.groupId, iv, name⟩) c.ring.current

/-- The name in a record, which the client takes on; `none` if it cannot be read here. -/
def readSpaceName (c : Client) (record : Option (Text × Text)) (nameKeyEpoch : ℕ) :
    Option (Option Msg) :=
  match record with
  | none => some none
  | some (encryptedName, nameIv) => (keyForEpoch c.ring nameKeyEpoch).bind fun key =>
      (decrypt E (.name key) encryptedName nameIv
        (Place.spaceName c.session.groupId).context).map some

end Sending

section Receiving

variable (E : Encoding)

structure PendingMessage where
  id : Text
  senderDeviceId : Text
  keyEpoch : ℕ
  encryptedPayload : Option Text
  iv : Option Text
  fileR2Key : Option Text
  fileIv : Option Text
  fileMeta : Option Text
  fileMetaIv : Option Text
  signature : Option Text
deriving DecidableEq, Repr

/-- The row of a message as the server hands it out, when it changes nothing. -/
def delivered (s : Session) (id : Text) (keyEpoch : ℕ) (text : Option Seal)
    (file : Option (Text × Text)) (meta' : Option Seal) : PendingMessage where
  id := id
  senderDeviceId := s.deviceId
  keyEpoch := keyEpoch
  encryptedPayload := text.map fun c => E.write (c.ciphertext E)
  iv := text.map Seal.iv
  fileR2Key := file.map Prod.fst
  fileIv := file.map Prod.snd
  fileMeta := meta'.map fun c => E.write (c.ciphertext E)
  fileMetaIv := meta'.map Seal.iv
  signature := some (E.write (signStatement s.signingKeyPair
    (.message (messageFields E s id keyEpoch text file meta'))))

/-- A string that is there and not empty. -/
def given (value : Option Text) : Option Text := value.filter fun text => text ≠ []

def orNull : Option Text → Nullable
  | none => .null
  | some value => .is value

def PendingMessage.fields (m : PendingMessage) (groupId : Text) : MessageSignatureFields Nullable :=
  ⟨groupId, m.id, m.senderDeviceId, m.keyEpoch, orNull m.encryptedPayload, orNull m.iv,
    orNull m.fileR2Key,
    orNull m.fileIv, orNull m.fileMeta, orNull m.fileMetaIv⟩

inductive SignatureVerdict where
  | verified | unverified | invalid
deriving DecidableEq, Repr

/-- By the signing key that is pinned for the device, if there is one. -/
def verifyDeviceSignature (signingPublicKey : Option Text)
    (statement : Statements.Statement Nullable) (signature : Option Text) :
    SignatureVerdict :=
  match given signingPublicKey, given signature with
  | none, _ => .unverified
  | some _, none => .invalid
  | some key,
      some signature => if verifyStatement E key statement signature then .verified else .invalid

/-- A payload that is there is opened; one that never opens is given up in the end, which
corrupts the message. -/
def openPart (key : Name) (payload iv : Option Text) (place : Place) (exhausted : Bool) :
    Option (Option Msg × Bool) :=
  match given payload, given iv with
  | some payload, some iv =>
      match decrypt E (.name key) payload iv place.context with
      | some m => some (some m, false)
      | none => if exhausted then some (none, true) else none
  | _, _ => some (none, false)

structure LocalMessage where
  keyEpoch : ℕ
  senderDeviceId : Text
  senderVerified : SignatureVerdict
  text : Option Msg
  meta' : Option Msg
  file : Option (Text × Text)
  corrupted : Bool
deriving DecidableEq, Repr

/-- `none` leaves the message pending. -/
def registerIncoming (c : Client) (signingPublicKey : Option Text) (m : PendingMessage)
    (textExhausted metaExhausted : Bool) : Option LocalMessage := do
  let key ← keyForEpoch c.ring m.keyEpoch
  let text ← openPart E key m.encryptedPayload m.iv (.messageText m.id) textExhausted
  let meta' ← openPart E key m.fileMeta m.fileMetaIv (.messageMeta m.id) metaExhausted
  some {
    keyEpoch := m.keyEpoch
    senderDeviceId := m.senderDeviceId
    senderVerified := verifyDeviceSignature E signingPublicKey
      (.message (m.fields c.session.groupId)) m.signature
    text := text.1
    meta' := meta'.1
    file := meta'.1.bind fun _ => (given m.fileR2Key).bind fun r2Key =>
      (given m.fileIv).map fun iv => (r2Key, iv)
    corrupted := text.2 || meta'.2 }

def deletionFields (c : Client) (m : PendingMessage) (deletesMessageId : Text) :
    DeleteSignatureFields :=
  ⟨c.session.groupId, m.id, m.senderDeviceId, m.keyEpoch, deletesMessageId⟩

/-- Whether an order to delete a message is followed. -/
def applyIncomingDeletion (c : Client) (signingPublicKey : Option Text) (m : PendingMessage)
    (deletesMessageId : Text) :
    Bool :=
  verifyDeviceSignature E signingPublicKey (.delete (deletionFields c m deletesMessageId))
    m.signature ≠ .invalid

end Receiving

section Vault

variable (E : Encoding)

def sealMeta (c : Client) (id kind : Text) (meta' : Msg) (iv : Text) : Option Seal :=
  (currentKey c.ring).map fun key => ⟨.name key, .vaultMeta c.session.groupId id kind, iv, meta'⟩

def openVaultMeta (c : Client) (record : VaultItemRecord) : Option Msg :=
  (keyForEpoch c.ring record.keyEpoch).bind fun key =>
    decrypt E (.name key) record.meta' record.metaIv
      (Place.vaultMeta c.session.groupId record.id record.kind).context

/-- A version of an item's content, under a key of its own. -/
structure Content where
  blobKey : Text
  contentKey : Name
  iv : Text
  data : Msg
  size : ℕ
deriving DecidableEq, Repr

def uploadContent (c : Client) (content : Content) : Request :=
  .uploadVaultBlob c.session content.blobKey
    ⟨.name content.contentKey, .vaultBlob c.session.groupId content.blobKey, content.iv,
      content.data⟩

/-- `content.meta`. -/
def Content.json (content : Content) : List (Text × Msg) :=
  [(literal "contentKey", .name content.contentKey), (literal "contentIv", Msg.text content.iv),
    (literal "size", Msg.number content.size)]

def noteMeta (title excerpt : Msg) (content : Content) : Msg :=
  object ((literal "name", title) :: content.json ++ [(literal "excerpt", excerpt)])

def fileMeta (name : Msg) (mime : Text) (content : Content) : Msg :=
  object ((literal "name", name) :: (literal "mime", Msg.text mime) :: content.json)

def createVaultFolder (c : Client) (id : Text) (parentId : Option Text) (name : Msg) (iv : Text) :
    Option (Msg × List Request) :=
  let meta' := object [(literal "name", name)]
  (sealMeta c id VaultItemKind.folder.text meta' iv).map fun sealed =>
    (meta', [.createVaultItem c.session id parentId .folder none c.ring.current sealed])

def createVaultNote (c : Client) (id : Text) (parentId : Option Text) (title excerpt : Msg)
    (content : Content) (iv : Text) : Option (Msg × List Request) :=
  let meta' := noteMeta title excerpt content
  (sealMeta c id VaultItemKind.note.text meta' iv).map fun sealed =>
    (meta', [uploadContent c content,
    .createVaultItem c.session id parentId .note (some content.blobKey) c.ring.current sealed])

def createVaultFile (c : Client) (id : Text) (parentId : Option Text) (name : Msg) (mime : Text)
    (content : Content) (iv : Text) : Option (Msg × List Request) :=
  let meta' := fileMeta name mime content
  (sealMeta c id VaultItemKind.file.text meta' iv).map fun sealed =>
    (meta', [uploadContent c content,
    .createVaultItem c.session id parentId .file (some content.blobKey) c.ring.current sealed])

def updateVaultNote (c : Client) (entry : VaultEntry) (title excerpt : Msg) (content : Content)
    (iv : Text) :
    Option (Msg × List Request) :=
  let meta' := noteMeta title excerpt content
  (sealMeta c entry.record.id entry.record.kind meta' iv).map fun sealed =>
    (meta', [uploadContent c content,
    .updateVaultItem c.session entry.record.id entry.record.revision (some content.blobKey)
      c.ring.current sealed])

def renameVaultItem (c : Client) (entry : VaultEntry) (name : Msg) (iv : Text) :
    Option (Msg × List Request) :=
  let meta' := setField (literal "name") name entry.meta'
  (sealMeta c entry.record.id entry.record.kind meta' iv).map fun sealed =>
    (meta', [.updateVaultItem c.session entry.record.id entry.record.revision none
      c.ring.current sealed])

/-- One batch of `resealVault`, with a vector for each entry. -/
def resealVault (c : Client) (batch : List (VaultEntry × Text)) : Option Request :=
  ((batch.filter fun p => p.1.record.keyEpoch < c.ring.current).mapM fun p =>
    (sealMeta c p.1.record.id p.1.record.kind p.1.meta' p.2).map fun sealed =>
      (p.1.record.id, p.1.record.revision, sealed)).map (.resealVault c.session c.ring.current)

def readVaultContent (c : Client) (entry : VaultEntry) (ciphertext : Text) : Option Msg := do
  let blobKey ← entry.record.blobKey
  let contentKey ← (field (literal "contentKey") entry.meta').bind importGroupKey
  let contentIv ← (field (literal "contentIv") entry.meta').bind asText
  decrypt E (.name contentKey) ciphertext contentIv
    (Place.vaultBlob c.session.groupId blobKey).context

end Vault

end SendSelf.EndToEnd
