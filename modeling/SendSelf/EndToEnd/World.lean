import SendSelf.EndToEnd.Space

/-!
# Runs against an active server

An event is one piece of work of one client, with the answers the server gives it. In a trusted
run the random values a device draws are its own, whoever is let in from epoch `r` on is a
device of the space, and a key is taken only from a package that a device of the space has
deposited. Everything else the server says is up to it: records, rosters, ids, epochs and
ciphertexts are anything it can put together. Before epoch `r` the server may know the group
key, as it does when a device that has since been revoked has told it.
-/
namespace SendSelf.EndToEnd
open Intruder Statements Framing Runs

structure World where
  clients : List Client
  joining : List JoiningDevice
  sent : List Request

inductive Event where
  | createSpace (s : Session) (groupKey : Name) (token iv : Text) (now : ℤ) (deviceName : Msg)
      (spaceName : Option Msg)
  | startLinking (pairingId deviceId : Text) (keyPair signingKeyPair : Name) (sendOnly : Bool)
      (invite : Option Invite)
      (deviceName : Msg) (iv : Text)
  | pollLink (j : JoiningDevice) (wrappedPackage : Text)
  | addDeviceFromQr (c : Client) (payload : PairingQrPayload) (token iv : Text) (now : ℤ)
      (identityBundles : List DeviceKeyBundle)
  /-- `checkDeviceInvite` and, the person having agreed, `addDevice`. -/
  | approveInvitedDevice (c : Client) (invite : Invite) (answer : JoinerAnswer)
      (token iv : Text) (now : ℤ)
      (identityBundles : List DeviceKeyBundle)
  | rotateGroupKey (c : Client) (keyEpoch : ℕ) (devices : List (Text × Text)) (newKey : Name)
  | rotationAccepted (c : Client) (asked epoch : ℕ) (newKey : Name)
  /-- With what comes of the calls it makes. -/
  | adoptPendingKeys (c : Client) (deliveries : List (ℕ × Text)) (succeeds : AdoptCall → Bool)
  | sendQueuedContent (c : Client) (m : OutgoingMessage) (textIv metaIv : Text)
  | sendQueuedDeletion (c : Client) (id : Text) (keyEpoch : Option ℕ) (deletesMessageId : Text)
  | renameSpace (c : Client) (name : Option Msg)
  | publishSpaceName (c : Client) (iv : Text)
  | adoptSpaceName (c : Client) (record : Option (Text × Text)) (nameKeyEpoch : ℕ)
  | openVaultMeta (c : Client) (record : VaultItemRecord)
  /-- Each with the server's record of the item as it is afterwards. -/
  | createVaultFolder (c : Client) (id : Text) (parentId : Option Text) (name : Msg) (iv : Text)
      (item : VaultItemRecord)
  | createVaultNote (c : Client) (id : Text) (parentId : Option Text) (title excerpt : Msg)
      (content : Content) (iv : Text)
      (item : VaultItemRecord)
  | createVaultFile (c : Client) (id : Text) (parentId : Option Text) (name : Msg) (mime : Text)
      (content : Content)
      (iv : Text) (item : VaultItemRecord)
  | updateVaultNote (c : Client) (entry : VaultEntry) (title excerpt : Msg)
      (content : Content) (iv : Text)
      (item : VaultItemRecord)
  | renameVaultItem (c : Client) (entry : VaultEntry) (name : Msg) (iv : Text)
      (item : VaultItemRecord)
  | resealVault (c : Client) (batch : List (VaultEntry × Text))

namespace World

variable (E : Encoding)

/-- Nobody has done anything yet. -/
def start : World := ⟨[], [], []⟩

def add (w : World) (clients : List Client) (requests : List Request) : World :=
  { w with clients := clients ++ w.clients, sent := requests ++ w.sent }

/-- What a vault operation leaves behind, if it comes off. -/
def saved (w : World) (c : Client) (item : VaultItemRecord) (result : Option (Msg × List Request)) :
    Option World :=
  result.map fun p => w.add [{ c with entries := ⟨item, p.1⟩ :: c.entries }] p.2

def step (w : World) : Event → Option World
  | .createSpace s groupKey token iv now deviceName spaceName =>
      let p := setUpNewSpace s groupKey token iv now deviceName spaceName
      some (w.add [p.1] [p.2])
  | .startLinking pairingId deviceId keyPair signingKeyPair sendOnly invite deviceName iv =>
      let p :=
        createJoiningDevice E pairingId deviceId keyPair signingKeyPair sendOnly invite
          deviceName iv
      some { w with joining := p.1 :: w.joining, sent := p.2 :: w.sent }
  | .pollLink j wrappedPackage =>
      if j ∈ w.joining then (EndToEnd.pollLink E j wrappedPackage).map fun c =>
        w.add [c] [] else none
  | .addDeviceFromQr c payload token iv now identityBundles =>
      if c ∈ w.clients then (addDevice E c payload token iv now identityBundles).map fun q =>
        w.add [] [q] else none
  | .approveInvitedDevice c invite answer token iv now identityBundles =>
      if c ∈ w.clients then (checkDeviceInvite E invite answer).bind fun payload =>
        (addDevice E c payload token iv now identityBundles).map fun q => w.add [] [q] else none
  | .rotateGroupKey c keyEpoch devices newKey =>
      if c ∈ w.clients then (EndToEnd.rotateGroupKey E c keyEpoch devices newKey).map fun p =>
        w.add [p.1] [p.2]
      else none
  | .rotationAccepted c asked epoch newKey =>
      if c ∈ w.clients ∧ (asked, newKey) ∈ c.rotations then
        some (w.add [EndToEnd.rotationAccepted c epoch newKey] [])
      else none
  | .adoptPendingKeys c deliveries succeeds =>
      if c ∈ w.clients then
        some (w.add ((EndToEnd.adoptPendingKeys E c deliveries succeeds).saved.map fun ring =>
          { c with ring }).toList [])
      else none
  | .sendQueuedContent c m textIv metaIv =>
      if c ∈ w.clients then (EndToEnd.sendQueuedContent c m textIv metaIv).map fun qs =>
        w.add [] qs else none
  | .sendQueuedDeletion c id keyEpoch deletesMessageId =>
      if c ∈ w.clients then
        (EndToEnd.sendQueuedDeletion c id keyEpoch deletesMessageId).map fun q => w.add [] [q]
      else none
  | .renameSpace c name =>
      if c ∈ w.clients then some (w.add [{ c with spaceName := name }] []) else none
  | .publishSpaceName c iv =>
      if c ∈ w.clients then (EndToEnd.publishSpaceName c iv).map fun q => w.add [] [q] else none
  | .adoptSpaceName c record nameKeyEpoch =>
      if c ∈ w.clients then (readSpaceName E c record nameKeyEpoch).map fun name =>
        w.add [{ c with spaceName := name }] []
      else none
  | .openVaultMeta c record =>
      if c ∈ w.clients then (EndToEnd.openVaultMeta E c record).map fun meta' =>
        w.add [{ c with entries := ⟨record, meta'⟩ :: c.entries }] [] else none
  | .createVaultFolder c id parentId name iv item =>
      if c ∈ w.clients then w.saved c item
        (EndToEnd.createVaultFolder c id parentId name iv) else none
  | .createVaultNote c id parentId title excerpt content iv item =>
      if c ∈ w.clients then w.saved c item
        (EndToEnd.createVaultNote c id parentId title excerpt content iv) else none
  | .createVaultFile c id parentId name mime content iv item =>
      if c ∈ w.clients then w.saved c item
        (EndToEnd.createVaultFile c id parentId name mime content iv) else none
  | .updateVaultNote c entry title excerpt content iv item =>
      if c ∈ w.clients ∧ entry ∈ c.entries then
        w.saved c item (EndToEnd.updateVaultNote c entry title excerpt content iv) else none
  | .renameVaultItem c entry name iv item =>
      if c ∈ w.clients ∧
        entry ∈ c.entries then w.saved c item (EndToEnd.renameVaultItem c entry name iv) else none
  | .resealVault c batch =>
      if c ∈ w.clients ∧ ∀ p ∈ batch, p.1 ∈ c.entries then
        (EndToEnd.resealVault c batch).map fun q => w.add [] [q] else none

def Seen (w : World) (t : Msg) : Prop := ∃ q ∈ w.sent, q.body E = t

/-- What the server can put together. -/
def Knows (w : World) (t : Msg) : Prop := Derives Guarded (w.Seen E) t

/-- The server can answer with the string. -/
def Delivers (w : World) (text : Text) : Prop := ∀ m, E.read text = some m → w.Knows E m

/-- The string is a package that a device has deposited. -/
def Deposited (w : World) (text : Text) : Prop :=
  ∀ m, E.read text = some m → ∃ q ∈ w.sent, ∃ b ∈ q.wraps, b.wrapped = m

/-- What takes something guarded to make stands in it only if a device has made it. -/
def Vouched (w : World) (m : Msg) : Prop :=
  ∀ u, Protected Guarded u → Occurs u m → ∃ q ∈ w.sent, u ∈ q.made E

/-- What a person writes while the space is at an epoch: nothing secret before epoch `r`. -/
def Written (r : ℕ) (w : World) (epoch : ℕ) (m : Msg) : Prop :=
  (epoch < r → Safe Guarded m) ∧ w.Vouched E m

variable (r : ℕ)

/-- A random id or vector, in base64url. -/
def Drawn (text : Text) : Prop := Base64Url text ∧ text ≠ []

/-- A device draws a key that it keeps from epoch `r` on. -/
def Draws (epoch : ℕ) (key : Name) : Prop := Guarded key ↔ r ≤ epoch

/-- The published key is that of a device of the space. -/
def Member (publicKey : Text) : Prop := ∃ key, E.importPublicKey publicKey = some key ∧ Guarded key

def Content.Trusted (w : World) (epoch : ℕ) (content : Content) : Prop :=
  Draws r epoch content.contentKey ∧ w.Written E r epoch content.data

def Trusted (w : World) : Event → Prop
  | .createSpace s groupKey _ _ _ deviceName spaceName =>
      Guarded s.keyPair ∧ Guarded s.signingKeyPair ∧ Draws r 1 groupKey ∧ Base64Url s.groupId ∧
        Base64Url s.deviceId ∧ w.Written E r 1 deviceName ∧
        ∀ name ∈ spaceName, w.Written E r 1 name
  | .startLinking pairingId deviceId keyPair signingKeyPair _ invite deviceName _ =>
      Guarded keyPair ∧ Guarded signingKeyPair ∧ Base64Url pairingId ∧ Base64Url deviceId ∧
        (∀ i ∈ invite, Base64Url i.pairingId ∧ (¬ Guarded i.secret → Safe Guarded deviceName)) ∧
        w.Vouched E deviceName
  | .pollLink _ wrappedPackage => w.Deposited E wrappedPackage
  | .addDeviceFromQr c payload _ _ _ _ =>
      (r ≤ c.ring.current → Member E payload.publicKey) ∧
        w.Written E r c.ring.current payload.deviceName
  | .approveInvitedDevice c invite answer _ _ _ _ =>
      (r ≤ c.ring.current → Guarded invite.secret) ∧ w.Delivers E answer.ciphertext ∧
        ∀ payload ∈ checkDeviceInvite E invite answer, c.ring.current < r →
        Safe Guarded payload.deviceName
  | .rotateGroupKey c keyEpoch devices newKey =>
      Draws r (keyEpoch + 1) newKey ∧
        (r ≤ keyEpoch + 1 → ∀ d ∈ devices, d.1 ≠ c.session.deviceId → Member E d.2)
  | .rotationAccepted _ asked epoch _ => epoch = asked
  | .adoptPendingKeys _ deliveries _ => ∀ d ∈ deliveries, w.Deposited E d.2
  | .sendQueuedContent c m textIv metaIv =>
      Base64Url m.id ∧ Drawn textIv ∧ Drawn metaIv ∧ (∀ f ∈ m.file, Drawn f.r2Key ∧ Drawn f.iv) ∧
        ∀ p ∈ pinEpoch c.ring m.keyEpoch, (∀ text ∈ m.text, w.Written E r p.1 text) ∧
          ∀ f ∈ m.file, w.Written E r p.1 f.name ∧ w.Written E r p.1 f.data
  | .renameSpace c name => ∀ text ∈ name, w.Written E r c.ring.current text
  | .adoptSpaceName _ record _ => ∀ p ∈ record, w.Delivers E p.1
  | .openVaultMeta _ record => w.Delivers E record.meta'
  | .createVaultFolder c _ _ name _ _ => w.Written E r c.ring.current name
  | .createVaultNote c _ _ title excerpt content _ _ => w.Written E r c.ring.current title ∧
      w.Written E r c.ring.current excerpt ∧ Content.Trusted E r w c.ring.current content
  | .createVaultFile c _ _ name _ content _ _ =>
      w.Written E r c.ring.current name ∧ Content.Trusted E r w c.ring.current content
  | .updateVaultNote c _ title excerpt content _ _ => w.Written E r c.ring.current title ∧
      w.Written E r c.ring.current excerpt ∧ Content.Trusted E r w c.ring.current content
  | .renameVaultItem c _ name _ _ => w.Written E r c.ring.current name
  | .sendQueuedDeletion _ id _ _ => Base64Url id
  | .publishSpaceName _ _ | .resealVault _ _ => True

/-- Worlds reached by trusted runs. -/
def Reached (w : World) : Prop := ReachableVia (World.step E) (World.Trusted E r) World.start w

end World
end SendSelf.EndToEnd
