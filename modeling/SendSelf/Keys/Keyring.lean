import SendSelf.Library.Sealing
import SendSelf.Library.WriteOnce

/-!
# GroupKeys, keyrings and what carries them

A space has a sequence of GroupKeys identified by epoch. A keyring keeps every
epoch a device has held, together with the newest one, which encrypts new
content. A key travels in two kinds of sealed box only: a rotated key, bound to
the epoch and the device it was wrapped for, and a pairing package, bound to the
pairing slot it is left in.
-/
namespace SendSelf

abbrev GroupId := ℕ
abbrev DeviceId := ℕ
abbrev PairingId := ℕ
abbrev PublicKey := ℕ
abbrev SigningKey := ℕ
abbrev GroupKey := ℕ
abbrev Token := ℕ

/-- The server stores only the hash of a bearer token. -/
structure TokenHash where
  preimage : Token
deriving DecidableEq, Repr

def sha256Hex (t : Token) : TokenHash := ⟨t⟩

/-- The epoch of a group nobody has rotated yet. -/
def INITIAL_KEY_EPOCH : ℕ := 1

/-- `keys` is the source's `Map` from epochs to keys, `κ` being what a key is. -/
structure Keyring (κ : Type := GroupKey) where
  current : ℕ
  keys : List (ℕ × κ)
deriving DecidableEq, Repr

section Rings

variable {κ : Type}

def createKeyring (key : κ) (epoch : ℕ) : Keyring κ := ⟨epoch, [(epoch, key)]⟩

def keyForEpoch (r : Keyring κ) (epoch : ℕ) : Option κ := r.keys.lookup epoch

/-- `none` is the throw of a keyring which lacks its own current epoch. -/
def currentKey (r : Keyring κ) : Option κ := keyForEpoch r r.current

/-- `current` only moves forward, whatever order the epochs arrive in. -/
def withEpoch (r : Keyring κ) (epoch : ℕ) (key : κ) : Keyring κ :=
  ⟨max r.current epoch, (epoch, key) :: r.keys.filter fun p => p.1 ≠ epoch⟩

theorem keyForEpoch_createKeyring {key k : κ} {epoch e : ℕ} :
    keyForEpoch (createKeyring key epoch) e = some k ↔ e = epoch ∧ key = k := by
  by_cases h : e = epoch
  · subst h
    simp [keyForEpoch, createKeyring]
  · have he : (e == epoch) = false := by simpa using h
    simp [keyForEpoch, createKeyring, List.lookup_cons, he, h]

theorem lookup_filter_ne {l : List (ℕ × κ)} {e epoch : ℕ} (h : e ≠ epoch) :
    (l.filter fun p => p.1 ≠ epoch).lookup e = l.lookup e := by
  induction l with
  | nil => rfl
  | cons p l ih =>
    by_cases hp : p.1 = epoch
    · have he : (e == p.1) = false := by simpa [hp] using h
      rw [List.filter_cons_of_neg (by simpa using hp), List.lookup_cons, he, ih]
    · rw [List.filter_cons_of_pos (by simpa using hp), List.lookup_cons, List.lookup_cons, ih]

/-- Adopting a key writes one entry of the ring. -/
theorem keyForEpoch_withEpoch (r : Keyring κ) (epoch : ℕ) (key : κ) :
    keyForEpoch (withEpoch r epoch key) = WriteOnce.record (keyForEpoch r) epoch key := by
  funext e
  by_cases h : e = epoch
  · subst h
    simp [keyForEpoch, withEpoch]
  · have he : (e == epoch) = false := by simpa using h
    rw [WriteOnce.record_ne h]
    simp only [keyForEpoch, withEpoch, List.lookup_cons, he]
    exact lookup_filter_ne h

end Rings

/-- What a sealed box is bound to (the additional data of the cipher). -/
inductive Context where
  | rekey (groupId : GroupId) (epoch : ℕ) (deviceId : DeviceId)
  | pairing (pairingId : PairingId)
deriving DecidableEq, Repr

structure RekeyPayload where
  groupKey : GroupKey
  epoch : ℕ
deriving DecidableEq, Repr

abbrev WrappedKey := Box PublicKey Context RekeyPayload

def wrapRotatedKey (recipient : PublicKey) (groupKey : GroupKey) (groupId : GroupId) (epoch : ℕ)
    (deviceId : DeviceId) : WrappedKey :=
  ⟨recipient, .rekey groupId epoch deviceId, ⟨groupKey, epoch⟩⟩

/-- A key waiting for a device, as a poll delivers it. -/
structure PendingKeyDelivery where
  epoch : ℕ
  wrappedKey : WrappedKey
deriving DecidableEq, Repr

def unwrapRotatedKey (key : PublicKey) (d : PendingKeyDelivery) (groupId : GroupId)
    (deviceId : DeviceId) : Option GroupKey :=
  (d.wrappedKey.openWith key (.rekey groupId d.epoch deviceId)).map RekeyPayload.groupKey

@[simp] theorem unwrapRotatedKey_wrap (key : PublicKey) (k : GroupKey) (g : GroupId) (e : ℕ)
    (d : DeviceId) :
    unwrapRotatedKey key ⟨e, wrapRotatedKey key k g e d⟩ g d = some k := by
  simp [unwrapRotatedKey, wrapRotatedKey]

theorem unwrapRotatedKey_eq_some {key : PublicKey} {d : PendingKeyDelivery} {g : GroupId}
    {i : DeviceId} {k : GroupKey} (h : unwrapRotatedKey key d g i = some k) :
    d.wrappedKey.recipient = key ∧ d.wrappedKey.payload.groupKey = k := by
  obtain ⟨p, hp, rfl⟩ := Option.map_eq_some_iff.mp h
  obtain ⟨hr, -, rfl⟩ := Box.openWith_eq_some.mp hp
  exact ⟨hr, rfl⟩

/-- What an existing device hands to the one it adds. -/
structure PairingPayload where
  groupKey : GroupKey
  keyEpoch : ℕ
  deviceAuthToken : Token
  groupId : GroupId
deriving DecidableEq, Repr

abbrev WrappedPackage := Box PublicKey Context PairingPayload

def wrapPairingPackage (recipient : PublicKey) (payload : PairingPayload) (pairingId : PairingId) :
    WrappedPackage := ⟨recipient, .pairing pairingId, payload⟩

def unwrapPairingPackage (key : PublicKey) (p : WrappedPackage) (pairingId : PairingId) :
    Option PairingPayload := p.openWith key (.pairing pairingId)

end SendSelf
