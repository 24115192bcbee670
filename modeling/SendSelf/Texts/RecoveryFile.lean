import SendSelf.Library.Utf16
import SendSelf.Lock.AtRest
import SendSelf.Texts.RecoveryCode

/-!
# Recovery files

A file holds the secrets of one space, sealed under a key that the recovery code, a salt and a
number of rounds give. The code is shown once; it is read however it is written down. Restoring
adds a space with exactly the secrets of the file. A file that is none and a code that is another
one change nothing, and a space that is not stored or does not start is forgotten again. It stays
when the write that follows its registration fails, which is before anything is cleaned up, or when
forgetting it fails; no other space is touched in any case.
-/
namespace SendSelf.Recovery
open Utf16

/-- `RECOVERY_KIND` and the kind of files from before the new name; each has its own context. -/
inductive RecoveryKind where
  | current | legacy
deriving DecidableEq, Repr

structure RecoveryKey where
  passphrase : List Char
  salt : List UInt8
  iterations : ℕ
deriving DecidableEq, Repr

structure RecoveryPayload where
  session : Session
  keyring : Keyring
  deviceKeyPair : SerializedKeyPair
  signingKeyPair : Option SerializedKeyPair
  spaceName : Option (List UInt16)
deriving DecidableEq, Repr

abbrev SealedPayload := Sealed RecoveryKey AtRestIv RecoveryKind RecoveryPayload

structure RecoveryFile where
  kind : RecoveryKind
  createdAt : ℕ
  keyEpoch : ℕ
  salt : List Char
  iterations : Option ℕ
  sealed : SealedPayload
deriving DecidableEq, Repr

/-- A field of an object as it was read: absent, of another type, or a value. -/
inductive Field (α : Type*) where
  | absent
  | other
  | value (a : α)
deriving DecidableEq, Repr

/-- The fields of a JSON value; one that is no object has none of them. -/
structure RawFile where
  kind : Field RecoveryKind
  v : Field ℤ
  createdAt : Field ℤ
  keyEpoch : Field ℤ
  salt : Field (List Char)
  iterations : Field ℤ
  sealed : Field SealedPayload
deriving DecidableEq, Repr

inductive RestoreError where
  | badRecoveryFile (message : String)
  | wrongRecoveryCode
  | keyDerivation
  | storage
deriving DecidableEq, Repr

def RestoreError.message : RestoreError → String
  | badRecoveryFile message => message
  | wrongRecoveryCode => "That recovery code doesn't open this file."
  | keyDerivation => "Invalid PBKDF2 iteration count"
  | storage => "The space could not be stored or started"

def notARecoveryFile : RestoreError := .badRecoveryFile "That file isn't a SendSelf recovery file."
def newerVersion : RestoreError :=
  .badRecoveryFile "That recovery file was written by a newer version."
def badIterations : RestoreError :=
  .badRecoveryFile "That recovery file has invalid key derivation settings."

def isSafeInteger (n : ℤ) : Bool := -(2 ^ 53) < n && n < 2 ^ 53

def validIterations (n : ℕ) : Bool := 1 ≤ n && n ≤ MAX_PBKDF2_ITERATIONS

/-- The checks of the fields, in their order; `none` is a text that is not JSON. -/
def parseRecoveryFile : Option RawFile → Except RestoreError RecoveryFile
  | some ⟨.value kind, v, .value createdAt, .value keyEpoch, .value salt, iterations,
    .value sealed⟩ =>
      if v = .absent || !isSafeInteger createdAt || !isSafeInteger keyEpoch || keyEpoch < 1 ||
        salt = [] then
        .error notARecoveryFile
      else if v ≠ .value 1 then .error newerVersion
      else match iterations with
        | .absent => .ok ⟨kind, createdAt.toNat, keyEpoch.toNat, salt, none, sealed⟩
        | .value n =>
            if isSafeInteger n && 1 ≤ n && n ≤ MAX_PBKDF2_ITERATIONS then
              .ok ⟨kind, createdAt.toNat, keyEpoch.toNat, salt, some n.toNat, sealed⟩
            else .error badIterations
        | .other => .error badIterations
  | _ => .error notARecoveryFile

/-- What is written of a file. -/
def RecoveryFile.raw (file : RecoveryFile) : RawFile where
  kind := .value file.kind
  v := .value 1
  createdAt := .value file.createdAt
  keyEpoch := .value file.keyEpoch
  salt := .value file.salt
  iterations := match file.iterations with
    | some n => .value n
    | none => .absent
  sealed := .value file.sealed

/-- `none` is a throw, of a salt that is not base64 or of the check of the rounds. -/
def keysFromPassphrase (passphrase salt : List Char) (iterations : ℕ) : Option RecoveryKey :=
  (base64UrlToBuf salt).bind fun bytes =>
    if validIterations iterations then some ⟨passphrase, bytes, iterations⟩ else none

/-- `activeSpaceSecrets`, with the name of the space. -/
structure Secrets where
  session : Session
  keyring : Keyring
  deviceKeyPair : Option SerializedKeyPair
  signingKeyPair : Option SerializedKeyPair
  spaceName : Option (List UInt16)
deriving DecidableEq, Repr

/-- What is drawn at random for a file. -/
structure Random where
  code : CodeBytes
  salt : Fin 16 → UInt8
  iv : AtRestIv

variable (u : UpperCasing)

/-- The file and its code; `none` is the throw for keys that cannot be exported. -/
def createRecoveryFile (secrets : Secrets) (random : Random) (now : ℕ) :
    Option (RecoveryFile × List Char) :=
  secrets.deviceKeyPair.bind fun deviceKeyPair =>
    let code := generateRecoveryCode random.code
    let salt := bufToBase64Url (List.ofFn random.salt)
    (keysFromPassphrase (normalizeRecoveryCode u code) salt PBKDF2_ITERATIONS).map fun vaultKey =>
      let payload : RecoveryPayload :=
        ⟨secrets.session, secrets.keyring, deviceKeyPair, secrets.signingKeyPair,
          secrets.spaceName.filter (· ≠ [])⟩
      (⟨.current, now, secrets.keyring.current, salt, some PBKDF2_ITERATIONS,
        ⟨vaultKey, random.iv, .current, payload⟩⟩, code)

/-- What the database of a space holds of its secrets. -/
structure Stored where
  session : Option Session
  keyring : Option Keyring
  deviceKeyPair : Option KeyPair
  signingKeyPair : Option KeyPair
  recoveryEpoch : Option ℕ
deriving DecidableEq, Repr

def Stored.empty : Stored := ⟨none, none, none, none, none⟩

structure LocalSpace where
  id : SpaceId
  name : Option (List UInt16)
  stored : Stored
deriving DecidableEq, Repr

/-- The writes of `persistSession` that come off; they are not one transaction. -/
structure Writes where
  session : Bool
  keyring : Bool
  deviceKeyPair : Bool
  signingKeyPair : Bool
deriving DecidableEq, Repr

/-- How far `forgetSpace` gets: to its end, not to the end of the data, not to the row of the space,
or past the row only. -/
inductive Forgetting where
  | done | dataKept | rowKept | noted
deriving DecidableEq, Repr

/-- What comes from outside: a fresh id, and which steps come off. -/
structure Outside where
  spaceId : SpaceId
  registers : Bool
  remembers : Bool
  writes : Writes
  notes : Bool
  starts : Bool
  forgetting : Forgetting
deriving DecidableEq, Repr

/-- The spaces, and whether it returns: the space is registered before it is remembered as the last
one opened. -/
def beginSpace (name : Option (List UInt16)) (outside : Outside) (spaces : List LocalSpace) :
    List LocalSpace × Bool :=
  if outside.registers then
    (spaces ++ [⟨outside.spaceId, (name.map trim).filter (· ≠ []), .empty⟩], outside.remembers)
  else (spaces, false)

def forgetSpace (id : SpaceId) (spaces : List LocalSpace) : Forgetting → List LocalSpace
  | .done => spaces.filter (·.id ≠ id)
  | .dataKept => spaces
  | .rowKept => spaces.map fun s => if s.id = id then { s with stored := .empty } else s
  | .noted => spaces.filter (·.id ≠ id)

/-- `ring.keys.set(epoch, key)` -/
def setKey (keys : List (ℕ × GroupKey)) (p : ℕ × GroupKey) : List (ℕ × GroupKey) :=
  p :: keys.filter fun q => q.1 ≠ p.1

def restoredRing (stored : Keyring) : Keyring :=
  ⟨if stored.current = 0 then INITIAL_KEY_EPOCH else stored.current, stored.keys.foldl setKey []⟩

/-- What `persistSession` leaves of a payload, and whether all of it is there. -/
def persistSession (payload : RecoveryPayload) (writes : Writes) : Stored × Bool :=
  let keep {α : Type} (written : Bool) (value : α) : Option α :=
    if written then some value else none
  (⟨keep writes.session payload.session, keep writes.keyring (restoredRing payload.keyring),
    keep writes.deviceKeyPair (importKeyPair payload.deviceKeyPair),
    (payload.signingKeyPair.map importKeyPair).bind (keep writes.signingKeyPair), none⟩,
    writes.session && writes.keyring && writes.deviceKeyPair &&
      (payload.signingKeyPair.isNone || writes.signingKeyPair))

/-- What is stored of a space that has been begun, and whether its session starts. -/
def fillSpace (payload : RecoveryPayload) (outside : Outside) : Stored × Bool :=
  let persisted := persistSession payload outside.writes
  if persisted.2 then
    if outside.notes then
      ({ persisted.1 with recoveryEpoch := some (restoredRing payload.keyring).current },
        outside.starts)
    else (persisted.1, false)
  else (persisted.1, false)

/-- The new space of a payload. -/
def restoreSpace (payload : RecoveryPayload) (outside : Outside) (spaces : List LocalSpace) :
    List LocalSpace × Except RestoreError SpaceId :=
  let begun := beginSpace payload.spaceName outside spaces
  if begun.2 then
    let filled := fillSpace payload outside
    let spaces := begun.1.map fun s =>
      if s.id = outside.spaceId then { s with stored := filled.1 } else s
    if filled.2 then (spaces, .ok outside.spaceId)
    else (forgetSpace outside.spaceId spaces outside.forgetting, .error .storage)
  else (begun.1, .error .storage)

/-- The device afterwards, and the space that is open or what was thrown. -/
def restoreFromRecoveryFile (text : Option RawFile) (code : List Char) (outside : Outside)
    (spaces : List LocalSpace) : List LocalSpace × Except RestoreError SpaceId :=
  match parseRecoveryFile text with
  | .error e => (spaces, .error e)
  | .ok file =>
      match keysFromPassphrase (normalizeRecoveryCode u code) file.salt
        (file.iterations.getD PBKDF2_ITERATIONS) with
      | none => (spaces, .error .keyDerivation)
      | some vaultKey =>
          match file.sealed.openWith vaultKey file.sealed.iv file.kind with
          | none => (spaces, .error .wrongRecoveryCode)
          | some payload => restoreSpace payload outside spaces

variable {u}

/-- What a device writes into a file is a whole number that a number of the format can be. -/
structure RecoveryFile.WellFormed (file : RecoveryFile) : Prop where
  createdAt : file.createdAt < 2 ^ 53
  keyEpoch : 1 ≤ file.keyEpoch ∧ file.keyEpoch < 2 ^ 53
  salt : file.salt ≠ []
  iterations : ∀ n, file.iterations = some n → validIterations n = true

theorem isSafeInteger_cast {n : ℕ} (h : n < 2 ^ 53) : isSafeInteger n = true := by
  simp only [isSafeInteger, Bool.and_eq_true, decide_eq_true_eq]
  omega

theorem parseRecoveryFile_raw {file : RecoveryFile} (h : file.WellFormed) :
    parseRecoveryFile (some file.raw) = .ok file := by
  obtain ⟨kind, createdAt, keyEpoch, salt, iterations, sealed⟩ := file
  obtain ⟨hcreated, ⟨hone, hepoch⟩, hsalt, hiter⟩ := h
  have hlow : ¬((keyEpoch : ℤ) < 1) := by
    have hcast : (1 : ℤ) ≤ keyEpoch := by exact_mod_cast hone
    omega
  cases iterations with
  | none =>
    simp [parseRecoveryFile, RecoveryFile.raw, isSafeInteger_cast hcreated,
      isSafeInteger_cast hepoch, hlow, hsalt]
  | some n =>
    have hn := hiter n rfl
    simp only [validIterations, Bool.and_eq_true, decide_eq_true_eq] at hn
    have hsafe : isSafeInteger n = true := isSafeInteger_cast (lt_of_le_of_lt hn.2 (by decide))
    have hmin : (1 : ℤ) ≤ n := by exact_mod_cast hn.1
    have hmax : (n : ℤ) ≤ MAX_PBKDF2_ITERATIONS := by exact_mod_cast hn.2
    simp only [parseRecoveryFile, RecoveryFile.raw, isSafeInteger_cast hcreated,
      isSafeInteger_cast hepoch, hsafe]
    simp [hlow, hsalt, hmin, hmax]

theorem salt_ne_nil (salt : Fin 16 → UInt8) : bufToBase64Url (List.ofFn salt) ≠ [] := by
  intro h
  have hread := base64UrlToBuf_bufToBase64Url (List.ofFn salt)
  rw [h] at hread
  have hlen := congrArg (Option.map List.length) hread
  rw [Option.map_some, List.length_ofFn] at hlen
  exact absurd hlen (by decide)

/-- The key of a code, the one its file is sealed under. -/
theorem keysFromPassphrase_salt (passphrase : List Char) (salt : List UInt8) :
    keysFromPassphrase passphrase (bufToBase64Url salt) PBKDF2_ITERATIONS =
      some ⟨passphrase, salt, PBKDF2_ITERATIONS⟩ := by
  rw [keysFromPassphrase, base64UrlToBuf_bufToBase64Url, Option.bind_some, if_pos (by decide)]

theorem lookup_setKey (keys : List (ℕ × GroupKey)) (p : ℕ × GroupKey) :
    (fun e => (setKey keys p).lookup e) = WriteOnce.record (fun e => keys.lookup e) p.1 p.2 := by
  have hring := keyForEpoch_withEpoch ⟨0, keys⟩ p.1 p.2
  exact hring

/-- The restored ring has the keys of the stored one. -/
theorem keyForEpoch_restoredRing {stored : Keyring} (h : (stored.keys.map Prod.fst).Nodup)
    (epoch : ℕ) :
    keyForEpoch (restoredRing stored) epoch = keyForEpoch stored epoch :=
  (WriteOnce.foldl_record (r := fun keys e => List.lookup e keys) lookup_setKey h [] epoch).trans
    Option.or_none

/-- Everything comes off. -/
def Outside.Succeeds (outside : Outside) : Prop :=
  outside.registers = true ∧ outside.remembers = true ∧ outside.writes = ⟨true, true, true, true⟩ ∧
    outside.notes = true ∧ outside.starts = true

/-- What fails is undone: the space is not registered at all, or the steps that are cleaned up after
are reached and it is forgotten. -/
def Outside.Undone (outside : Outside) : Prop :=
  outside.registers = false ∨
    outside.remembers = true ∧ (outside.forgetting = .done ∨ outside.forgetting = .noted)

/-- The space that a payload restores. -/
def RecoveryPayload.restored (payload : RecoveryPayload) (id : SpaceId) : LocalSpace :=
  ⟨id, (payload.spaceName.map trim).filter (· ≠ []), ⟨some payload.session,
    some (restoredRing payload.keyring), some (importKeyPair payload.deviceKeyPair),
    payload.signingKeyPair.map importKeyPair, some (restoredRing payload.keyring).current⟩⟩

theorem persistSession_eq {payload : RecoveryPayload} {writes : Writes}
    (h : (persistSession payload writes).2 = true) : (persistSession payload writes).1 =
      ⟨some payload.session, some (restoredRing payload.keyring),
        some (importKeyPair payload.deviceKeyPair), payload.signingKeyPair.map importKeyPair,
        none⟩ := by
  simp only [persistSession, Bool.and_eq_true, Bool.or_eq_true, Option.isNone_iff_eq_none] at h
  obtain ⟨⟨⟨hsession, hkeyring⟩, hpair⟩, hsigning⟩ := h
  simp only [persistSession, hsession, hkeyring, hpair, ↓reduceIte, Stored.mk.injEq, true_and,
    and_true]
  rcases hsigning with hsigning | hsigning
  · rw [hsigning]
    rfl
  · simp only [hsigning, ↓reduceIte]
    exact Option.bind_fun_some _

/-- What starts has been stored whole. -/
theorem fillSpace_eq {payload : RecoveryPayload} {outside : Outside}
    (h : (fillSpace payload outside).2 = true) :
    (fillSpace payload outside).1 = (payload.restored outside.spaceId).stored := by
  unfold fillSpace at h ⊢
  dsimp only at h ⊢
  split at h
  · next hpersisted =>
    rw [if_pos hpersisted]
    split at h
    · next hnotes => rw [if_pos hnotes, persistSession_eq hpersisted, RecoveryPayload.restored]
    · cases h
  · cases h

theorem fillSpace_of_succeeds {outside : Outside} (h : outside.Succeeds)
    (payload : RecoveryPayload) : (fillSpace payload outside).2 = true := by
  obtain ⟨-, -, hwrites, hnotes, hstarts⟩ := h
  simp only [fillSpace, persistSession, hwrites, hnotes, hstarts, Bool.or_true, Bool.and_self,
    ↓reduceIte]

theorem forgetSpace_append (space : LocalSpace) {spaces : List LocalSpace}
    (h : ∀ s ∈ spaces, s.id ≠ space.id) :
    (spaces ++ [space]).filter (·.id ≠ space.id) = spaces := by
  rw [List.filter_append, List.filter_eq_self.mpr fun s hs => decide_eq_true (h s hs)]
  simp

/-- A change to the space that was added last. -/
theorem map_append_of_fresh (space : LocalSpace) {spaces : List LocalSpace}
    (h : ∀ s ∈ spaces, s.id ≠ space.id) (f : LocalSpace → LocalSpace) :
    (spaces ++ [space]).map (fun s => if s.id = space.id then f s else s) = spaces ++
      [f space] := by
  have hothers : (spaces.map fun s => if s.id = space.id then f s else s) = spaces :=
    (List.map_congr_left fun s hs => if_neg (h s hs)).trans (List.map_id' spaces)
  rw [List.map_append, hothers]
  simp

/-- However far it gets, no other space is touched. -/
theorem forgetSpace_others (space : LocalSpace) {spaces : List LocalSpace}
    (h : ∀ s ∈ spaces, s.id ≠ space.id) (forgetting : Forgetting) :
    (forgetSpace space.id (spaces ++ [space]) forgetting).filter (·.id ≠ space.id) = spaces := by
  have hgone := forgetSpace_append space h
  cases forgetting with
  | dataKept => exact hgone
  | rowKept =>
    rw [forgetSpace, map_append_of_fresh space h]
    exact forgetSpace_append { space with stored := .empty } h
  | done | noted =>
    rw [forgetSpace, hgone, List.filter_eq_self.mpr fun s hs => decide_eq_true (h s hs)]

/-- A space is there whole, or there is an error: where it is undone, the spaces are what they were,
and the other spaces are in any case. -/
theorem restoreSpace_cases (payload : RecoveryPayload) {outside : Outside}
    {spaces : List LocalSpace} (h : ∀ s ∈ spaces, s.id ≠ outside.spaceId) :
    restoreSpace payload outside spaces =
        (spaces ++ [payload.restored outside.spaceId], .ok outside.spaceId) ∨
      (restoreSpace payload outside spaces).2 = .error .storage ∧ ¬ outside.Succeeds ∧
        (outside.Undone → (restoreSpace payload outside spaces).1 = spaces) ∧
        (restoreSpace payload outside spaces).1.filter (·.id ≠ outside.spaceId) = spaces := by
  let begun (stored : Stored) : LocalSpace :=
    ⟨outside.spaceId, (payload.spaceName.map trim).filter (· ≠ []), stored⟩
  have hmap := map_append_of_fresh (begun .empty) h
  have hfilter := fun stored => forgetSpace_append (begun stored) h
  have hforget := fun stored => forgetSpace_others (begun stored) h
  simp only [begun] at hmap hfilter hforget
  rcases Bool.eq_false_or_eq_true outside.registers with hregisters | hregisters
  · rcases Bool.eq_false_or_eq_true outside.remembers with hremembers | hremembers
    · rcases Bool.eq_false_or_eq_true (fillSpace payload outside).2 with hfilled | hfilled
      · left
        simp only [restoreSpace, beginSpace, hregisters, hremembers, hfilled, ↓reduceIte, hmap,
          fillSpace_eq hfilled, RecoveryPayload.restored]
      · right
        simp only [restoreSpace, beginSpace, hregisters, hremembers, hfilled, ↓reduceIte, hmap,
          Bool.false_eq_true, true_and, hforget, and_true]
        refine ⟨fun hs => ?_, fun hundone => ?_⟩
        · rw [fillSpace_of_succeeds hs payload] at hfilled
          cases hfilled
        · rcases hundone with hundone | ⟨-, hundone | hundone⟩
          · rw [hregisters] at hundone
            cases hundone
          · rw [hundone]
            exact hfilter _
          · rw [hundone]
            exact hfilter _
    · right
      simp only [restoreSpace, beginSpace, hregisters, hremembers, ↓reduceIte, Bool.false_eq_true,
        true_and, hfilter, and_true]
      refine ⟨fun hs => ?_, fun hundone => ?_⟩
      · rw [hs.2.1] at hremembers
        cases hremembers
      · rcases hundone with hundone | ⟨hundone, -⟩
        · rw [hregisters] at hundone
          cases hundone
        · rw [hremembers] at hundone
          cases hundone
  · right
    simp only [restoreSpace, beginSpace, hregisters, Bool.false_eq_true, ↓reduceIte, true_and]
    refine ⟨fun hs => ?_, fun _ => trivial,
      List.filter_eq_self.mpr fun s hs => decide_eq_true (h s hs)⟩
    rw [hs.1] at hregisters
    cases hregisters

section Opened

variable {text : Option RawFile} {code : List Char} {outside : Outside} {spaces : List LocalSpace}
  {file : RecoveryFile} {vaultKey : RecoveryKey} {payload : RecoveryPayload}

theorem restore_opened (hparse : parseRecoveryFile text = .ok file)
    (hkey : keysFromPassphrase (normalizeRecoveryCode u code) file.salt
      (file.iterations.getD PBKDF2_ITERATIONS) = some vaultKey)
    (hopen : file.sealed.openWith vaultKey file.sealed.iv file.kind = some payload) :
    restoreFromRecoveryFile u text code outside spaces = restoreSpace payload outside spaces := by
  simp only [restoreFromRecoveryFile, hparse, hkey, hopen]

theorem restore_closed (hparse : parseRecoveryFile text = .ok file)
    (hkey : keysFromPassphrase (normalizeRecoveryCode u code) file.salt
      (file.iterations.getD PBKDF2_ITERATIONS) = some vaultKey)
    (hopen : file.sealed.openWith vaultKey file.sealed.iv file.kind = none) :
    restoreFromRecoveryFile u text code outside spaces = (spaces, .error .wrongRecoveryCode) := by
  simp only [restoreFromRecoveryFile, hparse, hkey, hopen]

end Opened

/-- The space has what was exported: its credential, its keys and its name, which is trimmed. -/
structure LocalSpace.Restores (space : LocalSpace) (secrets : Secrets) : Prop where
  name : space.name = ((secrets.spaceName.filter (· ≠ [])).map trim).filter (· ≠ [])
  session : space.stored.session = some secrets.session
  keyring : ∃ ring, space.stored.keyring = some ring ∧ ring.current = secrets.keyring.current ∧
    ∀ epoch, keyForEpoch ring epoch = keyForEpoch secrets.keyring epoch
  deviceKeyPair : space.stored.deviceKeyPair = secrets.deviceKeyPair.map importKeyPair
  signingKeyPair : space.stored.signingKeyPair = secrets.signingKeyPair.map importKeyPair
  recoveryEpoch : space.stored.recoveryEpoch = some secrets.keyring.current

/-- What is put into a file. -/
def Secrets.payload (secrets : Secrets) (deviceKeyPair : SerializedKeyPair) : RecoveryPayload :=
  ⟨secrets.session, secrets.keyring, deviceKeyPair, secrets.signingKeyPair,
    secrets.spaceName.filter (· ≠ [])⟩

/-- The file of a device that has its key pair. -/
def Secrets.file (secrets : Secrets) (deviceKeyPair : SerializedKeyPair) (random : Random)
    (now : ℕ) : RecoveryFile where
  kind := .current
  createdAt := now
  keyEpoch := secrets.keyring.current
  salt := bufToBase64Url (List.ofFn random.salt)
  iterations := some PBKDF2_ITERATIONS
  sealed := ⟨⟨codeChars random.code, List.ofFn random.salt, PBKDF2_ITERATIONS⟩, random.iv, .current,
    secrets.payload deviceKeyPair⟩

theorem createRecoveryFile_eq (u : UpperCasing) (secrets : Secrets) (random : Random) (now : ℕ) :
    createRecoveryFile u secrets random now = secrets.deviceKeyPair.map fun deviceKeyPair =>
      (secrets.file deviceKeyPair random now, generateRecoveryCode random.code) := by
  cases hpair : secrets.deviceKeyPair with
  | none => rw [createRecoveryFile, hpair, Option.bind_none, Option.map_none]
  | some deviceKeyPair =>
    simp only [createRecoveryFile, hpair, Option.bind_some, Option.map_some, normalize_generate,
      keysFromPassphrase_salt]
    rfl

theorem Secrets.file_wellFormed {secrets : Secrets} {now : ℕ} (hnow : now < 2 ^ 53)
    (hepoch : 1 ≤ secrets.keyring.current ∧ secrets.keyring.current < 2 ^ 53)
    (deviceKeyPair : SerializedKeyPair)
    (random : Random) : (secrets.file deviceKeyPair random now).WellFormed where
  createdAt := hnow
  keyEpoch := hepoch
  salt := salt_ne_nil random.salt
  iterations n hn := by
    obtain rfl := Option.some.inj hn
    decide

/-- The key that a code gives for a file. -/
theorem keysFromPassphrase_file (secrets : Secrets) (deviceKeyPair : SerializedKeyPair)
    (random : Random) (now : ℕ) (passphrase : List Char) :
    keysFromPassphrase passphrase (secrets.file deviceKeyPair random now).salt
      ((secrets.file deviceKeyPair random now).iterations.getD PBKDF2_ITERATIONS) =
        some ⟨passphrase, List.ofFn random.salt, PBKDF2_ITERATIONS⟩ :=
  keysFromPassphrase_salt passphrase _

theorem restores_payload {secrets : Secrets} {deviceKeyPair : SerializedKeyPair}
    (hpair : secrets.deviceKeyPair = some deviceKeyPair) (hepoch : 1 ≤ secrets.keyring.current)
    (hkeys : (secrets.keyring.keys.map Prod.fst).Nodup) (id : SpaceId) :
    ((secrets.payload deviceKeyPair).restored id).Restores secrets := by
  have hcurrent : (restoredRing secrets.keyring).current = secrets.keyring.current :=
    if_neg (Nat.one_le_iff_ne_zero.mp hepoch)
  exact ⟨rfl, rfl, ⟨_, rfl, hcurrent, keyForEpoch_restoredRing hkeys⟩, by rw [hpair]; rfl, rfl,
    congrArg some hcurrent⟩

namespace Sample

def secrets : Secrets :=
  ⟨⟨3, 9, 1⟩, ⟨2, [(1, 7), (2, 8)]⟩, some ⟨11⟩, some ⟨12⟩, some [72, 111, 109, 101]⟩

def random : Random := ⟨fun i => .ofNat (7 * i.val), fun i => .ofNat (3 * i.val), 4⟩

def outside : Outside := ⟨2, true, true, ⟨true, true, true, true⟩, true, true, .done⟩

end Sample

end SendSelf.Recovery
