import SendSelf.Library.Runs
import SendSelf.Lock.AtRest

/-!
# The device file of the CLI

A linked device is one file, written to a temporary name of the process that saves it and renamed
into place. A process may be cut at any point and several may save at once. What is in place is
always all of a device that some process saved, and reading it gives that device back: the
entries of an object whose names are numbers come in the order of the numbers, so the keyring is
built up from the oldest epoch, whatever order it was in.
-/
namespace SendSelf.Cli

/-- A linked device, ready to use. -/
structure Device where
  server : String
  groupId : GroupId
  deviceId : DeviceId
  deviceName : String
  spaceName : Option String
  token : Token
  keyPair : KeyPair
  signingKeyPair : KeyPair
  keyring : Keyring
deriving DecidableEq, Repr

/-- The on-disk form. `keys` are the entries of an object, in the order they are listed in. -/
structure StoredDevice where
  v : ℕ
  server : String
  groupId : GroupId
  deviceId : DeviceId
  deviceName : String
  spaceName : Option String
  token : Token
  keyPair : SerializedKeyPair
  signingKeyPair : SerializedKeyPair
  keys : List (ℕ × GroupKey)
  currentEpoch : ℕ
deriving DecidableEq, Repr

/-- `keys[String(epoch)] = key`: names that are numbers are kept in their order. -/
def assign (epoch : ℕ) (key : GroupKey) : List (ℕ × GroupKey) → List (ℕ × GroupKey)
  | [] => [(epoch, key)]
  | p :: keys =>
      if epoch < p.1 then (epoch, key) :: p :: keys
      else if epoch = p.1 then (epoch, key) :: keys
      else p :: assign epoch key keys

def exportKeys (entries : List (ℕ × GroupKey)) : List (ℕ × GroupKey) :=
  entries.foldl (fun keys p => assign p.1 p.2 keys) []

/-- An empty name counts as none. -/
def truthy (name : Option String) : Option String := name.filter (· ≠ "")

/-- What `saveDevice` writes; `none` is its throw for keys that cannot be exported. -/
def store (device : Device) : Option StoredDevice :=
  match serializeKeyPair device.keyPair, serializeKeyPair device.signingKeyPair with
  | some keyPair, some signingKeyPair => some {
      v := 1
      server := device.server
      groupId := device.groupId
      deviceId := device.deviceId
      deviceName := device.deviceName
      spaceName := truthy device.spaceName
      token := device.token
      keyPair := keyPair
      signingKeyPair := signingKeyPair
      keys := exportKeys device.keyring.keys
      currentEpoch := device.keyring.current }
  | _, _ => none

/-- A file in whole, or what is there of one that was not written to its end. -/
inductive Content where
  | whole (stored : StoredDevice)
  | torn
deriving DecidableEq, Repr

inductive LoadError where
  | notLinked
  | syntaxError
  | unsupportedVersion
  | noCurrentKey
deriving DecidableEq, Repr

def LoadError.message (path : String) : LoadError → String
  | notLinked => "This machine is not linked to a space yet (no " ++ path ++ "). Run: sendself link"
  | syntaxError => "Unexpected end of JSON input"
  | unsupportedVersion => "Unsupported device file version in " ++ path
  | noCurrentKey => "The device file " ++ path ++ " has no key for its current epoch"

/-- The loop over the entries. -/
def importKeys (keys : List (ℕ × GroupKey)) : Option Keyring :=
  keys.foldl (fun ring p => some (match ring with
    | some ring => withEpoch ring p.1 p.2
    | none => createKeyring p.2 p.1)) none

def load (stored : StoredDevice) : Except LoadError Device :=
  if stored.v ≠ 1 then .error .unsupportedVersion
  else match importKeys stored.keys with
    | none => .error .noCurrentKey
    | some ring =>
        if (keyForEpoch ring stored.currentEpoch).isNone then .error .noCurrentKey
        else .ok {
          server := stored.server
          groupId := stored.groupId
          deviceId := stored.deviceId
          deviceName := stored.deviceName
          spaceName := truthy stored.spaceName
          token := stored.token
          keyPair := importKeyPair stored.keyPair
          signingKeyPair := importKeyPair stored.signingKeyPair
          keyring := ⟨stored.currentEpoch, ring.keys⟩ }

def loadDevice : Option Content → Except LoadError Device
  | none => .error .notLinked
  | some .torn => .error .syntaxError
  | some (.whole stored) => load stored

/-- A device that can be saved and used: its keys can be exported, and the ring, which has one key
an epoch, has that of its current one. -/
structure Device.Complete (d : Device) : Prop where
  keyPair : d.keyPair.exportable = true
  signingKeyPair : d.signingKeyPair.exportable = true
  epochs : (d.keyring.keys.map Prod.fst).Nodup
  current : keyForEpoch d.keyring d.keyring.current ≠ none

instance Device.decidableComplete (d : Device) : Decidable d.Complete :=
  decidable_of_iff (d.keyPair.exportable = true ∧ d.signingKeyPair.exportable = true ∧
    (d.keyring.keys.map Prod.fst).Nodup ∧ keyForEpoch d.keyring d.keyring.current ≠ none)
    ⟨fun h => ⟨h.1, h.2.1, h.2.2.1, h.2.2.2⟩, fun h => ⟨h.1, h.2, h.3, h.4⟩⟩

/-- The same device, with the same key for every epoch. -/
structure Device.Same (d e : Device) : Prop where
  keys : ∀ epoch, keyForEpoch d.keyring epoch = keyForEpoch e.keyring epoch
  current : d.keyring.current = e.keyring.current
  rest : { d with keyring := e.keyring } = { e with spaceName := truthy e.spaceName }

theorem lookup_assign (epoch : ℕ) (key : GroupKey) (keys : List (ℕ × GroupKey)) :
    (fun e => (assign epoch key keys).lookup e) =
      WriteOnce.record (fun e => keys.lookup e) epoch key := by
  have hself : ∀ rest : List (ℕ × GroupKey), ((epoch, key) :: rest).lookup epoch = some key :=
    fun rest => List.lookup_cons_self
  have hother : ∀ e (rest : List (ℕ × GroupKey)), e ≠ epoch →
      ((epoch, key) :: rest).lookup e = rest.lookup e := by
    intro e rest h
    have he : (e == epoch) = false := by simpa using h
    rw [List.lookup_cons, he]
  funext e
  induction keys with
  | nil =>
    by_cases h : e = epoch
    · rw [h, WriteOnce.record_self]
      exact hself []
    · rw [WriteOnce.record_ne h]
      exact hother e [] h
  | cons p keys ih =>
    unfold assign
    by_cases h : e = epoch
    · subst h
      rw [WriteOnce.record_self] at ih ⊢
      split_ifs with hlt heq
      · exact hself _
      · exact hself _
      · have hp : (e == p.1) = false := by simpa using heq
        rw [List.lookup_cons, hp, ih]
    · rw [WriteOnce.record_ne h] at ih ⊢
      split_ifs with hlt heq
      · exact hother e _ h
      · have hp : (e == p.1) = false := by simpa [← heq] using h
        rw [hother e _ h, List.lookup_cons, hp]
      · rw [List.lookup_cons, List.lookup_cons, ih]

/-- Each epoch of the ring is in the object with its key. -/
theorem lookup_exportKeys {entries : List (ℕ × GroupKey)} (h : (entries.map Prod.fst).Nodup)
    (epoch : ℕ) :
    (exportKeys entries).lookup epoch = entries.lookup epoch := by
  have hfold :=
    WriteOnce.foldl_record (r := fun keys e => List.lookup e keys) (f := fun keys p =>
      assign p.1 p.2 keys)
    (fun keys p => lookup_assign p.1 p.2 keys) h [] epoch
  rw [exportKeys]
  exact hfold.trans (Option.or_none)

/-- The epochs of an object are each there once, as its entries are in their order. -/
theorem sorted_assign {epoch : ℕ} {key : GroupKey} {keys : List (ℕ × GroupKey)}
    (h : (keys.map Prod.fst).Pairwise (· < ·)) :
    ((assign epoch key keys).map Prod.fst).Pairwise (· < ·) ∧
      ∀ e ∈ (assign epoch key keys).map Prod.fst, e = epoch ∨ e ∈ keys.map Prod.fst := by
  induction keys with
  | nil => exact ⟨List.pairwise_singleton _ _, fun e he => Or.inl (List.mem_singleton.mp he)⟩
  | cons p keys ih =>
    obtain ⟨hp, hk⟩ := List.pairwise_cons.mp h
    obtain ⟨ih, hmem⟩ := ih hk
    unfold assign
    split_ifs with hlt heq
    · refine ⟨List.pairwise_cons.mpr ⟨?_, h⟩, fun e he => List.mem_cons.mp he⟩
      intro e he
      rcases List.mem_cons.mp he with rfl | he
      · exact hlt
      · exact hlt.trans (hp e he)
    · subst heq
      exact ⟨h, fun e he => Or.inr he⟩
    · refine ⟨List.pairwise_cons.mpr ⟨?_, ih⟩, ?_⟩
      · intro e he
        rcases hmem e he with rfl | he
        · exact lt_of_le_of_ne (Nat.not_lt.mp hlt) (Ne.symm heq)
        · exact hp e he
      · intro e he
        rcases List.mem_cons.mp he with rfl | he
        · exact Or.inr List.mem_cons_self
        · exact (hmem e he).imp_right (List.mem_cons_of_mem _)

theorem nodup_exportKeys (entries : List (ℕ × GroupKey)) :
    ((exportKeys entries).map Prod.fst).Nodup := by
  have hsorted : ∀ (entries keys : List (ℕ × GroupKey)), (keys.map Prod.fst).Pairwise (· < ·) →
      ((entries.foldl (fun keys p => assign p.1 p.2 keys) keys).map Prod.fst).Pairwise (· < ·) := by
    intro entries
    induction entries with
    | nil => exact fun keys h => h
    | cons p entries ih => exact fun keys h => ih _ (sorted_assign h).1
  exact (hsorted entries [] List.Pairwise.nil).imp fun h => h.ne

/-- What the loop of `loadDevice` has built. -/
def importedKey (ring : Option Keyring) (epoch : ℕ) : Option GroupKey :=
  ring.bind (keyForEpoch · epoch)

theorem importedKey_importKeys {keys : List (ℕ × GroupKey)} (h : (keys.map Prod.fst).Nodup)
    (epoch : ℕ) :
    importedKey (importKeys keys) epoch = keys.lookup epoch := by
  have hstep : ∀ (ring : Option Keyring) (p : ℕ × GroupKey), importedKey (some (match ring with
      | some ring => withEpoch ring p.1 p.2
      | none => createKeyring p.2 p.1)) = WriteOnce.record (importedKey ring) p.1 p.2 := by
    intro ring p
    cases ring with
    | some ring => exact keyForEpoch_withEpoch ring p.1 p.2
    | none =>
      funext e
      refine Option.ext fun key => ?_
      rw [WriteOnce.record_eq_some]
      exact keyForEpoch_createKeyring.trans (by simp [importedKey])
  exact (WriteOnce.foldl_record (r := importedKey) hstep h none epoch).trans Option.or_none

/-- Loading what was stored of a device gives the device. -/
theorem load_store {d : Device} (h : d.Complete) {stored : StoredDevice}
    (hs : store d = some stored) :
    ∃ e, load stored = .ok e ∧ e.Same d := by
  unfold store at hs
  split at hs
  · next keyPair signingKeyPair hk hg =>
    obtain rfl := Option.some.inj hs
    have hkeys : ∀ epoch, importedKey (importKeys (exportKeys d.keyring.keys)) epoch =
        keyForEpoch d.keyring epoch :=
      fun epoch =>
        (importedKey_importKeys (nodup_exportKeys _) epoch).trans (lookup_exportKeys h.epochs epoch)
    cases hr : importKeys (exportKeys d.keyring.keys) with
    | none =>
      rw [hr] at hkeys
      exact absurd (hkeys d.keyring.current).symm h.current
    | some ring =>
      rw [hr] at hkeys
      have hcurrent : (keyForEpoch ring d.keyring.current).isNone = false := by
        have hc := hkeys d.keyring.current
        rw [importedKey, Option.bind_some] at hc
        rw [hc]
        exact Option.isNone_eq_false_iff.mpr (Option.isSome_iff_ne_none.mpr h.current)
      have htruthy : truthy (truthy d.spaceName) = truthy d.spaceName := by
        simp [truthy, Option.filter_filter]
      refine ⟨{ d with spaceName := truthy d.spaceName, keyring := ⟨d.keyring.current, ring.keys⟩ },
        ?_, hkeys, rfl, rfl⟩
      simp [load, hr, hcurrent, htruthy, importKeyPair_of_serialize hk,
        importKeyPair_of_serialize hg]
  · cases hs

/-- A device that was linked, with the key that its package held. -/
theorem Device.Complete.linked {d : Device} {key : GroupKey} {epoch : ℕ}
    (hk : d.keyPair.exportable = true)
    (hs : d.signingKeyPair.exportable = true) (hr : d.keyring = createKeyring key epoch) :
    d.Complete := by
  refine ⟨hk, hs, ?_, ?_⟩
  · rw [hr]
    exact List.nodup_singleton _
  · rw [hr, Option.ne_none_iff_exists']
    exact ⟨key, keyForEpoch_createKeyring.mpr ⟨rfl, rfl⟩⟩

/-- A ring has one key an epoch after another one was adopted. -/
theorem nodup_withEpoch {ring : Keyring} (h : (ring.keys.map Prod.fst).Nodup) (epoch : ℕ)
    (key : GroupKey) :
    ((withEpoch ring epoch key).keys.map Prod.fst).Nodup := by
  change (epoch :: ((ring.keys.filter fun p => p.1 ≠ epoch).map Prod.fst)).Nodup
  refine List.nodup_cons.mpr ⟨?_, h.sublist (List.filter_sublist.map _)⟩
  intro hm
  obtain ⟨p, hp, he⟩ := List.mem_map.mp hm
  exact of_decide_eq_true (List.mem_filter.mp hp).2 he

/-- Adopting a key keeps the one of the epoch that is current afterwards. -/
theorem Device.Complete.withEpoch {d : Device} (h : d.Complete) (epoch : ℕ) (key : GroupKey) :
    { d with keyring := SendSelf.withEpoch d.keyring epoch key }.Complete := by
  refine ⟨h.keyPair, h.signingKeyPair, nodup_withEpoch h.epochs epoch key, ?_⟩
  change keyForEpoch (SendSelf.withEpoch d.keyring epoch key) (max d.keyring.current epoch) ≠ none
  rw [keyForEpoch_withEpoch]
  rcases le_total d.keyring.current epoch with hle | hle
  · rw [max_eq_right hle, WriteOnce.record_self]
    exact Option.some_ne_none _
  · rw [max_eq_left hle]
    by_cases he : d.keyring.current = epoch
    · rw [he, WriteOnce.record_self]
      exact Option.some_ne_none _
    · rw [WriteOnce.record_ne he]
      exact h.current

/-- So is whatever device a file is read as. -/
theorem Device.Complete.loaded {stored : StoredDevice} {d : Device} (h : load stored = .ok d) :
    d.Complete := by
  have hnodup : ∀ (keys : List (ℕ × GroupKey)) (start : Option Keyring) (ring : Keyring),
      (∀ r, start = some r → (r.keys.map Prod.fst).Nodup) →
      keys.foldl (fun ring p => some (match ring with
        | some ring => SendSelf.withEpoch ring p.1 p.2
        | none => createKeyring p.2 p.1)) start = some ring → (ring.keys.map Prod.fst).Nodup := by
    intro keys
    induction keys with
    | nil => exact fun start ring hstart he => hstart ring he
    | cons p keys ih =>
      intro start ring hstart he
      refine ih _ ring ?_ he
      intro r hr
      cases start with
      | none =>
        rw [← Option.some.inj hr]
        exact List.nodup_singleton _
      | some r₀ =>
        rw [← Option.some.inj hr]
        exact nodup_withEpoch (hstart r₀ rfl) p.1 p.2
  unfold load at h
  split_ifs at h with hv
  cases hr : importKeys stored.keys with
  | none =>
    rw [hr] at h
    cases h
  | some ring =>
    rw [hr] at h
    dsimp only at h
    split_ifs at h with hc
    cases h
    refine ⟨rfl, rfl, hnodup stored.keys none ring (fun r hr => by cases hr) hr, ?_⟩
    exact fun hn => hc (Option.isNone_iff_eq_none.mpr hn)

abbrev Pid := ℕ

/-- Where a process is in a save: it writes the temporary file, or has written it. -/
inductive Saver where
  | writing (stored : StoredDevice)
  | written
deriving DecidableEq

/-- The file in place, the temporary files and the saves that are under way. -/
structure Machine where
  device : Option Content
  temps : Pid → Option Content
  savers : Pid → Option Saver

inductive Event where
  | save (pid : Pid) (device : Device)
  | written (pid : Pid)
  | rename (pid : Pid)
  | crash (pid : Pid)
  | removeDevice

def Machine.step (m : Machine) : Event → Option Machine
  | .save pid device =>
      match m.savers pid, store device with
      | none, some stored => some { m with
          temps := Function.update m.temps pid (some .torn)
          savers := Function.update m.savers pid (some (.writing stored)) }
      | _, _ => none
  | .written pid =>
      match m.savers pid with
      | some (.writing stored) => some { m with
          temps := Function.update m.temps pid (some (.whole stored))
          savers := Function.update m.savers pid (some .written) }
      | _ => none
  | .rename pid =>
      match m.savers pid with
      | some .written => some {
          device := m.temps pid
          temps := Function.update m.temps pid none
          savers := Function.update m.savers pid none }
      | _ => none
  | .crash pid => some { m with savers := Function.update m.savers pid none }
  | .removeDevice => some { m with device := none }

variable {P : Device → Prop}

/-- The processes save devices with a property, and none unlinks. -/
def Saves (P : Device → Prop) (_ : Machine) : Event → Prop
  | .save _ device => P device
  | .removeDevice => False
  | _ => True

instance decidableSaves [DecidablePred P] (m : Machine) (e : Event) : Decidable (Saves P m e) := by
  cases e <;> (unfold Saves; infer_instance)

/-- What is stored of a device with a property. -/
def Kept (P : Device → Prop) (stored : StoredDevice) : Prop := ∃ d, P d ∧ store d = some stored

/-- The file in place is whole, and so are those that are about to be. -/
structure Machine.Sound (P : Device → Prop) (m : Machine) : Prop where
  device : ∃ stored, Kept P stored ∧ m.device = some (.whole stored)
  writing : ∀ pid stored, m.savers pid = some (.writing stored) → Kept P stored
  written : ∀ pid, m.savers pid = some .written → ∃ stored, Kept P stored ∧
    m.temps pid = some (.whole stored)

theorem Machine.Sound.step {m m' : Machine} {e : Event} (h : m.Sound P) (ho : Saves P m e)
    (hs : m.step e = some m') :
    m'.Sound P := by
  have hcase : ∀ {pid pid' : Pid} {x : Option Saver} {s : Saver},
      Function.update m.savers pid x pid' = some s →
      pid' = pid ∧ x = some s ∨ pid' ≠ pid ∧ m.savers pid' = some s := WriteOnce.update_eq_some.mp
  cases e with
  | save pid device =>
    unfold Machine.step at hs
    dsimp only at hs
    split at hs
    · next stored hfree hstored =>
      cases hs
      refine ⟨h.device, fun pid' stored' hw => ?_, fun pid' hr => ?_⟩
      · rcases hcase hw with ⟨-, he⟩ | ⟨-, he⟩
        · cases he
          exact ⟨device, ho, hstored⟩
        · exact h.writing pid' stored' he
      · rcases hcase hr with ⟨-, he⟩ | ⟨hne, he⟩
        · cases he
        · obtain ⟨stored', hk, ht⟩ := h.written pid' he
          exact ⟨stored', hk, (Function.update_of_ne hne _ _).trans ht⟩
    · cases hs
  | written pid =>
    unfold Machine.step at hs
    dsimp only at hs
    split at hs
    · next stored hw =>
      cases hs
      refine ⟨h.device, fun pid' stored' hw' => ?_, fun pid' hr => ?_⟩
      · rcases hcase hw' with ⟨-, he⟩ | ⟨-, he⟩
        · cases he
        · exact h.writing pid' stored' he
      · rcases hcase hr with ⟨rfl, -⟩ | ⟨hne, he⟩
        · exact ⟨stored, h.writing pid' stored hw, Function.update_self _ _ _⟩
        · obtain ⟨stored', hk, ht⟩ := h.written pid' he
          exact ⟨stored', hk, (Function.update_of_ne hne _ _).trans ht⟩
    · cases hs
  | rename pid =>
    unfold Machine.step at hs
    dsimp only at hs
    split at hs
    · next hr =>
      cases hs
      refine ⟨h.written pid hr, fun pid' stored' hw => ?_, fun pid' hr' => ?_⟩
      · rcases hcase hw with ⟨-, he⟩ | ⟨-, he⟩
        · cases he
        · exact h.writing pid' stored' he
      · rcases hcase hr' with ⟨-, he⟩ | ⟨hne, he⟩
        · cases he
        · obtain ⟨stored', hk, ht⟩ := h.written pid' he
          exact ⟨stored', hk, (Function.update_of_ne hne _ _).trans ht⟩
    · cases hs
  | crash pid =>
    cases hs
    refine ⟨h.device, fun pid' stored' hw => ?_, fun pid' hr => ?_⟩
    · rcases hcase hw with ⟨-, he⟩ | ⟨-, he⟩
      · cases he
      · exact h.writing pid' stored' he
    · rcases hcase hr with ⟨-, he⟩ | ⟨-, he⟩
      · cases he
      · exact h.written pid' he
  | removeDevice => exact ho.elim

/-- Whatever processes save and wherever they are cut, reading the device file gives a device that
one of them saved, or the one that was there, with every key of its ring. -/
theorem device_file_is_whole (hP : ∀ d, P d → d.Complete) {linked : Device} (hl : P linked)
    {stored : StoredDevice}
    (hs : store linked = some stored) {temps : Pid → Option Content} {m : Machine}
    (h : Runs.ReachableVia Machine.step (Saves P) ⟨some (.whole stored), temps, fun _ => none⟩ m) :
    ∃ d e, P d ∧ loadDevice m.device = .ok e ∧ e.Same d ∧ e.Complete := by
  have hstart : Machine.Sound P ⟨some (.whole stored), temps, fun _ => none⟩ :=
    ⟨⟨stored, ⟨linked, hl, hs⟩, rfl⟩, fun pid stored hw => (by cases hw),
      fun pid hr => (by cases hr)⟩
  obtain ⟨stored', ⟨d, hd, hstored⟩, hdevice⟩ :=
    (h.invariant hstart fun s e t hs ho he => hs.step ho he).device
  obtain ⟨e, he, hsame⟩ := load_store (hP d hd) hstored
  rw [hdevice]
  exact ⟨d, e, hd, he, hsame, .loaded he⟩

namespace Sample

def device : Device :=
  ⟨"https://sendself.4oli.com", 1, 2, "laptop", some "", 5, ⟨1, true⟩, ⟨2, true⟩, createKeyring 7 1⟩

def rotated : Device := { device with keyring := withEpoch device.keyring 2 8 }

def stored (keys : List (ℕ × GroupKey)) (currentEpoch : ℕ) : StoredDevice :=
  ⟨1, "https://sendself.4oli.com", 1, 2, "laptop", none, 5, ⟨1⟩, ⟨2⟩, keys, currentEpoch⟩

def linked : Machine := ⟨some (.whole (stored [(1, 7)] 1)), fun _ => none, fun _ => none⟩

end Sample

/-- Two processes save the ring of a second epoch; one is cut while it writes. -/
theorem device_file_is_whole_sample :
    ∃ m, Runs.ReachableVia Machine.step (Saves Device.Complete) Sample.linked m ∧
    m.device = some (.whole (Sample.stored [(1, 7), (2, 8)] 2)) ∧ m.temps 9 = some .torn ∧
      ∃ d e, d.Complete ∧ loadDevice m.device = .ok e ∧ e.Same d ∧ e.Complete := by
  obtain ⟨m, hm, hdevice, htemp⟩ : ∃ m,
    Runs.replayVia Machine.step (Saves Device.Complete) Sample.linked
      [.save 9 Sample.rotated, .save 7 Sample.rotated, .crash 9, .written 7, .rename 7] = some m ∧
        m.device = some (.whole (Sample.stored [(1, 7), (2, 8)] 2)) ∧ m.temps 9 = some .torn :=
          ⟨_, rfl, rfl, rfl⟩
  have hrun := Runs.reachableVia_of_replayVia hm
  have hlinked : Sample.device.Complete := .linked rfl rfl rfl
  exact ⟨m, hrun, hdevice, htemp, device_file_is_whole (fun _ hd => hd) hlinked rfl hrun⟩

end SendSelf.Cli
