import SendSelf.Lock.Enabling
import SendSelf.Lock.Disabling

/-!
# Turning the lock on or off, interrupted at any point

An operation is cut after some number of its writes and the app starts again. What
the storage held is compared with what it holds then, both as the app decodes it
once the user has unlocked it.
-/
namespace SendSelf.DeviceStorage

open Interrupt

variable {α : Type} {user : User} {ivs : Ivs} {s : DeviceStorage α}

theorem isEnvelope_of_beforeEnvelope {ck : ContentKey} {w : StorageWrite α}
    (h : w ∈ beforeEnvelope ck ivs s) :
    w.isEnvelope = false := by
  rcases mem_beforeEnvelope h with hre | ⟨_, hnot⟩
  · cases w with
    | setVault _ => cases hre
    | _ => rfl
  · exact hnot

/-- An interrupted `enableLock` loses nothing if it comes before the first sealing or
after the envelope, and only then. -/
theorem kept_enableLock_iff (options : LockOptions) (hvault : s.vault = none) (k : ℕ) :
    (s.view user).Kept ((after write (enableLock options user ivs s) k s).view user) ↔
      (∀ w ∈ (enableLock options user ivs s).take k, w.seals = false) ∨
        ∃ w ∈ (enableLock options user ivs s).take k, w.isEnvelope = true := by
  unfold after
  rw [enableLock_eq]
  rcases take_cases (beforeEnvelope (options.keys user).contentKey ivs s)
    (s.collected.rows.flatMap dropPlaintext) (.setVault (newEnvelope options user ivs s)) k with
      htake | ⟨j, htake⟩
  · have hsealing : Sealing (options.keys user).contentKey ivs s _ := sealing_after k
    rw [htake]
    unfold after at hsealing
    have hsub : ∀ w ∈ (beforeEnvelope (options.keys user).contentKey ivs s).take k,
        w ∈ beforeEnvelope (options.keys user).contentKey ivs s :=
          fun w hw => List.mem_of_mem_take hw
    constructor
    · intro hkept
      left
      intro w hw
      by_contra hseals
      exact not_kept_of_sealed hvault hsub hw (by simpa using hseals) hsealing hkept
    · intro h
      rcases h with hseals | ⟨w, hw, henvelope⟩
      · exact kept_of_nothing_sealed hvault hsub hseals hsealing
      · rw [isEnvelope_of_beforeEnvelope (hsub w hw)] at henvelope
        cases henvelope
  · rw [htake, run_append, run_cons]
    refine iff_of_true (kept_from_envelope hvault j)
      (Or.inr ⟨.setVault (newEnvelope options user ivs s), ?_, rfl⟩)
    exact List.mem_append_right _ (List.mem_cons_self ..)

/-- An interrupted `disableLock` loses nothing if it comes before the envelope is
deleted or the envelope can be done without, and only then. -/
theorem kept_disableLock_iff {ck : ContentKey} {held : Table SpaceSecrets.spaceId}
    (hstart : startUp user s = ⟨some ck, some held, false⟩) (k : ℕ) :
    (s.view user).Kept ((after write (disableLock (some ck) held ivs s) k s).view user) ↔
      (∀ w ∈ (disableLock (some ck) held ivs s).take k, w.endsLock = false) ∨
      Restorable ck held s := by
  have hbefore : ∀ {ws : List (StorageWrite α)}, (∀ w ∈ ws, w ∈ upTo (beforeEnd ck held ivs s)) →
      ((s.view user).Kept ((run write ws s).view user) ↔
        (∀ w ∈ ws, w.endsLock = false) ∨ Restorable ck held s) := by
    intro ws hws
    have hre : ∀ w ∈ ws, Restores ck held ivs s w :=
      fun w hw => restores_of_mem (mem_upTo (hws w hw))
    exact iff_of_true (kept_before_end hstart (restoring_run hre))
      (Or.inl fun w hw => endsLock_of_restores (hre w hw))
  unfold after
  have heq : _ ∨ (none ∉ beforeEnd ck held ivs s ∧ _) := disableLock_eq
  rcases heq with ⟨_, heq⟩ | ⟨hnone, heq⟩
  · rw [heq]
    exact hbefore fun w hw => List.mem_of_mem_take hw
  · rw [heq]
    rcases take_cases (upTo (beforeEnd ck held ivs s)) [] StorageWrite.deleteVault k with
      htake | ⟨j, htake⟩
    · rw [htake]
      exact hbefore fun w hw => List.mem_of_mem_take hw
    · have hrestored : Restored ck held ivs s _ := restored_run hnone
      have hend : StorageWrite.deleteVault ∈
          (upTo (beforeEnd ck held ivs s) ++ [StorageWrite.deleteVault]).take k := by
        rw [htake]
        exact List.mem_append_right _ (List.mem_cons_self ..)
      rw [htake, List.take_nil] at hend ⊢
      rw [run_append]
      constructor
      · intro hkept
        exact Or.inr (restorable_of_kept hstart hrestored hkept)
      · intro h
        rcases h with hends | hrestorable
        · cases hends _ hend
        · exact kept_of_restorable hstart hrestored hrestorable

/-- Turning the lock on is safe up to the first sealed write and again from the
envelope on; turning it off is safe until the envelope goes, and past that when
everything it was needed for has been put back. -/
theorem lockSwitch_interrupted (user : User) (ivs : Ivs) (s : DeviceStorage α) (k : ℕ) :
    (s.vault = none → ∀ options : LockOptions,
      ((s.view user).Kept ((after write (enableLock options user ivs s) k s).view user) ↔
        (∀ w ∈ (enableLock options user ivs s).take k, w.seals = false) ∨
          ∃ w ∈ (enableLock options user ivs s).take k, w.isEnvelope = true)) ∧
      ∀ ck held, startUp user s = ⟨some ck, some held, false⟩ →
        ((s.view user).Kept ((after write (disableLock (some ck) held ivs s) k s).view user) ↔
          (∀ w ∈ (disableLock (some ck) held ivs s).take k, w.endsLock = false) ∨
          Restorable ck held s) :=
  ⟨fun hvault options => kept_enableLock_iff options hvault k,
    fun _ _ hstart => kept_disableLock_iff hstart k⟩

/-- A device without a lock, with one space and one message in it. -/
def oneMessage : DeviceStorage ℕ where
  vault := none
  spaces := .singleton ⟨1, 0, .plain none, 0, false⟩
  «meta» :=
    fun _ => ⟨some ⟨11, 12, 13⟩, none, some (createKeyring 100 1), some ⟨21, true⟩, some ⟨22, true⟩⟩
  rows := .singleton ⟨⟨1, .messages, 0⟩, .plain 7⟩

def oneUser : User := ⟨3, fun _ _ => 0⟩

def oneIvs : Ivs := ⟨fun _ => 0, fun _ => 0, 0⟩

def oneOptions : LockOptions := ⟨.passphrase, 5, 0⟩

/-- Cut after its first write, turning the lock on leaves the message sealed under a
key that nothing stored leads to. -/
theorem lockSwitch_interrupted_oneMessage :
    ¬ ∀ (user : User) (ivs : Ivs) (s : DeviceStorage ℕ) (k : ℕ),
    (s.vault = none → ∀ options : LockOptions,
      (s.view user).Kept ((after write (enableLock options user ivs s) k s).view user)) ∧
      ∀ ck held, startUp user s = ⟨some ck, some held, false⟩ →
        (s.view user).Kept ((after write (disableLock (some ck) held ivs s) k s).view user) := by
  intro h
  have hkept := (h oneUser oneIvs oneMessage 1).1 rfl oneOptions
  have hread : (oneMessage.view oneUser).row ⟨1, .messages, 0⟩ = some 7 := by decide
  have hlost : ((after write (enableLock oneOptions oneUser oneIvs oneMessage) 1 oneMessage).view
      oneUser).row ⟨1, .messages, 0⟩ = none := by decide
  rw [hkept.row _ _ hread] at hlost
  cases hlost

def oneLocked : DeviceStorage ℕ :=
  after write (enableLock oneOptions oneUser oneIvs oneMessage) 7 oneMessage

/-- With the lock turned on and off again the device is as before. -/
theorem lockSwitch_interrupted_atEnd : (oneMessage.view oneUser).Kept (oneLocked.view oneUser) ∧
    (oneLocked.view oneUser).Kept
      ((after write
        (disableLock (some (oneOptions.keys oneUser).contentKey) oneMessage.collected
          oneIvs oneLocked)
        7 oneLocked).view oneUser) := by
  have hstart : startUp oneUser oneLocked =
      ⟨some (oneOptions.keys oneUser).contentKey, some oneMessage.collected, false⟩ := rfl
  refine ⟨((lockSwitch_interrupted oneUser oneIvs oneMessage 7).1 rfl oneOptions).mpr
    (Or.inr (by decide)),
    ((lockSwitch_interrupted oneUser oneIvs oneLocked 7).2 _ _ hstart).mpr (Or.inr ⟨?_, ?_⟩)⟩
  · intro id row value hrow _ _
    have hid : row.id = id := (Table.get?_eq_some.mp hrow).2
    have hspace : ∀ r ∈ oneLocked.rows, (oneMessage.collected.get? r.id.space).isSome := by decide
    exact hid ▸ hspace row (Table.mem_of_get? hrow)
  · intro space secrets hget _
    have hpair : ∀ c ∈ oneMessage.collected, c.deviceKeyPair.isSome := by decide
    exact Or.inl (hpair secrets (Table.mem_of_get? hget))

end SendSelf.DeviceStorage
