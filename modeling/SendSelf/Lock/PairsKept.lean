import SendSelf.Lock.PairSteps

/-!
# No pair is lost

Over a whole run: a space that stays has every key pair that it had, in its own store or in the
envelope. A refresh alone can lose them, since it deletes the pairs that it could not seal.
-/
namespace SendSelf.Lock
open Runs
open DeviceStorage (LockOptions)

variable {had : SpaceId → PairKind → Option KeyPair} {p : Page}

structure Page.Inv (had : SpaceId → PairKind → Option KeyPair) (p : Page) : Prop where
  kept : Kept had p.core
  facts : ∀ task ∈ p.tasks, Fact had task.seen task.pc ∧ Since task.seen p.core

theorem Page.Inv.core (h : p.Inv had) {c : Core} (hk : Kept had c) (hs : Since p.core c) :
    Page.Inv had { p with core := c } :=
  ⟨hk, fun task htask => ⟨(h.facts task htask).1, (h.facts task htask).2.trans hs⟩⟩

theorem Page.Inv.begin (h : p.Inv had) {c : Core} {pc : Pc} (hk : Kept had c) (hs : Since p.core c)
    (hf : Fact had c pc) : (p.begin c pc).Inv had := by
  refine ⟨hk, fun task htask => ?_⟩
  rcases List.mem_append.mp htask with htask | htask
  · exact (h.core hk hs).facts task htask
  · obtain rfl := List.mem_singleton.mp htask
    exact ⟨hf, .refl c⟩

theorem Page.Inv.goOn (h : p.Inv had) (k : ℕ) {next : Core × Option Pc} (hgoes : Goes had next)
    (hs : Since p.core next.1) : (p.goOn k next).Inv had := by
  refine ⟨hgoes.1, fun task htask => ?_⟩
  rcases Tasks.mem_of_mem_goOn htask with hnext | hold
  · obtain ⟨pc, hpc, rfl⟩ := Option.map_eq_some_iff.mp hnext
    exact ⟨hgoes.2 pc hpc, .refl _⟩
  · exact (h.core hgoes.1 hs).facts task hold

theorem inv_step (h : p.Inv had) {e : Event} {q : Page} (hok : Careful p e)
    (hstep : step p e = some q) : q.Inv had := by
  cases e with
  | enableLock options user =>
    simp only [step] at hstep
    split_ifs at hstep with he
    obtain rfl := Option.some.inj hstep
    refine h.begin h.kept (.refl _) ⟨by rw [he]; rfl, fun x _ k => ?_⟩
    rw [Core.vaultPair, show p.core.vault = none from hok]
    rfl
  | unlock user =>
    obtain ⟨envelope, he, rfl⟩ := Option.map_eq_some_iff.mp hstep
    have hpair : ∀ x k,
        p.core.envelopePair x k = pairIn (sealedSpaces envelope) x k := fun x k => by
      rw [Core.envelopePair, he]
      rfl
    refine h.begin h.kept (.refl _) fun x hx k pair => ⟨fun hv => ?_, fun hv => ?_⟩
    · exact (hpair x k).symm.trans (h.kept.newer (by rw [he]; rfl) x hx k pair hv)
    · exact h.kept.envelope x hx k pair ((hpair x k).trans hv)
  | lockNow =>
    obtain rfl := Option.some.inj hstep
    refine h.core h.kept.lockNow ?_
    unfold Core.lockNow
    split_ifs <;> exact .of_eq rfl rfl
  | refreshVault =>
    obtain ⟨pc, hpc, rfl⟩ := Option.map_eq_some_iff.mp hstep
    exact h.begin h.kept (.refl _) (fact_refreshVault h.kept hok hpc)
  | disableLock =>
    obtain ⟨pc, hpc, rfl⟩ := Option.map_eq_some_iff.mp hstep
    exact h.begin h.kept (.refl _) (fact_disableLock h.kept hpc)
  | forgetSpace x =>
    obtain rfl := Option.some.inj hstep
    have hgoes := goes_forgetSpace h.kept x
    refine h.begin hgoes.1 ?_ (hgoes.2 _ rfl)
    simp only [Core.forgetSpace]
    split <;> exact ⟨fun _ hy => hy, fun _ hy => List.mem_cons_of_mem _ hy⟩
  | applyRoute x =>
    obtain ⟨next, hnext, rfl⟩ := Option.map_eq_some_iff.mp hstep
    have hgoes := goes_applyRoute h.kept hnext
    refine h.begin hgoes.1 ?_ (hgoes.2 _ rfl)
    unfold Core.applyRoute at hnext
    split_ifs at hnext
    obtain rfl := Option.some.inj hnext
    exact .of_eq rfl rfl
  | closeSpace =>
    obtain rfl := Option.some.inj hstep
    exact h.core h.kept.closeSpace (.of_eq rfl rfl)
  | adoptPendingKeys keys =>
    obtain ⟨x, _, hstep⟩ := Option.bind_eq_some_iff.mp hstep
    obtain ⟨keyring, _, hstep⟩ := Option.bind_eq_some_iff.mp hstep
    obtain rfl := Option.some.inj hstep
    exact h.begin h.kept (.refl _) trivial
  | rotateGroupKey epoch key =>
    obtain ⟨x, _, hstep⟩ := Option.bind_eq_some_iff.mp hstep
    obtain ⟨keyring, _, hstep⟩ := Option.bind_eq_some_iff.mp hstep
    obtain rfl := Option.some.inj hstep
    exact h.begin h.kept (.refl _) trivial
  | restart =>
    obtain rfl := Option.some.inj hstep
    exact ⟨h.kept.restart, fun _ htask => by cases htask⟩
  | task k input =>
    obtain ⟨task, htask, rfl⟩ := Option.map_eq_some_iff.mp hstep
    obtain ⟨hfact, hsince⟩ := h.facts task (List.mem_of_getElem? htask)
    obtain ⟨hsame, hready⟩ := hok task htask
    exact h.goOn k (goes_advance h.kept input (hfact.now hsince hsame) hready)
      (since_advance p.core input task.pc)

/-- A device without a lock has its pairs in the stores. -/
theorem inv_start (registered : List SpaceId) («meta» : SpaceId → SpaceMeta) :
    (start registered «meta»).Inv fun x k => metaPair («meta» x) k where
  kept :=
    { held := fun _ _ _ _ hp => .inl hp
      «meta» := fun _ _ _ _ hp => hp
      vault := fun _ _ _ _ hp => by cases hp
      envelope := fun _ _ _ _ hp => by cases hp
      map := fun _ _ _ _ hp => by cases hp
      opened := fun _ _ ha => by cases ha
      covers := fun hsome => by cases hsome
      newer := fun hsome => by cases hsome
      keys := fun hsome => by cases hsome }
  facts := fun _ htask => by cases htask

/-- In every careful run each space that stays has the pairs that it had, in its own store or, under
its own name, in the envelope that is stored. -/
theorem pairs_kept {registered : List SpaceId} {«meta» : SpaceId → SpaceMeta} {p : Page}
    (h : ReachableVia step Careful (start registered «meta») p) {x : SpaceId} (hx : p.core.Live x)
    {k : PairKind} {pair : KeyPair} (hp : metaPair («meta» x) k = some pair) :
    p.core.metaPair x k = some pair ∨ p.core.vaultPair x k = some pair :=
  (h.invariant (inv_start registered «meta») fun _ _ _ hi hok hstep =>
    inv_step hi hok hstep).kept.held x hx k pair hp

def underPassphrase : LockOptions := ⟨.passphrase, 1, 0⟩
def theUser : User := ⟨7, fun _ _ => 0⟩

/-- A space with both pairs, which can or cannot be exported. -/
def withPairs (exportable : Bool) : SpaceMeta where
  session := some ⟨1, 2, 3⟩
  groupKey := none
  keyring := some (createKeyring 5 1)
  deviceKeyPair := some ⟨7, exportable⟩
  signingKeyPair := some ⟨8, exportable⟩

/-- These operations go on one after the other. -/
def goingOn (ks : List ℕ) : List Event := ks.map fun k => .task k ⟨0, true, true⟩

/-- The lock is turned on, and space 1 is opened. -/
def lockedAndOpened (drops : ℕ) : List Event :=
  .enableLock underPassphrase theUser :: goingOn (List.replicate (5 + drops) 0) ++
    .applyRoute 1 :: goingOn (List.replicate 5 0)

/-- Pairs that cannot be exported stay in the store when the lock is turned on, and are deleted by
the first refresh: they are nowhere then. -/
theorem pairs_lost : ∃ p, Reachable step (start [1] fun _ => withPairs false) p ∧
    (p.core.Live 1 ∧ ∀ k, p.core.metaPair 1 k = none ∧ p.core.vaultPair 1 k = none) := by
  have hreplay : (replay step (start [1] fun _ => withPairs false)
      (lockedAndOpened 2 ++ .refreshVault :: goingOn (List.replicate 10 0))).any (fun p =>
      decide (p.core.Live 1 ∧ ∀ k, p.core.metaPair 1 k = none ∧ p.core.vaultPair 1 k = none)) =
        true := by
    decide +kernel
  exact exists_reachable_of_replay hreplay

/-- Two refreshes next to each other, a lock, a restart and an unlock keep pairs that can be
exported. -/
theorem pairs_kept_overlapping :
    ∃ p, ReachableVia step Careful (start [1] fun _ => withPairs true) p ∧
    p.core.metaPair 1 .device = none ∧ p.core.vaultPair 1 .device = some ⟨7, true⟩ := by
  have hrun : ((replayVia step Careful (start [1] fun _ => withPairs true) (lockedAndOpened 4 ++
      [.refreshVault, .refreshVault] ++
        goingOn [0, 1, 0, 1, 0, 1, 0, 1, 0, 1, 0, 1, 0, 1, 0, 1, 0, 1, 0, 0] ++
        [.lockNow, .restart, .unlock theUser] ++ goingOn [0])).any fun p =>
      decide (p.core.Live 1 ∧ p.core.metaPair 1 .device = none)) = true := by
    decide +kernel
  obtain ⟨p, hp, hstate⟩ := (Option.any_eq_true _ _).mp hrun
  obtain ⟨hlive, hmeta⟩ := of_decide_eq_true hstate
  have hreach := reachableVia_of_replayVia hp
  refine ⟨p, hreach, hmeta, (pairs_kept hreach hlive rfl).resolve_left ?_⟩
  simp [hmeta]

end SendSelf.Lock
