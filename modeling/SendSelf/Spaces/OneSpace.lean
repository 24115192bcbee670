import SendSelf.Spaces.Routing

/-!
# The secrets in memory belong to one space

As long as every run goes on in the space that it went to wait in, and a poll for a pairing
package starts on the list, what the page holds is the open space's own: whatever is
navigated, synchronised, rotated, minted, sealed again or linked meanwhile, and wherever it
fails.
-/
namespace SendSelf.Page

open Coroutine

variable {p₀ p : Page}

/-- A page that has just started: no space is open. -/
structure Started (p : Page) : Prop where
  active : p.active = none
  activeSpace : p.activeSpace = none
  secrets : p.secrets = .none
  arrivals : p.arrivals = []

theorem sound_started (h : Started p₀) : Sound p₀ p₀ where
  stored := fun _ _ hx => .stored hx
  unlocked := fun _ _ hget _ hx => .unlocked hget hx
  active := h.active.trans h.activeSpace.symm
  closed := fun _ => h.secrets
  held := fun space hs => by
    rw [h.active] at hs
    cases hs

/-- All four secrets, if they are held, are those of one space, which is the open one;
and a session is not held together with the keyring of another space. -/
structure OneSpace (p₀ p : Page) : Prop where
  all : ∀ session keyring pair signing,
    p.secrets = ⟨some session, some keyring, some pair, some signing⟩ →
    ∃ space, p.activeSpace = some space ∧ p.active = some space ∧
      ∀ x, p.secrets.Has x → Of p₀ p.arrivals space x
  paired : ∀ session keyring, p.secrets.session = some session → p.secrets.keyring = some keyring →
    ∃ space, Of p₀ p.arrivals space (.session session) ∧ RingOf p₀ p space keyring

theorem Sound.oneSpace (h : Sound p₀ p) : OneSpace p₀ p := by
  constructor
  · intro session keyring pair signing hsecrets
    obtain ⟨space, hw⟩ := h.within (congrArg OpenSecrets.session hsecrets)
    exact ⟨space, h.active.symm.trans hw.active, hw.active, fun x hx => hw.held hx⟩
  · intro session keyring hsession hkeyring
    obtain ⟨space, hw⟩ := h.within hsession
    exact ⟨space, hw.held hsession, hw.ringOf hkeyring⟩

/-- The page and the runs on it at one moment. -/
abbrev PageState := LoopState Page (Option SpaceId) PageJob PageOp.Answer

/-- In every run whose steps find the space they left. -/
theorem one_space (p₀ : Page) (hstart : Started p₀) (w : PageState)
    (h : Runs.ReachableVia routing.step (Loop.Guarded OnTheList Undisturbed) ⟨p₀, []⟩ w) :
    OneSpace p₀ w.state := by
  have hjobs : ∀ job p, Sound p₀ p → OnTheList job p → Keeps p₀ job.program p :=
    fun job _ hs hlist => pre_program job hs hlist
  have hsound : Sound p₀ w.state := by
    refine (loop_invariant (L := routing) (I := Sound p₀) (R := fun p p' =>
      p.arrivals ⊆ p'.arrivals)
      (H := Undisturbed) (fun _ => List.Subset.refl _) (fun _ _ _ => List.Subset.trans) hjobs
      (sound_started hstart) (fun t ht => ?_) h).1
    cases ht
  exact hsound.oneSpace

def secretsOf (space : SpaceId) : SpaceSecrets where
  spaceId := space
  session := ⟨space, space, space⟩
  keyring := createKeyring space INITIAL_KEY_EPOCH
  deviceKeyPair := some ⟨space⟩
  signingKeyPair := some ⟨space⟩

/-- An unlocked device with two spaces, on the list. -/
def twoSpaces : Page where
  route := .spaces
  locked := false
  registered := [1, 2]
  unlocked := some ⟨[secretsOf 1, secretsOf 2], by decide⟩
  «meta» := fun _ => ⟨none, none, none, none, none⟩
  pendingPairing := none
  active := none
  activeSpace := none
  secrets := .none
  running := false
  signingKeyPublished := false
  linking := false
  linkTimer := none
  arrivals := []

/-- Nothing fails, and the server has nothing new. -/
def quiet : PageInput := ⟨false, 0, false, .notReady, ⟨[], false⟩, ⟨false, 1⟩, none⟩

def quietly (i : ℕ) : List (LoopEvent PageInput PageJob) := [.perform i quiet, .resume i]

/-- The second run has read the registry before the first one opens its space. -/
def twoRuns : List (LoopEvent PageInput PageJob) :=
  [.start (.navigate (.space 1)), .start (.navigate (.space 2)), .perform 0 quiet,
    .perform 1 quiet, .resume 0,
    .resume 1] ++ quietly 0 ++ quietly 1 ++ quietly 0

/-- What is a space's own at first, on this device. -/
theorem of_twoSpaces {space : SpaceId} {x : Secret} (h : Of twoSpaces [] space x) :
    (secretsOf space).Has x := by
  induction h with
  | stored hx =>
    obtain ⟨key, entry, hget, -⟩ := hx
    cases key <;> cases hget
  | @unlocked x secrets hget hx =>
    have hmem : secrets ∈ [secretsOf 1, secretsOf 2] ∧ secrets.spaceId = space :=
      Table.get?_eq_some.mp hget
    simp only [List.mem_cons, List.not_mem_nil, or_false] at hmem
    obtain ⟨rfl | rfl, rfl⟩ := hmem
    · exact hx
    · exact hx
  | joined hmem _ => cases hmem
  | under _ hmem _ => cases hmem

/-- The session of one space is held together with the keyring of another. -/
theorem one_space_twoRuns : ¬ ∀ p₀ : Page, Started p₀ →
    ∀ w, Runs.Reachable routing.step ⟨p₀, []⟩ w → OneSpace p₀ w.state := by
  intro h
  have hrun : (Runs.replay routing.step ⟨twoSpaces, []⟩ twoRuns).any (fun w => decide
      (w.state.secrets.session = some (secretsOf 2).session ∧
        w.state.secrets.keyring = some (secretsOf 1).keyring ∧
        w.state.arrivals = [])) = true := by decide
  obtain ⟨w, hw, hsession, hkeyring, harrivals⟩ := Runs.exists_reachable_of_replay hrun
  obtain ⟨space, hs, hk⟩ := (h twoSpaces ⟨rfl, rfl, rfl, rfl⟩ w hw).paired _ _ hsession hkeyring
  rw [harrivals] at hs
  have htwo : (secretsOf 2).session = (secretsOf space).session := of_twoSpaces hs
  obtain rfl : 2 = space := congrArg Session.deviceId htwo
  have hone : Of twoSpaces [] 2 (.groupKey 1) := harrivals ▸ hk 1 ⟨1, by decide⟩
  obtain ⟨epoch, hkey⟩ := of_twoSpaces hone
  simp [secretsOf, createKeyring] at hkey

/-- One space is entered, and a rotated key arrives in it and moves into the envelope; then it
is left for the other. -/
def oneByOne : List (LoopEvent PageInput PageJob) :=
  let delivered := { quiet with messages := ⟨[⟨2, wrapRotatedKey 1 7 1 2 1⟩], false⟩ }
  let await : ℕ → ℕ → List (LoopEvent PageInput PageJob) :=
    fun n i => (List.replicate n (quietly i)).flatten
  .start (.navigate (.space 1)) :: await 9 0 ++
    .start .syncNow :: await 5 1 ++ [.perform 1 delivered, .resume 1] ++ await 5 1 ++
    .start .refreshVault :: await 9 2 ++
    .start (.navigate (.space 2)) :: await 9 3

theorem one_space_oneByOne : ∃ w,
    Runs.ReachableVia routing.step (Loop.Guarded OnTheList Undisturbed) ⟨twoSpaces, []⟩ w ∧
      (w.state.active = some 2 ∧ w.state.secrets = (secretsOf 2).load (twoSpaces.meta 2) ∧
        (w.state.vaulted 1).map SpaceSecrets.keyring = some (withEpoch (secretsOf 1).keyring 2 7)) ∧
      OneSpace twoSpaces w.state := by
  have hrun :
      (Runs.replayVia routing.step (Loop.Guarded OnTheList Undisturbed) ⟨twoSpaces,
        []⟩ oneByOne).any
      (fun w =>
        decide (w.state.active = some 2 ∧ w.state.secrets = (secretsOf 2).load (twoSpaces.meta 2) ∧
        (w.state.vaulted 1).map SpaceSecrets.keyring =
          some (withEpoch (secretsOf 1).keyring 2 7))) = true := by
    decide
  obtain ⟨w, hw, hstate⟩ := (Option.any_eq_true _ _).mp hrun
  have hreach := Runs.reachableVia_of_replayVia hw
  exact ⟨w, hreach, of_decide_eq_true hstate, one_space twoSpaces ⟨rfl, rfl, rfl, rfl⟩ w hreach⟩

end SendSelf.Page
