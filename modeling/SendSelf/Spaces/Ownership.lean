import SendSelf.Spaces.Jobs

/-!
# Whose secrets they are

A secret is a space's own if the device had it for the space when the page started, if a
pairing brought it to the space, or if it came to the page under a session of the space. As
long as a run finds the space it left open, what it reads, writes and holds of the open space
is the space's own; this is what the rules below carry from one await to the next.
-/
namespace SendSelf

def Keyring.Has (ring : Keyring) (key : GroupKey) : Prop := ∃ epoch, (epoch, key) ∈ ring.keys

theorem Keyring.has_withEpoch {ring : Keyring} {epoch : ℕ} {key k : GroupKey}
    (h : (withEpoch ring epoch k).Has key) : key = k ∨ ring.Has key := by
  obtain ⟨e, he⟩ := h
  rcases List.mem_cons.mp he with heq | hmem
  · exact Or.inl (Prod.mk.inj heq).2
  · exact Or.inr ⟨e, List.mem_of_mem_filter hmem⟩

theorem Keyring.has_createKeyring {epoch : ℕ} {key k : GroupKey}
    (h : (createKeyring k epoch).Has key) :
    key = k := by
  obtain ⟨e, he⟩ := h
  exact (Prod.mk.inj (List.mem_singleton.mp he)).2

def MetaEntry.Has : MetaEntry → Secret → Prop
  | .session value, .session x => x = value
  | .groupKey value, .groupKey x => x = value
  | .keyring value, .groupKey x => value.Has x
  | .deviceKeyPair value, .deviceKeyPair x => x = value
  | .signingKeyPair value, .signingKeyPair x => x = value
  | _, _ => False

def SpaceMeta.Has (m : SpaceMeta) (x : Secret) : Prop :=
  ∃ key entry, m.get key = some entry ∧ entry.Has x

theorem SpaceMeta.key_of_get {m : SpaceMeta} {key : MetaKey} {entry : MetaEntry}
    (h : m.get key = some entry) :
    entry.key = key := by
  cases key <;> obtain ⟨value, -, rfl⟩ := Option.map_eq_some_iff.mp h <;> rfl

theorem SpaceMeta.has_set {m : SpaceMeta} {entry : MetaEntry} {x : Secret}
    (h : (m.set entry).Has x) :
    entry.Has x ∨ m.Has x := by
  obtain ⟨key, e, hget, hx⟩ := h
  rw [SpaceMeta.get_set] at hget
  split_ifs at hget
  · obtain rfl := Option.some.inj hget
    exact Or.inl hx
  · exact Or.inr ⟨key, e, hget, hx⟩

theorem SpaceMeta.has_delete {m : SpaceMeta} {gone : MetaKey} {x : Secret}
    (h : (m.delete gone).Has x) :
    m.Has x := by
  obtain ⟨key, e, hget, hx⟩ := h
  rw [SpaceMeta.get_delete] at hget
  split_ifs at hget
  exact ⟨key, e, hget, hx⟩

def SpaceSecrets.Has (secrets : SpaceSecrets) : Secret → Prop
  | .session x => x = secrets.session
  | .groupKey x => secrets.keyring.Has x
  | .deviceKeyPair x => secrets.deviceKeyPair.map importKeyPair = some x
  | .signingKeyPair x => secrets.signingKeyPair.map importKeyPair = some x

def OpenSecrets.Has (secrets : OpenSecrets) : Secret → Prop
  | .session x => secrets.session = some x
  | .groupKey x => ∃ ring, secrets.keyring = some ring ∧ ring.Has x
  | .deviceKeyPair x => secrets.deviceKeyPair = some x
  | .signingKeyPair x => secrets.signingKeyPair = some x

theorem OpenSecrets.not_has_none {x : Secret} : ¬ OpenSecrets.none.Has x := by
  cases x <;> simp [OpenSecrets.Has, OpenSecrets.none]

namespace Page

def vaulted (p : Page) (space : SpaceId) : Option SpaceSecrets :=
  p.unlocked.bind fun unlocked => unlocked.get? space

/-- The secret is the space's own, for a page that started as `p₀`. -/
inductive Of (p₀ : Page) (arrivals : List Arrival) (space : SpaceId) : Secret → Prop
  | stored {x : Secret} : (p₀.meta space).Has x → Of p₀ arrivals space x
  | unlocked {x : Secret} {secrets : SpaceSecrets} : p₀.vaulted space = some secrets →
      secrets.Has x →
      Of p₀ arrivals space x
  | joined {x : Secret} {secrets : OpenSecrets} : .joined space secrets ∈ arrivals → secrets.Has x →
      Of p₀ arrivals space x
  | under {x : Secret} {session : Session} : Of p₀ arrivals space (.session session) →
      .under session x ∈ arrivals → Of p₀ arrivals space x

variable {p₀ p p' p'' : Page} {space : SpaceId}

theorem Of.mono {arrivals later : List Arrival} {x : Secret} (h : Of p₀ arrivals space x)
    (hsub : arrivals ⊆ later) : Of p₀ later space x := by
  induction h with
  | stored hx => exact .stored hx
  | unlocked hget hx => exact .unlocked hget hx
  | joined hmem hx => exact .joined (hsub hmem) hx
  | under _ hmem ih => exact .under ih (hsub hmem)

/-- Every key of the ring is the space's own. -/
def RingOf (p₀ p : Page) (space : SpaceId) (ring : Keyring) : Prop :=
  ∀ key, ring.Has key → Of p₀ p.arrivals space (.groupKey key)

/-- What a read of a space's store gives. -/
structure Read (p₀ p : Page) (space : SpaceId) (key : MetaKey)
    (entry : Option MetaEntry) : Prop where
  key : ∀ e, entry = some e → e.key = key
  own : ∀ e, entry = some e → ∀ x, e.Has x → Of p₀ p.arrivals space x

/-- What is stored for a space is its own, and so is what is held of the open space. -/
structure Sound (p₀ p : Page) : Prop where
  stored : ∀ space x, (p.meta space).Has x → Of p₀ p.arrivals space x
  unlocked : ∀ space secrets, p.vaulted space = some secrets → ∀ x, secrets.Has x →
    Of p₀ p.arrivals space x
  active : p.active = p.activeSpace
  closed : p.active = none → p.secrets = .none
  held : ∀ space, p.active = some space → ∀ x, p.secrets.Has x → Of p₀ p.arrivals space x

/-- What a run that waited at `p` finds at `p'`. -/
structure Next (p₀ p p' : Page) : Prop where
  sound : Sound p₀ p'
  active : p'.active = p.active
  grows : p.arrivals ⊆ p'.arrivals

theorem Next.refl (hs : Sound p₀ p) : Next p₀ p p := ⟨hs, rfl, List.Subset.refl _⟩

theorem Next.trans (h : Next p₀ p p') (h' : Next p₀ p' p'') : Next p₀ p p'' :=
  ⟨h'.sound, h'.active.trans h.active, List.Subset.trans h.grows h'.grows⟩

/-- A throw is caught well wherever the run gets in the space it is in. -/
def Catches (p₀ : Page) (E : Page → Prop) (p : Page) : Prop := ∀ p', Next p₀ p p' → E p'

theorem Catches.next {E : Page → Prop} (h : Catches p₀ E p) (hn : Next p₀ p p') : Catches p₀ E p' :=
  fun p'' hn' => h p'' (hn.trans hn')

theorem catches_sound : Catches p₀ (Sound p₀) p := fun _ hn => hn.sound

/-- In the space, and sound. -/
structure Within (p₀ : Page) (space : SpaceId) (p : Page) : Prop where
  sound : Sound p₀ p
  active : p.active = some space

theorem Within.next (hw : Within p₀ space p) (hn : Next p₀ p p') : Within p₀ space p' :=
  ⟨hn.sound, hn.active.trans hw.active⟩

theorem Within.held (hw : Within p₀ space p) {x : Secret} (hx : p.secrets.Has x) :
    Of p₀ p.arrivals space x :=
  hw.sound.held space hw.active x hx

theorem RingOf.next {ring : Keyring} (h : RingOf p₀ p space ring) (hn : Next p₀ p p') :
    RingOf p₀ p' space ring := fun key hkey => (h key hkey).mono hn.grows

theorem Within.ringOf (hw : Within p₀ space p) {ring : Keyring}
    (h : p.secrets.keyring = some ring) :
    RingOf p₀ p space ring := fun _ hkey => hw.held ⟨ring, h, hkey⟩

theorem RingOf.withEpoch {ring : Keyring} {epoch : ℕ} {key : GroupKey} (h : RingOf p₀ p space ring)
    (hkey : Of p₀ p.arrivals space (.groupKey key)) :
    RingOf p₀ p space (withEpoch ring epoch key) := by
  intro k hk
  rcases Keyring.has_withEpoch hk with rfl | hold
  · exact hkey
  · exact h k hold

/-- Secrets of the open space are set to its own. -/
theorem Within.setSecrets (hw : Within p₀ space p) {held : OpenSecrets}
    (h : ∀ x, held.Has x → Of p₀ p.arrivals space x) : Next p₀ p { p with secrets := held } := by
  refine ⟨⟨hw.sound.stored, hw.sound.unlocked, hw.sound.active, fun hn => ?_, fun q hq => ?_⟩, rfl,
    List.Subset.refl _⟩
  · cases hw.active.symm.trans hn
  · obtain rfl := Option.some.inj (hw.active.symm.trans hq)
    exact h

theorem Within.setSession (hw : Within p₀ space p) {value : Session}
    (h : Of p₀ p.arrivals space (.session value)) :
    Next p₀ p { p with secrets := { p.secrets with session := some value } } := by
  refine hw.setSecrets fun x hx => ?_
  cases x with
  | session v =>
    obtain rfl := Option.some.inj hx
    exact h
  | groupKey | deviceKeyPair | signingKeyPair => exact hw.held hx

theorem Within.setKeyring (hw : Within p₀ space p) {ring : Keyring} (h : RingOf p₀ p space ring) :
    Next p₀ p { p with secrets := { p.secrets with keyring := some ring } } := by
  refine hw.setSecrets fun x hx => ?_
  cases x with
  | groupKey key =>
    obtain ⟨r, hr, hkey⟩ := hx
    obtain rfl := Option.some.inj hr
    exact h key hkey
  | session | deviceKeyPair | signingKeyPair => exact hw.held hx

theorem Within.setDeviceKeyPair (hw : Within p₀ space p) {value : Option KeyPair}
    (h : ∀ pair, value = some pair → Of p₀ p.arrivals space (.deviceKeyPair pair)) :
    Next p₀ p { p with secrets := { p.secrets with deviceKeyPair := value } } := by
  refine hw.setSecrets fun x hx => ?_
  cases x with
  | deviceKeyPair pair => exact h pair hx
  | session | groupKey | signingKeyPair => exact hw.held hx

theorem Within.setSigningKeyPair (hw : Within p₀ space p) {value : Option KeyPair}
    (h : ∀ pair, value = some pair → Of p₀ p.arrivals space (.signingKeyPair pair)) :
    Next p₀ p { p with secrets := { p.secrets with signingKeyPair := value } } := by
  refine hw.setSecrets fun x hx => ?_
  cases x with
  | signingKeyPair pair => exact h pair hx
  | session | groupKey | deviceKeyPair => exact hw.held hx

/-- A change of what no secret is read from. -/
theorem Sound.of_eq (hs : Sound p₀ p) (hmeta : p'.meta = p.meta)
    (hunlocked : p'.unlocked = p.unlocked)
    (hactive : p'.active = p.active) (hspace : p'.activeSpace = p.activeSpace)
    (hsecrets : p'.secrets = p.secrets) (hgrows : p.arrivals ⊆ p'.arrivals) : Sound p₀ p' where
  stored := fun space x hx => (hs.stored space x (hmeta ▸ hx)).mono hgrows
  unlocked := fun space secrets hget x hx =>
    (hs.unlocked space secrets (by rwa [vaulted, hunlocked] at hget) x hx).mono hgrows
  active := by rw [hactive, hspace, hs.active]
  closed := fun hn => by rw [hsecrets, hs.closed (hactive ▸ hn)]
  held := fun space hspace' x hx =>
    (hs.held space (hactive ▸ hspace') x (hsecrets ▸ hx)).mono hgrows

theorem Next.of_eq (hs : Sound p₀ p) (hmeta : p'.meta = p.meta)
    (hunlocked : p'.unlocked = p.unlocked)
    (hactive : p'.active = p.active) (hspace : p'.activeSpace = p.activeSpace)
    (hsecrets : p'.secrets = p.secrets) (hgrows : p.arrivals ⊆ p'.arrivals) : Next p₀ p p' :=
  ⟨hs.of_eq hmeta hunlocked hactive hspace hsecrets hgrows, hactive, hgrows⟩

theorem Next.arrive (hs : Sound p₀ p) (arrival : Arrival) :
    Next p₀ p { p with arrivals := arrival :: p.arrivals } :=
  .of_eq hs rfl rfl rfl rfl rfl (List.subset_cons_self ..)

theorem Sound.setMeta (hs : Sound p₀ p) {m : SpaceMeta}
    (hm : ∀ x, m.Has x → Of p₀ p.arrivals space x) :
    Sound p₀ (p.setMeta space m) := by
  refine ⟨fun q x hx => ?_, hs.unlocked, hs.active, hs.closed, hs.held⟩
  simp only [Page.setMeta, Function.update_apply] at hx
  split_ifs at hx with hq
  · exact hq ▸ hm x hx
  · exact hs.stored q x hx

open Coroutine hiding await
open Prog

/-- The preconditions of this development: what has arrived is not forgotten, and every run
goes on where it was. -/
abbrev Pre {α : Type} (p₀ : Page) (E : Page → Prop) (prog : Prog α) (Q : α → Page → Prop)
    (p : Page) : Prop :=
  routing.wp (Sound p₀) (fun p p' => p.arrivals ⊆ p'.arrivals) (fun left p =>
    p.active = left) prog Q E p

section Rules

variable {E : Page → Prop} {key : MetaKey}

theorem perform_arrivals (op : PageOp) (input : PageInput) (p : Page) :
    (p.perform op input).1.arrivals = p.arrivals := by
  cases op <;> rfl

theorem pre_await {op : PageOp} {Q : op.Result → Page → Prop} (hs : Sound p₀ p)
    (hE : Catches p₀ E p)
    (hop : ∀ p₁ input, Sound p₀ p₁ → p.arrivals ⊆ p₁.arrivals → Sound p₀ (p₁.perform op input).1)
    (h : ∀ p₁ input p', Sound p₀ p₁ → p₁.arrivals ⊆ p'.arrivals → Next p₀ p p' →
      Q (p₁.perform op input).2 p') : Pre p₀ E (await op) Q p := by
  unfold await
  simp only [Pre, wp_bind]
  refine wp_call.mpr ⟨hs, fun p₁ input hs₁ hg₁ => ?_⟩
  have hexec : routing.exec op input p₁ = p₁.exec op input := rfl
  rw [hexec, exec]
  split_ifs
  · exact ⟨hs₁, List.Subset.refl _, fun p' hs' hg' ha => hE p' ⟨hs', ha, List.Subset.trans hg₁ hg'⟩⟩
  · have harr := perform_arrivals op input p₁
    refine ⟨hop p₁ input hs₁ hg₁, by rw [harr]; exact List.Subset.refl _, fun p' hs' hg' ha => ?_⟩
    rw [harr] at hg'
    exact h p₁ input p' hs₁ hg' ⟨hs', ha, List.Subset.trans hg₁ hg'⟩

/-- An await that changes nothing a secret is read from. -/
theorem pre_quiet {op : PageOp} {Q : op.Result → Page → Prop} (hs : Sound p₀ p)
    (hE : Catches p₀ E p) (hop : ∀ p₁ input, Sound p₀ p₁ → Sound p₀ (p₁.perform op input).1)
    (h : ∀ r p', Next p₀ p p' → Q r p') : Pre p₀ E (await op) Q p :=
  pre_await hs hE (fun p₁ input hs₁ _ => hop p₁ input hs₁) fun _ _ p' _ _ hn => h _ p' hn

theorem pre_turn {Q : Unit → Page → Prop} (hs : Sound p₀ p) (hE : Catches p₀ E p)
    (h : ∀ p', Next p₀ p p' → Q () p') : Pre p₀ E turn Q p :=
  pre_quiet hs hE (fun _ _ hs₁ => hs₁) fun _ => h

theorem pre_metaGet {Q : Option MetaEntry → Page → Prop} (hs : Sound p₀ p) (hE : Catches p₀ E p)
    (h : ∀ entry p', Next p₀ p p' → Read p₀ p' space key entry → Q entry p') :
    Pre p₀ E (metaGet space key) Q p :=
  pre_await hs hE (fun _ _ hs₁ _ => hs₁) fun _ _ p' hs₁ hg hn => h _ p' hn
    ⟨fun _ he => SpaceMeta.key_of_get he,
      fun e he x hx => (hs₁.stored space x ⟨key, e, he, hx⟩).mono hg⟩

theorem pre_metaSet {entry : MetaEntry} {Q : Unit → Page → Prop} (hs : Sound p₀ p)
    (hE : Catches p₀ E p)
    (hentry : ∀ x, entry.Has x → Of p₀ p.arrivals space x) (h : ∀ p', Next p₀ p p' → Q () p') :
    Pre p₀ E (metaSet space entry) Q p := by
  refine pre_await hs hE (fun p₁ _ hs₁ hg => hs₁.setMeta fun x hx => ?_) fun _ _ p' _ _ hn =>
    h p' hn
  rcases SpaceMeta.has_set hx with hnew | hold
  · exact (hentry x hnew).mono hg
  · exact hs₁.stored space x hold

theorem pre_metaDelete {Q : Unit → Page → Prop} (hs : Sound p₀ p) (hE : Catches p₀ E p)
    (h : ∀ p', Next p₀ p p' → Q () p') : Pre p₀ E (metaDelete space key) Q p :=
  pre_quiet hs hE (fun _ _ hs₁ => hs₁.setMeta fun x hx =>
    hs₁.stored space x (SpaceMeta.has_delete hx))
    fun _ => h

/-- The open space is what a call without one is made against. -/
theorem pre_db {Q : SpaceId → Page → Prop} (hw : Within p₀ space p) (h : Q space p) :
    Pre p₀ E db Q p := by
  simp only [Pre, db, wp_bind, wp_read, hw.active]
  exact h

theorem pre_arrive {arrival : Arrival} {Q : Unit → Page → Prop} (hs : Sound p₀ p)
    (h : ∀ p', Next p₀ p p' → arrival ∈ p'.arrivals → Q () p') : Pre p₀ E (arrive arrival) Q p :=
  ⟨List.subset_cons_self .., h _ (.arrive hs arrival) (List.mem_cons_self ..)⟩

end Rules

end Page
end SendSelf
