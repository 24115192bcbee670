import SendSelf.Spaces.Ownership

/-!
# Every job keeps to the open space

One rule for each program of the page: a run that finds the space it left open reads what is
the space's own, and what it stores and sets is the space's own too.
-/
namespace SendSelf.Page

open Coroutine hiding await
open Prog

variable {p₀ p : Page} {E : Page → Prop} {space : SpaceId} {entry : Option MetaEntry}

theorem Read.session (h : Read p₀ p space .session entry) {value : Session}
    (hv : asSession entry = some value) :
    Of p₀ p.arrivals space (.session value) := by
  unfold asSession at hv
  split at hv
  · obtain rfl := Option.some.inj hv
    exact h.own _ rfl _ rfl
  · cases hv

theorem Read.groupKey (h : Read p₀ p space .groupKey entry) {value : GroupKey}
    (hv : asGroupKey entry = some value) : Of p₀ p.arrivals space (.groupKey value) := by
  unfold asGroupKey at hv
  split at hv
  · obtain rfl := Option.some.inj hv
    exact h.own _ rfl _ rfl
  · cases hv

theorem Read.keyring (h : Read p₀ p space .keyring entry) {value : Keyring}
    (hv : asKeyring entry = some value) :
    RingOf p₀ p space value := by
  unfold asKeyring at hv
  split at hv
  · obtain rfl := Option.some.inj hv
    exact fun key hkey => h.own _ rfl (.groupKey key) hkey
  · cases hv

theorem Read.deviceKeyPair (h : Read p₀ p space .deviceKeyPair entry) {value : KeyPair}
    (hv : asKeyPair entry = some value) : Of p₀ p.arrivals space (.deviceKeyPair value) := by
  unfold asKeyPair at hv
  split at hv
  · obtain rfl := Option.some.inj hv
    exact h.own _ rfl _ rfl
  · cases h.key _ rfl
  · cases hv

theorem Read.signingKeyPair (h : Read p₀ p space .signingKeyPair entry) {value : KeyPair}
    (hv : asKeyPair entry = some value) : Of p₀ p.arrivals space (.signingKeyPair value) := by
  unfold asKeyPair at hv
  split at hv
  · cases h.key _ rfl
  · obtain rfl := Option.some.inj hv
    exact h.own _ rfl _ rfl
  · cases hv

theorem pre_saveKeyring {ring : Keyring} {Q : Unit → Page → Prop} (hw : Within p₀ space p)
    (hE : Catches p₀ E p) (hring : RingOf p₀ p space ring) (h : ∀ p', Next p₀ p p' → Q () p') :
    Pre p₀ E (saveKeyring ring) Q p := by
  unfold saveKeyring
  simp only [Pre, wp_bind]
  refine pre_db hw (pre_metaSet hw.sound hE (fun x hx => ?_) h)
  cases x with
  | groupKey key => exact hring key hx
  | session | deviceKeyPair | signingKeyPair => cases hx

/-- The ring that replaces the single key of an old store is made of that key. -/
theorem pre_upgradeGroupKey {Q : Option Keyring → Page → Prop} (hw : Within p₀ space p)
    (hE : Catches p₀ E p)
    (h : ∀ ring p', Next p₀ p p' → (∀ r, ring = some r → RingOf p₀ p' space r) → Q ring p') :
    Pre p₀ E upgradeGroupKey Q p := by
  unfold upgradeGroupKey
  simp only [Pre, wp_bind]
  refine pre_db hw (pre_metaGet hw.sound hE fun entry p₁ hn₁ hread => ?_)
  cases hkey : asGroupKey entry with
  | none => exact h none p₁ hn₁ fun _ hr => by cases hr
  | some legacy =>
    have hring : RingOf p₀ p₁ space (createKeyring legacy INITIAL_KEY_EPOCH) := by
      intro key hhas
      obtain rfl := Keyring.has_createKeyring hhas
      exact hread.groupKey hkey
    have hw₁ := hw.next hn₁
    simp only [wp_bind]
    refine pre_saveKeyring hw₁ (hE.next hn₁) hring fun p₂ hn₂ => ?_
    have hn₁₂ := hn₁.trans hn₂
    refine pre_db (hw.next hn₁₂) (pre_metaDelete hn₂.sound (hE.next hn₁₂) fun p₃ hn₃ => ?_)
    refine h _ p₃ (hn₁₂.trans hn₃) fun r hr => ?_
    obtain rfl := Option.some.inj hr
    exact hring.next (hn₂.trans hn₃)

theorem pre_loadKeyring {Q : Option Keyring → Page → Prop} (hw : Within p₀ space p)
    (hE : Catches p₀ E p)
    (h : ∀ ring p', Next p₀ p p' → (∀ r, ring = some r → RingOf p₀ p' space r) → Q ring p') :
    Pre p₀ E (loadKeyring space) Q p := by
  unfold loadKeyring
  simp only [Pre, wp_bind]
  refine pre_metaGet hw.sound hE fun entry p₁ hn₁ hread => ?_
  cases hring : asKeyring entry with
  | some stored =>
    refine h _ p₁ hn₁ fun r hr => ?_
    obtain rfl := Option.some.inj hr
    exact hread.keyring hring
  | none =>
    exact pre_upgradeGroupKey (hw.next hn₁) (hE.next hn₁) fun ring p₂ hn₂ =>
      h ring p₂ (hn₁.trans hn₂)

theorem pre_loadSession {Q : Unit → Page → Prop} (hw : Within p₀ space p) (hE : Catches p₀ E p)
    (h : ∀ p', Next p₀ p p' → Q () p') : Pre p₀ E loadSession Q p := by
  unfold loadSession
  simp only [Pre, wp_bind]
  refine pre_db hw (pre_metaGet hw.sound hE fun e₁ p₁ hn₁ hread₁ => ?_)
  refine pre_loadKeyring (hw.next hn₁) (hE.next hn₁) fun ring p₂ hn₂ hring => ?_
  have hn₁₂ := hn₁.trans hn₂
  refine pre_metaGet hn₂.sound (hE.next hn₁₂) fun e₃ p₃ hn₃ hread₃ => ?_
  have hn₁₃ := hn₁₂.trans hn₃
  refine pre_metaGet hn₃.sound (hE.next hn₁₃) fun e₄ p₄ hn₄ hread₄ => ?_
  have hn₁₄ := hn₁₃.trans hn₄
  split
  · next session keyring pair hsession hpair =>
    have hset :
        Next p₀ p₄ { p₄ with
          secrets := ⟨some session, some keyring, some pair, asKeyPair e₄⟩ } := by
      refine (hw.next hn₁₄).setSecrets fun x hx => ?_
      cases x with
      | session value =>
        obtain rfl := Option.some.inj hx
        exact (hread₁.session hsession).mono (hn₂.trans (hn₃.trans hn₄)).grows
      | groupKey key =>
        obtain ⟨r, hr, hkey⟩ := hx
        obtain rfl := Option.some.inj hr
        exact (hring _ rfl).next (hn₃.trans hn₄) key hkey
      | deviceKeyPair value =>
        obtain rfl := Option.some.inj hx
        exact (hread₃.deviceKeyPair hpair).mono hn₄.grows
      | signingKeyPair value => exact hread₄.signingKeyPair hx
    exact ⟨hset.grows, h _ (hn₁₄.trans hset)⟩
  · exact h p₄ hn₁₄

/-- The pair that is loaded, sealed or not. -/
theorem pre_loadKeyPair (kind : KeyPair → Secret) {sealed : Option SerializedKeyPair}
    {key : MetaKey}
    {Q : Option KeyPair → Page → Prop} (hw : Within p₀ space p) (hE : Catches p₀ E p)
    (hsealed : ∀ pair, sealed.map importKeyPair = some pair → Of p₀ p.arrivals space (kind pair))
    (hkey : ∀ p' entry pair, Read p₀ p' space key entry → asKeyPair entry = some pair →
      Of p₀ p'.arrivals space (kind pair))
    (h : ∀ pair p', Next p₀ p p' → (∀ x, pair = some x → Of p₀ p'.arrivals space (kind x)) →
      Q pair p') :
    Pre p₀ E (loadKeyPair space sealed key) Q p := by
  unfold loadKeyPair
  cases sealed with
  | some pair =>
    simp only [Pre, wp_bind]
    refine pre_turn hw.sound hE fun p' hn => h _ p' hn fun x hx => ?_
    exact (hsealed x hx).mono hn.grows
  | none =>
    simp only [Pre, wp_bind]
    exact pre_metaGet hw.sound hE fun entry p' hn hread => h _ p' hn fun x hx =>
      hkey p' entry x hread hx

/-- What is loaded into the memory of a space is its own, from its store or from its envelope. -/
theorem pre_load {Q : Bool → Page → Prop} (hw : Within p₀ space p) (hE : Catches p₀ E p)
    (h : ∀ loaded p', Next p₀ p p' → Q loaded p') : Pre p₀ E (load space) Q p := by
  unfold load
  simp only [Pre, wp_bind, wp_read]
  cases hget : p.unlocked.bind fun unlocked => unlocked.get? space with
  | none => exact h false p (.refl hw.sound)
  | some secrets =>
    have hown : ∀ x, secrets.Has x → Of p₀ p.arrivals space x :=
      hw.sound.unlocked space secrets hget
    simp only [setSession, setKeyring, setDeviceKeyPair, setSigningKeyPair, wp_bind, wp_write]
    have hn₁ := hw.setSession (hown (.session secrets.session) rfl)
    refine ⟨hn₁.grows, pre_turn hn₁.sound (hE.next hn₁) fun p₂ hn₂ => ?_⟩
    have hn₁₂ := hn₁.trans hn₂
    have hring : RingOf p₀ p₂ space secrets.keyring := fun key hkey =>
      (hown (.groupKey key) hkey).mono hn₁₂.grows
    have hn₃ := (hw.next hn₁₂).setKeyring hring
    have hn₁₃ := hn₁₂.trans hn₃
    refine ⟨hn₃.grows, ?_⟩
    refine pre_loadKeyPair .deviceKeyPair (hw.next hn₁₃) (hE.next hn₁₃)
      (fun pair hpair => (hown (.deviceKeyPair pair) hpair).mono hn₁₃.grows)
      (fun _ _ _ hread => hread.deviceKeyPair) fun pair p₄ hn₄ hpair => ?_
    have hn₁₄ := hn₁₃.trans hn₄
    have hn₅ := (hw.next hn₁₄).setDeviceKeyPair hpair
    have hn₁₅ := hn₁₄.trans hn₅
    refine ⟨hn₅.grows, ?_⟩
    refine pre_loadKeyPair .signingKeyPair (hw.next hn₁₅) (hE.next hn₁₅)
      (fun pair hpair => (hown (.signingKeyPair pair) hpair).mono hn₁₅.grows)
      (fun _ _ _ hread => hread.signingKeyPair) fun signing p₆ hn₆ hsigning => ?_
    have hn₁₆ := hn₁₅.trans hn₆
    have hn₇ := (hw.next hn₁₆).setSigningKeyPair hsigning
    exact ⟨hn₇.grows, h true _ (hn₁₆.trans hn₇)⟩

/-- A job of the open space ends well wherever it ends soundly. -/
abbrev Keeps (p₀ : Page) {α : Type} (prog : Prog α) (p : Page) : Prop :=
  Pre p₀ (Sound p₀) prog (fun _ => Sound p₀) p

theorem Sound.enter (hs : Sound p₀ p) (hnone : p.active = none) (space : SpaceId) :
    Within p₀ space { p with active := some space, activeSpace := some space } := by
  refine ⟨⟨hs.stored, hs.unlocked, rfl, fun hn => (by cases hn), fun q _ x hx => ?_⟩, rfl⟩
  have hx' : p.secrets.Has x := hx
  rw [hs.closed hnone] at hx'
  exact absurd hx' OpenSecrets.not_has_none

theorem Sound.close (hs : Sound p₀ p) :
    Sound p₀ { p with active := none, activeSpace := none, secrets := .none } :=
  ⟨hs.stored, hs.unlocked, rfl, fun _ => rfl, fun _ hq => by cases hq⟩

/-- Opening a space takes up only what is its own. -/
theorem pre_openSpace (hs : Sound p₀ p) (hnone : p.active = none) :
    Keeps p₀ (openSpace space) p := by
  unfold openSpace
  simp only [wp_bind]
  refine pre_quiet hs catches_sound (fun _ _ h => h) fun found p₁ hn₁ => ?_
  cases found with
  | false => exact hn₁.sound
  | true =>
    simp only [setActive, wp_bind, wp_write]
    have hw := hn₁.sound.enter (hn₁.active.trans hnone) space
    refine ⟨List.Subset.refl _, pre_turn hw.sound catches_sound fun p₃ hn₃ => ?_⟩
    refine pre_load (hw.next hn₃) catches_sound fun loaded p₄ hn₄ => ?_
    refine pre_turn hn₄.sound catches_sound fun p₅ hn₅ => ?_
    have hn₃₅ := hn₃.trans (hn₄.trans hn₅)
    cases loaded with
    | true => exact hn₃₅.sound
    | false =>
      simp only [Bool.false_eq_true, if_false, wp_bind]
      exact pre_loadSession (hw.next hn₃₅) catches_sound fun p₆ hn₆ => hn₆.sound

theorem pre_startSession {Q : Unit → Page → Prop} (hs : Sound p₀ p) (hE : Catches p₀ E p)
    (h : ∀ p', Next p₀ p p' → Q () p') : Pre p₀ E startSession Q p := by
  unfold startSession
  simp only [Pre, wp_bind]
  refine pre_turn hs hE fun p₁ hn₁ => ?_
  simp only [db, wp_bind, wp_read]
  split
  · exact pre_turn hn₁.sound (hE.next hn₁) fun p₂ hn₂ => h p₂ (hn₁.trans hn₂)
  · exact hE p₁ hn₁

theorem pre_flushOutbox {Q : Bool → Page → Prop} (hw : Within p₀ space p)
    (h : ∀ remaining p', Next p₀ p p' → Q remaining p') : Pre p₀ E flushOutbox Q p := by
  unfold flushOutbox
  simp only [Pre, wp_catching, wp_bind]
  have hE : Catches p₀ (fun p' => routing.wp (Sound p₀) (fun p p' => p.arrivals ⊆ p'.arrivals)
      (fun left p => p.active = left) (pure false) Q E p') p := fun p' hn => h false p' hn
  refine pre_turn hw.sound hE fun p₁ hn₁ => pre_db (hw.next hn₁) ?_
  refine pre_metaGet hn₁.sound (hE.next hn₁) fun _ p₂ hn₂ _ => ?_
  have hn₁₂ := hn₁.trans hn₂
  refine pre_loadKeyring (hw.next hn₁₂) (hE.next hn₁₂) fun _ p₃ hn₃ _ => ?_
  have hn₁₃ := hn₁₂.trans hn₃
  exact pre_quiet hn₁₃.sound (hE.next hn₁₃) (fun _ _ hs => hs) fun remaining p₄ hn₄ =>
    h remaining p₄ (hn₁₃.trans hn₄)

/-- A key that is unwrapped or generated under a session of the space. -/
theorem pre_arriveKey {session : Session} {secret : Secret} {Q : Unit → Page → Prop}
    (hs : Sound p₀ p) (hsession : Of p₀ p.arrivals space (.session session))
    (h : ∀ p', Next p₀ p p' → Of p₀ p'.arrivals space secret → Q () p') :
    Pre p₀ E (arrive (.under session secret)) Q p :=
  pre_arrive hs fun p' hn hmem => h p' hn (.under (hsession.mono hn.grows) hmem)

/-- The key of a delivery goes to the space whose session it was delivered to. -/
theorem pre_adoptOne {pair : KeyPair} {session : Session} {acc : Keyring × ℕ}
    {d : PendingKeyDelivery}
    {Q : Keyring × ℕ → Page → Prop} (hw : Within p₀ space p) (hE : Catches p₀ E p)
    (hsession : Of p₀ p.arrivals space (.session session)) (hring : RingOf p₀ p space acc.1)
    (h : ∀ acc' p', Next p₀ p p' → RingOf p₀ p' space acc'.1 → Q acc' p') :
    Pre p₀ E (adoptOne pair session acc d) Q p := by
  unfold adoptOne
  split_ifs
  · exact h _ p (.refl hw.sound) hring
  · simp only [Pre, wp_bind]
    refine pre_turn hw.sound hE fun p₁ hn₁ => ?_
    cases unwrapRotatedKey pair.id d session.groupId session.deviceId with
    | none => exact hE p₁ hn₁
    | some key =>
      simp only [wp_bind]
      refine pre_arriveKey hn₁.sound (hsession.mono hn₁.grows) fun p₂ hn₂ hkey => ?_
      exact h _ p₂ (hn₁.trans hn₂) ((hring.next (hn₁.trans hn₂)).withEpoch hkey)

theorem pre_adoptAll {pair : KeyPair} {session : Session} {ds : List PendingKeyDelivery}
    {acc : Keyring × ℕ}
    {Q : Keyring × ℕ → Page → Prop} (hw : Within p₀ space p) (hE : Catches p₀ E p)
    (hsession : Of p₀ p.arrivals space (.session session)) (hring : RingOf p₀ p space acc.1)
    (h : ∀ acc' p', Next p₀ p p' → RingOf p₀ p' space acc'.1 → Q acc' p') :
    Pre p₀ E (ds.foldlM (adoptOne pair session) acc) Q p := by
  induction ds generalizing acc p with
  | nil => exact h acc p (.refl hw.sound) hring
  | cons d ds ih =>
    simp only [List.foldlM_cons, Pre, wp_bind]
    refine pre_adoptOne hw hE hsession hring fun acc₁ p₁ hn₁ hring₁ => ?_
    exact ih (hw.next hn₁) (hE.next hn₁) (hsession.mono hn₁.grows) hring₁ fun acc' p' hn' =>
      h acc' p' (hn₁.trans hn')

theorem pre_turnIf {c : Bool} {Q : Unit → Page → Prop} (hs : Sound p₀ p) (hE : Catches p₀ E p)
    (h : ∀ p', Next p₀ p p' → Q () p') : Pre p₀ E (turnIf c) Q p := by
  unfold turnIf
  split_ifs
  · exact pre_turn hs hE h
  · exact h p (.refl hs)

theorem pre_adoptPendingKeys {pair : KeyPair} {session : Session} {ring : Keyring}
    {deliveries : List PendingKeyDelivery} {Q : Keyring → Page → Prop} (hw : Within p₀ space p)
    (hE : Catches p₀ E p) (hsession : Of p₀ p.arrivals space (.session session))
    (hring : RingOf p₀ p space ring)
    (h : ∀ ring' p', Next p₀ p p' → RingOf p₀ p' space ring' → Q ring' p') :
    Pre p₀ E (adoptPendingKeys ring deliveries pair session) Q p := by
  unfold adoptPendingKeys
  simp only [Pre, wp_bind]
  refine pre_adoptAll hw hE hsession hring fun acc p₁ hn₁ hring₁ => ?_
  refine pre_saveKeyring (hw.next hn₁) (hE.next hn₁) hring₁ fun p₂ hn₂ => ?_
  have hn₁₂ := hn₁.trans hn₂
  refine pre_turnIf hn₁₂.sound (hE.next hn₁₂) fun p₃ hn₃ => ?_
  have hn₁₃ := hn₁₂.trans hn₃
  refine pre_turnIf hn₁₃.sound (hE.next hn₁₃) fun p₄ hn₄ => ?_
  exact h acc.1 p₄ (hn₁₃.trans hn₄) (hring₁.next (hn₂.trans (hn₃.trans hn₄)))

/-- The key that a rotation makes belongs to the space whose session it rotates. -/
theorem pre_rotateGroupKey {session : Session} {ring : Keyring} {Q : Option Keyring → Page → Prop}
    (hw : Within p₀ space p) (hE : Catches p₀ E p)
    (hsession : Of p₀ p.arrivals space (.session session)) (hring : RingOf p₀ p space ring)
    (h : ∀ rotated p', Next p₀ p p' → (∀ r, rotated = some r → RingOf p₀ p' space r) →
      Q rotated p') :
    Pre p₀ E (rotateGroupKey ring session) Q p := by
  unfold rotateGroupKey
  simp only [Pre, wp_bind]
  refine pre_quiet hw.sound hE (fun _ _ hs => hs) fun listing p₁ hn₁ => ?_
  split_ifs
  swap
  · exact h none p₁ hn₁ fun _ hr => by cases hr
  simp only [wp_bind]
  refine pre_quiet hn₁.sound (hE.next hn₁) (fun _ _ hs => hs) fun changed p₂ hn₂ => ?_
  have hn₁₂ := hn₁.trans hn₂
  split_ifs
  · exact hE p₂ hn₁₂
  simp only [generateGroupKey, wp_bind]
  refine pre_quiet hn₂.sound (hE.next hn₁₂) (fun _ _ hs => hs) fun key p₃ hn₃ => ?_
  have hn₁₃ := hn₁₂.trans hn₃
  refine pre_arriveKey hn₃.sound (hsession.mono hn₁₃.grows) fun p₄ hn₄ hkey => ?_
  have hn₁₄ := hn₁₃.trans hn₄
  refine pre_turn hn₄.sound (hE.next hn₁₄) fun p₅ hn₅ => ?_
  have hn₁₅ := hn₁₄.trans hn₅
  refine pre_quiet hn₅.sound (hE.next hn₁₅) (fun _ _ hs => hs) fun accepted p₆ hn₆ => ?_
  have hn₁₆ := hn₁₅.trans hn₆
  cases accepted with
  | none => exact h none p₆ hn₁₆ fun _ hr => by cases hr
  | some epoch =>
    have hring₆ : RingOf p₀ p₆ space (withEpoch ring epoch key) :=
      (hring.next hn₁₆).withEpoch (hkey.mono (hn₅.trans hn₆).grows)
    simp only [wp_bind]
    refine pre_saveKeyring (hw.next hn₁₆) (hE.next hn₁₆) hring₆ fun p₇ hn₇ => ?_
    have hn₁₇ := hn₁₆.trans hn₇
    refine pre_turn hn₇.sound (hE.next hn₁₇) fun p₈ hn₈ => h _ p₈ (hn₁₇.trans hn₈) fun r hr => ?_
    obtain rfl := Option.some.inj hr
    exact hring₆.next (hn₇.trans hn₈)

theorem pre_applyKeyring {ring : Keyring} {Q : Unit → Page → Prop} (hw : Within p₀ space p)
    (hring : RingOf p₀ p space ring) (h : ∀ p', Next p₀ p p' → Q () p') :
    Pre p₀ E (applyKeyring ring) Q p :=
  ⟨(hw.setKeyring hring).grows, h _ (hw.setKeyring hring)⟩

theorem pre_adoptKeys {keys : List PendingKeyDelivery} {session : Session} {ring : Keyring}
    {Q : Keyring → Page → Prop} (hw : Within p₀ space p) (hE : Catches p₀ E p)
    (hsession : Of p₀ p.arrivals space (.session session)) (hring : RingOf p₀ p space ring)
    (h : ∀ ring' p', Next p₀ p p' → RingOf p₀ p' space ring' → Q ring' p') :
    Pre p₀ E (adoptKeys ring keys session) Q p := by
  unfold adoptKeys
  simp only [Pre, wp_bind, wp_read]
  split
  · simp only [wp_bind]
    refine pre_adoptPendingKeys hw hE hsession hring fun updated p₁ hn₁ hring₁ => ?_
    exact pre_applyKeyring (hw.next hn₁) hring₁ fun p₂ hn₂ =>
      h updated p₂ (hn₁.trans hn₂) (hring₁.next hn₂)
  · exact h ring p (.refl hw.sound) hring

theorem pre_completeDueRotation {session : Session} {ring : Keyring} {Q : Keyring → Page → Prop}
    (hw : Within p₀ space p) (hsession : Of p₀ p.arrivals space (.session session))
    (hring : RingOf p₀ p space ring)
    (h : ∀ ring' p', Next p₀ p p' → RingOf p₀ p' space ring' → Q ring' p') :
    Pre p₀ E (completeDueRotation ring session) Q p := by
  unfold completeDueRotation
  simp only [Pre, wp_catching, wp_bind]
  refine pre_rotateGroupKey hw (fun p' hn => h ring p' hn (hring.next hn)) hsession hring
    fun rotated p₁ hn₁ hrotated => ?_
  cases rotated with
  | none => exact h ring p₁ hn₁ (hring.next hn₁)
  | some updated =>
    have hupdated := hrotated updated rfl
    simp only [wp_bind]
    exact pre_applyKeyring (hw.next hn₁) hupdated fun p₂ hn₂ =>
      h updated p₂ (hn₁.trans hn₂) (hupdated.next hn₂)

theorem pre_rotateIfDue {due : Bool} {session : Session} {ring : Keyring}
    {Q : Keyring → Page → Prop}
    (hw : Within p₀ space p) (hsession : Of p₀ p.arrivals space (.session session))
    (hring : RingOf p₀ p space ring)
    (h : ∀ ring' p', Next p₀ p p' → RingOf p₀ p' space ring' → Q ring' p') :
    Pre p₀ E (rotateIfDue due ring session) Q p := by
  unfold rotateIfDue
  split_ifs
  · exact pre_completeDueRotation hw hsession hring h
  · exact h ring p (.refl hw.sound) hring

theorem pre_flushAgain {again : Bool} {Q : Unit → Page → Prop} (hw : Within p₀ space p)
    (h : ∀ p', Next p₀ p p' → Q () p') : Pre p₀ E (flushAgain again) Q p := by
  unfold flushAgain
  split_ifs
  · simp only [Pre, wp_bind]
    exact pre_flushOutbox hw fun _ p' hn => h p' hn
  · exact h p (.refl hw.sound)

/-- A pass with the session and the ring of a space writes only what is of that space. -/
theorem pre_syncPass {session : Session} {ring : Keyring} {Q : Unit → Page → Prop}
    (hw : Within p₀ space p)
    (hE : Catches p₀ E p) (hsession : Of p₀ p.arrivals space (.session session))
    (hring : RingOf p₀ p space ring)
    (h : ∀ p', Next p₀ p p' → Q () p') : Pre p₀ E (syncPass session ring) Q p := by
  unfold syncPass
  simp only [Pre, wp_bind]
  refine pre_flushOutbox hw fun remaining p₁ hn₁ => ?_
  refine pre_quiet hn₁.sound (hE.next hn₁) (fun _ _ hs => hs) fun answer p₂ hn₂ => ?_
  have hn₁₂ := hn₁.trans hn₂
  refine pre_adoptKeys (hw.next hn₁₂) (hE.next hn₁₂) (hsession.mono hn₁₂.grows) (hring.next hn₁₂)
    fun adopted p₃ hn₃ hadopted => ?_
  have hn₁₃ := hn₁₂.trans hn₃
  refine pre_rotateIfDue (hw.next hn₁₃) (hsession.mono hn₁₃.grows) hadopted
    fun updated p₄ hn₄ _ => ?_
  have hn₁₄ := hn₁₃.trans hn₄
  refine pre_flushAgain (hw.next hn₁₄) fun p₅ hn₅ => ?_
  have hn₁₅ := hn₁₄.trans hn₅
  exact pre_turn hn₁₅.sound (hE.next hn₁₅) fun p₆ hn₆ => h p₆ (hn₁₅.trans hn₆)

/-- A session is held in a space only. -/
theorem Sound.within (hs : Sound p₀ p) {session : Session} (h : p.secrets.session = some session) :
    ∃ space, Within p₀ space p := by
  cases hactive : p.active with
  | some space => exact ⟨space, hs, hactive⟩
  | none =>
    rw [hs.closed hactive] at h
    cases h

theorem pre_syncNow (hs : Sound p₀ p) : Keeps p₀ syncNow p := by
  unfold syncNow
  simp only [wp_bind, wp_read]
  split
  · next session ring _ hsession hkeyring =>
    obtain ⟨space, hw⟩ := hs.within hsession
    have hn₁ : Next p₀ p { p with running := true } :=
      .of_eq hs rfl rfl rfl rfl rfl (List.Subset.refl _)
    simp only [wp_bind, wp_write, wp_catching]
    refine ⟨hn₁.grows, ?_⟩
    have hdone : ∀ p', Next p₀ { p with running := true } p' →
        p'.arrivals ⊆ p'.arrivals ∧ Sound p₀ { p' with running := false } := fun p' hn =>
      ⟨List.Subset.refl _, hn.sound.of_eq rfl rfl rfl rfl rfl (List.Subset.refl _)⟩
    exact pre_syncPass (hw.next hn₁) (fun p' hn => hdone p' hn) ((hw.next hn₁).held hsession)
      ((hw.next hn₁).ringOf hkeyring) fun p' hn => hdone p' hn
  · exact hs

theorem pre_rotateNow (hs : Sound p₀ p) : Keeps p₀ rotateNow p := by
  unfold rotateNow
  simp only [wp_bind, wp_read]
  split
  · next session ring hsession hkeyring =>
    obtain ⟨space, hw⟩ := hs.within hsession
    simp only [wp_bind]
    refine pre_rotateGroupKey hw catches_sound (hw.held hsession) (hw.ringOf hkeyring)
      fun rotated p₁ hn₁ hrotated => ?_
    cases rotated with
    | none => exact hn₁.sound
    | some updated =>
      exact pre_applyKeyring (hw.next hn₁) (hrotated updated rfl) fun p₂ hn₂ => hn₂.sound
  · exact hs

/-- A signing key pair that is new is stored in the space whose session publishes it. -/
theorem pre_ownSigningKeyPair {session : Session} {Q : KeyPair → Page → Prop}
    (hw : Within p₀ space p)
    (hE : Catches p₀ E p) (hsession : Of p₀ p.arrivals space (.session session))
    (h : ∀ pair p', Next p₀ p p' → Q pair p') : Pre p₀ E (ownSigningKeyPair session) Q p := by
  unfold ownSigningKeyPair
  simp only [Pre, wp_bind, wp_read]
  split
  · exact h _ p (.refl hw.sound)
  · simp only [wp_bind]
    refine pre_quiet hw.sound hE (fun _ _ hs => hs) fun drawn p₁ hn₁ => ?_
    refine pre_arriveKey hn₁.sound (hsession.mono hn₁.grows) fun p₂ hn₂ hpair => ?_
    have hn₁₂ := hn₁.trans hn₂
    refine pre_db (hw.next hn₁₂)
      (pre_metaSet hn₂.sound (hE.next hn₁₂) (fun x hx => ?_) fun p₃ hn₃ => ?_)
    · cases x with
      | signingKeyPair value =>
        obtain rfl : value = _ := hx
        exact hpair
      | session | groupKey | deviceKeyPair => cases hx
    · have hn₁₃ := hn₁₂.trans hn₃
      have hset := (hw.next hn₁₃).setSigningKeyPair fun value hvalue => by
        obtain rfl := Option.some.inj hvalue
        exact hpair.mono hn₃.grows
      exact ⟨hset.grows, h _ _ (hn₁₃.trans hset)⟩

theorem pre_pinOwnKeys {Q : Unit → Page → Prop} (hs : Sound p₀ p) (hE : Catches p₀ E p)
    (h : ∀ p', Next p₀ p p' → Q () p') : Pre p₀ E pinOwnKeys Q p := by
  unfold pinOwnKeys
  simp only [Pre, wp_bind, wp_read]
  split
  · exact h p (.refl hs)
  · exact hE p (.refl hs)
  · exact pre_turn hs hE h

theorem Sound.published (hs : Sound p₀ p) : Sound p₀ { p with signingKeyPublished := true } :=
  hs.of_eq rfl rfl rfl rfl rfl (List.Subset.refl _)

theorem pre_ensureSigningIdentity (hs : Sound p₀ p) : Keeps p₀ ensureSigningIdentity p := by
  unfold ensureSigningIdentity
  simp only [wp_bind, wp_read]
  split
  · next session _ hsession =>
    obtain ⟨space, hw⟩ := hs.within hsession
    have hown : Of p₀ p.arrivals space (.session session) := hw.held hsession
    simp only [wp_bind]
    refine pre_db hw (pre_quiet hs catches_sound (fun _ _ hs => hs) fun published p₁ hn₁ => ?_)
    split_ifs
    · exact ⟨List.Subset.refl _, hn₁.sound.published⟩
    simp only [wp_bind]
    refine pre_ownSigningKeyPair (hw.next hn₁) catches_sound (hown.mono hn₁.grows)
      fun _ p₂ hn₂ => ?_
    refine pre_turn hn₂.sound catches_sound fun p₃ hn₃ => ?_
    refine pre_pinOwnKeys hn₃.sound catches_sound fun p₄ hn₄ => ?_
    refine pre_turn hn₄.sound catches_sound fun p₅ hn₅ => ?_
    refine pre_turn hn₅.sound catches_sound fun p₆ hn₆ => ?_
    exact ⟨List.Subset.refl _, hn₆.sound.published⟩
  · exact hs

/-- A pair that is sealed is read again as it was. -/
theorem pre_serializePair {value : Option KeyPair} {Q : Option SerializedKeyPair → Page → Prop}
    (hs : Sound p₀ p) (hE : Catches p₀ E p) (h : ∀ sealed p', Next p₀ p p' →
      (∀ pair, sealed.map importKeyPair = some pair → value = some pair) →
      Q sealed p') : Pre p₀ E (serializePair value) Q p := by
  cases value with
  | none => exact h none p (.refl hs) fun _ hpair => by cases hpair
  | some pair =>
    unfold serializePair
    simp only [Pre, wp_bind]
    refine pre_turn hs hE fun p' hn => h _ p' hn fun pair' hpair => ?_
    obtain ⟨stored, hstored, rfl⟩ := Option.map_eq_some_iff.mp hpair
    rw [importKeyPair_of_serialize hstored]

theorem pre_activeSpaceSecrets {Q : SpaceSecrets → Page → Prop} (hw : Within p₀ space p)
    (hE : Catches p₀ E p) (h : ∀ secrets p', Next p₀ p p' → secrets.spaceId = space →
      (∀ x, secrets.Has x → Of p₀ p'.arrivals space x) → Q secrets p') :
    Pre p₀ E (activeSpaceSecrets space) Q p := by
  unfold activeSpaceSecrets
  simp only [Pre, wp_bind, wp_read]
  split
  · next session ring hsession hkeyring =>
    have hown : Of p₀ p.arrivals space (.session session) := hw.held hsession
    have hring := hw.ringOf hkeyring
    simp only [wp_bind, wp_read]
    refine pre_turn hw.sound hE fun p₁ hn₁ => ?_
    refine pre_serializePair hn₁.sound (hE.next hn₁) fun device p₂ hn₂ hdevice => ?_
    have hn₁₂ := hn₁.trans hn₂
    refine pre_serializePair hn₂.sound (hE.next hn₁₂) fun signing p₃ hn₃ hsigning => ?_
    have hn₁₃ := hn₁₂.trans hn₃
    refine h _ p₃ hn₁₃ rfl fun x hx => ?_
    cases x with
    | session value =>
      obtain rfl : value = session := hx
      exact hown.mono hn₁₃.grows
    | groupKey key => exact hring.next hn₁₃ key hx
    | deviceKeyPair pair =>
      have hheld : Of p₀ p₁.arrivals space (.deviceKeyPair pair) :=
        (hw.next hn₁).held (hdevice pair hx)
      exact hheld.mono (hn₂.trans hn₃).grows
    | signingKeyPair pair =>
      have hheld : Of p₀ p₂.arrivals space (.signingKeyPair pair) :=
        (hw.next hn₁₂).held (hsigning pair hx)
      exact hheld.mono hn₃.grows
  · exact hE p (.refl hw.sound)

theorem Within.setUnlocked (hw : Within p₀ space p) {secrets : SpaceSecrets}
    {unlocked : Table SpaceSecrets.spaceId} (hget : p.unlocked = some unlocked)
    (hid : secrets.spaceId = space) (h : ∀ x, secrets.Has x → Of p₀ p.arrivals space x) :
    Next p₀ p { p with unlocked := some (unlocked.put secrets) } := by
  refine ⟨⟨hw.sound.stored, fun q stored hq x hx => ?_, hw.sound.active, hw.sound.closed,
    hw.sound.held⟩, rfl,
    List.Subset.refl _⟩
  have hq' : (unlocked.put secrets).get? q = some stored := hq
  rw [Table.get?_put] at hq'
  split_ifs at hq' with hsame
  · obtain rfl := Option.some.inj hq'
    obtain rfl : q = space := hsame.trans hid
    exact h x hx
  · exact hw.sound.unlocked q stored (by rw [vaulted, hget]; exact hq') x hx

theorem pre_dropPlain (hs : Sound p₀ p) (keys : List MetaKey) :
    Keeps p₀ (forEach (metaDelete space) keys) p :=
  wp_forEach hs fun _ _ _ hs' => pre_metaDelete hs' catches_sound fun _ hn => hn.sound

/-- A refresh seals the secrets of the open space under the name of that space. -/
theorem pre_refreshVault (hs : Sound p₀ p) : Keeps p₀ refreshVault p := by
  unfold refreshVault
  simp only [wp_bind, wp_read]
  split_ifs
  · exact hs
  split
  · exact hs
  · next space hspace =>
    have hw : Within p₀ space p := ⟨hs, hspace⟩
    simp only [wp_bind]
    refine pre_activeSpaceSecrets hw catches_sound fun secrets p₁ hn₁ hid hown => ?_
    simp only [setUnlocked, wp_bind, wp_read]
    split
    · exact hn₁.sound
    · next unlocked hunlocked =>
      have hn₂ := (hw.next hn₁).setUnlocked hunlocked hid hown
      refine ⟨hn₂.grows, pre_turn hn₂.sound catches_sound fun p₃ hn₃ => ?_⟩
      exact pre_turn hn₃.sound catches_sound fun p₄ hn₄ => pre_dropPlain hn₄.sound _

theorem has_joinedSecrets {j : Linking.Joining} {entry : MetaEntry} {x : Secret}
    (h : entry ∈ j.entries) (hx : entry.Has x) : (joinedSecrets j).Has x := by
  rcases List.mem_append.mp h with hmem | hmem
  · simp only [List.mem_cons, List.not_mem_nil, or_false] at hmem
    rcases hmem with rfl | rfl | rfl
    · cases x with
      | session value => exact congrArg some (Eq.symm hx)
      | groupKey | deviceKeyPair | signingKeyPair => cases hx
    · cases x with
      | groupKey key => exact ⟨_, rfl, hx⟩
      | session | deviceKeyPair | signingKeyPair => cases hx
    · cases x with
      | deviceKeyPair pair => exact congrArg some (Eq.symm hx)
      | session | groupKey | signingKeyPair => cases hx
  · obtain ⟨signing, hsigning, rfl⟩ := List.mem_map.mp hmem
    cases x with
    | signingKeyPair pair =>
      obtain rfl : pair = signing := hx
      exact Option.mem_toList.mp hsigning
    | session | groupKey | deviceKeyPair => cases hx

theorem pre_persistSession {j : Linking.Joining} {Q : Unit → Page → Prop} (hw : Within p₀ space p)
    (hE : Catches p₀ E p) (hown : ∀ x, (joinedSecrets j).Has x → Of p₀ p.arrivals space x)
    (h : ∀ p', Next p₀ p p' → Q () p') : Pre p₀ E (persistSession j) Q p := by
  unfold persistSession
  simp only [Pre, wp_bind]
  refine pre_db hw ?_
  have hloop : Pre p₀ E (forEach (metaSet space) j.entries) (fun _ => Next p₀ p) p := by
    refine wp_forEach (Next.refl hw.sound) fun entry hentry p₁ hn₁ => ?_
    refine pre_metaSet hn₁.sound (hE.next hn₁) (fun x hx => ?_) fun p₂ hn₂ => hn₁.trans hn₂
    exact (hown x (has_joinedSecrets hentry hx)).mono hn₁.grows
  refine wp_mono hloop (fun _ p₁ hn₁ => ?_) fun _ => id
  have hset := (hw.next hn₁).setSecrets fun x hx => (hown x hx).mono hn₁.grows
  exact ⟨hset.grows, h _ (hn₁.trans hset)⟩

/-- A catch that only stops the timer. -/
theorem Sound.stopped (hs : Sound p₀ p) : Sound p₀ { p with linkTimer := none } :=
  hs.of_eq rfl rfl rfl rfl rfl (List.Subset.refl _)

theorem Sound.notLinking (hs : Sound p₀ p) : Sound p₀ { p with linking := false } :=
  hs.of_eq rfl rfl rfl rfl rfl (List.Subset.refl _)

theorem Sound.addSpace (hs : Sound p₀ p) (input : PageInput) :
    Sound p₀ (p.perform .addSpace input).1 :=
  hs.of_eq rfl rfl rfl rfl rfl (List.Subset.refl _)

theorem Sound.forgetPairing (hs : Sound p₀ p) (input : PageInput) :
    Sound p₀ (p.perform .forgetPairing input).1 :=
  hs.of_eq rfl rfl rfl rfl rfl (List.Subset.refl _)

theorem pre_completeLinking {pending : Linking.PendingPairing} {package : Linking.PairingPackage}
    (hs : Sound p₀ p) (hnone : p.active = none) (hE : ∀ p', Sound p₀ p' → E p') :
    Pre p₀ E (completeLinking pending package) (fun _ => Sound p₀) p := by
  have hcatch : ∀ p, Catches p₀ E p := fun _ p' hn => hE p' hn.sound
  unfold completeLinking
  simp only [Pre, beginSpace, setActive, wp_bind, wp_write]
  refine pre_turn hs (hcatch _) fun p₁ hn₁ => ?_
  refine pre_quiet hn₁.sound (hcatch _) (fun _ input hs => hs.addSpace input) fun space p₂ hn₂ => ?_
  have hw := hn₂.sound.enter ((hn₁.trans hn₂).active.trans hnone) space
  refine ⟨List.Subset.refl _, pre_turn hw.sound (hcatch _) fun p₃ hn₃ => ?_⟩
  refine pre_arrive hn₃.sound fun p₄ hn₄ hmem => ?_
  have hn₃₄ := hn₃.trans hn₄
  refine pre_persistSession (hw.next hn₃₄) (hcatch _) (fun x hx => .joined hmem hx) fun p₅ hn₅ => ?_
  refine pre_turn hn₅.sound (hcatch _) fun p₆ hn₆ => ?_
  refine pre_quiet hn₆.sound (hcatch _) (fun _ input hs => hs.forgetPairing input)
    fun _ p₇ hn₇ => ?_
  refine pre_startSession hn₇.sound (hcatch _) fun p₈ hn₈ => ?_
  exact ⟨List.Subset.refl _, hn₈.sound.notLinking⟩

/-- A poll keeps every space to its own, and the one that it registers as well. -/
theorem pre_pollLink (hs : Sound p₀ p) (hnone : p.active = none) : Keeps p₀ pollLink p := by
  unfold pollLink
  simp only [wp_bind, wp_read]
  split
  · exact hs
  simp only [wp_catching, wp_bind]
  have hstop : ∀ p', Sound p₀ p' → p'.arrivals ⊆ p'.arrivals ∧
      Sound p₀ { p' with linkTimer := none } :=
    fun p' hs' => ⟨List.Subset.refl _, hs'.stopped⟩
  have hcatch : ∀ p,
      Catches p₀ (fun p' => p'.arrivals ⊆ p'.arrivals ∧ Sound p₀ { p' with linkTimer := none }) p :=
    fun _ p' hn => hstop p' hn.sound
  refine pre_quiet hs (hcatch _) (fun _ _ hs => hs) fun answer p₁ hn₁ => ?_
  cases answer with
  | notReady => exact hn₁.sound
  | networkError => exact hn₁.sound
  | error => exact hstop p₁ hn₁.sound
  | package wrapped =>
    simp only [stopLinkPolling, wp_bind, wp_write]
    refine ⟨List.Subset.refl _, pre_turn hn₁.sound.stopped (hcatch _) fun p₂ hn₂ => ?_⟩
    split
    · exact hstop p₂ hn₂.sound
    · exact pre_completeLinking hn₂.sound (hn₂.active.trans (hn₁.active.trans hnone)) hstop

theorem pre_resumeLinking (hs : Sound p₀ p) : Keeps p₀ resumeLinking p := by
  unfold resumeLinking
  simp only [wp_bind, wp_read]
  split_ifs
  · exact hs
  · simp only [wp_bind]
    refine pre_quiet hs catches_sound (fun _ _ hs => hs) fun pending p₁ hn₁ => ?_
    cases pending with
    | none => exact hn₁.sound
    | some pending =>
      exact ⟨List.Subset.refl _, hn₁.sound.of_eq rfl rfl rfl rfl rfl (List.Subset.refl _)⟩

theorem pre_leaveOpen (hs : Sound p₀ p) :
    Pre p₀ (Sound p₀) leaveOpen (fun _ p' => Sound p₀ p' ∧ p'.active = none) p := by
  unfold leaveOpen
  simp only [Pre, wp_bind, wp_read]
  split_ifs with hopen
  · exact ⟨List.Subset.refl _, hs.close, rfl⟩
  · exact ⟨hs, by rw [hs.active]; simpa using hopen⟩

theorem pre_startSignedIn (hs : Sound p₀ p) : Keeps p₀ startSignedIn p := by
  unfold startSignedIn
  simp only [wp_bind, wp_read]
  split_ifs
  · exact pre_startSession hs catches_sound fun p' hn => hn.sound
  · exact hs

theorem pre_leave {current : Route} (hs : Sound p₀ p) : Keeps p₀ (leave current) p := by
  unfold leave
  simp only [wp_bind]
  refine wp_mono (pre_leaveOpen hs) (fun _ p₁ h₁ => ?_) fun _ => id
  split_ifs
  · simp only [wp_bind]
    exact pre_turn h₁.1 catches_sound fun p₂ hn₂ => pre_resumeLinking hn₂.sound
  · exact h₁.1

theorem pre_enter (hs : Sound p₀ p) : Keeps p₀ (Prog.enter space) p := by
  unfold Prog.enter
  simp only [pauseLinking, wp_bind, wp_write]
  refine wp_mono (pre_leaveOpen hs) (fun _ p₁ h₁ => ?_) fun _ => id
  have hpaused : Sound p₀ { p₁ with linking := false, linkTimer := none } :=
    h₁.1.of_eq rfl rfl rfl rfl rfl (List.Subset.refl _)
  refine ⟨List.Subset.refl _,
    wp_mono (pre_openSpace hpaused h₁.2) (fun found p₂ hs₂ => ?_) fun _ => id⟩
  cases found with
  | false => exact ⟨List.Subset.refl _, hs₂.of_eq rfl rfl rfl rfl rfl (List.Subset.refl _)⟩
  | true =>
    simp only [wp_bind]
    refine wp_mono (pre_startSignedIn hs₂) (fun _ p₃ hs₃ => ?_) fun _ => id
    exact pre_turn hs₃ catches_sound fun p₄ hn₄ => hn₄.sound

/-- Whatever the route, every space keeps to its own. -/
theorem pre_navigate (route : Route) (hs : Sound p₀ p) : Keeps p₀ (navigate route) p := by
  have hs' : Sound p₀ { p with route } := hs.of_eq rfl rfl rfl rfl rfl (List.Subset.refl _)
  unfold navigate applyRoute
  simp only [wp_bind, wp_read, wp_write]
  refine ⟨List.Subset.refl _, ?_⟩
  split_ifs
  · exact hs'
  · cases route with
    | other => exact pre_leave hs'
    | spaces => exact pre_leave hs'
    | space id =>
      change Keeps p₀ (if p.activeSpace = some id then pure () else Prog.enter id) { p with
        route := .space id }
      split_ifs
      · exact hs'
      · exact pre_enter hs'

/-- Every job, started where it may. -/
theorem pre_program (job : PageJob) (hs : Sound p₀ p) (hstart : OnTheList job p) :
    Keeps p₀ job.program p := by
  cases job with
  | navigate route => exact pre_navigate route hs
  | syncNow => exact pre_syncNow hs
  | rotateNow => exact pre_rotateNow hs
  | ensureSigningIdentity => exact pre_ensureSigningIdentity hs
  | refreshVault => exact pre_refreshVault hs
  | pollLink => exact pre_pollLink hs (hstart rfl)

end SendSelf.Page
