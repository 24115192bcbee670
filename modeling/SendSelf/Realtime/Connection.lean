import SendSelf.Realtime.Page

/-!
# The connection is tended

A page that is to be told has a socket or a timer that will open one, and never more than one
socket that can still call it. No timer runs that the page cannot stop, no socket stays up that
it has let go of, and what its socket has been told last is whether the page is on screen. Once
it has stopped, a page does nothing until it is started again.
-/
namespace SendSelf.Realtime

/-- The timers that run are the ones the variables keep. -/
structure Clock.Kept (c : Clock) : Prop where
  kept : ∀ t ∈ c.running, c.vars t.kind = some t.id
  live : ∀ kind id, c.vars kind = some id → ∃ t ∈ c.running, t.kind = kind ∧ t.id = id
  fresh : ∀ t ∈ c.running, t.id < c.next
  nodup : (c.running.map Running.id).Nodup

namespace Clock

variable {c : Clock} {kind : Kind} {ms : ℚ} {t : Running}

@[simp] theorem vars_set : (c.set kind ms).vars = Function.update c.vars kind (some c.next) := rfl

@[simp] theorem vars_clear : (c.clear kind).vars = Function.update c.vars kind none := by
  unfold clear
  split
  · next h => rw [← h, Function.update_eq_self]
  · rfl

theorem mem_running_clear (hc : c.Kept) :
    t ∈ (c.clear kind).running ↔ t ∈ c.running ∧ t.kind ≠ kind := by
  unfold clear
  split
  · next h =>
    refine ⟨fun ht => ⟨ht, fun hk => ?_⟩, And.left⟩
    have := hc.kept t ht
    rw [hk, h] at this
    cases this
  · next id h =>
    simp only [forget, expire, List.mem_filter, decide_eq_true_eq, and_congr_right_iff]
    intro ht
    refine not_congr ⟨fun hid => ?_, fun hk => ?_⟩
    · obtain ⟨t', ht', hkind, hid'⟩ := hc.live kind id h
      rw [← hkind, List.inj_on_of_nodup_map hc.nodup ht ht' (hid.trans hid'.symm)]
    · have := hc.kept t ht
      rw [hk, h, Option.some.injEq] at this
      exact this.symm

theorem next_clear : (c.clear kind).next = c.next := by
  unfold clear
  split <;> rfl

theorem sublist_clear : (c.clear kind).running.Sublist c.running := by
  unfold clear
  split
  · exact List.Sublist.refl _
  · exact List.filter_sublist

theorem Kept.clear (hc : c.Kept) (kind : Kind) : (c.clear kind).Kept where
  kept t ht := by
    obtain ⟨ht, hk⟩ := (mem_running_clear hc).mp ht
    rw [vars_clear, Function.update_of_ne hk]
    exact hc.kept t ht
  live kind' id h := by
    rw [vars_clear] at h
    by_cases hk : kind' = kind
    · rw [hk, Function.update_self] at h
      cases h
    · rw [Function.update_of_ne hk] at h
      obtain ⟨t, ht, hkind, hid⟩ := hc.live kind' id h
      exact ⟨t, (mem_running_clear hc).mpr ⟨ht, hkind ▸ hk⟩, hkind, hid⟩
  fresh t ht := (hc.fresh t (sublist_clear.subset ht)).trans_eq next_clear.symm
  nodup := hc.nodup.sublist (sublist_clear.map _)

/-- A variable is only set when it keeps nothing. -/
theorem Kept.set (hc : c.Kept) (h : c.vars kind = none) (ms : ℚ) : (c.set kind ms).Kept where
  kept := by
    refine List.forall_mem_cons.mpr ⟨Function.update_self _ _ _, fun t ht => ?_⟩
    have hk : t.kind ≠ kind := fun hk => by
      have := hc.kept t ht
      rw [hk, h] at this
      cases this
    rw [vars_set, Function.update_of_ne hk]
    exact hc.kept t ht
  live kind' id hid := by
    by_cases hk : kind' = kind
    · rw [vars_set, hk, Function.update_self, Option.some.injEq] at hid
      exact ⟨⟨c.next, kind, ms⟩, List.mem_cons_self, hk.symm, hid⟩
    · rw [vars_set, Function.update_of_ne hk] at hid
      obtain ⟨t, ht, h⟩ := hc.live kind' id hid
      exact ⟨t, List.mem_cons_of_mem _ ht, h⟩
  fresh :=
    List.forall_mem_cons.mpr ⟨Nat.lt_succ_self _, fun t ht => Nat.lt_succ_of_lt (hc.fresh t ht)⟩
  nodup := List.nodup_cons.mpr ⟨fun h => by
    obtain ⟨t, ht, hid⟩ := List.mem_map.mp h
    exact absurd hid (Nat.ne_of_lt (hc.fresh t ht)), hc.nodup⟩

theorem expire_expire (id : ℕ) : (c.expire id).expire id = c.expire id := by
  rw [expire, expire, List.filter_filter]
  simp only [Bool.and_self]

/-- A timeout that fires is as good as cleared, once its variable is set to null. -/
theorem forget_expire (h : c.vars kind = some t.id) :
    (c.expire t.id).forget kind = c.clear kind := by
  rw [Clock.clear, h]

theorem clear_expire (h : c.vars kind = some t.id) : (c.expire t.id).clear kind = c.clear kind := by
  have h' : (c.expire t.id).vars kind = some t.id := h
  rw [Clock.clear, h', Clock.clear, h]
  simp only [expire_expire]

theorem clear_expire_of_ne (kind' : Kind) (h : c.vars kind = some t.id) (hk : kind ≠ kind') :
    ((c.expire t.id).clear kind').clear kind = (c.clear kind').clear kind := by
  have hcomm : (c.expire t.id).clear kind' = (c.clear kind').expire t.id := by
    have hvars : (c.expire t.id).vars kind' = c.vars kind' := rfl
    rw [Clock.clear, hvars, Clock.clear]
    cases c.vars kind' with
    | none => rfl
    | some id =>
      simp only [expire, forget, List.filter_filter, Bool.and_comm]
  rw [hcomm]
  exact clear_expire (by rw [vars_clear, Function.update_of_ne hk, h])

end Clock

/-- Whether the page is hidden, by what it has said last, as the server takes it. -/
def hear (hidden : Option Bool) : Frame → Option Bool
  | .ping => hidden
  | .visible => some false
  | .hidden => some true

def heard (frames : List Frame) : Option Bool := frames.foldl hear none

@[simp] theorem heard_append (frames : List Frame) (frame : Frame) :
    heard (frames ++ [frame]) = hear (heard frames) frame := by
  rw [heard, List.foldl_append, List.foldl_cons, List.foldl_nil, heard]

/-- The timers and the sockets. -/
structure Page.Mechanics (p : Page) : Prop where
  clock : p.clock.Kept
  attached : ∀ (i : ℕ) (s : WebSocket), p.sockets[i]? = some s →
    (s.attached = true ↔ p.socket = some i)
  exists' : ∀ i, p.socket = some i → i < p.sockets.length
  discarded : ∀ (i : ℕ) (s : WebSocket), p.sockets[i]? = some s → s.attached = false →
    s.readyState = .closing ∨ s.readyState = .closed
  delays : ∀ t ∈ p.clock.running, t.kind = .retryTimer → minRetryMs ≤ t.ms ∧ t.ms ≤ maxRetryMs
  intervals : ∀ t ∈ p.clock.running, t.kind = .timer →
    t.ms = p.timerInterval ∧ (t.ms = pollIntervalMs ∨ t.ms = realtimePollIntervalMs)
  polls : p.timerInterval = 0 ↔ p.clock.vars .timer = none

/-- Whether the page is to be told. -/
structure Page.Flags (p : Page) : Prop where
  auth : p.wanted = p.currentAuth.isSome
  presence : p.wanted = p.presenceListener
  calls : p.wanted = true → p.onEvent = .syncNow
  stopped : p.wanted = false → p.clock.vars .retryTimer = none
  focus : p.focusListener = true → (p.clock.vars .timer).isSome

structure Page.Sound (p : Page) : Prop where
  mechanics : p.Mechanics
  flags : p.Flags
  wanted : p.socket.isSome → p.wanted = true
  state : p.realtimeState =
    if p.wanted then (if (p.clock.vars .pingTimer).isSome then .opened else .connecting)
      else .stopped
  opened : ∀ (i : ℕ) (s : WebSocket), p.socket = some i → p.sockets[i]? = some s →
    s.readyState = .opened →
    (p.clock.vars .pingTimer).isSome ∧ heard s.sent = some (!p.visible)
  connecting : ∀ (i : ℕ) (s : WebSocket), p.socket = some i → p.sockets[i]? = some s →
    s.readyState = .connecting →
    p.clock.vars .pingTimer = none
  pings : (p.clock.vars .pingTimer).isSome → p.socket.isSome
  pongs : (p.clock.vars .pongTimer).isSome → (p.clock.vars .pingTimer).isSome

/-- Whoever is to be told is told, or will be. -/
def Page.Trying (p : Page) : Prop :=
  p.wanted = true → p.socket.isSome ∨ (p.clock.vars .retryTimer).isSome

namespace Page

variable {p : Page} {kind : Kind} {ms random : ℚ} {throws : Bool} {f : WebSocket → WebSocket}

theorem Mechanics.clear (h : p.Mechanics) (kind : Kind) (hk : kind ≠ .timer) :
    { p with clock := p.clock.clear kind }.Mechanics where
  clock := h.clock.clear kind
  attached := h.attached
  exists' := h.exists'
  discarded := h.discarded
  delays t ht := h.delays t (Clock.sublist_clear.subset ht)
  intervals t ht := h.intervals t (Clock.sublist_clear.subset ht)
  polls := by
    rw [Clock.vars_clear, Function.update_of_ne hk.symm]
    exact h.polls

theorem Mechanics.set (h : p.Mechanics) (kind : Kind) (ms : ℚ) (hk : kind ≠ .timer)
    (hnone : p.clock.vars kind = none)
    (hms : kind = .retryTimer → minRetryMs ≤ ms ∧ ms ≤ maxRetryMs) :
    { p with clock := p.clock.set kind ms }.Mechanics where
  clock := h.clock.set hnone ms
  attached := h.attached
  exists' := h.exists'
  discarded := h.discarded
  delays := List.forall_mem_cons.mpr ⟨hms, h.delays⟩
  intervals := List.forall_mem_cons.mpr ⟨fun heq => absurd heq hk, h.intervals⟩
  polls := by
    rw [Clock.vars_set, Function.update_of_ne hk.symm]
    exact h.polls

theorem getElem?_modifySocket {i j : ℕ} :
    (p.modifySocket i f).sockets[j]? = p.sockets[j]?.map fun s => if i = j then f s else s := by
  rw [modifySocket, List.getElem?_modify, Option.map_eq_map]

theorem Mechanics.modifySocket (h : p.Mechanics) {i : ℕ} (hf : ∀ s, (f s).attached = s.attached)
    (hf' : ∀ s, p.sockets[i]? = some s → s.attached = false → s.readyState = .closing ∨
      s.readyState = .closed →
      (f s).readyState = .closing ∨
      (f s).readyState = .closed) : (p.modifySocket i f).Mechanics where
  clock := h.clock
  attached j s hs := by
    rw [getElem?_modifySocket] at hs
    obtain ⟨s, hs', rfl⟩ := Option.map_eq_some_iff.mp hs
    split
    · exact hf s ▸ h.attached j s hs'
    · exact h.attached j s hs'
  exists' j hj := by
    rw [Page.modifySocket, List.length_modify]
    exact h.exists' j hj
  discarded j s hs := by
    rw [getElem?_modifySocket] at hs
    obtain ⟨s, hs', rfl⟩ := Option.map_eq_some_iff.mp hs
    split
    · next hij => exact fun ha => hf' s (hij ▸ hs') (hf s ▸ ha) (h.discarded j s hs' (hf s ▸ ha))
    · exact h.discarded j s hs'
  delays := h.delays
  intervals := h.intervals
  polls := h.polls

theorem getElem?_concat_eq_some {α : Type*} {l : List α} {a b : α} {i : ℕ}
    (h : (l ++ [a])[i]? = some b) :
    l[i]? = some b ∧ i < l.length ∨ i = l.length ∧ b = a := by
  rcases Nat.lt_or_ge i l.length with hi | hi
  · rw [List.getElem?_append_left hi] at h
    exact .inl ⟨h, hi⟩
  · rw [List.getElem?_append_right hi, List.getElem?_singleton] at h
    split at h
    · next hz => exact .inr ⟨by omega, (Option.some.inj h).symm⟩
    · cases h

theorem Mechanics.newSocket (h : p.Mechanics) (hnone : p.socket = none) (token : Auth) :
    Mechanics { p with
      sockets := p.sockets ++ [⟨token, .connecting, true, []⟩],
      socket := some p.sockets.length } where
  clock := h.clock
  attached i s hs := by
    rcases getElem?_concat_eq_some hs with ⟨hs, hi⟩ | ⟨rfl, rfl⟩
    · rw [h.attached i s hs, hnone]
      exact iff_of_false (Option.some_ne_none i).symm fun heq =>
        Nat.ne_of_gt hi (Option.some.inj heq)
    · exact iff_of_true rfl rfl
  exists' := by
    intro i hi
    rw [← Option.some.inj hi, List.length_append]
    exact Nat.lt_succ_self _
  discarded i s hs := by
    rcases getElem?_concat_eq_some hs with ⟨hs, -⟩ | ⟨rfl, rfl⟩
    · exact h.discarded i s hs
    · exact fun ha => Bool.noConfusion ha
  delays := h.delays
  intervals := h.intervals
  polls := h.polls

theorem teardown_eq (p : Page) : p.teardown =
    { p with clock := (p.clock.clear .pingTimer).clear .pongTimer,
             realtimeState := if p.wanted then .connecting else .stopped, socket := none,
             sockets := p.socket.elim p.sockets fun i => p.sockets.modify i WebSocket.close } := by
  simp only [teardown, clearTimers]
  cases p.socket <;> rfl

theorem getElem?_teardown (p : Page) (j : ℕ) :
    p.teardown.sockets[j]? = p.sockets[j]?.map fun s =>
      if p.socket = some j then s.close else s := by
  rw [teardown_eq]
  cases p.socket with
  | none => simp
  | some i =>
    simp only [Option.elim_some, List.getElem?_modify, Option.map_eq_map, Option.some.injEq]

theorem Mechanics.teardown (h : p.Mechanics) : p.teardown.Mechanics := by
  have hclear := (h.clear .pingTimer (by decide)).clear .pongTimer (by decide)
  constructor
  case clock =>
    rw [teardown_eq]
    exact hclear.clock
  case attached =>
    intro j s hs
    rw [getElem?_teardown] at hs
    obtain ⟨s, hs', rfl⟩ := Option.map_eq_some_iff.mp hs
    rw [teardown_eq]
    split
    · exact iff_of_false Bool.false_ne_true (Option.some_ne_none j).symm
    · next hj =>
        exact iff_of_false (fun ha => hj ((h.attached j s hs').mp ha)) (Option.some_ne_none j).symm
  case exists' =>
    intro j hj
    rw [teardown_eq] at hj
    cases hj
  case discarded =>
    intro j s hs
    rw [getElem?_teardown] at hs
    obtain ⟨s, hs', rfl⟩ := Option.map_eq_some_iff.mp hs
    split
    · intro
      rw [WebSocket.close]
      split
      · exact .inr rfl
      · exact .inl rfl
    · exact h.discarded j s hs'
  case delays =>
    rw [teardown_eq]
    exact hclear.delays
  case intervals =>
    rw [teardown_eq]
    exact hclear.intervals
  case polls =>
    rw [teardown_eq]
    exact hclear.polls

/-- Whatever state it was in, a page without a socket is in order. -/
theorem Mechanics.sound_teardown (h : p.Mechanics) (hf : p.Flags) : p.teardown.Sound := by
  have hm := h.teardown
  rw [teardown_eq] at hm ⊢
  constructor
  case mechanics => exact hm
  case flags =>
    constructor
    case auth => exact hf.auth
    case presence => exact hf.presence
    case calls => exact hf.calls
    case stopped => simpa using hf.stopped
    case focus => simpa using hf.focus
  all_goals simp

theorem minRetryMs_le_maxRetryMs : minRetryMs ≤ maxRetryMs := by norm_num [minRetryMs, maxRetryMs]

/-- A retry waits for the shortest back-off at least and for the longest at most. -/
theorem retryMs_mem (attempt : ℕ) (h : 0 ≤ random ∧ random < 1) :
    minRetryMs ≤ retryMs attempt random ∧ retryMs attempt random ≤ maxRetryMs := by
  have hpos : (0 : ℚ) ≤ minRetryMs := by norm_num [minRetryMs]
  have hpow : (1 : ℚ) ≤ 2 ^ attempt := one_le_pow₀ one_le_two
  have hlow : minRetryMs ≤ min maxRetryMs (minRetryMs * 2 ^ attempt) :=
    le_min minRetryMs_le_maxRetryMs (le_mul_of_one_le_right hpos hpow)
  have hhigh : min maxRetryMs (minRetryMs * 2 ^ attempt) ≤ maxRetryMs := min_le_left _ _
  have hroom : 0 ≤ min maxRetryMs (minRetryMs * 2 ^ attempt) - minRetryMs := by linarith
  have hless : random * (min maxRetryMs (minRetryMs * 2 ^ attempt) - minRetryMs) ≤
      min maxRetryMs (minRetryMs * 2 ^ attempt) - minRetryMs := mul_le_of_le_one_left hroom h.2.le
  have hmore := mul_nonneg h.1 hroom
  rw [retryMs]
  constructor <;> linarith

/-- A retry is scheduled only where none is, and only while the page is wanted. -/
theorem Sound.scheduleRetry (h : p.Sound) (hr : 0 ≤ random ∧ random < 1) :
    (p.scheduleRetry random).Sound := by
  unfold Page.scheduleRetry
  split
  · exact h
  · next hif =>
    simp only [Bool.or_eq_true, Bool.not_eq_true', not_or, Bool.not_eq_false,
      Option.not_isSome_iff_eq_none] at hif
    exact {
      mechanics := { h.mechanics.set .retryTimer (retryMs p.attempt random) (by decide) hif.2
        fun _ => retryMs_mem p.attempt hr with }
      flags := { h.flags with stopped := fun hw => absurd (hif.1.symm.trans hw) (by decide) }
      wanted := h.wanted
      state := h.state
      opened := h.opened
      connecting := h.connecting
      pings := h.pings
      pongs := h.pongs }

theorem trying_scheduleRetry (p : Page) (random : ℚ) : (p.scheduleRetry random).Trying := by
  intro hw
  unfold scheduleRetry at hw ⊢
  split at hw
  · next hif =>
    rw [Bool.or_eq_true, Bool.not_eq_true', hw] at hif
    rw [if_pos (by simpa [hw] using hif)]
    exact .inr (hif.resolve_left (by decide))
  · next hif =>
    rw [if_neg hif]
    exact .inr rfl

theorem Sound.open (h : p.Sound) (hr : 0 ≤ random ∧ random < 1) : (p.open throws random).Sound := by
  unfold Page.open
  split
  · exact h
  · next hif =>
    simp only [Bool.or_eq_true, Bool.not_eq_true', not_or,
      Bool.not_eq_false, Option.not_isSome_iff_eq_none] at hif
    split
    · exact h
    · next token htoken =>
      split
      · exact h.scheduleRetry hr
      · have hping : p.clock.vars .pingTimer = none := by
          have := h.pings
          rw [hif.2] at this
          simpa using this
        exact {
          mechanics := h.mechanics.newSocket hif.2 token
          flags := { h.flags with }
          wanted := fun _ => hif.1
          state := h.state
          opened := by
            intro i s hi hs hopen
            obtain rfl := Option.some.inj hi
            rw [List.getElem?_concat_length, Option.some.injEq] at hs
            subst hs
            cases hopen
          connecting := fun _ _ _ _ _ => hping
          pings := fun _ => rfl
          pongs := h.pongs }

theorem Flags.trying_open (h : p.Flags) (throws : Bool) (random : ℚ) :
    (p.open throws random).Trying := by
  unfold Page.open
  split
  · next hif =>
    intro hw
    rw [hw, Bool.not_true, Bool.false_or] at hif
    exact .inl hif
  · next hif =>
    split
    · next hnone =>
      intro hw
      rw [h.auth, hnone] at hw
      cases hw
    · split
      · exact trying_scheduleRetry _ _
      · exact fun _ => .inl rfl

theorem Trying.congr {q : Page} (h : p.Trying) (hw : q.wanted = p.wanted) (hs : q.socket = p.socket)
    (hr : q.clock.vars .retryTimer = p.clock.vars .retryTimer) : q.Trying := by
  rw [Trying, hw, hs, hr]
  exact h

theorem Sound.setPollInterval (h : p.Sound) {interval : ℚ}
    (hi : interval = pollIntervalMs ∨ interval =
      realtimePollIntervalMs) : (p.setPollInterval interval).Sound := by
  unfold Page.setPollInterval
  split
  · exact h
  · have hne : interval ≠ 0 := by
      rintro rfl
      rcases hi with hi | hi <;> norm_num [pollIntervalMs, realtimePollIntervalMs] at hi
    have hm : Mechanics { p with
        timerInterval := interval, clock := (p.clock.clear .timer).set .timer interval } := {
      clock := (h.mechanics.clock.clear .timer).set
        (by rw [Clock.vars_clear, Function.update_self]) interval
      attached := h.mechanics.attached
      exists' := h.mechanics.exists'
      discarded := h.mechanics.discarded
      delays := List.forall_mem_cons.mpr ⟨fun hk => Kind.noConfusion hk, fun t ht =>
        h.mechanics.delays t (Clock.sublist_clear.subset ht)⟩
      intervals := List.forall_mem_cons.mpr ⟨fun _ => And.intro rfl hi, fun t ht hk =>
        absurd hk ((Clock.mem_running_clear h.mechanics.clock).mp ht).2⟩
      polls := iff_of_false hne (Option.some_ne_none _) }
    have hvars : ∀ kind, kind ≠ .timer →
        ((p.clock.clear .timer).set .timer interval).vars kind = p.clock.vars kind := by
      intro kind hk
      rw [Clock.vars_set, Function.update_of_ne hk, Clock.vars_clear, Function.update_of_ne hk]
    have hping := hvars .pingTimer (by decide)
    have hpong := hvars .pongTimer (by decide)
    have hretry := hvars .retryTimer (by decide)
    exact {
      mechanics := hm
      flags := { h.flags with
        stopped := fun hw => hretry.trans (h.flags.stopped hw)
        focus := fun _ => rfl }
      wanted := h.wanted
      state := by
        rw [hping]
        exact h.state
      opened := by
        rw [hping]
        exact h.opened
      connecting := by
        rw [hping]
        exact h.connecting
      pings := by
        rw [hping]
        exact h.pings
      pongs := by
        rw [hping, hpong]
        exact h.pongs }

theorem setPollInterval_same (p : Page) (interval : ℚ) :
    (p.setPollInterval interval).wanted = p.wanted ∧
    (p.setPollInterval interval).socket = p.socket ∧
    (p.setPollInterval interval).clock.vars .retryTimer = p.clock.vars .retryTimer := by
  unfold setPollInterval
  split
  · exact ⟨rfl, rfl, rfl⟩
  · refine ⟨rfl, rfl, ?_⟩
    rw [Clock.vars_set, Function.update_of_ne (by decide), Clock.vars_clear,
      Function.update_of_ne (by decide)]

theorem Sound.syncNow (h : p.Sound) : p.syncNow.Sound := by
  unfold Page.syncNow
  split
  · exact h
  · refine Sound.setPollInterval ?_ ?_
    · exact { h with mechanics := { h.mechanics with }, flags := { h.flags with } }
    · split
      · exact .inr rfl
      · exact .inl rfl

theorem Trying.setPollInterval (h : p.Trying) (interval : ℚ) :
    (p.setPollInterval interval).Trying := by
  obtain ⟨hw, hs, hr⟩ := setPollInterval_same p interval
  exact h.congr hw hs hr

theorem Trying.syncNow (h : p.Trying) : p.syncNow.Trying := by
  unfold Page.syncNow
  split
  · exact h
  · exact Trying.setPollInterval (p := { p with running := true, passes := p.passes + 1 }) h _

theorem send_of_none (h : p.socket = none) (frame : Frame) : p.send frame = p := by rw [send, h]

theorem send_of_some {i : ℕ} (h : p.socket = some i) (frame : Frame) :
    p.send frame = p.modifySocket i fun s =>
    if s.readyState = .opened then { s with sent := s.sent ++ [frame] } else s := by
  rw [send, h]

/-- `v` is whether the page is on screen from now on. -/
theorem Sound.sendFrame (h : p.Sound) (v : Bool) {frame : Frame}
    (hframe : ∀ x, x = some (!p.visible) → hear x frame = some (!v)) :
    (send { p with visible := v } frame).Sound := by
  rcases Option.eq_none_or_eq_some p.socket with hsock | ⟨i, hsock⟩
  · rw [send_of_none (p := { p with visible := v }) hsock]
    have hm : Mechanics { p with visible := v } := { h.mechanics with }
    exact { h with
      mechanics := hm
      flags := { h.flags with }
      opened := fun i s hi => absurd (hsock.symm.trans hi) (Option.some_ne_none i).symm }
  · rw [send_of_some (p := { p with visible := v }) hsock]
    have hm := h.mechanics.modifySocket (i := i) (f := fun s =>
      if s.readyState = .opened then { s with sent := s.sent ++ [frame] } else s) (fun s => by
        split <;> rfl)
      (fun s _ _ hs => by split <;> exact hs)
    refine {
      mechanics := { hm with }
      flags := { h.flags with }
      wanted := h.wanted
      state := h.state
      opened := fun j s hj hs hopen => ?_
      connecting := fun j s hj hs hconn => ?_
      pings := h.pings
      pongs := h.pongs }
    · obtain rfl := Option.some.inj (hsock.symm.trans hj)
      obtain ⟨s, hs', rfl⟩ := Option.map_eq_some_iff.mp (getElem?_modifySocket.symm.trans hs)
      rw [if_pos rfl] at hopen ⊢
      split at hopen
      · next ho =>
        obtain ⟨hping, hheard⟩ := h.opened i s hsock hs' ho
        rw [if_pos ho, heard_append]
        exact ⟨hping, hframe _ hheard⟩
      · next ho => exact absurd hopen ho
    · obtain rfl := Option.some.inj (hsock.symm.trans hj)
      obtain ⟨s, hs', rfl⟩ := Option.map_eq_some_iff.mp (getElem?_modifySocket.symm.trans hs)
      rw [if_pos rfl] at hconn
      split at hconn
      · next ho =>
        rw [ho] at hconn
        cases hconn
      · exact h.connecting i s hsock hs' hconn

theorem send_same (p : Page) (frame : Frame) :
    (p.send frame).wanted = p.wanted ∧ (p.send frame).socket = p.socket ∧
    (p.send frame).clock = p.clock ∧ (p.send frame).visible = p.visible := by
  unfold send
  split <;> exact ⟨rfl, rfl, rfl, rfl⟩

theorem Trying.send (h : p.Trying) (frame : Frame) : (p.send frame).Trying := by
  obtain ⟨hw, hs, hc, -⟩ := send_same p frame
  exact h.congr hw hs (by rw [hc])

theorem Sound.sendPresence (h : p.Sound) (v : Bool) :
    (sendPresence { p with visible := v }).Sound := by
  unfold Page.sendPresence
  refine h.sendFrame v fun x _ => ?_
  cases v <;> rfl

/-- A socket that goes down, with or without its page's knowing. -/
theorem Sound.down (h : p.Sound) (i : ℕ) {state : ReadyState}
    (hstate : state = .closing ∨ state = .closed) :
    (p.modifySocket i fun s => { s with readyState := state }).Sound := by
  have hm :=
    h.mechanics.modifySocket (i := i) (f := fun s => { s with readyState := state }) (fun _ => rfl)
    (fun _ _ _ _ => hstate)
  refine { h with mechanics := hm, flags := { h.flags with }, opened := ?_, connecting := ?_ }
  · intro j s hj hs hopen
    obtain ⟨s, hs', rfl⟩ := Option.map_eq_some_iff.mp (getElem?_modifySocket.symm.trans hs)
    split at hopen
    · rcases hstate with rfl | rfl <;> cases hopen
    · next hne =>
      rw [if_neg hne]
      exact h.opened j s hj hs' hopen
  · intro j s hj hs hconn
    obtain ⟨s, hs', rfl⟩ := Option.map_eq_some_iff.mp (getElem?_modifySocket.symm.trans hs)
    split at hconn
    · rcases hstate with rfl | rfl <;> cases hconn
    · exact h.connecting j s hj hs' hconn

/-- A socket that was connecting is up. -/
def connected (p : Page) (i : ℕ) : Page :=
  (({ p.modifySocket i fun s => { s with readyState := .opened } with
    realtimeState := .opened, attempt := 0 }.heartbeat).sendPresence)

theorem connected_eq {i : ℕ} (hi : p.socket = some i) : p.connected i =
    { p with realtimeState := .opened, attempt := 0,
             clock := ((p.clock.clear .pingTimer).clear .pongTimer).set .pingTimer
               realtimePingIntervalMs,
             sockets := p.sockets.modify i fun s =>
               { s with readyState := .opened, sent := s.sent ++
                 [if p.visible then .visible else .hidden] } } := by
  rw [connected, sendPresence, send_of_some (i := i)]
  · simp only [heartbeat, clearTimers, Page.modifySocket, List.modify_modify_eq]
    rfl
  · exact hi

theorem heard_presence (frames : List Frame) (v : Bool) :
    heard (frames ++ [if v then .visible else .hidden]) = some (!v) := by
  rw [heard_append]
  cases v <;> rfl

theorem Sound.connected (h : p.Sound) {i : ℕ} (hi : p.socket = some i) : (p.connected i).Sound := by
  have hw : p.wanted = true := h.wanted (by rw [hi]; rfl)
  have hm := h.mechanics.modifySocket (i := i) (f := fun s =>
    { s with
      readyState := .opened,
      sent := s.sent ++ [if p.visible then .visible else .hidden] }) (fun _ => rfl)
    (fun s hs ha => absurd ((h.mechanics.attached i s hs).mpr hi) (by simp [ha]))
  have hm := ((hm.clear .pingTimer (by decide)).clear .pongTimer (by decide)).set
    .pingTimer realtimePingIntervalMs (by decide) (by simp) fun hk => Kind.noConfusion hk
  rw [connected_eq hi]
  constructor
  case mechanics => exact { hm with }
  case flags =>
    refine { h.flags with
      stopped := fun hw' => absurd (hw.symm.trans hw') (by decide), focus := fun hf => ?_ }
    simpa using h.flags.focus hf
  case wanted => exact fun _ => hw
  case state => simp [hw]
  case opened =>
    intro j s hj hs hopen
    obtain rfl := Option.some.inj (hi.symm.trans hj)
    obtain ⟨s, hs', rfl⟩ := Option.map_eq_some_iff.mp (getElem?_modifySocket.symm.trans hs)
    rw [if_pos rfl]
    exact ⟨rfl, heard_presence _ _⟩
  case connecting =>
    intro j s hj hs hconn
    obtain rfl := Option.some.inj (hi.symm.trans hj)
    obtain ⟨s, hs', rfl⟩ := Option.map_eq_some_iff.mp (getElem?_modifySocket.symm.trans hs)
    rw [if_pos rfl] at hconn
    cases hconn
  case pings => exact fun _ => by rw [hi]; rfl
  case pongs => exact fun _ => rfl

theorem Trying.connected (h : p.Trying) {i : ℕ} (hi : p.socket = some i) :
    (p.connected i).Trying := by
  rw [connected_eq hi]
  exact h.congr rfl rfl (by simp)

theorem Sound.callListener (h : p.Sound) : p.callListener.Sound := by
  unfold Page.callListener
  split
  · exact h
  · exact h.syncNow

theorem Trying.callListener (h : p.Trying) : p.callListener.Trying := by
  unfold Page.callListener
  split
  · exact h
  · exact h.syncNow

theorem Sound.clearPong (h : p.Sound) : Sound { p with clock := p.clock.clear .pongTimer } := by
  have hm := h.mechanics.clear .pongTimer (by decide)
  constructor
  case mechanics => exact hm
  case flags =>
    refine { h.flags with stopped := fun hw => ?_, focus := fun hf => ?_ }
    · simpa using h.flags.stopped hw
    · simpa using h.flags.focus hf
  case wanted => exact h.wanted
  case state => simpa using h.state
  case opened => simpa using h.opened
  case connecting => simpa using h.connecting
  case pings => simpa using h.pings
  case pongs => simp

theorem Sound.clearRetry (h : p.Sound) (attempt : ℕ) :
    Sound { p with clock := p.clock.clear .retryTimer, attempt } := by
  have hm := h.mechanics.clear .retryTimer (by decide)
  constructor
  case mechanics => exact { hm with }
  case flags =>
    refine { h.flags with stopped := fun _ => by simp, focus := fun hf => ?_ }
    simpa using h.flags.focus hf
  case wanted => exact h.wanted
  case state => simpa using h.state
  case opened => simpa using h.opened
  case connecting => simpa using h.connecting
  case pings => simpa using h.pings
  case pongs => simpa using h.pongs

/-- Losing the socket, if a retry follows. -/
theorem Mechanics.retry (h : p.Mechanics) (hf : p.Flags) (hr : 0 ≤ random ∧ random < 1) :
    (p.teardown.scheduleRetry random).Sound ∧ (p.teardown.scheduleRetry random).Trying :=
  ⟨(h.sound_teardown hf).scheduleRetry hr, trying_scheduleRetry _ _⟩

/-- Starting tears down what was there before. -/
theorem Sound.startRealtime (h : p.Sound) (auth : Auth) (throws : Bool)
    (hr : 0 ≤ random ∧ random < 1) :
    (p.startRealtime auth .syncNow throws random).Sound ∧
    (p.startRealtime auth .syncNow throws random).Trying := by
  have hup : Sound { p with
      currentAuth := some auth
      onEvent := .syncNow
      wanted := true
      realtimeState := if p.realtimeState = .opened then .opened else .connecting
      presenceListener := true } := by
    refine {
      mechanics := { h.mechanics with }
      flags := ⟨rfl, rfl, fun _ => rfl, fun hw => Bool.noConfusion hw, h.flags.focus⟩
      wanted := fun _ => rfl
      state := ?_
      opened := h.opened
      connecting := h.connecting
      pings := h.pings
      pongs := h.pongs }
    have hstate := h.state
    have hping : (p.clock.vars .pingTimer).isSome → p.wanted = true :=
      fun hp => h.wanted (h.pings hp)
    by_cases hp : (p.clock.vars .pingTimer).isSome
    · rw [if_pos (hping hp), if_pos hp] at hstate
      simp [hstate, hp]
    · rw [if_neg hp] at hstate
      have hne : p.realtimeState ≠ .opened := by
        rw [hstate]
        split <;> decide
      simp [hne, hp]
  unfold Page.startRealtime
  simp only
  split
  · next hsock => exact ⟨hup, fun _ => .inl hsock⟩
  · exact ⟨hup.open hr, hup.flags.trying_open _ _⟩

theorem Mechanics.stopTimer (h : p.Mechanics) :
    Mechanics { p with
      clock := p.clock.clear .timer, timerInterval := 0, focusListener := false } where
  clock := h.clock.clear .timer
  attached := h.attached
  exists' := h.exists'
  discarded := h.discarded
  delays t ht := h.delays t (Clock.sublist_clear.subset ht)
  intervals t ht hk := absurd hk ((Clock.mem_running_clear h.clock).mp ht).2
  polls := by simp

theorem stopSync_eq (p : Page) : p.stopSync = { p with
    clock := (p.clock.clear .timer).clear .retryTimer, timerInterval := 0, focusListener := false,
    wanted := false,
    presenceListener := false, currentAuth := none, attempt := 0 }.teardown := by
  simp only [stopSync, stopRealtime, teardown_eq]

theorem Sound.stopSync (h : p.Sound) : p.stopSync.Sound := by
  rw [stopSync_eq]
  have hm := h.mechanics.stopTimer.clear .retryTimer (by decide)
  refine Mechanics.sound_teardown { hm with } ⟨rfl, rfl, fun hw => Bool.noConfusion hw,
    fun _ => ?_, fun hf => Bool.noConfusion hf⟩
  simp

theorem stopSync_wanted (p : Page) : p.stopSync.wanted = false := by rw [stopSync_eq, teardown_eq]

theorem Sound.setFocusListener (h : p.Sound) (ht : (p.clock.vars .timer).isSome) :
    Sound { p with focusListener := true } :=
  { h with mechanics := { h.mechanics with }, flags := { h.flags with focus := fun _ => ht } }

theorem timer_setPollInterval (h : p.Mechanics) {interval : ℚ} (hne : interval ≠ 0) :
    ((p.setPollInterval interval).clock.vars .timer).isSome := by
  unfold setPollInterval
  split
  · next heq =>
    rw [Option.isSome_iff_ne_none]
    exact fun hnone => hne (heq.symm.trans (h.polls.mpr hnone))
  · rfl

theorem timer_startRealtime (p : Page) (auth : Auth) (listener : Listener) (throws : Bool)
    (random : ℚ) :
    (p.startRealtime auth listener throws random).clock.vars .timer = p.clock.vars .timer := by
  have hset : ∀ (c : Clock) (ms : ℚ),
      (c.set .retryTimer ms).vars .timer = c.vars .timer := fun c ms => by
    rw [Clock.vars_set, Function.update_of_ne (by decide)]
  unfold startRealtime Page.open scheduleRetry
  simp only
  split
  · rfl
  · split
    · rfl
    · split
      · split
        · rfl
        · exact hset _ _
      · rfl

theorem Sound.startSync (h : p.Sound) (hr : 0 ≤ random ∧ random < 1) :
    (p.startSync throws random).Sound ∧ (p.startSync throws random).Trying := by
  have hpoll := (h.stopSync.syncNow).setPollInterval (.inl rfl)
  have hne : pollIntervalMs ≠ 0 := by norm_num [pollIntervalMs]
  have htimer := timer_setPollInterval (h.stopSync.syncNow).mechanics hne
  unfold Page.startSync
  simp only
  split
  · have hstopped : p.stopSync.Trying :=
      fun hw => absurd (p.stopSync_wanted.symm.trans hw) (by decide)
    exact ⟨hpoll.setFocusListener htimer, hstopped.syncNow.setPollInterval pollIntervalMs⟩
  · next auth _ =>
    obtain ⟨hs, ht⟩ := hpoll.startRealtime auth throws hr
    refine ⟨hs.setFocusListener ?_, ht⟩
    rw [timer_startRealtime]
    exact htimer

theorem Sound.ensureRealtime (h : p.Sound) (ht : p.Trying) (throws : Bool)
    (hr : 0 ≤ random ∧ random < 1) :
    (p.ensureRealtime throws random).Sound ∧ (p.ensureRealtime throws random).Trying := by
  unfold Page.ensureRealtime
  split
  · exact ⟨h, ht⟩
  · exact ⟨(h.clearRetry 0).open hr, (h.clearRetry 0).flags.trying_open _ _⟩

/-- A ping waits for its pong under a timer of its own. -/
theorem Sound.ping (h : p.Sound) (hping : (p.clock.vars .pingTimer).isSome) : p.ping.Sound := by
  have hsend : (p.send .ping).Sound := h.sendFrame p.visible fun _ hx => hx
  unfold Page.ping
  split
  · simp only
    split
    · exact hsend
    · next hpong =>
      have hnone := Option.not_isSome_iff_eq_none.mp hpong
      have hm :=
        hsend.mechanics.set .pongTimer pongTimeoutMs (by decide) hnone fun hk => Kind.noConfusion hk
      have hc := (send_same p .ping).2.2.1
      exact { hsend with
        mechanics := hm
        flags := { hsend.flags with }
        pongs := fun _ => by simpa [hc] using hping }
  · exact h

theorem Trying.ping (h : p.Trying) : p.ping.Trying := by
  unfold Page.ping
  split
  · simp only
    split
    · exact h.send _
    · exact (h.send _).congr rfl rfl (by simp)
  · exact h

theorem fires_pong (p : Page) {t : Running} (h : p.clock.vars .pongTimer = some t.id) :
    teardown { p with clock := p.clock.expire t.id } = p.teardown := by
  simp only [teardown_eq, Clock.clear_expire_of_ne .pingTimer h (by decide)]

theorem Sound.fires (h : p.Sound) (ht : p.Trying) {t : Running} (hmem : t ∈ p.clock.running)
    (hr : 0 ≤ random ∧ random < 1) :
    (p.fires t throws random).Sound ∧ (p.fires t throws random).Trying := by
  have hkept := h.mechanics.clock.kept t hmem
  unfold Page.fires
  split
  · exact ⟨h.syncNow, ht.syncNow⟩
  · next hk =>
    rw [hk] at hkept
    rw [Clock.forget_expire hkept]
    have hs := h.clearRetry p.attempt
    exact ⟨hs.open hr, hs.flags.trying_open _ _⟩
  · next hk =>
    rw [hk] at hkept
    exact ⟨h.ping (by rw [hkept]; rfl), ht.ping⟩
  · next hk =>
    rw [hk] at hkept
    rw [fires_pong p hkept]
    exact h.mechanics.retry h.flags hr

end Page

theorem Page.Sound.visibilitychange {p : Page} (h : p.Sound) (hl : p.presenceListener = false)
    (visible : Bool) :
    Page.Sound { p with visible } := by
  have hnone : p.socket = none := by
    rw [← Option.not_isSome_iff_eq_none]
    exact fun hs => absurd ((h.flags.presence.symm.trans (h.wanted hs)).symm.trans hl) (by decide)
  exact { h with
    mechanics := { h.mechanics with }
    flags := { h.flags with }
    opened := fun i _ hi => absurd (hnone.symm.trans hi) (Option.some_ne_none i).symm }

/-- One step. -/
theorem Page.Sound.step {p q : Page} {e : Event} (h : p.Sound) (ht : p.Trying) (he : e.Random)
    (hs : Realtime.step p e = some q) : q.Sound ∧ q.Trying := by
  cases e with
  | signals session keyring sessionRevoked =>
    obtain rfl := Option.some.inj hs
    exact ⟨{ h with mechanics := { h.mechanics with }, flags := { h.flags with } }, ht⟩
  | startSync throws random =>
    obtain rfl := Option.some.inj hs
    exact h.startSync he
  | stopSync =>
    obtain rfl := Option.some.inj hs
    exact ⟨h.stopSync, fun hw => absurd (p.stopSync_wanted.symm.trans hw) (by decide)⟩
  | syncNow =>
    obtain rfl := Option.some.inj hs
    exact ⟨h.syncNow, ht.syncNow⟩
  | passEnds =>
    obtain rfl := Option.some.inj hs
    exact ⟨{ h with mechanics := { h.mechanics with }, flags := { h.flags with } }, ht⟩
  | focus throws random =>
    rw [Realtime.step] at hs
    split at hs
    · obtain rfl := Option.some.inj hs
      obtain ⟨hsound, htrying⟩ := h.ensureRealtime ht throws he
      exact ⟨hsound.syncNow, htrying.syncNow⟩
    · obtain rfl := Option.some.inj hs
      exact ⟨h, ht⟩
  | visibilitychange visible =>
    simp only [Realtime.step] at hs
    split at hs
    · obtain rfl := Option.some.inj hs
      exact ⟨h.sendPresence visible, Trying.send (p := { p with visible }) ht _⟩
    · next hl =>
      obtain rfl := Option.some.inj hs
      exact ⟨h.visibilitychange (Bool.eq_false_iff.mpr hl) visible, ht⟩
  | opened i =>
    obtain ⟨s, hget, hs⟩ := Option.bind_eq_some_iff.mp hs
    split at hs
    · cases hs
    · next hstate =>
      have hstate := not_not.mp hstate
      have ha : s.attached = true := by
        rw [← Bool.not_eq_false]
        intro ha
        rcases h.mechanics.discarded i s hget ha with hd | hd <;> rw [hstate] at hd <;> cases hd
      rw [if_pos ha] at hs
      obtain rfl := Option.some.inj hs
      have hi := (h.mechanics.attached i s hget).mp ha
      exact ⟨(h.connected hi).callListener,
        Trying.callListener (p := p.connected i) (ht.connected hi)⟩
  | message i data =>
    obtain ⟨s, hget, hs⟩ := Option.bind_eq_some_iff.mp hs
    split at hs
    · cases hs
    · split at hs
      · obtain rfl := Option.some.inj hs
        have ht' : Trying { p with clock := p.clock.clear .pongTimer } := ht.congr rfl rfl (by simp)
        cases data with
        | pong => exact ⟨h.clearPong, ht'⟩
        | sync => exact ⟨h.clearPong.callListener, ht'.callListener⟩
        | other => exact ⟨h.clearPong, ht'⟩
      · obtain rfl := Option.some.inj hs
        exact ⟨h, ht⟩
  | closing i =>
    obtain ⟨s, hget, hs⟩ := Option.bind_eq_some_iff.mp hs
    split at hs
    · cases hs
    · obtain rfl := Option.some.inj hs
      exact ⟨h.down i (.inl rfl), ht⟩
  | closed i random =>
    obtain ⟨s, hget, rfl⟩ := Option.map_eq_some_iff.mp hs
    have hdown := h.down i (.inr rfl)
    simp only
    split
    · next ha =>
      have hi := (h.mechanics.attached i s hget).mp ha
      rw [onclose, if_neg]
      · exact hdown.mechanics.retry hdown.flags he
      · exact not_not.mpr hi
    · exact ⟨hdown, ht⟩
  | fires t throws random =>
    rw [Realtime.step] at hs
    split at hs
    · next hmem =>
      obtain rfl := Option.some.inj hs
      exact h.fires ht hmem he
    · cases hs

theorem Page.sound_initial (visible : Bool) : (Page.initial visible).Sound where
  mechanics := {
    clock := {
      kept := fun _ ht => absurd ht List.not_mem_nil
      live := fun _ _ h => absurd h.symm (Option.some_ne_none _)
      fresh := fun _ ht => absurd ht List.not_mem_nil
      nodup := List.nodup_nil }
    attached := fun _ _ hs => absurd hs.symm (Option.some_ne_none _)
    exists' := fun _ hi => absurd hi.symm (Option.some_ne_none _)
    discarded := fun _ _ hs => absurd hs.symm (Option.some_ne_none _)
    delays := fun _ ht => absurd ht List.not_mem_nil
    intervals := fun _ ht => absurd ht List.not_mem_nil
    polls := iff_of_true rfl rfl }
  flags := ⟨rfl, rfl, fun hw => Bool.noConfusion hw, fun _ => rfl, fun hf => Bool.noConfusion hf⟩
  wanted hs := Bool.noConfusion hs
  state := rfl
  opened _ _ hi := absurd hi.symm (Option.some_ne_none _)
  connecting _ _ hi := absurd hi.symm (Option.some_ne_none _)
  pings hp := Bool.noConfusion hp
  pongs hp := Bool.noConfusion hp

variable {p q : Page}

theorem Reached.sound (h : Reached p) : p.Sound ∧ p.Trying := by
  obtain ⟨visible, h⟩ := h
  exact h.invariant (I := fun p => p.Sound ∧ p.Trying) ⟨Page.sound_initial visible,
    fun hw => Bool.noConfusion hw⟩
    fun _ _ _ hI he hs => hI.1.step hI.2 he hs

theorem Page.Sound.exists_timer (h : p.Sound) {kind : Kind} (hk : (p.clock.vars kind).isSome) :
    ∃ t ∈ p.clock.running, t.kind = kind := by
  obtain ⟨id, hid⟩ := Option.isSome_iff_exists.mp hk
  obtain ⟨t, ht, hkind, -⟩ := h.mechanics.clock.live kind id hid
  exact ⟨t, ht, hkind⟩

theorem Page.Sound.stopped (h : p.Sound) (hw : p.wanted = false) :
    p.socket = none ∧ ∀ kind, kind ≠ .timer → p.clock.vars kind = none := by
  have hnone : p.socket = none := by
    rw [← Option.not_isSome_iff_eq_none]
    exact fun hs => absurd ((h.wanted hs).symm.trans hw) (by decide)
  have hping : p.clock.vars .pingTimer = none := by
    rw [← Option.not_isSome_iff_eq_none]
    intro hp
    have := h.pings hp
    rw [hnone] at this
    cases this
  refine ⟨hnone, fun kind hk => ?_⟩
  cases kind with
  | timer => exact absurd rfl hk
  | retryTimer => exact h.flags.stopped hw
  | pingTimer => exact hping
  | pongTimer =>
    rw [← Option.not_isSome_iff_eq_none]
    intro hp
    have := h.pongs hp
    rw [hping] at this
    cases this

theorem Page.realtimeConnected_iff : p.realtimeConnected = true ↔
    ∃ i s, p.socket = some i ∧ p.sockets[i]? = some s ∧ s.readyState = .opened := by
  rw [Page.realtimeConnected, Option.any_eq_true, Page.current]
  constructor
  · rintro ⟨s, hs, hopen⟩
    obtain ⟨i, hi, hs⟩ := Option.bind_eq_some_iff.mp hs
    exact ⟨i, s, hi, hs, of_decide_eq_true hopen⟩
  · rintro ⟨i, s, hi, hs, hopen⟩
    exact ⟨s, by rw [hi, Option.bind_some, hs], decide_eq_true hopen⟩

/-- Whatever happens, a page that is to be told has a socket which can call it, or a timer that will
open one within a minute; it has no other socket that is up or could call it, nor any timer it could
not stop; and as long as sync is on it polls. -/
theorem connection_is_tended (h : Reached p) :
    (p.wanted = true → (∃ s, p.current = some s ∧ s.attached = true) ∨
      ∃ t ∈ p.clock.running, t.kind = .retryTimer ∧ minRetryMs ≤ t.ms ∧ t.ms ≤ maxRetryMs) ∧
    (∀ i s, p.sockets[i]? = some s → p.socket ≠ some i →
      s.attached = false ∧ (s.readyState = .closing ∨ s.readyState = .closed)) ∧
    (∀ t ∈ p.clock.running, p.clock.vars t.kind = some t.id ∧
      (p.wanted = false → t.kind = .timer)) ∧
    (p.focusListener = true →
      ∃ t ∈ p.clock.running, t.kind = .timer ∧
        (t.ms = pollIntervalMs ∨ t.ms = realtimePollIntervalMs)) ∧
    (p.realtimeConnected = true → p.realtimeState = .opened ∧ ∃ t ∈ p.clock.running,
      t.kind = .pingTimer) := by
  obtain ⟨h, ht⟩ := h.sound
  refine ⟨fun hw => ?_, fun i s hs hi => ?_,
    fun t hmem => ⟨h.mechanics.clock.kept t hmem, fun hw => ?_⟩, fun hf => ?_,
    fun hc => ?_⟩
  · rcases ht hw with hsock | hretry
    · obtain ⟨i, hi⟩ := Option.isSome_iff_exists.mp hsock
      have hs := List.getElem?_eq_getElem (h.mechanics.exists' i hi)
      exact .inl ⟨_, by
        rw [Page.current, hi, Option.bind_some, hs], (h.mechanics.attached i _ hs).mpr hi⟩
    · obtain ⟨t, hmem, hk⟩ := h.exists_timer hretry
      exact .inr ⟨t, hmem, hk, h.mechanics.delays t hmem hk⟩
  · have ha : s.attached = false :=
      Bool.eq_false_iff.mpr fun ha => hi ((h.mechanics.attached i s hs).mp ha)
    exact ⟨ha, h.mechanics.discarded i s hs ha⟩
  · by_contra hk
    exact absurd (h.mechanics.clock.kept t hmem)
      (by rw [(h.stopped hw).2 _ hk]; exact (Option.some_ne_none _).symm)
  · obtain ⟨t, hmem, hk⟩ := h.exists_timer (h.flags.focus hf)
    exact ⟨t, hmem, hk, (h.mechanics.intervals t hmem hk).2⟩
  · obtain ⟨i, s, hi, hs, hopen⟩ := Page.realtimeConnected_iff.mp hc
    have hping := (h.opened i s hi hs hopen).1
    refine ⟨?_, h.exists_timer hping⟩
    rw [h.state, if_pos (h.wanted (by rw [hi]; rfl)), if_pos hping]

/-- A page that is up, started while it was on screen. -/
def Sample.started : List Event :=
  [.signals (some 7) true false, .startSync false 0, .opened 0, .message 0 .sync]

theorem connection_is_tended_sample : ∃ p, Reached p ∧ p.wanted = true ∧
    ((∃ s, p.current = some s ∧ s.attached = true) ∨
      ∃ t ∈ p.clock.running, t.kind = .retryTimer ∧ minRetryMs ≤ t.ms ∧ t.ms ≤ maxRetryMs) := by
  obtain ⟨p, hp, hw⟩ : ∃ p,
    Runs.replayVia step (fun _ e => e.Random) (Page.initial true) Sample.started = some p ∧
      p.wanted = true := ⟨_, rfl, rfl⟩
  have h : Reached p := ⟨true, Runs.reachableVia_of_replayVia hp⟩
  exact ⟨p, h, hw, (connection_is_tended h).1 hw⟩

/-- Nobody starts it again, and nothing else calls for a pass. -/
def Event.Idle : Event → Prop
  | .startSync _ _ | .syncNow => False
  | e => e.Random

theorem Event.Idle.random {e : Event} (h : e.Idle) : e.Random := by
  cases e with
  | startSync throws random => exact h.elim
  | syncNow => exact h.elim
  | _ => exact h

theorem Page.Sound.running_eq_nil (h : p.Sound) (hw : p.wanted = false)
    (ht : p.clock.vars .timer = none) :
    p.clock.running = [] := by
  refine List.eq_nil_iff_forall_not_mem.mpr fun t hmem => ?_
  have hkept := h.mechanics.clock.kept t hmem
  by_cases hk : t.kind = .timer
  · rw [hk, ht] at hkept
    cases hkept
  · rw [(h.stopped hw).2 _ hk] at hkept
    cases hkept

theorem sent_modify (sockets : List WebSocket) (i : ℕ) (f : WebSocket → WebSocket)
    (hf : ∀ s, (f s).sent = s.sent) :
    (sockets.modify i f).map WebSocket.sent = sockets.map WebSocket.sent := by
  refine List.ext_getElem? fun j => ?_
  rw [List.getElem?_map, List.getElem?_map, List.getElem?_modify, Option.map_eq_map, Option.map_map]
  refine Option.map_congr fun s _ => ?_
  simp only [Function.comp_apply]
  split
  · exact hf s
  · rfl

/-- What a page that is stopped does, until it is started. -/
theorem Page.Sound.quiet {e : Event} (h : p.Sound) (hw : p.wanted = false)
    (ht : p.clock.vars .timer = none) (he : e.Idle) (hs : Realtime.step p e = some q) :
    q.wanted = false ∧ q.clock.vars .timer = none ∧
      q.passes = p.passes ∧ q.sockets.map WebSocket.sent = p.sockets.map WebSocket.sent := by
  have hnone := (h.stopped hw).1
  have hdetached : ∀ (i : ℕ) (s : WebSocket), p.sockets[i]? = some s →
      s.attached = false := fun i s hget =>
    Bool.eq_false_iff.mpr fun ha =>
      absurd (hnone.symm.trans ((h.mechanics.attached i s hget).mp ha)) (Option.some_ne_none i).symm
  cases e with
  | signals session keyring sessionRevoked =>
    obtain rfl := Option.some.inj hs
    exact ⟨hw, ht, rfl, rfl⟩
  | startSync throws random => exact he.elim
  | stopSync =>
    obtain rfl := Option.some.inj hs
    rw [Page.stopSync_eq, Page.teardown_eq]
    exact ⟨rfl, by simp, rfl, by rw [hnone]; rfl⟩
  | syncNow => exact he.elim
  | passEnds =>
    obtain rfl := Option.some.inj hs
    exact ⟨hw, ht, rfl, rfl⟩
  | focus throws random =>
    have hf : p.focusListener = false := Bool.eq_false_iff.mpr fun hf => by
      have := h.flags.focus hf
      rw [ht] at this
      cases this
    rw [Realtime.step, hf] at hs
    obtain rfl := Option.some.inj hs
    exact ⟨hw, ht, rfl, rfl⟩
  | visibilitychange visible =>
    have hp : p.presenceListener ≠ true := by rw [← h.flags.presence, hw]; exact Bool.false_ne_true
    simp only [Realtime.step, if_neg hp, Option.some.injEq] at hs
    obtain rfl := hs
    exact ⟨hw, ht, rfl, rfl⟩
  | opened i =>
    obtain ⟨s, hget, hs⟩ := Option.bind_eq_some_iff.mp hs
    split at hs
    · cases hs
    · next hstate =>
      have hd := h.mechanics.discarded i s hget (hdetached i s hget)
      rw [not_not.mp hstate] at hd
      rcases hd with hd | hd <;> cases hd
  | message i data =>
    obtain ⟨s, hget, hs⟩ := Option.bind_eq_some_iff.mp hs
    rw [hdetached i s hget] at hs
    split at hs
    · cases hs
    · obtain rfl := Option.some.inj hs
      exact ⟨hw, ht, rfl, rfl⟩
  | closing i =>
    obtain ⟨s, hget, hs⟩ := Option.bind_eq_some_iff.mp hs
    split at hs
    · cases hs
    · obtain rfl := Option.some.inj hs
      exact ⟨hw, ht, rfl, sent_modify _ _ _ fun _ => rfl⟩
  | closed i random =>
    obtain ⟨s, hget, rfl⟩ := Option.map_eq_some_iff.mp hs
    have ha : ¬ s.attached = true := Bool.eq_false_iff.mp (hdetached i s hget)
    simp only [if_neg ha]
    exact ⟨hw, ht, rfl, sent_modify _ _ _ fun _ => rfl⟩
  | fires t throws random =>
    rw [Realtime.step, h.running_eq_nil hw ht] at hs
    cases hs

/-- A page that is stopped stays as it is until it is started: it opens no socket and says nothing,
and no pass begins. -/
theorem stopped_page_is_quiet (h : Reached p) (hw : p.wanted = false)
    (ht : p.clock.vars .timer = none) (hrun : Runs.ReachableVia step (fun _ e => e.Idle) p q) :
    q.wanted = false ∧ q.clock.running = [] ∧ q.passes = p.passes ∧
      q.sockets.map WebSocket.sent = p.sockets.map WebSocket.sent := by
  have hrun :=
    hrun.invariant (I := fun q => (q.Sound ∧ q.Trying) ∧ q.wanted = false ∧
      q.clock.vars .timer = none ∧
    q.passes = p.passes ∧ q.sockets.map WebSocket.sent = p.sockets.map WebSocket.sent) ⟨h.sound, hw,
    ht, rfl, rfl⟩
    fun s e t hI he hs => by
      obtain ⟨hw', ht', hpasses, hsent⟩ := hI.1.1.quiet hI.2.1 hI.2.2.1 he hs
      exact ⟨hI.1.1.step hI.1.2 he.random hs, hw', ht', hpasses.trans hI.2.2.2.1,
        hsent.trans hI.2.2.2.2⟩
  exact ⟨hrun.2.1, hrun.1.1.running_eq_nil hrun.2.1 hrun.2.2.1, hrun.2.2.2.1, hrun.2.2.2.2⟩

theorem stopped_page_is_quiet_sample : ∃ p q, Reached p ∧ p.wanted = false ∧
    Runs.ReachableVia step (fun _ e => e.Idle) p q ∧ q.clock.running = [] ∧ q.passes = p.passes ∧
      q.sockets.map WebSocket.sent = p.sockets.map WebSocket.sent := by
  obtain ⟨p, hp, hw, ht, hnext⟩ : ∃ p, Runs.replayVia step (fun _ e => e.Random) (Page.initial true)
      (Sample.started ++ [.stopSync]) = some p ∧ p.wanted = false ∧ p.clock.vars .timer = none ∧
      ∃ q, step p (.closed 0 0) = some q := ⟨_, rfl, rfl, rfl, _, rfl⟩
  obtain ⟨q, hq⟩ := hnext
  have h : Reached p := ⟨true, Runs.reachableVia_of_replayVia hp⟩
  have hrun : Runs.ReachableVia step (fun _ e => e.Idle) p q :=
    .next .start (e := .closed 0 0) ⟨le_rfl, one_pos⟩ hq
  exact ⟨p, q, h, hw, hrun, (stopped_page_is_quiet h hw ht hrun).2⟩

end SendSelf.Realtime
