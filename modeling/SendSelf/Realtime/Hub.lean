import SendSelf.Realtime.Connection

/-!
# The hub of a space

The hub keeps the sockets of a space's devices and, for each, whether the page has last said that it
is hidden. Frames reach it in the order they were sent in, at any time. A change is announced to
every socket but those of the device that made it, and the devices that nobody saw on screen are
the ones that get a push.
-/
namespace SendSelf.Realtime

abbrev DeviceId := ℕ

/-- A socket at the hub: the page's socket it belongs to, and its attachment. -/
structure ServerSocket where
  page : ℕ
  socket : ℕ
  deviceId : DeviceId
  hidden : Option Bool
  /-- The frames that have arrived. -/
  processed : ℕ
deriving DecidableEq, Repr

def webSocketMessage (s : ServerSocket) (frame : Frame) : ServerSocket :=
  match frame with
  | .ping => s
  | .visible => { s with hidden := some false }
  | .hidden => { s with hidden := some true }

/-- `Set.prototype.add`. -/
def add (present : List DeviceId) (deviceId : DeviceId) : List DeviceId :=
  if deviceId ∈ present then present else present ++ [deviceId]

/-- One round of the broadcast. `dead` are the sockets on which `send` throws. -/
def tell (dead : ServerSocket → Bool) (exclude : DeviceId) (r : List DeviceId × List ServerSocket)
    (socket : ServerSocket) : List DeviceId × List ServerSocket :=
  if socket.deviceId = exclude || dead socket then r
  else (if socket.hidden = some true then r.1 else add r.1 socket.deviceId, r.2 ++ [socket])

/-- `present`, and the sockets that have been told. -/
def broadcast (dead : ServerSocket → Bool) (exclude : DeviceId) (sockets : List ServerSocket) :
    List DeviceId × List ServerSocket :=
  sockets.foldl (tell dead exclude) ([], [])

/-- The sockets that are told and the devices that get a push, if they have a subscription. -/
structure Notified where
  told : List ServerSocket
  absent : List DeviceId
deriving DecidableEq, Repr

/-- `none` for a hub that does not answer. -/
def notifySpace (answer : Option (List DeviceId × List ServerSocket)) (push : List DeviceId) :
    Notified where
  told := (answer.map Prod.snd).getD []
  absent := push.filter fun deviceId => deviceId ∉ (answer.map Prod.fst).getD []

/-- The pages of all devices and the sockets that the hub holds. -/
structure Space where
  pages : List Page
  hub : List ServerSocket
  /-- The sockets that the hub has ever taken. -/
  accepted : List (ℕ × ℕ)

inductive Happens where
  | newPage (visible : Bool)
  | page (i : ℕ) (e : Event)
  | accept (i j : ℕ)
  | arrive (k : ℕ)
  | drop (k : ℕ)
deriving DecidableEq, Repr

/-- A socket opens only after the hub has taken it. -/
def Space.canHappen (w : Space) (i : ℕ) : Event → Bool
  | .opened j => (i, j) ∈ w.accepted
  | _ => true

def Space.socket (w : Space) (i j : ℕ) : Option WebSocket := w.pages[i]?.bind fun p => p.sockets[j]?

/-- `authenticate` is of the tokens that are let in, and says whose they are. -/
def Space.step (authenticate : Auth → Option DeviceId) (w : Space) : Happens → Option Space
  | .newPage visible => some { w with pages := w.pages ++ [Page.initial visible] }
  | .page i e => w.pages[i]?.bind fun p =>
      if w.canHappen i e then (Realtime.step p e).map fun q =>
        { w with pages := w.pages.set i q } else none
  | .accept i j => (w.socket i j).bind fun s =>
      if (i, j) ∈ w.accepted then none else
      (authenticate s.token).map fun deviceId =>
        { w with hub := w.hub ++ [⟨i, j, deviceId, none, 0⟩], accepted := (i, j) :: w.accepted }
  | .arrive k =>
      w.hub[k]?.bind fun s => (w.socket s.page s.socket).bind fun t =>
        t.sent[s.processed]?.map fun frame =>
      { w with hub := w.hub.set k { webSocketMessage s frame with processed := s.processed + 1 } }
  | .drop k => some { w with hub := w.hub.eraseIdx k }

def Happens.Random : Happens → Prop
  | .page _ e => e.Random
  | _ => True

instance happens_random_decidable (e : Happens) : Decidable e.Random :=
  match e with
  | .page _ e => inferInstanceAs (Decidable e.Random)
  | .newPage _ | .accept _ _ | .arrive _ | .drop _ => inferInstanceAs (Decidable True)

def Space.Reached (authenticate : Auth → Option DeviceId) (w : Space) : Prop :=
  Runs.ReachableVia (Space.step authenticate) (fun _ e => e.Random) ⟨[], [], []⟩ w

/-- Every socket of `p` is one of `q`, which has said at least as much on it. -/
def Page.Grows (p q : Page) : Prop := ∀ (j : ℕ) (s : WebSocket), p.sockets[j]? = some s →
  ∃ s', q.sockets[j]? = some s' ∧ s'.token = s.token ∧ s.sent <+: s'.sent

namespace Page

variable {p q r : Page} {throws : Bool} {random : ℚ}

theorem Grows.of_eq (h : q.sockets = p.sockets) : p.Grows q :=
  fun _ s hs => ⟨s, h ▸ hs, rfl, List.prefix_refl _⟩

theorem Grows.trans (h : p.Grows q) (h' : q.Grows r) : p.Grows r := by
  intro j s hs
  obtain ⟨s', hs', ht, hsent⟩ := h j s hs
  obtain ⟨s'', hs'', ht', hsent'⟩ := h' j s' hs'
  exact ⟨s'', hs'', ht'.trans ht, hsent.trans hsent'⟩

theorem Grows.from_eq (h : q.Grows r) (hs : q.sockets = p.sockets) : p.Grows r := by
  rw [Grows, ← hs]
  exact h

theorem Grows.modify {i : ℕ} {f : WebSocket → WebSocket} (ht : ∀ s, (f s).token = s.token)
    (hf : ∀ s, s.sent <+: (f s).sent) (h : q.sockets = p.sockets.modify i f) : p.Grows q := by
  intro j s hs
  rw [h, List.getElem?_modify, Option.map_eq_map, hs]
  refine ⟨_, rfl, ?_, ?_⟩
  · split
    · exact ht s
    · rfl
  · split
    · exact hf s
    · exact List.prefix_refl _

theorem grows_send (p : Page) (frame : Frame) : p.Grows (p.send frame) := by
  unfold send
  split
  · exact .of_eq rfl
  · refine .modify (fun s => ?_) (fun s => ?_) rfl
    · split <;> rfl
    · split
      · exact List.prefix_append _ _
      · exact List.prefix_refl _

theorem grows_teardown (p : Page) : p.Grows p.teardown := by
  rw [teardown_eq]
  rcases Option.eq_none_or_eq_some p.socket with h | ⟨i, h⟩
  · exact .of_eq (by rw [h]; rfl)
  · exact .modify (f := WebSocket.close) (fun _ => rfl) (fun _ => List.prefix_refl _)
      (by rw [h]; rfl)

theorem grows_scheduleRetry (p : Page) (random : ℚ) : p.Grows (p.scheduleRetry random) := by
  unfold scheduleRetry
  split <;> exact .of_eq rfl

theorem grows_open (p : Page) (throws : Bool) (random : ℚ) : p.Grows (p.open throws random) := by
  unfold Page.open
  split
  · exact .of_eq rfl
  · split
    · exact .of_eq rfl
    · split
      · exact grows_scheduleRetry p random
      · intro j s hs
        refine ⟨s, ?_, rfl, List.prefix_refl _⟩
        rw [List.getElem?_append_left (List.getElem?_eq_some_iff.mp hs).1, hs]

theorem grows_startRealtime (p : Page) (auth : Auth) (listener : Listener) (throws : Bool)
    (random : ℚ) :
    p.Grows (p.startRealtime auth listener throws random) := by
  unfold startRealtime
  simp only
  split
  · exact .of_eq rfl
  · exact (grows_open _ throws random).from_eq rfl

theorem grows_setPollInterval (p : Page) (interval : ℚ) : p.Grows (p.setPollInterval interval) := by
  unfold setPollInterval
  split <;> exact .of_eq rfl

theorem grows_syncNow (p : Page) : p.Grows p.syncNow := by
  unfold syncNow
  split
  · exact .of_eq rfl
  · exact (grows_setPollInterval _ _).from_eq rfl

theorem grows_callListener (p : Page) : p.Grows p.callListener := by
  unfold callListener
  split
  · exact .of_eq rfl
  · exact grows_syncNow p

theorem grows_stopSync (p : Page) : p.Grows p.stopSync := by
  rw [stopSync_eq]
  exact (grows_teardown _).from_eq rfl

theorem grows_startSync (p : Page) (throws : Bool) (random : ℚ) :
    p.Grows (p.startSync throws random) := by
  have h :=
    ((grows_stopSync p).trans (grows_syncNow _)).trans (grows_setPollInterval _ pollIntervalMs)
  unfold startSync
  simp only
  split
  · exact h.trans (.of_eq rfl)
  · exact (h.trans (grows_startRealtime _ _ _ _ _)).trans (.of_eq rfl)

theorem grows_ensureRealtime (p : Page) (throws : Bool) (random : ℚ) :
    p.Grows (p.ensureRealtime throws random) := by
  unfold ensureRealtime
  split
  · exact .of_eq rfl
  · exact (grows_open _ throws random).from_eq rfl

theorem grows_ping (p : Page) : p.Grows p.ping := by
  unfold ping
  split
  · simp only
    split
    · exact grows_send p _
    · exact (grows_send p _).trans (.of_eq rfl)
  · exact .of_eq rfl

theorem grows_fires (p : Page) (t : Running) (throws : Bool) (random : ℚ) :
    p.Grows (p.fires t throws random) := by
  unfold fires
  split
  · exact grows_syncNow p
  · exact (grows_open _ throws random).from_eq rfl
  · exact grows_ping p
  · exact ((grows_teardown _).trans (grows_scheduleRetry _ random)).from_eq rfl

theorem grows_readyState (p : Page) (i : ℕ) (state : ReadyState) :
    p.Grows (p.modifySocket i fun s => { s with readyState := state }) :=
  .modify (f := fun s => { s with readyState := state }) (fun _ => rfl) (fun _ =>
    List.prefix_refl _) rfl

theorem Grows.step {e : Event} (hs : Realtime.step p e = some q) : p.Grows q := by
  cases e with
  | signals session keyring sessionRevoked => exact Option.some.inj hs ▸ .of_eq rfl
  | startSync throws random => exact Option.some.inj hs ▸ grows_startSync p throws random
  | stopSync => exact Option.some.inj hs ▸ grows_stopSync p
  | syncNow => exact Option.some.inj hs ▸ grows_syncNow p
  | passEnds => exact Option.some.inj hs ▸ .of_eq rfl
  | focus throws random =>
    rw [Realtime.step] at hs
    split at hs
    · exact Option.some.inj hs ▸ (grows_ensureRealtime p throws random).trans (grows_syncNow _)
    · exact Option.some.inj hs ▸ .of_eq rfl
  | visibilitychange visible =>
    simp only [Realtime.step] at hs
    split at hs
    · exact Option.some.inj hs ▸ (grows_send { p with visible } _).from_eq rfl
    · exact Option.some.inj hs ▸ .of_eq rfl
  | opened i =>
    obtain ⟨s, -, hs⟩ := Option.bind_eq_some_iff.mp hs
    split at hs
    · cases hs
    · split at hs
      · obtain rfl := Option.some.inj hs
        have h := (grows_readyState p i .opened).trans (.of_eq (q := ({ p.modifySocket i fun s =>
          { s with readyState := .opened } with
            realtimeState := .opened, attempt := 0 }.heartbeat)) rfl)
        exact (h.trans (grows_send _ _)).trans (grows_callListener _)
      · exact Option.some.inj hs ▸ grows_readyState p i .opened
  | message i data =>
    obtain ⟨s, -, hs⟩ := Option.bind_eq_some_iff.mp hs
    split at hs
    · cases hs
    · split at hs
      · obtain rfl := Option.some.inj hs
        cases data with
        | sync => exact (grows_callListener _).from_eq rfl
        | pong => exact .of_eq rfl
        | other => exact .of_eq rfl
      · exact Option.some.inj hs ▸ .of_eq rfl
  | closing i =>
    obtain ⟨s, -, hs⟩ := Option.bind_eq_some_iff.mp hs
    split at hs
    · cases hs
    · exact Option.some.inj hs ▸ grows_readyState p i .closing
  | closed i random =>
    obtain ⟨s, -, rfl⟩ := Option.map_eq_some_iff.mp hs
    have h := grows_readyState p i .closed
    simp only
    split
    · unfold onclose
      split
      · exact h
      · exact h.trans ((grows_teardown _).trans (grows_scheduleRetry _ random))
    · exact h
  | fires t throws random =>
    rw [Realtime.step] at hs
    split at hs
    · exact Option.some.inj hs ▸ grows_fires p t throws random
    · cases hs

end Page

namespace Space

variable {authenticate : Auth → Option DeviceId} {w w' : Space}

/-- A socket at the hub belongs to a device's page, and knows of it what has arrived. -/
structure Sound (authenticate : Auth → Option DeviceId) (w : Space) : Prop where
  pages : ∀ p ∈ w.pages, p.Sound ∧ p.Trying
  hub : ∀ s ∈ w.hub, ∃ t, w.socket s.page s.socket = some t ∧
    authenticate t.token = some s.deviceId ∧
    s.processed ≤ t.sent.length ∧ s.hidden = heard (t.sent.take s.processed)

theorem socket_eq_some {i j : ℕ} {t : WebSocket} :
    w.socket i j = some t ↔ ∃ p, w.pages[i]? = some p ∧ p.sockets[j]? = some t :=
  Option.bind_eq_some_iff

/-- What the hub knows of a page that goes on is still so. -/
theorem Sound.grow (h : w.Sound authenticate) {pages : List Page}
    (hp : ∀ p ∈ pages, p.Sound ∧ p.Trying)
    (hgrow : ∀ (i : ℕ) (p : Page), w.pages[i]? = some p → ∃ q, pages[i]? = some q ∧ p.Grows q) :
    Sound authenticate { w with pages } where
  pages := hp
  hub s hs := by
    obtain ⟨t, ht, hauth, hle, hhidden⟩ := h.hub s hs
    obtain ⟨p, hi, hj⟩ := socket_eq_some.mp ht
    obtain ⟨q, hq, hpq⟩ := hgrow s.page p hi
    obtain ⟨t', ht', htoken, hsent⟩ := hpq s.socket t hj
    refine ⟨t', socket_eq_some.mpr ⟨q, hq, ht'⟩, htoken ▸ hauth, hle.trans hsent.length_le, ?_⟩
    rw [hhidden]
    obtain ⟨more, hmore⟩ := hsent
    rw [← hmore, List.take_append_of_le_length hle]

theorem webSocketMessage_hidden (s : ServerSocket) (frame : Frame) :
    (webSocketMessage s frame).hidden = hear s.hidden frame := by cases frame <;> rfl

theorem webSocketMessage_same (s : ServerSocket) (frame : Frame) :
    (webSocketMessage s frame).page = s.page ∧
    (webSocketMessage s frame).socket = s.socket ∧
    (webSocketMessage s frame).deviceId = s.deviceId := by
  cases frame <;> exact ⟨rfl, rfl, rfl⟩

theorem Sound.step (h : w.Sound authenticate) {e : Happens} (he : e.Random)
    (hs : w.step authenticate e = some w') :
    w'.Sound authenticate := by
  cases e with
  | newPage visible =>
    obtain rfl := Option.some.inj hs
    refine h.grow (fun p hp => ?_) fun i p hi => ⟨p, ?_, .of_eq rfl⟩
    · rcases List.mem_append.mp hp with hp | hp
      · exact h.pages p hp
      · rw [List.mem_singleton.mp hp]
        exact ⟨Page.sound_initial visible, fun hw => Bool.noConfusion hw⟩
    · rw [List.getElem?_append_left (List.getElem?_eq_some_iff.mp hi).1, hi]
  | page i e =>
    obtain ⟨p, hi, hs⟩ := Option.bind_eq_some_iff.mp hs
    split at hs
    · obtain ⟨q, hq, rfl⟩ := Option.map_eq_some_iff.mp hs
      have hp := h.pages p (List.mem_of_getElem? hi)
      refine h.grow (fun r hr => ?_) fun j r hj => ?_
      · rcases List.mem_or_eq_of_mem_set hr with hr | rfl
        · exact h.pages r hr
        · exact hp.1.step hp.2 he hq
      · rw [List.getElem?_set]
        split
        · next hij =>
          subst hij
          obtain rfl := Option.some.inj (hi.symm.trans hj)
          exact ⟨q, by rw [if_pos (List.getElem?_eq_some_iff.mp hi).1], .step hq⟩
        · exact ⟨r, hj, .of_eq rfl⟩
    · cases hs
  | accept i j =>
    obtain ⟨t, ht, hs⟩ := Option.bind_eq_some_iff.mp hs
    split at hs
    · cases hs
    · obtain ⟨deviceId, hauth, rfl⟩ := Option.map_eq_some_iff.mp hs
      refine ⟨h.pages, fun s hs => ?_⟩
      rcases List.mem_append.mp hs with hs | hs
      · exact h.hub s hs
      · rw [List.mem_singleton.mp hs]
        exact ⟨t, ht, hauth, Nat.zero_le _, rfl⟩
  | arrive k =>
    obtain ⟨s, hk, hs⟩ := Option.bind_eq_some_iff.mp hs
    obtain ⟨t, ht, hs⟩ := Option.bind_eq_some_iff.mp hs
    obtain ⟨frame, hframe, rfl⟩ := Option.map_eq_some_iff.mp hs
    refine ⟨h.pages, fun r hr => ?_⟩
    rcases List.mem_or_eq_of_mem_set hr with hr | rfl
    · exact h.hub r hr
    · obtain ⟨t', ht', hauth, hle, hhidden⟩ := h.hub s (List.mem_of_getElem? hk)
      obtain rfl := Option.some.inj (ht.symm.trans ht')
      obtain ⟨hpage, hsocket, hdevice⟩ := webSocketMessage_same s frame
      refine ⟨t, by
        rw [hpage, hsocket]; exact ht, hdevice ▸ hauth, (List.getElem?_eq_some_iff.mp hframe).1, ?_⟩
      rw [webSocketMessage_hidden, hhidden, List.take_add_one, hframe, Option.toList_some,
        heard_append]
  | drop k =>
    obtain rfl := Option.some.inj hs
    exact ⟨h.pages, fun s hs => h.hub s (List.mem_of_mem_eraseIdx hs)⟩

theorem Reached.sound (h : w.Reached authenticate) : w.Sound authenticate :=
  h.invariant (I := Space.Sound authenticate) ⟨fun _ hp => absurd hp List.not_mem_nil,
    fun _ hs => absurd hs List.not_mem_nil⟩
    fun _ _ _ hI he hs => hI.step he hs

end Space

variable {dead : ServerSocket → Bool} {exclude d : DeviceId} {sockets : List ServerSocket}
    {s : ServerSocket}

theorem mem_add {present : List DeviceId} {a : DeviceId} :
    d ∈ add present a ↔ d ∈ present ∨ d = a := by
  rw [add]
  split
  · next h => exact ⟨.inl, fun hd => hd.elim id fun hd => hd ▸ h⟩
  · rw [List.mem_append, List.mem_singleton]

/-- A socket that is told. -/
def Live (dead : ServerSocket → Bool) (exclude : DeviceId) (s : ServerSocket) : Prop :=
  s.deviceId ≠ exclude ∧ dead s = false

theorem tell_of_not_live {r : List DeviceId × List ServerSocket} (h : ¬ Live dead exclude s) :
    tell dead exclude r s = r := by
  rw [tell, if_pos]
  rw [Bool.or_eq_true, decide_eq_true_eq]
  by_contra hne
  rw [not_or, Bool.not_eq_true] at hne
  exact h hne

theorem tell_of_live {r : List DeviceId × List ServerSocket} (h : Live dead exclude s) :
    tell dead exclude r s =
      (if s.hidden = some true then r.1 else add r.1 s.deviceId, r.2 ++ [s]) := by
  rw [tell, if_neg]
  rw [Bool.or_eq_true, decide_eq_true_eq, not_or, Bool.not_eq_true]
  exact h

theorem mem_foldl_tell (r : List DeviceId × List ServerSocket) :
    (s ∈ (sockets.foldl (tell dead exclude) r).2 ↔ s ∈ r.2 ∨ s ∈ sockets ∧ Live dead exclude s) ∧
    (d ∈ (sockets.foldl (tell dead exclude) r).1 ↔
      d ∈ r.1 ∨ ∃ s ∈ sockets, Live dead exclude s ∧ s.hidden ≠ some true ∧ s.deviceId = d) := by
  induction sockets generalizing r with
  | nil => simp
  | cons a sockets ih =>
    rw [List.foldl_cons]
    by_cases ha : Live dead exclude a
    · obtain ⟨htold, hpresent⟩ :=
        ih (if a.hidden = some true then r.1 else add r.1 a.deviceId, r.2 ++ [a])
      rw [tell_of_live ha, htold, hpresent]
      constructor
      · simp only [List.mem_append, List.mem_cons, List.not_mem_nil, or_false]
        constructor
        · rintro ((h | rfl) | h)
          · exact .inl h
          · exact .inr ⟨.inl rfl, ha⟩
          · exact .inr ⟨.inr h.1, h.2⟩
        · rintro (h | ⟨rfl | h, hs⟩)
          · exact .inl (.inl h)
          · exact .inl (.inr rfl)
          · exact .inr ⟨h, hs⟩
      · simp only [List.exists_mem_cons_iff]
        split
        · next hhidden => simp [hhidden]
        · next hhidden =>
          rw [mem_add, and_iff_right ha, and_iff_right hhidden, or_assoc, eq_comm (a := d)]
    · obtain ⟨htold, hpresent⟩ := ih r
      rw [tell_of_not_live ha, htold, hpresent]
      constructor
      · rw [List.mem_cons]
        constructor
        · exact fun h => h.imp id fun h => ⟨.inr h.1, h.2⟩
        · rintro (h | ⟨rfl | h, hs⟩)
          · exact .inl h
          · exact absurd hs ha
          · exact .inr ⟨h, hs⟩
      · rw [List.exists_mem_cons_iff]
        exact or_congr Iff.rfl ⟨.inr, fun h => h.resolve_left fun h => ha h.1⟩

/-- Whom the broadcast tells. -/
theorem mem_told : s ∈ (broadcast dead exclude sockets).2 ↔ s ∈ sockets ∧ Live dead exclude s := by
  rw [broadcast, (mem_foldl_tell (d := 0) _).1]
  simp

theorem mem_present : d ∈ (broadcast dead exclude sockets).1 ↔
    ∃ s ∈ sockets, Live dead exclude s ∧ s.hidden ≠ some true ∧ s.deviceId = d := by
  rw [broadcast, (mem_foldl_tell (s := ⟨0, 0, 0, none, 0⟩) _).2]
  simp

theorem mem_absent {answer : Option (List DeviceId × List ServerSocket)} {push : List DeviceId} :
    d ∈ (notifySpace answer push).absent ↔ d ∈ push ∧ d ∉ (answer.map Prod.fst).getD [] := by
  rw [notifySpace, List.mem_filter, decide_eq_true_eq]

/-- The hub has heard all that the page has said, which still has this socket. -/
def Space.Settled (w : Space) (s : ServerSocket) (p : Page) : Prop :=
  w.pages[s.page]? = some p ∧ p.socket = some s.socket ∧
    ∃ t, p.sockets[s.socket]? = some t ∧ t.readyState = .opened ∧ s.processed = t.sent.length

variable {authenticate : Auth → Option DeviceId} {w : Space} {push : List DeviceId} {p : Page}

/-- The hub knows whether a page is on screen once it has heard all of it. -/
theorem Space.Sound.settled (h : w.Sound authenticate) (hs : s ∈ w.hub) (hp : w.Settled s p) :
    s.hidden = some (!p.visible) := by
  obtain ⟨hpage, hsocket, t, ht, hopen, hall⟩ := hp
  obtain ⟨t', ht', -, -, hhidden⟩ := h.hub s hs
  obtain rfl := Option.some.inj ((Space.socket_eq_some.mpr ⟨p, hpage, ht⟩).symm.trans ht')
  rw [hhidden, hall, List.take_length]
  exact ((h.pages p (List.mem_of_getElem? hpage)).1.opened _ t hsocket ht hopen).2

/-- A recipient that gets no push has been told, on a socket of its own on which it has not, as far
as the hub has heard, said last that it is hidden; whoever made the change is not told. Once the hub
has heard everything, the recipients that get a push are the ones with no page on screen. -/
theorem recipient_is_told_or_pushed (h : w.Reached authenticate) (hd : d ∈ push)
    (hexclude : d ≠ exclude) :
    (∀ s ∈ (notifySpace (some (broadcast dead exclude w.hub)) push).told, s.deviceId ≠ exclude) ∧
    (d ∈ (notifySpace (some (broadcast dead exclude w.hub)) push).absent ∨
      ∃ s ∈ (notifySpace (some (broadcast dead exclude w.hub)) push).told, s.deviceId = d ∧
        ∃ t, w.socket s.page s.socket = some t ∧ authenticate t.token = some d ∧
          heard (t.sent.take s.processed) ≠ some true) ∧
    ((∀ s ∈ w.hub, s.deviceId = d → dead s = false ∧ ∃ p, w.Settled s p) →
      (d ∈ (notifySpace (some (broadcast dead exclude w.hub)) push).absent ↔
        ∀ s ∈ w.hub, s.deviceId = d → ∀ p, w.Settled s p → p.visible = false)) := by
  have hsound := h.sound
  have habsent : d ∈ (notifySpace (some (broadcast dead exclude w.hub)) push).absent ↔
      ¬ ∃ s ∈ w.hub, Live dead exclude s ∧ s.hidden ≠ some true ∧ s.deviceId = d := by
    rw [mem_absent, Option.map_some, Option.getD_some, mem_present]
    exact and_iff_right hd
  refine ⟨fun s hs => ?_, ?_, fun hsettled => ?_⟩
  · exact (mem_told.mp hs).2.1
  · by_cases hpresent : ∃ s ∈ w.hub, Live dead exclude s ∧ s.hidden ≠ some true ∧ s.deviceId = d
    · obtain ⟨s, hs, hlive, hhidden, rfl⟩ := hpresent
      obtain ⟨t, ht, hauth, -, heq⟩ := hsound.hub s hs
      exact .inr ⟨s, mem_told.mpr ⟨hs, hlive⟩, rfl, t, ht, hauth, heq ▸ hhidden⟩
    · exact .inl (habsent.mpr hpresent)
  · rw [habsent]
    constructor
    · intro hnone s hs hdev p hp
      by_contra hvisible
      refine hnone ⟨s, hs, ⟨hdev ▸ hexclude, (hsettled s hs hdev).1⟩, ?_, hdev⟩
      rw [hsound.settled hs hp, Bool.eq_true_of_not_eq_false hvisible]
      decide
    · rintro hhidden ⟨s, hs, -, hne, hdev⟩
      obtain ⟨p, hp⟩ := (hsettled s hs hdev).2
      rw [hsound.settled hs hp, hhidden s hs hdev p hp] at hne
      exact hne rfl

/-- A device has a page on screen, and the hub knows. -/
def Sample.onScreen : List Happens :=
  [.newPage true, .page 0 (.signals (some 7) true false), .page 0 (.startSync false 0),
  .accept 0 0, .page 0 (.opened 0), .arrive 0]

theorem recipient_is_told_or_pushed_sample : ∃ w, Space.Reached some w ∧
    7 ∉ (notifySpace (some (broadcast (fun _ => false) 8 w.hub)) [7]).absent := by
  obtain ⟨w, hw, s, p, hhub, hs, hp, hvisible⟩ : ∃ w,
    Runs.replayVia (Space.step some) (fun _ e => e.Random) ⟨[], [], []⟩
      Sample.onScreen = some w ∧ ∃ s p, w.hub = [s] ∧ s.deviceId = 7 ∧ w.Settled s p ∧
      p.visible = true :=
    ⟨_, rfl, _, _, rfl, rfl, ⟨rfl, rfl, _, rfl, rfl, rfl⟩, rfl⟩
  have h : Space.Reached some w := Runs.reachableVia_of_replayVia hw
  have hmem : s ∈ w.hub := hhub ▸ List.mem_singleton_self s
  have hsettled : ∀ r ∈ w.hub, r.deviceId = 7 → false = false ∧ ∃ p,
      w.Settled r p := fun r hr _ => by
    rw [hhub, List.mem_singleton] at hr
    exact ⟨rfl, p, hr ▸ hp⟩
  refine ⟨w, h, fun habsent => ?_⟩
  have hall :=
    ((recipient_is_told_or_pushed h (List.mem_singleton_self 7) (by decide)).2.2 hsettled).mp
      habsent
  exact absurd (hall s hmem hs p hp) (by rw [hvisible]; decide)

end SendSelf.Realtime
