import SendSelf.Keys.Steps

/-!
# Tasks and their requests

The bookkeeping between the two sides: a task waits for a request that was sent
for it, and every request on its way was sent for some task. Nothing in it
depends on what the requests carry.
-/
namespace SendSelf.World

/-- The two sides know of each other: a task waits for its request, and a request has its task. -/
structure Wired (s : World) : Prop where
  task_sent : ∀ t task, s.tasks t = some task → s.sent task.awaiting = some task
  sent_flight : ∀ r task, s.sent r = some task →
    ∃ stage, s.server.flights r = some ⟨task.session.token, task.pc.request, stage⟩
  flight_sent : ∀ r f, s.server.flights r = some f → ∃ task, s.sent r = some task
  sound : s.server.Sound

variable {s s' : World} {t : TaskId} {r : RequestId} {task : Task}

theorem Wired.setClient (h : Wired s) {publicKey : PublicKey} {c : Client} :
    Wired (s.setClient publicKey c) :=
  ⟨h.task_sent, h.sent_flight, h.flight_sent, h.sound⟩

theorem Wired.mintKey (h : Wired s) {k : GroupKey} {e : ℕ} : Wired (s.mintKey k e) :=
  ⟨h.task_sent, h.sent_flight, h.flight_sent, h.sound⟩

theorem Wired.mintToken (h : Wired s) {token : Token} {p : PublicKey} :
    Wired (s.mintToken token p) :=
  ⟨h.task_sent, h.sent_flight, h.flight_sent, h.sound⟩

/-- A request is sent under an id that nobody has used. -/
theorem Wired.send (h : Wired s) (hs : s.send t task r = some s') : Wired s' := by
  obtain ⟨hr, rfl⟩ := send_eq_some hs
  have hreceive : s.server.step (.receive r task.session.token task.pc.request) =
      some ⟨s.db, Function.update s.server.flights r
        (some ⟨task.session.token, task.pc.request, .received⟩)⟩ := by
    simp only [Server.step, Server.receive, hr]
    rfl
  have hfree : ∀ q task', s.sent q = some task' → q ≠ r := by
    intro q task' hq he
    obtain ⟨stage, hst⟩ := h.sent_flight q task' hq
    simp [he, hr] at hst
  constructor
  · intro u task' hu
    by_cases he : u = t
    · subst he
      simp only [Function.update_self, Option.some.injEq] at hu
      subst hu
      exact Function.update_self ..
    · simp only [Function.update_of_ne he] at hu
      have hs' := h.task_sent u task' hu
      exact (Function.update_of_ne (hfree _ _ hs') _ _).trans hs'
  · intro q task' hq
    by_cases he : q = r
    · subst he
      simp only [Function.update_self, Option.some.injEq] at hq
      subst hq
      exact ⟨.received, Function.update_self ..⟩
    · simp only [Function.update_of_ne he] at hq ⊢
      exact h.sent_flight q task' hq
  · intro q f hq
    by_cases he : q = r
    · subst he
      exact ⟨_, Function.update_self ..⟩
    · simp only [Function.update_of_ne he] at hq ⊢
      exact h.flight_sent q f hq
  · exact (h.sound.step hreceive).1

theorem Wired.finish (h : Wired s) : Wired (s.finish t task) := by
  have hend : Wired { s with tasks := Function.update s.tasks t none } := by
    refine ⟨fun u task' hu => ?_, h.sent_flight, h.flight_sent, h.sound⟩
    by_cases he : u = t
    · simp [he] at hu
    · simp only [Function.update_of_ne he] at hu
      exact h.task_sent u task' hu
  rcases finish_cases s t task with he | ⟨c, _, he⟩
  · rw [he]
    exact hend
  · rw [he]
    exact hend.setClient

theorem Wired.continues (h : Wired s) (hc : Continues s t task r s') : Wired s' := by
  cases hc with
  | ends => exact h.finish
  | lists hs => exact h.send hs

/-- A step of a request on its way, as the effect it has. -/
theorem Wired.served (h : Wired s) {now : ℕ} {limited : Bool}
    (hs : s.serve r now limited = some s') :
    ∃ task request stage db' stage', s.sent r = some task ∧ task.pc.request = request ∧
      s.server.flights r = some ⟨task.session.token, request, stage⟩ ∧
      Effect task.session.token s.db request stage db' stage' ∧
      (∀ a, stage = .answered a → stage' = .answered a) ∧
      s' = { s with
        server := ⟨db', Function.update s.server.flights r
          (some ⟨task.session.token, request, stage'⟩)⟩
        keyOf := keyOfAfter s.keyOf task.pc stage stage'
        handed := handedBy task.pc stage stage' ++ s.handed } := by
  obtain ⟨task, f, hsent, hf, next, hnext, rfl⟩ := serve_cases hs
  obtain ⟨stage, hst⟩ := h.sent_flight r task hsent
  obtain rfl : f = _ := Option.some.inj (hf.symm.trans hst)
  have heff : Effect task.session.token s.db task.pc.request stage next.1 next.2 := by
    rw [hnext]
    exact h.sound.effect hf
  refine ⟨task, _, stage, next.1, next.2, hsent, rfl, hf, heff, fun a ha => ?_, rfl⟩
  rw [hnext, ha, ApiRequest.advance_answered]

theorem Wired.serve (h : Wired s) {now : ℕ} {limited : Bool}
    (hs : s.serve r now limited = some s') :
    Wired s' := by
  obtain ⟨task, f, hsent, hf, next, hnext, rfl⟩ := serve_cases hs
  obtain ⟨stage, hst⟩ := h.sent_flight r task hsent
  obtain rfl : f = _ := Option.some.inj (hf.symm.trans hst)
  constructor
  · exact h.task_sent
  · intro q task' hq
    by_cases he : q = r
    · subst he
      obtain rfl : task = task' := Option.some.inj (hsent.symm.trans hq)
      exact ⟨_, Function.update_self ..⟩
    · simp only [Function.update_of_ne he]
      exact h.sent_flight q task' hq
  · intro q f hq
    by_cases he : q = r
    · subst he
      exact ⟨task, hsent⟩
    · simp only [Function.update_of_ne he] at hq
      exact h.flight_sent q f hq
  · have hadvance : s.server.step (.advance r now limited) =
        some ⟨next.1, Function.update s.server.flights r
        (some ⟨task.session.token, task.pc.request, next.2⟩)⟩ := by
      simp only [Server.step, Server.advance, hf, Option.map_some, hnext]
      rfl
    exact (h.sound.step hadvance).1

/-- Whatever the answer leads to, the task is over or waits for one more request. -/
theorem Wired.received (h : Wired s) {c : Client} {stage : Stage} {newKey : GroupKey}
    (hr : Received s t task c stage newKey r s') : Wired s' := by
  cases hr with
  | ended => exact h.finish
  | empty _ hc => exact h.continues hc
  | adopted _ _ _ _ _ hs => exact h.setClient.send hs
  | adoptedNone _ _ _ _ hc => exact h.setClient.setClient.continues hc
  | acked _ hc => exact h.setClient.continues hc
  | listed _ _ _ hs => exact h.mintKey.send hs
  | won => exact h.setClient.finish
  | revoked _ _ hs => exact h.send hs

/-- There is neither a task nor a request in a space that has just been created. -/
theorem wired_created {groupId : GroupId} {founder : SlotDevice} {pairingId : PairingId}
    {token : Token} {key : GroupKey} {elsewhere : List DeviceId} (hid : founder.id ∉ elsewhere) :
    Wired (World.created groupId founder pairingId token key elsewhere) := by
  exact ⟨fun _ _ h => (nomatch h), fun _ _ h => (nomatch h), fun _ _ h => (nomatch h),
    Server.sound_founded hid⟩

theorem wired_step {l : Label} (h : Wired s) (hs : s.step l = some s') : Wired s' := by
  cases l with
  | join publicKey device pairingId =>
    obtain ⟨_, _, _, rfl⟩ := join_cases hs
    have hreserve : s.server.step (.reserve pairingId device) =
        some (s.server.reserve pairingId device) :=
      rfl
    exact ⟨h.task_sent, h.sent_flight, h.flight_sent, (h.sound.step hreserve).1⟩
  | openPackage publicKey =>
    obtain ⟨_, _, _, _, _, _, _, _, _, _, rfl⟩ := openPackage_cases hs
    exact h.setClient
  | dropSlot pairingId =>
    obtain rfl := Option.some.inj hs
    have hrelease : s.server.step (.release pairingId) = some (s.server.release pairingId) := rfl
    exact ⟨h.task_sent, h.sent_flight, h.flight_sent, (h.sound.step hrelease).1⟩
  | syncNow t publicKey r =>
    obtain ⟨_, _, _, _, _, _, _, hs⟩ := syncNow_cases hs
    exact h.setClient.send hs
  | revoke t publicKey deviceId r =>
    obtain ⟨_, _, _, _, _, _, _, hs⟩ := revoke_cases hs
    exact h.send hs
  | addDevice t publicKey joiner token r =>
    obtain ⟨_, _, _, _, _, _, _, _, _, _, _, _, hs⟩ := addDevice_cases hs
    exact h.mintToken.send hs
  | serve r now limited => exact h.serve hs
  | resend t r =>
    obtain ⟨_, _, hs⟩ := resend_cases hs
    exact h.send hs
  | giveUp t =>
    obtain ⟨_, _, rfl⟩ := giveUp_cases hs
    exact h.finish
  | receive t r trusted newKey =>
    obtain ⟨_, _, _, _, _, _, _, _, hr⟩ := receive_cases hs
    exact h.received hr
  | restart publicKey =>
    obtain ⟨c, _, rfl⟩ := restart_cases hs
    refine ⟨fun u task' hu => ?_, h.sent_flight, h.flight_sent, h.sound⟩
    obtain ⟨hu, _⟩ := Option.filter_eq_some_iff.mp hu
    exact h.task_sent u task' hu

end SendSelf.World
