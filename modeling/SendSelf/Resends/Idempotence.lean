import SendSelf.Resends.Recipients

/-!
# A message that is sent again

The answer to a send that has committed may be lost, and the outbox sends the message again:
another request with the same id, and a body that may be encrypted anew. The server has no
other memory of the first than the row of the message.
-/
namespace SendSelf

structure Resend where
  token : Token
  body : SendMessageRequest
  stage : SendStage

/-- Everything the space does, and the requests that send a message again. -/
structure Resending where
  once : Delivering
  resends : RequestId → Option Resend

/-- `resend r original body` sends again what the request `original` has sent. -/
inductive ResendingEvent where
  | once (e : DeliveringEvent)
  | resend (r original : RequestId) (body : SendMessageRequest)
  | run (r : RequestId) (m : Moment)

namespace Resending

def step (s : Resending) : ResendingEvent → Option Resending
  | .once e => (s.once.step e).map fun once => { s with once }
  | .resend r original body =>
      match s.once.server.jobs original with
      | some (.send token sent (.answered (.ok _))) =>
          if sent.id = body.id ∧ (s.resends r).isNone then
            some { s with resends := Function.update s.resends r (some ⟨token, body, .received⟩) }
          else none
      | _ => none
  | .run r m => (s.resends r).map fun resend =>
      let (files, stage) :=
        sendMessage.next m resend.token resend.body s.once.server.server.db s.once.server.files
          resend.stage
      { once := { s.once with server := { s.once.server with files } }
        resends := Function.update s.resends r (some { resend with stage }) }

/-- The same events with the message sent only once. -/
def sentOnce (events : List ResendingEvent) : List DeliveringEvent :=
  events.filterMap fun
    | .once e => some e
    | _ => none

end Resending

namespace Resend

/-- The message is still stored when the request comes to insert it. If it deletes another,
that one is gone, and if it has a file, there is somebody to receive it. -/
def FindsStored (space : SpaceDb) (db : FileDb) (resend : Resend) : Prop :=
  match resend.stage with
  | .targeting _ target => db.messages.get? target = none
  | .listing auth => sendMessage.messageRecipients space auth.deviceId = [] →
      resend.body.fileR2Key = none
  | .inserting _ _ => sendMessage.exists? resend.body.id db = true
  | _ => True

instance {space : SpaceDb} {db : FileDb} : DecidablePred (FindsStored space db)
  | ⟨_, _, .targeting _ target⟩ => inferInstanceAs (Decidable (db.messages.get? target = none))
  | ⟨_, body, .listing auth⟩ =>
      inferInstanceAs
        (Decidable (sendMessage.messageRecipients space auth.deviceId = [] → body.fileR2Key = none))
  | ⟨_, body, .inserting _ _⟩ => inferInstanceAs (Decidable (sendMessage.exists? body.id db = true))
  | ⟨_, _, .received⟩ | ⟨_, _, .authed _⟩ | ⟨_, _, .destroying _ _⟩ | ⟨_, _, .clearing _ _⟩ |
      ⟨_, _, .dropping _⟩
  | ⟨_, _, .dropped _⟩ | ⟨_, _, .heading _ _⟩ | ⟨_, _, .answered _⟩ =>
      inferInstanceAs (Decidable True)

/-- The request is not deleting anything. -/
def deletesNothing (resend : Resend) : Bool :=
  match resend.stage with
  | .destroying _ _ | .clearing _ _ | .dropping _ | .dropped _ => false
  | _ => true

theorem stored_unchanged {auth : AuthContext} {body : SendMessageRequest}
    {recipients : List DeviceId} {now : ℕ} {db : FileDb}
    (h : sendMessage.exists? body.id db = true) :
    sendMessage.finish auth body recipients now db = (db, .error sendMessage.duplicate) := by
  rcases @sendMessage.finish_cases auth body recipients now db with hsame | ⟨db', _, hnew, _⟩
  · exact hsame
  · cases h.symm.trans hnew

/-- A request that finds its message stored changes nothing. -/
theorem next_unchanged {m : Moment} {space : SpaceDb} {db : FileDb} {resend : Resend}
    (hdeletes : resend.deletesNothing = true) (hfinds : resend.FindsStored space db) :
    (sendMessage.next m resend.token resend.body space db resend.stage).1 = db ∧
      Resend.deletesNothing { resend with
        stage := (sendMessage.next m resend.token resend.body space db resend.stage).2 } =
          true := by
  obtain ⟨token, body, stage⟩ := resend
  cases stage with
  | received =>
    refine ⟨rfl, ?_⟩
    simp only [sendMessage.next]
    refine orAnswer_cases (P := fun stage : SendStage => deletesNothing ⟨token, body, stage⟩ = true)
      (fun _ => rfl) fun stage hs => ?_
    simp only [bind_eq_ok, pure_eq_ok] at hs
    obtain ⟨_, _, _, _, _, _, rfl⟩ := hs
    rfl
  | authed auth =>
    refine ⟨rfl, ?_⟩
    simp only [sendMessage.next]
    refine orAnswer_cases (P := fun stage : SendStage => deletesNothing ⟨token, body, stage⟩ = true)
      (fun _ => rfl) fun stage hs => ?_
    unfold sendMessage.checkDuplicate at hs
    split_ifs at hs
    split at hs <;> obtain rfl := Except.ok.inj hs <;> rfl
  | targeting auth target =>
    have hgone : db.messages.get? target = none := hfinds
    simp only [sendMessage.next, hgone]
    exact ⟨trivial, rfl⟩
  | listing auth =>
    refine ⟨rfl, ?_⟩
    have hkeeps : sendMessage.messageRecipients space auth.deviceId = [] →
        body.fileR2Key = none := hfinds
    simp only [sendMessage.next, sendMessage.afterListing]
    split
    · next hnobody hfile => cases hfile.symm.trans (hkeeps hnobody)
    · rfl
    · rfl
    · rfl
  | heading auth recipients =>
    refine ⟨rfl, ?_⟩
    simp only [sendMessage.next]
    split_ifs <;> rfl
  | inserting auth recipients =>
    simp only [sendMessage.next, stored_unchanged hfinds]
    exact ⟨trivial, rfl⟩
  | answered a => exact ⟨rfl, rfl⟩
  | destroying | clearing | dropping | dropped => cases hdeletes

end Resend

namespace Resending

/-- Whenever a request that sends a message again goes on, it finds the message stored. -/
def FindsStored (s : Resending) : ResendingEvent → Prop
  | .run r _ => ∀ resend ∈ s.resends r,
  resend.FindsStored s.once.server.server.db s.once.server.files
  | _ => True

instance {s : Resending} : DecidablePred s.FindsStored
  | .run r _ => inferInstanceAs (Decidable (∀ resend ∈ s.resends r, _))
  | .once _ | .resend _ _ _ => inferInstanceAs (Decidable True)

def DeletesNothing (s : Resending) : Prop :=
  ∀ r, ∀ resend ∈ s.resends r, resend.deletesNothing = true

theorem deletesNothing_update {s : Resending} (h : s.DeletesNothing) {once : Delivering}
    {r : RequestId} {resend : Resend} (hresend : resend.deletesNothing = true) :
    DeletesNothing { once, resends := Function.update s.resends r (some resend) } :=
  fun r' resend' h' => by
  by_cases hr : r' = r
  · subst hr
    obtain rfl : resend = resend' := by simpa using h'
    exact hresend
  · exact h r' resend' (by simpa [Function.update_of_ne hr] using h')

/-- A step of a request that finds its message stored can be left out. -/
theorem step_once {s t : Resending} {event : ResendingEvent}
    (hs : s.DeletesNothing) (hfinds : s.FindsStored event)
    (h : s.step event = some t) : t.DeletesNothing ∧
      Runs.replay Delivering.step s.once (sentOnce [event]) = some t.once := by
  cases event with
  | once e =>
    obtain ⟨once, honce, rfl⟩ := Option.map_eq_some_iff.mp h
    refine ⟨hs, ?_⟩
    simp [sentOnce, Runs.replay, honce]
  | resend r original body =>
    simp only [step] at h
    split at h
    · split_ifs at h
      obtain rfl := Option.some.inj h
      exact ⟨deletesNothing_update hs rfl, rfl⟩
    · cases h
  | run r m =>
    obtain ⟨resend, hresend, rfl⟩ := Option.map_eq_some_iff.mp h
    obtain ⟨hsame, hdeletes⟩ := Resend.next_unchanged (hs r resend hresend) (hfinds resend hresend)
    refine ⟨deletesNothing_update hs hdeletes, ?_⟩
    simp only [sentOnce, List.filterMap_cons, List.filterMap_nil, Runs.replay]
    rw [hsame]

theorem sentOnce_cons {event : ResendingEvent} {events : List ResendingEvent} :
    sentOnce (event :: events) = sentOnce [event] ++ sentOnce events := by
  rw [sentOnce, sentOnce, sentOnce, ← List.filterMap_append, List.singleton_append]

/-- While what is sent again is found stored, a run ends where it would have ended had
every message been sent once: with the same tables on the server and the same histories. -/
theorem resend_idempotent {s t : Resending} {events : List ResendingEvent}
    (hs : ∀ r, s.resends r = none) (h : Runs.replayVia step FindsStored s events = some t) :
    Runs.replay Delivering.step s.once (sentOnce events) = some t.once := by
  have hrun : ∀ (events : List ResendingEvent) (s : Resending), s.DeletesNothing →
      Runs.replayVia step FindsStored s events = some t →
      Runs.replay Delivering.step s.once (sentOnce events) = some t.once := by
    intro events
    induction events with
    | nil =>
      intro s _ h
      obtain rfl := Option.some.inj h
      rfl
    | cons event events ih =>
      intro s hs h
      rw [Runs.replayVia] at h
      split_ifs at h with hfinds
      obtain ⟨mid, hmid, hrest⟩ := Option.bind_eq_some_iff.mp h
      obtain ⟨hdeletes, honce⟩ := step_once hs hfinds hmid
      rw [sentOnce_cons, Runs.replay_append, honce]
      exact ih mid hdeletes hrest
  exact hrun events s (fun r resend hresend => by rw [hs r] at hresend; cases hresend) h

def newHistory (deviceId : DeviceId) : History where
  inherited := fun _ => false
  proto := fun _ => false
  deviceId := deviceId
  knownDeviceIds := [1, 2]
  now := 1
  messages := .empty
  shown := .empty
  deletions := .empty
  writes := 0
  pass := none
  users := []
  settled := []

/-- Device 2 has a page. -/
def start : Resending where
  once :=
    { server := FileServer.filesStart
      polls := fun _ => none
      recipients := Function.update (fun _ => none) 2 (some ⟨12, newHistory 2⟩) }
  resends := fun _ => none

def body : SendMessageRequest := ⟨901, 1, some 5, some 6, none, none, none, none, none, none⟩

/-- The row that the server stores. -/
def row : MessageRow := sendMessage.row ⟨1, .owner, 1, 1, false, false⟩ body 1

def server (events : List FileEvent) : List ResendingEvent := events.map (.once ∘ .server)

def turns (r : RequestId) (n : ℕ) : List FileEvent :=
  List.replicate n (.run r ⟨1, false, .stored 0, 100⟩)

def page (events : List History.Event) (r : RequestId) : List ResendingEvent :=
  events.map fun e => .once (.page 2 e r)

/-- The message is sent, and the answer is lost. -/
def sent : List ResendingEvent :=
  server (FileServer.filesLinking ++ [.start 11 (.send 11 body .received)] ++ turns 11 4)

/-- The message is sent again. -/
def resent : List ResendingEvent :=
  .resend 30 11 body :: List.replicate 5 (.run 30 ⟨1, false, .stored 0, 100⟩)

/-- Device 2 polls, is answered `rows`, and registers what is new to it. -/
def polled (r : RequestId) (rows : List MessageRow) : List ResendingEvent :=
  page [.sync] r ++ [.once (.poll r 2), .once (.serve r), .once (.serve r)] ++
    page [.answer (some rows)] r

def registering (rounds : ℕ) : List ResendingEvent :=
  page (List.replicate rounds (.pass ⟨.verified, some ⟨some 0, false, false, .verified⟩⟩)) 0

/-- It acks the message as request `r`. -/
def acking (r : RequestId) : List ResendingEvent :=
  page [.worker 0 ⟨true, .stored, false⟩] r ++
    server ([.start r (.ack 12 901 .received)] ++ turns r 6) ++
    page (List.replicate 3 (.worker 0 ⟨true, .stored, true⟩)) r

/-- What there is at the end: the deliveries that are left, the messages in the history of
device 2 and which of them it has acked, and whether its page is at rest. -/
def outcome (s : Delivering) : List DeliveryRow × Option (List (MessageId × Bool) × Bool) :=
  (s.server.files.deliveryStatus.rows, (s.recipients 2).map fun recipient =>
    (recipient.history.messages.rows.map fun m => (m.id, m.acked), recipient.history.pass.isNone))

/-- The message is sent again before device 2 has polled. -/
theorem resend_idempotent_unread : ∃ t : Resending,
    Runs.replayVia step FindsStored start (sent ++ resent ++ polled 20 [row] ++ registering 5 ++
      acking 21) = some t ∧
      outcome t.once = ([], some ([(901, true)], true)) ∧
      Runs.replay Delivering.step start.once
        (sentOnce (sent ++ resent ++ polled 20 [row] ++ registering 5 ++ acking 21)) =
        some t.once := by
  have hrun :
      (Runs.replayVia step FindsStored start (sent ++ resent ++ polled 20 [row] ++ registering 5 ++
        acking 21)).any
      (fun t => decide (outcome t.once = ([], some ([(901, true)], true)))) = true := by
        decide +kernel
  obtain ⟨t, ht, hend⟩ := (Option.any_eq_true _ _).mp hrun
  exact ⟨t, ht, of_decide_eq_true hend, resend_idempotent (fun _ => rfl) ht⟩

def deletingLocally : List ResendingEvent :=
  page ([.deleteMessageLocally 901] ++ List.replicate 2 (.user 0 ⟨true, 0⟩)) 0

/-- Device 2 has acked the message, and perhaps deleted it, when it is sent again. A delivery
is left that its page does not ack; or the message is back. -/
theorem resent_comes_back :
    (Runs.replay step start (sent ++ polled 20 [row] ++ registering 5 ++ acking 21 ++ resent ++
      polled 22 [row] ++
        registering 3 ++ page [.worker 0 ⟨true, .stored, false⟩] 0)).map (fun s => outcome s.once) =
      some ([⟨901, 2, none⟩], some ([(901, true)], true)) ∧
    (Runs.replay step start (sent ++ polled 20 [row] ++ registering 5 ++ acking 21 ++
      polled 22 [] ++
        registering 2)).map (fun s => outcome s.once) = some ([], some ([(901, true)], true)) ∧
    (Runs.replay step start (sent ++ polled 20 [row] ++ registering 5 ++ acking 21 ++
      deletingLocally ++ resent ++
        polled 22 [row] ++ registering 5 ++ acking 23)).map (fun s => outcome s.once) = some ([],
        some ([(901, true)], true)) ∧
    (Runs.replay step start (sent ++ polled 20 [row] ++ registering 5 ++ acking 21 ++
      deletingLocally ++ polled 22 [] ++
        registering 2)).map (fun s => outcome s.once) = some ([], some ([], true)) := by
  refine ⟨?_, ?_, ?_, ?_⟩ <;> decide +kernel

end Resending
end SendSelf
