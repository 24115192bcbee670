import Mathlib.Tactic.Linarith
import Mathlib.Tactic.Positivity
import SendSelf.Library.Runs

/-!
# A page that keeps itself told

The page syncs on an interval and, while its socket is up, whenever the server has something for
it. The browser is part of the state: the timers that run and every socket that has been made,
whoever still knows of them, so that one which is forgotten without being stopped shows. What
the network does is an event of its own. A random number is in `[0, 1)`, a socket's number is
its place in the list of all sockets of the page, and a frame counts as sent when it is handed
to an open socket.
-/
namespace SendSelf.Realtime

abbrev Auth := ℕ

def minRetryMs : ℚ := 1000

def maxRetryMs : ℚ := 60000

def pongTimeoutMs : ℚ := 10000

def realtimePingIntervalMs : ℚ := 30000

def pollIntervalMs : ℚ := 8000

def realtimePollIntervalMs : ℚ := 60000

/-- A timer, by the variable which keeps it. -/
inductive Kind where
  | timer | retryTimer | pingTimer | pongTimer
deriving DecidableEq, Repr

structure Running where
  id : ℕ
  kind : Kind
  ms : ℚ
deriving DecidableEq, Repr

structure Clock where
  vars : Kind → Option ℕ
  running : List Running
  next : ℕ

namespace Clock

/-- `setTimeout` and `setInterval`, into the variable. -/
def set (c : Clock) (kind : Kind) (ms : ℚ) : Clock :=
  ⟨Function.update c.vars kind (some c.next), ⟨c.next, kind, ms⟩ :: c.running, c.next + 1⟩

/-- A timeout that has fired is gone. -/
def expire (c : Clock) (id : ℕ) : Clock := { c with running := c.running.filter fun t => t.id ≠ id }

def forget (c : Clock) (kind : Kind) : Clock := { c with vars := Function.update c.vars kind none }

/-- `if (timer) clearTimeout(timer); timer = null;` -/
def clear (c : Clock) (kind : Kind) : Clock :=
  match c.vars kind with
  | none => c
  | some id => (c.expire id).forget kind

end Clock

inductive ReadyState where
  | connecting | opened | closing | closed
deriving DecidableEq, Repr

/-- What a page says to the server. -/
inductive Frame where
  | ping | visible | hidden
deriving DecidableEq, Repr

/-- What the server says. -/
inductive Data where
  | pong | sync | other
deriving DecidableEq, Repr

structure WebSocket where
  token : Auth
  readyState : ReadyState
  /-- Whether its handlers are still there. -/
  attached : Bool
  sent : List Frame
deriving DecidableEq, Repr

/-- Without its handlers. -/
def WebSocket.close (s : WebSocket) : WebSocket :=
  { s with attached := false, readyState := if s.readyState = .closed then .closed else .closing }

inductive RealtimeState where
  | stopped | connecting | opened
deriving DecidableEq, Repr

/-- What is called when there is something to fetch. -/
inductive Listener where
  | nothing | syncNow
deriving DecidableEq, Repr

structure Page where
  session : Option Auth
  keyring : Bool
  sessionRevoked : Bool
  /-- A sync pass is under way. -/
  running : Bool
  timerInterval : ℚ
  focusListener : Bool
  socket : Option ℕ
  attempt : ℕ
  wanted : Bool
  currentAuth : Option Auth
  onEvent : Listener
  realtimeState : RealtimeState
  presenceListener : Bool
  clock : Clock
  sockets : List WebSocket
  visible : Bool
  /-- Sync passes so far. -/
  passes : ℕ

namespace Page

def initial (visible : Bool) : Page where
  session := none
  keyring := false
  sessionRevoked := false
  running := false
  timerInterval := 0
  focusListener := false
  socket := none
  attempt := 0
  wanted := false
  currentAuth := none
  onEvent := .nothing
  realtimeState := .stopped
  presenceListener := false
  clock := ⟨fun _ => none, [], 0⟩
  sockets := []
  visible := visible
  passes := 0

/-- The socket of the page, unless there is none. -/
def current (p : Page) : Option WebSocket := p.socket.bind fun i => p.sockets[i]?

def realtimeConnected (p : Page) : Bool := p.current.any fun s => s.readyState = .opened

def modifySocket (p : Page) (i : ℕ) (f : WebSocket → WebSocket) : Page :=
  { p with sockets := p.sockets.modify i f }

/-- `if (socket?.readyState !== WebSocket.OPEN) return; socket.send(...)`. -/
def send (p : Page) (frame : Frame) : Page :=
  match p.socket with
  | none => p
  | some i => p.modifySocket i fun s =>
      if s.readyState = .opened then { s with sent := s.sent ++ [frame] } else s

def clearTimers (p : Page) : Page := { p with clock := (p.clock.clear .pingTimer).clear .pongTimer }

def retryMs (attempt : ℕ) (random : ℚ) : ℚ :=
  minRetryMs + random * (min maxRetryMs (minRetryMs * 2 ^ attempt) - minRetryMs)

def scheduleRetry (p : Page) (random : ℚ) : Page :=
  if !p.wanted || (p.clock.vars .retryTimer).isSome then p
  else { p with
    attempt := p.attempt + 1, clock := p.clock.set .retryTimer (retryMs p.attempt random) }

def teardown (p : Page) : Page :=
  let p := p.clearTimers
  let dying := p.socket
  let p := { p with realtimeState := if p.wanted then .connecting else .stopped, socket := none }
  match dying with
  | none => p
  | some i => p.modifySocket i WebSocket.close

def heartbeat (p : Page) : Page :=
  let p := p.clearTimers
  { p with clock := p.clock.set .pingTimer realtimePingIntervalMs }

def sendPresence (p : Page) : Page := p.send (if p.visible then .visible else .hidden)

/-- `throws` is of the constructor. -/
def «open» (p : Page) (throws : Bool) (random : ℚ) : Page :=
  if !p.wanted || p.socket.isSome then p
  else match p.currentAuth with
  | none => p
  | some token =>
      if throws then p.scheduleRetry random
      else { p with
        sockets := p.sockets ++ [⟨token, .connecting, true, []⟩], socket := some p.sockets.length }

def startRealtime (p : Page) (auth : Auth) (listener : Listener) (throws : Bool)
    (random : ℚ) : Page :=
  let p := { p with currentAuth := some auth, onEvent := listener, wanted := true,
                    realtimeState := if p.realtimeState = .opened then .opened else .connecting,
                    presenceListener := true }
  if p.socket.isSome then p else p.open throws random

def stopRealtime (p : Page) : Page :=
  { p with wanted := false, presenceListener := false, currentAuth := none, attempt := 0,
           clock := p.clock.clear .retryTimer }.teardown

def ensureRealtime (p : Page) (throws : Bool) (random : ℚ) : Page :=
  if !p.wanted || p.socket.isSome then p
  else { p with clock := p.clock.clear .retryTimer, attempt := 0 }.open throws random

def setPollInterval (p : Page) (interval : ℚ) : Page :=
  if p.timerInterval = interval then p
  else { p with timerInterval := interval, clock := (p.clock.clear .timer).set .timer interval }

/-- The start of a pass. -/
def syncNow (p : Page) : Page :=
  if p.running || p.session.isNone || !p.keyring || p.sessionRevoked then p
  else { p with running := true, passes := p.passes + 1 }.setPollInterval
    (if p.realtimeConnected then realtimePollIntervalMs else pollIntervalMs)

def callListener (p : Page) : Page :=
  match p.onEvent with
  | .nothing => p
  | .syncNow => p.syncNow

def stopSync (p : Page) : Page :=
  let p := { p with clock := p.clock.clear .timer, timerInterval := 0 }.stopRealtime
  { p with focusListener := false }

/-- `authHeaders` throws when there is no session. -/
def startSync (p : Page) (throws : Bool) (random : ℚ) : Page :=
  let p := (p.stopSync.syncNow).setPollInterval pollIntervalMs
  let p := match p.session with
    | none => p
    | some auth => p.startRealtime auth .syncNow throws random
  { p with focusListener := true }

def onFocus (p : Page) (throws : Bool) (random : ℚ) : Page :=
  (p.ensureRealtime throws random).syncNow

def onopen (p : Page) : Page :=
  (({ p with realtimeState := .opened, attempt := 0 }.heartbeat).sendPresence).callListener

def onmessage (p : Page) (data : Data) : Page :=
  let p := { p with clock := p.clock.clear .pongTimer }
  match data with
  | .sync => p.callListener
  | _ => p

/-- `onclose` and `onerror` of the socket numbered `next`. -/
def onclose (p : Page) (next : ℕ) (random : ℚ) : Page :=
  if p.socket ≠ some next then p else p.teardown.scheduleRetry random

def ping (p : Page) : Page :=
  if p.realtimeConnected then
    let p := p.send .ping
    if (p.clock.vars .pongTimer).isSome then p else { p with
      clock := p.clock.set .pongTimer pongTimeoutMs }
  else p

def fires (p : Page) (t : Running) (throws : Bool) (random : ℚ) : Page :=
  match t.kind with
  | .timer => p.syncNow
  | .retryTimer => { p with clock := (p.clock.expire t.id).forget .retryTimer }.open throws random
  | .pingTimer => p.ping
  | .pongTimer => ({ p with clock := p.clock.expire t.id }.teardown).scheduleRetry random

end Page

inductive Event where
  | signals (session : Option Auth) (keyring sessionRevoked : Bool)
  | startSync (throws : Bool) (random : ℚ)
  | stopSync
  | syncNow
  | passEnds
  | focus (throws : Bool) (random : ℚ)
  | visibilitychange (visible : Bool)
  | opened (i : ℕ)
  | message (i : ℕ) (data : Data)
  | closing (i : ℕ)
  | closed (i : ℕ) (random : ℚ)
  | fires (t : Running) (throws : Bool) (random : ℚ)
deriving DecidableEq, Repr

/-- A socket's handlers run if they are still attached. -/
def step (p : Page) : Event → Option Page
  | .signals session keyring sessionRevoked => some { p with session, keyring, sessionRevoked }
  | .startSync throws random => some (p.startSync throws random)
  | .stopSync => some p.stopSync
  | .syncNow => some p.syncNow
  | .passEnds => some { p with running := false }
  | .focus throws random => if p.focusListener then some (p.onFocus throws random) else some p
  | .visibilitychange visible =>
      let p := { p with visible }
      if p.presenceListener then some p.sendPresence else some p
  | .opened i => p.sockets[i]?.bind fun s => if s.readyState ≠ .connecting then none else
      let p := p.modifySocket i fun s => { s with readyState := .opened }
      if s.attached then some p.onopen else some p
  | .message i data => p.sockets[i]?.bind fun s => if s.readyState ≠ .opened then none else
      if s.attached then some (p.onmessage data) else some p
  | .closing i => p.sockets[i]?.bind fun s => if s.readyState ≠ .opened then none else
      some (p.modifySocket i fun s => { s with readyState := .closing })
  | .closed i random => p.sockets[i]?.map fun s =>
      let p := p.modifySocket i fun s => { s with readyState := .closed }
      if s.attached then p.onclose i random else p
  | .fires t throws random => if t ∈ p.clock.running then some (p.fires t throws random) else none

/-- Random numbers are in `[0, 1)`. -/
def Event.Random : Event → Prop
  | .startSync _ random | .focus _ random | .closed _ random | .fires _ _ random =>
    0 ≤ random ∧ random < 1
  | _ => True

instance event_random_decidable (e : Event) : Decidable e.Random :=
  match e with
  | .startSync _ random | .focus _ random | .closed _ random | .fires _ _ random =>
      inferInstanceAs (Decidable (0 ≤ random ∧ random < 1))
  | .signals _ _ _ |
      .stopSync | .syncNow | .passEnds | .visibilitychange _ | .opened _ | .message _ _ |
        .closing _ =>
      inferInstanceAs (Decidable True)

/-- The pages that a page is after any events. -/
def Reached (p : Page) : Prop :=
  ∃ visible, Runs.ReachableVia step (fun _ e => e.Random) (Page.initial visible) p

end SendSelf.Realtime
