import SendSelf.Files.Deliveries
import SendSelf.Files.Retention
import SendSelf.Deletions.History

/-!
# The server and the pages that poll it

Every device has its page, which polls the server for the messages that are still to be
delivered to it and acknowledges them one by one. What a page learns of the server it learns
from the answer to a request: to a poll, the messages found when it was served; to an ack,
that the server has it. Requests and answers may be lost at any point.
-/
namespace SendSelf

/-- `GET /api/messages/pending`. -/
inductive PollStage where
  | received
  | authed (auth : AuthContext)
  | answered (a : Except ApiError (List MessageRow))

namespace pendingMessages

/-- Pages poll without a cursor. -/
def since : ℕ := 0

def LIMIT : ℕ := 200

/-- What is still to be delivered to a device, oldest first. -/
def rows (deviceId : DeviceId) (db : FileDb) : List MessageRow :=
  ((db.messages.select fun m => decide (since < m.createdAt) && db.deliveryStatus.exist fun r =>
    decide (r.messageId = m.id) && decide (r.deviceId = deviceId) &&
      r.downloadedAt.isNone).insertionSort
      fun a b => a.createdAt ≤ b.createdAt).take LIMIT

def serve (token : Token) (space : SpaceDb) (db : FileDb) : PollStage → PollStage
  | .received => orAnswer (.answered ∘ .error) do
      let auth ← authenticate space token
      return .authed auth
  | .authed auth => .answered (.ok (rows auth.deviceId db))
  | .answered a => .answered a

end pendingMessages

namespace History

def isPolling (h : History) : Bool :=
  match h.pass with
  | some .polling => true
  | _ => false

/-- The message whose ack has arrived, if the step is the answer to an ack. -/
def acks (h : History) : Event → Option MessageId
  | .worker i input =>
      match h.pass with
      | some (.downloading _ workers) =>
          match workers[i]? with
          | some (.acking m) => if input.acked then some m.id else none
          | _ => none
      | _ => none
  | .user i input =>
      match h.users[i]? with
      | some (.acking m) => if input.acked then some m.id else none
      | _ => none
  | _ => none

end History

/-- A device with its page. -/
structure Recipient where
  token : Token
  history : History

structure Delivering where
  server : FileServer
  polls : RequestId → Option (DeviceId × Token × PollStage)
  recipients : DeviceId → Option Recipient

/-- A step of a page may be the answer to request `r`. -/
inductive DeliveringEvent where
  | server (e : FileEvent)
  | poll (r : RequestId) (d : DeviceId)
  | serve (r : RequestId)
  | page (d : DeviceId) (e : History.Event) (r : RequestId)

namespace Delivering

/-- What a page makes of a poll's answer is what was answered, and an ack that has arrived
was answered. -/
def answers (s : Delivering) (d : DeviceId) (recipient : Recipient) (r : RequestId) :
    History.Event → Bool
  | .answer pending =>
      match s.polls r with
      | some (d', _, .answered (.ok rows)) => decide (d' = d) && pending.all fun p =>
          decide (p = rows)
      | some (d', _, _) => decide (d' = d) && pending.isNone
      | none => false
  | e => (recipient.history.acks e).all fun id =>
      match s.server.jobs r with
      | some (.ack token id' (.answered (.ok _))) => decide (token = recipient.token ∧ id' = id)
      | _ => false

/-- An answer to a poll is taken once. -/
def taken (polls : RequestId → Option (DeviceId × Token × PollStage)) (r : RequestId) :
    History.Event → RequestId → Option (DeviceId × Token × PollStage)
  | .answer _ => Function.update polls r none
  | _ => polls

def step (s : Delivering) : DeliveringEvent → Option Delivering
  | .server e => (s.server.step e).map fun server => { s with server }
  | .poll r d => do
      let recipient ← s.recipients d
      if (s.polls r).isNone ∧ recipient.history.isPolling = true then
        some { s with polls := Function.update s.polls r (some (d, recipient.token, .received)) }
      else none
  | .serve r => (s.polls r).map fun (d, token, stage) =>
      { s with
        polls := Function.update s.polls r
          (some (d, token, pendingMessages.serve token s.server.server.db s.server.files stage)) }
  | .page d e r => do
      let recipient ← s.recipients d
      if s.answers d recipient r e = true then
        (recipient.history.step e).map fun history =>
          { s with
            polls := taken s.polls r e,
            recipients := Function.update s.recipients d (some { recipient with history }) }
      else none

end Delivering
end SendSelf
