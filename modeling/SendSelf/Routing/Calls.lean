import SendSelf.Routing.Router

/-!
# The calls of a client and the routes of the worker

The client writes the path of each call with the ids as they are, and the worker reads them back
from the path. The two tables are written apart. They agree: with ids that the worker takes for
ids, a call comes to the handler that it is meant for, with the ids it was made with, whatever
order the routes are registered in.
-/
namespace SendSelf.Routing
open UrlPath

/-- The handlers of the worker. -/
inductive Endpoint where
  | createGroup | spaceChallenge
  | requestPairing | completePairing | pollPairing | pairingJoiner | deletePairing
  | realtimeConnect
  | pendingMessages | ackMessage | sendMessage
  | uploadFile | downloadFile
  | rotateKey | ackKey
  | updateSpaceName
  | vaultChanges | createVaultItem | updateVaultItem | deleteVaultItem | resealVaultItems
  | uploadVaultBlob | downloadVaultBlob
  | listDevices | publishSigningKey | revokeDevice | updateDeviceRole
  | pushStatus | pushSubscribe | pushUnsubscribe
deriving DecidableEq, Repr

def router : Router Endpoint :=
  Router.empty
    |>.add .POST "/api/groups" .createGroup
    |>.add .GET "/api/groups/challenge" .spaceChallenge
    |>.add .POST "/api/pairing/:pairingId/request" .requestPairing
    |>.add .POST "/api/pairing/:pairingId/complete" .completePairing
    |>.add .GET "/api/pairing/:pairingId" .pollPairing
    |>.add .GET "/api/pairing/:pairingId/joiner" .pairingJoiner
    |>.add .DELETE "/api/pairing/:pairingId" .deletePairing
    |>.add .GET "/api/realtime" .realtimeConnect
    |>.add .GET "/api/messages/pending" .pendingMessages
    |>.add .POST "/api/messages/:id/ack" .ackMessage
    |>.add .POST "/api/messages" .sendMessage
    |>.add .PUT "/api/files/:r2key" .uploadFile
    |>.add .GET "/api/files/:r2key" .downloadFile
    |>.add .POST "/api/keys/rotate" .rotateKey
    |>.add .POST "/api/keys/:epoch/ack" .ackKey
    |>.add .PUT "/api/groups/self/name" .updateSpaceName
    |>.add .GET "/api/vault" .vaultChanges
    |>.add .POST "/api/vault/items" .createVaultItem
    |>.add .PATCH "/api/vault/items/:id" .updateVaultItem
    |>.add .DELETE "/api/vault/items/:id" .deleteVaultItem
    |>.add .POST "/api/vault/reseal" .resealVaultItems
    |>.add .PUT "/api/vault/blobs/:r2key" .uploadVaultBlob
    |>.add .GET "/api/vault/blobs/:r2key" .downloadVaultBlob
    |>.add .GET "/api/devices" .listDevices
    |>.add .POST "/api/devices/self/signing-key" .publishSigningKey
    |>.add .DELETE "/api/devices/:id" .revokeDevice
    |>.add .PATCH "/api/devices/:id/role" .updateDeviceRole
    |>.add .GET "/api/push" .pushStatus
    |>.add .PUT "/api/push" .pushSubscribe
    |>.add .DELETE "/api/push" .pushUnsubscribe

def noSuchEndpoint : ApiError := ⟨.not_found, "No such endpoint"⟩

/-- Which handler the worker runs for a request under `/api/`, and with which parameters. -/
def dispatch (router : Router Endpoint) (method : Option Method) (pathname : Text) :
    Except ApiError (Endpoint × Params) :=
  match router.handle method pathname with
  | .ok (some found) => .ok found
  | .ok none => .error noSuchEndpoint
  | .error e => .error e

theorem unambiguous_router : router.Unambiguous := ⟨by decide +kernel, by decide +kernel⟩

/-- The worker gives every request the same answer in whichever order its routes are registered. -/
theorem routes_in_any_order {routes : Router Endpoint} (h : router.Perm routes)
    (method : Option Method) (pathname : Text) :
    dispatch routes method pathname = dispatch router method pathname := by
  rw [dispatch, dispatch, unambiguous_router.handle_perm h]

theorem routes_in_any_order_sample :
    dispatch router.reverse (some .GET) (lit "/api/pairing/%zz/joiner") =
      dispatch router (some .GET) (lit "/api/pairing/%zz/joiner") :=
  routes_in_any_order router.reverse_perm.symm _ _

/-- The calls of the API, with what they put into their paths. -/
inductive Call where
  | spaceChallenge | createGroup
  | pairingRequest (pairingId : Text) | pairingComplete (pairingId : Text) | pairingJoiner
      (pairingId : Text)
  | pairingPoll (pairingId : Text) | pairingDelete (pairingId : Text)
  | sendMessage | pendingMessages (since : ℕ) | ackMessage (id : Text)
  | uploadFile (r2Key : Text) | downloadFile (r2Key : Text)
  | rotateKey | ackKey (epoch : ℕ)
  | updateSpaceName
  | vaultChanges (since : ℕ) (full : Bool) | createVaultItem | updateVaultItem
      (id : Text) | deleteVaultItem (id : Text)
  | resealVault | uploadVaultBlob (key : Text) | downloadVaultBlob (key : Text)
  | listDevices | publishSigningKey | revokeDevice (id : Text) | updateDeviceRole (id : Text)
  | pushStatus | pushSubscribe | pushUnsubscribe

/-- A number in a template. -/
def number (n : ℕ) : Text := Nat.toDigits 10 n

namespace Call

def method : Call → Method
  | spaceChallenge | pairingJoiner _ | pairingPoll _ | pendingMessages _ | downloadFile _ |
    vaultChanges _ _
  | downloadVaultBlob _ | listDevices | pushStatus => .GET
  | createGroup | pairingRequest _ | pairingComplete _ | sendMessage | ackMessage _ |
      rotateKey | ackKey _
  | createVaultItem | resealVault | publishSigningKey => .POST
  | uploadFile _ | updateSpaceName | uploadVaultBlob _ | pushSubscribe => .PUT
  | updateVaultItem _ | updateDeviceRole _ => .PATCH
  | pairingDelete _ | deleteVaultItem _ | revokeDevice _ | pushUnsubscribe => .DELETE

def path : Call → Text
  | spaceChallenge => lit "/groups/challenge"
  | createGroup => lit "/groups"
  | pairingRequest pairingId => lit "/pairing/" ++ pairingId ++ lit "/request"
  | pairingComplete pairingId => lit "/pairing/" ++ pairingId ++ lit "/complete"
  | pairingJoiner pairingId => lit "/pairing/" ++ pairingId ++ lit "/joiner"
  | pairingPoll pairingId => lit "/pairing/" ++ pairingId
  | pairingDelete pairingId => lit "/pairing/" ++ pairingId
  | sendMessage => lit "/messages"
  | pendingMessages since => lit "/messages/pending?since=" ++ number since
  | ackMessage id => lit "/messages/" ++ id ++ lit "/ack"
  | uploadFile r2Key => lit "/files/" ++ r2Key
  | downloadFile r2Key => lit "/files/" ++ r2Key
  | rotateKey => lit "/keys/rotate"
  | ackKey epoch => lit "/keys/" ++ number epoch ++ lit "/ack"
  | updateSpaceName => lit "/groups/self/name"
  | vaultChanges since full =>
      lit "/vault?since=" ++ number since ++ if full then lit "&full=1" else []
  | createVaultItem => lit "/vault/items"
  | updateVaultItem id => lit "/vault/items/" ++ id
  | deleteVaultItem id => lit "/vault/items/" ++ id
  | resealVault => lit "/vault/reseal"
  | uploadVaultBlob key => lit "/vault/blobs/" ++ key
  | downloadVaultBlob key => lit "/vault/blobs/" ++ key
  | listDevices => lit "/devices"
  | publishSigningKey => lit "/devices/self/signing-key"
  | revokeDevice id => lit "/devices/" ++ id
  | updateDeviceRole id => lit "/devices/" ++ id ++ lit "/role"
  | pushStatus | pushSubscribe | pushUnsubscribe => lit "/push"

/-- The path of the request that `fetch` makes, the API being mounted under `/api`. -/
def pathname (c : Call) : Text := UrlPath.pathname (lit "/api" ++ c.path)

/-- The handler that a call is meant for. -/
def endpoint : Call → Endpoint
  | spaceChallenge => .spaceChallenge
  | createGroup => .createGroup
  | pairingRequest _ => .requestPairing
  | pairingComplete _ => .completePairing
  | pairingJoiner _ => .pairingJoiner
  | pairingPoll _ => .pollPairing
  | pairingDelete _ => .deletePairing
  | sendMessage => .sendMessage
  | pendingMessages _ => .pendingMessages
  | ackMessage _ => .ackMessage
  | uploadFile _ => .uploadFile
  | downloadFile _ => .downloadFile
  | rotateKey => .rotateKey
  | ackKey _ => .ackKey
  | updateSpaceName => .updateSpaceName
  | vaultChanges _ _ => .vaultChanges
  | createVaultItem => .createVaultItem
  | updateVaultItem _ => .updateVaultItem
  | deleteVaultItem _ => .deleteVaultItem
  | resealVault => .resealVaultItems
  | uploadVaultBlob _ => .uploadVaultBlob
  | downloadVaultBlob _ => .downloadVaultBlob
  | listDevices => .listDevices
  | publishSigningKey => .publishSigningKey
  | revokeDevice _ => .revokeDevice
  | updateDeviceRole _ => .updateDeviceRole
  | pushStatus => .pushStatus
  | pushSubscribe => .pushSubscribe
  | pushUnsubscribe => .pushUnsubscribe

/-- What the handler is meant to find in its parameters, under the name that it looks for. -/
def params : Call → Params
  | pairingRequest id | pairingComplete id | pairingJoiner id | pairingPoll id | pairingDelete id =>
      [(lit "pairingId", id)]
  | ackMessage id | updateVaultItem id | deleteVaultItem id | revokeDevice id |
      updateDeviceRole id => [(lit "id", id)]
  | uploadFile key | downloadFile key | uploadVaultBlob key | downloadVaultBlob key =>
      [(lit "r2key", key)]
  | ackKey epoch => [(lit "epoch", number epoch)]
  | _ => []

/-- What stands after the path. -/
def query : Call → Text
  | pendingMessages since => lit "?since=" ++ number since
  | vaultChanges since full => lit "?since=" ++ number since ++ if full then lit "&full=1" else []
  | _ => []

end Call

/-- `/^[A-Za-z0-9_-]+$/`, at most 256 characters: what `requireId` takes for an id. -/
def isUrlSafe (c : Char) : Bool := c.isAlphanum || c = '_' || c = '-'

def requireId (value : Text) (field : String) : Except ApiError Text :=
  if value = [] then .error ⟨.bad_request, "Missing or invalid field: " ++ field⟩
  else if 256 < value.length then .error ⟨.bad_request, "Field too long: " ++ field⟩
  else if value.all isUrlSafe then .ok value
  else .error ⟨.bad_request, "Invalid characters in field: " ++ field⟩

/-- The parts of the route of each handler. -/
def Endpoint.parts : Endpoint → List String
  | .createGroup => ["api", "groups"]
  | .spaceChallenge => ["api", "groups", "challenge"]
  | .requestPairing => ["api", "pairing", ":pairingId", "request"]
  | .completePairing => ["api", "pairing", ":pairingId", "complete"]
  | .pollPairing | .deletePairing => ["api", "pairing", ":pairingId"]
  | .pairingJoiner => ["api", "pairing", ":pairingId", "joiner"]
  | .realtimeConnect => ["api", "realtime"]
  | .pendingMessages => ["api", "messages", "pending"]
  | .ackMessage => ["api", "messages", ":id", "ack"]
  | .sendMessage => ["api", "messages"]
  | .uploadFile | .downloadFile => ["api", "files", ":r2key"]
  | .rotateKey => ["api", "keys", "rotate"]
  | .ackKey => ["api", "keys", ":epoch", "ack"]
  | .updateSpaceName => ["api", "groups", "self", "name"]
  | .vaultChanges => ["api", "vault"]
  | .createVaultItem => ["api", "vault", "items"]
  | .updateVaultItem | .deleteVaultItem => ["api", "vault", "items", ":id"]
  | .resealVaultItems => ["api", "vault", "reseal"]
  | .uploadVaultBlob | .downloadVaultBlob => ["api", "vault", "blobs", ":r2key"]
  | .listDevices => ["api", "devices"]
  | .publishSigningKey => ["api", "devices", "self", "signing-key"]
  | .revokeDevice => ["api", "devices", ":id"]
  | .updateDeviceRole => ["api", "devices", ":id", "role"]
  | .pushStatus | .pushSubscribe | .pushUnsubscribe => ["api", "push"]

theorem parts_of_mem : ∀ r ∈ router, r.parts = r.handler.parts.map lit := by decide +kernel

namespace Call

theorem exists_route (c : Call) : ∃ r ∈ router, r.method = c.method ∧ r.handler = c.endpoint := by
  cases c <;> (simp only [method, endpoint]; decide +kernel)

/-- The segments that a call fills the parts of its route to. -/
def segments (c : Call) : List Text :=
  (c.endpoint.parts.map lit).map fun part =>
    if isParam part then (c.params.lookup part.tail).getD [] else part

theorem path_eq (c : Call) : lit "/api" ++ c.path = UrlPath.path c.segments ++ c.query := by
  cases c with
  | vaultChanges since full =>
    rw [path, query, List.append_assoc, List.append_assoc]
    generalize number since ++ _ = rest
    simp [lit, segments, endpoint, Endpoint.parts, params, UrlPath.path, isParam]
  | _ => simp [lit, path, segments, endpoint, Endpoint.parts, params, query, UrlPath.path, isParam]

theorem endsPath_query (c : Call) : ∀ x ∈ c.query.head?, endsPath x := by
  have hsince : ∀ rest : Text, ∀ x ∈ (lit "?since=" ++ rest).head?, endsPath x := by
    simp [lit, endsPath]
  intro x hx
  cases c with
  | pendingMessages since => exact hsince _ x hx
  | vaultChanges since full =>
    rw [query, List.append_assoc] at hx
    exact hsince _ x hx
  | _ => cases hx

/-- The ids that a call is made with. -/
def ids : Call → List Text
  | pairingRequest id | pairingComplete id | pairingJoiner id | pairingPoll id | pairingDelete id
  | ackMessage id | updateVaultItem id | deleteVaultItem id | revokeDevice id | updateDeviceRole id
  | uploadFile id | downloadFile id | uploadVaultBlob id | downloadVaultBlob id => [id]
  | _ => []

end Call

theorem requireId_eq_ok {value id : Text} {field : String} :
    requireId value field = .ok id ↔ value = id ∧ id ≠ [] ∧ id.length ≤ 256 ∧ ∀ c ∈ id,
    isUrlSafe c := by
  unfold requireId
  split_ifs with h1 h2 h3
  · exact ⟨fun h => (by cases h), fun h => absurd h1 (h.1 ▸ h.2.1)⟩
  · exact ⟨fun h => (by cases h), fun h => absurd h2 (Nat.not_lt.mpr (h.1 ▸ h.2.2.1))⟩
  · exact ⟨fun h => (by cases h; exact ⟨rfl, h1, Nat.not_lt.mp h2, List.all_eq_true.mp h3⟩),
      fun h => congrArg Except.ok h.1⟩
  · exact ⟨fun h => (by cases h), fun h => absurd (List.all_eq_true.mpr (h.1 ▸ h.2.2.2)) h3⟩

theorem isUrlSafe_spec {c : Char} (h : isUrlSafe c) :
    UrlPath.kept c ∧ isSlash c = false ∧ c ≠ '.' ∧ c ≠ '%' ∧ c ≠ '/' := by
  have hall : ∀ n < 128, isUrlSafe (Char.ofNat n) → UrlPath.kept (Char.ofNat n) ∧
      isSlash (Char.ofNat n) = false ∧
      Char.ofNat n ≠ '.' ∧ Char.ofNat n ≠ '%' ∧ Char.ofNat n ≠ '/' := by decide
  have hlt : c.toNat < 128 := by
    simp only [isUrlSafe, Bool.or_eq_true, decide_eq_true_eq] at h
    rcases h with (h | rfl) | rfl
    · exact lt_of_isAlphanum h
    · decide
    · decide
  have hc := hall c.toNat hlt
  rw [Char.ofNat_toNat] at hc
  exact hc h

/-- A segment that is not empty and that nothing happens to on the way. -/
structure Plain (segment : Text) : Prop where
  ne_nil : segment ≠ []
  safe : ∀ c ∈ segment, isUrlSafe c

namespace Plain

variable {segment : Text} (h : Plain segment)

include h

theorem clean : Clean segment :=
  .of_plain (fun c hc => (isUrlSafe_spec (h.safe c hc)).1) (fun c hc =>
    (isUrlSafe_spec (h.safe c hc)).2.1)
    (fun hd => (isUrlSafe_spec (h.safe _ hd)).2.2.1 rfl) fun hd =>
      (isUrlSafe_spec (h.safe _ hd)).2.2.2.1 rfl

theorem decoded : decodeURIComponent segment = some segment :=
  Percent.decode_plain fun hd => (isUrlSafe_spec (h.safe _ hd)).2.2.2.1 rfl

end Plain

theorem splitPath_path {ss : List Text} (h : ∀ s ∈ ss, Plain s) :
    splitPath (UrlPath.path ss) = ss := by
  have hcut : (UrlPath.path ss).splitOnP (· = '/') = [] :: ss :=
    splitOnP_path (by decide) fun s hs c hc =>
      decide_eq_false (isUrlSafe_spec ((h s hs).safe c hc)).2.2.2.2
  rw [splitPath, hcut, List.filter_cons_of_neg (by decide), List.filter_eq_self]
  exact fun s hs => decide_eq_true (h s hs).ne_nil

theorem plain_literal (e : Endpoint) :
    ∀ text ∈ e.parts, isParam (lit text) = false → Plain (lit text) := by
  have h : ∀ text ∈ e.parts, isParam (lit text) = false → lit text ≠ [] ∧
      (lit text).all isUrlSafe := by
    cases e <;> decide +kernel
  exact fun text ht hp => ⟨(h text ht hp).1, List.all_eq_true.mp (h text ht hp).2⟩

theorem plain_number (n : ℕ) : Plain (number n) := by
  refine ⟨Nat.toDigits_ne_nil, fun c hc => ?_⟩
  have hd : c.isDigit := Nat.isDigit_of_mem_toDigits (by decide) (by decide) hc
  simp [isUrlSafe, Char.isAlphanum, hd]

namespace Call

variable {c : Call}

/-- Every value that a call puts into its path is plain. -/
theorem plain_params (h : ∀ id ∈ c.ids, Plain id) : ∀ p ∈ c.params, Plain p.2 := by
  intro p hp
  cases c with
  | ackKey epoch =>
    rw [List.mem_singleton.mp hp]
    exact plain_number epoch
  | spaceChallenge | createGroup | sendMessage | pendingMessages | rotateKey | updateSpaceName |
    vaultChanges
  | createVaultItem | resealVault | listDevices | publishSigningKey | pushStatus | pushSubscribe |
    pushUnsubscribe =>
    cases hp
  | _ =>
    rw [List.mem_singleton.mp hp]
    exact h _ (List.mem_singleton_self _)

theorem tail_mem_params (c : Call) :
    ∀ part ∈ c.endpoint.parts.map lit, isParam part → part.tail ∈ c.params.map Prod.fst := by
  cases c <;> (simp only [endpoint, params, List.map]; decide +kernel)

theorem plain_segments (h : ∀ id ∈ c.ids, Plain id) : ∀ s ∈ c.segments, Plain s := by
  intro s hs
  obtain ⟨part, hpart, rfl⟩ := List.mem_map.mp hs
  split_ifs with hp
  · cases hl : c.params.lookup part.tail with
    | some value =>
      obtain ⟨before, after, hparams, -⟩ := List.lookup_eq_some_iff.mp hl
      exact plain_params h (part.tail, value) (hparams ▸ List.mem_append_right _ List.mem_cons_self)
    | none =>
      obtain ⟨p, hpm, hpe⟩ := List.mem_map.mp (tail_mem_params c part hpart hp)
      exact absurd hpe.symm (bne_iff_ne.mp (List.lookup_eq_none_iff.mp hl p hpm))
  · obtain ⟨text, htext, rfl⟩ := List.mem_map.mp hpart
    exact plain_literal c.endpoint text htext (Bool.eq_false_iff.mpr hp)

theorem matchParts_segments (h : ∀ id ∈ c.ids, Plain id) :
    matchParts (c.endpoint.parts.map lit) c.segments [] = .ok (some c.params) := by
  cases c with
  | ackKey epoch =>
    have hd := (plain_number epoch).decoded
    simp [segments, endpoint, Endpoint.parts, params, matchParts, isParam, lit, hd, Params.set]
  | spaceChallenge | createGroup | sendMessage | pendingMessages | rotateKey | updateSpaceName |
    vaultChanges
  | createVaultItem | resealVault | listDevices | publishSigningKey | pushStatus | pushSubscribe |
    pushUnsubscribe =>
    simp [segments, endpoint, Endpoint.parts, params, matchParts, isParam, lit]
  | _ id =>
    have hd := (h id (List.mem_singleton_self id)).decoded
    simp [segments, endpoint, Endpoint.parts, params, matchParts, isParam, lit, hd, Params.set]

end Call

/-- A call with ids that the worker takes for ids comes to the handler that it is meant for, with
those ids as the parameters that the handler reads, whatever the order of the routes. -/
theorem calls_reach_their_handlers {routes : Router Endpoint} (hp : router.Perm routes) {c : Call}
    (field : String) (h : ∀ id ∈ c.ids, requireId id field = .ok id) :
    dispatch routes (some c.method) c.pathname = .ok (c.endpoint, c.params) := by
  have hplain : ∀ id ∈ c.ids, Plain id := fun id hid =>
    ⟨(requireId_eq_ok.mp (h id hid)).2.1, (requireId_eq_ok.mp (h id hid)).2.2.2⟩
  have hsegments := Call.plain_segments hplain
  obtain ⟨r, hr, hm, he⟩ := c.exists_route
  have hparts : r.parts = c.endpoint.parts.map lit := he ▸ parts_of_mem r hr
  have hanswer : r.answer (some c.method) c.segments = .ok (some (c.endpoint, c.params)) := by
    refine Route.answer_eq_some.mpr ⟨congrArg some hm, ?_, c.params, ?_, by rw [he]⟩
    · rw [hparts, Call.segments]
      exact (List.length_map _).symm
    · rw [hparts, Call.matchParts_segments hplain]
  have hfind :=
    unambiguous_router.find_of_mem hr
      (by rw [hanswer]; exact fun hn => Option.some_ne_none _ (Except.ok.inj hn))
  rw [routes_in_any_order hp, dispatch, Call.pathname, Router.handle, Call.path_eq,
    pathname_clean (fun s hs => (hsegments s hs).clean) c.endsPath_query, splitPath_path hsegments,
    hfind, hanswer]

theorem calls_reach_their_handlers_sample :
    dispatch router.reverse (some Method.PATCH) (Call.updateDeviceRole (lit "aB3_-x")).pathname =
      .ok (.updateDeviceRole, [(lit "id", lit "aB3_-x")]) :=
  calls_reach_their_handlers router.reverse_perm.symm
    (c := .updateDeviceRole (lit "aB3_-x")) "id" (by
    intro id hid
    rw [List.mem_singleton.mp hid]
    decide +kernel)

end SendSelf.Routing
