import Nodra.Lib.Interleave
import Nodra.Lib.OrderedMap
import Nodra.Store.Model

/-! The event path of the control plane in file mode: the handlers that ingest events,
the delivery worker and the dead-letter requests, as threads over the store and
the two queues.  A step makes one call of a queue or of the store; the queues are
maps. -/
namespace Nodra.Router

def trimSlashes (text : List Char) : List Char :=
  ((text.dropWhile (· = '/')).reverse.dropWhile (· = '/')).reverse

def splitSlash : List Char → List (List Char)
  | [] => [[]]
  | c :: rest =>
    if c = '/' then [] :: splitSlash rest
    else
      match splitSlash rest with
      | [] => [[c]]
      | level :: levels => (c :: level) :: levels

def levels (text : String) : List (List Char) := splitSlash (trimSlashes text.toList)

def matchLevels : List (List Char) → List (List Char) → Bool
  | [], topic => topic.isEmpty
  | filter :: filters, topic =>
    if filter = ['#'] then filters.isEmpty
    else
      match topic with
      | [] => false
      | level :: levels =>
        if filter ≠ ['+'] ∧ filter ≠ level then false else matchLevels filters levels

def isMatch (filter topic : String) : Bool := matchLevels (levels filter) (levels topic)

example : isMatch "sensors/+/telemetry" "sensors/plc1/telemetry" ∧ isMatch "a/#" "a" ∧
    ¬ isMatch "a/+" "a" := by decide

end Nodra.Router

namespace Nodra
open Model Std

namespace Server

/-- What the handlers take from elsewhere: the codecs of the store, the hash behind
the delivery ids and the comparison of token hashes. -/
structure Env where
  codecs : Store.Codecs
  deterministicDeliveryID : String → String → String
  equalHash : String → String → Bool

/-- What the environment gives a step: the error its call returns, the clock, read
once or twice, and a fresh id. -/
structure Choice where
  error : Option String := none
  now : Time := 0
  later : Time := 0
  id : String := ""

structure EventIn where
  eventID : String := ""
  topic : String := ""
  payload : Any := ⟨""⟩
  headers : ExtTreeMap String String := ∅
  eventTime : Time := 0
deriving DecidableEq

inductive Body where
  | single (event : EventIn)
  | batch (events : List EventIn)
deriving DecidableEq

structure Credentials where
  bearer : String := ""
  peerName : Option String := none
deriving DecidableEq

structure Request extends Credentials where
  siteID : String := ""
  body : Body
deriving DecidableEq

structure Answer where
  code : Nat
  error : String := ""
  eventID : String := ""
  duplicate : Bool := false
  matchedRoutes : Nat := 0
  eventTime : Time := 0
  ingestedAt : Time := 0
deriving DecidableEq

structure Result where
  eventID : String := ""
  error : String := ""
  status : Nat := 0
  duplicate : Bool := false
deriving DecidableEq

structure Reply where
  code : Nat
  error : String := ""
  accepted : Nat := 0
  duplicates : Nat := 0
  results : List Result := []
deriving DecidableEq

inductive Observation where
  | put (d : Delivery)
  | delivered (id : String)
  | removed (id : String)
  | recorded (ev : Event) (routes : List Route)
  | accepted (eventID : String)
  | replied (request : Request) (reply : Reply)
deriving DecidableEq

end Server

structure Server where
  store : Nodra.Store
  deliveries : OrderedMap String Delivery := .empty
  dlq : OrderedMap String DeadLetter := .empty
  inflight : ExtTreeSet String := ∅
  history : List Server.Observation := []

namespace Server

inductive Action where
  | none
  | putDelivery (d : Delivery)
  | deleteDelivery (id : String)
  | putDeadLetter (dl : DeadLetter)
  | deleteDeadLetter (id : String)
  | removeDeadLetter (id : String)
  | addEvent (ev : Event) (routes : List Route)
  | storeCall (request : Store.Call)
  | claim (id : String)
  | release (id : String)
  | delivered (id : String)
  | accepted (eventID : String)
  | reply (request : Request) (out : Reply)

def Action.observed (s : Server) : Action → List Observation
  | .putDelivery d => [.put d]
  | .removeDeadLetter id => if id ∈ s.dlq then [.removed id] else []
  | .addEvent ev routes => if ev.id ∈ s.store.seen then [] else [.recorded ev routes]
  | .delivered id => [.delivered id]
  | .accepted eventID => [.accepted eventID]
  | .reply request out => [.replied request out]
  | _ => []

def Action.store (env : Env) (store : Nodra.Store) : Action → Nodra.Store
  | .addEvent ev _ => (store.addEvent env.codecs ev).toOption.getD store
  | .storeCall request => (store.call env.codecs request).toOption.getD store
  | _ => store

def Action.deliveries (deliveries : OrderedMap String Delivery) :
    Action → OrderedMap String Delivery
  | .putDelivery d => deliveries.put d.id d
  | .deleteDelivery id => deliveries.remove id
  | _ => deliveries

/-- `removeDeadLetter` is the deletion on request, `deleteDeadLetter` the one that ends
a replay. -/
def Action.dlq (dlq : OrderedMap String DeadLetter) : Action → OrderedMap String DeadLetter
  | .putDeadLetter dl => dlq.put dl.delivery.id dl
  | .deleteDeadLetter id => dlq.remove id
  | .removeDeadLetter id => dlq.remove id
  | _ => dlq

def Action.inflight (inflight : ExtTreeSet String) : Action → ExtTreeSet String
  | .claim id => inflight.insert id
  | .release id => inflight.erase id
  | _ => inflight

def Action.run (env : Env) (s : Server) (a : Action) : Server where
  store := a.store env s.store
  deliveries := a.deliveries s.deliveries
  dlq := a.dlq s.dlq
  inflight := a.inflight s.inflight
  history := s.history ++ a.observed s

def mergeHeaders (a b : ExtTreeMap String String) : ExtTreeMap String String :=
  b.toList.foldl (fun out header => out.insert header.1 header.2) a

structure Ingest where
  siteID : String
  event : EventIn

/-- Where a call of `ingestAgentEvent` stands.  `put` has the routes it read and those
still to handle. -/
inductive Ingest.Progress where
  | check
  | readRoutes (eventID : String)
  | put (ev : Event) (routes rest : List Route) (matched : Nat)
  | accept (ev : Event) (matched : Nat)
  | returned (answer : Answer)

def eligible (siteID topic : String) (rt : Route) : Bool :=
  rt.enabled && (rt.siteID = "" || rt.siteID = siteID) && Router.isMatch rt.topic topic

def newDelivery (env : Env) (ev : Event) (rt : Route) : Delivery where
  id := env.deterministicDeliveryID ev.id rt.id
  routeID := rt.id
  eventID := ev.id
  siteID := ev.siteID
  topic := ev.topic
  targetURL := rt.targetURL
  method := rt.method
  payload := ev.payload
  headers := mergeHeaders ev.headers rt.headers
  timeoutSecs := rt.timeoutSecs
  maxAttempts := max rt.retryMax 1
  nextAttempt := ev.ingestedAt
  eventTime := ev.eventTime
  createdAt := ev.ingestedAt

def duplicateAnswer (eventID : String) : Answer := { code := 202, eventID, duplicate := true }

def acceptedAnswer (ev : Event) (matched : Nat) : Answer where
  code := 202
  eventID := ev.id
  matchedRoutes := matched
  eventTime := ev.eventTime
  ingestedAt := ev.ingestedAt

def checkedID (choice : Choice) (event : EventIn) : String :=
  if event.eventID = "" then choice.id else event.eventID

def ingestedEvent (choice : Choice) (call : Ingest) (eventID : String) : Event :=
  let eventTime := if call.event.eventTime = 0 then choice.now else call.event.eventTime
  { id := eventID, siteID := call.siteID, topic := call.event.topic, payload := call.event.payload,
    headers := call.event.headers, eventTime, ingestedAt := choice.later, createdAt := eventTime }

def Ingest.next (env : Env) (choice : Choice) (s : Server) (call : Ingest) :
    Progress → Action × Progress
  | .check =>
    if call.event.topic = "" ∨ call.event.payload.text = "" then
      (.none, .returned { code := 400, error := "topic and payload are required" })
    else
      let eventID := checkedID choice call.event
      if s.store.hasEvent eventID then
        (.accepted eventID, .returned (duplicateAnswer eventID))
      else (.none, .readRoutes eventID)
  | .readRoutes eventID =>
    let routes := s.store.state.routes
    (.none, .put (ingestedEvent choice call eventID) routes routes 0)
  | .put ev routes (rt :: rest) matched =>
    if eligible ev.siteID ev.topic rt then
      match choice.error with
      | none => (.putDelivery (newDelivery env ev rt), .put ev routes rest (matched + 1))
      | some err => (.none, .returned { code := 503, error := "delivery queue unavailable: " ++ err })
    else (.none, .put ev routes rest matched)
  | .put ev routes [] matched =>
    match choice.error with
    | none => (.addEvent ev routes, .accept ev matched)
    | some err => (.none, .returned { code := 507, error := "event persistence failed: " ++ err })
  | .accept ev matched => (.accepted ev.id, .returned (acceptedAnswer ev matched))
  | .returned answer => (.none, .returned answer)

def agentSite (env : Env) (s : Server) (r : Credentials) (siteID : String) : Option Site :=
  match s.store.state.sites.find? fun site => site.id = siteID with
  | none => none
  | some site =>
    if site.revoked then none
    else if r.peerName = some siteID then some site
    else if env.equalHash site.tokenHash r.bearer then some site
    else none

def maxBatch : Nat := 500

inductive Handler.Progress where
  | arrive
  | ingest (event : EventIn) (progress : Ingest.Progress) (rest : List EventIn)
      (results : List Result)

def Body.isBatch : Body → Bool
  | .single _ => false
  | .batch _ => true

def resultOf (event : EventIn) (answer : Answer) : Result :=
  if answer.error ≠ "" then
    { eventID := event.eventID, error := answer.error, status := answer.code }
  else { eventID := answer.eventID, status := answer.code, duplicate := answer.duplicate }

def Request.reply (request : Request) (results : List Result) (last : Answer) : Reply :=
  if request.body.isBatch then
    { code := 202
      accepted := results.countP fun r => r.error = "" ∧ r.duplicate = false
      duplicates := results.countP fun r => r.error = "" ∧ r.duplicate = true
      results }
  else if last.error ≠ "" then { code := last.code, error := last.error }
  else { code := last.code, results }

def refuse (request : Request) (code : Nat) (error : String) : Action :=
  .reply request { code, error }

/-- One step of `events` or `eventsBatch`; `none` ends the request.  A choice with an
error at the arrival is a body that does not decode. -/
def Handler.next (env : Env) (choice : Choice) (s : Server) (request : Request) :
    Progress → Action × Option Progress
  | .arrive =>
    match choice.error with
    | some err => (refuse request 400 ("invalid JSON: " ++ err), none)
    | none =>
      if (agentSite env s request.toCredentials request.siteID).isNone then
        (refuse request 401 "unauthorized agent", none)
      else
        match request.body with
        | .single event => (.none, some (.ingest event .check [] []))
        | .batch [] => (refuse request 400 "events is required", none)
        | .batch (event :: rest) =>
          if (event :: rest).length > maxBatch then
            (refuse request 400 "batch limited to 500 events", none)
          else (.none, some (.ingest event .check rest []))
  | .ingest event (.returned answer) rest results =>
    let results := results ++ [resultOf event answer]
    match rest with
    | [] => (.reply request (request.reply results answer), none)
    | event :: rest => (.none, some (.ingest event .check rest results))
  | .ingest event progress rest results =>
    let step := Ingest.next env choice s ⟨request.siteID, event⟩ progress
    (step.1, some (.ingest event step.2 rest results))

inductive ProcessOne.Progress where
  | deliver
  | completed
  | deadLetter (reason : String)
  | drop (reason : String)
  | alert (reason : String)
  | reschedule
  | finish

def second : Time := 10 ^ 9

def deliveryAlert (choice : Choice) (d : Delivery) (reason : String) : Alert where
  id := choice.id
  siteID := d.siteID
  severity := "high"
  type := "delivery_failed"
  message := "route " ++ d.routeID ++ " moved to dead letter queue: " ++ reason
  createdAt := choice.now

/-- One step of `processOne`, the release of the id included.  At `deliver` no error is
an answer 2xx of the target. -/
def ProcessOne.next (choice : Choice) (d : Delivery) : Progress → Action × Option (Delivery × Progress)
  | .deliver =>
    match choice.error with
    | none => (.delivered d.id, some (d, .completed))
    | some err =>
      let d := { d with attempts := d.attempts + 1, lastError := err }
      if d.attempts ≥ d.maxAttempts then (.none, some (d, .deadLetter err))
      else
        let delay := 2 ^ (min d.attempts 6).toNat * second
        (.none, some ({ d with nextAttempt := choice.now + delay }, .reschedule))
  | .completed => ((if choice.error.isSome then .none else .deleteDelivery d.id), some (d, .finish))
  | .deadLetter reason =>
    if choice.error.isSome then (.none, some (d, .finish))
    else
      (.putDeadLetter { delivery := d, failedAt := choice.now, reason }, some (d, .drop reason))
  | .drop reason =>
    if choice.error.isSome then (.none, some (d, .finish))
    else (.deleteDelivery d.id, some (d, .alert reason))
  | .alert reason =>
    ((if choice.error.isSome then .none else .storeCall (.addAlert (deliveryAlert choice d reason))),
      some (d, .finish))
  | .reschedule => ((if choice.error.isSome then .none else .putDelivery d), some (d, .finish))
  | .finish => (.release d.id, none)

inductive DeadletterReplay.Progress where
  | get
  | put (d : Delivery)
  | delete

/-- One step of a replay of the dead letter `id`; `caller` says which sites the caller
may change. -/
def DeadletterReplay.next (choice : Choice) (s : Server) (id : String) (caller : String → Bool) :
    Progress → Action × Option Progress
  | .get =>
    match s.dlq.get? id with
    | none => (.none, none)
    | some dl =>
      if caller dl.delivery.siteID then
        let d := { dl.delivery with attempts := 0, lastError := "", nextAttempt := choice.now }
        (.none, some (.put d))
      else (.none, none)
  | .put d => if choice.error.isSome then (.none, none) else (.putDelivery d, some .delete)
  | .delete => ((if choice.error.isSome then .none else .deleteDeadLetter id), none)

inductive DeadletterDelete.Progress where
  | get
  | delete

/-- One step of a deletion.  An id that is not there is deleted without complaint. -/
def DeadletterDelete.next (choice : Choice) (s : Server) (id : String) (caller : String → Bool) :
    Progress → Action × Option Progress
  | .get =>
    match s.dlq.get? id with
    | none => (.none, some .delete)
    | some dl => (.none, if caller dl.delivery.siteID then some .delete else none)
  | .delete => ((if choice.error.isSome then .none else .removeDeadLetter id), none)

/-- `dispatch` is `processDeliveries` between its `List` and its end; `admin` stands for
any other handler that writes the store. -/
inductive Thread where
  | handler (request : Request) (progress : Handler.Progress)
  | processDeliveries
  | dispatch (now : Time) (items : List Delivery)
  | processOne (d : Delivery) (progress : ProcessOne.Progress)
  | deadletterReplay (id : String) (caller : String → Bool) (progress : DeadletterReplay.Progress)
  | deadletterDelete (id : String) (caller : String → Bool) (progress : DeadletterDelete.Progress)
  | admin (request : Store.Call)

/-- The access of a step, and the threads that take the place of its own. -/
def Thread.next (env : Env) (choice : Choice) (s : Server) : Thread → Action × List Thread
  | .handler request progress =>
    let step := Handler.next env choice s request progress
    (step.1, (step.2.map (.handler request)).toList)
  | .processDeliveries => (.none, [.dispatch choice.now s.deliveries.values])
  | .dispatch _ [] => (.none, [])
  | .dispatch now (d :: items) =>
    -- an id that is in flight is left to the thread that has it
    if d.nextAttempt > now ∨ d.id ∈ s.inflight then (.none, [.dispatch now items])
    else (.claim d.id, [.dispatch now items, .processOne d .deliver])
  | .processOne d progress =>
    let step := ProcessOne.next choice d progress
    (step.1, (step.2.map fun next => .processOne next.1 next.2).toList)
  | .deadletterReplay id caller progress =>
    let step := DeadletterReplay.next choice s id caller progress
    (step.1, (step.2.map (.deadletterReplay id caller)).toList)
  | .deadletterDelete id caller progress =>
    let step := DeadletterDelete.next choice s id caller progress
    (step.1, (step.2.map (.deadletterDelete id caller)).toList)
  | .admin request => ((if choice.error.isSome then .none else .storeCall request), [])

/-- Requests and ticks of the worker.  Only `ingestAgentEvent` adds events. -/
inductive Thread.Starts : Thread → Prop where
  | handler (request : Request) : Starts (.handler request .arrive)
  | processDeliveries : Starts .processDeliveries
  | deadletterReplay (id : String) (caller : String → Bool) : Starts (.deadletterReplay id caller .get)
  | deadletterDelete (id : String) (caller : String → Bool) : Starts (.deadletterDelete id caller .get)
  | admin (request : Store.Call) (h : ∀ ev, request ≠ .addEvent ev) : Starts (.admin request)

def Thread.step (env : Env) (choice : Choice) (s : Server) (t : Thread) : Server × List Thread :=
  ((t.next env choice s).1.run env s, (t.next env choice s).2)

end Server

end Nodra
