import Nodra.Server.Model

/-! The edge agent and the control plane together: events are spooled at the edge, and
`flush` sends them in batches and deletes what the server accepted.  Requests and
responses may be lost; the spool is a map. -/
namespace Nodra.Agent
open Model Std Server

structure LocalRoute where
  topic : String := ""
  targetURL : String := ""
  method : String := ""
  timeout : String := ""
  headers : ExtTreeMap String String := ∅

structure Applied where
  topic : String
  payload : Any
  headers : ExtTreeMap String String

/-- What the agent takes from elsewhere: filters and transforms of the local routes
(`none` drops the event), the hash behind local delivery ids, and two functions
of the standard library. -/
structure Env where
  server : Server.Env
  apply : LocalRoute → String → Any → ExtTreeMap String String → Except String (Option Applied)
  localDeliveryID : String → Nat → String
  toUpper : String → String
  timeoutSeconds : String → Option Int

structure Config where
  siteID : String
  agentToken : String
  peerName : Option String := none
  localRoutes : List LocalRoute := []

/-- `reply` is the response that reaches a waiting step, if one does. -/
structure Choice extends Server.Choice where
  reply : Option Reply := none

/-- `issued`, `ingested` and `flushed` record the ids that `localID` gave out, the events
whose ingest returned nil and the ids that `flush` deleted. -/
structure World where
  server : Nodra.Server
  spool : OrderedMap String Event := .empty
  localDeliveries : OrderedMap String Delivery := .empty
  issued : List String := []
  ingested : List Event := []
  flushed : List String := []

structure Ingest where
  topic : String
  payload : Any
  headers : ExtTreeMap String String := ∅
  eventTime : Time := 0

inductive Ingest.Progress where
  | spool
  | routes (ev : Event) (index : Nat) (rest : List LocalRoute)

def localDelivery (env : Env) (cfg : Config) (choice : Choice) (ev : Event) (index : Nat)
    (rt : LocalRoute) (applied : Applied) : Delivery where
  id := env.localDeliveryID ev.id index
  eventID := ev.id
  siteID := cfg.siteID
  topic := applied.topic
  targetURL := rt.targetURL
  method := if env.toUpper rt.method = "" then "POST" else env.toUpper rt.method
  payload := applied.payload
  headers := applied.headers
  timeoutSecs :=
    if rt.timeout = "" then 10 else ((env.timeoutSeconds rt.timeout).map (max · 1)).getD 10
  maxAttempts := 100
  nextAttempt := choice.now
  eventTime := ev.eventTime
  createdAt := choice.later

/-- One step of `ingestWithTime`; `none` is a return with an error, or with nil when the
event is among the ingested ones. -/
def Ingest.next (env : Env) (cfg : Config) (choice : Choice) (w : World) (call : Ingest) :
    Progress → World × Option Progress
  | .spool =>
    if call.topic = "" ∨ call.payload.text = "" then (w, none)
    else
      let w := { w with issued := choice.id :: w.issued }
      if choice.id = "" ∨ choice.error.isSome then (w, none)
      else
        let eventTime := if call.eventTime = 0 then choice.now else call.eventTime
        let ev : Event :=
          { id := choice.id, siteID := cfg.siteID, topic := call.topic, payload := call.payload,
            headers := call.headers, eventTime, createdAt := eventTime }
        ({ w with spool := w.spool.put ev.id ev }, some (.routes ev 0 cfg.localRoutes))
  | .routes ev index (rt :: rest) =>
    if Router.isMatch rt.topic ev.topic then
      match env.apply rt ev.topic ev.payload (mergeHeaders ev.headers rt.headers) with
      | .error _ => (w, none)
      | .ok none => (w, some (.routes ev (index + 1) rest))
      | .ok (some applied) =>
        if choice.error.isSome then (w, none)
        else
          let d := localDelivery env cfg choice ev index rt applied
          ({ w with localDeliveries := w.localDeliveries.put d.id d },
            some (.routes ev (index + 1) rest))
    else (w, some (.routes ev (index + 1) rest))
  | .routes ev _ [] => ({ w with ingested := w.ingested ++ [ev] }, none)

def batchSize : Nat := 50

def eventIn (ev : Event) : EventIn where
  eventID := ev.id
  topic := ev.topic
  payload := ev.payload
  headers := ev.headers
  eventTime := ev.eventTime

def batchRequest (cfg : Config) (batch : List Event) : Request where
  siteID := cfg.siteID
  bearer := cfg.agentToken
  peerName := cfg.peerName
  body := .batch (batch.map eventIn)

def eventRequest (cfg : Config) (ev : Event) : Request where
  siteID := cfg.siteID
  bearer := cfg.agentToken
  peerName := cfg.peerName
  body := .single (eventIn ev)

def okIDs (reply : Reply) : List String :=
  (reply.results.filter fun r => r.error = "" ∧ r.eventID ≠ "").map Result.eventID

/-- What `flush` does with the response to a batch: it may fall back to one event at a
time, and then go on with the next batch or not. -/
inductive Verdict where
  | stop
  | oneByOne (goOn : Bool)
  | delete (ok : List String)

def isSuccess (code : Nat) : Bool := 200 ≤ code ∧ code < 300

def verdict (reply : Reply) : Verdict :=
  if reply.code = 404 then .oneByOne false
  else if isSuccess reply.code then
    if reply.results = [] then .oneByOne true else .delete (okIDs reply)
  else .stop

/-- Where `flush` stands.  The last three are `flushOneByOne`, which hands over to the
remaining batches, or to nothing. -/
inductive Flush.Progress where
  | list
  | batches (items : List Event)
  | awaitBatch (batch rest : List Event)
  | delete (ok : List String) (batch rest : List Event)
  | oneByOne (items : List Event) (after : Option (List Event))
  | awaitOne (ev : Event) (items : List Event) (after : Option (List Event))
  | deleteOne (ev : Event) (items : List Event) (after : Option (List Event))

def deleteSpooled (w : World) (id : String) : World :=
  { w with spool := w.spool.remove id, flushed := w.flushed ++ [id] }

/-- One step of `flush`: the new world, where it stands then, and the request it sends.
A choice with an error is a call that fails, or a request that does not arrive. -/
def Flush.next (cfg : Config) (choice : Choice) (w : World) :
    Progress → World × Option Progress × Option Request
  | .list => (w, some (.batches w.spool.values), none)
  | .batches items =>
    if items = [] ∨ choice.error.isSome then (w, none, none)
    else
      let batch := items.take batchSize
      (w, some (.awaitBatch batch (items.drop batchSize)), some (batchRequest cfg batch))
  | .awaitBatch batch rest =>
    match choice.reply.map verdict with
    | none => (w, none, none)
    | some .stop => (w, none, none)
    | some (.oneByOne goOn) => (w, some (.oneByOne batch (if goOn then some rest else none)), none)
    | some (.delete ok) => (w, some (.delete ok batch rest), none)
  | .delete _ [] rest => (w, some (.batches rest), none)
  | .delete ok (ev :: batch) rest =>
    if ev.id ∉ ok ∨ choice.error.isSome then (w, none, none)
    else (deleteSpooled w ev.id, some (.delete ok batch rest), none)
  | .oneByOne [] after => (w, after.map .batches, none)
  | .oneByOne (ev :: items) after =>
    if choice.error.isSome then (w, after.map .batches, none)
    else (w, some (.awaitOne ev items after), some (eventRequest cfg ev))
  | .awaitOne ev items after =>
    match choice.reply with
    | none => (w, after.map .batches, none)
    | some reply =>
      if isSuccess reply.code then (w, some (.deleteOne ev items after), none)
      else (w, after.map .batches, none)
  | .deleteOne ev items after =>
    if choice.error.isSome then (w, after.map .batches, none)
    else (deleteSpooled w ev.id, some (.oneByOne items after), none)

inductive Node where
  | server (t : Thread)
  | ingest (call : Ingest) (progress : Ingest.Progress)
  | flush (progress : Flush.Progress)

/-- The threads after a step of `flush`: itself, and a handler for the request it sent. -/
def flushThreads (progress : Option Flush.Progress) (request : Option Request) : List Node :=
  (progress.map .flush).toList ++
    (request.map fun request => .server (.handler request .arrive)).toList

def Node.step (env : Env) (cfg : Config) (choice : Choice) (w : World) : Node → World × List Node
  | .server t =>
    let step := t.step env.server choice.toChoice w.server
    ({ w with server := step.1 }, step.2.map .server)
  | .ingest call progress =>
    let step := Ingest.next env cfg choice w call progress
    (step.1, (step.2.map (.ingest call)).toList)
  | .flush progress =>
    let step := Flush.next cfg choice w progress
    (step.1, flushThreads step.2.1 step.2.2)

inductive Node.Starts : Node → Prop where
  | server (t : Thread) (h : t.Starts) : Starts (.server t)
  | ingest (call : Ingest) : Starts (.ingest call .spool)
  | flush : Starts (.flush .list)

end Nodra.Agent
