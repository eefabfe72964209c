import Nodra.Server.Deliveries

/-! The event handlers of a server whose queues and store work, without interference:
the functions of the source in one piece. -/
namespace Nodra.Server
open Model Std Interleave Lines

variable {env : Env} {choice : Choice} {s : Server}

def putDeliveries (env : Env) (ev : Event) : List Route → Server → Server
  | [], s => s
  | rt :: rest, s =>
    putDeliveries env ev rest
      (if eligible ev.siteID ev.topic rt then (Action.putDelivery (newDelivery env ev rt)).run env s
      else s)

def ingestAgentEvent (env : Env) (choice : Choice) (s : Server) (call : Ingest) : Server × Answer :=
  if call.event.topic = "" ∨ call.event.payload.text = "" then
    (s, { code := 400, error := "topic and payload are required" })
  else
    let eventID := checkedID choice call.event
    if s.store.hasEvent eventID then
      ((Action.accepted eventID).run env s, duplicateAnswer eventID)
    else
      let ev := ingestedEvent choice call eventID
      let routes := s.store.state.routes
      let s := putDeliveries env ev routes s
      let s := (Action.addEvent ev routes).run env s
      ((Action.accepted ev.id).run env s,
        acceptedAnswer ev (routes.countP fun rt => eligible ev.siteID ev.topic rt))

/-- The loop of `eventsBatch`: every event with the answer to it.  Each call has its own
choice of times and ids. -/
def ingestAll (env : Env) (choice : EventIn → Choice) (siteID : String) :
    List EventIn → Server → Server × List (EventIn × Answer)
  | [], s => (s, [])
  | event :: rest, s =>
    let first := ingestAgentEvent env (choice event) s ⟨siteID, event⟩
    let others := ingestAll env choice siteID rest first.1
    (others.1, (event, first.2) :: others.2)

def respond (env : Env) (s : Server) (request : Request) (out : Reply) : Server × Reply :=
  ((Action.reply request out).run env s, out)

def replyTo (request : Request) (answers : List (EventIn × Answer)) (last : Answer) : Reply :=
  request.reply (answers.map fun entry => resultOf entry.1 entry.2) last

def events (env : Env) (choice : EventIn → Choice) (s : Server) (request : Request) (event : EventIn) :
    Server × Reply :=
  let ingested := ingestAgentEvent env (choice event) s ⟨request.siteID, event⟩
  respond env ingested.1 request (replyTo request [(event, ingested.2)] ingested.2)

def eventsBatch (env : Env) (choice : EventIn → Choice) (s : Server) (request : Request)
    (batch : List EventIn) : Server × Reply :=
  if batch = [] then respond env s request { code := 400, error := "events is required" }
  else if batch.length > maxBatch then
    respond env s request { code := 400, error := "batch limited to 500 events" }
  else
    let ingested := ingestAll env choice request.siteID batch s
    respond env ingested.1 request (replyTo request ingested.2 { code := 202 })

/-- A request whose body was read: `decode` refuses one above the limit. -/
def handle (env : Env) (choice : EventIn → Choice) (maxBodyBytes : Nat) (s : Server) (request : Request)
    (body : Bytes) : Server × Reply :=
  if body.length > maxBodyBytes then
    respond env s request { code := 400, error := "invalid JSON: http: request body too large" }
  else if (agentSite env s request.toCredentials request.siteID).isNone then
    respond env s request { code := 401, error := "unauthorized agent" }
  else
    match request.body with
    | .single event => events env choice s request event
    | .batch batch => eventsBatch env choice s request batch

theorem error_ingestAgentEvent (env : Env) (choice : Choice) (s : Server) (call : Ingest) :
    (ingestAgentEvent env choice s call).2.error = "" ↔
      call.event.topic ≠ "" ∧ call.event.payload.text ≠ "" := by
  fun_cases ingestAgentEvent env choice s call
  · rename_i hinvalid
    refine iff_of_false (by simp) fun h => hinvalid.elim h.1 h.2
  · rename_i hvalid _ _
    exact iff_of_true rfl (not_or.mp hvalid)
  · rename_i hvalid _ _ _ _ _ _
    exact iff_of_true rfl (not_or.mp hvalid)

theorem eventID_ingestAgentEvent (env : Env) (choice : Choice) (s : Server) (call : Ingest)
    (h : (ingestAgentEvent env choice s call).2.error = "") :
    (ingestAgentEvent env choice s call).2.eventID = checkedID choice call.event := by
  revert h
  fun_cases ingestAgentEvent env choice s call <;> intro h
  · simp at h
  · rfl
  · rfl

end Nodra.Server
