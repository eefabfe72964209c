import Nodra.Server.Campaigns
import Nodra.Server.Deliveries

/-! The requests of the agents, as programs of store calls. -/
namespace Nodra.Server
open Model Std Interleave Program

/-- The store call to come; the calls of an event handler are numbered. -/
inductive AgentPoint where
  | read
  | arrive
  | addDevice
  | setTwin
  | updateTwin
  | updateSite
  | updateDeployment
  | addAlert
  | event (left : Nat)
  | campaign (label : Label)
deriving DecidableEq

abbrev AgentProc := Program AgentPoint Server Choice

def storeCall (env : Env) (choice : Choice) (s : Server) (there : Bool) (request : Store.Call) :
    Server × Option String :=
  match choice.error with
  | some err => (s, some err)
  | none =>
    if there then ((Action.storeCall request).run env s, none) else (s, some "file does not exist")

def arrive (env : Env) (r : Credentials) (siteID : String) : AgentProc (Option TwinReply) :=
  .access .arrive fun choice s => (s, refusal env choice s r siteID)

def raiseAlert (env : Env) (siteID type message : String) : AgentProc Unit :=
  .access .addAlert fun choice s =>
    let alert : Alert :=
      { id := choice.id, siteID, severity := "high", type, message, createdAt := choice.now }
    ((storeCall env choice s true (.addAlert alert)).1, ())

structure HeartbeatRequest extends Credentials where
  siteID : String := ""
  version : String := ""
  metrics : ExtTreeMap String Any := ∅

def heartbeatRefusal (env : Env) (choice : Choice) (s : Server) (r : HeartbeatRequest) :
    Option TwinReply :=
  match refusal env choice s r.toCredentials r.siteID with
  | none => none
  | some reply =>
    if reply.code = 401 ∧ (s.store.site r.siteID).any Site.revoked then
      some { code := 403, error := "site_revoked" }
    else some reply

def HeartbeatRequest.site (r : HeartbeatRequest) (now : Time) (v : Site) : Site :=
  { v with status := "online", lastSeen := now, version := r.version, metrics := r.metrics }

def heartbeat (env : Env) (r : HeartbeatRequest) : AgentProc (Except TwinReply Time) := do
  match ← .access .arrive fun choice s => (s, heartbeatRefusal env choice s r) with
  | some reply => pure (.error reply)
  | none =>
    .access .updateSite fun choice s =>
      let updated := storeCall env choice s (s.store.site r.siteID).isSome
        (.updateSite r.siteID (r.site choice.now))
      (updated.1, match updated.2 with
        | some _ => .error { code := 507, error := "heartbeat persistence failed" }
        | none => .ok choice.later)

structure DeviceRequest extends Credentials where
  device : Device := {}

def DeviceRequest.registered (r : DeviceRequest) (choice : Choice) : Device :=
  { r.device with
    id := if r.device.id = "" then choice.id else r.device.id
    status := "online"
    createdAt := if r.device.createdAt = 0 then choice.now else r.device.createdAt
    lastSeen := choice.later }

def newTwin (dev : Device) (now : Time) : Twin :=
  { deviceID := dev.id, siteID := dev.siteID, updatedAt := now }

def registerDevice (env : Env) (r : DeviceRequest) : AgentProc (Except TwinReply Device) := do
  match ← arrive env r.toCredentials r.device.siteID with
  | some reply => pure (.error reply)
  | none =>
  if r.device.name = "" ∨ r.device.protocol = "" then
    pure (.error { code := 400, error := "name and protocol are required" })
  else
  match ← .access .addDevice fun choice s =>
      let added := storeCall env choice s true (.addDevice (r.registered choice))
      (added.1, match added.2 with
        | some err => Except.error err
        | none => .ok (r.registered choice)) with
  | .error err => pure (.error { code := 507, error := err })
  | .ok dev =>
  match ← .read .read (·.store.twin dev.id) with
  | some _ => pure (.ok dev)
  | none => do
    .access .setTwin fun choice s =>
      ((storeCall env choice s true (.setTwin (newTwin dev choice.now))).1, ())
    pure (.ok dev)

def agentTwinReportedProc (env : Env) (r : ReportedRequest) : AgentProc TwinReply := do
  match ← arrive env r.toCredentials r.siteID with
  | some reply => pure reply
  | none =>
  match ← .read .read (agentDevice · r.deviceID r.siteID) with
  | .error reply => pure reply
  | .ok dev => .access .updateTwin fun choice s => recordReported env choice s dev r

structure DeploymentStatusRequest extends Credentials where
  deploymentID : String := ""
  siteID : String := ""
  status : String := ""
  actualState : String := ""
  message : String := ""

structure RollbackRequest extends Credentials where
  deploymentID : String := ""
  siteID : String := ""
  reason : String := ""

def agentDeployment (s : Server) (deploymentID siteID : String) : Except TwinReply Deployment :=
  match s.store.deployment deploymentID with
  | none => .error { code := 404, error := "deployment not found" }
  | some dep =>
    if dep.siteID ≠ siteID then .error { code := 403, error := "deployment belongs to another site" }
    else .ok dep

def updateDeployment (env : Env) (id : String) (fn : Time → Deployment → Deployment) :
    AgentProc (Option TwinReply) :=
  .access .updateDeployment fun choice s =>
    let updated := storeCall env choice s (s.store.deployment id).isSome
      (.updateDeployment id (fn choice.now))
    (updated.1, updated.2.map fun _ => { code := 404, error := "deployment not found" })

def DeploymentStatusRequest.deployment (r : DeploymentStatusRequest) (now : Time) (d : Deployment) :
    Deployment :=
  { d with
    status := r.status
    actualState := if r.actualState = "" then d.actualState else r.actualState
    updatedAt := now }

def agentDeploymentStatus (env : Env) (r : DeploymentStatusRequest) :
    AgentProc (Except TwinReply Unit) := do
  match ← arrive env r.toCredentials r.siteID with
  | some reply => pure (.error reply)
  | none =>
  match ← .read .read (agentDeployment · r.deploymentID r.siteID) with
  | .error reply => pure (.error reply)
  | .ok _ =>
  match ← updateDeployment env r.deploymentID r.deployment with
  | some reply => pure (.error reply)
  | none => do
    if r.status = "failed" then raiseAlert env r.siteID "deployment_failed" r.message
    pure (.ok ())

def rolledBack (now : Time) (d : Deployment) : Deployment :=
  { d with
    image := d.lastGoodImage
    version := d.lastGoodVersion
    lastGoodImage := ""
    lastGoodVersion := ""
    desiredState := "running"
    status := "queued"
    deployedAt := now
    updatedAt := now }

def agentDeploymentRollback (env : Env) (r : RollbackRequest) : AgentProc (Except TwinReply Bool) := do
  match ← arrive env r.toCredentials r.siteID with
  | some reply => pure (.error reply)
  | none =>
  match ← .read .read (agentDeployment · r.deploymentID r.siteID) with
  | .error reply => pure (.error reply)
  | .ok dep =>
  if dep.lastGoodImage = "" then do
    raiseAlert env r.siteID "deployment_rollback" ("deployment " ++ dep.name ++
      " is unhealthy but has no known-good version to roll back to: " ++ r.reason)
    pure (.ok false)
  else
  match ← updateDeployment env r.deploymentID rolledBack with
  | some reply => pure (.error reply)
  | none => do
    raiseAlert env r.siteID "deployment_rollback" ("deployment " ++ dep.name ++ " rolled back from " ++
      dep.image ++ " to " ++ dep.lastGoodImage ++ ": " ++ r.reason)
    pure (.ok true)

section

def eventSteps (env : Env) (request : Request) : Nat → Handler.Progress → AgentProc Unit
  | 0, _ => pure ()
  | left + 1, progress => do
    match ← .access (.event left) fun choice s =>
        let step := Handler.next env choice s request progress
        (step.1.run env s, step.2) with
    | none => pure ()
    | some progress => eventSteps env request left progress

variable {β : Type} {env : Env} {s : Server} {request : Request} {f : State → β}

theorem state_next (h : ∀ st v, f ((Store.Mutation.eventAdd v).update st) = f st) (choice : Choice)
    (progress : Handler.Progress) :
    f ((Handler.next env choice s request progress).1.run env s).store.state = f s.store.state := by
  have hadd (ev : Event) : f ((s.store.call env.codecs (.addEvent ev)).toOption.getD s.store).state =
      f s.store.state := by
    refine Store.state_call f fun m hplan => ?_
    simp only [Store.plan] at hplan
    split at hplan
    · cases hplan
    · cases hplan
      exact h _ _
  have hingest (call : Ingest) (progress : Ingest.Progress) :
      f ((Ingest.next env choice s call progress).1.run env s).store.state = f s.store.state := by
    fun_cases Ingest.next env choice s call progress <;> first | rfl | exact hadd _
  fun_cases Handler.next env choice s request progress <;> first | rfl | exact hingest _ _

theorem state_eventSteps (h : ∀ st v, f ((Store.Mutation.eventAdd v).update st) = f st)
    (oracle : AgentPoint → Choice) (left : Nat) (progress : Handler.Progress) :
    f ((eventSteps env request left progress).eval oracle s).1.store.state = f s.store.state := by
  induction left generalizing s progress with
  | zero => rfl
  | succ left ih =>
    simp only [eventSteps, eval_bind, eval_access]
    cases (Handler.next env (oracle (.event left)) s request progress).2 with
    | none => exact state_next h _ _
    | some next => exact (ih next).trans (state_next h _ _)

end

/-- The requests of an agent.  Of the requests with events `steps` calls are made. -/
inductive AgentRequest where
  | registerDevice (r : DeviceRequest)
  | heartbeat (r : HeartbeatRequest)
  | events (r : Request) (steps : Nat)
  | twinReported (r : ReportedRequest)
  | otaStatus (r : StatusRequest)
  | deploymentStatus (r : DeploymentStatusRequest)
  | deploymentRollback (r : RollbackRequest)

def AgentRequest.program (env : TwinEnv) : AgentRequest → AgentProc Unit
  | .registerDevice r => do let _ ← Server.registerDevice env.toEnv r
  | .heartbeat r => do let _ ← Server.heartbeat env.toEnv r
  | .events r steps => eventSteps env.toEnv r steps .arrive
  | .twinReported r => do let _ ← agentTwinReportedProc env.toEnv r
  | .otaStatus r => do let _ ← (agentOTAStatusProc env r).relabel AgentPoint.campaign
  | .deploymentStatus r => do let _ ← agentDeploymentStatus env.toEnv r
  | .deploymentRollback r => do let _ ← agentDeploymentRollback env.toEnv r

def AgentRequest.siteID : AgentRequest → String
  | .registerDevice r => r.device.siteID
  | .heartbeat r => r.siteID
  | .events r _ => r.siteID
  | .twinReported r => r.siteID
  | .otaStatus r => r.siteID
  | .deploymentStatus r => r.siteID
  | .deploymentRollback r => r.siteID

/-- What a request makes of the server, with a choice for each of its calls. -/
def AgentRequest.run (env : TwinEnv) (oracle : AgentPoint → Choice) (s : Server) (r : AgentRequest) :
    Server :=
  ((r.program env).eval oracle s).1

end Nodra.Server
