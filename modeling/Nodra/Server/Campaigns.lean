import Nodra.Lib.Program
import Nodra.Server.Twins

/-! OTA campaigns in file mode: the handlers as programs, one store call at a time. -/
namespace Nodra.Server
open Model Std Interleave

def otaCampaignDraft : String := "draft"
def otaCampaignRunning : String := "running"
def otaCampaignPaused : String := "paused"
def otaCampaignCompleted : String := "completed"
def otaCampaignAborted : String := "aborted"

/-- Which refresh of a request: one before the wave, one at the end, or one for each
campaign of a device. -/
inductive Pass where
  | early
  | final
  | device (campaignID : String)
deriving DecidableEq

inductive Point where
  | read
  | add
  | issue (deviceID : String)
  | clear (pass : Pass) (deviceID : String)
  | alert (pass : Pass)
  | refresh (pass : Pass) (campaignID status : String)
  | save (campaignID status : String)
  | arrive
  | record
  | statusAlert
deriving DecidableEq

structure Label where
  point : Point
  held : List String := []
deriving DecidableEq

abbrev Proc := Program Label Server Choice

def lookup {α : Type} (f : Server → α) : Proc α := .read { point := .read } f

def write {α : Type} (point : Point) (f : Choice → Server → Server × α) : Proc α :=
  .access { point } f

def holding {α : Type} (ids : List String) (p : Proc α) : Proc α :=
  p.relabel fun label => { label with held := ids }

@[simp] theorem eval_lookup {α : Type} (oracle : Label → Choice) (f : Server → α) (s : Server) :
    (lookup f).eval oracle s = (s, f s) := rfl

@[simp] theorem eval_write {α : Type} (oracle : Label → Choice) (point : Point)
    (f : Choice → Server → Server × α) (s : Server) :
    (write point f).eval oracle s = f (oracle { point }) s := rfl

@[simp] theorem eval_holding {α : Type} (oracle : Label → Choice) (ids : List String) (p : Proc α)
    (s : Server) : (holding ids p).eval oracle s =
      p.eval (fun label => oracle { label with held := ids }) s :=
  Program.eval_relabel oracle _ p s

/-- A request about a campaign; `caller` says which sites the caller may see or change. -/
structure CampaignRequest where
  campaignID : String := ""
  caller : String → Bool

structure CampaignReply where
  code : Nat
  error : String := ""
  campaign : Option OTACampaign := none
deriving DecidableEq

def addNew (out : List String) (id : String) : List String :=
  if id = "" ∨ id ∈ out then out else out ++ [id]

def campaignSiteIDs (c : OTACampaign) : List String :=
  (c.siteIDs ++ c.devices.map OTACampaignDevice.siteID).foldl addNew []

def callerCanSeeCampaign (r : CampaignRequest) (c : OTACampaign) : Bool :=
  (campaignSiteIDs c).all r.caller

def callerCanMutateCampaign (r : CampaignRequest) (c : OTACampaign) : Bool :=
  match campaignSiteIDs c with
  | [] => if c.siteIDs.isEmpty then r.caller "" else c.siteIDs.all r.caller
  | sites => sites.all r.caller

def firstSite (c : OTACampaign) : String :=
  match campaignSiteIDs c with
  | [] => c.siteIDs.headD ""
  | site :: _ => site

def campaignNotFound : CampaignReply := { code := 404, error := "campaign not found" }

def loadCampaign (campaignID : String) (can : OTACampaign → Bool) : Proc (Option OTACampaign) :=
  lookup fun s => (s.store.otaCampaign campaignID).filter can

def loadMutableCampaign (r : CampaignRequest) : Proc (Option OTACampaign) :=
  loadCampaign r.campaignID (callerCanMutateCampaign r)

def withCampaign (load : Proc (Option OTACampaign)) (body : OTACampaign → Proc CampaignReply) :
    Proc CampaignReply := do
  match ← load with
  | none => pure campaignNotFound
  | some c => holding [c.id] (body c)

def updateOTACampaign (env : Env) (choice : Choice) (s : Server) (id : String)
    (fn : OTACampaign → OTACampaign) : Server × Option String :=
  match choice.error with
  | some err => (s, some err)
  | none =>
    match s.store.otaCampaign id with
    | none => (s, some "file does not exist")
    | some _ => ((Action.storeCall (.updateOTACampaign id fn)).run env s, none)

/-- A handler stores its copy, as `merge` combines it with the stored campaign. -/
def saveWith (env : Env) (merge : OTACampaign → OTACampaign → OTACampaign) (c : OTACampaign) :
    Proc (Except String OTACampaign) :=
  write (.save c.id c.status) fun choice s =>
    let c := { c with updatedAt := choice.now }
    let updated := updateOTACampaign env choice s c.id (merge c)
    (updated.1, match updated.2 with | some err => .error err | none => .ok c)

def saveCampaign (env : Env) : OTACampaign → Proc (Except String OTACampaign) :=
  saveWith env fun c _ => c

def saveStatus (env : Env) : OTACampaign → Proc (Except String OTACampaign) :=
  saveWith env fun c out => { out with status := c.status, updatedAt := c.updatedAt }

structure CampaignInput where
  name : String := ""
  siteIDs : List String := []
  deviceIDs : List String := []
  stages : List OTACampaignStage := []
  manifest : Ota.Manifest := {}
  policy : Ota.Policy := {}
  failureThresholdPercent : Option Int := none

def CampaignInput.campaign (raw : CampaignInput) : OTACampaign where
  name := raw.name
  siteIDs := raw.siteIDs
  deviceIDs := raw.deviceIDs
  stages := raw.stages
  manifest := raw.manifest
  policy := raw.policy
  failureThresholdPercent := raw.failureThresholdPercent.getD 10

def stagesError : Nat → Int → List OTACampaignStage → Option String
  | _, _, [] => none
  | i, prev, st :: stages =>
    if st.canaryPercent < 1 ∨ st.canaryPercent > 100 then
      some ("stages[" ++ toString i ++ "].canary_percent must be between 1 and 100")
    else if st.canaryPercent ≤ prev then
      some ("stages[" ++ toString i ++ "].canary_percent must be strictly increasing")
    else stagesError (i + 1) st.canaryPercent stages

def validateOTACampaignInput (env : Ota.Env) (c : OTACampaign) : Option String :=
  if Ota.trimSpace c.name = "" then some "name is required"
  else if c.siteIDs.isEmpty ∧ c.deviceIDs.isEmpty then some "site_ids or device_ids is required"
  else if c.stages.isEmpty then some "stages is required"
  else Ota.firstError [
    stagesError 0 0 c.stages,
    if (c.stages.getLast?.map OTACampaignStage.canaryPercent) ≠ some 100 then
      some "final stage canary_percent must be 100"
    else none,
    c.manifest.validate env,
    match c.policy.healthTimeoutDuration env with
    | .error err => some err
    | .ok _ => none,
    if c.failureThresholdPercent < 0 ∨ c.failureThresholdPercent > 100 then
      some "failure_threshold_percent must be between 0 and 100"
    else none]

def campaignDevice (env : Ota.Env) (c : OTACampaign) (deviceID : String) : Proc (Except String Device) := do
  match ← lookup (·.store.device deviceID) with
  | none => pure (.error ("device " ++ env.quote deviceID ++ " not found"))
  | some dev =>
    if c.siteIDs ≠ [] ∧ dev.siteID ∉ c.siteIDs then
      pure (.error ("device " ++ env.quote deviceID ++ " is not in the campaign site_ids"))
    else pure (.ok dev)

def addCampaignSite (env : Ota.Env) (out : List String) (siteID : String) :
    Proc (Except String (List String)) :=
  if siteID = "" then pure (.error "empty site_id")
  else do
    match ← lookup (·.store.site siteID) with
    | none => pure (.error ("site " ++ env.quote siteID ++ " not found"))
    | some _ => pure (.ok (addNew out siteID))

def sitesOfSites (env : Ota.Env) (out : List String) : List String → Proc (Except String (List String))
  | [] => pure (.ok out)
  | siteID :: rest => do
    match ← addCampaignSite env out siteID with
    | .error err => pure (.error err)
    | .ok out => sitesOfSites env out rest

def sitesOfDevices (env : Ota.Env) (c : OTACampaign) (out : List String) :
    List String → Proc (Except String (List String))
  | [] => pure (.ok out)
  | deviceID :: rest => do
    match ← campaignDevice env c deviceID with
    | .error err => pure (.error err)
    | .ok dev =>
      match ← addCampaignSite env out dev.siteID with
      | .error err => pure (.error err)
      | .ok out => sitesOfDevices env c out rest

def resolveCampaignSiteIDs (env : Ota.Env) (c : OTACampaign) : Proc (Except String (List String)) := do
  match ← sitesOfSites env [] c.siteIDs with
  | .error err => pure (.error err)
  | .ok out => sitesOfDevices env c out c.deviceIDs

def otaCampaignCreate (env : TwinEnv) (caller : String → Bool) (raw : CampaignInput) :
    Proc CampaignReply := do
  match ← write .arrive fun choice s => (s, choice.error) with
  | some err => pure { code := 400, error := "invalid JSON: " ++ err }
  | none =>
  match validateOTACampaignInput env.ota raw.campaign with
  | some err => pure { code := 400, error := err }
  | none =>
  match ← resolveCampaignSiteIDs env.ota raw.campaign with
  | .error err => pure { code := 400, error := err }
  | .ok sites =>
  if sites.all caller then
    write .add fun choice s =>
      let c := { raw.campaign with
        id := choice.id
        status := otaCampaignDraft
        currentStage := -1
        createdAt := choice.now
        updatedAt := choice.now }
      match choice.error with
      | some err => (s, { code := 507, error := err })
      | none => ((Action.storeCall (.addOTACampaign c)).run env.toEnv s, { code := 201, campaign := c })
  else
    pure { code := 403, error := "an org-scoped token may only create campaigns for its own org's sites" }

/-- `none` is a map without the key, `some none` a value that is no request. -/
def otaRequestFromDesired (env : TwinEnv) (desired : ExtTreeMap String Any) :
    Option (Option Ota.Request) :=
  desired[otaTwinKey]?.map env.request.ofAny

def inFlight (env : TwinEnv) (updateID : String) (tw : Twin) : Bool :=
  match otaRequestFromDesired env tw.desired with
  | some (some req) => req.updateID = "" || req.updateID = updateID
  | _ => false

def clearRequest (env : TwinEnv) (updateID : String) (now : Time) (tw : Twin) : Twin :=
  if inFlight env updateID tw then
    { tw with
      desired := tw.desired.erase otaTwinKey
      desiredVersion := tw.desiredVersion + 1
      updatedAt := now }
  else tw

def clearDevice (env : TwinEnv) (choice : Choice) (s : Server) (dev : Device) (updateID : String) :
    Server :=
  (updateTwin env.toEnv choice s dev.id (clearRequest env updateID choice.now) fun tw =>
    if inFlight env updateID tw then { tw with desired := tw.desired.erase otaTwinKey } else tw).1

def finished (state : Ota.State) : Bool :=
  state = .committed || state = .failed || state = .rolledBack

def clearInFlightCampaignOTA (env : TwinEnv) (pass : Pass) : List OTACampaignDevice → Proc Unit
  | [] => pure ()
  | d :: rest =>
    if finished d.state then clearInFlightCampaignOTA env pass rest
    else do
      match ← lookup (·.store.device d.deviceID) with
      | none => clearInFlightCampaignOTA env pass rest
      | some dev => do
        write (.clear pass d.deviceID) fun choice s => (clearDevice env choice s dev d.updateID, ())
        clearInFlightCampaignOTA env pass rest

structure Tally where
  devices : List OTACampaignDevice := []
  changed : Bool := false
  failed : Nat := 0
  committed : Nat := 0

def outcome (env : TwinEnv) (s : Server) (d : OTACampaignDevice) : Option Ota.State :=
  match (s.store.twin d.deviceID).bind fun tw => otaStatusFromReported env tw.reported with
  | some (some st) => if st.updateID ≠ "" ∧ st.updateID ≠ d.updateID then none else some st.state
  | _ => none

def Tally.count (t : Tally) (d : OTACampaignDevice) : Option Ota.State → Tally
  | none => { t with devices := t.devices ++ [d] }
  | some state =>
    { devices := t.devices ++ [{ d with state }]
      changed := t.changed || d.state ≠ state
      failed := if state = .failed ∨ state = .rolledBack then t.failed + 1 else t.failed
      committed := if state = .committed then t.committed + 1 else t.committed }

def tally (env : TwinEnv) (t : Tally) : List OTACampaignDevice → Proc Tally
  | [] => pure t
  | d :: rest => do
    let state ← lookup fun s => outcome env s d
    tally env (t.count d state) rest

def Tally.aborts (t : Tally) (c : OTACampaign) : Bool :=
  t.devices.length > 0 && t.failed > 0 &&
    (t.failed * 100 / t.devices.length : Nat) ≥ c.failureThresholdPercent

def Tally.completes (t : Tally) (c : OTACampaign) : Bool :=
  c.status = otaCampaignRunning && c.currentStage = c.stages.length - 1 &&
    t.devices.length > 0 && t.committed = t.devices.length &&
      t.devices.length = c.targetDeviceIDs.length

def campaignAlert (choice : Choice) (c : OTACampaign) (t : Tally) : Alert where
  id := choice.id
  siteID := firstSite c
  severity := "high"
  type := "ota_campaign_aborted"
  message := "OTA campaign " ++ c.name ++ " aborted: failure threshold " ++
    toString c.failureThresholdPercent ++ "% exceeded (" ++ toString t.failed ++ "/" ++
    toString t.devices.length ++ ")"
  createdAt := choice.now

def alertCampaign (env : Env) (choice : Choice) (s : Server) (c : OTACampaign) (t : Tally) : Server :=
  if choice.error.isSome then s
  else (Action.storeCall (.addAlert (campaignAlert choice c t))).run env s

def campaignEnded (status : String) : Bool :=
  status = otaCampaignCompleted || status = otaCampaignAborted

def stamped (choice : Choice) (c : OTACampaign) : OTACampaign :=
  if campaignEnded c.status then { c with updatedAt := choice.now } else c

/-- The error of the update is dropped.  Where the copy shares its devices with the stored
campaign, their states have changed in memory even so. -/
def storeRefreshed (env : Env) (choice : Choice) (s : Server) (shared : Bool) (c : OTACampaign) :
    Server :=
  let updated := updateOTACampaign env choice s c.id fun _ => stamped choice c
  if updated.2.isSome ∧ shared then
    { updated.1 with store := updated.1.store.touchDevices c.id c.devices }
  else updated.1

def refreshed (env : Env) (pass : Pass) (shared : Bool) (c : OTACampaign) : Proc OTACampaign := do
  write (.refresh pass c.id c.status) fun choice s => (storeRefreshed env choice s shared c, ())
  let latest ← lookup (·.store.otaCampaign c.id)
  pure (latest.getD c)

/-- `shared` says whether the copy comes from the store as it is, and not through JSON. -/
def refreshOTACampaign (env : TwinEnv) (pass : Pass) (shared : Bool) (c : OTACampaign) :
    Proc OTACampaign :=
  if c.status ≠ otaCampaignRunning ∧ c.status ≠ otaCampaignPaused then pure c
  else do
    let t ← tally env {} c.devices
    let c := { c with devices := t.devices }
    if t.aborts c then
      let c := { c with status := otaCampaignAborted }
      clearInFlightCampaignOTA env pass c.devices
      write (.alert pass) fun choice s => (alertCampaign env.toEnv choice s c t, ())
      refreshed env.toEnv pass shared c
    else if t.completes c then
      refreshed env.toEnv pass shared { c with status := otaCampaignCompleted }
    else if t.changed then refreshed env.toEnv pass shared c
    else pure c

def otaCampaignGet (env : TwinEnv) (r : CampaignRequest) : Proc CampaignReply :=
  withCampaign (loadCampaign r.campaignID (callerCanSeeCampaign r)) fun c => do
    let c ← refreshOTACampaign env .final true c
    pure { code := 200, campaign := c }

def concerns (deviceID : String) (st : Ota.Status) (c : OTACampaign) : Bool :=
  (c.status = otaCampaignRunning || c.status = otaCampaignPaused) &&
    c.devices.any fun d => d.deviceID = deviceID && (st.updateID = "" || st.updateID = d.updateID)

def syncCampaigns (env : TwinEnv) : List OTACampaign → Proc Unit
  | [] => pure ()
  | c :: rest => do
    let _ ← holding ((c :: rest).map OTACampaign.id) (refreshOTACampaign env (.device c.id) false c)
    syncCampaigns env rest

def syncOTACampaignsForDevice (env : TwinEnv) (deviceID : String) (st : Ota.Status) : Proc Unit := do
  let campaigns ← lookup fun s => s.store.state.otaCampaigns.filter (concerns deviceID st)
  syncCampaigns env campaigns

/-- The whole of `agentOTAStatus`: the report, and the campaigns that it concerns. -/
def agentOTAStatusProc (env : TwinEnv) (r : StatusRequest) : Proc TwinReply := do
  match ← write .arrive fun choice s => (s, refusal env.toEnv choice s r.toCredentials r.siteID) with
  | some reply => pure reply
  | none =>
  match ← lookup (agentDevice · r.deviceID r.siteID) with
  | .error reply => pure reply
  | .ok dev =>
  match r.checked env dev with
  | .error reply => pure reply
  | .ok status =>
  match ← write .record fun choice s => recordStatus env choice s dev r.siteID status with
  | .error reply => pure reply
  | .ok tw => do
    write .statusAlert fun choice s => (alertStatus env choice s dev r.siteID status, ())
    syncOTACampaignsForDevice env dev.id status
    pure { code := 200, twin := tw }

def selectedDevices (c : OTACampaign) : List String :=
  (c.devices.map OTACampaignDevice.deviceID).dedup

def waveWant (targets : Nat) (percent : Int) : Int :=
  let want := (targets * percent + 99).tdiv 100
  let want := if want < 1 ∧ targets > 0 then 1 else want
  if want > targets then targets else want

def campaignUpdateID (campaignID deviceID : String) : String := campaignID ++ "-" ++ deviceID

def campaignOTARequest (c : OTACampaign) (dev : Device) (deviceID : String) : Ota.Request where
  updateID := campaignUpdateID c.id deviceID
  deviceID
  siteID := dev.siteID
  manifest := c.manifest
  policy := c.policy

def selectDevice (c : OTACampaign) (dev : Device) (deviceID : String) : OTACampaign :=
  { c with devices := c.devices ++ [{
      deviceID
      siteID := dev.siteID
      updateID := campaignUpdateID c.id deviceID
      stage := c.currentStage }] }

def issueWave (env : TwinEnv) (c : OTACampaign) (need : Int) :
    List String → Proc (Except String OTACampaign)
  | [] => pure (.ok c)
  | deviceID :: rest =>
    if need ≤ 0 then pure (.ok c)
    else if deviceID ∈ selectedDevices c then issueWave env c need rest
    else do
      match ← lookup (·.store.device deviceID) with
      | none => pure (.error ("device " ++ env.ota.quote deviceID ++ " not found"))
      | some dev =>
        match ← write (.issue deviceID) fun choice s =>
          setDeviceOTADesired env choice s dev (campaignOTARequest c dev deviceID) with
        | .error err => pure (.error err)
        | .ok _ => issueWave env (selectDevice c dev deviceID) (need - 1) rest

def stagePercent (c : OTACampaign) : Option Int :=
  if c.currentStage < 0 then none
  else c.stages[c.currentStage.toNat]?.map OTACampaignStage.canaryPercent

def applyCampaignWave (env : TwinEnv) (c : OTACampaign) : Proc (Except String OTACampaign) :=
  match stagePercent c with
  | none => pure (.error "invalid current stage")
  | some percent =>
    let need := waveWant c.targetDeviceIDs.length percent - (selectedDevices c).length
    if need ≤ 0 then pure (.ok c) else issueWave env c need c.targetDeviceIDs

def targetsOfDevices (env : Ota.Env) (c : OTACampaign) (out : List String) :
    List String → Proc (Except String (List String))
  | [] => pure (.ok out)
  | deviceID :: rest => do
    match ← campaignDevice env c deviceID with
    | .error err => pure (.error err)
    | .ok dev => targetsOfDevices env c (if dev.id ∈ out then out else out ++ [dev.id]) rest

def targetsOfSites (c : OTACampaign) (devices : List Device) : List String :=
  (devices.filter fun dev => dev.siteID ∈ c.siteIDs).foldl
    (fun out dev => if dev.id ∈ out then out else out ++ [dev.id]) []

def sortStrings (out : List String) : List String := out.insertionSort (· ≤ ·)

def resolveCampaignTargets (env : Ota.Env) (c : OTACampaign) : Proc (Except String (List String)) := do
  if c.deviceIDs ≠ [] then
    match ← targetsOfDevices env c [] c.deviceIDs with
    | .error err => pure (.error err)
    | .ok out => pure (.ok (sortStrings out))
  else
    let devices ← lookup (·.store.state.devices)
    pure (.ok (sortStrings (targetsOfSites c devices)))

/-- The end of `otaCampaignStart` and `otaCampaignPromote`: the wave, the copy stored, and a
refresh. -/
def advanceCampaign (env : TwinEnv) (c : OTACampaign) : Proc CampaignReply := do
  match ← applyCampaignWave env c with
  | .error err => pure { code := 507, error := err }
  | .ok c =>
  match ← saveCampaign env.toEnv c with
  | .error err => pure { code := 507, error := err }
  | .ok c =>
    let c ← refreshOTACampaign env .final false c
    pure { code := 200, campaign := c }

def startCampaign (env : TwinEnv) (c : OTACampaign) : Proc CampaignReply := do
  if c.status = otaCampaignPaused then
    pure { code := 409, error := "campaign is paused; use POST .../resume" }
  else if c.status ≠ otaCampaignDraft then
    pure { code := 409, error := "campaign must be draft to start" }
  else
  match ← resolveCampaignTargets env.ota c with
  | .error err => pure { code := 400, error := err }
  | .ok targets =>
    if targets = [] then pure { code := 400, error := "campaign has no target devices" }
    else
      advanceCampaign env
        { c with targetDeviceIDs := targets, currentStage := 0, status := otaCampaignRunning }

def promoteCampaign (env : TwinEnv) (c : OTACampaign) : Proc CampaignReply := do
  let c ← refreshOTACampaign env .early true c
  if c.status ≠ otaCampaignRunning then
    pure { code := 409, error := "campaign must be running to promote" }
  else if c.currentStage < 0 ∨ c.currentStage ≥ c.stages.length - 1 then
    pure { code := 409, error := "campaign is already on the final stage" }
  else advanceCampaign env { c with currentStage := c.currentStage + 1 }

def otaCampaignStart (env : TwinEnv) (r : CampaignRequest) : Proc CampaignReply :=
  withCampaign (loadMutableCampaign r) (startCampaign env)

def otaCampaignPromote (env : TwinEnv) (r : CampaignRequest) : Proc CampaignReply :=
  withCampaign (loadMutableCampaign r) (promoteCampaign env)

def replySaved : Except String OTACampaign → CampaignReply
  | .error err => { code := 507, error := err }
  | .ok c => { code := 200, campaign := c }

def otaCampaignAbort (env : TwinEnv) (r : CampaignRequest) : Proc CampaignReply :=
  withCampaign (loadMutableCampaign r) fun c => do
    if campaignEnded c.status then pure { code := 409, error := "campaign is already " ++ c.status }
    else
      let c := { c with status := otaCampaignAborted }
      clearInFlightCampaignOTA env .final c.devices
      let saved ← saveStatus env.toEnv c
      pure (replySaved saved)

def otaCampaignPause (env : TwinEnv) (r : CampaignRequest) : Proc CampaignReply :=
  withCampaign (loadMutableCampaign r) fun c => do
    if c.status ≠ otaCampaignRunning then
      pure { code := 409, error := "campaign must be running to pause" }
    else
      let saved ← saveStatus env.toEnv { c with status := otaCampaignPaused }
      pure (replySaved saved)

def otaCampaignResume (env : TwinEnv) (r : CampaignRequest) : Proc CampaignReply :=
  withCampaign (loadMutableCampaign r) fun c => do
    if c.status ≠ otaCampaignPaused then
      pure { code := 409, error := "campaign must be paused to resume" }
    else
      match ← saveStatus env.toEnv { c with status := otaCampaignRunning } with
      | .error err => pure { code := 507, error := err }
      | .ok c =>
        let c ← refreshOTACampaign env .final false c
        pure { code := 200, campaign := c }

end Nodra.Server
