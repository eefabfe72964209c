import Nodra.Ota.StateMachine
import Nodra.Server.Model

/-! The handlers that write device twins: reports of the agents, and requests for an
update or another desired state. -/
namespace Nodra.Server
open Model Std

structure AnyCodec (α : Type) where
  toAny : α → Any
  ofAny : Any → Option α
  ofAny_toAny : ∀ x, ofAny (toAny x) = some x

structure TwinEnv extends Env where
  ota : Ota.Env
  status : AnyCodec Ota.Status
  request : AnyCodec Ota.Request

structure TwinReply where
  code : Nat
  error : String := ""
  twin : Option Twin := none
deriving DecidableEq

def otaTwinKey : String := "ota"

/-- `none` is a map without the key, `some none` a value that is no status. -/
def otaStatusFromReported (env : TwinEnv) (reported : ExtTreeMap String Any) :
    Option (Option Ota.Status) :=
  reported[otaTwinKey]?.map env.status.ofAny

section

/-- What a map of a stored twin is after a write to its copy: Go shares maps, but one that
is empty is nil in a stored twin, and is made anew. -/
def writeShared (m : ExtTreeMap String Any) (key : String) (value : Any) : ExtTreeMap String Any :=
  if m.isEmpty then m else m.insert key value

theorem getElem?_writeShared (m : ExtTreeMap String Any) (key : String) (value : Any) :
    (writeShared m key value)[key]? = if m.isEmpty then m[key]? else some value := by
  unfold writeShared
  split
  · rfl
  · simp

/-- `UpdateTwin`, with the error of its append.  `shared` is what the callback does to the
maps of the stored twin, which it does in any case. -/
def updateTwin (env : Env) (choice : Choice) (s : Server) (deviceID : String)
    (fn shared : Twin → Twin) : Server × Option String :=
  match choice.error with
  | none => ((Action.storeCall (.updateTwin deviceID fn)).run env s, none)
  | some err => ({ s with store := s.store.touchTwin deviceID shared }, some err)

def currentTwin (s : Server) (deviceID : String) : Twin :=
  (s.store.twin deviceID).getD { deviceID }

def replyUpdate (env : Env) (choice : Choice) (s : Server) (deviceID : String) (fn : Twin → Twin) :
    Server × TwinReply :=
  let updated := updateTwin env choice s deviceID fn id
  match updated.2 with
  | some err => (updated.1, { code := 507, error := err })
  | none => (updated.1, { code := 200, twin := fn (currentTwin s deviceID) })

variable {env : Env} {choice : Choice} {s : Server} {deviceID other : String} {fn shared : Twin → Twin}

@[simp] theorem updateTwin_snd : (updateTwin env choice s deviceID fn shared).2 = choice.error := by
  unfold updateTwin
  split <;> simp [*]

theorem twin_updateTwin (hfn : ∀ v, v.deviceID = deviceID → (fn v).deviceID = deviceID)
    (hshared : ∀ v, (shared v).deviceID = v.deviceID) :
    (updateTwin env choice s deviceID fn shared).1.store.twin other =
      if deviceID = other then
        if choice.error.isNone then some (fn (currentTwin s deviceID))
        else (s.store.twin deviceID).map shared
      else s.store.twin other := by
  unfold updateTwin
  cases choice.error with
  | some err => exact Store.twin_touchTwin hshared other
  | none =>
    have hstore : ((Action.storeCall (.updateTwin deviceID fn)).run env s).store =
        s.store.mutate env.codecs (.twinSet (fn (currentTwin s deviceID))) := by
      simp only [Action.run, Action.store, Store.call, Store.updateTwin_eq hfn]
      rfl
    have hkey : (fn (currentTwin s deviceID)).deviceID = deviceID :=
      hfn _ (Store.deviceID_getD_twin s.store deviceID)
    simp only [hstore, Store.twin_mutate_twinSet, hkey]
    rfl

end

structure StatusRequest extends Credentials where
  siteID : String := ""
  deviceID : String := ""
  status : Ota.Status := {}

structure ReportedRequest extends Credentials where
  siteID : String := ""
  deviceID : String := ""
  reported : ExtTreeMap String Any := ∅

/-- How the handlers of agents begin, before they look for the device: `some` refuses. -/
def refusal (env : Env) (choice : Choice) (s : Server) (r : Credentials) (siteID : String) :
    Option TwinReply :=
  match choice.error with
  | some err => some { code := 400, error := "invalid JSON: " ++ err }
  | none =>
    if (agentSite env s r siteID).isNone then some { code := 401, error := "unauthorized agent" }
    else none

def agentDevice (s : Server) (deviceID siteID : String) : Except TwinReply Device :=
  match s.store.device deviceID with
  | none => .error { code := 404, error := "device not found" }
  | some dev =>
    if dev.siteID ≠ siteID then .error { code := 404, error := "device not found" } else .ok dev

def StatusRequest.checked (env : TwinEnv) (r : StatusRequest) (dev : Device) :
    Except TwinReply Ota.Status :=
  let status := { r.status with deviceID := dev.id }
  match status.validate env.ota with
  | some err => .error { code := 400, error := err }
  | none => .ok status

def transitionError (env : TwinEnv) (cur : Twin) (status : Ota.Status) : Option String :=
  match otaStatusFromReported env cur.reported with
  | some (some prev) => Ota.validateTransition env.ota prev.state status.state
  | _ => none

def withStatus (env : TwinEnv) (dev : Device) (siteID : String) (status : Ota.Status) (now : Time)
    (cur : Twin) : Twin :=
  { cur with
    deviceID := dev.id
    siteID
    reported := cur.reported.insert otaTwinKey (env.status.toAny status)
    reportedVersion := cur.reportedVersion + 1
    updatedAt := now }

/-- The update of `agentOTAStatus`.  After an objection the twin is written as it was. -/
def recordStatus (env : TwinEnv) (choice : Choice) (s : Server) (dev : Device) (siteID : String)
    (status : Ota.Status) : Server × Except TwinReply Twin :=
  match transitionError env (currentTwin s dev.id) status with
  | some err => ((updateTwin env.toEnv choice s dev.id id id).1, .error { code := 409, error := err })
  | none =>
    let fn := withStatus env dev siteID status choice.now
    let shared (v : Twin) :=
      { v with reported := writeShared v.reported otaTwinKey (env.status.toAny status) }
    let updated := updateTwin env.toEnv choice s dev.id fn shared
    match updated.2 with
    | some err => (updated.1, .error { code := 507, error := err })
    | none => (updated.1, .ok (fn (currentTwin s dev.id)))

def statusAlert (choice : Choice) (dev : Device) (siteID : String) (status : Ota.Status) : Alert where
  id := choice.id
  siteID
  severity := "high"
  type := "ota_" ++ status.state.text
  message := "OTA update " ++ status.updateID ++ " for device " ++ dev.id ++ ": " ++
    status.state.text ++ " (" ++ status.lastError ++ ")"
  createdAt := choice.now

def alertStatus (env : TwinEnv) (choice : Choice) (s : Server) (dev : Device) (siteID : String)
    (status : Ota.Status) : Server :=
  if status.state = .failed ∨ status.state = .rolledBack then
    if choice.error.isSome then s
    else (Action.storeCall (.addAlert (statusAlert choice dev siteID status))).run env.toEnv s
  else s

/-- `agentOTAStatus`, with a choice for the request, the update and the alert. -/
def agentOTAStatus (env : TwinEnv) (arrival update alert : Choice) (s : Server) (r : StatusRequest) :
    Server × TwinReply :=
  match refusal env.toEnv arrival s r.toCredentials r.siteID with
  | some reply => (s, reply)
  | none =>
    match agentDevice s r.deviceID r.siteID with
    | .error reply => (s, reply)
    | .ok dev =>
      match r.checked env dev with
      | .error reply => (s, reply)
      | .ok status =>
        let recorded := recordStatus env update s dev r.siteID status
        match recorded.2 with
        | .error reply => (recorded.1, reply)
        | .ok tw => (alertStatus env alert recorded.1 dev r.siteID status, { code := 200, twin := tw })

def withReported (dev : Device) (siteID : String) (reported : ExtTreeMap String Any) (now : Time)
    (cur : Twin) : Twin :=
  { cur with
    deviceID := dev.id
    siteID
    reported
    reportedVersion := cur.reportedVersion + 1
    updatedAt := now }

def recordReported (env : Env) (choice : Choice) (s : Server) (dev : Device) (r : ReportedRequest) :
    Server × TwinReply :=
  replyUpdate env choice s dev.id (withReported dev r.siteID r.reported choice.now)

def agentTwinReported (env : Env) (arrival update : Choice) (s : Server) (r : ReportedRequest) :
    Server × TwinReply :=
  match refusal env arrival s r.toCredentials r.siteID with
  | some reply => (s, reply)
  | none =>
    match agentDevice s r.deviceID r.siteID with
    | .error reply => (s, reply)
    | .ok dev => recordReported env update s dev r

/-- A request for the desired state of a device; `caller` says which sites the caller may
change. -/
structure DesiredRequest (α : Type) where
  deviceID : String := ""
  caller : String → Bool
  desired : α

def adminDevice {α : Type} (choice : Choice) (s : Server) (r : DesiredRequest α) :
    Except TwinReply Device :=
  match s.store.device r.deviceID with
  | none => .error { code := 404, error := "device not found" }
  | some dev =>
    if r.caller dev.siteID then
      match choice.error with
      | some err => .error { code := 400, error := "invalid JSON: " ++ err }
      | none => .ok dev
    else .error { code := 404, error := "device not found" }

def otaRequestFor (dev : Device) (req : Ota.Request) : Ota.Request :=
  { req with deviceID := dev.id, siteID := if req.siteID = "" then dev.siteID else req.siteID }

def withRequest (env : TwinEnv) (dev : Device) (req : Ota.Request) (now : Time) (cur : Twin) : Twin :=
  { cur with
    deviceID := dev.id
    siteID := dev.siteID
    desired := cur.desired.insert otaTwinKey (env.request.toAny req)
    desiredVersion := cur.desiredVersion + 1
    updatedAt := now }

def setDeviceOTADesired (env : TwinEnv) (choice : Choice) (s : Server) (dev : Device)
    (req : Ota.Request) : Server × Except String Twin :=
  let req := otaRequestFor dev req
  match req.validate env.ota with
  | some err => (s, .error err)
  | none =>
    let fn := withRequest env dev req choice.now
    let shared (v : Twin) :=
      { v with desired := writeShared v.desired otaTwinKey (env.request.toAny req) }
    let updated := updateTwin env.toEnv choice s dev.id fn shared
    match updated.2 with
    | some err => (updated.1, .error err)
    | none => (updated.1, .ok (fn (currentTwin s dev.id)))

/-- `otaDeviceRequest` tells the errors of the OTA package by their texts. -/
def otaDeviceRequest (env : TwinEnv) (arrival update : Choice) (s : Server)
    (r : DesiredRequest Ota.Request) : Server × TwinReply :=
  match adminDevice arrival s r with
  | .error reply => (s, reply)
  | .ok dev =>
    let updated := setDeviceOTADesired env update s dev r.desired
    match updated.2 with
    | .error err => (updated.1, { code := if Ota.isOta err then 400 else 507, error := err })
    | .ok tw => (updated.1, { code := 200, twin := tw })

def withDesired (dev : Device) (desired : ExtTreeMap String Any) (now : Time) (cur : Twin) : Twin :=
  { cur with
    deviceID := dev.id
    siteID := dev.siteID
    desired
    desiredVersion := cur.desiredVersion + 1
    updatedAt := now }

def setDesired (env : Env) (choice : Choice) (s : Server) (dev : Device)
    (desired : ExtTreeMap String Any) : Server × TwinReply :=
  replyUpdate env choice s dev.id (withDesired dev desired choice.now)

def twinDesired (env : Env) (arrival update : Choice) (s : Server)
    (r : DesiredRequest (ExtTreeMap String Any)) : Server × TwinReply :=
  match adminDevice arrival s r with
  | .error reply => (s, reply)
  | .ok dev => setDesired env update s dev r.desired

theorem otaDeviceRequest_fst (env : TwinEnv) (arrival update : Choice) (s : Server)
    (r : DesiredRequest Ota.Request) :
    (otaDeviceRequest env arrival update s r).1 =
      match adminDevice arrival s r with
      | .error _ => s
      | .ok dev => (setDeviceOTADesired env update s dev r.desired).1 := by
  unfold otaDeviceRequest
  cases adminDevice arrival s r with
  | error reply => rfl
  | ok dev =>
    simp only
    split <;> rfl

section

def storedOta (s : Server) (deviceID : String) : Option Any :=
  (s.store.twin deviceID).bind fun v => v.reported[otaTwinKey]?

variable {env : TwinEnv} {choice : Choice} {s : Server} {dev : Device} {siteID deviceID : String}

theorem getElem?_currentTwin (s : Server) (deviceID : String) :
    (currentTwin s deviceID).reported[otaTwinKey]? = storedOta s deviceID := by
  unfold currentTwin storedOta
  cases s.store.twin deviceID with
  | none => simp
  | some v => rfl

theorem storedOta_updateTwin_of_keeps {env : Env} {id : String} {fn shared : Twin → Twin}
    (hid : ∀ v, v.deviceID = id → (fn v).deviceID = id) (hfn : ∀ v, (fn v).reported = v.reported)
    (hshared : ∀ v, (shared v).deviceID = v.deviceID ∧ (shared v).reported = v.reported) :
    storedOta (updateTwin env choice s id fn shared).1 deviceID = storedOta s deviceID := by
  unfold storedOta
  rw [twin_updateTwin hid fun v => (hshared v).1]
  split
  · next heq =>
    subst heq
    split
    · rw [Option.bind_some, hfn, getElem?_currentTwin]
      rfl
    · cases s.store.twin id with
      | none => rfl
      | some v => exact congrArg (·[otaTwinKey]?) (hshared v).2
  · rfl

theorem storedOta_setDesired (env : Env) (desired : ExtTreeMap String Any) :
    storedOta (setDesired env choice s dev desired).1 deviceID = storedOta s deviceID := by
  have hserver : (setDesired env choice s dev desired).1 =
      (updateTwin env choice s dev.id (withDesired dev desired choice.now) id).1 := by
    unfold setDesired replyUpdate
    simp only
    split <;> rfl
  rw [hserver]
  exact storedOta_updateTwin_of_keeps (fun _ _ => rfl) (fun _ => rfl) fun _ => ⟨rfl, rfl⟩

theorem storedOta_setDeviceOTADesired (req : Ota.Request) :
    storedOta (setDeviceOTADesired env choice s dev req).1 deviceID = storedOta s deviceID := by
  unfold setDeviceOTADesired
  simp only
  split
  · rfl
  · split <;> exact storedOta_updateTwin_of_keeps (fun _ _ => rfl) (fun _ => rfl) fun _ => ⟨rfl, rfl⟩

theorem storedOta_recordReported (env : Env) (r : ReportedRequest) :
    storedOta (recordReported env choice s dev r).1 deviceID =
      if dev.id = deviceID ∧ choice.error.isNone then r.reported[otaTwinKey]?
      else storedOta s deviceID := by
  have hserver : (recordReported env choice s dev r).1 =
      (updateTwin env choice s dev.id (withReported dev r.siteID r.reported choice.now) id).1 := by
    unfold recordReported replyUpdate
    simp only
    split <;> rfl
  unfold storedOta
  rw [hserver, twin_updateTwin]
  · by_cases hid : dev.id = deviceID
    · subst hid
      cases choice.error <;> simp [withReported]
    · simp [hid]
  · exact fun _ _ => rfl
  · exact fun _ => rfl

theorem recordStatus_of_objection {status : Ota.Status} {err : String}
    (h : transitionError env (currentTwin s dev.id) status = some err) :
    (recordStatus env choice s dev siteID status).2 = .error { code := 409, error := err } ∧
      storedOta (recordStatus env choice s dev siteID status).1 deviceID = storedOta s deviceID := by
  simp only [recordStatus, h]
  exact ⟨trivial, storedOta_updateTwin_of_keeps (fun _ h => h) (fun _ => rfl) fun _ => ⟨rfl, rfl⟩⟩

theorem storedOta_recordStatus {status : Ota.Status}
    (h : transitionError env (currentTwin s dev.id) status = none) :
    storedOta (recordStatus env choice s dev siteID status).1 deviceID =
      if dev.id = deviceID ∧ (choice.error.isNone ∨ ¬ (currentTwin s dev.id).reported.isEmpty) then
        some (env.status.toAny status)
      else storedOta s deviceID := by
  have hserver : (recordStatus env choice s dev siteID status).1 =
      (updateTwin env.toEnv choice s dev.id (withStatus env dev siteID status choice.now) fun v =>
        { v with reported := writeShared v.reported otaTwinKey (env.status.toAny status) }).1 := by
    simp only [recordStatus, h]
    split <;> rfl
  unfold storedOta
  rw [hserver, twin_updateTwin]
  · by_cases hid : dev.id = deviceID
    · subst hid
      cases choice.error with
      | none => simp [withStatus]
      | some err =>
        cases htwin : s.store.twin dev.id with
        | none => simp [currentTwin, htwin]
        | some v => simp [currentTwin, htwin, getElem?_writeShared]
    · simp [hid]
  · exact fun _ _ => rfl
  · exact fun _ => rfl

theorem storedOta_storeCall {env : Env} {request : Store.Call} (h : request.writesTwin = false) :
    storedOta ((Action.storeCall request).run env s) deviceID = storedOta s deviceID := by
  unfold storedOta
  rw [show ((Action.storeCall request).run env s).store.twin deviceID = s.store.twin deviceID from
    Store.twin_call h deviceID]

theorem storedOta_alertStatus (status : Ota.Status) :
    storedOta (alertStatus env choice s dev siteID status) deviceID = storedOta s deviceID := by
  unfold alertStatus
  split
  · split
    · rfl
    · exact storedOta_storeCall rfl
  · rfl

end

end Nodra.Server
