import Nodra.Server.Agents
import Nodra.Server.CampaignEffects
import Nodra.Server.TwinThreads

/-! The versions of a twin, and the desired states that are written to it, while devices
register beside the handlers for twins. -/
namespace Nodra.Server
open Model Std Interleave Option

variable {env : TwinEnv} {choice : Choice} {s s' : Server} {deviceID : String}

section

inductive RegisterDevice.Progress where
  | arrive
  | add
  | twin (dev : Device)
  | set (dev : Device)

def RegisterDevice.next (env : Env) (choice : Choice) (s : Server) (r : DeviceRequest) :
    Progress → Server × Option Progress
  | .arrive =>
    match refusal env choice s r.toCredentials r.device.siteID with
    | some _ => (s, none)
    | none => if r.device.name = "" ∨ r.device.protocol = "" then (s, none) else (s, some .add)
  | .add =>
    let added := storeCall env choice s true (.addDevice (r.registered choice))
    match added.2 with
    | some _ => (added.1, none)
    | none => (added.1, some (.twin (r.registered choice)))
  | .twin dev =>
    match s.store.twin dev.id with
    | some _ => (s, none)
    | none => (s, some (.set dev))
  | .set dev => ((storeCall env choice s true (.setTwin (newTwin dev choice.now))).1, none)

inductive DeviceThread where
  | twin (t : TwinThread)
  | registerDevice (r : DeviceRequest) (progress : RegisterDevice.Progress)

def DeviceThread.next (env : TwinEnv) (choice : Choice) (s : Server) :
    DeviceThread → Server × List DeviceThread
  | .twin t => ((t.next env choice s).1, (t.next env choice s).2.map .twin)
  | .registerDevice r progress =>
    let step := RegisterDevice.next env.toEnv choice s r progress
    (step.1, (step.2.map (.registerDevice r)).toList)

inductive DeviceThread.Starts : DeviceThread → Prop where
  | twin {t : TwinThread} (h : t.Starts) : Starts (.twin t)
  | registerDevice (r : DeviceRequest) : Starts (.registerDevice r .arrive)

def deviceSystem (env : TwinEnv) : System Server DeviceThread Choice where
  starts := DeviceThread.Starts
  next := DeviceThread.next env

end

/-- The desired state that a step writes to the twin of the device with success. -/
def written (env : TwinEnv) (deviceID : String) (choice : Choice) (s : Server) :
    DeviceThread → Option (ExtTreeMap String Any)
  | .twin (.twinDesired r (.set dev)) =>
    if dev.id = deviceID ∧ (setDesired env.toEnv choice s dev r.desired).2.code = 200 then some r.desired
    else none
  | .twin (.otaDeviceRequest r (.set dev)) =>
    match (setDeviceOTADesired env choice s dev r.desired).2 with
    | .error _ => none
    | .ok _ =>
      if dev.id = deviceID then
        some ((currentTwin s deviceID).desired.insert otaTwinKey
          (env.request.toAny (otaRequestFor dev r.desired)))
      else none
  | _ => none

/-- A new twin is stored only where there is none, and the write of an OTA request fails only
where no desired state is stored: its callback has then written to the stored map already. -/
def Orderly (deviceID : String) (choice : Choice) (s : Server) : DeviceThread → Prop
  | .registerDevice _ (.set dev) => dev.id = deviceID → s.store.twin deviceID = none
  | .twin (.otaDeviceRequest _ (.set dev)) =>
    dev.id = deviceID → choice.error.isSome → (currentTwin s deviceID).desired.isEmpty
  | _ => True

def orderlySystem (env : TwinEnv) (deviceID : String) : System Server DeviceThread Choice :=
  { deviceSystem env with allowed := fun choice s t _ => Orderly deviceID choice s t }

section

structure Carries (v v' : Twin) : Prop where
  desired : v'.desired = v.desired
  desiredVersion : v'.desiredVersion = v.desiredVersion
  reportedVersion : v.reportedVersion ≤ v'.reportedVersion

theorem Carries.refl (v : Twin) : Carries v v := ⟨rfl, rfl, Nat.le_refl _⟩

theorem Carries.trans {u v w : Twin} (h : Carries u v) (h' : Carries v w) : Carries u w :=
  ⟨h'.desired.trans h.desired, h'.desiredVersion.trans h.desiredVersion,
    Nat.le_trans h.reportedVersion h'.reportedVersion⟩

def Carried (deviceID : String) (s s' : Server) : Prop :=
  ∀ v ∈ s.store.twin deviceID, ∃ v' ∈ s'.store.twin deviceID, Carries v v'

variable {fn shared : Twin → Twin} {dev : Device} {desired : ExtTreeMap String Any}

end

end Nodra.Server
