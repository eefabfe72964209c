import Nodra.Lib.KeyedList
import Nodra.Store.Op
import Std.Data.ExtTreeSet

/-! The file store of the control plane: the state in memory, and behind it a
snapshot, a log of the operations since, and perhaps a `state.json` of v0.1.
File operations succeed. -/
namespace Nodra
open Lines JsonText Model Std List

namespace Store

/-- The files of the store.  `legacy` is the file at the configured path, the other
two stand beside it. -/
structure Disk where
  legacy : Option Bytes := none
  snapshot : Option Bytes := none
  wal : Option Bytes := none

structure Mem where
  state : State := {}
  seen : ExtTreeSet String := ∅

end Store

structure Store extends Store.Mem where
  disk : Store.Disk
  ops : Nat := 0

namespace Store

inductive OpenError where
  | pathRequired
  | state
  | replayWal
  | unknownOperation (name : Bytes)
  | tooLong

/-- `state` stands for the decoder's own text, which also follows the replay
message; the name of an unknown operation is quoted. -/
def OpenError.text : OpenError → String
  | .pathRequired => "store path is required"
  | .state => ""
  | .replayWal => "replay state wal: "
  | .unknownOperation _ => "unknown state operation "
  | .tooLong => "bufio.Scanner: token too long"

inductive Error where
  | notExist
deriving DecidableEq

def scanLimit : Nat := 16 * 2 ^ 20
def compactAt : Nat := 2048
def maxAlerts : Nat := 2000
def maxEvents : Nat := 2000
def maxSeenEvents : Nat := 20000

def lastN {α : Type} (n : Nat) (xs : List α) : List α := xs.drop (xs.length - n)

def Mutation.update (st : State) : Mutation → State
  | .siteAdd v => { st with sites := st.sites ++ [v] }
  | .siteSet v => { st with sites := KeyedList.upsert Site.id v st.sites }
  | .deviceAdd v => { st with devices := KeyedList.upsert Device.id v st.devices }
  | .twinSet v => { st with twins := KeyedList.upsert Twin.deviceID v st.twins }
  | .routeAdd v => { st with routes := st.routes ++ [v] }
  | .routeDel id => { st with routes := KeyedList.remove Route.id id st.routes }
  | .deploymentAdd v => { st with deployments := st.deployments ++ [v] }
  | .deploymentSet v =>
    { st with deployments := KeyedList.replace Deployment.id v st.deployments }
  | .deploymentDel id =>
    { st with deployments := KeyedList.remove Deployment.id id st.deployments }
  | .policyAdd v => { st with policyPacks := st.policyPacks ++ [v] }
  | .policySet v => { st with policyPacks := KeyedList.replace PolicyPack.id v st.policyPacks }
  | .policyDel id => { st with policyPacks := KeyedList.remove PolicyPack.id id st.policyPacks }
  | .otaCampaignAdd v => { st with otaCampaigns := st.otaCampaigns ++ [v] }
  | .otaCampaignSet v =>
    { st with otaCampaigns := KeyedList.replace OTACampaign.id v st.otaCampaigns }
  | .orgAdd v => { st with orgs := st.orgs ++ [v] }
  | .orgSet v => { st with orgs := KeyedList.replace Org.id v st.orgs }
  | .orgDel id => { st with orgs := KeyedList.remove Org.id id st.orgs }
  | .alertAdd v => { st with alerts := lastN maxAlerts (st.alerts ++ [v]) }
  | .alertSet v => { st with alerts := KeyedList.replace Alert.id v st.alerts }
  | .eventAdd v =>
    { st with
      events := lastN maxEvents (st.events ++ [v])
      seenEvents := lastN maxSeenEvents (st.seenEvents ++ [v.id]) }

def Mutation.updateSeen (mem : Mem) : Mutation → ExtTreeSet String
  | .eventAdd v =>
    let seenEvents := mem.state.seenEvents ++ [v.id]
    (seenEvents.take (seenEvents.length - maxSeenEvents)).foldl
      (fun seen id => seen.erase id) (mem.seen.insert v.id)
  | _ => mem.seen

def Mutation.apply (mem : Mem) (m : Mutation) : Mem :=
  { state := m.update mem.state, seen := m.updateSeen mem }

def Mem.replayLine (codecs : Codecs) (mem : Mem) (line : Bytes) : Except OpenError Mem :=
  match Op.unmarshal codecs line with
  | none => .error .replayWal
  | some o =>
    match o.mutation codecs with
    | none => .error (.unknownOperation o.type.name)
    | some m => .ok (m.apply mem)

def replay (codecs : Codecs) (mem : Mem) : Option Bytes → Except OpenError Mem
  | none => .ok mem
  | some wal => Lines.replay scanLimit .tooLong (Mem.replayLine codecs) mem wal

def readState (codecs : Codecs) (st : State) : Option Bytes → Except OpenError State
  | none => .ok st
  | some text =>
    if text = [] then .ok st
    else
      match codecs.unmarshalState text with
      | none => .error .state
      | some st => .ok st

/-- The state before the log: `state.json` is read only without a snapshot. -/
def loadState (codecs : Codecs) (disk : Disk) : Except OpenError State :=
  match readState codecs {} (if disk.snapshot.isNone then disk.legacy else none) with
  | .error err => .error err
  | .ok st => readState codecs st disk.snapshot

def indexSeen (ids : List String) : ExtTreeSet String :=
  ids.foldl (fun seen id => seen.insert id) ∅

def loadMem (codecs : Codecs) (disk : Disk) : Except OpenError Mem :=
  match loadState codecs disk with
  | .error err => .error err
  | .ok st => replay codecs { state := st, seen := indexSeen st.seenEvents } disk.wal

/-- Opening moves a v0.1 file away; what was read from it is in memory only. -/
def openStore (codecs : Codecs) (path : String) (disk : Disk) : Except OpenError Store :=
  if path = "" then .error .pathRequired
  else
    match loadMem codecs disk with
    | .error err => .error err
    | .ok mem => .ok { mem with disk := { disk with legacy := none, wal := some (disk.wal.getD []) } }

def compactWrites (codecs : Codecs) (st : State) : List (Disk → Disk) :=
  [fun disk => { disk with snapshot := some (codecs.marshalState st) },
    fun disk => { disk with wal := some [] }]

def compactLocked (codecs : Codecs) (s : Store) : Store :=
  { s with disk := (compactWrites codecs s.state).foldl (fun disk write => write disk) s.disk
           ops := 0 }

def writeLine (codecs : Codecs) (s : Store) (o : Op) : Store :=
  { s with
    disk := { s.disk with wal := some (s.disk.wal.getD [] ++ (o.marshal codecs ++ [newline])) }
    ops := s.ops + 1 }

def appendLocked (codecs : Codecs) (s : Store) (o : Op) : Store :=
  let s := s.writeLine codecs o
  if s.ops ≥ compactAt then s.compactLocked codecs else s

def mutate (codecs : Codecs) (s : Store) (m : Mutation) : Store :=
  { s.appendLocked codecs (m.op codecs) with toMem := m.apply s.toMem }

def updateWith {α : Type} (codecs : Codecs) (s : Store) (xs : List α) (key : α → String)
    (id : String) (fn : α → α) (set : α → Mutation) : Except Error Store :=
  match xs.find? fun v => key v = id with
  | some v => .ok (s.mutate codecs (set (fn v)))
  | none => .error .notExist

def deleteWith {α : Type} (codecs : Codecs) (s : Store) (xs : List α) (key : α → String)
    (id : String) (del : String → Mutation) : Except Error Store :=
  if xs.any fun v => key v = id then .ok (s.mutate codecs (del id)) else .error .notExist

section

variable (codecs : Codecs) (s : Store)

def addSite (v : Site) : Except Error Store := .ok (s.mutate codecs (.siteAdd v))

def updateSite (id : String) (fn : Site → Site) : Except Error Store :=
  updateWith codecs s s.state.sites Site.id id fn .siteSet

def addDevice (v : Device) : Except Error Store := .ok (s.mutate codecs (.deviceAdd v))

def setTwin (v : Twin) : Except Error Store := .ok (s.mutate codecs (.twinSet v))

/-- A twin that is missing is created, and never loses its device id. -/
def updateTwin (deviceID : String) (fn : Twin → Twin) : Except Error Store :=
  let old := (s.state.twins.find? fun v => v.deviceID = deviceID).getD { deviceID }
  let v := fn old
  let v := if v.deviceID = "" then { v with deviceID } else v
  .ok (s.mutate codecs (.twinSet v))

def addRoute (v : Route) : Except Error Store := .ok (s.mutate codecs (.routeAdd v))

def deleteRoute (id : String) : Except Error Store :=
  deleteWith codecs s s.state.routes Route.id id .routeDel

def addDeployment (v : Deployment) : Except Error Store := .ok (s.mutate codecs (.deploymentAdd v))

def updateDeployment (id : String) (fn : Deployment → Deployment) : Except Error Store :=
  updateWith codecs s s.state.deployments Deployment.id id fn .deploymentSet

def deleteDeployment (id : String) : Except Error Store :=
  deleteWith codecs s s.state.deployments Deployment.id id .deploymentDel

def addPolicyPack (v : PolicyPack) : Except Error Store := .ok (s.mutate codecs (.policyAdd v))

def updatePolicyPack (id : String) (fn : PolicyPack → PolicyPack) : Except Error Store :=
  updateWith codecs s s.state.policyPacks PolicyPack.id id fn .policySet

def deletePolicyPack (id : String) : Except Error Store :=
  deleteWith codecs s s.state.policyPacks PolicyPack.id id .policyDel

def addOTACampaign (v : OTACampaign) : Except Error Store :=
  .ok (s.mutate codecs (.otaCampaignAdd v))

def updateOTACampaign (id : String) (fn : OTACampaign → OTACampaign) : Except Error Store :=
  updateWith codecs s s.state.otaCampaigns OTACampaign.id id fn .otaCampaignSet

def addOrg (v : Org) : Except Error Store := .ok (s.mutate codecs (.orgAdd v))

def updateOrg (id : String) (fn : Org → Org) : Except Error Store :=
  updateWith codecs s s.state.orgs Org.id id fn .orgSet

def deleteOrg (id : String) : Except Error Store :=
  deleteWith codecs s s.state.orgs Org.id id .orgDel

def addAlert (v : Alert) : Except Error Store := .ok (s.mutate codecs (.alertAdd v))

def resolveAlert (id : String) : Except Error Store :=
  updateWith codecs s s.state.alerts Alert.id id (fun v => { v with resolved := true }) .alertSet

def addEvent (v : Event) : Except Error Store :=
  if v.id ∈ s.seen then .ok s else .ok (s.mutate codecs (.eventAdd v))

end

def hasEvent (s : Store) (id : String) : Bool := id ∈ s.seen

def device (s : Store) (id : String) : Option Device := s.state.devices.find? fun v => v.id = id

def twin (s : Store) (deviceID : String) : Option Twin :=
  s.state.twins.find? fun v => v.deviceID = deviceID

def site (s : Store) (id : String) : Option Site := s.state.sites.find? fun v => v.id = id

def deployment (s : Store) (id : String) : Option Deployment :=
  s.state.deployments.find? fun v => v.id = id

def otaCampaign (s : Store) (id : String) : Option OTACampaign :=
  s.state.otaCampaigns.find? fun v => v.id = id

inductive Call where
  | addSite (v : Site)
  | updateSite (id : String) (fn : Site → Site)
  | addDevice (v : Device)
  | setTwin (v : Twin)
  | updateTwin (deviceID : String) (fn : Twin → Twin)
  | addRoute (v : Route)
  | deleteRoute (id : String)
  | addDeployment (v : Deployment)
  | updateDeployment (id : String) (fn : Deployment → Deployment)
  | deleteDeployment (id : String)
  | addPolicyPack (v : PolicyPack)
  | updatePolicyPack (id : String) (fn : PolicyPack → PolicyPack)
  | deletePolicyPack (id : String)
  | addOTACampaign (v : OTACampaign)
  | updateOTACampaign (id : String) (fn : OTACampaign → OTACampaign)
  | addOrg (v : Org)
  | updateOrg (id : String) (fn : Org → Org)
  | deleteOrg (id : String)
  | addAlert (v : Alert)
  | resolveAlert (id : String)
  | addEvent (v : Event)

def call (codecs : Codecs) (s : Store) : Call → Except Error Store
  | .addSite v => s.addSite codecs v
  | .updateSite id fn => s.updateSite codecs id fn
  | .addDevice v => s.addDevice codecs v
  | .setTwin v => s.setTwin codecs v
  | .updateTwin deviceID fn => s.updateTwin codecs deviceID fn
  | .addRoute v => s.addRoute codecs v
  | .deleteRoute id => s.deleteRoute codecs id
  | .addDeployment v => s.addDeployment codecs v
  | .updateDeployment id fn => s.updateDeployment codecs id fn
  | .deleteDeployment id => s.deleteDeployment codecs id
  | .addPolicyPack v => s.addPolicyPack codecs v
  | .updatePolicyPack id fn => s.updatePolicyPack codecs id fn
  | .deletePolicyPack id => s.deletePolicyPack codecs id
  | .addOTACampaign v => s.addOTACampaign codecs v
  | .updateOTACampaign id fn => s.updateOTACampaign codecs id fn
  | .addOrg v => s.addOrg codecs v
  | .updateOrg id fn => s.updateOrg codecs id fn
  | .deleteOrg id => s.deleteOrg codecs id
  | .addAlert v => s.addAlert codecs v
  | .resolveAlert id => s.resolveAlert codecs id
  | .addEvent v => s.addEvent codecs v

def plan (s : Store) : Call → Option Mutation
  | .addSite v => some (.siteAdd v)
  | .updateSite id fn => (s.state.sites.find? fun v => v.id = id).map fun v => .siteSet (fn v)
  | .addDevice v => some (.deviceAdd v)
  | .setTwin v => some (.twinSet v)
  | .updateTwin deviceID fn =>
    let v := fn ((s.state.twins.find? fun v => v.deviceID = deviceID).getD { deviceID })
    some (.twinSet (if v.deviceID = "" then { v with deviceID } else v))
  | .addRoute v => some (.routeAdd v)
  | .deleteRoute id =>
    if s.state.routes.any fun v => v.id = id then some (.routeDel id) else none
  | .addDeployment v => some (.deploymentAdd v)
  | .updateDeployment id fn =>
    (s.state.deployments.find? fun v => v.id = id).map fun v => .deploymentSet (fn v)
  | .deleteDeployment id =>
    if s.state.deployments.any fun v => v.id = id then some (.deploymentDel id) else none
  | .addPolicyPack v => some (.policyAdd v)
  | .updatePolicyPack id fn =>
    (s.state.policyPacks.find? fun v => v.id = id).map fun v => .policySet (fn v)
  | .deletePolicyPack id =>
    if s.state.policyPacks.any fun v => v.id = id then some (.policyDel id) else none
  | .addOTACampaign v => some (.otaCampaignAdd v)
  | .updateOTACampaign id fn =>
    (s.state.otaCampaigns.find? fun v => v.id = id).map fun v => .otaCampaignSet (fn v)
  | .addOrg v => some (.orgAdd v)
  | .updateOrg id fn => (s.state.orgs.find? fun v => v.id = id).map fun v => .orgSet (fn v)
  | .deleteOrg id => if s.state.orgs.any fun v => v.id = id then some (.orgDel id) else none
  | .addAlert v => some (.alertAdd v)
  | .resolveAlert id =>
    (s.state.alerts.find? fun v => v.id = id).map fun v => .alertSet { v with resolved := true }
  | .addEvent v => if v.id ∈ s.seen then none else some (.eventAdd v)

theorem call_ok {codecs : Codecs} {s s' : Store} {request : Call}
    (h : s.call codecs request = .ok s') :
    s' = (s.plan request).elim s (s.mutate codecs) := by
  have hupdate {α : Type} {xs : List α} {key : α → String} {id : String} {fn : α → α}
      {set : α → Mutation} (h : updateWith codecs s xs key id fn set = .ok s') :
      s' = ((xs.find? fun v => key v = id).map fun v => set (fn v)).elim s (s.mutate codecs) := by
    unfold updateWith at h
    split at h
    · rename_i v hfind
      cases h
      rw [hfind]
      rfl
    · cases h
  have hdelete {α : Type} {xs : List α} {key : α → String} {id : String}
      {del : String → Mutation} (h : deleteWith codecs s xs key id del = .ok s') :
      s' = (if xs.any fun v => key v = id then some (del id) else none).elim s
        (s.mutate codecs) := by
    unfold deleteWith at h
    split at h
    · rename_i hany
      cases h
      rw [if_pos hany]
      rfl
    · cases h
  cases request with
  | addEvent v =>
    simp only [call, addEvent] at h
    simp only [plan]
    split at h
    · rename_i hseen
      cases h
      rw [if_pos hseen]
      rfl
    · rename_i hseen
      cases h
      rw [if_neg hseen]
      rfl
  | updateSite id fn => exact hupdate h
  | updateDeployment id fn => exact hupdate h
  | updatePolicyPack id fn => exact hupdate h
  | updateOTACampaign id fn => exact hupdate h
  | updateOrg id fn => exact hupdate h
  | resolveAlert id => exact hupdate h
  | deleteRoute id => exact hdelete h
  | deleteDeployment id => exact hdelete h
  | deletePolicyPack id => exact hdelete h
  | deleteOrg id => exact hdelete h
  | _ =>
    cases h
    rfl

section

def touchTwin (s : Store) (deviceID : String) (fn : Twin → Twin) : Store :=
  match s.twin deviceID with
  | none => s
  | some v =>
    { s with state := { s.state with twins := KeyedList.upsert Twin.deviceID (fn v) s.state.twins } }

variable {codecs : Codecs} {s : Store} {deviceID : String} {fn : Twin → Twin}

theorem deviceID_of_twin {v : Twin} (h : s.twin deviceID = some v) : v.deviceID = deviceID := by
  simpa using find?_some h

theorem twin_touchTwin (hfn : ∀ v, (fn v).deviceID = v.deviceID) (other : String) :
    (s.touchTwin deviceID fn).twin other =
      if deviceID = other then (s.twin deviceID).map fn else s.twin other := by
  fun_cases touchTwin s deviceID fn
  · next h =>
    split
    · next heq => rw [← heq, h]; rfl
    · rfl
  · next v h =>
    have hkey : (fn v).deviceID = deviceID := (hfn v).trans (deviceID_of_twin h)
    refine (KeyedList.find?_upsert Twin.deviceID (fn v) other _).trans ?_
    rw [hkey, h]
    rfl

theorem deviceID_getD_twin (s : Store) (deviceID : String) :
    ((s.twin deviceID).getD { deviceID }).deviceID = deviceID := by
  cases h : s.twin deviceID with
  | none => rfl
  | some v => exact deviceID_of_twin h

theorem updateTwin_eq (hfn : ∀ v, v.deviceID = deviceID → (fn v).deviceID = deviceID) :
    s.updateTwin codecs deviceID fn =
      .ok (s.mutate codecs (.twinSet (fn ((s.twin deviceID).getD { deviceID })))) := by
  have hkeep : ∀ v : Twin, v.deviceID = deviceID →
      (if v.deviceID = "" then { v with deviceID } else v) = v := by
    rintro v rfl
    split <;> rfl
  exact congrArg (fun v => Except.ok (s.mutate codecs (.twinSet v)))
    (hkeep _ (hfn _ (deviceID_getD_twin s deviceID)))

theorem twin_mutate_twinSet (s : Store) (v : Twin) (other : String) :
    (s.mutate codecs (.twinSet v)).twin other =
      if v.deviceID = other then some v else s.twin other :=
  KeyedList.find?_upsert Twin.deviceID v other s.state.twins

def Call.writesTwin : Call → Bool
  | .setTwin _ | .updateTwin _ _ => true
  | _ => false

theorem twins_update {m : Mutation} (h : ∀ v, m ≠ .twinSet v) (st : State) :
    (m.update st).twins = st.twins := by
  cases m with
  | twinSet v => exact absurd rfl (h v)
  | _ => simp only [Mutation.update]

theorem state_call {β : Type} (f : State → β) {request : Call}
    (h : ∀ m ∈ s.plan request, f (m.update s.state) = f s.state) :
    f ((s.call codecs request).toOption.getD s).state = f s.state := by
  cases hcall : s.call codecs request with
  | error err => rfl
  | ok s' =>
    simp only [Except.toOption, Option.getD_some, call_ok hcall]
    cases hplan : s.plan request with
    | none => rfl
    | some m => exact h m hplan

theorem twin_call {request : Call} (h : request.writesTwin = false) (deviceID : String) :
    ((s.call codecs request).toOption.getD s).twin deviceID = s.twin deviceID := by
  refine state_call (fun st => st.twins.find? fun v => v.deviceID = deviceID) fun m hplan => ?_
  have hm : ∀ v, m ≠ .twinSet v := by
    rintro v rfl
    cases request <;> simp [plan, Call.writesTwin] at h hplan
  exact congrArg (List.find? fun v => v.deviceID = deviceID) (twins_update hm s.state)

end

section

variable {codecs : Codecs} {s : Store}

def touchDevices (s : Store) (id : String) (devices : List OTACampaignDevice) : Store :=
  match s.otaCampaign id with
  | none => s
  | some v =>
    { s with state := { s.state with
        otaCampaigns := KeyedList.replace OTACampaign.id { v with devices } s.state.otaCampaigns } }

def Call.writesCampaign : Call → Bool
  | .addOTACampaign _ | .updateOTACampaign _ _ => true
  | _ => false

theorem otaCampaigns_call {request : Call} (h : request.writesCampaign = false) :
    ((s.call codecs request).toOption.getD s).state.otaCampaigns = s.state.otaCampaigns := by
  refine state_call State.otaCampaigns fun m hplan => ?_
  cases m with
  | otaCampaignAdd v => cases request <;> simp [plan, Call.writesCampaign] at h hplan
  | otaCampaignSet v => cases request <;> simp [plan, Call.writesCampaign] at h hplan
  | _ => simp only [Mutation.update]

theorem devices_call {request : Call} (h : ∀ v, request ≠ .addDevice v) :
    ((s.call codecs request).toOption.getD s).state.devices = s.state.devices := by
  refine state_call State.devices fun m hplan => ?_
  cases m with
  | deviceAdd v => cases request <;> simp [plan] at h hplan
  | _ => simp only [Mutation.update]

theorem id_of_otaCampaign {id : String} {v : OTACampaign} (h : s.otaCampaign id = some v) :
    v.id = id := by
  simpa using find?_some h

end

section

variable {codecs : Codecs} {s : Store}

def Call.writesOrg : Call → Bool
  | .addOrg _ | .updateOrg _ _ | .deleteOrg _ => true
  | _ => false

theorem orgs_call {request : Call} (h : request.writesOrg = false) :
    ((s.call codecs request).toOption.getD s).state.orgs = s.state.orgs := by
  refine state_call State.orgs fun m hplan => ?_
  cases m with
  | orgAdd v => cases request <;> simp [plan, Call.writesOrg] at h hplan
  | orgSet v => cases request <;> simp [plan, Call.writesOrg] at h hplan
  | orgDel id => cases request <;> simp [plan, Call.writesOrg] at h hplan
  | _ => simp only [Mutation.update]

end

section

variable {codecs : Codecs} {s s' : Store}

def directory (s : Store) : List Site × List Route := (s.state.sites, s.state.routes)

def Call.writesDirectory : Call → Bool
  | .addSite _ | .updateSite _ _ | .addRoute _ | .deleteRoute _ => true
  | _ => false

theorem directory_call_of_not_writes {request : Call} (h : request.writesDirectory = false) :
    ((s.call codecs request).toOption.getD s).directory = s.directory := by
  refine state_call (fun st => (st.sites, st.routes)) fun m hplan => ?_
  cases m with
  | siteAdd v => cases request <;> simp [plan, Call.writesDirectory] at h hplan
  | siteSet v => cases request <;> simp [plan, Call.writesDirectory] at h hplan
  | routeAdd v => cases request <;> simp [plan, Call.writesDirectory] at h hplan
  | routeDel id => cases request <;> simp [plan, Call.writesDirectory] at h hplan
  | _ => simp only [Mutation.update]

theorem directory_call (h : s.directory = s'.directory) (request : Call) :
    ((s.call codecs request).toOption.getD s).directory =
      ((s'.call codecs request).toOption.getD s').directory := by
  have hsites : s.state.sites = s'.state.sites := congrArg Prod.fst h
  have hroutes : s.state.routes = s'.state.routes := congrArg Prod.snd h
  cases request with
  | addSite v =>
    show (s.state.sites ++ [v], s.state.routes) = (s'.state.sites ++ [v], s'.state.routes)
    rw [hsites, hroutes]
  | addRoute v =>
    show (s.state.sites, s.state.routes ++ [v]) = (s'.state.sites, s'.state.routes ++ [v])
    rw [hsites, hroutes]
  | updateSite id fn =>
    simp only [call, updateSite, updateWith, hsites]
    cases s'.state.sites.find? fun v => v.id = id with
    | none => exact h
    | some v =>
      show (KeyedList.upsert Site.id (fn v) s.state.sites, s.state.routes) =
        (KeyedList.upsert Site.id (fn v) s'.state.sites, s'.state.routes)
      rw [hsites, hroutes]
  | deleteRoute id =>
    simp only [call, deleteRoute, deleteWith, hroutes]
    split
    · show (s.state.sites, KeyedList.remove Route.id id s.state.routes) =
        (s'.state.sites, KeyedList.remove Route.id id s'.state.routes)
      rw [hsites, hroutes]
    · exact h
  | _ =>
    rw [directory_call_of_not_writes rfl, directory_call_of_not_writes rfl]
    exact h

theorem mem_routes_call {request : Call} {rt : Route}
    (h : rt ∈ ((s.call codecs request).toOption.getD s).state.routes) :
    rt ∈ s.state.routes ∨ request = .addRoute rt := by
  have hsame (hsame : ∀ m ∈ s.plan request, (m.update s.state).routes = s.state.routes) :
      rt ∈ s.state.routes := state_call State.routes hsame ▸ h
  have hkeeps (hnot : request.writesDirectory = false) : rt ∈ s.state.routes := by
    have hroutes : ((s.call codecs request).toOption.getD s).state.routes = s.state.routes :=
      congrArg Prod.snd (directory_call_of_not_writes hnot)
    rwa [hroutes] at h
  cases request with
  | addRoute v =>
    rcases mem_append.mp h with h | h
    · exact .inl h
    · exact .inr (congrArg _ (mem_singleton.mp h).symm)
  | deleteRoute id =>
    simp only [call, deleteRoute, deleteWith] at h
    split at h
    · exact .inl (mem_of_mem_filter h)
    · exact .inl h
  | addSite v =>
    refine .inl (hsame fun m hplan => ?_)
    cases hplan
    rfl
  | updateSite id fn =>
    refine .inl (hsame fun m hplan => ?_)
    obtain ⟨v, -, rfl⟩ := Option.map_eq_some_iff.mp hplan
    rfl
  | _ => exact .inl (hkeeps rfl)

end

end Store

end Nodra
