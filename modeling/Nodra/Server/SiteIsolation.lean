import Nodra.Server.Agents
import Nodra.Server.OtaLifecycle
import Nodra.Server.SiteRecords

/-! What a request of one site's agent does to the records of the other sites. -/
namespace Nodra.Server
open Model Std Interleave Program Option

section

variable {env : Env} {oracle : AgentPoint → Choice} {choice : Choice} {s : Server}

theorem elsewhere_storeCall {siteID : String} {there : Bool} {request : Store.Call}
    (h : ∀ m ∈ s.store.plan request,
      (recordsOf (m.update s.store.state)).elsewhere siteID = (recordsOf s.store.state).elsewhere siteID) :
    elsewhere siteID (storeCall env choice s there request).1 = elsewhere siteID s := by
  unfold storeCall
  split
  · rfl
  · split
    · exact Store.state_call (fun st => (recordsOf st).elsewhere siteID) h
    · rfl

theorem elsewhere_raiseAlert (siteID : String) (site type message : String) :
    elsewhere siteID ((raiseAlert env site type message).eval oracle s).1 = elsewhere siteID s := by
  refine elsewhere_storeCall fun m hplan => ?_
  obtain rfl := Option.some.inj hplan
  simp only [Store.Mutation.update, recordsOf]

theorem elsewhere_heartbeat (r : HeartbeatRequest) :
    elsewhere r.siteID ((heartbeat env r).eval oracle s).1 = elsewhere r.siteID s := by
  simp only [heartbeat, eval_bind, eval_access]
  split
  · rfl
  · simp only [eval_access]
    refine elsewhere_storeCall fun m hplan => ?_
    obtain ⟨v, hv, rfl⟩ := map_eq_some_iff.mp hplan
    have hid : v.id = r.siteID := by simpa using List.find?_some hv
    have hsites := (KeyedList.filter_upsert_of_some_iff Site.id (p := fun site => site.id ≠ r.siteID)
      (v := r.site (oracle .updateSite).now v) (x := v) (by simpa [HeartbeatRequest.site, hid] using hv)).mpr
      (.inr (by simp [HeartbeatRequest.site, hid]))
    simp only [Store.Mutation.update, recordsOf, Records.elsewhere, hsites]

theorem elsewhere_events (siteID : String) (r : Request) (steps : Nat) :
    elsewhere siteID ((eventSteps env r steps .arrive).eval oracle s).1 = elsewhere siteID s := by
  refine elsewhere_of_records (state_eventSteps (fun st v => ?_) oracle steps .arrive)
  simp only [Store.Mutation.update, recordsOf]

theorem agentDeployment_ok {deploymentID siteID : String} {dep : Deployment}
    (h : agentDeployment s deploymentID siteID = .ok dep) :
    s.store.deployment deploymentID = some dep ∧ dep.siteID = siteID := by
  unfold agentDeployment at h
  split at h
  · cases h
  · next hfound =>
    split at h
    · cases h
    · next hsite =>
      cases h
      exact ⟨hfound, not_not.mp hsite⟩

theorem elsewhere_updateDeployment {deploymentID siteID : String} {dep : Deployment}
    {fn : Time → Deployment → Deployment} (h : agentDeployment s deploymentID siteID = .ok dep)
    (hfn : ∀ now d, (fn now d).id = d.id ∧ (fn now d).siteID = d.siteID) :
    elsewhere siteID ((updateDeployment env deploymentID fn).eval oracle s).1 = elsewhere siteID s := by
  obtain ⟨hfound, hsite⟩ := agentDeployment_ok h
  simp only [updateDeployment, eval_access]
  refine elsewhere_storeCall fun m hplan => ?_
  obtain ⟨v, hv, rfl⟩ := map_eq_some_iff.mp hplan
  obtain rfl : dep = v := Option.some.inj (hfound.symm.trans hv)
  obtain ⟨hid, hsite'⟩ := hfn (oracle .updateDeployment).now dep
  have hkey : s.store.state.deployments.find?
      (fun d => d.id = (fn (oracle .updateDeployment).now dep).id) = some dep := by
    have hdep : dep.id = deploymentID := by simpa using List.find?_some hv
    rw [hid, hdep]
    exact hv
  have hdeployments := (KeyedList.filter_upsert_of_some_iff Deployment.id
    (p := fun d => d.siteID ≠ siteID) hkey).mpr (.inr (by simp [hsite', hsite]))
  have hreplace := KeyedList.replace_eq_upsert Deployment.id (isSome_iff_exists.mpr ⟨dep, hkey⟩)
  simp only [Store.Mutation.update, recordsOf, Records.elsewhere, hreplace, hdeployments]

theorem elsewhere_deploymentStatus (r : DeploymentStatusRequest) :
    elsewhere r.siteID ((agentDeploymentStatus env r).eval oracle s).1 = elsewhere r.siteID s := by
  simp only [agentDeploymentStatus, arrive, eval_bind, eval_access]
  split
  · rfl
  simp only [eval_bind, eval_read]
  split
  · rfl
  next dep hdep =>
  have hupdate := @elsewhere_updateDeployment env oracle s r.deploymentID r.siteID dep r.deployment hdep
    fun _ _ => ⟨rfl, rfl⟩
  simp only [eval_bind]
  split
  · exact hupdate
  · split
    · simp only [eval_bind]
      exact (elsewhere_raiseAlert _ _ _ _).trans hupdate
    · exact hupdate

theorem elsewhere_deploymentRollback (r : RollbackRequest) :
    elsewhere r.siteID ((agentDeploymentRollback env r).eval oracle s).1 = elsewhere r.siteID s := by
  simp only [agentDeploymentRollback, arrive, eval_bind, eval_access]
  split
  · rfl
  simp only [eval_bind, eval_read]
  split
  · rfl
  next dep hdep =>
  split
  · simp only [eval_bind]
    exact elsewhere_raiseAlert _ _ _ _
  · have hupdate := @elsewhere_updateDeployment env oracle s r.deploymentID r.siteID dep rolledBack hdep
      fun _ _ => ⟨rfl, rfl⟩
    simp only [eval_bind]
    split
    · exact hupdate
    · simp only [eval_bind]
      exact (elsewhere_raiseAlert _ _ _ _).trans hupdate

def DeviceRequest.Takes (env : Env) (oracle : AgentPoint → Choice) (s : Server) (r : DeviceRequest) : Prop :=
  refusal env (oracle .arrive) s r.toCredentials r.device.siteID = none ∧
    r.device.name ≠ "" ∧ r.device.protocol ≠ "" ∧ (oracle .addDevice).error = none ∧
    ∃ dev, s.store.device (r.registered (oracle .addDevice)).id = some dev ∧
      dev.siteID ≠ r.device.siteID

theorem elsewhere_newTwin {siteID : String} {dev : Device} {now : Time} (hsite : dev.siteID = siteID)
    (h : s.store.twin dev.id = none) :
    elsewhere siteID (storeCall env choice s true (.setTwin (newTwin dev now))).1 = elsewhere siteID s := by
  refine elsewhere_storeCall fun m hplan => ?_
  obtain rfl := Option.some.inj hplan
  have htwins := (KeyedList.filter_upsert_of_none_iff Twin.deviceID (p := fun tw => tw.siteID ≠ siteID)
    (v := newTwin dev now) h).mpr (by simp [newTwin, hsite])
  simp only [Store.Mutation.update, recordsOf, Records.elsewhere, htwins]

theorem elsewhere_addDevice_iff {siteID : String} {dev : Device} (hsite : dev.siteID = siteID) :
    elsewhere siteID ((Action.storeCall (.addDevice dev)).run env s) = elsewhere siteID s ↔
      ¬ ∃ old, s.store.device dev.id = some old ∧ old.siteID ≠ siteID := by
  have hstate : ((Action.storeCall (.addDevice dev)).run env s).store.state =
      { s.store.state with devices := KeyedList.upsert Device.id dev s.store.state.devices } := rfl
  have hdevices : elsewhere siteID ((Action.storeCall (.addDevice dev)).run env s) = elsewhere siteID s ↔
      ((KeyedList.upsert Device.id dev s.store.state.devices).filter fun d => d.siteID ≠ siteID) =
        s.store.state.devices.filter fun d => d.siteID ≠ siteID := by
    simp [elsewhere, Records.elsewhere, recordsOf, hstate]
  rw [hdevices]
  cases hfound : s.store.device dev.id with
  | none =>
    rw [KeyedList.filter_upsert_of_none_iff Device.id hfound]
    simp [hsite]
  | some old =>
    rw [KeyedList.filter_upsert_of_some_iff Device.id hfound]
    simp only [hsite, ne_eq, not_true_eq_false, decide_false, and_true, decide_eq_false_iff_not, not_not,
      Option.some.injEq, exists_eq_left', or_iff_right_iff_imp]
    rintro rfl
    exact hsite

theorem elsewhere_registerDevice_iff (r : DeviceRequest) :
    elsewhere r.device.siteID ((registerDevice env r).eval oracle s).1 = elsewhere r.device.siteID s ↔
      ¬ r.Takes env oracle s := by
  unfold DeviceRequest.Takes
  simp only [registerDevice, arrive, eval_bind, eval_access]
  cases hrefusal : refusal env (oracle .arrive) s r.toCredentials r.device.siteID with
  | some reply => simp
  | none =>
  simp only [true_and]
  split
  · next hrequired => simp; tauto
  next hrequired =>
  obtain ⟨hname, hprotocol⟩ := not_or.mp hrequired
  simp only [eval_bind, eval_access, hname, hprotocol, ne_eq, not_false_eq_true, true_and]
  cases herror : (oracle .addDevice).error with
  | some err => simp [storeCall, herror]
  | none =>
  have hadd := @elsewhere_addDevice_iff env s r.device.siteID (r.registered (oracle .addDevice)) rfl
  have hcall : storeCall env (oracle .addDevice) s true (.addDevice (r.registered (oracle .addDevice))) =
      ((Action.storeCall (.addDevice (r.registered (oracle .addDevice)))).run env s, none) := by
    simp [storeCall, herror]
  simp only [hcall, eval_bind, eval_read, true_and]
  refine Iff.trans ?_ hadd
  split
  · rfl
  · next htwin =>
    have hsite : (r.registered (oracle .addDevice)).siteID = r.device.siteID := rfl
    simp only [eval_bind, eval_access, eval_pure]
    rw [elsewhere_newTwin hsite htwin]

def ReportedRequest.Takes (env : Env) (oracle : AgentPoint → Choice) (s : Server) (r : ReportedRequest) :
    Prop :=
  refusal env (oracle .arrive) s r.toCredentials r.siteID = none ∧
    (∃ dev, agentDevice s r.deviceID r.siteID = .ok dev) ∧ (oracle .updateTwin).error = none ∧
    ∃ tw, s.store.twin r.deviceID = some tw ∧ tw.siteID ≠ r.siteID

theorem elsewhere_twinReported_iff (r : ReportedRequest) :
    elsewhere r.siteID ((agentTwinReportedProc env r).eval oracle s).1 = elsewhere r.siteID s ↔
      ¬ r.Takes env oracle s := by
  unfold ReportedRequest.Takes
  simp only [agentTwinReportedProc, arrive, eval_bind, eval_access]
  cases hrefusal : refusal env (oracle .arrive) s r.toCredentials r.siteID with
  | some reply => simp
  | none =>
  simp only [eval_bind, eval_read]
  cases hdevice : agentDevice s r.deviceID r.siteID with
  | error reply => simp
  | ok dev =>
  obtain ⟨hid, -⟩ := agentDevice_ok hdevice
  have hfst : (recordReported env (oracle .updateTwin) s dev r).1 =
      (updateTwin env (oracle .updateTwin) s dev.id
        (withReported dev r.siteID r.reported (oracle .updateTwin).now) id).1 := by
    unfold recordReported replyUpdate
    simp only
    split <;> rfl
  have hiff := @elsewhere_updateTwin_iff (oracle .updateTwin) s r.siteID dev.id env
    (withReported dev r.siteID r.reported (oracle .updateTwin).now) id (fun _ _ => rfl) fun _ => rfl
  simp only [eval_access, hfst]
  rw [hiff, hid]
  cases htwin : s.store.twin r.deviceID with
  | none => simp [withReported]
  | some tw =>
    cases herror : (oracle .updateTwin).error with
    | some err => simp [TwinKept]
    | none =>
      have hnew : (withReported dev r.siteID r.reported (oracle .updateTwin).now tw).siteID = r.siteID := rfl
      simp only [TwinKept, isNone_none, if_true, hnew, and_true, true_and, Except.ok.injEq,
        exists_eq', Option.some.injEq, exists_eq_left', ne_eq, not_not, or_iff_right_iff_imp]
      intro hsame
      rw [← hnew, hsame]

end

section

def outcomeAfter (env : TwinEnv) (s : Server) (deviceID : String) (status : Ota.Status)
    (d : OTACampaignDevice) : Option Ota.State :=
  if d.deviceID = deviceID then
    if status.updateID ≠ "" ∧ status.updateID ≠ d.updateID then none else some status.state
  else outcome env s d

/-- A status is written to the twin that another site has of the device; if the update fails,
to the map in memory. -/
def StatusRequest.TakesTwin (env : TwinEnv) (update : Choice) (s : Server) (r : StatusRequest)
    (status : Ota.Status) : Prop :=
  ∃ tw, s.store.twin r.deviceID = some tw ∧ tw.siteID ≠ r.siteID ∧
    (update.error = none ∨
      ¬ tw.reported.isEmpty ∧ tw.reported[otaTwinKey]? ≠ some (env.status.toAny status))

/-- A status takes the twin of another site, or the campaigns that it aborts withdraw requests
there. -/
def StatusRequest.Takes (env : TwinEnv) (oracle : Label → Choice) (s : Server) (r : StatusRequest) : Prop :=
  refusal env.toEnv (oracle { point := .arrive }) s r.toCredentials r.siteID = none ∧
    ∃ dev status, agentDevice s r.deviceID r.siteID = .ok dev ∧ r.checked env dev = .ok status ∧
      transitionError env (currentTwin s r.deviceID) status = none ∧
      (r.TakesTwin env (oracle { point := .record }) s status ∨
        (oracle { point := .record }).error = none ∧
          SyncsElsewhere (fun choice deviceID updateID => deviceID ≠ r.deviceID ∧
              ClearShows env r.siteID s choice deviceID updateID)
            s (outcomeAfter env s r.deviceID status) oracle
            (s.store.state.otaCampaigns.filter (concerns r.deviceID status)))

def touchedTwin (env : TwinEnv) (status : Ota.Status) (tw : Twin) : Twin :=
  { tw with reported := writeShared tw.reported otaTwinKey (env.status.toAny status) }

variable {env : TwinEnv} {oracle : Label → Choice} {choice : Choice} {s : Server} {dev : Device}
  {siteID : String} {status : Ota.Status} {tw : Twin}

theorem touchedTwin_eq_iff : touchedTwin env status tw = tw ↔
    tw.reported.isEmpty ∨ tw.reported[otaTwinKey]? = some (env.status.toAny status) := by
  have hreported : touchedTwin env status tw = tw ↔
      writeShared tw.reported otaTwinKey (env.status.toAny status) = tw.reported := by
    refine ⟨fun h => congrArg Twin.reported h, fun h => ?_⟩
    unfold touchedTwin
    rw [h]
  rw [hreported]
  unfold writeShared
  split
  · next hempty => simp [hempty]
  · next hempty =>
    simp only [hempty, Bool.false_eq_true, false_or]
    constructor
    · intro h
      rw [← h, ExtTreeMap.getElem?_insert_self]
    · intro h
      refine ExtTreeMap.ext_getElem? fun key => ?_
      rw [ExtTreeMap.getElem?_insert]
      split
      · next hkey => rw [← LawfulEqCmp.eq_of_compare hkey, h]
      · rfl

theorem recordStatus_fst (h : transitionError env (currentTwin s dev.id) status = none) :
    (recordStatus env choice s dev siteID status).1 =
      (updateTwin env.toEnv choice s dev.id (withStatus env dev siteID status choice.now)
        (touchedTwin env status)).1 := by
  simp only [recordStatus, h]
  split <;> rfl

variable {r : StatusRequest} {deviceID : String}

theorem elsewhere_recordStatus_iff (hid : dev.id = r.deviceID)
    (h : transitionError env (currentTwin s dev.id) status = none) :
    elsewhere r.siteID (recordStatus env choice s dev r.siteID status).1 = elsewhere r.siteID s ↔
      ¬ r.TakesTwin env choice s status := by
  have hiff := @elsewhere_updateTwin_iff choice s r.siteID dev.id env.toEnv
    (withStatus env dev r.siteID status choice.now) (touchedTwin env status) (fun _ _ => rfl) fun _ => rfl
  rw [recordStatus_fst h, hiff, hid]
  unfold StatusRequest.TakesTwin
  cases htwin : s.store.twin r.deviceID with
  | none => simp [withStatus]
  | some tw =>
    cases choice.error with
    | none =>
      have hnew : (withStatus env dev r.siteID status choice.now tw).siteID = r.siteID := rfl
      simp only [TwinKept, isNone_none, if_true, hnew, and_true, true_or, Option.some.injEq,
        exists_eq_left', ne_eq, not_not, or_iff_right_iff_imp]
      intro hsame
      rw [← hnew, hsame]
    | some err =>
      have hsite : (touchedTwin env status tw).siteID = tw.siteID := rfl
      simp only [isNone_some, Bool.false_eq_true, if_false, TwinKept, hsite, and_self,
        touchedTwin_eq_iff, Option.some.injEq, exists_eq_left', reduceCtorEq, false_or]
      tauto

theorem outcome_recordStatus (h : transitionError env (currentTwin s dev.id) status = none)
    (herror : choice.error = none) :
    outcome env (recordStatus env choice s dev siteID status).1 = outcomeAfter env s dev.id status := by
  funext d
  rw [outcome_eq, otaReport, storedOta_recordStatus h, herror]
  unfold outcomeAfter
  by_cases hid : d.deviceID = dev.id
  · rw [if_pos ⟨hid.symm, .inl rfl⟩, if_pos hid, bind_some, env.status.ofAny_toAny, bind_some]
  · rw [if_neg fun h => hid h.1.symm, if_neg hid, outcome_eq]
    rfl

theorem twin_recordStatus (h : transitionError env (currentTwin s dev.id) status = none)
    (herror : choice.error = none) (other : String) :
    (recordStatus env choice s dev siteID status).1.store.twin other =
      if dev.id = other then some (withStatus env dev siteID status choice.now (currentTwin s dev.id))
      else s.store.twin other := by
  have hfn (v : Twin) (_ : v.deviceID = dev.id) :
      (withStatus env dev siteID status choice.now v).deviceID = dev.id := rfl
  have hshared (v : Twin) : (touchedTwin env status v).deviceID = v.deviceID := rfl
  rw [recordStatus_fst h, twin_updateTwin hfn hshared, herror]
  rfl

theorem clearShows_recordStatus (h : transitionError env (currentTwin s dev.id) status = none)
    (herror : choice.error = none) :
    ClearShows env siteID (recordStatus env choice s dev siteID status).1 =
      fun choice deviceID updateID => deviceID ≠ dev.id ∧ ClearShows env siteID s choice deviceID updateID := by
  funext choice' deviceID updateID
  unfold ClearShows
  rw [twin_recordStatus h herror]
  by_cases hid : deviceID = dev.id
  · simp [hid, withStatus]
  · simp [hid, Ne.symm hid]

theorem twinsElsewhere_recordStatus (hid : dev.id = r.deviceID)
    (h : transitionError env (currentTwin s dev.id) status = none) (herror : choice.error = none)
    (htakes : r.TakesTwin env choice s status) :
    twinsElsewhere r.siteID r.deviceID (recordStatus env choice s dev r.siteID status).1 + 1 =
      twinsElsewhere r.siteID r.deviceID s := by
  obtain ⟨tw, htwin, hsite, -⟩ := htakes
  rw [← hid] at htwin ⊢
  have hkey : s.store.state.twins.find?
      (fun v => v.deviceID = (withStatus env dev r.siteID status choice.now tw).deviceID) = some tw := htwin
  have hupsert := KeyedList.countP_upsert_of_some Twin.deviceID
    (p := fun tw => tw.deviceID = dev.id && tw.siteID ≠ r.siteID) hkey
  have hfn (v : Twin) (_ : v.deviceID = dev.id) :
      (withStatus env dev r.siteID status choice.now v).deviceID = dev.id := rfl
  rw [twinsElsewhere_eq, twinsElsewhere_eq, recordStatus_fst h, state_updateTwin hfn, herror]
  simp only [currentTwin, htwin, getD_some]
  simpa [withStatus, Store.deviceID_of_twin htwin, hsite] using hupsert

theorem records_alertStatus (s : Server) :
    recordsOf (alertStatus env choice s dev siteID status).store.state = recordsOf s.store.state := by
  unfold alertStatus
  split
  · split
    · rfl
    · exact records_addAlert _
  · rfl

theorem active_of_concerns {c : OTACampaign} (h : concerns deviceID status c) :
    active c.status := by
  simp only [concerns, Bool.and_eq_true, Bool.or_eq_true, decide_eq_true_eq] at h
  exact h.1

theorem shows_syncForDevice :
    Shows env siteID (SyncsElsewhere (ClearShows env siteID s) s (outcome env s) oracle
        (s.store.state.otaCampaigns.filter (concerns deviceID status))) s
      ((syncOTACampaignsForDevice env deviceID status).eval oracle s).1 ∧
    KeepsTwins siteID deviceID s ((syncOTACampaignsForDevice env deviceID status).eval oracle s).1 := by
  have hactive (c : OTACampaign) (hc : c ∈ s.store.state.otaCampaigns.filter (concerns deviceID status)) :
      active c.status := active_of_concerns (List.mem_filter.mp hc).2
  simp only [syncOTACampaignsForDevice, eval_bind, eval_lookup]
  exact ⟨shows_sync hactive, keepsTwins_sync hactive⟩

theorem elsewhere_recorded_iff (hid : dev.id = r.deviceID)
    (h : transitionError env (currentTwin s dev.id) status = none) {update alert : Choice}
    (herror : update.error = none) :
    elsewhere r.siteID ((syncOTACampaignsForDevice env dev.id status).eval oracle
        (alertStatus env alert (recordStatus env update s dev r.siteID status).1 dev r.siteID status)).1 =
        elsewhere r.siteID s ↔
      ¬ (r.TakesTwin env update s status ∨
        SyncsElsewhere (fun choice deviceID updateID => deviceID ≠ r.deviceID ∧
            ClearShows env r.siteID s choice deviceID updateID)
          s (outcomeAfter env s r.deviceID status) oracle
          (s.store.state.otaCampaigns.filter (concerns r.deviceID status))) := by
  have hoverall := @elsewhere_recordStatus_iff env update s dev status r hid h
  have hcampaigns := @otaCampaigns_recordStatus env update s dev r.siteID status
  have hdevices : (recordStatus env update s dev r.siteID status).1.store.state.devices =
      s.store.state.devices := by
    rw [recordStatus_fst h]
    exact devices_updateTwin _ _ _
  have hshows := @clearShows_recordStatus env update s dev r.siteID status h herror
  have houtcome := @outcome_recordStatus env update s dev r.siteID status h herror
  have hthere : ((recordStatus env update s dev r.siteID status).1.store.twin dev.id).isSome := by
    rw [twin_recordStatus h herror, if_pos rfl]
    rfl
  have hcount := @twinsElsewhere_recordStatus env update s dev status r hid h herror
  rw [← hid] at hcount ⊢
  generalize (recordStatus env update s dev r.siteID status).1 = s₁ at *
  have halert := @records_alertStatus env alert dev r.siteID status s₁
  have hcampaigns' := @otaCampaigns_alertStatus env alert s₁ dev r.siteID status
  have hreports : outcome env (alertStatus env alert s₁ dev r.siteID status) = outcome env s₁ :=
    outcome_congr fun _ => storedOta_alertStatus status
  generalize alertStatus env alert s₁ dev r.siteID status = s₂ at *
  obtain ⟨hsync, hkeeps⟩ := @shows_syncForDevice env oracle s₂ r.siteID status dev.id
  by_cases htakes : r.TakesTwin env update s status
  · -- the twin is gone from the other site, and does not come back
    refine iff_of_false (fun hsame => ?_) (not_not_intro (.inl htakes))
    have hkept := ((KeepsTwins.of_records halert).trans hkeeps hthere).2
    have hback : twinsElsewhere r.siteID dev.id
        ((syncOTACampaignsForDevice env dev.id status).eval oracle s₂).1 =
          twinsElsewhere r.siteID dev.id s := by
      unfold twinsElsewhere
      rw [hsame]
    have hless := hcount htakes
    omega
  · have hkept : elsewhere r.siteID s₂ = elsewhere r.siteID s :=
      (elsewhere_of_records halert).trans (hoverall.mpr htakes)
    have hsame : Alike env r.siteID s₁ s₂ := .of_records halert
    rw [← hkept, hsync.records_iff, hsame.shows, hshows, hreports, houtcome, hcampaigns', hcampaigns,
      syncsElsewhere_congr ((congrArg Records.devices halert).trans hdevices)]
    simp [htakes]

theorem elsewhere_otaStatus_iff (r : StatusRequest) :
    elsewhere r.siteID ((agentOTAStatusProc env r).eval oracle s).1 = elsewhere r.siteID s ↔
      ¬ r.Takes env oracle s := by
  unfold StatusRequest.Takes
  simp only [agentOTAStatusProc, eval_bind, eval_write]
  cases hrefusal : refusal env.toEnv (oracle { point := .arrive }) s r.toCredentials r.siteID with
  | some reply => simp
  | none =>
  simp only [eval_bind, eval_lookup]
  cases hdevice : agentDevice s r.deviceID r.siteID with
  | error reply => simp
  | ok dev =>
  obtain ⟨hid, -⟩ := agentDevice_ok hdevice
  cases hchecked : r.checked env dev with
  | error reply =>
    simp only [hchecked, eval_pure, true_iff]
    rintro ⟨-, dev', status, hdev', hstatus, -⟩
    cases hdev'
    exact absurd (hchecked.symm.trans hstatus) nofun
  | ok status =>
  have htakes {P : Device → Ota.Status → Prop} :
      (∃ dev' status', (.ok dev : Except TwinReply Device) = .ok dev' ∧
        r.checked env dev' = .ok status' ∧ P dev' status') ↔ P dev status := by
    constructor
    · rintro ⟨dev', status', hdev', hstatus, h⟩
      cases hdev'
      cases hchecked.symm.trans hstatus
      exact h
    · exact fun h => ⟨dev, status, rfl, hchecked, h⟩
  simp only [htakes, true_and]
  simp only [hchecked, eval_bind, eval_write]
  cases htransition : transitionError env (currentTwin s r.deviceID) status with
  | some err =>
    have hobjection : recordStatus env (oracle { point := .record }) s dev r.siteID status =
        ((updateTwin env.toEnv (oracle { point := .record }) s dev.id id id).1,
          .error { code := 409, error := err }) := by
      simp only [recordStatus, hid, htransition]
    have hiff := @elsewhere_updateTwin_iff (oracle { point := .record }) s r.siteID r.deviceID env.toEnv
      id id (fun _ hv => hv) fun _ => rfl
    simp only [hobjection, eval_pure, reduceCtorEq, false_and, not_false_eq_true, iff_true]
    rw [hid, hiff]
    cases htwin : s.store.twin r.deviceID with
    | none =>
      -- without a twin there is no report to object to
      rw [currentTwin, htwin] at htransition
      simp [transitionError, otaStatusFromReported] at htransition
    | some tw => simp [TwinKept]
  | none =>
    rw [← hid] at htransition
    have hrecord := @elsewhere_recordStatus_iff env (oracle { point := .record }) s dev status r hid
      htransition
    cases herror : (oracle { point := .record }).error with
    | some err =>
      have herr : (recordStatus env (oracle { point := .record }) s dev r.siteID status).2 =
          .error { code := 507, error := err } := by
        simp only [recordStatus, htransition, updateTwin_snd, herror]
      simp only [herr, eval_pure, hrecord, true_and, reduceCtorEq, false_and, or_false]
    | none =>
      have hok : ∃ tw, (recordStatus env (oracle { point := .record }) s dev r.siteID status).2 = .ok tw := by
        simp only [recordStatus, htransition, updateTwin_snd, herror]
        exact ⟨_, rfl⟩
      obtain ⟨tw, hok⟩ := hok
      simp only [hok, eval_bind, eval_write, eval_pure, true_and]
      exact elsewhere_recorded_iff hid htransition herror

/-- The requests that reach the records of another site.  Heartbeats, events and the requests for
deployments never do. -/
def AgentRequest.Takes (env : TwinEnv) (oracle : AgentPoint → Choice) (s : Server) : AgentRequest → Prop
  | .registerDevice r => r.Takes env.toEnv oracle s
  | .twinReported r => r.Takes env.toEnv oracle s
  | .otaStatus r => r.Takes env (fun label => oracle (.campaign label)) s
  | _ => False

/-- The records of the other sites are what they were, unless the request takes a device or a
twin away from one of them, or withdraws an update there. -/
theorem other_sites_unchanged_iff (env : TwinEnv) (oracle : AgentPoint → Choice) (s : Server)
    (r : AgentRequest) :
    elsewhere r.siteID (r.run env oracle s) = elsewhere r.siteID s ↔ ¬ r.Takes env oracle s := by
  cases r with
  | registerDevice r =>
    simp only [AgentRequest.run, AgentRequest.program, eval_bind]
    exact elsewhere_registerDevice_iff r
  | twinReported r =>
    simp only [AgentRequest.run, AgentRequest.program, eval_bind]
    exact elsewhere_twinReported_iff r
  | otaStatus r =>
    simp only [AgentRequest.run, AgentRequest.program, eval_bind, eval_relabel]
    exact elsewhere_otaStatus_iff r
  | heartbeat r =>
    simp only [AgentRequest.run, AgentRequest.program, eval_bind]
    exact iff_of_true (elsewhere_heartbeat r) not_false
  | events r steps => exact iff_of_true (elsewhere_events r.siteID r steps) not_false
  | deploymentStatus r =>
    simp only [AgentRequest.run, AgentRequest.program, eval_bind]
    exact iff_of_true (elsewhere_deploymentStatus r) not_false
  | deploymentRollback r =>
    simp only [AgentRequest.run, AgentRequest.program, eval_bind]
    exact iff_of_true (elsewhere_deploymentRollback r) not_false

end

/-- Site `s` is registered, and the one device belongs to another site. -/
def otherSiteServer : Server :=
  { someServer with
    store := { someStore with
      state := { someStore.state with devices := [{ id := "d", siteID := "other", name := "press" }] } } }

def takingRequest : DeviceRequest where
  bearer := "token"
  device := { id := "d", siteID := "s", name := "pump", protocol := "mqtt" }

/-- The device of the other site is gone. -/
theorem registered_device_taken :
    (elsewhere "s" otherSiteServer).devices.map Device.name = ["press"] ∧
      (elsewhere "s" ((AgentRequest.registerDevice takingRequest).run twinEnv (fun _ => {})
        otherSiteServer)).devices = [] := by
  decide

end Nodra.Server
