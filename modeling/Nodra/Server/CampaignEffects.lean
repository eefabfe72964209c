import Nodra.Server.Campaigns

/-! What the store calls of the campaign handlers do to campaigns and to twins. -/
namespace Nodra.Server
open Model Std Interleave Option

variable {env : TwinEnv} {choice : Choice} {s : Server} {id deviceID campaignID : String} {dev : Device}

section

theorem otaCampaigns_updateTwin (env : Env) (fn shared : Twin → Twin) :
    (updateTwin env choice s deviceID fn shared).1.store.state.otaCampaigns =
      s.store.state.otaCampaigns := by
  unfold updateTwin
  split
  · exact Store.otaCampaigns_call rfl
  · unfold Store.touchTwin
    split <;> rfl

theorem devices_updateTwin (env : Env) (fn shared : Twin → Twin) :
    (updateTwin env choice s deviceID fn shared).1.store.state.devices = s.store.state.devices := by
  unfold updateTwin
  split
  · exact Store.devices_call fun _ => nofun
  · unfold Store.touchTwin
    split <;> rfl

theorem otaCampaigns_recordStatus (dev : Device) (siteID : String) (status : Ota.Status) :
    (recordStatus env choice s dev siteID status).1.store.state.otaCampaigns =
      s.store.state.otaCampaigns := by
  unfold recordStatus
  split
  · exact otaCampaigns_updateTwin _ _ _
  · simp only
    split <;> exact otaCampaigns_updateTwin _ _ _

theorem otaCampaigns_alertStatus (dev : Device) (siteID : String) (status : Ota.Status) :
    (alertStatus env choice s dev siteID status).store.state.otaCampaigns =
      s.store.state.otaCampaigns := by
  unfold alertStatus
  split
  · split
    · rfl
    · exact Store.otaCampaigns_call rfl
  · rfl

theorem otaCampaigns_alertCampaign (env : Env) (c : OTACampaign) (t : Tally) :
    (alertCampaign env choice s c t).store.state.otaCampaigns = s.store.state.otaCampaigns := by
  unfold alertCampaign
  split
  · rfl
  · exact Store.otaCampaigns_call rfl

theorem twin_alertCampaign (env : Env) (c : OTACampaign) (t : Tally) :
    (alertCampaign env choice s c t).store.twin deviceID = s.store.twin deviceID := by
  unfold alertCampaign
  split
  · rfl
  · exact Store.twin_call rfl deviceID

theorem twin_alertStatus (dev : Device) (siteID : String) (status : Ota.Status) :
    (alertStatus env choice s dev siteID status).store.twin deviceID = s.store.twin deviceID := by
  unfold alertStatus
  split
  · split
    · rfl
    · exact Store.twin_call rfl deviceID
  · rfl

def sharedRequest (env : TwinEnv) (req : Ota.Request) (v : Twin) : Twin :=
  { v with desired := writeShared v.desired otaTwinKey (env.request.toAny req) }

theorem setDeviceOTADesired_fst (dev : Device) (req : Ota.Request) :
    (setDeviceOTADesired env choice s dev req).1 =
      if (otaRequestFor dev req).validate env.ota = none then
        (updateTwin env.toEnv choice s dev.id (withRequest env dev (otaRequestFor dev req) choice.now)
          (sharedRequest env (otaRequestFor dev req))).1
      else s := by
  unfold setDeviceOTADesired
  simp only
  split
  · next h => simp [h]
  · next h =>
    rw [if_pos h]
    split <;> rfl

variable {fn : OTACampaign → OTACampaign}

theorem setDeviceOTADesired_ok_iff {req : Ota.Request} :
    (∃ tw, (setDeviceOTADesired env choice s dev req).2 = .ok tw) ↔
      (otaRequestFor dev req).validate env.ota = none ∧ choice.error = none := by
  unfold setDeviceOTADesired
  simp only [updateTwin_snd]
  split
  · next h => simp [h]
  · next h => split <;> simp [*]

theorem otaCampaigns_setDeviceOTADesired (dev : Device) (req : Ota.Request) :
    (setDeviceOTADesired env choice s dev req).1.store.state.otaCampaigns =
      s.store.state.otaCampaigns := by
  rw [setDeviceOTADesired_fst]
  split
  · exact otaCampaigns_updateTwin _ _ _
  · rfl

theorem devices_setDeviceOTADesired (dev : Device) (req : Ota.Request) :
    (setDeviceOTADesired env choice s dev req).1.store.state.devices = s.store.state.devices := by
  rw [setDeviceOTADesired_fst]
  split
  · exact devices_updateTwin _ _ _
  · rfl

theorem twin_setDeviceOTADesired (req : Ota.Request) (h : dev.id ≠ deviceID) :
    (setDeviceOTADesired env choice s dev req).1.store.twin deviceID = s.store.twin deviceID := by
  rw [setDeviceOTADesired_fst]
  split
  · rw [twin_updateTwin, if_neg h]
    · exact fun _ _ => rfl
    · exact fun _ => rfl
  · rfl

theorem otaCampaign_updateOTACampaign (env : Env) (hfn : ∀ v, v.id = campaignID → (fn v).id = campaignID) :
    (updateOTACampaign env choice s campaignID fn).1.store.otaCampaign id =
      if campaignID = id ∧ choice.error = none then (s.store.otaCampaign id).map fn
      else s.store.otaCampaign id := by
  unfold updateOTACampaign
  split
  · next err herror => simp [herror]
  · next herror =>
    split
    · next hnone =>
      split
      · next hid => simp [← hid.1, hnone]
      · rfl
    · next v hsome =>
      have hkey : (fn v).id = campaignID := hfn v (Store.id_of_otaCampaign hsome)
      have hfind : (s.store.state.otaCampaigns.find? fun v => v.id = campaignID) = some v := hsome
      have hstore : ((Action.storeCall (.updateOTACampaign campaignID fn)).run env s).store =
          s.store.mutate env.codecs (.otaCampaignSet (fn v)) := by
        simp only [Action.run, Action.store, Store.call, Store.updateOTACampaign, Store.updateWith,
          hfind]
        rfl
      rw [hstore]
      refine (KeyedList.find?_replace OTACampaign.id (fn v) id _).trans ?_
      rw [hkey]
      by_cases hid : campaignID = id
      · subst hid
        simp [hfind, hsome, herror]
      · simp only [hid, false_and, if_false]
        rfl

theorem status_updateOTACampaign (env : Env) {status : String}
    (hfn : ∀ v, v.id = campaignID → (fn v).id = campaignID)
    (hstatus : ∀ v, (fn v).status = status) :
    ((updateOTACampaign env choice s campaignID fn).1.store.otaCampaign id).map OTACampaign.status =
      if campaignID = id ∧ choice.error = none then (s.store.otaCampaign id).map fun _ => status
      else (s.store.otaCampaign id).map OTACampaign.status := by
  rw [otaCampaign_updateOTACampaign env hfn]
  split
  · rw [Option.map_map]
    exact congrArg (Option.map · _) (funext hstatus)
  · rfl

theorem twin_updateOTACampaign (env : Env) (campaignID : String) (fn : OTACampaign → OTACampaign) :
    (updateOTACampaign env choice s campaignID fn).1.store.twin deviceID = s.store.twin deviceID := by
  unfold updateOTACampaign
  split
  · rfl
  · split
    · rfl
    · exact Store.twin_call rfl deviceID

def campaignIDs (s : Server) : List String := s.store.state.otaCampaigns.map OTACampaign.id

theorem campaignIDs_updateOTACampaign (env : Env) (campaignID : String) (fn : OTACampaign → OTACampaign) :
    campaignIDs (updateOTACampaign env choice s campaignID fn).1 = campaignIDs s := by
  unfold updateOTACampaign
  split
  · rfl
  · split
    · rfl
    · refine Store.state_call (fun st => st.otaCampaigns.map OTACampaign.id) fun m hplan => ?_
      obtain ⟨v, -, rfl⟩ := map_eq_some_iff.mp hplan
      exact KeyedList.map_key_replace OTACampaign.id (fn v) _

theorem updateOTACampaign_snd_eq_none_iff (env : Env) (campaignID : String) (fn : OTACampaign → OTACampaign) :
    (updateOTACampaign env choice s campaignID fn).2 = none ↔
      choice.error = none ∧ (s.store.otaCampaign campaignID).isSome := by
  unfold updateOTACampaign
  split
  · next h => simp [h]
  · next h => split <;> simp [*]

theorem updateOTACampaign_fst_of_error (env : Env) {err : String}
    (h : (updateOTACampaign env choice s campaignID fn).2 = some err) :
    (updateOTACampaign env choice s campaignID fn).1 = s := by
  revert h
  unfold updateOTACampaign
  split
  · exact fun _ => rfl
  · split
    · exact fun _ => rfl
    · intro h
      cases h

theorem otaCampaign_touchDevices (store : Nodra.Store) (campaignID : String)
    (devices : List OTACampaignDevice) :
    (store.touchDevices campaignID devices).otaCampaign id =
      if campaignID = id then (store.otaCampaign id).map fun v => { v with devices }
      else store.otaCampaign id := by
  fun_cases Store.touchDevices store campaignID devices
  · next hnone =>
    split
    · next hid => rw [← hid, hnone, map_none]
    · rfl
  · next v hsome =>
    obtain rfl : v.id = campaignID := Store.id_of_otaCampaign hsome
    refine (KeyedList.find?_replace OTACampaign.id { v with devices } id _).trans ?_
    simp only
    split
    · next hid =>
      have hfind : (store.state.otaCampaigns.find? fun v => v.id = id) = some v := hid ▸ hsome
      rw [show store.otaCampaign id = some v from hfind, hfind]
      rfl
    · rfl

theorem twin_touchDevices (store : Nodra.Store) (campaignID : String) (devices : List OTACampaignDevice) :
    (store.touchDevices campaignID devices).twin deviceID = store.twin deviceID := by
  unfold Store.touchDevices
  split <;> rfl

theorem map_id_touchDevices (store : Nodra.Store) (campaignID : String) (devices : List OTACampaignDevice) :
    (store.touchDevices campaignID devices).state.otaCampaigns.map OTACampaign.id =
      store.state.otaCampaigns.map OTACampaign.id := by
  unfold Store.touchDevices
  split
  · rfl
  · exact KeyedList.map_key_replace OTACampaign.id _ _

end

section

variable {shared : Bool} {c : OTACampaign}

@[simp] theorem stamped_id : (stamped choice c).id = c.id := by
  unfold stamped
  split <;> rfl

@[simp] theorem stamped_status : (stamped choice c).status = c.status := by
  unfold stamped
  split <;> rfl

@[simp] theorem stamped_devices : (stamped choice c).devices = c.devices := by
  unfold stamped
  split <;> rfl

theorem twin_storeRefreshed (env : Env) :
    (storeRefreshed env choice s shared c).store.twin deviceID = s.store.twin deviceID := by
  unfold storeRefreshed
  simp only
  split
  · rw [twin_touchDevices, twin_updateOTACampaign]
  · exact twin_updateOTACampaign _ _ _

theorem campaignIDs_storeRefreshed (env : Env) :
    campaignIDs (storeRefreshed env choice s shared c) = campaignIDs s := by
  unfold storeRefreshed
  simp only
  split
  · exact (map_id_touchDevices _ _ _).trans (campaignIDs_updateOTACampaign _ _ _)
  · exact campaignIDs_updateOTACampaign _ _ _

theorem status_storeRefreshed (env : Env) :
    ((storeRefreshed env choice s shared c).store.otaCampaign id).map OTACampaign.status =
      if c.id = id ∧ choice.error = none then
        (s.store.otaCampaign id).map fun _ => c.status
      else (s.store.otaCampaign id).map OTACampaign.status := by
  have hupdated : ((updateOTACampaign env choice s c.id fun _ => stamped choice c).1.store.otaCampaign
      id).map OTACampaign.status =
        if c.id = id ∧ choice.error = none then (s.store.otaCampaign id).map fun _ => c.status
        else (s.store.otaCampaign id).map OTACampaign.status :=
    status_updateOTACampaign env (fun _ _ => stamped_id) fun _ => stamped_status
  unfold storeRefreshed
  simp only
  split
  · rw [← hupdated, otaCampaign_touchDevices]
    split
    · rw [Option.map_map]
      rfl
    · rfl
  · exact hupdated

end

section

def requestOf (env : TwinEnv) (updateID : String) (tw : Twin) : Option (Any × Nat) :=
  match tw.desired[otaTwinKey]? with
  | none => none
  | some v =>
    if (env.request.ofAny v).any fun req => req.updateID = updateID then some (v, tw.desiredVersion)
    else none

def issued (env : TwinEnv) (s : Server) (campaignID deviceID : String) : Option (Any × Nat) :=
  (s.store.twin deviceID).bind (requestOf env (campaignUpdateID campaignID deviceID))

def NotNew (env : TwinEnv) (updateID : String) (tw tw' : Twin) : Prop :=
  requestOf env updateID tw' = none ∨ requestOf env updateID tw' = requestOf env updateID tw

variable {updateID : String}

theorem campaignUpdateID_inj {other : String} :
    campaignUpdateID campaignID deviceID = campaignUpdateID other deviceID ↔ campaignID = other := by
  unfold campaignUpdateID
  rw [String.append_assoc, String.append_assoc, String.append_left_inj]

theorem issued_updateTwin {fn shared : Twin → Twin}
    (hid : ∀ v, v.deviceID = id → (fn v).deviceID = id) (hshared : ∀ v, (shared v).deviceID = v.deviceID)
    (hnew : ∀ v, NotNew env (campaignUpdateID campaignID id) v (fn v))
    (htouched : ∀ v, NotNew env (campaignUpdateID campaignID id) v (shared v)) (deviceID : String) :
    issued env (updateTwin env.toEnv choice s id fn shared).1 campaignID deviceID = none ∨
      issued env (updateTwin env.toEnv choice s id fn shared).1 campaignID deviceID =
        issued env s campaignID deviceID := by
  unfold issued
  rw [twin_updateTwin hid hshared]
  split
  · next heq =>
    subst heq
    split
    · have h := hnew (currentTwin s id)
      unfold currentTwin NotNew at h
      cases htwin : s.store.twin id with
      | none =>
        rw [htwin] at h
        refine .inl (h.elim (fun h => ?_) fun h => ?_)
        · simpa [currentTwin, htwin] using h
        · simpa [currentTwin, htwin, requestOf] using h
      | some v =>
        rw [htwin] at h
        simpa [currentTwin, htwin] using h
    · cases htwin : s.store.twin id with
      | none => exact .inl rfl
      | some v => exact htouched v
  · exact .inr rfl

theorem notNew_clearRequest (now : Time) (other : String) (tw : Twin) :
    NotNew env updateID tw (clearRequest env other now tw) := by
  unfold clearRequest
  split
  · left
    simp [requestOf]
  · exact .inr rfl

theorem issued_clearDevice (dev : Device) (other : String) :
    issued env (clearDevice env choice s dev other) campaignID deviceID = none ∨
      issued env (clearDevice env choice s dev other) campaignID deviceID =
        issued env s campaignID deviceID := by
  refine issued_updateTwin (fun v hv => ?_) (fun v => ?_) (fun v => notNew_clearRequest _ _ v)
    (fun v => ?_) deviceID
  · unfold clearRequest
    split <;> exact hv
  · split <;> rfl
  · split
    · left
      simp [requestOf]
    · exact .inr rfl

theorem issued_recordStatus (dev : Device) (siteID : String) (status : Ota.Status) :
    issued env (recordStatus env choice s dev siteID status).1 campaignID deviceID = none ∨
      issued env (recordStatus env choice s dev siteID status).1 campaignID deviceID =
        issued env s campaignID deviceID := by
  unfold recordStatus
  split
  · refine issued_updateTwin ?_ ?_ ?_ ?_ deviceID
    · exact fun _ h => h
    · exact fun _ => rfl
    · exact fun _ => .inr rfl
    · exact fun _ => .inr rfl
  · simp only
    split
    all_goals
      refine issued_updateTwin ?_ ?_ ?_ ?_ deviceID
      · exact fun _ _ => rfl
      · exact fun _ => rfl
      · exact fun _ => .inr rfl
      · exact fun _ => .inr rfl

variable {tw : Twin} {req : Ota.Request}

theorem requestOf_insert (h : req.updateID ≠ updateID)
    (hdesired : tw.desired[otaTwinKey]? = some (env.request.toAny req)) :
    requestOf env updateID tw = none := by
  simp [requestOf, hdesired, env.request.ofAny_toAny, h]

theorem getElem?_sharedRequest (req : Ota.Request) (h : ¬ tw.desired.isEmpty) :
    (sharedRequest env req tw).desired[otaTwinKey]? = some (env.request.toAny req) := by
  simp [sharedRequest, writeShared, h]

theorem sharedRequest_of_isEmpty (req : Ota.Request) (h : tw.desired.isEmpty) :
    sharedRequest env req tw = tw := by
  simp [sharedRequest, writeShared, h]

theorem issued_setDeviceOTADesired (h : req.updateID ≠ campaignUpdateID campaignID dev.id) :
    issued env (setDeviceOTADesired env choice s dev req).1 campaignID deviceID = none ∨
      issued env (setDeviceOTADesired env choice s dev req).1 campaignID deviceID =
        issued env s campaignID deviceID := by
  have hreq : (otaRequestFor dev req).updateID ≠ campaignUpdateID campaignID dev.id := h
  rw [setDeviceOTADesired_fst]
  split
  · refine issued_updateTwin ?_ ?_ ?_ ?_ deviceID
    · exact fun _ _ => rfl
    · exact fun _ => rfl
    · exact fun v => .inl (requestOf_insert hreq (by simp [withRequest]))
    · intro v
      by_cases hempty : v.desired.isEmpty
      · rw [sharedRequest_of_isEmpty _ hempty]
        exact .inr rfl
      · exact .inl (requestOf_insert hreq (getElem?_sharedRequest _ hempty))
  · exact .inr rfl

def Sharing (s : Server) (deviceID : String) : Prop :=
  ∃ tw, s.store.twin deviceID = some tw ∧ ¬ tw.desired.isEmpty

theorem issued_setDeviceOTADesired_self (hupdate : req.updateID = campaignUpdateID campaignID dev.id)
    (hvalid : (otaRequestFor dev req).validate env.ota = none)
    (heffect : choice.error = none ∨ Sharing s dev.id) :
    issued env (setDeviceOTADesired env choice s dev req).1 campaignID dev.id ≠ none := by
  have hreq : (otaRequestFor dev req).updateID = campaignUpdateID campaignID dev.id := hupdate
  unfold issued
  rw [setDeviceOTADesired_fst, if_pos hvalid, twin_updateTwin, if_pos rfl]
  · split
    · simp [requestOf, withRequest, env.request.ofAny_toAny, hreq]
    · next herror =>
      obtain ⟨tw, htwin, hdesired⟩ := heffect.resolve_left (by simpa using herror)
      simp [htwin, requestOf, getElem?_sharedRequest _ hdesired, env.request.ofAny_toAny, hreq]
  · exact fun _ _ => rfl
  · exact fun _ => rfl

theorem issued_setDeviceOTADesired_of_none (h : (otaRequestFor dev req).validate env.ota = none →
      ¬ (choice.error = none ∨ Sharing s dev.id)) :
    issued env (setDeviceOTADesired env choice s dev req).1 campaignID deviceID =
      issued env s campaignID deviceID := by
  rw [setDeviceOTADesired_fst]
  split
  · next hvalid =>
    obtain ⟨herror, hsharing⟩ := not_or.mp (h hvalid)
    refine congrArg (Option.bind · _) ?_
    rw [twin_updateTwin]
    · split
      · next heq =>
        subst heq
        rw [if_neg (by simpa using herror)]
        cases hfound : s.store.twin dev.id with
        | none => rfl
        | some tw =>
          have hempty : tw.desired.isEmpty := by
            by_contra hdesired
            exact hsharing ⟨tw, hfound, hdesired⟩
          rw [map_some, sharedRequest_of_isEmpty _ hempty]
      · rfl
    · exact fun _ _ => rfl
    · exact fun _ => rfl
  · rfl

theorem issued_of_twin {s' : Server} (h : s'.store.twin deviceID = s.store.twin deviceID) :
    issued env s' campaignID deviceID = issued env s campaignID deviceID := by
  unfold issued
  rw [h]

end

end Nodra.Server
