import Nodra.Server.CampaignEffects

/-! A refresh of a campaign in one piece: what it counts, and what it leaves alone. -/
namespace Nodra.Server
open Model Std Interleave Program List Option

variable {env : TwinEnv} {oracle : Label → Choice} {s s' : Server} {choice : Choice} {pass : Pass}
  {shared : Bool} {c v : OTACampaign}

def failing (state : Ota.State) : Bool := state = .failed || state = .rolledBack

def observed (env : TwinEnv) (s : Server) (d : OTACampaignDevice) : OTACampaignDevice :=
  match outcome env s d with
  | none => d
  | some state => { d with state }

def countsFailed (env : TwinEnv) (s : Server) (d : OTACampaignDevice) : Bool :=
  (outcome env s d).any failing

def countsCommitted (env : TwinEnv) (s : Server) (d : OTACampaignDevice) : Bool :=
  outcome env s d = some .committed

def tallyOf (env : TwinEnv) (s : Server) (devices : List OTACampaignDevice) : Tally where
  devices := devices.map (observed env s)
  changed := devices.any fun d => (outcome env s d).any fun state => d.state ≠ state
  failed := devices.countP (countsFailed env s)
  committed := devices.countP (countsCommitted env s)

def Tally.append (t u : Tally) : Tally where
  devices := t.devices ++ u.devices
  changed := t.changed || u.changed
  failed := t.failed + u.failed
  committed := t.committed + u.committed

theorem count_append (t : Tally) (d : OTACampaignDevice) (rest : List OTACampaignDevice) :
    (t.count d (outcome env s d)).append (tallyOf env s rest) = t.append (tallyOf env s (d :: rest)) := by
  cases hstate : outcome env s d with
  | none =>
    simp [Tally.count, Tally.append, tallyOf, observed, countsFailed, countsCommitted, hstate]
  | some state =>
    simp only [Tally.count, Tally.append, tallyOf, observed, countsFailed, countsCommitted, failing,
      hstate, map_cons, countP_cons, any_cons, any_some, append_assoc,
      singleton_append, Bool.or_assoc, Tally.mk.injEq, true_and]
    constructor
    · by_cases hfailed : state = .failed ∨ state = .rolledBack
      · simp [hfailed]
        omega
      · simp [hfailed]
    · by_cases hcommitted : state = .committed
      · simp [hcommitted]
        omega
      · simp [hcommitted]

theorem eval_tally (t : Tally) (devices : List OTACampaignDevice) :
    (tally env t devices).eval oracle s = (s, t.append (tallyOf env s devices)) := by
  induction devices generalizing t with
  | nil => simp [tally, Tally.append, tallyOf]
  | cons d rest ih =>
    simp only [tally, eval_bind, eval_lookup]
    rw [ih, count_append]

theorem eval_tally_all (devices : List OTACampaignDevice) :
    (tally env {} devices).eval oracle s = (s, tallyOf env s devices) := by
  rw [eval_tally]
  simp [Tally.append, tallyOf]

@[simp] theorem observed_deviceID (d : OTACampaignDevice) :
    (observed env s d).deviceID = d.deviceID := by
  unfold observed
  split <;> rfl

@[simp] theorem observed_updateID (d : OTACampaignDevice) :
    (observed env s d).updateID = d.updateID := by
  unfold observed
  split <;> rfl

section

def otaReport (env : TwinEnv) (s : Server) (deviceID : String) : Option Ota.Status :=
  (storedOta s deviceID).bind env.status.ofAny

variable {deviceID : String}

theorem outcome_eq (env : TwinEnv) (s : Server) (d : OTACampaignDevice) :
    outcome env s d = (otaReport env s d.deviceID).bind fun st =>
      if st.updateID ≠ "" ∧ st.updateID ≠ d.updateID then none else some st.state := by
  unfold outcome otaReport storedOta otaStatusFromReported
  cases s.store.twin d.deviceID with
  | none => rfl
  | some tw =>
    simp only [bind_some]
    rcases tw.reported[otaTwinKey]? with _ | v
    · rfl
    · simp only [map_some, bind_some]
      cases env.status.ofAny v <;> rfl

theorem outcome_congr (h : ∀ deviceID, storedOta s' deviceID = storedOta s deviceID) :
    outcome env s' = outcome env s := by
  funext d
  rw [outcome_eq, outcome_eq, otaReport, otaReport, h]

theorem tallyOf_congr (h : ∀ deviceID, storedOta s' deviceID = storedOta s deviceID) :
    tallyOf env s' = tallyOf env s := by
  unfold tallyOf observed countsFailed countsCommitted
  rw [outcome_congr h]

theorem storedOta_of_twin (h : s'.store.twin deviceID = s.store.twin deviceID) :
    storedOta s' deviceID = storedOta s deviceID := by
  unfold storedOta
  rw [h]

theorem storedOta_clearDevice (dev : Device) (updateID : String) :
    storedOta (clearDevice env choice s dev updateID) deviceID = storedOta s deviceID := by
  refine storedOta_updateTwin_of_keeps (fun v hv => ?_) (fun v => ?_) (fun v => ?_)
  · unfold clearRequest
    split <;> exact hv
  · unfold clearRequest
    split <;> rfl
  · split <;> exact ⟨rfl, rfl⟩

end

section

variable {devices : List OTACampaignDevice}

theorem clear_induction {R : Server → Server → Prop} (hrefl : ∀ s, R s s)
    (htrans : ∀ s s' s'', R s s' → R s' s'' → R s s'')
    (hstep : ∀ s choice d dev, d ∈ devices → finished d.state = false →
      s.store.device d.deviceID = some dev → R s (clearDevice env choice s dev d.updateID)) :
    R s ((clearInFlightCampaignOTA env pass devices).eval oracle s).1 := by
  induction devices generalizing s with
  | nil => exact hrefl s
  | cons d rest ih =>
    have hrest : ∀ s, R s ((clearInFlightCampaignOTA env pass rest).eval oracle s).1 :=
      fun s => ih fun s choice d dev hd => hstep s choice d dev (mem_cons_of_mem _ hd)
    unfold clearInFlightCampaignOTA
    split
    · exact hrest s
    · next hopen =>
      simp only [eval_bind, eval_lookup]
      cases hdevice : s.store.device d.deviceID with
      | none => exact hrest s
      | some dev =>
        simp only [eval_bind, eval_write]
        exact htrans _ _ _ (hstep s _ d dev mem_cons_self (by simpa using hopen) hdevice) (hrest _)

theorem otaCampaigns_clear :
    ((clearInFlightCampaignOTA env pass devices).eval oracle s).1.store.state.otaCampaigns =
      s.store.state.otaCampaigns := by
  refine clear_induction (R := fun s s' => s'.store.state.otaCampaigns = s.store.state.otaCampaigns)
    (fun _ => rfl) (fun _ _ _ h h' => h'.trans h) ?_
  exact fun _ _ _ _ _ _ _ => otaCampaigns_updateTwin _ _ _

theorem devices_clear :
    ((clearInFlightCampaignOTA env pass devices).eval oracle s).1.store.state.devices =
      s.store.state.devices := by
  refine clear_induction (R := fun s s' => s'.store.state.devices = s.store.state.devices)
    (fun _ => rfl) (fun _ _ _ h h' => h'.trans h) ?_
  exact fun _ _ _ _ _ _ _ => devices_updateTwin _ _ _

theorem storedOta_clear (deviceID : String) :
    storedOta ((clearInFlightCampaignOTA env pass devices).eval oracle s).1 deviceID =
      storedOta s deviceID := by
  refine clear_induction (R := fun s s' => storedOta s' deviceID = storedOta s deviceID)
    (fun _ => rfl) (fun _ _ _ h h' => h'.trans h) ?_
  exact fun _ _ _ _ _ _ _ => storedOta_clearDevice _ _

theorem twin_clear {deviceID : String} (h : ∀ d ∈ devices, d.deviceID = deviceID → finished d.state = true) :
    ((clearInFlightCampaignOTA env pass devices).eval oracle s).1.store.twin deviceID =
      s.store.twin deviceID := by
  refine clear_induction (R := fun s s' => s'.store.twin deviceID = s.store.twin deviceID)
    (fun _ => rfl) (fun _ _ _ h h' => h'.trans h) fun s choice d dev hd hopen hdevice => ?_
  have hid : dev.id = d.deviceID := by simpa using find?_some hdevice
  have hne : dev.id ≠ deviceID := by
    rintro rfl
    simp [h d hd hid.symm] at hopen
  unfold clearDevice
  rw [twin_updateTwin, if_neg hne]
  · intro v hv
    unfold clearRequest
    split <;> exact hv
  · intro v
    split <;> rfl

theorem issued_clear (campaignID deviceID : String) :
    issued env ((clearInFlightCampaignOTA env pass devices).eval oracle s).1 campaignID deviceID = none ∨
      issued env ((clearInFlightCampaignOTA env pass devices).eval oracle s).1 campaignID deviceID =
        issued env s campaignID deviceID := by
  refine clear_induction (R := fun s s' => issued env s' campaignID deviceID = none ∨
    issued env s' campaignID deviceID = issued env s campaignID deviceID) (fun _ => .inr rfl) ?_ ?_
  · intro s s' s'' h h'
    rcases h' with hnone | hsame
    · exact .inl hnone
    · rwa [hsame]
  · exact fun _ _ _ _ _ _ _ => issued_clearDevice _ _

end

def listedIDs (c : OTACampaign) : List String := c.devices.map OTACampaignDevice.deviceID

def afterAbort (env : TwinEnv) (oracle : Label → Choice) (pass : Pass) (s : Server) (c : OTACampaign)
    (t : Tally) : Server :=
  alertCampaign env.toEnv (oracle { point := .alert pass })
    ((clearInFlightCampaignOTA env pass c.devices).eval oracle s).1 c t

theorem eval_refreshed (env : Env) :
    (refreshed env pass shared c).eval oracle s =
      (storeRefreshed env (oracle { point := .refresh pass c.id c.status }) s shared c,
        ((storeRefreshed env (oracle { point := .refresh pass c.id c.status }) s shared c).store.otaCampaign
          c.id).getD c) := by
  simp only [refreshed, eval_bind, eval_write, eval_lookup, eval_pure]

theorem eval_refresh (hactive : c.status = otaCampaignRunning ∨ c.status = otaCampaignPaused) :
    (refreshOTACampaign env pass shared c).eval oracle s =
      let t := tallyOf env s c.devices
      let c := { c with devices := t.devices }
      if t.aborts c then
        (refreshed env.toEnv pass shared { c with status := otaCampaignAborted }).eval oracle
          (afterAbort env oracle pass s { c with status := otaCampaignAborted } t)
      else if t.completes c then
        (refreshed env.toEnv pass shared { c with status := otaCampaignCompleted }).eval oracle s
      else if t.changed then (refreshed env.toEnv pass shared c).eval oracle s
      else (s, c) := by
  unfold refreshOTACampaign
  rw [if_neg (by tauto)]
  simp only [eval_bind, eval_tally_all, afterAbort]
  split
  · simp only [eval_bind, eval_write]
  · split
    · rfl
    · split <;> rfl

theorem otaCampaign_storeRefreshed (env : Env) (hstored : s.store.otaCampaign c.id = some v) :
    (storeRefreshed env choice s shared c).store.otaCampaign c.id =
      some (if choice.error = none then stamped choice c
        else if shared then { v with devices := c.devices } else v) := by
  have hupdated : (updateOTACampaign env choice s c.id fun _ => stamped choice c).1.store.otaCampaign
      c.id = if c.id = c.id ∧ choice.error = none then _ else _ :=
    otaCampaign_updateOTACampaign env fun _ _ => stamped_id
  have hsnd := @updateOTACampaign_snd_eq_none_iff choice s env c.id fun _ => stamped choice c
  rw [hstored] at hupdated hsnd
  unfold storeRefreshed
  simp only [true_and, isSome_some, and_true, map_some] at hupdated hsnd ⊢
  by_cases herror : choice.error = none
  · have hnone := hsnd.mpr herror
    rw [if_pos herror] at hupdated ⊢
    rw [hnone, if_neg (by simp)]
    exact hupdated
  · have hsome : (updateOTACampaign env choice s c.id fun _ => stamped choice c).2.isSome := by
      rw [isSome_iff_ne_none]
      exact fun h => herror (hsnd.mp h)
    rw [if_neg herror] at hupdated ⊢
    by_cases hshared : shared
    · rw [if_pos ⟨hsome, hshared⟩, otaCampaign_touchDevices, if_pos rfl, hupdated, if_pos hshared]
      rfl
    · rw [if_neg fun h => hshared h.2, if_neg hshared]
      exact hupdated

theorem devices_storeRefreshed (env : Env) :
    (storeRefreshed env choice s shared c).store.state.devices = s.store.state.devices := by
  have hupdated : (updateOTACampaign env choice s c.id fun _ => stamped choice c).1.store.state.devices =
      s.store.state.devices := by
    unfold updateOTACampaign
    split
    · rfl
    · split
      · rfl
      · exact Store.devices_call fun _ => nofun
  unfold storeRefreshed
  simp only
  split
  · rw [← hupdated]
    unfold Store.touchDevices
    split <;> rfl
  · exact hupdated

section

structure SameCourse (c c' : OTACampaign) : Prop where
  rest : c' = { c with status := c'.status, devices := c'.devices, updatedAt := c'.updatedAt }
  listed : listedIDs c' = listedIDs c

structure Spares (env : TwinEnv) (c : OTACampaign) (s s' : Server) : Prop where
  devices : s'.store.state.devices = s.store.state.devices
  unlisted : ∀ deviceID, deviceID ∉ listedIDs c → s'.store.twin deviceID = s.store.twin deviceID
  requests : ∀ deviceID, issued env s' c.id deviceID = none ∨
    issued env s' c.id deviceID = issued env s c.id deviceID
  reports : ∀ deviceID, storedOta s' deviceID = storedOta s deviceID
  ids : campaignIDs s' = campaignIDs s
  others : ∀ id, id ≠ c.id → s'.store.otaCampaign id = s.store.otaCampaign id

def active (status : String) : Prop := status = otaCampaignRunning ∨ status = otaCampaignPaused

instance (status : String) : Decidable (active status) := inferInstanceAs (Decidable (_ ∨ _))

structure Outcome (env : TwinEnv) (s : Server) (c c' : OTACampaign) : Prop where
  course : SameCourse c c'
  states : c'.devices = c.devices ∨ c'.devices = (tallyOf env s c.devices).devices
  status : c'.status = c.status ∨ active c.status ∧ (c'.status = otaCampaignAborted ∨
    c'.status = otaCampaignCompleted ∧ (tallyOf env s c.devices).completes c)

structure Refreshes (env : TwinEnv) (s : Server) (c : OTACampaign) (after : Server × OTACampaign) :
    Prop where
  spares : Spares env c s after.1
  outcome : Outcome env s c after.2
  stored : after.1.store.otaCampaign c.id = some after.2

variable {c' : OTACampaign}

theorem SameCourse.refl (c : OTACampaign) : SameCourse c c := ⟨rfl, rfl⟩

theorem SameCourse.id_eq (h : SameCourse c c') : c'.id = c.id := by rw [h.rest]

theorem SameCourse.status (h : SameCourse c c') (status : String) :
    SameCourse c { c' with status } :=
  ⟨congrArg (fun c => { c with status }) h.rest, h.listed⟩

theorem SameCourse.stamped (h : SameCourse c c') : SameCourse c (stamped choice c') := by
  unfold Server.stamped
  split
  · exact ⟨congrArg (fun c => { c with updatedAt := choice.now }) h.rest, h.listed⟩
  · exact h

theorem SameCourse.observed (c : OTACampaign) :
    SameCourse c { c with devices := (tallyOf env s c.devices).devices } := by
  refine ⟨rfl, ?_⟩
  simp [listedIDs, tallyOf, Function.comp_def]

theorem Spares.refl (env : TwinEnv) (c : OTACampaign) (s : Server) : Spares env c s s :=
  ⟨rfl, fun _ _ => rfl, fun _ => .inr rfl, fun _ => rfl, rfl, fun _ _ => rfl⟩

theorem Spares.of_twins (h : Spares env c s s') {s'' : Server}
    (hdevices : s''.store.state.devices = s'.store.state.devices)
    (htwin : ∀ deviceID, s''.store.twin deviceID = s'.store.twin deviceID)
    (hids : campaignIDs s'' = campaignIDs s')
    (hothers : ∀ id, id ≠ c.id → s''.store.otaCampaign id = s'.store.otaCampaign id) :
    Spares env c s s'' where
  devices := hdevices.trans h.devices
  unlisted := fun deviceID hmem => (htwin deviceID).trans (h.unlisted deviceID hmem)
  requests := by
    intro deviceID
    rw [issued_of_twin (htwin deviceID)]
    exact h.requests deviceID
  reports := fun deviceID => (storedOta_of_twin (htwin deviceID)).trans (h.reports deviceID)
  ids := hids.trans h.ids
  others := fun id hne => (hothers id hne).trans (h.others id hne)

theorem devices_alertCampaign (env : Env) (t : Tally) :
    (alertCampaign env choice s c t).store.state.devices = s.store.state.devices := by
  unfold alertCampaign
  split
  · rfl
  · exact Store.devices_call fun _ => nofun

theorem spares_afterAbort (hcourse : SameCourse c c') (t : Tally) :
    Spares env c s (afterAbort env oracle pass s c' t) := by
  have hclear : Spares env c s ((clearInFlightCampaignOTA env pass c'.devices).eval oracle s).1 :=
    { devices := devices_clear
      unlisted := fun deviceID hmem => twin_clear fun d hd hid =>
        absurd (hcourse.listed ▸ hid ▸ List.mem_map_of_mem hd) hmem
      requests := fun deviceID => issued_clear c.id deviceID
      reports := fun deviceID => storedOta_clear deviceID
      ids := congrArg (List.map OTACampaign.id) otaCampaigns_clear
      others := fun id _ => congrArg (List.find? _) otaCampaigns_clear }
  refine hclear.of_twins (devices_alertCampaign _ _) (fun _ => twin_alertCampaign _ _ _) ?_ ?_
  · exact congrArg (List.map OTACampaign.id) (otaCampaigns_alertCampaign _ _ _)
  · exact fun _ _ => congrArg (List.find? _) (otaCampaigns_alertCampaign _ _ _)

theorem otaCampaign_afterAbort (t : Tally) (id : String) :
    (afterAbort env oracle pass s c t).store.otaCampaign id = s.store.otaCampaign id := by
  unfold Store.otaCampaign afterAbort
  rw [otaCampaigns_alertCampaign, otaCampaigns_clear]

theorem otaCampaign_storeRefreshed_of_ne (env : Env) {id : String} (hne : id ≠ c.id) :
    (storeRefreshed env choice s shared c).store.otaCampaign id = s.store.otaCampaign id := by
  have hupdated : (updateOTACampaign env choice s c.id fun _ => stamped choice c).1.store.otaCampaign
      id = s.store.otaCampaign id := by
    rw [otaCampaign_updateOTACampaign env fun _ _ => stamped_id, if_neg fun h => hne h.1.symm]
  unfold storeRefreshed
  simp only
  split
  · rw [otaCampaign_touchDevices, if_neg hne.symm, hupdated]
  · exact hupdated

theorem refreshes_refreshed (hspares : Spares env c s s') (houtcome : Outcome env s c c')
    (hstored : s'.store.otaCampaign c.id = some c) :
    Refreshes env s c ((refreshed env.toEnv pass shared c').eval oracle s') := by
  have hid := houtcome.course.id_eq
  rw [eval_refreshed]
  generalize oracle { point := .refresh pass c'.id c'.status } = choice
  have hfound : s'.store.otaCampaign c'.id = some c := by rw [hid, hstored]
  have hafter := @otaCampaign_storeRefreshed s' choice shared c' c env.toEnv hfound
  rw [hafter]
  rw [hid] at hafter
  refine ⟨?_, ?_, hafter⟩
  · refine hspares.of_twins (devices_storeRefreshed _) (fun _ => twin_storeRefreshed _)
      (campaignIDs_storeRefreshed _) fun id hne => otaCampaign_storeRefreshed_of_ne _ ?_
    rwa [hid]
  · simp only [getD_some]
    split
    · exact ⟨houtcome.course.stamped, by rw [stamped_devices]; exact houtcome.states,
        by rw [stamped_status]; exact houtcome.status⟩
    · split
      · exact ⟨⟨rfl, houtcome.course.listed⟩, houtcome.states, .inl rfl⟩
      · exact ⟨.refl c, .inl rfl, .inl rfl⟩

theorem devices_of_not_changed {devices : List OTACampaignDevice}
    (h : (tallyOf env s devices).changed = false) : (tallyOf env s devices).devices = devices := by
  simp only [tallyOf, List.any_eq_false, Option.any_eq_true, not_exists, decide_eq_true_eq] at h
  refine map_congr_left (fun d hd => ?_) |>.trans (List.map_id devices)
  unfold observed
  split
  · rfl
  · next state hstate =>
    have hsame : d.state = state := by simpa [hstate] using h d hd
    rw [← hsame]
    rfl

theorem refreshes_refresh (hstored : s.store.otaCampaign c.id = some c) :
    Refreshes env s c ((refreshOTACampaign env pass shared c).eval oracle s) := by
  by_cases hactive : active c.status
  · have hcourse : SameCourse c { c with devices := (tallyOf env s c.devices).devices } := .observed c
    rw [eval_refresh hactive]
    simp only
    split
    · refine refreshes_refreshed (spares_afterAbort (hcourse.status _) _) ?_ ?_
      · exact ⟨hcourse.status _, .inr rfl, .inr ⟨hactive, .inl rfl⟩⟩
      · rw [otaCampaign_afterAbort, hstored]
    · split
      · next hcompletes =>
        refine refreshes_refreshed (.refl env c s) ?_ hstored
        exact ⟨hcourse.status _, .inr rfl, .inr ⟨hactive, .inr ⟨rfl, hcompletes⟩⟩⟩
      · split
        · exact refreshes_refreshed (.refl env c s) ⟨hcourse, .inr rfl, .inl rfl⟩ hstored
        · next hchanged =>
          rw [devices_of_not_changed (by simpa using hchanged)]
          exact ⟨.refl env c s, ⟨.refl c, .inl rfl, .inl rfl⟩, hstored⟩
  · unfold refreshOTACampaign
    rw [if_pos (not_or.mp hactive)]
    exact ⟨.refl env c s, ⟨.refl c, .inl rfl, .inl rfl⟩, hstored⟩

theorem status_refresh (hstored : s.store.otaCampaign c.id = some c) (hactive : active c.status) :
    ((refreshOTACampaign env pass shared c).eval oracle s).2.status =
      let t := tallyOf env s c.devices
      if t.aborts c then
        if (oracle { point := .refresh pass c.id otaCampaignAborted }).error = none then
          otaCampaignAborted
        else c.status
      else if t.completes c then
        if (oracle { point := .refresh pass c.id otaCampaignCompleted }).error = none then
          otaCampaignCompleted
        else c.status
      else c.status := by
  have hwrite {c' : OTACampaign} {s' : Server} (hid : c'.id = c.id)
      (hstored' : s'.store.otaCampaign c.id = some c) :
      ((refreshed env.toEnv pass shared c').eval oracle s').2.status =
        if (oracle { point := .refresh pass c'.id c'.status }).error = none then c'.status
        else c.status := by
    rw [eval_refreshed, otaCampaign_storeRefreshed env.toEnv (hid ▸ hstored')]
    simp only [getD_some]
    split
    · exact stamped_status
    · split <;> rfl
  have haborts (t : Tally) (devices : List OTACampaignDevice) :
      t.aborts { c with devices } = t.aborts c := rfl
  have hcompletes (t : Tally) (devices : List OTACampaignDevice) :
      t.completes { c with devices } = t.completes c := rfl
  rw [eval_refresh hactive]
  simp only [haborts, hcompletes]
  split
  · rw [hwrite]
    · rfl
    · exact (otaCampaign_afterAbort _ _).trans hstored
  · split
    · rw [hwrite _ hstored]
      rfl
    · split
      · rw [hwrite _ hstored]
        · split <;> rfl
        · rfl
      · rfl

end

end Nodra.Server
