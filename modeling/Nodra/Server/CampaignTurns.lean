import Nodra.Server.Agents
import Nodra.Server.CampaignWaves

/-! Requests one at a time: what a request can make of a stored campaign. -/
namespace Nodra.Server
open Model Std Interleave Program Relation List Option

variable {env : TwinEnv} {s s' s'' : Server} {c c' : OTACampaign}

structure Waved (c c' : OTACampaign) : Prop where
  rest : c' = { c with
    status := otaCampaignRunning
    currentStage := c'.currentStage
    targetDeviceIDs := c'.targetDeviceIDs
    devices := c'.devices
    updatedAt := c'.updatedAt }
  targets : c.status = otaCampaignDraft ∧ c'.targetDeviceIDs.Nodup ∨
    c.status = otaCampaignRunning ∧ c'.targetDeviceIDs = c.targetDeviceIDs
  added : ∃ added, c'.devices = c.devices ++ added ∧
    (added.map OTACampaignDevice.deviceID).Nodup ∧ ∀ d ∈ added, d.deviceID ∉ listedIDs c ∧
      d.deviceID ∈ c'.targetDeviceIDs ∧ d.updateID = campaignUpdateID c.id d.deviceID ∧
        d.state = .other ""

def Switches (status status' : String) : Prop :=
  status = otaCampaignRunning ∧ status' = otaCampaignPaused ∨
    status = otaCampaignPaused ∧ status' = otaCampaignRunning ∨
      campaignEnded status = false ∧ status' = otaCampaignAborted

inductive Amends (env : TwinEnv) (s : Server) : OTACampaign → OTACampaign → Prop where
  | refresh {c c' : OTACampaign} (h : Outcome env s c c') : Amends env s c c'
  | wave {c c' : OTACampaign} (h : Waved c c') : Amends env s c c'
  | switch {c : OTACampaign} (status : String) (now : Time) (h : Switches c.status status) :
      Amends env s c { c with status, updatedAt := now }

structure Sequel (env : TwinEnv) (s s' : Server) : Prop where
  ids : campaignIDs s' = campaignIDs s
  reports : ∀ deviceID, storedOta s' deviceID = storedOta s deviceID
  campaigns : ∀ id v, s.store.otaCampaign id = some v →
    ∃ v', s'.store.otaCampaign id = some v' ∧ ReflTransGen (Amends env s) v v'

theorem Amends.congr (h : ∀ deviceID, storedOta s' deviceID = storedOta s deviceID)
    (hamends : Amends env s' c c') : Amends env s c c' := by
  cases hamends with
  | refresh houtcome =>
    refine .refresh ⟨houtcome.course, ?_, ?_⟩
    · rw [← tallyOf_congr h]
      exact houtcome.states
    · rw [← tallyOf_congr h]
      exact houtcome.status
  | wave hwaved => exact .wave hwaved
  | switch status now hswitches => exact .switch status now hswitches

theorem Sequel.refl (env : TwinEnv) (s : Server) : Sequel env s s :=
  ⟨rfl, fun _ => rfl, fun _ v hv => ⟨v, hv, .refl⟩⟩

theorem Sequel.trans (h : Sequel env s s') (h' : Sequel env s' s'') : Sequel env s s'' where
  ids := h'.ids.trans h.ids
  reports := fun deviceID => (h'.reports deviceID).trans (h.reports deviceID)
  campaigns := by
    intro id v hv
    obtain ⟨v', hv', hchain⟩ := h.campaigns id v hv
    obtain ⟨v'', hv'', hchain'⟩ := h'.campaigns id v' hv'
    refine ⟨v'', hv'', hchain.trans ?_⟩
    exact ReflTransGen.mono (fun _ _ hamends => hamends.congr h.reports) _ _ hchain'

theorem Sequel.of_campaigns (hcampaigns : s'.store.state.otaCampaigns = s.store.state.otaCampaigns)
    (hreports : ∀ deviceID, storedOta s' deviceID = storedOta s deviceID) : Sequel env s s' where
  ids := congrArg (List.map OTACampaign.id) hcampaigns
  reports := hreports
  campaigns := fun _ v hv => ⟨v, (otaCampaign_of_campaigns hcampaigns).trans hv, .refl⟩

theorem Sequel.of_amends (hids : campaignIDs s' = campaignIDs s)
    (hreports : ∀ deviceID, storedOta s' deviceID = storedOta s deviceID)
    (hothers : ∀ id, id ≠ c.id → s'.store.otaCampaign id = s.store.otaCampaign id)
    (hbefore : s.store.otaCampaign c.id = some c) (hafter : s'.store.otaCampaign c.id = some c')
    (hamends : Amends env s c c') : Sequel env s s' where
  ids := hids
  reports := hreports
  campaigns := by
    intro id v hv
    by_cases hid : id = c.id
    · subst hid
      obtain rfl : c = v := Option.some.inj (hbefore.symm.trans hv)
      exact ⟨c', hafter, .single hamends⟩
    · exact ⟨v, (hothers id hid).trans hv, .refl⟩

theorem otaCampaign_isSome_iff (s : Server) (id : String) :
    (s.store.otaCampaign id).isSome ↔ id ∈ campaignIDs s := by
  simp [Store.otaCampaign, campaignIDs, find?_isSome]

theorem Sequel.before {id : String} {v' : OTACampaign} (h : Sequel env s s')
    (hv' : s'.store.otaCampaign id = some v') :
    ∃ v, s.store.otaCampaign id = some v ∧ ReflTransGen (Amends env s) v v' := by
  have hmem : id ∈ campaignIDs s := by
    rw [← h.ids, ← otaCampaign_isSome_iff, hv']
    rfl
  obtain ⟨v, hv⟩ := isSome_iff_exists.mp ((otaCampaign_isSome_iff s id).mpr hmem)
  obtain ⟨v'', hv'', hchain⟩ := h.campaigns id v hv
  obtain rfl : v' = v'' := Option.some.inj (hv'.symm.trans hv'')
  exact ⟨v, hv, hchain⟩

theorem sequel_refresh {oracle : Label → Choice} {pass : Pass} {shared : Bool}
    (hstored : s.store.otaCampaign c.id = some c) :
    Sequel env s ((refreshOTACampaign env pass shared c).eval oracle s).1 := by
  have hrefresh : Refreshes env s c ((refreshOTACampaign env pass shared c).eval oracle s) :=
    refreshes_refresh hstored
  exact .of_amends hrefresh.spares.ids hrefresh.spares.reports hrefresh.spares.others hstored
    hrefresh.stored (.refresh hrefresh.outcome)

section

variable {oracle : Label → Choice} {v : OTACampaign}

theorem storedOta_issueWave (need : Int) (targets : List String) (deviceID : String) :
    storedOta ((issueWave env c need targets).eval oracle s).1 deviceID = storedOta s deviceID := by
  have hround {s : Server} {c : OTACampaign} {target : String} :
      storedOta (issueRound env oracle s c target).1 deviceID = storedOta s deviceID := by
    rw [issueRound_fst]
    split
    · rfl
    · rw [storedOta_setDeviceOTADesired]
  induction targets generalizing c need s with
  | nil => rfl
  | cons target rest ih =>
    rw [eval_issueWave_cons]
    split
    · rfl
    · split
      · exact ih _
      · cases (issueRound env oracle s c target).2 with
        | error err => exact hround
        | ok c' => exact (ih _).trans hround

theorem storedOta_applyCampaignWave (deviceID : String) :
    storedOta ((applyCampaignWave env c).eval oracle s).1 deviceID = storedOta s deviceID := by
  rw [eval_applyCampaignWave]
  cases stagePercent c with
  | none => rfl
  | some percent => exact storedOta_issueWave _ _ _

theorem Waved.select (h : Waved v c) (dev : Device) {deviceID : String}
    (hnew : deviceID ∉ listedIDs c) (htarget : deviceID ∈ c.targetDeviceIDs) :
    Waved v (selectDevice c dev deviceID) := by
  obtain ⟨added, hdevices, hnodup, hadded⟩ := h.added
  have hid : c.id = v.id := by rw [h.rest]
  have hlisted : listedIDs c = listedIDs v ++ added.map OTACampaignDevice.deviceID := by
    simp [listedIDs, hdevices]
  rw [hlisted, mem_append, not_or] at hnew
  obtain ⟨selected, hselected, hdevice, hupdate, hstate⟩ : ∃ d : OTACampaignDevice,
      (selectDevice c dev deviceID).devices = c.devices ++ [d] ∧ d.deviceID = deviceID ∧
        d.updateID = campaignUpdateID c.id deviceID ∧ d.state = .other "" :=
    ⟨_, rfl, rfl, rfl, rfl⟩
  refine ⟨?_, h.targets, added ++ [selected], ?_, ?_, ?_⟩
  · exact congrArg (fun c' : OTACampaign =>
      { c' with devices := (selectDevice c dev deviceID).devices }) h.rest
  · rw [hselected, hdevices, append_assoc]
  · rw [map_append, nodup_append]
    refine ⟨hnodup, nodup_singleton _, ?_⟩
    rintro a ha b hb rfl
    rw [map_singleton, mem_singleton, hdevice] at hb
    exact hnew.2 (hb ▸ ha)
  · intro d hd
    rcases mem_append.mp hd with hd | hd
    · exact hadded d hd
    · obtain rfl := mem_singleton.mp hd
      rw [hdevice, hupdate, hid]
      exact ⟨hnew.1, htarget, rfl, hstate⟩

variable {targets out : List String}

theorem Waved.issueWave {need : Int} (h : Waved v c)
    (htargets : ∀ target ∈ targets, target ∈ c.targetDeviceIDs)
    (hok : ((issueWave env c need targets).eval oracle s).2 = .ok c') : Waved v c' := by
  induction targets generalizing c need s with
  | nil =>
    cases hok
    exact h
  | cons target rest ih =>
    rw [eval_issueWave_cons] at hok
    split at hok
    · cases hok
      exact h
    · split at hok
      · exact ih h (fun target hmem => htargets target (mem_cons_of_mem _ hmem)) hok
      · next hnew =>
        cases hround : (issueRound env oracle s c target).2 with
        | error err =>
          rw [hround] at hok
          cases hok
        | ok c₁ =>
          rw [hround] at hok
          obtain ⟨dev, rfl⟩ := issueRound_ok hround
          refine ih (h.select dev hnew (htargets target mem_cons_self)) ?_ hok
          exact fun target hmem => htargets target (mem_cons_of_mem _ hmem)

theorem Waved.applyCampaignWave (h : Waved v c)
    (hok : ((applyCampaignWave env c).eval oracle s).2 = .ok c') : Waved v c' := by
  rw [eval_applyCampaignWave] at hok
  cases hpercent : stagePercent c with
  | none => simp [hpercent] at hok
  | some percent =>
    rw [hpercent] at hok
    exact h.issueWave (fun _ h => h) hok

theorem Waved.updatedAt (h : Waved v c) (now : Time) : Waved v { c with updatedAt := now } :=
  ⟨congrArg (fun c : OTACampaign => { c with updatedAt := now }) h.rest, h.targets, h.added⟩

theorem eval_saveWith_cases (env : Env) {merge : OTACampaign → OTACampaign → OTACampaign}
    (hmerge : ∀ c v, v.id = c.id → (merge c v).id = c.id) (hstored : s.store.otaCampaign c.id = some v) :
    (∃ err, (saveWith env merge c).eval oracle s = (s, .error err)) ∨
      ∃ now s', (saveWith env merge c).eval oracle s = (s', .ok { c with updatedAt := now }) ∧
        s'.store.otaCampaign c.id = some (merge { c with updatedAt := now } v) ∧
        (∀ id, id ≠ c.id → s'.store.otaCampaign id = s.store.otaCampaign id) ∧
        campaignIDs s' = campaignIDs s ∧
        ∀ deviceID, storedOta s' deviceID = storedOta s deviceID := by
  unfold saveWith
  simp only [eval_write]
  generalize oracle { point := .save c.id c.status } = choice
  have hlookup (id : String) := @otaCampaign_updateOTACampaign choice s id c.id
    (merge { c with updatedAt := choice.now }) env (hmerge { c with updatedAt := choice.now })
  cases hupdated : (updateOTACampaign env choice s c.id (merge { c with updatedAt := choice.now })).2 with
  | some err => exact .inl ⟨err, Prod.ext (updateOTACampaign_fst_of_error env hupdated) rfl⟩
  | none =>
    obtain ⟨herror, -⟩ := (updateOTACampaign_snd_eq_none_iff _ _ _).mp hupdated
    refine .inr ⟨choice.now, _, rfl, ?_, ?_, ?_, ?_⟩
    · rw [hlookup, if_pos ⟨rfl, herror⟩, hstored]
      rfl
    · intro id hne
      rw [hlookup, if_neg fun h => hne h.1.symm]
    · exact campaignIDs_updateOTACampaign _ _ _
    · exact fun _ => storedOta_of_twin (twin_updateOTACampaign _ _ _)

theorem sequel_advance (hstored : s.store.otaCampaign c.id = some v) (hwaved : Waved v c) :
    Sequel env s ((advanceCampaign env c).eval oracle s).1 := by
  have hquiet : Sequel env s ((applyCampaignWave env c).eval oracle s).1 :=
    .of_campaigns otaCampaigns_applyCampaignWave storedOta_applyCampaignWave
  unfold advanceCampaign
  simp only [eval_bind]
  cases hwave : ((applyCampaignWave env c).eval oracle s).2 with
  | error err => exact hquiet
  | ok c₁ =>
    have hwaved₁ := hwaved.applyCampaignWave hwave
    have hid : v.id = c₁.id := by rw [hwaved₁.rest]
    have hstored₁ : ((applyCampaignWave env c).eval oracle s).1.store.otaCampaign c₁.id = some v := by
      rw [otaCampaign_of_campaigns otaCampaigns_applyCampaignWave, (applyCampaignWave_ok hwave).1,
        hstored]
    generalize ((applyCampaignWave env c).eval oracle s).1 = s₁ at hquiet hstored₁ ⊢
    simp only [eval_bind, saveCampaign]
    rcases eval_saveWith_cases env.toEnv (fun _ _ _ => rfl) hstored₁ with
      ⟨err, heval⟩ | ⟨now, s₂, heval, hafter, hothers, hids, hreports⟩
    · rw [heval]
      exact hquiet
    · rw [heval]
      simp only [eval_bind, eval_pure]
      have hsaved : Sequel env s₁ s₂ :=
        .of_amends hids hreports (by rwa [hid]) (by rwa [hid]) (by rwa [hid])
          (.wave (hwaved₁.updatedAt now))
      exact (hquiet.trans hsaved).trans (sequel_refresh hafter)

theorem eval_campaignDevice (env : Ota.Env) (deviceID : String) :
    ((campaignDevice env c deviceID).eval oracle s).1 = s := by
  simp only [campaignDevice, eval_bind, eval_lookup]
  cases s.store.device deviceID with
  | none => rfl
  | some dev =>
    simp only
    split <;> rfl

theorem nodup_addNew (h : out.Nodup) (id : String) :
    (if id ∈ out then out else out ++ [id]).Nodup := by
  split
  · exact h
  · next hnew =>
    exact nodup_append.mpr ⟨h, nodup_singleton id, fun a ha b hb hab =>
      hnew (mem_singleton.mp hb ▸ hab ▸ ha)⟩

theorem nodup_targetsOfDevices (env : Ota.Env) {deviceIDs : List String} (h : out.Nodup)
    (hok : ((targetsOfDevices env c out deviceIDs).eval oracle s).2 = .ok targets) : targets.Nodup := by
  induction deviceIDs generalizing out with
  | nil =>
    cases hok
    exact h
  | cons deviceID rest ih =>
    simp only [targetsOfDevices, eval_bind] at hok
    rw [eval_campaignDevice] at hok
    cases hfound : ((campaignDevice env c deviceID).eval oracle s).2 with
    | error err => simp [hfound] at hok
    | ok dev =>
      rw [hfound] at hok
      exact ih (nodup_addNew h dev.id) hok

theorem nodup_targetsOfSites (devices : List Device) : (targetsOfSites c devices).Nodup := by
  unfold targetsOfSites
  generalize devices.filter (fun dev => dev.siteID ∈ c.siteIDs) = devices
  refine List.foldlRecOn devices _ nodup_nil fun out h dev _ => ?_
  exact nodup_addNew h dev.id

theorem nodup_resolvedTargets (env : Ota.Env)
    (h : resolvedTargets env s c = .ok targets) : targets.Nodup := by
  have hsort {out : List String} (h : out.Nodup) : (sortStrings out).Nodup :=
    ((perm_insertionSort _ out).nodup_iff).mpr h
  unfold resolvedTargets resolveCampaignTargets at h
  split at h
  · simp only [eval_bind] at h
    split at h
    · simp at h
    · next out hout =>
      cases h
      exact hsort (nodup_targetsOfDevices env nodup_nil hout)
  · cases h
    exact hsort (nodup_targetsOfSites _)

theorem waved_startedCopy (h : startedCopy env s c = some c') : Waved c c' := by
  unfold startedCopy at h
  split at h
  · cases h
  · next hdraft =>
    split at h
    · cases h
    · next targets htargets =>
      split at h
      · cases h
      · cases h
        exact ⟨rfl, .inl ⟨not_not.mp hdraft, nodup_resolvedTargets env.ota htargets⟩, [], by simp, by simp,
          by simp⟩

end

section

variable {oracle : Label → Choice} {r : CampaignRequest}

theorem sequel_withCampaign (campaignID : String) (can : OTACampaign → Bool)
    {body : OTACampaign → Proc CampaignReply}
    (hbody : ∀ c oracle, s.store.otaCampaign c.id = some c →
      Sequel env s ((body c).eval oracle s).1) :
    Sequel env s ((withCampaign (loadCampaign campaignID can) body).eval oracle s).1 := by
  simp only [withCampaign, loadCampaign, eval_bind, eval_lookup]
  cases hfound : (s.store.otaCampaign campaignID).filter can with
  | none => exact .refl env s
  | some c =>
    obtain ⟨hstored, -⟩ := filter_eq_some_iff.mp hfound
    have hid : c.id = campaignID := Store.id_of_otaCampaign hstored
    simp only [eval_holding]
    exact hbody c _ (hid ▸ hstored)

theorem sequel_start : Sequel env s ((otaCampaignStart env r).eval oracle s).1 := by
  refine sequel_withCampaign _ _ fun c oracle hstored => ?_
  rcases eval_startCampaign env oracle s c with ⟨-, hstate, -⟩ | ⟨c', hcopy, hid, -, heval⟩
  · rw [hstate]
    exact .refl env s
  · rw [heval]
    exact sequel_advance (hid ▸ hstored) (waved_startedCopy hcopy)

theorem sequel_promote : Sequel env s ((otaCampaignPromote env r).eval oracle s).1 := by
  refine sequel_withCampaign _ _ fun c oracle hstored => ?_
  have hrefresh : Refreshes env s c ((refreshOTACampaign env .early true c).eval oracle s) :=
    refreshes_refresh hstored
  have hsequel : Sequel env s ((refreshOTACampaign env .early true c).eval oracle s).1 :=
    sequel_refresh hstored
  simp only [promoteCampaign, eval_bind]
  generalize (refreshOTACampaign env .early true c).eval oracle s = after at hrefresh hsequel ⊢
  have hid := hrefresh.outcome.course.id_eq
  split
  · exact hsequel
  · next hrunning =>
    split
    · exact hsequel
    · have hwaved : Waved after.2 { after.2 with currentStage := after.2.currentStage + 1 } := by
        refine ⟨?_, .inr ⟨not_not.mp hrunning, rfl⟩, [], by simp, by simp, by simp⟩
        rw [← not_not.mp hrunning]
      refine hsequel.trans (sequel_advance ?_ hwaved)
      rw [← hrefresh.stored]
      exact congrArg _ hid

theorem eval_get (hstored : s.store.otaCampaign r.campaignID = some c) (hsees : callerCanSeeCampaign r c) :
    (otaCampaignGet env r).eval oracle s =
      (((refreshOTACampaign env .final true c).eval (held oracle c.id) s).1,
        { code := 200
          campaign := some ((refreshOTACampaign env .final true c).eval (held oracle c.id) s).2 }) := by
  have hfound : (s.store.otaCampaign r.campaignID).filter (callerCanSeeCampaign r) = some c := by
    rw [hstored, filter_some_pos hsees]
  simp only [otaCampaignGet, withCampaign, loadCampaign, eval_bind, eval_lookup, hfound, eval_holding,
    eval_pure]
  rfl

theorem sequel_get : Sequel env s ((otaCampaignGet env r).eval oracle s).1 := by
  refine sequel_withCampaign _ _ fun c oracle hstored => ?_
  simp only [eval_bind, eval_pure]
  exact sequel_refresh hstored

theorem sequel_saveStatus {status : String} (hstored : s.store.otaCampaign c.id = some c)
    (hswitches : Switches c.status status) :
    Sequel env s ((saveStatus env.toEnv { c with status }).eval oracle s).1 ∧
      ∀ c', ((saveStatus env.toEnv { c with status }).eval oracle s).2 = .ok c' →
        ((saveStatus env.toEnv { c with status }).eval oracle s).1.store.otaCampaign c'.id = some c' := by
  unfold saveStatus
  rcases @eval_saveWith_cases s { c with status } oracle c env.toEnv
    (fun c out => { out with status := c.status, updatedAt := c.updatedAt }) (fun _ _ h => h) hstored with
    ⟨err, heval⟩ | ⟨now, s', heval, hafter, hothers, hids, hreports⟩
  · rw [heval]
    refine ⟨.refl env s, fun c' hok => ?_⟩
    cases hok
  · rw [heval]
    refine ⟨.of_amends (c := c) hids hreports hothers hstored hafter (.switch status now hswitches), ?_⟩
    intro c' hok
    cases hok
    exact hafter

theorem sequel_pause : Sequel env s ((otaCampaignPause env r).eval oracle s).1 := by
  refine sequel_withCampaign _ _ fun c oracle hstored => ?_
  split
  · exact .refl env s
  · next hrunning =>
    simp only [eval_bind, eval_pure]
    exact (sequel_saveStatus hstored (.inl ⟨not_not.mp hrunning, rfl⟩)).1

theorem sequel_resume : Sequel env s ((otaCampaignResume env r).eval oracle s).1 := by
  refine sequel_withCampaign _ _ fun c oracle hstored => ?_
  split
  · exact .refl env s
  · next hpaused =>
    obtain ⟨hsequel, hcopy⟩ := @sequel_saveStatus env s c oracle otaCampaignRunning hstored
      (.inr (.inl ⟨not_not.mp hpaused, rfl⟩))
    simp only [eval_bind]
    cases hsaved : ((saveStatus env.toEnv { c with status := otaCampaignRunning }).eval oracle s).2 with
    | error err => exact hsequel
    | ok c' =>
      simp only [eval_bind, eval_pure]
      exact hsequel.trans (sequel_refresh (hcopy c' hsaved))

theorem sequel_abort : Sequel env s ((otaCampaignAbort env r).eval oracle s).1 := by
  refine sequel_withCampaign _ _ fun c oracle hstored => ?_
  split
  · exact .refl env s
  · next hopen =>
    have hclear : Sequel env s
        ((clearInFlightCampaignOTA env .final c.devices).eval oracle s).1 :=
      .of_campaigns otaCampaigns_clear storedOta_clear
    simp only [eval_bind, eval_pure]
    refine hclear.trans (sequel_saveStatus ?_ (.inr (.inr ⟨by simpa using hopen, rfl⟩))).1
    rw [otaCampaign_of_campaigns otaCampaigns_clear, hstored]

theorem sequel_sync {campaigns : List OTACampaign} (hnodup : (campaigns.map OTACampaign.id).Nodup)
    (hstored : ∀ c ∈ campaigns, s.store.otaCampaign c.id = some c) :
    Sequel env s ((syncCampaigns env campaigns).eval oracle s).1 := by
  induction campaigns generalizing s with
  | nil => exact .refl env s
  | cons c rest ih =>
    rw [map_cons, nodup_cons] at hnodup
    simp only [syncCampaigns, eval_bind, eval_holding]
    generalize (fun label : Label => oracle { label with held := (c :: rest).map OTACampaign.id }) =
      oracle'
    have hrefresh : Refreshes env s c
        ((refreshOTACampaign env (.device c.id) false c).eval oracle' s) :=
      refreshes_refresh (hstored c mem_cons_self)
    refine (sequel_refresh (hstored c mem_cons_self)).trans (ih hnodup.2 fun c' hc' => ?_)
    have hne : c'.id ≠ c.id := by
      intro heq
      exact hnodup.1 (heq ▸ List.mem_map_of_mem hc')
    rw [hrefresh.spares.others c'.id hne, hstored c' (mem_cons_of_mem _ hc')]

theorem sequel_syncForDevice (hnodup : (campaignIDs s).Nodup) (deviceID : String) (st : Ota.Status) :
    Sequel env s ((syncOTACampaignsForDevice env deviceID st).eval oracle s).1 := by
  simp only [syncOTACampaignsForDevice, eval_bind, eval_lookup]
  refine sequel_sync (hnodup.sublist (List.Sublist.map _ filter_sublist)) fun c hc => ?_
  exact KeyedList.find?_of_nodup OTACampaign.id hnodup (mem_filter.mp hc).1

end

section

structure Quiet (s s' : Server) : Prop where
  campaigns : s'.store.state.otaCampaigns = s.store.state.otaCampaigns
  reports : ∀ deviceID, storedOta s' deviceID = storedOta s deviceID

/-- The report that a request stores for a device: a map of the agent as it is, or a status
that is valid and follows the one before. -/
inductive Stores (env : TwinEnv) (s : Server) : AgentRequest → String → Option Any → Prop where
  | reported (r : ReportedRequest) :
      Stores env s (.twinReported r) r.deviceID r.reported[otaTwinKey]?
  | status (r : StatusRequest) (status : Ota.Status)
      (hstatus : status = { r.status with deviceID := r.deviceID })
      (hvalid : status.validate env.ota = none)
      (htransition : transitionError env (currentTwin s r.deviceID) status = none) :
      Stores env s (.otaStatus r) r.deviceID (some (env.status.toAny status))

/-- What a request of an agent does to campaigns and reports: it may store a report, and then
the campaigns that the report concerns are refreshed. -/
structure Concludes (env : TwinEnv) (r : AgentRequest) (s s₁ s' : Server) : Prop where
  campaigns : s₁.store.state.otaCampaigns = s.store.state.otaCampaigns
  reports : ∀ deviceID, storedOta s₁ deviceID = storedOta s deviceID ∨
    Stores env s r deviceID (storedOta s₁ deviceID)
  sequel : Sequel env s₁ s'

variable {oracle : AgentPoint → Choice} {choice : Choice} {r : AgentRequest}

theorem Quiet.refl (s : Server) : Quiet s s := ⟨rfl, fun _ => rfl⟩

theorem Quiet.trans (h : Quiet s s') (h' : Quiet s' s'') : Quiet s s'' :=
  ⟨h'.campaigns.trans h.campaigns, fun deviceID => (h'.reports deviceID).trans (h.reports deviceID)⟩

theorem Quiet.concludes (h : Quiet s s') : Concludes env r s s' s' :=
  ⟨h.campaigns, fun deviceID => .inl (h.reports deviceID), .refl env s'⟩

theorem quiet_storeCall (env : Env) {there : Bool} {request : Store.Call}
    (hcampaign : request.writesCampaign = false) (htwin : request.writesTwin = false) :
    Quiet s (storeCall env choice s there request).1 := by
  unfold storeCall
  split
  · exact .refl s
  · split
    · exact ⟨Store.otaCampaigns_call hcampaign, fun deviceID => storedOta_storeCall htwin⟩
    · exact .refl s

theorem quiet_setTwin (env : Env) {dev : Device} {now : Time} (hnew : s.store.twin dev.id = none) :
    Quiet s (storeCall env choice s true (.setTwin (newTwin dev now))).1 := by
  unfold storeCall
  split
  · exact .refl s
  · refine ⟨Store.otaCampaigns_call rfl, fun deviceID => ?_⟩
    have htwin : ((Action.storeCall (.setTwin (newTwin dev now))).run env s).store.twin deviceID =
        if dev.id = deviceID then some (newTwin dev now) else s.store.twin deviceID :=
      Store.twin_mutate_twinSet s.store _ deviceID
    simp only [if_true, storedOta]
    rw [htwin]
    split
    · next heq =>
      subst heq
      simp [hnew, newTwin]
    · rfl

theorem quiet_heartbeat (env : Env) (r : HeartbeatRequest) :
    Quiet s ((heartbeat env r).eval oracle s).1 := by
  simp only [heartbeat, eval_bind, eval_access]
  split
  · exact .refl s
  · exact quiet_storeCall env rfl rfl

theorem quiet_registerDevice (env : Env) (r : DeviceRequest) :
    Quiet s ((registerDevice env r).eval oracle s).1 := by
  simp only [registerDevice, arrive, eval_bind, eval_access]
  split
  · exact .refl s
  · split
    · exact .refl s
    · simp only [eval_bind, eval_access]
      have hadded : Quiet s (storeCall env (oracle .addDevice) s true
          (.addDevice (r.registered (oracle .addDevice)))).1 := quiet_storeCall env rfl rfl
      generalize storeCall env (oracle .addDevice) s true
        (.addDevice (r.registered (oracle .addDevice))) = added at hadded ⊢
      cases added.2 with
      | some err => exact hadded
      | none =>
        simp only [eval_bind, eval_read]
        cases hnew : added.1.store.twin (r.registered (oracle .addDevice)).id with
        | some tw => exact hadded
        | none => exact hadded.trans (quiet_setTwin env hnew)

theorem quiet_updateDeployment (env : Env) (id : String) (fn : Time → Deployment → Deployment) :
    Quiet s ((updateDeployment env id fn).eval oracle s).1 :=
  quiet_storeCall env rfl rfl

theorem quiet_raiseAlert (env : Env) (siteID type message : String) :
    Quiet s ((raiseAlert env siteID type message).eval oracle s).1 :=
  quiet_storeCall env rfl rfl

theorem quiet_agentDeploymentStatus (env : Env) (r : DeploymentStatusRequest) :
    Quiet s ((agentDeploymentStatus env r).eval oracle s).1 := by
  simp only [agentDeploymentStatus, arrive, eval_bind, eval_access]
  split
  · exact .refl s
  · simp only [eval_bind, eval_read]
    split
    · exact .refl s
    · simp only [eval_bind]
      have hupdated := @quiet_updateDeployment s oracle env r.deploymentID r.deployment
      generalize (updateDeployment env r.deploymentID r.deployment).eval oracle s = updated at hupdated ⊢
      cases updated.2 with
      | some reply => exact hupdated
      | none =>
        simp only
        split
        · simp only [eval_bind]
          exact hupdated.trans (quiet_raiseAlert env _ _ _)
        · exact hupdated

theorem quiet_agentDeploymentRollback (env : Env) (r : RollbackRequest) :
    Quiet s ((agentDeploymentRollback env r).eval oracle s).1 := by
  simp only [agentDeploymentRollback, arrive, eval_bind, eval_access]
  split
  · exact .refl s
  · simp only [eval_bind, eval_read]
    split
    · exact .refl s
    · split
      · exact quiet_raiseAlert env _ _ _
      · simp only [eval_bind]
        have hupdated := @quiet_updateDeployment s oracle env r.deploymentID rolledBack
        generalize (updateDeployment env r.deploymentID rolledBack).eval oracle s = updated at hupdated ⊢
        cases updated.2 with
        | some reply => exact hupdated
        | none => exact hupdated.trans (quiet_raiseAlert env _ _ _)

theorem quiet_eventSteps (env : Env) (request : Request) (left : Nat) (progress : Handler.Progress) :
    Quiet s ((eventSteps env request left progress).eval oracle s).1 := by
  have hcampaigns : ∀ st v, ((Store.Mutation.eventAdd v).update st).otaCampaigns = st.otaCampaigns := by
    intro st v
    simp only [Store.Mutation.update]
  have htwins : ∀ st v, ((Store.Mutation.eventAdd v).update st).twins = st.twins := by
    intro st v
    simp only [Store.Mutation.update]
  refine ⟨state_eventSteps hcampaigns oracle left progress, fun deviceID => storedOta_of_twin ?_⟩
  unfold Store.twin
  rw [state_eventSteps htwins]

theorem validate_of_checked {r : StatusRequest} {dev : Device} {status : Ota.Status}
    (h : r.checked env dev = .ok status) : status.validate env.ota = none := by
  unfold StatusRequest.checked at h
  simp only at h
  split at h
  · cases h
  · next hvalid =>
    cases h
    exact hvalid

theorem concludes_twinReported (r : ReportedRequest) :
    Concludes env (.twinReported r) s ((agentTwinReportedProc env.toEnv r).eval oracle s).1
      ((agentTwinReportedProc env.toEnv r).eval oracle s).1 := by
  simp only [agentTwinReportedProc, arrive, eval_bind, eval_access]
  split
  · exact (Quiet.refl s).concludes
  · simp only [eval_bind, eval_read]
    split
    · exact (Quiet.refl s).concludes
    · next dev hdevice =>
      obtain ⟨hid, -⟩ := agentDevice_ok hdevice
      refine ⟨?_, fun deviceID => ?_, .refl env _⟩
      · simp only [eval_access, recordReported, replyUpdate]
        split <;> exact otaCampaigns_updateTwin _ _ _
      · simp only [eval_access]
        rw [storedOta_recordReported]
        split
        · next heq =>
          rw [← heq.1, hid]
          exact .inr (.reported r)
        · exact .inl rfl

theorem quiet_alertStatus {choice : Choice} (dev : Device) (siteID : String) (status : Ota.Status) :
    Quiet s (alertStatus env choice s dev siteID status) :=
  ⟨otaCampaigns_alertStatus _ _ _, fun _ => storedOta_alertStatus _⟩

theorem concludes_otaStatus {oracle : Label → Choice} (hnodup : (campaignIDs s).Nodup) (r : StatusRequest) :
    ∃ s₁, Concludes env (.otaStatus r) s s₁ ((agentOTAStatusProc env r).eval oracle s).1 := by
  simp only [agentOTAStatusProc, eval_bind, eval_write]
  split
  · exact ⟨s, (Quiet.refl s).concludes⟩
  simp only [eval_bind, eval_lookup]
  split
  · exact ⟨s, (Quiet.refl s).concludes⟩
  next dev hdevice =>
  obtain ⟨hid, -⟩ := agentDevice_ok hdevice
  split
  · exact ⟨s, (Quiet.refl s).concludes⟩
  next status hchecked =>
  simp only [eval_bind, eval_write]
  refine ⟨(recordStatus env (oracle { point := .record }) s dev r.siteID status).1, ?_, fun deviceID => ?_,
    ?_⟩
  · exact otaCampaigns_recordStatus _ _ _
  · cases htransition : transitionError env (currentTwin s dev.id) status with
    | some err => exact .inl (recordStatus_of_objection htransition).2
    | none =>
      rw [storedOta_recordStatus htransition]
      split
      · next heq =>
        rw [← heq.1, hid]
        rw [hid] at htransition
        have hstatus := checked_ok hchecked
        rw [hid] at hstatus
        exact .inr (.status r status hstatus (validate_of_checked hchecked) htransition)
      · exact .inl rfl
  · have hrecorded := @otaCampaigns_recordStatus env (oracle { point := .record }) s dev r.siteID status
    generalize recordStatus env (oracle { point := .record }) s dev r.siteID status = recorded at hrecorded ⊢
    cases recorded.2 with
    | error reply => exact .refl env recorded.1
    | ok tw =>
      simp only [eval_bind, eval_write, eval_pure]
      have halert := @quiet_alertStatus env recorded.1 (oracle { point := .statusAlert }) dev r.siteID status
      refine (Sequel.of_campaigns halert.campaigns halert.reports).trans (sequel_syncForDevice ?_ _ _)
      unfold campaignIDs
      rw [halert.campaigns, hrecorded]
      exact hnodup

theorem concludes_run (hnodup : (campaignIDs s).Nodup) (r : AgentRequest) :
    ∃ s₁, Concludes env r s s₁ (r.run env oracle s) := by
  cases r with
  | events r steps => exact ⟨_, (quiet_eventSteps env.toEnv r steps .arrive).concludes⟩
  | otaStatus r =>
    simp only [AgentRequest.run, AgentRequest.program, eval_bind, eval_relabel]
    exact concludes_otaStatus hnodup r
  | twinReported r =>
    simp only [AgentRequest.run, AgentRequest.program, eval_bind]
    exact ⟨_, concludes_twinReported r⟩
  | registerDevice r =>
    simp only [AgentRequest.run, AgentRequest.program, eval_bind]
    exact ⟨_, (quiet_registerDevice env.toEnv r).concludes⟩
  | heartbeat r =>
    simp only [AgentRequest.run, AgentRequest.program, eval_bind]
    exact ⟨_, (quiet_heartbeat env.toEnv r).concludes⟩
  | deploymentStatus r =>
    simp only [AgentRequest.run, AgentRequest.program, eval_bind]
    exact ⟨_, (quiet_agentDeploymentStatus env.toEnv r).concludes⟩
  | deploymentRollback r =>
    simp only [AgentRequest.run, AgentRequest.program, eval_bind]
    exact ⟨_, (quiet_agentDeploymentRollback env.toEnv r).concludes⟩

end

section

inductive CampaignOp where
  | start (r : CampaignRequest)
  | promote (r : CampaignRequest)
  | pause (r : CampaignRequest)
  | resume (r : CampaignRequest)
  | abort (r : CampaignRequest)
  | get (r : CampaignRequest)

def CampaignOp.program (env : TwinEnv) : CampaignOp → Proc CampaignReply
  | .start r => otaCampaignStart env r
  | .promote r => otaCampaignPromote env r
  | .pause r => otaCampaignPause env r
  | .resume r => otaCampaignResume env r
  | .abort r => otaCampaignAbort env r
  | .get r => otaCampaignGet env r

inductive Turn where
  | agent (r : AgentRequest)
  | create (caller : String → Bool) (raw : CampaignInput)
  | campaign (op : CampaignOp)

def Turn.run (env : TwinEnv) (oracle : AgentPoint → Choice) (s : Server) : Turn → Server
  | .agent r => r.run env oracle s
  | .create caller raw =>
    ((otaCampaignCreate env caller raw).eval (fun label => oracle (.campaign label)) s).1
  | .campaign op => ((op.program env).eval (fun label => oracle (.campaign label)) s).1

inductive TurnStep (env : TwinEnv) (allowed : (AgentPoint → Choice) → Server → Turn → Prop) :
    Server → Server → Prop where
  | turn {s : Server} (oracle : AgentPoint → Choice) (t : Turn) (h : allowed oracle s t) :
      TurnStep env allowed s (t.run env oracle s)

variable {oracle : Label → Choice}

theorem sequel_campaign (op : CampaignOp) : Sequel env s ((op.program env).eval oracle s).1 := by
  cases op with
  | start r => exact sequel_start
  | promote r => exact sequel_promote
  | pause r => exact sequel_pause
  | resume r => exact sequel_resume
  | abort r => exact sequel_abort
  | get r => exact sequel_get

theorem eval_addCampaignSite (env : Ota.Env) (out : List String) (siteID : String) :
    ((addCampaignSite env out siteID).eval oracle s).1 = s := by
  unfold addCampaignSite
  split
  · rfl
  · simp only [eval_bind, eval_lookup]
    cases s.store.site siteID <;> rfl

theorem eval_sitesOfSites (env : Ota.Env) (out siteIDs : List String) :
    ((sitesOfSites env out siteIDs).eval oracle s).1 = s := by
  induction siteIDs generalizing out with
  | nil => rfl
  | cons siteID rest ih =>
    simp only [sitesOfSites, eval_bind, eval_addCampaignSite]
    split
    · rfl
    · exact ih _

theorem eval_sitesOfDevices (env : Ota.Env) (out deviceIDs : List String) :
    ((sitesOfDevices env c out deviceIDs).eval oracle s).1 = s := by
  induction deviceIDs generalizing out with
  | nil => rfl
  | cons deviceID rest ih =>
    simp only [sitesOfDevices, eval_bind, eval_campaignDevice]
    split
    · rfl
    · simp only [eval_bind, eval_addCampaignSite]
      split
      · rfl
      · exact ih _

theorem eval_resolveCampaignSiteIDs (env : Ota.Env) :
    ((resolveCampaignSiteIDs env c).eval oracle s).1 = s := by
  simp only [resolveCampaignSiteIDs, eval_bind, eval_sitesOfSites]
  split
  · rfl
  · exact eval_sitesOfDevices _ _ _

structure Drafts (id : String) (s s' : Server) : Prop where
  campaigns : ∃ c, c.id = id ∧ c.status = otaCampaignDraft ∧ c.devices = [] ∧ c.targetDeviceIDs = [] ∧
    s'.store.state.otaCampaigns = s.store.state.otaCampaigns ++ [c]
  reports : ∀ deviceID, storedOta s' deviceID = storedOta s deviceID

theorem Drafts.nodup {id : String} (h : Drafts id s s') (hid : id ∉ campaignIDs s)
    (hids : (campaignIDs s).Nodup) : (campaignIDs s').Nodup := by
  obtain ⟨c, hc, -, -, -, hcampaigns⟩ := h.campaigns
  unfold campaignIDs
  rw [hcampaigns, map_append, nodup_append]
  refine ⟨hids, nodup_singleton _, ?_⟩
  rintro a ha b hb rfl
  rw [map_singleton, mem_singleton, hc] at hb
  exact hid (hb ▸ ha)

theorem Drafts.before {id id' : String} {v : OTACampaign} (h : Drafts id s s')
    (hv : s'.store.otaCampaign id' = some v) : s.store.otaCampaign id' = some v ∨
      v.status = otaCampaignDraft ∧ v.devices = [] ∧ v.targetDeviceIDs = [] := by
  obtain ⟨c, -, hstatus, hdevices, htargets, hcampaigns⟩ := h.campaigns
  unfold Store.otaCampaign at hv
  rw [hcampaigns, find?_append, or_eq_some_iff] at hv
  rcases hv with hv | ⟨-, hv⟩
  · exact .inl hv
  · obtain rfl := mem_singleton.mp (mem_of_find?_eq_some hv)
    exact .inr ⟨hstatus, hdevices, htargets⟩

theorem eval_create (caller : String → Bool) (raw : CampaignInput) :
    ((otaCampaignCreate env caller raw).eval oracle s).1 = s ∨
      Drafts (oracle { point := .add }).id s ((otaCampaignCreate env caller raw).eval oracle s).1 := by
  simp only [otaCampaignCreate, eval_bind, eval_write]
  split
  · exact .inl rfl
  split
  · exact .inl rfl
  simp only [eval_bind, eval_resolveCampaignSiteIDs]
  split
  · exact .inl rfl
  split
  · simp only [eval_write]
    cases (oracle { point := .add }).error with
    | some err => exact .inl rfl
    | none =>
      refine .inr ⟨⟨_, rfl, rfl, rfl, rfl, rfl⟩, fun _ => storedOta_storeCall rfl⟩
  · exact .inl rfl

end

end Nodra.Server
