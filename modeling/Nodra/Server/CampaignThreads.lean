import Nodra.Server.CampaignEffects
import Nodra.Server.OtaLifecycle

/-! Overlapping requests about campaigns.  A handler reads a campaign, works on its copy and
writes it back; an ended campaign stays as it is in the runs in which no handler has a copy
when the end is stored. -/
namespace Nodra.Server
open Model Std Interleave Program List Option

variable {env : TwinEnv} {id : String} {ids : List String} {s : Server}

section

def campaignStatus (s : Server) (id : String) : Option String :=
  (s.store.otaCampaign id).map OTACampaign.status

def Ended (s : Server) (id : String) : Prop := (campaignStatus s id).any campaignEnded

instance (s : Server) (id : String) : Decidable (Ended s id) := inferInstanceAs (Decidable (_ = true))

/-- The campaign keeps its status, and no twin receives a request of it. -/
structure Unchanged (env : TwinEnv) (id : String) (s s' : Server) : Prop where
  status : campaignStatus s' id = campaignStatus s id
  requests : ∀ deviceID, issued env s' id deviceID = none ∨
    issued env s' id deviceID = issued env s id deviceID

def Point.ends (id : String) : Point → Bool
  | .refresh _ campaignID status => campaignID = id && campaignEnded status
  | .save campaignID status => campaignID = id && campaignEnded status
  | _ => false

def campaignContract (env : TwinEnv) (id : String) : Contract Label Server Choice where
  inv := fun s => (campaignIDs s).Nodup
  rely := fun label s s' => (Ended s id → campaignStatus s' id = campaignStatus s id) ∧
    (id ∈ label.held → Ended s' id → Ended s id)
  guar := fun label choice s s' => (Ended s id → Unchanged env id s s') ∧
    (¬ Ended s id → Ended s' id → choice.error = none ∧ label.point.ends id)

def heldContract (env : TwinEnv) (id : String) (ids : List String) : Contract Label Server Choice :=
  (campaignContract env id).relabel fun label => { label with held := ids }

def Live (id : String) (ids : List String) (s : Server) : Prop := id ∈ ids → ¬ Ended s id

variable {s' : Server}

theorem Unchanged.refl (env : TwinEnv) (id : String) (s : Server) : Unchanged env id s s :=
  ⟨rfl, fun _ => .inr rfl⟩

theorem Unchanged.trans {s'' : Server} (h : Unchanged env id s s') (h' : Unchanged env id s' s'') :
    Unchanged env id s s'' where
  status := h'.status.trans h.status
  requests := by
    intro deviceID
    rcases h'.requests deviceID with hnone | hsame
    · exact .inl hnone
    · rw [hsame]
      exact h.requests deviceID

theorem Unchanged.ended_iff (h : campaignStatus s' id = campaignStatus s id) :
    Ended s' id ↔ Ended s id := by
  unfold Ended
  rw [h]

theorem campaignStatus_of_campaigns (h : s'.store.state.otaCampaigns = s.store.state.otaCampaigns) :
    campaignStatus s' id = campaignStatus s id := by
  unfold campaignStatus Store.otaCampaign
  rw [h]

theorem Live.rely {label : Label} (h : Live id ids s)
    (hrely : (heldContract env id ids).rely label s s') : Live id ids s' :=
  fun hmem hended => h hmem (hrely.2 hmem hended)

end

section

variable {α : Type}

theorem keeps_lookup {post : α → Server → Prop} {f : Server → α}
    (h : ∀ s', (heldContract env id ids).rely { point := .read } s s' → (campaignIDs s').Nodup →
      post (f s') s') :
    (lookup f).Keeps (heldContract env id ids) post s :=
  .access fun s' hrely hinv _ =>
    ⟨hinv, ⟨fun _ => .refl env id s', fun hopen hended => absurd hended hopen⟩, h s' hrely hinv⟩

theorem keeps_read (f : Server → α) (hlive : Live id ids s) :
    (lookup f).Keeps (heldContract env id ids) (fun _ s => Live id ids s) s :=
  keeps_lookup fun _ hrely _ => hlive.rely hrely

variable {f : Choice → Server → Server × α} {point : Point}

/-- A write that leaves the campaigns alone; the requests it makes are of a campaign that the
handler has a copy of. -/
theorem keeps_write (hcampaigns : ∀ choice s,
      (f choice s).1.store.state.otaCampaigns = s.store.state.otaCampaigns)
    (hrequests : id ∉ ids → ∀ choice s deviceID, issued env (f choice s).1 id deviceID = none ∨
      issued env (f choice s).1 id deviceID = issued env s id deviceID)
    (hlive : Live id ids s) :
    (write point f).Keeps (heldContract env id ids) (fun _ s => Live id ids s) s := by
  refine .access fun s' hrely hinv choice => ?_
  have hlive' := hlive.rely hrely
  have hstatus : campaignStatus (f choice s').1 id = campaignStatus s' id :=
    campaignStatus_of_campaigns (hcampaigns choice s')
  refine ⟨?_, ⟨fun hended => ⟨hstatus, ?_⟩, fun hopen hended => ?_⟩, ?_⟩
  · change (campaignIDs _).Nodup
    unfold campaignIDs
    rw [hcampaigns]
    exact hinv
  · exact hrequests (fun hmem => hlive' hmem hended) choice s'
  · exact absurd ((Unchanged.ended_iff hstatus).mp hended) hopen
  · exact fun hmem hended => hlive' hmem ((Unchanged.ended_iff hstatus).mp hended)

theorem keeps_update (campaignID status : String)
    (hown : campaignID ∈ ids) (hends : point.ends id = (campaignID = id && campaignEnded status))
    (hids : ∀ choice s, campaignIDs (f choice s).1 = campaignIDs s)
    (htwin : ∀ choice s deviceID, (f choice s).1.store.twin deviceID = s.store.twin deviceID)
    (hstatus : ∀ choice s, campaignStatus (f choice s).1 id =
      if campaignID = id ∧ choice.error = none then (s.store.otaCampaign id).map fun _ => status
      else campaignStatus s id)
    (hlive : Live id ids s) (value : α → Prop) (hvalue : ∀ choice s, value (f choice s).2) :
    (write point f).Keeps (heldContract env id ids)
      (fun a s => value a ∧ ((campaignID ≠ id ∨ campaignEnded status = false) → Live id ids s)) s := by
  refine .access fun s' hrely hinv choice => ?_
  have hlive' := hlive.rely hrely
  -- an end that was not there before is the one that is written
  have hnew : ¬ Ended s' id → Ended (f choice s').1 id →
      campaignID = id ∧ choice.error = none ∧ campaignEnded status := by
    intro hopen hended
    unfold Ended at hended
    rw [hstatus] at hended
    split at hended
    · next hwritten =>
      refine ⟨hwritten.1, hwritten.2, ?_⟩
      cases hfound : s'.store.otaCampaign id with
      | none => simp [hfound] at hended
      | some v => simpa [hfound] using hended
    · exact absurd hended hopen
  refine ⟨?_, ⟨fun hended => ?_, fun hopen hended => ?_⟩, hvalue choice s',
    fun hother hmem hended => ?_⟩
  · change (campaignIDs _).Nodup
    rw [hids]
    exact hinv
  · have hne : campaignID ≠ id := fun heq => hlive' (heq ▸ hown) hended
    refine ⟨?_, fun _ => .inr (issued_of_twin (htwin choice s' _))⟩
    rw [hstatus, if_neg fun h => hne h.1]
  · obtain ⟨heq, herror, hstatus'⟩ := hnew hopen hended
    exact ⟨herror, by simp [hends, heq, hstatus']⟩
  · obtain ⟨heq, -, hstatus'⟩ := hnew (hlive' hmem) hended
    rcases hother with hne | hopen
    · exact hne heq
    · simp [hopen] at hstatus'

end

structure Latest (id : String) (ids : List String) (campaignID : String) (c : OTACampaign)
    (s : Server) : Prop where
  id_eq : c.id = campaignID
  ended : campaignID = id → Ended s id → campaignEnded c.status
  live : campaignID ≠ id → Live id ids s

theorem keeps_tally (t : Tally) (devices : List OTACampaignDevice) (hlive : Live id ids s) :
    (tally env t devices).Keeps (heldContract env id ids) (fun _ s => Live id ids s) s := by
  induction devices generalizing t s with
  | nil => exact hlive
  | cons d rest ih => exact .bind (keeps_read _ hlive) fun _ _ hlive' => ih _ hlive'

theorem keeps_clear (pass : Pass) (devices : List OTACampaignDevice) (hlive : Live id ids s) :
    (clearInFlightCampaignOTA env pass devices).Keeps (heldContract env id ids)
      (fun _ s => Live id ids s) s := by
  induction devices generalizing s with
  | nil => exact hlive
  | cons d rest ih =>
    unfold clearInFlightCampaignOTA
    split
    · exact ih hlive
    · refine .bind (keeps_read _ hlive) fun found s' hlive' => ?_
      cases found with
      | none => exact ih hlive'
      | some dev =>
        refine .bind (keeps_write ?_ ?_ hlive') fun _ _ hlive'' => ih hlive''
        · exact fun _ _ => otaCampaigns_updateTwin _ _ _
        · exact fun _ _ _ _ => issued_clearDevice _ _

theorem keeps_refreshed (pass : Pass) (shared : Bool) (c : OTACampaign) (hown : c.id ∈ ids)
    (hlive : Live id ids s) :
    (refreshed env.toEnv pass shared c).Keeps (heldContract env id ids) (Latest id ids c.id) s := by
  refine .bind (keeps_update c.id c.status hown rfl ?_ ?_ ?_ hlive (fun _ => True) ?_)
    fun _ s' hafter => ?_
  · exact fun _ _ => campaignIDs_storeRefreshed _
  · exact fun _ _ _ => twin_storeRefreshed _
  · exact fun _ _ => status_storeRefreshed _
  · exact fun _ _ => trivial
  · have hread : (lookup (·.store.otaCampaign c.id)).Keeps (heldContract env id ids)
        (fun latest s => Latest id ids c.id (latest.getD c) s) s' := by
      refine keeps_lookup fun s'' hrely _ => ?_
      refine ⟨?_, fun heq hended => ?_, fun hne => (hafter.2 (.inl hne)).rely hrely⟩
      · cases hfound : s''.store.otaCampaign c.id with
        | none => rfl
        | some v => exact Store.id_of_otaCampaign hfound
      · subst heq
        cases hfound : s''.store.otaCampaign c.id with
        | none => simp [Ended, campaignStatus, hfound] at hended
        | some v => simpa [Ended, campaignStatus, hfound] using hended
    exact .bind hread fun _ _ hlatest => .pure hlatest

theorem keeps_refresh (pass : Pass) (shared : Bool) (c : OTACampaign) (hown : c.id ∈ ids)
    (hlive : Live id ids s) :
    (refreshOTACampaign env pass shared c).Keeps (heldContract env id ids) (Latest id ids c.id) s := by
  have hsame {c' : OTACampaign} {s : Server} (heq : c'.id = c.id) (hlive : Live id ids s) :
      Latest id ids c.id c' s :=
    ⟨heq, fun hid hended => absurd hended (hlive (hid ▸ hown)), fun _ => hlive⟩
  unfold refreshOTACampaign
  split
  · exact .pure (hsame rfl hlive)
  · refine .bind (keeps_tally _ _ hlive) fun t s₁ hlive₁ => ?_
    simp only
    split
    · refine .bind (keeps_clear _ _ hlive₁) fun _ s₂ hlive₂ => ?_
      refine .bind (keeps_write ?_ ?_ hlive₂) fun _ _ hlive₃ => ?_
      · exact fun _ _ => otaCampaigns_alertCampaign _ _ _
      · exact fun _ _ _ _ => .inr (issued_of_twin (twin_alertCampaign _ _ _))
      · exact keeps_refreshed pass shared _ (by exact hown) hlive₃
    · split
      · exact keeps_refreshed pass shared _ (by exact hown) hlive₁
      · split
        · exact keeps_refreshed pass shared _ (by exact hown) hlive₁
        · exact .pure (hsame rfl hlive₁)

theorem keeps_sync (campaigns : List OTACampaign) (hnodup : (campaigns.map OTACampaign.id).Nodup)
    (hlive : Live id (campaigns.map OTACampaign.id) s) :
    (syncCampaigns env campaigns).Keeps (campaignContract env id) (fun _ _ => True) s := by
  induction campaigns generalizing s with
  | nil => trivial
  | cons c rest ih =>
    rw [map_cons, nodup_cons] at hnodup
    have hrefresh : (refreshOTACampaign env (.device c.id) false c).Keeps
        (heldContract env id ((c :: rest).map OTACampaign.id)) _ s :=
      keeps_refresh (.device c.id) false c mem_cons_self hlive
    refine .bind hrefresh.relabel fun _ s' hlatest => ih hnodup.2 fun hmem => ?_
    have hne : c.id ≠ id := fun heq => hnodup.1 (heq ▸ hmem)
    exact hlatest.live hne (mem_cons_of_mem _ hmem)

def Onward (id : String) (ids : List String) (c : OTACampaign) (result : Except String OTACampaign)
    (s : Server) : Prop :=
  Live id ids s ∧ ∀ c', result = .ok c' → c'.id = c.id ∧ c'.status = c.status

theorem Onward.ok {c c' : OTACampaign} (hlive : Live id ids s) (hid : c'.id = c.id)
    (hstatus : c'.status = c.status) : Onward id ids c (.ok c') s := by
  refine ⟨hlive, ?_⟩
  rintro _ ⟨⟩
  exact ⟨hid, hstatus⟩

theorem Onward.error {c : OTACampaign} {err : String} (hlive : Live id ids s) :
    Onward id ids c (.error err) s := by
  refine ⟨hlive, ?_⟩
  rintro _ ⟨⟩

theorem keeps_issueWave (c : OTACampaign) (need : Int) (targets : List String) (hown : c.id ∈ ids)
    (hlive : Live id ids s) :
    (issueWave env c need targets).Keeps (heldContract env id ids) (Onward id ids c) s := by
  induction targets generalizing c need s with
  | nil => exact .pure (.ok hlive rfl rfl)
  | cons deviceID rest ih =>
    unfold issueWave
    split
    · exact .pure (.ok hlive rfl rfl)
    · split
      · exact ih c need hown hlive
      · have hread : (lookup (·.store.device deviceID)).Keeps (heldContract env id ids)
            (fun found s => Live id ids s ∧ ∀ dev, found = some dev → dev.id = deviceID) s := by
          refine keeps_lookup fun s' hrely _ => ⟨hlive.rely hrely, fun dev hfound => ?_⟩
          simpa using find?_some hfound
        refine .bind hread fun found s₁ hs₁ => ?_
        cases found with
        | none => exact .pure (.error hs₁.1)
        | some dev =>
          have hdev : dev.id = deviceID := hs₁.2 dev rfl
          refine .bind (keeps_write ?_ ?_ hs₁.1) fun updated s₂ hlive₂ => ?_
          · exact fun _ _ => otaCampaigns_setDeviceOTADesired _ _
          · intro hmem choice s deviceID'
            have hne : c.id ≠ id := fun heq => hmem (heq ▸ hown)
            refine issued_setDeviceOTADesired ?_
            rw [hdev]
            exact fun heq => hne (campaignUpdateID_inj.mp heq)
          · cases updated with
            | error err => exact .pure (.error hlive₂)
            | ok tw => exact ih (selectDevice c dev deviceID) _ hown hlive₂

theorem keeps_wave (c : OTACampaign) (hown : c.id ∈ ids) (hlive : Live id ids s) :
    (applyCampaignWave env c).Keeps (heldContract env id ids) (Onward id ids c) s := by
  unfold applyCampaignWave
  split
  · exact .pure (.error hlive)
  · simp only
    split
    · exact .pure (.ok hlive rfl rfl)
    · exact keeps_issueWave c _ _ hown hlive

theorem keeps_campaignDevice (env : Ota.Env) {env' : TwinEnv} (c : OTACampaign) (deviceID : String)
    (hlive : Live id ids s) :
    (campaignDevice env c deviceID).Keeps (heldContract env' id ids) (fun _ s => Live id ids s) s := by
  refine .bind (keeps_read _ hlive) fun found s' hlive' => ?_
  cases found with
  | none => exact .pure hlive'
  | some dev =>
    simp only
    split <;> exact .pure hlive'

theorem keeps_targetsOfDevices (env : Ota.Env) {env' : TwinEnv} (c : OTACampaign) (out : List String)
    (deviceIDs : List String) (hlive : Live id ids s) :
    (targetsOfDevices env c out deviceIDs).Keeps (heldContract env' id ids)
      (fun _ s => Live id ids s) s := by
  induction deviceIDs generalizing out s with
  | nil => exact .pure hlive
  | cons deviceID rest ih =>
    refine .bind (keeps_campaignDevice env c deviceID hlive) fun found s' hlive' => ?_
    cases found with
    | error err => exact .pure hlive'
    | ok dev => exact ih _ hlive'

theorem keeps_targets (env : Ota.Env) {env' : TwinEnv} (c : OTACampaign) (hlive : Live id ids s) :
    (resolveCampaignTargets env c).Keeps (heldContract env' id ids) (fun _ s => Live id ids s) s := by
  unfold resolveCampaignTargets
  split
  · refine .bind (keeps_targetsOfDevices env c [] c.deviceIDs hlive) fun out s' hlive' => ?_
    cases out <;> exact .pure hlive'
  · exact .bind (keeps_read _ hlive) fun _ _ hlive' => .pure hlive'

theorem keeps_save {merge : OTACampaign → OTACampaign → OTACampaign} (c : OTACampaign)
    (hown : c.id ∈ ids) (hid : ∀ c v, v.id = c.id → (merge c v).id = c.id)
    (hstatus : ∀ c v, (merge c v).status = c.status) (hlive : Live id ids s) :
    (saveWith env.toEnv merge c).Keeps (heldContract env id ids)
      (fun result s => campaignEnded c.status = false → Onward id ids c result s) s := by
  refine (keeps_update c.id c.status hown rfl ?_ ?_ ?_ hlive
    (fun result => ∀ c', result = .ok c' → c'.id = c.id ∧ c'.status = c.status) ?_).mono ?_
  · exact fun _ _ => campaignIDs_updateOTACampaign _ _ _
  · exact fun _ _ _ => twin_updateOTACampaign _ _ _
  · exact fun choice _ => status_updateOTACampaign _ (hid _) (hstatus _)
  · intro choice s c' hok
    simp only at hok
    split at hok <;> cases hok
    exact ⟨rfl, rfl⟩
  · exact fun result s h hopen => ⟨h.2 (.inr hopen), h.1⟩

theorem keeps_advance (c : OTACampaign) (hown : c.id ∈ ids) (hopen : campaignEnded c.status = false)
    (hlive : Live id ids s) :
    (advanceCampaign env c).Keeps (heldContract env id ids) (fun _ _ => True) s := by
  refine .bind (keeps_wave c hown hlive) fun waved s₁ h₁ => ?_
  cases waved with
  | error err => exact .pure trivial
  | ok c₁ =>
    obtain ⟨hid₁, hstatus₁⟩ := h₁.2 c₁ rfl
    have hopen₁ : campaignEnded c₁.status = false := hstatus₁ ▸ hopen
    have hown₁ : c₁.id ∈ ids := hid₁ ▸ hown
    refine .bind (keeps_save c₁ hown₁ ?_ ?_ h₁.1) fun saved s₂ h₂ => ?_
    · exact fun _ _ _ => rfl
    · exact fun _ _ => rfl
    · cases saved with
      | error err => exact .pure trivial
      | ok c₂ =>
        obtain ⟨hlive₂, hsaved⟩ := h₂ hopen₁
        have hown₂ : c₂.id ∈ ids := (hsaved c₂ rfl).1 ▸ hown₁
        exact .bind (keeps_refresh .final false c₂ hown₂ hlive₂) fun _ _ _ => .pure trivial

theorem keeps_withCampaign (campaignID : String) (can : OTACampaign → Bool)
    {body : OTACampaign → Proc CampaignReply}
    (hended : ∀ c, campaignEnded c.status → ∃ reply, body c = pure reply)
    (hbody : ∀ c s, campaignEnded c.status = false → Live id [c.id] s →
      (body c).Keeps (heldContract env id [c.id]) (fun _ _ => True) s) :
    (withCampaign (loadCampaign campaignID can) body).Keeps (campaignContract env id)
      (fun _ _ => True) s := by
  have hload : (loadCampaign campaignID can).Keeps (campaignContract env id)
      (fun found s => ∀ c, found = some c → campaignEnded c.status = false → Live id [c.id] s) s := by
    refine .access fun s' _ hinv _ =>
      ⟨hinv, ⟨fun _ => .refl env id s', fun hopen h => absurd h hopen⟩, fun c hfound hopen hmem => ?_⟩
    obtain ⟨hfound, -⟩ := filter_eq_some_iff.mp hfound
    have hid : c.id = campaignID := Store.id_of_otaCampaign hfound
    rw [mem_singleton.mp hmem, Ended, campaignStatus, hid, hfound]
    simpa using hopen
  refine .bind hload fun found s' hlive => ?_
  cases found with
  | none => exact .pure trivial
  | some c =>
    cases hstatus : campaignEnded c.status with
    | true =>
      obtain ⟨reply, hreply⟩ := hended c hstatus
      simp only [hreply]
      exact .pure trivial
    | false => exact (hbody c s' hstatus (hlive c rfl hstatus)).relabel

theorem ne_of_ended {c : OTACampaign} {status : String} (hended : campaignEnded c.status)
    (hopen : campaignEnded status = false) : c.status ≠ status := by
  rintro rfl
  rw [hopen] at hended
  cases hended

theorem refresh_of_ended (pass : Pass) (shared : Bool) {c : OTACampaign}
    (hended : campaignEnded c.status) : refreshOTACampaign env pass shared c = pure c := by
  unfold refreshOTACampaign
  rw [if_pos ⟨ne_of_ended hended rfl, ne_of_ended hended rfl⟩]

theorem keeps_start (r : CampaignRequest) :
    (otaCampaignStart env r).Keeps (campaignContract env id) (fun _ _ => True) s := by
  refine keeps_withCampaign _ _ (fun c hended => ?_) fun c s hopen hlive => ?_
  · unfold startCampaign
    rw [if_neg (ne_of_ended hended rfl), if_pos (ne_of_ended hended rfl)]
    exact ⟨_, rfl⟩
  · unfold startCampaign
    split
    · exact .pure trivial
    · split
      · exact .pure trivial
      · refine .bind (keeps_targets env.ota c hlive) fun targets s' hlive' => ?_
        cases targets with
        | error err => exact .pure trivial
        | ok targets =>
          simp only
          split
          · exact .pure trivial
          · exact keeps_advance _ (by exact mem_singleton_self c.id) rfl hlive'

theorem keeps_promote (r : CampaignRequest) :
    (otaCampaignPromote env r).Keeps (campaignContract env id) (fun _ _ => True) s := by
  refine keeps_withCampaign _ _ (fun c hended => ?_) fun c s hopen hlive => ?_
  · unfold promoteCampaign
    rw [refresh_of_ended _ _ hended]
    exact ⟨_, if_pos (ne_of_ended hended rfl)⟩
  · refine .bind (keeps_refresh .early true c (mem_singleton_self c.id) hlive)
      fun c' s' hlatest => ?_
    split
    · exact .pure trivial
    · split
      · exact .pure trivial
      · next hrunning _ =>
        -- the copy that goes on is of a campaign that runs
        have hopen' : campaignEnded c'.status = false := by
          rw [not_not.mp hrunning]
          rfl
        refine keeps_advance _ (by exact mem_singleton.mpr hlatest.id_eq) hopen' fun hmem hended => ?_
        have hid : c.id = id := (mem_singleton.mp hmem).symm
        rw [hlatest.ended hid hended] at hopen'
        cases hopen'

theorem keeps_pause (r : CampaignRequest) :
    (otaCampaignPause env r).Keeps (campaignContract env id) (fun _ _ => True) s := by
  refine keeps_withCampaign _ _ (fun c hended => ?_) fun c s hopen hlive => ?_
  · exact ⟨_, if_pos (ne_of_ended hended rfl)⟩
  · split
    · exact .pure trivial
    · refine .bind (keeps_save _ (by exact mem_singleton_self c.id) ?_ ?_ hlive)
        fun _ _ _ => .pure trivial
      · exact fun _ _ h => h
      · exact fun _ _ => rfl

theorem keeps_abort (r : CampaignRequest) :
    (otaCampaignAbort env r).Keeps (campaignContract env id) (fun _ _ => True) s := by
  refine keeps_withCampaign _ _ (fun c hended => ?_) fun c s hopen hlive => ?_
  · exact ⟨_, if_pos hended⟩
  · split
    · exact .pure trivial
    · refine .bind (keeps_clear .final c.devices hlive) fun _ s' hlive' => ?_
      refine .bind (keeps_save _ (by exact mem_singleton_self c.id) ?_ ?_ hlive')
        fun _ _ _ => .pure trivial
      · exact fun _ _ h => h
      · exact fun _ _ => rfl

theorem keeps_resume (r : CampaignRequest) :
    (otaCampaignResume env r).Keeps (campaignContract env id) (fun _ _ => True) s := by
  refine keeps_withCampaign _ _ (fun c hended => ?_) fun c s hopen hlive => ?_
  · exact ⟨_, if_pos (ne_of_ended hended rfl)⟩
  · split
    · exact .pure trivial
    · refine .bind (keeps_save _ (by exact mem_singleton_self c.id) ?_ ?_ hlive)
        fun saved s' hsaved => ?_
      · exact fun _ _ h => h
      · exact fun _ _ => rfl
      · cases saved with
        | error err => exact .pure trivial
        | ok c' =>
          obtain ⟨hlive', hcopy⟩ := hsaved rfl
          have hown : c'.id ∈ [c.id] := mem_singleton.mpr (hcopy c' rfl).1
          exact .bind (keeps_refresh .final false c' hown hlive') fun _ _ _ => .pure trivial

theorem keeps_get (r : CampaignRequest) :
    (otaCampaignGet env r).Keeps (campaignContract env id) (fun _ _ => True) s := by
  refine keeps_withCampaign _ _ (fun c hended => ?_) fun c s hopen hlive => ?_
  · rw [refresh_of_ended _ _ hended]
    exact ⟨_, rfl⟩
  · exact .bind (keeps_refresh .final true c (mem_singleton_self c.id) hlive)
      fun _ _ _ => .pure trivial

theorem keeps_syncForDevice (deviceID : String) (st : Ota.Status) :
    (syncOTACampaignsForDevice env deviceID st).Keeps (campaignContract env id) (fun _ _ => True) s := by
  have hlist : (lookup fun s => s.store.state.otaCampaigns.filter (concerns deviceID st)).Keeps
      (campaignContract env id)
      (fun campaigns s => (campaigns.map OTACampaign.id).Nodup ∧
        Live id (campaigns.map OTACampaign.id) s) s := by
    refine .access fun s' _ hinv _ =>
      ⟨hinv, ⟨fun _ => .refl env id s', fun hopen h => absurd h hopen⟩, ?_, fun hmem hended => ?_⟩
    · exact hinv.sublist (List.Sublist.map _ filter_sublist)
    · -- the campaign of the list is the stored one, and it has not ended
      obtain ⟨c, hc, rfl⟩ := List.mem_map.mp hmem
      obtain ⟨hstored, hconcerns⟩ := mem_filter.mp hc
      have hfind : s'.store.otaCampaign c.id = some c :=
        KeyedList.find?_of_nodup OTACampaign.id hinv hstored
      simp only [Ended, campaignStatus, hfind, map_some, any_some] at hended
      have hactive : c.status = otaCampaignRunning ∨ c.status = otaCampaignPaused := by
        simp only [concerns, Bool.and_eq_true, Bool.or_eq_true, decide_eq_true_eq] at hconcerns
        exact hconcerns.1
      rcases hactive with hstatus | hstatus <;> exact ne_of_ended hended rfl hstatus
  exact .bind hlist fun campaigns s' h => keeps_sync campaigns h.1 h.2

theorem keeps_report (r : StatusRequest) :
    (agentOTAStatusProc env r).Keeps (campaignContract env id) (fun _ _ => True) s := by
  have hwrite {α : Type} {point : Point} {f : Choice → Server → Server × α} {s : Server}
      (hcampaigns : ∀ choice s,
        (f choice s).1.store.state.otaCampaigns = s.store.state.otaCampaigns)
      (hrequests : ∀ choice s deviceID, issued env (f choice s).1 id deviceID = none ∨
        issued env (f choice s).1 id deviceID = issued env s id deviceID) :
      (write point f).Keeps (campaignContract env id) (fun _ s => Live id [] s) s :=
    keeps_write hcampaigns (fun _ => hrequests) fun hmem => absurd hmem not_mem_nil
  refine .bind (hwrite (fun _ _ => rfl) fun _ _ _ => .inr rfl) fun refused s₁ hlive₁ => ?_
  cases refused with
  | some reply => exact .pure trivial
  | none =>
  have hfound : (lookup (agentDevice · r.deviceID r.siteID)).Keeps (campaignContract env id)
      (fun _ s => Live id [] s) s₁ :=
    keeps_read (agentDevice · r.deviceID r.siteID) hlive₁
  refine .bind hfound fun found s₂ _ => ?_
  cases found with
  | error reply => exact .pure trivial
  | ok dev =>
  simp only
  split
  · exact .pure trivial
  · refine .bind (hwrite (fun _ _ => otaCampaigns_recordStatus _ _ _)
      fun _ _ _ => issued_recordStatus _ _ _) fun recorded s₃ _ => ?_
    cases recorded with
    | error reply => exact .pure trivial
    | ok tw =>
      refine .bind (hwrite (fun _ _ => otaCampaigns_alertStatus _ _ _)
        fun _ _ _ => .inr (issued_of_twin (twin_alertStatus _ _ _))) fun _ s₄ _ => ?_
      exact .bind (keeps_syncForDevice _ _) fun _ _ _ => .pure trivial

def served {α : Type} (p : Proc α) : Proc Unit := p >>= fun _ => pure ()

inductive CampaignThread (env : TwinEnv) : Proc Unit → Prop where
  | start (r : CampaignRequest) : CampaignThread env (served (otaCampaignStart env r))
  | promote (r : CampaignRequest) : CampaignThread env (served (otaCampaignPromote env r))
  | pause (r : CampaignRequest) : CampaignThread env (served (otaCampaignPause env r))
  | resume (r : CampaignRequest) : CampaignThread env (served (otaCampaignResume env r))
  | abort (r : CampaignRequest) : CampaignThread env (served (otaCampaignAbort env r))
  | get (r : CampaignRequest) : CampaignThread env (served (otaCampaignGet env r))
  | report (r : StatusRequest) : CampaignThread env (served (agentOTAStatusProc env r))

/-- Requests about any campaigns and reports of any devices, in any interleaving. -/
def campaignSystem (env : TwinEnv) : System Server (Proc Unit) Choice :=
  Program.system (CampaignThread env)

def EndsAlone (id : String) (choice : Choice) (t : Proc Unit) (rest : Multiset (Proc Unit)) : Prop :=
  choice.error = none → (∃ label ∈ t.label?, label.point.ends id) →
    ∀ u ∈ rest, ∀ label ∈ u.label?, id ∉ label.held

def exclusiveSystem (env : TwinEnv) (id : String) : System Server (Proc Unit) Choice :=
  { campaignSystem env with allowed := fun choice _ t rest => EndsAlone id choice t rest }

theorem keeps_served {α : Type} {p : Proc α} (h : p.Keeps (campaignContract env id) (fun _ _ => True) s) :
    (served p).Keeps (campaignContract env id) (fun _ _ => True) s :=
  .bind h fun _ _ _ => .pure trivial

theorem campaignContract_fits (env : TwinEnv) (id : String) :
    (campaignContract env id).Fits (exclusiveSystem env id) where
  next := rfl
  refl := fun _ _ => ⟨fun _ => rfl, fun _ h => h⟩
  trans := by
    intro label s s' s'' h h'
    refine ⟨fun hended => ?_, fun hmem hended => h.2 hmem (h'.2 hmem hended)⟩
    rw [h'.1 ((Unchanged.ended_iff (h.1 hended)).mpr hended), h.1 hended]
  others := by
    intro choice s label run next rest hallowed hinv hguar u hu label' hlabel'
    refine ⟨fun hended => (hguar.1 hended).status, fun hmem hended' => ?_⟩
    by_contra hopen
    obtain ⟨herror, hends⟩ := hguar.2 hopen hended'
    exact hallowed herror ⟨label, rfl, hends⟩ u hu label' hlabel' hmem
  starts := by
    intro s t _ hstart
    cases hstart with
    | start r => exact keeps_served (keeps_start r)
    | promote r => exact keeps_served (keeps_promote r)
    | pause r => exact keeps_served (keeps_pause r)
    | resume r => exact keeps_served (keeps_resume r)
    | abort r => exact keeps_served (keeps_abort r)
    | get r => exact keeps_served (keeps_get r)
    | report r => exact keeps_served (keeps_report r)

/-- An ended campaign keeps its status, and no twin receives a request of it any more, in every
run in which nobody else has a copy of it when its end is stored. -/
theorem ended_campaign_unchanged_of_run (env : TwinEnv) (id : String) (s : Server)
    (hids : (campaignIDs s).Nodup) (c c' : Interleave.Config Server (Proc Unit))
    (hrun : (exclusiveSystem env id).Run ⟨s, 0⟩ c) (hlater : (exclusiveSystem env id).Run c c')
    (hended : Ended c.shared id) : Unchanged env id c.shared c'.shared := by
  have hfits := campaignContract_fits env id
  have hmeets := hfits.outline.run hrun ⟨hids, fun _ h => absurd h (Multiset.notMem_zero _)⟩
  refine hfits.run (R := fun s s' => Ended s id → Unchanged env id s s') ?_ ?_ ?_ hlater hmeets hended
  · exact fun s _ => .refl env id s
  · intro s s' s'' h h' hended
    have hfirst := h hended
    exact hfirst.trans (h' ((Unchanged.ended_iff hfirst.status).mpr hended))
  · exact fun label choice s s' _ hguar => hguar.1

/-- A campaign for two devices, whose first wave has selected one of them. -/
def someCampaign : OTACampaign where
  id := "c"
  siteIDs := ["s"]
  stages := [{ canaryPercent := 50 }, { canaryPercent := 100 }]
  manifest := someManifest
  failureThresholdPercent := 10
  status := otaCampaignRunning
  targetDeviceIDs := ["d1", "d2"]
  devices := [{ deviceID := "d1", siteID := "s", updateID := "c-d1" }]

def campaignServer : Server :=
  { someServer with
    store := { someStore with
      state := { someStore.state with
        devices := [{ id := "d1", siteID := "s" }, { id := "d2", siteID := "s" }]
        otaCampaigns := [someCampaign] } } }

def campaignRequest : CampaignRequest := { campaignID := "c", caller := fun _ => true }

noncomputable def abortMoves : List (Move (Proc Unit) Choice) :=
  [.start (served (otaCampaignPromote twinEnv campaignRequest)), .move 0 {}, .move 0 {},
    .start (served (otaCampaignAbort twinEnv campaignRequest)), .move 0 {}, .move 0 {}, .move 0 {},
    .move 0 {}]

def promoteMoves : List (Move (Proc Unit) Choice) := [.move 1 {}, .move 0 {}, .move 0 {}]

noncomputable def abortedConfig : Server × List (Proc Unit) :=
  abortMoves.foldl (exec (campaignSystem twinEnv).next) (campaignServer, [])

noncomputable def promotedConfig : Server × List (Proc Unit) :=
  promoteMoves.foldl (exec (campaignSystem twinEnv).next) abortedConfig

def hasRequest (s : Server) (deviceID : String) : Bool :=
  ((s.store.twin deviceID).bind fun tw => tw.desired[otaTwinKey]?).isSome

theorem run_abortMoves : (campaignSystem twinEnv).Run ⟨campaignServer, 0⟩
    ⟨abortedConfig.1, abortedConfig.2⟩ := by
  refine (campaignSystem twinEnv).run_of_starts (fun _ _ _ _ => trivial) abortMoves ?_
    (campaignServer, [])
  intro t ht
  simp only [abortMoves, mem_cons, Move.start.injEq, reduceCtorEq, false_or, not_mem_nil,
    or_false] at ht
  rcases ht with rfl | rfl
  · exact .promote _
  · exact .abort _

theorem run_promoteMoves : (campaignSystem twinEnv).Run ⟨abortedConfig.1, abortedConfig.2⟩
    ⟨promotedConfig.1, promotedConfig.2⟩ := by
  refine (campaignSystem twinEnv).run_of_starts (fun _ _ _ _ => trivial) promoteMoves ?_ abortedConfig
  intro t ht
  simp [promoteMoves] at ht

/-- A campaign that was aborted runs again, and another device has a request of it. -/
theorem aborted_campaign_promoted :
    (campaignSystem twinEnv).Run ⟨campaignServer, 0⟩ ⟨abortedConfig.1, abortedConfig.2⟩ ∧
      (campaignSystem twinEnv).Run ⟨abortedConfig.1, abortedConfig.2⟩
        ⟨promotedConfig.1, promotedConfig.2⟩ ∧
      campaignStatus abortedConfig.1 "c" = some otaCampaignAborted ∧
      campaignStatus promotedConfig.1 "c" = some otaCampaignRunning ∧
      hasRequest abortedConfig.1 "d2" = false ∧ hasRequest promotedConfig.1 "d2" = true :=
  ⟨run_abortMoves, run_promoteMoves, by decide, by decide, by decide,
    by decide⟩

noncomputable def abortedServer : Server :=
  ((served (otaCampaignAbort twinEnv campaignRequest)).eval (fun _ => {}) campaignServer).1

noncomputable def promotedServer : Server :=
  ((served (otaCampaignPromote twinEnv campaignRequest)).eval (fun _ => {}) abortedServer).1

theorem run_exclusive (t : Proc Unit) (hstart : CampaignThread twinEnv t) (s : Server) :
    (exclusiveSystem twinEnv "c").Run ⟨s, 0⟩ ⟨(t.eval (fun _ => {}) s).1, 0⟩ := by
  have : Inhabited Choice := ⟨{}⟩
  have hpass : t.Passes (fun _ => {}) (fun _ _ _ => True) s := passes_of_forall _ (fun _ _ => trivial) t s
  refine run_alone (exclusiveSystem twinEnv "c") rfl ?_ (fun _ => {}) t hstart s hpass
  exact fun _ _ _ _ _ _ u hu => absurd hu (Multiset.notMem_zero u)

theorem aborted_campaign_unchanged :
    campaignStatus abortedServer "c" = some otaCampaignAborted ∧
      Unchanged twinEnv "c" abortedServer promotedServer :=
  ⟨by decide, ended_campaign_unchanged_of_run twinEnv "c" campaignServer (by decide)
    ⟨abortedServer, 0⟩ ⟨promotedServer, 0⟩ (run_exclusive _ (.abort _) _)
    (run_exclusive _ (.promote _) _) (by decide)⟩

end Nodra.Server
