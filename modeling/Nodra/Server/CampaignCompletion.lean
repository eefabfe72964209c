import Nodra.Server.CampaignTurns

/-! When a campaign is completed, every target has committed the campaign's update, in every
run in which no report hides its update. -/
namespace Nodra.Server
open Model Std Interleave Program Relation List Option

section

structure SoundCampaign (c : OTACampaign) : Prop where
  listed : (listedIDs c).Nodup
  targets : c.targetDeviceIDs.Nodup
  subset : ∀ deviceID ∈ listedIDs c, deviceID ∈ c.targetDeviceIDs
  updates : ∀ d ∈ c.devices, d.updateID = campaignUpdateID c.id d.deviceID
  draft : c.status = otaCampaignDraft → c.devices = []

/-- Every target is selected exactly once, and has committed the update of the campaign. -/
def AllCommitted (env : TwinEnv) (s : Server) (c : OTACampaign) : Prop :=
  ∀ deviceID ∈ c.targetDeviceIDs, (listedIDs c).count deviceID = 1 ∧
    ∃ st, otaReport env s deviceID = some st ∧ st.state = .committed ∧
      st.updateID = campaignUpdateID c.id deviceID

variable {env : TwinEnv} {s s' : Server} {c c' : OTACampaign}

theorem SoundCampaign.refresh (h : SoundCampaign c) (houtcome : Outcome env s c c') :
    SoundCampaign c' := by
  have hcourse := houtcome.course
  have htargets : c'.targetDeviceIDs = c.targetDeviceIDs := by rw [hcourse.rest]
  refine ⟨hcourse.listed ▸ h.listed, htargets ▸ h.targets, ?_, ?_, ?_⟩
  · rw [hcourse.listed, htargets]
    exact h.subset
  · rw [hcourse.id_eq]
    rcases houtcome.states with hsame | hobserved
    · rw [hsame]
      exact h.updates
    · rw [hobserved]
      intro d hd
      obtain ⟨d₀, hd₀, rfl⟩ := List.mem_map.mp hd
      rw [observed_updateID, observed_deviceID]
      exact h.updates d₀ hd₀
  · intro hdraft
    have hstatus : c.status = otaCampaignDraft := by
      rcases houtcome.status with hsame | ⟨-, haborted | ⟨hcompleted, -⟩⟩
      · exact hsame ▸ hdraft
      · exact absurd (haborted.symm.trans hdraft) (by decide)
      · exact absurd (hcompleted.symm.trans hdraft) (by decide)
    have hempty : listedIDs c' = [] := by
      rw [hcourse.listed]
      simp [listedIDs, h.draft hstatus]
    exact map_eq_nil_iff.mp hempty

theorem SoundCampaign.wave (h : SoundCampaign c) (hwaved : Waved c c') : SoundCampaign c' := by
  obtain ⟨added, hdevices, hnodup, hadded⟩ := hwaved.added
  have hid : c'.id = c.id := by rw [hwaved.rest]
  have hstatus : c'.status = otaCampaignRunning := by rw [hwaved.rest]
  have hlisted : listedIDs c' = listedIDs c ++ added.map OTACampaignDevice.deviceID := by
    simp [listedIDs, hdevices]
  -- a draft has no devices yet, and the targets of a running campaign stay
  have hkept : c'.targetDeviceIDs.Nodup ∧ ∀ deviceID ∈ listedIDs c, deviceID ∈ c'.targetDeviceIDs := by
    rcases hwaved.targets with ⟨hdraft, htargets⟩ | ⟨-, htargets⟩
    · refine ⟨htargets, fun deviceID hmem => ?_⟩
      simp [listedIDs, h.draft hdraft] at hmem
    · rw [htargets]
      exact ⟨h.targets, h.subset⟩
  refine ⟨?_, hkept.1, ?_, ?_, ?_⟩
  · rw [hlisted, nodup_append]
    refine ⟨h.listed, hnodup, ?_⟩
    rintro a ha b hb rfl
    obtain ⟨d, hd, rfl⟩ := List.mem_map.mp hb
    exact (hadded d hd).1 ha
  · rw [hlisted]
    intro deviceID hmem
    rcases mem_append.mp hmem with hmem | hmem
    · exact hkept.2 deviceID hmem
    · obtain ⟨d, hd, rfl⟩ := List.mem_map.mp hmem
      exact (hadded d hd).2.1
  · rw [hid, hdevices]
    intro d hd
    rcases mem_append.mp hd with hd | hd
    · exact h.updates d hd
    · exact (hadded d hd).2.2.1
  · intro hdraft
    exact absurd (hstatus.symm.trans hdraft) (by decide)

theorem Switches.ne {status status' : String} (h : Switches status status') :
    status' ≠ otaCampaignDraft ∧ status' ≠ otaCampaignCompleted := by
  rcases h with ⟨-, rfl⟩ | ⟨-, rfl⟩ | ⟨-, rfl⟩ <;> decide

theorem SoundCampaign.amends (h : SoundCampaign c) (hamends : Amends env s c c') :
    SoundCampaign c' := by
  cases hamends with
  | refresh houtcome => exact h.refresh houtcome
  | wave hwaved => exact h.wave hwaved
  | switch status now hswitches =>
    exact ⟨h.listed, h.targets, h.subset, h.updates, fun hdraft => absurd hdraft hswitches.ne.1⟩

theorem SoundCampaign.chain (h : SoundCampaign c) (hchain : ReflTransGen (Amends env s) c c') :
    SoundCampaign c' := by
  induction hchain with
  | refl => exact h
  | tail _ hamends ih => exact ih.amends hamends

theorem SoundCampaign.allCommitted (h : SoundCampaign c)
    (hnamed : ∀ deviceID st, otaReport env s deviceID = some st → st.updateID ≠ "")
    (hcompletes : (tallyOf env s c.devices).completes c) : AllCommitted env s c := by
  simp only [Tally.completes, tallyOf, length_map, Bool.and_eq_true, decide_eq_true_eq] at hcompletes
  obtain ⟨⟨-, hcommitted⟩, hall⟩ := hcompletes
  have hperm : (listedIDs c).Perm c.targetDeviceIDs := by
    refine (subperm_of_subset h.listed h.subset).perm_of_length_le ?_
    simp [listedIDs, hall]
  intro deviceID htarget
  have hlisted : deviceID ∈ listedIDs c := hperm.symm.subset htarget
  refine ⟨count_eq_one_of_mem h.listed hlisted, ?_⟩
  obtain ⟨d, hd, rfl⟩ := List.mem_map.mp hlisted
  have hcounts : countsCommitted env s d := countP_eq_length.mp hcommitted d hd
  simp only [countsCommitted, outcome_eq, decide_eq_true_eq] at hcounts
  obtain ⟨st, hreport, hst⟩ := bind_eq_some_iff.mp hcounts
  split at hst
  · cases hst
  · next hupdate =>
    refine ⟨st, hreport, Option.some.inj hst, ?_⟩
    rw [← h.updates d hd]
    by_contra hne
    exact hupdate ⟨hnamed _ st hreport, hne⟩

theorem AllCommitted.course (h : AllCommitted env s c) (hcourse : SameCourse c c') :
    AllCommitted env s c' := by
  have htargets : c'.targetDeviceIDs = c.targetDeviceIDs := by rw [hcourse.rest]
  unfold AllCommitted
  rw [htargets, hcourse.listed, hcourse.id_eq]
  exact h

theorem allCommitted_of_chain (h : SoundCampaign c)
    (hnamed : ∀ deviceID st, otaReport env s deviceID = some st → st.updateID ≠ "")
    (hchain : ReflTransGen (Amends env s) c c') (hopen : c.status ≠ otaCampaignCompleted)
    (hcompleted : c'.status = otaCampaignCompleted) : AllCommitted env s c' := by
  induction hchain with
  | refl => exact absurd hcompleted hopen
  | @tail u c' hchain hamends ih =>
    cases hamends with
    | refresh houtcome =>
      refine AllCommitted.course ?_ houtcome.course
      by_cases hbefore : u.status = otaCampaignCompleted
      · exact ih hbefore
      · rcases houtcome.status with hsame | ⟨-, haborted | ⟨-, hcompletes⟩⟩
        · exact absurd (hsame ▸ hcompleted) hbefore
        · exact absurd (haborted.symm.trans hcompleted) (by decide)
        · exact (h.chain hchain).allCommitted hnamed hcompletes
    | wave hwaved =>
      have hrunning : c'.status = otaCampaignRunning := by rw [hwaved.rest]
      exact absurd (hrunning.symm.trans hcompleted) (by decide)
    | switch status now hswitches => exact absurd hcompleted hswitches.ne.2

end

section

/-- The campaigns are sound, with distinct ids, and every report names its update. -/
structure WellKept (env : TwinEnv) (s : Server) : Prop where
  ids : (campaignIDs s).Nodup
  campaigns : ∀ id v, s.store.otaCampaign id = some v → SoundCampaign v
  named : ∀ deviceID st, otaReport env s deviceID = some st → st.updateID ≠ ""

/-- A new campaign has an id of its own, and the map that an agent reports has no OTA status
without an update. -/
def Turn.NamesUpdate (env : TwinEnv) (oracle : AgentPoint → Choice) (s : Server) : Turn → Prop
  | .agent (.twinReported r) =>
    ∀ st, r.reported[otaTwinKey]?.bind env.status.ofAny = some st → st.updateID ≠ ""
  | .create _ _ => (oracle (.campaign { point := .add })).id ∉ campaignIDs s
  | _ => True

def NamedStep (env : TwinEnv) : Server → Server → Prop :=
  TurnStep env fun oracle s t => t.NamesUpdate env oracle s

variable {env : TwinEnv} {oracle : AgentPoint → Choice} {s s₁ s' : Server} {t : Turn}

theorem updateID_of_validate {st : Ota.Status} (h : st.validate env.ota = none) : st.updateID ≠ "" := by
  intro hempty
  have hrequired := findSome?_eq_none_iff.mp h (Ota.required "update_id" st.updateID)
    mem_cons_self
  rw [hempty] at hrequired
  exact absurd hrequired (by decide)

theorem WellKept.reports (h : WellKept env s)
    (hcampaigns : s'.store.state.otaCampaigns = s.store.state.otaCampaigns)
    (hreports : ∀ deviceID, storedOta s' deviceID = storedOta s deviceID ∨
      ∀ st, otaReport env s' deviceID = some st → st.updateID ≠ "") : WellKept env s' where
  ids := by
    unfold campaignIDs
    rw [hcampaigns]
    exact h.ids
  campaigns := fun id v hv => h.campaigns id v ((otaCampaign_of_campaigns hcampaigns).symm.trans hv)
  named := by
    intro deviceID st hst
    rcases hreports deviceID with hsame | hnamed
    · refine h.named deviceID st ?_
      rwa [otaReport, hsame] at hst
    · exact hnamed st hst

theorem WellKept.sequel (h : WellKept env s) (hsequel : Sequel env s s') : WellKept env s' where
  ids := hsequel.ids ▸ h.ids
  campaigns := by
    intro id v' hv'
    obtain ⟨v, hv, hchain⟩ := hsequel.before hv'
    exact (h.campaigns id v hv).chain hchain
  named := by
    intro deviceID st hst
    rw [otaReport, hsequel.reports] at hst
    exact h.named deviceID st hst

theorem WellKept.drafts (h : WellKept env s) {id : String} (hid : id ∉ campaignIDs s)
    (hdrafts : Drafts id s s') : WellKept env s' where
  ids := hdrafts.nodup hid h.ids
  campaigns := by
    intro id' v hv
    rcases hdrafts.before hv with hv | ⟨-, hdevices, htargets⟩
    · exact h.campaigns id' v hv
    · exact ⟨by simp [listedIDs, hdevices], by simp [htargets], by simp [listedIDs, hdevices],
        by simp [hdevices], fun _ => hdevices⟩
  named := by
    intro deviceID st hst
    rw [otaReport, hdrafts.reports] at hst
    exact h.named deviceID st hst

theorem WellKept.concludes (h : WellKept env s) {r : AgentRequest}
    (hnames : (Turn.agent r).NamesUpdate env oracle s) (hconcludes : Concludes env r s s₁ s') :
    WellKept env s₁ := by
  refine h.reports hconcludes.campaigns fun deviceID => (hconcludes.reports deviceID).imp_right ?_
  intro hstores st hst
  unfold otaReport at hst
  generalize storedOta s₁ deviceID = stored at hstores hst
  cases hstores with
  | reported r => exact hnames st hst
  | status r status hstatus hvalid htransition =>
    rw [bind_some, env.status.ofAny_toAny] at hst
    cases hst
    exact updateID_of_validate hvalid

theorem WellKept.turn (h : WellKept env s) (hnames : t.NamesUpdate env oracle s) :
    WellKept env (t.run env oracle s) := by
  cases t with
  | agent r =>
    obtain ⟨s₁, hconcludes⟩ := @concludes_run env s oracle h.ids r
    exact (h.concludes hnames hconcludes).sequel hconcludes.sequel
  | create caller raw =>
    rcases @eval_create env s (fun label => oracle (.campaign label)) caller raw with hsame | hdrafts
    · simp only [Turn.run, hsame]
      exact h
    · exact h.drafts hnames hdrafts
  | campaign op => exact h.sequel (sequel_campaign op)

theorem WellKept.run (h : WellKept env s) (hrun : ReflTransGen (NamedStep env) s s') :
    WellKept env s' := by
  induction hrun with
  | refl => exact h
  | tail _ hstep ih =>
    cases hstep with
    | turn oracle t hnames => exact ih.turn hnames

/-- Whenever a request makes a campaign completed, every target was selected exactly once and
its twin reports the update of this campaign as committed. -/
theorem completed_all_committed_of_run (env : TwinEnv) (s₀ s : Server) (h₀ : WellKept env s₀)
    (hrun : ReflTransGen (NamedStep env) s₀ s) (oracle : AgentPoint → Choice) (t : Turn)
    (hnames : t.NamesUpdate env oracle s) (id : String) (c : OTACampaign)
    (hbefore : campaignStatus s id ≠ some otaCampaignCompleted)
    (hafter : (t.run env oracle s).store.otaCampaign id = some c)
    (hcompleted : c.status = otaCampaignCompleted) : AllCommitted env (t.run env oracle s) c := by
  have h := h₀.run hrun
  -- the reports do not change any more once the campaign is refreshed
  have hsequel {s₁ s' : Server} (h₁ : WellKept env s₁) (hsequel : Sequel env s₁ s')
      (hopen : campaignStatus s₁ id ≠ some otaCampaignCompleted)
      (hstored : s'.store.otaCampaign id = some c) : AllCommitted env s' c := by
    obtain ⟨v, hv, hchain⟩ := hsequel.before hstored
    have hstatus : v.status ≠ otaCampaignCompleted := by
      simpa [campaignStatus, hv] using hopen
    have hall := allCommitted_of_chain (h₁.campaigns id v hv) h₁.named hchain hstatus hcompleted
    unfold AllCommitted otaReport at hall ⊢
    simp only [hsequel.reports]
    exact hall
  cases t with
  | agent r =>
    obtain ⟨s₁, hconcludes⟩ := @concludes_run env s oracle h.ids r
    refine hsequel (h.concludes hnames hconcludes) hconcludes.sequel ?_ hafter
    rwa [campaignStatus_of_campaigns hconcludes.campaigns]
  | create caller raw =>
    rcases @eval_create env s (fun label => oracle (.campaign label)) caller raw with hsame | hdrafts
    · simp only [Turn.run, hsame] at hafter
      exact absurd (by simp [campaignStatus, hafter, hcompleted]) hbefore
    · rcases hdrafts.before hafter with hv | ⟨hstatus, -, -⟩
      · exact absurd (by simp [campaignStatus, hv, hcompleted]) hbefore
      · exact absurd (hstatus.symm.trans hcompleted) (by decide)
  | campaign op => exact hsequel h (sequel_campaign op) hbefore hafter

end

def rawCampaign : CampaignInput where
  name := "bsp"
  deviceIDs := ["d"]
  stages := [{ canaryPercent := 100 }]
  manifest := someManifest

def turnChoices : AgentPoint → Choice
  | .campaign { point := .add, .. } => { id := "c" }
  | _ => {}

noncomputable def createdServer : Server :=
  (Turn.create (fun _ => true) rawCampaign).run twinEnv turnChoices deviceServer

noncomputable def startedServer : Server :=
  (Turn.campaign (.start campaignRequest)).run twinEnv turnChoices createdServer

noncomputable def committedReport (updateID : String) : ReportedRequest where
  bearer := "token"
  siteID := "s"
  deviceID := "d"
  reported := (∅ : ExtTreeMap String Any).insert otaTwinKey
    (twinEnv.status.toAny { updateID, state := .committed })

noncomputable def reportedServer (updateID : String) : Server :=
  (Turn.agent (.twinReported (committedReport updateID))).run twinEnv turnChoices startedServer

noncomputable def refreshedServer (updateID : String) : Server :=
  (Turn.campaign (.get campaignRequest)).run twinEnv turnChoices (reportedServer updateID)

def runningCampaign : OTACampaign :=
  { rawCampaign.campaign with
    id := "c"
    status := otaCampaignRunning
    targetDeviceIDs := ["d"]
    devices := [{ deviceID := "d", siteID := "s", updateID := "c-d" }] }

theorem otaCampaign_reportedServer (updateID : String) :
    (reportedServer updateID).store.otaCampaign "c" = some runningCampaign := by
  have hcampaigns : (reportedServer updateID).store.state.otaCampaigns =
      startedServer.store.state.otaCampaigns := by
    have hconcludes := @concludes_twinReported twinEnv startedServer turnChoices (committedReport updateID)
    rw [← hconcludes.campaigns]
    simp only [reportedServer, Turn.run, AgentRequest.run, AgentRequest.program, eval_bind]
    rfl
  rw [otaCampaign_of_campaigns hcampaigns]
  decide

theorem otaReport_reportedServer (updateID : String) :
    otaReport twinEnv (reportedServer updateID) "d" = some { updateID, state := .committed } := by
  have hstored : storedOta (reportedServer updateID) "d" =
      some (twinEnv.status.toAny { updateID, state := .committed }) := rfl
  rw [otaReport, hstored, bind_some, twinEnv.status.ofAny_toAny]

theorem refreshedServer_completed {updateID : String} (h : updateID = "" ∨ updateID = "c-d") :
    ∃ c, (refreshedServer updateID).store.otaCampaign "c" = some c ∧
      c.status = otaCampaignCompleted ∧ c.targetDeviceIDs = ["d"] ∧
      otaReport twinEnv (refreshedServer updateID) "d" = some { updateID, state := .committed } := by
  have hstored := otaCampaign_reportedServer updateID
  have houtcome : outcome twinEnv (reportedServer updateID)
      { deviceID := "d", siteID := "s", updateID := "c-d" } = some .committed := by
    rw [outcome_eq, otaReport_reportedServer]
    rcases h with rfl | rfl <;> simp
  have htally : tallyOf twinEnv (reportedServer updateID) runningCampaign.devices =
      { devices := [{ deviceID := "d", siteID := "s", updateID := "c-d", state := .committed }],
        changed := true, failed := 0, committed := 1 } := by
    simp [tallyOf, runningCampaign, observed, countsFailed, countsCommitted, houtcome, failing]
  let oracle : Label → Choice := held (fun label => turnChoices (.campaign label)) "c"
  have hget : (otaCampaignGet twinEnv campaignRequest).eval
      (fun label => turnChoices (.campaign label)) (reportedServer updateID) = _ :=
    eval_get hstored rfl
  have hrefresh : Refreshes twinEnv (reportedServer updateID) runningCampaign
      ((refreshOTACampaign twinEnv .final true runningCampaign).eval oracle (reportedServer updateID)) :=
    refreshes_refresh hstored
  have hstatus := @status_refresh twinEnv oracle (reportedServer updateID) .final true runningCampaign
    hstored (.inl rfl)
  rw [htally] at hstatus
  have hrun : refreshedServer updateID =
      ((refreshOTACampaign twinEnv .final true runningCampaign).eval oracle
        (reportedServer updateID)).1 := by
    simp only [refreshedServer, Turn.run, CampaignOp.program]
    rw [hget]
    rfl
  rw [hrun]
  generalize (refreshOTACampaign twinEnv .final true runningCampaign).eval oracle
    (reportedServer updateID) = after at hrefresh hstatus
  refine ⟨after.2, hrefresh.stored, hstatus, ?_, ?_⟩
  · rw [hrefresh.outcome.course.rest]
    rfl
  · rw [otaReport, hrefresh.spares.reports]
    exact otaReport_reportedServer updateID

theorem wellKept_deviceServer : WellKept twinEnv deviceServer where
  ids := nodup_nil
  campaigns := fun id v hv => by cases hv
  named := fun deviceID st hst => by cases hst

theorem run_reportedServer {allowed : (AgentPoint → Choice) → Server → Turn → Prop}
    {updateID : String}
    (hcreate : allowed turnChoices deviceServer (.create (fun _ => true) rawCampaign))
    (hstart : allowed turnChoices createdServer (.campaign (.start campaignRequest)))
    (hreport : allowed turnChoices startedServer (.agent (.twinReported (committedReport updateID)))) :
    ReflTransGen (TurnStep twinEnv allowed) deviceServer (reportedServer updateID) :=
  ((ReflTransGen.single (.turn _ _ hcreate)).tail (.turn _ _ hstart)).tail (.turn _ _ hreport)

theorem campaignStatus_reportedServer (updateID : String) :
    campaignStatus (reportedServer updateID) "c" ≠ some otaCampaignCompleted := by
  rw [campaignStatus, otaCampaign_reportedServer]
  decide

/-- A report without an update completes the campaign. -/
theorem completed_without_update :
    ReflTransGen (TurnStep twinEnv fun _ _ _ => True) deviceServer (reportedServer "") ∧
      campaignStatus (reportedServer "") "c" ≠ some otaCampaignCompleted ∧
      ∃ c, (refreshedServer "").store.otaCampaign "c" = some c ∧ c.status = otaCampaignCompleted ∧
        ¬ AllCommitted twinEnv (refreshedServer "") c := by
  obtain ⟨c, hc, hstatus, htargets, hreport⟩ := refreshedServer_completed (.inl rfl)
  refine ⟨run_reportedServer trivial trivial trivial, campaignStatus_reportedServer "", c, hc, hstatus,
    fun hall => ?_⟩
  obtain ⟨-, st, hst, -, hupdate⟩ := hall "d" (by simp [htargets])
  obtain rfl := Option.some.inj (hreport.symm.trans hst)
  rw [Store.id_of_otaCampaign hc] at hupdate
  exact absurd hupdate (by decide)

/-- The same run, with a report of the campaign's update. -/
theorem completed_all_committed_named :
    ∃ c, (refreshedServer "c-d").store.otaCampaign "c" = some c ∧ c.status = otaCampaignCompleted ∧
      AllCommitted twinEnv (refreshedServer "c-d") c := by
  obtain ⟨c, hc, hstatus, -, -⟩ := refreshedServer_completed (.inr rfl)
  have hnames : (Turn.agent (.twinReported (committedReport "c-d"))).NamesUpdate twinEnv turnChoices
      startedServer := by
    intro st hst
    simp only [committedReport, ExtTreeMap.getElem?_insert_self, bind_some,
      twinEnv.status.ofAny_toAny] at hst
    cases hst
    decide
  have hrun : ReflTransGen (NamedStep twinEnv) deviceServer (reportedServer "c-d") :=
    run_reportedServer (not_mem_nil) trivial hnames
  exact ⟨c, hc, hstatus, completed_all_committed_of_run twinEnv deviceServer (reportedServer "c-d")
    wellKept_deviceServer hrun turnChoices (.campaign (.get campaignRequest)) trivial "c" c
    (campaignStatus_reportedServer "c-d") hc hstatus⟩

end Nodra.Server
