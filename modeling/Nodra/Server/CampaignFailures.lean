import Nodra.Server.CampaignTurns

/-! A device that a refresh has recorded as failed is counted as failed by every later refresh,
in every run in which its failed report is not replaced. -/
namespace Nodra.Server
open Model Std Interleave Program Relation List Option

variable {env : TwinEnv} {s s' : Server} {d : OTACampaignDevice}

section

def KeepsCounting (env : TwinEnv) (s : Server) (c : OTACampaign) : Prop :=
  campaignEnded c.status = false → ∀ d ∈ c.devices, failing d.state → countsFailed env s d

def FailuresKept (c c' : OTACampaign) : Prop :=
  ∀ d ∈ c.devices, failing d.state →
    ∃ d' ∈ c'.devices, d'.deviceID = d.deviceID ∧ d'.updateID = d.updateID ∧ failing d'.state

variable {c c' : OTACampaign}

theorem countsFailed_iff : countsFailed env s d ↔ ∃ st, otaReport env s d.deviceID = some st ∧
    failing st.state ∧ (st.updateID = "" ∨ st.updateID = d.updateID) := by
  rw [countsFailed, outcome_eq]
  cases otaReport env s d.deviceID with
  | none => simp
  | some st =>
    simp only [bind_some, Option.some.injEq, exists_eq_left']
    split
    · next hother => simp [hother]
    · next hsame =>
      have hupdate : st.updateID = "" ∨ st.updateID = d.updateID := by tauto
      simp [hupdate]

theorem countsFailed_observed : countsFailed env s (observed env s d) ↔ countsFailed env s d := by
  rw [countsFailed_iff, countsFailed_iff, observed_deviceID, observed_updateID]

theorem failing_observed_of_counts (h : countsFailed env s d) : failing (observed env s d).state := by
  unfold countsFailed at h
  unfold observed
  cases hstate : outcome env s d with
  | none => simp [hstate] at h
  | some state => simpa [hstate] using h

theorem counts_of_failing_observed (hkeeps : failing d.state → countsFailed env s d)
    (h : failing (observed env s d).state) : countsFailed env s d := by
  cases hstate : outcome env s d with
  | none =>
    refine hkeeps ?_
    simpa only [observed, hstate] using h
  | some state =>
    simpa only [countsFailed, observed, hstate, any_some] using h

theorem KeepsCounting.failed_eq (h : KeepsCounting env s c) (hopen : campaignEnded c.status = false) :
    (tallyOf env s c.devices).failed =
      (tallyOf env s c.devices).devices.countP fun d => failing d.state := by
  simp only [tallyOf, countP_map]
  refine countP_congr fun d hd => ?_
  exact ⟨failing_observed_of_counts, counts_of_failing_observed (h hopen d hd)⟩

theorem Amends.open_of_open (h : Amends env s c c') (hopen : campaignEnded c'.status = false) :
    campaignEnded c.status = false := by
  cases h with
  | refresh houtcome =>
    rcases houtcome.status with hsame | ⟨-, haborted | ⟨hcompleted, -⟩⟩
    · rwa [hsame] at hopen
    · rw [haborted] at hopen
      exact absurd hopen (by decide)
    · rw [hcompleted] at hopen
      exact absurd hopen (by decide)
  | wave hwaved =>
    rcases hwaved.targets with ⟨hdraft, -⟩ | ⟨hrunning, -⟩
    · rw [hdraft]
      decide
    · rw [hrunning]
      decide
  | switch status now hswitches =>
    rcases hswitches with ⟨hrunning, -⟩ | ⟨hpaused, -⟩ | ⟨hbefore, -⟩
    · rw [hrunning]
      decide
    · rw [hpaused]
      decide
    · exact hbefore

theorem Amends.keepsCounting (h : Amends env s c c') (hkeeps : KeepsCounting env s c) :
    KeepsCounting env s c' := by
  intro hopen
  have hcounts := hkeeps (h.open_of_open hopen)
  cases h with
  | refresh houtcome =>
    rcases houtcome.states with hsame | hobserved
    · rw [hsame]
      exact hcounts
    · rw [hobserved]
      intro d' hd' hfailing
      obtain ⟨d, hd, rfl⟩ := List.mem_map.mp hd'
      exact countsFailed_observed.mpr (counts_of_failing_observed (hcounts d hd) hfailing)
  | wave hwaved =>
    obtain ⟨added, hdevices, -, hadded⟩ := hwaved.added
    rw [hdevices]
    intro d hd hfailing
    rcases mem_append.mp hd with hd | hd
    · exact hcounts d hd hfailing
    · rw [(hadded d hd).2.2.2] at hfailing
      cases hfailing
  | switch status now hswitches => exact hcounts

theorem Amends.failuresKept (h : Amends env s c c') (hkeeps : KeepsCounting env s c)
    (hopen : campaignEnded c'.status = false) : FailuresKept c c' := by
  intro d hd hfailing
  have hcounts := hkeeps (h.open_of_open hopen) d hd hfailing
  cases h with
  | refresh houtcome =>
    rcases houtcome.states with hsame | hobserved
    · exact ⟨d, hsame ▸ hd, rfl, rfl, hfailing⟩
    · exact ⟨observed env s d, hobserved ▸ List.mem_map_of_mem hd, observed_deviceID d,
        observed_updateID d, failing_observed_of_counts hcounts⟩
  | wave hwaved =>
    obtain ⟨added, hdevices, -, -⟩ := hwaved.added
    exact ⟨d, hdevices ▸ mem_append_left added hd, rfl, rfl, hfailing⟩
  | switch status now hswitches => exact ⟨d, hd, rfl, rfl, hfailing⟩

theorem FailuresKept.trans {c'' : OTACampaign} (h : FailuresKept c c') (h' : FailuresKept c' c'') :
    FailuresKept c c'' := by
  intro d hd hfailing
  obtain ⟨d', hd', hdevice, hupdate, hfailing'⟩ := h d hd hfailing
  obtain ⟨d'', hd'', hdevice', hupdate', hfailing''⟩ := h' d' hd' hfailing'
  exact ⟨d'', hd'', hdevice'.trans hdevice, hupdate'.trans hupdate, hfailing''⟩

theorem keepsCounting_of_chain (hkeeps : KeepsCounting env s c)
    (hchain : ReflTransGen (Amends env s) c c') : KeepsCounting env s c' ∧
      (campaignEnded c'.status = false → campaignEnded c.status = false ∧ FailuresKept c c') := by
  induction hchain with
  | refl => exact ⟨hkeeps, fun hopen => ⟨hopen, fun d hd hfailing => ⟨d, hd, rfl, rfl, hfailing⟩⟩⟩
  | tail _ hamends ih =>
    refine ⟨hamends.keepsCounting ih.1, fun hopen => ?_⟩
    obtain ⟨hbefore, hkept⟩ := ih.2 (hamends.open_of_open hopen)
    exact ⟨hbefore, hkept.trans (hamends.failuresKept ih.1 hopen)⟩

end

section

def RecordedFailure (s : Server) (d : OTACampaignDevice) : Prop :=
  ∃ id c, s.store.otaCampaign id = some c ∧ campaignEnded c.status = false ∧ d ∈ c.devices ∧
    failing d.state

/-- The campaigns have distinct ids, and count what they have recorded. -/
structure CountsRecorded (env : TwinEnv) (s : Server) : Prop where
  ids : (campaignIDs s).Nodup
  campaigns : ∀ id c, s.store.otaCampaign id = some c → KeepsCounting env s c

/-- A new campaign has an id of its own.  For a device with a recorded failure, a reported map
still has a failure of the same update, and a status is one of the same update. -/
def Turn.KeepsReports (env : TwinEnv) (oracle : AgentPoint → Choice) (s : Server) : Turn → Prop
  | .agent (.twinReported r) =>
    ∀ d, RecordedFailure s d → d.deviceID = r.deviceID →
      ∃ st, r.reported[otaTwinKey]?.bind env.status.ofAny = some st ∧ failing st.state ∧
        (st.updateID = "" ∨ st.updateID = d.updateID)
  | .agent (.otaStatus r) =>
    ∀ d, RecordedFailure s d → d.deviceID = r.deviceID → r.status.updateID = d.updateID
  | .create _ _ => (oracle (.campaign { point := .add })).id ∉ campaignIDs s
  | _ => True

def KeepingStep (env : TwinEnv) : Server → Server → Prop :=
  TurnStep env fun oracle s t => t.KeepsReports env oracle s

structure Continues (env : TwinEnv) (s s' : Server) : Prop where
  counts : CountsRecorded env s'
  campaigns : ∀ id c c', s.store.otaCampaign id = some c → s'.store.otaCampaign id = some c' →
    campaignEnded c'.status = false → campaignEnded c.status = false ∧ FailuresKept c c'
  stored : ∀ id c, s.store.otaCampaign id = some c → ∃ c', s'.store.otaCampaign id = some c'

variable {oracle : AgentPoint → Choice} {s₁ : Server} {t : Turn}

theorem CountsRecorded.refl (h : CountsRecorded env s) : Continues env s s where
  counts := h
  campaigns := by
    intro id c c' hc hc' hopen
    obtain rfl : c = c' := Option.some.inj (hc.symm.trans hc')
    exact ⟨hopen, fun d hd hfailing => ⟨d, hd, rfl, rfl, hfailing⟩⟩
  stored := fun _ c hc => ⟨c, hc⟩

theorem Continues.trans {s'' : Server} (h : Continues env s s') (h' : Continues env s' s'') :
    Continues env s s'' where
  counts := h'.counts
  campaigns := by
    intro id c c'' hc hc'' hopen
    obtain ⟨c', hc'⟩ := h.stored id c hc
    obtain ⟨hopen', hkept'⟩ := h'.campaigns id c' c'' hc' hc'' hopen
    obtain ⟨hbefore, hkept⟩ := h.campaigns id c c' hc hc' hopen'
    exact ⟨hbefore, hkept.trans hkept'⟩
  stored := by
    intro id c hc
    obtain ⟨c', hc'⟩ := h.stored id c hc
    exact h'.stored id c' hc'

theorem CountsRecorded.sequel (h : CountsRecorded env s) (hsequel : Sequel env s s') :
    Continues env s s' where
  counts := by
    refine ⟨hsequel.ids ▸ h.ids, fun id c' hc' hopen d hd hfailing => ?_⟩
    obtain ⟨c, hc, hchain⟩ := hsequel.before hc'
    have hcounts := (keepsCounting_of_chain (h.campaigns id c hc) hchain).1 hopen d hd hfailing
    rwa [countsFailed, outcome_congr hsequel.reports]
  campaigns := by
    intro id c c' hc hc' hopen
    obtain ⟨v, hv, hchain⟩ := hsequel.before hc'
    obtain rfl : c = v := Option.some.inj (hc.symm.trans hv)
    exact (keepsCounting_of_chain (h.campaigns id c hc) hchain).2 hopen
  stored := by
    intro id c hc
    obtain ⟨c', hc', -⟩ := hsequel.campaigns id c hc
    exact ⟨c', hc'⟩

theorem failing_of_transition {prev status : Ota.Status} (hfailing : failing prev.state)
    (hprev : otaReport env s d.deviceID = some prev)
    (htransition : transitionError env (currentTwin s d.deviceID) status = none) :
    failing status.state := by
  obtain ⟨v, hstored, hv⟩ := bind_eq_some_iff.mp hprev
  rw [transitionError_of_stored hstored hv, Ota.validateTransition_eq_none_iff] at htransition
  have hterminal : prev.state.terminal := by
    simp only [failing, Bool.or_eq_true, decide_eq_true_eq] at hfailing
    rcases hfailing with hstate | hstate <;> rw [hstate] <;> rfl
  rwa [Ota.eq_of_canTransition_of_terminal hterminal htransition]

theorem countsFailed_of_concludes {r : AgentRequest} (hrecorded : RecordedFailure s d)
    (hcounts : countsFailed env s d) (hkeeps : (Turn.agent r).KeepsReports env oracle s)
    (hconcludes : Concludes env r s s₁ s') : countsFailed env s₁ d := by
  obtain ⟨prev, hprev, hfailing, -⟩ := countsFailed_iff.mp hcounts
  rcases hconcludes.reports d.deviceID with hsame | hstores
  · rw [countsFailed_iff, otaReport, hsame]
    exact countsFailed_iff.mp hcounts
  · rw [countsFailed_iff, otaReport]
    generalize hdevice : d.deviceID = deviceID at hstores hprev
    generalize storedOta s₁ deviceID = stored at hstores
    cases hstores with
    | reported r => exact hkeeps d hrecorded hdevice
    | status r status hstatus hvalid htransition =>
      rw [← hdevice] at htransition hprev
      refine ⟨status, ?_, failing_of_transition hfailing hprev htransition, .inr ?_⟩
      · rw [bind_some, env.status.ofAny_toAny]
      · rw [hstatus]
        exact hkeeps d hrecorded hdevice

theorem CountsRecorded.concludes (h : CountsRecorded env s) {r : AgentRequest}
    (hkeeps : (Turn.agent r).KeepsReports env oracle s) (hconcludes : Concludes env r s s₁ s') :
    Continues env s s₁ := by
  have hsame (id : String) : s₁.store.otaCampaign id = s.store.otaCampaign id :=
    otaCampaign_of_campaigns hconcludes.campaigns
  refine ⟨⟨?_, fun id c hc hopen d hd hfailing => ?_⟩, fun id c c' hc hc' => ?_, fun id c hc => ?_⟩
  · unfold campaignIDs
    rw [hconcludes.campaigns]
    exact h.ids
  · rw [hsame] at hc
    exact countsFailed_of_concludes ⟨id, c, hc, hopen, hd, hfailing⟩
      (h.campaigns id c hc hopen d hd hfailing) hkeeps hconcludes
  · exact h.refl.campaigns id c c' hc (hsame id ▸ hc')
  · exact ⟨c, (hsame id).trans hc⟩

theorem CountsRecorded.drafts (h : CountsRecorded env s) {id : String} (hid : id ∉ campaignIDs s)
    (hdrafts : Drafts id s s') : Continues env s s' := by
  obtain ⟨draft, -, -, -, -, hcampaigns⟩ := hdrafts.campaigns
  have hkept {id : String} {c : OTACampaign} (hc : s.store.otaCampaign id = some c) :
      s'.store.otaCampaign id = some c := by
    unfold Store.otaCampaign at hc ⊢
    rw [hcampaigns, find?_append, hc]
    rfl
  refine ⟨⟨hdrafts.nodup hid h.ids, fun id c hc => ?_⟩, fun id c c' hc hc' => ?_,
    fun id c hc => ⟨c, hkept hc⟩⟩
  · rcases hdrafts.before hc with hc | ⟨-, hdevices, -⟩
    · intro hopen d hd hfailing
      rw [countsFailed, outcome_congr hdrafts.reports]
      exact h.campaigns id c hc hopen d hd hfailing
    · intro _ d hd
      simp [hdevices] at hd
  · obtain rfl : c = c' := Option.some.inj ((hkept hc).symm.trans hc')
    exact h.refl.campaigns id c c hc hc

theorem CountsRecorded.turn (h : CountsRecorded env s) (hkeeps : t.KeepsReports env oracle s) :
    Continues env s (t.run env oracle s) := by
  cases t with
  | agent r =>
    obtain ⟨s₁, hconcludes⟩ := @concludes_run env s oracle h.ids r
    have hstored := h.concludes hkeeps hconcludes
    exact hstored.trans (hstored.counts.sequel hconcludes.sequel)
  | create caller raw =>
    rcases @eval_create env s (fun label => oracle (.campaign label)) caller raw with hsame | hdrafts
    · simp only [Turn.run, hsame]
      exact h.refl
    · exact h.drafts hkeeps hdrafts
  | campaign op => exact h.sequel (sequel_campaign op)

theorem CountsRecorded.run (h : CountsRecorded env s) (hrun : ReflTransGen (KeepingStep env) s s') :
    Continues env s s' := by
  induction hrun with
  | refl => exact h.refl
  | tail _ hstep ih =>
    cases hstep with
    | turn oracle t hkeeps => exact ih.trans (ih.counts.turn hkeeps)

/-- Every failure recorded at one time is recorded and counted at every later time at which the
campaign is active.  The failed count of a refresh is the number of failures that it leaves
recorded, and once these reach the threshold the campaign is aborted. -/
theorem recorded_failures_count_of_run (env : TwinEnv) (s₀ s₁ s : Server) (h₀ : CountsRecorded env s₀)
    (hbefore : ReflTransGen (KeepingStep env) s₀ s₁) (hafter : ReflTransGen (KeepingStep env) s₁ s)
    (id : String) (c₁ c : OTACampaign) (hstored₁ : s₁.store.otaCampaign id = some c₁)
    (hstored : s.store.otaCampaign id = some c) (hactive : active c.status) :
    (∀ d ∈ c₁.devices, failing d.state → ∃ d' ∈ c.devices, d'.deviceID = d.deviceID ∧
      d'.updateID = d.updateID ∧ failing d'.state ∧ countsFailed env s d') ∧
    ∃ recorded, recorded = ((tallyOf env s c.devices).devices.countP fun d => failing d.state) ∧
      (tallyOf env s c.devices).failed = recorded ∧
      ∀ (oracle : Label → Choice) (pass : Pass) (shared : Bool), 0 < recorded →
        c.failureThresholdPercent ≤ (recorded * 100 / c.devices.length : Nat) →
        (oracle { point := .refresh pass c.id otaCampaignAborted }).error = none →
        ((refreshOTACampaign env pass shared c).eval oracle s).2.status = otaCampaignAborted := by
  have hcontinues := (h₀.run hbefore).counts.run hafter
  have hopen : campaignEnded c.status = false := by
    rcases hactive with hstatus | hstatus <;> rw [hstatus] <;> decide
  have hkeeps := hcontinues.counts.campaigns id c hstored
  refine ⟨fun d hd hfailing => ?_, _, rfl, hkeeps.failed_eq hopen, ?_⟩
  · obtain ⟨d', hd', hdevice, hupdate, hfailing'⟩ :=
      (hcontinues.campaigns id c₁ c hstored₁ hstored hopen).2 d hd hfailing
    exact ⟨d', hd', hdevice, hupdate, hfailing', hkeeps hopen d' hd' hfailing'⟩
  · rw [← hkeeps.failed_eq hopen]
    intro oracle pass shared hpos hthreshold herror
    have hid := Store.id_of_otaCampaign hstored
    have haborts : (tallyOf env s c.devices).aborts c := by
      have hlength : 0 < c.devices.length := hpos.trans_le countP_le_length
      simp only [Tally.aborts, Bool.and_eq_true, decide_eq_true_eq]
      exact ⟨⟨by simpa [tallyOf] using hlength, hpos⟩, by simpa [tallyOf] using hthreshold⟩
    rw [status_refresh (hid ▸ hstored) hactive]
    simp only [haborts, if_true, herror]

end

theorem run_get_changed {oracle : AgentPoint → Choice} {c : OTACampaign}
    {r : CampaignRequest} {t : Tally} (hstored : s.store.otaCampaign r.campaignID = some c)
    (hsees : callerCanSeeCampaign r c) (hactive : active c.status) (htally : tallyOf env s c.devices = t)
    (haborts : t.aborts { c with devices := t.devices } = false)
    (hcompletes : t.completes { c with devices := t.devices } = false) (hchanged : t.changed) :
    (Turn.campaign (.get r)).run env oracle s =
      storeRefreshed env.toEnv
        (oracle (.campaign { point := .refresh .final c.id c.status, held := [c.id] })) s true
        { c with devices := t.devices } := by
  simp only [Turn.run, CampaignOp.program]
  rw [eval_get hstored hsees, eval_refresh hactive]
  simp only [htally, haborts, hcompletes, hchanged, Bool.false_eq_true, if_false, if_true, eval_refreshed]
  rfl

def tolerantCampaign (first second : Ota.State) : OTACampaign :=
  { someCampaign with
    currentStage := 1
    failureThresholdPercent := 100
    devices := [{ deviceID := "d1", siteID := "s", updateID := "c-d1", state := first },
      { deviceID := "d2", siteID := "s", updateID := "c-d2", state := second }] }

def tolerantServer : Server :=
  { campaignServer with
    store := { campaignServer.store with
      state := { campaignServer.store.state with
        otaCampaigns := [tolerantCampaign (.other "") (.other "")] } } }

noncomputable def failedReport (deviceID : String) : ReportedRequest where
  bearer := "token"
  siteID := "s"
  deviceID
  reported := (∅ : ExtTreeMap String Any).insert otaTwinKey
    (twinEnv.status.toAny { updateID := "c-" ++ deviceID, state := .failed })

def otherReport : ReportedRequest where
  bearer := "token"
  siteID := "s"
  deviceID := "d1"
  reported := ∅

def allSucceed : AgentPoint → Choice := fun _ => {}

noncomputable def failedServer : Server :=
  (Turn.agent (.twinReported (failedReport "d1"))).run twinEnv allSucceed tolerantServer

noncomputable def recordedServer : Server :=
  (Turn.campaign (.get campaignRequest)).run twinEnv allSucceed failedServer

noncomputable def replacedServer : Server :=
  (Turn.agent (.twinReported otherReport)).run twinEnv allSucceed recordedServer

noncomputable def bothFailedServer : Server :=
  (Turn.agent (.twinReported (failedReport "d2"))).run twinEnv allSucceed replacedServer

noncomputable def bothRecordedServer : Server :=
  (Turn.campaign (.get campaignRequest)).run twinEnv allSucceed bothFailedServer

theorem otaReport_of_failed {deviceID updateID : String}
    (h : storedOta s deviceID = some (twinEnv.status.toAny { updateID, state := .failed })) :
    otaReport twinEnv s deviceID = some { updateID, state := .failed } := by
  rw [otaReport, h, bind_some, twinEnv.status.ofAny_toAny]

theorem otaReport_of_none {deviceID : String} (h : storedOta s deviceID = none) :
    otaReport twinEnv s deviceID = none := by
  rw [otaReport, h, bind_none]

theorem recordedServer_eq : recordedServer =
    storeRefreshed twinEnv.toEnv {} failedServer true (tolerantCampaign .failed (.other "")) := by
  have hstored : failedServer.store.otaCampaign "c" =
      some (tolerantCampaign (.other "") (.other "")) := by decide
  have hfirst : otaReport twinEnv failedServer "d1" = some { updateID := "c-d1", state := .failed } :=
    otaReport_of_failed rfl
  have hsecond : otaReport twinEnv failedServer "d2" = none := otaReport_of_none rfl
  have htally : tallyOf twinEnv failedServer (tolerantCampaign (.other "") (.other "")).devices =
      { devices := (tolerantCampaign .failed (.other "")).devices, changed := true, failed := 1 } := by
    simp [tallyOf, tolerantCampaign, observed, countsFailed, countsCommitted, outcome_eq, hfirst, hsecond,
      failing]
  have hrun := @run_get_changed twinEnv failedServer allSucceed _ campaignRequest _ hstored rfl (.inl rfl)
    htally (by decide) (by decide) rfl
  rw [recordedServer, hrun]
  rfl

theorem otaCampaign_recordedServer :
    recordedServer.store.otaCampaign "c" = some (tolerantCampaign .failed (.other "")) := by
  rw [recordedServer_eq]
  decide

theorem otaCampaign_bothFailedServer :
    bothFailedServer.store.otaCampaign "c" = some (tolerantCampaign .failed (.other "")) := by
  rw [bothFailedServer, replacedServer, recordedServer_eq]
  decide

theorem storedOta_bothFailedServer : storedOta bothFailedServer "d1" = none := by
  rw [bothFailedServer, replacedServer, recordedServer_eq]
  rfl

theorem tally_bothFailedServer :
    tallyOf twinEnv bothFailedServer (tolerantCampaign .failed (.other "")).devices =
      { devices := (tolerantCampaign .failed .failed).devices, changed := true, failed := 1 } := by
  have hsecond : storedOta bothFailedServer "d2" =
      some (twinEnv.status.toAny { updateID := "c-d2", state := .failed }) := by
    rw [bothFailedServer, replacedServer, recordedServer_eq]
    rfl
  simp [tallyOf, tolerantCampaign, observed, countsFailed, countsCommitted, outcome_eq,
    otaReport_of_none storedOta_bothFailedServer, otaReport_of_failed hsecond, failing]

theorem otaCampaign_bothRecordedServer :
    bothRecordedServer.store.otaCampaign "c" = some (tolerantCampaign .failed .failed) := by
  have hrun := @run_get_changed twinEnv bothFailedServer allSucceed _ campaignRequest _
    otaCampaign_bothFailedServer rfl (.inl rfl) tally_bothFailedServer (by decide) (by decide) rfl
  rw [bothRecordedServer, hrun]
  exact otaCampaign_storeRefreshed _ otaCampaign_bothFailedServer

/-- Both devices are recorded as failed, and the campaign goes on. -/
theorem recorded_failure_not_counted :
    ReflTransGen (TurnStep twinEnv fun _ _ _ => True) tolerantServer recordedServer ∧
      ReflTransGen (TurnStep twinEnv fun _ _ _ => True) recordedServer bothFailedServer ∧
      recordedServer.store.otaCampaign "c" = some (tolerantCampaign .failed (.other "")) ∧
      bothFailedServer.store.otaCampaign "c" = some (tolerantCampaign .failed (.other "")) ∧
      (∀ d ∈ (tolerantCampaign .failed (.other "")).devices, failing d.state →
        countsFailed twinEnv bothFailedServer d = false) ∧
      bothRecordedServer.store.otaCampaign "c" = some (tolerantCampaign .failed .failed) ∧
      (tolerantCampaign .failed .failed).status = otaCampaignRunning := by
  refine ⟨?_, ?_, otaCampaign_recordedServer, otaCampaign_bothFailedServer, ?_,
    otaCampaign_bothRecordedServer, rfl⟩
  · exact (ReflTransGen.single (.turn _ _ trivial)).tail (.turn _ _ trivial)
  · exact (ReflTransGen.single (.turn _ _ trivial)).tail (.turn _ _ trivial)
  · intro d hd hfailing
    simp only [tolerantCampaign, mem_cons, not_mem_nil, or_false] at hd
    rcases hd with rfl | rfl
    · rw [countsFailed, outcome_eq, otaReport_of_none storedOta_bothFailedServer]
      rfl
    · cases hfailing

theorem recordedFailure_of_campaigns {c : OTACampaign}
    (h : s.store.state.otaCampaigns = [c]) (hrecorded : RecordedFailure s d) :
    d ∈ c.devices ∧ failing d.state := by
  obtain ⟨id, v, hv, -, hd, hfailing⟩ := hrecorded
  have hmem := mem_of_find?_eq_some hv
  rw [h, mem_singleton] at hmem
  exact ⟨hmem ▸ hd, hfailing⟩

/-- The second device fails while the report of the first one stands. -/
noncomputable def secondFailedServer : Server :=
  (Turn.agent (.twinReported (failedReport "d2"))).run twinEnv allSucceed recordedServer

theorem otaCampaign_secondFailedServer :
    secondFailedServer.store.otaCampaign "c" = some (tolerantCampaign .failed (.other "")) := by
  rw [secondFailedServer, recordedServer_eq]
  decide

theorem tally_secondFailedServer :
    (tallyOf twinEnv secondFailedServer (tolerantCampaign .failed (.other "")).devices).devices =
      (tolerantCampaign .failed .failed).devices := by
  have hfirst : storedOta secondFailedServer "d1" =
      some (twinEnv.status.toAny { updateID := "c-d1", state := .failed }) := by
    rw [secondFailedServer, recordedServer_eq]
    rfl
  have hsecond : storedOta secondFailedServer "d2" =
      some (twinEnv.status.toAny { updateID := "c-d2", state := .failed }) := by
    rw [secondFailedServer, recordedServer_eq]
    rfl
  simp [tallyOf, tolerantCampaign, observed, outcome_eq, otaReport_of_failed hfirst,
    otaReport_of_failed hsecond]

theorem not_recordedFailure_tolerantServer (d : OTACampaignDevice) :
    ¬ RecordedFailure tolerantServer d := by
  intro hrecorded
  obtain ⟨hd, hfailing⟩ := recordedFailure_of_campaigns rfl hrecorded
  simp only [tolerantCampaign, mem_cons, not_mem_nil, or_false] at hd
  rcases hd with rfl | rfl <;> cases hfailing

theorem countsRecorded_tolerantServer : CountsRecorded twinEnv tolerantServer where
  ids := by decide
  campaigns := fun id c hc hopen d hd hfailing =>
    absurd ⟨id, c, hc, hopen, hd, hfailing⟩ (not_recordedFailure_tolerantServer d)

/-- The first failure counts together with the second. -/
theorem recorded_failures_abort :
    ((refreshOTACampaign twinEnv .final true (tolerantCampaign .failed (.other ""))).eval (fun _ => {})
      secondFailedServer).2.status = otaCampaignAborted := by
  have hfirst : ReflTransGen (KeepingStep twinEnv) tolerantServer recordedServer := by
    refine (ReflTransGen.single (.turn _ _ ?_)).tail (.turn _ _ trivial)
    exact fun d hrecorded => absurd hrecorded (not_recordedFailure_tolerantServer d)
  have hsecond : ReflTransGen (KeepingStep twinEnv) recordedServer secondFailedServer := by
    refine .single (.turn _ _ ?_)
    intro d hrecorded hdevice
    have hcampaigns : recordedServer.store.state.otaCampaigns =
        [tolerantCampaign .failed (.other "")] := by
      rw [recordedServer_eq]
      decide
    obtain ⟨hd, hfailing⟩ := recordedFailure_of_campaigns hcampaigns hrecorded
    simp only [tolerantCampaign, mem_cons, not_mem_nil, or_false] at hd
    rcases hd with rfl | rfl
    · exact absurd hdevice (by decide)
    · cases hfailing
  obtain ⟨-, recorded, hrecorded, -, haborts⟩ := recorded_failures_count_of_run twinEnv tolerantServer
    recordedServer secondFailedServer countsRecorded_tolerantServer hfirst hsecond "c" _ _
    otaCampaign_recordedServer otaCampaign_secondFailedServer (.inl rfl)
  rw [tally_secondFailedServer] at hrecorded
  refine haborts (fun _ => {}) .final true ?_ ?_ rfl <;> rw [hrecorded] <;> decide

end Nodra.Server
