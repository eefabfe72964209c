import Nodra.Server.CampaignTurns

/-! A campaign in stages: which devices each of its waves selects. -/
namespace Nodra.Server
open Model Std Interleave Program List Option

variable {env : TwinEnv} {oracle : Label → Choice} {s : Server} {c : OTACampaign}

structure Staged (stages : List OTACampaignStage) : Prop where
  percents : ∀ st ∈ stages, 1 ≤ st.canaryPercent ∧ st.canaryPercent ≤ 100
  increasing : stages.Pairwise fun st st' => st.canaryPercent < st'.canaryPercent
  last : stages.getLast?.map OTACampaignStage.canaryPercent = some 100

theorem stagesError_eq_none {i : Nat} {prev : Int} {stages : List OTACampaignStage}
    (h : stagesError i prev stages = none) :
    (∀ st ∈ stages, 1 ≤ st.canaryPercent ∧ st.canaryPercent ≤ 100) ∧
      ∀ st ∈ stages, prev < st.canaryPercent := by
  induction stages generalizing i prev with
  | nil => simp
  | cons st rest ih =>
    unfold stagesError at h
    split at h
    · cases h
    · next hrange =>
      split at h
      · cases h
      · next hprev =>
        obtain ⟨hpercents, hlater⟩ := ih h
        constructor
        · exact forall_mem_cons.mpr ⟨by omega, hpercents⟩
        · refine forall_mem_cons.mpr ⟨by omega, fun st' hst' => ?_⟩
          have := hlater st' hst'
          omega

theorem pairwise_of_stagesError {i : Nat} {prev : Int} {stages : List OTACampaignStage}
    (h : stagesError i prev stages = none) :
    stages.Pairwise fun st st' => st.canaryPercent < st'.canaryPercent := by
  induction stages generalizing i prev with
  | nil => exact .nil
  | cons st rest ih =>
    unfold stagesError at h
    split at h
    · cases h
    · split at h
      · cases h
      · exact .cons (stagesError_eq_none h).2 (ih h)

theorem Staged.percent_le {stages : List OTACampaignStage} {stage : Nat} {st st' : OTACampaignStage}
    (h : Staged stages) (hst : stages[stage]? = some st) (hst' : stages[stage + 1]? = some st') :
    st.canaryPercent ≤ st'.canaryPercent := by
  obtain ⟨_, rfl⟩ := List.getElem?_eq_some_iff.mp hst
  obtain ⟨_, rfl⟩ := List.getElem?_eq_some_iff.mp hst'
  exact Int.le_of_lt (pairwise_iff_getElem.mp h.increasing _ _ _ _ (Nat.lt_succ_self stage))

theorem staged_of_validate {env : Ota.Env} (h : validateOTACampaignInput env c = none) : Staged c.stages := by
  unfold validateOTACampaignInput at h
  repeat (split at h; · cases h)
  simp only [Ota.firstError, findSome?_eq_none_iff, forall_mem_cons, id_eq] at h
  obtain ⟨hstages, hlast, -⟩ := h
  refine ⟨(stagesError_eq_none hstages).1, pairwise_of_stagesError hstages, ?_⟩
  by_contra hne
  rw [if_pos hne] at hlast
  cases hlast

def share (targets : Nat) (percent : Int) : Nat := targets * percent.toNat ⌈/⌉ 100

theorem waveWant_eq_share {targets : Nat} {percent : Int} (hlow : 1 ≤ percent) (hhigh : percent ≤ 100) :
    waveWant targets percent = share targets percent := by
  obtain ⟨p, rfl⟩ := Int.eq_ofNat_of_zero_le (show 0 ≤ percent by omega)
  have hupper : targets * p ≤ targets * 100 := Nat.mul_le_mul_left targets (by omega)
  have hlower : targets * 1 ≤ targets * p := Nat.mul_le_mul_left targets (by omega)
  unfold waveWant share
  rw [Nat.ceilDiv_eq_add_pred_div, Int.toNat_natCast]
  generalize hm : targets * p = m at hupper hlower
  have hcast : (targets : Int) * (p : Int) = m := by rw [← hm]; push_cast; rfl
  have hdiv : ((m : Int) + 99).tdiv 100 = ((m + 100 - 1) / 100 : Nat) := by
    rw [Int.tdiv_eq_ediv_of_nonneg (by omega)]
    omega
  simp only [hcast, hdiv]
  split <;> split <;> omega

theorem share_le {targets : Nat} {percent : Int} (hhigh : percent ≤ 100) :
    share targets percent ≤ targets := by
  refine (ceilDiv_le_iff_le_mul (by decide)).mpr ?_
  rw [mul_comm 100]
  exact Nat.mul_le_mul_left targets (by omega)

theorem share_pos {targets : Nat} {percent : Int} (htargets : 0 < targets) (hlow : 1 ≤ percent) :
    0 < share targets percent := by
  have hproduct : 0 < targets * percent.toNat := Nat.mul_pos htargets (by omega)
  by_contra hzero
  have := (ceilDiv_le_iff_le_mul (show 0 < 100 by decide)).mp (Nat.le_of_not_lt hzero)
  omega

theorem share_mono (targets : Nat) {percent percent' : Int} (h : percent ≤ percent') :
    share targets percent ≤ share targets percent' := by
  have hproduct : targets * percent.toNat ≤ targets * percent'.toNat :=
    Nat.mul_le_mul_left targets (by omega)
  refine (ceilDiv_le_iff_le_mul (by decide)).mpr (hproduct.trans ?_)
  exact (ceilDiv_le_iff_le_mul (by decide)).mp le_rfl

theorem share_full (targets : Nat) : share targets 100 = targets := by
  unfold share
  rw [Nat.ceilDiv_eq_add_pred_div]
  simp only [Int.reduceToNat]
  omega

section

variable {c' : OTACampaign} {targets : List String} {need : Int}

theorem wavePlan_of_nonpos {selected : List String} (h : need ≤ 0) : wavePlan selected need targets = [] := by
  cases targets with
  | nil => rfl
  | cons target rest => exact if_pos h

theorem wavePlan_eq_take {selected : List String} (hnodup : targets.Nodup) :
    wavePlan selected need targets = (targets.filter (· ∉ selected)).take need.toNat := by
  induction targets generalizing selected need with
  | nil => simp [wavePlan]
  | cons target rest ih =>
    obtain ⟨hnew, hrest⟩ := nodup_cons.mp hnodup
    unfold wavePlan
    split
    · next hneed => simp [Int.toNat_of_nonpos hneed]
    · next hneed =>
      split
      · next hmem => rw [ih hrest, filter_cons_of_neg (by simpa using hmem)]
      · next hmem =>
        have hsame : rest.filter (· ∉ selected ++ [target]) = rest.filter (· ∉ selected) := by
          refine filter_congr fun other hother => ?_
          have hne : other ≠ target := fun h => hnew (h ▸ hother)
          simp [hne]
        have hcount : need.toNat = (need - 1).toNat + 1 := by omega
        rw [ih hrest, hsame, hcount, filter_cons_of_pos (by simpa using hmem), take_succ_cons]

theorem filter_not_mem_take (hnodup : targets.Nodup) (k : Nat) :
    targets.filter (· ∉ targets.take k) = targets.drop k := by
  have hsplit : targets.filter (· ∉ targets.take k) =
      (targets.take k ++ targets.drop k).filter (· ∉ targets.take k) := by
    rw [take_append_drop]
  rw [hsplit, filter_append, filter_eq_nil_iff.mpr, filter_eq_self.mpr, nil_append]
  · intro target hmem
    simpa using fun h => disjoint_take_drop hnodup le_rfl h hmem
  · intro target hmem
    simpa using hmem

theorem take_append_wavePlan (hnodup : targets.Nodup) {k k' : Nat} (h : k ≤ k') :
    targets.take k ++ wavePlan (targets.take k) ((k' : Int) - k) targets = targets.take k' := by
  have hneed : ((k' : Int) - k).toNat = k' - k := by omega
  rw [wavePlan_eq_take hnodup, filter_not_mem_take hnodup, hneed]
  conv_rhs => rw [show k' = k + (k' - k) by omega, take_add]

def IssuedIn (env : TwinEnv) (id : String) (steps : List (Label × Server)) (deviceID : String) : Prop :=
  ∃ entry ∈ steps, entry.1.point = .issue deviceID ∧ issued env entry.2 id deviceID ≠ none

theorem IssuedIn.mono {id deviceID : String} {steps steps' : List (Label × Server)}
    (h : IssuedIn env id steps deviceID) (hsub : steps ⊆ steps') : IssuedIn env id steps' deviceID :=
  let ⟨entry, hmem, hissued⟩ := h
  ⟨entry, hsub hmem, hissued⟩

structure Completed (env : TwinEnv) (c c' : OTACampaign) (plan : List String)
    (steps : List (Label × Server)) : Prop where
  rest : c' = { c with devices := c'.devices }
  listed : listedIDs c' = listedIDs c ++ plan
  issued : ∀ deviceID ∈ plan, IssuedIn env c.id steps deviceID

theorem Completed.mono {plan : List String} {steps steps' : List (Label × Server)}
    (h : Completed env c c' plan steps)
    (hsteps : ∀ deviceID, IssuedIn env c.id steps deviceID → IssuedIn env c.id steps' deviceID) :
    Completed env c c' plan steps' :=
  ⟨h.rest, h.listed, fun deviceID hplanned => hsteps deviceID (h.issued deviceID hplanned)⟩

theorem trace_issueWave_cons {dev : Device} {deviceID : String} {rest : List String}
    (hneed : ¬ need ≤ 0) (hnew : deviceID ∉ listedIDs c) (hdevice : s.store.device deviceID = some dev)
    (hround : (issueRound env oracle s c deviceID).2 = .ok c') :
    (issueWave env c need (deviceID :: rest)).trace oracle s =
      ({ point := .read }, s) :: ({ point := .issue deviceID }, (issueRound env oracle s c deviceID).1) ::
        (issueWave env c' (need - 1) rest).trace oracle (issueRound env oracle s c deviceID).1 := by
  have hselected : deviceID ∉ selectedDevices c := fun h => hnew (mem_selectedDevices.mp h)
  unfold issueRound at hround ⊢
  simp only [hdevice] at hround ⊢
  rw [issueWave, if_neg hneed, if_neg hselected]
  simp only [trace_bind, eval_lookup, hdevice, eval_write]
  cases hset : (setDeviceOTADesired env (oracle { point := .issue deviceID }) s dev
      (campaignOTARequest c dev deviceID)).2 with
  | error err => simp [hset, Except.map] at hround
  | ok tw =>
    simp only [hset, Except.map, Except.ok.injEq] at hround
    subst hround
    rfl

theorem completed_issueWave (h : ((issueWave env c need targets).eval oracle s).2 = .ok c') :
    Completed env c c' (wavePlan (listedIDs c) need targets)
      ((issueWave env c need targets).trace oracle s) := by
  induction targets generalizing c need s with
  | nil =>
    cases h
    exact ⟨rfl, by simp [wavePlan], by simp [wavePlan]⟩
  | cons target rest ih =>
    rw [eval_issueWave_cons] at h
    unfold wavePlan
    split at h
    · next hneed =>
      cases h
      exact ⟨rfl, by simp [hneed], by simp [hneed]⟩
    · next hneed =>
      split at h
      · next hmem =>
        rw [if_neg hneed, if_pos hmem, issueWave, if_neg hneed, if_pos (mem_selectedDevices.mpr hmem)]
        exact ih h
      · next hmem =>
        rw [if_neg hneed, if_neg hmem]
        cases hround : (issueRound env oracle s c target).2 with
        | error err => simp [hround] at h
        | ok c₁ =>
          rw [hround] at h
          have hissues := issueRound_ok_iff.mp ⟨c₁, hround⟩
          obtain ⟨dev, hdevice, -⟩ := hissues.1
          have htrace := @trace_issueWave_cons env oracle s c c₁ need dev target rest hneed hmem hdevice hround
          obtain ⟨dev', rfl⟩ := issueRound_ok hround
          obtain ⟨hrest, hlisted, hissued⟩ := ih h
          rw [listedIDs_selectDevice] at hlisted hissued
          rw [htrace]
          refine ⟨hrest, by rw [hlisted, append_assoc]; rfl, ?_⟩
          rw [forall_mem_cons]
          constructor
          · exact ⟨({ point := .issue target }, _), mem_cons_of_mem _ mem_cons_self, rfl,
              issued_issueRound ⟨hissues.1, .inl hissues.2⟩⟩
          · intro deviceID hplanned
            exact (hissued deviceID hplanned).mono fun _ hentry =>
              mem_cons_of_mem _ (mem_cons_of_mem _ hentry)

theorem completed_applyCampaignWave (h : ((applyCampaignWave env c).eval oracle s).2 = .ok c') :
    Completed env c c' (plannedWave c) ((applyCampaignWave env c).trace oracle s) := by
  unfold plannedWave
  unfold applyCampaignWave at h ⊢
  cases hpercent : stagePercent c with
  | none => simp [hpercent] at h
  | some percent =>
    simp only [hpercent] at h ⊢
    split at h
    · next hneed =>
      cases h
      rw [wavePlan_of_nonpos hneed]
      exact ⟨rfl, by simp, by simp⟩
    · next hneed =>
      rw [if_neg hneed]
      exact completed_issueWave h

structure Advanced (env : TwinEnv) (c : OTACampaign) (p : Proc CampaignReply)
    (oracle : Label → Choice) (s : Server) : Prop where
  staged : (stagePercent c).isSome
  stored : ∃ c' v, Completed env c c' (plannedWave c) (p.trace oracle s) ∧
    (p.eval oracle s).1.store.otaCampaign c.id = some v ∧ SameCourse c' v

theorem advanced_advanceCampaign {v : OTACampaign} (hstored : s.store.otaCampaign c.id = some v)
    (hok : ((advanceCampaign env c).eval oracle s).2.code = 200) :
    Advanced env c (advanceCampaign env c) oracle s := by
  have hsteps : (applyCampaignWave env c).trace oracle s ⊆ (advanceCampaign env c).trace oracle s := by
    unfold advanceCampaign
    rw [trace_bind]
    exact subset_append_left _ _
  unfold advanceCampaign at hok
  simp only [eval_bind] at hok
  cases hwave : ((applyCampaignWave env c).eval oracle s).2 with
  | error err => simp [hwave] at hok
  | ok c₁ =>
    have hid := (applyCampaignWave_ok hwave).1
    have hstored₁ : ((applyCampaignWave env c).eval oracle s).1.store.otaCampaign c₁.id = some v := by
      rw [otaCampaign_of_campaigns otaCampaigns_applyCampaignWave, hid, hstored]
    have hcompleted : Completed env c c₁ (plannedWave c) ((advanceCampaign env c).trace oracle s) :=
      (completed_applyCampaignWave hwave).mono fun _ h => h.mono hsteps
    refine ⟨(applyCampaignWave_ok_iff.mp ⟨c₁, hwave⟩).1, c₁, ?_⟩
    unfold advanceCampaign at hcompleted ⊢
    simp only [eval_bind, hwave, saveCampaign] at hok ⊢
    rcases eval_saveWith_cases env.toEnv (fun _ _ _ => rfl) hstored₁ with
      ⟨err, heval⟩ | ⟨now, s₂, heval, hafter, -⟩
    · rw [heval] at hok
      cases hok
    · have hrefresh : Refreshes env s₂ { c₁ with updatedAt := now }
          ((refreshOTACampaign env .final false { c₁ with updatedAt := now }).eval oracle s₂) :=
        refreshes_refresh hafter
      rw [heval]
      simp only [eval_bind, eval_pure]
      exact ⟨_, hcompleted, hid ▸ hrefresh.stored, hrefresh.outcome.course.rest, hrefresh.outcome.course.listed⟩

structure Reaches (env : TwinEnv) (c v : OTACampaign) (percent : Int) (steps : List (Label × Server)) :
    Prop where
  rest : v = { c with status := v.status, devices := v.devices, updatedAt := v.updatedAt }
  listed : listedIDs v = c.targetDeviceIDs.take (share c.targetDeviceIDs.length percent)
  issued : ∀ deviceID ∈ listedIDs v, deviceID ∉ listedIDs c → IssuedIn env c.id steps deviceID

theorem Advanced.reaches {p : Proc CampaignReply} {st : OTACampaignStage} {k : Nat}
    (h : Advanced env c p oracle s) (hstaged : Staged c.stages) (hstage : 0 ≤ c.currentStage)
    (hst : c.stages[c.currentStage.toNat]? = some st) (hnodup : c.targetDeviceIDs.Nodup)
    (hlisted : listedIDs c = c.targetDeviceIDs.take k)
    (hk : k ≤ share c.targetDeviceIDs.length st.canaryPercent) :
    ∃ v, (p.eval oracle s).1.store.otaCampaign c.id = some v ∧
      Reaches env c v st.canaryPercent (p.trace oracle s) := by
  obtain ⟨c', v, hcompleted, hstored, hcourse⟩ := h.stored
  obtain ⟨hlow, hhigh⟩ := hstaged.percents st (mem_of_getElem? hst)
  have hlength : (selectedDevices c).length = k := by
    have hbound := (hk.trans (share_le hhigh) : k ≤ c.targetDeviceIDs.length)
    have hselected : selectedDevices c = (c.targetDeviceIDs.take k).dedup := congrArg List.dedup hlisted
    rw [hselected, ((take_sublist k _).nodup hnodup).dedup, length_take, Nat.min_eq_left hbound]
  have hplan : plannedWave c = wavePlan (c.targetDeviceIDs.take k)
      ((share c.targetDeviceIDs.length st.canaryPercent : Int) - k) c.targetDeviceIDs := by
    simp only [plannedWave, stagePercent, if_neg (Int.not_lt.mpr hstage), hst, map_some,
      waveWant_eq_share hlow hhigh, hlength, hlisted]
  have hafter : listedIDs v = listedIDs c ++ plannedWave c := hcourse.listed.trans hcompleted.listed
  refine ⟨v, hstored, ?_, ?_, ?_⟩
  · rw [hcourse.rest, hcompleted.rest]
  · rw [hafter, hplan, hlisted]
    exact take_append_wavePlan hnodup hk
  · intro deviceID hmem hnew
    rw [hafter, mem_append] at hmem
    exact hcompleted.issued deviceID (hmem.resolve_left hnew)

end

section

structure Drafted (env : TwinEnv) (s : Server) (id : String) (c : OTACampaign) : Prop where
  stored : s.store.otaCampaign id = some c
  valid : validateOTACampaignInput env.ota c = none
  devices : c.devices = []

def Undisturbed (id : String) (s s' : Server) : Prop :=
  ∀ c, s.store.otaCampaign id = some c → ∃ c', s'.store.otaCampaign id = some c' ∧ SameCourse c c'

/-- One start, and then promotions, all of them answered with 200: the last stage, the server
before and after its request, and the steps of the request. -/
inductive Rollout (env : TwinEnv) (id : String) (s : Server) :
    Nat → Server → Server → List (Label × Server) → Prop where
  | start (r : CampaignRequest) (oracle : Label → Choice) (hid : r.campaignID = id)
      (hok : ((otaCampaignStart env r).eval oracle s).2.code = 200) :
      Rollout env id s 0 s ((otaCampaignStart env r).eval oracle s).1
        ((otaCampaignStart env r).trace oracle s)
  | promote {stage : Nat} {before after before' : Server} {steps : List (Label × Server)}
      (h : Rollout env id s stage before after steps) (hquiet : Undisturbed id after before')
      (r : CampaignRequest) (oracle : Label → Choice) (hid : r.campaignID = id)
      (hok : ((otaCampaignPromote env r).eval oracle before').2.code = 200) :
      Rollout env id s (stage + 1) before' ((otaCampaignPromote env r).eval oracle before').1
        ((otaCampaignPromote env r).trace oracle before')

def listedIn (s : Server) (id : String) : List String :=
  ((s.store.otaCampaign id).map listedIDs).getD []

structure SelectsExactly (env : TwinEnv) (id : String) (targets : List String)
    (stages : List OTACampaignStage) (stage : Nat) (before : Server)
    (steps : List (Label × Server)) (c : OTACampaign) : Prop where
  resolved : c.targetDeviceIDs = targets
  current : c.currentStage = stage
  nodup : (listedIDs c).Nodup
  first : ∃ st, stages[stage]? = some st ∧
    listedIDs c = targets.take (targets.length * st.canaryPercent.toNat ⌈/⌉ 100)
  nonempty : listedIDs c ≠ []
  grows : listedIn before id <+: listedIDs c
  issued : ∀ deviceID ∈ listedIDs c, deviceID ∉ listedIn before id → IssuedIn env id steps deviceID
  all : stage + 1 = stages.length → listedIDs c = targets

variable {r : CampaignRequest} {id deviceID : String}

theorem Advanced.bind {α : Type} {p : Proc α} {f : α → Proc CampaignReply}
    (h : Advanced env c (f (p.eval oracle s).2) oracle (p.eval oracle s).1) :
    Advanced env c (p >>= f) oracle s := by
  obtain ⟨hstaged, c', v, hcompleted, hstored, hcourse⟩ := h
  refine ⟨hstaged, c', v, ?_, by rwa [eval_bind], hcourse⟩
  rw [trace_bind]
  exact hcompleted.mono fun _ h => h.mono (subset_append_right _ _)

theorem Advanced.withCampaign {v : OTACampaign} {body : OTACampaign → Proc CampaignReply}
    (hfound : mutableCampaign s r = some v) (h : Advanced env c (body v) (held oracle v.id) s) :
    Advanced env c (withCampaign (loadMutableCampaign r) body) oracle s := by
  refine Advanced.bind ?_
  simp only [loadMutableCampaign, loadCampaign, eval_lookup]
  rw [show (s.store.otaCampaign r.campaignID).filter (callerCanMutateCampaign r) = some v from hfound]
  obtain ⟨hstaged, c', v, hcompleted, hstored, hcourse⟩ := h
  refine ⟨hstaged, c', v, ?_, ?_, hcourse⟩
  · refine hcompleted.mono fun deviceID hentry => ?_
    obtain ⟨entry, hmem, hissued⟩ := hentry
    simp only [holding, trace_relabel]
    exact ⟨_, List.mem_map_of_mem hmem, hissued⟩
  · simp only [eval_holding]
    exact hstored

theorem advanced_start (hstored : s.store.otaCampaign id = some c) {targets : List String}
    (htargets : resolvedTargets env.ota s c = .ok targets) (hid : r.campaignID = id)
    (hok : ((otaCampaignStart env r).eval oracle s).2.code = 200) :
    targets ≠ [] ∧ Advanced env
      { c with targetDeviceIDs := targets, currentStage := 0, status := otaCampaignRunning }
      (otaCampaignStart env r) oracle s := by
  subst hid
  have hcid := Store.id_of_otaCampaign hstored
  unfold otaCampaignStart at hok ⊢
  rw [eval_withCampaign] at hok
  cases hfound : mutableCampaign s r with
  | none => simp [hfound, campaignNotFound] at hok
  | some v =>
    obtain rfl : c = v := Option.some.inj (hstored.symm.trans (filter_eq_some_iff.mp hfound).1)
    simp only [hfound] at hok
    suffices h : targets ≠ [] ∧ Advanced env _ (startCampaign env c) (held oracle c.id) s from
      ⟨h.1, h.2.withCampaign hfound⟩
    unfold startCampaign at hok ⊢
    split at hok
    · cases hok
    · next hpaused =>
      split at hok
      · cases hok
      · next hdraft =>
        rw [if_neg hpaused, if_neg hdraft]
        simp only [eval_bind, eval_resolveCampaignTargets, htargets] at hok
        split at hok
        · cases hok
        · next hempty =>
          refine ⟨hempty, Advanced.bind ?_⟩
          simp only [eval_resolveCampaignTargets, htargets]
          rw [if_neg hempty]
          exact advanced_advanceCampaign (hcid ▸ hstored) hok

theorem advanced_promote (hstored : s.store.otaCampaign id = some c) (hid : r.campaignID = id)
    (hok : ((otaCampaignPromote env r).eval oracle s).2.code = 200) :
    ∃ c', SameCourse c c' ∧
      Advanced env { c' with currentStage := c.currentStage + 1 } (otaCampaignPromote env r) oracle s := by
  subst hid
  have hcid := Store.id_of_otaCampaign hstored
  rw [← hcid] at hstored
  unfold otaCampaignPromote at hok ⊢
  rw [eval_withCampaign] at hok
  cases hfound : mutableCampaign s r with
  | none => simp [hfound, campaignNotFound] at hok
  | some v =>
    obtain rfl : c = v :=
      Option.some.inj (hstored.symm.trans (hcid ▸ (filter_eq_some_iff.mp hfound).1))
    simp only [hfound] at hok
    have hrefresh : Refreshes env s c
        ((refreshOTACampaign env .early true c).eval (held oracle c.id) s) := refreshes_refresh hstored
    have hcourse := hrefresh.outcome.course
    have hstage : ((refreshOTACampaign env .early true c).eval (held oracle c.id) s).2.currentStage =
        c.currentStage := by rw [hcourse.rest]
    simp only [promoteCampaign, eval_bind] at hok
    split at hok
    · cases hok
    · next hrunning =>
      split at hok
      · cases hok
      · next hbounds =>
        refine ⟨_, hcourse, Advanced.withCampaign hfound ?_⟩
        unfold promoteCampaign
        refine Advanced.bind ?_
        rw [if_neg hrunning, if_neg hbounds, ← hstage]
        exact advanced_advanceCampaign ((congrArg _ hcourse.id_eq).trans hrefresh.stored) hok

theorem SameCourse.trans {c' c'' : OTACampaign} (h : SameCourse c c') (h' : SameCourse c' c'') :
    SameCourse c c'' where
  rest := h'.rest.trans (congrArg (fun d : OTACampaign =>
    { d with status := c''.status, devices := c''.devices, updatedAt := c''.updatedAt }) h.rest)
  listed := h'.listed.trans h.listed

theorem listedIn_of_stored (h : s.store.otaCampaign id = some c) : listedIn s id = listedIDs c := by
  simp [listedIn, h]

theorem Advanced.selectsExactly {p : Proc CampaignReply} {targets : List String} {k stage : Nat}
    (h : Advanced env c p oracle s) (hid : c.id = id) (hstaged : Staged c.stages)
    (hstage : c.currentStage = stage) (htargets : c.targetDeviceIDs = targets) (hnodup : targets.Nodup)
    (hne : targets ≠ []) (hbefore : listedIn s id = listedIDs c) (hlisted : listedIDs c = targets.take k)
    (hk : ∀ st, c.stages[stage]? = some st → k ≤ share targets.length st.canaryPercent) :
    ∃ v, (p.eval oracle s).1.store.otaCampaign id = some v ∧ v.stages = c.stages ∧
      SelectsExactly env id targets c.stages stage s (p.trace oracle s) v := by
  subst hid htargets
  obtain ⟨percent, hpercent⟩ := isSome_iff_exists.mp h.staged
  simp only [stagePercent, hstage, Int.toNat_natCast, if_neg (Int.not_lt.mpr (Int.natCast_nonneg stage)),
    map_eq_some_iff] at hpercent
  obtain ⟨st, hst, -⟩ := hpercent
  obtain ⟨v, hstored, hrest, hfirst, hissued⟩ := h.reaches hstaged (by omega) (by simpa [hstage] using hst)
    hnodup hlisted (hk st hst)
  obtain ⟨hlow, -⟩ := hstaged.percents st (mem_of_getElem? hst)
  refine ⟨v, hstored, by rw [hrest], ?_⟩
  constructor
  · rw [hrest]
  · rw [hrest]
    exact hstage
  · rw [hfirst]
    exact (take_sublist _ _).nodup hnodup
  · exact ⟨st, hst, hfirst⟩
  · have hpos := share_pos (length_pos_iff.mpr hne) hlow
    rw [hfirst]
    simp [hne]
    omega
  · rw [hbefore, hlisted, hfirst]
    exact take_prefix_take_left (hk st hst)
  · rw [hbefore]
    exact hissued
  · -- the last stage is for all of the targets
    intro hlast
    have hfull : st.canaryPercent = 100 := by
      have hend := hstaged.last
      rw [getLast?_eq_getElem?, ← hlast, Nat.add_sub_cancel, hst] at hend
      exact Option.some.inj hend
    rw [hfirst, hfull, share_full, take_length]

/-- However many promotions follow a start, each stage selects exactly its share of the targets. -/
theorem rollout_selects_exactly (env : TwinEnv) (s : Server) (id : String) (c : OTACampaign)
    (targets : List String) (hdrafted : Drafted env s id c)
    (htargets : resolvedTargets env.ota s c = .ok targets) (stage : Nat) (before after : Server)
    (steps : List (Label × Server)) (hrun : Rollout env id s stage before after steps) :
    ∃ v, after.store.otaCampaign id = some v ∧ v.stages = c.stages ∧
      SelectsExactly env id targets c.stages stage before steps v := by
  have hstaged := staged_of_validate hdrafted.valid
  have hnodup := nodup_resolvedTargets env.ota htargets
  have hcid := Store.id_of_otaCampaign hdrafted.stored
  induction hrun with
  | start r oracle hid hok =>
    obtain ⟨hne, hadvanced⟩ := advanced_start hdrafted.stored htargets hid hok
    have hnone : listedIDs c = [] := by simp [listedIDs, hdrafted.devices]
    have hbefore : listedIn s id = listedIDs c := listedIn_of_stored hdrafted.stored
    exact hadvanced.selectsExactly hcid hstaged rfl rfl hnodup hne hbefore (k := 0) hnone
      fun _ _ => Nat.zero_le _
  | @promote stage before after before' steps hrun hquiet r oracle hid hok ih =>
    obtain ⟨v, hstored, hstages, hselects⟩ := ih
    obtain ⟨v', hstored', hcourse'⟩ := hquiet v hstored
    obtain ⟨c', hcourse, hadvanced⟩ := advanced_promote hstored' hid hok
    have hsame := hcourse'.trans hcourse
    obtain ⟨st, hst, hfirst⟩ := hselects.first
    have hlisted : listedIDs c' = targets.take (share targets.length st.canaryPercent) :=
      hsame.listed.trans hfirst
    have hstages' : c'.stages = c.stages := by rw [hsame.rest, ← hstages]
    have htargets' : c'.targetDeviceIDs = targets := by rw [hsame.rest, ← hselects.resolved]
    have hstage : v'.currentStage + 1 = ((stage + 1 : Nat) : Int) := by
      rw [hcourse'.rest, hselects.current]
      rfl
    have hne : targets ≠ [] := fun h => hselects.nonempty (by rw [hfirst, h, take_nil])
    have hbefore := (listedIn_of_stored hstored').trans hcourse.listed.symm
    have hid' : c'.id = id := hcourse.id_eq.trans (Store.id_of_otaCampaign hstored')
    rw [← hstages'] at hstaged hst ⊢
    refine hadvanced.selectsExactly hid' hstaged hstage htargets' hnodup hne hbefore hlisted ?_
    exact fun st' hst' => share_mono _ (hstaged.percent_le hst hst')

end

def canaryCampaign : OTACampaign :=
  { draftCampaign with
    name := "canary"
    stages := [{ canaryPercent := 50 }, { canaryPercent := 100 }] }

def canaryServer : Server :=
  { draftServer with
    store := { draftServer.store with
      state := { draftServer.store.state with otaCampaigns := [canaryCampaign] } } }

/-- The campaign is started, and promoted right after. -/
theorem rollout_selects_exactly_promoted :
    ∃ before after steps, Rollout twinEnv "c" canaryServer 1 before after steps ∧
      ∃ v, after.store.otaCampaign "c" = some v ∧ v.stages = canaryCampaign.stages ∧
        SelectsExactly twinEnv "c" ["d1", "d2"] canaryCampaign.stages 1 before steps v := by
  have hdrafted : Drafted twinEnv canaryServer "c" canaryCampaign :=
    ⟨by decide, by decide, rfl⟩
  have hrun := Rollout.promote
    (.start campaignRequest (fun _ => {}) rfl
      (by decide : ((otaCampaignStart twinEnv campaignRequest).eval _ canaryServer).2.code = 200))
    (fun c h => ⟨c, h, .refl c⟩) campaignRequest (fun _ => {}) (rfl : _ = "c") (by decide)
  exact ⟨_, _, _, hrun,
    rollout_selects_exactly _ _ _ _ _ hdrafted (by decide) _ _ _ _ hrun⟩

end Nodra.Server
