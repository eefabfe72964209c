import Nodra.Server.CampaignRefresh
import Nodra.Server.CampaignThreads

/-! What a wave leaves behind when a request fails. -/
namespace Nodra.Server
open Model Std Interleave Program List Option

variable {env : TwinEnv} {oracle : Label → Choice} {s s' : Server} {c c' : OTACampaign} {deviceID : String}

def wavePlan (selected : List String) (need : Int) : List String → List String
  | [] => []
  | deviceID :: rest =>
    if need ≤ 0 then []
    else if deviceID ∈ selected then wavePlan selected need rest
    else deviceID :: wavePlan (selected ++ [deviceID]) (need - 1) rest

def plannedWave (c : OTACampaign) : List String :=
  match stagePercent c with
  | none => []
  | some percent =>
    wavePlan (listedIDs c)
      (waveWant c.targetDeviceIDs.length percent - (selectedDevices c).length) c.targetDeviceIDs

theorem not_mem_of_mem_wavePlan {selected targets : List String} {need : Int}
    (h : deviceID ∈ wavePlan selected need targets) : deviceID ∉ selected := by
  induction targets generalizing selected need with
  | nil => cases h
  | cons target rest ih =>
    unfold wavePlan at h
    split at h
    · cases h
    · split at h
      · exact ih h
      · next hmem =>
        rcases mem_cons.mp h with rfl | h
        · exact hmem
        · exact fun hselected => ih h (mem_append_left _ hselected)

def Askable (env : TwinEnv) (s : Server) (c : OTACampaign) (deviceID : String) : Prop :=
  ∃ dev, s.store.device deviceID = some dev ∧
    (otaRequestFor dev (campaignOTARequest c dev deviceID)).validate env.ota = none

def Issues (env : TwinEnv) (oracle : Label → Choice) (s : Server) (c : OTACampaign)
    (deviceID : String) : Prop :=
  Askable env s c deviceID ∧ (oracle { point := .issue deviceID }).error = none

def Leaves (env : TwinEnv) (oracle : Label → Choice) (s : Server) (c : OTACampaign)
    (deviceID : String) : Prop :=
  Askable env s c deviceID ∧
    ((oracle { point := .issue deviceID }).error = none ∨ Sharing s deviceID)

theorem mem_selectedDevices : deviceID ∈ selectedDevices c ↔ deviceID ∈ listedIDs c := by
  unfold selectedDevices
  rw [mem_dedup]
  rfl

theorem listedIDs_selectDevice (dev : Device) :
    listedIDs (selectDevice c dev deviceID) = listedIDs c ++ [deviceID] := by
  simp [listedIDs, selectDevice]

def issueRound (env : TwinEnv) (oracle : Label → Choice) (s : Server) (c : OTACampaign)
    (deviceID : String) : Server × Except String OTACampaign :=
  match s.store.device deviceID with
  | none => (s, .error ("device " ++ env.ota.quote deviceID ++ " not found"))
  | some dev =>
    let updated := setDeviceOTADesired env (oracle { point := .issue deviceID }) s dev
      (campaignOTARequest c dev deviceID)
    (updated.1, updated.2.map fun _ => selectDevice c dev deviceID)

theorem eval_issueWave_cons (need : Int) (rest : List String) :
    (issueWave env c need (deviceID :: rest)).eval oracle s =
      if need ≤ 0 then (s, .ok c)
      else if deviceID ∈ listedIDs c then (issueWave env c need rest).eval oracle s
      else
        match (issueRound env oracle s c deviceID).2 with
        | .error err => ((issueRound env oracle s c deviceID).1, .error err)
        | .ok c' =>
          (issueWave env c' (need - 1) rest).eval oracle (issueRound env oracle s c deviceID).1 := by
  rw [issueWave]
  split
  · rfl
  · simp only [mem_selectedDevices]
    split
    · rfl
    · simp only [eval_bind, eval_lookup, issueRound]
      cases s.store.device deviceID with
      | none => rfl
      | some dev =>
        simp only [eval_bind, eval_write]
        cases (setDeviceOTADesired env (oracle { point := .issue deviceID }) s dev
          (campaignOTARequest c dev deviceID)).2 <;> rfl

section

variable {other : String}

theorem device_id {dev : Device} (h : s.store.device deviceID = some dev) : dev.id = deviceID := by
  simpa using find?_some h

theorem issueRound_ok (h : (issueRound env oracle s c deviceID).2 = .ok c') :
    ∃ dev, c' = selectDevice c dev deviceID := by
  unfold issueRound at h
  split at h
  · cases h
  · next dev _ =>
    refine ⟨dev, ?_⟩
    cases hupdated : (setDeviceOTADesired env (oracle { point := .issue deviceID }) s dev
      (campaignOTARequest c dev deviceID)).2 <;> simp_all [Except.map]

theorem issueRound_ok_iff :
    (∃ c', (issueRound env oracle s c deviceID).2 = .ok c') ↔ Issues env oracle s c deviceID := by
  unfold issueRound Issues Askable
  cases hdevice : s.store.device deviceID with
  | none => simp
  | some dev =>
    have hok : (∃ tw, (setDeviceOTADesired env (oracle { point := .issue deviceID }) s dev
        (campaignOTARequest c dev deviceID)).2 = .ok tw) ↔ _ := setDeviceOTADesired_ok_iff
    simp only [Option.some.injEq, exists_eq_left']
    rw [← hok]
    cases (setDeviceOTADesired env (oracle { point := .issue deviceID }) s dev
      (campaignOTARequest c dev deviceID)).2 <;> simp [Except.map]

theorem issueRound_fst :
    (issueRound env oracle s c deviceID).1 =
      match s.store.device deviceID with
      | none => s
      | some dev => (setDeviceOTADesired env (oracle { point := .issue deviceID }) s dev
          (campaignOTARequest c dev deviceID)).1 := by
  unfold issueRound
  cases s.store.device deviceID <;> simp only

theorem otaCampaigns_issueRound :
    (issueRound env oracle s c deviceID).1.store.state.otaCampaigns = s.store.state.otaCampaigns := by
  rw [issueRound_fst]
  split
  · rfl
  · rw [otaCampaigns_setDeviceOTADesired]

theorem devices_issueRound :
    (issueRound env oracle s c deviceID).1.store.state.devices = s.store.state.devices := by
  rw [issueRound_fst]
  split
  · rfl
  · rw [devices_setDeviceOTADesired]

theorem twin_issueRound (h : deviceID ≠ other) :
    (issueRound env oracle s c deviceID).1.store.twin other = s.store.twin other := by
  rw [issueRound_fst]
  split
  · rfl
  · next dev hdevice => exact twin_setDeviceOTADesired _ (device_id hdevice ▸ h)

theorem issued_issueRound (h : Leaves env oracle s c deviceID) :
    issued env (issueRound env oracle s c deviceID).1 c.id deviceID ≠ none := by
  obtain ⟨⟨dev, hdevice, hvalid⟩, heffect⟩ := h
  have hid := device_id hdevice
  simp only [issueRound_fst, hdevice]
  subst hid
  exact issued_setDeviceOTADesired_self rfl hvalid heffect

theorem issued_issueRound_of_not (h : ¬ Leaves env oracle s c deviceID) (campaignID : String) :
    issued env (issueRound env oracle s c deviceID).1 campaignID other = issued env s campaignID other := by
  rw [issueRound_fst]
  split
  · rfl
  · next dev hdevice =>
    have hid := device_id hdevice
    refine issued_setDeviceOTADesired_of_none fun hvalid heffect => h ⟨⟨dev, hdevice, hvalid⟩, ?_⟩
    subst hid
    exact heffect

theorem issued_issueRound_ne_none (h : issued env s c.id other ≠ none) :
    issued env (issueRound env oracle s c deviceID).1 c.id other ≠ none := by
  by_cases hleaves : Leaves env oracle s c deviceID
  · by_cases heq : deviceID = other
    · subst heq
      exact issued_issueRound hleaves
    · rwa [issued_of_twin (twin_issueRound heq)]
  · rwa [issued_issueRound_of_not hleaves]

theorem askable_issueRound (h : (issueRound env oracle s c deviceID).2 = .ok c') :
    Askable env (issueRound env oracle s c deviceID).1 c' other ↔ Askable env s c other := by
  obtain ⟨dev, rfl⟩ := issueRound_ok h
  unfold Askable Store.device
  rw [devices_issueRound]
  rfl

end

section

variable {need : Int} {targets : List String}

theorem eval_issueWave_ok_iff :
    (∃ c', ((issueWave env c need targets).eval oracle s).2 = .ok c') ↔
      ∀ deviceID ∈ wavePlan (listedIDs c) need targets, Issues env oracle s c deviceID := by
  induction targets generalizing c need s with
  | nil => simp [issueWave, wavePlan]
  | cons target rest ih =>
    rw [eval_issueWave_cons, wavePlan]
    split
    · simp
    · split
      · exact ih
      · rw [forall_mem_cons, ← issueRound_ok_iff]
        cases hround : (issueRound env oracle s c target).2 with
        | error err => simp
        | ok c' =>
          obtain ⟨dev, hc'⟩ := issueRound_ok hround
          have hlisted : listedIDs c' = listedIDs c ++ [target] := hc' ▸ listedIDs_selectDevice dev
          simp only [ih, hlisted, Issues, askable_issueRound hround, Except.ok.injEq, exists_eq', true_and]

theorem otaCampaigns_issueWave :
    ((issueWave env c need targets).eval oracle s).1.store.state.otaCampaigns =
      s.store.state.otaCampaigns := by
  induction targets generalizing c need s with
  | nil => rfl
  | cons target rest ih =>
    rw [eval_issueWave_cons]
    split
    · rfl
    · split
      · exact ih
      · cases (issueRound env oracle s c target).2 with
        | error err => exact otaCampaigns_issueRound
        | ok c' => exact ih.trans otaCampaigns_issueRound

theorem twin_issueWave (h : deviceID ∈ listedIDs c) :
    ((issueWave env c need targets).eval oracle s).1.store.twin deviceID = s.store.twin deviceID := by
  induction targets generalizing c need s with
  | nil => rfl
  | cons target rest ih =>
    rw [eval_issueWave_cons]
    split
    · rfl
    · split
      · exact ih h
      · next hmem =>
        have hne : target ≠ deviceID := fun heq => hmem (heq ▸ h)
        cases hround : (issueRound env oracle s c target).2 with
        | error err => exact twin_issueRound hne
        | ok c' =>
          obtain ⟨dev, rfl⟩ := issueRound_ok hround
          refine (ih ?_).trans (twin_issueRound hne)
          rw [listedIDs_selectDevice]
          exact mem_append_left _ h

theorem eval_issueWave_of_nil (h : wavePlan (listedIDs c) need targets = []) :
    (issueWave env c need targets).eval oracle s = (s, .ok c) := by
  induction targets with
  | nil => rfl
  | cons target rest ih =>
    rw [eval_issueWave_cons]
    unfold wavePlan at h
    split at h
    · next hneed => rw [if_pos hneed]
    · next hneed =>
      rw [if_neg hneed]
      split at h
      · next hmem =>
        rw [if_pos hmem]
        exact ih h
      · cases h

theorem issued_issueWave {plan : List String} (h : wavePlan (listedIDs c) need targets = deviceID :: plan) :
    (Leaves env oracle s c deviceID →
      issued env ((issueWave env c need targets).eval oracle s).1 c.id deviceID ≠ none) ∧
    (¬ Leaves env oracle s c deviceID → ∀ campaignID other,
      issued env ((issueWave env c need targets).eval oracle s).1 campaignID other =
        issued env s campaignID other) := by
  induction targets with
  | nil => cases h
  | cons target rest ih =>
    rw [eval_issueWave_cons]
    unfold wavePlan at h
    split at h
    · cases h
    · next hneed =>
      rw [if_neg hneed]
      split at h
      · next hmem =>
        rw [if_pos hmem]
        exact ih h
      · next hmem =>
        rw [if_neg hmem]
        obtain ⟨rfl, -⟩ := List.cons.inj h
        constructor
        · intro hleaves
          have hissued := issued_issueRound hleaves
          cases hround : (issueRound env oracle s c target).2 with
          | error err => exact hissued
          | ok c' =>
            obtain ⟨dev, rfl⟩ := issueRound_ok hround
            rw [issued_of_twin (twin_issueWave ?_)]
            · exact hissued
            · rw [listedIDs_selectDevice]
              exact mem_append_right _ (mem_singleton_self target)
        · intro hleaves campaignID other
          have hissues : ¬ Issues env oracle s c target :=
            fun hissues => hleaves ⟨hissues.1, .inl hissues.2⟩
          cases hround : (issueRound env oracle s c target).2 with
          | error err => exact issued_issueRound_of_not hleaves campaignID
          | ok c' => exact absurd (issueRound_ok_iff.mp ⟨c', hround⟩) hissues

theorem issued_issueWave_ne_none (h : issued env s c.id deviceID ≠ none) :
    issued env ((issueWave env c need targets).eval oracle s).1 c.id deviceID ≠ none := by
  induction targets generalizing c need s with
  | nil => exact h
  | cons target rest ih =>
    rw [eval_issueWave_cons]
    split
    · exact h
    · split
      · exact ih h
      · have hround : issued env (issueRound env oracle s c target).1 c.id deviceID ≠ none :=
          issued_issueRound_ne_none h
        cases hok : (issueRound env oracle s c target).2 with
        | error err => exact hround
        | ok c' =>
          obtain ⟨dev, rfl⟩ := issueRound_ok hok
          exact ih hround

theorem issueWave_ok (h : ((issueWave env c need targets).eval oracle s).2 = .ok c') :
    c'.id = c.id ∧ c'.status = c.status := by
  induction targets generalizing c need s with
  | nil =>
    cases h
    exact ⟨rfl, rfl⟩
  | cons target rest ih =>
    rw [eval_issueWave_cons] at h
    split at h
    · cases h
      exact ⟨rfl, rfl⟩
    · split at h
      · exact ih h
      · cases hround : (issueRound env oracle s c target).2 with
        | error err =>
          rw [hround] at h
          cases h
        | ok c₁ =>
          rw [hround] at h
          obtain ⟨dev, hc₁⟩ := issueRound_ok hround
          obtain ⟨hid, hstatus⟩ := ih h
          exact ⟨hid.trans (hc₁ ▸ rfl), hstatus.trans (hc₁ ▸ rfl)⟩

end

def Listed (s : Server) (campaignID deviceID : String) : Prop :=
  ∃ c, s.store.otaCampaign campaignID = some c ∧ deviceID ∈ listedIDs c

def Clean (env : TwinEnv) (s : Server) (campaignID : String) : Prop :=
  ∀ deviceID, issued env s campaignID deviceID ≠ none → Listed s campaignID deviceID

def WaveIdle (env : TwinEnv) (oracle : Label → Choice) (s : Server) (c : OTACampaign) : Prop :=
  ∀ first ∈ (plannedWave c).head?, ¬ Leaves env oracle s c first

theorem eval_applyCampaignWave :
    (applyCampaignWave env c).eval oracle s =
      match stagePercent c with
      | none => (s, .error "invalid current stage")
      | some percent =>
        (issueWave env c (waveWant c.targetDeviceIDs.length percent - (selectedDevices c).length)
          c.targetDeviceIDs).eval oracle s := by
  unfold applyCampaignWave
  cases stagePercent c with
  | none => rfl
  | some percent =>
    simp only
    split
    · next hneed =>
      cases htargets : c.targetDeviceIDs with
      | nil => rfl
      | cons target rest =>
        rw [htargets] at hneed
        rw [eval_issueWave_cons, if_pos hneed]
        rfl
    · rfl

theorem applyCampaignWave_ok_iff :
    (∃ c', ((applyCampaignWave env c).eval oracle s).2 = .ok c') ↔
      (stagePercent c).isSome ∧ ∀ deviceID ∈ plannedWave c, Issues env oracle s c deviceID := by
  rw [eval_applyCampaignWave, plannedWave]
  cases stagePercent c with
  | none => simp
  | some percent => simp [eval_issueWave_ok_iff]

theorem applyCampaignWave_ok
    (h : ((applyCampaignWave env c).eval oracle s).2 = .ok c') : c'.id = c.id ∧ c'.status = c.status := by
  rw [eval_applyCampaignWave] at h
  cases hpercent : stagePercent c with
  | none => simp [hpercent] at h
  | some percent =>
    rw [hpercent] at h
    exact issueWave_ok h

theorem otaCampaigns_applyCampaignWave :
    ((applyCampaignWave env c).eval oracle s).1.store.state.otaCampaigns =
      s.store.state.otaCampaigns := by
  rw [eval_applyCampaignWave]
  cases stagePercent c with
  | none => rfl
  | some percent => exact otaCampaigns_issueWave

theorem applyCampaignWave_of_nil (h : plannedWave c = []) :
    ((applyCampaignWave env c).eval oracle s).1 = s := by
  rw [eval_applyCampaignWave]
  unfold plannedWave at h
  cases hpercent : stagePercent c with
  | none => rfl
  | some percent =>
    rw [hpercent] at h
    simp only
    rw [eval_issueWave_of_nil h]

theorem issued_applyCampaignWave {first : String} {plan : List String} (h : plannedWave c = first :: plan) :
    (Leaves env oracle s c first →
      issued env ((applyCampaignWave env c).eval oracle s).1 c.id first ≠ none) ∧
    (¬ Leaves env oracle s c first → ∀ campaignID other,
      issued env ((applyCampaignWave env c).eval oracle s).1 campaignID other =
        issued env s campaignID other) := by
  rw [eval_applyCampaignWave]
  unfold plannedWave at h
  cases hpercent : stagePercent c with
  | none => simp [hpercent] at h
  | some percent =>
    rw [hpercent] at h
    exact issued_issueWave h

theorem issued_applyCampaignWave_ne_none (h : issued env s c.id deviceID ≠ none) :
    issued env ((applyCampaignWave env c).eval oracle s).1 c.id deviceID ≠ none := by
  rw [eval_applyCampaignWave]
  cases stagePercent c with
  | none => exact h
  | some percent => exact issued_issueWave_ne_none h

theorem not_mem_listedIDs_of_planned (h : deviceID ∈ plannedWave c) :
    deviceID ∉ listedIDs c := by
  unfold plannedWave at h
  split at h
  · cases h
  · exact not_mem_of_mem_wavePlan h

def WaveSucceeds (env : TwinEnv) (oracle : Label → Choice) (s : Server) (c : OTACampaign) : Prop :=
  (stagePercent c).isSome ∧ (∀ deviceID ∈ plannedWave c, Issues env oracle s c deviceID) ∧
    (oracle { point := .save c.id c.status }).error = none

theorem otaCampaign_of_campaigns {id : String}
    (h : s'.store.state.otaCampaigns = s.store.state.otaCampaigns) :
    s'.store.otaCampaign id = s.store.otaCampaign id := by
  unfold Store.otaCampaign
  rw [h]

theorem eval_saveWith (env : Env) (merge : OTACampaign → OTACampaign → OTACampaign)
    (hstored : (s.store.otaCampaign c.id).isSome) :
    ((oracle { point := .save c.id c.status }).error = none ∧
        ∃ c', ((saveWith env merge c).eval oracle s).2 = .ok c') ∨
      ((oracle { point := .save c.id c.status }).error ≠ none ∧
        (∃ err, ((saveWith env merge c).eval oracle s).2 = .error err) ∧
        ((saveWith env merge c).eval oracle s).1 = s) := by
  unfold saveWith
  simp only [eval_write]
  generalize oracle { point := .save c.id c.status } = choice
  cases hupdated : (updateOTACampaign env choice s c.id
    (merge { c with updatedAt := choice.now })).2 with
  | none =>
    exact .inl ⟨((updateOTACampaign_snd_eq_none_iff _ _ _).mp hupdated).1, _, rfl⟩
  | some err =>
    refine .inr ⟨fun herror => ?_, ⟨err, rfl⟩, updateOTACampaign_fst_of_error _ hupdated⟩
    have hnone := (updateOTACampaign_snd_eq_none_iff env c.id
      (merge { c with updatedAt := choice.now })).mpr ⟨herror, hstored⟩
    cases hupdated.symm.trans hnone

theorem eval_advanceCampaign (hstored : (s.store.otaCampaign c.id).isSome) :
    (((advanceCampaign env c).eval oracle s).2.code = 200 ∧ WaveSucceeds env oracle s c) ∨
      (((advanceCampaign env c).eval oracle s).2.code ≠ 200 ∧ ¬ WaveSucceeds env oracle s c ∧
        ((advanceCampaign env c).eval oracle s).1 = ((applyCampaignWave env c).eval oracle s).1) := by
  unfold advanceCampaign
  simp only [eval_bind]
  cases hwave : ((applyCampaignWave env c).eval oracle s).2 with
  | error err =>
    refine .inr ⟨by simp, fun h => ?_, rfl⟩
    obtain ⟨c', hc'⟩ := applyCampaignWave_ok_iff.mpr ⟨h.1, h.2.1⟩
    cases hwave.symm.trans hc'
  | ok c₁ =>
    obtain ⟨hstage, hissues⟩ := applyCampaignWave_ok_iff.mp ⟨c₁, hwave⟩
    obtain ⟨hid, hstatus⟩ := applyCampaignWave_ok hwave
    have hstored₁ : (((applyCampaignWave env c).eval oracle s).1.store.otaCampaign c₁.id).isSome := by
      rw [otaCampaign_of_campaigns otaCampaigns_applyCampaignWave, hid]
      exact hstored
    simp only [eval_bind, saveCampaign]
    rcases eval_saveWith env.toEnv (fun c _ => c) hstored₁ with
      ⟨herror, c₂, hsaved⟩ | ⟨herror, ⟨err, hsaved⟩, hstate⟩
    · rw [hid, hstatus] at herror
      rw [hsaved]
      refine .inl ⟨?_, hstage, hissues, herror⟩
      simp only [eval_bind, eval_pure]
    · rw [hid, hstatus] at herror
      rw [hsaved]
      exact .inr ⟨by simp, fun h => herror h.2.2, hstate⟩

/-- A wave that fails leaves every request to a listed device, exactly if that was so before
and the wave wrote nothing. -/
theorem clean_advanceCampaign_iff {v : OTACampaign} (hstored : s.store.otaCampaign c.id = some v)
    (hlisted : listedIDs v = listedIDs c) :
    (((advanceCampaign env c).eval oracle s).2.code ≠ 200 →
      Clean env ((advanceCampaign env c).eval oracle s).1 c.id) ↔
        WaveSucceeds env oracle s c ∨ Clean env s c.id ∧ WaveIdle env oracle s c := by
  have hafter : ∀ deviceID, Listed ((applyCampaignWave env c).eval oracle s).1 c.id deviceID ↔
      deviceID ∈ listedIDs c := by
    intro deviceID
    unfold Listed
    rw [otaCampaign_of_campaigns otaCampaigns_applyCampaignWave, hstored]
    simp [hlisted]
  have hbefore : ∀ deviceID, Listed s c.id deviceID ↔ deviceID ∈ listedIDs c := by
    intro deviceID
    simp [Listed, hstored, hlisted]
  have heval := @eval_advanceCampaign env oracle s c (by rw [hstored]; rfl)
  rcases heval with ⟨hcode, hsucceeds⟩ | ⟨hcode, hfails, hstate⟩
  · exact iff_of_true (fun h => absurd hcode h) (.inl hsucceeds)
  · rw [hstate]
    constructor
    · intro hclean
      refine .inr ⟨fun deviceID hissued => ?_, fun first hfirst hleaves => ?_⟩
      · exact (hbefore deviceID).mpr ((hafter deviceID).mp
          (hclean hcode deviceID (issued_applyCampaignWave_ne_none hissued)))
      · obtain ⟨plan, hplan⟩ : ∃ plan, plannedWave c = first :: plan :=
          head?_eq_some_iff.mp hfirst
        have hissued := (issued_applyCampaignWave hplan).1 hleaves
        have hmem : first ∈ plannedWave c := by simp [hplan]
        exact not_mem_listedIDs_of_planned hmem ((hafter first).mp (hclean hcode first hissued))
    · rintro (hsucceeds | ⟨hclean, hidle⟩) _ deviceID hissued
      · exact absurd hsucceeds hfails
      · rw [hafter, ← hbefore]
        refine hclean deviceID ?_
        cases hplan : plannedWave c with
        | nil => rwa [applyCampaignWave_of_nil hplan] at hissued
        | cons first plan =>
          have hleaves := hidle first (by simp [hplan])
          rwa [(issued_applyCampaignWave hplan).2 hleaves] at hissued

section

def mutableCampaign (s : Server) (r : CampaignRequest) : Option OTACampaign :=
  (s.store.otaCampaign r.campaignID).filter (callerCanMutateCampaign r)

def resolvedTargets (env : Ota.Env) (s : Server) (c : OTACampaign) : Except String (List String) :=
  ((resolveCampaignTargets env c).eval (fun _ => {}) s).2

def startedCopy (env : TwinEnv) (s : Server) (c : OTACampaign) : Option OTACampaign :=
  if c.status ≠ otaCampaignDraft then none
  else
    match resolvedTargets env.ota s c with
    | .error _ => none
    | .ok targets =>
      if targets = [] then none
      else some { c with targetDeviceIDs := targets, currentStage := 0, status := otaCampaignRunning }

def Promotes (env : TwinEnv) (oracle : Label → Choice) (s : Server) (c : OTACampaign) : Prop :=
  c.status = otaCampaignRunning ∧ 0 ≤ c.currentStage ∧ c.currentStage < c.stages.length - 1 ∧
    ¬ ((tallyOf env s c.devices).aborts c ∧
      (oracle { point := .refresh .early c.id otaCampaignAborted }).error = none)

instance (env : TwinEnv) (oracle : Label → Choice) (s : Server) (c : OTACampaign) :
    Decidable (Promotes env oracle s c) :=
  inferInstanceAs (Decidable (_ ∧ _ ∧ _ ∧ ¬ (_ ∧ _)))

def promotedCopy (env : TwinEnv) (oracle : Label → Choice) (s : Server) (c : OTACampaign) :
    Option OTACampaign :=
  if Promotes env oracle s c then some { c with currentStage := c.currentStage + 1 } else none

/-- The wave of a request is whole: all of it succeeds, or it writes nothing and the requests
were for listed devices before. -/
def Whole (env : TwinEnv) (oracle : Label → Choice) (s : Server) (id : String)
    (copy : Option OTACampaign) : Prop :=
  (∃ c ∈ copy, WaveSucceeds env oracle s c) ∨
    Clean env s id ∧ ∀ c ∈ copy, WaveIdle env oracle s c

def held (oracle : Label → Choice) (id : String) (label : Label) : Choice :=
  oracle { label with held := [id] }

variable {r : CampaignRequest}

theorem eval_targetsOfDevices (env : Ota.Env) (out deviceIDs : List String) :
    (targetsOfDevices env c out deviceIDs).eval oracle s =
      (s, ((targetsOfDevices env c out deviceIDs).eval (fun _ => {}) s).2) := by
  induction deviceIDs generalizing out with
  | nil => rfl
  | cons deviceID rest ih =>
    simp only [targetsOfDevices, campaignDevice, eval_bind, eval_lookup]
    cases s.store.device deviceID with
    | none => rfl
    | some dev =>
      by_cases helsewhere : c.siteIDs ≠ [] ∧ dev.siteID ∉ c.siteIDs
      · simp only [if_pos helsewhere, eval_pure]
      · simp only [if_neg helsewhere, eval_pure]
        exact ih _

theorem eval_resolveCampaignTargets (env : Ota.Env) :
    (resolveCampaignTargets env c).eval oracle s = (s, resolvedTargets env s c) := by
  unfold resolvedTargets resolveCampaignTargets
  split
  · simp only [eval_bind]
    rw [eval_targetsOfDevices]
    cases ((targetsOfDevices env c [] c.deviceIDs).eval (fun _ => {}) s).2 <;> rfl
  · rfl

theorem eval_withCampaign (body : OTACampaign → Proc CampaignReply) :
    (withCampaign (loadMutableCampaign r) body).eval oracle s =
      match mutableCampaign s r with
      | none => (s, campaignNotFound)
      | some c => (body c).eval (held oracle c.id) s := by
  simp only [withCampaign, loadMutableCampaign, loadCampaign, mutableCampaign, eval_bind, eval_lookup]
  cases (s.store.otaCampaign r.campaignID).filter (callerCanMutateCampaign r) with
  | none => rfl
  | some c =>
    simp only [eval_holding]
    rfl

theorem whole_none (id : String) : Whole env oracle s id none ↔ Clean env s id := by
  simp [Whole]

theorem whole_some (id : String) :
    Whole env oracle s id (some c) ↔
      WaveSucceeds env oracle s c ∨ Clean env s id ∧ WaveIdle env oracle s c := by
  simp [Whole]

theorem mutableCampaign_eq_some (h : mutableCampaign s r = some c) :
    s.store.otaCampaign c.id = some c ∧ c.id = r.campaignID := by
  obtain ⟨hstored, -⟩ := filter_eq_some_iff.mp h
  have hid : c.id = r.campaignID := Store.id_of_otaCampaign hstored
  exact ⟨hid ▸ hstored, hid⟩

theorem eval_startCampaign (env : TwinEnv) (oracle : Label → Choice) (s : Server) (c : OTACampaign) :
    (startedCopy env s c = none ∧ ((startCampaign env c).eval oracle s).1 = s ∧
        ((startCampaign env c).eval oracle s).2.code ≠ 200) ∨
      ∃ c', startedCopy env s c = some c' ∧ c'.id = c.id ∧ listedIDs c = listedIDs c' ∧
        (startCampaign env c).eval oracle s = (advanceCampaign env c').eval oracle s := by
  unfold startCampaign startedCopy
  by_cases hdraft : c.status = otaCampaignDraft
  · have hpaused : ¬ c.status = otaCampaignPaused := by
      rw [hdraft]
      decide
    rw [if_neg hpaused, if_neg (not_not.mpr hdraft), if_neg (not_not.mpr hdraft)]
    simp only [eval_bind, eval_resolveCampaignTargets]
    cases resolvedTargets env.ota s c with
    | error err => exact .inl ⟨rfl, rfl, by simp⟩
    | ok targets =>
      by_cases hempty : targets = []
      · simp only [if_pos hempty]
        exact .inl ⟨trivial, rfl, by simp⟩
      · simp only [if_neg hempty]
        exact .inr ⟨_, rfl, rfl, rfl, rfl⟩
  · rw [if_pos hdraft, if_pos hdraft]
    split
    · exact .inl ⟨rfl, rfl, by simp⟩
    · exact .inl ⟨rfl, rfl, by simp⟩

theorem clean_start_iff :
    (((otaCampaignStart env r).eval oracle s).2.code ≠ 200 →
      Clean env ((otaCampaignStart env r).eval oracle s).1 r.campaignID) ↔
        Whole env (held oracle r.campaignID) s r.campaignID
          ((mutableCampaign s r).bind (startedCopy env s)) := by
  unfold otaCampaignStart
  rw [eval_withCampaign]
  cases hfound : mutableCampaign s r with
  | none => simp [whole_none, campaignNotFound]
  | some c =>
    obtain ⟨hstored, hid⟩ := mutableCampaign_eq_some hfound
    rw [← hid, bind_some]
    simp only
    rcases eval_startCampaign env (held oracle c.id) s c with
      ⟨hcopy, hstate, hcode⟩ | ⟨c', hcopy, hid', hlisted, heval⟩
    · rw [hcopy, hstate, whole_none]
      exact ⟨fun h => h hcode, fun h _ => h⟩
    · rw [hcopy, heval, whole_some]
      rw [← hid'] at hstored ⊢
      exact clean_advanceCampaign_iff hstored hlisted

theorem clean_refresh_iff {after : Server × OTACampaign} (h : Refreshes env s c after)
    (hstored : s.store.otaCampaign c.id = some c) : Clean env after.1 c.id ↔ Clean env s c.id := by
  have hlisted : ∀ deviceID, Listed after.1 c.id deviceID ↔ deviceID ∈ listedIDs c := by
    intro deviceID
    simp [Listed, h.stored, h.outcome.course.listed]
  have hlisted' : ∀ deviceID, Listed s c.id deviceID ↔ deviceID ∈ listedIDs c := by
    intro deviceID
    simp [Listed, hstored]
  constructor
  · intro hclean deviceID hissued
    rw [hlisted']
    by_contra hmem
    rw [← issued_of_twin (h.spares.unlisted deviceID hmem)] at hissued
    exact hmem ((hlisted deviceID).mp (hclean deviceID hissued))
  · intro hclean deviceID hissued
    rw [hlisted, ← hlisted']
    rcases h.spares.requests deviceID with hnone | hsame
    · exact absurd hnone hissued
    · exact hclean deviceID (hsame ▸ hissued)

theorem plannedWave_of_sameCourse (h : SameCourse c c') (stage : Int) :
    plannedWave { c' with currentStage := stage } = plannedWave { c with currentStage := stage } := by
  have hstage : stagePercent { c' with currentStage := stage } =
      stagePercent { c with currentStage := stage } := by
    rw [h.rest]
    rfl
  have htargets : c'.targetDeviceIDs = c.targetDeviceIDs := by rw [h.rest]
  have hlisted : listedIDs { c' with currentStage := stage } =
      listedIDs { c with currentStage := stage } := h.listed
  have hselected : selectedDevices { c' with currentStage := stage } =
      selectedDevices { c with currentStage := stage } := congrArg List.dedup hlisted
  unfold plannedWave
  rw [hstage, hlisted, hselected, htargets]

theorem askable_of_sameCourse (h : SameCourse c c')
    (hdevices : s'.store.state.devices = s.store.state.devices) (stage : Int) (deviceID : String) :
    Askable env s' { c' with currentStage := stage } deviceID ↔
      Askable env s { c with currentStage := stage } deviceID := by
  unfold Askable Store.device
  rw [hdevices, h.rest]
  rfl

theorem wave_refresh_iff {after : Server × OTACampaign} (h : Refreshes env s c after)
    (hstatus : after.2.status = c.status) (stage : Int) :
    (WaveSucceeds env oracle after.1 { after.2 with currentStage := stage } ↔
        WaveSucceeds env oracle s { c with currentStage := stage }) ∧
      (WaveIdle env oracle after.1 { after.2 with currentStage := stage } ↔
        WaveIdle env oracle s { c with currentStage := stage }) := by
  have hplan := plannedWave_of_sameCourse h.outcome.course stage
  have hask := fun deviceID => @askable_of_sameCourse env s after.1 c after.2 h.outcome.course
    h.spares.devices stage deviceID
  have hstage : stagePercent { after.2 with currentStage := stage } =
      stagePercent { c with currentStage := stage } := by
    rw [h.outcome.course.rest]
    rfl
  constructor
  · unfold WaveSucceeds Issues
    simp only [hplan, hask, hstage]
    rw [hstatus, h.outcome.course.id_eq]
  · unfold WaveIdle Leaves
    simp only [hplan, hask]
    refine forall₂_congr fun first hfirst => ?_
    have hmem : first ∉ listedIDs { c with currentStage := stage } :=
      not_mem_listedIDs_of_planned (mem_of_mem_head? hfirst)
    unfold Sharing
    rw [h.spares.unlisted first hmem]

theorem promotes_iff (hstored : s.store.otaCampaign c.id = some c) :
    Promotes env oracle s c ↔
      ((refreshOTACampaign env .early true c).eval oracle s).2.status = otaCampaignRunning ∧
        ¬ (c.currentStage < 0 ∨ c.currentStage ≥ c.stages.length - 1) := by
  have hended : otaCampaignAborted ≠ otaCampaignRunning ∧ otaCampaignCompleted ≠ otaCampaignRunning ∧
    otaCampaignPaused ≠ otaCampaignRunning := by decide
  unfold Promotes
  by_cases hactive : c.status = otaCampaignRunning ∨ c.status = otaCampaignPaused
  · rw [status_refresh hstored hactive]
    simp only
    by_cases hstage : c.currentStage < 0 ∨ c.currentStage ≥ c.stages.length - 1
    · refine iff_of_false (fun h => ?_) fun h => h.2 hstage
      omega
    · -- a campaign before its last stage does not complete
      have hcompletes : (tallyOf env s c.devices).completes c = false := by
        have hne : c.currentStage ≠ c.stages.length - 1 := by omega
        simp [Tally.completes, hne]
      have hbounds : 0 ≤ c.currentStage ∧ c.currentStage < c.stages.length - 1 := by omega
      simp only [hcompletes, hstage, hbounds, not_false_eq_true, and_true, true_and,
        Bool.false_eq_true, if_false]
      by_cases haborts : (tallyOf env s c.devices).aborts c
      · by_cases herror : (oracle { point := .refresh .early c.id otaCampaignAborted }).error = none
        · simp [haborts, herror, hended.1]
        · simp [haborts, herror]
      · simp [haborts]
  · have hrunning : c.status ≠ otaCampaignRunning := fun h => hactive (.inl h)
    unfold refreshOTACampaign
    rw [if_pos (not_or.mp hactive)]
    simp [hrunning]

theorem clean_promoteCampaign_iff (hstored : s.store.otaCampaign c.id = some c) :
    (((promoteCampaign env c).eval oracle s).2.code ≠ 200 →
      Clean env ((promoteCampaign env c).eval oracle s).1 c.id) ↔
        Whole env oracle s c.id (promotedCopy env oracle s c) := by
  have hrefresh : Refreshes env s c ((refreshOTACampaign env .early true c).eval oracle s) :=
    refreshes_refresh hstored
  have hiff := @promotes_iff env oracle s c hstored
  simp only [promoteCampaign, promotedCopy, eval_bind]
  generalize (refreshOTACampaign env .early true c).eval oracle s = after at hrefresh hiff ⊢
  have hcourse := hrefresh.outcome.course
  have hstage : after.2.currentStage = c.currentStage := by rw [hcourse.rest]
  have hstages : after.2.stages = c.stages := by rw [hcourse.rest]
  rw [hstage]
  rw [← hstages] at hiff
  by_cases hpromotes : Promotes env oracle s c
  · obtain ⟨hrunning, hbounds⟩ := hiff.mp hpromotes
    have hwave := @wave_refresh_iff env oracle s c after hrefresh (hrunning.trans hpromotes.1.symm)
      (c.currentStage + 1)
    rw [if_neg (not_not.mpr hrunning), if_neg hbounds, if_pos hpromotes, whole_some, ← hwave.1,
      ← hwave.2, ← clean_refresh_iff hrefresh hstored, ← hcourse.id_eq]
    refine clean_advanceCampaign_iff (v := after.2) ?_ rfl
    rw [← hrefresh.stored]
    exact congrArg _ hcourse.id_eq
  · rw [if_neg hpromotes, whole_none, ← clean_refresh_iff hrefresh hstored]
    have hrefused : after.2.status ≠ otaCampaignRunning ∨
        (c.currentStage < 0 ∨ c.currentStage ≥ after.2.stages.length - 1) := by
      by_contra h
      obtain ⟨hrunning, hbounds⟩ := not_or.mp h
      exact hpromotes (hiff.mpr ⟨not_not.mp hrunning, hbounds⟩)
    split
    · simp
    · next hrunning =>
      rw [if_pos (hrefused.resolve_left hrunning)]
      simp

theorem clean_promote_iff :
    (((otaCampaignPromote env r).eval oracle s).2.code ≠ 200 →
      Clean env ((otaCampaignPromote env r).eval oracle s).1 r.campaignID) ↔
        Whole env (held oracle r.campaignID) s r.campaignID
          ((mutableCampaign s r).bind (promotedCopy env (held oracle r.campaignID) s)) := by
  unfold otaCampaignPromote
  rw [eval_withCampaign]
  cases hfound : mutableCampaign s r with
  | none => simp [whole_none, campaignNotFound]
  | some c =>
    obtain ⟨hstored, hid⟩ := mutableCampaign_eq_some hfound
    rw [← hid, bind_some]
    exact clean_promoteCampaign_iff hstored

/-- A start or a promotion that fails leaves requests for listed devices only, exactly if its
wave is whole. -/
theorem start_promote_clean_iff (env : TwinEnv) (oracle : Label → Choice) (s : Server) (r : CampaignRequest) :
    ((((otaCampaignStart env r).eval oracle s).2.code ≠ 200 →
        Clean env ((otaCampaignStart env r).eval oracle s).1 r.campaignID) ↔
      Whole env (held oracle r.campaignID) s r.campaignID
        ((mutableCampaign s r).bind (startedCopy env s))) ∧
    ((((otaCampaignPromote env r).eval oracle s).2.code ≠ 200 →
        Clean env ((otaCampaignPromote env r).eval oracle s).1 r.campaignID) ↔
      Whole env (held oracle r.campaignID) s r.campaignID
        ((mutableCampaign s r).bind (promotedCopy env (held oracle r.campaignID) s))) :=
  ⟨clean_start_iff, clean_promote_iff⟩

end

def draftCampaign : OTACampaign :=
  { someCampaign with
    stages := [{ canaryPercent := 100 }]
    status := otaCampaignDraft
    currentStage := -1
    targetDeviceIDs := []
    devices := [] }

def draftServer : Server :=
  { campaignServer with
    store := { campaignServer.store with
      state := { campaignServer.store.state with otaCampaigns := [draftCampaign] } } }

def secondFails (label : Label) : Choice :=
  if label.point = .issue "d2" then { error := some "disk full" } else {}

def startedCampaign : OTACampaign :=
  { draftCampaign with
    targetDeviceIDs := ["d1", "d2"]
    currentStage := 0
    status := otaCampaignRunning }

/-- The start fails, and its first device has a request that no campaign knows of. -/
theorem failed_start_not_clean :
    ((otaCampaignStart twinEnv campaignRequest).eval secondFails draftServer).2.code = 507 ∧
      ¬ Clean twinEnv ((otaCampaignStart twinEnv campaignRequest).eval secondFails draftServer).1 "c" := by
  refine ⟨by decide, fun hclean => ?_⟩
  have hcopy : (mutableCampaign draftServer campaignRequest).bind (startedCopy twinEnv draftServer) =
      some startedCampaign := by decide
  have hwhole : Whole twinEnv (held secondFails "c") draftServer "c" (some startedCampaign) :=
    hcopy ▸ clean_start_iff.mp fun _ => hclean
  rcases (whole_some "c").mp hwhole with hsucceeds | ⟨-, hidle⟩
  · -- the second device is part of the wave
    have hissues := (hsucceeds.2.1 "d2" (by decide)).2
    cases hissues
  · exact hidle "d1" (by decide)
      ⟨⟨{ id := "d1", siteID := "s" }, by decide, by decide⟩, .inl rfl⟩

end Nodra.Server
