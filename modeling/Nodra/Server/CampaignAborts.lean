import Nodra.Server.OtaLifecycle
import Nodra.Server.SiteRecords

/-! What an abort takes back: the requests of the campaign that are still out, and nothing else.  The
threshold that leads to it is compared in whole percent, which is exact. -/
namespace Nodra.Server
open Model Std Interleave Program List Option

variable {env : TwinEnv} {oracle : Label → Choice} {s : Server} {pass : Pass} {d : OTACampaignDevice}
  {dev : Device} {deviceID updateID : String} {c : OTACampaign} {tw : Twin}

section

def countInFlightCampaignOTA (env : TwinEnv) (pass : Pass) (cleared : Nat) : List OTACampaignDevice → Proc Nat
  | [] => pure cleared
  | d :: rest =>
    if finished d.state then countInFlightCampaignOTA env pass cleared rest
    else do
      match ← lookup (·.store.device d.deviceID) with
      | none => countInFlightCampaignOTA env pass cleared rest
      | some dev => do
        let removed ← write (.clear pass d.deviceID) fun choice s =>
          (clearDevice env choice s dev d.updateID, inFlight env d.updateID (currentTwin s dev.id))
        countInFlightCampaignOTA env pass (if removed then cleared + 1 else cleared) rest

variable {cleared : Nat} {devices : List OTACampaignDevice}

theorem eval_count_fst :
    ((countInFlightCampaignOTA env pass cleared devices).eval oracle s).1 =
      ((clearInFlightCampaignOTA env pass devices).eval oracle s).1 := by
  induction devices generalizing s cleared with
  | nil => rfl
  | cons d rest ih =>
    unfold countInFlightCampaignOTA clearInFlightCampaignOTA
    split
    · exact ih
    · simp only [eval_bind, eval_lookup]
      cases s.store.device d.deviceID with
      | none => exact ih
      | some dev => exact ih

def withdraws (env : TwinEnv) (s : Server) (d : OTACampaignDevice) : Bool :=
  !finished d.state && (s.store.twin d.deviceID).any (inFlight env d.updateID)

theorem id_of_device (h : s.store.device deviceID = some dev) : dev.id = deviceID := by
  simpa using find?_some h

theorem twin_clear_of_mem (hdistinct : (devices.map OTACampaignDevice.deviceID).Nodup) (hd : d ∈ devices)
    (hopen : finished d.state = false) (hdevice : s.store.device d.deviceID = some dev) :
    ((clearInFlightCampaignOTA env pass devices).eval oracle s).1.store.twin d.deviceID =
      (clearDevice env (oracle { point := .clear pass d.deviceID }) s dev d.updateID).store.twin d.deviceID := by
  induction devices generalizing s with
  | nil => cases hd
  | cons first rest ih =>
    obtain ⟨hfirst, hrest⟩ := nodup_cons.mp hdistinct
    rcases mem_cons.mp hd with rfl | hd
    · unfold clearInFlightCampaignOTA
      rw [if_neg (by simp [hopen])]
      simp only [eval_bind, eval_lookup, hdevice, eval_write]
      apply twin_clear
      intro other hother hid
      exact absurd (hid ▸ List.mem_map_of_mem hother) hfirst
    · have hne : first.deviceID ≠ d.deviceID := fun heq => hfirst (heq ▸ List.mem_map_of_mem hd)
      unfold clearInFlightCampaignOTA
      split
      · exact ih hrest hd hdevice
      · simp only [eval_bind, eval_lookup]
        cases hfound : s.store.device first.deviceID with
        | none => exact ih hrest hd hdevice
        | some other =>
          have hother : other.id ≠ d.deviceID := fun heq => hne ((id_of_device hfound).symm.trans heq)
          simp only [eval_bind, eval_write]
          generalize oracle { point := .clear pass first.deviceID } = choice
          have hsame : (clearDevice env choice s other first.updateID).store.device d.deviceID = some dev := by
            unfold Store.device
            rw [state_clearDevice]
            exact hdevice
          rw [ih hrest hd hsame]
          simp only [twin_clearDevice, id_of_device hdevice, if_neg hother]

theorem inFlight_currentTwin (updateID : String) :
    inFlight env updateID (currentTwin s deviceID) = (s.store.twin deviceID).any (inFlight env updateID) := by
  unfold currentTwin
  cases s.store.twin deviceID with
  | none => simp [inFlight, otaRequestFromDesired]
  | some tw => rfl

theorem withdraws_clearDevice (choice : Choice) (updateID : String) (hne : dev.id ≠ d.deviceID) :
    withdraws env (clearDevice env choice s dev updateID) d = withdraws env s d := by
  unfold withdraws
  rw [twin_clearDevice, if_neg hne]

theorem eval_count_snd (hdistinct : (devices.map OTACampaignDevice.deviceID).Nodup)
    (hregistered : ∀ d ∈ devices, (s.store.device d.deviceID).isSome) :
    ((countInFlightCampaignOTA env pass cleared devices).eval oracle s).2 =
      cleared + devices.countP (withdraws env s) := by
  induction devices generalizing s cleared with
  | nil => rfl
  | cons d rest ih =>
    obtain ⟨hfirst, hrest⟩ := nodup_cons.mp hdistinct
    obtain ⟨hd, hregistered⟩ := forall_mem_cons.mp hregistered
    obtain ⟨dev, hdevice⟩ := isSome_iff_exists.mp hd
    rw [countP_cons]
    unfold countInFlightCampaignOTA
    by_cases hopen : finished d.state = true
    · rw [if_pos hopen, ih hrest hregistered]
      simp [withdraws, hopen]
    · rw [if_neg hopen]
      simp only [eval_bind, eval_lookup, hdevice, eval_write]
      generalize oracle { point := .clear pass d.deviceID } = choice
      have hstill : ∀ x ∈ rest, ((clearDevice env choice s dev d.updateID).store.device x.deviceID).isSome := by
        intro x hx
        unfold Store.device
        rw [state_clearDevice]
        exact hregistered x hx
      have hcount : rest.countP (withdraws env (clearDevice env choice s dev d.updateID)) =
          rest.countP (withdraws env s) := by
        apply countP_congr
        intro x hx
        rw [withdraws_clearDevice]
        rw [id_of_device hdevice]
        exact fun heq => hfirst (heq ▸ List.mem_map_of_mem hx)
      have hself : withdraws env s d = inFlight env d.updateID (currentTwin s dev.id) := by
        rw [inFlight_currentTwin, id_of_device hdevice]
        simp [withdraws, hopen]
      rw [ih hrest hstill, hcount, hself]
      change (if inFlight env d.updateID (currentTwin s dev.id) = true then _ else _) + _ = _
      split <;> omega

end

section

def Requests (env : TwinEnv) (updateID : String) (tw : Twin) : Prop :=
  ∃ req, otaRequestFromDesired env tw.desired = some (some req) ∧ req.updateID = updateID

/-- What the code does to the requests of a campaign is what an abort is for. -/
structure ClearsExactly (env : TwinEnv) (s : Server) (c : OTACampaign) (after : Server × Nat) : Prop where
  withdrawn : ∀ d ∈ c.devices, finished d.state = false → ∀ tw, after.1.store.twin d.deviceID = some tw →
    ¬ Requests env d.updateID tw
  entries : ∀ deviceID tw, s.store.twin deviceID = some tw → ∃ tw', after.1.store.twin deviceID = some tw' ∧
    tw'.reported = tw.reported ∧ ∀ key ≠ otaTwinKey, tw'.desired[key]? = tw.desired[key]?
  untouched : ∀ deviceID, (∀ d ∈ c.devices, d.deviceID = deviceID → finished d.state = true) →
    after.1.store.twin deviceID = s.store.twin deviceID
  foreign : ∀ d ∈ c.devices, ∀ tw req, s.store.twin d.deviceID = some tw →
    otaRequestFromDesired env tw.desired = some (some req) → req.updateID ≠ "" → req.updateID ≠ d.updateID →
    after.1.store.twin d.deviceID = some tw
  version : ∀ deviceID tw tw', s.store.twin deviceID = some tw → after.1.store.twin deviceID = some tw' →
    tw'.desiredVersion = if tw' = tw then tw.desiredVersion else tw.desiredVersion + 1
  number : after.2 = c.devices.countP fun d => after.1.store.twin d.deviceID ≠ s.store.twin d.deviceID

variable {now : Time}

theorem clearRequest_of_not_inFlight (h : inFlight env updateID tw = false) : clearRequest env updateID now tw = tw := by
  simp [clearRequest, h]

theorem not_requests_clearedTwin (choice : Choice) : ¬ Requests env updateID (clearedTwin env choice updateID tw) := by
  rintro ⟨req, hreq, hid⟩
  cases hflight : inFlight env updateID tw with
  | false =>
    rw [clearedTwin_of_not_inFlight hflight] at hreq
    simp [inFlight, hreq, hid] at hflight
  | true => simp [otaRequestFromDesired, getElem?_clearedTwin hflight] at hreq

theorem getElem?_clearRequest {key : String} (h : key ≠ otaTwinKey) :
    (clearRequest env updateID now tw).desired[key]? = tw.desired[key]? := by
  unfold clearRequest
  split
  · simp [ExtTreeMap.getElem?_erase, h.symm]
  · rfl

theorem clearRequest_eq_iff : clearRequest env updateID now tw = tw ↔ inFlight env updateID tw = false := by
  refine ⟨fun h => ?_, clearRequest_of_not_inFlight⟩
  by_contra hflight
  rw [Bool.not_eq_false] at hflight
  have hversion := congrArg Twin.desiredVersion h
  simp [clearRequest, hflight] at hversion

theorem desiredVersion_clearRequest :
    (clearRequest env updateID now tw).desiredVersion =
      if clearRequest env updateID now tw = tw then tw.desiredVersion else tw.desiredVersion + 1 := by
  simp only [clearRequest_eq_iff]
  cases hflight : inFlight env updateID tw <;> simp [clearRequest, hflight]

theorem twin_clear_cases (env : TwinEnv) (pass : Pass) (hok : ∀ label, (oracle label).error = none)
    (hdistinct : (c.devices.map OTACampaignDevice.deviceID).Nodup)
    (hregistered : ∀ d ∈ c.devices, (s.store.device d.deviceID).isSome) (htwin : s.store.twin deviceID = some tw) :
    ((∀ d ∈ c.devices, d.deviceID = deviceID → finished d.state = true) ∧
      ((clearInFlightCampaignOTA env pass c.devices).eval oracle s).1.store.twin deviceID = some tw) ∨
    ∃ d ∈ c.devices, d.deviceID = deviceID ∧ finished d.state = false ∧
      ((clearInFlightCampaignOTA env pass c.devices).eval oracle s).1.store.twin deviceID =
        some (clearRequest env d.updateID (oracle { point := .clear pass deviceID }).now tw) := by
  by_cases hclosed : ∀ d ∈ c.devices, d.deviceID = deviceID → finished d.state = true
  · exact .inl ⟨hclosed, (twin_clear hclosed).trans htwin⟩
  · push Not at hclosed
    obtain ⟨d, hd, rfl, hfinished⟩ := hclosed
    have hopen : finished d.state = false := Bool.eq_false_of_not_eq_true hfinished
    obtain ⟨dev, hdevice⟩ := isSome_iff_exists.mp (hregistered d hd)
    refine .inr ⟨d, hd, rfl, hopen, ?_⟩
    rw [twin_clear_of_mem hdistinct hd hopen hdevice, twin_clearDevice, if_pos (id_of_device hdevice),
      id_of_device hdevice, htwin]
    simp [clearedTwin, hok]

/-- With the store in order, an abort withdraws the requests of its unfinished devices and leaves
everything else alone. -/
theorem clearInFlightCampaignOTA_exact (env : TwinEnv) (pass : Pass) (oracle : Label → Choice) (s : Server)
    (c : OTACampaign) (hok : ∀ label, (oracle label).error = none)
    (hdistinct : (c.devices.map OTACampaignDevice.deviceID).Nodup)
    (hregistered : ∀ d ∈ c.devices, (s.store.device d.deviceID).isSome)
    (htwins : ∀ d ∈ c.devices, (s.store.twin d.deviceID).isSome) :
    ClearsExactly env s c ((countInFlightCampaignOTA env pass 0 c.devices).eval oracle s) := by
  have hcases {deviceID : String} {tw : Twin} (htwin : s.store.twin deviceID = some tw) :=
    twin_clear_cases env pass hok hdistinct hregistered htwin
  have hsame {d e : OTACampaignDevice} (hd : d ∈ c.devices) (he : e ∈ c.devices) (h : d.deviceID = e.deviceID) : d = e :=
    inj_on_of_nodup_map hdistinct hd he h
  constructor
  all_goals
    simp only [eval_count_fst]
  case withdrawn =>
    intro d hd hopen tw' htw'
    obtain ⟨tw, htwin⟩ := isSome_iff_exists.mp (htwins d hd)
    rcases hcases htwin with ⟨hclosed, -⟩ | ⟨e, he, hid, -, hafter⟩
    · simp [hclosed d hd rfl] at hopen
    · cases hsame he hd hid
      rw [hafter] at htw'
      cases htw'
      exact not_requests_clearedTwin { now := _ }
  case entries =>
    intro deviceID tw htwin
    rcases hcases htwin with ⟨-, hafter⟩ | ⟨d, -, -, -, hafter⟩
    · exact ⟨tw, hafter, rfl, fun _ _ => rfl⟩
    · refine ⟨_, hafter, ?_, fun key hkey => getElem?_clearRequest hkey⟩
      unfold clearRequest
      split <;> rfl
  case untouched =>
    exact fun deviceID hclosed => twin_clear hclosed
  case foreign =>
    intro d hd tw req htwin hreq hnamed hother
    rcases hcases htwin with ⟨-, hafter⟩ | ⟨e, he, hid, -, hafter⟩
    · exact hafter
    · cases hsame he hd hid
      rw [hafter, clearRequest_of_not_inFlight]
      simp [inFlight, hreq, hnamed, hother]
  case version =>
    intro deviceID tw tw' htwin htw'
    rcases hcases htwin with ⟨-, hafter⟩ | ⟨d, -, -, -, hafter⟩
    · rw [hafter] at htw'
      cases htw'
      rw [if_pos rfl]
    · rw [hafter] at htw'
      cases htw'
      exact desiredVersion_clearRequest
  case number =>
    rw [eval_count_snd hdistinct hregistered, Nat.zero_add]
    apply countP_congr
    intro d hd
    obtain ⟨tw, htwin⟩ := isSome_iff_exists.mp (htwins d hd)
    rcases hcases htwin with ⟨hclosed, hafter⟩ | ⟨e, he, hid, hopen, hafter⟩
    · simp [withdraws, hclosed d hd rfl, hafter, htwin]
    · cases hsame he hd hid
      simp [withdraws, hopen, hafter, htwin, clearRequest_eq_iff]

def issuedRequest : Ota.Request := { updateID := "c-d", manifest := someManifest }

noncomputable def issuedTwin : Twin :=
  { deviceID := "d", desired := (∅ : ExtTreeMap String Any).insert otaTwinKey (twinEnv.request.toAny issuedRequest) }

noncomputable def issuedServer : Server :=
  { deviceServer with
    store := { deviceServer.store with state := { deviceServer.store.state with twins := [issuedTwin] } } }

def issuedCampaign : OTACampaign :=
  { id := "c", status := otaCampaignRunning, devices := [{ deviceID := "d", updateID := "c-d" }] }

theorem clearInFlightCampaignOTA_exact_issued :
    ClearsExactly twinEnv issuedServer issuedCampaign
      ((countInFlightCampaignOTA twinEnv .final 0 issuedCampaign.devices).eval (fun _ => {}) issuedServer) := by
  refine clearInFlightCampaignOTA_exact twinEnv .final (fun _ => {}) issuedServer issuedCampaign (fun _ => rfl) ?_ ?_ ?_
  · decide
  · intro d hd
    rw [mem_singleton.mp hd]
    rfl
  · intro d hd
    rw [mem_singleton.mp hd]
    rfl

end

section

variable {shared : Bool} {choice : Choice}

/-- The share of the devices that report a failure of this campaign is at least the threshold. -/
def Reached (env : TwinEnv) (s : Server) (c : OTACampaign) : Prop :=
  1 ≤ c.devices.countP (countsFailed env s) ∧
    (c.failureThresholdPercent : ℚ) / 100 ≤ (c.devices.countP (countsFailed env s) : ℚ) / c.devices.length

theorem aborts_iff_reached : (tallyOf env s c.devices).aborts c = true ↔ Reached env s c := by
  have hlength : (tallyOf env s c.devices).devices.length = c.devices.length := length_map _
  have hfailed : (tallyOf env s c.devices).failed = c.devices.countP (countsFailed env s) := rfl
  have hsome : c.devices.countP (countsFailed env s) ≤ c.devices.length := countP_le_length
  simp only [Tally.aborts, hlength, hfailed, Bool.and_eq_true, decide_eq_true_eq, Reached]
  generalize c.devices.countP (countsFailed env s) = f at hsome
  generalize c.devices.length = n at hsome
  by_cases hf : 1 ≤ f
  · have hn : 0 < n := by omega
    have hpercent : c.failureThresholdPercent ≤ ((f * 100 / n : Nat) : Int) ↔
        c.failureThresholdPercent * n ≤ f * 100 := by
      rw [Int.natCast_ediv, Int.le_ediv_iff_mul_le (by omega)]
      simp
    have hshare : (c.failureThresholdPercent : ℚ) / 100 ≤ (f : ℚ) / n ↔
        c.failureThresholdPercent * n ≤ f * 100 := by
      rw [div_le_div_iff₀ (by norm_num) (by exact_mod_cast hn)]
      exact_mod_cast Iff.rfl
    rw [hshare, ← hpercent]
    omega
  · exact iff_of_false (fun h => hf h.1.2) fun h => hf h.1

structure ThresholdExact (env : TwinEnv) (s : Server) (c : OTACampaign) (after : Server × OTACampaign) : Prop where
  aborted : after.2.status = otaCampaignAborted ↔ Reached env s c
  withdrawn : after.2.status = otaCampaignAborted → ∀ d ∈ after.2.devices, finished d.state = false →
    ∀ tw, after.1.store.twin d.deviceID = some tw → ¬ Requests env d.updateID tw
  spared : after.2.status ≠ otaCampaignAborted → ∀ deviceID, after.1.store.twin deviceID = s.store.twin deviceID

theorem not_requests_clearDevice (hid : dev.id = d.deviceID)
    (htwin : (clearDevice env choice s dev d.updateID).store.twin d.deviceID = some tw) :
    ¬ Requests env d.updateID tw := by
  rw [twin_clearDevice, if_pos hid] at htwin
  split at htwin
  · cases htwin
    exact not_requests_clearedTwin choice
  · split at htwin
    · cases htwin
      rintro ⟨req, hreq, -⟩
      simp [otaRequestFromDesired] at hreq
    · cases htwin

theorem not_requests_afterAbort {t : Tally} (hdistinct : (c.devices.map OTACampaignDevice.deviceID).Nodup)
    (hregistered : ∀ d ∈ c.devices, (s.store.device d.deviceID).isSome) (hd : d ∈ c.devices)
    (hopen : finished d.state = false)
    (htwin : (afterAbort env oracle pass s c t).store.twin d.deviceID = some tw) : ¬ Requests env d.updateID tw := by
  obtain ⟨dev, hdevice⟩ := isSome_iff_exists.mp (hregistered d hd)
  unfold afterAbort at htwin
  rw [twin_alertCampaign, twin_clear_of_mem hdistinct hd hopen hdevice] at htwin
  exact not_requests_clearDevice (id_of_device hdevice) htwin

theorem refreshed_of_saved (env : Env) (v : OTACampaign) (hstored : s.store.otaCampaign c.id = some v)
    (hsaved : (oracle { point := .refresh pass c.id c.status }).error = none) :
    ((refreshed env pass shared c).eval oracle s).2.status = c.status ∧
      ((refreshed env pass shared c).eval oracle s).2.devices = c.devices := by
  rw [eval_refreshed, otaCampaign_storeRefreshed env hstored, if_pos hsaved]
  exact ⟨stamped_status, stamped_devices⟩

theorem twin_refreshed (env : Env) (deviceID : String) :
    ((refreshed env pass shared c).eval oracle s).1.store.twin deviceID = s.store.twin deviceID := by
  rw [eval_refreshed]
  exact twin_storeRefreshed env

theorem twin_refresh_of_not_aborts (hactive : active c.status) (h : (tallyOf env s c.devices).aborts c = false)
    (deviceID : String) :
    ((refreshOTACampaign env pass shared c).eval oracle s).1.store.twin deviceID = s.store.twin deviceID := by
  have hnot : (tallyOf env s c.devices).aborts { c with devices := (tallyOf env s c.devices).devices } = false := h
  rw [eval_refresh hactive]
  simp only [hnot, Bool.false_eq_true, if_false]
  split
  · exact twin_refreshed env.toEnv deviceID
  · split
    · exact twin_refreshed env.toEnv deviceID
    · rfl

theorem refresh_of_aborts (hstored : s.store.otaCampaign c.id = some c) (hactive : active c.status)
    (haborts : (tallyOf env s c.devices).aborts c = true)
    (hsaved : (oracle { point := .refresh pass c.id otaCampaignAborted }).error = none) :
    let after := (refreshOTACampaign env pass shared c).eval oracle s
    let t := tallyOf env s c.devices
    after.2.status = otaCampaignAborted ∧ after.2.devices = t.devices ∧ ∀ deviceID, after.1.store.twin deviceID =
      (afterAbort env oracle pass s { c with devices := t.devices, status := otaCampaignAborted } t).store.twin deviceID := by
  have hpast : (tallyOf env s c.devices).aborts { c with devices := (tallyOf env s c.devices).devices } = true := haborts
  dsimp only
  rw [eval_refresh hactive]
  simp only [hpast, if_true]
  rw [← and_assoc]
  exact ⟨refreshed_of_saved env.toEnv c ((otaCampaign_afterAbort _ _).trans hstored) hsaved,
    twin_refreshed env.toEnv⟩

/-- The threshold is exact, unless it is reached and the store does not take the aborted campaign:
its error is dropped, and the campaign that is read back is the one from before. -/
theorem refresh_threshold_exact_iff (env : TwinEnv) (pass : Pass) (shared : Bool) (oracle : Label → Choice) (s : Server)
    (c : OTACampaign) (hstored : s.store.otaCampaign c.id = some c) (hactive : active c.status)
    (hdistinct : (c.devices.map OTACampaignDevice.deviceID).Nodup)
    (hregistered : ∀ d ∈ c.devices, (s.store.device d.deviceID).isSome) :
    ThresholdExact env s c ((refreshOTACampaign env pass shared c).eval oracle s) ↔
      (Reached env s c → (oracle { point := .refresh pass c.id otaCampaignAborted }).error = none) := by
  have hrunning : c.status ≠ otaCampaignAborted := by
    rcases hactive with h | h <;> rw [h] <;> decide
  by_cases hreached : Reached env s c
  · have haborts := aborts_iff_reached.mpr hreached
    rw [imp_iff_right hreached]
    constructor
    · intro h
      have hstatus := h.aborted.mpr hreached
      rw [status_refresh hstored hactive] at hstatus
      simp only [haborts, if_true] at hstatus
      by_contra herror
      rw [if_neg herror] at hstatus
      exact hrunning hstatus
    · intro hsaved
      obtain ⟨hstatus, hdevices, htwins⟩ := refresh_of_aborts hstored hactive haborts hsaved
      refine ⟨iff_of_true hstatus hreached, fun _ d hd hopen tw htwin => ?_, fun h => absurd hstatus h⟩
      rw [hdevices] at hd
      rw [htwins] at htwin
      refine not_requests_afterAbort ?_ ?_ hd hopen htwin
      · simpa [tallyOf, Function.comp_def] using hdistinct
      · intro x hx
        obtain ⟨y, hy, rfl⟩ := List.mem_map.mp hx
        rw [observed_deviceID]
        exact hregistered y hy
  · have hnot : (tallyOf env s c.devices).aborts c = false := by
      rw [← Bool.not_eq_true, aborts_iff_reached]
      exact hreached
    have hstatus : ((refreshOTACampaign env pass shared c).eval oracle s).2.status ≠ otaCampaignAborted := by
      rw [status_refresh hstored hactive]
      simp only [hnot, Bool.false_eq_true, if_false]
      split
      · split
        · decide
        · exact hrunning
      · exact hrunning
    refine iff_of_true ⟨iff_of_false hstatus hreached, fun h => absurd h hstatus, ?_⟩ fun h => absurd h hreached
    exact fun _ => twin_refresh_of_not_aborts hactive hnot

noncomputable def failedReportTwin : Twin :=
  { issuedTwin with
    reported := (∅ : ExtTreeMap String Any).insert otaTwinKey
      (twinEnv.status.toAny { updateID := "c-d", state := .failed }) }

noncomputable def failedReportServer : Server :=
  { deviceServer with
    store := { deviceServer.store with
      state := { deviceServer.store.state with twins := [failedReportTwin], otaCampaigns := [issuedCampaign] } } }

theorem reached_failed : Reached twinEnv failedReportServer issuedCampaign := by
  have hstatus : otaStatusFromReported twinEnv failedReportTwin.reported =
      some (some { updateID := "c-d", state := .failed }) := by
    simp [otaStatusFromReported, failedReportTwin, twinEnv.status.ofAny_toAny]
  have houtcome : outcome twinEnv failedReportServer { deviceID := "d", updateID := "c-d" } = some .failed := by
    have htwin : failedReportServer.store.twin "d" = some failedReportTwin := rfl
    simp [outcome, htwin, hstatus]
  have hcount : issuedCampaign.devices.countP (countsFailed twinEnv failedReportServer) = 1 := by
    simp [issuedCampaign, countsFailed, houtcome, failing]
  rw [Reached, hcount]
  simp [issuedCampaign]

theorem registered_issued : ∀ d ∈ issuedCampaign.devices, (failedReportServer.store.device d.deviceID).isSome := by
  intro d hd
  rw [mem_singleton.mp hd]
  rfl

theorem refresh_threshold_exact_failed :
    ThresholdExact twinEnv failedReportServer issuedCampaign
      ((refreshOTACampaign twinEnv .final false issuedCampaign).eval (fun _ => {}) failedReportServer) :=
  (refresh_threshold_exact_iff twinEnv .final false (fun _ => {}) failedReportServer issuedCampaign rfl (.inl rfl) (by decide)
    registered_issued).mpr fun _ => rfl

/-- The disk is full: the only device has failed, and the refresh returns a running campaign. -/
theorem refresh_threshold_missed_full :
    ¬ ThresholdExact twinEnv failedReportServer issuedCampaign
      ((refreshOTACampaign twinEnv .final false issuedCampaign).eval (fun _ => { error := some "no space left on device" })
        failedReportServer) := by
  intro h
  have hstatus := h.aborted.mpr reached_failed
  rw [status_refresh rfl (.inl rfl)] at hstatus
  simp [issuedCampaign, otaCampaignRunning, otaCampaignAborted] at hstatus

end

end Nodra.Server
