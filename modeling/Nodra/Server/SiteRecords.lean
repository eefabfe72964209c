import Nodra.Server.CampaignRefresh

/-! The records of the other sites, and what becomes of them when the requests of a campaign
are withdrawn. -/
namespace Nodra.Server
open Model Std Interleave Program List Option

variable {choice : Choice} {s s' s'' : Server} {siteID deviceID updateID : String} {dev : Device}
  {oracle : Label → Choice} {campaigns : List OTACampaign}

section

structure Records where
  sites : List Site
  devices : List Device
  twins : List Twin
  deployments : List Deployment

def recordsOf (st : State) : Records := ⟨st.sites, st.devices, st.twins, st.deployments⟩

def Records.elsewhere (siteID : String) (v : Records) : Records where
  sites := v.sites.filter fun site => site.id ≠ siteID
  devices := v.devices.filter fun dev => dev.siteID ≠ siteID
  twins := v.twins.filter fun tw => tw.siteID ≠ siteID
  deployments := v.deployments.filter fun dep => dep.siteID ≠ siteID

def elsewhere (siteID : String) (s : Server) : Records := (recordsOf s.store.state).elsewhere siteID

variable {env : Env} {fn shared : Twin → Twin}

theorem elsewhere_of_records (h : recordsOf s'.store.state = recordsOf s.store.state) :
    elsewhere siteID s' = elsewhere siteID s := by
  unfold elsewhere
  rw [h]

theorem twin_of_records (h : recordsOf s'.store.state = recordsOf s.store.state) (deviceID : String) :
    s'.store.twin deviceID = s.store.twin deviceID :=
  congrArg (List.find? fun tw : Twin => tw.deviceID = deviceID) (congrArg Records.twins h)

theorem records_addAlert (alert : Alert) :
    recordsOf ((Action.storeCall (.addAlert alert)).run env s).store.state = recordsOf s.store.state := by
  refine Store.state_call recordsOf fun m hplan => ?_
  obtain rfl : Store.Mutation.alertAdd alert = m := Option.some.inj hplan
  simp only [Store.Mutation.update, recordsOf]

theorem records_updateOTACampaign (env : Env) (choice : Choice) (s : Server) (id : String)
    (fn : OTACampaign → OTACampaign) :
    recordsOf (updateOTACampaign env choice s id fn).1.store.state = recordsOf s.store.state := by
  unfold updateOTACampaign
  split
  · rfl
  · split
    · rfl
    · refine Store.state_call recordsOf fun m hplan => ?_
      obtain ⟨v, -, rfl⟩ := map_eq_some_iff.mp hplan
      rfl

theorem records_storeRefreshed (shared : Bool) (c : OTACampaign) :
    recordsOf (storeRefreshed env choice s shared c).store.state = recordsOf s.store.state := by
  refine Eq.trans ?_ (records_updateOTACampaign env choice s c.id fun _ => stamped choice c)
  unfold storeRefreshed
  simp only
  split
  · unfold Store.touchDevices
    split <;> rfl
  · rfl

theorem state_updateTwin (hfn : ∀ v, v.deviceID = deviceID → (fn v).deviceID = deviceID) :
    (updateTwin env choice s deviceID fn shared).1.store.state =
      { s.store.state with
        twins :=
          match choice.error, s.store.twin deviceID with
          | none, _ => KeyedList.upsert Twin.deviceID (fn (currentTwin s deviceID)) s.store.state.twins
          | some _, none => s.store.state.twins
          | some _, some tw => KeyedList.upsert Twin.deviceID (shared tw) s.store.state.twins } := by
  unfold updateTwin
  cases choice.error with
  | some err =>
    simp only [Store.touchTwin]
    cases s.store.twin deviceID <;> rfl
  | none =>
    simp only [Action.run, Action.store, Store.call, Store.updateTwin_eq hfn]
    rfl

def TwinKept (siteID : String) (tw tw' : Twin) : Prop :=
  tw' = tw ∨ tw.siteID = siteID ∧ tw'.siteID = siteID

theorem elsewhere_eq_of_twins {twins : List Twin} (h : s'.store.state = { s.store.state with twins }) :
    elsewhere siteID s' = elsewhere siteID s ↔
      (twins.filter fun tw => tw.siteID ≠ siteID) =
        s.store.state.twins.filter fun tw => tw.siteID ≠ siteID := by
  simp [elsewhere, Records.elsewhere, recordsOf, h]

theorem elsewhere_updateTwin_iff (hfn : ∀ v, v.deviceID = deviceID → (fn v).deviceID = deviceID)
    (hshared : ∀ v, (shared v).deviceID = v.deviceID) :
    elsewhere siteID (updateTwin env choice s deviceID fn shared).1 = elsewhere siteID s ↔
      match s.store.twin deviceID with
      | some tw => TwinKept siteID tw (if choice.error.isNone then fn tw else shared tw)
      | none => choice.error = none → (fn { deviceID }).siteID = siteID := by
  rw [elsewhere_eq_of_twins (state_updateTwin hfn)]
  cases htwin : s.store.twin deviceID with
  | some tw =>
    have hid : tw.deviceID = deviceID := Store.deviceID_of_twin htwin
    have hiff {tw' : Twin} (htw' : tw'.deviceID = deviceID) :
        ((KeyedList.upsert Twin.deviceID tw' s.store.state.twins).filter fun tw => tw.siteID ≠ siteID) =
            s.store.state.twins.filter (fun tw => tw.siteID ≠ siteID) ↔ TwinKept siteID tw tw' := by
      rw [KeyedList.filter_upsert_of_some_iff Twin.deviceID (x := tw) (by rw [htw']; exact htwin)]
      simp [TwinKept]
    cases choice.error with
    | none =>
      simp only [currentTwin, htwin, getD_some]
      exact hiff (hfn tw hid)
    | some err => exact hiff ((hshared tw).trans hid)
  | none =>
    cases choice.error with
    | none =>
      have hid : (fn { deviceID }).deviceID = deviceID := hfn _ rfl
      simp only [currentTwin, htwin, getD_none, forall_const]
      rw [KeyedList.filter_upsert_of_none_iff Twin.deviceID (by rw [hid]; exact htwin)]
      simp
    | some err => simp

end

section

/-- Withdrawing a request shows at another site: its twin holds the request, or there is no twin
and one without a site is made. -/
def ClearShows (env : TwinEnv) (siteID : String) (s : Server) (choice : Choice) (deviceID updateID : String) :
    Prop :=
  match s.store.twin deviceID with
  | some tw => tw.siteID ≠ siteID ∧ inFlight env updateID tw
  | none => choice.error = none ∧ siteID ≠ ""

def idleTwins (siteID : String) (s : Server) : Nat :=
  (elsewhere siteID s).twins.countP fun tw => tw.desired[otaTwinKey]?.isNone

structure Alike (env : TwinEnv) (siteID : String) (s s' : Server) : Prop where
  records : elsewhere siteID s' = elsewhere siteID s
  shows : ClearShows env siteID s' = ClearShows env siteID s

def Shows (env : TwinEnv) (siteID : String) (shows : Prop) (s s' : Server) : Prop :=
  shows ∧ idleTwins siteID s < idleTwins siteID s' ∨ ¬ shows ∧ Alike env siteID s s'

variable {env : TwinEnv} {P Q R : Prop}

theorem Alike.refl (env : TwinEnv) (siteID : String) (s : Server) : Alike env siteID s s :=
  ⟨rfl, rfl⟩

theorem Alike.trans (h : Alike env siteID s s') (h' : Alike env siteID s' s'') : Alike env siteID s s'' :=
  ⟨h'.records.trans h.records, h'.shows.trans h.shows⟩

theorem Alike.of_records (h : recordsOf s'.store.state = recordsOf s.store.state) :
    Alike env siteID s s' := by
  refine ⟨elsewhere_of_records h, ?_⟩
  funext choice deviceID updateID
  unfold ClearShows
  rw [twin_of_records h]

theorem Alike.idle (h : Alike env siteID s s') : idleTwins siteID s' = idleTwins siteID s := by
  unfold idleTwins
  rw [h.records]

theorem Alike.none (h : Alike env siteID s s') (hnone : ¬ P) : Shows env siteID P s s' := .inr ⟨hnone, h⟩

theorem Shows.idle_le (h : Shows env siteID P s s') : idleTwins siteID s ≤ idleTwins siteID s' := by
  rcases h with ⟨-, hless⟩ | ⟨-, halike⟩
  · exact hless.le
  · exact halike.idle.ge

theorem Shows.trans (h : Shows env siteID P s s') (h' : Shows env siteID Q s' s'')
    (hiff : Alike env siteID s s' → (Q ↔ R)) : Shows env siteID (P ∨ R) s s'' := by
  rcases h with ⟨hshows, hless⟩ | ⟨hnone, halike⟩
  · exact .inl ⟨.inl hshows, hless.trans_le h'.idle_le⟩
  · rcases h' with ⟨hshows, hless⟩ | ⟨hnone', halike'⟩
    · exact .inl ⟨.inr ((hiff halike).mp hshows), halike.idle ▸ hless⟩
    · exact .inr ⟨not_or.mpr ⟨hnone, (hiff halike).not.mp hnone'⟩, halike.trans halike'⟩

theorem Shows.congr (h : Shows env siteID P s s') (hiff : P ↔ Q) : Shows env siteID Q s s' := by
  unfold Shows
  rwa [← hiff]

theorem Shows.records_iff (h : Shows env siteID P s s') :
    elsewhere siteID s' = elsewhere siteID s ↔ ¬ P := by
  rcases h with ⟨hshows, hless⟩ | ⟨hnone, halike⟩
  · refine iff_of_false (fun hsame => ?_) (not_not_intro hshows)
    unfold idleTwins at hless
    rw [hsame] at hless
    exact lt_irrefl _ hless
  · exact iff_of_true halike.records hnone

def clearedTwin (env : TwinEnv) (choice : Choice) (updateID : String) (tw : Twin) : Twin :=
  if choice.error.isNone then clearRequest env updateID choice.now tw
  else if inFlight env updateID tw then { tw with desired := tw.desired.erase otaTwinKey } else tw

variable {tw : Twin}

theorem clearedTwin_of_not_inFlight (h : inFlight env updateID tw = false) :
    clearedTwin env choice updateID tw = tw := by
  simp [clearedTwin, clearRequest, h]

@[simp] theorem clearedTwin_siteID : (clearedTwin env choice updateID tw).siteID = tw.siteID := by
  unfold clearedTwin clearRequest
  split <;> split <;> rfl

@[simp] theorem clearedTwin_deviceID : (clearedTwin env choice updateID tw).deviceID = tw.deviceID := by
  unfold clearedTwin clearRequest
  split <;> split <;> rfl

theorem getElem?_clearedTwin (h : inFlight env updateID tw) :
    (clearedTwin env choice updateID tw).desired[otaTwinKey]? = none := by
  unfold clearedTwin clearRequest
  rw [if_pos h, if_pos h]
  split <;> simp

theorem isSome_of_inFlight (h : inFlight env updateID tw) : tw.desired[otaTwinKey]?.isSome := by
  unfold inFlight otaRequestFromDesired at h
  cases hdesired : tw.desired[otaTwinKey]? with
  | none => simp [hdesired] at h
  | some v => rfl

theorem state_clearDevice :
    (clearDevice env choice s dev updateID).store.state =
      { s.store.state with
        twins :=
          match s.store.twin dev.id with
          | some tw =>
            KeyedList.upsert Twin.deviceID (clearedTwin env choice updateID tw) s.store.state.twins
          | none =>
            if choice.error.isNone then
              KeyedList.upsert Twin.deviceID { deviceID := dev.id } s.store.state.twins
            else s.store.state.twins } := by
  have hfn (v : Twin) (hv : v.deviceID = dev.id) :
      (clearRequest env updateID choice.now v).deviceID = dev.id := by
    unfold clearRequest
    split <;> exact hv
  have hblank : clearRequest env updateID choice.now { deviceID := dev.id } = { deviceID := dev.id } := by
    simp [clearRequest, inFlight, otaRequestFromDesired]
  unfold clearDevice
  rw [state_updateTwin hfn]
  unfold clearedTwin currentTwin
  cases s.store.twin dev.id <;> cases choice.error <;> simp [hblank]

theorem twin_clearDevice (other : String) :
    (clearDevice env choice s dev updateID).store.twin other =
      if dev.id = other then
        match s.store.twin dev.id with
        | some tw => some (clearedTwin env choice updateID tw)
        | none => if choice.error.isNone then some { deviceID := dev.id } else none
      else s.store.twin other := by
  have hfind (v : Twin) : (KeyedList.upsert Twin.deviceID v s.store.state.twins).find?
      (fun tw => tw.deviceID = other) = if v.deviceID = other then some v else s.store.twin other :=
    KeyedList.find?_upsert Twin.deviceID v other s.store.state.twins
  refine (congrArg (fun st : State => st.twins.find? fun v : Twin => v.deviceID = other)
    state_clearDevice).trans ?_
  cases htwin : s.store.twin dev.id with
  | some tw => simp only [hfind, clearedTwin_deviceID, Store.deviceID_of_twin htwin]
  | none =>
    cases choice.error with
    | none => simp only [isNone_none, if_true, hfind]
    | some err =>
      simp only [isNone_some, Bool.false_eq_true, if_false]
      split
      · next heq => exact heq ▸ htwin
      · rfl

theorem find?_clearedTwin (htwin : s.store.twin dev.id = some tw) : s.store.state.twins.find?
    (fun v => v.deviceID = (clearedTwin env choice updateID tw).deviceID) = some tw := by
  rw [clearedTwin_deviceID, Store.deviceID_of_twin htwin]
  exact htwin

theorem idleTwins_clearDevice (h : ClearShows env siteID s choice dev.id updateID) :
    idleTwins siteID (clearDevice env choice s dev updateID) = idleTwins siteID s + 1 := by
  have hcount (s : Server) : idleTwins siteID s =
      s.store.state.twins.countP fun tw => tw.desired[otaTwinKey]?.isNone && tw.siteID ≠ siteID :=
    countP_filter
  rw [hcount, hcount, state_clearDevice]
  unfold ClearShows at h
  cases htwin : s.store.twin dev.id with
  | some tw =>
    simp only [htwin] at h ⊢
    obtain ⟨hsite, hflight⟩ := h
    have hupsert := KeyedList.countP_upsert_of_some Twin.deviceID
      (p := fun tw => tw.desired[otaTwinKey]?.isNone && tw.siteID ≠ siteID)
      (@find?_clearedTwin choice s updateID dev env tw htwin)
    have hsome := isNone_eq_false_iff.mpr (isSome_of_inFlight hflight)
    simpa [hsome, getElem?_clearedTwin hflight, hsite] using hupsert
  | none =>
    simp only [htwin] at h ⊢
    obtain ⟨herror, hsite⟩ := h
    rw [herror, KeyedList.upsert_of_none Twin.deviceID (v := { deviceID := dev.id }) htwin]
    simp [hsite.symm]

theorem shows_clearDevice :
    Shows env siteID (ClearShows env siteID s choice dev.id updateID) s
      (clearDevice env choice s dev updateID) := by
  by_cases h : ClearShows env siteID s choice dev.id updateID
  · exact .inl ⟨h, by rw [idleTwins_clearDevice h]; exact Nat.lt_succ_self _⟩
  refine .inr ⟨h, ?_, ?_⟩
  · rw [elsewhere_eq_of_twins state_clearDevice]
    unfold ClearShows at h
    cases htwin : s.store.twin dev.id with
    | some tw =>
      simp only [htwin] at h ⊢
      rw [KeyedList.filter_upsert_of_some_iff Twin.deviceID (find?_clearedTwin htwin)]
      cases hflight : inFlight env updateID tw with
      | false => exact .inl (clearedTwin_of_not_inFlight hflight)
      | true =>
        have hsite : tw.siteID = siteID := by simpa [hflight] using h
        exact .inr (by simp [hsite])
    | none =>
      simp only [htwin] at h ⊢
      split
      · next herror =>
        have hsite : siteID = "" := by simpa [isNone_iff_eq_none.mp herror] using h
        rw [KeyedList.filter_upsert_of_none_iff Twin.deviceID (v := { deviceID := dev.id }) htwin]
        simp [hsite]
      · rfl
  · funext choice' deviceID updateID'
    unfold ClearShows at h ⊢
    rw [twin_clearDevice]
    by_cases hid : dev.id = deviceID
    · subst hid
      rw [if_pos rfl]
      cases htwin : s.store.twin dev.id with
      | some tw =>
        simp only [htwin] at h ⊢
        cases hflight : inFlight env updateID tw with
        | false => rw [clearedTwin_of_not_inFlight hflight]
        | true =>
          have hsite : tw.siteID = siteID := by simpa [hflight] using h
          simp [hsite]
      | none =>
        simp only [htwin] at h ⊢
        cases herror : choice.error with
        | some err => rfl
        | none =>
          have hsite : siteID = "" := by simpa [herror] using h
          simp [hsite]
    · rw [if_neg hid]

def ClearsElsewhere (shows : Choice → String → String → Prop) (s : Server) (oracle : Label → Choice)
    (pass : Pass) (devices : List OTACampaignDevice) : Prop :=
  ∃ d ∈ devices, finished d.state = false ∧ (s.store.device d.deviceID).isSome ∧
    shows (oracle { point := .clear pass d.deviceID }) d.deviceID d.updateID

theorem clearsElsewhere_cons {shows : Choice → String → String → Prop}
    {pass : Pass} {d : OTACampaignDevice} {rest : List OTACampaignDevice} :
    ClearsElsewhere shows s oracle pass (d :: rest) ↔
      (finished d.state = false ∧ (s.store.device d.deviceID).isSome ∧
        shows (oracle { point := .clear pass d.deviceID }) d.deviceID d.updateID) ∨
      ClearsElsewhere shows s oracle pass rest := by
  simp [ClearsElsewhere]

theorem clearsElsewhere_congr (h : s'.store.state.devices = s.store.state.devices)
    {shows : Choice → String → String → Prop} {pass : Pass}
    {devices : List OTACampaignDevice} :
    ClearsElsewhere shows s' oracle pass devices ↔ ClearsElsewhere shows s oracle pass devices := by
  unfold ClearsElsewhere Store.device
  rw [h]

theorem shows_clear {pass : Pass} {devices : List OTACampaignDevice} :
    Shows env siteID (ClearsElsewhere (ClearShows env siteID s) s oracle pass devices) s
      ((clearInFlightCampaignOTA env pass devices).eval oracle s).1 := by
  induction devices generalizing s with
  | nil => exact (Alike.refl env siteID s).none (by simp [ClearsElsewhere])
  | cons d rest ih =>
    refine Shows.congr ?_ clearsElsewhere_cons.symm
    unfold clearInFlightCampaignOTA
    cases hstate : finished d.state with
    | true =>
      simp only [if_true, Bool.true_eq_false, false_and, false_or]
      exact ih
    | false =>
      simp only [Bool.false_eq_true, if_false, true_and, eval_bind, eval_lookup]
      cases hdevice : s.store.device d.deviceID with
      | none =>
        simp only [isSome_none, Bool.false_eq_true, false_and, false_or]
        exact ih
      | some dev =>
        have hid : dev.id = d.deviceID := by simpa using find?_some hdevice
        simp only [isSome_some, true_and, eval_bind, eval_write]
        rw [← hid]
        refine shows_clearDevice.trans ih fun halike => ?_
        rw [halike.shows]
        exact clearsElsewhere_congr (devices_updateTwin _ _ _)

end

section

def tallyWith (outcome : OTACampaignDevice → Option Ota.State) (devices : List OTACampaignDevice) :
    Tally where
  devices := devices.map fun d => ((outcome d).map fun state => { d with state }).getD d
  changed := devices.any fun d => (outcome d).any fun state => d.state ≠ state
  failed := devices.countP fun d => (outcome d).any failing
  committed := devices.countP fun d => outcome d = some .committed

def AbortsElsewhere (shows : Choice → String → String → Prop) (s : Server)
    (outcome : OTACampaignDevice → Option Ota.State) (oracle : Label → Choice) (pass : Pass)
    (c : OTACampaign) : Prop :=
  (tallyWith outcome c.devices).aborts c ∧
    ClearsElsewhere shows s oracle pass (tallyWith outcome c.devices).devices

def SyncsElsewhere (shows : Choice → String → String → Prop) (s : Server)
    (outcome : OTACampaignDevice → Option Ota.State) (oracle : Label → Choice) : List OTACampaign → Prop
  | [] => False
  | c :: rest =>
    AbortsElsewhere shows s outcome
        (fun label => oracle { label with held := (c :: rest).map OTACampaign.id }) (.device c.id) c ∨
      SyncsElsewhere shows s outcome oracle rest

variable {env : TwinEnv} {pass : Pass} {shared : Bool} {c : OTACampaign}

theorem tallyOf_eq (env : TwinEnv) (s : Server) : tallyOf env s = tallyWith (outcome env s) := by
  funext devices
  have hobserved : observed env s =
      fun d => ((outcome env s d).map fun state => { d with state }).getD d := by
    funext d
    unfold observed
    cases outcome env s d <;> rfl
  simp only [tallyOf, tallyWith, hobserved]
  rfl

theorem syncsElsewhere_congr (hdevices : s'.store.state.devices = s.store.state.devices)
    {shows : Choice → String → String → Prop} {outcome : OTACampaignDevice → Option Ota.State} :
    SyncsElsewhere shows s' outcome oracle campaigns ↔ SyncsElsewhere shows s outcome oracle campaigns := by
  induction campaigns with
  | nil => rfl
  | cons c rest ih =>
    unfold SyncsElsewhere AbortsElsewhere
    rw [clearsElsewhere_congr hdevices, ih]

theorem records_afterAbort {t : Tally} :
    recordsOf (afterAbort env oracle pass s c t).store.state =
      recordsOf ((clearInFlightCampaignOTA env pass c.devices).eval oracle s).1.store.state := by
  unfold afterAbort alertCampaign
  split
  · rfl
  · exact records_addAlert _

theorem records_refresh (hactive : active c.status) :
    recordsOf ((refreshOTACampaign env pass shared c).eval oracle s).1.store.state =
      recordsOf (if (tallyOf env s c.devices).aborts c then
        ((clearInFlightCampaignOTA env pass (tallyOf env s c.devices).devices).eval oracle s).1
        else s).store.state := by
  have haborts : (tallyOf env s c.devices).aborts { c with devices := (tallyOf env s c.devices).devices } =
      (tallyOf env s c.devices).aborts c := rfl
  rw [eval_refresh hactive]
  simp only [eval_refreshed, haborts]
  split
  · rw [records_storeRefreshed, records_afterAbort]
  · split
    · exact records_storeRefreshed _ _
    · split
      · exact records_storeRefreshed _ _
      · rfl

theorem shows_refresh (hactive : active c.status) :
    Shows env siteID (AbortsElsewhere (ClearShows env siteID s) s (outcome env s) oracle pass c) s
      ((refreshOTACampaign env pass shared c).eval oracle s).1 := by
  have hrecords : recordsOf ((refreshOTACampaign env pass shared c).eval oracle s).1.store.state = _ :=
    records_refresh hactive
  unfold AbortsElsewhere
  rw [← tallyOf_eq]
  split at hrecords
  · next haborts =>
    have hclear := @shows_clear s siteID oracle env pass (tallyOf env s c.devices).devices
    have hshows := hclear.trans ((Alike.of_records hrecords).none not_false) fun _ => Iff.rfl
    exact hshows.congr (by simp [haborts])
  · next haborts => exact (Alike.of_records hrecords).none fun h => haborts h.1

theorem devices_refresh (hactive : active c.status) :
    ((refreshOTACampaign env pass shared c).eval oracle s).1.store.state.devices =
      s.store.state.devices := by
  refine (congrArg Records.devices (records_refresh hactive)).trans ?_
  split
  · exact devices_clear
  · rfl

theorem storedOta_refresh (hactive : active c.status) (deviceID : String) :
    storedOta ((refreshOTACampaign env pass shared c).eval oracle s).1 deviceID = storedOta s deviceID := by
  refine (storedOta_of_twin (twin_of_records (records_refresh hactive) deviceID)).trans ?_
  split
  · exact storedOta_clear deviceID
  · rfl

theorem shows_sync (hactive : ∀ c ∈ campaigns, active c.status) :
    Shows env siteID (SyncsElsewhere (ClearShows env siteID s) s (outcome env s) oracle campaigns) s
      ((syncCampaigns env campaigns).eval oracle s).1 := by
  induction campaigns generalizing s with
  | nil => exact (Alike.refl env siteID s).none not_false
  | cons c rest ih =>
    have hc := hactive c mem_cons_self
    simp only [syncCampaigns, eval_bind, eval_holding]
    refine (shows_refresh hc).trans (ih fun c hc => hactive c (mem_cons_of_mem _ hc)) ?_
    intro halike
    rw [outcome_congr (storedOta_refresh hc), halike.shows, syncsElsewhere_congr (devices_refresh hc)]

end

section

/-- The twins of a device at the other sites.  Once it has one at the site itself, no request
that is withdrawn makes another. -/
def twinsElsewhere (siteID deviceID : String) (s : Server) : Nat :=
  (elsewhere siteID s).twins.countP fun tw => tw.deviceID = deviceID

def KeepsTwins (siteID deviceID : String) (s s' : Server) : Prop :=
  (s.store.twin deviceID).isSome → (s'.store.twin deviceID).isSome ∧
    twinsElsewhere siteID deviceID s' = twinsElsewhere siteID deviceID s

variable {env : TwinEnv}

theorem KeepsTwins.refl (siteID deviceID : String) (s : Server) : KeepsTwins siteID deviceID s s :=
  fun h => ⟨h, rfl⟩

theorem KeepsTwins.trans (h : KeepsTwins siteID deviceID s s') (h' : KeepsTwins siteID deviceID s' s'') :
    KeepsTwins siteID deviceID s s'' := by
  intro hthere
  obtain ⟨hthere', hcount⟩ := h hthere
  obtain ⟨hthere'', hcount'⟩ := h' hthere'
  exact ⟨hthere'', hcount'.trans hcount⟩

theorem KeepsTwins.of_records (h : recordsOf s'.store.state = recordsOf s.store.state) :
    KeepsTwins siteID deviceID s s' := by
  intro hthere
  refine ⟨by rwa [twin_of_records h], ?_⟩
  unfold twinsElsewhere
  rw [elsewhere_of_records h]

theorem twinsElsewhere_eq (siteID deviceID : String) (s : Server) :
    twinsElsewhere siteID deviceID s =
      s.store.state.twins.countP fun tw => tw.deviceID = deviceID && tw.siteID ≠ siteID :=
  countP_filter

theorem keepsTwins_clearDevice :
    KeepsTwins siteID deviceID s (clearDevice env choice s dev updateID) := by
  intro hthere
  constructor
  · rw [twin_clearDevice]
    split
    · next hid =>
      rw [← hid] at hthere
      obtain ⟨tw, htw⟩ := isSome_iff_exists.mp hthere
      rw [htw]
      rfl
    · exact hthere
  · rw [twinsElsewhere_eq, twinsElsewhere_eq, state_clearDevice]
    cases htwin : s.store.twin dev.id with
    | some tw =>
      have hupsert := KeyedList.countP_upsert_of_some Twin.deviceID
        (p := fun tw => tw.deviceID = deviceID && tw.siteID ≠ siteID)
        (@find?_clearedTwin choice s updateID dev env tw htwin)
      simpa using hupsert
    | none =>
      have hne : dev.id ≠ deviceID := by
        rintro rfl
        rw [htwin] at hthere
        cases hthere
      simp only
      split
      · rw [KeyedList.upsert_of_none Twin.deviceID (v := { deviceID := dev.id }) htwin]
        simp [hne]
      · rfl

theorem keepsTwins_sync (hactive : ∀ c ∈ campaigns, active c.status) :
    KeepsTwins siteID deviceID s ((syncCampaigns env campaigns).eval oracle s).1 := by
  induction campaigns generalizing s with
  | nil => exact .refl siteID deviceID s
  | cons c rest ih =>
    simp only [syncCampaigns, eval_bind, eval_holding]
    refine .trans ?_ (ih fun c hc => hactive c (mem_cons_of_mem _ hc))
    refine .trans ?_ (.of_records (records_refresh (hactive c mem_cons_self)))
    split
    · exact clear_induction (.refl siteID deviceID) (fun _ _ _ => .trans)
        fun _ _ _ _ _ _ _ => keepsTwins_clearDevice
    · exact .refl siteID deviceID s

end

end Nodra.Server
