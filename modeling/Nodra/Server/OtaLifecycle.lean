import Nodra.Server.Deliveries
import Nodra.Server.Twins

/-! What the handlers for twins make of the lifecycle of an update. -/
namespace Nodra.Server
open Model Std Option

variable {env : TwinEnv} {arrival update : Choice} {s : Server} {deviceID : String} {r : StatusRequest}

section

variable {alert choice : Choice} {dev : Device} {siteID : String} {reply : TwinReply} {status : Ota.Status}

theorem agentDevice_ok (h : agentDevice s deviceID siteID = .ok dev) :
    dev.id = deviceID ∧ s.store.device deviceID = some dev ∧ dev.siteID = siteID := by
  unfold agentDevice at h
  split at h
  · cases h
  · next found hdevice =>
    split at h
    · cases h
    · next hsite =>
      cases h
      have hid := List.find?_some hdevice
      exact ⟨by simpa using hid, hdevice, not_not.mp hsite⟩

theorem checked_ok (h : r.checked env dev = .ok status) :
    status = { r.status with deviceID := dev.id } := by
  unfold StatusRequest.checked at h
  simp only at h
  split at h <;> cases h
  rfl

theorem refusal_code {r : Credentials} (h : refusal env.toEnv choice s r siteID = some reply) :
    reply.code ≠ 200 := by
  unfold refusal at h
  split at h
  · cases h
    simp
  · split at h <;> cases h
    simp

theorem agentDevice_error (h : agentDevice s deviceID siteID = .error reply) : reply.code ≠ 200 := by
  unfold agentDevice at h
  split at h
  · cases h
    simp
  · split at h <;> cases h
    simp

theorem checked_error (h : r.checked env dev = .error reply) :
    reply.code ≠ 200 := by
  unfold StatusRequest.checked at h
  simp only at h
  split at h <;> cases h
  simp

theorem recordStatus_error (h : (recordStatus env choice s dev siteID status).2 = .error reply) :
    reply.code ≠ 200 := by
  unfold recordStatus at h
  split at h
  · cases h
    simp
  · simp only at h
    split at h <;> cases h
    simp

theorem recordStatus_ok {tw : Twin} (h : (recordStatus env choice s dev siteID status).2 = .ok tw) :
    transitionError env (currentTwin s dev.id) status = none ∧ choice.error = none := by
  unfold recordStatus at h
  split at h
  · cases h
  · next hnone =>
    simp only [updateTwin_snd] at h
    split at h
    · cases h
    · next herror => exact ⟨hnone, herror⟩

theorem storedOta_of_accepted (h : (agentOTAStatus env arrival update alert s r).2.code = 200) :
    storedOta (agentOTAStatus env arrival update alert s r).1 r.deviceID =
      some (env.status.toAny { r.status with deviceID := r.deviceID }) := by
  revert h
  fun_cases agentOTAStatus env arrival update alert s r <;> intro h
  · next hrefused => exact absurd h (refusal_code hrefused)
  · next hdevice => exact absurd h (agentDevice_error hdevice)
  · next hchecked => exact absurd h (checked_error hchecked)
  · next hrecorded => exact absurd h (recordStatus_error hrecorded)
  · next dev hdevice status hchecked recorded tw hrecorded =>
    obtain ⟨htransition, herror⟩ := recordStatus_ok hrecorded
    obtain ⟨hid, -⟩ := agentDevice_ok hdevice
    rw [storedOta_alertStatus, storedOta_recordStatus htransition, if_pos ⟨hid, by simp [herror]⟩,
      checked_ok hchecked, hid]

theorem transitionError_of_stored {v : Any} {prev : Ota.Status} (h : storedOta s deviceID = some v)
    (hv : env.status.ofAny v = some prev) :
    transitionError env (currentTwin s deviceID) status =
      Ota.validateTransition env.ota prev.state status.state := by
  simp only [transitionError, otaStatusFromReported, getElem?_currentTwin, h, map_some, hv]

theorem agentOTAStatus_of_objection {err : String}
    (hrefusal : refusal env.toEnv arrival s r.toCredentials r.siteID = none)
    (hdevice : agentDevice s r.deviceID r.siteID = .ok dev) (hchecked : r.checked env dev = .ok status)
    (htransition : transitionError env (currentTwin s dev.id) status = some err) :
    (agentOTAStatus env arrival update alert s r).2.code = 409 ∧
      storedOta (agentOTAStatus env arrival update alert s r).1 deviceID = storedOta s deviceID := by
  obtain ⟨hreply, hstored⟩ :
      (recordStatus env update s dev r.siteID status).2 = .error { code := 409, error := err } ∧
        storedOta (recordStatus env update s dev r.siteID status).1 deviceID = storedOta s deviceID :=
    recordStatus_of_objection htransition
  simp only [agentOTAStatus, hrefusal, hdevice, hchecked, hreply]
  exact ⟨trivial, hstored⟩

end

section

inductive Accepted (env : TwinEnv) (deviceID : String) : Server → List Ota.Status → Server → Prop where
  | nil (s : Server) : Accepted env deviceID s [] s
  | report {s s' : Server} {history : List Ota.Status} (h : Accepted env deviceID s history s')
      (arrival update alert : Choice) (r : StatusRequest) (hdevice : r.deviceID = deviceID)
      (haccepted : (agentOTAStatus env arrival update alert s' r).2.code = 200) :
      Accepted env deviceID s (history ++ [r.status]) (agentOTAStatus env arrival update alert s' r).1

theorem Accepted.storedOta_last {s' : Server} {history : List Ota.Status} {last : Ota.Status}
    (h : Accepted env deviceID s (history ++ [last]) s') :
    storedOta s' deviceID = some (env.status.toAny { last with deviceID }) := by
  generalize hreports : history ++ [last] = reports at h
  cases h with
  | nil => simp at hreports
  | report h arrival update alert r hdevice haccepted =>
    obtain ⟨-, hlast⟩ := List.append_inj' hreports rfl
    cases hlast
    subst hdevice
    exact storedOta_of_accepted haccepted

/-- Another update for a device, after the one before has ended: an admin requests it and
the site of the device reports that it begins. -/
structure NextUpdate (env : TwinEnv) (deviceID : String) (last : Ota.Status) (s : Server)
    (arrival update : Choice) (admin : DesiredRequest Ota.Request) (r : StatusRequest) : Prop where
  ended : last.state.terminal
  device : admin.deviceID = deviceID ∧ r.deviceID = deviceID
  different : admin.desired.updateID ≠ last.updateID
  requested : (otaDeviceRequest env arrival update s admin).2.code = 200
  reported : r.status.updateID = admin.desired.updateID
  begins : r.status.state = .pending ∨ r.status.state = .downloading
  valid : ({ r.status with deviceID } : Ota.Status).validate env.ota = none
  known : agentSite env.toEnv (otaDeviceRequest env arrival update s admin).1 r.toCredentials
    r.siteID ≠ none
  owned : ∃ dev, (otaDeviceRequest env arrival update s admin).1.store.device deviceID = some dev ∧
    dev.siteID = r.siteID

variable {last : Ota.Status} {arrival' : Choice} {admin : DesiredRequest Ota.Request}

theorem NextUpdate.refusal_eq_none (h : NextUpdate env deviceID last s arrival update admin r)
    (hdecodes : arrival'.error = none) :
    refusal env.toEnv arrival' (otaDeviceRequest env arrival update s admin).1 r.toCredentials
      r.siteID = none := by
  simp only [refusal, hdecodes, isNone_iff_eq_none, h.known, if_false]

theorem NextUpdate.checked (h : NextUpdate env deviceID last s arrival update admin r) :
    ∃ dev, agentDevice (otaDeviceRequest env arrival update s admin).1 r.deviceID r.siteID = .ok dev ∧
      r.checked env dev = .ok { r.status with deviceID := dev.id } := by
  obtain ⟨dev, hdevice, hsite⟩ := h.owned
  have hfound : agentDevice (otaDeviceRequest env arrival update s admin).1 r.deviceID r.siteID =
      .ok dev := by
    simp only [agentDevice, h.device.2, hdevice, hsite, ne_eq, not_true_eq_false, if_false]
  refine ⟨dev, hfound, ?_⟩
  have hid : dev.id = deviceID := (agentDevice_ok hfound).1.trans h.device.2
  simp only [StatusRequest.checked, hid, h.valid]

theorem storedOta_otaDeviceRequest (env : TwinEnv) (arrival update : Choice) (s : Server)
    (admin : DesiredRequest Ota.Request) (deviceID : String) :
    storedOta (otaDeviceRequest env arrival update s admin).1 deviceID = storedOta s deviceID := by
  rw [otaDeviceRequest_fst]
  split
  · rfl
  · exact storedOta_setDeviceOTADesired _

theorem NextUpdate.refused (h : NextUpdate env deviceID last s arrival update admin r)
    (hstored : storedOta s deviceID = some (env.status.toAny { last with deviceID }))
    (update' alert' : Choice) (hdecodes : arrival'.error = none) :
    (agentOTAStatus env arrival' update' alert' (otaDeviceRequest env arrival update s admin).1
        r).2.code = 409 ∧
      storedOta (agentOTAStatus env arrival' update' alert'
        (otaDeviceRequest env arrival update s admin).1 r).1 deviceID =
          some (env.status.toAny { last with deviceID }) := by
  rw [← storedOta_otaDeviceRequest env arrival update s admin] at hstored
  have hrefusal := h.refusal_eq_none hdecodes
  obtain ⟨dev, hdevice, hchecked⟩ := h.checked
  have hid : dev.id = deviceID := (agentDevice_ok hdevice).1.trans h.device.2
  have hnext : r.status.state.terminal = false := by
    rcases h.begins with hstate | hstate <;> rw [hstate] <;> rfl
  -- the stored state is compared with the new one, whichever update it belongs to
  have hobjects : (transitionError env
      (currentTwin (otaDeviceRequest env arrival update s admin).1 dev.id)
      { r.status with deviceID := dev.id }).isSome := by
    rw [hid, transitionError_of_stored hstored (env.status.ofAny_toAny _)]
    exact Ota.validateTransition_of_terminal env.ota h.ended hnext
  obtain ⟨err, herr⟩ := isSome_iff_exists.mp hobjects
  rw [← hstored]
  exact agentOTAStatus_of_objection hrefusal hdevice hchecked herr

/-- No second update: after a report of a terminal state, the first report of any other
update is answered 409 and the twin keeps the old one. -/
theorem next_update_refused (env : TwinEnv) (deviceID : String) (s s' : Server)
    (history : List Ota.Status) (last : Ota.Status)
    (hhistory : Accepted env deviceID s (history ++ [last]) s') (arrival update : Choice)
    (admin : DesiredRequest Ota.Request) (r : StatusRequest)
    (h : NextUpdate env deviceID last s' arrival update admin r) (arrival' update' alert' : Choice)
    (hdecodes : arrival'.error = none) :
    (agentOTAStatus env arrival' update' alert' (otaDeviceRequest env arrival update s' admin).1
        r).2.code = 409 ∧
      storedOta (agentOTAStatus env arrival' update' alert'
        (otaDeviceRequest env arrival update s' admin).1 r).1 deviceID =
          some (env.status.toAny { last with deviceID }) :=
  h.refused hhistory.storedOta_last update' alert' hdecodes

end

noncomputable def AnyCodec.ofCountable (α : Type) [Countable α] : AnyCodec α :=
  let number := Classical.choose (exists_injective_nat α)
  let text (x : α) : Any := ⟨String.ofList (List.replicate (number x) '1')⟩
  { toAny := text
    ofAny := Function.partialInv text
    ofAny_toAny := by
      refine Function.partialInv_left fun x y h => Classical.choose_spec (exists_injective_nat α) ?_
      have hlength := congrArg (fun v : Any => v.text.length) h
      simpa [text] using hlength }

noncomputable def twinEnv : TwinEnv where
  toEnv := plainEnv
  ota := { quote := fun text => "\"" ++ text ++ "\"", parseDuration := fun _ => .ok 0 }
  status := .ofCountable _
  request := .ofCountable _

def someDevice : Device := { id := "d", siteID := "s" }

def deviceServer : Server :=
  { someServer with
    store := { someStore with
      state := { someStore.state with devices := [someDevice] } } }

def statusRequest (updateID : String) (state : Ota.State) : StatusRequest :=
  { bearer := "token", siteID := "s", deviceID := "d", status := { updateID, state } }

def someManifest : Ota.Manifest where
  artifactID := "bsp"
  version := "2"
  type := .bsp
  architecture := "arm64"
  sizeBytes := 1
  sha256 := String.ofList (List.replicate 64 '0')
  signature := "signed"

def secondRequest : DesiredRequest Ota.Request :=
  { deviceID := "d", caller := fun _ => true, desired := { updateID := "u2", manifest := someManifest } }

noncomputable def committedServer : Server :=
  (agentOTAStatus twinEnv {} {} {} deviceServer (statusRequest "u1" .committed)).1

theorem accepted_committed :
    Accepted twinEnv "d" deviceServer ([] ++ [(statusRequest "u1" .committed).status]) committedServer :=
  .report (.nil _) {} {} {} (statusRequest "u1" .committed) rfl (by decide)

theorem nextUpdate_second :
    NextUpdate twinEnv "d" (statusRequest "u1" .committed).status committedServer {} {} secondRequest
      (statusRequest "u2" .pending) where
  ended := rfl
  device := ⟨rfl, rfl⟩
  different := by decide
  requested := by decide
  reported := rfl
  begins := .inl rfl
  valid := by decide
  known := by decide
  owned := ⟨someDevice, by decide, rfl⟩

theorem second_update_refused_after_commit :
    (agentOTAStatus twinEnv {} {} {} (otaDeviceRequest twinEnv {} {} committedServer secondRequest).1
      (statusRequest "u2" .pending)).2.code = 409 :=
  (next_update_refused twinEnv "d" deviceServer committedServer [] _ accepted_committed {} {}
    secondRequest _ nextUpdate_second {} {} {} rfl).1

/-- The update `u1` of a device is committed and `u2` is requested: the report that `u2` is
pending does not get through. -/
theorem second_update_never_starts :
    Accepted twinEnv "d" deviceServer [(statusRequest "u1" .committed).status] committedServer ∧
      NextUpdate twinEnv "d" (statusRequest "u1" .committed).status committedServer {} {}
        secondRequest (statusRequest "u2" .pending) ∧
      (agentOTAStatus twinEnv {} {} {}
        (otaDeviceRequest twinEnv {} {} committedServer secondRequest).1
          (statusRequest "u2" .pending)).2.code = 409 :=
  ⟨accepted_committed, nextUpdate_second,
    (nextUpdate_second.refused accepted_committed.storedOta_last {} {} rfl).1⟩

end Nodra.Server
