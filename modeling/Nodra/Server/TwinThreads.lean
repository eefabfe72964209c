import Nodra.Server.OtaLifecycle

/-! The handlers for twins as threads, one store call at a time, and the values that the
entry of the OTA agent takes in a twin. -/
namespace Nodra.Server
open Model Std Interleave

inductive AgentOTAStatus.Progress where
  | arrive
  | device
  | record (dev : Device) (status : Ota.Status)
  | alert (dev : Device) (status : Ota.Status)

def AgentOTAStatus.next (env : TwinEnv) (choice : Choice) (s : Server) (r : StatusRequest) :
    Progress → Server × Option Progress
  | .arrive =>
    match refusal env.toEnv choice s r.toCredentials r.siteID with
    | some _ => (s, none)
    | none => (s, some .device)
  | .device =>
    match agentDevice s r.deviceID r.siteID with
    | .error _ => (s, none)
    | .ok dev =>
      match r.checked env dev with
      | .error _ => (s, none)
      | .ok status => (s, some (.record dev status))
  | .record dev status =>
    let recorded := recordStatus env choice s dev r.siteID status
    match recorded.2 with
    | .error _ => (recorded.1, none)
    | .ok _ => (recorded.1, some (.alert dev status))
  | .alert dev status => (alertStatus env choice s dev r.siteID status, none)

inductive AgentTwinReported.Progress where
  | arrive
  | device
  | record (dev : Device)

def AgentTwinReported.next (env : TwinEnv) (choice : Choice) (s : Server) (r : ReportedRequest) :
    Progress → Server × Option Progress
  | .arrive =>
    match refusal env.toEnv choice s r.toCredentials r.siteID with
    | some _ => (s, none)
    | none => (s, some .device)
  | .device =>
    match agentDevice s r.deviceID r.siteID with
    | .error _ => (s, none)
    | .ok dev => (s, some (.record dev))
  | .record dev => ((recordReported env.toEnv choice s dev r).1, none)

inductive Desired.Progress where
  | device
  | set (dev : Device)

def Desired.next {α : Type} (choice : Choice) (s : Server) (r : DesiredRequest α)
    (set : Device → Server) : Progress → Server × Option Progress
  | .device =>
    match adminDevice choice s r with
    | .error _ => (s, none)
    | .ok dev => (s, some (.set dev))
  | .set dev => (set dev, none)

inductive TwinThread where
  | agentOTAStatus (r : StatusRequest) (progress : AgentOTAStatus.Progress)
  | agentTwinReported (r : ReportedRequest) (progress : AgentTwinReported.Progress)
  | otaDeviceRequest (r : DesiredRequest Ota.Request) (progress : Desired.Progress)
  | twinDesired (r : DesiredRequest (ExtTreeMap String Any)) (progress : Desired.Progress)
  | other (request : { request : Store.Call // request.writesTwin = false })

def TwinThread.next (env : TwinEnv) (choice : Choice) (s : Server) :
    TwinThread → Server × List TwinThread
  | .agentOTAStatus r progress =>
    let step := AgentOTAStatus.next env choice s r progress
    (step.1, (step.2.map (.agentOTAStatus r)).toList)
  | .agentTwinReported r progress =>
    let step := AgentTwinReported.next env choice s r progress
    (step.1, (step.2.map (.agentTwinReported r)).toList)
  | .otaDeviceRequest r progress =>
    let set dev := (setDeviceOTADesired env choice s dev r.desired).1
    let step := Desired.next choice s r set progress
    (step.1, (step.2.map (.otaDeviceRequest r)).toList)
  | .twinDesired r progress =>
    let set dev := (setDesired env.toEnv choice s dev r.desired).1
    let step := Desired.next choice s r set progress
    (step.1, (step.2.map (.twinDesired r)).toList)
  | .other request =>
    (if choice.error.isSome then s else (Action.storeCall request.val).run env.toEnv s, [])

inductive TwinThread.Starts : TwinThread → Prop where
  | agentOTAStatus (r : StatusRequest) : Starts (.agentOTAStatus r .arrive)
  | agentTwinReported (r : ReportedRequest) : Starts (.agentTwinReported r .arrive)
  | otaDeviceRequest (r : DesiredRequest Ota.Request) : Starts (.otaDeviceRequest r .device)
  | twinDesired (r : DesiredRequest (ExtTreeMap String Any)) : Starts (.twinDesired r .device)
  | other (request : { request : Store.Call // request.writesTwin = false }) : Starts (.other request)

def twinSystem (env : TwinEnv) : System Server TwinThread Choice where
  starts := TwinThread.Starts
  next := TwinThread.next env

section

def KeepsOta (deviceID : String) (s : Server) (t : TwinThread) : Prop :=
  ∀ r dev, t = .agentTwinReported r (.record dev) → dev.id = deviceID →
    r.reported[otaTwinKey]? = storedOta s deviceID

def guardedSystem (env : TwinEnv) (deviceID : String) : System Server TwinThread Choice :=
  { twinSystem env with allowed := fun _ s t _ => KeepsOta deviceID s t }

def Advances (env : TwinEnv) (v v' : Any) : Prop :=
  ∀ st, env.status.ofAny v = some st →
    ∃ st', env.status.ofAny v' = some st' ∧ Ota.canTransition st.state st'.state

theorem Advances.refl (env : TwinEnv) (v : Any) : Advances env v v :=
  fun st h => ⟨st, h, by simp [Ota.canTransition]⟩

variable {env : TwinEnv} {choice : Choice} {s : Server} {deviceID : String}

theorem moves_recordStatus (dev : Device) (siteID : String) (status : Ota.Status) :
    Moves (Advances env) (storedOta s deviceID)
      (storedOta (recordStatus env choice s dev siteID status).1 deviceID) := by
  cases htransition : transitionError env (currentTwin s dev.id) status with
  | some err => exact .inl (recordStatus_of_objection htransition).2
  | none =>
    rw [storedOta_recordStatus htransition]
    split
    · next hwritten =>
      refine .inr ⟨_, rfl, fun v hv st hst => ⟨status, env.status.ofAny_toAny status, ?_⟩⟩
      rw [hwritten.1, transitionError_of_stored hv hst] at htransition
      exact Ota.validateTransition_eq_none_iff.mp htransition
    · exact .inl rfl

theorem moves_agentOTAStatus (r : StatusRequest) (progress : AgentOTAStatus.Progress) :
    Moves (Advances env) (storedOta s deviceID)
      (storedOta (AgentOTAStatus.next env choice s r progress).1 deviceID) := by
  fun_cases AgentOTAStatus.next env choice s r progress
  case case6 | case7 => exact moves_recordStatus _ _ _
  case case8 => exact .inl (storedOta_alertStatus _)
  all_goals exact .inl rfl

theorem moves_agentTwinReported (r : ReportedRequest) (progress : AgentTwinReported.Progress)
    (h : KeepsOta deviceID s (.agentTwinReported r progress)) :
    Moves (Advances env) (storedOta s deviceID)
      (storedOta (AgentTwinReported.next env choice s r progress).1 deviceID) := by
  refine .inl ?_
  cases progress with
  | record dev =>
    simp only [AgentTwinReported.next]
    rw [storedOta_recordReported]
    split
    · next hwritten => exact h r dev rfl hwritten.1
    · rfl
  | arrive =>
    simp only [AgentTwinReported.next]
    split <;> rfl
  | device =>
    simp only [AgentTwinReported.next]
    split <;> rfl

theorem storedOta_desired {α : Type} (r : DesiredRequest α) {set : Device → Server}
    (hset : ∀ dev, storedOta (set dev) deviceID = storedOta s deviceID) (progress : Desired.Progress) :
    storedOta (Desired.next choice s r set progress).1 deviceID = storedOta s deviceID := by
  cases progress with
  | set dev => exact hset dev
  | device =>
    simp only [Desired.next]
    split <;> rfl

theorem moves_next (t : TwinThread) (h : KeepsOta deviceID s t) :
    Moves (Advances env) (storedOta s deviceID) (storedOta (t.next env choice s).1 deviceID) := by
  cases t with
  | agentOTAStatus r progress => exact moves_agentOTAStatus r progress
  | agentTwinReported r progress => exact moves_agentTwinReported r progress h
  | otaDeviceRequest r progress =>
    exact .inl (storedOta_desired r (fun _ => storedOta_setDeviceOTADesired _) progress)
  | twinDesired r progress =>
    exact .inl (storedOta_desired r (fun _ => storedOta_setDesired _ _) progress)
  | other request =>
    simp only [TwinThread.next]
    split
    · exact .inl rfl
    · exact .inl (storedOta_storeCall request.property)

def Stays (env : TwinEnv) (v v' : Any) : Prop :=
  ∀ st, env.status.ofAny v = some st → st.state.terminal →
    ∃ st', env.status.ofAny v' = some st' ∧ st'.state = st.state

theorem Advances.stays {v v' : Any} (h : Advances env v v') : Stays env v v' := by
  intro st hst hterminal
  obtain ⟨st', hst', htransition⟩ := h st hst
  exact ⟨st', hst', Ota.eq_of_canTransition_of_terminal hterminal htransition⟩

instance : Trans (Stays env) (Stays env) (Stays env) where
  trans {a b c} hab hbc := by
    intro st hst hterminal
    obtain ⟨st', hst', hsame⟩ := hab st hst hterminal
    obtain ⟨st'', hst'', hsame'⟩ := hbc st' hst' (by rwa [hsame])
    exact ⟨st'', hst'', hsame'.trans hsame⟩

/-- The values of an entry follow the lifecycle: from one to the next of the same update
there is a transition, and none goes back from a terminal state of its update. -/
structure FollowsLifecycle (env : TwinEnv) (values : List Any) : Prop where
  transitions : values.IsChain fun v v' => ∀ st st', env.status.ofAny v = some st →
    env.status.ofAny v' = some st' → st.updateID = st'.updateID → Ota.canTransition st.state st'.state
  ended : values.Pairwise fun v v' => ∀ st st', env.status.ofAny v = some st →
    env.status.ofAny v' = some st' → st.updateID = st'.updateID → st.state.terminal →
      st'.state.terminal

theorem followsLifecycle_of_isChain {values : List Any} (h : values.IsChain (Advances env)) :
    FollowsLifecycle env values where
  transitions := by
    refine h.imp fun v v' hadvances st st' hst hst' _ => ?_
    obtain ⟨st'', hst'', htransition⟩ := hadvances st hst
    cases hst'.symm.trans hst''
    exact htransition
  ended := by
    have hpairwise := List.isChain_iff_pairwise.mp (h.imp fun _ _ => Advances.stays)
    refine hpairwise.imp fun {v v'} hstays st st' hst hst' _ hterminal => ?_
    obtain ⟨st'', hst'', hsame⟩ := hstays st hst hterminal
    cases hst'.symm.trans hst''
    rwa [hsame]

/-- The lifecycle is kept in every run in which reports of whole maps leave the entry of the
OTA agent as it is stored. -/
theorem lifecycle_followed_of_run (env : TwinEnv) (deviceID : String) (s : Server)
    (c : Interleave.Config (Server × List Any) TwinThread)
    (hrun : ((guardedSystem env deviceID).watch fun s => storedOta s deviceID).Run
      ⟨(s, (storedOta s deviceID).toList), 0⟩ c) : FollowsLifecycle env c.shared.2 :=
  followsLifecycle_of_isChain
    (System.chain_watch (Advances.refl env) (fun _ _ t _ h => moves_next t h) hrun)

end

def pendingMoves : List (Move TwinThread Choice) :=
  [.start (.agentOTAStatus (statusRequest "u1" .pending) .arrive), .move 0 {}, .move 0 {}, .move 0 {},
    .move 0 {}]

noncomputable def pendingRun : Server × List Any :=
  (pendingMoves.foldl (exec ((guardedSystem twinEnv "d").watch fun s => storedOta s "d").next)
    ((deviceServer, (storedOta deviceServer "d").toList), [])).1

theorem lifecycle_followed_after_report :
    pendingRun.2.length = 2 ∧ FollowsLifecycle twinEnv pendingRun.2 := by
  have hpermits : ((guardedSystem twinEnv "d").watch fun s => storedOta s "d").Permits
      ((deviceServer, (storedOta deviceServer "d").toList), []) pendingMoves := by
    refine ⟨.agentOTAStatus _, ?_, ?_, ?_, ?_, trivial⟩ <;> intro t ht <;> cases ht <;>
      rintro r dev ⟨⟩
  exact ⟨by decide, lifecycle_followed_of_run twinEnv "d" deviceServer _
    (System.run_of_exec _ pendingMoves _ hpermits)⟩

/-- The committed status of `deviceServer`, and a pending one of the same update. -/
noncomputable def committedValue : Any :=
  twinEnv.status.toAny { updateID := "u1", deviceID := "d", state := .committed }

noncomputable def pendingValue : Any :=
  twinEnv.status.toAny { updateID := "u1", deviceID := "d", state := .pending }

noncomputable def backRequest : ReportedRequest :=
  { bearer := "token", siteID := "s", deviceID := "d",
    reported := (∅ : ExtTreeMap String Any).insert otaTwinKey pendingValue }

noncomputable def reopenedServer : Server :=
  (recordReported twinEnv.toEnv {} committedServer someDevice backRequest).1

theorem storedOta_committedServer : storedOta committedServer "d" = some committedValue :=
  accepted_committed.storedOta_last

theorem next_watch_agentTwinReported {s s' : Server} {progress : AgentTwinReported.Progress}
    {after : Option AgentTwinReported.Progress}
    (h : AgentTwinReported.next twinEnv {} s backRequest progress = (s', after)) (values : List Any) :
    ((twinSystem twinEnv).watch fun s => storedOta s "d").next {} (s, values)
        (.agentTwinReported backRequest progress) =
      ((s', values ++ (storedOta s' "d").toList), (after.map (.agentTwinReported backRequest)).toList) := by
  simp only [System.watch, twinSystem, TwinThread.next, h]

/-- A committed update goes back to pending by a report of the whole map. -/
theorem update_reopened_by_twin_report :
    ((twinSystem twinEnv).watch fun s => storedOta s "d").Run
        ⟨(committedServer, (storedOta committedServer "d").toList), 0⟩
        ⟨(reopenedServer, [committedValue, committedValue, committedValue, pendingValue]), 0⟩ ∧
      ¬ FollowsLifecycle twinEnv [committedValue, committedValue, committedValue, pendingValue] := by
  have harrive : AgentTwinReported.next twinEnv {} committedServer backRequest .arrive =
      (committedServer, some .device) := by
    have hrefusal : refusal twinEnv.toEnv {} committedServer backRequest.toCredentials
        backRequest.siteID = none := by
      decide
    simp only [AgentTwinReported.next, hrefusal]
  have hdevice : AgentTwinReported.next twinEnv {} committedServer backRequest .device =
      (committedServer, some (.record someDevice)) := by
    have hfound : committedServer.store.device "d" = some someDevice := by
      decide
    simp [AgentTwinReported.next, agentDevice, backRequest, hfound, someDevice]
  have hrecord : AgentTwinReported.next twinEnv {} committedServer backRequest (.record someDevice) =
      (reopenedServer, none) := rfl
  have hstored := storedOta_committedServer
  have hreopened : storedOta reopenedServer "d" = some pendingValue := by
    unfold reopenedServer
    rw [storedOta_recordReported, if_pos ⟨rfl, rfl⟩]
    simp [backRequest]
  constructor
  · rw [hstored]
    refine .head (.start _ (.agentTwinReported backRequest)) ?_
    refine System.Run.move {} trivial (next_watch_agentTwinReported harrive _) ?_
    rw [hstored]
    refine System.Run.move {} trivial (next_watch_agentTwinReported hdevice _) ?_
    rw [hstored]
    refine System.Run.last {} trivial ((next_watch_agentTwinReported hrecord _).trans ?_)
    rw [hreopened]
    rfl
  · intro h
    have hended := (List.pairwise_cons.mp h.ended).1 pendingValue (by simp) _ _
      (twinEnv.status.ofAny_toAny _) (twinEnv.status.ofAny_toAny _) rfl rfl
    cases hended

end Nodra.Server
