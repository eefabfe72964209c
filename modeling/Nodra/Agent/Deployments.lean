import Nodra.Lib.OrderedMap
import Nodra.Model.Types

/-! The runner of deployments: containers are reconciled with what the control plane wants, and a
deployment that stays unhealthy past a grace period is reported for rollback. -/
namespace Nodra.Agent
open Model Std List Option OrderedMap

structure Container where
  image : String
  running : Bool
deriving DecidableEq

abbrev Docker := OrderedMap String Container

structure Exec where
  err : Option String := none
  out : String := ""

/-- How the commands of one reconciliation end.  A failed `run` may leave a container behind that
was created and not started. -/
structure Commands where
  inspect : Exec := {}
  stop : Exec := {}
  verify : Exec := {}
  pull : Exec := {}
  remove : Exec := {}
  run : Exec := {}
  created : Bool := false

def isSpace (c : Char) : Bool :=
  c ∈ ['\t', '\n', Char.ofNat 0x0b, Char.ofNat 0x0c, '\r', ' ', Char.ofNat 0x85, Char.ofNat 0xa0, Char.ofNat 0x1680,
    Char.ofNat 0x2028, Char.ofNat 0x2029, Char.ofNat 0x202f, Char.ofNat 0x205f, Char.ofNat 0x3000] ||
    (0x2000 ≤ c.toNat && c.toNat ≤ 0x200a)

def trimSpace (text : String) : String :=
  String.ofList (((text.toList.dropWhile isSpace).reverse.dropWhile isSpace).reverse)

def trimPrefix (text start : String) : String :=
  if start.toList.isPrefixOf text.toList then String.ofList (text.toList.drop start.length) else text

def containerName (d : Deployment) : String := "nodra-" ++ trimPrefix d.id "dep_"

def inspectRunning (exec : Exec) (docker : Docker) (name : String) : String :=
  match exec.err, docker.get? name with
  | none, some c => if c.running then "true\n" else "false\n"
  | _, _ => "\n"

def removeForced (exec : Exec) (docker : Docker) (name : String) : Option String × Docker :=
  match exec.err with
  | some err => (some err, docker)
  | none => (none, docker.remove name)

structure RunArgs where
  name : String
  label : String
  env : List (String × String)
  ports : List String
  volumes : List String
  image : String
  command : List String

def runArgs (d : Deployment) : RunArgs where
  name := containerName d
  label := "io.zyvor.nodra.deployment=" ++ d.id
  env := d.env.toList
  ports := d.ports
  volumes := d.volumes
  image := d.image
  command := d.command

def runContainer (exec : Exec) (created : Bool) (docker : Docker) (r : RunArgs) : Option String × Docker :=
  if r.name ∈ docker then (some (exec.err.getD "exit status 125"), docker)
  else
    match exec.err with
    | some err => (some err, if created then docker.put r.name ⟨r.image, false⟩ else docker)
    | none => (none, docker.put r.name ⟨r.image, true⟩)

def failure (what err : String) (exec : Exec) : String := what ++ ": " ++ err ++ ": " ++ trimSpace exec.out

def verifyImageSignature (exec : Exec) (image mode : String) : Option String :=
  if mode = "skip" then none else exec.err.map fun err => failure ("cosign verify " ++ image) err exec

structure AuditNote where
  actor : String
  actorType : String
  action : String
  result : String
  message : String
  detail : List (String × String)
deriving DecidableEq

structure RunnerConfig where
  siteID : String := ""
  runner : String := ""
  signatureMode : String := ""
  deployHealthGrace : Int := 0
  /-- The text that `%s` prints for the grace period. -/
  graceText : String := ""

def signatureNote (image mode sigErr : String) : AuditNote where
  actor := "system"
  actorType := "agent"
  action := "image.signature"
  result := if mode = "enforce" then "error" else "warn"
  message := sigErr
  detail := [("image", image), ("mode", mode)]

structure Reconciled where
  actual : String
  err : Option String
  docker : Docker
  notes : List AuditNote := []

/-- The part of `reconcileDocker` that starts a container: pull, remove what has the name, run. -/
def startContainer (cmds : Commands) (docker : Docker) (d : Deployment) : Reconciled :=
  match cmds.pull.err with
  | some err => { actual := "stopped", err := some (failure "docker pull" err cmds.pull), docker }
  | none =>
    match runContainer cmds.run cmds.created (removeForced cmds.remove docker (containerName d)).2 (runArgs d) with
    | (some err, docker) => { actual := "stopped", err := some (failure "docker run" err cmds.run), docker }
    | (none, docker) => { actual := "running", err := none, docker }

def reconcileDocker (cfg : RunnerConfig) (cmds : Commands) (docker : Docker) (d : Deployment) : Reconciled :=
  let name := containerName d
  let isRunning := trimSpace (inspectRunning cmds.inspect docker name) = "true"
  if d.desiredState = "stopped" then
    if isRunning then
      match removeForced cmds.stop docker name with
      | (some err, docker) => { actual := "unknown", err := some (failure "docker stop" err cmds.stop), docker }
      | (none, docker) => { actual := "stopped", err := none, docker }
    else { actual := "stopped", err := none, docker }
  else if isRunning then { actual := "running", err := none, docker }
  else
    let mode := if d.signatureMode = "" then cfg.signatureMode else d.signatureMode
    match verifyImageSignature cmds.verify d.image mode with
    | some sigErr =>
      let note := signatureNote d.image mode sigErr
      if mode = "enforce" then
        { actual := "stopped", err := some ("refusing unsigned/unverifiable image: " ++ sigErr), docker,
          notes := [note] }
      else
        let r := startContainer cmds docker d
        { r with notes := note :: r.notes }
    | none => startContainer cmds docker d

section

variable {cfg : RunnerConfig} {cmds : Commands} {docker : Docker} {d : Deployment}

def Up (docker : Docker) (d : Deployment) : Prop := ∃ c, docker.get? (containerName d) = some c ∧ c.running = true

theorem isRunning_iff (exec : Exec) (docker : Docker) (d : Deployment) :
    trimSpace (inspectRunning exec docker (containerName d)) = "true" ↔ exec.err = none ∧ Up docker d := by
  have htrue : trimSpace "true\n" = "true" := by decide
  have hfalse : trimSpace "false\n" ≠ "true" := by decide
  have hblank : trimSpace "\n" ≠ "true" := by decide
  unfold inspectRunning Up
  cases exec.err with
  | some err => simp [hblank]
  | none =>
    cases docker.get? (containerName d) with
    | none => simp [hblank]
    | some c => cases hrunning : c.running <;> simp [hrunning, htrue, hfalse]

def Reconciled.Truthful (r : Reconciled) (d : Deployment) : Prop :=
  (r.actual = "running" ∧ r.err = none → r.docker.get? (containerName d) = some ⟨d.image, true⟩) ∧
    (r.actual = "stopped" ∧ r.err = none → ¬ Up r.docker d)

theorem truthful_failed (actual err : String) (docker : Docker) (notes : List AuditNote) (d : Deployment) :
    Reconciled.Truthful { actual, err := some err, docker, notes } d := by
  simp [Reconciled.Truthful]

theorem truthful_running_iff (docker : Docker) (d : Deployment) :
    Reconciled.Truthful { actual := "running", err := none, docker } d ↔
      docker.get? (containerName d) = some ⟨d.image, true⟩ := by
  simp [Reconciled.Truthful]

theorem truthful_stopped_iff (docker : Docker) (d : Deployment) :
    Reconciled.Truthful { actual := "stopped", err := none, docker } d ↔ ¬ Up docker d := by
  simp [Reconciled.Truthful]

theorem truthful_startContainer (cmds : Commands) (docker : Docker) (d : Deployment) :
    (startContainer cmds docker d).Truthful d := by
  unfold startContainer
  cases cmds.pull.err with
  | some err => exact truthful_failed ..
  | none =>
    dsimp only
    unfold runContainer
    split
    · exact truthful_failed ..
    · next started hrun =>
      rw [truthful_running_iff]
      split at hrun
      · cases hrun
      · cases herr : cmds.run.err with
        | some err =>
          rw [herr] at hrun
          cases hrun
        | none =>
          rw [herr] at hrun
          cases hrun
          exact get?_put_self _ _ _

theorem not_up_remove (docker : Docker) (d : Deployment) : ¬ Up (docker.remove (containerName d)) d := by
  rintro ⟨c, hget, -⟩
  rw [get?_remove, if_pos rfl] at hget
  cases hget

theorem truthful_of_stopped (hstopped : d.desiredState = "stopped") :
    (reconcileDocker cfg cmds docker d).Truthful d ↔ (Up docker d → cmds.inspect.err = none) := by
  unfold reconcileDocker
  rw [if_pos hstopped]
  by_cases hrunning : trimSpace (inspectRunning cmds.inspect docker (containerName d)) = "true"
  · have hseen := (isRunning_iff cmds.inspect docker d).mp hrunning
    rw [if_pos hrunning]
    refine iff_of_true ?_ fun _ => hseen.1
    unfold removeForced
    cases cmds.stop.err with
    | some err => exact truthful_failed ..
    | none => exact (truthful_stopped_iff ..).mpr (not_up_remove docker d)
  · rw [if_neg hrunning, truthful_stopped_iff]
    rw [isRunning_iff] at hrunning
    tauto

theorem truthful_of_not_stopped (hwanted : d.desiredState ≠ "stopped") :
    (reconcileDocker cfg cmds docker d).Truthful d ↔
      (cmds.inspect.err = none → Up docker d → docker.get? (containerName d) = some ⟨d.image, true⟩) := by
  unfold reconcileDocker
  rw [if_neg hwanted]
  by_cases hrunning : trimSpace (inspectRunning cmds.inspect docker (containerName d)) = "true"
  · have hseen := (isRunning_iff cmds.inspect docker d).mp hrunning
    rw [if_pos hrunning, truthful_running_iff]
    tauto
  · rw [if_neg hrunning]
    rw [isRunning_iff] at hrunning
    refine iff_of_true ?_ fun hok hup => absurd ⟨hok, hup⟩ hrunning
    have hstart := truthful_startContainer cmds docker d
    dsimp only
    generalize (if d.signatureMode = "" then cfg.signatureMode else d.signatureMode) = mode
    cases verifyImageSignature cmds.verify d.image mode with
    | none => exact hstart
    | some sigErr =>
      dsimp only
      by_cases henforce : mode = "enforce"
      · rw [if_pos henforce]
        exact truthful_failed ..
      · rw [if_neg henforce]
        exact hstart

/-- A reconciliation tells the truth exactly when `inspect` does not fail on a container that should
be stopped, and finds no container of another image up where one should run. -/
theorem reconcileDocker_truthful_iff (cfg : RunnerConfig) (cmds : Commands) (docker : Docker) (d : Deployment) :
    (reconcileDocker cfg cmds docker d).Truthful d ↔
      if d.desiredState = "stopped" then Up docker d → cmds.inspect.err = none
      else cmds.inspect.err = none → ∀ c, docker.get? (containerName d) = some c → c.running = true → c.image = d.image := by
  by_cases hstopped : d.desiredState = "stopped"
  · rw [if_pos hstopped, truthful_of_stopped hstopped]
  · rw [if_neg hstopped, truthful_of_not_stopped hstopped]
    refine imp_congr_right fun _ => ⟨?_, ?_⟩
    · intro h c hget hrunning
      have hsame := h ⟨c, hget, hrunning⟩
      rw [hget] at hsame
      rw [Option.some.inj hsame]
    · rintro h ⟨⟨image, running⟩, hget, hrunning⟩
      rw [hget, ← h _ hget hrunning, ← hrunning]

/-- The new image of a deployment is never started while the old container is up. -/
theorem reconcileDocker_keeps_old_image :
    ¬ (reconcileDocker {} {} (OrderedMap.empty.put "nodra-app" ⟨"app:1", true⟩)
      { id := "dep_app", desiredState := "running", image := "app:2" }).Truthful
        { id := "dep_app", desiredState := "running", image := "app:2" } := by
  intro h
  exact absurd (h.1 (by decide)) (by decide)

end

/-- One deployment's current target and when it was first observed, healthy or not. -/
structure AgentHealth where
  image : String
  version : String
  firstSeenAt : Time
  rollbackSent : Bool := false

/-- One call of `checkDeploymentHealth`: `seen` and `now` are the readings of the clock for a new
entry and for the age of an entry, `post` is the error of the request, if one is sent and fails. -/
structure Check where
  deployment : Deployment
  reconcileErr : Option String
  msg : String
  seen : Time
  now : Time
  post : Option String

structure Rollback where
  deploymentID : String
  siteID : String
  reason : String
deriving DecidableEq

structure Checked where
  health : OrderedMap String AgentHealth
  sent : Option Rollback
  notes : List AuditNote

def Check.track (c : Check) (health : OrderedMap String AgentHealth) : AgentHealth × OrderedMap String AgentHealth :=
  let new := { image := c.deployment.image, version := c.deployment.version, firstSeenAt := c.seen }
  match health.get? c.deployment.id with
  | none => (new, health.put c.deployment.id new)
  | some h =>
    if h.image ≠ c.deployment.image ∨ h.version ≠ c.deployment.version then (new, health.put c.deployment.id new)
    else (h, health)

def checkDeploymentHealth (cfg : RunnerConfig) (health : OrderedMap String AgentHealth) (c : Check) : Checked :=
  let (h, health) := c.track health
  let id := c.deployment.id
  let past := c.reconcileErr.isSome ∧ c.now - h.firstSeenAt ≥ cfg.deployHealthGrace ∧ h.rollbackSent = false
  if past then
    let reason := "unhealthy past " ++ cfg.graceText ++ " grace period: " ++ c.msg
    let note := match c.post with
      | some err => { actor := "agent", actorType := "agent", action := "deployment.rollback", result := "error",
                      message := err, detail := [("deployment_id", id)] }
      | none => { actor := "agent", actorType := "agent", action := "deployment.rollback", result := "ok",
                  message := reason,
                  detail := [("deployment_id", id), ("image", c.deployment.image), ("version", c.deployment.version)] }
    { health := health.put id { h with rollbackSent := true }, sent := some ⟨id, cfg.siteID, reason⟩, notes := [note] }
  else { health, sent := none, notes := [] }

def healthAfter (cfg : RunnerConfig) (health : OrderedMap String AgentHealth) (calls : List Check) :
    OrderedMap String AgentHealth :=
  calls.foldl (fun health c => (checkDeploymentHealth cfg health c).health) health

structure Turn where
  commands : Commands := {}
  seen : Time := 0
  now : Time := 0
  post : Option String := none

structure Status where
  deploymentID : String
  siteID : String
  status : String
  actualState : String
  message : String
deriving DecidableEq

structure Runner where
  docker : Docker := .empty
  health : OrderedMap String AgentHealth := .empty
  statuses : List Status := []
  rollbacks : List Rollback := []
  notes : List AuditNote := []

def Turn.check (turn : Turn) (d : Deployment) (err : Option String) : Check where
  deployment := d
  reconcileErr := err
  msg := err.getD ""
  seen := turn.seen
  now := turn.now
  post := turn.post

/-- The body of the loop in `syncDeployments`.  Whether the status arrives does not matter. -/
def syncOne (cfg : RunnerConfig) (a : Runner) (turn : Turn) (d : Deployment) : Runner :=
  let r := reconcileDocker cfg turn.commands a.docker d
  let status := if r.err.isSome then "failed" else if d.desiredState = "stopped" then "stopped" else "running"
  let a := { a with
    docker := r.docker
    statuses := a.statuses ++ [⟨d.id, cfg.siteID, status, r.actual, r.err.getD ""⟩]
    notes := a.notes ++ r.notes }
  if d.desiredState = "stopped" then a
  else
    let c := checkDeploymentHealth cfg a.health (turn.check d r.err)
    { a with health := c.health, rollbacks := a.rollbacks ++ c.sent.toList, notes := a.notes ++ c.notes }

/-- `reply` is the list of deployments, if the control plane answers with one. -/
def syncDeployments (cfg : RunnerConfig) (a : Runner) (reply : Option (List (Turn × Deployment))) : Runner :=
  if cfg.runner = "docker" then
    (reply.getD []).foldl (fun a turn => syncOne cfg a turn.1 turn.2) a
  else a

/-- The calls of `checkDeploymentHealth` that a pass makes, with the results of its reconciliations. -/
def syncChecks (cfg : RunnerConfig) : Docker → List (Turn × Deployment) → List Check
  | _, [] => []
  | docker, (turn, d) :: rest =>
    let r := reconcileDocker cfg turn.commands docker d
    if d.desiredState = "stopped" then syncChecks cfg r.docker rest
    else turn.check d r.err :: syncChecks cfg r.docker rest

theorem health_syncDeployments (cfg : RunnerConfig) (hrunner : cfg.runner = "docker") (a : Runner)
    (turns : List (Turn × Deployment)) :
    (syncDeployments cfg a (some turns)).health = healthAfter cfg a.health (syncChecks cfg a.docker turns) := by
  unfold syncDeployments
  rw [if_pos hrunner, getD_some]
  induction turns generalizing a with
  | nil => rfl
  | cons turn rest ih =>
    rw [foldl_cons, ih, syncChecks, syncOne]
    dsimp only
    split <;> rfl

section

variable {cfg : RunnerConfig} {d : Deployment} {start health : OrderedMap String AgentHealth}
  {calls before after : List Check} {c : Check}

def Check.about (id : String) (c : Check) : Bool := c.deployment.id = id

def SameTarget (d : Deployment) (calls : List Check) : Prop :=
  ∀ c ∈ calls, c.about d.id = true → c.deployment.image = d.image ∧ c.deployment.version = d.version

def Untracked (d : Deployment) (health : OrderedMap String AgentHealth) : Prop :=
  ∀ h, health.get? d.id = some h → h.image ≠ d.image ∨ h.version ≠ d.version

/-- The call finds an error when the target, first observed at `since`, is past the grace period. -/
def Check.due (cfg : RunnerConfig) (id : String) (since : Time) (c : Check) : Bool :=
  c.about id && c.reconcileErr.isSome && decide (c.now - since ≥ cfg.deployHealthGrace)

def dues (cfg : RunnerConfig) (id : String) (calls : List Check) : List Check :=
  match calls.find? (Check.about id) with
  | none => []
  | some first => calls.filter (Check.due cfg id first.seen)

def Posts (cfg : RunnerConfig) (start : OrderedMap String AgentHealth) (before : List Check) (c : Check) : Prop :=
  (checkDeploymentHealth cfg (healthAfter cfg start before) c).sent.isSome = true

def Answered (cfg : RunnerConfig) (id : String) (start : OrderedMap String AgentHealth) (calls : List Check) : Prop :=
  ∃ before c after, calls = before ++ c :: after ∧ c.about id = true ∧ Posts cfg start before c ∧ c.post = none

/-- As long as no request was answered, every call that finds an error past the grace period sends one. -/
def NotForgotten (cfg : RunnerConfig) (id : String) (start : OrderedMap String AgentHealth) (calls : List Check) : Prop :=
  ∀ before c after, calls = before ++ c :: after → c ∈ dues cfg id (before ++ [c]) →
    ¬ Answered cfg id start before → Posts cfg start before c

/-- The entry of a target that was first observed at `since`, after the calls. -/
def tracked (cfg : RunnerConfig) (d : Deployment) (since : Time) (calls : List Check) : AgentHealth where
  image := d.image
  version := d.version
  firstSeenAt := since
  rollbackSent := !(dues cfg d.id calls).isEmpty

def Tracks (cfg : RunnerConfig) (d : Deployment) (calls : List Check) (health : OrderedMap String AgentHealth) : Prop :=
  match calls.find? (Check.about d.id) with
  | none => Untracked d health
  | some first => health.get? d.id = some (tracked cfg d first.seen calls)

/-- When the target was first observed, for a call that comes after `before`. -/
def Check.since (id : String) (before : List Check) (c : Check) : Time :=
  ((before.find? (Check.about id)).getD c).seen

theorem find?_snoc_about (before : List Check) (h : c.about d.id = true) :
    (before ++ [c]).find? (Check.about d.id) = some ((before.find? (Check.about d.id)).getD c) := by
  cases hfind : before.find? (Check.about d.id) <;> simp [find?_append, hfind, h]

theorem dues_of_not_about (h : ∀ c ∈ calls, c.about d.id = false) (since : Time) :
    calls.filter (Check.due cfg d.id since) = [] := by
  rw [filter_eq_nil_iff]
  intro c hc
  simp [Check.due, h c hc]

theorem dues_snoc_other (cfg : RunnerConfig) (before : List Check) (h : c.about d.id = false) :
    dues cfg d.id (before ++ [c]) = dues cfg d.id before := by
  simp only [dues, find?_append, find?_singleton, h, Bool.false_eq_true, if_false, or_none]
  cases before.find? (Check.about d.id) with
  | none => rfl
  | some first => simp [filter_append, Check.due, h]

theorem dues_snoc (cfg : RunnerConfig) (before : List Check) (h : c.about d.id = true) :
    dues cfg d.id (before ++ [c]) = dues cfg d.id before ++ [c].filter (Check.due cfg d.id (c.since d.id before)) := by
  simp only [dues, Check.since, find?_append, find?_singleton, h, if_true]
  cases hfind : before.find? (Check.about d.id) with
  | none =>
    have hnone : ∀ x ∈ before, x.about d.id = false := by simpa using hfind
    simp [filter_append, dues_of_not_about hnone]
  | some first => simp [filter_append]

theorem check_other (cfg : RunnerConfig) (health : OrderedMap String AgentHealth) (h : c.about d.id = false) :
    (checkDeploymentHealth cfg health c).health.get? d.id = health.get? d.id := by
  have hne : c.deployment.id ≠ d.id := by simpa [Check.about] using h
  have htrack : (c.track health).2.get? d.id = health.get? d.id := by
    unfold Check.track
    split
    · simp [get?_put, hne.symm]
    · dsimp only
      split
      · simp [get?_put, hne.symm]
      · rfl
  unfold checkDeploymentHealth
  dsimp only
  split
  · simp [get?_put, hne.symm, htrack]
  · exact htrack

theorem Tracks.track (h : Tracks cfg d before health) (habout : c.about d.id = true)
    (himage : c.deployment.image = d.image) (hversion : c.deployment.version = d.version) :
    (c.track health).1 = tracked cfg d (c.since d.id before) before ∧
      (c.track health).2.get? d.id = some (tracked cfg d (c.since d.id before) before) := by
  have hid : c.deployment.id = d.id := by simpa [Check.about] using habout
  unfold Tracks at h
  unfold Check.track Check.since
  rw [hid, himage, hversion]
  cases hfind : before.find? (Check.about d.id) with
  | none =>
    rw [hfind] at h
    cases hget : health.get? d.id with
    | none => simp [tracked, dues, hfind]
    | some old => simp [tracked, dues, hfind, h old hget]
  | some first =>
    rw [hfind] at h
    simp [h, tracked]

theorem Tracks.sent_iff (h : Tracks cfg d before health) (habout : c.about d.id = true)
    (himage : c.deployment.image = d.image) (hversion : c.deployment.version = d.version) :
    (checkDeploymentHealth cfg health c).sent.isSome = true ↔
      c.due cfg d.id (c.since d.id before) = true ∧ dues cfg d.id before = [] := by
  obtain ⟨hentry, -⟩ := h.track habout himage hversion
  unfold checkDeploymentHealth
  simp only [hentry]
  split
  · next hpast => simpa [Check.due, habout, tracked, and_assoc] using hpast
  · next hpast => simpa [Check.due, habout, tracked] using hpast

theorem Tracks.step (h : Tracks cfg d before health) (hsame : SameTarget d (before ++ [c])) :
    Tracks cfg d (before ++ [c]) (checkDeploymentHealth cfg health c).health := by
  cases habout : c.about d.id with
  | false =>
    unfold Tracks Untracked tracked at h ⊢
    rw [check_other cfg health habout, dues_snoc_other cfg before habout, find?_append, find?_singleton]
    simpa only [habout, Bool.false_eq_true, if_false, or_none] using h
  | true =>
    obtain ⟨himage, hversion⟩ := hsame c (by simp) habout
    obtain ⟨hentry, hget⟩ := h.track habout himage hversion
    have hid : c.deployment.id = d.id := by simpa [Check.about] using habout
    unfold Tracks
    rw [find?_snoc_about before habout]
    change _ = some (tracked cfg d (c.since d.id before) (before ++ [c]))
    rw [tracked, dues_snoc cfg before habout]
    unfold checkDeploymentHealth
    simp only [hentry, hid]
    split
    · next hpast =>
      have hdue : c.due cfg d.id (c.since d.id before) = true := by
        simpa [Check.due, habout, tracked] using ⟨hpast.1, hpast.2.1⟩
      simp [hdue, tracked]
    · next hpast =>
      rw [hget, tracked]
      cases hdues : dues cfg d.id before with
      | cons first rest => simp
      | nil =>
        have hnot : c.due cfg d.id (c.since d.id before) = false := by simpa [Check.due, habout, tracked, hdues] using hpast
        simp [hnot]

theorem tracks_healthAfter (cfg : RunnerConfig) (hstart : Untracked d start) (hsame : SameTarget d calls) :
    Tracks cfg d calls (healthAfter cfg start calls) := by
  induction calls using List.reverseRecOn with
  | nil => exact hstart
  | append_singleton before c ih =>
    unfold healthAfter
    rw [foldl_append, foldl_cons, foldl_nil]
    exact (ih fun x hx => hsame x (mem_append_left _ hx)).step hsame

theorem posts_iff (hstart : Untracked d start) (hsame : SameTarget d (before ++ [c])) (habout : c.about d.id = true) :
    Posts cfg start before c ↔ c ∈ dues cfg d.id (before ++ [c]) ∧ dues cfg d.id before = [] := by
  obtain ⟨himage, hversion⟩ := hsame c (by simp) habout
  have htracks := tracks_healthAfter cfg hstart fun x hx => hsame x (mem_append_left _ hx)
  unfold Posts
  rw [htracks.sent_iff habout himage hversion, dues_snoc cfg before habout]
  refine and_congr_left fun hnone => ?_
  simp [hnone]

theorem about_of_mem_dues (h : c ∈ dues cfg d.id calls) : c.about d.id = true := by
  unfold dues at h
  split at h
  · cases h
  · have hdue := (mem_filter.mp h).2
    simp only [Check.due, Bool.and_eq_true] at hdue
    exact hdue.1.1

theorem dues_of_mem_snoc (h : c ∈ dues cfg d.id (before ++ [c])) :
    dues cfg d.id (before ++ [c]) = dues cfg d.id before ++ [c] := by
  have habout := about_of_mem_dues h
  have hdue : c.due cfg d.id (c.since d.id before) = true := by
    rw [dues, find?_snoc_about before habout] at h
    exact (mem_filter.mp h).2
  rw [dues_snoc cfg before habout, filter_cons, if_pos hdue, filter_nil]

theorem dues_snoc_cases (cfg : RunnerConfig) (d : Deployment) (before : List Check) (c : Check) :
    dues cfg d.id (before ++ [c]) = dues cfg d.id before ∨
      dues cfg d.id (before ++ [c]) = dues cfg d.id before ++ [c] := by
  cases habout : c.about d.id with
  | false => exact .inl (dues_snoc_other cfg before habout)
  | true =>
    rw [dues_snoc cfg before habout]
    cases hdue : c.due cfg d.id (c.since d.id before) <;> simp [hdue]

theorem dues_append (cfg : RunnerConfig) (d : Deployment) (before after : List Check) :
    ∃ later, dues cfg d.id (before ++ after) = dues cfg d.id before ++ later := by
  induction after using List.reverseRecOn with
  | nil => exact ⟨[], by simp⟩
  | append_singleton after c ih =>
    obtain ⟨later, hlater⟩ := ih
    rw [← append_assoc]
    rcases dues_snoc_cases cfg d (before ++ after) c with heq | heq
    · exact ⟨later, by rw [heq, hlater]⟩
    · exact ⟨later ++ [c], by rw [heq, hlater, append_assoc]⟩

theorem exists_due (front : List Check) (h : ∃ rest, dues cfg d.id calls = front ++ c :: rest) :
    ∃ before after, calls = before ++ c :: after ∧ dues cfg d.id before = front ∧
      dues cfg d.id (before ++ [c]) = front ++ [c] := by
  induction calls using List.reverseRecOn with
  | nil =>
    obtain ⟨rest, hrest⟩ := h
    simp [dues] at hrest
  | append_singleton calls x ih =>
    obtain ⟨rest, hrest⟩ := h
    have hearlier : (∃ rest, dues cfg d.id calls = front ++ c :: rest) → ∃ before after,
        calls ++ [x] = before ++ c :: after ∧ dues cfg d.id before = front ∧
          dues cfg d.id (before ++ [c]) = front ++ [c] := by
      intro h
      obtain ⟨before, after, hsplit, hbefore, hdue⟩ := ih h
      exact ⟨before, after ++ [x], by rw [hsplit, append_assoc, cons_append], hbefore, hdue⟩
    rcases dues_snoc_cases cfg d calls x with heq | heq
    · exact hearlier ⟨rest, by rw [← heq, hrest]⟩
    · rcases eq_nil_or_concat rest with rfl | ⟨rest, last, rfl⟩
      · -- the last call is the one
        obtain ⟨hfront, hlast⟩ := append_inj' (heq.symm.trans hrest) rfl
        cases hlast
        exact ⟨calls, [], rfl, hfront, by rw [heq, hfront]⟩
      · refine hearlier ⟨rest, ?_⟩
        have hboth : dues cfg d.id calls ++ [x] = (front ++ c :: rest) ++ [last] := by
          rw [← heq, hrest, concat_eq_append, append_assoc, cons_append]
        exact (append_inj' hboth rfl).1

theorem SameTarget.of_append (h : SameTarget d (before ++ after)) : SameTarget d before :=
  fun c hc => h c (mem_append_left _ hc)

theorem answered_iff (hstart : Untracked d start) (hsame : SameTarget d calls) :
    Answered cfg d.id start calls ↔ ∃ first rest, dues cfg d.id calls = first :: rest ∧ first.post = none := by
  constructor
  · rintro ⟨before, c, after, rfl, habout, hposts, hpost⟩
    rw [append_cons] at hsame ⊢
    obtain ⟨hmem, hnone⟩ := (posts_iff hstart hsame.of_append habout).mp hposts
    have hc : dues cfg d.id (before ++ [c]) = [c] := by
      rw [dues_of_mem_snoc hmem, hnone, nil_append]
    obtain ⟨later, hlater⟩ := dues_append cfg d (before ++ [c]) after
    exact ⟨c, later, by rw [hlater, hc, singleton_append], hpost⟩
  · rintro ⟨first, rest, hdues, hpost⟩
    obtain ⟨before, after, rfl, hbefore, hdue⟩ := exists_due [] ⟨rest, hdues⟩
    rw [append_cons] at hsame
    have habout : first.about d.id = true := about_of_mem_dues (hdues ▸ mem_cons_self)
    refine ⟨before, first, after, rfl, habout, ?_, hpost⟩
    exact (posts_iff hstart hsame.of_append habout).mpr ⟨by simp [hdue], hbefore⟩

/-- A request for rollback is sent again as long as it was not answered, exactly when the first one
is answered or no later call finds an error past the grace period: the flag is set before the request
is sent, and a request that fails does not take it back. -/
theorem rollback_notForgotten_iff (cfg : RunnerConfig) (d : Deployment) (start : OrderedMap String AgentHealth)
    (calls : List Check) (hstart : Untracked d start) (hsame : SameTarget d calls) :
    NotForgotten cfg d.id start calls ↔
      ∀ first second rest, dues cfg d.id calls = first :: second :: rest → first.post = none := by
  constructor
  · intro h first second rest hdues
    obtain ⟨before, after, rfl, hbefore, hdue⟩ := exists_due [first] ⟨rest, hdues⟩
    have habout : second.about d.id = true := by
      have hmem : second ∈ dues cfg d.id (before ++ second :: after) := by simp [hdues]
      exact about_of_mem_dues hmem
    by_contra hfailed
    have hunanswered : ¬ Answered cfg d.id start before := by
      rw [answered_iff hstart hsame.of_append, hbefore]
      simpa using hfailed
    have hposts := h before second after rfl (by simp [hdue]) hunanswered
    rw [append_cons] at hsame
    have hnone := ((posts_iff hstart hsame.of_append habout).mp hposts).2
    rw [hbefore] at hnone
    cases hnone
  · intro h before c after hsplit hmem hunanswered
    subst hsplit
    have hbefore := hsame.of_append
    rw [append_cons] at hsame
    rw [answered_iff hstart hbefore] at hunanswered
    refine (posts_iff hstart hsame.of_append (about_of_mem_dues hmem)).mpr ⟨hmem, ?_⟩
    cases hdues : dues cfg d.id before with
    | nil => rfl
    | cons first rest =>
      obtain ⟨later, hlater⟩ := dues_append cfg d (before ++ [c]) after
      rw [dues_of_mem_snoc hmem, hdues, append_assoc, ← append_cons] at hlater
      have hpost : first.post = none := by
        cases rest with
        | nil => exact h first c later hlater
        | cons second rest => exact h first second (rest ++ c :: later) hlater
      exact absurd ⟨first, rest, hdues, hpost⟩ hunanswered

def brokenApp : Deployment := { id := "dep_app", image := "app:2", version := "2" }

/-- A call that finds an error at the given time; `post` is what becomes of a request. -/
def failedAt (now : Time) (post : Option String) : Check :=
  { deployment := brokenApp, reconcileErr := some "exit status 1", msg := "exit status 1", seen := now, now, post }

def graceConfig : RunnerConfig := { deployHealthGrace := 60 }

theorem untracked_empty (d : Deployment) : Untracked d .empty := by
  intro h hget
  cases hget

theorem sameTarget_failedAt (calls : List (Time × Option String)) :
    SameTarget brokenApp (calls.map fun call => failedAt call.1 call.2) := by
  intro c hc _
  obtain ⟨call, -, rfl⟩ := List.mem_map.mp hc
  exact ⟨rfl, rfl⟩

theorem rollback_notForgotten_answered :
    NotForgotten graceConfig brokenApp.id .empty
      ([(0, none), (60, none), (80, none)].map fun call => failedAt call.1 call.2) := by
  refine (rollback_notForgotten_iff graceConfig brokenApp .empty _ (untracked_empty _)
    (sameTarget_failedAt _)).mpr ?_
  intro first second rest hdues
  have hfirst : failedAt 60 none = first := (List.cons.inj hdues).1
  rw [← hfirst]
  rfl

/-- The server cannot be reached when the grace period has passed; twenty seconds later nothing is sent. -/
theorem rollback_forgotten_unreachable :
    ¬ NotForgotten graceConfig brokenApp.id .empty
      [failedAt 0 none, failedAt 60 (some "connection refused"), failedAt 80 none] := by
  intro h
  have hsame := sameTarget_failedAt [(0, none), (60, some "connection refused")]
  have hall := sameTarget_failedAt [(0, none), (60, some "connection refused"), (80, none)]
  have hunanswered : ¬ Answered graceConfig brokenApp.id .empty
      [failedAt 0 none, failedAt 60 (some "connection refused")] := by
    intro hanswered
    obtain ⟨first, rest, hdues, hpost⟩ := (answered_iff (untracked_empty brokenApp) hsame).mp hanswered
    have hfirst : failedAt 60 (some "connection refused") = first := (List.cons.inj hdues).1
    rw [← hfirst] at hpost
    cases hpost
  have hdue : failedAt 80 none ∈ dues graceConfig brokenApp.id
      ([failedAt 0 none, failedAt 60 (some "connection refused")] ++ [failedAt 80 none]) := .tail _ (.head _)
  have hposts := (posts_iff (untracked_empty brokenApp) hall rfl).mp (h _ _ [] rfl hdue hunanswered)
  cases hposts.2

end

/-- The deployment should run, and where signatures are enforced its image was verified. -/
def MayStart (cfg : RunnerConfig) (cmds : Commands) (d : Deployment) : Prop :=
  d.desiredState ≠ "stopped" ∧
    ((if d.signatureMode = "" then cfg.signatureMode else d.signatureMode) = "enforce" → cmds.verify.err = none)

theorem get?_startContainer (cmds : Commands) (docker : Docker) (d : Deployment) (name : String) :
    (startContainer cmds docker d).docker.get? name = docker.get? name ∨
      name = containerName d ∧ ∀ c ∈ (startContainer cmds docker d).docker.get? name, c.image = d.image := by
  unfold startContainer runContainer removeForced
  grind [get?_put, get?_remove, runArgs]

/-- Only the container of the deployment can change: it is gone, or new with the image. -/
theorem get?_reconcileDocker (cfg : RunnerConfig) (cmds : Commands) (docker : Docker) (d : Deployment) (name : String) :
    (reconcileDocker cfg cmds docker d).docker.get? name = docker.get? name ∨
      name = containerName d ∧ ∀ c ∈ (reconcileDocker cfg cmds docker d).docker.get? name,
        c.image = d.image ∧ MayStart cfg cmds d := by
  have hstart := get?_startContainer cmds docker d name
  unfold reconcileDocker MayStart
  generalize (if d.signatureMode = "" then cfg.signatureMode else d.signatureMode) = mode
  dsimp only
  split
  · unfold removeForced
    grind [get?_remove]
  · next hwanted =>
    split
    · exact .inl rfl
    · cases hverify : verifyImageSignature cmds.verify d.image mode with
      | none =>
        have hverified : mode = "enforce" → cmds.verify.err = none := by
          rintro rfl
          simpa [verifyImageSignature] using hverify
        grind
      | some err => grind

theorem syncOne_docker (cfg : RunnerConfig) (a : Runner) (turn : Turn) (d : Deployment) :
    (syncOne cfg a turn d).docker = (reconcileDocker cfg turn.commands a.docker d).docker := by
  unfold syncOne
  dsimp only
  split <;> rfl

/-- Whatever is asked for and however the commands end, a pass touches only containers of its deployments, and one
that it starts has the image of such a deployment, verified in this pass where signatures are enforced. -/
theorem syncDeployments_starts_only_wanted (cfg : RunnerConfig) (a : Runner) (turns : List (Turn × Deployment))
    (name : String) :
    (syncDeployments cfg a (some turns)).docker.get? name = a.docker.get? name ∨
      (∃ turn ∈ turns, name = containerName turn.2) ∧
        ∀ c ∈ (syncDeployments cfg a (some turns)).docker.get? name, ∃ turn ∈ turns,
          name = containerName turn.2 ∧ c.image = turn.2.image ∧ MayStart cfg turn.1.commands turn.2 := by
  unfold syncDeployments
  split
  · rw [getD_some]
    induction turns generalizing a with
    | nil => exact .inl rfl
    | cons turn rest ih =>
      have hfirst := get?_reconcileDocker cfg turn.1.commands a.docker turn.2 name
      rw [← syncOne_docker] at hfirst
      rw [foldl_cons]
      rcases ih (syncOne cfg a turn.1 turn.2) with hsame | ⟨⟨later, hlater, hname⟩, hstarted⟩
      · rw [hsame]
        apply hfirst.imp_right
        rintro ⟨hname, hnew⟩
        exact ⟨⟨turn, mem_cons_self, hname⟩, fun c hc => ⟨turn, mem_cons_self, hname, hnew c hc⟩⟩
      · refine .inr ⟨⟨later, mem_cons_of_mem _ hlater, hname⟩, fun c hc => ?_⟩
        obtain ⟨started, hmem, hrest⟩ := hstarted c hc
        exact ⟨started, mem_cons_of_mem _ hmem, hrest⟩
  · exact .inl rfl

end Nodra.Agent
