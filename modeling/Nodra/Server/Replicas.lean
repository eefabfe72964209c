import Nodra.Queue.Postgres
import Nodra.Server.Model

/-! `processDeliveries` on several replicas in Postgres mode.  The replicas share the two
tables and the clock; a step makes one SQL statement, one request to a target or one
access to what a replica keeps for itself.  How `processOne` goes on after each of its
calls is the same as in file mode. -/
namespace Nodra.Replicas
open Model Server List Option

structure Env where
  deliveryBytes : Delivery → Int
  deadLetterBytes : Delivery → String → Int
  deliveryColumn : Delivery → Int
  deadLetterColumn : DeadLetter → Int

structure Config where
  workerConcurrency : Nat
  deliveryClaimLease : Time
  options : Queue.Options

inductive Observation where
  | put (d : Delivery)
  | attempted (d : Delivery) (stored : Option Delivery) (now : Time) (ok : Bool)
  | deadLettered (id : String)
deriving DecidableEq

structure Cluster where
  deliveries : PostgresQueue.Table Delivery := .empty
  dlq : PostgresQueue.Table DeadLetter := .empty
  clock : Time := 0
  history : List Observation := []

/-- An action of `processOne` on the tables; the alert is not followed. -/
def Cluster.apply (s : Cluster) : Action → Cluster
  | .putDelivery d => { s with deliveries := PostgresQueue.insert s.deliveries d.id d }
  | .deleteDelivery id => { s with deliveries := s.deliveries.remove id }
  | .putDeadLetter dl =>
    { s with
      dlq := PostgresQueue.insert s.dlq dl.delivery.id dl
      history := s.history ++ [.deadLettered dl.delivery.id] }
  | _ => s

inductive Target where
  | delivery
  | deadLetter (reason : String)

def Target.progress : Target → ProcessOne.Progress
  | .delivery => .reschedule
  | .deadLetter reason => .deadLetter reason

def Target.stats (env : Env) (s : Cluster) : Target → PostgresQueue.Stats
  | .delivery => PostgresQueue.stats env.deliveryColumn s.deliveries
  | .deadLetter _ => PostgresQueue.stats env.deadLetterColumn s.dlq

def Target.has (s : Cluster) (id : String) : Target → Bool
  | .delivery => id ∈ s.deliveries
  | .deadLetter _ => id ∈ s.dlq

def Target.bytes (env : Env) (d : Delivery) : Target → Int
  | .delivery => env.deliveryBytes d
  | .deadLetter reason => env.deadLetterBytes d reason

def target? : ProcessOne.Progress → Option Target
  | .reschedule => some .delivery
  | .deadLetter reason => some (.deadLetter reason)
  | _ => none

/-- `stats` and `get` are the statements of a `Put` before its write. -/
inductive Job.Progress where
  | run (p : ProcessOne.Progress)
  | stats (target : Target)
  | get (target : Target) (st : PostgresQueue.Stats)

def Job.enter (opts : Queue.Options) (p : ProcessOne.Progress) : Job.Progress :=
  match target? p with
  | some target => if PostgresQueue.limited opts then .stats target else .run p
  | none => .run p

def callError (choice : Choice) (d : Delivery) (p : ProcessOne.Progress) : Option String :=
  if (target? p).isSome ∧ d.id = "" then some "queue id is required" else choice.error

/-- One step of `processOne`.  Errors of `Stats` and `Get` are read as an empty table. -/
def Job.next (env : Env) (cfg : Config) (choice : Choice) (s : Cluster) (d : Delivery) :
    Job.Progress → Action × Option (Delivery × Job.Progress)
  | .stats target =>
    (.none, some (d, .get target (if choice.error.isSome then {} else target.stats env s)))
  | .get target st =>
    let there := choice.error.isNone && target.has s d.id
    if PostgresQueue.full cfg.options st there (target.bytes env d) then (.none, some (d, .run .finish))
    else (.none, some (d, .run target.progress))
  | .run p =>
    let step := ProcessOne.next { choice with error := callError choice d p } d p
    (step.1, step.2.map fun next => (next.1, Job.enter cfg.options next.2))

/-- A goroutine of `processDeliveries`, with the times of its claim and of its start. -/
structure Job where
  d : Delivery
  since : Time
  started : Time
  progress : Job.Progress

def Job.observed (choice : Choice) (s : Cluster) (job : Job) : List Observation :=
  match job.progress with
  | .run .deliver =>
    [.attempted job.d (PostgresQueue.get s.deliveries job.d.id) choice.now choice.error.isNone]
  | _ => []

/-- Where the loop of `processDeliveries` stands; a claim is kept with its time. -/
inductive Tick where
  | idle
  | listed (items : List Delivery)
  | loop (now : Time) (items : List Delivery)
  | claimed (now : Time) (d : Delivery) (since : Time) (rest : List Delivery)
  | release (now : Time) (d : Delivery) (since : Time) (rest : List Delivery)
  | slot (now : Time) (d : Delivery) (since : Time) (rest : List Delivery)

structure Replica where
  instanceID : String
  tick : Tick := .idle
  inflight : List String := []
  jobs : List Job := []

/-- The environment's part in a step of a replica; `job` says which goroutine moves. -/
structure ReplicaChoice extends Choice where
  job : Option Nat := none

def Replica.claims? (cfg : Config) (choice : ReplicaChoice) (s : Cluster) (r : Replica) :
    Option Delivery :=
  match r.tick with
  | .loop now (d :: _) =>
    if d.nextAttempt > now ∨ d.id = "" ∨ r.instanceID = "" ∨ choice.error.isSome then none
    else
      (PostgresQueue.tryClaim s.deliveries d.id r.instanceID cfg.deliveryClaimLease choice.now).map
        fun _ => d
  | _ => none

/-- A step of the loop.  The ticks of a replica follow each other: `processDeliveries` waits
for its goroutines. -/
def Replica.nextTick (cfg : Config) (choice : ReplicaChoice) (s : Cluster) (r : Replica) :
    Cluster × Replica :=
  match r.tick with
  | .idle =>
    (s, if choice.error.isSome then r else { r with tick := .listed (PostgresQueue.list s.deliveries) })
  | .listed items => (s, { r with tick := .loop choice.now items })
  | .loop _ [] => (s, if r.jobs.isEmpty then { r with tick := .idle } else r)
  | .loop now (_ :: rest) =>
    match r.claims? cfg choice s with
    | none => (s, { r with tick := .loop now rest })
    | some d =>
      ({ s with deliveries := PostgresQueue.claimed s.deliveries d.id r.instanceID choice.now },
        { r with tick := .claimed now d choice.now rest })
  | .claimed now d since rest =>
    if d.id ∈ r.inflight then (s, { r with tick := .release now d since rest })
    else (s, { r with inflight := d.id :: r.inflight, tick := .slot now d since rest })
  | .release now d _ rest =>
    (if choice.error.isSome then s
      else { s with deliveries := PostgresQueue.releaseClaim s.deliveries d.id },
      { r with tick := .loop now rest })
  | .slot now d since rest =>
    -- without a free slot the loop waits
    if r.jobs.length < cfg.workerConcurrency then
      (s, { r with
        jobs := { d, since, started := choice.now, progress := .run .deliver } :: r.jobs
        tick := .loop now rest })
    else (s, r)

def Replica.nextJob (env : Env) (cfg : Config) (choice : ReplicaChoice) (s : Cluster) (r : Replica)
    (index : Nat) : Cluster × Replica :=
  match r.jobs[index]? with
  | none => (s, r)
  | some job =>
    let step := Job.next env cfg choice.toChoice s job.d job.progress
    let noted := { s with history := s.history ++ job.observed choice.toChoice s }
    (noted.apply step.1,
      { r with
        jobs := (step.2.map fun next => { job with d := next.1, progress := next.2 }).toList ++
          r.jobs.eraseIdx index
        inflight := if step.2.isNone then r.inflight.erase job.d.id else r.inflight })

/-- `put` is the `Put` of another handler: an event is ingested, or a dead letter replayed. -/
inductive Thread where
  | replica (r : Replica)
  | put (d : Delivery)

def Thread.step (env : Env) (cfg : Config) (choice : ReplicaChoice) (s : Cluster) :
    Thread → Cluster × List Thread
  | .replica r =>
    let next := match choice.job with
      | none => r.nextTick cfg choice s
      | some index => r.nextJob env cfg choice s index
    (next.1, [.replica next.2])
  | .put d =>
    (if choice.error.isSome ∨ d.id = "" then s
      else
        { s with
          deliveries := PostgresQueue.insert s.deliveries d.id d
          history := s.history ++ [.put d] }, [])

def Thread.next (env : Env) (cfg : Config) (choice : ReplicaChoice) (s : Cluster) (t : Thread) :
    Cluster × List Thread :=
  ({ (t.step env cfg choice s).1 with clock := choice.now }, (t.step env cfg choice s).2)

/-- What is put is to be attempted at least once, and was not attempted yet. -/
inductive Thread.Starts : Thread → Prop where
  | replica (instanceID : String) : Starts (.replica { instanceID })
  | put {d : Delivery} (hattempts : d.attempts = 0) (hmax : 1 ≤ d.maxAttempts) : Starts (.put d)

/-- How far the work on a claimed delivery is: not attempted, answered 2xx, to be put again
or to be put to the dead letters, put there, removed from the table. -/
inductive Phase where
  | listed
  | delivered
  | retry
  | exhausted
  | buried
  | removed
deriving DecidableEq

structure Hold where
  d : Delivery
  phase : Phase
  since : Time
  started : Option Time

def phase? : ProcessOne.Progress → Option Phase
  | .deliver => some .listed
  | .completed => some .delivered
  | .reschedule => some .retry
  | .deadLetter _ => some .exhausted
  | .drop _ => some .buried
  | .alert _ => some .removed
  | .finish => none

def Job.Progress.phase? : Job.Progress → Option Phase
  | .run p => Replicas.phase? p
  | .stats target => Replicas.phase? target.progress
  | .get target _ => Replicas.phase? target.progress

def Job.hold? (job : Job) : Option Hold :=
  job.progress.phase?.map fun phase => ⟨job.d, phase, job.since, some job.started⟩

def Tick.hold? : Tick → Option Hold
  | .claimed _ d since _ | .release _ d since _ | .slot _ d since _ => some ⟨d, .listed, since, none⟩
  | _ => none

def Replica.holds (r : Replica) : Multiset Hold := ↑r.tick.hold?.toList + ↑(r.jobs.filterMap Job.hold?)

def Thread.holds : Thread → Multiset Hold
  | .replica r => r.holds
  | .put _ => 0

def held (id : String) (pool : Multiset Thread) : Multiset Hold :=
  (pool.bind Thread.holds).filter (·.d.id = id)

section

def Thread.claims? (cfg : Config) (choice : ReplicaChoice) (s : Cluster) : Thread → Option Delivery
  | .replica r => if choice.job = none then r.claims? cfg choice s else none
  | .put _ => none

def Thread.moved? (choice : ReplicaChoice) : Thread → Option Job
  | .replica r => choice.job.bind fun index => r.jobs[index]?
  | .put _ => none

def Job.failsToPut (env : Env) (cfg : Config) (choice : Choice) (s : Cluster) (job : Job) : Bool :=
  match job.progress with
  | .run p => (target? p).isSome && (callError choice job.d p).isSome
  | .stats _ => false
  | .get target st =>
    PostgresQueue.full cfg.options st (choice.error.isNone && target.has s job.d.id)
      (target.bytes env job.d)

def Thread.begins? (cfg : Config) (choice : ReplicaChoice) : Thread → Option Hold
  | .replica r =>
    match choice.job, r.tick with
    | none, .slot _ d since _ =>
      if r.jobs.length < cfg.workerConcurrency then some ⟨d, .listed, since, none⟩ else none
    | _, _ => none
  | .put _ => none

inductive Effect (env : Env) (cfg : Config) (choice : ReplicaChoice) (s : Cluster) (t : Thread) :
    Option Hold → Option Hold → Cluster → Prop where
  | quiet : Effect env cfg choice s t none none s
  | put {d : Delivery} (ht : t = .put d) : Effect env cfg choice s t none none
      { s with
        deliveries := PostgresQueue.insert s.deliveries d.id d
        history := s.history ++ [.put d] }
  | claim {d : Delivery} (owner : String) (h : t.claims? cfg choice s = some d) :
      Effect env cfg choice s t none (some ⟨d, .listed, choice.now, none⟩)
        { s with deliveries := PostgresQueue.claimed s.deliveries d.id owner choice.now }
  | release {d : Delivery} {since : Time} : Effect env cfg choice s t (some ⟨d, .listed, since, none⟩) none
      { s with deliveries := PostgresQueue.releaseClaim s.deliveries d.id }
  | unreleased {d : Delivery} {since : Time} :
      Effect env cfg choice s t (some ⟨d, .listed, since, none⟩) none s
  | start {d : Delivery} {since : Time} (h : t.begins? cfg choice = some ⟨d, .listed, since, none⟩) :
      Effect env cfg choice s t (some ⟨d, .listed, since, none⟩)
        (some ⟨d, .listed, since, some choice.now⟩) s
  | delivered {d : Delivery} {since started : Time} :
      Effect env cfg choice s t (some ⟨d, .listed, since, some started⟩)
        (some ⟨d, .delivered, since, some started⟩)
        { s with
          history := s.history ++
            [.attempted d (PostgresQueue.get s.deliveries d.id) choice.now true] }
  | failed {d d' : Delivery} {phase : Phase} {since started : Time} (hid : d'.id = d.id)
      (hattempts : d'.attempts = d.attempts + 1) (hmax : d'.maxAttempts = d.maxAttempts)
      (hphase : phase = .retry ∧ d'.attempts < d'.maxAttempts ∨ phase = .exhausted) :
      Effect env cfg choice s t (some ⟨d, .listed, since, some started⟩)
        (some ⟨d', phase, since, some started⟩)
        { s with
          history := s.history ++
            [.attempted d (PostgresQueue.get s.deliveries d.id) choice.now false] }
  | rescheduled {d : Delivery} {since started : Time} :
      Effect env cfg choice s t (some ⟨d, .retry, since, some started⟩) none
        { s with deliveries := PostgresQueue.insert s.deliveries d.id d }
  | buried {d : Delivery} {since started : Time} (dlq : PostgresQueue.Table DeadLetter) :
      Effect env cfg choice s t (some ⟨d, .exhausted, since, some started⟩)
        (some ⟨d, .buried, since, some started⟩)
        { s with dlq, history := s.history ++ [.deadLettered d.id] }
  | completed {d : Delivery} {since started : Time} :
      Effect env cfg choice s t (some ⟨d, .delivered, since, some started⟩) none
        { s with deliveries := s.deliveries.remove d.id }
  | dropped {d : Delivery} {since started : Time} :
      Effect env cfg choice s t (some ⟨d, .buried, since, some started⟩)
        (some ⟨d, .removed, since, some started⟩) { s with deliveries := s.deliveries.remove d.id }
  | ended {hold : Hold} (hphase : hold.phase = .delivered ∨ hold.phase = .buried ∨ hold.phase = .removed)
      (hstarted : hold.started.isSome) : Effect env cfg choice s t (some hold) none s
  | unput {hold : Hold} {job : Job} (hmoved : t.moved? choice = some job)
      (hfails : job.failsToPut env cfg choice.toChoice s) (hstarted : hold.started.isSome) :
      Effect env cfg choice s t (some hold) none s

variable {env : Env} {cfg : Config} {choice : ReplicaChoice} {s : Cluster}

@[simp] theorem phase?_enter (opts : Queue.Options) (p : ProcessOne.Progress) :
    (Job.enter opts p).phase? = phase? p := by
  unfold Job.enter
  split
  · next target htarget =>
    have hp : target.progress = p := by
      cases p <;> cases htarget <;> rfl
    split <;> simp only [Job.Progress.phase?, hp]
  · rfl

def Job.after? (env : Env) (cfg : Config) (choice : Choice) (s : Cluster) (job : Job) : Option Hold :=
  ((Job.next env cfg choice s job.d job.progress).2.map fun next =>
    ({ job with d := next.1, progress := next.2 } : Job)).bind Job.hold?

def Job.cluster (env : Env) (cfg : Config) (choice : Choice) (s : Cluster) (job : Job) : Cluster :=
  { s with history := s.history ++ job.observed choice s }.apply
    (Job.next env cfg choice s job.d job.progress).1

theorem after?_run (d : Delivery) (since started : Time) (p : ProcessOne.Progress) (choice : Choice) :
    Job.after? env cfg choice s ⟨d, since, started, .run p⟩ =
      (ProcessOne.next { choice with error := callError choice d p } d p).2.bind fun next =>
        (phase? next.2).map fun phase => ⟨next.1, phase, since, some started⟩ := by
  simp only [Job.after?, Job.next]
  cases (ProcessOne.next { choice with error := callError choice d p } d p).2 with
  | none => rfl
  | some next => simp only [map_some, bind_some, Job.hold?, phase?_enter]

theorem effect_run {t : Thread} {job : Job} {p : ProcessOne.Progress} (hp : job.progress = .run p)
    (hmoved : t.moved? choice = some job) :
    (job.after? env cfg choice.toChoice s = job.hold? ∧ job.cluster env cfg choice.toChoice s = s) ∨
      Effect env cfg choice s t job.hold? (job.after? env cfg choice.toChoice s)
        (job.cluster env cfg choice.toChoice s) := by
  obtain ⟨d, since, started, progress⟩ := job
  subst hp
  have hfails : (target? p).isSome → (callError choice.toChoice d p).isSome →
      Job.failsToPut env cfg choice.toChoice s ⟨d, since, started, .run p⟩ :=
    fun h h' => Bool.and_eq_true_iff.mpr ⟨h, h'⟩
  rw [after?_run]
  simp only [Job.cluster, Job.hold?, Job.next, Job.observed, Job.Progress.phase?]
  cases p with
  | deliver =>
    refine .inr ?_
    simp only [ProcessOne.next, callError, target?, isSome_none, Bool.false_eq_true, false_and,
      if_false]
    cases choice.error with
    | none => exact .delivered
    | some err =>
      simp only
      split
      · simp only [bind_some, phase?, map_some]
        exact .failed rfl rfl rfl (.inr rfl)
      · next hmax =>
        simp only [bind_some, phase?, map_some]
        exact .failed rfl rfl rfl (.inl ⟨rfl, by simpa using hmax⟩)
  | completed =>
    refine .inr ?_
    simp only [ProcessOne.next, append_nil]
    split
    · exact .ended (.inl rfl) rfl
    · exact .completed
  | deadLetter reason =>
    refine .inr ?_
    simp only [ProcessOne.next, append_nil]
    split
    · next herror => exact .unput hmoved (hfails rfl herror) rfl
    · exact .buried _
  | drop reason =>
    refine .inr ?_
    simp only [ProcessOne.next, append_nil]
    split
    · exact .ended (.inr (.inl rfl)) rfl
    · exact .dropped
  | alert reason =>
    refine .inr ?_
    simp only [ProcessOne.next, append_nil]
    split <;> exact .ended (.inr (.inr rfl)) rfl
  | reschedule =>
    refine .inr ?_
    simp only [ProcessOne.next, append_nil]
    split
    · next herror => exact .unput hmoved (hfails rfl herror) rfl
    · exact .rescheduled
  | finish =>
    refine .inl ⟨rfl, ?_⟩
    simp only [ProcessOne.next, append_nil]
    rfl

theorem effect_job {t : Thread} {job : Job} (hmoved : t.moved? choice = some job) :
    (job.after? env cfg choice.toChoice s = job.hold? ∧ job.cluster env cfg choice.toChoice s = s) ∨
      Effect env cfg choice s t job.hold? (job.after? env cfg choice.toChoice s)
        (job.cluster env cfg choice.toChoice s) := by
  cases hp : job.progress with
  | run p => exact effect_run hp hmoved
  | stats target =>
    refine .inl ⟨?_, ?_⟩
    · simp only [Job.after?, Job.hold?, Job.next, hp, map_some, bind_some,
        Job.Progress.phase?]
    · simp only [Job.cluster, Job.next, Job.observed, hp, append_nil, Cluster.apply]
  | get target st =>
    have hcluster : job.cluster env cfg choice.toChoice s = s := by
      simp only [Job.cluster, Job.next, Job.observed, hp, append_nil]
      split <;> rfl
    by_cases hfull : PostgresQueue.full cfg.options st
        (choice.error.isNone && target.has s job.d.id) (target.bytes env job.d)
    · have hfails : job.failsToPut env cfg choice.toChoice s := by
        simp only [Job.failsToPut, hp, hfull]
      obtain ⟨phase, hphase⟩ : ∃ phase, phase? target.progress = some phase := by
        cases target <;> exact ⟨_, rfl⟩
      have hafter : job.after? env cfg choice.toChoice s = none := by
        simp only [Job.after?, Job.next, hp, hfull, if_true]
        rfl
      refine .inr ?_
      rw [hcluster, hafter, Job.hold?, hp, Job.Progress.phase?, hphase]
      exact .unput hmoved hfails rfl
    · refine .inl ⟨?_, hcluster⟩
      simp only [Job.after?, Job.hold?, Job.next, hp, hfull, Bool.false_eq_true, if_false,
        map_some, bind_some, Job.Progress.phase?]

/-- A step moves one piece of work at most: the work of its thread before it, the same after
it, and what it does to the tables. -/
def Moves (env : Env) (cfg : Config) (choice : ReplicaChoice) (s : Cluster) (t : Thread)
    (holds : Multiset Hold) (s' : Cluster) : Prop :=
  ∃ before after rest, t.holds = ↑before.toList + rest ∧ holds = ↑after.toList + rest ∧
    Effect env cfg choice s t before after s'

theorem Moves.quiet {t : Thread} {holds : Multiset Hold} (h : holds = t.holds) :
    Moves env cfg choice s t holds s :=
  ⟨none, none, t.holds, (Multiset.zero_add _).symm, h.trans (Multiset.zero_add _).symm, .quiet⟩

theorem moves_tick (hjob : choice.job = none) (r : Replica) :
    Moves env cfg choice s (.replica r) (r.nextTick cfg choice s).2.holds
      (r.nextTick cfg choice s).1 := by
  obtain ⟨instanceID, tick, inflight, jobs⟩ := r
  cases tick with
  | idle =>
    refine .quiet ?_
    simp only [Replica.nextTick]
    split <;> rfl
  | listed items => exact .quiet rfl
  | claimed now d since rest =>
    simp only [Replica.nextTick]
    split <;> exact .quiet rfl
  | release now d since rest =>
    refine ⟨some ⟨d, .listed, since, none⟩, none, ↑(jobs.filterMap Job.hold?), rfl, rfl, ?_⟩
    simp only [Replica.nextTick]
    split
    · exact .unreleased
    · exact .release
  | slot now d since rest =>
    simp only [Replica.nextTick]
    split
    · next hfree =>
      refine ⟨some ⟨d, .listed, since, none⟩, some ⟨d, .listed, since, some choice.now⟩,
        ↑(jobs.filterMap Job.hold?), rfl, rfl, .start ?_⟩
      simp only [Thread.begins?, hjob, if_pos hfree]
    · exact .quiet rfl
  | loop now items =>
  cases items with
  | nil =>
    refine .quiet ?_
    simp only [Replica.nextTick]
    split <;> rfl
  | cons d rest =>
    cases hclaims : Replica.claims? cfg choice s ⟨instanceID, .loop now (d :: rest), inflight, jobs⟩ with
    | none =>
      simp only [Replica.nextTick, hclaims]
      exact .quiet rfl
    | some d' =>
      simp only [Replica.nextTick, hclaims]
      refine ⟨none, some ⟨d', .listed, choice.now, none⟩, ↑(jobs.filterMap Job.hold?), rfl, rfl,
        .claim _ ?_⟩
      simp only [Thread.claims?, hjob, if_true, hclaims]

theorem coe_filterMap_toList (job : Option Job) (jobs : List Job) :
    (↑((job.toList ++ jobs).filterMap Job.hold?) : Multiset Hold) =
      ↑(job.bind Job.hold?).toList + ↑(jobs.filterMap Job.hold?) := by
  cases job with
  | none => rfl
  | some job =>
    rw [filterMap_append, bind_some, Multiset.coe_add]
    cases h : job.hold? <;> simp [h]

theorem moves_job {index : Nat} (hjob : choice.job = some index) (r : Replica) :
    Moves env cfg choice s (.replica r) (r.nextJob env cfg choice s index).2.holds
      (r.nextJob env cfg choice s index).1 := by
  cases hget : r.jobs[index]? with
  | none =>
    simp only [Replica.nextJob, hget]
    exact .quiet rfl
  | some job =>
    have hmoved : (Thread.replica r).moved? choice = some job := by
      simp only [Thread.moved?, hjob, bind_some, hget]
    have hcluster : (r.nextJob env cfg choice s index).1 = job.cluster env cfg choice.toChoice s := by
      simp only [Replica.nextJob, hget]
      rfl
    -- the work of the other goroutines, and of the loop
    let rest : Multiset Hold :=
      ↑r.tick.hold?.toList + ↑((r.jobs.eraseIdx index).filterMap Job.hold?)
    have hbefore : (Thread.replica r).holds = ↑job.hold?.toList + rest := by
      obtain ⟨hlt, rfl⟩ := List.getElem?_eq_some_iff.mp hget
      have hperm := (getElem_cons_eraseIdx_perm hlt).symm.filterMap Job.hold?
      simp only [Thread.holds, Replica.holds, rest, Multiset.coe_eq_coe.mpr hperm]
      rw [show r.jobs[index] :: r.jobs.eraseIdx index = (some r.jobs[index]).toList ++ _ from rfl,
        coe_filterMap_toList, bind_some, add_left_comm]
    have hafter : (r.nextJob env cfg choice s index).2.holds =
        ↑(job.after? env cfg choice.toChoice s).toList + rest := by
      simp only [Replica.nextJob, hget, Replica.holds, coe_filterMap_toList, rest]
      exact add_left_comm _ _ _
    have heffect : _ ∨ Effect env cfg choice s (.replica r) _ _ _ := effect_job hmoved
    rw [hcluster]
    rcases heffect with ⟨hhold, hs⟩ | heffect
    · rw [hs]
      exact .quiet (hafter.trans (hhold ▸ hbefore.symm))
    · exact ⟨_, _, rest, hbefore, hafter, heffect⟩

theorem moves_step (env : Env) (cfg : Config) (choice : ReplicaChoice) (s : Cluster) (t : Thread) :
    Moves env cfg choice s t ((↑(t.step env cfg choice s).2 : Multiset Thread).bind Thread.holds)
      (t.step env cfg choice s).1 := by
  cases t with
  | put d =>
    refine ⟨none, none, 0, rfl, rfl, ?_⟩
    simp only [Thread.step]
    split
    · exact .quiet
    · exact .put rfl
  | replica r =>
    have hpool (r' : Replica) :
        ((↑[Thread.replica r'] : Multiset Thread).bind Thread.holds) = r'.holds := by
      simp [Thread.holds]
    cases hjob : choice.job with
    | none =>
      simp only [Thread.step, hjob, hpool]
      exact moves_tick hjob r
    | some index =>
      simp only [Thread.step, hjob, hpool]
      exact moves_job hjob r

end

end Nodra.Replicas
