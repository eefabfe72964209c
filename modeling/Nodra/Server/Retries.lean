import Nodra.Server.Replicas

/-! The accounts of retries over several replicas: how often a delivery is attempted, and when. -/
namespace Nodra.Replicas
open Model Server Interleave List Option OrderedMap

variable {id : String} {s s' : Cluster} {rest : Multiset Hold} {env : Env} {cfg : Config}
  {choice : ReplicaChoice} {t : Thread} {clock : Time}

def isAttempt (id : String) : Observation → Bool
  | .attempted d _ _ _ => d.id = id
  | _ => false

def untilDead (id : String) (history : List Observation) : List Observation :=
  history.takeWhile (· ≠ .deadLettered id)

/-- How retries are accounted for.  The stored number of attempts does not decrease, no attempt
is made before the time that is stored for it, and a delivery whose target always fails is
not attempted more often than it may be. -/
structure RetriesKept (sys : System Cluster Thread ReplicaChoice) (clock : Time) : Prop where
  attempts : ∀ c c', sys.Run ⟨{ clock }, 0⟩ c → sys.Run c c' → ∀ id,
    ∀ row ∈ c.shared.deliveries.get? id, ∀ row' ∈ c'.shared.deliveries.get? id,
      row.data.attempts ≤ row'.data.attempts
  due : ∀ c, sys.Run ⟨{ clock }, 0⟩ c → ∀ d stored now ok,
    .attempted d stored now ok ∈ c.shared.history → ∀ v ∈ stored, v.nextAttempt ≤ now
  bounded : ∀ c, sys.Run ⟨{ clock }, 0⟩ c → ∀ d, .put d ∈ c.shared.history →
    (∀ d' stored now ok, .attempted d' stored now ok ∈ c.shared.history → d'.id = d.id → ok = false) →
    ((untilDead d.id c.shared.history).countP (isAttempt d.id) : Int) ≤ d.maxAttempts

/-- What is assumed of every step: the clock does not go back, a lease does not expire while
the delivery is worked on, and a delivery is put by a handler once. -/
structure Regular (cfg : Config) (choice : ReplicaChoice) (s : Cluster) (t : Thread)
    (others : Multiset Thread) : Prop where
  clock : s.clock ≤ choice.now
  lease : ∀ d ∈ t.claims? cfg choice s, ∀ row ∈ s.deliveries.get? d.id, row.claim.isSome →
    held d.id (t ::ₘ others) = 0
  once : ∀ d, t = .put d → ∀ d', .put d' ∈ s.history → d'.id ≠ d.id

/-- A claim finds the record as it was listed, and no `Put` of `processOne` fails. -/
structure Current (env : Env) (cfg : Config) (choice : ReplicaChoice) (s : Cluster) (t : Thread) :
    Prop where
  listed : ∀ d ∈ t.claims? cfg choice s, ∀ row ∈ s.deliveries.get? d.id, row.data = d
  puts : ∀ job ∈ t.moved? choice, job.failsToPut env cfg choice.toChoice s = false

def regularSystem (env : Env) (cfg : Config) : System Cluster Thread ReplicaChoice where
  starts := Thread.Starts
  next := Thread.next env cfg
  allowed := Regular cfg

def currentSystem (env : Env) (cfg : Config) : System Cluster Thread ReplicaChoice :=
  { regularSystem env cfg with
    allowed := fun choice s t others => Regular cfg choice s t others ∧ Current env cfg choice s t }

section

def isFailure (id : String) : Observation → Bool
  | .attempted d _ _ ok => d.id = id && !ok
  | _ => false

def tries (id : String) (history : List Observation) : Nat :=
  (untilDead id history).countP (isFailure id)

variable {history : List Observation}

theorem untilDead_append_of_mem (h : .deadLettered id ∈ history) (more : List Observation) :
    untilDead id (history ++ more) = untilDead id history := by
  induction history with
  | nil => cases h
  | cons o history ih =>
    by_cases ho : o = .deadLettered id
    · simp [untilDead, ho]
    · have hmem : .deadLettered id ∈ history := by
        simpa [Ne.symm ho] using h
      simpa [untilDead, ho] using ih hmem

theorem untilDead_of_not_mem (h : .deadLettered id ∉ history) : untilDead id history = history := by
  refine takeWhile_eq_self_iff.mpr fun o ho => ?_
  simp only [ne_eq, decide_not, Bool.not_eq_true', decide_eq_false_iff_not]
  rintro rfl
  exact h ho

theorem untilDead_append_of_not_mem (h : .deadLettered id ∉ history) (more : List Observation) :
    untilDead id (history ++ more) = history ++ untilDead id more := by
  refine takeWhile_append_of_pos fun o ho => ?_
  simp only [ne_eq, decide_not, Bool.not_eq_true', decide_eq_false_iff_not]
  rintro rfl
  exact h ho

theorem tries_append_of_mem (h : .deadLettered id ∈ history) (more : List Observation) :
    tries id (history ++ more) = tries id history := by
  rw [tries, untilDead_append_of_mem h, tries]

theorem tries_append_of_not_mem (h : .deadLettered id ∉ history) (more : List Observation) :
    tries id (history ++ more) = tries id history + tries id more := by
  rw [tries, untilDead_append_of_not_mem h, countP_append, tries, untilDead_of_not_mem h, tries]

end

section

def work (id : String) (holds : Multiset Hold) : Multiset Hold :=
  holds.filter fun hold => hold.d.id = id ∧ hold.phase ≠ .removed

def Phase.owed : Phase → Int
  | .retry | .exhausted => 1
  | _ => 0

/-- The copy of a delivery that is worked on against the stored record. -/
def Agrees (clock : Time) (v : Delivery) (hold : Hold) : Prop :=
  match hold.phase with
  | .listed => hold.d = v ∧ v.nextAttempt ≤ clock
  | .retry =>
    hold.d.attempts = v.attempts + 1 ∧ hold.d.maxAttempts = v.maxAttempts ∧
      hold.d.attempts < hold.d.maxAttempts
  | _ => True

def Free (id : String) (s : Cluster) (holds : Multiset Hold) : Prop :=
  work id holds = 0 ∧ (.deadLettered id ∉ s.history → ∀ row ∈ s.deliveries.get? id,
    (tries id s.history : Int) = row.data.attempts)

def Busy (id : String) (s : Cluster) (holds : Multiset Hold) : Prop :=
  ∃ hold row, work id holds = {hold} ∧ s.deliveries.get? id = some row ∧ row.claim.isSome ∧
    Agrees s.clock row.data hold ∧ (hold.phase = .buried → .deadLettered id ∈ s.history) ∧
    (.deadLettered id ∉ s.history → (tries id s.history : Int) = row.data.attempts + hold.phase.owed)

structure Sound (id : String) (s : Cluster) (holds : Multiset Hold) : Prop where
  working : Free id s holds ∨ Busy id s holds
  stored : ∀ row ∈ s.deliveries.get? id, row.data.attempts < row.data.maxAttempts ∧
    ∃ d, .put d ∈ s.history ∧ d.id = id ∧ row.data.maxAttempts = d.maxAttempts
  bounded : ∀ d, .put d ∈ s.history → d.id = id → (tries id s.history : Int) ≤ d.maxAttempts
  once : ∀ d d', .put d ∈ s.history → .put d' ∈ s.history → d.id = id → d'.id = id → d = d'
  unknown : (∀ d, .put d ∈ s.history → d.id ≠ id) → tries id s.history = 0 ∧ .deadLettered id ∉ s.history
  due : ∀ d stored now ok, .attempted d stored now ok ∈ s.history → d.id = id →
    ∀ v ∈ stored, v.nextAttempt ≤ now

variable {holds holds' : Multiset Hold}

theorem Agrees.mono {clock' : Time} {v : Delivery} {hold : Hold} (h : Agrees clock v hold)
    (hclock : clock ≤ clock') : Agrees clock' v hold := by
  unfold Agrees at h ⊢
  split
  · next hphase =>
    rw [hphase] at h
    exact ⟨h.1, h.2.trans hclock⟩
  · next hphase =>
    rw [hphase] at h
    exact h
  · trivial

def Concerns (id : String) : Observation → Prop
  | .put d | .attempted d _ _ _ => d.id = id
  | .deadLettered id' => id' = id

variable {more : List Observation}

theorem tries_eq_zero_of_forall (h : ∀ o ∈ more, ¬ Concerns id o) :
    tries id more = 0 := by
  refine countP_eq_zero.mpr fun o ho hfailure => h o ((List.takeWhile_prefix _).subset ho) ?_
  cases o with
  | attempted d stored now ok =>
    simp only [isFailure, Bool.and_eq_true, decide_eq_true_eq] at hfailure
    exact hfailure.1
  | put d => cases hfailure
  | deadLettered id' => cases hfailure

theorem Sound.frame (h : Sound id s holds)
    (hrow : s'.deliveries.get? id = s.deliveries.get? id) (hclock : s.clock ≤ s'.clock)
    (hhistory : s'.history = s.history ++ more) (hmore : ∀ o ∈ more, ¬ Concerns id o)
    (hwork : work id holds' = work id holds) : Sound id s' holds' := by
  have hdead : .deadLettered id ∈ s'.history ↔ .deadLettered id ∈ s.history := by
    rw [hhistory, mem_append, or_iff_left_iff_imp]
    exact fun hmem => (hmore _ hmem rfl).elim
  have hput : ∀ d, d.id = id → (.put d ∈ s'.history ↔ .put d ∈ s.history) := by
    intro d hd
    rw [hhistory, mem_append, or_iff_left_iff_imp]
    exact fun hmem => (hmore _ hmem hd).elim
  have htries : tries id s'.history = tries id s.history := by
    rw [hhistory]
    by_cases hmem : .deadLettered id ∈ s.history
    · exact tries_append_of_mem hmem more
    · rw [tries_append_of_not_mem hmem, tries_eq_zero_of_forall hmore, Nat.add_zero]
  constructor
  · rcases h.working with ⟨hfree, hcount⟩ | ⟨hold, row, hwork', hget, hclaim, hagrees, hburied, hcount⟩
    · refine .inl ⟨hwork.trans hfree, ?_⟩
      rw [hdead, hrow, htries]
      exact hcount
    · refine .inr ⟨hold, row, hwork.trans hwork', hrow.trans hget, hclaim, hagrees.mono hclock, ?_, ?_⟩
      · rwa [hdead]
      · rwa [hdead, htries]
  · rw [hrow]
    intro row hget
    obtain ⟨hlt, d, hmem, hid, hmax⟩ := h.stored row hget
    exact ⟨hlt, d, (hput d hid).mpr hmem, hid, hmax⟩
  · intro d hmem hid
    rw [htries]
    exact h.bounded d ((hput d hid).mp hmem) hid
  · intro d d' hmem hmem' hid hid'
    exact h.once d d' ((hput d hid).mp hmem) ((hput d' hid').mp hmem') hid hid'
  · intro hnone
    rw [htries, hdead]
    exact h.unknown fun d hmem hid => hnone d ((hput d hid).mpr hmem) hid
  · intro d stored now ok hmem hid
    rw [hhistory] at hmem
    rcases mem_append.mp hmem with hmem | hmem
    · exact h.due d stored now ok hmem hid
    · exact (hmore _ hmem hid).elim

theorem Sound.change (h : Sound id s holds)
    (hhistory : s'.history = s.history ++ more) (hnoput : ∀ d, .put d ∉ more)
    (hknown : more ≠ [] → ∃ row, s.deliveries.get? id = some row)
    (hwork : Free id s' holds' ∨ Busy id s' holds')
    (hstored : ∀ row' ∈ s'.deliveries.get? id, row'.data.attempts < row'.data.maxAttempts ∧
      ∃ row ∈ s.deliveries.get? id, row'.data.maxAttempts = row.data.maxAttempts)
    (htries : tries id s'.history = tries id s.history ∨
      ∃ row ∈ s.deliveries.get? id, (tries id s'.history : Int) ≤ row.data.maxAttempts)
    (hdue : ∀ d stored now ok, .attempted d stored now ok ∈ more → d.id = id →
      ∀ v ∈ stored, v.nextAttempt ≤ now) : Sound id s' holds' := by
  have hput : ∀ d, .put d ∈ s'.history ↔ .put d ∈ s.history := by
    intro d
    rw [hhistory, mem_append, or_iff_left_iff_imp]
    exact fun hmem => (hnoput d hmem).elim
  constructor
  · exact hwork
  · intro row' hrow'
    obtain ⟨hlt, row, hrow, hmax⟩ := hstored row' hrow'
    obtain ⟨-, d, hmem, hid, hmax'⟩ := h.stored row hrow
    exact ⟨hlt, d, (hput d).mpr hmem, hid, hmax.trans hmax'⟩
  · intro d hmem hid
    rw [hput] at hmem
    rcases htries with htries | ⟨row, hrow, hle⟩
    · rw [htries]
      exact h.bounded d hmem hid
    · obtain ⟨-, d', hmem', hid', hmax⟩ := h.stored row hrow
      rw [h.once d d' hmem hmem' hid hid', ← hmax]
      exact hle
  · intro d d' hmem hmem'
    exact h.once d d' ((hput d).mp hmem) ((hput d').mp hmem')
  · intro hnone
    have hnone' : ∀ d, .put d ∈ s.history → d.id ≠ id := fun d hmem => hnone d ((hput d).mpr hmem)
    cases more with
    | nil =>
      rw [hhistory, append_nil]
      exact h.unknown hnone'
    | cons o more =>
      obtain ⟨row, hrow⟩ := hknown (cons_ne_nil o more)
      obtain ⟨-, d, hmem, hid, -⟩ := h.stored row hrow
      exact (hnone' d hmem hid).elim
  · intro d stored now ok hmem hid
    rw [hhistory] at hmem
    rcases mem_append.mp hmem with hmem | hmem
    · exact h.due d stored now ok hmem hid
    · exact hdue d stored now ok hmem hid

theorem Sound.still (h : Sound id s holds) (hhistory : s'.history = s.history)
    (hdata : ∀ row' ∈ s'.deliveries.get? id, ∃ row ∈ s.deliveries.get? id, row'.data = row.data)
    (hwork : Free id s' holds' ∨ Busy id s' holds') : Sound id s' holds' := by
  refine h.change (hhistory.trans (append_nil _).symm) (by simp) (fun hne => (hne rfl).elim) hwork
    (fun row' hrow' => ?_) (.inl (congrArg (tries id) hhistory)) (by simp)
  obtain ⟨row, hrow, heq⟩ := hdata row' hrow'
  rw [heq]
  exact ⟨(h.stored row hrow).1, row, hrow, rfl⟩

theorem work_none : work id (↑(none : Option Hold).toList + rest) = work id rest := by
  simp [work]

theorem work_of_ne {hold : Hold} (h : hold.d.id ≠ id) :
    work id (↑(some hold).toList + rest) = work id rest := by
  simp [work, h]

theorem work_of_removed {hold : Hold} (h : hold.phase = .removed) :
    work id (↑(some hold).toList + rest) = work id rest := by
  simp [work, h]

theorem work_own {hold : Hold} (hid : hold.d.id = id) (hphase : hold.phase ≠ .removed) :
    work id (↑(some hold).toList + rest) = hold ::ₘ work id rest := by
  rw [toList_some, Multiset.coe_singleton, Multiset.singleton_add]
  exact Multiset.filter_cons_of_pos rest ⟨hid, hphase⟩

theorem Sound.own {hold : Hold} (h : Sound id s (↑(some hold).toList + rest)) (hid : hold.d.id = id)
    (hphase : hold.phase ≠ .removed) : work id rest = 0 ∧
      ∃ row, s.deliveries.get? id = some row ∧ row.claim.isSome ∧ Agrees s.clock row.data hold ∧
        (hold.phase = .buried → .deadLettered id ∈ s.history) ∧
        (.deadLettered id ∉ s.history →
          (tries id s.history : Int) = row.data.attempts + hold.phase.owed) := by
  rcases h.working with ⟨hfree, -⟩ | ⟨hold', row, hwork, hget, hclaim, hagrees, hburied, hcount⟩
  · rw [work_own hid hphase] at hfree
    exact (Multiset.cons_ne_zero hfree).elim
  · rw [work_own hid hphase] at hwork
    obtain ⟨rfl, hrest⟩ := (Multiset.singleton_eq_cons_iff _).mp hwork.symm
    exact ⟨hrest, row, hget, hclaim, hagrees, hburied, hcount⟩

end

section

variable {before after : Option Hold}

theorem Effect.frame (h : Effect env cfg choice s t before after s')
    (hbefore : ∀ hold ∈ before, hold.d.id ≠ id) (hafter : ∀ hold ∈ after, hold.d.id ≠ id)
    (hput : ∀ d, t = .put d → d.id ≠ id) :
    s'.deliveries.get? id = s.deliveries.get? id ∧
      ∃ more, s'.history = s.history ++ more ∧ ∀ o ∈ more, ¬ Concerns id o := by
  cases h with
  | quiet | unreleased | start | ended | unput => exact ⟨rfl, [], by simp, by simp⟩
  | put ht =>
    refine ⟨?_, _, rfl, by simpa [Concerns] using hput _ ht⟩
    exact (get?_put _ _ _ _).trans (if_neg (hput _ ht).symm)
  | claim owner hclaims =>
    refine ⟨?_, [], by simp, by simp⟩
    exact (get?_modify _ _ _ _).trans (if_neg (hafter _ rfl).symm)
  | release =>
    refine ⟨?_, [], by simp, by simp⟩
    exact (get?_modify _ _ _ _).trans (if_neg (hbefore _ rfl).symm)
  | delivered => exact ⟨rfl, _, rfl, by simpa [Concerns] using hbefore _ rfl⟩
  | failed => exact ⟨rfl, _, rfl, by simpa [Concerns] using hbefore _ rfl⟩
  | buried => exact ⟨rfl, _, rfl, by simpa [Concerns] using hbefore _ rfl⟩
  | rescheduled =>
    refine ⟨?_, [], by simp, by simp⟩
    exact (get?_put _ _ _ _).trans (if_neg (hbefore _ rfl).symm)
  | completed | dropped =>
    refine ⟨?_, [], by simp, by simp⟩
    exact (get?_remove _ _ _).trans (if_neg (hbefore _ rfl).symm)

theorem Sound.next_other (h : Sound id s (↑before.toList + rest))
    (heffect : Effect env cfg choice s t before after s') (hclock : s.clock ≤ choice.now)
    (hbefore : ∀ hold ∈ before, hold.d.id ≠ id) (hafter : ∀ hold ∈ after, hold.d.id ≠ id)
    (hput : ∀ d, t = .put d → d.id ≠ id) :
    Sound id { s' with clock := choice.now } (↑after.toList + rest) := by
  obtain ⟨hrow, more, hhistory, hmore⟩ := heffect.frame hbefore hafter hput
  refine h.frame hrow hclock hhistory hmore ?_
  have hrest : ∀ hold : Option Hold, (∀ hold' ∈ hold, hold'.d.id ≠ id) →
      work id (↑hold.toList + rest) = work id rest := by
    intro hold hne
    cases hold with
    | none => exact work_none
    | some hold => exact work_of_ne (hne hold rfl)
  rw [hrest before hbefore, hrest after hafter]

variable {d : Delivery} {clock' : Time}

theorem Sound.put (h : Sound id s rest) (hid : d.id = id)
    (hnone : ∀ d', .put d' ∈ s.history → d'.id ≠ id) (hattempts : d.attempts = 0)
    (hmax : 1 ≤ d.maxAttempts) (clock : Time) :
    Sound id { s with
      deliveries := PostgresQueue.insert s.deliveries d.id d
      clock
      history := s.history ++ [.put d] } rest := by
  subst hid
  have hrow : s.deliveries.get? d.id = none := by
    refine eq_none_iff_forall_ne_some.mpr fun row hrow => ?_
    obtain ⟨-, d', hmem, hid, -⟩ := h.stored row hrow
    exact hnone d' hmem hid
  have hfree : work d.id rest = 0 := by
    rcases h.working with ⟨hfree, -⟩ | ⟨hold, row, -, hget, -⟩
    · exact hfree
    · cases hrow.symm.trans hget
  have hinsert : (PostgresQueue.insert s.deliveries d.id d).get? d.id = some { data := d } :=
    get?_put_self _ _ _
  obtain ⟨hzero, hdead⟩ := h.unknown hnone
  have htries : tries d.id (s.history ++ [.put d]) = 0 := by
    rw [tries_append_of_not_mem hdead, hzero]
    simp [tries, untilDead, isFailure]
  have honly : ∀ d', .put d' ∈ s.history ++ [.put d] → d'.id = d.id → d' = d := by
    intro d' hmem hid
    rcases mem_append.mp hmem with hmem | hmem
    · exact (hnone d' hmem hid).elim
    · simpa using hmem
  constructor
  · refine .inl ⟨hfree, fun _ row hget => ?_⟩
    cases hinsert.symm.trans hget
    simp only [htries, hattempts]
    rfl
  · intro row hget
    cases hinsert.symm.trans hget
    exact ⟨by simp only; omega, d, by simp, rfl, rfl⟩
  · intro d' hmem hid
    rw [honly d' hmem hid, htries]
    omega
  · intro d' d'' hmem hmem' hid hid'
    rw [honly d' hmem hid, honly d'' hmem' hid']
  · intro hnone'
    exact (hnone' d (by simp) rfl).elim
  · intro d' stored now ok hmem hid
    exact h.due d' stored now ok (by simpa using hmem) hid

theorem Sound.claim {row : PostgresQueue.Row Delivery} (owner : String)
    (h : Sound id s rest) (hclock : s.clock ≤ choice.now) (hget : s.deliveries.get? id = some row)
    (hdata : row.data = d) (hid : d.id = id) (hdue : d.nextAttempt ≤ s.clock)
    (hfree : row.claim.isSome → work id rest = 0) :
    Sound id { s with
      deliveries := PostgresQueue.claimed s.deliveries d.id owner choice.now
      clock := choice.now } (↑(some ⟨d, .listed, choice.now, none⟩ : Option Hold).toList + rest) := by
  have hclaimed : (PostgresQueue.claimed s.deliveries d.id owner choice.now).get? id =
      some { row with claim := some ⟨owner, choice.now⟩ } := by
    rw [PostgresQueue.claimed, get?_modify, if_pos hid.symm, hid, hget]
    rfl
  obtain ⟨hnone, hcount⟩ : work id rest = 0 ∧ (.deadLettered id ∉ s.history →
      (tries id s.history : Int) = row.data.attempts) := by
    rcases h.working with ⟨hnone, hcount⟩ | ⟨hold, row', hwork, hget', hclaim, -⟩
    · exact ⟨hnone, fun hdead => hcount hdead row hget⟩
    · cases hget.symm.trans hget'
      rw [hfree hclaim] at hwork
      exact (Multiset.zero_ne_singleton _ hwork).elim
  refine h.still rfl (fun row' hrow' => ?_) (.inr ?_)
  · cases hclaimed.symm.trans hrow'
    exact ⟨row, hget, rfl⟩
  · refine ⟨⟨d, .listed, choice.now, none⟩, _, ?_, hclaimed, rfl, ⟨hdata.symm, ?_⟩, nofun, fun hdead => ?_⟩
    · refine (work_own hid ?_).trans ?_
      · nofun
      · rw [hnone]
        rfl
    · rw [hdata]
      exact hdue.trans hclock
    · simp only [Phase.owed, hcount hdead, Int.add_zero]

theorem tries_attempted {history : List Observation} {stored : Option Delivery}
    {now : Time} {ok : Bool} (hid : d.id = id) (hdead : .deadLettered id ∉ history) :
    tries id (history ++ [.attempted d stored now ok]) = tries id history + if ok then 0 else 1 := by
  rw [tries_append_of_not_mem hdead]
  cases ok <;> simp [tries, untilDead, isFailure, hid]

theorem tries_deadLettered {history : List Observation} :
    tries id (history ++ [.deadLettered id]) = tries id history := by
  by_cases hdead : .deadLettered id ∈ history
  · exact tries_append_of_mem hdead _
  · rw [tries_append_of_not_mem hdead]
    simp [tries, untilDead]

theorem Sound.attempt {d' : Delivery} {phase : Phase} {since started : Time} {ok : Bool}
    (h : Sound id s (↑(some ⟨d, .listed, since, some started⟩ : Option Hold).toList + rest))
    (hclock : s.clock ≤ choice.now) (hid : d.id = id) (hid' : d'.id = id) (hphase : phase ≠ .buried)
    (hremoved : phase ≠ .removed) (howed : phase.owed = if ok then 0 else 1)
    (hagrees : phase ≠ .listed ∧ (phase = .retry → d'.attempts = d.attempts + 1 ∧
      d'.maxAttempts = d.maxAttempts ∧ d'.attempts < d'.maxAttempts)) :
    Sound id { s with
      clock := choice.now
      history := s.history ++
        [.attempted d (PostgresQueue.get s.deliveries d.id) choice.now ok] }
      (↑(some ⟨d', phase, since, some started⟩ : Option Hold).toList + rest) := by
  obtain ⟨hnone, row, hget, hclaim, hlisted, -, hcount⟩ := h.own hid nofun
  obtain ⟨hdata, hdue⟩ : d = row.data ∧ row.data.nextAttempt ≤ s.clock := hlisted
  have hstored : PostgresQueue.get s.deliveries d.id = some row.data := by
    rw [PostgresQueue.get, hid, hget]
    rfl
  have hlt := (h.stored row hget).1
  have htries : .deadLettered id ∉ s.history →
      (tries id (s.history ++ [.attempted d (PostgresQueue.get s.deliveries d.id) choice.now ok]) : Int) =
        row.data.attempts + phase.owed := by
    intro hdead
    have hcount := hcount hdead
    rw [tries_attempted hid hdead, howed]
    simp only [Phase.owed] at hcount
    cases ok <;> simp only [if_true, Bool.false_eq_true, if_false] <;> omega
  have hdead : .deadLettered id ∈ s.history ++
      [.attempted d (PostgresQueue.get s.deliveries d.id) choice.now ok] ↔
        .deadLettered id ∈ s.history := by
    simp
  refine h.change rfl (by simp) (fun _ => ⟨row, hget⟩) (.inr ?_)
    (fun row' hrow' => ⟨(h.stored row' hrow').1, row', hrow', rfl⟩) ?_ ?_
  · refine ⟨⟨d', phase, since, some started⟩, row, ?_, hget, hclaim, ?_, fun h => (hphase h).elim, ?_⟩
    · refine (work_own hid' hremoved).trans ?_
      rw [hnone]
      rfl
    · cases phase with
      | listed => exact (hagrees.1 rfl).elim
      | retry =>
        obtain ⟨hattempts, hmax, hlast⟩ := hagrees.2 rfl
        rw [hdata] at hattempts hmax
        exact ⟨hattempts, hmax, hlast⟩
      | _ => trivial
    · rw [hdead]
      exact htries
  · by_cases hmem : .deadLettered id ∈ s.history
    · exact .inl (tries_append_of_mem hmem _)
    · refine .inr ⟨row, hget, ?_⟩
      rw [htries hmem, howed]
      cases ok <;> simp only [if_true, Bool.false_eq_true, if_false] <;> omega
  · intro e stored now ok' hmem _ v hv
    cases mem_singleton.mp hmem
    rw [hstored] at hv
    cases hv
    exact hdue.trans hclock

theorem free_of_work {holds : Multiset Hold} (hwork : work id holds = 0)
    (hrow : s.deliveries.get? id = none) : Free id s holds :=
  ⟨hwork, fun _ row hget => by cases hrow.symm.trans hget⟩

theorem Sound.settle {hold : Hold} (h : Sound id s (↑(some hold).toList + rest)) (hid : hold.d.id = id)
    (hclock : s.clock ≤ choice.now)
    (heffect : Effect env cfg choice s t (some hold) after s')
    (hfails : ∀ job ∈ t.moved? choice, job.failsToPut env cfg choice.toChoice s = false) :
    Sound id { s' with clock := choice.now } (↑after.toList + rest) := by
  cases heffect with
  | @release d since =>
    obtain ⟨hnone, row, hget, -, -, -, hcount⟩ := h.own hid nofun
    have hreleased : (PostgresQueue.releaseClaim s.deliveries d.id).get? id =
        some { row with claim := none } := by
      rw [PostgresQueue.releaseClaim, get?_modify, if_pos hid.symm, hid, hget]
      rfl
    refine h.still rfl (fun row' hrow' => ?_) (.inl ⟨work_none.trans hnone, fun hdead row' hrow' => ?_⟩)
    · cases hreleased.symm.trans hrow'
      exact ⟨row, hget, rfl⟩
    · cases hreleased.symm.trans hrow'
      exact (hcount hdead).trans (Int.add_zero _)
  | unreleased =>
    obtain ⟨hnone, row, hget, -, -, -, hcount⟩ := h.own hid nofun
    refine h.still rfl (fun row' hrow' => ⟨row', hrow', rfl⟩)
      (.inl ⟨work_none.trans hnone, fun hdead row' hrow' => ?_⟩)
    cases hget.symm.trans hrow'
    exact (hcount hdead).trans (Int.add_zero _)
  | @start d since hbegins =>
    obtain ⟨hnone, row, hget, hclaim, hagrees, hburied, hcount⟩ := h.own hid nofun
    have hid : d.id = id := hid
    refine h.still rfl (fun row' hrow' => ⟨row', hrow', rfl⟩)
      (.inr ⟨⟨d, .listed, since, some choice.now⟩, row, ?_, hget, hclaim, hagrees.mono hclock, nofun, hcount⟩)
    refine (work_own hid ?_).trans ?_
    · nofun
    · rw [hnone]
      rfl
  | delivered => exact h.attempt hclock hid hid nofun nofun rfl ⟨nofun, nofun⟩
  | failed hid' hattempts hmax hphase =>
    rcases hphase with ⟨rfl, hlt⟩ | rfl
    · exact h.attempt hclock hid (hid'.trans hid) nofun nofun rfl ⟨nofun, fun _ => ⟨hattempts, hmax, hlt⟩⟩
    · exact h.attempt hclock hid (hid'.trans hid) nofun nofun rfl ⟨nofun, nofun⟩
  | @rescheduled d since started =>
    obtain ⟨hnone, row, hget, -, hagrees, -, hcount⟩ := h.own hid nofun
    obtain ⟨hattempts, hmax, hlt⟩ : d.attempts = row.data.attempts + 1 ∧
      d.maxAttempts = row.data.maxAttempts ∧ d.attempts < d.maxAttempts := hagrees
    have hinsert : (PostgresQueue.insert s.deliveries d.id d).get? id = some { data := d } := by
      rw [PostgresQueue.insert, get?_put, if_pos hid.symm]
    refine h.change (append_nil _).symm (by simp) (fun hne => (hne rfl).elim)
      (.inl ⟨work_none.trans hnone, fun hdead row' hrow' => ?_⟩) (fun row' hrow' => ?_) (.inl rfl) (by simp)
    · cases hinsert.symm.trans hrow'
      exact (hcount hdead).trans hattempts.symm
    · cases hinsert.symm.trans hrow'
      exact ⟨hlt, row, hget, hmax⟩
  | @buried d since started dlq =>
    obtain ⟨hnone, row, hget, hclaim, -, -, -⟩ := h.own hid nofun
    have hid : d.id = id := hid
    have hdead : .deadLettered id ∈ s.history ++ [.deadLettered d.id] := by simp [hid]
    refine h.change rfl (by simp) (fun _ => ⟨row, hget⟩)
      (.inr ⟨⟨d, .buried, since, some started⟩, row, ?_, hget, hclaim, trivial, fun _ => hdead,
        fun hnot => (hnot hdead).elim⟩)
      (fun row' hrow' => ⟨(h.stored row' hrow').1, row', hrow', rfl⟩) (.inl ?_) (by simp)
    · refine (work_own hid ?_).trans ?_
      · nofun
      · rw [hnone]
        rfl
    · rw [hid]
      exact tries_deadLettered
  | @completed d since started =>
    obtain ⟨hnone, -⟩ := h.own hid nofun
    have hremoved : (s.deliveries.remove d.id).get? id = none := by
      rw [get?_remove, if_pos hid.symm]
    refine h.still rfl (fun row' hrow' => ?_) (.inl (free_of_work (work_none.trans hnone) hremoved))
    cases hremoved.symm.trans hrow'
  | @dropped d since started =>
    obtain ⟨hnone, -⟩ := h.own hid nofun
    have hremoved : (s.deliveries.remove d.id).get? id = none := by
      rw [get?_remove, if_pos hid.symm]
    refine h.still rfl (fun row' hrow' => ?_)
      (.inl (free_of_work ((work_of_removed rfl).trans hnone) hremoved))
    cases hremoved.symm.trans hrow'
  | ended hphase hstarted =>
    by_cases hremoved : hold.phase = .removed
    · exact h.frame rfl hclock (append_nil _).symm (by simp)
        (work_none.trans (work_of_removed hremoved).symm)
    · obtain ⟨hnone, row, hget, -, -, hburied, hcount⟩ := h.own hid hremoved
      refine h.still rfl (fun row' hrow' => ⟨row', hrow', rfl⟩)
        (.inl ⟨work_none.trans hnone, fun hdead row' hrow' => ?_⟩)
      cases hget.symm.trans hrow'
      rcases hphase with hphase | hphase | hphase
      · have hcount := hcount hdead
        rw [hphase] at hcount
        exact hcount.trans (Int.add_zero _)
      · exact (hdead (hburied hphase)).elim
      · exact (hremoved hphase).elim
  | unput hmoved hfail hstarted =>
    rw [hfails _ hmoved] at hfail
    cases hfail

def Tick.Passed (clock : Time) : Tick → Prop
  | .loop now _ | .claimed now _ _ _ | .release now _ _ _ | .slot now _ _ _ => now ≤ clock
  | _ => True

theorem Tick.Passed.mono {tick : Tick} (h : tick.Passed clock)
    (hclock : clock ≤ clock') : tick.Passed clock' := by
  cases tick with
  | idle | listed => trivial
  | _ => exact le_trans h hclock

theorem passed_nextTick {r : Replica} (h : r.tick.Passed choice.now) :
    (r.nextTick cfg choice s).2.tick.Passed choice.now := by
  fun_cases Replica.nextTick cfg choice s r
  case case1 =>
    simp only
    split
    · exact h
    · trivial
  case case3 =>
    simp only
    split
    · trivial
    · exact h
  all_goals simp_all [Tick.Passed]

theorem tick_nextJob (r : Replica) (index : Nat) :
    (r.nextJob env cfg choice s index).2.tick = r.tick := by
  unfold Replica.nextJob
  split <;> rfl

/-- What the threads know: a tick has its time, and what is put is new. -/
def Thread.Proper (clock : Time) : Thread → Prop
  | .put d => d.attempts = 0 ∧ 1 ≤ d.maxAttempts
  | .replica r => r.tick.Passed clock

theorem Thread.Proper.mono (h : t.Proper clock) (hclock : clock ≤ clock') :
    t.Proper clock' := by
  cases t with
  | put d => exact h
  | replica r => exact Tick.Passed.mono h hclock

theorem proper_step (h : t.Proper s.clock) (hclock : s.clock ≤ choice.now) :
    ∀ t' ∈ (t.step env cfg choice s).2, t'.Proper choice.now := by
  cases t with
  | put d => simp only [Thread.step, not_mem_nil, false_implies, implies_true]
  | replica r =>
    have hpassed : r.tick.Passed choice.now := Tick.Passed.mono h hclock
    intro t' ht'
    cases hjob : choice.job with
    | none =>
      simp only [Thread.step, hjob, mem_singleton] at ht'
      rw [ht', Thread.Proper]
      exact passed_nextTick hpassed
    | some index =>
      simp only [Thread.step, hjob, mem_singleton] at ht'
      rw [ht', Thread.Proper, tick_nextJob]
      exact hpassed

theorem claims?_eq_some (h : t.claims? cfg choice s = some d) (hproper : t.Proper s.clock) :
    d.nextAttempt ≤ s.clock ∧ ∃ row, s.deliveries.get? d.id = some row := by
  cases t with
  | put d' => cases h
  | replica r =>
    have hpassed : r.tick.Passed s.clock := hproper
    simp only [Thread.claims?] at h
    split at h
    · revert h
      fun_cases Replica.claims? cfg choice s r
      · simp
      · next now d' rest htick hready =>
        intro h
        obtain ⟨table, htable, rfl⟩ := map_eq_some_iff.mp h
        rw [htick] at hpassed
        simp only [not_or, not_lt] at hready
        refine ⟨hready.1.trans hpassed, ?_⟩
        cases hget : s.deliveries.get? d'.id with
        | none => simp [PostgresQueue.tryClaim, hget] at htable
        | some row => exact ⟨row, rfl⟩
      · simp
    · cases h

theorem Effect.id_eq {hold hold' : Hold} (h : Effect env cfg choice s t (some hold) (some hold') s') :
    hold'.d.id = hold.d.id := by
  cases h with
  | failed hid => exact hid
  | _ => rfl

theorem Sound.begin (h : Sound id s (↑(none : Option Hold).toList + rest))
    (heffect : Effect env cfg choice s t none after s') (hclock : s.clock ≤ choice.now)
    (hproper : t.Proper s.clock)
    (hlease : ∀ d ∈ t.claims? cfg choice s, ∀ row ∈ s.deliveries.get? d.id, row.claim.isSome →
      work d.id rest = 0)
    (hlisted : ∀ d ∈ t.claims? cfg choice s, ∀ row ∈ s.deliveries.get? d.id, row.data = d)
    (honce : ∀ d, t = .put d → ∀ d', .put d' ∈ s.history → d'.id ≠ d.id) :
    Sound id { s' with clock := choice.now } (↑after.toList + rest) := by
  have hnone : ∀ hold ∈ (none : Option Hold), hold.d.id ≠ id := by simp
  have hother (hafter : ∀ hold ∈ after, hold.d.id ≠ id) (hput : ∀ d, t = .put d → d.id ≠ id) :=
    h.next_other heffect hclock hnone hafter hput
  have hrest : (↑(none : Option Hold).toList : Multiset Hold) + rest = rest := zero_add rest
  rw [hrest] at h
  cases heffect with
  | quiet => exact h.frame rfl hclock (append_nil _).symm (by simp) work_none
  | @put d ht =>
    subst ht
    by_cases hid : d.id = id
    · rw [hrest]
      refine h.put hid (fun d' hmem hid' => ?_) hproper.1 hproper.2 choice.now
      exact honce d rfl d' hmem (hid'.trans hid.symm)
    · refine hother hnone ?_
      rintro _ ⟨⟩
      exact hid
  | @claim d owner hclaims =>
    by_cases hid : d.id = id
    · obtain ⟨hdue, row, hget⟩ := claims?_eq_some hclaims hproper
      have hdata := hlisted d hclaims row hget
      have hfree := hlease d hclaims row hget
      rw [hid] at hget hfree
      exact h.claim owner hclock hget hdata hid hdue hfree
    · refine hother ?_ ?_
      · rintro _ ⟨⟩
        exact hid
      · rintro _ rfl
        cases hclaims

theorem Effect.attempts (h : Sound id s (↑before.toList + rest))
    (heffect : Effect env cfg choice s t before after s') (honce : ∀ d, t = .put d → d.id ≠ id) :
    ∀ row' ∈ s'.deliveries.get? id, ∃ row ∈ s.deliveries.get? id,
      row.data.attempts ≤ row'.data.attempts := by
  intro row' hrow'
  cases heffect with
  | @put d ht =>
    rw [PostgresQueue.insert, get?_put, if_neg (honce d ht).symm] at hrow'
    exact ⟨row', hrow', le_rfl⟩
  | claim =>
    rw [PostgresQueue.claimed, get?_modify] at hrow'
    split at hrow'
    · next hid =>
      obtain ⟨row, hrow, rfl⟩ := map_eq_some_iff.mp hrow'
      exact ⟨row, hid ▸ hrow, le_rfl⟩
    · exact ⟨row', hrow', le_rfl⟩
  | release =>
    rw [PostgresQueue.releaseClaim, get?_modify] at hrow'
    split at hrow'
    · next hid =>
      obtain ⟨row, hrow, rfl⟩ := map_eq_some_iff.mp hrow'
      exact ⟨row, hid ▸ hrow, le_rfl⟩
    · exact ⟨row', hrow', le_rfl⟩
  | @rescheduled d =>
    rw [PostgresQueue.insert, get?_put] at hrow'
    split at hrow'
    · next hid =>
      cases hrow'
      obtain ⟨-, row, hget, -, hagrees, -⟩ := h.own hid.symm (by simp)
      have hattempts : d.attempts = row.data.attempts + 1 := hagrees.1
      exact ⟨row, hget, by simp only; omega⟩
    · exact ⟨row', hrow', le_rfl⟩
  | completed | dropped =>
    rw [get?_remove] at hrow'
    split at hrow'
    · cases hrow'
    · exact ⟨row', hrow', le_rfl⟩
  | _ => exact ⟨row', hrow', le_rfl⟩

theorem Effect.history (heffect : Effect env cfg choice s t before after s') :
    s.history ⊆ s'.history := by
  cases heffect with
  | put | delivered | failed | buried => exact subset_append_left _ _
  | _ => exact fun o ho => ho

theorem sound_move {others : Multiset Thread} (hregular : Regular cfg choice s t others)
    (hcurrent : Current env cfg choice s t) (hproper : t.Proper s.clock)
    (h : Sound id s ((t ::ₘ others).bind Thread.holds)) :
    Sound id (t.next env cfg choice s).1
      ((↑(t.next env cfg choice s).2 + others : Multiset Thread).bind Thread.holds) := by
  obtain ⟨before, after, rest, hbefore, hafter, heffect⟩ := moves_step env cfg choice s t
  have hheld : (t ::ₘ others).bind Thread.holds = ↑before.toList + (rest + others.bind Thread.holds) := by
    rw [Multiset.cons_bind, hbefore, add_assoc]
  have hheld' : (↑(t.next env cfg choice s).2 + others : Multiset Thread).bind Thread.holds =
      ↑after.toList + (rest + others.bind Thread.holds) := by
    rw [Multiset.add_bind, ← add_assoc, ← hafter]
    rfl
  rw [hheld] at h
  rw [hheld']
  cases before with
  | some hold =>
    by_cases hid : hold.d.id = id
    · exact h.settle hid hregular.clock heffect hcurrent.puts
    · refine h.next_other heffect hregular.clock ?_ ?_ ?_
      · rintro _ ⟨⟩
        exact hid
      · rintro hold' ⟨⟩
        rw [heffect.id_eq]
        exact hid
      · rintro d rfl
        exact (Multiset.zero_ne_cons (hbefore.trans (Multiset.singleton_add _ _))).elim
  | none =>
    refine h.begin heffect hregular.clock hproper (fun d hclaims row hget hclaim => ?_) hcurrent.listed
      hregular.once
    have hnone := hregular.lease d hclaims row hget hclaim
    rw [held, hheld] at hnone
    refine Multiset.filter_eq_nil.mpr fun hold hmem hwork => ?_
    exact Multiset.filter_eq_nil.mp hnone hold (Multiset.mem_add.mpr (.inr hmem)) hwork.1

end

section

variable {c c' : Interleave.Config Cluster Thread}

def Accounted (c : Interleave.Config Cluster Thread) : Prop :=
  (∀ t ∈ c.pool, t.Proper c.shared.clock) ∧ ∀ id, Sound id c.shared (c.pool.bind Thread.holds)

theorem accounted_empty (clock : Time) : Accounted ⟨{ clock }, 0⟩ := by
  refine ⟨by simp, fun id => ?_⟩
  constructor
  · exact .inl (free_of_work rfl rfl)
  · rintro row ⟨⟩
  · intro d hmem
    cases hmem
  · intro d d' hmem
    cases hmem
  · exact fun _ => ⟨rfl, not_mem_nil⟩
  · intro d stored now ok hmem
    cases hmem

theorem holds_of_starts (h : t.Starts) : t.holds = 0 := by
  cases h <;> rfl

theorem proper_of_starts (h : t.Starts) (clock : Time) : t.Proper clock := by
  cases h with
  | replica instanceID => trivial
  | put hattempts hmax => exact ⟨hattempts, hmax⟩

theorem accounted_step (hstep : (currentSystem env cfg).Step c c') (h : Accounted c) : Accounted c' := by
  cases hstep with
  | start t hstart =>
    refine ⟨?_, fun id => ?_⟩
    · intro u hu
      rcases Multiset.mem_cons.mp hu with rfl | hu
      · exact proper_of_starts hstart _
      · exact h.1 u hu
    · rw [Multiset.cons_bind, holds_of_starts hstart, zero_add]
      exact h.2 id
  | @move s t others choice hallowed =>
    have hproper := h.1 t (Multiset.mem_cons_self t others)
    refine ⟨fun u hu => ?_, fun id => sound_move hallowed.1 hallowed.2 hproper (h.2 id)⟩
    rcases Multiset.mem_add.mp hu with hu | hu
    · exact proper_step hproper hallowed.1.clock u (Multiset.mem_coe.mp hu)
    · exact (h.1 u (Multiset.mem_cons_of_mem hu)).mono hallowed.1.clock

theorem accounts_of_run (hrun : (currentSystem env cfg).Run ⟨{ clock }, 0⟩ c) : Accounted c := by
  induction hrun with
  | refl => exact accounted_empty clock
  | tail _ hstep ih => exact accounted_step hstep ih

theorem attempts_step (hstep : (currentSystem env cfg).Step c c') (h : Accounted c)
    (hknown : ∃ d, .put d ∈ c.shared.history ∧ d.id = id) :
    ∀ row' ∈ c'.shared.deliveries.get? id, ∃ row ∈ c.shared.deliveries.get? id,
      row.data.attempts ≤ row'.data.attempts := by
  cases hstep with
  | start t hstart => exact fun row hrow => ⟨row, hrow, le_rfl⟩
  | @move s t others choice hallowed =>
    obtain ⟨before, after, rest, hbefore, -, heffect⟩ := moves_step env cfg choice s t
    have hsound := h.2 id
    rw [Multiset.cons_bind, hbefore, add_assoc] at hsound
    have honce : ∀ d, t = .put d → d.id ≠ id := by
      rintro d rfl hid
      obtain ⟨d', hmem, hid'⟩ := hknown
      exact hallowed.1.once d rfl d' hmem (hid'.trans hid.symm)
    exact fun row' hrow' => Effect.attempts hsound heffect honce row' hrow'

theorem history_step (hstep : (currentSystem env cfg).Step c c') :
    c.shared.history ⊆ c'.shared.history := by
  cases hstep with
  | start t hstart => exact fun o ho => ho
  | @move s t others choice hallowed =>
    obtain ⟨before, after, rest, -, -, heffect⟩ := moves_step env cfg choice s t
    exact heffect.history

theorem attempts_le_of_run (hrun : (currentSystem env cfg).Run c c') (h : Accounted c)
    {row row' : PostgresQueue.Row Delivery} (hrow : c.shared.deliveries.get? id = some row)
    (hrow' : c'.shared.deliveries.get? id = some row') : row.data.attempts ≤ row'.data.attempts := by
  obtain ⟨-, d, hput, hid, -⟩ := (h.2 id).stored row hrow
  have hinvariant : Accounted c' ∧ .put d ∈ c'.shared.history ∧
      ∀ row' ∈ c'.shared.deliveries.get? id, row.data.attempts ≤ row'.data.attempts := by
    clear hrow'
    induction hrun with
    | refl =>
      refine ⟨h, hput, fun row' hrow' => ?_⟩
      cases hrow.symm.trans hrow'
      exact le_rfl
    | tail _ hstep ih =>
      obtain ⟨hmid, hknown, hle⟩ := ih
      refine ⟨accounted_step hstep hmid, history_step hstep hknown, fun row' hrow' => ?_⟩
      obtain ⟨mid, hrow, hle'⟩ := attempts_step hstep hmid ⟨d, hknown, hid⟩ row' hrow'
      exact (hle mid hrow).trans hle'
  exact hinvariant.2.2 row' hrow'

theorem countP_isAttempt {history : List Observation}
    (h : ∀ d stored now ok, .attempted d stored now ok ∈ history → d.id = id → ok = false) :
    (untilDead id history).countP (isAttempt id) = tries id history := by
  refine countP_congr fun o ho => ?_
  have hmem : o ∈ history := (List.takeWhile_prefix _).subset ho
  cases o with
  | attempted d stored now ok =>
    simp only [isAttempt, isFailure, decide_eq_true_eq, Bool.and_eq_true, Bool.not_eq_true', iff_self_and]
    exact h d stored now ok hmem
  | put d => rfl
  | deadLettered id' => rfl

/-- Retries are accounted for in every run in which a claim finds the record as it was listed
and no `Put` of `processOne` fails. -/
theorem retries_kept_of_current (env : Env) (cfg : Config) (clock : Time) :
    RetriesKept (currentSystem env cfg) clock where
  attempts := fun c c' hrun hrun' id row hrow row' hrow' =>
    attempts_le_of_run hrun' (accounts_of_run hrun) hrow hrow'
  due := fun c hrun d stored now ok hmem =>
    ((accounts_of_run hrun).2 d.id).due d stored now ok hmem rfl
  bounded := by
    intro c hrun d hput hfails
    rw [countP_isAttempt hfails]
    exact ((accounts_of_run hrun).2 d.id).bounded d hput rfl

end

def startsNow : Thread → Bool
  | .replica r =>
    match r.tick with
    | .idle => r.inflight.isEmpty && r.jobs.isEmpty
    | _ => false
  | .put d => d.attempts = 0 && 1 ≤ d.maxAttempts

def keepsOrder (cfg : Config) (choice : ReplicaChoice) (s : Cluster) (t : Thread) : Bool :=
  s.clock ≤ choice.now &&
    ((t.claims? cfg choice s).all fun d => (s.deliveries.get? d.id).all fun row => row.claim.isNone) &&
    match t with
    | .put d => s.history.all fun
      | .put d' => d'.id ≠ d.id
      | _ => true
    | .replica _ => true

def keepsCurrent (env : Env) (cfg : Config) (choice : ReplicaChoice) (s : Cluster) (t : Thread) : Bool :=
  keepsOrder cfg choice s t &&
    ((t.claims? cfg choice s).all fun d => (s.deliveries.get? d.id).all fun row => row.data = d) &&
    (t.moved? choice).all fun job => !job.failsToPut env cfg choice.toChoice s

theorem starts_of_check (h : startsNow t) : t.Starts := by
  cases t with
  | put d =>
    simp only [startsNow, Bool.and_eq_true, decide_eq_true_eq] at h
    exact .put h.1 h.2
  | replica r =>
    obtain ⟨instanceID, tick, inflight, jobs⟩ := r
    cases tick with
    | idle =>
      simp only [startsNow, Bool.and_eq_true, List.isEmpty_iff] at h
      obtain ⟨rfl, rfl⟩ := h
      exact .replica instanceID
    | _ => cases h

theorem regular_of_check
    (h : keepsOrder cfg choice s t) (others : Multiset Thread) : Regular cfg choice s t others := by
  simp only [keepsOrder, Bool.and_eq_true, decide_eq_true_eq, Option.all_eq_true] at h
  obtain ⟨⟨hclock, hclaims⟩, hput⟩ := h
  refine ⟨hclock, fun d hd row hrow hclaim => ?_, ?_⟩
  · have hnone := hclaims d hd row hrow
    cases hrow' : row.claim <;> simp [hrow'] at hnone hclaim
  · rintro d rfl d' hmem
    simpa using List.all_eq_true.mp hput _ hmem

theorem current_of_check (h : keepsCurrent env cfg choice s t) (others : Multiset Thread) :
    Regular cfg choice s t others ∧ Current env cfg choice s t := by
  simp only [keepsCurrent, Bool.and_eq_true, decide_eq_true_eq, Option.all_eq_true,
    Bool.not_eq_true'] at h
  exact ⟨regular_of_check h.1.1 others, h.1.2, h.2⟩

def plainEnv : Env where
  deliveryBytes _ := 0
  deadLetterBytes _ _ := 0
  deliveryColumn _ := 0
  deadLetterColumn _ := 0

def plainConfig : Config := { workerConcurrency := 1, deliveryClaimLease := 90 * 10 ^ 9, options := {} }

def refused : ReplicaChoice := { job := some 0, error := some "refused" }

def oneTry : Delivery := { id := "d", maxAttempts := 1 }

def oneTryMoves : List (Move Thread ReplicaChoice) :=
  [.start (.put oneTry), .move 0 {}, .start (.replica { instanceID := "a" }), .move 0 {}, .move 0 {},
    .move 0 {}, .move 0 {}, .move 0 {}, .move 0 refused, .move 0 { job := some 0 },
    .move 0 { job := some 0 }]

def oneTryCluster : Cluster := (oneTryMoves.foldl (exec (Thread.next plainEnv plainConfig)) ({}, [])).1

theorem one_try_counted : (untilDead "d" oneTryCluster.history).countP (isAttempt "d") = 1 ∧
    ((untilDead "d" oneTryCluster.history).countP (isAttempt "d") : Int) ≤ oneTry.maxAttempts := by
  have hpermits := System.permits_of_checks (currentSystem plainEnv plainConfig)
    (fun _ => starts_of_check) (fun _ _ _ others h => current_of_check h ↑others) oneTryMoves ({}, [])
    (by decide)
  refine ⟨by decide, ?_⟩
  refine (retries_kept_of_current plainEnv plainConfig 0).bounded _
    (System.run_of_exec _ oneTryMoves _ hpermits) oneTry (by decide) ?_
  intro d stored now ok hmem _
  have hfailed : oneTryCluster.history.all fun
      | .attempted _ _ _ ok => !ok
      | _ => true := by
    decide
  simpa using List.all_eq_true.mp hfailed _ hmem

def threeTries : Delivery := { id := "d", maxAttempts := 3 }

/-- Both replicas list a delivery; the first one attempts it and puts it again for later, and
then the second one claims it. -/
def staleMoves : List (Move Thread ReplicaChoice) :=
  [.start (.put threeTries), .move 0 {}, .start (.replica { instanceID := "a" }),
    .start (.replica { instanceID := "b" }), .move 0 {}, .move 0 {}, .move 1 {}, .move 0 {}, .move 0 {},
    .move 0 {}, .move 0 {}, .move 0 refused, .move 0 { job := some 0 }, .move 1 {}, .move 0 {},
    .move 0 {}, .move 0 { job := some 0 }]

def staleCluster : Cluster := (staleMoves.foldl (exec (Thread.next plainEnv plainConfig)) ({}, [])).1

/-- The second attempt comes two seconds too early. -/
theorem attempted_before_stored_time :
    (∃ stored : Delivery, stored.nextAttempt = 2 * 10 ^ 9 ∧
      .attempted threeTries (some stored) 0 true ∈ staleCluster.history) ∧
      ¬ RetriesKept (regularSystem plainEnv plainConfig) 0 := by
  have hpermits := System.permits_of_checks (regularSystem plainEnv plainConfig)
    (fun _ => starts_of_check) (fun _ _ _ others h => regular_of_check h ↑others) staleMoves ({}, [])
    (by decide)
  have hearly : ∃ stored : Delivery, stored.nextAttempt = 2 * 10 ^ 9 ∧
      .attempted threeTries (some stored) 0 true ∈ staleCluster.history := by
    refine ⟨{ threeTries with attempts := 1, lastError := "refused", nextAttempt := 2 * 10 ^ 9 }, rfl, ?_⟩
    decide
  refine ⟨hearly, fun h => ?_⟩
  obtain ⟨stored, hnext, hmem⟩ := hearly
  have hdue := h.due _ (System.run_of_exec _ staleMoves _ hpermits) _ _ _ _ hmem stored rfl
  rw [hnext] at hdue
  exact absurd hdue (by decide)

end Nodra.Replicas
