import Nodra.Server.Enrollment
import Nodra.Server.Tenancy
import Nodra.Lib.Window

/-! The limit on failed attempts, with any number of requests at once.  `attemptLimited`
counts the failures on record and `recordAttempt` adds one later, so requests that are in
between are not counted. -/
namespace Nodra.Server
open Model Std Interleave Program Window

variable {env : PortalEnv} {key : String} {s : Portal} {t : PortalProc PortalReply} {choice : PortalChoice}

inductive PortalRequest where
  | login (remoteAddr : String) (body : Except String LoginBody)
  | enroll (remoteAddr : String) (body : Except String EnrollBody)
  | ztpBootstrap (remoteAddr host : String) (body : Except String ZtpBody)

def PortalRequest.proc (env : PortalEnv) : PortalRequest → PortalProc PortalReply
  | .login remoteAddr body => Server.login env remoteAddr body
  | .enroll remoteAddr body => Server.enroll env remoteAddr body
  | .ztpBootstrap remoteAddr host body => Server.ztpBootstrap env remoteAddr host body

def Awaited (key : String) (t : PortalProc PortalReply) : Prop :=
  t.label? = some (.check key) ∨ t.label? = some (.recordAttempt key)

instance (key : String) : DecidablePred (Awaited key) := fun t =>
  inferInstanceAs (Decidable (t.label? = some (.check key) ∨ t.label? = some (.recordAttempt key)))

/-- The limit lets no request in that has no room beside the failures on record and the
requests that were let in before and may yet fail. -/
def LetsIn (choice : PortalChoice) (s : Portal) (t : PortalProc PortalReply)
    (rest : Multiset (PortalProc PortalReply)) : Prop :=
  ∀ key, t.label? = some (.attemptLimited key) →
    5 ≤ (s.kept choice.now key).length ∨
      (s.kept choice.now key).length + rest.countP (Awaited key) < 5

def portalSystem (env : PortalEnv)
    (ok : PortalChoice → Portal → PortalProc PortalReply → Multiset (PortalProc PortalReply) → Prop) :
    System Portal (PortalProc PortalReply) PortalChoice where
  starts := fun t => ∃ r : PortalRequest, t = r.proc env
  next := next
  allowed := fun choice s t rest => (∀ label ∈ t.label?, s.clock ≤ choice.now) ∧ ok choice s t rest

def PortalObservation.mark? (key : String) : PortalObservation → Option (Mark Time)
  | .failed k time => if k = key then some (.hit time) else none
  | .cleared k time => if k = key then some (.clear time) else none
  | .signed _ _ => none

def Portal.trail (s : Portal) (key : String) : List (Mark Time) := s.history.filterMap (·.mark? key)

section

def PortalPoint.gated : PortalPoint → Bool
  | .attemptLimited _ => true
  | .check _ => true
  | .recordAttempt _ => true
  | _ => false

structure Portal.Alike (s s' : Portal) : Prop where
  fails : s'.loginFails = s.loginFails
  clock : s'.clock = s.clock
  trail : ∀ key, s'.trail key = s.trail key

theorem Portal.Alike.refl (s : Portal) : s.Alike s := ⟨rfl, rfl, fun _ => rfl⟩

def CalmStep (label : PortalPoint) (run : PortalChoice → Portal → Portal) : Prop :=
  label.gated = false ∧
    ((∃ key, ∀ choice s, run choice s = s.cleared choice.now key) ∨
      ∀ choice (s : Portal), s.Alike (run choice s))

abbrev Calm {α : Type} (p : PortalProc α) : Prop := p.Steps CalmStep

def Recording (key : String) (p : PortalProc PortalReply) : Prop :=
  ∃ f, p = recordAttempt key >>= f ∧ Calm (f ())

def Checking (key : String) (p : PortalProc PortalReply) : Prop :=
  ∃ (β : Type) (g : PortalChoice → Portal → β) (f : β → PortalProc PortalReply),
    p = ((.access (.check key) fun choice s => (s, g choice s)) >>= f) ∧
      ∀ value, Calm (f value) ∨ Recording key (f value)

def Arriving (key : String) (p : PortalProc PortalReply) : Prop :=
  ∃ f, p = attemptLimited key >>= f ∧ Calm (f true) ∧ (Calm (f false) ∨ Checking key (f false))

def Form (p : PortalProc PortalReply) : Prop :=
  Calm p ∨ ∃ key, Recording key p ∨ Checking key p ∨ Arriving key p

def Begun (p : PortalProc PortalReply) : Prop := Calm p ∨ ∃ key, Arriving key p

theorem Begun.form {p : PortalProc PortalReply} (h : Begun p) : Form p := by
  rcases h with hcalm | ⟨key, harriving⟩
  · exact .inl hcalm
  · exact .inr ⟨key, .inr (.inr harriving)⟩

variable {α : Type}

theorem calm_pure (value : α) : Calm (pure value : PortalProc α) := trivial

theorem calm_access {label : PortalPoint} {f : PortalChoice → Portal → Portal × α}
    (hlabel : label.gated = false) (h : ∀ choice (s : Portal), s.Alike (f choice s).1) :
    Calm (.access label f : PortalProc α) :=
  ⟨⟨hlabel, .inr h⟩, fun _ _ => trivial⟩

theorem calm_clearAttempts (key : String) : Calm (clearAttempts key) :=
  ⟨⟨rfl, .inl ⟨key, fun _ _ => rfl⟩⟩, fun _ _ => trivial⟩

theorem calm_issueSession (role actor orgID : String) : Calm (issueSession role actor orgID) := by
  refine calm_access rfl fun choice s => ?_
  split
  · exact .refl s
  · exact ⟨rfl, rfl, fun _ => rfl⟩

theorem calm_newSite (body : EnrollBody) (orgID : String) : Calm (newSite env body orgID) := by
  refine calm_access rfl fun choice s => ?_
  split <;> exact .refl s

theorem calm_signOptional (pki : Bool) (csrPem siteID : String) : Calm (signOptional pki csrPem siteID) := by
  unfold signOptional
  split
  · refine Steps.bind ?_ fun signed => by cases signed <;> trivial
    refine calm_access rfl fun choice s => ?_
    split
    · exact .refl s
    · exact ⟨rfl, rfl, fun key => by simp [Portal.trail, PortalObservation.mark?]⟩
  · trivial

theorem calm_addSite (site : Site) : Calm (addSite env site) := by
  refine calm_access rfl fun choice s => ?_
  split
  · exact .refl s
  · exact ⟨rfl, rfl, fun _ => rfl⟩

theorem begun_login (remoteAddr : String) (body : Except String LoginBody) :
    Begun (login env remoteAddr body) := by
  cases body with
  | error err => exact .inl (calm_pure _)
  | ok body =>
    refine .inr ⟨attemptKey env "login" remoteAddr, ⟨_, rfl, calm_pure _, .inr ?_⟩⟩
    refine ⟨LoginCheck, fun _ s => s.checkLogin env (env.trimSpace body.username) body.password, _, rfl, ?_⟩
    intro found
    cases found with
    | right role actor =>
      exact .inl (Steps.bind (calm_clearAttempts _) fun _ => calm_issueSession role actor "")
    | unconfigured => exact .inl (calm_pure _)
    | wrong => exact .inr ⟨_, rfl, calm_pure _⟩

theorem calm_enrolled {body : EnrollBody} {orgID failed : String} {refused : String → PortalReply}
    {stored : Option Signed → Site → Site} {unsaved : String → PortalReply} {α : Type}
    {view : Portal → α} {pki : α → Bool} {reply : α → PortalChoice → Site → Option Signed → PortalReply} :
    Calm (do
      match ← newSite env body orgID with
      | none => pure { code := 500, error := failed }
      | some (drawn, site) =>
      let s ← .read .arrive view
      match ← signOptional (pki s) body.csrPem site.id with
      | .error err => pure (refused err)
      | .ok certificate =>
      match ← addSite env (stored certificate site) with
      | some err => pure (unsaved err)
      | none =>
        clearAttempts key
        pure (reply s drawn site certificate)) := by
  refine Steps.bind (calm_newSite body orgID) fun drawn => ?_
  match drawn with
  | none => exact calm_pure _
  | some (drawn, site) =>
    refine Steps.bind (calm_access rfl fun _ s => .refl s) fun s => ?_
    refine Steps.bind (calm_signOptional _ _ _) fun certificate => ?_
    cases certificate with
    | error err => exact calm_pure _
    | ok certificate =>
      refine Steps.bind (calm_addSite _) fun unsaved => ?_
      cases unsaved with
      | some err => exact calm_pure _
      | none => exact Steps.bind (calm_clearAttempts key) fun _ => calm_pure _

theorem begun_enroll (remoteAddr : String) (body : Except String EnrollBody) :
    Begun (enroll env remoteAddr body) := by
  cases body with
  | error err => exact .inl (calm_pure _)
  | ok body =>
    refine .inr ⟨attemptKey env "enroll" remoteAddr, ⟨_, rfl, calm_pure _, .inr ?_⟩⟩
    refine ⟨_, fun choice s => s.checkToken env choice.now body.enrollmentToken, _, rfl, ?_⟩
    intro found
    cases found with
    | error err => exact .inr ⟨_, rfl, calm_pure _⟩
    | ok orgID =>
      refine .inl ?_
      dsimp only
      split
      · exact calm_pure _
      · exact calm_enrolled

theorem begun_ztpBootstrap (remoteAddr host : String) (body : Except String ZtpBody) :
    Begun (ztpBootstrap env remoteAddr host body) := by
  cases body with
  | error err => exact .inl (calm_pure _)
  | ok body =>
    refine .inr ⟨attemptKey env "enroll" remoteAddr, ⟨_, rfl, calm_pure _, ?_⟩⟩
    by_cases hname : env.trimSpace body.name = ""
    · left
      simp only [Bool.false_eq_true, if_false, if_pos hname]
      exact calm_pure _
    · right
      simp only [Bool.false_eq_true, if_false, if_neg hname]
      refine ⟨_, fun choice s => s.checkToken env choice.now body.enrollmentToken, _, rfl, ?_⟩
      intro found
      cases found with
      | error err => exact .inr ⟨_, rfl, calm_pure _⟩
      | ok orgID => exact .inl calm_enrolled

end

section

variable {now : Time}

def Portal.Limited (s : Portal) (key : String) (waiting : Nat) : Prop :=
  Window.Kept 5 fiveMinutes (s.trail key) s.clock (s.loginFails.getD key []) waiting

variable {waiting : Nat} {other : String}

theorem Portal.Limited.alike {s' : Portal} (h : s.Limited key waiting) (halike : s.Alike s') :
    s'.Limited key waiting := by
  unfold Portal.Limited
  rw [halike.fails, halike.clock, halike.trail]
  exact h

theorem kept_eq_recent : s.kept now key = recent fiveMinutes now (s.loginFails.getD key []) := rfl

theorem Portal.Limited.pruned (h : s.Limited key waiting) (hnow : s.clock ≤ now) (other : String) :
    (s.pruned now other).Limited key waiting := by
  by_cases hkey : other = key
  · subst hkey
    simpa [Portal.Limited, Portal.pruned, Portal.trail, kept_eq_recent] using Window.Kept.prune h hnow
  · simpa [Portal.Limited, Portal.pruned, Portal.trail, ExtTreeMap.getD_insert, hkey] using Window.Kept.tick h hnow

theorem Portal.Limited.letIn (h : s.Limited key waiting) (hnow : s.clock ≤ now)
    (hroom : (s.kept now key).length + waiting < 5) : (s.pruned now key).Limited key (waiting + 1) := by
  simpa [Portal.Limited, Portal.pruned, Portal.trail, kept_eq_recent] using Window.Kept.admit_one h hnow hroom

theorem Portal.Limited.recorded (h : s.Limited key (waiting + 1)) (hnow : s.clock ≤ now) :
    (s.recorded now key).Limited key waiting := by
  simpa [Portal.Limited, Portal.recorded, Portal.trail, PortalObservation.mark?] using Window.Kept.record h hnow

theorem Portal.Limited.recorded_other (h : s.Limited key waiting)
    (hnow : s.clock ≤ now) (hother : other ≠ key) : (s.recorded now other).Limited key waiting := by
  simpa [Portal.Limited, Portal.recorded, Portal.trail, PortalObservation.mark?, ExtTreeMap.getD_insert,
    hother] using Window.Kept.tick h hnow

theorem Portal.Limited.cleared (h : s.Limited key waiting) (hnow : s.clock ≤ now)
    (other : String) : (s.cleared now other).Limited key waiting := by
  by_cases hkey : other = key
  · subst hkey
    simpa [Portal.Limited, Portal.cleared, Portal.trail, PortalObservation.mark?] using Window.Kept.clear h hnow
  · simpa [Portal.Limited, Portal.cleared, Portal.trail, PortalObservation.mark?, ExtTreeMap.getD_erase,
      hkey] using Window.Kept.tick h hnow

def awaiting (key : String) (pool : Multiset (PortalProc PortalReply)) : Nat := pool.countP (Awaited key)

theorem awaiting_cons_of_not (h : ¬ Awaited key t) (rest : Multiset (PortalProc PortalReply)) :
    awaiting key (t ::ₘ rest) = awaiting key rest := Multiset.countP_cons_of_neg _ h

theorem awaiting_cons (h : Awaited key t) (rest : Multiset (PortalProc PortalReply)) :
    awaiting key (t ::ₘ rest) = awaiting key rest + 1 := Multiset.countP_cons_of_pos _ h

theorem awaiting_cons_le (t : PortalProc PortalReply) (rest : Multiset (PortalProc PortalReply)) :
    awaiting key (t ::ₘ rest) ≤ awaiting key rest + 1 := by
  by_cases h : Awaited key t
  · exact (awaiting_cons h rest).le
  · rw [awaiting_cons_of_not h]
    exact Nat.le_succ _

theorem not_awaited_of_calm (h : Calm t) : ¬ Awaited key t := by
  cases t with
  | done value => rintro (h | h) <;> cases h
  | step label run next =>
    have hgated : label.gated = false := h.1.1
    rintro (hlabel | hlabel) <;> cases hlabel <;> cases hgated

theorem not_awaited_recording (h : Recording other t) (hother : other ≠ key) :
    ¬ Awaited key t := by
  obtain ⟨f, rfl, -⟩ := h
  rintro (hlabel | hlabel) <;> cases hlabel
  exact hother rfl

theorem awaited_recording (h : Recording key t) : Awaited key t := by
  obtain ⟨f, rfl, -⟩ := h
  exact .inr rfl

theorem awaited_checking (h : Checking key t) : Awaited key t := by
  obtain ⟨β, g, f, rfl, -⟩ := h
  exact .inl rfl

theorem not_awaited_checking (h : Checking other t) (hother : other ≠ key) :
    ¬ Awaited key t := by
  obtain ⟨β, g, f, rfl, -⟩ := h
  rintro (hlabel | hlabel) <;> cases hlabel
  exact hother rfl

theorem not_awaited_arriving (h : Arriving other t) : ¬ Awaited key t := by
  obtain ⟨f, rfl, -⟩ := h
  rintro (hlabel | hlabel) <;> cases hlabel

variable {rest : Multiset (PortalProc PortalReply)}

def After (key : String) (s : Portal) (t : PortalProc PortalReply) (rest : Multiset (PortalProc PortalReply)) :
    Prop := s.Limited key (awaiting key (t ::ₘ rest)) ∧ Form t

theorem Portal.Limited.after_calm (h : s.Limited key (awaiting key rest)) (hcalm : Calm t) :
    After key s t rest := by
  refine ⟨?_, .inl hcalm⟩
  rw [awaiting_cons_of_not (not_awaited_of_calm hcalm)]
  exact h

theorem after_calmStep {label : PortalPoint} {run : PortalChoice → Portal → Portal}
    {next : PortalChoice → Portal → PortalProc PortalReply} (hcalm : Calm (.step label run next))
    (hnow : s.clock ≤ choice.now) (h : s.Limited key (awaiting key (.step label run next ::ₘ rest))) :
    After key (run choice s) (next choice s) rest := by
  rw [awaiting_cons_of_not (not_awaited_of_calm hcalm)] at h
  obtain ⟨⟨-, hrun⟩, hnext⟩ := hcalm
  refine Portal.Limited.after_calm ?_ (hnext choice s)
  rcases hrun with ⟨other, hrun⟩ | halike
  · rw [hrun]
    exact h.cleared hnow other
  · exact h.alike (halike choice s)

theorem after_recording {f : Unit → PortalProc PortalReply} (hcalm : Calm (f ()))
    (hnow : s.clock ≤ choice.now) (h : s.Limited key (awaiting key ((recordAttempt other >>= f) ::ₘ rest))) :
    After key (s.recorded choice.now other) (f ()) rest := by
  refine Portal.Limited.after_calm ?_ hcalm
  by_cases hkey : other = key
  · subst hkey
    rw [awaiting_cons (awaited_recording ⟨f, rfl, hcalm⟩)] at h
    exact h.recorded hnow
  · rw [awaiting_cons_of_not (not_awaited_recording ⟨f, rfl, hcalm⟩ hkey)] at h
    exact h.recorded_other hnow hkey

theorem after_checking (hchecking : Checking other t)
    (h : s.Limited key (awaiting key (t ::ₘ rest))) {t' : PortalProc PortalReply}
    (ht' : Calm t' ∨ Recording other t') : After key s t' rest := by
  rcases ht' with hcalm | hrecording
  · refine Portal.Limited.after_calm (Window.Kept.fewer h ?_) hcalm
    exact Multiset.countP_le_of_le _ (Multiset.le_cons_self _ _)
  · refine ⟨Window.Kept.fewer h ?_, .inr ⟨other, .inl hrecording⟩⟩
    by_cases hkey : other = key
    · subst hkey
      rw [awaiting_cons (awaited_checking hchecking)]
      exact awaiting_cons_le t' rest
    · rw [awaiting_cons_of_not (not_awaited_recording hrecording hkey)]
      exact Multiset.countP_le_of_le _ (Multiset.le_cons_self _ _)

theorem after_arriving {f : Bool → PortalProc PortalReply} (hfull : Calm (f true))
    (hroom : Calm (f false) ∨ Checking other (f false)) (hnow : s.clock ≤ choice.now)
    (hlets : LetsIn choice s (attemptLimited other >>= f) rest)
    (h : s.Limited key (awaiting key ((attemptLimited other >>= f) ::ₘ rest))) :
    After key (s.pruned choice.now other) (f (decide (5 ≤ (s.kept choice.now other).length))) rest := by
  rw [awaiting_cons_of_not (not_awaited_arriving ⟨f, rfl, hfull, hroom⟩)] at h
  have hpruned := h.pruned hnow other
  by_cases hlimited : 5 ≤ (s.kept choice.now other).length
  · rw [decide_eq_true hlimited]
    exact hpruned.after_calm hfull
  · rw [decide_eq_false hlimited]
    rcases hroom with hcalm | hchecking
    · exact hpruned.after_calm hcalm
    · refine ⟨?_, .inr ⟨other, .inr (.inl hchecking)⟩⟩
      by_cases hkey : other = key
      · subst hkey
        rw [awaiting_cons (awaited_checking hchecking)]
        exact h.letIn hnow ((hlets other rfl).resolve_left hlimited)
      · rw [awaiting_cons_of_not (not_awaited_checking hchecking hkey)]
        exact hpruned

theorem after_next (hform : Form t) (hnow : ∀ label ∈ t.label?, s.clock ≤ choice.now) (hlets : LetsIn choice s t rest)
    (h : s.Limited key (awaiting key (t ::ₘ rest))) :
    (next choice s t).1.Limited key (awaiting key (↑(next choice s t).2 + rest)) ∧
      ∀ t' ∈ (next choice s t).2, Form t' := by
  cases t with
  | done value =>
    refine ⟨?_, nofun⟩
    have hover : ¬ Awaited key (.done value) := not_awaited_of_calm (calm_pure value)
    rw [awaiting_cons_of_not hover] at h
    simpa [next] using h
  | step label run nextStep =>
    replace hnow : s.clock ≤ choice.now := hnow label rfl
    suffices hafter : After key (run choice s) (nextStep choice s) rest by
      refine ⟨by simpa [next] using hafter.1, fun t' ht' => ?_⟩
      obtain rfl : t' = nextStep choice s := by simpa [next] using ht'
      exact hafter.2
    rcases hform with hcalm | ⟨other, ⟨f, heq, hcalm⟩ | ⟨β, g, f, heq, hf⟩ | ⟨f, heq, hfull, hroom⟩⟩
    · exact after_calmStep hcalm hnow h
    · cases heq
      exact after_recording hcalm hnow h
    · cases heq
      exact after_checking ⟨β, g, f, rfl, hf⟩ h (hf _)
    · cases heq
      exact after_arriving hfull hroom hnow hlets h

end

theorem begun_proc (r : PortalRequest) : Begun (r.proc env) := by
  cases r with
  | login remoteAddr body => exact begun_login remoteAddr body
  | enroll remoteAddr body => exact begun_enroll remoteAddr body
  | ztpBootstrap remoteAddr host body => exact begun_ztpBootstrap remoteAddr host body

def Guarded (key : String) (c : Config Portal (PortalProc PortalReply)) : Prop :=
  c.shared.Limited key (awaiting key c.pool) ∧ ∀ t ∈ c.pool, Form t

theorem Guarded.start {pool : Multiset (PortalProc PortalReply)} (h : Guarded key ⟨s, pool⟩)
    (ht : Begun t) : Guarded key ⟨s, t ::ₘ pool⟩ := by
  refine ⟨?_, fun u hu => ?_⟩
  · have hover : ¬ Awaited key t := by
      rcases ht with hcalm | ⟨other, harriving⟩
      · exact not_awaited_of_calm hcalm
      · exact not_awaited_arriving harriving
    dsimp only
    rw [awaiting_cons_of_not hover]
    exact h.1
  · rcases Multiset.mem_cons.mp hu with rfl | hu
    · exact ht.form
    · exact h.2 u hu

theorem Guarded.move {rest : Multiset (PortalProc PortalReply)}
    (h : Guarded key ⟨s, t ::ₘ rest⟩) (hnow : ∀ label ∈ t.label?, s.clock ≤ choice.now)
    (hlets : LetsIn choice s t rest) : Guarded key ⟨(next choice s t).1, ↑(next choice s t).2 + rest⟩ := by
  obtain ⟨hlimited, hforms⟩ := after_next (h.2 t (Multiset.mem_cons_self t rest)) hnow hlets h.1
  refine ⟨hlimited, fun u hu => ?_⟩
  rcases Multiset.mem_add.mp hu with hu | hu
  · exact hforms u (Multiset.mem_coe.mp hu)
  · exact h.2 u (Multiset.mem_cons_of_mem hu)

theorem guarded_of_run {c c' : Config Portal (PortalProc PortalReply)}
    (hrun : (portalSystem env LetsIn).Run c c') (h : Guarded key c) : Guarded key c' := by
  induction hrun with
  | refl => exact h
  | tail _ hstep ih =>
    cases hstep with
    | start t hstart =>
      obtain ⟨r, rfl⟩ := hstart
      exact ih.start (begun_proc r)
    | move choice hallowed => exact ih.move hallowed.1 hallowed.2

def FailedIn (key : String) (start : Time) : PortalObservation → Bool
  | .failed k time => k = key ∧ start ≤ time ∧ time < start + fiveMinutes
  | _ => false

theorem countP_failedIn (key : String) (start : Time) (history : List PortalObservation) :
    history.countP (FailedIn key start) =
      ((hits (history.filterMap (·.mark? key))).filter fun t => start ≤ t ∧ t < start + fiveMinutes).length := by
  induction history with
  | nil => rfl
  | cons o history ih =>
    rw [List.countP_cons, ih]
    cases hmark : o.mark? key with
    | none =>
      have hnot : FailedIn key start o = false := by
        cases o <;> simp_all [FailedIn, PortalObservation.mark?]
      rw [List.filterMap_cons_none hmark, hnot]
      rfl
    | some mark =>
      rw [List.filterMap_cons_some hmark]
      cases o with
      | signed siteID serial => cases hmark
      | cleared k time =>
        obtain ⟨-, rfl⟩ : k = key ∧ .clear time = mark := by simpa [PortalObservation.mark?] using hmark
        rfl
      | failed k time =>
        obtain ⟨rfl, rfl⟩ : k = key ∧ .hit time = mark := by simpa [PortalObservation.mark?] using hmark
        by_cases htime : start ≤ time ∧ time < start + fiveMinutes <;> simp [FailedIn, htime]

theorem cleared_mem_of_clear_mem {t : Time} (h : .clear t ∈ s.trail key) :
    .cleared key t ∈ s.history := by
  obtain ⟨o, ho, hmark⟩ := List.mem_filterMap.mp h
  cases o with
  | signed siteID serial => cases hmark
  | failed k time =>
    simp only [PortalObservation.mark?] at hmark
    split at hmark <;> cases hmark
  | cleared k time =>
    simp only [PortalObservation.mark?] at hmark
    split at hmark
    · next hk =>
      cases hmark
      exact hk ▸ ho
    · cases hmark

/-- In five minutes without a success, an address has at most five failures. -/
theorem failures_le_five_of_run {s : Portal} {c : Config Portal (PortalProc PortalReply)}
    (hfails : s.loginFails = ∅) (hhistory : s.history = []) (hrun : (portalSystem env LetsIn).Run ⟨s, 0⟩ c)
    (key : String) (start : Time)
    (hcleared : ∀ t, .cleared key t ∈ c.shared.history → ¬ (start ≤ t ∧ t < start + fiveMinutes)) :
    c.shared.history.countP (FailedIn key start) ≤ 5 := by
  have hempty : Guarded key ⟨s, 0⟩ := by
    refine ⟨?_, by simp⟩
    simpa [Portal.Limited, Portal.trail, hfails, hhistory, awaiting] using kept_nil 5 fiveMinutes s.clock
  rw [countP_failedIn]
  exact (guarded_of_run hrun hempty).1.within start
    fun t ht => hcleared t (cleared_mem_of_clear_mem ht)

noncomputable def portalEnv : PortalEnv where
  toConsoleEnv := consoleEnv
  splitHostPort := fun _ => none

def lockedPortal : Portal where
  console := { store := someStore, cfg := { adminToken := "root" } }
  cfg := { adminUser := "admin", adminPassword := "secret" }

def guess : PortalRequest := .login "10.0.0.9" (.ok { username := "admin", password := "guess" })

def sixGuesses : List (Scene PortalRequest PortalChoice) :=
  List.replicate 6 (.start guess) ++ List.replicate 6 (.turn 5 1 {}) ++
    (List.replicate 6 [.turn 5 1 {}, .turn 0 1 {}]).flatten

theorem sixGuesses_history :
    (Program.play (PortalRequest.proc portalEnv) sixGuesses lockedPortal).1.history =
      List.replicate 6 (.failed "login\x0010.0.0.9" 0) := by
  decide

def Timely (_ : PortalPoint) (choice : PortalChoice) (s : Portal) : Prop := s.clock ≤ choice.now

instance : ∀ label choice s, Decidable (Timely label choice s) :=
  fun _ choice s => inferInstanceAs (Decidable (s.clock ≤ choice.now))

theorem run_sixGuesses : (portalSystem portalEnv fun _ _ _ _ => True).Run ⟨lockedPortal, 0⟩
    ⟨(Program.play (PortalRequest.proc portalEnv) sixGuesses lockedPortal).1,
      (Program.play (PortalRequest.proc portalEnv) sixGuesses lockedPortal).2⟩ := by
  have hfollows : Follows Timely (fun _ _ => True) (lockedPortal, [])
      (sixGuesses.flatMap (Scene.moves (PortalRequest.proc portalEnv))) := by decide
  refine run_of_play (portalSystem portalEnv fun _ _ _ _ => True) rfl ?_ (fun r => ⟨r, rfl⟩)
    sixGuesses lockedPortal hfollows
  exact fun choice s t rest h => ⟨fun label hlabel => (h label hlabel).1, trivial⟩

/-- Nobody succeeds, and six guesses of one address are evaluated at one time. -/
theorem six_guesses_evaluated :
    ∃ c, (portalSystem portalEnv fun _ _ _ _ => True).Run ⟨lockedPortal, 0⟩ c ∧
      (∀ t, .cleared "login\x0010.0.0.9" t ∉ c.shared.history) ∧
      c.shared.history.countP (FailedIn "login\x0010.0.0.9" 0) = 6 := by
  refine ⟨_, run_sixGuesses, ?_, ?_⟩
  · intro t ht
    rw [sixGuesses_history] at ht
    cases List.eq_of_mem_replicate ht
  · rw [sixGuesses_history]
    decide

def Uncrowded : PortalPoint → PortalChoice → Portal → Prop
  | .attemptLimited key, choice, s => s.clock ≤ choice.now ∧ (s.kept choice.now key).length < 5
  | _, choice, s => s.clock ≤ choice.now

instance : ∀ label choice s, Decidable (Uncrowded label choice s)
  | .attemptLimited key, choice, s =>
    inferInstanceAs (Decidable (s.clock ≤ choice.now ∧ (s.kept choice.now key).length < 5))
  | .check _, choice, s | .recordAttempt _, choice, s | .clearAttempts _, choice, s
  | .issueSession, choice, s | .newToken, choice, s | .signCSR, choice, s | .addSite, choice, s
  | .arrive, choice, s | .updateSite, choice, s | .alerts, choice, s | .resolveAlert _, choice, s
  | .refreshCRL, choice, s => inferInstanceAs (Decidable (s.clock ≤ choice.now))

theorem Uncrowded.timely {label : PortalPoint} (h : Uncrowded label choice s) : s.clock ≤ choice.now := by
  cases label with
  | attemptLimited key => exact h.1
  | _ => exact h

theorem run_guess : (portalSystem portalEnv LetsIn).Run ⟨lockedPortal, 0⟩
    ⟨((guess.proc portalEnv).eval (fun _ => {}) lockedPortal).1, 0⟩ := by
  have hpass : (guess.proc portalEnv).Passes (fun _ => {}) Uncrowded lockedPortal := by decide
  refine run_alone (portalSystem portalEnv LetsIn) rfl ?_ (fun _ => {}) _ ⟨guess, rfl⟩ lockedPortal hpass
  intro choice s t h
  refine ⟨fun label hlabel => (h label hlabel).timely, fun key hkey => .inr ?_⟩
  exact (h _ hkey).2

theorem one_guess_counted :
    ((guess.proc portalEnv).eval (fun _ => {}) lockedPortal).1.history.countP
      (FailedIn "login\x0010.0.0.9" 0) ≤ 5 := by
  have hhistory : ((guess.proc portalEnv).eval (fun _ => {}) lockedPortal).1.history =
      [.failed "login\x0010.0.0.9" 0] := by decide
  refine failures_le_five_of_run rfl rfl run_guess _ 0 fun t ht => ?_
  dsimp only at ht
  rw [hhistory] at ht
  cases List.mem_singleton.mp ht

end Nodra.Server
