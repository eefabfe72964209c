import Nodra.Server.Deliveries

/-! Deliveries that are queued again: what an ingestion puts after the worker has been
answered for a delivery of the same id. -/
namespace Nodra.Server
open Model Std Interleave List Option

/-- The delivery that a call of `ingestAgentEvent` puts with this step. -/
def Thread.ingests? (env : Env) (choice : Choice) (s : Server) (t : Thread) : Option String :=
  match t, (t.next env choice s).1 with
  | .handler _ _, .putDelivery d => some d.id
  | _, _ => none

/-- Once a delivery was answered 2xx and is removed, no call puts it again. -/
def NotQueuedAgain (sys : System Server Thread Choice) (env : Env) (s₀ : Server) : Prop :=
  ∀ c, sys.Run ⟨s₀, 0⟩ c → ∀ id, .delivered id ∈ c.shared.history → id ∉ c.shared.deliveries →
    ∀ s t rest, sys.Run c ⟨s, t ::ₘ rest⟩ → ∀ choice, sys.allowed choice s t rest →
      t.ingests? env choice s ≠ some id

def Ingest.misses (choice : Choice) (s : Server) (event : EventIn) : Bool :=
  event.topic ≠ "" && event.payload.text ≠ "" && !s.store.hasEvent (checkedID choice event)

def Ingest.MayPut (env : Env) (id : String) : Ingest.Progress → Prop
  | .readRoutes eventID => ∃ routeID, id = env.deterministicDeliveryID eventID routeID
  | .put ev _ rest _ => ∃ rt ∈ rest, id = env.deterministicDeliveryID ev.id rt.id
  | _ => False

def Thread.MayPut (env : Env) (id : String) : Thread → Prop
  | .handler _ (.ingest _ progress _ _) => Ingest.MayPut env id progress
  | _ => False

def MissesUnanswered (env : Env) (choice : Choice) (s : Server) : Thread → Prop
  | .handler _ (.ingest event .check _ _) =>
    Ingest.misses choice s event → ∀ routeID,
      .delivered (env.deterministicDeliveryID (checkedID choice event) routeID) ∉ s.history
  | _ => True

def AnsweredAfterPut (env : Env) (choice : Choice) (rest : Multiset Thread) : Thread → Prop
  | .processOne d .deliver => choice.error = none → ∀ u ∈ rest, ¬ u.MayPut env d.id
  | _ => True

def answeredSystem (env : Env) : System Server Thread Choice :=
  { system env with
    allowed := fun choice s t rest =>
      MissesUnanswered env choice s t ∧ AnsweredAfterPut env choice rest t }

section

variable {env : Env} {choice : Choice} {s : Server} {t t' : Thread} {id : String}

theorem mayPut_ingest {call : Ingest} {progress : Ingest.Progress}
    (h : Ingest.MayPut env id (Ingest.next env choice s call progress).2) :
    Ingest.MayPut env id progress ∨ progress = .check ∧ Ingest.misses choice s call.event ∧
      ∃ routeID, id = env.deterministicDeliveryID (checkedID choice call.event) routeID := by
  revert h
  fun_cases Ingest.next env choice s call progress
  case case3 hgiven eventID hseen =>
    intro h
    refine .inr ⟨rfl, ?_, h⟩
    simp only [not_or] at hgiven
    simp only [Ingest.misses, ne_eq, hgiven, not_false_eq_true, decide_true, Bool.and_self, Bool.true_and,
      Bool.not_eq_true']
    simpa using hseen
  case case4 eventID routes =>
    rintro ⟨rt, -, hid⟩
    exact .inl ⟨rt.id, hid⟩
  case case5 | case7 =>
    rintro ⟨rt, hrt, hid⟩
    exact .inl ⟨rt, mem_cons_of_mem _ hrt, hid⟩
  all_goals exact False.elim

theorem mayPut_handler {request : Request} {progress next : Handler.Progress}
    (hnext : (Handler.next env choice s request progress).2 = some next)
    (h : (Thread.handler request next).MayPut env id) :
    (Thread.handler request progress).MayPut env id ∨
      ∃ event rest results, progress = .ingest event .check rest results ∧
        Ingest.misses choice s event ∧
        ∃ routeID, id = env.deterministicDeliveryID (checkedID choice event) routeID := by
  revert hnext
  fun_cases Handler.next env choice s request progress
  case case9 event progress rest results hreturned step =>
    rintro ⟨⟩
    rcases mayPut_ingest h with h | ⟨rfl, hmisses, hid⟩
    · exact .inl h
    · exact .inr ⟨event, rest, results, rfl, hmisses, hid⟩
  all_goals
    intro hnext
    cases hnext
  all_goals exact h.elim

theorem mayPut_next (ht' : t' ∈ (t.next env choice s).2) (h : t'.MayPut env id)
    (hallowed : MissesUnanswered env choice s t) (hdelivered : .delivered id ∈ s.history) :
    t.MayPut env id := by
  cases t with
  | handler request progress =>
    obtain ⟨next, hnext, rfl⟩ := map_eq_some_iff.mp (mem_toList.mp ht')
    rcases mayPut_handler hnext h with h | ⟨event, rest, results, rfl, hmisses, routeID, rfl⟩
    · exact h
    · exact (hallowed hmisses routeID hdelivered).elim
  | processDeliveries =>
    cases mem_singleton.mp ht'
    exact h.elim
  | dispatch now items =>
    cases items with
    | nil => cases ht'
    | cons d items =>
      simp only [Thread.next] at ht'
      split at ht' <;> simp only [mem_cons, not_mem_nil, or_false] at ht'
      · rw [ht'] at h
        exact h.elim
      · rcases ht' with rfl | rfl <;> exact h.elim
  | processOne d progress =>
    obtain ⟨next, -, rfl⟩ := map_eq_some_iff.mp (mem_toList.mp ht')
    exact h.elim
  | deadletterReplay id caller progress =>
    obtain ⟨next, -, rfl⟩ := map_eq_some_iff.mp (mem_toList.mp ht')
    exact h.elim
  | deadletterDelete id caller progress =>
    obtain ⟨next, -, rfl⟩ := map_eq_some_iff.mp (mem_toList.mp ht')
    exact h.elim
  | admin request => cases ht'

theorem mayPut_of_putDelivery {call : Ingest} {progress : Ingest.Progress} {d : Delivery}
    (h : (Ingest.next env choice s call progress).1 = .putDelivery d) :
    Ingest.MayPut env d.id progress := by
  revert h
  fun_cases Ingest.next env choice s call progress
  case case5 ev routes rt rest matched helig herror =>
    rintro ⟨⟩
    exact ⟨rt, mem_cons_self, rfl⟩
  all_goals
    intro h
    cases h

theorem mayPut_of_ingests? (h : t.ingests? env choice s = some id) : t.MayPut env id := by
  cases t with
  | handler request progress =>
    cases haction : (Handler.next env choice s request progress).1 with
    | putDelivery d =>
      simp only [Thread.ingests?, Thread.next, haction, Option.some.injEq] at h
      subst h
      revert haction
      fun_cases Handler.next env choice s request progress
      case case9 event progress rest results hreturned step => exact mayPut_of_putDelivery
      all_goals
        intro haction
        cases haction
    | _ => simp [Thread.ingests?, Thread.next, haction] at h
  | _ => cases h

theorem ingest_ne_delivered {call : Ingest} {progress : Ingest.Progress} :
    (Ingest.next env choice s call progress).1 ≠ .delivered id := by
  fun_cases Ingest.next env choice s call progress <;> simp

theorem next_delivered (h : (t.next env choice s).1 = .delivered id) :
    ∃ d, t = .processOne d .deliver ∧ d.id = id ∧ choice.error = none := by
  revert h
  cases t with
  | handler request progress =>
    simp only [Thread.next]
    fun_cases Handler.next env choice s request progress
    case case9 event progress rest results hreturned step => exact fun h => (ingest_ne_delivered h).elim
    all_goals rintro ⟨⟩
  | processOne d progress =>
    simp only [Thread.next]
    fun_cases ProcessOne.next choice d progress
    case case1 herror =>
      rintro ⟨⟩
      exact ⟨d, rfl, rfl, herror⟩
    all_goals
      intro h
      simp only at h
      first | cases h | (split at h <;> cases h)
  | dispatch now items =>
    cases items with
    | nil => rintro ⟨⟩
    | cons d items =>
      simp only [Thread.next]
      split <;> simp
  | deadletterReplay id caller progress =>
    simp only [Thread.next]
    fun_cases DeadletterReplay.next choice s id caller progress
    all_goals
      intro h
      simp only at h
      first | cases h | (split at h <;> cases h)
  | deadletterDelete id caller progress =>
    simp only [Thread.next]
    fun_cases DeadletterDelete.next choice s id caller progress
    all_goals
      intro h
      simp only at h
      first | cases h | (split at h <;> cases h)
  | admin request =>
    simp only [Thread.next]
    split <;> simp
  | processDeliveries => rintro ⟨⟩

end

section

variable {env : Env}

def NeverPut (env : Env) (s : Server) (t : Thread) : Prop :=
  ∀ id, .delivered id ∈ s.history → ¬ t.MayPut env id

theorem outline_neverPut (env : Env) :
    (answeredSystem env).Outline (fun _ => True) (NeverPut env) where
  starts s t _ hstart id _ h := by
    cases hstart <;> exact h
  inv_next _ _ _ _ _ _ _ := trivial
  asserts_next choice s t rest hallowed _ ht t' ht' id hdelivered h := by
    rcases mem_history_run hdelivered with hdelivered | haction
    · exact ht id hdelivered (mayPut_next ht' h hallowed.1 hdelivered)
    · -- the thread that is answered is one of the worker, and stays one
      obtain ⟨d, rfl, -, -⟩ := next_delivered haction
      obtain ⟨next, -, rfl⟩ := map_eq_some_iff.mp (mem_toList.mp ht')
      exact h
  stable choice s t rest hallowed _ _ u hu hasserts id hdelivered h := by
    rcases mem_history_run hdelivered with hdelivered | haction
    · exact hasserts id hdelivered h
    · obtain ⟨d, rfl, rfl, herror⟩ := next_delivered haction
      exact hallowed.2 herror u hu h

theorem history_run_subset {c c' : Interleave.Config Server Thread} (h : (answeredSystem env).Run c c') :
    c.shared.history ⊆ c'.shared.history := by
  induction h with
  | refl => exact fun _ h => h
  | tail _ hstep ih =>
    refine List.Subset.trans ih ?_
    cases hstep with
    | start => exact fun _ h => h
    | move => exact subset_append_left _ _

/-- A delivery that was answered and is removed is not queued again in a run in which no
delivery of an event was answered where a call misses the event, and no delivery is
answered while a call may still put it. -/
theorem not_queued_again_of_answered (env : Env) (s₀ : Server) :
    NotQueuedAgain (answeredSystem env) env s₀ := by
  intro c hrun id hdelivered _ s t rest hrun' choice _ hingests
  have hasserts := ((outline_neverPut env).run (hrun.trans hrun') ⟨trivial, by simp⟩).2 t
    (Multiset.mem_cons_self t rest)
  exact hasserts id (history_run_subset hrun' hdelivered) (mayPut_of_ingests? hingests)

end

def workerMoves : List (Move Thread Choice) :=
  [.start .processDeliveries, .move 0 {}, .move 0 {}, .move 1 {}, .move 0 {}, .move 0 {}, .move 0 {}]

def deliveredMoves : List (Move Thread Choice) :=
  [.start (.handler someRequest .arrive), .move 0 {}, .move 0 {}, .move 0 {}, .move 0 {}, .move 0 {},
    .move 0 {}, .move 0 {}] ++ workerMoves

def sentAgain : List (Move Thread Choice) := [.start (.handler someRequest .arrive), .move 0 {}]

noncomputable def deliveredServer : Server × List Thread :=
  deliveredMoves.foldl (exec (system plainEnv).next) (someServer, [])

noncomputable def checkingServer : Server × List Thread :=
  sentAgain.foldl (exec (system plainEnv).next) deliveredServer

/-- The checks of a schedule: nothing was answered where a call misses its event, and no call
is under way where a delivery is answered. -/
def keepsApart (choice : Choice) (s : Server) (t : Thread) (rest : List Thread) : Bool :=
  match t with
  | .handler _ (.ingest event .check _ _) =>
    !Ingest.misses choice s event || s.history.all fun
      | .delivered _ => false
      | _ => true
  | .processOne _ .deliver => rest.all fun
    | .handler _ (.ingest _ (.readRoutes _) _ _) | .handler _ (.ingest _ (.put ..) _ _) => false
    | _ => true
  | _ => true

def startsHere : Thread → Bool
  | .handler _ .arrive | .processDeliveries => true
  | _ => false

theorem starts_of_startsHere {t : Thread} (h : startsHere t) : t.Starts := by
  unfold startsHere at h
  split at h
  · exact .handler _
  · exact .processDeliveries
  · cases h

theorem allowed_of_keepsApart {env : Env} {choice : Choice} {s : Server} {t : Thread} {rest : List Thread}
    (h : keepsApart choice s t rest) : (answeredSystem env).allowed choice s t ↑rest := by
  unfold keepsApart at h
  split at h
  · refine ⟨fun hmisses routeID hmem => ?_, trivial⟩
    rw [hmisses, Bool.not_true, Bool.false_or] at h
    cases List.all_eq_true.mp h _ hmem
  · refine ⟨trivial, fun _ u hu hput => ?_⟩
    have hother := List.all_eq_true.mp h u (Multiset.mem_coe.mp hu)
    unfold Thread.MayPut at hput
    split at hput
    · unfold Ingest.MayPut at hput
      split at hput
      · cases hother
      · cases hother
      · exact hput
    · exact hput
  · next hcheck hdeliver =>
    constructor
    · unfold MissesUnanswered
      split
      · exact (hcheck _ _ _ _ rfl).elim
      · trivial
    · unfold AnsweredAfterPut
      split
      · exact (hdeliver _ rfl).elim
      · trivial

theorem not_queued_after_delivery :
    .delivered "e/r" ∈ deliveredServer.1.history ∧ "e/r" ∉ deliveredServer.1.deliveries ∧
      ∀ t, checkingServer.2 = [t] → t.ingests? plainEnv {} checkingServer.1 ≠ some "e/r" := by
  have hdelivered := System.permits_of_checks (answeredSystem plainEnv)
    (fun _ => starts_of_startsHere) (fun _ _ _ _ => allowed_of_keepsApart) deliveredMoves (someServer, [])
    (by decide)
  have hagain := System.permits_of_checks (answeredSystem plainEnv)
    (fun _ => starts_of_startsHere) (fun _ _ _ _ => allowed_of_keepsApart) sentAgain deliveredServer
    (by decide)
  have hlooks := System.permits_of_checks (answeredSystem plainEnv)
    (fun _ => starts_of_startsHere) (fun _ _ _ _ => allowed_of_keepsApart) [.move 0 {}] checkingServer
    (by decide)
  have hhistory : .delivered "e/r" ∈ deliveredServer.1.history := by decide
  have hgone : "e/r" ∉ deliveredServer.1.deliveries := by decide
  refine ⟨hhistory, hgone, fun t ht => ?_⟩
  have hrun : (answeredSystem plainEnv).Run ⟨deliveredServer.1, ↑deliveredServer.2⟩
      ⟨checkingServer.1, ↑checkingServer.2⟩ := System.run_of_exec _ sentAgain _ hagain
  have hallowed := hlooks.1 t (by rw [ht]; rfl)
  rw [ht] at hrun hallowed
  exact not_queued_again_of_answered plainEnv someServer _
    (System.run_of_exec _ deliveredMoves _ hdelivered) "e/r" hhistory hgone _ t 0 hrun {} hallowed

def secondRoute : Route := { id := "r2", topic := "#", enabled := true }

def twoRoutes : Server :=
  { store := { someStore with state := { someStore.state with routes := [someRoute, secondRoute] } } }

/-- The second delivery of an event is refused by the queue, and the request is answered 503; the
worker makes the first one. -/
def refusedMoves : List (Move Thread Choice) :=
  [.start (.handler someRequest .arrive), .move 0 {}, .move 0 {}, .move 0 {}, .move 0 {},
    .move 0 { error := some "full" }, .move 0 {}] ++ workerMoves

def retryMoves : List (Move Thread Choice) :=
  [.start (.handler someRequest .arrive), .move 0 {}, .move 0 {}, .move 0 {}]

noncomputable def refusedServer : Server × List Thread :=
  refusedMoves.foldl (exec (system plainEnv).next) (twoRoutes, [])

noncomputable def retriedServer : Server × List Thread :=
  retryMoves.foldl (exec (system plainEnv).next) refusedServer

/-- The first delivery, answered and removed, is put once more. -/
theorem queued_again_after_refusal :
    .delivered "e/r" ∈ refusedServer.1.history ∧ "e/r" ∉ refusedServer.1.deliveries ∧
      ¬ NotQueuedAgain (system plainEnv) plainEnv twoRoutes := by
  have hhistory : .delivered "e/r" ∈ refusedServer.1.history := by decide
  have hgone : "e/r" ∉ refusedServer.1.deliveries := by decide
  have hputs : retriedServer.2.map (fun t => t.ingests? plainEnv {} retriedServer.1) = [some "e/r"] := by
    decide
  obtain ⟨t, ht, hingests⟩ : ∃ t, retriedServer.2 = [t] ∧
      t.ingests? plainEnv {} retriedServer.1 = some "e/r" := by
    obtain ⟨t, rest, hpool, hingests, hrest⟩ := map_eq_cons_iff.mp hputs
    rw [map_eq_nil_iff.mp hrest] at hpool
    exact ⟨t, hpool, hingests⟩
  have hstarts : ∀ t, .start t ∈ refusedMoves ∨ .start t ∈ retryMoves → t.Starts := by
    intro t ht
    simp only [refusedMoves, retryMoves, workerMoves, mem_append, mem_cons, Move.start.injEq,
      reduceCtorEq, not_mem_nil, or_false] at ht
    rcases ht with (rfl | rfl) | rfl
    · exact .handler _
    · exact .processDeliveries
    · exact .handler _
  have hrun : (system plainEnv).Run ⟨refusedServer.1, ↑refusedServer.2⟩
      ⟨retriedServer.1, ↑retriedServer.2⟩ :=
    System.run_of_starts _ (fun _ _ _ _ => trivial) retryMoves (fun t ht => hstarts t (.inr ht)) refusedServer
  rw [ht] at hrun
  exact ⟨hhistory, hgone, fun h => h _
    (System.run_of_starts _ (fun _ _ _ _ => trivial) refusedMoves (fun t ht => hstarts t (.inl ht))
      (twoRoutes, []))
    "e/r" hhistory hgone _ t 0 hrun {} trivial hingests⟩

end Nodra.Server
