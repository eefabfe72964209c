import Nodra.Server.Model
import Nodra.Store.Durability

/-! Deliveries are not lost: a delivery that was put is in one of the two queues until
its target answers or it is removed on request, as long as the two moves between
the queues do not cross. -/
namespace Nodra.Server
open Model Std Interleave List Option OrderedMap

variable {env : Env} {choice : Choice} {s : Server} {id : String}

def system (env : Env) : System Server Thread Choice where
  starts := Thread.Starts
  next := Thread.step env

def Settled (s : Server) (id : String) : Prop :=
  .delivered id ∈ s.history ∨ .removed id ∈ s.history

def Accounted (s : Server) (id : String) : Prop :=
  id ∈ s.deliveries ∨ id ∈ s.dlq ∨ Settled s id

instance (s : Server) (id : String) : Decidable (Accounted s id) :=
  inferInstanceAs (Decidable (id ∈ s.deliveries ∨ id ∈ s.dlq ∨
    .delivered id ∈ s.history ∨ .removed id ∈ s.history))

def NoneLost (s : Server) : Prop := ∀ d, .put d ∈ s.history → Accounted s d.id

def Observation.source : Observation → Action
  | .put d => .putDelivery d
  | .delivered id => .delivered id
  | .removed id => .removeDeadLetter id
  | .recorded ev routes => .addEvent ev routes
  | .accepted eventID => .accepted eventID
  | .replied request reply => .reply request reply

theorem source_of_mem_observed {a : Action} {what : Observation} (h : what ∈ a.observed s) :
    a = what.source := by
  cases a with
  | addEvent ev routes =>
    simp only [Action.observed] at h
    split at h
    · cases h
    · rw [mem_singleton.mp h]
      rfl
  | removeDeadLetter id =>
    simp only [Action.observed] at h
    split at h
    · rw [mem_singleton.mp h]
      rfl
    · cases h
  | _ => first | (rw [mem_singleton.mp h]; rfl) | cases h

theorem mem_history_run {a : Action} {what : Observation} (h : what ∈ (a.run env s).history) :
    what ∈ s.history ∨ a = what.source :=
  (mem_append.mp h).imp_right source_of_mem_observed

theorem Settled.run (h : Settled s id) (a : Action) : Settled (a.run env s) id :=
  h.imp (mem_append_left _) (mem_append_left _)

theorem mem_deliveries_run (a : Action) (h : id ∈ s.deliveries) (hdelete : a ≠ .deleteDelivery id) :
    id ∈ (a.run env s).deliveries := by
  cases a with
  | putDelivery d => exact mem_put.mpr (.inr h)
  | deleteDelivery id' => exact mem_remove.mpr ⟨fun heq => hdelete (by rw [heq]), h⟩
  | _ => exact h

theorem kept_dlq_run (a : Action) (h : id ∈ s.dlq ∨ Settled s id) (hdelete : a ≠ .deleteDeadLetter id) :
    id ∈ (a.run env s).dlq ∨ Settled (a.run env s) id := by
  rcases h with h | h
  · cases a with
    | putDeadLetter dl => exact .inl (mem_put.mpr (.inr h))
    | deleteDeadLetter id' =>
      exact .inl (mem_remove.mpr ⟨fun heq => hdelete (by rw [heq]), h⟩)
    | removeDeadLetter id' =>
      by_cases hid : id = id'
      · subst hid
        exact .inr (.inr (by simp [Action.run, Action.observed, h]))
      · exact .inl (mem_remove.mpr ⟨hid, h⟩)
    | _ => exact .inl h
  · exact .inr (h.run a)

theorem kept_deliveries_run (a : Action) (h : id ∈ s.deliveries ∨ Settled s id)
    (hdelete : a ≠ .deleteDelivery id) :
    id ∈ (a.run env s).deliveries ∨ Settled (a.run env s) id :=
  h.imp (fun h => mem_deliveries_run a h hdelete) fun h => h.run a

theorem Accounted.run (h : Accounted s id) (a : Action)
    (hdelivery : a = .deleteDelivery id → id ∈ s.dlq ∨ Settled s id)
    (hdeadLetter : a = .deleteDeadLetter id → id ∈ s.deliveries ∨ Settled s id) :
    Accounted (a.run env s) id := by
  by_cases ha : a = .deleteDelivery id
  · exact .inr (kept_dlq_run a (hdelivery ha) (by simp [ha]))
  · by_cases ha' : a = .deleteDeadLetter id
    · exact (kept_deliveries_run a (hdeadLetter ha') ha).imp_right .inr
    · rcases h with h | h
      · exact .inl (mem_deliveries_run a h ha)
      · exact .inr (kept_dlq_run a h ha')

def Keyed (s : Server) : Prop := ∀ id dl, s.dlq.get? id = some dl → dl.delivery.id = id

theorem Keyed.run (h : Keyed s) (a : Action) : Keyed (a.run env s) := by
  intro id dl hget
  have hremove {id' : String} (hget : (s.dlq.remove id').get? id = some dl) :
      dl.delivery.id = id := by
    rw [get?_remove] at hget
    split at hget
    · cases hget
    · exact h id dl hget
  cases a with
  | putDeadLetter dl' =>
    simp only [Action.run, Action.dlq] at hget
    rw [get?_put] at hget
    split at hget
    · rename_i hid
      cases hget
      exact hid.symm
    · exact h id dl hget
  | deleteDeadLetter id' => exact hremove hget
  | removeDeadLetter id' => exact hremove hget
  | _ => exact h id dl hget

section

def Action.deletes : Action → Bool
  | .deleteDelivery _ => true
  | .deleteDeadLetter _ => true
  | _ => false

theorem Ingest.deletes_next (call : Ingest) (progress : Ingest.Progress) :
    (Ingest.next env choice s call progress).1.deletes = false := by
  fun_cases Ingest.next env choice s call progress <;> rfl

theorem Handler.deletes_next (request : Request) (progress : Handler.Progress) :
    (Handler.next env choice s request progress).1.deletes = false := by
  fun_cases Handler.next env choice s request progress <;>
    first | rfl | exact Ingest.deletes_next _ _

def Thread.drops : Thread → Option String
  | .processOne d (.drop _) => some d.id
  | _ => none

def Thread.replays : Thread → Option String
  | .deadletterReplay id _ .delete => some id
  | _ => none

def Thread.asserts (s : Server) : Thread → Prop
  | .processOne d .completed => Settled s d.id
  | .processOne d (.drop _) => d.id ∈ s.dlq ∨ Settled s d.id
  | .deadletterReplay id _ (.put d) => d.id = id
  | .deadletterReplay id _ .delete => id ∈ s.deliveries ∨ Settled s id
  | _ => True

variable {t : Thread}

theorem ProcessOne.deletes_next {d : Delivery} {progress : ProcessOne.Progress}
    (h : (ProcessOne.next choice d progress).1.deletes = true) :
    (ProcessOne.next choice d progress).1 = .deleteDelivery d.id ∧
      (progress = .completed ∨ ∃ reason, progress = .drop reason) := by
  revert h
  fun_cases ProcessOne.next choice d progress <;> intro h <;> try cases h
  · split at h
    · cases h
    · rename_i hok
      exact ⟨if_neg hok, .inl rfl⟩
  · exact ⟨rfl, .inr ⟨_, rfl⟩⟩
  · split at h <;> cases h
  · split at h <;> cases h

theorem DeadletterReplay.deletes_next {caller : String → Bool}
    {progress : DeadletterReplay.Progress}
    (h : (DeadletterReplay.next choice s id caller progress).1.deletes = true) :
    (DeadletterReplay.next choice s id caller progress).1 = .deleteDeadLetter id ∧
      progress = .delete := by
  revert h
  fun_cases DeadletterReplay.next choice s id caller progress <;> intro h <;> try cases h
  split at h
  · cases h
  · rename_i hok
    exact ⟨if_neg hok, rfl⟩

/-- The steps that delete: the end of a delivery, of its move to the dead letters, and
of a replay. -/
theorem Thread.deletes_next (h : (t.next env choice s).1.deletes = true) :
    (∃ d, (t.next env choice s).1 = .deleteDelivery d.id ∧
      (t = .processOne d .completed ∨ ∃ reason, t = .processOne d (.drop reason))) ∨
    ∃ id caller, (t.next env choice s).1 = .deleteDeadLetter id ∧
      t = .deadletterReplay id caller .delete := by
  cases t with
  | handler request progress =>
    rw [show (Thread.next env choice s (.handler request progress)).1 =
      (Handler.next env choice s request progress).1 from rfl, Handler.deletes_next] at h
    cases h
  | processOne d progress =>
    obtain ⟨haction, hprogress⟩ := ProcessOne.deletes_next h
    refine .inl ⟨d, haction, ?_⟩
    rcases hprogress with rfl | ⟨reason, rfl⟩
    · exact .inl rfl
    · exact .inr ⟨reason, rfl⟩
  | deadletterReplay id caller progress =>
    obtain ⟨haction, rfl⟩ := DeadletterReplay.deletes_next h
    exact .inr ⟨id, caller, haction, rfl⟩
  | processDeliveries => cases h
  | dispatch now items =>
    cases items with
    | nil => cases h
    | cons d items =>
      simp only [Thread.next] at h
      split at h <;> cases h
  | deadletterDelete id caller progress =>
    revert h
    simp only [Thread.next]
    fun_cases DeadletterDelete.next choice s id caller progress <;> intro h <;> try cases h
    split at h <;> cases h
  | admin request =>
    simp only [Thread.next] at h
    split at h <;> cases h

theorem Thread.asserts_run {u : Thread} (a : Action) (hu : u.asserts s)
    (hdrops : ∀ id, u.drops = some id → a ≠ .deleteDeadLetter id)
    (hreplays : ∀ id, u.replays = some id → a = .deleteDelivery id → Settled s id) :
    u.asserts (a.run env s) := by
  cases u with
  | processOne d progress =>
    cases progress with
    | completed => exact Settled.run hu a
    | drop reason => exact kept_dlq_run a hu (hdrops d.id rfl)
    | _ => trivial
  | deadletterReplay id caller progress =>
    cases progress with
    | get => trivial
    | put d => exact hu
    | delete =>
      by_cases ha : a = .deleteDelivery id
      · exact .inr ((hreplays id rfl ha).run a)
      · exact kept_deliveries_run a hu ha
  | _ => trivial

theorem ProcessOne.asserts_next {d : Delivery} {progress : ProcessOne.Progress}
    {next : Delivery × ProcessOne.Progress}
    (h : (ProcessOne.next choice d progress).2 = some next) :
    (Thread.processOne next.1 next.2).asserts ((ProcessOne.next choice d progress).1.run env s) := by
  revert h
  fun_cases ProcessOne.next choice d progress <;> intro h <;> cases h <;> try trivial
  · exact .inl (by simp [Action.run, Action.observed])
  · exact .inl (by simp [Action.run, Action.dlq])

theorem DeadletterReplay.asserts_next {caller : String → Bool}
    {progress next : DeadletterReplay.Progress} (hkeyed : Keyed s)
    (hasserts : (Thread.deadletterReplay id caller progress).asserts s)
    (h : (DeadletterReplay.next choice s id caller progress).2 = some next) :
    (Thread.deadletterReplay id caller next).asserts
      ((DeadletterReplay.next choice s id caller progress).1.run env s) := by
  revert h hasserts
  fun_cases DeadletterReplay.next choice s id caller progress <;> intro hasserts h <;> cases h
  · rename_i dl hget _ d
    exact hkeyed id dl hget
  · rename_i d _
    have hid : d.id = id := hasserts
    exact .inl (by simp [Action.run, Action.deliveries, hid])

theorem Thread.asserts_next (hkeyed : Keyed s) (ht : t.asserts s) {t' : Thread}
    (h : t' ∈ (t.next env choice s).2) : t'.asserts ((t.next env choice s).1.run env s) := by
  cases t with
  | handler request progress =>
    obtain ⟨next, -, rfl⟩ := map_eq_some_iff.mp (mem_toList.mp h)
    trivial
  | processDeliveries =>
    rw [mem_singleton.mp h]
    trivial
  | dispatch now items =>
    cases items with
    | nil => cases h
    | cons d items =>
      simp only [Thread.next] at h
      split at h
      · rw [mem_singleton.mp h]
        trivial
      · rcases mem_pair.mp h with rfl | rfl <;> trivial
  | processOne d progress =>
    obtain ⟨next, hnext, rfl⟩ := map_eq_some_iff.mp (mem_toList.mp h)
    exact ProcessOne.asserts_next hnext
  | deadletterReplay id caller progress =>
    obtain ⟨next, hnext, rfl⟩ := map_eq_some_iff.mp (mem_toList.mp h)
    exact DeadletterReplay.asserts_next hkeyed ht hnext
  | deadletterDelete id caller progress =>
    obtain ⟨next, -, rfl⟩ := map_eq_some_iff.mp (mem_toList.mp h)
    trivial
  | admin request => cases h

/-- The moves of a delivery between the queues do not cross: neither of the deletions
that end them is made while the other move of the same id stands between its put
and its deletion. -/
def Uncrossed (t : Thread) (rest : Multiset Thread) : Prop :=
  (∀ id, t.drops = some id → ∀ u ∈ rest, u.replays ≠ some id) ∧
    ∀ id, t.replays = some id → ∀ u ∈ rest, u.drops ≠ some id

def uncrossedSystem (env : Env) : System Server Thread Choice :=
  { system env with allowed := fun _ _ t rest => Uncrossed t rest }

theorem next_deleteDelivery (h : (t.next env choice s).1 = .deleteDelivery id)
    (ht : t.asserts s) : Settled s id ∨ t.drops = some id ∧ id ∈ s.dlq := by
  have hdeletes : (t.next env choice s).1.deletes = true := by
    rw [h]
    rfl
  rcases Thread.deletes_next hdeletes with ⟨d, haction, hthread⟩ | ⟨id', caller, haction, -⟩
  · obtain rfl : id = d.id := Action.deleteDelivery.inj (h.symm.trans haction)
    rcases hthread with rfl | ⟨reason, rfl⟩
    · exact .inl ht
    · exact ht.symm.imp_right fun hdlq => ⟨rfl, hdlq⟩
  · cases h.symm.trans haction

theorem next_deleteDeadLetter (h : (t.next env choice s).1 = .deleteDeadLetter id)
    (ht : t.asserts s) : t.replays = some id ∧ (id ∈ s.deliveries ∨ Settled s id) := by
  have hdeletes : (t.next env choice s).1.deletes = true := by
    rw [h]
    rfl
  rcases Thread.deletes_next hdeletes with ⟨d, haction, -⟩ | ⟨id', caller, haction, rfl⟩
  · cases h.symm.trans haction
  · obtain rfl : id = id' := Action.deleteDeadLetter.inj (h.symm.trans haction)
    exact ⟨rfl, ht⟩

theorem NoneLost.next (h : NoneLost s) (ht : t.asserts s) :
    NoneLost ((t.next env choice s).1.run env s) := by
  intro d hput
  rcases mem_history_run hput with hput | haction
  · refine (h d hput).run _ (fun ha => ?_) fun ha => (next_deleteDeadLetter ha ht).2
    exact (next_deleteDelivery ha ht).symm.imp_left And.right
  · rw [haction]
    exact .inl (by simp [Action.run, Action.deliveries, Observation.source])

theorem outline (env : Env) :
    (uncrossedSystem env).Outline (fun s => Keyed s ∧ NoneLost s) fun s t => t.asserts s where
  starts s t _ hstart := by
    cases hstart <;> trivial
  inv_next choice s t rest _ hinv ht := ⟨hinv.1.run _, hinv.2.next ht⟩
  asserts_next choice s t rest _ hinv ht t' ht' := Thread.asserts_next hinv.1 ht ht'
  stable choice s t rest hallowed _ ht u hu hasserts := by
    refine Thread.asserts_run _ hasserts (fun id hdrops ha => ?_) fun id hreplays ha => ?_
    · exact hallowed.2 id (next_deleteDeadLetter ha ht).1 u hu hdrops
    · refine (next_deleteDelivery ha ht).resolve_right fun hdrop => ?_
      exact hallowed.1 id hdrop.1 u hu hreplays

end

/-- No delivery is lost: from a server that lost none, in a run whose moves between the
queues do not cross, every delivery that was put is accounted for at each moment.
Any call of a queue or of the store may fail. -/
theorem none_lost_of_run (env : Env) (s₀ : Server) (c : Config Server Thread)
    (hkeyed : Keyed s₀) (hnone : NoneLost s₀) (hrun : (uncrossedSystem env).Run ⟨s₀, 0⟩ c) :
    NoneLost c.shared :=
  ((outline env).run hrun ⟨⟨hkeyed, hnone⟩, by simp⟩).1.2

noncomputable def plainEnv : Env where
  codecs := Store.numberedCodecs
  deterministicDeliveryID eventID routeID := eventID ++ "/" ++ routeID
  equalHash hash token := hash = token

def someRoute : Route := { id := "r", topic := "#", enabled := true }
def someEvent : EventIn := { eventID := "e", topic := "t", payload := ⟨"1"⟩ }
def someRequest : Request := { siteID := "s", bearer := "token", body := .single someEvent }

def someStore : Nodra.Store :=
  { Store.freshStore with
    state := { sites := [{ id := "s", tokenHash := "token" }], routes := [someRoute] } }

def someServer : Server := { store := someStore }

def someDelivery : Delivery :=
  { id := "e/r", routeID := "r", eventID := "e", siteID := "s", topic := "t", payload := ⟨"1"⟩,
    maxAttempts := 1 }

def letterServer : Server :=
  { store := someStore
    dlq := OrderedMap.empty.put "e/r" { delivery := someDelivery, reason := "refused" }
    history := [.put someDelivery] }

theorem uncrossed_zero (t : Thread) : Uncrossed t 0 := by
  simp [Uncrossed]

def replayMoves : List (Move Thread Choice) :=
  [.start (.deadletterReplay "e/r" (fun _ => true) .get), .move 0 {}, .move 0 {}, .move 0 {}]

theorem none_lost_after_replay :
    NoneLost (replayMoves.foldl (exec (system plainEnv).next) (letterServer, [])).1 := by
  have hkeyed : Keyed letterServer := by
    intro id dl hget
    rw [letterServer, get?_put] at hget
    split at hget
    · rename_i hid
      cases hget
      exact hid.symm
    · cases hget
  have hnone : NoneLost letterServer := by
    intro d hput
    rw [letterServer, mem_singleton, Observation.put.injEq] at hput
    rw [hput]
    decide
  have hpermits : (uncrossedSystem plainEnv).Permits (letterServer, []) replayMoves :=
    ⟨.deadletterReplay _ _, fun t _ => uncrossed_zero t, fun t _ => uncrossed_zero t,
      fun t _ => uncrossed_zero t, trivial⟩
  exact none_lost_of_run plainEnv letterServer _ hkeyed hnone
    ((uncrossedSystem plainEnv).run_of_exec replayMoves (letterServer, []) hpermits)

/-- An event is ingested, its delivery fails for good, and a replay of the dead letter
runs before the worker has deleted the delivery. -/
def crossingMoves : List (Move Thread Choice) :=
  [.start (.handler someRequest .arrive), .move 0 {}, .move 0 {}, .move 0 {}, .move 0 {},
    .move 0 {}, .move 0 {}, .move 0 {},
    .start .processDeliveries, .move 0 {}, .move 0 {}, .move 1 { error := some "refused" }, .move 0 {},
    .start (.deadletterReplay "e/r" (fun _ => true) .get), .move 0 {}, .move 0 {},
    .move 1 {}, .move 1 {}]

/-- The worker and a replay move the same delivery: the worker has put it in the
dead-letter queue when the replay reads it there, both put before either deletes,
and both queues are left without it. -/
theorem delivery_lost_when_moves_cross :
    Keyed someServer ∧ NoneLost someServer ∧
      ∃ c, (system plainEnv).Run ⟨someServer, 0⟩ c ∧ ¬ NoneLost c.shared := by
  have free {choice : Choice} {s : Server} {pool : List Thread} {index : Nat} (t : Thread)
      (_ : pool[index]? = some t) :
      (system plainEnv).allowed choice s t ↑(pool.eraseIdx index) := trivial
  have hpermits : (system plainEnv).Permits (someServer, []) crossingMoves :=
    ⟨.handler _, free, free, free, free, free, free, free,
      .processDeliveries, free, free, free, free,
      .deadletterReplay _ _, free, free, free, free, trivial⟩
  refine ⟨?_, ?_, _, (system plainEnv).run_of_exec crossingMoves (someServer, []) hpermits,
    fun hnone => ?_⟩
  · intro id dl hget
    cases hget
  · intro d hput
    cases hput
  · have hput : .put someDelivery ∈
        (crossingMoves.foldl (exec (system plainEnv).next) (someServer, [])).1.history := by
      decide
    have hlost : ¬ Accounted (crossingMoves.foldl (exec (system plainEnv).next) (someServer, [])).1
        someDelivery.id := by
      decide
    exact hlost (hnone someDelivery hput)

end Nodra.Server
