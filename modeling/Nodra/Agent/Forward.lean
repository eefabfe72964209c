import Nodra.Agent.Model
import Nodra.Server.Ingestion

/-! Store and forward: an event whose ingest returned nil stays in the spool until the
server has recorded it, whatever is lost or refused on the way. -/
namespace Nodra.Agent
open Model Std Server Interleave List Option OrderedMap

variable {env : Env} {cfg : Config} {choice : Choice} {ids : Finset String}
  {initial : List String} {w w' : World}

def Node.awaits (cfg : Config) : Node → Option Request
  | .flush (.awaitBatch batch _) => some (batchRequest cfg batch)
  | .flush (.awaitOne ev _ _) => some (eventRequest cfg ev)
  | _ => none

def Arrives (w : World) (request : Request) (reply : Reply) : Prop :=
  ∃ sent, .replied request sent ∈ w.server.history ∧
    (reply = sent ∨ reply = { sent with results := [] })

/-- The steps of the runs: events go by the ids of `ids`, responses come from the server,
and `localID` gives out no id twice. -/
structure Admissible (cfg : Config) (ids : Finset String) (choice : Choice) (w : World) (t : Node) :
    Prop where
  named : ∀ thread, t = .server thread → ∀ id, thread.checks choice.toChoice = some id → id ∈ ids
  arrives : ∀ request reply, t.awaits cfg = some request → choice.reply = some reply →
    Arrives w request reply
  unique : ∀ call, t = .ingest call .spool → choice.id ∉ w.issued

def forwardSystem (env : Env) (cfg : Config) (ids : Finset String) : System World Node Choice where
  starts := Node.Starts
  next := Node.step env cfg
  allowed := fun choice w t _ => Admissible cfg ids choice w t

def Kept (w : World) (ev : Event) : Prop :=
  ev.id ∈ w.issued ∧ (w.spool.get? ev.id = some ev ∨ Seen w.server ev.id)

structure Forwarding (env : Env) (ids : Finset String) (initial : List String) (w : World) :
    Prop where
  consistent : Consistent env.server ids initial w.server
  spooled : ∀ id ev, w.spool.get? id = some ev → ev.id = id ∧ id ≠ "" ∧ id ∈ w.issued
  kept : ∀ ev ∈ w.ingested, Kept w ev
  flushed : ∀ id ∈ w.flushed, Seen w.server id

def Sendable (items : List Event) : Prop := ∀ ev ∈ items, ev.id ≠ ""

def Flush.Relies (w : World) : Flush.Progress → Prop
  | .list => True
  | .batches items => Sendable items
  | .awaitBatch batch rest => Sendable batch ∧ Sendable rest
  | .delete ok _ rest => (∀ id ∈ ok, Seen w.server id) ∧ Sendable rest
  | .oneByOne items after => Sendable items ∧ ∀ rest, after = some rest → Sendable rest
  | .awaitOne ev items after =>
    ev.id ≠ "" ∧ Sendable items ∧ ∀ rest, after = some rest → Sendable rest
  | .deleteOne ev items after =>
    Seen w.server ev.id ∧ Sendable items ∧ ∀ rest, after = some rest → Sendable rest

def Node.Relies (env : Env) (ids : Finset String) (w : World) : Node → Prop
  | .server t => t.Relies env.server ids w.server
  | .ingest _ .spool => True
  | .ingest _ (.routes ev _ _) => Kept w ev
  | .flush progress => Flush.Relies w progress

structure Preserves (w w' : World) : Prop where
  server : Extends w.server w'.server
  kept : ∀ ev, Kept w ev → Kept w' ev

theorem Preserves.refl (w : World) : Preserves w w :=
  ⟨⟨fun _ h => h, fun _ h => h⟩, fun _ h => h⟩

theorem Flush.Relies.mono {progress : Flush.Progress} (h : Flush.Relies w progress)
    (hpres : Preserves w w') : Flush.Relies w' progress := by
  cases progress with
  | delete ok batch rest => exact ⟨fun id hid => hpres.server.seen id (h.1 id hid), h.2⟩
  | deleteOne ev items after => exact ⟨hpres.server.seen _ h.1, h.2⟩
  | _ => exact h

theorem Node.Relies.mono {t : Node} (h : t.Relies env ids w) (hpres : Preserves w w') :
    t.Relies env ids w' := by
  cases t with
  | server t => exact Thread.Relies.mono h hpres.server
  | flush progress => exact Flush.Relies.mono h hpres
  | ingest call progress =>
    cases progress with
    | spool => trivial
    | routes ev index rest => exact hpres.kept ev h

theorem preserves_server {s : Nodra.Server} (hext : Extends w.server s) :
    Preserves w { w with server := s } :=
  ⟨hext, fun _ h => ⟨h.1, h.2.imp_right (hext.seen _)⟩⟩

theorem Forwarding.server {s : Nodra.Server} (h : Forwarding env ids initial w)
    (hs : Consistent env.server ids initial s) (hext : Extends w.server s) :
    Forwarding env ids initial { w with server := s } where
  consistent := hs
  spooled := h.spooled
  kept ev hev := (preserves_server hext).kept ev (h.kept ev hev)
  flushed id hid := hext.seen id (h.flushed id hid)

theorem preserves_put {ev : Event} (hunique : ev.id ∉ w.issued) :
    Preserves w { w with issued := ev.id :: w.issued, spool := w.spool.put ev.id ev } := by
  refine ⟨(Preserves.refl w).server, fun ev' h => ⟨mem_cons_of_mem _ h.1, ?_⟩⟩
  have hne : ev'.id ≠ ev.id := fun heq => hunique (heq ▸ h.1)
  simp only [get?_put, if_neg hne]
  exact h.2

theorem kept_put (ev : Event) :
    Kept { w with issued := ev.id :: w.issued, spool := w.spool.put ev.id ev } ev :=
  ⟨mem_cons_self, .inl (get?_put_self _ _ _)⟩

theorem Forwarding.put {ev : Event} (h : Forwarding env ids initial w) (hne : ev.id ≠ "")
    (hunique : ev.id ∉ w.issued) :
    Forwarding env ids initial
      { w with issued := ev.id :: w.issued, spool := w.spool.put ev.id ev } where
  consistent := h.consistent
  kept ev' hev' := (preserves_put hunique).kept ev' (h.kept ev' hev')
  flushed := h.flushed
  spooled id ev' hget := by
    simp only [get?_put] at hget
    split at hget
    · rename_i hid
      cases hget
      exact ⟨hid.symm, hid ▸ hne, hid ▸ mem_cons_self⟩
    · obtain ⟨hid, hne', hissued⟩ := h.spooled id ev' hget
      exact ⟨hid, hne', mem_cons_of_mem _ hissued⟩

theorem preserves_deleteSpooled {id : String} (hseen : Seen w.server id) :
    Preserves w (deleteSpooled w id) := by
  refine ⟨(Preserves.refl w).server, fun ev h => ⟨h.1, ?_⟩⟩
  by_cases hid : ev.id = id
  · exact .inr (hid ▸ hseen)
  · simp only [deleteSpooled, get?_remove, if_neg hid]
    exact h.2

theorem Forwarding.deleteSpooled {id : String} (h : Forwarding env ids initial w)
    (hseen : Seen w.server id) : Forwarding env ids initial (deleteSpooled w id) where
  consistent := h.consistent
  kept ev hev := (preserves_deleteSpooled hseen).kept ev (h.kept ev hev)
  flushed id' hid' := by
    rcases mem_append.mp hid' with hid' | hid'
    · exact h.flushed id' hid'
    · rw [mem_singleton.mp hid']
      exact hseen
  spooled id' ev hget := by
    simp only [Agent.deleteSpooled, get?_remove] at hget
    split at hget
    · cases hget
    · exact h.spooled id' ev hget

/-- What a step has to leave: the invariant, what the other threads rest on, and what
the threads that follow rest on. -/
structure Outcome (env : Env) (ids : Finset String) (initial : List String) (w w' : World)
    (ts : List Node) : Prop where
  forwarding : Forwarding env ids initial w'
  preserves : Preserves w w'
  relies : ∀ t ∈ ts, t.Relies env ids w'

theorem okIDs_of_verdict {reply : Reply} {ok : List String} (h : verdict reply = .delete ok) :
    okIDs reply = ok := by
  unfold verdict at h
  split at h
  · cases h
  · split at h
    · split at h
      · cases h
      · exact Verdict.delete.inj h
    · cases h

theorem relies_flushThreads {progress : Option Flush.Progress} (request : Option Request)
    (h : ∀ p, progress = some p → Flush.Relies w p) :
    ∀ t ∈ flushThreads progress request, t.Relies env ids w := by
  intro t ht
  rcases mem_append.mp ht with ht | ht
  · obtain ⟨p, hp, rfl⟩ := map_eq_some_iff.mp (mem_toList.mp ht)
    exact h p hp
  · obtain ⟨request, -, rfl⟩ := map_eq_some_iff.mp (mem_toList.mp ht)
    trivial

section

variable (h : Forwarding env ids initial w)
include h

theorem outcome_server {t : Thread} (hids : ids.card < Store.maxSeenEvents)
    (hid : ∀ id, t.checks choice.toChoice = some id → id ∈ ids)
    (hrelies : t.Relies env.server ids w.server) :
    Outcome env ids initial w (Node.step env cfg choice w (.server t)).1
      (Node.step env cfg choice w (.server t)).2 := by
  have hjustified : (t.next env.server choice.toChoice w.server).1.Justified env.server ids w.server :=
    Thread.justified_next h.consistent hrelies
  have hext := h.consistent.extends_run hids hjustified
  refine ⟨h.server (h.consistent.run hids hjustified) hext, preserves_server hext, fun u hu => ?_⟩
  obtain ⟨t', ht', rfl⟩ := List.mem_map.mp hu
  exact Thread.relies_next h.consistent hids hid hrelies ht'

theorem outcome_same {ts : List Node}
    (hrelies : ∀ t ∈ ts, t.Relies env ids w) : Outcome env ids initial w w ts :=
  ⟨h, Preserves.refl w, hrelies⟩

theorem outcome_issue (id : String) :
    Outcome env ids initial w { w with issued := id :: w.issued } [] := by
  have hkept (ev : Event) (hev : Kept w ev) : Kept { w with issued := id :: w.issued } ev :=
    ⟨mem_cons_of_mem _ hev.1, hev.2⟩
  refine ⟨⟨h.consistent, fun id' ev hget => ?_, fun ev hev => hkept ev (h.kept ev hev), h.flushed⟩,
    ⟨(Preserves.refl w).server, hkept⟩, by simp⟩
  obtain ⟨hid, hne, hissued⟩ := h.spooled id' ev hget
  exact ⟨hid, hne, mem_cons_of_mem _ hissued⟩

theorem outcome_localDelivery (d : Delivery) {t : Node} (hrelies : t.Relies env ids w) :
    Outcome env ids initial w { w with localDeliveries := w.localDeliveries.put d.id d } [t] := by
  have hpreserves : Preserves w { w with localDeliveries := w.localDeliveries.put d.id d } :=
    ⟨(Preserves.refl w).server, fun _ hev => hev⟩
  refine ⟨⟨h.consistent, h.spooled, h.kept, h.flushed⟩, hpreserves, fun t' ht' => ?_⟩
  rw [mem_singleton.mp ht']
  exact hrelies.mono hpreserves

theorem outcome_ingested {ev : Event} (hkept : Kept w ev) :
    Outcome env ids initial w { w with ingested := w.ingested ++ [ev] } [] := by
  refine ⟨⟨h.consistent, h.spooled, fun ev' hev' => ?_, h.flushed⟩,
    ⟨(Preserves.refl w).server, fun _ hev => hev⟩, by simp⟩
  rcases mem_append.mp hev' with hev' | hev'
  · exact h.kept ev' hev'
  · rw [mem_singleton.mp hev']
    exact hkept

theorem outcome_ingest {call : Ingest} {progress : Ingest.Progress} (hunique : progress = .spool → choice.id ∉ w.issued)
    (hrelies : (Node.ingest call progress).Relies env ids w) :
    Outcome env ids initial w (Ingest.next env cfg choice w call progress).1
      ((Ingest.next env cfg choice w call progress).2.map (Node.ingest call)).toList := by
  revert hunique hrelies
  fun_cases Ingest.next env cfg choice w call progress <;> intro hunique hrelies
  · exact outcome_same h (by simp)
  · exact outcome_issue h choice.id
  · -- the event goes into the spool under an id that is new
    rename_i hvalid _ ev
    have hne : ev.id ≠ "" := fun heq => hvalid (.inl heq)
    refine ⟨h.put hne (hunique rfl), preserves_put (hunique rfl), fun t ht => ?_⟩
    rw [mem_singleton.mp ht]
    exact kept_put ev
  · exact outcome_same h (by simp)
  · exact outcome_same h fun t ht => by rw [mem_singleton.mp ht]; exact hrelies
  · exact outcome_same h (by simp)
  · exact outcome_localDelivery h _ hrelies
  · exact outcome_same h fun t ht => by rw [mem_singleton.mp ht]; exact hrelies
  · exact outcome_ingested h hrelies

theorem seen_okIDs {request : Request} {reply : Reply}
    (harrives : Arrives w request reply) : ∀ id ∈ okIDs reply, Seen w.server id := by
  intro id hid
  obtain ⟨r, hr, rfl⟩ := List.mem_map.mp hid
  obtain ⟨hmem, hok⟩ := mem_filter.mp hr
  obtain ⟨sent, hsent, hreply⟩ := harrives
  rcases hreply with rfl | rfl
  · exact (h.consistent.replied request reply hsent).results r hmem (of_decide_eq_true hok).1
  · cases hmem

theorem seen_single {ev : Event} {reply : Reply}
    (harrives : Arrives w (eventRequest cfg ev) reply) (hne : ev.id ≠ "")
    (hcode : isSuccess reply.code) : Seen w.server ev.id := by
  obtain ⟨sent, hsent, hreply⟩ := harrives
  have hsame : reply.code = sent.code := by
    rcases hreply with rfl | rfl <;> rfl
  rw [hsame] at hcode
  exact (h.consistent.replied _ sent hsent).single (eventIn ev) rfl hne (of_decide_eq_true hcode).2

theorem outcome_goOn {progress : Flush.Progress}
    (request : Option Request) (hrelies : Flush.Relies w progress) :
    Outcome env ids initial w w (flushThreads (some progress) request) :=
  outcome_same h (relies_flushThreads request fun _ hp => Option.some.inj hp ▸ hrelies)

theorem outcome_end :
    Outcome env ids initial w w (flushThreads none none) :=
  outcome_same h (relies_flushThreads none (by simp))

theorem outcome_after {after : Option (List Event)} (hafter : ∀ rest, after = some rest → Sendable rest) :
    Outcome env ids initial w w (flushThreads (after.map .batches) none) := by
  cases after with
  | none => exact outcome_end h
  | some rest => exact outcome_goOn h none (hafter rest rfl)

theorem outcome_delete {id : String}
    (hseen : Seen w.server id) {progress : Flush.Progress} (hrelies : Flush.Relies w progress) :
    Outcome env ids initial w (deleteSpooled w id) (flushThreads (some progress) none) := by
  have hpreserves := preserves_deleteSpooled hseen
  refine ⟨h.deleteSpooled hseen, hpreserves, relies_flushThreads none fun p hp => ?_⟩
  cases hp
  exact hrelies.mono hpreserves

theorem sendable_spool : Sendable w.spool.values := by
  intro ev hev
  obtain ⟨entry, hentry, rfl⟩ := List.mem_map.mp hev
  obtain ⟨hid, hne, -⟩ := h.spooled entry.1 entry.2 (get?_of_mem_entries hentry)
  rwa [hid]

theorem outcome_flush {progress : Flush.Progress}
    (harrives : ∀ request reply, (Node.flush progress).awaits cfg = some request →
      choice.reply = some reply → Arrives w request reply)
    (hrelies : Flush.Relies w progress) :
    Outcome env ids initial w (Flush.next cfg choice w progress).1
      (flushThreads (Flush.next cfg choice w progress).2.1
        (Flush.next cfg choice w progress).2.2) := by
  revert harrives hrelies
  fun_cases Flush.next cfg choice w progress <;> intro harrives hrelies
  · exact outcome_goOn h none (sendable_spool h)
  · exact outcome_end h
  · -- a batch goes out
    refine outcome_goOn h _ ⟨fun ev hev => ?_, fun ev hev => ?_⟩
    · exact hrelies ev (mem_of_mem_take hev)
    · exact hrelies ev (mem_of_mem_drop hev)
  · exact outcome_end h
  · exact outcome_end h
  · refine outcome_goOn h none ⟨hrelies.1, fun rest hrest => ?_⟩
    split at hrest
    · cases hrest
      exact hrelies.2
    · cases hrest
  · -- the ids to delete are those the reply accepts
    rename_i batch rest ok hverdict
    obtain ⟨reply, hreply, hdelete⟩ := map_eq_some_iff.mp hverdict
    refine outcome_goOn h none ⟨?_, hrelies.2⟩
    rw [← okIDs_of_verdict hdelete]
    exact seen_okIDs h (harrives _ reply rfl hreply)
  · exact outcome_goOn h none hrelies.2
  · exact outcome_end h
  · rename_i hok
    have hmem := not_not.mp (not_or.mp hok).1
    exact outcome_delete h (hrelies.1 _ hmem) ⟨hrelies.1, hrelies.2⟩
  · exact outcome_after h hrelies.2
  · exact outcome_after h hrelies.2
  · -- one event goes out
    refine outcome_goOn h _ ⟨hrelies.1 _ mem_cons_self, fun ev hev => ?_, hrelies.2⟩
    exact hrelies.1 ev (mem_cons_of_mem _ hev)
  · exact outcome_after h hrelies.2.2
  · rename_i reply hreply hcode
    refine outcome_goOn h none ⟨?_, hrelies.2⟩
    exact seen_single h (harrives _ reply rfl hreply) hrelies.1 hcode
  · exact outcome_after h hrelies.2.2
  · exact outcome_after h hrelies.2.2
  · exact outcome_delete h hrelies.1 hrelies.2

theorem outcome_step {t : Node} (hids : ids.card < Store.maxSeenEvents) (ht : Admissible cfg ids choice w t)
    (hrelies : t.Relies env ids w) :
    Outcome env ids initial w (Node.step env cfg choice w t).1 (Node.step env cfg choice w t).2 := by
  cases t with
  | server t => exact outcome_server h hids (ht.named t rfl) hrelies
  | ingest call progress =>
    exact outcome_ingest h (fun hspool => ht.unique call (by rw [hspool])) hrelies
  | flush progress => exact outcome_flush h ht.arrives hrelies

end

theorem forward_outline (env : Env) (cfg : Config) (ids : Finset String) (initial : List String)
    (hids : ids.card < Store.maxSeenEvents) :
    (forwardSystem env cfg ids).Outline (Forwarding env ids initial) (Node.Relies env ids) where
  starts w t _ hstart := by
    cases hstart with
    | server t h =>
      cases h with
      | admin request h => exact h
      | _ => trivial
    | _ => trivial
  inv_next choice w t rest ht h hrelies := (outcome_step h hids ht hrelies).forwarding
  asserts_next choice w t rest ht h hrelies := (outcome_step h hids ht hrelies).relies
  stable choice w t rest ht h hrelies u _ hu := hu.mono (outcome_step h hids ht hrelies).preserves

/-- The two programs before the first step: a spool as the agent finds it, and nothing
on record. -/
structure Ready (ids : Finset String) (w : World) : Prop where
  server : Fresh ids w.server
  spooled : ∀ id ev, w.spool.get? id = some ev → ev.id = id ∧ id ≠ "" ∧ id ∈ w.issued
  ingested : w.ingested = []
  flushed : w.flushed = []

/-- Store and forward: an ingested event is in the spool or recorded, what `flush` deleted
is recorded, and nothing is recorded twice. -/
structure Forwarded (w : World) : Prop where
  kept : ∀ ev ∈ w.ingested, w.spool.get? ev.id = some ev ∨ Seen w.server ev.id
  deleted : ∀ id ∈ w.flushed, Seen w.server id
  once : w.server.store.state.seenEvents.Nodup ∧ (w.server.history.filterMap recordedID).Nodup

theorem Forwarding.forwarded (h : Forwarding env ids initial w) : Forwarded w where
  kept ev hev := (h.kept ev hev).2
  deleted := h.flushed
  once := by
    have hnodup := h.consistent.nodup
    rw [h.consistent.seenEvents] at hnodup
    exact ⟨h.consistent.nodup, (nodup_append.mp hnodup).2.1⟩

/-- In every interleaving of ingests, flushes and handlers, with requests and responses
lost and events refused in any way, nothing is lost and nothing recorded twice. -/
theorem forwarded_of_run (env : Env) (cfg : Config) (ids : Finset String) (w₀ : World)
    (c : Interleave.Config World Node) (hids : ids.card < 20000) (hready : Ready ids w₀)
    (hrun : (forwardSystem env cfg ids).Run ⟨w₀, 0⟩ c) : Forwarded c.shared := by
  have hstart : Forwarding env ids w₀.server.store.state.seenEvents w₀ :=
    ⟨hready.server.consistent env.server, hready.spooled, by simp [hready.ingested],
      by simp [hready.flushed]⟩
  have houtline := forward_outline env cfg ids w₀.server.store.state.seenEvents hids
  exact (houtline.run hrun ⟨hstart, by simp⟩).1.forwarded

noncomputable def plainEnv : Env where
  server := Server.plainEnv
  apply _ topic payload headers := .ok (some ⟨topic, payload, headers⟩)
  localDeliveryID eventID index := eventID ++ "/" ++ toString index
  toUpper := String.toUpper
  timeoutSeconds _ := none

def someConfig : Config := { siteID := "s", agentToken := "token" }

def someWorld : World := { server := someServer }

def someReply : Reply := { code := 202, accepted := 1, results := [{ eventID := "e", status := 202 }] }

def forwardMoves : List (Move Node Choice) :=
  [.start (.ingest { topic := "t", payload := ⟨"1"⟩ } .spool), .move 0 { id := "e" }, .move 0 {},
    .start (.flush .list), .move 0 {}, .move 0 {},
    .move 1 {}, .move 0 {}, .move 0 {}, .move 0 {}, .move 0 {}, .move 0 {}, .move 0 {},
    .move 0 { reply := some someReply }, .move 0 {}, .move 0 {}, .move 0 {}]

noncomputable def forwardedWorld : World :=
  (forwardMoves.foldl (exec (forwardSystem plainEnv someConfig {"e"}).next) (someWorld, [])).1

theorem forwarded_after_flush :
    forwardedWorld.ingested.map Event.id = ["e"] ∧ forwardedWorld.flushed = ["e"] ∧
      Forwarded forwardedWorld := by
  have hready : Ready {"e"} someWorld := ⟨fresh_someServer, by simp [someWorld], rfl, rfl⟩
  have hpermits : (forwardSystem plainEnv someConfig {"e"}).Permits (someWorld, []) forwardMoves := by
    refine ⟨.ingest _, ?spooled, ?_, .flush, ?_, ?_, ?_, ?checked, ?_, ?_, ?_, ?_, ?_, ?replied, ?_,
      ?_, ?_, trivial⟩ <;> intro t ht <;> cases ht
    case spooled => exact ⟨by rintro _ ⟨⟩, by rintro _ _ ⟨⟩, fun _ _ => by simp [exec, someWorld]⟩
    case checked =>
      refine ⟨?_, by rintro _ _ ⟨⟩, by rintro _ ⟨⟩⟩
      rintro _ ⟨⟩ _ ⟨⟩
      exact Finset.mem_singleton_self "e"
    case replied =>
      refine ⟨by rintro _ ⟨⟩, ?_, by rintro _ ⟨⟩⟩
      rintro _ _ ⟨⟩ ⟨⟩
      exact ⟨someReply, by decide, .inl rfl⟩
    all_goals exact ⟨by rintro _ ⟨⟩ _ ⟨⟩, by rintro _ _ ⟨⟩, by rintro _ ⟨⟩⟩
  exact ⟨by decide, by decide,
    forwarded_of_run plainEnv someConfig {"e"} someWorld _ (by decide) hready
      ((forwardSystem plainEnv someConfig {"e"}).run_of_exec forwardMoves (someWorld, []) hpermits)⟩

end Nodra.Agent
