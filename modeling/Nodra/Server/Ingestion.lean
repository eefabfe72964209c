import Nodra.Server.Deliveries

/-! The acknowledgement of events: an event that is answered 202 is recorded once, and
before the record the deliveries of all its routes were put. -/
namespace Nodra.Store
open List

variable {ids : Finset String} {initial : List String}

theorem plan_eventAdd {s : Store} {request : Call} {ev : Model.Event}
    (h : s.plan request = some (.eventAdd ev)) : request = .addEvent ev := by
  cases request with
  | addEvent v =>
    simp only [plan] at h
    split at h
    · cases h
    · cases h
      rfl
  | _ => simp [plan] at h

theorem apply_of_ne_eventAdd {m : Mutation} (h : ∀ ev, m ≠ .eventAdd ev) (mem : Mem) :
    (m.apply mem).state.seenEvents = mem.state.seenEvents ∧ (m.apply mem).seen = mem.seen := by
  cases m with
  | eventAdd ev => exact absurd rfl (h ev)
  | _ => simp only [Mutation.apply, Mutation.update, Mutation.updateSeen, and_self]

theorem apply_eventAdd (ev : Model.Event) (mem : Mem) (h : mem.state.seenEvents.length < maxSeenEvents) :
    ((Mutation.eventAdd ev).apply mem).state.seenEvents = mem.state.seenEvents ++ [ev.id] ∧
      ((Mutation.eventAdd ev).apply mem).seen = mem.seen.insert ev.id := by
  have hlength : (mem.state.seenEvents ++ [ev.id]).length - maxSeenEvents = 0 := by
    rw [length_append, length_singleton]
    omega
  constructor
  · simp only [Mutation.apply, Mutation.update, lastN]
    rw [hlength, drop_zero]
  · simp only [Mutation.apply, Mutation.updateSeen]
    rw [hlength, take_zero, foldl_nil]

theorem call_of_ne_addEvent {codecs : Codecs} {s s' : Store} {request : Call}
    (hrequest : ∀ ev, request ≠ .addEvent ev) (h : s.call codecs request = .ok s') :
    s'.state.seenEvents = s.state.seenEvents ∧ s'.seen = s.seen := by
  rw [call_ok h]
  cases hplan : s.plan request with
  | none => exact ⟨rfl, rfl⟩
  | some m =>
    refine apply_of_ne_eventAdd (fun ev hm => hrequest ev ?_) s.toMem
    exact plan_eventAdd (hm ▸ hplan)

end Nodra.Store

namespace Nodra.Server
open Model Std Interleave List Option

variable {env : Env} {choice : Choice} {s s' : Server} {id : String}

def Seen (s : Server) (id : String) : Prop := id ∈ s.store.state.seenEvents

def recordedID : Observation → Option String
  | .recorded ev _ => some ev.id
  | _ => none

def Prepared (env : Env) (history : List Observation) (ev : Event) (routes : List Route) : Prop :=
  ∀ rt ∈ routes, eligible ev.siteID ev.topic rt →
    ∃ d, .put d ∈ history ∧ d.id = env.deterministicDeliveryID ev.id rt.id

structure Sound (s : Server) (request : Request) (reply : Reply) : Prop where
  results : ∀ r ∈ reply.results, r.error = "" → Seen s r.eventID
  single : ∀ event, request.body = .single event → event.eventID ≠ "" → reply.code < 300 →
    Seen s event.eventID

/-- The store, its index and the history agree on which events are recorded.  `initial`
is what the store had seen before. -/
structure Consistent (env : Env) (ids : Finset String) (initial : List String) (s : Server) :
    Prop where
  mem_seen : ∀ id, id ∈ s.store.seen ↔ Seen s id
  seenEvents : s.store.state.seenEvents = initial ++ s.history.filterMap recordedID
  nodup : s.store.state.seenEvents.Nodup
  named : ∀ id, Seen s id → id ∈ ids
  prepared : ∀ i ev routes, s.history[i]? = some (.recorded ev routes) →
    Prepared env (s.history.take i) ev routes
  accepted : ∀ id, .accepted id ∈ s.history → Seen s id
  replied : ∀ request reply, .replied request reply ∈ s.history → Sound s request reply

def Action.Justified (env : Env) (ids : Finset String) (s : Server) : Action → Prop
  | .addEvent ev routes => ev.id ∈ ids ∧ Prepared env s.history ev routes
  | .storeCall request => ∀ ev, request ≠ .addEvent ev
  | .accepted id => Seen s id
  | .reply request out => Sound s request out
  | _ => True

structure Extends (s s' : Server) : Prop where
  seen : ∀ id, Seen s id → Seen s' id
  history : s.history ⊆ s'.history

theorem Prepared.mono {history history' : List Observation} {ev : Event} {routes : List Route}
    (h : Prepared env history ev routes) (hsub : history ⊆ history') :
    Prepared env history' ev routes := by
  intro rt hrt heligible
  obtain ⟨d, hput, hid⟩ := h rt hrt heligible
  exact ⟨d, hsub hput, hid⟩

theorem Sound.mono {request : Request} {reply : Reply} (h : Sound s request reply)
    (hext : Extends s s') : Sound s' request reply :=
  ⟨fun r hr herror => hext.seen _ (h.results r hr herror),
    fun event hbody hne hcode => hext.seen _ (h.single event hbody hne hcode)⟩

section

theorem Consistent.room (h : Consistent env ids initial s) (hids : ids.card < Store.maxSeenEvents) :
    s.store.state.seenEvents.length < Store.maxSeenEvents := by
  have hsubset : s.store.state.seenEvents.toFinset ⊆ ids := by
    intro id hid
    exact h.named id (List.mem_toFinset.mp hid)
  have hcard := Finset.card_le_card hsubset
  rw [toFinset_card_of_nodup h.nodup] at hcard
  omega

def Action.news (s : Server) : Action → List String
  | .addEvent ev _ => if ev.id ∈ s.store.seen then [] else [ev.id]
  | _ => []

theorem recordedIDs_observed (s : Server) (a : Action) :
    (a.observed s).filterMap recordedID = a.news s := by
  cases a with
  | addEvent ev routes =>
    simp only [Action.observed, Action.news]
    split <;> rfl
  | removeDeadLetter id =>
    simp only [Action.observed, Action.news]
    split <;> rfl
  | _ => rfl

variable {a : Action}

theorem Consistent.store_run (h : Consistent env ids initial s)
    (hids : ids.card < Store.maxSeenEvents) (ha : a.Justified env ids s) :
    (a.run env s).store.state.seenEvents = s.store.state.seenEvents ++ a.news s ∧
      ∀ id, id ∈ (a.run env s).store.seen ↔ id ∈ s.store.seen ∨ id ∈ a.news s := by
  cases a with
  | addEvent ev routes =>
    by_cases hseen : ev.id ∈ s.store.seen
    · simp [Action.run, Action.store, Action.news, Store.addEvent, hseen, Except.toOption]
    · have hadd := Store.apply_eventAdd ev s.store.toMem (h.room hids)
      have hstore : ((Action.addEvent ev routes).run env s).store =
          s.store.mutate env.codecs (.eventAdd ev) := by
        simp only [Action.run, Action.store, Store.addEvent, if_neg hseen]
        rfl
      simp only [Action.news, if_neg hseen, hstore]
      refine ⟨hadd.1, fun id => ?_⟩
      rw [show (s.store.mutate env.codecs (.eventAdd ev)).seen = _ from hadd.2,
        ExtTreeSet.mem_insert, mem_singleton, Std.compare_eq_iff_eq, or_comm, eq_comm]
  | storeCall request =>
    cases hcall : s.store.call env.codecs request with
    | error err => simp [Action.run, Action.store, Action.news, hcall, Except.toOption]
    | ok store =>
      have hkeep := Store.call_of_ne_addEvent ha hcall
      simp [Action.run, Action.store, Action.news, hcall, Except.toOption, hkeep]
  | _ => simp [Action.run, Action.store, Action.news]

theorem Consistent.news_spec (h : Consistent env ids initial s) (ha : a.Justified env ids s) :
    (a.news s).Nodup ∧ ∀ id ∈ a.news s, id ∈ ids ∧ ¬ Seen s id := by
  cases a with
  | addEvent ev routes =>
    by_cases hseen : ev.id ∈ s.store.seen
    · simp [Action.news, hseen]
    · have hnot : ¬ Seen s ev.id := fun hs => hseen ((h.mem_seen _).mpr hs)
      simp [Action.news, hseen, ha.1, hnot]
  | _ => simp [Action.news]

theorem Consistent.extends_run (h : Consistent env ids initial s)
    (hids : ids.card < Store.maxSeenEvents) (ha : a.Justified env ids s) :
    Extends s (a.run env s) := by
  refine ⟨fun id hid => ?_, subset_append_left _ _⟩
  unfold Seen
  rw [(h.store_run hids ha).1]
  exact mem_append_left _ hid

theorem Consistent.prepared_run (h : Consistent env ids initial s)
    (ha : a.Justified env ids s) (i : Nat) (ev : Event) (routes : List Route)
    (hget : (a.run env s).history[i]? = some (.recorded ev routes)) :
    Prepared env ((a.run env s).history.take i) ev routes := by
  simp only [Action.run] at hget ⊢
  by_cases hi : i < s.history.length
  · rw [getElem?_append_left hi] at hget
    rw [take_append_of_le_length (by omega)]
    exact h.prepared i ev routes hget
  · rw [getElem?_append_right (by omega)] at hget
    rw [source_of_mem_observed (mem_of_getElem? hget)] at ha
    refine ha.2.mono fun _ hmem => ?_
    rw [take_append, take_of_length_le (by omega)]
    exact mem_append_left _ hmem

theorem Consistent.run (h : Consistent env ids initial s) (hids : ids.card < Store.maxSeenEvents)
    (ha : a.Justified env ids s) : Consistent env ids initial (a.run env s) := by
  have hext := h.extends_run hids ha
  obtain ⟨hevents, hindex⟩ := h.store_run hids ha
  obtain ⟨hnodup, hnews⟩ := h.news_spec ha
  have hseen (id : String) : Seen (a.run env s) id ↔ Seen s id ∨ id ∈ a.news s := by
    unfold Seen
    rw [hevents, mem_append]
  refine ⟨fun id => ?_, ?_, ?_, fun id hid => ?_, h.prepared_run ha, fun id hid => ?_,
    fun request reply hreply => ?_⟩
  · rw [hindex, hseen, h.mem_seen]
  · rw [hevents, h.seenEvents, append_assoc]
    simp only [Action.run, filterMap_append, recordedIDs_observed]
  · rw [hevents, nodup_append]
    refine ⟨h.nodup, hnodup, fun id hid id' hid' heq => ?_⟩
    exact (hnews id' hid').2 (heq ▸ hid)
  · exact ((hseen id).mp hid).elim (h.named id) fun hid => (hnews id hid).1
  · rcases mem_history_run hid with hid | hid
    · exact hext.seen id (h.accepted id hid)
    · rw [hid] at ha
      exact hext.seen id ha
  · rcases mem_history_run hreply with hreply | hreply
    · exact (h.replied request reply hreply).mono hext
    · rw [hreply] at ha
      exact Sound.mono ha hext

end

section

def EventIn.Named (event : EventIn) (id : String) : Prop := event.eventID ≠ "" → id = event.eventID

structure Answer.Sound (s : Server) (event : EventIn) (answer : Answer) : Prop where
  accepted : answer.error = "" → Seen s answer.eventID ∧ event.Named answer.eventID
  refused : answer.error ≠ "" → 300 ≤ answer.code

def Ingest.Relies (env : Env) (ids : Finset String) (s : Server) (event : EventIn) :
    Ingest.Progress → Prop
  | .check => True
  | .readRoutes eventID => eventID ∈ ids ∧ event.Named eventID
  | .put ev routes rest _ =>
    (ev.id ∈ ids ∧ event.Named ev.id) ∧
      ∃ handled, routes = handled ++ rest ∧ Prepared env s.history ev handled
  | .accept ev _ => Seen s ev.id ∧ event.Named ev.id
  | .returned answer => answer.Sound s event

variable {event : EventIn} {ev : Event} {rt : Route} {t : Thread} {results : List Result} {request : Request}

theorem Ingest.Relies.mono {progress : Ingest.Progress}
    (h : Ingest.Relies env ids s event progress) (hext : Extends s s') :
    Ingest.Relies env ids s' event progress := by
  cases progress with
  | check => trivial
  | readRoutes eventID => exact h
  | put ev routes rest matched =>
    obtain ⟨hid, handled, hroutes, hprepared⟩ := h
    exact ⟨hid, handled, hroutes, hprepared.mono hext.history⟩
  | accept ev matched => exact ⟨hext.seen _ h.1, h.2⟩
  | returned answer =>
    exact ⟨fun herror => (h.accepted herror).imp_left (hext.seen _), h.refused⟩

theorem named_checkedID (choice : Choice) (event : EventIn) :
    event.Named (checkedID choice event) := fun hne => if_neg hne

theorem Ingest.justified_next {call : Ingest} {progress : Ingest.Progress}
    (h : Consistent env ids initial s) (hrelies : Ingest.Relies env ids s call.event progress) :
    (Ingest.next env choice s call progress).1.Justified env ids s := by
  revert hrelies
  fun_cases Ingest.next env choice s call progress <;> intro hrelies <;> try trivial
  · rename_i eventID hseen
    exact (h.mem_seen eventID).mp (of_decide_eq_true hseen)
  · obtain ⟨hid, handled, rfl, hprepared⟩ := hrelies
    refine ⟨hid.1, ?_⟩
    rwa [append_nil]
  · exact hrelies.1

theorem Consistent.seen_addEvent (h : Consistent env ids initial s)
    (hids : ids.card < Store.maxSeenEvents) {routes : List Route}
    (ha : (Action.addEvent ev routes).Justified env ids s) :
    Seen ((Action.addEvent ev routes).run env s) ev.id := by
  unfold Seen
  rw [(h.store_run hids ha).1]
  by_cases hseen : ev.id ∈ s.store.seen
  · exact mem_append_left _ ((h.mem_seen _).mp hseen)
  · simp [Action.news, hseen]

theorem Prepared.put {handled : List Route} (h : Prepared env s.history ev handled) :
    Prepared env ((Action.putDelivery (newDelivery env ev rt)).run env s).history ev
      (handled ++ [rt]) := by
  intro rt' hrt' heligible
  rcases mem_append.mp hrt' with hrt' | hrt'
  · exact h.mono (subset_append_left _ _) rt' hrt' heligible
  · rw [mem_singleton.mp hrt']
    exact ⟨newDelivery env ev rt, mem_append_right _ (by simp [Action.observed]), rfl⟩

theorem Prepared.skip {history : List Observation} {handled : List Route}
    (h : Prepared env history ev handled) (hrt : ¬ eligible ev.siteID ev.topic rt) :
    Prepared env history ev (handled ++ [rt]) := by
  intro rt' hrt' heligible
  rcases mem_append.mp hrt' with hrt' | hrt'
  · exact h rt' hrt' heligible
  · rw [mem_singleton.mp hrt'] at heligible
    exact absurd heligible hrt

theorem Ingest.relies_next (call : Ingest) {progress : Ingest.Progress}
    (h : Consistent env ids initial s) (hids : ids.card < Store.maxSeenEvents)
    (hid : progress = .check → checkedID choice call.event ∈ ids)
    (hrelies : Ingest.Relies env ids s call.event progress) :
    Ingest.Relies env ids ((Ingest.next env choice s call progress).1.run env s) call.event
      (Ingest.next env choice s call progress).2 := by
  have hjustified : (Ingest.next env choice s call progress).1.Justified env ids s :=
    Ingest.justified_next h hrelies
  have hext := h.extends_run hids hjustified
  revert hrelies hid hjustified hext
  fun_cases Ingest.next env choice s call progress <;> intro hid hrelies hjustified hext
  · -- refused without topic or payload
    exact ⟨(by simp), fun _ => by decide⟩
  · -- a duplicate
    exact ⟨fun _ => ⟨hext.seen _ hjustified, named_checkedID choice call.event⟩, fun h => (h rfl).elim⟩
  · exact ⟨hid rfl, named_checkedID choice call.event⟩
  · exact ⟨hrelies, [], rfl, by rintro _ ⟨⟩⟩
  · obtain ⟨hev, handled, rfl, hprepared⟩ := hrelies
    exact ⟨hev, handled ++ [_], by simp, hprepared.put⟩
  · -- the queue refused a delivery
    refine ⟨fun herror => ?_, fun _ => by simp⟩
    simp at herror
  · rename_i hskip
    obtain ⟨hev, handled, rfl, hprepared⟩ := hrelies
    exact ⟨hev, handled ++ [_], by simp, (hprepared.skip hskip).mono hext.history⟩
  · exact ⟨h.seen_addEvent hids hjustified, hrelies.1.2⟩
  · -- the store refused the event
    refine ⟨fun herror => ?_, fun _ => by simp⟩
    simp at herror
  · exact ⟨fun _ => ⟨hext.seen _ hrelies.1, hrelies.2⟩, fun h => (h rfl).elim⟩
  · exact hrelies.mono hext

def Handler.Relies (env : Env) (ids : Finset String) (s : Server) (request : Request) :
    Handler.Progress → Prop
  | .arrive => True
  | .ingest event progress rest results =>
    Ingest.Relies env ids s event progress ∧
      (∀ r ∈ results, r.error = "" → Seen s r.eventID) ∧
      ∀ event', request.body = .single event' → event = event' ∧ rest = []

def Thread.Relies (env : Env) (ids : Finset String) (s : Server) : Thread → Prop
  | .handler request progress => Handler.Relies env ids s request progress
  | .admin request => ∀ ev, request ≠ .addEvent ev
  | _ => True

theorem Thread.Relies.mono (h : t.Relies env ids s) (hext : Extends s s') :
    t.Relies env ids s' := by
  cases t with
  | handler request progress =>
    cases progress with
    | arrive => trivial
    | ingest event progress rest results =>
      exact ⟨h.1.mono hext, fun r hr herror => hext.seen _ (h.2.1 r hr herror), h.2.2⟩
  | admin request => exact h
  | _ => trivial

theorem seen_results {answer : Answer}
    (hanswer : answer.Sound s event) (hresults : ∀ r ∈ results, r.error = "" → Seen s r.eventID) :
    ∀ r ∈ results ++ [resultOf event answer], r.error = "" → Seen s r.eventID := by
  intro r hr herror
  rcases mem_append.mp hr with hr | hr
  · exact hresults r hr herror
  · rw [mem_singleton.mp hr] at herror ⊢
    unfold resultOf at herror ⊢
    split at herror
    · rename_i hrefused
      exact absurd herror hrefused
    · rename_i haccepted
      rw [if_neg haccepted]
      exact (hanswer.accepted (not_not.mp haccepted)).1

theorem sound_reply {answer : Answer}
    (hanswer : answer.Sound s event) (hresults : ∀ r ∈ results, r.error = "" → Seen s r.eventID)
    (hbody : ∀ event', request.body = .single event' → event = event') :
    Sound s request (request.reply results answer) := by
  constructor
  · intro r hr
    unfold Request.reply at hr
    split at hr
    · exact hresults r hr
    · split at hr
      · cases hr
      · exact hresults r hr
  · intro event' hevent' hne hcode
    obtain rfl := hbody event' hevent'
    have hsingle : request.body.isBatch = false := by rw [hevent']; rfl
    simp only [Request.reply, hsingle, Bool.false_eq_true, if_false] at hcode
    split at hcode
    · rename_i hrefused
      have := hanswer.refused hrefused
      simp only at hcode
      omega
    · rename_i haccepted
      obtain ⟨hseen, hnamed⟩ := hanswer.accepted (not_not.mp haccepted)
      rwa [hnamed hne] at hseen

theorem sound_refuse {code : Nat} {error : String} (h : 300 ≤ code) :
    Sound s request { code, error } :=
  ⟨nofun, fun _ _ _ hcode => absurd hcode (by simpa using h)⟩

theorem Handler.justified_next {progress : Handler.Progress}
    (h : Consistent env ids initial s) (hrelies : Handler.Relies env ids s request progress) :
    (Handler.next env choice s request progress).1.Justified env ids s := by
  revert hrelies
  fun_cases Handler.next env choice s request progress <;> intro hrelies
  · exact sound_refuse (by decide)
  · exact sound_refuse (by decide)
  · trivial
  · exact sound_refuse (by decide)
  · exact sound_refuse (by decide)
  · trivial
  · obtain ⟨hanswer, hresults, hbody⟩ := hrelies
    exact sound_reply hanswer (seen_results hanswer hresults) fun event' h => (hbody event' h).1
  · trivial
  · exact Ingest.justified_next h hrelies.1

theorem Handler.relies_next {progress next : Handler.Progress}
    (h : Consistent env ids initial s) (hids : ids.card < Store.maxSeenEvents)
    (hid : ∀ event rest results, progress = .ingest event .check rest results →
      checkedID choice event ∈ ids)
    (hrelies : Handler.Relies env ids s request progress)
    (hnext : (Handler.next env choice s request progress).2 = some next) :
    Handler.Relies env ids ((Handler.next env choice s request progress).1.run env s) request
      next := by
  have hjustified : (Handler.next env choice s request progress).1.Justified env ids s :=
    Handler.justified_next h hrelies
  have hext := h.extends_run hids hjustified
  revert hrelies hid hext hnext
  fun_cases Handler.next env choice s request progress <;> intro hid hrelies hnext hext <;>
    cases hnext
  · rename_i hbody
    refine ⟨trivial, (by simp), fun event' hevent' => ?_⟩
    rw [hbody] at hevent'
    exact ⟨Body.single.inj hevent', rfl⟩
  · rename_i hbody _
    refine ⟨trivial, (by simp), fun event' hevent' => ?_⟩
    rw [hbody] at hevent'
    cases hevent'
  · obtain ⟨hanswer, hresults, hbody⟩ := hrelies
    refine ⟨trivial, fun r hr herror => hext.seen _ (seen_results hanswer hresults r hr herror),
      fun event' hevent' => ?_⟩
    cases (hbody event' hevent').2
  · rename_i event progress rest results _ step
    obtain ⟨hingest, hresults, hbody⟩ := hrelies
    refine ⟨?_, fun r hr herror => hext.seen _ (hresults r hr herror), hbody⟩
    exact Ingest.relies_next ⟨request.siteID, event⟩ h hids
      (fun hcheck => hid event rest results (by rw [hcheck])) hingest

theorem ProcessOne.justified_next (d : Delivery) (progress : ProcessOne.Progress) :
    (ProcessOne.next choice d progress).1.Justified env ids s := by
  fun_cases ProcessOne.next choice d progress <;> try trivial
  all_goals split <;> first | trivial | rintro _ ⟨⟩

theorem Thread.justified_next (h : Consistent env ids initial s)
    (hrelies : t.Relies env ids s) : (t.next env choice s).1.Justified env ids s := by
  cases t with
  | handler request progress => exact Handler.justified_next h hrelies
  | processDeliveries => trivial
  | dispatch now items =>
    cases items with
    | nil => trivial
    | cons d items =>
      simp only [Thread.next]
      split <;> trivial
  | processOne d progress => exact ProcessOne.justified_next d progress
  | deadletterReplay id caller progress =>
    simp only [Thread.next]
    fun_cases DeadletterReplay.next choice s id caller progress <;> try trivial
    split <;> trivial
  | deadletterDelete id caller progress =>
    simp only [Thread.next]
    fun_cases DeadletterDelete.next choice s id caller progress <;> try trivial
    split <;> trivial
  | admin request =>
    simp only [Thread.next]
    split
    · trivial
    · exact hrelies

def Thread.checks (choice : Choice) : Thread → Option String
  | .handler _ (.ingest event .check _ _) => some (checkedID choice event)
  | _ => none

theorem Thread.relies_next {t' : Thread} (h : Consistent env ids initial s)
    (hids : ids.card < Store.maxSeenEvents) (hid : ∀ id, t.checks choice = some id → id ∈ ids)
    (hrelies : t.Relies env ids s) (ht' : t' ∈ (t.next env choice s).2) :
    t'.Relies env ids ((t.next env choice s).1.run env s) := by
  cases t with
  | handler request progress =>
    obtain ⟨next, hnext, rfl⟩ := map_eq_some_iff.mp (mem_toList.mp ht')
    refine Handler.relies_next h hids (fun event rest results heq => ?_) hrelies hnext
    exact hid _ (by rw [heq]; rfl)
  | processDeliveries =>
    rw [mem_singleton.mp ht']
    trivial
  | dispatch now items =>
    cases items with
    | nil => cases ht'
    | cons d items =>
      simp only [Thread.next] at ht'
      split at ht'
      · rw [mem_singleton.mp ht']
        trivial
      · rcases mem_pair.mp ht' with rfl | rfl <;> trivial
  | processOne d progress =>
    obtain ⟨next, -, rfl⟩ := map_eq_some_iff.mp (mem_toList.mp ht')
    trivial
  | deadletterReplay id caller progress =>
    obtain ⟨next, -, rfl⟩ := map_eq_some_iff.mp (mem_toList.mp ht')
    trivial
  | deadletterDelete id caller progress =>
    obtain ⟨next, -, rfl⟩ := map_eq_some_iff.mp (mem_toList.mp ht')
    trivial
  | admin request => cases ht'

def idSystem (env : Env) (ids : Finset String) : System Server Thread Choice :=
  { system env with allowed := fun choice _ t _ => ∀ id, t.checks choice = some id → id ∈ ids }

theorem ingestion_outline (env : Env) (ids : Finset String) (initial : List String)
    (hids : ids.card < Store.maxSeenEvents) :
    (idSystem env ids).Outline (Consistent env ids initial) (Thread.Relies env ids) where
  starts s t _ hstart := by
    cases hstart with
    | admin request h => exact h
    | _ => trivial
  inv_next choice s t rest _ h hrelies := h.run hids (Thread.justified_next h hrelies)
  asserts_next choice s t rest hid h hrelies t' ht' := Thread.relies_next h hids hid hrelies ht'
  stable choice s t rest _ h hrelies u _ hu :=
    hu.mono (h.extends_run hids (Thread.justified_next h hrelies))

end

/-- A server before its first request: its index is that of its seen events, which are
distinct and few. -/
structure Fresh (ids : Finset String) (s : Server) : Prop where
  history : s.history = []
  mem_seen : ∀ id, id ∈ s.store.seen ↔ Seen s id
  nodup : s.store.state.seenEvents.Nodup
  named : ∀ id, Seen s id → id ∈ ids

theorem Fresh.consistent (h : Fresh ids s) (env : Env) :
    Consistent env ids s.store.state.seenEvents s where
  mem_seen := h.mem_seen
  seenEvents := by simp [h.history]
  nodup := h.nodup
  named := h.named
  prepared := by simp [h.history]
  accepted := by simp [h.history]
  replied := by simp [h.history]

/-- What an answer 202 for an event means: the store has it once, and if it did not have
it from the start, exactly one call recorded it, after the deliveries of all the
routes that applied in the list it read had been put. -/
structure RecordedOnce (env : Env) (initial : List String) (s : Server) (id : String) : Prop where
  count : s.store.state.seenEvents.count id = 1
  hasEvent : s.store.hasEvent id = true
  recorded : id ∉ initial →
    (s.history.filterMap recordedID).count id = 1 ∧
    ∃ i ev routes, s.history[i]? = some (.recorded ev routes) ∧ ev.id = id ∧
      Prepared env (s.history.take i) ev routes

theorem Consistent.recordedOnce
    (h : Consistent env ids initial s) (hseen : Seen s id) : RecordedOnce env initial s id where
  count := count_eq_one_of_mem h.nodup hseen
  hasEvent := decide_eq_true ((h.mem_seen id).mpr hseen)
  recorded hinitial := by
    have hcount := count_eq_one_of_mem h.nodup hseen
    rw [h.seenEvents, List.count_append, count_eq_zero_of_not_mem hinitial, Nat.zero_add]
      at hcount
    have hmem : id ∈ s.history.filterMap recordedID := count_pos_iff.mp (by omega)
    obtain ⟨what, hwhat, hid⟩ := mem_filterMap.mp hmem
    obtain ⟨i, hi⟩ := getElem?_of_mem hwhat
    refine ⟨hcount, ?_⟩
    cases what with
    | recorded ev routes => exact ⟨i, ev, routes, hi, Option.some.inj hid, h.prepared i ev routes hi⟩
    | _ => cases hid

/-- The acknowledgement invariant: in every interleaving on fewer ids than the store keeps,
with any call of a queue or of the store allowed to fail, an event that is
answered 202, as new or as a duplicate, is recorded once with its deliveries. -/
theorem accepted_recorded_of_run (env : Env) (ids : Finset String) (s₀ : Server)
    (c : Config Server Thread) (eventID : String) (hids : ids.card < 20000) (hfresh : Fresh ids s₀)
    (hrun : (idSystem env ids).Run ⟨s₀, 0⟩ c) (haccepted : .accepted eventID ∈ c.shared.history) :
    RecordedOnce env s₀.store.state.seenEvents c.shared eventID := by
  have hmeets := (ingestion_outline env ids s₀.store.state.seenEvents hids).run hrun
    ⟨hfresh.consistent env, by simp⟩
  exact hmeets.1.recordedOnce (hmeets.1.accepted eventID haccepted)

def ingestMoves : List (Move Thread Choice) :=
  [.start (.handler someRequest .arrive), .move 0 {}, .move 0 {}, .move 0 {}, .move 0 {},
    .move 0 {}, .move 0 {}, .move 0 {}]

theorem fresh_someServer : Fresh {"e"} someServer :=
  ⟨rfl, by simp [someServer, someStore, Seen, Store.freshStore],
    by simp [someServer, someStore, Store.freshStore], by simp [someServer, someStore, Seen]⟩

theorem accepted_recorded_after_request :
    .accepted "e" ∈ (ingestMoves.foldl (exec (system plainEnv).next) (someServer, [])).1.history ∧
      RecordedOnce plainEnv [] (ingestMoves.foldl (exec (system plainEnv).next) (someServer, [])).1
        "e" := by
  have haccepted : .accepted "e" ∈
      (ingestMoves.foldl (exec (system plainEnv).next) (someServer, [])).1.history := by
    decide
  have hpermits : (idSystem plainEnv {"e"}).Permits (someServer, []) ingestMoves := by
    refine ⟨.handler _, ?_, ?_, ?_, ?_, ?_, ?_, ?_, trivial⟩ <;> intro t ht id hid <;> cases ht <;>
      cases hid
    exact Finset.mem_singleton_self "e"
  exact ⟨haccepted, accepted_recorded_of_run plainEnv {"e"} someServer _ "e" (by decide) fresh_someServer
    ((idSystem plainEnv {"e"}).run_of_exec ingestMoves (someServer, []) hpermits) haccepted⟩

end Nodra.Server
