import Nodra.Lib.Unwinding
import Nodra.Server.Ingestion

/-! Two runs of the control plane that differ in the event requests of the other sites: if the
sites have no event ids in common, one site cannot tell them apart. -/
namespace Nodra.Server
open Model Std Interleave Unwinding List Option

variable {env : Env} {choice : Choice} {s s' : Server} {a : Action}

/-- On whose behalf a thread runs.  `queues` are the worker and the requests for dead letters. -/
inductive Origin where
  | agent (siteID : String)
  | admin
  | queues
deriving DecidableEq

def Thread.origin : Thread → Origin
  | .handler request _ => .agent request.siteID
  | .admin _ => .admin
  | _ => .queues

theorem origin_next {t t' : Thread} (h : t' ∈ (t.next env choice s).2) : t'.origin = t.origin := by
  cases t with
  | handler request progress =>
    simp only [Thread.next, mem_toList, map_eq_some_iff] at h
    obtain ⟨next, -, rfl⟩ := h
    rfl
  | processDeliveries => cases mem_singleton.mp h; rfl
  | dispatch now items =>
    cases items with
    | nil => cases h
    | cons d items =>
      simp only [Thread.next] at h
      split at h
      · cases mem_singleton.mp h; rfl
      · rcases mem_pair.mp h with rfl | rfl <;> rfl
  | processOne d progress =>
    simp only [Thread.next, mem_toList, map_eq_some_iff] at h
    obtain ⟨next, -, rfl⟩ := h
    rfl
  | deadletterReplay id caller progress =>
    simp only [Thread.next, mem_toList, map_eq_some_iff] at h
    obtain ⟨next, -, rfl⟩ := h
    rfl
  | deadletterDelete id caller progress =>
    simp only [Thread.next, mem_toList, map_eq_some_iff] at h
    obtain ⟨next, -, rfl⟩ := h
    rfl
  | admin request => cases h

abbrev Log := List (Origin × Observation)

def logged (env : Env) : System (Server × Log) Thread Choice where
  starts := Thread.Starts
  next := fun choice s t =>
    (((t.step env choice s.1).1, s.2 ++ ((t.next env choice s.1).1.observed s.1).map (t.origin, ·)),
      (t.step env choice s.1).2)

abbrev Play := (Server × Log) × (Origin → List Thread)

abbrev Input := OwnedMove Origin Thread Choice

def play (env : Env) : Play → Input → Play := execOwned Thread.origin (logged env).next

def opening (s : Server) : Play := ((s, []), fun _ => [])

section

/-- The ids that occur in two runs: of the events of one site and of the other sites, and of the
routes. -/
structure Names where
  site : String
  ids : Set String
  others : Set String
  routes : Set String

structure Names.Owns (names : Names) (siteID id : String) : Prop where
  mine : siteID = names.site → id ∈ names.ids
  others : siteID ≠ names.site → id ∈ names.others

variable (names : Names)

def EventIn.Fits (siteID : String) (event : EventIn) : Prop :=
  event.eventID = "" ∨ names.Owns siteID event.eventID

def Ingest.Progress.Fits (siteID : String) : Ingest.Progress → Prop
  | .readRoutes eventID => names.Owns siteID eventID
  | .put ev _ rest _ => ev.siteID = siteID ∧ names.Owns siteID ev.id ∧ ∀ rt ∈ rest, rt.id ∈ names.routes
  | _ => True

def Body.events : Body → List EventIn
  | .single event => [event]
  | .batch events => events

def Names.Covers (names : Names) (request : Store.Call) : Prop :=
  (∀ ev, request ≠ .addEvent ev) ∧ ∀ rt, request = .addRoute rt → rt.id ∈ names.routes

def Thread.Fits : Thread → Prop
  | .handler request .arrive => ∀ event ∈ request.body.events, event.Fits names request.siteID
  | .handler request (.ingest event progress rest _) =>
    (∀ e ∈ event :: rest, e.Fits names request.siteID) ∧ progress.Fits names request.siteID
  | .admin request => names.Covers request
  | _ => True

def Action.movesDelivery : Action → Bool
  | .putDelivery _ | .deleteDelivery _ | .putDeadLetter _ | .deleteDeadLetter _ | .removeDeadLetter _
  | .claim _ | .release _ | .delivered _ => true
  | _ => false

inductive Action.Of (env : Env) : Origin → Action → Prop where
  | none (origin : Origin) : Of env origin .none
  | put {ev : Event} {rt : Route} (h : names.Owns ev.siteID ev.id) (hroute : rt.id ∈ names.routes) :
      Of env (.agent ev.siteID) (.putDelivery (newDelivery env ev rt))
  | addEvent {ev : Event} (routes : List Route) (h : names.Owns ev.siteID ev.id) :
      Of env (.agent ev.siteID) (.addEvent ev routes)
  | accepted (siteID id : String) : Of env (.agent siteID) (.accepted id)
  | reply (siteID : String) (request : Request) (out : Reply) : Of env (.agent siteID) (.reply request out)
  | storeCall {request : Store.Call} (h : names.Covers request) : Of env .admin (.storeCall request)
  | alert (v : Alert) : Of env .queues (.storeCall (.addAlert v))
  | moves {a : Action} (h : a.movesDelivery = true) : Of env .queues a

variable {names}

def RoutesNamed (names : Names) (s : Server) : Prop := ∀ rt ∈ s.store.state.routes, rt.id ∈ names.routes

theorem Ingest.of_next {call : Ingest} {progress : Ingest.Progress} (hroutes : RoutesNamed names s)
    (hevent : call.event.Fits names call.siteID) (hprogress : progress.Fits names call.siteID)
    (hfresh : names.Owns call.siteID choice.id) :
    Action.Of names env (.agent call.siteID) (Ingest.next env choice s call progress).1 ∧
      (Ingest.next env choice s call progress).2.Fits names call.siteID := by
  have hchecked : names.Owns call.siteID (checkedID choice call.event) := by
    unfold checkedID
    split
    · exact hfresh
    · next hne => exact hevent.resolve_left hne
  cases progress with
  | check =>
    simp only [Ingest.next]
    split
    · exact ⟨.none _, trivial⟩
    · split
      · exact ⟨.accepted _ _, trivial⟩
      · exact ⟨.none _, hchecked⟩
  | readRoutes eventID => exact ⟨.none _, rfl, hprogress, hroutes⟩
  | put ev routes rest matched =>
    obtain ⟨hsite, howns, hrest⟩ := hprogress
    rw [← hsite] at howns ⊢
    cases rest with
    | nil =>
      simp only [Ingest.next]
      split
      · exact ⟨.addEvent routes howns, trivial⟩
      · exact ⟨.none _, trivial⟩
    | cons rt rest =>
      simp only [Ingest.next]
      split
      · split
        · exact ⟨.put howns (hrest rt mem_cons_self), rfl, howns,
            fun rt' h => hrest rt' (mem_cons_of_mem rt h)⟩
        · exact ⟨.none _, trivial⟩
      · exact ⟨.none _, rfl, howns, fun rt' h => hrest rt' (mem_cons_of_mem rt h)⟩
  | accept ev matched => exact ⟨.accepted _ _, trivial⟩
  | returned answer => exact ⟨.none _, trivial⟩

theorem Handler.of_next {request : Request} {progress : Handler.Progress}
    (hroutes : RoutesNamed names s) (h : (Thread.handler request progress).Fits names)
    (hfresh : names.Owns request.siteID choice.id) :
    Action.Of names env (.agent request.siteID) (Handler.next env choice s request progress).1 ∧
      ∀ next ∈ (Handler.next env choice s request progress).2, (Thread.handler request next).Fits names := by
  revert h
  fun_cases Handler.next env choice s request progress <;> intro h
  · exact ⟨.reply _ _ _, (by simp)⟩
  · exact ⟨.reply _ _ _, (by simp)⟩
  · rename_i event hbody
    simp only [Thread.Fits, hbody] at h
    refine ⟨.none _, fun next hnext => ?_⟩
    cases hnext
    exact ⟨h, trivial⟩
  · exact ⟨.reply _ _ _, (by simp)⟩
  · exact ⟨.reply _ _ _, (by simp)⟩
  · rename_i event rest hbody _
    simp only [Thread.Fits, hbody] at h
    refine ⟨.none _, fun next hnext => ?_⟩
    cases hnext
    exact ⟨h, trivial⟩
  · exact ⟨.reply _ _ _, (by simp)⟩
  · refine ⟨.none _, fun next hnext => ?_⟩
    cases hnext
    exact ⟨fun e he => h.1 e (mem_cons_of_mem _ he), trivial⟩
  · rename_i event progress rest results _ step
    obtain ⟨hevents, hprogress⟩ := h
    obtain ⟨haction, hstep⟩ := @Ingest.of_next env choice s names ⟨request.siteID, event⟩ progress
      hroutes (hevents event mem_cons_self) hprogress hfresh
    refine ⟨haction, fun next hnext => ?_⟩
    cases hnext
    exact ⟨hevents, hstep⟩

theorem ProcessOne.of_next (d : Delivery) (progress : ProcessOne.Progress) :
    Action.Of names env .queues (ProcessOne.next choice d progress).1 := by
  fun_cases ProcessOne.next choice d progress <;> try exact .none _
  all_goals
    try split
    all_goals first | exact .none _ | exact .moves rfl | exact .alert _

theorem DeadletterReplay.of_next (id : String) (caller : String → Bool) (progress : DeadletterReplay.Progress) :
    Action.Of names env .queues (DeadletterReplay.next choice s id caller progress).1 := by
  fun_cases DeadletterReplay.next choice s id caller progress <;> try exact .none _
  all_goals
    try split
    all_goals first | exact .none _ | exact .moves rfl

theorem DeadletterDelete.of_next (id : String) (caller : String → Bool) (progress : DeadletterDelete.Progress) :
    Action.Of names env .queues (DeadletterDelete.next choice s id caller progress).1 := by
  fun_cases DeadletterDelete.next choice s id caller progress <;> try exact .none _
  split
  · exact .none _
  · exact .moves rfl

theorem Thread.of_next {t : Thread} (hroutes : RoutesNamed names s) (h : t.Fits names)
    (hfresh : ∀ siteID, t.origin = .agent siteID → names.Owns siteID choice.id) :
    Action.Of names env t.origin (t.next env choice s).1 ∧ ∀ t' ∈ (t.next env choice s).2, t'.Fits names := by
  cases t with
  | handler request progress =>
    have hnext := fun next hmem =>
      (@Handler.of_next env choice s names request progress hroutes h (hfresh request.siteID rfl)).2 next hmem
    refine ⟨(Handler.of_next hroutes h (hfresh request.siteID rfl)).1, fun t' ht' => ?_⟩
    simp only [Thread.next, mem_toList, map_eq_some_iff] at ht'
    obtain ⟨next, hmem, rfl⟩ := ht'
    exact hnext next hmem
  | processDeliveries =>
    refine ⟨.none _, fun t' ht' => ?_⟩
    cases mem_singleton.mp ht'
    trivial
  | dispatch now items =>
    cases items with
    | nil =>
      simp only [Thread.next]
      exact ⟨.none _, by simp⟩
    | cons d items =>
      simp only [Thread.next]
      split
      · refine ⟨.none _, fun t' ht' => ?_⟩
        cases mem_singleton.mp ht'
        trivial
      · refine ⟨.moves rfl, fun t' ht' => ?_⟩
        rcases mem_pair.mp ht' with rfl | rfl <;> trivial
  | processOne d progress =>
    refine ⟨ProcessOne.of_next d progress, fun t' ht' => ?_⟩
    simp only [Thread.next, mem_toList, map_eq_some_iff] at ht'
    obtain ⟨next, -, rfl⟩ := ht'
    trivial
  | deadletterReplay id caller progress =>
    refine ⟨DeadletterReplay.of_next id caller progress, fun t' ht' => ?_⟩
    simp only [Thread.next, mem_toList, map_eq_some_iff] at ht'
    obtain ⟨next, -, rfl⟩ := ht'
    trivial
  | deadletterDelete id caller progress =>
    refine ⟨DeadletterDelete.of_next id caller progress, fun t' ht' => ?_⟩
    simp only [Thread.next, mem_toList, map_eq_some_iff] at ht'
    obtain ⟨next, -, rfl⟩ := ht'
    trivial
  | admin request =>
    simp only [Thread.next]
    refine ⟨?_, by simp⟩
    split
    · exact .none _
    · exact .storeCall h

end

section

variable {names : Names} {s'' : Server} {ids : Set String}

structure Indistinct (ids : Set String) (s s' : Server) : Prop where
  directory : s.store.directory = s'.store.directory
  seen : ∀ id ∈ ids, id ∈ s.store.seen ↔ id ∈ s'.store.seen

def Roomy (s : Server) : Prop := s.store.state.seenEvents.length < Store.maxSeenEvents

instance (s : Server) : Decidable (Roomy s) := inferInstanceAs (Decidable (_ < _))

theorem Indistinct.of_store (h : s.store = s'.store) : Indistinct ids s s' :=
  ⟨congrArg _ h, fun _ _ => by rw [h]⟩

theorem Indistinct.symm (h : Indistinct ids s s') : Indistinct ids s' s :=
  ⟨h.directory.symm, fun id hid => (h.seen id hid).symm⟩

theorem Indistinct.trans (h : Indistinct ids s s') (h' : Indistinct ids s' s'') : Indistinct ids s s'' :=
  ⟨h.directory.trans h'.directory, fun id hid => (h.seen id hid).trans (h'.seen id hid)⟩

theorem mem_seen_addEvent (hroom : Roomy s) (ev : Event) (routes : List Route) (id : String) :
    id ∈ ((Action.addEvent ev routes).run env s).store.seen ↔ ev.id = id ∨ id ∈ s.store.seen := by
  show id ∈ ((s.store.addEvent env.codecs ev).toOption.getD s.store).seen ↔ _
  unfold Store.addEvent
  split
  · next hseen =>
    refine ⟨.inr, fun h => ?_⟩
    rcases h with rfl | h
    · exact hseen
    · exact h
  · show id ∈ ((Store.Mutation.eventAdd ev).apply s.store.toMem).seen ↔ _
    rw [(Store.apply_eventAdd ev s.store.toMem hroom).2, ExtTreeSet.mem_insert, Std.compare_eq_iff_eq]

theorem directory_addEvent (s : Server) (ev : Event) (routes : List Route) :
    ((Action.addEvent ev routes).run env s).store.directory = s.store.directory :=
  @Store.directory_call_of_not_writes _ _ (.addEvent ev) rfl

theorem seen_storeCall {request : Store.Call} (h : ∀ ev, request ≠ .addEvent ev) (s : Server) :
    ((Action.storeCall request).run env s).store.seen = s.store.seen := by
  show ((s.store.call env.codecs request).toOption.getD s.store).seen = _
  cases hcall : s.store.call env.codecs request with
  | error err => rfl
  | ok store => exact (Store.call_of_ne_addEvent h hcall).2

theorem Action.Of.routesNamed {origin : Origin} (h : a.Of names env origin) (hroutes : RoutesNamed names s) :
    RoutesNamed names (a.run env s) := by
  cases h with
  | addEvent routes howns =>
    rename_i ev
    have hsame : ((Action.addEvent ev routes).run env s).store.state.routes = s.store.state.routes :=
      congrArg Prod.snd (directory_addEvent s ev routes)
    intro rt hrt
    rw [hsame] at hrt
    exact hroutes rt hrt
  | storeCall hcovers =>
    intro rt hrt
    rcases Store.mem_routes_call hrt with hold | hadded
    · exact hroutes rt hold
    · exact hcovers.2 rt hadded
  | alert v =>
    intro rt hrt
    rcases Store.mem_routes_call hrt with hold | hadded
    · exact hroutes rt hold
    · cases hadded
  | moves h => cases a <;> first | exact hroutes | cases h
  | _ => exact hroutes

theorem Indistinct.run (h : Indistinct ids s s') (hroom : Roomy s) (hroom' : Roomy s')
    (ha : ∀ ev, a ≠ .storeCall (.addEvent ev)) : Indistinct ids (a.run env s) (a.run env s') := by
  cases a with
  | addEvent ev routes =>
    refine ⟨?_, fun id hid => ?_⟩
    · rw [directory_addEvent, directory_addEvent]
      exact h.directory
    · rw [mem_seen_addEvent hroom, mem_seen_addEvent hroom', h.seen id hid]
  | storeCall request =>
    have hrequest : ∀ ev, request ≠ .addEvent ev := fun ev heq => ha ev (congrArg _ heq)
    refine ⟨Store.directory_call h.directory request, fun id hid => ?_⟩
    rw [seen_storeCall hrequest, seen_storeCall hrequest]
    exact h.seen id hid
  | _ => exact ⟨h.directory, h.seen⟩

theorem Action.Of.ne_addEvent {origin : Origin} (h : a.Of names env origin) (ev : Event) :
    a ≠ .storeCall (.addEvent ev) := by
  rintro rfl
  cases h with
  | storeCall h => exact h.1 ev rfl
  | moves h => cases h

theorem Action.Of.indistinct {origin : Origin} (h : a.Of names env origin) (hroom : Roomy s)
    (horigin : origin ≠ .admin)
    (hids : ∀ siteID id, origin = .agent siteID → names.Owns siteID id → id ∉ ids) :
    Indistinct ids (a.run env s) s := by
  cases h with
  | addEvent routes howns =>
    rename_i ev
    refine ⟨directory_addEvent s ev routes, fun id hid => ?_⟩
    rw [mem_seen_addEvent hroom]
    refine or_iff_right fun heq => hids ev.siteID ev.id rfl howns ?_
    rwa [heq]
  | storeCall h => exact absurd rfl horigin
  | alert v =>
    refine ⟨@Store.directory_call_of_not_writes _ _ (.addAlert v) rfl, fun id _ => ?_⟩
    rw [seen_storeCall (fun ev heq => by cases heq)]
  | moves h => cases a <;> first | exact .of_store rfl | cases h
  | _ => exact .of_store rfl

theorem Ingest.next_of_indistinct (h : Indistinct ids s s') {call : Ingest} (progress : Ingest.Progress)
    (hchecked : checkedID choice call.event ∈ ids) :
    Ingest.next env choice s call progress = Ingest.next env choice s' call progress := by
  have hroutes : s.store.state.routes = s'.store.state.routes := congrArg Prod.snd h.directory
  cases progress with
  | check =>
    have hseen : s.store.hasEvent (checkedID choice call.event) =
        s'.store.hasEvent (checkedID choice call.event) := decide_eq_decide.mpr (h.seen _ hchecked)
    simp only [Ingest.next, hseen]
  | readRoutes eventID => simp only [Ingest.next, hroutes]
  | put ev routes rest matched => cases rest <;> rfl
  | accept ev matched => rfl
  | returned answer => rfl

theorem Handler.next_of_indistinct (h : Indistinct ids s s') {request : Request}
    {progress : Handler.Progress} (hfits : (Thread.handler request progress).Fits names)
    (hfresh : names.Owns request.siteID choice.id) (hids : ∀ id, names.Owns request.siteID id → id ∈ ids) :
    Handler.next env choice s request progress = Handler.next env choice s' request progress := by
  cases progress with
  | arrive =>
    have hsites : s.store.state.sites = s'.store.state.sites := congrArg Prod.fst h.directory
    have hsite : agentSite env s = agentSite env s' := by
      funext credentials siteID
      unfold agentSite
      rw [hsites]
    simp only [Handler.next, hsite]
  | ingest event progress rest results =>
    have hchecked : checkedID choice event ∈ ids := by
      unfold checkedID
      split
      · exact hids _ hfresh
      · next hne => exact hids _ ((hfits.1 event mem_cons_self).resolve_left hne)
    have hnext := @Ingest.next_of_indistinct env choice s s' ids h ⟨request.siteID, event⟩ progress hchecked
    cases progress with
    | returned answer => rfl
    | _ => simp only [Handler.next, hnext]

end

section

/-- The site shares no event id with another, and no id of a delivery. -/
structure Names.Distinct (env : Env) (names : Names) : Prop where
  events : ∀ id ∈ names.ids, id ∉ names.others
  deliveries : ∀ id ∈ names.ids, ∀ other ∈ names.others, ∀ r ∈ names.routes, ∀ r' ∈ names.routes,
    env.deterministicDeliveryID id r ≠ env.deterministicDeliveryID other r'

def enqueue (queue : OrderedMap String Delivery) : Origin × Observation → OrderedMap String Delivery
  | (.agent _, .put d) => queue.put d.id d
  | _ => queue

/-- What the event requests put into the queue, each delivery in the place of one with its id. -/
def enqueued (log : Log) : OrderedMap String Delivery := log.foldl enqueue .empty

def ofSite (siteID : String) (queue : OrderedMap String Delivery) : List (String × Delivery) :=
  queue.entries.filter fun entry => entry.2.siteID = siteID

def Filed (env : Env) (names : Names) (queue : OrderedMap String Delivery) : Prop :=
  ∀ entry ∈ ofSite names.site queue, ∃ id ∈ names.ids, ∃ r ∈ names.routes,
    entry.1 = env.deterministicDeliveryID id r

variable {siteID : String} {names : Names} {origin : Origin} {queue queue' : OrderedMap String Delivery}

theorem ofSite_put (queue : OrderedMap String Delivery) (key : String) (d : Delivery) :
    ofSite siteID (queue.put key d) =
      (ofSite siteID queue).filter (fun entry => entry.1 ≠ key) ++
        [(key, d)].filter fun entry => entry.2.siteID = siteID := by
  simp only [ofSite, OrderedMap.put, OrderedMap.remove, filter_append]
  rw [filter_comm]

def enqueueOf (s : Server) (origin : Origin) (a : Action) (queue : OrderedMap String Delivery) :
    OrderedMap String Delivery :=
  ((a.observed s).map (origin, ·)).foldl enqueue queue

theorem enqueued_append (log : Log) (s : Server) (origin : Origin) (a : Action) :
    enqueued (log ++ (a.observed s).map (origin, ·)) = enqueueOf s origin a (enqueued log) :=
  foldl_append

theorem enqueueOf_putDelivery (site : String) (d : Delivery) :
    enqueueOf s (.agent site) (.putDelivery d) queue = queue.put d.id d := rfl

theorem enqueueOf_of_ne (h : ∀ site d, origin = .agent site → a ≠ .putDelivery d) :
    enqueueOf s origin a queue = queue := by
  unfold enqueueOf
  cases origin with
  | agent site =>
    cases a with
    | putDelivery d => exact absurd rfl (h site d rfl)
    | addEvent ev routes =>
      simp only [Action.observed]
      split <;> rfl
    | removeDeadLetter id =>
      simp only [Action.observed]
      split <;> rfl
    | _ => rfl
  | admin =>
    rw [foldl_map]
    exact foldl_fixed' (fun _ => rfl) _
  | queues =>
    rw [foldl_map]
    exact foldl_fixed' (fun _ => rfl) _

theorem Action.Of.ofSite_enqueueOf (h : a.Of names env origin) (horigin : origin ≠ .agent names.site)
    (hfiled : Filed env names queue) (hdistinct : names.Distinct env) :
    ofSite names.site (enqueueOf s origin a queue) = ofSite names.site queue := by
  cases h with
  | put howns hroute =>
    rename_i ev rt
    have hsite : ev.siteID ≠ names.site := fun heq => horigin (congrArg _ heq)
    have hnone : [((newDelivery env ev rt).id, newDelivery env ev rt)].filter
        (fun entry => entry.2.siteID = names.site) = [] :=
      filter_cons_of_neg (by simp [newDelivery, hsite])
    rw [enqueueOf_putDelivery, ofSite_put, hnone, append_nil, filter_eq_self]
    intro entry hentry
    obtain ⟨id, hid, r, hr, hkey⟩ := hfiled entry hentry
    simpa [hkey, newDelivery] using
      hdistinct.deliveries id hid ev.id (howns.others hsite) r hr rt.id hroute
  | _ => rw [enqueueOf_of_ne (by simp)]

theorem ofSite_enqueueOf (h : ofSite siteID queue = ofSite siteID queue')
    (hobserved : a.observed s = a.observed s') :
    ofSite siteID (enqueueOf s origin a queue) = ofSite siteID (enqueueOf s' origin a queue') := by
  unfold enqueueOf
  rw [hobserved]
  generalize (a.observed s').map (origin, ·) = log
  induction log generalizing queue queue' with
  | nil => exact h
  | cons entry log ih =>
    refine ih ?_
    obtain ⟨origin, observation⟩ := entry
    cases origin with
    | agent site =>
      cases observation with
      | put d => simp only [enqueue, ofSite_put, h]
      | _ => exact h
    | _ => exact h

theorem Action.Of.filed (h : a.Of names env origin) (hfiled : Filed env names queue) :
    Filed env names (enqueueOf s origin a queue) := by
  cases h with
  | put howns hroute =>
    rename_i ev rt
    intro entry hentry
    rw [enqueueOf_putDelivery, ofSite_put] at hentry
    rcases mem_append.mp hentry with hentry | hentry
    · exact hfiled entry (mem_of_mem_filter hentry)
    · obtain ⟨hentry, hsite⟩ := mem_filter.mp hentry
      obtain rfl := mem_singleton.mp hentry
      exact ⟨ev.id, howns.mine (of_decide_eq_true hsite), rt.id, hroute, rfl⟩
  | _ => rwa [enqueueOf_of_ne (by simp)]

end

section

variable {names : Names} {p q : Play}

/-- The inputs that both runs have: all that concerns the site or the administration. -/
def visible (siteID : String) : Input → Bool
  | .start t => t.origin = .agent siteID ∨ t.origin = .admin
  | .move origin _ _ => origin = .agent siteID ∨ origin = .admin

/-- The ids of the events, sent or made up, and of the routes are among the names. -/
def Names.Cover (names : Names) : Input → Prop
  | .start (.handler request _) => ∀ event ∈ request.body.events, event.Fits names request.siteID
  | .start (.admin request) => names.Covers request
  | .move (.agent siteID) _ choice => names.Owns siteID choice.id
  | _ => True

structure Kept (env : Env) (names : Names) (p : Play) : Prop where
  threads : ∀ origin, ∀ t ∈ p.2 origin, t.origin = origin ∧ t.Fits names
  routes : RoutesNamed names p.1.1
  filed : Filed env names (enqueued p.1.2)

structure Agree (names : Names) (p q : Play) : Prop where
  servers : Indistinct names.ids p.1.1 q.1.1
  threads : ∀ origin, origin = .agent names.site ∨ origin = .admin → p.2 origin = q.2 origin
  log : p.1.2.filter (fun entry => entry.1 = .agent names.site) =
    q.1.2.filter fun entry => entry.1 = .agent names.site
  queue : ofSite names.site (enqueued p.1.2) = ofSite names.site (enqueued q.1.2)

theorem Agree.symm (h : Agree names p q) : Agree names q p :=
  ⟨h.servers.symm, fun origin ho => (h.threads origin ho).symm, h.log.symm, h.queue.symm⟩

theorem Agree.trans {r : Play} (h : Agree names p q) (h' : Agree names q r) :
    Agree names p r :=
  ⟨h.servers.trans h'.servers, fun origin ho => (h.threads origin ho).trans (h'.threads origin ho),
    h.log.trans h'.log, h.queue.trans h'.queue⟩

structure Permitted (names : Names) (p : Play) (input : Input) : Prop where
  starts : ∀ t, input = .start t → t.Starts
  covered : names.Cover input
  roomy : Roomy p.1.1

theorem Permitted.fresh {origin : Origin} {index : Nat}
    (h : Permitted names p (.move origin index choice)) (site : String)
    (hsite : origin = .agent site) : names.Owns site choice.id := by
  have hcovered := h.covered
  rwa [hsite] at hcovered

theorem Thread.Starts.fits {t : Thread} (h : t.Starts) (hcovered : names.Cover (.start t)) :
    t.Fits names := by
  cases h with
  | handler request => exact hcovered
  | admin request h => exact hcovered
  | _ => trivial

theorem play_move {origin : Origin} {index : Nat} {t : Thread} (ht : (p.2 origin)[index]? = some t) :
    play env p (.move origin index choice) =
      (((t.next env choice p.1.1).1.run env p.1.1,
        p.1.2 ++ ((t.next env choice p.1.1).1.observed p.1.1).map (t.origin, ·)),
        Function.update p.2 origin ((t.next env choice p.1.1).2 ++ (p.2 origin).eraseIdx index)) := by
  simp only [play, execOwned, ht, logged, Thread.step]

theorem play_move_none {origin : Origin} {index : Nat}
    (ht : (p.2 origin)[index]? = none) : play env p (.move origin index choice) = p := by
  simp only [play, execOwned, ht]

theorem Kept.step {input : Input} (h : Kept env names p) (hinput : Permitted names p input) :
    Kept env names (play env p input) := by
  cases input with
  | start t =>
    refine ⟨fun origin u hu => ?_, h.routes, h.filed⟩
    simp only [play, execOwned, Function.update_apply] at hu
    split at hu
    · next horigin =>
      rcases mem_cons.mp hu with rfl | hu
      · exact ⟨horigin.symm, (hinput.starts u rfl).fits hinput.covered⟩
      · exact horigin ▸ h.threads _ u hu
    · exact h.threads origin u hu
  | move origin index choice =>
    cases ht : (p.2 origin)[index]? with
    | none => rwa [play_move_none ht]
    | some t =>
      rw [play_move ht]
      obtain ⟨rfl, hfits⟩ := h.threads origin t (mem_of_getElem? ht)
      have hfresh := hinput.fresh
      obtain ⟨haction, hnext⟩ := @Thread.of_next env choice p.1.1 names t h.routes hfits hfresh
      refine ⟨fun origin u hu => ?_, haction.routesNamed h.routes, ?_⟩
      · simp only [Function.update_apply] at hu
        split at hu
        · next horigin =>
          subst horigin
          rcases mem_append.mp hu with hu | hu
          · exact ⟨origin_next hu, hnext u hu⟩
          · exact h.threads _ u (mem_of_mem_eraseIdx hu)
        · exact h.threads origin u hu
      · rw [enqueued_append]
        exact haction.filed h.filed

theorem Kept.agree_of_hidden {input : Input} (h : Kept env names p)
    (hdistinct : names.Distinct env) (hinput : Permitted names p input)
    (hhidden : visible names.site input = false) : Agree names (play env p input) p := by
  cases input with
  | start t =>
    simp only [visible, decide_eq_false_iff_not, not_or] at hhidden
    refine ⟨.of_store rfl, fun origin horigin => ?_, rfl, rfl⟩
    refine Function.update_of_ne ?_ _ _
    rcases horigin with rfl | rfl
    · exact Ne.symm hhidden.1
    · exact Ne.symm hhidden.2
  | move origin index choice =>
    simp only [visible, decide_eq_false_iff_not, not_or] at hhidden
    obtain ⟨hsite, hadmin⟩ := hhidden
    cases ht : (p.2 origin)[index]? with
    | none =>
      rw [play_move_none ht]
      exact ⟨.of_store rfl, fun _ _ => rfl, rfl, rfl⟩
    | some t =>
      rw [play_move ht]
      obtain ⟨rfl, hfits⟩ := h.threads origin t (mem_of_getElem? ht)
      have hfresh := hinput.fresh
      have haction := (@Thread.of_next env choice p.1.1 names t h.routes hfits hfresh).1
      refine ⟨haction.indistinct hinput.roomy hadmin ?_, fun origin horigin => ?_, ?_, ?_⟩
      · intro site id horigin howns hid
        refine hdistinct.events id hid (howns.others fun heq => hsite ?_)
        rw [horigin, heq]
      · refine Function.update_of_ne ?_ _ _
        rcases horigin with rfl | rfl
        · exact Ne.symm hsite
        · exact Ne.symm hadmin
      · simp [filter_append, hsite]
      · rw [enqueued_append]
        exact haction.ofSite_enqueueOf hsite h.filed hdistinct

theorem Thread.next_of_indistinct {t : Thread} (h : Indistinct names.ids s s') (hfits : t.Fits names)
    (horigin : t.origin = .agent names.site ∨ t.origin = .admin)
    (hfresh : ∀ site, t.origin = .agent site → names.Owns site choice.id) :
    t.next env choice s = t.next env choice s' := by
  cases t with
  | handler request progress =>
    have hsite : request.siteID = names.site := by
      rcases horigin with heq | heq
      · exact Origin.agent.inj heq
      · cases heq
    have hnext := @Handler.next_of_indistinct env choice s s' names names.ids h request progress
      hfits (hfresh request.siteID rfl) fun id howns => howns.mine hsite
    simp only [Thread.next, hnext]
  | admin request => rfl
  | _ => rcases horigin with heq | heq <;> cases heq

theorem Action.Of.observed_of_indistinct {origin : Origin}
    (h : a.Of names env origin) (horigin : origin = .agent names.site ∨ origin = .admin)
    (hservers : Indistinct names.ids s s') : a.observed s = a.observed s' := by
  cases h with
  | addEvent routes howns =>
    rename_i ev
    have hsite : ev.siteID = names.site := by
      rcases horigin with heq | heq
      · exact Origin.agent.inj heq
      · cases heq
    simp only [Action.observed, hservers.seen ev.id (howns.mine hsite)]
  | moves h => rcases horigin with heq | heq <;> cases heq
  | _ => rfl

theorem Agree.step {input : Input} (h : Agree names p q) (hp : Kept env names p) (hq : Kept env names q)
    (hinput : Permitted names p input) (hinput' : Permitted names q input)
    (hvisible : visible names.site input = true) :
    Agree names (play env p input) (play env q input) := by
  cases input with
  | start t =>
    simp only [visible, decide_eq_true_eq] at hvisible
    refine ⟨h.servers, fun origin horigin => ?_, h.log, h.queue⟩
    simp only [play, execOwned, h.threads t.origin hvisible, Function.update_apply]
    split
    · rfl
    · exact h.threads origin horigin
  | move origin index choice =>
    simp only [visible, decide_eq_true_eq] at hvisible
    have hthreads := h.threads origin hvisible
    cases ht : (p.2 origin)[index]? with
    | none =>
      rw [play_move_none ht, play_move_none (hthreads ▸ ht)]
      exact h
    | some t =>
      have ht' : (q.2 origin)[index]? = some t := hthreads ▸ ht
      obtain ⟨rfl, hfits⟩ := hp.threads origin t (mem_of_getElem? ht)
      have hfresh := hinput.fresh
      have hnext := @Thread.next_of_indistinct env choice p.1.1 q.1.1 names t h.servers hfits
        hvisible hfresh
      have haction := (@Thread.of_next env choice q.1.1 names t hq.routes hfits hfresh).1
      have hobserved := haction.observed_of_indistinct hvisible h.servers
      rw [play_move ht, play_move ht', hnext, hobserved]
      refine ⟨h.servers.run hinput.roomy hinput'.roomy haction.ne_addEvent, fun other hother => ?_, ?_, ?_⟩
      · simp only [Function.update_apply, hthreads]
        split
        · rfl
        · exact h.threads other hother
      · simp only [filter_append, h.log]
      · rw [enqueued_append, enqueued_append]
        exact ofSite_enqueueOf h.queue rfl

theorem unwinds (hdistinct : names.Distinct env) :
    Unwinds (play env) (Permitted names) (visible names.site)
      fun p q => Kept env names p ∧ Kept env names q ∧ Agree names p q where
  symm := fun ⟨hp, hq, h⟩ => ⟨hq, hp, h.symm⟩
  hidden := fun ⟨hp, hq, h⟩ hinput hhidden =>
    ⟨hp.step hinput, hq, (hp.agree_of_hidden hdistinct hinput hhidden).trans h⟩
  visible := fun ⟨hp, hq, h⟩ hinput hinput' hvisible =>
    ⟨hp.step hinput, hq.step hinput', h.step hp hq hinput hinput' hvisible⟩

structure SiteOutcome where
  replies : List (Request × Reply)
  recorded : List Event
  enqueued : List Delivery
deriving DecidableEq

def Observation.reply? : Observation → Option (Request × Reply)
  | .replied request reply => some (request, reply)
  | _ => none

def Observation.event? : Observation → Option Event
  | .recorded ev _ => some ev
  | _ => none

def siteOutcome (siteID : String) (p : Play) : SiteOutcome where
  replies := (p.1.2.filter fun entry => entry.1 = .agent siteID).filterMap fun entry => entry.2.reply?
  recorded := (p.1.2.filter fun entry => entry.1 = .agent siteID).filterMap fun entry => entry.2.event?
  enqueued := (ofSite siteID (enqueued p.1.2)).map Prod.snd

theorem Agree.siteOutcome_eq (h : Agree names p q) : siteOutcome names.site p = siteOutcome names.site q := by
  simp only [siteOutcome, h.log, h.queue]

/-- Event requests of other sites make no difference to a site, if they use none of its event ids:
in two runs that have all other inputs in common, it gets the same answers, and the same events
are recorded and the same deliveries enqueued for it. -/
theorem site_outcome_of_inputs (env : Env) (names : Names) (s : Server) (inputs inputs' : List Input)
    (hsame : inputs.filter (visible names.site) = inputs'.filter (visible names.site))
    (hstarts : ∀ t, .start t ∈ inputs ++ inputs' → t.Starts)
    (hroomy : Along (play env) (fun p _ => Roomy p.1.1) (opening s) inputs)
    (hroomy' : Along (play env) (fun p _ => Roomy p.1.1) (opening s) inputs')
    (hroutes : RoutesNamed names s) (hcovered : ∀ input ∈ inputs ++ inputs', names.Cover input)
    (hdistinct : names.Distinct env) :
    siteOutcome names.site (inputs.foldl (play env) (opening s)) =
      siteOutcome names.site (inputs'.foldl (play env) (opening s)) := by
  have hkept : Kept env names (opening s) :=
    ⟨fun _ _ h => absurd h not_mem_nil, hroutes, fun _ h => absurd h not_mem_nil⟩
  have hagree : Agree names (opening s) (opening s) := ⟨.of_store rfl, fun _ _ => rfl, rfl, rfl⟩
  have hpermitted (xs : List Input) (hxs : xs ⊆ inputs ++ inputs')
      (hroomy : Along (play env) (fun p _ => Roomy p.1.1) (opening s) xs) :
      Along (play env) (Permitted names) (opening s) xs :=
    hroomy.imp xs fun input hinput p hp =>
      ⟨fun t heq => hstarts t (heq ▸ hxs hinput), hcovered input (hxs hinput), hp⟩
  exact ((unwinds hdistinct).run hsame ⟨hkept, hkept, hagree⟩
    (hpermitted inputs (subset_append_left _ _) hroomy)
    (hpermitted inputs' (subset_append_right _ _) hroomy')).2.2.siteOutcome_eq

end

def twoSites : Server where
  store := { someStore with
    state := { someStore.state with
      sites := [{ id := "s", tokenHash := "token" }, { id := "other", tokenHash := "token" }] } }

def eventInputs (siteID eventID : String) : List Input :=
  .start (.handler { siteID, bearer := "token", body := .single { someEvent with eventID } } .arrive) ::
    List.replicate 7 (.move (.agent siteID) 0 { id := siteID })

def bothInputs (eventID : String) : List Input := eventInputs "other" eventID ++ eventInputs "s" "e"

def bothPlay (env : Env) (eventID : String) : Play := (bothInputs eventID).foldl (play env) (opening twoSites)

/-- The same id from the other site, and the event is taken for a duplicate and lost. -/
theorem shared_id_loses_event :
    (bothInputs "e").filter (visible "s") = (bothInputs "f").filter (visible "s") ∧
      (siteOutcome "s" (bothPlay plainEnv "f")).replies.map (fun reply => reply.2.results.map Result.duplicate) =
        [[false]] ∧
      (siteOutcome "s" (bothPlay plainEnv "f")).recorded.length = 1 ∧
      (siteOutcome "s" (bothPlay plainEnv "f")).enqueued.length = 1 ∧
      (siteOutcome "s" (bothPlay plainEnv "e")).replies.map (fun reply => reply.2.results.map Result.duplicate) =
        [[true]] ∧
      (siteOutcome "s" (bothPlay plainEnv "e")).recorded = [] ∧
      (siteOutcome "s" (bothPlay plainEnv "e")).enqueued = [] := by
  refine ⟨rfl, ?_⟩
  decide

theorem starts_eventInputs {siteID eventID : String} {t : Thread}
    (h : .start t ∈ eventInputs siteID eventID) : t.Starts := by
  simp only [eventInputs, mem_cons, mem_replicate, reduceCtorEq, and_false, or_false,
    OwnedMove.start.injEq] at h
  exact h ▸ .handler _

theorem cover_eventInputs {names : Names} {siteID eventID : String} (hevent : names.Owns siteID eventID)
    (hfresh : names.Owns siteID siteID) {input : Input} (h : input ∈ eventInputs siteID eventID) :
    names.Cover input := by
  rcases mem_cons.mp h with rfl | h
  · intro event hmem
    obtain rfl := mem_singleton.mp hmem
    exact .inr hevent
  · obtain rfl := eq_of_mem_replicate h
    exact hfresh

def twoNames : Names where
  site := "s"
  ids := {"e", "s"}
  others := {"f", "g", "other"}
  routes := {"r"}

/-- Whichever event the other site sends, if it is another one. -/
theorem site_outcome_of_other_event :
    siteOutcome "s" (bothPlay plainEnv "f") = siteOutcome "s" (bothPlay plainEnv "g") := by
  have hmine (id : String) (h : id ∈ twoNames.ids) : twoNames.Owns "s" id :=
    ⟨fun _ => h, fun hne => absurd rfl hne⟩
  have hothers (id : String) (h : id ∈ twoNames.others) : twoNames.Owns "other" id :=
    ⟨fun heq => absurd heq (by decide), fun _ => h⟩
  refine site_outcome_of_inputs plainEnv twoNames twoSites (bothInputs "f") (bothInputs "g") rfl ?_
    (by decide) (by decide) ?_ ?_ ⟨?_, ?_⟩
  · intro t ht
    simp only [bothInputs, mem_append] at ht
    rcases ht with (ht | ht) | (ht | ht) <;> exact starts_eventInputs ht
  · simp [RoutesNamed, twoNames, twoSites, someStore, someRoute]
  · intro input hinput
    simp only [bothInputs, mem_append] at hinput
    rcases hinput with (h | h) | (h | h)
    · exact cover_eventInputs (hothers "f" (by simp [twoNames])) (hothers "other" (by simp [twoNames])) h
    · exact cover_eventInputs (hmine "e" (by simp [twoNames])) (hmine "s" (by simp [twoNames])) h
    · exact cover_eventInputs (hothers "g" (by simp [twoNames])) (hothers "other" (by simp [twoNames])) h
    · exact cover_eventInputs (hmine "e" (by simp [twoNames])) (hmine "s" (by simp [twoNames])) h
  · simp [twoNames]
  · simp [twoNames, plainEnv]

end Nodra.Server
