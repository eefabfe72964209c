import Nodra.Agent.Forward
import Nodra.Queue.DropOldest

/-! `ingestWithTime` over the durable queues themselves.  The event is in the spool before the local
routes run, and no later error takes it out again. -/
namespace Nodra.Agent
open Model Std Server Lines JsonText List OrderedMap

structure Edge where
  spool : Queue Event
  localDeliveries : Queue Delivery

inductive IngestError where
  | required
  | marshal
  | queue (err : Queue.Error)
  | transform (text : String)

def IngestError.text : IngestError → Option String
  | .required => some "topic and payload are required"
  | .marshal => none
  | .queue err => err.text
  | .transform text => some text

/-- How a queue writes its values.  `json.Marshal` fails on a value whose raw payload is not JSON. -/
structure Format (T : Type) where
  codec : Codec T
  valid : T → Bool

def Format.put {T : Type} (fmt : Format T) (cut : Option Queue.Cut) (q : Queue T) (id : String) (v : T) :
    Except IngestError Unit × Queue T :=
  if id = "" then (.error (.queue .idRequired), q)
  else if fmt.valid v then
    match q.put fmt.codec cut (ascii id) v with
    | .ok q => (.ok (), q)
    | .error (err, q) => (.error (.queue err), q)
  else (.error .marshal, q)

/-- What one ingest draws: the event's id and time, the times of each local delivery, and the
writes that fail. -/
structure Draws where
  event : Choice
  delivery : Nat → Choice
  spoolCut : Option Queue.Cut := none
  deliveryCut : Nat → Option Queue.Cut := fun _ => none

def ingestedEvent (cfg : Config) (choice : Choice) (call : Ingest) : Event :=
  let eventTime := if call.eventTime = 0 then choice.now else call.eventTime
  { id := choice.id, siteID := cfg.siteID, topic := call.topic, payload := call.payload,
    headers := call.headers, eventTime, createdAt := eventTime }

def routed (env : Env) (cfg : Config) (draws : Draws) (ev : Event) (index : Nat) (rt : LocalRoute) :
    Except String (Option Delivery) :=
  if Router.isMatch rt.topic ev.topic then
    match env.apply rt ev.topic ev.payload (mergeHeaders ev.headers rt.headers) with
    | .error text => .error text
    | .ok none => .ok none
    | .ok (some applied) => .ok (some (localDelivery env cfg (draws.delivery index) ev index rt applied))
  else .ok none

def deliverLocally (env : Env) (cfg : Config) (fmt : Format Delivery) (draws : Draws) (ev : Event) :
    Nat → List LocalRoute → Queue Delivery → Except IngestError Unit × Queue Delivery
  | _, [], q => (.ok (), q)
  | index, rt :: rest, q =>
    match routed env cfg draws ev index rt with
    | .error text => (.error (.transform text), q)
    | .ok none => deliverLocally env cfg fmt draws ev (index + 1) rest q
    | .ok (some d) =>
      match fmt.put (draws.deliveryCut index) q d.id d with
      | (.error err, q) => (.error err, q)
      | (.ok (), q) => deliverLocally env cfg fmt draws ev (index + 1) rest q

def ingestWithTime (env : Env) (cfg : Config) (events : Format Event) (deliveries : Format Delivery)
    (draws : Draws) (edge : Edge) (call : Ingest) : Except IngestError String × Edge :=
  if call.topic = "" ∨ call.payload.text = "" then (.error .required, edge)
  else
    let ev := ingestedEvent cfg draws.event call
    match events.put draws.spoolCut edge.spool ev.id ev with
    | (.error err, spool) => (.error err, { edge with spool })
    | (.ok (), spool) =>
      match deliverLocally env cfg deliveries draws ev 0 cfg.localRoutes edge.localDeliveries with
      | (.error err, localDeliveries) => (.error err, { spool, localDeliveries })
      | (.ok (), localDeliveries) => (.ok ev.id, { spool, localDeliveries })

section

variable {T : Type} {q : Queue T} {id : String}

def HasRoom (codec : Codec T) (q : Queue T) (values : List T) : Prop :=
  (q.settings.maxItems > 0 → (q.items.size : Int) + values.length ≤ q.settings.maxItems) ∧
    (q.settings.maxBytes > 0 → q.bytes + (values.map (Queue.size codec)).sum ≤ q.settings.maxBytes)

theorem overLimit_iff_hasRoom (codec : Codec T) (q : Queue T) (v : T) :
    q.overLimit q.settings 1 (Queue.size codec v) = true ↔ ¬ HasRoom codec q [v] := by
  simp only [Queue.Contents.overLimit, HasRoom, Bool.or_eq_true, Bool.and_eq_true, decide_eq_true_eq, length_cons,
    length_nil, map_cons, map_nil, sum_cons, sum_nil]
  omega

theorem Format.put_reject (fmt : Format T) (cut : Option Queue.Cut) (v : T)
    (hpolicy : q.settings.policy = .reject) (hfresh : ascii id ∉ q.items) :
    (id ≠ "" ∧ fmt.valid v = true ∧ HasRoom fmt.codec q [v] ∧ Queue.Cut.here cut = none ∧
      ∃ q', fmt.put cut q id v = (.ok (), q') ∧ q'.settings = q.settings ∧
        (q'.items.size : Int) = q.items.size + 1 ∧ q'.bytes = q.bytes + Queue.size fmt.codec v ∧
        ∀ key, key ∈ q'.items ↔ key = ascii id ∨ key ∈ q.items) ∨
    ¬ (id ≠ "" ∧ fmt.valid v = true ∧ HasRoom fmt.codec q [v] ∧ Queue.Cut.here cut = none) ∧
      ∃ err q', fmt.put cut q id v = (.error err, q') := by
  unfold Format.put
  by_cases hid : id = ""
  · exact .inr ⟨fun h => h.1 hid, _, _, if_pos hid⟩
  rw [if_neg hid]
  by_cases hvalid : fmt.valid v = true
  swap
  · exact .inr ⟨fun h => hvalid h.2.1, _, _, if_neg hvalid⟩
  rw [if_pos hvalid]
  have hkey : ascii id ≠ [] := by
    intro hnil
    apply hid
    rw [ascii, map_eq_nil_iff] at hnil
    exact String.toList_eq_nil_iff.mp hnil
  have hroom := overLimit_iff_hasRoom fmt.codec q v
  unfold Queue.put Queue.makeRoom
  rw [if_neg hkey, Queue.addItems_fresh hfresh, Queue.addBytes_fresh hfresh, Queue.bytesOf_fresh hfresh, hpolicy]
  by_cases hover : q.overLimit q.settings 1 (Queue.size fmt.codec v) = true
  · refine .inr ⟨fun h => hroom.mp hover h.2.2.1, .queue .full, q, ?_⟩
    rw [if_pos hover]
  rw [if_neg hover]
  dsimp only
  cases hcut : Queue.Cut.here cut with
  | some written =>
    refine .inr ⟨fun h => ?_, _, _, rfl⟩
    cases h.2.2.2
  | none =>
    obtain ⟨q₁, happend⟩ := Queue.exists_appendLocked fmt.codec { q with toContents := q.bump }
      (Queue.putRecord fmt.codec (ascii id) q.bump.seq v)
    obtain ⟨hcontents, hsettings⟩ := Queue.appendLocked_ok happend
    refine .inl ⟨hid, hvalid, not_not.mp (mt hroom.mpr hover), rfl, ?_⟩
    rw [happend]
    refine ⟨_, rfl, hsettings, ?_, ?_, ?_⟩
    · simp only [Queue.Contents.set, hcontents, Queue.Contents.bump, size_put, if_neg hfresh]
    · simp only [Queue.Contents.set, hcontents, Queue.Contents.bump, Int.sub_zero]
      rfl
    · intro key
      simp only [Queue.Contents.set, hcontents, Queue.Contents.bump, mem_put]

end

section

variable {env : Env} {cfg : Config} {fmt : Format Delivery} {draws : Draws} {ev : Event}

/-- The deliveries that the routes make of an event, each with the index of its route; an error
when a transform fails. -/
def deliveriesOf (env : Env) (cfg : Config) (draws : Draws) (ev : Event) :
    Nat → List LocalRoute → Except String (List (Nat × Delivery))
  | _, [] => .ok []
  | index, rt :: rest =>
    match routed env cfg draws ev index rt with
    | .error text => .error text
    | .ok none => deliveriesOf env cfg draws ev (index + 1) rest
    | .ok (some d) => (deliveriesOf env cfg draws ev (index + 1) rest).map ((index, d) :: ·)

def Storable (fmt : Format Delivery) (draws : Draws) (q : Queue Delivery) (made : List (Nat × Delivery)) : Prop :=
  (∀ d ∈ made, d.2.id ≠ "" ∧ fmt.valid d.2 = true ∧ Queue.Cut.here (draws.deliveryCut d.1) = none) ∧
    (made = [] ∨ HasRoom fmt.codec q (made.map Prod.snd))

variable {q q' : Queue Delivery} {d : Nat × Delivery}

theorem storable_cons (made : List (Nat × Delivery))
    (hsettings : q'.settings = q.settings) (hsize : (q'.items.size : Int) = q.items.size + 1)
    (hbytes : q'.bytes = q.bytes + Queue.size fmt.codec d.2)
    (hd : d.2.id ≠ "" ∧ fmt.valid d.2 = true ∧ Queue.Cut.here (draws.deliveryCut d.1) = none)
    (hroom : HasRoom fmt.codec q [d.2]) :
    Storable fmt draws q (d :: made) ↔ Storable fmt draws q' made := by
  unfold Storable
  rw [forall_mem_cons, and_iff_right hd]
  refine and_congr_right fun _ => ?_
  cases made with
  | nil => simp [hroom]
  | cons d' made =>
    simp only [HasRoom, hsettings, hsize, hbytes, reduceCtorEq, false_or, map_cons, sum_cons,
      length_cons]
    omega

theorem Storable.first {made : List (Nat × Delivery)} (h : Storable fmt draws q (d :: made)) :
    (d.2.id ≠ "" ∧ fmt.valid d.2 = true ∧ Queue.Cut.here (draws.deliveryCut d.1) = none) ∧
      HasRoom fmt.codec q [d.2] := by
  obtain ⟨heach, hroom⟩ := h
  refine ⟨heach d mem_cons_self, ?_⟩
  have hsum : 0 ≤ ((made.map Prod.snd).map (Queue.size fmt.codec)).sum := by
    apply sum_nonneg
    intro n hn
    obtain ⟨v, -, rfl⟩ := List.mem_map.mp hn
    exact Int.natCast_nonneg _
  have hroom := hroom.resolve_left (cons_ne_nil _ _)
  simp only [HasRoom, map_cons, sum_cons, length_cons, map_nil, sum_nil, length_nil]
    at hroom ⊢
  omega

/-- The ids that `count` routes from `start` on give the deliveries of one event differ, and none is
in the queue yet. -/
def FreshIDs (env : Env) (id : String) (start count : Nat) (q : Queue Delivery) : Prop :=
  (∀ i j, start ≤ i → i < j → j < start + count → ascii (env.localDeliveryID id i) ≠ ascii (env.localDeliveryID id j)) ∧
    ∀ i, start ≤ i → i < start + count → ascii (env.localDeliveryID id i) ∉ q.items

theorem FreshIDs.later {id : String} {start count : Nat} (h : FreshIDs env id start (count + 1) q) :
    FreshIDs env id (start + 1) count q := by
  constructor
  · intro i j hi hij hj
    exact h.1 i j (by omega) hij (by omega)
  · intro i hi hlt
    exact h.2 i (by omega) (by omega)

theorem FreshIDs.put {id : String} {start count : Nat} (h : FreshIDs env id start (count + 1) q)
    (hmem : ∀ key, key ∈ q'.items ↔ key = ascii (env.localDeliveryID id start) ∨ key ∈ q.items) :
    FreshIDs env id (start + 1) count q' := by
  refine ⟨h.later.1, fun i hi hlt hin => ?_⟩
  rcases (hmem _).mp hin with heq | hin
  · exact h.1 start i le_rfl (by omega) (by omega) heq.symm
  · exact h.later.2 i hi hlt hin

theorem routed_id {index : Nat} {rt : LocalRoute} {d : Delivery} (h : routed env cfg draws ev index rt = .ok (some d)) :
    d.id = env.localDeliveryID ev.id index := by
  unfold routed at h
  split at h
  · split at h <;> cases h
    rfl
  · cases h

/-- The loop over the routes returns nil exactly when every transform succeeds and the queue takes
every delivery. -/
theorem deliverLocally_ok_iff (cfg : Config) (fmt : Format Delivery) (draws : Draws) (ev : Event)
    (index : Nat) (routes : List LocalRoute)
    (q : Queue Delivery) (hpolicy : q.settings.policy = .reject) (hfresh : FreshIDs env ev.id index routes.length q) :
    (deliverLocally env cfg fmt draws ev index routes q).1 = .ok () ↔
      ∃ made, deliveriesOf env cfg draws ev index routes = .ok made ∧ Storable fmt draws q made := by
  induction routes generalizing index q with
  | nil => simp [deliverLocally, deliveriesOf, Storable]
  | cons rt rest ih =>
    unfold deliverLocally deliveriesOf
    cases hrouted : routed env cfg draws ev index rt with
    | error text => simp
    | ok made =>
      cases made with
      | none => exact ih (index + 1) q hpolicy hfresh.later
      | some d =>
        dsimp only
        have hid := routed_id hrouted
        have hnew : ascii d.id ∉ q.items := hid ▸ hfresh.2 index le_rfl (Nat.lt_add_of_pos_right (Nat.succ_pos _))
        rcases Format.put_reject fmt (draws.deliveryCut index) d hpolicy hnew with
          ⟨hne, hvalid, hroom, hcut, q', hput, hsettings, hsize, hbytes, hmem⟩ | ⟨hnot, err, q', hput⟩
        · rw [hput]
          refine (ih (index + 1) q' (hsettings ▸ hpolicy) (hfresh.put (hid ▸ hmem))).trans ?_
          have hcons (made) : Storable fmt draws q ((index, d) :: made) ↔ Storable fmt draws q' made :=
            storable_cons made hsettings hsize hbytes ⟨hne, hvalid, hcut⟩ hroom
          cases deliveriesOf env cfg draws ev (index + 1) rest with
          | error text => simp [Except.map]
          | ok made => simp [Except.map, hcons]
        · rw [hput]
          refine iff_of_false nofun ?_
          rintro ⟨made, hmade, hstorable⟩
          cases hrest : deliveriesOf env cfg draws ev (index + 1) rest with
          | error text =>
            rw [hrest] at hmade
            cases hmade
          | ok more =>
            rw [hrest] at hmade
            cases hmade
            obtain ⟨⟨hne, hvalid, hcut⟩, hroom⟩ := hstorable.first
            exact hnot ⟨hne, hvalid, hroom, hcut⟩

end

section

variable {env : Env} {cfg : Config} {events : Format Event} {deliveries : Format Delivery} {draws : Draws}
  {edge : Edge} {call : Ingest}

def Edge.NothingNew (edge edge' : Edge) : Prop :=
  edge'.spool.Part edge.spool ∧ edge'.localDeliveries.Part edge.localDeliveries

def Atomic (env : Env) (cfg : Config) (events : Format Event) (deliveries : Format Delivery) (draws : Draws)
    (edge : Edge) (call : Ingest) : Prop :=
  ∀ err, (ingestWithTime env cfg events deliveries draws edge call).1 = .error err →
    edge.NothingNew (ingestWithTime env cfg events deliveries draws edge call).2

/-- The call stops before the local routes: something is missing, or the spool refuses the event. -/
def Declined (cfg : Config) (events : Format Event) (draws : Draws) (edge : Edge) (call : Ingest) : Prop :=
  call.topic = "" ∨ call.payload.text = "" ∨ draws.event.id = "" ∨
    events.valid (ingestedEvent cfg draws.event call) = false ∨
    ∃ failed, edge.spool.put events.codec draws.spoolCut (ascii draws.event.id)
      (ingestedEvent cfg draws.event call) = .error failed

/-- The local routes run through: every transform succeeds, and the queue takes every delivery. -/
def Delivered (env : Env) (cfg : Config) (deliveries : Format Delivery) (draws : Draws) (edge : Edge)
    (call : Ingest) : Prop :=
  ∃ made, deliveriesOf env cfg draws (ingestedEvent cfg draws.event call) 0 cfg.localRoutes = .ok made ∧
    Storable deliveries draws edge.localDeliveries made

theorem Edge.nothingNew_refl (edge : Edge) : edge.NothingNew edge := ⟨fun _ _ h => h, fun _ _ h => h⟩

theorem ingestWithTime_spool (env : Env) (cfg : Config) (events : Format Event) (deliveries : Format Delivery)
    (draws : Draws) (edge : Edge) (call : Ingest) :
    (Declined cfg events draws edge call ∧
      edge.NothingNew (ingestWithTime env cfg events deliveries draws edge call).2) ∨
    ¬ Declined cfg events draws edge call ∧
      ∃ spool, spool.get (ascii draws.event.id) = some (ingestedEvent cfg draws.event call) ∧
        ingestWithTime env cfg events deliveries draws edge call =
          match deliverLocally env cfg deliveries draws (ingestedEvent cfg draws.event call) 0 cfg.localRoutes
            edge.localDeliveries with
          | (.error err, localDeliveries) => (.error err, { spool, localDeliveries })
          | (.ok (), localDeliveries) => (.ok draws.event.id, { spool, localDeliveries }) := by
  unfold ingestWithTime Declined
  by_cases hrequired : call.topic = "" ∨ call.payload.text = ""
  · rw [if_pos hrequired]
    exact .inl ⟨by tauto, edge.nothingNew_refl⟩
  rw [if_neg hrequired]
  rw [not_or] at hrequired
  have hid : (ingestedEvent cfg draws.event call).id = draws.event.id := rfl
  simp only [hid, Format.put]
  by_cases hempty : draws.event.id = ""
  · rw [if_pos hempty]
    exact .inl ⟨by tauto, edge.nothingNew_refl⟩
  rw [if_neg hempty]
  cases hvalid : events.valid (ingestedEvent cfg draws.event call) with
  | false => exact .inl ⟨by tauto, edge.nothingNew_refl⟩
  | true =>
    cases hput : edge.spool.put events.codec draws.spoolCut (ascii draws.event.id)
        (ingestedEvent cfg draws.event call) with
    | error failed =>
      refine .inl ⟨by tauto, Queue.part_of_put_error hput, ?_⟩
      exact fun _ _ h => h
    | ok spool =>
      refine .inr ⟨?_, spool, Queue.get_of_put hput, rfl⟩
      simp [hrequired, hempty]

theorem atomic_of_declined (deliveries : Format Delivery) (h : Declined cfg events draws edge call) :
    Atomic env cfg events deliveries draws edge call := by
  intro err _
  rcases ingestWithTime_spool env cfg events deliveries draws edge call with ⟨-, hnothing⟩ | ⟨hnot, -⟩
  · exact hnothing
  · exact absurd h hnot

theorem atomic_iff_of_spooled (hnew : ascii draws.event.id ∉ edge.spool.items)
    (h : ¬ Declined cfg events draws edge call) :
    Atomic env cfg events deliveries draws edge call ↔
      (deliverLocally env cfg deliveries draws (ingestedEvent cfg draws.event call) 0 cfg.localRoutes
        edge.localDeliveries).1 = .ok () := by
  rcases ingestWithTime_spool env cfg events deliveries draws edge call with ⟨hdeclined, -⟩ | ⟨-, spool, hspool, hcall⟩
  · exact absurd hdeclined h
  unfold Atomic
  rw [hcall]
  generalize deliverLocally env cfg deliveries draws (ingestedEvent cfg draws.event call) 0 cfg.localRoutes
    edge.localDeliveries = outcome
  obtain ⟨result, localDeliveries⟩ := outcome
  cases result with
  | ok u => simp
  | error err =>
    refine iff_of_false (fun hatomic => hnew ?_) nofun
    obtain ⟨entry, hentry, -⟩ := Option.map_eq_some_iff.mp hspool
    rw [mem_iff_get?, (hatomic err rfl).1 _ _ hentry]
    rfl

/-- An ingest is atomic exactly when it stops before the local routes or passes through all of
them.  The id that `localID` draws and the hashes made from it are new. -/
theorem ingestWithTime_atomic_iff (env : Env) (cfg : Config) (events : Format Event) (deliveries : Format Delivery)
    (draws : Draws) (edge : Edge) (call : Ingest) (hpolicy : edge.localDeliveries.settings.policy = .reject)
    (hnew : ascii draws.event.id ∉ edge.spool.items)
    (hfresh : FreshIDs env draws.event.id 0 cfg.localRoutes.length edge.localDeliveries) :
    Atomic env cfg events deliveries draws edge call ↔
      Declined cfg events draws edge call ∨ Delivered env cfg deliveries draws edge call := by
  by_cases hdeclined : Declined cfg events draws edge call
  · exact iff_of_true (atomic_of_declined deliveries hdeclined) (.inl hdeclined)
  · rw [or_iff_right hdeclined]
    exact (atomic_iff_of_spooled hnew hdeclined).trans
      (deliverLocally_ok_iff cfg deliveries draws _ 0 cfg.localRoutes edge.localDeliveries hpolicy hfresh)

/-- The hashes of the local deliveries are words of different lengths. -/
noncomputable def countingEnv : Env :=
  { plainEnv with localDeliveryID := fun _ index => String.ofList (List.replicate (index + 1) 'd') }

def routedConfig : Config := { someConfig with localRoutes := [{ topic := "#", targetURL := "http://plc/in" }] }

def reading : Ingest := { topic := "line/1", payload := ⟨"21"⟩, eventTime := 1 }

def readingDraws : Draws where
  event := { id := "ev", now := 1 }
  delivery _ := { now := 1, later := 1 }

def readingEvent : Event := ingestedEvent routedConfig readingDraws.event reading

noncomputable def readingDelivery : Delivery :=
  localDelivery countingEnv routedConfig (readingDraws.delivery 0) readingEvent 0
    { topic := "#", targetURL := "http://plc/in" } ⟨"line/1", ⟨"21"⟩, mergeHeaders ∅ ∅⟩

noncomputable def readingEvents : Format Event where
  codec := .ofCountable readingEvent
  valid _ := true

noncomputable def readingDeliveries : Format Delivery where
  codec := .ofCountable readingDelivery
  valid _ := true

def emptyEdge : Edge where
  spool := { settings := ⟨1000000, 2 * 2 ^ 30, .reject⟩ }
  localDeliveries := { settings := ⟨100000, 2 * 2 ^ 30 / 10, .reject⟩ }

theorem freshIDs_counting (id : String) (start count : Nat) {q : Queue Delivery} (h : q.items = .empty) :
    FreshIDs countingEnv id start count q := by
  constructor
  · intro i j _ hij _ heq
    have hlength := congrArg List.length heq
    simp only [ascii, countingEnv, String.toList_ofList, length_map, length_replicate] at hlength
    omega
  · intro i _ _
    rw [h]
    exact not_mem_empty _

theorem deliveriesOf_reading :
    deliveriesOf countingEnv routedConfig readingDraws readingEvent 0 routedConfig.localRoutes =
      .ok [(0, readingDelivery)] := by
  have hmatch : Router.isMatch "#" "line/1" = true := by decide
  simp only [routedConfig, deliveriesOf, routed, readingEvent, ingestedEvent, reading, hmatch]
  rfl

theorem ingestWithTime_atomic_reading :
    emptyEdge.localDeliveries.settings.policy = .reject ∧ ascii "ev" ∉ emptyEdge.spool.items ∧
      Atomic countingEnv routedConfig readingEvents readingDeliveries readingDraws emptyEdge reading := by
  have hnew : ascii "ev" ∉ emptyEdge.spool.items := not_mem_empty _
  refine ⟨rfl, hnew, ?_⟩
  refine (ingestWithTime_atomic_iff countingEnv routedConfig readingEvents readingDeliveries readingDraws emptyEdge
    reading rfl hnew (freshIDs_counting _ _ _ rfl)).mpr (.inr ⟨_, deliveriesOf_reading, ?_, .inr ?_⟩)
  · intro d hd
    rw [mem_singleton.mp hd]
    exact ⟨by decide, rfl, rfl⟩
  · simp only [HasRoom, readingDeliveries, Queue.size, map_cons, map_nil, Codec.marshal_ofCountable_zero]
    decide

/-- The disk is full once the event is in the spool: the write of the local delivery fails. -/
def fullDisk : Draws := { readingDraws with deliveryCut := fun _ => some ⟨0, 0⟩ }

theorem not_declined_full : ¬ Declined routedConfig readingEvents fullDisk emptyEdge reading := by
  have hroom : HasRoom readingEvents.codec emptyEdge.spool [readingEvent] := by
    simp only [HasRoom, readingEvents, Queue.size, map_cons, map_nil, Codec.marshal_ofCountable_zero]
    decide
  have hnew : ascii "ev" ∉ emptyEdge.spool.items := not_mem_empty _
  rcases Format.put_reject readingEvents none readingEvent rfl hnew with ⟨-, -, -, -, q, hput, -⟩ | ⟨hnot, -⟩
  · rintro (h | h | h | h | ⟨failed, h⟩)
    · exact absurd h (by decide)
    · exact absurd h (by decide)
    · exact absurd h (by decide)
    · cases h
    · have hvalid : readingEvents.valid readingEvent = true := rfl
      have hrefused : emptyEdge.spool.put readingEvents.codec none (ascii "ev") readingEvent = .error failed := h
      rw [Format.put, if_neg (by decide), if_pos hvalid, hrefused] at hput
      cases hput
  · exact absurd ⟨by decide, rfl, hroom, rfl⟩ hnot

/-- The caller is told that the ingest failed, and the spool has the event. -/
theorem ingestWithTime_not_atomic_full :
    ¬ Atomic countingEnv routedConfig readingEvents readingDeliveries fullDisk emptyEdge reading := by
  have hnew : ascii "ev" ∉ emptyEdge.spool.items := not_mem_empty _
  rw [atomic_iff_of_spooled hnew not_declined_full, deliverLocally_ok_iff routedConfig readingDeliveries fullDisk _ 0
    routedConfig.localRoutes emptyEdge.localDeliveries rfl (freshIDs_counting _ _ _ rfl)]
  rintro ⟨made, hmade, hstorable, -⟩
  have hsame : made = [(0, readingDelivery)] := Except.ok.inj (hmade.symm.trans deliveriesOf_reading)
  subst hsame
  cases (hstorable _ mem_cons_self).2.2

end

end Nodra.Agent
