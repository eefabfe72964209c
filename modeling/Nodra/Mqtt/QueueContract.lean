import Nodra.Mqtt.QueueLifecycle

/-! What the threads of the broker leave to each other of the queues.  A connection counts on the
numbers that it has taken, and on the queue that it replays. -/
namespace Nodra.Mqtt
open Lines Router Std Interleave Program List

section

def Observation.mark : Observation → Option Nat
  | .leaving conn | .deleted conn _ _ | .discarding conn _ _ | .discarded conn _ => some conn
  | _ => none

variable {o : Observation} {os : List Observation} {other : Nat}

theorem Observation.author_of_mark {conn : Nat} (h : o.mark = some conn) :
    o.author = some conn := by
  cases o with
  | leaving conn' => exact h
  | deleted conn' i entry => exact h
  | discarding conn' clientID found => exact h
  | discarded conn' clientID => exact h
  | _ => cases h

def Holding (h : List Observation) (conn i : Nat) : Prop :=
  .leaving conn ∉ h ∧ ∃ entries entry, .listed conn i entries ∈ h ∧ entry ∈ entries ∧
    .queued i entry ∉ h ∧ .deleted conn i entry ∉ h

def Observation.Finished (h : List Observation) (clientID : String) : Observation → Prop
  | .discarding conn other _ => other = clientID → .discarded conn clientID ∈ h
  | _ => True

/-- The replay of a session, if it is one, has nothing left of what was queued before the session
was opened. -/
def Observation.Replayed (h : List Observation) (i : Nat) : Observation → Prop
  | .listed conn j entries => j = i → .leaving conn ∈ h ∨
    ∀ entry ∈ entries, .queued i entry ∈ h ∨ .deleted conn i entry ∈ h
  | _ => True

instance (h : List Observation) (clientID : String) (o : Observation) : Decidable (o.Finished h clientID) := by
  unfold Observation.Finished
  split <;> infer_instance

instance (h : List Observation) (i : Nat) (o : Observation) : Decidable (o.Replayed h i) := by
  unfold Observation.Replayed
  split <;> infer_instance

/-- A session is not opened while the client id is being discarded, and no message is put into a
queue whose older messages are being replayed. -/
def OrderlyQueues (label : Label) (b : Broker) : Prop :=
  match label.point with
  | .resume clientID => b.sessions.get? clientID = none →
    ∀ o ∈ recent b.history, o.Finished (recent b.history) clientID
  | .put i => ∀ o ∈ b.history, o.Replayed b.history i
  | _ => True

instance (label : Label) (b : Broker) : Decidable (OrderlyQueues label b) := by
  unfold OrderlyQueues
  exact match label.point with
    | .accept | .read _ | .write .. | .handle _ | .resume _ | .publish _ | .put _ | .delete _ | .leave | .client _
    | .step => inferInstance

def Marked (b : Broker) : Prop := ∀ o ∈ b.history, ∀ conn ∈ o.mark, conn ∈ b.known

structure Still (conn : Nat) (b b' : Broker) : Prop where
  history : ∃ os, b'.history = b.history ++ os ∧ ∀ o ∈ os, o ≠ .restarted ∧ o.mark ≠ some conn
  known : ∀ other ∈ b.known, other ∈ b'.known
  session : (b'.client conn).session = (b.client conn).session
  nextSession : b.nextSession ≤ b'.nextSession
  clientID : ∀ i < b.nextSession, (b'.session i).clientID = (b.session i).clientID
  closed : ∀ i < b.nextSession, (b.session i).closed = true → (b'.session i).closed = true
  inherited : ∀ i < b.nextSession, ∀ entry, Inherited b'.history i entry → Inherited b.history i entry
  written : ∀ clientID entry, Written b clientID entry → Written b' clientID entry

structure Rest (conn : Nat) (b b' : Broker) : Prop extends Still conn b b' where
  numbers : ∀ call i number, call.conn = conn → .reserved call i number ∈ b.history → ∀ entry,
    .queued i entry ∈ b'.history → entry.msg.id = "m" ++ toString number → .queued i entry ∈ b.history
  held : ∀ i, Holding b.history conn i → ∀ entry, .queued i entry ∈ b'.history → .queued i entry ∈ b.history

def queueContract : Contract Label Broker Choice where
  inv := fun b => Keyed b ∧ Marked b
  rely := fun label => Rest label.conn
  guar := fun label _ b b' => (∀ other ∈ b.known, other ∈ b'.known) ∧ ∀ other ≠ label.conn, Rest other b b'
  enabled := fun label _ b => OrderlyQueues label b

variable {b b' b'' : Broker} {conn i : Nat}

theorem Still.later (h : Still conn b b') (ho : o ∈ b.history) : o ∈ b'.history := by
  obtain ⟨os, hhistory, -⟩ := h.history
  exact hhistory ▸ mem_append_left os ho

theorem Still.own (h : Still conn b b') (hmark : o.mark = some conn) (ho : o ∈ b'.history) :
    o ∈ b.history := by
  obtain ⟨os, hhistory, hos⟩ := h.history
  rw [hhistory] at ho
  exact (mem_append.mp ho).resolve_right fun hnew => (hos o hnew).2 hmark

theorem Still.refl (conn : Nat) (b : Broker) : Still conn b b :=
  ⟨⟨[], by simp, nofun⟩, fun _ h => h, rfl, le_rfl, fun _ _ => rfl, fun _ _ h => h, fun _ _ _ h => h, fun _ _ h => h⟩

theorem Still.trans (h : Still conn b b') (h' : Still conn b' b'') : Still conn b b'' where
  history := by
    obtain ⟨os, hhistory, hos⟩ := h.history
    obtain ⟨os', hhistory', hos'⟩ := h'.history
    refine ⟨os ++ os', by rw [hhistory', hhistory, append_assoc], fun o ho => ?_⟩
    exact (mem_append.mp ho).elim (hos o) (hos' o)
  known := fun other ho => h'.known other (h.known other ho)
  session := h'.session.trans h.session
  nextSession := h.nextSession.trans h'.nextSession
  clientID := fun i hi => (h'.clientID i (hi.trans_le h.nextSession)).trans (h.clientID i hi)
  closed := fun i hi hclosed => h'.closed i (hi.trans_le h.nextSession) (h.closed i hi hclosed)
  inherited := fun i hi entry hentry => h.inherited i hi entry (h'.inherited i (hi.trans_le h.nextSession) entry hentry)
  written := fun clientID entry hwritten => h'.written clientID entry (h.written clientID entry hwritten)

theorem Holding.rest (hold : Holding b.history conn i) (h : Rest conn b b') : Holding b'.history conn i := by
  obtain ⟨hstays, entries, entry, hlisted, hentry, hqueued, hdeleted⟩ := hold
  have hhold : Holding b.history conn i := ⟨hstays, entries, entry, hlisted, hentry, hqueued, hdeleted⟩
  refine ⟨fun hmem => hstays (h.own rfl hmem), entries, entry, h.later hlisted, hentry, ?_, ?_⟩
  · exact fun hmem => hqueued (h.held i hhold entry hmem)
  · exact fun hmem => hdeleted (h.own rfl hmem)

theorem Rest.refl (conn : Nat) (b : Broker) : Rest conn b b :=
  ⟨.refl conn b, fun _ _ _ _ _ _ h _ => h, fun _ _ _ h => h⟩

theorem Rest.trans (h : Rest conn b b') (h' : Rest conn b' b'') : Rest conn b b'' where
  toStill := h.toStill.trans h'.toStill
  numbers := fun call i number hcall hreserved entry hentry hid =>
    h.numbers call i number hcall hreserved entry
      (h'.numbers call i number hcall (h.later hreserved) entry hentry hid) hid
  held := fun i hold entry hentry => h.held i hold entry (h'.held i (hold.rest h) entry hentry)

theorem Confined.still (h : Confined conn b b') (hb : Keyed b)
    (hhistory : b'.history = b.history ++ os) (hmark : ∀ o ∈ os, o.mark ≠ some other)
    (hopened : ∀ j < b.nextSession, ∀ entries, .opened j entries ∉ os)
    (hsession : (b'.client other).session = (b.client other).session) : Still other b b' where
  history := by
    obtain ⟨os', hhistory', hos'⟩ := h.history
    obtain rfl : os = os' := append_cancel_left (hhistory.symm.trans hhistory')
    exact ⟨os, hhistory, fun o ho => ⟨(hos' o ho).1, hmark o ho⟩⟩
  known := h.known
  session := hsession
  nextSession := h.nextSession
  clientID := h.clientID
  closed := h.closed
  inherited := by
    intro j hj entry hentry
    rw [hhistory] at hentry
    exact hentry.of_append (hopened j hj)
  written := fun clientID entry hwritten => hwritten.later hb.numbered h.onward

theorem Confined.mark_ne (h : Confined conn b b')
    (hhistory : b'.history = b.history ++ os) (hne : other ≠ conn) : ∀ o ∈ os, o.mark ≠ some other := by
  obtain ⟨os', hhistory', hos'⟩ := h.history
  obtain rfl : os = os' := append_cancel_left (hhistory.symm.trans hhistory')
  intro o ho hmark
  exact hne ((hos' o ho).2 other (Observation.author_of_mark hmark))

theorem Confined.session_eq (h : Confined conn b b') (hne : other ≠ conn) :
    (b'.client other).session = (b.client other).session := by
  rw [h.client other hne]

theorem Confined.marked (h : Confined conn b b') (hb : Marked b) (hconn : conn ∈ b'.known) : Marked b' := by
  intro o ho other hother
  obtain ⟨os, hhistory, hos⟩ := h.history
  rw [hhistory] at ho
  rcases mem_append.mp ho with hold | hnew
  · exact h.known other (hb o hold other hother)
  · rw [(hos o hnew).2 other (Observation.author_of_mark hother)]
    exact hconn

theorem Still.rest (h : Still conn b b') (hqueued : ∀ i entry, .queued i entry ∈ b'.history → .queued i entry ∈ b.history) :
    Rest conn b b' where
  toStill := h
  numbers := fun _ i _ _ _ entry hentry _ => hqueued i entry hentry
  held := fun i _ entry hentry => hqueued i entry hentry

structure Plain (conn : Nat) (b b' : Broker) : Prop where
  confined : Confined conn b b'
  neutral : ∃ os, Neutral b b' os ∧ ∀ o ∈ os, o.neutral b ∧ o.mark = none

theorem Plain.keyed (h : Plain conn b b') (hb : Keyed b) : Keyed b' := by
  obtain ⟨os, hneutral, hos⟩ := h.neutral
  exact hb.neutral hneutral fun o ho => (hos o ho).1

theorem Plain.marked (h : Plain conn b b') (hb : Marked b) : Marked b' := by
  obtain ⟨os, hneutral, hos⟩ := h.neutral
  intro o ho other hother
  rw [hneutral.history] at ho
  rcases mem_append.mp ho with hold | hnew
  · exact h.confined.known other (hb o hold other hother)
  · rw [(hos o hnew).2] at hother
    cases hother

theorem Plain.rest (h : Plain conn b b') (hb : Keyed b)
    (hsession : (b'.client other).session = (b.client other).session) : Rest other b b' := by
  obtain ⟨os, hneutral, hos⟩ := h.neutral
  refine Still.rest (h.confined.still hb hneutral.history ?_ ?_ hsession) ?_
  · intro o ho
    rw [(hos o ho).2]
    exact Option.some_ne_none other |>.symm
  · exact fun j _ entries hmem => (hos _ hmem).1
  · intro i entry hmem
    rw [hneutral.history] at hmem
    exact (mem_append.mp hmem).resolve_right fun hnew => (hos _ hnew).1

theorem Plain.guar (h : Plain conn b b') (hb : Keyed b) :
    (∀ other ∈ b.known, other ∈ b'.known) ∧ ∀ other ≠ conn, Rest other b b' :=
  ⟨h.confined.known, fun _ hne => h.rest hb (h.confined.session_eq hne)⟩

theorem plain_observe (hos : ∀ o ∈ os, (o ≠ .restarted ∧ ∀ author ∈ o.author, author = conn) ∧
    o.neutral b ∧ o.mark = none) : Plain conn b (b.observe os) where
  confined := (Confined.refl conn b).observe fun o ho => (hos o ho).1
  neutral := ⟨os, ⟨rfl, rfl, rfl, rfl, fun _ => rfl⟩, fun o ho => (hos o ho).2⟩

theorem Plain.of_client (h : Confined conn b b') (hsessions : b'.sessions = b.sessions)
    (hnext : b'.nextSession = b.nextSession) (hdirs : b'.dirs = b.dirs) (hsession : b'.session = b.session)
    (hhistory : b'.history = b.history ++ os)
    (hos : ∀ o ∈ os, o.neutral b ∧ o.mark = none) : Plain conn b b' :=
  ⟨h, os, ⟨hhistory, hsessions, hnext, hdirs, fun _ => by rw [hsession]⟩, hos⟩

theorem plain_of_idle (h : IdleChange b b') :
    Plain conn b b' ∧ (b'.client conn).session = (b.client conn).session := by
  have hconfined : Confined conn b b' := confined_of_idle h
  cases h with
  | none => exact ⟨.of_client hconfined rfl rfl rfl rfl (append_nil _).symm nofun, rfl⟩
  | wrote target reply h => exact ⟨plain_observe (by simp [Observation.author, Observation.neutral, Observation.mark]), rfl⟩
  | outgoing target f h =>
    refine ⟨.of_client hconfined rfl rfl rfl rfl (append_nil _).symm nofun, ?_⟩
    rw [client_setClient]
    split
    · next heq => rw [h, heq]
    · rfl
  | count target now =>
    refine ⟨.of_client hconfined rfl rfl rfl rfl (append_nil _).symm nofun, ?_⟩
    rw [client_setClient]
    split
    · next heq => rw [Client.sameButBooks_count, heq]
    · rfl

theorem plain_of_send {call : Call} {msg : Message} (h : SendChange call msg b b') :
    Plain call.conn b b' ∧ (b'.client call.conn).session = (b.client call.conn).session := by
  cases h with
  | idle h => exact plain_of_idle h
  | _ => exact ⟨plain_observe (by simp [Observation.author, Observation.neutral, Observation.mark]), rfl⟩

theorem plain_of_aside (h : AsideChange conn b b') :
    Plain conn b b' ∧ (b'.client conn).session = (b.client conn).session := by
  have hconfined : Confined conn b b' := confined_of_aside h
  cases h with
  | idle h => exact plain_of_idle h
  | hold pid pending =>
    refine ⟨.of_client hconfined rfl rfl rfl rfl rfl (by simp [Observation.neutral, Observation.mark]), ?_⟩
    rw [Broker.hold, observe_client, client_setClient, if_pos rfl]
  | release index pid =>
    refine ⟨.of_client hconfined rfl rfl rfl rfl rfl (by simp [Observation.neutral, Observation.mark]), ?_⟩
    rw [Broker.release, observe_client, client_setClient, if_pos rfl]
  | _ => exact ⟨plain_observe (by simp [Observation.author, Observation.neutral, Observation.mark]), rfl⟩

end

section

variable {cfg : Config} {b b' : Broker} {conn i : Nat} {α : Type}

abbrev KeepsQueue (post : α → Broker → Prop) (p : Act α) (b : Broker) : Prop := KeepsOk queueContract post p b

variable {p : Act α} {number : Nat} {entry : Queued}

theorem keepsQueue_of_steps {change : Broker → Broker → Prop} (hp : StepsOk (Makes conn change) p)
    (h : ∀ b b', change b b' → Plain conn b b' ∧ (b'.client conn).session = (b.client conn).session) :
    KeepsQueue (fun _ b' => Rest conn b b') p b := by
  apply hp.keeps (Rest.refl conn) (fun _ _ _ => Rest.trans)
  · intro label run s s' hmakes hrely
    exact hmakes.1 ▸ hrely
  · intro label run choice s hmakes hinv _
    obtain ⟨hplain, hsession⟩ := h _ _ (hmakes.2 choice s)
    refine ⟨⟨hplain.keyed hinv.1, hplain.marked hinv.2⟩, ?_, hplain.rest hinv.1 hsession⟩
    rw [← hmakes.1] at hplain
    exact hplain.guar hinv.1

theorem keepsQueue_plain {f : Choice → Broker → Broker × Except Exit α} {point : Point} {post : α → Broker → Prop}
    (h : ∀ b', Rest conn b b' → Keyed b' → ∀ choice, Plain conn b' (f choice b').1 ∧
      ∀ value, (f choice b').2 = .ok value → post value (f choice b').1) :
    KeepsQueue post (act conn f point) b := by
  apply KeepsOk.access
  intro b' hrest hinv choice _
  obtain ⟨hplain, hpost⟩ := h b' hrest hinv.1 choice
  exact ⟨⟨hplain.keyed hinv.1, hplain.marked hinv.2⟩, hplain.guar hinv.1, hpost⟩

theorem keepsQueue_look {f : Broker → α} :
    KeepsQueue (fun value b' => Rest conn b b' ∧ Keyed b' ∧ value = f b') (look conn f) b := by
  refine keepsQueue_plain fun b' hrest hkeyed _ => ⟨(plain_of_idle (.none b')).1, ?_⟩
  rintro _ ⟨⟩
  exact ⟨hrest, hkeyed, rfl⟩

def AllWritten (b : Broker) (i : Nat) : Prop :=
  ∀ entry, Inherited b.history i entry → Written b (b.session i).clientID entry

theorem AllWritten.still (h : AllWritten b i) (hi : i < b.nextSession) (hstill : Still conn b b') :
    AllWritten b' i := by
  intro entry hentry
  rw [hstill.clientID i hi]
  exact hstill.written _ entry (h entry (hstill.inherited i hi entry hentry))

structure Reserved (call : Call) (i number : Nat) (b : Broker) : Prop where
  lt : i < b.nextSession
  written : AllWritten b i
  reserved : .reserved call i number ∈ b.history
  unused : ∀ entry, .queued i entry ∈ b.history → entry.msg.id ≠ "m" ++ toString number

theorem Reserved.rest {call : Call} (h : Reserved call i number b) (hrest : Rest call.conn b b') :
    Reserved call i number b' where
  lt := h.lt.trans_le hrest.nextSession
  written := h.written.still h.lt hrest.toStill
  reserved := hrest.later h.reserved
  unused := by
    intro entry hentry hid
    exact h.unused entry (hrest.numbers call i number rfl h.reserved entry hentry hid) hid

theorem keepsQueue_reserve {call : Call} (hi : i < b.nextSession) (hwritten : AllWritten b i) :
    KeepsQueue (fun id b' => Still call.conn b b' ∧ ∃ number, id = "m" ++ toString number ∧ Reserved call i number b')
      (act call.conn fun _ b =>
        ((b.setSession i fun s => { s with seq := s.seq + 1 }).observe [.reserved call i ((b.session i).seq + 1)],
          .ok ("m" ++ toString ((b.session i).seq + 1)))) b := by
  apply KeepsOk.access
  intro b' hrest hinv choice _
  have hlt : i < b'.nextSession := hi.trans_le hrest.nextSession
  have hstep : Confined call.conn b' ((b'.setSession i fun s => { s with seq := s.seq + 1 }).observe
      [.reserved call i ((b'.session i).seq + 1)]) :=
    Confined.observe (confined_setSession (fun _ => rfl) fun _ h => h) (by simp [Observation.author])
  have hstill (other : Nat) : Still other b' ((b'.setSession i fun s => { s with seq := s.seq + 1 }).observe
      [.reserved call i ((b'.session i).seq + 1)]) :=
    hstep.still hinv.1 rfl (by simp [Observation.mark]) (by simp) rfl
  refine ⟨⟨hinv.1.reserve call hlt, ?_⟩, ⟨hstep.known, fun other _ => (hstill other).rest (by simp)⟩, ?_⟩
  · intro o ho
    rcases mem_append.mp ho with hold | hnew
    · exact hinv.2 o hold
    · cases mem_singleton.mp hnew
      rintro _ ⟨⟩
  rintro _ ⟨⟩
  refine ⟨hrest.toStill.trans (hstill _), _, rfl, hlt, ?_, by simp, ?_⟩
  · exact (hwritten.still hi hrest.toStill).still hlt (hstill call.conn)
  · intro entry hentry hid
    have hold : .queued i entry ∈ b'.history := by simpa using hentry
    obtain ⟨number, hnumber, hid'⟩ := hinv.1.numbered.number i entry hold
    have hle := hinv.1.numbered.seq entry.call i number hnumber
    have heq : number = (b'.session i).seq + 1 := key_injective (hid'.symm.trans hid)
    omega

theorem Reserved.replaces {call : Call} (h : Reserved call i number b) (hb : Keyed b)
    (hopened : (b.session i).closed = false) (hid : entry.msg.id = "m" ++ toString number)
    (hcall : entry.call = call) :
    Replaces b i entry.msg.id (some entry) [.queued i entry] fun items => items.put entry.msg.id entry where
  lt := h.lt
  opened := hopened
  get := fun items id => OrderedMap.get?_put ..
  gone := by
    intro old hget
    rcases (hb.filed i).source _ old hget with hqueued | hinherited
    · exact absurd (((hb.filed i).items _ old hget).trans hid) (h.unused old hqueued)
    · exact h.written old hinherited
  number := by
    rintro _ ⟨⟩
    exact ⟨rfl, fun old hold => hid ▸ h.unused old hold, number, hcall ▸ h.reserved, hid⟩
  queued := by simp [eq_comm]
  rest := by simp [Observation.session?]

theorem keepsQueue_put {call : Call} (h : Reserved call i number b)
    (hid : entry.msg.id = "m" ++ toString number) (hcall : entry.call = call) :
    KeepsQueue (fun _ b' => Still call.conn b b')
      (changeQueue call.conn i (fun items => items.put entry.msg.id entry) (.put i)
        fun ok => if ok then [.queued i entry] else []) b := by
  apply KeepsOk.access
  intro b' hrest hinv choice horderly
  have hreserved := h.rest hrest
  dsimp only
  split
  · rw [if_neg Bool.false_ne_true, observe_nil]
    have hplain : Plain call.conn b' b' := (plain_of_idle (.none b')).1
    exact ⟨hinv, hplain.guar hinv.1, fun _ _ => hrest.toStill⟩
  next hok =>
  rw [if_pos rfl]
  have hopened : (b'.session i).closed = false := by simp_all
  have hstep : Confined call.conn b' ((b'.changeQueue i fun items => items.put entry.msg.id entry).observe
      [.queued i entry]) := Confined.observe confined_changeQueue (by simp [Observation.author, hcall])
  have hstill (other : Nat) : Still other b' ((b'.changeQueue i fun items => items.put entry.msg.id entry).observe
      [.queued i entry]) := hstep.still hinv.1 rfl (by simp [Observation.mark]) (by simp) rfl
  refine ⟨⟨hinv.1.replace (hreserved.replaces hinv.1 hopened hid hcall), ?_⟩, ⟨hstep.known, fun other hne => ?_⟩,
    fun _ _ => hrest.toStill.trans (hstill _)⟩
  · intro o ho
    rcases mem_append.mp ho with hold | hnew
    · exact hinv.2 o hold
    · cases mem_singleton.mp hnew
      rintro _ ⟨⟩
  refine ⟨hstill other, ?_, ?_⟩
  · intro call' j number' hcall' hnumber' entry' hentry' hid'
    rcases mem_append.mp hentry' with hold | hnew
    · exact hold
    -- the number would be one of two calls
    cases mem_singleton.mp hnew
    obtain rfl : number' = number := key_injective (hid'.symm.trans hid)
    have hsame := hinv.1.numbered.unique call' call i number' hnumber' hreserved.reserved
    exact absurd (hcall'.symm.trans (congrArg Call.conn hsame)) hne
  · intro j hholding entry' hentry'
    rcases mem_append.mp hentry' with hold | hnew
    · exact hold
    cases mem_singleton.mp hnew
    obtain ⟨hstays, entries, held, hlisted, hmem, hqueued, hdeleted⟩ := hholding
    have hreplayed : (Observation.listed other i entries).Replayed b'.history i := horderly _ hlisted
    rcases (hreplayed rfl).resolve_left hstays held hmem with hdone | hdone
    · exact absurd hdone hqueued
    · exact absurd hdone hdeleted

theorem keepsQueue_enqueue {call : Call} {topic filter : String} {payload : Bytes} {qos : Nat}
    (hi : i < b.nextSession) (hwritten : AllWritten b i) :
    KeepsQueue (fun _ b' => Still call.conn b b') (enqueue call i topic payload qos filter) b := by
  refine .bind (keepsQueue_reserve hi hwritten) fun id b₁ ⟨h₁, number, hid, hreserved⟩ => ?_
  have hput : KeepsQueue (fun _ b' => Still call.conn b₁ b') (changeQueue call.conn i
      (fun items => items.put id { msg := { id, topic, payload, qos }, filter, call }) (.put i)
      fun ok => if ok then [.queued i { msg := { id, topic, payload, qos }, filter, call }] else []) b₁ :=
    keepsQueue_put hreserved hid rfl
  exact hput.mono fun _ _ h₂ => h₁.trans h₂

theorem keepsQueue_publishQueued {call : Call} {msg : Message} (hi : i < b.nextSession) :
    KeepsQueue (fun _ b' => Still call.conn b b') (publishQueued call msg i) b := by
  refine .bind keepsQueue_look fun live b₁ hlook => .ite (fun _ => .pure hlook.1.toStill) fun _ => ?_
  have h₁ := hlook.1
  have hselect : KeepsQueue (fun found b' => Still call.conn b₁ b' ∧ (found ≠ none → AllWritten b' i))
      (act call.conn fun _ b =>
        (b.observe ((matching msg.topic (b.session i).subs).toList.map (.selected call i)),
          .ok (matching msg.topic (b.session i).subs))) b₁ := by
    refine keepsQueue_plain fun b' hrest hkeyed _ => ?_
    have hplain : Plain call.conn b'
        (b'.observe ((matching msg.topic (b'.session i).subs).toList.map (.selected call i))) := by
      refine plain_observe fun o ho => ?_
      obtain ⟨sub, _, rfl⟩ := List.mem_map.mp ho
      simp [Observation.author, Observation.neutral, Observation.mark]
    have hstill : Still call.conn b' _ := (hplain.rest hkeyed rfl).toStill
    refine ⟨hplain, ?_⟩
    rintro _ ⟨⟩
    refine ⟨hrest.toStill.trans hstill, fun hfound => ?_⟩
    -- a filter matches, so there is one
    have hsome : (b'.session i).subs ≠ [] := by
      intro hnone
      rw [hnone] at hfound
      exact hfound rfl
    have hwritten : AllWritten b' i := (hkeyed.filed i).granted hsome
    exact hwritten.still (hi.trans_le (h₁.trans hrest).nextSession) hstill
  refine .bind hselect fun found b₂ hselected => ?_
  obtain ⟨h₂, hwritten⟩ := hselected
  have h := h₁.toStill.trans h₂
  cases found with
  | none => exact .pure h
  | some sub =>
    exact (keepsQueue_enqueue (hi.trans_le h.nextSession) (hwritten (by simp))).mono fun _ _ h₃ => h.trans h₃

theorem keepsQueue_send {call : Call} {msg : Message}
    (hp : StepsOk (Makes call.conn (SendChange call msg)) p) : KeepsQueue (fun _ b' => Rest call.conn b b') p b :=
  keepsQueue_of_steps hp fun _ _ => plain_of_send

theorem keepsQueue_sessions : KeepsQueue (fun is b' => Still conn b b' ∧ ∀ i ∈ is, i < b'.nextSession)
    (walk conn fun b => b.sessions.values) b := by
  refine keepsQueue_plain fun b' hrest hkeyed choice => ?_
  have hplain : Plain conn b' (b'.observe []) := plain_observe nofun
  refine ⟨hplain, ?_⟩
  rintro _ ⟨⟩
  refine ⟨hrest.toStill.trans (hplain.rest hkeyed rfl).toStill, fun i hi => ?_⟩
  have hmem : i ∈ b'.sessions.values := (choice.shuffle b'.sessions.values).2.mem_iff.mp hi
  obtain ⟨clientID, hget⟩ := OrderedMap.exists_get?_of_mem_values hmem
  exact ((hkeyed.housed clientID).current i hget).lt

theorem keepsQueue_publish {call : Call} {msg : Message} :
    KeepsQueue (fun _ b' => Still call.conn b b') (publish cfg call msg) b := by
  have hstart : StepsOk (Makes call.conn (SendChange call msg))
      (walk call.conn Broker.clients (.publish msg) [.publishing call msg]) := steps_act fun _ b => .publishing b
  have hend : StepsOk (Makes call.conn (SendChange call msg))
      (update call.conn fun b => b.observe [.published call msg]) := steps_act fun _ b => .published b
  refine .bind (keepsQueue_send hstart) fun targets b₁ h₁ => ?_
  refine .bind (keepsQueue_send (.forM fun _ => steps_publishLive)) fun _ b₂ h₂ => ?_
  have hqueues : KeepsQueue (fun _ b' => Still call.conn b₂ b') (if cfg.sessionDir then do
      (← walk call.conn fun b => b.sessions.values).forM (publishQueued call msg) else pure ()) b₂ := by
    refine .ite (fun _ => .bind keepsQueue_sessions fun is b₃ ⟨h₃, his⟩ => ?_) fun _ => .pure (.refl _ b₂)
    have hloop : KeepsQueue (fun _ b' => Still call.conn b₃ b') (is.forM (publishQueued call msg)) b₃ := by
      refine .forM (fun i hi b' hb' => ?_) (.refl _ b₃)
      exact (keepsQueue_publishQueued ((his i hi).trans_le hb'.nextSession)).mono fun _ _ h => hb'.trans h
    exact hloop.mono fun _ _ h₄ => h₃.trans h₄
  refine .bind hqueues fun _ b₃ h₃ => (keepsQueue_send hend).mono fun _ _ h₄ => ?_
  exact ((h₁.trans h₂).toStill.trans h₃).trans h₄.toStill

end

end Nodra.Mqtt
