import Nodra.Mqtt.Broker

/-! What the steps of a connection can change.  One pass over each program says it; an invariant
then has to be checked against the changes, not against the programs. -/
namespace Nodra.Mqtt
open Lines Router Std Interleave Program List

variable {conn i index : Nat} {payload : Bytes} {cfg : Config} {clientID : String} {b : Broker}

def Client.SameButOutgoing (cl cl' : Client) : Prop :=
  cl' = { cl with nextOutID := cl'.nextOutID, qos2Out := cl'.qos2Out }

inductive IdleChange : Broker → Broker → Prop where
  | none (b : Broker) : IdleChange b b
  | wrote (b : Broker) (conn : Nat) (reply : Reply) (h : reply.isAck = false) :
      IdleChange b (b.observe [.wrote conn reply])
  | outgoing (b : Broker) (target : Nat) (f : Client → Client) (h : ∀ cl : Client, cl.SameButOutgoing (f cl)) :
      IdleChange b (b.setClient target f)
  | count (b : Broker) (conn : Nat) (now : Int) : IdleChange b (b.setClient conn (·.count now))

inductive SendChange (call : Call) (msg : Message) : Broker → Broker → Prop where
  | idle {b b' : Broker} (h : IdleChange b b') : SendChange call msg b b'
  | publishing (b : Broker) : SendChange call msg b (b.observe [.publishing call msg])
  | matched (b : Broker) (target : Nat) (sub : Subscription)
      (h : matching msg.topic (b.client target).subs = some sub) :
      SendChange call msg b (b.observe [.matched call target sub])
  | sent (b : Broker) (target pid qos : Nat) (filter : String) :
      SendChange call msg b (b.observe [.wrote target (.publish msg.topic msg.payload qos false pid),
        .sent call target pid filter msg])
  | selected (b : Broker) (i : Nat) (sub : Subscription) (h : matching msg.topic (b.session i).subs = some sub) :
      SendChange call msg b (b.observe [.selected call i sub])
  | published (b : Broker) : SendChange call msg b (b.observe [.published call msg])

inductive PublishChange (call : Call) (msg : Message) : Broker → Broker → Prop where
  | send {b b' : Broker} (h : SendChange call msg b b') : PublishChange call msg b b'
  | reserve (b : Broker) (i : Nat) :
      PublishChange call msg b ((b.setSession i fun s => { s with seq := s.seq + 1 }).observe
        [.reserved call i ((b.session i).seq + 1)])
  | put (b : Broker) (i : Nat) (entry : Queued) (hclosed : (b.session i).closed = false)
      (hcall : entry.call = call) :
      PublishChange call msg b ((b.changeQueue i fun items => items.put entry.msg.id entry).observe
        [.queued i entry])

inductive ReplayChange (conn i : Nat) : Broker → Broker → Prop where
  | idle {b b' : Broker} (h : IdleChange b b') : ReplayChange conn i b b'
  | replayed (b : Broker) (pid : Nat) (entry : Queued) :
      ReplayChange conn i b (b.observe [.wrote conn (.publish entry.msg.topic entry.msg.payload entry.msg.qos
        (entry.msg.qos > 0) pid), .replayed conn i pid entry])
  | listed (b : Broker) : ReplayChange conn i b (b.observe [.listed conn i (b.session i).items.values])
  | kept (b : Broker) (entry : Queued) : ReplayChange conn i b (b.observe [.deleted conn i entry])
  | remove (b : Broker) (entry : Queued) (hclosed : (b.session i).closed = false) :
      ReplayChange conn i b ((b.changeQueue i fun items => items.remove entry.msg.id).observe [.deleted conn i entry])

inductive DiscardChange (conn : Nat) (clientID : String) : Broker → Broker → Prop where
  | none (b : Broker) : DiscardChange conn clientID b b
  | forget (b : Broker) : DiscardChange conn clientID b ({ b with sessions := b.sessions.remove clientID }.observe
      [.discarding conn clientID (b.sessions.get? clientID)])
  | close (b : Broker) (i : Nat) : DiscardChange conn clientID b (b.setSession i fun s => { s with closed := true })
  | delete (b b' : Broker) (h : b' = b ∨ b' = { b with dirs := Function.update b.dirs clientID Option.none }) :
      DiscardChange conn clientID b (b'.observe [.discarded conn clientID])

inductive JoinChange (conn : Nat) (clientID : String) : Broker → Broker → Prop where
  | none (b : Broker) : JoinChange conn clientID b b
  | found (b : Broker) (i : Nat) (h : b.sessions.get? clientID = some i) :
      JoinChange conn clientID b (b.observe [.joining conn i])
  | opened (b : Broker) (h : b.sessions.get? clientID = Option.none) :
      JoinChange conn clientID b ((b.newSession clientID ((b.dirs clientID).getD { inode := b.nextInode })).observe
        [.opened b.nextSession ((b.dirs clientID).getD { inode := b.nextInode }).items.values,
          .joining conn b.nextSession])
  | session (b : Broker) (i : Nat) :
      JoinChange conn clientID b (b.setClient conn fun cl => { cl with session := some i })
  | attach (b : Broker) (i : Nat) :
      JoinChange conn clientID b (b.setSession i fun s => { s with live := some conn })
  | restore (b : Broker) (i : Nat) :
      JoinChange conn clientID b ((b.setClient conn fun cl => { cl with subs := (b.session i).subs }).observe
        [.joined conn i])

inductive ConnectChange (conn : Nat) : Broker → Broker → Prop where
  | idle {b b' : Broker} (h : IdleChange b b') : ConnectChange conn b b'
  | username (b : Broker) (username : String) :
      ConnectChange conn b (b.setClient conn fun cl => { cl with username := some username })
  | discard {b b' : Broker} (clientID : String) (h : DiscardChange conn clientID b b') : ConnectChange conn b b'
  | join {b b' : Broker} (clientID : String) (h : JoinChange conn clientID b b') : ConnectChange conn b b'
  | replay {b b' : Broker} (i : Nat) (h : ReplayChange conn i b b') : ConnectChange conn b b'

/-- What a turn does beside a call of `Publish`: it answers, calls the handler and holds messages back. -/
inductive AsideChange (conn : Nat) : Broker → Broker → Prop where
  | idle {b b' : Broker} (h : IdleChange b b') : AsideChange conn b b'
  | wrote (b : Broker) (reply : Reply) : AsideChange conn b (b.observe [.wrote conn reply])
  | acked (b : Broker) (reply : Reply) (index : Nat) (msg : Message) :
      AsideChange conn b (b.observe [.wrote conn reply, .acked conn index msg])
  | handled (b : Broker) (index : Nat) (msg : Message) (ok : Bool) :
      AsideChange conn b (b.observe [.handled conn index msg ok])
  | hold (b : Broker) (pid : Nat) (pending : Pending) : AsideChange conn b (b.hold conn pid pending)
  | release (b : Broker) (index pid : Nat) : AsideChange conn b (b.release conn index pid)

inductive SubscribeChange (conn : Nat) : Broker → Broker → Prop where
  | idle {b b' : Broker} (h : IdleChange b b') : SubscribeChange conn b b'
  | grant (b : Broker) (granted : List Subscription) :
      SubscribeChange conn b (b.setClient conn fun cl => { cl with subs := cl.subs ++ granted })
  | setSubs (b : Broker) (i : Nat) (all : List Subscription) :
      SubscribeChange conn b ((b.setSession i fun s => { s with subs := all }).observe [.granted i all])

inductive CloseChange (conn : Nat) : Broker → Broker → Prop where
  | none (b : Broker) : CloseChange conn b b
  | leave (b : Broker) :
      CloseChange conn b ((b.setClient conn fun cl => { cl with closed := true }).observe [.leaving conn])
  | erase (b : Broker) : CloseChange conn b { b with clients := b.clients.erase conn }
  | detach (b : Broker) (i : Nat) :
      CloseChange conn b ((b.setSession i fun s =>
        if s.live = some conn then { s with live := Option.none } else s).observe [.left conn i])

inductive AcceptChange (conn : Nat) : Broker → Broker → Prop where
  | none (b : Broker) : AcceptChange conn b b
  | refuse (b : Broker) (h : conn ∉ b.known) : AcceptChange conn b (b.register conn)
  | register (b : Broker) (h : conn ∉ b.known) :
      AcceptChange conn b { b.register conn with clients := conn :: (b.register conn).clients }
  | reserve (b : Broker) (h : conn ∉ b.known) : AcceptChange conn b { b with known := conn :: b.known }

section

@[simp] theorem observe_history (b : Broker) (os : List Observation) : (b.observe os).history = b.history ++ os := rfl

@[simp] theorem observe_known (b : Broker) (os : List Observation) : (b.observe os).known = b.known := rfl

@[simp] theorem observe_clients (b : Broker) (os : List Observation) : (b.observe os).clients = b.clients := rfl

@[simp] theorem observe_client (b : Broker) (os : List Observation) : (b.observe os).client = b.client := rfl

@[simp] theorem observe_sessions (b : Broker) (os : List Observation) : (b.observe os).sessions = b.sessions := rfl

@[simp] theorem observe_session (b : Broker) (os : List Observation) : (b.observe os).session = b.session := rfl

@[simp] theorem observe_nextSession (b : Broker) (os : List Observation) :
    (b.observe os).nextSession = b.nextSession := rfl

@[simp] theorem observe_dirs (b : Broker) (os : List Observation) : (b.observe os).dirs = b.dirs := rfl

@[simp] theorem setSession_history (b : Broker) (i : Nat) (f : PersistentSession → PersistentSession) :
    (b.setSession i f).history = b.history := rfl

@[simp] theorem setClient_history (b : Broker) (conn : Nat) (f : Client → Client) :
    (b.setClient conn f).history = b.history := rfl

@[simp] theorem changeQueue_history (b : Broker) (i : Nat) (f : OrderedMap String Queued → OrderedMap String Queued) :
    (b.changeQueue i f).history = b.history := rfl

theorem client_setClient (b : Broker) (conn : Nat) (f : Client → Client) (other : Nat) :
    (b.setClient conn f).client other = if other = conn then f (b.client conn) else b.client other :=
  Function.update_apply ..

theorem session_setSession (b : Broker) (i : Nat) (f : PersistentSession → PersistentSession) (j : Nat) :
    (b.setSession i f).session j = if j = i then f (b.session i) else b.session j :=
  Function.update_apply ..

theorem session_newSession (b : Broker) (clientID : String) (dir : Dir) (i : Nat) :
    (b.newSession clientID dir).session i =
      if i = b.nextSession then { clientID, items := dir.items, inode := dir.inode } else b.session i :=
  Function.update_apply ..

def Makes (conn : Nat) (change : Broker → Broker → Prop) (label : Label) (run : Choice → Broker → Broker) : Prop :=
  label.conn = conn ∧ ∀ choice b, change b (run choice b)

theorem Makes.mono {change change' : Broker → Broker → Prop}
    (h : ∀ b b', change b b' → change' b b') (label : Label) (run : Choice → Broker → Broker)
    (hmakes : Makes conn change label run) : Makes conn change' label run :=
  ⟨hmakes.1, fun choice b => h _ _ (hmakes.2 choice b)⟩

theorem observe_nil (b : Broker) : b.observe [] = b := by simp [Broker.observe]

variable {α : Type}

variable {point : Point} {topic : String}

theorem steps_act {change : Broker → Broker → Prop} {f : Choice → Broker → Broker × Except Exit α}
    (h : ∀ choice b, change b (f choice b).1) : StepsOk (Makes conn change) (act conn f point) :=
  .access ⟨rfl, h⟩

theorem steps_update {change : Broker → Broker → Prop} {f : Broker → Broker}
    (h : ∀ b, change b (f b)) : StepsOk (Makes conn change) (update conn f point) := steps_act fun _ b => h b

theorem steps_look {f : Broker → α} : StepsOk (Makes conn IdleChange) (look conn f) :=
  steps_act fun _ b => .none b

theorem steps_write {target : Nat} {reply : Reply} (h : reply.isAck = false) :
    StepsOk (Makes conn IdleChange) (write conn target reply []) := by
  refine steps_act fun choice b => ?_
  split
  · exact .none b
  · exact .wrote b target reply h

theorem steps_answer {reply : Reply} (h : reply.isAck = false) :
    StepsOk (Makes conn IdleChange) (answer conn reply []) :=
  .bind (steps_write h) fun _ => .ite .pure .throw

theorem steps_outgoing {target : Nat} {f : Client → Client} (h : ∀ cl : Client, cl.SameButOutgoing (f cl)) :
    StepsOk (Makes conn IdleChange) (update conn fun b => b.setClient target f) :=
  steps_update fun b => .outgoing b target f h

theorem steps_nextOutPacketID {target : Nat} :
    StepsOk (Makes conn IdleChange) (nextOutPacketID conn target) := by
  refine steps_act fun _ b => ?_
  dsimp only
  split
  · exact .none b
  · exact .outgoing b target (fun cl => { cl with nextOutID := _ }) fun _ => rfl

theorem steps_sendPublish {change : Broker → Broker → Prop} {target : Nat}
    {qos : Nat} {dup : Bool} {meaning : Nat → List Observation} (hidle : ∀ b b', IdleChange b b' → change b b')
    (hwrite : ∀ b pid, change b (b.observe (.wrote target (.publish topic payload qos dup pid) :: meaning pid))) :
    StepsOk (Makes conn change) (sendPublish conn target topic payload qos dup meaning) := by
  have houtgoing (f : Client → Client) (h : ∀ cl : Client, cl.SameButOutgoing (f cl)) :
      StepsOk (Makes conn change) (update conn fun b => b.setClient target f) :=
    (steps_outgoing h).mono (Makes.mono hidle)
  refine .bind (.ite (steps_nextOutPacketID.mono (Makes.mono hidle)) .pure) fun pid => ?_
  refine .bind (.ite (houtgoing _ fun _ => rfl) .pure) fun _ => ?_
  refine .bind (steps_act fun choice b => ?_) fun ok => .bind (.ite (houtgoing _ fun _ => rfl) .pure) fun _ => .pure
  split
  · exact hidle _ _ (.none b)
  · exact hwrite b pid

theorem steps_requireAuth {info : ConnectInfo} : StepsOk (Makes conn IdleChange) (requireAuth cfg conn info) :=
  .ite (.bind (steps_write rfl).discard fun _ => .throw) .pure

theorem steps_requireCap : StepsOk (Makes conn IdleChange) (requireCap cfg conn) := by
  refine .bind (steps_act fun choice b => ?_) fun _ => .ite .pure .throw
  split
  · exact .none b
  · exact .count b conn choice.now

theorem steps_requireWrite : StepsOk (Makes conn IdleChange) (requireWrite cfg conn topic) :=
  .bind steps_look fun _ => .ite .pure .throw

theorem steps_onPubrec : StepsOk (Makes conn IdleChange) (onPubrec conn payload) := by
  unfold onPubrec
  split
  · exact .throw
  next pid _ _ =>
  refine .bind (steps_act fun _ b => ?_) fun _ => .ite (steps_answer rfl) .pure
  split
  · exact .outgoing b conn (fun cl => { cl with qos2Out := cl.qos2Out.insert pid .awaitPubcomp }) fun _ => rfl
  · exact .none b

theorem steps_onPubcomp : StepsOk (Makes conn IdleChange) (onPubcomp conn payload) := by
  unfold onPubcomp
  split
  · exact .throw
  · exact steps_outgoing fun _ => rfl

end

theorem steps_enqueue {call : Call} {msg : Message} {topic filter : String} {qos : Nat} :
    StepsOk (Makes call.conn (PublishChange call msg)) (enqueue call i topic payload qos filter) := by
  refine .bind (steps_act fun _ b => .reserve b i) fun id => steps_act fun choice b => ?_
  dsimp only
  split
  · rw [if_neg Bool.false_ne_true, observe_nil]
    exact .send (.idle (.none b))
  · next h =>
    have hclosed : (b.session i).closed = false := by simp_all
    exact .put b i { msg := { id, topic, payload, qos }, filter, call } hclosed rfl

theorem steps_publishLive {call : Call} {msg : Message} {target : Nat} :
    StepsOk (Makes call.conn (SendChange call msg)) (publishLive call msg target) := by
  refine .bind (steps_act fun _ b => ?_) fun found => ?_
  · dsimp only
    cases hfound : matching msg.topic (b.client target).subs with
    | none =>
      rw [Option.toList_none, map_nil, observe_nil]
      exact .idle (.none b)
    | some sub => exact .matched b target sub hfound
  · cases found with
    | none => exact .pure
    | some sub => exact (steps_sendPublish (fun _ _ => .idle) fun b pid => .sent b target pid _ _).discard

theorem steps_publishQueued {call : Call} {msg : Message} :
    StepsOk (Makes call.conn (PublishChange call msg)) (publishQueued call msg i) := by
  refine .bind (steps_look.mono (Makes.mono fun _ _ h => .send (.idle h))) fun live => .ite .pure ?_
  refine .bind (steps_act fun _ b => ?_) fun found => ?_
  · dsimp only
    cases hfound : matching msg.topic (b.session i).subs with
    | none =>
      rw [Option.toList_none, map_nil, observe_nil]
      exact .send (.idle (.none b))
    | some sub => exact .send (.selected b i sub hfound)
  · cases found with
    | none => exact .pure
    | some sub => exact steps_enqueue

theorem steps_publish {call : Call} {msg : Message} :
    StepsOk (Makes call.conn (PublishChange call msg)) (publish cfg call msg) := by
  have hsend {α : Type} {p : Act α} (h : StepsOk (Makes call.conn (SendChange call msg)) p) :
      StepsOk (Makes call.conn (PublishChange call msg)) p := h.mono (Makes.mono fun _ _ => .send)
  refine .bind (steps_act fun _ b => .send (.publishing b)) fun targets => ?_
  refine .bind (.forM fun _ => hsend steps_publishLive) fun _ => ?_
  refine .bind (.ite (.bind (steps_act fun _ b => ?_) fun is => .forM fun _ => steps_publishQueued) .pure) fun _ => ?_
  · rw [observe_nil]
    exact .send (.idle (.none b))
  · exact steps_act fun _ b => .send (.published b)

theorem steps_replay : StepsOk (Makes conn (ReplayChange conn i)) (replay conn i) := by
  refine .bind (steps_act fun _ b => .listed b) fun entries => .forM fun entry => ?_
  refine .bind (steps_sendPublish (fun _ _ => .idle) fun b pid => .replayed b pid entry) fun ok => .ite ?_ .throw
  refine steps_act fun choice b => ?_
  dsimp only
  split
  · exact .kept b entry
  · next h =>
    have hclosed : (b.session i).closed = false := by simp_all
    exact .remove b entry hclosed

theorem steps_discardSession : StepsOk (Makes conn (DiscardChange conn clientID)) (discardSession conn clientID) := by
  refine .bind (steps_act fun _ b => .forget b) fun found => ?_
  refine .bind (.forM_option fun i => steps_act fun _ b => .close b i) fun _ => steps_act fun choice b => ?_
  refine .delete b _ ?_
  split
  · exact .inl rfl
  · exact .inr rfl

theorem steps_takeOver : StepsOk (Makes conn (JoinChange conn clientID)) (takeOver conn clientID) := by
  refine .bind (steps_act fun choice b => ?_) fun found => ?_
  · split
    · next i h => exact .found b i h
    · next h =>
      split
      · exact .none b
      · exact .opened b h
  · refine .bind (steps_act fun _ b => .session b found.1) fun _ => ?_
    refine .bind (steps_act fun _ b => .attach b found.1) fun _ => ?_
    exact .bind (steps_act fun _ b => .restore b found.1) fun _ => .pure

theorem steps_onConnect :
    StepsOk (Makes conn (ConnectChange conn)) (onConnect cfg conn payload) := by
  unfold onConnect
  split
  · exact .throw
  next info _ =>
  refine .bind (steps_requireAuth.mono (Makes.mono fun _ _ => .idle)) fun _ => ?_
  refine .bind (steps_update fun b => .username b info.username) fun _ => ?_
  refine .bind (.ite .pure (.ite (.bind ?_ fun _ => .pure) ?_)) fun present => ?_
  · exact steps_discardSession.mono (Makes.mono fun _ _ => .discard info.clientID)
  · exact steps_takeOver.mono (Makes.mono fun _ _ => .join info.clientID)
  refine .bind ((steps_answer rfl).mono (Makes.mono fun _ _ => .idle)) fun _ => ?_
  refine .bind (steps_look.mono (Makes.mono fun _ _ => .idle)) fun session => .forM_option fun i => ?_
  exact steps_replay.mono (Makes.mono fun _ _ => .replay i)

theorem steps_aside {α : Type} {p : Act α} (h : StepsOk (Makes conn IdleChange) p) :
    StepsOk (Makes conn (AsideChange conn)) p := h.mono (Makes.mono fun _ _ => .idle)

theorem steps_answerAside {reply : Reply} : StepsOk (Makes conn (AsideChange conn)) (answer conn reply []) := by
  refine .bind (steps_act fun choice b => ?_) fun _ => .ite .pure .throw
  split
  · exact .idle (.none b)
  · exact .wrote b reply

theorem steps_writeAcked {reply : Reply} {msg : Message} :
    StepsOk (Makes conn (AsideChange conn)) (write conn conn reply [.acked conn index msg]) := by
  refine steps_act fun choice b => ?_
  split
  · exact .idle (.none b)
  · exact .acked b reply index msg

theorem steps_handle {msg : Message} :
    StepsOk (Makes conn (AsideChange conn)) (handle cfg conn index msg) :=
  .ite (steps_act fun choice b => .handled b index msg !choice.fails) .pure

theorem steps_onSubscribe :
    StepsOk (Makes conn (SubscribeChange conn)) (onSubscribe cfg conn payload) := by
  unfold onSubscribe
  split
  · exact .throw
  refine .bind (steps_look.mono (Makes.mono fun _ _ => .idle)) fun username => ?_
  refine .bind (steps_act fun _ b => .grant b _) fun all => ?_
  refine .bind (steps_look.mono (Makes.mono fun _ _ => .idle)) fun session => ?_
  refine .bind (.forM_option fun i => steps_act fun _ b => .setSubs b i all) fun _ => ?_
  exact (steps_answer rfl).mono (Makes.mono fun _ _ => .idle)

theorem steps_close : StepsOk (Makes conn (CloseChange conn)) (close conn) := by
  refine .bind (steps_act fun _ b => .leave b) fun _ => .bind (steps_act fun _ b => .erase b) fun _ => ?_
  exact .bind (steps_act fun _ b => .none b) fun _ => .forM_option fun i => steps_act fun _ b => .detach b i

theorem steps_accept : StepsOk (Makes conn (AcceptChange conn)) (accept conn cfg) := by
  refine steps_act fun _ b => ?_
  dsimp only
  split
  · exact .none b
  · next h =>
    split
    · exact .refuse b h
    · exact .register b h

theorem steps_reserve : StepsOk (Makes conn (AcceptChange conn)) (reserve conn) := by
  refine steps_act fun _ b => ?_
  split
  · exact .none b
  · next h => exact .reserve b h

section

def Observation.author : Observation → Option Nat
  | .read conn _ _ | .handled conn _ _ _ | .acked conn _ _ | .held conn _ _ | .released conn _ _ _
  | .joining conn _ | .joined conn _ | .leaving conn | .left conn _ | .listed conn _ _ | .replayed conn _ _ _
  | .deleted conn _ _ | .discarding conn _ _ | .discarded conn _ => some conn
  | .publishing call _ | .matched call _ _ | .selected call _ _ | .sent call _ _ _ _ | .reserved call _ _
  | .published call _ => some call.conn
  | .queued _ entry => some entry.call.conn
  | .wrote _ _ | .opened _ _ | .granted _ _ | .client _ | .restarted => none

def Client.SameButBooks (cl cl' : Client) : Prop :=
  cl' = { cl with
    nextOutID := cl'.nextOutID
    qos2Out := cl'.qos2Out
    pubWindow := cl'.pubWindow
    pubCount := cl'.pubCount }

theorem Client.SameButOutgoing.books {cl cl' : Client} (h : cl.SameButOutgoing cl') : cl.SameButBooks cl' := by
  unfold Client.SameButBooks
  rw [h]

theorem Client.sameButBooks_count (cl : Client) (now : Int) : cl.SameButBooks (cl.count now) := by
  unfold Client.SameButBooks Client.count
  split <;> rfl

structure Confined (conn : Nat) (b b' : Broker) : Prop where
  history : ∃ os, b'.history = b.history ++ os ∧ ∀ o ∈ os, o ≠ .restarted ∧ ∀ author ∈ o.author, author = conn
  known : ∀ other ∈ b.known, other ∈ b'.known
  client : ∀ other ≠ conn, (b.client other).SameButBooks (b'.client other)
  nextSession : b.nextSession ≤ b'.nextSession
  clientID : ∀ i < b.nextSession, (b'.session i).clientID = (b.session i).clientID
  closed : ∀ i < b.nextSession, (b.session i).closed = true → (b'.session i).closed = true

variable {b' : Broker}

theorem Confined.refl (conn : Nat) (b : Broker) : Confined conn b b where
  history := ⟨[], by simp, nofun⟩
  known := fun _ h => h
  client := fun _ _ => rfl
  nextSession := le_rfl
  clientID := fun _ _ => rfl
  closed := fun _ _ h => h

theorem Confined.observe {os : List Observation} (h : Confined conn b b')
    (hos : ∀ o ∈ os, o ≠ .restarted ∧ ∀ author ∈ o.author, author = conn) : Confined conn b (b'.observe os) where
  history := by
    obtain ⟨before, hbefore, hown⟩ := h.history
    refine ⟨before ++ os, by simp [Broker.observe, hbefore], fun o ho => ?_⟩
    exact (mem_append.mp ho).elim (hown o) (hos o)
  known := h.known
  client := h.client
  nextSession := h.nextSession
  clientID := h.clientID
  closed := h.closed

theorem confined_setClient {target : Nat} {f : Client → Client}
    (h : target ≠ conn → (b.client target).SameButBooks (f (b.client target))) :
    Confined conn b (b.setClient target f) where
  history := (Confined.refl conn b).history
  known := fun _ h => h
  client := by
    intro other hother
    rw [client_setClient]
    split
    · next heq =>
      subst heq
      exact h hother
    · rfl
  nextSession := le_rfl
  clientID := fun _ _ => rfl
  closed := fun _ _ h => h

theorem confined_setOwn {f : Client → Client} : Confined conn b (b.setClient conn f) :=
  confined_setClient fun h => absurd rfl h

theorem confined_setSession {f : PersistentSession → PersistentSession} (hclientID : ∀ s, (f s).clientID = s.clientID)
    (hclosed : ∀ s, s.closed = true → (f s).closed = true) : Confined conn b (b.setSession i f) where
  history := (Confined.refl conn b).history
  known := fun _ h => h
  client := fun _ _ => rfl
  nextSession := le_rfl
  clientID := by
    intro j _
    rw [session_setSession]
    split
    · next heq => rw [hclientID, heq]
    · rfl
  closed := by
    intro j _ h
    rw [session_setSession]
    split
    · next heq => exact hclosed _ (heq ▸ h)
    · exact h

theorem confined_changeQueue {f : OrderedMap String Queued → OrderedMap String Queued} :
    Confined conn b (b.changeQueue i f) :=
  let hsession : Confined conn b (b.setSession i fun s => { s with items := f s.items }) :=
    confined_setSession (fun _ => rfl) fun _ h => h
  { hsession with }

theorem confined_newSession {dir : Dir} : Confined conn b (b.newSession clientID dir) where
  history := (Confined.refl conn b).history
  known := fun _ h => h
  client := fun _ _ => rfl
  nextSession := Nat.le_succ _
  clientID := fun j hj => congrArg _ (Function.update_of_ne (Nat.ne_of_lt hj) ..)
  closed := by
    intro j hj h
    change (Function.update b.session b.nextSession _ j).closed = true
    rw [Function.update_of_ne (Nat.ne_of_lt hj)]
    exact h

theorem confined_of_idle (h : IdleChange b b') : Confined conn b b' := by
  cases h with
  | none => exact .refl conn b
  | wrote target reply h => exact (Confined.refl conn b).observe (by simp [Observation.author])
  | outgoing target f h => exact confined_setClient fun _ => (h _).books
  | count target now => exact confined_setClient fun _ => Client.sameButBooks_count _ now

theorem confined_of_replay (h : ReplayChange conn i b b') : Confined conn b b' := by
  cases h with
  | idle h => exact confined_of_idle h
  | remove entry hclosed => exact Confined.observe confined_changeQueue (by simp [Observation.author])
  | _ => exact (Confined.refl conn b).observe (by simp [Observation.author])

theorem confined_of_discard (h : DiscardChange conn clientID b b') : Confined conn b b' := by
  cases h with
  | none => exact .refl conn b
  | forget => exact Confined.observe { Confined.refl conn b with } (by simp [Observation.author])
  | close i => exact confined_setSession (fun _ => rfl) fun _ _ => rfl
  | delete c h =>
    refine Confined.observe ?_ (by simp [Observation.author])
    rcases h with rfl | rfl
    · exact .refl conn c
    · exact { Confined.refl conn b with }

theorem confined_of_join (h : JoinChange conn clientID b b') : Confined conn b b' := by
  cases h with
  | none => exact .refl conn b
  | found i h => exact (Confined.refl conn b).observe (by simp [Observation.author])
  | opened h => exact Confined.observe confined_newSession (by simp [Observation.author])
  | session i => exact confined_setOwn
  | attach i => exact confined_setSession (fun _ => rfl) fun _ h => h
  | restore i => exact Confined.observe confined_setOwn (by simp [Observation.author])

theorem confined_of_aside (h : AsideChange conn b b') : Confined conn b b' := by
  cases h with
  | idle h => exact confined_of_idle h
  | hold pid pending => exact Confined.observe confined_setOwn (by simp [Observation.author])
  | release index pid => exact Confined.observe confined_setOwn (by simp [Observation.author])
  | _ => exact (Confined.refl conn b).observe (by simp [Observation.author])

theorem confined_of_subscribe (h : SubscribeChange conn b b') : Confined conn b b' := by
  cases h with
  | idle h => exact confined_of_idle h
  | grant granted => exact confined_setOwn
  | setSubs i all =>
    exact Confined.observe (confined_setSession (fun _ => rfl) fun _ h => h) (by simp [Observation.author])

theorem confined_of_close (h : CloseChange conn b b') : Confined conn b b' := by
  cases h with
  | none => exact .refl conn b
  | leave => exact Confined.observe confined_setOwn (by simp [Observation.author])
  | erase => exact { Confined.refl conn b with }
  | detach i =>
    refine Confined.observe (confined_setSession (fun s => ?_) fun s h => ?_) (by simp [Observation.author])
    · split <;> rfl
    · split <;> exact h

theorem confined_register : Confined conn b (b.register conn) :=
  let hclient : Confined conn { b with known := conn :: b.known } (b.register conn) := confined_setOwn
  { hclient with known := fun _ h => mem_cons_of_mem conn h }

theorem confined_of_accept (h : AcceptChange conn b b') : Confined conn b b' := by
  cases h with
  | none => exact .refl conn b
  | refuse h => exact confined_register
  | register h =>
    have hregister : Confined conn b (b.register conn) := confined_register
    exact { hregister with }
  | reserve h => exact { Confined.refl conn b with known := fun _ h => mem_cons_of_mem conn h }

end

section

variable {packet : Packet}

theorem sendPublish_rule {contract : Contract Label Broker Choice} {target : Nat} {topic : String}
    {qos : Nat} {dup : Bool} {meaning : Nat → List Observation} {before : Broker → Prop}
    {done : Broker → Prop}
    (hidle : ∀ {α : Type} {p : Act α} (b : Broker), StepsOk (Makes conn IdleChange) p → before b →
      KeepsOk contract (fun _ => before) p b)
    (hwrite : ∀ pid b, before b → KeepsOk contract (fun ok b' => (ok = true → done b') ∧ (ok = false → before b'))
      (write conn target (.publish topic payload qos dup pid) (meaning pid)) b)
    (hb : before b) :
    KeepsOk contract (fun ok b' => (ok = true → done b') ∧ (ok = false → before b'))
      (sendPublish conn target topic payload qos dup meaning) b := by
  refine .bind (.ite (fun _ => hidle b steps_nextOutPacketID hb) fun _ => .pure hb) fun pid b₁ h₁ => ?_
  refine .bind (.ite (fun _ => hidle b₁ (steps_outgoing fun _ => rfl) h₁) fun _ => .pure h₁) fun _ b₂ h₂ => ?_
  refine .bind (hwrite pid b₂ h₂) fun ok b₃ h₃ => ?_
  cases ok with
  | true =>
    refine .bind (.ite (fun hfailed => ?_) fun _ => .pure (h₃.1 rfl)) fun _ b₄ h₄ => .pure ⟨fun _ => h₄, nofun⟩
    simp at hfailed
  | false =>
    refine .bind (.ite (fun _ => ?_) fun _ => .pure (h₃.2 rfl)) fun _ b₄ h₄ => .pure ⟨nofun, fun _ => h₄⟩
    exact hidle b₃ (steps_outgoing fun _ => rfl) (h₃.2 rfl)

variable {contract : Contract Label Broker Choice} {ready : Bool → Nat → Broker → Prop}
  {took : Bool → Nat → Packet → Broker → Prop} {after : Broker → Prop}

/-- What is to be shown of a connection: `ready` holds before each turn of its loop, and `took`
when the packet of the turn is read.  After an error there is only `after`, which no step undoes. -/
structure Serves (cfg : Config) (conn : Nat) (contract : Contract Label Broker Choice)
    (ready : Bool → Nat → Broker → Prop) (took : Bool → Nat → Packet → Broker → Prop)
    (after : Broker → Prop := fun _ => True) : Prop where
  accept : ∀ b, KeepsOk contract (fun _ => ready false 0) (accept conn cfg) b
  read : ∀ connected index packet b, ready connected index b → KeepsOk contract
    (fun _ => took connected index packet) (update conn (fun b => b.observe [.read conn index packet]) (.read packet)) b
  connect : ∀ index packet b, took false index packet b → packet.typ = 1 →
    KeepsOk contract (fun _ => ready true (index + 1)) (onConnect cfg conn packet.payload) b
  ping : ∀ connected index packet b, took connected index packet b → packet.typ = 12 →
    KeepsOk contract (fun _ => ready connected (index + 1)) (answer conn .pingresp []) b
  publish : ∀ index packet b, took true index packet b → packet.typ = 3 →
    KeepsOk contract (fun _ => ready true (index + 1)) (onPublish cfg conn index packet.flags packet.payload) b
  pubrec : ∀ index packet b, took true index packet b → packet.typ = 5 →
    KeepsOk contract (fun _ => ready true (index + 1)) (onPubrec conn packet.payload) b
  pubrel : ∀ index packet b, took true index packet b → packet.typ = 6 →
    KeepsOk contract (fun _ => ready true (index + 1)) (onPubrel cfg conn index packet.payload) b
  pubcomp : ∀ index packet b, took true index packet b → packet.typ = 7 →
    KeepsOk contract (fun _ => ready true (index + 1)) (onPubcomp conn packet.payload) b
  subscribe : ∀ index packet b, took true index packet b →
    KeepsOk contract (fun _ => ready true (index + 1)) (onSubscribe cfg conn packet.payload) b
  skip : ∀ connected index packet b, took connected index packet b → ready connected (index + 1) b
  close : ∀ b, after b → KeepsOk contract (fun _ _ => True) (close conn) b
  after_ready : ∀ connected index b, ready connected index b → after b := by exact fun _ _ _ _ => trivial
  after_rely : ∀ label b b', contract.rely label b b' → after b → after b' := by exact fun _ _ _ _ _ => trivial
  after_guar : ∀ label choice b b', contract.guar label choice b b' → after b → after b' := by
    exact fun _ _ _ _ _ _ => trivial

theorem Serves.onClientPacket (h : Serves cfg conn contract ready took after)
    (hb : took true index packet b) :
    KeepsOk contract (fun _ => ready true (index + 1)) (onClientPacket cfg conn index packet) b := by
  unfold Mqtt.onClientPacket
  split
  · next htyp => exact h.publish index packet b hb htyp
  · next htyp => exact h.pubrec index packet b hb htyp
  · next htyp => exact h.pubrel index packet b hb htyp
  · next htyp => exact h.pubcomp index packet b hb htyp
  · exact h.subscribe index packet b hb

theorem Serves.onPacket (h : Serves cfg conn contract ready took after) {connected : Bool}
    (hb : took connected index packet b) :
    KeepsOk contract (fun connected => ready connected (index + 1)) (onPacket cfg conn connected index packet) b := by
  refine .ite (fun htyp => .ite (fun _ => .throw) fun hfirst => ?_) fun _ => .ite (fun htyp => ?_) fun _ => ?_
  · rw [Bool.not_eq_true] at hfirst
    subst hfirst
    exact .bind (h.connect index packet b hb htyp) fun _ _ hready => .pure hready
  · exact .bind (h.ping connected index packet b hb htyp) fun _ _ hready => .pure hready
  refine .ite (fun _ => .throw) fun _ => .ite (fun _ => .ite (fun hclient => ?_) fun _ => .throw) fun _ => ?_
  · subst hclient
    exact .bind (h.onClientPacket hb) fun _ _ hready => .pure hready
  · exact .pure (h.skip connected index packet b hb)

theorem Serves.serveLoop (h : Serves cfg conn contract ready took after) {connected : Bool}
    {packets : List Packet} (hb : ready connected index b) :
    KeepsOk contract (fun _ _ => True) (serveLoop cfg conn connected index packets) b := by
  induction packets generalizing connected index b with
  | nil => exact .throw
  | cons packet rest ih =>
    exact .bind (h.read connected index packet b hb) fun _ _ htook => .bind (h.onPacket htook) fun _ _ => ih

theorem Serves.serve (h : Serves cfg conn contract ready took after) (stream : Bytes) (b : Broker) :
    KeepsOk contract (fun _ _ => True) (serve cfg conn stream) b := by
  refine .bind (h.accept b) fun _ b₁ hready => ?_
  refine .tryCatch (h.serveLoop hready) (h.after_ready false 0 b₁ hready) h.after_rely h.after_guar ?_
  intro exit b₂ hafter
  cases exit with
  | returned => exact h.close b₂ hafter
  | halted => exact .throw

/-- The same for a contract that cares for the calls of `Publish` only, not for what a turn does
beside them. -/
structure ServesCalls (cfg : Config) (conn : Nat) (contract : Contract Label Broker Choice)
    (ready : Bool → Nat → Broker → Prop) (fine : Packet → Prop) (after : Broker → Prop := fun _ => True) : Prop where
  accept : ∀ b, KeepsOk contract (fun _ => ready false 0) (accept conn cfg) b
  read : ∀ connected index packet b, ready connected index b →
    KeepsOk contract (fun _ b => ready connected index b ∧ fine packet)
      (update conn (fun b => b.observe [.read conn index packet]) (.read packet)) b
  aside : ∀ {α : Type} {p : Act α} {connected : Bool} {index : Nat} {b : Broker},
    StepsOk (Makes conn (AsideChange conn)) p → ready connected index b →
      KeepsOk contract (fun _ => ready connected index) p b
  connect : ∀ index packet b, ready false index b → fine packet → packet.typ = 1 →
    KeepsOk contract (fun _ => ready true (index + 1)) (onConnect cfg conn packet.payload) b
  publish : ∀ index msg b, ready true index b →
    KeepsOk contract (fun _ => ready true (index + 1)) (publish cfg ⟨conn, index⟩ msg) b
  subscribe : ∀ index payload b, ready true index b →
    KeepsOk contract (fun _ => ready true (index + 1)) (onSubscribe cfg conn payload) b
  turn : ∀ connected index b, ready connected index b → ready connected (index + 1) b
  close : ∀ b, after b → KeepsOk contract (fun _ _ => True) (close conn) b
  after_ready : ∀ connected index b, ready connected index b → after b := by exact fun _ _ _ _ => trivial
  after_rely : ∀ label b b', contract.rely label b b' → after b → after b' := by exact fun _ _ _ _ _ => trivial
  after_guar : ∀ label choice b b', contract.guar label choice b b' → after b → after b' := by
    exact fun _ _ _ _ _ _ => trivial

variable {fine : Packet → Prop}

theorem ServesCalls.onPublish (h : ServesCalls cfg conn contract ready fine after) {flags : Nat}
    (hb : ready true index b) :
    KeepsOk contract (fun _ => ready true (index + 1)) (onPublish cfg conn index flags payload) b := by
  unfold Mqtt.onPublish
  split
  · exact .throw
  next msg pid _ =>
  refine .bind (h.aside (steps_aside steps_requireCap) hb) fun _ b₁ h₁ => ?_
  refine .bind (h.aside (steps_aside steps_requireWrite) h₁) fun _ b₂ h₂ => .ite (fun _ => ?_) fun _ => ?_
  · refine .bind (h.aside (steps_update fun b => .hold b pid { msg, index }) h₂) fun _ b₃ h₃ => ?_
    exact h.aside steps_answerAside (h.turn true index b₃ h₃)
  · refine .bind (h.aside steps_handle h₂) fun _ b₃ h₃ => .bind (h.publish index msg b₃ h₃) fun _ b₄ h₄ => ?_
    exact .ite (fun _ => h.aside steps_writeAcked.discard h₄) fun _ => .pure h₄

theorem ServesCalls.onPubrel (h : ServesCalls cfg conn contract ready fine after) (hb : ready true index b) :
    KeepsOk contract (fun _ => ready true (index + 1)) (onPubrel cfg conn index payload) b := by
  unfold Mqtt.onPubrel
  split
  · exact .throw
  next pid _ _ =>
  refine .bind (h.aside (steps_act fun _ b => .release b index pid) hb) fun pending b₁ h₁ => ?_
  cases pending with
  | none => exact h.aside steps_answerAside (h.turn true index b₁ h₁)
  | some pending =>
    refine .bind (h.aside (steps_aside steps_requireWrite) h₁) fun _ b₂ h₂ => ?_
    refine .bind (h.aside steps_handle h₂) fun _ b₃ h₃ => .bind (h.publish index pending.msg b₃ h₃) fun _ b₄ h₄ => ?_
    exact h.aside (.bind steps_writeAcked fun _ => .ite .pure .throw) h₄

theorem ServesCalls.serves (h : ServesCalls cfg conn contract ready fine after) :
    Serves cfg conn contract ready (fun connected index packet b => ready connected index b ∧ fine packet) after where
  accept := h.accept
  read := h.read
  connect := fun index packet b hb htyp => h.connect index packet b hb.1 hb.2 htyp
  ping := fun connected index _ b hb _ => h.aside (steps_aside (steps_answer rfl)) (h.turn connected index b hb.1)
  publish := fun _ _ _ hb _ => h.onPublish hb.1
  pubrec := fun index _ b hb _ => h.aside (steps_aside steps_onPubrec) (h.turn true index b hb.1)
  pubrel := fun _ _ _ hb _ => h.onPubrel hb.1
  pubcomp := fun index _ b hb _ => h.aside (steps_aside steps_onPubcomp) (h.turn true index b hb.1)
  subscribe := fun index packet b hb => h.subscribe index packet.payload b hb.1
  skip := fun connected index _ b hb => h.turn connected index b hb.1
  close := h.close
  after_ready := h.after_ready
  after_rely := h.after_rely
  after_guar := h.after_guar

end

end Nodra.Mqtt
